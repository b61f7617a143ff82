import Lift6502.CommandLine.Invocation
import Lift6502.Proofs.Cartridge
import Lift6502.Proofs.Files
import Lift6502.Proofs.Program.CodeBytes
import Lift6502.Proofs.Program.Texts
import Lift6502.Proofs.Routine.Listing

/-! Runs of the command. A run succeeds exactly if the image is converted with
the settings that the invocation asks for, and then the text of the module is
in the output; listings and reports have no influence on that. -/

namespace Lift6502

open Ssa Session

/-! Listings and programs -/

namespace Decoder

variable {decoder : Decoder} {entry : Address}

theorem listingLines_gives_of_body {body : AddressSet}
    (hbody : (decoder.body entry).Gives (.ok body)) :
    ∃ lines, (decoder.listingLines entry).Gives (.ok lines) := by
  obtain ⟨_, hrun⟩ := outcome_eq_ok_iff.mp (hbody {})
  have hisBody := isBody_of_body hrun
  obtain ⟨leaders, hleaders, _⟩ := hisBody.leaders_gives
  have hinstructions := disassemble_gives fun address haddress =>
    hisBody.decodes address (Std.TreeSet.mem_toList.mp haddress)
  exact ⟨_, listingLines_gives hbody hleaders hinstructions⟩

theorem liftRoutine_steady (decoder : Decoder) (platform : Platform) (entry : Address)
    (linkage : Linkage) : (decoder.liftRoutine platform entry linkage).Steady := by
  have hgives := (body_steady decoder entry).of_outcome
  cases hbody : (decoder.body entry).outcome {} with
  | error error =>
      rw [hbody] at hgives
      exact ⟨_, liftRoutine_gives_of_body_error hgives platform linkage⟩
  | ok body =>
      rw [hbody] at hgives
      rcases lifts_or_blames hgives platform linkage with
        ⟨function, hlifted⟩ | ⟨error, _, hfails, _⟩
      · exact ⟨_, hlifted⟩
      · exact ⟨_, hfails⟩

theorem liftRoutines_steady (decoder : Decoder) (platform : Platform) (entry : Address)
    (addresses : List Address) (module : Ssa.Module) :
    (decoder.liftRoutines platform entry addresses module).Steady := by
  induction addresses generalizing module with
  | nil => exact ⟨_, gives_pure module⟩
  | cons address rest ih =>
      exact (decoder.liftRoutine_steady platform address _).bind fun function => ih _

theorem liftProgram_steady (decoder : Decoder) (platform : Platform) (entry : Address)
    (name : String) : (decoder.liftProgram platform entry name).Steady := by
  obtain ⟨_, hroutines⟩ := decoder.routines_steady entry
  refine Steady.bind ⟨_, hroutines.adaptExcept LiftError.decode⟩ fun routines => ?_
  refine Steady.bind ⟨_, gives_note _⟩ fun _ => ?_
  refine (decoder.liftRoutines_steady platform entry _ _).bind fun module => ?_
  exact Steady.bind ⟨_, gives_ofExcept _⟩ fun _ => ⟨_, gives_pure module⟩

end Decoder

theorem Decoder.exists_text_of_liftProgram {decoder : Decoder} {platform : Platform}
    {entry : Address} {name : String} {module : Ssa.Module} {journal journal' : Journal}
    (hrun : decoder.liftProgram platform entry name journal = .ok module journal') :
    ∃ text, module.text = .ok text := by
  obtain ⟨_, functions, _, hfunctions, rfl, _⟩ := liftProgram_ok hrun
  have hlines : ∀ function ∈ functions, ∃ lines, function.lines = .ok lines := by
    intro function hfunction
    obtain ⟨_, _, _, _, hlifted⟩ := exists_routine hfunctions hfunction
    obtain ⟨_, _, _, draft, _, hbuilt, hcomplete, rfl⟩ := exists_built_of_liftRoutine hlifted
    have hreadable := hbuilt.readable hcomplete
    exact ⟨_, Function.lines_eq hreadable.valid hreadable.listed⟩
  choose! lines hlines using hlines
  have hfunctionLines : functions.mapM Function.lines = .ok (functions.map lines) :=
    List.mapM_eq_ok hlines
  unfold Module.text Module.lines
  rw [hfunctionLines]
  exact ⟨_, rfl⟩

/-! Conversions -/

namespace Conversion

variable {conversion : Conversion} {bytes : Array Byte}

theorem run_gives_of_refused {error : CartridgeError}
    (hread : Cartridge.read bytes = .error error) :
    (conversion.run bytes).Gives (.error (.cartridge error)) := by
  unfold run
  rw [hread]
  exact (gives_ofExcept _).bind_error

theorem run_eq_lift {cartridge : Cartridge} (hread : Cartridge.read bytes = .ok cartridge) :
    conversion.run bytes = conversion.lift cartridge := by
  unfold run
  rw [hread]
  rfl

theorem run_gives_of_read {cartridge : Cartridge} {result : Except LiftError Ssa.Module}
    (hread : Cartridge.read bytes = .ok cartridge)
    (hlift : ((conversion.decoder cartridge).liftProgram conversion.platform
      (conversion.entryOf cartridge) conversion.moduleName).Gives result) :
    (conversion.run bytes).Gives
      (result.mapError (.lift (conversion.entryOf cartridge))) := by
  rw [run_eq_lift hread]
  exact hlift.adaptExcept _

theorem exists_text {module : Ssa.Module}
    (hmodule : (conversion.run bytes).outcome {} = .ok module) :
    ∃ text, module.text = .ok text := by
  obtain ⟨_, hrun⟩ := outcome_eq_ok_iff.mp hmodule
  cases hread : Cartridge.read bytes with
  | error error => cases (run_gives_of_refused hread).of_ok hrun
  | ok cartridge =>
      rw [run_eq_lift hread] at hrun
      exact Decoder.exists_text_of_liftProgram (ok_of_adaptExcept hrun)

end Conversion

namespace CommandLine

/-! Progress -/

namespace Running

variable {α β : Type}

def value? (running : Running α) (progress : Progress) : Option α :=
  match running progress with
  | .ok value _ => some value
  | .error _ _ => none

/-- A run comes to the same, whatever has been reported. -/
def ComesTo (running : Running α) (result : Option α) : Prop :=
  ∀ progress, running.value? progress = result

theorem comesTo_pure (value : α) : ComesTo (pure value) (some value) :=
  fun _ => rfl

theorem comesTo_throw (failure : Failure) : ComesTo (throw failure : Running α) none :=
  fun _ => rfl

theorem comesTo_print (lines : List String) : (print lines).ComesTo (some ()) :=
  fun _ => rfl

theorem comesTo_info (limit : Level) (message : String) : (info limit message).ComesTo (some ()) :=
  comesTo_print _

theorem value?_bind (running : Running α) (next : α → Running β) (progress : Progress) :
    value? (running >>= next) progress =
      match running progress with
      | .ok found progress' => (next found).value? progress'
      | .error _ _ => none := by
  show (match EStateM.bind running next progress with
    | .ok value _ => some value
    | .error _ _ => none) = _
  unfold EStateM.bind
  cases running progress <;> rfl

theorem ComesTo.bind {running : Running α} {value : α} {next : α → Running β} {result : Option β}
    (hrunning : running.ComesTo (some value)) (hnext : (next value).ComesTo result) :
    ComesTo (running >>= next) result := by
  intro progress
  have hvalue := hrunning progress
  rw [value?_bind]
  unfold value? at hvalue
  cases hrun : running progress with
  | ok found progress' =>
      rw [hrun] at hvalue
      cases hvalue
      exact hnext progress'
  | error failure progress' =>
      rw [hrun] at hvalue
      cases hvalue

theorem ComesTo.bind_none {running : Running α} {next : α → Running β}
    (hrunning : running.ComesTo none) : ComesTo (running >>= next) none := by
  intro progress
  have hvalue := hrunning progress
  rw [value?_bind]
  unfold value? at hvalue
  cases hrun : running progress with
  | ok found progress' =>
      rw [hrun] at hvalue
      cases hvalue
  | error failure progress' => rfl

/-- Nothing before a step that fails keeps it from failing. -/
theorem comesTo_none_of_next {running : Running α} {next : α → Running β}
    (hnext : ∀ value, (next value).ComesTo none) : ComesTo (running >>= next) none := by
  intro progress
  rw [value?_bind]
  cases running progress with
  | ok found progress' => exact hnext found progress'
  | error failure progress' => rfl

/-- A step that is taken only sometimes, and never fails. -/
theorem comesTo_ite {condition : Prop} [Decidable condition] {running : Running Unit}
    {next : Unit → Running α} {result : Option α} (hrunning : running.ComesTo (some ()))
    (hnext : (next ()).ComesTo result) :
    ComesTo (if condition then running >>= next else next ()) result := by
  split
  · exact hrunning.bind hnext
  · exact hnext

theorem comesTo_get {next : Progress → Running α} {result : Option α}
    (hnext : ∀ progress, (next progress).ComesTo result) : ComesTo (get >>= next) result :=
  fun progress => hnext progress progress

theorem comesTo_session {ε : Type} {work : Session ε α} {result : Except ε α}
    (hwork : work.Gives result) (limit : Level) (failure : ε → Failure) :
    (session limit failure work).ComesTo result.toOption := by
  intro progress
  have hvalue := hwork progress.journal
  unfold outcome at hvalue
  unfold value? session
  cases hrun : work progress.journal with
  | ok found journal =>
      rw [hrun] at hvalue
      rw [← hvalue]
      rfl
  | error error journal =>
      rw [hrun] at hvalue
      rw [← hvalue]
      rfl

theorem comesTo_forM {items : List α} {step : α → Running Unit}
    (hsteps : ∀ item ∈ items, (step item).ComesTo (some ())) :
    ComesTo (items.forM step) (some ()) := by
  induction items with
  | nil => exact comesTo_pure ()
  | cons item rest ih =>
      obtain ⟨hitem, hrest⟩ := List.forall_mem_cons.mp hsteps
      exact hitem.bind (ih hrest)

end Running

namespace Invocation

open Running

variable {invocation : Invocation} {decoder : Decoder} {entry : Address}

theorem comesTo_printListings {routines : AddressSet}
    (hroutines : (decoder.routines entry).Gives (.ok routines)) :
    (invocation.printListings decoder entry).ComesTo (some ()) := by
  obtain ⟨_, hrun⟩ := outcome_eq_ok_iff.mp (hroutines {})
  have hbodies : ∀ routine ∈ routines, True ∧ ∃ body, (decoder.body routine).Gives (.ok body) :=
    Decoder.mem_of_routines trivial (fun _ _ _ _ => trivial) hrun
  refine (comesTo_session hroutines _ _).bind (comesTo_forM fun address haddress => ?_)
  obtain ⟨_, body, hbody⟩ := hbodies address (Std.TreeSet.mem_toList.mp haddress)
  obtain ⟨lines, hlines⟩ := Decoder.listingLines_gives_of_body hbody
  exact (comesTo_session hlines _ _).bind (comesTo_print _)

theorem comesTo_printListings_of_lift {platform : Platform} {name : String} {module : Ssa.Module}
    (hlift : (decoder.liftProgram platform entry name).Gives (.ok module)) :
    (invocation.printListings decoder entry).ComesTo (some ()) := by
  have hroutines := (decoder.routines_steady entry).of_outcome
  cases hfound : (decoder.routines entry).outcome {} with
  | error cause =>
      rw [hfound] at hroutines
      have hfails : (decoder.liftProgram platform entry name).Gives (.error (.decode cause)) :=
        (hroutines.adaptExcept LiftError.decode).bind_error
      cases (hlift {}).symm.trans (hfails {})
  | ok routines =>
      rw [hfound] at hroutines
      exact comesTo_printListings hroutines

theorem comesTo_readCartridge (invocation : Invocation) (bytes : Array Byte) :
    (invocation.readCartridge (.ok bytes)).ComesTo (Cartridge.read bytes).toOption := by
  simp only [readCartridge]
  cases Cartridge.read bytes with
  | ok cartridge => exact comesTo_pure cartridge
  | error error => exact comesTo_throw _

/-- The settings of the conversion that is asked for. -/
def settings (invocation : Invocation) : Conversion where
  entry := invocation.entry
  platform := invocation.platform
  policy := if invocation.strict then .strict else .lenient
  moduleName := invocation.moduleName

/-- A run comes to the text of the module that the image is converted to. -/
theorem comesTo_work (invocation : Invocation) (bytes : Array Byte) :
    (invocation.work (.ok bytes)).ComesTo
      (((invocation.settings.run bytes).outcome {}).toOption.bind fun module =>
        module.text.toOption) := by
  have hcartridge := invocation.comesTo_readCartridge bytes
  unfold work
  cases hread : Cartridge.read bytes with
  | error error =>
      rw [hread] at hcartridge
      rw [Conversion.run_gives_of_refused hread {}]
      exact hcartridge.bind_none
  | ok cartridge =>
      rw [hread] at hcartridge
      have hlift := ((invocation.settings.decoder cartridge).liftProgram_steady
        invocation.platform (invocation.settings.entryOf cartridge)
        invocation.moduleName).of_outcome
      have hconverted : (invocation.settings.run bytes).Gives _ :=
        Conversion.run_gives_of_read hread hlift
      refine hcartridge.bind ((comesTo_info _ _).bind ?_)
      cases hmodule : ((invocation.settings.decoder cartridge).liftProgram invocation.platform
          (invocation.settings.entryOf cartridge) invocation.moduleName).outcome {} with
      | error error =>
          rw [hmodule] at hlift hconverted
          have hfails := comesTo_session hlift invocation.logLevel fun error =>
            .ofConversionError (.lift (invocation.settings.entryOf cartridge) error)
          rw [hconverted {}]
          dsimp only
          split
          · exact comesTo_none_of_next fun _ => hfails.bind_none
          · exact hfails.bind_none
      | ok module =>
          rw [hmodule] at hlift hconverted
          have hlifts := comesTo_session hlift invocation.logLevel fun error =>
            .ofConversionError (.lift (invocation.settings.entryOf cartridge) error)
          rw [hconverted {}]
          refine comesTo_ite (comesTo_printListings_of_lift hlift) (hlifts.bind ?_)
          refine (comesTo_info _ _).bind (comesTo_get fun _ => comesTo_ite (comesTo_info _ _) ?_)
          show ComesTo _ module.text.toOption
          cases module.text with
          | ok text => exact comesTo_pure text
          | error fault => exact comesTo_throw _

/-! Ends of runs -/

theorem toOption_result_report (invocation : Invocation) (image : Except String (Array Byte)) :
    (invocation.report image).result.toOption = (invocation.work image).value? {} := by
  unfold report value?
  cases invocation.work image {} <;> rfl

end Invocation

/-- How a run ends that has written a text, apart from its report. -/
def ended (files : Files) (text : String) : Delivery → Outcome × Files
  | .stored written => ({ exitCode := 0 }, written)
  | .printed stream => (Outcome.print { exitCode := 0 } text stream, files)
  | .dropped => ({ exitCode := 0 }, files)

/-- How a run ends that comes to a text or to none, apart from its report. -/
def ending (files : Files) (output : Option String) : Option String → Outcome × Files
  | none => ({ exitCode := 1 }, files)
  | some text =>
      match output with
      | none => ({ exitCode := 0, stdout := text }, files)
      | some path =>
          match files.write path text.toUTF8.data with
          | .error _ => ({ exitCode := 1 }, files)
          | .ok delivery => ended files text delivery

theorem ending_of_write {files : Files} {path text : String} {delivery : Delivery}
    (hwrite : files.write path text.toUTF8.data = .ok delivery) :
    ending files (some path) (some text) = ended files text delivery := by
  simp only [ending, hwrite]

/-- A text goes to the output, and to nothing else. -/
def Delivers (output : Option String) (text : String) (files : Files) (outcome : Outcome)
    (files' : Files) : Prop :=
  match output with
  | none => outcome.stdout = text ∧ files' = files
  | some path => ∃ location, files.Names path location ∧
      match files.node? location with
      | some (.device device) =>
          outcome.stdout = (if device = .stream .stdout then text else "") ∧ files' = files ∧
            (device = .stream .stderr → ∃ report, outcome.stderr = report ++ text)
      | _ =>
          outcome.stdout = "" ∧ files'.read path = .ok text.toUTF8.data ∧
            files.Updates files' location text.toUTF8.data

theorem ending_delivers {files : Files} {output : Option String}
    (houtput : ∀ path, output = some path → files.Accepts path) (text report : String) :
    (ending files output (some text)).1.exitCode = 0 ∧
      Delivers output text files
        { (ending files output (some text)).1 with
          stderr := report ++ (ending files output (some text)).1.stderr }
        (ending files output (some text)).2 := by
  cases output with
  | none => exact ⟨rfl, rfl, rfl⟩
  | some path =>
      obtain ⟨location, hnames, htakes⟩ := houtput path rfl
      have hwrite := hnames.write_eq text.toUTF8.data
      have hstored {written : Files}
          (hwritten : files.write path text.toUTF8.data = .ok (.stored written)) :
          written.read path = .ok text.toUTF8.data ∧
            files.Updates written location text.toUTF8.data := by
        obtain ⟨place, hplace, hupdates, hread⟩ := Files.updates_of_write hwritten
        cases hnames.unique hplace
        exact ⟨hread, hupdates⟩
      unfold Delivers
      cases hnode : files.node? location with
      | none =>
          rw [hnode] at hwrite
          rw [ending_of_write hwrite]
          refine ⟨rfl, location, hnames, ?_⟩
          rw [hnode]
          exact ⟨rfl, hstored hwrite⟩
      | some node =>
          rw [hnode] at hwrite htakes
          cases node with
          | directory => cases htakes
          | file contents =>
              rw [ending_of_write hwrite]
              refine ⟨rfl, location, hnames, ?_⟩
              rw [hnode]
              exact ⟨rfl, hstored hwrite⟩
          | device device =>
              cases device with
              | full | absent => cases htakes
              | null =>
                  rw [ending_of_write hwrite]
                  refine ⟨rfl, location, hnames, ?_⟩
                  rw [hnode]
                  exact ⟨rfl, rfl, nofun⟩
              | stream stream =>
                  rw [ending_of_write hwrite]
                  refine ⟨by cases stream <;> rfl, location, hnames, ?_⟩
                  rw [hnode]
                  cases stream with
                  | stdout => exact ⟨rfl, rfl, nofun⟩
                  | stderr => exact ⟨rfl, rfl, fun _ => ⟨report, rfl⟩⟩

namespace Invocation

variable {invocation : Invocation} {files : Files} {bytes : Array Byte}

theorem exists_deliver_eq (invocation : Invocation) (report : Report) (files : Files) :
    ∃ reported, invocation.deliver report files =
      ({ (ending files invocation.output report.result.toOption).1 with
        stderr := reported ++ (ending files invocation.output report.result.toOption).1.stderr },
      (ending files invocation.output report.result.toOption).2) := by
  obtain ⟨lines, result⟩ := report
  unfold deliver conclude
  cases result with
  | error failure =>
      refine ⟨Lines.join (lines ++ failure.lines), ?_⟩
      cases invocation.output <;> simp [ending, Outcome.failed, Except.toOption]
  | ok text =>
      cases invocation.output with
      | none => exact ⟨Lines.join lines, by simp [ending, Except.toOption]⟩
      | some path =>
          simp only [ending, Except.toOption]
          cases files.write path text.toUTF8.data with
          | error error => exact ⟨_, by rw [String.append_empty]; rfl⟩
          | ok delivery =>
              refine ⟨Lines.join lines, ?_⟩
              rcases delivery with _ | stream | _
              · simp [ended]
              · cases stream <;> simp [ended, Outcome.print]
              · simp [ended]

/-- The ends that a run can come to: an image is converted, or it is not. -/
theorem runAmong_ends (invocation : Invocation) (hinput : files.read invocation.input = .ok bytes)
    (houtput : ∀ path, invocation.output = some path → files.Accepts path) :
    (∃ module text, (invocation.settings.run bytes).outcome {} = .ok module ∧
      module.text = .ok text ∧ (invocation.runAmong files).1.exitCode = 0 ∧
      Delivers invocation.output text files (invocation.runAmong files).1
        (invocation.runAmong files).2) ∨
    ∃ error stderr, (invocation.settings.run bytes).outcome {} = .error error ∧
      invocation.runAmong files = (⟨1, "", stderr⟩, files) := by
  have hwork := invocation.comesTo_work bytes {}
  obtain ⟨report, hrun⟩ := invocation.exists_deliver_eq (invocation.report (.ok bytes)) files
  rw [toOption_result_report] at hrun
  unfold runAmong
  rw [hinput]
  cases hconverted : (invocation.settings.run bytes).outcome {} with
  | error error =>
      rw [hconverted] at hwork
      rw [hwork] at hrun
      exact .inr ⟨error, _, rfl, hrun⟩
  | ok module =>
      obtain ⟨text, htext⟩ := Conversion.exists_text hconverted
      rw [hconverted, Except.toOption, Option.bind_some, htext] at hwork
      rw [hwork] at hrun
      have hdelivers := ending_delivers houtput text report
      refine .inl ⟨module, text, rfl, htext, ?_⟩
      simp only [Except.mapError]
      rw [hrun]
      exact hdelivers

/-- Neither listings nor the details that are reported change how a run ends. -/
theorem runAmong_alike (hinput : files.read invocation.input = .ok bytes) (listing : Bool)
    (verbosity : Nat) :
    let other := { invocation with listing, verbosity }
    (other.runAmong files).1.exitCode = (invocation.runAmong files).1.exitCode ∧
      (other.runAmong files).1.stdout = (invocation.runAmong files).1.stdout ∧
      (other.runAmong files).2 = (invocation.runAmong files).2 := by
  intro other
  obtain ⟨report, hrun⟩ := invocation.exists_deliver_eq (invocation.report (.ok bytes)) files
  obtain ⟨report', hrun'⟩ := other.exists_deliver_eq (other.report (.ok bytes)) files
  rw [toOption_result_report, comesTo_work] at hrun hrun'
  unfold runAmong
  simp only [hinput, show other.input = invocation.input from rfl, Except.mapError]
  rw [hrun, hrun']
  exact ⟨rfl, rfl, rfl⟩

/-- The command does what the conversion does with the settings that are asked
for. It succeeds exactly if the image is converted, and then the text of the
module goes to the output; otherwise nothing is printed but errors, and no file
changes. Neither listings nor the details that are reported change any of
this. -/
theorem runAmong_agrees (invocation : Invocation)
    (hinput : files.read invocation.input = .ok bytes)
    (houtput : ∀ path, invocation.output = some path → files.Accepts path) :
    let conversion : Conversion := {
      entry := invocation.entry
      platform := invocation.platform
      policy := if invocation.strict then .strict else .lenient
      moduleName := invocation.moduleName }
    let run := invocation.runAmong files
    (run.1.exitCode = 0 ↔ ∃ module, (conversion.run bytes).outcome {} = .ok module) ∧
    (∀ module, (conversion.run bytes).outcome {} = .ok module →
      ∃ text, module.text = .ok text ∧ Delivers invocation.output text files run.1 run.2) ∧
    (run.1.exitCode ≠ 0 → run.1.exitCode = 1 ∧ run.1.stdout = "" ∧ run.2 = files) ∧
    ∀ listing verbosity,
      let other := { invocation with listing, verbosity }
      (other.runAmong files).1.exitCode = run.1.exitCode ∧
      (other.runAmong files).1.stdout = run.1.stdout ∧ (other.runAmong files).2 = run.2 := by
  intro conversion run
  have hends := invocation.runAmong_ends hinput houtput
  refine ⟨?_, ?_, ?_, runAmong_alike hinput⟩
  · rcases hends with ⟨module, _, hmodule, _, hexit, _⟩ | ⟨error, stderr, herror, hfailed⟩
    · exact ⟨fun _ => ⟨module, hmodule⟩, fun _ => hexit⟩
    · constructor
      · intro hexit
        rw [show run = _ from hfailed] at hexit
        cases hexit
      · rintro ⟨module, hmodule⟩
        cases hmodule.symm.trans herror
  · intro module hmodule
    rcases hends with ⟨module', text, hmodule', htext, _, hdelivers⟩ | ⟨_, _, herror, _⟩
    · cases hmodule.symm.trans hmodule'
      exact ⟨text, htext, hdelivers⟩
    · cases hmodule.symm.trans herror
  · intro hexit
    rcases hends with ⟨_, _, _, _, hsucceeds, _⟩ | ⟨_, stderr, _, hfailed⟩
    · exact absurd hsucceeds hexit
    · rw [show run = _ from hfailed]
      exact ⟨rfl, rfl, rfl⟩

end Invocation

/-- A return where a program of one bank begins, and nothing else. -/
def bareReturn : Decoder where
  space := Image.space { base := 0xC000, bytes := #[0x60] }
  policy := .strict

theorem instruction?_bareReturn :
    bareReturn.instruction? 0xC000 = some ⟨0xC000, .rts, none, none⟩ := by
  rfl

theorem occupied_bareReturn {byte : Address} (hoccupied : bareReturn.Occupied 0xC000 byte) :
    byte = 0xC000 := by
  obtain ⟨address, instruction, hreaches, hdecoded, offset, hoffset, rfl⟩ := hoccupied
  have haddress : address ∈ [0xC000] := by
    refine hreaches.of_closed List.mem_cons_self fun address haddress instruction hdecoded => ?_
    rw [List.mem_singleton.mp haddress] at hdecoded
    cases instruction?_bareReturn.symm.trans hdecoded
    constructor <;> intro target htarget <;> cases htarget
  rw [List.mem_singleton.mp haddress] at hdecoded
  cases instruction?_bareReturn.symm.trans hdecoded
  have hlength : offset < 1 := hoffset
  rw [Nat.lt_one_iff.mp hlength]
  rfl

theorem exists_lift_of_agreeAt {cartridge : Cartridge}
    (hagree : bareReturn.space.AgreeAt cartridge.space 0xC000) :
    ∃ module, (Conversion.lift ⟨some 0xC000, .flat, .strict, "game"⟩ cartridge).Gives
      (.ok module) := by
  obtain ⟨module, journal, hrun⟩ : ∃ module journal,
      bareReturn.liftProgram .flat 0xC000 "game" {} = .ok module journal :=
    exists_of_isOk (by decide +kernel)
  obtain ⟨routines, _, hroutines, _⟩ := exists_of_bind_ok hrun
  have hpolicy : (Decoder.mk cartridge.space .strict).policy = bareReturn.policy := rfl
  have hagrees (byte : Address) (hoccupied : bareReturn.Occupied 0xC000 byte) :
      bareReturn.space.AgreeAt cartridge.space byte := by
    rw [occupied_bareReturn hoccupied]
    exact hagree
  have halike := Decoder.alike_of_agree hpolicy (ok_of_adaptExcept hroutines) hagrees
  have hequal := halike.liftProgram .flat ⟨0xC000, .refl, .entry⟩ "game"
  have hgives := (Decoder.liftProgram_steady _ _ _ _).gives_of_ok (hequal ▸ hrun)
  exact ⟨module, hgives.adaptExcept _⟩

theorem agreeAt_oneBank :
    bareReturn.space.AgreeAt (Cartridge.contents Cartridge.oneBank).space 0xC000 := by
  have hmaps := Cartridge.mapsProgram_contents Cartridge.accepted_oneBank
  have hlowest : Cartridge.lowestAddress Cartridge.oneBank = (0xC000 : Address).toNat := by
    rw [Cartridge.lowestAddress, Cartridge.bankCount_oneBank]
    rfl
  refine ⟨?_, (hmaps.backed_iff 0xC000).mpr (Nat.le_of_eq hlowest)⟩
  have hread := hmaps.read_program 0xC000 (Nat.le_of_eq hlowest)
  rw [hlowest, Cartridge.programOffset_oneBank, Nat.add_sub_cancel, Cartridge.oneBank,
    Array.getElem?_append_right (by decide), Array.getElem?_replicate] at hread
  exact (Option.some.inj hread).symm

/-- A directory with an image whose program is made of returns, and an empty
file. -/
def home : Files where
  working := []
  nodes := [(["rom"], .file Cartridge.oneBank), (["out"], .file #[])]

theorem names_home {text : String} (hpath : Path.ofText text = .ok ⟨false, [text], false⟩)
    (hchild : Location.child [] text = .ok [text]) : home.Names text [text] :=
  ⟨hpath, rfl, rfl, rfl, hchild⟩

/-- Asks for a strict conversion of the image for flat memory, into the file. -/
def intoFile : Invocation where
  input := "rom"
  output := some "out"
  entry := some 0xC000
  platform := .flat
  listing := true
  strict := true
  moduleName := "game"
  verbosity := 1

theorem runAmong_agrees_intoFile : ∃ module text,
    (Conversion.run ⟨some 0xC000, .flat, .strict, "game"⟩ Cartridge.oneBank).outcome {} =
      .ok module ∧
    module.text = .ok text ∧ (intoFile.runAmong home).1.exitCode = 0 ∧
    (intoFile.runAmong home).1.stdout = "" ∧
    (intoFile.runAmong home).2.read "out" = .ok text.toUTF8.data ∧
    (intoFile.runAmong home).2.read "rom" = .ok Cartridge.oneBank := by
  have hrom : home.Names "rom" ["rom"] := names_home (by decide +kernel) rfl
  have hout : home.Names "out" ["out"] := names_home (by decide +kernel) rfl
  have hnode : home.node? ["rom"] = some (.file Cartridge.oneBank) := rfl
  have hinput : home.read "rom" = .ok Cartridge.oneBank := hrom.read_file hnode
  have hempty : home.node? ["out"] = some (.file #[]) := rfl
  have hread : Cartridge.read Cartridge.oneBank = .ok (Cartridge.contents Cartridge.oneBank) := by
    rw [Cartridge.read_eq, (Cartridge.refusal?_eq_none_iff _).mpr Cartridge.accepted_oneBank]
    rfl
  obtain ⟨module, hlift⟩ := exists_lift_of_agreeAt agreeAt_oneBank
  have hmodule : (Conversion.run ⟨some 0xC000, .flat, .strict, "game"⟩ Cartridge.oneBank).Gives
      (.ok module) := by
    rw [Conversion.run_eq_lift hread]
    exact hlift
  obtain ⟨hexit, hdelivers, _⟩ := intoFile.runAmong_agrees hinput (by
    rintro path ⟨rfl⟩
    exact ⟨_, hout, rfl⟩)
  obtain ⟨text, htext, location, hnames, hwritten⟩ := hdelivers module (hmodule {})
  cases hout.unique hnames
  obtain ⟨hstdout, hreads, hupdates⟩ := hwritten
  refine ⟨module, text, hmodule {}, htext, hexit.mpr ⟨module, hmodule {}⟩, hstdout, hreads, ?_⟩
  exact (hupdates.read_other (by simp [hempty]) hrom (by decide)).trans hinput

end CommandLine

end Lift6502
