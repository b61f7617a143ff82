import Lift6502.Proofs.Program.Preservation

/-! Programs whose data accesses go to a host with a state of its own. Such a
host can keep a record of its accesses, so a program that agrees with the
machine on every host makes the same accesses in the same order. -/

namespace Lift6502

variable {σ τ α β : Type}

/-! Hosts seen through a view of their state -/

namespace Host

/-- An access that comes to the same on a state and on what is seen of it. -/
def Shows (view : σ → τ) (fine : Access σ α) (coarse : Access τ α) : Prop :=
  ∀ state, coarse (view state) = (fine state).map (Prod.map id view)

variable {view : σ → τ}

theorem Shows.pure (value : α) :
    Shows view (pure value : Access σ α) (pure value : Access τ α) :=
  fun _ => rfl

theorem Shows.failure : Shows view (failure : Access σ α) (failure : Access τ α) :=
  fun _ => rfl

theorem Shows.bind {fine : Access σ α} {coarse : Access τ α} {fineRest : α → Access σ β}
    {coarseRest : α → Access τ β} (hfirst : Shows view fine coarse)
    (hrest : ∀ value, Shows view (fineRest value) (coarseRest value)) :
    Shows view (fine >>= fineRest) (coarse >>= coarseRest) := by
  intro state
  show (coarse (view state)).bind _ = ((fine state).bind _).map _
  rw [hfirst state]
  cases fine state with
  | none => rfl
  | some outcome => exact hrest outcome.1 outcome.2

/-- A host that does what another does as far as the view goes. -/
structure Refines (fine : Host σ) (coarse : Host τ) (view : σ → τ) : Prop where
  load : ∀ address, Shows view (fine.load address) (coarse.load address)
  store : ∀ address value, Shows view (fine.store address value) (coarse.store address value)

end Host

namespace Machine

open Host

variable {fine : Host σ} {coarse : Host τ} {view : σ → τ} (hrefines : fine.Refines coarse view)
  (registers : Registers)

include hrefines

theorem shows_address (operand : Option Operand) :
    Shows view (address fine registers operand) (address coarse registers operand) := by
  rcases operand with _ | operand
  · exact .failure
  cases operand with
  | absolute | zeroPage | absoluteX | absoluteY => exact .pure _
  | indirectY pointer =>
      exact .bind (hrefines.load _) fun low => .bind (hrefines.load _) fun high => .pure _
  | immediate | relative => exact .failure

theorem shows_value (operand : Option Operand) :
    Shows view (value fine registers operand) (value coarse registers operand) := by
  have hload : Shows view (address fine registers operand >>= fine.load)
      (address coarse registers operand >>= coarse.load) :=
    .bind (shows_address hrefines registers operand) hrefines.load
  rcases operand with _ | operand
  · exact hload
  cases operand with
  | immediate => exact .pure _
  | absolute | zeroPage | absoluteX | absoluteY | indirectY | relative => exact hload

theorem shows_modifyMemory (operand : Option Operand) (change : Byte → Byte) :
    Shows view (modifyMemory fine registers operand change)
      (modifyMemory coarse registers operand change) :=
  .bind (shows_address hrefines registers operand) fun address =>
    .bind (hrefines.load address) fun _ => .bind (hrefines.store address _) fun _ => .pure _

omit hrefines in
theorem shows_target (instruction : Instruction) :
    Shows view (target instruction : Access σ Address) (target instruction) := by
  intro state
  rw [target_eq, target_eq]
  cases instruction.target? <;> rfl

theorem shows_execute (instruction : Instruction) :
    Shows view (execute fine instruction registers) (execute coarse instruction registers) := by
  rw [execute_eq_perform, execute_eq_perform]
  unfold perform
  cases instruction.operation with
  | load | compare | logic | bitTest | addWithCarry | subtractWithCarry =>
      exact .bind (shows_value hrefines registers _) fun _ => .pure _
  | store =>
      exact .bind (shows_address hrefines registers _) fun _ =>
        .bind (hrefines.store _ _) fun _ => .pure _
  | incrementMemory | decrementMemory =>
      exact .bind (shows_modifyMemory hrefines registers _ _) fun _ => .pure _
  | branch | jump | call => exact .bind (shows_target instruction) fun _ => .pure _
  | increment | decrement | transfer | setFlag | ret | idle => exact .pure _

omit hrefines

def Configuration.map (view : σ → τ) (configuration : Configuration σ) : Configuration τ :=
  ⟨configuration.registers, configuration.counter, configuration.returns,
    view configuration.state⟩

def Progress.map (view : σ → τ) : Progress σ → Progress τ
  | .running configuration => .running (configuration.map view)
  | .returned registers state => .returned registers (view state)
  | .stuck => .stuck

theorem Progress.map_eq_returned_iff {progress : Progress σ} {registers : Registers} {seen : τ} :
    progress.map view = .returned registers seen ↔
      ∃ state, progress = .returned registers state ∧ view state = seen := by
  cases progress <;> simp [Progress.map, and_assoc, eq_comm]

theorem transfer_map (instruction : Instruction) (returns : List Address) (state : σ)
    (control : Control) :
    transfer instruction returns registers (view state) control =
      (transfer instruction returns registers state control).map view := by
  cases control with
  | next | goTo | call => rfl
  | ret => cases returns <;> rfl

include hrefines

theorem step_map (decoder : Decoder) (configuration : Configuration σ) :
    step decoder coarse (configuration.map view) =
      (step decoder fine configuration).map view := by
  obtain ⟨registers, counter, returns, state⟩ := configuration
  unfold step
  dsimp only [Configuration.map]
  cases decoder.instruction? counter with
  | none => rfl
  | some instruction =>
      dsimp only
      rw [shows_execute hrefines registers instruction state]
      cases execute fine instruction registers state with
      | none => rfl
      | some outcome => exact transfer_map outcome.1.1 instruction returns outcome.2 outcome.1.2

theorem run_map (decoder : Decoder) (steps : Nat) (configuration : Configuration σ) :
    run decoder coarse steps (configuration.map view) =
      (run decoder fine steps configuration).map view := by
  induction steps generalizing configuration with
  | zero => rfl
  | succ steps ih =>
      unfold run
      rw [step_map hrefines]
      cases step decoder fine configuration with
      | running next => exact ih next
      | returned | stuck => rfl

theorem returns_view_iff {decoder : Decoder} {entry : Address} {registers registers' : Registers}
    {state : σ} {seen : τ} :
    Returns decoder coarse entry registers (view state) registers' seen ↔
      ∃ state', Returns decoder fine entry registers state registers' state' ∧
        view state' = seen := by
  have hrun (steps : Nat) := run_map hrefines decoder steps ⟨registers, entry, [], state⟩
  constructor
  · rintro ⟨steps, hreturned⟩
    obtain ⟨state', hfine, hseen⟩ :=
      Progress.map_eq_returned_iff.mp ((hrun steps).symm.trans hreturned)
    exact ⟨state', ⟨steps, hfine⟩, hseen⟩
  · rintro ⟨state', ⟨steps, hfine⟩, hseen⟩
    exact ⟨steps, (hrun steps).trans (Progress.map_eq_returned_iff.mpr ⟨state', hfine, hseen⟩)⟩

end Machine

/-! Records of accesses -/

namespace Host

/-- An access and the byte that was read or written. -/
inductive Event
  | read (address : Address) (value : Byte)
  | write (address : Address) (value : Byte)
  deriving DecidableEq, Repr

/-- The host with a record of its accesses, in which all mirrors of an address
are one. -/
def recording (host : Host σ) : Host (σ × List Event) where
  read address state :=
    let (value, inner) := host.read address state.1
    (value, inner, state.2 ++ [.read (Platform.canonical address) value])
  write address value state :=
    (host.write address value state.1, state.2 ++ [.write (Platform.canonical address) value])

theorem recording_refines (host : Host σ) : host.recording.Refines host Prod.fst where
  load _ _ := rfl
  store _ _ _ := rfl

end Host

theorem Platform.canonical_canonical (address : Address) :
    canonical (canonical address) = canonical address := by
  unfold canonical
  split
  · next hlow =>
      have hmasked : address &&& 0x07FF < 0x2000 := by
        rw [UInt16.lt_iff_toNat_lt, UInt16.toNat_and]
        exact Nat.lt_of_le_of_lt Nat.and_le_right (by decide)
      rw [if_pos hmasked, UInt16.and_assoc, UInt16.and_self]
  · rfl

theorem Platform.Mirrored.recording {host : Host σ} (hmirrored : Mirrored host) :
    Mirrored host.recording where
  read address state := by
    simp only [Host.recording, hmirrored.read, canonical_canonical]
  write address value state := by
    simp only [Host.recording, hmirrored.write, canonical_canonical]

namespace Decoder

open Ssa

variable {decoder : Decoder} {platform : Platform} {entry : Address} {routines : AddressSet}
  {module : Ssa.Module}

theorem Renders.returns_iff_evaluates {host : Host σ}
    (hrenders : decoder.Renders platform entry routines module)
    (hmirrored : platform = .nes → Platform.Mirrored host) {registers registers' : Registers}
    {state state' : σ} :
    Machine.Returns decoder host entry registers state registers' state' ↔
      module.Evaluates (platform.bind host) (routineName entry) registers.args state
        registers'.datum state' := by
  rw [hrenders.evaluates_iff hmirrored]
  constructor
  · exact fun hreturns => ⟨registers', rfl, hreturns⟩
  · rintro ⟨found, hsame, hreturns⟩
    rwa [Registers.datum_inj hsame]

/-- A program lifted for a host and the machine come to the same registers and
leave the host in the same state, and the program comes to nothing but
registers. On the way they make the same accesses in the same order. -/
theorem returns_iff_evaluates_nes {name : String} {journal journal' : Journal}
    (hrun : decoder.liftProgram .nes entry name journal = .ok module journal') {host : Host σ}
    (hmirrored : Platform.Mirrored host) (registers : Registers) (state : σ) :
    (∀ registers' state', Machine.Returns decoder host entry registers state registers' state' ↔
      module.Evaluates (Platform.nes.bind host) (routineName entry) registers.args state
        registers'.datum state') ∧
    (∀ result state', module.Evaluates (Platform.nes.bind host) (routineName entry)
        registers.args state result state' →
      ∃ registers' : Registers, result = registers'.datum) ∧
    ∀ registers' state', Machine.Returns decoder host entry registers state registers' state' →
      ∃ events,
        Machine.Returns decoder host.recording entry registers (state, []) registers'
          (state', events) ∧
        module.Evaluates (Platform.nes.bind host.recording) (routineName entry) registers.args
          (state, []) registers'.datum (state', events) := by
  obtain ⟨routines, hrenders⟩ := exists_renders hrun
  refine ⟨fun registers' state' => hrenders.returns_iff_evaluates fun _ => hmirrored, ?_, ?_⟩
  · intro result state' hresult
    obtain ⟨registers', hregisters, _⟩ := (hrenders.evaluates_iff fun _ => hmirrored).mp hresult
    exact ⟨registers', hregisters⟩
  · intro registers' state' hreturns
    obtain ⟨⟨_, events⟩, hrecorded, rfl⟩ : ∃ recorded,
        Machine.Returns decoder host.recording entry registers (state, []) registers' recorded ∧
          recorded.1 = state' :=
      (Machine.returns_view_iff host.recording_refines).mp hreturns
    exact ⟨events, hrecorded,
      (hrenders.returns_iff_evaluates fun _ => hmirrored.recording).mp hrecorded⟩

/-- Reads through a pointer and counts up a mirror of address 5. -/
def probe : Decoder where
  space := Image.space
    { base := 0x8000, bytes := #[0xA0, 0x07, 0xB1, 0x10, 0xEE, 0x05, 0x08, 0x60] }

/-- A host whose every read gives the next number. -/
def ticking : Host Nat where
  read _ count := (UInt8.ofNat count, count + 1)
  write _ _ count := count

theorem returns_and_evaluates_probe : ∃ module journal' registers',
    probe.liftProgram .nes 0x8000 "probe" {} = .ok module journal' ∧
    Platform.Mirrored ticking ∧
    module.Evaluates (Platform.nes.bind ticking.recording) (routineName 0x8000)
      (Registers.args ⟨0, 0, 0, false, false, false, false⟩) (0, []) (Registers.datum registers')
      (4, [.read 0x10 0, .read 0x11 1, .read 0x107 2, .read 5 3, .write 5 4]) := by
  obtain ⟨module, journal', hrun⟩ : ∃ module journal',
      probe.liftProgram .nes 0x8000 "probe" {} = .ok module journal' :=
    Session.exists_of_isOk (by decide +kernel)
  have hmirrored : Platform.Mirrored ticking := ⟨fun _ _ => rfl, fun _ _ _ => rfl⟩
  have hreturns : Machine.Returns probe ticking.recording 0x8000
      ⟨0, 0, 0, false, false, false, false⟩ (0, []) ⟨2, 0, 7, false, false, false, false⟩
      (4, [.read 0x10 0, .read 0x11 1, .read 0x107 2, .read 5 3, .write 5 4]) := ⟨4, rfl⟩
  exact ⟨module, journal', _, hrun, hmirrored,
    ((returns_iff_evaluates_nes hrun hmirrored.recording _ _).1 _ _).mp hreturns⟩

end Decoder

end Lift6502
