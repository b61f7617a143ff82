import Lift6502.Proofs.Program.Closure
import Lift6502.Proofs.Program.Reading
import Lift6502.Proofs.Routine.Flow

/-! The texts of lifted functions tell the functions. -/

namespace Lift6502

open Ssa Token

/-! Words -/

namespace Hex

theorem isLetter_digit : ∀ value : Fin 16, isLetter (digit value) = true := by
  decide

theorem isLetter_of_mem_digits {width value : Nat} {char : Char}
    (hchar : char ∈ digits width value) : isLetter char = true := by
  induction width generalizing value with
  | zero => cases hchar
  | succ width ih =>
      rcases List.mem_append.mp hchar with hhigh | hlow
      · exact ih hhigh
      · rw [List.mem_singleton.mp hlow]
        exact isLetter_digit ⟨value % 16, Nat.mod_lt _ (by decide)⟩

theorem isLetter_of_mem_word {value : UInt16} {char : Char} (hchar : char ∈ (word value).toList) :
    isLetter char = true := by
  rw [word, String.toList_ofList] at hchar
  exact isLetter_of_mem_digits hchar

end Hex

theorem isWord_routineName (entry : Address) : IsWord (routineName entry) := by
  have hletter : IsWord "f_" := by decide
  exact hletter.append fun _ => Hex.isLetter_of_mem_word

theorem isWord_label (leader : Address) : IsWord s!"l_{Hex.word leader}" := by
  have hletter : IsWord "l_" := by decide
  exact hletter.append fun _ => Hex.isLetter_of_mem_word

theorem Register.isWord_name (register : Register) : IsWord register.name := by
  rcases register with holder | condition
  · cases holder <;> decide
  · cases condition <;> decide

theorem Platform.Names.isWord {platform : Platform} {callable : Address → Prop} {inst : Inst}
    (hnames : platform.Names callable inst) : ∀ symbol ∈ inst.symbols, IsWord symbol := by
  intro symbol hsymbol
  cases inst with
  | call callee args =>
      rw [List.mem_singleton.mp hsymbol]
      rcases hnames with ⟨target, _, rfl⟩ | ⟨_, rfl | rfl⟩
      · exact isWord_routineName target
      · decide
      · decide
  | load global index | store global index stored =>
      rw [List.mem_singleton.mp hsymbol, hnames.2]
      decide
  | _ => cases hsymbol

/-! Names -/

theorem Register.toList_name (register : Register) :
    ∃ letter, register.name.toList = [letter] ∧ letter ≠ 'v' := by
  rcases register with holder | condition
  · cases holder <;> exact ⟨_, rfl, by decide⟩
  · cases condition <;> exact ⟨_, rfl, by decide⟩

theorem Register.name_inj {register register' : Register}
    (hnames : register.name = register'.name) : register = register' := by
  have hall : ∀ first ∈ Register.all, ∀ second ∈ Register.all,
      first.name = second.name → first = second := by decide
  exact hall register register.mem_all register' register'.mem_all hnames

theorem Register.name_append_inj {register register' : Register} {rest rest' : String}
    (hnames : register.name ++ rest = register'.name ++ rest') :
    register = register' ∧ rest = rest' := by
  obtain ⟨letter, hletter, _⟩ := register.toList_name
  obtain ⟨letter', hletter', _⟩ := register'.toList_name
  have hchars := congrArg String.toList hnames
  rw [String.toList_append, String.toList_append] at hchars
  obtain ⟨hname, hrest⟩ := List.append_inj hchars (by rw [hletter, hletter']; rfl)
  exact ⟨name_inj (String.toList_inj.mp hname), String.toList_inj.mp hrest⟩

theorem Register.name_append_ne (register : Register) (rest digits : String) :
    register.name ++ rest ≠ "v" ++ digits := by
  obtain ⟨letter, hletter, hne⟩ := register.toList_name
  intro hnames
  have hchars := congrArg String.toList hnames
  rw [String.toList_append, String.toList_append, hletter] at hchars
  exact hne (List.cons.inj hchars).1

namespace Draft

/-- What follows the register in the names of the parameters and of the phis
of a block. -/
def nameEnd (leaders : List Address) : Nat → String
  | 0 => ""
  | position + 1 => "_" ++ Hex.word (leaders.getD position 0)

def nameAt (leaders : List Address) (index : Nat) : String :=
  if index < 7 * (leaders.length + 1) then
    (Register.ofIndex (index % 7)).name ++ nameEnd leaders (index / 7)
  else "v" ++ index.repr

theorem nameEnd_inj {leaders : List Address} (hnodup : leaders.Nodup) {index index' : Nat}
    (hindex : index ≤ leaders.length) (hindex' : index' ≤ leaders.length)
    (hends : nameEnd leaders index = nameEnd leaders index') : index = index' := by
  cases index with
  | zero =>
      cases index' with
      | zero => rfl
      | succ position' => simp [nameEnd, String.ext_iff] at hends
  | succ position =>
      cases index' with
      | zero => simp [nameEnd, String.ext_iff] at hends
      | succ position' =>
          have hleaders := Hex.word_inj ((String.append_right_inj _).mp hends)
          rw [List.getD_eq_getElem _ _ hindex, List.getD_eq_getElem _ _ hindex'] at hleaders
          exact congrArg Nat.succ ((hnodup.getElem_inj_iff).mp hleaders)

theorem nameAt_inj {leaders : List Address} (hnodup : leaders.Nodup) {index index' : Nat}
    (hnames : nameAt leaders index = nameAt leaders index') : index = index' := by
  unfold nameAt at hnames
  split at hnames <;> split at hnames
  · rename_i hseed hseed'
    obtain ⟨hregister, hends⟩ := Register.name_append_inj hnames
    have hmod := congrArg Register.index hregister
    rw [Register.index_ofIndex (Nat.mod_lt index (by decide)),
      Register.index_ofIndex (Nat.mod_lt index' (by decide))] at hmod
    have hdiv := nameEnd_inj hnodup (by omega) (by omega) hends
    omega
  · exact absurd hnames (Register.name_append_ne _ _ _)
  · exact absurd hnames.symm (Register.name_append_ne _ _ _)
  · exact Nat.repr_eq_repr_iff.mp ((String.append_right_inj _).mp hnames)

theorem seedValue_name (leaders : List Address) (feeds : Feeds) (index : Nat) :
    (seedValue leaders feeds index).name =
      some ((Register.ofIndex (index % 7)).name ++ nameEnd leaders (index / 7)) := by
  unfold seedValue
  cases index / 7 with
  | zero => simp [nameEnd]
  | succ position => simp [nameEnd, RegisterFile.phiName, toString, String.append_assoc]

theorem isWord_seedName (leaders : List Address) (register : Register) (index : Nat) :
    IsWord (register.name ++ nameEnd leaders index) := by
  refine register.isWord_name.append ?_
  have hunderscore : IsWord "_" := by decide
  cases index with
  | zero => simp [nameEnd]
  | succ position => exact (hunderscore.append fun _ => Hex.isLetter_of_mem_word).2

section Built

variable {decoder : Decoder} {platform : Platform} {entry : Address} {linkage : Linkage}
  {leaders : List Address} {draft : Draft}
  (hbuilt : Built decoder platform entry linkage leaders draft)

include hbuilt

theorem Built.unnamed {piece : Piece} (hpiece : piece ∈ draft.pieces) :
    ∀ value ∈ piece.code, value.name = none := by
  obtain ⟨index, hindex⟩ := List.mem_iff_getElem?.mp hpiece
  obtain ⟨before, code, values, targets, terminator, hfinished⟩ :=
    hbuilt.exists_finished (List.getElem?_eq_some_iff.mp hindex).1
  cases hindex.symm.trans hfinished.piece
  exact hfinished.ended.sound.unnamed

/-- Parameters and phis are named, and other values by their index. -/
theorem Built.name_eq {index : Nat} {value : Value}
    (hvalue : draft.function.values[index]? = some value) :
    value.name = if index < 7 * (draft.leaders.length + 1) then
      some ((Register.ofIndex (index % 7)).name ++ nameEnd draft.leaders (index / 7))
      else none := by
  by_cases hseed : index < 7 * (draft.leaders.length + 1)
  · rw [draft.getElem?_values_lt hseed] at hvalue
    cases hvalue
    rw [if_pos hseed, seedValue_name]
  · obtain ⟨position, rfl⟩ := Nat.exists_eq_add_of_le (Nat.le_of_not_lt hseed)
    rw [draft.getElem?_values_code] at hvalue
    obtain ⟨piece, hpiece, hcode⟩ := List.mem_flatMap.mp (List.mem_of_getElem? hvalue)
    rw [if_neg hseed]
    exact hbuilt.unnamed hpiece value hcode

theorem Built.valueName_eq {id : ValueId} {name : String}
    (hname : draft.function.valueName id = .ok name) :
    name = "%" ++ nameAt draft.leaders id.index := by
  cases hvalue : draft.function.values[id.index]? with
  | none => simp [Function.valueName, Function.value, hvalue, bind, Except.bind] at hname
  | some value =>
      rw [Function.valueName_eq hvalue, hbuilt.name_eq hvalue] at hname
      rw [← Except.ok.inj hname]
      unfold nameAt
      split <;> rfl

theorem Built.legible : draft.function.Legible where
  name := isWord_routineName draft.entry
  labels block hblock := by
    have hlabel := List.mem_map_of_mem (f := Block.label) (Array.mem_toList_iff.mpr hblock)
    rw [labels_function] at hlabel
    rcases List.mem_cons.mp hlabel with hstart | hleader
    · rw [hstart]
      decide
    · obtain ⟨leader, _, hlabel⟩ := List.mem_map.mp hleader
      rw [← hlabel]
      exact isWord_label leader
  names value hvalue name hname := by
    obtain ⟨index, hindex⟩ := Array.mem_iff_getElem?.mp hvalue
    rw [hbuilt.name_eq hindex] at hname
    split at hname
    · cases hname
      exact isWord_seedName _ _ _
    · cases hname
  symbols value hvalue := by
    obtain ⟨index, hindex⟩ := Array.mem_iff_getElem?.mp hvalue
    have hnames := hbuilt.names fun _ _ _ _ _ _ _ _ _ => trivial
    exact (hnames index value hindex).isWord

theorem Built.listed (hcomplete : draft.pieces.length = draft.leaders.length + 1) :
    draft.function.Listed := by
  intro block hblock id hid value hvalue
  obtain ⟨index, hindex, before, code, values, targets, terminator, rfl, hfinished⟩ :=
    hbuilt.exists_of_mem_blocks hcomplete hblock
  have hmem := Array.mem_toList_iff.mpr hid
  rw [hfinished.insts, List.mem_append] at hmem
  rcases hmem with hleading | hplaced
  · obtain ⟨position, register, rfl, rfl⟩ := mem_leading_iff.mp hleading
    rw [get_seeds, draft.getElem?_values_phi (Nat.lt_of_succ_lt_succ hindex)] at hvalue
    cases hvalue
    rfl
  · obtain ⟨position, found, hfound, hconstant, rfl⟩ := mem_placed_iff.mp hplaced
    cases hvalue.symm.trans (hfinished.hosts hfound)
    have hplain := (hfinished.ended.sound.plain value (List.mem_of_getElem? hfound)).2
    cases hinst : value.inst with
    | param index => exact absurd hinst (hplain index)
    | const bits =>
        rw [hinst] at hconstant
        cases hconstant
    | _ => rfl

theorem Built.readable (hcomplete : draft.pieces.length = draft.leaders.length + 1) :
    draft.function.Readable where
  valid := hbuilt.valid hcomplete
  listed := hbuilt.listed hcomplete
  legible := hbuilt.legible
  blocks_ne := Array.ne_empty_of_size_pos (by simp)

end Built

/-! Labels -/

theorem label_inj {leader other : Address}
    (hlabels : s!"l_{Hex.word leader}" = s!"l_{Hex.word other}") : leader = other := by
  have hchars := congrArg String.toList hlabels
  simp only [String.toList_append, toString, List.append_cancel_left_eq, String.toList_inj]
    at hchars
  exact Hex.word_inj hchars

theorem leaders_of_labels {draft draft' : Draft}
    (hlabels : draft.function.blocks.toList.map Block.label =
      draft'.function.blocks.toList.map Block.label) : draft.leaders = draft'.leaders := by
  rw [labels_function, labels_function] at hlabels
  exact List.map_injective_iff.mpr (fun _ _ => label_inj) (List.cons.inj hlabels).2

theorem nodup_labels {draft : Draft} (hnodup : draft.leaders.Nodup) :
    (draft.function.blocks.toList.map Block.label).Nodup := by
  rw [labels_function, List.nodup_cons]
  refine ⟨fun hstart => ?_, hnodup.map fun _ _ => label_inj⟩
  obtain ⟨leader, _, hlabel⟩ := List.mem_map.mp hstart
  have hchars := congrArg (fun text => text.toList.head?) hlabel
  simp [toString] at hchars

section Pair

variable {decoder decoder' : Decoder} {platform platform' : Platform} {entry entry' : Address}
  {linkage linkage' : Linkage} {leaders leaders' : List Address} {draft draft' : Draft}
  (hbuilt : Built decoder platform entry linkage leaders draft)
  (hbuilt' : Built decoder' platform' entry' linkage' leaders' draft')
  (hnodup : draft.leaders.Nodup)

include hbuilt hbuilt' hnodup

theorem Built.namesAgree (hleaders : draft.leaders = draft'.leaders) :
    draft.function.NamesAgree draft'.function := by
  intro id id' name hname hname'
  have hnames := (hbuilt.valueName_eq hname).symm.trans (hbuilt'.valueName_eq hname')
  rw [← hleaders] at hnames
  have hindex := nameAt_inj hnodup ((String.append_right_inj _).mp hnames)
  cases id
  cases id'
  exact congrArg ValueId.mk hindex

/-- Functions with one text have the same parts. -/
theorem Built.sameProgram (hcomplete : draft.pieces.length = draft.leaders.length + 1)
    (hcomplete' : draft'.pieces.length = draft'.leaders.length + 1)
    (htext : draft.function.text = draft'.function.text) :
    draft.function.SameProgram draft'.function := by
  have hreadable := hbuilt.readable hcomplete
  have hreadable' := hbuilt'.readable hcomplete'
  obtain ⟨hhead, hblocks⟩ := hreadable.tokens_of_text hreadable' htext
  obtain ⟨hlinkage, hresult, hname⟩ := Function.head_of_tokens hhead
  -- The labels give the leaders and these the names, before any operand is read.
  have hlabels := Function.labels_of_blockTokens hblocks
  have hcomparable : draft.function.Comparable draft'.function :=
    { readable := hreadable
      readable' := hreadable'
      typed := ⟨_, hbuilt.wellTyped hcomplete⟩
      typed' := ⟨_, hbuilt'.wellTyped hcomplete'⟩
      names := hbuilt.namesAgree hbuilt' hnodup (leaders_of_labels hlabels)
      labels_eq := hlabels
      nodup := nodup_labels hnodup }
  refine ⟨hname, hlinkage, hresult, rfl, fun id hid => ?_, hblocks.imp ?_⟩
  · obtain ⟨register, _, rfl⟩ := List.mem_map.mp
      (show id ∈ Register.all.map (seeds ⟨0⟩).get from PerRegister.toList_eq_map_all _ ▸ hid)
    rw [get_seeds, Nat.mul_zero, Nat.zero_add, draft.getElem?_values_param,
      draft'.getElem?_values_param]
  · rintro block block' ⟨hblock, hblock', htokens⟩
    exact hcomparable.sameBlock hblock hblock' htokens

end Pair

end Draft

/-! Texts -/

namespace Decoder

variable {decoder : Decoder} {platform : Platform} {entry : Address} {linkage : Linkage}
  {journal journal' : Journal} {function : Function}

/-- The values of a lifted function have different names and its blocks have
different labels, and its text is that of no other program. -/
theorem sameProgram_of_text
    (hrun : decoder.liftRoutine platform entry linkage journal = .ok function journal') :
    (∃ text, function.text = .ok text) ∧ function.NamesAgree function ∧
      (function.blocks.toList.map Block.label).Nodup ∧
      ∀ (decoder' : Decoder) (platform' : Platform) (entry' : Address) (linkage' : Linkage)
        (start final : Journal) (other : Function),
        decoder'.liftRoutine platform' entry' linkage' start = .ok other final →
        function.text = other.text → function.SameProgram other := by
  obtain ⟨_, leaders, _, draft, houtline, hbuilt, hcomplete, rfl⟩ :=
    exists_built_of_liftRoutine hrun
  have hnodup : draft.leaders.Nodup := by
    rw [hbuilt.extends.2.2.1]
    exact houtline.sorted.imp UInt16.ne_of_lt
  refine ⟨⟨_, (hbuilt.readable hcomplete).text_eq⟩, hbuilt.namesAgree hbuilt hnodup rfl,
    Draft.nodup_labels hnodup, ?_⟩
  intro decoder' platform' entry' linkage' start final other hrun' htext
  obtain ⟨_, _, _, draft', _, hbuilt', hcomplete', rfl⟩ := exists_built_of_liftRoutine hrun'
  exact hbuilt.sameProgram hbuilt' hnodup hcomplete hcomplete' htext

/-- A routine that clears two flags. -/
def carryFirst : Decoder where
  space := Image.space { base := 0x10, bytes := #[0x18, 0xB8, 0x60] }

/-- The same with the flags in the other order, and so with its constants in
other places. -/
def overflowFirst : Decoder where
  space := Image.space { base := 0x10, bytes := #[0xB8, 0x18, 0x60] }

theorem sameProgram_of_text_carryFirst : ∃ function other journal journal',
    carryFirst.liftRoutine .nes 0x10 .external {} = .ok function journal ∧
      overflowFirst.liftRoutine .nes 0x10 .external {} = .ok other journal' ∧
      function ≠ other ∧ function.text = other.text ∧ function.SameProgram other := by
  have hpair : (match carryFirst.liftRoutine .nes 0x10 .external {},
      overflowFirst.liftRoutine .nes 0x10 .external {} with
    | .ok function _, .ok other _ => decide (function ≠ other ∧ function.text = other.text)
    | _, _ => false) = true := by
    decide +kernel
  cases hrun : carryFirst.liftRoutine .nes 0x10 .external {} with
  | error error journal => simp [hrun] at hpair
  | ok function journal =>
      cases hrun' : overflowFirst.liftRoutine .nes 0x10 .external {} with
      | error error journal' => simp [hrun, hrun'] at hpair
      | ok other journal' =>
          simp only [hrun, hrun', decide_eq_true_eq] at hpair
          obtain ⟨hne, htext⟩ := hpair
          exact ⟨function, other, journal, journal', rfl, rfl, hne, htext,
            (sameProgram_of_text hrun).2.2.2 _ _ _ _ _ _ _ hrun' htext⟩

end Decoder

end Lift6502
