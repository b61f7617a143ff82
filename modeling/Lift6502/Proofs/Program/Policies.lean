import Lift6502.Proofs.Program.Comparison
import Lift6502.Proofs.Routine.SingleAssignment

/-! The policy of a decoder is consulted only at a byte that nothing backs and
at an opcode outside the table. A run that meets neither is the same under
every policy. -/

namespace Lift6502

open Ssa Session

namespace Journal

/-- A byte was read that nothing backs, or an opcode was replaced. -/
def Guessed (journal : Journal) : Prop :=
  journal.unmappedReads ≠ [] ∨
    ∃ opcode location, Event.unknownOpcode opcode location ∈ journal.events

/-- The later journal has more events, and none of the new ones is a
warning. -/
structure Calm (journal later : Journal) : Prop where
  unmapped_eq : later.unmapped = journal.unmapped
  events_eq : ∃ more, later.events = journal.events ++ more ∧
    ∀ event ∈ more, event.level ≠ .warn

theorem Calm.refl (journal : Journal) : journal.Calm journal where
  unmapped_eq := rfl
  events_eq := ⟨#[], by simp, by simp⟩

theorem Calm.trans {journal middle later : Journal} (hfirst : journal.Calm middle)
    (hsecond : middle.Calm later) : journal.Calm later where
  unmapped_eq := hsecond.unmapped_eq.trans hfirst.unmapped_eq
  events_eq := by
    obtain ⟨front, hfront, hfrontCalm⟩ := hfirst.events_eq
    obtain ⟨back, hback, hbackCalm⟩ := hsecond.events_eq
    refine ⟨front ++ back, by rw [hback, hfront, Array.append_assoc], ?_⟩
    intro event hevent
    rcases Array.mem_append.mp hevent with hevent | hevent
    · exact hfrontCalm event hevent
    · exact hbackCalm event hevent

theorem Guessed.note {journal : Journal} (hguessed : journal.Guessed) (event : Event) :
    (journal.note event).Guessed := by
  rcases hguessed with hunmapped | ⟨opcode, location, hevent⟩
  · exact .inl hunmapped
  · exact .inr ⟨opcode, location, Array.mem_push_of_mem event hevent⟩

theorem guessed_recordUnmapped (journal : Journal) (byte : Address) :
    (journal.recordUnmapped byte).Guessed := by
  left
  apply List.ne_nil_of_mem
  exact Std.TreeSet.mem_toList.mpr (AddressSet.mem_insert_iff.mpr (.inl rfl))

end Journal

namespace Session

variable {ε ε' α β : Type}

theorem exists_of_passes (session : Session ε α) (journal : Journal) (test : α → Journal → Bool)
    (hpasses : (match session journal with
      | .ok value journal' => test value journal'
      | .error _ _ => false) = true) :
    ∃ value journal', session journal = .ok value journal' ∧ test value journal' = true := by
  cases hrun : session journal with
  | ok value journal' => exact ⟨value, journal', rfl, by simpa [hrun] using hpasses⟩
  | error error journal' => simp [hrun] at hpasses

/-- A run of the first session is refused by a decoder that refuses, or guesses
for one that guesses, or else is calm and the second session runs the same. -/
structure SameUnless (refuses guesses : Prop) (refusal : ε → Prop) (first second : Session ε α) :
    Prop where
  keeps : ∀ journal : Journal, journal.Guessed → (first.after journal).Guessed
  cases : ∀ journal : Journal,
    (refuses ∧ ∃ error, first.outcome journal = .error error ∧ refusal error) ∨
    (guesses ∧ (first.after journal).Guessed) ∨
    (second journal = first journal ∧ journal.Calm (first.after journal))

section SameUnless

variable {refuses guesses : Prop} {refusal : ε → Prop}

theorem sameUnless_ofExcept (result : Except ε α) :
    SameUnless refuses guesses refusal (ofExcept result) (ofExcept result) := by
  have hafter (journal : Journal) : (ofExcept result).after journal = journal := by
    cases result <;> rfl
  constructor
  · intro journal hguessed
    rwa [hafter]
  · intro journal
    rw [hafter]
    exact .inr (.inr ⟨rfl, .refl journal⟩)

theorem sameUnless_note {event : Event} (hcalm : event.level ≠ .warn) :
    SameUnless refuses guesses refusal (note event) (note event) := by
  constructor
  · intro journal hguessed
    exact hguessed.note event
  · intro journal
    refine .inr (.inr ⟨rfl, rfl, #[event], Array.push_eq_append, ?_⟩)
    intro other hother
    rwa [Array.mem_singleton.mp hother]

theorem sameUnless_of_refused (hrefuses : refuses) {error : ε} (herror : refusal error)
    (second : Session ε α) : SameUnless refuses guesses refusal (throw error) second where
  keeps _ hguessed := hguessed
  cases _ := .inl ⟨hrefuses, error, rfl, herror⟩

theorem sameUnless_of_guessed (hguesses : guesses) {first : Session ε α}
    (hguessed : ∀ journal : Journal, (first.after journal).Guessed) (second : Session ε α) :
    SameUnless refuses guesses refusal first second where
  keeps journal _ := hguessed journal
  cases journal := .inr (.inl ⟨hguesses, hguessed journal⟩)

theorem SameUnless.adaptExcept {refusal' : ε' → Prop} {change : ε → ε'}
    {first second : Session ε α} (hchange : ∀ error, refusal error → refusal' (change error))
    (hsame : SameUnless refuses guesses refusal first second) :
    SameUnless refuses guesses refusal' (EStateM.adaptExcept change first)
      (EStateM.adaptExcept change second) := by
  have hafter (journal : Journal) :
      after (EStateM.adaptExcept change first) journal = first.after journal := by
    unfold after EStateM.adaptExcept
    cases first journal <;> rfl
  constructor
  · intro journal hguessed
    rw [hafter]
    exact hsame.keeps journal hguessed
  · intro journal
    rw [hafter]
    rcases hsame.cases journal with ⟨hrefuses, error, houtcome, herror⟩ | hguesses | ⟨hequal, hcalm⟩
    · obtain ⟨journal', hrun⟩ := outcome_eq_error_iff.mp houtcome
      refine .inl ⟨hrefuses, change error, ?_, hchange error herror⟩
      simp [outcome, EStateM.adaptExcept, hrun]
    · exact .inr (.inl hguesses)
    · refine .inr (.inr ⟨?_, hcalm⟩)
      simp [EStateM.adaptExcept, hequal]

theorem SameUnless.bind {first second : Session ε α} {next next' : α → Session ε β}
    (hsame : SameUnless refuses guesses refusal first second)
    (hnext : ∀ value, first.Returns value →
      SameUnless refuses guesses refusal (next value) (next' value)) :
    SameUnless refuses guesses refusal (first >>= next) (second >>= next') := by
  constructor
  · intro journal hguessed
    have hmiddle := hsame.keeps journal hguessed
    cases hrun : first journal with
    | ok value middle =>
        rw [after_of_ok hrun] at hmiddle
        rw [after, bind_run_ok hrun]
        exact (hnext value ⟨journal, middle, hrun⟩).keeps middle hmiddle
    | error error middle =>
        rw [after_of_error hrun] at hmiddle
        rwa [after_of_error (bind_run_error hrun)]
  · intro journal
    have hfirst := hsame.cases journal
    cases hrun : first journal with
    | error error middle =>
        rw [after_of_error (bind_run_error hrun), bind_run_error hrun]
        rw [after_of_error hrun] at hfirst
        rcases hfirst with ⟨hrefuses, error', houtcome, herror⟩ | hguesses | ⟨hequal, hcalm⟩
        · have hfails := outcome_eq_error_iff.mpr ⟨middle, hrun⟩
          cases houtcome.symm.trans hfails
          exact .inl ⟨hrefuses, error, outcome_eq_error_iff.mpr ⟨middle, bind_run_error hrun⟩,
            herror⟩
        · exact .inr (.inl hguesses)
        · exact .inr (.inr ⟨bind_run_error (hequal.trans hrun), hcalm⟩)
    | ok value middle =>
        have hrest := hnext value ⟨journal, middle, hrun⟩
        rw [after_of_ok hrun] at hfirst
        rw [outcome, after, bind_run_ok hrun]
        rcases hfirst with ⟨_, error, houtcome, _⟩ | ⟨hguesses, hguessed⟩ | ⟨hequal, hcalm⟩
        · cases houtcome.symm.trans (outcome_eq_ok_iff.mpr ⟨middle, hrun⟩)
        · exact .inr (.inl ⟨hguesses, hrest.keeps middle hguessed⟩)
        · rw [bind_run_ok (hequal.trans hrun)]
          rcases hrest.cases middle with hrefused | hguesses | ⟨hequal', hcalm'⟩
          · exact .inl hrefused
          · exact .inr (.inl hguesses)
          · exact .inr (.inr ⟨hequal', hcalm.trans hcalm'⟩)

end SameUnless

def sameUnless (refuses guesses : Prop) : Congruence where
  Holds := SameUnless refuses guesses
  holds_ofExcept _ := sameUnless_ofExcept
  holds_note _ _ := sameUnless_note
  holds_bind := SameUnless.bind
  holds_adaptExcept := SameUnless.adaptExcept

end Session

namespace Policy

/-- There is something that a decoder with this policy does not decode. -/
def Refuses (policy : Policy) : Prop :=
  policy.unmapped = .fail ∨ policy.unsupported = .fail

/-- There is something that a decoder with this policy makes up. -/
def Guesses (policy : Policy) : Prop :=
  policy.unmapped ≠ .fail ∨ policy.unsupported ≠ .fail

end Policy

namespace Decoder

/-! Decoding -/

theorem guessed_noteUnmapped (decoder : Decoder) (location byte : Address) (journal : Journal) :
    ((decoder.noteUnmapped location byte).after journal).Guessed := by
  show Journal.Guessed (if _ then _ else _)
  split
  · exact (journal.guessed_recordUnmapped byte).note _
  · exact journal.guessed_recordUnmapped byte

section Decoding

variable {first second : Decoder} (hspace : second.space = first.space)

include hspace

theorem sameUnless_byte (location address : Address) :
    SameUnless first.policy.Refuses first.policy.Guesses (fun _ => True)
      (first.byte location address) (second.byte location address) := by
  cases hbacked : first.space.backed address with
  | true =>
      rw [byte_eq_of_backed hbacked, byte_eq_of_backed (hspace ▸ hbacked), hspace]
      exact sameUnless_ofExcept (.ok _)
  | false =>
      by_cases hfail : first.policy.unmapped = .fail
      · rw [byte_eq_of_refused hbacked hfail]
        exact sameUnless_of_refused (.inl hfail) trivial _
      · rw [byte_eq_of_guessed hbacked hfail]
        apply sameUnless_of_guessed (.inl hfail)
        exact first.guessed_noteUnmapped location address

theorem sameUnless_word (location address : Address) :
    SameUnless first.policy.Refuses first.policy.Guesses (fun _ => True)
      (first.word location address) (second.word location address) := by
  apply SameUnless.bind (sameUnless_byte hspace location address)
  intro low _
  apply SameUnless.bind (sameUnless_byte hspace location (address + 1))
  intro high _
  exact sameUnless_ofExcept (.ok _)

theorem sameUnless_operand (location : Address) (mode : Mode) :
    SameUnless first.policy.Refuses first.policy.Guesses (fun _ => True)
      (first.operand location mode) (second.operand location mode) := by
  cases mode with
  | implied => exact sameUnless_ofExcept (.ok _)
  | absolute | absoluteX | absoluteY =>
      apply SameUnless.bind (sameUnless_word hspace location _)
      intro address _
      exact sameUnless_ofExcept (.ok _)
  | immediate | indirectY | relative | zeroPage =>
      apply SameUnless.bind (sameUnless_byte hspace location _)
      intro value _
      exact sameUnless_ofExcept (.ok _)

omit hspace in
theorem sameUnless_unsupported (location : Address) (opcode : Byte) :
    SameUnless first.policy.Refuses first.policy.Guesses (fun _ => True)
      (first.unsupported location opcode) (second.unsupported location opcode) := by
  cases hpolicy : first.policy.unsupported with
  | fail =>
      have hthrows : first.unsupported location opcode =
          throw (.unsupportedOpcode location opcode) := by
        simp [unsupported, hpolicy]
      rw [hthrows]
      exact sameUnless_of_refused (.inr hpolicy) trivial _
  | substituteReturn =>
      refine sameUnless_of_guessed (.inr (by simp [hpolicy])) ?_ _
      intro journal
      simp only [unsupported, hpolicy]
      exact .inr ⟨opcode, location, Array.mem_push_self⟩

/-- Two decoders of one space decode alike, unless the first one refuses or
guesses. -/
theorem sameUnless_decode (location : Address) :
    SameUnless first.policy.Refuses first.policy.Guesses (fun _ => True)
      (first.decode location) (second.decode location) := by
  apply SameUnless.bind (sameUnless_byte hspace location location)
  intro opcode _
  cases Encoding.ofOpcode? opcode with
  | none => exact sameUnless_unsupported location opcode
  | some encoding =>
      apply SameUnless.bind (sameUnless_operand hspace location encoding.mode)
      intro operand _
      exact sameUnless_ofExcept (.ok _)

theorem alike_of_space : Alike (sameUnless first.policy.Refuses first.policy.Guesses) first second
    fun _ => True where
  decode address _ := sameUnless_decode hspace address
  successors _ _ _ _ _ _ := trivial
  calls _ _ _ _ _ _ := trivial

end Decoding

/-! Programs -/

theorem not_refuses_lenient : ¬ Policy.lenient.Refuses := by
  simp [Policy.Refuses, Policy.lenient]

theorem not_guesses_strict : ¬ Policy.strict.Guesses := by
  simp [Policy.Guesses, Policy.strict]

theorem sameUnless_liftProgram (space : AddressSpace) (policy other : Policy)
    (platform : Platform) (entry : Address) (name : String) :
    SameUnless policy.Refuses policy.Guesses LiftError.IsRefusal
      ((Decoder.mk space policy).liftProgram platform entry name)
      ((Decoder.mk space other).liftProgram platform entry name) :=
  (@alike_of_space (Decoder.mk space policy) (Decoder.mk space other) rfl).liftProgram platform
    trivial name

/-- If a program is lifted without a guess by a decoder that never refuses, it
is lifted the same under every policy. The same holds if a decoder that never
guesses does not refuse the program, and then nothing is recorded as unmapped
and nothing is warned about. -/
theorem liftProgram_policy (space : AddressSpace) (platform : Platform) (entry : Address)
    (name : String) :
    ((((Decoder.mk space .lenient).liftProgram platform entry name).after {}).unmappedReads = [] →
      (∀ opcode location, Event.unknownOpcode opcode location ∉
        (((Decoder.mk space .lenient).liftProgram platform entry name).after {}).events) →
      ∀ policy, (Decoder.mk space policy).liftProgram platform entry name {} =
        (Decoder.mk space .lenient).liftProgram platform entry name {}) ∧
    ((∀ cause, ((Decoder.mk space .strict).liftProgram platform entry name).outcome {} ≠
        .error (.decode cause)) →
      ∀ policy,
        ((Decoder.mk space policy).liftProgram platform entry name).outcome {} =
          ((Decoder.mk space .strict).liftProgram platform entry name).outcome {} ∧
        (((Decoder.mk space policy).liftProgram platform entry name).after {}).unmappedReads = [] ∧
        ∀ event ∈ (((Decoder.mk space policy).liftProgram platform entry name).after {}).events,
          event.level ≠ .warn) := by
  constructor
  · intro hunmapped hsupported policy
    rcases (sameUnless_liftProgram space .lenient policy platform entry name).cases {} with
      ⟨hrefuses, _⟩ | ⟨_, hguessed⟩ | ⟨hequal, _⟩
    · exact absurd hrefuses not_refuses_lenient
    · rcases hguessed with hunmapped' | ⟨opcode, location, hevent⟩
      · exact absurd hunmapped hunmapped'
      · exact absurd hevent (hsupported opcode location)
    · exact hequal
  · intro haccepted policy
    rcases (sameUnless_liftProgram space .strict policy platform entry name).cases {} with
      ⟨_, error, houtcome, hrefusal⟩ | ⟨hguesses, _⟩ | ⟨hequal, hcalm⟩
    · obtain ⟨cause, rfl⟩ := hrefusal
      exact absurd houtcome (haccepted cause)
    · exact absurd hguesses not_guesses_strict
    · rw [outcome, after, hequal]
      obtain ⟨more, hevents, hquiet⟩ := hcalm.events_eq
      refine ⟨rfl, ?_, ?_⟩
      · exact congrArg Std.TreeSet.toList hcalm.unmapped_eq
      · intro event hevent
        rw [← after, hevents] at hevent
        exact hquiet event (by simpa using hevent)

theorem liftProgram_policy_tally :
    ((tally.liftProgram .nes 0x8000 "tally").after {}).unmappedReads = [] ∧
    (∀ policy, (Decoder.mk tally.space policy).liftProgram .nes 0x8000 "tally" {} =
      tally.liftProgram .nes 0x8000 "tally" {}) ∧
    (∀ policy, (((Decoder.mk tally.space policy).liftProgram .nes 0x8000 "tally").after
      {}).unmappedReads = []) := by
  obtain ⟨module, journal', hrun, hclean⟩ :=
    exists_of_passes (tally.liftProgram .nes 0x8000 "tally") {}
      (fun _ journal' => journal'.unmappedReads.isEmpty &&
        journal'.events.all fun event => decide (event.level ≠ .warn)) (by decide +kernel)
  simp only [Bool.and_eq_true, List.isEmpty_iff, Array.all_eq_true_iff_forall_mem,
    decide_eq_true_eq] at hclean
  obtain ⟨hunmapped, hcalm⟩ := hclean
  rw [← after_of_ok hrun] at hunmapped hcalm
  have hsame := (liftProgram_policy tally.space .nes 0x8000 "tally").1 hunmapped
    fun opcode location hevent => hcalm _ hevent rfl
  refine ⟨hunmapped, hsame, ?_⟩
  intro policy
  refine ((liftProgram_policy tally.space .nes 0x8000 "tally").2 ?_ policy).2.1
  intro cause houtcome
  rw [outcome_eq_ok_iff.mpr ⟨journal', (hsame .strict).trans hrun⟩] at houtcome
  cases houtcome

end Decoder

end Lift6502
