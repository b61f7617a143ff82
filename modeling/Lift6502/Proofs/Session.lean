import Lift6502.Lowering.Routine

/-! Sessions apart from their journals. Decoding and lifting write to the
journal and never let it decide a result, so a session is described by the
one result that it gives from every journal. -/

namespace Lift6502.Session

variable {ε ε' α β : Type}

def outcome (session : Session ε α) (journal : Journal) : Except ε α :=
  match session journal with
  | .ok value _ => .ok value
  | .error error _ => .error error

/-- The session comes to `result` from every journal. -/
def Gives (session : Session ε α) (result : Except ε α) : Prop :=
  ∀ journal, session.outcome journal = result

theorem outcome_eq_ok_iff {session : Session ε α} {journal : Journal} {value : α} :
    session.outcome journal = .ok value ↔
      ∃ journal', session journal = .ok value journal' := by
  unfold outcome
  cases session journal with
  | ok found journal' => simp
  | error failure journal' => simp

theorem outcome_eq_error_iff {session : Session ε α} {journal : Journal} {error : ε} :
    session.outcome journal = .error error ↔
      ∃ journal', session journal = .error error journal' := by
  unfold outcome
  cases session journal with
  | ok found journal' => simp
  | error failure journal' => simp

theorem exists_of_isOk {session : Session ε α} {journal : Journal}
    (hok : (session.outcome journal).isOk = true) :
    ∃ value journal', session journal = .ok value journal' := by
  cases houtcome : session.outcome journal with
  | ok value => exact ⟨value, outcome_eq_ok_iff.mp houtcome⟩
  | error error =>
      rw [houtcome] at hok
      cases hok

theorem Gives.of_ok {session : Session ε α} {result : Except ε α} {journal journal' : Journal}
    {value : α} (hgives : session.Gives result) (hrun : session journal = .ok value journal') :
    result = .ok value :=
  (hgives journal).symm.trans (outcome_eq_ok_iff.mpr ⟨journal', hrun⟩)

theorem Gives.of_error {session : Session ε α} {result : Except ε α}
    {journal journal' : Journal} {error : ε} (hgives : session.Gives result)
    (hrun : session journal = .error error journal') : result = .error error :=
  (hgives journal).symm.trans (outcome_eq_error_iff.mpr ⟨journal', hrun⟩)

theorem gives_pure (value : α) : Gives (pure value : Session ε α) (.ok value) :=
  fun _ => rfl

theorem gives_throw (error : ε) : Gives (throw error : Session ε α) (.error error) :=
  fun _ => rfl

theorem gives_note (event : Event) : Gives (note event : Session ε Unit) (.ok ()) :=
  fun _ => rfl

theorem gives_ofExcept (result : Except ε α) : Gives (ofExcept result) result := by
  intro journal
  cases result <;> rfl

theorem Gives.bind_ok {session : Session ε α} {value : α} {next : α → Session ε β}
    {result : Except ε β} (hsession : session.Gives (.ok value))
    (hnext : (next value).Gives result) : Gives (session >>= next) result := by
  intro journal
  obtain ⟨journal', hrun⟩ := outcome_eq_ok_iff.mp (hsession journal)
  rw [← hnext journal']
  show outcome (EStateM.bind session next) journal = _
  unfold outcome EStateM.bind
  rw [hrun]

theorem Gives.bind_error {session : Session ε α} {error : ε} {next : α → Session ε β}
    (hsession : session.Gives (.error error)) :
    Gives (session >>= next) (.error error) := by
  intro journal
  obtain ⟨journal', hrun⟩ := outcome_eq_error_iff.mp (hsession journal)
  show outcome (EStateM.bind session next) journal = _
  unfold outcome EStateM.bind
  rw [hrun]

theorem bind_run_ok {session : Session ε α} {next : α → Session ε β} {journal middle : Journal}
    {value : α} (hrun : session journal = .ok value middle) :
    (session >>= next) journal = next value middle := by
  show EStateM.bind session next journal = _
  simp [EStateM.bind, hrun]

theorem bind_run_error {session : Session ε α} {next : α → Session ε β}
    {journal middle : Journal} {error : ε} (hrun : session journal = .error error middle) :
    (session >>= next) journal = .error error middle := by
  show EStateM.bind session next journal = _
  simp [EStateM.bind, hrun]

theorem exists_of_bind_ok {session : Session ε α} {next : α → Session ε β}
    {journal journal' : Journal} {result : β}
    (hrun : (session >>= next) journal = .ok result journal') :
    ∃ value middle, session journal = .ok value middle ∧
      next value middle = .ok result journal' := by
  have hbind : EStateM.bind session next journal = .ok result journal' := hrun
  unfold EStateM.bind at hbind
  cases hsession : session journal with
  | ok value middle =>
      rw [hsession] at hbind
      exact ⟨value, middle, rfl, hbind⟩
  | error error middle =>
      rw [hsession] at hbind
      cases hbind

theorem cases_of_bind_error {session : Session ε α} {next : α → Session ε β}
    {journal journal' : Journal} {error : ε}
    (hrun : (session >>= next) journal = .error error journal') :
    session journal = .error error journal' ∨
      ∃ value middle, session journal = .ok value middle ∧
        next value middle = .error error journal' := by
  have hbind : EStateM.bind session next journal = .error error journal' := hrun
  unfold EStateM.bind at hbind
  cases hsession : session journal with
  | ok value middle =>
      rw [hsession] at hbind
      exact .inr ⟨value, middle, rfl, hbind⟩
  | error failure middle =>
      rw [hsession] at hbind
      cases hbind
      exact .inl rfl

theorem Gives.adaptExcept {session : Session ε α} {result : Except ε α} (change : ε → ε')
    (hsession : session.Gives result) :
    Gives (EStateM.adaptExcept change session) (result.mapError change) := by
  intro journal
  have hrun := hsession journal
  unfold outcome at hrun ⊢
  unfold EStateM.adaptExcept
  cases hresult : session journal <;> rw [hresult] at hrun <;> rw [← hrun] <;> rfl

theorem ok_of_adaptExcept {session : Session ε α} {change : ε → ε'} {journal journal' : Journal}
    {value : α} (hrun : EStateM.adaptExcept change session journal = .ok value journal') :
    session journal = .ok value journal' := by
  unfold EStateM.adaptExcept at hrun
  cases hsession : session journal with
  | ok found middle =>
      rw [hsession] at hrun
      cases hrun
      rfl
  | error error middle =>
      rw [hsession] at hrun
      cases hrun

theorem error_of_adaptExcept {session : Session ε α} {change : ε → ε'}
    {journal journal' : Journal} {error : ε'}
    (hrun : EStateM.adaptExcept change session journal = .error error journal') :
    ∃ cause, error = change cause ∧ session journal = .error cause journal' := by
  unfold EStateM.adaptExcept at hrun
  cases hsession : session journal with
  | ok found middle =>
      rw [hsession] at hrun
      cases hrun
  | error cause middle =>
      rw [hsession] at hrun
      cases hrun
      exact ⟨cause, rfl, rfl⟩

/-- A session whose journal does not decide its result. -/
def Steady (session : Session ε α) : Prop :=
  ∃ result, session.Gives result

theorem Steady.bind {session : Session ε α} {next : α → Session ε β}
    (hsession : session.Steady) (hnext : ∀ value, (next value).Steady) :
    Steady (session >>= next) := by
  obtain ⟨result, hresult⟩ := hsession
  cases result with
  | error error => exact ⟨_, hresult.bind_error⟩
  | ok value =>
      obtain ⟨final, hfinal⟩ := hnext value
      exact ⟨final, hresult.bind_ok hfinal⟩

theorem Steady.of_outcome {session : Session ε α} (hsession : session.Steady) :
    session.Gives (session.outcome {}) := by
  obtain ⟨result, hresult⟩ := hsession
  rwa [hresult {}]

theorem Steady.gives_of_ok {session : Session ε α} (hsession : session.Steady)
    {journal journal' : Journal} {value : α} (hrun : session journal = .ok value journal') :
    session.Gives (.ok value) := by
  obtain ⟨result, hresult⟩ := hsession
  rwa [hresult.of_ok hrun] at hresult

/-! Journals -/

/-- The journal that a session leaves, whether or not it fails. -/
def after (session : Session ε α) (journal : Journal) : Journal :=
  match session journal with
  | .ok _ journal' => journal'
  | .error _ journal' => journal'

theorem after_of_ok {session : Session ε α} {journal journal' : Journal} {value : α}
    (hrun : session journal = .ok value journal') : session.after journal = journal' := by
  simp [after, hrun]

theorem after_of_error {session : Session ε α} {journal journal' : Journal} {error : ε}
    (hrun : session journal = .error error journal') : session.after journal = journal' := by
  simp [after, hrun]

theorem after_bind_ok {session : Session ε α} {next : α → Session ε β}
    {journal middle : Journal} {value : α} (hrun : session journal = .ok value middle) :
    (session >>= next : Session ε β).after journal = (next value).after middle := by
  unfold after
  rw [bind_run_ok hrun]

end Lift6502.Session
