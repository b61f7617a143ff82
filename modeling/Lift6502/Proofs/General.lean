import Mathlib.Data.List.Basic
import Mathlib.Data.List.Forall2
import Mathlib.Data.Nat.Bitwise

/-! Facts about numbers, lists and arrays, and about steps that may fail: those
that are taken one after another, and those that are taken for each item of a
list. -/

namespace Nat

theorem repr_eq_repr_iff {number other : Nat} : number.repr = other.repr ↔ number = other := by
  refine ⟨fun hrepr => ?_, fun hequal => hequal ▸ rfl⟩
  have hdigits := congrArg String.toList hrepr
  rw [Nat.toList_repr, Nat.toList_repr] at hdigits
  rw [← @Nat.ofDigitChars_ten_toDigits number, hdigits, Nat.ofDigitChars_ten_toDigits]

/-- The highest of some bits is not set in the lower half of the numbers that
they can hold. -/
theorem mod_and_two_pow_eq_zero_iff (number top : Nat) :
    (number % 2 ^ (top + 1)) &&& 2 ^ top = 0 ↔
      2 * (number % 2 ^ (top + 1)) < 2 ^ (top + 1) := by
  have hbound : number % 2 ^ (top + 1) < 2 ^ (top + 1) := Nat.mod_lt _ (Nat.two_pow_pos _)
  generalize number % 2 ^ (top + 1) = rest at hbound
  rw [Nat.pow_succ] at hbound ⊢
  rw [Nat.and_two_pow, Nat.testBit_eq_decide_div_mod_eq]
  have hpositive := Nat.two_pow_pos top
  have hquotient : rest / 2 ^ top < 2 := Nat.div_lt_of_lt_mul (by omega)
  have hiff : rest / 2 ^ top = 0 ↔ rest < 2 ^ top := Nat.div_eq_zero_iff_lt hpositive
  generalize rest / 2 ^ top = quotient at hquotient hiff ⊢
  by_cases hbit : quotient % 2 = 1
  · simp only [hbit, decide_true, Bool.toNat_true]
    omega
  · simp only [hbit, decide_false, Bool.toNat_false]
    omega

end Nat

namespace List

variable {α β γ ε : Type}

/-! Items of related lists -/

theorem Forall₂.exists_of_mem {related : α → β → Prop} {items : List α} {others : List β}
    (hrelated : Forall₂ related items others) {item : α} (hitem : item ∈ items) :
    ∃ other ∈ others, related item other := by
  induction hrelated with
  | nil => cases hitem
  | cons hfirst hrest ih =>
      rcases mem_cons.mp hitem with rfl | hitem
      · exact ⟨_, mem_cons_self, hfirst⟩
      · obtain ⟨other, hother, hfound⟩ := ih hitem
        exact ⟨other, mem_cons_of_mem _ hother, hfound⟩

theorem forall₂_of_map_eq {left : α → γ} {right : β → γ} {related : α → β → Prop}
    {items : List α} {others : List β} (hmaps : items.map left = others.map right)
    (hrelated : ∀ item ∈ items, ∀ other ∈ others, left item = right other → related item other) :
    Forall₂ related items others := by
  induction items generalizing others with
  | nil =>
      rw [map_nil] at hmaps
      rw [map_eq_nil_iff.mp hmaps.symm]
      exact .nil
  | cons item rest ih =>
      cases others with
      | nil => cases hmaps
      | cons other rest' =>
          obtain ⟨hitem, hrest⟩ := cons.inj hmaps
          refine .cons (hrelated item mem_cons_self other mem_cons_self hitem) ?_
          exact ih hrest fun next hnext next' hnext' =>
            hrelated next (mem_cons_of_mem _ hnext) next' (mem_cons_of_mem _ hnext')

/-! Items of lists that are put together -/

theorem mem_of_mem_intercalate {separator : List α} {lists : List (List α)} {item : α}
    (hitem : item ∈ separator.intercalate lists) :
    item ∈ separator ∨ ∃ list ∈ lists, item ∈ list := by
  induction lists with
  | nil => cases hitem
  | cons list rest ih =>
      cases rest with
      | nil =>
          rw [intercalate_singleton] at hitem
          exact .inr ⟨list, mem_cons_self, hitem⟩
      | cons next rest =>
          rw [intercalate_cons_cons, mem_append, mem_append] at hitem
          rcases hitem with (hitem | hitem) | hitem
          · exact .inr ⟨list, mem_cons_self, hitem⟩
          · exact .inl hitem
          · refine (ih hitem).imp id ?_
            rintro ⟨found, hfound, hitem⟩
            exact ⟨found, mem_cons_of_mem _ hfound, hitem⟩

theorem flatMap_concat_eq_intercalate (separator : α) (lists : List (List α)) :
    lists.flatMap (fun list => list ++ [separator]) =
      [separator].intercalate (lists ++ [[]]) := by
  induction lists with
  | nil => rfl
  | cons list rest ih =>
      rw [flatMap_cons, ih, cons_append, intercalate_cons_of_ne_nil (by simp)]

theorem getElem?_concat_cases {items : List α} {item found : α} {position : Nat}
    (hfound : (items ++ [item])[position]? = some found) :
    items[position]? = some found ∨ position = items.length ∧ found = item := by
  rcases Nat.lt_trichotomy position items.length with hlt | heq | hgt
  · rw [getElem?_append_left hlt] at hfound
    exact .inl hfound
  · subst heq
    rw [getElem?_concat_length] at hfound
    exact .inr ⟨rfl, (Option.some.inj hfound).symm⟩
  · rw [getElem?_eq_none (by simp; omega)] at hfound
    cases hfound

theorem exists_of_getElem?_flatMap {items : List α} {parts : α → List β} {index : Nat}
    {found : β} (hfound : (items.flatMap parts)[index]? = some found) :
    ∃ place item position, items[place]? = some item ∧ (parts item)[position]? = some found ∧
      index = ((items.take place).flatMap parts).length + position := by
  induction items generalizing index with
  | nil => cases hfound
  | cons item rest ih =>
      rw [flatMap_cons] at hfound
      by_cases hfirst : index < (parts item).length
      · rw [getElem?_append_left hfirst] at hfound
        exact ⟨0, item, index, rfl, hfound, by simp⟩
      · rw [getElem?_append_right (Nat.le_of_not_lt hfirst)] at hfound
        obtain ⟨place, item', position, hitem, hposition, hindex⟩ := ih hfound
        refine ⟨place + 1, item', position, hitem, hposition, ?_⟩
        rw [take_succ_cons, flatMap_cons, length_append]
        omega

theorem lookup_filter_of_keep [BEq α] [LawfulBEq α] {keep : α × β → Bool} {key : α}
    {entries : List (α × β)} (hkeep : ∀ value, keep (key, value) = true) :
    (entries.filter keep).lookup key = entries.lookup key := by
  induction entries with
  | nil => rfl
  | cons entry rest ih =>
      obtain ⟨other, value⟩ := entry
      by_cases hkey : key = other
      · subst hkey
        rw [filter_cons_of_pos (hkeep value), lookup_cons_self, lookup_cons_self]
      · have hdiffers : (key == other) = false := beq_eq_false_iff_ne.mpr hkey
        rw [lookup_cons, hdiffers, ← ih, filter_cons]
        split
        · rw [lookup_cons, hdiffers]
        · rfl

/-! Steps that may fail -/

theorem mapM_eq_ok {step : α → Except ε β} {result : α → β} {items : List α}
    (hitems : ∀ item ∈ items, step item = .ok (result item)) :
    items.mapM step = .ok (items.map result) := by
  induction items with
  | nil => rfl
  | cons item rest ih =>
      obtain ⟨hitem, hrest⟩ := forall_mem_cons.mp hitems
      rw [mapM_cons, hitem, ih hrest]
      rfl

theorem forM_eq_ok_iff {items : List α} {check : α → Except ε Unit} :
    items.forM check = .ok () ↔ ∀ item ∈ items, check item = .ok () := by
  induction items with
  | nil => exact ⟨fun _ => forall_mem_nil _, fun _ => rfl⟩
  | cons first rest ih =>
      rw [forall_mem_cons, ← ih, List.forM_eq_forM, forM_cons]
      cases check first with
      | error failure =>
          constructor
          · intro hpasses
            cases hpasses
          · intro hpasses
            cases hpasses.1
      | ok => exact ⟨fun hpasses => ⟨rfl, hpasses⟩, And.right⟩

/-- A check of a list fails with the error of the first item that fails. -/
theorem forM_eq_error_iff {items : List α} {check : α → Except ε Unit} {error : ε} :
    items.forM check = .error error ↔ ∃ before item after, items = before ++ item :: after ∧
      (∀ earlier ∈ before, check earlier = .ok ()) ∧ check item = .error error := by
  constructor
  · intro hfails
    induction items with
    | nil => cases hfails
    | cons first rest ih =>
        rw [List.forM_eq_forM, forM_cons] at hfails
        cases hcheck : check first with
        | error failure =>
            rw [hcheck] at hfails
            cases hfails
            refine ⟨[], first, rest, rfl, ?_, hcheck⟩
            intro earlier hearlier
            cases hearlier
        | ok =>
            rw [hcheck] at hfails
            obtain ⟨before, item, after, rfl, hbefore, hitem⟩ := ih hfails
            exact ⟨first :: before, item, after, rfl, forall_mem_cons.mpr ⟨hcheck, hbefore⟩, hitem⟩
  · rintro ⟨before, item, after, rfl, hbefore, hitem⟩
    have hpassed := forM_eq_ok_iff.mpr hbefore
    rw [List.forM_eq_forM] at hpassed ⊢
    rw [forM_append, hpassed, forM_cons, hitem]
    rfl

theorem exists_of_forM_error {items : List α} {check : α → Except ε Unit} {error : ε}
    (hfails : items.forM check = .error error) : ∃ item ∈ items, check item = .error error := by
  obtain ⟨before, item, after, rfl, _, hitem⟩ := forM_eq_error_iff.mp hfails
  exact ⟨item, mem_append_right _ mem_cons_self, hitem⟩

theorem forM_flatMap (items : List α) (parts : α → List β) (check : β → Except ε Unit) :
    (items.flatMap parts).forM check = items.forM fun item => (parts item).forM check := by
  induction items with
  | nil => rfl
  | cons item rest ih =>
      rw [flatMap_cons]
      simp only [List.forM_eq_forM, forM_append, forM_cons] at ih ⊢
      rw [ih]

/-- Steps that are taken in turn lead to the same end if each of them does. -/
theorem foldlM_eq_ok {step other : β → α → Except ε β} {items : List α} {start finish : β}
    (hsteps : ∀ before item after, step before item = .ok after → other before item = .ok after)
    (hfold : items.foldlM step start = .ok finish) : items.foldlM other start = .ok finish := by
  induction items generalizing start with
  | nil => exact hfold
  | cons item rest ih =>
      rw [foldlM_cons] at hfold ⊢
      cases hstep : step start item with
      | error failure =>
          rw [hstep] at hfold
          cases hfold
      | ok after =>
          rw [hstep] at hfold
          rw [hsteps start item after hstep]
          exact ih hfold

end List

theorem Array.modify_push_size {α : Type} (items : Array α) (item : α) (change : α → α) :
    (items.push item).modify items.size change = items.push (change item) := by
  apply Array.ext
  · simp
  · intro index _ _
    rw [Array.getElem_modify]
    split
    · subst index
      simp
    · rw [Array.getElem_push_lt (by grind), Array.getElem_push_lt (by grind)]

theorem Except.exists_of_bind {ε α β : Type} {step : Except ε α} {next : α → Except ε β}
    {result : β} (hbind : (step >>= next) = .ok result) :
    ∃ value, step = .ok value ∧ next value = .ok result := by
  cases step with
  | error error => cases hbind
  | ok value => exact ⟨value, rfl, hbind⟩

namespace StateT

variable {σ ε α β : Type} {step : StateT σ (Except ε) α} {next : α → StateT σ (Except ε) β}
  {state state' : σ}

theorem bind_of_ok {value : α} (hstep : step state = .ok (value, state')) :
    (step >>= next) state = next value state' := by
  show (step state >>= fun reached => next reached.1 reached.2) = _
  rw [hstep]
  rfl

theorem bind_of_error {error : ε} (hstep : step state = .error error) :
    (step >>= next) state = .error error := by
  show (step state >>= fun reached => next reached.1 reached.2) = _
  rw [hstep]
  rfl

theorem exists_of_bind {result : β} (hbind : (step >>= next) state = .ok (result, state')) :
    ∃ value middle, step state = .ok (value, middle) ∧
      next value middle = .ok (result, state') := by
  change (step state >>= fun reached => next reached.1 reached.2) = _ at hbind
  obtain ⟨reached, hstep, hnext⟩ := Except.exists_of_bind hbind
  exact ⟨reached.1, reached.2, hstep, hnext⟩

end StateT
