import Lift6502.Proofs.General
import Lift6502.Ssa.Printer
import Mathlib.Data.List.TakeWhile

/-! Texts as lines, and lines as tokens. A text can be taken apart in one way
only, and so can a line in which no two words touch. -/

namespace Lift6502.Lines

theorem splitOn_join {lines : List String} (hlines : ∀ line ∈ lines, '\n' ∉ line.toList) :
    (join lines).toList.splitOn '\n' = lines.map String.toList ++ [[]] := by
  have hchars : (join lines).toList =
      (lines.map String.toList).flatMap fun line => line ++ ['\n'] := by
    simp [join, List.flatMap_map]
  rw [hchars, List.flatMap_concat_eq_intercalate]
  apply List.splitOn_intercalate
  · intro line hline
    rcases List.mem_append.mp hline with hline | hline
    · obtain ⟨text, htext, rfl⟩ := List.mem_map.mp hline
      exact hlines text htext
    · rw [List.mem_singleton.mp hline]
      exact List.not_mem_nil
  · simp

theorem join_inj {lines lines' : List String} (hlines : ∀ line ∈ lines, '\n' ∉ line.toList)
    (hlines' : ∀ line ∈ lines', '\n' ∉ line.toList) (htexts : join lines = join lines') :
    lines = lines' := by
  have hmaps := splitOn_join hlines
  rw [htexts, splitOn_join hlines', List.append_cancel_right_eq] at hmaps
  exact (List.map_injective_iff.mpr (fun _ _ => String.toList_inj.mp) hmaps).symm

end Lift6502.Lines

namespace Lift6502.Ssa

/-- A part of a line: a word, or a character that keeps words apart. -/
inductive Token
  | word (text : String)
  | mark (char : Char)

namespace Token

/-- Characters that words are made of. -/
def isLetter (char : Char) : Bool :=
  char.isAlphanum || char == '_' || char == '%'

/-- Characters that may stand between words within a line. -/
def marks : List Char :=
  [' ', ',', ':', '=', '@', '(', ')', '[', ']', '\x7b', '\x7d']

def isMark (char : Char) : Bool :=
  marks.contains char

def IsWord (text : String) : Prop :=
  text ≠ "" ∧ ∀ char ∈ text.toList, isLetter char = true

instance (text : String) : Decidable (IsWord text) :=
  decidable_of_iff (text ≠ "" ∧ text.toList.all isLetter = true)
    (and_congr_right fun _ => List.all_eq_true)

@[simp] def chars : Token → List Char
  | .word text => text.toList
  | .mark char => [char]

/-- Each word is followed by a mark or by nothing. -/
def Separated : List Token → Prop
  | [] => True
  | [.word text] => IsWord text
  | .word text :: .mark char :: rest => IsWord text ∧ isMark char = true ∧ Separated rest
  | .word _ :: .word _ :: _ => False
  | .mark char :: rest => isMark char = true ∧ Separated rest

@[simp] theorem separated_nil : Separated [] := trivial

@[simp] theorem separated_word {text : String} : Separated [.word text] ↔ IsWord text := Iff.rfl

@[simp] theorem separated_word_mark {text : String} {char : Char} {rest : List Token} :
    Separated (.word text :: .mark char :: rest) ↔
      IsWord text ∧ isMark char = true ∧ Separated rest := Iff.rfl

@[simp] theorem separated_mark {char : Char} {rest : List Token} :
    Separated (.mark char :: rest) ↔ isMark char = true ∧ Separated rest := Iff.rfl

theorem Separated.append_mark {tokens rest : List Token} {char : Char}
    (htokens : Separated tokens) (hchar : isMark char = true) (hrest : Separated rest) :
    Separated (tokens ++ .mark char :: rest) := by
  fun_induction Separated tokens with
  | case1 => exact ⟨hchar, hrest⟩
  | case2 text => exact ⟨htokens, hchar, hrest⟩
  | case3 text between after ih => exact ⟨htokens.1, htokens.2.1, ih htokens.2.2⟩
  | case4 => exact htokens.elim
  | case5 first after ih => exact ⟨htokens.1, ih htokens.2⟩

/-! Words -/

theorem isLetter_of_isDigit {char : Char} (hdigit : char.isDigit = true) :
    isLetter char = true := by
  simp [isLetter, Char.isAlphanum, hdigit]

theorem isWord_repr (number : Nat) : IsWord number.repr := by
  refine ⟨Nat.repr_ne_empty, fun char hchar => ?_⟩
  rw [Nat.toList_repr] at hchar
  exact isLetter_of_isDigit (Nat.isDigit_of_mem_toDigits (by decide) (by decide) hchar)

theorem IsWord.append {first second : String} (hfirst : IsWord first)
    (hsecond : ∀ char ∈ second.toList, isLetter char = true) : IsWord (first ++ second) := by
  refine ⟨fun hempty => hfirst.1 (String.append_eq_empty_iff.mp hempty).1, fun char hchar => ?_⟩
  rw [String.toList_append, List.mem_append] at hchar
  exact hchar.elim (hfirst.2 char) (hsecond char)

/-! Lines -/

def spell (tokens : List Token) : String :=
  String.ofList (tokens.flatMap chars)

@[simp] theorem toList_spell (tokens : List Token) :
    (spell tokens).toList = tokens.flatMap chars :=
  String.toList_ofList

theorem isLetter_eq_false_of_isMark {char : Char} (hmark : isMark char = true) :
    isLetter char = false := by
  have hmarks : marks.all (fun mark => !isLetter mark) = true := by decide
  simpa using List.all_eq_true.mp hmarks char (List.contains_iff_mem.mp hmark)

theorem Separated.tail {token : Token} {rest : List Token}
    (hseparated : Separated (token :: rest)) : Separated rest := by
  cases token with
  | mark => exact hseparated.2
  | word =>
      match rest, hseparated with
      | [], _ => exact trivial
      | .mark _ :: _, ⟨_, hrest⟩ => exact hrest

theorem Separated.isWord {text : String} {rest : List Token}
    (hseparated : Separated (.word text :: rest)) : IsWord text := by
  match rest, hseparated with
  | [], hword => exact hword
  | .mark _ :: _, ⟨hword, _⟩ => exact hword

/-- The letters that a line starts with. -/
def lead : List Token → List Char
  | .word text :: _ => text.toList
  | _ => []

theorem takeWhile_flatMap_chars {tokens : List Token} (hseparated : Separated tokens) :
    (tokens.flatMap chars).takeWhile isLetter = lead tokens := by
  match tokens, hseparated with
  | [], _ => rfl
  | [.word text], hword =>
      rw [List.flatMap_singleton, chars, List.takeWhile_eq_self_iff.mpr hword.2]
      rfl
  | .word text :: .mark char :: rest, ⟨hword, hchar, _⟩ =>
      rw [List.flatMap_cons, chars, List.takeWhile_append_of_pos hword.2]
      simp [chars, lead, isLetter_eq_false_of_isMark hchar]
  | .mark char :: rest, ⟨hchar, _⟩ => simp [chars, lead, isLetter_eq_false_of_isMark hchar]

theorem lead_congr {tokens tokens' : List Token} (hseparated : Separated tokens)
    (hseparated' : Separated tokens') (hchars : tokens.flatMap chars = tokens'.flatMap chars) :
    lead tokens = lead tokens' := by
  rw [← takeWhile_flatMap_chars hseparated, hchars, takeWhile_flatMap_chars hseparated']

theorem eq_of_flatMap_chars {tokens tokens' : List Token} (hseparated : Separated tokens)
    (hseparated' : Separated tokens') (hchars : tokens.flatMap chars = tokens'.flatMap chars) :
    tokens = tokens' := by
  -- Equal characters give equal leads, and a lead is empty unless a word comes first.
  induction tokens generalizing tokens' with
  | nil =>
      have hlead := lead_congr hseparated hseparated' hchars
      match tokens' with
      | [] => rfl
      | .word text :: rest =>
          exact absurd (String.toList_eq_nil_iff.mp hlead.symm) hseparated'.isWord.1
      | .mark char :: rest => simp [chars] at hchars
  | cons token rest ih =>
      have hlead := lead_congr hseparated hseparated' hchars
      match token, tokens' with
      | .word text, [] | .word text, .mark _ :: _ =>
          exact absurd (String.toList_eq_nil_iff.mp hlead) hseparated.isWord.1
      | .word text, .word text' :: rest' =>
          obtain rfl : text = text' := String.toList_inj.mp hlead
          rw [List.flatMap_cons, List.flatMap_cons, List.append_cancel_left_eq] at hchars
          rw [ih hseparated.tail hseparated'.tail hchars]
      | .mark char, [] => simp [chars] at hchars
      | .mark char, .word text :: _ =>
          exact absurd (String.toList_eq_nil_iff.mp hlead.symm) hseparated'.isWord.1
      | .mark char, .mark char' :: rest' =>
          obtain ⟨rfl, hrest⟩ := List.cons.inj hchars
          rw [ih hseparated.tail hseparated'.tail hrest]

theorem eq_spell {text : String} {tokens : List Token}
    (hchars : text.toList = tokens.flatMap chars) : text = spell tokens := by
  rw [← toList_spell] at hchars
  exact String.toList_inj.mp hchars

/-- A line can be taken apart in one way. -/
theorem spell_inj {tokens tokens' : List Token} (hseparated : Separated tokens)
    (hseparated' : Separated tokens') (hspell : spell tokens = spell tokens') :
    tokens = tokens' := by
  apply eq_of_flatMap_chars hseparated hseparated'
  rw [← toList_spell, ← toList_spell, hspell]

theorem not_mem_spell {tokens : List Token} (hseparated : Separated tokens) :
    '\n' ∉ (spell tokens).toList := by
  rw [toList_spell]
  induction tokens with
  | nil => simp
  | cons token rest ih =>
      rw [List.flatMap_cons, List.mem_append, not_or]
      refine ⟨?_, ih hseparated.tail⟩
      cases token with
      | word text =>
          intro hnewline
          exact absurd (hseparated.isWord.2 _ hnewline) (by decide)
      | mark char =>
          have hmark := hseparated.1
          rintro hnewline
          obtain rfl := List.mem_singleton.mp hnewline
          exact absurd hmark (by decide)

/-! Texts -/

theorem map_spell_inj {lines lines' : List (List Token)} (hlines : ∀ line ∈ lines, Separated line)
    (hlines' : ∀ line ∈ lines', Separated line) (hmaps : lines.map spell = lines'.map spell) :
    lines = lines' := by
  have hforall := List.forall₂_of_map_eq hmaps fun line hline line' hline' =>
    spell_inj (hlines line hline) (hlines' line' hline')
  rwa [List.forall₂_eq_eq_eq] at hforall

/-! Items with commas between them -/

/-- Tokens of items with commas between them. -/
def commas (items : List (List Token)) : List Token :=
  [.mark ',', .mark ' '].intercalate items

theorem commas_cons_cons (item next : List Token) (rest : List (List Token)) :
    commas (item :: next :: rest) = item ++ .mark ',' :: .mark ' ' :: commas (next :: rest) := by
  unfold commas
  rw [List.intercalate_cons_cons, List.append_assoc]
  rfl

@[simp] theorem commas_nil : commas [] = [] := rfl

@[simp] theorem commas_singleton (item : List Token) : commas [item] = item :=
  List.intercalate_singleton ..

theorem separated_commas {items : List (List Token)} (hitems : ∀ item ∈ items, Separated item) :
    Separated (commas items) := by
  induction items with
  | nil => trivial
  | cons item rest ih =>
      obtain ⟨hitem, hrest⟩ := List.forall_mem_cons.mp hitems
      cases rest with
      | nil => rwa [commas_singleton]
      | cons next rest =>
          rw [commas_cons_cons]
          exact hitem.append_mark (by decide) ⟨by decide, ih hrest⟩

theorem commaSeparated_spell (items : List (List Token)) :
    commaSeparated (items.map spell) = spell (commas items) := by
  induction items with
  | nil => rfl
  | cons item rest ih =>
      cases rest with
      | nil => simp [commaSeparated]
      | cons next rest =>
          unfold commaSeparated at ih ⊢
          rw [List.map_cons, List.map_cons, String.intercalate_cons_cons, ← List.map_cons, ih,
            commas_cons_cons]
          apply String.toList_inj.mp
          simp [chars]

/-- Items of one length can be told apart. -/
theorem commas_inj {items items' : List (List Token)} {length : Nat} (hlength : 0 < length)
    (hitems : ∀ item ∈ items, item.length = length)
    (hitems' : ∀ item ∈ items', item.length = length) (hcommas : commas items = commas items') :
    items = items' := by
  -- One item is shorter than two with a comma, so both lists go on or both end.
  induction items generalizing items' with
  | nil =>
      match items' with
      | [] => rfl
      | [item'] =>
          rw [commas_nil, commas_singleton] at hcommas
          simp [← hcommas, Nat.ne_of_lt hlength] at hitems'
      | item' :: next' :: rest' => simp [commas_cons_cons] at hcommas
  | cons item rest ih =>
      have hlengths := congrArg List.length hcommas
      have hitem := hitems item List.mem_cons_self
      match rest, items' with
      | [], [] =>
          rw [commas_singleton, commas_nil] at hcommas
          simp [hcommas, Nat.ne_of_lt hlength] at hitem
      | [], [item'] =>
          rw [commas_singleton, commas_singleton] at hcommas
          rw [hcommas]
      | [], item' :: next' :: rest' =>
          simp [commas_cons_cons, hitem, hitems' item' List.mem_cons_self] at hlengths
      | next :: rest, [] => simp [commas_cons_cons] at hcommas
      | next :: rest, [item'] =>
          simp [commas_cons_cons, hitem, hitems' item' List.mem_cons_self] at hlengths
      | next :: rest, item' :: next' :: rest' =>
          rw [commas_cons_cons, commas_cons_cons] at hcommas
          have hsame : item.length = item'.length := by
            rw [hitem, hitems' item' List.mem_cons_self]
          obtain ⟨rfl, hrest⟩ := List.append_inj hcommas hsame
          simp only [List.cons.injEq, true_and] at hrest
          rw [ih (fun other hother => hitems other (List.mem_cons_of_mem _ hother))
            (fun other hother => hitems' other (List.mem_cons_of_mem _ hother)) hrest]

theorem commas_map_inj {α β : Type} {left : α → List Token} {right : β → List Token}
    {items : List α} {items' : List β} (length : Nat) (hlength : 0 < length)
    (hleft : ∀ item, (left item).length = length) (hright : ∀ item, (right item).length = length)
    (hcommas : commas (items.map left) = commas (items'.map right)) :
    items.map left = items'.map right := by
  apply commas_inj hlength _ _ hcommas
  · intro tokens htokens
    obtain ⟨item, _, rfl⟩ := List.mem_map.mp htokens
    exact hleft item
  · intro tokens htokens
    obtain ⟨item, _, rfl⟩ := List.mem_map.mp htokens
    exact hright item

end Token

end Lift6502.Ssa
