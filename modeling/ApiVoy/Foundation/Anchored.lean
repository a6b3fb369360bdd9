/-
# Lines of a text

A pattern that is anchored to the beginning of a line is tried after every line terminator, and
scripts know four of them. The text of a JSON value has none of these but the two separators of
Unicode, which a string keeps as they are.
-/

import ApiVoy.Foundation.JsonReads

namespace ApiVoy.Foundation

/-! ## Terminators -/

/-- The characters that end a line of a script. -/
def isTerminator (c : Char) : Bool :=
  c = '\n' || c = '\r' || c = '\u2028' || c = '\u2029'

theorem isTerminator_iff {c : Char} :
    isTerminator c = true ↔ c = '\n' ∨ c = '\r' ∨ c = '\u2028' ∨ c = '\u2029' := by
  simp [isTerminator, or_assoc]

/-! ## Anchored patterns -/

section Anchored

variable {α : Type} (pattern : List Char → Option α)

/-- What a pattern finds at the first beginning of a line where it finds something. -/
def matchLines : Bool → List Char → Option α
  | start, [] => if start then pattern [] else none
  | start, c :: rest =>
    (if start then pattern (c :: rest) else none).or (matchLines (isTerminator c) rest)

variable {pattern} {line rest : List Char} {last : Char}

theorem matchLines_rest (hline : ∀ c ∈ line, isTerminator c = false)
    (hlast : isTerminator last = true) :
    matchLines pattern false (line ++ last :: rest) = matchLines pattern true rest := by
  induction line with
  | nil => rw [List.nil_append, matchLines, if_neg Bool.false_ne_true, Option.none_or, hlast]
  | cons c line ih =>
    obtain ⟨hc, hline⟩ := List.forall_mem_cons.mp hline
    rw [List.cons_append, matchLines, if_neg Bool.false_ne_true, Option.none_or, hc, ih hline]

/-- A line where the pattern finds nothing is passed over. -/
theorem matchLines_skip (hline : ∀ c ∈ line, isTerminator c = false)
    (hlast : isTerminator last = true) (hnone : pattern (line ++ last :: rest) = none) :
    matchLines pattern true (line ++ last :: rest) = matchLines pattern true rest := by
  cases line with
  | nil =>
    rw [List.nil_append] at hnone ⊢
    rw [matchLines, if_pos rfl, hnone, Option.none_or, hlast]
  | cons c line =>
    rw [List.cons_append] at hnone ⊢
    obtain ⟨hc, hline⟩ := List.forall_mem_cons.mp hline
    rw [matchLines, if_pos rfl, hnone, Option.none_or, hc, matchLines_rest hline hlast]

theorem matchLines_of_eq_some {text : List Char} {found : α} (h : pattern text = some found) :
    matchLines pattern true text = some found := by
  cases text with
  | nil => exact h
  | cons c text => rw [matchLines, if_pos rfl, h, Option.some_or]

end Anchored

/-! ## JSON on one line -/

namespace JsonText

mutual

/-- The strings in a value, with the names of its members. -/
def stringsOf : Json → List String
  | .str text => [text]
  | .arr items => itemStrings items
  | .obj members => memberStrings members
  | _ => []

def itemStrings : List Json → List String
  | [] => []
  | item :: rest => stringsOf item ++ itemStrings rest

def memberStrings : List (String × Json) → List String
  | [] => []
  | (name, value) :: rest => name :: (stringsOf value ++ memberStrings rest)

end

theorem isWordChar_of_terminator {c : Char} (h : isTerminator c = true) : isWordChar c = false := by
  rcases isTerminator_iff.mp h with rfl | rfl | rfl | rfl <;> decide

/-- Besides the character itself only ASCII characters stand for it. -/
theorem mem_escapeChar {c d : Char} (h : c ∈ escapeChar d) : c = d ∨ c.toNat < 128 := by
  unfold escapeChar at h
  split at h
  · rename_i e he
    right
    rcases List.mem_cons.mp h with rfl | h
    · decide
    rw [List.mem_singleton.mp h]
    unfold shortEscape at he
    repeat' split at he
    all_goals
      cases he
      try decide
  split at h
  · right
    have hdigit : ∀ n < 16, (hexDigit n).toNat < 128 := by decide
    have hd16 : d.toNat / 16 < 16 := by omega
    simp only [List.mem_cons, List.not_mem_nil, or_false] at h
    rcases h with rfl | rfl | rfl | rfl | rfl | rfl
    · decide
    · decide
    · decide
    · decide
    · exact hdigit _ hd16
    · exact hdigit _ (by omega)
  · exact Or.inl (List.mem_singleton.mp h)

/-- A terminator in the text of a string is one of the string, and no control character. -/
theorem terminator_of_quote {text : List Char} {c : Char} (h : c ∈ quote text)
    (hc : isTerminator c = true) : c ∈ text ∧ 32 ≤ c.toNat := by
  have hle : 32 ≤ c.toNat := le_of_mem_quote h
  refine ⟨?_, hle⟩
  have hge : 128 ≤ c.toNat := by
    rcases isTerminator_iff.mp hc with rfl | rfl | rfl | rfl
    · exact absurd hle (by decide)
    · exact absurd hle (by decide)
    · decide
    · decide
  have hquote : c ≠ '"' := by
    rintro rfl
    exact absurd hge (by decide)
  rcases List.mem_cons.mp h with heq | h
  · exact absurd heq hquote
  rcases List.mem_append.mp h with h | h
  · obtain ⟨d, hd, hcd⟩ := List.mem_flatMap.mp h
    rcases mem_escapeChar hcd with rfl | hlt
    · exact hd
    · omega
  · exact absurd (List.mem_singleton.mp h) hquote

section OneLine

variable {shown : Rat → List Char}

mutual

/-- A terminator in the compact text of a value is one of a string in it, and no control
character. -/
theorem terminator_of_render : ∀ (j : Json) (depth : Nat), printable shown j = true →
    ∀ c ∈ render shown 0 depth j, isTerminator c = true → ∃ text ∈ stringsOf j,
      c ∈ text.toList ∧ 32 ≤ c.toNat
  | .null, _, _, c, hc, hterminator => by
    have hword : ∀ c ∈ "null".toList, isWordChar c = true := by decide
    exact absurd (hword c hc) (by simp [isWordChar_of_terminator hterminator])
  | .bool true, _, _, c, hc, hterminator => by
    have hword : ∀ c ∈ "true".toList, isWordChar c = true := by decide
    exact absurd (hword c hc) (by simp [isWordChar_of_terminator hterminator])
  | .bool false, _, _, c, hc, hterminator => by
    have hword : ∀ c ∈ "false".toList, isWordChar c = true := by decide
    exact absurd (hword c hc) (by simp [isWordChar_of_terminator hterminator])
  | .num q, _, hprintable, c, hc, hterminator => by
    have hprints : printsBack shown q = true := hprintable
    unfold printsBack at hprints
    have hword := List.all_eq_true.mp (Bool.and_eq_true_iff.mp hprints).1 c hc
    exact absurd hword (by simp [isWordChar_of_terminator hterminator])
  | .str text, _, _, c, hc, hterminator =>
    ⟨text, List.mem_singleton_self _, terminator_of_quote hc hterminator⟩
  | .arr items, depth, hprintable, c, hc, hterminator => by
    have hbracket : c ≠ '[' ∧ c ≠ ']' := by
      rcases isTerminator_iff.mp hterminator with rfl | rfl | rfl | rfl <;> decide
    have hbreak : ∀ depth, lineBreak 0 depth = [] := fun depth => rfl
    rw [render, hbreak, ite_self, List.nil_append] at hc
    rcases List.mem_append.mp hc with hc | hc
    · rcases List.mem_cons.mp hc with heq | hc
      · exact absurd heq hbracket.1
      · exact terminator_of_renderItems items _ hprintable c hc hterminator
    · exact absurd (List.mem_singleton.mp hc) hbracket.2
  | .obj members, depth, hprintable, c, hc, hterminator => by
    have hbracket : c ≠ '{' ∧ c ≠ '}' := by
      rcases isTerminator_iff.mp hterminator with rfl | rfl | rfl | rfl <;> decide
    have hbreak : ∀ depth, lineBreak 0 depth = [] := fun depth => rfl
    rw [render, hbreak, ite_self, List.nil_append] at hc
    have hmembers : membersPrintable shown members = true :=
      (Bool.and_eq_true_iff.mp hprintable).2
    rcases List.mem_append.mp hc with hc | hc
    · rcases List.mem_cons.mp hc with heq | hc
      · exact absurd heq hbracket.1
      · exact terminator_of_renderMembers members _ hmembers c hc hterminator
    · exact absurd (List.mem_singleton.mp hc) hbracket.2

theorem terminator_of_renderItems : ∀ (items : List Json) (depth : Nat),
    itemsPrintable shown items = true → ∀ c ∈ renderItems shown 0 depth items,
    isTerminator c = true → ∃ text ∈ itemStrings items, c ∈ text.toList ∧ 32 ≤ c.toNat
  | [], _, _, c, hc, _ => by cases hc
  | item :: rest, depth, hprintable, c, hc, hterminator => by
    have hcomma : c ≠ ',' := by
      rcases isTerminator_iff.mp hterminator with rfl | rfl | rfl | rfl <;> decide
    have hparts := Bool.and_eq_true_iff.mp hprintable
    have hrest : c ∈ renderItems shown 0 depth rest → ∃ text ∈ itemStrings (item :: rest),
        c ∈ text.toList ∧ 32 ≤ c.toNat := fun hc => by
      obtain ⟨text, htext, hmem⟩ := terminator_of_renderItems rest depth hparts.2 c hc hterminator
      exact ⟨text, List.mem_append_right _ htext, hmem⟩
    have hbreak : lineBreak 0 depth = [] := rfl
    rw [renderItems, hbreak, List.nil_append] at hc
    rcases List.mem_append.mp hc with hc | hc
    · obtain ⟨text, htext, hmem⟩ := terminator_of_render item depth hparts.1 c hc hterminator
      exact ⟨text, List.mem_append_left _ htext, hmem⟩
    split at hc
    · cases hc
    rcases List.mem_cons.mp hc with heq | hc
    · exact absurd heq hcomma
    · exact hrest hc

theorem terminator_of_renderMembers : ∀ (members : List (String × Json)) (depth : Nat),
    membersPrintable shown members = true → ∀ c ∈ renderMembers shown 0 depth members,
    isTerminator c = true → ∃ text ∈ memberStrings members, c ∈ text.toList ∧ 32 ≤ c.toNat
  | [], _, _, c, hc, _ => by cases hc
  | (name, value) :: rest, depth, hprintable, c, hc, hterminator => by
    have hmark : c ≠ ',' ∧ c ≠ ':' := by
      rcases isTerminator_iff.mp hterminator with rfl | rfl | rfl | rfl <;> decide
    have hparts := Bool.and_eq_true_iff.mp hprintable
    have hbreak : lineBreak 0 depth = [] := rfl
    have hcolon : colonText 0 = [':'] := rfl
    rw [renderMembers, hbreak, List.nil_append, hcolon] at hc
    rcases List.mem_append.mp hc with hc | hc
    · exact ⟨name, List.mem_cons_self, terminator_of_quote hc hterminator⟩
    rcases List.mem_append.mp hc with hc | hc
    · exact absurd (List.mem_singleton.mp hc) hmark.2
    rcases List.mem_append.mp hc with hc | hc
    · obtain ⟨text, htext, hmem⟩ := terminator_of_render value depth hparts.1 c hc hterminator
      exact ⟨text, List.mem_cons_of_mem _ (List.mem_append_left _ htext), hmem⟩
    split at hc
    · cases hc
    rcases List.mem_cons.mp hc with heq | hc
    · exact absurd heq hmark.1
    obtain ⟨text, htext, hmem⟩ :=
      terminator_of_renderMembers rest depth hparts.2 c hc hterminator
    exact ⟨text, List.mem_cons_of_mem _ (List.mem_append_right _ htext), hmem⟩

end

end OneLine

end JsonText

end ApiVoy.Foundation
