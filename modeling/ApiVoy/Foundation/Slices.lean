/-
# Byte offsets in texts

A text is searched and cut at byte offsets of its UTF-8 form. Inside a character and beyond the
end a text cannot be cut: a program that tries it stops there. An offset that a search returned
is always a place where the text can be cut.
-/

import ApiVoy.Foundation.Utf8
import Mathlib.Algebra.GroupWithZero.Nat

namespace ApiVoy.Foundation

/-- The number of bytes of a text. -/
def byteSize (cs : List Char) : Nat := (cs.map Char.utf8Size).sum

/-- The two parts of a text at a byte offset; `none` where it cannot be cut. -/
def splitAtByte : Nat → List Char → Option (List Char × List Char)
  | 0, cs => some ([], cs)
  | _ + 1, [] => none
  | n + 1, c :: cs =>
    if c.utf8Size ≤ n + 1 then
      (splitAtByte (n + 1 - c.utf8Size) cs).map fun parts => (c :: parts.1, parts.2)
    else none

/-- The text before an offset. -/
def takeBytes (n : Nat) (cs : List Char) : Option (List Char) :=
  (splitAtByte n cs).map Prod.fst

/-- The text from an offset on. -/
def dropBytes (n : Nat) (cs : List Char) : Option (List Char) :=
  (splitAtByte n cs).map Prod.snd

/-- The text between two offsets. -/
def sliceBytes (first last : Nat) (cs : List Char) : Option (List Char) :=
  (takeBytes last cs).bind (dropBytes first)

/-- The offset of the first character that satisfies a predicate. -/
def findByte (p : Char → Bool) : List Char → Option Nat
  | [] => none
  | c :: cs => if p c then some 0 else (findByte p cs).map (· + c.utf8Size)

@[simp]
theorem byteSize_nil : byteSize [] = 0 := rfl

@[simp]
theorem byteSize_cons (c : Char) (cs : List Char) :
    byteSize (c :: cs) = c.utf8Size + byteSize cs := by
  simp [byteSize]

@[simp]
theorem byteSize_append (cs ds : List Char) : byteSize (cs ++ ds) = byteSize cs + byteSize ds := by
  simp [byteSize]

/-- A text can be cut exactly at the ends of its leading parts. -/
theorem splitAtByte_eq_some_iff {n : Nat} {cs front back : List Char} :
    splitAtByte n cs = some (front, back) ↔ cs = front ++ back ∧ byteSize front = n := by
  induction cs generalizing n front with
  | nil =>
    cases n with
    | zero => cases front <;> cases back <;> simp [splitAtByte]
    | succ n => cases front <;> simp [splitAtByte]
  | cons c cs ih =>
    have hpos := Char.utf8Size_pos c
    cases n with
    | zero =>
      constructor
      · intro h
        cases h
        exact ⟨rfl, rfl⟩
      · rintro ⟨heq, hsize⟩
        cases front with
        | nil => rw [splitAtByte, heq, List.nil_append]
        | cons d front =>
          rw [byteSize_cons] at hsize
          have hd := Char.utf8Size_pos d
          omega
    | succ n =>
      rw [splitAtByte]
      constructor
      · intro h
        by_cases hfits : c.utf8Size ≤ n + 1
        · rw [if_pos hfits, Option.map_eq_some_iff] at h
          obtain ⟨⟨tail, rest⟩, htail, heq⟩ := h
          cases heq
          obtain ⟨hsplit, hsize⟩ := ih.mp htail
          refine ⟨by rw [hsplit, List.cons_append], ?_⟩
          change byteSize (c :: tail) = n + 1
          change byteSize tail = n + 1 - c.utf8Size at hsize
          rw [byteSize_cons]
          omega
        · rw [if_neg hfits] at h
          cases h
      · rintro ⟨heq, hsize⟩
        cases front with
        | nil => cases hsize
        | cons d front =>
          rw [List.cons_append, List.cons.injEq] at heq
          obtain ⟨rfl, hrest⟩ := heq
          rw [byteSize_cons] at hsize
          have htail : splitAtByte (n + 1 - c.utf8Size) cs = some (front, back) :=
            ih.mpr ⟨hrest, by omega⟩
          rw [if_pos (by omega), htail, Option.map_some]

variable (front back : List Char)

@[simp]
theorem takeBytes_append : takeBytes (byteSize front) (front ++ back) = some front := by
  rw [takeBytes, splitAtByte_eq_some_iff.mpr ⟨rfl, rfl⟩, Option.map_some]

@[simp]
theorem dropBytes_append : dropBytes (byteSize front) (front ++ back) = some back := by
  rw [dropBytes, splitAtByte_eq_some_iff.mpr ⟨rfl, rfl⟩, Option.map_some]

theorem dropBytes_one {c : Char} (cs : List Char) (h : c.utf8Size = 1) :
    dropBytes 1 (c :: cs) = some cs := by
  simpa [h] using dropBytes_append [c] cs

variable {p : Char → Bool}

theorem findByte_eq_none {cs : List Char} (h : ∀ c ∈ cs, p c = false) : findByte p cs = none := by
  induction cs with
  | nil => rfl
  | cons c cs ih =>
    rw [List.forall_mem_cons] at h
    rw [findByte, h.1, ih h.2]
    rfl

/-- The offset of the first such character is the size of the text before it. -/
theorem findByte_append {front back : List Char} {c : Char} (hfront : ∀ d ∈ front, p d = false)
    (hc : p c = true) : findByte p (front ++ c :: back) = some (byteSize front) := by
  induction front with
  | nil =>
    rw [List.nil_append, findByte, if_pos hc]
    rfl
  | cons d front ih =>
    rw [List.forall_mem_cons] at hfront
    rw [List.cons_append, findByte, hfront.1, if_neg Bool.false_ne_true, ih hfront.2,
      Option.map_some, byteSize_cons, Nat.add_comm]

/-- Either no character satisfies the predicate, or the first one that does cuts the text. -/
theorem span_cases (p : Char → Bool) (cs : List Char) :
    (∀ c ∈ cs, p c = false) ∨
      ∃ front c back, cs = front ++ c :: back ∧ (∀ d ∈ front, p d = false) ∧ p c = true := by
  induction cs with
  | nil => exact Or.inl fun c hc => by cases hc
  | cons c cs ih =>
    by_cases hc : p c = true
    · exact Or.inr ⟨[], c, cs, rfl, (fun d hd => by cases hd), hc⟩
    · have hfalse : p c = false := Bool.eq_false_iff.mpr hc
      cases ih with
      | inl hnone => exact Or.inl (List.forall_mem_cons.mpr ⟨hfalse, hnone⟩)
      | inr hsome =>
        obtain ⟨front, d, back, rfl, hfront, hd⟩ := hsome
        exact Or.inr ⟨c :: front, d, back, rfl, List.forall_mem_cons.mpr ⟨hfalse, hfront⟩, hd⟩

/-- A text is not cut inside a character of three bytes. -/
example : takeBytes 2 ['a', '中'] = none ∧ takeBytes 4 ['a', '中'] = some ['a', '中'] := by decide

end ApiVoy.Foundation
