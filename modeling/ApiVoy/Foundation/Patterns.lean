/-
# Patterns

A pattern is a sequence of atoms. An atom takes elements of one kind from the front of a list,
a fixed number of them or any number from a least one on. A greedy atom prefers to take many and
a reluctant one few; where the rest of the pattern then does not match, the next number is
tried. A match is found whenever there is one.
-/

import Mathlib.Data.List.Forall2
import Mathlib.Data.List.TakeWhile

namespace ApiVoy.Foundation

/-- A part of a pattern: the kind of elements it takes, and how many. -/
structure Atom (α : Type) where
  accepts : α → Bool
  least : Nat
  many : Bool
  greedy : Bool

namespace Atom

variable {α : Type}

/-- Exactly one element of a kind. -/
def one (accepts : α → Bool) : Atom α := ⟨accepts, 1, false, true⟩

/-- How many elements an atom can take from the front of a list, the preferred number first. -/
def counts (atom : Atom α) (items : List α) : List Nat :=
  let most := (items.takeWhile atom.accepts).length
  let all := if atom.many = true then (List.range (most + 1)).filter (atom.least ≤ ·)
    else [atom.least].filter (· ≤ most)
  if atom.greedy = true then all.reverse else all

/-- Elements that an atom can take. -/
structure Takes (atom : Atom α) (part : List α) : Prop where
  kind : ∀ item ∈ part, atom.accepts item = true
  least : atom.least ≤ part.length
  most : atom.many = false → part.length = atom.least

/-- The front of a list consists of accepted elements when it is not longer than their run. -/
theorem le_takeWhile_iff {accepts : α → Bool} {items : List α} {n : Nat} (h : n ≤ items.length) :
    n ≤ (items.takeWhile accepts).length ↔ ∀ item ∈ items.take n, accepts item = true := by
  induction items generalizing n with
  | nil =>
    have hzero : n = 0 := Nat.le_zero.mp h
    simp [hzero]
  | cons item items ih =>
    cases n with
    | zero => simp
    | succ n =>
      rw [List.takeWhile_cons, List.take_succ_cons, List.forall_mem_cons]
      split
      · rename_i haccepts
        rw [List.length_cons, Nat.succ_le_succ_iff, ih (Nat.le_of_succ_le_succ h)]
        exact ⟨fun hrest => ⟨haccepts, hrest⟩, And.right⟩
      · rename_i haccepts
        exact ⟨fun hle => absurd hle (Nat.not_succ_le_zero n), fun hall => absurd hall.1 haccepts⟩

theorem mem_counts_iff {atom : Atom α} {items : List α} {n : Nat} :
    n ∈ atom.counts items ↔ n ≤ items.length ∧ atom.Takes (items.take n) := by
  have hmost : n ≤ (items.takeWhile atom.accepts).length ↔
      n ≤ items.length ∧ ∀ item ∈ items.take n, atom.accepts item = true := by
    constructor
    · intro h
      have hle := h.trans (List.takeWhile_prefix _).length_le
      exact ⟨hle, (le_takeWhile_iff hle).mp h⟩
    · exact fun h => (le_takeWhile_iff h.1).mpr h.2
  have hall : n ∈ atom.counts items ↔ n ≤ (items.takeWhile atom.accepts).length ∧
      atom.least ≤ n ∧ (atom.many = false → n = atom.least) := by
    unfold counts
    cases atom.greedy <;> cases atom.many <;> simp <;> grind
  rw [hall, hmost]
  constructor
  · rintro ⟨⟨hle, hkind⟩, hleast, hmost⟩
    have hlength : (items.take n).length = n := List.length_take_of_le hle
    exact ⟨hle, hkind, hlength.symm ▸ hleast, fun hmany => hlength.trans (hmost hmany)⟩
  · rintro ⟨hle, htakes⟩
    have hlength : (items.take n).length = n := List.length_take_of_le hle
    exact ⟨⟨hle, htakes.kind⟩, hlength ▸ htakes.least, fun hmany => hlength ▸ htakes.most hmany⟩

end Atom

section Matching

variable {α : Type}

/-- The first match of a pattern at the front of a list, in the order of preference: what each
atom takes, and what is left. -/
def matchAt : List (Atom α) → List α → Option (List (List α) × List α)
  | [], items => some ([], items)
  | atom :: atoms, items =>
    (atom.counts items).findSome? fun n =>
      (matchAt atoms (items.drop n)).map fun found => (items.take n :: found.1, found.2)

variable {pattern : List (Atom α)}

variable {parts : List (List α)}

/-- In a match every atom takes what it accepts, and nothing is left out. -/
theorem matchAt_sound {items rest : List α} (h : matchAt pattern items = some (parts, rest)) :
    List.Forall₂ Atom.Takes pattern parts ∧ items = parts.flatten ++ rest := by
  induction pattern generalizing items parts with
  | nil =>
    cases h
    exact ⟨.nil, rfl⟩
  | cons atom atoms ih =>
    obtain ⟨n, hn, hfound⟩ := List.exists_of_findSome?_eq_some h
    obtain ⟨⟨others, left⟩, hrest, heq⟩ := Option.map_eq_some_iff.mp hfound
    cases heq
    obtain ⟨htakes, hsplit⟩ := ih hrest
    refine ⟨.cons (Atom.mem_counts_iff.mp hn).2 htakes, ?_⟩
    rw [List.flatten_cons, List.append_assoc, ← hsplit, List.take_append_drop]

/-- Where a list begins with what the atoms accept, there is a match. -/
theorem matchAt_complete (h : List.Forall₂ Atom.Takes pattern parts) (rest : List α) :
    (matchAt pattern (parts.flatten ++ rest)).isSome = true := by
  induction h with
  | nil => rfl
  | @cons atom part atoms parts htakes _ ih =>
    have hitems : (part :: parts).flatten ++ rest = part ++ (parts.flatten ++ rest) := by simp
    have hcount : part.length ∈ atom.counts (part ++ (parts.flatten ++ rest)) := by
      rw [Atom.mem_counts_iff, List.take_left]
      exact ⟨by simp, htakes⟩
    rw [hitems, matchAt, List.isSome_findSome?, List.any_eq_true]
    exact ⟨part.length, hcount, by rw [List.drop_left, Option.isSome_map]; exact ih⟩

end Matching

/-- A reluctant atom leaves what a later one also takes. -/
example :
    matchAt [⟨fun c => c.isAlpha, 1, true, false⟩, ⟨fun c => c.isAlpha, 0, true, true⟩]
      "ab1".toList = some ([['a'], ['b']], ['1']) := by
  decide

end ApiVoy.Foundation
