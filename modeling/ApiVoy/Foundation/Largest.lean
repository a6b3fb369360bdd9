/-
# The largest item of a list

Items are compared by a key, and of several items with the largest key the last one is taken. So
the choice does not depend on the order of the items exactly when only one of them has the largest
key.
-/

import Mathlib.Data.List.Basic
import Mathlib.Order.Lattice

namespace ApiVoy.Foundation

universe u v

variable {α : Type u} {κ : Type v} [LinearOrder κ] {key : α → κ} {p : α → Bool}

/-- Of two items the one with the larger key, and the second one if they have the same. -/
def laterMax (key : α → κ) (first second : α) : α :=
  if key second < key first then first else second

/-- The last of the items with the largest key. -/
def maxByKey (key : α → κ) : List α → Option α
  | [] => none
  | first :: rest => some (rest.foldl (laterMax key) first)

/-- An item that none of the items goes beyond. -/
structure Largest (key : α → κ) (items : List α) (item : α) : Prop where
  mem : item ∈ items
  le : ∀ other ∈ items, key other ≤ key item

variable {item : α}

theorem Largest.of_perm {items others : List α} (h : Largest key items item)
    (hperm : items.Perm others) : Largest key others item where
  mem := hperm.mem_iff.mp h.mem
  le := fun other hother => h.le other (hperm.mem_iff.mpr hother)

theorem le_laterMax (first second : α) :
    key first ≤ key (laterMax key first second) ∧
      key second ≤ key (laterMax key first second) := by
  unfold laterMax
  split
  · rename_i hlt
    exact ⟨le_rfl, hlt.le⟩
  · rename_i hle
    exact ⟨not_lt.mp hle, le_rfl⟩

theorem largest_foldl (first : α) (rest : List α) :
    Largest key (first :: rest) (rest.foldl (laterMax key) first) := by
  induction rest generalizing first with
  | nil => exact ⟨List.mem_singleton_self first, fun other hother =>
    le_of_eq (congrArg key (List.mem_singleton.mp hother))⟩
  | cons second rest ih =>
    have hrest := ih (laterMax key first second)
    have hle := hrest.le _ List.mem_cons_self
    rw [List.foldl_cons]
    constructor
    · rcases List.mem_cons.mp hrest.mem with heq | hmem
      · rw [heq]
        unfold laterMax
        split
        · exact List.mem_cons_self
        · exact List.mem_cons_of_mem _ List.mem_cons_self
      · exact List.mem_cons_of_mem _ (List.mem_cons_of_mem _ hmem)
    · intro other hother
      rcases List.mem_cons.mp hother with rfl | hother
      · exact (le_laterMax other second).1.trans hle
      rcases List.mem_cons.mp hother with rfl | hother
      · exact (le_laterMax first other).2.trans hle
      · exact hrest.le other (List.mem_cons_of_mem _ hother)

variable {items : List α}

theorem largest_of_maxByKey (h : maxByKey key items = some item) : Largest key items item := by
  cases items with
  | nil => cases h
  | cons first rest =>
    cases h
    exact largest_foldl first rest

theorem maxByKey_isSome (h : items ≠ []) : (maxByKey key items).isSome := by
  cases items with
  | nil => exact absurd rfl h
  | cons first rest => rfl

/-- An item that comes last is taken if no item goes beyond it. -/
theorem maxByKey_concat (h : ∀ other ∈ items, key other ≤ key item) :
    maxByKey key (items ++ [item]) = some item := by
  cases items with
  | nil => rfl
  | cons first rest =>
    rw [List.cons_append, maxByKey, List.foldl_concat, laterMax, if_neg]
    exact not_lt.mpr (h _ (largest_foldl first rest).mem)

/-- The choice among the items that pass a test is the same in any order exactly when one of them at
most has the largest key. -/
theorem maxByKey_perm_iff :
    (∀ order others : List α, order.Perm items → others.Perm items →
        maxByKey key (order.filter p) = maxByKey key (others.filter p)) ↔
      ∀ item other, Largest key (items.filter p) item → Largest key (items.filter p) other →
        item = other := by
  constructor
  · intro h
    have hlast : ∀ item, Largest key (items.filter p) item →
        maxByKey key (items.filter p) = some item := by
      intro item hitem
      obtain ⟨before, after, rfl⟩ := List.append_of_mem (List.mem_filter.mp hitem.mem).1
      have hperm : ((before ++ after) ++ [item]).Perm (before ++ item :: after) := by
        rw [List.append_assoc]
        exact List.Perm.append_left before List.perm_append_comm
      have hp : p item = true := (List.mem_filter.mp hitem.mem).2
      rw [← h _ _ hperm (List.Perm.refl _), List.filter_append]
      rw [List.filter_cons_of_pos hp, List.filter_nil]
      refine maxByKey_concat fun other hother => hitem.le other ?_
      have hmem := List.mem_append_left (List.filter p [item]) hother
      rw [← List.filter_append] at hmem
      exact (hperm.filter p).mem_iff.mp hmem
    intro item other hitem hother
    exact Option.some.inj ((hlast item hitem).symm.trans (hlast other hother))
  · intro h order others horder hothers
    cases hchoice : maxByKey key (order.filter p) with
    | none =>
      have hnil : order.filter p = [] := by
        by_contra hne
        have hsome : (maxByKey key (order.filter p)).isSome := maxByKey_isSome hne
        rw [hchoice] at hsome
        cases hsome
      have hperm := (horder.trans hothers.symm).filter p
      rw [hnil] at hperm
      rw [hperm.nil_eq.symm]
      rfl
    | some item =>
      have hitem := (largest_of_maxByKey hchoice).of_perm (horder.filter p)
      cases hother : maxByKey key (others.filter p) with
      | none =>
        have hne : others.filter p ≠ [] := List.ne_nil_of_mem
          ((hothers.filter p).mem_iff.mpr hitem.mem)
        have hsome : (maxByKey key (others.filter p)).isSome := maxByKey_isSome hne
        rw [hother] at hsome
        cases hsome
      | some other =>
        have hlargest := (largest_of_maxByKey hother).of_perm (hothers.filter p)
        exact congrArg some (h item other hitem hlargest)

end ApiVoy.Foundation
