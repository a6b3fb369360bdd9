/-
# Trimming

What is left of a list when the elements that satisfy a predicate are removed at both ends:
a part of the list that neither begins nor ends with such an element.
-/

import Mathlib.Data.List.DropRight

namespace ApiVoy.Foundation

variable {α : Type} {p : α → Bool}

/-- Remove the elements that satisfy `p` at both ends. -/
def trimBy (p : α → Bool) (cs : List α) : List α :=
  ((cs.dropWhile p).reverse.dropWhile p).reverse

theorem trimBy_sublist (cs : List α) : (trimBy p cs).Sublist cs :=
  (List.rdropWhile_prefix p _).sublist.trans (List.dropWhile_sublist p)

/-- There is nothing to trim when no end satisfies the predicate. -/
theorem trimBy_eq_self_iff {cs : List α} :
    trimBy p cs = cs ↔
      (∀ c ∈ cs.head?, p c = false) ∧ ∀ c ∈ cs.getLast?, p c = false := by
  have hlength : (trimBy p cs).length ≤ (cs.dropWhile p).length :=
    (List.rdropWhile_prefix p _).length_le
  constructor
  · intro h
    have hdrop : cs.dropWhile p = cs := by
      rw [h] at hlength
      exact (List.dropWhile_sublist p).eq_of_length_le hlength
    have hlast : cs.rdropWhile p = cs := by
      have hall : (cs.dropWhile p).rdropWhile p = cs := h
      rwa [hdrop] at hall
    constructor
    · intro c hc
      cases cs with
      | nil => cases hc
      | cons d rest =>
        cases hc
        simpa using List.dropWhile_eq_self_iff.mp hdrop (Nat.zero_lt_succ _)
    · intro c hc
      have hne : cs ≠ [] := by
        rintro rfl
        cases hc
      have heq : cs.getLast hne = c :=
        Option.some.inj ((List.getLast?_eq_some_getLast hne).symm.trans hc)
      simpa [heq] using List.rdropWhile_eq_self_iff.mp hlast hne
  · rintro ⟨hhead, hlast⟩
    have hdrop : cs.dropWhile p = cs := by
      cases cs with
      | nil => rfl
      | cons d rest => simp [hhead d rfl]
    have hright : cs.rdropWhile p = cs := by
      refine List.rdropWhile_eq_self_iff.mpr fun hne => ?_
      rw [hlast _ (List.getLast?_eq_some_getLast hne)]
      exact Bool.false_ne_true
    change (cs.dropWhile p).rdropWhile p = cs
    rw [hdrop, hright]

@[simp]
theorem trimBy_trimBy (cs : List α) : trimBy p (trimBy p cs) = trimBy p cs := by
  have hright : (trimBy p cs).rdropWhile p = trimBy p cs := List.rdropWhile_idempotent _ _
  refine trimBy_eq_self_iff.mpr ⟨fun c hc => ?_, fun c hc => ?_⟩
  · -- what is left begins where the removed part at the front ends
    obtain ⟨more, hmore⟩ := List.rdropWhile_prefix p (cs.dropWhile p)
    have hhead : (cs.dropWhile p).head? = some c := by
      rw [← hmore, List.head?_append]
      have hsome : ((cs.dropWhile p).rdropWhile p).head? = some c := hc
      rw [hsome]
      rfl
    cases hrest : cs.dropWhile p with
    | nil =>
      rw [hrest] at hhead
      cases hhead
    | cons d rest =>
      have hd : p d = false := by
        have hne : cs.dropWhile p ≠ [] := hrest ▸ List.cons_ne_nil _ _
        have hnot := List.head_dropWhile_not p hne
        simpa [hrest] using hnot
      rw [hrest] at hhead
      cases hhead
      exact hd
  · have hne : trimBy p cs ≠ [] := by
      intro hnil
      rw [hnil] at hc
      cases hc
    have heq : (trimBy p cs).getLast hne = c :=
      Option.some.inj ((List.getLast?_eq_some_getLast hne).symm.trans hc)
    simpa [heq] using List.rdropWhile_eq_self_iff.mp hright hne

/-- A first element that stays is the first of what is left. -/
theorem head?_trimBy {cs : List α} {c : α} (h : cs.head? = some c)
    (hfalse : p c = false) : (trimBy p cs).head? = some c := by
  cases cs with
  | nil => cases h
  | cons d rest =>
    cases h
    have hdrop : (c :: rest).dropWhile p = c :: rest := by simp [hfalse]
    have hprefix : trimBy p (c :: rest) <+: c :: rest := by
      have hright := List.rdropWhile_prefix p ((c :: rest).dropWhile p)
      rw [hdrop] at hright
      rwa [trimBy, hdrop]
    have hne : trimBy p (c :: rest) ≠ [] := by
      intro hnil
      have hall : (c :: rest).rdropWhile p = [] := by
        rw [trimBy, hdrop] at hnil
        exact hnil
      have hfirst := List.rdropWhile_eq_nil_iff.mp hall c List.mem_cons_self
      rw [hfalse] at hfirst
      cases hfirst
    obtain ⟨first, more, hcons⟩ := List.exists_cons_of_ne_nil hne
    rw [hcons] at hprefix ⊢
    rw [(List.cons_prefix_cons.mp hprefix).1]
    rfl

end ApiVoy.Foundation
