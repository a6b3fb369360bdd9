/-
# Reference counts

A table whose rows carry a counter counts a list of references when the counter
of every row is the number of references to its key and the rows are exactly the
ones that are referred to. Taking a reference and giving one up keep this in
step, whatever the order of the references.
-/

import ApiVoy.Foundation.Table
import Mathlib.Data.List.Perm.Basic

namespace ApiVoy.Foundation

open Keyed

variable {ρ : Type} [Keyed ρ]

/-- The counters of a table count these references, one for each occurrence. -/
structure Counts (count : ρ → Int) (t : Table ρ) (refs : List String) : Prop where
  count_eq : ∀ r ∈ t.rows, count r = refs.count (key r)
  referred : ∀ k, (t.find? k).isSome = true ↔ k ∈ refs

namespace Counts

variable {count : ρ → Int} {t t' : Table ρ} {refs refs' : List String} {k : String} {r : ρ}

theorem empty : Counts count (∅ : Table ρ) [] where
  count_eq := by simp
  referred k := by simp [Table.find?]

theorem perm (h : Counts count t refs) (hperm : refs.Perm refs') : Counts count t refs' where
  count_eq r hr := by rw [← hperm.count_eq]; exact h.count_eq r hr
  referred k := by rw [← hperm.mem_iff]; exact h.referred k

theorem not_mem_of_find?_eq_none (h : Counts count t refs) (hk : t.find? k = none) : k ∉ refs := by
  rw [← h.referred, hk]
  simp

/-- A row enters with its first reference. -/
theorem insert (h : Counts count t refs) (hinsert : t.insert? r = some t') (hone : count r = 1) :
    Counts count t' (key r :: refs) := by
  obtain ⟨hfree, hrows⟩ := Table.insert?_eq_some_iff.mp hinsert
  have hnew := h.not_mem_of_find?_eq_none hfree
  refine ⟨?_, ?_⟩
  · intro row hrow
    rw [hrows, List.mem_append, List.mem_singleton] at hrow
    rcases hrow with hold | rfl
    · have hne : key r ≠ key row := by
        intro heq
        exact hnew ((h.referred _).mp (by rw [heq, Table.find?_key hold]; rfl))
      rw [List.count_cons_of_ne hne]
      exact h.count_eq row hold
    · rw [List.count_cons_self, List.count_eq_zero.mpr hnew, hone]
      rfl
  · intro k
    rw [Table.find?_insert hinsert, List.mem_cons, ← h.referred]
    by_cases hk : key r = k
    · simp [hk]
    · simp [hk, Ne.symm hk]

/-- Counting a row up takes a reference to it. -/
theorem addRef (h : Counts count t refs) (hfind : t.find? k = some r) {f : ρ → ρ}
    (hf : ∀ r, key (f r) = key r) (hcount : ∀ r, count (f r) = count r + 1) :
    Counts count (t.update k f hf) (k :: refs) := by
  refine ⟨?_, ?_⟩
  · intro row' hrow'
    simp only [Table.mem_update] at hrow'
    obtain ⟨row, hrow, heq⟩ := hrow'
    by_cases hk : key row = k
    · rw [if_pos hk] at heq
      rw [← heq, hf, hk, List.count_cons_self, hcount, h.count_eq row hrow, hk]
      omega
    · rw [if_neg hk] at heq
      rw [← heq, List.count_cons_of_ne (Ne.symm hk)]
      exact h.count_eq row hrow
  · intro k'
    rw [Table.find?_update, Option.isSome_map, h.referred, List.mem_cons]
    have hmem : k ∈ refs := (h.referred k).mp (by rw [hfind]; rfl)
    constructor
    · exact Or.inr
    · rintro (rfl | hrefs)
      · exact hmem
      · exact hrefs

/-- Counting a row down gives a reference up. -/
theorem dropRef (h : Counts count t (k :: refs)) (hfind : t.find? k = some r)
    (hmany : 1 < count r) {f : ρ → ρ} (hf : ∀ r, key (f r) = key r)
    (hcount : ∀ r, count (f r) = count r - 1) : Counts count (t.update k f hf) refs := by
  have hmem : k ∈ refs := by
    have hcountr := h.count_eq r (Table.mem_of_find? hfind)
    rw [Table.key_of_find? hfind, List.count_cons_self] at hcountr
    apply List.count_pos_iff.mp
    omega
  refine ⟨?_, ?_⟩
  · intro row' hrow'
    simp only [Table.mem_update] at hrow'
    obtain ⟨row, hrow, heq⟩ := hrow'
    have hold := h.count_eq row hrow
    by_cases hk : key row = k
    · rw [if_pos hk] at heq
      rw [hk, List.count_cons_self] at hold
      rw [← heq, hf, hcount, hold, hk]
      omega
    · rw [if_neg hk] at heq
      rw [List.count_cons_of_ne (Ne.symm hk)] at hold
      rw [← heq, hold]
  · intro k'
    rw [Table.find?_update, Option.isSome_map, h.referred, List.mem_cons]
    constructor
    · rintro (rfl | hrefs)
      · exact hmem
      · exact hrefs
    · exact Or.inr

/-- A row leaves with its last reference. -/
theorem delete (h : Counts count t (k :: refs)) (hfind : t.find? k = some r)
    (hlast : ¬ 1 < count r) : Counts count (t.filter fun row => key row ≠ k) refs := by
  have hgone : k ∉ refs := by
    have hcountr := h.count_eq r (Table.mem_of_find? hfind)
    rw [Table.key_of_find? hfind, List.count_cons_self] at hcountr
    apply List.count_eq_zero.mp
    omega
  refine ⟨?_, ?_⟩
  · intro row hrow
    obtain ⟨hmem, hne⟩ := Table.mem_filter.mp hrow
    have hne : key row ≠ k := by simpa using hne
    have hold := h.count_eq row hmem
    rwa [List.count_cons_of_ne (Ne.symm hne)] at hold
  · intro k'
    have hold := h.referred k'
    rw [List.mem_cons] at hold
    rw [Table.find?_filter]
    by_cases hk : k' = k
    · subst hk
      rw [hfind]
      simp [Table.key_of_find? hfind, hgone]
    · cases hfind' : t.find? k' with
      | none =>
        rw [hfind'] at hold
        simpa [hk] using hold
      | some row =>
        rw [hfind'] at hold
        have hkey := Table.key_of_find? hfind'
        simpa [hkey, hk] using hold

end Counts

/-! ## Counters that are large enough

A counter may be larger than the number of references, when one was taken and
never written down. A row then stays longer than it has to, but no reference
is left without its row. -/

/-- The counters count at least these references, and the rows under the kept keys
still have their marks. -/
structure Covers {μ : Type} (count : ρ → Int) (mark : ρ → μ) (t : Table ρ)
    (kept : List (String × μ)) (refs : List String) : Prop where
  counted : ∀ k, (refs.count k : Int) ≤ ((t.find? k).map count).getD 0
  marked : ∀ k m, (k, m) ∈ kept → (t.find? k).map mark = some m

namespace Covers

variable {μ : Type} {count : ρ → Int} {mark : ρ → μ} {t t' : Table ρ} {kept : List (String × μ)}
  {refs refs' : List String} {k : String} {r : ρ}

theorem empty : Covers count mark (∅ : Table ρ) [] [] where
  counted _ := Int.le_refl 0
  marked _ _ hk := by cases hk

/-- Fewer references need no more. -/
theorem subperm (h : Covers count mark t kept refs) (hrefs : refs'.Subperm refs) :
    Covers count mark t kept refs' where
  counted k := by
    have hle := hrefs.count_le k
    have hcounted := h.counted k
    omega
  marked := h.marked

theorem isSome_find? (h : Covers count mark t kept refs) (hk : k ∈ refs) :
    (t.find? k).isSome = true := by
  have hcounted := h.counted k
  have hpositive := List.count_pos_iff.mpr hk
  cases hfind : t.find? k with
  | none =>
    rw [hfind] at hcounted
    simp only [Option.map_none, Option.getD_none] at hcounted
    omega
  | some r => rfl

/-- A row enters with its first reference. -/
theorem insert (h : Covers count mark t kept refs) (hinsert : t.insert? r = some t')
    (hone : count r = 1) : Covers count mark t' kept (key r :: refs) where
  counted k := by
    have hcounted := h.counted k
    have hfree := (Table.insert?_eq_some_iff.mp hinsert).1
    rw [Table.find?_insert hinsert]
    by_cases hk : key r = k
    · subst hk
      rw [hfree] at hcounted
      simp only [Option.map_none, Option.getD_none] at hcounted
      rw [if_pos rfl, List.count_cons_self]
      simp only [Option.map_some, Option.getD_some, hone]
      omega
    · rw [if_neg hk, List.count_cons_of_ne hk]
      exact hcounted
  marked k m hm := by
    obtain ⟨row, hrow, hmark⟩ := Option.map_eq_some_iff.mp (h.marked k m hm)
    rw [Table.find?_insert_of_some hinsert hrow, Option.map_some, hmark]

variable {f : ρ → ρ}

theorem find?_update_mark (hf : ∀ r, key (f r) = key r) (hmark : ∀ r, mark (f r) = mark r)
    (k' : String) : ((t.update k f hf).find? k').map mark = (t.find? k').map mark := by
  rw [Table.find?_update, Option.map_map]
  congr 1
  funext row
  simp only [Function.comp_apply]
  split
  · exact hmark row
  · rfl

/-- Counting a row up takes a reference to it. -/
theorem addRef (h : Covers count mark t kept refs) (hfind : t.find? k = some r)
    (hf : ∀ r, key (f r) = key r) (hcount : ∀ r, count (f r) = count r + 1)
    (hmark : ∀ r, mark (f r) = mark r) : Covers count mark (t.update k f hf) kept (k :: refs) where
  counted k' := by
    have hcounted := h.counted k'
    rw [Table.find?_update]
    by_cases hk : k' = k
    · subst hk
      rw [hfind] at hcounted
      simp only [Option.map_some, Option.getD_some] at hcounted
      rw [hfind, List.count_cons_self]
      simp only [Option.map_some, Option.getD_some, if_true, hcount]
      omega
    · rw [List.count_cons_of_ne (Ne.symm hk)]
      simpa only [Option.map_map, if_neg hk, Function.comp_def] using hcounted
  marked k' m hm := by rw [find?_update_mark hf hmark, h.marked k' m hm]

/-- Counting a row down gives a reference up. -/
theorem dropRef (h : Covers count mark t kept (k :: refs)) (hf : ∀ r, key (f r) = key r)
    (hcount : ∀ r, count (f r) = count r - 1) (hmark : ∀ r, mark (f r) = mark r) :
    Covers count mark (t.update k f hf) kept refs where
  counted k' := by
    have hcounted := h.counted k'
    rw [Table.find?_update]
    by_cases hk : k' = k
    · subst hk
      obtain ⟨row, hrow⟩ := Option.isSome_iff_exists.mp (h.isSome_find? List.mem_cons_self)
      rw [hrow, List.count_cons_self] at hcounted
      simp only [Option.map_some, Option.getD_some] at hcounted
      rw [hrow]
      simp only [Option.map_some, Option.getD_some, if_true, hcount]
      omega
    · rw [List.count_cons_of_ne (Ne.symm hk)] at hcounted
      simpa only [Option.map_map, if_neg hk, Function.comp_def] using hcounted
  marked k' m hm := by rw [find?_update_mark hf hmark, h.marked k' m hm]

/-- A row leaves with its last reference, if no kept key is its own. -/
theorem delete (h : Covers count mark t kept (k :: refs)) (hfind : t.find? k = some r)
    (hlast : ¬ 1 < count r) (hkept : ∀ k' m, (k', m) ∈ kept → k' ∈ refs) :
    Covers count mark (t.filter fun row => key row ≠ k) kept refs := by
  have hgone : k ∉ refs := by
    have hcounted := h.counted k
    rw [hfind, List.count_cons_self] at hcounted
    simp only [Option.map_some, Option.getD_some] at hcounted
    apply List.count_eq_zero.mp
    omega
  have hother : ∀ k', k' ≠ k → (t.filter fun row => key row ≠ k).find? k' = t.find? k' := by
    intro k' hk
    rw [Table.find?_filter]
    cases hfind' : t.find? k' with
    | none => rfl
    | some row => simp [Table.key_of_find? hfind', hk]
  constructor
  · intro k'
    by_cases hk : k' = k
    · subst hk
      have hnone : (t.filter fun row => key row ≠ k').find? k' = none := by
        rw [Table.find?_eq_none_iff]
        intro row hrow
        simpa using (Table.mem_filter.mp hrow).2
      rw [List.count_eq_zero.mpr hgone, hnone]
      exact Int.le_refl 0
    · have hcounted := h.counted k'
      rw [List.count_cons_of_ne (Ne.symm hk)] at hcounted
      rw [hother k' hk]
      exact hcounted
  · intro k' m hm
    rw [hother k' fun hk => hgone (hk ▸ hkept k' m hm)]
    exact h.marked k' m hm

end Covers

end ApiVoy.Foundation
