/-
# Tables with a primary key

A table is a list of rows, in insertion order, whose keys are distinct: the
distinctness is a field, so that no operation can build a table with two rows
under one key. The operations are those of a relational statement: inserting a
row, inserting or updating it, updating rows in place, and keeping the rows a
condition selects.
-/

import Mathlib.Data.List.Nodup
import Mathlib.Data.List.Perm.Basic

namespace ApiVoy.Foundation

/-- Rows that carry their primary key. -/
class Keyed (ρ : Type) where
  key : ρ → String

open Keyed (key)

/-- Rows with distinct keys, in insertion order. -/
structure Table (ρ : Type) [Keyed ρ] where
  rows : List ρ
  nodup : (rows.map key).Nodup

namespace Table

variable {ρ : Type} [Keyed ρ]

theorem ext {t t' : Table ρ} (h : t.rows = t'.rows) : t = t' := by
  cases t
  cases t'
  cases h
  rfl

instance [DecidableEq ρ] : DecidableEq (Table ρ) := fun t t' =>
  decidable_of_iff (t.rows = t'.rows) ⟨ext, fun h => h ▸ rfl⟩

instance : EmptyCollection (Table ρ) := ⟨⟨[], List.nodup_nil⟩⟩

def single (r : ρ) : Table ρ := ⟨[r], by simp⟩

@[simp]
theorem rows_single (r : ρ) : (single r).rows = [r] := rfl

@[simp]
theorem rows_empty : (∅ : Table ρ).rows = [] := rfl

def find? (t : Table ρ) (k : String) : Option ρ := t.rows.find? fun r => key r = k

/-- Keep the rows that meet a condition. -/
def filter (t : Table ρ) (p : ρ → Bool) : Table ρ where
  rows := t.rows.filter p
  nodup := t.nodup.sublist ((List.filter_sublist).map _)

/-- Add a row, unless its key is taken. -/
def insert? (t : Table ρ) (r : ρ) : Option (Table ρ) :=
  if h : key r ∈ t.rows.map key then none
  else some {
    rows := t.rows ++ [r]
    nodup := by
      rw [List.map_append, List.nodup_append]
      exact ⟨t.nodup, by simp, by rintro _ ha _ hb rfl; exact h (by simp_all)⟩ }

/-- Update every row that meets a condition; keys do not change. -/
def updateWhere (t : Table ρ) (p : ρ → Bool) (f : ρ → ρ) (hf : ∀ r, key (f r) = key r) :
    Table ρ where
  rows := t.rows.map fun r => if p r then f r else r
  nodup := by
    have hkeys : (t.rows.map fun r => if p r then f r else r).map key = t.rows.map key := by
      rw [List.map_map]
      refine List.map_congr_left fun r _ => ?_
      simp only [Function.comp_apply]
      split
      · exact hf r
      · rfl
    rw [hkeys]
    exact t.nodup

/-- Update the row under a key. -/
def update (t : Table ρ) (k : String) (f : ρ → ρ) (hf : ∀ r, key (f r) = key r) : Table ρ :=
  t.updateWhere (fun r => key r = k) f hf

/-- Add a row, or merge it into the one that holds its key. -/
def upsert (t : Table ρ) (r : ρ) (merge : ρ → ρ) (hf : ∀ old, key (merge old) = key old) :
    Table ρ :=
  (t.insert? r).getD (t.update (key r) merge hf)

/-- Add a row in place of the one that holds its key. -/
def put (t : Table ρ) (r : ρ) : Table ρ where
  rows := t.rows.filter (fun r' => key r' ≠ key r) ++ [r]
  nodup := by
    rw [List.map_append, List.nodup_append]
    refine ⟨t.nodup.sublist (List.filter_sublist.map _), by simp, ?_⟩
    intro k hk k' hk'
    simp only [List.mem_map, List.mem_filter, decide_eq_true_iff] at hk
    obtain ⟨r', ⟨-, hne⟩, hkey⟩ := hk
    have hself : k' = key r := by simpa using hk'
    rw [← hkey, hself]
    exact hne

/-- The table of rows that come one after another. -/
def collect (rows : List ρ) : Table ρ := rows.foldl put ∅

/-- Change the type of the rows; keys do not change. -/
def convert {ρ' : Type} [Keyed ρ'] (t : Table ρ) (f : ρ → ρ') (hf : ∀ r, key (f r) = key r) :
    Table ρ' where
  rows := t.rows.map f
  nodup := by
    have hkeys : (t.rows.map f).map key = t.rows.map key := by
      rw [List.map_map]
      exact List.map_congr_left fun r _ => hf r
    rw [hkeys]
    exact t.nodup

/-! ## Lookup -/

variable {t : Table ρ} {k : String} {r : ρ}

theorem find?_eq_some_iff : t.find? k = some r ↔ r ∈ t.rows ∧ key r = k := by
  constructor
  · intro h
    exact ⟨List.mem_of_find?_eq_some h, by simpa using List.find?_some h⟩
  · rintro ⟨hmem, rfl⟩
    cases hfind : t.find? (key r) with
    | none =>
      have hne : key r ≠ key r := by simpa using List.find?_eq_none.mp hfind r hmem
      exact (hne rfl).elim
    | some r' =>
      have hkey : key r' = key r := by simpa using List.find?_some hfind
      rw [List.inj_on_of_nodup_map t.nodup (List.mem_of_find?_eq_some hfind) hmem hkey]

theorem find?_eq_none_iff : t.find? k = none ↔ ∀ r ∈ t.rows, key r ≠ k := by
  simp [find?]

theorem find?_key (h : r ∈ t.rows) : t.find? (key r) = some r :=
  find?_eq_some_iff.mpr ⟨h, rfl⟩

theorem key_of_find? (h : t.find? k = some r) : key r = k :=
  (find?_eq_some_iff.mp h).2

theorem mem_of_find? (h : t.find? k = some r) : r ∈ t.rows :=
  (find?_eq_some_iff.mp h).1

theorem eq_of_key_eq {r r' : ρ} (hr : r ∈ t.rows) (hr' : r' ∈ t.rows) (h : key r = key r') :
    r = r' :=
  List.inj_on_of_nodup_map t.nodup hr hr' h

/-! ## Rows after an operation -/

@[simp]
theorem rows_filter (t : Table ρ) (p : ρ → Bool) : (t.filter p).rows = t.rows.filter p := rfl

variable {p : ρ → Bool}

theorem mem_filter : r ∈ (t.filter p).rows ↔ r ∈ t.rows ∧ p r = true :=
  List.mem_filter

theorem find?_filter : (t.filter p).find? k = (t.find? k).filter p := by
  cases hfind : t.find? k with
  | none =>
    rw [find?_eq_none_iff] at hfind
    exact find?_eq_none_iff.mpr fun r hr => hfind r (mem_filter.mp hr).1
  | some r =>
    obtain ⟨hmem, hkey⟩ := find?_eq_some_iff.mp hfind
    by_cases hp : p r = true
    · rw [Option.filter_some, if_pos hp]
      exact find?_eq_some_iff.mpr ⟨mem_filter.mpr ⟨hmem, hp⟩, hkey⟩
    · rw [Option.filter_some, if_neg hp]
      refine find?_eq_none_iff.mpr fun r' hr' hkey' => hp ?_
      obtain ⟨hmem', hp'⟩ := mem_filter.mp hr'
      rwa [eq_of_key_eq hmem hmem' (hkey.trans hkey'.symm)]

theorem insert?_eq_some_iff {t t' : Table ρ} :
    t.insert? r = some t' ↔ t.find? (key r) = none ∧ t'.rows = t.rows ++ [r] := by
  have hmem : key r ∈ t.rows.map key ↔ t.find? (key r) ≠ none := by
    rw [ne_eq, find?_eq_none_iff]
    simp
  unfold insert?
  split
  · rename_i htaken
    simp [hmem.mp htaken]
  · rename_i hfree
    have hnone : t.find? (key r) = none := by
      by_contra hsome
      exact hfree (hmem.mpr hsome)
    simp only [hnone, true_and, Option.some.injEq]
    exact ⟨fun h => h ▸ rfl, fun h => ext h.symm⟩

theorem insert?_eq_none_iff : t.insert? r = none ↔ ∃ old, t.find? (key r) = some old := by
  unfold insert?
  split
  · rename_i htaken
    obtain ⟨old, hold, hkey⟩ := List.mem_map.mp htaken
    simpa using ⟨old, find?_eq_some_iff.mpr ⟨hold, hkey⟩⟩
  · rename_i hfree
    simp only [reduceCtorEq, false_iff, not_exists]
    intro old hold
    obtain ⟨hmem, hkey⟩ := find?_eq_some_iff.mp hold
    exact hfree (List.mem_map.mpr ⟨old, hmem, hkey⟩)

theorem find?_insert {t t' : Table ρ} (h : t.insert? r = some t') (k : String) :
    t'.find? k = if key r = k then some r else t.find? k := by
  obtain ⟨hfree, hrows⟩ := insert?_eq_some_iff.mp h
  split
  · rename_i hk
    exact find?_eq_some_iff.mpr ⟨by simp [hrows], hk⟩
  · rename_i hk
    simp [find?, hrows, List.find?_append, hk]

theorem find?_insert_of_some {t t' : Table ρ} {r old : ρ} (h : t.insert? r = some t')
    (hold : t.find? k = some old) : t'.find? k = some old := by
  have hfree := (insert?_eq_some_iff.mp h).1
  rw [find?_insert h, if_neg, hold]
  rintro rfl
  rw [hold] at hfree
  cases hfree

theorem rows_updateWhere (t : Table ρ) (p : ρ → Bool) (f : ρ → ρ)
    (hf : ∀ r, key (f r) = key r) :
    (t.updateWhere p f hf).rows = t.rows.map fun r => if p r then f r else r := rfl

variable {f : ρ → ρ}

variable {hf : ∀ r, key (f r) = key r}

theorem mem_updateWhere {r' : ρ} :
    r' ∈ (t.updateWhere p f hf).rows ↔ ∃ r ∈ t.rows, (if p r then f r else r) = r' := by
  rw [rows_updateWhere, List.mem_map]

theorem mem_update {r' : ρ} :
    r' ∈ (t.update k f hf).rows ↔ ∃ r ∈ t.rows, (if key r = k then f r else r) = r' := by
  simp only [update, mem_updateWhere, decide_eq_true_eq]

theorem find?_updateWhere (t : Table ρ) (p : ρ → Bool) (f : ρ → ρ)
    (hf : ∀ r, key (f r) = key r) (k : String) :
    (t.updateWhere p f hf).find? k = (t.find? k).map fun r => if p r then f r else r := by
  have hkeys : ((fun r => decide (key r = k)) ∘ fun r => if p r then f r else r) =
      fun r => decide (key r = k) := by
    funext r
    simp only [Function.comp_apply, decide_eq_decide]
    split
    · rw [hf]
    · rfl
  rw [find?, rows_updateWhere, List.find?_map, hkeys]
  rfl

theorem find?_update (t : Table ρ) (k : String) (f : ρ → ρ) (hf : ∀ r, key (f r) = key r)
    (k' : String) :
    (t.update k f hf).find? k' = (t.find? k').map fun r => if k' = k then f r else r := by
  rw [update, find?_updateWhere]
  cases hfind : t.find? k' with
  | none => rfl
  | some r => simp [key_of_find? hfind]

theorem updateWhere_of_none (h : ∀ r ∈ t.rows, p r = false) : t.updateWhere p f hf = t := by
  refine ext ?_
  calc (t.updateWhere p f hf).rows
      = t.rows.map fun r => r := List.map_congr_left fun r hr => by simp [h r hr]
    _ = t.rows := List.map_id' _

theorem update_of_absent (h : t.find? k = none) : t.update k f hf = t :=
  updateWhere_of_none fun r hr => by simpa using find?_eq_none_iff.mp h r hr

/-- The row under a key and the rest, and what an update or a deletion of that
key makes of them. -/
theorem rows_perm_of_find? (h : t.find? k = some r) :
    ∃ rest, t.rows.Perm (r :: rest) ∧
      (∀ f hf, (t.update k f hf).rows.Perm (f r :: rest)) ∧
      (t.filter fun row => key row ≠ k).rows.Perm rest := by
  obtain ⟨hmem, hkey⟩ := find?_eq_some_iff.mp h
  obtain ⟨before, after, hsplit⟩ := List.append_of_mem hmem
  have hother : ∀ row ∈ before ++ after, key row ≠ k := by
    have hnodup := t.nodup
    rw [hsplit, List.map_append, List.map_cons, List.nodup_middle, List.nodup_cons] at hnodup
    intro row hrow hrowkey
    refine hnodup.1 ?_
    rw [← List.map_append]
    exact List.mem_map.mpr ⟨row, hrow, hrowkey.trans hkey.symm⟩
  have hbefore : ∀ row ∈ before, key row ≠ k := fun row hrow => hother row (by simp [hrow])
  have hafter : ∀ row ∈ after, key row ≠ k := fun row hrow => hother row (by simp [hrow])
  refine ⟨before ++ after, by rw [hsplit]; exact List.perm_middle, fun f hf => ?_, ?_⟩
  · have hmap : ∀ l : List ρ, (∀ row ∈ l, key row ≠ k) →
        (l.map fun row => if key row = k then f row else row) = l := by
      intro l hl
      calc (l.map fun row => if key row = k then f row else row)
          = l.map id := List.map_congr_left fun row hrow => by simp [hl row hrow]
        _ = l := List.map_id l
    have hrows : (t.update k f hf).rows = before ++ f r :: after := by
      simp only [update, rows_updateWhere, decide_eq_true_eq, hsplit, List.map_append,
        List.map_cons, hkey, if_true, hmap before hbefore, hmap after hafter]
    rw [hrows]
    exact List.perm_middle
  · have hkeep : ∀ l : List ρ, (∀ row ∈ l, key row ≠ k) →
        (l.filter fun row => key row ≠ k) = l := fun l hl =>
      List.filter_eq_self.mpr fun row hrow => by simp [hl row hrow]
    rw [rows_filter, hsplit, List.filter_append, List.filter_cons_of_neg (by simp [hkey]),
      hkeep before hbefore, hkeep after hafter]

/-- At most one row has a key. -/
theorem rows_filter_key (t : Table ρ) (k : String) :
    (t.rows.filter fun r => key r = k) = (t.find? k).toList := by
  cases hfind : t.find? k with
  | none =>
    rw [List.filter_eq_nil_iff.mpr fun r hr => by simpa using find?_eq_none_iff.mp hfind r hr]
    rfl
  | some r =>
    obtain ⟨hmem, hkey⟩ := find?_eq_some_iff.mp hfind
    have hnodup : (t.rows.filter fun r => key r = k).Nodup :=
      (List.Nodup.of_map key t.nodup).filter _
    apply List.perm_singleton.mp
    rw [List.perm_ext_iff_of_nodup hnodup (List.nodup_singleton r)]
    intro row
    rw [List.mem_filter, List.mem_singleton, decide_eq_true_eq]
    constructor
    · rintro ⟨hrow, hrowkey⟩
      exact eq_of_key_eq hrow hmem (hrowkey.trans hkey.symm)
    · rintro rfl
      exact ⟨hmem, hkey⟩

theorem upsert_eq_insert {t t' : Table ρ} {merge : ρ → ρ} {hf : ∀ old, key (merge old) = key old}
    (h : t.insert? r = some t') : t.upsert r merge hf = t' := by
  rw [upsert, h, Option.getD_some]

theorem upsert_eq_update {r old : ρ} {merge : ρ → ρ} {hf : ∀ old, key (merge old) = key old}
    (h : t.find? (key r) = some old) : t.upsert r merge hf = t.update (key r) merge hf := by
  rw [upsert, insert?_eq_none_iff.mpr ⟨old, h⟩, Option.getD_none]

theorem exists_insert? (h : t.find? (key r) = none) : ∃ t', t.insert? r = some t' := by
  cases hins : t.insert? r with
  | none =>
    obtain ⟨old, hold⟩ := insert?_eq_none_iff.mp hins
    rw [h] at hold
    cases hold
  | some t' => exact ⟨t', rfl⟩

/-- Two updates of one row that undo each other. -/
theorem update_update_of_inverse {f g : ρ → ρ} {hf : ∀ r, key (f r) = key r}
    {hg : ∀ r, key (g r) = key r} (hinverse : ∀ r, g (f r) = r) :
    (t.update k f hf).update k g hg = t := by
  apply ext
  simp only [update, rows_updateWhere, List.map_map]
  conv_rhs => rw [← List.map_id t.rows]
  apply List.map_congr_left
  intro r _
  by_cases h : key r = k
  · simp [h, hf, hinverse]
  · simp [h]

/-- An update that leaves the row under its key as it is changes nothing. -/
theorem update_of_fixed (h : t.find? k = some r) (hfixed : f r = r) : t.update k f hf = t := by
  apply ext
  simp only [update, rows_updateWhere]
  conv_rhs => rw [← List.map_id t.rows]
  apply List.map_congr_left
  intro r' hr'
  by_cases hkey : key r' = k
  · have hsame : r' = r :=
      eq_of_key_eq hr' (mem_of_find? h) (hkey.trans (key_of_find? h).symm)
    simp [hsame, hfixed]
  · simp [hkey]

/-- Taking out what was inserted. -/
theorem filter_insert {t t' : Table ρ} (h : t.insert? r = some t') :
    (t'.filter fun r' => key r' ≠ key r) = t := by
  obtain ⟨habsent, hrows⟩ := insert?_eq_some_iff.mp h
  apply ext
  rw [rows_filter, hrows, List.filter_append]
  have hkept : t.rows.filter (fun r' => key r' ≠ key r) = t.rows := by
    apply List.filter_eq_self.mpr
    intro r' hr'
    simpa using find?_eq_none_iff.mp habsent r' hr'
  rw [hkept]
  simp

/-- The rows before and after an upsert differ in the row under its key only. -/
theorem rows_perm_upsert (t : Table ρ) (r : ρ) (merge : ρ → ρ)
    (hf : ∀ old, key (merge old) = key old) :
    ∃ rest, t.rows.Perm ((t.find? (key r)).toList ++ rest) ∧
      (t.upsert r merge hf).rows.Perm ((t.find? (key r)).elim r merge :: rest) := by
  cases hold : t.find? (key r) with
  | none =>
    obtain ⟨t', ht'⟩ := exists_insert? hold
    refine ⟨t.rows, List.Perm.refl _, ?_⟩
    rw [upsert_eq_insert ht', (insert?_eq_some_iff.mp ht').2]
    exact List.perm_append_singleton r t.rows
  | some old =>
    obtain ⟨rest, hrows, hupdate, -⟩ := rows_perm_of_find? hold
    refine ⟨rest, hrows, ?_⟩
    rw [upsert_eq_update hold]
    exact hupdate merge hf

/-- After an upsert the row under its key is the new one or the merged one, and
every other key has the row it had. -/
theorem find?_upsert (t : Table ρ) (r : ρ) (merge : ρ → ρ)
    (hf : ∀ old, key (merge old) = key old) (k : String) :
    (t.upsert r merge hf).find? k =
      if key r = k then some ((t.find? k).elim r merge) else t.find? k := by
  cases hold : t.find? (key r) with
  | none =>
    obtain ⟨t', ht'⟩ := exists_insert? hold
    rw [upsert_eq_insert ht', find?_insert ht']
    split
    · rename_i hk
      rw [← hk, hold]
      rfl
    · rfl
  | some old =>
    rw [upsert_eq_update hold, find?_update]
    split
    · rename_i hk
      subst hk
      simp [hold]
    · rename_i hk
      cases t.find? k <;> simp [Ne.symm hk]

theorem isSome_upsert (h : (t.find? k).isSome = true) (r : ρ) (merge : ρ → ρ)
    (hf : ∀ old, key (merge old) = key old) : ((t.upsert r merge hf).find? k).isSome = true := by
  rw [find?_upsert]
  split
  · rfl
  · exact h

theorem isSome_update (h : (t.find? k).isSome = true) (k' : String) (f : ρ → ρ)
    (hf : ∀ r, key (f r) = key r) : ((t.update k' f hf).find? k).isSome = true := by
  rw [find?_update, Option.isSome_map]
  exact h

/-! ## Rows put in place -/

theorem mem_put {r r' : ρ} (h : r' ∈ (t.put r).rows) : r' = r ∨ r' ∈ t.rows := by
  rcases List.mem_append.mp h with hold | hnew
  · exact Or.inr (List.mem_filter.mp hold).1
  · exact Or.inl (List.mem_singleton.mp hnew)

theorem length_put_le (t : Table ρ) (r : ρ) : (t.put r).rows.length ≤ t.rows.length + 1 := by
  have hkept := List.length_filter_le (fun r' => decide (key r' ≠ key r)) t.rows
  simp only [put, List.length_append, List.length_singleton]
  omega

theorem find?_put (t : Table ρ) (r : ρ) (k : String) :
    (t.put r).find? k = if key r = k then some r else t.find? k := by
  by_cases hk : key r = k
  · rw [if_pos hk, find?_eq_some_iff]
    exact ⟨by simp [put], hk⟩
  · rw [if_neg hk]
    cases hold : t.find? k with
    | none =>
      rw [find?_eq_none_iff]
      intro r' hr'
      rcases mem_put hr' with hnew | hmem
      · rw [hnew]
        exact hk
      · exact find?_eq_none_iff.mp hold r' hmem
    | some old =>
      have ⟨hmem, hkey⟩ := find?_eq_some_iff.mp hold
      have hne : key old ≠ key r := by
        rw [hkey]
        exact Ne.symm hk
      rw [find?_eq_some_iff]
      exact ⟨by simp [put, hmem, hne], hkey⟩

theorem rows_put_of_absent (h : t.find? (key r) = none) : (t.put r).rows = t.rows ++ [r] := by
  have hall : t.rows.filter (fun r' => decide (key r' ≠ key r)) = t.rows := by
    rw [List.filter_eq_self]
    intro r' hr'
    exact decide_eq_true (find?_eq_none_iff.mp h r' hr')
  show t.rows.filter (fun r' => decide (key r' ≠ key r)) ++ [r] = t.rows ++ [r]
  rw [hall]

theorem mem_collect {rows : List ρ} (h : r ∈ (collect rows).rows) : r ∈ rows := by
  have hfold : ∀ (rest : List ρ) (acc : Table ρ), r ∈ (rest.foldl put acc).rows →
      r ∈ acc.rows ∨ r ∈ rest := by
    intro rest
    induction rest with
    | nil => exact fun _ hr => Or.inl hr
    | cons r' rest ih =>
      intro acc hr
      rcases ih (acc.put r') hr with hput | hrest
      · rcases mem_put hput with heq | hacc
        · rw [heq]
          exact Or.inr List.mem_cons_self
        · exact Or.inl hacc
      · exact Or.inr (List.mem_cons_of_mem r' hrest)
  rcases hfold rows ∅ h with hempty | hrows
  · cases hempty
  · exact hrows

/-- The rows of a table come back when they are collected. -/
theorem collect_rows (t : Table ρ) : collect t.rows = t := by
  have hfold : ∀ (rest : List ρ) (acc : Table ρ), ((acc.rows ++ rest).map key).Nodup →
      (rest.foldl put acc).rows = acc.rows ++ rest := by
    intro rest
    induction rest with
    | nil =>
      intro acc _
      simp
    | cons r rest ih =>
      intro acc hnodup
      have habsent : acc.find? (key r) = none := by
        rw [find?_eq_none_iff]
        intro r' hr' hsame
        rw [List.map_append, List.nodup_append] at hnodup
        exact hnodup.2.2 (key r') (List.mem_map_of_mem hr') (key r) (by simp) hsame
      have hrows := rows_put_of_absent habsent
      have hmoved : (acc.put r).rows ++ rest = acc.rows ++ r :: rest := by
        rw [hrows, List.append_assoc]
        rfl
      rw [List.foldl_cons, ih (acc.put r) (by rw [hmoved]; exact hnodup), hmoved]
  apply ext
  rw [collect, hfold t.rows ∅ (by simpa using t.nodup)]
  rfl

end Table

end ApiVoy.Foundation
