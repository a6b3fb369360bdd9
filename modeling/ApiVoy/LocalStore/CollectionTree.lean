/-
# The collections form a forest

In every state of every run the parent links of the collections form a forest
inside the table. The ancestor walk of an update needs this to end, and its
outcome is what keeps it: a collection is moved only below a node whose
ancestors the walk has seen to the root without meeting the collection. With it
the recursive subtree queries end as well, and list every descendant once.
-/

import ApiVoy.LocalStore.Frames

namespace ApiVoy.LocalStore

open Foundation Domain

def parentLink (t : Table CollectionRow) (id : String) : Option String :=
  (t.find? id).bind CollectionRow.parentId

/-- The parent links form a forest and stay inside the table. -/
structure CollectionTree (schema : Schema) (t : Table CollectionRow) : Prop where
  current : schema = Schema.current
  forest : Forest (parentLink t)
  inside : ∀ a p, parentLink t a = some p → (t.find? p).isSome = true

def Store.HasTree (s : Store) : Prop := CollectionTree s.schema s.collections

namespace CollectionTree

variable {schema : Schema} {t t' : Table CollectionRow} {a b id : String}

/-- The tree only depends on the links and on which collections there are. -/
theorem of_same_links (h : CollectionTree schema t)
    (hlinks : ∀ a, parentLink t' a = parentLink t a)
    (hrows : ∀ a, (t'.find? a).isSome = (t.find? a).isSome) : CollectionTree schema t' where
  current := h.current
  forest := by
    have hsame : parentLink t' = parentLink t := funext hlinks
    rw [hsame]
    exact h.forest
  inside a p hp := by
    rw [hrows]
    exact h.inside a p ((hlinks a).symm.trans hp)

/-- Changing other columns than the parent keeps the tree. -/
theorem updateWhere (h : CollectionTree schema t) (p : CollectionRow → Bool)
    (f : CollectionRow → CollectionRow) (hkey : ∀ c, (f c).id = c.id)
    (hparent : ∀ c, (f c).parentId = c.parentId) :
    CollectionTree schema (t.updateWhere p f hkey) := by
  refine h.of_same_links (fun a => ?_) fun a => ?_
  · rw [parentLink, parentLink, Table.find?_updateWhere]
    cases t.find? a with
    | none => rfl
    | some c =>
      simp only [Option.map_some, Option.bind_some]
      split
      · exact hparent c
      · rfl
  · rw [Table.find?_updateWhere, Option.isSome_map]

theorem mem_ids_iff : a ∈ t.rows.map CollectionRow.id ↔ (t.find? a).isSome = true := by
  rw [Option.isSome_iff_exists]
  constructor
  · intro h
    obtain ⟨c, hc, rfl⟩ := List.mem_map.mp h
    exact ⟨c, Table.find?_key hc⟩
  · rintro ⟨c, hc⟩
    obtain ⟨hmem, hkey⟩ := Table.find?_eq_some_iff.mp hc
    exact List.mem_map.mpr ⟨c, hmem, hkey⟩

theorem isSome_of_link (h : parentLink t a = some b) : (t.find? a).isSome = true := by
  obtain ⟨c, hc, -⟩ := Option.bind_eq_some_iff.mp h
  simp [hc]

/-- Everything above a collection of the table is in the table. -/
theorem isSome_of_ascends (h : CollectionTree schema t) (ha : (t.find? a).isSome = true)
    (hab : Ascends (parentLink t) a b) : (t.find? b).isSome = true := by
  induction hab with
  | refl => exact ha
  | tail _ hstep _ => exact h.inside _ _ hstep

theorem eq_of_ascends_of_absent (ha : t.find? a = none) (hab : Ascends (parentLink t) a b) :
    a = b := by
  rcases hab.eq_or_parent with heq | ⟨c, hc, -⟩
  · exact heq
  · rw [parentLink, ha] at hc
    cases hc

/-! ## Statements -/

/-- A new collection below another one. -/
theorem insert (h : CollectionTree schema t) {row : CollectionRow}
    (hinsert : t.insert? row = some t') (hself : row.parentId ≠ some row.id)
    (hparent : ∀ p, row.parentId = some p → (t'.find? p).isSome = true) :
    CollectionTree schema t' := by
  have hfree := (Table.insert?_eq_some_iff.mp hinsert).1
  have hlink : parentLink t' = Function.update (parentLink t) row.id row.parentId := by
    funext a
    rw [parentLink, Table.find?_insert hinsert]
    by_cases hrow : row.id = a
    · subst a
      simp [Keyed.key]
    · rw [Function.update_of_ne (Ne.symm hrow), parentLink]
      simp [Keyed.key, hrow]
  refine ⟨h.current, ?_, fun a p hp => ?_⟩
  · rw [hlink]
    refine h.forest.update fun p hp hascends => hself ?_
    -- Nothing in the old table leads to the new collection.
    rcases Relation.ReflTransGen.cases_tail hascends with heq | ⟨b, -, hb⟩
    · rw [hp, heq]
    · have habsent := h.inside b _ hb
      rw [show t.find? row.id = none from hfree] at habsent
      cases habsent
  · rw [hlink] at hp
    by_cases ha : a = row.id
    · subst a
      exact hparent p (by simpa using hp)
    · rw [Function.update_of_ne ha] at hp
      have hsome := h.inside a p hp
      rw [Table.find?_insert hinsert]
      split
      · rfl
      · exact hsome

/-- A collection moves below one that is not below it. -/
theorem move (h : CollectionTree schema t) {f : CollectionRow → CollectionRow}
    (hkey : ∀ c, (f c).id = c.id) {parentId : Option String}
    (hset : ∀ c, (f c).parentId = parentId)
    (hparent : ∀ p, parentId = some p → (t.find? p).isSome = true)
    (hsafe : ∀ p, parentId = some p → ¬ Ascends (parentLink t) p id) :
    CollectionTree schema (t.update id f hkey) := by
  cases hfind : t.find? id with
  | none =>
    rw [Table.update_of_absent hfind]
    exact h
  | some c =>
    have hlink : parentLink (t.update id f hkey) =
        Function.update (parentLink t) id parentId := by
      funext a
      rw [parentLink, Table.find?_update]
      by_cases ha : a = id
      · subst a
        simp [hfind, hset]
      · rw [Function.update_of_ne ha, parentLink]
        simp [ha]
    refine ⟨h.current, ?_, fun a p hp => ?_⟩
    · rw [hlink]
      exact h.forest.update hsafe
    · rw [Table.find?_update, Option.isSome_map]
      rw [hlink] at hp
      by_cases ha : a = id
      · subst a
        exact hparent p (by simpa using hp)
      · rw [Function.update_of_ne ha] at hp
        exact h.inside a p hp

end CollectionTree

/-! ## Cascades -/

namespace Store.HasTree

variable {s s' : Store} {doomed : CollectionRow → Bool} {id a : String}

/-- A deletion takes a collection along exactly when it or something above it is
doomed. -/
theorem falls_iff (h : s.HasTree) :
    s.falls doomed a = true ↔
      ∃ b c, Ascends s.parentOf a b ∧ s.collections.find? b = some c ∧ doomed c = true := by
  have hcurrent : s.schema.collectionParent = true := by rw [h.current]; rfl
  have hany (b : String) : (s.collections.find? b).any doomed = true ↔
      ∃ c, s.collections.find? b = some c ∧ doomed c = true := Option.any_eq_true _ _
  have hexists : (∃ b c, Ascends s.parentOf a b ∧ s.collections.find? b = some c ∧
      doomed c = true) ↔
      ∃ b, Ascends s.parentOf a b ∧ (s.collections.find? b).any doomed = true := by
    simp only [hany, exists_and_left]
  rw [hexists, falls, if_pos hcurrent]
  cases ha : s.collections.find? a with
  | none =>
    constructor
    · exact climbs_sound
    · rintro ⟨b, hab, hb⟩
      obtain rfl := CollectionTree.eq_of_ascends_of_absent ha hab
      simp [ha] at hb
  | some c =>
    have hlength : s.collections.rows.length =
        (s.collections.rows.map CollectionRow.id).length := by simp
    rw [hlength]
    refine climbs_iff h.forest (fun x _ y hy => ?_) ?_
    · exact CollectionTree.mem_ids_iff.mpr (h.inside x y hy)
    · exact CollectionTree.mem_ids_iff.mpr (by simp [ha])

theorem falls_of_parent (h : s.HasTree) {p : String} (hparent : s.parentOf a = some p)
    (hp : s.falls doomed p = true) : s.falls doomed a = true := by
  obtain ⟨b, c, hpb, hc, hdoomed⟩ := h.falls_iff.mp hp
  exact h.falls_iff.mpr ⟨b, c, Ascends.head hparent hpb, hc, hdoomed⟩

theorem falls_of_doomed (h : s.HasTree) {c : CollectionRow}
    (hc : s.collections.find? a = some c) (hdoomed : doomed c = true) :
    s.falls doomed a = true :=
  h.falls_iff.mpr ⟨a, c, Ascends.refl a, hc, hdoomed⟩

/-- A deletion leaves a tree: what a remaining collection names as its parent
remains. -/
theorem dropCollections (h : s.HasTree) : (Sql.dropCollections doomed s).HasTree := by
  have hfind (a : String) : (Sql.dropCollections doomed s).collections.find? a =
      (s.collections.find? a).filter fun c => !s.falls doomed c.id := Table.find?_filter
  have hlink (a : String) : parentLink (Sql.dropCollections doomed s).collections a = none ∨
      parentLink (Sql.dropCollections doomed s).collections a = parentLink s.collections a := by
    rw [parentLink, hfind]
    cases hc : s.collections.find? a with
    | none => exact Or.inl rfl
    | some c =>
      rw [Option.filter_some]
      split
      · exact Or.inr (by rw [parentLink, hc])
      · exact Or.inl rfl
  refine ⟨h.current, h.forest.of_sublinks hlink, fun a p hp => ?_⟩
  have hsome := CollectionTree.isSome_of_link hp
  have hold : parentLink s.collections a = some p := by
    rcases hlink a with hnone | heq
    · rw [hnone] at hp; cases hp
    · rw [← heq]; exact hp
  obtain ⟨parent, hparent⟩ := Option.isSome_iff_exists.mp (h.inside a p hold)
  obtain ⟨c, hc⟩ := Option.isSome_iff_exists.mp hsome
  rw [hfind, Option.filter_eq_some_iff] at hc
  rw [hfind, hparent, Option.filter_some, if_pos, Option.isSome_some]
  have hckey : c.id = a := Table.key_of_find? hc.1
  have hpkey : parent.id = p := Table.key_of_find? hparent
  have hstays : s.falls doomed a = false := by simpa [hckey] using hc.2
  rw [hpkey, Bool.not_eq_true']
  by_contra hfalls
  rw [h.falls_of_parent hold (by simpa using hfalls)] at hstays
  cases hstays

theorem dropProject (h : s.HasTree) : (Sql.dropProject id s).HasTree :=
  h.dropCollections

/-! ## Subtrees -/

theorem childrenOf_iff (p c : String) : c ∈ s.childrenOf p ↔ s.parentOf c = some p := by
  simp only [childrenOf, List.mem_map, List.mem_filter, decide_eq_true_eq, parentOf,
    Option.bind_eq_some_iff]
  constructor
  · rintro ⟨row, ⟨hmem, hparent⟩, rfl⟩
    exact ⟨row, Table.find?_key hmem, hparent⟩
  · rintro ⟨row, hfind, hparent⟩
    obtain ⟨hmem, hkey⟩ := Table.find?_eq_some_iff.mp hfind
    exact ⟨row, ⟨hmem, hparent⟩, hkey⟩

theorem nodup_childrenOf (p : String) : (s.childrenOf p).Nodup :=
  s.collections.nodup.sublist ((List.filter_sublist).map _)

/-- The subtree query ends; it lists the collection and everything below it,
each once. -/
theorem subtree_eq_some (h : s.HasTree) (id : String) :
    ∃ ids, s.subtree id = some ids ∧ ids.Nodup ∧
      ∀ b, b ∈ ids ↔ (s.collections.find? b).isSome = true ∧ Ascends s.parentOf b id := by
  cases hid : s.collections.find? id with
  | none =>
    refine ⟨[], by simp [subtree, hid, sweep], List.nodup_nil, fun b => ?_⟩
    simp only [List.not_mem_nil, false_iff, not_and]
    intro hb hascends
    have hsome := h.isSome_of_ascends hb hascends
    simp [hid] at hsome
  | some c =>
    have hinside (b : String) (hb : Ascends s.parentOf b id) :
        (s.collections.find? b).isSome = true := by
      rcases hb.eq_or_parent with rfl | ⟨p, hp, -⟩
      · simp [hid]
      · exact CollectionTree.isSome_of_link hp
    have hnodes (b : String) (hb : Ascends s.parentOf b id) :
        b ∈ s.collections.rows.map CollectionRow.id :=
      CollectionTree.mem_ids_iff.mpr (hinside b hb)
    have hfuel : (s.collections.rows.map CollectionRow.id).length ≤
        s.collections.rows.length := by simp
    obtain ⟨ids, hsweep, hnodup, hids⟩ :=
      h.forest.sweep_spec childrenOf_iff nodup_childrenOf hnodes hfuel
    refine ⟨ids, by simpa [subtree, hid] using hsweep, hnodup, fun b => ?_⟩
    rw [hids b]
    exact ⟨fun hb => ⟨hinside b hb, hb⟩, fun hb => hb.2⟩

end Store.HasTree

end ApiVoy.LocalStore
