/-
# Who owns what in the workspace tree

Requests, collections and modules carry the project they belong to redundantly.
The columns agree in every run in which a request is saved into a collection of
the project it is saved for. Moving a request checks this; saving one does not,
and a save that names a collection of another project breaks the agreement.
-/

import ApiVoy.LocalStore.CollectionForest

namespace ApiVoy.LocalStore

open Foundation Domain

variable {s s' : Store} {id projectId : String}

/-- The redundant project and module columns of the tables agree. -/
structure OwnedTables (modules : Table ModuleRow) (collections : Table CollectionRow)
    (requests : Table RequestRow) : Prop where
  /-- A request belongs to the project of its collection. -/
  request : ∀ r ∈ requests.rows, ∃ c, collections.find? r.collectionId = some c ∧
    c.projectId = r.projectId
  /-- A collection belongs to the project of its module. -/
  inModule : ∀ c ∈ collections.rows, ∀ m, c.moduleId = some m → ∃ row, modules.find? m = some row ∧
    row.projectId = c.projectId
  /-- A collection belongs to the project and the module of its parent. -/
  parent : ∀ c ∈ collections.rows, ∀ p, c.parentId = some p → ∃ row,
    collections.find? p = some row ∧ row.projectId = c.projectId ∧ row.moduleId = c.moduleId

def Store.Owned (s : Store) : Prop := OwnedTables s.modules s.collections s.requests

/-- What ownership depends on, beside the tree. -/
def ownerView (s : Store) : Table ModuleRow × Table CollectionRow × Table RequestRow :=
  (s.modules, s.collections, s.requests)

theorem ownerView_blobBlind : BlobBlind ownerView := ⟨fun _ _ => rfl, fun _ _ => rfl⟩

theorem ownerView_leafBlind : LeafBlind ownerView :=
  ⟨fun _ _ => rfl, fun _ _ => rfl, fun _ _ => rfl, fun _ _ => rfl, fun _ _ => rfl⟩

/-- The tree and the ownership together: each deletion needs the tree to keep the
ownership. -/
def Store.WellOwned (s : Store) : Prop := s.HasTree ∧ s.Owned

variable {α : Type}

theorem Frames.keeps_owned {m : StoreM α} (ht : Frames treeView m) (ho : Frames ownerView m) :
    Keeps Store.WellOwned m := by
  intro w hw
  exact ⟨ht.keeps_tree w hw.1, (ho.keeps fun shown => OwnedTables shown.1 shown.2.1 shown.2.2) w hw.2⟩

/-! ## Statements -/

namespace Store.Owned

theorem insertModule (h : s.Owned) {t : Table ModuleRow} {row : ModuleRow}
    (ht : s.modules.insert? row = some t) : Store.Owned { s with modules := t } where
  request := h.request
  inModule c hc m hm := by
    obtain ⟨found, hfound, hproject⟩ := h.inModule c hc m hm
    exact ⟨found, Table.find?_insert_of_some ht hfound, hproject⟩
  parent := h.parent

variable {n : Nat}

/-- A request is written into a collection of its project. -/
theorem upsertRequest (h : s.Owned) {row : RequestRow}
    (hrow : ∀ c, s.collections.find? row.collectionId = some c → c.projectId = row.projectId)
    (hupsert : Sql.upsertRequest row s = some (s', n)) : s'.Owned := by
  obtain ⟨-, hcollection, rfl⟩ := Sql.upsertRequest_eq_some hupsert
  obtain ⟨c, hc⟩ := Option.isSome_iff_exists.mp hcollection
  refine ⟨?_, h.inModule, h.parent⟩
  intro r hr
  have hfind := Table.find?_key hr
  rw [Table.find?_upsert] at hfind
  split at hfind
  · -- The written row has the columns of `row`, whether it is new or merged.
    have hcolumns : r.collectionId = row.collectionId ∧ r.projectId = row.projectId := by
      cases hold : s.requests.find? (Keyed.key r) <;> simp [hold] at hfind <;> simp [← hfind]
    rw [hcolumns.1, hcolumns.2]
    exact ⟨c, hc, hrow c hc⟩
  · exact h.request r (Table.mem_of_find? hfind)

theorem moveRequest (h : s.Owned) {collectionId : String} {updatedAt : Timestamp}
    (hcollection : ∃ c, s.collections.find? collectionId = some c ∧ c.projectId = projectId)
    (hmove : Sql.moveRequest id projectId collectionId updatedAt s = some (s', n)) : s'.Owned := by
  obtain ⟨-, rfl, -⟩ := Sql.moveRequest_eq_some hmove
  refine ⟨?_, h.inModule, h.parent⟩
  intro r hr
  simp only [Table.mem_update] at hr
  obtain ⟨old, hold, heq⟩ := hr
  split at heq
  · subst heq
    exact hcollection
  · subst heq
    exact h.request old hold

theorem dropRequests (h : s.Owned) (gone : RequestRow → Bool) :
    (Sql.dropRequests gone s).Owned where
  request r hr := h.request r (Table.mem_filter.mp hr).1
  inModule := h.inModule
  parent := h.parent

/-- What stays after a deletion of collections has its parent and its requests'
collections still. -/
theorem dropCollections (h : s.Owned) (htree : s.HasTree) (doomed : CollectionRow → Bool) :
    (Sql.dropCollections doomed s).Owned := by
  have hstay {c : CollectionRow} {k : String} (hc : s.collections.find? k = some c)
      (hfalls : s.falls doomed k = false) :
      (Sql.dropCollections doomed s).collections.find? k = some c := by
    have hkey : c.id = k := Table.key_of_find? hc
    exact Table.find?_filter.trans (by simp [hc, hkey, hfalls])
  refine ⟨?_, ?_, ?_⟩
  · intro r hr
    obtain ⟨hmem, hkept⟩ := Table.mem_filter.mp hr
    obtain ⟨c, hc, hproject⟩ := h.request r hmem
    exact ⟨c, hstay hc (by simpa using hkept), hproject⟩
  · intro c hc m hm
    exact h.inModule c (Table.mem_filter.mp hc).1 m hm
  · intro c hc p hp
    obtain ⟨hmem, hkept⟩ := Table.mem_filter.mp hc
    obtain ⟨row, hrow, hproject, hmodule⟩ := h.parent c hmem p hp
    refine ⟨row, hstay hrow ?_, hproject, hmodule⟩
    have hlink : s.parentOf c.id = some p := by
      have hfind : s.collections.find? c.id = some c := Table.find?_key hmem
      rw [Store.parentOf, hfind, Option.bind_some, hp]
    by_contra hfalls
    have htakes := htree.falls_of_parent hlink (by simpa using hfalls)
    simp [htakes] at hkept

/-- A collection that outlives a project is in another one, and so is its
module. -/
theorem dropProject (h : s.Owned) (htree : s.HasTree) : (Sql.dropProject id s).Owned := by
  have hrest := (h.dropCollections htree fun c => c.projectId = id).dropRequests
    fun r => r.projectId = id
  refine ⟨hrest.request, ?_, hrest.parent⟩
  intro c hc m hm
  obtain ⟨row, hrow, hproject⟩ := hrest.inModule c hc m hm
  refine ⟨row, Table.find?_filter.trans ?_, hproject⟩
  obtain ⟨hmem, hkept⟩ := Table.mem_filter.mp hc
  have hother : c.projectId ≠ id := by
    intro hdoomed
    have hfalls : s.falls (fun c => decide (c.projectId = id)) c.id = true :=
      htree.falls_of_doomed (Table.find?_key hmem) (by simpa using hdoomed)
    simp [hfalls] at hkept
  have hmodule : s.modules.find? m = some row := hrow
  show (s.modules.find? m).filter (fun found => !decide (found.projectId = id)) = some row
  simp [hmodule, hproject, hother]

/-- A new collection stands in a module of its project, and with its parent. -/
theorem insertCollection (h : s.Owned) {row : CollectionRow} {n : Nat}
    (hmodule : ∀ m, row.moduleId = some m → ∃ found, s.modules.find? m = some found ∧
      found.projectId = row.projectId)
    (hparent : ∀ p, row.parentId = some p → ∃ found, s.collections.find? p = some found ∧
      found.projectId = row.projectId ∧ found.moduleId = row.moduleId)
    (hinsert : Sql.insertCollection row s = some (s', n)) : s'.Owned := by
  obtain ⟨t, ht, rfl, -, -⟩ := Sql.insertCollection_eq_some hinsert
  have hrows (c : CollectionRow) (hc : c ∈ t.rows) : c ∈ s.collections.rows ∨ c = row := by
    rw [(Table.insert?_eq_some_iff.mp ht).2] at hc
    simpa using hc
  refine ⟨?_, ?_, ?_⟩
  · intro r hr
    obtain ⟨c, hc, hproject⟩ := h.request r hr
    exact ⟨c, Table.find?_insert_of_some ht hc, hproject⟩
  · intro c hc m hm
    rcases hrows c hc with hold | rfl
    · exact h.inModule c hold m hm
    · exact hmodule m hm
  · intro c hc p hp
    have hfound : ∃ found, s.collections.find? p = some found ∧
        found.projectId = c.projectId ∧ found.moduleId = c.moduleId := by
      rcases hrows c hc with hold | rfl
      · exact h.parent c hold p hp
      · exact hparent p hp
    obtain ⟨found, hfind, hcolumns⟩ := hfound
    exact ⟨found, Table.find?_insert_of_some ht hfind, hcolumns⟩

/-- Columns that ownership does not speak of may change. -/
theorem updateWhere (h : s.Owned) (p : CollectionRow → Bool) {f : CollectionRow → CollectionRow}
    {hkey : ∀ c, (f c).id = c.id} (hproject : ∀ c, (f c).projectId = c.projectId)
    (hmodule : ∀ c, (f c).moduleId = c.moduleId) (hparent : ∀ c, (f c).parentId = c.parentId) :
    Store.Owned { s with collections := s.collections.updateWhere p f hkey } := by
  have hfind {k : String} {c : CollectionRow} (hc : s.collections.find? k = some c) :
      ∃ c', (s.collections.updateWhere p f hkey).find? k = some c' ∧
        c'.projectId = c.projectId ∧ c'.moduleId = c.moduleId := by
    refine ⟨if p c then f c else c, ?_, ?_⟩
    · rw [Table.find?_updateWhere, hc, Option.map_some]
    · split
      · exact ⟨hproject c, hmodule c⟩
      · exact ⟨rfl, rfl⟩
  have hrows {c' : CollectionRow} (hc' : c' ∈ (s.collections.updateWhere p f hkey).rows) :
      ∃ c ∈ s.collections.rows, c'.projectId = c.projectId ∧ c'.moduleId = c.moduleId ∧
        c'.parentId = c.parentId := by
    obtain ⟨c, hc, rfl⟩ := Table.mem_updateWhere.mp hc'
    refine ⟨c, hc, ?_⟩
    split
    · exact ⟨hproject c, hmodule c, hparent c⟩
    · exact ⟨rfl, rfl, rfl⟩
  refine ⟨?_, ?_, ?_⟩
  · intro r hr
    obtain ⟨c, hc, hcolumn⟩ := h.request r hr
    obtain ⟨c', hc', hsame, -⟩ := hfind hc
    exact ⟨c', hc', hsame.trans hcolumn⟩
  · intro c' hc' m hm
    obtain ⟨c, hc, hcproject, hcmodule, -⟩ := hrows hc'
    rw [hcproject]
    exact h.inModule c hc m (hcmodule ▸ hm)
  · intro c' hc' k hk
    obtain ⟨c, hc, hcproject, hcmodule, hcparent⟩ := hrows hc'
    obtain ⟨row, hrow, hrowproject, hrowmodule⟩ := h.parent c hc k (hcparent ▸ hk)
    obtain ⟨row', hrow', hproject', hmodule'⟩ := hfind hrow
    exact ⟨row', hrow', hproject'.trans (hrowproject.trans hcproject.symm),
      hmodule'.trans (hrowmodule.trans hcmodule.symm)⟩

end Store.Owned

/-! ## Moving a collection

An update sets the parent of one collection and, when the new parent stands in
another module, the module of everything below it. Between the two statements
the collection disagrees with its parent. -/

section Move

variable {name : String} {parentId : Option String} {sortOrder : Int} {n : Nat} {moved : Store}
  {source : CollectionRow}

variable {c : CollectionRow}

/-- A row after the first statement: the collection with its new parent, or a row
that was there before. -/
theorem row_of_moved (hsource : s.collections.find? id = some source)
    (hupdate : Sql.updateCollection id name parentId sortOrder s = some (moved, n))
    (hc : c ∈ moved.collections.rows) :
    (c.id = id ∧ c.projectId = source.projectId ∧ c.moduleId = source.moduleId ∧
      c.parentId = parentId) ∨ (c.id ≠ id ∧ c ∈ s.collections.rows) := by
  obtain ⟨-, rfl, -⟩ := Sql.updateCollection_eq_some hupdate
  simp only [Table.mem_update] at hc
  obtain ⟨old, hold, heq⟩ := hc
  split at heq
  · rename_i hkey
    have hsame : old = source := Table.eq_of_key_eq hold (Table.mem_of_find? hsource)
      (hkey.trans (Table.key_of_find? hsource).symm)
    subst heq
    exact Or.inl ⟨hkey, by rw [hsame], by rw [hsame], rfl⟩
  · rename_i hkey
    subst heq
    exact Or.inr ⟨hkey, hold⟩

/-- Every collection keeps its project and its module in the first statement. -/
theorem find?_of_moved
    (hupdate : Sql.updateCollection id name parentId sortOrder s = some (moved, n)) {k : String}
    (hc : s.collections.find? k = some c) :
    ∃ c', moved.collections.find? k = some c' ∧ c'.projectId = c.projectId ∧
      c'.moduleId = c.moduleId := by
  obtain ⟨-, rfl, -⟩ := Sql.updateCollection_eq_some hupdate
  refine ⟨if k = id then { c with name, parentId, sortOrder } else c, ?_, ?_⟩
  · rw [Table.find?_update, hc, Option.map_some]
  · split
    · exact ⟨rfl, rfl⟩
    · exact ⟨rfl, rfl⟩

/-- Within its module a collection may move to any parent. -/
theorem Store.Owned.updateCollection (h : s.Owned) (hsource : s.collections.find? id = some source)
    (hparent : ∀ p, parentId = some p → ∃ found, s.collections.find? p = some found ∧
      found.projectId = source.projectId ∧ found.moduleId = source.moduleId)
    (hupdate : Sql.updateCollection id name parentId sortOrder s = some (moved, n)) :
    moved.Owned := by
  have htables : moved.requests = s.requests ∧ moved.modules = s.modules := by
    obtain ⟨-, rfl, -⟩ := Sql.updateCollection_eq_some hupdate
    exact ⟨rfl, rfl⟩
  refine ⟨?_, ?_, ?_⟩
  · intro r hr
    rw [htables.1] at hr
    obtain ⟨c, hc, hproject⟩ := h.request r hr
    obtain ⟨c', hc', hsame, -⟩ := find?_of_moved hupdate hc
    exact ⟨c', hc', hsame.trans hproject⟩
  · intro c hc m hm
    rw [htables.2]
    rcases row_of_moved hsource hupdate hc with ⟨-, hproject, hmodule, -⟩ | ⟨-, hold⟩
    · rw [hproject]
      exact h.inModule source (Table.mem_of_find? hsource) m (hmodule ▸ hm)
    · exact h.inModule c hold m hm
  · intro c hc p hp
    have hfound : ∃ found, s.collections.find? p = some found ∧
        found.projectId = c.projectId ∧ found.moduleId = c.moduleId := by
      rcases row_of_moved hsource hupdate hc with ⟨-, hproject, hmodule, hset⟩ | ⟨-, hold⟩
      · rw [hproject, hmodule]
        exact hparent p (hset.symm.trans hp)
      · exact h.parent c hold p hp
    obtain ⟨found, hfind, hproject, hmodule⟩ := hfound
    obtain ⟨row, hrow, hrowproject, hrowmodule⟩ := find?_of_moved hupdate hfind
    exact ⟨row, hrow, hrowproject.trans hproject, hrowmodule.trans hmodule⟩

/-- After the first statement everything below the collection is in its project
still. -/
theorem project_below (h : s.Owned) (hsource : s.collections.find? id = some source)
    (hupdate : Sql.updateCollection id name parentId sortOrder s = some (moved, n)) {a : String}
    (hbelow : Ascends moved.parentOf a id) (hc : moved.collections.find? a = some c) :
    c.projectId = source.projectId := by
  induction hbelow using Relation.ReflTransGen.head_induction_on generalizing c with
  | refl =>
    rcases row_of_moved hsource hupdate (Table.mem_of_find? hc) with ⟨-, hproject, -⟩ | ⟨hne, -⟩
    · exact hproject
    · exact absurd (Table.key_of_find? hc) hne
  | @head a p hstep _ ih =>
    rcases row_of_moved hsource hupdate (Table.mem_of_find? hc) with ⟨-, hproject, -⟩ | ⟨-, hold⟩
    · exact hproject
    · have hlink : c.parentId = some p := by simpa [Store.parentOf, hc] using hstep
      obtain ⟨row, hrow, hrowproject, -⟩ := h.parent c hold p hlink
      obtain ⟨row', hrow', hsame, -⟩ := find?_of_moved hupdate hrow
      exact hrowproject.symm.trans (hsame.symm.trans (ih hrow'))

/-- The second statement brings the module of everything below the collection in
line with the new parent. -/
theorem Store.Owned.setModules (h : s.Owned) (hsource : s.collections.find? id = some source)
    {p targetModuleId : String} (hset : parentId = some p) {found : CollectionRow}
    (hfound : s.collections.find? p = some found) (hproject : found.projectId = source.projectId)
    (hmodule : found.moduleId = some targetModuleId)
    (hupdate : Sql.updateCollection id name parentId sortOrder s = some (moved, n))
    {ids : List String} (hids : ∀ b, b ∈ ids ↔
      (moved.collections.find? b).isSome = true ∧ Ascends moved.parentOf b id) :
    (Sql.setModules ids targetModuleId moved).Owned := by
  have htables : moved.requests = s.requests ∧ moved.modules = s.modules := by
    obtain ⟨-, rfl, -⟩ := Sql.updateCollection_eq_some hupdate
    exact ⟨rfl, rfl⟩
  -- What the two statements together make of a row.
  have hfind {k : String} {c : CollectionRow} (hc : s.collections.find? k = some c) :
      ∃ c', (Sql.setModules ids targetModuleId moved).collections.find? k = some c' ∧
        c'.projectId = c.projectId ∧
        c'.moduleId = if k ∈ ids then some targetModuleId else c.moduleId := by
    obtain ⟨c₁, hc₁, hproject₁, hmodule₁⟩ := find?_of_moved hupdate hc
    have hkey : c₁.id = k := Table.key_of_find? hc₁
    refine ⟨if c₁.id ∈ ids then { c₁ with moduleId := some targetModuleId } else c₁, ?_, ?_, ?_⟩
    · rw [Sql.setModules, Table.find?_updateWhere, hc₁, Option.map_some]
      simp
    · split <;> exact hproject₁
    · rw [hkey]
      split
      · rfl
      · exact hmodule₁
  have hrows {c' : CollectionRow}
      (hc' : c' ∈ (Sql.setModules ids targetModuleId moved).collections.rows) :
      ∃ c ∈ moved.collections.rows, c'.projectId = c.projectId ∧ c'.parentId = c.parentId ∧
        c'.moduleId = if c.id ∈ ids then some targetModuleId else c.moduleId := by
    simp only [Sql.setModules, Table.mem_updateWhere] at hc'
    obtain ⟨c, hc, rfl⟩ := hc'
    refine ⟨c, hc, ?_⟩
    by_cases hmem : c.id ∈ ids
    · simp [hmem]
    · simp [hmem]
  have hself : id ∈ ids := by
    obtain ⟨c, hc, -⟩ := find?_of_moved hupdate hsource
    exact (hids id).mpr ⟨by simp [hc], Ascends.refl id⟩
  refine ⟨?_, ?_, ?_⟩
  · intro r hr
    have hr : r ∈ moved.requests.rows := hr
    rw [htables.1] at hr
    obtain ⟨c, hc, hcolumn⟩ := h.request r hr
    obtain ⟨c', hc', hsame, -⟩ := hfind hc
    exact ⟨c', hc', hsame.trans hcolumn⟩
  · intro c' hc' m hm
    obtain ⟨c, hc, hcproject, -, hcmodule⟩ := hrows hc'
    show ∃ row, moved.modules.find? m = some row ∧ row.projectId = c'.projectId
    rw [htables.2, hcproject]
    rw [hcmodule] at hm
    split at hm
    · -- The collection is below the moved one, and its module is the new parent's.
      rename_i hmem
      have hcsource := project_below h hsource hupdate ((hids c.id).mp hmem).2 (Table.find?_key hc)
      obtain ⟨row, hrow, hrowproject⟩ :=
        h.inModule found (Table.mem_of_find? hfound) targetModuleId hmodule
      have htarget : targetModuleId = m := by simpa using hm
      exact ⟨row, htarget ▸ hrow, hrowproject.trans (hproject.trans hcsource.symm)⟩
    · rename_i hmem
      rcases row_of_moved hsource hupdate hc with ⟨hkey, -⟩ | ⟨-, hold⟩
      · exact absurd (hkey ▸ hself) hmem
      · exact h.inModule c hold m hm
  · intro c' hc' q hq
    obtain ⟨c, hc, hcproject, hcparent, hcmodule⟩ := hrows hc'
    rw [hcparent] at hq
    rcases row_of_moved hsource hupdate hc with ⟨hkey, hown, -, hlink⟩ | ⟨hne, hold⟩
    · obtain rfl : p = q := by
        rw [hlink, hset] at hq
        simpa using hq
      obtain ⟨row, hrow, hrowproject, hrowmodule⟩ := hfind hfound
      refine ⟨row, hrow, by rw [hrowproject, hproject, hcproject, hown], ?_⟩
      rw [hrowmodule, hcmodule, hkey, if_pos hself, hmodule, ite_self]
    · obtain ⟨up, hup, hupproject, hupmodule⟩ := h.parent c hold q hq
      obtain ⟨row, hrow, hrowproject, hrowmodule⟩ := hfind hup
      refine ⟨row, hrow, by rw [hrowproject, hupproject, hcproject], ?_⟩
      -- The parent of another collection is below the moved one exactly when it is.
      have hcfind : moved.collections.find? c.id = some c := Table.find?_key hc
      have hstep : moved.parentOf c.id = some q := by
        rw [Store.parentOf, hcfind, Option.bind_some, hq]
      have hsame : q ∈ ids ↔ c.id ∈ ids := by
        rw [hids, hids, hcfind]
        obtain ⟨up', hup', -⟩ := find?_of_moved hupdate hup
        simp only [hup', Option.isSome_some, true_and]
        constructor
        · exact Ascends.head hstep
        · intro hbelow
          rcases hbelow.eq_or_parent with heq | ⟨q', hq', hrest⟩
          · exact absurd heq hne
          · rw [hstep] at hq'
            cases hq'
            exact hrest
      rw [hrowmodule, hcmodule, hupmodule]
      simp only [hsame]

end Move

/-! ## Operations -/

theorem keepsFrom_wellOwned {m : StoreM α} (htree : Keeps Store.HasTree m)
    (howned : s.HasTree → KeepsFrom Store.Owned s m) : KeepsFrom Store.WellOwned s m :=
  fun hs faults => ⟨htree.state hs.1 faults, howned hs.1 hs.2 faults⟩

theorem owned_insertModule (row : ModuleRow) :
    Keeps Store.Owned (execute (Sql.insertModule row)) := by
  apply Keeps.execute
  intro s s' n hs hinsert
  obtain ⟨t, ht, rfl, -⟩ := Sql.insertModule_eq_some hinsert
  exact hs.insertModule ht

theorem Frames.keeps_columns {m : StoreM α} (h : Frames ownerView m) : Keeps Store.Owned m :=
  h.keeps fun shown => OwnedTables shown.1 shown.2.1 shown.2.2

variable (newId : String)

theorem owned_createProject (now : Timestamp) (workspaceId name : String) :
    Keeps Store.Owned (createProject newId now workspaceId name) := by
  apply Keeps.bind (.query _)
  intro workspace
  cases workspace with
  | none => exact .fail _
  | some _ =>
    simp only
    split
    · exact .fail _
    · apply Keeps.bind
      · apply Frames.keeps_columns
        apply Frames.execute
        intro s s' n hinsert
        obtain ⟨projects, -, rfl, -⟩ := Sql.insertProject_eq_some hinsert
        rfl
      · intro _
        exact .bind (owned_insertModule _) fun _ => .pure _

theorem owned_createModule (now : Timestamp) (name : String) :
    Keeps Store.Owned (createModule newId now projectId name) := by
  unfold createModule
  split
  · exact .fail _
  · exact .bind (owned_insertModule _) fun _ => .pure _

variable (hexSha256 : Bytes → String)

theorem keepsBlobs_wellOwned : KeepsBlobs hexSha256 Store.WellOwned where
  put blobId now data contentType :=
    (Frames.putBlob treeView_blobBlind _ _ _ _ _).keeps_owned
      (Frames.putBlob ownerView_blobBlind hexSha256 blobId now data contentType)
  release id :=
    (Frames.releaseBlob treeView_blobBlind id).keeps_owned
      (Frames.releaseBlob ownerView_blobBlind id)

theorem wellOwned_deleteProject (projectId : String) :
    Keeps Store.WellOwned (deleteProject projectId) :=
  (keepsBlobs_wellOwned latin1).deleteProject projectId fun _ hs =>
    ⟨Store.HasTree.dropProject hs.1, hs.2.dropProject hs.1⟩

/-- A request moves into a collection of the project it moves to: this is checked. -/
theorem owned_moveRequest (collectionId : String) (now : Timestamp) :
    KeepsFrom Store.Owned s (moveRequest id projectId collectionId now) := by
  refine .bind_read (.query _) ?_
  intro collectionProject hquery
  split
  · exact .of_keeps (.fail _)
  rename_i hproject
  have hcollection : ∃ c, s.collections.find? collectionId = some c ∧ c.projectId = projectId := by
    have hfound := hquery.query
    rw [not_not.mp hproject] at hfound
    exact Option.map_eq_some_iff.mp hfound.symm
  apply KeepsFrom.bind_keeps
  · apply KeepsFrom.execute
    intro s' n hs hmove
    exact hs.moveRequest hcollection hmove
  · intro changed
    split
    · exact .fail _
    · exact .pure _

/-- A request is saved into a collection of the project it is saved for, when
there are such a collection and such a project. -/
def SavesWithin (s : Store) (projectId collectionId : String) : Prop :=
  ∀ c, s.collections.find? collectionId = some c → (s.projects.find? projectId).isSome = true →
    c.projectId = projectId

theorem owned_saveRequest {collectionId : String} (hwithin : SavesWithin s projectId collectionId)
    (hexSha256 : Bytes → String) (blobId : String) (now : Timestamp) (request : RequestEnvelope) :
    KeepsFrom Store.Owned s
      (saveRequest hexSha256 blobId now request projectId collectionId) := by
  have hblind : BlobBlind fun t : Store => (ownerView t, t.projects) :=
    ⟨fun _ _ => rfl, fun _ _ => rfl⟩
  have hkeeps := (hblind.keepsBlobs hexSha256 fun shown =>
      OwnedTables shown.1.1 shown.1.2.1 shown.1.2.2 ∧
        shown.1.2.1 = s.collections ∧ shown.2 = s.projects).saveRequest
    projectId collectionId ?_ blobId now request
  · intro hs faults
    exact (hkeeps.state (s := s) ⟨hs, rfl, rfl⟩ faults).1
  · intro before after n row hrowProject hrowCollection hupsert hbefore
    obtain ⟨howned, hcollections, hprojects⟩ := hbefore
    have hcollections : before.collections = s.collections := hcollections
    have hprojects : before.projects = s.projects := hprojects
    refine ⟨Store.Owned.upsertRequest (s := before) howned ?_ hupsert, ?_⟩
    · intro c hc
      have hexists : (s.projects.find? projectId).isSome = true := by
        rw [← hprojects, ← hrowProject]
        exact (Sql.upsertRequest_eq_some hupsert).1
      rw [hrowProject]
      rw [hrowCollection, hcollections] at hc
      exact hwithin c hc hexists
    · obtain ⟨-, -, rfl⟩ := Sql.upsertRequest_eq_some hupsert
      exact ⟨hcollections, hprojects⟩

/-- The module a new collection gets is its parent's, or one of its project. -/
theorem returns_moduleOfNewCollection {requestedModuleId parentId : Option String}
    {moduleId : String}
    (h : Returns (moduleOfNewCollection projectId requestedModuleId parentId) s moduleId) :
    (∀ p, parentId = some p → ∃ row, s.collections.find? p = some row ∧
      row.projectId = projectId ∧ row.moduleId = some moduleId) ∧
    (parentId = none → ∃ m, s.modules.find? moduleId = some m ∧ m.projectId = projectId) := by
  unfold moduleOfNewCollection at h
  split at h
  · rename_i requested parent
    obtain ⟨row, hquery, hrequire⟩ := h.bind (.query _)
    refine ⟨?_, by simp⟩
    intro p hp
    obtain rfl : parent = p := by simpa using hp
    have hfound := hquery.query.symm.trans hrequire.requireRow
    obtain ⟨found, hfilter, hmodule⟩ := Option.map_eq_some_iff.mp hfound
    obtain ⟨hfind, hproject⟩ := Option.filter_eq_some_iff.mp hfilter
    exact ⟨found, hfind, by simpa using hproject, hmodule⟩
  · rename_i requested
    obtain ⟨row, hquery, hrest⟩ := h.bind (.query _)
    refine ⟨by simp, fun _ => ?_⟩
    have hfound := hquery.query
    cases row with
    | none => exact hrest.fail.elim
    | some m =>
      obtain ⟨hfind, hproject⟩ := Option.filter_eq_some_iff.mp hfound.symm
      have hid : moduleId = m.id := hrest.pure
      have hkey : m.id = requested := Table.key_of_find? hfind
      exact ⟨m, by rw [hid, hkey, hfind], by simpa using hproject⟩
  · obtain ⟨row, hquery, hrequire⟩ := h.bind (.query _)
    refine ⟨by simp, fun _ => ?_⟩
    have hfound := hrequire.requireRow
    rw [hquery.query] at hfound
    obtain ⟨m, hm, hid⟩ := Option.map_eq_some_iff.mp hfound
    have hmem := List.mem_of_find?_eq_some hm
    have hdefault := List.find?_some hm
    rw [Bool.and_eq_true, decide_eq_true_eq] at hdefault
    have hid : m.id = moduleId := by simpa using hid
    exact ⟨m, hid ▸ Table.find?_key hmem, hdefault.1⟩

theorem owned_createCollectionInModule (now : Timestamp)
    (requestedModuleId parentId : Option String) (name : String) :
    KeepsFrom Store.Owned s
      (createCollectionInModule newId now projectId requestedModuleId parentId name) := by
  refine .createCollectionInModule fun moduleId sortOrder s' n _ hmodule hs hinsert => ?_
  obtain ⟨hparents, htop⟩ := returns_moduleOfNewCollection hmodule
  refine hs.insertCollection ?_ hparents hinsert
  intro m hm
  obtain rfl : moduleId = m := by simpa using hm
  cases hparent : parentId with
  | none => exact htop hparent
  | some p =>
    obtain ⟨row, hrow, hproject, hrowModule⟩ := hparents p hparent
    obtain ⟨found, hfound, hsame⟩ := hs.inModule row (Table.mem_of_find? hrow) moduleId hrowModule
    exact ⟨found, hfound, hsame.trans hproject⟩

theorem owned_updateCollectionWithin (htree : s.HasTree) (fuel : Nat) (name : String)
    (parentId : Option String) (sortOrder : Int) :
    KeepsFrom Store.Owned s (updateCollectionWithin fuel id name parentId sortOrder) := by
  refine .updateCollectionWithin ?_
  intro source sourceModuleId targetModuleId moved n s' hsource hsourceModule htarget hs hupdate
    hrest
  cases parentId with
  | none =>
    -- At the top the module stays, so only the parent changes.
    have hsame : targetModuleId = sourceModuleId := htarget.pure
    rcases hrest with ⟨-, rfl⟩ | ⟨hne, -⟩
    · exact hs.updateCollection hsource (by simp) hupdate
    · exact absurd hsame hne
  | some p =>
    obtain ⟨⟨row, hrow, hproject, hmodule⟩, hsafe⟩ := returns_ancestorWalk htarget
    rcases hrest with ⟨hsame, rfl⟩ | ⟨-, ids, hids, rfl⟩
    · refine hs.updateCollection hsource ?_ hupdate
      intro q hq
      obtain rfl : p = q := by simpa using hq
      exact ⟨row, hrow, hproject, by rw [hmodule, hsourceModule, hsame]⟩
    · have hmoved : moved.HasTree := by
        refine hasTree_updateCollection htree ?_ hupdate
        intro q hq
        obtain rfl : p = q := by simpa using hq
        exact hsafe
      obtain ⟨ids', hids', -, hbelow⟩ := hmoved.subtree_eq_some id
      obtain rfl : ids = ids' := by
        rw [hids] at hids'
        simpa using hids'
      exact hs.setModules hsource rfl hrow hproject hmodule hupdate hbelow

theorem wellOwned_updateCollection (name : String) (parentId : Option String) (sortOrder : Int) :
    Keeps Store.WellOwned (updateCollection id name parentId sortOrder) := by
  intro w hw
  rw [run_updateCollection]
  exact keepsFrom_wellOwned (keeps_updateCollectionWithin _ name parentId sortOrder)
    (fun htree => owned_updateCollectionWithin htree _ name parentId sortOrder) hw w.faults

theorem owned_updateCollectionTags (tags : List String) :
    Keeps Store.Owned (updateCollectionTags id tags) := by
  refine Keeps.bind (Keeps.execute_some (I := Store.Owned) (fun _ => rfl) fun _ hs =>
    hs.updateWhere _ (fun _ => rfl) (fun _ => rfl) fun _ => rfl) fun changed => ?_
  exact (Frames.changedOrNotFound _ _).keeps_columns

/-- The steps that keep the ownership: all but a save into a foreign project. -/
def Op.KeepsOwnership (s : Store) : Op → Prop
  | .saveRequest _ _ _ projectId collectionId => SavesWithin s projectId collectionId
  | _ => True

/-- One step keeps the tree and the ownership. -/
theorem keepsFrom_program (op : Op) (h : op.KeepsOwnership s) :
    KeepsFrom Store.WellOwned s (op.program hexSha256) := by
  have htree := keeps_program hexSha256 op
  have hwell := keepsBlobs_wellOwned hexSha256
  have howned (ho : KeepsFrom Store.Owned s (op.program hexSha256)) :
      KeepsFrom Store.WellOwned s (op.program hexSha256) :=
    keepsFrom_wellOwned htree fun _ => ho
  cases op with
  | deleteWorkspace id =>
    exact .of_keeps (hwell.deleteWorkspace id
      (fun _ _ hs => ⟨Store.HasTree.dropProject hs.1, hs.2.dropProject hs.1⟩)
      fun _ _ hs => hs)
  | createProject id now workspaceId name =>
    exact howned (.of_keeps (owned_createProject id now workspaceId name).discard)
  | renameProject id name =>
    exact howned (.of_keeps (Frames.renameProject (fun _ _ => rfl) id name).keeps_columns)
  | deleteProject id => exact .of_keeps (wellOwned_deleteProject id)
  | createModule id now projectId name =>
    exact howned (.of_keeps (owned_createModule id now name).discard)
  | createCollectionInModule id now projectId requestedModuleId parentId name =>
    exact howned ((owned_createCollectionInModule id now requestedModuleId parentId name).bind_keeps
      fun _ => Keeps.pure ())
  | updateCollection id name parentId sortOrder =>
    exact .of_keeps (wellOwned_updateCollection name parentId sortOrder)
  | updateCollectionTags id tags => exact howned (.of_keeps (owned_updateCollectionTags tags))
  | deleteCollection id =>
    exact .of_keeps (hwell.deleteCollection id fun _ hs =>
      ⟨Store.HasTree.dropCollections hs.1, hs.2.dropCollections hs.1 _⟩)
  | saveRequest blobId now request projectId collectionId =>
    exact howned ((owned_saveRequest h hexSha256 blobId now request).bind_keeps
      fun _ => Keeps.pure ())
  | deleteRequest id =>
    exact .of_keeps (hwell.deleteRequest id fun _ hs => ⟨hs.1, hs.2.dropRequests _⟩)
  | moveRequest id projectId collectionId now => exact howned (owned_moveRequest collectionId now)
  | putBlob _ _ _ _ | recordExecution _ _ _ _ | recordWithResponse _ _ _ _ _ _ _ =>
    exact .of_keeps ((frames_treeView hexSha256 _ rfl).keeps_owned
      (Frames.recording ownerView_blobBlind (fun _ _ => rfl) hexSha256 _ rfl))
  | _ =>
    exact .of_keeps ((frames_treeView hexSha256 _ rfl).keeps_owned
      (Frames.leaf ownerView_leafBlind hexSha256 _ rfl))

variable (now : Timestamp)

theorem owned_openedStore : (openedStore now).Owned := by
  have hcollection (c : CollectionRow) (hc : c ∈ (openedStore now).collections.rows) :
      c.projectId = "default-project" ∧ c.moduleId = some "default-module" ∧
        c.parentId = none := by
    rw [List.mem_singleton.mp hc]
    exact ⟨rfl, rfl, rfl⟩
  refine ⟨fun r hr => absurd hr (List.not_mem_nil), ?_, ?_⟩
  · intro c hc m hm
    obtain ⟨hproject, hmodule, -⟩ := hcollection c hc
    rw [hmodule] at hm
    cases hm
    exact ⟨_, rfl, hproject.symm⟩
  · intro c hc p hp
    rw [(hcollection c hc).2.2] at hp
    cases hp

/-- The states of the runs in which requests are saved within their projects. -/
abbrev ReachedWithin (hexSha256 : Bytes → String) : Store → Prop :=
  Fallible.Reachable (Op.program hexSha256) Fresh fun s op _ => op.KeepsOwnership s

theorem wellOwned_of_reachedWithin {hexSha256 : Bytes → String} (h : ReachedWithin hexSha256 s) :
    s.WellOwned := by
  refine Fallible.Reachable.invariant ?_ ?_ h
  · rintro s ⟨now, rfl⟩
    rw [initial_eq_openedStore]
    exact ⟨hasTree_openedStore now, owned_openedStore now⟩
  · intro s op faults hs hop
    exact keepsFrom_program hexSha256 op hop hs faults

/-- In every state of a run that saves each request into a collection of the
project it is saved for, the redundant columns agree. -/
theorem columns_agree {hexSha256 : Bytes → String} (h : ReachedWithin hexSha256 s) : s.Owned :=
  (wellOwned_of_reachedWithin h).2

theorem savesWithin_openedStore :
    SavesWithin (openedStore now) "default-project" "default-collection" := by
  intro c hc _
  rw [List.mem_singleton.mp (Table.mem_of_find? hc)]

/-- The operation that saves a request into the first collection. -/
def saveIntoDefault : Op :=
  .saveRequest "blob" "t" (.httpGet "r" "t" "ping" "http://localhost") "default-project"
    "default-collection"

/-- The store after a request was saved below its own project. -/
def savedStore : Store := ((saveIntoDefault.program latin1).run ⟨openedStore "t", []⟩).2.state

theorem savedStore_columns_agree : savedStore.Owned :=
  columns_agree (.step (.start ⟨"t", (initial_eq_openedStore "t").symm⟩) saveIntoDefault []
    (savesWithin_openedStore "t"))

/-- The store after a second project was created and a request was saved for it
into the collection of the first. -/
def crossProjectStore : Store :=
  let created := (Op.createProject "p2" "t" "default-workspace" "Second").program latin1
  let saved := (Op.saveRequest "blob" "t" (.httpGet "r" "t" "ping" "http://localhost") "p2"
    "default-collection").program latin1
  (saved.run ⟨(created.run ⟨openedStore "t", []⟩).2.state, []⟩).2.state

/-- Both operations succeed, and the project of the request is not the one of its
collection. -/
theorem columns_disagree_after_foreign_save :
    ¬ ∀ s, Fallible.Reachable (Op.program latin1) Fresh (fun _ _ result => result.isOk = true) s →
      s.Owned := by
  intro hall
  have howned : crossProjectStore.Owned := by
    apply hall
    refine .step (.step (.start ⟨"t", (initial_eq_openedStore "t").symm⟩) _ [] ?_) _ [] ?_
    · decide +kernel
    · decide +kernel
  have hdisagree : ∃ r ∈ crossProjectStore.requests.rows,
      (crossProjectStore.collections.find? r.collectionId).map CollectionRow.projectId ≠
        some r.projectId := by
    decide +kernel
  obtain ⟨r, hr, hne⟩ := hdisagree
  obtain ⟨c, hc, hproject⟩ := howned.request r hr
  rw [hc, Option.map_some, hproject] at hne
  exact hne rfl

end ApiVoy.LocalStore
