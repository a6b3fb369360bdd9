/-
# The default rows

Every store starts with a workspace, a project, a collection and an environment,
and each operation refuses to delete its own one of them by id. That is not
enough: the default collection falls with a collection it was moved below, and
the default environment falls with a project it was saved for. The defaults
survive every run whose deletions spare these.
-/

import ApiVoy.LocalStore.BodyRoundTrip
import ApiVoy.LocalStore.Ownership

namespace ApiVoy.LocalStore

open Foundation Domain

variable {s s' : Store} {id projectId : String}

/-! ## Parents stay within the project -/

/-- A collection belongs to the project of its parent. -/
def Store.ParentsWithin (s : Store) : Prop :=
  ∀ c ∈ s.collections.rows, ∀ p, c.parentId = some p → ∃ up, s.collections.find? p = some up ∧
    up.projectId = c.projectId

namespace Store.ParentsWithin

/-- Everything above a collection is in its project. -/
theorem project_of_ascends (h : s.ParentsWithin) {a b : String} (hab : Ascends s.parentOf a b)
    {c : CollectionRow} (hc : s.collections.find? a = some c) :
    ∃ up, s.collections.find? b = some up ∧ up.projectId = c.projectId := by
  induction hab with
  | refl => exact ⟨c, hc, rfl⟩
  | tail _ hstep ih =>
    obtain ⟨mid, hmid, hproject⟩ := ih
    rw [Store.parentOf, hmid, Option.bind_some] at hstep
    obtain ⟨up, hup, hsame⟩ := h mid (Table.mem_of_find? hmid) _ hstep
    exact ⟨up, hup, hsame.trans hproject⟩

theorem insertCollection (h : s.ParentsWithin) {row : CollectionRow} {n : Nat}
    (hparent : ∀ p, row.parentId = some p → ∃ up, s.collections.find? p = some up ∧
      up.projectId = row.projectId)
    (hinsert : Sql.insertCollection row s = some (s', n)) : s'.ParentsWithin := by
  obtain ⟨t, ht, rfl, -, -⟩ := Sql.insertCollection_eq_some hinsert
  intro c hc p hp
  have hrows : c ∈ s.collections.rows ∨ c = row := by
    have hmem : c ∈ t.rows := hc
    rw [(Table.insert?_eq_some_iff.mp ht).2] at hmem
    simpa using hmem
  have hfound : ∃ up, s.collections.find? p = some up ∧ up.projectId = c.projectId := by
    rcases hrows with hold | rfl
    · exact h c hold p hp
    · exact hparent p hp
  obtain ⟨up, hup, hproject⟩ := hfound
  exact ⟨up, Table.find?_insert_of_some ht hup, hproject⟩

/-- Other columns than the project and the parent may change. -/
theorem updateWhere (h : s.ParentsWithin) (p : CollectionRow → Bool)
    {f : CollectionRow → CollectionRow} {hkey : ∀ c, (f c).id = c.id}
    (hproject : ∀ c, (f c).projectId = c.projectId) (hparent : ∀ c, (f c).parentId = c.parentId) :
    Store.ParentsWithin { s with collections := s.collections.updateWhere p f hkey } := by
  intro c' hc' k hk
  simp only [Table.mem_updateWhere] at hc'
  obtain ⟨c, hc, rfl⟩ := hc'
  have hcolumns : (if p c then f c else c).parentId = c.parentId ∧
      (if p c then f c else c).projectId = c.projectId := by
    split
    · exact ⟨hparent c, hproject c⟩
    · exact ⟨rfl, rfl⟩
  rw [hcolumns.1] at hk
  rw [hcolumns.2]
  obtain ⟨up, hup, hsame⟩ := h c hc k hk
  refine ⟨if p up then f up else up, ?_, ?_⟩
  · show (s.collections.updateWhere p f hkey).find? k = _
    rw [Table.find?_updateWhere, hup, Option.map_some]
  · split
    · rw [hproject, hsame]
    · exact hsame

/-- A collection moves to the top or below one of its project. -/
theorem updateCollection (h : s.ParentsWithin) {name : String} {parentId : Option String}
    {sortOrder : Int} {n : Nat} {source : CollectionRow}
    (hsource : s.collections.find? id = some source)
    (hparent : ∀ p, parentId = some p → ∃ up, s.collections.find? p = some up ∧
      up.projectId = source.projectId)
    (hupdate : Sql.updateCollection id name parentId sortOrder s = some (s', n)) :
    s'.ParentsWithin := by
  intro c hc p hp
  have hfound : ∃ up, s.collections.find? p = some up ∧ up.projectId = c.projectId := by
    rcases row_of_moved hsource hupdate hc with ⟨-, hproject, -, hset⟩ | ⟨-, hold⟩
    · rw [hproject]
      exact hparent p (hset.symm.trans hp)
    · exact h c hold p hp
  obtain ⟨up, hup, hproject⟩ := hfound
  obtain ⟨row, hrow, hsame, -⟩ := find?_of_moved hupdate hup
  exact ⟨row, hrow, hsame.trans hproject⟩

theorem dropCollections (h : s.ParentsWithin) (htree : s.HasTree) (doomed : CollectionRow → Bool) :
    (Sql.dropCollections doomed s).ParentsWithin := by
  intro c hc p hp
  obtain ⟨hmem, hkept⟩ := Table.mem_filter.mp hc
  obtain ⟨up, hup, hproject⟩ := h c hmem p hp
  refine ⟨up, Table.find?_filter.trans ?_, hproject⟩
  have hkey : up.id = p := Table.key_of_find? hup
  have hlink : s.parentOf c.id = some p := by
    have hfind : s.collections.find? c.id = some c := Table.find?_key hmem
    rw [Store.parentOf, hfind, Option.bind_some, hp]
  have hstays : s.falls doomed p = false := by
    by_contra hfalls
    have htakes := htree.falls_of_parent hlink (by simpa using hfalls)
    simp [htakes] at hkept
  simp [hup, hkey, hstays]

end Store.ParentsWithin

variable (newId : String)

theorem parentsWithin_createCollectionInModule (now : Timestamp)
    (requestedModuleId parentId : Option String) (name : String) :
    Keeps Store.ParentsWithin
      (createCollectionInModule newId now projectId requestedModuleId parentId name) :=
  keeps_of_keepsFrom fun _ => .createCollectionInModule fun _ _ _ _ hparents _ hs hinsert =>
    hs.insertCollection hparents hinsert

theorem parentsWithin_updateCollectionWithin (fuel : Nat) (name : String)
    (parentId : Option String) (sortOrder : Int) :
    Keeps Store.ParentsWithin (updateCollectionWithin fuel id name parentId sortOrder) := by
  refine keeps_of_keepsFrom fun s => .updateCollectionWithin ?_
  intro source sourceModuleId targetModuleId moved n s' hsource _ htarget hs hupdate hrest
  have hmoved : moved.ParentsWithin := by
    refine hs.updateCollection hsource ?_ hupdate
    intro p hp
    subst hp
    obtain ⟨row, hrow, hproject, -⟩ := (returns_ancestorWalk htarget).1
    exact ⟨row, hrow, hproject⟩
  rcases hrest with ⟨-, rfl⟩ | ⟨-, ids, -, rfl⟩
  · exact hmoved
  · exact hmoved.updateWhere _ (fun _ => rfl) fun _ => rfl

/-! ## The rows -/

/-- The default collection is there and belongs to the default project. -/
def Store.HasDefaultCollection (s : Store) : Prop :=
  ∃ c, s.collections.find? "default-collection" = some c ∧ c.projectId = "default-project"

/-- The rows every store has are there, and the default collection belongs to the
default project. -/
structure Store.Defaults (s : Store) : Prop where
  workspace : (s.workspaces.find? "default-workspace").isSome = true
  project : (s.projects.find? "default-project").isSome = true
  collection : s.HasDefaultCollection
  environment : (s.environments.find? "default-env").isSome = true

/-- What keeping the defaults rests on. -/
structure Store.Settled (s : Store) : Prop where
  tree : s.HasTree
  within : s.ParentsWithin
  defaults : s.Defaults

/-- The project of the default environment is the given one. -/
def Store.EnvironmentOf (projectId : String) (s : Store) : Prop :=
  ∀ env, s.environments.find? "default-env" = some env → env.projectId = projectId

/-- Settled, with the default environment in the given project. -/
def Store.SettledFor (projectId : String) (s : Store) : Prop :=
  s.Settled ∧ s.EnvironmentOf projectId

/-- What the default rows and the collections above them depend on. -/
def settledView (s : Store) : Schema × Table WorkspaceRow × Table ProjectRow ×
    Table CollectionRow × Table EnvironmentRow :=
  (s.schema, s.workspaces, s.projects, s.collections, s.environments)

theorem settledView_blobBlind : BlobBlind settledView := ⟨fun _ _ => rfl, fun _ _ => rfl⟩

theorem settledView_resourceBlind : ResourceBlind settledView :=
  ⟨fun _ _ => rfl, fun _ _ => rfl, fun _ _ => rfl⟩

namespace Store.Settled

theorem congr (h : s.Settled) (hview : settledView s' = settledView s) : s'.Settled := by
  simp only [settledView, Prod.mk.injEq] at hview
  obtain ⟨hschema, hworkspaces, hprojects, hcollections, henvironments⟩ := hview
  have htree : s'.HasTree := by
    rw [HasTree, hschema, hcollections]
    exact h.tree
  have hwithin : s'.ParentsWithin := by
    rw [ParentsWithin, hcollections]
    exact h.within
  refine ⟨htree, hwithin, ?_, ?_, ?_, ?_⟩
  · rw [hworkspaces]
    exact h.defaults.workspace
  · rw [hprojects]
    exact h.defaults.project
  · rw [HasDefaultCollection, hcollections]
    exact h.defaults.collection
  · rw [henvironments]
    exact h.defaults.environment

theorem setWorkspaces (h : s.Settled) {workspaces : Table WorkspaceRow}
    (hkept : (workspaces.find? "default-workspace").isSome = true) :
    Store.Settled { s with workspaces } :=
  ⟨h.tree, h.within, hkept, h.defaults.project, h.defaults.collection, h.defaults.environment⟩

theorem setProjects (h : s.Settled) {projects : Table ProjectRow}
    (hkept : (projects.find? "default-project").isSome = true) : Store.Settled { s with projects } :=
  ⟨h.tree, h.within, h.defaults.workspace, hkept, h.defaults.collection, h.defaults.environment⟩

theorem setEnvironments (h : s.Settled) {environments : Table EnvironmentRow}
    (hkept : (environments.find? "default-env").isSome = true) :
    Store.Settled { s with environments } :=
  ⟨h.tree, h.within, h.defaults.workspace, h.defaults.project, h.defaults.collection, hkept⟩

/-- A deletion of collections that does not take the default one along. -/
theorem dropCollections (h : s.Settled) {doomed : CollectionRow → Bool}
    (hspared : s.falls doomed "default-collection" = false) :
    (Sql.dropCollections doomed s).Settled := by
  refine ⟨h.tree.dropCollections, h.within.dropCollections h.tree doomed, h.defaults.workspace,
    h.defaults.project, ?_, h.defaults.environment⟩
  obtain ⟨c, hc, hproject⟩ := h.defaults.collection
  have hkey : c.id = "default-collection" := Table.key_of_find? hc
  refine ⟨c, Table.find?_filter.trans ?_, hproject⟩
  simp [hc, hkey, hspared]

/-- Another project takes neither the default collection along nor, unless the
default environment was saved for it, that environment. -/
theorem dropProject (h : s.Settled) (hid : id ≠ "default-project")
    (henv : s.EnvironmentOf projectId) (hother : projectId ≠ id) :
    (Sql.dropProject id s).Settled := by
  have hspared : s.falls (fun c => decide (c.projectId = id)) "default-collection" = false := by
    by_contra hfalls
    obtain ⟨b, c, hascends, hc, hdoomed⟩ := h.tree.falls_iff.mp (by simpa using hfalls)
    obtain ⟨default, hdefault, hproject⟩ := h.defaults.collection
    obtain ⟨up, hup, hsame⟩ := h.within.project_of_ascends hascends hdefault
    obtain rfl : c = up := by
      rw [hc] at hup
      simpa using hup
    rw [hproject] at hsame
    have heq : c.projectId = id := by simpa using hdoomed
    exact hid (heq.symm.trans hsame)
  have hcollections := h.dropCollections hspared
  have hprojects : ((s.projects.filter fun p => p.id ≠ id).find? "default-project").isSome =
      true := by
    obtain ⟨p, hp⟩ := Option.isSome_iff_exists.mp h.defaults.project
    have hkey : p.id = "default-project" := Table.key_of_find? hp
    rw [Table.find?_filter, hp]
    simp [hkey, Ne.symm hid]
  have henvironments :
      ((s.environments.filter fun e => e.projectId ≠ id).find? "default-env").isSome = true := by
    obtain ⟨e, he⟩ := Option.isSome_iff_exists.mp h.defaults.environment
    rw [Table.find?_filter, he]
    simp [henv e he, hother]
  exact ((hcollections.setProjects hprojects).setEnvironments henvironments).congr rfl

end Store.Settled

theorem Store.EnvironmentOf.dropProject (h : s.EnvironmentOf projectId) :
    (Sql.dropProject id s).EnvironmentOf projectId := by
  intro env henv
  have hfiltered : (s.environments.filter fun e => e.projectId ≠ id).find? "default-env" =
      some env := henv
  rw [Table.find?_filter, Option.filter_eq_some_iff] at hfiltered
  exact h env hfiltered.1

/-! ## Operations -/

variable {α : Type}

variable {m : StoreM α}

theorem Frames.keeps_settled (h : Frames settledView m) : Keeps Store.Settled m := by
  intro w hw
  exact hw.congr (h.state w)

theorem settled_saveWorkspace (ws : WorkspaceRow) : Keeps Store.Settled (saveWorkspace ws) :=
  Keeps.bind (.execute_some (I := Store.Settled) (fun _ => rfl) fun _ hs =>
    hs.setWorkspaces (Table.isSome_upsert hs.defaults.workspace _ _ _)) fun _ => .pure ()

theorem settled_updateWorkspace (f : WorkspaceRow → WorkspaceRow)
    (hf : ∀ row, (f row).id = row.id) :
    Keeps Store.Settled (do
      let changed ← execute (Sql.updateWorkspace id f hf)
      changedOrNotFound id changed) :=
  Keeps.bind (Keeps.execute_some (I := Store.Settled) (fun _ => rfl) fun _ hs =>
    hs.setWorkspaces (Table.isSome_update hs.defaults.workspace _ _ _)) fun _ =>
      (Frames.changedOrNotFound _ _).keeps_settled

theorem settled_createProject (now : Timestamp) (workspaceId name : String) :
    Keeps Store.Settled (createProject newId now workspaceId name) := by
  apply Keeps.bind (Keeps.query _)
  intro workspace
  cases workspace with
  | none => exact Keeps.fail _
  | some _ =>
    simp only
    split
    · exact Keeps.fail _
    · apply Keeps.bind
      · apply Keeps.execute
        intro s s' n hs hinsert
        obtain ⟨projects, hprojects, rfl, -⟩ := Sql.insertProject_eq_some hinsert
        obtain ⟨p, hp⟩ := Option.isSome_iff_exists.mp hs.defaults.project
        apply hs.setProjects
        rw [Table.find?_insert_of_some hprojects hp]
        rfl
      · intro _
        exact Keeps.bind (Frames.insertModule (fun _ _ => rfl) _).keeps_settled
          fun _ => Keeps.pure _

theorem settled_renameProject (name : String) : Keeps Store.Settled (renameProject id name) := by
  unfold renameProject
  split
  · exact Keeps.fail _
  · exact Keeps.bind (Keeps.execute_some (I := Store.Settled) (fun _ => rfl) fun _ hs =>
      hs.setProjects (Table.isSome_update hs.defaults.project _ _ _)) fun _ =>
        (Frames.changedOrNotFound _ _).keeps_settled

theorem settledFor_of_frames (h : Frames settledView m) : Keeps (Store.SettledFor projectId) m := by
  intro w hw
  have hview := h.state w
  have henvironments : (m.run w).2.state.environments = w.state.environments :=
    congrArg (fun shown => shown.2.2.2.2) hview
  refine ⟨hw.1.congr hview, ?_⟩
  rw [Store.EnvironmentOf, henvironments]
  exact hw.2

theorem keepsBlobs_settledFor (hexSha256 : Bytes → String) :
    KeepsBlobs hexSha256 (Store.SettledFor projectId) where
  put blobId now data contentType :=
    settledFor_of_frames (.putBlob settledView_blobBlind hexSha256 blobId now data contentType)
  release id := settledFor_of_frames (.releaseBlob settledView_blobBlind id)

theorem settled_deleteProject (h : id = "default-project" ∨ projectId ≠ id) :
    Keeps (Store.SettledFor projectId) (deleteProject id) := by
  by_cases hid : id = "default-project"
  · rw [deleteProject, if_pos hid]
    exact .fail _
  · apply (keepsBlobs_settledFor latin1).deleteProject
    intro s hs
    exact ⟨hs.1.dropProject hid hs.2 (h.resolve_left hid), hs.2.dropProject⟩

/-! ### Operations on collections -/

theorem Store.HasDefaultCollection.updateWhere (h : s.HasDefaultCollection)
    (p : CollectionRow → Bool) {f : CollectionRow → CollectionRow} {hkey : ∀ c, (f c).id = c.id}
    (hproject : ∀ c, (f c).projectId = c.projectId) :
    Store.HasDefaultCollection { s with collections := s.collections.updateWhere p f hkey } := by
  obtain ⟨c, hc, hdefault⟩ := h
  refine ⟨if p c then f c else c, ?_, ?_⟩
  · show (s.collections.updateWhere p f hkey).find? "default-collection" = _
    rw [Table.find?_updateWhere, hc, Option.map_some]
  · split
    · rw [hproject, hdefault]
    · exact hdefault

/-- What touches collections only keeps the default rows when it keeps the tree,
the projects along the links and the default collection. -/
theorem settled_of_collections (htree : Keeps Store.HasTree m)
    (hwithin : Keeps Store.ParentsWithin m) (hcollection : Keeps Store.HasDefaultCollection m)
    (hrest : Frames (fun s : Store => (s.workspaces, s.projects, s.environments)) m) :
    Keeps Store.Settled m := by
  intro w hw
  have hview := hrest.state w
  simp only [Prod.mk.injEq] at hview
  refine ⟨htree w hw.tree, hwithin w hw.within, ?_, ?_, hcollection w hw.defaults.collection, ?_⟩
  · rw [hview.1]
    exact hw.defaults.workspace
  · rw [hview.2.1]
    exact hw.defaults.project
  · rw [hview.2.2]
    exact hw.defaults.environment

theorem settled_createCollectionInModule (now : Timestamp)
    (requestedModuleId parentId : Option String) (name : String) :
    Keeps Store.Settled
      (createCollectionInModule newId now projectId requestedModuleId parentId name) := by
  apply settled_of_collections (keeps_createCollectionInModule _ _ _ _ _)
    (parentsWithin_createCollectionInModule _ _ _ _ _)
  · refine keeps_of_keepsFrom fun s => .createCollectionInModule ?_
    intro moduleId sortOrder s' n _ _ hs hinsert
    obtain ⟨t, ht, rfl, -⟩ := Sql.insertCollection_eq_some hinsert
    obtain ⟨c, hc, hproject⟩ := hs
    exact ⟨c, Table.find?_insert_of_some ht hc, hproject⟩
  · exact .createCollectionInModule (fun _ _ => rfl) _ _ _ _ _ _

theorem hasDefaultCollection_updateCollectionWithin (fuel : Nat) (name : String)
    (parentId : Option String) (sortOrder : Int) :
    Keeps Store.HasDefaultCollection
      (updateCollectionWithin fuel id name parentId sortOrder) := by
  refine keeps_of_keepsFrom fun s => .updateCollectionWithin ?_
  intro source sourceModuleId targetModuleId moved n s' _ _ _ hs hupdate hrest
  have hmoved : moved.HasDefaultCollection := by
    obtain ⟨-, rfl, -⟩ := Sql.updateCollection_eq_some hupdate
    exact hs.updateWhere _ fun _ => rfl
  rcases hrest with ⟨-, rfl⟩ | ⟨-, ids, -, rfl⟩
  · exact hmoved
  · exact hmoved.updateWhere _ fun _ => rfl

theorem settled_updateCollection (name : String) (parentId : Option String) (sortOrder : Int) :
    Keeps Store.Settled (updateCollection id name parentId sortOrder) := by
  apply settled_of_collections (keeps_updateCollection name parentId sortOrder)
  · intro w hw
    rw [run_updateCollection]
    exact parentsWithin_updateCollectionWithin _ name parentId sortOrder w hw
  · intro w hw
    rw [run_updateCollection]
    exact hasDefaultCollection_updateCollectionWithin _ name parentId sortOrder w hw
  · exact .updateCollection (fun _ _ => rfl) _ _ _ _

theorem settled_updateCollectionTags (tags : List String) :
    Keeps Store.Settled (updateCollectionTags id tags) := by
  apply settled_of_collections (keeps_updateCollectionTags tags)
  · refine .bind (.execute_some (I := Store.ParentsWithin) (fun _ => rfl) fun _ hs =>
      hs.updateWhere _ (fun _ => rfl) fun _ => rfl) fun _ => .of_readOnly ?_
    exact .changedOrNotFound _ _
  · refine .bind (.execute_some (I := Store.HasDefaultCollection) (fun _ => rfl)
      fun _ hs => hs.updateWhere _ fun _ => rfl) fun _ => .of_readOnly ?_
    exact .changedOrNotFound _ _
  · exact .updateCollectionTags (fun _ _ => rfl) _ _

/-- A collection that is not above the default one. -/
theorem settled_deleteCollection
    (h : id = "default-collection" ∨ ¬ Ascends s.parentOf "default-collection" id) :
    KeepsFrom Store.Settled s (deleteCollection id) := by
  unfold deleteCollection
  split
  · exact .of_keeps (Keeps.fail _)
  rename_i hid
  have hread : ReadOnly (requestBlobIdsForCollectionSubtree id) := by
    intro shown
    apply Keeps.attempt
    intro s hs
    cases s.subtree id <;> exact hs
  refine KeepsFrom.bind_read hread ?_
  intro blobIds _
  refine KeepsFrom.bind_keeps (KeepsFrom.execute ?_) ?_
  · intro s' n hs hdelete
    cases hdelete
    apply hs.dropCollections
    by_contra hfalls
    obtain ⟨b, c, hascends, hc, hdoomed⟩ := hs.tree.falls_iff.mp (by simpa using hfalls)
    have hkey : c.id = b := Table.key_of_find? hc
    have heq : b = id := hkey.symm.trans (by simpa using hdoomed)
    exact h.resolve_left hid (heq ▸ hascends)
  · intro changed
    split
    · exact Keeps.fail _
    · exact Keeps.each (fun id => (Frames.releaseBlob settledView_blobBlind id).keeps_settled) _

/-- The project of the default environment, if it exists, is not in the given
workspace. -/
def Store.EnvironmentOutside (s : Store) (workspaceId : String) : Prop :=
  ∀ env p, s.environments.find? "default-env" = some env →
    s.projects.find? env.projectId = some p → p.workspaceId ≠ some workspaceId

theorem settled_deleteWorkspace (h : id = "default-workspace" ∨ s.EnvironmentOutside id) :
    KeepsFrom Store.Settled s (deleteWorkspace id) := by
  unfold deleteWorkspace
  split
  · exact .of_keeps (.fail _)
  rename_i hid
  refine .bind_read (.query _) ?_
  intro projects hprojects hs
  obtain ⟨env, henv⟩ := Option.isSome_iff_exists.mp hs.defaults.environment
  have hof : s.EnvironmentOf env.projectId := by
    intro env' henv'
    rw [henv] at henv'
    cases henv'
    rfl
  have hothers (p : ProjectRow) (hp : p ∈ projects) : env.projectId ≠ p.id := by
    intro heq
    rw [hprojects.query, List.mem_insertionSort, List.mem_filter] at hp
    have hfind : s.projects.find? env.projectId = some p := heq ▸ Table.find?_key hp.1
    exact h.resolve_left hid env p henv hfind (by simpa using hp.2)
  have hkeeps : Keeps (Store.SettledFor env.projectId) (do
      Fallible.each (fun p : ProjectRow => deleteProject p.id) projects
      let changed ← execute (Sql.deleteWorkspace id)
      changedOrNotFound id changed) := by
    apply Keeps.bind (.each_mem fun p hp => settled_deleteProject (Or.inr (hothers p hp)))
    intro _
    apply Keeps.bind
    · apply Keeps.execute
      intro s s' n hs hdelete
      obtain ⟨rfl, -⟩ := Sql.deleteWorkspace_eq_some hdelete
      refine ⟨hs.1.setWorkspaces ?_, hs.2⟩
      obtain ⟨ws, hws⟩ := Option.isSome_iff_exists.mp hs.1.defaults.workspace
      have hkey : ws.id = "default-workspace" := Table.key_of_find? hws
      rw [Table.find?_filter, hws]
      simp [hkey, Ne.symm hid]
    · intro changed
      exact settledFor_of_frames (.changedOrNotFound _ _)
  intro faults
  exact (hkeeps.state ⟨hs, hof⟩ faults).1

/-! ## Runs -/

/-- The steps that spare the defaults: a deletion does not name a collection above
the default one, nor the project the default environment was last saved for, nor
the workspace of that project. -/
def Op.SparesDefaults (s : Store) : Op → Prop
  | .deleteCollection id =>
    id = "default-collection" ∨ ¬ Ascends s.parentOf "default-collection" id
  | .deleteProject id =>
    id = "default-project" ∨
      ∀ env, s.environments.find? "default-env" = some env → env.projectId ≠ id
  | .deleteWorkspace id => id = "default-workspace" ∨ s.EnvironmentOutside id
  | _ => True

/-- One step that spares the defaults keeps them. -/
theorem settled_program (hexSha256 : Bytes → String) (op : Op) (h : op.SparesDefaults s) :
    KeepsFrom Store.Settled s (op.program hexSha256) := by
  cases op with
  | saveWorkspace ws => exact .of_keeps (settled_saveWorkspace ws)
  | createWorkspace id now name rootPath =>
    apply KeepsFrom.of_keeps
    apply Keeps.discard
    simp only [createWorkspace]
    split
    · exact Keeps.fail _
    · exact Keeps.bind (settled_saveWorkspace _) fun _ => Keeps.pure _
  | renameWorkspace id now name =>
    apply KeepsFrom.of_keeps
    simp only [Op.program, renameWorkspace]
    split
    · exact Keeps.fail _
    · exact settled_updateWorkspace _ _
  | touchWorkspace id now => exact .of_keeps (settled_updateWorkspace _ _)
  | archiveWorkspace id now archived =>
    apply KeepsFrom.of_keeps
    simp only [Op.program, archiveWorkspace]
    split
    · exact Keeps.fail _
    · exact settled_updateWorkspace _ _
  | deleteWorkspace id => exact settled_deleteWorkspace h
  | createProject id now workspaceId name =>
    exact .of_keeps (settled_createProject id now workspaceId name).discard
  | renameProject id name => exact .of_keeps (settled_renameProject name)
  | deleteProject id =>
    intro hs faults
    obtain ⟨env, henv⟩ := Option.isSome_iff_exists.mp hs.defaults.environment
    have hother : id = "default-project" ∨ env.projectId ≠ id :=
      h.imp_right fun hother => hother env henv
    have hof : s.EnvironmentOf env.projectId := by
      intro env' henv'
      rw [henv] at henv'
      cases henv'
      rfl
    exact ((settled_deleteProject hother).state ⟨hs, hof⟩ faults).1
  | createModule id now projectId name =>
    exact .of_keeps (Frames.createModule (fun _ _ => rfl) id now projectId
      name).discard.keeps_settled
  | createCollectionInModule id now projectId requestedModuleId parentId name =>
    exact .of_keeps (settled_createCollectionInModule id now requestedModuleId parentId
      name).discard
  | updateCollection id name parentId sortOrder =>
    exact .of_keeps (settled_updateCollection name parentId sortOrder)
  | updateCollectionTags id tags => exact .of_keeps (settled_updateCollectionTags tags)
  | deleteCollection id => exact settled_deleteCollection h
  | saveRequest blobId now request projectId collectionId =>
    exact .of_keeps (Frames.saveRequest settledView_blobBlind (fun _ _ => rfl)
      _ _ _ _ _ _).discard.keeps_settled
  | deleteRequest id =>
    have hdrop (shown) : Keeps (fun s => settledView s = shown) (deleteRequest id) :=
      (settledView_blobBlind.keepsBlobs hexSha256 fun t => t = shown).deleteRequest id
        fun _ hs => hs
    have hframes : Frames settledView (deleteRequest id) := hdrop
    exact .of_keeps hframes.keeps_settled
  | moveRequest id projectId collectionId now =>
    exact .of_keeps (Frames.moveRequest (fun _ _ => rfl) id projectId collectionId
      now).keeps_settled
  | putBlob _ _ _ _ | recordExecution _ _ _ _ | recordWithResponse _ _ _ _ _ _ _ =>
    exact .of_keeps (Frames.recording settledView_blobBlind (fun _ _ => rfl) hexSha256 _
      rfl).keeps_settled
  | saveEnvironment env =>
    apply KeepsFrom.of_keeps
    refine Keeps.bind (Keeps.execute ?_) fun _ => Keeps.pure ()
    intro s s' n hs hupsert
    unfold Sql.upsertEnvironment at hupsert
    split at hupsert
    · cases hupsert
      exact hs.setEnvironments (Table.isSome_upsert hs.defaults.environment _ _ _)
    · cases hupsert
  | deleteEnvironment id =>
    apply KeepsFrom.of_keeps
    simp only [Op.program, deleteEnvironment]
    split
    · exact Keeps.fail _
    rename_i hid
    refine Keeps.bind (Keeps.execute_some (I := Store.Settled) (fun _ => rfl) ?_)
      fun _ => Keeps.pure ()
    intro s hs
    apply hs.setEnvironments
    obtain ⟨env, henv⟩ := Option.isSome_iff_exists.mp hs.defaults.environment
    have hkey : env.id = "default-env" := Table.key_of_find? henv
    rw [Table.find?_filter, henv]
    simp [hkey, Ne.symm hid]
  | _ => exact .of_keeps (Frames.resource settledView_resourceBlind hexSha256 _ rfl).keeps_settled

theorem settled_openedStore (now : Timestamp) : (openedStore now).Settled := by
  refine ⟨hasTree_openedStore now, ?_, rfl, rfl, ⟨_, rfl, rfl⟩, rfl⟩
  intro c hc p hp
  rw [List.mem_singleton.mp hc] at hp
  cases hp

/-- The states of the runs in which every step spares the defaults. -/
abbrev ReachedSparing (hexSha256 : Bytes → String) : Store → Prop :=
  Fallible.Reachable (Op.program hexSha256) Fresh fun s op _ => op.SparesDefaults s

variable {hexSha256 : Bytes → String}

theorem settled_of_reachedSparing (h : ReachedSparing hexSha256 s) : s.Settled := by
  apply Fallible.Reachable.invariant _ _ h
  · rintro s ⟨now, rfl⟩
    rw [initial_eq_openedStore]
    exact settled_openedStore now
  · intro s op faults hs hop
    exact settled_program hexSha256 op hop hs faults

/-! ## What the rows are good for -/

theorem found_ne_notFound {read : Store → Option α} {a : α} (h : read s = some a)
    {f : Option α → StoreM α} (hf : f (some a) = pure a) (faults : List Bool) (id : String) :
    ((query read >>= f).run ⟨s, faults⟩).1 ≠ .error (.notFound id) := by
  intro herror
  rcases hread : (query read).run ⟨s, faults⟩ with ⟨e | found, w'⟩
  · rw [Fallible.run_bind_of_error hread, query_error hread] at herror
    cases herror
  · rw [Fallible.run_bind_of_ok hread, (query_ok hread).1, h, hf] at herror
    cases herror

/-- A request can be written at all: its payload is an HTTP payload, or its
sanitized envelope has a JSON form. -/
def SaveCall.Writable (call : SaveCall) : Prop :=
  call.request.payload.isHttp = true ∨ call.request.sanitizedForPersistence.toJson ≠ none

variable {call : SaveCall}

theorem SaveCall.Writable.exists_json (h : call.Writable) (hexSha256 : Bytes → String) (s : Store) :
    ∃ json, (call.envelope (placement hexSha256 s call.request.payload.body)).toJson =
      some json := by
  rcases h with hhttp | hjson
  · obtain ⟨json, hwrite, -⟩ := SaveCall.exists_json hhttp
      (placement hexSha256 s call.request.payload.body)
    exact ⟨json, hwrite⟩
  · by_cases hhttp : call.request.payload.isHttp = true
    · obtain ⟨json, hwrite, -⟩ := SaveCall.exists_json hhttp
        (placement hexSha256 s call.request.payload.body)
      exact ⟨json, hwrite⟩
    · -- Only an HTTP payload has a body, so the sanitized envelope itself is written.
      have hbody : call.request.payload.body = none := by
        cases hpayload : call.request.payload with
        | http payload =>
          rw [hpayload] at hhttp
          exact absurd rfl hhttp
        | _ => rfl
      rw [hbody]
      exact Option.ne_none_iff_exists'.mp hjson

/-- The id drawn for a new blob, when the body needs one, is not taken. -/
def SaveCall.DrawsFreeId (call : SaveCall) (hexSha256 : Bytes → String) (s : Store) : Prop :=
  placement hexSha256 s call.request.payload.body = .fresh → s.blobIndex.find? call.blobId = none

/-- Where the default rows are, a request saved to the default collection is stored
there; the call also returns it unless its short body is marker text that names
no blob. -/
theorem SaveCall.saved_of_defaults (h : s.Defaults) (hfiled : s.Filed hexSha256)
    (hwritable : call.Writable) (hfree : call.DrawsFreeId hexSha256 s)
    (hproject : call.projectId = "default-project")
    (hcollection : call.collectionId = "default-collection") :
    (∃ row, ((call.program hexSha256).run ⟨s, []⟩).2.state.requests.find? call.request.id =
        some row ∧ row.projectId = "default-project" ∧ row.collectionId = "default-collection") ∧
      (call.Resolves s (placement hexSha256 s call.request.payload.body) →
        ((call.program hexSha256).run ⟨s, []⟩).1.isOk = true) := by
  obtain ⟨s₁, hplacing⟩ := call.exists_placing hfiled hfree
  obtain ⟨json, hjson⟩ := hwritable.exists_json hexSha256 s
  generalize placement hexSha256 s call.request.payload.body = placed at hplacing hjson
  have hrefers : ¬ call.Refused s₁ := by
    obtain ⟨c, hc, -⟩ := h.collection
    rw [Refused, not_not, hplacing.projects, hplacing.collections, hproject, hcollection]
    simp [Sql.refers, h.project, hc]
  have hwrite : (execute (Sql.upsertRequest (call.row placed json))).run ⟨s₁, []⟩ =
      (.ok 1, ⟨call.withRow placed json s₁, []⟩) := by
    rw [run_execute_nil, upsertRequest_row, if_neg hrefers]
  have hrun : (call.program hexSha256).run ⟨s, []⟩ =
      (call.finish placed (call.previous s)).run ⟨call.withRow placed json s₁, []⟩ := by
    rw [run_program hplacing hjson (spared_nil _), List.drop_nil, write,
      Fallible.run_bind_of_ok (by rw [Fallible.run_recover, hwrite])]
  have hfiled' : (call.withRow placed json s₁).Filed hexSha256 := hplacing.filed
  have hcounts (id : String) :
      (call.withRow placed json s₁).refCount id = call.held s placed id := hplacing.counts id
  obtain ⟨s', hfinish, hreleased, hleft⟩ := performs_finish hfiled' hcounts
  have hrequests := (frames_finish call placed (call.previous s)).state
    ⟨call.withRow placed json s₁, []⟩
  rw [hrun]
  constructor
  · refine ⟨call.row placed json, ?_, hproject, hcollection⟩
    rw [hrequests]
    exact find?_written s₁.requests
  · intro hresolves
    obtain ⟨hydrated, hhydrated⟩ := (hreleased.filed.hydrateOutcome_eq_ok_iff
      (call.envelope placed) (placed.blobId call.blobId)).mpr fun id hid =>
        (hleft id).mpr (hresolves id hid)
    rw [hfinish.run_nil, hhydrated]
    rfl

/-! ## The defaults survive -/

/-- In every state of a run whose deletions spare the defaults, the default rows
exist, the default collection belongs to the default project, the default
workspace and the default environment are found, and a request can be saved to
the default collection. -/
theorem defaults_survive {hexSha256 : Bytes → String} (h : ReachedSparing hexSha256 s) :
    s.Defaults ∧
      (∀ faults id, (defaultWorkspace.run ⟨s, faults⟩).1 ≠ .error (.notFound id)) ∧
      (∀ faults id, (defaultEnvironment.run ⟨s, faults⟩).1 ≠ .error (.notFound id)) ∧
      ∀ call : SaveCall, call.Writable → call.DrawsFreeId hexSha256 s →
        call.projectId = "default-project" → call.collectionId = "default-collection" →
        (∃ row, ((call.program hexSha256).run ⟨s, []⟩).2.state.requests.find? call.request.id =
          some row ∧ row.projectId = "default-project" ∧
            row.collectionId = "default-collection") ∧
        (call.Resolves s (placement hexSha256 s call.request.payload.body) →
          ((call.program hexSha256).run ⟨s, []⟩).1.isOk = true) := by
  have hdefaults := (settled_of_reachedSparing h).defaults
  have hreached : Reached hexSha256 s := h.mono fun _ _ _ _ => trivial
  obtain ⟨ws, hws⟩ := Option.isSome_iff_exists.mp hdefaults.workspace
  obtain ⟨env, henv⟩ := Option.isSome_iff_exists.mp hdefaults.environment
  refine ⟨hdefaults, found_ne_notFound hws rfl, found_ne_notFound henv rfl, ?_⟩
  intro call hwritable hfree hproject hcollection
  exact SaveCall.saved_of_defaults hdefaults (filed_of_reached hreached) hwritable hfree hproject
    hcollection

/-- The store after a collection was created. -/
def besideStore : Store :=
  (((Op.createCollectionInModule "a" "t" "default-project" none none "A").program latin1).run
    ⟨openedStore "t", []⟩).2.state

/-- The store after that collection was deleted again. -/
def tidiedStore : Store :=
  (((Op.deleteCollection "a").program latin1).run ⟨besideStore, []⟩).2.state

theorem tidiedStore_defaults : tidiedStore.Defaults := by
  have hreached : ReachedSparing latin1 tidiedStore := by
    refine .step (.step (.start ⟨"t", (initial_eq_openedStore "t").symm⟩) _ [] trivial) _ [] ?_
    have hroot : besideStore.parentOf "default-collection" = none := by decide +kernel
    right
    intro hascends
    rcases hascends.eq_or_parent with heq | ⟨p, hp, -⟩
    · exact absurd heq (by decide)
    · have hlink : besideStore.parentOf "default-collection" = some p := hp
      rw [hroot] at hlink
      cases hlink
  exact (defaults_survive hreached).1

/-- The store after the default collection was moved below another one and that one
was deleted. -/
def nestedDefaultStore : Store :=
  let moved := (Op.updateCollection "default-collection" "Default Collection" (some "a") 0).program
    latin1
  let deleted := (Op.deleteCollection "a").program latin1
  (deleted.run ⟨(moved.run ⟨besideStore, []⟩).2.state, []⟩).2.state

/-- All three operations succeed, and the default collection is gone. -/
theorem default_collection_falls :
    ¬ ∀ s, Fallible.Reachable (Op.program latin1) Fresh (fun _ _ result => result.isOk = true) s →
      s.Defaults := by
  intro hall
  have hdefaults : nestedDefaultStore.Defaults := by
    apply hall
    refine .step (.step (.step (.start ⟨"t", (initial_eq_openedStore "t").symm⟩) _ [] ?_) _ [] ?_)
      _ [] ?_
    · decide +kernel
    · decide +kernel
    · decide +kernel
  obtain ⟨c, hc, -⟩ := hdefaults.collection
  have hgone : nestedDefaultStore.collections.find? "default-collection" = none := by
    decide +kernel
  rw [hgone] at hc
  cases hc

end ApiVoy.LocalStore
