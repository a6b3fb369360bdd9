/-
# Every run keeps the forest

The tree of collections is an invariant of all runs, whichever operations succeed
in them and wherever they are interrupted. It follows that no ancestor walk and
no subtree query runs without end.
-/

import ApiVoy.LocalStore.CollectionTree

namespace ApiVoy.LocalStore

open Foundation Domain

variable {s : Store} {id projectId : String}

/-- What the tree depends on. -/
def treeView (s : Store) : Schema × Table CollectionRow := (s.schema, s.collections)

theorem treeView_blobBlind : BlobBlind treeView := ⟨fun _ _ => rfl, fun _ _ => rfl⟩

theorem treeView_leafBlind : LeafBlind treeView :=
  ⟨fun _ _ => rfl, fun _ _ => rfl, fun _ _ => rfl, fun _ _ => rfl, fun _ _ => rfl⟩

theorem Frames.keeps_tree {α : Type} {m : StoreM α} (h : Frames treeView m) :
    Keeps Store.HasTree m :=
  h.keeps fun shown => CollectionTree shown.1 shown.2

/-! ## The ancestor walk -/

theorem readOnly_ancestorStep (cursor : String) :
    ReadOnly (ancestorStep id projectId cursor) := by
  unfold ancestorStep
  split
  · exact .fail _
  · refine .bind (.query _) fun parent => ?_
    cases parent with
    | none => exact .fail _
    | some row =>
      simp only
      split
      · exact .fail _
      · split
        · exact .fail _
        · exact .pure _

theorem readOnly_ancestorWalk (fuel : Nat) (cursor : String) :
    ReadOnly (ancestorWalk id projectId fuel cursor) := by
  induction fuel generalizing cursor with
  | zero => exact .fail _
  | succ fuel ih =>
    refine .bind (readOnly_ancestorStep cursor) fun found => ?_
    obtain ⟨moduleId, next⟩ := found
    cases next with
    | none => exact .pure _
    | some next => exact .bind (ih next) fun _ => .pure _

variable {cursor moduleId : String}

/-- A turn that returns has found a collection of the project other than the one
that moves. -/
theorem returns_ancestorStep {next : Option String}
    (h : Returns (ancestorStep id projectId cursor) s (moduleId, next)) :
    cursor ≠ id ∧ ∃ row, s.collections.find? cursor = some row ∧ row.projectId = projectId ∧
      row.moduleId = some moduleId ∧ row.parentId = next := by
  unfold ancestorStep at h
  split at h
  · exact h.fail.elim
  rename_i hne
  refine ⟨hne, ?_⟩
  obtain ⟨parent, hparent, hrest⟩ := h.bind (.query _)
  have hfind : s.collections.find? cursor = parent := hparent.query.symm
  cases parent with
  | none => exact hrest.fail.elim
  | some row =>
    simp only at hrest
    split at hrest
    · exact hrest.fail.elim
    rename_i found hmodule
    split at hrest
    · exact hrest.fail.elim
    rename_i hproject
    have heq := hrest.pure
    simp only [Prod.mk.injEq] at heq
    exact ⟨row, hfind, by simpa using hproject, by rw [hmodule, heq.1], heq.2.symm⟩

variable {fuel : Nat}

/-- A walk that returns has seen every ancestor of its start, none of which is
the collection that moves. -/
theorem returns_ancestorWalk (h : Returns (ancestorWalk id projectId fuel cursor) s moduleId) :
    (∃ row, s.collections.find? cursor = some row ∧ row.projectId = projectId ∧
      row.moduleId = some moduleId) ∧ ¬ Ascends s.parentOf cursor id := by
  induction fuel generalizing cursor moduleId with
  | zero => exact h.fail.elim
  | succ fuel ih =>
    obtain ⟨⟨found, next⟩, hstep, hrest⟩ := h.bind (readOnly_ancestorStep cursor)
    obtain ⟨hne, row, hrow, hproject, hmodule, hparent⟩ := returns_ancestorStep hstep
    have hlink : s.parentOf cursor = next := by simp [Store.parentOf, hrow, hparent]
    cases next with
    | none =>
      obtain rfl : moduleId = found := hrest.pure
      refine ⟨⟨row, hrow, hproject, hmodule⟩, fun hascends => ?_⟩
      rcases hascends.eq_or_parent with heq | ⟨up, hup, -⟩
      · exact hne heq
      · rw [hlink] at hup
        cases hup
    | some next =>
      obtain ⟨below, hbelow, hdone⟩ := hrest.bind (readOnly_ancestorWalk _ _)
      obtain rfl : moduleId = found := hdone.pure
      refine ⟨⟨row, hrow, hproject, hmodule⟩, fun hascends => ?_⟩
      rcases hascends.eq_or_parent with heq | ⟨up, hup, hrestUp⟩
      · exact hne heq
      · obtain rfl : next = up := by
          rw [hlink] at hup
          simpa using hup
        exact (ih hbelow).2 hrestUp

theorem ends_ancestorStep (cursor : String) : Ends (ancestorStep id projectId cursor) s := by
  unfold ancestorStep
  split
  · exact Ends.fail (by simp)
  · refine (Ends.query _).bind_read (.query _) fun parent _ => ?_
    cases parent with
    | none => exact Ends.fail (by simp)
    | some row =>
      simp only
      split
      · exact Ends.fail (by simp)
      · split
        · exact Ends.fail (by simp)
        · exact Ends.pure _

/-- With fuel for the lineage of its start the walk ends. -/
theorem ends_ancestorWalk {cursor : String} {path : List String}
    (hpath : IsLineage s.parentOf cursor path) (hfuel : path.length ≤ fuel) :
    Ends (ancestorWalk id projectId fuel cursor) s := by
  induction hpath generalizing fuel with
  | @root cursor hnone =>
    cases fuel with
    | zero => simp at hfuel
    | succ fuel =>
      refine (ends_ancestorStep cursor).bind_read (readOnly_ancestorStep cursor)
        fun found hfound => ?_
      obtain ⟨moduleId, next⟩ := found
      obtain ⟨-, row, hrow, -, -, hparent⟩ := returns_ancestorStep hfound
      cases next with
      | none => exact Ends.pure _
      | some next => simp [Store.parentOf, hrow, hparent] at hnone
  | @step cursor up path hsome rest ih =>
    cases fuel with
    | zero => simp at hfuel
    | succ fuel =>
      refine (ends_ancestorStep cursor).bind_read (readOnly_ancestorStep cursor)
        fun found hfound => ?_
      obtain ⟨moduleId, next⟩ := found
      obtain ⟨-, row, hrow, -, -, hparent⟩ := returns_ancestorStep hfound
      cases next with
      | none => exact Ends.pure _
      | some next =>
        obtain rfl : next = up := by
          simpa [Store.parentOf, hrow, hparent] using hsome
        exact (ih (by simpa using hfuel)).bind_read (readOnly_ancestorWalk _ _)
          fun _ _ => Ends.pure _

/-- A walk that ended is not changed by more fuel. -/
theorem ancestorWalk_mono {fuel more : Nat} {cursor : String} {w : Scheduled Store}
    (h : ((ancestorWalk id projectId fuel cursor).run w).1 ≠ .error .unfinished)
    (hle : fuel ≤ more) :
    (ancestorWalk id projectId more cursor).run w =
      (ancestorWalk id projectId fuel cursor).run w := by
  induction fuel generalizing more cursor w with
  | zero => exact absurd rfl h
  | succ fuel ih =>
    obtain ⟨more, rfl⟩ : ∃ m, more = m + 1 := ⟨more - 1, by omega⟩
    simp only [ancestorWalk, Fallible.run_bind] at h ⊢
    rcases hstep : (ancestorStep id projectId cursor).run w with ⟨e | ⟨moduleId, next⟩, w'⟩
    · rfl
    · simp only [hstep] at h ⊢
      cases next with
      | none => rfl
      | some next =>
        exact Fallible.run_bind_congr _ (ih (Fallible.ne_error_of_bind h) (by omega))

/-! ## Operations -/

theorem readOnly_checkParent (parentId : Option String) :
    ReadOnly (checkParent projectId parentId) := by
  cases parentId with
  | none => exact .pure _
  | some parent =>
    apply Frames.bind (.query _)
    intro validParent
    cases validParent with
    | none => exact .fail _
    | some _ => exact .pure _

variable {parentId : Option String}

variable {u : Unit}

/-- A parent that passed the check is a collection of the project. -/
theorem returns_checkParent (h : Returns (checkParent projectId parentId) s u) {p : String}
    (hp : parentId = some p) :
    ∃ row, s.collections.find? p = some row ∧ row.projectId = projectId := by
  subst hp
  obtain ⟨validParent, hquery, hrest⟩ := h.bind (.query _)
  have hvalid := hquery.query
  cases validParent with
  | none => exact hrest.fail.elim
  | some row =>
    have hfilter := Option.filter_eq_some_iff.mp hvalid.symm
    exact ⟨row, hfilter.1, by simpa using hfilter.2⟩

theorem readOnly_moduleOfNewCollection (requestedModuleId parentId : Option String) :
    ReadOnly (moduleOfNewCollection projectId requestedModuleId parentId) := by
  unfold moduleOfNewCollection
  split
  · exact .bind (.query _) fun _ => .requireRow _
  · apply Frames.bind (.query _)
    intro row
    cases row with
    | none => exact .fail _
    | some m => exact .pure _
  · exact .bind (.query _) fun _ => .requireRow _

theorem hasTree_insertCollection {row : CollectionRow} {s' : Store} {n : Nat} (h : s.HasTree)
    (hself : row.parentId ≠ some row.id) (hinsert : Sql.insertCollection row s = some (s', n)) :
    s'.HasTree := by
  obtain ⟨t, ht, rfl, -, hparent⟩ := Sql.insertCollection_eq_some hinsert
  refine CollectionTree.insert h ht hself ?_
  intro p hp
  have hdeclared : s.schema.collectionParent = true := by rw [h.current]; rfl
  simpa [Sql.refersOpt, Sql.refers, hp, hdeclared] using hparent

/-- What a new collection does: its parent and its module have been looked up before its row is
inserted. -/
theorem KeepsFrom.createCollectionInModule {I : Store → Prop} {newId name : String}
    {now : Timestamp} {requestedModuleId parentId : Option String}
    (h : ∀ moduleId sortOrder s' n,
      (∀ p, parentId = some p →
        ∃ row, s.collections.find? p = some row ∧ row.projectId = projectId) →
      Returns (moduleOfNewCollection projectId requestedModuleId parentId) s moduleId → I s →
      Sql.insertCollection ⟨newId, projectId, some moduleId, trim name, now, parentId, sortOrder,
        []⟩ s = some (s', n) → I s') :
    KeepsFrom I s
      (createCollectionInModule newId now projectId requestedModuleId parentId name) := by
  unfold LocalStore.createCollectionInModule
  split
  · exact .of_keeps (.fail _)
  refine .bind_read (readOnly_checkParent parentId) fun _ hparent => ?_
  refine .bind_read (.query _) fun next _ => ?_
  refine .bind_read (.requireRow _) fun sortOrder _ => ?_
  refine .bind_read (readOnly_moduleOfNewCollection _ _) fun moduleId hmodule => ?_
  refine .bind_keeps (.execute ?_) fun _ => .pure _
  intro s' n hs hinsert
  exact h moduleId sortOrder s' n (fun p hp => returns_checkParent hparent hp) hmodule hs hinsert

theorem keeps_createCollectionInModule (newId : String) (now : Timestamp)
    (requestedModuleId parentId : Option String) (name : String) :
    Keeps Store.HasTree
      (createCollectionInModule newId now projectId requestedModuleId parentId name) := by
  refine keeps_of_keepsFrom fun s => .createCollectionInModule ?_
  intro moduleId sortOrder s' n hparent _ hs hinsert
  refine hasTree_insertCollection hs ?_ hinsert
  -- The parent was there before, so its key is not the new one.
  intro hself
  obtain ⟨row, hrow, -⟩ := hparent newId hself
  obtain ⟨t, ht, -⟩ := Sql.insertCollection_eq_some hinsert
  have hfree : s.collections.find? newId = none := (Table.insert?_eq_some_iff.mp ht).1
  rw [hfree] at hrow
  cases hrow

variable {sortOrder : Int} {name : String}

theorem hasTree_updateCollection {s' : Store} {n : Nat} (h : s.HasTree)
    (hsafe : ∀ p, parentId = some p → ¬ Ascends s.parentOf p id)
    (hupdate : Sql.updateCollection id name parentId sortOrder s = some (s', n)) : s'.HasTree := by
  obtain ⟨hrefs, rfl, -⟩ := Sql.updateCollection_eq_some hupdate
  have hdeclared : s.schema.collectionParent = true := by rw [h.current]; rfl
  rcases hrefs with habsent | hparent
  · simp only [Store.HasTree]
    rw [Table.update_of_absent habsent]
    exact h
  · refine CollectionTree.move (f := fun c => { c with name, parentId, sortOrder }) h
      (fun _ => rfl) (fun _ => rfl) ?_ hsafe
    intro p hp
    simpa [Sql.refersOpt, Sql.refers, hp, hdeclared] using hparent

variable {f : CollectionRow → CollectionRow}

variable {hkey : ∀ c, (f c).id = c.id}

theorem hasTree_update (hparent : ∀ c, (f c).parentId = c.parentId) (h : s.HasTree) :
    Store.HasTree { s with collections := s.collections.update id f hkey } :=
  CollectionTree.updateWhere h _ f hkey hparent

theorem hasTree_updateWhere {p : CollectionRow → Bool} (hparent : ∀ c, (f c).parentId = c.parentId)
    (h : s.HasTree) : Store.HasTree { s with collections := s.collections.updateWhere p f hkey } :=
  CollectionTree.updateWhere h p f hkey hparent

theorem hasTree_setModules (h : s.HasTree) (ids : List String) (moduleId : String) :
    (Sql.setModules ids moduleId s).HasTree :=
  hasTree_updateWhere (fun _ => rfl) h

/-- The subtree statement after a move. -/
theorem setSubtreeModule_ok {moduleId : String} {w w' : Scheduled Store}
    (h : (setSubtreeModule id moduleId).run w = (.ok u, w')) :
    ∃ ids, w.state.subtree id = some ids ∧ w'.state = Sql.setModules ids moduleId w.state := by
  obtain ⟨-, haction, -⟩ := Fallible.run_attempt_eq_ok_iff.mp h
  cases hsubtree : w.state.subtree id with
  | none => simp [hsubtree] at haction
  | some ids =>
    simp only [hsubtree, Prod.mk.injEq] at haction
    exact ⟨ids, rfl, haction.2.symm⟩

theorem readOnly_targetModule (sourceModuleId : String) (fuel : Nat) (parentId : Option String) :
    ReadOnly (targetModule id projectId sourceModuleId fuel parentId) := by
  cases parentId with
  | none => exact .pure _
  | some p => exact readOnly_ancestorWalk fuel p

/-- The statements of an update, once the walk has passed. -/
def moveStatements (id name : String) (parentId : Option String) (sortOrder : Int)
    (targetModuleId sourceModuleId : String) : StoreM Unit := do
  let changed ← execute (Sql.updateCollection id name parentId sortOrder)
  if changed = 0 then Fallible.fail (.notFound id)
  else if targetModuleId ≠ sourceModuleId then setSubtreeModule id targetModuleId
  else pure ()

/-- What the statements of an update leave when they succeed. -/
theorem moveStatements_ok {name : String} {parentId : Option String} {sortOrder : Int}
    {targetModuleId sourceModuleId : String} {w w' : Scheduled Store} {u : Unit}
    (h : (moveStatements id name parentId sortOrder targetModuleId sourceModuleId).run w =
      (.ok u, w')) :
    ∃ moved n, Sql.updateCollection id name parentId sortOrder w.state = some (moved, n) ∧
      ((targetModuleId = sourceModuleId ∧ w'.state = moved) ∨
        targetModuleId ≠ sourceModuleId ∧ ∃ ids, moved.subtree id = some ids ∧
          w'.state = Sql.setModules ids targetModuleId moved) := by
  obtain ⟨n, w₁, hexecute, hrest⟩ := Fallible.run_bind_eq_ok_iff.mp h
  refine ⟨w₁.state, n, execute_ok hexecute, ?_⟩
  split at hrest
  · cases hrest
  · split at hrest
    · rename_i hne
      exact Or.inr ⟨hne, setSubtreeModule_ok hrest⟩
    · rename_i hsame
      cases hrest
      exact Or.inl ⟨by simpa using hsame, rfl⟩

/-- What an update of a collection does: the walk up from the new parent has passed before the
row is changed and, where the module changes with it, the modules of the collections below. -/
theorem KeepsFrom.updateCollectionWithin {I : Store → Prop} {fuel : Nat} {name : String}
    {parentId : Option String} {sortOrder : Int}
    (h : ∀ source sourceModuleId targetModuleId moved n s',
      s.collections.find? id = some source → source.moduleId = some sourceModuleId →
      Returns (targetModule id source.projectId sourceModuleId fuel parentId) s targetModuleId →
      I s → Sql.updateCollection id (trim name) parentId (max sortOrder 0) s = some (moved, n) →
      ((targetModuleId = sourceModuleId ∧ s' = moved) ∨
        targetModuleId ≠ sourceModuleId ∧ ∃ ids, moved.subtree id = some ids ∧
          s' = Sql.setModules ids targetModuleId moved) → I s') :
    KeepsFrom I s (updateCollectionWithin fuel id name parentId sortOrder) := by
  unfold LocalStore.updateCollectionWithin
  split
  · exact .of_keeps (.fail _)
  refine .bind_read (.query _) fun found hfound => ?_
  have hsource : s.collections.find? id = found := hfound.query.symm
  cases found with
  | none => exact .of_keeps (.fail _)
  | some source =>
    simp only
    split
    · exact .of_keeps (.fail _)
    rename_i sourceModuleId hmodule
    refine .bind_read (readOnly_targetModule _ _ _) fun targetModuleId htarget => ?_
    refine .transaction fun hs faults a w' hok => ?_
    obtain ⟨moved, n, hupdate, hrest⟩ := moveStatements_ok hok
    exact h source sourceModuleId targetModuleId moved n w'.state hsource hmodule htarget hs
      hupdate hrest

theorem keeps_updateCollectionWithin (fuel : Nat) (name : String) (parentId : Option String)
    (sortOrder : Int) :
    Keeps Store.HasTree (updateCollectionWithin fuel id name parentId sortOrder) := by
  refine keeps_of_keepsFrom fun s => .updateCollectionWithin ?_
  intro source sourceModuleId targetModuleId moved n s' _ _ htarget hs hupdate hrest
  have hmoved : moved.HasTree := by
    refine hasTree_updateCollection hs ?_ hupdate
    intro p hp
    subst hp
    exact (returns_ancestorWalk htarget).2
  rcases hrest with ⟨-, rfl⟩ | ⟨-, ids, -, rfl⟩
  · exact hmoved
  · exact hasTree_setModules hmoved ids targetModuleId

theorem run_updateCollection (name : String) (parentId : Option String) (sortOrder : Int)
    (w : Scheduled Store) :
    (updateCollection id name parentId sortOrder).run w =
      (updateCollectionWithin (w.state.collections.rows.length + 1) id name parentId
        sortOrder).run w := rfl

theorem keeps_updateCollection (name : String) (parentId : Option String) (sortOrder : Int) :
    Keeps Store.HasTree (updateCollection id name parentId sortOrder) := by
  intro w hw
  rw [run_updateCollection]
  exact (keeps_updateCollectionWithin _ name parentId sortOrder).state hw w.faults

/-! ## Views without collections -/

section

variable {τ : Type} {view : Store → τ}

theorem Frames.createCollectionInModule
    (hcollections : ∀ s collections, view { s with collections } = view s) (newId : String)
    (now : Timestamp) (projectId : String) (requestedModuleId parentId : Option String)
    (name : String) :
    Frames view
      (createCollectionInModule newId now projectId requestedModuleId parentId name) := by
  unfold LocalStore.createCollectionInModule
  split
  · exact .fail _
  apply Frames.bind (.of_readOnly (readOnly_checkParent parentId))
  intro _
  apply Frames.bind (.query _)
  intro next
  apply Frames.bind (.requireRow _)
  intro sortOrder
  apply Frames.bind (.of_readOnly (readOnly_moduleOfNewCollection _ _))
  intro moduleId
  refine .bind ?_ fun _ => .pure _
  apply Frames.execute
  intro s s' n hinsert
  obtain ⟨t, -, rfl, -⟩ := Sql.insertCollection_eq_some hinsert
  exact hcollections s t

theorem Frames.moveStatements
    (hcollections : ∀ s collections, view { s with collections } = view s) (id name : String)
    (parentId : Option String) (sortOrder : Int) (targetModuleId sourceModuleId : String) :
    Frames view (moveStatements id name parentId sortOrder targetModuleId sourceModuleId) := by
  apply Frames.bind
  · apply Frames.execute
    intro s s' n hupdate
    obtain ⟨-, rfl, -⟩ := Sql.updateCollection_eq_some hupdate
    exact hcollections s _
  intro changed
  split
  · exact .fail _
  · split
    · intro shown
      apply Keeps.attempt
      intro s hs
      cases s.subtree id with
      | none => exact hs
      | some ids => exact (hcollections s _).trans hs
    · exact .pure _

theorem Frames.updateCollection
    (hcollections : ∀ s collections, view { s with collections } = view s) (id name : String)
    (parentId : Option String) (sortOrder : Int) :
    Frames view (updateCollection id name parentId sortOrder) := by
  have hwithin (fuel : Nat) :
      Frames view (updateCollectionWithin fuel id name parentId sortOrder) := by
    unfold updateCollectionWithin
    split
    · exact .fail _
    apply Frames.bind (.query _)
    intro source
    cases source with
    | none => exact .fail _
    | some row =>
      simp only
      split
      · exact .fail _
      · apply Frames.bind (.of_readOnly (readOnly_targetModule _ _ _))
        intro targetModuleId
        exact .transaction (.moveStatements hcollections _ _ _ _ _ _)
  intro shown w hw
  rw [run_updateCollection]
  exact hwithin _ shown w hw

end

/-! ## Every operation -/

variable (hexSha256 : Bytes → String)

theorem keepsBlobs_hasTree : KeepsBlobs hexSha256 Store.HasTree :=
  treeView_blobBlind.keepsBlobs hexSha256 fun shown => CollectionTree shown.1 shown.2

theorem keeps_updateCollectionTags (tags : List String) :
    Keeps Store.HasTree (updateCollectionTags id tags) := by
  refine Keeps.bind (Keeps.execute_some (fun _ => rfl) fun _ hs =>
    hasTree_update (fun _ => rfl) hs) fun changed => ?_
  exact (Frames.changedOrNotFound _ _).keeps_tree

/-- The view shows neither a leaf table nor the projects, their modules and the collections. -/
structure ForestBlind {τ : Type} (view : Store → τ) : Prop extends LeafBlind view where
  projects : ∀ s projects, view { s with projects } = view s
  modules : ∀ s modules, view { s with modules } = view s
  collections : ∀ s collections, view { s with collections } = view s

/-- The operations on a leaf table, and those that add or change a project, a module or a
collection. -/
def Op.isArranging : Op → Bool
  | .createProject .. | .renameProject .. | .createModule .. | .createCollectionInModule ..
  | .updateCollection .. | .updateCollectionTags .. => true
  | op => op.isLeaf

theorem Frames.arranging {τ : Type} {view : Store → τ} (hview : ForestBlind view)
    (hexSha256 : Bytes → String) (op : Op) (h : op.isArranging = true) :
    Frames view (op.program hexSha256) := by
  cases op with
  | createProject id now workspaceId name =>
    exact (Frames.createProject hview.projects hview.modules _ _ _ _).discard
  | renameProject id name => exact Frames.renameProject hview.projects _ _
  | createModule id now projectId name => exact (Frames.createModule hview.modules _ _ _ _).discard
  | createCollectionInModule id now projectId requestedModuleId parentId name =>
    exact (Frames.createCollectionInModule hview.collections _ _ _ _ _ _).discard
  | updateCollection id name parentId sortOrder =>
    exact Frames.updateCollection hview.collections _ _ _ _
  | updateCollectionTags id tags => exact Frames.updateCollectionTags hview.collections _ _
  | _ => exact Frames.leaf hview.toLeafBlind hexSha256 _ h

/-- The operations that may write collections. -/
def Op.writesCollections : Op → Bool
  | .deleteWorkspace .. | .deleteProject .. | .createCollectionInModule ..
  | .updateCollection .. | .updateCollectionTags .. | .deleteCollection .. => true
  | _ => false

theorem frames_treeView (op : Op) (h : op.writesCollections = false) :
    Frames treeView (op.program hexSha256) := by
  cases op with
  | createProject id now workspaceId name =>
    exact (Frames.createProject (fun _ _ => rfl) (fun _ _ => rfl) id now workspaceId name).discard
  | renameProject id name => exact Frames.renameProject (fun _ _ => rfl) id name
  | createModule id now projectId name =>
    exact (Frames.createModule (fun _ _ => rfl) id now projectId name).discard
  | saveRequest blobId now request projectId collectionId =>
    exact (Frames.saveRequest treeView_blobBlind (fun _ _ => rfl) _ _ _ _ _ _).discard
  | deleteRequest id =>
    exact fun shown => (treeView_blobBlind.keepsBlobs hexSha256 fun t => t = shown).deleteRequest id
      fun _ hs => hs
  | moveRequest id projectId collectionId now =>
    exact Frames.moveRequest (fun _ _ => rfl) id projectId collectionId now
  | putBlob _ _ _ _ | recordExecution _ _ _ _ | recordWithResponse _ _ _ _ _ _ _ =>
    exact Frames.recording treeView_blobBlind (fun _ _ => rfl) hexSha256 _ rfl
  | deleteWorkspace _ | deleteProject _ | createCollectionInModule _ _ _ _ _ _
  | updateCollection _ _ _ _ | updateCollectionTags _ _ | deleteCollection _ => cases h
  | _ => exact Frames.leaf treeView_leafBlind hexSha256 _ rfl

/-- Every operation keeps the tree. -/
theorem keeps_program (op : Op) : Keeps Store.HasTree (op.program hexSha256) := by
  have hblobs := keepsBlobs_hasTree hexSha256
  cases op with
  | deleteWorkspace id =>
    exact hblobs.deleteWorkspace id (fun _ _ hs => Store.HasTree.dropProject hs)
      fun _ _ hs => hs
  | deleteProject id => exact hblobs.deleteProject id fun _ hs => Store.HasTree.dropProject hs
  | createCollectionInModule id now projectId requestedModuleId parentId name =>
    exact (keeps_createCollectionInModule id now requestedModuleId parentId name).discard
  | updateCollection id name parentId sortOrder =>
    exact keeps_updateCollection name parentId sortOrder
  | updateCollectionTags id tags => exact keeps_updateCollectionTags tags
  | deleteCollection id =>
    exact hblobs.deleteCollection id fun _ hs => Store.HasTree.dropCollections hs
  | _ => exact (frames_treeView hexSha256 _ rfl).keeps_tree

/-! ## The initial store -/

theorem hasTree_openedStore (now : Timestamp) : (openedStore now).HasTree := by
  have hroot (c : CollectionRow) (hc : c ∈ (openedStore now).collections.rows) :
      c.parentId = none := by
    rw [List.mem_singleton.mp hc]
  have hlink (a : String) : parentLink (openedStore now).collections a = none := by
    cases hfind : (openedStore now).collections.find? a with
    | none => rw [parentLink, hfind, Option.bind_none]
    | some c => rw [parentLink, hfind, Option.bind_some, hroot c (Table.mem_of_find? hfind)]
  refine ⟨rfl, fun a => .root (hlink a), ?_⟩
  intro a p hp
  rw [hlink] at hp
  cases hp

theorem hasTree_of_reached {hexSha256 : Bytes → String} (h : Reached hexSha256 s) : s.HasTree := by
  refine Fallible.Reachable.invariant ?_ ?_ h
  · rintro s ⟨now, rfl⟩
    rw [initial_eq_openedStore]
    exact hasTree_openedStore now
  · intro s op faults hs _
    exact (keeps_program hexSha256 op).state hs faults

/-! ## Walks and sweeps end -/

theorem ends_targetModule (h : s.HasTree) {sourceModuleId : String}
    (hfuel : s.collections.rows.length + 1 ≤ fuel) (parentId : Option String) :
    Ends (targetModule id projectId sourceModuleId fuel parentId) s := by
  cases parentId with
  | none => exact Ends.pure _
  | some p =>
    obtain ⟨path, hpath⟩ := (h.forest p).exists_lineage
    apply ends_ancestorWalk hpath
    cases hp : s.collections.find? p with
    | none =>
      -- Outside the table there is no link, so the lineage is the start alone.
      have hroot : parentLink s.collections p = none := by simp [parentLink, hp]
      cases hpath with
      | root _ =>
        simp only [List.length_singleton]
        omega
      | step hsome _ => rw [hroot] at hsome; cases hsome
    | some row =>
      have hinside (a : String) (_ : a ∈ s.collections.rows.map CollectionRow.id) (b : String)
          (hb : parentLink s.collections a = some b) :
          b ∈ s.collections.rows.map CollectionRow.id :=
        CollectionTree.mem_ids_iff.mpr (h.inside a b hb)
      have hmem : p ∈ s.collections.rows.map CollectionRow.id :=
        CollectionTree.mem_ids_iff.mpr (by simp [hp])
      have hle := hpath.length_le hinside (h.forest p) hmem
      rw [List.length_map] at hle
      omega

theorem ends_setSubtreeModule (h : s.HasTree) (moduleId : String) :
    Ends (setSubtreeModule id moduleId) s := by
  obtain ⟨ids, hids, -⟩ := h.subtree_eq_some id
  exact Ends.attempt (by simp) (by simp [hids])

theorem ends_moveStatements (h : s.HasTree)
    (hsafe : ∀ p, parentId = some p → ¬ Ascends s.parentOf p id)
    (targetModuleId sourceModuleId : String) :
    Ends (moveStatements id name parentId sortOrder targetModuleId sourceModuleId) s := by
  refine (Ends.execute _).bind fun faults changed w' hexecute => ?_
  have hmoved : w'.state.HasTree := hasTree_updateCollection h hsafe (execute_ok hexecute)
  split
  · exact Ends.fail (by simp)
  · split
    · exact ends_setSubtreeModule hmoved targetModuleId
    · exact Ends.pure _

theorem ends_updateCollectionWithin (h : s.HasTree) (hfuel : s.collections.rows.length + 1 ≤ fuel)
    (name : String) (parentId : Option String) (sortOrder : Int) :
    Ends (updateCollectionWithin fuel id name parentId sortOrder) s := by
  unfold updateCollectionWithin
  split
  · exact Ends.fail (by simp)
  refine (Ends.query _).bind_read (.query _) fun source _ => ?_
  cases source with
  | none => exact Ends.fail (by simp)
  | some row =>
    simp only
    split
    · exact Ends.fail (by simp)
    rename_i sourceModuleId _
    refine (ends_targetModule h hfuel parentId).bind_read (readOnly_targetModule _ _ _)
      fun targetModuleId htarget => ?_
    refine Ends.transaction (ends_moveStatements h ?_ targetModuleId sourceModuleId)
    intro p hp
    subst hp
    exact (returns_ancestorWalk htarget).2

theorem ends_requestBlobIdsForCollectionSubtree (h : s.HasTree) :
    Ends (requestBlobIdsForCollectionSubtree id) s := by
  obtain ⟨ids, hids, -⟩ := h.subtree_eq_some id
  exact Ends.attempt (by simp) (by simp [hids])

theorem ends_deleteCollection (h : s.HasTree) : Ends (deleteCollection id) s := by
  unfold deleteCollection
  split
  · exact Ends.fail (by simp)
  refine (ends_requestBlobIdsForCollectionSubtree h).bind fun _ blobIds w' _ => ?_
  refine (Ends.execute _).bind fun _ changed w'' _ => ?_
  split
  · exact Ends.fail (by simp)
  · exact Ends.each (fun blobId _ => Ends.releaseBlob blobId) blobIds

/-- More fuel than the table has rows changes nothing. -/
theorem updateCollectionWithin_eq (h : s.HasTree) (hfuel : s.collections.rows.length + 1 ≤ fuel)
    (name : String) (parentId : Option String) (sortOrder : Int) (faults : List Bool) :
    (updateCollectionWithin fuel id name parentId sortOrder).run ⟨s, faults⟩ =
      (updateCollection id name parentId sortOrder).run ⟨s, faults⟩ := by
  rw [run_updateCollection]
  unfold updateCollectionWithin
  split
  · rfl
  simp only [Fallible.run_bind]
  rcases hquery : (query fun s => s.collections.find? id).run ⟨s, faults⟩ with ⟨e | source, w₁⟩
  · rfl
  have hstate : w₁.state = s := (query_ok hquery).2
  cases source with
  | none => rfl
  | some row =>
    simp only
    split
    · rfl
    rename_i sourceModuleId _
    simp only [Fallible.run_bind]
    have htarget : (targetModule id row.projectId sourceModuleId fuel parentId).run w₁ =
        (targetModule id row.projectId sourceModuleId (s.collections.rows.length + 1)
          parentId).run w₁ := by
      cases parentId with
      | none => rfl
      | some p =>
        have hends : Ends (targetModule id row.projectId sourceModuleId
            (s.collections.rows.length + 1) (some p)) s :=
          ends_targetModule h (le_refl _) (some p)
        subst hstate
        exact ancestorWalk_mono (hends w₁.faults) hfuel
    rw [htarget]

/-- In every state of every run the parent links of the collections lead to a
root, so the ancestor walk of an update ends after at most one turn for each
collection and one more, the same update results under any larger bound, and the
subtree queries of updates and deletions end. -/
theorem collections_form_forest {hexSha256 : Bytes → String} (h : Reached hexSha256 s) :
    Forest s.parentOf ∧
      (∀ id name parentId sortOrder faults,
        ((updateCollection id name parentId sortOrder).run ⟨s, faults⟩).1 ≠ .error .unfinished ∧
        ∀ fuel, s.collections.rows.length + 1 ≤ fuel →
          (updateCollectionWithin fuel id name parentId sortOrder).run ⟨s, faults⟩ =
            (updateCollection id name parentId sortOrder).run ⟨s, faults⟩) ∧
      (∀ id, ∃ ids, s.subtree id = some ids ∧ ids.Nodup) ∧
      ∀ id faults, ((deleteCollection id).run ⟨s, faults⟩).1 ≠ .error .unfinished := by
  have htree := hasTree_of_reached h
  refine ⟨htree.forest, ?_, ?_, ?_⟩
  · intro id name parentId sortOrder faults
    refine ⟨?_, fun fuel hfuel => updateCollectionWithin_eq htree hfuel _ _ _ _⟩
    rw [run_updateCollection]
    exact ends_updateCollectionWithin htree (le_refl _) name parentId sortOrder faults
  · intro id
    obtain ⟨ids, hids, hnodup, -⟩ := htree.subtree_eq_some id
    exact ⟨ids, hids, hnodup⟩
  · intro id faults
    exact ends_deleteCollection htree faults

/-- The store after a collection was created below the first one. -/
def nestedStore : Store :=
  (((Op.createCollectionInModule "c1" "t" "default-project" none (some "default-collection")
    "Child").program latin1).run ⟨openedStore "t", []⟩).2.state

theorem nestedStore_forest :
    nestedStore.parentOf "c1" = some "default-collection" ∧ Forest nestedStore.parentOf := by
  have hreached : Reached latin1 nestedStore :=
    .step (.start ⟨"t", (initial_eq_openedStore "t").symm⟩) _ [] trivial
  exact ⟨by decide +kernel, (collections_form_forest hreached).1⟩

end ApiVoy.LocalStore
