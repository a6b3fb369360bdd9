/-
# The collection tree

Collections form a tree inside a module of a project. A new collection goes
below a parent of the same project, or to the top of a module; an update may
re-parent a collection, which takes everything below it into the module of the
new parent; a deletion takes everything below a collection along.
-/

import ApiVoy.LocalStore.Workspace

namespace ApiVoy.LocalStore

open Foundation Domain

/-- One more than the largest sort order among the siblings, when that still is
an integer of the database. -/
def nextSortOrder (projectId : String) (parentId : Option String) (s : Store) : Option Int :=
  let siblings := s.collections.rows.filter fun c =>
    c.projectId = projectId && c.parentId = parentId
  match siblings.map CollectionRow.sortOrder with
  | [] => some 0
  | order :: orders =>
    let next := orders.foldl max order + 1
    if next < 2 ^ 63 then some next else none

/-- Is the parent, when one is given, a collection of the project? -/
def checkParent (projectId : String) : Option String → StoreM Unit
  | none => pure ()
  | some parent => do
    let validParent ← query fun s =>
      (s.collections.find? parent).filter fun c => c.projectId = projectId
    match validParent with
    | none => Fallible.fail (.notFound parent)
    | some _ => pure ()

/-- The module of a new collection: its parent's, else the requested one, else
the default module of the project. -/
def moduleOfNewCollection (projectId : String) (requestedModuleId parentId : Option String) :
    StoreM String :=
  match parentId, requestedModuleId with
  | some parent, _ => do
    let row ← query fun s =>
      ((s.collections.find? parent).filter fun c => c.projectId = projectId).map
        CollectionRow.moduleId
    requireRow row
  | none, some moduleId => do
    let row ← query fun s =>
      (s.modules.find? moduleId).filter fun m => m.projectId = projectId
    match row with
    | none => Fallible.fail (.notFound moduleId)
    | some m => pure m.id
  | none, none => do
    let row ← query fun s =>
      s.modules.rows.find? fun m => m.projectId = projectId && m.isDefault
    requireRow (row.map fun m => some m.id)

def createCollectionInModule (id : String) (now : Timestamp) (projectId : String)
    (requestedModuleId parentId : Option String) (name : String) : StoreM CollectionRow :=
  if trim name = "" then Fallible.fail (.invalidId "collection name is required")
  else do
    checkParent projectId parentId
    let next ← query fun s => some (nextSortOrder projectId parentId s)
    let sortOrder ← requireRow next
    let moduleId ← moduleOfNewCollection projectId requestedModuleId parentId
    let row : CollectionRow := {
      id, projectId
      moduleId := some moduleId
      name := trim name
      createdAt := now
      parentId, sortOrder
      tags := [] }
    let _ ← execute (Sql.insertCollection row)
    pure row

/-- One turn of the ancestor walk. It fails at the collection itself, at a
missing row and at a foreign project; otherwise it returns the module of the
collection and its parent. -/
def ancestorStep (id projectId cursor : String) : StoreM (String × Option String) :=
  if cursor = id then Fallible.fail (.invalidId "collection cycle is not allowed")
  else do
    let parent ← query fun s => s.collections.find? cursor
    match parent with
    | none => Fallible.fail (.notFound cursor)
    | some row =>
      match row.moduleId with
      | none => Fallible.fail (.sqlite .conversion)
      | some moduleId =>
        if row.projectId ≠ projectId then
          Fallible.fail (.invalidId "parent must belong to the same project")
        else pure (moduleId, row.parentId)

/-- Walk from a proposed parent to the root of its tree. The result is the module
of the collection the walk started at. -/
def ancestorWalk (id projectId : String) : Nat → String → StoreM String
  | 0, _ => Fallible.fail .unfinished
  | fuel + 1, cursor => do
    let (moduleId, next) ← ancestorStep id projectId cursor
    match next with
    | none => pure moduleId
    | some next => do
      let _ ← ancestorWalk id projectId fuel next
      pure moduleId

/-- The module a collection belongs to after an update of its parent. -/
def targetModule (id projectId sourceModuleId : String) (fuel : Nat) :
    Option String → StoreM String
  | none => pure sourceModuleId
  | some parentId => ancestorWalk id projectId fuel parentId

/-- The recursive update of the module of a whole subtree. -/
def setSubtreeModule (id moduleId : String) : StoreM Unit :=
  Fallible.attempt (.sqlite .failed) fun s =>
    match s.subtree id with
    | none => (.error .unfinished, s)
    | some ids => (.ok (), Sql.setModules ids moduleId s)

/-- `fuel` bounds the ancestor walk. -/
def updateCollectionWithin (fuel : Nat) (id name : String) (parentId : Option String)
    (sortOrder : Int) : StoreM Unit :=
  if trim name = "" ∨ parentId = some id then
    Fallible.fail (.invalidId "invalid collection name or parent")
  else do
    let source ← query fun s => s.collections.find? id
    match source with
    | none => Fallible.fail (.notFound id)
    | some row =>
      match row.moduleId with
      | none => Fallible.fail (.sqlite .conversion)
      | some sourceModuleId => do
        let targetModuleId ← targetModule id row.projectId sourceModuleId fuel parentId
        transaction do
          let changed ← execute (Sql.updateCollection id (trim name) parentId (max sortOrder 0))
          if changed = 0 then Fallible.fail (.notFound id)
          else if targetModuleId ≠ sourceModuleId then setSubtreeModule id targetModuleId
          else pure ()

/-- The loop of the source has no bound; it visits each collection at most once. -/
def updateCollection (id name : String) (parentId : Option String) (sortOrder : Int) :
    StoreM Unit := fun w =>
  (updateCollectionWithin (w.state.collections.rows.length + 1) id name parentId sortOrder).run w

def updateCollectionTags (id : String) (tags : List String) : StoreM Unit := do
  let tags := (tags.map trim).filter fun tag => tag ≠ ""
  let changed ← execute (Sql.updateCollectionTags id tags)
  changedOrNotFound id changed

def requestBlobIdsForCollectionSubtree (collectionId : String) : StoreM (List String) :=
  Fallible.attempt (.sqlite .failed) fun s =>
    match s.subtree collectionId with
    | none => (.error .unfinished, s)
    | some ids =>
      (.ok (s.requests.rows.flatMap fun r =>
        (ids.filter fun id => id = r.collectionId).filterMap fun _ => r.bodyBlobId), s)

def deleteCollection (id : String) : StoreM Unit :=
  if id = "default-collection" then
    Fallible.fail (.invalidId "default collection cannot be deleted")
  else do
    let blobIds ← requestBlobIdsForCollectionSubtree id
    let changed ← execute (Sql.deleteCollection id)
    if changed = 0 then Fallible.fail (.notFound id)
    else Fallible.each releaseBlob blobIds

end ApiVoy.LocalStore
