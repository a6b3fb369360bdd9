/-
# Statements

The statements the store executes, as functions on the tables. Each checks the
constraints it may violate: primary keys, references, the unique digest of a
blob, the one default module of a project. Deletions take the rows along that
refer to the deleted ones and are declared to follow them.
-/

import ApiVoy.LocalStore.Schema

namespace ApiVoy.LocalStore

open Foundation Domain

/-! ## Collection trees -/

/-- The parent a collection row names. -/
def Store.parentOf (s : Store) (id : String) : Option String :=
  (s.collections.find? id).bind CollectionRow.parentId

/-- The collections that name a parent, in table order. -/
def Store.childrenOf (s : Store) (id : String) : List String :=
  (s.collections.rows.filter fun c => c.parentId = some id).map CollectionRow.id

/-- The recursive query for a collection and everything below it. The queue of a
recursive query is first-in first-out and keeps duplicates; `none` when
`rows.length` steps did not empty it. -/
def Store.subtree (s : Store) (id : String) : Option (List String) :=
  sweep s.childrenOf s.collections.rows.length
    (if (s.collections.find? id).isSome then [id] else [])

/-- Deleting the doomed collections takes along every collection below one of
them, where the schema declares the parent reference. -/
def Store.falls (s : Store) (doomed : CollectionRow → Bool) (id : String) : Bool :=
  climbs (if s.schema.collectionParent then s.parentOf else fun _ => none)
    (fun ancestor => (s.collections.find? ancestor).any doomed) s.collections.rows.length id

namespace Sql

/-- Does a row with this key exist? -/
def refers {ρ : Type} [Keyed ρ] (t : Table ρ) (k : String) : Bool := (t.find? k).isSome

/-- A nullable reference that is declared when `declared` holds. -/
def refersOpt {ρ : Type} [Keyed ρ] (declared : Bool) (t : Table ρ) : Option String → Bool
  | none => true
  | some k => !declared || refers t k

/-- One row changed when there is one under the key. -/
def changedAt {ρ : Type} [Keyed ρ] (t : Table ρ) (k : String) : Nat :=
  if (t.find? k).isSome then 1 else 0

/-! ## Workspaces, projects and modules -/

def upsertWorkspace (row : WorkspaceRow) (s : Store) : Option (Store × Nat) :=
  some ({ s with
    workspaces := s.workspaces.upsert row
      (fun old => { old with
        name := row.name
        rootPath := row.rootPath
        settings := row.settings
        updatedAt := row.updatedAt
        archived := row.archived })
      fun _ => rfl }, 1)

def insertWorkspaceOrIgnore (row : WorkspaceRow) (s : Store) : Option (Store × Nat) :=
  match s.workspaces.insert? row with
  | some workspaces => some ({ s with workspaces }, 1)
  | none => some (s, 0)

def updateWorkspace (id : String) (f : WorkspaceRow → WorkspaceRow)
    (hf : ∀ row, (f row).id = row.id) (s : Store) : Option (Store × Nat) :=
  some ({ s with workspaces := s.workspaces.update id f hf }, changedAt s.workspaces id)

/-- A workspace that a project still refers to cannot be deleted. -/
def deleteWorkspace (id : String) (s : Store) : Option (Store × Nat) :=
  if s.schema.projectWorkspace && s.projects.rows.any fun p => p.workspaceId = some id then none
  else some ({ s with workspaces := s.workspaces.filter fun w => w.id ≠ id },
    changedAt s.workspaces id)

def insertProject (row : ProjectRow) (s : Store) : Option (Store × Nat) :=
  if refersOpt s.schema.projectWorkspace s.workspaces row.workspaceId then
    (s.projects.insert? row).map fun projects => ({ s with projects }, 1)
  else none

def insertProjectOrIgnore (row : ProjectRow) (s : Store) : Option (Store × Nat) :=
  match s.projects.find? row.id with
  | some _ => some (s, 0)
  | none => insertProject row s

def updateProject (id : String) (f : ProjectRow → ProjectRow)
    (hf : ∀ row, (f row).id = row.id ∧ (f row).workspaceId = row.workspaceId) (s : Store) :
    Option (Store × Nat) :=
  some ({ s with projects := s.projects.update id f fun row => (hf row).1 },
    changedAt s.projects id)

/-- The projects without a workspace join one. -/
def backfillWorkspace (workspaceId : String) (s : Store) : Option (Store × Nat) :=
  if (s.projects.rows.all fun p => p.workspaceId.isSome) ||
      refersOpt s.schema.projectWorkspace s.workspaces (some workspaceId) then
    some ({ s with
      projects := s.projects.updateWhere (fun p => p.workspaceId.isNone)
        (fun p => { p with workspaceId := some workspaceId }) fun _ => rfl },
      (s.projects.rows.filter fun p => p.workspaceId.isNone).length)
  else none

/-- A project has at most one default module. -/
def defaultModuleFree (row : ModuleRow) (s : Store) : Bool :=
  !row.isDefault || !s.modules.rows.any fun m => m.isDefault && m.projectId = row.projectId

def insertModule (row : ModuleRow) (s : Store) : Option (Store × Nat) :=
  if refers s.projects row.projectId && defaultModuleFree row s then
    (s.modules.insert? row).map fun modules => ({ s with modules }, 1)
  else none

def insertModuleOrIgnore (row : ModuleRow) (s : Store) : Option (Store × Nat) :=
  if (s.modules.find? row.id).isSome || !defaultModuleFree row s then some (s, 0)
  else insertModule row s

/-! ## Collections -/

/-- References are checked on the resulting table, so a row may name itself. -/
def insertCollection (row : CollectionRow) (s : Store) : Option (Store × Nat) :=
  match s.collections.insert? row with
  | none => none
  | some collections =>
    if refers s.projects row.projectId &&
        refersOpt s.schema.collectionParent collections row.parentId then
      some ({ s with collections }, 1)
    else none

def insertCollectionOrIgnore (row : CollectionRow) (s : Store) : Option (Store × Nat) :=
  match s.collections.find? row.id with
  | some _ => some (s, 0)
  | none => insertCollection row s

/-- The collections of a project without a module join one. -/
def backfillModule (projectId moduleId : String) (s : Store) : Option (Store × Nat) :=
  some ({ s with
    collections := s.collections.updateWhere
      (fun c => c.projectId = projectId && c.moduleId.isNone)
      (fun c => { c with moduleId := some moduleId }) fun _ => rfl },
    (s.collections.rows.filter fun c => c.projectId = projectId && c.moduleId.isNone).length)

def updateCollection (id name : String) (parentId : Option String) (sortOrder : Int) (s : Store) :
    Option (Store × Nat) :=
  if (s.collections.find? id).isNone ||
      refersOpt s.schema.collectionParent s.collections parentId then
    some ({ s with
      collections := s.collections.update id
        (fun c => { c with name, parentId, sortOrder }) fun _ => rfl },
      changedAt s.collections id)
  else none

def updateCollectionTags (id : String) (tags : List String) (s : Store) : Option (Store × Nat) :=
  some ({ s with
    collections := s.collections.update id (fun c => { c with tags }) fun _ => rfl },
    changedAt s.collections id)

/-- The modules of a set of collections change together. -/
def setModules (ids : List String) (moduleId : String) (s : Store) : Store :=
  { s with
    collections := s.collections.updateWhere (fun c => decide (c.id ∈ ids))
      (fun c => { c with moduleId := some moduleId }) fun _ => rfl }

/-! ## Requests and what refers to them -/

def upsertRequest (row : RequestRow) (s : Store) : Option (Store × Nat) :=
  if refers s.projects row.projectId && refers s.collections row.collectionId then
    some ({ s with
      requests := s.requests.upsert row (fun old => { row with id := old.id }) fun _ => rfl }, 1)
  else none

def moveRequest (id projectId collectionId : String) (updatedAt : Timestamp) (s : Store) :
    Option (Store × Nat) :=
  if (s.requests.find? id).isNone ||
      (refers s.projects projectId && refers s.collections collectionId) then
    some ({ s with
      requests := s.requests.update id
        (fun r => { r with projectId, collectionId, updatedAt }) fun _ => rfl },
      changedAt s.requests id)
  else none

/-- Requests go together with their bindings. -/
def dropRequests (gone : RequestRow → Bool) (s : Store) : Store :=
  { s with
    requests := s.requests.filter fun r => !gone r
    bindings := s.bindings.filter fun b => !(s.requests.find? b.requestId).any gone }

def deleteRequest (id : String) (s : Store) : Option (Store × Nat) :=
  some (dropRequests (fun r => r.id = id) s, changedAt s.requests id)

/-- Collections go together with everything below them and with the requests in
them. -/
def dropCollections (doomed : CollectionRow → Bool) (s : Store) : Store :=
  dropRequests (fun r => s.falls doomed r.collectionId)
    { s with collections := s.collections.filter fun c => !s.falls doomed c.id }

def deleteCollection (id : String) (s : Store) : Option (Store × Nat) :=
  some (dropCollections (fun c => c.id = id) s, changedAt s.collections id)

/-! ## The other rows of a project -/

def upsertEnvironment (row : EnvironmentRow) (s : Store) : Option (Store × Nat) :=
  if refers s.projects row.projectId then
    some ({ s with
      environments := s.environments.upsert row (fun old => { row with id := old.id })
        fun _ => rfl }, 1)
  else none

def insertEnvironmentOrIgnore (row : EnvironmentRow) (s : Store) : Option (Store × Nat) :=
  match s.environments.find? row.id with
  | some _ => some (s, 0)
  | none => upsertEnvironment row s

def deleteEnvironment (id : String) (s : Store) : Option (Store × Nat) :=
  some ({ s with environments := s.environments.filter fun e => e.id ≠ id },
    changedAt s.environments id)

/-- Only the two script languages pass the check of the table. -/
def upsertScript (row : ScriptRow) (s : Store) : Option (Store × Nat) :=
  if refers s.projects row.projectId && decide (row.language ∈ ["javascript", "typescript"]) then
    some ({ s with
      scripts := s.scripts.upsert row
        (fun old => { row with id := old.id, createdAt := old.createdAt }) fun _ => rfl }, 1)
  else none

def deleteScript (id : String) (s : Store) : Option (Store × Nat) :=
  some ({ s with scripts := s.scripts.filter fun r => r.id ≠ id }, changedAt s.scripts id)

def upsertApiDefinition (row : ApiDefinitionRow) (s : Store) : Option (Store × Nat) :=
  if refers s.projects row.projectId && refersOpt true s.modules row.moduleId then
    some ({ s with
      apiDefinitions := s.apiDefinitions.upsert row
        (fun old => { row with id := old.id, createdAt := old.createdAt }) fun _ => rfl }, 1)
  else none

/-- Definitions go together with the bindings to them. -/
def dropApiDefinitions (gone : ApiDefinitionRow → Bool) (s : Store) : Store :=
  { s with
    apiDefinitions := s.apiDefinitions.filter fun d => !gone d
    bindings := s.bindings.filter fun b => !(s.apiDefinitions.find? b.definitionId).any gone }

def deleteApiDefinition (id : String) (s : Store) : Option (Store × Nat) :=
  some (dropApiDefinitions (fun d => d.id = id) s, changedAt s.apiDefinitions id)

def upsertBinding (row : BindingRow) (s : Store) : Option (Store × Nat) :=
  if refers s.requests row.requestId && refers s.apiDefinitions row.definitionId then
    some ({ s with
      bindings := s.bindings.upsert row (fun old => { row with requestId := old.requestId })
        fun _ => rfl }, 1)
  else none

def deleteBinding (requestId : String) (s : Store) : Option (Store × Nat) :=
  some ({ s with bindings := s.bindings.filter fun b => b.requestId ≠ requestId },
    changedAt s.bindings requestId)

/-- Modules go; the definitions of other projects that named one lose it. -/
def dropModules (gone : ModuleRow → Bool) (s : Store) : Store :=
  { s with
    modules := s.modules.filter fun m => !gone m
    apiDefinitions := s.apiDefinitions.updateWhere
      (fun d => (d.moduleId.bind s.modules.find?).any gone)
      (fun d => { d with moduleId := none }) fun _ => rfl }

/-- A project goes together with everything that belongs to it. -/
def dropProject (id : String) (s : Store) : Store :=
  let s := dropCollections (fun c => c.projectId = id) s
  let s := dropRequests (fun r => r.projectId = id) s
  let s := dropApiDefinitions (fun d => d.projectId = id) s
  let s := dropModules (fun m => m.projectId = id) s
  { s with
    environments := s.environments.filter fun e => e.projectId ≠ id
    scripts := s.scripts.filter fun r => r.projectId ≠ id
    projects := s.projects.filter fun p => p.id ≠ id }

def deleteProject (id : String) (s : Store) : Option (Store × Nat) :=
  some (dropProject id s, changedAt s.projects id)

/-! ## Executions and blobs -/

def insertExecution (row : ExecutionRow) (s : Store) : Option (Store × Nat) :=
  (s.executions.insert? row).map fun executions => ({ s with executions }, 1)

/-- The digest of a blob is unique. -/
def insertBlob (row : BlobRow) (s : Store) : Option (Store × Nat) :=
  if s.blobIndex.rows.any fun b => b.sha256 = row.sha256 then none
  else (s.blobIndex.insert? row).map fun blobIndex => ({ s with blobIndex }, 1)

def addToRefCount (id : String) (delta : Int) (s : Store) : Option (Store × Nat) :=
  some ({ s with
    blobIndex := s.blobIndex.update id (fun b => { b with refCount := b.refCount + delta })
      fun _ => rfl }, changedAt s.blobIndex id)

def deleteBlob (id : String) (s : Store) : Option (Store × Nat) :=
  some ({ s with blobIndex := s.blobIndex.filter fun b => b.id ≠ id }, changedAt s.blobIndex id)

/-! ## What a statement that took place says -/

variable {s s' : Store} {n : Nat}

theorem insertProject_eq_some {row : ProjectRow} (h : insertProject row s = some (s', n)) :
    ∃ t, s.projects.insert? row = some t ∧ s' = { s with projects := t } ∧
      refersOpt s.schema.projectWorkspace s.workspaces row.workspaceId = true := by
  unfold insertProject at h
  split at h
  · rename_i hrefs
    obtain ⟨t, ht, heq⟩ := Option.map_eq_some_iff.mp h
    cases heq
    exact ⟨t, ht, rfl, hrefs⟩
  · cases h

theorem insertModule_eq_some {row : ModuleRow} (h : insertModule row s = some (s', n)) :
    ∃ t, s.modules.insert? row = some t ∧ s' = { s with modules := t } ∧
      refers s.projects row.projectId = true := by
  unfold insertModule at h
  split at h
  · rename_i hrefs
    obtain ⟨t, ht, heq⟩ := Option.map_eq_some_iff.mp h
    cases heq
    exact ⟨t, ht, rfl, (Bool.and_eq_true _ _ ▸ hrefs).1⟩
  · cases h

theorem deleteWorkspace_eq_some {id : String} (h : deleteWorkspace id s = some (s', n)) :
    s' = { s with workspaces := s.workspaces.filter fun w => w.id ≠ id } ∧
      n = changedAt s.workspaces id := by
  unfold deleteWorkspace at h
  split at h
  · cases h
  · cases h
    exact ⟨rfl, rfl⟩

theorem insertCollection_eq_some {row : CollectionRow} (h : insertCollection row s = some (s', n)) :
    ∃ t, s.collections.insert? row = some t ∧ s' = { s with collections := t } ∧
      refers s.projects row.projectId = true ∧
      refersOpt s.schema.collectionParent t row.parentId = true := by
  unfold insertCollection at h
  cases hinsert : s.collections.insert? row with
  | none => simp [hinsert] at h
  | some t =>
    simp only [hinsert] at h
    split at h
    · rename_i hrefs
      cases h
      exact ⟨t, rfl, rfl, by simpa using hrefs⟩
    · cases h

theorem updateCollection_eq_some {id name : String} {parentId : Option String} {sortOrder : Int}
    (h : updateCollection id name parentId sortOrder s = some (s', n)) :
    (s.collections.find? id = none ∨
      refersOpt s.schema.collectionParent s.collections parentId = true) ∧
    s' = { s with
      collections := s.collections.update id (fun c => { c with name, parentId, sortOrder })
        fun _ => rfl } ∧
    n = changedAt s.collections id := by
  unfold updateCollection at h
  split at h
  · rename_i hrefs
    cases h
    exact ⟨by simpa using hrefs, rfl, rfl⟩
  · cases h

theorem upsertRequest_eq_some {row : RequestRow} (h : upsertRequest row s = some (s', n)) :
    refers s.projects row.projectId = true ∧ refers s.collections row.collectionId = true ∧
      s' = { s with
        requests := s.requests.upsert row (fun old => { row with id := old.id }) fun _ => rfl } := by
  unfold upsertRequest at h
  split at h
  · rename_i hrefs
    cases h
    exact ⟨(Bool.and_eq_true _ _ ▸ hrefs).1, (Bool.and_eq_true _ _ ▸ hrefs).2, rfl⟩
  · cases h

theorem moveRequest_eq_some {id projectId collectionId : String} {updatedAt : Timestamp}
    (h : moveRequest id projectId collectionId updatedAt s = some (s', n)) :
    (s.requests.find? id = none ∨
      refers s.projects projectId = true ∧ refers s.collections collectionId = true) ∧
    s' = { s with
      requests := s.requests.update id (fun r => { r with projectId, collectionId, updatedAt })
        fun _ => rfl } ∧
    n = changedAt s.requests id := by
  unfold moveRequest at h
  split at h
  · rename_i hrefs
    cases h
    exact ⟨by simpa using hrefs, rfl, rfl⟩
  · cases h

theorem insertExecution_eq_some {row : ExecutionRow} (h : insertExecution row s = some (s', n)) :
    ∃ t, s.executions.insert? row = some t ∧ s' = { s with executions := t } := by
  obtain ⟨t, ht, heq⟩ := Option.map_eq_some_iff.mp h
  cases heq
  exact ⟨t, ht, rfl⟩

theorem insertBlob_eq_some {row : BlobRow} (h : insertBlob row s = some (s', n)) :
    (∀ b ∈ s.blobIndex.rows, b.sha256 ≠ row.sha256) ∧
      ∃ t, s.blobIndex.insert? row = some t ∧ s' = { s with blobIndex := t } := by
  unfold insertBlob at h
  split at h
  · cases h
  · rename_i hunique
    obtain ⟨t, ht, heq⟩ := Option.map_eq_some_iff.mp h
    cases heq
    exact ⟨by simpa using hunique, t, ht, rfl⟩

end Sql

end ApiVoy.LocalStore
