/-
# Workspaces, projects and the resources of a project

The operations above and beside the collection tree: workspaces and the projects
in them, modules, environments, scripts, interface definitions and the requests
bound to them.
-/

import ApiVoy.LocalStore.Requests

namespace ApiVoy.LocalStore

open Foundation Domain

/-- Fail when a statement changed no row. -/
def changedOrNotFound (id : String) (changed : Nat) : StoreM Unit :=
  if changed = 0 then Fallible.fail (.notFound id) else pure ()

/-! ## Workspaces -/

def getWorkspace (id : String) : StoreM (Option WorkspaceRow) :=
  query fun s => s.workspaces.find? id

def defaultWorkspace : StoreM WorkspaceRow := do
  match ← getWorkspace "default-workspace" with
  | some ws => pure ws
  | none => Fallible.fail (.notFound "default-workspace")

def saveWorkspace (ws : WorkspaceRow) : StoreM Unit := do
  let _ ← execute (Sql.upsertWorkspace ws)
  pure ()

def createWorkspace (id : String) (now : Timestamp) (name : String) (rootPath : Option String) :
    StoreM WorkspaceRow := do
  let name := trim name
  if name = "" then Fallible.fail (.invalidId "workspace name is required")
  else do
    let row : WorkspaceRow := {
      id, name, rootPath
      settings := .obj []
      createdAt := now
      updatedAt := now
      archived := false }
    saveWorkspace row
    pure row

def renameWorkspace (id : String) (now : Timestamp) (name : String) : StoreM Unit := do
  let name := trim name
  if name = "" then Fallible.fail (.invalidId "workspace name is required")
  else do
    let changed ← execute (Sql.updateWorkspace id
      (fun row => { row with name, updatedAt := now }) fun _ => rfl)
    changedOrNotFound id changed

def touchWorkspace (id : String) (now : Timestamp) : StoreM Unit := do
  let changed ← execute (Sql.updateWorkspace id
    (fun row => { row with updatedAt := now }) fun _ => rfl)
  changedOrNotFound id changed

def archiveWorkspace (id : String) (now : Timestamp) (archived : Bool) : StoreM Unit :=
  if id = "default-workspace" ∧ archived = true then
    Fallible.fail (.invalidId "default workspace cannot be archived")
  else do
    let changed ← execute (Sql.updateWorkspace id
      (fun row => { row with archived, updatedAt := now }) fun _ => rfl)
    changedOrNotFound id changed

/-! ## Projects -/

/-- Older projects come first. -/
def listProjects (workspaceId : String) : StoreM (List ProjectRow) :=
  query fun s =>
    (s.projects.rows.filter fun p => p.workspaceId = some workspaceId).insertionSort fun a b =>
      (if a.createdAt = b.createdAt then textLe a.name.toList b.name.toList
        else textLe a.createdAt.toList b.createdAt.toList) = true

def requestBlobIdsForProject (projectId : String) : StoreM (List String) :=
  query fun s =>
    (s.requests.rows.filter fun r => r.projectId = projectId).filterMap RequestRow.bodyBlobId

def defaultModuleName : String := "默认模块"

def createProject (id : String) (now : Timestamp) (workspaceId name : String) :
    StoreM ProjectRow := do
  match ← getWorkspace workspaceId with
  | none => Fallible.fail (.notFound workspaceId)
  | some _ =>
    let row : ProjectRow := {
      id
      name := trim name
      createdAt := now
      workspaceId := some workspaceId }
    if row.name = "" then Fallible.fail (.invalidId "project name is required")
    else do
      let _ ← execute (Sql.insertProject row)
      let _ ← execute (Sql.insertModule {
        id := "default-module-" ++ id
        projectId := id
        name := defaultModuleName
        isDefault := true
        createdAt := now })
      pure row

def renameProject (id name : String) : StoreM Unit :=
  if trim name = "" then Fallible.fail (.invalidId "project name is required")
  else do
    let changed ← execute (Sql.updateProject id
      (fun row => { row with name := trim name }) fun _ => ⟨rfl, rfl⟩)
    changedOrNotFound id changed

def deleteProject (id : String) : StoreM Unit :=
  if id = "default-project" then
    Fallible.fail (.invalidId "default project cannot be deleted")
  else do
    let blobIds ← requestBlobIdsForProject id
    let changed ← execute (Sql.deleteProject id)
    if changed = 0 then Fallible.fail (.notFound id)
    else Fallible.each releaseBlob blobIds

def deleteWorkspace (id : String) : StoreM Unit :=
  if id = "default-workspace" then
    Fallible.fail (.invalidId "default workspace cannot be deleted")
  else do
    let projects ← listProjects id
    Fallible.each (fun p : ProjectRow => deleteProject p.id) projects
    let changed ← execute (Sql.deleteWorkspace id)
    changedOrNotFound id changed

def createModule (id : String) (now : Timestamp) (projectId name : String) :
    StoreM ModuleRow :=
  if trim name = "" then Fallible.fail (.invalidId "module name is required")
  else do
    let row : ModuleRow := {
      id, projectId
      name := trim name
      isDefault := false
      createdAt := now }
    let _ ← execute (Sql.insertModule row)
    pure row

/-! ## Environments -/

def saveEnvironment (env : EnvironmentRow) : StoreM Unit := do
  let _ ← execute (Sql.upsertEnvironment env)
  pure ()

def getEnvironment (id : String) : StoreM (Option EnvironmentRow) :=
  query fun s => s.environments.find? id

def deleteEnvironment (id : String) : StoreM Unit :=
  if id = "default-env" then Fallible.fail (.invalidId "default-env cannot be deleted")
  else do
    let _ ← execute (Sql.deleteEnvironment id)
    pure ()

def defaultEnvironment : StoreM EnvironmentRow := do
  match ← getEnvironment "default-env" with
  | some env => pure env
  | none => Fallible.fail (.notFound "default-env")

/-! ## Scripts and interface definitions -/

def saveScript (item : ScriptRow) : StoreM Unit := do
  let _ ← execute (Sql.upsertScript item)
  pure ()

def deleteScript (id : String) : StoreM Unit := do
  let _ ← execute (Sql.deleteScript id)
  pure ()

def saveApiDefinition (definition : ApiDefinitionRow) : StoreM Unit := do
  let _ ← execute (Sql.upsertApiDefinition definition)
  pure ()

def deleteApiDefinition (id : String) : StoreM Unit := do
  let changed ← execute (Sql.deleteApiDefinition id)
  changedOrNotFound id changed

def bindRequestDefinition (binding : BindingRow) : StoreM Unit := do
  let _ ← execute (Sql.upsertBinding binding)
  pure ()

def unbindRequestDefinition (requestId : String) : StoreM Unit := do
  let _ ← execute (Sql.deleteBinding requestId)
  pure ()

end ApiVoy.LocalStore
