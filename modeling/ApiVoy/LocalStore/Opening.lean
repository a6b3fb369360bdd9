/-
# Opening a store

Opening creates the tables and the rows every store has: a workspace, a project
with its default module, a collection and an environment. The store a new
database starts with is given explicitly.
-/

import ApiVoy.LocalStore.Workspace

namespace ApiVoy.LocalStore

open Foundation Domain

def defaultModuleId (projectId : String) : String :=
  if projectId = "default-project" then "default-module" else "default-module-" ++ projectId

/-- Give every project its default module, and its loose collections to it. -/
def ensureProjectModules (now : Timestamp) : StoreM Unit := do
  let projectIds ← query fun s => s.projects.rows.map ProjectRow.id
  Fallible.each (fun projectId => do
    let _ ← execute (Sql.insertModuleOrIgnore {
      id := defaultModuleId projectId
      projectId
      name := defaultModuleName
      isDefault := true
      createdAt := now })
    let _ ← execute (Sql.backfillModule projectId (defaultModuleId projectId))
    pure ()) projectIds

/-- The rows every store has. -/
def ensureDefaults (now : Timestamp) : StoreM Unit := do
  let _ ← execute (Sql.insertWorkspaceOrIgnore {
    id := "default-workspace"
    name := "Default Workspace"
    rootPath := none
    settings := .obj []
    createdAt := now
    updatedAt := now
    archived := false })
  let _ ← execute (Sql.insertProjectOrIgnore {
    id := "default-project"
    name := "Default Project"
    createdAt := now
    workspaceId := some "default-workspace" })
  ensureProjectModules now
  Fallible.ignore (execute (Sql.backfillWorkspace "default-workspace"))
  let _ ← execute (Sql.insertCollectionOrIgnore {
    id := "default-collection"
    projectId := "default-project"
    moduleId := none
    name := "Default Collection"
    createdAt := now
    parentId := none
    sortOrder := 0
    tags := [] })
  Fallible.ignore (execute (Sql.backfillModule "default-project" "default-module"))
  let _ ← execute (Sql.insertEnvironmentOrIgnore {
    id := "default-env"
    projectId := "default-project"
    name := "Default"
    vars := ∅
    secretRefs := []
    updatedAt := now })
  pure ()

/-- What opening a new database leaves. -/
@[irreducible]
def Store.initial (now : Timestamp) : Store :=
  ((ensureDefaults now).run ⟨Store.empty Schema.current, []⟩).2.state

variable (now : Timestamp)

theorem Store.initial_eq :
    Store.initial now = ((ensureDefaults now).run ⟨Store.empty Schema.current, []⟩).2.state := by
  unfold Store.initial
  rfl

/-! ## The store of a new database -/

/-- The rows of a newly opened store. -/
def openedStore (now : Timestamp) : Store :=
  { Store.empty Schema.current with
    workspaces := .single {
      id := "default-workspace"
      name := "Default Workspace"
      rootPath := none
      settings := .obj []
      createdAt := now
      updatedAt := now
      archived := false }
    projects := .single {
      id := "default-project"
      name := "Default Project"
      createdAt := now
      workspaceId := some "default-workspace" }
    modules := .single {
      id := "default-module"
      projectId := "default-project"
      name := defaultModuleName
      isDefault := true
      createdAt := now }
    collections := .single {
      id := "default-collection"
      projectId := "default-project"
      moduleId := some "default-module"
      name := "Default Collection"
      createdAt := now
      parentId := none
      sortOrder := 0
      tags := [] }
    environments := .single {
      id := "default-env"
      projectId := "default-project"
      name := "Default"
      vars := ∅
      secretRefs := []
      updatedAt := now } }

theorem run_query_nil {α : Type} (read : Store → α) (s : Store) :
    (query read).run ⟨s, []⟩ = (.ok (read s), ⟨s, []⟩) := rfl

theorem run_execute_nil (statement : Store → Option (Store × Nat)) (s : Store) :
    (execute statement).run ⟨s, []⟩ =
      match statement s with
      | some (s', changed) => (.ok changed, ⟨s', []⟩)
      | none => (.error (.sqlite .constraint), ⟨s, []⟩) := by
  rw [execute, Fallible.run_attempt_of_not_struck (by simp)]
  cases statement s <;> rfl

/-- Opening a new database, statement by statement. -/
theorem initial_eq_openedStore : Store.initial now = openedStore now := by
  rw [Store.initial_eq]
  simp [ensureDefaults, ensureProjectModules, Fallible.each, Fallible.run_bind, Fallible.run_map,
    run_execute_nil, run_query_nil, Store.empty, Schema.current, openedStore, Table.single,
    Table.insert?, Table.find?, Table.upsert, Table.updateWhere, Keyed.key, Sql.refers,
    Sql.refersOpt, Sql.insertWorkspaceOrIgnore, Sql.insertProjectOrIgnore, Sql.insertProject,
    Sql.insertModuleOrIgnore, Sql.defaultModuleFree, Sql.insertModule, defaultModuleId,
    Sql.backfillModule, Sql.backfillWorkspace, Sql.insertCollectionOrIgnore, Sql.insertCollection,
    Sql.insertEnvironmentOrIgnore, Sql.upsertEnvironment]

end ApiVoy.LocalStore
