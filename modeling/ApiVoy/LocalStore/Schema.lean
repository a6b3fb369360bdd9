/-
# The tables of the local store

The store is a set of relational tables and a directory of blob files. Every
statement and every file operation is an effect of its own that may fail by
itself. A statement takes place as a whole: when it violates a constraint, or
when the system fails it, the tables are as they were before it.
-/

import ApiVoy.Domain.RequestJson
import ApiVoy.Foundation.Fallible
import ApiVoy.Foundation.Forest
import ApiVoy.Foundation.Table
import ApiVoy.Foundation.Text
import ApiVoy.Foundation.Utf8

namespace ApiVoy.LocalStore

open Foundation Domain

/-! ## Rows -/

structure WorkspaceRow where
  id : String
  name : String
  rootPath : Option String
  settings : Json
  createdAt : Timestamp
  updatedAt : Timestamp
  archived : Bool
  deriving DecidableEq

structure ProjectRow where
  id : String
  name : String
  createdAt : Timestamp
  workspaceId : Option String
  deriving DecidableEq

structure ModuleRow where
  id : String
  projectId : String
  name : String
  isDefault : Bool
  createdAt : Timestamp
  deriving DecidableEq

structure CollectionRow where
  id : String
  projectId : String
  moduleId : Option String
  name : String
  createdAt : Timestamp
  parentId : Option String
  sortOrder : Int
  tags : List String
  deriving DecidableEq

structure RequestRow where
  id : String
  projectId : String
  collectionId : String
  name : String
  protocolId : String
  target : String
  envelope : Json
  updatedAt : Timestamp
  bodyBlobId : Option String
  deriving DecidableEq

structure ExecutionRow where
  id : String
  requestId : Option String
  protocolId : String
  state : String
  status : Option UInt16
  durationMs : UInt64
  bytesReceived : UInt64
  startedAt : Timestamp
  finishedAt : Timestamp
  requestSnapshot : Option Json
  preview : Option String
  responseBlobId : Option String
  deriving DecidableEq

structure EnvironmentRow where
  id : String
  projectId : String
  name : String
  vars : StringMap
  /-- Names of secrets in the keychain; their values are never stored. -/
  secretRefs : List String
  updatedAt : Timestamp
  deriving DecidableEq

structure ScriptRow where
  id : String
  projectId : String
  name : String
  language : String
  source : String
  createdAt : Timestamp
  updatedAt : Timestamp
  deriving DecidableEq

structure ApiDefinitionRow where
  id : String
  projectId : String
  moduleId : Option String
  name : String
  format : String
  fileName : String
  content : String
  createdAt : Timestamp
  updatedAt : Timestamp
  deriving DecidableEq

structure BindingRow where
  requestId : String
  definitionId : String
  operationRef : Option String
  updatedAt : Timestamp
  deriving DecidableEq

structure BlobRow where
  id : String
  sha256 : String
  sizeBytes : Nat
  contentType : Option String
  relativePath : String
  refCount : Int
  createdAt : Timestamp
  deriving DecidableEq

structure BlobFile where
  path : String
  content : Bytes
  deriving DecidableEq

instance : Keyed WorkspaceRow := ⟨WorkspaceRow.id⟩
instance : Keyed ProjectRow := ⟨ProjectRow.id⟩
instance : Keyed ModuleRow := ⟨ModuleRow.id⟩
instance : Keyed CollectionRow := ⟨CollectionRow.id⟩
instance : Keyed RequestRow := ⟨RequestRow.id⟩
instance : Keyed ExecutionRow := ⟨ExecutionRow.id⟩
instance : Keyed EnvironmentRow := ⟨EnvironmentRow.id⟩
instance : Keyed ScriptRow := ⟨ScriptRow.id⟩
instance : Keyed ApiDefinitionRow := ⟨ApiDefinitionRow.id⟩
instance : Keyed BindingRow := ⟨BindingRow.requestId⟩
instance : Keyed BlobRow := ⟨BlobRow.id⟩
instance : Keyed BlobFile := ⟨BlobFile.path⟩

/-- Which references the schema declares. A database that was created before a
column existed received the column without its reference. -/
structure Schema where
  collectionParent : Bool
  projectWorkspace : Bool
  deriving DecidableEq

/-- The schema of a database created by the present version. -/
def Schema.current : Schema := ⟨true, true⟩

structure Store where
  schema : Schema
  workspaces : Table WorkspaceRow
  projects : Table ProjectRow
  modules : Table ModuleRow
  collections : Table CollectionRow
  requests : Table RequestRow
  executions : Table ExecutionRow
  environments : Table EnvironmentRow
  scripts : Table ScriptRow
  apiDefinitions : Table ApiDefinitionRow
  bindings : Table BindingRow
  blobIndex : Table BlobRow
  files : Table BlobFile
  deriving DecidableEq

/-- A database without rows. -/
def Store.empty (schema : Schema) : Store where
  schema := schema
  workspaces := ∅
  projects := ∅
  modules := ∅
  collections := ∅
  requests := ∅
  executions := ∅
  environments := ∅
  scripts := ∅
  apiDefinitions := ∅
  bindings := ∅
  blobIndex := ∅
  files := ∅

/-! ## Errors and effects -/

inductive SqliteError where
  | failed
  | constraint
  | noRows
  | conversion
  deriving DecidableEq, Repr

inductive IoError where
  | failed
  | missing
  deriving DecidableEq, Repr

inductive StoreError where
  | sqlite (error : SqliteError)
  | serde
  | io (error : IoError)
  | invalidId (message : String)
  | notFound (id : String)
  /-- Not an error of the store: the fuel given to a loop ran out. -/
  | unfinished
  deriving DecidableEq, Repr

abbrev StoreM := Fallible (Scheduled Store) StoreError

def query {α : Type} (read : Store → α) : StoreM α :=
  Fallible.attempt (.sqlite .failed) fun s => (.ok (read s), s)

/-- Change the tables; `none` is a violated constraint. The result is the number
of rows the statement itself changed. -/
def execute (statement : Store → Option (Store × Nat)) : StoreM Nat :=
  Fallible.attempt (.sqlite .failed) fun s =>
    match statement s with
    | some (s', changed) => (.ok changed, s')
    | none => (.error (.sqlite .constraint), s)

/-- Perform a file operation that does not fail by its own rules. -/
def fileEffect (effect : Store → Store) : StoreM Unit :=
  Fallible.attempt (.io .failed) fun s => (.ok (), effect s)

/-- `std::fs::read`. -/
def readFile (path : String) : StoreM Bytes :=
  Fallible.attempt (.io .failed) fun s =>
    match s.files.find? path with
    | some file => (.ok file.content, s)
    | none => (.error (.io .missing), s)

/-- `std::fs::remove_file`. -/
def removeFile (path : String) : StoreM Unit :=
  Fallible.attempt (.io .failed) fun s =>
    match s.files.find? path with
    | some _ => (.ok (), { s with files := s.files.filter fun file => file.path ≠ path })
    | none => (.error (.io .missing), s)

/-- Set the content of a file, creating it if there is none. -/
def Store.writeFile (path : String) (content : Bytes) (s : Store) : Store :=
  { s with
    files := s.files.upsert ⟨path, content⟩ (fun file => { file with content }) fun _ => rfl }

/-- Restore the store when a program fails. -/
def restoring {α : Type} (m : StoreM α) : StoreM α := fun w =>
  match m.run w with
  | (.ok a, w') => (.ok a, w')
  | (.error e, w') => (.error e, ⟨w.state, w'.faults⟩)

/-- Run statements as one transaction: unless all of them and the commit
succeed, the tables are restored. The statements touch no files. -/
def transaction {α : Type} (body : StoreM α) : StoreM α := do
  query fun _ => ()
  restoring do
    let a ← body
    query fun _ => ()
    pure a

/-- One required row of a query, as text columns are read: a missing row and a
value of another type are errors. -/
def requireRow {α : Type} : Option (Option α) → StoreM α
  | none => Fallible.fail (.sqlite .noRows)
  | some none => Fallible.fail (.sqlite .conversion)
  | some (some a) => pure a

end ApiVoy.LocalStore
