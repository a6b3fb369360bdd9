/-
# Runs of the store

Every operation that changes the store is one constructor, with the ids and the
time it draws as arguments. A run starts from a newly opened store and performs
operations one after another; each may succeed or fail, and each effect of each
may be struck by a failure from outside. Reading changes nothing and is left out.
-/

import ApiVoy.LocalStore.Collections
import ApiVoy.LocalStore.History
import ApiVoy.LocalStore.Opening

namespace ApiVoy.LocalStore

open Foundation Domain

inductive Op where
  | saveWorkspace (ws : WorkspaceRow)
  | createWorkspace (id : String) (now : Timestamp) (name : String) (rootPath : Option String)
  | renameWorkspace (id : String) (now : Timestamp) (name : String)
  | touchWorkspace (id : String) (now : Timestamp)
  | archiveWorkspace (id : String) (now : Timestamp) (archived : Bool)
  | deleteWorkspace (id : String)
  | createProject (id : String) (now : Timestamp) (workspaceId name : String)
  | renameProject (id name : String)
  | deleteProject (id : String)
  | createModule (id : String) (now : Timestamp) (projectId name : String)
  | createCollectionInModule (id : String) (now : Timestamp) (projectId : String)
      (requestedModuleId parentId : Option String) (name : String)
  | updateCollection (id name : String) (parentId : Option String) (sortOrder : Int)
  | updateCollectionTags (id : String) (tags : List String)
  | deleteCollection (id : String)
  | saveRequest (blobId : String) (now : Timestamp) (request : RequestEnvelope)
      (projectId collectionId : String)
  | deleteRequest (id : RequestId)
  | moveRequest (id : RequestId) (projectId collectionId : String) (now : Timestamp)
  | putBlob (blobId : String) (now : Timestamp) (data : Bytes) (contentType : Option String)
  | recordExecution (bodyBlobNew previewBlobNew : String) (now : Timestamp)
      (record : ExecutionRecord)
  | recordWithResponse (responseBlobNew : String) (data : Bytes) (contentType : Option String)
      (bodyBlobNew previewBlobNew : String) (now : Timestamp) (record : ExecutionRecord)
  | saveEnvironment (env : EnvironmentRow)
  | deleteEnvironment (id : String)
  | saveScript (item : ScriptRow)
  | deleteScript (id : String)
  | saveApiDefinition (definition : ApiDefinitionRow)
  | deleteApiDefinition (id : String)
  | bindRequestDefinition (binding : BindingRow)
  | unbindRequestDefinition (requestId : String)

/-- Run an operation for its outcome only. -/
def discard {α : Type} (m : StoreM α) : StoreM Unit := do
  let _ ← m
  pure ()

/-- Store the response of an execution and record the execution with it. -/
def recordWithResponse (hexSha256 : Bytes → String) (responseBlobNew : String) (data : Bytes)
    (contentType : Option String) (bodyBlobNew previewBlobNew : String) (now : Timestamp)
    (record : ExecutionRecord) : StoreM Unit := do
  let blob ← putBlob hexSha256 responseBlobNew now data contentType
  recordExecution hexSha256 bodyBlobNew previewBlobNew now
    { record with responseBlobId := some blob.id }

def Op.program (hexSha256 : Bytes → String) : Op → StoreM Unit
  | .saveWorkspace ws => LocalStore.saveWorkspace ws
  | .createWorkspace id now name rootPath =>
    discard (LocalStore.createWorkspace id now name rootPath)
  | .renameWorkspace id now name => LocalStore.renameWorkspace id now name
  | .touchWorkspace id now => LocalStore.touchWorkspace id now
  | .archiveWorkspace id now archived => LocalStore.archiveWorkspace id now archived
  | .deleteWorkspace id => LocalStore.deleteWorkspace id
  | .createProject id now workspaceId name =>
    discard (LocalStore.createProject id now workspaceId name)
  | .renameProject id name => LocalStore.renameProject id name
  | .deleteProject id => LocalStore.deleteProject id
  | .createModule id now projectId name => discard (LocalStore.createModule id now projectId name)
  | .createCollectionInModule id now projectId requestedModuleId parentId name =>
    discard (LocalStore.createCollectionInModule id now projectId requestedModuleId parentId name)
  | .updateCollection id name parentId sortOrder =>
    LocalStore.updateCollection id name parentId sortOrder
  | .updateCollectionTags id tags => LocalStore.updateCollectionTags id tags
  | .deleteCollection id => LocalStore.deleteCollection id
  | .saveRequest blobId now request projectId collectionId =>
    discard (LocalStore.saveRequest hexSha256 blobId now request projectId collectionId)
  | .deleteRequest id => LocalStore.deleteRequest id
  | .moveRequest id projectId collectionId now =>
    LocalStore.moveRequest id projectId collectionId now
  | .putBlob blobId now data contentType =>
    discard (LocalStore.putBlob hexSha256 blobId now data contentType)
  | .recordExecution bodyBlobNew previewBlobNew now record =>
    LocalStore.recordExecution hexSha256 bodyBlobNew previewBlobNew now record
  | .recordWithResponse responseBlobNew data contentType bodyBlobNew previewBlobNew now record =>
    LocalStore.recordWithResponse hexSha256 responseBlobNew data contentType bodyBlobNew
      previewBlobNew now record
  | .saveEnvironment env => LocalStore.saveEnvironment env
  | .deleteEnvironment id => LocalStore.deleteEnvironment id
  | .saveScript item => LocalStore.saveScript item
  | .deleteScript id => LocalStore.deleteScript id
  | .saveApiDefinition definition => LocalStore.saveApiDefinition definition
  | .deleteApiDefinition id => LocalStore.deleteApiDefinition id
  | .bindRequestDefinition binding => LocalStore.bindRequestDefinition binding
  | .unbindRequestDefinition requestId => LocalStore.unbindRequestDefinition requestId

/-- A newly opened store. -/
def Fresh (s : Store) : Prop := ∃ now, s = Store.initial now

/-- The states of all runs, whatever succeeds or fails in them. -/
abbrev Reached (hexSha256 : Bytes → String) : Store → Prop :=
  Fallible.Reachable (Op.program hexSha256) Fresh fun _ _ _ => True

end ApiVoy.LocalStore
