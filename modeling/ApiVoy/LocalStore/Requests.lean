/-
# Stored requests

Saving a request sanitizes it, moves a long body into a blob, writes the row,
gives up the blob of the row it replaced, and returns the request with its body
brought back. Reading brings the body back from the stored envelope.
-/

import ApiVoy.LocalStore.Blobs
import Mathlib.Data.List.Sort

namespace ApiVoy.LocalStore

open Foundation Domain

structure StoredRequest where
  id : String
  projectId : String
  collectionId : String
  name : String
  protocolId : String
  target : String
  envelope : RequestEnvelope
  updatedAt : Timestamp
  bodyBlobId : Option String
  deriving DecidableEq

/-- The row of an envelope whose long body is externalized already. -/
def requestRow (envelope : RequestEnvelope) (json : Json) (projectId collectionId : String)
    (now : Timestamp) (bodyBlobId : Option String) : RequestRow where
  id := envelope.id
  projectId := projectId
  collectionId := collectionId
  name := envelope.name
  protocolId := envelope.protocolId
  target := envelope.target
  envelope := json
  updatedAt := now
  bodyBlobId := bodyBlobId

def saveRequest (hexSha256 : Bytes → String) (blobId : String) (now : Timestamp)
    (request : RequestEnvelope) (projectId collectionId : String) : StoreM StoredRequest := do
  let previousBlobId ← query fun s => (s.requests.find? request.id).bind RequestRow.bodyBlobId
  let (envelope, bodyBlobId) ←
    externalizeHttpBody hexSha256 blobId now request.sanitizedForPersistence
  match envelope.toJson with
  | none => do
    releaseOptional bodyBlobId
    Fallible.fail .serde
  | some json => do
    let _ ← Fallible.recover
      (execute (Sql.upsertRequest
        (requestRow envelope json projectId collectionId now bodyBlobId)))
      fun e => do
        releaseOptional bodyBlobId
        Fallible.fail e
    releaseOptional previousBlobId
    let hydrated ← hydrateHttpBody envelope bodyBlobId
    pure {
      id := hydrated.id
      projectId
      collectionId
      name := hydrated.name
      protocolId := hydrated.protocolId
      target := hydrated.target
      envelope := hydrated
      updatedAt := now
      bodyBlobId }

/-- A row with its envelope read and its body brought back. -/
def loadRequest (row : RequestRow) : StoreM StoredRequest := do
  match RequestEnvelope.ofJson row.envelope with
  | none => Fallible.fail .serde
  | some envelope =>
    let hydrated ← hydrateHttpBody envelope row.bodyBlobId
    pure {
      id := row.id
      projectId := row.projectId
      collectionId := row.collectionId
      name := row.name
      protocolId := row.protocolId
      target := row.target
      envelope := hydrated
      updatedAt := row.updatedAt
      bodyBlobId := row.bodyBlobId }

def getRequest (id : RequestId) : StoreM (Option StoredRequest) := do
  match ← query fun s => s.requests.find? id with
  | none => pure none
  | some row => do
    let stored ← loadRequest row
    pure (some stored)

/-- Newer rows come first. -/
def newestFirst (rows : List RequestRow) : List RequestRow :=
  rows.insertionSort fun a b => textLe b.updatedAt.toList a.updatedAt.toList = true

def loadAll : List RequestRow → StoreM (List StoredRequest)
  | [] => pure []
  | row :: rest => do
    let stored ← loadRequest row
    let others ← loadAll rest
    pure (stored :: others)

/-- All requests, or those of one collection; a single row that cannot be read
fails the whole list. -/
def listRequests (collectionId : Option String) : StoreM (List StoredRequest) := do
  let rows ← query fun s =>
    newestFirst (s.requests.rows.filter fun r =>
      match collectionId with
      | none => true
      | some id => decide (r.collectionId = id))
  loadAll rows

def latestRequest : StoreM (Option StoredRequest) := do
  match ← query fun s => (newestFirst s.requests.rows).head? with
  | none => pure none
  | some row => getRequest row.id

def deleteRequest (id : RequestId) : StoreM Unit := do
  let blobId ← query fun s => (s.requests.find? id).bind RequestRow.bodyBlobId
  let changed ← execute (Sql.deleteRequest id)
  if changed = 0 then Fallible.fail (.notFound id)
  else releaseOptional blobId

def moveRequest (id : RequestId) (projectId collectionId : String) (now : Timestamp) :
    StoreM Unit := do
  let collectionProject ← query fun s => (s.collections.find? collectionId).map
    CollectionRow.projectId
  if collectionProject ≠ some projectId then
    Fallible.fail (.invalidId "target collection does not belong to project")
  else do
    let changed ← execute (Sql.moveRequest id projectId collectionId now)
    if changed = 0 then Fallible.fail (.notFound id) else pure ()

end ApiVoy.LocalStore
