/-
# Execution history

An execution is recorded once, with a snapshot of the request that was sent and
a preview of the response. Long bodies and previews become blobs; a reference
to a stored response may also be handed in.
-/

import ApiVoy.LocalStore.Requests

namespace ApiVoy.LocalStore

open Foundation Domain

structure ExecutionRecord where
  id : String
  requestId : String
  protocolId : String
  state : String
  status : Option UInt16
  durationMs : UInt64
  bytesReceived : UInt64
  startedAt : Timestamp
  finishedAt : Timestamp
  /-- The request at send time, for replay. -/
  requestSnapshot : Option RequestEnvelope
  preview : Option String
  responseBlobId : Option String
  deriving DecidableEq

structure ExecutionFilter where
  requestId : Option String
  state : Option String
  protocolId : Option String
  status : Option UInt16

/-- How much of a preview stays in its row once the whole is in a blob. -/
def previewChars : Nat := 4096

/-- The snapshot as it is stored, with a long body in a blob. -/
def externalizeSnapshot (hexSha256 : Bytes → String) (blobId : String) (now : Timestamp) :
    Option RequestEnvelope → StoreM (Option RequestEnvelope × Option String)
  | none => pure (none, none)
  | some request => do
    let (envelope, bodyBlobId) ←
      externalizeHttpBody hexSha256 blobId now request.sanitizedForPersistence
    pure (some envelope, bodyBlobId)

/-- The serialized snapshot; the outer `none` is a snapshot that cannot be
serialized. -/
def snapshotJson : Option RequestEnvelope → Option (Option Json)
  | none => some none
  | some envelope => envelope.toJson.map some

/-- Move a long preview into a blob, unless a response blob was handed in. -/
def externalizePreview (hexSha256 : Bytes → String) (blobId : String) (now : Timestamp)
    (bodyBlobId : Option String) (preview : Option String) (responseBlobId : Option String) :
    StoreM (Option String × Option String) :=
  match responseBlobId, preview with
  | none, some p =>
    if (utf8 p).length ≤ blobThresholdBytes then pure (preview, none)
    else do
      let blob ← Fallible.recover
        (putBlob hexSha256 blobId now (utf8 p) (some "text/plain")) fun e => do
          releaseOptional bodyBlobId
          Fallible.fail e
      pure (some (String.ofList (p.toList.take previewChars)), some blob.id)
  | _, _ => pure (preview, responseBlobId)

/-- The row of a record whose long texts are externalized already. -/
def executionRow (record : ExecutionRecord) (snapshot : Option Json) (preview : Option String)
    (responseBlobId : Option String) : ExecutionRow where
  id := record.id
  requestId := some record.requestId
  protocolId := record.protocolId
  state := record.state
  status := record.status
  durationMs := record.durationMs
  bytesReceived := record.bytesReceived
  startedAt := record.startedAt
  finishedAt := record.finishedAt
  requestSnapshot := snapshot
  preview := preview
  responseBlobId := responseBlobId

/-- `bodyBlobNew` and `previewBlobNew` are the ids that new blobs would get. -/
def recordExecution (hexSha256 : Bytes → String) (bodyBlobNew previewBlobNew : String)
    (now : Timestamp) (record : ExecutionRecord) : StoreM Unit := do
  let (snapshot, bodyBlobId) ←
    externalizeSnapshot hexSha256 bodyBlobNew now record.requestSnapshot
  match snapshotJson snapshot with
  | none => do
    releaseOptional bodyBlobId
    Fallible.fail .serde
  | some json => do
    let (preview, responseBlobId) ← externalizePreview hexSha256 previewBlobNew now bodyBlobId
      record.preview record.responseBlobId
    let _ ← Fallible.recover
      (execute (Sql.insertExecution (executionRow record json preview responseBlobId)))
      fun e => do
        releaseOptional bodyBlobId
        releaseOptional responseBlobId
        Fallible.fail e
    pure ()

/-- The whole response when its blob can be read, else the stored preview. -/
def resolvePreview (preview : Option String) : Option String → StoreM (Option String)
  | none => pure preview
  | some id =>
    Fallible.recover (do let bytes ← readBlob id; pure (some (fromUtf8Lossy bytes)))
      fun _ => pure preview

/-- A stored snapshot, read and with its body brought back. -/
def loadSnapshot : Option Json → StoreM (Option RequestEnvelope)
  | none => pure none
  | some json =>
    match RequestEnvelope.ofJson json with
    | none => Fallible.fail .serde
    | some envelope => do
      let hydrated ← hydrateHttpBody envelope none
      pure (some hydrated)

def loadExecution (row : ExecutionRow) : StoreM ExecutionRecord := do
  let requestSnapshot ← loadSnapshot row.requestSnapshot
  let preview ← resolvePreview row.preview row.responseBlobId
  pure {
    id := row.id
    requestId := row.requestId.getD ""
    protocolId := row.protocolId
    state := row.state
    status := row.status
    durationMs := row.durationMs
    bytesReceived := row.bytesReceived
    startedAt := row.startedAt
    finishedAt := row.finishedAt
    requestSnapshot
    preview
    responseBlobId := row.responseBlobId }

def getExecution (id : String) : StoreM (Option ExecutionRecord) := do
  match ← query fun s => s.executions.find? id with
  | none => pure none
  | some row => do
    let record ← loadExecution row
    pure (some record)

def ExecutionFilter.admits (filter : ExecutionFilter) (row : ExecutionRow) : Bool :=
  filter.requestId.all (fun id => decide (row.requestId = some id)) &&
    filter.state.all (fun state => decide (row.state = state)) &&
    filter.protocolId.all (fun id => decide (row.protocolId = id)) &&
    filter.status.all fun status => decide (row.status = some status)

def loadExecutions : List ExecutionRow → StoreM (List ExecutionRecord)
  | [] => pure []
  | row :: rest => do
    let record ← loadExecution row
    let others ← loadExecutions rest
    pure (record :: others)

def listExecutionsFiltered (limit : Nat) (filter : ExecutionFilter) :
    StoreM (List ExecutionRecord) := do
  let rows ← query fun s =>
    ((s.executions.rows.filter filter.admits).insertionSort fun a b =>
      textLe b.startedAt.toList a.startedAt.toList = true).take limit
  loadExecutions rows

end ApiVoy.LocalStore
