/-
# Content-addressed blobs

Large bodies are kept in files named by their digest, with a row that counts the
references to each. Putting known content adds a reference; releasing the last
reference removes the row and then the file. The digest function is a parameter
of everything that stores a body.
-/

import ApiVoy.LocalStore.Sql

namespace ApiVoy.LocalStore

open Foundation Domain

/-- Bodies and previews of more bytes than this become blobs. -/
def blobThresholdBytes : Nat := 64 * 1024

def relativePath (sha : String) : String :=
  String.ofList (sha.toList.take 2) ++ "/" ++ sha

def getBlob (id : String) : StoreM (Option BlobRow) := query fun s => s.blobIndex.find? id

def getBlobBySha (sha : String) : StoreM (Option BlobRow) :=
  query fun s => s.blobIndex.rows.find? fun b => b.sha256 = sha

def requireBlob (id : String) : StoreM BlobRow := do
  match ← getBlob id with
  | some blob => pure blob
  | none => Fallible.fail (.notFound id)

/-- Create the file, write its content and flush it. -/
def writeBlobFile (path : String) (data : Bytes) : StoreM Unit := do
  fileEffect (Store.writeFile path [])
  fileEffect (Store.writeFile path data)
  fileEffect fun s => s

/-- Store bytes, or add a reference to the blob that already has them. -/
def putBlob (hexSha256 : Bytes → String) (blobId : String) (now : Timestamp) (data : Bytes)
    (contentType : Option String) : StoreM BlobRow := do
  let sha := hexSha256 data
  match ← getBlobBySha sha with
  | some existing =>
    let _ ← execute (Sql.addToRefCount existing.id 1)
    requireBlob existing.id
  | none =>
    let path := relativePath sha
    fileEffect fun s => s
    Fallible.recover (writeBlobFile path data) fun e => do
      Fallible.ignore (removeFile path)
      Fallible.fail e
    let row : BlobRow := {
      id := blobId
      sha256 := sha
      sizeBytes := data.length
      contentType
      relativePath := path
      refCount := 1
      createdAt := now }
    let _ ← Fallible.recover (execute (Sql.insertBlob row)) fun e => do
      Fallible.ignore (removeFile path)
      Fallible.fail e
    requireBlob blobId

def readBlob (id : String) : StoreM Bytes := do
  let blob ← requireBlob id
  readFile blob.relativePath

/-- Remove a file; that it is gone already is no error. -/
def removeIfPresent (path : String) : StoreM Unit :=
  Fallible.recover (removeFile path) fun e =>
    if e = .io .missing then pure () else Fallible.fail e

/-- Give up one reference to a blob. -/
def releaseBlob (id : String) : StoreM Unit := do
  match ← getBlob id with
  | none => pure ()
  | some blob =>
    if 1 < blob.refCount then
      let _ ← execute (Sql.addToRefCount id (-1))
      pure ()
    else
      let _ ← execute (Sql.deleteBlob id)
      removeIfPresent blob.relativePath

def releaseOptional : Option String → StoreM Unit
  | none => pure ()
  | some id => releaseBlob id

/-! ## Bodies of requests -/

/-- What an externalized body is replaced by, followed by the id of its blob. -/
def blobMarker : String := "@apivoy-blob:"

/-- The rest of a text that starts with the marker. -/
def stripMarker (body : String) : Option String :=
  (body.toList.dropPrefix? blobMarker.toList).map String.ofList

/-- Replace the body of an HTTP payload. -/
def withBody (text : String) : ProtocolPayload → ProtocolPayload
  | .http payload => .http { payload with body := some text }
  | payload => payload

/-- Move a long HTTP body into a blob and leave its marker behind. -/
def externalizeHttpBody (hexSha256 : Bytes → String) (blobId : String) (now : Timestamp)
    (envelope : RequestEnvelope) : StoreM (RequestEnvelope × Option String) :=
  match envelope.payload.body with
  | none => pure (envelope, none)
  | some body =>
    if (utf8 body).length ≤ blobThresholdBytes then pure (envelope, none)
    else do
      let blob ← putBlob hexSha256 blobId now (utf8 body) (some "application/octet-stream")
      pure ({ envelope with payload := withBody (blobMarker ++ blob.id) envelope.payload },
        some blob.id)

/-- Bring the body of an envelope back: from the blob that is given, else from
the one that its body names as a marker. -/
def hydrateHttpBody (envelope : RequestEnvelope) : Option String → StoreM RequestEnvelope
  | some id => do
    let bytes ← readBlob id
    pure { envelope with payload := withBody (fromUtf8Lossy bytes) envelope.payload }
  | none =>
    match envelope.payload.body.bind stripMarker with
    | none => pure envelope
    | some id => do
      let bytes ← readBlob id
      pure { envelope with payload := withBody (fromUtf8Lossy bytes) envelope.payload }

end ApiVoy.LocalStore
