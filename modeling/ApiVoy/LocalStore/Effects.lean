/-
# The effects of the store, counted

Which outcome the effects and the blob operations have when nothing fails by
itself, which store they leave, and how many effects that takes. A failure that
strikes one of them makes the operation fail.
-/

import ApiVoy.LocalStore.Rules

namespace ApiVoy.LocalStore

open Foundation Domain

/-- A store program and the number of its effects. -/
abbrev Performs {α : Type} (n : Nat) (m : StoreM α) (s : Store) (r : Except StoreError α)
    (s' : Store) : Prop :=
  Fallible.Performs n m s r s'

variable {α : Type} {s s' : Store} {id : String}

namespace Performs

theorem query (read : Store → α) : Performs 1 (query read) s (.ok (read s)) s :=
  Fallible.Performs.attempt rfl

variable {statement : Store → Option (Store × Nat)}

theorem execute {n : Nat} (h : statement s = some (s', n)) :
    Performs 1 (execute statement) s (.ok n) s' :=
  Fallible.Performs.attempt (by rw [h])

theorem execute_constraint (h : statement s = none) :
    Performs 1 (LocalStore.execute statement) s (.error (.sqlite .constraint)) s :=
  Fallible.Performs.attempt (by rw [h])

theorem fileEffect (effect : Store → Store) :
    Performs 1 (fileEffect effect) s (.ok ()) (effect s) :=
  Fallible.Performs.attempt rfl

theorem readFile {path : String} {file : BlobFile} (h : s.files.find? path = some file) :
    Performs 1 (readFile path) s (.ok file.content) s :=
  Fallible.Performs.attempt (by rw [h])

end Performs

/-! ## Blobs -/

variable {blob : BlobRow}

theorem performs_requireBlob (h : s.blobIndex.find? id = some blob) :
    Performs 1 (requireBlob id) s (.ok blob) s := by
  apply Fallible.Performs.bind (Performs.query _)
  rw [h]
  exact .pure _

theorem performs_requireBlob_missing (h : s.blobIndex.find? id = none) :
    Performs 1 (requireBlob id) s (.error (.notFound id)) s := by
  apply Fallible.Performs.bind (Performs.query _)
  rw [h]
  exact .fail _

theorem performs_readBlob {file : BlobFile} (hblob : s.blobIndex.find? id = some blob)
    (hfile : s.files.find? blob.relativePath = some file) :
    Performs 2 (readBlob id) s (.ok file.content) s :=
  Fallible.Performs.bind (performs_requireBlob hblob) (Performs.readFile hfile)

/-- The store once a file is written. -/
def Store.withFile (s : Store) (path : String) (data : Bytes) : Store :=
  (s.writeFile path []).writeFile path data

theorem performs_writeBlobFile (path : String) (data : Bytes) :
    Performs 3 (writeBlobFile path data) s (.ok ()) (s.withFile path data) := by
  apply Fallible.Performs.bind (Performs.fileEffect _)
  apply Fallible.Performs.bind (Performs.fileEffect _)
  exact Performs.fileEffect _

/-- `putBlob` up to the point where it reads the row back. -/
def storeBytes (hexSha256 : Bytes → String) (blobId : String) (now : Timestamp) (data : Bytes)
    (contentType : Option String) : StoreM String := do
  let sha := hexSha256 data
  match ← getBlobBySha sha with
  | some existing =>
    let _ ← execute (Sql.addToRefCount existing.id 1)
    pure existing.id
  | none =>
    let path := relativePath sha
    fileEffect fun s => s
    Fallible.recover (writeBlobFile path data) fun e => do
      Fallible.ignore (removeFile path)
      Fallible.fail e
    let _ ← Fallible.recover (execute (Sql.insertBlob {
        id := blobId
        sha256 := sha
        sizeBytes := data.length
        contentType
        relativePath := path
        refCount := 1
        createdAt := now })) fun e => do
      Fallible.ignore (removeFile path)
      Fallible.fail e
    pure blobId

theorem putBlob_eq (hexSha256 : Bytes → String) (blobId : String) (now : Timestamp) (data : Bytes)
    (contentType : Option String) :
    putBlob hexSha256 blobId now data contentType =
      storeBytes hexSha256 blobId now data contentType >>= requireBlob := by
  rw [putBlob, storeBytes, bind_assoc]
  congr 1
  funext existing
  cases existing <;> simp only [bind_assoc, pure_bind]

variable {hexSha256 : Bytes → String} {data : Bytes}

variable {existing : BlobRow}

variable (blobId : String)

/-- Known bytes get one reference more. -/
theorem performs_storeBytes_known (now : Timestamp) (contentType : Option String)
    (h : (s.blobIndex.rows.find? fun b => b.sha256 = hexSha256 data) = some existing) :
    Performs 2 (storeBytes hexSha256 blobId now data contentType) s (.ok existing.id)
      { s with
        blobIndex := s.blobIndex.update existing.id
          (fun b => { b with refCount := b.refCount + 1 }) fun _ => rfl } := by
  apply Fallible.Performs.bind (Performs.query _)
  rw [h]
  exact .bind (Performs.execute rfl) (.pure _)

theorem performs_putBlob_known (now : Timestamp) (contentType : Option String)
    (h : (s.blobIndex.rows.find? fun b => b.sha256 = hexSha256 data) = some existing) :
    Performs 3 (putBlob hexSha256 blobId now data contentType) s
      (.ok { existing with refCount := existing.refCount + 1 })
      { s with
        blobIndex := s.blobIndex.update existing.id
          (fun b => { b with refCount := b.refCount + 1 }) fun _ => rfl } := by
  rw [putBlob_eq]
  apply Fallible.Performs.bind (performs_storeBytes_known blobId now contentType h)
  apply performs_requireBlob
  have hfind : s.blobIndex.find? existing.id = some existing :=
    Table.find?_key (List.mem_of_find?_eq_some h)
  rw [Table.find?_update, hfind]
  simp

def newBlobRow (hexSha256 : Bytes → String) (blobId : String) (now : Timestamp) (data : Bytes)
    (contentType : Option String) : BlobRow where
  id := blobId
  sha256 := hexSha256 data
  sizeBytes := data.length
  contentType := contentType
  relativePath := relativePath (hexSha256 data)
  refCount := 1
  createdAt := now

/-- Unknown bytes get a file and a row. -/
theorem performs_storeBytes_new {hexSha256 : Bytes → String} {blobId : String} {now : Timestamp}
    {data : Bytes} {contentType : Option String} {blobIndex : Table BlobRow}
    (hunknown : (s.blobIndex.rows.find? fun b => b.sha256 = hexSha256 data) = none)
    (hinsert : s.blobIndex.insert? (newBlobRow hexSha256 blobId now data contentType) =
      some blobIndex) :
    Performs 6 (storeBytes hexSha256 blobId now data contentType) s (.ok blobId)
      { s.withFile (relativePath (hexSha256 data)) data with blobIndex } := by
  have hunique : (s.blobIndex.rows.any fun b => b.sha256 = hexSha256 data) = false := by
    simpa using hunknown
  have hinserted : Sql.insertBlob (newBlobRow hexSha256 blobId now data contentType)
      (s.withFile (relativePath (hexSha256 data)) data) =
      some ({ s.withFile (relativePath (hexSha256 data)) data with blobIndex }, 1) := by
    show (if (s.blobIndex.rows.any fun b => b.sha256 = hexSha256 data) then none else
      (s.blobIndex.insert? (newBlobRow hexSha256 blobId now data contentType)).map _) = _
    rw [hunique, hinsert]
    rfl
  apply Fallible.Performs.bind (Performs.query _)
  rw [hunknown]
  apply Fallible.Performs.bind (Performs.fileEffect _)
  apply Fallible.Performs.bind
    (.recover_ok (fun e => fails_cleanup _ e) (performs_writeBlobFile _ _))
  exact .bind
    (.recover_ok (fun e => fails_cleanup _ e) (Performs.execute hinserted))
    (.pure _)

theorem performs_putBlob_new {hexSha256 : Bytes → String} {blobId : String} {now : Timestamp}
    {data : Bytes} {contentType : Option String} {blobIndex : Table BlobRow}
    (hunknown : (s.blobIndex.rows.find? fun b => b.sha256 = hexSha256 data) = none)
    (hinsert : s.blobIndex.insert? (newBlobRow hexSha256 blobId now data contentType) =
      some blobIndex) :
    Performs 7 (putBlob hexSha256 blobId now data contentType) s
      (.ok (newBlobRow hexSha256 blobId now data contentType))
      { s.withFile (relativePath (hexSha256 data)) data with blobIndex } := by
  rw [putBlob_eq]
  apply Fallible.Performs.bind (performs_storeBytes_new hunknown hinsert)
  apply performs_requireBlob
  have hkey : Keyed.key (newBlobRow hexSha256 blobId now data contentType) = blobId := rfl
  show blobIndex.find? blobId = _
  rw [Table.find?_insert hinsert, if_pos hkey]

/-- A long body goes into a blob. -/
theorem performs_externalizeHttpBody_long {hexSha256 : Bytes → String} {blobId : String}
    {now : Timestamp} {envelope : RequestEnvelope} {body : String} {blob : BlobRow} {n : Nat}
    (hbody : envelope.payload.body = some body)
    (hlong : ¬ (utf8 body).length ≤ blobThresholdBytes)
    (hput : Performs n (putBlob hexSha256 blobId now (utf8 body)
      (some "application/octet-stream")) s (.ok blob) s') :
    Performs n (externalizeHttpBody hexSha256 blobId now envelope) s
      (.ok ({ envelope with payload := withBody (blobMarker ++ blob.id) envelope.payload },
        some blob.id)) s' := by
  unfold externalizeHttpBody
  rw [hbody]
  simp only [if_neg hlong]
  exact .bind_pure hput (.pure _)

/-- A long preview goes into a blob, unless a response was handed in. -/
theorem performs_externalizePreview_long {hexSha256 : Bytes → String} {blobId : String}
    {now : Timestamp} (bodyBlobId : Option String) {preview : String} {blob : BlobRow} {n : Nat}
    (hlong : ¬ (utf8 preview).length ≤ blobThresholdBytes)
    (hput : Performs n (putBlob hexSha256 blobId now (utf8 preview) (some "text/plain")) s
      (.ok blob) s') :
    Performs n (externalizePreview hexSha256 blobId now bodyBlobId (some preview) none) s
      (.ok (some (String.ofList (preview.toList.take previewChars)), some blob.id)) s' := by
  unfold externalizePreview
  simp only [if_neg hlong]
  exact .bind_pure
    (.recover_ok (fun e => fails_cleanup _ e) hput) (.pure _)

theorem performs_recordExecution {hexSha256 : Bytes → String}
    {bodyBlobNew previewBlobNew : String} {now : Timestamp} {record : ExecutionRecord}
    {snapshot : Option RequestEnvelope} {bodyBlobId preview responseBlobId : Option String}
    {json : Option Json} {s₁ s₂ : Store} {n k changed : Nat}
    (hsnapshot : Performs n (externalizeSnapshot hexSha256 bodyBlobNew now record.requestSnapshot)
      s (.ok (snapshot, bodyBlobId)) s₁)
    (hjson : snapshotJson snapshot = some json)
    (hpreview : Performs k (externalizePreview hexSha256 previewBlobNew now bodyBlobId
      record.preview record.responseBlobId) s₁ (.ok (preview, responseBlobId)) s₂)
    (hinsert : Sql.insertExecution (executionRow record json preview responseBlobId) s₂ =
      some (s', changed)) :
    Performs (1 + k + n) (recordExecution hexSha256 bodyBlobNew previewBlobNew now record) s
      (.ok ()) s' := by
  apply Fallible.Performs.bind hsnapshot
  simp only [hjson]
  apply Fallible.Performs.bind hpreview
  have hhandler (e : StoreError) : Fallible.Fails (do
      releaseOptional bodyBlobId
      releaseOptional responseBlobId
      Fallible.fail e : StoreM Nat) := Fallible.Fails.bind _ fun _ => fails_cleanup _ e
  exact .bind_pure
    (.recover_ok hhandler (Performs.execute hinsert)) (.pure _)

end ApiVoy.LocalStore
