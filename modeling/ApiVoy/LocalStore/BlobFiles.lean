/-
# Every indexed blob has its file

In every state of every run, whatever fails in it, the index names each digest
once, and the file of each row holds bytes of that digest. A file is complete
before its row enters the index, and a row leaves before its file does, so a
failure between two effects never leaves a row without its bytes.
-/

import ApiVoy.LocalStore.BlobCounts
import ApiVoy.LocalStore.CollectionForest

namespace ApiVoy.LocalStore

open Foundation Domain

variable {α : Type} {hexSha256 : Bytes → String} {s s' : Store} {w w' : Scheduled Store}
  {id : String}

/-- The rows of the index and the files belong together. -/
structure FiledBlobs (hexSha256 : Bytes → String) (index : Table BlobRow)
    (files : Table BlobFile) : Prop where
  positive : ∀ b ∈ index.rows, 1 ≤ b.refCount
  unique : ∀ b ∈ index.rows, ∀ b' ∈ index.rows, b.sha256 = b'.sha256 → b = b'
  path : ∀ b ∈ index.rows, b.relativePath = relativePath b.sha256
  filed : ∀ b ∈ index.rows, ∃ file, files.find? b.relativePath = some file ∧
    hexSha256 file.content = b.sha256

def Store.Filed (hexSha256 : Bytes → String) (s : Store) : Prop :=
  FiledBlobs hexSha256 s.blobIndex s.files

def filedView (s : Store) : Table BlobRow × Table BlobFile := (s.blobIndex, s.files)

theorem Frames.keeps_filed {m : StoreM α} (h : Frames filedView m) :
    Keeps (Store.Filed hexSha256) m :=
  h.keeps fun shown => FiledBlobs hexSha256 shown.1 shown.2

/-! ## Paths -/

/-- Different digests have different paths. -/
theorem relativePath_injective : Function.Injective relativePath := by
  intro sha sha' h
  have hchars := congrArg String.toList h
  simp only [relativePath, String.toList_append, String.toList_ofList] at hchars
  have hlength := congrArg List.length hchars
  simp only [List.length_append, List.length_take] at hlength
  have hsame : sha.toList.length = sha'.toList.length := by omega
  exact String.toList_injective (List.append_inj_right' hchars hsame)

theorem find?_writeFile (s : Store) (path path' : String) (data : Bytes) :
    (s.writeFile path data).files.find? path' =
      if path = path' then some ⟨path, data⟩ else s.files.find? path' := by
  have hfind := Table.find?_upsert s.files ⟨path, data⟩ (fun file => { file with content := data })
    (fun _ => rfl) path'
  refine hfind.trans ?_
  by_cases h : path = path'
  · subst h
    cases hold : s.files.find? path with
    | none => simp [Keyed.key]
    | some file =>
      have hkey : file.path = path := Table.key_of_find? hold
      simp [Keyed.key, ← hkey]
  · simp [Keyed.key, h]

/-! ## What the effects keep -/

/-- No blob has this digest yet. -/
def Store.Unknown (sha : String) (s : Store) : Prop := ∀ b ∈ s.blobIndex.rows, b.sha256 ≠ sha

/-- Changing a file at the path of an unknown digest harms no blob. -/
theorem Store.Filed.changeFiles {sha : String} (h : s.Filed hexSha256) (hunknown : s.Unknown sha)
    {files : Table BlobFile}
    (hfiles : ∀ path, path ≠ relativePath sha → files.find? path = s.files.find? path) :
    Store.Filed hexSha256 { s with files } where
  positive := h.positive
  unique := h.unique
  path := h.path
  filed b hb := by
    have hne : b.relativePath ≠ relativePath sha := by
      rw [h.path b hb]
      exact fun heq => hunknown b hb (relativePath_injective heq)
    obtain ⟨file, hfile, hdigest⟩ := h.filed b hb
    exact ⟨file, (hfiles _ hne).trans hfile, hdigest⟩

/-- Counting a blob up or down keeps the rest of its row. -/
theorem Store.Filed.updateRefCount (h : s.Filed hexSha256) {delta : Int}
    (hpositive : ∀ b, s.blobIndex.find? id = some b → 1 ≤ b.refCount + delta) :
    Store.Filed hexSha256 { s with
      blobIndex := s.blobIndex.update id (fun b => { b with refCount := b.refCount + delta })
        fun _ => rfl } := by
  have hrow (b' : BlobRow) (hb' : b' ∈ (s.blobIndex.update id
      (fun b => { b with refCount := b.refCount + delta }) fun _ => rfl).rows) :
      ∃ b ∈ s.blobIndex.rows, b'.id = b.id ∧ b'.sha256 = b.sha256 ∧
        b'.relativePath = b.relativePath ∧ 1 ≤ b'.refCount := by
    simp only [Table.mem_update] at hb'
    obtain ⟨b, hb, heq⟩ := hb'
    refine ⟨b, hb, ?_⟩
    by_cases hkey : Keyed.key b = id
    · rw [if_pos hkey] at heq
      rw [← heq]
      exact ⟨rfl, rfl, rfl, hpositive b (hkey ▸ Table.find?_key hb)⟩
    · rw [if_neg hkey] at heq
      rw [← heq]
      exact ⟨rfl, rfl, rfl, h.positive b hb⟩
  refine ⟨?_, ?_, ?_, ?_⟩
  · intro b' hb'
    obtain ⟨b, -, -, -, -, hcount⟩ := hrow b' hb'
    exact hcount
  · intro b₁' hb₁' b₂' hb₂' hsha
    obtain ⟨b₁, hb₁, hid₁, hsha₁, -⟩ := hrow b₁' hb₁'
    obtain ⟨b₂, hb₂, hid₂, hsha₂, -⟩ := hrow b₂' hb₂'
    have hsame : b₁ = b₂ := h.unique b₁ hb₁ b₂ hb₂ (by rw [← hsha₁, hsha, hsha₂])
    exact Table.eq_of_key_eq hb₁' hb₂' (hid₁.trans ((congrArg BlobRow.id hsame).trans hid₂.symm))
  · intro b' hb'
    obtain ⟨b, hb, -, hsha, hpath, -⟩ := hrow b' hb'
    rw [hpath, hsha]
    exact h.path b hb
  · intro b' hb'
    obtain ⟨b, hb, -, hsha, hpath, -⟩ := hrow b' hb'
    rw [hpath, hsha]
    exact h.filed b hb

/-- A row enters the index once its file is complete. -/
theorem Store.Filed.insertBlob (h : s.Filed hexSha256) {row : BlobRow} {n : Nat}
    (hpositive : 1 ≤ row.refCount) (hpath : row.relativePath = relativePath row.sha256)
    (hfile : ∃ file, s.files.find? row.relativePath = some file ∧
      hexSha256 file.content = row.sha256)
    (hinsert : Sql.insertBlob row s = some (s', n)) : s'.Filed hexSha256 := by
  obtain ⟨hunknown, t, ht, rfl⟩ := Sql.insertBlob_eq_some hinsert
  have hrows (b : BlobRow) (hb : b ∈ t.rows) : b ∈ s.blobIndex.rows ∨ b = row := by
    rw [(Table.insert?_eq_some_iff.mp ht).2] at hb
    simpa using hb
  refine ⟨?_, ?_, ?_, ?_⟩
  · intro b hb
    rcases hrows b hb with hold | rfl
    · exact h.positive b hold
    · exact hpositive
  · intro b hb b' hb' hsha
    rcases hrows b hb with hold | rfl
    · rcases hrows b' hb' with hold' | rfl
      · exact h.unique b hold b' hold' hsha
      · exact absurd hsha (hunknown b hold)
    · rcases hrows b' hb' with hold' | rfl
      · exact absurd hsha.symm (hunknown b' hold')
      · rfl
  · intro b hb
    rcases hrows b hb with hold | rfl
    · exact h.path b hold
    · exact hpath
  · intro b hb
    rcases hrows b hb with hold | rfl
    · exact h.filed b hold
    · exact hfile

/-- Without one of its rows the index is as well filed, and does not know the
digest of that row. -/
theorem Store.Filed.deleteBlob (h : s.Filed hexSha256) {blob : BlobRow}
    (hblob : s.blobIndex.find? id = some blob) :
    Store.Filed hexSha256 { s with blobIndex := s.blobIndex.filter fun b => b.id ≠ id } ∧
      Store.Unknown blob.sha256
        { s with blobIndex := s.blobIndex.filter fun b => b.id ≠ id } := by
  have hmem (b : BlobRow) (hb : b ∈ (s.blobIndex.filter fun b => b.id ≠ id).rows) :
      b ∈ s.blobIndex.rows ∧ b.id ≠ id := by
    obtain ⟨hold, hne⟩ := Table.mem_filter.mp hb
    exact ⟨hold, by simpa using hne⟩
  refine ⟨⟨?_, ?_, ?_, ?_⟩, ?_⟩
  · exact fun b hb => h.positive b (hmem b hb).1
  · exact fun b hb b' hb' => h.unique b (hmem b hb).1 b' (hmem b' hb').1
  · exact fun b hb => h.path b (hmem b hb).1
  · exact fun b hb => h.filed b (hmem b hb).1
  · intro b hb hsha
    obtain ⟨hold, hne⟩ := hmem b hb
    have hsame := h.unique b hold blob (Table.mem_of_find? hblob) hsha
    exact hne (hsame ▸ Table.key_of_find? hblob)

/-! ## Storing and releasing -/

/-- Filed, and without a blob of this digest. -/
def Store.FiledWithout (hexSha256 : Bytes → String) (sha : String) (s : Store) : Prop :=
  s.Filed hexSha256 ∧ s.Unknown sha

variable {sha : String}

theorem keeps_writeFile (data : Bytes) :
    Keeps (Store.FiledWithout hexSha256 sha)
      (fileEffect (Store.writeFile (relativePath sha) data)) := by
  apply Keeps.fileEffect
  intro s hs
  refine ⟨hs.1.changeFiles hs.2 fun path hpath => ?_, hs.2⟩
  have hfind := find?_writeFile s (relativePath sha) path data
  rwa [if_neg (Ne.symm hpath)] at hfind

theorem keeps_writeBlobFile (data : Bytes) :
    Keeps (Store.FiledWithout hexSha256 sha) (writeBlobFile (relativePath sha) data) :=
  Keeps.bind (keeps_writeFile []) fun _ => .bind (keeps_writeFile data) fun _ =>
    Keeps.fileEffect fun _ hs => hs

theorem keeps_removeFile :
    Keeps (Store.FiledWithout hexSha256 sha) (removeFile (relativePath sha)) := by
  apply Keeps.attempt
  intro s hs
  cases s.files.find? (relativePath sha) with
  | none => exact hs
  | some file =>
    refine ⟨hs.1.changeFiles hs.2 fun path hpath => ?_, hs.2⟩
    rw [Table.find?_filter]
    cases hfind : s.files.find? path with
    | none => rfl
    | some file =>
      have hkey : file.path = path := Table.key_of_find? hfind
      simp [hkey, hpath]

theorem keeps_cleanup (e : StoreError) :
    Keeps (Store.FiledWithout hexSha256 sha)
      (do Fallible.ignore (removeFile (relativePath sha)); Fallible.fail e : StoreM α) :=
  Keeps.bind (.ignore keeps_removeFile) fun _ => .fail e

/-- Once the file is written it is there. -/
theorem writeBlobFile_ok {path : String} {data : Bytes} {u : Unit}
    (h : (writeBlobFile path data).run w = (.ok u, w')) :
    w'.state.files.find? path = some ⟨path, data⟩ := by
  obtain ⟨_, w₁, -, h⟩ := Fallible.run_bind_eq_ok_iff.mp h
  obtain ⟨_, w₂, hwrite, hflush⟩ := Fallible.run_bind_eq_ok_iff.mp h
  obtain ⟨-, hwritten, -⟩ := Fallible.run_attempt_eq_ok_iff.mp hwrite
  obtain ⟨-, hflushed, -⟩ := Fallible.run_attempt_eq_ok_iff.mp hflush
  simp only [Prod.mk.injEq] at hwritten hflushed
  rw [← hflushed.2, ← hwritten.2, find?_writeFile, if_pos rfl]

/-- The part of storing that follows an unsuccessful lookup. Until the row is
inserted nothing but the file of the new digest changes. -/
theorem filed_putNew (hexSha256 : Bytes → String) (blobId : String) (now : Timestamp)
    (data : Bytes) (contentType : Option String)
    (hw : w.state.FiledWithout hexSha256 (hexSha256 data)) :
    Store.Filed hexSha256 (Fallible.run (do
      fileEffect fun s => s
      Fallible.recover (writeBlobFile (relativePath (hexSha256 data)) data) fun e => do
        Fallible.ignore (removeFile (relativePath (hexSha256 data)))
        Fallible.fail e
      let _ ← Fallible.recover (execute (Sql.insertBlob {
          id := blobId
          sha256 := hexSha256 data
          sizeBytes := data.length
          contentType
          relativePath := relativePath (hexSha256 data)
          refCount := 1
          createdAt := now })) fun e => do
        Fallible.ignore (removeFile (relativePath (hexSha256 data)))
        Fallible.fail e
      requireBlob blobId : StoreM BlobRow) w).2.state := by
  have hweaken (w : Scheduled Store) (hw : w.state.FiledWithout hexSha256 (hexSha256 data)) :
      w.state.Filed hexSha256 := hw.1
  refine Fallible.Maintains.bind_to (J := fun w => w.state.Filed hexSha256)
    (Keeps.fileEffect (I := Store.FiledWithout hexSha256 (hexSha256 data)) fun _ hs => hs)
    hweaken hw fun _ w₁ _ hw₁ => ?_
  refine Fallible.Maintains.bind_to (J := fun w => w.state.Filed hexSha256)
    (Keeps.recover (keeps_writeBlobFile data) fun e => keeps_cleanup e) hweaken hw₁
    fun _ w₂ hwrite hw₂ => ?_
  have hfile := writeBlobFile_ok (Fallible.run_recover_ok (fun e => fails_cleanup _ e) hwrite)
  refine KeepsFrom.bind_keeps (I := Store.Filed hexSha256) (s := w₂.state) ?_
    (fun _ => (Frames.requireBlob blobId).keeps_filed) hw₂.1 w₂.faults
  intro _ faults
  rw [Fallible.run_recover]
  rcases hrun : (execute (Sql.insertBlob _)).run ⟨w₂.state, faults⟩ with ⟨e | n, w₃⟩
  · have hcleanup : Keeps (Store.FiledWithout hexSha256 (hexSha256 data))
        (do Fallible.ignore (removeFile (relativePath (hexSha256 data))); Fallible.fail e :
          StoreM Nat) := keeps_cleanup e
    have hw₃ : w₃.state.FiledWithout hexSha256 (hexSha256 data) := by
      rw [execute_error hrun]
      exact hw₂
    exact (hcleanup w₃ hw₃).1
  · have hinserted := execute_ok hrun
    exact hw₂.1.insertBlob (le_refl 1) rfl ⟨_, hfile, rfl⟩ hinserted

/-- Storing bytes, wherever it is interrupted, leaves every row with its file. -/
theorem filed_putBlob (blobId : String) (now : Timestamp) (data : Bytes)
    (contentType : Option String) :
    Keeps (Store.Filed hexSha256) (putBlob hexSha256 blobId now data contentType) := by
  apply Fallible.Maintains.bind_of_ok (Keeps.query _)
  intro w existing w₁ hw hlookup hw₁
  obtain ⟨hexisting, hstate₁⟩ := query_ok hlookup
  cases existing with
  | some existing =>
    have hadd : Keeps (Store.Filed hexSha256)
        (execute (Sql.addToRefCount existing.id 1)) := by
      refine Keeps.execute_some (I := Store.Filed hexSha256) (fun _ => rfl) fun s hs => ?_
      apply hs.updateRefCount
      intro b hb
      have := hs.positive b (Table.mem_of_find? hb)
      omega
    have hrequire : Keeps (Store.Filed hexSha256) (requireBlob existing.id) :=
      (Frames.requireBlob existing.id).keeps_filed
    exact Keeps.bind hadd (fun _ => hrequire) w₁ hw₁
  | none =>
    have hunknown : w₁.state.Unknown (hexSha256 data) := by
      intro b hb hsha
      rw [hstate₁] at hb
      simpa [hsha] using List.find?_eq_none.mp hexisting.symm b hb
    exact filed_putNew hexSha256 blobId now data contentType ⟨hw₁, hunknown⟩

/-- Releasing a reference, wherever it is interrupted, leaves every row with its
file. -/
theorem filed_releaseBlob (id : String) :
    Keeps (Store.Filed hexSha256) (releaseBlob id) := by
  apply keeps_of_keepsFrom
  intro s
  refine .bind_read (.getBlob id) ?_
  intro found hget
  have hfound : found = s.blobIndex.find? id := hget.query
  cases found with
  | none => exact .of_keeps (.pure ())
  | some blob =>
    simp only
    split
    · rename_i hmany
      refine .bind_keeps (.execute ?_) fun _ => .pure ()
      intro s' n hs hdrop
      cases hdrop
      apply hs.updateRefCount
      intro b hb
      rw [hb] at hfound
      cases hfound
      omega
    · intro hs faults
      have hremove : Keeps (Store.FiledWithout hexSha256 blob.sha256)
          (removeIfPresent blob.relativePath) := by
        rw [hs.path blob (Table.mem_of_find? hfound.symm)]
        apply Keeps.recover keeps_removeFile
        intro e
        split
        · exact .pure ()
        · exact .fail e
      rw [Fallible.run_bind]
      rcases hrun : (execute (Sql.deleteBlob id)).run ⟨s, faults⟩ with ⟨e | n, w₁⟩
      · rw [execute_error hrun]
        exact hs
      · have hdeleted := execute_ok hrun
        simp only [Sql.deleteBlob, Option.some.injEq, Prod.mk.injEq] at hdeleted
        have hwithout := hs.deleteBlob hfound.symm
        rw [hdeleted.1] at hwithout
        exact (hremove w₁ hwithout).1

/-! ## Operations -/

theorem keepsBlobs_filed (hexSha256 : Bytes → String) :
    KeepsBlobs hexSha256 (Store.Filed hexSha256) where
  put := filed_putBlob
  release := filed_releaseBlob

theorem filedView_forestBlind : ForestBlind filedView :=
  ⟨⟨fun _ _ => rfl, fun _ _ => rfl, fun _ _ => rfl, fun _ _ => rfl, fun _ _ => rfl⟩,
    fun _ _ => rfl, fun _ _ => rfl, fun _ _ => rfl⟩

/-- Every operation leaves every row with its file. -/
theorem filed_program (hexSha256 : Bytes → String) (op : Op) :
    Keeps (Store.Filed hexSha256) (op.program hexSha256) := by
  have hblobs := keepsBlobs_filed hexSha256
  cases op with
  | deleteWorkspace id => exact hblobs.deleteWorkspace id (fun _ _ hs => hs) fun _ _ hs => hs
  | deleteProject id => exact hblobs.deleteProject id fun _ hs => hs
  | deleteCollection id => exact hblobs.deleteCollection id fun _ hs => hs
  | saveRequest blobId now request projectId collectionId =>
    refine (hblobs.saveRequest projectId collectionId ?_ blobId now request).discard
    intro s s' n row _ _ hupsert hs
    obtain ⟨-, -, rfl⟩ := Sql.upsertRequest_eq_some hupsert
    exact hs
  | deleteRequest id => exact hblobs.deleteRequest id fun _ hs => hs
  | moveRequest id projectId collectionId now =>
    exact (Frames.moveRequest (fun _ _ => rfl) _ _ _ _).keeps_filed
  | putBlob blobId now data contentType => exact (hblobs.put _ _ _ _).discard
  | recordExecution bodyBlobNew previewBlobNew now record =>
    exact hblobs.recordExecution _ _ _ _ fun _ _ _ _ _ _ _ hs => hs
  | recordWithResponse responseBlobNew data contentType bodyBlobNew previewBlobNew now record =>
    exact hblobs.recordWithResponse _ _ _ _ _ _ _ fun _ _ _ _ _ _ _ hs => hs
  | _ => exact (Frames.arranging filedView_forestBlind hexSha256 _ rfl).keeps_filed

theorem filed_of_reached (h : Reached hexSha256 s) : s.Filed hexSha256 := by
  refine Fallible.Reachable.invariant ?_ ?_ h
  · rintro s ⟨now, rfl⟩
    rw [initial_eq_openedStore]
    constructor <;> exact fun b hb => absurd hb List.not_mem_nil
  · intro s op faults hs _
    exact (filed_program hexSha256 op).state hs faults

end ApiVoy.LocalStore
