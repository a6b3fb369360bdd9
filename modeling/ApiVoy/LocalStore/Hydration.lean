/-
# Bringing bodies back

What reading a stored request returns, and how a reference is given up, in a
store whose blobs have their files. There the bytes of a blob depend on the row
of the index alone, so requests read the same from two stores with the same
requests and the same index.
-/

import ApiVoy.LocalStore.BlobFiles
import ApiVoy.LocalStore.Effects

namespace ApiVoy.LocalStore

open Foundation Domain

variable {α : Type} {hexSha256 : Bytes → String} {s s' : Store} {w w' : Scheduled Store}
  {id : String}

/-! ## The text of a blob -/

def Store.blobText (s : Store) (id : String) : Option String :=
  (s.blobIndex.find? id).bind fun blob =>
    (s.files.find? blob.relativePath).map fun file => fromUtf8Lossy file.content

theorem Store.Filed.blobText_of_find? (h : s.Filed hexSha256) {blob : BlobRow}
    (hblob : s.blobIndex.find? id = some blob) :
    ∃ file, s.files.find? blob.relativePath = some file ∧
      hexSha256 file.content = blob.sha256 ∧ s.blobText id = some (fromUtf8Lossy file.content) := by
  obtain ⟨file, hfile, hdigest⟩ := h.filed blob (Table.mem_of_find? hblob)
  exact ⟨file, hfile, hdigest, by simp [Store.blobText, hblob, hfile]⟩

/-- The text of a blob is determined by its digest. -/
theorem Store.Filed.blobText_eq (hinj : Function.Injective hexSha256) (h : s.Filed hexSha256)
    (h' : s'.Filed hexSha256)
    (hsha : (s.blobIndex.find? id).map BlobRow.sha256 =
      (s'.blobIndex.find? id).map BlobRow.sha256) :
    s.blobText id = s'.blobText id := by
  cases hblob : s.blobIndex.find? id with
  | none =>
    rw [hblob] at hsha
    have hnone : s'.blobIndex.find? id = none := Option.map_eq_none_iff.mp hsha.symm
    simp [Store.blobText, hblob, hnone]
  | some blob =>
    rw [hblob] at hsha
    obtain ⟨blob', hblob', hsame⟩ := Option.map_eq_some_iff.mp hsha.symm
    obtain ⟨file, -, hdigest, htext⟩ := h.blobText_of_find? hblob
    obtain ⟨file', -, hdigest', htext'⟩ := h'.blobText_of_find? hblob'
    have hcontent : file.content = file'.content := by
      apply hinj
      rw [hdigest, hdigest', hsame]
    rw [htext, htext', hcontent]

/-- The blob whose bytes become the body of a stored envelope. -/
def bodySource (envelope : RequestEnvelope) : Option String → Option String
  | some id => some id
  | none => envelope.payload.body.bind stripMarker

/-- What bringing a body back returns: the envelope as it is, or with the text of
the blob; `none` when the blob is missing. -/
def Store.hydrated (s : Store) (envelope : RequestEnvelope) (bodyBlobId : Option String) :
    Option RequestEnvelope :=
  match bodySource envelope bodyBlobId with
  | none => some envelope
  | some id => (s.blobText id).map fun text =>
    { envelope with payload := withBody text envelope.payload }

/-- The number of effects that takes. -/
def Store.hydrateEffects (s : Store) (source : Option String) : Nat :=
  match source with
  | none => 0
  | some id => if (s.blobIndex.find? id).isSome then 2 else 1

/-- The outcome of bringing a body back. -/
def Store.hydrateOutcome (s : Store) (envelope : RequestEnvelope) (bodyBlobId : Option String) :
    Except StoreError RequestEnvelope :=
  match s.hydrated envelope bodyBlobId with
  | some envelope => .ok envelope
  | none => .error (.notFound ((bodySource envelope bodyBlobId).getD ""))

theorem hydrateHttpBody_eq (envelope : RequestEnvelope) (bodyBlobId : Option String) :
    hydrateHttpBody envelope bodyBlobId =
      (match bodySource envelope bodyBlobId with
        | none => pure envelope
        | some id => do
          let bytes ← readBlob id
          pure { envelope with payload := withBody (fromUtf8Lossy bytes) envelope.payload }) := by
  cases bodyBlobId <;> rfl

theorem performs_hydrateHttpBody (h : s.Filed hexSha256) (envelope : RequestEnvelope)
    (bodyBlobId : Option String) :
    Performs (s.hydrateEffects (bodySource envelope bodyBlobId))
      (hydrateHttpBody envelope bodyBlobId) s (s.hydrateOutcome envelope bodyBlobId) s := by
  rw [hydrateHttpBody_eq, Store.hydrateOutcome, Store.hydrated]
  cases hsource : bodySource envelope bodyBlobId with
  | none => exact .pure _
  | some id =>
    cases hblob : s.blobIndex.find? id with
    | none =>
      have htext : s.blobText id = none := by simp [Store.blobText, hblob]
      simp only [Store.hydrateEffects, hblob, htext, Option.map_none, Option.getD_some]
      exact .bind_error
        (.bind_error (performs_requireBlob_missing hblob))
    | some blob =>
      obtain ⟨file, hfile, -, htext⟩ := h.blobText_of_find? hblob
      simp only [Store.hydrateEffects, hblob, htext, Option.map_some]
      exact .bind_pure (performs_readBlob hblob hfile)
        (.pure _)

/-- Bringing the body back succeeds when the blob is there. -/
theorem Store.Filed.hydrateOutcome_eq_ok_iff (h : s.Filed hexSha256) (envelope : RequestEnvelope)
    (bodyBlobId : Option String) :
    (∃ hydrated, s.hydrateOutcome envelope bodyBlobId = .ok hydrated) ↔
      ∀ id, bodySource envelope bodyBlobId = some id → (s.blobIndex.find? id).isSome = true := by
  rw [Store.hydrateOutcome, Store.hydrated]
  cases bodySource envelope bodyBlobId with
  | none => simp
  | some id =>
    cases hblob : s.blobIndex.find? id with
    | none =>
      have htext : s.blobText id = none := by simp [Store.blobText, hblob]
      simp [htext, hblob]
    | some blob =>
      obtain ⟨file, -, -, htext⟩ := h.blobText_of_find? hblob
      simp [htext, hblob]

/-- A stored request with its body brought back. -/
def RequestRow.stored (row : RequestRow) (hydrated : RequestEnvelope) : StoredRequest where
  id := row.id
  projectId := row.projectId
  collectionId := row.collectionId
  name := row.name
  protocolId := row.protocolId
  target := row.target
  envelope := hydrated
  updatedAt := row.updatedAt
  bodyBlobId := row.bodyBlobId

/-- Reading a request brings the body of its envelope back. -/
theorem performs_getRequest (h : s.Filed hexSha256) {row : RequestRow} {envelope : RequestEnvelope}
    (hrow : s.requests.find? id = some row)
    (hread : RequestEnvelope.ofJson row.envelope = some envelope) :
    Performs (s.hydrateEffects (bodySource envelope row.bodyBlobId) + 1) (getRequest id) s
      ((s.hydrateOutcome envelope row.bodyBlobId).map fun hydrated =>
        some (row.stored hydrated)) s := by
  have hhydrate := performs_hydrateHttpBody h envelope row.bodyBlobId
  apply Fallible.Performs.bind (Performs.query _)
  rw [hrow]
  simp only [loadRequest, hread, bind_assoc, pure_bind]
  cases houtcome : s.hydrateOutcome envelope row.bodyBlobId with
  | error e =>
    rw [houtcome] at hhydrate
    exact .bind_error hhydrate
  | ok hydrated =>
    rw [houtcome] at hhydrate
    exact .bind_pure hhydrate (.pure _)

/-! ## Reading -/

/-- Reading with nothing failing returns `r` and leaves the store alone. -/
def Reads (m : StoreM α) (s : Store) (r : Except StoreError α) : Prop :=
  m.run ⟨s, []⟩ = (r, ⟨s, []⟩)

/-- Reading a program returns the same from both stores. -/
def ReadsAlike (s s' : Store) (m : StoreM α) : Prop :=
  ∃ r, Reads m s r ∧ Reads m s' r

theorem ReadsAlike.bind {β : Type} {m : StoreM α} {f : α → StoreM β} (hm : ReadsAlike s s' m)
    (hf : ∀ a, ReadsAlike s s' (f a)) : ReadsAlike s s' (m >>= f) := by
  obtain ⟨r, hr, hr'⟩ := hm
  cases r with
  | error e => exact ⟨.error e, Fallible.run_bind_of_error hr, Fallible.run_bind_of_error hr'⟩
  | ok a =>
    obtain ⟨t, ht, ht'⟩ := hf a
    exact ⟨t, (Fallible.run_bind_of_ok hr).trans ht, (Fallible.run_bind_of_ok hr').trans ht'⟩

theorem ReadsAlike.pure (a : α) : ReadsAlike s s' (Pure.pure a : StoreM α) :=
  ⟨.ok a, rfl, rfl⟩

theorem ReadsAlike.fail (e : StoreError) : ReadsAlike s s' (Fallible.fail e : StoreM α) :=
  ⟨.error e, rfl, rfl⟩

theorem ReadsAlike.query {read : Store → α} (h : read s = read s') :
    ReadsAlike s s' (query read) :=
  ⟨.ok (read s), rfl, by rw [h]; rfl⟩

/-- Two stores whose blobs have their files, with the same requests and the same
index. -/
structure SameRequests (hexSha256 : Bytes → String) (s s' : Store) : Prop where
  filed : s.Filed hexSha256
  filed' : s'.Filed hexSha256
  requests : s'.requests = s.requests
  blobIndex : s'.blobIndex = s.blobIndex

theorem SameRequests.loadRequest (h : SameRequests hexSha256 s s')
    (hinj : Function.Injective hexSha256) (row : RequestRow) :
    ReadsAlike s s' (loadRequest row) := by
  unfold LocalStore.loadRequest
  cases RequestEnvelope.ofJson row.envelope with
  | none => exact ReadsAlike.fail _
  | some envelope =>
    have htext (id : String) : s.blobText id = s'.blobText id :=
      h.filed.blobText_eq hinj h.filed' (by rw [h.blobIndex])
    have hhydrate : ReadsAlike s s' (hydrateHttpBody envelope row.bodyBlobId) := by
      refine ⟨_, (performs_hydrateHttpBody h.filed envelope row.bodyBlobId).run_nil, ?_⟩
      have houtcome : s.hydrateOutcome envelope row.bodyBlobId =
          s'.hydrateOutcome envelope row.bodyBlobId := by
        simp only [Store.hydrateOutcome, Store.hydrated, htext]
      rw [houtcome]
      exact (performs_hydrateHttpBody h.filed' envelope row.bodyBlobId).run_nil
    exact ReadsAlike.bind hhydrate fun _ => ReadsAlike.pure _

theorem SameRequests.loadAll (h : SameRequests hexSha256 s s')
    (hinj : Function.Injective hexSha256) (rows : List RequestRow) :
    ReadsAlike s s' (loadAll rows) := by
  induction rows with
  | nil => exact ReadsAlike.pure _
  | cons row rest ih =>
    apply ReadsAlike.bind (h.loadRequest hinj row)
    intro stored
    exact ReadsAlike.bind ih fun _ => ReadsAlike.pure _

theorem SameRequests.listRequests (h : SameRequests hexSha256 s s')
    (hinj : Function.Injective hexSha256) (collectionId : Option String) :
    ReadsAlike s s' (listRequests collectionId) := by
  apply ReadsAlike.bind
  · apply ReadsAlike.query
    rw [h.requests]
  · exact h.loadAll hinj

/-! ## Giving up a reference -/

/-- The counter of a blob; zero when there is none. -/
def Store.refCount (s : Store) (id : String) : Int :=
  ((s.blobIndex.find? id).map BlobRow.refCount).getD 0

theorem Store.Filed.find?_eq_none_iff (h : s.Filed hexSha256) :
    s.blobIndex.find? id = none ↔ s.refCount id = 0 := by
  cases hblob : s.blobIndex.find? id with
  | none => simp [Store.refCount, hblob]
  | some blob =>
    have hpositive := h.positive blob (Table.mem_of_find? hblob)
    simp only [Store.refCount, hblob, Option.map_some, Option.getD_some, reduceCtorEq, false_iff]
    omega

theorem Store.Filed.isSome_find?_iff (h : s.Filed hexSha256) :
    (s.blobIndex.find? id).isSome = true ↔ 0 < s.refCount id := by
  cases hblob : s.blobIndex.find? id with
  | none => simp [Store.refCount, hblob]
  | some blob =>
    have hpositive := h.positive blob (Table.mem_of_find? hblob)
    simp only [Store.refCount, hblob, Option.map_some, Option.getD_some, Option.isSome_some,
      true_iff]
    omega

/-- The index once a reference is given up. -/
def releasedIndex (index : Table BlobRow) (id : String) : Table BlobRow :=
  match index.find? id with
  | none => index
  | some blob =>
    if 1 < blob.refCount then
      index.update id (fun b => { b with refCount := b.refCount + -1 }) fun _ => rfl
    else index.filter fun b => b.id ≠ id

/-- The number of effects that giving up one of `n` references takes. -/
def releaseEffects (n : Int) : Nat := if n = 0 then 1 else if n = 1 then 3 else 2

/-- The part of giving up a reference that changes the index; it returns the path
of a file that nothing refers to any more. -/
def takeOut (id : String) : StoreM (Option String) := do
  match ← getBlob id with
  | none => pure none
  | some blob =>
    if 1 < blob.refCount then
      let _ ← execute (Sql.addToRefCount id (-1))
      pure none
    else
      let _ ← execute (Sql.deleteBlob id)
      pure (some blob.relativePath)

theorem releaseBlob_eq (id : String) :
    releaseBlob id = takeOut id >>= fun
      | none => pure ()
      | some path => removeIfPresent path := by
  rw [releaseBlob, takeOut, bind_assoc]
  congr 1
  funext found
  cases found with
  | none => rfl
  | some blob =>
    simp only
    split <;> simp only [bind_assoc, pure_bind]

/-- The file that goes with the last reference to a blob. -/
def Store.lastFile (s : Store) (id : String) : Option String :=
  (s.blobIndex.find? id).bind fun blob =>
    if 1 < blob.refCount then none else some blob.relativePath

theorem performs_takeOut (s : Store) (id : String) :
    Performs (if (s.blobIndex.find? id).isSome then 2 else 1) (takeOut id) s (.ok (s.lastFile id))
      { s with blobIndex := releasedIndex s.blobIndex id } := by
  rw [releasedIndex, Store.lastFile]
  cases hblob : s.blobIndex.find? id with
  | none =>
    apply Fallible.Performs.bind_pure (Performs.query _)
    rw [hblob]
    exact .pure none
  | some blob =>
    simp only [Option.isSome_some, if_true, Option.bind_some]
    apply Fallible.Performs.bind (Performs.query _)
    rw [hblob]
    by_cases hmany : 1 < blob.refCount
    · simp only [if_pos hmany]
      exact .bind_pure (Performs.execute rfl) (.pure none)
    · simp only [if_neg hmany]
      exact .bind_pure (Performs.execute rfl) (.pure _)

theorem performs_removeIfPresent (path : String) :
    Performs 1 (removeIfPresent path) s (.ok ())
      { s with files := s.files.filter fun file => file.path ≠ path } := by
  have hremoved : s.files.find? path = none → (s.files.filter fun file => file.path ≠ path) =
      s.files := by
    intro habsent
    apply Table.ext
    rw [Table.rows_filter, List.filter_eq_self]
    intro file hfile
    have hne : file.path ≠ path := Table.find?_eq_none_iff.mp habsent file hfile
    simpa using hne
  intro faults
  constructor
  · intro hspared
    rw [removeIfPresent, Fallible.run_recover, removeFile,
      Fallible.run_attempt_of_not_struck (spared_one.mp hspared), List.drop_one]
    cases hfile : s.files.find? path with
    | none =>
      rw [hremoved hfile]
      rfl
    | some file => rfl
  · intro hstruck
    rw [spared_one, not_not] at hstruck
    rw [removeIfPresent, Fallible.run_recover, removeFile, Fallible.run_attempt_of_struck hstruck]
    exact ⟨_, _, rfl⟩

theorem performs_releaseBlob (h : s.Filed hexSha256) (id : String) :
    ∃ files, Performs (releaseEffects (s.refCount id)) (releaseBlob id) s (.ok ())
      { s with blobIndex := releasedIndex s.blobIndex id, files } := by
  have htake := performs_takeOut s id
  rw [releaseBlob_eq]
  cases hblob : s.blobIndex.find? id with
  | none =>
    refine ⟨s.files, ?_⟩
    rw [hblob] at htake
    rw [h.find?_eq_none_iff.mp hblob]
    apply Fallible.Performs.bind_pure htake
    rw [Store.lastFile, hblob]
    exact .pure ()
  | some blob =>
    have hpositive := h.positive blob (Table.mem_of_find? hblob)
    have hcount : s.refCount id = blob.refCount := by simp [Store.refCount, hblob]
    rw [hblob] at htake
    rw [hcount]
    by_cases hmany : 1 < blob.refCount
    · refine ⟨s.files, ?_⟩
      rw [releaseEffects, if_neg (by omega), if_neg (by omega)]
      apply Fallible.Performs.bind_pure htake
      rw [Store.lastFile, hblob, Option.bind_some, if_pos hmany]
      exact .pure ()
    · refine ⟨s.files.filter fun file => file.path ≠ blob.relativePath, ?_⟩
      rw [releaseEffects, if_neg (by omega), if_pos (by omega)]
      apply Fallible.Performs.bind htake
      rw [Store.lastFile, hblob, Option.bind_some, if_neg hmany]
      exact performs_removeIfPresent blob.relativePath

/-- What is known of a store once a reference is given up. -/
structure Released (hexSha256 : Bytes → String) (s : Store) (previous : Option String)
    (s' : Store) : Prop where
  filed : s'.Filed hexSha256
  requests : s'.requests = s.requests
  isSome_iff : ∀ id, (s'.blobIndex.find? id).isSome = true ↔
    0 < s.refCount id - if previous = some id then 1 else 0
  sha256 : ∀ id blob, s'.blobIndex.find? id = some blob →
    (s.blobIndex.find? id).map BlobRow.sha256 = some blob.sha256

theorem Released.none (h : s.Filed hexSha256) : Released hexSha256 s none s where
  filed := h
  requests := rfl
  isSome_iff id := by simpa using h.isSome_find?_iff
  sha256 id blob hblob := by rw [hblob, Option.map_some]

theorem find?_releasedIndex (s : Store) (released id : String) :
    (releasedIndex s.blobIndex released).find? id =
      if released = id then
        (s.blobIndex.find? id).bind fun blob =>
          if 1 < blob.refCount then some { blob with refCount := blob.refCount + -1 } else none
      else s.blobIndex.find? id := by
  rw [releasedIndex]
  cases hblob : s.blobIndex.find? released with
  | none =>
    by_cases hid : released = id
    · subst hid
      simp [hblob]
    · rw [if_neg hid]
  | some blob =>
    simp only
    by_cases hmany : 1 < blob.refCount
    · rw [if_pos hmany, Table.find?_update]
      by_cases hid : released = id
      · subst hid
        simp [hblob, hmany]
      · simp [hid, Ne.symm hid]
    · rw [if_neg hmany, Table.find?_filter]
      by_cases hid : released = id
      · subst hid
        have hkey : blob.id = released := Table.key_of_find? hblob
        simp [hblob, hmany, hkey]
      · rw [if_neg hid]
        cases hother : s.blobIndex.find? id with
        | none => rfl
        | some other =>
          have hkey : other.id = id := Table.key_of_find? hother
          simp [hkey, Ne.symm hid]

theorem Released.some (h : s.Filed hexSha256) {released : String} (hfiled : s'.Filed hexSha256)
    (hrequests : s'.requests = s.requests)
    (hindex : s'.blobIndex = releasedIndex s.blobIndex released) :
    Released hexSha256 s (some released) s' where
  filed := hfiled
  requests := hrequests
  isSome_iff id := by
    rw [hindex, find?_releasedIndex s released id, Store.refCount]
    by_cases hid : released = id
    · subst hid
      cases hblob : s.blobIndex.find? released with
      | none => simp
      | some blob =>
        by_cases hmany : 1 < blob.refCount
        · simp [hmany]
        · simp [hmany]
    · rw [if_neg hid, if_neg (by simpa using hid), Int.sub_zero]
      exact h.isSome_find?_iff
  sha256 id blob hblob := by
    rw [hindex, find?_releasedIndex s released id] at hblob
    by_cases hid : released = id
    · rw [if_pos hid] at hblob
      obtain ⟨old, hold, hkept⟩ := Option.bind_eq_some_iff.mp hblob
      split at hkept
      · cases hkept
        rw [hold, Option.map_some]
      · cases hkept
    · rw [if_neg hid] at hblob
      rw [hblob, Option.map_some]

theorem performs_releaseOptional (h : s.Filed hexSha256) (previous : Option String) :
    ∃ s', Performs (match previous with
        | none => 0
        | some id => releaseEffects (s.refCount id)) (releaseOptional previous) s (.ok ()) s' ∧
      Released hexSha256 s previous s' := by
  cases previous with
  | none => exact ⟨s, Fallible.Performs.pure (), Released.none h⟩
  | some released =>
    obtain ⟨files, hperforms⟩ := performs_releaseBlob h released
    have hkeeps : Keeps (Store.Filed hexSha256) (releaseBlob released) :=
      filed_releaseBlob released
    have hkept := hkeeps.state h []
    rw [hperforms.run_nil] at hkept
    exact ⟨_, hperforms, Released.some h hkept rfl rfl⟩

variable {faults : List Bool}

/-- Once its first two effects have taken place, the release is done in the
index, whatever becomes of the file. -/
theorem blobIndex_releaseBlob_of_spared (h : Spared faults 2) :
    ((releaseBlob id).run ⟨s, faults⟩).2.state.blobIndex = releasedIndex s.blobIndex id := by
  have hspared : Spared faults (if (s.blobIndex.find? id).isSome then 2 else 1) := by
    apply h.mono
    split <;> omega
  rw [releaseBlob_eq, Fallible.run_bind_of_ok ((performs_takeOut s id faults).1 hspared)]
  cases s.lastFile id with
  | none => rfl
  | some path =>
    have hframes : Frames Store.blobIndex (removeIfPresent path) :=
      Frames.removeIfPresent (fun _ _ => rfl) path
    exact hframes.state _

/-- Until then the index is untouched. -/
theorem blobIndex_releaseBlob_of_struck (h : ¬ Spared faults 2) :
    ((releaseBlob id).run ⟨s, faults⟩).2.state.blobIndex = s.blobIndex := by
  by_cases hget : Spared faults 1
  · have hrun : (getBlob id).run ⟨s, faults⟩ =
        (.ok (s.blobIndex.find? id), ⟨s, faults.drop 1⟩) := (Performs.query _ faults).1 hget
    have hstruck : (faults.drop 1).head? = some true := by
      by_contra hne
      exact h (spared_add.mpr ⟨hget, spared_one.mpr hne⟩)
    rw [releaseBlob, Fallible.run_bind_of_ok hrun]
    cases hblob : s.blobIndex.find? id with
    | none => rfl
    | some blob =>
      simp only
      split
      · rw [execute, Fallible.run_bind_of_error (Fallible.run_attempt_of_struck hstruck)]
      · rw [execute, Fallible.run_bind_of_error (Fallible.run_attempt_of_struck hstruck)]
  · rw [spared_one, not_not] at hget
    rw [releaseBlob, getBlob, query,
      Fallible.run_bind_of_error (Fallible.run_attempt_of_struck hget)]

/-- Whatever has failed before, every blob of the index can be read: its bytes have its digest,
no other row has that digest, and it is referred to. -/
theorem blobs_readable {id : String} {blob : BlobRow} (h : Reached hexSha256 s)
    (hblob : s.blobIndex.find? id = some blob) :
    (∃ bytes, (readBlob id).run ⟨s, []⟩ = (.ok bytes, ⟨s, []⟩) ∧ hexSha256 bytes = blob.sha256) ∧
      1 ≤ blob.refCount ∧ ∀ other ∈ s.blobIndex.rows, other.sha256 = blob.sha256 → other = blob := by
  have hfiled := filed_of_reached h
  have hmem := Table.mem_of_find? hblob
  obtain ⟨file, hfile, hdigest⟩ := hfiled.filed blob hmem
  exact ⟨⟨file.content, (performs_readBlob hblob hfile).run_nil, hdigest⟩, hfiled.positive blob hmem,
    fun other hother => hfiled.unique other hother blob hmem⟩

/-- The digest of bytes that are put. -/
def putDigest (bytes : Bytes) : String := if bytes = [1] then "ab" else "cd"

/-- The blob that a run has put into the store. -/
theorem blobs_readable_put :
    ∃ (s : Store) (blob : BlobRow), s.blobIndex.find? "b" = some blob ∧
      (∃ bytes, (readBlob "b").run ⟨s, []⟩ = (.ok bytes, ⟨s, []⟩) ∧
        putDigest bytes = blob.sha256) ∧
      1 ≤ blob.refCount ∧ ∀ other ∈ s.blobIndex.rows, other.sha256 = blob.sha256 → other = blob := by
  have hreached : Reached putDigest (((Op.putBlob "b" "t" [1] none).program putDigest).run
      ⟨openedStore "t", []⟩).2.state :=
    .step (.start ⟨"t", (initial_eq_openedStore "t").symm⟩) _ [] trivial
  generalize hs : (((Op.putBlob "b" "t" [1] none).program putDigest).run
    ⟨openedStore "t", []⟩).2.state = s at hreached
  have hblob : s.blobIndex.find? "b" = some ⟨"b", "ab", 1, none, relativePath "ab", 1, "t"⟩ := by
    subst hs
    rfl
  exact ⟨s, _, hblob, blobs_readable hreached hblob⟩

end ApiVoy.LocalStore
