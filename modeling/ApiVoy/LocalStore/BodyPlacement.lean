/-
# Where a saved body goes

Saving a request first finds a place for its body: it stays in the envelope, or
its bytes join the blob that has them already, or they become a new blob. What is
known once the place is found is one structure for all three, together with what
a failure on the way leaves behind.
-/

import ApiVoy.LocalStore.Hydration

namespace ApiVoy.LocalStore

open Foundation Domain

variable {hexSha256 : Bytes → String} {s s₁ : Store} {w w' : Scheduled Store} {id : String}

/-- A call of `saveRequest`, with the id and the time it draws. -/
structure SaveCall where
  blobId : String
  now : Timestamp
  request : RequestEnvelope
  projectId : String
  collectionId : String

/-- Where a body goes: it stays in the envelope, joins a blob with the same bytes,
or becomes a new blob. -/
inductive Placement where
  | inline
  | shared (blob : BlobRow)
  | fresh
  deriving DecidableEq

def placement (hexSha256 : Bytes → String) (s : Store) : Option String → Placement
  | none => .inline
  | some body =>
    if (utf8 body).length ≤ blobThresholdBytes then .inline
    else
      match s.blobIndex.rows.find? fun b => b.sha256 = hexSha256 (utf8 body) with
      | some blob => .shared blob
      | none => .fresh

/-- The number of effects of placing a body; the last one reads the row of the
blob back. -/
def Placement.effects : Placement → Nat
  | .inline => 0
  | .shared _ => 3
  | .fresh => 7

/-- The blob of a placed body, given the id of a new one. -/
def Placement.blobId (newId : String) : Placement → Option String
  | .inline => none
  | .shared blob => some blob.id
  | .fresh => some newId

namespace SaveCall

variable (call : SaveCall)

def program (hexSha256 : Bytes → String) : StoreM StoredRequest :=
  saveRequest hexSha256 call.blobId call.now call.request call.projectId call.collectionId

/-- The blob of the row that the call replaces. -/
def previous (s : Store) : Option String :=
  (s.requests.find? call.request.id).bind RequestRow.bodyBlobId

def envelope (placed : Placement) : RequestEnvelope :=
  match placed.blobId call.blobId with
  | none => call.request.sanitizedForPersistence
  | some id =>
    { call.request.sanitizedForPersistence with
      payload := withBody (blobMarker ++ id) call.request.sanitizedForPersistence.payload }

def row (placed : Placement) (json : Json) : RequestRow :=
  requestRow (call.envelope placed) json call.projectId call.collectionId call.now
    (placed.blobId call.blobId)

/-- The blob that the body is read from: its own, or the one that an inline body
names as a marker. -/
def source (placed : Placement) : Option String :=
  bodySource (call.envelope placed) (placed.blobId call.blobId)

/-- The references to a blob once the body is placed. -/
def held (s : Store) (placed : Placement) (id : String) : Int :=
  s.refCount id + if placed.blobId call.blobId = some id then 1 else 0

/-! ## Placing the body -/

/-- What is known once the body is placed, and of a placing that fails. -/
structure Placing (hexSha256 : Bytes → String) (s : Store) (placed : Placement) (s₁ : Store) :
    Prop where
  externalizes : Performs placed.effects
    (externalizeHttpBody hexSha256 call.blobId call.now call.request.sanitizedForPersistence) s
    (.ok (call.envelope placed, placed.blobId call.blobId)) s₁
  filed : s₁.Filed hexSha256
  requests : s₁.requests = s.requests
  projects : s₁.projects = s.projects
  collections : s₁.collections = s.collections
  counts : ∀ id, s₁.refCount id = call.held s placed id
  inline : placed = .inline → s₁ = s
  digest : ∀ id, placed.blobId call.blobId = some id → ∃ body,
    call.request.payload.body = some body ∧
      (s₁.blobIndex.find? id).map BlobRow.sha256 = some (hexSha256 (utf8 body))
  undone : ∀ id, placed.blobId call.blobId = some id →
    releasedIndex s₁.blobIndex id = s.blobIndex
  early : ∀ faults e w', ¬ Spared faults (placed.effects - 1) →
    (externalizeHttpBody hexSha256 call.blobId call.now
      call.request.sanitizedForPersistence).run ⟨s, faults⟩ = (.error e, w') →
    w'.state.requests = s.requests ∧ w'.state.blobIndex = s.blobIndex
  late : ∀ faults e w', Spared faults (placed.effects - 1) →
    (externalizeHttpBody hexSha256 call.blobId call.now
      call.request.sanitizedForPersistence).run ⟨s, faults⟩ = (.error e, w') →
    w'.state.blobIndex = s₁.blobIndex

theorem placing_inline (h : s.Filed hexSha256)
    (hplaced : placement hexSha256 s call.request.payload.body = .inline) :
    call.Placing hexSha256 s .inline s := by
  have hrun : externalizeHttpBody hexSha256 call.blobId call.now
      call.request.sanitizedForPersistence = pure (call.request.sanitizedForPersistence, none) := by
    unfold externalizeHttpBody
    rw [RequestEnvelope.sanitizedForPersistence_payload, ProtocolPayload.body_sanitized]
    cases hbody : call.request.payload.body with
    | none => rfl
    | some body =>
      rw [hbody, placement] at hplaced
      by_cases hshort : (utf8 body).length ≤ blobThresholdBytes
      · simp only [if_pos hshort]
      · rw [if_neg hshort] at hplaced
        split at hplaced <;> cases hplaced
  refine {
    externalizes := ?_
    filed := h
    requests := rfl
    projects := rfl
    collections := rfl
    counts := fun id => ?_
    inline := fun _ => rfl
    digest := fun id hid => ?_
    undone := fun id hid => ?_
    early := fun faults e w' hstruck _ => ?_
    late := fun faults e w' _ herror => ?_ }
  · rw [hrun]
    exact .pure _
  · simp [held, Placement.blobId]
  · cases hid
  · cases hid
  · exact absurd (spared_zero faults) hstruck
  · rw [hrun] at herror
    cases herror

variable {body : String}

/-- A long body is stored, its row is read back, and the marker takes its place. -/
theorem externalizeHttpBody_long (hbody : call.request.payload.body = some body)
    (hlong : ¬ (utf8 body).length ≤ blobThresholdBytes) :
    externalizeHttpBody hexSha256 call.blobId call.now call.request.sanitizedForPersistence =
      (storeBytes hexSha256 call.blobId call.now (utf8 body) (some "application/octet-stream") >>=
        fun id => requireBlob id >>= fun blob =>
          pure ({ call.request.sanitizedForPersistence with
            payload := withBody (blobMarker ++ blob.id)
              call.request.sanitizedForPersistence.payload }, some blob.id)) := by
  unfold externalizeHttpBody
  have hbody' : call.request.sanitizedForPersistence.payload.body = some body := by
    rw [RequestEnvelope.sanitizedForPersistence_payload, ProtocolPayload.body_sanitized, hbody]
  rw [hbody']
  simp only [if_neg hlong, putBlob_eq, bind_assoc]

theorem traceless_storeBytes {τ : Type} {view : Store → τ}
    (hfiles : ∀ s files, view { s with files := files } = view s) (blobId : String)
    (now : Timestamp) (data : Bytes) (contentType : Option String) :
    Traceless view (storeBytes hexSha256 blobId now data contentType) := by
  have hcleanup (e : StoreError) (path : String) {α : Type} :
      Frames view (do Fallible.ignore (removeFile path); Fallible.fail e : StoreM α) :=
    Frames.bind (.ignore (.removeFile path hfiles)) fun _ => .fail e
  apply Traceless.bind (.query _)
  intro existing
  cases existing with
  | some existing => exact Traceless.bind_pure (Traceless.execute _) fun _ => existing.id
  | none =>
    apply Traceless.bind (.fileEffect fun _ => rfl)
    intro _
    apply Traceless.bind (.recover (.writeBlobFile hfiles _ _) fun e => hcleanup e _)
    intro _
    exact Traceless.bind_pure (Traceless.recover (Traceless.execute _) fun e => hcleanup e _)
      fun _ => blobId

/-- What storing the bytes of a long body establishes. -/
theorem placing_stored {placed : Placement} {body : String} {n : Nat} (blob : BlobRow)
    (hbody : call.request.payload.body = some body)
    (hlong : ¬ (utf8 body).length ≤ blobThresholdBytes)
    (hstore : Performs n (storeBytes hexSha256 call.blobId call.now (utf8 body)
      (some "application/octet-stream")) s (.ok blob.id) s₁)
    (heffects : placed.effects = n + 1) (hid : placed.blobId call.blobId = some blob.id)
    (hne : placed ≠ .inline) (hfiled : s₁.Filed hexSha256)
    (hs₁ : s₁ = { s with blobIndex := s₁.blobIndex, files := s₁.files })
    (hblob : s₁.blobIndex.find? blob.id = some blob)
    (hsha : blob.sha256 = hexSha256 (utf8 body))
    (hcounts : ∀ id, s₁.refCount id = s.refCount id + if blob.id = id then 1 else 0)
    (hundone : releasedIndex s₁.blobIndex blob.id = s.blobIndex) :
    call.Placing hexSha256 s placed s₁ := by
  have hrequests : s₁.requests = s.requests := by rw [hs₁]
  have htraceless : Traceless (fun s => (s.requests, s.blobIndex))
      (storeBytes hexSha256 call.blobId call.now (utf8 body) (some "application/octet-stream")) :=
    traceless_storeBytes (fun _ _ => rfl) _ _ _ _
  refine {
    externalizes := ?_
    filed := hfiled
    requests := hrequests
    projects := by rw [hs₁]
    collections := by rw [hs₁]
    counts := fun id => ?_
    inline := fun h => absurd h hne
    digest := fun id h => ⟨body, hbody, ?_⟩
    undone := fun id h => ?_
    early := fun faults e w' hstruck herror => ?_
    late := fun faults e w' hspared herror => ?_ }
  · rw [externalizeHttpBody_long call hbody hlong, heffects, Nat.add_comm n 1]
    have henvelope : call.envelope placed = { call.request.sanitizedForPersistence with
        payload := withBody (blobMarker ++ blob.id)
          call.request.sanitizedForPersistence.payload } := by
      rw [envelope, hid]
    rw [henvelope, hid]
    apply Fallible.Performs.bind hstore
    exact .bind_pure (performs_requireBlob hblob) (.pure _)
  · rw [hcounts, held, hid]
    simp only [Option.some.injEq]
  · rw [hid] at h
    cases h
    rw [hblob, ← hsha]
    rfl
  · rw [hid] at h
    cases h
    exact hundone
  · rw [heffects, Nat.add_sub_cancel] at hstruck
    rw [externalizeHttpBody_long call hbody hlong] at herror
    obtain ⟨e₁, w₁, hfailed⟩ := (hstore faults).2 hstruck
    rw [Fallible.run_bind_of_error hfailed] at herror
    cases herror
    have hview := htraceless _ _ _ hfailed
    exact ⟨congrArg Prod.fst hview, congrArg Prod.snd hview⟩
  · rw [heffects, Nat.add_sub_cancel] at hspared
    rw [externalizeHttpBody_long call hbody hlong,
      Fallible.run_bind_of_ok ((hstore faults).1 hspared)] at herror
    have hframes : Frames Store.blobIndex (requireBlob blob.id) := Frames.requireBlob blob.id
    exact Traceless.bind_pure (Traceless.of_frames hframes) _ _ _ _ herror

theorem placing_shared {existing : BlobRow} (h : s.Filed hexSha256)
    (hbody : call.request.payload.body = some body)
    (hlong : ¬ (utf8 body).length ≤ blobThresholdBytes)
    (hfound : (s.blobIndex.rows.find? fun b => b.sha256 = hexSha256 (utf8 body)) = some existing) :
    ∃ s₁, call.Placing hexSha256 s (.shared existing) s₁ := by
  have hmem := List.mem_of_find?_eq_some hfound
  have hsha : existing.sha256 = hexSha256 (utf8 body) := by
    simpa using List.find?_some hfound
  have hold : s.blobIndex.find? existing.id = some existing := Table.find?_key hmem
  let index := s.blobIndex.update existing.id (fun b => { b with refCount := b.refCount + 1 })
    fun _ => rfl
  have hfind (id : String) : index.find? id = (s.blobIndex.find? id).map fun b =>
      if id = existing.id then { b with refCount := b.refCount + 1 } else b :=
    Table.find?_update _ _ _ _ _
  have hblob : index.find? existing.id = some { existing with refCount := existing.refCount + 1 } := by
    rw [hfind, hold, Option.map_some, if_pos rfl]
  have hfiled : Store.Filed hexSha256 { s with blobIndex := index } := by
    apply h.updateRefCount
    intro b hb
    have hpositive := h.positive b (Table.mem_of_find? hb)
    omega
  have hpositive := h.positive existing hmem
  have hstore : Performs 2 (storeBytes hexSha256 call.blobId call.now (utf8 body)
      (some "application/octet-stream")) s (.ok existing.id) { s with blobIndex := index } :=
    performs_storeBytes_known call.blobId call.now _ hfound
  refine ⟨_, call.placing_stored { existing with refCount := existing.refCount + 1 } hbody hlong
    hstore rfl rfl (by simp) hfiled rfl hblob hsha ?_ ?_⟩
  · intro id
    show ((index.find? id).map BlobRow.refCount).getD 0 = _
    rw [hfind, Store.refCount]
    by_cases hid : existing.id = id
    · subst hid
      simp [hold]
    · simp [hid, Ne.symm hid]
  · show releasedIndex index existing.id = s.blobIndex
    rw [releasedIndex, hblob]
    have hmany : 1 < existing.refCount + 1 := by omega
    simp only [if_pos hmany]
    apply Table.update_update_of_inverse
    intro b
    simp

theorem placing_fresh (h : s.Filed hexSha256) (hbody : call.request.payload.body = some body)
    (hlong : ¬ (utf8 body).length ≤ blobThresholdBytes)
    (hunknown : (s.blobIndex.rows.find? fun b => b.sha256 = hexSha256 (utf8 body)) = none)
    (hfree : s.blobIndex.find? call.blobId = none) : ∃ s₁, call.Placing hexSha256 s .fresh s₁ := by
  let blob := newBlobRow hexSha256 call.blobId call.now (utf8 body)
    (some "application/octet-stream")
  obtain ⟨index, hinsert⟩ := Table.exists_insert? (r := blob) hfree
  have hfind (id : String) : index.find? id =
      if blob.id = id then some blob else s.blobIndex.find? id := Table.find?_insert hinsert id
  have hblob : index.find? blob.id = some blob := by rw [hfind, if_pos rfl]
  have hfiled : Store.Filed hexSha256
      { s.withFile (relativePath (hexSha256 (utf8 body))) (utf8 body) with blobIndex := index } := by
    have hkept := (filed_putBlob call.blobId call.now (utf8 body)
      (some "application/octet-stream")).state h []
    rwa [(performs_putBlob_new hunknown hinsert).run_nil] at hkept
  refine ⟨_, call.placing_stored blob hbody hlong
    (performs_storeBytes_new hunknown hinsert) rfl rfl (by simp) hfiled rfl hblob rfl ?_ ?_⟩
  · intro id
    show ((index.find? id).map BlobRow.refCount).getD 0 = _
    rw [hfind, Store.refCount]
    by_cases hid : blob.id = id
    · subst hid
      have habsent : s.blobIndex.find? blob.id = none := hfree
      rw [if_pos rfl, if_pos rfl, habsent]
      rfl
    · rw [if_neg hid, if_neg hid, Int.add_zero]
  · show releasedIndex index blob.id = s.blobIndex
    rw [releasedIndex, hblob]
    exact Table.filter_insert hinsert

/-- Unless the id drawn for a new blob is taken, the body finds a place. -/
theorem exists_placing (h : s.Filed hexSha256)
    (hfree : placement hexSha256 s call.request.payload.body = .fresh →
      s.blobIndex.find? call.blobId = none) :
    ∃ s₁, call.Placing hexSha256 s (placement hexSha256 s call.request.payload.body) s₁ := by
  cases hbody : call.request.payload.body with
  | none => exact ⟨s, call.placing_inline h (by rw [hbody]; rfl)⟩
  | some body =>
    by_cases hshort : (utf8 body).length ≤ blobThresholdBytes
    · have hinline : placement hexSha256 s (some body) = .inline := by
        rw [placement, if_pos hshort]
      rw [hinline]
      exact ⟨s, call.placing_inline h (by rw [hbody, hinline])⟩
    · rw [hbody, placement, if_neg hshort] at hfree
      rw [placement, if_neg hshort]
      cases hfound : s.blobIndex.rows.find? fun b => b.sha256 = hexSha256 (utf8 body) with
      | some existing => exact call.placing_shared h hbody hshort hfound
      | none =>
        rw [hfound] at hfree
        exact call.placing_fresh h hbody hshort hfound (hfree rfl)

/-- Unknown bytes are stored under a free id only. -/
theorem free_of_storeBytes_ok {blobId : String} {now : Timestamp} {data : Bytes}
    {contentType : Option String} {faults : List Bool}
    (hunknown : (s.blobIndex.rows.find? fun b => b.sha256 = hexSha256 data) = none)
    (h : (storeBytes hexSha256 blobId now data contentType).run ⟨s, faults⟩ = (.ok id, w')) :
    s.blobIndex.find? blobId = none := by
  have hcleanup (e : StoreError) (path : String) {α : Type} :
      Frames Store.blobIndex (do Fallible.ignore (removeFile path); Fallible.fail e : StoreM α) :=
    Frames.bind (.ignore (.removeFile path fun _ _ => rfl)) fun _ => .fail e
  obtain ⟨found, w₁, hlookup, h⟩ := Fallible.run_bind_eq_ok_iff.mp h
  obtain ⟨hfound, hstate₁⟩ := query_ok hlookup
  rw [hfound, hunknown] at h
  obtain ⟨_, w₂, hcreate, h⟩ := Fallible.run_bind_eq_ok_iff.mp h
  obtain ⟨_, w₃, hwrite, h⟩ := Fallible.run_bind_eq_ok_iff.mp h
  obtain ⟨_, w₄, hinsert, -⟩ := Fallible.run_bind_eq_ok_iff.mp h
  obtain ⟨-, t, ht, -⟩ := Sql.insertBlob_eq_some
    (execute_ok (Fallible.run_recover_ok (fun e => fails_cleanup _ e) hinsert))
  have hframesCreate : Frames Store.blobIndex (fileEffect fun s => s) :=
    Frames.fileEffect fun _ => rfl
  have hstate₂ := hframesCreate.state w₁
  have hframesWrite : Frames Store.blobIndex (Fallible.recover
      (writeBlobFile (relativePath (hexSha256 data)) data) fun e => do
        Fallible.ignore (removeFile (relativePath (hexSha256 data)))
        Fallible.fail e) :=
    Frames.recover (.writeBlobFile (fun _ _ => rfl) _ _) fun e => hcleanup e _
  have hstate₃ := hframesWrite.state w₂
  rw [hcreate] at hstate₂
  rw [hwrite] at hstate₃
  have hfree := (Table.insert?_eq_some_iff.mp ht).1
  rwa [hstate₃, hstate₂, hstate₁] at hfree

/-- A new blob under an id that is taken cannot be stored, and trying leaves no
trace in the tables. -/
theorem externalize_of_taken (hfresh : placement hexSha256 s call.request.payload.body = .fresh)
    (htaken : (s.blobIndex.find? call.blobId).isSome = true) (faults : List Bool) :
    ∃ e w', (externalizeHttpBody hexSha256 call.blobId call.now
        call.request.sanitizedForPersistence).run ⟨s, faults⟩ = (.error e, w') ∧
      w'.state.requests = s.requests ∧ w'.state.blobIndex = s.blobIndex := by
  cases hbody : call.request.payload.body with
  | none =>
    rw [hbody] at hfresh
    cases hfresh
  | some body =>
    rw [hbody, placement] at hfresh
    by_cases hlong : (utf8 body).length ≤ blobThresholdBytes
    · rw [if_pos hlong] at hfresh
      cases hfresh
    · rw [externalizeHttpBody_long call hbody hlong]
      rcases hrun : (storeBytes hexSha256 call.blobId call.now (utf8 body)
          (some "application/octet-stream")).run ⟨s, faults⟩ with ⟨e | id, w'⟩
      · have htraceless : Traceless (fun s => (s.requests, s.blobIndex))
            (storeBytes hexSha256 call.blobId call.now (utf8 body)
              (some "application/octet-stream")) :=
          traceless_storeBytes (fun _ _ => rfl) _ _ _ _
        have hview := htraceless _ _ _ hrun
        exact ⟨e, w', Fallible.run_bind_of_error hrun, congrArg Prod.fst hview,
          congrArg Prod.snd hview⟩
      · rw [if_neg hlong] at hfresh
        have hunknown : (s.blobIndex.rows.find? fun b => b.sha256 = hexSha256 (utf8 body)) =
            none := by
          cases hfound : s.blobIndex.rows.find? fun b => b.sha256 = hexSha256 (utf8 body) with
          | none => rfl
          | some existing =>
            rw [hfound] at hfresh
            cases hfresh
        rw [free_of_storeBytes_ok hunknown hrun] at htaken
        cases htaken

end SaveCall

end ApiVoy.LocalStore
