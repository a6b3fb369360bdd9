/-
# No reference is left without its blob

The counters of the blob index may be too large after a failure, when a reference
was taken and never written down, but they are never too small: whatever fails and
wherever, each operation gives up at most the references of the rows it has removed.
So the blob of a row is there as long as the row is, and keeps its digest. This needs
that a reference that is handed in with an execution was taken for it.
-/

import ApiVoy.Foundation.Triple
import ApiVoy.LocalStore.BlobReferences
import ApiVoy.LocalStore.Hydration

namespace ApiVoy.LocalStore

open Foundation Domain

variable {α β : Type} {s s' : Store} {w w' : Scheduled Store} {id : String}
  {extra extra' : List String} {kept : List (String × String)}

abbrev Triple {α : Type} (P : Store → Prop) (m : StoreM α) (Q : α → Store → Prop)
    (E : Store → Prop) : Prop :=
  Fallible.Triple P m Q E

variable {P : Store → Prop}

theorem triple_query (read : Store → α) : Triple P (query read) (fun a s => P s ∧ a = read s) P :=
  Fallible.Triple.attempt (fun _ hs => hs) fun _ hs => ⟨hs, rfl⟩

theorem triple_execute {P E : Store → Prop} {Q : Nat → Store → Prop}
    {statement : Store → Option (Store × Nat)} (hstruck : ∀ s, P s → E s)
    (hstatement : ∀ s s' n, P s → statement s = some (s', n) → Q n s') :
    Triple P (execute statement) Q E := by
  apply Fallible.Triple.attempt hstruck
  intro s hs
  cases hresult : statement s with
  | none => exact hstruck s hs
  | some result => exact hstatement s result.1 result.2 hs hresult

variable {m : StoreM α}

theorem triple_keeps (h : Keeps P m) : Triple P m (fun _ => P) P :=
  Fallible.Triple.of_maintains h

variable {Q : α → Store → Prop}

/-- An invariant holds beside what a triple says. -/
theorem triple_and_keeps {P E I : Store → Prop} (h : Triple P m Q E) (hkeeps : Keeps I m) :
    Triple (fun s => P s ∧ I s) m (fun a s => Q a s ∧ I s) fun s => E s ∧ I s :=
  Fallible.Triple.and_maintains (I := I) h hkeeps

/-! ## References that are covered -/

def Store.executionReferences (s : Store) : List String :=
  s.executions.rows.flatMap ExecutionRow.references

/-- The counters cover the references of the rows and those an operation holds beside
them, executions refer to the blobs whose digests are kept, and their snapshots can be
read. -/
structure Store.Backs (kept : List (String × String)) (extra : List String) (s : Store) : Prop where
  covers : Covers BlobRow.refCount BlobRow.sha256 s.blobIndex kept (extra ++ s.references)
  referred : ∀ id sha, (id, sha) ∈ kept → id ∈ s.executionReferences
  readable : ∀ row ∈ s.executions.rows, ∀ json, row.requestSnapshot = some json →
    (RequestEnvelope.ofJson json).isSome = true

theorem Store.Backs.less (h : s.Backs kept extra) (hextra : extra'.Subperm extra) :
    s.Backs kept extra' :=
  ⟨h.covers.subperm ((List.subperm_append_right _).mpr hextra), h.referred, h.readable⟩

theorem Store.Backs.bare (h : s.Backs kept extra) : s.Backs kept [] :=
  h.less (List.nil_subperm)

theorem Store.Backs.isSome_find? (h : s.Backs kept extra) (hid : id ∈ s.references) :
    (s.blobIndex.find? id).isSome = true :=
  h.covers.isSome_find? (List.mem_append_right _ hid)

theorem mem_references_of_executions (h : id ∈ s.executionReferences) : id ∈ s.references :=
  List.mem_append_right _ h

theorem Frames.keeps_backs (h : Frames countedView m) : Keeps (Store.Backs kept extra) m := by
  intro w hw
  have hview := h.state w
  simp only [countedView, Prod.mk.injEq] at hview
  obtain ⟨hrequests, hexecutions, hindex⟩ := hview
  constructor
  · rw [Store.references, hrequests, hexecutions, hindex]
    exact hw.covers
  · rw [Store.executionReferences, hexecutions]
    exact hw.referred
  · rw [hexecutions]
    exact hw.readable

/-! ## Taking and giving up references -/

/-- The row of a blob has this digest. -/
def Store.HasDigest (id sha : String) (s : Store) : Prop :=
  (s.blobIndex.find? id).map BlobRow.sha256 = some sha

theorem Store.Backs.addRef (h : s.Backs kept extra) {blob : BlobRow}
    (hblob : s.blobIndex.find? id = some blob) :
    Store.Backs kept (id :: extra) { s with
      blobIndex := s.blobIndex.update id (fun b => { b with refCount := b.refCount + 1 })
        fun _ => rfl } :=
  ⟨h.covers.addRef (f := fun b => { b with refCount := b.refCount + 1 }) hblob (fun _ => rfl)
    (fun _ => rfl) fun _ => rfl, h.referred, h.readable⟩

theorem Store.Backs.insert (h : s.Backs kept extra) {row : BlobRow} {index : Table BlobRow}
    (hrow : s.blobIndex.insert? row = some index) (hone : row.refCount = 1) :
    Store.Backs kept (row.id :: extra) { s with blobIndex := index } :=
  ⟨h.covers.insert hrow hone, h.referred, h.readable⟩

variable (hexSha256 : Bytes → String)

/-- Stored bytes have one reference more, and their digest. -/
theorem triple_putBlob (blobId : String) (now : Timestamp) (data : Bytes)
    (contentType : Option String) :
    Triple (Store.Backs kept extra) (putBlob hexSha256 blobId now data contentType)
      (fun blob s => s.Backs kept (blob.id :: extra) ∧ s.HasDigest blob.id (hexSha256 data))
      (Store.Backs kept extra) := by
  have hrequire : ∀ id, Triple
      (fun s => s.Backs kept (id :: extra) ∧ s.HasDigest id (hexSha256 data)) (requireBlob id)
      (fun blob s => s.Backs kept (blob.id :: extra) ∧ s.HasDigest blob.id (hexSha256 data))
      (Store.Backs kept extra) := by
    intro id
    have hless : ∀ s : Store, s.Backs kept (id :: extra) ∧ s.HasDigest id (hexSha256 data) →
        s.Backs kept extra :=
      fun s hs => hs.1.less (List.sublist_cons_self _ _).subperm
    apply Fallible.Triple.bind
    · exact (triple_query _).weaken (fun _ hs => hs) (fun _ _ hs => hs) hless
    · intro found
      cases found with
      | none => exact Fallible.Triple.fail _ fun s hs => hless s hs.1
      | some blob =>
        apply Fallible.Triple.pure
        intro s hs
        have hid : blob.id = id := Table.key_of_find? hs.2.symm
        rw [hid]
        exact hs.1
  have hwrite : ∀ path, Keeps (Store.Backs kept extra) (Fallible.recover (writeBlobFile path data)
      fun e => do
        Fallible.ignore (removeFile path)
        Fallible.fail e) := by
    intro path
    apply Frames.keeps_backs
    apply Frames.recover (Frames.writeBlobFile (fun _ _ => rfl) _ _)
    intro e
    exact Frames.bind (Frames.ignore (Frames.removeFile _ fun _ _ => rfl)) fun _ => Frames.fail _
  unfold putBlob
  apply Fallible.Triple.bind (triple_query _)
  intro existing
  cases existing with
  | some existing =>
    apply Fallible.Triple.bind _ fun _ => hrequire existing.id
    apply triple_execute (fun s hs => hs.1)
    intro s s' n hs hadded
    have hfound := List.find?_some hs.2.symm
    have hblob := Table.find?_key (List.mem_of_find?_eq_some hs.2.symm)
    simp only [Sql.addToRefCount, Option.some.injEq, Prod.mk.injEq] at hadded
    rw [← hadded.1]
    constructor
    · exact hs.1.addRef hblob
    · have hsha : existing.sha256 = hexSha256 data := by simpa using hfound
      simp only [Store.HasDigest, Table.find?_update]
      rw [show s.blobIndex.find? existing.id = some existing from hblob]
      simp [hsha]
  | none =>
    apply Fallible.Triple.bind
    · exact triple_keeps (P := Store.Backs kept extra) (Keeps.fileEffect fun _ hs => hs) |>.weaken
        (fun _ hs => hs.1) (fun _ _ hs => hs) fun _ hs => hs
    intro _
    apply Fallible.Triple.bind (triple_keeps (hwrite _))
    intro _
    apply Fallible.Triple.bind _ fun _ => hrequire blobId
    apply Fallible.Triple.recover
    · apply triple_execute (fun s hs => hs)
      intro s s' n hs hinserted
      obtain ⟨-, index, hrow, rfl⟩ := Sql.insertBlob_eq_some hinserted
      constructor
      · exact hs.insert hrow rfl
      · simp [Store.HasDigest, Table.find?_insert hrow, Keyed.key]
    · intro e
      apply Fallible.Triple.bind
      · exact triple_keeps (Frames.keeps_backs (Frames.ignore (Frames.removeFile _ fun _ _ => rfl)))
      · exact fun _ => Fallible.Triple.fail _ fun _ hs => hs

/-- A held reference is given up, or it stays when the release fails. -/
theorem triple_releaseBlob (id : String) :
    Triple (Store.Backs kept (id :: extra)) (releaseBlob id) (fun _ => Store.Backs kept extra)
      (Store.Backs kept extra) := by
  have hless : ∀ s : Store, s.Backs kept (id :: extra) → s.Backs kept extra :=
    fun s hs => hs.less List.Subperm.cons_self
  apply Fallible.Triple.bind
  · exact (triple_query _).weaken (fun _ hs => hs) (fun _ _ hs => hs) hless
  · intro found
    cases found with
    | none => exact Fallible.Triple.pure _ fun s hs => hless s hs.1
    | some blob =>
      simp only
      split
      · apply Fallible.Triple.bind (Q := fun _ => Store.Backs kept extra)
        · apply triple_execute (fun s hs => hless s hs.1)
          intro s s' n hs hdropped
          simp only [Sql.addToRefCount, Option.some.injEq, Prod.mk.injEq] at hdropped
          rw [← hdropped.1]
          exact ⟨hs.1.covers.dropRef (f := fun b => { b with refCount := b.refCount + -1 })
            (fun _ => rfl) (fun _ => rfl) fun _ => rfl, hs.1.referred, hs.1.readable⟩
        · exact fun _ => Fallible.Triple.pure _ fun _ hs => hs
      · rename_i hlast
        apply Fallible.Triple.bind (Q := fun _ => Store.Backs kept extra)
        · apply triple_execute (fun s hs => hless s hs.1)
          intro s s' n hs hdeleted
          simp only [Sql.deleteBlob, Option.some.injEq, Prod.mk.injEq] at hdeleted
          rw [← hdeleted.1]
          have hkept : ∀ k sha, (k, sha) ∈ kept → k ∈ extra ++ s.references :=
            fun k sha hk => List.mem_append_right _
              (mem_references_of_executions (hs.1.referred k sha hk))
          exact ⟨hs.1.covers.delete hs.2.symm hlast hkept, hs.1.referred, hs.1.readable⟩
        · intro _
          exact triple_keeps (Frames.keeps_backs (Frames.removeIfPresent (fun _ _ => rfl) _))

theorem triple_releaseOptional (id : Option String) :
    Triple (Store.Backs kept (id.toList ++ extra)) (releaseOptional id)
      (fun _ => Store.Backs kept extra) (Store.Backs kept extra) := by
  cases id with
  | none => exact .pure _ fun _ hs => hs
  | some id => exact triple_releaseBlob id

theorem triple_releaseEach (ids : List String) :
    Triple (Store.Backs kept (ids ++ extra)) (Fallible.each releaseBlob ids)
      (fun _ => Store.Backs kept extra) (Store.Backs kept extra) := by
  apply Fallible.Triple.each (I := fun ids => Store.Backs kept (ids ++ extra))
  intro id rest
  apply (triple_releaseBlob id).weaken (fun _ hs => hs) (fun _ _ hs => hs)
  exact fun s hs => hs.less (List.sublist_append_right rest extra).subperm

theorem triple_releaseAndFail (id : Option String) (e : StoreError) :
    Triple (Store.Backs kept (id.toList ++ extra))
      (do releaseOptional id; Fallible.fail e : StoreM α) Q (Store.Backs kept extra) :=
  Fallible.Triple.bind (triple_releaseOptional id) fun _ => .fail _ fun _ hs => hs

/-! ## Bodies -/

/-- What externalizing an envelope has made of it: the same envelope, or one with a
marker and a blob of the digest of its body. -/
def Externalized (hexSha256 : Bytes → String) (envelope envelope' : RequestEnvelope)
    (s : Store) : Option String → Prop
  | none => envelope' = envelope ∧
      ∀ body, envelope.payload.body = some body → (utf8 body).length ≤ blobThresholdBytes
  | some id => envelope' =
      { envelope with payload := withBody (blobMarker ++ id) envelope.payload } ∧
        ∃ body, envelope.payload.body = some body ∧ s.HasDigest id (hexSha256 (utf8 body))

theorem Externalized.id_eq {hexSha256 : Bytes → String} {envelope envelope' : RequestEnvelope}
    {blobId : Option String} (h : Externalized hexSha256 envelope envelope' s blobId) :
    envelope'.id = envelope.id := by
  cases blobId with
  | none => rw [h.1]
  | some id => rw [h.1]

theorem triple_externalizeHttpBody (hexSha256 : Bytes → String) (blobId : String)
    (now : Timestamp) (envelope : RequestEnvelope) :
    Triple (Store.Backs kept extra) (externalizeHttpBody hexSha256 blobId now envelope)
      (fun r s => s.Backs kept (r.2.toList ++ extra) ∧ Externalized hexSha256 envelope r.1 s r.2)
      (Store.Backs kept extra) := by
  unfold externalizeHttpBody
  cases hbody : envelope.payload.body with
  | none =>
    apply Fallible.Triple.pure
    intro s hs
    refine ⟨hs, rfl, ?_⟩
    intro body hsome
    rw [hbody] at hsome
    cases hsome
  | some body =>
    simp only
    split
    · rename_i hshort
      apply Fallible.Triple.pure
      intro s hs
      refine ⟨hs, rfl, ?_⟩
      intro body' hsome
      rw [hbody] at hsome
      cases hsome
      exact hshort
    · apply Fallible.Triple.bind (triple_putBlob hexSha256 blobId now (utf8 body) _)
      intro blob
      apply Fallible.Triple.pure
      exact fun s hs => ⟨hs.1, rfl, body, hbody, hs.2⟩

/-! ## Requests -/

/-- A written request holds the reference that was taken for it, and leaves that of the
row it replaces. -/
theorem Store.Backs.upsert {row : RequestRow} {n : Nat}
    (h : s.Backs kept (row.bodyBlobId.toList ++ extra))
    (hwritten : Sql.upsertRequest row s = some (s', n)) :
    s'.Backs kept (((s.requests.find? row.id).bind RequestRow.bodyBlobId).toList ++ extra) := by
  obtain ⟨-, -, rfl⟩ := Sql.upsertRequest_eq_some hwritten
  constructor
  · have hperm := (references_upsert s.requests row).append_right
      (s.executions.rows.flatMap ExecutionRow.references)
    have hrow : row.references = row.bodyBlobId.toList := rfl
    rw [hrow, List.append_assoc, List.append_assoc] at hperm
    apply h.covers.subperm
    apply List.Perm.subperm
    rw [List.append_assoc, List.append_assoc]
    have hfront := List.perm_append_comm_assoc
      ((s.requests.find? row.id).bind RequestRow.bodyBlobId).toList extra
      (Store.references { s with
        requests := s.requests.upsert row (fun old => { row with id := old.id }) fun _ => rfl })
    have hback := List.perm_append_comm_assoc extra row.bodyBlobId.toList s.references
    exact hfront.trans ((hperm.symm.append_left extra).trans hback)
  · exact h.referred
  · exact h.readable

theorem backs_saveRequest (blobId : String) (now : Timestamp) (request : RequestEnvelope)
    (projectId collectionId : String) :
    Keeps (Store.Backs kept [])
      (saveRequest hexSha256 blobId now request projectId collectionId) := by
  apply Fallible.Triple.maintains
  apply Fallible.Triple.bind (triple_query _)
  intro previous
  have hrequests : Frames Store.requests
      (externalizeHttpBody hexSha256 blobId now request.sanitizedForPersistence) :=
    Frames.externalizeHttpBody ⟨fun _ _ => rfl, fun _ _ => rfl⟩ _ _ _ _
  have hprevious : Keeps (fun s : Store =>
      previous = (s.requests.find? request.id).bind RequestRow.bodyBlobId)
      (externalizeHttpBody hexSha256 blobId now request.sanitizedForPersistence) :=
    hrequests.keeps fun requests => previous = (requests.find? request.id).bind RequestRow.bodyBlobId
  apply Fallible.Triple.bind
  · exact (triple_and_keeps (triple_externalizeHttpBody hexSha256 blobId now _)
      hprevious).weaken (fun _ hs => hs) (fun _ _ hs => hs) fun _ hs => hs.1
  · rintro ⟨envelope, bodyBlobId⟩
    simp only
    cases hjson : envelope.toJson with
    | none =>
      exact (triple_releaseAndFail bodyBlobId _).weaken (fun _ hs => hs.1.1) (fun _ _ hs => hs)
        fun _ hs => hs
    | some json =>
      apply Fallible.Triple.bind (Q := fun _ => Store.Backs kept (previous.toList ++ []))
      · apply Fallible.Triple.recover _ fun e => triple_releaseAndFail bodyBlobId e
        · apply triple_execute (fun s hs => hs.1.1)
          intro s s' n hs hwritten
          have hid : envelope.id = request.id := hs.1.2.id_eq
          rw [hs.2, ← hid]
          exact hs.1.1.upsert hwritten
      · intro _
        apply Fallible.Triple.bind (triple_releaseOptional previous)
        intro _
        apply Fallible.Triple.bind
        · exact triple_keeps (.of_readOnly (.hydrateHttpBody envelope bodyBlobId))
        · exact fun _ => .pure _ fun _ hs => hs

theorem backs_moveRequest (id projectId collectionId : String) (now : Timestamp) :
    Keeps (Store.Backs kept []) (moveRequest id projectId collectionId now) := by
  apply Keeps.bind (.query _)
  intro collectionProject
  split
  · exact .fail _
  · apply Keeps.bind
    · apply Keeps.execute
      intro s s' n hs hmoved
      obtain ⟨-, rfl, -⟩ := Sql.moveRequest_eq_some hmoved
      have hreferences : (s.requests.update id
          (fun r => { r with projectId, collectionId, updatedAt := now }) fun _ =>
            rfl).rows.flatMap RequestRow.references =
          s.requests.rows.flatMap RequestRow.references := by
        simp only [Table.update, Table.rows_updateWhere, List.flatMap_map]
        congr 1
        funext r
        split <;> rfl
      constructor
      · rw [Store.references, hreferences]
        exact hs.covers
      · exact hs.referred
      · exact hs.readable
    · intro changed
      split
      · exact .fail _
      · exact .pure ()

/-! ## Deletions -/

variable {ids : List String}

/-- After rows were deleted, references they held are still to be given up. -/
theorem Store.Backs.deleted (s' : Store) (gone : RequestRow → Bool) (h : s.Backs kept [])
    (hindex : s'.blobIndex = s.blobIndex)
    (hrequests : s'.requests.rows = s.requests.rows.filter fun r => !gone r)
    (hexecutions : s'.executions = s.executions)
    (hids : ids.Subperm ((s.requests.rows.filter gone).flatMap RequestRow.references)) :
    s'.Backs kept ids := by
  constructor
  · rw [hindex]
    apply h.covers.subperm
    have hperm := references_filter gone hrequests hexecutions
    exact ((List.subperm_append_right _).mpr hids).trans hperm.symm.subperm
  · rw [Store.executionReferences, hexecutions]
    exact h.referred
  · rw [hexecutions]
    exact h.readable

/-- A deletion that finds no row fails; else what the rows held is given up. -/
theorem triple_releaseDeleted (ids : List String) (changed : Nat) (id : String) :
    Triple (Store.Backs kept ids)
      (if changed = 0 then Fallible.fail (.notFound id) else Fallible.each releaseBlob ids)
      (fun _ => Store.Backs kept []) (Store.Backs kept []) := by
  split
  · exact .fail _ fun _ hs => hs.bare
  · have heach : Triple (Store.Backs kept (ids ++ [])) (Fallible.each releaseBlob ids)
        (fun _ => Store.Backs kept []) (Store.Backs kept []) := triple_releaseEach ids
    rwa [List.append_nil] at heach

theorem backs_deleteRequest (id : String) : Keeps (Store.Backs kept []) (deleteRequest id) := by
  apply Fallible.Triple.maintains
  apply Fallible.Triple.bind (triple_query _)
  intro blobId
  apply Fallible.Triple.bind (Q := fun _ => Store.Backs kept (blobId.toList ++ []))
  · apply triple_execute (fun s hs => hs.1)
    intro s s' n hs hdeleted
    simp only [Sql.deleteRequest, Option.some.injEq, Prod.mk.injEq] at hdeleted
    rw [← hdeleted.1, List.append_nil]
    apply Store.Backs.deleted (Sql.dropRequests (fun r => r.id = id) s) (fun r => r.id = id) hs.1
      rfl rfl rfl
    apply List.Perm.subperm
    have hfilter : s.requests.rows.filter (fun r => decide (r.id = id)) =
        (s.requests.find? id).toList := Table.rows_filter_key _ id
    rw [hfilter, flatMap_references_eq, hs.2]
    cases s.requests.find? id with
    | none => exact List.Perm.refl _
    | some r => cases hr : r.bodyBlobId <;> simp [hr]
  · intro changed
    split
    · exact .fail _ fun _ hs => hs.bare
    · exact triple_releaseOptional blobId

/-- What the recursive query for blobs finds belongs to requests that go. -/
theorem Store.HasTree.subtree_references (h : s.HasTree) (hids : s.subtree id = some ids) :
    (s.requests.rows.flatMap fun r =>
      (ids.filter fun c => c = r.collectionId).filterMap fun _ => r.bodyBlobId).Sublist
    ((s.requests.rows.filter fun r => s.falls (fun c => c.id = id) r.collectionId).flatMap
      RequestRow.references) := by
  rw [← flatMap_ite]
  induction s.requests.rows with
  | nil => exact List.Sublist.refl _
  | cons r rest ih =>
    rw [List.flatMap_cons, List.flatMap_cons, h.subtree_blobIds hids]
    refine List.Sublist.append ?_ ih
    split
    · rename_i hgone
      rw [if_pos hgone.2]
    · exact List.nil_sublist _

theorem backs_deleteCollection (id : String) :
    Triple (fun s => s.Backs kept [] ∧ s.HasTree) (deleteCollection id)
      (fun _ => Store.Backs kept []) (Store.Backs kept []) := by
  unfold deleteCollection
  split
  · exact .fail _ fun _ hs => hs.1
  · apply Fallible.Triple.bind (Q := fun blobIds s => s.Backs kept [] ∧ s.HasTree ∧
        ∃ ids, s.subtree id = some ids ∧ blobIds = s.requests.rows.flatMap fun r =>
          (ids.filter fun c => c = r.collectionId).filterMap fun _ => r.bodyBlobId)
    · apply Fallible.Triple.attempt (fun s hs => hs.1)
      intro s hs
      cases hids : s.subtree id with
      | none => exact hs.1
      | some ids => exact ⟨hs.1, hs.2, ids, hids, rfl⟩
    · intro blobIds
      apply Fallible.Triple.bind _ fun changed => triple_releaseDeleted blobIds changed id
      apply triple_execute (fun s hs => hs.1)
      rintro s s' n ⟨hbacks, htree, ids, hids, rfl⟩ hdeleted
      simp only [Sql.deleteCollection, Option.some.injEq, Prod.mk.injEq] at hdeleted
      rw [← hdeleted.1]
      exact Store.Backs.deleted (Sql.dropCollections (fun c => c.id = id) s)
        (fun r => s.falls (fun c => c.id = id) r.collectionId) hbacks rfl rfl rfl
        (htree.subtree_references hids).subperm

theorem backs_deleteProject (id : String) : Keeps (Store.Backs kept []) (deleteProject id) := by
  apply Fallible.Triple.maintains
  unfold deleteProject
  split
  · exact .fail _ fun _ hs => hs
  · apply Fallible.Triple.bind (triple_query _)
    intro blobIds
    apply Fallible.Triple.bind _ fun changed => triple_releaseDeleted blobIds changed id
    apply triple_execute (fun s hs => hs.1)
    rintro s s' n ⟨hbacks, rfl⟩ hdeleted
    simp only [Sql.deleteProject, Option.some.injEq, Prod.mk.injEq] at hdeleted
    rw [← hdeleted.1]
    -- requests go with their project, or with a collection of it
    apply Store.Backs.deleted (Sql.dropProject id s)
      (fun r => s.falls (fun c => c.projectId = id) r.collectionId || decide (r.projectId = id))
      hbacks rfl _ rfl
    · rw [flatMap_references_eq]
      apply List.Sublist.subperm
      apply List.Sublist.filterMap
      apply List.monotone_filter_right
      intro r hr
      rw [hr, Bool.or_true]
    · have hrows : (Sql.dropProject id s).requests.rows =
          (s.requests.rows.filter fun r =>
            !s.falls (fun c => c.projectId = id) r.collectionId).filter fun r =>
              !decide (r.projectId = id) := rfl
      rw [hrows, List.filter_filter]
      apply List.filter_congr
      intro r _
      rw [Bool.not_or, Bool.and_comm]

theorem backs_deleteWorkspace (id : String) : Keeps (Store.Backs kept []) (deleteWorkspace id) := by
  unfold deleteWorkspace
  split
  · exact Keeps.fail _
  · apply Keeps.bind (Keeps.query _)
    intro projects
    apply Keeps.bind (Keeps.each (fun p : ProjectRow => backs_deleteProject p.id) projects)
    intro _
    have hrow : Frames countedView (execute (Sql.deleteWorkspace id)) :=
      Frames.deleteWorkspaceRow (fun _ _ => rfl) id
    exact Frames.keeps_backs (Frames.bind hrow fun _ => Frames.changedOrNotFound _ _)

end ApiVoy.LocalStore
