/-
# The counters are exact

In a run of successful operations every counter of the blob index is the number
of references in the rows. Deletions are the delicate part: what they release is
read before the rows go, by a query of its own, and has to be exactly what the
rows that go along refer to.
-/

import ApiVoy.LocalStore.BlobCounts
import ApiVoy.LocalStore.BlobFiles
import ApiVoy.LocalStore.Ownership
import ApiVoy.LocalStore.Effects

namespace ApiVoy.LocalStore

open Foundation Domain

variable {α : Type} {s s' : Store} {w w' : Scheduled Store} {id projectId : String}
  {refs : List String}

/-- What the references depend on. -/
def referenceView (s : Store) : Table RequestRow × Table ExecutionRow := (s.requests, s.executions)

theorem referenceView_blobBlind : BlobBlind referenceView := ⟨fun _ _ => rfl, fun _ _ => rfl⟩

theorem references_congr (h : referenceView s' = referenceView s) :
    s'.references = s.references := by
  simp only [referenceView, Prod.mk.injEq] at h
  rw [Store.references, h.1, h.2, Store.references]

def Store.Counted (s : Store) : Prop := s.Counting s.references

/-! ## Rows that come and go -/

/-- Writing a request replaces the reference of the row it merges into. -/
theorem references_upsert (requests : Table RequestRow) (row : RequestRow) :
    (row.references ++ requests.rows.flatMap RequestRow.references).Perm
      (((requests.find? row.id).bind RequestRow.bodyBlobId).toList ++
        (requests.upsert row (fun old => { row with id := old.id }) fun _ => rfl).rows.flatMap
          RequestRow.references) := by
  obtain ⟨rest, hbefore, hafter⟩ :=
    requests.rows_perm_upsert row (fun old => { row with id := old.id }) fun _ => rfl
  have hfind : requests.find? (Keyed.key row) = requests.find? row.id := rfl
  rw [hfind] at hbefore hafter
  have hold : (requests.find? row.id).toList.flatMap RequestRow.references =
      ((requests.find? row.id).bind RequestRow.bodyBlobId).toList := by
    cases requests.find? row.id <;> simp [RequestRow.references]
  have hnew : RequestRow.references ((requests.find? row.id).elim row
      fun old => { row with id := old.id }) = row.references := by
    cases requests.find? row.id <;> rfl
  have hrows := hbefore.flatMap_right RequestRow.references
  have hrows' := hafter.flatMap_right RequestRow.references
  rw [List.flatMap_append, hold] at hrows
  rw [List.flatMap_cons, hnew] at hrows'
  have hswap := List.perm_append_comm_assoc row.references
    ((requests.find? row.id).bind RequestRow.bodyBlobId).toList
    (rest.flatMap RequestRow.references)
  exact (hrows.append_left _).trans (hswap.trans (hrows'.symm.append_left _))

/-- The references of deleted requests and of those that stay. -/
theorem references_filter (gone : RequestRow → Bool)
    (hrequests : s'.requests.rows = s.requests.rows.filter fun r => !gone r)
    (hexecutions : s'.executions = s.executions) :
    s.references.Perm
      ((s.requests.rows.filter gone).flatMap RequestRow.references ++ s'.references) := by
  have hsplit := (List.filter_append_perm gone s.requests.rows).symm.flatMap_right
    RequestRow.references
  rw [List.flatMap_append, ← hrequests] at hsplit
  have happend := hsplit.append_right (s.executions.rows.flatMap ExecutionRow.references)
  rw [List.append_assoc] at happend
  rw [Store.references, Store.references, hexecutions]
  exact happend

theorem flatMap_references_eq (rows : List RequestRow) :
    rows.flatMap RequestRow.references = rows.filterMap RequestRow.bodyBlobId :=
  (List.filterMap_eq_flatMap_toList _ _).symm

variable {ids : List String}

/-- After rows were deleted, the counters count the references they held beside
those that stay. -/
theorem counting_of_deleted (s' : Store) {gone : RequestRow → Bool} (hcounted : s.Counted)
    (hindex : s'.blobIndex = s.blobIndex)
    (hrequests : s'.requests.rows = s.requests.rows.filter fun r => !gone r)
    (hexecutions : s'.executions = s.executions)
    (hids : ids.Perm ((s.requests.rows.filter gone).flatMap RequestRow.references)) :
    s'.Counting (ids ++ s'.references) := by
  rw [Store.Counting, hindex]
  exact hcounted.perm ((references_filter gone hrequests hexecutions).trans
    (hids.symm.append_right _))

theorem counted_of_view (hview : referenceView s' = referenceView s)
    (h : s'.Counting s.references) : s'.Counted := by
  rw [Store.Counted, references_congr hview]
  exact h

/-! ## Requests -/

variable {hexSha256 : Bytes → String} {now : Timestamp}

variable {collectionId : String}

theorem counted_saveRequest {blobId : String} {request : RequestEnvelope} {stored : StoredRequest}
    (h : (saveRequest hexSha256 blobId now request projectId collectionId).run w = (.ok stored, w'))
    (hcounted : w.state.Counted) : w'.state.Counted := by
  obtain ⟨previous, w₁, hprevious, h⟩ := Fallible.run_bind_eq_ok_iff.mp h
  obtain ⟨hprevious, hstate₁⟩ := query_ok hprevious
  obtain ⟨⟨envelope, bodyBlobId⟩, w₂, hexternalize, h⟩ := Fallible.run_bind_eq_ok_iff.mp h
  simp only at h
  cases hjson : envelope.toJson with
  | none =>
    rw [hjson] at h
    exact absurd h (fails_cleanup _ _ w₂ stored w')
  | some json =>
    rw [hjson] at h
    obtain ⟨n, w₃, hwrite, h⟩ := Fallible.run_bind_eq_ok_iff.mp h
    obtain ⟨u, w₄, hrelease, h⟩ := Fallible.run_bind_eq_ok_iff.mp h
    obtain ⟨hydrated, w₅, hhydrate, hdone⟩ := Fallible.run_bind_eq_ok_iff.mp h
    cases hdone
    rw [Store.Counted, ← hstate₁] at hcounted
    -- The new reference is taken before the row that holds it is written.
    obtain ⟨htaken, hinline, hmoved⟩ := externalizeHttpBody_ok hexternalize hcounted
    have hid : envelope.id = request.id := by
      cases bodyBlobId with
      | none => rw [(hinline rfl).1]; rfl
      | some id => rw [(hmoved id rfl).1]; rfl
    have hview₂ := (Frames.externalizeHttpBody referenceView_blobBlind hexSha256 blobId now
      request.sanitizedForPersistence).state w₁
    rw [hexternalize] at hview₂
    have hwritten := (Sql.upsertRequest_eq_some
      (execute_ok (Fallible.run_recover_ok (fun e => fails_cleanup _ e) hwrite))).2.2
    have hreferences := references_upsert w₂.state.requests
      (requestRow envelope json projectId collectionId now bodyBlobId)
    have hprevious₂ : (w₂.state.requests.find?
        (requestRow envelope json projectId collectionId now bodyBlobId).id).bind
        RequestRow.bodyBlobId = previous := by
      have hrequests : w₂.state.requests = w.state.requests := by
        rw [← hstate₁]
        exact congrArg Prod.fst hview₂
      rw [hrequests, hprevious]
      exact congrArg (fun k => (w.state.requests.find? k).bind RequestRow.bodyBlobId) hid
    have hreference : (requestRow envelope json projectId collectionId now bodyBlobId).references =
        bodyBlobId.toList := rfl
    rw [hprevious₂, hreference] at hreferences
    have hperm : (bodyBlobId.toList ++ w₁.state.references).Perm
        (previous.toList ++ w₃.state.references) := by
      rw [← references_congr hview₂, hwritten]
      simpa only [Store.references, List.append_assoc] using hreferences.append_right
        (w₂.state.executions.rows.flatMap ExecutionRow.references)
    have hbefore : w₃.state.Counting (previous.toList ++ w₃.state.references) := by
      have hindex : w₃.state.blobIndex = w₂.state.blobIndex := by rw [hwritten]
      rw [Store.Counting, hindex]
      exact htaken.perm hperm
    have hview₄ := (Frames.releaseOptional referenceView_blobBlind previous).state w₃
    rw [hrelease] at hview₄
    have hread := ReadOnly.state_of_run (Frames.hydrateHttpBody envelope bodyBlobId) hhydrate
    rw [hread]
    exact counted_of_view hview₄ (releaseOptional_ok hrelease hbefore)

variable {u : Unit}

theorem counted_deleteRequest (h : (deleteRequest id).run w = (.ok u, w'))
    (hcounted : w.state.Counted) : w'.state.Counted := by
  obtain ⟨blobId, w₁, hquery, h⟩ := Fallible.run_bind_eq_ok_iff.mp h
  obtain ⟨hblobId, hstate₁⟩ := query_ok hquery
  obtain ⟨n, w₂, hdelete, h⟩ := Fallible.run_bind_eq_ok_iff.mp h
  have hdeleted := execute_ok hdelete
  simp only [Sql.deleteRequest, Option.some.injEq, Prod.mk.injEq] at hdeleted
  split at h
  · cases h
  rw [← hstate₁] at hcounted hblobId
  have hbefore : w₂.state.Counting (blobId.toList ++ w₂.state.references) := by
    rw [← hdeleted.1]
    apply counting_of_deleted (Sql.dropRequests (fun r => r.id = id) w₁.state) hcounted rfl rfl rfl
    have hfilter : w₁.state.requests.rows.filter (fun r => decide (r.id = id)) =
        (w₁.state.requests.find? id).toList := Table.rows_filter_key _ id
    rw [hfilter, flatMap_references_eq, hblobId]
    cases w₁.state.requests.find? id with
    | none => exact List.Perm.refl _
    | some r => cases hr : r.bodyBlobId <;> simp [hr]
  have hview := (Frames.releaseOptional referenceView_blobBlind blobId).state w₂
  rw [h] at hview
  exact counted_of_view hview (releaseOptional_ok h hbefore)

theorem counted_moveRequest (h : (moveRequest id projectId collectionId now).run w = (.ok u, w'))
    (hcounted : w.state.Counted) : w'.state.Counted := by
  obtain ⟨collectionProject, w₁, hquery, h⟩ := Fallible.run_bind_eq_ok_iff.mp h
  obtain ⟨-, hstate₁⟩ := query_ok hquery
  split at h
  · cases h
  obtain ⟨n, w₂, hmove, h⟩ := Fallible.run_bind_eq_ok_iff.mp h
  split at h
  · cases h
  cases h
  obtain ⟨-, hmoved, -⟩ := Sql.moveRequest_eq_some (execute_ok hmove)
  rw [← hstate₁] at hcounted
  have hreferences : w'.state.references = w₁.state.references := by
    rw [hmoved]
    simp only [Store.references, Table.update, Table.rows_updateWhere, List.flatMap_map]
    congr 2
    funext r
    split <;> rfl
  rw [Store.Counted, hreferences, Store.Counting, hmoved]
  exact hcounted

/-! ## Deletions of many requests -/

/-- Everything above a collection is in its project. -/
theorem Store.Owned.project_above (h : s.Owned) {a b : String} (habove : Ascends s.parentOf a b)
    {c d : CollectionRow} (hc : s.collections.find? a = some c)
    (hd : s.collections.find? b = some d) : d.projectId = c.projectId := by
  induction habove generalizing d with
  | refl =>
    rw [hc] at hd
    cases hd
    rfl
  | @tail b p _ hstep ih =>
    obtain ⟨row, hrow, hlink⟩ := Option.bind_eq_some_iff.mp hstep
    obtain ⟨up, hup, hproject, -⟩ := h.parent row (Table.mem_of_find? hrow) p hlink
    rw [hd] at hup
    cases hup
    exact hproject.trans (ih hrow)

/-- A deleted project takes along the requests of the project and no others. -/
theorem Store.WellOwned.requests_dropProject (h : s.WellOwned) :
    (Sql.dropProject id s).requests.rows =
      s.requests.rows.filter fun r => !decide (r.projectId = id) := by
  have hrows : (Sql.dropProject id s).requests.rows =
      (s.requests.rows.filter fun r =>
        !s.falls (fun c => c.projectId = id) r.collectionId).filter fun r =>
          !decide (r.projectId = id) := rfl
  rw [hrows, List.filter_filter]
  apply List.filter_congr
  intro r hr
  by_cases hproject : r.projectId = id
  · simp [hproject]
  · obtain ⟨c, hc, hown⟩ := h.2.request r hr
    have hstays : s.falls (fun c => c.projectId = id) r.collectionId = false := by
      by_contra hfalls
      obtain ⟨b, d, habove, hd, hdoomed⟩ := h.1.falls_iff.mp (by simpa using hfalls)
      have hsame := h.2.project_above habove hc hd
      simp only [decide_eq_true_eq] at hdoomed
      exact hproject (by rw [← hown, ← hsame, hdoomed])
    simp [hproject, hstays]

theorem counted_deleteProject (h : (deleteProject id).run w = (.ok u, w'))
    (howned : w.state.WellOwned) (hcounted : w.state.Counted) : w'.state.Counted := by
  unfold deleteProject at h
  split at h
  · cases h
  obtain ⟨blobIds, w₁, hquery, h⟩ := Fallible.run_bind_eq_ok_iff.mp h
  obtain ⟨hblobIds, hstate₁⟩ := query_ok hquery
  obtain ⟨n, w₂, hdelete, h⟩ := Fallible.run_bind_eq_ok_iff.mp h
  have hdeleted := execute_ok hdelete
  simp only [Sql.deleteProject, Option.some.injEq, Prod.mk.injEq] at hdeleted
  split at h
  · cases h
  rw [← hstate₁] at hcounted howned hblobIds
  have hbefore : w₂.state.Counting (blobIds ++ w₂.state.references) := by
    rw [← hdeleted.1]
    apply counting_of_deleted (Sql.dropProject id w₁.state) hcounted rfl
      howned.requests_dropProject rfl
    rw [flatMap_references_eq, hblobIds]
  have hview := (Frames.each (fun id => Frames.releaseBlob referenceView_blobBlind id)
    blobIds).state w₂
  rw [h] at hview
  exact counted_of_view hview (releaseEach_ok h hbefore)

theorem flatMap_ite {β : Type} (p : α → Bool) (f : α → List β) (items : List α) :
    (items.flatMap fun a => if p a then f a else []) = (items.filter p).flatMap f := by
  induction items with
  | nil => rfl
  | cons a rest ih => cases h : p a <;> simp [h, ih]

/-- What the recursive query for blobs finds of a request: its body, if the request goes. -/
theorem Store.HasTree.subtree_blobIds (h : s.HasTree) (hids : s.subtree id = some ids)
    (r : RequestRow) :
    ((ids.filter fun c => c = r.collectionId).filterMap fun _ => r.bodyBlobId) =
      if (s.collections.find? r.collectionId).isSome = true ∧
        s.falls (fun c => c.id = id) r.collectionId = true then r.references else [] := by
  obtain ⟨ids', hids', hnodup, hmem⟩ := h.subtree_eq_some id
  obtain rfl : ids = ids' := by
    rw [hids] at hids'
    simpa using hids'
  have hfalls : ((s.collections.find? r.collectionId).isSome = true ∧
      s.falls (fun c => c.id = id) r.collectionId = true) ↔ r.collectionId ∈ ids := by
    rw [h.falls_iff, hmem]
    refine and_congr_right fun hsome => ?_
    simp only [decide_eq_true_eq]
    constructor
    · rintro ⟨b, d, habove, hd, hkey⟩
      have hb : d.id = b := Table.key_of_find? hd
      rwa [← hkey, hb]
    · intro habove
      obtain ⟨d, hd⟩ := Option.isSome_iff_exists.mp (h.isSome_of_ascends hsome habove)
      exact ⟨id, d, habove, hd, Table.key_of_find? hd⟩
  by_cases hin : r.collectionId ∈ ids
  · have hfilter : (ids.filter fun c => c = r.collectionId) = [r.collectionId] := by
      rw [List.filter_eq, List.count_eq_one_of_mem hnodup hin, List.replicate_one]
    rw [if_pos (hfalls.mpr hin), hfilter, RequestRow.references]
    cases r.bodyBlobId <;> rfl
  · have hfilter : (ids.filter fun c => c = r.collectionId) = [] := by
      rw [List.filter_eq_nil_iff]
      intro c hc hkey
      exact hin (by simpa using (decide_eq_true_eq.mp hkey) ▸ hc)
    rw [if_neg (mt hfalls.mp hin), hfilter]
    rfl

/-- It is what the deleted requests refer to. -/
theorem Store.WellOwned.subtree_references (h : s.WellOwned) (hids : s.subtree id = some ids) :
    (s.requests.rows.flatMap fun r =>
      (ids.filter fun c => c = r.collectionId).filterMap fun _ => r.bodyBlobId) =
    (s.requests.rows.filter fun r => s.falls (fun c => c.id = id) r.collectionId).flatMap
      RequestRow.references := by
  rw [← flatMap_ite]
  refine List.flatMap_congr fun r hr => ?_
  obtain ⟨c, hc, -⟩ := h.2.request r hr
  simp only [h.1.subtree_blobIds hids, hc, Option.isSome_some, true_and]

theorem counted_deleteCollection (h : (deleteCollection id).run w = (.ok u, w'))
    (howned : w.state.WellOwned) (hcounted : w.state.Counted) : w'.state.Counted := by
  unfold deleteCollection at h
  split at h
  · cases h
  obtain ⟨blobIds, w₁, hquery, h⟩ := Fallible.run_bind_eq_ok_iff.mp h
  obtain ⟨-, haction, -⟩ := Fallible.run_attempt_eq_ok_iff.mp hquery
  obtain ⟨n, w₂, hdelete, h⟩ := Fallible.run_bind_eq_ok_iff.mp h
  have hdeleted := execute_ok hdelete
  simp only [Sql.deleteCollection, Option.some.injEq, Prod.mk.injEq] at hdeleted
  split at h
  · cases h
  cases hids : w.state.subtree id with
  | none => simp [hids] at haction
  | some ids =>
    simp only [hids, Prod.mk.injEq, Except.ok.injEq] at haction
    obtain ⟨hblobIds, hstate₁⟩ := haction
    have hbefore : w₂.state.Counting (blobIds ++ w₂.state.references) := by
      rw [← hdeleted.1, ← hstate₁]
      apply counting_of_deleted (Sql.dropCollections (fun c => c.id = id) w.state) hcounted
        rfl rfl rfl
      rw [← hblobIds, howned.subtree_references hids]
    have hview := (Frames.each (fun id => Frames.releaseBlob referenceView_blobBlind id)
      blobIds).state w₂
    rw [h] at hview
    exact counted_of_view hview (releaseEach_ok h hbefore)

/-- Deleting projects one after the other. -/
theorem counted_deleteProjects {projects : List ProjectRow}
    (h : (Fallible.each (fun p : ProjectRow => deleteProject p.id) projects).run w = (.ok u, w'))
    (howned : w.state.WellOwned) (hcounted : w.state.Counted) : w'.state.Counted := by
  induction projects generalizing w with
  | nil =>
    cases h
    exact hcounted
  | cons p rest ih =>
    obtain ⟨_, w₁, hdelete, hrest⟩ := Fallible.run_bind_eq_ok_iff.mp h
    have howned₁ := wellOwned_deleteProject p.id w howned
    rw [hdelete] at howned₁
    exact ih hrest howned₁ (counted_deleteProject hdelete howned hcounted)

theorem counted_deleteWorkspace (h : (deleteWorkspace id).run w = (.ok u, w'))
    (howned : w.state.WellOwned) (hcounted : w.state.Counted) : w'.state.Counted := by
  unfold deleteWorkspace at h
  split at h
  · cases h
  obtain ⟨projects, w₁, hquery, h⟩ := Fallible.run_bind_eq_ok_iff.mp h
  obtain ⟨-, hstate₁⟩ := query_ok hquery
  obtain ⟨_, w₂, heach, h⟩ := Fallible.run_bind_eq_ok_iff.mp h
  obtain ⟨n, w₃, hdelete, h⟩ := Fallible.run_bind_eq_ok_iff.mp h
  rw [← hstate₁] at howned hcounted
  have hcounted₂ := counted_deleteProjects heach howned hcounted
  obtain ⟨hdeleted, -⟩ := Sql.deleteWorkspace_eq_some (execute_ok hdelete)
  have hdone := ReadOnly.state_of_run (Frames.changedOrNotFound id n) h
  rw [hdone, hdeleted]
  exact hcounted₂

/-! ## Executions -/

/-- A snapshot whose body is not a marker by itself: when it is short enough to
stay in the row, it does not start like one. -/
def PlainSnapshot (snapshot : Option RequestEnvelope) : Prop :=
  ∀ request, snapshot = some request → ∀ body, request.payload.body = some body →
    (utf8 body).length ≤ blobThresholdBytes → stripMarker body = none

theorem externalizeSnapshot_ok {hexSha256 : Bytes → String} {blobId : String} {now : Timestamp}
    {snapshot snapshot' : Option RequestEnvelope} {bodyBlobId : Option String}
    (h : (externalizeSnapshot hexSha256 blobId now snapshot).run w =
      (.ok (snapshot', bodyBlobId), w'))
    (hplain : PlainSnapshot snapshot) (hcounts : w.state.Counting refs) :
    w'.state.Counting (bodyBlobId.toList ++ refs) ∧
      ∀ json, snapshotJson snapshot' = some json → snapshotBlobId json = bodyBlobId := by
  cases snapshot with
  | none =>
    cases h
    refine ⟨hcounts, fun json hjson => ?_⟩
    cases hjson
    rfl
  | some request =>
    obtain ⟨⟨envelope, found⟩, w₁, hexternalize, hdone⟩ := Fallible.run_bind_eq_ok_iff.mp h
    cases hdone
    obtain ⟨htaken, hinline, hmoved⟩ := externalizeHttpBody_ok hexternalize hcounts
    refine ⟨htaken, fun json hjson => ?_⟩
    obtain ⟨stored, hstored, rfl⟩ := Option.map_eq_some_iff.mp hjson
    rw [snapshotBlobId, Option.bind_some, RequestEnvelope.body_ofJson hstored]
    cases bodyBlobId with
    | none =>
      obtain ⟨heq, hshort⟩ := hinline rfl
      subst heq
      simp only [RequestEnvelope.sanitizedForPersistence_payload,
        ProtocolPayload.body_sanitized] at hshort ⊢
      cases hbody : request.payload.body with
      | none => rfl
      | some body => exact hplain request rfl body hbody (hshort body hbody)
    | some id =>
      obtain ⟨heq, hsome⟩ := hmoved id rfl
      subst heq
      cases hpayload : request.sanitizedForPersistence.payload with
      | http payload =>
        simp [withBody, ProtocolPayload.body, stripMarker_append]
      | _ =>
        rw [hpayload] at hsome
        cases hsome

theorem externalizePreview_ok {hexSha256 : Bytes → String} {blobId : String} {now : Timestamp}
    {bodyBlobId preview preview' responseBlobId responseBlobId' : Option String}
    (h : (externalizePreview hexSha256 blobId now bodyBlobId preview responseBlobId).run w =
      (.ok (preview', responseBlobId'), w'))
    (hcounts : w.state.Counting (responseBlobId.toList ++ refs)) :
    w'.state.Counting (responseBlobId'.toList ++ refs) := by
  unfold externalizePreview at h
  split at h
  · split at h
    · cases h
      exact hcounts
    · obtain ⟨blob, w₁, hput, hdone⟩ := Fallible.run_bind_eq_ok_iff.mp h
      cases hdone
      exact putBlob_ok (Fallible.run_recover_ok (fun e => fails_cleanup _ e) hput) hcounts
  · cases h
    exact hcounts

/-- A recorded execution refers to what was taken for it and handed in with it. -/
theorem counted_recordExecution {bodyBlobNew previewBlobNew : String} {record : ExecutionRecord}
    (h : (recordExecution hexSha256 bodyBlobNew previewBlobNew now record).run w = (.ok u, w'))
    (hplain : PlainSnapshot record.requestSnapshot)
    (hcounts : w.state.Counting (record.responseBlobId.toList ++ w.state.references)) :
    w'.state.Counted := by
  obtain ⟨⟨snapshot, bodyBlobId⟩, w₁, hsnapshot, h⟩ := Fallible.run_bind_eq_ok_iff.mp h
  simp only at h
  cases hjson : snapshotJson snapshot with
  | none =>
    rw [hjson] at h
    exact absurd h (fails_cleanup _ _ w₁ u w')
  | some json =>
    rw [hjson] at h
    obtain ⟨⟨preview, responseBlobId⟩, w₂, hpreview, h⟩ := Fallible.run_bind_eq_ok_iff.mp h
    obtain ⟨n, w₃, hinsert, hdone⟩ := Fallible.run_bind_eq_ok_iff.mp h
    cases hdone
    obtain ⟨htaken, hmarker⟩ := externalizeSnapshot_ok hsnapshot hplain hcounts
    have hcounting : w₂.state.Counting
        (responseBlobId.toList ++ (bodyBlobId.toList ++ w.state.references)) := by
      apply externalizePreview_ok hpreview
      exact htaken.perm (List.perm_append_comm_assoc _ _ _)
    have hview₁ := (Frames.externalizeSnapshot referenceView_blobBlind hexSha256 bodyBlobNew
      now record.requestSnapshot).state w
    have hview₂ := (Frames.externalizePreview referenceView_blobBlind hexSha256 previewBlobNew
      now bodyBlobId record.preview record.responseBlobId).state w₁
    rw [hsnapshot] at hview₁
    rw [hpreview] at hview₂
    rw [← references_congr (hview₂.trans hview₁)] at hcounting
    have hinserted := execute_ok (Fallible.run_recover_ok
      (fun e => Fallible.Fails.bind _ fun _ => fails_cleanup _ e) hinsert)
    obtain ⟨executions, hrow, heq⟩ := Sql.insertExecution_eq_some hinserted
    have hreferences : w'.state.references = w₂.state.references ++
        (bodyBlobId.toList ++ responseBlobId.toList) := by
      rw [heq]
      simp only [Store.references, (Table.insert?_eq_some_iff.mp hrow).2, List.flatMap_append,
        List.flatMap_singleton, List.append_assoc]
      rw [ExecutionRow.references, executionRow, hmarker json hjson]
    rw [Store.Counted, hreferences, Store.Counting, heq]
    refine hcounting.perm ?_
    rw [← List.append_assoc]
    exact (List.perm_append_comm.append_right _).trans List.perm_append_comm

/-- Storing a response and recording the execution with it. -/
theorem counted_recordWithResponse {hexSha256 : Bytes → String} {responseBlobNew : String}
    {data : Bytes} {contentType : Option String} {bodyBlobNew previewBlobNew : String}
    {now : Timestamp} {record : ExecutionRecord} {u : Unit}
    (h : (recordWithResponse hexSha256 responseBlobNew data contentType bodyBlobNew
      previewBlobNew now record).run w = (.ok u, w'))
    (hplain : PlainSnapshot record.requestSnapshot) (hcounted : w.state.Counted) :
    w'.state.Counted := by
  obtain ⟨blob, w₁, hput, hrecord⟩ := Fallible.run_bind_eq_ok_iff.mp h
  have hview := (Frames.putBlob referenceView_blobBlind hexSha256 responseBlobNew now data
    contentType).state w
  rw [hput] at hview
  apply counted_recordExecution hrecord hplain
  rw [references_congr hview]
  exact putBlob_ok hput hcounted

/-! ## Operations that take and release nothing -/

/-- What the counting depends on. -/
def countedView (s : Store) : Table RequestRow × Table ExecutionRow × Table BlobRow :=
  (s.requests, s.executions, s.blobIndex)

theorem Frames.keeps_counted {m : StoreM α} (h : Frames countedView m) : Keeps Store.Counted m :=
  h.keeps fun shown => Counts BlobRow.refCount shown.2.2
    (shown.1.rows.flatMap RequestRow.references ++
      shown.2.1.rows.flatMap ExecutionRow.references)

theorem countedView_forestBlind : ForestBlind countedView :=
  ⟨⟨fun _ _ => rfl, fun _ _ => rfl, fun _ _ => rfl, fun _ _ => rfl, fun _ _ => rfl⟩,
    fun _ _ => rfl, fun _ _ => rfl, fun _ _ => rfl⟩

/-! ## Runs -/

/-- The steps whose references are all counted: a request is saved within its
project, a stored response is handed to the execution it belongs to, and no
recorded snapshot has a marker for a body. -/
def Op.KeepsCounts (s : Store) : Op → Prop
  | .saveRequest _ _ _ projectId collectionId => SavesWithin s projectId collectionId
  | .putBlob .. => False
  | .recordExecution _ _ _ record =>
    record.responseBlobId = none ∧ PlainSnapshot record.requestSnapshot
  | .recordWithResponse _ _ _ _ _ _ record => PlainSnapshot record.requestSnapshot
  | _ => True

/-- The states of the runs in which every step is such a step and succeeds. -/
abbrev ReachedCounted (hexSha256 : Bytes → String) : Store → Prop :=
  Fallible.Reachable (Op.program hexSha256) Fresh fun s op result =>
    op.KeepsCounts s ∧ result.isOk = true

theorem reachedWithin_of_counted (h : ReachedCounted hexSha256 s) : ReachedWithin hexSha256 s := by
  refine Fallible.Reachable.mono ?_ h
  intro s op result hstep
  cases op with
  | saveRequest blobId now request projectId collectionId => exact hstep.1
  | _ => trivial

/-- One successful step keeps the counters exact. -/
theorem counted_program {op : Op} (h : (op.program hexSha256).run w = (.ok u, w'))
    (hop : op.KeepsCounts w.state) (howned : w.state.WellOwned) (hcounted : w.state.Counted) :
    w'.state.Counted := by
  have hframes (hframes : Frames countedView (op.program hexSha256)) : w'.state.Counted := by
    have hkept := hframes.keeps_counted w hcounted
    rwa [h] at hkept
  have hdiscard {β : Type} {m : StoreM β} {result : Unit}
      (hrun : (discard m).run w = (.ok result, w')) : ∃ a, m.run w = (.ok a, w') := by
    obtain ⟨a, w₁, hm, hdone⟩ := Fallible.run_bind_eq_ok_iff.mp hrun
    cases hdone
    exact ⟨a, hm⟩
  cases op with
  | deleteWorkspace id => exact counted_deleteWorkspace h howned hcounted
  | deleteProject id => exact counted_deleteProject h howned hcounted
  | deleteCollection id => exact counted_deleteCollection h howned hcounted
  | saveRequest blobId now request projectId collectionId =>
    obtain ⟨stored, hsave⟩ := hdiscard h
    exact counted_saveRequest hsave hcounted
  | deleteRequest id => exact counted_deleteRequest h hcounted
  | moveRequest id projectId collectionId now => exact counted_moveRequest h hcounted
  | putBlob blobId now data contentType => exact hop.elim
  | recordExecution bodyBlobNew previewBlobNew now record =>
    apply counted_recordExecution h hop.2
    rw [hop.1]
    exact hcounted
  | recordWithResponse responseBlobNew data contentType bodyBlobNew previewBlobNew now record =>
    exact counted_recordWithResponse h hop hcounted
  | _ => exact hframes (Frames.arranging countedView_forestBlind hexSha256 _ rfl)

theorem counted_of_reached (h : ReachedCounted hexSha256 s) : s.Counted := by
  induction h with
  | start hfresh =>
    obtain ⟨now, rfl⟩ := hfresh
    rw [initial_eq_openedStore]
    exact Counts.empty
  | step hreached op faults hadmitted ih =>
    rename_i s
    obtain ⟨hop, hok⟩ := hadmitted
    rcases hrun : (op.program hexSha256).run ⟨s, faults⟩ with ⟨e | u, w'⟩
    · rw [hrun] at hok
      cases hok
    · exact counted_program hrun hop (wellOwned_of_reachedWithin (reachedWithin_of_counted hreached)) ih

/-- The references to a blob: requests by their body, executions by their
snapshot, and executions by their response. -/
def Store.referencesTo (s : Store) (id : String) : Nat :=
  s.requests.rows.countP (fun r => r.bodyBlobId = some id) +
    s.executions.rows.countP (fun e => snapshotBlobId e.requestSnapshot = some id) +
    s.executions.rows.countP fun e => e.responseBlobId = some id

theorem count_flatMap_toList {β : Type} (id : String) (f : β → Option String)
    (items : List β) :
    (items.flatMap fun b => (f b).toList).count id = items.countP fun b => f b = some id := by
  induction items with
  | nil => rfl
  | cons b rest ih =>
    rw [List.flatMap_cons, List.count_append, ih, List.countP_cons, Nat.add_comm]
    congr 1
    cases hb : f b with
    | none => rfl
    | some found => by_cases h : found = id <;> simp [h]

theorem count_references : s.references.count id = s.referencesTo id := by
  have hrequests := count_flatMap_toList id RequestRow.bodyBlobId s.requests.rows
  have hsnapshots := count_flatMap_toList id
    (fun e : ExecutionRow => snapshotBlobId e.requestSnapshot) s.executions.rows
  have hresponses := count_flatMap_toList id ExecutionRow.responseBlobId s.executions.rows
  have hexecutions : (s.executions.rows.flatMap ExecutionRow.references).count id =
      (s.executions.rows.flatMap fun e => (snapshotBlobId e.requestSnapshot).toList).count id +
        (s.executions.rows.flatMap fun e => e.responseBlobId.toList).count id := by
    induction s.executions.rows with
    | nil => rfl
    | cons e rest ih =>
      simp only [List.flatMap_cons, List.count_append, ExecutionRow.references, ih]
      omega
  rw [Store.references, List.count_append, hexecutions, hsnapshots, hresponses,
    Store.referencesTo, Nat.add_assoc, ← hrequests]
  rfl

/-- In every state of such a run the counter of a blob is the number of
references to it, there is a blob exactly where there are references, and no row
refers to a blob that is not there. -/
theorem blob_counts_exact {hexSha256 : Bytes → String} (h : ReachedCounted hexSha256 s) :
    (∀ b ∈ s.blobIndex.rows, b.refCount = s.referencesTo b.id) ∧
      (∀ id, (s.blobIndex.find? id).isSome = true ↔ 1 ≤ s.referencesTo id) ∧
      (∀ r ∈ s.requests.rows, ∀ id, r.bodyBlobId = some id →
        (s.blobIndex.find? id).isSome = true) ∧
      ∀ e ∈ s.executions.rows, ∀ id,
        snapshotBlobId e.requestSnapshot = some id ∨ e.responseBlobId = some id →
          (s.blobIndex.find? id).isSome = true := by
  have hcounted := counted_of_reached h
  refine ⟨?_, ?_, ?_, ?_⟩
  · intro b hb
    rw [← count_references]
    exact hcounted.count_eq b hb
  · intro id
    rw [hcounted.referred, ← count_references]
    exact List.count_pos_iff.symm
  · intro r hr id hid
    apply (hcounted.referred id).mpr
    apply List.mem_append_left
    exact List.mem_flatMap.mpr ⟨r, hr, by simp [RequestRow.references, hid]⟩
  · intro e he id hid
    apply (hcounted.referred id).mpr
    apply List.mem_append_right
    exact List.mem_flatMap.mpr ⟨e, he, by simpa [ExecutionRow.references] using hid⟩

/-! ## One row, two references -/

/-- The number of rows that refer to a blob, however often each does. -/
def Store.rowsReferringTo (s : Store) (id : String) : Nat :=
  s.requests.rows.countP (fun r => r.bodyBlobId = some id) +
    s.executions.rows.countP fun e =>
      snapshotBlobId e.requestSnapshot = some id ∨ e.responseBlobId = some id

def echoRequest (text : String) : RequestEnvelope :=
  let request := RequestEnvelope.httpGet "r" "t" "echo" "http://localhost"
  { request with payload := withBody text request.payload }

/-- An execution whose response is the body that was sent. -/
def echoRecord (text : String) : ExecutionRecord where
  id := "e"
  requestId := "r"
  protocolId := "http"
  state := "completed"
  status := some 200
  durationMs := 1
  bytesReceived := 1
  startedAt := "t"
  finishedAt := "t"
  requestSnapshot := some (echoRequest text)
  preview := some text
  responseBlobId := none

variable {text : String}

/-- The request is read back with the marker in the place of its body. -/
theorem echoRequest_marked (text id : String) : ∃ json,
    RequestEnvelope.toJson { (echoRequest text).sanitizedForPersistence with
      payload := withBody (blobMarker ++ id) (echoRequest text).sanitizedForPersistence.payload } =
        some json ∧ snapshotBlobId (some json) = some id := by
  obtain ⟨json, hwrite, hread⟩ := RequestEnvelope.ofJson_toJson
    (e := { (echoRequest text).sanitizedForPersistence with
      payload := withBody (blobMarker ++ id)
        (echoRequest text).sanitizedForPersistence.payload }) trivial
  refine ⟨json, hwrite, ?_⟩
  rw [snapshotBlobId, Option.bind_some, hread]
  show (some (blobMarker ++ id)).bind stripMarker = some id
  exact stripMarker_append id

/-- The blob of a text and the store that it is the first one of. -/
def textBlob (hexSha256 : Bytes → String) (text : String) : BlobRow :=
  newBlobRow hexSha256 "b" "t" (utf8 text) (some "application/octet-stream")

def textStore (hexSha256 : Bytes → String) (text : String) : Store :=
  { (openedStore "t").withFile (relativePath (hexSha256 (utf8 text))) (utf8 text) with
    blobIndex := .single (textBlob hexSha256 text) }

theorem performs_externalize_echo (hexSha256 : Bytes → String)
    (hlong : ¬ (utf8 text).length ≤ blobThresholdBytes) :
    Performs 7 (externalizeHttpBody hexSha256 "b" "t" (echoRequest text).sanitizedForPersistence)
      (openedStore "t") (.ok ({ (echoRequest text).sanitizedForPersistence with
        payload := withBody (blobMarker ++ "b")
          (echoRequest text).sanitizedForPersistence.payload }, some "b"))
      (textStore hexSha256 text) :=
  performs_externalizeHttpBody_long rfl hlong (performs_putBlob_new rfl rfl)

/-- When a long text comes back, its snapshot and its preview are one blob with
two references from one row. -/
theorem performs_echo (hexSha256 : Bytes → String)
    (hlong : ¬ (utf8 text).length ≤ blobThresholdBytes) :
    ∃ n s', Performs n (recordExecution hexSha256 "b" "p" "t" (echoRecord text)) (openedStore "t")
        (.ok ()) s' ∧
      s'.requests.rows = [] ∧ ∃ row, s'.executions.rows = [row] ∧
        snapshotBlobId row.requestSnapshot = some "b" ∧ row.responseBlobId = some "b" := by
  obtain ⟨json, hwrite, hmarker⟩ := echoRequest_marked text "b"
  -- The preview has the same bytes, so it is the same blob.
  have hfound : ((textStore hexSha256 text).blobIndex.rows.find? fun b =>
      b.sha256 = hexSha256 (utf8 text)) = some (textBlob hexSha256 text) := by
    simp [textStore, Table.single, textBlob, newBlobRow]
  have hpreview := performs_externalizePreview_long (some "b") hlong
    (performs_putBlob_known "p" "t" (some "text/plain") hfound)
  refine ⟨_, _, performs_recordExecution (Fallible.Performs.bind_pure
    (performs_externalize_echo hexSha256 hlong) (Fallible.Performs.pure _))
    (congrArg (Option.map some) hwrite) hpreview rfl, rfl, _, rfl, hmarker, rfl⟩

theorem exists_long : ∃ text : String, ¬ (utf8 text).length ≤ blobThresholdBytes := by
  have hlength : ∀ n, (utf8 (String.ofList (List.replicate n 'x'))).length = n := by
    intro n
    have hone : (encodeChar 'x').length = 1 := rfl
    rw [utf8, String.toList_ofList, encodeChars, List.length_flatMap, List.map_replicate, hone]
    simp
  refine ⟨String.ofList (List.replicate 65537 'x'), ?_⟩
  rw [hlength, blobThresholdBytes]
  omega

theorem plainSnapshot_echo (hlong : ¬ (utf8 text).length ≤ blobThresholdBytes) :
    PlainSnapshot (some (echoRequest text)) := by
  intro request hrequest body hbody hshort
  cases hrequest
  cases hbody
  exact absurd hshort hlong

/-- A request and an execution whose long bodies are one text share the blob. -/
theorem performs_share (hexSha256 : Bytes → String)
    (hlong : ¬ (utf8 text).length ≤ blobThresholdBytes) :
    ∃ n m saved s₁ s₂,
      Performs n (saveRequest hexSha256 "b" "t" (echoRequest text) "default-project"
        "default-collection") (openedStore "t") (.ok saved) s₁ ∧
      Performs m (recordExecution hexSha256 "c" "p" "t" { echoRecord text with preview := none }) s₁
        (.ok ()) s₂ ∧
      (∃ row, s₂.requests.rows = [row] ∧ row.bodyBlobId = some "b") ∧
      ∃ row, s₂.executions.rows = [row] ∧ snapshotBlobId row.requestSnapshot = some "b" ∧
        row.responseBlobId = none := by
  obtain ⟨json, hwrite, hmarker⟩ := echoRequest_marked text "b"
  have hfile : (textStore hexSha256 text).files.find? (relativePath (hexSha256 (utf8 text))) =
      some ⟨relativePath (hexSha256 (utf8 text)), utf8 text⟩ :=
    (find?_writeFile _ _ _ _).trans (if_pos rfl)
  have hhandler (e : StoreError) : Fallible.Fails (do
      releaseOptional (some "b")
      Fallible.fail e : StoreM Nat) := fails_cleanup _ e
  let row := requestRow { (echoRequest text).sanitizedForPersistence with
      payload := withBody (blobMarker ++ "b") (echoRequest text).sanitizedForPersistence.payload }
    json "default-project" "default-collection" "t" (some "b")
  let s₁ : Store := { textStore hexSha256 text with requests := .single row }
  have hsave : ∃ n saved, Performs n (saveRequest hexSha256 "b" "t" (echoRequest text)
      "default-project" "default-collection") (openedStore "t") (.ok saved) s₁ := by
    apply Exists.intro
    apply Exists.intro
    apply Fallible.Performs.bind (Performs.query _)
    apply Fallible.Performs.bind (performs_externalize_echo hexSha256 hlong)
    simp only [hwrite]
    apply Fallible.Performs.bind (.recover_ok hhandler (Performs.execute rfl))
    apply Fallible.Performs.bind (.pure ())
    exact .bind_pure (.bind_pure (performs_readBlob rfl hfile) (.pure _)) (.pure _)
  obtain ⟨n, saved, hsave⟩ := hsave
  have hfound : (s₁.blobIndex.rows.find? fun b => b.sha256 = hexSha256 (utf8 text)) =
      some (textBlob hexSha256 text) := by
    simp [s₁, textStore, Table.single, textBlob, newBlobRow]
  have hbody : (echoRequest text).sanitizedForPersistence.payload.body = some text := rfl
  have hsnapshot := performs_externalizeHttpBody_long hbody hlong
    (performs_putBlob_known "c" "t" (some "application/octet-stream") hfound)
  refine ⟨n, _, saved, s₁, _, hsave, performs_recordExecution (Fallible.Performs.bind_pure hsnapshot
    (Fallible.Performs.pure _)) (congrArg (Option.map some) hwrite) (.pure _) rfl,
    ⟨row, rfl, rfl⟩, _, rfl, hmarker, rfl⟩

/-- The counter of a blob is not the number of the rows that refer to it: a single
execution whose response repeats its long body has two references. -/
theorem blob_counts_differ_from_rows :
    ¬ ∀ s, ReachedCounted latin1 s →
      ∀ b ∈ s.blobIndex.rows, b.refCount = s.rowsReferringTo b.id := by
  intro hall
  obtain ⟨text, hlong⟩ := exists_long
  obtain ⟨n, s', hperforms, hrequests, row, hrow, hsnapshot, hresponse⟩ := performs_echo latin1 hlong
  have hrun := hperforms.run_nil
  have hrun : ((Op.recordExecution "b" "p" "t" (echoRecord text)).program latin1).run
      ⟨openedStore "t", []⟩ = (.ok (), ⟨s', []⟩) := hrun
  have hreached : ReachedCounted latin1 (((Op.recordExecution "b" "p" "t" (echoRecord text)).program
      latin1).run ⟨openedStore "t", []⟩).2.state :=
    .step (.start ⟨"t", (initial_eq_openedStore "t").symm⟩) _ []
      ⟨⟨rfl, plainSnapshot_echo hlong⟩, by rw [hrun]; rfl⟩
  rw [hrun] at hreached
  have hcounted := counted_of_reached hreached
  have hrefs : s'.references = ["b", "b"] := by
    simp [Store.references, hrequests, hrow, ExecutionRow.references, hsnapshot, hresponse]
  obtain ⟨b, hb⟩ := Option.isSome_iff_exists.mp ((hcounted.referred "b").mpr (by simp [hrefs]))
  have hid : b.id = "b" := Table.key_of_find? hb
  have htwo : b.refCount = 2 := by
    rw [hcounted.count_eq b (Table.mem_of_find? hb), hrefs]
    simp [Keyed.key, hid]
  have hone := hall s' hreached b (Table.mem_of_find? hb)
  rw [htwo, Store.rowsReferringTo, hrequests, hrow] at hone
  simp [hid, hsnapshot] at hone

/-- A request and an execution share a long body. -/
theorem blob_counts_exact_shared : ∃ s, ReachedCounted latin1 s ∧
    (s.requests.rows.map RequestRow.bodyBlobId = [some "b"]) ∧
    (s.executions.rows.map fun e => snapshotBlobId e.requestSnapshot) = [some "b"] ∧
    ∃ b ∈ s.blobIndex.rows, b.id = "b" ∧ b.refCount = 2 := by
  obtain ⟨text, hlong⟩ := exists_long
  obtain ⟨n, m, saved, s₁, s₂, hsave, hrecord, ⟨row, hrow, hbody⟩, execution, hexecution, hsnapshot,
    hresponse⟩ := performs_share latin1 hlong
  have hfirst : ((Op.saveRequest "b" "t" (echoRequest text) "default-project"
      "default-collection").program latin1).run ⟨openedStore "t", []⟩ = (.ok (), ⟨s₁, []⟩) :=
    (Fallible.Performs.bind_pure hsave (.pure ())).run_nil
  have hsecond : ((Op.recordExecution "c" "p" "t" { echoRecord text with preview := none }).program
      latin1).run ⟨s₁, []⟩ = (.ok (), ⟨s₂, []⟩) := hrecord.run_nil
  have hreached₁ : ReachedCounted latin1 s₁ := by
    have hstep : ReachedCounted latin1 _ := .step (.start ⟨"t", (initial_eq_openedStore "t").symm⟩)
      (Op.saveRequest "b" "t" (echoRequest text) "default-project" "default-collection") []
      ⟨savesWithin_openedStore "t", by rw [hfirst]; rfl⟩
    rwa [hfirst] at hstep
  have hreached₂ : ReachedCounted latin1 s₂ := by
    have hstep : ReachedCounted latin1 _ := .step hreached₁
      (Op.recordExecution "c" "p" "t" { echoRecord text with preview := none }) []
      ⟨⟨rfl, plainSnapshot_echo hlong⟩, by rw [hsecond]; rfl⟩
    rwa [hsecond] at hstep
  have hexact := blob_counts_exact hreached₂
  have hrefs : s₂.referencesTo "b" = 2 := by
    simp [Store.referencesTo, hrow, hbody, hexecution, hsnapshot, hresponse]
  obtain ⟨b, hb⟩ := Option.isSome_iff_exists.mp ((hexact.2.1 "b").mpr (by rw [hrefs]; decide))
  have hid : b.id = "b" := Table.key_of_find? hb
  refine ⟨s₂, hreached₂, by rw [hrow, List.map_singleton, hbody],
    by rw [hexecution, List.map_singleton, hsnapshot], b, Table.mem_of_find? hb, hid, ?_⟩
  rw [hexact.1 b (Table.mem_of_find? hb), hid, hrefs]
  rfl

end ApiVoy.LocalStore
