/-
# References to blobs

Requests name the blob of their body; executions name one by the marker in their
snapshot and one as their response. The counters of the blob index count these
references, and, while an operation runs, the ones it has taken but not yet
written down.
-/

import ApiVoy.Foundation.RefCount
import ApiVoy.LocalStore.Frames

namespace ApiVoy.LocalStore

open Foundation Domain

/-- The blob that holds the body of a stored snapshot. -/
def snapshotBlobId (snapshot : Option Json) : Option String :=
  ((snapshot.bind RequestEnvelope.ofJson).bind fun envelope => envelope.payload.body).bind
    stripMarker

def RequestRow.references (row : RequestRow) : List String := row.bodyBlobId.toList

def ExecutionRow.references (row : ExecutionRow) : List String :=
  (snapshotBlobId row.requestSnapshot).toList ++ row.responseBlobId.toList

/-- All references to blobs in the rows of a store. -/
def Store.references (s : Store) : List String :=
  s.requests.rows.flatMap RequestRow.references ++
    s.executions.rows.flatMap ExecutionRow.references

/-- The blob index counts these references. -/
def Store.Counting (s : Store) (refs : List String) : Prop :=
  Counts BlobRow.refCount s.blobIndex refs

variable {α : Type} {w w' : Scheduled Store} {id : String} {refs : List String}

/-! ## Taking a reference -/

theorem requireBlob_ok {blob : BlobRow} (h : (requireBlob id).run w = (.ok blob, w')) :
    blob.id = id ∧ w'.state = w.state := by
  obtain ⟨found, w₁, hget, hrest⟩ := Fallible.run_bind_eq_ok_iff.mp h
  obtain ⟨hfound, hstate⟩ := query_ok hget
  cases found with
  | none => cases hrest
  | some b =>
    cases hrest
    exact ⟨Table.key_of_find? hfound.symm, hstate⟩

/-- Stored bytes have one reference more. -/
theorem putBlob_ok {hexSha256 : Bytes → String} {blobId : String} {now : Timestamp} {data : Bytes}
    {contentType : Option String} {blob : BlobRow}
    (h : (putBlob hexSha256 blobId now data contentType).run w = (.ok blob, w'))
    (hcounts : w.state.Counting refs) : w'.state.Counting (blob.id :: refs) := by
  obtain ⟨existing, w₁, hlookup, hrest⟩ := Fallible.run_bind_eq_ok_iff.mp h
  obtain ⟨hexisting, hstate₁⟩ := query_ok hlookup
  rw [← hstate₁] at hcounts
  cases existing with
  | some existing =>
    obtain ⟨n, w₂, hadd, hrequire⟩ := Fallible.run_bind_eq_ok_iff.mp hrest
    obtain ⟨hid, hstate⟩ := requireBlob_ok hrequire
    have hmem := List.mem_of_find?_eq_some hexisting.symm
    rw [← hstate₁] at hmem
    have hadded := execute_ok hadd
    rw [Store.Counting, hstate, hid]
    simp only [Sql.addToRefCount, Option.some.injEq, Prod.mk.injEq] at hadded
    rw [← hadded.1]
    exact hcounts.addRef (f := fun b => { b with refCount := b.refCount + 1 })
      (Table.find?_key hmem) (fun _ => rfl) fun _ => rfl
  | none =>
    obtain ⟨_, w₂, hcreate, hrest⟩ := Fallible.run_bind_eq_ok_iff.mp hrest
    obtain ⟨_, w₃, hwrite, hrest⟩ := Fallible.run_bind_eq_ok_iff.mp hrest
    obtain ⟨n, w₄, hinsert, hrequire⟩ := Fallible.run_bind_eq_ok_iff.mp hrest
    obtain ⟨hid, hstate⟩ := requireBlob_ok hrequire
    have hwritten : w₃.state.blobIndex = w₁.state.blobIndex := by
      have hwrite := Fallible.run_recover_ok (fun e => fails_cleanup _ e) hwrite
      have hcreated : Frames Store.blobIndex (fileEffect fun s => s) :=
        Frames.fileEffect fun _ => rfl
      have hfile : Frames Store.blobIndex (writeBlobFile (relativePath (hexSha256 data)) data) :=
        Frames.writeBlobFile (fun _ _ => rfl) _ _
      have hfirst := hcreated.state w₁
      have hsecond := hfile.state w₂
      rw [hcreate] at hfirst
      rw [hwrite] at hsecond
      exact hsecond.trans hfirst
    have hinserted := execute_ok (Fallible.run_recover_ok (fun e => fails_cleanup _ e) hinsert)
    obtain ⟨-, index, hrow, heq⟩ := Sql.insertBlob_eq_some hinserted
    rw [Store.Counting, hstate, hid, heq]
    rw [Store.Counting, ← hwritten] at hcounts
    exact hcounts.insert hrow rfl

/-! ## Giving one up -/

variable {u : Unit}

/-- A released reference is counted no more. -/
theorem releaseBlob_ok (h : (releaseBlob id).run w = (.ok u, w'))
    (hcounts : w.state.Counting (id :: refs)) : w'.state.Counting refs := by
  obtain ⟨found, w₁, hget, hrest⟩ := Fallible.run_bind_eq_ok_iff.mp h
  obtain ⟨hfound, hstate₁⟩ := query_ok hget
  rw [← hstate₁] at hcounts hfound
  cases found with
  | none =>
    have hlisted := (hcounts.referred id).mpr List.mem_cons_self
    rw [← hfound] at hlisted
    cases hlisted
  | some blob =>
    simp only at hrest
    split at hrest
    · rename_i hmany
      obtain ⟨n, w₂, hdrop, hdone⟩ := Fallible.run_bind_eq_ok_iff.mp hrest
      cases hdone
      have hdropped := execute_ok hdrop
      simp only [Sql.addToRefCount, Option.some.injEq, Prod.mk.injEq] at hdropped
      rw [Store.Counting, ← hdropped.1]
      exact hcounts.dropRef (f := fun b => { b with refCount := b.refCount + -1 }) hfound.symm
        hmany (fun _ => rfl) fun _ => rfl
    · rename_i hlast
      obtain ⟨n, w₂, hdelete, hremove⟩ := Fallible.run_bind_eq_ok_iff.mp hrest
      have hdeleted := execute_ok hdelete
      simp only [Sql.deleteBlob, Option.some.injEq, Prod.mk.injEq] at hdeleted
      have hfile : Frames Store.blobIndex (removeIfPresent blob.relativePath) :=
        Frames.removeIfPresent (fun _ _ => rfl) _
      have hindex := hfile.state w₂
      rw [hremove] at hindex
      rw [Store.Counting, hindex, ← hdeleted.1]
      exact hcounts.delete hfound.symm hlast

theorem releaseOptional_ok {id : Option String} (h : (releaseOptional id).run w = (.ok u, w'))
    (hcounts : w.state.Counting (id.toList ++ refs)) : w'.state.Counting refs := by
  cases id with
  | none =>
    cases h
    exact hcounts
  | some id => exact releaseBlob_ok h hcounts

/-- Giving up a list of references, one after the other. -/
theorem releaseEach_ok {ids : List String} (h : (Fallible.each releaseBlob ids).run w = (.ok u, w'))
    (hcounts : w.state.Counting (ids ++ refs)) : w'.state.Counting refs := by
  induction ids generalizing w with
  | nil =>
    cases h
    exact hcounts
  | cons id ids ih =>
    obtain ⟨_, w₁, hrelease, hrest⟩ := Fallible.run_bind_eq_ok_iff.mp h
    exact ih hrest (releaseBlob_ok hrelease hcounts)

/-! ## Long bodies -/

theorem stripMarker_append (id : String) : stripMarker (blobMarker ++ id) = some id := by
  rw [stripMarker, String.toList_append, List.dropPrefix?_append_of_beq _ (by simp)]
  simp

/-- A body that stays is the one that was there; a body that leaves is replaced
by the marker of a blob with one reference more. -/
theorem externalizeHttpBody_ok {hexSha256 : Bytes → String} {blobId : String} {now : Timestamp}
    {envelope envelope' : RequestEnvelope} {bodyBlobId : Option String}
    (h : (externalizeHttpBody hexSha256 blobId now envelope).run w =
      (.ok (envelope', bodyBlobId), w'))
    (hcounts : w.state.Counting refs) :
    w'.state.Counting (bodyBlobId.toList ++ refs) ∧
      (bodyBlobId = none → envelope' = envelope ∧
        ∀ body, envelope.payload.body = some body → (utf8 body).length ≤ blobThresholdBytes) ∧
      ∀ id, bodyBlobId = some id → envelope' =
        { envelope with payload := withBody (blobMarker ++ id) envelope.payload } ∧
          envelope.payload.body.isSome = true := by
  unfold externalizeHttpBody at h
  cases hbody : envelope.payload.body with
  | none =>
    rw [hbody] at h
    cases h
    exact ⟨hcounts, by simp, by simp⟩
  | some body =>
    rw [hbody] at h
    simp only at h
    split at h
    · rename_i hshort
      cases h
      exact ⟨hcounts, by simpa using hshort, by simp⟩
    · obtain ⟨blob, w₁, hput, hdone⟩ := Fallible.run_bind_eq_ok_iff.mp h
      cases hdone
      exact ⟨putBlob_ok hput hcounts, by simp, by simp⟩

end ApiVoy.LocalStore
