/-
# Executions are read back

Once an execution is recorded its row stays, and so do the blobs its row refers to,
with their digests. So in every later state of the run the execution reads back as it
was recorded, and the list of all executions can be read, since one row whose blob is
gone would fail the whole list. What is read of the text of a snapshot is what the parser
takes it for.
-/

import ApiVoy.Foundation.Reading
import ApiVoy.LocalStore.HistoryCover

namespace ApiVoy.LocalStore

open Foundation Domain

variable {α β : Type} {hexSha256 : Bytes → String} {s s' : Store} {w w' : Scheduled Store}
  {id : String} {kept : List (String × String)} {record : ExecutionRecord} {row : ExecutionRow}

/-! ## What reading a row returns -/

/-- What is read back of a record: everything but a preview whose response was handed
in. -/
structure ExecutionRecord.ReadsAs (record read : ExecutionRecord) : Prop where
  id : read.id = record.id
  requestId : read.requestId = record.requestId
  protocolId : read.protocolId = record.protocolId
  state : read.state = record.state
  status : read.status = record.status
  durationMs : read.durationMs = record.durationMs
  bytesReceived : read.bytesReceived = record.bytesReceived
  startedAt : read.startedAt = record.startedAt
  finishedAt : read.finishedAt = record.finishedAt
  requestSnapshot : read.requestSnapshot =
    record.requestSnapshot.map RequestEnvelope.sanitizedForPersistence
  preview : record.responseBlobId = none → read.preview = record.preview

theorem Reads.bind {m : StoreM α} {f : α → StoreM β} {a : α} {r : Except StoreError β}
    (hm : Reads m s (.ok a)) (hf : Reads (f a) s r) : Reads (m >>= f) s r :=
  (Fallible.run_bind_of_ok hm).trans hf

theorem Store.Filed.blobText_of_hasDigest (hinj : Function.Injective hexSha256)
    (h : s.Filed hexSha256) {text : String} (hdigest : s.HasDigest id (hexSha256 (utf8 text))) :
    s.blobText id = some text := by
  obtain ⟨blob, hblob, hsha⟩ := Option.map_eq_some_iff.mp hdigest
  obtain ⟨file, -, hfile, htext⟩ := h.blobText_of_find? hblob
  have hcontent : file.content = utf8 text := hinj (hfile.trans hsha)
  rw [htext, hcontent, fromUtf8Lossy_utf8]

/-- The preview is the text of the response if that can be read, else what is in the
row. -/
theorem reads_resolvePreview (h : s.Filed hexSha256) (preview responseBlobId : Option String) :
    Reads (resolvePreview preview responseBlobId) s
      (.ok (match responseBlobId.bind s.blobText with
        | none => preview
        | some text => some text)) := by
  cases responseBlobId with
  | none => rfl
  | some id =>
    show Reads (resolvePreview preview (some id)) s (.ok (match s.blobText id with
      | none => preview
      | some text => some text))
    unfold resolvePreview Reads
    cases hblob : s.blobIndex.find? id with
    | none =>
      have htext : s.blobText id = none := by rw [Store.blobText, hblob, Option.bind_none]
      have hread : (readBlob id).run ⟨s, []⟩ = (.error (.notFound id), ⟨s, []⟩) :=
        (Fallible.Performs.bind_error (performs_requireBlob_missing hblob)).run_nil
      rw [Fallible.run_recover, Fallible.run_bind_of_error hread, htext]
      rfl
    | some blob =>
      obtain ⟨file, hfile, -, htext⟩ := h.blobText_of_find? hblob
      have hread : (readBlob id).run ⟨s, []⟩ = (.ok file.content, ⟨s, []⟩) :=
        (performs_readBlob hblob hfile).run_nil
      rw [Fallible.run_recover, Fallible.run_bind_of_ok hread, htext]
      rfl

/-- A stored snapshot is read by reading its envelope and bringing the body back. -/
theorem reads_loadSnapshot (h : s.Filed hexSha256) {json : Json} {envelope hydrated : RequestEnvelope}
    (hread : RequestEnvelope.ofJson json = some envelope)
    (houtcome : s.hydrateOutcome envelope none = .ok hydrated) :
    Reads (loadSnapshot (some json)) s (.ok (some hydrated)) := by
  have hhydrate := (performs_hydrateHttpBody h envelope none).run_nil
  rw [houtcome] at hhydrate
  rw [loadSnapshot, hread]
  exact Reads.bind hhydrate rfl

variable {snapshot : Option RequestEnvelope}

/-- A row loads once its snapshot does. -/
theorem exists_reads_loadExecution (row : ExecutionRow) (h : s.Filed hexSha256)
    (hsnapshot : Reads (loadSnapshot row.requestSnapshot) s (.ok snapshot)) :
    ∃ read, Reads (loadExecution row) s (.ok read) ∧ read.requestSnapshot = snapshot ∧
      read.preview = (match row.responseBlobId.bind s.blobText with
        | none => row.preview
        | some text => some text) ∧
      read = { read with
        id := row.id
        requestId := row.requestId.getD ""
        protocolId := row.protocolId
        state := row.state
        status := row.status
        durationMs := row.durationMs
        bytesReceived := row.bytesReceived
        startedAt := row.startedAt
        finishedAt := row.finishedAt } := by
  have hpreview := reads_resolvePreview h row.preview row.responseBlobId
  exact ⟨_, hsnapshot.bind (hpreview.bind rfl), rfl, rfl, rfl⟩

/-! ## A recorded execution -/

/-- The snapshot of a kept execution is read back with its body. -/
theorem SnapshotStored.reads (hinj : Function.Injective hexSha256) (hfiled : s.Filed hexSha256)
    {stored : Option RequestEnvelope × Option String} {json : Option Json}
    (h : SnapshotStored hexSha256 snapshot stored s) (hplain : PlainSnapshot snapshot)
    (hfaithful : FaithfulSnapshot snapshot) (hjson : snapshotJson stored.1 = some json) :
    Reads (loadSnapshot json) s
      (.ok (snapshot.map RequestEnvelope.sanitizedForPersistence)) := by
  have hread := h.ofJson_eq hfaithful hjson
  have hmarker := h.snapshotBlobId_eq hplain hjson
  obtain ⟨snapshot', bodyBlobId⟩ := stored
  cases snapshot with
  | none =>
    cases h
    cases hjson
    rfl
  | some request =>
    obtain ⟨envelope, rfl, hexternalized⟩ := h
    obtain ⟨json, -, rfl⟩ := Option.map_eq_some_iff.mp hjson
    have hofJson : RequestEnvelope.ofJson json = some envelope := Option.some.inj hread
    have hsource : bodySource envelope none = bodyBlobId := by
      rw [snapshotBlobId, Option.bind_some, hofJson] at hmarker
      exact hmarker
    apply reads_loadSnapshot hfiled hofJson
    rw [Store.hydrateOutcome, Store.hydrated, hsource]
    cases bodyBlobId with
    | none =>
      obtain ⟨rfl, -⟩ := hexternalized
      rfl
    | some id =>
      obtain ⟨rfl, body, hbody, hdigest⟩ := hexternalized
      simp only [hfiled.blobText_of_hasDigest hinj hdigest, Option.map_some,
        withBody_withBody hbody]

/-- The preview of a kept execution is read back in full. -/
theorem PreviewStored.resolves (hinj : Function.Injective hexSha256) (hfiled : s.Filed hexSha256)
    {preview : Option String} {stored : Option String × Option String}
    (h : PreviewStored hexSha256 preview none stored s) :
    (match stored.2.bind s.blobText with
      | none => stored.1
      | some text => some text) = preview := by
  rcases h with rfl | ⟨-, text, id, rfl, hid, hdigest⟩
  · rfl
  · rw [hid, Option.bind_some, hfiled.blobText_of_hasDigest hinj hdigest]

/-- A kept execution is read back as it was recorded. -/
theorem ExecutionRecord.KeptBy.reads (hinj : Function.Injective hexSha256)
    (hfiled : s.Filed hexSha256) (h : record.KeptBy hexSha256 row s)
    (hplain : PlainSnapshot record.requestSnapshot)
    (hfaithful : FaithfulSnapshot record.requestSnapshot)
    (hrow : s.executions.find? record.id = some row) :
    ∃ read, Reads (getExecution record.id) s (.ok (some read)) ∧ record.ReadsAs read := by
  obtain ⟨snapshot, json, preview, hjson, hsnapshot, hpreview, rfl⟩ := h
  have hload := hsnapshot.reads hinj hfiled hplain hfaithful hjson
  obtain ⟨read, hread, hreadSnapshot, hreadPreview, hfields⟩ :=
    exists_reads_loadExecution (executionRow record json preview.1 preview.2) hfiled hload
  refine ⟨read, ?_, ?_⟩
  · have hquery : Reads (query fun s => s.executions.find? record.id) s
        (.ok (some (executionRow record json preview.1 preview.2))) := by
      rw [← hrow]
      rfl
    exact hquery.bind (hread.bind rfl)
  · rw [hfields]
    refine ⟨rfl, rfl, rfl, rfl, rfl, rfl, rfl, rfl, rfl, hreadSnapshot, ?_⟩
    intro hnone
    rw [hnone] at hpreview
    exact hreadPreview.trans (hpreview.resolves hinj hfiled)

/-- A row keeps its execution as long as its blobs keep their digests. -/
theorem ExecutionRecord.KeptBy.mono (h : record.KeptBy hexSha256 row s)
    (hplain : PlainSnapshot record.requestSnapshot)
    (hdigests : ∀ id ∈ row.references, ∀ sha, s.HasDigest id sha → s'.HasDigest id sha) :
    record.KeptBy hexSha256 row s' := by
  obtain ⟨snapshot, json, preview, hjson, hsnapshot, hpreview, rfl⟩ := h
  have hbodyId := hsnapshot.snapshotBlobId_eq hplain hjson
  have hreferences : (executionRow record json preview.1 preview.2).references =
      snapshot.2.toList ++ preview.2.toList := by
    rw [ExecutionRow.references, executionRow, hbodyId]
  rw [hreferences] at hdigests
  refine ⟨snapshot, json, preview, hjson, ?_, ?_, rfl⟩
  · cases hrequest : record.requestSnapshot with
    | none =>
      rw [hrequest] at hsnapshot
      exact hsnapshot
    | some request =>
      rw [hrequest] at hsnapshot
      obtain ⟨envelope, henvelope, hexternalized⟩ := hsnapshot
      refine ⟨envelope, henvelope, ?_⟩
      cases hid : snapshot.2 with
      | none =>
        rw [hid] at hexternalized
        exact hexternalized
      | some id =>
        rw [hid] at hexternalized
        obtain ⟨heq, body, hbody, hdigest⟩ := hexternalized
        exact ⟨heq, body, hbody, hdigests id (by simp [hid]) _ hdigest⟩
  · rcases hpreview with heq | ⟨hnone, text, id, htext, hid, hdigest⟩
    · exact Or.inl heq
    · exact Or.inr ⟨hnone, text, id, htext, hid, hdigests id (by simp [hid]) _ hdigest⟩

/-! ## The list of executions -/

/-- Every row can be loaded while no reference is without its blob. -/
theorem Store.Backs.exists_reads (h : s.Backs kept []) (hfiled : s.Filed hexSha256)
    (hrow : row ∈ s.executions.rows) : ∃ read, Reads (loadExecution row) s (.ok read) := by
  have hsnapshot : ∃ snapshot, Reads (loadSnapshot row.requestSnapshot) s (.ok snapshot) := by
    cases hjson : row.requestSnapshot with
    | none => exact ⟨none, rfl⟩
    | some json =>
      obtain ⟨envelope, hread⟩ := Option.isSome_iff_exists.mp (h.readable row hrow json hjson)
      obtain ⟨hydrated, houtcome⟩ : ∃ hydrated, s.hydrateOutcome envelope none = .ok hydrated := by
        apply (hfiled.hydrateOutcome_eq_ok_iff envelope none).mpr
        intro id hsource
        apply h.isSome_find?
        apply mem_references_of_executions
        apply List.mem_flatMap.mpr
        refine ⟨row, hrow, List.mem_append_left _ ?_⟩
        have hmarker : snapshotBlobId row.requestSnapshot = some id := by
          rw [snapshotBlobId, hjson, Option.bind_some, hread]
          exact hsource
        rw [hmarker]
        exact List.mem_singleton_self id
      exact ⟨some hydrated, reads_loadSnapshot hfiled hread houtcome⟩
  obtain ⟨snapshot, hload⟩ := hsnapshot
  obtain ⟨read, hread, -⟩ := exists_reads_loadExecution row hfiled hload
  exact ⟨read, hread⟩

theorem exists_reads_loadExecutions {rows : List ExecutionRow}
    (h : ∀ row ∈ rows, ∃ read, Reads (loadExecution row) s (.ok read)) :
    ∃ records, Reads (loadExecutions rows) s (.ok records) := by
  induction rows with
  | nil => exact ⟨[], rfl⟩
  | cons row rest ih =>
    obtain ⟨read, hread⟩ := h row List.mem_cons_self
    obtain ⟨others, hothers⟩ := ih fun other hother => h other (List.mem_cons_of_mem _ hother)
    exact ⟨read :: others, hread.bind (hothers.bind rfl)⟩

/-- All of the history can be listed. -/
theorem Store.Backs.exists_reads_list (h : s.Backs kept []) (hfiled : s.Filed hexSha256)
    (limit : Nat) (filter : ExecutionFilter) :
    ∃ records, Reads (listExecutionsFiltered limit filter) s (.ok records) := by
  have hrows : ∀ row ∈ ((s.executions.rows.filter filter.admits).insertionSort fun a b =>
      textLe b.startedAt.toList a.startedAt.toList = true).take limit,
      ∃ read, Reads (loadExecution row) s (.ok read) := by
    intro row hrow
    have hmem := List.mem_of_mem_take hrow
    rw [List.mem_insertionSort] at hmem
    exact h.exists_reads hfiled (List.mem_of_mem_filter hmem)
  obtain ⟨records, hrecords⟩ := exists_reads_loadExecutions hrows
  exact ⟨records, Reads.bind rfl hrecords⟩

/-! ## Texts of snapshots -/

section Parsing

variable (number : Rat → Rat)

/-- A row as it is read: in place of the text of its snapshot there is what the parser takes
it for, where `number` is what is read of a number. -/
def ExecutionRow.parsedBy (row : ExecutionRow) : ExecutionRow :=
  { row with
    requestSnapshot := row.requestSnapshot.map fun json => (json.readBack number).getD .null }

def Store.parsedBy (s : Store) : Store :=
  { s with executions := s.executions.convert (ExecutionRow.parsedBy number) fun _ => rfl }

/-- The snapshots of these rows are read as they were written. -/
def Legible (executions : Table ExecutionRow) : Prop :=
  ∀ row ∈ executions.rows, ∀ json, row.requestSnapshot = some json →
    Json.readable number Json.maxNesting json = true

/-- The text of the snapshot that a step records is read as it was written: it nests no more
than the parser can take, and each number in it is read as itself. -/
def Op.KeepsNumbers (op : Op) : Prop :=
  ∀ request json, op.recorded = some request →
    request.sanitizedForPersistence.toJson = some json →
      Json.readable number Json.maxNesting json = true

/-- The steps whose snapshots read back. -/
structure Op.Recoverable (op : Op) : Prop where
  history : op.KeepsHistory
  numbers : op.KeepsNumbers number

variable {number}

theorem parsedBy_of_legible (h : Legible number s.executions) : s.parsedBy number = s := by
  have hrow : ∀ row ∈ s.executions.rows, row.parsedBy number = row := by
    intro row hmem
    cases hjson : row.requestSnapshot with
    | none => rw [ExecutionRow.parsedBy, hjson, Option.map_none, ← hjson]
    | some json =>
      rw [ExecutionRow.parsedBy, hjson, Option.map_some,
        Json.readBack_eq_self_iff.mpr (h row hmem json hjson), Option.getD_some, ← hjson]
  have hrows : s.executions.rows.map (ExecutionRow.parsedBy number) = s.executions.rows :=
    (List.map_congr_left hrow).trans (List.map_id _)
  have hsame : s.executions.convert (ExecutionRow.parsedBy number) (fun _ => rfl) = s.executions :=
    Table.ext hrows
  rw [Store.parsedBy, hsame]

/-- Another body is a text like the one before it. -/
theorem readable_withBody {e : RequestEnvelope} {text : String} {levels : Nat} {other : Json}
    (h : { e with payload := withBody text e.payload }.toJson = some other) :
    ∃ json, e.toJson = some json ∧
      Json.readable number levels other = Json.readable number levels json := by
  obtain ⟨again, hagain, rfl⟩ := Option.map_eq_some_iff.mp h
  obtain ⟨payload, hpayload, hnumbers, hnesting⟩ : ∃ payload, e.payload.toJson = some payload ∧
      again.numbers = payload.numbers ∧ again.nesting = payload.nesting := by
    cases heq : e.payload with
    | http p =>
      rw [heq] at hagain
      cases hagain
      refine ⟨_, rfl, ?_⟩
      cases hbody : p.body <;>
        simp [HttpPayload.members, hbody, Codec.optText, Codec.nullable, Codec.text, Json.numbers,
          Json.memberNumbers, Json.nesting, Json.memberNesting]
    | _ =>
      rw [heq] at hagain
      exact ⟨again, hagain, rfl, rfl⟩
  have hvalue : ∀ json : Json, Codec.value.write json = json := fun _ => rfl
  refine ⟨_, Option.map_eq_some_iff.mpr ⟨payload, hpayload, rfl⟩, ?_⟩
  simp only [RequestEnvelope.members, Json.readable, Json.numbers, Json.memberNumbers, Json.nesting,
    Json.memberNesting, hvalue, hnumbers, hnesting]

theorem keeps_legible {op : Op} (hop : op.KeepsNumbers number) :
    Keeps (fun s => Legible number s.executions) (op.program hexSha256) := by
  refine keeps_executions hexSha256 (Legible number) op fun t row t' stored hstored hjson hnew ht =>
    ?_
  rw [Legible, (Table.insert?_eq_some_iff.mp hnew).2, List.forall_mem_append,
    List.forall_mem_singleton]
  refine ⟨ht, fun json hsome => ?_⟩
  rw [hsome] at hjson
  cases hrecorded : op.recorded with
  | none =>
    have hnone : stored = none := by
      rw [hrecorded] at hstored
      obtain h | ⟨_, h⟩ := hstored <;> exact h
    rw [hnone] at hjson
    cases hjson
  | some request =>
    rw [hrecorded] at hstored
    obtain rfl | ⟨text, rfl⟩ := hstored
    · obtain ⟨written, hwritten, heq⟩ := Option.map_eq_some_iff.mp hjson
      cases heq
      exact hop request json hrecorded hwritten
    · obtain ⟨written, hwritten, heq⟩ := Option.map_eq_some_iff.mp hjson
      cases heq
      obtain ⟨json', hjson', hreadable⟩ := readable_withBody hwritten
      exact hreadable.trans (hop request json' hrecorded hjson')

end Parsing

/-! ## Runs -/

/-- The states of the runs whose recorded snapshots read back, whatever succeeds or
fails in them. -/
abbrev ReachedHistory (hexSha256 : Bytes → String) (number : Rat → Rat) : Store → Prop :=
  Fallible.Reachable (Op.program hexSha256) Fresh fun _ op _ => op.Recoverable number

/-- The states such a run goes on to from `s`. -/
abbrev LaterHistory (hexSha256 : Bytes → String) (number : Rat → Rat) (s : Store) :
    Store → Prop :=
  Fallible.Reachable (Op.program hexSha256) (fun t => t = s) fun _ op _ => op.Recoverable number

inductive Op.Records : Op → ExecutionRecord → Prop
  | recordExecution (bodyBlobNew previewBlobNew : String) (now : Timestamp)
      (record : ExecutionRecord) :
      Op.Records (.recordExecution bodyBlobNew previewBlobNew now record) record
  | recordWithResponse (responseBlobNew : String) (data : Bytes) (contentType : Option String)
      (bodyBlobNew previewBlobNew : String) (now : Timestamp) (record : ExecutionRecord)
      (responseBlobId : String) :
      Op.Records (.recordWithResponse responseBlobNew data contentType bodyBlobNew previewBlobNew
        now record) { record with responseBlobId := some responseBlobId }

variable {number : Rat → Rat}

theorem reached_of_reachedHistory (h : ReachedHistory hexSha256 number s) : Reached hexSha256 s :=
  h.mono fun _ _ _ _ => trivial

theorem backs_of_reached (h : ReachedHistory hexSha256 number s) : s.Backs [] [] := by
  induction h with
  | start hfresh =>
    obtain ⟨now, rfl⟩ := hfresh
    rw [initial_eq_openedStore]
    constructor
    · exact Covers.empty
    · intro id sha hid
      cases hid
    · intro row hrow
      cases hrow
  | step hreached op faults hop ih =>
    exact backs_program hexSha256 hop.history ih
      (hasTree_of_reached (reached_of_reachedHistory hreached)) faults

theorem legible_of_reached (h : ReachedHistory hexSha256 number s) :
    Legible number s.executions := by
  induction h with
  | start hfresh =>
    obtain ⟨now, rfl⟩ := hfresh
    rw [initial_eq_openedStore]
    intro row hrow
    cases hrow
  | step _ op faults hop ih => exact (keeps_legible hop.numbers).state ih faults

/-- The digests of the blobs a row refers to. -/
def Store.digestsOf (s : Store) (row : ExecutionRow) : List (String × String) :=
  row.references.filterMap fun id => (s.blobIndex.find? id).map fun blob => (id, blob.sha256)

theorem mem_digestsOf {id sha : String} :
    (id, sha) ∈ s.digestsOf row ↔ id ∈ row.references ∧ s.HasDigest id sha := by
  rw [Store.digestsOf, List.mem_filterMap, Store.HasDigest]
  constructor
  · rintro ⟨id', hid', hsome⟩
    obtain ⟨blob, hblob, heq⟩ := Option.map_eq_some_iff.mp hsome
    cases heq
    exact ⟨hid', by rw [hblob, Option.map_some]⟩
  · rintro ⟨hid, hdigest⟩
    obtain ⟨blob, hblob, hsha⟩ := Option.map_eq_some_iff.mp hdigest
    exact ⟨id, hid, by rw [hblob, Option.map_some, hsha]⟩

theorem Store.Backs.keepDigests (h : s.Backs kept []) (hrow : row ∈ s.executions.rows) :
    s.Backs (s.digestsOf row) [] := by
  refine ⟨⟨h.covers.counted, ?_⟩, ?_, h.readable⟩
  · intro id sha hid
    exact (mem_digestsOf.mp hid).2
  · intro id sha hid
    exact List.mem_flatMap.mpr ⟨row, hrow, (mem_digestsOf.mp hid).1⟩

/-- What holds in every later state of a run, once a row is there. -/
structure Store.Remembers (hexSha256 : Bytes → String) (number : Rat → Rat)
    (kept : List (String × String)) (row : ExecutionRow) (s : Store) : Prop where
  filed : s.Filed hexSha256
  tree : s.HasTree
  backs : s.Backs kept []
  legible : Legible number s.executions
  found : s.executions.find? row.id = some row

theorem remembers_of_later (hstart : s.Remembers hexSha256 number kept row)
    (hlater : LaterHistory hexSha256 number s s') : s'.Remembers hexSha256 number kept row := by
  apply Fallible.Reachable.invariant _ _ hlater
  · rintro t rfl
    exact hstart
  · intro t op faults ht hop
    exact {
      filed := (filed_program hexSha256 op).state ht.filed faults
      tree := (keeps_program hexSha256 op).state ht.tree faults
      backs := backs_program hexSha256 hop.history ht.backs ht.tree faults
      legible := (keeps_legible hop.numbers).state ht.legible faults
      found := (keeps_execution hexSha256 row op).state ht.found faults }

/-- A step that records an execution and succeeds leaves a row that keeps it. -/
theorem keptBy_of_records {op : Op} {faults : List Bool} {u : Unit} (hop : op.KeepsHistory)
    (hrecords : op.Records record) (hbacks : s.Backs [] [])
    (hrun : (op.program hexSha256).run ⟨s, faults⟩ = (.ok u, w)) :
    ∃ (record' : ExecutionRecord) (row : ExecutionRow), w.state.executions.find? record.id = some row ∧
      record'.KeptBy hexSha256 row w.state ∧ PlainSnapshot record'.requestSnapshot ∧
      FaithfulSnapshot record'.requestSnapshot ∧
      ∀ read, record'.ReadsAs read → record.ReadsAs read := by
  cases hrecords with
  | recordExecution bodyBlobNew previewBlobNew now record =>
    have hstart : s.Backs [] (record.responseBlobId.toList ++ []) := by
      rw [hop.1]
      exact hbacks
    obtain ⟨-, row, hrow, hkept⟩ := (triple_recordExecution hexSha256 bodyBlobNew previewBlobNew
      now record hop.2.1 hop.2.2).of_run hstart hrun
    exact ⟨record, row, hrow, hkept, hop.2.1, hop.2.2, fun _ h => h⟩
  | recordWithResponse responseBlobNew data contentType bodyBlobNew previewBlobNew now record id =>
    obtain ⟨-, id', row, hrow, hkept⟩ := (triple_recordWithResponse hexSha256
      responseBlobNew data contentType bodyBlobNew previewBlobNew now record hop.1
      hop.2).of_run hbacks hrun
    refine ⟨_, row, hrow, hkept, hop.1, hop.2, ?_⟩
    intro read h
    exact { h with preview := fun hnone => by cases hnone }

/-- In a run that records only such snapshots, an execution that was recorded is read
back from every later state, as the parser reads its rows, and the history can be listed
there. -/
theorem history_round_trip (hinj : Function.Injective hexSha256)
    (hreached : ReachedHistory hexSha256 number s) {op : Op} (hop : op.Recoverable number)
    (hrecords : op.Records record) {faults : List Bool}
    (hrun : (op.program hexSha256).run ⟨s, faults⟩ = (.ok (), w))
    (hlater : LaterHistory hexSha256 number w.state s') :
    (∃ read, Reads (getExecution record.id) (s'.parsedBy number) (.ok (some read)) ∧
        record.ReadsAs read) ∧
      ∀ limit filter, ∃ records,
        Reads (listExecutionsFiltered limit filter) (s'.parsedBy number) (.ok records) := by
  have hstate : ((op.program hexSha256).run ⟨s, faults⟩).2.state = w.state := by rw [hrun]
  have hafter : ReachedHistory hexSha256 number w.state := hstate ▸ .step hreached op faults hop
  obtain ⟨record', row, hrow, hkept, hplain, hfaithful, hreads⟩ :=
    keptBy_of_records hop.history hrecords (backs_of_reached hreached) hrun
  have hid : row.id = record.id := Table.key_of_find? hrow
  have hfound : w.state.executions.find? row.id = some row := by rw [hid, hrow]
  have hlate := remembers_of_later {
    filed := filed_of_reached (reached_of_reachedHistory hafter)
    tree := hasTree_of_reached (reached_of_reachedHistory hafter)
    backs := (backs_of_reached hafter).keepDigests (Table.mem_of_find? hrow)
    legible := legible_of_reached hafter
    found := hfound } hlater
  rw [parsedBy_of_legible hlate.legible]
  constructor
  · have hkept' : record'.KeptBy hexSha256 row s' := by
      apply hkept.mono hplain
      intro id hid sha hdigest
      exact hlate.backs.covers.marked id sha (mem_digestsOf.mpr ⟨hid, hdigest⟩)
    have hid' : record'.id = record.id := by
      obtain ⟨snapshot, json, preview, -, -, -, heq⟩ := hkept
      rw [← hid, heq]
      rfl
    obtain ⟨read, hread, has⟩ := hkept'.reads hinj hlate.filed hplain hfaithful
      (by rw [hid', ← hid, hlate.found])
    rw [hid'] at hread
    exact ⟨read, hread, hreads read has⟩
  · exact fun limit filter => hlate.backs.exists_reads_list hlate.filed limit filter

/-- Recording the exchange of a text into a newly opened store. -/
def recordEcho (text : String) : Op := .recordExecution "b" "p" "t" (echoRecord text)

/-- The store after that. -/
def echoStore (text : String) : Store :=
  (((recordEcho text).program latin1).run ⟨openedStore "t", []⟩).2.state

theorem run_recordEcho_hello :
    ((recordEcho "hello").program latin1).run ⟨openedStore "t", []⟩ =
      (.ok (), ⟨echoStore "hello", []⟩) :=
  Prod.ext (by decide +kernel) (by rfl)

theorem recoverable_recordEcho_hello : (recordEcho "hello").Recoverable Json.nextNumber := by
  have hplain : PlainSnapshot (some (echoRequest "hello")) := by
    intro request hrequest body hbody _
    cases hrequest
    cases hbody
    decide
  have hfaithful : FaithfulSnapshot (some (echoRequest "hello")) := by
    intro request hrequest _
    cases hrequest
    trivial
  refine ⟨⟨rfl, hplain, hfaithful⟩, fun request json hrequest hjson => ?_⟩
  cases hrequest
  cases hjson
  decide +kernel

theorem history_round_trip_hello :
    (∃ read, Reads (getExecution "e") ((echoStore "hello").parsedBy Json.nextNumber)
        (.ok (some read)) ∧ (echoRecord "hello").ReadsAs read) ∧
      ∀ limit filter, ∃ records, Reads (listExecutionsFiltered limit filter)
        ((echoStore "hello").parsedBy Json.nextNumber) (.ok records) :=
  history_round_trip latin1_injective (.start ⟨"t", (initial_eq_openedStore "t").symm⟩)
    recoverable_recordEcho_hello (.recordExecution "b" "p" "t" (echoRecord "hello"))
    run_recordEcho_hello (.start rfl)

/-- A short body that is marker text is recorded, and can never be read. -/
theorem history_unreadable_for_marker :
    ¬ ∀ number s, Reached latin1 s → ∀ (op : Op) record, op.Records record → ∀ faults w,
      (op.program latin1).run ⟨s, faults⟩ = (.ok (), w) →
        ∀ s', Fallible.Reachable (Op.program latin1) (fun t => t = w.state)
          (fun _ _ _ => True) s' →
          (∃ read, Reads (getExecution record.id) (s'.parsedBy number) (.ok (some read)) ∧
              record.ReadsAs read) ∧
            ∀ limit filter, ∃ records,
              Reads (listExecutionsFiltered limit filter) (s'.parsedBy number) (.ok records) := by
  intro hall
  have hrun : ((recordEcho "@apivoy-blob:x").program latin1).run ⟨openedStore "t", []⟩ =
      (.ok (), ⟨echoStore "@apivoy-blob:x", []⟩) := Prod.ext (by decide +kernel) (by rfl)
  obtain ⟨⟨read, hread, -⟩, -⟩ := hall id (openedStore "t")
    (.start ⟨"t", (initial_eq_openedStore "t").symm⟩) (recordEcho "@apivoy-blob:x") _
    (.recordExecution "b" "p" "t" _) [] _ hrun _ (.start rfl)
  have hmissing : ((getExecution "e").run ⟨(echoStore "@apivoy-blob:x").parsedBy id, []⟩).1 =
      .error (.notFound "x") := by decide +kernel
  rw [show (echoRecord "@apivoy-blob:x").id = "e" from rfl, Reads] at hread
  rw [hread] at hmissing
  cases hmissing

end ApiVoy.LocalStore
