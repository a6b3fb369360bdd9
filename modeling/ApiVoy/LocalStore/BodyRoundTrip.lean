/-
# What a saved body reads back as

A call of `saveRequest` should end in one of two ways: it succeeds and the stored
request reads back with the body that was given, or it fails and nothing has
changed. The call writes its row and only then gives up the previous body and
brings the new one back, so a failure in between leaves the row behind; and a
short body that looks like a marker is taken for one. The exact circumstances
under which the call keeps to its contract are worked out here, for every store
a run reaches and every schedule of failures.
-/

import ApiVoy.LocalStore.BodyPlacement

namespace ApiVoy.LocalStore

open Foundation Domain

variable {hexSha256 : Bytes → String} {s s₁ : Store} {w w' : Scheduled Store} {id : String}

namespace SaveCall

variable (call : SaveCall)

/-! ## The contract -/

/-- The stored request reads back with the body of the sanitized envelope. -/
def ReadsBack (s : Store) : Prop :=
  ∃ stored, Reads (getRequest call.request.id) s (.ok (some stored)) ∧
    stored.envelope.payload.body = call.request.sanitizedForPersistence.payload.body

/-- Requests and blobs are as they were, and every list that could be read before
can be read still. -/
def Unchanged (s s' : Store) : Prop :=
  s'.requests = s.requests ∧ s'.blobIndex = s.blobIndex ∧
    ∀ collectionId, (∃ stored, Reads (listRequests collectionId) s (.ok stored)) →
      ∃ stored, Reads (listRequests collectionId) s' (.ok stored)

/-- What a call started in `s` promises of the way it ends. -/
def Contract (s : Store) : Except StoreError StoredRequest × Scheduled Store → Prop
  | (.ok _, w') => call.ReadsBack w'.state
  | (.error _, w') => Unchanged s w'.state

/-! ## When it is met -/

/-- The project or the collection does not exist, so the row is refused. -/
def Refused (s : Store) : Prop :=
  ¬ (Sql.refers s.projects call.projectId && Sql.refers s.collections call.collectionId) = true

instance (s : Store) : Decidable (call.Refused s) := inferInstanceAs (Decidable (¬ _))

/-- The references that are left once the previous body is given up. -/
def left (s : Store) (placed : Placement) (id : String) : Int :=
  call.held s placed id - if call.previous s = some id then 1 else 0

/-- The number of effects after the row is written. -/
def laterEffects (s : Store) (placed : Placement) : Nat :=
  (match call.source placed with
    | none => 0
    | some id => if 0 < call.left s placed id then 2 else 1) +
  match call.previous s with
  | none => 0
  | some id => releaseEffects (call.held s placed id)

/-- The blob that the body is read from is still there. -/
def Resolves (s : Store) (placed : Placement) : Prop :=
  ∀ id, call.source placed = some id → 0 < call.left s placed id

/-- The body that is brought back is the one that was given: an inline body that
is marker text would have to name a blob with that very text. -/
def Faithful (s : Store) (placed : Placement) : Prop :=
  call.Resolves s placed ∧
    (placed = .inline → ∀ id, call.source placed = some id → s.blobText id = call.request.payload.body)

/-- The very row that is to be written is there already. -/
def Repeats (s : Store) (placed : Placement) : Prop :=
  ∃ json, (call.envelope placed).toJson = some json ∧
    s.requests.find? call.request.id = some (call.row placed json)

/-- The row is written, and the rest of the call, under the failures to come, ends
well: it completes with the body that was given, or it fails but the row had been
there before and so had every reference. -/
def EndsWell (s : Store) (placed : Placement) (faults : List Bool) : Prop :=
  (Spared faults (call.laterEffects s placed) ∧ call.Faithful s placed) ∨
    (call.Repeats s placed ∧ (placed = .inline ∨ Spared faults 2) ∧
      ¬ (Spared faults (call.laterEffects s placed) ∧ call.Resolves s placed))

/-- The circumstances under which a call meets its contract: it is stopped before
its first change of the tables; or the row cannot be written and the blob that
was stored for it is given up undisturbed; or the row is written and the rest
ends well. -/
def MeetsContract (hexSha256 : Bytes → String) (s : Store) (faults : List Bool) : Prop :=
  let placed := placement hexSha256 s call.request.payload.body
  ¬ Spared faults (max 1 placed.effects) ∨
    (placed = .fresh ∧ (s.blobIndex.find? call.blobId).isSome = true) ∨
    (Spared faults (placed.effects + 1) ∧
      if Spared faults (placed.effects + 2) ∧ ¬ call.Refused s then
        call.EndsWell s placed (faults.drop (placed.effects + 2))
      else placed = .inline ∨ Spared (faults.drop (placed.effects + 2)) 2)

/-! ## Writing the row -/

/-- What the call returns once the body is brought back. -/
def stored (placed : Placement) (hydrated : RequestEnvelope) : StoredRequest where
  id := hydrated.id
  projectId := call.projectId
  collectionId := call.collectionId
  name := hydrated.name
  protocolId := hydrated.protocolId
  target := hydrated.target
  envelope := hydrated
  updatedAt := call.now
  bodyBlobId := placed.blobId call.blobId

/-- The call from the point where the row is written. -/
def finish (placed : Placement) (previous : Option String) : StoreM StoredRequest := do
  releaseOptional previous
  let hydrated ← hydrateHttpBody (call.envelope placed) (placed.blobId call.blobId)
  pure (call.stored placed hydrated)

/-- The call from the point where the body is placed. -/
def write (placed : Placement) (json : Json) (previous : Option String) : StoreM StoredRequest := do
  let _ ← Fallible.recover (execute (Sql.upsertRequest (call.row placed json))) fun e => do
    releaseOptional (placed.blobId call.blobId)
    Fallible.fail e
  call.finish placed previous

def written (placed : Placement) (json : Json) (requests : Table RequestRow) : Table RequestRow :=
  requests.upsert (call.row placed json)
    (fun old => { call.row placed json with id := old.id }) fun _ => rfl

variable {call} {placed : Placement} {json : Json} {faults : List Bool}

theorem isHttp_envelope (hhttp : call.request.payload.isHttp = true) (placed : Placement) :
    (call.envelope placed).payload.isHttp = true := by
  have hsanitized : call.request.sanitizedForPersistence.payload.isHttp = true := by
    rw [RequestEnvelope.sanitizedForPersistence_payload, ProtocolPayload.isHttp_sanitized, hhttp]
  rw [envelope]
  cases placed.blobId call.blobId with
  | none => exact hsanitized
  | some id =>
    show (withBody _ call.request.sanitizedForPersistence.payload).isHttp = true
    cases hpayload : call.request.sanitizedForPersistence.payload with
    | http payload => rfl
    | _ =>
      rw [hpayload] at hsanitized
      cases hsanitized

/-- The envelope is written, and read back as it is. -/
theorem exists_json (hhttp : call.request.payload.isHttp = true) (placed : Placement) :
    ∃ json, (call.envelope placed).toJson = some json ∧
      RequestEnvelope.ofJson json = some (call.envelope placed) := by
  have hfaithful := ProtocolPayload.faithful_of_isHttp (isHttp_envelope hhttp placed)
  obtain ⟨json, hwrite, hread⟩ := RequestEnvelope.ofJson_toJson hfaithful
  have hsecrets : (call.envelope placed).withoutSecrets = call.envelope placed := by
    have hsanitized := RequestEnvelope.withoutSecrets_sanitizedForPersistence call.request
    rw [envelope]
    cases placed.blobId call.blobId with
    | none => exact hsanitized
    | some id =>
      exact congrArg (fun e : RequestEnvelope => { e with
        payload := withBody (blobMarker ++ id) call.request.sanitizedForPersistence.payload })
        hsanitized
  exact ⟨json, hwrite, by rw [hread, hsecrets]⟩

theorem id_row (placed : Placement) (json : Json) :
    (call.row placed json).id = call.request.id := by
  rw [row, requestRow, envelope]
  cases placed.blobId call.blobId <;> rfl

/-- Once the body is placed, the rest of the call is left. -/
theorem run_program (hplacing : call.Placing hexSha256 s placed s₁)
    (hjson : (call.envelope placed).toJson = some json)
    (hspared : Spared faults (placed.effects + 1)) :
    (call.program hexSha256).run ⟨s, faults⟩ =
      (call.write placed json (call.previous s)).run
        ⟨s₁, faults.drop (placed.effects + 1)⟩ := by
  rw [Nat.add_comm, spared_add] at hspared
  have hquery := (Performs.query (s := s)
    (fun s => (s.requests.find? call.request.id).bind RequestRow.bodyBlobId) faults).1 hspared.1
  have hexternalize := (hplacing.externalizes (faults.drop 1)).1 hspared.2
  rw [program, saveRequest, Fallible.run_bind_of_ok hquery, Fallible.run_bind_of_ok hexternalize,
    List.drop_drop, Nat.add_comm 1]
  simp only [hjson]
  rfl

/-- The store once the row is written. -/
def withRow (placed : Placement) (json : Json) (s : Store) : Store :=
  { s with requests := call.written placed json s.requests }

theorem find?_written (requests : Table RequestRow) :
    (call.written placed json requests).find? call.request.id = some (call.row placed json) := by
  have hid : Keyed.key (call.row placed json) = call.request.id := id_row placed json
  rw [written, Table.find?_upsert, if_pos hid]
  cases hold : requests.find? call.request.id with
  | none => rfl
  | some old =>
    have hkey : old.id = call.request.id := Table.key_of_find? hold
    rw [Option.elim_some, hkey, ← id_row placed json]

/-- Writing the row changes nothing exactly when it is there already. -/
theorem written_eq_iff {requests : Table RequestRow} :
    call.written placed json requests = requests ↔
      requests.find? call.request.id = some (call.row placed json) := by
  have hid : Keyed.key (call.row placed json) = call.request.id := id_row placed json
  constructor
  · intro h
    rw [← h]
    exact find?_written requests
  · intro h
    rw [← hid] at h
    rw [written, Table.upsert_eq_update h]
    exact Table.update_of_fixed h rfl

/-- The rest of the call from a store whose blobs have their files. -/
theorem performs_finish (h : s₁.Filed hexSha256)
    (hcounts : ∀ id, s₁.refCount id = call.held s placed id) :
    ∃ s', Performs (call.laterEffects s placed) (call.finish placed (call.previous s)) s₁
        ((s'.hydrateOutcome (call.envelope placed) (placed.blobId call.blobId)).map
          (call.stored placed)) s' ∧
      Released hexSha256 s₁ (call.previous s) s' ∧
      (∀ id, (s'.blobIndex.find? id).isSome = true ↔ 0 < call.left s placed id) := by
  obtain ⟨s', hrelease, hreleased⟩ := performs_releaseOptional h (call.previous s)
  have hleft (id : String) : (s'.blobIndex.find? id).isSome = true ↔ 0 < call.left s placed id := by
    rw [hreleased.isSome_iff, hcounts]
    rfl
  refine ⟨s', ?_, hreleased, hleft⟩
  have hhydrate := performs_hydrateHttpBody hreleased.filed (call.envelope placed)
    (placed.blobId call.blobId)
  have heffects : call.laterEffects s placed =
      s'.hydrateEffects (call.source placed) +
        match call.previous s with
        | none => 0
        | some id => releaseEffects (s₁.refCount id) := by
    simp only [laterEffects, hcounts]
    congr 1
    cases call.source placed with
    | none => rfl
    | some id => simp only [Store.hydrateEffects, hleft]
  rw [heffects]
  apply Fallible.Performs.bind hrelease
  cases houtcome : s'.hydrateOutcome (call.envelope placed) (placed.blobId call.blobId) with
  | error e =>
    rw [houtcome] at hhydrate
    exact .bind_error hhydrate
  | ok hydrated =>
    rw [houtcome] at hhydrate
    exact .bind_pure hhydrate (.pure _)

theorem body_envelope (hinline : placed.blobId call.blobId = none) :
    (call.envelope placed).payload.body = call.request.payload.body := by
  rw [envelope, hinline]
  exact ProtocolPayload.body_sanitized _

theorem body_withBody {payload : ProtocolPayload} (hhttp : payload.isHttp = true) (text : String) :
    (withBody text payload).body = some text := by
  cases payload with
  | http payload => rfl
  | _ => cases hhttp

/-- In a store that has the row, the request reads back with its body exactly when
the blob it is read from has the body as its text. -/
theorem readsBack_iff (h : s.Filed hexSha256) (hhttp : call.request.payload.isHttp = true)
    (hread : RequestEnvelope.ofJson json = some (call.envelope placed))
    (hrow : s.requests.find? call.request.id = some (call.row placed json)) :
    call.ReadsBack s ↔ ∀ id, call.source placed = some id →
      ∃ text, s.blobText id = some text ∧ call.request.payload.body = some text := by
  have hget : Reads (getRequest call.request.id) s _ := (performs_getRequest h hrow hread).run_nil
  have hsanitized : call.request.sanitizedForPersistence.payload.body =
      call.request.payload.body := ProtocolPayload.body_sanitized _
  have hblobId : (call.row placed json).bodyBlobId = placed.blobId call.blobId := rfl
  rw [ReadsBack, hsanitized]
  rw [hblobId, Store.hydrateOutcome, Store.hydrated, ← source] at hget
  cases hsource : call.source placed with
  | none =>
    rw [hsource] at hget
    have hinline : placed.blobId call.blobId = none := by
      cases hid : placed.blobId call.blobId with
      | none => rfl
      | some id =>
        rw [source, hid] at hsource
        cases hsource
    constructor
    · intro _ id hid
      cases hid
    · intro _
      exact ⟨_, hget, body_envelope hinline⟩
  | some id =>
    rw [hsource] at hget
    cases htext : s.blobText id with
    | none =>
      simp only [htext, Option.map_none, Except.map] at hget
      constructor
      · rintro ⟨stored, hstored, -⟩
        rw [Reads, hget] at hstored
        cases hstored
      · intro hall
        obtain ⟨text, hsome, -⟩ := hall id rfl
        rw [htext] at hsome
        cases hsome
    | some text =>
      simp only [htext, Option.map_some, Except.map] at hget
      have hbody := body_withBody (isHttp_envelope hhttp placed) text
      constructor
      · rintro ⟨stored, hstored, hequal⟩ id' hid'
        cases hid'
        rw [Reads, hget] at hstored
        cases hstored
        exact ⟨text, htext, hequal.symm.trans hbody⟩
      · intro hall
        obtain ⟨text', hsome, hequal⟩ := hall id rfl
        rw [htext] at hsome
        cases hsome
        exact ⟨_, hget, hbody.trans hequal.symm⟩

/-- Once the previous body is given up, the row reads back with the body that was
given exactly when the body is faithful. -/
theorem readsBack_iff_faithful {s₂ s' : Store} (hinj : Function.Injective hexSha256)
    (hs : s.Filed hexSha256) (hplacing : call.Placing hexSha256 s placed s₁)
    (hindex : s₂.blobIndex = s₁.blobIndex)
    (hreleased : Released hexSha256 s₂ (call.previous s) s')
    (hleft : ∀ id, (s'.blobIndex.find? id).isSome = true ↔ 0 < call.left s placed id)
    (hhttp : call.request.payload.isHttp = true)
    (hread : RequestEnvelope.ofJson json = some (call.envelope placed))
    (hrow : s'.requests.find? call.request.id = some (call.row placed json)) :
    call.ReadsBack s' ↔ call.Faithful s placed := by
  have hsha (id : String) (blob : BlobRow) (hblob : s'.blobIndex.find? id = some blob) :
      (s₁.blobIndex.find? id).map BlobRow.sha256 = some blob.sha256 := by
    rw [← hindex]
    exact hreleased.sha256 id blob hblob
  -- The text of a blob that is left: of an inline body's marker, it is what it was;
  -- of a stored body, it is the body.
  have hkept (hinline : placed = .inline) (id : String) (blob : BlobRow)
      (hblob : s'.blobIndex.find? id = some blob) : s.blobText id = s'.blobText id := by
    apply hs.blobText_eq hinj hreleased.filed
    rw [← hplacing.inline hinline, hsha id blob hblob, hblob, Option.map_some]
  have hstored (id : String) (hid : placed.blobId call.blobId = some id) (blob : BlobRow)
      (hblob : s'.blobIndex.find? id = some blob) :
      ∃ text, s'.blobText id = some text ∧ call.request.payload.body = some text := by
    obtain ⟨body, hbody, hdigest⟩ := hplacing.digest id hid
    obtain ⟨file, -, hfile, htext⟩ := hreleased.filed.blobText_of_find? hblob
    have hcontent : file.content = utf8 body := by
      apply hinj
      rw [hsha id blob hblob] at hdigest
      exact hfile.trans (Option.some.inj hdigest)
    refine ⟨body, ?_, hbody⟩
    rw [htext, hcontent, fromUtf8Lossy_utf8]
  rw [readsBack_iff hreleased.filed hhttp hread hrow, Faithful, Resolves]
  constructor
  · intro hall
    constructor
    · intro id hid
      obtain ⟨text, htext, -⟩ := hall id hid
      rw [← hleft]
      cases hblob : s'.blobIndex.find? id with
      | none => simp [Store.blobText, hblob] at htext
      | some blob => rfl
    · intro hinline id hid
      obtain ⟨text, htext, hbody⟩ := hall id hid
      cases hblob : s'.blobIndex.find? id with
      | none => simp [Store.blobText, hblob] at htext
      | some blob => rw [hkept hinline id blob hblob, htext, hbody]
  · rintro ⟨hresolves, hinline⟩ id hid
    obtain ⟨blob, hblob⟩ := Option.isSome_iff_exists.mp ((hleft id).mpr (hresolves id hid))
    cases hplaced : placed.blobId call.blobId with
    | some stored =>
      have hsame : stored = id := by
        rw [source, hplaced] at hid
        exact Option.some.inj hid
      exact hstored id (hplaced.trans (congrArg some hsame)) blob hblob
    | none =>
      have hnone : placed = .inline := by
        cases placed with
        | inline => rfl
        | _ => cases hplaced
      obtain ⟨file, -, -, htext⟩ := hreleased.filed.blobText_of_find? hblob
      refine ⟨_, htext, ?_⟩
      rw [← hinline hnone id hid, hkept hnone id blob hblob, htext]

/-! ## The contract of a written row -/

theorem frames_finish (call : SaveCall) (placed : Placement) (previous : Option String) :
    Frames Store.requests (call.finish placed previous) :=
  Frames.bind (.releaseOptional ⟨fun _ _ => rfl, fun _ _ => rfl⟩ previous) fun _ =>
    Frames.bind (.hydrateHttpBody _ _) fun _ => .pure _

theorem keeps_finish (call : SaveCall) (placed : Placement) (previous : Option String) :
    Keeps (Store.Filed hexSha256) (call.finish placed previous) := by
  apply Keeps.bind ((keepsBlobs_filed hexSha256).releaseOptional previous)
  intro _
  have hhydrate : Keeps (Store.Filed hexSha256)
      (hydrateHttpBody (call.envelope placed) (placed.blobId call.blobId)) :=
    (Frames.hydrateHttpBody _ _).keeps_filed
  exact Keeps.bind hhydrate fun _ => Keeps.pure _

theorem Placing.blobIndex_ne (hplacing : call.Placing hexSha256 s placed s₁)
    (hne : placed ≠ .inline) : s₁.blobIndex ≠ s.blobIndex := by
  intro hsame
  cases hid : placed.blobId call.blobId with
  | none => cases placed <;> simp_all [Placement.blobId]
  | some id =>
    have hcount := hplacing.counts id
    rw [Store.refCount, hsame, held, if_pos hid, Store.refCount] at hcount
    omega

/-- Giving up what was stored for the body restores the index, unless one of its
first two effects is struck. -/
theorem blobIndex_release_placed_iff (hplacing : call.Placing hexSha256 s placed s₁) {t : Store}
    (hindex : t.blobIndex = s₁.blobIndex) :
    ((releaseOptional (placed.blobId call.blobId)).run ⟨t, faults⟩).2.state.blobIndex =
        s.blobIndex ↔ placed = .inline ∨ Spared faults 2 := by
  cases hid : placed.blobId call.blobId with
  | none =>
    have hinline : placed = .inline := by
      cases placed with
      | inline => rfl
      | _ => cases hid
    have hsame : t.blobIndex = s.blobIndex := by rw [hindex, hplacing.inline hinline]
    exact iff_of_true hsame (Or.inl hinline)
  | some id =>
    have hne : placed ≠ .inline := by
      rintro rfl
      cases hid
    rw [or_iff_right hne]
    by_cases hspared : Spared faults 2
    · have hreleased : ((releaseBlob id).run ⟨t, faults⟩).2.state.blobIndex = s.blobIndex := by
        rw [blobIndex_releaseBlob_of_spared hspared, hindex, hplacing.undone id hid]
      exact iff_of_true hreleased hspared
    · have hkept : ((releaseBlob id).run ⟨t, faults⟩).2.state.blobIndex = s₁.blobIndex := by
        rw [blobIndex_releaseBlob_of_struck hspared, hindex]
      refine iff_of_false ?_ hspared
      intro hrestored
      exact hplacing.blobIndex_ne hne (hkept.symm.trans hrestored)

/-- With requests and index as they were, every list reads as before. -/
theorem unchanged_iff {s' : Store} (hinj : Function.Injective hexSha256) (h : s.Filed hexSha256)
    (h' : s'.Filed hexSha256) :
    Unchanged s s' ↔ s'.requests = s.requests ∧ s'.blobIndex = s.blobIndex := by
  constructor
  · exact fun hunchanged => ⟨hunchanged.1, hunchanged.2.1⟩
  · rintro ⟨hrequests, hindex⟩
    refine ⟨hrequests, hindex, ?_⟩
    rintro collectionId ⟨stored, hstored⟩
    have hsame : SameRequests hexSha256 s s' := ⟨h, h', hrequests, hindex⟩
    obtain ⟨r, hr, hr'⟩ := hsame.listRequests hinj collectionId
    rw [Reads, hr] at hstored
    cases hstored
    exact ⟨stored, hr'⟩

/-- A row that was written leaves everything unchanged only where it repeats the
row before, and the reference taken for it is given up again. -/
theorem unchanged_finish_iff (hinj : Function.Injective hexSha256) (h : s.Filed hexSha256)
    (hplacing : call.Placing hexSha256 s placed s₁)
    (hjson : (call.envelope placed).toJson = some json) :
    Unchanged s ((call.finish placed (call.previous s)).run
        ⟨call.withRow placed json s₁, faults⟩).2.state ↔
      call.Repeats s placed ∧ (placed = .inline ∨ Spared faults 2) := by
  have hfiled : (call.withRow placed json s₁).Filed hexSha256 := hplacing.filed
  have hfiled' := (keeps_finish call placed (call.previous s)).state hfiled faults
  have hrequests := (frames_finish call placed (call.previous s)).state
    ⟨call.withRow placed json s₁, faults⟩
  have hrepeats : call.written placed json s.requests = s.requests ↔ call.Repeats s placed := by
    rw [written_eq_iff]
    constructor
    · exact fun hrow => ⟨json, hjson, hrow⟩
    · rintro ⟨json', hjson', hrow⟩
      rw [hjson] at hjson'
      cases hjson'
      exact hrow
  have hwritten : (call.withRow placed json s₁).requests = call.written placed json s.requests := by
    rw [withRow, hplacing.requests]
  rw [unchanged_iff hinj h hfiled', hrequests, hwritten, hrepeats]
  apply and_congr_right
  rintro ⟨json', -, hrow⟩
  have hprevious : call.previous s = placed.blobId call.blobId := by
    rw [previous, hrow]
    rfl
  have hframes (u : Unit) : Frames Store.blobIndex (do
      let hydrated ← hydrateHttpBody (call.envelope placed) (placed.blobId call.blobId)
      pure (call.stored placed hydrated)) :=
    Frames.bind (.hydrateHttpBody _ _) fun _ => .pure _
  rw [finish, Frames.state_bind hframes, hprevious]
  exact blobIndex_release_placed_iff hplacing rfl

/-- Once the row is written, the contract is met exactly when the rest of the
call ends well. -/
theorem contract_finish_iff (hinj : Function.Injective hexSha256) (h : s.Filed hexSha256)
    (hhttp : call.request.payload.isHttp = true)
    (hplacing : call.Placing hexSha256 s placed s₁)
    (hjson : (call.envelope placed).toJson = some json)
    (hread : RequestEnvelope.ofJson json = some (call.envelope placed)) :
    call.Contract s ((call.finish placed (call.previous s)).run
        ⟨call.withRow placed json s₁, faults⟩) ↔ call.EndsWell s placed faults := by
  have hfiled : (call.withRow placed json s₁).Filed hexSha256 := hplacing.filed
  obtain ⟨s', hperforms, hreleased, hleft⟩ := performs_finish (s := s) hfiled hplacing.counts
  have hunchanged : Unchanged s ((call.finish placed (call.previous s)).run
      ⟨call.withRow placed json s₁, faults⟩).2.state ↔
        call.Repeats s placed ∧ (placed = .inline ∨ Spared faults 2) :=
    unchanged_finish_iff hinj h hplacing hjson
  by_cases hspared : Spared faults (call.laterEffects s placed)
  · have hrow : s'.requests.find? call.request.id = some (call.row placed json) := by
      rw [hreleased.requests]
      exact find?_written s₁.requests
    have hindex : (call.withRow placed json s₁).blobIndex = s₁.blobIndex := rfl
    have hfaithful := readsBack_iff_faithful hinj h hplacing hindex hreleased hleft hhttp hread hrow
    have hresolves := hreleased.filed.hydrateOutcome_eq_ok_iff (call.envelope placed)
      (placed.blobId call.blobId)
    simp only [hleft] at hresolves
    rw [(hperforms faults).1 hspared] at hunchanged ⊢
    rw [EndsWell]
    cases houtcome : s'.hydrateOutcome (call.envelope placed) (placed.blobId call.blobId) with
    | ok hydrated =>
      have hthere : call.Resolves s placed := hresolves.mp ⟨hydrated, houtcome⟩
      show call.ReadsBack s' ↔ _
      rw [hfaithful]
      constructor
      · exact fun hgood => Or.inl ⟨hspared, hgood⟩
      · rintro (⟨-, hgood⟩ | ⟨-, -, hlost⟩)
        · exact hgood
        · exact absurd ⟨hspared, hthere⟩ hlost
    | error e =>
      have hlost : ¬ call.Resolves s placed := by
        intro hthere
        obtain ⟨hydrated, hok⟩ := hresolves.mpr hthere
        rw [houtcome] at hok
        cases hok
      show Unchanged s s' ↔ _
      rw [hunchanged]
      constructor
      · exact fun hrepeats => Or.inr ⟨hrepeats.1, hrepeats.2, fun hboth => hlost hboth.2⟩
      · rintro (⟨-, hgood⟩ | ⟨hrepeats, hrestored, -⟩)
        · exact absurd hgood.1 hlost
        · exact ⟨hrepeats, hrestored⟩
  · obtain ⟨e, w', hrun⟩ := (hperforms faults).2 hspared
    rw [hrun] at hunchanged ⊢
    rw [EndsWell]
    show Unchanged s w'.state ↔ _
    rw [hunchanged]
    constructor
    · exact fun hrepeats => Or.inr ⟨hrepeats.1, hrepeats.2, fun hboth => hspared hboth.1⟩
    · rintro (⟨hall, -⟩ | ⟨hrepeats, hrestored, -⟩)
      · exact absurd hall hspared
      · exact ⟨hrepeats, hrestored⟩

theorem upsertRequest_row (placed : Placement) (json : Json) (s : Store) :
    Sql.upsertRequest (call.row placed json) s =
      if call.Refused s then none else some (call.withRow placed json s, 1) := by
  by_cases h : (Sql.refers s.projects call.projectId &&
      Sql.refers s.collections call.collectionId) = true
  · have hallowed : ¬ call.Refused s := not_not_intro h
    rw [if_neg hallowed]
    exact if_pos h
  · have hrefused : call.Refused s := h
    rw [if_pos hrefused]
    exact if_neg h

/-- When the row cannot be written, the contract is met exactly when the blob that
was stored for it is given up undisturbed. -/
theorem contract_rollback_iff (hinj : Function.Injective hexSha256) (h : s.Filed hexSha256)
    (hplacing : call.Placing hexSha256 s placed s₁) {e : StoreError} {rest : List Bool}
    (hrun : (execute (Sql.upsertRequest (call.row placed json))).run ⟨s₁, faults⟩ =
      (.error e, ⟨s₁, rest⟩)) :
    call.Contract s ((call.write placed json (call.previous s)).run ⟨s₁, faults⟩) ↔
      placed = .inline ∨ Spared rest 2 := by
  let rollback : StoreM Nat := do
    releaseOptional (placed.blobId call.blobId)
    Fallible.fail e
  have hfiled := (Keeps.bind ((keepsBlobs_filed hexSha256).releaseOptional
    (placed.blobId call.blobId)) fun _ => (Keeps.fail e : Keeps _ (Fallible.fail e : StoreM Nat)))
      |>.state hplacing.filed rest
  have hrequests : (rollback.run ⟨s₁, rest⟩).2.state.requests = s.requests := by
    have hframes : Frames Store.requests rollback :=
      Frames.bind (Frames.releaseOptional ⟨fun _ _ => rfl, fun _ _ => rfl⟩ _) fun _ =>
        Frames.fail e
    exact (hframes.state ⟨s₁, rest⟩).trans hplacing.requests
  have hindex : (rollback.run ⟨s₁, rest⟩).2.state.blobIndex =
      ((releaseOptional (placed.blobId call.blobId)).run ⟨s₁, rest⟩).2.state.blobIndex :=
    Frames.state_bind (fun _ => Frames.fail e) ⟨s₁, rest⟩
  rcases hrollback : rollback.run ⟨s₁, rest⟩ with ⟨e' | n, w'⟩
  · have hwrite : (call.write placed json (call.previous s)).run ⟨s₁, faults⟩ =
        (.error e', w') := by
      apply Fallible.run_bind_of_error
      rw [Fallible.run_recover, hrun]
      exact hrollback
    have hfiled' : (rollback.run ⟨s₁, rest⟩).2.state.Filed hexSha256 := hfiled
    rw [hrollback] at hrequests hindex hfiled'
    rw [hwrite]
    show Unchanged s w'.state ↔ _
    rw [unchanged_iff hinj h hfiled', hindex, blobIndex_release_placed_iff hplacing rfl]
    exact and_iff_right hrequests
  · exact absurd hrollback (fails_cleanup _ e _ n w')

theorem contract_write_iff (hinj : Function.Injective hexSha256) (h : s.Filed hexSha256)
    (hhttp : call.request.payload.isHttp = true)
    (hplacing : call.Placing hexSha256 s placed s₁)
    (hjson : (call.envelope placed).toJson = some json)
    (hread : RequestEnvelope.ofJson json = some (call.envelope placed)) :
    call.Contract s ((call.write placed json (call.previous s)).run ⟨s₁, faults⟩) ↔
      if Spared faults 1 ∧ ¬ call.Refused s then call.EndsWell s placed (faults.drop 1)
      else placed = .inline ∨ Spared (faults.drop 1) 2 := by
  have hrefused : call.Refused s₁ ↔ call.Refused s := by
    rw [Refused, Refused, hplacing.projects, hplacing.collections]
  by_cases hspared : Spared faults 1
  · by_cases hallowed : call.Refused s
    · rw [if_neg fun hboth => hboth.2 hallowed]
      apply contract_rollback_iff hinj h hplacing
      exact (Performs.execute_constraint
        (by rw [upsertRequest_row, if_pos (hrefused.mpr hallowed)]) faults).1 hspared
    · rw [if_pos ⟨hspared, hallowed⟩, ← contract_finish_iff hinj h hhttp hplacing hjson hread]
      have hwritten : (execute (Sql.upsertRequest (call.row placed json))).run ⟨s₁, faults⟩ =
          (.ok 1, ⟨call.withRow placed json s₁, faults.drop 1⟩) :=
        (Performs.execute (by
          rw [upsertRequest_row, if_neg fun hr => hallowed (hrefused.mp hr)]) faults).1 hspared
      rw [write, Fallible.run_bind_of_ok (by rw [Fallible.run_recover, hwritten])]
  · rw [if_neg fun hboth => hspared hboth.1]
    apply contract_rollback_iff hinj h hplacing
    rw [spared_one, not_not] at hspared
    rw [execute, Fallible.run_attempt_of_struck hspared, List.drop_one]

/-! ## The whole call -/

/-- Reading the blob of the row before comes first. -/
theorem run_previous (call : SaveCall) (hspared : Spared faults 1) :
    (query fun s => (s.requests.find? call.request.id).bind RequestRow.bodyBlobId).run
      ⟨s, faults⟩ = (.ok (call.previous s), ⟨s, faults.drop 1⟩) :=
  (Performs.query _ faults).1 hspared

/-- A body that finds no place fails the call. -/
theorem run_program_of_error {e : StoreError} (hspared : Spared faults 1)
    (herror : (externalizeHttpBody hexSha256 call.blobId call.now
      call.request.sanitizedForPersistence).run ⟨s, faults.drop 1⟩ = (.error e, w')) :
    (call.program hexSha256).run ⟨s, faults⟩ = (.error e, w') := by
  rw [program, saveRequest, Fallible.run_bind_of_ok (run_previous call hspared),
    Fallible.run_bind_of_error herror]

theorem run_program_of_struck (call : SaveCall) (hexSha256 : Bytes → String)
    (hstruck : ¬ Spared faults 1) :
    ∃ e rest, (call.program hexSha256).run ⟨s, faults⟩ = (.error e, ⟨s, rest⟩) := by
  rw [spared_one, not_not] at hstruck
  rw [program, saveRequest, query,
    Fallible.run_bind_of_error (Fallible.run_attempt_of_struck hstruck)]
  exact ⟨_, _, rfl⟩

theorem filed_program_of_run {r : Except StoreError StoredRequest} (h : s.Filed hexSha256)
    (hrun : (call.program hexSha256).run ⟨s, faults⟩ = (r, w')) : w'.state.Filed hexSha256 := by
  have hkept : Keeps (Store.Filed hexSha256) (call.program hexSha256) := by
    apply (keepsBlobs_filed hexSha256).saveRequest
    intro s s' n row _ _ hupsert hs
    obtain ⟨-, -, rfl⟩ := Sql.upsertRequest_eq_some hupsert
    exact hs
  have hfiled := hkept.state h faults
  rwa [hrun] at hfiled

/-- A failure before the first change of the tables leaves everything as it was. -/
theorem contract_of_early (hinj : Function.Injective hexSha256) (h : s.Filed hexSha256)
    (hplacing : call.Placing hexSha256 s placed s₁)
    (hstruck : ¬ Spared faults (max 1 placed.effects)) :
    call.Contract s ((call.program hexSha256).run ⟨s, faults⟩) := by
  by_cases hfirst : Spared faults 1
  · have hput : 1 ≤ placed.effects := by
      by_contra hnone
      rw [max_eq_left (by omega)] at hstruck
      exact hstruck hfirst
    rw [max_eq_right hput, ← Nat.add_sub_cancel' hput, spared_add] at hstruck
    have hearly : ¬ Spared (faults.drop 1) (placed.effects - 1) := fun hspared =>
      hstruck ⟨hfirst, hspared⟩
    have hput' : ¬ Spared (faults.drop 1) placed.effects := fun hspared =>
      hearly (hspared.mono (Nat.sub_le _ _))
    obtain ⟨e, w', herror⟩ := (hplacing.externalizes (faults.drop 1)).2 hput'
    have hrun := run_program_of_error hfirst herror
    rw [hrun]
    exact (unchanged_iff hinj h (filed_program_of_run h hrun)).mpr
      (hplacing.early _ _ _ hearly herror)
  · obtain ⟨e, rest, hrun⟩ := run_program_of_struck call hexSha256 hfirst
    rw [hrun]
    exact (unchanged_iff hinj h h).mpr ⟨rfl, rfl⟩

/-- A failure between storing the body and writing the row leaves a blob behind. -/
theorem not_contract_of_late (hplacing : call.Placing hexSha256 s placed s₁)
    (hspared : Spared faults (max 1 placed.effects))
    (hstruck : ¬ Spared faults (placed.effects + 1)) :
    ¬ call.Contract s ((call.program hexSha256).run ⟨s, faults⟩) := by
  have hfirst : Spared faults 1 := hspared.mono (le_max_left _ _)
  have hput' : ¬ Spared (faults.drop 1) placed.effects := by
    intro hrest
    rw [Nat.add_comm, spared_add] at hstruck
    exact hstruck ⟨hfirst, hrest⟩
  have hput : 1 ≤ placed.effects := by
    by_contra hnone
    have hzero : placed.effects = 0 := by omega
    rw [hzero] at hput'
    exact hput' (spared_zero _)
  obtain ⟨e, w', herror⟩ := (hplacing.externalizes (faults.drop 1)).2 hput'
  have hstored : Spared (faults.drop 1) (placed.effects - 1) := by
    have hall : Spared faults (1 + (placed.effects - 1)) := by
      apply hspared.mono
      omega
    exact (spared_add.mp hall).2
  have hne : placed ≠ .inline := by
    rintro rfl
    exact absurd hput (by decide)
  rw [run_program_of_error hfirst herror]
  intro hunchanged
  exact hplacing.blobIndex_ne hne
    ((hplacing.late _ _ _ hstored herror).symm.trans hunchanged.2.1)

/-- A new blob under an id that is taken fails the call without a trace. -/
theorem contract_of_taken (hinj : Function.Injective hexSha256) (h : s.Filed hexSha256)
    (hfresh : placement hexSha256 s call.request.payload.body = .fresh)
    (htaken : (s.blobIndex.find? call.blobId).isSome = true) :
    call.Contract s ((call.program hexSha256).run ⟨s, faults⟩) := by
  by_cases hfirst : Spared faults 1
  · obtain ⟨e, w', herror, hsame⟩ := externalize_of_taken call hfresh htaken (faults.drop 1)
    have hrun := run_program_of_error hfirst herror
    rw [hrun]
    exact (unchanged_iff hinj h (filed_program_of_run h hrun)).mpr hsame
  · obtain ⟨e, rest, hrun⟩ := run_program_of_struck call hexSha256 hfirst
    rw [hrun]
    exact (unchanged_iff hinj h h).mpr ⟨rfl, rfl⟩

/-- From a store whose blobs have their files, a call meets its contract under
exactly the circumstances that `MeetsContract` names. -/
theorem contract_program_iff (hinj : Function.Injective hexSha256) (h : s.Filed hexSha256)
    (hhttp : call.request.payload.isHttp = true) :
    call.Contract s ((call.program hexSha256).run ⟨s, faults⟩) ↔
      call.MeetsContract hexSha256 s faults := by
  rw [MeetsContract]
  generalize hplaced : placement hexSha256 s call.request.payload.body = placed
  by_cases htaken : placed = .fresh ∧ (s.blobIndex.find? call.blobId).isSome = true
  · exact iff_of_true (contract_of_taken hinj h (hplaced.trans htaken.1) htaken.2)
      (Or.inr (Or.inl htaken))
  · have hplacing : ∃ s₁, call.Placing hexSha256 s placed s₁ := by
      rw [← hplaced]
      apply call.exists_placing h
      intro hfresh
      rw [← hplaced] at htaken
      simpa using fun hsome => htaken ⟨hfresh, hsome⟩
    obtain ⟨s₁, hplacing⟩ := hplacing
    rw [or_iff_right htaken]
    by_cases hspared : Spared faults (placed.effects + 1)
    · obtain ⟨json, hjson, hread⟩ := exists_json hhttp placed
      have hearly : Spared faults (max 1 placed.effects) := by
        apply hspared.mono
        omega
      have hnext : Spared faults (placed.effects + 2) ↔
          Spared (faults.drop (placed.effects + 1)) 1 := by
        have hadd : Spared faults (placed.effects + 1 + 1) ↔
            Spared faults (placed.effects + 1) ∧ Spared (faults.drop (placed.effects + 1)) 1 :=
          spared_add
        exact hadd.trans (and_iff_right hspared)
      rw [run_program hplacing hjson hspared, contract_write_iff hinj h hhttp hplacing hjson hread,
        List.drop_drop, or_iff_right (not_not_intro hearly), and_iff_right hspared]
      simp only [hnext]
    · by_cases hearly : Spared faults (max 1 placed.effects)
      · refine iff_of_false (not_contract_of_late hplacing hearly hspared) ?_
        rintro (hstruck | ⟨hall, -⟩)
        · exact hstruck hearly
        · exact hspared hall
      · exact iff_of_true (contract_of_early hinj h hplacing hearly) (Or.inl hearly)

end SaveCall

/-- A call that saves a request with a short body. -/
def textSave (body : String) : SaveCall where
  blobId := "b"
  now := "t"
  request :=
    let request := RequestEnvelope.httpGet "r" "t" "text" "http://localhost"
    { request with payload := withBody body request.payload }
  projectId := "default-project"
  collectionId := "default-collection"

end ApiVoy.LocalStore
