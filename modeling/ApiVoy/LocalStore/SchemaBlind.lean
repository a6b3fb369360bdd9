/-
# Programs that do not look at the schema

The schema of a database says which references are declared. Only few statements look at
it: those that write a parent of a collection or a workspace of a project, and the
deletions that cascade along parents. Every other program does the same under one schema
as under another, effect for effect; the few do it where what they check has been checked
before.
-/

import ApiVoy.Foundation.Simulation
import ApiVoy.LocalStore.BlobCover
import ApiVoy.LocalStore.Defaults

namespace ApiVoy.LocalStore

open Foundation Domain

variable {α β : Type} {schema : Schema} {P E : Store → Prop} {Q : α → Store → Prop}
  {s s' : Store} {id : String}

/-- The same rows under another schema. -/
def Store.withSchema (schema : Schema) (s : Store) : Store := { s with schema }

/-- From each state in `P` the program does the same under the other schema. -/
abbrev SchemaBlind (schema : Schema) (P : Store → Prop) (m : StoreM α) : Prop :=
  Fallible.Lockstep (Store.withSchema schema) P m m

/-- A statement that does the same under the other schema. -/
def SameStatement (schema : Schema) (P : Store → Prop)
    (statement : Store → Option (Store × Nat)) : Prop :=
  ∀ s, P s → statement (s.withSchema schema) =
    (statement s).map fun result => (result.1.withSchema schema, result.2)

namespace SchemaBlind

theorem query {read : Store → α} (h : ∀ s, read (s.withSchema schema) = read s) :
    SchemaBlind schema P (query read) := by
  apply Fallible.Lockstep.attempt
  intro s _
  rw [h]

theorem execute {statement : Store → Option (Store × Nat)}
    (h : SameStatement schema P statement) :
    SchemaBlind schema P (LocalStore.execute statement) := by
  apply Fallible.Lockstep.attempt
  intro s hs
  rw [h s hs]
  cases statement s <;> rfl

theorem fileEffect {effect : Store → Store}
    (h : ∀ s, effect (s.withSchema schema) = (effect s).withSchema schema) :
    SchemaBlind schema P (fileEffect effect) := by
  apply Fallible.Lockstep.attempt
  intro s _
  rw [h]

variable (path : String)

theorem readFile : SchemaBlind schema P (readFile path) := by
  apply Fallible.Lockstep.attempt
  intro s _
  have hfiles : (s.withSchema schema).files.find? path = s.files.find? path := rfl
  simp only [hfiles]
  cases s.files.find? path <;> rfl

theorem removeFile : SchemaBlind schema P (removeFile path) := by
  apply Fallible.Lockstep.attempt
  intro s _
  have hfiles : (s.withSchema schema).files.find? path = s.files.find? path := rfl
  simp only [hfiles]
  cases s.files.find? path <;> rfl

variable {m : StoreM α}

theorem bind {f : α → StoreM β} (hm : SchemaBlind schema P m)
    (hf : ∀ a, SchemaBlind schema (fun _ => True) (f a)) : SchemaBlind schema P (m >>= f) :=
  hm.bind_all hf

theorem pure (a : α) : SchemaBlind schema P (Pure.pure a : StoreM α) := Fallible.Lockstep.pure a

theorem fail (e : StoreError) : SchemaBlind schema P (Fallible.fail e : StoreM α) :=
  Fallible.Lockstep.fail e

theorem recover {handler : StoreError → StoreM α} (hm : SchemaBlind schema P m)
    (hh : ∀ e, SchemaBlind schema (fun _ => True) (handler e)) :
    SchemaBlind schema P (Fallible.recover m handler) :=
  Fallible.Lockstep.recover hm (.trivial m) hh

theorem ignore (hm : SchemaBlind schema P m) : SchemaBlind schema P (Fallible.ignore m) :=
  Fallible.Lockstep.ignore hm

theorem each {f : α → StoreM Unit} (hf : ∀ a, SchemaBlind schema (fun _ => True) (f a))
    (items : List α) : SchemaBlind schema (fun _ => True) (Fallible.each f items) :=
  Fallible.Lockstep.each (I := fun _ _ => True) (fun a _ => hf a)
    (fun a _ => .trivial (f a)) items

/-- Restoring gives each side back what it started from. -/
theorem restoring (hm : SchemaBlind schema P m) : SchemaBlind schema P (restoring m) := by
  intro s faults hs
  rw [run_restoring, run_restoring, hm s faults hs]
  rcases m.run ⟨s, faults⟩ with ⟨_ | _, _⟩ <;> rfl

theorem transaction (hm : SchemaBlind schema P m) : SchemaBlind schema P (transaction m) := by
  have hbegin : Triple P (LocalStore.query fun _ => ()) (fun _ => P) P :=
    (triple_query _).weaken (fun _ hs => hs) (fun _ _ hs => hs.1) fun _ hs => hs
  apply Fallible.Lockstep.bind (query fun _ => rfl) hbegin
  intro _
  apply restoring
  apply bind hm
  intro a
  exact bind (query fun _ => rfl) fun _ => pure a

theorem weaken {P' : Store → Prop} (hm : SchemaBlind schema P m) (hpre : ∀ s, P' s → P s) :
    SchemaBlind schema P' m :=
  Fallible.Lockstep.weaken hm hpre

/-! ## Blobs -/

theorem requireRow (row : Option (Option α)) : SchemaBlind schema P (requireRow row) := by
  cases row with
  | none => exact fail _
  | some value =>
    cases value with
    | none => exact fail _
    | some a => exact pure a

theorem changedOrNotFound (id : String) (changed : Nat) :
    SchemaBlind schema P (changedOrNotFound id changed) := by
  unfold LocalStore.changedOrNotFound
  split
  · exact fail _
  · exact pure ()

theorem requireBlob (id : String) : SchemaBlind schema P (requireBlob id) := by
  apply bind (query fun _ => rfl)
  intro found
  cases found with
  | none => exact fail _
  | some blob => exact pure blob

theorem readBlob (id : String) : SchemaBlind schema P (readBlob id) :=
  bind (requireBlob id) fun blob => readFile blob.relativePath

theorem addToRefCount (id : String) (delta : Int) :
    SchemaBlind schema P (LocalStore.execute (Sql.addToRefCount id delta)) :=
  execute fun _ _ => rfl

theorem insertBlob (row : BlobRow) :
    SchemaBlind schema P (LocalStore.execute (Sql.insertBlob row)) := by
  apply execute
  intro s _
  show (if s.blobIndex.rows.any fun b => b.sha256 = row.sha256 then none
    else (s.blobIndex.insert? row).map fun blobIndex => _) = _
  unfold Sql.insertBlob
  split
  · rfl
  · cases s.blobIndex.insert? row <;> rfl

theorem cleanup (e : StoreError) :
    SchemaBlind schema P
      (do Fallible.ignore (LocalStore.removeFile path); Fallible.fail e : StoreM α) :=
  bind (ignore (removeFile path)) fun _ => fail e

theorem writeBlobFile (data : Bytes) : SchemaBlind schema P (writeBlobFile path data) := by
  apply bind
  · exact fileEffect fun _ => rfl
  · intro _
    apply bind
    · exact fileEffect fun _ => rfl
    · exact fun _ => fileEffect fun _ => rfl

variable (hexSha256 : Bytes → String)

theorem putBlob (blobId : String) (now : Timestamp) (data : Bytes) (contentType : Option String) :
    SchemaBlind schema P (putBlob hexSha256 blobId now data contentType) := by
  apply bind (query fun _ => rfl)
  intro existing
  cases existing with
  | some existing => exact bind (addToRefCount _ _) fun _ => requireBlob _
  | none =>
    apply bind
    · exact fileEffect fun _ => rfl
    · intro _
      apply bind (recover (writeBlobFile _ _) fun e => cleanup _ e)
      intro _
      exact bind (recover (insertBlob _) fun e => cleanup _ e) fun _ => requireBlob blobId

theorem releaseBlob (id : String) : SchemaBlind schema P (releaseBlob id) := by
  apply bind (query fun _ => rfl)
  intro found
  cases found with
  | none => exact pure ()
  | some blob =>
    simp only
    split
    · exact bind (addToRefCount _ _) fun _ => pure ()
    · apply bind (execute fun _ _ => rfl)
      intro _
      apply recover (removeFile _)
      intro e
      split
      · exact pure ()
      · exact fail e

theorem releaseOptional (id : Option String) : SchemaBlind schema P (releaseOptional id) := by
  cases id with
  | none => exact pure ()
  | some id => exact releaseBlob id

theorem releaseAndFail (id : Option String) (e : StoreError) :
    SchemaBlind schema P (do LocalStore.releaseOptional id; Fallible.fail e : StoreM α) :=
  bind (releaseOptional id) fun _ => fail e

theorem externalizeHttpBody (blobId : String) (now : Timestamp) (envelope : RequestEnvelope) :
    SchemaBlind schema P (externalizeHttpBody hexSha256 blobId now envelope) := by
  unfold LocalStore.externalizeHttpBody
  cases envelope.payload.body with
  | none => exact pure _
  | some body =>
    simp only
    split
    · exact pure _
    · exact bind (putBlob _ _ _ _ _) fun _ => pure _

theorem hydrateHttpBody (envelope : RequestEnvelope) (bodyBlobId : Option String) :
    SchemaBlind schema P (hydrateHttpBody envelope bodyBlobId) := by
  rw [hydrateHttpBody_eq]
  cases bodySource envelope bodyBlobId with
  | none => exact pure _
  | some id => exact bind (readBlob id) fun _ => pure _

/-! ## Requests and executions -/

theorem upsertRequest (row : RequestRow) :
    SchemaBlind schema P (LocalStore.execute (Sql.upsertRequest row)) := by
  apply execute
  intro s _
  show (if Sql.refers s.projects row.projectId && Sql.refers s.collections row.collectionId then _
    else none) = _
  unfold Sql.upsertRequest
  split <;> rfl

theorem saveRequest (blobId : String) (now : Timestamp) (request : RequestEnvelope)
    (projectId collectionId : String) :
    SchemaBlind schema P (saveRequest hexSha256 blobId now request projectId collectionId) := by
  apply bind (query fun _ => rfl)
  intro previous
  apply bind (externalizeHttpBody _ _ _ _)
  rintro ⟨envelope, bodyBlobId⟩
  simp only
  cases envelope.toJson with
  | none => exact releaseAndFail _ _
  | some json =>
    apply bind (recover (upsertRequest _) fun e => releaseAndFail _ e)
    intro _
    apply bind (releaseOptional _)
    intro _
    exact bind (hydrateHttpBody _ _) fun _ => pure _

theorem loadRequest (row : RequestRow) : SchemaBlind schema P (loadRequest row) := by
  unfold LocalStore.loadRequest
  cases RequestEnvelope.ofJson row.envelope with
  | none => exact fail _
  | some envelope => exact bind (hydrateHttpBody _ _) fun _ => pure _

theorem getRequest (id : String) : SchemaBlind schema P (getRequest id) := by
  apply bind (query fun _ => rfl)
  intro found
  cases found with
  | none => exact pure _
  | some row => exact bind (loadRequest row) fun _ => pure _

theorem loadAll (rows : List RequestRow) : SchemaBlind schema P (loadAll rows) := by
  induction rows generalizing P with
  | nil => exact pure _
  | cons row rest ih =>
    apply bind (loadRequest row)
    intro _
    exact bind ih fun _ => pure _

theorem listRequests (collectionId : Option String) :
    SchemaBlind schema P (listRequests collectionId) :=
  bind (query fun _ => rfl) fun rows => loadAll rows

theorem deleteRequest (id : String) : SchemaBlind schema P (deleteRequest id) := by
  apply bind (query fun _ => rfl)
  intro blobId
  apply bind (execute fun _ _ => rfl)
  intro changed
  split
  · exact fail _
  · exact releaseOptional blobId

theorem moveRequest (id projectId collectionId : String) (now : Timestamp) :
    SchemaBlind schema P (moveRequest id projectId collectionId now) := by
  apply bind (query fun _ => rfl)
  intro collectionProject
  split
  · exact fail _
  · apply bind
    · apply execute
      intro s _
      show (if (s.requests.find? id).isNone ||
        (Sql.refers s.projects projectId && Sql.refers s.collections collectionId) then _
        else none) = _
      unfold Sql.moveRequest
      split <;> rfl
    · intro changed
      split
      · exact fail _
      · exact pure ()

variable (row : ExecutionRow)

theorem insertExecution : SchemaBlind schema P (LocalStore.execute (Sql.insertExecution row)) := by
  apply execute
  intro s _
  show (s.executions.insert? row).map _ = _
  unfold Sql.insertExecution
  cases s.executions.insert? row <;> rfl

theorem recordExecution (bodyBlobNew previewBlobNew : String) (now : Timestamp)
    (record : ExecutionRecord) :
    SchemaBlind schema P (recordExecution hexSha256 bodyBlobNew previewBlobNew now record) := by
  apply bind
  · cases record.requestSnapshot with
    | none => exact pure _
    | some request => exact bind (externalizeHttpBody _ _ _ _) fun _ => pure _
  · rintro ⟨snapshot, bodyBlobId⟩
    simp only
    cases snapshotJson snapshot with
    | none => exact releaseAndFail _ _
    | some json =>
      apply bind
      · unfold externalizePreview
        split
        · split
          · exact pure _
          · exact bind (recover (putBlob _ _ _ _ _) fun e => releaseAndFail _ e) fun _ => pure _
        · exact pure _
      · rintro ⟨preview, responseBlobId⟩
        apply bind _ fun _ => pure ()
        apply recover (insertExecution _)
        exact fun e => bind (releaseOptional _) fun _ => releaseAndFail _ e

theorem recordWithResponse (responseBlobNew : String) (data : Bytes) (contentType : Option String)
    (bodyBlobNew previewBlobNew : String) (now : Timestamp) (record : ExecutionRecord) :
    SchemaBlind schema P (recordWithResponse hexSha256 responseBlobNew data contentType bodyBlobNew
      previewBlobNew now record) :=
  bind (putBlob _ _ _ _ _) fun _ => recordExecution _ _ _ _ _

theorem loadSnapshot (snapshot : Option Json) : SchemaBlind schema P (loadSnapshot snapshot) := by
  cases snapshot with
  | none => exact pure _
  | some json =>
    cases hread : RequestEnvelope.ofJson json with
    | none =>
      rw [LocalStore.loadSnapshot, hread]
      exact fail _
    | some envelope =>
      rw [LocalStore.loadSnapshot, hread]
      exact bind (hydrateHttpBody _ _) fun _ => pure _

theorem loadExecution : SchemaBlind schema P (loadExecution row) := by
  apply bind (loadSnapshot _)
  intro snapshot
  apply bind _ fun _ => pure _
  cases row.responseBlobId with
  | none => exact pure _
  | some id => exact recover (bind (readBlob id) fun _ => pure _) fun _ => pure _

theorem getExecution (id : String) : SchemaBlind schema P (getExecution id) := by
  apply bind (query fun _ => rfl)
  intro found
  cases found with
  | none => exact pure _
  | some row => exact bind (loadExecution row) fun _ => pure _

theorem loadExecutions (rows : List ExecutionRow) :
    SchemaBlind schema P (loadExecutions rows) := by
  induction rows generalizing P with
  | nil => exact pure _
  | cons row rest ih =>
    apply bind (loadExecution row)
    intro _
    exact bind ih fun _ => pure _

theorem listExecutionsFiltered (limit : Nat) (filter : ExecutionFilter) :
    SchemaBlind schema P (listExecutionsFiltered limit filter) :=
  bind (query fun _ => rfl) fun rows => loadExecutions rows

/-! ## The other tables -/

theorem updateWorkspace (id : String) {f : WorkspaceRow → WorkspaceRow}
    (hf : ∀ row, (f row).id = row.id) :
    SchemaBlind schema P (do
      let changed ← LocalStore.execute (Sql.updateWorkspace id f hf)
      LocalStore.changedOrNotFound id changed) :=
  bind (execute fun _ _ => rfl) fun changed => changedOrNotFound id changed

theorem insertModule (row : ModuleRow) :
    SchemaBlind schema P (LocalStore.execute (Sql.insertModule row)) := by
  apply execute
  intro s _
  show (if Sql.refers s.projects row.projectId && Sql.defaultModuleFree row s then
    (s.modules.insert? row).map _ else none) = _
  unfold Sql.insertModule
  split
  · cases s.modules.insert? row <;> rfl
  · rfl

/-- A reference that has been checked is declared or not, to the same effect. -/
theorem insertProject (row : ProjectRow)
    (h : ∀ s, P s → ∀ ws, row.workspaceId = some ws → (s.workspaces.find? ws).isSome = true) :
    SchemaBlind schema P (LocalStore.execute (Sql.insertProject row)) := by
  apply execute
  intro s hs
  have hrefers (declared : Bool) :
      Sql.refersOpt declared s.workspaces row.workspaceId = true := by
    cases hws : row.workspaceId with
    | none => rfl
    | some ws => simp [Sql.refersOpt, Sql.refers, h s hs ws hws]
  show (if Sql.refersOpt schema.projectWorkspace s.workspaces row.workspaceId then
    (s.projects.insert? row).map _ else none) = _
  unfold Sql.insertProject
  rw [if_pos (hrefers _), if_pos (hrefers _)]
  cases s.projects.insert? row <;> rfl

theorem createProject (id : String) (now : Timestamp) (workspaceId name : String) :
    SchemaBlind schema P (createProject id now workspaceId name) := by
  apply Fallible.Lockstep.bind (query fun _ => rfl) (triple_query _)
  intro found
  cases found with
  | none => exact fail _
  | some ws =>
    simp only
    split
    · exact fail _
    · apply bind
      · apply insertProject
        rintro s ⟨-, hfound⟩ ws' hws
        cases hws
        rw [← hfound]
        rfl
      · exact fun _ => bind (insertModule _) fun _ => pure _

/-! ## Collections -/

/-- A parent that has been checked is declared or not, to the same effect. -/
theorem insertCollection (row : CollectionRow)
    (h : ∀ s, P s → ∀ p, row.parentId = some p → (s.collections.find? p).isSome = true) :
    SchemaBlind schema P (LocalStore.execute (Sql.insertCollection row)) := by
  apply execute
  intro s hs
  have hrows : (s.withSchema schema).collections.insert? row = s.collections.insert? row := rfl
  have hprojects : (s.withSchema schema).projects = s.projects := rfl
  unfold Sql.insertCollection
  rw [hrows, hprojects]
  cases hinsert : s.collections.insert? row with
  | none => rfl
  | some collections =>
    have hrefers (declared : Bool) :
        Sql.refersOpt declared collections row.parentId = true := by
      cases hp : row.parentId with
      | none => rfl
      | some p =>
        obtain ⟨c, hc⟩ := Option.isSome_iff_exists.mp (h s hs p hp)
        simp [Sql.refersOpt, Sql.refers, Table.find?_insert_of_some hinsert hc]
    simp only [hrefers, Bool.and_true]
    split <;> rfl

variable (projectId : String)

theorem checkParent (parentId : Option String) :
    SchemaBlind schema P (checkParent projectId parentId) := by
  cases parentId with
  | none => exact pure ()
  | some parent =>
    apply bind (query fun _ => rfl)
    intro validParent
    cases validParent with
    | none => exact fail _
    | some _ => exact pure ()

theorem triple_checkParent (parentId : Option String) :
    Triple P (LocalStore.checkParent projectId parentId)
      (fun _ s => P s ∧ ∀ p, parentId = some p → (s.collections.find? p).isSome = true) P := by
  cases parentId with
  | none =>
    apply Fallible.Triple.pure
    intro s hs
    refine ⟨hs, ?_⟩
    intro p hp
    cases hp
  | some parent =>
    apply Fallible.Triple.bind (triple_query _)
    intro validParent
    cases validParent with
    | none => exact .fail _ fun s hs => hs.1
    | some c =>
      apply Fallible.Triple.pure
      intro s hs
      refine ⟨hs.1, ?_⟩
      intro p hp
      cases hp
      have hfound := (Option.filter_eq_some_iff.mp hs.2.symm).1
      rw [hfound]
      rfl

theorem moduleOfNewCollection (requestedModuleId parentId : Option String) :
    SchemaBlind schema P (moduleOfNewCollection projectId requestedModuleId parentId) := by
  unfold LocalStore.moduleOfNewCollection
  split
  · exact bind (query fun _ => rfl) fun row => requireRow row
  · apply bind (query fun _ => rfl)
    intro row
    cases row with
    | none => exact fail _
    | some m => exact pure _
  · exact bind (query fun _ => rfl) fun row => requireRow _

theorem createCollectionInModule (id : String) (now : Timestamp) (projectId : String)
    (requestedModuleId parentId : Option String) (name : String) :
    SchemaBlind schema P
      (createCollectionInModule id now projectId requestedModuleId parentId name) := by
  have hread {γ : Type} {m : StoreM γ} (hm : ReadOnly m) :
      Triple (fun s => P s ∧ ∀ p, parentId = some p → (s.collections.find? p).isSome = true) m
        (fun _ s => P s ∧ ∀ p, parentId = some p → (s.collections.find? p).isSome = true)
        (fun s => P s ∧ ∀ p, parentId = some p → (s.collections.find? p).isSome = true) :=
    triple_keeps (.of_readOnly hm)
  unfold LocalStore.createCollectionInModule
  split
  · exact fail _
  · apply Fallible.Lockstep.bind (checkParent _ _) (triple_checkParent _ _)
    intro _
    apply Fallible.Lockstep.bind (query fun _ => rfl) (hread (.query _))
    intro next
    apply Fallible.Lockstep.bind (requireRow _) (hread (.requireRow _))
    intro sortOrder
    apply Fallible.Lockstep.bind (moduleOfNewCollection _ _ _)
      (hread (readOnly_moduleOfNewCollection _ _))
    intro moduleId
    exact bind (insertCollection _ fun s hs => hs.2) fun _ => pure _

theorem ancestorStep (id projectId cursor : String) :
    SchemaBlind schema P (ancestorStep id projectId cursor) := by
  unfold LocalStore.ancestorStep
  split
  · exact fail _
  · apply bind (query fun _ => rfl)
    intro parent
    cases parent with
    | none => exact fail _
    | some row =>
      simp only
      split
      · exact fail _
      · split
        · exact fail _
        · exact pure _

theorem ancestorWalk (id projectId : String) (fuel : Nat) (cursor : String) :
    SchemaBlind schema P (ancestorWalk id projectId fuel cursor) := by
  induction fuel generalizing cursor P with
  | zero => exact fail _
  | succ fuel ih =>
    apply bind (ancestorStep id projectId cursor)
    rintro ⟨moduleId, next⟩
    cases next with
    | none => exact pure _
    | some next => exact bind (ih next) fun _ => pure _

/-- A walk that ends has found the collection it started at. -/
theorem triple_ancestorWalk (id projectId : String) (fuel : Nat) (cursor : String) :
    Triple P (LocalStore.ancestorWalk id projectId fuel cursor)
      (fun _ s => P s ∧ (s.collections.find? cursor).isSome = true) P := by
  cases fuel with
  | zero => exact .fail _ fun _ hs => hs
  | succ fuel =>
    apply Fallible.Triple.bind (Q := fun _ s => P s ∧ (s.collections.find? cursor).isSome = true)
    · unfold LocalStore.ancestorStep
      split
      · exact .fail _ fun _ hs => hs
      · apply Fallible.Triple.bind (triple_query _)
        intro parent
        cases parent with
        | none => exact .fail _ fun _ hs => hs.1
        | some row =>
          simp only
          split
          · exact .fail _ fun _ hs => hs.1
          · split
            · exact .fail _ fun _ hs => hs.1
            · apply Fallible.Triple.pure
              intro s hs
              exact ⟨hs.1, by rw [← hs.2]; rfl⟩
    · rintro ⟨moduleId, next⟩
      cases next with
      | none => exact .pure _ fun _ hs => hs
      | some next =>
        have hrest : Keeps (fun s => P s ∧ (s.collections.find? cursor).isSome = true)
            (LocalStore.ancestorWalk id projectId fuel next) :=
          Keeps.of_readOnly (readOnly_ancestorWalk _ _)
        apply Fallible.Triple.bind ((triple_keeps hrest).weaken (fun _ hs => hs)
          (fun _ _ hs => hs) fun _ hs => hs.1)
        exact fun _ => .pure _ fun _ hs => hs

/-- Where the new parent is there, moving a collection does not depend on whether the
reference to it is declared. -/
theorem updateCollectionRow (id name : String) (parentId : Option String) (sortOrder : Int)
    (h : ∀ s, P s → ∀ p, parentId = some p → (s.collections.find? p).isSome = true) :
    SchemaBlind schema P (LocalStore.execute (Sql.updateCollection id name parentId sortOrder)) := by
  apply execute
  intro s hs
  have hrefers (declared : Bool) : Sql.refersOpt declared s.collections parentId = true := by
    cases hp : parentId with
    | none => rfl
    | some p => simp [Sql.refersOpt, Sql.refers, h s hs p hp]
  show (if (s.collections.find? id).isNone ||
    Sql.refersOpt schema.collectionParent s.collections parentId then _ else none) = _
  unfold Sql.updateCollection
  rw [hrefers, hrefers, Bool.or_true]
  rfl

theorem setSubtreeModule (id moduleId : String) :
    SchemaBlind schema P (setSubtreeModule id moduleId) := by
  apply Fallible.Lockstep.attempt
  intro s _
  have hsubtree : (s.withSchema schema).subtree id = s.subtree id := rfl
  simp only [hsubtree]
  cases s.subtree id <;> rfl

theorem updateCollectionWithin (fuel : Nat) (id name : String) (parentId : Option String)
    (sortOrder : Int) :
    SchemaBlind schema P (updateCollectionWithin fuel id name parentId sortOrder) := by
  unfold LocalStore.updateCollectionWithin
  split
  · exact fail _
  · apply bind (query fun _ => rfl)
    intro source
    cases source with
    | none => exact fail _
    | some row =>
      simp only
      split
      · exact fail _
      · rename_i sourceModuleId hsource
        have htarget : SchemaBlind schema (fun _ => True)
            (targetModule id row.projectId sourceModuleId fuel parentId) := by
          cases parentId with
          | none => exact pure _
          | some p => exact ancestorWalk _ _ _ _
        have hfound : Triple (fun _ => True)
            (targetModule id row.projectId sourceModuleId fuel parentId)
            (fun _ s => ∀ p, parentId = some p → (s.collections.find? p).isSome = true)
            (fun _ => True) := by
          cases parentId with
          | none =>
            apply Fallible.Triple.pure
            intro s _ p hp
            cases hp
          | some p =>
            apply (triple_ancestorWalk id row.projectId fuel p).weaken (fun _ hs => hs) _
              fun _ hs => hs
            intro _ s hs p' hp
            cases hp
            exact hs.2
        apply Fallible.Lockstep.bind htarget hfound
        intro targetModuleId
        apply transaction
        apply bind (updateCollectionRow _ _ _ _ fun _ hs => hs)
        intro changed
        split
        · exact fail _
        · split
          · exact setSubtreeModule _ _
          · exact pure ()

theorem updateCollection (id name : String) (parentId : Option String) (sortOrder : Int) :
    SchemaBlind schema P (updateCollection id name parentId sortOrder) := by
  intro s faults hs
  have hwithin : SchemaBlind schema P (LocalStore.updateCollectionWithin
    (s.collections.rows.length + 1) id name parentId sortOrder) :=
    updateCollectionWithin _ _ _ _ _
  rw [run_updateCollection, run_updateCollection]
  exact hwithin s faults hs

end SchemaBlind

/-! ## Deletions that cascade -/

theorem climbs_none {γ : Type} (test : γ → Bool) (fuel : Nat) (a : γ) :
    climbs (fun _ => none) test fuel a = test a := by
  cases fuel with
  | zero => rfl
  | succ fuel => exact Bool.or_false _

/-- Where a collection falls only when it is doomed itself, the cascade along parents
takes nothing more along. -/
theorem falls_withSchema (h : s.HasTree) {doomed : CollectionRow → Bool}
    (hlocal : ∀ a b c, Ascends s.parentOf a b → s.collections.find? b = some c → doomed c = true →
      (s.collections.find? a).any doomed = true) :
    (s.withSchema schema).falls doomed = s.falls doomed := by
  funext a
  have hcurrent : s.schema.collectionParent = true := by rw [h.current]; rfl
  by_cases hdeclared : schema.collectionParent = true
  · show climbs (if schema.collectionParent then s.parentOf else fun _ => none) _ _ a = _
    rw [Store.falls, hdeclared, hcurrent]
    rfl
  · show climbs (if schema.collectionParent then s.parentOf else fun _ => none) _ _ a = _
    rw [if_neg hdeclared, climbs_none, Bool.eq_iff_iff, h.falls_iff]
    constructor
    · intro hdoomed
      obtain ⟨c, hc, htest⟩ := (Option.any_eq_true _ _).mp hdoomed
      exact ⟨a, c, Ascends.refl a, hc, htest⟩
    · rintro ⟨b, c, hab, hc, htest⟩
      exact hlocal a b c hab hc htest

theorem dropCollections_withSchema {doomed : CollectionRow → Bool}
    (h : (s.withSchema schema).falls doomed = s.falls doomed) :
    Sql.dropCollections doomed (s.withSchema schema) =
      (Sql.dropCollections doomed s).withSchema schema := by
  unfold Sql.dropCollections
  rw [h]
  rfl

/-- No collection names this one as its parent. -/
def Store.Childless (s : Store) (id : String) : Prop :=
  ∀ c ∈ s.collections.rows, c.parentId ≠ some id

instance (s : Store) (id : String) : Decidable (s.Childless id) :=
  inferInstanceAs (Decidable (∀ c ∈ s.collections.rows, c.parentId ≠ some id))

/-- Nothing is below a collection without children. -/
theorem Store.Childless.eq_of_ascends (h : s.Childless id) {a : String}
    (hab : Ascends s.parentOf a id) : a = id := by
  induction hab using Relation.ReflTransGen.head_induction_on with
  | refl => rfl
  | head hstep _ ih =>
    subst ih
    obtain ⟨c, hc, hparent⟩ := Option.bind_eq_some_iff.mp hstep
    exact absurd hparent (h c (Table.mem_of_find? hc))

theorem sameStatement_deleteCollection (id : String) :
    SameStatement schema (fun s => s.HasTree ∧ s.Childless id) (Sql.deleteCollection id) := by
  intro s hs
  have hfalls : (s.withSchema schema).falls (fun c => c.id = id) =
      s.falls fun c => c.id = id := by
    apply falls_withSchema hs.1
    intro a b c hab hc hdoomed
    have hkey : c.id = b := Table.key_of_find? hc
    have hid : c.id = id := by simpa using hdoomed
    have hb : b = id := hkey.symm.trans hid
    rw [hb] at hab hc
    rw [hs.2.eq_of_ascends hab, hc]
    exact hdoomed
  show some (Sql.dropCollections _ (s.withSchema schema), _) = _
  rw [dropCollections_withSchema hfalls]
  rfl

/-- The collections are a tree within their projects. -/
abbrev Store.TreeWithin (s : Store) : Prop := s.HasTree ∧ s.ParentsWithin

theorem sameStatement_deleteProject (id : String) :
    SameStatement schema Store.TreeWithin (Sql.deleteProject id) := by
  intro s hs
  have hfalls : (s.withSchema schema).falls (fun c => c.projectId = id) =
      s.falls fun c => c.projectId = id := by
    apply falls_withSchema hs.1
    intro a b c hab hc hdoomed
    cases ha : s.collections.find? a with
    | none =>
      obtain rfl := CollectionTree.eq_of_ascends_of_absent ha hab
      rw [ha] at hc
      cases hc
    | some d =>
      obtain ⟨up, hup, hproject⟩ := hs.2.project_of_ascends hab ha
      rw [hc] at hup
      cases hup
      rw [Option.any_some, ← hdoomed, hproject]
  show some (Sql.dropProject id (s.withSchema schema), _) = _
  unfold Sql.dropProject
  rw [dropCollections_withSchema hfalls]
  rfl

/-! ## The collections stay a tree within their projects -/

theorem keepsBlobs_treeWithin (hexSha256 : Bytes → String) :
    KeepsBlobs hexSha256 Store.TreeWithin :=
  treeView_blobBlind.keepsBlobs hexSha256 fun shown => CollectionTree shown.1 shown.2 ∧
    ∀ c ∈ shown.2.rows, ∀ p, c.parentId = some p → ∃ up, shown.2.find? p = some up ∧
      up.projectId = c.projectId

theorem treeWithin_deleteProject (hexSha256 : Bytes → String) (id : String) :
    Keeps Store.TreeWithin (deleteProject id) :=
  (keepsBlobs_treeWithin hexSha256).deleteProject id fun _ hs =>
    ⟨hs.1.dropProject, hs.2.dropCollections hs.1 _⟩

/-- Every operation leaves the collections a tree whose links stay within projects. -/
theorem treeWithin_program (hexSha256 : Bytes → String) (op : Op) :
    Keeps Store.TreeWithin (op.program hexSha256) := by
  have hblobs := keepsBlobs_treeWithin hexSha256
  have hframes (h : Frames treeView (op.program hexSha256)) :
      Keeps Store.TreeWithin (op.program hexSha256) :=
    h.keeps fun shown => CollectionTree shown.1 shown.2 ∧
      ∀ c ∈ shown.2.rows, ∀ p, c.parentId = some p → ∃ up, shown.2.find? p = some up ∧
        up.projectId = c.projectId
  have hboth (h : Keeps Store.ParentsWithin (op.program hexSha256)) :
      Keeps Store.TreeWithin (op.program hexSha256) :=
    fun w hw => ⟨keeps_program hexSha256 op w hw.1, h w hw.2⟩
  cases op with
  | deleteWorkspace id =>
    exact hblobs.deleteWorkspace id (fun _ _ hs => ⟨hs.1.dropProject, hs.2.dropCollections hs.1 _⟩)
      fun _ _ hs => hs
  | deleteProject id => exact treeWithin_deleteProject hexSha256 id
  | createCollectionInModule id now projectId requestedModuleId parentId name =>
    exact hboth (parentsWithin_createCollectionInModule id now requestedModuleId parentId
      name).discard
  | updateCollection id name parentId sortOrder =>
    have hwithin : Keeps Store.ParentsWithin (updateCollection id name parentId sortOrder) := by
      intro w hw
      rw [run_updateCollection]
      exact parentsWithin_updateCollectionWithin _ name parentId sortOrder w hw
    exact hboth hwithin
  | updateCollectionTags id tags =>
    have hwithin : Keeps Store.ParentsWithin (updateCollectionTags id tags) :=
      Keeps.bind (.execute_some (I := Store.ParentsWithin) (fun _ => rfl) fun _ hs =>
        hs.updateWhere _ (fun _ => rfl) fun _ => rfl) fun _ =>
          Keeps.of_readOnly (.changedOrNotFound _ _)
    exact hboth hwithin
  | deleteCollection id =>
    exact hblobs.deleteCollection id fun _ hs => ⟨hs.1.dropCollections, hs.2.dropCollections hs.1 _⟩
  | _ => exact hframes (frames_treeView hexSha256 _ rfl)

namespace SchemaBlind

theorem releaseDeleted (ids : List String) (changed : Nat) (id : String) :
    SchemaBlind schema (fun _ => True)
      (if changed = 0 then Fallible.fail (.notFound id)
        else Fallible.each LocalStore.releaseBlob ids) := by
  split
  · exact fail _
  · exact each releaseBlob ids

theorem requestBlobIds (id : String) :
    SchemaBlind schema P (requestBlobIdsForCollectionSubtree id) := by
  apply Fallible.Lockstep.attempt
  intro s _
  have hsubtree : (s.withSchema schema).subtree id = s.subtree id := rfl
  simp only [hsubtree]
  cases s.subtree id <;> rfl

theorem triple_requestBlobIds (id : String) :
    Triple P (requestBlobIdsForCollectionSubtree id) (fun _ => P) P := by
  apply Fallible.Triple.attempt (fun _ hs => hs)
  intro s hs
  cases s.subtree id with
  | none => exact hs
  | some ids => exact hs

theorem deleteCollection (id : String) :
    SchemaBlind schema (fun s => s.HasTree ∧ s.Childless id) (deleteCollection id) := by
  unfold LocalStore.deleteCollection
  split
  · exact fail _
  · apply Fallible.Lockstep.bind (requestBlobIds id) (triple_requestBlobIds id)
    intro blobIds
    exact bind (execute (sameStatement_deleteCollection id)) fun changed =>
      releaseDeleted blobIds changed id

theorem deleteProject (id : String) :
    SchemaBlind schema Store.TreeWithin (deleteProject id) := by
  have hread : Triple Store.TreeWithin (requestBlobIdsForProject id)
      (fun _ s => s.TreeWithin) Store.TreeWithin :=
    (triple_query _).weaken (fun _ hs => hs) (fun _ _ hs => hs.1) fun _ hs => hs
  unfold LocalStore.deleteProject
  split
  · exact fail _
  · apply Fallible.Lockstep.bind (query fun _ => rfl) hread
    intro blobIds
    exact bind (execute (sameStatement_deleteProject id)) fun changed =>
      releaseDeleted blobIds changed id

def LeftInWorkspace (workspaceId : String) (projects : List ProjectRow) (s : Store) : Prop :=
  ∀ p ∈ s.projects.rows, p.workspaceId = some workspaceId → ∃ q ∈ projects, q.id = p.id

/-- Deleting the next project of the list leaves the rest of it. -/
theorem triple_deleteListed (workspaceId : String) (project : ProjectRow)
    (rest : List ProjectRow) :
    Triple (LeftInWorkspace workspaceId (project :: rest)) (LocalStore.deleteProject project.id)
      (fun _ => LeftInWorkspace workspaceId rest) (fun _ => True) := by
  unfold LocalStore.deleteProject
  split
  · exact .fail _ fun _ _ => trivial
  · have hread : Triple (LeftInWorkspace workspaceId (project :: rest))
        (requestBlobIdsForProject project.id)
        (fun _ => LeftInWorkspace workspaceId (project :: rest)) (fun _ => True) :=
      (triple_query _).weaken (fun _ hs => hs) (fun _ _ hs => hs.1) fun _ _ => trivial
    apply Fallible.Triple.bind hread
    intro blobIds
    apply Fallible.Triple.bind (Q := fun _ => LeftInWorkspace workspaceId rest)
    · apply triple_execute (fun _ _ => trivial)
      intro s s' n hs hdeleted
      simp only [Sql.deleteProject, Option.some.injEq, Prod.mk.injEq] at hdeleted
      rw [← hdeleted.1]
      intro p hp hworkspace
      have hrows : (Sql.dropProject project.id s).projects.rows =
          s.projects.rows.filter fun p => p.id ≠ project.id := rfl
      rw [hrows, List.mem_filter] at hp
      obtain ⟨q, hq, hid⟩ := hs p hp.1 hworkspace
      rcases List.mem_cons.mp hq with rfl | hrest
      · exact absurd hid.symm (by simpa using hp.2)
      · exact ⟨q, hrest, hid⟩
    · intro changed
      split
      · exact .fail _ fun _ _ => trivial
      · have hframes : Frames Store.projects (Fallible.each LocalStore.releaseBlob blobIds) :=
          Frames.each (fun id => .releaseBlob ⟨fun _ _ => rfl, fun _ _ => rfl⟩ id) blobIds
        exact (triple_keeps (hframes.keeps fun projects => ∀ p ∈ projects.rows,
          p.workspaceId = some workspaceId → ∃ q ∈ rest, q.id = p.id)).weaken (fun _ hs => hs)
            (fun _ _ hs => hs) fun _ _ => trivial

/-- A workspace that no project refers to is deleted under any schema. -/
theorem sameStatement_deleteWorkspace (id : String) :
    SameStatement schema (fun s => LeftInWorkspace id [] s ∧ s.TreeWithin)
      (Sql.deleteWorkspace id) := by
  rintro s ⟨hleft, -⟩
  have hnone : (s.projects.rows.any fun p => decide (p.workspaceId = some id)) = false := by
    rw [List.any_eq_false]
    intro p hp hworkspace
    obtain ⟨q, hq, -⟩ := hleft p hp (of_decide_eq_true hworkspace)
    cases hq
  have hfree (declared : Bool) : ¬ (declared &&
      s.projects.rows.any fun p => decide (p.workspaceId = some id)) = true := by
    rw [hnone, Bool.and_false]
    exact Bool.false_ne_true
  show (if schema.projectWorkspace &&
    s.projects.rows.any (fun p => decide (p.workspaceId = some id)) then none else _) = _
  unfold Sql.deleteWorkspace
  rw [if_neg (hfree _), if_neg (hfree _)]
  rfl

/-- Deleting a workspace deletes its projects first, so that no reference to it is left
when its row goes. -/
theorem deleteWorkspace (id : String) :
    SchemaBlind schema Store.TreeWithin (deleteWorkspace id) := by
  unfold LocalStore.deleteWorkspace
  split
  · exact fail _
  · have hlisted : Triple Store.TreeWithin (listProjects id)
        (fun projects s => LeftInWorkspace id projects s ∧ s.TreeWithin)
        Store.TreeWithin := by
      apply (triple_query _).weaken (fun _ hs => hs) _ fun _ hs => hs
      rintro projects s ⟨hs, rfl⟩
      refine ⟨?_, hs⟩
      intro p hp hworkspace
      refine ⟨p, ?_, rfl⟩
      rw [List.mem_insertionSort, List.mem_filter]
      exact ⟨hp, decide_eq_true hworkspace⟩
    have hdeleted (project : ProjectRow) (rest : List ProjectRow) :
        Triple (fun s => LeftInWorkspace id (project :: rest) s ∧ s.TreeWithin)
          (LocalStore.deleteProject project.id)
          (fun _ s => LeftInWorkspace id rest s ∧ s.TreeWithin)
          (fun s => True ∧ s.TreeWithin) :=
      triple_and_keeps (triple_deleteListed id project rest)
        (treeWithin_deleteProject (fun _ => "") project.id)
    apply Fallible.Lockstep.bind (query fun _ => rfl) hlisted
    intro projects
    apply Fallible.Lockstep.bind
    · exact .each (I := fun projects s => LeftInWorkspace id projects s ∧
        s.TreeWithin) (fun p _ => (deleteProject p.id).weaken fun _ hs => hs.2)
        hdeleted projects
    · exact .each (I := fun projects s => LeftInWorkspace id projects s ∧
        s.TreeWithin) hdeleted projects
    · exact fun _ => bind (execute (sameStatement_deleteWorkspace id)) fun changed =>
        changedOrNotFound id changed

end SchemaBlind

end ApiVoy.LocalStore
