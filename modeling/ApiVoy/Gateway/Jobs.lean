/-
# Scheduled jobs

The protocol gateway keeps its jobs in a map behind a lock and in a file that it reads
when it starts. Creating and deleting a job, the ticks of the scheduler and the end of a
scheduled execution all hold the lock while they change the map and write the whole map
to the file; the file is replaced by a rename, so a write that fails leaves it.
-/

import ApiVoy.Domain.RequestJson
import ApiVoy.Foundation.Interleaving
import ApiVoy.Foundation.Numerals
import ApiVoy.Foundation.Reading
import ApiVoy.Foundation.Table

namespace ApiVoy.Gateway

open Foundation Domain

/-! ## Time -/

def nanosPerSecond : Int := 1000000000

/-- The earliest and the latest instant of the calendar, in nanoseconds of Unix time. -/
def minUtc : Int := -8334601228800 * nanosPerSecond

def maxUtc : Int := 8210266876799 * nanosPerSecond + 999999999

structure DateTime where
  nanos : Int
  inRange : minUtc ≤ nanos ∧ nanos ≤ maxUtc
  deriving DecidableEq

/-- The longest duration, in whole seconds. -/
def maxSeconds : Int := 9223372036854775

/-- A duration in nanoseconds; one that is too long panics. -/
def durationSeconds (seconds : Int) : Option Int :=
  if -maxSeconds ≤ seconds ∧ seconds ≤ maxSeconds then some (seconds * nanosPerSecond) else none

/-- An instant after a duration; one outside the calendar panics. -/
def DateTime.add (t : DateTime) (nanos : Int) : Option DateTime :=
  if h : minUtc ≤ t.nanos + nanos ∧ t.nanos + nanos ≤ maxUtc then some ⟨t.nanos + nanos, h⟩
  else none

/-- `now + ChronoDuration::seconds(interval_seconds as i64)`. -/
def nextRunAt (now : DateTime) (intervalSeconds : UInt64) : Option DateTime :=
  (durationSeconds intervalSeconds.toInt64.toInt).bind now.add

/-! ## Jobs -/

/-- How the libraries write an instant, and what the parser makes of a number: an integer of 64
bits is exact. -/
structure JobFormat extends Codec DateTime where
  number : Rat → Rat
  written : ∀ t, ∃ text, write t = .str text
  integer : ∀ n : Int, -2 ^ 63 ≤ n → n < 2 ^ 64 → number n = n

structure ScheduledJob where
  id : String
  name : String
  enabled : Bool
  intervalSeconds : UInt64
  nextRunAt : DateTime
  request : RequestEnvelope
  createdAt : DateTime
  lastExecutionId : Option String
  deriving DecidableEq

instance : Keyed ScheduledJob := ⟨ScheduledJob.id⟩

/-- The body of a request that creates a job. -/
structure CreateJob where
  name : String
  intervalSeconds : UInt64
  enabled : Bool
  request : RequestEnvelope
  deriving DecidableEq

def defaultEnabled : Bool := true

def CreateJob.ofJson : Json → Option CreateJob
  | .obj ms => do
    let name ← Codec.text.field "name" ms
    let intervalSeconds ← Codec.word64.field "intervalSeconds" ms
    let enabled ← Codec.boolean.fieldOr defaultEnabled "enabled" ms
    let request ← (Codec.value.field "request" ms).bind RequestEnvelope.ofJson
    return { name, intervalSeconds, enabled, request }
  | _ => none

section Files

variable (instants : JobFormat)

/-- The serialized job, when its request can be written. -/
def ScheduledJob.toJson (job : ScheduledJob) : Option Json :=
  job.request.toJson.map fun request =>
    .obj
      [("id", Codec.text.write job.id), ("name", Codec.text.write job.name),
        ("enabled", Codec.boolean.write job.enabled),
        ("intervalSeconds", Codec.word64.write job.intervalSeconds),
        ("nextRunAt", instants.write job.nextRunAt), ("request", Codec.value.write request),
        ("createdAt", instants.write job.createdAt),
        ("lastExecutionId", Codec.optText.write job.lastExecutionId)]

def ScheduledJob.ofJson : Json → Option ScheduledJob
  | .obj ms => do
    let id ← Codec.text.field "id" ms
    let name ← Codec.text.field "name" ms
    let enabled ← Codec.boolean.field "enabled" ms
    let intervalSeconds ← Codec.word64.field "intervalSeconds" ms
    let nextRunAt ← instants.field "nextRunAt" ms
    let request ← (Codec.value.field "request" ms).bind RequestEnvelope.ofJson
    let createdAt ← instants.field "createdAt" ms
    let lastExecutionId ← Codec.optText.fieldOr none "lastExecutionId" ms
    return { id, name, enabled, intervalSeconds, nextRunAt, request, createdAt, lastExecutionId }
  | _ => none

/-- The jobs a file holds: none when it is missing or does not parse. -/
def loadJobs (file : Option Json) : Table ScheduledJob :=
  .collect <| ((file.bind (Json.readBack instants.number)).bind fun
    | .arr items => Codec.readAll (ScheduledJob.ofJson instants) items
    | _ => none).getD []

inductive PersistError where
  /-- A request has no serialized form. -/
  | serialize
  | io (message : String)
  deriving DecidableEq

/-- Write the map in place of the file, unless writing or renaming fails. -/
def persistJobs (jobs : Table ScheduledJob) (fault : Option String) : Except PersistError Json :=
  match jobs.rows.mapM (ScheduledJob.toJson instants), fault with
  | none, _ => .error .serialize
  | some _, some message => .error (.io message)
  | some items, none => .ok (.arr items)

end Files

/-! ## Steps -/

/-- The jobs of the store, its file, and whether the scheduler is running. -/
structure JobStore where
  jobs : Table ScheduledJob
  file : Option Json
  scheduling : Bool

inductive JobsOp where
  /-- `id`, `now` and `createdAt` are what the handler draws and reads off the clock. -/
  | createJob (body : Json) (id : String) (now createdAt : DateTime) (fault : Option String)
  | deleteJob (id : String) (fault : Option String)
  | tick (now : DateTime) (fault : Option String)
  | executed (jobId executionId : String) (fault : Option String)

inductive JobsAnswer where
  /-- The body of the request is not accepted. -/
  | rejected
  | badRequest (error : String)
  | notFound
  | internalServerError (error : PersistError)
  | created (job : ScheduledJob)
  | deleted
  /-- The handler or the scheduler has panicked. -/
  | panicked
  | launched (due : List (String × RequestEnvelope))
  | updated
  deriving DecidableEq

def JobsAnswer.isError : JobsAnswer → Bool
  | .rejected | .badRequest _ | .notFound | .internalServerError _ => true
  | .created _ | .deleted | .panicked | .launched _ | .updated => false

/-- What a step leaves and answers, and whether it has written the file. -/
structure JobsOutcome where
  store : JobStore
  answer : JobsAnswer
  saved : Bool

/-- Change the map and write it to the file. -/
def JobStore.save (store : JobStore) (instants : JobFormat) (jobs : Table ScheduledJob)
    (fault : Option String) (answer : JobsAnswer) (failed : PersistError → JobsAnswer) :
    JobsOutcome :=
  match persistJobs instants jobs fault with
  | .ok contents => ⟨{ store with jobs, file := some contents }, answer, true⟩
  | .error error => ⟨{ store with jobs }, failed error, false⟩

def ScheduledJob.isDue (now : DateTime) (job : ScheduledJob) : Bool :=
  job.enabled && decide (job.nextRunAt.nanos ≤ now.nanos)

/-- The loop of a tick: the jobs after it, and the launched ones unless it panics. -/
def launchDue (now : DateTime) :
    List ScheduledJob → List ScheduledJob × Option (List (String × RequestEnvelope))
  | [] => ([], some [])
  | job :: rest =>
    if job.isDue now = true then
      match nextRunAt now job.intervalSeconds with
      | none => (job :: rest, none)
      | some next =>
        let (rows, due) := launchDue now rest
        ({ job with nextRunAt := next } :: rows, due.map ((job.id, job.request) :: ·))
    else
      let (rows, due) := launchDue now rest
      (job :: rows, due)

theorem launchDue_keys (now : DateTime) (rows : List ScheduledJob) :
    (launchDue now rows).1.map Keyed.key = rows.map Keyed.key := by
  induction rows with
  | nil => rfl
  | cons job rest ih =>
    rw [launchDue]
    split
    · cases nextRunAt now job.intervalSeconds with
      | none => rfl
      | some next =>
        rw [List.map_cons, List.map_cons, ← ih]
        rfl
    · rw [List.map_cons, List.map_cons, ← ih]

def advance (now : DateTime) (jobs : Table ScheduledJob) : Table ScheduledJob where
  rows := (launchDue now jobs.rows).1
  nodup := by
    rw [launchDue_keys]
    exact jobs.nodup

/-- A step of the gateway; a scheduler that has panicked does not tick. -/
def JobsOp.run (instants : JobFormat) (store : JobStore) : JobsOp → Option JobsOutcome
  | .createJob body id now createdAt fault =>
    match CreateJob.ofJson body with
    | none => some ⟨store, .rejected, false⟩
    | some body =>
      if body.intervalSeconds < 10 then
        some ⟨store, .badRequest "intervalSeconds must be at least 10", false⟩
      else
        match nextRunAt now body.intervalSeconds with
        | none => some ⟨store, .panicked, false⟩
        | some nextRunAt =>
          let job : ScheduledJob := {
            id
            name := body.name
            enabled := body.enabled
            intervalSeconds := body.intervalSeconds
            nextRunAt
            request := body.request
            createdAt
            lastExecutionId := none }
          some (store.save instants (store.jobs.put job) fault (.created job)
            .internalServerError)
  | .deleteJob id fault =>
    match store.jobs.find? id with
    | none => some ⟨store, .notFound, false⟩
    | some _ =>
      some (store.save instants (store.jobs.filter fun job => job.id ≠ id) fault .deleted
        .internalServerError)
  | .tick now fault =>
    if store.scheduling = true then
      match (launchDue now store.jobs.rows).2 with
      | none =>
        some ⟨{ store with jobs := advance now store.jobs, scheduling := false },
          .panicked, false⟩
      | some [] => some ⟨store, .launched [], false⟩
      | some due =>
        -- a write that fails is logged
        some (store.save instants (advance now store.jobs) fault (.launched due)
          fun _ => .launched due)
    else none
  | .executed jobId executionId fault =>
    match store.jobs.find? jobId with
    | none => some ⟨store, .updated, false⟩
    | some _ =>
      some (store.save instants
        (store.jobs.update jobId
          (fun job => { job with lastExecutionId := some executionId }) fun _ => by rfl)
        fault .updated fun _ => .updated)

def jobsStep (instants : JobFormat) (op : JobsOp) (store : JobStore) : Option JobStore :=
  (op.run instants store).map JobsOutcome.store

/-- The gateway when it starts. -/
def JobStore.opened (instants : JobFormat) (file : Option Json) : JobStore :=
  ⟨loadJobs instants file, file, true⟩

/-! ## The file agrees with the map -/

/-- Is the text of a request read as it was written? In the file it stands in an array and an
object. -/
def Legible (number : Rat → Rat) (request : RequestEnvelope) : Prop :=
  ∀ json ∈ request.toJson, Json.readable number (Json.maxNesting - 2) json = true

instance (number : Rat → Rat) (request : RequestEnvelope) : Decidable (Legible number request) :=
  inferInstanceAs (Decidable (∀ json ∈ request.toJson, _ = true))

/-- A request that is the same after it was written and read back. -/
structure Plain (number : Rat → Rat) (request : RequestEnvelope) : Prop where
  faithful : request.payload.Faithful
  withoutSecrets : request.withoutSecrets = request
  legible : Legible number request

theorem plain_of_ofJson {number : Rat → Rat} {j : Json} {request : RequestEnvelope}
    (h : RequestEnvelope.ofJson j = some request)
    (htoken : request.authRef.bind AuthRef.token = none) (hlegible : Legible number request) :
    Plain number request where
  legible := hlegible
  faithful := RequestEnvelope.faithful_of_ofJson h
  withoutSecrets := by
    have hsecrets := (RequestEnvelope.payload_of_ofJson h).2
    cases hauth : request.authRef with
    | none =>
      simp only [RequestEnvelope.withoutSecrets, hauth]
      rw [Option.map_none, ← hauth, ← hsecrets]
    | some auth =>
      rw [hauth, Option.bind_some] at htoken
      have hsame : { auth with token := none } = auth := by rw [← htoken]
      simp only [RequestEnvelope.withoutSecrets, hauth]
      rw [Option.map_some, hsame, ← hauth, ← hsecrets]

variable {instants : JobFormat}

variable {job : ScheduledJob}

theorem ScheduledJob.ofJson_toJson (h : Plain instants.number job.request) :
    ∃ j, job.toJson instants = some j ∧ ScheduledJob.ofJson instants j = some job ∧
      Json.readable instants.number (Json.maxNesting - 1) j = true := by
  obtain ⟨request, hwrite, hread⟩ := RequestEnvelope.ofJson_toJson h.faithful
  rw [h.withoutSecrets] at hread
  refine ⟨_, by rw [ScheduledJob.toJson, hwrite, Option.map_some], ?_, ?_⟩
  · simp [ScheduledJob.ofJson, hread]
  · have hinstant : ∀ t, Json.readable instants.number 125 (instants.write t) = true := by
      intro t
      obtain ⟨text, htext⟩ := instants.written t
      rw [htext]
      rfl
    have hseconds : Json.readable instants.number 125
        (Codec.word64.write job.intervalSeconds) = true :=
      Json.readable_num 125 (instants.integer _ (by omega)
        (by exact_mod_cast job.intervalSeconds.toNat_lt))
    have hlast : Json.readable instants.number 125
        (Codec.optText.write job.lastExecutionId) = true := by
      cases job.lastExecutionId <;> rfl
    refine Json.readable_obj.mpr (List.forall_mem_cons.mpr ⟨rfl, List.forall_mem_cons.mpr ⟨rfl,
      List.forall_mem_cons.mpr ⟨rfl, List.forall_mem_cons.mpr ⟨hseconds,
      List.forall_mem_cons.mpr ⟨hinstant _, List.forall_mem_cons.mpr ⟨h.legible _ hwrite,
      List.forall_mem_cons.mpr ⟨hinstant _, List.forall_mem_singleton.mpr hlast⟩⟩⟩⟩⟩⟩⟩)

/-- Rows that can each be written and read back can be so together. -/
theorem exists_mapM {α : Type} {write : α → Option Json} {read : Json → Option α}
    {kept : Json → Prop} {rows : List α}
    (h : ∀ a ∈ rows, ∃ j, write a = some j ∧ read j = some a ∧ kept j) :
    ∃ items, rows.mapM write = some items ∧ Codec.readAll read items = some rows ∧
      ∀ item ∈ items, kept item := by
  induction rows with
  | nil => exact ⟨[], rfl, rfl, by simp⟩
  | cons a rest ih =>
    obtain ⟨j, hwrite, hread, hkept⟩ := h a List.mem_cons_self
    obtain ⟨items, hitems, hrest, hothers⟩ := ih fun b hb => h b (List.mem_cons_of_mem a hb)
    refine ⟨j :: items, ?_, ?_, List.forall_mem_cons.mpr ⟨hkept, hothers⟩⟩
    · simp [List.mapM_cons, hwrite, hitems]
    · simp [Codec.readAll, hread, hrest]

/-- A map whose requests can be read back is written, unless the write fails, and is read
back. -/
theorem persistJobs_eq (instants : JobFormat) {jobs : Table ScheduledJob}
    (h : ∀ job ∈ jobs.rows, Plain instants.number job.request) :
    ∃ contents, loadJobs instants (some contents) = jobs ∧
      ∀ fault, persistJobs instants jobs fault =
        match fault with
        | none => .ok contents
        | some message => .error (.io message) := by
  obtain ⟨items, hitems, hread, hreadable⟩ :=
    exists_mapM fun job hjob => ScheduledJob.ofJson_toJson (h job hjob)
  have hback : Json.readBack instants.number (.arr items) = some (.arr items) :=
    Json.readBack_eq_self_iff.mpr (Json.readable_arr.mpr hreadable)
  refine ⟨.arr items, ?_, fun fault => ?_⟩
  · rw [loadJobs, Option.bind_some, hback, Option.bind_some]
    dsimp only
    rw [hread, Option.getD_some, Table.collect_rows]
  · cases fault with
    | none => simp only [persistJobs, hitems]
    | some message => simp only [persistJobs, hitems]

/-! ## Every step of the gateway -/

/-- The token a body of a request would carry into the map. -/
def submittedToken (body : Json) : Option String :=
  (CreateJob.ofJson body).bind fun body => body.request.authRef.bind AuthRef.token

/-- A handler's write does not fail, and no request with a token or an illegible one is
submitted. -/
def JobsOp.Sound (number : Rat → Rat) : JobsOp → Prop
  | .createJob body _ _ _ fault => fault = none ∧ submittedToken body = none ∧
      ∀ create ∈ CreateJob.ofJson body, Legible number create.request
  | .deleteJob _ fault => fault = none
  | .tick .. | .executed .. => True

instance (number : Rat → Rat) (op : JobsOp) : Decidable (op.Sound number) :=
  match op with
  | .createJob body _ _ _ fault => inferInstanceAs (Decidable (fault = none ∧ _ = none ∧
      ∀ create ∈ CreateJob.ofJson body, Legible number create.request))
  | .deleteJob _ fault => inferInstanceAs (Decidable (fault = none))
  | .tick .. | .executed .. => .isTrue trivial

/-- All requests of the map can be written and read back. -/
def AllPlain (number : Rat → Rat) (jobs : Table ScheduledJob) : Prop :=
  ∀ job ∈ jobs.rows, Plain number job.request

/-- A tick changes no request. -/
theorem requests_launchDue (now : DateTime) (rows : List ScheduledJob) :
    (launchDue now rows).1.map ScheduledJob.request = rows.map ScheduledJob.request := by
  induction rows with
  | nil => rfl
  | cons job rest ih =>
    rw [launchDue]
    split
    · cases nextRunAt now job.intervalSeconds with
      | none => rfl
      | some next =>
        rw [List.map_cons, List.map_cons, ← ih]
    · rw [List.map_cons, List.map_cons, ← ih]

namespace AllPlain

variable {number : Rat → Rat} {jobs : Table ScheduledJob}

theorem advance (h : AllPlain number jobs) (now : DateTime) :
    AllPlain number (Gateway.advance now jobs) := by
  intro job hjob
  have hmem : job.request ∈ (launchDue now jobs.rows).1.map ScheduledJob.request :=
    List.mem_map_of_mem hjob
  rw [requests_launchDue, List.mem_map] at hmem
  have ⟨old, hold, heq⟩ := hmem
  rw [← heq]
  exact h old hold

theorem put (h : AllPlain number jobs) {job : ScheduledJob} (hjob : Plain number job.request) :
    AllPlain number (jobs.put job) := by
  intro other hother
  rcases Table.mem_put hother with heq | hmem
  · rw [heq]
    exact hjob
  · exact h other hmem

theorem filter (h : AllPlain number jobs) (p : ScheduledJob → Bool) :
    AllPlain number (jobs.filter p) :=
  fun job hjob => h job (Table.mem_filter.mp hjob).1

theorem update (h : AllPlain number jobs) (k executionId : String) :
    AllPlain number (jobs.update k (fun job => { job with lastExecutionId := some executionId })
      fun _ => by rfl) := by
  intro job hjob
  have ⟨old, hold, heq⟩ := Table.mem_update.mp hjob
  have hsame : job.request = old.request := by
    rw [← heq]
    split
    · rfl
    · rfl
  rw [hsame]
  exact h old hold

end AllPlain

theorem plain_of_submitted {number : Rat → Rat} {body : Json} {create : CreateJob}
    (hbody : CreateJob.ofJson body = some create) (htoken : submittedToken body = none)
    (hlegible : Legible number create.request) : Plain number create.request := by
  rw [submittedToken, hbody, Option.bind_some] at htoken
  cases body with
  | obj ms =>
    rw [CreateJob.ofJson] at hbody
    iterate 3 obtain ⟨_, _, hbody⟩ := Option.bind_eq_some_iff.mp hbody
    obtain ⟨request, hrequest, hbody⟩ := Option.bind_eq_some_iff.mp hbody
    obtain ⟨j, _, hread⟩ := Option.bind_eq_some_iff.mp hrequest
    cases hbody
    exact plain_of_ofJson hread htoken hlegible
  | null | bool _ | num _ | str _ | arr _ => cases hbody

variable {store : JobStore} {outcome : JobsOutcome}

/-- What a step that keeps the lock for a change of the map leaves. -/
structure Agrees (instants : JobFormat) (store : JobStore) (outcome : JobsOutcome) :
    Prop where
  plain : AllPlain instants.number outcome.store.jobs
  unchanged : outcome.answer.isError = true → outcome.store.jobs = store.jobs
  loaded : outcome.saved = true → loadJobs instants outcome.store.file = outcome.store.jobs

variable {answer : JobsAnswer}

theorem agrees_of_unsaved {jobs : Table ScheduledJob} {scheduling : Bool} (hplain : AllPlain instants.number jobs)
    (hunchanged : answer.isError = true → jobs = store.jobs) :
    Agrees instants store ⟨⟨jobs, store.file, scheduling⟩, answer, false⟩ where
  plain := hplain
  unchanged := hunchanged
  loaded h := by cases h

/-- A map is changed and written. A write may fail when this is not answered. -/
theorem agrees_save {jobs : Table ScheduledJob} {fault : Option String}
    {failed : PersistError → JobsAnswer} (hplain : AllPlain instants.number jobs) (hanswer : answer.isError = false)
    (hfailed : fault = none ∨ ∀ error, (failed error).isError = false) :
    Agrees instants store (store.save instants jobs fault answer failed) := by
  have ⟨contents, hloaded, hpersist⟩ := persistJobs_eq instants hplain
  rw [JobStore.save, hpersist]
  cases fault with
  | none =>
    exact {
      plain := hplain
      unchanged := by
        intro herror
        rw [hanswer] at herror
        cases herror
      loaded := fun _ => hloaded }
  | some message =>
    apply agrees_of_unsaved hplain
    intro herror
    rcases hfailed with hnone | hfailed
    · cases hnone
    · rw [hfailed] at herror
      cases herror

theorem agrees_run (hplain : AllPlain instants.number store.jobs) {op : JobsOp}
    (hsound : op.Sound instants.number) (h : op.run instants store = some outcome) : Agrees instants store outcome := by
  cases op with
  | createJob body id now createdAt fault =>
    obtain ⟨hfault, htoken, hlegible⟩ := hsound
    cases hbody : CreateJob.ofJson body with
    | none =>
      simp only [JobsOp.run, hbody] at h
      cases h
      exact agrees_of_unsaved hplain fun _ => rfl
    | some create =>
      by_cases hshort : create.intervalSeconds < 10
      · simp only [JobsOp.run, hbody, if_pos hshort] at h
        cases h
        exact agrees_of_unsaved hplain fun _ => rfl
      · cases hnext : nextRunAt now create.intervalSeconds with
        | none =>
          simp only [JobsOp.run, hbody, if_neg hshort, hnext] at h
          cases h
          exact agrees_of_unsaved hplain fun _ => rfl
        | some next =>
          simp only [JobsOp.run, hbody, if_neg hshort, hnext] at h
          cases h
          exact agrees_save (hplain.put (plain_of_submitted hbody htoken (hlegible _ hbody))) rfl
            (Or.inl hfault)
  | deleteJob id fault =>
    cases hfound : store.jobs.find? id with
    | none =>
      simp only [JobsOp.run, hfound] at h
      cases h
      exact agrees_of_unsaved hplain fun _ => rfl
    | some job =>
      simp only [JobsOp.run, hfound] at h
      cases h
      exact agrees_save (hplain.filter _) rfl (Or.inl hsound)
  | tick now fault =>
    by_cases hscheduling : store.scheduling = true
    · cases hdue : (launchDue now store.jobs.rows).2 with
      | none =>
        simp only [JobsOp.run, if_pos hscheduling, hdue] at h
        cases h
        exact agrees_of_unsaved (hplain.advance now) fun herror => by cases herror
      | some due =>
        cases due with
        | nil =>
          simp only [JobsOp.run, if_pos hscheduling, hdue] at h
          cases h
          exact agrees_of_unsaved hplain fun _ => rfl
        | cons first rest =>
          simp only [JobsOp.run, if_pos hscheduling, hdue] at h
          cases h
          exact agrees_save (hplain.advance now) rfl (Or.inr fun _ => rfl)
    · simp only [JobsOp.run, if_neg hscheduling] at h
      cases h
  | executed jobId executionId fault =>
    cases hfound : store.jobs.find? jobId with
    | none =>
      simp only [JobsOp.run, hfound] at h
      cases h
      exact agrees_of_unsaved hplain fun _ => rfl
    | some job =>
      simp only [JobsOp.run, hfound] at h
      cases h
      exact agrees_save (hplain.update jobId executionId) rfl (Or.inr fun _ => rfl)

/-- A job that was loaded without a token can be written and read back. -/
theorem plain_of_loaded {file : Option Json} (h : job ∈ (loadJobs instants file).rows)
    (htoken : job.request.authRef.bind AuthRef.token = none)
    (hlegible : Legible instants.number job.request) : Plain instants.number job.request := by
  have hread := Table.mem_collect h
  cases hfile : (file.bind (Json.readBack instants.number)).bind fun
      | .arr items => Codec.readAll (ScheduledJob.ofJson instants) items
      | _ => none with
  | none =>
    rw [hfile] at hread
    cases hread
  | some jobs =>
    rw [hfile] at hread
    have ⟨contents, _, hcontents⟩ := Option.bind_eq_some_iff.mp hfile
    cases contents with
    | arr items =>
      have ⟨j, _, hj⟩ := Codec.exists_of_readAll hcontents hread
      cases j with
      | obj ms =>
        rw [ScheduledJob.ofJson] at hj
        iterate 5 obtain ⟨_, _, hj⟩ := Option.bind_eq_some_iff.mp hj
        obtain ⟨request, hrequest, hj⟩ := Option.bind_eq_some_iff.mp hj
        iterate 2 obtain ⟨_, _, hj⟩ := Option.bind_eq_some_iff.mp hj
        obtain ⟨_, _, hofJson⟩ := Option.bind_eq_some_iff.mp hrequest
        cases hj
        exact plain_of_ofJson hofJson htoken hlegible
      | null | bool _ | num _ | str _ | arr _ => cases hj
    | null | bool _ | num _ | str _ | obj _ => cases hcontents

/-- As long as no write of a handler fails and no token and no illegible request is submitted
or found in the file, a handler that answers with an error leaves the map, and the file is
read back as the map after every step that has written it. -/
theorem jobs_agree {file : Option Json}
    (hfile : ∀ job ∈ (loadJobs instants file).rows,
      job.request.authRef.bind AuthRef.token = none ∧ Legible instants.number job.request)
    (h : Follows (jobsStep instants) (fun _ op => op.Sound instants.number)
      (JobStore.opened instants file) store)
    {op : JobsOp} (hsound : op.Sound instants.number) (hrun : op.run instants store = some outcome) :
    (outcome.answer.isError = true → outcome.store.jobs = store.jobs) ∧
      (outcome.saved = true → loadJobs instants outcome.store.file = outcome.store.jobs) := by
  have hplain : AllPlain instants.number store.jobs := by
    apply h.invariant
    · exact fun job hjob => plain_of_loaded hjob (hfile job hjob).1 (hfile job hjob).2
    intro before op after hbefore hsound hstep
    rw [jobsStep, Option.map_eq_some_iff] at hstep
    have ⟨outcome, hrun, heq⟩ := hstep
    rw [← heq]
    exact (agrees_run hbefore hsound hrun).plain
  have hagrees := agrees_run hplain hsound hrun
  exact ⟨hagrees.unchanged, hagrees.loaded⟩

/-! ## A job is created -/

def unixEpoch : DateTime := ⟨0, by decide⟩

def minuteAfterEpoch : DateTime := ⟨60 * nanosPerSecond, by decide⟩

/-- The two instants as RFC 3339 writes them, and all others by their distance from the first
one. -/
def writeInstant (t : DateTime) : Json :=
  .str <|
    if t = unixEpoch then "1970-01-01T00:00:00Z"
    else if t = minuteAfterEpoch then "1970-01-01T00:01:00Z"
    else String.ofList (Nat.toDigits 10 (t.nanos - minUtc).toNat)

def readInstant : Json → Option DateTime
  | .str text =>
    match parseDigits text.toList with
    | none =>
      if text = "1970-01-01T00:00:00Z" then some unixEpoch
      else if text = "1970-01-01T00:01:00Z" then some minuteAfterEpoch
      else none
    | some n =>
      if h : minUtc ≤ n + minUtc ∧ n + minUtc ≤ maxUtc then some ⟨n + minUtc, h⟩ else none
  | _ => none

theorem readInstant_writeInstant (t : DateTime) : readInstant (writeInstant t) = some t := by
  rw [writeInstant]
  by_cases hepoch : t = unixEpoch
  · rw [if_pos hepoch, hepoch]
    rfl
  by_cases hminute : t = minuteAfterEpoch
  · rw [if_neg hepoch, if_pos hminute, hminute]
    rfl
  have hnanos : ((t.nanos - minUtc).toNat : Int) + minUtc = t.nanos := by
    have := t.inRange.1
    omega
  rw [if_neg hepoch, if_neg hminute]
  simp only [readInstant, String.toList_ofList, parseDigits_toDigits, hnanos, t.inRange, and_self,
    dif_pos]

def epochInstants : JobFormat where
  write := writeInstant
  read := readInstant
  read_write := readInstant_writeInstant
  written _ := ⟨_, rfl⟩
  number := Json.nextNumber
  integer n _ _ := if_pos (Rat.den_intCast n)

/-- A job that runs every minute. -/
def minuteJob : Json :=
  .obj [("name", .str "smoke"), ("intervalSeconds", .num 60),
    ("request", ((RequestEnvelope.httpGet "r" "1970-01-01T00:00:00Z" "smoke"
      "https://example.com").toJson).getD .null)]

def createMinuteJob (fault : Option String) : JobsOp :=
  .createJob minuteJob "j" unixEpoch unixEpoch fault

theorem jobs_agree_created :
    ∃ outcome, (createMinuteJob none).run epochInstants (JobStore.opened epochInstants none) =
      some outcome ∧ loadJobs epochInstants outcome.store.file = outcome.store.jobs := by
  have hsaved : ((createMinuteJob none).run epochInstants
      (JobStore.opened epochInstants none)).map JobsOutcome.saved = some true := by
    decide +kernel
  have ⟨outcome, hrun, hwritten⟩ := Option.map_eq_some_iff.mp hsaved
  have hsound : (createMinuteJob none).Sound epochInstants.number := by decide +kernel
  have hempty : ∀ job ∈ (loadJobs epochInstants none).rows,
      job.request.authRef.bind AuthRef.token = none ∧
        Legible epochInstants.number job.request := by
    intro job hjob
    cases hjob
  exact ⟨outcome, hrun, (jobs_agree hempty .refl hsound hrun).2 hwritten⟩

/-- The disk is full when a job is created: the handler answers 500 and the job stays in
the map. -/
theorem job_created_with_error :
    ∃ outcome, (createMinuteJob (some "No space left on device")).run epochInstants
        (JobStore.opened epochInstants none) = some outcome ∧
      outcome.answer.isError = true ∧
      outcome.store.jobs ≠ (JobStore.opened epochInstants none).jobs := by
  have hfails : ((createMinuteJob (some "No space left on device")).run epochInstants
      (JobStore.opened epochInstants none)).map
        (fun outcome => (outcome.answer.isError, outcome.store.jobs.rows.length)) =
      some (true, 1) := by decide +kernel
  have ⟨outcome, hrun, heq⟩ := Option.map_eq_some_iff.mp hfails
  have ⟨herror, hlength⟩ := Prod.mk.inj heq
  refine ⟨outcome, hrun, herror, fun hsame => ?_⟩
  rw [hsame] at hlength
  cases hlength

end ApiVoy.Gateway
