/-
# When jobs are launched

A tick launches every enabled job that is due and computes when it is due again from the
clock and the interval of the job. The interval is any unsigned number of 64 bits: it is
converted to a signed one and added to the clock, so a long one wraps or panics. As long
as the instants that are computed lie within the calendar, every job that is due is
launched and launches of a job are at least its interval apart.
-/

import ApiVoy.Gateway.Jobs

namespace ApiVoy.Gateway

open Foundation Domain

/-! ## The next due time -/

/-- An instant and an interval after it, in nanoseconds. -/
def DateTime.after (now : DateTime) (intervalSeconds : UInt64) : Int :=
  now.nanos + intervalSeconds.toNat * nanosPerSecond

/-- The interval ends within the calendar. -/
def Representable (now : DateTime) (intervalSeconds : UInt64) : Prop :=
  now.after intervalSeconds ≤ maxUtc

instance (now : DateTime) (intervalSeconds : UInt64) :
    Decidable (Representable now intervalSeconds) :=
  inferInstanceAs (Decidable (_ ≤ _))

/-- The next due time is computed without a panic and without wrapping. -/
def Exact (now : DateTime) (intervalSeconds : UInt64) : Prop :=
  ∃ due, nextRunAt now intervalSeconds = some due ∧ due.nanos = now.after intervalSeconds

theorem toInt64_of_lt {intervalSeconds : UInt64} (h : intervalSeconds.toNat < 2 ^ 63) :
    intervalSeconds.toInt64.toInt = intervalSeconds.toNat := by
  show intervalSeconds.toInt64.toBitVec.toInt = intervalSeconds.toNat
  have hsmall : 2 * intervalSeconds.toBitVec.toNat < 2 ^ 64 := by
    have hsame : intervalSeconds.toBitVec.toNat = intervalSeconds.toNat := rfl
    omega
  rw [UInt64.toBitVec_toInt64, BitVec.toInt_eq_toNat_of_lt hsmall]
  rfl

theorem exact_iff (now : DateTime) (intervalSeconds : UInt64) :
    Exact now intervalSeconds ↔ Representable now intervalSeconds := by
  constructor
  · intro ⟨due, _, heq⟩
    rw [Representable, ← heq]
    exact due.inRange.2
  · intro h
    have hlow := now.inRange.1
    simp only [Representable, DateTime.after, nanosPerSecond, minUtc, maxUtc] at h hlow
    have hsmall : intervalSeconds.toNat < 2 ^ 63 := by omega
    have hsigned := toInt64_of_lt hsmall
    have hduration : durationSeconds intervalSeconds.toInt64.toInt =
        some (intervalSeconds.toNat * nanosPerSecond) := by
      rw [hsigned, durationSeconds, if_pos]
      simp only [maxSeconds]
      omega
    have hrange : minUtc ≤ now.nanos + intervalSeconds.toNat * nanosPerSecond ∧
        now.nanos + intervalSeconds.toNat * nanosPerSecond ≤ maxUtc := by
      simp only [nanosPerSecond, minUtc, maxUtc]
      omega
    refine ⟨⟨_, hrange⟩, ?_, rfl⟩
    rw [nextRunAt, hduration, Option.bind_some, DateTime.add, dif_pos hrange]

/-! ## One tick -/

variable {now : DateTime} {rows : List ScheduledJob}

theorem due_launchDue (hexact : ∀ job ∈ rows, job.isDue now = true → Exact now job.intervalSeconds) :
    (launchDue now rows).2 =
      some ((rows.filter fun job => job.isDue now).map fun job => (job.id, job.request)) := by
  induction rows with
  | nil => rfl
  | cons job rest ih =>
    have hrest := ih fun other hother => hexact other (List.mem_cons_of_mem job hother)
    rw [launchDue]
    by_cases hdue : job.isDue now = true
    · obtain ⟨due, hnext, _⟩ := hexact job List.mem_cons_self hdue
      rw [if_pos hdue, hnext, List.filter_cons_of_pos hdue, List.map_cons]
      dsimp only
      rw [hrest, Option.map_some]
    · rw [if_neg hdue, List.filter_cons_of_neg hdue]
      exact hrest

/-- The due times after a tick. -/
theorem rows_launchDue (hexact : ∀ job ∈ rows, job.isDue now = true → Exact now job.intervalSeconds)
    {after : ScheduledJob} (h : after ∈ (launchDue now rows).1) :
    ∃ job ∈ rows, after.id = job.id ∧
      (job.isDue now = true → after.nextRunAt.nanos = now.after job.intervalSeconds) ∧
      (job.isDue now = false → after.nextRunAt = job.nextRunAt) := by
  induction rows with
  | nil => cases h
  | cons job rest ih =>
    have hlater : after ∈ (launchDue now rest).1 → ∃ job' ∈ job :: rest, after.id = job'.id ∧
        (job'.isDue now = true → after.nextRunAt.nanos = now.after job'.intervalSeconds) ∧
        (job'.isDue now = false → after.nextRunAt = job'.nextRunAt) := by
      intro hafter
      obtain ⟨job', hjob', hsame⟩ :=
        ih (fun other hother => hexact other (List.mem_cons_of_mem job hother)) hafter
      exact ⟨job', List.mem_cons_of_mem job hjob', hsame⟩
    rw [launchDue] at h
    by_cases hdue : job.isDue now = true
    · obtain ⟨due, hnext, hnanos⟩ := hexact job List.mem_cons_self hdue
      rw [if_pos hdue, hnext] at h
      rcases List.mem_cons.mp h with heq | hrest
      · rw [heq]
        refine ⟨job, List.mem_cons_self, rfl, fun _ => hnanos, fun hnot => ?_⟩
        rw [hdue] at hnot
        cases hnot
      · exact hlater hrest
    · rw [if_neg hdue] at h
      rcases List.mem_cons.mp h with heq | hrest
      · rw [heq]
        exact ⟨job, List.mem_cons_self, rfl, fun hyes => absurd hyes hdue, fun _ => rfl⟩
      · exact hlater hrest

/-! ## Runs -/

/-- The interval of a job that a body of a request asks for, when it is accepted. -/
def acceptedInterval (body : Json) : Option UInt64 :=
  ((CreateJob.ofJson body).map CreateJob.intervalSeconds).filter fun interval => ¬ interval < 10

/-- The due times that a step computes, from the clock and an interval. -/
def JobsOp.computes (store : JobStore) : JobsOp → List (DateTime × UInt64)
  | .createJob body _ now _ _ => (acceptedInterval body).toList.map fun interval => (now, interval)
  | .tick now _ =>
    (store.jobs.rows.filter fun job => job.isDue now).map fun job => (now, job.intervalSeconds)
  | .deleteJob .. | .executed .. => []

/-- All due times that a step computes lie within the calendar. -/
def JobsOp.Fits (store : JobStore) (op : JobsOp) : Prop :=
  ∀ next ∈ op.computes store, Representable next.1 next.2

instance (store : JobStore) (op : JobsOp) : Decidable (op.Fits store) :=
  inferInstanceAs (Decidable (∀ next ∈ op.computes store, Representable next.1 next.2))

/-- A step computes every due time without a panic and without wrapping. -/
def JobsOp.Computes (store : JobStore) (op : JobsOp) : Prop :=
  ∀ next ∈ op.computes store, Exact next.1 next.2

theorem computes_iff {store : JobStore} {op : JobsOp} : op.Computes store ↔ op.Fits store := by
  constructor
  · intro h next hnext
    exact (exact_iff next.1 next.2).mp (h next hnext)
  · intro h next hnext
    exact (exact_iff next.1 next.2).mpr (h next hnext)

def JobsOp.creates (id : String) : JobsOp → Bool
  | .createJob _ other _ _ _ => other = id
  | .deleteJob .. | .tick .. | .executed .. => false

variable {instants : JobFormat} {store store' : JobStore} {op : JobsOp}
  {outcome : JobsOutcome} {fault : Option String} {id : String}

@[simp]
theorem store_save {jobs : Table ScheduledJob} {answer : JobsAnswer}
    {failed : PersistError → JobsAnswer} :
    (store.save instants jobs fault answer failed).store.jobs = jobs ∧
      (store.save instants jobs fault answer failed).store.scheduling = store.scheduling := by
  rw [JobStore.save]
  cases persistJobs instants jobs fault with
  | ok contents => exact ⟨rfl, rfl⟩
  | error error => exact ⟨rfl, rfl⟩

theorem exact_of_fits (h : (JobsOp.tick now fault).Fits store) :
    ∀ job ∈ store.jobs.rows, job.isDue now = true → Exact now job.intervalSeconds := by
  intro job hjob hdue
  apply computes_iff.mpr h (now, job.intervalSeconds)
  exact List.mem_map.mpr ⟨job, List.mem_filter.mpr ⟨hjob, hdue⟩, rfl⟩

/-- A tick that fits launches the jobs that are due, and leaves the map that its loop
has made. -/
theorem run_tick (instants : JobFormat) (hscheduling : store.scheduling = true)
    (hfits : (JobsOp.tick now fault).Fits store) :
    ∃ outcome, (JobsOp.tick now fault).run instants store = some outcome ∧
      outcome.answer = .launched ((store.jobs.rows.filter fun job => job.isDue now).map
        fun job => (job.id, job.request)) ∧
      outcome.store.scheduling = true ∧
      (outcome.store.jobs = advance now store.jobs ∨
        outcome.store = store ∧ ∀ job ∈ store.jobs.rows, job.isDue now = false) := by
  have hdue := due_launchDue (exact_of_fits hfits)
  cases hjobs : store.jobs.rows.filter fun job => job.isDue now with
  | nil =>
    rw [hjobs, List.map_nil] at hdue
    refine ⟨⟨store, .launched [], false⟩, ?_, rfl, hscheduling, Or.inr ⟨rfl, ?_⟩⟩
    · simp only [JobsOp.run, if_pos hscheduling, hdue]
    · intro job hjob
      have hnone := List.filter_eq_nil_iff.mp hjobs job hjob
      simpa using hnone
  | cons first rest =>
    rw [hjobs, List.map_cons] at hdue
    have hrun : (JobsOp.tick now fault).run instants store =
        some (store.save instants (advance now store.jobs) fault
          (.launched ((first.id, first.request) :: rest.map fun job => (job.id, job.request)))
          fun _ => .launched ((first.id, first.request) ::
            rest.map fun job => (job.id, job.request))) := by
      simp only [JobsOp.run, if_pos hscheduling, hdue]
    refine ⟨_, hrun, ?_, ?_, Or.inl store_save.1⟩
    · rw [JobStore.save]
      cases persistJobs instants (advance now store.jobs) fault <;> rfl
    · rw [store_save.2, hscheduling]

/-- A step that fits keeps the scheduler running, and brings no job forward except one
that it creates. -/
theorem run_keeps (hscheduling : store.scheduling = true) (hfits : op.Fits store)
    (h : op.run instants store = some outcome) :
    outcome.store.scheduling = true ∧
      ∀ after ∈ outcome.store.jobs.rows, op.creates after.id = true ∨
        ∃ job ∈ store.jobs.rows, after.id = job.id ∧
          job.nextRunAt.nanos ≤ after.nextRunAt.nanos := by
  have hsame : ∀ after ∈ store.jobs.rows, op.creates after.id = true ∨
      ∃ job ∈ store.jobs.rows, after.id = job.id ∧
        job.nextRunAt.nanos ≤ after.nextRunAt.nanos :=
    fun after hafter => Or.inr ⟨after, hafter, rfl, Int.le_refl _⟩
  cases op with
  | createJob body id now createdAt fault =>
    cases hbody : CreateJob.ofJson body with
    | none =>
      simp only [JobsOp.run, hbody] at h
      cases h
      exact ⟨hscheduling, hsame⟩
    | some create =>
      by_cases hshort : create.intervalSeconds < 10
      · simp only [JobsOp.run, hbody, if_pos hshort] at h
        cases h
        exact ⟨hscheduling, hsame⟩
      · cases hnext : nextRunAt now create.intervalSeconds with
        | none =>
          simp only [JobsOp.run, hbody, if_neg hshort, hnext] at h
          cases h
          exact ⟨hscheduling, hsame⟩
        | some next =>
          simp only [JobsOp.run, hbody, if_neg hshort, hnext] at h
          cases h
          refine ⟨by rw [store_save.2, hscheduling], fun after hafter => ?_⟩
          rw [store_save.1] at hafter
          rcases Table.mem_put hafter with heq | hmem
          · rw [heq]
            exact Or.inl (decide_eq_true rfl)
          · exact hsame after hmem
  | deleteJob id fault =>
    cases hfound : store.jobs.find? id with
    | none =>
      simp only [JobsOp.run, hfound] at h
      cases h
      exact ⟨hscheduling, hsame⟩
    | some job =>
      simp only [JobsOp.run, hfound] at h
      cases h
      refine ⟨by rw [store_save.2, hscheduling], fun after hafter => ?_⟩
      rw [store_save.1] at hafter
      exact hsame after (Table.mem_filter.mp hafter).1
  | tick now fault =>
    obtain ⟨ticked, hrun, _, hkept, hjobs⟩ := run_tick instants hscheduling hfits
    rw [hrun] at h
    cases h
    refine ⟨hkept, fun after hafter => ?_⟩
    rcases hjobs with hjobs | ⟨hstore, _⟩
    · rw [hjobs] at hafter
      obtain ⟨job, hjob, hid, hdue, hrests⟩ := rows_launchDue (exact_of_fits hfits) hafter
      refine Or.inr ⟨job, hjob, hid, ?_⟩
      cases hisDue : job.isDue now with
      | true =>
        -- the job was due by now, and its interval comes on top
        have hpast : job.nextRunAt.nanos ≤ now.nanos := by
          rw [ScheduledJob.isDue, Bool.and_eq_true, decide_eq_true_iff] at hisDue
          exact hisDue.2
        rw [hdue hisDue, DateTime.after, nanosPerSecond]
        omega
      | false =>
        rw [hrests hisDue]
    · rw [hstore] at hafter
      exact hsame after hafter
  | executed jobId executionId fault =>
    cases hfound : store.jobs.find? jobId with
    | none =>
      simp only [JobsOp.run, hfound] at h
      cases h
      exact ⟨hscheduling, hsame⟩
    | some job =>
      simp only [JobsOp.run, hfound] at h
      cases h
      refine ⟨by rw [store_save.2, hscheduling], fun after hafter => ?_⟩
      rw [store_save.1] at hafter
      obtain ⟨old, hold, heq⟩ := Table.mem_update.mp hafter
      refine Or.inr ⟨old, hold, ?_⟩
      rw [← heq]
      split
      · exact ⟨rfl, Int.le_refl _⟩
      · exact ⟨rfl, Int.le_refl _⟩

/-- After a tick has launched a job, it is not due again before its interval has
passed. -/
theorem not_due_after_tick (hscheduling : store.scheduling = true)
    (hfits : (JobsOp.tick now fault).Fits store) {job : ScheduledJob}
    (hjob : job ∈ store.jobs.rows) (hdue : job.isDue now = true)
    (h : jobsStep instants (.tick now fault) store = some store') :
    ∀ after ∈ store'.jobs.rows, after.id = job.id →
      now.after job.intervalSeconds ≤ after.nextRunAt.nanos := by
  intro after hafter hid
  obtain ⟨outcome, hrun, _, _, hjobs⟩ := run_tick instants hscheduling hfits
  rw [jobsStep, hrun, Option.map_some] at h
  cases h
  rcases hjobs with hjobs | ⟨_, hnone⟩
  · rw [hjobs] at hafter
    obtain ⟨other, hother, hsame, hnext, _⟩ := rows_launchDue (exact_of_fits hfits) hafter
    have heq : other = job := Table.eq_of_key_eq hother hjob (hsame.symm.trans hid)
    subst heq
    rw [hnext hdue]
  · rw [hnone job hjob] at hdue
    cases hdue

/-- As long as the due times that are computed lie within the calendar: a step computes
its due times exactly if and only if they do, a tick launches the enabled jobs that are
due, and two ticks that launch a job are at least its interval apart. -/
theorem jobs_keep_their_schedule {file : Option Json}
    (h : Follows (jobsStep instants) (fun s op => op.Fits s) (JobStore.opened instants file)
      store) :
    (∀ op : JobsOp, op.Computes store ↔ op.Fits store) ∧
      (∀ now fault, (JobsOp.tick now fault).Fits store →
        ∃ outcome, (JobsOp.tick now fault).run instants store = some outcome ∧
          outcome.answer = .launched ((store.jobs.rows.filter fun job => job.isDue now).map
            fun job => (job.id, job.request))) ∧
      ∀ now fault store', (JobsOp.tick now fault).Fits store →
        jobsStep instants (.tick now fault) store = some store' →
        ∀ job ∈ store.jobs.rows, job.isDue now = true →
        ∀ store'', Follows (jobsStep instants) (fun s op => op.Fits s ∧ op.creates job.id = false)
          store' store'' →
        ∀ now', ∀ later ∈ store''.jobs.rows, later.id = job.id → later.isDue now' = true →
          now.after job.intervalSeconds ≤ now'.nanos := by
  have hkeeps : ∀ {before after : JobStore} {op : JobsOp}, before.scheduling = true →
      op.Fits before → jobsStep instants op before = some after →
      ∃ outcome, op.run instants before = some outcome ∧ outcome.store = after := by
    intro before after op _ _ hstep
    exact Option.map_eq_some_iff.mp hstep
  have hscheduling : store.scheduling = true := by
    apply h.invariant (I := fun s => s.scheduling = true) rfl
    intro before op after hbefore hfits hstep
    have ⟨outcome, hrun, heq⟩ := hkeeps hbefore hfits hstep
    rw [← heq]
    exact (run_keeps hbefore hfits hrun).1
  refine ⟨fun _ => computes_iff, fun now fault hfits => ?_, ?_⟩
  · have ⟨outcome, hrun, hanswer, _⟩ := run_tick instants hscheduling hfits
    exact ⟨outcome, hrun, hanswer⟩
  · intro now fault store' hfits htick job hjob hdue store'' hfollows now' later hlater hid hdue'
    have hstart : store'.scheduling = true ∧ ∀ after ∈ store'.jobs.rows, after.id = job.id →
        now.after job.intervalSeconds ≤ after.nextRunAt.nanos := by
      have ⟨outcome, hrun, heq⟩ := hkeeps hscheduling hfits htick
      refine ⟨?_, not_due_after_tick hscheduling hfits hjob hdue htick⟩
      rw [← heq]
      exact (run_keeps hscheduling hfits hrun).1
    have hlast : store''.scheduling = true ∧ ∀ after ∈ store''.jobs.rows, after.id = job.id →
        now.after job.intervalSeconds ≤ after.nextRunAt.nanos := by
      apply hfollows.invariant hstart
      intro before op after ⟨hbefore, hbound⟩ ⟨hfits, hcreates⟩ hstep
      have ⟨outcome, hrun, heq⟩ := hkeeps hbefore hfits hstep
      subst heq
      have ⟨hstill, hrows⟩ := run_keeps hbefore hfits hrun
      refine ⟨hstill, fun row hrow hrowId => ?_⟩
      rcases hrows row hrow with hcreated | ⟨old, hold, hsame, hle⟩
      · rw [hrowId, hcreates] at hcreated
        cases hcreated
      · exact (hbound old hold (hsame.symm.trans hrowId)).trans hle
    have hpast : later.nextRunAt.nanos ≤ now'.nanos := by
      rw [ScheduledJob.isDue, Bool.and_eq_true, decide_eq_true_iff] at hdue'
      exact hdue'.2
    exact (hlast.2 later hlater hid).trans hpast

/-- The job that runs every minute is launched after a minute. -/
theorem jobs_keep_their_schedule_minute :
    ∃ store, performAdmitted (jobsStep epochInstants) (fun s op => op.Fits s)
        [createMinuteJob none] (JobStore.opened epochInstants none) = some store ∧
      ∃ outcome, (JobsOp.tick minuteAfterEpoch none).run epochInstants store = some outcome ∧
        outcome.answer = .launched ((store.jobs.rows.filter fun job =>
          job.isDue minuteAfterEpoch).map fun job => (job.id, job.request)) := by
  have hrun : (performAdmitted (jobsStep epochInstants) (fun s op => op.Fits s)
      [createMinuteJob none] (JobStore.opened epochInstants none)).map
      (fun store => decide ((JobsOp.tick minuteAfterEpoch none).Fits store)) = some true := by
    decide +kernel
  have ⟨store, hstore, hfits⟩ := Option.map_eq_some_iff.mp hrun
  exact ⟨store, hstore, (jobs_keep_their_schedule (follows_of_performAdmitted hstore)).2.1
    minuteAfterEpoch none (of_decide_eq_true hfits)⟩

def secondAfterEpoch : DateTime := ⟨nanosPerSecond, by decide⟩

/-- A job with the longest interval. -/
def endlessJob : Json :=
  .obj [("name", .str "endless"), ("intervalSeconds", .num 18446744073709551615),
    ("request", ((RequestEnvelope.httpGet "r" "1970-01-01T00:00:00Z" "endless"
      "https://example.com").toJson).getD .null)]

/-- A job with an interval of 2^64 - 1 seconds is launched when it is created and again
a second later. -/
theorem endless_job_launched_twice :
    ∃ store store' job later, perform (jobsStep epochInstants)
        [.createJob endlessJob "j" unixEpoch unixEpoch none]
        (JobStore.opened epochInstants none) = some store ∧
      jobsStep epochInstants (.tick unixEpoch none) store = some store' ∧
      job ∈ store.jobs.rows ∧ job.isDue unixEpoch = true ∧
      later ∈ store'.jobs.rows ∧ later.id = job.id ∧ later.isDue secondAfterEpoch = true ∧
      secondAfterEpoch.nanos < unixEpoch.after job.intervalSeconds := by
  have hrun : (perform (jobsStep epochInstants)
      [.createJob endlessJob "j" unixEpoch unixEpoch none]
      (JobStore.opened epochInstants none)).map
      (fun store => (store.jobs.rows.map fun job =>
          (job.id, job.isDue unixEpoch, job.intervalSeconds),
        (jobsStep epochInstants (.tick unixEpoch none) store).map fun store' =>
          store'.jobs.rows.map fun later => (later.id, later.isDue secondAfterEpoch))) =
      some ([("j", true, 18446744073709551615)], some [("j", true)]) := by decide +kernel
  have ⟨store, hstore, heq⟩ := Option.map_eq_some_iff.mp hrun
  have ⟨hjobs, htick⟩ := Prod.mk.inj heq
  have ⟨store', hstore', hlater⟩ := Option.map_eq_some_iff.mp htick
  have ⟨job, hrows, hjob⟩ := List.map_eq_singleton_iff.mp hjobs
  have ⟨later, hrows', hlater⟩ := List.map_eq_singleton_iff.mp hlater
  have ⟨hid, hjob⟩ := Prod.mk.inj hjob
  have ⟨hdue, hinterval⟩ := Prod.mk.inj hjob
  have ⟨hid', hdue'⟩ := Prod.mk.inj hlater
  refine ⟨store, store', job, later, hstore, hstore', by rw [hrows]; exact List.mem_cons_self,
    hdue, by rw [hrows']; exact List.mem_cons_self, hid'.trans hid.symm, hdue', ?_⟩
  rw [hinterval]
  decide

end ApiVoy.Gateway
