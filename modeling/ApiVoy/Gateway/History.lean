/-
# Retained executions

The gateway answers a run with all its events and retains a reduced entry in a queue of
the latest 500. An entry keeps the events of some kinds only, without the headers of the
response, and no more than 1000 of them. The events that tell whether a run succeeded
come last, so a run with many events may lose them.
-/

import Mathlib.Data.List.Basic
import ApiVoy.Domain.Execution

namespace ApiVoy.Gateway

open Foundation Domain

def maxResults : Nat := 500

def maxRetainedEvents : Nat := 1000

inductive ExecutionSource where
  | remote
  | schedule
  | ci
  deriving DecidableEq

structure GatewayExecution where
  id : String
  source : ExecutionSource
  scheduledJobId : Option String
  startedAt : Timestamp
  finishedAt : Timestamp
  success : Bool
  summary : Option ExecutionSummary
  events : List ExecutionEvent
  error : Option String
  deriving DecidableEq

def retainedEvent : ExecutionEvent → Option ExecutionEvent
  | .stateChanged state phase => some (.stateChanged state phase)
  | .metric event => some (.metric event)
  | .assertionResult event => some (.assertionResult event)
  | .warning code message => some (.warning code message)
  | .completed summary => some (.completed summary)
  | .failed code message => some (.failed code message)
  | .cancelled reason => some (.cancelled reason)
  | .responseMeta response => some (.responseMeta { response with headers := [] })
  | .log .. | .variablesExtracted _ | .responseChunk .. => none

def retainedExecution (execution : GatewayExecution) : GatewayExecution :=
  { execution with
    events := (execution.events.filterMap retainedEvent).take maxRetainedEvents }

theorem events_retainedExecution (execution : GatewayExecution) :
    (retainedExecution execution).events =
      (execution.events.filterMap retainedEvent).take maxRetainedEvents := rfl

/-- A run: what it is given and draws, the two readings of the clock, and how the engine
ends it. The semaphore of the gateway is never closed, so a run gets its permit. -/
structure GatewayRun where
  id : String
  source : ExecutionSource
  jobId : Option String
  startedAt : Timestamp
  finishedAt : Timestamp
  result : Except String (ExecutionSummary × List ExecutionEvent)

def failedExecution (id : String) (source : ExecutionSource) (jobId : Option String)
    (startedAt finishedAt : Timestamp) (error : String) : GatewayExecution where
  id
  source
  scheduledJobId := jobId
  startedAt
  finishedAt
  success := false
  summary := none
  events := []
  error := some error

def GatewayRun.execution (run : GatewayRun) : GatewayExecution :=
  match run.result with
  | .ok (summary, events) => {
      id := run.id
      source := run.source
      scheduledJobId := run.jobId
      startedAt := run.startedAt
      finishedAt := run.finishedAt
      success := true
      summary := some summary
      events
      error := none }
  | .error error => failedExecution run.id run.source run.jobId run.startedAt run.finishedAt error

/-- Run and retain: the answer, and the queue after it. -/
def runExecution (results : List GatewayExecution) (run : GatewayRun) :
    GatewayExecution × List GatewayExecution :=
  (run.execution, (retainedExecution run.execution :: results).take maxResults)

/-- The queue after some runs, the last of which comes last. -/
def resultsAfter (runs : List GatewayRun) : List GatewayExecution :=
  runs.foldl (fun results run => (runExecution results run).2) []

/-! ## The queue -/

/-- The queue has the entries of the latest runs, the last one first. -/
theorem resultsAfter_eq (runs : List GatewayRun) :
    resultsAfter runs =
      (runs.reverse.map fun run => retainedExecution run.execution).take maxResults := by
  have hfold : ∀ (rest done : List GatewayRun),
      rest.foldl (fun results run => (runExecution results run).2)
        ((done.map fun run => retainedExecution run.execution).take maxResults) =
      ((rest.reverse ++ done).map fun run => retainedExecution run.execution).take maxResults := by
    intro rest
    induction rest with
    | nil => exact fun _ => rfl
    | cons run rest ih =>
      intro done
      have hrun : (runExecution ((done.map fun run => retainedExecution run.execution).take
          maxResults) run).2 =
          ((run :: done).map fun run => retainedExecution run.execution).take maxResults := by
        simp [runExecution, List.take_take, maxResults]
      rw [List.foldl_cons, hrun, ih (run :: done)]
      simp
  have hall := hfold runs []
  rw [List.append_nil] at hall
  exact hall

/-! ## What an entry depends on -/

/-- Logs, extracted variables and the chunks of a response. -/
def isDetail : ExecutionEvent → Bool
  | .log .. | .variablesExtracted _ | .responseChunk .. => true
  | _ => false

/-- Two streams of events that differ in the headers of responses, in logs, chunks and
extracted variables only. -/
inductive SameKept : List ExecutionEvent → List ExecutionEvent → Prop
  | nil : SameKept [] []
  | cons (event : ExecutionEvent) {events events' : List ExecutionEvent}
      (h : SameKept events events') : SameKept (event :: events) (event :: events')
  | headers (response : ResponseMeta) (headers : List (String × String))
      {events events' : List ExecutionEvent} (h : SameKept events events') :
      SameKept (.responseMeta response :: events)
        (.responseMeta { response with headers } :: events')
  | left {event : ExecutionEvent} {events events' : List ExecutionEvent}
      (hevent : isDetail event = true) (h : SameKept events events') :
      SameKept (event :: events) events'
  | right {event : ExecutionEvent} {events events' : List ExecutionEvent}
      (hevent : isDetail event = true) (h : SameKept events events') :
      SameKept events (event :: events')

variable {event : ExecutionEvent}

theorem retainedEvent_of_isDetail (h : isDetail event = true) : retainedEvent event = none := by
  cases event with
  | log _ _ | variablesExtracted _ | responseChunk _ _ _ _ _ => rfl
  | stateChanged _ _ | metric _ | responseMeta _ | assertionResult _ | warning _ _ | completed _
  | failed _ _ | cancelled _ => cases h

theorem SameKept.filterMap_eq {events events' : List ExecutionEvent} (h : SameKept events events') :
    events.filterMap retainedEvent = events'.filterMap retainedEvent := by
  induction h with
  | nil => rfl
  | cons event _ ih => rw [List.filterMap_cons, List.filterMap_cons, ih]
  | headers response headers _ ih =>
    rw [List.filterMap_cons, List.filterMap_cons, ih]
    rfl
  | left hevent _ ih => rw [List.filterMap_cons_none (retainedEvent_of_isDetail hevent), ih]
  | right hevent _ ih => rw [List.filterMap_cons_none (retainedEvent_of_isDetail hevent), ih]

/-! ## Verdicts -/

/-- The events that tell how a run has gone. -/
def isVerdict : ExecutionEvent → Bool
  | .completed _ => true
  | .assertionResult event => !event.passed
  | _ => false

/-- Every verdict among the events of an execution is among the retained ones. -/
def KeepsVerdict (execution : GatewayExecution) : Prop :=
  ∀ event ∈ execution.events, isVerdict event = true →
    event ∈ (retainedExecution execution).events

/-- Fewer than 1000 events that are retained come before the first occurrence of an
event. -/
def ComesWithin (event : ExecutionEvent) (events : List ExecutionEvent) : Prop :=
  ((events.takeWhile fun other => other ≠ event).filter fun other => !isDetail other).length <
    maxRetainedEvents

instance (event : ExecutionEvent) (events : List ExecutionEvent) :
    Decidable (ComesWithin event events) :=
  inferInstanceAs (Decidable (_ < _))

theorem isSome_retainedEvent (event : ExecutionEvent) :
    (retainedEvent event).isSome = !isDetail event := by
  cases event <;> rfl

theorem length_filterMap_retainedEvent (events : List ExecutionEvent) :
    (events.filterMap retainedEvent).length =
      (events.filter fun event => !isDetail event).length := by
  induction events with
  | nil => rfl
  | cons event rest ih =>
    have hsome := isSome_retainedEvent event
    cases hretained : retainedEvent event with
    | none =>
      rw [hretained] at hsome
      rw [List.filterMap_cons_none hretained, ih, List.filter_cons_of_neg (by simp [← hsome])]
    | some kept =>
      rw [hretained] at hsome
      rw [List.filterMap_cons_some hretained, List.length_cons, ih,
        List.filter_cons_of_pos (by simp [← hsome]), List.length_cons]

/-- A verdict is retained as it is, and no other event is retained as one. -/
theorem retainedEvent_eq_some_iff {event verdict : ExecutionEvent}
    (h : isVerdict verdict = true) : retainedEvent event = some verdict ↔ event = verdict := by
  constructor
  · intro hevent
    cases event with
    | responseMeta response =>
      cases hevent
      cases h
    | log _ _ | variablesExtracted _ | responseChunk _ _ _ _ _ => cases hevent
    | stateChanged _ _ | metric _ | assertionResult _ | warning _ _ | completed _ | failed _ _
    | cancelled _ => exact Option.some.inj hevent
  · intro heq
    rw [heq]
    cases verdict with
    | completed _ | assertionResult _ => rfl
    | stateChanged _ _ | log _ _ | variablesExtracted _ | metric _ | responseMeta _
    | responseChunk _ _ _ _ _ | warning _ _ | failed _ _ | cancelled _ => cases h

variable {events : List ExecutionEvent}

/-- A list is split at the first occurrence of one of its elements. -/
theorem exists_split (h : event ∈ events) :
    event ∉ (events.takeWhile fun other => other ≠ event) ∧
      ∃ rest, events = (events.takeWhile fun other => other ≠ event) ++ event :: rest := by
  induction events with
  | nil => cases h
  | cons first later ih =>
    by_cases hfirst : first = event
    · subst hfirst
      rw [List.takeWhile_cons_of_neg (by simp)]
      exact ⟨List.not_mem_nil, later, rfl⟩
    · have hmem : event ∈ later := (List.mem_cons.mp h).resolve_left (Ne.symm hfirst)
      have ⟨hnot, rest, hrest⟩ := ih hmem
      rw [List.takeWhile_cons_of_pos (by simpa using hfirst)]
      refine ⟨?_, rest, by rw [List.cons_append, ← hrest]⟩
      rw [List.mem_cons]
      rintro (heq | hin)
      · exact hfirst heq.symm
      · exact hnot hin

theorem mem_retained_iff {verdict : ExecutionEvent} (hverdict : isVerdict verdict = true)
    (hmem : verdict ∈ events) :
    verdict ∈ (events.filterMap retainedEvent).take maxRetainedEvents ↔
      ComesWithin verdict events := by
  have hkept : retainedEvent verdict = some verdict :=
    (retainedEvent_eq_some_iff hverdict).mpr rfl
  have ⟨hnot, rest, hrest⟩ := exists_split hmem
  have hbefore : verdict ∉
      (events.takeWhile fun other => other ≠ verdict).filterMap retainedEvent := by
    intro hin
    have ⟨event, hevent, hretained⟩ := List.mem_filterMap.mp hin
    have heq := (retainedEvent_eq_some_iff hverdict).mp hretained
    rw [heq] at hevent
    exact hnot hevent
  have hsplit : events.filterMap retainedEvent =
      (events.takeWhile fun other => other ≠ verdict).filterMap retainedEvent ++
        verdict :: rest.filterMap retainedEvent := by
    rw [← List.filterMap_cons_some hkept, ← List.filterMap_append, ← hrest]
  rw [List.mem_take_iff_idxOf_lt (List.mem_filterMap.mpr ⟨verdict, hmem, hkept⟩), hsplit,
    List.idxOf_append_of_notMem hbefore, List.idxOf_cons_self, Nat.add_zero,
    length_filterMap_retainedEvent, ComesWithin]

theorem keepsVerdict_iff (execution : GatewayExecution) :
    KeepsVerdict execution ↔ ∀ event ∈ execution.events, isVerdict event = true →
      ComesWithin event execution.events := by
  constructor
  · intro h event hmem hverdict
    exact (mem_retained_iff hverdict hmem).mp (h event hmem hverdict)
  · intro h event hmem hverdict
    exact (mem_retained_iff hverdict hmem).mpr (h event hmem hverdict)

/-- The queue has the entries of the latest 500 runs; an entry depends on its run
through the events of the kept kinds only; and the entries of the successful runs keep
their verdicts if and only if each verdict comes within the first 1000 events of these
kinds. -/
theorem retained_history (runs : List GatewayRun) :
    resultsAfter runs =
        (runs.reverse.map fun run => retainedExecution run.execution).take maxResults ∧
      (resultsAfter runs).length ≤ maxResults ∧
      (∀ (execution : GatewayExecution) (events' : List ExecutionEvent),
        SameKept execution.events events' →
          retainedExecution { execution with events := events' } = retainedExecution execution) ∧
      ((∀ run ∈ runs, run.execution.success = true → KeepsVerdict run.execution) ↔
        ∀ run ∈ runs, run.execution.success = true →
          ∀ event ∈ run.execution.events, isVerdict event = true →
            ComesWithin event run.execution.events) := by
  refine ⟨resultsAfter_eq runs, ?_, ?_, ?_⟩
  · rw [resultsAfter_eq]
    exact List.length_take_le _ _
  · intro execution events' hsame
    rw [retainedExecution, retainedExecution, hsame.filterMap_eq]
  · constructor
    · intro h run hrun hsuccess
      exact (keepsVerdict_iff run.execution).mp (h run hrun hsuccess)
    · intro h run hrun hsuccess
      exact (keepsVerdict_iff run.execution).mpr (h run hrun hsuccess)

/-- What a run is told at the end. -/
def reconnectSummary : ExecutionSummary where
  executionId := "e"
  requestId := "r"
  protocolId := "sse"
  state := .completed
  startedAt := "1970-01-01T00:00:00Z"
  finishedAt := "1970-01-01T00:16:40Z"
  durationMs := 1000000
  bytesReceived := 0
  status := some 200

def reconnectWarning (attempt : Nat) : ExecutionEvent :=
  .warning "sse_reconnect" ("SSE connection closed; reconnecting (" ++ toString (attempt + 1) ++
    "/1000) after 1000ms")

/-- A run of an event stream that reconnects 1000 times and completes. -/
def reconnectingRun : GatewayRun where
  id := "g"
  source := .remote
  jobId := none
  startedAt := "1970-01-01T00:00:00Z"
  finishedAt := "1970-01-01T00:16:40Z"
  result := .ok (reconnectSummary,
    (List.range 1000).map reconnectWarning ++ [.completed reconnectSummary])

/-- The entry of the run lacks its end. -/
theorem completed_not_retained :
    reconnectingRun.execution.success = true ∧
      .completed reconnectSummary ∈ reconnectingRun.execution.events ∧
      .completed reconnectSummary ∉ (retainedExecution reconnectingRun.execution).events := by
  refine ⟨rfl, List.mem_append_right _ List.mem_cons_self, ?_⟩
  have hkept : ((List.range 1000).map reconnectWarning).filterMap retainedEvent =
      (List.range 1000).map reconnectWarning := by
    rw [List.filterMap_map]
    exact congrFun List.filterMap_eq_map _
  have hretained : (retainedExecution reconnectingRun.execution).events =
      (List.range 1000).map reconnectWarning := by
    have hevents : reconnectingRun.execution.events =
        (List.range 1000).map reconnectWarning ++ [.completed reconnectSummary] := rfl
    rw [events_retainedExecution, hevents, List.filterMap_append, hkept]
    apply List.take_left'
    rw [List.length_map, List.length_range]
    rfl
  rw [hretained]
  intro hmem
  have ⟨_, _, heq⟩ := List.mem_map.mp hmem
  cases heq

end ApiVoy.Gateway
