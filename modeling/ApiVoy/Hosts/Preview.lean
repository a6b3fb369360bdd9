/-
# The preview of the web client

The web client reads the stream of an execution to its end. For a text response it then
asks for the stored body and takes it for the preview; when there is no body in the store
it keeps the preview that the stream has had. The host closes the stream before it writes
the record, so the request for the body may come before the body is there.
-/

import ApiVoy.Foundation.Text
import ApiVoy.Hosts.ForwardingAccounts

namespace ApiVoy.Hosts

open Foundation Domain Engine

/-! ## What the client keeps of the stream -/

/-- The preview of the last chunk that ends a response and has one. -/
def reduceCompletedResponsePreview (current : Option String) : ExecutionEvent → Option String
  | .responseChunk _ _ (some preview) _ true => some preview
  | _ => current

def lastResponseMeta (current : Option ResponseMeta) : ExecutionEvent → Option ResponseMeta
  | .responseMeta response => some response
  | _ => current

/-- What the client has read of the stream. -/
structure StreamView where
  summary : Option ExecutionSummary
  preview : Option String
  eventCount : Nat
  error : Option String
  assertions : List AssertionResultEvent
  responseMeta : Option ResponseMeta
  deriving DecidableEq

namespace StreamView

def new : StreamView := ⟨none, none, 0, none, [], none⟩

def take (view : StreamView) (event : ExecutionEvent) : StreamView where
  summary :=
    match event with
    | .completed summary => some summary
    | _ => view.summary
  preview := reduceCompletedResponsePreview view.preview event
  eventCount := view.eventCount + 1
  error :=
    match event with
    | .failed code message => some (code ++ ": " ++ message)
    | .cancelled reason => some (reason.getD "cancelled")
    | _ => view.error
  assertions :=
    match event with
    | .assertionResult result => view.assertions ++ [result]
    | _ => view.assertions
  responseMeta := lastResponseMeta view.responseMeta event

def takeAll (view : StreamView) (events : List ExecutionEvent) : StreamView :=
  events.foldl take view

end StreamView

/-- Does the content type stand for a text? -/
def isTextBody (responseMeta : Option ResponseMeta) : Bool :=
  let contentType := (((responseMeta.bind ResponseMeta.contentType).getD "").toList).map Char.toLower
  "text/".toList.isPrefixOf contentType ||
    ["json", "xml", "javascript", "x-www-form-urlencoded"].any
      fun word => occursIn word.toList contentType

/-- The text of a body: a byte order mark is not part of it. -/
def bodyText (bytes : Bytes) : String :=
  match bytes with
  | 0xEF :: 0xBB :: 0xBF :: rest => fromUtf8Lossy rest
  | _ => fromUtf8Lossy bytes

/-- What the client knows of the execution besides its stream. -/
structure ExecutionCall where
  executionId : ExecutionId
  requestId : RequestId
  protocolId : String
  now : Timestamp

structure HttpRunResult where
  summary : ExecutionSummary
  eventCount : Nat
  preview : Option String
  error : Option String
  executionId : ExecutionId
  assertions : List AssertionResultEvent
  responseMeta : Option ResponseMeta
  deriving DecidableEq

/-- The result of a run; a stream without a summary gets one. -/
def StreamView.result (view : StreamView) (call : ExecutionCall) (preview : Option String) :
    HttpRunResult :=
  match view.summary with
  | some summary =>
    ⟨summary, view.eventCount, preview, view.error, call.executionId, view.assertions,
      view.responseMeta⟩
  | none =>
    { summary :=
        { executionId := call.executionId
          requestId := call.requestId
          protocolId := call.protocolId
          state := if view.error.any (· ≠ "") = true then .failed else .completed
          startedAt := call.now
          finishedAt := call.now
          durationMs := 0
          bytesReceived := 0
          status := none }
      eventCount := view.eventCount
      preview := preview
      error := some (view.error.getD "execution finished without summary")
      executionId := call.executionId
      assertions := view.assertions
      responseMeta := view.responseMeta }

/-! ## The client and the host -/

inductive ClientPhase where
  | reading (view : StreamView)
  /-- At the end of the stream. -/
  | fetching (view : StreamView)
  | answered (result : HttpRunResult)
  deriving DecidableEq

structure PreviewSession where
  relay : Relay
  client : ClientPhase

inductive PreviewAction where
  | task (task : RelayTask)
  | insert
  | openStream
  | read
  | fetch
  deriving DecidableEq

section Sessions

variable (decode : String → Option Bytes) (run : EngineRun) (stores storesBlob : Bool)
variable (call : ExecutionCall)

/-- The body that the store has for the execution: there is one once the record of a task
that has returned is written, if any byte was kept and the store has taken them. -/
def Relay.historyBody (relay : Relay) : Option Bytes :=
  if relay.recorded = true then
    match run.result with
    | .returned _ =>
      if relay.collected.responseBytes = [] ∨ storesBlob = false then none
      else some relay.collected.responseBytes
    | .failed _ | .panicked _ => none
  else none

/-- The preview that a client has after it has asked for the body of a text. -/
def fetchedPreview (view : StreamView) (body : Option Bytes) : Option String :=
  if isTextBody view.responseMeta = true then
    match body with
    | some bytes => some (bodyText bytes)
    | none => view.preview
  else view.preview

def previewStep (action : PreviewAction) (session : PreviewSession) : Option PreviewSession :=
  match action, session.client with
  | .task task, client =>
    (relayStep decode run stores (.task task) session.relay).map (⟨·, client⟩)
  | .insert, client => (relayStep decode run stores .insert session.relay).map (⟨·, client⟩)
  | .openStream, client =>
    (relayStep decode run stores .openStream session.relay).map (⟨·, client⟩)
  | .read, .reading view =>
    (relayStep decode run stores .receive session.relay).map fun relay =>
      match session.relay.sse.items with
      | event :: _ => ⟨relay, .reading (view.take event)⟩
      | [] => ⟨relay, .fetching view⟩
  | .fetch, .fetching view =>
    let body := session.relay.historyBody run storesBlob
    some ⟨session.relay, .answered (view.result call (fetchedPreview view body))⟩
  | _, _ => none

def PreviewSession.new : PreviewSession := ⟨Relay.new run, .reading .new⟩

end Sessions

/-! ## The whole stream -/

end ApiVoy.Hosts

namespace ApiVoy.Engine.EngineRun

open Foundation Domain Hosts

/-- The preview that the events of a run come to. -/
def streamPreview (run : EngineRun) : Option String :=
  run.events.foldl reduceCompletedResponsePreview none

def isText (run : EngineRun) : Bool := isTextBody (run.events.foldl lastResponseMeta none)

/-- The body that the store has in the end. -/
def body (decode : String → Option Bytes) (storesBlob : Bool) (run : EngineRun) : Option Bytes :=
  match run.result with
  | .returned _ =>
    if (run.kept decode).responseBytes = [] ∨ storesBlob = false then none
    else some (run.kept decode).responseBytes
  | .failed _ | .panicked _ => none

end ApiVoy.Engine.EngineRun

namespace ApiVoy.Hosts

open Foundation Domain Engine

section Streams

variable {decode : String → Option Bytes} {run : EngineRun}

variable (view : StreamView)

theorem takeAll_preview (events : List ExecutionEvent) :
    (view.takeAll events).preview = events.foldl reduceCompletedResponsePreview view.preview := by
  induction events generalizing view with
  | nil => rfl
  | cons event rest ih => exact ih (view.take event)

theorem takeAll_responseMeta (events : List ExecutionEvent) :
    (view.takeAll events).responseMeta = events.foldl lastResponseMeta view.responseMeta := by
  induction events generalizing view with
  | nil => rfl
  | cons event rest ih => exact ih (view.take event)

/-- What is computed from the stream is computed from the events of the run when it does
not use the bytes and the events that the host adds. -/
theorem foldl_streamed {β : Type} (f : β → ExecutionEvent → β) (b : β)
    (hdata : ∀ b event, f b (withoutData event) = f b event)
    (hwarning : ∀ b code message, f b (.warning code message) = b)
    (hfailed : ∀ b code message, f b (.failed code message) = b)
    (hstate : ∀ b state phase, f b (.stateChanged state phase) = b) :
    (run.streamed decode).foldl f b = run.events.foldl f b := by
  have hreport : ∀ b, run.result.report.foldl f b = b := by
    intro b
    cases run.result with
    | returned _ | failed _ => rfl
    | panicked joinError =>
      simp only [TaskResult.report, panicEvents, List.foldl_cons, List.foldl_nil, hfailed, hstate]
  have hclosing : ∀ b, (run.closing decode).foldl f b = b := by
    intro b
    rw [EngineRun.closing, List.foldl_append, hreport]
    split
    · exact hwarning _ _ _
    · rfl
  rw [EngineRun.streamed, List.foldl_append, hclosing, List.foldl_map]
  exact congrArg (fun g => run.events.foldl g b) (funext fun b => funext fun event => hdata b event)

theorem preview_of_streamed :
    (StreamView.new.takeAll (run.streamed decode)).preview = run.streamPreview := by
  rw [takeAll_preview]
  apply foldl_streamed
  · intro current event
    cases event with
    | responseChunk _ _ preview _ done => cases preview <;> cases done <;> rfl
    | stateChanged _ _ | log _ _ | variablesExtracted _ | metric _ | responseMeta _
    | assertionResult _ | warning _ _ | completed _ | failed _ _ | cancelled _ => rfl
  · exact fun _ _ _ => rfl
  · exact fun _ _ _ => rfl
  · exact fun _ _ _ => rfl

theorem isTextBody_of_streamed :
    isTextBody (StreamView.new.takeAll (run.streamed decode)).responseMeta = run.isText := by
  rw [takeAll_responseMeta, foldl_streamed]
  · rfl
  · intro current event
    cases event <;> rfl
  · exact fun _ _ _ => rfl
  · exact fun _ _ _ => rfl
  · exact fun _ _ _ => rfl

end Streams

/-! ## The sessions -/

section Previews

variable {decode : String → Option Bytes} {run : EngineRun} {stores storesBlob : Bool}
variable {call : ExecutionCall} {session session' fetched later : PreviewSession} {relay : Relay}

/-- The store has the body of the run as soon as it has the record. -/
theorem historyBody_of_accounted (h : relay.Accounted decode run stores) :
    relay.historyBody run storesBlob =
      if relay.recorded = true then run.body decode storesBlob else none := by
  by_cases hrecorded : relay.recorded = true
  · have hfinished : relay.forward = .finished := by
      have heq := h.recorded.symm.trans hrecorded
      rw [Bool.and_eq_true, decide_eq_true_eq] at heq
      exact heq.1
    have ⟨hclosed, hempty⟩ := h.closed (by rw [hfinished, ForwardPhase.isOver])
    have hkept : relay.collected = run.kept decode := by
      rw [← h.kept, Relay.rest_of_closed h.wired hclosed hempty run]
      rfl
    rw [Relay.historyBody, if_pos hrecorded, if_pos hrecorded, EngineRun.body, hkept]
  · rw [Relay.historyBody, if_neg hrecorded, if_neg hrecorded]

/-- What a client that reads has and will have is the whole stream. -/
structure Followed (decode : String → Option Bytes) (run : EngineRun) (stores : Bool)
    (session : PreviewSession) : Prop where
  accounted : session.relay.Accounted decode run stores
  reading : ∀ view, session.client = .reading view →
    session.relay.receiver ≠ .gone ∧
      view.takeAll (session.relay.onTheWay decode run) =
        StreamView.new.takeAll (run.streamed decode)
  fetching : ∀ view, session.client = .fetching view →
    view = StreamView.new.takeAll (run.streamed decode)

theorem followed_new : Followed decode run stores (PreviewSession.new run) where
  accounted := Relay.accounted_new
  reading view hview := by
    cases hview
    exact ⟨nofun, rfl⟩
  fetching view hview := by cases hview

/-- A step that the client takes no part in. -/
theorem Followed.of_relay {client : ClientPhase} {relay' : Relay}
    (h : Followed decode run stores ⟨relay, client⟩)
    (haccounted : relay'.Accounted decode run stores)
    (hreceiver : relay.receiver ≠ .gone → relay'.receiver ≠ .gone)
    (hway : relay.receiver ≠ .gone → relay'.onTheWay decode run = relay.onTheWay decode run) :
    Followed decode run stores ⟨relay', client⟩ where
  accounted := haccounted
  reading view hview := by
    have ⟨hthere, hall⟩ := h.reading view hview
    refine ⟨hreceiver hthere, ?_⟩
    show view.takeAll (relay'.onTheWay decode run) = _
    rw [hway hthere]
    exact hall
  fetching := h.fetching

theorem followed_step {action : PreviewAction} (h : Followed decode run stores session)
    (hstep : previewStep decode run stores storesBlob call action session = some session') :
    Followed decode run stores session' := by
  obtain ⟨relay, client⟩ := session
  cases action with
  | task task =>
    obtain ⟨relay', hrelay', heq⟩ := Option.map_eq_some_iff.mp hstep
    subst heq
    apply h.of_relay (accounted_step h.accounted hrelay')
    · intro hthere
      rw [receiver_of_task h.accounted hrelay']
      exact hthere
    · exact fun hthere => onTheWay_of_task h.accounted hthere hrelay'
  | insert | openStream =>
    obtain ⟨relay', hrelay', heq⟩ := Option.map_eq_some_iff.mp hstep
    subst heq
    have haccounted := accounted_step h.accounted hrelay'
    simp only [relayStep, Option.ite_none_right_eq_some, Option.some.injEq] at hrelay'
    obtain ⟨_, heq⟩ := hrelay'
    subst heq
    exact h.of_relay haccounted (by rintro _ ⟨⟩) (fun _ => rfl)
  | read =>
    cases client with
    | fetching _ | answered _ => cases hstep
    | reading view =>
      obtain ⟨relay', hrelay', heq⟩ := Option.map_eq_some_iff.mp hstep
      have haccounted := accounted_step h.accounted hrelay'
      obtain ⟨hthere, hall⟩ := h.reading view rfl
      obtain ⟨hreading, hcases⟩ := Relay.receiveStep_cases hrelay'
      rcases hcases with ⟨event, sse, hitems, hnext⟩ | ⟨hitems, hclosed, hnext⟩
      · -- the first event on the way is the one that is read
        have hfirst : relay.sse.items = event :: sse.items := hitems
        simp only [hfirst] at heq
        subst heq
        subst hnext
        exact {
          accounted := haccounted
          reading := by
            intro view' hview'
            cases hview'
            refine ⟨hthere, ?_⟩
            rw [← hall, Relay.onTheWay, Relay.onTheWay, hitems]
            rfl
          fetching := by
            intro view' hview'
            cases hview' }
      · have hnone : relay.sse.items = [] := hitems
        simp only [hnone] at heq
        subst heq
        exact {
          accounted := haccounted
          reading := by
            intro view' hview'
            cases hview'
          fetching := by
            intro view' hview'
            cases hview'
            have hahead : relay.ahead decode run = [] := by
              simp only [Relay.sseClosed, Bool.or_eq_true, decide_eq_true_eq] at hclosed
              rcases hclosed with hforward | hforward <;> rw [Relay.ahead, hforward]
            rw [← hall, Relay.onTheWay, hitems, hahead]
            rfl }
  | fetch =>
    cases client with
    | reading _ | answered _ => cases hstep
    | fetching view =>
      cases hstep
      exact {
        accounted := h.accounted
        reading := by
          intro view' hview'
          cases hview'
        fetching := by
          intro view' hview'
          cases hview' }

theorem followed_of_follows
    (h : Follows (previewStep decode run stores storesBlob call) (fun _ _ => True)
      (PreviewSession.new run) session) : Followed decode run stores session := by
  apply h.invariant followed_new
  intro before action after hbefore _ hstep
  exact followed_step hbefore hstep

theorem answered_of_follows {result : HttpRunResult} (hresult : session.client = .answered result)
    (h : Follows (previewStep decode run stores storesBlob call) (fun _ _ => True)
      session later) : later.client = .answered result := by
  apply h.invariant hresult
  intro before action after hbefore _ hstep
  have ⟨relay, client⟩ := before
  cases hbefore
  cases action with
  | task _ | insert | openStream =>
    have ⟨_, _, heq⟩ := Option.map_eq_some_iff.mp hstep
    rw [← heq]
  | read | fetch => cases hstep

theorem result_preview (view : StreamView) (preview : Option String) :
    (view.result call preview).preview = preview := by
  rw [StreamView.result]
  split <;> rfl

/-- In every run, the preview that the client answers with is the text of the body that the
host stores if and only if the response is a text and the record was written when the
client asked for the body, or the preview of the stream is this text already. -/
theorem preview_is_whole_iff {bytes : Bytes}
    (h : Follows (previewStep decode run stores storesBlob call) (fun _ _ => True)
      (PreviewSession.new run) session)
    (hfetch : previewStep decode run stores storesBlob call .fetch session = some fetched)
    (hlater : Follows (previewStep decode run stores storesBlob call) (fun _ _ => True)
      fetched later)
    (hbody : later.relay.historyBody run storesBlob = some bytes) :
    ∃ result, later.client = .answered result ∧
      (result.preview = some (bodyText bytes) ↔
        (run.isText = true ∧ session.relay.recorded = true) ∨
          run.streamPreview = some (bodyText bytes)) := by
  have hsession := followed_of_follows h
  have hend := followed_of_follows (Follows.trans (.step h .fetch trivial hfetch) hlater)
  have hstored : run.body decode storesBlob = some bytes := by
    rw [historyBody_of_accounted hend.accounted] at hbody
    split at hbody
    · exact hbody
    · cases hbody
  have ⟨relay, client⟩ := session
  cases client with
  | reading _ | answered _ => cases hfetch
  | fetching view =>
    have hview := hsession.fetching view rfl
    cases hfetch
    refine ⟨_, answered_of_follows rfl hlater, ?_⟩
    rw [result_preview, historyBody_of_accounted hsession.accounted, hview]
    simp only [fetchedPreview, isTextBody_of_streamed, preview_of_streamed, hstored]
    by_cases htext : run.isText = true
    · rw [if_pos htext]
      by_cases hrecorded : relay.recorded = true
      · simp [hrecorded, htext]
      · simp [hrecorded]
    · simp [htext]

end Previews

/-! ## One event stream -/

def ClientPhase.result? : ClientPhase → Option HttpRunResult
  | .answered result => some result
  | .reading _ | .fetching _ => none

theorem answered_of_result? {client : ClientPhase} {result : HttpRunResult}
    (h : client.result? = some result) : client = .answered result := by
  cases client with
  | answered _ => exact congrArg ClientPhase.answered (Option.some.inj h)
  | reading _ | fetching _ => cases h

/-- The bytes of the line that the event stream has. -/
def streamBytes : Bytes := utf8 "data: hi\n\n"

def decodeStream (text : String) : Option Bytes :=
  if text = "ZGF0YTogaGkKCg==" then some streamBytes else none

def streamSummary : ExecutionSummary where
  executionId := "e"
  requestId := "r"
  protocolId := "sse"
  state := .completed
  startedAt := "2024-01-01T00:00:00Z"
  finishedAt := "2024-01-01T00:00:01Z"
  durationMs := 1000
  bytesReceived := 10
  status := some 200

/-- The run of a request whose server sends one line and closes. -/
def streamRun : EngineRun :=
  .afterDriver [.stateChanged .running (some .resolve), .stateChanged .running (some .validate)]
    [.stateChanged .running (some .connect),
      .responseMeta ⟨some 200, some "OK", [], some "text/event-stream", none⟩,
      .stateChanged .running (some .transfer),
      .responseChunk (some "text/event-stream") 10 (some "data: hi\n\n")
        (some "ZGF0YTogaGkKCg==") false,
      .responseChunk (some "text/event-stream") 0 none none true, .completed streamSummary]
    [] (.returned streamSummary)

def streamCall : ExecutionCall := ⟨"e", "r", "sse", "2024-01-01T00:00:02Z"⟩

/-- All events are sent and read, and the stream is closed and at its end. -/
def readToTheEnd : List PreviewAction :=
  [PreviewAction.insert, .openStream] ++ List.replicate 10 (PreviewAction.task .engine) ++
    List.replicate 13 (PreviewAction.task .tee) ++ List.replicate 3 (PreviewAction.task .engine) ++
    List.replicate 19 (PreviewAction.task .forward) ++ List.replicate 9 PreviewAction.read

abbrev streamStep : PreviewAction → PreviewSession → Option PreviewSession :=
  previewStep decodeStream streamRun true true streamCall

/-- The client that asks for the body after the record is written answers with the text. -/
theorem preview_is_whole_of_late_fetch :
    ∃ session fetched, perform streamStep (readToTheEnd ++ [.task .forward])
        (PreviewSession.new streamRun) = some session ∧
      streamStep .fetch session = some fetched ∧
      ∃ result, fetched.client = .answered result ∧
        (result.preview = some (bodyText streamBytes) ↔
          (streamRun.isText = true ∧ session.relay.recorded = true) ∨
            streamRun.streamPreview = some (bodyText streamBytes)) := by
  have hrun : (perform streamStep (readToTheEnd ++ [.task .forward])
      (PreviewSession.new streamRun)).map (fun session =>
        (streamStep .fetch session).map fun fetched =>
          fetched.relay.historyBody streamRun true) = some (some (some streamBytes)) := by
    decide +kernel
  have ⟨session, hsession, heq⟩ := Option.map_eq_some_iff.mp hrun
  have ⟨fetched, hfetched, hbody⟩ := Option.map_eq_some_iff.mp heq
  exact ⟨session, fetched, hsession, hfetched,
    preview_is_whole_iff (follows_of_perform hsession) hfetched .refl hbody⟩

/-- The client asks for the body before the record is written and answers without a
preview; the text is in the store afterwards. -/
theorem early_fetch_has_no_preview :
    ∃ (session : PreviewSession) (result : HttpRunResult),
      Follows streamStep (fun _ _ => True) (PreviewSession.new streamRun) session ∧
      session.client = .answered result ∧
      session.relay.historyBody streamRun true = some streamBytes ∧
      result.summary = streamSummary ∧ result.error = none ∧
      result.preview ≠ some (bodyText streamBytes) := by
  have hrun : (perform streamStep (readToTheEnd ++ [.fetch, .task .forward])
      (PreviewSession.new streamRun)).map (fun session =>
        (session.client.result?.map fun result => (result.summary, result.error, result.preview),
          session.relay.historyBody streamRun true)) =
      some (some (streamSummary, none, none), some streamBytes) := by decide +kernel
  have ⟨session, hsession, heq⟩ := Option.map_eq_some_iff.mp hrun
  have ⟨hclient, hbody⟩ := Prod.mk.inj heq
  have ⟨result, hresult, hfields⟩ := Option.map_eq_some_iff.mp hclient
  simp only [Prod.mk.injEq] at hfields
  have ⟨hsummary, herror, hpreview⟩ := hfields
  refine ⟨session, result, follows_of_perform hsession, answered_of_result? hresult, hbody,
    hsummary, herror, ?_⟩
  rw [hpreview]
  exact nofun

end ApiVoy.Hosts
