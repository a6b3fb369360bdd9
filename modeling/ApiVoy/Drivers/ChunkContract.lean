/-
# How a run closes its response

The engine puts the body of a response together from the chunks of a driver, and a host cuts
its preview at the last one. Neither looks behind that chunk, so a driver that goes on reporting
there, or ends without one, leaves them with a response that is not the one the peer has sent.

The loops of a driver only report chunks that are not the last one, whatever the peer does; the
last one stands at a single place, and what follows it there is the summary. So the contract is
a matter of what stays open.
-/

import ApiVoy.Drivers.Http
import ApiVoy.Drivers.RedisSetup
import ApiVoy.Drivers.Sql
import ApiVoy.Drivers.Sse
import ApiVoy.Drivers.Tcp
import ApiVoy.Drivers.WebSocket
import ApiVoy.Engine.Run

namespace ApiVoy.Drivers

open Foundation Domain Engine

/-- One chunk closes the response and is what scripts and assertions are handed of it, no chunk
follows it, and one summary does. -/
def ChunkContract (events : List ExecutionEvent) : Prop :=
  ∃ before contentType size preview data after,
    events = before ++ .responseChunk contentType size preview data true :: after ∧
      before.any Event.closes = false ∧ after.any Event.isChunk = false ∧
      after.countP Event.isCompleted = 1 ∧ teeBody events = preview.getD ""

/-- The preview of a chunk that closes a response, for the engine to keep. -/
def closingPreview : ExecutionEvent → Option String
  | .responseChunk _ _ (some preview) _ true => some preview
  | _ => none

theorem closingPreview_eq_none {events : List ExecutionEvent}
    (h : ∀ event ∈ events, ¬(Event.isChunk event = true ∧ Event.closes event = true)) :
    events.reverse.findSome? closingPreview = none := by
  refine List.findSome?_eq_none_iff.mpr fun event hevent => ?_
  have hopen := h event (List.mem_reverse.mp hevent)
  unfold closingPreview
  split
  · exact absurd ⟨rfl, rfl⟩ hopen
  · rfl

theorem teeBody_closed {before after : List ExecutionEvent}
    {contentType preview data : Option String} {size : UInt64}
    (hbefore : before.any Event.closes = false) (hafter : after.any Event.isChunk = false) :
    teeBody (before ++ .responseChunk contentType size preview data true :: after) =
      preview.getD "" := by
  have hlater := closingPreview_eq_none fun event hevent h =>
    List.any_eq_false.mp hafter event hevent h.1
  have hearlier := closingPreview_eq_none fun event hevent h =>
    List.any_eq_false.mp hbefore event hevent h.2
  change (List.findSome? closingPreview (_ ++ _ :: after).reverse).getD "" = _
  rw [List.reverse_append, List.reverse_cons, List.findSome?_append, List.findSome?_append,
    hlater, hearlier]
  cases preview <;> rfl

section Rules

variable {π α : Type}

/-- The response stays open. -/
def StaysOpen (m : DriverM π α) : Prop :=
  Fallible.Maintains (fun session => session.events.any Event.closes = false) m

theorem StaysOpen.emit {event : ExecutionEvent} (h : Event.closes event = false) :
    StaysOpen (emit event : DriverM π Unit) := by
  intro session hopen
  simp [hopen, h]

theorem Quiet.staysOpen {m : DriverM π α} (hm : Quiet m) : StaysOpen m := by
  intro session hopen
  rwa [hm.events]

/-- A run that ends well has closed an open response. -/
def Completes (m : DriverM π ExecutionSummary) : Prop :=
  ∀ session summary session', session.events.any Event.closes = false →
    m.run session = (.ok summary, session') → ChunkContract session'.events

namespace Completes

theorem bind {m : DriverM π α} {f : α → DriverM π ExecutionSummary} (hm : StaysOpen m)
    (hf : ∀ a, Completes (f a)) : Completes (m >>= f) := by
  intro session summary session' hopen hrun
  obtain ⟨a, session₁, hfirst, hrest⟩ := Fallible.run_bind_eq_ok_iff.mp hrun
  have hopen₁ := hm session hopen
  rw [hfirst] at hopen₁
  exact hf a session₁ summary session' hopen₁ hrest

theorem fail (e : DriverError) : Completes (Fallible.fail e : DriverM π ExecutionSummary) :=
  fun _ _ _ _ hrun => by cases hrun

theorem ite {c : Prop} [Decidable c] {m n : DriverM π ExecutionSummary} (hm : Completes m)
    (hn : Completes n) : Completes (if c then m else n) := by
  split
  · exact hm
  · exact hn

variable {contentType preview data : Option String}

/-- The last chunk, and what is reported behind it. -/
theorem of_reports {m : DriverM π ExecutionSummary} {size : UInt64} {after : List ExecutionEvent}
    {summary : ExecutionSummary}
    (h : Reports m (.responseChunk contentType size preview data true :: after) (.ok summary))
    (hchunks : after.any Event.isChunk = false) (hsummary : after.countP Event.isCompleted = 1) :
    Completes m := by
  intro session found session' hopen hrun
  rw [h] at hrun
  cases hrun
  exact ⟨_, _, _, _, _, _, rfl, hopen, hchunks, hsummary, teeBody_closed hopen hchunks⟩

/-- The last chunk and the summary. -/
theorem emit {size : UInt64} (summary : ExecutionSummary) :
    Completes (Drivers.emit (.responseChunk contentType size preview data true) >>= fun _ =>
      Drivers.emit (.completed summary) >>= fun _ => pure summary : DriverM π ExecutionSummary) :=
  of_reports ((Reports.emit _).bind ((Reports.emit _).bind (Reports.pure _))) rfl rfl

end Completes

end Rules

variable {codecs : Codecs} {α : Type} {request : RequestEnvelope}

/-! ## HTTP -/

namespace Http

theorem staysOpen_cancel (reason : String) : StaysOpen (cancel reason : HttpM α) :=
  (StaysOpen.emit rfl).bind fun _ => .fail _

theorem staysOpen_tryOnce (build : Except DriverError HttpAttempt) : StaysOpen (tryOnce build) :=
  ((Quiet.ofExcept build).bind fun _ => Quiet.askPeer _).staysOpen

variable (policy : RetryPolicy)

theorem staysOpen_backoff : StaysOpen (backoff policy) := by
  refine .ite ?_ (.pure ())
  refine (Quiet.askPeer _).staysOpen.bind fun _ => ?_
  exact .ite (staysOpen_cancel _) (.pure ())

theorem staysOpen_attemptLoop (build : Except DriverError HttpAttempt) (left : Nat) :
    StaysOpen (attemptLoop policy build left) := by
  induction left with
  | zero =>
    refine (staysOpen_tryOnce build).bind fun reply => ?_
    cases reply with
    | cancelled => exact staysOpen_cancel _
    | answered response => exact .pure response
    | failed error => exact .fail _
  | succ left ih =>
    have hretry (cause : String) (attempt : Nat) : StaysOpen (do
        emit (retryWarning cause attempt)
        backoff policy
        attemptLoop policy build left) :=
      (StaysOpen.emit rfl).bind fun _ => (staysOpen_backoff policy).bind fun _ => ih
    refine (staysOpen_tryOnce build).bind fun reply => ?_
    cases reply with
    | cancelled => exact staysOpen_cancel _
    | answered response => exact .ite (hretry _ _) (.pure _)
    | failed error => exact hretry _ _

theorem staysOpen_receiveLoop (contentType : Option String) (items : List BodyItem)
    (preview : String) (received : Nat) :
    StaysOpen (receiveLoop codecs contentType items preview received) := by
  induction items generalizing preview received with
  | nil => exact .pure _
  | cons item items ih =>
    cases item with
    | chunk chunk => exact (StaysOpen.emit rfl).bind fun _ => ih _ _
    | failed message => exact .fail _
    | cancelled => exact staysOpen_cancel _

theorem completes_receive (info : RunInfo) (response : WebResponse) :
    Completes (receive codecs info request response) :=
  .bind (StaysOpen.emit rfl) fun _ => .bind (StaysOpen.emit rfl) fun _ =>
    .bind (staysOpen_receiveLoop _ _ _ _) fun _ => .of_reports ((Reports.emit _).bind
      ((Reports.emit _).bind ((Reports.emit _).bind (Reports.pure _)))) rfl rfl

theorem completes_execute (library : HttpLibrary) (info : RunInfo) :
    Completes (execute codecs library info request) := by
  refine .bind (Quiet.ofExcept _).staysOpen fun _ => .bind (StaysOpen.emit rfl) fun _ =>
    .bind (Quiet.ofExcept _).staysOpen fun _ => .bind (Quiet.ofExcept _).staysOpen fun _ =>
    .bind (Quiet.ofExcept _).staysOpen fun _ => .bind (Quiet.askPeer _).staysOpen fun _ => ?_
  exact .bind (staysOpen_attemptLoop _ _ _) fun response => completes_receive info response

end Http

/-! ## Server-sent events -/

namespace Sse

theorem carries_open : Carries fun session => session.events.any Event.closes = false where
  emit _ h := StaysOpen.emit h
  send _ := (Quiet.askPeer _).staysOpen
  wait _ := (Quiet.askPeer _).staysOpen

theorem completes_execute (info : RunInfo) : Completes (execute codecs info request) :=
  .bind (Quiet.ofExcept _).staysOpen fun _ => .bind (StaysOpen.emit rfl) fun _ =>
    .bind (carries_open.connectLoop _ _ _ _ _) fun _ => .emit _

end Sse

/-! ## Redis -/

namespace Redis

/-- While replies are awaited nothing but reading happens. -/
theorem staysOpen_replyLoop (setup commands : Nat) :
    StaysOpen (replyLoop codecs setup commands) := by
  intro session hopen
  rwa [(maintains_replyLoop codecs session setup commands session (.refl session)).events]

theorem quiet_writeCommands (commands : List (List String)) : Quiet (writeCommands commands) := by
  refine (Quiet.askPeer _).bind fun outcome => ?_
  cases outcome with
  | sent => exact .pure ()
  | failed | cancelled => exact .fail _

theorem completes_execute (info : RunInfo) : Completes (execute codecs info request) := by
  refine .bind (Quiet.ofExcept _).staysOpen fun _ => .bind (Quiet.ofExcept _).staysOpen fun _ =>
    .bind (StaysOpen.emit rfl) fun _ => .bind (fun _ hopen => hopen) fun _ =>
    .bind (quiet_writeCommands _).staysOpen fun _ => ?_
  exact .bind (StaysOpen.emit rfl) fun _ => .bind (StaysOpen.emit rfl) fun _ =>
    .bind (staysOpen_replyLoop _ _) fun _ => .emit _

end Redis

/-! ## TCP -/

namespace Tcp

variable (payload : SocketPayload)

theorem quiet_connectTcp : Quiet (connectTcp payload request) := by
  refine (Quiet.askPeer _).bind fun peer => (Quiet.ofExcept _).bind fun _ => ?_
  refine .ite (.pure ()) (.ite (.fail _) ?_)
  exact (Quiet.ofExcept _).bind fun _ => Quiet.ofExcept _

theorem quiet_writeLoop (bytes : Bytes) (left : Nat) : Quiet (writeLoop payload bytes left) := by
  induction left with
  | zero => exact .pure ()
  | succ left ih =>
    have hpause : Quiet pause := (Quiet.askPeer _).bind fun _ => .ite (.fail _) (.pure ())
    refine Quiet.bind ((Quiet.askPeer _).bind fun outcome => ?_) fun _ =>
      .ite (hpause.bind fun _ => ih) ih
    cases outcome with
    | ok => exact .pure ()
    | error message => exact .fail _

theorem staysOpen_receiveWithin (rounds : Nat) (received : Bytes) :
    StaysOpen (receiveWithin codecs payload rounds received) := by
  induction rounds generalizing received with
  | zero => exact .pure _
  | succ rounds ih =>
    refine (Quiet.askPeer _).staysOpen.bind fun arrival => ?_
    rcases arrival with (⟨⟩ | ⟨byte, bytes⟩) | message | _ | _
    · exact .pure _
    · exact (StaysOpen.emit rfl).bind fun _ =>
        .ite (.pure _) (ih _)
    · exact .fail _
    · exact .pure _
    · exact .fail _

theorem completes_transfer (info : RunInfo) (payload : SocketPayload) (outgoing : Bytes) :
    Completes (transfer codecs info request payload outgoing) := by
  refine .bind (StaysOpen.emit rfl) fun _ => .bind (quiet_connectTcp _).staysOpen fun _ =>
    .bind (quiet_writeLoop _ _ _).staysOpen fun _ => ?_
  exact .bind (StaysOpen.emit rfl) fun _ => .bind (StaysOpen.emit rfl) fun _ =>
    .bind (fun session => staysOpen_receiveWithin payload _ [] session) fun _ => .emit _

theorem completes_execute (info : RunInfo) :
    ∀ run ∈ execute codecs info request, Completes run := by
  intro run hrun
  rw [execute, Option.mem_def] at hrun
  split at hrun
  · cases hrun
    exact .fail _
  · obtain ⟨decoded, -, rfl⟩ := Option.map_eq_some_iff.mp hrun
    exact .bind (Quiet.ofExcept _).staysOpen fun _ => completes_transfer info _ _
  · cases hrun
    exact .fail _

end Tcp

/-! ## SQL -/

namespace Sql

theorem quiet_answered {answer : Database → Except String Unit × Database} :
    Quiet (do
      match ← askPeer answer with
      | .ok () => return ()
      | .error message => Fallible.fail (.protocol message) : SqlM Unit) := by
  refine (Quiet.askPeer _).bind fun answer => ?_
  cases answer with
  | ok => exact .pure ()
  | error message => exact .fail _

theorem quiet_connect : Quiet connect := by
  refine (Quiet.askPeer _).bind fun outcome => ?_
  cases outcome with
  | connected => exact .pure ()
  | failed | timedOut | cancelled => exact .fail _

theorem quiet_race (payload : SqlRequest) : Quiet (race codecs payload) := by
  refine (Quiet.askPeer _).bind fun outcome => ?_
  cases outcome with
  | some outcome => exact .pure _
  | none =>
    refine (Quiet.askPeer _).bind fun interruption => ?_
    rcases interruption with _ | ⟨polls, _ | _⟩ <;> first | exact .pure _ | exact .fail _

/-- With or without the bracket of a transaction. -/
theorem completes_bracketed {c : Prop} [Decidable c] {command : Command}
    {answer : Database → Except String Unit} {next : Unit → SqlM ExecutionSummary}
    (hnext : ∀ done, Completes (next done)) :
    Completes (if c then send command answer >>= next else next ()) :=
  .ite (.bind (Quiet.staysOpen quiet_answered) hnext) (hnext ())

theorem completes_execute {Url : Type} (urls : UrlLibrary Url) (info : RunInfo) :
    Completes (execute codecs urls info request) := by
  refine .bind (Quiet.ofExcept _).staysOpen fun payload => .bind (StaysOpen.emit rfl) fun _ =>
    .bind quiet_connect.staysOpen fun _ => .bind (Quiet.staysOpen quiet_answered) fun _ =>
    completes_bracketed fun _ => .bind (StaysOpen.emit rfl) fun _ =>
    .bind (StaysOpen.emit rfl) fun _ => .bind (quiet_race _).staysOpen fun outcome => ?_
  cases outcome with
  | ok value => exact completes_bracketed fun _ => .emit _
  | error e =>
    exact .ite (.bind (.ignore (Quiet.staysOpen quiet_answered)) fun _ =>
      .fail e) (.fail e)

end Sql

/-! ## WebSocket -/

namespace WebSocket

theorem quiet_sendFrame (frame : Frame) : Quiet (sendFrame frame) := by
  refine (Quiet.askPeer _).bind fun outcome => ?_
  cases outcome with
  | ok => exact .pure ()
  | error e => exact .fail _

variable (messages : List WebSocketMessage)

theorem quiet_sendMessages : Quiet (sendMessages codecs messages) := by
  induction messages with
  | nil => exact .pure ()
  | cons message messages ih =>
    exact (Quiet.ofExcept _).bind fun frame => (quiet_sendFrame frame).bind fun _ => ih

theorem staysOpen_receiveLoop (limit : Nat) (arrivals : List Arrival) (bytes frames : Nat) :
    StaysOpen (receiveLoop codecs limit arrivals bytes frames) := by
  induction arrivals generalizing bytes frames with
  | nil => exact .pure _
  | cons arrival arrivals ih =>
    refine .ite ?_ (.pure _)
    cases arrival with
    | cancelled => exact .fail _
    | ended | failed => exact .pure _
    | frame frame =>
      refine (Quiet.askPeer _).staysOpen.bind fun _ => ?_
      cases frame with
      | text | binary => exact (StaysOpen.emit rfl).bind fun _ => ih _ _
      | ping => exact (quiet_sendFrame _).staysOpen.bind fun _ =>
          (StaysOpen.emit rfl).bind fun _ => ih _ _
      | close => exact .pure _
      | pong | raw => exact ih _ _

theorem staysOpen_converse (limit : Nat) (connection : Connection) (bytes frames : Nat) :
    StaysOpen (converse codecs messages limit connection bytes frames) :=
  (StaysOpen.emit rfl).bind fun _ => (quiet_sendMessages _).staysOpen.bind fun _ =>
    (StaysOpen.emit rfl).bind fun _ => staysOpen_receiveLoop _ _ _ _

theorem staysOpen_connectLoop (payload : WebSocketPayload) (left bytes frames : Nat) :
    StaysOpen (connectLoop codecs payload left bytes frames) := by
  induction left generalizing bytes frames with
  | zero =>
    refine (Quiet.askPeer _).staysOpen.bind fun outcome => ?_
    cases outcome with
    | opened connection =>
      exact (staysOpen_converse _ _ _ _ _).bind fun _ => .pure _
    | failed | cancelled => exact .fail _
  | succ left ih =>
    have hagain (warning : String) (count bytes frames : Nat) : StaysOpen (do
        emit (reconnectWarning warning count payload.reconnectMax.toNat)
        delay
        connectLoop codecs payload left bytes frames) :=
      (StaysOpen.emit rfl).bind fun _ => .bind
        ((Quiet.askPeer _).bind fun _ => .ite (.fail _) (.pure ())).staysOpen fun _ => ih _ _
    refine (Quiet.askPeer _).staysOpen.bind fun outcome => ?_
    cases outcome with
    | opened connection =>
      exact (staysOpen_converse _ _ _ _ _).bind fun _ =>
        .ite (.pure _) (hagain _ _ _ _)
    | failed message => exact hagain _ _ _ _
    | cancelled => exact .fail _

theorem completes_execute (library : WebSocketLibrary) (info : RunInfo) :
    Completes (execute codecs library info request) :=
  .bind (Quiet.ofExcept _).staysOpen fun _ => .bind (Quiet.ofExcept _).staysOpen fun _ =>
    .bind (StaysOpen.emit rfl) fun _ => .bind (staysOpen_connectLoop _ _ _ _) fun _ =>
    .emit _

end WebSocket

/-! ## The contract -/

/-- Whatever the request and the peer, a run that ends well closes its response with one last
chunk, reports no chunk behind it, and one summary. -/
theorem responses_closed (codecs : Codecs) (info : RunInfo) (request : RequestEnvelope) :
    (∀ library, Completes (Http.execute codecs library info request)) ∧
      Completes (Sse.execute codecs info request) ∧
      Completes (Redis.execute codecs info request) ∧
      (∀ run ∈ Tcp.execute codecs info request, Completes run) ∧
      (∀ urls : Sql.UrlLibrary String, Completes (Sql.execute codecs urls info request)) ∧
      ∀ library, Completes (WebSocket.execute codecs library info request) :=
  ⟨fun _ => Http.completes_execute _ _, Sse.completes_execute _, Redis.completes_execute _,
    Tcp.completes_execute _, fun _ => Sql.completes_execute _ _,
    fun _ => WebSocket.completes_execute _ _⟩

/-- A line that comes in two reads. -/
theorem responses_closed_line : ∃ run summary session',
    Tcp.execute Tcp.lineCodecs Tcp.socketRun (Tcp.socketRequest Tcp.linePayload) = some run ∧
      run.run (Tcp.serving [utf8 "ok\r", utf8 "\n"]) = (.ok summary, session') ∧
      ChunkContract session'.events := by
  have hreachable : Tcp.Reachable (Tcp.socketRequest Tcp.linePayload) Tcp.linePayload
      [utf8 "ok\r", utf8 "\n"] (Tcp.serving [utf8 "ok\r", utf8 "\n"]).peer :=
    Tcp.reachable_serving rfl rfl
  obtain ⟨run, summary, session', hexecute, hrun, -⟩ :=
    Tcp.execute_of_reachable Tcp.lineCodecs Tcp.socketRun hreachable (by decide)
  exact ⟨run, summary, session', hexecute, hrun,
    (responses_closed Tcp.lineCodecs Tcp.socketRun _).2.2.2.1 run hexecute _ _ _ rfl hrun⟩

end ApiVoy.Drivers
