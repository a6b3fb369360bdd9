/-
# The SSE driver

The driver reads an event stream and opens it again when it ends. Of the events it keeps the
last id, which it sends when it connects again, and the time that it waits before. It decodes
every chunk on its own, and the text that is left of one connection stays in the buffer for
the next one.
-/

import ApiVoy.Drivers.Session
import ApiVoy.Foundation.Lines
import ApiVoy.Foundation.Numerals
import ApiVoy.Foundation.Text

namespace ApiVoy.Drivers.Sse

open Foundation Domain Engine

/-! ## Control fields -/

/-- What the events of a stream tell a client that connects again. -/
structure Control where
  lastEventId : Option String
  reconnectDelayMs : UInt64
  deriving DecidableEq

/-- The control fields so far, and the text that no event has been made of. -/
structure Parser where
  buffer : List Char
  control : Control

def consumeLine (control : Control) (line : List Char) : Control :=
  if "id:".toList.isPrefixOf line = true then
    let value := (line.drop 3).dropWhile isWhitespace
    if '\x00' ∈ value then control else { control with lastEventId := some (String.ofList value) }
  else if "retry:".toList.isPrefixOf line = true then
    match parseU64 (trimChars (line.drop 6)) with
    | some value => { control with reconnectDelayMs := min value 60000 }
    | none => control
  else control

def consumeEvent (control : Control) (event : List Char) : Control :=
  (lines event).foldl consumeLine control

def consumeSseControlFields (parser : Parser) : Parser :=
  let drained := takeParagraph.drain (unixLines parser.buffer)
  ⟨drained.rest, drained.values.foldl consumeEvent parser.control⟩

/-- Take a chunk into the buffer. -/
def push (parser : Parser) (chunk : Bytes) : Parser :=
  consumeSseControlFields { parser with buffer := parser.buffer ++ decodeLossy chunk }

/-! ## Servers -/

/-- What comes of a request. -/
inductive Reply where
  | answered (response : WebResponse)
  | failed (message : String)
  | cancelled

structure Sent where
  target : String
  headers : List (String × String)
  deriving DecidableEq

/-- A server: its replies, which of the waits for it are cancelled, the requests that it has
got, and the times that the client has waited before it connected again. Behind the replies it
cannot be reached. -/
structure Server where
  replies : List Reply
  waits : List Bool
  requests : List Sent
  delays : List UInt64

abbrev SseM := DriverM Server

namespace Server

def send (sent : Sent) (server : Server) : Reply × Server :=
  (server.replies.headD (.failed "connection refused"),
    { server with replies := server.replies.tail, requests := server.requests ++ [sent] })

def wait (delay : UInt64) (server : Server) : Bool × Server :=
  (server.waits.headD false,
    { server with waits := server.waits.tail, delays := server.delays ++ [delay] })

end Server

/-! ## Runs -/

def rawOptions (payload : ProtocolPayload) : Except DriverError SsePayload :=
  match payload with
  | .sse payload => .ok payload
  | _ => .error (.validation "SSE payload must be a raw object")

def cancel {α : Type} (reason : String) : SseM α := do
  emit (.cancelled (some reason))
  Fallible.fail .cancelled

def sent (request : RequestEnvelope) (payload : SsePayload) (control : Control) : Sent where
  target := request.target
  headers := ("Accept", "text/event-stream") :: (payload.headers ++
    match control.lastEventId with
    | some value => [("Last-Event-ID", value)]
    | none => [])

def connect (sent : Sent) : SseM WebResponse := do
  match ← askPeer (Server.send sent) with
  | .answered response => return response
  | .failed message => Fallible.fail (.connection message)
  | .cancelled => cancel "user cancelled"

def responseMeta (response : WebResponse) : ExecutionEvent :=
  .responseMeta {
    status := some response.status
    statusText := response.reason
    headers := response.headers.map fun header => (header.1, header.2.getD "")
    contentType := response.contentType
    sizeHint := response.contentLength }

def isEventStream (contentType : Option String) : Bool :=
  occursIn "text/event-stream".toList ((contentType.getD "").toList.map Char.toLower)

section Receiving

variable (codecs : Codecs)

def dataChunk (contentType : Option String) (chunk : Bytes) : ExecutionEvent :=
  .responseChunk contentType (UInt64.ofNat chunk.length) (some (fromUtf8Lossy chunk))
    (some (codecs.encodeBase64 chunk)) false

/-- Read a connection to its end. -/
def receiveLoop (contentType : Option String) :
    List BodyItem → Parser → Nat → SseM (Parser × Nat)
  | [], parser, received => return (parser, received)
  | .cancelled :: _, _, _ => cancel "user cancelled"
  | .failed message :: _, _, _ => Fallible.fail (.protocol message)
  | .chunk chunk :: items, parser, received => do
    emit (dataChunk codecs contentType chunk)
    receiveLoop contentType items (push parser chunk) (received + chunk.length)

/-- Warn of a response of another type, and read it. -/
def receive (response : WebResponse) (parser : Parser) (received : Nat) : SseM (Parser × Nat) := do
  if isEventStream response.contentType = false then
    emit (.warning "sse_content_type" "response Content-Type is not text/event-stream")
  emit (running .transfer)
  receiveLoop codecs response.contentType response.items parser received

def answered (response : WebResponse) (parser : Parser) (received : Nat) :
    SseM (WebResponse × Parser × Nat) := do
  emit (responseMeta response)
  if 200 ≤ response.status.toNat ∧ response.status.toNat < 300 then do
    let (parser, received) ← receive codecs response parser received
    return (response, parser, received)
  else
    Fallible.fail (.protocol ("SSE endpoint returned HTTP " ++ toString response.status.toNat))

def connection (request : RequestEnvelope) (payload : SsePayload) (parser : Parser)
    (received : Nat) : SseM (WebResponse × Parser × Nat) := do
  let response ← connect (sent request payload parser.control)
  answered codecs response parser received

def reconnectWarning (count limit : Nat) (delay : UInt64) : ExecutionEvent :=
  .warning "sse_reconnect" ("SSE connection closed; reconnecting (" ++ toString count ++ "/" ++
    toString limit ++ ") after " ++ toString delay.toNat ++ "ms")

/-- Wait before the next connection. -/
def waitToReconnect (count limit : Nat) (delay : UInt64) : SseM Unit := do
  emit (reconnectWarning count limit delay)
  if (← askPeer (Server.wait delay)) = true then cancel "user cancelled during reconnect delay"
  else return ()

/-- Connect as often as is left after this connection. -/
def connectLoop (request : RequestEnvelope) (payload : SsePayload) :
    Nat → Parser → Nat → SseM (WebResponse × Nat)
  | 0, parser, received => do
    let (response, _, received) ← connection codecs request payload parser received
    return (response, received)
  | left + 1, parser, received => do
    let (_, parser, received) ← connection codecs request payload parser received
    waitToReconnect (payload.reconnectMax.toNat - left) payload.reconnectMax.toNat
      parser.control.reconnectDelayMs
    connectLoop request payload left parser received

end Receiving

def endChunk (contentType : Option String) : ExecutionEvent :=
  .responseChunk contentType 0 none none true

def report (info : RunInfo) (request : RequestEnvelope) (response : WebResponse) (received : Nat) :
    SseM ExecutionSummary := do
  emit (endChunk response.contentType)
  let summary := completedSummary info request "sse" received (some response.status)
  emit (.completed summary)
  return summary

/-- What the request says about the first connection. -/
def initial (payload : SsePayload) : Control := ⟨payload.lastEventId, payload.reconnectDelayMs⟩

def execute (codecs : Codecs) (info : RunInfo) (request : RequestEnvelope) :
    SseM ExecutionSummary := do
  let payload ← Session.ofExcept (rawOptions request.payload)
  emit (running .connect)
  let (response, received) ← connectLoop codecs request payload payload.reconnectMax.toNat
    ⟨[], initial payload⟩ 0
  report info request response received

/-! ## Chunks of a stream -/

/-- What a whole stream tells the client: an event that is not complete tells it nothing. -/
def settle (control : Control) (text : String) : Control :=
  (consumeSseControlFields ⟨text.toList, control⟩).control

/-- Whenever a chunk comes, no line end has come out of rewriting what the buffer holds, and
the chunk does not start inside a character. -/
def Within : Parser → List Bytes → Prop
  | _, [] => True
  | parser, chunk :: chunks =>
    Rewritten parser.buffer ∧ startsInside chunk = false ∧ Within (push parser chunk) chunks

variable {chunks : List Bytes} {parser : Parser}

theorem Within.startsInside (h : Within parser chunks) :
    ∀ chunk ∈ chunks, startsInside chunk = false := by
  induction chunks generalizing parser with
  | nil => exact fun _ hmem => by cases hmem
  | cons chunk chunks ih => exact List.forall_mem_cons.mpr ⟨h.2.1, ih h.2.2⟩

variable {control : Control} {text : List Char}

theorem push_consume (h : Rewritten (consumeSseControlFields ⟨text, control⟩).buffer)
    (chunk : Bytes) :
    push (consumeSseControlFields ⟨text, control⟩) chunk =
      consumeSseControlFields ⟨text ++ decodeLossy chunk, control⟩ := by
  rw [push, consumeSseControlFields, consumeSseControlFields, consumeSseControlFields]
  simp only
  rw [drain_unixLines_append text _ h, Drained.behind, List.foldl_append]

/-- Chunk by chunk the parser gets to where the whole text takes it. -/
theorem foldl_push (h : Within (consumeSseControlFields ⟨text, control⟩) chunks) :
    chunks.foldl push (consumeSseControlFields ⟨text, control⟩) =
      consumeSseControlFields ⟨text ++ chunks.flatMap decodeLossy, control⟩ := by
  induction chunks generalizing text with
  | nil => rw [List.flatMap_nil, List.append_nil, List.foldl_nil]
  | cons chunk chunks ih =>
    obtain ⟨hrewritten, -, hwithin⟩ := h
    rw [push_consume hrewritten] at hwithin
    rw [List.foldl_cons, push_consume hrewritten, ih hwithin, List.flatMap_cons,
      List.append_assoc]

/-- A connection on which a server sends an event stream in chunks. -/
structure Stream where
  response : WebResponse
  chunks : List Bytes
  text : String
  items : response.items = chunks.map .chunk
  accepted : 200 ≤ response.status.toNat ∧ response.status.toNat < 300
  whole : chunks.flatten = utf8 text

theorem control_foldl_push {stream : Stream} (hempty : parser.buffer = [])
    (h : Within parser stream.chunks) :
    (stream.chunks.foldl push parser).control = settle parser.control stream.text := by
  have hparser : parser = consumeSseControlFields ⟨[], parser.control⟩ := by
    rw [← hempty]
    cases parser with
    | mk buffer control =>
      cases hempty
      rfl
  have htext : stream.chunks.flatMap decodeLossy = stream.text.toList :=
    flatMap_decodeLossy stream.whole h.startsInside
  rw [hparser] at h
  conv_lhs => rw [hparser]
  rw [foldl_push h, List.nil_append, htext, settle]

/-- The connections are undisturbed: when each of them begins, nothing is left in the buffer
from the one before, and its chunks come within the conditions above. -/
def Undisturbed : Parser → List Stream → Prop
  | _, [] => True
  | parser, stream :: streams =>
    parser.buffer = [] ∧ Within parser stream.chunks ∧
      Undisturbed (stream.chunks.foldl push parser) streams

/-! ## Runs of the driver -/

/-- The server has got these requests, and the client has waited so. -/
def Recorded (requests : List Sent) (delays : List UInt64) (session : Session Server) : Prop :=
  requests <+: session.peer.requests ∧ delays <+: session.peer.delays

/-- Kept by all that happens before the end is reported: by events that close nothing, by
requests and by waiting. -/
structure Carries (I : Session Server → Prop) : Prop where
  emit : ∀ event, Event.closes event = false → Fallible.Maintains I (emit event)
  send : ∀ sent, Fallible.Maintains I (askPeer (Server.send sent))
  wait : ∀ delay, Fallible.Maintains I (askPeer (Server.wait delay))

theorem carries_recorded (requests : List Sent) (delays : List UInt64) :
    Carries (Recorded requests delays) where
  emit _ _ := fun _ h => h
  send _ := fun _ h => ⟨h.1.trans (List.prefix_append _ _), h.2⟩
  wait _ := fun _ h => ⟨h.1, h.2.trans (List.prefix_append _ _)⟩

namespace Carries

variable {I : Session Server → Prop} {codecs : Codecs} (h : Carries I)

include h

theorem cancel {α : Type} (reason : String) : Fallible.Maintains I (cancel reason : SseM α) :=
  .bind (h.emit _ rfl) fun _ => .fail _

theorem connect (sent : Sent) : Fallible.Maintains I (connect sent) := by
  refine .bind (h.send sent) fun reply => ?_
  cases reply with
  | answered response => exact .pure _
  | failed message => exact .fail _
  | cancelled => exact h.cancel _

theorem receiveLoop (contentType : Option String) (items : List BodyItem) (parser : Parser)
    (received : Nat) :
    Fallible.Maintains I (receiveLoop codecs contentType items parser received) := by
  induction items generalizing parser received with
  | nil => exact .pure _
  | cons item items ih =>
    cases item with
    | chunk bytes => exact .bind (h.emit _ rfl) fun _ => ih _ _
    | failed message => exact .fail _
    | cancelled => exact h.cancel _

variable (response : WebResponse)

theorem receive (parser : Parser) (received : Nat) :
    Fallible.Maintains I (receive codecs response parser received) := by
  have hrest := (h.emit (running .transfer) rfl).bind fun _ =>
    @receiveLoop I codecs h response.contentType response.items parser received
  exact .ite (.bind (h.emit _ rfl) fun _ => hrest) hrest

theorem answered (parser : Parser) (received : Nat) :
    Fallible.Maintains I (answered codecs response parser received) :=
  .bind (h.emit _ rfl) fun _ => .ite (.bind (h.receive _ _ _) fun _ => .pure _) (.fail _)

variable (request : RequestEnvelope)

theorem connection (payload : SsePayload) (parser : Parser) (received : Nat) :
    Fallible.Maintains I (connection codecs request payload parser received) :=
  .bind (h.connect _) fun _ => h.answered _ _ _

theorem waitToReconnect (count limit : Nat) (delay : UInt64) :
    Fallible.Maintains I (waitToReconnect count limit delay) :=
  .bind (h.emit _ rfl) fun _ => .bind (h.wait delay) fun _ => .ite (h.cancel _) (.pure _)

theorem connectLoop (payload : SsePayload) (left : Nat) (parser : Parser) (received : Nat) :
    Fallible.Maintains I (connectLoop codecs request payload left parser received) := by
  induction left generalizing parser received with
  | zero => exact .bind (h.connection _ _ _ _) fun _ => .pure _
  | succ left ih =>
    exact .bind (h.connection _ _ _ _) fun _ => .bind (h.waitToReconnect _ _ _) fun _ => ih _ _

end Carries

section Runs

variable {codecs : Codecs} {session : Session Server}

theorem receiveLoop_run (contentType : Option String) (chunks : List Bytes) (parser : Parser)
    (received : Nat) :
    ∃ received' session', (receiveLoop codecs contentType (chunks.map .chunk) parser received).run
        session = (.ok (chunks.foldl push parser, received'), session') ∧
      session'.peer = session.peer := by
  induction chunks generalizing parser received session with
  | nil => exact ⟨received, session, rfl, rfl⟩
  | cons chunk chunks ih =>
    rw [List.map_cons, receiveLoop, Fallible.run_bind, run_emit]
    exact @ih { session with events := session.events ++ [dataChunk codecs contentType chunk] }
      (push parser chunk) (received + chunk.length)

theorem receive_run (stream : Stream) (parser : Parser) (received : Nat) :
    ∃ received' session', (receive codecs stream.response parser received).run session =
        (.ok (stream.chunks.foldl push parser, received'), session') ∧
      session'.peer = session.peer := by
  rw [receive, stream.items]
  split
  · exact @receiveLoop_run codecs { session with events := session.events ++
      [.warning "sse_content_type" "response Content-Type is not text/event-stream"] ++
        [running .transfer] } stream.response.contentType stream.chunks parser received
  · exact @receiveLoop_run codecs { session with events := session.events ++ [running .transfer] }
      stream.response.contentType stream.chunks parser received

theorem connect_run {replies : List Reply} (sent : Sent)
    (hreplies : session.peer.replies = replies) :
    (askPeer (Server.send sent)).run session =
      (.ok (replies.headD (.failed "connection refused")), { session with peer := {
        session.peer with
          replies := replies.tail
          requests := session.peer.requests ++ [sent] } }) := by
  rw [run_askPeer, Server.send, hreplies]

/-- A connection takes the parser over its chunks, and the server has got its request. -/
theorem connection_run {stream : Stream} {later : List Reply} (request : RequestEnvelope)
    (payload : SsePayload) (parser : Parser) (received : Nat)
    (hreplies : session.peer.replies = .answered stream.response :: later) :
    ∃ received' session', (connection codecs request payload parser received).run session =
        (.ok (stream.response, stream.chunks.foldl push parser, received'), session') ∧
      session'.peer = { session.peer with
        replies := later
        requests := session.peer.requests ++ [sent request payload parser.control] } := by
  obtain ⟨received', session', hrun, hpeer⟩ := @receive_run codecs
    { peer := { session.peer with
        replies := later
        requests := session.peer.requests ++ [sent request payload parser.control] }
      events := session.events ++ [responseMeta stream.response] } stream parser received
  have hconnect : (connect (sent request payload parser.control)).run session =
      (.ok stream.response, { session with peer := { session.peer with
        replies := later
        requests := session.peer.requests ++ [sent request payload parser.control] } }) := by
    rw [connect, Fallible.run_bind_of_ok (connect_run _ hreplies)]
    rfl
  refine ⟨received', session', ?_, hpeer⟩
  rw [connection, Fallible.run_bind_of_ok hconnect, answered, Fallible.run_bind, run_emit]
  simp only
  rw [if_pos stream.accepted, Fallible.run_bind_of_ok hrun]
  rfl

theorem waitToReconnect_run (count limit : Nat) (delay : UInt64)
    (hwaits : session.peer.waits = []) :
    ∃ session', (waitToReconnect count limit delay).run session = (.ok (), session') ∧
      session'.peer = { session.peer with
        waits := []
        delays := session.peer.delays ++ [delay] } := by
  have hwait : session.peer.wait delay = (false, { session.peer with
      waits := []
      delays := session.peer.delays ++ [delay] }) := by
    rw [Server.wait, hwaits]
    rfl
  refine ⟨{ peer := { session.peer with
              waits := []
              delays := session.peer.delays ++ [delay] }
            events := session.events ++ [reconnectWarning count limit delay] }, ?_, rfl⟩
  rw [waitToReconnect, Fallible.run_bind, run_emit]
  simp only [Fallible.run_bind, run_askPeer, hwait]
  rfl

/-- A request is recorded whatever comes of it. -/
theorem recorded_connect (sent : Sent) :
    Recorded (session.peer.requests ++ [sent]) session.peer.delays
      ((connect sent).run session).2 := by
  have hsent : Recorded (session.peer.requests ++ [sent]) session.peer.delays
      { session with peer := (session.peer.send sent).2 } :=
    ⟨List.prefix_rfl, List.prefix_rfl⟩
  rw [connect, Fallible.run_bind, run_askPeer]
  simp only
  cases (session.peer.send sent).1 with
  | answered response => exact hsent
  | failed message => exact hsent
  | cancelled => exact (carries_recorded _ _).cancel _ _ hsent

theorem recorded_connection (request : RequestEnvelope) (payload : SsePayload)
    (parser : Parser) (received : Nat) :
    Recorded (session.peer.requests ++ [sent request payload parser.control]) session.peer.delays
      ((connection codecs request payload parser received).run session).2 := by
  have hconnect := @recorded_connect session (sent request payload parser.control)
  rw [connection, Fallible.run_bind]
  cases hrun : (connect (sent request payload parser.control)).run session with
  | mk result session' =>
    rw [hrun] at hconnect
    cases result with
    | error e => exact hconnect
    | ok response => exact (carries_recorded _ _).answered _ _ _ _ hconnect

theorem recorded_connectLoop (request : RequestEnvelope) (payload : SsePayload) (left : Nat)
    (parser : Parser) (received : Nat) :
    Recorded (session.peer.requests ++ [sent request payload parser.control]) session.peer.delays
      ((connectLoop codecs request payload left parser received).run session).2 := by
  have hconnection := @recorded_connection codecs session request payload parser received
  cases hrun : (connection codecs request payload parser received).run session with
  | mk result session' =>
    rw [hrun] at hconnection
    cases left with
    | zero =>
      rw [connectLoop, Fallible.run_bind, hrun]
      cases result with
      | error e => exact hconnection
      | ok found => exact hconnection
    | succ left =>
      rw [connectLoop, Fallible.run_bind, hrun]
      cases result with
      | error e => exact hconnection
      | ok found =>
        have hcarries := carries_recorded
        exact Fallible.Maintains.bind ((hcarries _ _).waitToReconnect _ _ _)
          (fun _ => (hcarries _ _).connectLoop _ _ _ _ _) _ hconnection

theorem map_scanl {α β γ : Type} (g : β → γ) (f : β → α → β) (b : β) (as : List α) :
    (as.scanl f b).map g = g b :: (as.scanl f b).tail.map g := by
  cases as with
  | nil => rw [List.scanl_nil]; rfl
  | cons a as => rw [List.scanl_cons]; rfl

/-- Every connection is asked for with what the streams before it tell the client. -/
theorem recorded_streams (request : RequestEnvelope) (payload : SsePayload)
    {streams : List Stream} {later : List Reply} {left : Nat} (hcount : streams.length ≤ left)
    {parser : Parser} (received : Nat) (hundisturbed : Undisturbed parser streams)
    (hreplies : session.peer.replies =
      (streams.map fun stream => .answered stream.response) ++ later)
    (hwaits : session.peer.waits = []) :
    Recorded
      (session.peer.requests ++ ((streams.map Stream.text).scanl settle parser.control).map
        (sent request payload))
      (session.peer.delays ++
        ((streams.map Stream.text).scanl settle parser.control).tail.map
          Control.reconnectDelayMs)
      ((connectLoop codecs request payload left parser received).run session).2 := by
  induction streams generalizing left parser received session with
  | nil =>
    have hfirst := @recorded_connectLoop codecs session request payload left parser received
    rw [List.map_nil, List.scanl_nil, List.tail_cons, List.map_nil, List.append_nil]
    exact hfirst
  | cons stream streams ih =>
    obtain ⟨left, rfl⟩ := Nat.exists_eq_add_one_of_ne_zero
      (Nat.ne_of_gt (Nat.lt_of_lt_of_le (Nat.succ_pos _) hcount))
    obtain ⟨hempty, hwithin, hrest⟩ := hundisturbed
    have hcontrol := control_foldl_push hempty hwithin
    obtain ⟨received₁, session₁, hrun₁, hpeer₁⟩ :=
      @connection_run codecs session stream _ request payload parser received hreplies
    obtain ⟨session₂, hrun₂, hpeer₂⟩ := @waitToReconnect_run session₁
      (payload.reconnectMax.toNat - left) payload.reconnectMax.toNat
      (stream.chunks.foldl push parser).control.reconnectDelayMs
      ((congrArg Server.waits hpeer₁).trans hwaits)
    have hsettled := @ih session₂ left (Nat.le_of_succ_le_succ hcount) _ received₁ hrest
      (by rw [hpeer₂, hpeer₁]; rfl) (by rw [hpeer₂])
    rw [connectLoop, Fallible.run_bind_of_ok hrun₁]
    simp only
    rw [Fallible.run_bind_of_ok hrun₂]
    rw [hpeer₂, hpeer₁, hcontrol] at hsettled
    simp only [List.append_assoc] at hsettled
    rw [List.map_cons, List.scanl_cons, List.map_cons, List.tail_cons,
      map_scanl Control.reconnectDelayMs]
    exact hsettled

end Runs

/-- The requests and the waits of a client that connects again for every stream are what the
whole streams say, each read once. -/
structure AsWhole (request : RequestEnvelope) (payload : SsePayload) (streams : List Stream)
    (server : Server) (final : Server) : Prop where
  requests : server.requests ++ ((streams.map Stream.text).scanl settle (initial payload)).map
    (sent request payload) <+: final.requests
  delays : server.delays ++ ((streams.map Stream.text).scanl settle (initial payload)).tail.map
    Control.reconnectDelayMs <+: final.delays

/-- When the connections are undisturbed, it makes no difference how the streams come in
chunks. -/
theorem reconnects_as_whole (codecs : Codecs) (info : RunInfo) (request : RequestEnvelope)
    (session : Session Server) (payload : SsePayload) (streams : List Stream)
    (later : List Reply) (hpayload : request.payload = .sse payload)
    (hreplies : session.peer.replies =
      (streams.map fun stream => .answered stream.response) ++ later)
    (hwaits : session.peer.waits = []) (hcount : streams.length ≤ payload.reconnectMax.toNat)
    (hundisturbed : Undisturbed ⟨[], initial payload⟩ streams) :
    AsWhole request payload streams session.peer
      ((execute codecs info request).run session).2.peer := by
  have hrecorded := @recorded_streams codecs
    { session with events := session.events ++ [running .connect] } request payload streams later
    _ hcount ⟨[], initial payload⟩ 0 hundisturbed hreplies hwaits
  have hoptions : rawOptions request.payload = .ok payload := by rw [hpayload]; rfl
  suffices hrun : ((execute codecs info request).run session).2.peer =
      ((connectLoop codecs request payload payload.reconnectMax.toNat ⟨[], initial payload⟩ 0).run
        { session with events := session.events ++ [running .connect] }).2.peer by
    rw [hrun]
    exact ⟨hrecorded.1, hrecorded.2⟩
  rw [execute, Fallible.run_bind, run_ofExcept, hoptions]
  simp only
  rw [Fallible.run_bind, run_emit]
  simp only
  rw [Fallible.run_bind]
  cases (connectLoop codecs request payload payload.reconnectMax.toNat ⟨[], initial payload⟩ 0).run
      { session with events := session.events ++ [running .connect] } with
  | mk result session' =>
    cases result with
    | error e => rfl
    | ok found => rfl

/-! ## Two servers -/

def eventResponse (chunks : List Bytes) : WebResponse :=
  ⟨200, some "OK", [], some "text/event-stream", none, chunks.map .chunk⟩

/-- An event stream that comes in these texts. -/
def streaming (texts : List String) : Stream where
  response := eventResponse (texts.map utf8)
  chunks := texts.map utf8
  text := String.ofList (texts.flatMap String.toList)
  items := rfl
  accepted := (by decide : 200 ≤ (200 : UInt16).toNat ∧ (200 : UInt16).toNat < 300)
  whole := by
    induction texts with
    | nil => rfl
    | cons text texts ih =>
      rw [List.map_cons, List.flatten_cons, ih, List.flatMap_cons, String.ofList_append,
        utf8_append, String.ofList_toList]

def ssePayload (reconnectMax : UInt32) : SsePayload := ⟨[], none, reconnectMax, 50⟩

def sseRequest (reconnectMax : UInt32) : RequestEnvelope :=
  { RequestEnvelope.httpGet "request" "2026-01-01T00:00:00Z" "events" "http://server" with
    protocolId := "sse"
    payload := .sse (ssePayload reconnectMax) }

def sseRun : RunInfo := ⟨"run", "2026-01-01T00:00:00Z", "2026-01-01T00:00:01Z", 1000⟩

def serving (streams : List Stream) : Session Server :=
  ⟨⟨streams.map fun stream => .answered stream.response, [], [], []⟩, []⟩

/-- An event that comes in two chunks, of which the second one begins inside a line end. -/
theorem reconnects_as_whole_split :
    AsWhole (sseRequest 1) (ssePayload 1) [streaming ["id: 41\r", "\nretry: 1\n\n"]]
      (serving [streaming ["id: 41\r", "\nretry: 1\n\n"]]).peer
      ((execute Codecs.unused sseRun (sseRequest 1)).run
        (serving [streaming ["id: 41\r", "\nretry: 1\n\n"]])).2.peer :=
  reconnects_as_whole Codecs.unused sseRun (sseRequest 1) _ (ssePayload 1) _ [] rfl rfl rfl
    (by decide) ⟨rfl, ⟨by decide, by decide, by decide +kernel, by decide, trivial⟩, trivial⟩

/-- The event that was left incomplete when a connection was closed is completed by the next
one, and its id is sent. -/
theorem not_as_whole :
    ¬∀ (codecs : Codecs) (info : RunInfo) (request : RequestEnvelope) (session : Session Server)
      (payload : SsePayload) (streams : List Stream) (later : List Reply),
        request.payload = .sse payload →
        session.peer.replies = (streams.map fun stream => .answered stream.response) ++ later →
        session.peer.waits = [] → streams.length ≤ payload.reconnectMax.toNat →
        AsWhole request payload streams session.peer
          ((execute codecs info request).run session).2.peer := by
  intro h
  have hwhole := (h Codecs.unused sseRun (sseRequest 2)
    (serving [streaming ["id: 1\n"], streaming ["data: x\n\n"]]) (ssePayload 2)
    [streaming ["id: 1\n"], streaming ["data: x\n\n"]] [] rfl rfl rfl (by decide)).requests
  revert hwhole
  decide +kernel

end ApiVoy.Drivers.Sse
