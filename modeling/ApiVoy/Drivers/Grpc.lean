/-
# The gRPC driver

A gRPC message travels in a frame: a flag, its length in four bytes, and the message. The
frames come in the body of an HTTP response, in pieces that have nothing to do with them. A
streaming call reports every message and then the end of the response; a call with a single
response reports the first message and stops.
-/

import ApiVoy.Drivers.Session
import ApiVoy.Foundation.Incremental
import ApiVoy.Foundation.Numerals

namespace ApiVoy.Drivers.Grpc

open Foundation Domain Engine

/-! ## Frames -/

def maxMessageBytes : Nat := 16 * 1024 * 1024

def maxResponseBytes : Nat := 64 * 1024 * 1024

def encodeFrame (message : Bytes) : Bytes := 0 :: (beBytes 4 message.length ++ message)

def takeFrame : FrameParser DriverError UInt8 Bytes := fun buffer =>
  if buffer.length < 5 then .ok none
  else
    let length := readBE ((buffer.drop 1).take 4)
    if maxMessageBytes < length then
      .error (.protocol ("gRPC message exceeds the " ++ toString maxMessageBytes ++ "-byte limit"))
    else if buffer.length < length + 5 then .ok none
    else if buffer.head? ≠ some 0 then
      .error (.protocol "compressed gRPC messages are not supported yet")
    else .ok (some ((buffer.drop 5).take length, length + 5))

/-! ## Calls -/

structure Response where
  status : UInt16
  reason : Option String
  /-- The value of a header may be unreadable. -/
  headers : List (String × Option String)
  contentLength : Option UInt64
  arrivals : List Arrival

/-- What the descriptors and the server make of a call. -/
structure Call where
  /-- How the responses of the method are shown, if it is known, and the messages to send. -/
  prepared : Except DriverError (Option (Bytes → Option String) × List Bytes)
  respond : Bytes → Except DriverError Response

abbrev GrpcM := DriverM Call

/-- What has been received up to now. -/
structure Received where
  buffer : Bytes
  bytesReceived : Nat
  wireBytes : Nat
  messages : Nat

/-- A call in this mode has a single response. -/
def isSingle (mode : String) : Bool := decide (mode = "unary" ∨ mode = "client_streaming")

def deadlineError (timeoutMs : UInt64) : DriverError :=
  .timeout ("gRPC request exceeded " ++ toString (max timeoutMs.toNat 1) ++ " ms")

section Receiving

variable (codecs : Codecs) (method : Option (Bytes → Option String))

def responsePreview (message : Bytes) (index : Nat) : String :=
  match method.bind fun decode => decode message with
  | some json => json
  | none =>
    "gRPC message #" ++ toString index ++ ": " ++ toString message.length ++ " bytes, base64=" ++
      codecs.encodeBase64 message

def messageChunk (single : Bool) (message : Bytes) (index : Nat) : ExecutionEvent :=
  .responseChunk (some "application/protobuf") (UInt64.ofNat message.length)
    (some (responsePreview codecs method message index)) (some (codecs.encodeBase64 message)) single

/-- Report the messages in the buffer. Every frame takes bytes from it, so the fuel suffices. -/
def takeMessages (single : Bool) : Nat → Received → GrpcM Received
  | 0, received => return received
  | fuel + 1, received =>
    match takeFrame received.buffer with
    | .error e => Fallible.fail e
    | .ok none => return received
    | .ok (some (message, used)) => do
      let received := { received with
        buffer := received.buffer.drop used
        bytesReceived := received.bytesReceived + message.length
        messages := received.messages + 1 }
      emit (messageChunk codecs method single message received.messages)
      if single = true then return received else takeMessages single fuel received

def receiveLoop (single : Bool) (timeoutMs : UInt64) : List Arrival → Received → GrpcM Received
  | [], received => return received
  | .cancelled :: _, _ => Fallible.fail .cancelled
  | .timedOut :: _, _ => Fallible.fail (deadlineError timeoutMs)
  | .failed message :: _, _ => Fallible.fail (.protocol message)
  | .data chunk :: arrivals, received =>
    let received := { received with
      buffer := received.buffer ++ chunk
      wireBytes := received.wireBytes + chunk.length }
    if maxResponseBytes < received.wireBytes then
      Fallible.fail (.protocol
        ("gRPC response exceeds the " ++ toString maxResponseBytes ++ "-byte limit"))
    else do
      let received ← takeMessages codecs method single (received.buffer.length + 1) received
      if single = true ∧ 0 < received.messages then return received
      else receiveLoop single timeoutMs arrivals received

end Receiving

def responseMeta (response : Response) : ExecutionEvent :=
  .responseMeta {
    status := some response.status
    statusText := ((response.headers.lookup "grpc-status").bind id).or response.reason
    headers := response.headers.map fun header => (header.1, header.2.getD "")
    contentType := some "application/grpc"
    sizeHint := response.contentLength }

def endChunk : ExecutionEvent := .responseChunk (some "application/protobuf") 0 none none true

def incompleteFrame (length : Nat) : ExecutionEvent :=
  .warning "grpc_incomplete_frame"
    (toString length ++ " trailing byte(s) did not form a complete gRPC frame")

/-- What is reported behind the messages. -/
def report (info : RunInfo) (request : RequestEnvelope) (single : Bool) (status : UInt16)
    (received : Received) : GrpcM ExecutionSummary := do
  if single = false then emit endChunk
  if received.buffer ≠ [] then emit (incompleteFrame received.buffer.length)
  let summary := completedSummary info request "grpc" received.bytesReceived (some status)
  emit (.completed summary)
  return summary

def execute (codecs : Codecs) (info : RunInfo) (request : RequestEnvelope) :
    GrpcM ExecutionSummary :=
  match request.payload with
  | .grpc payload => do
    let call ← askPeer fun call => (call, call)
    let (method, messages) ← Session.ofExcept call.prepared
    emit (running .connect)
    let response ← Session.ofExcept (call.respond (messages.flatMap encodeFrame))
    emit (responseMeta response)
    if 200 ≤ response.status.toNat ∧ response.status.toNat < 300 then do
      emit (running .transfer)
      let received ← receiveLoop codecs method (isSingle payload.mode) request.timeoutMs
        response.arrivals ⟨[], 0, 0, 0⟩
      report info request (isSingle payload.mode) response.status received
    else
      Fallible.fail (.protocol
        ("gRPC transport returned HTTP " ++ toString response.status.toNat))
  | _ => Fallible.fail (.validation "gRPC driver requires gRPC payload")

/-! ## Complete messages -/

/-- The messages whose frames are within the first bytes. -/
def contained : List Bytes → Nat → List Bytes
  | [], _ => []
  | message :: messages, length =>
    if (encodeFrame message).length ≤ length then
      message :: contained messages (length - (encodeFrame message).length)
    else []

def EndsInside (messages : List Bytes) (length : Nat) : Prop :=
  ((contained messages length).flatMap encodeFrame).length <
    ((messages.flatMap encodeFrame).take length).length

theorem length_encodeFrame (message : Bytes) : (encodeFrame message).length = message.length + 5 := by
  rw [encodeFrame, List.length_cons, List.length_append, length_beBytes]
  omega

theorem takeFrame_bounds {input message : Bytes} {used : Nat}
    (h : takeFrame input = .ok (some (message, used))) : 0 < used ∧ used ≤ input.length := by
  simp only [takeFrame] at h
  split at h
  · cases h
  · split at h
    · cases h
    · split at h
      · cases h
      · split at h
        · cases h
        · cases h
          omega

theorem stable_takeFrame : FrameParser.Stable takeFrame where
  used_pos h := (takeFrame_bounds h).1
  used_le h := (takeFrame_bounds h).2
  append := by
    intro input h more
    simp only [takeFrame] at h ⊢
    by_cases hheader : input.length < 5
    · rw [if_pos hheader] at h
      exact absurd rfl h
    · have hlong : ¬(input ++ more).length < 5 := by
        rw [List.length_append]
        omega
      have hlength : (((input ++ more).drop 1).take 4) = (input.drop 1).take 4 := by
        rw [List.drop_append_of_le_length (by omega),
          List.take_append_of_le_length (by rw [List.length_drop]; omega)]
      have hhead : (input ++ more).head? = input.head? := by
        cases input with
        | nil => exact absurd (by decide) hheader
        | cons byte rest => rfl
      rw [if_neg hheader] at h ⊢
      rw [if_neg hlong, hlength, hhead]
      by_cases hlimit : maxMessageBytes < readBE ((input.drop 1).take 4)
      · rw [if_pos hlimit, if_pos hlimit]
      · rw [if_neg hlimit] at h ⊢
        rw [if_neg hlimit]
        by_cases hshort : input.length < readBE ((input.drop 1).take 4) + 5
        · rw [if_pos hshort] at h
          exact absurd rfl h
        · have hmore : ¬(input ++ more).length < readBE ((input.drop 1).take 4) + 5 := by
            rw [List.length_append]
            omega
          have hbody : ((input ++ more).drop 5).take (readBE ((input.drop 1).take 4)) =
              (input.drop 5).take (readBE ((input.drop 1).take 4)) := by
            rw [List.drop_append_of_le_length (by omega),
              List.take_append_of_le_length (by rw [List.length_drop]; omega)]
          rw [if_neg hshort, if_neg hmore, hbody]

variable {message : Bytes}

theorem takeFrame_encodeFrame (h : message.length ≤ maxMessageBytes) (tail : Bytes) :
    takeFrame (encodeFrame message ++ tail) = .ok (some (message, (encodeFrame message).length)) := by
  have hlong : ¬(encodeFrame message ++ tail).length < message.length + 5 := by
    rw [List.length_append, length_encodeFrame]
    omega
  have hsmall : message.length < 256 ^ 4 := Nat.lt_of_le_of_lt h (by decide)
  have hinput : encodeFrame message ++ tail =
      0 :: (beBytes 4 message.length ++ (message ++ tail)) := by
    rw [encodeFrame, List.cons_append, List.append_assoc]
  have hlength : readBE (((encodeFrame message ++ tail).drop 1).take 4) = message.length := by
    rw [hinput, List.drop_one, List.tail_cons, List.take_left' (length_beBytes _ _),
      readBE_beBytes hsmall]
  have hbody : ((encodeFrame message ++ tail).drop 5).take message.length = message := by
    have hdrop : (encodeFrame message ++ tail).drop 5 = message ++ tail := by
      rw [hinput, List.drop_succ_cons, List.drop_left' (length_beBytes _ _)]
    rw [hdrop, List.take_left]
  have hhead : (encodeFrame message ++ tail).head? = some 0 := by
    rw [hinput]
    rfl
  simp only [takeFrame, hlength]
  rw [if_neg (by omega), if_neg (by omega), if_neg hlong, if_neg (by rw [hhead]; simp), hbody,
    length_encodeFrame]

/-- A part of a frame is no frame. -/
theorem takeFrame_take (h : message.length ≤ maxMessageBytes) {length : Nat}
    (hshort : length < (encodeFrame message).length) :
    takeFrame ((encodeFrame message).take length) = .ok none := by
  by_contra hsettled
  have hwhole := stable_takeFrame.append hsettled ((encodeFrame message).drop length)
  have hframe := takeFrame_encodeFrame h []
  rw [List.append_nil] at hframe
  rw [List.take_append_drop, hframe] at hwhole
  have hused := stable_takeFrame.used_le hwhole.symm
  rw [List.length_take] at hused
  omega

variable {messages : List Bytes}

/-- The frames at the beginning of the encoded messages are those that are complete. -/
theorem drain_take (h : ∀ message ∈ messages, message.length ≤ maxMessageBytes) (length : Nat) :
    ∃ rest, (messages.flatMap encodeFrame).take length =
        (contained messages length).flatMap encodeFrame ++ rest ∧
      FrameParser.drain takeFrame ((messages.flatMap encodeFrame).take length) =
        ⟨contained messages length, none, rest⟩ := by
  induction messages generalizing length with
  | nil => exact ⟨[], by simp [contained], by rw [List.flatMap_nil, List.take_nil]; rfl⟩
  | cons message messages ih =>
    have hmessage := h message List.mem_cons_self
    rw [contained, List.flatMap_cons]
    by_cases hfits : (encodeFrame message).length ≤ length
    · obtain ⟨rest, hrest, hdrain⟩ :=
        ih (fun other hmem => h other (List.mem_cons_of_mem message hmem))
          (length - (encodeFrame message).length)
      have htake : (encodeFrame message ++ messages.flatMap encodeFrame).take length =
          encodeFrame message ++
            (messages.flatMap encodeFrame).take (length - (encodeFrame message).length) := by
        rw [List.take_append, List.take_of_length_le hfits]
      rw [if_pos hfits, htake]
      refine ⟨rest, ?_, ?_⟩
      · rw [List.flatMap_cons, List.append_assoc, ← hrest]
      · rw [FrameParser.drain_of_frame stable_takeFrame (takeFrame_encodeFrame hmessage _),
          List.drop_left, hdrain]
        rfl
    · have htake : (encodeFrame message ++ messages.flatMap encodeFrame).take length =
          (encodeFrame message).take length :=
        List.take_append_of_le_length (by omega)
      rw [if_neg hfits, htake]
      exact ⟨_, rfl, FrameParser.drain_of_none (takeFrame_take hmessage (by omega))⟩

/-! ## The loop -/

section Loop

variable {codecs : Codecs} {method : Option (Bytes → Option String)} {received : Received}
  {session : Session Call} {timeoutMs : UInt64}

/-- The events that messages call for, numbered from an index on: each has the length and the
bytes of its message, and shows it as the method does, or else its number, length and bytes. -/
def messageChunks (codecs : Codecs) (method : Option (Bytes → Option String)) (single : Bool) :
    Nat → List Bytes → List ExecutionEvent
  | _, [] => []
  | index, message :: messages =>
    .responseChunk (some "application/protobuf") (UInt64.ofNat message.length)
        (some (match method.bind fun decode => decode message with
          | some json => json
          | none => "gRPC message #" ++ toString (index + 1) ++ ": " ++ toString message.length ++
              " bytes, base64=" ++ codecs.encodeBase64 message))
        (some (codecs.encodeBase64 message)) single ::
      messageChunks codecs method single (index + 1) messages

theorem messageChunks_append (single : Bool) (index : Nat) (messages others : List Bytes) :
    messageChunks codecs method single index (messages ++ others) =
      messageChunks codecs method single index messages ++
        messageChunks codecs method single (index + messages.length) others := by
  induction messages generalizing index with
  | nil => rfl
  | cons message messages ih =>
    rw [List.cons_append, messageChunks, messageChunks, ih, List.cons_append, List.length_cons,
      Nat.add_assoc, Nat.add_comm 1]

theorem takeMessages_streaming {fuel : Nat} (hfuel : received.buffer.length < fuel)
    (herror : (FrameParser.drain takeFrame received.buffer).error = none) :
    let drained := FrameParser.drain takeFrame received.buffer
    ∃ received', (takeMessages codecs method false fuel received).run session =
        (.ok received', { session with
          events := session.events ++
            messageChunks codecs method false received.messages drained.values }) ∧
      received'.buffer = drained.rest ∧ received'.wireBytes = received.wireBytes ∧
      received'.messages = received.messages + drained.values.length := by
  induction fuel generalizing received session with
  | zero => omega
  | succ fuel ih =>
    rw [takeMessages]
    cases hframe : takeFrame received.buffer with
    | error e =>
      rw [FrameParser.drain_of_error hframe] at herror
      cases herror
    | ok found =>
      cases found with
      | none =>
        rw [FrameParser.drain_of_none hframe]
        exact ⟨received, by rw [messageChunks, List.append_nil]; rfl, rfl, rfl, rfl⟩
      | some found =>
        obtain ⟨message, used⟩ := found
        have hpos := stable_takeFrame.used_pos hframe
        have hle := stable_takeFrame.used_le hframe
        have hlength : (received.buffer.drop used).length = received.buffer.length - used :=
          List.length_drop
        rw [FrameParser.drain_of_frame stable_takeFrame hframe] at herror ⊢
        obtain ⟨received', hrun, hbuffer, hwire, hmessages⟩ := @ih
          { received with
            buffer := received.buffer.drop used
            bytesReceived := received.bytesReceived + message.length
            messages := received.messages + 1 }
          { session with
            events := session.events ++
              [messageChunk codecs method false message (received.messages + 1)] }
          (by simp only; omega) herror
        simp only [Fallible.run_bind, run_emit, Bool.false_eq_true, if_false]
        rw [hrun, List.append_assoc]
        refine ⟨received', rfl, hbuffer, hwire, ?_⟩
        rw [hmessages, Drained.behind, List.length_append, List.length_singleton]
        exact Nat.add_assoc _ _ _

theorem error_of_append {input more : Bytes}
    (h : (FrameParser.drain takeFrame (input ++ more)).error = none) :
    (FrameParser.drain takeFrame input).error = none := by
  cases herror : (FrameParser.drain takeFrame input).error with
  | none => rfl
  | some e =>
    rw [FrameParser.drain_append_of_error stable_takeFrame herror, herror] at h
    cases h

theorem receiveLoop_streaming {pieces : List Bytes} (hbuffer : takeFrame received.buffer = .ok none)
    (herror : (FrameParser.drain takeFrame (received.buffer ++ pieces.flatten)).error = none)
    (hlimit : received.wireBytes + pieces.flatten.length ≤ maxResponseBytes) :
    let drained := FrameParser.drain takeFrame (received.buffer ++ pieces.flatten)
    ∃ received', (receiveLoop codecs method false timeoutMs (pieces.map .data) received).run session =
        (.ok received', { session with
          events := session.events ++
            messageChunks codecs method false received.messages drained.values }) ∧
      received'.buffer = drained.rest := by
  induction pieces generalizing received session with
  | nil =>
    rw [List.flatten_nil, List.append_nil, FrameParser.drain_of_none hbuffer]
    exact ⟨received, by rw [messageChunks, List.append_nil]; rfl, rfl⟩
  | cons piece pieces ih =>
    rw [List.flatten_cons, ← List.append_assoc] at herror ⊢
    rw [List.flatten_cons, List.length_append] at hlimit
    have hopen := error_of_append herror
    rw [FrameParser.drain_append stable_takeFrame hopen] at herror ⊢
    obtain ⟨received₁, hrun₁, hbuffer₁, hwire₁, hmessages₁⟩ :=
      @takeMessages_streaming codecs method
        { received with
          buffer := received.buffer ++ piece
          wireBytes := received.wireBytes + piece.length }
        session _ (Nat.lt_succ_self _) hopen
    have hparse := FrameParser.parse_rest stable_takeFrame hopen
    rw [← hbuffer₁] at hparse herror ⊢
    obtain ⟨received', hrun, hrest⟩ := @ih received₁
      { session with
        events := session.events ++ messageChunks codecs method false received.messages
          (FrameParser.drain takeFrame (received.buffer ++ piece)).values }
      hparse herror (by rw [hwire₁]; simp only; omega)
    have hsmall : ¬maxResponseBytes < received.wireBytes + piece.length := by omega
    rw [List.map_cons, receiveLoop]
    simp only [hsmall, if_false, Fallible.run_bind, hrun₁, Bool.false_eq_true, false_and]
    rw [hrun, hmessages₁]
    refine ⟨received', ?_, hrest⟩
    rw [Drained.behind, messageChunks_append, List.append_assoc]

theorem receiveLoop_single {pieces : List Bytes} (hbuffer : takeFrame received.buffer = .ok none)
    (herror : (FrameParser.drain takeFrame (received.buffer ++ pieces.flatten)).error = none)
    (hlimit : received.wireBytes + pieces.flatten.length ≤ maxResponseBytes)
    (hmessages : received.messages = 0) :
    let drained := FrameParser.drain takeFrame (received.buffer ++ pieces.flatten)
    ∃ received', (receiveLoop codecs method true timeoutMs (pieces.map .data) received).run session =
        (.ok received', { session with
          events := session.events ++
            messageChunks codecs method true 0 (drained.values.take 1) }) := by
  induction pieces generalizing received session with
  | nil =>
    rw [List.flatten_nil, List.append_nil, FrameParser.drain_of_none hbuffer]
    exact ⟨received, by rw [List.take_nil, messageChunks, List.append_nil]; rfl⟩
  | cons piece pieces ih =>
    rw [List.flatten_cons, ← List.append_assoc] at herror ⊢
    rw [List.flatten_cons, List.length_append] at hlimit
    have hopen := error_of_append herror
    have hsmall : ¬maxResponseBytes < received.wireBytes + piece.length := by omega
    rw [List.map_cons, receiveLoop, takeMessages]
    simp only [hsmall, if_false, Fallible.run_bind]
    cases hframe : takeFrame (received.buffer ++ piece) with
    | error e =>
      rw [FrameParser.drain_of_error hframe] at hopen
      cases hopen
    | ok found =>
      cases found with
      | none =>
        simp only [Fallible.run_pure, hmessages, Nat.lt_irrefl, and_false, if_false]
        exact @ih
          { received with
            buffer := received.buffer ++ piece
            wireBytes := received.wireBytes + piece.length
            messages := 0 }
          session hframe herror (by simp only; omega) rfl
      | some found =>
        obtain ⟨message, used⟩ := found
        have hwhole := stable_takeFrame.frame_append hframe pieces.flatten
        rw [FrameParser.drain_of_frame stable_takeFrame hwhole]
        simp only [Fallible.run_bind, run_emit, if_true, Fallible.run_pure, hmessages]
        exact ⟨_, rfl⟩

end Loop

/-! ## Reported messages -/

/-- The call is answered with success, and the pieces are the body of the answer. -/
structure Answered (request : RequestEnvelope) (payload : GrpcPayload) (call : Call)
    (method : Option (Bytes → Option String)) (response : Response) (pieces : List Bytes) :
    Prop where
  payload : request.payload = .grpc payload
  responds : ∃ outgoing, call.prepared = .ok (method, outgoing) ∧
    call.respond (outgoing.flatMap encodeFrame) = .ok response
  success : 200 ≤ response.status.toNat ∧ response.status.toNat < 300
  arrivals : response.arrivals = pieces.map .data

/-- The response as it is reported. -/
def chunks (events : List ExecutionEvent) : List ExecutionEvent := events.filter Event.isChunk

theorem chunks_messageChunks (codecs : Codecs) (method : Option (Bytes → Option String))
    (single : Bool) (index : Nat) (messages : List Bytes) :
    chunks (messageChunks codecs method single index messages) =
      messageChunks codecs method single index messages := by
  induction messages generalizing index with
  | nil => rfl
  | cons message messages ih =>
    rw [messageChunks, chunks, List.filter_cons_of_pos (by rfl)]
    exact congrArg (_ :: ·) (ih (index + 1))

theorem not_warning_messageChunks {codecs : Codecs} {method : Option (Bytes → Option String)}
    {single : Bool} {index : Nat} {code message : String} :
    .warning code message ∉ messageChunks codecs method single index messages := by
  induction messages generalizing index with
  | nil => exact List.not_mem_nil
  | cons first messages ih =>
    rw [messageChunks, List.mem_cons, not_or]
    exact ⟨nofun, ih⟩

section Runs

variable {codecs : Codecs} {info : RunInfo} {request : RequestEnvelope} {payload : GrpcPayload}
  {session : Session Call} {method : Option (Bytes → Option String)} {response : Response}
  {pieces : List Bytes}

theorem execute_of_answered (codecs : Codecs) (info : RunInfo)
    (h : Answered request payload session.peer method response pieces) :
    (execute codecs info request).run session =
      (receiveLoop codecs method (isSingle payload.mode) request.timeoutMs (pieces.map .data)
          ⟨[], 0, 0, 0⟩ >>=
        report info request (isSingle payload.mode) response.status).run
        { session with
          events := session.events ++ [running .connect, responseMeta response, running .transfer] } := by
  obtain ⟨outgoing, hprepared, hresponse⟩ := h.responds
  rw [execute, h.payload]
  simp only [Fallible.run_bind, run_askPeer, run_ofExcept, hprepared, hresponse, run_emit,
    h.success, and_self, if_true, h.arrivals, List.append_assoc]
  rfl

theorem report_run (info : RunInfo) (request : RequestEnvelope) (single : Bool) (status : UInt16)
    (received : Received) (session : Session Call) :
    (report info request single status received).run session =
      let summary := completedSummary info request "grpc" received.bytesReceived (some status)
      (.ok summary, { session with
        events := session.events ++
          ((if single = false then [endChunk] else []) ++
            ((if received.buffer ≠ [] then [incompleteFrame received.buffer.length] else []) ++
              [.completed summary])) }) := by
  rw [report]
  by_cases hsingle : single = false <;> by_cases hbuffer : received.buffer = [] <;>
    simp [hsingle, hbuffer, Fallible.run_bind, Fallible.run_map]

end Runs

/-- A streaming call reports the messages that are complete and then the end, and a call with
a single response reports the first message. The warning says that the stream ended inside a
frame. -/
theorem messages_reported (codecs : Codecs) (info : RunInfo) (request : RequestEnvelope)
    (payload : GrpcPayload) (session : Session Call) (method : Option (Bytes → Option String))
    (response : Response) (messages pieces : List Bytes) (length : Nat)
    (hstart : session.events = [])
    (hanswered : Answered request payload session.peer method response pieces)
    (hmessages : ∀ message ∈ messages, message.length ≤ maxMessageBytes)
    (hpieces : pieces.flatten = (messages.flatMap encodeFrame).take length)
    (hlimit : pieces.flatten.length ≤ maxResponseBytes) :
    let final := (execute codecs info request).run session
    (∃ summary, final.1 = .ok summary) ∧
    (isSingle payload.mode = false →
      chunks final.2.events =
        messageChunks codecs method false 0 (contained messages length) ++
          [.responseChunk (some "application/protobuf") 0 none none true] ∧
      ((∃ message, .warning "grpc_incomplete_frame" message ∈ final.2.events) ↔
        EndsInside messages length)) ∧
    (isSingle payload.mode = true →
      chunks final.2.events =
        messageChunks codecs method true 0 ((contained messages length).take 1)) := by
  obtain ⟨rest, hsplit, hdrain⟩ := drain_take hmessages length
  rw [← hpieces] at hdrain
  have hempty : takeFrame [] = .ok none := rfl
  have herror : (FrameParser.drain takeFrame ([] ++ pieces.flatten)).error = none := by
    rw [List.nil_append, hdrain]
  rw [execute_of_answered codecs info hanswered, hstart, List.nil_append]
  cases hsingle : isSingle payload.mode with
  | false =>
    obtain ⟨received, hrun, hbuffer⟩ := @receiveLoop_streaming codecs method ⟨[], 0, 0, 0⟩
      { session with events := [running .connect, responseMeta response, running .transfer] }
      request.timeoutMs pieces hempty herror (by rw [Nat.zero_add]; exact hlimit)
    simp only [List.nil_append, hdrain] at hrun hbuffer
    rw [Fallible.run_bind_of_ok hrun, report_run, hbuffer]
    refine ⟨⟨_, rfl⟩, fun _ => ⟨?_, ?_⟩, nofun⟩
    · simp only [chunks, List.filter_append]
      rw [← chunks, ← chunks, chunks_messageChunks]
      by_cases hrest : rest = []
      · rw [if_neg (not_not.mpr hrest)]
        rfl
      · rw [if_pos hrest]
        rfl
    · rw [EndsInside, ← hpieces, hpieces, hsplit, List.length_append]
      have hlength : rest ≠ [] ↔ 0 < rest.length := List.length_pos_iff.symm
      constructor
      · rintro ⟨message, hmem⟩
        by_contra hnot
        have hrest : rest = [] := List.length_eq_zero_iff.mp (by omega)
        simp [hrest, running, responseMeta, endChunk, not_warning_messageChunks] at hmem
      · intro hinside
        have hrest : rest ≠ [] := hlength.mpr (by omega)
        refine ⟨toString rest.length ++ " trailing byte(s) did not form a complete gRPC frame",
          List.mem_append_right _ (List.mem_append_right _ (List.mem_append_left _ ?_))⟩
        rw [if_pos hrest]
        exact List.mem_singleton_self _
  | true =>
    obtain ⟨received, hrun⟩ := @receiveLoop_single codecs method ⟨[], 0, 0, 0⟩
      { session with events := [running .connect, responseMeta response, running .transfer] }
      request.timeoutMs pieces hempty herror (by rw [Nat.zero_add]; exact hlimit) rfl
    simp only [List.nil_append, hdrain] at hrun
    rw [Fallible.run_bind_of_ok hrun, report_run]
    refine ⟨⟨_, rfl⟩, nofun, fun _ => ?_⟩
    simp only [chunks, List.filter_append]
    rw [← chunks, ← chunks, chunks_messageChunks]
    by_cases hbuffer : received.buffer = []
    · rw [if_neg (not_not.mpr hbuffer)]
      exact List.append_nil _
    · rw [if_pos hbuffer]
      exact List.append_nil _

def streamRequest (payload : GrpcPayload) : RequestEnvelope :=
  { RequestEnvelope.httpGet "grpc" "2026-01-01T00:00:00Z" "gRPC" "http://service" with
    protocolId := "grpc"
    payload := .grpc payload }

/-- The body of a response comes in pieces. -/
def responding (pieces : List Bytes) : Response := ⟨200, some "OK", [], none, pieces.map .data⟩

theorem messages_reported_inside :
    let payload : GrpcPayload := ⟨"service", "Method", "", "server_streaming", [], none, none⟩
    let call : Call := ⟨.ok (some fun _ => some "\x7b\x7d", []),
      fun _ => .ok (responding [[0, 0, 0], [0, 1, 7, 0, 0, 0, 0]])⟩
    chunks ((execute Codecs.unused ⟨"run", "", "", 0⟩ (streamRequest payload)).run ⟨call, []⟩).2.events =
      [.responseChunk (some "application/protobuf") 1 (some "\x7b\x7d") (some "") false,
        .responseChunk (some "application/protobuf") 0 none none true] := by
  intro payload call
  exact ((messages_reported Codecs.unused ⟨"run", "", "", 0⟩ (streamRequest payload) payload
    ⟨call, []⟩ _ (responding [[0, 0, 0], [0, 1, 7, 0, 0, 0, 0]]) [[7], [8, 9]]
    [[0, 0, 0], [0, 1, 7, 0, 0, 0, 0]] 10 rfl
    ⟨rfl, ⟨[], rfl, rfl⟩, by decide, rfl⟩ (by decide) (by decide) (by decide)).2.1 (by decide)).1

end ApiVoy.Drivers.Grpc
