/-
# The runs of a subscription

The server may send its messages in any order and as many of them as it likes. What waiting for
the acknowledgement and what receiving come to is found by induction on the messages, and from
both follows what a whole connection reports and how far it is read.
-/

import ApiVoy.Drivers.Graphql
import ApiVoy.Drivers.WebSocketRuns

namespace ApiVoy.Drivers.Graphql

open Foundation Domain Engine Drivers.WebSocket

/-! ## Messages of the server -/

inductive MessageKind where
  | ack
  | next
  | ping
  | error
  | complete
  deriving DecidableEq

def MessageKind.name : MessageKind → String
  | .ack => "connection_ack"
  | .next => "next"
  | .ping => "ping"
  | .error => "error"
  | .complete => "complete"

structure ServerMessage where
  kind : MessageKind
  payload : Json

/-- A frame carries a message. What else the message says, such as its operation, is open. -/
def Carries (library : GraphqlLibrary) (frame : Frame) (message : ServerMessage) : Prop :=
  ∃ text value, frame = .text text ∧ library.parseJson text = .ok value ∧
    typeOf value = some message.kind.name ∧ member value "payload" = message.payload

def messageReports (codecs : Codecs) (message : ServerMessage) : List ExecutionEvent :=
  match message.kind with
  | .next => [payloadChunk codecs message.payload]
  | .error => [payloadChunk codecs message.payload, errorWarning codecs message.payload]
  | .ack | .ping | .complete => []

/-- How many bytes of a message are counted. -/
def messageSize (codecs : Codecs) (message : ServerMessage) : Nat :=
  match message.kind with
  | .next | .error => payloadSize codecs message.payload
  | .ack | .ping | .complete => 0

def ServerMessage.isAck (message : ServerMessage) : Bool := message.kind == .ack

def ServerMessage.isComplete (message : ServerMessage) : Bool := message.kind == .complete

/-! ## Traffic -/

/-- The frames that have been read. -/
def receivedFrames (traffic : List WebSocket.Traffic) : List Frame :=
  traffic.filterMap fun
    | .received frame => some frame
    | _ => none

@[simp]
theorem receivedFrames_append (first second : List WebSocket.Traffic) :
    receivedFrames (first ++ second) = receivedFrames first ++ receivedFrames second :=
  List.filterMap_append

/-- Every frame that was to be sent has been sent. -/
def AllSent (traffic : List WebSocket.Traffic) : Prop := ∀ frame, .unsent frame ∉ traffic

theorem allSent_append {first second : List WebSocket.Traffic} :
    AllSent (first ++ second) ↔ AllSent first ∧ AllSent second := by
  unfold AllSent
  simp only [List.mem_append, not_or, forall_and]

theorem allSent_received (frame : Frame) : AllSent [.received frame] := by
  intro other hmem
  cases List.mem_singleton.mp hmem

theorem not_allSent_cons {entry : WebSocket.Traffic} {traffic : List WebSocket.Traffic}
    (h : ¬AllSent traffic) : ¬AllSent (entry :: traffic) := fun hsent =>
  h fun frame hmem => hsent frame (List.mem_cons_of_mem entry hmem)

section Running

variable (codecs : Codecs) (library : GraphqlLibrary)

variable {library} in
/-- Send a value and go on, or fail when it cannot be sent. -/
theorem sendJson_bind {α : Type} {value : Json} {f : Unit → WebSocketM α}
    {Q : Except DriverError α → List WebSocket.Traffic → List ExecutionEvent → Prop}
    (hrest : ∀ first, receivedFrames first = [] → AllSent first →
      Utters (f ()) fun result rest events => Q result (first ++ rest) events)
    (hbroken : ∀ e first, receivedFrames first = [] → ¬AllSent first → Q (.error e) first []) :
    Utters (sendJson library value >>= f) Q := by
  refine (utters_sendFrame _).bind ?_ ?_
  · rintro ⟨⟩ first events ⟨rfl, rfl⟩
    refine hrest _ rfl ?_
    intro frame hmem
    cases List.mem_singleton.mp hmem
  · rintro e first events ⟨rfl, rfl⟩
    exact hbroken e _ rfl fun hsent => hsent _ List.mem_cons_self

/-! ## One message -/

variable {message : ServerMessage}

variable {library} in
theorem awaitAck_carries {frame : Frame} (h : Carries library frame message)
    (rest : List WebSocket.Arrival) :
    awaitAck library (.frame frame :: rest) = (do
      askPeer (Server.receive frame)
      match message.kind with
      | .ack => return rest
      | .ping => do
        sendJson library pongMessage
        awaitAck library rest
      | .next | .error | .complete => awaitAck library rest) := by
  obtain ⟨kind, payload⟩ := message
  obtain ⟨text, value, rfl, hparse, htype, -⟩ := h
  rw [awaitAck]
  refine congrArg _ (funext fun _ => ?_)
  dsimp only
  rw [readJson, hparse]
  change (if typeOf value = some "connection_ack" then _ else _) = _
  rw [htype]
  cases kind <;> rfl

variable {library} in
theorem receiveMessages_carries {frame : Frame} (h : Carries library frame message)
    (rest : List WebSocket.Arrival) (bytes : Nat) :
    receiveMessages codecs library (.frame frame :: rest) bytes = (do
      askPeer (Server.receive frame)
      match message.kind with
      | .next => do
        emit (payloadChunk codecs message.payload)
        receiveMessages codecs library rest (bytes + payloadSize codecs message.payload)
      | .error => do
        emit (payloadChunk codecs message.payload)
        emit (errorWarning codecs message.payload)
        receiveMessages codecs library rest (bytes + payloadSize codecs message.payload)
      | .complete => return bytes
      | .ping => do
        sendJson library (pongWith message.payload)
        receiveMessages codecs library rest bytes
      | .ack => receiveMessages codecs library rest bytes) := by
  obtain ⟨kind, payload⟩ := message
  obtain ⟨text, value, rfl, hparse, htype, hpayload⟩ := h
  rw [receiveMessages]
  refine congrArg _ (funext fun _ => ?_)
  dsimp only
  rw [readJson, hparse]
  change (if typeOf value = some "next" then _ else _) = _
  rw [htype, hpayload]
  cases kind <;> rfl

/-! ## Waiting -/

/-- What waiting for the acknowledgement comes to. -/
structure Awaited (frames : List Frame) (messages : List ServerMessage)
    (result : Except DriverError (List WebSocket.Arrival)) (traffic : List WebSocket.Traffic)
    (events : List ExecutionEvent) : Prop where
  quiet : events = []
  broken : ¬AllSent traffic → ∃ e, result = .error e
  acknowledged : AllSent traffic → messages.any ServerMessage.isAck = true →
    result = .ok ((frames.drop (messages.findIdx ServerMessage.isAck + 1)).map .frame) ∧
      receivedFrames traffic = frames.take (messages.findIdx ServerMessage.isAck + 1)
  closed : AllSent traffic → messages.any ServerMessage.isAck = false →
    result = .error (.protocol "GraphQL subscription closed before connection_ack")

theorem Awaited.cons {frame : Frame} {frames : List Frame} {message : ServerMessage}
    {messages : List ServerMessage} {result : Except DriverError (List WebSocket.Arrival)}
    {first rest : List WebSocket.Traffic} {events : List ExecutionEvent}
    (hkind : message.isAck = false) (hfirst : AllSent first)
    (hreceived : receivedFrames first = [frame])
    (h : Awaited frames messages result rest events) :
    Awaited (frame :: frames) (message :: messages) result (first ++ rest) events := by
  have hany : (message :: messages).any ServerMessage.isAck = messages.any ServerMessage.isAck := by
    rw [List.any_cons, hkind, Bool.false_or]
  have hindex : (message :: messages).findIdx ServerMessage.isAck =
      messages.findIdx ServerMessage.isAck + 1 := by
    rw [List.findIdx_cons, hkind]
    rfl
  constructor
  · exact h.quiet
  · intro hunsent
    exact h.broken fun hrest => hunsent (allSent_append.mpr ⟨hfirst, hrest⟩)
  · intro hsent hack
    rw [hany] at hack
    have ⟨hresult, htake⟩ := h.acknowledged (allSent_append.mp hsent).2 hack
    rw [hindex, List.drop_succ_cons, List.take_succ_cons, receivedFrames_append, hreceived, htake]
    exact ⟨hresult, rfl⟩
  · intro hsent hnone
    rw [hany] at hnone
    exact h.closed (allSent_append.mp hsent).2 hnone

variable {messages : List ServerMessage} {frames : List Frame} {traffic : List WebSocket.Traffic}
  {e : DriverError}

theorem Awaited.of_broken (h : ¬AllSent traffic) :
    Awaited frames messages (.error e) traffic [] where
  quiet := rfl
  broken _ := ⟨e, rfl⟩
  acknowledged hsent := absurd hsent h
  closed hsent := absurd hsent h

variable {library} in
theorem utters_awaitAck (h : List.Forall₂ (Carries library) frames messages) :
    Utters (awaitAck library (frames.map .frame)) (Awaited frames messages) := by
  induction h with
  | nil =>
    exact .fail ⟨rfl, fun hunsent => absurd (fun _ hmem => by cases hmem) hunsent,
      fun _ hany => (by cases hany), fun _ _ => rfl⟩
  | @cons frame message frames messages hcarries _ ih =>
    rw [List.map_cons, awaitAck_carries hcarries]
    refine .receive_bind ?_
    have hskip : message.isAck = false → Utters (awaitAck library (frames.map .frame))
        fun result more events =>
          Awaited (frame :: frames) (message :: messages) result (.received frame :: more) events :=
      fun hkind => ih.mono fun result more events hrest =>
        hrest.cons hkind (allSent_received frame) rfl
    cases hkind : message.kind with
    | ack =>
      have hack : message.isAck = true := by rw [ServerMessage.isAck, hkind]; rfl
      have hindex : (message :: messages).findIdx ServerMessage.isAck = 0 := by
        rw [List.findIdx_cons, hack]
        rfl
      refine .pure ⟨rfl, fun hunsent => absurd (allSent_received frame) hunsent, fun _ _ => ?_,
        fun _ hnone => ?_⟩
      · rw [hindex]
        exact ⟨rfl, rfl⟩
      · rw [List.any_cons, hack] at hnone
        cases hnone
    | ping =>
      have hnot : message.isAck = false := by rw [ServerMessage.isAck, hkind]; rfl
      refine sendJson_bind ?_ ?_
      · intro first hfirst hsent
        refine ih.mono fun result more events hrest => ?_
        have hread : receivedFrames (.received frame :: first) = [frame] :=
          congrArg (frame :: ·) hfirst
        exact hrest.cons hnot (allSent_append.mpr ⟨allSent_received frame, hsent⟩) hread
      · intro e first _ hunsent
        exact .of_broken (not_allSent_cons hunsent)
    | next => exact hskip (by rw [ServerMessage.isAck, hkind]; rfl)
    | error => exact hskip (by rw [ServerMessage.isAck, hkind]; rfl)
    | complete => exact hskip (by rw [ServerMessage.isAck, hkind]; rfl)

/-! ## Receiving -/

/-- The messages in front of the one that says that the operation is complete. -/
def untilComplete (messages : List ServerMessage) : List ServerMessage :=
  messages.takeWhile fun message => !message.isComplete

structure Received (frames : List Frame) (messages : List ServerMessage) (bytes : Nat)
    (result : Except DriverError Nat) (traffic : List WebSocket.Traffic)
    (events : List ExecutionEvent) : Prop where
  broken : ¬AllSent traffic → ∃ e, result = .error e
  counted : AllSent traffic →
    result = .ok (bytes + ((untilComplete messages).map (messageSize codecs)).sum)
  read : AllSent traffic →
    receivedFrames traffic = frames.take (messages.findIdx ServerMessage.isComplete + 1)
  reported : AllSent traffic → events = (untilComplete messages).flatMap (messageReports codecs)

variable {codecs}

theorem Received.cons {frame : Frame} {frames : List Frame} {message : ServerMessage}
    {messages : List ServerMessage} {bytes : Nat} {result : Except DriverError Nat}
    {first rest : List WebSocket.Traffic} {before events : List ExecutionEvent}
    (hkind : message.isComplete = false) (hfirst : AllSent first)
    (hreceived : receivedFrames first = [frame]) (hbefore : before = messageReports codecs message)
    (h : Received codecs frames messages (bytes + messageSize codecs message) result rest events) :
    Received codecs (frame :: frames) (message :: messages) bytes result (first ++ rest)
      (before ++ events) := by
  have huntil : untilComplete (message :: messages) = message :: untilComplete messages := by
    rw [untilComplete, List.takeWhile_cons, hkind]
    rfl
  have hindex : (message :: messages).findIdx ServerMessage.isComplete =
      messages.findIdx ServerMessage.isComplete + 1 := by
    rw [List.findIdx_cons, hkind]
    rfl
  constructor
  · intro hunsent
    exact h.broken fun hrest => hunsent (allSent_append.mpr ⟨hfirst, hrest⟩)
  · intro hsent
    rw [h.counted (allSent_append.mp hsent).2, huntil, List.map_cons, List.sum_cons, Nat.add_assoc]
  · intro hsent
    rw [hindex, List.take_succ_cons, receivedFrames_append, hreceived,
      h.read (allSent_append.mp hsent).2]
    rfl
  · intro hsent
    rw [huntil, List.flatMap_cons, hbefore, h.reported (allSent_append.mp hsent).2]

variable {events : List ExecutionEvent}

theorem Received.of_broken {bytes : Nat} (h : ¬AllSent traffic) :
    Received codecs frames messages bytes (.error e) traffic events where
  broken _ := ⟨e, rfl⟩
  counted hsent := absurd hsent h
  read hsent := absurd hsent h
  reported hsent := absurd hsent h

theorem Received.of_end {bytes : Nat} (huntil : untilComplete messages = [])
    (hsent : AllSent traffic)
    (hread : receivedFrames traffic = frames.take (messages.findIdx ServerMessage.isComplete + 1)) :
    Received codecs frames messages bytes (.ok bytes) traffic [] where
  broken hunsent := absurd hsent hunsent
  counted _ := by rw [huntil]; rfl
  read _ := hread
  reported _ := by rw [huntil]; rfl

variable {library} in
theorem utters_receiveMessages (h : List.Forall₂ (Carries library) frames messages) (bytes : Nat) :
    Utters (receiveMessages codecs library (frames.map .frame) bytes)
      (Received codecs frames messages bytes) := by
  induction h generalizing bytes with
  | nil => exact .pure (.of_end rfl (fun _ hmem => by cases hmem) rfl)
  | @cons frame message frames messages hcarries _ ih =>
    rw [List.map_cons, receiveMessages_carries codecs hcarries]
    refine .receive_bind ?_
    have hread : AllSent [.received frame] := allSent_received frame
    cases hkind : message.kind with
    | ack =>
      have hnot : message.isComplete = false := by rw [ServerMessage.isComplete, hkind]; rfl
      have hreports : [] = messageReports codecs message := by rw [messageReports, hkind]
      have hsize : messageSize codecs message = 0 := by rw [messageSize, hkind]
      refine (ih bytes).mono fun result more events hrest => ?_
      exact .cons hnot hread rfl hreports (by rwa [hsize])
    | next =>
      have hnot : message.isComplete = false := by rw [ServerMessage.isComplete, hkind]; rfl
      have hreports : [payloadChunk codecs message.payload] = messageReports codecs message := by
        rw [messageReports, hkind]
      have hsize : messageSize codecs message = payloadSize codecs message.payload := by
        rw [messageSize, hkind]
      refine .emit_bind ((ih _).mono fun result more events hrest => ?_)
      exact .cons hnot hread rfl hreports (by rwa [hsize])
    | error =>
      have hnot : message.isComplete = false := by rw [ServerMessage.isComplete, hkind]; rfl
      have hreports : [payloadChunk codecs message.payload,
          errorWarning codecs message.payload] = messageReports codecs message := by
        rw [messageReports, hkind]
      have hsize : messageSize codecs message = payloadSize codecs message.payload := by
        rw [messageSize, hkind]
      refine .emit_bind (.emit_bind ((ih _).mono fun result more events hrest => ?_))
      exact .cons hnot hread rfl hreports (by rwa [hsize])
    | complete =>
      have hcomplete : message.isComplete = true := by rw [ServerMessage.isComplete, hkind]; rfl
      have huntil : untilComplete (message :: messages) = [] := by
        rw [untilComplete, List.takeWhile_cons, hcomplete]
        rfl
      have hindex : (message :: messages).findIdx ServerMessage.isComplete = 0 := by
        rw [List.findIdx_cons, hcomplete]
        rfl
      exact .pure (.of_end huntil hread (by rw [hindex]; rfl))
    | ping =>
      have hnot : message.isComplete = false := by rw [ServerMessage.isComplete, hkind]; rfl
      have hreports : [] = messageReports codecs message := by rw [messageReports, hkind]
      have hsize : messageSize codecs message = 0 := by rw [messageSize, hkind]
      refine sendJson_bind ?_ ?_
      · intro first hfirst hsent
        refine (ih bytes).mono fun result more events hrest => ?_
        have hfirstRead : receivedFrames (.received frame :: first) = [frame] :=
          congrArg (frame :: ·) hfirst
        exact .cons hnot (allSent_append.mpr ⟨hread, hsent⟩) hfirstRead hreports
          (by rwa [hsize])
      · intro e first _ hunsent
        exact .of_broken (not_allSent_cons hunsent)

/-! ## A whole connection -/

/-- The messages behind the acknowledgement. -/
def operationMessages (messages : List ServerMessage) : List ServerMessage :=
  messages.drop (messages.findIdx ServerMessage.isAck + 1)

/-- How many messages are read: those up to the acknowledgement, and behind it those up to the
one that says that the operation is complete. -/
def messagesRead (messages : List ServerMessage) : Nat :=
  (messages.findIdx ServerMessage.isAck + 1) +
    ((operationMessages messages).findIdx ServerMessage.isComplete + 1)

def lastChunk : ExecutionEvent := .responseChunk (some contentType) 0 none none true

variable (codecs) in
structure Conversed (connection : WebSocket.Connection) (frames : List Frame)
    (messages : List ServerMessage) (result : Except DriverError Nat)
    (traffic : List WebSocket.Traffic) (events : List ExecutionEvent) : Prop where
  broken : ¬AllSent traffic → ∃ e, result = .error e
  closed : AllSent traffic → messages.any ServerMessage.isAck = false →
    result = .error (.protocol "GraphQL subscription closed before connection_ack") ∧
      events = [switchedMeta connection]
  counted : AllSent traffic → messages.any ServerMessage.isAck = true → result =
    .ok ((untilComplete (operationMessages messages)).map (messageSize codecs)).sum
  read : AllSent traffic → messages.any ServerMessage.isAck = true →
    receivedFrames traffic = frames.take (messagesRead messages)
  reported : AllSent traffic → messages.any ServerMessage.isAck = true → events =
    [switchedMeta connection, running .transfer] ++
      ((untilComplete (operationMessages messages)).flatMap (messageReports codecs) ++ [lastChunk])

variable {connection : WebSocket.Connection}

theorem Conversed.of_broken (h : ¬AllSent traffic) :
    Conversed codecs connection frames messages (.error e) traffic events where
  broken _ := ⟨e, rfl⟩
  closed hsent := absurd hsent h
  counted hsent := absurd hsent h
  read hsent := absurd hsent h
  reported hsent := absurd hsent h

theorem not_allSent_append {first second : List WebSocket.Traffic}
    (h : ¬AllSent first ∨ ¬AllSent second) : ¬AllSent (first ++ second) := by
  rw [allSent_append]
  exact not_and_or.mpr h

variable {library} in
/-- The messages of the operation are reported when the acknowledgement has been read. -/
theorem utters_operation (h : List.Forall₂ (Carries library) frames messages)
    (payload : GraphqlPayload) :
    Utters (do
      sendJson library (subscribeMessage payload)
      emit (running .transfer)
      let bytes ← receiveMessages codecs library (frames.map .frame) 0
      emit lastChunk
      return bytes) fun result more events =>
        (¬AllSent more → ∃ e, result = .error e) ∧ (AllSent more →
          result = .ok ((untilComplete messages).map (messageSize codecs)).sum ∧
          receivedFrames more = frames.take (messages.findIdx ServerMessage.isComplete + 1) ∧
          events = running .transfer ::
            ((untilComplete messages).flatMap (messageReports codecs) ++ [lastChunk])) := by
  refine sendJson_bind ?_ fun e first _ hunsent =>
    ⟨fun _ => ⟨e, rfl⟩, fun hsent => absurd hsent hunsent⟩
  intro first hfirst hfirstSent
  refine .emit_bind ((utters_receiveMessages h 0).bind ?_ ?_)
  · intro bytes more events hreceived
    refine .emit_bind (.pure ?_)
    rw [List.append_nil]
    have hmoreSent : AllSent more := by
      by_contra hunsent
      obtain ⟨e, he⟩ := hreceived.broken hunsent
      cases he
    have hall : AllSent (first ++ more) := allSent_append.mpr ⟨hfirstSent, hmoreSent⟩
    refine ⟨fun hunsent => absurd hall hunsent, fun _ => ⟨?_, ?_, ?_⟩⟩
    · rw [hreceived.counted hmoreSent, Nat.zero_add]
    · rw [receivedFrames_append, hfirst, hreceived.read hmoreSent, List.nil_append]
    · rw [hreceived.reported hmoreSent]
  · intro e more events hreceived
    have hunsent : ¬AllSent more := fun hsent => by cases hreceived.counted hsent
    exact ⟨fun _ => ⟨e, rfl⟩, fun hsent =>
      absurd hsent (not_allSent_append (.inr hunsent))⟩

variable {library} in
theorem utters_converse (harrivals : connection.arrivals = frames.map .frame)
    (h : List.Forall₂ (Carries library) frames messages) (payload : GraphqlPayload) :
    Utters (converse codecs library payload connection)
      (Conversed codecs connection frames messages) := by
  unfold converse
  refine .emit_bind (sendJson_bind ?_ fun e first _ hunsent => .of_broken hunsent)
  intro first hfirst hfirstSent
  rw [harrivals]
  refine (utters_awaitAck h).bind ?_ ?_
  · intro arrivals waited events hwaited
    have hwaitedSent : AllSent waited := by
      by_contra hunsent
      obtain ⟨e, he⟩ := hwaited.broken hunsent
      cases he
    have hack : messages.any ServerMessage.isAck = true := by
      by_contra hnone
      cases hwaited.closed hwaitedSent (Bool.not_eq_true _ ▸ hnone)
    obtain ⟨hrest, hread⟩ := hwaited.acknowledged hwaitedSent hack
    cases hrest
    have hoperation : List.Forall₂ (Carries library)
        (frames.drop (messages.findIdx ServerMessage.isAck + 1)) (operationMessages messages) :=
      List.forall₂_drop _ h
    refine (utters_operation hoperation payload).mono fun result more after hrun => ?_
    rw [hwaited.quiet, List.nil_append]
    constructor
    · intro hunsent
      refine hrun.1 fun hsent => hunsent ?_
      exact allSent_append.mpr ⟨hfirstSent, allSent_append.mpr ⟨hwaitedSent, hsent⟩⟩
    · intro _ hnone
      rw [hack] at hnone
      cases hnone
    · intro hsent _
      exact (hrun.2 (allSent_append.mp (allSent_append.mp hsent).2).2).1
    · intro hsent _
      have hoperationRead := (hrun.2 (allSent_append.mp (allSent_append.mp hsent).2).2).2.1
      rw [receivedFrames_append, hfirst, receivedFrames_append, hread, hoperationRead,
        List.nil_append, messagesRead]
      exact List.take_add.symm
    · intro hsent _
      rw [(hrun.2 (allSent_append.mp (allSent_append.mp hsent).2).2).2.2]
      rfl
  · intro e waited events hwaited
    rw [hwaited.quiet]
    constructor
    · exact fun _ => ⟨e, rfl⟩
    · intro hsent hnone
      have hclosed := Except.error.inj (hwaited.closed (allSent_append.mp hsent).2 hnone)
      exact ⟨congrArg Except.error hclosed, rfl⟩
    · intro hsent hack
      cases (hwaited.acknowledged (allSent_append.mp hsent).2 hack).1
    · intro hsent hack
      cases (hwaited.acknowledged (allSent_append.mp hsent).2 hack).1
    · intro hsent hack
      cases (hwaited.acknowledged (allSent_append.mp hsent).2 hack).1

end Running

end ApiVoy.Drivers.Graphql
