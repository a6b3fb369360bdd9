/-
# The runs of the WebSocket driver

What is said on a connection is described by a relation between the result of a computation, the
traffic that it adds and the events that it emits. From the descriptions of sending and of
receiving follows what a whole connection comes to, and from this an invariant of all connections:
the request bounds their number and the number of the messages, and every connection but the last
one has been used to its end.
-/

import ApiVoy.Drivers.WebSocket

namespace ApiVoy.Drivers.WebSocket

open Foundation Domain Engine

/-! ## Traffic -/

/-- The messages of the request that have been sent. -/
def configured (traffic : List Traffic) : List Frame :=
  traffic.filterMap fun
    | .sent (.text value) => some (.text value)
    | .sent (.binary value) => some (.binary value)
    | _ => none

def pings (traffic : List Traffic) : List Bytes :=
  traffic.filterMap fun
    | .received (.ping value) => some value
    | _ => none

def pongs (traffic : List Traffic) : List Bytes :=
  traffic.filterMap fun
    | .sent (.pong value) => some value
    | _ => none

/-- The reports that the messages of some traffic call for. -/
def reports (codecs : Codecs) (traffic : List Traffic) : List ExecutionEvent :=
  traffic.filterMap fun
    | .received (.text value) => some (.responseChunk (some "text/plain")
        (UInt64.ofNat (utf8 value).length) (some value) (some (codecs.encodeBase64 (utf8 value)))
        false)
    | .received (.binary value) => some (.responseChunk (some "application/octet-stream")
        (UInt64.ofNat value.length) (some ("[binary frame: " ++ toString value.length ++ " bytes]"))
        (some (codecs.encodeBase64 value)) false)
    | _ => none

/-- How many messages have been read. -/
def messageCount (traffic : List Traffic) : Nat :=
  traffic.countP fun
    | .received (.text _) | .received (.binary _) => true
    | _ => false

def reported (events : List ExecutionEvent) : List ExecutionEvent :=
  events.filter fun
    | .responseChunk _ _ _ _ false => true
    | _ => false

section Append

variable (codecs : Codecs) (first second : List Traffic)

@[simp]
theorem configured_append : configured (first ++ second) = configured first ++ configured second :=
  List.filterMap_append

@[simp]
theorem pings_append : pings (first ++ second) = pings first ++ pings second :=
  List.filterMap_append

@[simp]
theorem pongs_append : pongs (first ++ second) = pongs first ++ pongs second :=
  List.filterMap_append

@[simp]
theorem reports_append : reports codecs (first ++ second) =
    reports codecs first ++ reports codecs second := List.filterMap_append

@[simp]
theorem messageCount_append : messageCount (first ++ second) =
    messageCount first + messageCount second := List.countP_append

@[simp]
theorem reported_append (first second : List ExecutionEvent) :
    reported (first ++ second) = reported first ++ reported second := List.filter_append ..

end Append

namespace Server

/-- The server after some more traffic on the connection that was opened last. -/
def saying (server : Server) (writes : List (Except String Unit)) (more : List Traffic) : Server :=
  { server with
    writes := writes
    conversations := match server.conversations with
      | [] => []
      | current :: past => (current ++ more) :: past }

theorem note_eq_saying (entry : Traffic) (server : Server) :
    server.note entry = server.saying server.writes [entry] := by
  obtain ⟨connections, pauses, attempts, paused, writes, conversations⟩ := server
  cases conversations <;> rfl

variable (server : Server)

theorem saying_saying (writes writes' : List (Except String Unit)) (first second : List Traffic) :
    (server.saying writes first).saying writes' second = server.saying writes' (first ++ second) := by
  obtain ⟨connections, pauses, attempts, paused, -, conversations⟩ := server
  cases conversations with
  | nil => rfl
  | cons current past => simp only [saying, List.append_assoc]

theorem saying_nil : server.saying server.writes [] = server := by
  obtain ⟨connections, pauses, attempts, paused, writes, conversations⟩ := server
  cases conversations with
  | nil => rfl
  | cons current past => simp only [saying, List.append_nil]

end Server

/-! ## Computations on a connection -/

/-- Of the result, the traffic that is added and the events that are emitted, `P` holds. -/
def Utters {α : Type} (m : WebSocketM α)
    (P : Except DriverError α → List Traffic → List ExecutionEvent → Prop) : Prop :=
  ∀ server events, ∃ result writes more events',
    m.run ⟨server, events⟩ = (result, ⟨server.saying writes more, events ++ events'⟩) ∧
      P result more events'

namespace Utters

variable {α β : Type} {m : WebSocketM α} {f : α → WebSocketM β}
  {P : Except DriverError α → List Traffic → List ExecutionEvent → Prop}
  {Q : Except DriverError β → List Traffic → List ExecutionEvent → Prop}

theorem of_result {result : Except DriverError α} (hm : ∀ session, m.run session = (result, session))
    (h : P result [] []) : Utters m P := fun server events =>
  ⟨result, server.writes, [], [], by rw [hm, server.saying_nil, List.append_nil], h⟩

theorem pure {a : α} (h : P (.ok a) [] []) : Utters (Pure.pure a) P := of_result (fun _ => rfl) h

theorem fail {e : DriverError} (h : P (.error e) [] []) : Utters (Fallible.fail e) P :=
  of_result (fun _ => rfl) h

/-- Run one computation behind another one. -/
theorem bind (hm : Utters m P)
    (hok : ∀ a first events, P (.ok a) first events →
      Utters (f a) fun result rest events' => Q result (first ++ rest) (events ++ events'))
    (herror : ∀ e first events, P (.error e) first events → Q (.error e) first events) :
    Utters (m >>= f) Q := by
  intro server events
  obtain ⟨result, writes, first, events₁, hrun, hP⟩ := hm server events
  cases result with
  | error e =>
    exact ⟨.error e, writes, first, events₁, Fallible.run_bind_of_error hrun,
      herror e first events₁ hP⟩
  | ok a =>
    obtain ⟨result, writes', rest, events₂, hrest, hQ⟩ :=
      hok a first events₁ hP (server.saying writes first) (events ++ events₁)
    refine ⟨result, writes', first ++ rest, events₁ ++ events₂, ?_, hQ⟩
    rw [Fallible.run_bind_of_ok hrun, hrest, Server.saying_saying, List.append_assoc]

theorem emit_bind {event : ExecutionEvent} {f : Unit → WebSocketM β}
    (h : Utters (f ()) fun result more events => Q result more (event :: events)) :
    Utters (emit event >>= f) Q := by
  intro server events
  obtain ⟨result, writes, more, events', hrun, hQ⟩ := h server (events ++ [event])
  refine ⟨result, writes, more, event :: events', ?_, hQ⟩
  rw [Fallible.run_bind_of_ok (run_emit _ _), hrun, List.append_assoc]
  rfl

theorem receive_bind {frame : Frame} {f : Unit → WebSocketM β}
    (h : Utters (f ()) fun result more events => Q result (.received frame :: more) events) :
    Utters (askPeer (Server.receive frame) >>= f) Q := by
  intro server events
  obtain ⟨result, writes, more, events', hrun, hQ⟩ :=
    h (server.saying server.writes [.received frame]) events
  refine ⟨result, writes, .received frame :: more, events', ?_, hQ⟩
  rw [Server.saying_saying] at hrun
  rw [Fallible.run_bind_of_ok (run_askPeer _ _), Server.receive]
  dsimp only
  rw [Server.note_eq_saying, hrun]
  rfl

theorem mono {P' : Except DriverError α → List Traffic → List ExecutionEvent → Prop}
    (hm : Utters m P) (h : ∀ result more events, P result more events → P' result more events) :
    Utters m P' := by
  intro server events
  obtain ⟨result, writes, more, events', hrun, hP⟩ := hm server events
  exact ⟨result, writes, more, events', hrun, h _ _ _ hP⟩

end Utters

/-- A frame is sent, or the run fails and it is not. -/
theorem utters_sendFrame (frame : Frame) : Utters (sendFrame frame) fun result more events =>
    events = [] ∧ match result with
      | .ok () => more = [.sent frame]
      | .error _ => more = [.unsent frame] := by
  intro server events
  have hask := run_askPeer (Server.send frame) ⟨server, events⟩
  cases hwrites : server.writes with
  | nil =>
    rw [Server.send, hwrites] at hask
    refine ⟨.ok (), server.writes, _, [], ?_, rfl, rfl⟩
    rw [← Server.note_eq_saying, List.append_nil]
    exact Fallible.run_bind_of_ok hask
  | cons outcome rest =>
    cases outcome with
    | ok sent =>
      rw [Server.send, hwrites] at hask
      refine ⟨.ok (), rest, _, [], ?_, rfl, rfl⟩
      rw [List.append_nil]
      refine (Fallible.run_bind_of_ok hask).trans ?_
      dsimp only
      rw [Server.note_eq_saying]
      rfl
    | error e =>
      rw [Server.send, hwrites] at hask
      refine ⟨.error (.protocol e), rest, _, [], ?_, rfl, rfl⟩
      rw [List.append_nil]
      refine (Fallible.run_bind_of_ok hask).trans ?_
      dsimp only
      rw [Server.note_eq_saying]
      rfl

/-! ## One connection -/

section Connections

variable (codecs : Codecs)

/-- The frame that a message of the request stands for: its text, or the bytes that are written
in Base64. -/
def intended (message : WebSocketMessage) : Option Frame :=
  if message.encoding = "binary" then
    match codecs.decodeBase64 message.data with
    | .ok bytes => some (.binary bytes)
    | .error _ => none
  else some (.text message.data)

/-- The messages of the request have been sent, each once and in order, and each ping has been
answered. -/
structure Kept (messages : List WebSocketMessage) (traffic : List Traffic) : Prop where
  configured : (configured traffic).map some = messages.map (intended codecs)
  answered : pongs traffic = pings traffic

/-- The first messages of the request have been sent in order, and each ping has been answered
but for one that the run failed to answer. -/
structure Broken (messages : List WebSocketMessage) (traffic : List Traffic) : Prop where
  configured : (configured traffic).map some <+: messages.map (intended codecs)
  answered : pongs traffic = pings traffic ∨
    ∃ value, pings traffic = pongs traffic ++ [value] ∧ .unsent (.pong value) ∈ traffic

variable {messages : List WebSocketMessage} {traffic : List Traffic}

theorem Kept.broken (h : Kept codecs messages traffic) : Broken codecs messages traffic :=
  ⟨h.configured ▸ List.prefix_rfl, .inl h.answered⟩

/-- Only messages of the request are sent, and nothing is read. -/
structure Silent (traffic : List Traffic) (events : List ExecutionEvent) : Prop where
  pings : pings traffic = []
  pongs : pongs traffic = []
  messageCount : messageCount traffic = 0
  reports : reports codecs traffic = []
  events : events = []

theorem configured_frameOf {message : WebSocketMessage} {frame : Frame}
    (h : frameOf codecs message = .ok frame) :
    intended codecs message = some frame ∧
      configured [.sent frame] = [frame] ∧ Silent codecs [.sent frame] [] ∧
      configured [.unsent frame] = [] ∧ Silent codecs [.unsent frame] [] := by
  rw [frameOf] at h
  rw [intended]
  by_cases hbinary : message.encoding = "binary"
  · rw [if_pos hbinary] at h ⊢
    obtain ⟨bytes, hbytes, ⟨⟩⟩ := bind_eq_ok_iff.mp h
    rw [binary] at hbytes
    cases hdecoded : codecs.decodeBase64 message.data with
    | error =>
      rw [hdecoded] at hbytes
      cases hbytes
    | ok data =>
      rw [hdecoded] at hbytes
      cases hbytes
      exact ⟨rfl, rfl, ⟨rfl, rfl, rfl, rfl, rfl⟩, rfl, ⟨rfl, rfl, rfl, rfl, rfl⟩⟩
  · rw [if_neg hbinary] at h ⊢
    cases h
    exact ⟨rfl, rfl, ⟨rfl, rfl, rfl, rfl, rfl⟩, rfl, ⟨rfl, rfl, rfl, rfl, rfl⟩⟩

theorem Silent.append {first second : List Traffic} {events events' : List ExecutionEvent}
    (hfirst : Silent codecs first events) (hsecond : Silent codecs second events') :
    Silent codecs (first ++ second) (events ++ events') := by
  constructor
  · rw [pings_append, hfirst.pings, hsecond.pings, List.append_nil]
  · rw [pongs_append, hfirst.pongs, hsecond.pongs, List.append_nil]
  · rw [messageCount_append, hfirst.messageCount, hsecond.messageCount]
  · rw [reports_append, hfirst.reports, hsecond.reports, List.append_nil]
  · rw [hfirst.events, hsecond.events, List.append_nil]

/-- The messages of the request are sent, or the first ones of them when the run fails. -/
theorem utters_sendMessages (messages : List WebSocketMessage) :
    Utters (sendMessages codecs messages) fun result more events => Silent codecs more events ∧
      match result with
      | .ok () => (configured more).map some = messages.map (intended codecs)
      | .error _ => (configured more).map some <+: messages.map (intended codecs) := by
  induction messages with
  | nil => exact .pure ⟨⟨rfl, rfl, rfl, rfl, rfl⟩, rfl⟩
  | cons message messages ih =>
    cases hframe : frameOf codecs message with
    | error e =>
      rw [sendMessages, hframe]
      change Utters (Fallible.fail e) _
      exact .fail ⟨⟨rfl, rfl, rfl, rfl, rfl⟩, List.nil_prefix⟩
    | ok frame =>
      obtain ⟨hintended, hsent, hsentSilent, hunsent, hunsentSilent⟩ :=
        configured_frameOf codecs hframe
      rw [sendMessages, hframe, List.map_cons, hintended]
      change Utters (sendFrame frame >>= fun _ => sendMessages codecs messages) _
      refine (utters_sendFrame frame).bind ?_ ?_
      · rintro ⟨⟩ first events ⟨rfl, rfl⟩
        refine ih.mono fun result rest events' ⟨hsilent, hconfigured⟩ => ?_
        refine ⟨hsentSilent.append codecs hsilent, ?_⟩
        rw [configured_append, hsent, List.map_append]
        cases result with
        | ok done => exact congrArg (some frame :: ·) hconfigured
        | error e => exact List.prefix_cons_inj (some frame) |>.mpr hconfigured
      · rintro e first events ⟨rfl, rfl⟩
        refine ⟨hunsentSilent, ?_⟩
        rw [hunsent]
        exact List.nil_prefix

/-- What reading comes to: every message is reported, every ping is answered, and no more
messages are read than are asked for. -/
structure Heard (limit frames : Nat) (traffic : List Traffic) (events : List ExecutionEvent) :
    Prop where
  configured : configured traffic = []
  reported : reported events = reports codecs traffic
  limit : frames + messageCount traffic ≤ max frames limit

theorem heard_nil (limit frames : Nat) : Heard codecs limit frames [] [] :=
  ⟨rfl, rfl, le_max_left _ _⟩

variable {rest : List Traffic} {events : List ExecutionEvent}

variable {limit frames : Nat}

variable (first : List Traffic)

variable {codecs} in
/-- Frames that are no messages are not reported. -/
theorem heard_other (before : List ExecutionEvent) (hconfigured : configured first = [])
    (hreports : reports codecs first = []) (hcount : messageCount first = 0)
    (hbefore : reported before = []) (h : Heard codecs limit frames rest events) :
    Heard codecs limit frames (first ++ rest) (before ++ events) := by
  constructor
  · rw [configured_append, hconfigured, h.configured, List.append_nil]
  · rw [reported_append, hbefore, reports_append, hreports, h.reported]
  · rw [messageCount_append, hcount, Nat.zero_add]
    exact h.limit

variable {chunk : ExecutionEvent}

variable {entry : Traffic}

variable {codecs} in
/-- A message is reported and counted. -/
theorem heard_message (hconfigured : configured [entry] = [])
    (hreports : reports codecs [entry] = reported [chunk]) (hcount : messageCount [entry] = 1)
    (hlimit : frames < limit) (h : Heard codecs limit (frames + 1) rest events) :
    Heard codecs limit frames ([entry] ++ rest) ([chunk] ++ events) := by
  constructor
  · rw [configured_append, hconfigured, h.configured, List.append_nil]
  · rw [reported_append, reports_append, hreports, h.reported]
  · have hrest := h.limit
    rw [messageCount_append, hcount]
    omega

/-- Every ping has been answered, but for one that a failing run could not answer. -/
def Answered {α : Type} (result : Except DriverError α) (traffic : List Traffic) : Prop :=
  match result with
  | .ok _ => pongs traffic = pings traffic
  | .error _ => pongs traffic = pings traffic ∨
      ∃ value, pings traffic = pongs traffic ++ [value] ∧ .unsent (.pong value) ∈ traffic

theorem Answered.append {α : Type} {result : Except DriverError α} (h : Answered result rest)
    {first : List Traffic} (hfirst : pongs first = pings first) :
    Answered result (first ++ rest) := by
  cases result with
  | ok a =>
    change pongs _ = pings _
    rw [pongs_append, pings_append, hfirst, show pongs rest = pings rest from h]
  | error e =>
    rcases h with h | ⟨value, hpings, hmem⟩
    · refine .inl ?_
      rw [pongs_append, pings_append, hfirst, h]
    · refine .inr ⟨value, ?_, List.mem_append_right _ hmem⟩
      rw [pongs_append, pings_append, hfirst, hpings, List.append_assoc]

/-- The messages that have been read are counted. -/
def Counted (frames : Nat) (result : Except DriverError (Nat × Nat)) (traffic : List Traffic) :
    Prop := ∀ bytes frames', result = .ok (bytes, frames') → frames' = frames + messageCount traffic

theorem Counted.append {frames : Nat} {result : Except DriverError (Nat × Nat)}
    (h : Counted (frames + messageCount first) result rest) :
    Counted frames result (first ++ rest) := by
  intro bytes frames' hresult
  rw [h bytes frames' hresult, messageCount_append, Nat.add_assoc]

/-- What reading frames comes to. -/
def HearsAll (limit frames : Nat) (result : Except DriverError (Nat × Nat))
    (traffic : List Traffic) (events : List ExecutionEvent) : Prop :=
  Heard codecs limit frames traffic events ∧ Answered result traffic ∧
    Counted frames result traffic

variable {codecs} in
theorem utters_stop {limit bytes frames : Nat} :
    Utters (pure (bytes, frames)) (HearsAll codecs limit frames) :=
  .pure ⟨heard_nil codecs limit frames, rfl, by rintro _ _ ⟨⟩; rfl⟩

variable {m : WebSocketM (Nat × Nat)}

variable {codecs} in
/-- A message that is read goes before the rest. -/
theorem hearsAll_message (hconfigured : configured [entry] = [])
    (hreports : reports codecs [entry] = reported [chunk]) (hcount : messageCount [entry] = 1)
    (hanswered : pongs [entry] = pings [entry]) (hlimit : frames < limit)
    (hm : Utters m (HearsAll codecs limit (frames + 1))) :
    Utters m fun result rest events =>
      HearsAll codecs limit frames result ([entry] ++ rest) ([chunk] ++ events) := by
  refine hm.mono fun result rest events ⟨hheard, hrest, hcounted⟩ => ?_
  refine ⟨heard_message hconfigured hreports hcount hlimit hheard, hrest.append hanswered,
    Counted.append [entry] ?_⟩
  rw [hcount]
  exact hcounted

variable {codecs} in
/-- So do frames that are no messages. -/
theorem hearsAll_other (before : List ExecutionEvent) (hconfigured : configured first = [])
    (hreports : reports codecs first = []) (hcount : messageCount first = 0)
    (hbefore : reported before = []) (hanswered : pongs first = pings first)
    (hm : Utters m (HearsAll codecs limit frames)) :
    Utters m fun result rest events =>
      HearsAll codecs limit frames result (first ++ rest) (before ++ events) := by
  refine hm.mono fun result rest events ⟨hheard, hrest, hcounted⟩ => ?_
  refine ⟨heard_other first before hconfigured hreports hcount hbefore hheard,
    hrest.append hanswered, Counted.append first ?_⟩
  rw [hcount]
  exact hcounted

/-- Frames are read until enough messages have been read or the connection ends. -/
theorem utters_receiveLoop (limit : Nat) (arrivals : List Arrival) (bytes frames : Nat) :
    Utters (receiveLoop codecs limit arrivals bytes frames) (HearsAll codecs limit frames) := by
  induction arrivals generalizing bytes frames with
  | nil => exact utters_stop
  | cons arrival arrivals ih =>
    unfold receiveLoop
    by_cases hlimit : frames < limit
    swap
    · rw [if_neg hlimit]
      exact utters_stop
    rw [if_pos hlimit]
    cases arrival with
    | cancelled => exact .fail ⟨heard_nil codecs limit frames, .inl rfl, by rintro _ _ ⟨⟩⟩
    | ended => exact utters_stop
    | failed message => exact utters_stop
    | frame frame =>
      refine Utters.receive_bind ?_
      cases frame with
      | text value =>
        exact Utters.emit_bind (hearsAll_message rfl rfl rfl rfl hlimit (ih _ _))
      | binary value =>
        exact Utters.emit_bind (hearsAll_message rfl rfl rfl rfl hlimit (ih _ _))
      | ping value =>
        refine (utters_sendFrame (.pong value)).bind ?_ ?_
        · rintro ⟨⟩ first events ⟨rfl, rfl⟩
          exact Utters.emit_bind (hearsAll_other
            [.received (.ping value), .sent (.pong value)]
            [.log "debug" "WebSocket ping/pong"] rfl rfl rfl rfl rfl (ih _ _))
        · rintro e first events ⟨rfl, rfl⟩
          refine ⟨?_, .inr ⟨value, rfl, by simp⟩, by rintro _ _ ⟨⟩⟩
          exact heard_other [.received (.ping value), .unsent (.pong value)] [] rfl rfl rfl
            rfl (heard_nil codecs limit frames)
      | close => exact hearsAll_other [.received .close] [] rfl rfl rfl rfl rfl utters_stop
      | pong value =>
        exact hearsAll_other [.received (.pong value)] [] rfl rfl rfl rfl rfl (ih _ _)
      | raw value =>
        exact hearsAll_other [.received (.raw value)] [] rfl rfl rfl rfl rfl (ih _ _)

/-- What a connection has come to when the run goes on or has failed. -/
def Ended {α : Type} (messages : List WebSocketMessage) (result : Except DriverError α)
    (traffic : List Traffic) : Prop :=
  match result with
  | .ok _ => Kept codecs messages traffic
  | .error _ => Broken codecs messages traffic

variable {codecs} in
theorem Kept.ended {α : Type} (h : Kept codecs messages traffic) (result : Except DriverError α) :
    Ended codecs messages result traffic := by
  cases result with
  | ok a => exact h
  | error e => exact h.broken codecs

structure Conversed (messages : List WebSocketMessage) (limit frames : Nat)
    (result : Except DriverError (Nat × Nat)) (traffic : List Traffic)
    (events : List ExecutionEvent) : Prop where
  reported : reported events = reports codecs traffic
  limit : frames + messageCount traffic ≤ max frames limit
  counted : Counted frames result traffic
  ended : Ended codecs messages result traffic

/-- The messages of the request are sent before frames are read. -/
theorem utters_converse (messages : List WebSocketMessage) (limit : Nat) (connection : Connection)
    (bytes frames : Nat) : Utters (converse codecs messages limit connection bytes frames)
      (Conversed codecs messages limit frames) := by
  refine Utters.emit_bind ((utters_sendMessages codecs messages).bind ?_ ?_)
  · rintro ⟨⟩ first events ⟨hsilent, hconfigured⟩
    refine Utters.emit_bind ((utters_receiveLoop codecs limit connection.arrivals bytes frames).mono
      fun result rest events' ⟨hheard, hanswered, hcounted⟩ => ?_)
    have hall : configured (first ++ rest) = configured first := by
      rw [configured_append, hheard.configured, List.append_nil]
    have hfirst : pongs first = pings first := by rw [hsilent.pongs, hsilent.pings]
    constructor
    · rw [hsilent.events, reports_append, hsilent.reports, ← hheard.reported]
      rfl
    · rw [messageCount_append, hsilent.messageCount, Nat.zero_add]
      exact hheard.limit
    · refine Counted.append first ?_
      rw [hsilent.messageCount]
      exact hcounted
    · have hanswered := hanswered.append hfirst
      have hsent : (configured (first ++ rest)).map some = messages.map (intended codecs) := by
        rw [hall]
        exact hconfigured
      cases result with
      | ok counts => exact ⟨hsent, hanswered⟩
      | error e => exact ⟨hsent ▸ List.prefix_rfl, hanswered⟩
  · rintro e first events ⟨hsilent, hconfigured⟩
    refine ⟨?_, ?_, (by rintro _ _ ⟨⟩), ⟨hconfigured, .inl ?_⟩⟩
    · rw [hsilent.events, hsilent.reports]
      rfl
    · rw [hsilent.messageCount]
      exact le_max_left _ _
    · rw [hsilent.pongs, hsilent.pings]

end Connections

/-! ## All connections -/

section Runs

variable (codecs : Codecs) (payload : WebSocketPayload)

/-- A connection is opened behind others only while fewer messages have been read than the
request asks for. -/
def Further (limit : Nat) (conversations : List (List Traffic)) : Prop :=
  ∀ newer earlier, conversations = newer ++ earlier → newer ≠ [] → earlier ≠ [] →
    messageCount earlier.flatten < limit

/-- Before an attempt to connect, with a number of attempts left behind it. -/
structure Going (left frames : Nat) (session : Session Server) : Prop where
  attempts : session.peer.attempts + left = payload.reconnectMax.toNat
  counted : messageCount session.peer.conversations.flatten = frames
  reported : reported session.events = reports codecs session.peer.conversations.reverse.flatten
  kept : ∀ traffic ∈ session.peer.conversations, Kept codecs payload.messages traffic
  limit : frames ≤ receiveLimit payload
  unlimited : session.peer.conversations ≠ [] → frames < receiveLimit payload
  further : Further (receiveLimit payload) session.peer.conversations

/-- The bounds of a run. The connection that was opened last is the first one. -/
structure RunBounds {α : Type} (result : Except DriverError α) (session : Session Server) :
    Prop where
  attempts : session.peer.attempts ≤ payload.reconnectMax.toNat + 1
  received : messageCount session.peer.conversations.flatten ≤ receiveLimit payload
  /-- Each message is reported once, in the order of the messages. -/
  reported : reported session.events = reports codecs session.peer.conversations.reverse.flatten
  kept : ∀ traffic ∈ session.peer.conversations.tail, Kept codecs payload.messages traffic
  last : ∀ traffic ∈ session.peer.conversations.head?, Ended codecs payload.messages result traffic
  further : Further (receiveLimit payload) session.peer.conversations

variable {codecs payload} {α : Type} {left frames : Nat} {session session' : Session Server}

/-- What is not said on a connection and not reported changes no bound, but for the attempts. -/
theorem Going.congr {left' : Nat} (h : Going codecs payload left frames session)
    (hattempts : session'.peer.attempts + left' = session.peer.attempts + left)
    (hsame : session'.peer.conversations = session.peer.conversations)
    (hevents : WebSocket.reported session'.events = WebSocket.reported session.events) :
    Going codecs payload left' frames session' := by
  constructor
  · rw [hattempts, h.attempts]
  · rw [hsame, h.counted]
  · rw [hsame, hevents, h.reported]
  · rw [hsame]
    exact h.kept
  · exact h.limit
  · rw [hsame]
    exact h.unlimited
  · rw [hsame]
    exact h.further

variable {events : List ExecutionEvent} {server : Server}

/-- The run may end when no connection has been opened. -/
theorem Going.stop (h : Going codecs payload left frames ⟨server, events⟩)
    (result : Except DriverError α) :
    RunBounds codecs payload result ⟨{ server with attempts := server.attempts + 1 }, events⟩ := by
  constructor
  · have hsum : server.attempts + left = payload.reconnectMax.toNat := h.attempts
    dsimp only
    omega
  · rw [h.counted]
    exact h.limit
  · exact h.reported
  · exact fun traffic htraffic => h.kept traffic (List.mem_of_mem_tail htraffic)
  · exact fun traffic htraffic => (h.kept traffic (List.mem_of_mem_head? htraffic)).ended result
  · exact h.further

/-- A connection is opened behind the others only before the limit is reached. -/
theorem Going.further_cons (h : Going codecs payload left frames session)
    (traffic : List Traffic) :
    Further (receiveLimit payload) (traffic :: session.peer.conversations) := by
  intro newer earlier hall hnewer hearlier
  cases newer with
  | nil => exact absurd rfl hnewer
  | cons first newer =>
    rw [List.cons_append, List.cons.injEq] at hall
    cases newer with
    | nil =>
      rw [← show session.peer.conversations = earlier from hall.2, h.counted]
      refine h.unlimited ?_
      rw [hall.2]
      exact hearlier
    | cons second newer => exact h.further _ _ hall.2 (List.cons_ne_nil _ _) hearlier

/-- A connection that has been used to its end, or to the failure of the run. -/
theorem Going.opened {result : Except DriverError (Nat × Nat)} {traffic : List Traffic}
    {events : List ExecutionEvent} (h : Going codecs payload left frames session)
    (hconversed : Conversed codecs payload.messages (receiveLimit payload) frames result traffic
      events)
    (hattempts : session'.peer.attempts = session.peer.attempts + 1)
    (hconversations : session'.peer.conversations = traffic :: session.peer.conversations)
    (hevents : session'.events = session.events ++ events) :
    RunBounds codecs payload result session' := by
  constructor
  · have hsum := h.attempts
    omega
  · have hsum := hconversed.limit
    rw [max_eq_right h.limit] at hsum
    rw [hconversations, List.flatten_cons, messageCount_append, h.counted, Nat.add_comm]
    exact hsum
  · rw [hconversations, hevents, reported_append, h.reported, hconversed.reported,
      List.reverse_cons, List.flatten_append, reports_append, List.flatten_singleton]
  · rw [hconversations]
    exact h.kept
  · rw [hconversations]
    rintro _ ⟨⟩
    exact hconversed.ended
  · rw [hconversations]
    exact h.further_cons traffic

/-- The run goes on behind a connection when more messages are asked for. -/
theorem RunBounds.going {bytes frames' : Nat}
    (h : RunBounds codecs payload (.ok (bytes, frames') : Except DriverError (Nat × Nat)) session)
    (hattempts : session.peer.attempts + left = payload.reconnectMax.toNat)
    (hcounted : messageCount session.peer.conversations.flatten = frames')
    (hlimit : frames' < receiveLimit payload) : Going codecs payload left frames' session := by
  refine ⟨hattempts, hcounted, h.reported, ?_, hlimit.le, fun _ => hlimit, h.further⟩
  cases hconversations : session.peer.conversations with
  | nil => exact fun _ htraffic => absurd htraffic List.not_mem_nil
  | cons current past =>
    intro traffic htraffic
    rcases List.mem_cons.mp htraffic with rfl | htraffic
    · exact h.last traffic (by rw [hconversations]; rfl)
    · exact h.kept traffic (by rw [hconversations]; exact htraffic)

/-- What is not said on a connection and not reported changes no bound. -/
theorem RunBounds.congr {β : Type} {result : Except DriverError α} {result' : Except DriverError β}
    (h : RunBounds codecs payload result session)
    (hresult : ∀ messages traffic, Ended codecs messages result traffic →
      Ended codecs messages result' traffic)
    (hattempts : session'.peer.attempts = session.peer.attempts)
    (hsame : session'.peer.conversations = session.peer.conversations)
    (hevents : WebSocket.reported session'.events = WebSocket.reported session.events) :
    RunBounds codecs payload result' session' := by
  constructor
  · rw [hattempts]
    exact h.attempts
  · rw [hsame]
    exact h.received
  · rw [hsame, hevents, h.reported]
  · rw [hsame]
    exact h.kept
  · rw [hsame]
    exact fun traffic htraffic => hresult _ _ (h.last traffic htraffic)
  · rw [hsame]
    exact h.further

variable {connection : Connection}

theorem connect_of_opened (h : server.connections server.attempts = .opened connection) :
    server.connect = (.opened connection, { server with
      attempts := server.attempts + 1
      writes := connection.writes
      conversations := [] :: server.conversations }) := by
  rw [Server.connect, h]

theorem connect_of_failed {message : String}
    (h : server.connections server.attempts = .failed message) :
    server.connect = (.failed message, { server with attempts := server.attempts + 1 }) := by
  rw [Server.connect, h]

theorem connect_of_cancelled (h : server.connections server.attempts = .cancelled) :
    server.connect = (.cancelled, { server with attempts := server.attempts + 1 }) := by
  rw [Server.connect, h]

/-- A pause ends, or is cancelled. -/
theorem run_delay (server : Server) (events : List ExecutionEvent) :
    ∃ result, delay.run ⟨server, events⟩ =
        (result, ⟨{ server with paused := server.paused + 1 }, events⟩) ∧
      (result = .ok () ∨ result = .error .cancelled) := by
  have hask := run_askPeer Server.pause ⟨server, events⟩
  rw [delay, Fallible.run_bind_of_ok hask]
  cases hpause : server.pauses server.paused with
  | true =>
    refine ⟨.error .cancelled, ?_, .inr rfl⟩
    rw [Server.pause, hpause]
    rfl
  | false =>
    refine ⟨.ok (), ?_, .inl rfl⟩
    rw [Server.pause, hpause]
    rfl

variable (codecs payload) in
/-- A connection that is opened is used to its end, or to the failure of the run. -/
theorem run_converse {left frames : Nat} (bytes : Nat)
    (h : Going codecs payload left frames ⟨server, events⟩)
    (hopened : server.connections server.attempts = .opened connection) :
    ∃ result session traffic, (converse codecs payload.messages (receiveLimit payload) connection
        bytes frames).run ⟨server.connect.2, events⟩ = (result, session) ∧
      session.peer.attempts = server.attempts + 1 ∧
      session.peer.conversations = traffic :: server.conversations ∧
      Counted frames result traffic ∧ RunBounds codecs payload result session := by
  obtain ⟨result, writes, traffic, events', hrun, hconversed⟩ := utters_converse codecs
    payload.messages (receiveLimit payload) connection bytes frames server.connect.2 events
  refine ⟨result, _, traffic, hrun, ?_, ?_, hconversed.counted, ?_⟩
  · rw [connect_of_opened hopened]
    rfl
  · rw [connect_of_opened hopened]
    rfl
  · refine h.opened hconversed ?_ ?_ rfl
    · rw [connect_of_opened hopened]
      rfl
    · rw [connect_of_opened hopened]
      rfl

variable {β : Type}

theorem ended_of_error {e e' : DriverError} (messages : List WebSocketMessage)
    (traffic : List Traffic) (h : Ended codecs messages (.error e : Except DriverError α) traffic) :
    Ended codecs messages (.error e' : Except DriverError β) traffic := h

theorem ended_of_ok {a : α} (result : Except DriverError β) (messages : List WebSocketMessage)
    (traffic : List Traffic) (h : Ended codecs messages (.ok a : Except DriverError α) traffic) :
    Ended codecs messages result traffic := Kept.ended h result

variable (codecs payload) in
/-- The last attempt keeps to the bounds. -/
theorem connectLoop_zero_bounds {bytes frames : Nat}
    (h : Going codecs payload 0 frames ⟨server, events⟩) :
    RunBounds codecs payload
      ((connectLoop codecs payload 0 bytes frames).run ⟨server, events⟩).1
      ((connectLoop codecs payload 0 bytes frames).run ⟨server, events⟩).2 := by
  unfold connectLoop
  have hask := run_askPeer Server.connect ⟨server, events⟩
  rw [Fallible.run_bind_of_ok hask]
  cases houtcome : server.connections server.attempts with
  | cancelled =>
    rw [connect_of_cancelled houtcome]
    exact h.stop _
  | failed message =>
    rw [connect_of_failed houtcome]
    exact h.stop _
  | opened connection =>
    obtain ⟨result, session, traffic, hrun, -, -, -, hbounds⟩ :=
      run_converse codecs payload bytes h houtcome
    rw [connect_of_opened houtcome] at hrun ⊢
    dsimp only
    cases result with
    | error e =>
      rw [Fallible.run_bind_of_error hrun]
      exact hbounds.congr ended_of_error rfl rfl rfl
    | ok counts =>
      rw [Fallible.run_bind_of_ok hrun]
      exact hbounds.congr (ended_of_ok _) rfl rfl rfl

variable (codecs payload) in
/-- The attempts that are left keep to the bounds. -/
theorem connectLoop_bounds {left bytes frames : Nat}
    (h : Going codecs payload left frames ⟨server, events⟩) :
    RunBounds codecs payload
      ((connectLoop codecs payload left bytes frames).run ⟨server, events⟩).1
      ((connectLoop codecs payload left bytes frames).run ⟨server, events⟩).2 := by
  induction left generalizing bytes frames server events with
  | zero => exact connectLoop_zero_bounds codecs payload h
  | succ left ih =>
    -- Behind a warning the run pauses, and then goes on.
    have hretry {cause : String} {bytes frames : Nat} {session : Session Server}
        (hgoing : Going codecs payload left frames session)
        (hstop : ∀ e, RunBounds codecs payload (.error e : Except DriverError (UInt16 × Nat))
          session) :
        let rest := (do
          emit (reconnectWarning cause (payload.reconnectMax.toNat - left)
            payload.reconnectMax.toNat)
          delay
          connectLoop codecs payload left bytes frames : WebSocketM (UInt16 × Nat)).run session
        RunBounds codecs payload rest.1 rest.2 := by
      obtain ⟨server, events⟩ := session
      obtain ⟨result, hdelay, hresult⟩ := run_delay server (events ++ [reconnectWarning cause
        (payload.reconnectMax.toNat - left) payload.reconnectMax.toNat])
      have hevents : reported (events ++ [reconnectWarning cause
          (payload.reconnectMax.toNat - left) payload.reconnectMax.toNat]) = reported events := by
        rw [reported_append]
        exact List.append_nil _
      dsimp only
      rw [Fallible.run_bind_of_ok (run_emit _ _)]
      rcases hresult with rfl | rfl
      · rw [Fallible.run_bind_of_ok hdelay]
        exact ih (hgoing.congr rfl rfl hevents)
      · rw [Fallible.run_bind_of_error hdelay]
        exact (hstop .cancelled).congr ended_of_error rfl rfl hevents
    unfold connectLoop
    have hask := run_askPeer Server.connect ⟨server, events⟩
    rw [Fallible.run_bind_of_ok hask]
    cases houtcome : server.connections server.attempts with
    | cancelled =>
      rw [connect_of_cancelled houtcome]
      exact h.stop _
    | failed message =>
      rw [connect_of_failed houtcome]
      exact hretry (h.congr (Nat.add_right_comm _ _ _) rfl rfl) fun e => h.stop _
    | opened connection =>
      obtain ⟨result, session, traffic, hrun, hattempts, hconversations, hcounted, hbounds⟩ :=
        run_converse codecs payload bytes h houtcome
      rw [connect_of_opened houtcome] at hrun ⊢
      dsimp only
      cases result with
      | error e =>
        rw [Fallible.run_bind_of_error hrun]
        exact hbounds.congr ended_of_error rfl rfl rfl
      | ok counts =>
        rw [Fallible.run_bind_of_ok hrun]
        by_cases hlimit : receiveLimit payload ≤ counts.2
        · rw [if_pos hlimit]
          exact hbounds.congr (ended_of_ok _) rfl rfl rfl
        · rw [if_neg hlimit]
          refine hretry (hbounds.going ?_ ?_ (Nat.lt_of_not_le hlimit)) fun e =>
            hbounds.congr (ended_of_ok _) rfl rfl rfl
          · have hsum : server.attempts + (left + 1) = payload.reconnectMax.toNat := h.attempts
            rw [hattempts]
            omega
          · rw [hconversations, List.flatten_cons, messageCount_append,
              hcounted counts.1 counts.2 rfl, Nat.add_comm]
            exact congrArg (· + messageCount traffic) h.counted

end Runs

/-- What only emits other events keeps to the bounds. -/
theorem runBounds_bind {codecs : Codecs} {payload : WebSocketPayload} {α β : Type}
    {m : WebSocketM α} {f : α → WebSocketM β} {session : Session Server}
    (hm : RunBounds codecs payload (m.run session).1 (m.run session).2)
    (hf : ∀ a, ∃ b events, Reports (f a) events (.ok b) ∧ reported events = []) :
    RunBounds codecs payload ((m >>= f).run session).1 ((m >>= f).run session).2 := by
  rcases hrun : m.run session with ⟨e | a, session'⟩
  · rw [hrun] at hm
    rw [Fallible.run_bind_of_error hrun]
    exact hm.congr ended_of_error rfl rfl rfl
  · rw [hrun] at hm
    obtain ⟨b, events, hreports, hquiet⟩ := hf a
    rw [Fallible.run_bind_of_ok hrun, hreports]
    refine hm.congr (ended_of_ok _) rfl rfl ?_
    rw [reported_append, hquiet, List.append_nil]

theorem further_nil (limit : Nat) : Further limit [] := by
  intro newer earlier h hnewer
  exact absurd (List.append_eq_nil_iff.mp h.symm).1 hnewer

/-- Every run keeps to the bounds, whatever comes of the connections and of the pauses. A request
that is not for a WebSocket is refused. -/
theorem execute_bounds (codecs : Codecs) (library : WebSocketLibrary) (info : RunInfo)
    (request : RequestEnvelope) (connections : Nat → Connecting) (pauses : Nat → Bool) :
    let final := (execute codecs library info request).run
      ⟨⟨connections, pauses, 0, 0, [], []⟩, []⟩
    match webSocketPayload request with
    | .error e => final.1 = .error e ∧ final.2.peer.attempts = 0
    | .ok payload => RunBounds codecs payload final.1 final.2 := by
  dsimp only
  rw [execute]
  cases hpayload : webSocketPayload request with
  | error e => exact ⟨rfl, rfl⟩
  | ok payload =>
    rw [Fallible.run_bind_of_ok (run_ofExcept _ _)]
    dsimp only
    cases hhandshake : buildHandshake library request payload with
    | error e =>
      rw [Fallible.run_bind_of_error (run_ofExcept _ _)]
      exact ⟨Nat.zero_le _, Nat.zero_le _, rfl, (by rintro _ ⟨⟩), (by rintro _ ⟨⟩),
        further_nil _⟩
    | ok handshake =>
      rw [Fallible.run_bind_of_ok (run_ofExcept _ _), Fallible.run_bind_of_ok (run_emit _ _)]
      have hstart : Going codecs payload payload.reconnectMax.toNat 0
          ⟨⟨connections, pauses, 0, 0, [], []⟩, [running .connect]⟩ :=
        ⟨Nat.zero_add _, rfl, rfl, (by rintro _ ⟨⟩), Nat.zero_le _, absurd rfl,
          further_nil _⟩
      refine runBounds_bind (connectLoop_bounds codecs payload hstart) fun a => ?_
      exact ⟨_, _, .bind (.emit _) (.bind (.emit _) (.pure _)), rfl⟩

/-- A connection on which a text is sent, a ping is answered and a message is read. -/
theorem execute_bounds_echo :
    let payload : WebSocketPayload := ⟨[], [], [⟨"text", "hello"⟩], some 1, 0, 0⟩
    let request : RequestEnvelope :=
      { RequestEnvelope.httpGet "socket" "2026-01-01T00:00:00Z" "Socket" "ws://service" with
        payload := .websocket payload }
    let library : WebSocketLibrary := ⟨fun _ => .ok [], .ok, fun _ => .ok ()⟩
    let connection : Connection :=
      ⟨101, none, [], [], [.frame (.ping [1]), .frame (.text "hello")]⟩
    let final := (execute Codecs.unused library ⟨"run", "", "", 0⟩ request).run
      ⟨⟨fun _ => .opened connection, fun _ => false, 0, 0, [], []⟩, []⟩
    final.2.peer.conversations = [[.sent (.text "hello"), .received (.ping [1]),
      .sent (.pong [1]), .received (.text "hello")]] ∧
      RunBounds Codecs.unused payload final.1 final.2 := by
  intro payload request library connection final
  exact ⟨by decide, execute_bounds Codecs.unused library ⟨"run", "", "", 0⟩ request
    (fun _ => .opened connection) fun _ => false⟩

end ApiVoy.Drivers.WebSocket
