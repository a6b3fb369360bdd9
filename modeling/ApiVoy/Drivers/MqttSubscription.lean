/-
# Subscriptions

A broker may send its packets in more than one order: a message before the SUBACK, another
message between a PUBREC and its PUBREL, a packet of another kind at any time. The driver
counts packets and takes them in one order, so that a subscription delivers its messages only
when nothing comes in between.
-/

import ApiVoy.Drivers.Mqtt

namespace ApiVoy.Drivers.Mqtt

open Foundation Domain Engine

/-! ## Packets of a broker -/

structure Message where
  dup : Bool
  retain : Bool
  qos : Fin 3
  topic : String
  id : UInt16
  payload : Bytes

/-- A packet that a broker sends behind a SUBSCRIBE with the id 1. -/
inductive BrokerPacket where
  | suback (granted : UInt8)
  | publish (message : Message)
  | pubrel (id : UInt16)
  | other (header : UInt8) (body : Bytes)

namespace Message

def header (message : Message) : UInt8 :=
  (0x30 : UInt8) ||| ((if message.dup = true then (8 : UInt8) else 0) |||
    ((UInt8.ofNat message.qos <<< 1) ||| (if message.retain = true then 1 else 0)))

def body (message : Message) : Bytes :=
  beBytes 2 (utf8 message.topic).length ++ (utf8 message.topic ++
    ((if 0 < message.qos.val then beBytes 2 message.id.toNat else []) ++ message.payload))

end Message

namespace BrokerPacket

def header : BrokerPacket → UInt8
  | .suback _ => 0x90
  | .publish message => message.header
  | .pubrel _ => 0x62
  | .other header _ => header

def body : BrokerPacket → Bytes
  | .suback granted => [0, 1, granted]
  | .publish message => message.body
  | .pubrel id => beBytes 2 id.toNat
  | .other _ body => body

def encode (item : BrokerPacket) : Bytes := packet item.header item.body

def message? : BrokerPacket → Option Message
  | .publish message => some message
  | _ => none

def isSuback : BrokerPacket → Bool
  | .suback _ => true
  | _ => false

/-- The packet is written as the protocol says: the subscription is granted, a topic has at
most 65535 bytes, an acknowledged message has an id, and the length of a body has at most four
digits. The remaining kinds are neither PUBLISH nor SUBACK nor PUBREL. -/
structure WellFormed (item : BrokerPacket) : Prop where
  length : item.body.length < 128 ^ 4
  granted : ∀ granted, item = .suback granted → granted ≤ 2
  topic : ∀ message, item = .publish message → (utf8 message.topic).length ≤ 65535
  acknowledged : ∀ message, item = .publish message → 0 < message.qos.val → message.id ≠ 0
  kind : ∀ header body, item = .other header body →
    header >>> 4 ≠ 3 ∧ header >>> 4 ≠ 6 ∧ header >>> 4 ≠ 9

end BrokerPacket

def messages (packets : List BrokerPacket) : List Message :=
  packets.filterMap BrokerPacket.message?

/-- The broker grants the subscription once, and a PUBREL comes behind the message that it is
about. Apart from that the packets may come in any order. -/
structure Conforming (packets : List BrokerPacket) : Prop where
  wellFormed : ∀ item ∈ packets, item.WellFormed
  subscribed : packets.countP BrokerPacket.isSuback = 1
  released : ∀ before id after, packets = before ++ .pubrel id :: after →
    ∃ message ∈ messages before, message.qos = 2 ∧ message.id = id

/-- The packets of a message that is followed at once by its PUBREL, if it has one. -/
def Message.packets (message : Message) : List BrokerPacket :=
  if message.qos = 2 then [.publish message, .pubrel message.id] else [.publish message]

/-- What the driver sends for a message. -/
def Message.acks (message : Message) : List Bytes :=
  if message.qos = 1 then [ack 0x40 message.id]
  else if message.qos = 2 then [ack 0x50 message.id, ack 0x70 message.id]
  else []

def messageChunk (codecs : Codecs) (message : Message) (done : Bool) : ExecutionEvent :=
  valueChunk codecs (messageValue codecs message.header message.topic message.payload) done

/-- The chunks of messages of which the last one is the end of the response. -/
def messageChunks (codecs : Codecs) : List Message → List ExecutionEvent
  | [] => []
  | message :: rest =>
    messageChunk codecs message (decide (rest = [])) :: messageChunks codecs rest

/-- The run ends well, reports the messages in their order, the last one as the end, and
acknowledges each of them. -/
def Delivers (codecs : Codecs) (received : List Message)
    (final : Except DriverError ExecutionSummary × Session Broker) : Prop :=
  (∃ summary, final.1 = .ok summary) ∧
    final.2.events.filter Event.isChunk = messageChunks codecs received ∧
    ∀ message ∈ received, ∀ bytes ∈ message.acks, bytes ∈ final.2.peer.sent

/-- The SUBACK comes first, and behind it the messages directly one behind the other, each
with its PUBREL at once, all of them in packets of at most 64 MiB. -/
def Direct (received : List Message) (packets : List BrokerPacket) : Prop :=
  ∃ granted rest, packets = .suback granted :: (received.flatMap Message.packets ++ rest) ∧
    ∀ item ∈ received.flatMap Message.packets, item.body.length ≤ maxPacketBytes

/-! ## Packets on the connection -/

/-- The packets are what has still to be read, and nothing goes wrong with the connection. -/
structure Offers (session : Session Broker) (packets : List BrokerPacket) : Prop where
  incoming : session.peer.incoming = packets.flatMap BrokerPacket.encode
  waits : session.peer.waits = []
  writes : session.peer.writes = []

/-- The packet can be taken. -/
def BrokerPacket.Fits (item : BrokerPacket) : Prop := item.body.length ≤ maxPacketBytes

section Packets

variable {session : Session Broker} {packets : List BrokerPacket}

theorem Offers.ready (h : Offers session packets) : (session.peer.wait).1 = .ready := by
  rw [Broker.wait, h.waits]
  rfl

theorem Offers.emitted (h : Offers session packets) (event : ExecutionEvent) :
    Offers { session with events := session.events ++ [event] } packets :=
  ⟨h.incoming, h.waits, h.writes⟩

theorem readPacket_of_offers {item : BrokerPacket} (h : Offers session (item :: packets))
    (hfits : item.Fits) :
    ∃ session', readPacket.run session = (.ok (item.header, item.body), session') ∧
      Offers session' packets ∧ session'.events = session.events ∧
      session'.peer.sent = session.peer.sent := by
  have hincoming := h.incoming
  rw [List.flatMap_cons, BrokerPacket.encode] at hincoming
  refine ⟨_, readPacket_packet hfits h.ready hincoming, ⟨rfl, ?_, h.writes⟩, rfl, rfl⟩
  rw [Broker.wait, h.waits]
  rfl

variable {session' : Session Broker} {found : UInt8 × Bytes}

theorem fits_of_readPacket {item : BrokerPacket} (h : Offers session (item :: packets))
    (hwellFormed : item.WellFormed) (hrun : readPacket.run session = (.ok found, session')) :
    item.Fits := by
  by_contra hlarge
  have hincoming := h.incoming
  rw [List.flatMap_cons, BrokerPacket.encode] at hincoming
  have herror := readPacket_large (Nat.lt_of_not_le hlarge) hwellFormed.length h.ready hincoming
  rw [hrun] at herror
  cases herror

theorem not_readPacket_nil (h : Offers session []) :
    readPacket.run session ≠ (.ok found, session') := by
  intro hrun
  have herror := readPacket_nil h.ready h.incoming
  rw [hrun] at herror
  cases herror

/-- A packet that is read is the next one. -/
theorem offers_of_readPacket (h : Offers session packets)
    (hwellFormed : ∀ item ∈ packets, item.WellFormed)
    (hrun : readPacket.run session = (.ok found, session')) :
    ∃ item rest, packets = item :: rest ∧ item.Fits ∧ found = (item.header, item.body) ∧
      Offers session' rest ∧ session'.events = session.events ∧
      session'.peer.sent = session.peer.sent := by
  cases packets with
  | nil => exact absurd hrun (not_readPacket_nil h)
  | cons item rest =>
    have hfits := fits_of_readPacket h (hwellFormed item List.mem_cons_self) hrun
    obtain ⟨session₁, hrun₁, hoffers, hevents, hsent⟩ := readPacket_of_offers h hfits
    rw [hrun] at hrun₁
    cases hrun₁
    exact ⟨item, rest, rfl, hfits, rfl, hoffers, hevents, hsent⟩

theorem sendPacket_of_offers (h : Offers session packets) (bytes : Bytes) :
    ∃ session', (sendPacket bytes).run session = (.ok (), session') ∧ Offers session' packets ∧
      session'.events = session.events ∧ session'.peer.sent = session.peer.sent ++ [bytes] := by
  have hsend : session.peer.send bytes =
      (.ok (), { session.peer with
        writes := session.peer.writes.tail
        sent := session.peer.sent ++ [bytes] }) := by
    rw [Broker.send, h.writes]
    rfl
  refine ⟨{ session with
      peer := { session.peer with
        writes := session.peer.writes.tail
        sent := session.peer.sent ++ [bytes] } },
    ?_, ⟨h.incoming, h.waits, ?_⟩, rfl, rfl⟩
  · rw [sendPacket]
    simp only [Fallible.run_bind, run_askPeer, hsend]
    rfl
  · rw [h.writes]
    rfl

end Packets

/-! ## Kinds of packets -/

theorem kinds_differ : (0x90 : UInt8) >>> 4 ≠ 3 ∧ (0x62 : UInt8) >>> 4 ≠ 3 ∧
    (0x90 : UInt8) ≠ 0x62 ∧ (0x62 : UInt8) >>> 4 ≠ 9 ∧ (0x62 : UInt8) >>> 4 = 6 ∧
    (3 : UInt8) ≠ 9 := by decide

theorem header_facts : ∀ (dup retain : Bool) (qos : Fin 3),
    let header := (0x30 : UInt8) ||| ((if dup = true then (8 : UInt8) else 0) |||
      ((UInt8.ofNat qos <<< 1) ||| (if retain = true then 1 else 0)))
    header >>> 4 = 3 ∧ headerQos header = UInt8.ofNat qos := by decide

theorem Message.header_kind (message : Message) : message.header >>> 4 = 3 :=
  (header_facts message.dup message.retain message.qos).1

theorem Message.headerQos_header (message : Message) :
    headerQos message.header = UInt8.ofNat message.qos :=
  (header_facts message.dup message.retain message.qos).2

variable {item : BrokerPacket}

theorem eq_publish (hwellFormed : item.WellFormed) (h : item.header >>> 4 = 3) :
    ∃ message, item = .publish message := by
  cases item with
  | suback granted => exact absurd h kinds_differ.1
  | publish message => exact ⟨message, rfl⟩
  | pubrel id => exact absurd h kinds_differ.2.1
  | other header body => exact absurd h (hwellFormed.kind header body rfl).1

theorem eq_pubrel (hwellFormed : item.WellFormed) {id : UInt16} (hheader : item.header = 0x62)
    (hbody : item.body = beBytes 2 id.toNat) : item = .pubrel id := by
  cases item with
  | suback granted => exact absurd hheader kinds_differ.2.2.1
  | publish message =>
    have hkind := message.header_kind
    have hheader' : message.header = 0x62 := hheader
    rw [hheader'] at hkind
    exact absurd hkind kinds_differ.2.1
  | pubrel id' =>
    have hid := congrArg readBE hbody
    simp only [BrokerPacket.body] at hid
    rw [readBE_beBytes id'.toNat_lt, readBE_beBytes id.toNat_lt] at hid
    rw [UInt16.toNat_inj.mp hid]
  | other header body =>
    have hheader' : header = 0x62 := hheader
    have hkind := (hwellFormed.kind header body rfl).2.1
    rw [hheader'] at hkind
    exact absurd kinds_differ.2.2.2.2.1 hkind

theorem eq_suback (hwellFormed : item.WellFormed) (h : item.header >>> 4 = 9) :
    ∃ granted, item = .suback granted := by
  cases item with
  | suback granted => exact ⟨granted, rfl⟩
  | publish message =>
    have hkind : message.header >>> 4 = 9 := h
    rw [message.header_kind] at hkind
    exact absurd hkind kinds_differ.2.2.2.2.2
  | pubrel id => exact absurd h kinds_differ.2.2.2.1
  | other header body => exact absurd h (hwellFormed.kind header body rfl).2.2

/-- The id that a message is acknowledged with. -/
def Message.ackId (message : Message) : Option UInt16 :=
  if 0 < message.qos.val then some message.id else none

theorem qos_pos : ∀ qos : Fin 3, 0 < UInt8.ofNat qos.val ↔ 0 < qos.val := by decide

theorem incomingPublish_message {message : Message} (h : (utf8 message.topic).length ≤ 65535) :
    incomingPublish message.header message.body =
      .ok (message.topic, message.payload, message.ackId) := by
  rw [Message.body, incomingPublish_of_topic h, message.headerQos_header, Message.ackId]
  by_cases hqos : 0 < message.qos.val
  · have hid : UInt16.ofNat (readBE ((beBytes 2 message.id.toNat ++ message.payload).take 2)) =
        message.id := by
      rw [List.take_left' (length_beBytes _ _), readBE_beBytes message.id.toNat_lt,
        UInt16.ofNat_toNat]
    rw [if_pos ((qos_pos _).mpr hqos), if_pos hqos, if_pos hqos, hid,
      List.drop_left' (length_beBytes _ _),
      if_neg (by rw [List.length_append, length_beBytes]; omega)]
  · rw [if_neg fun h => hqos ((qos_pos _).mp h), if_neg hqos, if_neg hqos, List.nil_append]

/-! ## Acknowledging -/

section Acknowledging

variable {session : Session Broker} {packets : List BrokerPacket} {message : Message}

/-- The packets that the driver waits for while it acknowledges a message. -/
def Message.release (message : Message) : List BrokerPacket :=
  if message.qos = 2 then [.pubrel message.id] else []

theorem Message.packets_eq (message : Message) :
    message.packets = .publish message :: message.release := by
  rw [Message.packets, Message.release]
  split <;> rfl

theorem fits_pubrel (id : UInt16) : (BrokerPacket.pubrel id).Fits := by
  rw [BrokerPacket.Fits, BrokerPacket.body, length_beBytes]
  decide

theorem qos_cases : ∀ qos : Fin 3, qos = 0 ∨ qos = 1 ∨ qos = 2 := by decide

/-- What acknowledging comes to, by the quality of service. -/
theorem acknowledge_cases (message : Message) :
    (message.release = [] ∧ message.acks = [] ∧
      acknowledge message.header message.ackId = return ()) ∨
    (message.release = [] ∧ message.acks = [ack 0x40 message.id] ∧
      acknowledge message.header message.ackId = sendPacket (ack 0x40 message.id)) ∨
    (message.release = [.pubrel message.id] ∧
      message.acks = [ack 0x50 message.id, ack 0x70 message.id] ∧
      acknowledge message.header message.ackId = do
        sendPacket (ack 0x50 message.id)
        let reply ← readPacket
        if reply.1 ≠ 0x62 ∨ reply.2 ≠ beBytes 2 message.id.toNat then
          Fallible.fail (.protocol "expected matching MQTT PUBREL")
        else sendPacket (ack 0x70 message.id)) := by
  have hheader := message.headerQos_header
  rw [Message.release, Message.acks, Message.ackId]
  rcases qos_cases message.qos with hqos | hqos | hqos <;> rw [hqos] at hheader ⊢
  · exact .inl ⟨rfl, rfl, rfl⟩
  · have hone : headerQos message.header = 1 := hheader
    refine .inr (.inl ⟨rfl, rfl, ?_⟩)
    rw [if_pos (show 0 < ((1 : Fin 3) : Nat) by decide), acknowledge, if_pos hone]
  · have htwo : headerQos message.header = 2 := hheader
    refine .inr (.inr ⟨rfl, rfl, ?_⟩)
    rw [if_pos (show 0 < ((2 : Fin 3) : Nat) by decide), acknowledge,
      if_neg (by rw [htwo]; decide), if_pos htwo]

theorem fits_release {item : BrokerPacket} (h : item ∈ message.release) : item.Fits := by
  rw [Message.release] at h
  split at h
  · rw [List.mem_singleton.mp h]
    exact fits_pubrel message.id
  · cases h

theorem acknowledge_of_offers (h : Offers session (message.release ++ packets)) :
    ∃ session', (acknowledge message.header message.ackId).run session = (.ok (), session') ∧
      Offers session' packets ∧ session'.events = session.events ∧
      session'.peer.sent = session.peer.sent ++ message.acks := by
  rcases acknowledge_cases message with
    ⟨hrelease, hacks, hrun⟩ | ⟨hrelease, hacks, hrun⟩ | ⟨hrelease, hacks, hrun⟩ <;>
      rw [hrelease] at h <;> rw [hacks, hrun]
  · exact ⟨session, rfl, h, rfl, (List.append_nil _).symm⟩
  · exact sendPacket_of_offers h (ack 0x40 message.id)
  · obtain ⟨session₁, hrun₁, hoffers₁, hevents₁, hsent₁⟩ :=
      sendPacket_of_offers h (ack 0x50 message.id)
    obtain ⟨session₂, hrun₂, hoffers₂, hevents₂, hsent₂⟩ :=
      readPacket_of_offers hoffers₁ (fits_pubrel message.id)
    obtain ⟨session₃, hrun₃, hoffers₃, hevents₃, hsent₃⟩ :=
      sendPacket_of_offers hoffers₂ (ack 0x70 message.id)
    refine ⟨session₃, ?_, hoffers₃, ?_, ?_⟩
    · rw [Fallible.run_bind_of_ok hrun₁, Fallible.run_bind_of_ok hrun₂]
      simp only [BrokerPacket.header, BrokerPacket.body, ne_eq, not_true_eq_false, or_self,
        if_false, hrun₃]
    · rw [hevents₃, hevents₂, hevents₁]
    · rw [hsent₃, hsent₂, hsent₁, List.append_assoc]
      rfl

/-- Acknowledging succeeds only when the packets that the driver waits for come next. -/
theorem release_of_acknowledge (h : Offers session packets)
    (hwellFormed : ∀ item ∈ packets, item.WellFormed) {session' : Session Broker}
    (hack : (acknowledge message.header message.ackId).run session = (.ok (), session')) :
    ∃ rest, packets = message.release ++ rest := by
  rcases acknowledge_cases message with
    ⟨hrelease, -, -⟩ | ⟨hrelease, -, -⟩ | ⟨hrelease, -, hrun⟩ <;> rw [hrelease]
  · exact ⟨packets, rfl⟩
  · exact ⟨packets, rfl⟩
  · obtain ⟨session₁, hrun₁, hoffers₁, _, _⟩ := sendPacket_of_offers h (ack 0x50 message.id)
    rw [hrun, Fallible.run_bind_of_ok hrun₁] at hack
    obtain ⟨found, session₂, hread, hrest⟩ := Fallible.run_bind_eq_ok_iff.mp hack
    obtain ⟨item, rest, rfl, _, rfl, _, _, _⟩ := offers_of_readPacket hoffers₁ hwellFormed hread
    by_cases hmatch : item.header ≠ 0x62 ∨ item.body ≠ beBytes 2 message.id.toNat
    · rw [if_pos hmatch] at hrest
      cases hrest
    · rw [not_or, not_not, not_not] at hmatch
      rw [eq_pubrel (hwellFormed item List.mem_cons_self) hmatch.1 hmatch.2]
      exact ⟨rest, rfl⟩

end Acknowledging

/-! ## Rounds -/

/-- How many chunks have been emitted. -/
def chunkCount (session : Session Broker) : Nat := session.events.countP Event.isChunk

theorem chunkCount_of_events {session session' : Session Broker}
    (h : session'.events = session.events) : chunkCount session' = chunkCount session := by
  rw [chunkCount, h, chunkCount]

theorem chunkCount_emitted {session : Session Broker} {event : ExecutionEvent}
    (h : Event.isChunk event = true) :
    chunkCount { session with events := session.events ++ [event] } = chunkCount session + 1 := by
  rw [chunkCount, List.countP_append, List.countP_singleton, if_pos h, chunkCount]

section Rounds

variable {codecs : Codecs} {session : Session Broker} {packets : List BrokerPacket}

theorem quiet_sendPacket (bytes : Bytes) : Quiet (sendPacket bytes) := by
  refine .bind (.askPeer _) fun result => ?_
  cases result with
  | ok _ => exact .pure ()
  | error message => exact .fail _

theorem quiet_acknowledge (header : UInt8) (packetId : Option UInt16) :
    Quiet (acknowledge header packetId) := by
  cases packetId with
  | none => exact .pure ()
  | some id =>
    exact .ite (quiet_sendPacket _)
      (.ite
        (.bind (quiet_sendPacket _) fun _ => .bind quiet_readPacket fun _ =>
          Quiet.ite (.fail _) (quiet_sendPacket _))
        (.pure ()))

/-- A round emits at most one chunk. -/
theorem chunkCount_receive (codecs : Codecs) (left : Nat) (session : Session Broker) :
    chunkCount ((receive codecs left).run session).2 ≤ chunkCount session + left := by
  induction left generalizing session with
  | zero => exact Nat.le_refl _
  | succ left ih =>
    rw [receive, Fallible.run_bind]
    cases hread : readPacket.run session with
    | mk result session₁ =>
      have hevents₁ := quiet_readPacket.events session
      rw [hread] at hevents₁
      cases result with
      | error e =>
        rw [chunkCount_of_events hevents₁]
        omega
      | ok found =>
        simp only
        by_cases hkind : found.1 >>> 4 ≠ 3
        · have hrest := ih session₁
          rw [chunkCount_of_events hevents₁] at hrest
          rw [if_pos hkind]
          omega
        · rw [if_neg hkind, Fallible.run_bind, run_ofExcept]
          cases incomingPublish found.1 found.2 with
          | error e =>
            simp only
            rw [chunkCount_of_events hevents₁]
            omega
          | ok message =>
            simp only
            rw [Fallible.run_bind]
            cases hack : (acknowledge found.1 message.2.2).run session₁ with
            | mk result session₂ =>
              have hevents₂ := (quiet_acknowledge found.1 message.2.2).events session₁
              rw [hack] at hevents₂
              have hcount : chunkCount session₂ = chunkCount session :=
                chunkCount_of_events (hevents₂.trans hevents₁)
              cases result with
              | error e =>
                simp only
                omega
              | ok _ =>
                simp only
                rw [Fallible.run_bind, run_emitValue]
                simp only
                rw [Fallible.run_bind_pure_snd]
                refine Nat.le_trans (ih _) ?_
                rw [chunkCount_emitted (by rfl), hcount]
                omega

variable {session₁ : Session Broker} {left : Nat}

/-- A round that takes a message acknowledges and reports it. -/
theorem receive_publish {message : Message} (htopic : (utf8 message.topic).length ≤ 65535)
    (hread : readPacket.run session = (.ok (message.header, message.body), session₁)) :
    (receive codecs (left + 1)).run session =
      (acknowledge message.header message.ackId >>= fun _ =>
        emitValue codecs (messageValue codecs message.header message.topic message.payload)
          (decide (left = 0)) >>= fun size =>
        receive codecs left >>= fun others => pure (size + others)).run session₁ := by
  have hkind : (message.header, message.body).1 >>> 4 = 3 := message.header_kind
  have hincoming : incomingPublish (message.header, message.body).1
      (message.header, message.body).2 = .ok (message.topic, message.payload, message.ackId) :=
    incomingPublish_message htopic
  rw [receive, Fallible.run_bind_of_ok hread, if_neg (not_not.mpr hkind), Fallible.run_bind,
    run_ofExcept, hincoming]

theorem receive_skip {found : UInt8 × Bytes} (hkind : found.1 >>> 4 ≠ 3)
    (hread : readPacket.run session = (.ok found, session₁)) :
    (receive codecs (left + 1)).run session = (receive codecs left).run session₁ := by
  rw [receive, Fallible.run_bind_of_ok hread, if_pos hkind]

/-- The messages of a direct sequence are reported and acknowledged one after the other. -/
theorem receive_of_offers (codecs : Codecs) {received : List Message}
    (h : Offers session (received.flatMap Message.packets ++ packets))
    (hwellFormed : ∀ item ∈ received.flatMap Message.packets, item.WellFormed)
    (hfits : ∀ item ∈ received.flatMap Message.packets, item.Fits) :
    ∃ size session', (receive codecs received.length).run session = (.ok size, session') ∧
      Offers session' packets ∧
      session'.events = session.events ++ messageChunks codecs received ∧
      session'.peer.sent = session.peer.sent ++ received.flatMap Message.acks := by
  induction received generalizing session with
  | nil => exact ⟨0, session, rfl, h, (List.append_nil _).symm, (List.append_nil _).symm⟩
  | cons message received ih =>
    have hfirst : BrokerPacket.publish message ∈
        (message :: received).flatMap Message.packets := by
      rw [List.flatMap_cons, message.packets_eq]
      exact List.mem_cons_self
    have hrest : ∀ item ∈ received.flatMap Message.packets,
        item ∈ (message :: received).flatMap Message.packets := fun item hmem => by
      rw [List.flatMap_cons]
      exact List.mem_append_right _ hmem
    rw [List.flatMap_cons, message.packets_eq, List.cons_append, List.cons_append,
      List.append_assoc] at h
    obtain ⟨session₁, hrun₁, hoffers₁, hevents₁, hsent₁⟩ :=
      readPacket_of_offers h (hfits _ hfirst)
    obtain ⟨session₂, hrun₂, hoffers₂, hevents₂, hsent₂⟩ := acknowledge_of_offers hoffers₁
    obtain ⟨size, session₃, hrun₃, hoffers₃, hevents₃, hsent₃⟩ :=
      @ih { session₂ with
          events := session₂.events ++ [messageChunk codecs message (decide (received = []))] }
        (hoffers₂.emitted _)
        (fun item hmem => hwellFormed item (hrest item hmem))
        (fun item hmem => hfits item (hrest item hmem))
    have hlast : decide (received.length = 0) = decide (received = []) := by
      simp only [List.length_eq_zero_iff]
    refine ⟨(utf8 (codecs.pretty (messageValue codecs message.header message.topic
      message.payload))).length + size, session₃, ?_, hoffers₃, ?_, ?_⟩
    · rw [List.length_cons, receive_publish ((hwellFormed _ hfirst).topic message rfl) hrun₁,
        Fallible.run_bind_of_ok hrun₂, Fallible.run_bind, run_emitValue, hlast]
      simp only
      exact Fallible.run_bind_of_ok hrun₃
    · rw [hevents₃, hevents₂, hevents₁, messageChunks, List.append_assoc]
      rfl
    · rw [hsent₃, List.flatMap_cons, ← List.append_assoc]
      exact congrArg (· ++ _) (hsent₂.trans (congrArg (· ++ _) hsent₁))

/-- As many chunks as rounds mean that the messages come directly one behind the other. -/
theorem direct_of_receive (h : Offers session packets)
    (hwellFormed : ∀ item ∈ packets, item.WellFormed) {size : Nat} {session' : Session Broker}
    (hrun : (receive codecs left).run session = (.ok size, session'))
    (hcount : chunkCount session' = chunkCount session + left) :
    ∃ (received : List Message) (rest : List BrokerPacket),
      packets = received.flatMap Message.packets ++ rest ∧ received.length = left ∧
        ∀ item ∈ received.flatMap Message.packets, item.Fits := by
  induction left generalizing session packets size with
  | zero => exact ⟨[], packets, rfl, rfl, fun _ hmem => (by cases hmem)⟩
  | succ left ih =>
    have hfirst := hrun
    rw [receive] at hfirst
    obtain ⟨found, session₁, hread, -⟩ := Fallible.run_bind_eq_ok_iff.mp hfirst
    obtain ⟨item, rest, rfl, hfits, rfl, hoffers₁, hevents₁, -⟩ :=
      offers_of_readPacket h hwellFormed hread
    by_cases hkind : item.header >>> 4 = 3
    · obtain ⟨message, rfl⟩ := eq_publish (hwellFormed item List.mem_cons_self) hkind
      have hwellFormed' : ∀ item ∈ rest, item.WellFormed := fun item hmem =>
        hwellFormed item (List.mem_cons_of_mem _ hmem)
      rw [receive_publish ((hwellFormed _ List.mem_cons_self).topic message rfl) hread] at hrun
      obtain ⟨_, session₂, hack, hrun⟩ := Fallible.run_bind_eq_ok_iff.mp hrun
      obtain ⟨rest', rfl⟩ := release_of_acknowledge hoffers₁ hwellFormed' hack
      obtain ⟨session₂', hack', hoffers₂, hevents₂, -⟩ := acknowledge_of_offers hoffers₁
      rw [hack] at hack'
      cases hack'
      rw [Fallible.run_bind, run_emitValue] at hrun
      obtain ⟨others, session₃, hrest, hfinal⟩ := Fallible.run_bind_eq_ok_iff.mp hrun
      cases hfinal
      obtain ⟨received, rest'', hsplit, hlength, hall⟩ := ih
        (hoffers₂.emitted _)
        (fun item hmem => hwellFormed' item (List.mem_append_right _ hmem)) hrest (by
          rw [hcount, chunkCount_emitted (by rfl), chunkCount_of_events (hevents₂.trans hevents₁)]
          omega)
      refine ⟨message :: received, rest'', ?_, ?_, ?_⟩
      · rw [List.flatMap_cons, message.packets_eq, hsplit, List.cons_append, List.cons_append,
          List.append_assoc]
      · rw [List.length_cons, hlength]
      · intro item hmem
        rw [List.flatMap_cons, message.packets_eq, List.cons_append] at hmem
        rcases List.mem_cons.mp hmem with rfl | hmem
        · exact hfits
        · rcases List.mem_append.mp hmem with hmem | hmem
          · exact fits_release hmem
          · exact hall item hmem
    · rw [receive_skip hkind hread] at hrun
      have hbound := chunkCount_receive codecs left session₁
      rw [hrun, chunkCount_of_events hevents₁] at hbound
      simp only at hbound
      omega

end Rounds

/-! ## Subscriptions -/

/-- The broker accepts the connection, and the packets come behind its CONNACK. -/
structure Subscribed (codecs : Codecs) (request : RequestEnvelope) (session : Session Broker)
    (payload : MqttRequest) (packets : List BrokerPacket) : Prop where
  decoded : requestPayload codecs request = .ok payload
  addressed : ∃ address, target request.target = .ok address
  mode : payload.mode ≠ "publish"
  connects : ∃ bytes, connectPacket payload = .ok bytes
  subscribes : ∃ bytes, subscribePacket payload.topic payload.qos 1 = .ok bytes
  connected : session.peer.connecting = .ok ()
  offers : ∃ flags, Offers session (.other 0x20 [flags, 0] :: packets)

/-- What is left of a subscription when the SUBSCRIBE has been sent. -/
def awaitMessages (codecs : Codecs) (limit : Nat) : MqttM Nat := do
  let found ← readPacket
  if found.1 >>> 4 ≠ 9 ∨ found.2.length < 3 ∨ found.2.take 2 ≠ [0, 1] ∨
      found.2.getD 2 0 = 0x80 then
    Fallible.fail (.protocol "MQTT subscription was rejected")
  else receive codecs limit

section Subscriptions

variable {codecs : Codecs} {info : RunInfo} {request : RequestEnvelope}
  {session : Session Broker} {payload : MqttRequest} {packets : List BrokerPacket}

theorem accept_of_offers {flags : UInt8}
    (h : Offers session (.other 0x20 [flags, 0] :: packets)) :
    ∃ session', accept.run session = (.ok (), session') ∧ Offers session' packets ∧
      session'.events = session.events := by
  have hfits : (BrokerPacket.other 0x20 [flags, 0]).Fits := by
    have htwo : 2 ≤ maxPacketBytes := by decide
    exact htwo
  obtain ⟨session', hrun, hoffers, hevents, -⟩ := readPacket_of_offers h hfits
  have hkind : ¬((0x20 : UInt8) >>> 4 ≠ 2 ∨ [flags, (0 : UInt8)].length ≠ 2) := by
    rw [not_or]
    exact ⟨by decide, fun h => h rfl⟩
  refine ⟨session', ?_, hoffers, hevents⟩
  rw [accept, Fallible.run_bind_of_ok hrun]
  exact (congrArg (Fallible.run · session') (if_neg hkind)).trans rfl

theorem execute_of_subscribed (info : RunInfo)
    (h : Subscribed codecs request session payload packets) :
    ∃ session', (execute codecs info request).run session =
        (awaitMessages codecs payload.receiveLimit >>= report info request).run session' ∧
      Offers session' packets ∧
      session'.events =
        session.events ++ [running .connect, responseMeta, running .transfer] := by
  obtain ⟨address, haddress⟩ := h.addressed
  obtain ⟨connectBytes, hconnect⟩ := h.connects
  obtain ⟨subscribeBytes, hsubscribe⟩ := h.subscribes
  obtain ⟨flags, hoffers⟩ := h.offers
  obtain ⟨session₁, hrun₁, hoffers₁, hevents₁, -⟩ :=
    sendPacket_of_offers (hoffers.emitted (running .connect)) connectBytes
  obtain ⟨session₂, hrun₂, hoffers₂, hevents₂⟩ := accept_of_offers hoffers₁
  obtain ⟨session₃, hrun₃, hoffers₃, hevents₃, -⟩ := sendPacket_of_offers
    ((hoffers₂.emitted responseMeta).emitted (running .transfer)) subscribeBytes
  have hconnecting : connect.run
      { session with events := session.events ++ [running .connect] } =
        (.ok (), { session with events := session.events ++ [running .connect] }) :=
    Prod.ext h.connected rfl
  refine ⟨session₃, ?_, hoffers₃, ?_⟩
  · have hexchange : exchange codecs payload = subscribe codecs payload := if_neg h.mode
    have hsubscribed : (subscribe codecs payload).run
        { session₂ with events := session₂.events ++ [responseMeta] ++ [running .transfer] } =
          (awaitMessages codecs payload.receiveLimit).run session₃ := by
      rw [subscribe, Fallible.run_bind, run_ofExcept, hsubscribe]
      exact Fallible.run_bind_of_ok hrun₃
    rw [execute]
    simp only [Fallible.run_bind, run_ofExcept, h.decoded, haddress, run_emit, hconnecting,
      hconnect, hrun₁, hrun₂, hexchange, hsubscribed]
  · rw [hevents₃]
    simp only
    rw [hevents₂, hevents₁]
    simp only [List.append_assoc]
    rfl

theorem messages_packets (received : List Message) :
    messages (received.flatMap Message.packets) = received := by
  induction received with
  | nil => rfl
  | cons message received ih =>
    have hone : messages message.packets = [message] := by
      rw [Message.packets]
      split <;> rfl
    rw [List.flatMap_cons, messages, List.filterMap_append, ← messages, ← messages, hone, ih]
    rfl

theorem length_messageChunks (received : List Message) :
    (messageChunks codecs received).length = received.length := by
  induction received with
  | nil => rfl
  | cons message received ih => rw [messageChunks, List.length_cons, ih, List.length_cons]

theorem filter_messageChunks (received : List Message) :
    (messageChunks codecs received).filter Event.isChunk = messageChunks codecs received := by
  induction received with
  | nil => rfl
  | cons message received ih =>
    rw [messageChunks, List.filter_cons_of_pos (by rfl), ih]

theorem report_run (info : RunInfo) (request : RequestEnvelope) (received : Nat)
    (session : Session Broker) :
    ∃ summary, ((report info request received).run session).1 = .ok summary ∧
      ((report info request received).run session).2.events =
        session.events ++ [.completed summary] ∧
      ∀ bytes ∈ session.peer.sent,
        bytes ∈ ((report info request received).run session).2.peer.sent := by
  refine ⟨_, rfl, rfl, ?_⟩
  intro bytes hmem
  change bytes ∈ (session.peer.send [0xe0, 0]).2.sent
  rw [Broker.send]
  split
  · exact List.mem_append_left _ hmem
  · exact hmem

variable {granted : UInt8}

theorem granted_ne (h : granted ≤ 2) : granted ≠ 0x80 := by
  rintro rfl
  exact absurd h (by decide)

variable {received : List Message}

/-- Behind its SUBACK a direct sequence is received as a whole. -/
theorem awaitMessages_of_offers (codecs : Codecs) (hgranted : granted ≤ 2)
    (h : Offers session (.suback granted :: (received.flatMap Message.packets ++ packets)))
    (hwellFormed : ∀ item ∈ received.flatMap Message.packets, item.WellFormed)
    (hfits : ∀ item ∈ received.flatMap Message.packets, item.Fits) :
    ∃ size session', (awaitMessages codecs received.length).run session = (.ok size, session') ∧
      session'.events = session.events ++ messageChunks codecs received ∧
      ∀ message ∈ received, ∀ bytes ∈ message.acks, bytes ∈ session'.peer.sent := by
  have hsuback : (BrokerPacket.suback granted).Fits := by
    have hthree : 3 ≤ maxPacketBytes := by decide
    exact hthree
  obtain ⟨session₁, hread, hoffers₁, hevents₁, -⟩ := readPacket_of_offers h hsuback
  obtain ⟨size, session₂, hreceive, -, hevents₂, hsent₂⟩ :=
    receive_of_offers codecs hoffers₁ hwellFormed hfits
  have hreply : ¬((0x90 : UInt8) >>> 4 ≠ 9 ∨ [0, 1, granted].length < 3 ∨
      [0, 1, granted].take 2 ≠ [0, 1] ∨ [0, 1, granted].getD 2 0 = 0x80) := by
    rintro (h | h | h | h)
    · exact h (by decide)
    · exact absurd h (Nat.lt_irrefl 3)
    · exact h rfl
    · exact granted_ne hgranted h
  refine ⟨size, session₂, ?_, by rw [hevents₂, hevents₁], ?_⟩
  · rw [awaitMessages, Fallible.run_bind_of_ok hread]
    exact (congrArg (Fallible.run · session₁) (if_neg hreply)).trans hreceive
  · intro message hmessage bytes hbytes
    rw [hsent₂]
    exact List.mem_append_right _ (List.mem_flatMap.mpr ⟨message, hmessage, hbytes⟩)

/-- A run that reports as many chunks as it may has found a direct sequence. -/
theorem direct_of_awaitMessages {limit : Nat} (h : Offers session packets)
    (hwellFormed : ∀ item ∈ packets, item.WellFormed) {size : Nat} {session' : Session Broker}
    (hrun : (awaitMessages codecs limit).run session = (.ok size, session'))
    (hcount : chunkCount session' = chunkCount session + limit) :
    ∃ received : List Message, received.length = limit ∧ Direct received packets ∧
      (messages packets).take limit = received := by
  rw [awaitMessages] at hrun
  obtain ⟨found, session₁, hread, hrun⟩ := Fallible.run_bind_eq_ok_iff.mp hrun
  obtain ⟨item, rest, rfl, -, rfl, hoffers₁, hevents₁, -⟩ :=
    offers_of_readPacket h hwellFormed hread
  by_cases hreply : item.header >>> 4 ≠ 9 ∨ item.body.length < 3 ∨ item.body.take 2 ≠ [0, 1] ∨
      item.body.getD 2 0 = 0x80
  · rw [if_pos hreply] at hrun
    cases hrun
  · rw [if_neg hreply] at hrun
    obtain ⟨granted, rfl⟩ := eq_suback (hwellFormed item List.mem_cons_self)
      (not_not.mp (not_or.mp hreply).1)
    obtain ⟨received, rest', rfl, rfl, hfits⟩ := direct_of_receive hoffers₁
      (fun item hmem => hwellFormed item (List.mem_cons_of_mem _ hmem)) hrun
      (by rw [hcount, chunkCount_of_events hevents₁])
    have hmessages : messages (.suback granted :: (received.flatMap Message.packets ++ rest')) =
        received ++ messages rest' := by
      rw [messages, List.filterMap_cons_none rfl, List.filterMap_append, ← messages, ← messages,
        messages_packets]
    exact ⟨received, rfl, ⟨granted, rest', rfl, hfits⟩, by
      rw [hmessages, List.take_left]⟩

/-- A run that delivers has found its messages directly one behind the other. -/
theorem direct_of_delivers (codecs : Codecs) (info : RunInfo) {request : RequestEnvelope}
    {session : Session Broker} {payload : MqttRequest} {packets : List BrokerPacket}
    (hstart : session.events = []) (hsubscribed : Subscribed codecs request session payload packets)
    (hwellFormed : ∀ item ∈ packets, item.WellFormed)
    (hlimit : received.length = payload.receiveLimit)
    (hdelivers : Delivers codecs received ((execute codecs info request).run session)) :
    Direct ((messages packets).take payload.receiveLimit) packets := by
  obtain ⟨session', hrun, hoffers, hevents⟩ := execute_of_subscribed info hsubscribed
  rw [hstart, List.nil_append] at hevents
  rw [hrun] at hdelivers
  obtain ⟨⟨summary, hok⟩, hchunks, -⟩ := hdelivers
  obtain ⟨size, session₁, hawait, -⟩ := Fallible.run_bind_eq_ok_iff.mp (Prod.ext hok rfl)
  rw [Fallible.run_bind_of_ok hawait] at hchunks
  obtain ⟨reported, -, hreported, -⟩ := report_run info request size session₁
  have hcount : chunkCount session₁ = chunkCount session' + payload.receiveLimit := by
    rw [hreported, List.filter_append, List.filter_cons_of_neg Bool.false_ne_true,
      List.filter_nil, List.append_nil] at hchunks
    rw [chunkCount, List.countP_eq_length_filter, hchunks, length_messageChunks, hlimit,
      chunkCount, hevents]
    exact (Nat.zero_add _).symm
  obtain ⟨direct, -, hdirect, htake⟩ :=
    direct_of_awaitMessages hoffers hwellFormed hawait hcount
  rw [htake]
  exact hdirect

/-- A subscription delivers its messages exactly when they come directly one behind the other,
behind the SUBACK, each with its PUBREL at once. -/
theorem subscription_delivers (codecs : Codecs) (info : RunInfo) (request : RequestEnvelope)
    (session : Session Broker) (payload : MqttRequest) (packets : List BrokerPacket)
    (hstart : session.events = [])
    (hsubscribed : Subscribed codecs request session payload packets)
    (hwellFormed : ∀ item ∈ packets, item.WellFormed)
    (hmessages : payload.receiveLimit ≤ (messages packets).length) :
    Delivers codecs ((messages packets).take payload.receiveLimit)
        ((execute codecs info request).run session) ↔
      Direct ((messages packets).take payload.receiveLimit) packets := by
  have hlimit : ((messages packets).take payload.receiveLimit).length = payload.receiveLimit := by
    rw [List.length_take, Nat.min_eq_left hmessages]
  constructor
  · exact direct_of_delivers codecs info hstart hsubscribed hwellFormed hlimit
  · rintro ⟨granted, rest, hpackets, hfits⟩
    obtain ⟨session', hrun, hoffers, hevents⟩ := execute_of_subscribed info hsubscribed
    rw [hstart, List.nil_append] at hevents
    rw [hrun]
    generalize (messages packets).take payload.receiveLimit = received at hlimit hpackets hfits ⊢
    subst hpackets
    have hmem : ∀ item ∈ received.flatMap Message.packets,
        item ∈ BrokerPacket.suback granted :: (received.flatMap Message.packets ++ rest) :=
      fun item hitem => List.mem_cons_of_mem _ (List.mem_append_left _ hitem)
    obtain ⟨size, session₁, hawait, hchunks, hacks⟩ := awaitMessages_of_offers codecs
      ((hwellFormed _ List.mem_cons_self).granted granted rfl) hoffers
      (fun item hitem => hwellFormed item (hmem item hitem)) hfits
    obtain ⟨summary, hok, hreported, hsent⟩ :=
      report_run info request size session₁
    rw [← hlimit, Fallible.run_bind_of_ok hawait]
    refine ⟨⟨summary, hok⟩, ?_, fun message hmessage bytes hbytes =>
      hsent bytes (hacks message hmessage bytes hbytes)⟩
    rw [hreported, hchunks, hevents, List.filter_append, List.filter_append,
      filter_messageChunks]
    exact List.append_nil _

end Subscriptions

/-! ## Messages for a lamp -/

/-- The message that the broker has kept for the topic. -/
def retained : Message := ⟨false, true, 0, "home/lamp", 0, utf8 "on"⟩

/-- A message that is acknowledged, and one that is acknowledged in two steps. -/
def switched : List Message :=
  [⟨true, false, 1, "home/lamp", 7, utf8 "off"⟩, ⟨false, false, 2, "home/lamp", 9, []⟩]

def lampRequest (limit : Nat) : RequestEnvelope :=
  { RequestEnvelope.httpGet "request" "2026-01-01T00:00:00Z" "lamp" "mqtt://broker" with
    protocolId := "mqtt"
    payload := .raw (.obj [("mode", .str "subscribe"), ("topic", .str "home/lamp"),
      ("qos", .num 2), ("receiveLimit", .num limit)]) }

def lampSubscription (limit : Nat) : MqttRequest :=
  ⟨"subscribe", "apivoy-client", none, none, true, 30, "home/lamp", [], 2, false, limit⟩

def lampRun : RunInfo := ⟨"run", "2026-01-01T00:00:00Z", "2026-01-01T00:00:01Z", 1000⟩

/-- A broker that accepts the connection and then sends packets. -/
def offering (packets : List BrokerPacket) : Session Broker :=
  ⟨Broker.sending ((BrokerPacket.other 0x20 [0, 0] :: packets).flatMap BrokerPacket.encode), []⟩

theorem subscribed_lampRequest {limit : Nat} (packets : List BrokerPacket)
    (h : requestPayload Codecs.unused (lampRequest limit) = .ok (lampSubscription limit)) :
    Subscribed Codecs.unused (lampRequest limit) (offering packets) (lampSubscription limit)
      packets where
  decoded := h
  addressed := ⟨("broker:1883", false), show target "mqtt://broker" = _ by rfl⟩
  mode := show "subscribe" ≠ "publish" by decide
  connects := ⟨_, show connectPacket (lampSubscription 0) = _ by rfl⟩
  subscribes := ⟨_, show subscribePacket "home/lamp" 2 1 = _ by rfl⟩
  connected := rfl
  offers := ⟨0, rfl, rfl, rfl⟩

theorem wellFormed_publish {message : Message} (hlength : message.body.length < 128 ^ 4)
    (htopic : (utf8 message.topic).length ≤ 65535)
    (hid : 0 < message.qos.val → message.id ≠ 0) :
    (BrokerPacket.publish message).WellFormed where
  length := hlength
  granted := fun _ h => by cases h
  topic := fun _ h => by cases h; exact htopic
  acknowledged := fun _ h => by cases h; exact hid
  kind := fun _ _ h => by cases h

theorem wellFormed_retained : (BrokerPacket.publish retained).WellFormed :=
  wellFormed_publish (by decide) (by decide) (by decide)

theorem wellFormed_suback {granted : UInt8} (hgranted : granted ≤ 2) :
    (BrokerPacket.suback granted).WellFormed where
  length := show 3 < 128 ^ 4 by decide
  granted := fun _ h => by cases h; exact hgranted
  topic := fun _ h => by cases h
  acknowledged := fun _ h => by cases h
  kind := fun _ _ h => by cases h

theorem wellFormed_pubrel (id : UInt16) : (BrokerPacket.pubrel id).WellFormed where
  length := by rw [BrokerPacket.body, length_beBytes]; decide
  granted := fun _ h => by cases h
  topic := fun _ h => by cases h
  acknowledged := fun _ h => by cases h
  kind := fun _ _ h => by cases h

theorem subscription_delivers_switched :
    Delivers Codecs.unused (retained :: switched)
      ((execute Codecs.unused lampRun (lampRequest 3)).run (offering
        (.suback 2 :: ((retained :: switched).flatMap Message.packets ++ [.publish retained])))) := by
  have hwellFormed : ∀ item ∈ BrokerPacket.suback 2 ::
      ((retained :: switched).flatMap Message.packets ++ [.publish retained]),
      item.WellFormed := by
    rw [show (retained :: switched).flatMap Message.packets =
      [.publish retained, .publish switched[0], .publish switched[1], .pubrel 9] from rfl]
    intro item hmem
    simp only [List.cons_append, List.nil_append, List.mem_cons, List.not_mem_nil, or_false] at hmem
    rcases hmem with rfl | rfl | rfl | rfl | rfl | rfl
    · exact wellFormed_suback (by decide)
    · exact wellFormed_retained
    · exact wellFormed_publish (by decide) (by decide) (by decide)
    · exact wellFormed_publish (by decide) (by decide) (by decide)
    · exact wellFormed_pubrel 9
    · exact wellFormed_retained
  refine (subscription_delivers Codecs.unused lampRun _ _ _ _ rfl (subscribed_lampRequest _ (by rfl))
    hwellFormed (by decide)).mpr ⟨2, [.publish retained], rfl, ?_⟩
  decide

/-- A broker that sends the retained message before it confirms the subscription conforms, but
nothing is delivered. -/
theorem not_delivers_of_early :
    ¬∀ (codecs : Codecs) (info : RunInfo) (request : RequestEnvelope) (session : Session Broker)
      (payload : MqttRequest) (packets : List BrokerPacket), session.events = [] →
        Subscribed codecs request session payload packets → Conforming packets →
        1 ≤ payload.receiveLimit → payload.receiveLimit ≤ (messages packets).length →
        Delivers codecs ((messages packets).take payload.receiveLimit)
          ((execute codecs info request).run session) := by
  intro h
  have hwellFormed : ∀ item ∈ [BrokerPacket.publish retained, .suback 0], item.WellFormed :=
    List.forall_mem_cons.mpr ⟨wellFormed_retained, List.forall_mem_singleton.mpr
      (wellFormed_suback (by decide))⟩
  have hconforming : Conforming [BrokerPacket.publish retained, .suback 0] := by
    refine ⟨hwellFormed, rfl, fun before id after heq => ?_⟩
    have hmem : BrokerPacket.pubrel id ∈ [BrokerPacket.publish retained, .suback 0] := by
      rw [heq]
      exact List.mem_append_right _ List.mem_cons_self
    simp at hmem
  have hsubscribed := @subscribed_lampRequest 1 [.publish retained, .suback 0] (by rfl)
  have hdelivers := h Codecs.unused lampRun _ _ _ _ rfl hsubscribed hconforming
    (Nat.le_refl 1) (Nat.le_refl 1)
  obtain ⟨granted, rest, heq, -⟩ := direct_of_delivers Codecs.unused lampRun rfl hsubscribed
    hwellFormed rfl hdelivers
  cases heq

end ApiVoy.Drivers.Mqtt
