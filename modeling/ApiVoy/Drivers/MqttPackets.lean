/-
# MQTT packets

A packet of MQTT 3.1.1 has a header byte, the length of its body in digits to the base 128,
and the body. The length is written by one loop and read by another, which gives up behind
four digits.
-/

import ApiVoy.Drivers.Session
import ApiVoy.Foundation.Numerals

namespace ApiVoy.Drivers.Mqtt

open Foundation Domain Engine

/-! ## Writing -/

structure MqttRequest where
  mode : String
  clientId : String
  username : Option String
  password : Option String
  cleanSession : Bool
  keepAlive : Nat
  topic : String
  payload : Bytes
  qos : UInt8
  retain : Bool
  receiveLimit : Nat
  deriving DecidableEq

def pushUtf8 (output : Bytes) (value : String) : Except DriverError Bytes :=
  if 65535 < (utf8 value).length then .error (.validation "MQTT string exceeds 65535 bytes")
  else .ok (output ++ (beBytes 2 (utf8 value).length ++ utf8 value))

/-- The length of a body, the least significant digit first. -/
def remainingLength (length : Nat) : Bytes :=
  if length / 128 = 0 then [UInt8.ofNat (length % 128)]
  else (UInt8.ofNat (length % 128) ||| 0x80) :: remainingLength (length / 128)
  termination_by length
  decreasing_by omega

def packet (header : UInt8) (body : Bytes) : Bytes :=
  header :: (remainingLength body.length ++ body)

def connectPacket (payload : MqttRequest) : Except DriverError Bytes := do
  let body ← pushUtf8 [] "MQTT"
  let flags : UInt8 := (if payload.cleanSession = true then 0x02 else 0) |||
    ((if payload.username.isSome = true then 0x80 else 0) |||
      (if payload.password.isSome = true then 0x40 else 0))
  let body ← pushUtf8 (body ++ ([4, flags] ++ beBytes 2 payload.keepAlive)) payload.clientId
  let body ← match payload.username with
    | some username => pushUtf8 body username
    | none => .ok body
  let body ← match payload.password with
    | some password => pushUtf8 body password
    | none => .ok body
  return packet 0x10 body

def publishHeader (payload : MqttRequest) : UInt8 :=
  (0x30 : UInt8) ||| ((payload.qos <<< 1) ||| (if payload.retain = true then 1 else 0))

def publishBody (payload : MqttRequest) (packetId : UInt16) : Except DriverError Bytes := do
  let body ← pushUtf8 [] payload.topic
  let body := if 0 < payload.qos then body ++ beBytes 2 packetId.toNat else body
  return body ++ payload.payload

def publishPacket (payload : MqttRequest) (packetId : UInt16) : Except DriverError Bytes := do
  let body ← publishBody payload packetId
  return packet (publishHeader payload) body

def subscribePacket (topic : String) (qos : UInt8) (packetId : UInt16) :
    Except DriverError Bytes := do
  let body ← pushUtf8 (beBytes 2 packetId.toNat) topic
  return packet 0x82 (body ++ [qos])

/-! ## Reading -/

/-- What comes of waiting for a packet to begin. -/
inductive Wait where
  | ready
  | timedOut
  | cancelled
  deriving DecidableEq

/-- A connection to a broker: what comes of connecting, of waiting for packets and of writing,
the bytes that are to come with what ends them, and the packets that have been sent. Behind
the waits the packets are there, and behind the writes all succeed. -/
structure Broker where
  connecting : Except DriverError Unit
  waits : List Wait
  writes : List (Except String Unit)
  incoming : Bytes
  lost : String
  sent : List Bytes

abbrev MqttM := DriverM Broker

namespace Broker

def wait (broker : Broker) : Wait × Broker :=
  (broker.waits.headD .ready, { broker with waits := broker.waits.tail })

/-- Take a number of bytes, if so many are to come. -/
def take (count : Nat) (broker : Broker) : Option Bytes × Broker :=
  if count ≤ broker.incoming.length then
    (some (broker.incoming.take count), { broker with incoming := broker.incoming.drop count })
  else (none, { broker with incoming := [] })

def send (bytes : Bytes) (broker : Broker) : Except String Unit × Broker :=
  match broker.writes.headD (.ok ()) with
  | .ok _ => (.ok (), { broker with writes := broker.writes.tail, sent := broker.sent ++ [bytes] })
  | .error message => (.error message, { broker with writes := broker.writes.tail })

end Broker

def readExact (count : Nat) : MqttM Bytes := do
  let found ← askPeer (Broker.take count)
  match found with
  | some bytes => return bytes
  | none => do
    let message ← askPeer fun broker => (broker.lost, broker)
    Fallible.fail (.connection message)

/-- Read the digits of a length, in at most so many rounds. -/
def readLength : Nat → Nat → Nat → MqttM Nat
  | 0, _, length => return length
  | rounds + 1, multiplier, length => do
    let digit ← readExact 1
    let byte := digit.headD 0
    let length := length + (byte &&& 127).toNat * multiplier
    if byte &&& 128 = 0 then return length
    else if rounds = 0 then Fallible.fail (.protocol "invalid MQTT remaining length")
    else readLength rounds (multiplier * 128) length

def maxPacketBytes : Nat := 64 * 1024 * 1024

def readPacket : MqttM (UInt8 × Bytes) := do
  match ← askPeer Broker.wait with
  | .cancelled => Fallible.fail .cancelled
  | .timedOut => Fallible.fail (.timeout "MQTT packet timed out")
  | .ready => do
    let header ← readExact 1
    let length ← readLength 4 1 0
    if maxPacketBytes < length then Fallible.fail (.protocol "MQTT packet exceeds 64 MiB")
    else do
      let body ← readExact length
      return (header.headD 0, body)

/-- The quality of service in the header of a PUBLISH. -/
def headerQos (header : UInt8) : UInt8 := (header >>> 1) &&& 3

def incomingPublish (header : UInt8) (body : Bytes) :
    Except DriverError (String × Bytes × Option UInt16) :=
  if body.length < 2 then .error (.protocol "truncated MQTT PUBLISH")
  else
    let topicLength := readBE (body.take 2)
    if body.length < 2 + topicLength then .error (.protocol "truncated MQTT topic")
    else
      match fromUtf8 ((body.drop 2).take topicLength) with
      | none => .error (.protocol "MQTT topic is not UTF-8")
      | some topic =>
        let cursor := 2 + topicLength
        if 0 < headerQos header then
          if body.length < cursor + 2 then .error (.protocol "missing MQTT packet id")
          else
            .ok (topic, body.drop (cursor + 2),
              some (UInt16.ofNat (readBE ((body.drop cursor).take 2))))
        else .ok (topic, body.drop cursor, none)

/-! ## Round trips -/

theorem readExact_append {bytes rest : Bytes} {session : Session Broker}
    (h : session.peer.incoming = bytes ++ rest) :
    (readExact bytes.length).run session =
      (.ok bytes, { session with peer := { session.peer with incoming := rest } }) := by
  have htake : session.peer.take bytes.length =
      (some bytes, { session.peer with incoming := rest }) := by
    rw [Broker.take, h, if_pos (by rw [List.length_append]; omega), List.take_left, List.drop_left]
  rw [readExact]
  simp only [Fallible.run_bind, run_askPeer, htake]
  rfl

theorem readExact_cons {byte : UInt8} {rest : Bytes} {session : Session Broker}
    (h : session.peer.incoming = byte :: rest) :
    (readExact 1).run session =
      (.ok [byte], { session with peer := { session.peer with incoming := rest } }) :=
  @readExact_append [byte] rest session h

/-- The last digit of a length has no continuation bit. -/
theorem digit_last : ∀ n : Fin 128, UInt8.ofNat n &&& 128 = 0 ∧
    (UInt8.ofNat n &&& 127).toNat = n := by decide

theorem digit_more : ∀ n : Fin 128, (UInt8.ofNat n ||| 0x80) &&& 128 ≠ 0 ∧
    ((UInt8.ofNat n ||| 0x80) &&& 127).toNat = n := by decide

variable {session : Session Broker}

/-- The loop that reads a length undoes the loop that writes it. -/
theorem readLength_remainingLength {rounds n multiplier length : Nat} {rest : Bytes}
    (hn : n < 128 ^ rounds) (hrounds : 0 < rounds)
    (h : session.peer.incoming = remainingLength n ++ rest) :
    (readLength rounds multiplier length).run session =
      (.ok (length + n * multiplier),
        { session with peer := { session.peer with incoming := rest } }) := by
  induction rounds generalizing n multiplier length session with
  | zero => omega
  | succ rounds ih =>
    have hdigit : n % 128 < 128 := Nat.mod_lt n (by decide)
    rw [remainingLength] at h
    rw [readLength]
    by_cases hlast : n / 128 = 0
    · have ⟨hzero, hvalue⟩ := digit_last ⟨n % 128, hdigit⟩
      have hsmall : n % 128 = n := Nat.mod_eq_of_lt (by omega)
      rw [if_pos hlast] at h
      rw [Fallible.run_bind_of_ok (readExact_cons h)]
      simp only [List.headD_cons, hzero, if_true, hvalue]
      rw [hsmall]
      rfl
    · have ⟨hnonzero, hvalue⟩ := digit_more ⟨n % 128, hdigit⟩
      rw [if_neg hlast, List.cons_append] at h
      rw [Fallible.run_bind_of_ok (readExact_cons h)]
      have hdiv : n / 128 < 128 ^ rounds := by
        rw [Nat.div_lt_iff_lt_mul (by decide)]
        exact hn
      have hmore : rounds ≠ 0 := by
        intro hzero
        rw [hzero] at hdiv
        exact hlast (Nat.lt_one_iff.mp hdiv)
      simp only [List.headD_cons, hnonzero, if_false, hvalue, hmore]
      rw [ih hdiv (Nat.pos_of_ne_zero hmore) rfl]
      have hsum : length + n % 128 * multiplier + n / 128 * (multiplier * 128) =
          length + n * multiplier := by
        have hn := Nat.mod_add_div n 128
        calc length + n % 128 * multiplier + n / 128 * (multiplier * 128)
            = length + (n % 128 + 128 * (n / 128)) * multiplier := by ring
          _ = length + n * multiplier := by rw [hn]
      rw [hsum]

variable {header : UInt8}

variable {body rest : Bytes}

/-- A packet is read back, and nothing behind it. -/
theorem readPacket_packet (hbody : body.length ≤ maxPacketBytes)
    (hwait : (session.peer.wait).1 = .ready)
    (h : session.peer.incoming = packet header body ++ rest) :
    readPacket.run session =
      (.ok (header, body),
        { session with peer := { session.peer.wait.2 with incoming := rest } }) := by
  rw [packet, List.cons_append, List.append_assoc] at h
  have hlength : body.length < 128 ^ 4 := Nat.lt_of_le_of_lt hbody (by decide)
  rw [readPacket]
  simp only [Fallible.run_bind, run_askPeer, hwait]
  rw [@readExact_cons header _ ⟨session.peer.wait.2, session.events⟩ h]
  simp only
  rw [readLength_remainingLength hlength (by decide) rfl]
  simp only [Nat.mul_one, Nat.zero_add]
  rw [if_neg (by omega), Fallible.run_bind_of_ok (readExact_append rfl)]
  rfl

/-- A packet beyond the limit is refused. -/
theorem readPacket_large (hbody : maxPacketBytes < body.length) (hlength : body.length < 128 ^ 4)
    (hwait : (session.peer.wait).1 = .ready)
    (h : session.peer.incoming = packet header body ++ rest) :
    (readPacket.run session).1 = .error (.protocol "MQTT packet exceeds 64 MiB") := by
  rw [packet, List.cons_append, List.append_assoc] at h
  rw [readPacket]
  simp only [Fallible.run_bind, run_askPeer, hwait]
  rw [@readExact_cons header _ ⟨session.peer.wait.2, session.events⟩ h]
  simp only
  rw [readLength_remainingLength hlength (by decide) rfl]
  simp only [Nat.mul_one, Nat.zero_add]
  rw [if_pos hbody]
  rfl

theorem readPacket_nil (hwait : (session.peer.wait).1 = .ready) (h : session.peer.incoming = []) :
    (readPacket.run session).1 = .error (.connection session.peer.lost) := by
  have htake : session.peer.wait.2.take 1 = (none, { session.peer.wait.2 with incoming := [] }) := by
    rw [Broker.take]
    exact if_neg (by rw [show session.peer.wait.2.incoming = [] from h]; decide)
  rw [readPacket]
  simp only [Fallible.run_bind, run_askPeer, hwait, readExact, htake]
  rfl

/-! ## Packets and events -/

theorem quiet_readExact (count : Nat) : Quiet (readExact count) := by
  refine .bind (.askPeer _) fun found => ?_
  cases found with
  | some bytes => exact .pure bytes
  | none => exact .bind (.askPeer _) fun message => .fail _

theorem quiet_readLength (rounds multiplier length : Nat) :
    Quiet (readLength rounds multiplier length) := by
  induction rounds generalizing multiplier length with
  | zero => exact .pure length
  | succ rounds ih =>
    exact .bind (quiet_readExact 1) fun digit =>
      Quiet.ite (.pure _) (.ite (.fail _) (ih _ _))

theorem quiet_readPacket : Quiet readPacket := by
  refine .bind (.askPeer _) fun wait => ?_
  cases wait with
  | cancelled | timedOut => exact .fail _
  | ready =>
    exact .bind (quiet_readExact 1) fun header =>
      Quiet.bind (quiet_readLength 4 1 0) fun length =>
        Quiet.ite (.fail _) (.bind (quiet_readExact length) fun body => .pure _)

/-! ## Messages -/

theorem headerQos_publishHeader : ∀ (qos : Fin 3) (retain : Bool),
    headerQos ((0x30 : UInt8) ||| ((UInt8.ofNat qos <<< 1) ||| (if retain = true then 1 else 0))) =
      UInt8.ofNat qos := by decide

/-- A PUBLISH whose topic is a text has a packet id behind it when it is acknowledged. -/
theorem incomingPublish_of_topic {topic : String} {rest : Bytes}
    (htopic : (utf8 topic).length ≤ 65535) :
    incomingPublish header (beBytes 2 (utf8 topic).length ++ (utf8 topic ++ rest)) =
      if 0 < headerQos header then
        if rest.length < 2 then .error (.protocol "missing MQTT packet id")
        else .ok (topic, rest.drop 2, some (UInt16.ofNat (readBE (rest.take 2))))
      else .ok (topic, rest, none) := by
  have hlength : readBE ((beBytes 2 (utf8 topic).length ++ (utf8 topic ++ rest)).take 2) =
      (utf8 topic).length := by
    rw [List.take_left' (length_beBytes _ _), readBE_beBytes (by omega)]
  have hdrop : (beBytes 2 (utf8 topic).length ++ (utf8 topic ++ rest)).drop 2 =
      utf8 topic ++ rest := List.drop_left' (length_beBytes _ _)
  have hrest : (beBytes 2 (utf8 topic).length ++ (utf8 topic ++ rest)).drop
      (2 + (utf8 topic).length) = rest := by
    rw [← List.drop_drop, hdrop, List.drop_left]
  have hafter : (beBytes 2 (utf8 topic).length ++ (utf8 topic ++ rest)).drop
      (2 + (utf8 topic).length + 2) = rest.drop 2 := by
    rw [← List.drop_drop, hrest]
  have hall : (beBytes 2 (utf8 topic).length ++ (utf8 topic ++ rest)).length =
      2 + ((utf8 topic).length + rest.length) := by
    rw [List.length_append, List.length_append, length_beBytes]
  simp only [incomingPublish, hlength, hdrop, hrest, hafter, hall, List.take_left, fromUtf8_utf8]
  rw [if_neg (by omega), if_neg (by omega)]
  by_cases hqos : 0 < headerQos header
  · simp only [hqos, if_true]
    by_cases hshort : rest.length < 2
    · rw [if_pos (by omega), if_pos hshort]
    · rw [if_neg (by omega), if_neg hshort]
  · simp only [hqos, if_false]

/-- The id of a message that is acknowledged. -/
def expectedId (payload : MqttRequest) (packetId : UInt16) : Option UInt16 :=
  if 0 < payload.qos then some packetId else none

variable {payload : MqttRequest}

theorem headerQos_of_payload (hqos : payload.qos ≤ 2) :
    headerQos (publishHeader payload) = payload.qos := by
  have hsmall : payload.qos.toNat < 3 := Nat.lt_succ_of_le (UInt8.le_iff_toNat_le.mp hqos)
  have hexact := headerQos_publishHeader ⟨payload.qos.toNat, hsmall⟩ payload.retain
  simp only [UInt8.ofNat_toNat] at hexact
  exact hexact

theorem incomingPublish_publishBody (packetId : UInt16)
    (htopic : (utf8 payload.topic).length ≤ 65535) (hqos : payload.qos ≤ 2) :
    ∃ body, publishBody payload packetId = .ok body ∧
      incomingPublish (publishHeader payload) body =
        .ok (payload.topic, payload.payload, expectedId payload packetId) := by
  have hpush : pushUtf8 [] payload.topic =
      .ok (beBytes 2 (utf8 payload.topic).length ++ utf8 payload.topic) := by
    rw [pushUtf8, if_neg (by omega), List.nil_append]
  by_cases hid : 0 < payload.qos
  · refine ⟨beBytes 2 (utf8 payload.topic).length ++
      (utf8 payload.topic ++ (beBytes 2 packetId.toNat ++ payload.payload)), ?_, ?_⟩
    · simp only [publishBody, hpush, hid, if_true, ← List.append_assoc]
      rfl
    · have hvalue : UInt16.ofNat (readBE ((beBytes 2 packetId.toNat ++ payload.payload).take 2)) =
          packetId := by
        rw [List.take_left' (length_beBytes _ _), readBE_beBytes packetId.toNat_lt,
          UInt16.ofNat_toNat]
      rw [incomingPublish_of_topic htopic, headerQos_of_payload hqos, if_pos hid, hvalue,
        List.drop_left' (length_beBytes _ _), expectedId, if_pos hid,
        if_neg (by rw [List.length_append, length_beBytes]; omega)]
  · refine ⟨beBytes 2 (utf8 payload.topic).length ++ (utf8 payload.topic ++ payload.payload),
      ?_, ?_⟩
    · simp only [publishBody, hpush, hid, if_false, ← List.append_assoc]
      rfl
    · rw [incomingPublish_of_topic htopic, headerQos_of_payload hqos, if_neg hid, expectedId,
        if_neg hid]

/-- What is written is read back: a packet, with what comes behind it left, and a message with
the id that it is acknowledged with. -/
theorem mqtt_round_trip :
    (∀ (header : UInt8) (body rest : Bytes) (session : Session Broker),
      body.length ≤ maxPacketBytes → (session.peer.wait).1 = .ready →
      session.peer.incoming = packet header body ++ rest →
        readPacket.run session = (.ok (header, body),
          { session with peer := { session.peer.wait.2 with incoming := rest } })) ∧
    (∀ (payload : MqttRequest) (packetId : UInt16),
      (utf8 payload.topic).length ≤ 65535 → payload.qos ≤ 2 →
        ∃ body, publishPacket payload packetId = .ok (packet (publishHeader payload) body) ∧
          incomingPublish (publishHeader payload) body =
            .ok (payload.topic, payload.payload,
              if 0 < payload.qos then some packetId else none)) := by
  refine ⟨fun header body rest session hbody hwait h => readPacket_packet hbody hwait h, ?_⟩
  intro payload packetId htopic hqos
  obtain ⟨body, hbody, hincoming⟩ := incomingPublish_publishBody packetId htopic hqos
  refine ⟨body, ?_, hincoming⟩
  rw [publishPacket, hbody]
  rfl

/-- A broker that sends bytes and closes the connection. -/
def Broker.sending (bytes : Bytes) : Broker := ⟨.ok (), [], [], bytes, "early eof", []⟩

/-- A message that is to be retained and acknowledged. -/
def lampMessage : MqttRequest :=
  ⟨"publish", "client", none, none, true, 30, "home/lamp", utf8 "on", 1, true, 1⟩

theorem mqtt_round_trip_lamp :
    readPacket.run ⟨Broker.sending (packet 0x40 [0, 1] ++ [0xd0, 0]), []⟩ =
        (.ok (0x40, [0, 1]), ⟨Broker.sending [0xd0, 0], []⟩) ∧
      ∃ body, publishPacket lampMessage 1 = .ok (packet (publishHeader lampMessage) body) ∧
        incomingPublish (publishHeader lampMessage) body =
          .ok ("home/lamp", utf8 "on", some 1) :=
  ⟨mqtt_round_trip.1 0x40 [0, 1] [0xd0, 0] _ (by decide) rfl rfl,
    mqtt_round_trip.2 lampMessage 1 (by decide) (by decide)⟩

end ApiVoy.Drivers.Mqtt
