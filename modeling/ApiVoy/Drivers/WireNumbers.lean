/-
# Numbers on the wire

The drivers of MQTT and Kafka narrow the numbers of a payload while they read it. A keep-alive
is cut off at the largest that a CONNECT can say. A quality of service that fits in a byte and a
partition that fits in 32 bits reach the wire as they are in the payload. A number that is
written with a point counts as none.
-/

import ApiVoy.Drivers.MqttConnect
import ApiVoy.Drivers.Kafka

namespace ApiVoy.Drivers

open Foundation Domain Engine

/-! ## Numbers in a payload -/

/-- An object has this number under a name, and it is written as an integer. -/
structure HasInteger (codecs : Codecs) (value : Json) (name : String) (n : Int) : Prop where
  member : value.get name = some (.num n)
  written : codecs.isFloat value name = false

/-- The unsigned integer of 64 bits that an object has under a name, or the default. -/
def Gives (codecs : Codecs) (value : Json) (name : String) (default n : Nat) : Prop :=
  HasInteger codecs value name n ∧ n < 2 ^ 64 ∨
    (¬∃ m : Nat, HasInteger codecs value name m ∧ m < 2 ^ 64) ∧ n = default

section Integers

variable {codecs : Codecs} {value : Json} {name : String}

theorem u64_eq_some_iff {n : Nat} :
    codecs.u64 value name = some n ↔ HasInteger codecs value name n ∧ n < 2 ^ 64 := by
  rw [Codecs.u64]
  cases hfloat : codecs.isFloat value name with
  | true => simpa using fun h => absurd (hfloat.symm.trans h.written) (by decide)
  | false =>
    rw [if_neg Bool.false_ne_true, Option.bind_eq_some_iff]
    constructor
    · rintro ⟨found, hfound, hread⟩
      cases found with
      | num q =>
        rw [Json.asU64] at hread
        split at hread
        · rename_i hfits
          cases hread
          have hnum : ((q.num.toNat : Int) : Rat) = q := by
            rw [Int.toNat_of_nonneg hfits.2.1]
            exact Rat.coe_int_num_of_den_eq_one hfits.1
          refine ⟨⟨?_, hfloat⟩, by omega⟩
          rw [hfound, hnum]
        · cases hread
      | _ => cases hread
    · rintro ⟨hinteger, hfits⟩
      refine ⟨_, hinteger.member, ?_⟩
      rw [Json.asU64, if_pos ⟨Rat.den_intCast .., by simp, by simpa using hfits⟩]
      simp

theorem gives_iff {default n : Nat} :
    Gives codecs value name default n ↔ (codecs.u64 value name).getD default = n := by
  rw [Gives]
  cases hread : codecs.u64 value name with
  | some found =>
    have hfound := u64_eq_some_iff.mp hread
    rw [or_iff_left fun h => h.1 ⟨found, hfound⟩, ← u64_eq_some_iff, hread]
    exact Option.some_inj
  | none =>
    have hnone : ¬∃ m : Nat, HasInteger codecs value name m ∧ m < 2 ^ 64 := by
      rintro ⟨m, hm⟩
      rw [u64_eq_some_iff.mpr hm] at hread
      cases hread
    rw [or_iff_right fun h => hnone ⟨n, h⟩, and_iff_right hnone]
    exact eq_comm

theorem i64_eq_some_iff {n : Int} : Kafka.i64 codecs value name = some n ↔
    HasInteger codecs value name n ∧ -2 ^ 63 ≤ n ∧ n < 2 ^ 63 := by
  rw [Kafka.i64]
  cases hfloat : codecs.isFloat value name with
  | true => simpa using fun h => absurd (hfloat.symm.trans h.written) (by decide)
  | false =>
    rw [if_neg Bool.false_ne_true, Option.bind_eq_some_iff]
    constructor
    · rintro ⟨found, hfound, hread⟩
      cases found with
      | num q =>
        rw [Kafka.asI64] at hread
        split at hread
        · rename_i hfits
          cases hread
          refine ⟨⟨?_, hfloat⟩, hfits.2⟩
          rw [hfound, Rat.coe_int_num_of_den_eq_one hfits.1]
        · cases hread
      | _ => cases hread
    · rintro ⟨hinteger, hfits⟩
      refine ⟨_, hinteger.member, ?_⟩
      rw [Kafka.asI64, if_pos ⟨Rat.den_intCast .., hfits⟩]
      rfl

end Integers

namespace Mqtt

/-! ## Numbers in a packet -/

/-- The keep-alive of a CONNECT, behind the name, the level and the flags. -/
def keepAliveOf (bytes : Bytes) : Option Nat :=
  (splitPacket bytes).map fun (_, body) => readBE ((body.drop 8).take 2)

/-- The quality of service in the header of a PUBLISH. -/
def publishQos (bytes : Bytes) : Option Nat :=
  bytes.head?.map fun header => (headerQos header).toNat

/-- The quality of service that a SUBSCRIBE asks for, behind its only topic. -/
def subscribeQos (bytes : Bytes) : Option Nat := bytes.getLast?.map UInt8.toNat

variable {payload : MqttRequest} {bytes : Bytes}

theorem keepAliveOf_connectPacket (h : connectPacket payload = .ok bytes)
    (hkeepAlive : payload.keepAlive < 65536) : keepAliveOf bytes = some payload.keepAlive := by
  obtain ⟨hfits, rfl⟩ := connectPacket_eq_ok h
  have hfixed : (field "MQTT" ++ [4, connectFlags payload]).length = 8 := by
    rw [List.length_append]
    rfl
  have hbody : ((connectBody payload).drop 8).take 2 = beBytes 2 payload.keepAlive := by
    rw [show connectBody payload = (field "MQTT" ++ [4, connectFlags payload]) ++
        (beBytes 2 payload.keepAlive ++ (field payload.clientId ++
          (payload.username.elim [] field ++ payload.password.elim [] field))) by
      simp only [connectBody, List.append_assoc], List.drop_left' hfixed]
    exact List.take_left' (length_beBytes 2 _)
  rw [keepAliveOf, splitPacket_packet _ (length_connectBody hfits), Option.map_some]
  dsimp only
  rw [hbody, readBE_beBytes hkeepAlive]

variable {packetId : UInt16}

theorem publishQos_publishPacket (h : publishPacket payload packetId = .ok bytes)
    (hqos : payload.qos ≤ 2) : publishQos bytes = some payload.qos.toNat := by
  obtain ⟨body, _, h⟩ := bind_eq_ok_iff.mp h
  cases h
  rw [publishQos, packet, List.head?_cons, Option.map_some, headerQos_of_payload hqos]

theorem subscribeQos_subscribePacket {topic : String} {qos : UInt8}
    (h : subscribePacket topic qos packetId = .ok bytes) : subscribeQos bytes = some qos.toNat := by
  obtain ⟨body, _, h⟩ := bind_eq_ok_iff.mp h
  cases h
  rw [subscribeQos, packet, ← List.append_assoc, ← List.cons_append, List.getLast?_concat,
    Option.map_some]

/-! ## Accepted requests -/

variable {request : RequestEnvelope} {codecs : Codecs}

theorem requestPayload_eq_ok (h : requestPayload codecs request = .ok payload) :
    ∃ value, request.payload = .raw value ∧
      payload.clientId = ((rawValue value).textOf "clientId").getD "apivoy-client" ∧
      payload.keepAlive = min ((codecs.u64 (rawValue value) "keepAliveSeconds").getD 30) 65535 ∧
      payload.qos = UInt8.ofNat ((codecs.u64 (rawValue value) "qos").getD 0) := by
  unfold requestPayload at h
  split at h
  · rename_i value hraw
    obtain ⟨data, _, h⟩ := bind_eq_ok_iff.mp h
    obtain ⟨password, _, h⟩ := bind_eq_ok_iff.mp h
    obtain ⟨ca, _, h⟩ := bind_eq_ok_iff.mp h
    cases h
    exact ⟨value, hraw, rfl, rfl, rfl⟩
  · cases h

theorem textOf_getD_ne_empty (value : Json) (name : String) {text : String} (h : text ≠ "") :
    (value.textOf name).getD text ≠ "" := by
  unfold Json.textOf
  cases hfound : ((value.get name).bind Json.asStr).filter (· ≠ "") with
  | none => exact h
  | some found =>
    have hkept := Option.filter_eq_some_iff.mp hfound
    exact of_decide_eq_true hkept.2

theorem qos_le_of_validate (hvalid : validate codecs request = [])
    (h : requestPayload codecs request = .ok payload) : payload.qos ≤ 2 := by
  have herrors := (List.append_eq_nil_iff.mp hvalid).2
  rw [h] at herrors
  have hlast := (List.append_eq_nil_iff.mp (List.append_eq_nil_iff.mp herrors).2).2
  by_contra hlarge
  rw [if_pos (UInt8.not_le.mp hlarge)] at hlast
  cases hlast

/-- What the packets of an accepted request say. -/
structure PacketsSay (codecs : Codecs) (value : Json) (payload : MqttRequest) : Prop where
  keepAlive : ∀ n, Gives codecs value "keepAliveSeconds" 30 n → ∀ bytes,
    connectPacket payload = .ok bytes → keepAliveOf bytes = some (min n 65535)
  published : ∀ n, Gives codecs value "qos" 0 n → n < 256 → ∀ packetId bytes,
    publishPacket payload packetId = .ok bytes → publishQos bytes = some n
  subscribed : ∀ n, Gives codecs value "qos" 0 n → n < 256 → ∀ packetId bytes,
    subscribePacket payload.topic payload.qos packetId = .ok bytes → subscribeQos bytes = some n
  connect : (payload.username = none → payload.password = none) →
    ∀ n, Gives codecs value "keepAliveSeconds" 30 n → ∀ bytes,
      connectPacket payload = .ok bytes → readConnect bytes = some
        { cleanSession := payload.cleanSession
          keepAlive := min n 65535
          clientId := payload.clientId
          username := payload.username
          password := payload.password.map utf8 }

theorem packetsSay_of_validate (hvalid : validate codecs request = [])
    (h : requestPayload codecs request = .ok payload) :
    ∃ value, request.payload = .raw value ∧ PacketsSay codecs (rawValue value) payload := by
  obtain ⟨value, hraw, hclient, hkeepAlive, hqos⟩ := requestPayload_eq_ok h
  have hsmall : payload.qos ≤ 2 := qos_le_of_validate hvalid h
  have hnumber : payload.keepAlive < 65536 := by
    rw [hkeepAlive]
    exact Nat.lt_succ_of_le (min_le_right _ _)
  have hnamed : payload.clientId ≠ "" := by
    rw [hclient]
    exact textOf_getD_ne_empty _ _ (by decide)
  have hexact : ∀ n, Gives codecs (rawValue value) "qos" 0 n → n < 256 →
      payload.qos.toNat = n := by
    intro n hgives hfits
    rw [hqos, gives_iff.mp hgives, UInt8.toNat_ofNat']
    exact Nat.mod_eq_of_lt hfits
  refine ⟨value, hraw, ?_, ?_, ?_, ?_⟩
  · intro n hgives bytes hbytes
    rw [keepAliveOf_connectPacket hbytes hnumber, hkeepAlive, gives_iff.mp hgives]
  · intro n hgives hfits packetId bytes hbytes
    rw [publishQos_publishPacket hbytes hsmall, hexact n hgives hfits]
  · intro n hgives hfits packetId bytes hbytes
    rw [subscribeQos_subscribePacket hbytes, hexact n hgives hfits]
  · intro huser n hgives bytes hbytes
    rw [readConnect_connectPacket hbytes hnumber hnamed huser, hkeepAlive, gives_iff.mp hgives]

end Mqtt

namespace Kafka

/-- What the record of an accepted request says: a negative partition leaves the choice to the
producer. -/
structure RecordSays (codecs : Codecs) (value : Json) (payload : KafkaRequest) : Prop where
  absent : (¬∃ n, HasInteger codecs value "partition" n ∧ -2 ^ 63 ≤ n ∧ n < 2 ^ 63) →
    (record payload).partition = none
  present : ∀ n, HasInteger codecs value "partition" n → -2 ^ 31 ≤ n → n < 2 ^ 31 →
    (record payload).partition = if 0 ≤ n then some n else none

theorem recordSays_of_decode {codecs : Codecs} {request : RequestEnvelope}
    {payload : KafkaRequest} (h : decode codecs request = .ok payload) :
    ∃ value, request.payload = .raw value ∧ RecordSays codecs (rawValue value) payload := by
  obtain ⟨value, hraw, hpartition⟩ := decode_eq_ok h
  refine ⟨value, hraw, ?_, ?_⟩
  · intro habsent
    have hnone : i64 codecs (rawValue value) "partition" = none :=
      Option.eq_none_iff_forall_ne_some.mpr fun n hn => habsent ⟨n, i64_eq_some_iff.mp hn⟩
    rw [record, hpartition, partitionOf, hnone]
    rfl
  · intro n hinteger hlow hhigh
    rw [record, hpartition]
    exact partitionOf_eq (i64_eq_some_iff.mpr ⟨hinteger, by omega, by omega⟩) hlow hhigh

end Kafka

/-! ## Both drivers -/

/-- A request for a lamp that keeps its connection open for more than a day. -/
def patientRequest : RequestEnvelope :=
  { RequestEnvelope.httpGet "r1" "2026-01-01T00:00:00Z" "lamp" "mqtt://broker" with
    protocolId := "mqtt"
    payload := .raw (.obj [("keepAliveSeconds", .num 100000), ("qos", .num 1),
      ("topic", .str "lamp")]) }

def patientPayload : Mqtt.MqttRequest where
  mode := "publish"
  clientId := "apivoy-client"
  username := none
  password := none
  cleanSession := true
  keepAlive := 65535
  topic := "lamp"
  payload := []
  qos := 1
  retain := false
  receiveLimit := 1

theorem requestPayload_patientRequest :
    Mqtt.requestPayload Codecs.unused patientRequest = .ok patientPayload := by rfl

theorem validate_patientRequest : Mqtt.validate Codecs.unused patientRequest = [] := by
  rw [Mqtt.validate, requestPayload_patientRequest]
  decide

/-- A request for the third partition of a topic. -/
def orderRequest : RequestEnvelope :=
  { RequestEnvelope.httpGet "r2" "2026-01-01T00:00:00Z" "order" "kafka://broker:9092" with
    protocolId := "kafka"
    payload := .raw (.obj [("partition", .num 2), ("topic", .str "orders")]) }

theorem decode_orderRequest :
    Kafka.decode Codecs.unused orderRequest = .ok
      { mode := "produce", brokers := "broker:9092", topic := "orders", key := none,
        payload := [], partition := some 2, groupId := "apivoy-consumer",
        offsetReset := "latest", autoCommit := false, receiveLimit := 1,
        securityProtocol := "PLAINTEXT", saslMechanism := "PLAIN", username := none,
        password := none, caPem := none, certificatePem := none, keyPem := none,
        keyPassword := none } := by rfl

theorem validate_orderRequest : Kafka.validate Codecs.unused orderRequest = [] := by
  rw [Kafka.validate, decode_orderRequest]
  decide

end ApiVoy.Drivers
