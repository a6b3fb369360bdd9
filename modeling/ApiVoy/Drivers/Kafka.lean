/-
# Requests of the Kafka driver

What the driver reads of a request, what it refuses, and the record that it produces. The
partition is a signed integer of the payload, narrowed to 32 bits.
-/

import ApiVoy.Drivers.Session
import ApiVoy.Foundation.Text

namespace ApiVoy.Drivers.Kafka

open Foundation Domain Engine

structure KafkaRequest where
  mode : String
  brokers : String
  topic : String
  key : Option String
  payload : Bytes
  partition : Option Int
  groupId : String
  offsetReset : String
  autoCommit : Bool
  receiveLimit : Nat
  securityProtocol : String
  saslMechanism : String
  username : Option String
  password : Option String
  caPem : Option String
  certificatePem : Option String
  keyPem : Option String
  keyPassword : Option String
  deriving DecidableEq

/-! ## Reading a request -/

def rawValue (payload : Json) : Json := (payload.get "value").getD payload

/-- A signed integer of 64 bits. -/
def asI64 : Json → Option Int
  | .num q => if q.den = 1 ∧ -2 ^ 63 ≤ q.num ∧ q.num < 2 ^ 63 then some q.num else none
  | _ => none

/-- The signed integer of this name in an object; a float is none. -/
def i64 (codecs : Codecs) (value : Json) (name : String) : Option Int :=
  if codecs.isFloat value name then none else (value.get name).bind asI64

/-- The lowest 32 bits of an integer, with a sign. -/
def toI32 (n : Int) : Int := n.bmod (2 ^ 32)

/-- The secret that a member refers to. -/
def secret (request : RequestEnvelope) (value : Json) (key : String) :
    Except DriverError (Option String) :=
  match value.textOf key with
  | none => .ok none
  | some reference =>
    match request.runtimeSecrets.lookup reference with
    | some secret => .ok (some secret)
    | none => .error (.validation
        ("Kafka secret `" ++ reference ++ "` for " ++ key ++ " is unavailable"))

def decodePayload (codecs : Codecs) (value : Json) : Except DriverError Bytes :=
  let data := ((value.get "payload").bind Json.asStr).getD ""
  if ((value.get "encoding").bind Json.asStr).getD "text" = "base64" then
    match codecs.decodeBase64 data with
    | .ok bytes => .ok bytes
    | .error message => .error (.validation ("invalid Kafka base64 payload: " ++ message))
  else .ok (utf8 data)

/-- The brokers of a target, whose scheme may be left out. -/
def brokersOf (target : String) : String :=
  if "kafka://".toList.isPrefixOf target.toList then String.ofList (target.toList.drop 8)
  else target

def partitionOf (codecs : Codecs) (value : Json) : Option Int :=
  ((i64 codecs value "partition").map toI32).filter (0 ≤ ·)

def decode (codecs : Codecs) (request : RequestEnvelope) : Except DriverError KafkaRequest :=
  match request.payload with
  | .raw payload => do
    let value := rawValue payload
    let data ← decodePayload codecs value
    let password ← secret request value "passwordRef"
    let caPem ← secret request value "caPemRef"
    let certificatePem ← secret request value "certificatePemRef"
    let keyPem ← secret request value "keyPemRef"
    let keyPassword ← secret request value "keyPasswordRef"
    return {
      mode := ((value.get "mode").bind Json.asStr).getD "produce"
      brokers := brokersOf request.target
      topic := ((value.get "topic").bind Json.asStr).getD ""
      key := value.textOf "key"
      payload := data
      partition := partitionOf codecs value
      groupId := (value.textOf "groupId").getD "apivoy-consumer"
      offsetReset := ((value.get "offsetReset").bind Json.asStr).getD "latest"
      autoCommit := ((value.get "autoCommit").bind Json.asBool).getD false
      receiveLimit := max 1 (min ((codecs.u64 value "receiveLimit").getD 1) 10000)
      securityProtocol := ((value.get "securityProtocol").bind Json.asStr).getD "PLAINTEXT"
      saslMechanism := ((value.get "saslMechanism").bind Json.asStr).getD "PLAIN"
      username := value.textOf "username"
      password := password
      caPem := caPem
      certificatePem := certificatePem
      keyPem := keyPem
      keyPassword := keyPassword }
  | _ => .error (.validation "Kafka requires raw payload")

/-! ## Validation -/

def usesSasl (payload : KafkaRequest) : Bool :=
  occursIn "SASL".toList payload.securityProtocol.toList

/-- The errors of a request that has been read. -/
def payloadErrors (payload : KafkaRequest) : List String :=
  (if trim payload.brokers = "" then ["Kafka bootstrap brokers are required"] else []) ++
    ((if trim payload.topic = "" then ["Kafka topic is required"] else []) ++
      ((if ["produce", "consume"].contains payload.mode then []
        else ["Kafka mode must be produce or consume"]) ++
        ((if ["earliest", "latest", "error"].contains payload.offsetReset then []
          else ["Kafka offsetReset must be earliest, latest, or error"]) ++
          if usesSasl payload = true ∧ (payload.username = none ∨ payload.password = none) then
            ["Kafka SASL requires username and passwordRef"]
          else [])))

/-- The errors of a validation report. -/
def validate (codecs : Codecs) (request : RequestEnvelope) : List String :=
  match decode codecs request with
  | .ok payload => payloadErrors payload
  | .error e => [e.message]

/-! ## Records -/

/-- A record for the producer, which chooses the partition when there is none. -/
structure FutureRecord where
  topic : String
  payload : Bytes
  key : Option String
  partition : Option Int
  deriving DecidableEq

def record (payload : KafkaRequest) : FutureRecord where
  topic := payload.topic
  payload := payload.payload
  key := payload.key
  partition := payload.partition

theorem decode_eq_ok {codecs : Codecs} {request : RequestEnvelope} {payload : KafkaRequest}
    (h : decode codecs request = .ok payload) :
    ∃ value, request.payload = .raw value ∧ payload.partition = partitionOf codecs (rawValue value) := by
  unfold decode at h
  split at h
  · rename_i value hraw
    obtain ⟨data, _, h⟩ := bind_eq_ok_iff.mp h
    obtain ⟨password, _, h⟩ := bind_eq_ok_iff.mp h
    obtain ⟨caPem, _, h⟩ := bind_eq_ok_iff.mp h
    obtain ⟨certificatePem, _, h⟩ := bind_eq_ok_iff.mp h
    obtain ⟨keyPem, _, h⟩ := bind_eq_ok_iff.mp h
    obtain ⟨keyPassword, _, h⟩ := bind_eq_ok_iff.mp h
    cases h
    exact ⟨value, hraw, rfl⟩
  · cases h

theorem toI32_eq_self {n : Int} (hlow : -2 ^ 31 ≤ n) (hhigh : n < 2 ^ 31) : toI32 n = n :=
  Int.bmod_eq_of_le (by omega) (by omega)

theorem partitionOf_eq {codecs : Codecs} {value : Json} {n : Int}
    (h : i64 codecs value "partition" = some n) (hlow : -2 ^ 31 ≤ n) (hhigh : n < 2 ^ 31) :
    partitionOf codecs value = if 0 ≤ n then some n else none := by
  rw [partitionOf, h, Option.map_some, toI32_eq_self hlow hhigh, Option.filter_some]
  simp only [decide_eq_true_eq]

end ApiVoy.Drivers.Kafka
