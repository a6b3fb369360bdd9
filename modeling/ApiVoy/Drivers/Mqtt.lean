/-
# The MQTT driver

The driver connects to a broker and publishes one message, or subscribes to a topic and
receives messages. It takes the packets of the broker in a fixed order: behind the CONNACK
the SUBACK, then in every round one packet, and behind a message that is delivered exactly
once the PUBREL.
-/

import ApiVoy.Drivers.MqttPackets

namespace ApiVoy.Drivers.Mqtt

open Foundation Domain Engine

/-! ## Requests -/

def rawValue (payload : Json) : Json := (payload.get "value").getD payload

/-- The secret that a member refers to. -/
def decodeSecret (request : RequestEnvelope) (value : Json) (name kind : String) :
    Except DriverError (Option String) :=
  match value.textOf name with
  | none => .ok none
  | some secretRef =>
    match request.runtimeSecrets.lookup secretRef with
    | some secret => .ok (some secret)
    | none => .error (.validation
        ("MQTT " ++ kind ++ " secret `" ++ secretRef ++ "` is unavailable"))

def decodePayload (codecs : Codecs) (value : Json) : Except DriverError Bytes :=
  let data := ((value.get "payload").bind Json.asStr).getD ""
  if ((value.get "encoding").bind Json.asStr).getD "text" = "base64" then
    match codecs.decodeBase64 data with
    | .ok bytes => .ok bytes
    | .error message => .error (.validation ("invalid MQTT base64 payload: " ++ message))
  else .ok (utf8 data)

def requestPayload (codecs : Codecs) (request : RequestEnvelope) :
    Except DriverError MqttRequest :=
  match request.payload with
  | .raw payload => do
    let value := rawValue payload
    let data ← decodePayload codecs value
    let password ← decodeSecret request value "passwordRef" "password"
    let _ ← decodeSecret request value "caPemRef" "CA"
    return {
      mode := ((value.get "mode").bind Json.asStr).getD "publish"
      clientId := (value.textOf "clientId").getD "apivoy-client"
      username := value.textOf "username"
      password := password
      cleanSession := ((value.get "cleanSession").bind Json.asBool).getD true
      keepAlive := min ((codecs.u64 value "keepAliveSeconds").getD 30) 65535
      topic := ((value.get "topic").bind Json.asStr).getD ""
      payload := data
      qos := UInt8.ofNat ((codecs.u64 value "qos").getD 0)
      retain := ((value.get "retain").bind Json.asBool).getD false
      receiveLimit := max 1 (min ((codecs.u64 value "receiveLimit").getD 1) 10000) }
  | _ => .error (.validation "MQTT requires raw payload")

/-- The host and the port of a target, and whether the connection is encrypted. -/
def target (value : String) : Except DriverError (String × Bool) :=
  let tls := "mqtts://".toList.isPrefixOf value.toList
  let scheme := if tls = true then "mqtts://".toList else "mqtt://".toList
  let rest :=
    if scheme.isPrefixOf value.toList then value.toList.drop scheme.length else value.toList
  let host := rest.takeWhile (· ≠ '/')
  if host = [] then .error (.validation "MQTT target is required")
  else if ':' ∈ host then .ok (String.ofList host, tls)
  else .ok (String.ofList host ++ (if tls = true then ":8883" else ":1883"), tls)

/-- The errors of a request that has been read. -/
def payloadErrors (payload : MqttRequest) : List String :=
  (if ["publish", "subscribe"].contains payload.mode then []
    else ["MQTT mode must be publish or subscribe"]) ++
      ((if payload.topic = "" then ["MQTT topic is required"] else []) ++
        if 2 < payload.qos then ["MQTT QoS must be 0, 1, or 2"] else [])

/-- The errors of a validation report. -/
def validate (codecs : Codecs) (request : RequestEnvelope) : List String :=
  (match target request.target with
    | .ok _ => []
    | .error e => [e.message]) ++
  match requestPayload codecs request with
  | .ok payload => payloadErrors payload
  | .error e => [e.message]

/-! ## Runs -/

def sendPacket (bytes : Bytes) : MqttM Unit := do
  match ← askPeer (Broker.send bytes) with
  | .ok _ => return ()
  | .error message => Fallible.fail (.connection message)

def valueChunk (codecs : Codecs) (value : Json) (done : Bool) : ExecutionEvent :=
  let preview := codecs.pretty value
  .responseChunk (some "application/json") (UInt64.ofNat (utf8 preview).length) (some preview)
    (some (codecs.encodeBase64 (utf8 preview))) done

/-- Report a value, and say how long its text is. -/
def emitValue (codecs : Codecs) (value : Json) (done : Bool) : MqttM Nat := do
  emit (valueChunk codecs value done)
  return (utf8 (codecs.pretty value)).length

@[simp]
theorem run_emitValue (codecs : Codecs) (value : Json) (done : Bool) (session : Session Broker) :
    (emitValue codecs value done).run session =
      (.ok (utf8 (codecs.pretty value)).length,
        { session with events := session.events ++ [valueChunk codecs value done] }) := rfl

def connect : MqttM Unit := fun session => (session.peer.connecting, session)

/-- Read a packet that answers to the packet with id 1. -/
def expectReply (kind : UInt8) (name : String) : MqttM Unit := do
  let found ← readPacket
  if found.1 >>> 4 ≠ kind ∨ found.2 ≠ [0, 1] then
    Fallible.fail (.protocol ("expected matching MQTT " ++ name))
  else return ()

def publishedValue (payload : MqttRequest) : Json :=
  .obj [("bytes", .num payload.payload.length), ("published", .bool true),
    ("qos", .num payload.qos.toNat), ("retained", .bool payload.retain),
    ("topic", .str payload.topic)]

/-- Wait until the broker has taken the message over. -/
def handOver (payload : MqttRequest) : MqttM Unit :=
  if payload.qos = 1 then expectReply 4 "PUBACK"
  else if payload.qos = 2 then do
    expectReply 5 "PUBREC"
    sendPacket (packet 0x62 [0, 1])
    expectReply 7 "PUBCOMP"
  else return ()

def publish (codecs : Codecs) (payload : MqttRequest) : MqttM Nat := do
  let bytes ← Session.ofExcept (publishPacket payload 1)
  sendPacket bytes
  handOver payload
  emitValue codecs (publishedValue payload) true

def ack (header : UInt8) (id : UInt16) : Bytes := packet header (beBytes 2 id.toNat)

/-- Acknowledge a message: at least once with a PUBACK, exactly once with the exchange of a
PUBREC, the PUBREL of the broker and a PUBCOMP. -/
def acknowledge (header : UInt8) : Option UInt16 → MqttM Unit
  | none => return ()
  | some id =>
    if headerQos header = 1 then sendPacket (ack 0x40 id)
    else if headerQos header = 2 then do
      sendPacket (ack 0x50 id)
      let reply ← readPacket
      if reply.1 ≠ 0x62 ∨ reply.2 ≠ beBytes 2 id.toNat then
        Fallible.fail (.protocol "expected matching MQTT PUBREL")
      else sendPacket (ack 0x70 id)
    else return ()

section Receiving

variable (codecs : Codecs)

def messageValue (header : UInt8) (topic : String) (data : Bytes) : Json :=
  .obj [("payload", match fromUtf8 data with
      | some text => .str text
      | none => .null),
    ("payloadBase64", .str (codecs.encodeBase64 data)),
    ("qos", .num (headerQos header).toNat),
    ("retain", .bool (decide (header &&& 1 ≠ 0))),
    ("topic", .str topic)]

/-- The rounds of a subscription that are left. In every round one packet is taken, also when
it is no message. -/
def receive : Nat → MqttM Nat
  | 0 => return 0
  | left + 1 => do
    let found ← readPacket
    if found.1 >>> 4 ≠ 3 then receive left
    else do
      let message ← Session.ofExcept (incomingPublish found.1 found.2)
      acknowledge found.1 message.2.2
      let size ← emitValue codecs (messageValue codecs found.1 message.1 message.2.1)
        (decide (left = 0))
      let others ← receive left
      return size + others

def subscribe (payload : MqttRequest) : MqttM Nat := do
  let bytes ← Session.ofExcept (subscribePacket payload.topic payload.qos 1)
  sendPacket bytes
  let found ← readPacket
  if found.1 >>> 4 ≠ 9 ∨ found.2.length < 3 ∨ found.2.take 2 ≠ [0, 1] ∨
      found.2.getD 2 0 = 0x80 then
    Fallible.fail (.protocol "MQTT subscription was rejected")
  else receive codecs payload.receiveLimit

end Receiving

def responseMeta : ExecutionEvent :=
  .responseMeta ⟨none, some "MQTT connected", [], some "application/json", none⟩

/-- What the driver does on a connection that is there. -/
def exchange (codecs : Codecs) (payload : MqttRequest) : MqttM Nat :=
  if payload.mode = "publish" then publish codecs payload else subscribe codecs payload

/-- Say goodbye, and report the end. -/
def report (info : RunInfo) (request : RequestEnvelope) (received : Nat) :
    MqttM ExecutionSummary := do
  let _ ← askPeer (Broker.send [0xe0, 0])
  let summary := completedSummary info request request.protocolId received none
  emit (.completed summary)
  return summary

/-- Wait for the broker to accept the connection. -/
def accept : MqttM Unit := do
  let found ← readPacket
  if found.1 >>> 4 ≠ 2 ∨ found.2.length ≠ 2 then Fallible.fail (.protocol "expected MQTT CONNACK")
  else
    let code := found.2.getD 1 0
    if code ≠ 0 then
      Fallible.fail (.protocol
        ("MQTT broker rejected connection with code " ++ toString code.toNat))
    else return ()

def execute (codecs : Codecs) (info : RunInfo) (request : RequestEnvelope) :
    MqttM ExecutionSummary := do
  let payload ← Session.ofExcept (requestPayload codecs request)
  let _ ← Session.ofExcept (target request.target)
  emit (running .connect)
  connect
  let bytes ← Session.ofExcept (connectPacket payload)
  sendPacket bytes
  accept
  emit responseMeta
  emit (running .transfer)
  let received ← exchange codecs payload
  report info request received

end ApiVoy.Drivers.Mqtt
