/-
# Subscriptions of the GraphQL driver

A subscription is sent over a WebSocket. The driver waits until the server has taken the
connection over, subscribes, and reports the messages of the server until one of them says that
the operation is complete. An error of the operation is reported like a result, with a warning
behind it.
-/

import ApiVoy.Drivers.WebSocket
import ApiVoy.Foundation.Replacing
import ApiVoy.Foundation.Text

namespace ApiVoy.Drivers.Graphql

open Foundation Domain Engine Drivers.WebSocket

/-! ## Requests -/

def isSubscription (query : String) : Bool :=
  "subscription".toList.isPrefixOf (query.toList.dropWhile isWhitespace)

/-- The address of the WebSocket of a target. -/
def subscriptionTarget (target : String) : String :=
  String.ofList (replaceFirst "http://".toList "ws://".toList
    (replaceFirst "https://".toList "wss://".toList target.toList))

/-- What the driver takes from the libraries for WebSockets and JSON. -/
structure GraphqlLibrary extends WebSocketLibrary where
  parseJson : String → Except String Json
  /-- The text of a JSON value, on one line. -/
  compact : Json → String

def subscriptionHandshake (library : GraphqlLibrary) (request : RequestEnvelope)
    (payload : GraphqlPayload) : Except DriverError (List (String × String)) := do
  let headers ← validated (library.intoClientRequest (subscriptionTarget request.target))
  addHeaders library.toWebSocketLibrary
    (insertHeader headers "sec-websocket-protocol" "graphql-transport-ws") payload.headers

/-! ## Messages -/

/-- A member of a value, which is null when there is none. -/
def member (value : Json) (name : String) : Json := (value.get name).getD .null

def typeOf (value : Json) : Option String := (value.get "type").bind Json.asStr

def initMessage : Json := .obj [("type", .str "connection_init")]

def pongMessage : Json := .obj [("type", .str "pong")]

def pongWith (payload : Json) : Json := .obj [("payload", payload), ("type", .str "pong")]

def completeMessage : Json := .obj [("id", .str "1"), ("type", .str "complete")]

def subscribeMessage (payload : GraphqlPayload) : Json :=
  .obj [("id", .str "1"),
    ("payload", .obj [("operationName", payload.operationName.elim .null .str),
      ("query", .str payload.query), ("variables", payload.vars)]),
    ("type", .str "subscribe")]

def contentType : String := "application/graphql-response+json"

section Running

variable (codecs : Codecs) (library : GraphqlLibrary)

def sendJson (value : Json) : WebSocketM Unit := sendFrame (.text (library.compact value))

def readJson (text : String) : WebSocketM Json :=
  match library.parseJson text with
  | .ok value => return value
  | .error e => Fallible.fail (.protocol e)

/-! ## Runs -/

/-- Wait until the server has taken the connection over. What is left to arrive is behind its
acknowledgement. -/
def awaitAck : List WebSocket.Arrival → WebSocketM (List WebSocket.Arrival)
  | [] | .ended :: _ =>
    Fallible.fail (.protocol "GraphQL subscription closed before connection_ack")
  | .cancelled :: _ => do
    let _ ← askPeer (Server.send .close)
    Fallible.fail .cancelled
  | .failed message :: _ => Fallible.fail (.protocol message)
  | .frame frame :: rest => do
    askPeer (Server.receive frame)
    match frame with
    | .text text => do
      let value ← readJson library text
      if typeOf value = some "connection_ack" then return rest
      else if typeOf value = some "ping" then do
        sendJson library pongMessage
        awaitAck rest
      else if typeOf value = some "connection_error" then Fallible.fail (.protocol text)
      else awaitAck rest
    | .binary _ | .ping _ | .pong _ | .close | .raw _ => awaitAck rest

def payloadChunk (payload : Json) : ExecutionEvent :=
  let preview := codecs.pretty payload
  .responseChunk (some contentType) (UInt64.ofNat (utf8 preview).length) (some preview)
    (some (codecs.encodeBase64 (utf8 preview))) false

def payloadSize (payload : Json) : Nat := (utf8 (codecs.pretty payload)).length

def errorWarning (payload : Json) : ExecutionEvent :=
  .warning "graphql_subscription_error" (codecs.pretty payload)

/-- Report the messages of the operation until it is complete, and count their bytes. -/
def receiveMessages : List WebSocket.Arrival → Nat → WebSocketM Nat
  | [], bytes | .ended :: _, bytes => return bytes
  | .cancelled :: _, _ => do
    let _ ← askPeer (Server.send (.text (library.compact completeMessage)))
    let _ ← askPeer (Server.send .close)
    Fallible.fail .cancelled
  | .failed message :: _, _ => Fallible.fail (.protocol message)
  | .frame frame :: rest, bytes => do
    askPeer (Server.receive frame)
    match frame with
    | .text text => do
      let value ← readJson library text
      let payload := member value "payload"
      if typeOf value = some "next" then do
        emit (payloadChunk codecs payload)
        receiveMessages rest (bytes + payloadSize codecs payload)
      else if typeOf value = some "error" then do
        emit (payloadChunk codecs payload)
        emit (errorWarning codecs payload)
        receiveMessages rest (bytes + payloadSize codecs payload)
      else if typeOf value = some "complete" then return bytes
      else if typeOf value = some "ping" then do
        sendJson library (pongWith payload)
        receiveMessages rest bytes
      else receiveMessages rest bytes
    | .ping data => do
      sendFrame (.pong data)
      receiveMessages rest bytes
    | .close => return bytes
    | .binary _ | .pong _ | .raw _ => receiveMessages rest bytes

def switchedMeta (connection : WebSocket.Connection) : ExecutionEvent :=
  .responseMeta {
    status := some connection.status
    statusText := some "WebSocket Switching Protocols"
    headers := connection.headers.map fun header => (header.1, header.2.getD "")
    contentType := some contentType
    sizeHint := none }

/-- Use an open connection to its end. -/
def converse (payload : GraphqlPayload) (connection : WebSocket.Connection) : WebSocketM Nat := do
  emit (switchedMeta connection)
  sendJson library initMessage
  let arrivals ← awaitAck library connection.arrivals
  sendJson library (subscribeMessage payload)
  emit (running .transfer)
  let bytes ← receiveMessages codecs library arrivals 0
  emit (.responseChunk (some contentType) 0 none none true)
  return bytes

def executeSubscription (request : RequestEnvelope) (payload : GraphqlPayload) :
    WebSocketM (Nat × UInt16) := do
  let _ ← Session.ofExcept (subscriptionHandshake library request payload)
  match ← askPeer Server.connect with
  | .cancelled => Fallible.fail .cancelled
  | .failed message => Fallible.fail (.connection message)
  | .opened connection => do
    let bytes ← converse codecs library payload connection
    return (bytes, connection.status)

end Running

end ApiVoy.Drivers.Graphql
