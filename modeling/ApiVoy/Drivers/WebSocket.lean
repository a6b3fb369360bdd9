/-
# The WebSocket driver

The driver opens a connection, sends the messages of the request and reports the messages that it
reads. It connects again when it cannot connect or the connection ends, as often as the request
allows, until it has read as many messages as the request asks for.
-/

import ApiVoy.Drivers.Session

namespace ApiVoy.Drivers.WebSocket

open Foundation Domain Engine

/-! ## Servers -/

inductive Frame where
  | text (value : String)
  | binary (value : Bytes)
  | ping (value : Bytes)
  | pong (value : Bytes)
  | close
  | raw (value : Bytes)
  deriving DecidableEq

/-- What comes of waiting for a frame. -/
inductive Arrival where
  | frame (frame : Frame)
  | failed (message : String)
  /-- The peer has gone, or the time is up. -/
  | ended
  | cancelled

/-- An open connection: the response to the handshake, what comes of the writes, and what is to
arrive. Behind the writes all is sent, and behind the arrivals nothing comes. -/
structure Connection where
  status : UInt16
  reason : Option String
  headers : List (String × Option String)
  writes : List (Except String Unit)
  arrivals : List Arrival

inductive Connecting where
  | opened (connection : Connection)
  | failed (message : String)
  | cancelled

/-- The frames of a connection, in the order of the time. -/
inductive Traffic where
  | sent (frame : Frame)
  | unsent (frame : Frame)
  | received (frame : Frame)
  deriving DecidableEq

/-- A server: what comes of each attempt to connect and of each pause; the number of the attempts
and of the pauses so far, what comes of the next writes, and the traffic of all connections that
have been opened, the last one first. -/
structure Server where
  connections : Nat → Connecting
  pauses : Nat → Bool
  attempts : Nat
  paused : Nat
  writes : List (Except String Unit)
  conversations : List (List Traffic)

abbrev WebSocketM := DriverM Server

namespace Server

def connect (server : Server) : Connecting × Server :=
  match server.connections server.attempts with
  | .opened connection => (.opened connection, { server with
      attempts := server.attempts + 1
      writes := connection.writes
      conversations := [] :: server.conversations })
  | outcome => (outcome, { server with attempts := server.attempts + 1 })

/-- Add to the traffic of the connection that was opened last. -/
def note (entry : Traffic) (server : Server) : Server :=
  match server.conversations with
  | [] => server
  | current :: past => { server with conversations := (current ++ [entry]) :: past }

def send (frame : Frame) (server : Server) : Except String Unit × Server :=
  match server.writes with
  | [] => (.ok (), server.note (.sent frame))
  | .ok () :: rest => (.ok (), { server.note (.sent frame) with writes := rest })
  | .error e :: rest => (.error e, { server.note (.unsent frame) with writes := rest })

def receive (frame : Frame) (server : Server) : Unit × Server := ((), server.note (.received frame))

def pause (server : Server) : Bool × Server :=
  (server.pauses server.paused, { server with paused := server.paused + 1 })

end Server

/-! ## Requests -/

/-- What the driver takes from the libraries for WebSockets and HTTP. -/
structure WebSocketLibrary where
  /-- The headers of the request that opens a connection to a target. -/
  intoClientRequest : String → Except String (List (String × String))
  /-- The name of a header as it is kept. -/
  parseHeaderName : String → Except String String
  parseHeaderValue : String → Except String Unit

def validated {α : Type} (result : Except String α) : Except DriverError α :=
  match result with
  | .ok a => .ok a
  | .error e => .error (.validation e)

/-- Put a header in the place of those with its name. -/
def insertHeader (headers : List (String × String)) (name value : String) :
    List (String × String) :=
  headers.filter (fun header => header.1 != name) ++ [(name, value)]

def addHeaders (library : WebSocketLibrary) :
    List (String × String) → List (String × String) → Except DriverError (List (String × String))
  | headers, [] => .ok headers
  | headers, (name, value) :: rest => do
    let name ← validated (library.parseHeaderName name)
    validated (library.parseHeaderValue value)
    addHeaders library (insertHeader headers name value) rest

def buildHandshake (library : WebSocketLibrary) (request : RequestEnvelope)
    (payload : WebSocketPayload) : Except DriverError (List (String × String)) := do
  let headers ← validated (library.intoClientRequest request.target)
  let headers ← addHeaders library headers payload.headers
  if payload.subprotocols = [] then return headers
  else do
    let value := ", ".intercalate payload.subprotocols
    validated (library.parseHeaderValue value)
    return insertHeader headers "sec-websocket-protocol" value

section Running

variable (codecs : Codecs)

def binary (data : String) : Except DriverError Bytes :=
  match codecs.decodeBase64 data with
  | .ok bytes => .ok bytes
  | .error e => .error (.validation ("binary WebSocket message must be base64: " ++ e))

def frameOf (message : WebSocketMessage) : Except DriverError Frame :=
  if message.encoding = "binary" then do
    let bytes ← binary codecs message.data
    return .binary bytes
  else .ok (.text message.data)

/-! ## Runs -/

/-- Send a frame, or end the run. -/
def sendFrame (frame : Frame) : WebSocketM Unit := do
  match ← askPeer (Server.send frame) with
  | .ok () => return ()
  | .error e => Fallible.fail (.protocol e)

def sendMessages : List WebSocketMessage → WebSocketM Unit
  | [] => return ()
  | message :: messages => do
    let frame ← Session.ofExcept (frameOf codecs message)
    sendFrame frame
    sendMessages messages

def textChunk (value : String) : ExecutionEvent :=
  .responseChunk (some "text/plain") (UInt64.ofNat (utf8 value).length) (some value)
    (some (codecs.encodeBase64 (utf8 value))) false

def binaryChunk (value : Bytes) : ExecutionEvent :=
  .responseChunk (some "application/octet-stream") (UInt64.ofNat value.length)
    (some ("[binary frame: " ++ toString value.length ++ " bytes]"))
    (some (codecs.encodeBase64 value)) false

/-- Read frames until enough messages have been read or the connection ends, and count the bytes
and the messages. -/
def receiveLoop (limit : Nat) : List Arrival → Nat → Nat → WebSocketM (Nat × Nat)
  | [], bytes, frames => return (bytes, frames)
  | arrival :: arrivals, bytes, frames =>
    if frames < limit then
      match arrival with
      | .cancelled => Fallible.fail .cancelled
      | .ended | .failed _ => return (bytes, frames)
      | .frame frame => do
        askPeer (Server.receive frame)
        match frame with
        | .text value => do
          emit (textChunk codecs value)
          receiveLoop limit arrivals (bytes + (utf8 value).length) (frames + 1)
        | .binary value => do
          emit (binaryChunk codecs value)
          receiveLoop limit arrivals (bytes + value.length) (frames + 1)
        | .ping value => do
          sendFrame (.pong value)
          emit (.log "debug" "WebSocket ping/pong")
          receiveLoop limit arrivals bytes frames
        | .close => return (bytes, frames)
        | .pong _ | .raw _ => receiveLoop limit arrivals bytes frames
    else return (bytes, frames)

def connectionMeta (connection : Connection) : ExecutionEvent :=
  .responseMeta {
    status := some connection.status
    statusText := connection.reason
    headers := connection.headers.map fun header => (header.1, header.2.getD "")
    contentType := none
    sizeHint := none }

/-- Use an open connection to its end. -/
def converse (messages : List WebSocketMessage) (limit : Nat) (connection : Connection)
    (bytes frames : Nat) : WebSocketM (Nat × Nat) := do
  emit (connectionMeta connection)
  sendMessages codecs messages
  emit (running .transfer)
  receiveLoop codecs limit connection.arrivals bytes frames

def reconnectWarning (cause : String) (count max : Nat) : ExecutionEvent :=
  .warning "websocket_reconnect"
    (cause ++ "; reconnecting (" ++ toString count ++ "/" ++ toString max ++ ")")

/-- Wait before the next attempt to connect. -/
def delay : WebSocketM Unit := do
  if (← askPeer Server.pause) = true then Fallible.fail .cancelled

def receiveLimit (payload : WebSocketPayload) : Nat :=
  (payload.receiveLimit.getD (UInt64.ofNat (2 ^ 64 - 1))).toNat

/-- Connect as often as is left after this attempt. -/
def connectLoop (payload : WebSocketPayload) : Nat → Nat → Nat → WebSocketM (UInt16 × Nat)
  | 0, bytes, frames => do
    match ← askPeer Server.connect with
    | .cancelled => Fallible.fail .cancelled
    | .failed message => Fallible.fail (.connection message)
    | .opened connection => do
      let (bytes, _) ←
        converse codecs payload.messages (receiveLimit payload) connection bytes frames
      return (connection.status, bytes)
  | left + 1, bytes, frames => do
    match ← askPeer Server.connect with
    | .cancelled => Fallible.fail .cancelled
    | .failed message => do
      emit (reconnectWarning ("WebSocket connection failed: " ++ message)
        (payload.reconnectMax.toNat - left) payload.reconnectMax.toNat)
      delay
      connectLoop payload left bytes frames
    | .opened connection => do
      let (bytes, frames) ←
        converse codecs payload.messages (receiveLimit payload) connection bytes frames
      if receiveLimit payload ≤ frames then return (connection.status, bytes)
      else do
        emit (reconnectWarning "WebSocket disconnected"
          (payload.reconnectMax.toNat - left) payload.reconnectMax.toNat)
        delay
        connectLoop payload left bytes frames

end Running

def webSocketPayload (request : RequestEnvelope) : Except DriverError WebSocketPayload :=
  match request.payload with
  | .websocket payload => .ok payload
  | _ => .error (.validation "WebSocket driver requires WebSocket payload")

def execute (codecs : Codecs) (library : WebSocketLibrary) (info : RunInfo)
    (request : RequestEnvelope) : WebSocketM ExecutionSummary := do
  let payload ← Session.ofExcept (webSocketPayload request)
  let _ ← Session.ofExcept (buildHandshake library request payload)
  emit (running .connect)
  let (status, bytes) ← connectLoop codecs payload payload.reconnectMax.toNat 0 0
  emit (.responseChunk none 0 none none true)
  let summary := completedSummary info request "websocket" bytes (some status)
  emit (.completed summary)
  return summary

end ApiVoy.Drivers.WebSocket
