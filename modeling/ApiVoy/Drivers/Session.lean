/-
# Sessions of a driver

A driver runs a request against a peer and emits events on the way. What the peer and the
network do is fixed beforehand, step by step, so that a statement about every peer is a
statement about every way in which a connection can go. A run that returns normally has
reported its response in chunks: one of them is the last one, and the summary follows it.
-/

import ApiVoy.Engine.Outcome
import ApiVoy.Foundation.Fallible
import ApiVoy.Foundation.Utf8

namespace ApiVoy.Drivers

open Foundation Domain Engine

/-! ## Runs -/

/-- What the drivers take from libraries. -/
structure Codecs where
  encodeBase64 : Bytes → String
  decodeBase64 : String → Except String Bytes
  /-- The text of a JSON value, on several lines. -/
  pretty : Json → String
  /-- Is the number of this name in an object written with a point or an exponent? -/
  isFloat : Json → String → Bool

/-- Codecs for runs in which nothing is encoded and no number is written so. -/
def Codecs.unused : Codecs := ⟨fun _ => "", fun _ => .ok [], fun _ => "", fun _ _ => false⟩

/-- The unsigned integer of this name in an object: a float is none, whatever its value. -/
def Codecs.u64 (codecs : Codecs) (value : Json) (name : String) : Option Nat :=
  if codecs.isFloat value name then none else (value.get name).bind Json.asU64

/-- What a run draws from outside: its id and its times. -/
structure RunInfo where
  executionId : ExecutionId
  startedAt : Timestamp
  finishedAt : Timestamp
  durationMs : UInt64

/-- A run under way: what the peer has still to do, and what has been emitted. -/
structure Session (π : Type) where
  peer : π
  events : List ExecutionEvent

abbrev DriverM (π : Type) := Fallible (Session π) DriverError

section Sessions

variable {π α : Type}

def emit (event : ExecutionEvent) : DriverM π Unit := fun session =>
  (.ok (), { session with events := session.events ++ [event] })

def Session.ofExcept (result : Except DriverError α) : DriverM π α := fun session =>
  (result, session)

def askPeer (ask : π → α × π) : DriverM π α := fun session =>
  (.ok (ask session.peer).1, { session with peer := (ask session.peer).2 })

@[simp]
theorem run_emit (event : ExecutionEvent) (session : Session π) :
    (emit event).run session = (.ok (), { session with events := session.events ++ [event] }) :=
  rfl

@[simp]
theorem run_ofExcept (result : Except DriverError α) (session : Session π) :
    (Session.ofExcept result).run session = (result, session) := rfl

@[simp]
theorem run_askPeer (ask : π → α × π) (session : Session π) :
    (askPeer ask).run session =
      (.ok (ask session.peer).1, { session with peer := (ask session.peer).2 }) := rfl

/-! ### Runs without events -/

/-- No event is emitted. -/
def Quiet (m : DriverM π α) : Prop :=
  ∀ events, Fallible.Maintains (fun session => session.events = events) m

namespace Quiet

variable {β : Type}

theorem pure (a : α) : Quiet (Pure.pure a : DriverM π α) := fun _ => Fallible.Maintains.pure a

theorem fail (e : DriverError) : Quiet (Fallible.fail e : DriverM π α) := fun _ =>
  Fallible.Maintains.fail e

theorem askPeer (ask : π → α × π) : Quiet (askPeer ask) := fun _ _ h => h

theorem ofExcept (result : Except DriverError α) :
    Quiet (Session.ofExcept result : DriverM π α) := fun _ _ h => h

variable {m : DriverM π α}

theorem bind {f : α → DriverM π β} (hm : Quiet m) (hf : ∀ a, Quiet (f a)) :
    Quiet (m >>= f) := fun events => Fallible.Maintains.bind (hm events) fun a => hf a events

theorem ite {c : Prop} [Decidable c] {m n : DriverM π α} (hm : Quiet m) (hn : Quiet n) :
    Quiet (if c then m else n) := fun events => Fallible.Maintains.ite (hm events) (hn events)

theorem events (hm : Quiet m) (session : Session π) :
    (m.run session).2.events = session.events := hm _ session rfl

end Quiet

/-! ### Runs that only emit -/

/-- Whatever has gone before, the run emits these events and has this result. -/
def Reports (m : DriverM π α) (events : List ExecutionEvent) (result : Except DriverError α) :
    Prop :=
  ∀ session, m.run session = (result, { session with events := session.events ++ events })

namespace Reports

variable {β : Type} {m : DriverM π α} {f : α → DriverM π β} {first events : List ExecutionEvent}

theorem emit (event : ExecutionEvent) : Reports (emit event : DriverM π Unit) [event] (.ok ()) :=
  fun _ => rfl

theorem ofExcept (result : Except DriverError α) :
    Reports (Session.ofExcept result : DriverM π α) [] result := fun session => by
  rw [run_ofExcept, List.append_nil]

theorem pure (a : α) : Reports (Pure.pure a : DriverM π α) [] (.ok a) := ofExcept (.ok a)

theorem fail (e : DriverError) : Reports (Fallible.fail e : DriverM π α) [] (.error e) :=
  ofExcept (.error e)

theorem bind {a : α} {result : Except DriverError β} (hm : Reports m first (.ok a))
    (hf : Reports (f a) events result) : Reports (m >>= f) (first ++ events) result := by
  intro session
  rw [Fallible.run_bind_of_ok (hm session), hf, List.append_assoc]

theorem bind_error {e : DriverError} (hm : Reports m first (.error e)) :
    Reports (m >>= f) first (.error e) := fun session => Fallible.run_bind_of_error (hm session)

end Reports

end Sessions

/-- Every driver reports that it runs, and in which phase. -/
def running (phase : ExecutionPhase) : ExecutionEvent := .stateChanged .running (some phase)

/-- The summary of a run that has come to its end. -/
def completedSummary (info : RunInfo) (request : RequestEnvelope) (protocolId : String)
    (bytesReceived : Nat) (status : Option UInt16) : ExecutionSummary where
  executionId := info.executionId
  requestId := request.id
  protocolId := protocolId
  state := .completed
  startedAt := info.startedAt
  finishedAt := info.finishedAt
  durationMs := info.durationMs
  bytesReceived := UInt64.ofNat bytesReceived
  status := status

/-! ## Connections -/

/-- What comes of waiting for the peer: bytes, of which a socket has none when the peer has
closed the connection, or the end of waiting. -/
inductive Arrival where
  | data (bytes : Bytes)
  | failed (message : String)
  | timedOut
  | cancelled
  deriving DecidableEq

/-- What comes of a write: a write that fails or is cancelled has sent a part. -/
inductive WriteOutcome where
  | sent
  | failed (sent : Nat) (message : String)
  | cancelled (sent : Nat)
  deriving DecidableEq

/-- The bytes on a connection, in the order of the time. -/
inductive Traffic where
  | sent (bytes : Bytes)
  | received (bytes : Bytes)
  deriving DecidableEq

/-- A connection to a peer: what is to come of connecting, writing and reading, and what has
gone over it. Behind the writes all is sent, and behind the arrivals the peer has closed. -/
structure Socket where
  connecting : Except DriverError Unit
  writes : List WriteOutcome
  arrivals : List Arrival
  traffic : List Traffic

namespace Socket

/-- Wait for the peer once. -/
def receive (socket : Socket) : Arrival × Socket :=
  match socket.arrivals with
  | [] => (.data [], socket)
  | .data bytes :: rest =>
    (.data bytes, { socket with
      arrivals := rest
      traffic := socket.traffic ++ [.received bytes] })
  | arrival :: rest => (arrival, { socket with arrivals := rest })

/-- Write bytes, and say what came of it. -/
def send (bytes : Bytes) (socket : Socket) : WriteOutcome × Socket :=
  match socket.writes with
  | [] => (.sent, { socket with traffic := socket.traffic ++ [.sent bytes] })
  | outcome :: rest =>
    let part := match outcome with
      | .sent => bytes
      | .failed sent _ | .cancelled sent => bytes.take sent
    (outcome, { socket with writes := rest, traffic := socket.traffic ++ [.sent part] })

end Socket

/-! ## Web servers -/

/-- What comes of the body of a response until it ends. -/
inductive BodyItem where
  | chunk (bytes : Bytes)
  | failed (message : String)
  | cancelled

/-- A response of a web server. The value of a header may be unreadable. -/
structure WebResponse where
  status : UInt16
  /-- The usual reason of the status, if there is one. -/
  reason : Option String
  headers : List (String × Option String)
  contentType : Option String
  contentLength : Option UInt64
  items : List BodyItem

/-! ## Chunks -/

namespace Event

def isChunk : ExecutionEvent → Bool
  | .responseChunk .. => true
  | _ => false

def isCompleted : ExecutionEvent → Bool
  | .completed _ => true
  | _ => false

/-- An event that closes the response: its last chunk, or the summary. -/
def closes : ExecutionEvent → Bool
  | .responseChunk _ _ _ _ done => done
  | .completed _ => true
  | _ => false

end Event

end ApiVoy.Drivers
