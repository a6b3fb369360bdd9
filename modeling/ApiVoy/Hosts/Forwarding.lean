/-
# Forwarding the events of an execution

The events of an execution pass through three bounded channels. The driver sends to a tee
of the engine, the tee sends to the host, and a task of the host sends to the channel that
a client reads as a stream. The receiver of the last channel waits in a map until a client
opens the stream. When the engine's task is over, the task of the host closes the stream
and writes the record of the execution.
-/

import ApiVoy.Engine.Outcome
import ApiVoy.Foundation.Channel
import ApiVoy.Foundation.Utf8
import ApiVoy.Foundation.Interleaving

namespace ApiVoy.Hosts

open Foundation Domain Engine

/-! ## The collected response -/

def maxPersistedResponseBytes : Nat := 64 * 1024 * 1024

/-- What the host keeps of the events that it forwards. -/
structure Collected where
  preview : Option String
  responseBytes : Bytes
  responseContentType : Option String
  truncated : Bool
  extractedVariables : Option StringMap
  deriving DecidableEq

def Collected.new : Collected := ⟨none, [], none, false, none⟩

section Collecting

variable (decode : String → Option Bytes)

/-- Keep what a chunk has: the bytes up to the limit, and the preview of the last chunk. -/
def Collected.takeChunk (collected : Collected) (preview dataBase64 : Option String)
    (done : Bool) : Collected :=
  let collected := if done = true then { collected with preview := preview } else collected
  match dataBase64.bind decode with
  | some decoded =>
    let remaining := maxPersistedResponseBytes - collected.responseBytes.length
    { collected with
      responseBytes := collected.responseBytes ++ decoded.take remaining
      truncated := collected.truncated || decide (remaining < decoded.length) }
  | none => collected

/-- Keep what an event has, and forward it without the bytes. -/
def Collected.take (collected : Collected) : ExecutionEvent → Collected × ExecutionEvent
  | .responseMeta response =>
    ({ collected with responseContentType := response.contentType }, .responseMeta response)
  | .responseChunk contentType size preview dataBase64 done =>
    (collected.takeChunk decode preview dataBase64 done,
      .responseChunk contentType size preview none done)
  | .variablesExtracted vars =>
    ({ collected with extractedVariables := some vars }, .variablesExtracted vars)
  | event => (collected, event)

def Collected.takeAll (collected : Collected) (events : List ExecutionEvent) : Collected :=
  events.foldl (fun collected event => (collected.take decode event).1) collected

end Collecting

/-! ## The tasks -/

inductive EnginePhase where
  | early (left : List ExecutionEvent)
  | driving (left : List ExecutionEvent)
  | joining
  | late (left : List ExecutionEvent)
  /-- The sink is dropped. -/
  | leaving
  | ended
  deriving DecidableEq

inductive TeePhase where
  | absent
  | receiving
  | sending (event : ExecutionEvent)
  | done
  deriving DecidableEq

inductive ForwardPhase where
  | receiving
  | sending (event : ExecutionEvent)
  /-- The response was truncated. -/
  | warning
  | joining
  | reporting (left : List ExecutionEvent)
  /-- The stream is closed. -/
  | persisting
  | finished
  deriving DecidableEq

/-- Where the receiver of the stream is: with the request that starts the execution, in
the map, with a client, or dropped. -/
inductive ReceiverPhase where
  | starting
  | waiting
  | reading
  | gone
  deriving DecidableEq

abbrev channelCapacity : Nat := 256

structure Relay where
  engine : EnginePhase
  tee : Channel channelCapacity ExecutionEvent
  teeTask : TeePhase
  sink : Channel channelCapacity ExecutionEvent
  forward : ForwardPhase
  collected : Collected
  connected : Bool
  sse : Channel channelCapacity ExecutionEvent
  receiver : ReceiverPhase
  /-- How often a client has taken the receiver. -/
  claims : Nat
  recorded : Bool

inductive RelayTask where
  | engine
  | tee
  | forward
  deriving DecidableEq

inductive RelayAction where
  | task (task : RelayTask)
  | insert
  /-- The request that starts the execution is dropped. -/
  | abandon
  | openStream
  | receive
  | disconnect
  deriving DecidableEq

def RelayAction.isTask : RelayAction → Bool
  | .task _ => true
  | .insert | .abandon | .openStream | .receive | .disconnect => false

def truncationWarning : ExecutionEvent :=
  .warning "response_persist_truncated" "响应正文超过 64 MiB，本地持久化已截断"

def panicEvents (joinError : String) : List ExecutionEvent :=
  [.failed "execution_task_panicked" ("execution task terminated unexpectedly: " ++ joinError),
    .stateChanged .failed none]

end ApiVoy.Hosts

namespace ApiVoy.Engine

open Domain Hosts

/-- What the host sends after the engine's task is over. -/
def TaskResult.report : TaskResult → List ExecutionEvent
  | .panicked joinError => panicEvents joinError
  | .returned _ | .failed _ => []

end ApiVoy.Engine

namespace ApiVoy.Hosts

open Foundation Domain Engine

def Relay.new (run : EngineRun) : Relay where
  engine := .early run.early
  tee := .empty
  teeTask := .absent
  sink := .empty
  forward := .receiving
  collected := .new
  connected := true
  sse := .empty
  receiver := .starting
  claims := 0
  recorded := false

namespace EnginePhase

/-- The driver has the sender of the tee. -/
def isDriving : EnginePhase → Bool
  | .driving _ => true
  | .early _ | .joining | .late _ | .leaving | .ended => false

/-- The engine's task has dropped its sink. -/
def isOver : EnginePhase → Bool
  | .leaving | .ended => true
  | .early _ | .driving _ | .joining | .late _ => false

end EnginePhase

def TeePhase.isAlive : TeePhase → Bool
  | .receiving | .sending _ => true
  | .absent | .done => false

namespace Relay

/-- No one has a sender of the sink any more. -/
def sinkClosed (relay : Relay) : Bool := relay.engine.isOver && !relay.teeTask.isAlive

def engineStep (run : EngineRun) (relay : Relay) : Option Relay :=
  match relay.engine with
  | .early (event :: left) =>
    (relay.sink.send event).map fun sink => { relay with engine := .early left, sink := sink }
  | .early [] =>
    match run with
    | .beforeDriver _ _ => some { relay with engine := .leaving }
    | .inDriver _ driven _ | .afterDriver _ driven _ _ =>
      some { relay with engine := .driving driven, teeTask := .receiving }
  | .driving (event :: left) =>
    (relay.tee.send event).map fun tee => { relay with engine := .driving left, tee := tee }
  | .driving [] =>
    match run with
    | .beforeDriver _ _ | .inDriver _ _ _ => some { relay with engine := .leaving }
    | .afterDriver _ _ _ _ => some { relay with engine := .joining }
  | .joining =>
    if relay.teeTask = .done then some { relay with engine := .late run.late } else none
  | .late (event :: left) =>
    (relay.sink.send event).map fun sink => { relay with engine := .late left, sink := sink }
  | .late [] => some { relay with engine := .leaving }
  | .leaving => some { relay with engine := .ended }
  | .ended => none

def teeStep (relay : Relay) : Option Relay :=
  match relay.teeTask with
  | .receiving =>
    match relay.tee.receive with
    | some (event, tee) => some { relay with teeTask := .sending event, tee := tee }
    | none =>
      if relay.engine.isDriving = true then none else some { relay with teeTask := .done }
  | .sending event =>
    (relay.sink.send event).map fun sink => { relay with teeTask := .receiving, sink := sink }
  | .absent | .done => none

/-- Send to the stream; this fails at once when the receiver is dropped. -/
def sendSse (relay : Relay) (event : ExecutionEvent) (next failed : Relay) : Option Relay :=
  if relay.receiver = .gone then some failed
  else (relay.sse.send event).map fun sse => { next with sse := sse }

def forwardStep (decode : String → Option Bytes) (run : EngineRun) (stores : Bool)
    (relay : Relay) : Option Relay :=
  match relay.forward with
  | .receiving =>
    match relay.sink.receive with
    | some (event, sink) =>
      let (collected, event) := relay.collected.take decode event
      some { relay with
        sink := sink
        collected := collected
        forward := if relay.connected = true then .sending event else .receiving }
    | none =>
      if relay.sinkClosed = true then
        some { relay with
          forward :=
            if relay.collected.truncated = true ∧ relay.connected = true then .warning
            else .joining }
      else none
  | .sending event =>
    relay.sendSse event { relay with forward := .receiving }
      { relay with forward := .receiving, connected := false }
  | .warning =>
    relay.sendSse truncationWarning { relay with forward := .joining }
      { relay with forward := .joining }
  | .joining =>
    if relay.engine = .ended then some { relay with forward := .reporting run.result.report }
    else none
  | .reporting (event :: left) =>
    relay.sendSse event { relay with forward := .reporting left }
      { relay with forward := .reporting left }
  | .reporting [] => some { relay with forward := .persisting }
  | .persisting =>
    some { relay with
      forward := .finished
      recorded := !run.result.isPanicked && stores }
  | .finished => none

/-- The sender of the stream is dropped. -/
def sseClosed (relay : Relay) : Bool :=
  relay.forward = .persisting || relay.forward = .finished

def receiveStep (relay : Relay) : Option Relay :=
  if relay.receiver = .reading then
    match relay.sse.receive with
    | some (_, sse) => some { relay with sse := sse }
    | none => if relay.sseClosed = true then some { relay with receiver := .gone } else none
  else none

end Relay

/-- The steps of an execution: of its tasks, and of the requests of its client. A stream
that is not in the map cannot be opened. -/
def relayStep (decode : String → Option Bytes) (run : EngineRun) (stores : Bool)
    (action : RelayAction) (relay : Relay) : Option Relay :=
  match action with
  | .task .engine => relay.engineStep run
  | .task .tee => relay.teeStep
  | .task .forward => relay.forwardStep decode run stores
  | .insert => if relay.receiver = .starting then some { relay with receiver := .waiting } else none
  | .abandon =>
    if relay.receiver = .starting then some { relay with receiver := .gone, sse := .empty }
    else none
  | .openStream =>
    if relay.receiver = .waiting then
      some { relay with receiver := .reading, claims := relay.claims + 1 }
    else none
  | .receive => relay.receiveStep
  | .disconnect =>
    if relay.receiver = .reading then some { relay with receiver := .gone, sse := .empty }
    else none

end ApiVoy.Hosts
