/-
# Executions

What an execution emits while it runs. Every protocol reports in the same events: changes
of state, logs, metrics, the parts of a response, results of assertions, and one event
that ends the execution.
-/

import ApiVoy.Domain.Request

namespace ApiVoy.Domain

open Foundation

abbrev ExecutionId := String

inductive ExecutionState where
  | queued
  | running
  | completed
  | failed
  | cancelled
  deriving DecidableEq

inductive ExecutionPhase where
  | validate
  | resolve
  | preScript
  | connect
  | transfer
  | postScript
  | assert
  | persist
  deriving DecidableEq

structure MetricEvent where
  name : String
  /-- The bits of a number; nothing is computed from it. -/
  value : UInt64
  unit : String
  deriving DecidableEq

structure ResponseMeta where
  status : Option UInt16
  statusText : Option String
  headers : List (String × String)
  contentType : Option String
  sizeHint : Option UInt64
  deriving DecidableEq

structure AssertionResultEvent where
  ruleId : String
  name : String
  passed : Bool
  expected : Option String
  actual : Option String
  message : Option String
  deriving DecidableEq

structure ExecutionSummary where
  executionId : ExecutionId
  requestId : RequestId
  protocolId : String
  state : ExecutionState
  startedAt : Timestamp
  finishedAt : Timestamp
  durationMs : UInt64
  bytesReceived : UInt64
  status : Option UInt16
  deriving DecidableEq

inductive ExecutionEvent where
  | stateChanged (state : ExecutionState) (phase : Option ExecutionPhase)
  | log (level message : String)
  | variablesExtracted (vars : StringMap)
  | metric (event : MetricEvent)
  | responseMeta (response : ResponseMeta)
  | responseChunk (contentType : Option String) (size : UInt64) (preview dataBase64 : Option String)
      (done : Bool)
  | assertionResult (event : AssertionResultEvent)
  | warning (code message : String)
  | completed (summary : ExecutionSummary)
  | failed (code message : String)
  | cancelled (reason : Option String)
  deriving DecidableEq

end ApiVoy.Domain
