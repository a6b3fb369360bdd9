/-
# How an execution ends

The errors of the engine with their codes and texts, and what comes of a run: the events
that are emitted on the way and the result of its task.
-/

import ApiVoy.Domain.Execution

namespace ApiVoy.Engine

open Foundation Domain

/-! ## Errors -/

inductive ErrorKind where
  | validation
  | resolution
  | auth
  | connection
  | tls
  | protocol
  | timeout
  | cancelled
  | internal
  | notFound
  | permission
  deriving DecidableEq

def ErrorKind.asStr : ErrorKind → String
  | .validation => "validation"
  | .resolution => "resolution"
  | .auth => "auth"
  | .connection => "connection_failed"
  | .tls => "tls"
  | .protocol => "protocol_error"
  | .timeout => "timeout"
  | .cancelled => "cancelled"
  | .internal => "internal"
  | .notFound => "not_found"
  | .permission => "permission"

inductive DriverError where
  | validation (message : String)
  | connection (message : String)
  | tls (message : String)
  | protocol (message : String)
  | timeout (message : String)
  | cancelled
  | internal (message : String)
  deriving DecidableEq

namespace DriverError

def kind : DriverError → ErrorKind
  | .validation _ => .validation
  | .connection _ => .connection
  | .tls _ => .tls
  | .protocol _ => .protocol
  | .timeout _ => .timeout
  | .cancelled => .cancelled
  | .internal _ => .internal

def code (error : DriverError) : String := error.kind.asStr

def message : DriverError → String
  | .validation message => "validation failed: " ++ message
  | .connection message => "connection failed: " ++ message
  | .tls message => "tls error: " ++ message
  | .protocol message => "protocol error: " ++ message
  | .timeout message => "timeout: " ++ message
  | .cancelled => "cancelled"
  | .internal message => "internal error: " ++ message

end DriverError

inductive ResolveError where
  | unresolved (name : String)
  deriving DecidableEq

def ResolveError.text : ResolveError → String
  | .unresolved name => "unresolved variable `\x7b\x7b" ++ name ++ "\x7d\x7d`"

inductive AuthError where
  | unsupportedKind (kind : String)
  | missingSecretRef
  | missingUsername
  | secretNotFound (name : String)
  | resolve (message : String)
  | tokenEndpoint (message : String)
  | tokenResponse (message : String)
  deriving DecidableEq

namespace AuthError

def code (_ : AuthError) : String := ErrorKind.auth.asStr

def text : AuthError → String
  | .unsupportedKind kind => "unsupported auth kind `" ++ kind ++ "`"
  | .missingSecretRef => "auth requires secret_ref"
  | .missingUsername => "basic auth requires username"
  | .secretNotFound name => "secret `" ++ name ++ "` not found"
  | .resolve message => "auth resolution: " ++ message
  | .tokenEndpoint message => "OAuth token request failed: " ++ message
  | .tokenResponse message => "OAuth token response is invalid: " ++ message

end AuthError

inductive ScriptError where
  | runtime (message : String)
  | timeout (milliseconds : Nat)
  | output (message : String)
  deriving DecidableEq

def ScriptError.text : ScriptError → String
  | .runtime message => "script runtime error: " ++ message
  | .timeout milliseconds => "script timed out after " ++ toString milliseconds ++ "ms"
  | .output message => "script output error: " ++ message

inductive EngineError where
  | driverNotFound (protocol : String)
  | driver (error : DriverError)
  | resolve (error : ResolveError)
  | auth (error : AuthError)
  | script (error : ScriptError)
  | cancelled
  deriving DecidableEq

namespace EngineError

def kind : EngineError → ErrorKind
  | .driverNotFound _ => .notFound
  | .driver error => error.kind
  | .resolve _ => .resolution
  | .auth _ => .auth
  | .script _ => .validation
  | .cancelled => .cancelled

def code (error : EngineError) : String := error.kind.asStr

def text : EngineError → String
  | .driverNotFound protocol => "no driver registered for protocol `" ++ protocol ++ "`"
  | .driver error => error.message
  | .resolve error => error.text
  | .auth error => error.text
  | .script error => error.text
  | .cancelled => "execution cancelled"

end EngineError

/-! ## Runs -/

/-- How the engine's task ends. -/
inductive TaskResult where
  | returned (summary : ExecutionSummary)
  | failed (error : EngineError)
  | panicked (joinError : String)
  deriving DecidableEq

def TaskResult.isPanicked : TaskResult → Bool
  | .panicked _ => true
  | .returned _ | .failed _ => false

/-- What a run of the engine emits: itself before the driver, the driver to the tee, and
itself once the tee has been joined. -/
inductive EngineRun where
  | beforeDriver (early : List ExecutionEvent) (result : TaskResult)
  /-- The driver panics. -/
  | inDriver (early driven : List ExecutionEvent) (joinError : String)
  | afterDriver (early driven late : List ExecutionEvent) (result : TaskResult)
  deriving DecidableEq

namespace EngineRun

def early : EngineRun → List ExecutionEvent
  | .beforeDriver early _ | .inDriver early _ _ | .afterDriver early _ _ _ => early

def driven : EngineRun → List ExecutionEvent
  | .beforeDriver _ _ => []
  | .inDriver _ driven _ | .afterDriver _ driven _ _ => driven

def late : EngineRun → List ExecutionEvent
  | .beforeDriver _ _ | .inDriver _ _ _ => []
  | .afterDriver _ _ late _ => late

def result : EngineRun → TaskResult
  | .beforeDriver _ result | .afterDriver _ _ _ result => result
  | .inDriver _ _ joinError => .panicked joinError

def driverFinishes : EngineRun → Bool
  | .afterDriver .. => true
  | .beforeDriver .. | .inDriver .. => false

def events (run : EngineRun) : List ExecutionEvent := run.early ++ (run.driven ++ run.late)

end EngineRun

end ApiVoy.Engine
