/-
# A run of the engine

A request is prepared by its scripts, its variables and its authentication before a driver sends
it, and its scripts and assertions are run on the response. Every step reports in events. Only
the scripts after the request report variables, and they report all that they end with.
-/

import ApiVoy.Engine.Assertions
import ApiVoy.Engine.Auth
import ApiVoy.Engine.Scripts
import ApiVoy.Foundation.Fallible

namespace ApiVoy.Engine

open Domain Foundation

/-! ## Drivers -/

inductive DriverOutcome where
  | returned (summary : ExecutionSummary)
  | failed (error : DriverError)
  | panicked (joinError : String)

/-- What a driver emits and how it ends. No driver reports variables. -/
structure DriverRun where
  events : List ExecutionEvent
  outcome : DriverOutcome
  noVariables : ∀ vars, .variablesExtracted vars ∉ events

structure Driver where
  /-- The errors of a request. -/
  validate : RequestEnvelope → List String
  execute : RequestEnvelope → DriverRun

structure EngineLibrary where
  scripts : ScriptEngine
  dynamics : Dynamics
  auth : AuthLibrary
  json : JsonLibrary
  /-- The text of the error for a task that has panicked. -/
  panicText : String

/-- Steps that emit events. -/
abbrev RunM := Fallible (List ExecutionEvent) EngineError

def emit (event : ExecutionEvent) : RunM Unit := fun events => (.ok (), events ++ [event])

/-- Report an error in a phase and stop. -/
def refuse {α : Type} (phase : ExecutionPhase) (code message : String) (error : EngineError) :
    RunM α := do
  emit (.failed code message)
  emit (.stateChanged .failed (some phase))
  Fallible.fail error

section Running

variable (library : EngineLibrary) (driver : Driver)

/-! ## Before the driver -/

def preScriptPhase (request : RequestEnvelope) : RunM RequestEnvelope :=
  if request.preScripts = [] then pure request
  else do
    emit (.stateChanged .running (some .preScript))
    match runPreScripts library.scripts request with
    | .ok result => do
      Fallible.each (fun message => emit (.log "info" ("[pre-script] " ++ message))) result.logs
      pure result.request
    | .error error => do
      emit (.failed "script_error" error.text)
      Fallible.fail (.script error)

def resolvePhase (request : RequestEnvelope) (scope : ExecutionScope) : RunM RequestEnvelope := do
  emit (.stateChanged .running (some .resolve))
  match resolveRequest library.dynamics request scope.toVariableScope with
  | .ok request => pure request
  | .error name =>
    let error := ResolveError.unresolved name
    refuse .resolve (EngineError.resolve error).code error.text (.resolve error)

def authPhase (request : RequestEnvelope) (scope : ExecutionScope) : RunM RequestEnvelope :=
  match applyAuth library.auth request scope with
  | .ok request => pure { request with runtimeSecrets := scope.secrets }
  | .error error => refuse .resolve error.code error.text (.auth error)

def validatePhase (request : RequestEnvelope) : RunM RequestEnvelope := do
  emit (.stateChanged .running (some .validate))
  if driver.validate request = [] then pure request
  else
    let message := "; ".intercalate (driver.validate request)
    refuse .validate ErrorKind.validation.asStr message (.driver (.validation message))

/-- The request as the driver sends it. -/
def prepare (request : RequestEnvelope) (scope : ExecutionScope) : RunM RequestEnvelope := do
  let request ← preScriptPhase library request
  let request ← resolvePhase library request scope
  let request ← authPhase library request scope
  validatePhase driver request

/-! ## After the driver -/

/-- The last description of a response among the events of a driver. -/
def teeMeta (events : List ExecutionEvent) : Option ResponseMeta :=
  events.reverse.findSome? fun
    | .responseMeta response => some response
    | _ => none

/-- The preview of the last chunk that ends a response with one. -/
def teeBody (events : List ExecutionEvent) : String :=
  (events.reverse.findSome? fun
    | .responseChunk _ _ (some preview) _ true => some preview
    | _ => none).getD ""

def teeStatus (events : List ExecutionEvent) (summary : ExecutionSummary) : Option UInt16 :=
  summary.status.or ((teeMeta events).bind ResponseMeta.status)

/-- The headers of a response in a map; of several with one name the last. -/
def headerMap (headers : List (String × String)) : StringMap :=
  headers.foldl (fun map header => map.insert header.1 header.2) ∅

def scriptResponse (events : List ExecutionEvent) (summary : ExecutionSummary) :
    ScriptResponse where
  status := teeStatus events summary
  headers := headerMap ((teeMeta events).elim [] ResponseMeta.headers)
  body := teeBody events
  durationMs := summary.durationMs
  bytesReceived := summary.bytesReceived

def assertionContext (events : List ExecutionEvent) (summary : ExecutionSummary) :
    AssertionContext where
  status := teeStatus events summary
  headers := (teeMeta events).elim [] ResponseMeta.headers
  body := teeBody events
  durationMs := summary.durationMs
  bytesReceived := summary.bytesReceived

def postScriptPhase (request : RequestEnvelope) (events : List ExecutionEvent)
    (summary : ExecutionSummary) : RunM Unit :=
  if request.postScripts = [] then pure ()
  else do
    emit (.stateChanged .running (some .postScript))
    match runPostScripts library.scripts request (scriptResponse events summary) with
    | .ok result => do
      Fallible.each (fun message => emit (.log "info" ("[post-script] " ++ message))) result.logs
      emit (.variablesExtracted result.vars)
    | .error error => do
      emit (.failed "script_error" error.text)
      Fallible.fail (.script error)

/-- Judge the response. A judgement that panics takes the task with it. -/
def assertionPhase (request : RequestEnvelope) (events : List ExecutionEvent)
    (summary : ExecutionSummary) : RunM TaskResult :=
  if request.assertions = [] then pure (.returned summary)
  else do
    emit (.stateChanged .running (some .assert))
    match runAssertions library.json (assertionContext events summary) request.assertions with
    | some results => do
      Fallible.each (fun result => emit (.assertionResult result)) results
      pure (.returned summary)
    | none => pure (.panicked library.panicText)

def conclude (request : RequestEnvelope) (events : List ExecutionEvent)
    (summary : ExecutionSummary) : RunM TaskResult := do
  postScriptPhase library request events summary
  assertionPhase library request events summary

def runDriver (request : RequestEnvelope) (scope : ExecutionScope) : EngineRun :=
  match (prepare library driver request scope).run [] with
  | (.error error, early) => .beforeDriver early (.failed error)
  | (.ok prepared, early) =>
    let run := driver.execute prepared
    match run.outcome with
    | .panicked joinError => .inDriver early run.events joinError
    | .failed .cancelled => .afterDriver early run.events [] (.failed .cancelled)
    | .failed error =>
      .afterDriver early run.events
        [.failed error.code error.message, .stateChanged .failed none]
        (.failed (.driver error))
    | .returned summary =>
      match (conclude library prepared run.events summary).run [] with
      | (.ok result, late) => .afterDriver early run.events late result
      | (.error error, late) => .afterDriver early run.events late (.failed error)

end Running

/-! ## Reported variables -/

def reported : ExecutionEvent → Option StringMap
  | .variablesExtracted vars => some vars
  | _ => none

def lastReported (events : List ExecutionEvent) : Option StringMap :=
  events.reverse.findSome? reported

/-- A step reports no variables, however it ends. -/
def Quiet {α : Type} (m : RunM α) : Prop :=
  ∀ before, lastReported (m.run before).2 = lastReported before

theorem lastReported_append (first second : List ExecutionEvent) :
    lastReported (first ++ second) = (lastReported second).or (lastReported first) := by
  rw [lastReported, lastReported, lastReported, List.reverse_append, List.findSome?_append]

theorem lastReported_eq_none {events : List ExecutionEvent}
    (h : ∀ vars, .variablesExtracted vars ∉ events) : lastReported events = none := by
  refine List.findSome?_eq_none_iff.mpr fun event hevent => ?_
  cases event with
  | variablesExtracted vars => exact absurd (List.mem_reverse.mp hevent) (h vars)
  | _ => rfl

namespace Quiet

variable {α β : Type}

theorem pure (a : α) : Quiet (Pure.pure a : RunM α) := fun _ => rfl

theorem fail (error : EngineError) : Quiet (Fallible.fail error : RunM α) := fun _ => rfl

theorem emit {event : ExecutionEvent} (h : reported event = none) : Quiet (emit event) := by
  intro before
  change lastReported (before ++ [event]) = _
  rw [lastReported_append]
  have hnone : lastReported [event] = none := by
    simp [lastReported, h]
  rw [hnone, Option.none_or]

theorem bind {m : RunM α} {f : α → RunM β} (hm : Quiet m) (hf : ∀ a, Quiet (f a)) :
    Quiet (m >>= f) := by
  intro before
  have hfirst := hm before
  rw [Fallible.run_bind]
  rcases hrun : m.run before with ⟨_ | a, after⟩ <;> rw [hrun] at hfirst
  · exact hfirst
  · exact (hf a after).trans hfirst

theorem each {f : α → RunM Unit} (h : ∀ a, Quiet (f a)) (as : List α) :
    Quiet (Fallible.each f as) := by
  induction as with
  | nil => exact .pure ()
  | cons a as ih => exact (h a).bind fun _ => ih

theorem refuse {phase : ExecutionPhase} {code message : String} {error : EngineError} :
    Quiet (refuse phase code message error : RunM α) :=
  (Quiet.emit rfl).bind fun _ => (Quiet.emit rfl).bind fun _ => Quiet.fail error

end Quiet

section Reports

variable (library : EngineLibrary) (driver : Driver)

theorem quiet_preScriptPhase (request : RequestEnvelope) :
    Quiet (preScriptPhase library request) := by
  rw [preScriptPhase]
  split
  · exact Quiet.pure request
  · refine (Quiet.emit rfl).bind fun _ => ?_
    split
    · exact (Quiet.each (fun _ => Quiet.emit rfl) _).bind fun _ => Quiet.pure _
    · exact (Quiet.emit rfl).bind fun _ => Quiet.fail _

theorem quiet_prepare (request : RequestEnvelope) (scope : ExecutionScope) :
    Quiet (prepare library driver request scope) := by
  refine (quiet_preScriptPhase library request).bind fun request => ?_
  refine Quiet.bind ?_ fun request => Quiet.bind ?_ fun request => ?_
  · refine (Quiet.emit rfl).bind fun _ => ?_
    split
    · exact Quiet.pure _
    · exact Quiet.refuse
  · rw [authPhase]
    split
    · exact Quiet.pure _
    · exact Quiet.refuse
  · refine (Quiet.emit rfl).bind fun _ => ?_
    split
    · exact Quiet.pure _
    · exact Quiet.refuse

variable (request : RequestEnvelope) (events : List ExecutionEvent) (summary : ExecutionSummary)

theorem quiet_assertionPhase : Quiet (assertionPhase library request events summary) := by
  rw [assertionPhase]
  split
  · exact Quiet.pure _
  · refine (Quiet.emit rfl).bind fun _ => ?_
    split
    · exact (Quiet.each (fun _ => Quiet.emit rfl) _).bind fun _ => Quiet.pure _
    · exact Quiet.pure _

/-- The variables that the scripts after a request end with, if there are scripts. -/
def postVariables : Option StringMap :=
  if request.postScripts = [] then none
  else
    match runPostScripts library.scripts request (scriptResponse events summary) with
    | .ok result => some result.vars
    | .error _ => none

/-- The scripts after a request report all variables that they end with. -/
theorem lastReported_postScriptPhase {before after : List ExecutionEvent}
    (h : (postScriptPhase library request events summary).run before = (.ok (), after)) :
    lastReported after = (postVariables library request events summary).or
      (lastReported before) := by
  rw [postScriptPhase] at h
  rw [postVariables]
  split at h
  · rename_i hempty
    cases h
    rw [if_pos hempty, Option.none_or]
  · rename_i hscripts
    rw [if_neg hscripts]
    obtain ⟨_, started, hstart, h⟩ := Fallible.run_bind_eq_ok_iff.mp h
    split at h
    · rename_i result hresult
      obtain ⟨_, logged, hlogs, hreport⟩ := Fallible.run_bind_eq_ok_iff.mp h
      cases hreport
      rw [lastReported_append]
      rfl
    · obtain ⟨_, _, _, hfail⟩ := Fallible.run_bind_eq_ok_iff.mp h
      cases hfail

/-- The variables before and after the scripts of a run that ends well. -/
def scripted (scope : ExecutionScope) : Option (StringMap × StringMap) :=
  match (prepare library driver request scope).run [] with
  | (.ok prepared, _) =>
    let run := driver.execute prepared
    match run.outcome with
    | .returned summary =>
      match (conclude library prepared run.events summary).run [] with
      | (.ok (.returned _), _) =>
        (postVariables library prepared run.events summary).map fun vars =>
          (prepared.vars, vars)
      | _ => none
    | _ => none
  | _ => none

end Reports

/-- The variables that a run has extracted, when it ends well. -/
def EngineRun.extracted (run : EngineRun) : Option StringMap :=
  match run.result with
  | .returned _ => lastReported run.events
  | _ => none

/-- What a run has extracted is what its scripts end with. -/
theorem extracted_runDriver (library : EngineLibrary) (driver : Driver)
    (request : RequestEnvelope) (scope : ExecutionScope) :
    (runDriver library driver request scope).extracted =
      (scripted library driver request scope).map Prod.snd := by
  have hquiet := quiet_prepare library driver request scope []
  rw [runDriver, scripted]
  rcases hprepare : (prepare library driver request scope).run [] with ⟨_ | prepared, early⟩
  · rfl
  rw [hprepare] at hquiet
  dsimp only
  cases houtcome : (driver.execute prepared).outcome with
  | panicked joinError => rfl
  | failed error => cases error <;> rfl
  | returned summary =>
    dsimp only
    rcases hconclude : (conclude library prepared (driver.execute prepared).events summary).run []
      with ⟨_ | result, late⟩
    · rfl
    cases result with
    | failed error => rfl
    | panicked joinError => rfl
    | returned summary' =>
      obtain ⟨_, posted, hpost, hassert⟩ := Fallible.run_bind_eq_ok_iff.mp hconclude
      have hlate := quiet_assertionPhase library prepared (driver.execute prepared).events
        summary posted
      rw [hassert, lastReported_postScriptPhase library prepared _ _ hpost] at hlate
      change lastReported (early ++ ((driver.execute prepared).events ++ late)) = _
      have hempty : lastReported [] = none := rfl
      rw [lastReported_append, lastReported_append, hlate, hquiet, hempty,
        lastReported_eq_none (driver.execute prepared).noVariables, Option.or_none,
        Option.or_none, Option.or_none, Option.map_map]
      exact (congrFun Option.map_id _).symm

end ApiVoy.Engine
