/-
# Active executions

The engine keeps the cancellation token of every active execution in a map behind a
lock. An execution is put into the map before its task is spawned, and the task takes it
out as its last step; its driver runs under a child of the token. A task whose driver
panics ends without that step.
-/

import ApiVoy.Domain.Execution
import ApiVoy.Foundation.Tasks

namespace ApiVoy.Engine

open Foundation Domain

/-- Tokens are numbered in the order in which they are made. -/
abbrev Token := Nat

/-- The map, and the tokens that were made and cancelled. -/
structure Registry where
  active : ExecutionId → Option Token
  made : Token
  cancelled : Token → Bool

def Registry.new : Registry := ⟨fun _ => none, 0, fun _ => false⟩

/-- How far an execution is. Each one draws its id, so no two share one. -/
inductive TaskPhase (ρ : Type) where
  | idle
  | driverNotFound (protocolId : String)
  /-- In the map; the task is not spawned yet. -/
  | inserted (token : Token)
  /-- The task is on its way through `run_driver`, under a child of the token. -/
  | running (token : Token)
  /-- `run_driver` has returned. -/
  | returned (token : Token) (result : ρ)
  | ended (result : ρ)
  /-- The task has ended with a panic. -/
  | panicked (token : Token)
  deriving DecidableEq

inductive TaskMove (ρ : Type) where
  | execute (protocolId : String)
  | spawn
  | finish (result : ρ)
  | panic
  | remove

section Steps

variable {ρ : Type}

namespace TaskPhase

/-- The task is spawned or about to be, and has not ended. -/
def isActive : TaskPhase ρ → Bool
  | .inserted _ | .running _ | .returned .. => true
  | .idle | .driverNotFound _ | .ended _ | .panicked _ => false

/-- The driver has not finished. -/
def isDriving : TaskPhase ρ → Bool
  | .inserted _ | .running _ => true
  | .idle | .driverNotFound _ | .returned .. | .ended _ | .panicked _ => false

def isPanicked : TaskPhase ρ → Bool
  | .panicked _ => true
  | .idle | .driverNotFound _ | .inserted _ | .running _ | .returned .. | .ended _ => false

/-- The token whose child the driver runs under. -/
def token? : TaskPhase ρ → Option Token
  | .inserted token | .running token | .returned token _ | .panicked token => some token
  | .idle | .driverNotFound _ | .ended _ => none

end TaskPhase

/-- How an execution goes on, for the protocols that have a driver. -/
def TaskMove.advance (drivers : List String) (id : ExecutionId) :
    TaskMove ρ → Registry → TaskPhase ρ → Option (Registry × TaskPhase ρ)
  | .execute protocolId, registry, .idle =>
    if protocolId ∈ drivers then
      some ({ registry with
        active := Function.update registry.active id (some registry.made)
        made := registry.made + 1 }, .inserted registry.made)
    else some (registry, .driverNotFound protocolId)
  | .spawn, registry, .inserted token => some (registry, .running token)
  | .finish result, registry, .running token => some (registry, .returned token result)
  | .panic, registry, .running token => some (registry, .panicked token)
  | .remove, registry, .returned _ result =>
    some ({ registry with active := Function.update registry.active id none }, .ended result)
  | _, _, _ => none

/-- Cancel the token of an execution, if it is in the map. -/
def Registry.cancel (registry : Registry) (id : ExecutionId) : Bool × Registry :=
  match registry.active id with
  | some token =>
    (true, { registry with cancelled := Function.update registry.cancelled token true })
  | none => (false, registry)

abbrev Executions (ρ : Type) := Tasks ExecutionId Registry (TaskPhase ρ)

inductive EngineAction (ρ : Type) where
  | task (id : ExecutionId) (move : TaskMove ρ)
  | cancel (id : ExecutionId)

def engineStep (drivers : List String) (action : EngineAction ρ) (executions : Executions ρ) :
    Option (Executions ρ) :=
  match action with
  | .task id move => executions.step (fun id move => move.advance drivers id) id move
  | .cancel id => some ⟨(executions.shared.cancel id).2, executions.phase⟩

def Executions.new : Executions ρ := Tasks.start Registry.new .idle

/-! ## What is in the map -/

variable {drivers : List String} {executions executions' : Executions ρ}

/-- The map has the tokens of the tasks that have not taken them out. -/
def Registered (executions : Executions ρ) : Prop :=
  ∀ id, executions.shared.active id = (executions.phase id).token?

theorem active_cancel (registry : Registry) (id : ExecutionId) :
    (registry.cancel id).2.active = registry.active := by
  rw [Registry.cancel]
  cases registry.active id <;> rfl

variable {phase : TaskPhase ρ}

/-- A step of a task leaves the map as it is at the other ids, and has its own token in
it or none. -/
theorem active_advance {move : TaskMove ρ} {registry : Registry} {id : ExecutionId}
    {next : Registry × TaskPhase ρ} (hactive : registry.active id = phase.token?)
    (h : move.advance drivers id registry phase = some next) :
    next.1.active id = next.2.token? ∧
      ∀ other, other ≠ id → next.1.active other = registry.active other := by
  cases move with
  | execute protocolId =>
    cases phase with
    | idle =>
      rw [TaskMove.advance] at h
      split at h
      · cases h
        exact ⟨by simp [TaskPhase.token?], fun other hother => by simp [hother]⟩
      · cases h
        exact ⟨hactive, fun _ _ => rfl⟩
    | driverNotFound _ | inserted _ | running _ | returned _ _ | ended _ | panicked _ => cases h
  | spawn =>
    cases phase with
    | inserted token =>
      cases h
      exact ⟨hactive, fun _ _ => rfl⟩
    | idle | driverNotFound _ | running _ | returned _ _ | ended _ | panicked _ => cases h
  | finish | panic =>
    cases phase with
    | running token =>
      cases h
      exact ⟨hactive, fun _ _ => rfl⟩
    | idle | driverNotFound _ | inserted _ | returned _ _ | ended _ | panicked _ => cases h
  | remove =>
    cases phase with
    | returned token result =>
      cases h
      exact ⟨by simp [TaskPhase.token?], fun other hother => by simp [hother]⟩
    | idle | driverNotFound _ | inserted _ | running _ | ended _ | panicked _ => cases h

theorem registered_step {action : EngineAction ρ} (h : Registered executions)
    (hstep : engineStep drivers action executions = some executions') :
    Registered executions' := by
  cases action with
  | cancel id =>
    cases hstep
    intro other
    show (executions.shared.cancel id).2.active other = (executions.phase other).token?
    rw [active_cancel, h other]
  | task id move =>
    rw [engineStep, Tasks.step_eq_some_iff] at hstep
    have ⟨next, hnext, heq⟩ := hstep
    subst heq
    have ⟨hself, hothers⟩ := active_advance (h id) hnext
    intro other
    rw [Tasks.shared_move]
    by_cases hother : other = id
    · rw [hother, Tasks.phase_move_self]
      exact hself
    · rw [Tasks.phase_move_of_ne hother, hothers other hother, h other]

theorem registered_of_follows
    (h : Follows (engineStep drivers) (fun _ _ => True) Executions.new executions) :
    Registered executions := by
  apply h.invariant
  · intro id
    rfl
  · intro before action after hbefore _ hstep
    exact registered_step hbefore hstep

/-! ## The registry -/

/-- What the registry is for: it is empty once no task is active, has every execution
whose driver has not finished, and finds exactly the executions whose tasks have not
ended, whose drivers' tokens it cancels. -/
structure KeepsTrack (executions : Executions ρ) : Prop where
  emptied : (∀ id, (executions.phase id).isActive = false) →
    ∀ id, executions.shared.active id = none
  covers : ∀ id, (executions.phase id).isDriving = true →
    (executions.shared.active id).isSome = true
  finds : ∀ id, (executions.shared.cancel id).1 = true ↔ (executions.phase id).isActive = true
  cancels : ∀ id, (executions.shared.cancel id).1 = true →
    ∃ token, (executions.phase id).token? = some token ∧
      (executions.shared.cancel id).2.cancelled token = true

theorem cancel_of_registered (h : Registered executions) (id : ExecutionId) :
    (executions.shared.cancel id).1 = (executions.phase id).token?.isSome := by
  rw [Registry.cancel, h id]
  cases (executions.phase id).token? <;> rfl

/-- A task that has not panicked has its token in the map as long as it is active. -/
theorem isSome_token? (h : phase.isPanicked = false) : phase.token?.isSome = phase.isActive := by
  cases phase with
  | panicked token => cases h
  | idle | driverNotFound _ | inserted _ | running _ | returned _ _ | ended _ => rfl

/-- In every run, the registry keeps track of the executions if and only if no task has
panicked. -/
theorem registry_keeps_track
    (h : Follows (engineStep drivers) (fun _ _ => True) Executions.new executions) :
    KeepsTrack executions ↔ ∀ id, (executions.phase id).isPanicked = false := by
  have hregistered := registered_of_follows h
  constructor
  · intro hkeeps id
    cases hphase : executions.phase id with
    | panicked token =>
      -- the token of the panicked task is still found
      have hfound : (executions.shared.cancel id).1 = true := by
        rw [cancel_of_registered hregistered, hphase]
        rfl
      have hactive := (hkeeps.finds id).mp hfound
      rw [hphase] at hactive
      cases hactive
    | idle | driverNotFound _ | inserted _ | running _ | returned _ _ | ended _ => rfl
  · intro hnone
    have hactive : ∀ id, (executions.phase id).token?.isSome = (executions.phase id).isActive :=
      fun id => isSome_token? (hnone id)
    exact {
      emptied := by
        intro hover id
        rw [hregistered id, ← Option.not_isSome_iff_eq_none, hactive id, hover id]
        exact Bool.false_ne_true
      covers := by
        intro id hdriving
        rw [hregistered id, hactive id]
        cases hphase : executions.phase id with
        | inserted _ | running _ => rfl
        | idle | driverNotFound _ | returned _ _ | ended _ | panicked _ =>
          rw [hphase] at hdriving
          cases hdriving
      finds := by
        intro id
        rw [cancel_of_registered hregistered, hactive id]
      cancels := by
        intro id hfound
        rw [cancel_of_registered hregistered] at hfound
        have ⟨token, htoken⟩ := Option.isSome_iff_exists.mp hfound
        refine ⟨token, htoken, ?_⟩
        rw [Registry.cancel, hregistered id, htoken]
        simp }

end Steps

/-- One execution is active, and another one has ended. -/
def trackedExecutions : Option (Executions Unit) :=
  perform (engineStep ["http"])
    [.task "e" (.execute "http"), .task "f" (.execute "http"), .task "e" .spawn,
      .task "f" .spawn, .task "e" (.finish ()), .cancel "f", .task "e" .remove] Executions.new

theorem registry_keeps_track_of_two :
    ∃ executions, trackedExecutions = some executions ∧
      (KeepsTrack executions ↔ ∀ id, (executions.phase id).isPanicked = false) := by
  have hsome : trackedExecutions.isSome = true := by decide +kernel
  have ⟨executions, hexecutions⟩ := Option.isSome_iff_exists.mp hsome
  exact ⟨executions, hexecutions, registry_keeps_track (follows_of_perform hexecutions)⟩

/-- One execution, whose driver panics. -/
def panickedExecution : Option (Executions Unit) :=
  perform (engineStep ["http"])
    [.task "e" (.execute "http"), .task "e" .spawn, .task "e" .panic] Executions.new

/-- A task has ended, and its execution can still be cancelled. -/
theorem panicked_execution_stays :
    ∃ executions : Executions Unit,
      Follows (engineStep ["http"]) (fun _ _ => True) Executions.new executions ∧
      (executions.phase "e").isActive = false ∧ (executions.shared.active "e").isSome = true ∧
      ¬ KeepsTrack executions := by
  have hrun : panickedExecution.map (fun executions =>
      ((executions.phase "e").isActive, (executions.shared.active "e").isSome,
        (executions.shared.cancel "e").1)) = some (false, true, true) := by decide +kernel
  have ⟨executions, hexecutions, heq⟩ := Option.map_eq_some_iff.mp hrun
  have ⟨hended, hstill⟩ := Prod.mk.inj heq
  have ⟨hactive, hfound⟩ := Prod.mk.inj hstill
  refine ⟨executions, follows_of_perform hexecutions, hended, hactive, fun hkeeps => ?_⟩
  rw [(hkeeps.finds "e").mp hfound] at hended
  cases hended

end ApiVoy.Engine
