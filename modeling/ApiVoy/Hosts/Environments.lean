/-
# Updates of environments

The handlers of the local agent and its background tasks share one store behind a
lock. Creating and deleting an environment and keeping the variables a script has
extracted hold the lock throughout. Replacing an environment takes the lock twice,
once to read the row and once to write it back with the fields of the request, and
other updates go on in between. An update is serialized as long as nobody has
removed the row in between or changed a field of it that the request does not carry.
-/

import ApiVoy.Foundation.Interleaving
import ApiVoy.LocalStore.Rules
import Mathlib.Data.List.Permutation
import Mathlib.Logic.Function.Basic

namespace ApiVoy.Hosts

open Foundation Domain LocalStore

/-! ## Handlers -/

inductive StatusCode where
  | badRequest
  | notFound
  | internalServerError
  deriving DecidableEq, Repr

/-- What a handler answers when it fails. -/
inductive Refusal where
  | store (status : StatusCode) (error : StoreError)
  | message (status : StatusCode) (text : String)
  deriving DecidableEq

abbrev HandlerM := Fallible (Scheduled Store) Refusal

/-- An operation of the store under its lock, with the status of its errors. -/
def mapErr {α : Type} (status : StatusCode) (m : StoreM α) : HandlerM α := fun w =>
  match m.run w with
  | (.ok a, w') => (.ok a, w')
  | (.error e, w') => (.error (.store status e), w')

structure SaveEnvironmentBody where
  name : Option String
  projectId : Option String
  vars : StringMap
  /-- A request without them carries none. -/
  secretRefs : List String
  deriving DecidableEq

/-- An update with the id and the time it draws. -/
inductive Update where
  | putDefaultEnvironment (body : SaveEnvironmentBody) (now : Timestamp)
  | putEnvironment (id : String) (body : SaveEnvironmentBody) (now : Timestamp)
  | createEnvironment (id : String) (body : SaveEnvironmentBody) (now : Timestamp)
  | deleteEnvironment (id : String)
  /-- The variables a script of an execution has extracted. -/
  | persistExtracted (id : String) (vars : StringMap) (now : Timestamp)
  deriving DecidableEq

/-- How an update uses the lock. -/
inductive Sections where
  | one (m : HandlerM Unit)
  | two (read : HandlerM EnvironmentRow) (write : EnvironmentRow → HandlerM Unit)

/-- The row a default environment is replaced by; a name or a project in the request
is not looked at. -/
def SaveEnvironmentBody.replaceDefault (body : SaveEnvironmentBody) (now : Timestamp)
    (env : EnvironmentRow) : EnvironmentRow :=
  { env with vars := body.vars, secretRefs := body.secretRefs, updatedAt := now }

def SaveEnvironmentBody.replace (body : SaveEnvironmentBody) (now : Timestamp)
    (env : EnvironmentRow) : EnvironmentRow :=
  { env with
    name := body.name.getD env.name
    projectId := body.projectId.getD env.projectId
    vars := body.vars
    secretRefs := body.secretRefs
    updatedAt := now }

def Update.sections : Update → Sections
  | .putDefaultEnvironment body now =>
    .two (mapErr .internalServerError defaultEnvironment) fun env =>
      mapErr .internalServerError (saveEnvironment (body.replaceDefault now env))
  | .putEnvironment id body now =>
    .two
      (do
        match ← mapErr .internalServerError (getEnvironment id) with
        | some env => pure env
        | none => Fallible.fail (.message .notFound "environment not found"))
      fun env => mapErr .badRequest (saveEnvironment (body.replace now env))
  | .createEnvironment id body now =>
    .one (mapErr .badRequest (saveEnvironment {
      id
      projectId := body.projectId.getD "default-project"
      name := body.name.getD "New environment"
      vars := body.vars
      secretRefs := body.secretRefs
      updatedAt := now }))
  | .deleteEnvironment id => .one (mapErr .badRequest (LocalStore.deleteEnvironment id))
  | .persistExtracted id vars now =>
    -- errors are logged; the status is never sent
    .one (mapErr .internalServerError do
      match ← getEnvironment id with
      | some env => saveEnvironment { env with vars := vars ∪ env.vars, updatedAt := now }
      | none => pure ())

/-- An update on its own, without another one in between. -/
def Sections.alone : Sections → HandlerM Unit
  | .one m => m
  | .two read write => read >>= write

/-! ## Steps -/

inductive Phase where
  | idle
  | called (update : Update)
  /-- The row was read, and the lock is free again. -/
  | held (update : Update) (env : EnvironmentRow)
  | completed (update : Update)
  | refused (update : Update) (refusal : Refusal)
  deriving DecidableEq

def Phase.isCompleted : Phase → Bool
  | .completed _ => true
  | .idle | .called _ | .held .. | .refused .. => false

/-- The store and how far each task is. -/
structure Agent where
  store : Store
  phase : Nat → Phase

def Agent.start (store : Store) : Agent := ⟨store, fun _ => .idle⟩

def Agent.set (a : Agent) (t : Nat) (phase : Phase) : Agent :=
  { a with phase := Function.update a.phase t phase }

/-- Run a section under the lock and go on with its result. -/
def Agent.section {α : Type} (a : Agent) (t : Nat) (update : Update) (faults : List Bool)
    (m : HandlerM α) (next : α → Phase) : Agent :=
  match m.run ⟨a.store, faults⟩ with
  | (.ok x, w) => Agent.set ⟨w.state, a.phase⟩ t (next x)
  | (.error e, w) => Agent.set ⟨w.state, a.phase⟩ t (.refused update e)

inductive Action where
  | call (t : Nat) (update : Update)
  /-- A task takes the lock; the schedule says which effects fail while it holds it. -/
  | lock (t : Nat) (faults : List Bool)
  deriving DecidableEq

def Action.task : Action → Nat
  | .call t _ | .lock t _ => t

def step (action : Action) (a : Agent) : Option Agent :=
  match action with
  | .call t update =>
    match a.phase t with
    | .idle => some (a.set t (.called update))
    | _ => none
  | .lock t faults =>
    match a.phase t with
    | .called update =>
      match update.sections with
      | .one m => some (a.section t update faults m fun _ => .completed update)
      | .two read _ => some (a.section t update faults read fun env => .held update env)
    | .held update env =>
      match update.sections with
      | .one _ => none
      | .two _ write =>
        some (a.section t update faults (write env) fun _ => .completed update)
    | _ => none

/-! ## Serial runs -/

/-- The store after updates one after another, none of them disturbed. -/
def serial (order : List (Nat × Update)) (start : Store) : Store :=
  order.foldl (fun s entry => (entry.2.sections.alone.run ⟨s, []⟩).2.state) start

/-- What an environment row says, apart from the time of its last update. -/
def content (env : EnvironmentRow) : String × String × StringMap × List String :=
  (env.name, env.projectId, env.vars, env.secretRefs)

/-- The environments are what the completed updates make of those at the start, one
after another in some order. -/
def Agent.Serialized (start : Store) (a : Agent) : Prop :=
  ∃ order : List (Nat × Update), order.Nodup ∧
    (∀ t update, (t, update) ∈ order ↔ a.phase t = .completed update) ∧
    ∀ id, (a.store.environments.find? id).map content =
      ((serial order start).environments.find? id).map content

/-! ## Undisturbed writes -/

def Update.environmentId : Update → String
  | .putDefaultEnvironment .. => "default-env"
  | .putEnvironment id .. | .createEnvironment id .. | .deleteEnvironment id
  | .persistExtracted id .. => id

def Update.carriesName : Update → Bool
  | .putEnvironment _ body _ => body.name.isSome
  | _ => false

def Update.carriesProject : Update → Bool
  | .putEnvironment _ body _ => body.projectId.isSome
  | _ => false

/-- The row that is there is still the one that was read, up to what the request
replaces. -/
def Update.Fits (update : Update) (env : EnvironmentRow) : Option EnvironmentRow → Prop
  | none => False
  | some current =>
    (update.carriesName = false → current.name = env.name) ∧
      (update.carriesProject = false → current.projectId = env.projectId)

instance (update : Update) (env : EnvironmentRow) :
    (found : Option EnvironmentRow) → Decidable (update.Fits env found)
  | none => inferInstanceAs (Decidable False)
  | some _ => inferInstanceAs (Decidable (_ ∧ _))

def Phase.Fits (environments : Table EnvironmentRow) : Phase → Prop
  | .held update env => update.Fits env (environments.find? env.id)
  | .idle | .called _ | .completed _ | .refused .. => True

instance (environments : Table EnvironmentRow) :
    (phase : Phase) → Decidable (phase.Fits environments)
  | .held .. => inferInstanceAs (Decidable (Update.Fits ..))
  | .idle | .called _ | .completed _ | .refused .. => inferInstanceAs (Decidable True)

/-- When a row is written back it is still there, and the name and the project it was
read with are still its own, unless the request replaces them. -/
def Agent.Undisturbed (a : Agent) : Action → Prop
  | .lock t _ => (a.phase t).Fits a.store.environments
  | .call .. => True

instance (a : Agent) : (action : Action) → Decidable (a.Undisturbed action)
  | .lock .. => inferInstanceAs (Decidable (Phase.Fits ..))
  | .call .. => inferInstanceAs (Decidable True)

/-! ## Sections are atomic -/

section Atomic

variable {α : Type} {m : StoreM α}

variable (status : StatusCode)

theorem run_mapErr (m : StoreM α) (w : Scheduled Store) :
    (mapErr status m).run w =
      match m.run w with
      | (.ok a, w') => (.ok a, w')
      | (.error e, w') => (.error (.store status e), w') := rfl

theorem mapErr_ok {status : StatusCode} {a : α} {w w' : Scheduled Store}
    (h : (mapErr status m).run w = (.ok a, w')) : m.run w = (.ok a, w') := by
  rw [run_mapErr] at h
  rcases hm : m.run w with ⟨e | b, w₁⟩
  · rw [hm] at h
    cases h
  · rw [hm] at h
    cases h
    rfl

theorem atomic_mapErr (h : Fallible.Atomic m) : Fallible.Atomic (mapErr status m) := by
  intro s faults r w hrun
  rw [run_mapErr] at hrun
  rcases hm : m.run ⟨s, faults⟩ with ⟨e | a, w'⟩
  · rw [hm] at hrun
    cases hrun
    exact h s faults _ _ hm
  · rw [hm] at hrun
    cases hrun
    have hagain : m.run ⟨s, []⟩ = (.ok a, ⟨w.state, []⟩) := h s faults _ _ hm
    change (mapErr status m).run ⟨s, []⟩ = _
    rw [run_mapErr, hagain]

theorem atomic_query (read : Store → α) : Fallible.Atomic (query read) :=
  Fallible.Atomic.attempt fun s e' s' h => by cases h

theorem atomic_execute (statement : Store → Option (Store × Nat)) :
    Fallible.Atomic (execute statement) := by
  apply Fallible.Atomic.attempt
  intro s e' s' h
  cases hstatement : statement s with
  | none =>
    rw [hstatement] at h
    cases h
    rfl
  | some result =>
    rw [hstatement] at h
    cases h

theorem atomic_saveEnvironment (env : EnvironmentRow) :
    Fallible.Atomic (saveEnvironment env) :=
  (atomic_execute _).bind_pure _

theorem atomic_deleteEnvironment (id : String) :
    Fallible.Atomic (LocalStore.deleteEnvironment id) := by
  unfold LocalStore.deleteEnvironment
  split
  · exact .fail _
  · exact (atomic_execute _).bind_pure _

theorem getEnvironment_state {id : String} {s : Store} {faults : List Bool}
    {env : Option EnvironmentRow} {w : Scheduled Store}
    (h : (getEnvironment id).run ⟨s, faults⟩ = (.ok env, w)) : w.state = s :=
  (query_ok h).2

theorem atomic_getEnvironment_bind (id : String) {f : Option EnvironmentRow → StoreM α}
    (hf : ∀ env, Fallible.Atomic (f env)) : Fallible.Atomic (getEnvironment id >>= f) :=
  (atomic_query _).bind_read (fun _ _ _ _ h => (query_ok h).2) hf

/-- Every section takes place as a whole or not at all. -/
theorem atomic_sections (update : Update) :
    match update.sections with
    | .one m => Fallible.Atomic m
    | .two read write => Fallible.Atomic read ∧ ∀ env, Fallible.Atomic (write env) := by
  cases update with
  | putDefaultEnvironment body now =>
    constructor
    · apply atomic_mapErr
      apply atomic_getEnvironment_bind
      intro env
      cases env with
      | none => exact .fail _
      | some env => exact .pure _
    · exact fun env => atomic_mapErr _ (atomic_saveEnvironment _)
  | putEnvironment id body now =>
    constructor
    · apply (atomic_mapErr _ (atomic_query _)).bind_read
      · exact fun s faults env w h => getEnvironment_state (mapErr_ok h)
      · intro env
        cases env with
        | none => exact .fail _
        | some env => exact .pure _
    · exact fun env => atomic_mapErr _ (atomic_saveEnvironment _)
  | createEnvironment id body now => exact atomic_mapErr _ (atomic_saveEnvironment _)
  | deleteEnvironment id => exact atomic_mapErr _ (atomic_deleteEnvironment id)
  | persistExtracted id vars now =>
    apply atomic_mapErr
    apply atomic_getEnvironment_bind
    intro env
    cases env with
    | none => exact .pure _
    | some env => exact atomic_saveEnvironment _

end Atomic

/-! ## What the sections do -/

section Sections

variable {update : Update} {read : HandlerM EnvironmentRow}
  {write : EnvironmentRow → HandlerM Unit} {s : Store} {env current : EnvironmentRow}

/-- The first of two sections finds the row of the update and changes nothing. -/
theorem read_ok (hsections : update.sections = .two read write) {faults : List Bool}
    {w : Scheduled Store} (h : read.run ⟨s, faults⟩ = (.ok env, w)) :
    w.state = s ∧ env.id = update.environmentId := by
  have hfound : ∀ {id : String} {found : Option EnvironmentRow} {w : Scheduled Store},
      (getEnvironment id).run ⟨s, faults⟩ = (.ok found, w) → found = some env →
        w.state = s ∧ env.id = id := by
    intro id found w hquery hsome
    obtain ⟨hread, hstate⟩ := query_ok hquery
    exact ⟨hstate, Table.key_of_find? (hread.symm.trans hsome)⟩
  cases update with
  | putDefaultEnvironment body now =>
    cases hsections
    obtain ⟨found, w₁, hquery, hrest⟩ := Fallible.run_bind_eq_ok_iff.mp (mapErr_ok h)
    cases found with
    | none => cases hrest
    | some found =>
      cases hrest
      exact hfound hquery rfl
  | putEnvironment id body now =>
    cases hsections
    obtain ⟨found, w₁, hquery, hrest⟩ := Fallible.run_bind_eq_ok_iff.mp h
    cases found with
    | none => cases hrest
    | some found =>
      cases hrest
      exact hfound (mapErr_ok hquery) rfl
  | createEnvironment | deleteEnvironment | persistExtracted => cases hsections

/-- A row that was read earlier is written back as the present one is. -/
theorem write_eq (hsections : update.sections = .two read write) (hid : current.id = env.id)
    (hname : update.carriesName = false → current.name = env.name)
    (hproject : update.carriesProject = false → current.projectId = env.projectId) :
    write env = write current := by
  cases update with
  | putDefaultEnvironment body now =>
    cases hsections
    have hrow : body.replaceDefault now env = body.replaceDefault now current := by
      simp only [SaveEnvironmentBody.replaceDefault, hid, hname rfl, hproject rfl]
    dsimp only
    rw [hrow]
  | putEnvironment id body now =>
    cases hsections
    have hrow : body.replace now env = body.replace now current := by
      have hname' : body.name.getD env.name = body.name.getD current.name := by
        cases hcarried : body.name with
        | none => exact (hname (by simp [Update.carriesName, hcarried])).symm
        | some name => rfl
      have hproject' :
          body.projectId.getD env.projectId = body.projectId.getD current.projectId := by
        cases hcarried : body.projectId with
        | none => exact (hproject (by simp [Update.carriesProject, hcarried])).symm
        | some projectId => rfl
      simp only [SaveEnvironmentBody.replace, hid, hname', hproject']
    dsimp only
    rw [hrow]
  | createEnvironment | deleteEnvironment | persistExtracted => cases hsections

/-- On its own an update writes the row that is there. -/
theorem run_alone (hsections : update.sections = .two read write)
    (hcurrent : s.environments.find? update.environmentId = some current) :
    (read >>= write).run ⟨s, []⟩ = (write current).run ⟨s, []⟩ := by
  have hquery : (getEnvironment update.environmentId).run ⟨s, []⟩ =
      (.ok (some current), ⟨s, []⟩) := by
    rw [← hcurrent]
    rfl
  cases update with
  | putDefaultEnvironment body now =>
    cases hsections
    apply Fallible.run_bind_of_ok
    have hread : defaultEnvironment.run ⟨s, []⟩ = (.ok current, ⟨s, []⟩) :=
      Fallible.run_bind_of_ok hquery
    rw [run_mapErr, hread]
  | putEnvironment id body now =>
    cases hsections
    apply Fallible.run_bind_of_ok
    have hread : (mapErr .internalServerError (getEnvironment id)).run ⟨s, []⟩ =
        (.ok (some current), ⟨s, []⟩) := by
      rw [run_mapErr]
      exact hquery ▸ rfl
    rw [Fallible.run_bind_of_ok hread]
    rfl
  | createEnvironment | deleteEnvironment | persistExtracted => cases hsections

end Sections

/-! ## Runs -/

/-- The environments so far are those of a serial run, and a row that is held is a row
of the environment that is to be updated. -/
structure Serial (start : Store) (a : Agent) : Prop where
  order : ∃ order : List (Nat × Update), order.Nodup ∧
    (∀ t update, (t, update) ∈ order ↔ a.phase t = .completed update) ∧
    a.store = serial order start
  held : ∀ t update env, a.phase t = .held update env →
    (∃ read write, update.sections = .two read write) ∧ env.id = update.environmentId

section Runs

variable {start : Store} {a : Agent} {t : Nat} {update : Update}

@[simp]
theorem phase_set (a : Agent) (t : Nat) (phase : Phase) :
    (a.set t phase).phase = Function.update a.phase t phase := rfl

@[simp]
theorem store_set (a : Agent) (t : Nat) (phase : Phase) : (a.set t phase).store = a.store := rfl

/-- A task that goes on without an effect. -/
theorem Serial.quiet (h : Serial start a) {phase : Phase}
    (hbefore : ∀ update, a.phase t ≠ .completed update)
    (hafter : ∀ update, phase ≠ .completed update)
    (hheld : ∀ update env, phase = .held update env →
      (∃ read write, update.sections = .two read write) ∧ env.id = update.environmentId) :
    Serial start (a.set t phase) where
  order := by
    obtain ⟨order, hnodup, hcompleted, hstore⟩ := h.order
    refine ⟨order, hnodup, ?_, hstore⟩
    intro u update
    rw [hcompleted, phase_set, Function.update_apply]
    by_cases hu : u = t
    · simp only [hu, if_true, hbefore, hafter]
    · rw [if_neg hu]
  held u update env hphase := by
    rw [phase_set, Function.update_apply] at hphase
    by_cases hu : u = t
    · rw [if_pos hu] at hphase
      exact hheld update env hphase
    · rw [if_neg hu] at hphase
      exact h.held u update env hphase

/-- A task that completes with the effect its update has on its own. -/
theorem Serial.complete (h : Serial start a) (hbefore : ∀ update, a.phase t ≠ .completed update)
    {store : Store} (halone : (update.sections.alone.run ⟨a.store, []⟩).2.state = store) :
    Serial start (Agent.set ⟨store, a.phase⟩ t (.completed update)) where
  order := by
    obtain ⟨order, hnodup, hcompleted, hstore⟩ := h.order
    refine ⟨order ++ [(t, update)], ?_, ?_, ?_⟩
    · rw [List.nodup_append]
      refine ⟨hnodup, by simp, ?_⟩
      rintro entry hentry _ hlast rfl
      rw [List.mem_singleton.mp hlast] at hentry
      exact hbefore update ((hcompleted t update).mp hentry)
    · intro u update'
      rw [List.mem_append, hcompleted, List.mem_singleton, phase_set, Function.update_apply]
      by_cases hu : u = t
      · subst hu
        simp [hbefore, eq_comm]
      · simp [hu]
    · rw [store_set, serial, List.foldl_append, ← halone, hstore]
      rfl
  held u update' env hphase := by
    rw [phase_set, Function.update_apply] at hphase
    by_cases hu : u = t
    · rw [if_pos hu] at hphase
      cases hphase
    · rw [if_neg hu] at hphase
      exact h.held u update' env hphase

/-- A section ends with its result, or it has changed nothing and refuses. -/
theorem section_cases {α : Type} {m : HandlerM α} (hm : Fallible.Atomic m) (faults : List Bool)
    (next : α → Phase) :
    (∃ x w, m.run ⟨a.store, faults⟩ = (.ok x, w) ∧
        m.run ⟨a.store, []⟩ = (.ok x, ⟨w.state, []⟩) ∧
        a.section t update faults m next = Agent.set ⟨w.state, a.phase⟩ t (next x)) ∨
      ∃ e, a.section t update faults m next = a.set t (.refused update e) := by
  rcases hrun : m.run ⟨a.store, faults⟩ with ⟨e | x, w⟩
  · have hstate : w.state = a.store := hm _ _ _ _ hrun
    apply Or.inr
    refine ⟨e, ?_⟩
    simp only [Agent.section, hrun, hstate]
  · apply Or.inl
    refine ⟨x, w, rfl, hm _ _ _ _ hrun, ?_⟩
    simp only [Agent.section, hrun]

theorem Serial.refuse (h : Serial start a) (hbefore : ∀ update, a.phase t ≠ .completed update)
    (e : Refusal) : Serial start (a.set t (.refused update e)) :=
  h.quiet hbefore (fun _ => nofun) nofun

/-- One step of an undisturbed run. -/
theorem serial_step {action : Action} {a' : Agent} (h : Serial start a)
    (hquiet : a.Undisturbed action) (hstep : step action a = some a') : Serial start a' := by
  cases action with
  | call t update =>
    simp only [step] at hstep
    split at hstep
    · rename_i hphase
      cases hstep
      exact h.quiet (by simp [hphase]) (fun _ => nofun) nofun
    · cases hstep
  | lock t faults =>
    simp only [step] at hstep
    split at hstep
    · rename_i update hphase
      have hbefore : ∀ update, a.phase t ≠ .completed update := by simp [hphase]
      have hatomic := atomic_sections update
      split at hstep
      · rename_i m hsections
        cases hstep
        rw [hsections] at hatomic
        rcases section_cases hatomic faults fun _ => .completed update with
          ⟨x, w, _, halone, hnext⟩ | ⟨e, hnext⟩
        · rw [hnext]
          apply h.complete hbefore
          rw [hsections]
          exact congrArg (fun r => r.2.state) halone
        · rw [hnext]
          exact h.refuse hbefore e
      · rename_i read write hsections
        cases hstep
        rw [hsections] at hatomic
        rcases section_cases hatomic.1 faults fun env => .held update env with
          ⟨env, w, hrun, _, hnext⟩ | ⟨e, hnext⟩
        · obtain ⟨hstate, hid⟩ := read_ok hsections hrun
          rw [hnext, hstate]
          apply h.quiet hbefore
          · exact fun _ => nofun
          · rintro _ _ ⟨⟩
            exact ⟨⟨read, write, hsections⟩, hid⟩
        · rw [hnext]
          exact h.refuse hbefore e
    · rename_i update env hphase
      have hbefore : ∀ update, a.phase t ≠ .completed update := by simp [hphase]
      obtain ⟨-, hid⟩ := h.held t update env hphase
      have hatomic := atomic_sections update
      simp only [Agent.Undisturbed, hphase, Phase.Fits] at hquiet
      cases hcurrent : a.store.environments.find? env.id with
      | none =>
        rw [hcurrent] at hquiet
        exact hquiet.elim
      | some current =>
      rw [hcurrent] at hquiet
      split at hstep
      · cases hstep
      · rename_i read write hsections
        cases hstep
        rw [hsections] at hatomic
        rcases section_cases (hatomic.2 env) faults fun _ => .completed update with
          ⟨x, w, _, halone, hnext⟩ | ⟨e, hnext⟩
        · rw [hnext]
          apply h.complete hbefore
          have hwrite := write_eq hsections (Table.key_of_find? hcurrent) hquiet.1 hquiet.2
          rw [hid] at hcurrent
          rw [hsections, Sections.alone, run_alone hsections hcurrent, ← hwrite, halone]
        · rw [hnext]
          exact h.refuse hbefore e
    · cases hstep

end Runs

/-- A step moves its own task only. -/
theorem phase_step {action : Action} {a a' : Agent} (h : step action a = some a') {t : Nat}
    (ht : t ≠ action.task) : a'.phase t = a.phase t := by
  have hsection : ∀ {α : Type} (u : Nat) (update : Update) (faults : List Bool) (m : HandlerM α)
      (next : α → Phase), t ≠ u → (a.section u update faults m next).phase t = a.phase t := by
    intro α u update faults m next hu
    simp only [Agent.section]
    split
    · exact Function.update_of_ne hu _ _
    · exact Function.update_of_ne hu _ _
  cases action with
  | call u update =>
    simp only [step] at h
    split at h
    · cases h
      exact Function.update_of_ne ht _ _
    · cases h
  | lock u faults =>
    simp only [step] at h
    split at h
    · split at h
      · cases h
        exact hsection u _ _ _ _ ht
      · cases h
        exact hsection u _ _ _ _ ht
    · split at h
      · cases h
      · cases h
        exact hsection u _ _ _ _ ht
    · cases h

/-- A task without an action stays where it is. -/
theorem phase_perform {actions : List Action} {a a' : Agent}
    (h : perform step actions a = some a') (t : Nat) (ht : ∀ action ∈ actions, t ≠ action.task) :
    a'.phase t = a.phase t := by
  induction actions generalizing a with
  | nil =>
    cases h
    rfl
  | cons action rest ih =>
    obtain ⟨mid, hmid, hrest⟩ := Option.bind_eq_some_iff.mp h
    rw [ih hrest fun action haction => ht action (List.mem_cons_of_mem _ haction)]
    exact phase_step hmid (ht action List.mem_cons_self)

/-- While every row is written back undisturbed, the environments are those of the
completed updates one after another. -/
theorem updates_serialize {start : Store} {a : Agent}
    (h : Follows step Agent.Undisturbed (Agent.start start) a) : a.Serialized start := by
  have hserial : Serial start a := by
    apply h.invariant (I := Serial start)
    · constructor
      · exact ⟨[], List.nodup_nil, by simp [Agent.start], rfl⟩
      · intro t update env hheld
        cases hheld
    · exact fun a action a' ha hquiet hstep => serial_step ha hquiet hstep
  obtain ⟨order, hnodup, hcompleted, hstore⟩ := hserial.order
  exact ⟨order, hnodup, hcompleted, fun id => by rw [hstore]⟩

/-! ## A run of each kind -/

/-- A request of a name and one variable. -/
def bodyOf (name : Option String) (value : String) : SaveEnvironmentBody where
  name := name
  projectId := none
  vars := AList.singleton "token" value
  secretRefs := []

/-- Another task keeps an extracted variable while a request is between its sections. -/
def extractedAgent : Agent :=
  (performAdmitted step Agent.Undisturbed
    [.call 0 (.putEnvironment "default-env" (bodyOf none "a") "t1"), .lock 0 [],
      .call 1 (.persistExtracted "default-env" (AList.singleton "user" "ann") "t2"), .lock 1 [],
      .lock 0 []]
    (Agent.start (openedStore "t0"))).get (by decide +kernel)

theorem extractedAgent_serialized : extractedAgent.Serialized (openedStore "t0") ∧
    (extractedAgent.phase 0).isCompleted = true ∧ (extractedAgent.phase 1).isCompleted = true :=
  ⟨updates_serialize (follows_of_performAdmitted (Option.some_get _).symm), by decide +kernel,
    by decide +kernel⟩

/-- A request without a name, and one that renames. -/
def unnamedPut : Update := .putEnvironment "default-env" (bodyOf none "a") "t1"

def renamingPut : Update := .putEnvironment "default-env" (bodyOf (some "Production") "b") "t2"

/-- An environment is renamed while a request that names none is between its sections. -/
def revertedAgent : Agent :=
  (perform step
    [.call 0 unnamedPut, .lock 0 [], .call 1 renamingPut, .lock 1 [], .lock 1 [], .lock 0 []]
    (Agent.start (openedStore "t0"))).get (by decide +kernel)

theorem phase_reverted (t : Nat) (update : Update) :
    revertedAgent.phase t = .completed update ↔
      (t, update) ∈ [(0, unnamedPut), (1, renamingPut)] := by
  have hreached : perform step _ (Agent.start (openedStore "t0")) = some revertedAgent :=
    (Option.some_get _).symm
  have hother := phase_perform hreached t
  by_cases h0 : t = 0
  · subst h0
    have hphase : revertedAgent.phase 0 = .completed unnamedPut := rfl
    simp [hphase, eq_comm]
  · by_cases h1 : t = 1
    · subst h1
      have hphase : revertedAgent.phase 1 = .completed renamingPut := rfl
      simp [hphase, eq_comm]
    · have hphase : revertedAgent.phase t = .idle := hother (by simp [Action.task, h0, h1])
      simp [hphase, h0, h1]

/-- The environment has its old name again, though both requests were served. -/
theorem rename_reverted : ¬ ∀ start a, Follows step (fun _ _ => True) (Agent.start start) a →
    a.Serialized start := by
  intro hall
  have hreached : Follows step (fun _ _ => True) (Agent.start (openedStore "t0")) revertedAgent :=
    follows_of_perform (Option.some_get _).symm
  obtain ⟨order, hnodup, hcompleted, hcontent⟩ := hall _ _ hreached
  have hperm : order.Perm [(0, unnamedPut), (1, renamingPut)] := by
    rw [List.perm_ext_iff_of_nodup hnodup (by simp)]
    exact fun entry => (hcompleted entry.1 entry.2).trans (phase_reverted entry.1 entry.2)
  have hname := congrArg (Option.map Prod.fst) (hcontent "default-env")
  simp only [Option.map_map] at hname
  have hreverted : (revertedAgent.store.environments.find? "default-env").map
      (Prod.fst ∘ content) = some "Default" := by decide +kernel
  have hrenamed : ∀ order ∈ [[(0, unnamedPut), (1, renamingPut)],
      [(1, renamingPut), (0, unnamedPut)]],
      ((serial order (openedStore "t0")).environments.find? "default-env").map
        (Prod.fst ∘ content) = some "Production" := by decide +kernel
  have horder : order ∈ [[(0, unnamedPut), (1, renamingPut)],
      [(1, renamingPut), (0, unnamedPut)]] := by
    simpa only [List.mem_cons, List.not_mem_nil, or_false] using List.perm_pair.mp hperm
  rw [hreverted, hrenamed order horder] at hname
  exact absurd hname (by decide)

end ApiVoy.Hosts
