/-
# Extracted variables

A host merges the variables that a run has extracted: the local agent into the environment of
the execution, the command line into the variables of the collection. The scripts of a request
report all variables of the request, so that also those that no script has assigned take the
place of what is stored under their names.
-/

import ApiVoy.Engine.Run
import ApiVoy.Hosts.Environments
import ApiVoy.Hosts.Forwarding

namespace ApiVoy.Hosts

open Foundation Domain Engine LocalStore

/-! ## The local agent -/

/-- What the task of the local agent does with the variables of a run that it has forwarded. -/
def persistRun (decode : String → Option Bytes) (environmentId : String) (now : Timestamp)
    (run : EngineRun) : HandlerM Unit :=
  match run.result with
  | .returned _ =>
    match (Collected.new.takeAll decode run.events).extractedVariables with
    | some vars => (Update.persistExtracted environmentId vars now).sections.alone
    | none => pure ()
  | _ => pure ()

/-! ## The command line -/

structure RunCase where
  iteration : Nat
  name : String
  protocolId : String
  passed : Bool
  durationMs : UInt64
  error : Option String
  failedAssertions : List String
  deriving DecidableEq

/-- A request of a collection with the variables before and after it. -/
structure CollectionStep where
  request : RequestEnvelope
  before : StringMap
  case : RunCase
  after : StringMap

section CommandLine

variable (library : EngineLibrary) (drivers : String → Option Driver)

def executeCollect (request : RequestEnvelope) (scope : ExecutionScope) :
    Except EngineError (ExecutionSummary × List ExecutionEvent) :=
  match drivers request.protocolId with
  | none => .error (.driverNotFound request.protocolId)
  | some driver =>
    let run := runDriver library driver request scope
    match run.result with
    | .returned summary => .ok (summary, run.events)
    | .failed error => .error error
    | .panicked joinError => .error (.driver (.internal joinError))

def failedAssertions (events : List ExecutionEvent) : List String :=
  events.filterMap fun
    | .assertionResult result => if result.passed = true then none else some result.name
    | _ => none

def runCase (iteration : Nat) (request : RequestEnvelope) (scope : ExecutionScope) :
    RunCase × StringMap :=
  match executeCollect library drivers request scope with
  | .ok (summary, events) =>
    ({ iteration := iteration
       name := request.name
       protocolId := request.protocolId
       passed := decide (summary.state = .completed) && (failedAssertions events).isEmpty
       durationMs := summary.durationMs
       error := none
       failedAssertions := failedAssertions events },
      (lastReported events).getD ∅)
  | .error error =>
    ({ iteration := iteration
       name := request.name
       protocolId := request.protocolId
       passed := false
       durationMs := 0
       error := some error.text
       failedAssertions := [] },
      ∅)

/-- The scope of a request: a row of data as its environment, and the variables so far. -/
def collectionScope (data collection : StringMap) : ExecutionScope :=
  ⟨⟨∅, data, collection, ∅⟩, ∅⟩

/-- The requests of a collection one after another, up to one that fails if that is asked for. -/
def collectionSteps (data : StringMap) (iteration : Nat) (failFast : Bool) :
    List RequestEnvelope → StringMap → List CollectionStep
  | [], _ => []
  | request :: requests, collection =>
    let result := runCase library drivers iteration request (collectionScope data collection)
    let after := result.2 ∪ collection
    ⟨request, collection, result.1, after⟩ ::
      if failFast = true ∧ result.1.passed = false then []
      else collectionSteps data iteration failFast requests after

def runIteration (data : StringMap) (iteration : Nat) (failFast : Bool)
    (requests : List RequestEnvelope) : List RunCase :=
  (collectionSteps library drivers data iteration failFast requests ∅).map CollectionStep.case

end CommandLine

/-! ## What a run may write -/

section Changes

variable (scripts : Option (StringMap × StringMap)) (stored : StringMap)

/-- The value that scripts have given to a variable: one that it did not have before them. -/
def assigned (key : String) : Option String :=
  scripts.bind fun vars => (vars.2.lookup key).filter fun value => vars.1.lookup key ≠ some value

/-- A host writes the variables that scripts have assigned, and nothing else. -/
def OnlyAssigned (after : StringMap) : Prop :=
  ∀ key, after.lookup key = (assigned scripts key).or (stored.lookup key)

/-- The variables that scripts have left as they were are stored with the same values. -/
def LeftAsStored : Prop :=
  ∀ before left, scripts = some (before, left) → ∀ key value,
    before.lookup key = some value → left.lookup key = some value → stored.lookup key = some value

/-- What a host stores once it has merged what was extracted. -/
def merged (extracted : Option StringMap) : StringMap := extracted.getD ∅ ∪ stored

theorem lookup_merged (key : String) :
    (merged stored (scripts.map Prod.snd)).lookup key =
      (scripts.bind fun vars => vars.2.lookup key).or (stored.lookup key) := by
  rw [merged, lookup_union]
  cases scripts with
  | none => rfl
  | some vars => rfl

theorem onlyAssigned_merged_iff :
    OnlyAssigned scripts stored (merged stored (scripts.map Prod.snd)) ↔
      LeftAsStored scripts stored := by
  have hkey : ∀ key, (merged stored (scripts.map Prod.snd)).lookup key =
        (assigned scripts key).or (stored.lookup key) ↔
      ∀ before left, scripts = some (before, left) → ∀ value, before.lookup key = some value →
        left.lookup key = some value → stored.lookup key = some value := by
    intro key
    rw [lookup_merged, assigned]
    cases scripts with
    | none => simp
    | some vars =>
      obtain ⟨before, left⟩ := vars
      dsimp only [Option.bind_some]
      cases hleft : left.lookup key with
      | none => simp [hleft]
      | some value =>
        by_cases hbefore : before.lookup key = some value
        · simp [hbefore, hleft, Option.filter, eq_comm]
        · have hkept : (some value).filter (fun value => before.lookup key ≠ some value) =
              some value := by simp [Option.filter, hbefore]
          rw [hkept, Option.some_or]
          refine iff_of_true rfl fun before' left' heq value' hvalue hsame => ?_
          cases heq
          rw [hleft] at hsame
          cases hsame
          exact absurd hvalue hbefore
  constructor
  · exact fun h before left heq key value => (hkey key).mp (h key) before left heq value
  · exact fun h key => (hkey key).mpr fun before left heq => h before left heq key

end Changes

/-! ## What the hosts write -/

/-- The local agent keeps the variables that are reported last. -/
theorem extractedVariables_takeAll (decode : String → Option Bytes) (collected : Collected)
    (events : List ExecutionEvent) :
    (collected.takeAll decode events).extractedVariables =
      (lastReported events).or collected.extractedVariables := by
  induction events generalizing collected with
  | nil => rfl
  | cons event events ih =>
    have hstep : (collected.take decode event).1.extractedVariables =
        (reported event).or collected.extractedVariables := by
      cases event with
      | responseChunk contentType size preview dataBase64 done =>
        rw [Collected.take, Collected.takeChunk]
        cases done <;> cases dataBase64.bind decode <;> rfl
      | _ => rfl
    have hcons : lastReported (event :: events) = (lastReported events).or (reported event) := by
      have hone : lastReported [event] = reported event := by
        rw [lastReported, List.reverse_singleton, List.findSome?_cons]
        cases reported event <;> rfl
      rw [← List.singleton_append, lastReported_append, hone]
    have hfold : Collected.takeAll decode collected (event :: events) =
        Collected.takeAll decode (collected.take decode event).1 events := rfl
    rw [hfold, ih, hstep, hcons, Option.or_assoc]

theorem run_saveEnvironment {store : Store} {row : EnvironmentRow}
    (hproject : Sql.refers store.projects row.projectId = true) :
    (saveEnvironment row).run ⟨store, []⟩ =
      (.ok (), ⟨{ store with
        environments := store.environments.upsert row (fun old => { row with id := old.id })
          fun _ => rfl }, []⟩) := by
  have hstatement : Sql.upsertEnvironment row store = some ({ store with
      environments := store.environments.upsert row (fun old => { row with id := old.id })
        fun _ => rfl }, 1) := by
    rw [Sql.upsertEnvironment, if_pos hproject]
  have hexecute : (LocalStore.execute (Sql.upsertEnvironment row)).run ⟨store, []⟩ =
      (.ok 1, ⟨{ store with
        environments := store.environments.upsert row (fun old => { row with id := old.id })
          fun _ => rfl }, []⟩) := by
    have hspared : ([] : List Bool).head? ≠ some true := by decide
    rw [LocalStore.execute, Fallible.run_attempt_of_not_struck hspared]
    dsimp only
    rw [hstatement]
    rfl
  exact Fallible.run_bind_of_ok hexecute

/-- The environment of a run has the merged variables afterwards. -/
theorem persistRun_environment {store : Store} {environment : EnvironmentRow} {id : String}
    (hfind : store.environments.find? id = some environment)
    (hproject : Sql.refers store.projects environment.projectId = true)
    (decode : String → Option Bytes) (now : Timestamp) (run : EngineRun) :
    ∃ after, ((persistRun decode id now run).run ⟨store, []⟩).2.state.environments.find? id =
        some after ∧ after.vars = merged environment.vars run.extracted := by
  have hnone : merged environment.vars none = environment.vars := AList.empty_union
  rw [persistRun, EngineRun.extracted]
  cases run.result with
  | failed error => exact ⟨environment, hfind, hnone.symm⟩
  | panicked joinError => exact ⟨environment, hfind, hnone.symm⟩
  | returned summary =>
    dsimp only
    rw [extractedVariables_takeAll]
    cases hreported : lastReported run.events with
    | none => exact ⟨environment, hfind, hnone.symm⟩
    | some vars =>
      have hquery : (getEnvironment id).run ⟨store, []⟩ =
          (.ok (some environment), ⟨store, []⟩) := by
        rw [← hfind]
        rfl
      have hsave : (saveEnvironment
          { environment with vars := vars ∪ environment.vars, updatedAt := now }).run
            ⟨store, []⟩ = _ := run_saveEnvironment hproject
      have hpersist : (Update.persistExtracted id vars now).sections.alone.run ⟨store, []⟩ =
          (.ok (), ⟨{ store with
            environments := store.environments.upsert
              { environment with vars := vars ∪ environment.vars, updatedAt := now }
              (fun old => { environment with
                vars := vars ∪ environment.vars, updatedAt := now, id := old.id })
              fun _ => rfl }, []⟩) := by
        rw [Update.sections, Sections.alone, run_mapErr, Fallible.run_bind_of_ok hquery, hsave]
      have hid : environment.id = id := Table.key_of_find? hfind
      rw [Option.some_or]
      dsimp only
      rw [hpersist]
      dsimp only
      rw [Table.find?_upsert, if_pos (show Keyed.key _ = id from hid), hfind]
      exact ⟨_, rfl, rfl⟩

section Collections

variable (library : EngineLibrary) (drivers : String → Option Driver) (data : StringMap)

/-- The variables before and after the scripts of a request of a collection. -/
def CollectionStep.scripts (step : CollectionStep) : Option (StringMap × StringMap) :=
  (drivers step.request.protocolId).bind fun driver =>
    scripted library driver step.request (collectionScope data step.before)

theorem runCase_snd (iteration : Nat) (request : RequestEnvelope) (scope : ExecutionScope) :
    (runCase library drivers iteration request scope).2 =
      (((drivers request.protocolId).bind fun driver =>
        scripted library driver request scope).map Prod.snd).getD ∅ := by
  rw [runCase, executeCollect]
  cases drivers request.protocolId with
  | none => rfl
  | some driver =>
    rw [Option.bind_some, ← extracted_runDriver, EngineRun.extracted]
    dsimp only
    cases (runDriver library driver request scope).result <;> rfl

/-- The variables behind every request of a collection are those before it, merged with what its
run has extracted. -/
theorem after_of_mem_collectionSteps {iteration : Nat} {failFast : Bool}
    {requests : List RequestEnvelope} {collection : StringMap} {step : CollectionStep}
    (h : step ∈ collectionSteps library drivers data iteration failFast requests collection) :
    step.after = merged step.before ((step.scripts library drivers data).map Prod.snd) := by
  induction requests generalizing collection with
  | nil => cases h
  | cons request requests ih =>
    rw [collectionSteps] at h
    rcases List.mem_cons.mp h with heq | hmem
    · rw [heq]
      exact congrArg (· ∪ collection) (runCase_snd library drivers iteration request _)
    · split at hmem
      · cases hmem
      · exact ih hmem

end Collections

/-- A host writes exactly what the scripts of a run have assigned when, and only when, all other
variables that they end with are stored with the same values: for the environment of the local
agent, and for the variables that the command line passes from one request to the next. -/
theorem hosts_onlyAssigned_iff (library : EngineLibrary) :
    (∀ (driver : Driver) (request : RequestEnvelope) (scope : ExecutionScope)
        (decode : String → Option Bytes) (id : String) (now : Timestamp) (store : Store)
        (environment : EnvironmentRow), store.environments.find? id = some environment →
      Sql.refers store.projects environment.projectId = true →
      ∃ after, ((persistRun decode id now (runDriver library driver request scope)).run
          ⟨store, []⟩).2.state.environments.find? id = some after ∧
        (OnlyAssigned (scripted library driver request scope) environment.vars after.vars ↔
          LeftAsStored (scripted library driver request scope) environment.vars)) ∧
      ∀ (drivers : String → Option Driver) (data : StringMap) (iteration : Nat) (failFast : Bool)
        (requests : List RequestEnvelope),
        (∀ step ∈ collectionSteps library drivers data iteration failFast requests ∅,
          OnlyAssigned (step.scripts library drivers data) step.before step.after) ↔
        ∀ step ∈ collectionSteps library drivers data iteration failFast requests ∅,
          LeftAsStored (step.scripts library drivers data) step.before := by
  constructor
  · intro driver request scope decode id now store environment hfind hproject
    obtain ⟨after, hafter, hvars⟩ := persistRun_environment hfind hproject decode now
      (runDriver library driver request scope)
    refine ⟨after, hafter, ?_⟩
    rw [hvars, extracted_runDriver]
    exact onlyAssigned_merged_iff _ _
  · intro drivers data iteration failFast requests
    refine forall₂_congr fun step hstep => ?_
    rw [after_of_mem_collectionSteps library drivers data hstep]
    exact onlyAssigned_merged_iff _ _

/-! ### A script that assigns nothing -/

def idleLibrary : EngineLibrary where
  scripts := idleEngine
  dynamics := ⟨"uuid", "timestamp", "isoTimestamp"⟩
  auth := offlineLibrary
  json := ⟨fun _ => .error "expected value", fun _ => ""⟩
  panicText := "task panicked"

/-- A driver that is done at once. -/
def quietDriver : Driver where
  validate _ := []
  execute request := {
    events := []
    outcome := .returned ⟨"execution", request.id, request.protocolId, .completed, "t1", "t2", 0,
      0, some 200⟩
    noVariables := fun _ => List.not_mem_nil }

/-- A request with an empty script behind it. -/
def scriptedRequest (vars : StringMap) : RequestEnvelope :=
  { RequestEnvelope.httpGet "request" "now" "user" "" with
    postScripts := [""]
    vars := vars }

def idleScope : ExecutionScope := ⟨⟨∅, ∅, ∅, ∅⟩, ∅⟩

/-- A store whose environment has the token that requests bring along. -/
def tokenStore : Store :=
  { openedStore "t0" with
    environments := (openedStore "t0").environments.update "default-env"
      (fun environment => { environment with vars := AList.singleton "token" "request" })
      fun _ => rfl }

theorem hosts_onlyAssigned_idle :
    ∃ environment after, tokenStore.environments.find? "default-env" = some environment ∧
      ((persistRun (fun _ => none) "default-env" "t3" (runDriver idleLibrary quietDriver
          (scriptedRequest (AList.singleton "token" "request")) idleScope)).run
        ⟨tokenStore, []⟩).2.state.environments.find? "default-env" = some after ∧
      OnlyAssigned (scripted idleLibrary quietDriver
          (scriptedRequest (AList.singleton "token" "request")) idleScope)
        environment.vars after.vars := by
  have hfind : ∃ environment, tokenStore.environments.find? "default-env" = some environment ∧
      Sql.refers tokenStore.projects environment.projectId = true ∧
        environment.vars = AList.singleton "token" "request" := ⟨_, rfl, rfl, rfl⟩
  obtain ⟨environment, hfind, hproject, hvars⟩ := hfind
  obtain ⟨after, hafter, hiff⟩ := (hosts_onlyAssigned_iff idleLibrary).1 quietDriver
    (scriptedRequest (AList.singleton "token" "request")) idleScope (fun _ => none) "default-env"
      "t3" _ environment hfind hproject
  refine ⟨environment, after, hfind, hafter, hiff.mpr ?_⟩
  rintro before left hscripts key value hbefore -
  cases hscripts
  rw [hvars]
  exact hbefore

/-- A variable of the request is written into the environment though no script has assigned it. -/
theorem hosts_onlyAssigned_not :
    ¬∀ (library : EngineLibrary) (driver : Driver) (request : RequestEnvelope)
      (scope : ExecutionScope) (decode : String → Option Bytes) (id : String) (now : Timestamp)
      (store : Store) (environment after : EnvironmentRow),
      store.environments.find? id = some environment →
      ((persistRun decode id now (runDriver library driver request scope)).run
          ⟨store, []⟩).2.state.environments.find? id = some after →
        OnlyAssigned (scripted library driver request scope) environment.vars after.vars := by
  intro h
  have hfind : ∃ environment,
      (openedStore "t0").environments.find? "default-env" = some environment ∧
        Sql.refers (openedStore "t0").projects environment.projectId = true ∧
          environment.vars.lookup "token" = none := ⟨_, rfl, rfl, rfl⟩
  obtain ⟨environment, hfind, hproject, hnone⟩ := hfind
  obtain ⟨after, hafter, hvars⟩ := persistRun_environment hfind hproject (fun _ => none) "t3"
    (runDriver idleLibrary quietDriver (scriptedRequest (AList.singleton "token" "request"))
      idleScope)
  have honly := h idleLibrary quietDriver (scriptedRequest (AList.singleton "token" "request"))
    idleScope _ "default-env" "t3" _ environment after hfind hafter
  rw [hvars, extracted_runDriver, onlyAssigned_merged_iff] at honly
  have hscripts : scripted idleLibrary quietDriver
      (scriptedRequest (AList.singleton "token" "request")) idleScope =
        some (AList.singleton "token" "request", AList.singleton "token" "request") := by
    rfl
  have hstored := honly _ _ hscripts "token" "request" rfl rfl
  rw [hnone] at hstored
  cases hstored

end ApiVoy.Hosts
