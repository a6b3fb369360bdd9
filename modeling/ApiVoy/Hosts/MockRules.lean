/-
# Mock rules

The agent keeps its mock rules in a map and in a file that it reads when it starts. A
handler that creates, updates or deletes a rule changes the map under the lock; it then
takes the lock again for a snapshot of the map and writes the snapshot to the file
without the lock.
-/

import Mathlib.Data.Fintype.Basic
import ApiVoy.Foundation.Codec
import ApiVoy.Hosts.Tickets

namespace ApiVoy.Hosts

open Foundation

/-! ## Rules -/

structure MockRule where
  id : String
  name : String
  method : String
  path : String
  status : UInt16
  headers : StringMap
  body : String
  delayMs : UInt64
  errorEvery : Option UInt64
  priority : Int32
  wsMessages : List String
  wsEcho : Bool
  wsIntervalMs : UInt64
  deriving DecidableEq

structure MockRuleState where
  rule : MockRule
  hits : UInt64
  deriving DecidableEq

instance : Keyed MockRuleState := ⟨fun entry => entry.rule.id⟩

/-- The body of a request that creates or replaces a rule. -/
structure CreateMockRule where
  name : String
  method : String
  path : String
  status : UInt16
  headers : StringMap
  body : String
  delayMs : UInt64
  errorEvery : Option UInt64
  priority : Int32
  wsMessages : List String
  wsEcho : Bool
  wsIntervalMs : UInt64
  deriving DecidableEq

theorem write_word64_ne_null (n : UInt64) : Codec.word64.write n ≠ .null := by
  intro h
  cases h

def optWord64 : Codec (Option UInt64) := Codec.word64.nullable write_word64_ne_null

def MockRule.codec : Codec MockRule :=
  .record
    (fun rule =>
      [("id", Codec.text.write rule.id), ("name", Codec.text.write rule.name),
        ("method", Codec.text.write rule.method), ("path", Codec.text.write rule.path),
        ("status", Codec.word16.write rule.status),
        ("headers", Codec.stringMap.write rule.headers), ("body", Codec.text.write rule.body),
        ("delayMs", Codec.word64.write rule.delayMs),
        ("errorEvery", optWord64.write rule.errorEvery),
        ("priority", Codec.signed32.write rule.priority),
        ("wsMessages", (Codec.list .text).write rule.wsMessages),
        ("wsEcho", Codec.boolean.write rule.wsEcho),
        ("wsIntervalMs", Codec.word64.write rule.wsIntervalMs)])
    (fun ms => do
      let id ← Codec.text.field "id" ms
      let name ← Codec.text.field "name" ms
      let method ← Codec.text.field "method" ms
      let path ← Codec.text.field "path" ms
      let status ← Codec.word16.field "status" ms
      let headers ← Codec.stringMap.fieldOr ∅ "headers" ms
      let body ← Codec.text.fieldOr "" "body" ms
      let delayMs ← Codec.word64.fieldOr 0 "delayMs" ms
      let errorEvery ← optWord64.fieldOr none "errorEvery" ms
      let priority ← Codec.signed32.fieldOr 0 "priority" ms
      let wsMessages ← (Codec.list .text).fieldOr [] "wsMessages" ms
      let wsEcho ← Codec.boolean.fieldOr false "wsEcho" ms
      let wsIntervalMs ← Codec.word64.fieldOr 0 "wsIntervalMs" ms
      return { id, name, method, path, status, headers, body, delayMs, errorEvery, priority,
               wsMessages, wsEcho, wsIntervalMs })
    (fun rule => by simp)

/-- The first thing that is wrong with a rule; `isMethod` says what HTTP accepts as a
method. -/
def validateMockRule (isMethod : String → Bool) (input : CreateMockRule) :
    Option (Nat × String) :=
  if trim input.name = "" then some (400, "mock rule name is required")
  else if isMethod input.method = false ∧ input.method ≠ "*" ∧ input.method.toLower ≠ "ws" then
    some (400, "invalid mock HTTP method")
  else if input.status < 100 ∨ 999 < input.status then some (400, "invalid mock status")
  else none

def normalizeMockPath (value : String) : String :=
  "/" ++ String.ofList ((trimChars value.toList).dropWhile fun c => c = '/')

/-- The rule a request asks for. A method that is accepted has ASCII letters only. -/
def CreateMockRule.rule (input : CreateMockRule) (id : String) : MockRule where
  id
  name := input.name
  method := input.method.toUpper
  path := normalizeMockPath input.path
  status := input.status
  headers := input.headers
  body := input.body
  delayMs := input.delayMs
  errorEvery := input.errorEvery.filter fun value => 0 < value
  priority := input.priority
  wsMessages := input.wsMessages
  wsEcho := input.wsEcho
  wsIntervalMs := input.wsIntervalMs

/-- The rules a file holds: none when it is missing or does not parse. -/
def loadMockRules (file : Option Json) : Table MockRuleState :=
  .collect (((file.bind (Codec.list MockRule.codec).read).getD []).map fun rule => ⟨rule, 0⟩)

/-! ## Steps -/

inductive MockRequest where
  | createMockRule (protocolVersion : Option (Option String)) (input : CreateMockRule)
  | updateMockRule (protocolVersion : Option (Option String)) (id : String)
      (input : CreateMockRule)
  | deleteMockRule (protocolVersion : Option (Option String)) (id : String)
  deriving DecidableEq

/-- What a handler that succeeds answers. -/
inductive MockAnswer where
  | created (rule : MockRule)
  | updated (rule : MockRule)
  | deleted
  deriving DecidableEq

/-- What a handler does to the map. -/
inductive MockChange where
  | create (rule : MockRule)
  | update (rule : MockRule)
  | delete (id : String)
  deriving DecidableEq

/-- The map and the file. -/
structure MockDesk where
  rules : Table MockRuleState
  file : Option Json

/-- A change of the map and the answer that goes with it, unless the rule is not
there. -/
def MockChange.apply (rules : Table MockRuleState) :
    MockChange → Option (Table MockRuleState × MockAnswer)
  | .create rule => some (rules.put ⟨rule, 0⟩, .created rule)
  | .update rule =>
    (rules.find? rule.id).map fun entry => (rules.put { entry with rule }, .updated rule)
  | .delete id =>
    (rules.find? id).map fun _ => (rules.filter fun entry => entry.rule.id ≠ id, .deleted)

inductive MockPhase where
  | idle
  /-- Waiting for the lock to change the map. -/
  | changing (change : MockChange)
  /-- The map is changed; waiting for the lock to take a snapshot. -/
  | changed (answer : MockAnswer)
  /-- About to write a snapshot to the file. -/
  | saving (rules : List MockRule) (answer : MockAnswer)
  | answered (answer : MockAnswer)
  | refused (status : Nat) (message : String)
  /-- The client went away while the handler was waiting. -/
  | dropped
  deriving DecidableEq

def MockPhase.isRunning : MockPhase → Bool
  | .idle | .answered _ | .refused .. | .dropped => false
  | .changing _ | .changed _ | .saving .. => true

def MockPhase.isSaving : MockPhase → Bool
  | .saving .. => true
  | _ => false

/-- How writing the file fails. A write that fails may leave anything in the file. -/
inductive SaveFault where
  | createDir (message : String)
  | write (left : Option Json) (message : String)

inductive MockMove where
  | arrive (request : MockRequest)
  | lock
  | save (fault : Option SaveFault)
  | drop

/-- A handler's way to the lock; `uuid` is the id its request draws. -/
def MockRequest.arrive (isMethod : String → Bool) (uuid : String) : MockRequest → MockPhase
  | .createMockRule protocolVersion input =>
    match (checkProtocolVersion protocolVersion).or (validateMockRule isMethod input) with
    | some (status, message) => .refused status message
    | none => .changing (.create (input.rule uuid))
  | .updateMockRule protocolVersion id input =>
    match (checkProtocolVersion protocolVersion).or (validateMockRule isMethod input) with
    | some (status, message) => .refused status message
    | none => .changing (.update (input.rule id))
  | .deleteMockRule protocolVersion id =>
    match checkProtocolVersion protocolVersion with
    | some (status, message) => .refused status message
    | none => .changing (.delete id)

/-- Write a snapshot to the file. -/
def persistMockRules (rules : List MockRule) (answer : MockAnswer) (desk : MockDesk) :
    Option SaveFault → MockDesk × MockPhase
  | none => ({ desk with file := some ((Codec.list MockRule.codec).write rules) }, .answered answer)
  | some (.createDir message) => (desk, .refused 500 message)
  | some (.write left message) => ({ desk with file := left }, .refused 500 message)

/-- How a handler goes on. -/
def MockMove.advance (isMethod : String → Bool) (uuid : String) :
    MockMove → MockDesk → MockPhase → Option (MockDesk × MockPhase)
  | .arrive request, desk, .idle => some (desk, request.arrive isMethod uuid)
  | .lock, desk, .changing change =>
    match change.apply desk.rules with
    | none => some (desk, .refused 404 "mock rule not found")
    | some (rules, answer) => some ({ desk with rules }, .changed answer)
  | .lock, desk, .changed answer =>
    some (desk, .saving (desk.rules.rows.map MockRuleState.rule) answer)
  | .save fault, desk, .saving rules answer => some (persistMockRules rules answer desk fault)
  | .drop, desk, .changing _ | .drop, desk, .changed _ => some (desk, .dropped)
  | _, _, _ => none

section Handlers

variable {ι : Type} [DecidableEq ι]

/-- The agent: its mock rules and a handler for each request. -/
abbrev MockAgent (ι : Type) := Tasks ι MockDesk MockPhase

/-- `uuid` gives the id that each request would draw. -/
def mockStep (isMethod : String → Bool) (uuid : ι → String) (action : ι × MockMove)
    (agent : MockAgent ι) : Option (MockAgent ι) :=
  agent.step (fun i move => move.advance isMethod (uuid i)) action.1 action.2

def MockAgent.opened (file : Option Json) : MockAgent ι :=
  Tasks.start ⟨loadMockRules file, file⟩ .idle

/-- The step in which a handler gets the lock to change the map. -/
def MockMove.changes : MockMove → MockPhase → Bool
  | .lock, .changing _ => true
  | _, _ => false

/-- A write fails, or a client goes away between a change and its snapshot. -/
def MockMove.fails : MockMove → MockPhase → Bool
  | .save (some _), _ | .drop, .changed _ => true
  | _, _ => false

/-- No step fails, and none changes the map while another handler is about to write a
snapshot. -/
def Unhindered (agent : MockAgent ι) (action : ι × MockMove) : Prop :=
  action.2.fails (agent.phase action.1) = false ∧
    (action.2.changes (agent.phase action.1) = true → ∀ j, (agent.phase j).isSaving = false)

instance [Fintype ι] (agent : MockAgent ι) (action : ι × MockMove) :
    Decidable (Unhindered agent action) :=
  inferInstanceAs (Decidable (_ ∧ (_ → ∀ _, _)))

/-- The file decodes to the rules of the map. -/
def MockDesk.Persisted (desk : MockDesk) : Prop :=
  ∀ id, ((loadMockRules desk.file).find? id).map MockRuleState.rule =
    (desk.rules.find? id).map MockRuleState.rule

/-! ## The file follows the map -/

/-- Rules that were written are read back; nobody has hit them yet. -/
theorem find?_loadMockRules (rules : Table MockRuleState) (id : String) :
    ((loadMockRules (some ((Codec.list MockRule.codec).write
      (rules.rows.map MockRuleState.rule)))).find? id).map MockRuleState.rule =
      (rules.find? id).map MockRuleState.rule := by
  have hloaded : loadMockRules (some ((Codec.list MockRule.codec).write
      (rules.rows.map MockRuleState.rule))) =
      rules.updateWhere (fun _ => true) (fun entry => { entry with hits := 0 })
        fun _ => by rfl := by
    rw [← Table.collect_rows (rules.updateWhere _ _ _), loadMockRules, Option.bind_some,
      (Codec.list MockRule.codec).read_write, Option.getD_some, Table.rows_updateWhere,
      List.map_map]
    rfl
  rw [hloaded, Table.find?_updateWhere]
  cases rules.find? id <;> rfl

variable {isMethod : String → Bool} {uuid : ι → String} {agent agent' : MockAgent ι} {i j : ι}

/-- A handler that has changed the map and will write a snapshot of it. -/
def MockPhase.isPending : MockPhase → Bool
  | .changed _ | .saving .. => true
  | _ => false

/-- A handler that has changed the map and has not failed. -/
def MockPhase.hasChanged : MockPhase → Bool
  | .changed _ | .saving .. | .answered _ => true
  | .idle | .changing _ | .refused .. | .dropped => false

variable {phase : MockPhase}

theorem isPending_of_hasChanged (h : phase.hasChanged = false) : phase.isPending = false := by
  cases phase with
  | changed _ | saving _ _ | answered _ => cases h
  | idle | changing _ | refused _ _ | dropped => rfl

/-- What holds of the agent at all times: a snapshot that is about to be written is the
map's, and a file that is behind the map is about to be written. -/
structure Saved (agent : MockAgent ι) : Prop where
  saving : ∀ i rules answer, agent.phase i = .saving rules answer →
    rules = agent.shared.rules.rows.map MockRuleState.rule
  stored : agent.shared.Persisted ∨ ∃ i, (agent.phase i).isPending = true

theorem arrive_isPending (isMethod : String → Bool) (uuid : String) (request : MockRequest) :
    (request.arrive isMethod uuid).isPending = false := by
  cases request with
  | createMockRule protocolVersion input | updateMockRule protocolVersion _ input =>
    rw [MockRequest.arrive]
    cases (checkProtocolVersion protocolVersion).or (validateMockRule isMethod input) <;> rfl
  | deleteMockRule protocolVersion id =>
    rw [MockRequest.arrive]
    cases checkProtocolVersion protocolVersion <;> rfl

variable {next : MockDesk × MockPhase}

/-- What a step does: it leaves the map and the file before the handler has changed
anything, or it changes the map, or it takes a snapshot, or it writes one, or the client
goes away. -/
theorem mock_advance_cases {uuid : String} {move : MockMove} {desk : MockDesk}
    (h : move.advance isMethod uuid desk phase = some next) :
    (next.1 = desk ∧ phase.hasChanged = false ∧ next.2.isPending = false) ∨
    (∃ change rules answer, move = .lock ∧ phase = .changing change ∧
      change.apply desk.rules = some (rules, answer) ∧
      next = ({ desk with rules }, .changed answer)) ∨
    (∃ answer, move = .lock ∧ phase = .changed answer ∧
      next = (desk, .saving (desk.rules.rows.map MockRuleState.rule) answer)) ∨
    (∃ fault rules answer, move = .save fault ∧ phase = .saving rules answer ∧
      next = persistMockRules rules answer desk fault) ∨
    ∃ answer, move = .drop ∧ phase = .changed answer ∧ next = (desk, .dropped) := by
  cases move with
  | arrive request =>
    cases phase with
    | idle =>
      cases h
      exact Or.inl ⟨rfl, rfl, arrive_isPending isMethod uuid request⟩
    | changing _ | changed _ | saving _ _ | answered _ | refused _ _ | dropped => cases h
  | lock =>
    cases phase with
    | changing change =>
      cases hchange : change.apply desk.rules with
      | none =>
        simp only [MockMove.advance, hchange] at h
        cases h
        exact Or.inl ⟨rfl, rfl, rfl⟩
      | some changed =>
        simp only [MockMove.advance, hchange] at h
        cases h
        exact Or.inr (Or.inl ⟨change, changed.1, changed.2, rfl, rfl, hchange, rfl⟩)
    | changed answer =>
      cases h
      exact Or.inr (Or.inr (Or.inl ⟨answer, rfl, rfl, rfl⟩))
    | idle | saving _ _ | answered _ | refused _ _ | dropped => cases h
  | save fault =>
    cases phase with
    | saving rules answer =>
      cases h
      exact Or.inr (Or.inr (Or.inr (Or.inl ⟨fault, rules, answer, rfl, rfl, rfl⟩)))
    | idle | changing _ | changed _ | answered _ | refused _ _ | dropped => cases h
  | drop =>
    cases phase with
    | changing change =>
      cases h
      exact Or.inl ⟨rfl, rfl, rfl⟩
    | changed answer =>
      cases h
      exact Or.inr (Or.inr (Or.inr (Or.inr ⟨answer, rfl, rfl, rfl⟩)))
    | idle | saving _ _ | answered _ | refused _ _ | dropped => cases h

theorem isPending_move (hfree : (agent.phase i).isPending = false)
    (hj : (agent.phase j).isPending = true) : ((agent.move i next).phase j).isPending = true := by
  have hne : j ≠ i := by
    intro heq
    rw [heq, hfree] at hj
    cases hj
  rw [Tasks.phase_move_of_ne hne]
  exact hj

omit [DecidableEq ι] in
theorem saved_opened (file : Option Json) : Saved (MockAgent.opened file : MockAgent ι) where
  saving _ _ _ h := by cases h
  stored := Or.inl fun _ => rfl

namespace Saved

theorem rests (h : Saved agent) {phase : MockPhase} (hbefore : (agent.phase i).isPending = false)
    (hafter : phase.isPending = false) : Saved (agent.move i (agent.shared, phase)) where
  saving j rules answer hj := by
    rcases Tasks.phase_move_cases hj with ⟨-, hnow⟩ | ⟨-, hold⟩
    · rw [show phase = .saving rules answer from hnow] at hafter
      cases hafter
    · exact h.saving j rules answer hold
  stored := by
    rcases h.stored with hfile | ⟨j, hj⟩
    · exact Or.inl hfile
    · exact Or.inr ⟨j, isPending_move hbefore hj⟩

variable {answer : MockAnswer}

/-- A change while no snapshot is about to be written. -/
theorem changes {rules : Table MockRuleState} (halone : ∀ j, (agent.phase j).isSaving = false) :
    Saved (agent.move i ({ agent.shared with rules }, .changed answer)) where
  saving j snapshot answer' hj := by
    rcases Tasks.phase_move_cases hj with ⟨-, hnow⟩ | ⟨-, hold⟩
    · cases hnow
    · have hnone := halone j
      rw [hold] at hnone
      cases hnone
  stored := Or.inr ⟨i, by rw [Tasks.phase_move_self]; rfl⟩

theorem snapshots (h : Saved agent) :
    Saved (agent.move i
      (agent.shared, .saving (agent.shared.rules.rows.map MockRuleState.rule) answer)) where
  saving j rules answer' hj := by
    rcases Tasks.phase_move_cases hj with ⟨-, hnow⟩ | ⟨-, hold⟩
    · cases hnow
      rfl
    · exact h.saving j rules answer' hold
  stored := Or.inr ⟨i, by rw [Tasks.phase_move_self]; rfl⟩

theorem writes (h : Saved agent) {rules : List MockRule} {answer : MockAnswer}
    (hi : agent.phase i = .saving rules answer) :
    Saved (agent.move i (persistMockRules rules answer agent.shared none)) where
  saving j rules' answer' hj := by
    rcases Tasks.phase_move_cases hj with ⟨-, hnow⟩ | ⟨-, hold⟩
    · cases hnow
    · exact h.saving j rules' answer' hold
  stored := by
    apply Or.inl
    intro id
    rw [h.saving i rules answer hi]
    exact find?_loadMockRules agent.shared.rules id

theorem step (h : Saved agent) {action : ι × MockMove} (hunhindered : Unhindered agent action)
    (hstep : mockStep isMethod uuid action agent = some agent') : Saved agent' := by
  rw [mockStep, Tasks.step_eq_some_iff] at hstep
  have ⟨next, hnext, heq⟩ := hstep
  subst heq
  rcases mock_advance_cases hnext with ⟨hdesk, hbefore, hafter⟩ |
    ⟨change, rules, answer, hmove, hi, -, hnext⟩ | ⟨answer, -, -, hnext⟩ |
    ⟨fault, rules, answer, hmove, hi, hnext⟩ | ⟨answer, hmove, hi, -⟩
  · rw [show next = (agent.shared, next.2) from Prod.ext hdesk rfl]
    exact h.rests (isPending_of_hasChanged hbefore) hafter
  · rw [Unhindered, hmove, hi] at hunhindered
    rw [hnext]
    exact Saved.changes (hunhindered.2 rfl)
  · rw [hnext]
    exact h.snapshots
  · rw [Unhindered, hmove, hi] at hunhindered
    cases fault with
    | none =>
      rw [hnext]
      exact h.writes hi
    | some fault => cases hunhindered.1
  · rw [Unhindered, hmove, hi] at hunhindered
    cases hunhindered.1

end Saved

/-! ## Errors -/

/-- An unhindered step leaves the map and the file unless its handler has then changed
the map, and a handler that has changed the map goes on to succeed. -/
theorem mock_step_own {action : ι × MockMove} (hunhindered : Unhindered agent action)
    (hstep : mockStep isMethod uuid action agent = some agent') :
    (agent'.shared = agent.shared ∨ (agent'.phase action.1).hasChanged = true) ∧
      ((agent.phase action.1).hasChanged = true →
        (agent'.phase action.1).hasChanged = true) := by
  rw [mockStep, Tasks.step_eq_some_iff] at hstep
  have ⟨next, hnext, heq⟩ := hstep
  subst heq
  rw [Tasks.phase_move_self]
  rcases mock_advance_cases hnext with ⟨hdesk, hbefore, -⟩ |
    ⟨change, rules, answer, -, -, -, hnext⟩ | ⟨answer, -, -, hnext⟩ |
    ⟨fault, rules, answer, hmove, hi, hnext⟩ | ⟨answer, hmove, hi, -⟩
  · refine ⟨Or.inl hdesk, fun hchanged => ?_⟩
    rw [hbefore] at hchanged
    cases hchanged
  · rw [hnext]
    exact ⟨Or.inr rfl, fun _ => rfl⟩
  · rw [hnext]
    exact ⟨Or.inr rfl, fun _ => rfl⟩
  · rw [Unhindered, hmove, hi] at hunhindered
    cases fault with
    | none =>
      rw [hnext]
      exact ⟨Or.inr rfl, fun _ => rfl⟩
    | some fault => cases hunhindered.1
  · rw [Unhindered, hmove, hi] at hunhindered
    cases hunhindered.1

variable {actions : List (ι × MockMove)}

/-- A handler that has changed the map does not fail. -/
theorem hasChanged_of_perform (hrun : perform (mockStep isMethod uuid) actions agent = some agent')
    (hsteps : EveryStep (mockStep isMethod uuid) (fun s a _ => Unhindered s a) actions agent)
    (hchanged : (agent.phase i).hasChanged = true) : (agent'.phase i).hasChanged = true := by
  apply (hsteps.follows hrun).invariant hchanged
  intro before action after hbefore hunhindered hstep
  by_cases hi : action.1 = i
  · subst hi
    exact (mock_step_own hunhindered hstep).2 hbefore
  · rw [mockStep, Tasks.step_eq_some_iff] at hstep
    have ⟨next, _, heq⟩ := hstep
    rw [heq, Tasks.phase_move_of_ne (Ne.symm hi)]
    exact hbefore

/-- The steps of a handler that fails leave the map and the file. -/
theorem everyStep_of_refused (hrun : perform (mockStep isMethod uuid) actions agent = some agent')
    (hsteps : EveryStep (mockStep isMethod uuid) (fun s a _ => Unhindered s a) actions agent)
    (hfails : (agent'.phase i).hasChanged = false) :
    EveryStep (mockStep isMethod uuid) (fun s a t => a.1 = i → t.shared = s.shared) actions
      agent := by
  induction actions generalizing agent with
  | nil => trivial
  | cons action rest ih =>
    obtain ⟨mid, hmid, hrest⟩ := Option.bind_eq_some_iff.mp hrun
    have ⟨hunhindered, hsteps'⟩ := (EveryStep.cons_of_some hmid).mp hsteps
    rw [EveryStep.cons_of_some hmid]
    refine ⟨fun hi => ?_, ih hrest hsteps'⟩
    subst hi
    rcases (mock_step_own hunhindered hmid).1 with hsame | hchanged
    · exact hsame
    · rw [hasChanged_of_perform hrest hsteps' hchanged] at hfails
      cases hfails

/-- In every run whose steps are unhindered, the file holds the rules of the map once
all handlers have finished, and no step of a handler that answers with an error has
changed the map or the file. -/
theorem mock_rules_persisted {file : Option Json} {actions : List (ι × MockMove)}
    (hrun : perform (mockStep isMethod uuid) actions (MockAgent.opened file) = some agent)
    (hsteps : EveryStep (mockStep isMethod uuid) (fun s a _ => Unhindered s a) actions
      (MockAgent.opened file)) :
    ((∀ i, (agent.phase i).isRunning = false) → agent.shared.Persisted) ∧
      ∀ i status message, agent.phase i = .refused status message →
        EveryStep (mockStep isMethod uuid) (fun s a t => a.1 = i → t.shared = s.shared) actions
          (MockAgent.opened file) := by
  constructor
  · intro hquiet
    have hsaved : Saved agent := by
      apply (hsteps.follows hrun).invariant
      · exact saved_opened file
      · intro before action after hbefore hunhindered hstep
        exact hbefore.step hunhindered hstep
    rcases hsaved.stored with hfile | ⟨i, hi⟩
    · exact hfile
    · have hstill := hquiet i
      cases hphase : agent.phase i with
      | changed _ | saving _ _ =>
        rw [hphase] at hstill
        cases hstill
      | idle | changing _ | answered _ | refused _ _ | dropped =>
        rw [hphase] at hi
        cases hi
  · intro i status message hi
    apply everyStep_of_refused hrun hsteps
    rw [hi]
    rfl

end Handlers

def helloRule : CreateMockRule where
  name := "hello"
  method := "get"
  path := "hello"
  status := 200
  headers := ∅
  body := "hello"
  delayMs := 0
  errorEvery := none
  priority := 0
  wsMessages := []
  wsEcho := false
  wsIntervalMs := 0

/-- The ids two handlers draw. -/
def ruleIds (handler : Bool) : String := if handler then "b" else "a"

def rulesAgent : MockAgent Bool := MockAgent.opened none

def isGet (method : String) : Bool := method = "get"

/-- Two handlers create a rule each; the second one changes the map when the first one
has written its snapshot. -/
def orderlyMocks : List (Bool × MockMove) :=
  [(false, .arrive (.createMockRule none helloRule)),
    (true, .arrive (.createMockRule none helloRule)), (false, .lock), (false, .lock),
    (false, .save none), (true, .lock), (true, .lock), (true, .save none)]

theorem mock_rules_persisted_orderly :
    ∃ agent, perform (mockStep isGet ruleIds) orderlyMocks rulesAgent = some agent ∧
      agent.shared.Persisted := by
  have hquiet : (perform (mockStep isGet ruleIds) orderlyMocks rulesAgent).map
      (fun agent => decide (∀ i, (agent.phase i).isRunning = false)) = some true := by
    decide +kernel
  have ⟨agent, hagent, hstill⟩ := Option.map_eq_some_iff.mp hquiet
  have hsteps : EveryStep (mockStep isGet ruleIds) (fun s a _ => Unhindered s a) orderlyMocks
      rulesAgent := by decide +kernel
  exact ⟨agent, hagent, (mock_rules_persisted hagent hsteps).1 (of_decide_eq_true hstill)⟩

/-- The first handler has its snapshot before the second one changes the map, and
writes it after the second one has written. -/
def overtakenMocks : List (Bool × MockMove) :=
  [(false, .arrive (.createMockRule none helloRule)),
    (true, .arrive (.createMockRule none helloRule)), (false, .lock), (false, .lock),
    (true, .lock), (true, .lock), (true, .save none), (false, .save none)]

/-- Both handlers succeed, and the file lacks the second rule. -/
theorem mock_rule_lost :
    ∃ agent, Follows (mockStep isGet ruleIds) (fun _ _ => True) rulesAgent agent ∧
      (∀ i, (agent.phase i).isRunning = false) ∧ ¬ agent.shared.Persisted := by
  have hrun : (perform (mockStep isGet ruleIds) overtakenMocks rulesAgent).map
      (fun agent => (decide (∀ i, (agent.phase i).isRunning = false),
        ((loadMockRules agent.shared.file).find? "b").isSome,
        (agent.shared.rules.find? "b").isSome)) = some (true, false, true) := by decide +kernel
  have ⟨agent, hagent, heq⟩ := Option.map_eq_some_iff.mp hrun
  have ⟨hstill, hfound⟩ := Prod.mk.inj heq
  have ⟨hfile, hmap⟩ := Prod.mk.inj hfound
  refine ⟨agent, follows_of_perform hagent, of_decide_eq_true hstill, fun hpersisted => ?_⟩
  have hsame := congrArg Option.isSome (hpersisted "b")
  rw [Option.isSome_map, Option.isSome_map, hfile, hmap] at hsame
  cases hsame

end ApiVoy.Hosts
