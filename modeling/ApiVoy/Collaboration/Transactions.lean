/-
# Service calls as transactions

A call of the service is one transaction. It checks the caller's membership,
reads rows and prepares its own in memory, flushes them, returns and commits; its
writes become visible at the commit, together, if nothing committed in between
makes them fail. Any number of transactions take their steps in any order, and
each may fail at any point before it is committed.

Subscribers of an organization are told of changes: a push registers its event to
be published after the commit, the operations on comments publish theirs before
they return. An emitter that has completed may still be subscribed; to send to it is
an exception, which ends the publishing and goes on to the caller.
-/

import ApiVoy.Collaboration.Domain
import ApiVoy.Foundation.Interleaving
import Mathlib.Logic.Function.Basic

namespace ApiVoy.Collaboration

open Foundation

/-! ## Calls -/

inductive Method where
  | push (baseRevision : Int) (document patch : Option Json)
  | addComment (parentId body : Option String)
  | editComment (commentId : String) (body : Option String)
  | resolveComment (commentId : String) (resolved : Bool)
  deriving DecidableEq

structure Call where
  actor : String
  organizationId : String
  workspaceId : String
  method : Method
  deriving DecidableEq

/-- The least role that may call a method. -/
def Method.minimum : Method → Role
  | .push .. => .editor
  | .addComment .. => .viewer
  | .editComment .. => .viewer
  | .resolveComment .. => .editor

/-- What a call has prepared to be written. -/
inductive Work where
  | workspace (isNew : Bool) (state : WorkspaceState) (change : WorkspaceChange)
  | comment (isNew : Bool) (row : WorkspaceComment) (action : String)
  deriving DecidableEq

/-- The ids and the time a call draws. -/
structure Draw where
  rowId : String
  changeId : String
  now : Instant
  deriving DecidableEq

/-! ## Preparing -/

/-- The state a push starts from: the row that was read, or a new one. -/
def startState (call : Call) (draw : Draw) : Option WorkspaceState → WorkspaceState
  | some state => state
  | none => {
      id := draw.rowId
      entityVersion := 0
      organizationId := call.organizationId
      workspaceId := call.workspaceId
      revision := 0
      documentJson := .obj []
      updatedBy := call.actor
      updatedAt := draw.now }

def preparePush (call : Call) (draw : Draw) (baseRevision : Int) (document patch : Option Json)
    (db : Database) : ServiceResult Work :=
  let found := findState db call.organizationId call.workspaceId
  let state := startState call draw found
  if state.revision ≠ baseRevision then
    .error (.revisionConflict state.revision state.documentJson)
  else
    let row : WorkspaceState := { state with
      revision := state.revision + 1
      documentJson := write document
      updatedBy := call.actor
      updatedAt := draw.now }
    .ok (.workspace found.isNone row {
      id := draw.changeId
      organizationId := call.organizationId
      workspaceId := call.workspaceId
      revision := row.revision
      patchJson := write patch
      actorId := call.actor
      createdAt := draw.now })

/-- The comment a reply belongs to is one of the same workspace. -/
def checkParent (call : Call) (parentId : Option String) (db : Database) : ServiceResult Unit :=
  match parentId with
  | none => .ok ()
  | some parentId =>
    match db.comments.find? fun c => c.id = parentId with
    | none => .error (.responseStatus .notFound "parent comment not found")
    | some parent =>
      if parent.organizationId = call.organizationId ∧ parent.workspaceId = call.workspaceId then
        .ok ()
      else .error (.responseStatus .badRequest "parent comment belongs to another workspace")

def prepareAddComment (call : Call) (draw : Draw) (parentId body : Option String)
    (db : Database) : ServiceResult Work := do
  let text ← commentBody body
  checkParent call parentId db
  pure (.comment true {
    id := draw.rowId
    organizationId := call.organizationId
    workspaceId := call.workspaceId
    actorId := call.actor
    parentId
    body := text
    resolvedAt := none
    resolvedBy := none
    createdAt := draw.now
    updatedAt := draw.now } "created")

/-- Only the author or an administrator may change the text. -/
def prepareEditComment (call : Call) (draw : Draw) (member : Membership) (commentId : String)
    (body : Option String) (db : Database) : ServiceResult Work := do
  let comment ← findComment db call.organizationId call.workspaceId commentId
  if comment.actorId ≠ call.actor ∧ rank member.role > rank .admin then
    .error (.responseStatus .forbidden "only the author or an admin can edit this comment")
  else do
    let text ← commentBody body
    pure (.comment false { comment with body := text, updatedAt := draw.now } "edited")

def prepareResolveComment (call : Call) (draw : Draw) (commentId : String) (resolved : Bool)
    (db : Database) : ServiceResult Work := do
  let comment ← findComment db call.organizationId call.workspaceId commentId
  pure (.comment false { comment with
    resolvedAt := if resolved then some draw.now else none
    resolvedBy := if resolved then some call.actor else none
    updatedAt := draw.now } (if resolved then "resolved" else "reopened"))

def prepare (call : Call) (member : Membership) (draw : Draw) (db : Database) :
    ServiceResult Work :=
  match call.method with
  | .push baseRevision document patch => preparePush call draw baseRevision document patch db
  | .addComment parentId body => prepareAddComment call draw parentId body db
  | .editComment commentId body => prepareEditComment call draw member commentId body db
  | .resolveComment commentId resolved => prepareResolveComment call draw commentId resolved db

/-- The writes of a transaction, all or none. -/
def Work.apply (work : Work) (db : Database) : ServiceResult Database :=
  match work with
  | .workspace isNew state change => saveState isNew state db >>= saveChange change
  | .comment isNew row _ => saveComment isNew row db

/-! ## The server -/

inductive Phase where
  | idle
  | called (call : Call)
  | authorized (call : Call) (member : Membership)
  | prepared (call : Call) (work : Work)
  /-- A push has written its state row. -/
  | stateFlushed (call : Call) (work : Work)
  /-- The method is at its end; the transaction is still to be committed. -/
  | returned (call : Call) (work : Work)
  | committed (call : Call) (work : Work)
  /-- A push whose event was published. -/
  | announced (call : Call) (work : Work)
  /-- A push that is committed and ends with the exception of its publishing. -/
  | interrupted (call : Call) (work : Work)
  | aborted (call : Call) (error : ServiceError)
  deriving DecidableEq

inductive Event where
  | workspaceChanged (workspaceId : String) (revision : Int) (actorId : String)
  | commentChanged (workspaceId commentId action actorId : String)
  deriving DecidableEq

/-- An event sent to a subscriber, with the transaction that published it. -/
structure Delivery where
  emitter : Nat
  transaction : Nat
  organizationId : String
  event : Event
  deriving DecidableEq

structure Server where
  db : Database
  /-- How far each transaction is. -/
  phase : Nat → Phase
  subscribers : List (String × Nat)
  /-- The emitters that have completed and are not taken out yet. -/
  completed : List Nat
  delivered : List Delivery
  /-- The committed transactions in the order of their commits; no step reads it. -/
  log : List (Nat × Call × Work)

def Server.start (db : Database) : Server where
  db := db
  phase _ := .idle
  subscribers := []
  completed := []
  delivered := []
  log := []

namespace Server

def set (s : Server) (t : Nat) (phase : Phase) : Server :=
  { s with phase := Function.update s.phase t phase }

/-- The emitters of an organization, in the order they are sent to. -/
def emitters (s : Server) (organizationId : String) : List Nat :=
  (s.subscribers.filter fun sub => sub.1 = organizationId).map Prod.snd

/-- Send an event to the subscribers of an organization, up to the first one that has
completed. -/
def publish (s : Server) (t : Nat) (organizationId : String) (event : Event) : Server :=
  { s with
    delivered := s.delivered ++ ((s.emitters organizationId).takeWhile (· ∉ s.completed)).map
      fun emitter => ⟨emitter, t, organizationId, event⟩ }

/-- Does publishing end without an exception? -/
def publishes (s : Server) (organizationId : String) : Bool :=
  (s.emitters organizationId).all (· ∉ s.completed)

/-- Go on with a result; an error ends the transaction. -/
def proceed {α : Type} (s : Server) (t : Nat) (call : Call) (result : ServiceResult α)
    (next : α → Server) : Server :=
  match result with
  | .ok a => next a
  | .error e => s.set t (.aborted call e)

end Server

/-! ## Steps -/

inductive Action where
  | call (t : Nat) (call : Call)
  | authorize (t : Nat)
  | prepare (t : Nat) (draw : Draw)
  | flushState (t : Nat)
  | flushChange (t : Nat)
  | publishComment (t : Nat)
  | commit (t : Nat)
  | announce (t : Nat)
  | fail (t : Nat)
  | subscribe (actor organizationId : String) (emitter : Nat)
  /-- An emitter times out, fails or is closed. -/
  | complete (emitter : Nat)
  | unsubscribe (emitter : Nat)
  /-- The operations on members commit elsewhere. -/
  | changeMembers (memberships : List Membership)
  deriving DecidableEq

/-- The transaction a step belongs to. -/
def Action.transaction : Action → Option Nat
  | .call t _ | .authorize t | .prepare t _ | .flushState t | .flushChange t
  | .publishComment t | .commit t | .announce t | .fail t => some t
  | .subscribe .. | .complete _ | .unsubscribe _ | .changeMembers _ => none

/-- A transaction that can still fail, with its call. -/
def Phase.active : Phase → Option Call
  | .called call | .authorized call _ | .prepared call _ | .stateFlushed call _
  | .returned call _ => some call
  | .idle | .committed .. | .announced .. | .interrupted .. | .aborted .. => none

def step (action : Action) (s : Server) : Option Server :=
  match action with
  | .call t call =>
    match s.phase t with
    | .idle => some (s.set t (.called call))
    | _ => none
  | .authorize t =>
    match s.phase t with
    | .called call =>
      some (s.proceed t call
        (require s.db.memberships call.actor call.organizationId call.method.minimum)
        fun member => s.set t (.authorized call member))
    | _ => none
  | .prepare t draw =>
    match s.phase t with
    | .authorized call member =>
      some (s.proceed t call (prepare call member draw s.db)
        fun work => s.set t (.prepared call work))
    | _ => none
  | .flushState t =>
    match s.phase t with
    | .prepared call (.workspace isNew state change) =>
      some (s.proceed t call (saveState isNew state s.db)
        fun _ => s.set t (.stateFlushed call (.workspace isNew state change)))
    | _ => none
  | .flushChange t =>
    match s.phase t with
    | .stateFlushed call work =>
      some (s.proceed t call (work.apply s.db) fun _ => s.set t (.returned call work))
    | _ => none
  | .publishComment t =>
    match s.phase t with
    | .prepared call (.comment isNew row action) =>
      some ((s.set t (if s.publishes call.organizationId then
          .returned call (.comment isNew row action)
        else .aborted call .failure)).publish t
        call.organizationId (.commentChanged call.workspaceId row.id action call.actor))
    | _ => none
  | .commit t =>
    match s.phase t with
    | .returned call work =>
      some (s.proceed t call (work.apply s.db) fun db =>
        { s.set t (.committed call work) with db, log := s.log ++ [(t, call, work)] })
    | _ => none
  | .announce t =>
    match s.phase t with
    | .committed call (.workspace isNew state change) =>
      some ((s.set t (if s.publishes call.organizationId then
          .announced call (.workspace isNew state change)
        else .interrupted call (.workspace isNew state change))).publish t
        call.organizationId
        (.workspaceChanged call.workspaceId state.revision call.actor))
    | _ => none
  | .fail t =>
    match (s.phase t).active with
    | some call => some (s.set t (.aborted call .failure))
    | none => none
  | .subscribe actor organizationId emitter =>
    match require s.db.memberships actor organizationId .viewer with
    | .ok _ => some { s with subscribers := s.subscribers ++ [(organizationId, emitter)] }
    | .error _ => none
  | .complete emitter => some { s with completed := emitter :: s.completed }
  | .unsubscribe emitter =>
    some { s with
      subscribers := s.subscribers.filter fun sub => sub.2 ≠ emitter
      completed := s.completed.filter (· ≠ emitter) }
  | .changeMembers memberships => some { s with db := { s.db with memberships } }

/-! ## What a step can do -/

/-- The writes a transaction holds before its commit. -/
def Phase.pending : Phase → Option (Call × Work)
  | .prepared call work | .stateFlushed call work | .returned call work => some (call, work)
  | .idle | .called _ | .authorized .. | .committed .. | .announced .. | .interrupted ..
  | .aborted .. => none

/-- The writes a transaction has committed. -/
def Phase.settled : Phase → Option (Call × Work)
  | .committed call work | .announced call work | .interrupted call work => some (call, work)
  | .idle | .called _ | .authorized .. | .prepared .. | .stateFlushed .. | .returned ..
  | .aborted .. => none

/-- The tables of the workspaces and the log are untouched, and so are the writes
of the transactions, except that one of them may lose its own. -/
structure Quiet (s s' : Server) : Prop where
  states : s'.db.states = s.db.states
  changes : s'.db.changes = s.db.changes
  log : s'.log = s.log
  pending : ∀ u held, (s'.phase u).pending = some held → (s.phase u).pending = some held
  settled : ∀ u, (s'.phase u).settled = (s.phase u).settled

/-- A transaction has read the tables and holds writes now. -/
structure Prepares (t : Nat) (call : Call) (work : Work) (s s' : Server) : Prop where
  before : (s.phase t).settled = none
  result : ∃ member draw, prepare call member draw s.db = .ok work
  after : s' = s.set t (.prepared call work)

/-- A transaction commits the writes it holds. -/
structure Commits (t : Nat) (call : Call) (work : Work) (s s' : Server) : Prop where
  before : s.phase t = .returned call work
  after : ∃ db, work.apply s.db = .ok db ∧
    s' = { s.set t (.committed call work) with db, log := s.log ++ [(t, call, work)] }

@[simp]
theorem phase_set (s : Server) (t : Nat) (phase : Phase) :
    (s.set t phase).phase = Function.update s.phase t phase := rfl

@[simp]
theorem phase_publish (s : Server) (t : Nat) (organizationId : String) (event : Event) :
    (s.publish t organizationId event).phase = s.phase := rfl

variable {t : Nat}

/-- A transaction that moves on with the writes it holds, or loses them. -/
theorem quiet_set {s : Server} {phase : Phase}
    (hpending : ∀ held, phase.pending = some held → (s.phase t).pending = some held)
    (hsettled : phase.settled = (s.phase t).settled) : Quiet s (s.set t phase) where
  states := rfl
  changes := rfl
  log := rfl
  pending u held := by
    rw [phase_set, Function.update_apply]
    by_cases hu : u = t
    · subst hu
      simpa using hpending held
    · simp [hu]
  settled u := by
    rw [phase_set, Function.update_apply]
    by_cases hu : u = t
    · subst hu
      simpa using hsettled
    · simp [hu]

variable {s s' : Server}

theorem quiet_publish (h : Quiet s s') (t : Nat) (organizationId : String) (event : Event) :
    Quiet s (s'.publish t organizationId event) :=
  ⟨h.states, h.changes, h.log, h.pending, h.settled⟩

theorem quiet_aborted {s : Server} (hsettled : (s.phase t).settled = none) (call : Call)
    (e : ServiceError) : Quiet s (s.set t (.aborted call e)) :=
  quiet_set (by simp [Phase.pending]) hsettled.symm

theorem proceed_cases {α : Type} {call : Call} {result : ServiceResult α} {next : α → Server}
    (hsettled : (s.phase t).settled = none) (h : some (s.proceed t call result next) = some s') :
    Quiet s s' ∨ ∃ a, result = .ok a ∧ next a = s' := by
  cases result with
  | error e =>
    cases h
    exact Or.inl (quiet_aborted hsettled call e)
  | ok a => exact Or.inr ⟨a, rfl, Option.some.inj h⟩

variable {action : Action}

/-- Every step is quiet, prepares writes or commits them. -/
theorem step_cases (h : step action s = some s') :
    Quiet s s' ∨ (∃ t call work, action.transaction = some t ∧ Prepares t call work s s') ∨
      ∃ t call work, action.transaction = some t ∧ Commits t call work s s' := by
  cases action with
  | call t call =>
    simp only [step] at h
    split at h
    · rename_i hphase
      cases h
      exact Or.inl (quiet_set (by simp [Phase.pending]) (by simp [Phase.settled, hphase]))
    · cases h
  | authorize t =>
    simp only [step] at h
    split at h
    · rename_i call hphase
      have hsettled : (s.phase t).settled = none := by rw [hphase]; rfl
      rcases proceed_cases hsettled h with hquiet | ⟨member, hresult, rfl⟩
      · exact Or.inl hquiet
      · exact Or.inl (quiet_set (by simp [Phase.pending]) (by simp [Phase.settled, hphase]))
    · cases h
  | prepare t draw =>
    simp only [step] at h
    split at h
    · rename_i call member hphase
      have hsettled : (s.phase t).settled = none := by rw [hphase]; rfl
      rcases proceed_cases hsettled h with hquiet | ⟨work, hresult, rfl⟩
      · exact Or.inl hquiet
      · exact Or.inr (Or.inl ⟨t, call, work, rfl, hsettled, ⟨member, draw, hresult⟩, rfl⟩)
    · cases h
  | flushState t =>
    simp only [step] at h
    split at h
    · rename_i call isNew state change hphase
      have hsettled : (s.phase t).settled = none := by rw [hphase]; rfl
      rcases proceed_cases hsettled h with hquiet | ⟨db, hresult, rfl⟩
      · exact Or.inl hquiet
      · exact Or.inl (quiet_set (by simp [Phase.pending, hphase])
          (by simp [Phase.settled, hphase]))
    · cases h
  | flushChange t =>
    simp only [step] at h
    split at h
    · rename_i call work hphase
      have hsettled : (s.phase t).settled = none := by rw [hphase]; rfl
      rcases proceed_cases hsettled h with hquiet | ⟨db, hresult, rfl⟩
      · exact Or.inl hquiet
      · exact Or.inl (quiet_set (by simp [Phase.pending, hphase])
          (by simp [Phase.settled, hphase]))
    · cases h
  | publishComment t =>
    simp only [step] at h
    split at h
    · rename_i call isNew row action hphase
      cases h
      refine Or.inl (quiet_publish ?_ _ _ _)
      split
      · exact quiet_set (by simp [Phase.pending, hphase]) (by simp [Phase.settled, hphase])
      · exact quiet_aborted (by rw [hphase]; rfl) _ _
    · cases h
  | commit t =>
    simp only [step] at h
    split at h
    · rename_i call work hphase
      have hsettled : (s.phase t).settled = none := by rw [hphase]; rfl
      rcases proceed_cases hsettled h with hquiet | ⟨db, hresult, rfl⟩
      · exact Or.inl hquiet
      · exact Or.inr (Or.inr ⟨t, call, work, rfl, hphase, db, hresult, rfl⟩)
    · cases h
  | announce t =>
    simp only [step] at h
    split at h
    · rename_i call isNew state change hphase
      cases h
      refine Or.inl (quiet_publish ?_ _ _ _)
      split <;> exact quiet_set (by simp [Phase.pending]) (by simp [Phase.settled, hphase])
    · cases h
  | fail t =>
    simp only [step] at h
    cases hphase : s.phase t <;> simp only [hphase, Phase.active] at h <;> cases h <;>
      exact Or.inl (quiet_aborted (by rw [hphase]; rfl) _ _)
  | subscribe actor organizationId emitter =>
    simp only [step] at h
    split at h
    · cases h
      exact Or.inl ⟨rfl, rfl, rfl, fun _ _ hheld => hheld, fun _ => rfl⟩
    · cases h
  | complete emitter | unsubscribe emitter | changeMembers memberships =>
    cases h
    exact Or.inl ⟨rfl, rfl, rfl, fun _ _ hheld => hheld, fun _ => rfl⟩

/-- What a transaction has committed stays. -/
theorem settled_step (h : step action s = some s') {u : Nat} {held : Call × Work}
    (hheld : (s.phase u).settled = some held) : (s'.phase u).settled = some held := by
  rcases step_cases h with hquiet | ⟨t, call, work, -, hprepares⟩ | ⟨t, call, work, -, hcommits⟩
  · rw [hquiet.settled, hheld]
  · obtain ⟨hbefore, -, rfl⟩ := hprepares
    have hne : u ≠ t := by
      rintro rfl
      rw [hbefore] at hheld
      cases hheld
    simpa [Function.update_apply, hne] using hheld
  · obtain ⟨hbefore, db, -, rfl⟩ := hcommits
    have hne : u ≠ t := by
      rintro rfl
      rw [hbefore] at hheld
      cases hheld
    simpa [Function.update_apply, hne] using hheld

/-! ## Runs -/

/-- A database before the first push: any members and comments. -/
def Unpushed (db : Database) : Prop := db.states = [] ∧ db.changes = []

/-- The states of all runs. -/
def Reached (s : Server) : Prop :=
  ∃ db, Unpushed db ∧ Follows step (fun _ _ => True) (Server.start db) s

end ApiVoy.Collaboration
