/-
# The tables of the collaboration server

Users belong to organizations through memberships, each with a role. A workspace
of an organization has one state row, a log of changes and comments.
-/

import ApiVoy.Foundation.Json
import Mathlib.Algebra.GroupWithZero.Nat

namespace ApiVoy.Collaboration

open Foundation

/-! ## Roles -/

inductive Role where
  | owner
  | admin
  | editor
  | runner
  | viewer
  deriving DecidableEq, Repr

/-- The position of a role; a smaller rank may do more. -/
def rank : Role → Nat
  | .owner => 0
  | .admin => 1
  | .editor => 2
  | .runner => 3
  | .viewer => 4

/-! ## Rows -/

/-- A point in time, as it is shown. -/
abbrev Instant := String

structure Membership where
  id : String
  organizationId : String
  userId : String
  role : Role
  deriving DecidableEq

structure WorkspaceState where
  id : String
  /-- Counts the updates of the row: the optimistic lock. -/
  entityVersion : Nat
  organizationId : String
  workspaceId : String
  revision : Int
  documentJson : Json
  updatedBy : String
  updatedAt : Instant
  deriving DecidableEq

structure WorkspaceChange where
  id : String
  organizationId : String
  workspaceId : String
  revision : Int
  patchJson : Json
  actorId : String
  createdAt : Instant
  deriving DecidableEq

structure WorkspaceComment where
  id : String
  organizationId : String
  workspaceId : String
  actorId : String
  parentId : Option String
  body : String
  resolvedAt : Option Instant
  resolvedBy : Option String
  createdAt : Instant
  updatedAt : Instant
  deriving DecidableEq

/-- The committed rows. -/
structure Database where
  memberships : List Membership
  states : List WorkspaceState
  changes : List WorkspaceChange
  comments : List WorkspaceComment
  deriving DecidableEq

/-! ## Errors -/

inductive HttpStatus where
  | badRequest
  | unauthorized
  | forbidden
  | notFound
  | conflict
  deriving DecidableEq, Repr

inductive ServiceError where
  | responseStatus (status : HttpStatus) (reason : String)
  /-- Another revision is current; the client gets it with its document. -/
  | revisionConflict (revision : Int) (document : Json)
  | optimisticLockingFailure
  | dataIntegrityViolation
  /-- Anything else that ends a transaction: a lost connection, a timeout. -/
  | failure
  deriving DecidableEq

abbrev ServiceResult := Except ServiceError

/-! ## Memberships -/

def findMembership (memberships : List Membership) (organizationId userId : String) :
    Option Membership :=
  memberships.find? fun m => m.organizationId = organizationId && m.userId = userId

/-- The membership of a user, when its role is at least the given one. -/
def require (memberships : List Membership) (userId organizationId : String) (minimum : Role) :
    ServiceResult Membership :=
  match findMembership memberships organizationId userId with
  | none => .error (.responseStatus .forbidden "not a member")
  | some m =>
    if rank m.role > rank minimum then
      .error (.responseStatus .forbidden "insufficient role")
    else .ok m

/-! ## Text -/

/-- `String.trim` removes the characters up to the space. -/
def javaTrim (text : String) : String :=
  let blank (c : Char) : Bool := c.toNat ≤ 0x20
  String.ofList ((((text.toList.dropWhile blank).reverse).dropWhile blank).reverse)

/-- `String.length` counts UTF-16 units. -/
def javaLength (text : String) : Nat :=
  (text.toList.map fun c => if 0x10000 ≤ c.toNat then 2 else 1).sum

def commentBody (body : Option String) : ServiceResult String :=
  match body with
  | none => .error (.responseStatus .badRequest "comment body is required")
  | some body =>
    if javaTrim body = "" then .error (.responseStatus .badRequest "comment body is required")
    else if javaLength (javaTrim body) > 4000 then
      .error (.responseStatus .badRequest "comment body exceeds 4000 characters")
    else .ok (javaTrim body)

/-- A document as it is stored; a missing one is the empty object. -/
def write (value : Option Json) : Json := value.getD (.obj [])

/-! ## Reading and writing -/

def findState (db : Database) (organizationId workspaceId : String) : Option WorkspaceState :=
  db.states.find? fun s => s.organizationId = organizationId && s.workspaceId = workspaceId

/-- Save the state of a workspace. A row that was read is updated if its version is
still the one that was read, and counts one version more; a new row is inserted
if its id and its workspace have no row yet. -/
def saveState (isNew : Bool) (row : WorkspaceState) (db : Database) : ServiceResult Database :=
  if isNew then
    if db.states.any fun s => s.id = row.id || (s.organizationId = row.organizationId &&
        s.workspaceId = row.workspaceId) then
      .error .dataIntegrityViolation
    else .ok { db with states := db.states ++ [row] }
  else if db.states.any fun s => s.id = row.id && s.entityVersion = row.entityVersion then
    .ok { db with
      states := db.states.map fun s =>
        if s.id = row.id then { row with entityVersion := row.entityVersion + 1 } else s }
  else .error .optimisticLockingFailure

/-- Append a change; a workspace has one change for a revision. -/
def saveChange (row : WorkspaceChange) (db : Database) : ServiceResult Database :=
  if db.changes.any fun c => c.id = row.id || (c.organizationId = row.organizationId &&
      c.workspaceId = row.workspaceId && c.revision = row.revision) then
    .error .dataIntegrityViolation
  else .ok { db with changes := db.changes ++ [row] }

def findComment (db : Database) (organizationId workspaceId commentId : String) :
    ServiceResult WorkspaceComment :=
  match db.comments.find? fun c => c.id = commentId with
  | none => .error (.responseStatus .notFound "comment not found")
  | some c =>
    if c.organizationId = organizationId ∧ c.workspaceId = workspaceId then .ok c
    else .error (.responseStatus .notFound "comment not found")

/-- Insert a new comment or update the one that was read; comments have no version. -/
def saveComment (isNew : Bool) (row : WorkspaceComment) (db : Database) :
    ServiceResult Database :=
  if isNew then
    if db.comments.any fun c => c.id = row.id then .error .dataIntegrityViolation
    else .ok { db with comments := db.comments ++ [row] }
  else .ok { db with comments := db.comments.map fun c => if c.id = row.id then row else c }

end ApiVoy.Collaboration
