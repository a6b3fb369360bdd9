/-
# The SQL driver

A statement of the user is sent on one connection, and when the request asks for a transaction
it is put between BEGIN and COMMIT or ROLLBACK. The statement races against cancellation and
a time limit. What the database and the clock do is fixed beforehand, so that a statement about
every database is one about every way in which a run can go.
-/

import ApiVoy.Drivers.Session
import ApiVoy.Foundation.Text

namespace ApiVoy.Drivers

open Foundation Domain Engine

namespace Sql

/-! ## Requests -/

structure SqlRequest where
  url : String
  sql : String
  parameters : List Json
  transactional : Bool
  rowLimit : Nat
  deriving DecidableEq

/-- What the driver takes from the library for URLs. -/
structure UrlLibrary (Url : Type) where
  parse : String → Except String Url
  scheme : Url → String
  queryPairs : Url → List (String × String)
  appendPair : String → String → Url → Url
  setUsername : String → Url → Option Url
  setPassword : String → Url → Option Url
  render : Url → String

/-- The value of a raw payload may be wrapped. -/
def rawValue (payload : Json) : Json := (payload.get "value").getD payload

section Decoding

variable {Url : Type} (urls : UrlLibrary Url)

/-- A connection to MySQL is encrypted. -/
def requireTls (url : Url) : Except DriverError Url :=
  let modes := ((urls.queryPairs url).filter fun pair =>
    eqIgnoreAsciiCase pair.1 "ssl-mode" || eqIgnoreAsciiCase pair.1 "sslmode").map Prod.snd
  if urls.scheme url ≠ "mysql" then .ok url
  else if modes = [] then .ok (urls.appendPair "ssl-mode" "REQUIRED" url)
  else if modes.any (fun mode => !(["REQUIRED", "VERIFY_CA", "VERIFY_IDENTITY"].contains
      (String.ofList (mode.toList.map Char.toUpper)))) = true then
    .error (.validation
      "MySQL connections must use ssl-mode=REQUIRED, VERIFY_CA, or VERIFY_IDENTITY")
  else .ok url

def addUsername (value : Json) (url : Url) : Except DriverError Url :=
  match value.textOf "username" with
  | none => .ok url
  | some username =>
    match urls.setUsername username url with
    | some url => .ok url
    | none => .error (.validation "invalid SQL username")

def addPassword (request : RequestEnvelope) (value : Json) (url : Url) : Except DriverError Url :=
  match value.textOf "passwordRef" with
  | none => .ok url
  | some secretRef =>
    match request.runtimeSecrets.lookup secretRef with
    | none => .error (.validation ("SQL password secret `" ++ secretRef ++ "` is unavailable"))
    | some password =>
      match urls.setPassword password url with
      | some url => .ok url
      | none => .error (.validation "invalid SQL password")

def decode (codecs : Codecs) (request : RequestEnvelope) : Except DriverError SqlRequest :=
  match request.payload with
  | .raw payload => do
    let value := rawValue payload
    let url ← match urls.parse request.target with
      | .ok url => .ok url
      | .error e => .error (.validation ("invalid SQL target: " ++ e))
    if !(["postgres", "postgresql", "mysql", "sqlite"].contains (urls.scheme url)) then
      .error (.validation "SQL target must use postgres://, mysql://, or sqlite://")
    else
      let url ← requireTls urls url
      let url ← if urls.scheme url ≠ "sqlite" then
          (addUsername urls value url).bind (addPassword urls request value)
        else .ok url
      return {
        url := urls.render url
        sql := ((value.get "sql").bind Json.asStr).getD ""
        parameters := ((value.get "parameters").bind Json.asArray).getD []
        transactional := ((value.get "transactional").bind Json.asBool).getD false
        rowLimit := min (max ((codecs.u64 value "rowLimit").getD 500) 1) 10000 }
  | _ => .error (.validation "SQL requires raw payload")

variable {urls} in
/-- A payload that was decoded: where its URL and its limit come from. -/
theorem exists_of_decode {codecs : Codecs} {request : RequestEnvelope} {payload : SqlRequest}
    (h : decode urls codecs request = .ok payload) :
    ∃ value parsed secured url, request.payload = .raw value ∧
      urls.parse request.target = .ok parsed ∧ requireTls urls parsed = .ok secured ∧
      (if urls.scheme secured ≠ "sqlite" then
        (addUsername urls (rawValue value) secured).bind (addPassword urls request (rawValue value))
      else .ok secured) = .ok url ∧ payload.url = urls.render url ∧ 0 < payload.rowLimit := by
  rw [decode] at h
  split at h
  case h_2 => cases h
  case h_1 value hpayload =>
    dsimp only at h
    cases hparse : urls.parse request.target with
    | error e =>
      rw [hparse] at h
      cases h
    | ok parsed =>
      rw [hparse] at h
      change (if _ then _ else _) = Except.ok payload at h
      split at h
      · cases h
      · obtain ⟨secured, hsecured, h⟩ := bind_eq_ok_iff.mp h
        refine ⟨value, parsed, secured, ?_⟩
        split at h
        case isTrue hscheme =>
          obtain ⟨url, hurl, h⟩ := bind_eq_ok_iff.mp h
          cases h
          refine ⟨url, hpayload, rfl, hsecured, ?_, rfl, ?_⟩
          · rw [if_pos hscheme]
            exact hurl
          · dsimp only
            omega
        case isFalse hscheme =>
          cases h
          refine ⟨secured, hpayload, rfl, hsecured, ?_, rfl, ?_⟩
          · rw [if_neg hscheme]
          · dsimp only
            omega

end Decoding

/-! ## Statements -/

/-- Is a number an integer of 64 bits with a sign? -/
def isI64 (q : Rat) : Bool := decide (q.den = 1 ∧ -(2 ^ 63) ≤ q.num ∧ q.num < 2 ^ 63)

/-- The parameters are bound one after the other; an integer beyond the signed ones cannot be. -/
def bind : List Json → Except DriverError Unit
  | [] => .ok ()
  | .num q :: rest =>
    if !isI64 q && (Json.asU64 (.num q)).isSome then
      .error (.validation "SQL unsigned parameter exceeds i64")
    else bind rest
  | _ :: rest => bind rest

/-- Does a statement return rows? -/
def queryLike (sql : String) : Bool :=
  let word := (sql.toList.dropWhile isWhitespace).takeWhile fun c => !isWhitespace c
  ["SELECT", "WITH", "SHOW", "EXPLAIN", "PRAGMA", "DESCRIBE", "DESC", "VALUES"].contains
    (String.ofList (word.map Char.toUpper))

/-- A column of a row: its name and type, and what it reads as in each type. -/
structure Column where
  name : String
  typeName : String
  bool : Option Bool
  int : Option Int
  float : Option Rat
  bytes : Option Bytes
  text : Option String
  deriving DecidableEq

/-- The value of a cell, by the name of its type. -/
def cell (codecs : Codecs) (column : Column) : Json :=
  let name := column.typeName.toList.map Char.toUpper
  let hasAny (parts : List String) : Bool := parts.any fun part => occursIn part.toList name
  if hasAny ["BOOL"] then (column.bool.map Json.bool).getD .null
  else if hasAny ["INT", "SERIAL"] then (column.int.map fun n => Json.num n).getD .null
  else if hasAny ["REAL", "FLOAT", "DOUBLE", "NUMERIC", "DECIMAL"] then
    (column.float.map Json.num).getD .null
  else if hasAny ["BYTE", "BLOB", "BINARY"] then
    (column.bytes.map fun bytes => .obj [("base64", .str (codecs.encodeBase64 bytes))]).getD .null
  else
    (column.text.map Json.str).getD (.obj [("unsupportedType", .str (String.ofList name))])

/-- The members of an object are in the order of their names, and a name has one value. -/
def insertMember (name : String) (value : Json) : List (String × Json) → List (String × Json)
  | [] => [(name, value)]
  | (other, old) :: rest =>
    if name = other then (name, value) :: rest
    else if textLe name.toList other.toList then (name, value) :: (other, old) :: rest
    else (other, old) :: insertMember name value rest

def rowMembers (codecs : Codecs) (columns : List Column) : List (String × Json) :=
  columns.foldl (fun members column => insertMember column.name (cell codecs column) members) []

/-! ## The database -/

inductive Connecting where
  | connected
  | failed (message : String)
  | timedOut
  | cancelled
  deriving DecidableEq

/-- What comes of waiting for a row; when there is nothing more to come the rows have ended. -/
inductive Fetched where
  | row (columns : List Column)
  | failed (message : String)
  deriving DecidableEq

inductive Interruption where
  | cancelled
  | timedOut
  deriving DecidableEq

/-- What is sent on a connection: a statement of the user, or the bracket around it. -/
inductive Command where
  | start
  | statement (sql : String)
  | commit
  | rollback
  deriving DecidableEq

structure Sent where
  command : Command
  succeeded : Bool
  deriving DecidableEq

/-- A database with all that it will answer. An interruption comes after a number of polls of
the statement: after none the statement has not begun, else it waits for an answer. -/
structure Database where
  connecting : Connecting
  acquiring : Except String Unit
  beginning : Except String Unit
  rows : List Fetched
  executing : Except String (UInt64 × Option Int)
  interruption : Option (Nat × Interruption)
  committing : Except String Unit
  rollingBack : Except String Unit
  log : List Sent

def isOk {ε α : Type} : Except ε α → Bool
  | .ok _ => true
  | .error _ => false

def Database.polls (db : Database) : Option Nat := db.interruption.map Prod.fst

def Database.note (db : Database) (command : Command) (succeeded : Bool) : Database :=
  { db with log := db.log ++ [⟨command, succeeded⟩] }

section Running

variable (codecs : Codecs)

/-- Fetch rows up to the limit; `none` when the statement is interrupted. -/
def fetchRows (limit : Nat) (polls : Option Nat) (output : List (List (String × Json))) :
    List Fetched → Option (Except DriverError (List (List (String × Json))))
  | [] =>
    if output.length < limit ∧ polls = some 1 then none else some (.ok output)
  | fetched :: rest =>
    if output.length < limit then
      if polls = some 1 then none
      else
        match fetched with
        | .failed message => some (.error (.protocol message))
        | .row columns =>
          fetchRows limit (polls.map Nat.pred) (output ++ [rowMembers codecs columns]) rest
    else some (.ok output)

def queryValue (payload : SqlRequest) (output : List (List (String × Json))) : Json :=
  .obj [("columns", .arr ((output.head?.getD []).map fun member => .str member.1)),
    ("rows", .arr (output.map Json.obj)),
    ("truncated", .bool (output.length = payload.rowLimit))]

def executedValue (result : UInt64 × Option Int) : Json :=
  .obj [("lastInsertId", (result.2.map fun id => Json.num id).getD .null),
    ("rowsAffected", .num (result.1.toNat : Rat))]

/-- What comes of the statement; `none` when it is interrupted. -/
def operation (payload : SqlRequest) (db : Database) : Option (Except DriverError Json) :=
  if db.polls = some 0 then none
  else
    match bind payload.parameters with
    | .error e => some (.error e)
    | .ok () =>
      if queryLike payload.sql = true then
        (fetchRows codecs payload.rowLimit db.polls [] db.rows).map
          (Except.map (queryValue payload))
      else if db.polls = some 1 then none
      else some (match db.executing with
        | .ok result => .ok (executedValue result)
        | .error message => .error (.protocol message))

abbrev SqlM := DriverM Database

/-- Send a command of the bracket. -/
def send (command : Command) (answer : Database → Except String Unit) : SqlM Unit := do
  match ← askPeer fun db => (answer db, db.note command (isOk (answer db))) with
  | .ok () => return ()
  | .error message => Fallible.fail (.protocol message)

def connect : SqlM Unit := do
  match ← askPeer fun db => (db.connecting, db) with
  | .connected => return ()
  | .failed message => Fallible.fail (.protocol message)
  | .timedOut => Fallible.fail (.timeout "SQL connection timed out")
  | .cancelled => Fallible.fail .cancelled

def acquire : SqlM Unit := do
  match ← askPeer fun db => (db.acquiring, db) with
  | .ok () => return ()
  | .error message => Fallible.fail (.protocol message)

/-- The connection after the statement, which is sent unless it is interrupted before or its
parameters cannot be bound. -/
def noteStatement (payload : SqlRequest) (db : Database) : Database :=
  if db.polls ≠ some 0 ∧ isOk (bind payload.parameters) = true then
    db.note (.statement payload.sql) ((operation codecs payload db).any isOk)
  else db

/-- The statement against cancellation and the time limit. At the time limit the whole run is
left at once. -/
def race (payload : SqlRequest) : SqlM (Except DriverError Json) := do
  match ← askPeer fun db => (operation codecs payload db, noteStatement codecs payload db) with
  | some outcome => return outcome
  | none =>
    match ← askPeer fun db => (db.interruption, db) with
    | some (_, .timedOut) => Fallible.fail (.timeout "SQL query timed out")
    | _ => return .error .cancelled

def responseMeta : ExecutionEvent :=
  .responseMeta ⟨none, some "SQL connection open", [], some "application/json", none⟩

def responseChunk (preview : String) : ExecutionEvent :=
  .responseChunk (some "application/json") (UInt64.ofNat (utf8 preview).length) (some preview)
    (some (codecs.encodeBase64 (utf8 preview))) true

/-- The end of a run that has its result. -/
def report (info : RunInfo) (request : RequestEnvelope) (value : Json) : SqlM ExecutionSummary := do
  let preview := codecs.pretty value
  emit (responseChunk codecs preview)
  let summary := completedSummary info request request.protocolId (utf8 preview).length none
  emit (.completed summary)
  return summary

variable {Url : Type} (urls : UrlLibrary Url)

def execute (info : RunInfo) (request : RequestEnvelope) : SqlM ExecutionSummary := do
  let payload ← Session.ofExcept (decode urls codecs request)
  emit (running .connect)
  connect
  acquire
  if payload.transactional = true then send .start Database.beginning
  emit responseMeta
  emit (running .transfer)
  match ← race codecs payload with
  | .ok value => do
    if payload.transactional = true then send .commit Database.committing
    report codecs info request value
  | .error e => do
    if payload.transactional = true then Fallible.ignore (send .rollback Database.rollingBack)
    Fallible.fail e

end Running

/-! ## The bracket around a statement -/

section Bracket

variable {codecs : Codecs}

/-- Is a command the end of a transaction? -/
def Command.isClosing : Command → Bool
  | .commit | .rollback => true
  | _ => false

/-- The statement is interrupted by the time limit. -/
def TimesOut (codecs : Codecs) (payload : SqlRequest) (db : Database) : Prop :=
  operation codecs payload db = none ∧ ∃ polls, db.interruption = some (polls, .timedOut)

/-- The statement has a result. -/
def succeeds (codecs : Codecs) (payload : SqlRequest) (db : Database) : Bool :=
  (operation codecs payload db).any isOk

/-- A run has ended the transaction as the last thing that it sent, once, and returns a summary
only behind a COMMIT that succeeded. -/
structure Bracketed (succeeded : Bool) (final : Except DriverError ExecutionSummary × Session Database) :
    Prop where
  closing : ∃ before ok, final.2.peer.log =
      before ++ [⟨if succeeded = true then .commit else .rollback, ok⟩] ∧
    ∀ sent ∈ before, sent.command.isClosing = false
  committed : ∀ summary, final.1 = .ok summary → ⟨.commit, true⟩ ∈ final.2.peer.log

theorem log_noteStatement (codecs : Codecs) (payload : SqlRequest) (db : Database)
    (h : ∀ sent ∈ db.log, sent.command.isClosing = false) :
    ∀ sent ∈ (noteStatement codecs payload db).log, sent.command.isClosing = false := by
  rw [noteStatement]
  split
  · rw [Database.note, List.forall_mem_append]
    exact ⟨h, List.forall_mem_singleton.mpr rfl⟩
  · exact h

theorem run_send (command : Command) (answer : Database → Except String Unit)
    (session : Session Database) :
    (send command answer).run session =
      ((match answer session.peer with
        | .ok () => .ok ()
        | .error message => .error (.protocol message)),
        { session with peer := session.peer.note command (isOk (answer session.peer)) }) := by
  rw [send, Fallible.run_bind, run_askPeer]
  dsimp only
  cases answer session.peer <;> rfl

theorem interruption_noteStatement (payload : SqlRequest) (db : Database) :
    (noteStatement codecs payload db).interruption = db.interruption := by
  rw [noteStatement]
  split <;> rfl

/-- The race ends with what comes of the statement, with its cancellation, or leaves the run. -/
theorem run_race (payload : SqlRequest) (session : Session Database) :
    (race codecs payload).run session =
      ((match operation codecs payload session.peer, session.peer.interruption with
        | some outcome, _ => .ok outcome
        | none, some (_, .timedOut) => .error (.timeout "SQL query timed out")
        | none, _ => .ok (.error .cancelled)),
        { session with peer := noteStatement codecs payload session.peer }) := by
  rw [race, Fallible.run_bind, run_askPeer]
  dsimp only
  cases operation codecs payload session.peer with
  | some outcome => rfl
  | none =>
    dsimp only
    rw [Fallible.run_bind, run_askPeer, interruption_noteStatement]
    dsimp only
    rcases session.peer.interruption with _ | ⟨polls, _ | _⟩ <;> rfl

/-- The end of a transaction after a statement that succeeded or failed. -/
def finish (codecs : Codecs) (info : RunInfo) (request : RequestEnvelope) :
    Except DriverError Json → SqlM ExecutionSummary
  | .ok value => do
    send .commit Database.committing
    report codecs info request value
  | .error e => do
    Fallible.ignore (send .rollback Database.rollingBack)
    Fallible.fail e

theorem log_report (info : RunInfo) (request : RequestEnvelope) (value : Json)
    (session : Session Database) :
    ((report codecs info request value).run session).2.peer.log = session.peer.log := rfl

variable {session : Session Database}

theorem bracketed_finish (info : RunInfo) (request : RequestEnvelope)
    (outcome : Except DriverError Json)
    (hlog : ∀ sent ∈ session.peer.log, sent.command.isClosing = false) :
    Bracketed (isOk outcome) ((finish codecs info request outcome).run session) := by
  cases outcome with
  | ok value =>
    rw [finish, Fallible.run_bind, run_send]
    cases hcommit : session.peer.committing with
    | ok u =>
      refine ⟨⟨session.peer.log, true, rfl, hlog⟩, fun _ _ => ?_⟩
      rw [log_report]
      exact List.mem_append_right _ List.mem_cons_self
    | error message => exact ⟨⟨session.peer.log, false, rfl, hlog⟩, fun _ h => by cases h⟩
  | error e =>
    rw [finish, Fallible.run_bind, Fallible.run_ignore, run_send]
    exact ⟨⟨session.peer.log, _, rfl, hlog⟩, fun _ h => by cases h⟩

/-- What follows the opening of a connection. -/
def afterOpening (codecs : Codecs) (info : RunInfo) (request : RequestEnvelope)
    (payload : SqlRequest) : SqlM ExecutionSummary := do
  emit responseMeta
  emit (running .transfer)
  match ← race codecs payload with
  | .ok value => do
    if payload.transactional = true then send .commit Database.committing
    report codecs info request value
  | .error e => do
    if payload.transactional = true then Fallible.ignore (send .rollback Database.rollingBack)
    Fallible.fail e

variable {payload : SqlRequest} {request : RequestEnvelope} {info : RunInfo}

theorem afterOpening_of_transactional (h : payload.transactional = true) :
    afterOpening codecs info request payload = (do
      emit responseMeta
      emit (running .transfer)
      let outcome ← race codecs payload
      finish codecs info request outcome) := by
  rw [afterOpening]
  congr 1
  funext _
  congr 1
  funext _
  congr 1
  funext outcome
  cases outcome <;> simp only [h, if_true] <;> rfl

/-- Without a time-out the transaction is ended as the statement says; at the time limit it is
left open. -/
theorem bracketed_afterOpening_iff {info : RunInfo} {request : RequestEnvelope}
    {payload : SqlRequest} (htransactional : payload.transactional = true)
    (session : Session Database)
    (hlog : ∀ sent ∈ session.peer.log, sent.command.isClosing = false) :
    Bracketed (succeeds codecs payload session.peer)
        ((afterOpening codecs info request payload).run session) ↔
      ¬TimesOut codecs payload session.peer := by
  have hnoted := log_noteStatement codecs payload session.peer hlog
  rw [afterOpening_of_transactional htransactional, Fallible.run_bind, run_emit]
  dsimp only
  rw [Fallible.run_bind, run_emit]
  dsimp only
  rw [Fallible.run_bind, run_race]
  dsimp only
  cases houtcome : operation codecs payload session.peer with
  | some outcome =>
    have hsucceeds : succeeds codecs payload session.peer = isOk outcome := by
      rw [succeeds, houtcome, Option.any_some]
    rw [hsucceeds]
    refine iff_of_true (bracketed_finish info request outcome hnoted) fun htimes => ?_
    rw [TimesOut, houtcome] at htimes
    cases htimes.1
  | none =>
    have hsucceeds : succeeds codecs payload session.peer = false := by
      rw [succeeds, houtcome, Option.any_none]
    rw [hsucceeds]
    by_cases htimes : ∃ polls, session.peer.interruption = some (polls, .timedOut)
    · obtain ⟨polls, hinterrupted⟩ := htimes
      rw [hinterrupted]
      refine iff_of_false (fun hbracketed => ?_) fun hnot => hnot ⟨houtcome, polls, hinterrupted⟩
      -- The last thing sent is no ROLLBACK, for none was sent.
      obtain ⟨before, ok, hclosed, -⟩ := hbracketed.closing
      have hclosing := hnoted ⟨.rollback, ok⟩ (by
        rw [hclosed]
        exact List.mem_append_right _ List.mem_cons_self)
      cases hclosing
    · have hcancelled : (match none, session.peer.interruption with
          | some outcome, _ => Except.ok outcome
          | none, some (_, .timedOut) => .error (.timeout "SQL query timed out")
          | none, _ => .ok (.error .cancelled) :
          Except DriverError (Except DriverError Json)) = .ok (.error .cancelled) := by
        rcases hinterruption : session.peer.interruption with _ | ⟨polls, _ | _⟩
        · rfl
        · rfl
        · exact absurd ⟨polls, hinterruption⟩ htimes
      rw [hcancelled]
      exact iff_of_true (bracketed_finish info request (.error .cancelled) hnoted)
        fun h => htimes h.2

theorem log_of_not_transactional (codecs : Codecs) (info : RunInfo) (request : RequestEnvelope)
    (htransactional : payload.transactional = false) (session : Session Database) :
    ((afterOpening codecs info request payload).run session).2.peer.log =
      (noteStatement codecs payload session.peer).log := by
  rw [afterOpening, Fallible.run_bind, run_emit]
  dsimp only
  rw [Fallible.run_bind, run_emit]
  dsimp only
  rw [Fallible.run_bind, run_race]
  dsimp only
  rw [htransactional]
  cases operation codecs payload session.peer with
  | some outcome => cases outcome <;> rfl
  | none => rcases session.peer.interruption with _ | ⟨polls, _ | _⟩ <;> rfl

variable {Url : Type} {urls : UrlLibrary Url}

theorem run_connect (session : Session Database) :
    connect.run session =
      ((match session.peer.connecting with
        | .connected => .ok ()
        | .failed message => .error (.protocol message)
        | .timedOut => .error (.timeout "SQL connection timed out")
        | .cancelled => .error .cancelled), session) := by
  rw [connect, Fallible.run_bind, run_askPeer]
  dsimp only
  cases session.peer.connecting <;> rfl

theorem run_acquire (session : Session Database) :
    acquire.run session =
      ((match session.peer.acquiring with
        | .ok () => .ok ()
        | .error message => .error (.protocol message)), session) := by
  rw [acquire, Fallible.run_bind, run_askPeer]
  dsimp only
  cases session.peer.acquiring <;> rfl

/-- A run in which BEGIN succeeded goes on behind it. -/
theorem run_execute_of_began (hdecode : decode urls codecs request = .ok payload)
    (hlog : session.peer.log = [])
    (hbegan : ⟨.start, true⟩ ∈ ((execute codecs urls info request).run session).2.peer.log) :
    payload.transactional = true ∧ ∃ events,
      (execute codecs urls info request).run session =
        (afterOpening codecs info request payload).run ⟨session.peer.note .start true, events⟩ := by
  rw [execute, Fallible.run_bind, run_ofExcept, hdecode] at hbegan ⊢
  dsimp only at hbegan ⊢
  rw [Fallible.run_bind, run_emit] at hbegan ⊢
  dsimp only at hbegan ⊢
  rw [Fallible.run_bind, run_connect] at hbegan ⊢
  dsimp only at hbegan ⊢
  have hempty : (⟨.start, true⟩ : Sent) ∉ session.peer.log := by
    rw [hlog]
    exact List.not_mem_nil
  cases hconnect : session.peer.connecting <;> rw [hconnect] at hbegan
  case failed => exact absurd hbegan hempty
  case timedOut => exact absurd hbegan hempty
  case cancelled => exact absurd hbegan hempty
  dsimp only at hbegan ⊢
  rw [Fallible.run_bind, run_acquire] at hbegan ⊢
  dsimp only at hbegan ⊢
  cases hacquire : session.peer.acquiring with
  | error message =>
    rw [hacquire] at hbegan
    exact absurd hbegan hempty
  | ok u =>
    rw [hacquire] at hbegan
    dsimp only at hbegan ⊢
    obtain ⟨url, sql, parameters, transactional, rowLimit⟩ := payload
    cases transactional with
    | false =>
      exfalso
      have hopened : ⟨.start, true⟩ ∈
          (noteStatement codecs ⟨url, sql, parameters, false, rowLimit⟩ session.peer).log := by
        rw [← log_of_not_transactional codecs info request rfl
          ⟨session.peer, session.events ++ [running .connect]⟩]
        exact hbegan
      rw [noteStatement] at hopened
      split at hopened
      · rw [Database.note, List.mem_append, List.mem_singleton] at hopened
        rcases hopened with hold | hnew
        · exact hempty hold
        · cases hnew
      · exact hempty hopened
    | true =>
      refine ⟨rfl, session.events ++ [running .connect], ?_⟩
      change ⟨.start, true⟩ ∈ ((send .start Database.beginning >>= fun _ =>
        afterOpening codecs info request ⟨url, sql, parameters, true, rowLimit⟩).run
          ⟨session.peer, session.events ++ [running .connect]⟩).2.peer.log at hbegan
      change (send .start Database.beginning >>= fun _ =>
        afterOpening codecs info request ⟨url, sql, parameters, true, rowLimit⟩).run
          ⟨session.peer, session.events ++ [running .connect]⟩ = _
      rw [Fallible.run_bind, run_send] at hbegan ⊢
      dsimp only at hbegan ⊢
      cases hbeginning : session.peer.beginning with
      | error message =>
        rw [hbeginning] at hbegan
        change _ ∈ session.peer.log ++ [⟨.start, false⟩] at hbegan
        rw [hlog, List.nil_append, List.mem_singleton] at hbegan
        cases hbegan
      | ok u => rfl

/-- Once BEGIN has succeeded, the run ends the transaction, with COMMIT if the statement
succeeded and with ROLLBACK if not, exactly when the statement is not interrupted by the time
limit. -/
theorem execute_bracketed_iff {info : RunInfo} {request : RequestEnvelope} {payload : SqlRequest}
    {session : Session Database} (hdecode : decode urls codecs request = .ok payload)
    (hlog : session.peer.log = [])
    (hbegan : ⟨.start, true⟩ ∈ ((execute codecs urls info request).run session).2.peer.log) :
    Bracketed (succeeds codecs payload session.peer)
        ((execute codecs urls info request).run session) ↔
      ¬TimesOut codecs payload session.peer := by
  obtain ⟨htransactional, events, hrun⟩ := run_execute_of_began hdecode hlog hbegan
  have hstarted : ∀ sent ∈ (session.peer.note .start true).log, sent.command.isClosing = false := by
    rw [Database.note, hlog, List.nil_append, List.forall_mem_singleton]
    rfl
  rw [hrun]
  exact bracketed_afterOpening_iff htransactional ⟨session.peer.note .start true, events⟩ hstarted

end Bracket

/-! ### A statement on a sample database -/

def sampleUrls : UrlLibrary String where
  parse url := .ok url
  scheme _ := "sqlite"
  queryPairs _ := []
  appendPair _ _ url := url
  setUsername _ url := some url
  setPassword _ url := some url
  render url := url

def sampleInfo : RunInfo := ⟨"execution", "start", "end", 0⟩

def sampleRequest : RequestEnvelope :=
  { RequestEnvelope.httpGet "request" "now" "SQL" "sqlite::memory:" with
    payload := .raw (.obj [("sql", .str "SELECT 1"), ("transactional", .bool true)]) }

def samplePayload : SqlRequest := ⟨"sqlite::memory:", "SELECT 1", [], true, 500⟩

def sampleDatabase (interruption : Option (Nat × Interruption)) : Database where
  connecting := .connected
  acquiring := .ok ()
  beginning := .ok ()
  rows := [.row [⟨"1", "INTEGER", none, some 1, none, none, none⟩]]
  executing := .ok (0, none)
  interruption := interruption
  committing := .ok ()
  rollingBack := .ok ()
  log := []

/-- A query that is not interrupted is committed. -/
theorem execute_bracketed_sample :
    succeeds Codecs.unused samplePayload (sampleDatabase none) = true ∧
      Bracketed (succeeds Codecs.unused samplePayload (sampleDatabase none))
        ((execute Codecs.unused sampleUrls sampleInfo sampleRequest).run
          ⟨sampleDatabase none, []⟩) := by
  have hdecode : decode sampleUrls Codecs.unused sampleRequest = .ok samplePayload := by decide
  have hbegan : ⟨.start, true⟩ ∈ ((execute Codecs.unused sampleUrls sampleInfo sampleRequest).run
      ⟨sampleDatabase none, []⟩).2.peer.log := by decide
  refine ⟨by decide, (execute_bracketed_iff hdecode rfl hbegan).mpr fun h => ?_⟩
  obtain ⟨polls, hinterrupted⟩ := h.2
  cases hinterrupted

/-- A query that exceeds the time limit leaves the transaction open. -/
theorem execute_bracketed_not :
    ¬∀ (codecs : Codecs) (urls : UrlLibrary String) (info : RunInfo) (request : RequestEnvelope)
      (payload : SqlRequest) (session : Session Database), decode urls codecs request = .ok payload →
      session.peer.log = [] →
      ⟨.start, true⟩ ∈ ((execute codecs urls info request).run session).2.peer.log →
      Bracketed (succeeds codecs payload session.peer)
        ((execute codecs urls info request).run session) := by
  intro h
  have hbracketed := h Codecs.unused sampleUrls sampleInfo sampleRequest samplePayload
    ⟨sampleDatabase (some (1, .timedOut)), []⟩ (by decide) rfl (by decide)
  obtain ⟨before, ok, hclosed, -⟩ := hbracketed.closing
  have hlog : ((execute Codecs.unused sampleUrls sampleInfo sampleRequest).run
      ⟨sampleDatabase (some (1, .timedOut)), []⟩).2.peer.log =
      [⟨.start, true⟩, ⟨.statement "SELECT 1", false⟩] := by decide
  rw [hlog] at hclosed
  have hmem : (⟨.rollback, ok⟩ : Sent) ∈ [⟨.start, true⟩, ⟨.statement "SELECT 1", false⟩] := by
    rw [hclosed]
    exact List.mem_append_right _ List.mem_cons_self
  revert hmem
  cases ok <;> decide

end Sql

end ApiVoy.Drivers
