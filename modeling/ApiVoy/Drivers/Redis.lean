/-
# The Redis driver

The driver writes all commands of a request at once, those that authenticate and select the
database before those of the user, and then reads one reply for each of them. A reply to the
former that is an error ends the run.
-/

import ApiVoy.Drivers.Resp

namespace ApiVoy.Drivers

open Foundation Domain Engine

namespace Redis

/-! ## Requests -/

structure RedisRequest where
  username : Option String
  password : Option String
  database : Option Nat
  commands : List (List String)
  deriving DecidableEq

/-- The value of a raw payload may be wrapped. -/
def rawValue (payload : Json) : Json := (payload.get "value").getD payload

def decodeArgument (argument : Json) : Except DriverError String :=
  match argument.asStr with
  | some text => .ok text
  | none => .error (.validation "Redis command arguments must be strings")

def decodeCommand (command : Json) : Except DriverError (List String) :=
  match command.asArray with
  | some arguments => arguments.mapM decodeArgument
  | none => .error (.validation "each Redis command must be an array")

def decodePassword (request : RequestEnvelope) (value : Json) :
    Except DriverError (Option String) :=
  match value.textOf "passwordRef" with
  | none => .ok none
  | some secretRef =>
    match request.runtimeSecrets.lookup secretRef with
    | some password => .ok (some password)
    | none => .error (.validation ("Redis password secret `" ++ secretRef ++ "` is unavailable"))

def decodeRequest (codecs : Codecs) (request : RequestEnvelope) : Except DriverError RedisRequest :=
  match request.payload with
  | .raw payload => do
    let value := rawValue payload
    let commands ← match (value.get "commands").bind Json.asArray with
      | some commands => commands.mapM decodeCommand
      | none => .error (.validation "Redis commands are required")
    let password ← decodePassword request value
    return {
      username := value.textOf "username"
      password := password
      database := codecs.u64 value "database"
      commands := commands }
  | _ => .error (.validation "Redis requires a raw payload")

/-- The host and the port of a target. -/
def address (target : String) : Except DriverError String :=
  let scheme := "redis://".toList
  let withoutScheme :=
    if scheme.isPrefixOf target.toList then target.toList.drop scheme.length else target.toList
  let authority := withoutScheme.takeWhile (· ≠ '/')
  let host := (authority.reverse.takeWhile (· ≠ '@')).reverse
  if host = [] then .error (.validation "Redis target is required")
  else if ':' ∈ host then .ok (String.ofList host)
  else .ok (String.ofList host ++ ":6379")

/-- The commands that come before those of the user. -/
def RedisRequest.setup (request : RedisRequest) : List (List String) :=
  (match request.password with
    | some password => [match request.username with
        | some username => ["AUTH", username, password]
        | none => ["AUTH", password]]
    | none => []) ++
  (match request.database with
    | some database => [["SELECT", toString database]]
    | none => [])

/-! ## Reading -/

/-- The connection with what has been read from it and is not parsed yet. -/
structure Connection where
  socket : Socket
  buffer : Bytes

def Connection.ask {α : Type} (ask : Socket → α × Socket) (connection : Connection) :
    α × Connection :=
  ((ask connection.socket).1, { connection with socket := (ask connection.socket).2 })

abbrev RedisM := DriverM Connection

def maxBuffered : Nat := 64 * 1024 * 1024

def connectionClosed : DriverError :=
  .protocol "Redis connection closed before a complete response"

def setBuffer (buffer : Bytes) : RedisM Unit :=
  askPeer fun connection => ((), { connection with buffer := buffer })

section Reading

variable (codecs : Codecs)

/-- Read until there is a frame. Every arrival is used up by one of the rounds. -/
def readFrameWithin : Nat → RedisM Json
  | 0 => Fallible.fail connectionClosed
  | rounds + 1 => do
    let buffer ← askPeer fun connection => (connection.buffer, connection)
    match parseFrame codecs buffer with
    | .error e => Fallible.fail e
    | .ok (some (value, used)) => do
      setBuffer (buffer.drop used)
      return value
    | .ok none =>
      match ← askPeer (Connection.ask Socket.receive) with
      | .cancelled => Fallible.fail .cancelled
      | .timedOut => Fallible.fail (.timeout "Redis response timed out")
      | .failed message => Fallible.fail (.connection message)
      | .data [] => Fallible.fail connectionClosed
      | .data (byte :: bytes) => do
        setBuffer (buffer ++ byte :: bytes)
        if maxBuffered < (buffer ++ byte :: bytes).length then
          Fallible.fail (.protocol "Redis response exceeds 64 MiB")
        else readFrameWithin rounds

def readFrame : RedisM Json := fun session =>
  (readFrameWithin codecs (session.peer.socket.arrivals.length + 1)).run session

/-- A reply that says that its command has failed. -/
def isErrorValue (value : Json) : Bool := (value.get "type").bind Json.asStr = some "error"

def setupFailed (value : Json) : DriverError :=
  .protocol ("Redis setup failed: " ++
    ((value.get "value").bind Json.asStr).getD "unknown error")

/-- Read the replies to the commands of the user. -/
def userReplies : Nat → RedisM (List Json)
  | 0 => return []
  | commands + 1 => do
    let value ← readFrame codecs
    let responses ← userReplies commands
    return value :: responses

/-- Read the replies to the setup commands that are left, and then those to the commands of
the user. -/
def replyLoop : Nat → Nat → RedisM (List Json)
  | 0, commands => userReplies codecs commands
  | setup + 1, commands => do
    let value ← readFrame codecs
    if isErrorValue value = true then Fallible.fail (setupFailed value)
    else replyLoop setup commands

/-- The bytes of commands that are written at once. -/
def outgoing (commands : List (List String)) : Bytes := commands.flatMap encodeCommand

def writeCommands (commands : List (List String)) : RedisM Unit := do
  match ← askPeer (Connection.ask (Socket.send (outgoing commands))) with
  | .sent => return ()
  | .failed _ message => Fallible.fail (.connection message)
  | .cancelled _ => Fallible.fail .cancelled

def connect : RedisM Unit := fun session => (session.peer.socket.connecting, session)

def responseMeta : ExecutionEvent :=
  .responseMeta ⟨none, none, [], some "application/x-redis-resp", none⟩

def responseChunk (preview : String) : ExecutionEvent :=
  .responseChunk (some "application/json") (UInt64.ofNat (utf8 preview).length) (some preview)
    (some (codecs.encodeBase64 (utf8 preview))) true

/-- The end of a run that has all its replies. -/
def report (info : RunInfo) (request : RequestEnvelope) (responses : List Json) :
    RedisM ExecutionSummary := do
  let preview := codecs.pretty (.arr responses)
  emit (responseChunk codecs preview)
  let summary := completedSummary info request request.protocolId (utf8 preview).length none
  emit (.completed summary)
  return summary

def execute (info : RunInfo) (request : RequestEnvelope) : RedisM ExecutionSummary := do
  let payload ← Session.ofExcept (decodeRequest codecs request)
  let _ ← Session.ofExcept (address request.target)
  emit (running .connect)
  connect
  writeCommands (payload.setup ++ payload.commands)
  emit responseMeta
  emit (running .transfer)
  let responses ← replyLoop codecs payload.setup.length payload.commands.length
  report codecs info request responses

end Reading

/-! ## Pieces of a stream -/

/-- The bytes that an arrival brings. -/
def bytesOf : Arrival → Bytes
  | .data bytes => bytes
  | .failed _ | .timedOut | .cancelled => []

/-- What has not been parsed: what is in the buffer and what has still to come. -/
def Connection.unread (connection : Connection) : Bytes :=
  connection.buffer ++ connection.socket.arrivals.flatMap bytesOf

/-- The peer sends the given pieces and closes the connection. -/
def Connection.Feeds (connection : Connection) (reads : List Bytes) : Prop :=
  connection.buffer = [] ∧ connection.socket.arrivals = reads.map .data

/-- Nothing but bytes is to come, and the driver takes them all. -/
structure Connection.Flowing (connection : Connection) : Prop where
  bytes : ∀ arrival ∈ connection.socket.arrivals, ∃ byte rest, arrival = .data (byte :: rest)
  fits : connection.unread.length ≤ maxBuffered

variable {connection : Connection}

variable {reads : List Bytes}

theorem Connection.Feeds.unread (h : connection.Feeds reads) :
    connection.unread = reads.flatten := by
  rw [Connection.unread, h.1, h.2, List.nil_append, List.flatMap_map, ← List.flatMap_id]
  rfl

theorem Connection.Feeds.flowing (h : connection.Feeds reads) (hreads : ∀ bytes ∈ reads, bytes ≠ [])
    (hlimit : reads.flatten.length ≤ maxBuffered) : connection.Flowing where
  bytes := by
    intro arrival hmem
    rw [h.2] at hmem
    obtain ⟨bytes, hbytes, rfl⟩ := List.mem_map.mp hmem
    obtain ⟨byte, rest, rfl⟩ := List.exists_cons_of_ne_nil (hreads bytes hbytes)
    exact ⟨byte, rest, rfl⟩
  fits := by rwa [h.unread]

/-- What a reader makes of what the parser says about the whole stream: without a frame the
stream has come to its end. -/
def readOf : Except DriverError (Option (Json × Nat)) → Except DriverError Json × Nat
  | .error e => (.error e, 0)
  | .ok none => (.error connectionClosed, 0)
  | .ok (some (value, used)) => (.ok value, used)

section Pieces

variable {codecs : Codecs}

variable {session : Session Connection}

theorem readFrameWithin_of_flowing {rounds : Nat}
    (hrounds : session.peer.socket.arrivals.length < rounds) (hflowing : session.peer.Flowing) :
    ∃ session', (readFrameWithin codecs rounds).run session =
        ((readOf (parseFrame codecs session.peer.unread)).1, session') ∧
      session'.peer.unread =
        session.peer.unread.drop (readOf (parseFrame codecs session.peer.unread)).2 ∧
      session'.peer.Flowing ∧ session'.events = session.events := by
  induction rounds generalizing session with
  | zero => omega
  | succ rounds ih =>
    have hstable := stable_parseFrame codecs
    rw [readFrameWithin]
    simp only [Fallible.run_bind, run_askPeer]
    cases hparse : parseFrame codecs session.peer.buffer with
    | error e =>
      have hwhole : parseFrame codecs session.peer.unread = .error e :=
        hstable.error_append hparse _
      rw [hwhole]
      exact ⟨session, rfl, rfl, hflowing, rfl⟩
    | ok found =>
      cases found with
      | some frame =>
        obtain ⟨value, used⟩ := frame
        have hwhole : parseFrame codecs session.peer.unread = .ok (some (value, used)) :=
          hstable.frame_append hparse _
        have hused := hstable.used_le hparse
        have hdrop : session.peer.unread.drop used = session.peer.buffer.drop used ++
            session.peer.socket.arrivals.flatMap bytesOf :=
          List.drop_append_of_le_length hused
        rw [hwhole]
        refine ⟨_, rfl, hdrop.symm, ⟨hflowing.bytes, ?_⟩, rfl⟩
        have hfits := hflowing.fits
        have hlength := congrArg List.length hdrop
        rw [List.length_drop] at hlength
        change (session.peer.buffer.drop used ++
          session.peer.socket.arrivals.flatMap bytesOf).length ≤ maxBuffered
        omega
      | none =>
        simp only [Fallible.run_bind, run_askPeer, Connection.ask]
        cases harrivals : session.peer.socket.arrivals with
        | nil =>
          have hunread : session.peer.unread = session.peer.buffer := by
            rw [Connection.unread, harrivals, List.flatMap_nil, List.append_nil]
          have hreceive : session.peer.socket.receive = (.data [], session.peer.socket) := by
            rw [Socket.receive, harrivals]
          rw [hunread, hparse, hreceive]
          exact ⟨session, rfl, hunread, hflowing, rfl⟩
        | cons arrival rest =>
          obtain ⟨byte, bytes, rfl⟩ := hflowing.bytes arrival
            (by rw [harrivals]; exact List.mem_cons_self)
          have hreceive : session.peer.socket.receive = (.data (byte :: bytes),
              { session.peer.socket with
                arrivals := rest
                traffic := session.peer.socket.traffic ++ [.received (byte :: bytes)] }) := by
            rw [Socket.receive, harrivals]
          have hunread : session.peer.unread =
              (session.peer.buffer ++ byte :: bytes) ++ rest.flatMap bytesOf := by
            rw [Connection.unread, harrivals, List.flatMap_cons, List.append_assoc]
            rfl
          have hfits := hflowing.fits
          rw [hunread, List.length_append] at hfits
          have hsmall : ¬maxBuffered < (session.peer.buffer ++ byte :: bytes).length := by
            omega
          rw [hreceive]
          simp only [setBuffer, hsmall, if_false]
          rw [harrivals, List.length_cons] at hrounds
          have hfuel : rest.length < rounds := by omega
          have hrest : ∀ arrival ∈ rest, ∃ byte rest', arrival = .data (byte :: rest') :=
            fun arrival hmem => hflowing.bytes arrival
              (by rw [harrivals]; exact List.mem_cons_of_mem _ hmem)
          rw [hunread]
          exact @ih ⟨⟨{ session.peer.socket with
              arrivals := rest
              traffic := session.peer.socket.traffic ++ [.received (byte :: bytes)] },
            session.peer.buffer ++ byte :: bytes⟩, session.events⟩
            hfuel ⟨hrest, by rw [Connection.unread, List.length_append]; exact hfits⟩

/-- Reading a frame comes to what the parser says about the whole stream. -/
theorem readFrame_of_flowing (codecs : Codecs) (hflowing : session.peer.Flowing) :
    ∃ session', (readFrame codecs).run session =
        ((readOf (parseFrame codecs session.peer.unread)).1, session') ∧
      session'.peer.unread =
        session.peer.unread.drop (readOf (parseFrame codecs session.peer.unread)).2 ∧
      session'.peer.Flowing ∧ session'.events = session.events :=
  readFrameWithin_of_flowing (Nat.lt_succ_self _) hflowing

end Pieces

/-- What comes of reading a number of frames. -/
structure FramesRead where
  values : List Json
  error : Option DriverError
  session : Session Connection

/-- Read frames one after the other, up to a number of them or up to the first error. -/
def readFrames (codecs : Codecs) : Nat → Session Connection → FramesRead
  | 0, session => ⟨[], none, session⟩
  | count + 1, session =>
    match (readFrame codecs).run session with
    | (.error e, session) => ⟨[], some e, session⟩
    | (.ok value, session) =>
      let others := readFrames codecs count session
      { others with values := value :: others.values }

theorem readFrames_of_flowing (codecs : Codecs) (count : Nat) {session : Session Connection}
    (hflowing : session.peer.Flowing) :
    let whole := FrameParser.drainWithin (parseFrame codecs) count session.peer.unread
    let frames := readFrames codecs count session
    frames.values = whole.values ∧
      frames.error = (if whole.values.length < count then
        some (whole.error.getD connectionClosed) else none) ∧
      frames.session.peer.unread = whole.rest := by
  induction count generalizing session with
  | zero => exact ⟨rfl, rfl, rfl⟩
  | succ count ih =>
    obtain ⟨session', hrun, hunread, hflowing', _⟩ := readFrame_of_flowing codecs hflowing
    cases hparse : parseFrame codecs session.peer.unread with
    | error e =>
      rw [hparse] at hrun hunread
      simp only [readFrames, FrameParser.drainWithin, hrun, hparse, readOf]
      exact ⟨trivial, rfl, hunread⟩
    | ok found =>
      cases found with
      | none =>
        rw [hparse] at hrun hunread
        simp only [readFrames, FrameParser.drainWithin, hrun, hparse, readOf]
        exact ⟨trivial, rfl, hunread⟩
      | some frame =>
        obtain ⟨value, used⟩ := frame
        rw [hparse] at hrun hunread
        obtain ⟨hvalues, herror, hrest⟩ := ih hflowing'
        rw [hunread] at hvalues herror hrest
        simp only [readFrames, FrameParser.drainWithin, hrun, hparse, readOf]
        refine ⟨congrArg (value :: ·) hvalues, ?_, hrest⟩
        simp only [Drained.behind, List.singleton_append, List.length_cons,
          Nat.add_lt_add_iff_right]
        exact herror

theorem readFrames_length {codecs : Codecs} {count : Nat} {session : Session Connection}
    (h : (readFrames codecs count session).error = none) :
    (readFrames codecs count session).values.length = count := by
  induction count generalizing session with
  | zero => rfl
  | succ count ih =>
    cases hrun : (readFrame codecs).run session with
    | mk result session' =>
      cases result with
      | error e => simp only [readFrames, hrun] at h; cases h
      | ok value =>
        simp only [readFrames, hrun] at h ⊢
        rw [List.length_cons, ih h]

/-- The frames that are read, the first error and what is left unread do not depend on the
pieces in which the stream arrives; they are those of the stream as a whole. A frame stays
the same when the stream goes on, and before a frame is there, no shorter input has one. -/
theorem frames_independent_of_reads (codecs : Codecs) :
    (∀ (reads : List Bytes) (count : Nat) (session : Session Connection),
      (∀ bytes ∈ reads, bytes ≠ []) → reads.flatten.length ≤ maxBuffered →
      session.peer.Feeds reads →
        let whole := FrameParser.drainWithin (parseFrame codecs) count reads.flatten
        let frames := readFrames codecs count session
        frames.values = whole.values ∧
          frames.error = (if whole.values.length < count then
            some (whole.error.getD connectionClosed) else none) ∧
          frames.session.peer.unread = whole.rest) ∧
    (∀ (input : Bytes) (frame : Json × Nat), parseFrame codecs input = .ok (some frame) →
      ∀ more, parseFrame codecs (input ++ more) = .ok (some frame)) ∧
    (∀ input more : Bytes, parseFrame codecs (input ++ more) = .ok none →
      parseFrame codecs input = .ok none) := by
  have hstable := stable_parseFrame codecs
  refine ⟨?_, ?_, ?_⟩
  · intro reads count session hreads hlimit hfeeds
    have hframes := readFrames_of_flowing codecs count (hfeeds.flowing hreads hlimit)
    rw [hfeeds.unread] at hframes
    exact hframes
  · exact fun input frame h => hstable.frame_append h
  · exact fun input more h => hstable.none_of_append h

/-- A reply that arrives in two pieces, with a line break between them. -/
theorem frames_independent_of_reads_split :
    (readFrames Codecs.unused 1
      ⟨⟨⟨.ok (), [], [.data [43, 79, 75, 13], .data [10]], []⟩, []⟩, []⟩).values =
        [typed "string" (.str "OK")] :=
  ((frames_independent_of_reads Codecs.unused).1 [[43, 79, 75, 13], [10]] 1
    ⟨⟨⟨.ok (), [], [.data [43, 79, 75, 13], .data [10]], []⟩, []⟩, []⟩
    (by decide) (by decide) ⟨rfl, rfl⟩).1.trans (by rfl)

end Redis

end ApiVoy.Drivers
