/-
# Setup commands of the Redis driver

The commands that authenticate and select the database go out together with those of the
user, and the replies are looked at later. So a server that rejects the former has already
got the latter; what the driver holds back is the response: no reply to a command of the user
is reported unless all setup replies have come and none of them is an error.
-/

import ApiVoy.Drivers.Redis

namespace ApiVoy.Drivers.Redis

open Foundation Domain Engine

/-! ## Up to the replies -/

/-- The request can be run: it is well formed, the peer accepts the connection, and all
commands are written. -/
structure Ready (codecs : Codecs) (request : RequestEnvelope) (session : Session Connection)
    (payload : RedisRequest) : Prop where
  decoded : decodeRequest codecs request = .ok payload
  addressed : ∃ host, address request.target = .ok host
  connected : session.peer.socket.connecting = .ok ()
  sent : (Socket.send (outgoing (payload.setup ++ payload.commands)) session.peer.socket).1 = .sent

def written (session : Session Connection) (payload : RedisRequest) : Session Connection where
  peer := { session.peer with
    socket :=
      (Socket.send (outgoing (payload.setup ++ payload.commands)) session.peer.socket).2 }
  events := session.events ++ [running .connect, responseMeta, running .transfer]

section Runs

variable {codecs : Codecs} {info : RunInfo} {request : RequestEnvelope}
  {session : Session Connection}

/-- The session in which the driver has said that it connects. -/
def connecting (session : Session Connection) : Session Connection :=
  { session with events := session.events ++ [running .connect] }

theorem run_connect_connecting :
    connect.run (connecting session) = (session.peer.socket.connecting, connecting session) := rfl

theorem run_writeCommands (session : Session Connection) (commands : List (List String)) :
    (writeCommands commands).run (connecting session) =
      (match (Socket.send (outgoing commands) session.peer.socket).1 with
        | .sent => .ok ()
        | .failed _ message => .error (.connection message)
        | .cancelled _ => .error .cancelled,
      { connecting session with
        peer := { session.peer with
          socket := (Socket.send (outgoing commands) session.peer.socket).2 } }) := by
  rw [writeCommands]
  simp only [Fallible.run_bind, run_askPeer, Connection.ask, connecting]
  cases (Socket.send (outgoing commands) session.peer.socket).1 <;> rfl

variable {payload : RedisRequest}

theorem execute_of_ready (h : Ready codecs request session payload) :
    (execute codecs info request).run session =
      (replyLoop codecs payload.setup.length payload.commands.length >>=
        report codecs info request).run (written session payload) := by
  obtain ⟨host, hhost⟩ := h.addressed
  have hconnect : connect.run (connecting session) = (.ok (), connecting session) := by
    rw [run_connect_connecting, h.connected]
  have hwrite := run_writeCommands session (payload.setup ++ payload.commands)
  rw [h.sent] at hwrite
  rw [execute]
  simp only [Fallible.run_bind, run_ofExcept, h.decoded, hhost, run_emit]
  rw [← connecting, hconnect]
  simp only [hwrite]
  simp only [written, connecting, List.append_assoc]
  rfl

theorem sent_of_send (bytes : Bytes) (socket : Socket) :
    ∃ part, part <+: bytes ∧ (Socket.send bytes socket).2.traffic = socket.traffic ++ [.sent part] := by
  rw [Socket.send]
  split
  · exact ⟨bytes, List.prefix_refl bytes, rfl⟩
  · split
    · exact ⟨bytes, List.prefix_refl bytes, rfl⟩
    · exact ⟨_, List.take_prefix _ _, rfl⟩
    · exact ⟨_, List.take_prefix _ _, rfl⟩

/-- A run that does not come to the replies fails, with at most a part of the commands
written. -/
theorem execute_of_not_ready (codecs : Codecs) (info : RunInfo)
    (h : ∀ payload, ¬Ready codecs request session payload) :
    ∃ e session', (execute codecs info request).run session = (.error e, session') ∧
      (session'.events = session.events ∨ session'.events = (connecting session).events) ∧
      (session'.peer.socket.traffic = session.peer.socket.traffic ∨
        ∃ payload part, decodeRequest codecs request = .ok payload ∧
          part <+: outgoing (payload.setup ++ payload.commands) ∧
          session'.peer.socket.traffic = session.peer.socket.traffic ++ [.sent part]) := by
  rw [execute]
  simp only [Fallible.run_bind, run_ofExcept]
  cases hdecode : decodeRequest codecs request with
  | error e => exact ⟨e, session, rfl, .inl rfl, .inl rfl⟩
  | ok payload =>
    cases haddress : address request.target with
    | error e => exact ⟨e, session, rfl, .inl rfl, .inl rfl⟩
    | ok host =>
      simp only [run_emit]
      rw [← connecting, run_connect_connecting]
      cases hconnected : session.peer.socket.connecting with
      | error e => exact ⟨e, connecting session, rfl, .inr rfl, .inl rfl⟩
      | ok _ =>
        obtain ⟨part, hpart, htraffic⟩ := sent_of_send
          (outgoing (payload.setup ++ payload.commands)) session.peer.socket
        simp only [run_writeCommands]
        cases hsent : (Socket.send (outgoing (payload.setup ++ payload.commands))
            session.peer.socket).1 with
        | sent => exact absurd ⟨hdecode, ⟨host, haddress⟩, hconnected, hsent⟩ (h payload)
        | failed _ message =>
          exact ⟨_, _, rfl, .inr rfl, .inr ⟨payload, part, rfl, hpart, htraffic⟩⟩
        | cancelled _ =>
          exact ⟨_, _, rfl, .inr rfl, .inr ⟨payload, part, rfl, hpart, htraffic⟩⟩

/-! ## The replies -/

/-- Since a session nothing but reading has happened. -/
structure OnlyRead (base session : Session Connection) : Prop where
  events : session.events = base.events
  traffic : ∃ pieces : List Bytes,
    session.peer.socket.traffic = base.peer.socket.traffic ++ pieces.map .received

theorem OnlyRead.refl (session : Session Connection) : OnlyRead session session :=
  ⟨rfl, [], (List.append_nil _).symm⟩

variable (base : Session Connection)

theorem maintains_receive :
    Fallible.Maintains (OnlyRead base) (askPeer (Connection.ask Socket.receive)) := by
  intro session h
  obtain ⟨hevents, pieces, htraffic⟩ := h
  refine ⟨hevents, ?_⟩
  rw [run_askPeer]
  simp only [Connection.ask, Socket.receive]
  split
  · exact ⟨pieces, htraffic⟩
  · rename_i bytes _ _
    exact ⟨pieces ++ [bytes], by simp only [htraffic, List.map_append, List.append_assoc]; rfl⟩
  · exact ⟨pieces, htraffic⟩

theorem maintains_setBuffer (buffer : Bytes) :
    Fallible.Maintains (OnlyRead base) (setBuffer buffer) :=
  fun _ h => ⟨h.events, h.traffic⟩

theorem maintains_readFrameWithin (rounds : Nat) :
    Fallible.Maintains (OnlyRead base) (readFrameWithin codecs rounds) := by
  induction rounds with
  | zero => exact .fail _
  | succ rounds ih =>
    refine .bind (fun _ h => h) fun buffer => ?_
    cases parseFrame codecs buffer with
    | error e => exact .fail e
    | ok found =>
      cases found with
      | some frame =>
        exact .bind (maintains_setBuffer base _) fun _ =>
          Fallible.Maintains.pure _
      | none =>
        refine .bind (maintains_receive base) fun arrival => ?_
        cases arrival with
        | cancelled | timedOut | failed => exact .fail _
        | data bytes =>
          cases bytes with
          | nil => exact .fail _
          | cons byte bytes =>
            exact .bind (maintains_setBuffer base _) fun _ =>
              Fallible.Maintains.ite (.fail _) ih

theorem maintains_readFrame : Fallible.Maintains (OnlyRead base) (readFrame codecs) :=
  fun session h => maintains_readFrameWithin base _ session h

theorem maintains_userReplies (commands : Nat) :
    Fallible.Maintains (OnlyRead base) (userReplies codecs commands) := by
  induction commands with
  | zero => exact .pure []
  | succ commands ih =>
    exact .bind (maintains_readFrame base) fun _ =>
      Fallible.Maintains.bind ih fun _ => .pure _

theorem maintains_replyLoop (codecs : Codecs) (base : Session Connection) (setup commands : Nat) :
    Fallible.Maintains (OnlyRead base) (replyLoop codecs setup commands) := by
  induction setup with
  | zero => exact maintains_userReplies base commands
  | succ setup ih =>
    exact .bind (maintains_readFrame base) fun _ =>
      Fallible.Maintains.ite (.fail _) ih

theorem userReplies_result (commands : Nat) (session : Session Connection) :
    ((userReplies codecs commands).run session).1 =
      match (readFrames codecs commands session).error with
      | some e => .error e
      | none => .ok (readFrames codecs commands session).values := by
  induction commands generalizing session with
  | zero => rfl
  | succ commands ih =>
    rw [userReplies, Fallible.run_bind, readFrames]
    cases hrun : (readFrame codecs).run session with
    | mk result session' =>
      cases result with
      | error e => rfl
      | ok value =>
        have hrest := ih session'
        simp only [Fallible.run_bind]
        cases hloop : (userReplies codecs commands).run session' with
        | mk responses final =>
          rw [hloop] at hrest
          simp only at hrest
          rw [hrest]
          cases (readFrames codecs commands session').error <;> rfl

/-- The loop comes to reading as many frames as there are commands and then looking at the
setup replies. -/
theorem replyLoop_result (codecs : Codecs) (setup commands : Nat) (session : Session Connection) :
    ((replyLoop codecs setup commands).run session).1 =
      let frames := readFrames codecs (setup + commands) session
      match (frames.values.take setup).find? isErrorValue with
      | some value => .error (setupFailed value)
      | none =>
        match frames.error with
        | some e => .error e
        | none => .ok (frames.values.drop setup) := by
  induction setup generalizing session with
  | zero =>
    simp only [Nat.zero_add, List.take_zero, List.find?_nil, List.drop_zero]
    exact userReplies_result commands session
  | succ setup ih =>
    rw [replyLoop, Fallible.run_bind, Nat.add_right_comm, readFrames]
    cases hrun : (readFrame codecs).run session with
    | mk result session' =>
      cases result with
      | error e => rfl
      | ok value =>
        simp only [List.take_succ_cons, List.find?_cons, List.drop_succ_cons]
        cases herror : isErrorValue value with
        | true => rfl
        | false => exact ih session'

/-- A run that comes to the replies ends as its loop ends, with the response in front of it. -/
theorem execute_outcome (codecs : Codecs) (info : RunInfo) (h : Ready codecs request session payload) :
    ∃ result session',
      (replyLoop codecs payload.setup.length payload.commands.length).run
        (written session payload) = (result, session') ∧
      OnlyRead (written session payload) session' ∧
      (execute codecs info request).run session =
        match result with
        | .error e => (.error e, session')
        | .ok responses => (report codecs info request responses).run session' := by
  have hread := maintains_replyLoop codecs (written session payload)
    payload.setup.length payload.commands.length _ (OnlyRead.refl _)
  rw [execute_of_ready h, Fallible.run_bind]
  cases hloop : (replyLoop codecs payload.setup.length payload.commands.length).run
      (written session payload) with
  | mk result session' =>
    rw [hloop] at hread
    refine ⟨result, session', rfl, hread, ?_⟩
    cases result <;> rfl

end Runs

/-! ## The gate -/

/-- The replies to the setup commands, as far as they come. -/
def setupReplies (codecs : Codecs) (session : Session Connection) (payload : RedisRequest) :
    FramesRead :=
  readFrames codecs payload.setup.length (written session payload)

/-- All setup replies have come, and none of them is an error. -/
def Accepted (codecs : Codecs) (session : Session Connection) (payload : RedisRequest) : Prop :=
  (setupReplies codecs session payload).values.length = payload.setup.length ∧
    ∀ value ∈ (setupReplies codecs session payload).values, value.get "type" ≠ some (.str "error")

def Reports (events : List ExecutionEvent) : Prop :=
  ∃ event ∈ events, Event.isChunk event = true ∨ Event.isCompleted event = true

theorem isErrorValue_iff {value : Json} :
    isErrorValue value = true ↔ value.get "type" = some (.str "error") := by
  rw [isErrorValue, decide_eq_true_eq, Option.bind_eq_some_iff]
  constructor
  · rintro ⟨type, hget, htext⟩
    cases type with
    | str text =>
      cases htext
      exact hget
    | null | bool | num | arr | obj => cases htext
  · exact fun hget => ⟨_, hget, rfl⟩

/-- Reading more frames does not change the first ones. -/
theorem readFrames_add (codecs : Codecs) (count more : Nat) (session : Session Connection) :
    (readFrames codecs (count + more) session).values.take count =
        (readFrames codecs count session).values ∧
      ((readFrames codecs (count + more) session).error = none →
        (readFrames codecs count session).error = none) := by
  induction count generalizing session with
  | zero => exact ⟨rfl, fun _ => rfl⟩
  | succ count ih =>
    rw [Nat.add_right_comm, readFrames, readFrames]
    cases hrun : (readFrame codecs).run session with
    | mk result session' =>
      cases result with
      | error e => exact ⟨rfl, id⟩
      | ok value =>
        obtain ⟨hvalues, herror⟩ := ih session'
        exact ⟨by simp only [List.take_succ_cons, hvalues], herror⟩

theorem replyLoop_setup {codecs : Codecs} {session session' : Session Connection}
    {payload : RedisRequest} {result : Except DriverError (List Json)}
    (h : (replyLoop codecs payload.setup.length payload.commands.length).run
      (written session payload) = (result, session')) :
    (∀ value, (setupReplies codecs session payload).values.find? isErrorValue = some value →
        result = .error (setupFailed value)) ∧
      ∀ responses, result = .ok responses → Accepted codecs session payload := by
  have hresult := replyLoop_result codecs payload.setup.length
    payload.commands.length (written session payload)
  have ⟨hvalues, herror⟩ := readFrames_add codecs payload.setup.length payload.commands.length
    (written session payload)
  rw [h] at hresult
  simp only [hvalues] at hresult
  rw [setupReplies]
  constructor
  · intro value hvalue
    rw [hresult, hvalue]
  · intro responses hok
    rw [hok] at hresult
    cases hfind : (readFrames codecs payload.setup.length
        (written session payload)).values.find? isErrorValue with
    | some value => rw [hfind] at hresult; cases hresult
    | none =>
      simp only [hfind] at hresult
      split at hresult
      · cases hresult
      · rename_i hnone
        have hall := List.find?_eq_none.mp hfind
        exact ⟨readFrames_length (herror hnone), fun value hmem => by
          simpa [isErrorValue_iff] using hall value hmem⟩

theorem outgoing_append (setup commands : List (List String)) :
    outgoing (setup ++ commands) = outgoing setup ++ outgoing commands :=
  List.flatMap_append

/-- The driver reports a response only at its end. -/
theorem not_reports_of_onlyRead {session session' : Session Connection} {payload : RedisRequest}
    (hevents : session.events = []) (h : OnlyRead (written session payload) session') :
    ¬Reports session'.events := by
  rintro ⟨event, hmem, hkind⟩
  rw [h.events, written, hevents] at hmem
  rcases List.mem_cons.mp hmem with rfl | hmem
  · simp [running, Event.isChunk, Event.isCompleted] at hkind
  · rcases List.mem_cons.mp hmem with rfl | hmem
    · simp [responseMeta, Event.isChunk, Event.isCompleted] at hkind
    · rw [List.mem_singleton.mp hmem] at hkind
      simp [running, Event.isChunk, Event.isCompleted] at hkind

/-- A run that reports a response ends well. -/
theorem ok_of_reports {codecs : Codecs} {info : RunInfo} {request : RequestEnvelope}
    {session : Session Connection} {payload : RedisRequest} (hevents : session.events = [])
    (hready : Ready codecs request session payload)
    (h : Reports ((execute codecs info request).run session).2.events) :
    ∃ summary, ((execute codecs info request).run session).1 = .ok summary := by
  obtain ⟨result, session', -, hread, hrun⟩ := execute_outcome codecs info hready
  rw [hrun] at h ⊢
  cases result with
  | ok responses => exact ⟨_, rfl⟩
  | error e => exact absurd h (not_reports_of_onlyRead hevents hread)

/-- The commands go out in one write, those for the setup first, and before anything is read.
A response is only reported when all setup replies have come and none of them is an error. -/
theorem response_gated (codecs : Codecs) (info : RunInfo) (request : RequestEnvelope)
    (session : Session Connection) (hevents : session.events = [])
    (htraffic : session.peer.socket.traffic = []) :
    let final := (execute codecs info request).run session
    (final.2.peer.socket.traffic = [] ∨ ∃ payload part, ∃ pieces : List Bytes,
      decodeRequest codecs request = .ok payload ∧
      part <+: outgoing payload.setup ++ outgoing payload.commands ∧
      final.2.peer.socket.traffic = .sent part :: pieces.map .received) ∧
    (Reports final.2.events ∨ (∃ summary, final.1 = .ok summary) →
      ∃ payload, Ready codecs request session payload ∧ Accepted codecs session payload) := by
  intro final
  by_cases hready : ∃ payload, Ready codecs request session payload
  · obtain ⟨payload, hready⟩ := hready
    obtain ⟨result, session', hloop, hread, hrun⟩ := execute_outcome codecs info hready
    obtain ⟨part, hpart, hsent⟩ := sent_of_send
      (outgoing (payload.setup ++ payload.commands)) session.peer.socket
    obtain ⟨pieces, hpieces⟩ := hread.traffic
    have hpeer : final.2.peer = session'.peer := by
      change ((execute codecs info request).run session).2.peer = session'.peer
      rw [hrun]
      cases result <;> rfl
    refine ⟨.inr ⟨payload, part, pieces, hready.decoded, ?_, ?_⟩, ?_⟩
    · rwa [← outgoing_append]
    · rw [hpeer, hpieces]
      change (Socket.send _ session.peer.socket).2.traffic ++ _ = _
      rw [hsent, htraffic]
      rfl
    · intro hreports
      have hok : ∃ summary, final.1 = .ok summary := hreports.elim (ok_of_reports hevents hready) id
      change ∃ summary, ((execute codecs info request).run session).1 = .ok summary at hok
      rw [hrun] at hok
      cases result with
      | ok responses => exact ⟨payload, hready, (replyLoop_setup hloop).2 responses rfl⟩
      | error e =>
        obtain ⟨summary, hok⟩ := hok
        cases hok
  · have hnone : ∀ payload, ¬Ready codecs request session payload := fun payload h => hready ⟨payload, h⟩
    obtain ⟨e, session', hrun, hevents', htraffic'⟩ :=
      execute_of_not_ready codecs info hnone
    have hfinal : final = (.error e, session') := hrun
    rw [hfinal]
    refine ⟨?_, ?_⟩
    · rcases htraffic' with htraffic' | ⟨payload, part, hdecoded, hpart, htraffic'⟩
      · exact .inl (htraffic'.trans htraffic)
      · rw [htraffic] at htraffic'
        exact .inr ⟨payload, part, [], hdecoded, by rwa [← outgoing_append], htraffic'⟩
    · rintro (⟨event, hmem, hkind⟩ | ⟨summary, hok⟩)
      · have hconnect : event = running .connect := by
          rcases hevents' with hevents' | hevents'
          · rw [hevents', hevents] at hmem
            cases hmem
          · rw [hevents', connecting, hevents] at hmem
            exact List.mem_singleton.mp hmem
        rw [hconnect] at hkind
        simp [running, Event.isChunk, Event.isCompleted] at hkind
      · cases hok

/-- The first setup reply that is an error ends the run. -/
theorem refusal_ends_run {codecs : Codecs} {info : RunInfo} {request : RequestEnvelope}
    {session : Session Connection} {payload : RedisRequest} {before after : List Json}
    {text : String} (hready : Ready codecs request session payload)
    (h : (setupReplies codecs session payload).values =
      before ++ .obj [("type", .str "error"), ("value", .str text)] :: after)
    (hbefore : ∀ value ∈ before, value.get "type" ≠ some (.str "error")) :
    ((execute codecs info request).run session).1 =
      .error (.protocol ("Redis setup failed: " ++ text)) := by
  obtain ⟨result, session', hloop, -, hrun⟩ := execute_outcome codecs info hready
  have hnone : before.find? isErrorValue = none := by
    refine List.find?_eq_none.mpr fun value hmem => ?_
    simpa [isErrorValue_iff] using hbefore value hmem
  have hfind : (setupReplies codecs session payload).values.find? isErrorValue =
      some (.obj [("type", .str "error"), ("value", .str text)]) := by
    rw [h, List.find?_append, hnone]
    rfl
  rw [hrun, (replyLoop_setup hloop).1 _ hfind]
  rfl

/-! ## A rejected password -/

def sentBytes : Traffic → Bytes
  | .sent bytes => bytes
  | .received _ => []

def receivedBytes : Traffic → Bytes
  | .sent _ => []
  | .received bytes => bytes

/-- A command of the user is written only when all setup replies have come and none of them is
an error. -/
def Gated (codecs : Codecs) (payload : RedisRequest) (traffic : List Traffic) : Prop :=
  ∀ before bytes after, traffic = before ++ .sent bytes :: after →
    (outgoing payload.setup).length < ((before ++ [.sent bytes]).flatMap sentBytes).length →
      let replies := FrameParser.drainWithin (parseFrame codecs) payload.setup.length
        (before.flatMap receivedBytes)
      replies.values.length = payload.setup.length ∧
        ∀ value ∈ replies.values, isErrorValue value = false

/-- A request that authenticates and removes all keys. -/
def flushRequest : RequestEnvelope :=
  { RequestEnvelope.httpGet "flush" "2026-01-01T00:00:00Z" "Flush" "redis://cache" with
    protocolId := "redis"
    payload := .raw (.obj [("passwordRef", .str "cache-password"),
      ("commands", .arr [.arr [.str "FLUSHALL"]])])
    runtimeSecrets := AList.singleton "cache-password" "outdated" }

def flushRun : RunInfo := ⟨"run", "2026-01-01T00:00:00Z", "2026-01-01T00:00:01Z", 1000⟩

def flushPayload : RedisRequest := ⟨none, some "outdated", none, [["FLUSHALL"]]⟩

/-- The server rejects the password. -/
def rejecting : Session Connection :=
  ⟨⟨⟨.ok (), [], [.data (utf8 "-WRONGPASS\r\n")], []⟩, []⟩, []⟩

theorem ready_flushRequest : Ready Codecs.unused flushRequest rejecting flushPayload where
  decoded := by rfl
  addressed := ⟨"cache:6379", by rfl⟩
  connected := rfl
  sent := rfl

/-- The server gets a command of the user although it rejects the password. -/
theorem not_gated : ¬∀ (codecs : Codecs) (info : RunInfo) (request : RequestEnvelope)
    (payload : RedisRequest) (session : Session Connection), session.events = [] →
      session.peer.socket.traffic = [] → decodeRequest codecs request = .ok payload →
        Gated codecs payload ((execute codecs info request).run session).2.peer.socket.traffic := by
  intro h
  have hgated := h Codecs.unused flushRun flushRequest flushPayload rejecting rfl rfl
    ready_flushRequest.decoded
  obtain ⟨result, session', -, hread, hrun⟩ :=
    execute_outcome Codecs.unused flushRun ready_flushRequest
  obtain ⟨pieces, hpieces⟩ := hread.traffic
  have hpeer : ((execute Codecs.unused flushRun flushRequest).run rejecting).2.peer =
      session'.peer := by
    rw [hrun]
    cases result <;> rfl
  have hlength : (outgoing flushPayload.setup).length <
      (outgoing (flushPayload.setup ++ flushPayload.commands)).length := by
    have hcommands : outgoing flushPayload.commands = encodeCommand ["FLUSHALL"] ++ [] := rfl
    rw [outgoing_append, List.length_append, hcommands, encodeCommand_eq, List.length_cons]
    omega
  have hsetup : flushPayload.setup.length = 1 := rfl
  rw [hpeer, hpieces] at hgated
  have ⟨hreplies, _⟩ := hgated []
    (outgoing (flushPayload.setup ++ flushPayload.commands)) (pieces.map .received) rfl hlength
  rw [hsetup] at hreplies
  cases hreplies

end ApiVoy.Drivers.Redis
