/-
# The TCP driver

The driver sends its data and then reads until the frame that the request asks for is there:
a number of bytes, or everything up to a delimiter. It reports every read as a whole, so that
what has come behind the frame in the last read is reported as well.
-/

import ApiVoy.Drivers.Session
import ApiVoy.Foundation.Stopping
import ApiVoy.Foundation.Text

namespace ApiVoy.Drivers.Tcp

open Foundation Domain Engine

/-! ## Requests -/

def target (request : RequestEnvelope) (scheme : String) : Except DriverError String :=
  let value := request.target.toList
  let start := scheme.toList ++ "://".toList
  let value := if start.isPrefixOf value then value.drop start.length else value
  if ':' ∈ value then .ok (String.ofList value)
  else .error (.validation (scheme ++ " target must be host:port"))

def hexDigit (c : Char) : Option Nat :=
  if '0' ≤ c ∧ c ≤ '9' then some (c.toNat - '0'.toNat)
  else if 'a' ≤ c ∧ c ≤ 'f' then some (c.toNat - 'a'.toNat + 10)
  else if 'A' ≤ c ∧ c ≤ 'F' then some (c.toNat - 'A'.toNat + 10)
  else none

/-- A number of two digits, of which the first one can be a sign. -/
def hexByte (a b : Char) : Option UInt8 :=
  if a = '+' then (hexDigit b).map UInt8.ofNat
  else match hexDigit a, hexDigit b with
    | some high, some low => some (UInt8.ofNat (16 * high + low))
    | _, _ => none

def invalidHex (index : Nat) : DriverError :=
  .validation ("invalid hex byte at offset " ++ toString index)

/-- The bytes of digits from an offset on. The digits are cut every two bytes, which panics
within a character. -/
def hexBytes (index : Nat) : List Char → Option (Except DriverError Bytes)
  | [] => some (.ok [])
  | [c] => if c.utf8Size = 2 then some (.error (invalidHex index)) else none
  | a :: b :: rest =>
    if a.utf8Size = 1 ∧ b.utf8Size = 1 then
      match hexByte a b with
      | some byte => (hexBytes (index + 2) rest).map fun bytes => bytes.map (byte :: ·)
      | none => some (.error (invalidHex index))
    else if a.utf8Size = 2 then some (.error (invalidHex index))
    else none

def decodeData (data encoding : String) : Option (Except DriverError Bytes) :=
  let encoding := encoding.toList.map Char.toLower
  if encoding = "text".toList then some (.ok (utf8 data))
  else if encoding ≠ "hex".toList then
    some (.error (.validation "encoding must be text or hex"))
  else
    let compact := data.toList.filter fun c => !isWhitespace c
    if (encodeChars compact).length % 2 ≠ 0 then
      some (.error (.validation "hex data must contain an even number of digits"))
    else hexBytes 0 compact

/-! ## Runs -/

/-- A peer: what comes of connecting, of the TLS handshake and of writing, which of the pauses
between the writes are cancelled, what arrives, and what has been sent. Behind the writes all
succeed, behind the pauses none is cancelled, and behind the arrivals the peer has closed. -/
structure Peer where
  connecting : Except DriverError Unit
  handshake : Except DriverError Unit
  writes : List (Except String Unit)
  pauses : List Bool
  arrivals : List Arrival
  sent : List Bytes

abbrev TcpM := DriverM Peer

namespace Peer

def send (bytes : Bytes) (peer : Peer) : Except String Unit × Peer :=
  match peer.writes.headD (.ok ()) with
  | .ok _ => (.ok (), { peer with writes := peer.writes.tail, sent := peer.sent ++ [bytes] })
  | .error message => (.error message, { peer with writes := peer.writes.tail })

def pause (peer : Peer) : Bool × Peer :=
  (peer.pauses.headD false, { peer with pauses := peer.pauses.tail })

def read (peer : Peer) : Arrival × Peer :=
  (peer.arrivals.headD (.data []), { peer with arrivals := peer.arrivals.tail })

end Peer

def caSecret (payload : SocketPayload) (request : RequestEnvelope) : Except DriverError Unit :=
  match payload.caCertRef with
  | none => .ok ()
  | some secretRef =>
    match request.runtimeSecrets.lookup secretRef with
    | some _ => .ok ()
    | none => .error (.validation ("TCP TLS CA secret `" ++ secretRef ++ "` is unavailable"))

def connectTcp (payload : SocketPayload) (request : RequestEnvelope) : TcpM Unit := do
  let peer ← askPeer fun peer => (peer, peer)
  Session.ofExcept peer.connecting
  if payload.tls = false then return ()
  else if request.tls.verify = false then
    Fallible.fail (.validation "TCP TLS certificate verification cannot be disabled")
  else do
    Session.ofExcept (caSecret payload request)
    Session.ofExcept peer.handshake

def writeAll (bytes : Bytes) : TcpM Unit := do
  match ← askPeer (Peer.send bytes) with
  | .ok _ => return ()
  | .error message => Fallible.fail (.connection message)

/-- Wait between two writes. -/
def pause : TcpM Unit := do
  if (← askPeer Peer.pause) = true then Fallible.fail .cancelled else return ()

/-- Write as often as is left, with a pause before the next write. -/
def writeLoop (payload : SocketPayload) (bytes : Bytes) : Nat → TcpM Unit
  | 0 => return ()
  | left + 1 => do
    writeAll bytes
    if 0 < left ∧ 0 < payload.intervalMs then pause
    writeLoop payload bytes left

def dataChunk (codecs : Codecs) (data : Bytes) (done : Bool) : ExecutionEvent :=
  .responseChunk (some "application/octet-stream") (UInt64.ofNat data.length)
    (if data = [] then none else some (fromUtf8Lossy data))
    (if data = [] then none else some (codecs.encodeBase64 data)) done

/-- The parts of a length. -/
def windows (size : Nat) (bytes : Bytes) : List Bytes :=
  (List.range (bytes.length + 1 - size)).map fun start => (bytes.drop start).take size

/-- The frame that the request asks for is there. -/
def complete (payload : SocketPayload) (received : Bytes) : Bool :=
  if payload.framing = some "fixed" then
    payload.fixedLength.any fun length => decide (length.toNat ≤ received.length)
  else if payload.framing = some "delimiter" then
    (payload.delimiter.filter (· ≠ "")).any fun delimiter =>
      (windows (utf8 delimiter).length received).any (· = utf8 delimiter)
  else false

section Receiving

variable (codecs : Codecs) (payload : SocketPayload)

/-- Read until the frame is there. Every arrival is used up by one of the rounds. -/
def receiveWithin : Nat → Bytes → TcpM Bytes
  | 0, received => return received
  | rounds + 1, received => do
    match ← askPeer Peer.read with
    | .cancelled => Fallible.fail .cancelled
    | .timedOut => return received
    | .failed message => Fallible.fail (.connection message)
    | .data [] => return received
    | .data (byte :: bytes) => do
      emit (dataChunk codecs (byte :: bytes) false)
      if complete payload (received ++ byte :: bytes) = true then
        return received ++ byte :: bytes
      else receiveWithin rounds (received ++ byte :: bytes)

def receiveLoop : TcpM Bytes := fun session =>
  (receiveWithin codecs payload (session.peer.arrivals.length + 1) []).run session

end Receiving

def responseMeta : ExecutionEvent :=
  .responseMeta ⟨none, none, [], some "application/octet-stream", none⟩

def report (codecs : Codecs) (info : RunInfo) (request : RequestEnvelope) (received : Bytes) :
    TcpM ExecutionSummary := do
  emit (dataChunk codecs [] true)
  let summary := completedSummary info request request.protocolId received.length none
  emit (.completed summary)
  return summary

/-- Send the bytes and receive the frame. -/
def transfer (codecs : Codecs) (info : RunInfo) (request : RequestEnvelope)
    (payload : SocketPayload) (outgoing : Bytes) : TcpM ExecutionSummary := do
  emit (running .connect)
  connectTcp payload request
  writeLoop payload outgoing (max payload.sendCount.toNat 1)
  emit responseMeta
  emit (running .transfer)
  let received ← receiveLoop codecs payload
  report codecs info request received

/-- The run of a request, unless the data makes the driver panic before it begins. -/
def execute (codecs : Codecs) (info : RunInfo) (request : RequestEnvelope) :
    Option (TcpM ExecutionSummary) :=
  match target request "tcp", request.payload with
  | .error e, _ => some (Fallible.fail e)
  | .ok _, .tcp payload =>
    (decodeData payload.data payload.encoding).map fun decoded => do
      let outgoing ← Session.ofExcept decoded
      transfer codecs info request payload outgoing
  | .ok _, _ => some (Fallible.fail (.validation "TCP driver requires TCP payload"))

/-! ## Frames -/

/-- What a request asks the driver to receive. -/
inductive Framing where
  | fixed (length : Nat)
  | delimiter (mark : Bytes)
  | none

/-- The frame at the front of a stream. -/
def Framing.frame : Framing → Bytes → Bytes
  | .fixed length, stream => stream.take length
  | .delimiter mark, stream => throughFirst mark stream
  | .none, stream => stream

inductive Asks (payload : SocketPayload) : Framing → Prop
  | fixed {length : UInt64} (framing : payload.framing = some "fixed")
      (fixedLength : payload.fixedLength = some length) (positive : 1 ≤ length.toNat) :
      Asks payload (.fixed length.toNat)
  | delimiter {text : String} (framing : payload.framing = some "delimiter")
      (delimiter : payload.delimiter = some text) (nonempty : text ≠ "") :
      Asks payload (.delimiter (utf8 text))
  | none (fixed : payload.framing ≠ some "fixed")
      (delimiter : payload.framing ≠ some "delimiter") : Asks payload .none

theorem utf8_ne_nil {text : String} (h : text ≠ "") : utf8 text ≠ [] := by
  intro hnil
  have hempty : utf8 "" = [] := rfl
  exact h (utf8_injective (hnil.trans hempty.symm))

theorem any_windows (mark bytes : Bytes) :
    (windows mark.length bytes).any (fun window => decide (window = mark)) =
      decide (mark <:+: bytes) := by
  rw [Bool.eq_iff_iff, List.any_eq_true, decide_eq_true_iff]
  constructor
  · rintro ⟨window, hmem, heq⟩
    obtain ⟨start, -, rfl⟩ := List.mem_map.mp hmem
    rw [← of_decide_eq_true heq]
    exact (List.take_prefix _ _).isInfix.trans (List.drop_suffix _ _).isInfix
  · rintro ⟨before, after, rfl⟩
    refine ⟨mark, List.mem_map.mpr ⟨before.length, ?_, ?_⟩, decide_eq_true rfl⟩
    · rw [List.mem_range]
      simp only [List.length_append]
      omega
    · rw [List.append_assoc, List.drop_left, List.take_left]

section Frames

variable {payload : SocketPayload} {framing : Framing}

theorem complete_fixed {length : UInt64} (hframing : payload.framing = some "fixed")
    (hlength : payload.fixedLength = some length) :
    complete payload = fun received => decide (length.toNat ≤ received.length) := by
  funext received
  rw [complete, if_pos hframing, hlength]
  rfl

theorem complete_delimiter {text : String} (hframing : payload.framing = some "delimiter")
    (hdelimiter : payload.delimiter = some text) (hnonempty : text ≠ "") :
    complete payload = fun received => decide (utf8 text <:+: received) := by
  funext received
  have hfixed : ¬payload.framing = some "fixed" := by
    rw [hframing]
    decide
  have hkept : (some text).filter (fun text => decide (text ≠ "")) = some text :=
    if_pos (decide_eq_true hnonempty)
  rw [complete, if_neg hfixed, if_pos hframing, hdelimiter, hkept, ← any_windows]
  rfl

theorem complete_none (hfixed : payload.framing ≠ some "fixed")
    (hdelimiter : payload.framing ≠ some "delimiter") : complete payload = fun _ => false := by
  funext received
  rw [complete, if_neg hfixed, if_neg hdelimiter]

/-- The driver reads on exactly as long as the frame is not there. -/
theorem Asks.stopsAt (h : Asks payload framing) (stream : Bytes) :
    StopsAt (complete payload) stream (framing.frame stream) := by
  cases h with
  | fixed hframing hlength _ =>
    rw [complete_fixed hframing hlength]
    exact stopsAt_take _ stream
  | delimiter hframing hdelimiter hnonempty =>
    rw [complete_delimiter hframing hdelimiter hnonempty]
    exact stopsAt_throughFirst (utf8_ne_nil hnonempty) stream
  | none hfixed hdelimiter =>
    rw [complete_none hfixed hdelimiter]
    exact stopsAt_all stream

theorem Asks.complete_nil (h : Asks payload framing) : complete payload [] = false := by
  cases h with
  | fixed hframing hlength hpositive =>
    rw [complete_fixed hframing hlength]
    exact decide_eq_false (Nat.not_le_of_lt hpositive)
  | delimiter hframing hdelimiter hnonempty =>
    rw [complete_delimiter hframing hdelimiter hnonempty]
    exact decide_eq_false fun h => utf8_ne_nil hnonempty (List.infix_nil.mp h)
  | none hfixed hdelimiter => rw [complete_none hfixed hdelimiter]

end Frames

/-! ## What is reported -/

def chunkBytes (codecs : Codecs) : ExecutionEvent → Bytes
  | .responseChunk _ _ _ (some data) _ => (codecs.decodeBase64 data).toOption.getD []
  | _ => []

def reported (codecs : Codecs) (events : List ExecutionEvent) : Bytes :=
  events.flatMap (chunkBytes codecs)

/-- The run ends well, its chunks carry these bytes, and its summary counts them. -/
def Reports (codecs : Codecs) (bytes : Bytes)
    (final : Except DriverError ExecutionSummary × Session Peer) : Prop :=
  reported codecs final.2.events = bytes ∧
    ∃ summary, final.1 = .ok summary ∧ summary.bytesReceived = UInt64.ofNat bytes.length

/-- The peer can be reached, nothing goes wrong with the connection, and the peer sends its
stream in these reads and closes. -/
structure Reachable (request : RequestEnvelope) (payload : SocketPayload) (reads : List Bytes)
    (peer : Peer) : Prop where
  carried : request.payload = .tcp payload
  addressed : ∃ address, target request "tcp" = .ok address
  decoded : ∃ outgoing, decodeData payload.data payload.encoding = some (.ok outgoing)
  connecting : peer.connecting = .ok ()
  secured : payload.tls = true →
    request.tls.verify = true ∧ caSecret payload request = .ok () ∧ peer.handshake = .ok ()
  writes : peer.writes = []
  pauses : peer.pauses = []
  arrivals : peer.arrivals = reads.map .data

section Runs

variable {codecs : Codecs} {request : RequestEnvelope} {payload : SocketPayload}
  {reads : List Bytes} {session : Session Peer}

theorem connectTcp_run (hconnecting : session.peer.connecting = .ok ())
    (hsecured : payload.tls = true → request.tls.verify = true ∧
      caSecret payload request = .ok () ∧ session.peer.handshake = .ok ()) :
    (connectTcp payload request).run session = (.ok (), session) := by
  rw [connectTcp, Fallible.run_bind, run_askPeer]
  simp only [Fallible.run_bind, run_ofExcept, hconnecting]
  by_cases htls : payload.tls = false
  · rw [if_pos htls]
    rfl
  · obtain ⟨hverify, hsecret, hhandshake⟩ := hsecured (eq_true_of_ne_false htls)
    rw [if_neg htls, if_neg (by rw [hverify]; exact Bool.noConfusion), Fallible.run_bind,
      run_ofExcept, hsecret]
    exact Prod.ext hhandshake rfl

theorem writeAll_run (hwrites : session.peer.writes = []) (bytes : Bytes) :
    (writeAll bytes).run session =
      (.ok (), { session with peer := { session.peer with
        writes := session.peer.writes.tail
        sent := session.peer.sent ++ [bytes] } }) := by
  have hsend : session.peer.send bytes =
      (.ok (), { session.peer with
        writes := session.peer.writes.tail
        sent := session.peer.sent ++ [bytes] }) := by
    rw [Peer.send, hwrites]
    rfl
  rw [writeAll]
  simp only [Fallible.run_bind, run_askPeer, hsend]
  rfl

theorem pause_run (hpauses : session.peer.pauses = []) :
    pause.run session = (.ok (), { session with peer := { session.peer with
      pauses := session.peer.pauses.tail } }) := by
  have hpause : session.peer.pause =
      (false, { session.peer with pauses := session.peer.pauses.tail }) := by
    rw [Peer.pause, hpauses]
    rfl
  rw [pause]
  simp only [Fallible.run_bind, run_askPeer, hpause]
  rfl

/-- Writing leaves alone what is to arrive. -/
theorem writeLoop_run (bytes : Bytes) (left : Nat) (hwrites : session.peer.writes = [])
    (hpauses : session.peer.pauses = []) :
    ∃ session', (writeLoop payload bytes left).run session = (.ok (), session') ∧
      session'.peer.arrivals = session.peer.arrivals ∧ session'.events = session.events := by
  induction left generalizing session with
  | zero => exact ⟨session, rfl, rfl, rfl⟩
  | succ left ih =>
    let written : Session Peer := { session with peer := { session.peer with
      writes := session.peer.writes.tail
      sent := session.peer.sent ++ [bytes] } }
    have hwritten : written.peer.writes = [] := congrArg List.tail hwrites
    rw [writeLoop, Fallible.run_bind_of_ok (writeAll_run hwrites bytes)]
    by_cases hpause : 0 < left ∧ 0 < payload.intervalMs
    · rw [if_pos hpause, Fallible.run_bind_of_ok (@pause_run written hpauses)]
      exact @ih { written with peer := { written.peer with pauses := written.peer.pauses.tail } }
        hwritten (congrArg List.tail hpauses)
    · rw [if_neg hpause]
      exact @ih written hwritten hpauses

/-- The reads are reported up to the one with which the frame is there. -/
theorem receiveWithin_run {rounds : Nat} (hrounds : reads.length < rounds) (received : Bytes)
    (harrivals : session.peer.arrivals = reads.map .data) (hreads : ∀ read ∈ reads, read ≠ []) :
    ∃ session', (receiveWithin codecs payload rounds received).run session =
        (.ok (received ++ (takePieces (complete payload) received reads).flatten), session') ∧
      session'.events = session.events ++
        (takePieces (complete payload) received reads).map fun read =>
          dataChunk codecs read false := by
  induction reads generalizing rounds received session with
  | nil =>
    obtain ⟨rounds, rfl⟩ := Nat.exists_eq_add_one_of_ne_zero (Nat.ne_zero_of_lt hrounds)
    have hread : session.peer.read =
        (.data [], { session.peer with arrivals := session.peer.arrivals.tail }) := by
      rw [Peer.read, harrivals]
      rfl
    refine ⟨{ session with peer := { session.peer with
      arrivals := session.peer.arrivals.tail } }, ?_, (List.append_nil _).symm⟩
    · rw [receiveWithin, Fallible.run_bind, run_askPeer, hread, takePieces, List.flatten_nil,
        List.append_nil]
      rfl
  | cons read reads ih =>
    obtain ⟨rounds, rfl⟩ := Nat.exists_eq_add_one_of_ne_zero (Nat.ne_zero_of_lt hrounds)
    obtain ⟨byte, bytes, rfl⟩ := List.exists_cons_of_ne_nil (hreads read List.mem_cons_self)
    have hread : session.peer.read = (.data (byte :: bytes),
        { session.peer with arrivals := session.peer.arrivals.tail }) := by
      rw [Peer.read, harrivals]
      rfl
    rw [receiveWithin, Fallible.run_bind, run_askPeer, hread, takePieces]
    simp only
    rw [Fallible.run_bind, run_emit]
    by_cases hcomplete : complete payload (received ++ byte :: bytes) = true
    · rw [if_pos hcomplete, if_pos hcomplete, List.flatten_singleton]
      exact ⟨_, rfl, rfl⟩
    · rw [if_neg hcomplete, if_neg hcomplete]
      obtain ⟨session', hrun, hevents⟩ := @ih
        { peer := { session.peer with arrivals := session.peer.arrivals.tail }
          events := session.events ++ [dataChunk codecs (byte :: bytes) false] }
        rounds (Nat.lt_of_succ_lt_succ hrounds) (received ++ byte :: bytes)
        (congrArg List.tail harrivals) fun read hmem => hreads read (List.mem_cons_of_mem _ hmem)
      refine ⟨session', ?_, ?_⟩
      · rw [List.flatten_cons, ← List.append_assoc]
        exact hrun
      · rw [hevents, List.append_assoc]
        rfl

theorem receiveLoop_run (harrivals : session.peer.arrivals = reads.map .data)
    (hreads : ∀ read ∈ reads, read ≠ []) :
    ∃ session', (receiveLoop codecs payload).run session =
        (.ok (takePieces (complete payload) [] reads).flatten, session') ∧
      session'.events = session.events ++
        (takePieces (complete payload) [] reads).map fun read => dataChunk codecs read false := by
  have hrounds : reads.length < session.peer.arrivals.length + 1 := by
    rw [harrivals, List.length_map]
    exact Nat.lt_succ_self _
  exact receiveWithin_run hrounds [] harrivals hreads

/-- What a run against such a peer comes to. -/
theorem execute_of_reachable (codecs : Codecs) (info : RunInfo)
    (h : Reachable request payload reads session.peer) (hreads : ∀ read ∈ reads, read ≠ []) :
    ∃ run summary session', execute codecs info request = some run ∧
      run.run session = (.ok summary, session') ∧
      summary.bytesReceived =
        UInt64.ofNat (takePieces (complete payload) [] reads).flatten.length ∧
      session'.events = session.events ++ [running .connect, responseMeta, running .transfer] ++
        (takePieces (complete payload) [] reads).map (fun read => dataChunk codecs read false) ++
          [dataChunk codecs [] true, .completed summary] := by
  obtain ⟨address, haddress⟩ := h.addressed
  obtain ⟨outgoing, hdecoded⟩ := h.decoded
  obtain ⟨session₁, hwrite, harrivals₁, hevents₁⟩ := @writeLoop_run payload
    { session with events := session.events ++ [running .connect] } outgoing
    (max payload.sendCount.toNat 1) h.writes h.pauses
  obtain ⟨session₂, hreceive, hevents₂⟩ := @receiveLoop_run codecs payload reads
    { session₁ with events := session₁.events ++ [responseMeta] ++ [running .transfer] }
    (harrivals₁.trans h.arrivals) hreads
  have hconnect : (connectTcp payload request).run
      { session with events := session.events ++ [running .connect] } =
        (.ok (), { session with events := session.events ++ [running .connect] }) :=
    connectTcp_run h.connecting h.secured
  let received := (takePieces (complete payload) [] reads).flatten
  let summary := completedSummary info request request.protocolId received.length none
  refine ⟨transfer codecs info request payload outgoing, summary, { session₂ with
    events := session₂.events ++ [dataChunk codecs [] true] ++ [.completed summary] },
    ?_, ?_, rfl, ?_⟩
  · rw [execute, haddress, h.carried]
    simp only [hdecoded]
    rfl
  · rw [transfer]
    simp only [Fallible.run_bind, run_emit, hconnect, hwrite, hreceive]
    rfl
  · simp only
    rw [hevents₂]
    simp only
    rw [hevents₁]
    simp only [List.append_assoc]
    rfl

/-- The chunks of reads carry the reads. -/
theorem flatMap_chunkBytes {pieces : List Bytes} (hpieces : ∀ piece ∈ pieces, piece ≠ [] ∧
    codecs.decodeBase64 (codecs.encodeBase64 piece) = .ok piece) :
    (pieces.map fun piece => dataChunk codecs piece false).flatMap (chunkBytes codecs) =
      pieces.flatten := by
  induction pieces with
  | nil => rfl
  | cons piece pieces ih =>
    obtain ⟨hnonempty, hdecode⟩ := hpieces piece List.mem_cons_self
    have hpiece : chunkBytes codecs (dataChunk codecs piece false) = piece := by
      rw [dataChunk, if_neg hnonempty, if_neg hnonempty, chunkBytes, hdecode]
      rfl
    rw [List.map_cons, List.flatMap_cons, List.flatten_cons, hpiece,
      ih fun piece hmem => hpieces piece (List.mem_cons_of_mem _ hmem)]

/-- The run reports exactly the frame if and only if one of the reads ends where the frame
does. -/
theorem frame_reported_iff (codecs : Codecs) (info : RunInfo) (request : RequestEnvelope)
    (session : Session Peer) (payload : SocketPayload) (framing : Framing) (reads : List Bytes)
    (hstart : session.events = []) (hreachable : Reachable request payload reads session.peer)
    (hframing : Asks payload framing) (hreads : ∀ read ∈ reads, read ≠ [])
    (hcodecs : ∀ read ∈ reads, codecs.decodeBase64 (codecs.encodeBase64 read) = .ok read) :
    (∃ run, execute codecs info request = some run ∧
        Reports codecs (framing.frame reads.flatten) (run.run session)) ↔
      ∃ count, (reads.take count).flatten = framing.frame reads.flatten := by
  obtain ⟨run, summary, session', hexecute, hrun, hsize, hevents⟩ :=
    execute_of_reachable codecs info hreachable hreads
  have hreported : reported codecs session'.events =
      (takePieces (complete payload) [] reads).flatten := by
    rw [hevents, hstart, reported, List.flatMap_append, List.flatMap_append, flatMap_chunkBytes
      fun read hmem => ⟨hreads read (mem_of_mem_takePieces hmem),
        hcodecs read (mem_of_mem_takePieces hmem)⟩]
    exact List.append_nil _
  have hpieces := flatten_takePieces_eq_iff hframing.complete_nil (hframing.stopsAt reads.flatten)
  simp only [List.nil_append] at hpieces
  rw [← hpieces]
  constructor
  · rintro ⟨run', hexecute', hframe, -⟩
    rw [hexecute] at hexecute'
    cases hexecute'
    rw [hrun] at hframe
    exact hreported.symm.trans hframe
  · intro hframe
    refine ⟨run, hexecute, ?_⟩
    rw [hrun]
    exact ⟨hreported.trans hframe, summary, rfl, by rw [hsize, hframe]⟩

end Runs

/-! ## Two servers -/

def socketRequest (payload : SocketPayload) : RequestEnvelope :=
  { RequestEnvelope.httpGet "request" "2026-01-01T00:00:00Z" "line" "tcp://server:7" with
    protocolId := "tcp"
    payload := .tcp payload }

def socketRun : RunInfo := ⟨"run", "2026-01-01T00:00:00Z", "2026-01-01T00:00:01Z", 1000⟩

/-- A server that sends these reads and closes. -/
def serving (reads : List Bytes) : Session Peer :=
  ⟨⟨.ok (), .ok (), [], [], reads.map .data, []⟩, []⟩

def linePayload : SocketPayload :=
  ⟨"ping", "text", some "delimiter", some "\r\n", none, 1, 0, false, none, none⟩

/-- A codec for the two parts of a line. -/
def lineCodecs : Codecs where
  encodeBase64 bytes := if bytes = utf8 "ok\r" then "b2sN" else "Cg=="
  decodeBase64 text := .ok (if text = "b2sN" then utf8 "ok\r" else utf8 "\n")
  pretty _ := ""
  isFloat _ _ := false

theorem target_server (payload : SocketPayload) :
    target (socketRequest payload) "tcp" = .ok "server:7" := by
  have htarget : (socketRequest payload).target = "tcp://server:7" := rfl
  rw [target, htarget]
  decide +kernel

theorem reachable_serving {payload : SocketPayload} {reads : List Bytes}
    (hdata : payload.encoding = "text") (htls : payload.tls = false) :
    Reachable (socketRequest payload) payload reads (serving reads).peer where
  carried := rfl
  addressed := ⟨_, target_server payload⟩
  decoded := ⟨utf8 payload.data, by rw [hdata]; rfl⟩
  connecting := rfl
  secured := fun h => absurd (htls.symm.trans h) Bool.false_ne_true
  writes := rfl
  pauses := rfl
  arrivals := rfl

/-- The delimiter is spread over two reads. -/
theorem frame_reported_iff_line :
    ∃ run, execute lineCodecs socketRun (socketRequest linePayload) = some run ∧
      Reports lineCodecs (utf8 "ok\r\n") (run.run (serving [utf8 "ok\r", utf8 "\n"])) :=
  (frame_reported_iff lineCodecs socketRun (socketRequest linePayload)
    (serving [utf8 "ok\r", utf8 "\n"]) linePayload (.delimiter (utf8 "\r\n"))
    [utf8 "ok\r", utf8 "\n"] rfl (reachable_serving rfl rfl)
    (.delimiter rfl rfl (by decide)) (by decide) (by decide)).mpr ⟨2, by decide⟩

def fixedPayload : SocketPayload :=
  ⟨"ping", "text", some "fixed", none, some 2, 1, 0, false, none, none⟩

/-- What comes behind a frame of two bytes in the same read is reported with it. -/
theorem not_frame_reported :
    ¬∀ (codecs : Codecs) (info : RunInfo) (request : RequestEnvelope) (session : Session Peer)
      (payload : SocketPayload) (framing : Framing) (reads : List Bytes), session.events = [] →
        Reachable request payload reads session.peer → Asks payload framing →
        (∀ read ∈ reads, read ≠ []) →
        (∀ read ∈ reads, codecs.decodeBase64 (codecs.encodeBase64 read) = .ok read) →
        ∃ run, execute codecs info request = some run ∧
          Reports codecs (framing.frame reads.flatten) (run.run session) := by
  intro h
  have hreachable : Reachable (socketRequest fixedPayload) fixedPayload [utf8 "ok\r"]
      (serving [utf8 "ok\r"]).peer := reachable_serving rfl rfl
  have hasks : Asks fixedPayload (.fixed (2 : UInt64).toNat) := .fixed rfl rfl (by decide)
  obtain ⟨run, hexecute, -, summary, hok, hsize⟩ := h lineCodecs socketRun
    (socketRequest fixedPayload) (serving [utf8 "ok\r"]) fixedPayload (.fixed 2) [utf8 "ok\r"]
    rfl hreachable hasks (by decide) (by decide)
  obtain ⟨run', summary', session', hexecute', hrun, hsize', -⟩ :=
    execute_of_reachable lineCodecs socketRun hreachable (by decide)
  rw [hexecute] at hexecute'
  cases hexecute'
  rw [hrun] at hok
  cases hok
  rw [hsize] at hsize'
  have htake : (takePieces (complete fixedPayload) [] [utf8 "ok\r"]).flatten = utf8 "ok\r" := by
    decide
  rw [htake] at hsize'
  exact absurd hsize' (by decide)

end ApiVoy.Drivers.Tcp
