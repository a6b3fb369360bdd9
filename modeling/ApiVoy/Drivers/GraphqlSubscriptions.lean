/-
# What subscriptions come to

Three things together: what is reported of the messages of a server, which documents are taken for
subscriptions, and where their WebSocket is opened.
-/

import ApiVoy.Drivers.GraphqlRuns
import ApiVoy.Foundation.Script

namespace ApiVoy.Drivers.Graphql

open Foundation Domain Engine Drivers.WebSocket

/-! ## Documents -/

inductive OperationType where
  | query
  | mutation
  | subscription
  deriving DecidableEq

/-- How an operation can begin; a query does not need its keyword. -/
def OperationType.openings : OperationType → List String
  | .query => ["query", "\x7b"]
  | .mutation => ["mutation"]
  | .subscription => ["subscription"]

variable {blank : List Char}

theorem dropWhile_isWhitespace_append (hblank : blank.all isWhitespace = true) {c : Char}
    (hc : isWhitespace c = false) (rest : List Char) :
    (blank ++ c :: rest).dropWhile isWhitespace = c :: rest := by
  induction blank with
  | nil =>
    rw [List.nil_append, List.dropWhile_cons, hc]
    rfl
  | cons b blank ih =>
    rw [List.all_cons, Bool.and_eq_true] at hblank
    rw [List.cons_append, List.dropWhile_cons, hblank.1, if_pos rfl, ih hblank.2]

/-- Behind white space the operation decides, whatever follows its first word. -/
theorem isSubscription_opening (hblank : blank.all isWhitespace = true) {operation : OperationType}
    {opening : String} (hopening : opening ∈ operation.openings) (rest : List Char) :
    isSubscription (String.ofList (blank ++ (opening.toList ++ rest))) =
      decide (operation = .subscription) := by
  have htext : (String.ofList (blank ++ (opening.toList ++ rest))).toList =
      blank ++ (opening.toList ++ rest) := String.toList_ofList
  rw [isSubscription, htext]
  cases operation with
  | query =>
    rcases List.mem_pair.mp hopening with rfl | rfl
    · have hword : isWhitespace 'q' = false := by decide
      exact congrArg _ (dropWhile_isWhitespace_append hblank hword _)
    · have hbrace : isWhitespace '\x7b' = false := by decide
      exact congrArg _ (dropWhile_isWhitespace_append hblank hbrace _)
  | mutation =>
    have hword : isWhitespace 'm' = false := by decide
    rw [List.mem_singleton.mp hopening]
    exact congrArg _ (dropWhile_isWhitespace_append hblank hword _)
  | subscription =>
    have hword : isWhitespace 's' = false := by decide
    rw [List.mem_singleton.mp hopening]
    refine (congrArg _ (dropWhile_isWhitespace_append hblank hword _)).trans ?_
    exact List.isPrefixOf_iff_prefix.mpr (List.prefix_append "subscription".toList rest)

/-! ## Addresses -/

inductive Scheme where
  | http
  | https
  | ws
  | wss
  deriving DecidableEq

def Scheme.text : Scheme → String
  | .http => "http://"
  | .https => "https://"
  | .ws => "ws://"
  | .wss => "wss://"

def Scheme.socket : Scheme → Scheme
  | .http | .ws => .ws
  | .https | .wss => .wss

/-- What may not occur behind a scheme, so that only the scheme is rewritten. -/
def Scheme.rewritten : Scheme → List String
  | .http => ["https://"]
  | .https => ["http://"]
  | .ws | .wss => ["http://", "https://"]

theorem replaceFirst_scheme {part : List Char} (replacement : List Char) {text : List Char}
    (hbegins : ∀ begun ∈ text.tails, begun ≠ [] → ∃ n, n < begun.length ∧ n < part.length ∧
      begun[n]? ≠ part[n]?) {rest : List Char} (hrest : ¬part <:+: rest) :
    replaceFirst part replacement (text ++ rest) = text ++ rest := by
  rw [replaceFirst_append_of_not, replaceFirst_of_not_within replacement hrest]
  rintro begun hne hsuffix ⟨more, hmore⟩
  obtain ⟨n, hbegun, hpart, hdiffer⟩ := hbegins begun ((List.mem_tails _ _).mpr hsuffix) hne
  have hsame : (part ++ more)[n]? = (begun ++ rest)[n]? := by rw [hmore]
  rw [List.getElem?_append_left hpart, List.getElem?_append_left hbegun] at hsame
  exact hdiffer hsame.symm

theorem subscriptionTarget_scheme (scheme : Scheme) (rest : List Char)
    (hrest : ∀ part ∈ scheme.rewritten, ¬part.toList <:+: rest) :
    subscriptionTarget (String.ofList (scheme.text.toList ++ rest)) =
      String.ofList (scheme.socket.text.toList ++ rest) := by
  have htext : (String.ofList (scheme.text.toList ++ rest)).toList = scheme.text.toList ++ rest :=
    String.toList_ofList
  rw [subscriptionTarget, htext]
  refine congrArg String.ofList ?_
  cases scheme with
  | http =>
    rw [Scheme.text, replaceFirst_scheme "wss://".toList (by decide) (hrest _ List.mem_cons_self)]
    exact replaceFirst_append (by decide) _ rest
  | https =>
    rw [Scheme.text, replaceFirst_append (by decide) "wss://".toList rest]
    exact replaceFirst_scheme _ (by decide) (hrest _ List.mem_cons_self)
  | ws | wss =>
    rw [Scheme.text, replaceFirst_scheme "wss://".toList (by decide)
      (hrest _ (List.mem_cons_of_mem _ List.mem_cons_self))]
    exact replaceFirst_scheme _ (by decide) (hrest _ List.mem_cons_self)

/-! ## Subscriptions -/

/-- A run of a subscription on a connection: what it says to the server and what it reports are
what the messages of the server call for. -/
def RunsAs (codecs : Codecs) (library : GraphqlLibrary) (request : RequestEnvelope)
    (payload : GraphqlPayload) (session : Session Server) (connection : WebSocket.Connection)
    (frames : List WebSocket.Frame) (messages : List ServerMessage) : Prop :=
  ∃ result writes traffic events,
    (executeSubscription codecs library request payload).run session =
      (result.map fun bytes => (bytes, connection.status),
        ⟨session.peer.connect.2.saying writes traffic, session.events ++ events⟩) ∧
    Conversed codecs connection frames messages result traffic events

theorem runsAs_of_carries {codecs : Codecs} {library : GraphqlLibrary} {request : RequestEnvelope}
    {payload : GraphqlPayload} {session : Session Server} {connection : WebSocket.Connection}
    {frames : List WebSocket.Frame} {messages : List ServerMessage}
    {headers : List (String × String)}
    (hhandshake : subscriptionHandshake library request payload = .ok headers)
    (hconnect : session.peer.connect.1 = .opened connection)
    (harrivals : connection.arrivals = frames.map .frame)
    (hcarries : List.Forall₂ (Carries library) frames messages) :
    RunsAs codecs library request payload session connection frames messages := by
  have hutters : Utters (converse codecs library payload connection)
      (Conversed codecs connection frames messages) := utters_converse harrivals hcarries payload
  obtain ⟨result, writes, traffic, events, hrun, hconversed⟩ :=
    hutters session.peer.connect.2 session.events
  refine ⟨result, writes, traffic, events, ?_, hconversed⟩
  have hask := run_askPeer Server.connect session
  rw [hconnect] at hask
  unfold executeSubscription
  rw [hhandshake, Fallible.run_bind_of_ok (run_ofExcept _ session),
    Fallible.run_bind_of_ok hask]
  dsimp only
  cases result with
  | ok bytes => rw [Fallible.run_bind_of_ok hrun]; rfl
  | error e => rw [Fallible.run_bind_of_error hrun]; rfl

/-- On every connection that opens, the messages of the server are reported up to the one that
says that the operation is complete. Behind white space the operation of a document decides
whether it is a subscription. Of an address only the scheme is rewritten, unless another scheme
occurs behind it. -/
theorem subscriptions_run :
    (∀ (codecs : Codecs) (library : GraphqlLibrary) (request : RequestEnvelope)
      (payload : GraphqlPayload) (session : Session Server) (connection : WebSocket.Connection)
      (frames : List WebSocket.Frame) (messages : List ServerMessage)
      (headers : List (String × String)),
      subscriptionHandshake library request payload = .ok headers →
      session.peer.connect.1 = .opened connection → connection.arrivals = frames.map .frame →
      List.Forall₂ (Carries library) frames messages →
        RunsAs codecs library request payload session connection frames messages) ∧
    (∀ (blank : List Char) (operation : OperationType) (opening : String) (rest : List Char),
      blank.all isWhitespace = true → opening ∈ operation.openings →
        isSubscription (String.ofList (blank ++ (opening.toList ++ rest))) =
          decide (operation = .subscription)) ∧
    ∀ (scheme : Scheme) (rest : List Char),
      (∀ part ∈ scheme.rewritten, ¬part.toList <:+: rest) →
        subscriptionTarget (String.ofList (scheme.text.toList ++ rest)) =
          String.ofList (scheme.socket.text.toList ++ rest) := by
  refine ⟨?_, ?_, ?_⟩
  · intro _ _ _ _ _ _ _ _ _ hhandshake hconnect harrivals hcarries
    exact runsAs_of_carries hhandshake hconnect harrivals hcarries
  · intro _ _ _ rest hblank hopening
    exact isSubscription_opening hblank hopening rest
  · exact subscriptionTarget_scheme

/-! ## An error of the operation -/

def sampleLibrary : GraphqlLibrary where
  intoClientRequest _ := .ok []
  parseHeaderName name := .ok name
  parseHeaderValue _ := .ok ()
  parseJson text := match JsonText.parseChars text.toList with
    | some value => .ok value
    | none => .error "expected value"
  compact value := Script.stringify .ascii 0 value

def samplePayload : GraphqlPayload := ⟨"subscription \x7b event \x7d", .obj [], none, []⟩

def sampleRequest : RequestEnvelope :=
  { RequestEnvelope.httpGet "r1" "2026-01-01T00:00:00Z" "events" "https://api.example/graphql" with
    protocolId := "graphql"
    payload := .graphql samplePayload }

/-- The server takes the connection over, reports an event and an error, and is done. -/
def sampleTexts : List String :=
  ["\x7b\"type\":\"connection_ack\"\x7d",
    "\x7b\"id\":\"1\",\"payload\":\"ready\",\"type\":\"next\"\x7d",
    "\x7b\"id\":\"1\",\"payload\":\"failed\",\"type\":\"error\"\x7d",
    "\x7b\"id\":\"1\",\"type\":\"complete\"\x7d"]

def sampleMessages : List ServerMessage :=
  [⟨.ack, .null⟩, ⟨.next, .str "ready"⟩, ⟨.error, .str "failed"⟩, ⟨.complete, .null⟩]

def sampleConnection : WebSocket.Connection where
  status := 101
  reason := none
  headers := []
  writes := []
  arrivals := (sampleTexts.map WebSocket.Frame.text).map .frame

def sampleSession : Session Server where
  peer := {
    connections := fun _ => .opened sampleConnection
    pauses := fun _ => false
    attempts := 0
    paused := 0
    writes := []
    conversations := [] }
  events := []

theorem carries_sampleTexts :
    List.Forall₂ (Carries sampleLibrary) (sampleTexts.map WebSocket.Frame.text) sampleMessages :=
  .cons ⟨_, .obj [("type", .str "connection_ack")], rfl, by decide +kernel, rfl, rfl⟩ <|
  .cons ⟨_, .obj [("id", .str "1"), ("payload", .str "ready"), ("type", .str "next")], rfl,
    by decide +kernel, rfl, rfl⟩ <|
  .cons ⟨_, .obj [("id", .str "1"), ("payload", .str "failed"), ("type", .str "error")], rfl,
    by decide +kernel, rfl, rfl⟩ <|
  .cons ⟨_, .obj [("id", .str "1"), ("type", .str "complete")], rfl, by decide +kernel, rfl, rfl⟩
    .nil

theorem handshake_sampleRequest : subscriptionHandshake sampleLibrary sampleRequest samplePayload =
    .ok [("sec-websocket-protocol", "graphql-transport-ws")] := rfl

theorem subscriptions_run_sample :
    RunsAs Codecs.unused sampleLibrary sampleRequest samplePayload sampleSession sampleConnection
      (sampleTexts.map .text) sampleMessages ∧
    isSubscription (String.ofList ("\n ".toList ++ ("subscription".toList ++ "\x7b".toList))) =
      decide (OperationType.subscription = .subscription) ∧
    subscriptionTarget (String.ofList ("https://".toList ++ "api.example".toList)) =
      String.ofList ("wss://".toList ++ "api.example".toList) := by
  refine ⟨?_, ?_, ?_⟩
  · exact subscriptions_run.1 _ _ _ _ _ _ _ _ _ handshake_sampleRequest rfl rfl carries_sampleTexts
  · exact subscriptions_run.2.1 _ _ _ _ (by decide) List.mem_cons_self
  · exact subscriptions_run.2.2 .https _ fun part hpart => by
      rw [List.mem_singleton.mp hpart]
      intro hwithin
      have hslash := hwithin.subset (List.mem_of_elem_eq_true (by decide : "http://".toList.elem '/'))
      revert hslash
      decide

/-- A run goes on behind an error of the operation, and does not fail. -/
theorem error_not_final :
    ¬∀ (codecs : Codecs) (library : GraphqlLibrary) (request : RequestEnvelope)
      (payload : GraphqlPayload) (session : Session Server) (connection : WebSocket.Connection)
      (frames : List WebSocket.Frame) (messages before after : List ServerMessage)
      (error : ServerMessage) (headers : List (String × String)),
      subscriptionHandshake library request payload = .ok headers →
      session.peer.connect.1 = .opened connection → connection.arrivals = frames.map .frame →
      List.Forall₂ (Carries library) frames messages →
      operationMessages messages = before ++ error :: after → error.kind = .error →
      (∀ message ∈ before, message.kind = .next) →
        ∃ e, ((executeSubscription codecs library request payload).run session).1 = .error e := by
  intro hall
  obtain ⟨e, herror⟩ := hall Codecs.unused sampleLibrary sampleRequest samplePayload sampleSession
    sampleConnection (sampleTexts.map .text) sampleMessages [⟨.next, .str "ready"⟩]
    [⟨.complete, .null⟩] ⟨.error, .str "failed"⟩ _ handshake_sampleRequest rfl rfl
    carries_sampleTexts rfl rfl (List.forall_mem_singleton.mpr rfl)
  have hok : ((executeSubscription Codecs.unused sampleLibrary sampleRequest samplePayload).run
      sampleSession).1 = .ok (0, 101) := by decide +kernel
  rw [hok] at herror
  cases herror

end ApiVoy.Drivers.Graphql
