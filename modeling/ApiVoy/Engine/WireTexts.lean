/-
# Texts that are sent

Every driver sends texts of its request. The ones that resolution visits have the values of
their placeholders in place; the others are sent as they were written.
-/

import ApiVoy.Engine.Templates
import ApiVoy.Foundation.Fallible

namespace ApiVoy.Engine

open Domain Foundation

/-! ## The texts of a request -/

mutual

/-- The strings and names in a JSON value. -/
def jsonTexts : Json → List String
  | .str text => [text]
  | .arr items => itemTexts items
  | .obj members => memberTexts members
  | _ => []

def itemTexts : List Json → List String
  | [] => []
  | item :: items => jsonTexts item ++ itemTexts items

def memberTexts : List (String × Json) → List String
  | [] => []
  | (name, value) :: members => name :: (jsonTexts value ++ memberTexts members)

end

/-- The names and values of headers or metadata. -/
def pairTexts (pairs : List (String × String)) : List String :=
  pairs.flatMap fun pair => [pair.1, pair.2]

/-- A value in base64 is sent decoded. -/
def partTexts (part : MultipartPart) : List String :=
  part.name :: ((if part.base64 = true then [] else [part.value]) ++ part.fileName.toList ++
    part.contentType.toList)

def visitedTexts : ProtocolPayload → List String
  | .http payload =>
    pairTexts payload.headers ++
      (if payload.bodyEncoding ≠ "base64" then payload.body.toList else []) ++
      payload.multipart.flatMap partTexts
  | .sse payload => pairTexts payload.headers ++ payload.lastEventId.toList
  | .tcp payload => [payload.data]
  | .udp payload => [payload.data]
  | .graphql payload => payload.query :: pairTexts payload.headers
  | .websocket payload =>
    pairTexts payload.headers ++ payload.messages.map WebSocketMessage.data
  | .grpc payload => pairTexts payload.metadata ++ payload.messageJson.toList
  | .raw _ => []

/-- The texts of a payload that are sent as they are. -/
def unvisitedTexts : ProtocolPayload → List String
  | .graphql payload => jsonTexts payload.vars ++ payload.operationName.toList
  | .websocket payload => payload.subprotocols
  | .grpc payload => [payload.service, payload.method]
  | .raw value => jsonTexts value
  | _ => []

def requestVisited (request : RequestEnvelope) : List String :=
  request.target :: (request.proxy.toList ++ visitedTexts request.payload)

/-- The texts that the driver of a request sends. -/
def wireTexts (request : RequestEnvelope) : List String :=
  requestVisited request ++ unvisitedTexts request.payload

def placeholders (request : RequestEnvelope) : List String :=
  (wireTexts request).flatMap keys

/-! ## What resolution does to them -/

section Values

variable {resolve : String → Except String String} {value : String → String}

theorem resolveOptional_eq_ok (hvalue : ∀ text resolved, resolve text = .ok resolved →
    resolved = value text) {text resolved : Option String}
    (h : resolveOptional resolve text = .ok resolved) : resolved = text.map value := by
  cases text with
  | none =>
    cases h
    rfl
  | some text =>
    obtain ⟨found, hfound, heq⟩ := bind_eq_ok_iff.mp h
    cases heq
    rw [hvalue text found hfound]
    rfl

theorem resolvePairs_eq_ok (hvalue : ∀ text resolved, resolve text = .ok resolved →
    resolved = value text) {pairs resolved : List (String × String)}
    (h : resolvePairs resolve pairs = .ok resolved) :
    pairTexts resolved = (pairTexts pairs).map value := by
  induction pairs generalizing resolved with
  | nil =>
    cases h
    rfl
  | cons pair pairs ih =>
    obtain ⟨name, text⟩ := pair
    obtain ⟨first, hfirst, h⟩ := bind_eq_ok_iff.mp h
    obtain ⟨second, hsecond, h⟩ := bind_eq_ok_iff.mp h
    obtain ⟨rest, hrest, h⟩ := bind_eq_ok_iff.mp h
    cases h
    have htexts : ∀ (name text : String) (rest : List (String × String)),
        pairTexts ((name, text) :: rest) = name :: text :: pairTexts rest := fun _ _ _ => rfl
    rw [htexts, htexts, ih hrest, hvalue name first hfirst, hvalue text second hsecond]
    rfl

theorem toList_map (text : Option String) : (text.map value).toList = text.toList.map value := by
  cases text <;> rfl

theorem resolvePart_eq_ok (hvalue : ∀ text resolved, resolve text = .ok resolved →
    resolved = value text) {part resolved : MultipartPart}
    (h : resolvePart resolve part = .ok resolved) :
    partTexts resolved = (partTexts part).map value := by
  obtain ⟨name, hname, h⟩ := bind_eq_ok_iff.mp h
  dsimp only at h
  split at h
  · rename_i hbase
    obtain ⟨content, hcontent, h⟩ := bind_eq_ok_iff.mp h
    obtain ⟨fileName, hfileName, h⟩ := bind_eq_ok_iff.mp h
    obtain ⟨contentType, hcontentType, h⟩ := bind_eq_ok_iff.mp h
    cases h
    simp [partTexts, hbase, hvalue _ _ hname, resolveOptional_eq_ok hvalue hfileName,
      resolveOptional_eq_ok hvalue hcontentType, toList_map]
  · rename_i hbase
    obtain ⟨content, hcontent, h⟩ := bind_eq_ok_iff.mp h
    obtain ⟨fileName, hfileName, h⟩ := bind_eq_ok_iff.mp h
    obtain ⟨contentType, hcontentType, h⟩ := bind_eq_ok_iff.mp h
    cases h
    simp [partTexts, hbase, hvalue _ _ hname, hvalue _ _ hcontent,
      resolveOptional_eq_ok hvalue hfileName, resolveOptional_eq_ok hvalue hcontentType, toList_map]

/-- Texts of items that are resolved one after the other. -/
theorem flatMap_eq_of_mapM {α : Type} {f : α → Except String α} {texts : α → List String}
    (hf : ∀ item resolved, f item = .ok resolved → texts resolved = (texts item).map value)
    {items resolved : List α} (h : items.mapM f = .ok resolved) :
    resolved.flatMap texts = (items.flatMap texts).map value := by
  induction items generalizing resolved with
  | nil =>
    cases h
    rfl
  | cons item items ih =>
    rw [List.mapM_cons] at h
    obtain ⟨first, hfirst, h⟩ := bind_eq_ok_iff.mp h
    obtain ⟨rest, hrest, h⟩ := bind_eq_ok_iff.mp h
    cases h
    rw [List.flatMap_cons, List.flatMap_cons, List.map_append, ih hrest, hf item first hfirst]

/-- Resolution replaces the texts that it visits and keeps the others. -/
theorem resolvePayload_eq_ok (hvalue : ∀ text resolved, resolve text = .ok resolved →
    resolved = value text) {payload resolved : ProtocolPayload}
    (h : resolvePayload resolve payload = .ok resolved) :
    visitedTexts resolved = (visitedTexts payload).map value ∧
      unvisitedTexts resolved = unvisitedTexts payload := by
  cases payload with
  | http payload =>
    obtain ⟨headers, hheaders, h⟩ := bind_eq_ok_iff.mp h
    dsimp only at h
    split at h
    · rename_i hencoding
      obtain ⟨body, hbody, h⟩ := bind_eq_ok_iff.mp h
      obtain ⟨multipart, hmultipart, h⟩ := bind_eq_ok_iff.mp h
      cases h
      refine ⟨?_, rfl⟩
      have hparts := flatMap_eq_of_mapM (fun _ _ => resolvePart_eq_ok hvalue) hmultipart
      simp only [visitedTexts, resolvePairs_eq_ok hvalue hheaders, hparts, if_pos hencoding,
        resolveOptional_eq_ok hvalue hbody, toList_map, List.map_append]
    · rename_i hencoding
      obtain ⟨body, -, h⟩ := bind_eq_ok_iff.mp h
      obtain ⟨multipart, hmultipart, h⟩ := bind_eq_ok_iff.mp h
      cases h
      refine ⟨?_, rfl⟩
      have hparts := flatMap_eq_of_mapM (fun _ _ => resolvePart_eq_ok hvalue) hmultipart
      simp only [visitedTexts, resolvePairs_eq_ok hvalue hheaders, hparts, if_neg hencoding,
        List.map_append, List.map_nil]
  | sse payload =>
    obtain ⟨headers, hheaders, h⟩ := bind_eq_ok_iff.mp h
    obtain ⟨lastEventId, hlast, h⟩ := bind_eq_ok_iff.mp h
    cases h
    refine ⟨?_, rfl⟩
    simp only [visitedTexts, resolvePairs_eq_ok hvalue hheaders,
      resolveOptional_eq_ok hvalue hlast, toList_map, List.map_append]
  | tcp payload =>
    obtain ⟨data, hdata, h⟩ := bind_eq_ok_iff.mp h
    obtain ⟨delimiter, -, h⟩ := bind_eq_ok_iff.mp h
    obtain ⟨serverName, -, h⟩ := bind_eq_ok_iff.mp h
    obtain ⟨caCertRef, -, h⟩ := bind_eq_ok_iff.mp h
    cases h
    exact ⟨congrArg (fun text => [text]) (hvalue _ _ hdata), rfl⟩
  | udp payload =>
    obtain ⟨data, hdata, h⟩ := bind_eq_ok_iff.mp h
    cases h
    exact ⟨congrArg (fun text => [text]) (hvalue _ _ hdata), rfl⟩
  | graphql payload =>
    obtain ⟨query, hquery, h⟩ := bind_eq_ok_iff.mp h
    obtain ⟨headers, hheaders, h⟩ := bind_eq_ok_iff.mp h
    cases h
    refine ⟨?_, rfl⟩
    simp only [visitedTexts, resolvePairs_eq_ok hvalue hheaders, hvalue _ _ hquery, List.map_cons]
  | websocket payload =>
    obtain ⟨headers, hheaders, h⟩ := bind_eq_ok_iff.mp h
    obtain ⟨messages, hmessages, h⟩ := bind_eq_ok_iff.mp h
    cases h
    refine ⟨?_, rfl⟩
    have hmessage : ∀ message resolved : WebSocketMessage,
        (do let data ← resolve message.data; return { message with data := data } :
          Except String WebSocketMessage) = .ok resolved →
        [resolved.data] = [message.data].map value := by
      intro message resolved heq
      obtain ⟨data, hdata, heq⟩ := bind_eq_ok_iff.mp heq
      cases heq
      exact congrArg (fun text => [text]) (hvalue _ _ hdata)
    have hdata := flatMap_eq_of_mapM hmessage hmessages
    have htexts : ∀ messages : List WebSocketMessage,
        messages.map WebSocketMessage.data = messages.flatMap fun message => [message.data] :=
      fun messages => List.map_eq_flatMap
    rw [visitedTexts, visitedTexts, resolvePairs_eq_ok hvalue hheaders, List.map_append, htexts,
      htexts, hdata]
  | grpc payload =>
    obtain ⟨metadata, hmetadata, h⟩ := bind_eq_ok_iff.mp h
    obtain ⟨messageJson, hmessage, h⟩ := bind_eq_ok_iff.mp h
    cases h
    refine ⟨?_, rfl⟩
    simp only [visitedTexts, resolvePairs_eq_ok hvalue hmetadata,
      resolveOptional_eq_ok hvalue hmessage, toList_map, List.map_append]
  | raw payload =>
    cases h
    exact ⟨rfl, rfl⟩

end Values

section Requests

variable (dynamics : Dynamics)

/-- The text with a value for each placeholder that has one. -/
def withValues (vars : StringMap) (text : String) : String :=
  String.ofList ((pieces text).flatMap fun
    | .char c => [c]
    | .placeholder inside => ((valueOf dynamics vars (keyOf inside)).getD "").toList)

/-- A template that is resolved has its values in place. -/
theorem resolveTemplate_eq_ok {vars : StringMap} {text resolved : String}
    (h : resolveTemplate dynamics text vars = .ok resolved) :
    resolved = withValues dynamics vars text := by
  unfold withValues
  unfold resolveTemplate at h
  generalize pieces text = ps at h
  induction ps generalizing resolved with
  | nil =>
    cases h
    rfl
  | cons piece ps ih =>
    obtain ⟨first, hfirst, h⟩ := bind_eq_ok_iff.mp h
    obtain ⟨rest, hrest, h⟩ := bind_eq_ok_iff.mp h
    cases h
    rw [ih hrest, List.flatMap_cons, String.ofList_append]
    congr 1
    cases piece with
    | char c =>
      cases hfirst
      rfl
    | placeholder inside =>
      rw [Piece.resolve] at hfirst
      cases hvalue : valueOf dynamics vars (keyOf inside) with
      | none =>
        rw [hvalue] at hfirst
        cases hfirst
      | some value =>
        rw [hvalue] at hfirst
        cases hfirst
        simp [hvalue]

theorem resolveRequest_eq_ok {request resolved : RequestEnvelope} {scope : VariableScope}
    (h : resolveRequest dynamics request scope = .ok resolved) :
    requestVisited resolved =
        (requestVisited request).map
          (withValues dynamics (request.vars ∪ scope.merged)) ∧
      unvisitedTexts resolved.payload = unvisitedTexts request.payload := by
  have hvalue : ∀ text resolved,
      resolveTemplate dynamics text (request.vars ∪ scope.merged) = .ok resolved →
      resolved = withValues dynamics (request.vars ∪ scope.merged) text := fun _ _ =>
    resolveTemplate_eq_ok dynamics
  obtain ⟨target, htarget, h⟩ := bind_eq_ok_iff.mp h
  obtain ⟨proxy, hproxy, h⟩ := bind_eq_ok_iff.mp h
  obtain ⟨payload, hpayload, h⟩ := bind_eq_ok_iff.mp h
  cases h
  obtain ⟨hvisited, hunvisited⟩ := resolvePayload_eq_ok hvalue hpayload
  refine ⟨?_, hunvisited⟩
  simp only [requestVisited, hvalue _ _ htarget, resolveOptional_eq_ok hvalue hproxy,
    hvisited, toList_map, List.map_cons, List.map_append]

/-- No text that is sent has a placeholder of the request exactly when the texts that resolution
does not visit have no placeholders, and no value brings one into a text that it visits. -/
theorem resolveRequest_complete_iff {request resolved : RequestEnvelope} {scope : VariableScope}
    (h : resolveRequest dynamics request scope = .ok resolved) :
    (∀ text ∈ wireTexts resolved, ∀ key ∈ keys text,
        key ∉ placeholders request) ↔
      (∀ text ∈ unvisitedTexts request.payload, keys text = []) ∧
        ∀ text ∈ requestVisited request,
          ∀ key ∈ keys (withValues dynamics (request.vars ∪ scope.merged) text),
            key ∉ placeholders request := by
  obtain ⟨hvisited, hunvisited⟩ := resolveRequest_eq_ok dynamics h
  have hkept : (∀ text ∈ unvisitedTexts request.payload, ∀ key ∈ keys text,
        key ∉ placeholders request) ↔
      ∀ text ∈ unvisitedTexts request.payload, keys text = [] := by
    refine forall₂_congr fun text htext => ⟨fun hnone => ?_, fun hnil key hkey => ?_⟩
    · refine List.eq_nil_iff_forall_not_mem.mpr fun key hkey => hnone key hkey ?_
      exact List.mem_flatMap.mpr ⟨text, List.mem_append_right _ htext, hkey⟩
    · rw [hnil] at hkey
      cases hkey
  rw [wireTexts, List.forall_mem_append, hvisited, hunvisited,
    List.forall_mem_map, hkept]
  exact and_comm

/-- A text without braces has no placeholders. -/
theorem keys_of_plain {text : String} (h : ∀ c ∈ text.toList, isBrace c = false) :
    keys text = [] := by
  have hpieces : ∀ (fuel : Nat) (chars : List Char), (∀ c ∈ chars, isBrace c = false) →
      ∀ inside, Piece.placeholder inside ∉ piecesFrom fuel chars := by
    intro fuel
    induction fuel with
    | zero => exact fun _ _ _ => List.not_mem_nil
    | succ fuel ih =>
      intro chars hplain inside hmem
      cases chars with
      | nil => cases hmem
      | cons c chars =>
        have hnone : placeholderAt (c :: chars) = none := by
          unfold placeholderAt
          split
          · rename_i heq
            cases heq
            exact absurd (hplain _ List.mem_cons_self) (by decide)
          · rfl
        rw [piecesFrom, hnone] at hmem
        obtain hchar | hrest := List.mem_cons.mp hmem
        · cases hchar
        · exact ih chars (fun c hc => hplain c (List.mem_cons_of_mem _ hc)) inside hrest
  refine List.filterMap_eq_nil_iff.mpr fun piece hpiece => ?_
  cases piece with
  | char c => rfl
  | placeholder inside => exact absurd hpiece (hpieces _ _ h inside)

/-- No value brings a placeholder into a text with braces in its placeholders only, if no value has
a brace. -/
theorem keys_withValues {vars : StringMap} {text : String}
    (htext : ∀ c, Piece.char c ∈ pieces text → isBrace c = false)
    (hvalues : ∀ key ∈ keys text, ∀ value, valueOf dynamics vars key = some value →
      ∀ c ∈ value.toList, isBrace c = false) :
    keys (withValues dynamics vars text) = [] := by
  refine keys_of_plain fun c hc => ?_
  rw [withValues, String.toList_ofList] at hc
  obtain ⟨piece, hpiece, hmem⟩ := List.mem_flatMap.mp hc
  cases piece with
  | char d => exact List.mem_singleton.mp hmem ▸ htext d hpiece
  | placeholder inside =>
    have hkey : keyOf inside ∈ keys text := List.mem_filterMap.mpr ⟨_, hpiece, rfl⟩
    dsimp only at hmem
    cases hvalue : valueOf dynamics vars (keyOf inside) with
    | none =>
      rw [hvalue] at hmem
      cases hmem
    | some value =>
      rw [hvalue] at hmem
      exact hvalues _ hkey value hvalue c hmem

end Requests

/-! ### A GraphQL request with a variable -/

def sampleDynamics : Dynamics := ⟨"uuid", "timestamp", "isoTimestamp"⟩

def sampleScope : VariableScope := ⟨∅, ∅, ∅, AList.singleton "id" "7"⟩

/-- A request with a placeholder in its query and a text for its variable. -/
def graphqlRequest (argument : String) : RequestEnvelope :=
  { RequestEnvelope.httpGet "request" "now" "user" "https://example.com/graphql" with
    payload := .graphql ⟨"{ user(id: {{id}}) { name } }",
      .obj [("id", .str argument)], none, []⟩ }

/-- With the value in place and none in the variables nothing is left to replace. -/
theorem resolveRequest_complete_plain :
    ∃ resolved, resolveRequest sampleDynamics (graphqlRequest "7") sampleScope = .ok resolved ∧
      ∀ text ∈ wireTexts resolved, ∀ key ∈ keys text,
        key ∉ placeholders (graphqlRequest "7") := by
  have hok : ∃ resolved,
      resolveRequest sampleDynamics (graphqlRequest "7") sampleScope = .ok resolved := ⟨_, rfl⟩
  obtain ⟨resolved, h⟩ := hok
  exact ⟨resolved, h, (resolveRequest_complete_iff sampleDynamics h).mpr (by decide +kernel)⟩

/-- A placeholder in the variables is sent. -/
theorem resolveRequest_complete_not :
    ¬∀ (dynamics : Dynamics) (request resolved : RequestEnvelope) (scope : VariableScope),
      resolveRequest dynamics request scope = .ok resolved →
        ∀ text ∈ wireTexts resolved, ∀ key ∈ keys text, key ∉ placeholders request := by
  intro h
  have hnone := h sampleDynamics (graphqlRequest "{{id}}") _ sampleScope rfl
  revert hnone
  decide +kernel

end ApiVoy.Engine
