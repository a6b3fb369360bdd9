/-
# Variables

Before a request is sent its placeholders are replaced. A placeholder is a name between double
braces; a name without a value makes the whole request fail. What a text becomes depends only
on the values of the names in it.
-/

import ApiVoy.Domain.Request
import ApiVoy.Foundation.Text

namespace ApiVoy.Engine

open Domain Foundation

/-! ## Placeholders -/

/-- A character of a text, or a placeholder with what stands between its braces. -/
inductive Piece where
  | char (c : Char)
  | placeholder (inside : List Char)
  deriving DecidableEq

def isBrace (c : Char) : Bool := c = '\x7b' || c = '\x7d'

/-- The placeholder at the beginning of a text, and the text after it. -/
def placeholderAt : List Char → Option (List Char × List Char)
  | '\x7b' :: '\x7b' :: text =>
    if text.takeWhile (!isBrace ·) = [] then none
    else
      match text.dropWhile (!isBrace ·) with
      | '\x7d' :: '\x7d' :: rest => some (text.takeWhile (!isBrace ·), rest)
      | _ => none
  | _ => none

/-- The pieces of a text, which has no more of them than characters. -/
def piecesFrom : Nat → List Char → List Piece
  | 0, _ => []
  | _, [] => []
  | fuel + 1, c :: text =>
    match placeholderAt (c :: text) with
    | some (inside, rest) => .placeholder inside :: piecesFrom fuel rest
    | none => .char c :: piecesFrom fuel text

def pieces (text : String) : List Piece := piecesFrom text.toList.length text.toList

/-- The name in a placeholder. -/
def keyOf (inside : List Char) : String := String.ofList (trimChars inside)

/-! ## Values -/

/-- What the dynamic tokens stand for in one resolution. -/
structure Dynamics where
  uuid : String
  timestamp : String
  isoTimestamp : String

structure VariableScope where
  global : StringMap
  environment : StringMap
  collection : StringMap
  request : StringMap

/-- Later scopes override earlier ones. -/
def VariableScope.merged (scope : VariableScope) : StringMap :=
  scope.request ∪ (scope.collection ∪ (scope.environment ∪ scope.global))

/-- A variable has its value from the first of several maps that has it. -/
theorem lookup_union (first second : StringMap) (key : String) :
    (first ∪ second).lookup key = (first.lookup key).or (second.lookup key) := by
  by_cases hmem : key ∈ first
  · obtain ⟨value, hvalue⟩ := Option.isSome_iff_exists.mp (AList.lookup_isSome.mpr hmem)
    rw [AList.lookup_union_left hmem, hvalue, Option.some_or]
  · rw [AList.lookup_union_right hmem, AList.lookup_eq_none.mpr hmem, Option.none_or]

section Resolution

variable (dynamics : Dynamics)

def resolveDynamic (key : String) : Option String :=
  if key = "$uuid" then some dynamics.uuid
  else if key = "$timestamp" then some dynamics.timestamp
  else if key = "$isoTimestamp" then some dynamics.isoTimestamp
  else none

/-- The value of a name: the one of a dynamic token, or else a variable's. -/
def valueOf (vars : StringMap) (key : String) : Option String :=
  (resolveDynamic dynamics key).or (vars.lookup key)

/-- The text of a piece, or the name that has no value. -/
def Piece.resolve (vars : StringMap) : Piece → Except String String
  | .char c => .ok (String.ofList [c])
  | .placeholder inside =>
    match valueOf dynamics vars (keyOf inside) with
    | some value => .ok value
    | none => .error (keyOf inside)

/-- The texts of some pieces in a row, or the first name without a value. -/
def resolvePieces (vars : StringMap) : List Piece → Except String String
  | [] => .ok ""
  | piece :: rest => do
    let text ← piece.resolve dynamics vars
    let texts ← resolvePieces vars rest
    return text ++ texts

def resolveTemplate (text : String) (vars : StringMap) : Except String String :=
  resolvePieces dynamics vars (pieces text)

/-! ## Requests -/

def resolveOptional (resolve : String → Except String String) :
    Option String → Except String (Option String)
  | none => .ok none
  | some text => do
    let text ← resolve text
    return some text

/-- Resolve names and values, each name before its value. -/
def resolvePairs (resolve : String → Except String String) :
    List (String × String) → Except String (List (String × String))
  | [] => .ok []
  | (name, value) :: rest => do
    let name ← resolve name
    let value ← resolve value
    let rest ← resolvePairs resolve rest
    return (name, value) :: rest

def resolvePart (resolve : String → Except String String) (part : MultipartPart) :
    Except String MultipartPart := do
  let name ← resolve part.name
  let value ← if part.base64 then .ok part.value else resolve part.value
  let fileName ← resolveOptional resolve part.fileName
  let contentType ← resolveOptional resolve part.contentType
  return { part with name := name, value := value, fileName := fileName, contentType := contentType }

/-- The method of an HTTP request is not resolved, nor is a body in base64. -/
def resolvePayload (resolve : String → Except String String) :
    ProtocolPayload → Except String ProtocolPayload
  | .http payload => do
    let headers ← resolvePairs resolve payload.headers
    let body ← if payload.bodyEncoding ≠ "base64" then resolveOptional resolve payload.body
      else .ok payload.body
    let multipart ← payload.multipart.mapM (resolvePart resolve)
    return .http { payload with headers := headers, body := body, multipart := multipart }
  | .sse payload => do
    let headers ← resolvePairs resolve payload.headers
    let lastEventId ← resolveOptional resolve payload.lastEventId
    return .sse { payload with headers := headers, lastEventId := lastEventId }
  | .tcp payload => do
    let data ← resolve payload.data
    let delimiter ← resolveOptional resolve payload.delimiter
    let serverName ← resolveOptional resolve payload.serverName
    let caCertRef ← resolveOptional resolve payload.caCertRef
    return .tcp { payload with
      data := data, delimiter := delimiter, serverName := serverName, caCertRef := caCertRef }
  | .udp payload => do
    let data ← resolve payload.data
    return .udp { payload with data := data }
  | .graphql payload => do
    let query ← resolve payload.query
    let headers ← resolvePairs resolve payload.headers
    return .graphql { payload with query := query, headers := headers }
  | .websocket payload => do
    let headers ← resolvePairs resolve payload.headers
    let messages ← payload.messages.mapM fun message => do
      let data ← resolve message.data
      return { message with data := data }
    return .websocket { payload with headers := headers, messages := messages }
  | .grpc payload => do
    let metadata ← resolvePairs resolve payload.metadata
    let messageJson ← resolveOptional resolve payload.messageJson
    return .grpc { payload with metadata := metadata, messageJson := messageJson }
  | .raw value => .ok (.raw value)

/-- Resolve the target, the proxy and the payload of a request; its own variables override
those of every scope. -/
def resolveRequest (request : RequestEnvelope) (scope : VariableScope) :
    Except String RequestEnvelope := do
  let resolve text := resolveTemplate dynamics text (request.vars ∪ scope.merged)
  let target ← resolve request.target
  let proxy ← resolveOptional resolve request.proxy
  let payload ← resolvePayload resolve request.payload
  return { request with target := target, proxy := proxy, payload := payload }

end Resolution

/-! ## What a text depends on -/

/-- The names in the placeholders of a text. -/
def keys (text : String) : List String :=
  (pieces text).filterMap fun
    | .char _ => none
    | .placeholder inside => some (keyOf inside)

theorem resolvePieces_congr (dynamics : Dynamics) {vars other : StringMap} {ps : List Piece}
    (h : ∀ inside, .placeholder inside ∈ ps →
      valueOf dynamics vars (keyOf inside) = valueOf dynamics other (keyOf inside)) :
    resolvePieces dynamics vars ps = resolvePieces dynamics other ps := by
  induction ps with
  | nil => rfl
  | cons piece rest ih =>
    have hrest := ih fun inside hmem => h inside (List.mem_cons_of_mem piece hmem)
    have hpiece : piece.resolve dynamics vars = piece.resolve dynamics other := by
      cases piece with
      | char c => rfl
      | placeholder inside => simp only [Piece.resolve, h inside List.mem_cons_self]
    rw [resolvePieces, resolvePieces, hpiece, hrest]

/-- A text becomes the same under variables that agree on its names. -/
theorem resolveTemplate_congr (dynamics : Dynamics) {vars other : StringMap} {text : String}
    (h : ∀ key ∈ keys text, valueOf dynamics vars key = valueOf dynamics other key) :
    resolveTemplate dynamics text vars = resolveTemplate dynamics text other :=
  resolvePieces_congr dynamics fun inside hmem =>
    h (keyOf inside) (List.mem_filterMap.mpr ⟨_, hmem, rfl⟩)

theorem resolvePieces_ok (dynamics : Dynamics) {vars : StringMap} {ps : List Piece} :
    (∃ text, resolvePieces dynamics vars ps = .ok text) ↔
      ∀ inside, .placeholder inside ∈ ps → (valueOf dynamics vars (keyOf inside)).isSome := by
  induction ps with
  | nil => simp [resolvePieces]
  | cons piece rest ih =>
    have hpiece : (∃ text, piece.resolve dynamics vars = .ok text) ↔
        ∀ inside, piece = .placeholder inside →
          (valueOf dynamics vars (keyOf inside)).isSome := by
      cases piece with
      | char c => simp [Piece.resolve]
      | placeholder inside =>
        cases hvalue : valueOf dynamics vars (keyOf inside) <;> simp [Piece.resolve, hvalue]
    have hboth : (∃ text, resolvePieces dynamics vars (piece :: rest) = .ok text) ↔
        (∃ text, piece.resolve dynamics vars = .ok text) ∧
          ∃ text, resolvePieces dynamics vars rest = .ok text := by
      rw [resolvePieces]
      cases piece.resolve dynamics vars <;> cases resolvePieces dynamics vars rest <;>
        simp [bind, Except.bind, pure, Except.pure]
    rw [hboth, hpiece, ih]
    constructor
    · rintro ⟨hfirst, hrest⟩ inside hmem
      rcases List.mem_cons.mp hmem with heq | hmem
      · exact hfirst inside heq.symm
      · exact hrest inside hmem
    · intro h
      exact ⟨fun inside heq => h inside (heq ▸ List.mem_cons_self), fun inside hmem =>
        h inside (List.mem_cons_of_mem piece hmem)⟩

/-- A text is resolved when all its names have values, and only then. -/
theorem resolveTemplate_ok (dynamics : Dynamics) {vars : StringMap} {text : String} :
    (∃ resolved, resolveTemplate dynamics text vars = .ok resolved) ↔
      ∀ key ∈ keys text, (valueOf dynamics vars key).isSome := by
  rw [resolveTemplate, resolvePieces_ok]
  constructor
  · intro h key hkey
    obtain ⟨piece, hmem, hpiece⟩ := List.mem_filterMap.mp hkey
    cases piece with
    | char c => cases hpiece
    | placeholder inside =>
      cases hpiece
      exact h inside hmem
  · exact fun h inside hmem => h (keyOf inside) (List.mem_filterMap.mpr ⟨_, hmem, rfl⟩)

/-! ## The pieces of a text are the text -/

def Piece.text : Piece → List Char
  | .char c => [c]
  | .placeholder inside => ['{', '{'] ++ inside ++ ['}', '}']

theorem placeholderAt_text {text inside rest : List Char}
    (h : placeholderAt text = some (inside, rest)) :
    text = (Piece.placeholder inside).text ++ rest := by
  unfold placeholderAt at h
  split at h
  case h_1 text =>
    have hsplit := List.takeWhile_append_dropWhile (p := (!isBrace ·)) (l := text)
    split at h
    case isTrue => cases h
    case isFalse =>
      split at h
      case h_1 rest' hdrop =>
        cases h
        rw [hdrop] at hsplit
        conv_lhs => rw [← hsplit]
        simp [Piece.text]
      case h_2 => cases h
  case h_2 => cases h

end ApiVoy.Engine
