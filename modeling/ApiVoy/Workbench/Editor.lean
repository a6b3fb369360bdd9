/-
# The request editor

What the HTTP workbench keeps of the headers, the body and the variables of a request: opening a
request fills the editor, and a request is built from what the editor holds. A body is shown in
one of several modes, found by looking into its text. The other settings have fields of their
own, which are not modelled.
-/

import ApiVoy.Foundation.FormEncoding
import ApiVoy.Workbench.Envelopes
import ApiVoy.Workbench.MessagePack

namespace ApiVoy.Workbench

open Foundation Script Domain

namespace Editor

/-! ## Variables as a text -/

/-- The assignment on a line; a comment is none. -/
def assignmentOf (line : List Char) : Option (String × String) :=
  let trimmed := Script.trimChars line
  let name := trimmed.takeWhile (· ≠ '=')
  let value := trimmed.dropWhile (· ≠ '=')
  if trimmed.head? = some '#' ∨ name = [] ∨ value = [] then none
  else some (String.ofList (Script.trimChars name), String.ofList (Script.trimChars value.tail))

/-- An object takes no text for its prototype. -/
def assign (vars : StringMap) (entry : String × String) : StringMap :=
  if entry.1 = "__proto__" then vars else vars.insert entry.1 entry.2

def parseKv (text : List Char) : StringMap :=
  ((List.splitOn '\n' text).filterMap assignmentOf).foldl assign ∅

def formatKv (vars : StringMap) : List Char :=
  ['\n'].intercalate (vars.entries.map fun entry => entry.1.toList ++ '=' :: entry.2.toList)

/-! ## Rows -/

structure HeaderRow where
  key : String
  value : String
  enabled : Bool
  deriving DecidableEq

/-- `createHeaderRow`, and `createQueryRow` as well. -/
def createHeaderRow (key value : String) : HeaderRow :=
  ⟨key, value, Script.trim key ≠ "" || Script.trim value ≠ ""⟩

def headerRowsFromPairs (headers : List (String × String)) : List HeaderRow :=
  headers.map (fun header => createHeaderRow header.1 header.2) ++ [createHeaderRow "" ""]

def isCookie (header : String × String) : Bool := toLowerCase header.1 = "cookie"

/-- A cookie with a name and a value. -/
def cookieRow (item : List Char) : List HeaderRow :=
  let trimmed := Script.trimChars item
  let name := trimmed.takeWhile (· ≠ '=')
  let value := trimmed.dropWhile (· ≠ '=')
  if name = [] ∨ value = [] then []
  else [createHeaderRow (String.ofList (Script.trimChars name))
    (String.ofList (Script.trimChars value.tail))]

def cookieRowsFromHeaders (headers : List (String × String)) : List HeaderRow :=
  (headers.filter isCookie).flatMap (fun header =>
    (List.splitOn ';' header.2.toList).flatMap cookieRow) ++ [createHeaderRow "" ""]

def sentRows (rows : List HeaderRow) : List HeaderRow :=
  rows.filter fun row => row.enabled && Script.trim row.key ≠ ""

structure MultipartEditorPart where
  part : MultipartPart
  enabled : Bool

def createMultipartEditorPart (part : MultipartPart) : MultipartEditorPart :=
  ⟨part, Script.trim part.name ≠ ""⟩

/-! ## The state of the editor -/

inductive BodyMode where
  | none | multipart | urlencoded | json | xml | text | graphql | jsonrpc | soap | binary | msgpack
  deriving DecidableEq

end Editor

open Editor

structure Editor where
  method : String
  headerRows : List HeaderRow
  cookieRows : List HeaderRow
  bodyMode : BodyMode
  body : String
  binaryBase64 : String
  messagePackJson : String
  graphqlQuery : String
  graphqlVariables : String
  graphqlOperationName : String
  rpcMethod : String
  rpcParams : String
  rpcId : String
  soapVersion : String
  soapAction : String
  soapEnvelope : String
  multipart : List MultipartEditorPart
  formRows : List HeaderRow
  variablesText : List Char

namespace Editor

variable (platform : Platform)

/-! ## Opening a request -/

/-- The value of the first `Content-Type`. -/
def contentType (headers : List (String × String)) : String :=
  (headers.find? fun header => toLowerCase header.1 = "content-type").elim "" fun header =>
    toLowerCase header.2

/-- What the body was made from, or the body itself, as JSON. -/
def structuredSource (loaded : HttpWorkbenchRequest) : Option Json :=
  parseObject
    (((loaded.bodySource.filter (· ≠ "")).or (loaded.body.filter (· ≠ ""))).getD "null")

def textMember (name : String) (value : Json) : Option String := (value.get name).bind Json.asStr

def graphqlSource (loaded : HttpWorkbenchRequest) : Option Json :=
  (structuredSource loaded).filter fun source =>
    textMember "type" source = some "graphql" ||
      ((textMember "query" source).isSome && (source.get "variables").isSome)

def jsonRpcSource (loaded : HttpWorkbenchRequest) : Option Json :=
  (structuredSource loaded).filter fun source =>
    textMember "type" source = some "jsonrpc" ||
      (textMember "jsonrpc" source = some "2.0" && (textMember "method" source).isSome)

def nextBodyMode (loaded : HttpWorkbenchRequest) : BodyMode :=
  let contentType := contentType loaded.headers
  if (loaded.multipart.getD []) ≠ [] then .multipart
  else if includes contentType "x-www-form-urlencoded" then .urlencoded
  else if includes contentType "graphql" || (graphqlSource loaded).isSome then .graphql
  else if (jsonRpcSource loaded).isSome then .jsonrpc
  else if loaded.bodyEncoding = some "base64" then
    if includes contentType "msgpack" then .msgpack else .binary
  else if includes contentType "json" then .json
  else if includes contentType "xml" then .xml
  else if loaded.body.getD "" ≠ "" then .text
  else .none

/-- `value ?? {}` of a member. -/
def memberOrEmpty (name : String) (source : Option Json) : Json :=
  ((source.bind (Json.get name)).filter (· ≠ .null)).getD (.obj [])

/-- `String(id ?? "1")`, but for `null`. -/
def shownId (source : Option Json) : String :=
  ((source.bind (Json.get "id")).map (textValue platform)).getD "1"

/-- The entries of a form; a question mark in front of them is dropped. -/
def formEntries (body : String) : List (String × String) :=
  FormEncoding.parse
    (if body.toList.head? = some '?' then body.toList.tail else body.toList)

def applyRequest (editor : Editor) (loaded : HttpWorkbenchRequest) : Editor :=
  let bodyMode := nextBodyMode loaded
  let graphql := graphqlSource loaded
  let jsonRpc := jsonRpcSource loaded
  { editor with
    method := loaded.method
    headerRows := headerRowsFromPairs (loaded.headers.filter fun header => !isCookie header)
    cookieRows := cookieRowsFromHeaders loaded.headers
    bodyMode := bodyMode
    body := loaded.body.getD ""
    binaryBase64 := if bodyMode = .binary then loaded.body.getD "" else editor.binaryBase64
    messagePackJson :=
      if bodyMode = .msgpack then loaded.bodySource.getD "\x7b\x7d" else editor.messagePackJson
    graphqlQuery :=
      if bodyMode = .graphql then (graphql.bind (textMember "query")).getD (loaded.body.getD "")
      else editor.graphqlQuery
    graphqlVariables :=
      if bodyMode = .graphql then stringify platform 2 (memberOrEmpty "variables" graphql)
      else editor.graphqlVariables
    graphqlOperationName :=
      if bodyMode = .graphql then (graphql.bind (textMember "operationName")).getD ""
      else editor.graphqlOperationName
    rpcMethod :=
      if bodyMode = .jsonrpc then (jsonRpc.bind (textMember "method")).getD "" else editor.rpcMethod
    rpcParams :=
      if bodyMode = .jsonrpc then stringify platform 2 (memberOrEmpty "params" jsonRpc)
      else editor.rpcParams
    rpcId := if bodyMode = .jsonrpc then shownId platform jsonRpc else editor.rpcId
    multipart := (loaded.multipart.getD []).map createMultipartEditorPart ++
      [createMultipartEditorPart ⟨"", "", none, none, false⟩]
    formRows :=
      if bodyMode = .urlencoded then headerRowsFromPairs (formEntries (loaded.body.getD ""))
      else [createHeaderRow "" ""]
    variablesText := formatKv loaded.vars }

/-! ## Building a request -/

/-- The part of a built request that the editor holds. -/
structure Built where
  method : String
  headers : List (String × String)
  body : Option String
  bodyEncoding : String
  bodySource : Option String
  multipart : List MultipartPart
  vars : StringMap

/-- `JSON.parse(text || fallback)`. -/
def parsedOr (text fallback : String) : Option Json :=
  parseObject (if text = "" then fallback else text)

def graphqlBody (query : String) (vars : Json) (operationName : String) : Json :=
  .obj ([("query", .str query), ("variables", vars)] ++
    if Script.trim operationName = "" then []
    else [("operationName", .str (Script.trim operationName))])

/-- An id is a number if its text is one. An infinite number has no text. -/
def rpcIdValue (id : String) : Json :=
  if id = "null" then .null
  else match toNumber id with
    | .nan => .str id
    | .infinite _ => .null
    | .finite value => .num value

def jsonRpcBody (method : String) (params : Json) (id : String) : Json :=
  .obj [("jsonrpc", .str "2.0"), ("method", .str method), ("params", params), ("id", rpcIdValue id)]

/-- The headers of the editor, without the ones a SOAP request gets. -/
def builtHeaders (editor : Editor) : List (String × String) :=
  let cookies := sentRows editor.cookieRows
  (sentRows editor.headerRows).map (fun row => (Script.trim row.key, Script.trim row.value)) ++
    if cookies = [] then []
    else [("Cookie", "; ".intercalate (cookies.map fun row => Script.trim row.key ++ "=" ++ row.value))]

/-- The first `Content-Type` gets another value. -/
def setContentType (value : String) : List (String × String) → List (String × String)
  | [] => []
  | header :: headers =>
    if toLowerCase header.1 = "content-type" then (header.1, value) :: headers
    else header :: setContentType value headers

def withSoapAction (editor : Editor) (headers : List (String × String)) : List (String × String) :=
  let action := Script.trim editor.soapAction
  if editor.bodyMode = .soap ∧ action ≠ "" then
    if editor.soapVersion = "1.1" then headers ++ [("SOAPAction", "\"" ++ action ++ "\"")]
    else setContentType ("application/soap+xml; action=\"" ++ action ++ "\"") headers
  else headers

/-- A body that is not a text; none when the source of it is not JSON. -/
def encodedBody (editor : Editor) : Option String :=
  match editor.bodyMode with
  | .msgpack => (parsedOr editor.messagePackJson "null").map fun value =>
    String.ofList (bytesToBase64 (MessagePack.encode value))
  | _ => some editor.binaryBase64

/-- The body in the mode of the editor; none when a text of it is not JSON. -/
def modeBody (editor : Editor) : Option String :=
  match editor.bodyMode with
  | .urlencoded =>
    some (String.ofList (FormEncoding.serialize
      ((sentRows editor.formRows).map fun row => (row.key, row.value))))
  | .graphql => (parsedOr editor.graphqlVariables "\x7b\x7d").map fun vars =>
    stringify platform 0 (graphqlBody editor.graphqlQuery vars editor.graphqlOperationName)
  | .jsonrpc => (parsedOr editor.rpcParams "\x7b\x7d").map fun params =>
    stringify platform 0 (jsonRpcBody editor.rpcMethod params editor.rpcId)
  | .soap => some editor.soapEnvelope
  | .binary | .msgpack => encodedBody editor
  | _ => some editor.body

def sendsNoBody (editor : Editor) : Bool :=
  editor.method = "GET" || editor.method = "HEAD" || editor.bodyMode = .none ||
    editor.bodyMode = .multipart

def builtBody (editor : Editor) : Option (Option String) :=
  if sendsNoBody editor then some none else (modeBody platform editor).map some

/-- The source that is kept beside the body. -/
def builtSource (editor : Editor) : Option (Option String) :=
  match editor.bodyMode with
  | .msgpack => some (some editor.messagePackJson)
  | .graphql => (parsedOr editor.graphqlVariables "\x7b\x7d").map fun vars =>
    some (stringify platform 0 (.obj [("type", .str "graphql"), ("query", .str editor.graphqlQuery),
      ("variables", vars), ("operationName", if Script.trim editor.graphqlOperationName = "" then .null
        else .str (Script.trim editor.graphqlOperationName))]))
  | .jsonrpc => (parsedOr editor.rpcParams "\x7b\x7d").map fun params =>
    some (stringify platform 0 (.obj [("type", .str "jsonrpc"), ("method", .str editor.rpcMethod),
      ("params", params), ("id", .str editor.rpcId)]))
  | _ => some none

/-- Build a request; nothing when a text of the editor that should be JSON is not. -/
def buildRequest (editor : Editor) : Option Built :=
  (encodedBody editor).bind fun _ =>
    (builtBody platform editor).bind fun body =>
      (builtSource platform editor).map fun source =>
        { method := editor.method
          headers := withSoapAction editor (builtHeaders editor)
          body := body
          bodyEncoding :=
            if editor.bodyMode = .binary ∨ editor.bodyMode = .msgpack then "base64" else "text"
          bodySource := source
          multipart :=
            if editor.bodyMode = .multipart then
              (editor.multipart.filter fun entry =>
                entry.enabled && Script.trim entry.part.name ≠ "").map MultipartEditorPart.part
            else []
          vars := parseKv editor.variablesText }

end Editor

end ApiVoy.Workbench
