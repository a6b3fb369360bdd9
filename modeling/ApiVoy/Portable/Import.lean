/-
# Importing documents

Four formats are read: OpenAPI documents, Postman collections, HAR files and the program's own
project files. An import spends a budget of documents, nodes, references and requests and
fails when it is exceeded.

The values here are what a script reads from a parsed document; a member that is not there is
`undefined`, which is `none`.
-/

import ApiVoy.Foundation.Entries
import ApiVoy.Foundation.Fallible
import ApiVoy.Foundation.Percent

namespace ApiVoy.Portable

open Foundation Script

/-! ## Budgets -/

def importMaxFileBytes : Nat := 8 * 1024 * 1024
def importMaxTotalBytes : Nat := 24 * 1024 * 1024
def importMaxDocuments : Nat := 64
def importMaxDepth : Nat := 128
def importMaxNodes : Nat := 100000
def importMaxRefs : Nat := 10000
def importMaxRequests : Nat := 10000

structure ImportBudget where
  documents : Nat
  bytes : Nat
  nodes : Nat
  refs : Nat
  requests : Nat
  deriving DecidableEq

def createBudget : ImportBudget := ⟨0, 0, 0, 0, 0⟩

/-- A step that spends a budget or fails with a message. -/
abbrev Import := Fallible ImportBudget String

/-- Fail if a limit is exceeded. -/
def guardLimit (exceeded : Bool) (message : String) : Import Unit :=
  if exceeded then Fallible.fail message else pure ()

/-- Change the budget and look at it. -/
def spend (f : ImportBudget → ImportBudget) : Import ImportBudget := fun budget =>
  (.ok (f budget), f budget)

def consumeDocument (text label : String) : Import Unit := do
  let size := text.utf8ByteSize
  guardLimit (size > importMaxFileBytes)
    (label ++ " 超过 " ++ toString importMaxFileBytes ++ " 字节的导入上限")
  let budget ← spend fun b => { b with documents := b.documents + 1, bytes := b.bytes + size }
  guardLimit (budget.documents > importMaxDocuments)
    ("导入文档数量超过 " ++ toString importMaxDocuments ++ " 个的上限")
  guardLimit (budget.bytes > importMaxTotalBytes)
    ("导入文档总大小超过 " ++ toString importMaxTotalBytes ++ " 字节的上限")

def depthMessage : String := "导入文档嵌套深度超过 " ++ toString importMaxDepth ++ " 层的上限"

def nodesMessage : String := "导入文档节点数量超过 " ++ toString importMaxNodes ++ " 个的上限"

def consumeNode (depth : Nat) : Import Unit := do
  guardLimit (depth > importMaxDepth) depthMessage
  let budget ← spend fun b => { b with nodes := b.nodes + 1 }
  guardLimit (budget.nodes > importMaxNodes) nodesMessage

def consumeRef : Import Unit := do
  let budget ← spend fun b => { b with refs := b.refs + 1 }
  guardLimit (budget.refs > importMaxRefs)
    ("OpenAPI $ref 数量超过 " ++ toString importMaxRefs ++ " 个的上限")

def consumeRequest : Import Unit := do
  let budget ← spend fun b => { b with requests := b.requests + 1 }
  guardLimit (budget.requests > importMaxRequests)
    ("导入请求数量超过 " ++ toString importMaxRequests ++ " 个的上限")

/-- A computation without a budget. -/
def lift {α : Type} : Except String α → Import α
  | .ok a => pure a
  | .error message => Fallible.fail message

/-- Do a step for each element, and keep the results. -/
def collect {α β : Type} (f : α → Import β) : List α → Import (List β)
  | [] => pure []
  | a :: rest => do
    let b ← f a
    let bs ← collect f rest
    return b :: bs

/-! ## Values -/

/-- A condition on a value. -/
def truthy : Option Json → Bool
  | none | some .null => false
  | some (.bool b) => b
  | some (.num q) => q ≠ 0
  | some (.str text) => text ≠ ""
  | some (.arr _) | some (.obj _) => true

/-- `??`. -/
def orValue (value other : Option Json) : Option Json :=
  match value with
  | none | some .null => other
  | some j => some j

/-- Is a value an object or an array? -/
def isObject : Option Json → Bool
  | some (.arr _) | some (.obj _) => true
  | _ => false

/-- A member of a value that is not known to be an object. -/
def member (name : String) (value : Option Json) : Option Json := value.bind (Json.get name)

/-- The members of a value that is treated as an object if it is one, or an array. -/
def entriesOf : Option Json → List (String × Json)
  | some (.obj members) => members
  | some (.arr items) => items.zipIdx.map fun (item, index) => (toString index, item)
  | _ => []

def itemsOf : Option Json → List Json
  | some (.arr items) => items
  | _ => []

def objectMessage : String := "导入文件必须是 JSON 对象"

/-- The members of an object; nothing else will do. -/
def object : Option Json → Import (List (String × Json))
  | some (.obj members) => pure members
  | _ => Fallible.fail objectMessage

/-- The members of a value that may be missing; an array will not do. -/
def objectIfAny (value : Option Json) : Import (List (String × Json)) :=
  if isObject value then object value else pure []

section Texts

variable (platform : Platform)

mutual

/-- `String(value)`. An object with a `toString` of its own, which is no function, has no text. -/
def textOf : Json → Except String String
  | .null => .ok "null"
  | .bool true => .ok "true"
  | .bool false => .ok "false"
  | .num q => .ok (String.ofList (JsonText.numberText platform.numberText q))
  | .str text => .ok text
  | .arr items => (textsOf items).map fun texts => ",".intercalate texts
  | .obj members =>
    if (Json.member? "toString" members).isSome then
      .error "Cannot convert object to primitive value"
    else .ok "[object Object]"

/-- The texts of the items of an array; `null` has an empty one there. -/
def textsOf : List Json → Except String (List String)
  | [] => .ok []
  | item :: rest =>
    (if item = .null then .ok "" else textOf item).bind fun text =>
      (textsOf rest).map (text :: ·)

end

/-- `String(value)` of a value that may be undefined. -/
def text (value : Option Json) : Import String :=
  lift (value.elim (.ok "undefined") (textOf platform))

/-- `String(value ?? default)`. -/
def textOr (value : Option Json) (default : String) : Import String :=
  text platform (orValue value (some (.str default)))

/-! ## Header lists -/

/-- Is an item of a header list an entry that counts? An entry with a `key` counts even when
it is disabled. -/
def isHeaderEntry (item : Json) : Bool :=
  isObject (some item) &&
    ((!truthy (item.get "disabled") && ((item.get "name").bind Json.asStr).isSome) ||
      ((item.get "key").bind Json.asStr).isSome)

def headerMap (value : Option Json) : Import (List (String × String)) :=
  match value with
  | some (.arr items) => do
    let entries ← collect (fun item => do
      let name ← text platform (orValue (item.get "name") (item.get "key"))
      let value ← textOr platform (item.get "value") ""
      return (name, value)) (items.filter isHeaderEntry)
    return fromEntries entries
  | some (.obj members) => do
    let entries ← collect (fun (entry : String × Json) => do
      let value ← text platform (some entry.2)
      return (entry.1, value)) members
    return fromEntries entries
  | _ => return []

end Texts

/-! ## References within a document -/

/-- What reading a member of an object gives. Every object inherits some functions. -/
inductive Found where
  | missing
  | inherited
  | own (value : Json)
  deriving DecidableEq

def Found.value? : Found → Option Json
  | .own value => some value
  | _ => none

/-- A value that may be undefined. -/
def Found.ofValue : Option Json → Found
  | none => .missing
  | some j => .own j

def inheritedFunctions : List String :=
  ["constructor", "__defineGetter__", "__defineSetter__", "hasOwnProperty", "__lookupGetter__",
    "__lookupSetter__", "isPrototypeOf", "propertyIsEnumerable", "toString", "valueOf",
    "toLocaleString"]

/-- Read a member. The prototype of an object has no members to list. -/
def readMember (members : List (String × Json)) (name : String) : Found :=
  match Json.member? name members with
  | some value => .own value
  | none =>
    if inheritedFunctions.contains name then .inherited
    else if name = "__proto__" then .own (.obj [])
    else .missing

/-- Replace each pair of characters by one character. -/
def replacePair (first second replacement : Char) : List Char → List Char
  | [] => []
  | [c] => [c]
  | c :: d :: rest =>
    if c = first ∧ d = second then replacement :: replacePair first second replacement rest
    else c :: replacePair first second replacement (d :: rest)

def unescapeSegment (segment : List Char) : List Char :=
  replacePair '~' '0' '~' (replacePair '~' '1' '/' segment)

/-- The reference of an object that is one. -/
def refOf : Found → Option String
  | .own (.obj members) => (Json.member? "$ref" members).bind Json.asStr
  | _ => none

/-- Go down into objects along some names. -/
def walk : List String → Found → Import Found
  | [], current => pure current
  | segment :: rest, current => do
    let members ← object current.value?
    walk rest (readMember members segment)

def pointerSegments (ref : String) : List String :=
  (List.splitOn '/' (ref.toList.drop 2)).map fun segment => String.ofList (unescapeSegment segment)

/-- Follow references from a value until there is none; `seen` collects them. There is no step
beyond the depth limit. -/
def resolveFrom (root : List (String × Json)) :
    Nat → Nat → Found → List String → Import (Found × List String)
  | fuel, depth, current, seen =>
    match refOf current with
    | none => pure (current, seen)
    | some ref =>
      match fuel with
      | 0 => Fallible.fail depthMessage
      | fuel + 1 => do
        consumeNode depth
        consumeRef
        guardLimit (!"#/".toList.isPrefixOf ref.toList) ("暂不支持外部 OpenAPI $ref：" ++ ref)
        guardLimit (seen.contains ref) ("OpenAPI $ref 循环引用：" ++ ref)
        let next ← walk (pointerSegments ref) (.own (.obj root))
        resolveFrom root fuel (depth + 1) next (seen ++ [ref])

def resolvePointer (root : List (String × Json)) (value : Found) (seen : List String) :
    Import (Found × List String) :=
  resolveFrom root (importMaxDepth + 1) 0 value seen

/-- The value a reference leads to, when nothing has been followed before. -/
def resolved (root : List (String × Json)) (value : Option Json) : Import Found := do
  let (target, _) ← resolvePointer root (.ofValue value) []
  return target

/-! ## OpenAPI -/

def methods : List String :=
  ["get", "post", "put", "patch", "delete", "head", "options", "trace"]

/-- Replace placeholders by those of the program; `inside` is what was read of an open one. -/
def expandFrom : Option (List Char) → List Char → List Char
  | none, [] => []
  | some inside, [] => '{' :: inside
  | none, c :: rest => if c = '{' then expandFrom (some []) rest else c :: expandFrom none rest
  | some inside, c :: rest =>
    if c = '}' then ['{', '{'] ++ inside ++ ['}', '}'] ++ expandFrom none rest
    else expandFrom (some (inside ++ [c])) rest

def expandOpenApiServerUrl (url : String) : String := String.ofList (expandFrom none url.toList)

/-- The members of an example; what is a function is left out. -/
def exampleMembers (members : List (String × Option Json)) : List (String × Json) :=
  members.filterMap fun (name, value) => value.map fun value => (name, value)

/-- What a schema says of itself: an example, a default, or its first alternative. -/
def statedExample (schema : List (String × Json)) : Option Json :=
  match Json.member? "example" schema with
  | some value => some value
  | none =>
    match Json.member? "default" schema with
    | some value => some value
    | none => (itemsOf (Json.member? "enum" schema)).head?

/-- The example of a schema without members. -/
def scalarExample (type : Option Json) : Json :=
  if type = some (.str "integer") ∨ type = some (.str "number") then .num 0
  else if type = some (.str "boolean") then .bool false
  else .str "string"

/-- An example for a schema. It is none if it is a function, which a reference can lead to. -/
def schemaExample (root : List (String × Json)) :
    Nat → Found → List String → Nat → Import (Option Json)
  | 0, _, _, _ => Fallible.fail depthMessage
  | fuel + 1, input, seen, depth => do
    consumeNode depth
    let (target, seen) ← resolvePointer root input seen
    match target with
    | .missing => return some .null
    | .inherited => return none
    | .own (.obj schema) =>
      let type := Json.member? "type" schema
      let properties := Json.member? "properties" schema
      match statedExample schema with
      | some value => return some value
      | none =>
        if type = some (.str "array") then do
          let item ← schemaExample root fuel (.ofValue (Json.member? "items" schema)) seen
            (depth + 1)
          return some (.arr [item.getD .null])
        else if type = some (.str "object") || isObject properties then do
          let members ← collect (fun (entry : String × Json) => do
            let value ← schemaExample root fuel (.own entry.2) seen (depth + 1)
            return (entry.1, value)) (entriesOf properties)
          return some (.obj (exampleMembers (fromEntries members)))
        else return some (scalarExample type)
    | .own value => return some value

structure ImportedRequest where
  name : String
  method : String
  url : String
  headers : List (String × String)
  body : Option String
  collectionPath : List String
  vars : Option (List (String × String))

def textRecord (entries : List (String × String)) : Json :=
  .obj (entries.map fun entry => (entry.1, .str entry.2))

def ImportedRequest.toJson (request : ImportedRequest) : Json :=
  .obj ([("name", .str request.name), ("method", .str request.method), ("url", .str request.url),
    ("headers", textRecord request.headers)] ++
    (request.body.elim [] (fun body => [("body", .str body)]) ++
      (("collectionPath", .arr (request.collectionPath.map Json.str)) ::
        request.vars.elim [] fun vars => [("variables", textRecord vars)])))

inductive ImportSource where
  | openapi | postman | har | apivoy
  deriving DecidableEq

structure ImportResult where
  source : ImportSource
  name : String
  /-- The requests as they are handed on, with nothing known about their form. -/
  requests : List Json
  warnings : List String
  deriving DecidableEq

section Formats

variable (platform : Platform)

/-- The query of an operation: its parameters as placeholders. -/
def queryText (parameters : List Found) : Import (List String) :=
  collect (fun parameter => do
    let name ← text platform (member "name" (some parameter))
    let placeholder ← text platform (member "name" (some parameter))
    return Percent.encodeURIComponent name ++ "=\x7b\x7b" ++ placeholder ++ "\x7d\x7d")
    ((parameters.filterMap Found.value?).filter fun parameter =>
      isObject (some parameter) && parameter.get "in" = some (.str "query"))

/-- The members of the value a reference leads to. -/
def resolvedObject (root : List (String × Json)) (value : Option Json) :
    Import (List (String × Json)) := do
  let target ← resolved root value
  object target.value?

def requestBodyOf (root operation : List (String × Json)) : Import (List (String × Json)) :=
  if isObject (Json.member? "requestBody" operation) then
    resolvedObject root (Json.member? "requestBody" operation)
  else pure []

def mediaOf (root content : List (String × Json)) :
    Option String → Import (List (String × Json))
  | some mediaType => resolvedObject root (Json.member? mediaType content)
  | none => pure []

/-- The example of a media type, which may be undefined. -/
def mediaExample (root media : List (String × Json)) : Import (Option Json) :=
  match orValue (Json.member? "example" media) none with
  | some value => pure (some value)
  | none =>
    if truthy (Json.member? "schema" media) then
      schemaExample root (importMaxDepth + 1) (.ofValue (Json.member? "schema" media)) [] 0
    else pure none

def exampleText : Json → String
  | .str text => text
  | value => stringify platform 2 value

def importOperation (root : List (String × Json)) (base : String)
    (vars : List (String × String)) (path : String) (pathItem : List (String × Json))
    (method : String) : Import ImportedRequest := do
  consumeRequest
  let operation ← resolvedObject root (Json.member? method pathItem)
  let parameters ← collect (fun item => resolved root (some item))
    (itemsOf (Json.member? "parameters" pathItem) ++ itemsOf (Json.member? "parameters" operation))
  let query ← queryText platform parameters
  let url := base ++ path
  let requestBody ← requestBodyOf root operation
  let content ← object (orValue (Json.member? "content" requestBody) (some (.obj [])))
  let mediaType := (content.head?.map Prod.fst).filter (· ≠ "")
  let media ← mediaOf root content mediaType
  let bodyValue ← mediaExample root media
  let tags := (itemsOf (Json.member? "tags" operation)).filterMap Json.asStr
  let name ← textOr platform
    (orValue (Json.member? "summary" operation) (Json.member? "operationId" operation))
    (platform.toUpperCase method ++ " " ++ path)
  return {
    name := name
    method := platform.toUpperCase method
    url := if query = [] then url
      else url ++ (if includes url "?" then "&" else "?") ++ "&".intercalate query
    headers := mediaType.elim [] fun mediaType => [("Content-Type", mediaType)]
    body := bodyValue.map (exampleText platform)
    collectionPath := tags.take 1
    vars := some vars }

def importPath (root : List (String × Json)) (base : String) (vars : List (String × String))
    (entry : String × Json) : Import (List ImportedRequest) := do
  let pathItem ← resolvedObject root (some entry.2)
  collect (importOperation platform root base vars entry.1 pathItem)
    (methods.filter fun method => truthy (Json.member? method pathItem))

def importOpenApi (root : List (String × Json)) : Import ImportResult := do
  let info := Json.member? "info" root
  let server := (itemsOf (Json.member? "servers" root)).head?
  let vars ← collect (fun (entry : String × Json) => do
    let definition ← object (some entry.2)
    let default ← textOr platform (Json.member? "default" definition) ""
    return (entry.1, default)) (entriesOf (member "variables" server))
  let url ← textOr platform (member "url" server) ""
  let base := expandOpenApiServerUrl url
  let paths ← object (orValue (Json.member? "paths" root) (some (.obj [])))
  let requests ← collect (importPath platform root base (fromEntries vars)) paths
  let name ← textOr platform (member "title" info) "OpenAPI Import"
  return {
    source := .openapi
    name := name
    requests := requests.flatten.map ImportedRequest.toJson
    warnings := if base ≠ "" then [] else ["OpenAPI 未声明 servers，已保留相对 URL"] }

/-! ## Postman -/

def postmanUrl : Option Json → String
  | some (.str url) => url
  | value => ((member "raw" value).bind Json.asStr).getD ""

/-- An item that waits for its turn, with the names of the folders above it. -/
structure PostmanFrame where
  item : Json
  path : List String
  depth : Nat

/-- The members of a request, which may be no more than a URL. -/
def postmanMembers : Option Json → Import (List (String × Json))
  | some (.str url) => pure [("url", .str url)]
  | value => object value

def postmanRequest (vars : List (String × String)) (path : List String)
    (item : List (String × Json)) : Import ImportedRequest := do
  consumeRequest
  let request ← postmanMembers (Json.member? "request" item)
  let bodyObject ← objectIfAny (Json.member? "body" request)
  let name ← textOr platform (Json.member? "name" item) "Imported request"
  let method ← textOr platform (Json.member? "method" request) "GET"
  let headers ← headerMap platform (Json.member? "header" request)
  return {
    name := name
    method := platform.toUpperCase method
    url := postmanUrl (Json.member? "url" request)
    headers := headers
    body := (Json.member? "raw" bodyObject).bind Json.asStr
    collectionPath := path
    vars := some vars }

/-- The request of an item, if it has one. -/
def requestsOf (vars : List (String × String)) (path : List String)
    (item : List (String × Json)) : Import (List ImportedRequest) :=
  if truthy (Json.member? "request" item) then do
    let request ← postmanRequest platform vars path item
    return [request]
  else return []

/-- Take the items from a stack, and put the children of each on it. Each round spends a node,
so there is none beyond the limit. -/
def postmanLoop (vars : List (String × String)) :
    Nat → List PostmanFrame → Import (List ImportedRequest)
  | _, [] => return []
  | 0, _ :: _ => Fallible.fail nodesMessage
  | fuel + 1, current :: stack => do
    consumeNode current.depth
    let item ← object (some current.item)
    let requests ← requestsOf platform vars current.path item
    let folder ← textOr platform (Json.member? "name" item) "Folder"
    let children := (itemsOf (Json.member? "item" item)).map fun child =>
      ⟨child, current.path ++ [folder], current.depth + 1⟩
    let rest ← postmanLoop vars fuel (children ++ stack)
    return requests ++ rest

/-- The variables of a collection; one without a name is left out. -/
def postmanVariables (value : Option Json) : Import (List (String × String)) := do
  let entries ← collect (fun item => do
    let name ← textOr platform (orValue (item.get "key") (item.get "id")) ""
    let value ← textOr platform (item.get "value") ""
    return (name, value)) ((itemsOf value).filter fun item => isObject (some item))
  return fromEntries (entries.filter fun entry => entry.1 ≠ "")

def importPostman (root : List (String × Json)) : Import ImportResult := do
  let vars ← postmanVariables platform (Json.member? "variable" root)
  let requests ← postmanLoop platform vars (importMaxNodes + 1)
    ((itemsOf (Json.member? "item" root)).map fun item => ⟨item, [], 0⟩)
  let info ← objectIfAny (Json.member? "info" root)
  let name ← textOr platform (Json.member? "name" info) "Postman Import"
  return {
    source := .postman
    name := name
    requests := requests.map ImportedRequest.toJson
    warnings := [] }

/-! ## HAR -/

/-- The name of an entry: its comment, or what it asks for. -/
def harName (entry request : List (String × Json)) : Import String :=
  match orValue (Json.member? "comment" entry) none with
  | some comment => text platform (some comment)
  | none => do
    let method ← textOr platform (Json.member? "method" request) "GET"
    let url ← textOr platform (Json.member? "url" request) ""
    return method ++ " " ++ url

def harRequest (value : Json) : Import ImportedRequest := do
  consumeRequest
  let entry ← object (some value)
  let request ← object (Json.member? "request" entry)
  let postData ← objectIfAny (Json.member? "postData" request)
  let name ← harName platform entry request
  let method ← textOr platform (Json.member? "method" request) "GET"
  let url ← textOr platform (Json.member? "url" request) ""
  let headers ← headerMap platform (Json.member? "headers" request)
  return {
    name := name
    method := platform.toUpperCase method
    url := url
    headers := headers
    body := (Json.member? "text" postData).bind Json.asStr
    collectionPath := ((Json.member? "pageref" entry).bind Json.asStr).toList
    vars := none }

def importHar (root : List (String × Json)) : Import ImportResult := do
  let log ← object (Json.member? "log" root)
  let requests ← collect (harRequest platform) (itemsOf (Json.member? "entries" log))
  return {
    source := .har
    name := "HAR Import"
    requests := requests.map ImportedRequest.toJson
    warnings := [] }

/-! ## All formats -/

def isOpenApi (root : List (String × Json)) : Bool :=
  ((Json.member? "openapi" root).bind Json.asStr).isSome ||
    ((Json.member? "swagger" root).bind Json.asStr).isSome

/-- Does the schema of a document's information name Postman? -/
def namesPostman (root : List (String × Json)) : Except String Bool :=
  match Json.member? "info" root with
  | some (.obj info) =>
    ((orValue (Json.member? "schema" info) (some (.str ""))).elim (.ok "undefined")
      (textOf platform)).map fun schema => includes schema "postman"
  | some (.arr _) => .error objectMessage
  | _ => .ok false

/-- The requests of a project file are handed on as they are. -/
def importProject (root : List (String × Json)) (requests : List Json) : Import ImportResult := do
  let _ ← collect (fun _ => consumeRequest) requests
  let name ← textOr platform (Json.member? "name" root) "ApiVoy Import"
  return { source := .apivoy, name := name, requests := requests, warnings := [] }

def unknownFormatMessage : String :=
  "无法识别文件格式；支持 OpenAPI JSON、Postman Collection v2、HAR 和 ApiVoy 项目包"

def importObject (root : List (String × Json)) : Import ImportResult :=
  if isOpenApi root then importOpenApi platform root
  else if isObject (Json.member? "log" root) then importHar platform root
  else do
    let postman ← lift (namesPostman platform root)
    if postman then importPostman platform root
    else
      match Json.member? "format" root, Json.member? "requests" root with
      | some (.str "apivoy-project"), some (.arr requests) => importProject platform root requests
      | _, _ => Fallible.fail unknownFormatMessage

/-! ## Whole documents -/

/-- The values in a value. -/
def childrenOf : Json → List Json
  | .arr items => items
  | .obj members => members.map Prod.snd
  | _ => []

/-- Visit every value of a document, the last one of an object or array first. Each round
spends a node, so there is none beyond the limit. -/
def validateLoop : Nat → List (Json × Nat) → Import Unit
  | _, [] => return ()
  | 0, _ :: _ => Fallible.fail nodesMessage
  | fuel + 1, (value, depth) :: stack => do
    consumeNode depth
    validateLoop fuel (((childrenOf value).map fun child => (child, depth + 1)).reverse ++ stack)

/-- Run a step with a budget of its own. -/
def withOwnBudget {α : Type} (m : Import α) : Import α := fun budget =>
  ((m.run createBudget).1, budget)

def validateStructure (root : Json) : Import Unit :=
  withOwnBudget (validateLoop (importMaxNodes + 1) [(root, 0)])

def parsed (text : String) : Import Json :=
  match parseJson text with
  | some value => pure value
  | none => Fallible.fail "SyntaxError"

def importJsonSteps (document : String) : Import ImportResult := do
  consumeDocument document "导入文件"
  let value ← parsed document
  let root ← object (some value)
  validateStructure (.obj root)
  importObject platform root

def importJson (document : String) : Except String ImportResult :=
  ((importJsonSteps platform document).run createBudget).1

end Formats

end ApiVoy.Portable
