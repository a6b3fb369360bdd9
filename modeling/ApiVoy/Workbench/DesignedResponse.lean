/-
# Designed responses

The design of a response is a list of fields, each below its parent. The workbench derives such
fields from a body that was sent, and it checks the response that has come against the fields of
its design. The field of an array has one child, `items`: the derivation gives it the type of the
first element, while the check looks for a member of that name in every element.
-/

import ApiVoy.Domain.Execution
import ApiVoy.Foundation.Script

namespace ApiVoy.Workbench

open Foundation Domain

/-! ## Values of a script -/

/-- What `JSON.parse` gives. Only what an object inherits can be a function. -/
inductive Parsed where
  | null
  | bool (value : Bool)
  | num (value : Double)
  | str (value : String)
  | arr (items : List Parsed)
  | obj (members : List (String × Parsed))
  | function

namespace Parsed

/-- `Number.isInteger`. -/
def isInteger : Parsed → Bool
  | .num (.finite value) => value.den = 1
  | _ => false

def typeof : Parsed → String
  | .bool _ => "boolean"
  | .num _ => "number"
  | .str _ => "string"
  | .function => "function"
  | .null | .arr _ | .obj _ => "object"

end Parsed

/-- What the workbench asks its platform about. -/
structure DesignHost where
  platform : Script.Platform
  parseJson : String → Option Parsed
  /-- What an object has besides its own members. -/
  inherited : String → Option Parsed
  /-- `String(value)`, for a number. -/
  numberText : Double → String
  /-- Is that a text of the format? -/
  validXml : String → Bool
  validHtml : String → Bool
  validEventStream : String → Bool

/-! ## Fields -/

structure DefinitionField where
  id : String
  name : String
  type : String
  required : Bool
  description : String
  example? : Option String
  parentId : Option String
  scope : String
  status : Option String
  responseId : Option String

inductive ResponseBodyType where
  | json | xml | html | text | binary | msgpack | eventStream | none
  deriving DecidableEq

def ResponseBodyType.label : ResponseBodyType → String
  | .json => "json"
  | .xml => "xml"
  | .html => "html"
  | .text => "text"
  | .binary => "binary"
  | .msgpack => "msgpack"
  | .eventStream => "event-stream"
  | .none => "none"

structure DesignedResponse where
  status : String
  bodyType : Option ResponseBodyType
  contentType : Option String
  fields : List DefinitionField

structure DesignedResponseResult where
  status : Option Nat
  preview : Option String
  responseMeta : Option ResponseMeta

structure ProjectResponseValidationSettings where
  status : Bool
  headers : Bool
  bodyFormat : Bool
  bodySchema : Bool
  allowAdditionalProperties : Bool
  deriving DecidableEq

structure HttpDebugDraft where
  url : String
  headers : List (String × String)
  body : Option String

/-! ## Deriving fields -/

section Deriving

variable (host : DesignHost) (draw : Nat → String)

def fieldType : Parsed → String
  | .null => "string"
  | .arr _ => "array"
  | .num value => if (Parsed.num value).isInteger then "integer" else "number"
  | .bool _ => "boolean"
  | .obj _ => "object"
  | .str _ | .function => "string"

/-- The example of a field; a value that is an object for the script has none. -/
def exampleText : Parsed → Option String
  | .bool value => some (if value then "true" else "false")
  | .num value => some (host.numberText value)
  | .str value => some value
  | _ => none

/-- The field of a value, with the id of that draw. -/
def bodyField (name : String) (item : Parsed) (parentId : Option String) (n : Nat) :
    DefinitionField where
  id := draw n
  name := name
  type := fieldType item
  required := false
  description := ""
  example? := exampleText host item
  parentId := parentId
  scope := "request.body"
  status := none
  responseId := none

mutual

/-- The fields of a value and what is in it, and the number of the next draw. -/
def addBodyField (name : String) : Parsed → Option String → Nat → List DefinitionField × Nat
  | .arr [], parentId, n =>
    ([bodyField host draw name (.arr []) parentId n,
      bodyField host draw "items" (.str "") (some (draw n)) (n + 1)], n + 2)
  | .arr (first :: others), parentId, n =>
    let (fields, next) := addBodyField "items" first (some (draw n)) (n + 1)
    (bodyField host draw name (.arr (first :: others)) parentId n :: fields, next)
  | .obj members, parentId, n =>
    let (fields, next) := addBodyFields members (some (draw n)) (n + 1)
    (bodyField host draw name (.obj members) parentId n :: fields, next)
  | item, parentId, n => ([bodyField host draw name item parentId n], n + 1)

def addBodyFields : List (String × Parsed) → Option String → Nat → List DefinitionField × Nat
  | [], _, n => ([], n)
  | (name, item) :: members, parentId, n =>
    let (fields, next) := addBodyField name item parentId n
    let (others, last) := addBodyFields members parentId next
    (fields ++ others, last)

end

def ignoredHeaders : List String :=
  ["authorization", "cookie", "content-type", "content-length", "host", "connection",
    "user-agent", "accept", "accept-encoding"]

def flatField (name scope : String) (n : Nat) : DefinitionField where
  id := draw n
  name := name
  type := "string"
  required := false
  description := ""
  example? := none
  parentId := none
  scope := scope
  status := none
  responseId := none

/-- The fields of the query and the headers. -/
def flatFields (draft : HttpDebugDraft) : List DefinitionField :=
  let url := if draft.url = "" then "/" else draft.url
  let params := (host.platform.searchParamKeys url).eraseDups
  let headers := (draft.headers.map fun header => Script.trim header.1).filter fun name =>
    name ≠ "" && !ignoredHeaders.contains (Script.toLowerCase name)
  (params.zipIdx.map fun (name, n) => flatField draw name "request.params" n) ++
    headers.zipIdx.map fun (name, n) => flatField draw name "request.headers" (params.length + n)

def bodyValue (body : Option String) : Option Parsed :=
  match body with
  | some text => if Script.trim text = "" then none else host.parseJson text
  | none => none

def definitionFieldsFromHttpDraft (draft : HttpDebugDraft) : List DefinitionField :=
  let flat := flatFields host draw draft
  flat ++
    match bodyValue host draft.body with
    | some (.obj members) => (addBodyFields host draw members none flat.length).1
    | some (.arr items) => (addBodyField host draw "items" (.arr items) none flat.length).1
    | _ => []

/-- A field of the body of a request as one of a response. -/
def DefinitionField.rescoped (field : DefinitionField) : DefinitionField :=
  if field.scope = "request.body" then { field with scope := "response.body" } else field

end Deriving

/-! ## Types -/

def valueType (value : Parsed) : String :=
  match value with
  | .arr _ => "array"
  | .null => "null"
  | value => if value.isInteger then "integer" else value.typeof

def matchesJsonType (value : Parsed) (expected : String) : Bool :=
  if expected = "number" then
    match value with
    | .num (.finite _) => true
    | _ => false
  else if expected = "object" then
    match value with
    | .obj _ => true
    | _ => false
  else if ["bytes", "file", "enum"].contains expected then value.typeof = "string"
  else valueType value = expected

section Validating

variable (host : DesignHost)

def isNumberText (normalized : String) : Bool :=
  match Script.toNumber normalized with
  | .finite _ => normalized ≠ ""
  | _ => false

def isIntegerText (normalized : String) : Bool :=
  let digits := match normalized.toList with
    | '-' :: rest | '+' :: rest => rest
    | rest => rest
  digits ≠ [] && digits.all Char.isDigit

def matchesHeaderType (value expected : String) : Bool :=
  let normalized := Script.trim value
  let lower := normalized.toList.map Char.toLower
  if expected = "integer" then isIntegerText normalized
  else if expected = "number" then isNumberText normalized
  else if expected = "boolean" then lower = "true".toList || lower = "false".toList
  else if expected = "null" then lower = "null".toList
  else if expected = "array" then
    (normalized.toList.splitOn ',').any fun part => Script.trimChars part ≠ []
  else if expected = "object" then
    match host.parseJson normalized with
    | some (.obj _) => true
    | _ => false
  else true

def mediaType (value : Option String) : String :=
  Script.toLowerCase (String.ofList (Script.trimChars
    ((value.getD "").toList.takeWhile (· ≠ ';'))))

def mediaTypeMatches (actual expected : String) (bodyType : ResponseBodyType) : Bool :=
  if expected = "" || actual = expected then true
  else if bodyType = .json then
    "+json".toList.isSuffixOf actual.toList && expected = "application/json"
  else if bodyType = .xml then
    "+xml".toList.isSuffixOf actual.toList && ["application/xml", "text/xml"].contains expected
  else false

/-- `length`, in units of UTF-16. -/
def scriptLength (text : String) : Nat :=
  (text.toList.map fun c => if 0x10000 ≤ c.toNat then 2 else 1).sum

def formatError (bodyType : ResponseBodyType) (preview : String) : Option String :=
  match bodyType with
  | .json => if (host.parseJson preview).isSome then none else some "响应 Body 不是有效 JSON"
  | .xml => if host.validXml preview then none else some "响应 Body 不是有效 XML"
  | .html =>
    if Script.trim preview = "" || host.validHtml preview then none
    else some "响应 Body 不是有效 HTML 标记"
  | .eventStream =>
    if Script.trim preview = "" || host.validEventStream preview then none
    else some "响应 Body 不是有效 Event-Stream 文本"
  | .none => if preview = "" then none else some "响应定义为无 Body，但实际响应包含数据"
  | _ => none

def defaultContentType : ResponseBodyType → String
  | .json => "application/json"
  | .xml => "application/xml"
  | .html => "text/html"
  | .text => "text/plain"
  | .binary => "application/octet-stream"
  | .msgpack => "application/msgpack"
  | .eventStream => "text/event-stream"
  | .none => ""

variable (definition : DesignedResponse)

def outcome (name : String) (passed : Bool) (expected actual message : Option String) :
    AssertionResultEvent where
  ruleId := "design:" ++ definition.status ++ ":" ++ name
  name := name
  passed := passed
  expected := expected
  actual := actual
  message := message

def maxResponseValidationChars : Nat := 1000000

def maxSchemaValidationNodes : Nat := 10000

def maxSchemaValidationDepth : Nat := 64

/-! ## The schema -/

/-- The results so far, how many values were visited, and whether that were too many. -/
structure Visit where
  visited : Nat
  exceeded : Bool
  results : List AssertionResultEvent

def Visit.push (st : Visit) (result : AssertionResultEvent) : Visit :=
  { st with results := st.results ++ [result] }

/-- Visit a value with the fields below a parent. -/
abbrev Visitor := Parsed → Option String → String → Visit → Visit

def tooComplex (depth : Nat) (st : Visit) : Visit :=
  { st with exceeded := true }.push (outcome definition "接口设计 · Body 结构复杂度" false
    (some ("深度 ≤ " ++ toString maxSchemaValidationDepth ++ " 且节点 ≤ " ++
      toString maxSchemaValidationNodes))
    (some ("深度 " ++ toString depth ++ "，节点 " ++ toString st.visited))
    (some "响应结构过于复杂，已停止校验"))

def property (members : List (String × Parsed)) (name : String) : Option Parsed :=
  match members.find? fun member => member.1 = name with
  | some member => some member.2
  | none => host.inherited name

/-- Check one field of an object, and what is below it. Visiting does nothing any more once too
many values were visited. -/
def visitField (deeper : Visitor) (members : List (String × Parsed)) (path : String) (st : Visit)
    (field : DefinitionField) : Visit :=
  let fieldPath := path ++ "." ++ field.name
  match property host members field.name with
  | none =>
    st.push (outcome definition ("接口设计 · " ++ fieldPath) (!field.required)
      (some (field.type ++ if field.required then "（必需）" else "（可选）")) (some "不存在")
      (if field.required then some "缺少必需属性" else none))
  | some value =>
    let passed := matchesJsonType value field.type
    let st := st.push (outcome definition ("接口设计 · " ++ fieldPath) passed (some field.type)
      (some (valueType value)) (if passed then none else some "值类型与接口设计不一致"))
    if passed && field.type = "object" then deeper value (some field.id) fieldPath st
    else if passed && field.type = "array" then
      match value with
      | .arr items =>
        items.zipIdx.foldl (fun st (item, index) =>
          deeper item (some field.id) (fieldPath ++ "[" ++ toString index ++ "]") st) st
      | _ => st
    else st

/-- Members that no field allows. -/
def additional (children : List DefinitionField) (members : List (String × Parsed))
    (path : String) : List AssertionResultEvent :=
  (members.filter fun member => !(children.map DefinitionField.name).contains member.1).map
    fun member => outcome definition ("接口设计 · " ++ path ++ "." ++ member.1) false
      (some "未定义字段") (some "存在") (some "不允许额外属性")

variable (settings : ProjectResponseValidationSettings) (bodyFields : List DefinitionField)

def childrenOf (parentId : Option String) : List DefinitionField :=
  bodyFields.filter fun field => field.parentId = parentId

def visitNode (deeper : Visitor) : Visitor := fun parent parentId path st =>
  let children := childrenOf bodyFields parentId
  match parent with
  | .obj members =>
    let st := children.foldl (visitField host definition deeper members path) st
    if settings.allowAdditionalProperties then st
    else { st with results := st.results ++ additional definition children members path }
  | _ =>
    if children.isEmpty then st
    else st.push (outcome definition ("接口设计 · " ++ path) false (some "object")
      (some (valueType parent)) (some "父级数据类型不匹配"))

/-- Visit a value that this many levels may be left below. -/
def visit : Nat → Visitor
  | 0 => fun _ _ _ st =>
    if st.exceeded then st
    else tooComplex definition (maxSchemaValidationDepth + 1)
      { st with visited := st.visited + 1 }
  | left + 1 => fun parent parentId path st =>
    if st.exceeded then st
    else
      let st := { st with visited := st.visited + 1 }
      if maxSchemaValidationNodes < st.visited then
        tooComplex definition (maxSchemaValidationDepth - left) st
      else visitNode host definition settings bodyFields (visit left) parent parentId path st

def visitBody (body : Parsed) : Visit :=
  visit host definition settings bodyFields (maxSchemaValidationDepth + 1) body none "$"
    ⟨0, false, []⟩

end Validating

/-! ## Validation -/

section Results

variable (host : DesignHost) (definition : DesignedResponse) (result : DesignedResponseResult)
  (settings : ProjectResponseValidationSettings)

def statusResults : List AssertionResultEvent :=
  let actual := (result.status.map toString).getD ""
  if settings.status then
    [outcome definition "接口设计 · HTTP 状态码" (actual = definition.status) (some definition.status)
      (some (if actual = "" then "—" else actual))
      (if actual = definition.status then none else some "实际状态码与所选返回响应不一致")]
  else []

def responseHeaders : List (String × String) := (result.responseMeta.map ResponseMeta.headers).getD []

def headerResult (field : DefinitionField) : AssertionResultEvent :=
  let name := "接口设计 · Header " ++ field.name
  -- Of several headers with one name the last one counts.
  match (responseHeaders result).reverse.find? fun header =>
      Script.toLowerCase header.1 = Script.toLowerCase field.name with
  | none =>
    outcome definition name (!field.required)
      (some (field.type ++ if field.required then "（必需）" else "（可选）")) (some "不存在")
      (if field.required then some "缺少必需 Header" else none)
  | some (_, actual) =>
    let passed := matchesHeaderType host actual field.type
    outcome definition name passed (some field.type) (some actual)
      (if passed then none else some "Header 值类型与接口设计不一致")

def headerResults : List AssertionResultEvent :=
  if settings.headers then
    (definition.fields.filter fun field => field.scope = "response.headers" && field.name ≠ "").map
      (headerResult host definition result)
  else []

def bodyFieldsOf (fields : List DefinitionField) : List DefinitionField :=
  fields.filter fun field => field.scope = "response.body" && field.name ≠ ""

def previewOf : String := result.preview.getD ""

def withinBudget : Bool := scriptLength (previewOf result) ≤ maxResponseValidationChars

def bodyTypeOf : Option ResponseBodyType :=
  definition.bodyType.or (if (bodyFieldsOf definition.fields).isEmpty then none else some .json)

def actualContentType : String :=
  let announced := mediaType (result.responseMeta.bind ResponseMeta.contentType)
  if announced ≠ "" then announced
  else mediaType (((responseHeaders result).find? fun header =>
    Script.toLowerCase header.1 = "content-type").map Prod.snd)

def formatResults : List AssertionResultEvent :=
  match bodyTypeOf definition with
  | some bodyType =>
    if settings.bodyFormat then
      let expected := if mediaType definition.contentType ≠ "" then mediaType definition.contentType
        else defaultContentType bodyType
      let actual := actualContentType result
      let passed := mediaTypeMatches actual expected bodyType
      let error := if withinBudget result then formatError host bodyType (previewOf result)
        else some ("响应 Body 超过校验上限（" ++ toString maxResponseValidationChars ++ " 字符）")
      let label := host.platform.toUpperCase bodyType.label
      (if expected = "" then []
        else [outcome definition "接口设计 · Body Content-Type" passed (some expected)
          (some (if actual = "" then "未提供" else actual))
          (if passed then none else some "响应 Content-Type 与接口设计不一致")]) ++
        [outcome definition "接口设计 · Body 格式" error.isNone
          (some (if bodyType = .none then "无 Body" else label))
          (some (if error.isSome then (if actual = "" then "未知" else actual) else label)) error]
    else []
  | none => []

def schemaResults : List AssertionResultEvent :=
  let bodyFields := bodyFieldsOf definition.fields
  if settings.bodySchema && !bodyFields.isEmpty then
    if withinBudget result = false then
      if settings.bodyFormat then []
      else [outcome definition "接口设计 · Body 结构" false
        (some ("不超过 " ++ toString maxResponseValidationChars ++ " 字符"))
        (some (toString (scriptLength (previewOf result)) ++ " 字符"))
        (some "响应 Body 过大，已跳过结构校验")]
    else
      match host.parseJson (previewOf result) with
      | none =>
        let actual := mediaType (result.responseMeta.bind ResponseMeta.contentType)
        if settings.bodyFormat then []
        else [outcome definition "接口设计 · Body 格式" false (some "JSON")
          (some (if actual = "" then "未知" else actual)) (some "响应 Body 不是有效 JSON")]
      | some body => (visitBody host definition settings bodyFields body).results
  else []

def validateDesignedResponse : List AssertionResultEvent :=
  statusResults definition result settings ++ headerResults host definition result settings ++
    formatResults host definition result settings ++ schemaResults host definition result settings

end Results

end ApiVoy.Workbench
