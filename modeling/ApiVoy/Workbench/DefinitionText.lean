/-
# Definitions as text

The design of an interface is written as an OpenAPI document. What the document cannot hold
travels in extensions of one line each, the JSON of the fields, of the security design and of the
responses, and that is where a reader looks first. The rest of the document shows the names and
the descriptions of the fields as they are.
-/

import ApiVoy.Foundation.Anchored
import ApiVoy.Workbench.DesignedResponse
import ApiVoy.Workbench.Envelopes

namespace ApiVoy.Workbench

open Foundation

/-! ## Designs -/

inductive OpenApiVersion where
  | v20 | v30 | v31 | v32
  deriving DecidableEq

def OpenApiVersion.literal : OpenApiVersion → String
  | .v30 => "3.0.4"
  | .v32 => "3.2.0"
  | .v20 | .v31 => "3.1.2"

inductive BodyDesignMode where
  | none | formData | urlencoded | json | xml | text | binary | graphql
  deriving DecidableEq

namespace BodyDesignMode

def label : BodyDesignMode → String
  | .none => "none"
  | .formData => "form-data"
  | .urlencoded => "urlencoded"
  | .json => "json"
  | .xml => "xml"
  | .text => "text"
  | .binary => "binary"
  | .graphql => "graphql"

def contentType : BodyDesignMode → Option String
  | .none => Option.none
  | .formData => some "multipart/form-data"
  | .urlencoded => some "application/x-www-form-urlencoded"
  | .json | .graphql => some "application/json"
  | .xml => some "application/xml"
  | .text => some "text/plain"
  | .binary => some "application/octet-stream"

end BodyDesignMode

structure SecurityDesignConfig where
  authScheme : String
  apiKeyName : String
  apiKeyIn : String
  scopes : String
  rateLimit : Double
  rateWindow : String
  maxBodyKb : Double
  requireHttps : Bool

def defaultSecurityDesign : SecurityDesignConfig where
  authScheme := "none"
  apiKeyName := "X-Api-Key"
  apiKeyIn := "header"
  scopes := ""
  rateLimit := .finite 0
  rateWindow := "minute"
  maxBodyKb := .finite 0
  requireHttps := true

structure ResponseDefinition where
  id : String
  name : String
  statusCode : String
  bodyType : ResponseBodyType
  contentType : String
  componentId : Option String
  referenceMode : Option String

/-- What the writing and reading of definitions asks for. -/
structure DefinitionHost where
  platform : Script.Platform
  /-- Ids, in the order they are drawn. -/
  draw : Nat → String
  /-- Address and method of the draft that is open for debugging. -/
  liveUrl : Option String
  liveMethod : Option String
  /-- The fields that a text without an extension shows, as values of a script. -/
  inferredFields : String → List Json

/-! ## Values of a script -/

/-- A member that is left out when it is not defined. -/
def optionalMember (name : String) (value : Option String) : List (String × Json) :=
  match value with
  | some text => [(name, .str text)]
  | none => []

def DefinitionField.json (field : DefinitionField) : Json :=
  .obj ([("id", .str field.id), ("name", .str field.name), ("type", .str field.type),
      ("required", .bool field.required), ("description", .str field.description)] ++
    optionalMember "example" field.example? ++ optionalMember "parentId" field.parentId ++
    [("scope", .str field.scope)] ++ optionalMember "status" field.status ++
    optionalMember "responseId" field.responseId)

def ResponseDefinition.json (response : ResponseDefinition) : Json :=
  .obj ([("id", .str response.id), ("name", .str response.name),
      ("statusCode", .str response.statusCode), ("bodyType", .str response.bodyType.label),
      ("contentType", .str response.contentType)] ++
    optionalMember "componentId" response.componentId ++
    optionalMember "referenceMode" response.referenceMode)

/-- A number as a value; JSON has no others than finite ones. -/
def numberJson : Double → Json
  | .finite value => .num value
  | _ => .null

def SecurityDesignConfig.json (security : SecurityDesignConfig) : Json :=
  .obj [("authScheme", .str security.authScheme), ("apiKeyName", .str security.apiKeyName),
    ("apiKeyIn", .str security.apiKeyIn), ("scopes", .str security.scopes),
    ("rateLimit", numberJson security.rateLimit), ("rateWindow", .str security.rateWindow),
    ("maxBodyKb", numberJson security.maxBodyKb), ("requireHttps", .bool security.requireHttps)]

/-- Members over those of another object, each in its first place. -/
def spreadOver (base members : List (String × Json)) : List (String × Json) :=
  (base.map fun entry => (members.find? fun member => member.1 = entry.1).getD entry) ++
    members.filter fun member => !(base.map Prod.fst).contains member.1

/-! ## Reading -/

section Reading

/-- The value of an extension that stands at the beginning of a line: what is between the brackets,
when nothing but white space follows on the line. -/
def extensionAt (key : String) (opening closing : Char) (text : List Char) :
    Option (List Char) :=
  if key.toList.isPrefixOf text then
    let value := (text.drop key.toList.length).dropWhile Script.isSpace
    let source := (value.takeWhile fun c => !isTerminator c).rdropWhile Script.isSpace
    if value.head? = some opening && source.getLast? = some closing then some source else none
  else none

/-- The value of the first extension with that key. -/
def extensionOf (key : String) (opening closing : Char) (content : String) : Option String :=
  (matchLines (extensionAt key opening closing) true content.toList).map String.ofList

def isFieldJson : Json → Bool
  | .obj members => ["id", "name", "type", "scope"].all fun name =>
    match members.find? fun member => member.1 = name with
    | some (_, .str _) => true
    | _ => false
  | _ => false

def parseVisualFieldsExtension (content : String) : Option (List Json) :=
  match (extensionOf "x-apivoy-visual-fields:" '[' ']' content).bind Script.parseJson with
  | some (.arr items) => some (items.filter isFieldJson)
  | _ => none

def parseSecurityDesign (content : String) : Json :=
  match (extensionOf "x-apivoy-security:" '{' '}' content).bind Script.parseJson with
  | some value => .obj (spreadOver (ownMembers defaultSecurityDesign.json) (ownMembers value))
  | none => defaultSecurityDesign.json

def normalizeResponseBodyType (value : Option Json) : ResponseBodyType :=
  match value with
  | some (.str text) =>
    if text = "sse" then .eventStream
    else ([.json, .xml, .html, .text, .binary, .msgpack, .eventStream, .none].find?
      fun bodyType : ResponseBodyType => bodyType.label = text).getD .json
  | _ => .json

variable (host : DefinitionHost)

/-- The fields of a definition for HTTP, as values of a script. The cache holds the fields of texts
that were written in this session. -/
def parseDefinitionFields (visualFieldCache : List (String × List DefinitionField))
    (content : String) : List Json :=
  if Script.trim content = "" then []
  else
    match parseVisualFieldsExtension content with
    | some visualFields => visualFields
    | none =>
      match visualFieldCache.find? fun entry => entry.1 = content with
      | some (_, cached) => cached.map DefinitionField.json
      | none => host.inferredFields content

def defaultResponseDefinition (statusCode : String) (n : Nat) : ResponseDefinition where
  id := host.draw n
  name := if statusCode.toList.head? = some '2' then "成功" else "未命名响应"
  statusCode := statusCode
  bodyType := .json
  contentType := "application/json"
  componentId := none
  referenceMode := none

def isResponseScope (scope : String) : Bool := "response.".toList.isPrefixOf scope.toList

/-- The status a field is for; one that is not given or empty is 200. -/
def DefinitionField.statusOr (field : DefinitionField) : String :=
  match field.status with
  | some status => if status = "" then "200" else status
  | none => "200"

def responseStatuses (fields : List DefinitionField) : List String :=
  ((fields.filter fun field => isResponseScope field.scope).map
    DefinitionField.statusOr).eraseDups

/-- The statuses of the fields, or the usual one. -/
def statusesOr (fields : List DefinitionField) : List String :=
  if (responseStatuses fields).isEmpty then ["200"] else responseStatuses fields

def legacyResponses (fields : List DefinitionField) : List ResponseDefinition :=
  (statusesOr fields).zipIdx.map fun (statusCode, n) => defaultResponseDefinition host statusCode n

/-- A response as it was read, with a type of its body that is known. Nothing can be read of
null. -/
def normalizedResponse (response : Json) : Option Json :=
  match response with
  | .null => none
  | response =>
    let members := ownMembers response
    let bodyType := (members.find? fun member => member.1 = "bodyType").map Prod.snd
    some (.obj (spreadOver members
      [("bodyType", .str (normalizeResponseBodyType bodyType).label)]))

def parseResponseDefinitions (content : String) (fields : List DefinitionField) : List Json :=
  let legacy := (legacyResponses host fields).map ResponseDefinition.json
  match (extensionOf "x-apivoy-responses:" '[' ']' content).bind Script.parseJson with
  | some (.arr items) =>
    if items.isEmpty then legacy else (items.mapM normalizedResponse).getD legacy
  | _ => legacy

end Reading

/-! ## Writing -/

section Writing

variable (fields : List DefinitionField)

/-- The fields below another one. -/
def fieldChildren (field : DefinitionField) : List DefinitionField :=
  fields.filter fun item => item.parentId = some field.id

def nameOrField (field : DefinitionField) : String :=
  if field.name = "" then "field" else field.name

/-- The names of the fields that are required, on a line of their own. -/
def requiredLine (indent : String) (items : List DefinitionField) : String :=
  if items.any fun item => item.required then
    indent ++ "required: [" ++
      ", ".intercalate ((items.filter fun item => item.required).map DefinitionField.name) ++ "]\n"
  else ""

/-- Format, description and example of a field, each on a line of its own. -/
def schemaMetadata (field : DefinitionField) (indent : String) : String :=
  (if field.type = "file" then "\n" ++ indent ++ "format: binary" else "") ++
    (if field.description = "" then "" else "\n" ++ indent ++ "description: " ++ field.description) ++
    match field.example? with
    | some text => if text = "" then "" else "\n" ++ indent ++ "example: " ++ text
    | none => ""

/-- The schema of a field with what is below it. There is no text when so many levels are not
enough: the script calls itself until its stack is full. -/
def renderSchemaField : Nat → DefinitionField → String → Option String
  | 0, _, _ => none
  | fuel + 1, field, indent =>
    let children := fieldChildren fields field
    let schemaType := if field.type = "file" then "string" else field.type
    let described := schemaMetadata field indent
    if field.type = "array" then
      match children with
      | [] => some (indent ++ "type: array" ++ described ++ "\n" ++ indent ++ "items:\n" ++ indent ++
          "  type: string")
      | item :: _ => (renderSchemaField fuel item (indent ++ "  ")).map fun text =>
        indent ++ "type: array" ++ described ++ "\n" ++ indent ++ "items:\n" ++ text
    else if field.type = "object" && !children.isEmpty then
      (children.mapM fun child => (renderSchemaField fuel child (indent ++ "    ")).map fun text =>
        indent ++ "  " ++ nameOrField child ++ ":\n" ++ text).map fun texts =>
          indent ++ "type: object" ++ described ++ "\n" ++ requiredLine indent children ++ indent ++
            "properties:\n" ++ "\n".intercalate texts
    else some (indent ++ "type: " ++ schemaType ++ described)

/-- The fields that have no parent among some fields. -/
def schemaRoots (items : List DefinitionField) : List DefinitionField :=
  items.filter fun field =>
    match field.parentId with
    | none => true
    | some parentId => parentId = "" || !items.any fun item => item.id = parentId

def yamlSchema (fuel : Nat) (items : List DefinitionField) (indent : String) : Option String :=
  let roots := schemaRoots items
  (roots.mapM fun field => (renderSchemaField fields fuel field (indent ++ "    ")).map fun text =>
    indent ++ "  " ++ nameOrField field ++ ":\n" ++ text).map fun texts =>
      requiredLine indent roots ++ indent ++ "properties:\n" ++ "\n".intercalate texts

/-- The schema of a body after what introduces it; nothing for a body without fields. -/
def bodySchemaText (fuel : Nat) (items : List DefinitionField) (introduction indent : String) :
    Option String :=
  if items.isEmpty then some ""
  else (yamlSchema fields fuel items indent).map fun text => introduction ++ text

def ofScope (scope : String) (items : List DefinitionField) : List DefinitionField :=
  items.filter fun field => field.scope = scope

def flag (value : Bool) : String := if value then "true" else "false"

/-- The cookies a response sets, an extension of the document. -/
def responseCookiesText (cookies : List DefinitionField) : String :=
  if cookies.isEmpty then ""
  else "\n          x-response-cookies:\n" ++ "\n".intercalate (cookies.map fun field =>
    "            " ++ field.name ++ ":\n              type: " ++ field.type)

/-- A response, with its headers written as the version of the document has them. -/
def responseText (fuel : Nat) (headerText : DefinitionField → String)
    (introduction indent status : String) : Option String :=
  let responseFields := fields.filter fun field => field.statusOr = status
  let headers := ofScope "response.headers" responseFields
  (bodySchemaText fields fuel (ofScope "response.body" responseFields) introduction indent).map
    fun body =>
      "        '" ++ status ++ "':\n          description: Response " ++ status ++
        (if headers.isEmpty then ""
          else "\n          headers:\n" ++ "\n".intercalate (headers.map headerText)) ++
        responseCookiesText (ofScope "response.cookies" responseFields) ++ body

variable (host : DefinitionHost)

def liveMethod : String :=
  let method := Script.toLowerCase (host.liveMethod.getD "")
  if method = "" then "get" else method

def livePath : String :=
  let url := if host.liveUrl.getD "" = "" then "/" else host.liveUrl.getD ""
  let pathname := ((host.platform.resolveUrl url (some "http://apivoy.local")).bind
    host.platform.urlPathname).getD "/"
  if pathname = "" then "/" else pathname

def visualFieldsExtension : String :=
  "x-apivoy-visual-fields: " ++
    Script.stringify host.platform 0 (.arr (fields.map DefinitionField.json)) ++ "\n"

def securityExtension (security : SecurityDesignConfig) (responses : List ResponseDefinition) :
    String :=
  "x-apivoy-security: " ++ Script.stringify host.platform 0 security.json ++
    "\nx-apivoy-responses: " ++
      Script.stringify host.platform 0 (.arr (responses.map ResponseDefinition.json)) ++ "\n"

/-- The head of the paths, which there is one of. -/
def pathText : String := "  " ++ livePath host ++ ":\n    " ++ liveMethod host ++ ":\n"

def parameterPlaces : List String := ["request.params", "request.headers", "request.cookies"]

/-- What comes after the extensions in a document of version 2.0. -/
def swaggerBody (fuel : Nat) : Option String :=
  let params := fields.filter fun field => parameterPlaces.contains field.scope
  let regularParams := params.filter fun field => field.scope ≠ "request.cookies"
  let cookieParams := ofScope "request.cookies" params
  let parameters := "\n".intercalate (regularParams.map fun field =>
    "        - name: " ++ field.name ++ "\n          in: " ++
      (if field.scope = "request.headers" then "header" else "query") ++
      "\n          required: " ++ flag field.required ++ "\n          type: " ++ field.type)
  let cookies := if cookieParams.isEmpty then ""
    else "\n      x-cookie-parameters:\n" ++ "\n".intercalate (cookieParams.map fun field =>
      "        - name: " ++ field.name ++ "\n          required: " ++ flag field.required ++
        "\n          type: " ++ field.type)
  let headerText := fun field : DefinitionField =>
    "            " ++ field.name ++ ":\n              type: " ++ field.type
  (bodySchemaText fields fuel (ofScope "request.body" fields)
      ((if regularParams.isEmpty then "" else "\n") ++ "        - name: body\n          in: body\n" ++
        "          required: true\n          schema:\n            type: object\n")
      "            ").bind fun body =>
    ((statusesOr fields).mapM (responseText fields fuel headerText
      "\n          schema:\n            type: object\n" "            ")).map fun responses =>
        "info:\n  title: Current API\n  version: 1.0.0\nproduces: [application/json]\npaths:\n" ++
          pathText host ++ "      parameters:\n" ++ parameters ++ body ++ cookies ++
          "\n      responses:\n" ++ "\n".intercalate responses

/-- The body of a request in a document of version 3. -/
def requestBodyText (fuel : Nat) (bodyMode : BodyDesignMode) : Option String :=
  match bodyMode with
  | .none => some ""
  | .binary => some ("      requestBody:\n        content:\n          application/octet-stream:\n" ++
      "            schema:\n              type: string\n              format: binary\n")
  | bodyMode =>
    (yamlSchema fields fuel (ofScope "request.body" fields) "              ").map fun text =>
      "      requestBody:\n        content:\n          " ++
        bodyMode.contentType.getD "application/json" ++
        ":\n            schema:\n              type: object\n" ++ text ++ "\n"

/-- What comes after the extensions in a document of version 3. -/
def openApiBody (fuel : Nat) (bodyMode : BodyDesignMode) : Option String :=
  let params := fields.filter fun field => parameterPlaces.contains field.scope
  let place := fun field : DefinitionField =>
    if field.scope = "request.params" then "query"
    else if field.scope = "request.headers" then "header" else "cookie"
  let parameters := if params.isEmpty then ""
    else "      parameters:\n" ++ "\n".intercalate (params.map fun field =>
      "        - name: " ++ field.name ++ "\n          in: " ++ place field ++
        "\n          required: " ++ flag field.required ++
        "\n          schema:\n            type: " ++ field.type) ++ "\n"
  let headerText := fun field : DefinitionField =>
    "            " ++ field.name ++ ":\n              required: " ++ flag field.required ++
      "\n              schema:\n                type: " ++ field.type
  (requestBodyText fields fuel bodyMode).bind fun body =>
    ((statusesOr fields).mapM (responseText fields fuel headerText
      ("\n          content:\n            application/json:\n              schema:\n" ++
        "                type: object\n") "                ")).map fun responses =>
        "info:\n  title: Current API\n  version: 1.0.0\npaths:\n" ++ pathText host ++ parameters ++
          body ++ "      responses:\n" ++ "\n".intercalate responses

/-- The document of a design for HTTP. Without responses there are those its fields name. -/
def fieldsToDefinition (fuel : Nat) (version : OpenApiVersion) (bodyMode : BodyDesignMode)
    (security : SecurityDesignConfig) (responses : Option (List ResponseDefinition)) :
    Option String :=
  let definitions := match responses with
    | some (response :: others) => response :: others
    | _ => legacyResponses host fields
  let extensions := visualFieldsExtension fields host ++ securityExtension host security definitions
  match version with
  | .v20 => (swaggerBody fields host fuel).map fun body => "swagger: '2.0'\n" ++ extensions ++ body
  | version => (openApiBody fields host fuel bodyMode).map fun body =>
    "openapi: " ++ version.literal ++ "\nx-apivoy-body-mode: " ++ bodyMode.label ++ "\n" ++
      extensions ++ body

end Writing

end ApiVoy.Workbench
