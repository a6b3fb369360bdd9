/-
# Reading a curl command

A pasted command is cut into words by a tokenizer of its own, which knows both kinds of quotes
but does not join quoted parts that stand next to each other. The options are then read one
after the other.
-/

import ApiVoy.Foundation.Percent
import ApiVoy.Workbench.Envelopes
import ApiVoy.Workbench.Sanitizer

namespace ApiVoy.Workbench

open Domain Foundation Script

namespace Curl

/-! ## Words -/

/-- Replace each line break after a mark, and the mark, by a space. -/
def joinAfter (mark : Char) : List Char → List Char
  | [] => []
  | [c] => [c]
  | [c, d] => if c = mark ∧ d = '\n' then [' '] else [c, d]
  | c :: d :: e :: text =>
    if c = mark ∧ d = '\n' then ' ' :: joinAfter mark (e :: text)
    else if c = mark ∧ d = '\r' ∧ e = '\n' then ' ' :: joinAfter mark text
    else c :: joinAfter mark (d :: e :: text)

/-- Take the backslash off a quote or backslash. -/
def unescape : List Char → List Char
  | [] => []
  | [c] => [c]
  | c :: d :: text =>
    if c = '\\' ∧ (d = '"' ∨ d = '\\') then d :: unescape text else c :: unescape (d :: text)

def isLineTerminator (c : Char) : Bool :=
  decide (c = '\n' ∨ c = '\r' ∨ c.toNat = 0x2028 ∨ c.toNat = 0x2029)

/-- What stands before the double quote that closes a text, and what follows it. A backslash
takes the next character with it, which must not end the line. -/
def closeDouble : List Char → Option (List Char × List Char)
  | [] => none
  | [c] => if c = '"' then some ([], []) else none
  | c :: d :: text =>
    if c = '"' then some ([], d :: text)
    else if c = '\\' then
      if isLineTerminator d then none
      else (closeDouble text).map fun (content, rest) => (c :: d :: content, rest)
    else (closeDouble (d :: text)).map fun (content, rest) => (c :: content, rest)

/-- What stands before the next single quote, and what follows it. -/
def closeSingle : List Char → Option (List Char × List Char)
  | [] => none
  | c :: text =>
    if c = '\'' then some ([], text)
    else (closeSingle text).map fun (content, rest) => (c :: content, rest)

/-- A run of characters up to white space. -/
def bareWord (text : List Char) : List Char × List Char :=
  (text.takeWhile (!isSpace ·), text.dropWhile (!isSpace ·))

/-- The first word of a text that does not begin with white space. A quote that is never closed
is a character like any other. -/
def firstWord : List Char → List Char × List Char
  | '"' :: text => (closeDouble text).getD (bareWord ('"' :: text))
  | '\'' :: text => (closeSingle text).getD (bareWord ('\'' :: text))
  | text => bareWord text

def wordsFrom : Nat → List Char → List String
  | 0, _ => []
  | _, [] => []
  | fuel + 1, c :: text =>
    if isSpace c then wordsFrom fuel text
    else
      String.ofList (unescape (firstWord (c :: text)).1) ::
        wordsFrom fuel (firstWord (c :: text)).2

def normalized (source : List Char) : List Char := joinAfter '^' (joinAfter '\\' source)

/-- The words of a command. Each takes a character at least. -/
def shellTokens (source : String) : List String :=
  wordsFrom (normalized source.toList).length (normalized source.toList)

/-! ## Options -/

inductive ValueOption where
  | request | url | header | data | dataUrlencode | user | cookie | form | proxy | maxTime | ignored
  deriving DecidableEq

def ignoredWithValue : List String :=
  ["-A", "--user-agent", "-e", "--referer", "--connect-timeout", "--retry", "--retry-delay",
    "--resolve", "--cert", "--key", "--cacert", "--interface", "--output", "-o"]

def valueOption (token : String) : Option ValueOption :=
  if token = "-X" ∨ token = "--request" then some .request
  else if token = "--url" then some .url
  else if token = "-H" ∨ token = "--header" then some .header
  else if ["-d", "--data", "--data-raw", "--data-binary", "--data-ascii"].contains token then
    some .data
  else if token = "--data-urlencode" then some .dataUrlencode
  else if token = "-u" ∨ token = "--user" then some .user
  else if token = "-b" ∨ token = "--cookie" then some .cookie
  else if ["-F", "--form", "--form-string"].contains token then some .form
  else if token = "-x" ∨ token = "--proxy" then some .proxy
  else if token = "--max-time" then some .maxTime
  else if ignoredWithValue.contains token then some .ignored
  else none

/-- What has been read of a command. -/
structure CurlState where
  method : String
  url : String
  timeoutMs : Rat
  followRedirects : Bool
  tlsVerify : Bool
  proxy : Option String
  basicUser : String
  cookie : String
  forceGet : Bool
  headers : List (String × String)
  warnings : List String
  dataParts : List String
  formParts : List String

def initialState : CurlState where
  method := "GET"
  url := ""
  timeoutMs := 30000
  followRedirects := false
  tlsVerify := true
  proxy := none
  basicUser := ""
  cookie := ""
  forceGet := false
  headers := []
  warnings := []
  dataParts := []
  formParts := []

def CurlState.warn (state : CurlState) (warning : String) : CurlState :=
  { state with warnings := state.warnings ++ [warning] }

/-- Data makes a request without a method a POST. -/
def CurlState.withBody (state : CurlState) : CurlState :=
  if state.method = "GET" ∧ state.forceGet = false then { state with method := "POST" } else state

theorem withBody_eq (state : CurlState) :
    state.withBody =
      { state with
        method :=
          if state.method = "GET" ∧ state.forceGet = false then "POST" else state.method } := by
  unfold CurlState.withBody
  split <;> rfl

/-- Note that a value is missing or looks like an option. -/
def CurlState.checkValue (state : CurlState) (token : String) (value : Option String) : CurlState :=
  if value.all fun value => value.toList.head? = some '-' then state.warn (token ++ " 缺少参数值")
  else state

/-- Read a header. A credential is left out. -/
def CurlState.readHeader (state : CurlState) (value : String) : CurlState :=
  let name := Script.trim (String.ofList (value.toList.takeWhile (· ≠ ':')))
  match value.toList.dropWhile (· ≠ ':') with
  | [] => state.warn ("无法识别 Header：" ++ if value = "" then "空值" else value)
  | _ :: rest =>
    if value.toList.head? = some ':' then state.warn ("无法识别 Header：" ++ value)
    else if Sanitizer.isSensitiveHeaderName name then
      state.warn ("为避免保存明文凭据，" ++ name ++ " Header 未导入；请在调试页绑定 Secret Ref")
    else { state with headers := state.headers ++ [(name, Script.trim (String.ofList rest))] }

/-- The text of an encoded part: what stands before the equals sign stays as it is. -/
def encodedPart (value : String) : String :=
  match value.toList.dropWhile (· ≠ '=') with
  | [] => Percent.encodeURIComponent value
  | _ :: rest =>
    String.ofList (value.toList.takeWhile (· ≠ '=')) ++ "=" ++
      Percent.encodeURIComponent (String.ofList rest)

variable (platform : Platform)

/-- Read the value of an option; a missing one counts as an empty one. -/
def CurlState.readValue (state : CurlState) (token : String) (given : Option String) :
    ValueOption → CurlState :=
  let state := state.checkValue token given
  let value := given.getD ""
  fun
  | .request =>
    { state with
      method := if platform.toUpperCase value = "" then "GET" else platform.toUpperCase value }
  | .url => { state with url := value }
  | .header => state.readHeader value
  | .data =>
    let read := { state with dataParts := state.dataParts ++ [value] }
    (if value.toList.head? = some '@' then
      read.warn (token ++ " 的文件引用不会读取本地文件，已保留原值") else read).withBody
  | .dataUrlencode =>
    ({ state with dataParts := state.dataParts ++ [encodedPart value] } : CurlState).withBody
  | .user => { state with basicUser := value }
  | .cookie => { state with cookie := value }
  | .form => ({ state with formParts := state.formParts ++ [value] } : CurlState).withBody
  | .proxy => { state with proxy := if value = "" then none else some value }
  | .maxTime =>
    match platform.milliseconds value with
    | some timeoutMs => { state with timeoutMs := timeoutMs }
    | none => state.warn "--max-time 不是有效数字，已使用默认超时"
  | .ignored =>
    state.warn ("暂不支持 " ++ token ++ (if value = "" then "" else " " ++ value) ++
      "，导入时已忽略")

/-- Read a word that takes no value. -/
def CurlState.readFlag (state : CurlState) (token : String) : CurlState :=
  if token = "-G" ∨ token = "--get" then { state with method := "GET", forceGet := true }
  else if token = "-L" ∨ token = "--location" then { state with followRedirects := true }
  else if token = "-k" ∨ token = "--insecure" then { state with tlsVerify := false }
  else if ["--compressed", "-s", "--silent", "-S", "--show-error"].contains token then state
  else if token.toList.head? = some '-' then state.warn ("暂不支持 " ++ token ++ "，导入时已忽略")
  else if state.url = "" then { state with url := token }
  else state.warn ("发现额外参数 " ++ token ++ "，导入时已忽略")

/-- Read the words after the name of the command. Each step takes one at least. -/
def readTokens : Nat → List String → CurlState → CurlState
  | 0, _, state => state
  | _, [], state => state
  | fuel + 1, token :: rest, state =>
    match valueOption token with
    | some option => readTokens fuel rest.tail (state.readValue platform token rest.head? option)
    | none => readTokens fuel rest (state.readFlag token)

/-! ## The request -/

structure CurlImportResult where
  request : HttpWorkbenchRequest
  warnings : List String
  deriving DecidableEq

/-- The warnings that are only known at the end. -/
def CurlState.finalWarnings (state : CurlState) : List String :=
  (if state.cookie = "" then []
    else ["为避免保存明文凭据，Cookie 未导入；请在调试页绑定 Secret Ref"]) ++
  (if state.basicUser = "" then []
    else if includes state.basicUser ":" then
      ["为避免保存明文密码，Basic Auth 密码未导入；请在调试页绑定 Secret Ref"]
    else ["Basic Auth 未包含密码，请在调试页绑定 Secret Ref"]) ++
  (if state.formParts = [] then []
    else ["检测到 " ++ toString state.formParts.length ++
      " 个 form-data 字段；文件字段需导入后重新选择文件"])

def CurlState.data (state : CurlState) : String := "&".intercalate state.dataParts

/-- The URL, to which the data of a GET request is added. -/
def CurlState.finalUrl (state : CurlState) : String :=
  if state.dataParts ≠ [] ∧ state.method = "GET" then
    state.url ++ (if includes state.url "?" then "&" else "?") ++ state.data
  else state.url

def CurlState.body (state : CurlState) : Option String :=
  if state.dataParts ≠ [] ∧ state.method ≠ "GET" then some state.data else none

def basicAuth (user : String) : AuthRef where
  kind := "basic"
  secretRef := none
  token := none
  username := some (String.ofList (user.toList.takeWhile (· ≠ ':')))
  headerName := none
  tokenUrl := none
  scope := none
  audience := none
  authorizationUrl := none
  redirectUri := none
  authorizationCodeRef := none
  codeVerifierRef := none

def CurlState.request (state : CurlState) : HttpWorkbenchRequest where
  id := none
  name := some (match platform.urlPathname state.finalUrl with
    | some path => if path = "" then "/" else path
    | none => "未命名接口")
  url := state.finalUrl
  method := state.method
  headers := state.headers
  body := state.body
  bodyEncoding := none
  bodySource := none
  multipart := none
  timeoutMs := state.timeoutMs
  vars := ∅
  assertions := []
  auth := if state.basicUser = "" then .null else .value (basicAuth state.basicUser)
  followRedirects := state.followRedirects
  retryMax := 0
  retryBackoffMs := 250
  proxy := state.proxy.elim .null .value
  tlsVerify := state.tlsVerify
  tlsClientCertRef := .undefined
  environmentRef := .undefined
  preScripts := none
  postScripts := none
  metadata := none

def parseTokens : List String → Except String CurlImportResult
  | [] => .error "请输入以 curl 开头的命令"
  | command :: tokens =>
    if ["curl", "curl.exe"].contains (toLowerCase command) then
      let state := readTokens platform tokens.length tokens initialState
      if state.url = "" then .error "cURL 命令中没有找到 URL"
      else .ok ⟨state.request platform, (state.warnings ++ state.finalWarnings).eraseDups⟩
    else .error "请输入以 curl 开头的命令"

def parseCurlWithWarnings (source : String) : Except String CurlImportResult :=
  parseTokens platform (shellTokens (Script.trim source))

def parseCurl (source : String) : Except String HttpWorkbenchRequest :=
  (parseCurlWithWarnings platform source).map CurlImportResult.request

end Curl

end ApiVoy.Workbench
