/-
# Request envelopes

A request of any protocol is an envelope around a protocol payload. Before an
envelope is written anywhere it is sanitized: literal credentials stay on the
in-memory request that is executed and never reach storage.
-/

import ApiVoy.Foundation.Codec

namespace ApiVoy.Domain

open Foundation

/-- A request id, as the text of its uuid. -/
abbrev RequestId := String

/-- A point in time, as its RFC 3339 text. -/
abbrev Timestamp := String

inductive AssertionTarget where
  | status | header | body | jsonPath | duration | size
  deriving DecidableEq, Repr

inductive AssertionOperator where
  | equals | notEquals | isIn | greaterThan | lessThan | contains | notContains
  | exists | notExists | typeIs | lengthEquals | lengthGreaterThan | lengthLessThan
  deriving DecidableEq, Repr

/-- One check of a response. -/
structure Assertion where
  id : String
  enabled : Bool
  target : AssertionTarget
  operator : AssertionOperator
  selector : Option String
  expected : Option String
  deriving DecidableEq

structure MultipartPart where
  name : String
  value : String
  fileName : Option String
  contentType : Option String
  base64 : Bool
  deriving DecidableEq

structure HttpPayload where
  method : String
  headers : List (String × String)
  body : Option String
  bodyEncoding : String
  bodySource : Option String
  multipart : List MultipartPart
  followRedirects : Bool
  deriving DecidableEq

structure SsePayload where
  headers : List (String × String)
  lastEventId : Option String
  reconnectMax : UInt32
  reconnectDelayMs : UInt64
  deriving DecidableEq

structure SocketPayload where
  data : String
  encoding : String
  framing : Option String
  delimiter : Option String
  fixedLength : Option UInt64
  sendCount : UInt32
  intervalMs : UInt64
  tls : Bool
  serverName : Option String
  caCertRef : Option String
  deriving DecidableEq

structure UdpPayload where
  data : String
  encoding : String
  sendCount : UInt32
  intervalMs : UInt64
  deriving DecidableEq

structure GraphqlPayload where
  query : String
  vars : Json
  operationName : Option String
  headers : List (String × String)
  deriving DecidableEq

structure WebSocketMessage where
  encoding : String
  data : String
  deriving DecidableEq

structure WebSocketPayload where
  headers : List (String × String)
  subprotocols : List String
  messages : List WebSocketMessage
  receiveLimit : Option UInt64
  reconnectMax : UInt32
  reconnectDelayMs : UInt64
  deriving DecidableEq

structure GrpcPayload where
  service : String
  method : String
  messageBase64 : String
  mode : String
  metadata : List (String × String)
  descriptorSetBase64 : Option String
  messageJson : Option String
  deriving DecidableEq

/-- What a driver sends. The drivers without a payload type of their own read a
raw JSON value. -/
inductive ProtocolPayload where
  | http (payload : HttpPayload)
  | sse (payload : SsePayload)
  | tcp (payload : SocketPayload)
  | udp (payload : UdpPayload)
  | graphql (payload : GraphqlPayload)
  | websocket (payload : WebSocketPayload)
  | grpc (payload : GrpcPayload)
  | raw (value : Json)
  deriving DecidableEq

/-- Request authentication. Credentials are referred to by their name in the
secret store; bearer authentication can also carry an execution-only token. -/
structure AuthRef where
  kind : String
  secretRef : Option String
  token : Option String
  username : Option String
  headerName : Option String
  tokenUrl : Option String
  scope : Option String
  audience : Option String
  authorizationUrl : Option String
  redirectUri : Option String
  authorizationCodeRef : Option String
  codeVerifierRef : Option String
  deriving DecidableEq

structure RetryPolicy where
  maxRetries : UInt32
  backoffMs : UInt64
  deriving DecidableEq

structure TlsOptions where
  verify : Bool
  clientCertRef : Option String
  deriving DecidableEq

structure RequestEnvelope where
  id : RequestId
  protocolId : String
  name : String
  target : String
  environmentRef : Option String
  authRef : Option AuthRef
  timeoutMs : UInt64
  retryPolicy : RetryPolicy
  proxy : Option String
  tls : TlsOptions
  metadata : Json
  payload : ProtocolPayload
  preScripts : List String
  postScripts : List String
  assertions : List Assertion
  /-- Request-scoped variables. -/
  vars : StringMap
  /-- Secret material supplied by the execution host; never serialized. -/
  runtimeSecrets : StringMap
  createdAt : Timestamp
  deriving DecidableEq

def RequestEnvelope.httpGet (id : RequestId) (now : Timestamp) (name url : String) :
    RequestEnvelope where
  id := id
  protocolId := "http"
  name := name
  target := url
  environmentRef := none
  authRef := none
  timeoutMs := 30000
  retryPolicy := ⟨0, 0⟩
  proxy := none
  tls := ⟨true, none⟩
  metadata := .obj []
  payload := .http {
    method := "GET"
    headers := []
    body := none
    bodyEncoding := "text"
    bodySource := none
    multipart := []
    followRedirects := true }
  preScripts := []
  postScripts := []
  assertions := []
  vars := ∅
  runtimeSecrets := ∅
  createdAt := now

/-- The body of an HTTP request; other payloads have none. -/
def ProtocolPayload.body : ProtocolPayload → Option String
  | .http payload => payload.body
  | _ => none

def ProtocolPayload.isHttp : ProtocolPayload → Bool
  | .http _ => true
  | _ => false

/-! ## Sanitizing -/

/-- A name without its separators and letter case. -/
def normalizedCredentialName (value : String) : List Char :=
  (value.toList.filter Char.isAlphanum).map Char.toLower

def sensitiveNames : List String :=
  ["authorization", "proxyauthorization", "cookie", "setcookie", "apikey", "xapikey",
    "authtoken", "xauthtoken", "accesstoken", "xaccesstoken"]

def sensitiveSuffixes : List String := ["token", "secret", "password", "passwd", "apikey"]

def isSensitiveHeaderName (name : String) : Bool :=
  let normalized := normalizedCredentialName name
  sensitiveNames.any (fun known => known.toList = normalized) ||
    sensitiveSuffixes.any fun suffix => suffix.toList.isSuffixOf normalized

def isSensitiveJsonKey (name : String) : Bool :=
  isSensitiveHeaderName name ||
    ["authorizationcode", "codeverifier"].any fun known =>
      known.toList = normalizedCredentialName name

/-- Is this a header pair whose name is sensitive? -/
def isSensitivePair : Json → Bool
  | .arr (.str name :: _) => isSensitiveHeaderName name
  | _ => false

mutual

/-- Remove sensitive members at every depth. `inHeaders` says that the value is
the one of a `headers` member, whose pairs are then checked by their names. -/
def scrubSensitiveJson (inHeaders : Bool) : Json → Json
  | .obj members => .obj (scrubMembers members)
  | .arr items => .arr (scrubItems inHeaders items)
  | j => j

def scrubMembers : List (String × Json) → List (String × Json)
  | [] => []
  | (key, nested) :: rest =>
    if isSensitiveJsonKey key then scrubMembers rest
    else
      (key, scrubSensitiveJson (normalizedCredentialName key = "headers".toList) nested) ::
        scrubMembers rest

def scrubItems (inHeaders : Bool) : List Json → List Json
  | [] => []
  | item :: rest =>
    if inHeaders && isSensitivePair item then scrubItems inHeaders rest
    else scrubSensitiveJson false item :: scrubItems inHeaders rest

end

/-- The payload as it may be stored: HTTP headers with a sensitive name are left
out, every other payload is kept as it is. -/
def ProtocolPayload.sanitized : ProtocolPayload → ProtocolPayload
  | .http payload =>
    .http { payload with
      headers := payload.headers.filter fun header => !isSensitiveHeaderName header.1 }
  | payload => payload

/-- A copy that is safe to write to the local database or history. -/
def RequestEnvelope.sanitizedForPersistence (request : RequestEnvelope) : RequestEnvelope :=
  { request with
    authRef := request.authRef.map fun auth => { auth with token := none }
    payload := request.payload.sanitized
    metadata := scrubSensitiveJson false request.metadata
    runtimeSecrets := ∅ }

variable (payload : ProtocolPayload)

@[simp]
theorem ProtocolPayload.body_sanitized : payload.sanitized.body = payload.body := by
  cases payload <;> rfl

@[simp]
theorem ProtocolPayload.isHttp_sanitized : payload.sanitized.isHttp = payload.isHttp := by
  cases payload <;> rfl

variable (request : RequestEnvelope)

@[simp]
theorem RequestEnvelope.sanitizedForPersistence_id :
    request.sanitizedForPersistence.id = request.id := rfl

@[simp]
theorem RequestEnvelope.sanitizedForPersistence_payload :
    request.sanitizedForPersistence.payload = request.payload.sanitized := rfl

/-- Separators and letter case do not hide a credential, and an ordinary header
name is not taken for one. -/
example :
    isSensitiveHeaderName "X-Csrf-Token" = true ∧ isSensitiveHeaderName "Accept" = false := by
  decide

mutual

/-- A second sanitizing pass removes nothing more. -/
theorem scrubSensitiveJson_idem :
    ∀ (inHeaders : Bool) (j : Json),
      scrubSensitiveJson inHeaders (scrubSensitiveJson inHeaders j) = scrubSensitiveJson inHeaders j
  | _, .null => rfl
  | _, .bool _ => rfl
  | _, .num _ => rfl
  | _, .str _ => rfl
  | inHeaders, .arr items => by
    simp only [scrubSensitiveJson, scrubItems_idem inHeaders items]
  | _, .obj members => by
    simp only [scrubSensitiveJson, scrubMembers_idem members]

theorem scrubMembers_idem :
    ∀ members : List (String × Json), scrubMembers (scrubMembers members) = scrubMembers members
  | [] => rfl
  | (key, nested) :: rest => by
    by_cases h : isSensitiveJsonKey key
    · simp only [scrubMembers, h, if_true, scrubMembers_idem rest]
    · simp only [scrubMembers, h, Bool.false_eq_true, if_false, scrubMembers_idem rest,
        scrubSensitiveJson_idem _ nested]

theorem scrubItems_idem :
    ∀ (inHeaders : Bool) (items : List Json),
      scrubItems inHeaders (scrubItems inHeaders items) = scrubItems inHeaders items
  | _, [] => rfl
  | inHeaders, item :: rest => by
    by_cases h : (inHeaders && isSensitivePair item) = true
    · simp only [scrubItems, h, if_true, scrubItems_idem inHeaders rest]
    · have hkept : (inHeaders && isSensitivePair (scrubSensitiveJson false item)) = false := by
        rw [isSensitivePair_scrub]
        simpa using h
      simp only [scrubItems, h, hkept, Bool.false_eq_true, if_false,
        scrubItems_idem inHeaders rest, scrubSensitiveJson_idem _ item]

theorem isSensitivePair_scrub :
    ∀ item : Json, isSensitivePair (scrubSensitiveJson false item) = isSensitivePair item
  | .null => rfl
  | .bool _ => rfl
  | .num _ => rfl
  | .str _ => rfl
  | .obj _ => rfl
  | .arr [] => rfl
  | .arr (first :: rest) => by
    cases first <;> simp [scrubSensitiveJson, scrubItems, isSensitivePair]

end

/-- Sanitizing is done once and for all. -/
theorem RequestEnvelope.sanitizedForPersistence_idem :
    request.sanitizedForPersistence.sanitizedForPersistence = request.sanitizedForPersistence := by
  have hpayload : request.payload.sanitized.sanitized = request.payload.sanitized := by
    cases request.payload <;> simp [ProtocolPayload.sanitized, List.filter_filter]
  have hauth : request.sanitizedForPersistence.authRef.map (fun auth => { auth with token := none }) =
      request.sanitizedForPersistence.authRef := by
    cases h : request.authRef <;> simp [sanitizedForPersistence, h]
  simp only [sanitizedForPersistence, scrubSensitiveJson_idem, hpayload] at hauth ⊢
  rw [hauth]

end ApiVoy.Domain
