/-
# The HTTP driver

A request is built anew for every attempt, from the same parts. An attempt that cannot be sent,
or is answered with a server error, is repeated after a pause, as often as the policy of the
request allows; the run can be cancelled while it waits for an answer or pauses.
-/

import ApiVoy.Drivers.Session
import ApiVoy.Foundation.Retrying
import ApiVoy.Foundation.Text

namespace ApiVoy.Drivers.Http

open Foundation Domain Engine

/-! ## Requests -/

/-- What the driver takes from the libraries for HTTP and URLs. -/
structure HttpLibrary where
  parseMethod : String → Except String Unit
  parseUrl : String → Except String Unit
  parseProxy : String → Except String Unit
  parseIdentity : String → Except String Unit
  parseMime : String → Except String Unit
  buildClient : Except String Unit

structure ReqwestError where
  detail : String
  isTimeout : Bool
  isConnect : Bool
  deriving DecidableEq

def mapReqwestError (error : ReqwestError) : DriverError :=
  let lower := error.detail.toList.map Char.toLower
  if error.isTimeout = true then .timeout error.detail
  else if (occursIn "tls".toList lower || occursIn "certificate".toList lower ||
      occursIn "ssl".toList lower) = true then .tls error.detail
  else if error.isConnect = true then .connection error.detail
  else .protocol error.detail

/-- A name and a value around the first equals sign. -/
def splitOnce (item : List Char) : Option (List Char × List Char) :=
  if '=' ∈ item then
    some (item.takeWhile (· ≠ '='), (item.dropWhile (· ≠ '=')).drop 1)
  else none

/-- Put a cookie in the place of the one with its name, or behind all others. -/
def addCookie (cookies : List (List Char × List Char)) (item : List Char) :
    List (List Char × List Char) :=
  match splitOnce (trimChars item) with
  | none => cookies
  | some (name, value) =>
    let name := trimChars name
    let value := trimChars value
    if name = [] then cookies
    else if name ∈ cookies.map Prod.fst then
      cookies.map fun cookie => if cookie.1 = name then (name, value) else cookie
    else cookies ++ [(name, value)]

def mergeCookieValues (jar : Option String) (requestValues : List String) : Option String :=
  let cookies := (jar.toList ++ requestValues).foldl
    (fun cookies source => (source.toList.splitOn ';').foldl addCookie cookies) []
  if cookies = [] then none
  else some ("; ".intercalate
    (cookies.map fun cookie => String.ofList (cookie.1 ++ '=' :: cookie.2)))

/-- A field of a form, as text or as bytes. -/
structure FormPart where
  name : String
  content : String ⊕ Bytes
  fileName : Option String
  contentType : Option String
  deriving DecidableEq

inductive HttpBody where
  | none
  | text (content : String)
  | bytes (content : Bytes)
  | form (parts : List FormPart)
  deriving DecidableEq

/-- A request as it is handed to the client. -/
structure HttpAttempt where
  method : String
  target : String
  headers : List (String × String)
  body : HttpBody
  deriving DecidableEq

section Building

variable (codecs : Codecs) (library : HttpLibrary)

def formPart (field : MultipartPart) : Except DriverError FormPart := do
  let bytes ←
    if field.base64 = true then
      match codecs.decodeBase64 field.value with
      | .ok bytes => .ok bytes
      | .error e => .error (.validation
          ("multipart field `" ++ field.name ++ "` contains invalid Base64: " ++ e))
    else .ok (utf8 field.value)
  let content := if field.fileName = none ∧ field.base64 = false then .inl field.value
    else .inr bytes
  match field.contentType with
  | none => .ok ⟨field.name, content, field.fileName, none⟩
  | some contentType =>
    match library.parseMime contentType with
    | .ok () => .ok ⟨field.name, content, field.fileName, some contentType⟩
    | .error e => .error (.validation
        ("multipart field `" ++ field.name ++ "` has invalid content type: " ++ e))

def applyHttpBody (payload : HttpPayload) : Except DriverError HttpBody :=
  if payload.multipart = [] then
    match payload.body with
    | none => .ok .none
    | some body =>
      if payload.bodyEncoding = "base64" then
        match codecs.decodeBase64 body with
        | .ok bytes => .ok (.bytes bytes)
        | .error e => .error (.validation ("invalid HTTP Base64 body: " ++ e))
      else .ok (.text body)
  else do
    let parts ← payload.multipart.mapM (formPart codecs library)
    return .form parts

/-- The client for a request; the usual one needs not be built. -/
def clientFor (request : RequestEnvelope) (followRedirects : Bool) : Except DriverError Unit :=
  if request.proxy = none ∧ request.tls.verify = true ∧ request.tls.clientCertRef = none ∧
      followRedirects = true then .ok ()
  else do
    match request.proxy with
    | none => pure ()
    | some proxy =>
      match library.parseProxy proxy with
      | .ok () => pure ()
      | .error e => .error (.validation ("invalid proxy URL: " ++ e))
    match request.tls.clientCertRef with
    | none => pure ()
    | some secretRef =>
      match request.runtimeSecrets.lookup secretRef with
      | none => .error (.validation
          ("TLS client identity secret `" ++ secretRef ++ "` was not provided"))
      | some pem =>
        match library.parseIdentity pem with
        | .ok () => pure ()
        | .error e => .error (.validation
            ("invalid PEM client identity `" ++ secretRef ++ "`: " ++ e))
    match library.buildClient with
    | .ok () => pure ()
    | .error e => .error (.internal e)

def isNamed (name : String) (header : String × String) : Bool := eqIgnoreAsciiCase header.1 name

/-- The cookies of the request, joined with the ones of the jar. -/
def mergedCookies (payload : HttpPayload) (jar : Option String) : Option String :=
  let requestValues := (payload.headers.filter (isNamed "cookie")).map Prod.snd
  if requestValues = [] then none else mergeCookieValues jar requestValues

/-- The headers that are sent: the cookies come last, and a form has a content type of its own. -/
def attemptHeaders (payload : HttpPayload) (cookies : Option String) : List (String × String) :=
  (payload.headers.filter fun header => !isNamed "cookie" header &&
    !(!payload.multipart.isEmpty && isNamed "content-type" header)) ++
      cookies.toList.map fun value => ("Cookie", value)

def buildAttempt (request : RequestEnvelope) (payload : HttpPayload) (cookies : Option String) :
    Except DriverError HttpAttempt := do
  let body ← applyHttpBody codecs library payload
  return ⟨payload.method, request.target, attemptHeaders payload cookies, body⟩

end Building

/-! ## Servers -/

/-- What comes of an attempt. -/
inductive Reply where
  | answered (response : WebResponse)
  | failed (error : ReqwestError)
  | cancelled

/-- A server, with what comes of each attempt, and whether the pause behind it is cancelled; the
attempts that have been made, and the cookies of the jar. -/
structure Server where
  replies : Nat → Reply
  pauses : Nat → Bool
  jar : Option String
  attempts : List HttpAttempt

abbrev HttpM := DriverM Server

namespace Server

def send (attempt : HttpAttempt) (server : Server) : Reply × Server :=
  (server.replies server.attempts.length,
    { server with attempts := server.attempts ++ [attempt] })

/-- Pause behind the last attempt. -/
def pause (server : Server) : Bool × Server := (server.pauses (server.attempts.length - 1), server)

end Server

/-! ## Runs -/

def cancel {α : Type} (reason : String) : HttpM α := do
  emit (.cancelled (some reason))
  Fallible.fail .cancelled

def isServerError (status : UInt16) : Bool := decide (500 ≤ status.toNat ∧ status.toNat < 600)

def statusText (response : WebResponse) : String :=
  toString response.status.toNat ++ " " ++ response.reason.getD "<unknown status code>"

def retryWarning (cause : String) (attempt : Nat) : ExecutionEvent :=
  .warning "http_retry" (cause ++ "；准备第 " ++ toString attempt ++ " 次重试")

/-- Pause before the next attempt, unless the policy has no pause. -/
def backoff (policy : RetryPolicy) : HttpM Unit := do
  if 0 < policy.backoffMs.toNat then
    if (← askPeer Server.pause) = true then cancel "user cancelled during retry backoff"

section Attempts

variable (policy : RetryPolicy) (build : Except DriverError HttpAttempt)

def tryOnce : HttpM Reply := do
  let attempt ← Session.ofExcept build
  askPeer (Server.send attempt)

/-- Attempt a request as often as is left after this attempt. -/
def attemptLoop : Nat → HttpM WebResponse
  | 0 => do
    match ← tryOnce build with
    | .cancelled => cancel "user cancelled"
    | .answered response => return response
    | .failed error => Fallible.fail (mapReqwestError error)
  | left + 1 => do
    match ← tryOnce build with
    | .cancelled => cancel "user cancelled"
    | .answered response =>
      if isServerError response.status = true then do
        emit (retryWarning ("HTTP " ++ statusText response) (policy.maxRetries.toNat - left))
        backoff policy
        attemptLoop left
      else return response
    | .failed error => do
      emit (retryWarning (mapReqwestError error).message (policy.maxRetries.toNat - left))
      backoff policy
      attemptLoop left

end Attempts

section Receiving

variable (codecs : Codecs)

def previewBytes : Nat := 10000

def responseMeta (response : WebResponse) : ExecutionEvent :=
  .responseMeta {
    status := some response.status
    statusText := some (response.reason.getD "")
    headers := response.headers.map fun header => (header.1, header.2.getD "")
    contentType := response.contentType
    sizeHint := response.contentLength }

def addPreview (preview : String) (chunk : Bytes) : String :=
  if (utf8 preview).length < previewBytes then
    preview ++ fromUtf8Lossy (chunk.take (previewBytes - (utf8 preview).length))
  else preview

def dataChunk (contentType : Option String) (chunk : Bytes) : ExecutionEvent :=
  .responseChunk contentType (UInt64.ofNat chunk.length) none (some (codecs.encodeBase64 chunk)) false

def receiveLoop (contentType : Option String) : List BodyItem → String → Nat → HttpM (String × Nat)
  | [], preview, received => return (preview, received)
  | .cancelled :: _, _, _ => cancel "user cancelled"
  | .failed message :: _, _, _ => Fallible.fail (.protocol message)
  | .chunk chunk :: items, preview, received => do
    emit (dataChunk codecs contentType chunk)
    receiveLoop contentType items (addPreview preview chunk) (received + chunk.length)

/-- Read a response to its end and report it. -/
def receive (info : RunInfo) (request : RequestEnvelope) (response : WebResponse) :
    HttpM ExecutionSummary := do
  emit (responseMeta response)
  emit (running .transfer)
  let (preview, received) ← receiveLoop codecs response.contentType response.items "" 0
  emit (.responseChunk response.contentType 0 (some preview) none true)
  let summary := completedSummary info request "http" received (some response.status)
  emit (.completed summary)
  emit (.stateChanged .completed (some .persist))
  return summary

end Receiving

def httpPayload (request : RequestEnvelope) : Except DriverError HttpPayload :=
  match request.payload with
  | .http payload => .ok payload
  | _ => .error (.validation "HTTP driver requires ProtocolPayload::Http")

def validated (result : Except String Unit) : Except DriverError Unit :=
  match result with
  | .ok () => .ok ()
  | .error e => .error (.validation e)

def execute (codecs : Codecs) (library : HttpLibrary) (info : RunInfo) (request : RequestEnvelope) :
    HttpM ExecutionSummary := do
  let payload ← Session.ofExcept (httpPayload request)
  emit (running .connect)
  Session.ofExcept (validated (library.parseMethod payload.method))
  Session.ofExcept (clientFor library request payload.followRedirects)
  Session.ofExcept (validated (library.parseUrl request.target))
  let jar ← askPeer fun server => (server.jar, server)
  let response ← attemptLoop request.retryPolicy
    (buildAttempt codecs library request payload (mergedCookies payload jar))
    request.retryPolicy.maxRetries.toNat
  receive codecs info request response

end ApiVoy.Drivers.Http
