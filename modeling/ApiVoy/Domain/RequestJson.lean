/-
# The serialized form of a request envelope

Envelopes are stored and exchanged as JSON objects. Everything is written except
an execution-only token and the runtime secrets; a raw payload is written only
when it is an object or `null`, because its members share one object with the
name of the payload kind.
-/

import ApiVoy.Domain.Request

namespace ApiVoy.Domain

open Foundation

/-! ## Codecs of the parts -/

def AssertionTarget.label : AssertionTarget → String
  | .status => "status"
  | .header => "header"
  | .body => "body"
  | .jsonPath => "json_path"
  | .duration => "duration"
  | .size => "size"

def AssertionTarget.all : List AssertionTarget :=
  [.status, .header, .body, .jsonPath, .duration, .size]

def AssertionTarget.codec : Codec AssertionTarget :=
  .name AssertionTarget.label AssertionTarget.all fun a => by cases a <;> decide

def AssertionOperator.label : AssertionOperator → String
  | .equals => "equals"
  | .notEquals => "not_equals"
  | .isIn => "in"
  | .greaterThan => "greater_than"
  | .lessThan => "less_than"
  | .contains => "contains"
  | .notContains => "not_contains"
  | .exists => "exists"
  | .notExists => "not_exists"
  | .typeIs => "type_is"
  | .lengthEquals => "length_equals"
  | .lengthGreaterThan => "length_greater_than"
  | .lengthLessThan => "length_less_than"

def AssertionOperator.all : List AssertionOperator :=
  [.equals, .notEquals, .isIn, .greaterThan, .lessThan, .contains, .notContains, .exists,
    .notExists, .typeIs, .lengthEquals, .lengthGreaterThan, .lengthLessThan]

def AssertionOperator.codec : Codec AssertionOperator :=
  .name AssertionOperator.label AssertionOperator.all fun a => by cases a <;> decide

def Assertion.codec : Codec Assertion :=
  .record
    (fun a =>
      [("id", Codec.text.write a.id), ("enabled", Codec.boolean.write a.enabled),
        ("target", AssertionTarget.codec.write a.target),
        ("operator", AssertionOperator.codec.write a.operator),
        ("selector", Codec.optText.write a.selector),
        ("expected", Codec.optText.write a.expected)])
    (fun ms => do
      let id ← Codec.text.field "id" ms
      let enabled ← Codec.boolean.fieldOr true "enabled" ms
      let target ← AssertionTarget.codec.field "target" ms
      let operator ← AssertionOperator.codec.field "operator" ms
      let selector ← Codec.optText.fieldOr none "selector" ms
      let expected ← Codec.optText.fieldOr none "expected" ms
      return { id, enabled, target, operator, selector, expected })
    (fun a => by simp)

def headersCodec : Codec (List (String × String)) := .list (.pair .text .text)

def textsCodec : Codec (List String) := .list .text

def optSize : Codec (Option UInt64) := Codec.word64.nullable fun _ h => by cases h

def MultipartPart.codec : Codec MultipartPart :=
  .record
    (fun p =>
      [("name", Codec.text.write p.name), ("value", Codec.text.write p.value),
        ("fileName", Codec.optText.write p.fileName),
        ("contentType", Codec.optText.write p.contentType),
        ("base64", Codec.boolean.write p.base64)])
    (fun ms => do
      let name ← Codec.text.field "name" ms
      let value ← Codec.text.field "value" ms
      let fileName ← Codec.optText.fieldOr none "fileName" ms
      let contentType ← Codec.optText.fieldOr none "contentType" ms
      let base64 ← Codec.boolean.fieldOr false "base64" ms
      return { name, value, fileName, contentType, base64 })
    (fun p => by simp)

def multipartCodec : Codec (List MultipartPart) := .list MultipartPart.codec

def HttpPayload.members (p : HttpPayload) : List (String × Json) :=
  [("method", Codec.text.write p.method), ("headers", headersCodec.write p.headers),
    ("body", Codec.optText.write p.body), ("bodyEncoding", Codec.text.write p.bodyEncoding),
    ("bodySource", Codec.optText.write p.bodySource),
    ("multipart", multipartCodec.write p.multipart),
    ("followRedirects", Codec.boolean.write p.followRedirects)]

def HttpPayload.ofMembers (ms : List (String × Json)) : Option HttpPayload := do
  let method ← Codec.text.field "method" ms
  let headers ← headersCodec.field "headers" ms
  let body ← Codec.optText.fieldOr none "body" ms
  let bodyEncoding ← Codec.text.fieldOr "text" "bodyEncoding" ms
  let bodySource ← Codec.optText.fieldOr none "bodySource" ms
  let multipart ← multipartCodec.fieldOr [] "multipart" ms
  let followRedirects ← Codec.boolean.field "followRedirects" ms
  return { method, headers, body, bodyEncoding, bodySource, multipart, followRedirects }

def SsePayload.members (p : SsePayload) : List (String × Json) :=
  [("headers", headersCodec.write p.headers), ("lastEventId", Codec.optText.write p.lastEventId),
    ("reconnectMax", Codec.word32.write p.reconnectMax),
    ("reconnectDelayMs", Codec.word64.write p.reconnectDelayMs)]

def SsePayload.ofMembers (ms : List (String × Json)) : Option SsePayload := do
  let headers ← headersCodec.fieldOr [] "headers" ms
  let lastEventId ← Codec.optText.fieldOr none "lastEventId" ms
  let reconnectMax ← Codec.word32.fieldOr 0 "reconnectMax" ms
  let reconnectDelayMs ← Codec.word64.fieldOr 1000 "reconnectDelayMs" ms
  return { headers, lastEventId, reconnectMax, reconnectDelayMs }

def SocketPayload.members (p : SocketPayload) : List (String × Json) :=
  [("data", Codec.text.write p.data), ("encoding", Codec.text.write p.encoding),
    ("framing", Codec.optText.write p.framing), ("delimiter", Codec.optText.write p.delimiter),
    ("fixedLength", optSize.write p.fixedLength), ("sendCount", Codec.word32.write p.sendCount),
    ("intervalMs", Codec.word64.write p.intervalMs), ("tls", Codec.boolean.write p.tls),
    ("serverName", Codec.optText.write p.serverName),
    ("caCertRef", Codec.optText.write p.caCertRef)]

def SocketPayload.ofMembers (ms : List (String × Json)) : Option SocketPayload := do
  let data ← Codec.text.field "data" ms
  let encoding ← Codec.text.fieldOr "text" "encoding" ms
  let framing ← Codec.optText.fieldOr none "framing" ms
  let delimiter ← Codec.optText.fieldOr none "delimiter" ms
  let fixedLength ← optSize.fieldOr none "fixedLength" ms
  let sendCount ← Codec.word32.fieldOr 1 "sendCount" ms
  let intervalMs ← Codec.word64.fieldOr 0 "intervalMs" ms
  let tls ← Codec.boolean.fieldOr false "tls" ms
  let serverName ← Codec.optText.fieldOr none "serverName" ms
  let caCertRef ← Codec.optText.fieldOr none "caCertRef" ms
  return {
    data, encoding, framing, delimiter, fixedLength, sendCount, intervalMs, tls, serverName,
    caCertRef }

def UdpPayload.members (p : UdpPayload) : List (String × Json) :=
  [("data", Codec.text.write p.data), ("encoding", Codec.text.write p.encoding),
    ("sendCount", Codec.word32.write p.sendCount), ("intervalMs", Codec.word64.write p.intervalMs)]

def UdpPayload.ofMembers (ms : List (String × Json)) : Option UdpPayload := do
  let data ← Codec.text.field "data" ms
  let encoding ← Codec.text.fieldOr "text" "encoding" ms
  let sendCount ← Codec.word32.fieldOr 1 "sendCount" ms
  let intervalMs ← Codec.word64.fieldOr 0 "intervalMs" ms
  return { data, encoding, sendCount, intervalMs }

def GraphqlPayload.members (p : GraphqlPayload) : List (String × Json) :=
  [("query", Codec.text.write p.query), ("variables", Codec.value.write p.vars),
    ("operationName", Codec.optText.write p.operationName),
    ("headers", headersCodec.write p.headers)]

def GraphqlPayload.ofMembers (ms : List (String × Json)) : Option GraphqlPayload := do
  let query ← Codec.text.field "query" ms
  let vars ← Codec.value.fieldOr .null "variables" ms
  let operationName ← Codec.optText.fieldOr none "operationName" ms
  let headers ← headersCodec.fieldOr [] "headers" ms
  return { query, vars, operationName, headers }

def WebSocketMessage.codec : Codec WebSocketMessage :=
  .record
    (fun m => [("encoding", Codec.text.write m.encoding), ("data", Codec.text.write m.data)])
    (fun ms => do
      let encoding ← Codec.text.fieldOr "text" "encoding" ms
      let data ← Codec.text.field "data" ms
      return { encoding, data })
    (fun m => by simp)

def messagesCodec : Codec (List WebSocketMessage) := .list WebSocketMessage.codec

def WebSocketPayload.members (p : WebSocketPayload) : List (String × Json) :=
  [("headers", headersCodec.write p.headers), ("subprotocols", textsCodec.write p.subprotocols),
    ("messages", messagesCodec.write p.messages), ("receiveLimit", optSize.write p.receiveLimit),
    ("reconnectMax", Codec.word32.write p.reconnectMax),
    ("reconnectDelayMs", Codec.word64.write p.reconnectDelayMs)]

def WebSocketPayload.ofMembers (ms : List (String × Json)) : Option WebSocketPayload := do
  let headers ← headersCodec.fieldOr [] "headers" ms
  let subprotocols ← textsCodec.fieldOr [] "subprotocols" ms
  let messages ← messagesCodec.fieldOr [] "messages" ms
  let receiveLimit ← optSize.fieldOr none "receiveLimit" ms
  let reconnectMax ← Codec.word32.fieldOr 0 "reconnectMax" ms
  let reconnectDelayMs ← Codec.word64.fieldOr 1000 "reconnectDelayMs" ms
  return { headers, subprotocols, messages, receiveLimit, reconnectMax, reconnectDelayMs }

def GrpcPayload.members (p : GrpcPayload) : List (String × Json) :=
  [("service", Codec.text.write p.service), ("method", Codec.text.write p.method),
    ("messageBase64", Codec.text.write p.messageBase64), ("mode", Codec.text.write p.mode),
    ("metadata", headersCodec.write p.metadata),
    ("descriptorSetBase64", Codec.optText.write p.descriptorSetBase64),
    ("messageJson", Codec.optText.write p.messageJson)]

def GrpcPayload.ofMembers (ms : List (String × Json)) : Option GrpcPayload := do
  let service ← Codec.text.field "service" ms
  let method ← Codec.text.field "method" ms
  let messageBase64 ← Codec.text.field "messageBase64" ms
  let mode ← Codec.text.fieldOr "unary" "mode" ms
  let metadata ← headersCodec.fieldOr [] "metadata" ms
  let descriptorSetBase64 ← Codec.optText.fieldOr none "descriptorSetBase64" ms
  let messageJson ← Codec.optText.fieldOr none "messageJson" ms
  return { service, method, messageBase64, mode, metadata, descriptorSetBase64, messageJson }

/-! ## Payloads -/

/-- The serialized payload: the name of its kind among its own members. A raw
value that is neither an object nor `null` cannot be written this way. -/
def ProtocolPayload.toJson : ProtocolPayload → Option Json
  | .http p => some (.obj (("type", .str "http") :: p.members))
  | .sse p => some (.obj (("type", .str "sse") :: p.members))
  | .tcp p => some (.obj (("type", .str "tcp") :: p.members))
  | .udp p => some (.obj (("type", .str "udp") :: p.members))
  | .graphql p => some (.obj (("type", .str "graphql") :: p.members))
  | .websocket p => some (.obj (("type", .str "websocket") :: p.members))
  | .grpc p => some (.obj (("type", .str "grpc") :: p.members))
  | .raw (.obj ms) => some (.obj (("type", .str "raw") :: ms))
  | .raw .null => some (.obj [("type", .str "raw")])
  | .raw _ => none

def ProtocolPayload.ofJson : Json → Option ProtocolPayload
  | .obj ms =>
    match Json.memberValues "type" ms with
    | [.str "http"] => (HttpPayload.ofMembers ms).map .http
    | [.str "sse"] => (SsePayload.ofMembers ms).map .sse
    | [.str "tcp"] => (SocketPayload.ofMembers ms).map .tcp
    | [.str "udp"] => (UdpPayload.ofMembers ms).map .udp
    | [.str "graphql"] => (GraphqlPayload.ofMembers ms).map .graphql
    | [.str "websocket"] => (WebSocketPayload.ofMembers ms).map .websocket
    | [.str "grpc"] => (GrpcPayload.ofMembers ms).map .grpc
    | [.str "raw"] => some (.raw (.obj (ms.filter fun entry => entry.1 ≠ "type")))
    | _ => none
  | _ => none

/-- A payload that its serialized form determines: any payload of a protocol
with a type of its own, and a raw object without a member named `type`. -/
def ProtocolPayload.Faithful : ProtocolPayload → Prop
  | .raw (.obj ms) => Json.memberValues "type" ms = []
  | .raw _ => False
  | _ => True

variable {payload : ProtocolPayload}

theorem ProtocolPayload.ofJson_toJson (h : payload.Faithful) :
    ∃ j, payload.toJson = some j ∧ ofJson j = some payload := by
  cases payload with
  | raw j =>
    cases j with
    | obj ms =>
      have hfilter : (ms.filter fun entry => entry.1 ≠ "type") = ms := by
        have hnone : ms.filter (fun entry => entry.1 = "type") = [] := by
          simpa [Faithful, Json.memberValues] using h
        simpa [List.filter_eq_nil_iff, List.filter_eq_self] using hnone
      have htype : Json.memberValues "type" ms = [] := h
      refine ⟨_, rfl, ?_⟩
      simp only [ofJson, Json.memberValues_cons, if_true, htype]
      rw [List.filter_cons_of_neg (by simp), hfilter]
    | _ => exact h.elim
  | _ =>
    refine ⟨_, rfl, ?_⟩
    simp [ofJson, HttpPayload.members, HttpPayload.ofMembers, SsePayload.members,
      SsePayload.ofMembers, SocketPayload.members, SocketPayload.ofMembers, UdpPayload.members,
      UdpPayload.ofMembers, GraphqlPayload.members, GraphqlPayload.ofMembers,
      WebSocketPayload.members, WebSocketPayload.ofMembers, GrpcPayload.members,
      GrpcPayload.ofMembers]

/-! ## Envelopes -/

/-- The serialized authentication; an execution-only token is left out. -/
def AuthRef.members (a : AuthRef) : List (String × Json) :=
  [("kind", Codec.text.write a.kind), ("secret_ref", Codec.optText.write a.secretRef),
    ("username", Codec.optText.write a.username),
    ("header_name", Codec.optText.write a.headerName),
    ("token_url", Codec.optText.write a.tokenUrl), ("scope", Codec.optText.write a.scope),
    ("audience", Codec.optText.write a.audience),
    ("authorization_url", Codec.optText.write a.authorizationUrl),
    ("redirect_uri", Codec.optText.write a.redirectUri),
    ("authorization_code_ref", Codec.optText.write a.authorizationCodeRef),
    ("code_verifier_ref", Codec.optText.write a.codeVerifierRef)]

def AuthRef.ofMembers (ms : List (String × Json)) : Option AuthRef := do
  let kind ← Codec.text.field "kind" ms
  let secretRef ← Codec.optText.fieldOr none "secret_ref" ms
  let token ← Codec.optText.fieldOr none "token" ms
  let username ← Codec.optText.fieldOr none "username" ms
  let headerName ← Codec.optText.fieldOr none "header_name" ms
  let tokenUrl ← Codec.optText.fieldOr none "token_url" ms
  let scope ← Codec.optText.fieldOr none "scope" ms
  let audience ← Codec.optText.fieldOr none "audience" ms
  let authorizationUrl ← Codec.optText.fieldOr none "authorization_url" ms
  let redirectUri ← Codec.optText.fieldOr none "redirect_uri" ms
  let authorizationCodeRef ← Codec.optText.fieldOr none "authorization_code_ref" ms
  let codeVerifierRef ← Codec.optText.fieldOr none "code_verifier_ref" ms
  return {
    kind, secretRef, token, username, headerName, tokenUrl, scope, audience, authorizationUrl,
    redirectUri, authorizationCodeRef, codeVerifierRef }

/-- Everything but the token is read back. -/
theorem AuthRef.ofMembers_members (a : AuthRef) :
    ofMembers a.members = some { a with token := none } := by
  simp [members, ofMembers]

def writeAuthRef : Option AuthRef → Json
  | none => .null
  | some a => .obj a.members

def readAuthRef : Json → Option (Option AuthRef)
  | .null => some none
  | .obj ms => (AuthRef.ofMembers ms).map some
  | _ => none

theorem readAuthRef_writeAuthRef (auth : Option AuthRef) :
    readAuthRef (writeAuthRef auth) = some (auth.map fun a => { a with token := none }) := by
  cases auth with
  | none => rfl
  | some a => simp [writeAuthRef, readAuthRef, AuthRef.ofMembers_members]

def RetryPolicy.codec : Codec RetryPolicy :=
  .record
    (fun r =>
      [("max_retries", Codec.word32.write r.maxRetries),
        ("backoff_ms", Codec.word64.write r.backoffMs)])
    (fun ms => do
      let maxRetries ← Codec.word32.field "max_retries" ms
      let backoffMs ← Codec.word64.field "backoff_ms" ms
      return { maxRetries, backoffMs })
    (fun r => by simp)

def TlsOptions.codec : Codec TlsOptions :=
  .record
    (fun t =>
      [("verify", Codec.boolean.write t.verify),
        ("client_cert_ref", Codec.optText.write t.clientCertRef)])
    (fun ms => do
      let verify ← Codec.boolean.field "verify" ms
      let clientCertRef ← Codec.optText.fieldOr none "client_cert_ref" ms
      return { verify, clientCertRef })
    (fun t => by simp)

def assertionsCodec : Codec (List Assertion) := .list Assertion.codec

/-- The members of an envelope, with its payload as it is written. -/
def RequestEnvelope.members (e : RequestEnvelope) (payload : Json) : List (String × Json) :=
  [("id", Codec.text.write e.id), ("protocolId", Codec.text.write e.protocolId),
    ("name", Codec.text.write e.name), ("target", Codec.text.write e.target),
    ("environmentRef", Codec.optText.write e.environmentRef),
    ("authRef", Codec.value.write (writeAuthRef e.authRef)),
    ("timeoutMs", Codec.word64.write e.timeoutMs),
    ("retryPolicy", RetryPolicy.codec.write e.retryPolicy),
    ("proxy", Codec.optText.write e.proxy), ("tls", TlsOptions.codec.write e.tls),
    ("metadata", Codec.value.write e.metadata), ("payload", Codec.value.write payload),
    ("preScripts", textsCodec.write e.preScripts),
    ("postScripts", textsCodec.write e.postScripts),
    ("assertions", assertionsCodec.write e.assertions),
    ("variables", Codec.stringMap.write e.vars),
    ("createdAt", Codec.text.write e.createdAt)]

/-- The serialized envelope, when its payload can be written. -/
def RequestEnvelope.toJson (e : RequestEnvelope) : Option Json :=
  e.payload.toJson.map fun payload => .obj (e.members payload)

def RequestEnvelope.ofMembers (ms : List (String × Json)) : Option RequestEnvelope := do
  let id ← Codec.text.field "id" ms
  let protocolId ← Codec.text.field "protocolId" ms
  let name ← Codec.text.field "name" ms
  let target ← Codec.text.field "target" ms
  let environmentRef ← Codec.optText.fieldOr none "environmentRef" ms
  let authRef ← (Codec.value.fieldOr .null "authRef" ms).bind readAuthRef
  let timeoutMs ← Codec.word64.field "timeoutMs" ms
  let retryPolicy ← RetryPolicy.codec.field "retryPolicy" ms
  let proxy ← Codec.optText.fieldOr none "proxy" ms
  let tls ← TlsOptions.codec.field "tls" ms
  let metadata ← Codec.value.field "metadata" ms
  let payload ← (Codec.value.field "payload" ms).bind ProtocolPayload.ofJson
  let preScripts ← textsCodec.field "preScripts" ms
  let postScripts ← textsCodec.field "postScripts" ms
  let assertions ← assertionsCodec.fieldOr [] "assertions" ms
  let vars ← Codec.stringMap.fieldOr ∅ "variables" ms
  let createdAt ← Codec.text.field "createdAt" ms
  return {
    id, protocolId, name, target, environmentRef, authRef, timeoutMs, retryPolicy, proxy, tls,
    metadata, payload, preScripts, postScripts, assertions, vars
    runtimeSecrets := ∅
    createdAt }

def RequestEnvelope.ofJson : Json → Option RequestEnvelope
  | .obj ms => ofMembers ms
  | _ => none

/-- What an envelope is after it was written and read back: without the token
and without the runtime secrets. -/
def RequestEnvelope.withoutSecrets (e : RequestEnvelope) : RequestEnvelope :=
  { e with
    authRef := e.authRef.map fun a => { a with token := none }
    runtimeSecrets := ∅ }

variable {e : RequestEnvelope} {j : Json}

/-- Reading what was written returns the envelope without its literal secrets,
with the payload as that one is read. -/
theorem RequestEnvelope.ofJson_eq (h : e.toJson = some j) :
    ∃ payload, e.payload.toJson = some payload ∧
      ofJson j = (ProtocolPayload.ofJson payload).map fun read =>
        { e.withoutSecrets with payload := read } := by
  obtain ⟨payload, hpayload, rfl⟩ := Option.map_eq_some_iff.mp h
  refine ⟨payload, hpayload, ?_⟩
  cases hread : ProtocolPayload.ofJson payload <;>
    simp [ofJson, members, ofMembers, withoutSecrets, readAuthRef_writeAuthRef, hread]

/-- An envelope with a faithful payload is written, and reading returns it
without its literal secrets. -/
theorem RequestEnvelope.ofJson_toJson (h : e.payload.Faithful) :
    ∃ j, e.toJson = some j ∧ ofJson j = some e.withoutSecrets := by
  obtain ⟨payload, hwrite, hread⟩ := ProtocolPayload.ofJson_toJson h
  have htoJson : ∃ j, e.toJson = some j := ⟨_, by rw [toJson, hwrite, Option.map_some]⟩
  obtain ⟨j, hj⟩ := htoJson
  obtain ⟨payload', hwrite', hofJson⟩ := ofJson_eq hj
  obtain rfl : payload = payload' := by simpa [hwrite] using hwrite'
  refine ⟨j, hj, ?_⟩
  rw [hofJson, hread]
  rfl

/-- A payload that was read is faithful. -/
theorem ProtocolPayload.faithful_of_ofJson (h : ofJson j = some payload) : payload.Faithful := by
  cases j with
  | obj ms =>
    rw [ofJson] at h
    split at h
    all_goals try (obtain ⟨_, _, rfl⟩ := Option.map_eq_some_iff.mp h; trivial)
    · cases h
      simp [Faithful, Json.memberValues, List.filter_filter]
    · cases h
  | _ => cases h

/-- What is read has the payload that was read for it, and no runtime secrets. -/
theorem RequestEnvelope.payload_of_ofJson (h : ofJson j = some e) :
    (∃ payload, ProtocolPayload.ofJson payload = some e.payload) ∧ e.runtimeSecrets = ∅ := by
  cases j with
  | obj ms =>
    rw [ofJson, ofMembers] at h
    -- eleven members stand before the payload and five after it
    iterate 11 obtain ⟨_, _, h⟩ := Option.bind_eq_some_iff.mp h
    obtain ⟨payload, hpayload, h⟩ := Option.bind_eq_some_iff.mp h
    iterate 5 obtain ⟨_, _, h⟩ := Option.bind_eq_some_iff.mp h
    obtain ⟨read, _, hread⟩ := Option.bind_eq_some_iff.mp hpayload
    cases h
    exact ⟨⟨read, hread⟩, rfl⟩
  | null | bool _ | num _ | str _ | arr _ => cases h

theorem RequestEnvelope.faithful_of_ofJson (h : ofJson j = some e) : e.payload.Faithful := by
  have ⟨_, hpayload⟩ := (payload_of_ofJson h).1
  exact ProtocolPayload.faithful_of_ofJson hpayload

@[simp]
theorem RequestEnvelope.withoutSecrets_payload (e : RequestEnvelope) :
    e.withoutSecrets.payload = e.payload := rfl

/-- A sanitized envelope has no literal secrets left to lose. -/
@[simp]
theorem RequestEnvelope.withoutSecrets_sanitizedForPersistence (e : RequestEnvelope) :
    e.sanitizedForPersistence.withoutSecrets = e.sanitizedForPersistence := by
  have hauth : (e.sanitizedForPersistence.authRef.map fun a => { a with token := none }) =
      e.sanitizedForPersistence.authRef := by
    cases h : e.authRef <;> simp [sanitizedForPersistence, h]
  simp only [withoutSecrets, hauth]
  rfl

theorem ProtocolPayload.faithful_of_isHttp (h : payload.isHttp = true) : payload.Faithful := by
  cases payload <;> simp_all [isHttp, Faithful]

/-- Reading a payload brings its body back; a payload without one is not taken
for another. -/
theorem ProtocolPayload.body_of_ofJson {payload read : ProtocolPayload}
    (hwrite : payload.toJson = some j) (hread : ofJson j = some read) :
    read.body = payload.body := by
  cases hpayload : payload with
  | raw value =>
    subst hpayload
    cases value with
    | obj ms =>
      cases hwrite
      simp only [ofJson, Json.memberValues_cons, if_true] at hread
      cases htype : Json.memberValues "type" ms with
      | nil =>
        rw [htype] at hread
        cases hread
        rfl
      | cons v vs =>
        rw [htype] at hread
        cases hread
    | null =>
      cases hwrite
      cases hread
      rfl
    | _ => cases hwrite
  | _ =>
    have hfaithful : payload.Faithful := by rw [hpayload]; trivial
    obtain ⟨j', hwrite', hread'⟩ := ofJson_toJson hfaithful
    rw [hwrite] at hwrite'
    cases hwrite'
    rw [hread] at hread'
    cases hread'
    rw [hpayload]

/-- The body that is read from a stored envelope is the one that was written. -/
theorem RequestEnvelope.body_ofJson (h : e.toJson = some j) :
    ((ofJson j).bind fun read => read.payload.body) = e.payload.body := by
  obtain ⟨payload, hpayload, hofJson⟩ := ofJson_eq h
  cases hread : ProtocolPayload.ofJson payload with
  | some read =>
    rw [hofJson, hread]
    exact ProtocolPayload.body_of_ofJson hpayload hread
  | none =>
    -- Only a raw payload may be unreadable, and it has no body.
    rw [hofJson, hread]
    cases hhttp : e.payload with
    | raw value => rfl
    | _ =>
      have hfaithful : e.payload.Faithful := by rw [hhttp]; trivial
      obtain ⟨j', hwrite, hread'⟩ := ProtocolPayload.ofJson_toJson hfaithful
      rw [hpayload] at hwrite
      cases hwrite
      rw [hread] at hread'
      cases hread'

end ApiVoy.Domain
