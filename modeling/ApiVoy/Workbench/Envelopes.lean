/-
# Workbench requests and envelopes

The workbench edits a request of its own shape. It is mapped to an envelope when it is sent or
saved, and an envelope is mapped back when it is opened. Many members of both may be absent or
`null`, and a default takes their place on the way.
-/

import ApiVoy.Domain.Request
import ApiVoy.Foundation.Script

namespace ApiVoy.Workbench

open Foundation Script Domain

/-- A member of an object that may be absent or `null`. -/
inductive Nullish (α : Type) where
  | undefined
  | null
  | value (a : α)
  deriving DecidableEq

namespace Nullish

variable {α : Type}

/-- `?? undefined`. -/
def toOption : Nullish α → Option α
  | .value a => some a
  | _ => none

/-- `?? null`. -/
def orNull : Nullish α → Nullish α
  | .undefined => .null
  | other => other

/-- A member that is never `null`. -/
def ofOption : Option α → Nullish α
  | some a => .value a
  | none => .undefined

@[simp]
theorem toOption_ofOption (a : Option α) : (ofOption a).toOption = a := by cases a <;> rfl

variable {member : Nullish α}

@[simp]
theorem orNull_eq_self : member.orNull = member ↔ member ≠ .undefined := by
  cases member <;> simp [orNull]

@[simp]
theorem orNull_orNull (member : Nullish α) : member.orNull.orNull = member.orNull := by
  cases member <;> rfl

@[simp]
theorem toOption_orNull (member : Nullish α) : member.orNull.toOption = member.toOption := by
  cases member <;> rfl

@[simp]
theorem orNull_ofOption_toOption :
    (ofOption member.toOption).orNull = member ↔ member ≠ .undefined := by
  cases member <;> simp [ofOption, toOption, orNull]

end Nullish

@[ext]
structure HttpWorkbenchRequest where
  id : Option String
  name : Option String
  url : String
  method : String
  headers : List (String × String)
  body : Option String
  bodyEncoding : Option String
  bodySource : Option String
  multipart : Option (List MultipartPart)
  timeoutMs : Rat
  vars : StringMap
  assertions : List Assertion
  auth : Nullish AuthRef
  followRedirects : Bool
  retryMax : Rat
  retryBackoffMs : Rat
  proxy : Nullish String
  tlsVerify : Bool
  tlsClientCertRef : Nullish String
  environmentRef : Nullish String
  preScripts : Option (List String)
  postScripts : Option (List String)
  metadata : Option (List (String × Json))
  deriving DecidableEq

/-- The payload of an envelope as the client sees it. -/
@[ext]
structure ClientHttpPayload where
  method : String
  headers : List (String × String)
  body : Nullish String
  bodyEncoding : Option String
  bodySource : Nullish String
  multipart : Option (List MultipartPart)
  followRedirects : Bool
  deriving DecidableEq

inductive ClientPayload where
  | http (payload : ClientHttpPayload)
  | other (kind : String)
  deriving DecidableEq

structure ClientRetryPolicy where
  maxRetries : Rat
  backoffMs : Rat
  deriving DecidableEq

@[ext]
structure ClientTls where
  verify : Bool
  clientCertRef : Nullish String
  deriving DecidableEq

@[ext]
structure ClientEnvelope where
  id : String
  protocolId : String
  name : String
  target : String
  environmentRef : Nullish String
  authRef : Nullish AuthRef
  timeoutMs : Rat
  retryPolicy : ClientRetryPolicy
  proxy : Nullish String
  tls : ClientTls
  metadata : Json
  payload : ClientPayload
  preScripts : List String
  postScripts : List String
  assertions : List Assertion
  vars : StringMap
  createdAt : Timestamp
  deriving DecidableEq

/-- The own members of a value, as spreading it into an object copies them. -/
def ownMembers : Json → List (String × Json)
  | .obj members => members
  | .arr items => items.zipIdx.map fun (item, index) => (toString index, item)
  | .str text => text.toList.zipIdx.map fun (c, index) => (toString index, .str (String.singleton c))
  | _ => []

/-! ## The mapping -/

section Mapping

structure CreateHttpRequestOptions where
  name : Option String
  url : String
  method : Option String
  headers : Option (List (String × String))
  body : Nullish String
  bodyEncoding : Option String
  bodySource : Nullish String
  multipart : Option (List MultipartPart)
  timeoutMs : Option Rat
  followRedirects : Option Bool
  vars : Option StringMap
  assertions : Option (List Assertion)
  auth : Nullish AuthRef
  environmentRef : Nullish String
  retryPolicy : Option ClientRetryPolicy
  proxy : Nullish String
  tls : Option ClientTls
  preScripts : Option (List String)
  postScripts : Option (List String)

/-- `fresh` is the id and `now` the time of a new envelope. -/
def createHttpRequest (platform : Platform) (fresh : String) (now : Timestamp)
    (options : CreateHttpRequestOptions) : ClientEnvelope :=
  let method := platform.toUpperCase (options.method.getD "GET")
  { id := fresh
    protocolId := "http"
    name := options.name.getD (method ++ " " ++ options.url)
    target := options.url
    environmentRef := options.environmentRef.orNull
    authRef := options.auth.orNull
    timeoutMs := options.timeoutMs.getD 30000
    retryPolicy := options.retryPolicy.getD ⟨0, 0⟩
    proxy := options.proxy.orNull
    tls := options.tls.getD ⟨true, .null⟩
    metadata := .obj []
    payload := .http {
      method := method
      headers := options.headers.getD []
      body := options.body.orNull
      bodyEncoding := some (options.bodyEncoding.getD "text")
      bodySource := options.bodySource.orNull
      multipart := some (options.multipart.getD [])
      followRedirects := options.followRedirects.getD true }
    preScripts := options.preScripts.getD []
    postScripts := options.postScripts.getD []
    assertions := options.assertions.getD []
    vars := options.vars.getD ∅
    createdAt := now }

def toEnvelope (platform : Platform) (fresh : String) (now : Timestamp)
    (request : HttpWorkbenchRequest) : ClientEnvelope :=
  let envelope := createHttpRequest platform fresh now {
    name := request.name
    url := request.url
    method := some request.method
    headers := some request.headers
    body := .ofOption request.body
    bodyEncoding := request.bodyEncoding
    bodySource := .ofOption request.bodySource
    multipart := request.multipart
    timeoutMs := some request.timeoutMs
    vars := some request.vars
    assertions := some request.assertions
    auth := request.auth.orNull
    environmentRef := .value "default-env"
    followRedirects := some request.followRedirects
    retryPolicy := some ⟨request.retryMax, request.retryBackoffMs⟩
    proxy := request.proxy.orNull
    tls := some ⟨request.tlsVerify, request.tlsClientCertRef.orNull⟩
    preScripts := request.preScripts
    postScripts := request.postScripts }
  { envelope with
    metadata := .obj (ownMembers envelope.metadata ++ request.metadata.getD [])
    -- An empty id counts as none.
    id := (request.id.filter (· ≠ "")).getD envelope.id }

def fromEnvelope (envelope : ClientEnvelope) (fallbackTarget : Option String) :
    Except String HttpWorkbenchRequest :=
  match envelope.payload with
  | .other _ => .error "仅支持 HTTP 请求重放"
  | .http payload => .ok {
      id := some envelope.id
      name := some envelope.name
      url := if envelope.target ≠ "" then envelope.target else fallbackTarget.getD ""
      method := payload.method
      headers := payload.headers
      body := payload.body.toOption
      bodyEncoding := some (payload.bodyEncoding.getD "text")
      bodySource := payload.bodySource.toOption
      multipart := some (payload.multipart.getD [])
      timeoutMs := envelope.timeoutMs
      metadata := some (ownMembers envelope.metadata)
      vars := envelope.vars
      assertions := envelope.assertions
      auth := envelope.authRef.orNull
      followRedirects := payload.followRedirects
      retryMax := envelope.retryPolicy.maxRetries
      retryBackoffMs := envelope.retryPolicy.backoffMs
      proxy := envelope.proxy.orNull
      tlsVerify := envelope.tls.verify
      tlsClientCertRef := envelope.tls.clientCertRef.orNull
      environmentRef := .undefined
      preScripts := some envelope.preScripts
      postScripts := some envelope.postScripts }

end Mapping

/-! ## What the mapping keeps -/

theorem some_getD_eq_self {α : Type} {a : Option α} {default : α} :
    some (a.getD default) = a ↔ a.isSome := by
  cases a <;> simp

/-- A request whose optional members are all present, but for the reference to an environment,
with its method in upper case. `fresh` takes the place of an empty id, and `fallbackTarget` the
place of an empty URL. -/
structure HttpWorkbenchRequest.Complete (platform : Platform) (fresh : String)
    (fallbackTarget : Option String) (request : HttpWorkbenchRequest) : Prop where
  id : request.id = some ((request.id.filter (· ≠ "")).getD fresh)
  name : request.name.isSome
  url : request.url = "" → fallbackTarget.getD "" = ""
  method : platform.toUpperCase request.method = request.method
  bodyEncoding : request.bodyEncoding.isSome
  multipart : request.multipart.isSome
  auth : request.auth ≠ .undefined
  proxy : request.proxy ≠ .undefined
  tlsClientCertRef : request.tlsClientCertRef ≠ .undefined
  environmentRef : request.environmentRef = .undefined
  preScripts : request.preScripts.isSome
  postScripts : request.postScripts.isSome
  metadata : request.metadata.isSome

theorem or_default {text default : String} (h : text = "" → default = "") :
    (if text ≠ "" then text else default) = text := by
  by_cases hempty : text = ""
  · rw [if_neg (not_not.mpr hempty), h hempty, hempty]
  · rw [if_pos hempty]

variable (platform : Platform)

theorem fromEnvelope_toEnvelope_iff (fresh : String) (now : Timestamp)
    (fallbackTarget : Option String) (request : HttpWorkbenchRequest) :
    fromEnvelope (toEnvelope platform fresh now request) fallbackTarget = .ok request ↔
      request.Complete platform fresh fallbackTarget := by
  have hrequest : fromEnvelope (toEnvelope platform fresh now request) fallbackTarget = .ok
      { request with
        id := some ((request.id.filter (· ≠ "")).getD fresh)
        name := some (request.name.getD
          (platform.toUpperCase request.method ++ " " ++ request.url))
        url := if request.url ≠ "" then request.url else fallbackTarget.getD ""
        method := platform.toUpperCase request.method
        bodyEncoding := some (request.bodyEncoding.getD "text")
        multipart := some (request.multipart.getD [])
        auth := request.auth.orNull
        proxy := request.proxy.orNull
        tlsClientCertRef := request.tlsClientCertRef.orNull
        environmentRef := .undefined
        preScripts := some (request.preScripts.getD [])
        postScripts := some (request.postScripts.getD [])
        metadata := some (request.metadata.getD []) } := by
    simp [fromEnvelope, toEnvelope, createHttpRequest, ownMembers]
  rw [hrequest, Except.ok.injEq, HttpWorkbenchRequest.ext_iff]
  constructor
  · rintro ⟨hid, hname, hurl, hmethod, -, -, hencoding, -, hmultipart, -, -, -, hauth, -, -, -,
      hproxy, -, htls, henvironment, hpre, hpost, hmetadata⟩
    exact {
      id := hid.symm
      name := some_getD_eq_self.mp hname
      url := fun hempty => by simpa [hempty] using hurl
      method := hmethod
      bodyEncoding := some_getD_eq_self.mp hencoding
      multipart := some_getD_eq_self.mp hmultipart
      auth := Nullish.orNull_eq_self.mp hauth
      proxy := Nullish.orNull_eq_self.mp hproxy
      tlsClientCertRef := Nullish.orNull_eq_self.mp htls
      environmentRef := henvironment.symm
      preScripts := some_getD_eq_self.mp hpre
      postScripts := some_getD_eq_self.mp hpost
      metadata := some_getD_eq_self.mp hmetadata }
  · intro h
    have hurl := or_default h.url
    exact ⟨h.id.symm, some_getD_eq_self.mpr h.name, hurl, h.method, rfl, rfl,
      some_getD_eq_self.mpr h.bodyEncoding, rfl, some_getD_eq_self.mpr h.multipart, rfl, rfl, rfl,
      Nullish.orNull_eq_self.mpr h.auth, rfl, rfl, rfl, Nullish.orNull_eq_self.mpr h.proxy, rfl,
      Nullish.orNull_eq_self.mpr h.tlsClientCertRef, h.environmentRef.symm,
      some_getD_eq_self.mpr h.preScripts, some_getD_eq_self.mpr h.postScripts,
      some_getD_eq_self.mpr h.metadata⟩

/-- An envelope that was made by the mapping: its members are present, its method is in upper
case, and its reference is to the default environment. -/
structure ClientEnvelope.Settled (platform : Platform) (fresh : String) (now : Timestamp)
    (fallbackTarget : Option String) (envelope : ClientEnvelope) (payload : ClientHttpPayload) :
    Prop where
  id : envelope.id = "" → fresh = ""
  protocolId : envelope.protocolId = "http"
  target : envelope.target = "" → fallbackTarget.getD "" = ""
  environmentRef : envelope.environmentRef = .value "default-env"
  authRef : envelope.authRef ≠ .undefined
  proxy : envelope.proxy ≠ .undefined
  clientCertRef : envelope.tls.clientCertRef ≠ .undefined
  metadata : envelope.metadata = .obj (ownMembers envelope.metadata)
  method : platform.toUpperCase payload.method = payload.method
  body : payload.body ≠ .undefined
  bodyEncoding : payload.bodyEncoding.isSome
  bodySource : payload.bodySource ≠ .undefined
  multipart : payload.multipart.isSome
  createdAt : envelope.createdAt = now

theorem toEnvelope_fromEnvelope_iff (fresh : String) (now : Timestamp)
    (fallbackTarget : Option String) {envelope : ClientEnvelope} {payload : ClientHttpPayload}
    (hpayload : envelope.payload = .http payload) :
    (fromEnvelope envelope fallbackTarget).map (toEnvelope platform fresh now) = .ok envelope ↔
      envelope.Settled platform fresh now fallbackTarget payload := by
  have hsaved : (fromEnvelope envelope fallbackTarget).map (toEnvelope platform fresh now) = .ok
      { envelope with
        id := if envelope.id ≠ "" then envelope.id else fresh
        protocolId := "http"
        target := if envelope.target ≠ "" then envelope.target else fallbackTarget.getD ""
        environmentRef := .value "default-env"
        authRef := envelope.authRef.orNull
        proxy := envelope.proxy.orNull
        tls := ⟨envelope.tls.verify, envelope.tls.clientCertRef.orNull⟩
        metadata := .obj (ownMembers envelope.metadata)
        payload := .http { payload with
          method := platform.toUpperCase payload.method
          body := (Nullish.ofOption payload.body.toOption).orNull
          bodyEncoding := some (payload.bodyEncoding.getD "text")
          bodySource := (Nullish.ofOption payload.bodySource.toOption).orNull
          multipart := some (payload.multipart.getD []) }
        createdAt := now } := by
    by_cases hid : envelope.id = ""
    · simp [fromEnvelope, toEnvelope, createHttpRequest, ownMembers, hpayload, Except.map, hid,
        Option.filter_some]
    · simp [fromEnvelope, toEnvelope, createHttpRequest, ownMembers, hpayload, Except.map, hid,
        Option.filter_some]
  rw [hsaved, Except.ok.injEq, ClientEnvelope.ext_iff]
  constructor
  · rintro ⟨hid, hprotocol, -, htarget, henvironment, hauth, -, -, hproxy, htls, hmetadata, hbody,
      -, -, -, -, hcreated⟩
    have hfields := ClientHttpPayload.ext_iff.mp (ClientPayload.http.inj (hbody.trans hpayload))
    obtain ⟨hmethod, -, htext, hencoding, hsource, hmultipart, -⟩ := hfields
    exact {
      id := fun hempty => by simpa [hempty] using hid
      protocolId := hprotocol.symm
      target := fun hempty => by simpa [hempty] using htarget
      environmentRef := henvironment.symm
      authRef := Nullish.orNull_eq_self.mp hauth
      proxy := Nullish.orNull_eq_self.mp hproxy
      clientCertRef := Nullish.orNull_eq_self.mp (ClientTls.ext_iff.mp htls).2
      metadata := hmetadata.symm
      method := hmethod
      body := Nullish.orNull_ofOption_toOption.mp htext
      bodyEncoding := some_getD_eq_self.mp hencoding
      bodySource := Nullish.orNull_ofOption_toOption.mp hsource
      multipart := some_getD_eq_self.mp hmultipart
      createdAt := hcreated.symm }
  · intro h
    have hid := or_default h.id
    have htarget := or_default h.target
    have hbody : ClientPayload.http { payload with
        method := platform.toUpperCase payload.method
        body := (Nullish.ofOption payload.body.toOption).orNull
        bodyEncoding := some (payload.bodyEncoding.getD "text")
        bodySource := (Nullish.ofOption payload.bodySource.toOption).orNull
        multipart := some (payload.multipart.getD []) } = envelope.payload := by
      rw [hpayload, h.method, Nullish.orNull_ofOption_toOption.mpr h.body,
        some_getD_eq_self.mpr h.bodyEncoding, Nullish.orNull_ofOption_toOption.mpr h.bodySource,
        some_getD_eq_self.mpr h.multipart]
    have htls : ClientTls.mk envelope.tls.verify envelope.tls.clientCertRef.orNull =
        envelope.tls := ClientTls.ext rfl (Nullish.orNull_eq_self.mpr h.clientCertRef)
    exact ⟨hid, h.protocolId.symm, rfl, htarget, h.environmentRef.symm,
      Nullish.orNull_eq_self.mpr h.authRef, rfl, rfl, Nullish.orNull_eq_self.mpr h.proxy, htls,
      h.metadata.symm, hbody, rfl, rfl, rfl, rfl, h.createdAt.symm⟩

/-- Opening and saving change nothing exactly if nothing is left to a default, the method is in
upper case, and there is no other environment than the default one. -/
theorem mapping_roundTrips_iff (platform : Platform) (fresh : String) (now : Timestamp)
    (fallbackTarget : Option String) (request : HttpWorkbenchRequest) (envelope : ClientEnvelope) :
    (fromEnvelope (toEnvelope platform fresh now request) fallbackTarget = .ok request ↔
      request.Complete platform fresh fallbackTarget) ∧
    ((fromEnvelope envelope fallbackTarget).map (toEnvelope platform fresh now) = .ok envelope ↔
      ∃ payload, envelope.payload = .http payload ∧
        envelope.Settled platform fresh now fallbackTarget payload) := by
  refine ⟨fromEnvelope_toEnvelope_iff platform fresh now fallbackTarget request, ?_⟩
  cases hpayload : envelope.payload with
  | http payload =>
    rw [toEnvelope_fromEnvelope_iff platform fresh now fallbackTarget hpayload]
    simp
  | other kind => simp [fromEnvelope, hpayload, Except.map]

/-- A complete request for an environment of its own. -/
def stagingRequest : HttpWorkbenchRequest where
  id := some "r1"
  name := some "list"
  url := "https://api.example/items"
  method := "GET"
  headers := []
  body := none
  bodyEncoding := some "text"
  bodySource := none
  multipart := some []
  timeoutMs := 30000
  vars := ∅
  assertions := []
  auth := .null
  followRedirects := true
  retryMax := 0
  retryBackoffMs := 250
  proxy := .null
  tlsVerify := true
  tlsClientCertRef := .null
  environmentRef := .value "staging"
  preScripts := some []
  postScripts := some []
  metadata := some []

/-- The reference to the environment is lost. -/
theorem stagingRequest_changes :
    ¬∀ (platform : Platform) (fresh : String) (now : Timestamp) (fallbackTarget : Option String)
      (request : HttpWorkbenchRequest),
      (∀ header ∈ request.headers, isSensitiveHeaderName header.1 = false) →
      (∀ auth, request.auth = .value auth → auth.token = none) →
      fromEnvelope (toEnvelope platform fresh now request) fallbackTarget = .ok request := by
  intro h
  have hkept := h .ascii "fresh" "2026-01-01T00:00:00Z" none stagingRequest (by decide)
    (by intro auth hauth; cases hauth)
  have henvironment := (congrArg (Except.map HttpWorkbenchRequest.environmentRef) hkept)
  exact absurd henvironment (by decide)

end ApiVoy.Workbench
