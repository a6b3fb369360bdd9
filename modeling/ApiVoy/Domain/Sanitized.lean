/-
# What a sanitized envelope still shows

Sanitizing looks into the headers of HTTP payloads and into the metadata. Names
that it does not look at keep their values: the headers of the other protocols,
the metadata of gRPC, raw payloads, and the variables of the request. A sanitized
envelope is safe to write exactly when none of those names is sensitive.
-/

import ApiVoy.Domain.RequestJson
import ApiVoy.Foundation.JsonText
import ApiVoy.Foundation.Reading

namespace ApiVoy.Domain

open Foundation

/-! ## Sensitive names in JSON -/

/-- Is this the name of a member that holds header pairs? -/
def isHeadersKey (key : String) : Bool := normalizedCredentialName key = "headers".toList

mutual

/-- Does the value have a sensitive member, or a header pair with a sensitive
name, at any depth? `inHeaders` says that it is the value of a `headers` member. -/
def exposes (inHeaders : Bool) : Json → Bool
  | .obj members => exposesMembers members
  | .arr items => exposesItems inHeaders items
  | _ => false

def exposesMembers : List (String × Json) → Bool
  | [] => false
  | (key, nested) :: rest =>
    isSensitiveHeaderName key || exposes (isHeadersKey key) nested || exposesMembers rest

def exposesItems (inHeaders : Bool) : List Json → Bool
  | [] => false
  | item :: rest =>
    inHeaders && isSensitivePair item || exposes false item || exposesItems inHeaders rest

end

theorem isSensitiveJsonKey_of_header {name : String} (h : isSensitiveHeaderName name = true) :
    isSensitiveJsonKey name = true := by
  rw [isSensitiveJsonKey, h, Bool.true_or]

mutual

/-- A scrubbed value shows no sensitive name. -/
theorem exposes_scrub :
    ∀ (inHeaders : Bool) (j : Json), exposes inHeaders (scrubSensitiveJson inHeaders j) = false
  | _, .null => rfl
  | _, .bool _ => rfl
  | _, .num _ => rfl
  | _, .str _ => rfl
  | inHeaders, .arr items => by
    simp only [scrubSensitiveJson, exposes, exposesItems_scrub inHeaders items]
  | _, .obj members => by
    simp only [scrubSensitiveJson, exposes, exposesMembers_scrub members]

theorem exposesMembers_scrub :
    ∀ members : List (String × Json), exposesMembers (scrubMembers members) = false
  | [] => rfl
  | (key, nested) :: rest => by
    by_cases h : isSensitiveJsonKey key
    · simp only [scrubMembers, h, if_true, exposesMembers_scrub rest]
    · have hkept : isSensitiveHeaderName key = false := by
        by_contra hname
        exact h (isSensitiveJsonKey_of_header (by simpa using hname))
      have hnested := exposes_scrub (isHeadersKey key) nested
      simp only [scrubMembers, h, Bool.false_eq_true, if_false, exposesMembers, hkept,
        exposesMembers_scrub rest, Bool.false_or, Bool.or_false]
      exact hnested

theorem exposesItems_scrub :
    ∀ (inHeaders : Bool) (items : List Json),
      exposesItems inHeaders (scrubItems inHeaders items) = false
  | _, [] => rfl
  | inHeaders, item :: rest => by
    by_cases h : (inHeaders && isSensitivePair item) = true
    · simp only [scrubItems, h, if_true, exposesItems_scrub inHeaders rest]
    · have hkept : (inHeaders && isSensitivePair (scrubSensitiveJson false item)) = false := by
        rw [isSensitivePair_scrub]
        simpa using h
      simp only [scrubItems, h, Bool.false_eq_true, if_false, exposesItems, hkept,
        exposes_scrub false item, exposesItems_scrub inHeaders rest, Bool.or_self]

end

theorem exposesMembers_eq (members : List (String × Json)) :
    exposesMembers members =
      ((members.map Prod.fst).any isSensitiveHeaderName ||
        members.any fun entry => exposes (isHeadersKey entry.1) entry.2) := by
  induction members with
  | nil => rfl
  | cons entry rest ih =>
    obtain ⟨key, nested⟩ := entry
    rw [exposesMembers, ih, List.map_cons, List.any_cons, List.any_cons]
    cases isSensitiveHeaderName key <;> cases exposes (isHeadersKey key) nested <;> simp

theorem exposesItems_eq (inHeaders : Bool) (items : List Json) :
    exposesItems inHeaders items =
      items.any fun item => inHeaders && isSensitivePair item || exposes false item := by
  induction items with
  | nil => rfl
  | cons item rest ih => rw [exposesItems, ih, List.any_cons]

/-! ## Names in what the codecs write -/

section Codecs

variable {inHeaders : Bool}

@[simp]
theorem exposes_text (text : String) : exposes inHeaders (Codec.text.write text) = false := rfl

@[simp]
theorem exposes_optText (text : Option String) :
    exposes inHeaders (Codec.optText.write text) = false := by
  cases text <;> rfl

@[simp]
theorem exposes_boolean (value : Bool) : exposes inHeaders (Codec.boolean.write value) = false := rfl

@[simp]
theorem exposes_word32 (value : UInt32) : exposes inHeaders (Codec.word32.write value) = false := rfl

@[simp]
theorem exposes_word64 (value : UInt64) : exposes inHeaders (Codec.word64.write value) = false := rfl

@[simp]
theorem exposes_optSize (value : Option UInt64) : exposes inHeaders (optSize.write value) = false := by
  cases value <;> rfl

/-- A list whose elements show nothing, and that holds no pairs. -/
theorem exposes_list {α : Type} (c : Codec α) (as : List α)
    (hpair : ∀ a, isSensitivePair (c.write a) = false)
    (hitem : ∀ a, exposes false (c.write a) = false) :
    exposes inHeaders ((Codec.list c).write as) = false := by
  show exposesItems inHeaders (as.map c.write) = false
  rw [exposesItems_eq]
  simp [hpair, hitem]

@[simp]
theorem exposes_texts (texts : List String) : exposes inHeaders (textsCodec.write texts) = false :=
  exposes_list .text texts (fun _ => rfl) fun _ => rfl

/-- The names of a record are the same for all its values. -/
theorem exposes_members {members : List (String × Json)}
    (hnames : (members.map Prod.fst).any isSensitiveHeaderName = false)
    (hvalues : ∀ entry ∈ members, exposes (isHeadersKey entry.1) entry.2 = false) :
    exposesMembers members = false := by
  rw [exposesMembers_eq, hnames, Bool.false_or, List.any_eq_false]
  intro entry hentry
  simpa using hvalues entry hentry

/-- An object whose own names are harmless shows what its values show. -/
theorem exposes_object (members : List (String × Json)) {names : List String}
    (hnames : names.any isSensitiveHeaderName = false)
    (h : members.map Prod.fst = names := by rfl) :
    exposes inHeaders (.obj members) =
      members.any fun entry => exposes (isHeadersKey entry.1) entry.2 := by
  rw [exposes, exposesMembers_eq, h, hnames, Bool.false_or]

@[simp]
theorem exposes_multipart (parts : List MultipartPart) :
    exposes inHeaders (multipartCodec.write parts) = false := by
  apply exposes_list MultipartPart.codec parts (fun _ => rfl)
  intro part
  apply exposes_members
  · show ["name", "value", "fileName", "contentType", "base64"].any isSensitiveHeaderName = false
    decide
  · simp

@[simp]
theorem exposes_messages (messages : List WebSocketMessage) :
    exposes inHeaders (messagesCodec.write messages) = false := by
  apply exposes_list WebSocketMessage.codec messages (fun _ => rfl)
  intro message
  apply exposes_members
  · show ["encoding", "data"].any isSensitiveHeaderName = false
    decide
  · simp

@[simp]
theorem exposes_assertions (assertions : List Assertion) :
    exposes inHeaders (assertionsCodec.write assertions) = false := by
  apply exposes_list Assertion.codec assertions (fun _ => rfl)
  intro assertion
  apply exposes_members
  · show ["id", "enabled", "target", "operator", "selector", "expected"].any
      isSensitiveHeaderName = false
    decide
  · simp [AssertionTarget.codec, AssertionOperator.codec, Codec.name, exposes]

@[simp]
theorem exposes_retryPolicy (policy : RetryPolicy) :
    exposes inHeaders (RetryPolicy.codec.write policy) = false := by
  apply exposes_members
  · show ["max_retries", "backoff_ms"].any isSensitiveHeaderName = false
    decide
  · simp

@[simp]
theorem exposes_tls (tls : TlsOptions) : exposes inHeaders (TlsOptions.codec.write tls) = false := by
  apply exposes_members
  · show ["verify", "client_cert_ref"].any isSensitiveHeaderName = false
    decide
  · simp

/-- The token is never written, and the references to credentials have names of
their own. -/
@[simp]
theorem exposes_authRef (auth : Option AuthRef) : exposes inHeaders (writeAuthRef auth) = false := by
  cases auth with
  | none => rfl
  | some auth =>
    apply exposes_members
    · show ["kind", "secret_ref", "username", "header_name", "token_url", "scope", "audience",
        "authorization_url", "redirect_uri", "authorization_code_ref", "code_verifier_ref"].any
          isSensitiveHeaderName = false
      decide
    · simp [AuthRef.members]

/-- Header pairs show their names where headers are expected, and nowhere else. -/
theorem exposes_headers (headers : List (String × String)) :
    exposes inHeaders (headersCodec.write headers) =
      (inHeaders && headers.any fun header => isSensitiveHeaderName header.1) := by
  show exposesItems inHeaders (headers.map (Codec.pair Codec.text Codec.text).write) = _
  rw [exposesItems_eq, List.any_map]
  cases inHeaders with
  | false => simp [Codec.pair, Codec.text, exposes, exposesItems_eq]
  | true => simp [Codec.pair, Codec.text, exposes, exposesItems_eq, isSensitivePair,
      Function.comp_def]

theorem exposes_stringMap (m : StringMap) :
    exposes inHeaders (Codec.stringMap.write m) =
      m.entries.any fun entry => isSensitiveHeaderName entry.1 := by
  show exposesMembers (m.entries.map fun e => (e.1, Json.str e.2)) = _
  rw [exposesMembers_eq]
  simp [List.any_map, Function.comp_def, exposes]

end Codecs

/-! ## What sanitizing leaves -/

/-- The names of the headers of a payload, and of the metadata of gRPC. -/
def ProtocolPayload.headerNames : ProtocolPayload → List String
  | .http p => p.headers.map Prod.fst
  | .sse p => p.headers.map Prod.fst
  | .graphql p => p.headers.map Prod.fst
  | .websocket p => p.headers.map Prod.fst
  | .grpc p => p.metadata.map Prod.fst
  | _ => []

/-- Does a part of the payload that sanitizing does not look at have a sensitive
name? -/
def ProtocolPayload.exposesUnscrubbed : ProtocolPayload → Bool
  | .http _ => false
  | .sse p => p.headers.any fun header => isSensitiveHeaderName header.1
  | .tcp _ => false
  | .udp _ => false
  | .graphql p =>
    exposes false p.vars || p.headers.any fun header => isSensitiveHeaderName header.1
  | .websocket p => p.headers.any fun header => isSensitiveHeaderName header.1
  | .grpc p => p.metadata.any fun header => isSensitiveHeaderName header.1
  | .raw value => exposes false value

mutual

/-- `Thinned inHeaders j j'`: `j'` is `j` without some sensitive members and, where
headers are expected, without some pairs that have a sensitive name. Everything
else is the same, in the same order. -/
inductive Thinned : Bool → Json → Json → Prop
  | null {inHeaders : Bool} : Thinned inHeaders .null .null
  | bool {inHeaders : Bool} (value : Bool) : Thinned inHeaders (.bool value) (.bool value)
  | num {inHeaders : Bool} (value : Rat) : Thinned inHeaders (.num value) (.num value)
  | str {inHeaders : Bool} (value : String) : Thinned inHeaders (.str value) (.str value)
  | arr {inHeaders : Bool} {items items' : List Json} (h : ThinnedItems inHeaders items items') :
      Thinned inHeaders (.arr items) (.arr items')
  | obj {inHeaders : Bool} {members members' : List (String × Json)}
      (h : ThinnedMembers members members') : Thinned inHeaders (.obj members) (.obj members')

inductive ThinnedMembers : List (String × Json) → List (String × Json) → Prop
  | nil : ThinnedMembers [] []
  | keep {key : String} {nested nested' : Json} {rest rest' : List (String × Json)}
      (h : Thinned (isHeadersKey key) nested nested') (hrest : ThinnedMembers rest rest') :
      ThinnedMembers ((key, nested) :: rest) ((key, nested') :: rest')
  | drop {key : String} (nested : Json) {rest rest' : List (String × Json)}
      (h : isSensitiveJsonKey key = true) (hrest : ThinnedMembers rest rest') :
      ThinnedMembers ((key, nested) :: rest) rest'

inductive ThinnedItems : Bool → List Json → List Json → Prop
  | nil {inHeaders : Bool} : ThinnedItems inHeaders [] []
  | keep {inHeaders : Bool} {item item' : Json} {rest rest' : List Json}
      (h : Thinned false item item') (hrest : ThinnedItems inHeaders rest rest') :
      ThinnedItems inHeaders (item :: rest) (item' :: rest')
  | drop {item : Json} {rest rest' : List Json} (h : isSensitivePair item = true)
      (hrest : ThinnedItems true rest rest') : ThinnedItems true (item :: rest) rest'

end

mutual

theorem thinned_scrub : ∀ (inHeaders : Bool) (j : Json),
    Thinned inHeaders j (scrubSensitiveJson inHeaders j)
  | _, .null => .null
  | _, .bool value => .bool value
  | _, .num value => .num value
  | _, .str value => .str value
  | inHeaders, .arr items => .arr (thinnedItems_scrub inHeaders items)
  | _, .obj members => .obj (thinnedMembers_scrub members)

theorem thinnedMembers_scrub : ∀ members : List (String × Json),
    ThinnedMembers members (scrubMembers members)
  | [] => .nil
  | (key, nested) :: rest => by
    by_cases h : isSensitiveJsonKey key
    · simp only [scrubMembers, h, if_true]
      exact .drop nested h (thinnedMembers_scrub rest)
    · simp only [scrubMembers, h, Bool.false_eq_true, if_false]
      exact .keep (thinned_scrub _ nested) (thinnedMembers_scrub rest)

theorem thinnedItems_scrub : ∀ (inHeaders : Bool) (items : List Json),
    ThinnedItems inHeaders items (scrubItems inHeaders items)
  | _, [] => .nil
  | inHeaders, item :: rest => by
    by_cases h : (inHeaders && isSensitivePair item) = true
    · simp only [scrubItems, h, if_true]
      rw [Bool.and_eq_true] at h
      have hrest := thinnedItems_scrub inHeaders rest
      rw [h.1] at hrest ⊢
      exact .drop h.2 hrest
    · simp only [scrubItems, h, Bool.false_eq_true, if_false]
      exact .keep (thinned_scrub false item) (thinnedItems_scrub inHeaders rest)

end

/-- A payload without some headers that have a sensitive name. -/
def ProtocolPayload.ThinnedTo : ProtocolPayload → ProtocolPayload → Prop
  | .http p, q =>
    ∃ headers, q = .http { p with headers } ∧ headers.Sublist p.headers ∧
      ∀ header ∈ p.headers, header ∈ headers ∨ isSensitiveHeaderName header.1 = true
  | p, q => q = p

theorem ProtocolPayload.thinnedTo_sanitized (payload : ProtocolPayload) :
    payload.ThinnedTo payload.sanitized := by
  cases payload with
  | http p =>
    refine ⟨p.headers.filter fun header => !isSensitiveHeaderName header.1, rfl,
      List.filter_sublist, ?_⟩
    intro header hmem
    by_cases h : isSensitiveHeaderName header.1 = true
    · exact Or.inr h
    · exact Or.inl (List.mem_filter.mpr ⟨hmem, by simpa using h⟩)
  | _ => rfl

/-- What a sanitized envelope is to promise. -/
structure RequestEnvelope.SafeToWrite (request sanitized : RequestEnvelope) : Prop where
  /-- No header and no metadata entry of gRPC has a sensitive name. -/
  headers : ∀ name ∈ sanitized.payload.headerNames, isSensitiveHeaderName name = false
  /-- No member of the serialized envelope has one, at any depth. -/
  members : ∀ json, sanitized.toJson = some json → exposes false json = false
  token : ∀ auth, sanitized.authRef = some auth → auth.token = none
  idempotent : sanitized.sanitizedForPersistence = sanitized
  /-- Every field that is written is the one of the request, but for the token, the
  headers and the metadata. -/
  fields : sanitized = { request with
    authRef := sanitized.authRef
    payload := sanitized.payload
    metadata := sanitized.metadata
    runtimeSecrets := sanitized.runtimeSecrets }
  auth : sanitized.authRef = request.authRef.map fun auth => { auth with token := none }
  payload : request.payload.ThinnedTo sanitized.payload
  metadata : Thinned false request.metadata sanitized.metadata

variable {payload : ProtocolPayload}

/-- What the serialized payload and the header names show together is what was
not looked at. -/
theorem ProtocolPayload.exposes_sanitized {j : Json} (h : payload.sanitized.toJson = some j) :
    (payload.sanitized.headerNames.any isSensitiveHeaderName || exposes false j) =
      payload.exposesUnscrubbed := by
  have hheaders : isHeadersKey "headers" = true := by decide
  have hmetadata : isHeadersKey "metadata" = false := by decide
  have hvars : isHeadersKey "variables" = false := by decide
  cases payload with
  | http p =>
    cases h
    have hnames : ["type", "method", "headers", "body", "bodyEncoding", "bodySource", "multipart",
        "followRedirects"].any isSensitiveHeaderName = false := by decide
    have hfiltered : ((p.headers.filter fun header => !isSensitiveHeaderName header.1).any
        fun header => isSensitiveHeaderName header.1) = false := by
      simp
    rw [exposes_object _ hnames]
    simp [HttpPayload.members, exposes_headers, hheaders, headerNames, sanitized, List.any_map,
      Function.comp_def, hfiltered, exposesUnscrubbed, exposes]
  | sse p =>
    cases h
    have hnames : ["type", "headers", "lastEventId", "reconnectMax", "reconnectDelayMs"].any
        isSensitiveHeaderName = false := by decide
    rw [exposes_object _ hnames]
    simp [SsePayload.members, exposes_headers, hheaders, headerNames, sanitized, List.any_map,
      Function.comp_def, exposesUnscrubbed, exposes]
  | tcp p =>
    cases h
    have hnames : ["type", "data", "encoding", "framing", "delimiter", "fixedLength", "sendCount",
        "intervalMs", "tls", "serverName", "caCertRef"].any isSensitiveHeaderName = false := by
      decide
    rw [exposes_object _ hnames]
    simp [SocketPayload.members, headerNames, sanitized, exposesUnscrubbed, exposes]
  | udp p =>
    cases h
    have hnames : ["type", "data", "encoding", "sendCount", "intervalMs"].any
        isSensitiveHeaderName = false := by decide
    rw [exposes_object _ hnames]
    simp [UdpPayload.members, headerNames, sanitized, exposesUnscrubbed, exposes]
  | graphql p =>
    cases h
    have hnames : ["type", "query", "variables", "operationName", "headers"].any
        isSensitiveHeaderName = false := by decide
    have hmapped : (p.headers.map Prod.fst).any isSensitiveHeaderName =
        p.headers.any fun header => isSensitiveHeaderName header.1 := List.any_map
    have hvalues : exposes false (.obj (("type", .str "graphql") :: p.members)) =
        (exposes false p.vars ||
          p.headers.any fun header => isSensitiveHeaderName header.1) := by
      rw [exposes_object _ hnames]
      simp [GraphqlPayload.members, exposes_headers, hheaders, hvars, exposes, Codec.value]
    show ((p.headers.map Prod.fst).any isSensitiveHeaderName || _) = _
    rw [hmapped, exposesUnscrubbed]
    refine (congrArg _ hvalues).trans ?_
    cases exposes false p.vars <;> simp
  | websocket p =>
    cases h
    have hnames : ["type", "headers", "subprotocols", "messages", "receiveLimit", "reconnectMax",
        "reconnectDelayMs"].any isSensitiveHeaderName = false := by decide
    rw [exposes_object _ hnames]
    simp [WebSocketPayload.members, exposes_headers, hheaders, headerNames, sanitized,
      List.any_map, Function.comp_def, exposesUnscrubbed, exposes]
  | grpc p =>
    cases h
    have hnames : ["type", "service", "method", "messageBase64", "mode", "metadata",
        "descriptorSetBase64", "messageJson"].any isSensitiveHeaderName = false := by decide
    rw [exposes_object _ hnames]
    simp [GrpcPayload.members, exposes_headers, hmetadata, headerNames, sanitized,
      List.any_map, Function.comp_def, exposesUnscrubbed, exposes]
  | raw value =>
    have htype : isSensitiveHeaderName "type" = false := by decide
    cases value with
    | obj members =>
      cases h
      simp [exposes, exposesMembers, htype, headerNames, sanitized, exposesUnscrubbed]
    | null =>
      cases h
      simp [exposes, exposesMembers, htype, headerNames, sanitized, exposesUnscrubbed]
    | _ => cases h

/-- Does a name that sanitizing does not look at show in the serialized request? -/
def RequestEnvelope.exposesUnscrubbed (request : RequestEnvelope) : Bool :=
  request.payload.exposesUnscrubbed ||
    request.vars.entries.any fun entry => isSensitiveHeaderName entry.1

theorem RequestEnvelope.exposes_sanitized {request : RequestEnvelope} {j : Json}
    (h : request.sanitizedForPersistence.toJson = some j) :
    (request.sanitizedForPersistence.payload.headerNames.any isSensitiveHeaderName ||
      exposes false j) = request.exposesUnscrubbed := by
  obtain ⟨payload, hpayload, rfl⟩ := Option.map_eq_some_iff.mp h
  have hshown := ProtocolPayload.exposes_sanitized hpayload
  have hnames : ["id", "protocolId", "name", "target", "environmentRef", "authRef", "timeoutMs",
      "retryPolicy", "proxy", "tls", "metadata", "payload", "preScripts", "postScripts",
      "assertions", "variables", "createdAt"].any isSensitiveHeaderName = false := by decide
  have hkey : isHeadersKey "payload" = false := by decide
  have hmetadata : isHeadersKey "metadata" = false := by decide
  have hscrubbed : exposes false request.sanitizedForPersistence.metadata = false :=
    exposes_scrub false request.metadata
  rw [exposes_object _ hnames, exposesUnscrubbed, ← hshown]
  simp [members, exposes_stringMap, Codec.value, hkey, hmetadata, hscrubbed, Bool.or_assoc]
  rfl

theorem ProtocolPayload.toJson_sanitized_eq_none :
    payload.sanitized.toJson = none ↔ payload.toJson = none := by
  cases payload <;> simp [sanitized, toJson]

/-- A payload that cannot be written has no headers. -/
theorem ProtocolPayload.headerNames_of_toJson_eq_none (h : payload.sanitized.toJson = none) :
    payload.sanitized.headerNames = [] := by
  cases payload with
  | raw value => rfl
  | _ => cases h

/-- A sanitized envelope is safe to write once its names are. -/
theorem RequestEnvelope.safeToWrite_of_names {request : RequestEnvelope}
    (headers : ∀ name ∈ request.sanitizedForPersistence.payload.headerNames,
      isSensitiveHeaderName name = false)
    (members : ∀ json, request.sanitizedForPersistence.toJson = some json →
      exposes false json = false) :
    request.SafeToWrite request.sanitizedForPersistence where
  headers := headers
  members := members
  token := by
    intro auth hauth
    obtain ⟨old, -, rfl⟩ := Option.map_eq_some_iff.mp hauth
    rfl
  idempotent := request.sanitizedForPersistence_idem
  fields := rfl
  auth := rfl
  payload := request.payload.thinnedTo_sanitized
  metadata := thinned_scrub false request.metadata

/-- Whatever a request is, sanitizing removes its token and its sensitive headers
and metadata, and nothing else. Its other promise, that no sensitive name is
written, is kept exactly by the requests that cannot be written at all and by
those whose unscrubbed parts have no sensitive name. -/
theorem safeToWrite_sanitized_iff (request : RequestEnvelope) :
    request.SafeToWrite request.sanitizedForPersistence ↔
      request.toJson = none ∨ request.exposesUnscrubbed = false := by
  have hpayload : request.sanitizedForPersistence.payload = request.payload.sanitized := rfl
  cases hjson : request.sanitizedForPersistence.toJson with
  | none =>
    have hnone := Option.map_eq_none_iff.mp hjson
    have htoJson : request.toJson = none :=
      Option.map_eq_none_iff.mpr (ProtocolPayload.toJson_sanitized_eq_none.mp hnone)
    refine iff_of_true (RequestEnvelope.safeToWrite_of_names ?_ ?_) (Or.inl htoJson)
    · intro name hname
      rw [hpayload, ProtocolPayload.headerNames_of_toJson_eq_none hnone] at hname
      cases hname
    · intro json hsome
      rw [hjson] at hsome
      cases hsome
  | some json =>
    have hshown := RequestEnvelope.exposes_sanitized hjson
    have hwritable : request.toJson ≠ none := by
      intro hnone
      have hpayloadNone := Option.map_eq_none_iff.mp hnone
      have hsanitizedNone := ProtocolPayload.toJson_sanitized_eq_none.mpr hpayloadNone
      rw [RequestEnvelope.toJson, hpayload, hsanitizedNone] at hjson
      cases hjson
    rw [or_iff_right hwritable, ← hshown, Bool.or_eq_false_iff, List.any_eq_false]
    constructor
    · intro hsafe
      refine ⟨?_, hsafe.members json hjson⟩
      intro name hname
      simpa using hsafe.headers name hname
    · rintro ⟨hheaders, hmembers⟩
      apply RequestEnvelope.safeToWrite_of_names
      · intro name hname
        simpa using hheaders name hname
      · intro json' hjson'
        rw [hjson] at hjson'
        cases hjson'
        exact hmembers

/-- An event stream request with a credential among its headers. -/
def credentialStream : RequestEnvelope :=
  { RequestEnvelope.httpGet "r" "t" "events" "http://localhost" with
    protocolId := "sse"
    payload := .sse {
      headers := [("Authorization", "Bearer secret")]
      lastEventId := none
      reconnectMax := 0
      reconnectDelayMs := 1000 } }

/-- Its credential is written. -/
theorem credentialStream_not_safe :
    ¬ ∀ request : RequestEnvelope, request.SafeToWrite request.sanitizedForPersistence := by
  intro hall
  have hheader := (hall credentialStream).headers "Authorization" (by decide)
  exact absurd hheader (by decide)

end ApiVoy.Domain
