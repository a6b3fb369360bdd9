/-
# Requests as literals

A request that is written into a program as a literal and printed by it again is read back from
what was printed. What is read is written as that text again, so that a request comes back as it
was only when the text did not change.
-/

import ApiVoy.Domain.RequestJson
import ApiVoy.Foundation.Literals

namespace ApiVoy.Domain

open Foundation Codec

variable {number : Rat → Rat}

/-! ## Parts -/

theorem exact_headers : Exact number headersCodec :=
  (exact_text.pair exact_text).list

theorem exact_texts : Exact number textsCodec := exact_text.list

theorem exact_optSize : Exact number optSize := exact_word64.nullable

theorem exact_target : Exact number AssertionTarget.codec := exact_name

theorem exact_operator : Exact number AssertionOperator.codec := exact_name

theorem exact_assertion : Exact number Assertion.codec := by
  refine Exact.record fun a b h => ?_
  obtain ⟨id, hid, h⟩ := exact_text.peel h rfl rfl
  obtain ⟨enabled, henabled, h⟩ := exact_boolean.peelOr h rfl rfl
  obtain ⟨target, htarget, h⟩ := exact_target.peel h rfl rfl
  obtain ⟨operator, hoperator, h⟩ := exact_operator.peel h rfl rfl
  obtain ⟨selector, hselector, h⟩ := exact_optText.peelOr h rfl rfl
  obtain ⟨expected, hexpected, h⟩ := exact_optText.peelOr h rfl rfl
  cases h
  simp [hid, henabled, htarget, hoperator, hselector, hexpected]

theorem exact_part : Exact number MultipartPart.codec := by
  refine Exact.record fun a b h => ?_
  obtain ⟨name, hname, h⟩ := exact_text.peel h rfl rfl
  obtain ⟨value, hvalue, h⟩ := exact_text.peel h rfl rfl
  obtain ⟨fileName, hfileName, h⟩ := exact_optText.peelOr h rfl rfl
  obtain ⟨contentType, hcontentType, h⟩ := exact_optText.peelOr h rfl rfl
  obtain ⟨base64, hbase64, h⟩ := exact_boolean.peelOr h rfl rfl
  cases h
  simp [hname, hvalue, hfileName, hcontentType, hbase64]

theorem exact_message : Exact number WebSocketMessage.codec := by
  refine Exact.record fun a b h => ?_
  obtain ⟨encoding, hencoding, h⟩ := exact_text.peelOr h rfl rfl
  obtain ⟨data, hdata, h⟩ := exact_text.peel h rfl rfl
  cases h
  simp [hencoding, hdata]

theorem exact_multipart : Exact number multipartCodec := exact_part.list

theorem exact_messages : Exact number messagesCodec := exact_message.list

theorem exact_assertions : Exact number assertionsCodec := exact_assertion.list

theorem exact_retryPolicy : Exact number RetryPolicy.codec := by
  refine Exact.record fun a b h => ?_
  obtain ⟨maxRetries, hmaxRetries, h⟩ := exact_word32.peel h rfl rfl
  obtain ⟨backoffMs, hbackoffMs, h⟩ := exact_word64.peel h rfl rfl
  cases h
  simp [hmaxRetries, hbackoffMs]

theorem exact_tls : Exact number TlsOptions.codec := by
  refine Exact.record fun a b h => ?_
  obtain ⟨verify, hverify, h⟩ := exact_boolean.peel h rfl rfl
  obtain ⟨clientCertRef, hclientCertRef, h⟩ := exact_optText.peelOr h rfl rfl
  cases h
  simp [hverify, hclientCertRef]

/-! ## Payloads -/

theorem HttpPayload.exact_members : ExactMembers number ofMembers members := by
  intro a b h
  rw [ofMembers, members] at h
  obtain ⟨method, hmethod, h⟩ := exact_text.peel h rfl rfl
  obtain ⟨headers, hheaders, h⟩ := exact_headers.peel h rfl rfl
  obtain ⟨body, hbody, h⟩ := exact_optText.peelOr h rfl rfl
  obtain ⟨bodyEncoding, hbodyEncoding, h⟩ := exact_text.peelOr h rfl rfl
  obtain ⟨bodySource, hbodySource, h⟩ := exact_optText.peelOr h rfl rfl
  obtain ⟨multipart, hmultipart, h⟩ := exact_multipart.peelOr h rfl rfl
  obtain ⟨followRedirects, hfollowRedirects, h⟩ := exact_boolean.peel h rfl rfl
  cases h
  simp [members, hmethod, hheaders, hbody, hbodyEncoding, hbodySource, hmultipart,
    hfollowRedirects]

theorem SsePayload.exact_members : ExactMembers number ofMembers members := by
  intro a b h
  rw [ofMembers, members] at h
  obtain ⟨headers, hheaders, h⟩ := exact_headers.peelOr h rfl rfl
  obtain ⟨lastEventId, hlastEventId, h⟩ := exact_optText.peelOr h rfl rfl
  obtain ⟨reconnectMax, hreconnectMax, h⟩ := exact_word32.peelOr h rfl rfl
  obtain ⟨reconnectDelayMs, hreconnectDelayMs, h⟩ := exact_word64.peelOr h rfl rfl
  cases h
  simp [members, hheaders, hlastEventId, hreconnectMax, hreconnectDelayMs]

theorem SocketPayload.exact_members : ExactMembers number ofMembers members := by
  intro a b h
  rw [ofMembers, members] at h
  obtain ⟨data, hdata, h⟩ := exact_text.peel h rfl rfl
  obtain ⟨encoding, hencoding, h⟩ := exact_text.peelOr h rfl rfl
  obtain ⟨framing, hframing, h⟩ := exact_optText.peelOr h rfl rfl
  obtain ⟨delimiter, hdelimiter, h⟩ := exact_optText.peelOr h rfl rfl
  obtain ⟨fixedLength, hfixedLength, h⟩ := exact_optSize.peelOr h rfl rfl
  obtain ⟨sendCount, hsendCount, h⟩ := exact_word32.peelOr h rfl rfl
  obtain ⟨intervalMs, hintervalMs, h⟩ := exact_word64.peelOr h rfl rfl
  obtain ⟨tls, htls, h⟩ := exact_boolean.peelOr h rfl rfl
  obtain ⟨serverName, hserverName, h⟩ := exact_optText.peelOr h rfl rfl
  obtain ⟨caCertRef, hcaCertRef, h⟩ := exact_optText.peelOr h rfl rfl
  cases h
  simp [members, hdata, hencoding, hframing, hdelimiter, hfixedLength, hsendCount,
    hintervalMs, htls, hserverName, hcaCertRef]

theorem UdpPayload.exact_members : ExactMembers number ofMembers members := by
  intro a b h
  rw [ofMembers, members] at h
  obtain ⟨data, hdata, h⟩ := exact_text.peel h rfl rfl
  obtain ⟨encoding, hencoding, h⟩ := exact_text.peelOr h rfl rfl
  obtain ⟨sendCount, hsendCount, h⟩ := exact_word32.peelOr h rfl rfl
  obtain ⟨intervalMs, hintervalMs, h⟩ := exact_word64.peelOr h rfl rfl
  cases h
  simp [members, hdata, hencoding, hsendCount, hintervalMs]

theorem GraphqlPayload.exact_members : ExactMembers number ofMembers members := by
  intro a b h
  rw [ofMembers, members] at h
  obtain ⟨query, hquery, h⟩ := exact_text.peel h rfl rfl
  obtain ⟨vars, hvars, h⟩ := exact_value.peelOr (a := a.vars) h rfl rfl
  obtain ⟨operationName, hoperationName, h⟩ := exact_optText.peelOr h rfl rfl
  obtain ⟨headers, hheaders, h⟩ := exact_headers.peelOr h rfl rfl
  cases h
  simp [members, hquery, hvars, hoperationName, hheaders]

theorem WebSocketPayload.exact_members : ExactMembers number ofMembers members := by
  intro a b h
  rw [ofMembers, members] at h
  obtain ⟨headers, hheaders, h⟩ := exact_headers.peelOr h rfl rfl
  obtain ⟨subprotocols, hsubprotocols, h⟩ := exact_texts.peelOr h rfl rfl
  obtain ⟨messages, hmessages, h⟩ := exact_messages.peelOr h rfl rfl
  obtain ⟨receiveLimit, hreceiveLimit, h⟩ := exact_optSize.peelOr h rfl rfl
  obtain ⟨reconnectMax, hreconnectMax, h⟩ := exact_word32.peelOr h rfl rfl
  obtain ⟨reconnectDelayMs, hreconnectDelayMs, h⟩ := exact_word64.peelOr h rfl rfl
  cases h
  simp [members, hheaders, hsubprotocols, hmessages, hreceiveLimit, hreconnectMax,
    hreconnectDelayMs]

theorem GrpcPayload.exact_members : ExactMembers number ofMembers members := by
  intro a b h
  rw [ofMembers, members] at h
  obtain ⟨service, hservice, h⟩ := exact_text.peel h rfl rfl
  obtain ⟨method, hmethod, h⟩ := exact_text.peel h rfl rfl
  obtain ⟨messageBase64, hmessageBase64, h⟩ := exact_text.peel h rfl rfl
  obtain ⟨mode, hmode, h⟩ := exact_text.peelOr h rfl rfl
  obtain ⟨metadata, hmetadata, h⟩ := exact_headers.peelOr h rfl rfl
  obtain ⟨descriptorSetBase64, hdescriptorSetBase64, h⟩ :=
    exact_optText.peelOr h rfl rfl
  obtain ⟨messageJson, hmessageJson, h⟩ := exact_optText.peelOr h rfl rfl
  cases h
  simp [members, hservice, hmethod, hmessageBase64, hmode, hmetadata,
    hdescriptorSetBase64, hmessageJson]

/-- A payload with a type of its own is written as what it was read of, when the
reader of its members is exact. -/
theorem ProtocolPayload.toJson_of_tagged {α : Type} {tag : String}
    {readMembers : List (String × Json) → Option α} {writeMembers : α → List (String × Json)}
    (wrap : α → ProtocolPayload) {p : α} {read : ProtocolPayload}
    (hexact : ExactMembers number readMembers writeMembers)
    (hwrap : ∀ q, (wrap q).toJson = some (.obj (("type", .str tag) :: writeMembers q)))
    (htype : Json.memberValues "type" (Json.literalMembers number (writeMembers p)) = [])
    (hskip : ∀ ms, readMembers (("type", .str tag) :: ms) = readMembers ms)
    (hkind : ∀ all, Json.memberValues "type" all = [.str tag] →
      ofJson (.obj all) = (readMembers all).map wrap)
    (h : ofJson (.obj (("type", .str tag) :: Json.literalMembers number (writeMembers p))) =
      some read) :
    read.toJson =
      some (.obj (("type", .str tag) :: Json.literalMembers number (writeMembers p))) := by
  rw [hkind _ (by rw [Json.memberValues_cons, if_pos rfl, htype]), hskip] at h
  obtain ⟨q, hq, rfl⟩ := Option.map_eq_some_iff.mp h
  rw [hwrap, hexact p q hq]

variable {j : Json}

/-- A payload that is read of a literal is written as that literal. -/
theorem ProtocolPayload.toJson_of_read {payload read : ProtocolPayload}
    (hwrite : payload.toJson = some j) (h : ofJson (Json.literal number j) = some read) :
    read.toJson = some (Json.literal number j) := by
  cases payload with
  | http p =>
    cases hwrite
    exact toJson_of_tagged .http HttpPayload.exact_members (fun _ => rfl) (by simp [HttpPayload.members])
      (fun _ => by simp [HttpPayload.ofMembers]) (fun _ hall => by rw [ofJson, hall]; rfl) h
  | sse p =>
    cases hwrite
    exact toJson_of_tagged .sse SsePayload.exact_members (fun _ => rfl) (by simp [SsePayload.members])
      (fun _ => by simp [SsePayload.ofMembers]) (fun _ hall => by rw [ofJson, hall]; rfl) h
  | tcp p =>
    cases hwrite
    exact toJson_of_tagged .tcp SocketPayload.exact_members (fun _ => rfl) (by simp [SocketPayload.members])
      (fun _ => by simp [SocketPayload.ofMembers]) (fun _ hall => by rw [ofJson, hall]; rfl) h
  | udp p =>
    cases hwrite
    exact toJson_of_tagged .udp UdpPayload.exact_members (fun _ => rfl) (by simp [UdpPayload.members])
      (fun _ => by simp [UdpPayload.ofMembers]) (fun _ hall => by rw [ofJson, hall]; rfl) h
  | graphql p =>
    cases hwrite
    exact toJson_of_tagged .graphql GraphqlPayload.exact_members (fun _ => rfl) (by simp [GraphqlPayload.members])
      (fun _ => by simp [GraphqlPayload.ofMembers]) (fun _ hall => by rw [ofJson, hall]; rfl) h
  | websocket p =>
    cases hwrite
    exact toJson_of_tagged .websocket WebSocketPayload.exact_members (fun _ => rfl) (by simp [WebSocketPayload.members])
      (fun _ => by simp [WebSocketPayload.ofMembers]) (fun _ hall => by rw [ofJson, hall]; rfl) h
  | grpc p =>
    cases hwrite
    exact toJson_of_tagged .grpc GrpcPayload.exact_members (fun _ => rfl) (by simp [GrpcPayload.members])
      (fun _ => by simp [GrpcPayload.ofMembers]) (fun _ hall => by rw [ofJson, hall]; rfl) h
  | raw value =>
    cases value with
    | null =>
      cases hwrite
      cases h
      rfl
    | obj ms =>
      cases hwrite
      have htype : Json.memberValues "type"
          (("type", .str "raw") :: Json.literalMembers number ms) =
            .str "raw" :: (Json.memberValues "type" ms).map (Json.literal number) := by
        rw [Json.memberValues_cons, if_pos rfl,
          Json.memberValues_literalMembers number (by decide)]
      change ofJson (.obj (("type", .str "raw") :: Json.literalMembers number ms)) = _ at h
      rw [ofJson, htype] at h
      cases hnone : Json.memberValues "type" ms with
      | nil =>
        rw [hnone] at h
        cases h
        have hfilter : (Json.literalMembers number ms).filter (fun entry => entry.1 ≠ "type") =
            Json.literalMembers number ms := by
          have hvalues := Json.memberValues_literalMembers number
            (show "type" ≠ "__proto__" by decide) ms
          rw [hnone, Json.memberValues, List.map_nil, List.map_eq_nil_iff,
            List.filter_eq_nil_iff] at hvalues
          exact List.filter_eq_self.mpr fun entry hentry => by simpa using hvalues entry hentry
        rw [List.filter_cons]
        simp only [ne_eq, not_true_eq_false, decide_false, Bool.false_eq_true, if_false]
        rw [hfilter]
        rfl
      | cons value values =>
        rw [hnone] at h
        cases h
    | bool _ | num _ | str _ | arr _ => cases hwrite

/-! ## Envelopes -/

theorem AuthRef.exact_members : ExactMembers number ofMembers members := by
  intro a b h
  rw [ofMembers, members] at h
  obtain ⟨kind, hkind, h⟩ := exact_text.peel h rfl rfl
  obtain ⟨secretRef, hsecretRef, h⟩ := exact_optText.peelOr h rfl rfl
  obtain ⟨token, -, h⟩ := Option.bind_eq_some_iff.mp h
  obtain ⟨username, husername, h⟩ := exact_optText.peelOr h rfl rfl
  obtain ⟨headerName, hheaderName, h⟩ := exact_optText.peelOr h rfl rfl
  obtain ⟨tokenUrl, htokenUrl, h⟩ := exact_optText.peelOr h rfl rfl
  obtain ⟨scope, hscope, h⟩ := exact_optText.peelOr h rfl rfl
  obtain ⟨audience, haudience, h⟩ := exact_optText.peelOr h rfl rfl
  obtain ⟨authorizationUrl, hauthorizationUrl, h⟩ := exact_optText.peelOr h rfl rfl
  obtain ⟨redirectUri, hredirectUri, h⟩ := exact_optText.peelOr h rfl rfl
  obtain ⟨authorizationCodeRef, hauthorizationCodeRef, h⟩ :=
    exact_optText.peelOr h rfl rfl
  obtain ⟨codeVerifierRef, hcodeVerifierRef, h⟩ := exact_optText.peelOr h rfl rfl
  cases h
  simp [members, hkind, hsecretRef, husername, hheaderName, htokenUrl, hscope,
    haudience, hauthorizationUrl, hredirectUri, hauthorizationCodeRef, hcodeVerifierRef]

theorem writeAuthRef_of_read {auth read : Option AuthRef}
    (h : readAuthRef (Json.literal number (writeAuthRef auth)) = some read) :
    writeAuthRef read = Json.literal number (writeAuthRef auth) := by
  cases auth with
  | none =>
    cases h
    rfl
  | some auth =>
    obtain ⟨found, hfound, rfl⟩ := Option.map_eq_some_iff.mp h
    exact congrArg Json.obj (AuthRef.exact_members _ _ hfound)

variable {e : RequestEnvelope}

theorem RequestEnvelope.toJson_eq_some_iff :
    e.toJson = some j ↔ ∃ payload, e.payload.toJson = some payload ∧ .obj (e.members payload) = j :=
  Option.map_eq_some_iff

/-- An envelope that is read of a literal is written as that literal. -/
theorem RequestEnvelope.toJson_of_read {e read : RequestEnvelope} (hwrite : e.toJson = some j)
    (h : ofJson (Json.literal number j) = some read) :
    read.toJson = some (Json.literal number j) := by
  obtain ⟨written, hwritten, rfl⟩ := toJson_eq_some_iff.mp hwrite
  change ofMembers (Json.literalMembers number (e.members written)) = some read at h
  rw [ofMembers, members] at h
  obtain ⟨id, hid, h⟩ := exact_text.peel h rfl rfl
  obtain ⟨protocolId, hprotocolId, h⟩ := exact_text.peel h rfl rfl
  obtain ⟨name, hname, h⟩ := exact_text.peel h rfl rfl
  obtain ⟨target, htarget, h⟩ := exact_text.peel h rfl rfl
  obtain ⟨environmentRef, henvironmentRef, h⟩ := exact_optText.peelOr h rfl rfl
  obtain ⟨authRef, hauthRef, h⟩ := Option.bind_eq_some_iff.mp h
  obtain ⟨timeoutMs, htimeoutMs, h⟩ := exact_word64.peel h rfl rfl
  obtain ⟨retryPolicy, hretryPolicy, h⟩ := exact_retryPolicy.peel h rfl rfl
  obtain ⟨proxy, hproxy, h⟩ := exact_optText.peelOr h rfl rfl
  obtain ⟨tls, htls, h⟩ := exact_tls.peel h rfl rfl
  obtain ⟨metadata, hmetadata, h⟩ := exact_value.peel (a := e.metadata) h rfl rfl
  obtain ⟨payload, hpayload, h⟩ := Option.bind_eq_some_iff.mp h
  obtain ⟨preScripts, hpreScripts, h⟩ := exact_texts.peel h rfl rfl
  obtain ⟨postScripts, hpostScripts, h⟩ := exact_texts.peel h rfl rfl
  obtain ⟨assertions, hassertions, h⟩ := exact_assertions.peelOr h rfl rfl
  obtain ⟨vars, hvars, h⟩ := exact_stringMap.peelOr h rfl rfl
  obtain ⟨createdAt, hcreatedAt, h⟩ := exact_text.peel h rfl rfl
  obtain ⟨auth, hauth, hreadAuth⟩ := Option.bind_eq_some_iff.mp hauthRef
  obtain ⟨body, hbody, hreadBody⟩ := Option.bind_eq_some_iff.mp hpayload
  cases h
  have hauthLiteral : auth = Json.literal number (writeAuthRef e.authRef) :=
    exact_value.fieldOr hauth (by simp; rfl) (by decide)
  have hbodyLiteral : body = Json.literal number written :=
    exact_value.field hbody (by simp) (by decide)
  rw [hauthLiteral] at hreadAuth
  rw [hbodyLiteral] at hreadBody
  refine toJson_eq_some_iff.mpr
    ⟨_, ProtocolPayload.toJson_of_read hwritten hreadBody, ?_⟩
  have hauthWrite : Codec.value.write (writeAuthRef authRef) =
      Json.literal number (Codec.value.write (writeAuthRef e.authRef)) :=
    writeAuthRef_of_read hreadAuth
  have hbodyWrite : Codec.value.write (Json.literal number written) =
      Json.literal number (Codec.value.write written) := rfl
  refine congrArg Json.obj ?_
  simp [members, hauthWrite, hbodyWrite, hid, hprotocolId, hname, htarget,
    henvironmentRef, htimeoutMs, hretryPolicy, hproxy, htls, hmetadata, hpreScripts, hpostScripts,
    hassertions, hvars, hcreatedAt]

def RequestEnvelope.withoutVars (e : RequestEnvelope) : RequestEnvelope := { e with vars := ∅ }

/-- Apart from its variables the envelope can be written, all numbers in it are printed as they
are, and no member is lost for its name. -/
def RequestEnvelope.Survives (number : Rat → Rat) (e : RequestEnvelope) : Prop :=
  ∃ j, e.withoutVars.toJson = some j ∧ (∀ q ∈ j.numbers, number q = q) ∧ "__proto__" ∉ j.names

/-- The literal of an envelope is the text of one that differs in its variables only, exactly
when every other member is printed as it is. -/
theorem RequestEnvelope.literalMembers_members {vars : StringMap} {payload : Json} :
    Json.literalMembers number (e.members payload) =
        { e with vars := vars }.members payload ↔
      Json.literalMembers number (e.withoutVars.members payload) =
          e.withoutVars.members payload ∧
        Json.literal number (Codec.stringMap.write e.vars) = Codec.stringMap.write vars := by
  have hempty : Json.literal number (Codec.stringMap.write ∅) = Codec.stringMap.write ∅ := rfl
  simp (disch := decide) only [members, withoutVars, Json.literalMembers_cons_of_ne,
    Json.literalMembers_nil, List.cons.injEq, Prod.mk.injEq, hempty, true_and, and_true]
  constructor
  · rintro ⟨h₁, h₂, h₃, h₄, h₅, h₆, h₇, h₈, h₉, h₁₀, h₁₁, h₁₂, h₁₃, h₁₄, h₁₅, hvars, h₁₇⟩
    exact ⟨⟨h₁, h₂, h₃, h₄, h₅, h₆, h₇, h₈, h₉, h₁₀, h₁₁, h₁₂, h₁₃, h₁₄, h₁₅, h₁₇⟩, hvars⟩
  · rintro ⟨⟨h₁, h₂, h₃, h₄, h₅, h₆, h₇, h₈, h₉, h₁₀, h₁₁, h₁₂, h₁₃, h₁₄, h₁₅, h₁₇⟩, hvars⟩
    exact ⟨h₁, h₂, h₃, h₄, h₅, h₆, h₇, h₈, h₉, h₁₀, h₁₁, h₁₂, h₁₃, h₁₄, h₁₅, hvars, h₁₇⟩

/-- An envelope survives when what is printed of it is its own text. -/
theorem RequestEnvelope.survives_iff {payload : Json} (h : e.payload.toJson = some payload) :
    e.Survives number ↔ Json.literalMembers number (e.withoutVars.members payload) =
      e.withoutVars.members payload := by
  have hwrite : e.withoutVars.toJson = some (.obj (e.withoutVars.members payload)) :=
    toJson_eq_some_iff.mpr ⟨payload, h, rfl⟩
  rw [Survives, hwrite]
  constructor
  · rintro ⟨j, hj, hnumbers, hnames⟩
    cases hj
    have hsame := (Json.literal_eq_self_iff number _).mpr ⟨hnumbers, hnames⟩
    rw [Json.literal] at hsame
    exact Json.obj.inj hsame
  · intro hsame
    refine ⟨_, rfl, (Json.literal_eq_self_iff number _).mp ?_⟩
    rw [Json.literal, hsame]

def RequestEnvelope.NoSecrets (e : RequestEnvelope) : Prop :=
  (∀ auth, e.authRef = some auth → auth.token = none) ∧ e.runtimeSecrets = ∅

theorem RequestEnvelope.withoutSecrets_eq_self_iff : e.withoutSecrets = e ↔ e.NoSecrets := by
  constructor
  · intro h
    have hauth := congrArg authRef h
    have hsecrets := congrArg runtimeSecrets h
    refine ⟨fun auth heq => ?_, hsecrets.symm⟩
    rw [withoutSecrets, heq] at hauth
    have htoken := congrArg AuthRef.token (Option.some.inj hauth)
    exact htoken.symm
  · rintro ⟨htoken, hsecrets⟩
    have hauth : (e.authRef.map fun auth => { auth with token := none }) = e.authRef := by
      cases heq : e.authRef with
      | none => rfl
      | some auth =>
        have hnone := htoken auth heq
        rw [Option.map_some, ← hnone]
    rw [withoutSecrets, hauth, ← hsecrets]

/-- What is read of the literal of an envelope is the envelope, up to its variables, exactly when
it has no literal secrets, its payload is written faithfully and it survives. -/
theorem RequestEnvelope.ofJson_literal_iff (hwrite : e.toJson = some j) :
    (∃ vars, ofJson (Json.literal number j) = some { e with vars := vars }) ↔
      e.payload.Faithful ∧ e.NoSecrets ∧ e.Survives number := by
  obtain ⟨payload, hpayload, rfl⟩ := toJson_eq_some_iff.mp hwrite
  constructor
  · rintro ⟨vars, hread⟩
    have hfaithful := faithful_of_ofJson hread
    have hwritten := toJson_of_read hwrite hread
    obtain ⟨j, hj, hagain⟩ := ofJson_toJson hfaithful
    rw [hwritten] at hj
    cases hj
    rw [hread] at hagain
    have hsecrets := withoutSecrets_eq_self_iff.mp (Option.some.inj hagain).symm
    obtain ⟨other, hother, hmembers⟩ := toJson_eq_some_iff.mp hwritten
    obtain rfl : payload = other := Option.some.inj (hpayload.symm.trans hother)
    exact ⟨hfaithful, hsecrets, (survives_iff hpayload).mpr
      (literalMembers_members.mp (Json.obj.inj hmembers).symm).1⟩
  · rintro ⟨hfaithful, hsecrets, hsurvives⟩
    have hliteral := literalMembers_members.mpr
      ⟨(survives_iff hpayload).mp hsurvives, Codec.literal_stringMap⟩
    refine ⟨e.vars.erase "__proto__", ?_⟩
    have hother : { e with vars := e.vars.erase "__proto__" }.toJson =
        some (Json.literal number (.obj (e.members payload))) := by
      rw [Json.literal, hliteral]
      exact toJson_eq_some_iff.mpr ⟨payload, hpayload, rfl⟩
    obtain ⟨j, hj, hread⟩ :=
      ofJson_toJson (e := { e with vars := e.vars.erase "__proto__" }) hfaithful
    rw [hother] at hj
    cases hj
    rw [hread]
    exact congrArg some (withoutSecrets_eq_self_iff.mpr hsecrets)

end ApiVoy.Domain
