/-
# The messages of a gRPC request

A request has its messages as JSON, to be encoded by the descriptor of the method, or as bytes in
base64, of which a streaming call may have several, one on each line. What the messages of a
request are is decided twice: when the request is executed, and before that when it is validated.
-/

import ApiVoy.Drivers.Grpc
import ApiVoy.Foundation.Lines
import ApiVoy.Foundation.Text

namespace ApiVoy.Drivers.Grpc

open Foundation Domain Engine

/-! ## Messages -/

def maxRequestBytes : Nat := 64 * 1024 * 1024

/-- The largest `usize`. -/
def maxUsize : Nat := 2 ^ 64 - 1

/-- What the driver takes from the libraries for descriptors and for JSON. -/
structure DescriptorLibrary (Pool Service Method : Type) where
  decodePool : Bytes → Except String Pool
  getServiceByName : Pool → String → Option Service
  methods : Service → List (String × Method)
  parseJson : String → Except String Json
  jsonText : Json → Except String String
  /-- Read a message of the input type of a method, and encode it. -/
  encodeInput : Method → String → Except String Bytes

/-- A text that is there and is not blank. -/
def filled (text : Option String) : Option String := text.filter fun value => trim value ≠ ""

/-- A call in this mode may send several messages. -/
def isStreaming (mode : String) : Bool := mode == "client_streaming" || mode == "bidi_streaming"

section Preparing

variable {Pool Service Method : Type} (codecs : Codecs)
  (library : DescriptorLibrary Pool Service Method)

def methodDescriptor (payload : GrpcPayload) : Except DriverError (Option Method) :=
  match filled payload.descriptorSetBase64 with
  | none => .ok none
  | some encoded =>
    match codecs.decodeBase64 encoded with
    | .error e => .error (.validation ("descriptorSetBase64 is invalid: " ++ e))
    | .ok bytes =>
      match library.decodePool bytes with
      | .error e => .error (.validation ("invalid FileDescriptorSet: " ++ e))
      | .ok pool =>
        match library.getServiceByName pool (trim payload.service) with
        | none => .error (.validation
            ("service `" ++ payload.service ++ "` was not found in descriptor set"))
        | some service =>
          match (library.methods service).lookup (trim payload.method) with
          | none => .error (.validation ("method `" ++ payload.method ++
              "` was not found in service `" ++ payload.service ++ "`"))
          | some method => .ok (some method)

def requestJsonValues (payload : GrpcPayload) (json : String) : Except DriverError (List Json) :=
  match library.parseJson json with
  | .error e => .error (.validation ("gRPC request JSON is invalid: " ++ e))
  | .ok value =>
    if isStreaming payload.mode = true then
      match value with
      | .arr values => .ok values
      | value => .ok [value]
    else .ok [value]

/-- No message may be too large, nor all of them with their frames. -/
def validateRequestMessageSizes (total : Nat) : List Bytes → Except DriverError Unit
  | [] => .ok ()
  | message :: rest =>
    let size := min (message.length + 5) maxUsize
    if maxMessageBytes < message.length then
      .error (.validation ("gRPC request message exceeds the " ++ toString maxMessageBytes ++
        "-byte limit"))
    else if maxUsize < total + size then .error (.validation "gRPC request size overflow")
    else if maxRequestBytes < total + size then
      .error (.validation ("gRPC request exceeds the " ++ toString maxRequestBytes ++
        "-byte limit"))
    else validateRequestMessageSizes (total + size) rest

def encodeMessage (method : Method) (value : Json) : Except DriverError Bytes :=
  match library.jsonText value with
  | .error e => .error (.validation e)
  | .ok text =>
    match library.encodeInput method text with
    | .error e => .error (.validation ("gRPC request JSON is invalid: " ++ e))
    | .ok bytes => .ok bytes

/-- The texts of which each is a message in base64. -/
def base64Parts (payload : GrpcPayload) : List String :=
  if isStreaming payload.mode = true then
    ((lines payload.messageBase64.toList).map String.ofList).filter fun value => trim value ≠ ""
  else [payload.messageBase64]

def decodeMessage (value : String) : Except DriverError Bytes :=
  match codecs.decodeBase64 (trim value) with
  | .error e => .error (.validation e)
  | .ok bytes => .ok bytes

def requestMessages (payload : GrpcPayload) (method : Option Method) :
    Except DriverError (List Bytes) :=
  match filled payload.messageJson with
  | some json =>
    match method with
    | none => .error (.validation "messageJson requires descriptorSetBase64")
    | some method => do
      let values ← requestJsonValues library payload json
      let messages ← values.mapM (encodeMessage library method)
      validateRequestMessageSizes 0 messages
      return messages
  | none => do
    let messages ← (base64Parts payload).mapM (decodeMessage codecs)
    validateRequestMessageSizes 0 messages
    return messages

/-! ## Validation -/

def errorsOf {α : Type} : Except DriverError α → List String
  | .ok _ => []
  | .error e => [e.message]

def targetErrors (target : String) : List String :=
  if ("http://".toList.isPrefixOf target.toList || "https://".toList.isPrefixOf target.toList) =
      true then []
  else ["gRPC target must start with http:// or https://"]

def nameErrors (payload : GrpcPayload) : List String :=
  if trim payload.service = "" ∨ trim payload.method = "" then
    ["gRPC service and method are required"]
  else []

def modeErrors (payload : GrpcPayload) : List String :=
  if ["unary", "server_streaming", "client_streaming", "bidi_streaming"].contains payload.mode then
    []
  else ["gRPC mode must be unary, server_streaming, client_streaming or bidi_streaming"]

/-- The bytes of a request with a descriptor are looked at once before the messages are. -/
def base64Errors (payload : GrpcPayload) : List String :=
  if (filled payload.descriptorSetBase64).isSome = true ∧ filled payload.messageJson = none ∧
      (codecs.decodeBase64 payload.messageBase64).isOk = false then
    ["gRPC message must be base64 protobuf bytes"]
  else []

def messageErrors (payload : GrpcPayload) : List String :=
  match methodDescriptor codecs library payload with
  | .error e => [e.message]
  | .ok (some method) => errorsOf (requestMessages codecs library payload (some method))
  | .ok none =>
    match filled payload.messageJson with
    | some _ => errorsOf (requestJsonValues library payload (payload.messageJson.getD ""))
    | none => errorsOf (requestMessages codecs library payload none)

/-- The errors of a validation report. -/
def validate (request : RequestEnvelope) : List String :=
  targetErrors request.target ++
    match request.payload with
    | .grpc payload =>
      nameErrors payload ++ (modeErrors payload ++
        (base64Errors codecs payload ++ messageErrors codecs library payload))
    | _ => ["gRPC driver requires gRPC payload"]

/-! ## What can be sent -/

/-- Messages that may be sent: none is too large, and neither are all of their frames. -/
structure WithinLimits (messages : List Bytes) : Prop where
  each : ∀ message ∈ messages, message.length ≤ maxMessageBytes
  total : (messages.flatMap encodeFrame).length ≤ maxRequestBytes

variable {messages : List Bytes}

theorem validateSizes_eq_ok_iff {total : Nat} (htotal : total ≤ maxRequestBytes) :
    validateRequestMessageSizes total messages = .ok () ↔
      (∀ message ∈ messages, message.length ≤ maxMessageBytes) ∧
        total + (messages.flatMap encodeFrame).length ≤ maxRequestBytes := by
  induction messages generalizing total with
  | nil => exact iff_of_true rfl ⟨fun _ h => (List.not_mem_nil h).elim, htotal⟩
  | cons message rest ih =>
    rw [validateRequestMessageSizes, List.forall_mem_cons, List.flatMap_cons, List.length_append,
      length_encodeFrame]
    by_cases hlarge : maxMessageBytes < message.length
    · rw [if_pos hlarge]
      exact iff_of_false (fun h => by cases h) fun h => absurd h.1.1 (not_le.mpr hlarge)
    · have hsize : min (message.length + 5) maxUsize = message.length + 5 := by
        refine min_eq_left ?_
        simp only [maxUsize, maxMessageBytes] at hlarge ⊢
        omega
      have hfits : ¬maxUsize < total + (message.length + 5) := by
        simp only [maxUsize, maxMessageBytes, maxRequestBytes] at hlarge htotal ⊢
        omega
      rw [if_neg hlarge, hsize, if_neg hfits]
      by_cases hfull : maxRequestBytes < total + (message.length + 5)
      · rw [if_pos hfull]
        refine iff_of_false (fun h => by cases h) fun h => ?_
        have hle := h.2
        omega
      · rw [if_neg hfull, ih (by omega), Nat.add_assoc]
        have hsmall : message.length ≤ maxMessageBytes := by omega
        exact ⟨fun h => ⟨⟨hsmall, h.1⟩, by omega⟩, fun h => ⟨h.1.2, by omega⟩⟩

theorem mapM_eq_ok_iff {α β : Type} {f : α → Except DriverError β} {items : List α}
    {values : List β} :
    items.mapM f = .ok values ↔ List.Forall₂ (fun item value => f item = .ok value) items values := by
  induction items generalizing values with
  | nil =>
    rw [List.mapM_nil, List.forall₂_nil_left_iff]
    exact ⟨fun h => by cases h; rfl, fun h => by rw [h]; rfl⟩
  | cons item items ih =>
    rw [List.mapM_cons]
    constructor
    · intro h
      obtain ⟨value, hvalue, h⟩ := bind_eq_ok_iff.mp h
      obtain ⟨rest, hrest, h⟩ := bind_eq_ok_iff.mp h
      cases h
      exact .cons hvalue (ih.mp hrest)
    · intro h
      cases h with
      | cons hvalue hrest =>
        exact bind_eq_ok_iff.mpr ⟨_, hvalue, bind_eq_ok_iff.mpr ⟨_, ih.mpr hrest, rfl⟩⟩

/-- Messages that were prepared are sent after their sizes were checked. -/
theorem checked_eq_ok_iff {prepare : Except DriverError (List Bytes)} :
    (do
      let messages ← prepare
      validateRequestMessageSizes 0 messages
      return messages) = .ok messages ↔ prepare = .ok messages ∧ WithinLimits messages := by
  constructor
  · intro h
    obtain ⟨found, hfound, h⟩ := bind_eq_ok_iff.mp h
    obtain ⟨⟨⟩, hsizes, h⟩ := bind_eq_ok_iff.mp h
    cases h
    obtain ⟨heach, htotal⟩ := (validateSizes_eq_ok_iff (Nat.zero_le _)).mp hsizes
    exact ⟨hfound, heach, by omega⟩
  · rintro ⟨hfound, heach, htotal⟩
    have hsizes : validateRequestMessageSizes 0 messages = .ok () :=
      (validateSizes_eq_ok_iff (Nat.zero_le _)).mpr ⟨heach, by omega⟩
    exact bind_eq_ok_iff.mpr ⟨messages, hfound, bind_eq_ok_iff.mpr ⟨(), hsizes, rfl⟩⟩

/-- The parts of a request are base64, of messages within the limits. -/
def Sendable (payload : GrpcPayload) : Prop :=
  ∃ messages, List.Forall₂ (fun part message => codecs.decodeBase64 (trim part) = .ok message)
    (base64Parts payload) messages ∧ WithinLimits messages

theorem decodeMessage_eq_ok_iff {value : String} {message : Bytes} :
    decodeMessage codecs value = .ok message ↔ codecs.decodeBase64 (trim value) = .ok message := by
  rw [decodeMessage]
  cases codecs.decodeBase64 (trim value) with
  | error e => exact iff_of_false (fun h => by cases h) fun h => by cases h
  | ok bytes => exact ⟨fun h => by cases h; rfl, fun h => by cases h; rfl⟩

variable {codecs library}

variable {payload : GrpcPayload} {method : Option Method}

theorem requestMessages_of_blank (hjson : filled payload.messageJson = none) :
    requestMessages codecs library payload method = .ok messages ↔
      List.Forall₂ (fun part message => codecs.decodeBase64 (trim part) = .ok message)
        (base64Parts payload) messages ∧ WithinLimits messages := by
  rw [requestMessages, hjson]
  dsimp only
  rw [checked_eq_ok_iff, mapM_eq_ok_iff]
  simp only [decodeMessage_eq_ok_iff]

theorem withinLimits_of_requestMessages
    (h : requestMessages codecs library payload method = .ok messages) : WithinLimits messages := by
  rw [requestMessages] at h
  split at h
  · split at h
    · cases h
    · obtain ⟨values, -, h⟩ := bind_eq_ok_iff.mp h
      exact (checked_eq_ok_iff.mp h).2
  · exact (checked_eq_ok_iff.mp h).2

/-! ## Validation against execution -/

/-- The errors that are not about messages. -/
def requestErrors : List String :=
  ["gRPC target must start with http:// or https://", "gRPC service and method are required",
    "gRPC mode must be unary, server_streaming, client_streaming or bidi_streaming"]

theorem head_append {first : String} (second : String) {c : Char}
    (h : first.toList.head? = some c) : (first ++ second).toList.head? = some c := by
  rw [String.toList_append, List.head?_append, h]
  rfl

/-- The text of an error says first what has failed. -/
theorem message_not_mem_requestErrors (e : DriverError) : e.message ∉ requestErrors := by
  have hrequest : ∀ text ∈ requestErrors, text.toList.head? = some 'g' := by
    rw [requestErrors, List.forall_mem_cons, List.forall_mem_cons, List.forall_mem_singleton]
    exact ⟨rfl, rfl, rfl⟩
  intro hmem
  have hhead := hrequest _ hmem
  cases e with
  | validation message => cases (head_append message rfl).symm.trans hhead
  | connection message => cases (head_append message rfl).symm.trans hhead
  | tls message => cases (head_append message rfl).symm.trans hhead
  | protocol message => cases (head_append message rfl).symm.trans hhead
  | timeout message => cases (head_append message rfl).symm.trans hhead
  | cancelled => cases hhead
  | internal message => cases (head_append message rfl).symm.trans hhead

theorem errorsOf_subset_iff {α : Type} {result : Except DriverError α} :
    (∀ error ∈ errorsOf result, error ∈ requestErrors) ↔ ∃ a, result = .ok a := by
  cases result with
  | ok a => exact iff_of_true (fun _ h => (List.not_mem_nil h).elim) ⟨a, rfl⟩
  | error e =>
    refine iff_of_false (fun h => ?_) fun ⟨a, h⟩ => by cases h
    exact message_not_mem_requestErrors e (h e.message List.mem_cons_self)

theorem targetErrors_subset (target : String) :
    ∀ error ∈ targetErrors target, error ∈ requestErrors := by
  rw [targetErrors]
  split
  · exact fun _ h => (List.not_mem_nil h).elim
  · exact List.forall_mem_singleton.mpr List.mem_cons_self

theorem nameErrors_subset (payload : GrpcPayload) :
    ∀ error ∈ nameErrors payload, error ∈ requestErrors := by
  rw [nameErrors]
  split
  · exact List.forall_mem_singleton.mpr (List.mem_cons_of_mem _ List.mem_cons_self)
  · exact fun _ h => (List.not_mem_nil h).elim

theorem modeErrors_subset (payload : GrpcPayload) :
    ∀ error ∈ modeErrors payload, error ∈ requestErrors := by
  rw [modeErrors]
  split
  · exact fun _ h => (List.not_mem_nil h).elim
  · exact List.forall_mem_singleton.mpr
      (List.mem_cons_of_mem _ (List.mem_cons_of_mem _ List.mem_cons_self))

/-- Validation finds nothing wrong with the messages. -/
def AcceptsMessages (codecs : Codecs) (library : DescriptorLibrary Pool Service Method)
    (request : RequestEnvelope) : Prop :=
  ∀ error ∈ validate codecs library request, error ∈ requestErrors

/-- With a descriptor, validation looks at the bytes of a request without JSON in two ways. -/
theorem acceptsMessages_iff {request : RequestEnvelope} {method : Method}
    (hpayload : request.payload = .grpc payload)
    (hmethod : methodDescriptor codecs library payload = .ok (some method)) :
    AcceptsMessages codecs library request ↔
      (filled payload.messageJson = none → (codecs.decodeBase64 payload.messageBase64).isOk = true) ∧
        ∃ messages, requestMessages codecs library payload (some method) = .ok messages := by
  have hdescriptor : (filled payload.descriptorSetBase64).isSome = true := by
    rw [methodDescriptor] at hmethod
    cases hfilled : filled payload.descriptorSetBase64 with
    | none =>
      rw [hfilled] at hmethod
      cases hmethod
    | some encoded => rfl
  have hbase64 : (∀ error ∈ base64Errors codecs payload, error ∈ requestErrors) ↔
      (filled payload.messageJson = none →
        (codecs.decodeBase64 payload.messageBase64).isOk = true) := by
    rw [base64Errors]
    split
    case isTrue h =>
      refine iff_of_false (fun hall => ?_) fun hok => ?_
      · exact absurd (hall _ List.mem_cons_self) (by decide)
      · rw [hok h.2.1] at h
        exact Bool.noConfusion h.2.2
    case isFalse h =>
      refine iff_of_true (fun _ hmem => (List.not_mem_nil hmem).elim) fun hjson => ?_
      rw [← Bool.not_eq_false]
      exact fun hfails => h ⟨hdescriptor, hjson, hfails⟩
  rw [AcceptsMessages, validate, hpayload]
  dsimp only
  rw [List.forall_mem_append, List.forall_mem_append, List.forall_mem_append,
    List.forall_mem_append, hbase64, messageErrors, hmethod]
  dsimp only
  rw [errorsOf_subset_iff]
  exact ⟨fun h => h.2.2.2, fun h => ⟨targetErrors_subset _, nameErrors_subset _,
    modeErrors_subset _, h⟩⟩

/-- What is documented of the decoder: nothing stands for no bytes, and no white space stands
within base64. -/
structure Base64Laws (codecs : Codecs) : Prop where
  empty : codecs.decodeBase64 "" = .ok []
  blank : ∀ text, text.toList.any isWhitespace = true → (codecs.decodeBase64 text).isOk = false

theorem lines_of_not_mem {text : List Char} (h : '\n' ∉ text) :
    lines text = if text = [] then [] else [text] := by
  suffices hall : ∀ line, linesFrom line text =
      if line ++ text = [] then [] else [line ++ text] from hall []
  induction text with
  | nil =>
    intro line
    rw [List.append_nil]
    rfl
  | cons c rest ih =>
    obtain ⟨hc, hrest⟩ := not_or.mp (fun hor => h (List.mem_cons.mpr hor))
    intro line
    rw [linesFrom, if_neg (Ne.symm hc), ih hrest, List.append_assoc]
    rfl

theorem trim_eq_self_of_solid {text : String}
    (hsolid : text.toList.any isWhitespace = false) : trim text = text := by
  have hnone : ∀ c ∈ text.toList, isWhitespace c = false := by
    rw [List.any_eq_false] at hsolid
    exact fun c hc => by simpa using hsolid c hc
  have hself : trimBy isWhitespace text.toList = text.toList :=
    trimBy_eq_self_iff.mpr ⟨fun c hc => hnone c (List.mem_of_mem_head? hc),
      fun c hc => hnone c (List.mem_of_getLast? hc)⟩
  rw [trim]
  exact (congrArg String.ofList hself).trans String.ofList_toList

/-- Without white space the whole text is the message, or there is none. -/
theorem base64Parts_of_solid (hsolid : payload.messageBase64.toList.any isWhitespace = false) :
    base64Parts payload = [payload.messageBase64] ∨
      payload.messageBase64 = "" ∧ base64Parts payload = [] := by
  have hline : '\n' ∉ payload.messageBase64.toList := fun hmem => by
    rw [List.any_eq_false] at hsolid
    exact hsolid _ hmem (by decide)
  rw [base64Parts]
  split
  · rw [lines_of_not_mem hline]
    by_cases hempty : payload.messageBase64 = ""
    · rw [hempty]
      exact .inr ⟨rfl, rfl⟩
    · have hne : payload.messageBase64.toList ≠ [] := fun h => hempty (String.toList_eq_nil_iff.mp h)
      have hkeep : trim payload.messageBase64 ≠ "" := by
        rw [trim_eq_self_of_solid hsolid]
        exact hempty
      rw [if_neg hne, List.map_singleton, String.ofList_toList]
      exact .inl (List.filter_eq_self.mpr (List.forall_mem_singleton.mpr (decide_eq_true hkeep)))
  · exact .inl rfl

/-- Validation and execution agree about the messages of a request with a descriptor, unless it
has its messages in base64 with white space, and they can be sent. What is sent is within the
limit. -/
theorem validate_agrees_iff (laws : Base64Laws codecs) {request : RequestEnvelope}
    {payload : GrpcPayload} {method : Method} (hpayload : request.payload = .grpc payload)
    (hmethod : methodDescriptor codecs library payload = .ok (some method)) :
    (AcceptsMessages codecs library request ↔
        ∃ messages, requestMessages codecs library payload (some method) = .ok messages) ∧
      (∀ messages, requestMessages codecs library payload (some method) = .ok messages →
        (messages.flatMap encodeFrame).length ≤ maxRequestBytes) ↔
      (filled payload.messageJson).isSome = true ∨
        payload.messageBase64.toList.any isWhitespace = false ∨ ¬Sendable codecs payload := by
  have hlimit : ∀ messages, requestMessages codecs library payload (some method) = .ok messages →
      (messages.flatMap encodeFrame).length ≤ maxRequestBytes := fun messages h =>
    (withinLimits_of_requestMessages h).total
  rw [and_iff_left hlimit, acceptsMessages_iff hpayload hmethod]
  cases hjson : filled payload.messageJson with
  | some json =>
    refine iff_of_true ⟨fun h => h.2, fun h => ⟨fun hnone => ?_, h⟩⟩ (.inl rfl)
    cases hnone
  | none =>
    have hsend : (∃ messages, requestMessages codecs library payload (some method) =
        .ok messages) ↔ Sendable codecs payload :=
      exists_congr fun messages => requestMessages_of_blank hjson
    rw [hsend]
    cases hsolid : payload.messageBase64.toList.any isWhitespace with
    | false =>
      refine iff_of_true ⟨fun h => h.2, fun h => ⟨fun _ => ?_, h⟩⟩ (.inr (.inl rfl))
      rcases base64Parts_of_solid hsolid with hparts | ⟨hempty, -⟩
      · obtain ⟨messages, hall, -⟩ := h
        rw [hparts] at hall
        obtain ⟨message, -, hdecode, -⟩ := List.forall₂_cons_left_iff.mp hall
        rw [trim_eq_self_of_solid hsolid] at hdecode
        rw [hdecode]
        rfl
      · rw [hempty, laws.empty]
        rfl
    | true =>
      have hfails := laws.blank _ hsolid
      constructor
      · intro h
        refine .inr (.inr fun hsendable => ?_)
        have hok := (h.mpr hsendable).1 rfl
        rw [hfails] at hok
        cases hok
      · rintro (h | h | h)
        · cases h
        · cases h
        · exact ⟨fun hboth => hboth.2, fun hsendable => absurd hsendable h⟩

end Preparing

/-! ### A sample call -/

/-- A decoder that knows two texts. -/
def sampleCodecs : Codecs where
  encodeBase64 _ := ""
  decodeBase64 text :=
    if text.toList.any isWhitespace = true then .error "Invalid symbol"
    else if text = "" then .ok []
    else if text = "aGk=" then .ok [0x68, 0x69]
    else if text = "AA==" then .ok [0]
    else .error "Invalid padding"
  pretty _ := ""
  isFloat _ _ := false

theorem sampleCodecs_laws : Base64Laws sampleCodecs where
  empty := rfl
  blank text h := by
    change Except.isOk (if text.toList.any isWhitespace = true then _ else _) = false
    rw [if_pos h]
    rfl

def sampleLibrary : DescriptorLibrary Unit Unit Unit where
  decodePool _ := .ok ()
  getServiceByName _ _ := some ()
  methods _ := [("Say", ())]
  parseJson _ := .ok .null
  jsonText _ := .ok "null"
  encodeInput _ _ := .ok []

def samplePayload (mode text : String) : GrpcPayload where
  service := "test.Echo"
  method := "Say"
  messageBase64 := text
  mode := mode
  metadata := []
  descriptorSetBase64 := some "AA=="
  messageJson := none

def sampleRequest (mode text : String) : RequestEnvelope :=
  { RequestEnvelope.httpGet "request" "now" "gRPC" "http://localhost" with
    payload := .grpc (samplePayload mode text) }

/-- A message on one line is accepted and sent. -/
theorem validate_agrees_sample :
    AcceptsMessages sampleCodecs sampleLibrary (sampleRequest "unary" "aGk=") ∧
      requestMessages sampleCodecs sampleLibrary (samplePayload "unary" "aGk=") (some ()) =
        .ok [[0x68, 0x69]] := by
  have hsent : requestMessages sampleCodecs sampleLibrary (samplePayload "unary" "aGk=")
      (some ()) = .ok [[0x68, 0x69]] := by decide +kernel
  have hmethod : methodDescriptor sampleCodecs sampleLibrary (samplePayload "unary" "aGk=") =
      .ok (some ()) := by decide +kernel
  have hagrees := (validate_agrees_iff sampleCodecs_laws
    (show (sampleRequest "unary" "aGk=").payload = .grpc (samplePayload "unary" "aGk=") from rfl)
    hmethod).mpr (.inr (.inl (by decide)))
  exact ⟨hagrees.1.mpr ⟨_, hsent⟩, hsent⟩

/-- Two messages of a streaming call are sent, and refused by validation. -/
theorem validate_agrees_not :
    ¬∀ (codecs : Codecs) (library : DescriptorLibrary Unit Unit Unit) (request : RequestEnvelope)
      (payload : GrpcPayload) (method : Unit), Base64Laws codecs →
      request.payload = .grpc payload →
      methodDescriptor codecs library payload = .ok (some method) →
      (AcceptsMessages codecs library request ↔
        ∃ messages, requestMessages codecs library payload (some method) = .ok messages) := by
  intro h
  have hmethod : methodDescriptor sampleCodecs sampleLibrary
      (samplePayload "client_streaming" "aGk=\naGk=") = .ok (some ()) := by decide +kernel
  have hagrees := h sampleCodecs sampleLibrary (sampleRequest "client_streaming" "aGk=\naGk=") _ _
    sampleCodecs_laws rfl hmethod
  have hsent : requestMessages sampleCodecs sampleLibrary
      (samplePayload "client_streaming" "aGk=\naGk=") (some ()) =
        .ok [[0x68, 0x69], [0x68, 0x69]] := by decide +kernel
  have haccepted := (acceptsMessages_iff rfl hmethod).mp (hagrees.mpr ⟨_, hsent⟩)
  exact absurd (haccepted.1 rfl) (by decide +kernel)

end ApiVoy.Drivers.Grpc
