/-
# Remote calls as HTTP requests

JSON-RPC and SOAP calls are sent as HTTP requests. The headers of the user stay in front of those
that are added. A JSON-RPC call gets a content type when there is none; a SOAP call always gets that
of its version, beside one that the user has given.
-/

import ApiVoy.Domain.Request
import ApiVoy.Engine.Outcome
import ApiVoy.Foundation.JsonText
import ApiVoy.Foundation.Text

namespace ApiVoy.Drivers.RpcHttp

open Foundation Domain Engine

inductive Kind where
  | soap
  | jsonRpc

/-! ## The payload -/

def stringHeaders (payload : Json) : List (String × String) :=
  (((payload.get "headers").bind Json.asArray).getD []).filterMap fun entry =>
    entry.asArray.bind fun pair =>
      (pair[0]?.bind Json.asStr).bind fun name => (pair[1]?.bind Json.asStr).map (name, ·)

def rawValue (payload : Json) : Json := (payload.get "value").getD payload

def textOf (payload : Json) (name default : String) : String :=
  ((payload.get name).bind Json.asStr).getD default

/-- What is called; the members of an object are written in the order of their names. -/
def call (payload : Json) : Json :=
  .obj [("id", (payload.get "id").getD (.num 1)), ("jsonrpc", .str "2.0"),
    ("method", .str (textOf payload "method" "")),
    ("params", (payload.get "params").getD (.obj []))]

def isContentType (header : String × String) : Bool :=
  eqIgnoreAsciiCase header.1 "content-type"

def soapType (payload : Json) : String :=
  if textOf payload "version" "1.2" = "1.1" then "text/xml; charset=utf-8"
  else "application/soap+xml; charset=utf-8"

/-- The header that names the action, if there is one. -/
def actionHeaders (payload : Json) : List (String × String) :=
  let action := textOf payload "action" ""
  if action = "" then [] else [("SOAPAction", action)]

/-! ## The request -/

section Requests

variable (shown : Rat → List Char)

/-- The headers and the body of a call, before there is a content type for certain. -/
def message : Kind → Json → List (String × String) × String
  | .soap, payload =>
    (stringHeaders payload ++ [("Content-Type", soapType payload)] ++ actionHeaders payload,
      textOf payload "envelope" "")
  | .jsonRpc, payload =>
    (stringHeaders payload, String.ofList (JsonText.render shown 0 0 (call payload)))

def withContentType (headers : List (String × String)) : List (String × String) :=
  if headers.any isContentType then headers else headers ++ [("Content-Type", "application/json")]

def httpPayload (kind : Kind) (payload : Json) : HttpPayload where
  method := "POST"
  headers := withContentType (message shown kind payload).1
  body := some (message shown kind payload).2
  bodyEncoding := "text"
  bodySource := none
  multipart := []
  followRedirects := true

def toHttp (kind : Kind) (request : RequestEnvelope) : Except DriverError RequestEnvelope :=
  match request.payload with
  | .raw payload => .ok { request with
      protocolId := "http"
      payload := .http (httpPayload shown kind (rawValue payload)) }
  | _ => .error (.validation "RPC driver requires raw payload")

/-! ## What is read back -/

/-- The texts of a call are in the request: those of JSON-RPC in the members of the body, those of
SOAP in the body and in the header for the action, the last one of its name. -/
def ReadsBack : Kind → Json → HttpPayload → Prop
  | .jsonRpc, payload, http => ∃ body written, http.body = some body ∧
      JsonText.parseChars body.toList = some written ∧
      written.get "method" = some (.str (textOf payload "method" "")) ∧
      written.get "params" = some ((payload.get "params").getD (.obj [])) ∧
      written.get "id" = some ((payload.get "id").getD (.num 1))
  | .soap, payload, http => http.body = some (textOf payload "envelope" "") ∧
      (textOf payload "action" "" ≠ "" →
        (http.headers.filter fun header => eqIgnoreAsciiCase header.1 "SOAPAction").getLast? =
          some ("SOAPAction", textOf payload "action" ""))

/-- One content type, that of the user if there is one; the user's headers in their order; and a
message that is read back. -/
structure Mapped (kind : Kind) (payload : Json) (http : HttpPayload) : Prop where
  one : (http.headers.filter isContentType).length = 1
  own : (stringHeaders payload).filter isContentType ≠ [] →
    http.headers.filter isContentType = (stringHeaders payload).filter isContentType
  headers : stringHeaders payload <+: http.headers
  message : ReadsBack kind payload http

/-- How many content types the user may give. -/
def Kind.ownTypes : Kind → ℕ
  | .jsonRpc => 1
  | .soap => 0

variable {shown}

theorem isContentType_added (value : String) : isContentType ("Content-Type", value) = true := by
  change eqIgnoreAsciiCase "Content-Type" "content-type" = true
  decide

variable {payload : Json}

theorem isContentType_action : (actionHeaders payload).filter isContentType = [] := by
  unfold actionHeaders
  dsimp only
  split
  · rfl
  · have hother : ¬eqIgnoreAsciiCase "SOAPAction" "content-type" = true := by decide
    exact List.filter_cons_of_neg hother

theorem withContentType_soap (payload : Json) :
    withContentType (message shown .soap payload).1 = (message shown .soap payload).1 := by
  refine if_pos (List.any_eq_true.mpr ⟨("Content-Type", soapType payload), ?_,
    isContentType_added _⟩)
  exact List.mem_append_left _ (List.mem_append_right _ List.mem_cons_self)

/-- The content types of a request: those of the user, and the added one. -/
theorem contentTypes_soap (payload : Json) :
    (httpPayload shown .soap payload).headers.filter isContentType =
      (stringHeaders payload).filter isContentType ++ [("Content-Type", soapType payload)] := by
  rw [httpPayload, withContentType_soap, message, List.filter_append, List.filter_append,
    isContentType_action, List.append_nil]
  exact congrArg _ (List.filter_cons_of_pos (isContentType_added _))

theorem contentTypes_jsonRpc (payload : Json) :
    (httpPayload shown .jsonRpc payload).headers.filter isContentType =
      if (stringHeaders payload).filter isContentType = [] then
        [("Content-Type", "application/json")]
      else (stringHeaders payload).filter isContentType := by
  rw [httpPayload, withContentType, message]
  by_cases hnone : (stringHeaders payload).filter isContentType = []
  · have hany : (stringHeaders payload).any isContentType ≠ true := by
      rw [ne_eq, List.any_eq_true]
      rintro ⟨header, hmem, htype⟩
      exact List.filter_eq_nil_iff.mp hnone header hmem htype
    rw [if_pos hnone, if_neg hany, List.filter_append, hnone, List.nil_append]
    exact List.filter_cons_of_pos (isContentType_added _)
  · have ⟨header, hmem⟩ := List.exists_mem_of_ne_nil _ hnone
    rw [List.mem_filter] at hmem
    rw [if_neg hnone, if_pos (List.any_eq_true.mpr ⟨header, hmem⟩)]

theorem headers_prefix (kind : Kind) (payload : Json) :
    stringHeaders payload <+: (httpPayload shown kind payload).headers := by
  cases kind with
  | soap =>
    rw [httpPayload, withContentType_soap, message, List.append_assoc]
    exact List.prefix_append _ _
  | jsonRpc =>
    unfold httpPayload withContentType message
    dsimp only
    split
    · exact List.prefix_rfl
    · exact List.prefix_append _ _

/-- What is called is read back if the numbers in it are, and if its objects have each name once. -/
theorem printable_call (hid : JsonText.printable shown ((payload.get "id").getD (.num 1)) = true)
    (hparams : JsonText.printable shown ((payload.get "params").getD (.obj [])) = true) :
    JsonText.printable shown (call payload) = true := by
  have hnames : ["id", "jsonrpc", "method", "params"].Nodup := by decide
  simp [call, JsonText.printable, JsonText.membersPrintable, hid, hparams]

theorem readsBack (kind : Kind)
    (hid : kind = .jsonRpc → JsonText.printable shown ((payload.get "id").getD (.num 1)) = true)
    (hparams : kind = .jsonRpc →
      JsonText.printable shown ((payload.get "params").getD (.obj [])) = true) :
    ReadsBack kind payload (httpPayload shown kind payload) := by
  cases kind with
  | jsonRpc =>
    refine ⟨_, call payload, rfl, ?_, ?_, ?_, ?_⟩
    · rw [message, String.toList_ofList]
      exact JsonText.parseChars_render 0 0 (printable_call (hid rfl) (hparams rfl))
    all_goals simp [call, Json.get, Json.member?]
  | soap =>
    refine ⟨rfl, fun haction => ?_⟩
    have hlast : actionHeaders payload = [("SOAPAction", textOf payload "action" "")] :=
      if_neg haction
    have hname : eqIgnoreAsciiCase "SOAPAction" "SOAPAction" = true := by decide
    rw [httpPayload, withContentType_soap, message, hlast, List.filter_append]
    simp [hname]

/-- A call is mapped well exactly when the user has given one content type at most for JSON-RPC,
and none for SOAP. -/
theorem toHttp_mapped_iff (shown : Rat → List Char) (kind : Kind) (request : RequestEnvelope)
    (payload : Json) (hraw : request.payload = .raw payload)
    (hid : kind = .jsonRpc →
      JsonText.printable shown (((rawValue payload).get "id").getD (.num 1)) = true)
    (hparams : kind = .jsonRpc →
      JsonText.printable shown (((rawValue payload).get "params").getD (.obj [])) = true) :
    (∃ http, toHttp shown kind request =
        .ok { request with protocolId := "http", payload := .http http } ∧
      Mapped kind (rawValue payload) http) ↔
      ((stringHeaders (rawValue payload)).filter isContentType).length ≤ kind.ownTypes := by
  have hsent : toHttp shown kind request = .ok { request with
      protocolId := "http"
      payload := .http (httpPayload shown kind (rawValue payload)) } := by
    rw [toHttp, hraw]
  rw [hsent]
  constructor
  · rintro ⟨http, hhttp, hmapped⟩
    cases hhttp
    have hone := hmapped.one
    cases kind with
    | soap =>
      rw [contentTypes_soap, List.length_append, List.length_singleton] at hone
      exact Nat.le_of_eq (Nat.add_right_cancel hone)
    | jsonRpc =>
      rw [contentTypes_jsonRpc] at hone
      split at hone
      case isTrue hnone => simp [hnone]
      case isFalse => exact Nat.le_of_eq hone
  · intro htypes
    refine ⟨_, rfl, ?_, ?_, headers_prefix kind _, readsBack kind hid hparams⟩
    · cases kind with
      | soap =>
        rw [contentTypes_soap, List.length_append, Nat.le_zero.mp htypes]
        rfl
      | jsonRpc =>
        rw [contentTypes_jsonRpc]
        split
        case isTrue => rfl
        case isFalse hsome => exact Nat.le_antisymm htypes (List.length_pos_iff.mpr hsome)
    · intro hsome
      cases kind with
      | soap => exact absurd (List.length_eq_zero_iff.mp (Nat.le_zero.mp htypes)) hsome
      | jsonRpc => rw [contentTypes_jsonRpc, if_neg hsome]

end Requests

/-- A SOAP call with a content type of its own. -/
def typedCall : Json := .obj [("envelope", .str "<e/>"),
  ("headers", .arr [.arr [.str "content-type", .str "text/xml"]])]

/-- A JSON-RPC call with parameters, an id, and headers of its own. -/
def listCall : Json := .obj [("method", .str "list"), ("params", .obj [("limit", .num 5)]),
  ("id", .num 7), ("headers", .arr [.arr [.str "X-Trace", .str "a"],
    .arr [.str "content-type", .str "application/json; charset=utf-8"]])]

theorem toHttp_mapped_iff_plain :
    ∃ http, toHttp (fun _ => []) .jsonRpc { RequestEnvelope.httpGet "" "" "" "" with
          payload := .raw listCall } =
        .ok { RequestEnvelope.httpGet "" "" "" "" with protocolId := "http", payload := .http http } ∧
      Mapped .jsonRpc listCall http :=
  (toHttp_mapped_iff (fun _ => []) .jsonRpc { RequestEnvelope.httpGet "" "" "" "" with
    payload := .raw listCall } _ rfl (fun _ => by decide +kernel) (fun _ => by decide +kernel)).mpr
      (by decide)

/-- A SOAP call with a content type of its own gets another one. -/
theorem toHttp_mapped_not : ¬∀ shown kind request payload sent http,
    request.payload = .raw payload → toHttp shown kind request = .ok sent →
      sent.payload = .http http → Mapped kind (rawValue payload) http := by
  intro h
  have hone := (h (fun _ => []) .soap
    { RequestEnvelope.httpGet "" "" "" "" with payload := .raw typedCall } typedCall _ _ rfl rfl rfl).one
  rw [contentTypes_soap, List.length_append] at hone
  exact absurd hone (by decide)

end ApiVoy.Drivers.RpcHttp
