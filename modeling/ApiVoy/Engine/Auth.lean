/-
# Authentication

The credential of a request is computed from its secrets and its variables, and for some kinds
with the help of a token endpoint. It is put into the headers of a request or into its metadata
in place of what is there under the same name. A socket and a raw value have neither.
-/

import ApiVoy.Engine.Outcome
import ApiVoy.Engine.Templates

namespace ApiVoy.Engine

open Domain Foundation

/-! ## Secrets -/

/-- The variables of an execution, and the secrets that its host has looked up. -/
structure ExecutionScope extends VariableScope where
  secrets : StringMap

def resolveSecret (scope : ExecutionScope) (vars : StringMap) (name : String) :
    Except AuthError String :=
  match scope.secrets.lookup name with
  | some value => .ok value
  | none =>
    match vars.lookup name with
    | some value => .ok value
    | none => .error (.secretNotFound name)

/-- A text of the configuration that must be there and must not be empty. -/
def required (text : Option String) (error : AuthError) : Except AuthError String :=
  match text.filter (· ≠ "") with
  | some text => .ok text
  | none => .error error

/-! ## Token endpoints -/

structure TokenRequest where
  noProxy : Bool
  url : String
  basicAuth : Option (String × String)
  form : List (String × String)
  timeoutMs : Nat
  deriving DecidableEq

/-- The answer of a token endpoint. Reading its body can fail. -/
structure TokenAnswer where
  status : Nat
  statusText : String
  body : Except String String

structure OAuthTokenResponse where
  accessToken : String
  tokenType : Option String
  deriving DecidableEq

/-- What authentication takes from its libraries and from the network. The values of the dynamic
tokens are drawn by the number of the template and by the place in it. -/
structure AuthLibrary where
  draws : Nat → Nat → Dynamics
  encodeBase64 : String → String
  /-- The host of a URL, if it is one and has one. -/
  hostOf : String → Option String
  /-- Is a text an address of the loopback interface? -/
  isLoopbackAddress : String → Bool
  /-- Why a client cannot be built. -/
  buildError : Option String
  send : TokenRequest → Except String TokenAnswer
  readToken : String → Except String OAuthTokenResponse

section Credentials

variable (library : AuthLibrary)

def isLoopback (host : String) : Bool :=
  eqIgnoreAsciiCase host "localhost" || library.isLoopbackAddress host

/-- A client for a token endpoint: does it go past the proxy? -/
def oauthClient (tokenUrl : String) : Except AuthError Bool :=
  match library.buildError with
  | some error => .error (.tokenEndpoint error)
  | none => .ok ((library.hostOf tokenUrl).any (isLoopback library))

/-- The value of a header for the token that an endpoint issues. -/
def exchangeToken (request : TokenRequest) : Except AuthError String :=
  match library.send request with
  | .error error => .error (.tokenEndpoint error)
  | .ok answer =>
    match answer.body with
    | .error error => .error (.tokenResponse error)
    | .ok body =>
      if ¬(200 ≤ answer.status ∧ answer.status < 300) then
        .error (.tokenEndpoint ("HTTP " ++ answer.statusText ++ ": " ++ body))
      else
        match library.readToken body with
        | .error error => .error (.tokenResponse error)
        | .ok token =>
          if trim token.accessToken = "" then
            .error (.tokenResponse "access_token is empty")
          else
            .ok ((token.tokenType.filter fun text => trim text ≠ "").getD "Bearer" ++ " " ++
              token.accessToken)

variable (request : RequestEnvelope) (scope : ExecutionScope) (auth : AuthRef)

/-- The variables of the request come before those of the scopes. -/
def authVariables : StringMap := request.vars ∪ scope.merged

def resolveAuth (template : Nat) (text : String) : Except AuthError String :=
  match Template.resolveTemplate (library.draws template) (authVariables request scope) text with
  | .ok text => .ok text
  | .error name => .error (.resolve (ResolveError.unresolved name).text)

def lookUpSecret (name : String) : Except AuthError String :=
  resolveSecret scope (authVariables request scope) name

/-- A text that may be left out. -/
def resolveParameter (template : Nat) (name : String) (text : Option String) :
    Except AuthError (List (String × String)) :=
  match text.filter fun text => trim text ≠ "" with
  | none => .ok []
  | some text => do
    let value ← resolveAuth library request scope template text
    return [(name, value)]

/-- Credentials have the name of a header and its value. -/
def bearerCredential : Except AuthError (String × String) := do
  let token ← match auth.token.filter (· ≠ "") with
    | some token => resolveAuth library request scope 0 token
    | none => do
      let name ← required auth.secretRef .missingSecretRef
      lookUpSecret request scope name
  return ("Authorization", "Bearer " ++ token)

def basicCredential : Except AuthError (String × String) := do
  let usernameRaw ← required auth.username .missingUsername
  let username ← resolveAuth library request scope 0 usernameRaw
  let name ← required auth.secretRef .missingSecretRef
  let password ← lookUpSecret request scope name
  return ("Authorization", "Basic " ++ library.encodeBase64 (username ++ ":" ++ password))

def apiKeyCredential : Except AuthError (String × String) := do
  let name ← required auth.secretRef .missingSecretRef
  let value ← lookUpSecret request scope name
  let header ← resolveAuth library request scope 0
    ((auth.headerName.filter (· ≠ "")).getD "X-Api-Key")
  return (header, value)

def clientCredential : Except AuthError (String × String) := do
  let clientIdRaw ← required auth.username .missingUsername
  let clientId ← resolveAuth library request scope 0 clientIdRaw
  let secretName ← required auth.secretRef .missingSecretRef
  let clientSecret ← lookUpSecret request scope secretName
  let tokenUrlRaw ← required auth.tokenUrl (.tokenEndpoint "token_url is required")
  let tokenUrl ← resolveAuth library request scope 1 tokenUrlRaw
  let scopes ← resolveParameter library request scope 2 "scope" auth.scope
  let audience ← resolveParameter library request scope 3 "audience" auth.audience
  let noProxy ← oauthClient library tokenUrl
  let value ← exchangeToken library {
    noProxy := noProxy
    url := tokenUrl
    basicAuth := some (clientId, clientSecret)
    form := ("grant_type", "client_credentials") :: (scopes ++ audience)
    timeoutMs := max request.timeoutMs.toNat 1 }
  return ("Authorization", value)

/-- A public client has no secret. -/
def clientSecret (clientId : String) : Except AuthError (Option (String × String)) :=
  match auth.secretRef.filter (· ≠ "") with
  | none => .ok none
  | some name => do
    let secret ← lookUpSecret request scope name
    return some (clientId, secret)

def codeCredential : Except AuthError (String × String) := do
  let clientIdRaw ← required auth.username .missingUsername
  let clientId ← resolveAuth library request scope 0 clientIdRaw
  let tokenUrlRaw ← required auth.tokenUrl (.tokenEndpoint "token_url is required")
  let tokenUrl ← resolveAuth library request scope 1 tokenUrlRaw
  let redirectUriRaw ← required auth.redirectUri (.tokenEndpoint "redirect_uri is required")
  let redirectUri ← resolveAuth library request scope 2 redirectUriRaw
  let codeRef ← required auth.authorizationCodeRef
    (.tokenEndpoint "authorization_code_ref is required")
  let verifierRef ← required auth.codeVerifierRef
    (.tokenEndpoint "code_verifier_ref is required")
  let code ← lookUpSecret request scope codeRef
  let verifier ← lookUpSecret request scope verifierRef
  let noProxy ← oauthClient library tokenUrl
  let basicAuth ← clientSecret request scope auth clientId
  let value ← exchangeToken library {
    noProxy := noProxy
    url := tokenUrl
    basicAuth := basicAuth
    form := [("grant_type", "authorization_code"), ("client_id", clientId), ("code", code),
      ("redirect_uri", redirectUri), ("code_verifier", verifier)]
    timeoutMs := max request.timeoutMs.toNat 1 }
  return ("Authorization", value)

/-- The kind of authentication, without regard to white space around it and to case. -/
def authKind : String := String.ofList ((trim auth.kind).toList.map Char.toLower)

def credentialOf : Except AuthError (String × String) :=
  let kind := authKind auth
  if kind = "bearer" then bearerCredential library request scope auth
  else if kind = "basic" then basicCredential library request scope auth
  else if kind = "api_key" ∨ kind = "apikey" then apiKeyCredential library request scope auth
  else if kind = "oauth2_client_credentials" ∨ kind = "oauth2-client-credentials" then
    clientCredential library request scope auth
  else if kind = "oauth2_authorization_code" ∨ kind = "oauth2-authorization-code" then
    codeCredential library request scope auth
  else .error (.unsupportedKind kind)

end Credentials

/-! ## Injection -/

def isNamed (name : String) (entry : String × String) : Bool := eqIgnoreAsciiCase entry.1 name

/-- Remove the entries of a name and put one at the end. -/
def setEntry (name value : String) (entries : List (String × String)) : List (String × String) :=
  entries.filter (!isNamed name ·) ++ [(name, value)]

def injectHeader (request : RequestEnvelope) (name value : String) : RequestEnvelope :=
  match request.payload with
  | .http payload =>
    { request with
      payload := .http { payload with headers := setEntry name value payload.headers } }
  | .sse payload =>
    { request with
      payload := .sse { payload with headers := setEntry name value payload.headers } }
  | .tcp _ | .udp _ => request
  | .graphql payload =>
    { request with
      payload := .graphql { payload with headers := setEntry name value payload.headers } }
  | .websocket payload =>
    { request with
      payload := .websocket { payload with headers := setEntry name value payload.headers } }
  | .grpc payload =>
    { request with
      payload := .grpc { payload with metadata := setEntry name value payload.metadata } }
  | .raw _ => request

/-- Every kind of credential is injected in the same way. -/
def applyAuth (library : AuthLibrary) (request : RequestEnvelope) (scope : ExecutionScope) :
    Except AuthError RequestEnvelope :=
  match request.authRef with
  | none => .ok request
  | some auth =>
    if authKind auth = "" ∨ authKind auth = "none" then .ok request
    else do
      let credential ← credentialOf library request scope auth
      return injectHeader request credential.1 credential.2

/-! ## One credential -/

/-- The headers or the metadata of a payload that has some. -/
def entriesOf : ProtocolPayload → Option (List (String × String))
  | .http payload => some payload.headers
  | .sse payload => some payload.headers
  | .graphql payload => some payload.headers
  | .websocket payload => some payload.headers
  | .grpc payload => some payload.metadata
  | .tcp _ | .udp _ | .raw _ => none

/-- The payload with other headers or other metadata. -/
def withEntries (entries : List (String × String)) : ProtocolPayload → ProtocolPayload
  | .http payload => .http { payload with headers := entries }
  | .sse payload => .sse { payload with headers := entries }
  | .graphql payload => .graphql { payload with headers := entries }
  | .websocket payload => .websocket { payload with headers := entries }
  | .grpc payload => .grpc { payload with metadata := entries }
  | payload => payload

/-- The request carries the credential once, and nothing else of it is changed. -/
structure CarriesOnce (credential : String × String) (request resolved : RequestEnvelope)
    (before after : List (String × String)) : Prop where
  entries : entriesOf request.payload = some before
  carried : entriesOf resolved.payload = some after
  once : after.filter (isNamed credential.1) = [credential]
  others : after.filter (!isNamed credential.1 ·) = before.filter (!isNamed credential.1 ·)
  rest : resolved = { request with payload := withEntries after request.payload }

variable (name value : String)

theorem isNamed_self : isNamed name (name, value) = true :=
  decide_eq_true rfl

theorem filter_isNamed_setEntry (entries : List (String × String)) :
    (setEntry name value entries).filter (isNamed name) = [(name, value)] := by
  have hnone : (entries.filter (!isNamed name ·)).filter (isNamed name) = [] := by
    rw [List.filter_filter]
    refine List.filter_eq_nil_iff.mpr fun entry _ => ?_
    cases isNamed name entry <;> decide
  rw [setEntry, List.filter_append, hnone, List.nil_append, List.filter_cons,
    if_pos (isNamed_self name value), List.filter_nil]

theorem filter_not_isNamed_setEntry (entries : List (String × String)) :
    (setEntry name value entries).filter (!isNamed name ·) =
      entries.filter (!isNamed name ·) := by
  have hlast : [(name, value)].filter (!isNamed name ·) = [] := by
    rw [List.filter_cons, isNamed_self]
    rfl
  rw [setEntry, List.filter_append, hlast, List.append_nil, List.filter_filter]
  exact List.filter_congr fun entry _ => Bool.and_self _

/-- Where there are entries, the one that is injected is set among them. -/
theorem injectHeader_of_some {request : RequestEnvelope} {before : List (String × String)}
    (h : entriesOf request.payload = some before) (name value : String) :
    CarriesOnce (name, value) request (injectHeader request name value) before
      (setEntry name value before) := by
  have hinject : injectHeader request name value =
        { request with payload := withEntries (setEntry name value before) request.payload } ∧
      entriesOf (withEntries (setEntry name value before) request.payload) =
        some (setEntry name value before) := by
    unfold injectHeader
    cases hpayload : request.payload <;> rw [hpayload] at h <;> cases h <;> exact ⟨rfl, rfl⟩
  exact {
    entries := h
    carried := by rw [hinject.1]; exact hinject.2
    once := filter_isNamed_setEntry name value before
    others := filter_not_isNamed_setEntry name value before
    rest := hinject.1 }

theorem injectHeader_of_none {request : RequestEnvelope} (h : entriesOf request.payload = none)
    (name value : String) : injectHeader request name value = request := by
  unfold injectHeader
  cases hpayload : request.payload <;> rw [hpayload] at h <;> first | rfl | cases h

section Application

variable {library : AuthLibrary} {request : RequestEnvelope} {scope : ExecutionScope}
  {auth : AuthRef}

/-- Authentication fails when the credential cannot be computed. Else a request with headers or
metadata carries it exactly once, with all other entries in order and nothing else changed, and
any other request is what it was. -/
theorem applyAuth_once (hauth : request.authRef = some auth)
    (hkind : authKind auth ≠ "" ∧ authKind auth ≠ "none") :
    (∀ error, applyAuth library request scope = .error error ↔
      credentialOf library request scope auth = .error error) ∧
      ∀ resolved, applyAuth library request scope = .ok resolved →
        ∃ credential, credentialOf library request scope auth = .ok credential ∧
          ((∃ before after, CarriesOnce credential request resolved before after) ∨
            entriesOf request.payload = none ∧ resolved = request) := by
  have happly : applyAuth library request scope =
      (credentialOf library request scope auth).map fun credential =>
        injectHeader request credential.1 credential.2 := by
    have hnot : ¬(authKind auth = "" ∨ authKind auth = "none") := not_or.mpr hkind
    unfold applyAuth
    rw [hauth]
    dsimp only
    rw [if_neg hnot]
    cases credentialOf library request scope auth <;> rfl
  rw [happly]
  cases credentialOf library request scope auth with
  | error error =>
    refine ⟨fun other => ?_, fun resolved heq => by cases heq⟩
    rw [Except.map, Except.error.injEq, Except.error.injEq]
  | ok credential =>
    refine ⟨fun error => iff_of_false (fun heq => nomatch heq) (fun heq => nomatch heq),
      fun resolved heq => ⟨credential, rfl, ?_⟩⟩
    cases heq
    cases hentries : entriesOf request.payload with
    | some before =>
      exact .inl ⟨before, _, injectHeader_of_some hentries credential.1 credential.2⟩
    | none => exact .inr ⟨rfl, injectHeader_of_none hentries credential.1 credential.2⟩

end Application

/-! ### A bearer token -/

/-- A network on which nothing answers. -/
def offlineLibrary : AuthLibrary where
  draws _ _ := ⟨"uuid", "timestamp", "isoTimestamp"⟩
  encodeBase64 text := text
  hostOf _ := none
  isLoopbackAddress _ := false
  buildError := none
  send _ := .error "connection refused"
  readToken _ := .error "expected value"

def bearerAuth : AuthRef where
  kind := "Bearer"
  secretRef := some "token"
  token := none
  username := none
  headerName := none
  tokenUrl := none
  scope := none
  audience := none
  authorizationUrl := none
  redirectUri := none
  authorizationCodeRef := none
  codeVerifierRef := none

def bearerScope : ExecutionScope := ⟨⟨∅, ∅, ∅, ∅⟩, AList.singleton "token" "fresh"⟩

/-- A request for a socket or for a server, as its payload has it. -/
def bearerRequest (payload : ProtocolPayload) : RequestEnvelope :=
  { RequestEnvelope.httpGet "request" "now" "user" "https://example.com" with
    authRef := some bearerAuth
    payload := payload }

def staleHeaders : ProtocolPayload :=
  .sse ⟨[("AUTHORIZATION", "stale"), ("Accept", "text/plain"), ("authorization", "old")], none, 0, 0⟩

/-- The token takes the place of what is there in any case. -/
theorem applyAuth_once_bearer :
    ∃ resolved, applyAuth offlineLibrary (bearerRequest staleHeaders) bearerScope = .ok resolved ∧
      ∃ credential,
        credentialOf offlineLibrary (bearerRequest staleHeaders) bearerScope bearerAuth =
            .ok credential ∧
          ((∃ before after, CarriesOnce credential (bearerRequest staleHeaders) resolved before
              after) ∨
            entriesOf staleHeaders = none ∧ resolved = bearerRequest staleHeaders) :=
  ⟨_, rfl, (applyAuth_once rfl (by decide +kernel)).2 _ rfl⟩

/-- A token for a socket is dropped. -/
theorem applyAuth_once_not :
    ¬∀ (library : AuthLibrary) (request resolved : RequestEnvelope) (scope : ExecutionScope)
      (auth : AuthRef), request.authRef = some auth → authKind auth ≠ "" →
        authKind auth ≠ "none" → applyAuth library request scope = .ok resolved →
          ∃ credential before after, CarriesOnce credential request resolved before after := by
  intro h
  obtain ⟨credential, before, after, hcarries⟩ := h offlineLibrary
    (bearerRequest (.udp ⟨"ping", "text", 1, 0⟩)) (bearerRequest (.udp ⟨"ping", "text", 1, 0⟩))
    bearerScope bearerAuth rfl (by decide) (by decide) (by rfl)
  cases hcarries.entries

end ApiVoy.Engine
