/-
# The encryption of connections to MySQL

The mode of encryption is a parameter in the URL of the database. The driver looks for it in any
letter case and adds the parameter when it finds none; the client library reads the parameter
under two names only, and falls back to a mode that does without encryption. The two agree unless
every such parameter of a URL is written in capitals.
-/

import ApiVoy.Drivers.Sql
import ApiVoy.Foundation.Percent

namespace ApiVoy.Drivers.Sql

open Foundation Domain Engine

/-! ## The client library -/

/-- How a client encrypts; in the preferred mode it goes on without when the server cannot. -/
inductive SslMode where
  | disabled
  | preferred
  | required
  | verifyCa
  | verifyIdentity
  deriving DecidableEq

def SslMode.isStrict : SslMode → Bool
  | .required | .verifyCa | .verifyIdentity => true
  | .disabled | .preferred => false

/-- The modes, by their names in capitals. -/
def sslModes : List (String × SslMode) :=
  [("DISABLED", .disabled), ("PREFERRED", .preferred), ("REQUIRED", .required),
    ("VERIFY_CA", .verifyCa), ("VERIFY_IDENTITY", .verifyIdentity)]

def readSslMode (mode : String) : Option SslMode :=
  sslModes.lookup (String.ofList (mode.toList.map Char.toUpper))

/-- The names under which the client takes the mode. -/
def isSslModeName (name : String) : Bool := name == "ssl-mode" || name == "sslmode"

/-- The mode of a connection: the last one that is given, or the preferred one. -/
def clientSslMode (pairs : List (String × String)) : Option SslMode :=
  match ((pairs.filter fun pair => isSslModeName pair.1).map Prod.snd).getLast? with
  | none => some .preferred
  | some mode => readSslMode mode

/-- The client does not go on without encryption. -/
def Encrypts (pairs : List (String × String)) : Prop :=
  ∃ mode, clientSslMode pairs = some mode ∧ mode.isStrict = true

/-! ## URLs -/

/-- A character that stands for itself in the user name and the password of a URL. A percent sign
does, so that what is escaped already is not escaped again. -/
def isUserinfoChar (c : Char) : Bool :=
  32 < c.toNat && c.toNat < 127 && !"\"#<>?^`\x7b\x7d/:;=@[\\]|".toList.contains c

/-- A user name or a password as it stands in a URL. -/
def userinfo (text : String) : String :=
  String.ofList (text.toList.flatMap fun c =>
    if isUserinfoChar c then [c] else (encodeChars [c]).flatMap Percent.encodeByte)

/-- A password as it stands in a URL; an empty one is none. -/
def writtenPassword (password : String) : Option String :=
  if password = "" then none else some (userinfo password)

/-- What a URL says beside its scheme and its parameters, each part as it is written. -/
structure UrlParts where
  username : String
  password : Option String
  host : Option String
  port : Option UInt16
  path : String

/-- What the operations of the library for URLs change, and what they leave alone. A URL is read
back from its text, the mode is added behind the parameters, and a user name and a password are
escaped. -/
structure UrlLaws {Url : Type} (urls : UrlLibrary Url) where
  parts : Url → UrlParts
  parse_render : ∀ url, urls.parse (urls.render url) = .ok url
  appendPair : ∀ url, parts (urls.appendPair "ssl-mode" "REQUIRED" url) = parts url ∧
    urls.scheme (urls.appendPair "ssl-mode" "REQUIRED" url) = urls.scheme url ∧
    urls.queryPairs (urls.appendPair "ssl-mode" "REQUIRED" url) =
      urls.queryPairs url ++ [("ssl-mode", "REQUIRED")]
  setUsername : ∀ username url changed, urls.setUsername username url = some changed →
    parts changed = { parts url with username := userinfo username } ∧
      urls.queryPairs changed = urls.queryPairs url
  setPassword : ∀ password url changed, urls.setPassword password url = some changed →
    parts changed = { parts url with password := writtenPassword password } ∧
      urls.queryPairs changed = urls.queryPairs url

/-- The parameters that have nothing to do with the mode. -/
def otherPairs (pairs : List (String × String)) : List (String × String) :=
  pairs.filter fun pair => !isSslModeName pair.1

def sqlValue (request : RequestEnvelope) : Json :=
  match request.payload with
  | .raw payload => rawValue payload
  | _ => .null

/-- The parts of a target with the user name and the password that the request gives. -/
def requestedParts (request : RequestEnvelope) (parts : UrlParts) : UrlParts :=
  { parts with
    username := ((sqlValue request).textOf "username").elim parts.username userinfo
    password := match (sqlValue request).textOf "passwordRef" with
      | none => parts.password
      | some secretRef => (request.runtimeSecrets.lookup secretRef).bind writtenPassword }

/-- The request gives no user name and no password but those of the URL. -/
structure OwnCredentials (request : RequestEnvelope) (parts : UrlParts) : Prop where
  username : ∀ username, (sqlValue request).textOf "username" = some username →
    userinfo username = parts.username
  password : ∀ secretRef, (sqlValue request).textOf "passwordRef" = some secretRef →
    (request.runtimeSecrets.lookup secretRef).bind writtenPassword = parts.password

theorem requestedParts_eq_iff {request : RequestEnvelope} {parts : UrlParts} :
    requestedParts request parts = parts ↔ OwnCredentials request parts := by
  obtain ⟨username, password, host, port, path⟩ := parts
  rw [requestedParts, UrlParts.mk.injEq]
  constructor
  · rintro ⟨hname, hpassword, -⟩
    constructor
    · intro given hgiven
      rw [hgiven] at hname
      exact hname
    · intro secretRef hgiven
      rw [hgiven] at hpassword
      exact hpassword
  · rintro ⟨hname, hpassword⟩
    refine ⟨?_, ?_, rfl, rfl, rfl⟩
    · cases hgiven : (sqlValue request).textOf "username" with
      | none => rfl
      | some given => exact hname given hgiven
    · cases hgiven : (sqlValue request).textOf "passwordRef" with
      | none => rfl
      | some secretRef => exact hpassword secretRef hgiven

/-! ## The two readings -/

/-- Does the driver take a parameter for the mode? -/
def resemblesSslMode (name : String) : Bool :=
  eqIgnoreAsciiCase name "ssl-mode" || eqIgnoreAsciiCase name "sslmode"

/-- The parameters of a URL are read alike: when the driver takes one for the mode, there is one
that the client takes for it. -/
def ReadAlike (pairs : List (String × String)) : Prop :=
  (∃ pair ∈ pairs, resemblesSslMode pair.1 = true) → ∃ pair ∈ pairs, isSslModeName pair.1 = true

theorem resemblesSslMode_of_isSslModeName {name : String} (h : isSslModeName name = true) :
    resemblesSslMode name = true := by
  rw [isSslModeName, Bool.or_eq_true, beq_iff_eq, beq_iff_eq] at h
  rcases h with rfl | rfl <;> decide

/-- The modes that the driver accepts are strict ones. -/
theorem readSslMode_of_accepted {mode : String}
    (h : ["REQUIRED", "VERIFY_CA", "VERIFY_IDENTITY"].contains
      (String.ofList (mode.toList.map Char.toUpper)) = true) :
    ∃ found, readSslMode mode = some found ∧ found.isStrict = true := by
  rw [readSslMode]
  rw [List.contains_iff_mem, List.mem_cons, List.mem_cons, List.mem_singleton] at h
  rcases h with h | h | h <;> rw [h]
  · exact ⟨.required, rfl, rfl⟩
  · exact ⟨.verifyCa, rfl, rfl⟩
  · exact ⟨.verifyIdentity, rfl, rfl⟩

/-- Parameters whose modes are all accepted encrypt exactly when the client finds one. -/
theorem encrypts_iff_of_accepted {pairs : List (String × String)}
    (haccepted : ∀ pair ∈ pairs, resemblesSslMode pair.1 = true →
      ["REQUIRED", "VERIFY_CA", "VERIFY_IDENTITY"].contains
        (String.ofList (pair.2.toList.map Char.toUpper)) = true) :
    Encrypts pairs ↔ ∃ pair ∈ pairs, isSslModeName pair.1 = true := by
  rw [Encrypts, clientSslMode]
  cases hlast : ((pairs.filter fun pair => isSslModeName pair.1).map Prod.snd).getLast? with
  | none =>
    rw [List.getLast?_eq_none_iff, List.map_eq_nil_iff, List.filter_eq_nil_iff] at hlast
    refine iff_of_false ?_ ?_
    · rintro ⟨mode, heq, hstrict⟩
      cases heq
      cases hstrict
    · rintro ⟨pair, hpair, hname⟩
      exact hlast pair hpair hname
  | some mode =>
    obtain ⟨pair, hpair, rfl⟩ := List.mem_map.mp (List.mem_of_getLast? hlast)
    obtain ⟨hmem, hname⟩ := List.mem_filter.mp hpair
    exact iff_of_true
      (readSslMode_of_accepted (haccepted pair hmem (resemblesSslMode_of_isSslModeName hname)))
      ⟨pair, hmem, hname⟩

/-! ## The URL that is opened -/

section Opening

variable {Url : Type} {urls : UrlLibrary Url}

/-- The driver adds the mode where it finds none, and accepts strict modes. -/
theorem requireTls_cases {url secured : Url} (hscheme : urls.scheme url = "mysql")
    (h : requireTls urls url = .ok secured) :
    (¬(∃ pair ∈ urls.queryPairs url, resemblesSslMode pair.1 = true) ∧
        secured = urls.appendPair "ssl-mode" "REQUIRED" url) ∨
      ((∃ pair ∈ urls.queryPairs url, resemblesSslMode pair.1 = true) ∧
        (∀ pair ∈ urls.queryPairs url, resemblesSslMode pair.1 = true →
          ["REQUIRED", "VERIFY_CA", "VERIFY_IDENTITY"].contains
            (String.ofList (pair.2.toList.map Char.toUpper)) = true) ∧ secured = url) := by
  rw [requireTls] at h
  rw [if_neg (not_not_intro hscheme)] at h
  split at h
  case isTrue hnone =>
    cases h
    rw [List.map_eq_nil_iff, List.filter_eq_nil_iff] at hnone
    exact .inl ⟨fun ⟨pair, hpair, hname⟩ => hnone pair hpair hname, rfl⟩
  case isFalse hsome =>
    split at h
    case isTrue => cases h
    case isFalse haccepted =>
      cases h
      refine .inr ⟨?_, fun pair hpair hname => ?_, rfl⟩
      · by_contra hnone
        refine hsome (List.map_eq_nil_iff.mpr (List.filter_eq_nil_iff.mpr fun pair hpair hname => ?_))
        exact hnone ⟨pair, hpair, hname⟩
      · by_contra hnot
        refine haccepted (List.any_eq_true.mpr ⟨pair.2, List.mem_map_of_mem
          (List.mem_filter.mpr ⟨hpair, hname⟩), ?_⟩)
        rw [Bool.not_eq_true] at hnot
        rw [hnot]
        rfl

variable (laws : UrlLaws urls)

variable {url changed : Url}

theorem addUsername_spec {value : Json} (h : addUsername urls value url = .ok changed) :
    laws.parts changed = { laws.parts url with
        username := (value.textOf "username").elim (laws.parts url).username userinfo } ∧
      urls.queryPairs changed = urls.queryPairs url := by
  rw [addUsername] at h
  cases hgiven : value.textOf "username" with
  | none =>
    rw [hgiven] at h
    cases h
    exact ⟨rfl, rfl⟩
  | some username =>
    rw [hgiven] at h
    dsimp only at h
    cases hset : urls.setUsername username url with
    | none =>
      rw [hset] at h
      cases h
    | some found =>
      rw [hset] at h
      cases h
      exact laws.setUsername username url changed hset

variable {request : RequestEnvelope}

theorem addPassword_spec {value : Json} (h : addPassword urls request value url = .ok changed) :
    laws.parts changed = { laws.parts url with
        password := match value.textOf "passwordRef" with
          | none => (laws.parts url).password
          | some secretRef => (request.runtimeSecrets.lookup secretRef).bind writtenPassword } ∧
      urls.queryPairs changed = urls.queryPairs url := by
  rw [addPassword] at h
  cases hgiven : value.textOf "passwordRef" with
  | none =>
    rw [hgiven] at h
    cases h
    exact ⟨rfl, rfl⟩
  | some secretRef =>
    rw [hgiven] at h
    dsimp only at h ⊢
    cases hsecret : request.runtimeSecrets.lookup secretRef with
    | none =>
      rw [hsecret] at h
      cases h
    | some password =>
      rw [hsecret] at h
      dsimp only at h
      cases hset : urls.setPassword password url with
      | none =>
        rw [hset] at h
        cases h
      | some found =>
        rw [hset] at h
        cases h
        exact laws.setPassword password url changed hset

/-- The URL that is opened has the parts that the request asks for and the parameters of the
target, with the mode added if there is none; it encrypts exactly if the target is read alike. -/
theorem opened_spec {codecs : Codecs} {payload : SqlRequest} {target : Url}
    (hdecode : decode urls codecs request = .ok payload)
    (htarget : urls.parse request.target = .ok target)
    (hscheme : urls.scheme target = "mysql") :
    ∃ opened, urls.parse payload.url = .ok opened ∧
      laws.parts opened = requestedParts request (laws.parts target) ∧
      otherPairs (urls.queryPairs opened) = otherPairs (urls.queryPairs target) ∧
      (Encrypts (urls.queryPairs opened) ↔ ReadAlike (urls.queryPairs target)) := by
  obtain ⟨value, parsed, secured, opened, hvalue, hparsed, hsecured, hopened, hurl, -⟩ :=
    exists_of_decode hdecode
  cases htarget.symm.trans hparsed
  have hsql : sqlValue request = rawValue value := by rw [sqlValue, hvalue]
  -- What the mode costs the URL.
  have htls : laws.parts secured = laws.parts target ∧
      urls.scheme secured = "mysql" ∧
      otherPairs (urls.queryPairs secured) = otherPairs (urls.queryPairs target) ∧
      (Encrypts (urls.queryPairs secured) ↔ ReadAlike (urls.queryPairs target)) := by
    rcases requireTls_cases hscheme hsecured with ⟨hnone, rfl⟩ | ⟨hsome, haccepted, rfl⟩
    · obtain ⟨hparts, hsame, hpairs⟩ := laws.appendPair target
      refine ⟨hparts, hsame.trans hscheme, ?_, iff_of_true ?_ fun h => absurd h hnone⟩
      · rw [hpairs, otherPairs, List.filter_append]
        exact List.append_nil _
      · rw [hpairs]
        refine (encrypts_iff_of_accepted fun pair hpair hname => ?_).mpr
          ⟨_, List.mem_append_right _ List.mem_cons_self, rfl⟩
        rcases List.mem_append.mp hpair with hpair | hpair
        · exact absurd ⟨pair, hpair, hname⟩ hnone
        · rw [List.mem_singleton.mp hpair]
          decide
    · refine ⟨rfl, hscheme, rfl, (encrypts_iff_of_accepted haccepted).trans ?_⟩
      exact ⟨fun h _ => h, fun h => h hsome⟩
  obtain ⟨hparts, hsame, hothers, hencrypts⟩ := htls
  rw [if_pos (by rw [hsame]; decide)] at hopened
  obtain ⟨named, hnamed, hopened⟩ := bind_eq_ok_iff.mp hopened
  obtain ⟨hname, hnamePairs⟩ := addUsername_spec laws hnamed
  obtain ⟨hpassword, hpasswordPairs⟩ := addPassword_spec laws hopened
  refine ⟨opened, ?_, ?_, ?_, ?_⟩
  · rw [hurl]
    exact laws.parse_render opened
  · rw [hpassword, hname, hparts, requestedParts, hsql]
  · rw [hpasswordPairs, hnamePairs, hothers]
  · rw [hpasswordPairs, hnamePairs, hencrypts]

/-- A connection to MySQL is encrypted, and its URL is the one of the target with the user name
and the password of the request, exactly when the parameters of the target are read alike. The
URL is the one of the target throughout if in addition the request gives no others. -/
theorem opened_encrypted_iff {codecs : Codecs} {request : RequestEnvelope} {payload : SqlRequest}
    {target : Url} (hdecode : decode urls codecs request = .ok payload)
    (htarget : urls.parse request.target = .ok target)
    (hscheme : urls.scheme target = "mysql") :
    ∃ opened, urls.parse payload.url = .ok opened ∧
      (Encrypts (urls.queryPairs opened) ∧
          laws.parts opened = requestedParts request (laws.parts target) ∧
          otherPairs (urls.queryPairs opened) = otherPairs (urls.queryPairs target) ↔
        ReadAlike (urls.queryPairs target)) ∧
      (Encrypts (urls.queryPairs opened) ∧ laws.parts opened = laws.parts target ∧
          otherPairs (urls.queryPairs opened) = otherPairs (urls.queryPairs target) ↔
        ReadAlike (urls.queryPairs target) ∧ OwnCredentials request (laws.parts target)) := by
  obtain ⟨opened, hparse, hparts, hothers, hencrypts⟩ := opened_spec laws hdecode htarget hscheme
  refine ⟨opened, hparse, ?_, ?_⟩
  · rw [hencrypts]
    exact ⟨fun h => h.1, fun h => ⟨h, hparts, hothers⟩⟩
  · rw [hencrypts, hparts, requestedParts_eq_iff]
    exact ⟨fun h => ⟨h.1, h.2.1⟩, fun h => ⟨h.1, h.2, hothers⟩⟩

end Opening

/-! ### URLs of a sample database -/

/-- A URL with the mode in capitals or with another parameter, with a user name or without, and how
often the mode was added. -/
structure SampleUrl where
  capitals : Bool
  named : Bool
  added : Nat
  deriving DecidableEq

def SampleUrl.text (url : SampleUrl) : String :=
  String.ofList ((if url.named then "mysql://a%20b@db/app?".toList else "mysql://db/app?".toList) ++
    ((if url.capitals then "SSL-MODE=REQUIRED".toList else "charset=utf8".toList) ++
      (List.replicate url.added "&ssl-mode=REQUIRED".toList).flatten))

/-- The texts of the sample differ in their lengths. -/
def readSampleUrl (text : String) : Except String SampleUrl :=
  match text.length % 18 with
  | 14 => .ok ⟨true, false, (text.length - 32) / 18⟩
  | 2 => .ok ⟨true, true, (text.length - 38) / 18⟩
  | 9 => .ok ⟨false, false, (text.length - 27) / 18⟩
  | _ => .ok ⟨false, true, (text.length - 33) / 18⟩

def mysqlUrls : UrlLibrary SampleUrl where
  parse := readSampleUrl
  scheme _ := "mysql"
  queryPairs url :=
    (if url.capitals then ("SSL-MODE", "REQUIRED") else ("charset", "utf8")) ::
      List.replicate url.added ("ssl-mode", "REQUIRED")
  appendPair _ _ url := { url with added := url.added + 1 }
  setUsername username url := if username = "a b" then some { url with named := true } else none
  setPassword password url := if password = "" then some url else none
  render := SampleUrl.text

theorem length_added (added : Nat) :
    ((List.replicate added "&ssl-mode=REQUIRED".toList).flatten).length = 18 * added := by
  induction added with
  | zero => rfl
  | succ added ih =>
    rw [List.replicate_succ, List.flatten_cons, List.length_append, ih,
      show "&ssl-mode=REQUIRED".toList.length = 18 by decide]
    omega

theorem readSampleUrl_text (url : SampleUrl) : readSampleUrl url.text = .ok url := by
  obtain ⟨capitals, named, added⟩ := url
  have hlength : (SampleUrl.text ⟨capitals, named, added⟩).length =
      (if named then 21 else 15) + ((if capitals then 17 else 12) + 18 * added) := by
    rw [SampleUrl.text, String.length_ofList, List.length_append, List.length_append, length_added]
    cases capitals <;> cases named <;> rfl
  rw [readSampleUrl, hlength]
  cases capitals <;> cases named <;> simp only [if_true, Bool.false_eq_true, if_false]
  · rw [show (15 + (12 + 18 * added)) % 18 = 9 by omega]
    simp only [Except.ok.injEq, SampleUrl.mk.injEq, true_and]
    omega
  · rw [show (21 + (12 + 18 * added)) % 18 = 15 by omega]
    simp only [Except.ok.injEq, SampleUrl.mk.injEq, true_and]
    omega
  · rw [show (15 + (17 + 18 * added)) % 18 = 14 by omega]
    simp only [Except.ok.injEq, SampleUrl.mk.injEq, true_and]
    omega
  · rw [show (21 + (17 + 18 * added)) % 18 = 2 by omega]
    simp only [Except.ok.injEq, SampleUrl.mk.injEq, true_and]
    omega

def mysqlLaws : UrlLaws mysqlUrls where
  parts url := ⟨if url.named then "a%20b" else "", none, some "db", none, "/app"⟩
  parse_render := readSampleUrl_text
  appendPair url := by
    refine ⟨rfl, rfl, ?_⟩
    change _ :: List.replicate (url.added + 1) _ = (_ :: List.replicate url.added _) ++ [_]
    rw [List.replicate_succ', List.cons_append]
    rfl
  setUsername username url changed h := by
    obtain ⟨rfl, h⟩ := Option.ite_none_right_eq_some.mp h
    cases h
    have hname : "a%20b" = userinfo "a b" := by decide
    exact ⟨congrArg (UrlParts.mk · none (some "db") none "/app") hname, rfl⟩
  setPassword password url changed h := by
    obtain ⟨rfl, h⟩ := Option.ite_none_right_eq_some.mp h
    cases h
    exact ⟨rfl, rfl⟩

/-- A request for a user with an empty password. -/
def mysqlRequest (target : String) : RequestEnvelope :=
  { RequestEnvelope.httpGet "request" "now" "SQL" target with
    payload := .raw (.obj [("sql", .str "SELECT 1"), ("username", .str "a b"),
      ("passwordRef", .str "p")])
    runtimeSecrets := AList.insert "p" "" ∅ }

def mysqlPayload (url : SampleUrl) : SqlRequest := ⟨url.text, "SELECT 1", [], false, 500⟩

/-- A connection whose target has no mode is encrypted, and it is that of the user who is asked
for. -/
theorem opened_encrypted_sample : ∃ opened,
    mysqlUrls.parse (mysqlPayload ⟨false, true, 1⟩).url = .ok opened ∧
      Encrypts (mysqlUrls.queryPairs opened) ∧ (mysqlLaws.parts opened).username = "a%20b" ∧
      ("charset", "utf8") ∈ otherPairs (mysqlUrls.queryPairs opened) := by
  have hdecode : decode mysqlUrls Codecs.unused (mysqlRequest (SampleUrl.text ⟨false, false, 0⟩)) =
      .ok (mysqlPayload ⟨false, true, 1⟩) := by decide +kernel
  obtain ⟨opened, hparse, hiff, -⟩ :=
    opened_encrypted_iff mysqlLaws hdecode (readSampleUrl_text ⟨false, false, 0⟩) rfl
  obtain ⟨hencrypts, hparts, hothers⟩ := hiff.mpr (by
    rintro ⟨pair, hpair, hname⟩
    rw [List.mem_singleton.mp hpair] at hname
    exact absurd hname (by decide))
  refine ⟨opened, hparse, hencrypts, ?_, ?_⟩
  · rw [hparts]
    decide
  · rw [hothers]
    decide

/-- A mode in capitals is taken for one by the driver, and by the client for something else. -/
theorem opened_encrypted_not :
    ¬∀ (urls : UrlLibrary SampleUrl) (_ : UrlLaws urls) (codecs : Codecs)
      (request : RequestEnvelope) (payload : SqlRequest) (target : SampleUrl),
      decode urls codecs request = .ok payload → urls.parse request.target = .ok target →
      urls.scheme target = "mysql" →
      ∃ opened, urls.parse payload.url = .ok opened ∧ Encrypts (urls.queryPairs opened) := by
  intro h
  obtain ⟨opened, hparse, mode, hmode, hstrict⟩ := h mysqlUrls mysqlLaws Codecs.unused
    (mysqlRequest (SampleUrl.text ⟨true, false, 0⟩)) (mysqlPayload ⟨true, true, 0⟩)
    ⟨true, false, 0⟩ (by decide +kernel) (readSampleUrl_text ⟨true, false, 0⟩) rfl
  cases (readSampleUrl_text ⟨true, true, 0⟩).symm.trans hparse
  have hpreferred : clientSslMode (mysqlUrls.queryPairs ⟨true, true, 0⟩) = some .preferred := by
    decide
  cases hpreferred.symm.trans hmode
  cases hstrict

end ApiVoy.Drivers.Sql
