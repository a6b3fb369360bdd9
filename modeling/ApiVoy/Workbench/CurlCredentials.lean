/-
# The credentials of a curl command

Two lists of tokens that differ only in the values of sensitive headers, in the cookies and in
the password give the same request. They also give the same warnings when the cookies agree on
whether they look like an option, which is the only thing a warning depends on.
-/

import ApiVoy.Workbench.CurlCopy

namespace ApiVoy.Workbench

open Foundation Script

namespace Curl

/-! ## Lists that differ in their credentials -/

/-- The header of both values is the same sensitive one. -/
def SensitiveHeaders (value other : String) : Prop :=
  ∃ name content content' : String, ':' ∉ name.toList ∧
    Sanitizer.isSensitiveHeaderName (Script.trim name) = true ∧
      value = name ++ ":" ++ content ∧ other = name ++ ":" ++ content'

/-- The user is the same, and the password, if there is one, may be another one. -/
def SameUser (value other : String) : Prop :=
  value = other ∨ ∃ user password password' : String, ':' ∉ user.toList ∧
    value = user ++ ":" ++ password ∧ other = user ++ ":" ++ password'

/-- Both texts are empty or neither is. -/
def SameEmptiness (value other : String) : Prop := value = "" ↔ other = ""

def LooksLikeOption (value : String) : Prop := value.toList.head? = some '-'

/-- Besides, both texts look like an option or neither does. -/
def SameLook (value other : String) : Prop :=
  SameEmptiness value other ∧ (LooksLikeOption value ↔ LooksLikeOption other)

/-- The values of an option that may differ in a credential; how cookies may differ is a
parameter. -/
def ValuesAlike (cookies : String → String → Prop) (option : ValueOption)
    (value other : String) : Prop :=
  match option with
  | .header => value = other ∨ SensitiveHeaders value other
  | .cookie => cookies value other
  | .user => SameUser value other
  | _ => value = other

/-- Lists of tokens that are the same but for the credentials. -/
inductive TokensAlike (cookies : String → String → Prop) : List String → List String → Prop
  | nil : TokensAlike cookies [] []
  | value {token value other : String} {option : ValueOption} {rest rest' : List String} :
      valueOption token = some option → ValuesAlike cookies option value other →
        TokensAlike cookies rest rest' →
          TokensAlike cookies (token :: value :: rest) (token :: other :: rest')
  | missing {token : String} {option : ValueOption} :
      valueOption token = some option → TokensAlike cookies [token] [token]
  | flag {token : String} {rest rest' : List String} :
      valueOption token = none → TokensAlike cookies rest rest' →
        TokensAlike cookies (token :: rest) (token :: rest')

theorem TokensAlike.length_eq {cookies : String → String → Prop} {tokens tokens' : List String}
    (h : TokensAlike cookies tokens tokens') : tokens.length = tokens'.length := by
  induction h with
  | nil => rfl
  | value _ _ _ ih => simp [ih]
  | missing => rfl
  | flag _ _ ih => simp [ih]

/-! ## States that differ in their credentials -/

/-- A state with another user, another cookie and other warnings. -/
def CurlState.override (state : CurlState) (user cookie : String) (warnings : List String) :
    CurlState :=
  { state with basicUser := user, cookie := cookie, warnings := warnings }

/-- Two states are the same but for the credentials, and for the warnings unless these are
compared. -/
def StatesAlike (compared : Prop) (state other : CurlState) : Prop :=
  ∃ user cookie warnings, other = state.override user cookie warnings ∧
    SameUser state.basicUser user ∧ SameEmptiness state.cookie cookie ∧
      (compared → state.warnings = warnings)

/-- A step that depends on none of the credentials: it adds the same warnings to all states. -/
def Oblivious (step : CurlState → CurlState) : Prop :=
  ∀ state, ∃ notes, (step state).warnings = state.warnings ++ notes ∧
    (step state).basicUser = state.basicUser ∧ (step state).cookie = state.cookie ∧
      ∀ user cookie warnings, step (state.override user cookie warnings) =
        (step state).override user cookie (warnings ++ notes)

variable {compared : Prop}

theorem Oblivious.alike {step : CurlState → CurlState} (h : Oblivious step)
    {state other : CurlState} (halike : StatesAlike compared state other) :
    StatesAlike compared (step state) (step other) := by
  obtain ⟨user, cookie, warnings, rfl, huser, hcookie, hwarnings⟩ := halike
  obtain ⟨notes, hnotes, hsame, hkept, hstep⟩ := h state
  refine ⟨user, cookie, warnings ++ notes, hstep user cookie warnings, ?_, ?_, fun hcompared => ?_⟩
  · rwa [hsame]
  · rwa [hkept]
  · rw [hnotes, hwarnings hcompared]

variable {first second : CurlState → CurlState}

theorem Oblivious.comp (hfirst : Oblivious first) (hsecond : Oblivious second) :
    Oblivious (second ∘ first) := by
  intro state
  obtain ⟨notes, hnotes, huser, hcookie, hstep⟩ := hfirst state
  obtain ⟨notes', hnotes', huser', hcookie', hstep'⟩ := hsecond (first state)
  refine ⟨notes ++ notes', ?_, huser'.trans huser, hcookie'.trans hcookie, ?_⟩
  · rw [Function.comp_apply, hnotes', hnotes, List.append_assoc]
  · intro user cookie warnings
    rw [Function.comp_apply, Function.comp_apply, hstep, hstep', List.append_assoc]

/-- A step that leaves the credentials and the warnings as they are. -/
theorem oblivious_of_silent {step : CurlState → CurlState}
    (hsilent : ∀ state user cookie warnings, step (state.override user cookie warnings) =
      (step state).override user cookie warnings) : Oblivious step := by
  intro state
  have hsame : step state =
      (step state).override state.basicUser state.cookie state.warnings :=
    hsilent state state.basicUser state.cookie state.warnings
  have huser : (step state).basicUser = state.basicUser := by rw [hsame]; rfl
  have hcookie : (step state).cookie = state.cookie := by rw [hsame]; rfl
  have hwarnings : (step state).warnings = state.warnings := by rw [hsame]; rfl
  refine ⟨[], ?_, huser, hcookie, ?_⟩
  · rw [List.append_nil, hwarnings]
  · intro user cookie warnings
    rw [List.append_nil, hsilent]

theorem oblivious_warn (warning : String) : Oblivious (CurlState.warn · warning) :=
  fun _ => ⟨[warning], rfl, rfl, rfl, fun _ _ _ => rfl⟩

theorem oblivious_id : Oblivious id := oblivious_of_silent fun _ _ _ _ => rfl

theorem oblivious_withBody : Oblivious CurlState.withBody := by
  refine oblivious_of_silent fun state user cookie warnings => ?_
  rw [withBody_eq, withBody_eq]
  rfl

theorem oblivious_checkValue (token : String) (value : Option String) :
    Oblivious (CurlState.checkValue · token value) := by
  unfold CurlState.checkValue
  cases value.all fun value => decide (value.toList.head? = some '-') with
  | true => exact oblivious_warn _
  | false => exact oblivious_id

theorem oblivious_readHeader (value : String) : Oblivious (CurlState.readHeader · value) := by
  unfold CurlState.readHeader
  dsimp only
  split
  · exact oblivious_warn _
  · split
    · exact oblivious_warn _
    · split
      · exact oblivious_warn _
      · exact oblivious_of_silent fun _ _ _ _ => rfl

variable (platform : Platform)

/-- The options that are no credential are read alike in all states. -/
theorem oblivious_readValue (token : String) (given : Option String) {option : ValueOption}
    (hcookie : option ≠ .cookie) (huser : option ≠ .user) :
    Oblivious (CurlState.readValue platform · token given option) := by
  have hcheck := oblivious_checkValue token given
  cases option with
  | cookie => exact absurd rfl hcookie
  | user => exact absurd rfl huser
  | request =>
    have hset : Oblivious fun state =>
        { state with method :=
            if platform.toUpperCase (given.getD "") = "" then "GET"
            else platform.toUpperCase (given.getD "") } :=
      oblivious_of_silent fun _ _ _ _ => rfl
    exact hcheck.comp hset
  | url =>
    have hset : Oblivious fun state => { state with url := given.getD "" } :=
      oblivious_of_silent fun _ _ _ _ => rfl
    exact hcheck.comp hset
  | header => exact hcheck.comp (oblivious_readHeader (given.getD ""))
  | data =>
    have hset : Oblivious fun state : CurlState =>
        { state with dataParts := state.dataParts ++ [given.getD ""] } :=
      oblivious_of_silent fun _ _ _ _ => rfl
    have hnote : Oblivious fun state : CurlState =>
        if (given.getD "").toList.head? = some '@' then
          state.warn (token ++ " 的文件引用不会读取本地文件，已保留原值") else state := by
      split
      · exact oblivious_warn _
      · exact oblivious_id
    exact ((hcheck.comp hset).comp hnote).comp oblivious_withBody
  | dataUrlencode =>
    have hset : Oblivious fun state : CurlState =>
        { state with dataParts := state.dataParts ++ [encodedPart (given.getD "")] } :=
      oblivious_of_silent fun _ _ _ _ => rfl
    exact (hcheck.comp hset).comp oblivious_withBody
  | form =>
    have hset : Oblivious fun state : CurlState =>
        { state with formParts := state.formParts ++ [given.getD ""] } :=
      oblivious_of_silent fun _ _ _ _ => rfl
    exact (hcheck.comp hset).comp oblivious_withBody
  | proxy =>
    have hset : Oblivious fun state =>
        { state with proxy := if given.getD "" = "" then none else some (given.getD "") } :=
      oblivious_of_silent fun _ _ _ _ => rfl
    exact hcheck.comp hset
  | maxTime =>
    cases htime : platform.milliseconds (given.getD "") with
    | some timeoutMs =>
      have hset : Oblivious fun state : CurlState => { state with timeoutMs := timeoutMs } :=
        oblivious_of_silent fun _ _ _ _ => rfl
      simp only [CurlState.readValue, htime]
      exact hcheck.comp hset
    | none =>
      simp only [CurlState.readValue, htime]
      exact hcheck.comp (oblivious_warn _)
  | ignored => exact hcheck.comp (oblivious_warn _)

theorem Oblivious.ite {p : Prop} [Decidable p] (hfirst : Oblivious first)
    (hsecond : Oblivious second) :
    Oblivious fun state => if p then first state else second state := by
  split
  · exact hfirst
  · exact hsecond

theorem Oblivious.byUrl {p : String → Prop} [DecidablePred p] {first second : CurlState → CurlState}
    (hfirst : Oblivious first) (hsecond : Oblivious second) :
    Oblivious fun state => if p state.url then first state else second state := by
  intro state
  by_cases hurl : p state.url
  · obtain ⟨notes, hnotes, huser, hcookie, hstep⟩ := hfirst state
    simp only [if_pos hurl]
    exact ⟨notes, hnotes, huser, hcookie, fun user cookie warnings =>
      (if_pos hurl).trans (hstep user cookie warnings)⟩
  · obtain ⟨notes, hnotes, huser, hcookie, hstep⟩ := hsecond state
    simp only [if_neg hurl]
    exact ⟨notes, hnotes, huser, hcookie, fun user cookie warnings =>
      (if_neg hurl).trans (hstep user cookie warnings)⟩

theorem oblivious_readFlag (token : String) : Oblivious (CurlState.readFlag · token) := by
  have hget : Oblivious fun state => { state with method := "GET", forceGet := true } :=
    oblivious_of_silent fun _ _ _ _ => rfl
  have hlocation : Oblivious fun state => { state with followRedirects := true } :=
    oblivious_of_silent fun _ _ _ _ => rfl
  have hinsecure : Oblivious fun state => { state with tlsVerify := false } :=
    oblivious_of_silent fun _ _ _ _ => rfl
  have hurl : Oblivious fun state => { state with url := token } :=
    oblivious_of_silent fun _ _ _ _ => rfl
  exact hget.ite (hlocation.ite (hinsecure.ite (oblivious_id.ite
    ((oblivious_warn _).ite (@Oblivious.byUrl (· = "") _ _ _ hurl (oblivious_warn _))))))

/-! ## Reading two lists -/

/-- What a missing value or one that looks like an option adds to the warnings. -/
def valueNotes (token : String) (value : String) : List String :=
  if value.toList.head? = some '-' then [token ++ " 缺少参数值"] else []

theorem checkValue_some (state : CurlState) (token value : String) :
    state.checkValue token (some value) =
      { state with warnings := state.warnings ++ valueNotes token value } := by
  simp only [CurlState.checkValue, Option.all_some, valueNotes, decide_eq_true_eq]
  split
  · rfl
  · rw [List.append_nil]

theorem head?_append_colon (name content content' : String) :
    (name ++ ":" ++ content).toList.head? = (name ++ ":" ++ content').toList.head? := by
  cases hname : name.toList <;> simp [hname]

variable {value other : String}

theorem SameUser.valueNotes_eq (h : SameUser value other) (token : String) :
    valueNotes token value = valueNotes token other := by
  rcases h with rfl | ⟨user, password, password', _, rfl, rfl⟩
  · rfl
  · rw [valueNotes, valueNotes, head?_append_colon user password password']

/-- A sensitive header is read in the same way whatever its value. -/
theorem SensitiveHeaders.readHeader_eq (h : SensitiveHeaders value other) (state : CurlState) :
    state.readHeader value = state.readHeader other := by
  obtain ⟨name, content, content', hname, hsensitive, rfl, rfl⟩ := h
  have hread : ∀ content : String, state.readHeader (name ++ ":" ++ content) = state.warn
      ("为避免保存明文凭据，" ++ Script.trim name ++ " Header 未导入；请在调试页绑定 Secret Ref") := by
    intro content
    have hbefore : ∀ c ∈ name.toList, decide (c ≠ ':') = true := fun c hc =>
      decide_eq_true fun heq => hname (heq ▸ hc)
    have htext : (name ++ ":" ++ content).toList = name.toList ++ ':' :: content.toList := by
      simp
    have hhead : (name ++ ":" ++ content).toList.head? ≠ some ':' := by
      rw [htext]
      cases hcase : name.toList with
      | nil =>
        rw [String.toList_eq_nil_iff.mp hcase] at hsensitive
        exact absurd hsensitive (by decide)
      | cons c rest =>
        intro heq
        cases heq
        exact hname (hcase ▸ List.mem_cons_self)
    have htake : (name ++ ":" ++ content).toList.takeWhile (· ≠ ':') = name.toList := by
      rw [htext, List.takeWhile_append_of_pos hbefore]
      simp
    have hdrop : (name ++ ":" ++ content).toList.dropWhile (· ≠ ':') = ':' :: content.toList := by
      rw [htext, List.dropWhile_append_of_pos hbefore]
      simp
    rw [CurlState.readHeader, htake, hdrop]
    dsimp only
    rw [if_neg hhead, String.ofList_toList, if_pos hsensitive]
  rw [hread, hread]

theorem readValue_alike {cookies : String → String → Prop}
    (hempty : ∀ value other, cookies value other → SameEmptiness value other) {compared : Prop}
    (hlook : compared → ∀ value other, cookies value other →
      (LooksLikeOption value ↔ LooksLikeOption other))
    (token : String) {option : ValueOption} {value other : String}
    (h : ValuesAlike cookies option value other) {state state' : CurlState}
    (halike : StatesAlike compared state state') :
    StatesAlike compared (state.readValue platform token (some value) option)
      (state'.readValue platform token (some other) option) := by
  have hother : ∀ {option}, option ≠ .cookie → option ≠ .user → value = other →
      StatesAlike compared (state.readValue platform token (some value) option)
        (state'.readValue platform token (some other) option) := by
    rintro option hcookie huser rfl
    exact (oblivious_readValue platform token (some value) hcookie huser).alike halike
  cases option with
  | header =>
    rcases h with heq | hsensitive
    · exact hother (by decide) (by decide) heq
    · have hsame : ∀ state : CurlState, state.readValue platform token (some value) .header =
          state.readValue platform token (some other) .header := by
        intro state
        have hhead : value.toList.head? = other.toList.head? := by
          obtain ⟨name, content, content', _, _, rfl, rfl⟩ := hsensitive
          exact head?_append_colon name content content'
        simp only [CurlState.readValue, checkValue_some, valueNotes, hhead, Option.getD_some]
        exact hsensitive.readHeader_eq _
      rw [hsame]
      exact (oblivious_readValue platform token (some other) (by decide) (by decide)).alike halike
  | cookie =>
    obtain ⟨user, cookie, warnings, rfl, huser, _, hwarnings⟩ := halike
    simp only [CurlState.readValue, checkValue_some, Option.getD_some]
    refine ⟨user, other, warnings ++ valueNotes token other, rfl, huser, hempty _ _ h,
      fun hcompared => ?_⟩
    have hnotes : valueNotes token value = valueNotes token other := by
      have hboth : value.toList.head? = some '-' ↔ other.toList.head? = some '-' :=
        hlook hcompared _ _ h
      simp only [valueNotes, hboth]
    change state.warnings ++ valueNotes token value = warnings ++ valueNotes token other
    rw [hwarnings hcompared, hnotes]
  | user =>
    obtain ⟨user, cookie, warnings, rfl, _, hcookie, hwarnings⟩ := halike
    simp only [CurlState.readValue, checkValue_some, Option.getD_some]
    refine ⟨other, cookie, warnings ++ valueNotes token other, rfl, h, hcookie,
      fun hcompared => ?_⟩
    change state.warnings ++ valueNotes token value = warnings ++ valueNotes token other
    have huser : SameUser value other := h
    rw [hwarnings hcompared, huser.valueNotes_eq]
  | request | url | data | dataUrlencode | form | proxy | maxTime | ignored =>
    exact hother (by decide) (by decide) h

/-- A missing value is the same in both lists. -/
theorem readValue_missing (token : String) (option : ValueOption) {state state' : CurlState}
    (halike : StatesAlike compared state state') :
    StatesAlike compared (state.readValue platform token none option)
      (state'.readValue platform token none option) := by
  have hcheck := (oblivious_checkValue token none).alike halike
  by_cases hcookie : option = .cookie
  · obtain ⟨user, cookie, warnings, heq, huser, _, hwarnings⟩ := hcheck
    subst hcookie
    refine ⟨user, "", warnings, ?_, huser, Iff.rfl, hwarnings⟩
    exact congrArg (fun state : CurlState => { state with cookie := "" }) heq
  · by_cases huser : option = .user
    · obtain ⟨user, cookie, warnings, heq, _, hkept, hwarnings⟩ := hcheck
      subst huser
      refine ⟨"", cookie, warnings, ?_, Or.inl rfl, hkept, hwarnings⟩
      exact congrArg (fun state : CurlState => { state with basicUser := "" }) heq
    · exact (oblivious_readValue platform token none hcookie huser).alike halike

theorem readTokens_alike {cookies : String → String → Prop}
    (hempty : ∀ value other, cookies value other → SameEmptiness value other) {compared : Prop}
    (hlook : compared → ∀ value other, cookies value other →
      (LooksLikeOption value ↔ LooksLikeOption other))
    {tokens tokens' : List String} (h : TokensAlike cookies tokens tokens') (fuel : Nat)
    {state state' : CurlState} (halike : StatesAlike compared state state') :
    StatesAlike compared (readTokens platform fuel tokens state)
      (readTokens platform fuel tokens' state') := by
  induction h generalizing fuel state state' with
  | nil =>
    rw [readTokens_nil, readTokens_nil]
    exact halike
  | value hoption hvalues _ ih =>
    cases fuel with
    | zero => exact halike
    | succ fuel =>
      rw [readTokens_value platform hoption, readTokens_value platform hoption]
      exact ih fuel (readValue_alike platform hempty hlook _ hvalues halike)
  | @missing token option hoption =>
    cases fuel with
    | zero => exact halike
    | succ fuel =>
      simp only [readTokens, hoption]
      rw [List.tail_nil, readTokens_nil, readTokens_nil]
      exact readValue_missing platform token option halike
  | flag hoption _ ih =>
    cases fuel with
    | zero => exact halike
    | succ fuel =>
      rw [readTokens_flag platform hoption, readTokens_flag platform hoption]
      exact ih fuel ((oblivious_readFlag _).alike halike)

/-! ## The imports -/

theorem SameUser.empty_iff (h : SameUser value other) : value = "" ↔ other = "" := by
  rcases h with rfl | ⟨user, password, password', _, rfl, rfl⟩
  · exact Iff.rfl
  · have hne : ∀ password : String, user ++ ":" ++ password ≠ "" := by
      intro password heq
      have hnil := congrArg String.toList heq
      simp at hnil
    exact iff_of_false (hne password) (hne password')

theorem SameUser.includes_eq (h : SameUser value other) :
    includes value ":" = includes other ":" := by
  rcases h with rfl | ⟨user, password, password', _, rfl, rfl⟩
  · rfl
  · have hall : ∀ password : String, includes (user ++ ":" ++ password) ":" = true := by
      intro password
      have hmem : ':' ∈ (user ++ ":" ++ password).toList := by simp
      exact (occursIn_singleton ':' _).trans (List.contains_iff_mem.mpr hmem)
    rw [hall, hall]

theorem SameUser.basicAuth_eq (h : SameUser value other) : basicAuth value = basicAuth other := by
  rcases h with rfl | ⟨user, password, password', huser, rfl, rfl⟩
  · rfl
  · have htake : ∀ password : String,
        (user ++ ":" ++ password).toList.takeWhile (· ≠ ':') = user.toList := by
      intro password
      have hbefore : ∀ c ∈ user.toList, decide (c ≠ ':') = true := fun c hc =>
        decide_eq_true fun heq => huser (heq ▸ hc)
      have htext : (user ++ ":" ++ password).toList = user.toList ++ ':' :: password.toList := by
        simp
      rw [htext, List.takeWhile_append_of_pos hbefore]
      simp
    rw [basicAuth, basicAuth, htake, htake]

theorem StatesAlike.request_eq {state other : CurlState} (h : StatesAlike compared state other) :
    other.request platform = state.request platform := by
  obtain ⟨user, cookie, warnings, rfl, huser, _, _⟩ := h
  simp only [CurlState.request, CurlState.override, huser.empty_iff, huser.basicAuth_eq]
  rfl

theorem StatesAlike.finalWarnings_eq {state other : CurlState}
    (h : StatesAlike compared state other) : other.finalWarnings = state.finalWarnings := by
  obtain ⟨user, cookie, warnings, rfl, huser, hcookie, _⟩ := h
  have hempty : state.cookie = "" ↔ cookie = "" := hcookie
  simp only [CurlState.finalWarnings, CurlState.override, hempty, huser.empty_iff, huser.includes_eq]
  rfl

theorem StatesAlike.refl (compared : Prop) (state : CurlState) : StatesAlike compared state state :=
  ⟨state.basicUser, state.cookie, state.warnings, rfl, Or.inl rfl, Iff.rfl, fun _ => rfl⟩

/-- Two commands with the same name and alike tokens. -/
def CommandsAlike (cookies : String → String → Prop) : List String → List String → Prop
  | [], [] => True
  | command :: tokens, command' :: tokens' =>
    command = command' ∧ TokensAlike cookies tokens tokens'
  | _, _ => False

/-- Reading two alike commands: the same error, or results with the same request. -/
theorem parseTokens_alike {cookies : String → String → Prop}
    (hempty : ∀ value other, cookies value other → SameEmptiness value other) {compared : Prop}
    (hlook : compared → ∀ value other, cookies value other →
      (LooksLikeOption value ↔ LooksLikeOption other))
    {tokens tokens' : List String} (h : CommandsAlike cookies tokens tokens') :
    (parseTokens platform tokens).map CurlImportResult.request =
        (parseTokens platform tokens').map CurlImportResult.request ∧
      (compared → parseTokens platform tokens = parseTokens platform tokens') := by
  match tokens, tokens', h with
  | [], [], _ => exact ⟨rfl, fun _ => rfl⟩
  | command :: tokens, _ :: tokens', ⟨rfl, h⟩ =>
    have halike := readTokens_alike platform hempty hlook h tokens.length
      (StatesAlike.refl compared initialState)
    have hrequest := halike.request_eq platform
    have hfinal := halike.finalWarnings_eq
    obtain ⟨user, cookie, warnings, heq, _, _, hwarnings⟩ := halike
    have hurl : (readTokens platform tokens.length tokens' initialState).url =
        (readTokens platform tokens.length tokens initialState).url := by
      rw [heq]
      rfl
    simp only [parseTokens, ← h.length_eq, hurl, hrequest, hfinal]
    split
    · split
      · exact ⟨rfl, fun _ => rfl⟩
      · refine ⟨rfl, fun hcompared => ?_⟩
        rw [hwarnings hcompared, heq]
        rfl
    · exact ⟨rfl, fun _ => rfl⟩

/-- Commands that differ in their credentials give the same request, and the same warnings when
the cookies look alike. -/
theorem credentials_dropped {tokens tokens' : List String}
    (h : CommandsAlike SameEmptiness tokens tokens') :
    (parseTokens platform tokens).map CurlImportResult.request =
        (parseTokens platform tokens').map CurlImportResult.request ∧
      (CommandsAlike SameLook tokens tokens' →
        parseTokens platform tokens = parseTokens platform tokens') := by
  constructor
  · exact (parseTokens_alike platform (fun _ _ h => h) False.elim h).1
  · intro hlook
    have hcompared := fun (_ : True) value other (h : SameLook value other) => h.2
    exact (parseTokens_alike platform (fun _ _ h => h.1) hcompared hlook).2 trivial

theorem credentials_dropped_sample :
    (parseTokens .ascii ["curl", "http://localhost/", "-H", "X-Api-Key: one", "-u", "ada:one"]).map
        CurlImportResult.request =
      (parseTokens .ascii ["curl", "http://localhost/", "-H", "X-Api-Key: two", "-u", "ada:two"]).map
        CurlImportResult.request := by
  have hheader : SensitiveHeaders "X-Api-Key: one" "X-Api-Key: two" :=
    ⟨"X-Api-Key", " one", " two", by decide, by decide +kernel, by decide, by decide⟩
  have huser : SameUser "ada:one" "ada:two" :=
    Or.inr ⟨"ada", "one", "two", by decide, by decide, by decide⟩
  have halike : TokensAlike SameEmptiness
      ["http://localhost/", "-H", "X-Api-Key: one", "-u", "ada:one"]
      ["http://localhost/", "-H", "X-Api-Key: two", "-u", "ada:two"] :=
    .flag (valueOption_eq_none (by decide))
      (.value (by decide : valueOption "-H" = some .header) (Or.inr hheader)
        (.value (by decide : valueOption "-u" = some .user) huser .nil))
  have hcommands : CommandsAlike SameEmptiness
      ["curl", "http://localhost/", "-H", "X-Api-Key: one", "-u", "ada:one"]
      ["curl", "http://localhost/", "-H", "X-Api-Key: two", "-u", "ada:two"] := ⟨rfl, halike⟩
  exact (credentials_dropped .ascii hcommands).1

/-- A cookie that looks like an option is taken for a missing value, which a warning tells. -/
theorem cookie_look_told :
    ¬∀ (platform : Platform) (tokens tokens' : List String),
      CommandsAlike SameEmptiness tokens tokens' →
        parseTokens platform tokens = parseTokens platform tokens' := by
  intro h
  have halike : TokensAlike SameEmptiness ["http://localhost/", "-b", "-sid"]
      ["http://localhost/", "-b", "sid"] :=
    .flag (valueOption_eq_none (by decide))
      (.value (by decide : valueOption "-b" = some .cookie)
        (iff_of_false (by decide) (by decide)) .nil)
  have hsame := h .ascii ["curl", "http://localhost/", "-b", "-sid"]
    ["curl", "http://localhost/", "-b", "sid"] ⟨rfl, halike⟩
  have hwarned : (parseTokens .ascii ["curl", "http://localhost/", "-b", "-sid"]).map
        (·.warnings.length) = .ok 2 := by
    decide +kernel
  have hquiet : (parseTokens .ascii ["curl", "http://localhost/", "-b", "sid"]).map
        (·.warnings.length) = .ok 1 := by
    decide +kernel
  rw [hsame, hquiet] at hwarned
  exact absurd (Except.ok.inj hwarned) (by decide)

end Curl

end ApiVoy.Workbench
