/-
# Copying a request as a curl command

A saved request is copied as a curl command with its texts in single quotes. The reader of
such commands gets the request back when its texts are ones the tokenizer leaves alone, and
when nothing in it is trimmed, changed to upper case or taken for an option.
-/

import ApiVoy.Workbench.CurlWords

namespace ApiVoy.Workbench

open Foundation Script

namespace Curl

/-! ## The writer -/

def quote (value : String) : String := String.ofList (quoted value.toList)

/-- A body is only written when it is not empty. -/
def bodyLines (body : Option String) : List String :=
  match body.filter (· ≠ "") with
  | some body => ["  --data-raw " ++ quote body]
  | none => []

/-- The command of a saved request, one line for each header. -/
def copySaved (saved : HttpWorkbenchRequest) : String :=
  " \\\n".intercalate
    (("curl --location --request " ++ saved.method ++ " " ++ quote saved.url) ::
      (saved.headers.map (fun (key, value) => "  --header " ++ quote (key ++ ": " ++ value)) ++
        bodyLines saved.body))

/-- What is copied for an entry of the tree, whose request may not be saved. -/
def onCopyRequestAsCurl (saved : Option HttpWorkbenchRequest) (method : Option String)
    (target : String) : String :=
  match saved with
  | none => "curl --location --request " ++ method.getD "GET" ++ " " ++ quote target
  | some saved => copySaved saved

/-! ## The words of the command -/

def headerWords (headers : List (String × String)) : List (Bool × Word) :=
  headers.flatMap fun (key, value) =>
    [(true, .bare "--header".toList), (false, .quoted (key ++ ": " ++ value).toList)]

def bodyWords (body : Option String) : List (Bool × Word) :=
  match body.filter (· ≠ "") with
  | some body => [(true, .bare "--data-raw".toList), (false, .quoted body.toList)]
  | none => []

def copiedWords (saved : HttpWorkbenchRequest) : List (Bool × Word) :=
  [(false, .bare "--location".toList), (false, .bare "--request".toList),
    (false, .bare saved.method.toList), (false, .quoted saved.url.toList)] ++
    (headerWords saved.headers ++ bodyWords saved.body)

variable (gap : Bool → List Char)

theorem layoutWords_append (first second : List (Bool × Word)) :
    layoutWords gap (first ++ second) = layoutWords gap first ++ layoutWords gap second := by
  induction first with
  | nil => rfl
  | cons entry first ih =>
    obtain ⟨wide, word⟩ := entry
    simp only [List.cons_append, layoutWords, ih, List.append_assoc]

theorem line_layout {line : String} (option : String) (hline : line = "  " ++ option ++ " ")
    (value : String) :
    " \\\n".toList ++ (line ++ quote value).toList =
      layoutWords writtenGap [(true, .bare option.toList), (false, .quoted value.toList)] := by
  subst hline
  simp [layoutWords, writtenGap, Word.layout, quote]

theorem copySaved_layout (saved : HttpWorkbenchRequest) :
    copySaved saved = String.ofList
      ((Word.bare "curl".toList).layout ++ layoutWords writtenGap (copiedWords saved)) := by
  have hheaders : ∀ headers : List (String × String),
      (headers.map fun (key, value) => "  --header " ++ quote (key ++ ": " ++ value)).flatMap
        (fun line => " \\\n".toList ++ line.toList) = layoutWords writtenGap (headerWords headers) := by
    intro headers
    induction headers with
    | nil => rfl
    | cons header headers ih =>
      obtain ⟨key, value⟩ := header
      have hline := line_layout "--header" rfl (key ++ ": " ++ value)
      have hwords : headerWords ((key, value) :: headers) =
          [(true, .bare "--header".toList), (false, .quoted (key ++ ": " ++ value).toList)] ++
            headerWords headers := rfl
      rw [List.map_cons, List.flatMap_cons, ih, hwords, layoutWords_append]
      exact congrArg (· ++ layoutWords writtenGap (headerWords headers)) hline
  have hbody : (bodyLines saved.body).flatMap (fun line => " \\\n".toList ++ line.toList) =
      layoutWords writtenGap (bodyWords saved.body) := by
    unfold bodyLines bodyWords
    cases saved.body.filter (· ≠ "") with
    | none => rfl
    | some body =>
      have hline := line_layout "--data-raw" rfl body
      simpa using hline
  rw [← String.ofList_toList (s := copySaved saved), copySaved, toList_intercalate_cons,
    List.flatMap_append, hheaders, hbody, copiedWords, layoutWords_append, layoutWords_append]
  simp [layoutWords, writtenGap, Word.layout, quote]

/-! ## What comes back -/

variable (platform : Platform)

/-- A header that is read as it was written. -/
structure HeaderCopyable (key value : String) : Prop where
  found : (Word.quoted (key ++ ": " ++ value).toList).Found
  key_ne : key ≠ ""
  key_trimmed : Script.trim key = key
  key_plain : ':' ∉ key.toList
  value_trimmed : Script.trim value = value

/-- A request whose command is read as it was written. -/
structure Copyable (request : HttpWorkbenchRequest) : Prop where
  method_found : (Word.bare request.method.toList).Found
  method_upper : platform.toUpperCase request.method = request.method
  url_found : (Word.quoted request.url.toList).Found
  url_ne : request.url ≠ ""
  url_plain : request.url.toList.head? ≠ some '-'
  headers : ∀ header ∈ request.headers, HeaderCopyable header.1 header.2
  body_found : ∀ body, request.body = some body → (Word.quoted body.toList).Found
  body_ne : request.body ≠ some ""
  body_method : request.body.isSome → request.method ≠ "GET"

/-- The reader gets the method, the URL, the headers and the body of a copied request back. -/
def CopiesBack (request : HttpWorkbenchRequest) : Prop :=
  ∃ read, parseCurl platform (onCopyRequestAsCurl (some request) none "") = .ok read ∧
    read.method = request.method ∧ read.url = request.url ∧ read.headers = request.headers ∧
      read.body = request.body

theorem found_literals :
    ∀ text ∈ ["curl", "--location", "--request", "--header", "--data-raw"],
      (Word.bare text.toList).Found := by
  have hall : ∀ text ∈ ["curl", "--location", "--request", "--header", "--data-raw"],
      breaksAfter '\\' text.toList = false ∧ breaksAfter '^' text.toList = false ∧
        escapes text.toList = false ∧ text.toList ≠ [] ∧ (∀ c ∈ text.toList, isSpace c = false) ∧
          text.toList.head? ≠ some '"' ∧ text.toList.head? ≠ some '\'' := by
    decide
  intro text hmem
  obtain ⟨hjoined, hcaret, hescapes, hne, hspace, hdouble, hsingle⟩ := hall text hmem
  exact ⟨⟨hjoined, hcaret, hescapes⟩, hne, hspace, hdouble, hsingle⟩

variable {request : HttpWorkbenchRequest}

theorem copiedWords_found (h : Copyable platform request) :
    ∀ entry ∈ copiedWords request, entry.2.Found := by
  have hliteral := found_literals
  have hnone : ∀ entry ∈ ([] : List (Bool × Word)), entry.2.Found := fun _ hmem => by cases hmem
  have hpair : ∀ {option value : List Char}, (Word.bare option).Found → (Word.quoted value).Found →
      ∀ entry ∈ [(true, Word.bare option), (false, Word.quoted value)], entry.2.Found :=
    fun hoption hvalue => List.forall_mem_cons.mpr ⟨hoption, List.forall_mem_cons.mpr ⟨hvalue, hnone⟩⟩
  refine List.forall_mem_append.mpr ⟨?_, List.forall_mem_append.mpr ⟨?_, ?_⟩⟩
  · simp only [List.forall_mem_cons]
    exact ⟨hliteral "--location" (by decide), hliteral "--request" (by decide), h.method_found,
      h.url_found, hnone⟩
  · intro entry hmem
    obtain ⟨header, hin, hentry⟩ := List.mem_flatMap.mp hmem
    exact hpair (hliteral "--header" (by decide)) (h.headers header hin).found entry hentry
  · unfold bodyWords
    cases hcase : request.body.filter (· ≠ "") with
    | none => exact hnone
    | some body =>
      exact hpair (hliteral "--data-raw" (by decide))
        (h.body_found body (Option.filter_eq_some_iff.mp hcase).1)

/-! ## Reading the words -/

def headerTokens (headers : List (String × String)) : List String :=
  headers.flatMap fun (key, value) => ["--header", key ++ ": " ++ value]

def bodyTokens (body : Option String) : List String :=
  body.elim [] fun body => ["--data-raw", body]

theorem trim_space (cs : List Char) :
    Script.trim (String.ofList (' ' :: cs)) = Script.trim (String.ofList cs) := by
  have hspace : isSpace ' ' = true := by decide
  rw [Script.trim, Script.trim, String.toList_ofList, String.toList_ofList, Script.trimChars,
    Script.trimChars, List.dropWhile_cons_of_pos hspace]

/-- A command that begins with a letter and ends with a quote has nothing to trim. -/
theorem trimChars_eq_self {first last : Char} (middle : List Char) (hfirst : isSpace first = false)
    (hlast : isSpace last = false) :
    Script.trimChars (first :: (middle ++ [last])) = first :: (middle ++ [last]) := by
  rw [Script.trimChars, List.dropWhile_cons_of_neg (by rw [hfirst]; exact Bool.false_ne_true),
    ← List.cons_append, List.reverse_append, List.reverse_singleton, List.singleton_append,
    List.dropWhile_cons_of_neg (by rw [hlast]; exact Bool.false_ne_true), List.reverse_cons,
    List.reverse_reverse]

theorem readHeader_plain {key value : String} (h : HeaderCopyable key value)
    (hplain : Sanitizer.isSensitiveHeaderName key = false) (state : CurlState) :
    state.readHeader (key ++ ": " ++ value) =
      { state with headers := state.headers ++ [(key, value)] } := by
  have htext : (key ++ ": " ++ value).toList = key.toList ++ ':' :: ' ' :: value.toList := by
    simp
  have hbefore : ∀ c ∈ key.toList, decide (c ≠ ':') = true := by
    intro c hc
    exact decide_eq_true fun heq => h.key_plain (heq ▸ hc)
  have htake : (key ++ ": " ++ value).toList.takeWhile (· ≠ ':') = key.toList := by
    rw [htext, List.takeWhile_append_of_pos hbefore]
    simp
  have hdrop : (key ++ ": " ++ value).toList.dropWhile (· ≠ ':') = ':' :: ' ' :: value.toList := by
    rw [htext, List.dropWhile_append_of_pos hbefore]
    simp
  have hhead : (key ++ ": " ++ value).toList.head? ≠ some ':' := by
    rw [htext]
    cases hkey : key.toList with
    | nil => exact absurd (String.toList_eq_nil_iff.mp hkey) h.key_ne
    | cons c rest =>
      intro hc
      cases hc
      exact h.key_plain (hkey ▸ List.mem_cons_self)
  rw [CurlState.readHeader, htake, hdrop]
  dsimp only
  rw [if_neg hhead, String.ofList_toList, h.key_trimmed, hplain, trim_space, String.ofList_toList,
    h.value_trimmed]
  rfl

variable {token : String}

theorem readTokens_value {option : ValueOption} (h : valueOption token = some option) (fuel : Nat)
    (value : String) (rest : List String) (state : CurlState) :
    readTokens platform (fuel + 1) (token :: value :: rest) state =
      readTokens platform fuel rest (state.readValue platform token (some value) option) := by
  rw [readTokens, h]
  rfl

theorem readTokens_flag (h : valueOption token = none) (fuel : Nat) (rest : List String)
    (state : CurlState) :
    readTokens platform (fuel + 1) (token :: rest) state =
      readTokens platform fuel rest (state.readFlag token) := by
  rw [readTokens, h]

variable (state : CurlState)

theorem checkValue_eq (token : String) (value : Option String) :
    ∃ warnings, state.checkValue token value = { state with warnings := warnings } := by
  unfold CurlState.checkValue
  split
  · exact ⟨_, rfl⟩
  · exact ⟨state.warnings, rfl⟩

/-- The headers are read in their order; what is warned of does not matter here. -/
theorem readTokens_headers {headers : List (String × String)}
    (h : ∀ header ∈ headers, HeaderCopyable header.1 header.2)
    (hplain : ∀ header ∈ headers, Sanitizer.isSensitiveHeaderName header.1 = false)
    (rest : List String) (fuel : Nat) (state : CurlState) :
    ∃ warnings, readTokens platform (headers.length + fuel) (headerTokens headers ++ rest) state =
      readTokens platform fuel rest
        { state with headers := state.headers ++ headers, warnings := warnings } := by
  induction headers generalizing state with
  | nil =>
    refine ⟨state.warnings, ?_⟩
    rw [List.length_nil, Nat.zero_add, List.append_nil]
    rfl
  | cons header headers ih =>
    obtain ⟨key, value⟩ := header
    have hoption : valueOption "--header" = some .header := by decide
    obtain ⟨warned, hwarned⟩ := checkValue_eq state "--header" (some (key ++ ": " ++ value))
    have hread : state.readValue platform "--header" (some (key ++ ": " ++ value)) .header =
        { state with headers := state.headers ++ [(key, value)], warnings := warned } := by
      change (state.checkValue "--header" (some (key ++ ": " ++ value))).readHeader
        (key ++ ": " ++ value) = _
      rw [hwarned, readHeader_plain (h (key, value) List.mem_cons_self)
        (hplain (key, value) List.mem_cons_self)]
    obtain ⟨warnings, hrest⟩ := ih (fun other hmem => h other (List.mem_cons_of_mem _ hmem))
      (fun other hmem => hplain other (List.mem_cons_of_mem _ hmem))
      { state with headers := state.headers ++ [(key, value)], warnings := warned }
    refine ⟨warnings, ?_⟩
    rw [List.length_cons, Nat.add_right_comm]
    refine (readTokens_value platform hoption _ _ _ _).trans ?_
    rw [hread]
    refine hrest.trans ?_
    rw [List.append_assoc, List.singleton_append]

theorem valueOption_eq_none (h : token.toList.head? ≠ some '-') : valueOption token = none := by
  unfold valueOption ignoredWithValue
  have hne : ∀ option : String, option.toList.head? = some '-' → token ≠ option :=
    fun option hoption heq => h (heq ▸ hoption)
  simp (disch := decide) [hne]

theorem readFlag_url {token : String} (h : token.toList.head? ≠ some '-') {state : CurlState}
    (hurl : state.url = "") : state.readFlag token = { state with url := token } := by
  have hne : ∀ option : String, option.toList.head? = some '-' → token ≠ option :=
    fun option hoption heq => h (heq ▸ hoption)
  unfold CurlState.readFlag
  simp (disch := decide) [hne, h, hurl]

theorem readTokens_nil (fuel : Nat) (state : CurlState) :
    readTokens platform fuel [] state = state := by
  cases fuel <;> rfl

theorem readValue_request {method : String} (hne : method ≠ "")
    (hupper : platform.toUpperCase method = method) :
    ∃ warnings, state.readValue platform "--request" (some method) .request =
      { state with method := method, warnings := warnings } := by
  obtain ⟨warnings, hchecked⟩ := checkValue_eq state "--request" (some method)
  refine ⟨warnings, ?_⟩
  simp only [CurlState.readValue, hchecked, Option.getD_some, hupper, if_neg hne]

/-- The data of a request that is no GET request. -/
theorem readValue_data (body : String) (hmethod : state.method ≠ "GET") :
    ∃ warnings, state.readValue platform "--data-raw" (some body) .data =
      { state with dataParts := state.dataParts ++ [body], warnings := warnings } := by
  obtain ⟨warnings, hchecked⟩ := checkValue_eq state "--data-raw" (some body)
  simp only [CurlState.readValue, hchecked, Option.getD_some]
  split
  · exact ⟨_, if_neg fun hget => hmethod hget.1⟩
  · exact ⟨_, if_neg fun hget => hmethod hget.1⟩

/-- The state after a copied command has been read. -/
def copiedState (request : HttpWorkbenchRequest) (warnings : List String) : CurlState :=
  { initialState with
    method := request.method
    url := request.url
    followRedirects := true
    headers := request.headers
    warnings := warnings
    dataParts := request.body.toList }

theorem readTokens_copied (h : Copyable platform request)
    (hplain : ∀ header ∈ request.headers, Sanitizer.isSensitiveHeaderName header.1 = false)
    (more : Nat) :
    ∃ warnings, readTokens platform (request.headers.length + (more + 1) + 3)
        ("--location" :: "--request" :: request.method :: request.url ::
          (headerTokens request.headers ++ bodyTokens request.body)) initialState =
      copiedState request warnings := by
  have hmethod : request.method ≠ "" := by
    intro hempty
    exact h.method_found.2.1 (String.toList_eq_nil_iff.mpr hempty)
  obtain ⟨warned, hrequest⟩ := readValue_request platform
    { initialState with followRedirects := true } hmethod h.method_upper
  rw [readTokens_flag platform (by decide), readTokens_value platform (by decide : _ = some .request),
    readTokens_flag platform (valueOption_eq_none h.url_plain)]
  have hlocation : initialState.readFlag "--location" =
      { initialState with followRedirects := true } := by
    simp [CurlState.readFlag]
  rw [hlocation, hrequest, readFlag_url h.url_plain rfl]
  obtain ⟨warnings, hheaders⟩ := readTokens_headers platform h.headers hplain
    (bodyTokens request.body) (more + 1)
    { initialState with
      method := request.method
      url := request.url
      followRedirects := true
      warnings := warned }
  rw [hheaders]
  unfold copiedState
  cases hbody : request.body with
  | none => exact ⟨warnings, readTokens_nil platform _ _⟩
  | some body =>
    obtain ⟨warnings', hdata⟩ := readValue_data platform
      { initialState with
        method := request.method
        url := request.url
        followRedirects := true
        headers := [] ++ request.headers
        warnings := warnings } body (h.body_method (by rw [hbody]; rfl))
    refine ⟨warnings', ?_⟩
    refine (readTokens_value platform (by decide : valueOption "--data-raw" = some .data)
      more body [] _).trans ?_
    rw [readTokens_nil]
    exact hdata

theorem tokens_copied (h : Copyable platform request) :
    shellTokens (copySaved request) =
      "curl" :: "--location" :: "--request" :: request.method :: request.url ::
        (headerTokens request.headers ++ bodyTokens request.body) := by
  rw [copySaved_layout, shellTokens_layout (found_literals "curl" (by decide))
    (copiedWords_found platform h), copiedWords, List.map_append, List.map_append]
  have hheaders : ∀ headers : List (String × String),
      (headerWords headers).map (fun entry => String.ofList entry.2.text) = headerTokens headers := by
    intro headers
    induction headers with
    | nil => rfl
    | cons header headers ih =>
      obtain ⟨key, value⟩ := header
      have hwords : headerWords ((key, value) :: headers) =
          [(true, .bare "--header".toList), (false, .quoted (key ++ ": " ++ value).toList)] ++
            headerWords headers := rfl
      rw [hwords, List.map_append, ih]
      simp only [List.map_cons, List.map_nil, Word.text, String.ofList_toList]
      rfl
  have hbody : (bodyWords request.body).map (fun entry => String.ofList entry.2.text) =
      bodyTokens request.body := by
    unfold bodyWords bodyTokens
    cases hcase : request.body with
    | none => rfl
    | some body =>
      have hne : body ≠ "" := fun hempty => h.body_ne (by rw [hcase, hempty])
      rw [Option.filter_some, if_pos (by simpa using hne)]
      simp only [List.map_cons, List.map_nil, Word.text, String.ofList_toList]
      rfl
  rw [hheaders, hbody]
  simp only [List.map_cons, List.map_nil, Word.text, String.ofList_toList]
  rfl

/-- The last word of a command is quoted. -/
def EndsQuoted (words : List (Bool × Word)) : Prop :=
  ∀ entry ∈ words.getLast?, ∃ text, entry.2 = .quoted text

theorem EndsQuoted.append {first second : List (Bool × Word)} (hfirst : EndsQuoted first)
    (hsecond : EndsQuoted second) : EndsQuoted (first ++ second) := by
  intro entry hmem
  rw [List.getLast?_append] at hmem
  cases hlast : second.getLast? with
  | none =>
    rw [hlast, Option.none_or] at hmem
    exact hfirst entry hmem
  | some last =>
    rw [hlast, Option.some_or] at hmem
    exact hsecond entry (hlast ▸ hmem)

theorem endsQuoted_pair (wide : Bool) (option value : List Char) :
    EndsQuoted [(wide, .bare option), (false, .quoted value)] := by
  intro entry hmem
  cases hmem
  exact ⟨value, rfl⟩

variable (headers : List (String × String))

theorem endsQuoted_headers : EndsQuoted (headerWords headers) := by
  induction headers with
  | nil => exact fun _ hmem => by cases hmem
  | cons header headers ih => exact (endsQuoted_pair true _ _).append ih

theorem endsQuoted_copied (request : HttpWorkbenchRequest) : EndsQuoted (copiedWords request) := by
  have hnone : EndsQuoted [] := fun _ hmem => by cases hmem
  have hbody : EndsQuoted (bodyWords request.body) := by
    unfold bodyWords
    cases request.body.filter (· ≠ "") with
    | none => exact hnone
    | some body => exact endsQuoted_pair true _ _
  refine EndsQuoted.append ?_ ((endsQuoted_headers _).append hbody)
  intro entry hmem
  cases hmem
  exact ⟨_, rfl⟩

theorem EndsQuoted.getLast?_layout {words : List (Bool × Word)} (h : EndsQuoted words)
    (hne : words ≠ []) : (layoutWords gap words).getLast? = some '\'' := by
  induction words with
  | nil => exact absurd rfl hne
  | cons entry words ih =>
    obtain ⟨wide, word⟩ := entry
    rw [layoutWords, List.getLast?_append, List.getLast?_append]
    cases words with
    | nil =>
      obtain ⟨text, rfl⟩ := h (wide, word) rfl
      simp only [layoutWords, Word.layout, quoted, ← List.cons_append, List.getLast?_concat,
        List.getLast?_nil, Option.none_or, Option.some_or]
    | cons next words =>
      have hrest : EndsQuoted (next :: words) := fun entry hmem => h entry (by
        rwa [List.getLast?_cons_cons])
      rw [ih hrest (List.cons_ne_nil _ _), Option.some_or, Option.some_or]

/-- A copied command has no white space at its ends. -/
theorem trim_copySaved (request : HttpWorkbenchRequest) :
    Script.trim (copySaved request) = copySaved request := by
  have hlast := (endsQuoted_copied request).getLast?_layout writtenGap
    (List.append_ne_nil_of_left_ne_nil (List.cons_ne_nil _ _) _)
  obtain ⟨middle, hmiddle⟩ := List.getLast?_eq_some_iff.mp hlast
  rw [copySaved_layout, hmiddle, Script.trim, String.toList_ofList]
  exact congrArg String.ofList
    (trimChars_eq_self ("url".toList ++ middle) (by decide : isSpace 'c' = false)
      (by decide : isSpace '\'' = false))

theorem length_headerTokens : (headerTokens headers).length = headers.length + headers.length := by
  induction headers with
  | nil => rfl
  | cons header headers ih =>
    have hcons : (headerTokens (header :: headers)).length =
        (headerTokens headers).length + 1 + 1 := rfl
    rw [hcons, ih, List.length_cons]
    omega

theorem length_copied (request : HttpWorkbenchRequest) :
    ("--location" :: "--request" :: request.method :: request.url ::
      (headerTokens request.headers ++ bodyTokens request.body)).length =
      request.headers.length +
        (request.headers.length + (bodyTokens request.body).length + 1) + 3 := by
  simp only [List.length_cons, List.length_append, length_headerTokens]
  omega

/-- A request that is copied comes back from its command when its texts are ones the tokenizer
leaves alone, and nothing in it is trimmed, changed to upper case or taken for an option. -/
theorem copiesBack_of_copyable {request : HttpWorkbenchRequest}
    (hplain : ∀ header ∈ request.headers, Sanitizer.isSensitiveHeaderName header.1 = false)
    (h : Copyable platform request) : CopiesBack platform request := by
  have htokens := (congrArg shellTokens (trim_copySaved request)).trans (tokens_copied platform h)
  obtain ⟨warnings, hread⟩ := readTokens_copied platform h hplain
    (request.headers.length + (bodyTokens request.body).length)
  rw [← length_copied] at hread
  have hcurl : ["curl", "curl.exe"].contains (toLowerCase "curl") = true := by decide
  have hget : ¬ (request.body.toList ≠ [] ∧ request.method = "GET") := by
    rintro ⟨hdata, hmethod⟩
    refine h.body_method ?_ hmethod
    cases hbody : request.body with
    | none => exact absurd (by rw [hbody]; rfl) hdata
    | some body => rfl
  have hparse : parseTokens platform ("curl" :: "--location" :: "--request" :: request.method ::
      request.url :: (headerTokens request.headers ++ bodyTokens request.body)) =
      .ok ⟨(copiedState request warnings).request platform, ((copiedState request warnings).warnings ++
        (copiedState request warnings).finalWarnings).eraseDups⟩ := by
    rw [parseTokens, if_pos hcurl, hread]
    exact if_neg h.url_ne
  have hread : parseCurl platform (onCopyRequestAsCurl (some request) none "") =
      .ok ((copiedState request warnings).request platform) := by
    change (parseTokens platform (shellTokens (Script.trim (copySaved request)))).map
      CurlImportResult.request = _
    rw [htokens, hparse, Except.map]
  have hurl : (copiedState request warnings).finalUrl = request.url := if_neg hget
  have hbody : (copiedState request warnings).body = request.body := by
    cases hcase : request.body with
    | none => exact if_neg fun hdata => hdata.1 (by rw [copiedState, hcase]; rfl)
    | some body =>
      have hmethod := h.body_method (by rw [hcase]; rfl)
      have hdata : (copiedState request warnings).dataParts = [body] := by
        rw [copiedState, hcase]
        rfl
      rw [CurlState.body, if_pos ⟨by rw [hdata]; exact List.cons_ne_nil _ _, hmethod⟩,
        CurlState.data, hdata, String.intercalate_singleton]
  exact ⟨_, hread, rfl, hurl, rfl, hbody⟩

/-! ## A copied request -/

/-- A request with a header. -/
def acceptRequest (url : String) : HttpWorkbenchRequest where
  id := none
  name := none
  url := url
  method := "GET"
  headers := [("Accept", "text/plain")]
  body := none
  bodyEncoding := none
  bodySource := none
  multipart := none
  timeoutMs := 30000
  vars := ∅
  assertions := []
  auth := .null
  followRedirects := false
  retryMax := 0
  retryBackoffMs := 250
  proxy := .null
  tlsVerify := true
  tlsClientCertRef := .undefined
  environmentRef := .undefined
  preScripts := none
  postScripts := none
  metadata := none

/-- A request with two headers and a body. -/
def noteRequest : HttpWorkbenchRequest :=
  { acceptRequest "http://localhost/" with
    method := "PUT"
    headers := [("Accept", "text/plain"), ("Content-Type", "application/json")]
    body := some "\x7b\"note\": \"a & b\"\x7d" }

theorem acceptRequest_copiesBack : CopiesBack .ascii noteRequest :=
  copiesBack_of_copyable .ascii
    (List.forall_mem_cons.mpr ⟨by decide +kernel, List.forall_mem_singleton.mpr (by decide +kernel)⟩)
    { method_found := ⟨⟨by decide, by decide, by decide⟩, by decide, by decide, by decide, by decide⟩
      method_upper := by decide
      url_found := ⟨⟨by decide, by decide, by decide⟩, by decide⟩
      url_ne := by decide
      url_plain := by decide
      headers := by
        refine List.forall_mem_cons.mpr ⟨?_, List.forall_mem_singleton.mpr ?_⟩
        all_goals exact
          { found := ⟨⟨by decide, by decide, by decide⟩, by decide⟩
            key_ne := by decide
            key_trimmed := by decide
            key_plain := by decide
            value_trimmed := by decide }
      body_found := by
        intro body hbody
        cases hbody
        exact ⟨⟨by decide, by decide, by decide⟩, by decide⟩
      body_ne := by decide
      body_method := fun _ => by decide }

/-- A single quote ends the URL for the reader. -/
theorem quotedUrl_cut :
    ¬∀ (platform : Platform) (request : HttpWorkbenchRequest),
      (∀ header ∈ request.headers, Sanitizer.isSensitiveHeaderName header.1 = false) →
        CopiesBack platform request := by
  intro h
  obtain ⟨read, hread, _, hurl, _⟩ := h .ascii (acceptRequest "http://localhost/o'neil")
    (List.forall_mem_singleton.mpr (by decide +kernel))
  have hcut : (parseCurl .ascii (onCopyRequestAsCurl (some (acceptRequest "http://localhost/o'neil"))
      none "")).map HttpWorkbenchRequest.url = .ok "http://localhost/o" := by
    decide +kernel
  rw [hread] at hcut
  have hsame : read.url = "http://localhost/o" := Except.ok.inj hcut
  exact absurd (hsame.symm.trans hurl) (by decide)

end Curl

end ApiVoy.Workbench
