/-
# What the arguments of curl denote

A list of arguments denotes a request, whatever the order of the options: the last explicit
method, the data as the body or, when it is asked for, as the query, and the headers in their
order. Of a command that is laid out for a shell the reader gets this request back when its texts
are ones the tokenizer leaves alone, exactly when the options stand in an order in which it keeps
the explicit method and puts the data where it belongs.
-/

import ApiVoy.Foundation.Trimming
import ApiVoy.Workbench.CurlCopy

namespace ApiVoy.Workbench

open Foundation Script

namespace Curl

/-! ## Arguments -/

inductive DataOption where
  | short | data | raw | binary | ascii
  deriving DecidableEq

/-- The supported options with their values, under their short and their long names. -/
inductive Argument where
  | request (long : Bool) (value : String)
  | url (value : String)
  | header (long : Bool) (value : String)
  | data (option : DataOption) (value : String)
  | dataUrlencode (value : String)
  | get (long : Bool)
  | location (long : Bool)
  | insecure (long : Bool)
  | proxy (long : Bool) (value : String)
  | maxTime (value : String)
  deriving DecidableEq

def DataOption.name : DataOption → String
  | .short => "-d"
  | .data => "--data"
  | .raw => "--data-raw"
  | .binary => "--data-binary"
  | .ascii => "--data-ascii"

namespace Argument

def name : Argument → String
  | request long _ => if long then "--request" else "-X"
  | url _ => "--url"
  | header long _ => if long then "--header" else "-H"
  | data option _ => option.name
  | dataUrlencode _ => "--data-urlencode"
  | get long => if long then "--get" else "-G"
  | location long => if long then "--location" else "-L"
  | insecure long => if long then "--insecure" else "-k"
  | proxy long _ => if long then "--proxy" else "-x"
  | maxTime _ => "--max-time"

def value : Argument → Option String
  | request _ value | url value | header _ value | data _ value | dataUrlencode value
  | proxy _ value | maxTime value => some value
  | get _ | location _ | insecure _ => none

def requested : Argument → Option String
  | request _ value => some value
  | _ => none

def isGet : Argument → Bool
  | get _ => true
  | _ => false

def urlValue : Argument → Option String
  | url value => some value
  | _ => none

def headerValue : Argument → Option String
  | header _ value => some value
  | _ => none

/-- Does the argument stand for what is in a file? -/
def isFile : Argument → Bool
  | header _ value => value.toList.head? = some '@'
  | data option value => option ≠ .raw && value.toList.head? = some '@'
  | dataUrlencode value => !value.toList.contains '=' && value.toList.contains '@'
  | _ => false

end Argument

/-- An option and its value in single quotes. -/
def Argument.text (arg : Argument) : String :=
  " " ++ arg.name ++
    match arg.value with
    | some value => " " ++ quote value
    | none => ""

def commandLine (args : List Argument) : String := "curl" ++ String.join (args.map Argument.text)

/-! ## What they denote -/

def isUnreserved (c : Char) : Bool := c.isAlphanum || "-._~".toList.contains c

def curlEscape (text : List Char) : List Char :=
  text.flatMap fun c =>
    if isUnreserved c then [c] else (encodeChars [c]).flatMap Percent.encodeByte

/-- The content after the first equals sign is encoded, or all of it when there is none. -/
def urlencoded (value : String) : String :=
  match value.toList.dropWhile (· ≠ '=') with
  | [] => String.ofList (curlEscape value.toList)
  | _ :: content =>
    match value.toList.takeWhile (· ≠ '=') with
    | [] => String.ofList (curlEscape content)
    | name => String.ofList (name ++ '=' :: curlEscape content)

def Argument.part : Argument → Option String
  | .data _ value => some value
  | .dataUrlencode value => some (urlencoded value)
  | _ => none

def trimBlanks (text : List Char) : String :=
  String.ofList (trimBy (fun c => c = ' ' || c = '\t') text)

/-- A header that is sent. Without a value it is one that is left out, unless a semicolon stands
for the colon. -/
def headerField (value : String) : Option (String × String) :=
  let name := value.toList.takeWhile (· ≠ ':')
  match value.toList.dropWhile (· ≠ ':') with
  | [] => if name.getLast? = some ';' then some (trimBlanks name.dropLast, "") else none
  | _ :: content =>
    if trimBlanks name = "" ∨ trimBlanks content = "" then none
    else some (trimBlanks name, trimBlanks content)

/-- Data goes to the end of the query, before the fragment. -/
def withQuery (url query : String) : String :=
  let base := url.toList.takeWhile (· ≠ '#')
  String.ofList (base ++ [if base.contains '?' then '&' else '?'] ++ query.toList ++
    url.toList.dropWhile (· ≠ '#'))

structure Denoted where
  method : String
  url : String
  headers : List (String × String)
  body : Option String
  deriving DecidableEq

def explicitMethod (args : List Argument) : Option String :=
  (args.filterMap Argument.requested).getLast?

def isGet (args : List Argument) : Bool := args.any Argument.isGet

def parts (args : List Argument) : List String := args.filterMap Argument.part

def sentHeaders (args : List Argument) : List (String × String) :=
  ((args.filterMap Argument.headerValue).filterMap headerField).filter fun header =>
    !Sanitizer.isSensitiveHeaderName header.1

/-- The request of a list of arguments with one URL, without files and without empty methods. -/
def denote (args : List Argument) : Option Denoted :=
  if args.any Argument.isFile || (args.filterMap Argument.requested).contains "" then none
  else
    match args.filterMap Argument.urlValue with
    | [url] =>
      if url = "" then none
      else
        let data := "&".intercalate (parts args)
        some
          { method := (explicitMethod args).getD
              (if isGet args then "GET" else if parts args = [] then "GET" else "POST")
            url := if isGet args ∧ parts args ≠ [] then withQuery url data else url
            headers := sentHeaders args
            body := if isGet args ∨ parts args = [] then none else some data }
    | _ => none

/-! ## What is read -/

variable (platform : Platform)

/-- The reader gets the method, the URL, the headers and the body of a command line. -/
def ReadsAs (args : List Argument) (denoted : Denoted) : Prop :=
  ∃ result, parseCurlWithWarnings platform (commandLine args) = .ok result ∧
    result.request.method = denoted.method ∧ result.request.url = denoted.url ∧
      result.request.headers = denoted.headers ∧ result.request.body = denoted.body

/-- A header that is read as it is sent: a colon stands between a name and a value, with nothing
but blanks and tabs around them, or it is none at all, or its name is sensitive. -/
def PlainHeader (value : String) : Prop :=
  let name := value.toList.takeWhile (· ≠ ':')
  match value.toList.dropWhile (· ≠ ':') with
  | [] => value.toList.getLast? = some ';' →
      Sanitizer.isSensitiveHeaderName (trimBlanks name.dropLast) = true
  | _ :: content =>
    name = [] ∨
      (Sanitizer.isSensitiveHeaderName (Script.trim (String.ofList name)) = true ∧
        (trimBlanks name = "" ∨ trimBlanks content = "" ∨
          Sanitizer.isSensitiveHeaderName (trimBlanks name) = true)) ∨
      (trimBlanks name ≠ "" ∧ Script.trim (String.ofList name) = trimBlanks name) ∧
        trimBlanks content ≠ "" ∧ Script.trim (String.ofList content) = trimBlanks content

/-- Content whose escapes are the ones of `encodeURIComponent`. -/
def PlainContent (value : String) : Prop :=
  value.toList.head? ≠ some '=' ∧ ∀ c ∈ "!*'()".toList,
    c ∉ (if value.toList.contains '=' then value.toList.dropWhile (· ≠ '=') else value.toList)

/-- An argument that is read as it is meant: its value is one the tokenizer leaves alone, a method
is in upper case, and a header and a part that is encoded are plain. -/
def Argument.Plain (arg : Argument) : Prop :=
  (∀ value ∈ arg.value, (Word.quoted value.toList).Found) ∧
    match arg with
    | .request _ value => platform.toUpperCase value = value
    | .header _ value => PlainHeader value
    | .dataUrlencode value => PlainContent value
    | _ => True

/-- Is the last of the options for a method an explicit one? -/
def requestLast (args : List Argument) : Bool :=
  (args.filter fun arg => arg.isGet || arg.requested.isSome).getLast?.any (·.requested.isSome)

/-- The order of the options keeps the explicit method, and the data where it belongs. -/
def KeepsOrder (args : List Argument) : Prop :=
  match explicitMethod args with
  | none => True
  | some method =>
    if isGet args then method = "GET" ∨ (requestLast args ∧ parts args = [])
    else method ≠ "GET" ∨ parts args = []

/-- No data goes behind the fragment of a URL. -/
def KeepsFragment (args : List Argument) : Prop :=
  isGet args → parts args ≠ [] → ∀ url ∈ args.filterMap Argument.urlValue, '#' ∉ url.toList

/-! ## The words of a command line -/

def Argument.words (arg : Argument) : List (Bool × Word) :=
  (false, .bare arg.name.toList) ::
    match arg.value with
    | some value => [(false, .quoted value.toList)]
    | none => []

def Argument.tokens (arg : Argument) : List String := arg.name :: arg.value.toList

theorem Argument.text_layout (arg : Argument) :
    arg.text.toList = layoutWords writtenGap arg.words := by
  unfold Argument.text Argument.words
  cases arg.value with
  | none => simp [layoutWords, writtenGap, Word.layout]
  | some value => simp [layoutWords, writtenGap, Word.layout, quote]

theorem toList_commandLine (args : List Argument) :
    (commandLine args).toList =
      (Word.bare "curl".toList).layout ++ layoutWords writtenGap (args.flatMap Argument.words) := by
  have htexts : (String.join (args.map Argument.text)).toList =
      layoutWords writtenGap (args.flatMap Argument.words) := by
    induction args with
    | nil => rfl
    | cons arg args ih =>
      rw [List.map_cons, String.join_cons, String.toList_append, ih, arg.text_layout,
        List.flatMap_cons, layoutWords_append]
  rw [commandLine, String.toList_append, htexts]
  rfl

def optionNames : List String :=
  ["-X", "--request", "--url", "-H", "--header", "-d", "--data", "--data-raw", "--data-binary",
    "--data-ascii", "--data-urlencode", "-G", "--get", "-L", "--location", "-k", "--insecure", "-x",
    "--proxy", "--max-time"]

theorem Argument.name_found (arg : Argument) : (Word.bare arg.name.toList).Found := by
  have hall : ∀ text ∈ optionNames,
      breaksAfter '\\' text.toList = false ∧ breaksAfter '^' text.toList = false ∧
        escapes text.toList = false ∧ text.toList ≠ [] ∧ (∀ c ∈ text.toList, isSpace c = false) ∧
          text.toList.head? ≠ some '"' ∧ text.toList.head? ≠ some '\'' := by
    decide
  have hmem : arg.name ∈ optionNames := by
    cases arg with
    | request long | header long | get long | location long | insecure long | proxy long =>
      cases long <;> simp [optionNames, Argument.name]
    | data option => cases option <;> simp [optionNames, Argument.name, DataOption.name]
    | url | dataUrlencode | maxTime => simp [optionNames, Argument.name]
  have hname := hall arg.name hmem
  exact ⟨⟨hname.1, hname.2.1, hname.2.2.1⟩, hname.2.2.2⟩

variable {arg : Argument}

theorem Argument.words_found (h : ∀ value ∈ arg.value, (Word.quoted value.toList).Found) :
    ∀ entry ∈ arg.words, entry.2.Found := by
  unfold Argument.words
  intro entry hentry
  rcases List.mem_cons.mp hentry with rfl | hvalue
  · exact arg.name_found
  · cases hcase : arg.value with
    | none => rw [hcase] at hvalue; cases hvalue
    | some value =>
      rw [hcase] at hvalue
      cases List.mem_singleton.mp hvalue
      exact h value hcase

/-- A word that is found does not end in white space. -/
theorem Word.Found.getLast {word : Word} (h : word.Found) :
    ∀ c ∈ word.layout.getLast?, isSpace c = false := by
  intro c hc
  cases word with
  | bare text => exact h.2.2.1 c (List.mem_of_getLast? hc)
  | quoted text =>
    rw [Word.layout, Curl.quoted, ← List.cons_append, List.getLast?_concat] at hc
    cases hc
    decide

theorem getLast_layoutWords (gap : Bool → List Char) {front : List Char}
    (hfront : ∀ c ∈ front.getLast?, isSpace c = false) {words : List (Bool × Word)}
    (h : ∀ entry ∈ words, entry.2.Found) :
    ∀ c ∈ (front ++ layoutWords gap words).getLast?, isSpace c = false := by
  induction words generalizing front with
  | nil =>
    rw [layoutWords, List.append_nil]
    exact hfront
  | cons entry words ih =>
    have hword := h entry List.mem_cons_self
    have hlast : ∀ c ∈ (front ++ gap entry.1 ++ entry.2.layout).getLast?, isSpace c = false := by
      intro c hc
      have hne : entry.2.layout ≠ [] := List.length_pos_iff.mp hword.length_pos
      rw [List.getLast?_append_of_ne_nil _ hne] at hc
      exact hword.getLast c hc
    have hrest := ih hlast fun other hmem => h other (List.mem_cons_of_mem _ hmem)
    rwa [List.append_assoc, List.append_assoc] at hrest

variable {args : List Argument}

/-- The tokens of a command line are the options and their values. -/
theorem shellTokens_commandLine
    (h : ∀ arg ∈ args, ∀ value ∈ arg.value, (Word.quoted value.toList).Found) :
    shellTokens (Script.trim (commandLine args)) = "curl" :: args.flatMap Argument.tokens := by
  have hcurl : (Word.bare "curl".toList).Found := found_literals "curl" (by decide)
  have hwords : ∀ entry ∈ args.flatMap Argument.words, entry.2.Found := by
    intro entry hentry
    obtain ⟨arg, harg, hin⟩ := List.mem_flatMap.mp hentry
    exact Argument.words_found (h arg harg) entry hin
  have htrim : Script.trimChars (commandLine args).toList = (commandLine args).toList := by
    refine trimChars_eq_self_iff.mpr ⟨?_, ?_⟩
    · intro c hc
      rw [toList_commandLine] at hc
      cases hc
      decide
    · rw [toList_commandLine]
      exact getLast_layoutWords writtenGap hcurl.getLast hwords
  have htokens : (args.flatMap Argument.words).map (fun entry => String.ofList entry.2.text) =
      args.flatMap Argument.tokens := by
    rw [List.map_flatMap]
    congr 1
    funext arg
    unfold Argument.words Argument.tokens
    cases arg.value <;> simp [Word.text]
  rw [Script.trim, htrim, toList_commandLine, shellTokens_layout hcurl hwords, htokens]
  rfl

/-! ## Reading an argument -/

def Argument.read (state : CurlState) (arg : Argument) : CurlState :=
  match valueOption arg.name with
  | some option => state.readValue platform arg.name arg.value option
  | none => state.readFlag arg.name

theorem Argument.valueOption_name (arg : Argument) :
    valueOption arg.name = match arg with
      | request _ _ => some .request
      | url _ => some .url
      | header _ _ => some .header
      | data _ _ => some .data
      | dataUrlencode _ => some .dataUrlencode
      | proxy _ _ => some .proxy
      | maxTime _ => some .maxTime
      | get _ | location _ | insecure _ => none := by
  cases arg with
  | request long | header long | get long | location long | insecure long | proxy long =>
    cases long <;> simp [name, valueOption, ignoredWithValue]
  | data option => cases option <;> simp [name, DataOption.name, valueOption]
  | url | dataUrlencode | maxTime => simp [name, valueOption]

theorem readTokens_arguments (args : List Argument) {fuel : Nat}
    (hfuel : (args.flatMap Argument.tokens).length ≤ fuel) (state : CurlState) :
    readTokens platform fuel (args.flatMap Argument.tokens) state =
      args.foldl (Argument.read platform) state := by
  induction args generalizing fuel state with
  | nil => exact readTokens_nil platform fuel state
  | cons arg args ih =>
    rw [List.flatMap_cons] at hfuel ⊢
    rw [List.length_append] at hfuel
    rw [List.foldl_cons]
    have hone : 1 ≤ arg.tokens.length := Nat.le_add_left 1 _
    obtain ⟨more, rfl⟩ : ∃ more, fuel = more + 1 := ⟨fuel - 1, by omega⟩
    have hlength : (args.flatMap Argument.tokens).length ≤ more := by omega
    have hoption := arg.valueOption_name
    cases hvalue : arg.value with
    | none =>
      have htokens : arg.tokens = [arg.name] := by rw [Argument.tokens, hvalue]; rfl
      have hnone : valueOption arg.name = none := by
        rw [hoption]
        cases arg <;> first | rfl | cases hvalue
      rw [htokens, List.singleton_append, readTokens_flag platform hnone, ih hlength]
      rw [Argument.read, hnone]
    | some value =>
      have htokens : arg.tokens = [arg.name, value] := by rw [Argument.tokens, hvalue]; rfl
      obtain ⟨option, hsome⟩ : ∃ option, valueOption arg.name = some option := by
        rw [hoption]
        cases arg <;> first | exact ⟨_, rfl⟩ | cases hvalue
      rw [htokens, List.cons_append, List.singleton_append, readTokens_value platform hsome,
        ih hlength, Argument.read, hsome, hvalue]

/-- What a plain argument does to the method and to the data being asked for in the query. -/
def methodStep (state : String × Bool) (arg : Argument) : String × Bool :=
  match arg with
  | .request _ value => (value, state.2)
  | .get _ => ("GET", true)
  | .data _ _ | .dataUrlencode _ =>
    (if state.1 = "GET" ∧ state.2 = false then "POST" else state.1, state.2)
  | _ => state

def Argument.sent (arg : Argument) : List (String × String) :=
  ((arg.headerValue.bind headerField).filter fun header =>
    !Sanitizer.isSensitiveHeaderName header.1).toList

/-- What reading an argument does to the parts of the state that make the request. -/
structure Advances (arg : Argument) (before after : CurlState) : Prop where
  method : (after.method, after.forceGet) = methodStep (before.method, before.forceGet) arg
  url : after.url = arg.urlValue.getD before.url
  headers : after.headers = before.headers ++ arg.sent
  dataParts : after.dataParts = before.dataParts ++ arg.part.toList

theorem advances_data (state : CurlState) (warnings : List String) (arg : Argument) {part : String}
    (hpart : arg.part = some part)
    (hstep : methodStep (state.method, state.forceGet) arg =
      (if state.method = "GET" ∧ state.forceGet = false then "POST" else state.method,
        state.forceGet))
    (hurl : arg.urlValue = none) (hsent : arg.sent = []) :
    Advances arg state (({ state with
      dataParts := state.dataParts ++ [part], warnings := warnings } : CurlState).withBody) := by
  rw [withBody_eq]
  exact
    { method := hstep.symm
      url := by rw [hurl]; rfl
      headers := by rw [hsent, List.append_nil]
      dataParts := by rw [hpart]; rfl }

variable {value : String}

theorem encodedPart_eq (h : PlainContent value) : encodedPart value = urlencoded value := by
  have hchar : ∀ c : Char, c ∉ "!*'()".toList →
      Percent.encodeChar c =
        if isUnreserved c then [c] else (encodeChars [c]).flatMap Percent.encodeByte := by
    intro c hc
    have hsame : Percent.isUnescaped c = isUnreserved c := by
      simp only [Percent.isUnescaped, isUnreserved] at hc ⊢
      simp at hc
      simp [hc, Bool.or_left_comm]
    rw [Percent.encodeChar, hsame]
  have hescape : ∀ text : List Char, (∀ c ∈ "!*'()".toList, c ∉ text) →
      text.flatMap Percent.encodeChar = curlEscape text := by
    intro text htext
    rw [curlEscape]
    refine List.flatMap_congr fun c hc => hchar c fun hspecial => htext c hspecial hc
  obtain ⟨hhead, hspecial⟩ := h
  unfold encodedPart urlencoded
  cases hdrop : value.toList.dropWhile (· ≠ '=') with
  | nil =>
    have hnot : value.toList.contains '=' = false := by
      have hall := List.dropWhile_eq_nil_iff.mp hdrop
      simpa using fun hmem => of_decide_eq_true (hall '=' hmem) rfl
    rw [hnot] at hspecial
    exact congrArg String.ofList (hescape _ hspecial)
  | cons mark content =>
    have hcontains : value.toList.contains '=' = true := by
      by_contra hnot
      have hall : value.toList.dropWhile (· ≠ '=') = [] := by
        refine List.dropWhile_eq_nil_iff.mpr fun c hc => decide_eq_true fun heq => hnot ?_
        exact List.contains_iff_mem.mpr (heq ▸ hc)
      rw [hall] at hdrop
      cases hdrop
    rw [hcontains, if_pos rfl, hdrop] at hspecial
    have hcontent := hescape content fun c hc hmem => hspecial c hc (List.mem_cons_of_mem _ hmem)
    cases htake : value.toList.takeWhile (· ≠ '=') with
    | nil =>
      refine absurd ?_ hhead
      cases htext : value.toList with
      | nil => rw [htext] at hdrop; cases hdrop
      | cons c rest =>
        rw [htext, List.takeWhile_cons] at htake
        by_cases hc : c = '='
        · rw [hc]
          rfl
        · rw [if_pos (decide_eq_true hc)] at htake
          cases htake
    | cons c name =>
      refine String.toList_inj.mp ?_
      simp [Percent.encodeURIComponent, hcontent]

theorem readHeader_field (h : PlainHeader value) (state : CurlState) :
    ∃ warnings, state.readHeader value = { state with
      headers := state.headers ++ ((headerField value).filter fun header =>
        !Sanitizer.isSensitiveHeaderName header.1).toList
      warnings := warnings } := by
  have hnone : ∀ warnings, ({ state with warnings := warnings } : CurlState) = { state with
      headers := state.headers ++ ((none : Option (String × String)).filter fun header =>
        !Sanitizer.isSensitiveHeaderName header.1).toList
      warnings := warnings } := by
    intro warnings
    simp
  unfold PlainHeader at h
  unfold CurlState.readHeader headerField
  cases hdrop : value.toList.dropWhile (· ≠ ':') with
  | nil =>
    have htake : value.toList.takeWhile (· ≠ ':') = value.toList := by
      have happend := List.takeWhile_append_dropWhile (p := (· ≠ ':')) (l := value.toList)
      rwa [hdrop, List.append_nil] at happend
    simp only [hdrop] at h
    rw [htake] at h
    dsimp only
    rw [htake]
    by_cases hlast : value.toList.getLast? = some ';'
    · rw [if_pos hlast, Option.filter_some, h hlast]
      exact ⟨_, hnone _⟩
    · rw [if_neg hlast]
      exact ⟨_, hnone _⟩
  | cons mark content =>
    simp only [hdrop] at h
    dsimp only
    by_cases hfirst : value.toList.head? = some ':'
    · have htake : value.toList.takeWhile (· ≠ ':') = [] := by
        cases htext : value.toList with
        | nil => rfl
        | cons c rest =>
          rw [htext] at hfirst
          cases hfirst
          rfl
      rw [if_pos hfirst, if_pos (Or.inl (by rw [htake]; rfl))]
      exact ⟨_, hnone _⟩
    · have htake : value.toList.takeWhile (· ≠ ':') ≠ [] := by
        cases htext : value.toList with
        | nil => rw [htext] at hdrop; cases hdrop
        | cons c rest =>
          have hc : c ≠ ':' := fun heq => hfirst (by rw [htext, heq]; rfl)
          rw [List.takeWhile_cons, if_pos (decide_eq_true hc)]
          exact List.cons_ne_nil _ _
      rw [if_neg hfirst]
      rcases h.resolve_left htake with ⟨hsensitive, hleft⟩ | ⟨⟨hname, hnamed⟩, hcontent, htrimmed⟩
      · rw [if_pos hsensitive]
        by_cases hempty : trimBlanks (value.toList.takeWhile (· ≠ ':')) = "" ∨
            trimBlanks content = ""
        · rw [if_pos hempty]
          exact ⟨_, hnone _⟩
        · have hname := hleft.resolve_left (not_or.mp hempty).1 |>.resolve_left (not_or.mp hempty).2
          rw [if_neg hempty, Option.filter_some, hname]
          exact ⟨_, hnone _⟩
      rw [if_neg (not_or.mpr ⟨hname, hcontent⟩), hnamed, htrimmed]
      cases hsensitive : Sanitizer.isSensitiveHeaderName
          (trimBlanks (value.toList.takeWhile (· ≠ ':'))) with
      | true =>
        have hfilter := @Option.filter_some _ (fun header : String × String =>
          !Sanitizer.isSensitiveHeaderName header.1)
          (trimBlanks (value.toList.takeWhile (· ≠ ':')), trimBlanks content)
        rw [hsensitive] at hfilter
        rw [if_pos rfl, hfilter]
        exact ⟨_, hnone _⟩
      | false =>
        rw [if_neg Bool.false_ne_true, Option.filter_some, hsensitive]
        exact ⟨state.warnings, rfl⟩

/-- An argument is read as it is meant. -/
theorem read_advances (hplain : arg.Plain platform) (hfile : arg.isFile = false)
    (hmethod : arg.requested ≠ some "") (state : CurlState) :
    Advances arg state (arg.read platform state) := by
  have hoption := arg.valueOption_name
  obtain ⟨warned, hwarned⟩ := checkValue_eq state arg.name arg.value
  cases arg with
  | request long value =>
    simp only [Argument.value] at hwarned
    have hupper : platform.toUpperCase value = value := hplain.2
    have hne : value ≠ "" := fun hempty => hmethod (congrArg some hempty)
    simp only [Argument.read, hoption, CurlState.readValue, hwarned, Argument.value,
      Option.getD_some, hupper, if_neg hne]
    exact ⟨rfl, rfl, (List.append_nil _).symm, (List.append_nil _).symm⟩
  | header long value =>
    simp only [Argument.value] at hwarned
    obtain ⟨warnings, hread⟩ := readHeader_field (hplain.2 : PlainHeader value)
      { state with warnings := warned }
    simp only [Argument.read, hoption, CurlState.readValue, hwarned, Argument.value,
      Option.getD_some, hread]
    exact ⟨rfl, rfl, rfl, (List.append_nil _).symm⟩
  | data option value =>
    simp only [Argument.value] at hwarned
    simp only [Argument.read, hoption, CurlState.readValue, hwarned, Argument.value,
      Option.getD_some]
    split
    · exact advances_data state _ (.data option value) rfl rfl rfl rfl
    · exact advances_data state warned (.data option value) rfl rfl rfl rfl
  | dataUrlencode value =>
    simp only [Argument.value] at hwarned
    simp only [Argument.read, hoption, CurlState.readValue, hwarned, Argument.value,
      Option.getD_some, encodedPart_eq (hplain.2 : PlainContent value)]
    exact advances_data state warned (.dataUrlencode value) rfl rfl rfl rfl
  | get long =>
    have hread : state.readFlag (Argument.get long).name =
        { state with method := "GET", forceGet := true } := by
      cases long <;> simp [Argument.name, CurlState.readFlag]
    simp only [Argument.read, hoption, hread]
    exact ⟨rfl, rfl, (List.append_nil _).symm, (List.append_nil _).symm⟩
  | location long =>
    have hread : state.readFlag (Argument.location long).name =
        { state with followRedirects := true } := by
      cases long <;> simp [Argument.name, CurlState.readFlag]
    simp only [Argument.read, hoption, hread]
    exact ⟨rfl, rfl, (List.append_nil _).symm, (List.append_nil _).symm⟩
  | insecure long =>
    have hread : state.readFlag (Argument.insecure long).name =
        { state with tlsVerify := false } := by
      cases long <;> simp [Argument.name, CurlState.readFlag]
    simp only [Argument.read, hoption, hread]
    exact ⟨rfl, rfl, (List.append_nil _).symm, (List.append_nil _).symm⟩
  | url | proxy =>
    simp only [Argument.value] at hwarned
    simp only [Argument.read, hoption, CurlState.readValue, hwarned, Argument.value,
      Option.getD_some]
    exact ⟨rfl, rfl, (List.append_nil _).symm, (List.append_nil _).symm⟩
  | maxTime value =>
    simp only [Argument.value] at hwarned
    simp only [Argument.read, hoption, CurlState.readValue, hwarned, Argument.value,
      Option.getD_some]
    split
    · exact ⟨rfl, rfl, (List.append_nil _).symm, (List.append_nil _).symm⟩
    · exact ⟨rfl, rfl, (List.append_nil _).symm, (List.append_nil _).symm⟩

/-- What reading all of the arguments does. -/
theorem run_advances (h : ∀ arg ∈ args, ∀ state, Advances arg state (arg.read platform state))
    (state : CurlState) : let after := args.foldl (Argument.read platform) state
    (after.method, after.forceGet) = args.foldl methodStep (state.method, state.forceGet) ∧
      after.url = ((args.filterMap Argument.urlValue).getLast?).getD state.url ∧
      after.headers = state.headers ++ args.flatMap Argument.sent ∧
      after.dataParts = state.dataParts ++ parts args := by
  induction args generalizing state with
  | nil => exact ⟨rfl, rfl, (List.append_nil _).symm, (List.append_nil _).symm⟩
  | cons arg args ih =>
    have hstep := h arg List.mem_cons_self state
    obtain ⟨hmethod, hurl, hheaders, hparts⟩ :=
      ih (fun other hmem => h other (List.mem_cons_of_mem _ hmem)) (arg.read platform state)
    simp only [List.foldl_cons]
    refine ⟨?_, ?_, ?_, ?_⟩
    · rw [hmethod, hstep.method]
    · rw [hurl, hstep.url]
      cases hvalue : arg.urlValue with
      | none => rw [List.filterMap_cons_none hvalue]; rfl
      | some url =>
        rw [List.filterMap_cons_some hvalue, List.getLast?_cons, Option.getD_some]
        rfl
    · rw [hheaders, hstep.headers, List.flatMap_cons, List.append_assoc]
    · rw [hparts, hstep.dataParts, List.append_assoc]
      unfold parts
      cases hpart : arg.part with
      | none => rw [List.filterMap_cons_none hpart]; rfl
      | some part => rw [List.filterMap_cons_some hpart]; rfl

theorem flatMap_sent (args : List Argument) : args.flatMap Argument.sent = sentHeaders args := by
  unfold sentHeaders
  induction args with
  | nil => rfl
  | cons arg args ih =>
    rw [List.flatMap_cons, ih, Argument.sent]
    cases hvalue : arg.headerValue with
    | none => rw [List.filterMap_cons_none hvalue]; rfl
    | some value =>
      rw [List.filterMap_cons_some hvalue, Option.bind_some]
      cases hfield : headerField value with
      | none => rw [List.filterMap_cons_none hfield]; rfl
      | some header =>
        rw [List.filterMap_cons_some hfield, List.filter_cons, Option.filter_some]
        cases Sanitizer.isSensitiveHeaderName header.1 <;> rfl

/-! ## The method -/

/-- The method that has been read and whether the data is for the query. -/
def methodOf (args : List Argument) : String × Bool := args.foldl methodStep ("GET", false)

theorem methodOf_concat (args : List Argument) (arg : Argument) :
    methodOf (args ++ [arg]) = methodStep (methodOf args) arg := by
  rw [methodOf, List.foldl_append]
  rfl

theorem methodOf_snd (args : List Argument) : (methodOf args).2 = isGet args := by
  induction args using List.reverseRecOn with
  | nil => rfl
  | append_singleton args arg ih =>
    rw [methodOf_concat, isGet, List.any_append, ← isGet, ← ih]
    cases arg <;> simp [methodStep, Argument.isGet]

theorem explicitMethod_concat (args : List Argument) (arg : Argument) :
    explicitMethod (args ++ [arg]) = arg.requested.or (explicitMethod args) := by
  unfold explicitMethod
  rw [List.filterMap_append, List.getLast?_append]
  cases hvalue : arg.requested with
  | none => rw [List.filterMap_cons_none hvalue]; rfl
  | some value => rw [List.filterMap_cons_some hvalue]; rfl

theorem parts_concat (args : List Argument) (arg : Argument) :
    parts (args ++ [arg]) = parts args ++ arg.part.toList := by
  unfold parts
  rw [List.filterMap_append]
  cases hvalue : arg.part with
  | none => rw [List.filterMap_cons_none hvalue]; rfl
  | some value => rw [List.filterMap_cons_some hvalue]; rfl

/-- Without an explicit method the data decides. -/
theorem methodOf_implicit (h : explicitMethod args = none) :
    (methodOf args).1 = if isGet args then "GET" else if parts args = [] then "GET" else "POST" := by
  induction args using List.reverseRecOn with
  | nil => rfl
  | append_singleton args arg ih =>
    rw [explicitMethod_concat] at h
    have hforced := methodOf_snd args
    have hrest := ih (Option.or_eq_none_iff.mp h).2
    have hget : isGet (args ++ [arg]) = (isGet args || arg.isGet) := by
      simp [isGet]
    rw [methodOf_concat, parts_concat, hget]
    cases arg with
    | request long value => cases (Option.or_eq_none_iff.mp h).1
    | get long => simp [methodStep, Argument.isGet]
    | data | dataUrlencode =>
      simp only [methodStep, hrest, hforced, Argument.isGet, Argument.part]
      cases isGet args <;> by_cases hparts : parts args = [] <;> simp [hparts]
    | url | header | location | insecure | proxy | maxTime =>
      simp [methodStep, hrest, Argument.isGet, Argument.part]

variable {method : String}

/-- Data behind an explicit GET makes it a POST. -/
theorem methodOf_explicit (h : explicitMethod args = some method) (hget : isGet args = false) :
    ((method ≠ "GET" ∨ parts args = []) → (methodOf args).1 = method) ∧
      (method = "GET" → (methodOf args).1 = "GET" ∨ (methodOf args).1 = "POST") := by
  induction args using List.reverseRecOn with
  | nil => cases h
  | append_singleton args arg ih =>
    rw [explicitMethod_concat] at h
    have hsplit : isGet (args ++ [arg]) = (isGet args || arg.isGet) := by
      simp [isGet]
    rw [hsplit, Bool.or_eq_false_iff] at hget
    have hforced := methodOf_snd args
    rw [hget.1] at hforced
    rw [methodOf_concat, parts_concat]
    cases arg with
    | request long value =>
      have hvalue : value = method := Option.some.inj h
      exact ⟨fun _ => hvalue, fun heq => Or.inl (hvalue.trans heq)⟩
    | get long => cases hget.2
    | data | dataUrlencode =>
      obtain ⟨hkeeps, heither⟩ := ih h hget.1
      simp only [methodStep, hforced, Argument.part, and_true]
      refine ⟨fun hcase => ?_, fun heq => ?_⟩
      · have hne := hcase.resolve_right (List.append_ne_nil_of_right_ne_nil _ (List.cons_ne_nil _ _))
        rw [hkeeps (Or.inl hne), if_neg hne]
      · rcases heither heq with heither | heither <;> simp [heither]
    | url | header | location | insecure | proxy | maxTime =>
      simpa [methodStep, Argument.part] using ih h hget.1

theorem requestLast_concat (args : List Argument) (arg : Argument) :
    requestLast (args ++ [arg]) =
      if arg.isGet || arg.requested.isSome then arg.requested.isSome else requestLast args := by
  unfold requestLast
  rw [List.filter_append, List.filter_singleton]
  cases arg.isGet || arg.requested.isSome with
  | true =>
    rw [cond_true, List.getLast?_concat]
    rfl
  | false =>
    rw [cond_false, List.append_nil]
    rfl

/-- With the data in the query the last option for a method decides. -/
theorem methodOf_get (h : explicitMethod args = some method) (hget : isGet args = true) :
    (methodOf args).1 = if requestLast args then method else "GET" := by
  induction args using List.reverseRecOn with
  | nil => cases h
  | append_singleton args arg ih =>
    rw [explicitMethod_concat] at h
    have hsplit : isGet (args ++ [arg]) = (isGet args || arg.isGet) := by
      simp [isGet]
    rw [hsplit, Bool.or_eq_true_iff] at hget
    rw [methodOf_concat, requestLast_concat]
    cases arg with
    | request long value =>
      have hvalue : value = method := Option.some.inj h
      simp [methodStep, Argument.requested, hvalue]
    | get long => simp [methodStep, Argument.isGet, Argument.requested]
    | data option value | dataUrlencode value =>
      have hbefore : isGet args = true := hget.resolve_right Bool.false_ne_true
      have hforced := (methodOf_snd args).trans hbefore
      simpa [methodStep, hforced, Argument.isGet, Argument.requested] using ih h hbefore
    | url | header | location | insecure | proxy | maxTime =>
      have hbefore : isGet args = true := hget.resolve_right Bool.false_ne_true
      simpa [methodStep, Argument.isGet, Argument.requested] using ih h hbefore

/-! ## The request -/

theorem mem_filterMap_requested (hmem : arg ∈ args) (hvalue : arg.requested = some value) :
    value ∈ args.filterMap Argument.requested := List.mem_filterMap.mpr ⟨arg, hmem, hvalue⟩

variable {denoted : Denoted}

/-- The state after the arguments of a command that denotes a request. -/
theorem parse_commandLine (hdenote : denote args = some denoted)
    (hplain : ∀ arg ∈ args, arg.Plain platform) :
    ∃ (state : CurlState) (result : CurlImportResult),
      parseCurlWithWarnings platform (commandLine args) = .ok result ∧
        result.request = state.request platform ∧ (state.method, state.forceGet) = methodOf args ∧
          args.filterMap Argument.urlValue = [state.url] ∧ state.headers = sentHeaders args ∧
            state.dataParts = parts args := by
  unfold denote at hdenote
  split at hdenote
  · cases hdenote
  rename_i hfiles
  rw [Bool.or_eq_true_iff, not_or] at hfiles
  split at hdenote
  swap
  · cases hdenote
  rename_i url hurls
  split at hdenote
  · cases hdenote
  rename_i hurl
  have hadvances : ∀ arg ∈ args, ∀ state, Advances arg state (arg.read platform state) := by
    intro arg hmem state
    refine read_advances platform (hplain arg hmem) ?_ ?_ state
    · have hnone := List.any_eq_false.mp (Bool.not_eq_true _ ▸ hfiles.1) arg hmem
      exact Bool.not_eq_true _ ▸ hnone
    · intro hempty
      exact hfiles.2 (List.contains_iff_mem.mpr (mem_filterMap_requested hmem hempty))
  obtain ⟨hmethod, hread, hheaders, hparts⟩ := run_advances platform hadvances initialState
  have htokens := shellTokens_commandLine fun arg hmem => (hplain arg hmem).1
  have hcurl : ["curl", "curl.exe"].contains (toLowerCase "curl") = true := by decide
  rw [hurls] at hread
  have hread : (args.foldl (Argument.read platform) initialState).url = url := hread
  have hparse : parseCurlWithWarnings platform (commandLine args) =
      .ok ⟨(args.foldl (Argument.read platform) initialState).request platform,
        ((args.foldl (Argument.read platform) initialState).warnings ++
          (args.foldl (Argument.read platform) initialState).finalWarnings).eraseDups⟩ := by
    rw [parseCurlWithWarnings, htokens, parseTokens, if_pos hcurl,
      readTokens_arguments platform args le_rfl]
    exact if_neg (by rw [hread]; exact hurl)
  refine ⟨_, _, hparse, rfl, hmethod, ?_, ?_, hparts⟩
  · rw [hurls, hread]
  · rw [hheaders, flatMap_sent]
    rfl

theorem denote_eq {url : String} (hdenote : denote args = some denoted)
    (hurl : args.filterMap Argument.urlValue = [url]) :
    denoted =
      { method := (explicitMethod args).getD
          (if isGet args then "GET" else if parts args = [] then "GET" else "POST")
        url := if isGet args ∧ parts args ≠ [] then withQuery url ("&".intercalate (parts args))
          else url
        headers := sentHeaders args
        body := if isGet args ∨ parts args = [] then none
          else some ("&".intercalate (parts args)) } := by
  unfold denote at hdenote
  rw [hurl] at hdenote
  split at hdenote
  · cases hdenote
  · dsimp only at hdenote
    split at hdenote
    · cases hdenote
    · exact (Option.some.inj hdenote).symm

variable {state : CurlState}

/-- Data is put at the end of the URL, which is the end of the query when nothing is behind it. -/
theorem finalUrl_eq_withQuery_iff (hparts : state.dataParts ≠ []) (hmethod : state.method = "GET") :
    state.finalUrl = withQuery state.url state.data ↔ '#' ∉ state.url.toList := by
  have hfinal : state.finalUrl.toList = state.url.toList ++
      ((if includes state.url "?" then '&' else '?') :: state.data.toList) := by
    rw [CurlState.finalUrl, if_pos ⟨hparts, hmethod⟩]
    split <;> simp
  have hincludes : includes state.url "?" = state.url.toList.contains '?' := by
    rw [includes]
    exact occursIn_singleton '?' state.url.toList
  rw [← String.toList_inj, hfinal, withQuery, String.toList_ofList]
  constructor
  · intro heq hmem
    have hsplit := List.takeWhile_append_dropWhile (p := (· ≠ '#')) (l := state.url.toList)
    cases hdrop : state.url.toList.dropWhile (· ≠ '#') with
    | nil =>
      have hall := List.dropWhile_eq_nil_iff.mp hdrop
      exact of_decide_eq_true (hall '#' hmem) rfl
    | cons mark rest =>
      have hmark : mark = '#' := by
        have hnot := List.head_dropWhile_not (p := fun c => decide (c ≠ '#'))
          (l := state.url.toList) (by rw [hdrop]; exact List.cons_ne_nil _ _)
        simpa only [hdrop, List.head_cons, decide_eq_false_iff_not, not_not] using hnot
      rw [hdrop] at hsplit heq
      -- behind the text in front of the fragment stands the fragment, or the separator
      conv at heq => lhs; rw [← hsplit]
      rw [List.append_assoc, List.append_assoc, List.append_assoc] at heq
      have hhead := congrArg List.head? (List.append_cancel_left heq)
      rw [hmark] at hhead
      have hchar : '#' = if (state.url.toList.takeWhile (· ≠ '#')).contains '?' then '&' else '?' :=
        Option.some.inj hhead
      split at hchar <;> exact absurd hchar (by decide)
  · intro hnot
    have hall : ∀ c ∈ state.url.toList, decide (c ≠ '#') = true := fun c hc =>
      decide_eq_true fun heq => hnot (heq ▸ hc)
    have htake := List.takeWhile_eq_self_iff.mpr hall
    have hdrop := List.dropWhile_eq_nil_iff.mpr hall
    rw [htake, hdrop, hincludes, List.append_nil, List.append_assoc, List.singleton_append]

theorem finalUrl_eq (h : state.dataParts = [] ∨ state.method ≠ "GET") :
    state.finalUrl = state.url := if_neg fun hboth => h.elim hboth.1 fun hne => hne hboth.2

theorem body_eq_none (h : state.dataParts = [] ∨ state.method = "GET") :
    state.body = none := if_neg fun hboth => h.elim hboth.1 hboth.2

theorem body_eq_some (hparts : state.dataParts ≠ []) (hmethod : state.method ≠ "GET") :
    state.body = some state.data := if_pos ⟨hparts, hmethod⟩

/-- A request with its data in the query. -/
theorem reads_get_iff (hmethod : state.method = (methodOf args).1)
    (hparts : state.dataParts = parts args) (hget : isGet args = true) :
    (state.method = (explicitMethod args).getD "GET" ∧
      state.finalUrl = (if parts args ≠ [] then withQuery state.url state.data else state.url) ∧
        state.body = none) ↔
      KeepsOrder args ∧ (parts args ≠ [] → '#' ∉ state.url.toList) := by
  by_cases hnone : parts args = []
  · -- without data only the method matters
    have hempty : state.dataParts = [] := hparts.trans hnone
    have hurl := finalUrl_eq (Or.inl hempty)
    have hbody := body_eq_none (Or.inl hempty)
    simp only [hnone, hurl, hbody, ne_eq, not_true_eq_false, if_false, and_true, false_implies]
    unfold KeepsOrder
    cases hexplicit : explicitMethod args with
    | none => simp [hmethod, methodOf_implicit hexplicit, hget]
    | some method =>
      rw [hmethod, methodOf_get hexplicit hget, Option.getD_some]
      simp only [hget, hnone, if_true, and_true]
      cases requestLast args with
      | true => simp
      | false => simpa using eq_comm
  · have hne : state.dataParts ≠ [] := by rwa [hparts]
    simp only [ne_eq, hnone, not_false_eq_true, if_true, forall_true_left]
    have hreads : ∀ method, state.method = method →
        ((state.method = method ∧ state.finalUrl = withQuery state.url state.data ∧
          state.body = none) ↔ method = "GET" ∧ '#' ∉ state.url.toList) := by
      intro method heq
      constructor
      · rintro ⟨_, hurl, hbody⟩
        have hget : state.method = "GET" := by
          by_contra hnot
          rw [body_eq_some hne hnot] at hbody
          cases hbody
        exact ⟨heq.symm.trans hget, (finalUrl_eq_withQuery_iff hne hget).mp hurl⟩
      · rintro ⟨hmethod, hnot⟩
        have hget := heq.trans hmethod
        exact ⟨heq, (finalUrl_eq_withQuery_iff hne hget).mpr hnot, body_eq_none (Or.inr hget)⟩
    unfold KeepsOrder
    cases hexplicit : explicitMethod args with
    | none =>
      have heq : state.method = "GET" := by
        rw [hmethod, methodOf_implicit hexplicit, if_pos hget]
      rw [Option.getD_none, hreads "GET" heq]
      simp
    | some method =>
      simp only [hget, hnone, if_true, and_false, or_false, Option.getD_some]
      by_cases heq : state.method = method
      · exact hreads method heq
      · have hlast := methodOf_get hexplicit hget
        rw [← hmethod] at hlast
        refine ⟨fun h => absurd h.1 heq, fun h => absurd ?_ heq⟩
        split at hlast
        · exact hlast
        · exact hlast.trans h.1.symm

/-- A request with its data in the body. -/
theorem reads_body_iff (hmethod : state.method = (methodOf args).1)
    (hparts : state.dataParts = parts args) (hget : isGet args = false) :
    (state.method = (explicitMethod args).getD (if parts args = [] then "GET" else "POST") ∧
      state.finalUrl = state.url ∧
        state.body = if parts args = [] then none else some state.data) ↔ KeepsOrder args := by
  unfold KeepsOrder
  by_cases hnone : parts args = []
  · have hempty : state.dataParts = [] := hparts.trans hnone
    have hurl := finalUrl_eq (Or.inl hempty)
    have hbody := body_eq_none (Or.inl hempty)
    simp only [hnone, hurl, hbody, if_true, and_true]
    cases hexplicit : explicitMethod args with
    | none => simp [hmethod, methodOf_implicit hexplicit, hget, hnone]
    | some method =>
      have hkept := (methodOf_explicit hexplicit hget).1 (Or.inr hnone)
      simp [hmethod, hkept, hget]
  · have hne : state.dataParts ≠ [] := by rwa [hparts]
    simp only [hnone, if_false]
    have hreads : ∀ method, state.method = method → method ≠ "GET" →
        state.method = method ∧ state.finalUrl = state.url ∧ state.body = some state.data := by
      intro method heq hnot
      have hmethod : state.method ≠ "GET" := heq ▸ hnot
      exact ⟨heq, finalUrl_eq (Or.inr hmethod), body_eq_some hne hmethod⟩
    cases hexplicit : explicitMethod args with
    | none =>
      have heq : state.method = "POST" := by
        rw [hmethod, methodOf_implicit hexplicit, if_neg (by rw [hget]; exact Bool.false_ne_true),
          if_neg hnone]
      exact iff_of_true (hreads "POST" heq (by decide)) trivial
    | some method =>
      have hkept := methodOf_explicit hexplicit hget
      rw [← hmethod] at hkept
      simp only [hget, Bool.false_eq_true, if_false, or_false, Option.getD_some]
      constructor
      · rintro ⟨heq, _, hbody⟩ hmethodGet
        -- a GET request has no body
        rw [body_eq_none (Or.inr (heq.trans hmethodGet))] at hbody
        cases hbody
      · intro hnot
        exact hreads method (hkept.1 (Or.inl hnot)) hnot

/-- A search with an explicit method, a header and data for the query. -/
def searchArguments : List Argument :=
  [.get false, .header false "Accept: text/plain", .data .short "q=1", .request false "GET",
    .url "http://localhost/"]

end Curl

end ApiVoy.Workbench
