/-
# Opening a request and building it again

What comes back of a request that is opened in the editor and built without an edit. Names and
values are trimmed on the way, variables go through lines of a text, and a body that is shown in
a structured mode is written anew.
-/

import ApiVoy.Foundation.Members
import ApiVoy.Workbench.Editor

namespace ApiVoy.Workbench.Editor

open Foundation Script Domain

/-! ## Variables -/

/-- A variable that a line of text can hold. -/
structure KeptVariable (name value : String) : Prop where
  name_ne : name ≠ ""
  name_trimmed : Script.trim name = name
  name_plain : '=' ∉ name.toList ∧ '\n' ∉ name.toList ∧ name.toList.head? ≠ some '#'
  name_own : name ≠ "__proto__"
  value_trimmed : Script.trim value = value
  value_line : '\n' ∉ value.toList

theorem trimChars_of_trim {text : String} (h : Script.trim text = text) :
    Script.trimChars text.toList = text.toList := by
  have hlist := congrArg String.toList h
  rwa [Script.trim, String.toList_ofList] at hlist

variable {name value : String}

theorem assignmentOf_line (h : KeptVariable name value) :
    assignmentOf (name.toList ++ '=' :: value.toList) = some (name, value) := by
  have hname := trimChars_of_trim h.name_trimmed
  have hvalue := trimChars_of_trim h.value_trimmed
  have hne : name.toList ≠ [] := fun hnil => h.name_ne (String.toList_eq_nil_iff.mp hnil)
  have hhead : (name.toList ++ '=' :: value.toList).head? = name.toList.head? := by
    rw [List.head?_append]
    cases hlist : name.toList with
    | nil => exact absurd hlist hne
    | cons c rest => rfl
  have htrim : Script.trimChars (name.toList ++ '=' :: value.toList) = name.toList ++ '=' :: value.toList := by
    refine trimChars_eq_self_iff.mpr ⟨?_, ?_⟩
    · rw [hhead]
      exact (trimChars_eq_self_iff.mp hname).1
    · intro c hc
      rw [List.getLast?_append, List.getLast?_cons] at hc
      cases hlast : value.toList.getLast? with
      | none =>
        rw [hlast] at hc
        cases hc
        decide
      | some d =>
        rw [hlast] at hc
        cases hc
        exact (trimChars_eq_self_iff.mp hvalue).2 _ hlast
  have hbefore : ∀ c ∈ name.toList, decide (c ≠ '=') = true :=
    fun c hc => decide_eq_true fun heq => h.name_plain.1 (heq ▸ hc)
  have htake : (name.toList ++ '=' :: value.toList).takeWhile (· ≠ '=') = name.toList := by
    rw [List.takeWhile_append_of_pos hbefore]
    simp
  have hdrop : (name.toList ++ '=' :: value.toList).dropWhile (· ≠ '=') = '=' :: value.toList := by
    rw [List.dropWhile_append_of_pos hbefore]
    simp
  unfold assignmentOf
  dsimp only
  rw [htrim, htake, hdrop, hhead, List.tail_cons, hname, hvalue, String.ofList_toList,
    String.ofList_toList, if_neg]
  rintro (hcomment | hnil | hnil)
  · exact h.name_plain.2.2 hcomment
  · exact hne hnil
  · cases hnil

/-- What a line assigns can be held by a line. -/
theorem keptVariable_of_assignmentOf {line : List Char} (hline : '\n' ∉ line)
    (h : assignmentOf line = some (name, value)) (hown : name ≠ "__proto__") :
    KeptVariable name value := by
  unfold assignmentOf at h
  dsimp only at h
  split at h
  · cases h
  rename_i hneither
  rw [not_or, not_or] at hneither
  obtain ⟨hcomment, hname, -⟩ := hneither
  obtain ⟨rfl, rfl⟩ := Prod.mk.inj (Option.some.inj h)
  have hsub : ∀ {text : List Char}, text.Sublist (Script.trimChars line) → '\n' ∉ Script.trimChars text :=
    fun hsublist hmem => hline ((trimChars_sublist line).subset
      (hsublist.subset ((trimChars_sublist _).subset hmem)))
  have htake := List.takeWhile_sublist (fun c => decide (c ≠ '=')) (l := Script.trimChars line)
  have hdrop := List.dropWhile_sublist (fun c => decide (c ≠ '=')) (l := Script.trimChars line)
  -- the name begins where the trimmed line does, so it is not blank
  obtain ⟨c, rest, hcons⟩ := List.exists_cons_of_ne_nil hname
  obtain ⟨more, hline'⟩ := List.takeWhile_prefix (fun c => decide (c ≠ '=')) (l := Script.trimChars line)
  have hhead : (Script.trimChars line).head? = some c := by
    rw [← hline', hcons]
    rfl
  have hspace : isSpace c = false := (trimChars_eq_self_iff.mp (trimChars_trimChars line)).1 c hhead
  have hkept : ((Script.trimChars line).takeWhile fun c => decide (c ≠ '=')).head? = some c := by
    rw [hcons]
    rfl
  have hfirst := head?_trimChars hkept hspace
  refine ⟨?_, ?_, ⟨?_, ?_, ?_⟩, hown, ?_, ?_⟩
  · intro hempty
    rw [String.ofList_eq_empty_iff] at hempty
    rw [hempty] at hfirst
    cases hfirst
  · rw [Script.trim, String.toList_ofList, trimChars_trimChars]
  · rw [String.toList_ofList]
    intro hmem
    have hbefore := List.mem_takeWhile_imp ((trimChars_sublist _).subset hmem)
    exact absurd rfl (of_decide_eq_true hbefore)
  · rw [String.toList_ofList]
    exact hsub htake
  · rw [String.toList_ofList, hfirst, ← hhead]
    exact hcomment
  · rw [Script.trim, String.toList_ofList, trimChars_trimChars]
  · rw [String.toList_ofList]
    exact hsub ((List.tail_sublist _).trans hdrop)

variable {vars : StringMap}

theorem mem_lookup_assign {entry : String × String} :
    value ∈ (assign vars entry).lookup name ↔
      (entry.1 ≠ "__proto__" ∧ entry = (name, value)) ∨
        (value ∈ vars.lookup name ∧ (entry.1 = name → name = "__proto__")) := by
  obtain ⟨key, text⟩ := entry
  rw [assign]
  by_cases hproto : key = "__proto__"
  · rw [if_pos hproto]
    grind
  · rw [if_neg hproto]
    by_cases hname : name = key
    · subst hname
      rw [AList.lookup_insert]
      grind
    · rw [AList.lookup_insert_ne hname]
      grind

variable {entries : List (String × String)}

/-- A value that is found was assigned on some line. -/
theorem mem_of_lookup_foldl (h : value ∈ (entries.foldl assign vars).lookup name) :
    ((name, value) ∈ entries ∧ name ≠ "__proto__") ∨ value ∈ vars.lookup name := by
  induction entries generalizing vars with
  | nil => exact Or.inr h
  | cons entry entries ih =>
    rcases ih h with ⟨hmem, hown⟩ | hfound
    · exact Or.inl ⟨List.mem_cons_of_mem _ hmem, hown⟩
    · rcases mem_lookup_assign.mp hfound with ⟨hown, rfl⟩ | ⟨hvars, _⟩
      · exact Or.inl ⟨List.mem_cons_self, hown⟩
      · exact Or.inr hvars

/-- The lines of different variables do not get in each other's way. -/
theorem lookup_foldl (hnodup : (entries.map Prod.fst).Nodup)
    (hown : ∀ entry ∈ entries, entry.1 ≠ "__proto__")
    (h : (name, value) ∈ entries ∨ (name ∉ entries.map Prod.fst ∧ value ∈ vars.lookup name)) :
    value ∈ (entries.foldl assign vars).lookup name := by
  induction entries generalizing vars with
  | nil => exact h.resolve_left List.not_mem_nil |>.2
  | cons entry entries ih =>
    rw [List.map_cons, List.nodup_cons] at hnodup
    obtain ⟨hentry, hentries⟩ := List.forall_mem_cons.mp hown
    refine ih hnodup.2 hentries ?_
    rcases h with hmem | ⟨hnot, hvars⟩
    · rcases List.mem_cons.mp hmem with rfl | hmem
      · exact Or.inr ⟨hnodup.1, mem_lookup_assign.mpr (Or.inl ⟨hentry, rfl⟩)⟩
      · exact Or.inl hmem
    · rw [List.map_cons, List.mem_cons, not_or] at hnot
      exact Or.inr ⟨hnot.2, mem_lookup_assign.mpr
        (Or.inr ⟨hvars, fun heq => absurd heq.symm hnot.1⟩)⟩

/-- The variables of an object, as names and values. -/
def pairs (vars : StringMap) : List (String × String) :=
  vars.entries.map fun entry => (entry.1, entry.2)

theorem mem_pairs : (name, value) ∈ pairs vars ↔ value ∈ vars.lookup name := by
  rw [AList.mem_lookup_iff, pairs, List.mem_map]
  constructor
  · rintro ⟨⟨key, text⟩, hmem, heq⟩
    cases heq
    exact hmem
  · exact fun hmem => ⟨⟨name, value⟩, hmem, rfl⟩

/-- The lines of variables that a line can hold are the assignments of these variables. -/
theorem assignments_formatKv (h : ∀ entry ∈ pairs vars, KeptVariable entry.1 entry.2) :
    (List.splitOn '\n' (formatKv vars)).filterMap assignmentOf = pairs vars := by
  have hformat : formatKv vars =
      ['\n'].intercalate ((pairs vars).map fun entry => entry.1.toList ++ '=' :: entry.2.toList) := by
    rw [formatKv, pairs, List.map_map]
    rfl
  rw [hformat]
  cases hpairs : pairs vars with
  | nil => decide
  | cons first rest =>
    rw [hpairs] at h
    rw [← hpairs] at h ⊢
    have hne : ((pairs vars).map fun entry => entry.1.toList ++ '=' :: entry.2.toList) ≠ [] := by
      rw [hpairs]
      exact List.cons_ne_nil _ _
    rw [List.splitOn_intercalate '\n' _ hne, List.filterMap_map]
    · have hall : ∀ entries : List (String × String),
          (∀ entry ∈ entries, KeptVariable entry.1 entry.2) →
            entries.filterMap (assignmentOf ∘ fun entry => entry.1.toList ++ '=' :: entry.2.toList) =
              entries := by
        intro entries hentries
        induction entries with
        | nil => rfl
        | cons entry entries ih =>
          obtain ⟨hentry, hrest⟩ := List.forall_mem_cons.mp hentries
          have hline : (assignmentOf ∘ fun entry : String × String =>
              entry.1.toList ++ '=' :: entry.2.toList) entry = some entry :=
            assignmentOf_line hentry
          rw [List.filterMap_cons_some hline, ih hrest]
      exact hall _ h
    · intro line hline
      obtain ⟨entry, hmem, rfl⟩ := List.mem_map.mp hline
      have hkept := h entry hmem
      simp [hkept.name_plain.2.1, hkept.value_line]

theorem not_mem_of_mem_splitOn {separator : Char} {text piece : List Char}
    (h : piece ∈ text.splitOn separator) : separator ∉ piece := by
  induction text generalizing piece with
  | nil =>
    rw [List.splitOn_nil, List.mem_singleton] at h
    rw [h]
    exact List.not_mem_nil
  | cons c text ih =>
    rw [List.splitOn_cons_eq_if_modifyHead] at h
    by_cases hc : c = separator
    · rw [if_pos (beq_iff_eq.mpr hc), List.mem_cons] at h
      rcases h with rfl | hmem
      · exact List.not_mem_nil
      · exact ih hmem
    · rw [if_neg fun heq => hc (beq_iff_eq.mp heq)] at h
      obtain ⟨first, rest, hpieces⟩ := List.exists_cons_of_ne_nil (List.splitOn_ne_nil separator text)
      rw [hpieces, List.modifyHead_cons, List.mem_cons] at h
      rcases h with rfl | hmem
      · rw [List.mem_cons, not_or]
        exact ⟨fun heq => hc heq.symm, ih (hpieces ▸ List.mem_cons_self)⟩
      · exact ih (hpieces ▸ List.mem_cons_of_mem _ hmem)

/-- The variables come back exactly when a line can hold each of them. -/
theorem parseKv_formatKv_iff (vars : StringMap) :
    (∀ name, (parseKv (formatKv vars)).lookup name = vars.lookup name) ↔
      ∀ entry ∈ pairs vars, KeptVariable entry.1 entry.2 := by
  have hempty : ∀ {name value : String}, ¬value ∈ (∅ : StringMap).lookup name := by
    intro name value hmem
    rw [AList.lookup_empty] at hmem
    cases hmem
  constructor
  · rintro h ⟨name, value⟩ hmem
    have hfound : value ∈ (parseKv (formatKv vars)).lookup name := by
      rw [h name]
      exact mem_pairs.mp hmem
    obtain ⟨hassigned, hown⟩ := (mem_of_lookup_foldl hfound).resolve_right hempty
    obtain ⟨line, hline, hassignment⟩ := List.mem_filterMap.mp hassigned
    exact keptVariable_of_assignmentOf (not_mem_of_mem_splitOn hline) hassignment hown
  · intro h name
    have hnodup : ((pairs vars).map Prod.fst).Nodup := by
      have hkeys := vars.nodupKeys
      rw [pairs, List.map_map]
      exact hkeys
    refine Option.ext fun value => ?_
    rw [parseKv, assignments_formatKv h]
    constructor
    · intro hfound
      exact mem_pairs.mp ((mem_of_lookup_foldl hfound).resolve_right hempty).1
    · intro hmem
      exact lookup_foldl hnodup (fun entry hentry => (h entry hentry).name_own)
        (Or.inl (mem_pairs.mpr hmem))

/-! ## Headers -/

/-- A header with nothing to trim. -/
structure KeptHeader (header : String × String) : Prop where
  name_ne : header.1 ≠ ""
  name_trimmed : Script.trim header.1 = header.1
  value_trimmed : Script.trim header.2 = header.2

def plainHeaders (headers : List (String × String)) : List (String × String) :=
  headers.filter fun header => !isCookie header

variable (headers : List (String × String))

theorem sentRows_headerRows :
    sentRows (headerRowsFromPairs headers) =
      (headers.filter fun header => Script.trim header.1 ≠ "").map fun header =>
        createHeaderRow header.1 header.2 := by
  have hsent : ∀ header : String × String,
      ((createHeaderRow header.1 header.2).enabled &&
        decide (Script.trim (createHeaderRow header.1 header.2).key ≠ "")) =
          decide (Script.trim header.1 ≠ "") := by
    intro header
    by_cases h : Script.trim header.1 = "" <;> simp [createHeaderRow, h]
  have hlast : sentRows [createHeaderRow "" ""] = [] := by decide
  rw [headerRowsFromPairs, sentRows, List.filter_append]
  refine (congrArg (_ ++ ·) hlast).trans ?_
  rw [List.append_nil, List.filter_map]
  simp only [Function.comp_def, hsent]

/-- The headers of an opened request, without the cookies, come back exactly when there is nothing
to trim in them. -/
theorem plainHeaders_sent_iff :
    plainHeaders ((sentRows (headerRowsFromPairs (plainHeaders headers))).map fun row =>
        (Script.trim row.key, Script.trim row.value)) = plainHeaders headers ↔
      ∀ header ∈ plainHeaders headers, KeptHeader header := by
  have hsent : (sentRows (headerRowsFromPairs (plainHeaders headers))).map (fun row =>
      (Script.trim row.key, Script.trim row.value)) =
      ((plainHeaders headers).filter fun header => Script.trim header.1 ≠ "").map fun header =>
        (Script.trim header.1, Script.trim header.2) := by
    rw [sentRows_headerRows, List.map_map]
    rfl
  rw [hsent]
  constructor
  · intro h header hmem
    rw [← h] at hmem
    obtain ⟨source, hsource, rfl⟩ := List.mem_map.mp (List.mem_filter.mp hmem).1
    have hne := of_decide_eq_true (List.mem_filter.mp hsource).2
    exact ⟨hne, Script.trim_trim _, Script.trim_trim _⟩
  · intro h
    have hall : (plainHeaders headers).filter (fun header => Script.trim header.1 ≠ "") =
        plainHeaders headers := by
      refine List.filter_eq_self.mpr fun header hmem => decide_eq_true ?_
      rw [(h header hmem).name_trimmed]
      exact (h header hmem).name_ne
    have hmap : (plainHeaders headers).map (fun header =>
        (Script.trim header.1, Script.trim header.2)) = plainHeaders headers := by
      refine (List.map_congr_left fun header hmem => ?_).trans (List.map_id _)
      rw [(h header hmem).name_trimmed, (h header hmem).value_trimmed]
      rfl
    rw [hall, hmap]
    exact List.filter_eq_self.mpr fun header hmem => (List.mem_filter.mp hmem).2

/-! ## Reopening -/

variable (platform : Platform)

/-- What a built request must have in common with the one that was opened. -/
structure SameContent (loaded : HttpWorkbenchRequest) (built : Built) : Prop where
  body : built.body.getD "" = loaded.body.getD ""
  bodyEncoding : built.bodyEncoding = loaded.bodyEncoding.getD "text"
  vars : ∀ name, built.vars.lookup name = loaded.vars.lookup name
  headers : plainHeaders built.headers = plainHeaders loaded.headers

/-- Opening a request and building it without an edit gives the same content. -/
def Reopens (editor : Editor) (loaded : HttpWorkbenchRequest) : Prop :=
  ∃ built, buildRequest platform (applyRequest platform editor loaded) = some built ∧
    SameContent loaded built

/-- The name of the operation, without blanks around it; empty when there is none. -/
def operationName (source : Json) : String :=
  Script.trim ((textMember "operationName" source).getD "")

/-- What stands in a GraphQL body beside its source: the query, the variables, and the name of the
operation if it has one. -/
inductive IsGraphql (source : Json) : Json → Prop
  | anonymous {query : String} (hquery : textMember "query" source = some query)
      (hname : operationName source = "") :
      IsGraphql source
        (.obj [("query", .str query), ("variables", memberOrEmpty "variables" (some source))])
  | named {query : String} (hquery : textMember "query" source = some query)
      (hname : operationName source ≠ "") :
      IsGraphql source
        (.obj [("query", .str query), ("variables", memberOrEmpty "variables" (some source)),
          ("operationName", .str (operationName source))])

/-- What stands in a JSON-RPC body beside its source. -/
def rpcCall (source : Json) : Json :=
  .obj [("jsonrpc", .str "2.0"), ("method", .str ((textMember "method" source).getD "")),
    ("params", memberOrEmpty "params" (some source)),
    ("id", rpcIdValue (shownId platform (some source)))]

/-- A body that its mode does not touch, or that is in the normal form of its mode: entries with
names in the encoding of forms, a compact text of JSON with the members its source has, or the
MessagePack encoding of its source. -/
def KeptBody (loaded : HttpWorkbenchRequest) : Prop :=
  let body := loaded.body.getD ""
  match nextBodyMode loaded with
  | .multipart => body = ""
  | .urlencoded => ∃ entries : List (String × String),
      (∀ entry ∈ entries, Script.trim entry.1 ≠ "") ∧ FormEncoding.serialize entries = body.toList
  | .graphql => ∃ source ∈ graphqlSource loaded, ∃ value,
      IsGraphql source value ∧ IsTextOf platform body value
  | .jsonrpc => ∃ source ∈ jsonRpcSource loaded, IsTextOf platform body (rpcCall platform source)
  | .msgpack => ∃ value ∈ parsedOr (loaded.bodySource.getD "\x7b\x7d") "null",
      bytesToBase64 (MessagePack.encode value) = body.toList
  | _ => True

/-- The encoding that goes with the mode of the body. -/
def KeptEncoding (loaded : HttpWorkbenchRequest) : Prop :=
  loaded.bodyEncoding.getD "text" =
    if nextBodyMode loaded = .binary ∨ nextBodyMode loaded = .msgpack then "base64" else "text"

/-- A request that the editor can hold. -/
structure Kept (loaded : HttpWorkbenchRequest) : Prop where
  body : KeptBody platform loaded
  bodyEncoding : KeptEncoding loaded
  vars : ∀ entry ∈ pairs loaded.vars, KeptVariable entry.1 entry.2
  headers : ∀ header ∈ plainHeaders loaded.headers, KeptHeader header

theorem nextBodyMode_ne_soap (loaded : HttpWorkbenchRequest) : nextBodyMode loaded ≠ .soap := by
  unfold nextBodyMode
  dsimp only
  repeat' split
  all_goals exact fun h => by cases h

variable {loaded : HttpWorkbenchRequest}

theorem body_of_none (h : nextBodyMode loaded = .none) : loaded.body.getD "" = "" := by
  unfold nextBodyMode at h
  dsimp only at h
  repeat' split at h
  all_goals try cases h
  rename_i hbody
  exact not_not.mp hbody

theorem jsonRpcSource_isSome (h : nextBodyMode loaded = .jsonrpc) :
    (jsonRpcSource loaded).isSome = true := by
  unfold nextBodyMode at h
  dsimp only at h
  repeat' split at h
  all_goals try cases h
  assumption

/-! ### Normal forms -/

/-- The engine reads its texts of the numbers in a source back, and its text of the number that an
id stands for. The names in a parsed object are distinct anyway. -/
structure ReadsBack (loaded : HttpWorkbenchRequest) : Prop where
  source : ∀ source ∈ structuredSource loaded,
    JsonText.printable platform.numberText source = true
  id : ∀ source ∈ jsonRpcSource loaded,
    JsonText.printable platform.numberText (rpcIdValue (shownId platform (some source))) = true

variable {platform} {source : Json}

theorem ReadsBack.rereads (h : ReadsBack platform loaded)
    (hsource : structuredSource loaded = some source) : Rereads platform source := by
  refine ⟨h.source source hsource, ?_⟩
  obtain ⟨value, -, rfl⟩ := Option.map_eq_some_iff.mp hsource
  exact enumerated_enumerated value

theorem rereads_memberOrEmpty (h : Rereads platform source) (name : String) :
    Rereads platform (memberOrEmpty name (some source)) := by
  have hempty : Rereads platform (.obj []) := ⟨rfl, rfl⟩
  rw [memberOrEmpty, Option.bind_some]
  cases hget : source.get name with
  | none => exact hempty
  | some member =>
    by_cases hnull : member = .null
    · simpa [hnull, Option.filter] using hempty
    · simpa [hnull, Option.filter] using h.get hget

theorem parsedOr_stringify {value : Json} (h : Rereads platform value) (indent : Nat)
    (fallback : String) : parsedOr (stringify platform indent value) fallback = some value := by
  have hparse := h.parseObject_stringify indent
  rw [parsedOr, if_neg, hparse]
  intro hempty
  rw [hempty] at hparse
  cases hparse

theorem rereads_graphqlBody {vars : Json} (h : Rereads platform vars) (query name : String) :
    Rereads platform (graphqlBody query vars name) := by
  have hindex : arrayIndex "query" = none ∧ arrayIndex "variables" = none ∧
      arrayIndex "operationName" = none := by decide +kernel
  constructor <;> unfold graphqlBody <;> split <;>
    simp [JsonText.printable, JsonText.membersPrintable, h.prints, enumerated, enumeratedMembers,
      h.inOrder, enumerate, hindex]

theorem rereads_rpcCall (h : Rereads platform source)
    (hid : JsonText.printable platform.numberText
      (rpcIdValue (shownId platform (some source))) = true) :
    Rereads platform (rpcCall platform source) := by
  have hindex : arrayIndex "jsonrpc" = none ∧ arrayIndex "method" = none ∧
      arrayIndex "params" = none ∧ arrayIndex "id" = none := by decide +kernel
  have hparams := rereads_memberOrEmpty h "params"
  have horder : enumerated (rpcIdValue (shownId platform (some source))) =
      rpcIdValue (shownId platform (some source)) := by
    unfold rpcIdValue
    repeat' split
    all_goals rfl
  constructor <;>
    simp [rpcCall, JsonText.printable, JsonText.membersPrintable, hparams.prints, hid, enumerated,
      enumeratedMembers, hparams.inOrder, horder, enumerate, hindex]

theorem length_le_escape (text : List Char) : text.length ≤ (JsonText.escape text).length := by
  induction text with
  | nil => exact Nat.le_refl _
  | cons c text ih =>
    have hchar : 0 < (JsonText.escapeChar c).length := by
      unfold JsonText.escapeChar
      repeat' split
      all_goals simp
    rw [JsonText.escape, List.flatMap_cons, List.length_append, List.length_cons]
    rw [JsonText.escape] at ih
    omega

/-- A body is no query in a body of its own. -/
theorem stringify_graphqlBody_ne (text : String) (vars : Json) (name : String) :
    text ≠ stringify platform 0 (graphqlBody text vars name) := by
  intro heq
  have hlength := congrArg (fun text : String => text.toList.length) heq
  have hescape := length_le_escape text.toList
  simp [stringify, graphqlBody, JsonText.render, JsonText.renderMembers, JsonText.quote] at hlength
  omega

/-- What is written for a GraphQL body is the body exactly when it is compact and has the members
of its source. -/
theorem graphql_iff (h : ReadsBack platform loaded) :
    (∃ vars, parsedOr (stringify platform 2 (memberOrEmpty "variables" (graphqlSource loaded)))
        "\x7b\x7d" = some vars ∧
      loaded.body.getD "" = stringify platform 0 (graphqlBody
        (((graphqlSource loaded).bind (textMember "query")).getD (loaded.body.getD "")) vars
        (((graphqlSource loaded).bind (textMember "operationName")).getD ""))) ↔
      ∃ source ∈ graphqlSource loaded, ∃ value,
        IsGraphql source value ∧ IsTextOf platform (loaded.body.getD "") value := by
  have hmembers : ∀ {source : Json} {query : String}, textMember "query" source = some query →
      IsGraphql source (graphqlBody query (memberOrEmpty "variables" (some source))
        ((textMember "operationName" source).getD "")) := by
    intro source query hquery
    unfold graphqlBody
    split
    · exact .anonymous hquery ‹_›
    · exact .named hquery ‹_›
  constructor
  · rintro ⟨vars, hvars, hbody⟩
    cases hquery : (graphqlSource loaded).bind (textMember "query") with
    | none =>
      rw [hquery] at hbody
      exact absurd hbody (stringify_graphqlBody_ne _ _ _)
    | some query =>
      obtain ⟨source, hsource, hquery'⟩ := Option.bind_eq_some_iff.mp hquery
      have hrereads := rereads_memberOrEmpty
        (h.rereads (Option.filter_eq_some_iff.mp hsource).1) "variables"
      rw [hsource, parsedOr_stringify hrereads] at hvars
      cases hvars
      rw [hquery, hsource] at hbody
      exact ⟨source, hsource, _, hmembers hquery',
        (rereads_graphqlBody hrereads query _).isTextOf_iff.mpr hbody⟩
  · rintro ⟨source, hsource, value, hvalue, htext⟩
    have hrereads := rereads_memberOrEmpty
      (h.rereads (Option.filter_eq_some_iff.mp hsource).1) "variables"
    rw [hsource]
    refine ⟨_, parsedOr_stringify hrereads 2 _, htext.compact.symm.trans (congrArg _ ?_)⟩
    cases hvalue with
    | anonymous hquery hname | named hquery hname =>
      rw [operationName] at hname
      simp [graphqlBody, hquery, hname, operationName]

theorem jsonRpc_iff (h : ReadsBack platform loaded) (hmode : nextBodyMode loaded = .jsonrpc) :
    (∃ params, parsedOr (stringify platform 2 (memberOrEmpty "params" (jsonRpcSource loaded)))
        "\x7b\x7d" = some params ∧
      loaded.body.getD "" = stringify platform 0 (jsonRpcBody
        (((jsonRpcSource loaded).bind (textMember "method")).getD "") params
        (shownId platform (jsonRpcSource loaded)))) ↔
      ∃ source ∈ jsonRpcSource loaded,
        IsTextOf platform (loaded.body.getD "") (rpcCall platform source) := by
  obtain ⟨source, hsource⟩ := Option.isSome_iff_exists.mp (jsonRpcSource_isSome hmode)
  have hrereads := h.rereads (Option.filter_eq_some_iff.mp hsource).1
  have hcall : IsTextOf platform (loaded.body.getD "") (rpcCall platform source) ↔ _ :=
    (rereads_rpcCall hrereads (h.id source hsource)).isTextOf_iff
  rw [hsource, parsedOr_stringify (rereads_memberOrEmpty hrereads "params")]
  simpa [rpcCall, jsonRpcBody] using hcall.symm

/-- A form that is written is no text that something is dropped from. -/
theorem form_iff (body : String) :
    String.ofList (FormEncoding.serialize
        ((formEntries body).filter fun entry => Script.trim entry.1 ≠ "")) = body ↔
      ∃ entries : List (String × String), (∀ entry ∈ entries, Script.trim entry.1 ≠ "") ∧
        FormEncoding.serialize entries = body.toList := by
  constructor
  · intro heq
    exact ⟨_, fun entry hmem => of_decide_eq_true (List.mem_filter.mp hmem).2,
      String.toList_ofList.symm.trans (congrArg String.toList heq)⟩
  · rintro ⟨entries, hnames, heq⟩
    have hhead : body.toList.head? ≠ some '?' := by
      intro hhead
      rw [← heq] at hhead
      exact absurd (FormEncoding.mem_serialize (List.mem_of_head? hhead)) (by decide)
    have hentries : formEntries body = entries := by
      rw [formEntries, if_neg hhead, ← heq, FormEncoding.parse_serialize]
    rw [hentries, List.filter_eq_self.mpr fun entry hmem => decide_eq_true (hnames entry hmem), heq,
      String.ofList_toList]

variable (platform)

variable (editor : Editor)

theorem plainHeaders_built (loaded : HttpWorkbenchRequest) :
    plainHeaders (withSoapAction (applyRequest platform editor loaded)
        (builtHeaders (applyRequest platform editor loaded))) =
      plainHeaders ((sentRows (headerRowsFromPairs (plainHeaders loaded.headers))).map fun row =>
        (Script.trim row.key, Script.trim row.value)) := by
  have hsoap : ¬((applyRequest platform editor loaded).bodyMode = .soap ∧
      Script.trim (applyRequest platform editor loaded).soapAction ≠ "") :=
    fun h => nextBodyMode_ne_soap loaded h.1
  have hcookie : ∀ value : String, plainHeaders [("Cookie", value)] = [] := by
    intro value
    have htrue : isCookie ("Cookie", value) = true := by
      change decide (toLowerCase "Cookie" = "cookie") = true
      decide
    simp [plainHeaders, htrue]
  unfold withSoapAction
  dsimp only
  rw [if_neg hsoap]
  unfold builtHeaders
  dsimp only
  split
  · rw [List.append_nil]
    rfl
  · rw [plainHeaders, List.filter_append]
    exact (congrArg (List.filter _ _ ++ ·) (hcookie _)).trans (List.append_nil _)

/-- The body of an opened request, by its mode. -/
theorem builtBody_iff (hreads : ReadsBack platform loaded)
    (hmethod : loaded.method ≠ "GET" ∧ loaded.method ≠ "HEAD") :
    ((encodedBody (applyRequest platform editor loaded)).isSome ∧
      (∃ body, builtBody platform (applyRequest platform editor loaded) = some body ∧
        body.getD "" = loaded.body.getD "") ∧
      (builtSource platform (applyRequest platform editor loaded)).isSome) ↔
        KeptBody platform loaded := by
  have hswap : ∀ text : String, text = loaded.body.getD "" ↔ loaded.body.getD "" = text :=
    fun text => eq_comm
  cases hmode : nextBodyMode loaded with
  | none =>
    have hbody := body_of_none hmode
    simp [encodedBody, builtBody, sendsNoBody, builtSource, applyRequest, KeptBody, hmode, hbody]
  | multipart =>
    simp only [encodedBody, builtBody, sendsNoBody, builtSource, applyRequest, KeptBody, hmode]
    simp [hswap]
  | urlencoded =>
    have hrows : (sentRows (headerRowsFromPairs (formEntries (loaded.body.getD "")))).map
        (fun row => (row.key, row.value)) =
        (formEntries (loaded.body.getD "")).filter fun entry => Script.trim entry.1 ≠ "" := by
      rw [sentRows_headerRows, List.map_map]
      exact List.map_id _
    refine Iff.trans ?_ ((form_iff (loaded.body.getD "")).trans (by simp only [KeptBody, hmode]))
    simp only [encodedBody, builtBody, sendsNoBody, modeBody, builtSource, applyRequest, hmode]
    simp [hmethod, hrows]
  | json | xml | text | binary =>
    simp [encodedBody, builtBody, sendsNoBody, modeBody, builtSource, applyRequest, KeptBody, hmode,
      hmethod]
  | soap => exact absurd hmode (nextBodyMode_ne_soap loaded)
  | graphql =>
    refine Iff.trans ?_ ((graphql_iff hreads).trans (by simp only [KeptBody, hmode]))
    simp only [encodedBody, builtBody, sendsNoBody, modeBody, builtSource, applyRequest, hmode]
    simpa [hmethod, hswap] using fun _ hparse _ => Option.isSome_of_eq_some hparse
  | jsonrpc =>
    refine Iff.trans ?_ ((jsonRpc_iff hreads hmode).trans (by simp only [KeptBody, hmode]))
    simp only [encodedBody, builtBody, sendsNoBody, modeBody, builtSource, applyRequest, hmode]
    simpa [hmethod, hswap] using fun _ hparse _ => Option.isSome_of_eq_some hparse
  | msgpack =>
    have htext : ∀ chars : List Char, String.ofList chars = loaded.body.getD "" ↔
        chars = (loaded.body.getD "").toList := fun chars =>
      ⟨fun h => String.toList_ofList.symm.trans (congrArg String.toList h),
        fun h => (congrArg String.ofList h).trans String.ofList_toList⟩
    simp only [encodedBody, builtBody, sendsNoBody, modeBody, builtSource, applyRequest, KeptBody,
      hmode]
    simpa [hmethod, htext] using fun _ hparse _ => Option.isSome_of_eq_some hparse

/-- The editor before anything is opened. -/
def blank : Editor where
  method := "GET"
  headerRows := [createHeaderRow "" ""]
  cookieRows := [createHeaderRow "" ""]
  bodyMode := .none
  body := ""
  binaryBase64 := ""
  messagePackJson := "\x7b\x7d"
  graphqlQuery := ""
  graphqlVariables := "\x7b\x7d"
  graphqlOperationName := ""
  rpcMethod := ""
  rpcParams := "\x7b\x7d"
  rpcId := "1"
  soapVersion := "1.2"
  soapAction := ""
  soapEnvelope := ""
  multipart := []
  formRows := [createHeaderRow "" ""]
  variablesText := []

def jsonRequest (body : String) : HttpWorkbenchRequest :=
  { stagingRequest with
    method := "POST"
    headers := [("Content-Type", "application/json")]
    body := some body }

/-- A query with a variable, as it is written. -/
def countRequest : HttpWorkbenchRequest :=
  { jsonRequest ("\x7b\"query\":\"q\",\"variables\":\x7b\"n\":[1,-2]\x7d," ++
      "\"operationName\":\"Count\"\x7d") with
    headers := [("Content-Type", "application/json"), ("Cookie", " a = 1 "), ("X-Id", "7")]
    vars := (∅ : StringMap).insert "host" "local host" }

def countMembers : Json :=
  .obj [("query", .str "q"), ("variables", .obj [("n", .arr [.num 1, .num (-2)])]),
    ("operationName", .str "Count")]

end ApiVoy.Workbench.Editor
