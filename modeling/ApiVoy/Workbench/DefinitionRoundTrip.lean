/-
# Reading definitions back

An extension is read back as it was written when its JSON stands on one line. Scripts end lines at
the two separators of Unicode as well, and JSON keeps these in its strings: a description that has
one of them breaks the line, and the reader finds no extension or another one. Without them the
extensions come before all that the rest of the document shows.
-/

import ApiVoy.Workbench.DefinitionText

namespace ApiVoy.Workbench

open Foundation

/-! ## Extensions -/

def extensionLine (key : String) (json : List Char) : List Char := key.toList ++ ' ' :: json

section Extensions

variable {key : String} {opening closing : Char} {json line rest : List Char}

theorem extensionAt_none {text : List Char} (h : key.toList.isPrefixOf text = false) :
    extensionAt key opening closing text = none := by
  rw [extensionAt, if_neg (by rw [h]; exact Bool.false_ne_true)]

/-- An extension at the end of its line is found when it stands between the brackets. -/
theorem extensionAt_line {first last terminator : Char} (hhead : json.head? = some first)
    (hlast : json.getLast? = some last) (hfirst : Script.isSpace first = false)
    (hspace : Script.isSpace last = false) (hline : ∀ c ∈ json, isTerminator c = false)
    (hterminator : isTerminator terminator = true) :
    extensionAt key opening closing (extensionLine key json ++ terminator :: rest) =
      if first = opening ∧ last = closing then some json else none := by
  have hprefix : key.toList.isPrefixOf (extensionLine key json ++ terminator :: rest) = true := by
    rw [List.isPrefixOf_iff_prefix, extensionLine, List.append_assoc]
    exact List.prefix_append _ _
  have hdrop : ((extensionLine key json ++ terminator :: rest).drop key.toList.length).dropWhile
      Script.isSpace = json ++ terminator :: rest := by
    rw [extensionLine, List.append_assoc, List.drop_left, List.cons_append,
      List.dropWhile_cons_of_pos (by decide)]
    cases json with
    | nil => cases hhead
    | cons c json =>
      rw [Option.some.inj hhead, List.cons_append, List.dropWhile_cons_of_neg (by simp [hfirst])]
  have htake : (json ++ terminator :: rest).takeWhile (fun c => !isTerminator c) = json := by
    rw [List.takeWhile_append_of_pos (fun c hc => by simp [hline c hc]),
      List.takeWhile_cons_of_neg (by simp [hterminator]), List.append_nil]
  have htrim : json.rdropWhile Script.isSpace = json := by
    refine List.rdropWhile_eq_self_iff.mpr fun hne => ?_
    rw [List.getLast?_eq_some_getLast hne] at hlast
    rw [Option.some.inj hlast, hspace]
    exact Bool.false_ne_true
  have hvalueHead : (json ++ terminator :: rest).head? = some first := by
    rw [List.head?_append, hhead, Option.some_or]
  unfold extensionAt
  rw [if_pos hprefix]
  dsimp only
  rw [hdrop, htake, htrim, hvalueHead, hlast]
  simp

/-- A line that the reader of some extensions passes over. -/
structure Passed (keys : List String) (line : List Char) : Prop where
  oneLine : ∀ c ∈ line, isTerminator c = false
  notPrefix : ∀ key ∈ keys, ∀ rest, key.toList.isPrefixOf (line ++ '\n' :: rest) = false

variable {keys : List String}

theorem Passed.matchLines (h : Passed keys line) (hkey : key ∈ keys) :
    matchLines (extensionAt key opening closing) true (line ++ '\n' :: rest) =
      matchLines (extensionAt key opening closing) true rest :=
  matchLines_skip h.oneLine (by decide) (extensionAt_none (h.notPrefix key hkey rest))

/-- The text of some lines before another text. -/
def linesBefore (lines : List (List Char)) (rest : List Char) : List Char :=
  lines.foldr (fun line rest => line ++ '\n' :: rest) rest

variable {lines : List (List Char)}

theorem matchLines_linesBefore (hkey : key ∈ keys) (h : ∀ line ∈ lines, Passed keys line) :
    matchLines (extensionAt key opening closing) true (linesBefore lines rest) =
      matchLines (extensionAt key opening closing) true rest := by
  induction lines with
  | nil => rfl
  | cons line lines ih =>
    obtain ⟨hline, hlines⟩ := List.forall_mem_cons.mp h
    exact (hline.matchLines hkey).trans (ih hlines)

/-- The first extension with the key is read, after lines that are passed over. -/
theorem extensionOf_eq (hkey : key ∈ keys) (h : ∀ line ∈ lines, Passed keys line)
    (hhead : json.head? = some opening) (hlast : json.getLast? = some closing)
    (hopening : Script.isSpace opening = false) (hclosing : Script.isSpace closing = false)
    (hline : ∀ c ∈ json, isTerminator c = false) {content : String} (others : List (List Char))
    (rest : List Char)
    (hcontent : content.toList = linesBefore (lines ++ extensionLine key json :: others) rest) :
    extensionOf key opening closing content = some (String.ofList json) := by
  have htext : content.toList = linesBefore lines
      (extensionLine key json ++ '\n' :: linesBefore others rest) := by
    rw [hcontent, linesBefore, List.foldr_append]
    rfl
  have hat : extensionAt key opening closing
      (extensionLine key json ++ '\n' :: linesBefore others rest) = some json := by
    rw [extensionAt_line hhead hlast hopening hclosing hline (by decide), if_pos ⟨rfl, rfl⟩]
  rw [extensionOf, htext, matchLines_linesBefore hkey h, matchLines_of_eq_some hat]
  rfl

end Extensions

/-! ## JSON on one line -/

/-- No string of a value has one of the two separators in it. -/
def Unbroken (value : Json) : Prop :=
  ∀ text ∈ JsonText.stringsOf value, '\u2028' ∉ text.toList ∧ '\u2029' ∉ text.toList

/-- The compact text of such a value is one line. -/
theorem render_oneLine {shown : Rat → List Char} {value : Json}
    (hprintable : JsonText.printable shown value = true) (h : Unbroken value) :
    ∀ c ∈ JsonText.render shown 0 0 value, isTerminator c = false := by
  intro c hc
  cases hterminator : isTerminator c with
  | false => rfl
  | true =>
    obtain ⟨text, htext, hmem, hle⟩ :=
      JsonText.terminator_of_render value 0 hprintable c hc hterminator
    obtain ⟨hline, hparagraph⟩ := h text htext
    rcases isTerminator_iff.mp hterminator with rfl | rfl | rfl | rfl
    · exact absurd hle (by decide)
    · exact absurd hle (by decide)
    · exact absurd hmem hline
    · exact absurd hmem hparagraph

variable (shown : Rat → List Char)

theorem render_arr_ends (items : List Json) :
    (JsonText.render shown 0 0 (.arr items)).head? = some '[' ∧
      (JsonText.render shown 0 0 (.arr items)).getLast? = some ']' := by
  rw [JsonText.render]
  exact ⟨rfl, by rw [← List.append_assoc, List.getLast?_append]; rfl⟩

theorem render_obj_ends (members : List (String × Json)) :
    (JsonText.render shown 0 0 (.obj members)).head? = some '{' ∧
      (JsonText.render shown 0 0 (.obj members)).getLast? = some '}' := by
  rw [JsonText.render]
  exact ⟨rfl, by rw [← List.append_assoc, List.getLast?_append]; rfl⟩

/-! ## The lines of a definition -/

def visualFieldsKey : String := "x-apivoy-visual-fields:"

def securityKey : String := "x-apivoy-security:"

def responsesKey : String := "x-apivoy-responses:"

/-- The lines before the extensions. -/
def preamble (version : OpenApiVersion) (bodyMode : BodyDesignMode) : List (List Char) :=
  match version with
  | .v20 => ["swagger: '2.0'".toList]
  | version => ["openapi: ".toList ++ version.literal.toList,
      "x-apivoy-body-mode: ".toList ++ bodyMode.label.toList]

theorem passed_preamble (version : OpenApiVersion) (bodyMode : BodyDesignMode) :
    ∀ line ∈ preamble version bodyMode, Passed [visualFieldsKey, securityKey, responsesKey] line := by
  have hversion : ∀ c ∈ version.literal.toList, isTerminator c = false := by
    cases version <;> decide
  have hmode : ∀ c ∈ bodyMode.label.toList, isTerminator c = false := by
    cases bodyMode <;> decide
  have hopenApi : Passed [visualFieldsKey, securityKey, responsesKey]
      ("openapi: ".toList ++ version.literal.toList) := by
    refine ⟨List.forall_mem_append.mpr ⟨by decide, hversion⟩, ?_⟩
    simp only [List.forall_mem_cons, List.not_mem_nil, false_implies, implies_true, and_true]
    exact ⟨fun _ => rfl, fun _ => rfl, fun _ => rfl⟩
  have hbodyMode : Passed [visualFieldsKey, securityKey, responsesKey]
      ("x-apivoy-body-mode: ".toList ++ bodyMode.label.toList) := by
    refine ⟨List.forall_mem_append.mpr ⟨by decide, hmode⟩, ?_⟩
    simp only [List.forall_mem_cons, List.not_mem_nil, false_implies, implies_true, and_true]
    exact ⟨fun _ => rfl, fun _ => rfl, fun _ => rfl⟩
  cases version with
  | v20 =>
    refine List.forall_mem_singleton.mpr ⟨by decide, ?_⟩
    simp only [List.forall_mem_cons, List.not_mem_nil, false_implies, implies_true, and_true]
    exact ⟨fun _ => rfl, fun _ => rfl, fun _ => rfl⟩
  | _ => exact List.forall_mem_cons.mpr ⟨hopenApi, List.forall_mem_singleton.mpr hbodyMode⟩

section Definition

variable (host : DefinitionHost) (fields : List DefinitionField) (security : SecurityDesignConfig)
  (responses : List ResponseDefinition)

def fieldsText : List Char :=
  JsonText.render host.platform.numberText 0 0 (.arr (fields.map DefinitionField.json))

def securityText : List Char :=
  JsonText.render host.platform.numberText 0 0 security.json

def responsesText : List Char :=
  JsonText.render host.platform.numberText 0 0 (.arr (responses.map ResponseDefinition.json))

def extensionLines : List (List Char) :=
  [extensionLine visualFieldsKey (fieldsText host fields),
    extensionLine securityKey (securityText host security),
    extensionLine responsesKey (responsesText host responses)]

variable {host fields security responses}

theorem toList_visualFieldsExtension :
    (visualFieldsExtension fields host).toList =
      extensionLine visualFieldsKey (fieldsText host fields) ++ ['\n'] := by
  have hkey : "x-apivoy-visual-fields: ".toList = visualFieldsKey.toList ++ [' '] := by decide
  have hend : "\n".toList = ['\n'] := by decide
  unfold visualFieldsExtension Script.stringify
  rw [String.toList_append, String.toList_append, hkey, hend, String.toList_ofList]
  simp only [extensionLine, fieldsText, List.append_assoc, List.cons_append, List.nil_append]

theorem toList_securityExtension :
    (securityExtension host security responses).toList =
      extensionLine securityKey (securityText host security) ++
        '\n' :: (extensionLine responsesKey (responsesText host responses) ++ ['\n']) := by
  have hkey : "x-apivoy-security: ".toList = securityKey.toList ++ [' '] := by decide
  have hnext : "\nx-apivoy-responses: ".toList = '\n' :: (responsesKey.toList ++ [' ']) := by decide
  have hend : "\n".toList = ['\n'] := by decide
  unfold securityExtension Script.stringify
  rw [String.toList_append, String.toList_append, String.toList_append, String.toList_append,
    hkey, hnext, hend, String.toList_ofList, String.toList_ofList]
  simp only [extensionLine, securityText, responsesText, List.append_assoc, List.cons_append,
    List.nil_append]

/-- A definition has its extensions behind the preamble. -/
theorem toList_fieldsToDefinition {fuel : Nat} {version : OpenApiVersion}
    {bodyMode : BodyDesignMode} (hne : responses ≠ []) {text : String}
    (h : fieldsToDefinition fields host fuel version bodyMode security (some responses) =
      some text) :
    ∃ body, text.toList = linesBefore
      (preamble version bodyMode ++ extensionLines host fields security responses) body := by
  obtain ⟨response, others, rfl⟩ := List.exists_cons_of_ne_nil hne
  have hextensions : ∀ body : List Char, (visualFieldsExtension fields host ++
      securityExtension host security (response :: others)).toList ++ body = linesBefore
        (extensionLines host fields security (response :: others)) body := by
    intro body
    rw [String.toList_append, toList_visualFieldsExtension, toList_securityExtension]
    simp [linesBefore, extensionLines]
  have hlines : ∀ (lines others : List (List Char)) (rest : List Char),
      linesBefore (lines ++ others) rest = linesBefore lines (linesBefore others rest) :=
    fun lines others rest => List.foldr_append
  unfold fieldsToDefinition at h
  dsimp only at h
  cases version with
  | v20 =>
    obtain ⟨body, -, rfl⟩ := Option.map_eq_some_iff.mp h
    refine ⟨body.toList, ?_⟩
    have hstart : "swagger: '2.0'\n".toList = "swagger: '2.0'".toList ++ ['\n'] := by decide
    rw [hlines, ← hextensions, String.toList_append, String.toList_append, hstart]
    simp only [preamble, linesBefore, List.foldr_cons, List.foldr_nil, List.append_assoc,
      List.cons_append, List.nil_append]
  | _ =>
    obtain ⟨body, -, rfl⟩ := Option.map_eq_some_iff.mp h
    refine ⟨body.toList, ?_⟩
    have hmode : "\nx-apivoy-body-mode: ".toList = '\n' :: "x-apivoy-body-mode: ".toList := by decide
    have hend : "\n".toList = ['\n'] := by decide
    rw [hlines, ← hextensions]
    simp only [String.toList_append, hmode, hend, preamble, linesBefore, List.foldr_cons,
      List.foldr_nil, List.append_assoc, List.cons_append, List.nil_append]

/-! ## Reading the extensions -/

theorem printable_field (shown : Rat → List Char) (field : DefinitionField) :
    JsonText.printable shown field.json = true := by
  unfold DefinitionField.json
  cases field.example? <;> cases field.parentId <;> cases field.status <;>
    cases field.responseId <;>
    simp [optionalMember, JsonText.printable, JsonText.membersPrintable]

theorem printable_response (shown : Rat → List Char) (response : ResponseDefinition) :
    JsonText.printable shown response.json = true := by
  unfold ResponseDefinition.json
  cases response.componentId <;> cases response.referenceMode <;>
    simp [optionalMember, JsonText.printable, JsonText.membersPrintable]

variable {items : List Json}

theorem printable_arr {shown : Rat → List Char}
    (h : ∀ item ∈ items, JsonText.printable shown item = true) :
    JsonText.printable shown (.arr items) = true := by
  rw [JsonText.printable]
  induction items with
  | nil => rfl
  | cons item items ih =>
    obtain ⟨hitem, hitems⟩ := List.forall_mem_cons.mp h
    rw [JsonText.itemsPrintable, hitem, ih hitems, Bool.and_self]

/-- A number of a security design is written with a text that is read as the same number. -/
def PrintsNumber (platform : Script.Platform) (number : Double) : Prop :=
  ∃ value, number = .finite value ∧ JsonText.printsBack platform.numberText value = true

variable {platform : Script.Platform}

theorem printable_security (hrate : PrintsNumber platform security.rateLimit)
    (hbody : PrintsNumber platform security.maxBodyKb) :
    JsonText.printable platform.numberText security.json = true := by
  obtain ⟨rate, hrate, hratePrints⟩ := hrate
  obtain ⟨size, hsize, hsizePrints⟩ := hbody
  unfold SecurityDesignConfig.json
  rw [hrate, hsize]
  simp [numberJson, JsonText.printable, JsonText.membersPrintable, hratePrints, hsizePrints]

theorem find?_optionalMember {name other : String} (h : name ≠ other) (value : Option String) :
    (optionalMember name value).find? (fun member => member.1 = other) = none := by
  cases value <;> simp [optionalMember, h]

theorem isFieldJson_json (field : DefinitionField) : isFieldJson field.json = true := by
  simp [isFieldJson, DefinitionField.json, find?_optionalMember]

theorem normalizeResponseBodyType_label (bodyType : ResponseBodyType) :
    normalizeResponseBodyType (some (.str bodyType.label)) = bodyType := by
  cases bodyType <;> rfl

theorem normalizedResponse_json (response : ResponseDefinition) :
    normalizedResponse response.json = some response.json := by
  have htype := normalizeResponseBodyType_label response.bodyType
  unfold normalizedResponse ResponseDefinition.json
  cases response.componentId <;> cases response.referenceMode <;>
    simp [optionalMember, ownMembers, spreadOver, htype]

theorem spreadOver_security (security : SecurityDesignConfig) :
    Json.obj (spreadOver (ownMembers defaultSecurityDesign.json) (ownMembers security.json)) =
      security.json := by
  simp [spreadOver, ownMembers, defaultSecurityDesign, SecurityDesignConfig.json]

theorem parseJson_render {value : Json} (h : JsonText.printable platform.numberText value = true) :
    Script.parseJson (String.ofList (JsonText.render platform.numberText 0 0 value)) =
      some value :=
  Script.parseJson_stringify platform 0 h

/-- What the three values of a definition need to be written on one line each. -/
structure OneLineEach (host : DefinitionHost) (fields : List DefinitionField)
    (security : SecurityDesignConfig) (responses : List ResponseDefinition) : Prop where
  ofFields : ∀ field ∈ fields, Unbroken field.json
  ofResponses : ∀ response ∈ responses, Unbroken response.json
  ofSecurity : Unbroken security.json
  rateLimit : PrintsNumber host.platform security.rateLimit
  maxBodyKb : PrintsNumber host.platform security.maxBodyKb

theorem unbroken_arr (h : ∀ item ∈ items, Unbroken item) : Unbroken (.arr items) := by
  unfold Unbroken
  rw [JsonText.stringsOf]
  induction items with
  | nil => exact fun text htext => (by cases htext)
  | cons item items ih =>
    obtain ⟨hitem, hitems⟩ := List.forall_mem_cons.mp h
    exact List.forall_mem_append.mpr ⟨hitem, ih hitems⟩

/-- Each of the three lines is passed over by the readers of those behind it. -/
theorem readers_find (h : OneLineEach host fields security responses) {version : OpenApiVersion}
    {bodyMode : BodyDesignMode} {content : String} {body : List Char}
    (hcontent : content.toList = linesBefore
      (preamble version bodyMode ++ extensionLines host fields security responses) body) :
    extensionOf visualFieldsKey '[' ']' content = some (String.ofList (fieldsText host fields)) ∧
      extensionOf securityKey '{' '}' content =
        some (String.ofList (securityText host security)) ∧
      extensionOf responsesKey '[' ']' content =
        some (String.ofList (responsesText host responses)) := by
  have hpreamble := passed_preamble version bodyMode
  have hfieldsLine := render_oneLine
    (printable_arr (List.forall_mem_map.mpr fun field _ => printable_field
      host.platform.numberText field)) (unbroken_arr (List.forall_mem_map.mpr h.ofFields))
  have hresponsesLine := render_oneLine
    (printable_arr (List.forall_mem_map.mpr fun response _ => printable_response
      host.platform.numberText response)) (unbroken_arr (List.forall_mem_map.mpr h.ofResponses))
  have hsecurityLine := render_oneLine (printable_security h.rateLimit h.maxBodyKb) h.ofSecurity
  have hfieldsEnds := render_arr_ends host.platform.numberText (fields.map DefinitionField.json)
  have hresponsesEnds := render_arr_ends host.platform.numberText
    (responses.map ResponseDefinition.json)
  have hsecurityEnds : (securityText host security).head? = some '{' ∧
      (securityText host security).getLast? = some '}' := render_obj_ends _ _
  have hfieldsPassed : Passed [securityKey, responsesKey]
      (extensionLine visualFieldsKey (fieldsText host fields)) := by
    refine ⟨List.forall_mem_append.mpr ⟨by decide,
      List.forall_mem_cons.mpr ⟨by decide, hfieldsLine⟩⟩, ?_⟩
    simp only [List.forall_mem_cons, List.not_mem_nil, false_implies, implies_true, and_true]
    exact ⟨fun _ => rfl, fun _ => rfl⟩
  have hsecurityPassed : Passed [responsesKey]
      (extensionLine securityKey (securityText host security)) := by
    refine ⟨List.forall_mem_append.mpr ⟨by decide,
      List.forall_mem_cons.mpr ⟨by decide, hsecurityLine⟩⟩, ?_⟩
    simp only [List.forall_mem_cons, List.not_mem_nil, false_implies, implies_true, and_true]
    exact fun _ => rfl
  have hweaken : ∀ {keys others : List String} {line : List Char}, Passed others line →
      (∀ key ∈ keys, key ∈ others) → Passed keys line := fun hpassed hsub =>
    ⟨hpassed.oneLine, fun key hkey => hpassed.notPrefix key (hsub key hkey)⟩
  refine ⟨?_, ?_, ?_⟩
  · exact extensionOf_eq List.mem_cons_self hpreamble hfieldsEnds.1 hfieldsEnds.2 (by decide)
      (by decide) hfieldsLine _ _ hcontent
  · refine extensionOf_eq (List.mem_singleton_self securityKey)
      (List.forall_mem_append.mpr ⟨fun line hline => hweaken (hpreamble line hline) (by simp),
        List.forall_mem_singleton.mpr (hweaken hfieldsPassed (by simp))⟩)
      hsecurityEnds.1 hsecurityEnds.2 (by decide) (by decide) hsecurityLine
      [extensionLine responsesKey (responsesText host responses)] body ?_
    rw [List.append_assoc]
    exact hcontent
  · refine extensionOf_eq (List.mem_singleton_self responsesKey)
      (List.forall_mem_append.mpr ⟨fun line hline => hweaken (hpreamble line hline) (by simp),
        List.forall_mem_cons.mpr ⟨hweaken hfieldsPassed (by simp),
          List.forall_mem_singleton.mpr hsecurityPassed⟩⟩)
      hresponsesEnds.1 hresponsesEnds.2 (by decide) (by decide) hresponsesLine [] body ?_
    rw [List.append_assoc]
    exact hcontent

theorem mapM_normalizedResponse (responses : List ResponseDefinition) :
    (responses.map ResponseDefinition.json).mapM normalizedResponse =
      some (responses.map ResponseDefinition.json) := by
  induction responses with
  | nil => rfl
  | cons response responses ih =>
    rw [List.map_cons, List.mapM_cons, normalizedResponse_json, ih]
    rfl

/-- A definition on one line each is read back in a session that has not written it. -/
theorem parse_fieldsToDefinition (h : OneLineEach host fields security responses)
    (hne : responses ≠ []) {fuel : Nat} {version : OpenApiVersion} {bodyMode : BodyDesignMode}
    {text : String}
    (htext : fieldsToDefinition fields host fuel version bodyMode security (some responses) =
      some text) :
    parseDefinitionFields host [] text = fields.map DefinitionField.json ∧
      parseSecurityDesign text = security.json ∧
      ∀ readFields, parseResponseDefinitions host text readFields =
        responses.map ResponseDefinition.json := by
  obtain ⟨body, hcontent⟩ := toList_fieldsToDefinition hne htext
  obtain ⟨hfields, hsecurity, hresponses⟩ := readers_find h hcontent
  have hprintable := printable_arr (List.forall_mem_map.mpr fun field (_ : field ∈ fields) =>
    printable_field host.platform.numberText field)
  have hvisual : parseVisualFieldsExtension text = some (fields.map DefinitionField.json) := by
    have hread : (extensionOf "x-apivoy-visual-fields:" '[' ']' text).bind Script.parseJson =
        some (.arr (fields.map DefinitionField.json)) := by
      change (extensionOf visualFieldsKey '[' ']' text).bind Script.parseJson = _
      rw [hfields, Option.bind_some, fieldsText, parseJson_render hprintable]
    unfold parseVisualFieldsExtension
    rw [hread]
    dsimp only
    rw [List.filter_eq_self.mpr (List.forall_mem_map.mpr fun field _ => isFieldJson_json field)]
  have htrim : Script.trim text ≠ "" := by
    have hhead : ∃ c, text.toList.head? = some c ∧ Script.isSpace c = false := by
      rw [hcontent]
      cases version with
      | v20 => exact ⟨'s', rfl, by decide⟩
      | _ => exact ⟨'o', rfl, by decide⟩
    obtain ⟨c, hc, hspace⟩ := hhead
    intro hempty
    have hkept := Script.head?_trimChars hc hspace
    have hnil : Script.trimChars text.toList = [] := by
      have hlist := congrArg String.toList hempty
      rwa [Script.trim, String.toList_ofList] at hlist
    rw [hnil] at hkept
    cases hkept
  refine ⟨?_, ?_, fun readFields => ?_⟩
  · unfold parseDefinitionFields
    rw [if_neg htrim, hvisual]
  · have hread : (extensionOf "x-apivoy-security:" '{' '}' text).bind Script.parseJson =
        some security.json := by
      change (extensionOf securityKey '{' '}' text).bind Script.parseJson = _
      rw [hsecurity, Option.bind_some, securityText,
        parseJson_render (printable_security h.rateLimit h.maxBodyKb)]
    unfold parseSecurityDesign
    rw [hread]
    exact spreadOver_security security
  · have hread : (extensionOf "x-apivoy-responses:" '[' ']' text).bind Script.parseJson =
        some (.arr (responses.map ResponseDefinition.json)) := by
      change (extensionOf responsesKey '[' ']' text).bind Script.parseJson = _
      rw [hresponses, Option.bind_some, responsesText,
        parseJson_render (printable_arr (List.forall_mem_map.mpr fun response _ =>
          printable_response host.platform.numberText response))]
    obtain ⟨response, others, rfl⟩ := List.exists_cons_of_ne_nil hne
    unfold parseResponseDefinitions
    rw [hread]
    dsimp only
    rw [mapM_normalizedResponse]
    rfl

end Definition

/-! ## Fields below themselves -/

section Rendering

variable (fields : List DefinitionField)

/-- The fields whose schemas are part of the schema of a field. -/
def renderedChildren (field : DefinitionField) : List DefinitionField :=
  if field.type = "array" then (fieldChildren fields field).take 1
  else if field.type = "object" then fieldChildren fields field else []

/-- Are so many levels enough for the schema of a field? -/
def renders : Nat → DefinitionField → Bool
  | 0, _ => false
  | fuel + 1, field => (renderedChildren fields field).all (renders fuel)

/-- Rendering a field comes to an end. It does not for a field that is below itself. -/
inductive Ends : DefinitionField → Prop
  | mk {field : DefinitionField} (below : ∀ child ∈ renderedChildren fields field, Ends child) :
      Ends field

variable {fields}

theorem isSome_mapM {α β : Type} {f : α → Option β} (items : List α) :
    (items.mapM f).isSome = items.all fun item => (f item).isSome := by
  induction items with
  | nil => rfl
  | cons item items ih =>
    rw [List.mapM_cons, List.all_cons, ← ih]
    cases f item with
    | none => rfl
    | some value => cases items.mapM f <;> rfl

variable (fuel : Nat)

theorem isSome_renderSchemaField (field : DefinitionField) (indent : String) :
    (renderSchemaField fields fuel field indent).isSome = renders fields fuel field := by
  induction fuel generalizing field indent with
  | zero => rfl
  | succ fuel ih =>
    rw [renderSchemaField, renders, renderedChildren]
    by_cases harray : field.type = "array"
    · rw [if_pos harray, if_pos harray]
      cases fieldChildren fields field with
      | nil => rfl
      | cons child children => simp [ih]
    rw [if_neg harray, if_neg harray]
    by_cases hobject : field.type = "object"
    · rw [if_pos hobject]
      cases hchildren : fieldChildren fields field with
      | nil => simp
      | cons child children =>
        rw [if_pos (by simp [hobject]), Option.isSome_map, isSome_mapM]
        simp only [Option.isSome_map, ih]
    · rw [if_neg hobject, if_neg (by simp [hobject])]
      rfl

variable {field : DefinitionField}

theorem renders_succ {fuel : Nat} (h : renders fields fuel field = true) :
    renders fields (fuel + 1) field = true := by
  induction fuel generalizing field with
  | zero => cases h
  | succ fuel ih =>
    rw [renders, List.all_eq_true] at h ⊢
    exact fun child hchild => ih (h child hchild)

theorem renders_mono {fuel more : Nat} (hle : fuel ≤ more) (h : renders fields fuel field = true) :
    renders fields more field = true := by
  induction hle with
  | refl => exact h
  | step _ ih => exact renders_succ ih

/-- Some levels are enough for all of some fields when they are for each. -/
theorem exists_renders {items : List DefinitionField}
    (h : ∀ field ∈ items, ∃ fuel, renders fields fuel field = true) :
    ∃ fuel, ∀ field ∈ items, renders fields fuel field = true := by
  induction items with
  | nil => exact ⟨0, fun field hfield => (by cases hfield)⟩
  | cons item items ih =>
    obtain ⟨⟨first, hfirst⟩, hitems⟩ := List.forall_mem_cons.mp h
    obtain ⟨others, hothers⟩ := ih hitems
    exact ⟨max first others, List.forall_mem_cons.mpr ⟨renders_mono (le_max_left _ _) hfirst,
      fun field hfield => renders_mono (le_max_right _ _) (hothers field hfield)⟩⟩

theorem ends_iff : Ends fields field ↔ ∃ fuel, renders fields fuel field = true := by
  constructor
  · intro h
    induction h with
    | mk _ ih =>
      obtain ⟨fuel, hfuel⟩ := exists_renders ih
      exact ⟨fuel + 1, List.all_eq_true.mpr hfuel⟩
  · rintro ⟨fuel, h⟩
    induction fuel generalizing field with
    | zero => cases h
    | succ fuel ih => exact .mk fun child hchild => ih (List.all_eq_true.mp h child hchild)

theorem isSome_yamlSchema (items : List DefinitionField) (indent : String) :
    (yamlSchema fields fuel items indent).isSome =
      (schemaRoots items).all (renders fields fuel) := by
  unfold yamlSchema
  dsimp only
  rw [Option.isSome_map, isSome_mapM]
  simp only [Option.isSome_map, isSome_renderSchemaField]

theorem isSome_bodySchemaText (items : List DefinitionField) (introduction indent : String) :
    (bodySchemaText fields fuel items introduction indent).isSome =
      (schemaRoots items).all (renders fields fuel) := by
  unfold bodySchemaText
  cases items with
  | nil => rfl
  | cons item items =>
    rw [if_neg (by simp), Option.isSome_map, isSome_yamlSchema]

variable (fields)

def responseBodyFields (status : String) : List DefinitionField :=
  ofScope "response.body" (fields.filter fun field => field.statusOr = status)

/-- The fields a document renders a schema for. -/
def renderedRoots (version : OpenApiVersion) (bodyMode : BodyDesignMode) : List DefinitionField :=
  (if version ≠ .v20 ∧ (bodyMode = .none ∨ bodyMode = .binary) then []
    else schemaRoots (ofScope "request.body" fields)) ++
  (statusesOr fields).flatMap fun status => schemaRoots (responseBodyFields fields status)

variable {fields}

theorem isSome_responses (headerText : DefinitionField → String) (introduction indent : String) :
    ((statusesOr fields).mapM (responseText fields fuel headerText introduction indent)).isSome =
      ((statusesOr fields).flatMap fun status =>
        schemaRoots (responseBodyFields fields status)).all (renders fields fuel) := by
  rw [isSome_mapM, List.all_flatMap]
  simp only [responseText, Option.isSome_map, isSome_bodySchemaText]
  rfl

theorem isSome_requestBodyText (bodyMode : BodyDesignMode) :
    (requestBodyText fields fuel bodyMode).isSome =
      (if bodyMode = .none ∨ bodyMode = .binary then []
        else schemaRoots (ofScope "request.body" fields)).all (renders fields fuel) := by
  cases bodyMode with
  | none => rfl
  | binary => rfl
  | _ =>
    rw [requestBodyText, Option.isSome_map, isSome_yamlSchema]
    · rfl
    all_goals exact fun h => (by cases h)

theorem isSome_bind_map {α β γ : Type} (first : Option α) (second : Option β)
    (f : α → β → γ) :
    (first.bind fun value => second.map (f value)).isSome = (first.isSome && second.isSome) := by
  cases first with
  | none => rfl
  | some value => cases second <;> rfl

variable (host : DefinitionHost)

/-- A document is written with so many levels when they are enough for what it renders. -/
theorem isSome_fieldsToDefinition (fuel : Nat) (version : OpenApiVersion)
    (bodyMode : BodyDesignMode) (security : SecurityDesignConfig)
    (responses : Option (List ResponseDefinition)) :
    (fieldsToDefinition fields host fuel version bodyMode security responses).isSome =
      (renderedRoots fields version bodyMode).all (renders fields fuel) := by
  have hversion3 : ∀ version, version ≠ .v20 →
      (openApiBody fields host fuel bodyMode).isSome =
        (renderedRoots fields version bodyMode).all (renders fields fuel) := by
    intro version hversion
    unfold openApiBody renderedRoots
    dsimp only
    rw [isSome_bind_map, isSome_requestBodyText, isSome_responses, List.all_append]
    simp only [ne_eq, hversion, not_false_eq_true, true_and]
  unfold fieldsToDefinition
  cases version with
  | v20 =>
    dsimp only
    unfold swaggerBody renderedRoots
    dsimp only
    rw [Option.isSome_map, isSome_bind_map, isSome_bodySchemaText, isSome_responses,
      List.all_append, if_neg (fun h => h.1 rfl)]
  | _ =>
    dsimp only
    rw [Option.isSome_map]
    exact hversion3 _ (by decide)

/-- A document is written exactly when no field it renders is below itself. -/
theorem writes_iff (version : OpenApiVersion) (bodyMode : BodyDesignMode)
    (security : SecurityDesignConfig) (responses : Option (List ResponseDefinition)) :
    (∃ enough, ∀ fuel, enough ≤ fuel →
        (fieldsToDefinition fields host fuel version bodyMode security responses).isSome = true) ↔
      ∀ root ∈ renderedRoots fields version bodyMode, Ends fields root := by
  simp only [isSome_fieldsToDefinition, List.all_eq_true]
  constructor
  · rintro ⟨enough, h⟩ root hroot
    exact ends_iff.mpr ⟨enough, h enough le_rfl root hroot⟩
  · intro h
    obtain ⟨enough, henough⟩ := exists_renders fun root hroot => ends_iff.mp (h root hroot)
    exact ⟨enough, fun fuel hle root hroot => renders_mono hle (henough root hroot)⟩

end Rendering

/-! ## The round trip -/

/-- A design without separators in its texts, whose fields are not below themselves, is read back
from its document as it was. -/
theorem definition_roundTrip {host : DefinitionHost} {fields : List DefinitionField}
    {security : SecurityDesignConfig} {responses : List ResponseDefinition}
    (h : OneLineEach host fields security responses) (hne : responses ≠ [])
    {version : OpenApiVersion} {bodyMode : BodyDesignMode}
    (hends : ∀ root ∈ renderedRoots fields version bodyMode, Ends fields root) :
    ∃ enough, ∀ fuel, enough ≤ fuel → ∃ text,
      fieldsToDefinition fields host fuel version bodyMode security (some responses) = some text ∧
        parseDefinitionFields host [] text = fields.map DefinitionField.json ∧
        parseSecurityDesign text = security.json ∧
        ∀ readFields, parseResponseDefinitions host text readFields =
          responses.map ResponseDefinition.json := by
  obtain ⟨enough, henough⟩ :=
    (writes_iff host version bodyMode security (some responses)).mpr hends
  refine ⟨enough, fun fuel hle => ?_⟩
  obtain ⟨text, htext⟩ := Option.isSome_iff_exists.mp (henough fuel hle)
  exact ⟨text, htext, parse_fieldsToDefinition h hne htext⟩

/-! ### Two designs -/

/-- A host without an open draft. -/
def sampleDefinitionHost : DefinitionHost where
  platform := .ascii
  draw n := toString n
  liveUrl := none
  liveMethod := none
  inferredFields _ := []

def describedField (description : String) : DefinitionField where
  id := "1"
  name := "q"
  type := "string"
  required := false
  description := description
  example? := none
  parentId := none
  scope := "request.params"
  status := none
  responseId := none

def okResponse : ResponseDefinition where
  id := "2"
  name := "ok"
  statusCode := "200"
  bodyType := .json
  contentType := "application/json"
  componentId := none
  referenceMode := none

/-- A description with a separator, and an extension without fields on the line behind it. -/
def brokenDescription : String := "\u2028x-apivoy-visual-fields: []\u2028"

/-- The text of that field has its separators where the description has them. -/
theorem broken_text : ∃ before after,
    fieldsText sampleDefinitionHost [describedField brokenDescription] =
        before ++ '\u2028' :: (extensionLine visualFieldsKey ['[', ']'] ++ '\u2028' :: after) ∧
      (∀ c ∈ before, isTerminator c = false) ∧ before.head? = some '[' ∧
      before.getLast? = some '"' := by
  let text := fieldsText sampleDefinitionHost [describedField brokenDescription]
  refine ⟨text.takeWhile fun c => !isTerminator c,
    ((text.dropWhile fun c => !isTerminator c).drop 1).dropWhile (fun c => !isTerminator c) |>.drop 1,
    ?_⟩
  decide +kernel

/-- The reader takes the extension in the description for that of the fields. -/
theorem broken_read {fuel : Nat} {text : String}
    (htext : fieldsToDefinition [describedField brokenDescription] sampleDefinitionHost fuel .v31
      .none defaultSecurityDesign (some [okResponse]) = some text) :
    parseVisualFieldsExtension text = some [] := by
  obtain ⟨body, hcontent⟩ := toList_fieldsToDefinition (List.cons_ne_nil _ _) htext
  obtain ⟨before, after, hfields, hbefore, hhead, hlast⟩ := broken_text
  have hlines : ∀ (lines others : List (List Char)) (rest : List Char),
      linesBefore (lines ++ others) rest = linesBefore lines (linesBefore others rest) :=
    fun lines others rest => List.foldr_append
  -- The first line of the extension ends in the description, where it is no extension yet.
  have hfirst : ∀ rest, matchLines (extensionAt visualFieldsKey '[' ']') true
      (extensionLine visualFieldsKey before ++ '\u2028' :: rest) =
        matchLines (extensionAt visualFieldsKey '[' ']') true rest := fun rest => by
    refine matchLines_skip (List.forall_mem_append.mpr ⟨by decide,
      List.forall_mem_cons.mpr ⟨by decide, hbefore⟩⟩) (by decide) ?_
    rw [extensionAt_line hhead hlast (by decide) (by decide) hbefore (by decide),
      if_neg (by decide)]
  have hsecond : ∀ rest, extensionAt visualFieldsKey '[' ']'
      (extensionLine visualFieldsKey ['[', ']'] ++ '\u2028' :: rest) = some ['[', ']'] :=
    fun rest => by
      rw [extensionAt_line rfl rfl (by decide) (by decide) (by decide) (by decide),
        if_pos ⟨rfl, rfl⟩]
  have hread : extensionOf visualFieldsKey '[' ']' text = some (String.ofList ['[', ']']) := by
    rw [extensionOf, hcontent, hlines, matchLines_linesBefore List.mem_cons_self
      (passed_preamble .v31 .none)]
    have hextensions : ∃ rest, linesBefore (extensionLines sampleDefinitionHost
          [describedField brokenDescription] defaultSecurityDesign [okResponse]) body =
        extensionLine visualFieldsKey before ++
          '\u2028' :: (extensionLine visualFieldsKey ['[', ']'] ++ '\u2028' :: rest) := by
      rw [extensionLines, linesBefore, List.foldr_cons, hfields]
      simp only [extensionLine, List.append_assoc, List.cons_append]
      exact ⟨_, rfl⟩
    obtain ⟨rest, hrest⟩ := hextensions
    rw [hrest, hfirst, matchLines_of_eq_some (hsecond rest)]
    rfl
  have hparse : Script.parseJson (String.ofList ['[', ']']) = some (.arr []) := by rfl
  have hbind : (extensionOf "x-apivoy-visual-fields:" '[' ']' text).bind Script.parseJson =
      some (.arr []) := by
    change (extensionOf visualFieldsKey '[' ']' text).bind Script.parseJson = _
    rw [hread, Option.bind_some, hparse]
  unfold parseVisualFieldsExtension
  rw [hbind]
  rfl

/-- A parameter with a note, and a body with an object in it. -/
def notedFields : List DefinitionField :=
  [describedField "a note",
    { describedField "" with id := "3", name := "user", type := "object", scope := "request.body" },
    { describedField "the address" with
      id := "4", name := "email", parentId := some "3", scope := "request.body" }]

/-- Nested fields and a note are read back from their document. -/
theorem noted_roundTrip :
    ∃ enough, ∀ fuel, enough ≤ fuel → ∃ text,
      fieldsToDefinition notedFields sampleDefinitionHost fuel .v31 .json
          defaultSecurityDesign (some [okResponse]) = some text ∧
        parseDefinitionFields sampleDefinitionHost [] text = notedFields.map DefinitionField.json ∧
        parseSecurityDesign text = defaultSecurityDesign.json ∧
        ∀ readFields, parseResponseDefinitions sampleDefinitionHost text readFields =
          [okResponse].map ResponseDefinition.json := by
  have hzero : PrintsNumber sampleDefinitionHost.platform (.finite 0) :=
    ⟨0, rfl, by decide +kernel⟩
  refine definition_roundTrip ⟨?_, List.forall_mem_singleton.mpr ?_, ?_, hzero, hzero⟩
    (List.cons_ne_nil _ _) fun root hroot => ends_iff.mpr ⟨2, ?_⟩
  · unfold Unbroken
    decide
  · unfold Unbroken
    decide
  · unfold Unbroken
    decide
  · have hrenders : ∀ root ∈ renderedRoots notedFields .v31 .json,
        renders notedFields 2 root = true := by decide
    exact hrenders root hroot

/-- A parameter whose description has a separator and an extension behind it is lost. -/
theorem definition_roundTrip_not :
    ¬∀ (host : DefinitionHost) (fields : List DefinitionField) (version : OpenApiVersion)
        (bodyMode : BodyDesignMode) (security : SecurityDesignConfig)
        (responses : List ResponseDefinition), responses ≠ [] →
      ∃ enough, ∀ fuel, enough ≤ fuel → ∃ text,
        fieldsToDefinition fields host fuel version bodyMode security (some responses) =
            some text ∧
          parseDefinitionFields host [] text = fields.map DefinitionField.json ∧
          parseSecurityDesign text = security.json ∧
          ∀ readFields, parseResponseDefinitions host text readFields =
            responses.map ResponseDefinition.json := by
  intro h
  obtain ⟨enough, henough⟩ := h sampleDefinitionHost [describedField brokenDescription] .v31 .none
    defaultSecurityDesign [okResponse] (List.cons_ne_nil _ _)
  obtain ⟨text, htext, hfields, -⟩ := henough enough le_rfl
  unfold parseDefinitionFields at hfields
  rw [broken_read htext] at hfields
  split at hfields <;> cases hfields

end ApiVoy.Workbench
