/-
# Team snapshots

A snapshot of a team's requests is the envelopes with the values of sensitive members
replaced, at every depth. A header pair counts by its name. A member that refers to a secret
keeps its value, and so does a text with a placeholder in it.
-/

import ApiVoy.Foundation.Script

namespace ApiVoy.Workbench

open Foundation

def redactedText : String := "\x7b\x7bredacted\x7d\x7d"

/-- Does a text hold the beginning of a placeholder? -/
def hasPlaceholder (text : String) : Bool := Script.includes text "\x7b\x7b"

/-- A code unit that the point of a pattern stands for: no line terminator, and no half of a
pair. -/
def isPatternAny (c : Char) : Bool :=
  c.toNat < 0x10000 && !(c.toNat = 10 || c.toNat = 13 || c.toNat = 0x2028 || c.toNat = 0x2029)

/-- Is a text two words with at most one character between them? -/
def matchesAround (first second : String) (text : List Char) : Bool :=
  first.toList.isPrefixOf text &&
    let rest := text.drop first.length
    rest = second.toList || (rest.head?.any isPatternAny && rest.tail = second.toList)

/-- The pattern `sensitive`, which has to match a whole name and ignores the case of ASCII
letters. -/
def sensitive (name : String) : Bool :=
  let text := name.toList.map Char.toLower
  ["authorization", "proxy-authorization", "cookie", "set-cookie", "password", "passwd", "token",
      "secret"].any (fun word => word.toList = text) ||
    matchesAround "access" "token" text || matchesAround "refresh" "token" text ||
    matchesAround "api" "key" text || matchesAround "client" "secret" text

/-- Does a name end in `ref`, in any case? -/
def isReferenceKey (key : String) : Bool := "ref".toList.isSuffixOf (key.toList.map Char.toLower)

/-- What stands for a sensitive value. -/
def redactedValue : Json → Json
  | .str text => if hasPlaceholder text then .str text else .str redactedText
  | _ => .str redactedText

/-- The name and the value of a pair with a sensitive name. -/
def sensitivePair : List Json → Option (String × Json)
  | [.str name, value] => if sensitive name then some (name, value) else none
  | _ => none

mutual

/-- Redact the value of a member, whose name is empty for what is no member. -/
def redact (key : String) : Json → Json
  | .arr items =>
    if sensitive key then redactedValue (.arr items)
    else
      match sensitivePair items with
      | some (name, value) => .arr [.str name, redactedValue value]
      | none => .arr (redactItems items)
  | .obj members =>
    if sensitive key then redactedValue (.obj members) else .obj (redactMembers members)
  | scalar =>
    if isReferenceKey key then scalar
    else if sensitive key then redactedValue scalar else scalar

def redactItems : List Json → List Json
  | [] => []
  | item :: rest => redact "" item :: redactItems rest

def redactMembers : List (String × Json) → List (String × Json)
  | [] => []
  | (name, value) :: rest => (name, redact name value) :: redactMembers rest

end

/-! ## The headers of a snapshot -/

def headerPair (header : String × String) : Json := .arr [.str header.1, .str header.2]

/-- The header a snapshot shows for one of an envelope. -/
def redactedHeader (header : String × String) : String × String :=
  if sensitive header.1 then
    (header.1, if hasPlaceholder header.2 then header.2 else redactedText)
  else header

theorem redact_text_item (text : String) : redact "" (.str text) = .str text := by
  have hreference : isReferenceKey "" = false := by decide
  have hsensitive : sensitive "" = false := by decide
  simp [redact, hreference, hsensitive]

theorem redact_headerPair (header : String × String) :
    redact "" (headerPair header) = headerPair (redactedHeader header) := by
  have hempty : sensitive "" = false := by decide
  rw [headerPair, redact, if_neg (by rw [hempty]; decide), sensitivePair, redactedHeader]
  by_cases h : sensitive header.1 = true
  · rw [if_pos h, if_pos h]
    by_cases hplace : hasPlaceholder header.2 = true
    · simp [redactedValue, headerPair, hplace]
    · simp [redactedValue, headerPair, hplace]
  · rw [if_neg h, if_neg h]
    simp [redactItems, redact_text_item, headerPair]

theorem redactItems_eq (items : List Json) : redactItems items = items.map (redact "") := by
  induction items with
  | nil => rfl
  | cons item rest ih => rw [redactItems, ih, List.map_cons]

/-- The items of a list of headers are no texts, so the list is not taken for a pair. -/
theorem sensitivePair_headers (headers : List (String × String)) :
    sensitivePair (headers.map headerPair) = none := by
  match headers with
  | [] => rfl
  | [_] => rfl
  | [_, _] => rfl
  | _ :: _ :: _ :: _ => rfl

theorem redact_headers {key : String} (hkey : sensitive key = false)
    (headers : List (String × String)) :
    redact key (.arr (headers.map headerPair)) =
      .arr ((headers.map redactedHeader).map headerPair) := by
  rw [redact, if_neg (by rw [hkey]; decide), sensitivePair_headers]
  show Json.arr (redactItems _) = _
  rw [redactItems_eq, List.map_map, List.map_map]
  exact congrArg Json.arr (List.map_congr_left fun header _ => redact_headerPair header)

theorem memberValues_redactMembers (name : String) (members : List (String × Json)) :
    Json.memberValues name (redactMembers members) =
      (Json.memberValues name members).map (redact name) := by
  induction members with
  | nil => rfl
  | cons member rest ih =>
    rw [redactMembers, Json.memberValues_cons, Json.memberValues_cons, ih]
    by_cases h : member.1 = name
    · rw [if_pos h, if_pos h, List.map_cons, h]
    · rw [if_neg h, if_neg h]

/-- A member of a redacted object is the redacted member. -/
theorem get_redact {key name : String} (hkey : sensitive key = false) {j value : Json}
    (h : j.get name = some value) : (redact key j).get name = some (redact name value) := by
  cases j with
  | obj members =>
    rw [redact, if_neg (by rw [hkey]; decide)]
    show (Json.memberValues name (redactMembers members)).getLast? = _
    rw [memberValues_redactMembers, List.getLast?_map]
    exact congrArg (Option.map (redact name)) h
  | _ => cases h

def envelopeHeaders (envelope : Json) : Option Json :=
  (envelope.get "payload").bind (Json.get "headers")

/-- A snapshot shows the redacted headers of an envelope. -/
theorem envelopeHeaders_redact {envelope : Json} {headers : List (String × String)}
    (h : envelopeHeaders envelope = some (.arr (headers.map headerPair))) :
    envelopeHeaders (redact "" envelope) =
      some (.arr ((headers.map redactedHeader).map headerPair)) := by
  obtain ⟨payload, hpayload, hheaders⟩ := Option.bind_eq_some_iff.mp h
  have hroot : sensitive "" = false := by decide
  have hinner : sensitive "payload" = false := by decide
  have hlist : sensitive "headers" = false := by decide
  rw [envelopeHeaders, get_redact hroot hpayload, Option.bind_some, get_redact hinner hheaders,
    redact_headers hlist]

/-! ## What a snapshot shows -/

/-- Does a value stand for a sensitive one? -/
def isPlaceholder : Json → Bool
  | .str text => hasPlaceholder text
  | _ => false

mutual

/-- Is nothing sensitive shown at any depth? -/
def conceals (key : String) : Json → Bool
  | .arr items =>
    !sensitive key &&
      match sensitivePair items with
      | some (_, value) => isPlaceholder value
      | none => concealsItems items
  | .obj members => !sensitive key && concealsMembers members
  | scalar => isReferenceKey key || !sensitive key || isPlaceholder scalar

def concealsItems : List Json → Bool
  | [] => true
  | item :: rest => conceals "" item && concealsItems rest

def concealsMembers : List (String × Json) → Bool
  | [] => true
  | (name, value) :: rest => conceals name value && concealsMembers rest

end

theorem hasPlaceholder_redactedText : hasPlaceholder redactedText = true := by decide +kernel

theorem isPlaceholder_redactedValue (value : Json) : isPlaceholder (redactedValue value) = true := by
  cases value with
  | str text =>
    by_cases h : hasPlaceholder text = true
    · rwa [redactedValue, if_pos h]
    · rw [redactedValue, if_neg h]
      exact hasPlaceholder_redactedText
  | _ => exact hasPlaceholder_redactedText

theorem conceals_redactedValue (key : String) (value : Json) :
    conceals key (redactedValue value) = true := by
  have hshown := isPlaceholder_redactedValue value
  cases hvalue : redactedValue value with
  | str text => rw [conceals, ← hvalue, hshown, Bool.or_true] <;> nofun
  | _ => rw [hvalue] at hshown; cases hshown

variable {value : Json}

theorem redactedValue_of_isPlaceholder (h : isPlaceholder value = true) :
    redactedValue value = value := by
  cases value with
  | str text => exact if_pos h
  | _ => cases h

variable {items : List Json}

theorem sensitivePair_redacted {name : String} (h : sensitivePair items = some (name, value))
    (other : Json) :
    items = [.str name, value] ∧ sensitivePair [.str name, other] = some (name, other) := by
  unfold sensitivePair at h
  split at h
  · split at h
    · rename_i hname
      cases h
      exact ⟨rfl, if_pos hname⟩
    · cases h
  · cases h

theorem eq_text_of_redact {text : String} (h : redact "" value = .str text) :
    value = .str text := by
  have hempty : ¬sensitive "" = true := by decide
  cases value with
  | arr items =>
    rw [redact, if_neg hempty] at h
    split at h <;> cases h
  | obj members =>
    rw [redact, if_neg hempty] at h
    cases h
  | null | bool _ | num _ => simp [redact, hempty] at h
  | str other => simpa [redact, hempty] using h

/-- A list that is no pair does not become one. -/
theorem sensitivePair_redactItems (h : sensitivePair items = none) :
    sensitivePair (redactItems items) = none := by
  rw [Option.eq_none_iff_forall_ne_some]
  rintro ⟨name, value⟩ hpair
  have hshape := (sensitivePair_redacted hpair value).1
  rw [redactItems_eq] at hshape
  obtain ⟨first, rest, rfl, hfirst, hrest⟩ := List.map_eq_cons_iff.mp hshape
  obtain ⟨second, rfl, -⟩ := List.map_eq_singleton_iff.mp hrest
  rw [eq_text_of_redact hfirst, (sensitivePair_redacted hpair second).2] at h
  cases h

mutual

/-- What a snapshot shows conceals every sensitive value, and a value that does is shown as it
is. -/
theorem conceals_redact : ∀ (key : String) (value : Json),
    conceals key (redact key value) = true ∧ (conceals key value = true → redact key value = value)
  | key, .arr items => by
    by_cases hkey : sensitive key = true
    · rw [redact, if_pos hkey, conceals, hkey]
      exact ⟨conceals_redactedValue key _, nofun⟩
    have hplain : (!sensitive key) = true := by simpa using hkey
    rw [redact, if_neg hkey, conceals, hplain, Bool.true_and]
    cases hpair : sensitivePair items with
    | none =>
      have hitems := concealsItems_redactItems items
      dsimp only
      rw [conceals, hplain, sensitivePair_redactItems hpair, Bool.true_and]
      exact ⟨hitems.1, fun h => congrArg Json.arr (hitems.2 h)⟩
    | some pair =>
      obtain ⟨rfl, hredacted⟩ := sensitivePair_redacted hpair (redactedValue pair.2)
      dsimp only
      rw [conceals, hplain, hredacted, Bool.true_and]
      exact ⟨isPlaceholder_redactedValue _, fun h => by rw [redactedValue_of_isPlaceholder h]⟩
  | key, .obj members => by
    by_cases hkey : sensitive key = true
    · rw [redact, if_pos hkey, conceals, hkey]
      exact ⟨conceals_redactedValue key _, nofun⟩
    have hplain : (!sensitive key) = true := by simpa using hkey
    have hmembers := concealsMembers_redactMembers members
    rw [redact, if_neg hkey, conceals, conceals, hplain, Bool.true_and, Bool.true_and]
    exact ⟨hmembers.1, fun h => congrArg Json.obj (hmembers.2 h)⟩
  | key, .null | key, .bool _ | key, .num _ | key, .str _ => by
    by_cases hreference : isReferenceKey key = true
    · simp [redact, conceals, hreference]
    by_cases hkey : sensitive key = true
    · simp only [redact, if_neg hreference, if_pos hkey]
      refine ⟨conceals_redactedValue key _, fun h => redactedValue_of_isPlaceholder ?_⟩
      simpa [conceals, hreference, hkey] using h
    · simp [redact, conceals, hreference, hkey]

theorem concealsItems_redactItems : ∀ items : List Json, concealsItems (redactItems items) = true ∧
    (concealsItems items = true → redactItems items = items)
  | [] => ⟨rfl, fun _ => rfl⟩
  | item :: rest => by
    have hitem := conceals_redact "" item
    have hrest := concealsItems_redactItems rest
    simp only [redactItems, concealsItems, Bool.and_eq_true, List.cons.injEq]
    exact ⟨⟨hitem.1, hrest.1⟩, fun h => ⟨hitem.2 h.1, hrest.2 h.2⟩⟩

theorem concealsMembers_redactMembers : ∀ members : List (String × Json),
    concealsMembers (redactMembers members) = true ∧
      (concealsMembers members = true → redactMembers members = members)
  | [] => ⟨rfl, fun _ => rfl⟩
  | (name, value) :: rest => by
    have hvalue := conceals_redact name value
    have hrest := concealsMembers_redactMembers rest
    simp only [redactMembers, concealsMembers, Bool.and_eq_true, List.cons.injEq, Prod.mk.injEq,
      true_and]
    exact ⟨⟨hvalue.1, hrest.1⟩, fun h => ⟨hvalue.2 h.1, hrest.2 h.2⟩⟩

end

/-- A snapshot conceals every sensitive value, changes nothing else, and is its own snapshot. -/
theorem redact_spec (key : String) (value : Json) :
    conceals key (redact key value) = true ∧
      (redact key value = value ↔ conceals key value = true) ∧
      redact key (redact key value) = redact key value := by
  have hshown := (conceals_redact key value).1
  exact ⟨hshown, ⟨fun h => h ▸ hshown, (conceals_redact key value).2⟩,
    (conceals_redact key _).2 hshown⟩

end ApiVoy.Workbench
