/-
# The client's sanitizer

The client removes credentials from a request before it is saved, and so does the host that
stores it. The client takes the lower case of a name first and then drops what is no ASCII
letter or digit; the host does it the other way around. Two characters have an ASCII letter in
their lower case without being ASCII, and only they tell the two apart.
-/

import ApiVoy.Workbench.Envelopes
import Mathlib

namespace ApiVoy.Workbench

open Foundation Script

/-! ## Lists filtered by a label -/

section Filtering

variable {α β γ : Type}

/-- Map the elements of a list, and leave out those with some labels. -/
def keepMap (key : α → γ) (drop : γ → Bool) (f : α → β) (a : α) : Option β :=
  if drop (key a) then none else some (f a)

variable {dropF dropG : γ → Bool}

/-- What is kept has a label that is not left out, so another map that gives the same list and
keeps the labels keeps it too. -/
theorem keepMap_isSome_of_eq {key : α → γ} {label : β → γ} {f g : α → β}
    (hf : ∀ a, label (f a) = key a) (hg : ∀ a, label (g a) = key a) {as : List α}
    (h : as.filterMap (keepMap key dropF f) = as.filterMap (keepMap key dropG g)) {a : α}
    (ha : a ∈ as) (hkept : dropF (key a) = false) : dropG (key a) = false := by
  have hmem : f a ∈ as.filterMap (keepMap key dropF f) :=
    List.mem_filterMap.mpr ⟨a, ha, by simp [keepMap, hkept]⟩
  rw [h] at hmem
  obtain ⟨a', _, hsome⟩ := List.mem_filterMap.mp hmem
  rw [keepMap] at hsome
  split at hsome
  · cases hsome
  · rename_i hdrop
    have hkey : key a' = key a := by rw [← hg a', Option.some.inj hsome, hf a]
    rw [← hkey]
    exact eq_false_of_ne_true hdrop

/-- Two such maps give the same list only if they agree on each element, provided that they
keep the labels. -/
theorem filterMap_keepMap_eq_iff (key : α → γ) (label : β → γ) {f g : α → β}
    (hf : ∀ a, label (f a) = key a) (hg : ∀ a, label (g a) = key a) (as : List α) :
    as.filterMap (keepMap key dropF f) = as.filterMap (keepMap key dropG g) ↔
      ∀ a ∈ as, keepMap key dropF f a = keepMap key dropG g a := by
  constructor
  · intro h
    have hdrop : ∀ a ∈ as, dropF (key a) = dropG (key a) := by
      intro a ha
      cases hleft : dropF (key a) with
      | false => exact (keepMap_isSome_of_eq hf hg h ha hleft).symm
      | true =>
        cases hright : dropG (key a) with
        | true => rfl
        | false => exact hleft.symm.trans (keepMap_isSome_of_eq hg hf h.symm ha hright)
    induction as with
    | nil =>
      intro a ha
      cases ha
    | cons first rest ih =>
      have hrest : ∀ a ∈ rest, dropF (key a) = dropG (key a) := fun a ha =>
        hdrop a (List.mem_cons_of_mem first ha)
      have hfirst := hdrop first List.mem_cons_self
      rw [List.forall_mem_cons]
      rw [List.filterMap_cons, List.filterMap_cons, keepMap, keepMap, ← hfirst] at h
      rw [keepMap, keepMap, ← hfirst]
      cases hleft : dropF (key first) with
      | true =>
        simp only [hleft, if_true] at h ⊢
        exact ⟨trivial, ih h hrest⟩
      | false =>
        simp only [hleft, Bool.false_eq_true, if_false] at h ⊢
        obtain ⟨heq, htail⟩ := List.cons.inj h
        exact ⟨congrArg some heq, ih htail hrest⟩
  · exact List.filterMap_congr

end Filtering

namespace Sanitizer

/-! ## Names -/

def sensitiveHeaderNames : List String :=
  ["authorization", "proxyauthorization", "cookie", "setcookie", "apikey", "xapikey",
    "authtoken", "xauthtoken", "accesstoken", "xaccesstoken"]

def sensitiveCredentialSuffixes : List String :=
  ["token", "secret", "password", "passwd", "apikey"]

def sensitiveJsonKeys : List String := ["authorizationcode", "codeverifier"]

/-- A character of `[a-z0-9]`. -/
def isLowerAlphanum (c : Char) : Bool := c.isLower || c.isDigit

def normalizedCredentialName (value : String) : List Char :=
  (toLowerCase value).toList.filter isLowerAlphanum

def isSensitiveHeaderName (name : String) : Bool :=
  let normalized := normalizedCredentialName name
  sensitiveHeaderNames.any (fun known => known.toList = normalized) ||
    sensitiveCredentialSuffixes.any fun suffix => suffix.toList.isSuffixOf normalized

def isSensitiveJsonKey (name : String) : Bool :=
  (sensitiveJsonKeys.any fun known => known.toList = normalizedCredentialName name) ||
    isSensitiveHeaderName name

/-- Is a value the one of a `headers` member? -/
def isHeadersKey (parentKey : String) : Bool :=
  normalizedCredentialName parentKey = "headers".toList

/-! ## Requests -/

/-- Is this a header pair with a sensitive name? -/
def isSensitivePair : Json → Bool
  | .arr (.str name :: _) => isSensitiveHeaderName name
  | _ => false

mutual

def sanitizeMetadataValue (parentKey : String) : Json → Json
  | .arr items => .arr (sanitizeItems (isHeadersKey parentKey) items)
  | .obj members => .obj (sanitizeMembers members)
  | value => value

def sanitizeItems (inHeaders : Bool) : List Json → List Json
  | [] => []
  | item :: rest =>
    if inHeaders && isSensitivePair item then sanitizeItems inHeaders rest
    else sanitizeMetadataValue "" item :: sanitizeItems inHeaders rest

/-- The members are assigned to a new object one by one, and an assignment to `__proto__` makes
no member. -/
def sanitizeMembers : List (String × Json) → List (String × Json)
  | [] => []
  | (key, nested) :: rest =>
    if isSensitiveJsonKey key || key = "__proto__" then sanitizeMembers rest
    else (key, sanitizeMetadataValue key nested) :: sanitizeMembers rest

end

/-- Remove the credentials that are only there for sending the request. -/
def sanitizeHttpRequestForPersistence (request : HttpWorkbenchRequest) : HttpWorkbenchRequest :=
  { request with
    headers := request.headers.filter fun header => !isSensitiveHeaderName header.1
    auth := match request.auth with
      | .value auth => .value { auth with token := none }
      | other => other
    metadata := request.metadata.map sanitizeMembers }

/-! ## The two letters -/

/-- The ASCII letter in the lower case of the Kelvin sign and of the dotted capital I. -/
def foldLetter (c : Char) : Char :=
  if c.toNat = 0x212A then 'k' else if c.toNat = 0x130 then 'i' else c

/-- A name with these two characters read as their letters. -/
def foldLetters (name : String) : String := String.ofList (name.toList.map foldLetter)

theorem lowerAlphanum_ascii : ∀ n < 128,
    [(Char.ofNat n).toLower].filter isLowerAlphanum =
      ([Char.ofNat n].filter Char.isAlphanum).map Char.toLower := by
  decide

theorem beyond_ascii {c : Char} (h : ¬c.toNat < 128) :
    c.toLower = c ∧ c.isAlphanum = false ∧ isLowerAlphanum c = false := by
  have hgt : ∀ n : UInt32, n.toNat < 128 → n < c.val := fun n hn =>
    UInt32.lt_iff_toNat_lt.mpr (lt_of_lt_of_le hn (Nat.le_of_not_lt h))
  have hupper : 90 < c.val := hgt 90 (by decide)
  have hlower : 122 < c.val := hgt 122 (by decide)
  have hdigit : 57 < c.val := hgt 57 (by decide)
  refine ⟨?_, ?_, ?_⟩
  · rw [Char.toLower, dif_neg fun h => UInt32.not_le.mpr hupper h.2]
  · simp [Char.isAlphanum, Char.isAlpha, Char.isUpper, Char.isLower, Char.isDigit, hupper, hlower,
      hdigit]
  · simp [isLowerAlphanum, Char.isLower, Char.isDigit, hlower, hdigit]

/-- A character beyond ASCII is dropped by both, unless it is one of the two. -/
theorem filter_lowerChar (c : Char) :
    (lowerChar c).filter isLowerAlphanum =
      ([foldLetter c].filter Char.isAlphanum).map Char.toLower := by
  rw [lowerChar, foldLetter]
  split
  · decide
  split
  · decide
  by_cases h : c.toNat < 128
  · rw [← Char.ofNat_toNat c]
    exact lowerAlphanum_ascii c.toNat h
  · obtain ⟨hself, halphanum, hkeep⟩ := beyond_ascii h
    simp [hself, halphanum, hkeep]

theorem normalizedCredentialName_eq (value : String) :
    normalizedCredentialName value = Domain.normalizedCredentialName (foldLetters value) := by
  rw [normalizedCredentialName, toLowerCase, Domain.normalizedCredentialName, foldLetters,
    String.toList_ofList, String.toList_ofList]
  induction value.toList with
  | nil => rfl
  | cons c rest ih =>
    rw [List.flatMap_cons, List.filter_append, ih, filter_lowerChar, ← List.map_append,
      ← List.filter_append, List.singleton_append, List.map_cons]

theorem isSensitiveHeaderName_eq (name : String) :
    isSensitiveHeaderName name = Domain.isSensitiveHeaderName (foldLetters name) := by
  rw [isSensitiveHeaderName, Domain.isSensitiveHeaderName, normalizedCredentialName_eq]
  rfl

/-! ## Where the sanitizers agree -/

def pairName? : Json → Option String
  | .arr (.str name :: _) => some name
  | _ => none

/-- Is the name of a pair read alike with and without the two letters? -/
def samePair (client host : Bool) (item : Json) : Bool :=
  (client && isSensitivePair item) == (host && Domain.isSensitivePair item)

mutual

/-- Do the names in a value count as credentials whether or not the two letters are read?
`client` and `host` say who takes the value for a list of headers. Only what is kept is looked
at, and nothing that is kept is called `__proto__`. -/
def sameNames (client host : Bool) : Json → Bool
  | .arr items => sameItems client host items
  | .obj members => sameMembers members
  | _ => true

def sameItems (client host : Bool) : List Json → Bool
  | [] => true
  | item :: rest =>
    samePair client host item &&
      ((host && Domain.isSensitivePair item || sameNames false false item) &&
        sameItems client host rest)

def sameMembers : List (String × Json) → Bool
  | [] => true
  | (key, nested) :: rest =>
    (isSensitiveJsonKey key == Domain.isSensitiveJsonKey key) &&
      ((Domain.isSensitiveJsonKey key ||
          (key ≠ "__proto__" &&
            sameNames (isHeadersKey key)
              (Domain.normalizedCredentialName key = "headers".toList) nested)) &&
        sameMembers rest)

end

/-! What the two sanitizers make of one item of a list and of one member. -/

def clientItem (client : Bool) (item : Json) : Option Json :=
  if client && isSensitivePair item then none else some (sanitizeMetadataValue "" item)

def hostItem (host : Bool) (item : Json) : Option Json :=
  if host && Domain.isSensitivePair item then none else some (Domain.scrubSensitiveJson false item)

def clientMember (member : String × Json) : Option (String × Json) :=
  if isSensitiveJsonKey member.1 || member.1 = "__proto__" then none
  else some (member.1, sanitizeMetadataValue member.1 member.2)

def hostMember (member : String × Json) : Option (String × Json) :=
  if Domain.isSensitiveJsonKey member.1 then none
  else
    some (member.1, Domain.scrubSensitiveJson
      (Domain.normalizedCredentialName member.1 = "headers".toList) member.2)

theorem sanitizeItems_eq (client : Bool) (items : List Json) :
    sanitizeItems client items = items.filterMap (clientItem client) := by
  induction items with
  | nil => rfl
  | cons item rest ih =>
    rw [sanitizeItems, ih, List.filterMap_cons, clientItem]
    split <;> rfl

theorem scrubItems_eq (host : Bool) (items : List Json) :
    Domain.scrubItems host items = items.filterMap (hostItem host) := by
  induction items with
  | nil => rfl
  | cons item rest ih =>
    rw [Domain.scrubItems, ih, List.filterMap_cons, hostItem]
    split <;> rfl

variable (members : List (String × Json))

theorem sanitizeMembers_eq : sanitizeMembers members = members.filterMap clientMember := by
  induction members with
  | nil => rfl
  | cons member rest ih =>
    rw [sanitizeMembers, ih, List.filterMap_cons, clientMember]
    split <;> rfl

theorem scrubMembers_eq : Domain.scrubMembers members = members.filterMap hostMember := by
  induction members with
  | nil => rfl
  | cons member rest ih =>
    rw [Domain.scrubMembers, ih, List.filterMap_cons, hostMember]
    split <;> rfl

variable (item : Json)

theorem isSensitivePair_eq : isSensitivePair item = (pairName? item).any isSensitiveHeaderName := by
  match item with
  | .arr (.str _ :: _) => rfl
  | .arr [] | .null | .bool _ | .num _ | .str _ | .obj _ => rfl
  | .arr (.null :: _) | .arr (.bool _ :: _) | .arr (.num _ :: _) | .arr (.arr _ :: _)
  | .arr (.obj _ :: _) => rfl

theorem hostPair_eq :
    Domain.isSensitivePair item = (pairName? item).any Domain.isSensitiveHeaderName := by
  match item with
  | .arr (.str _ :: _) => rfl
  | .arr [] | .null | .bool _ | .num _ | .str _ | .obj _ => rfl
  | .arr (.null :: _) | .arr (.bool _ :: _) | .arr (.num _ :: _) | .arr (.arr _ :: _)
  | .arr (.obj _ :: _) => rfl

/-- What is no member is not taken for a list of headers. -/
theorem isHeadersKey_empty : isHeadersKey "" = false := by decide

theorem pairName?_sanitize : pairName? (sanitizeMetadataValue "" item) = pairName? item := by
  cases item with
  | null | bool | num | str | obj => rfl
  | arr items =>
    cases items with
    | nil => rfl
    | cons first rest =>
      rw [sanitizeMetadataValue, isHeadersKey_empty]
      cases first <;> simp [sanitizeItems, sanitizeMetadataValue, pairName?]

theorem pairName?_scrub : pairName? (Domain.scrubSensitiveJson false item) = pairName? item := by
  cases item with
  | null | bool | num | str | obj => rfl
  | arr items =>
    cases items with
    | nil => rfl
    | cons first rest =>
      rw [Domain.scrubSensitiveJson]
      cases first <;> simp [Domain.scrubItems, Domain.scrubSensitiveJson, pairName?]

theorem clientItem_eq (client : Bool) :
    clientItem client = keepMap pairName?
      (fun name => client && name.any isSensitiveHeaderName) (sanitizeMetadataValue "") := by
  funext item
  rw [clientItem, keepMap, isSensitivePair_eq]

theorem hostItem_eq (host : Bool) :
    hostItem host = keepMap pairName?
      (fun name => host && name.any Domain.isSensitiveHeaderName)
      (Domain.scrubSensitiveJson false) := by
  funext item
  rw [hostItem, keepMap, hostPair_eq]

theorem sanitizeItems_eq_scrubItems_iff (client host : Bool) (items : List Json) :
    sanitizeItems client items = Domain.scrubItems host items ↔
      ∀ item ∈ items, clientItem client item = hostItem host item := by
  rw [sanitizeItems_eq, scrubItems_eq, clientItem_eq, hostItem_eq]
  exact filterMap_keepMap_eq_iff pairName? pairName? pairName?_sanitize pairName?_scrub items

/-- What a member becomes keeps its name. -/
def withSanitized (member : String × Json) : String × Json :=
  (member.1, sanitizeMetadataValue member.1 member.2)

def withScrubbed (member : String × Json) : String × Json :=
  (member.1, Domain.scrubSensitiveJson
    (Domain.normalizedCredentialName member.1 = "headers".toList) member.2)

theorem clientMember_eq : clientMember =
    keepMap Prod.fst (fun key => isSensitiveJsonKey key || key = "__proto__") withSanitized := rfl

theorem hostMember_eq : hostMember =
    keepMap Prod.fst Domain.isSensitiveJsonKey withScrubbed := rfl

theorem sanitizeMembers_eq_scrubMembers_iff :
    sanitizeMembers members = Domain.scrubMembers members ↔
      ∀ member ∈ members, clientMember member = hostMember member := by
  have hclient : ∀ member, (withSanitized member).1 = member.1 := fun _ => rfl
  have hhost : ∀ member, (withScrubbed member).1 = member.1 := fun _ => rfl
  rw [sanitizeMembers_eq, scrubMembers_eq, clientMember_eq, hostMember_eq]
  exact filterMap_keepMap_eq_iff Prod.fst Prod.fst hclient hhost members

mutual

theorem sanitize_eq_scrub_iff : ∀ (key : String) (host : Bool) (j : Json),
    sanitizeMetadataValue key j = Domain.scrubSensitiveJson host j ↔
      sameNames (isHeadersKey key) host j = true
  | _, _, .null | _, _, .bool _ | _, _, .num _ | _, _, .str _ => ⟨fun _ => rfl, fun _ => rfl⟩
  | key, host, .arr items => by
    rw [sanitizeMetadataValue, Domain.scrubSensitiveJson, Json.arr.injEq,
      sanitizeItems_eq_scrubItems_iff]
    exact items_alike_iff (isHeadersKey key) host items
  | _, _, .obj members => by
    rw [sanitizeMetadataValue, Domain.scrubSensitiveJson, Json.obj.injEq,
      sanitizeMembers_eq_scrubMembers_iff]
    exact members_alike_iff members

theorem items_alike_iff : ∀ (client host : Bool) (items : List Json),
    (∀ item ∈ items, clientItem client item = hostItem host item) ↔
      sameItems client host items = true
  | _, _, [] => by simp [sameItems]
  | client, host, item :: rest => by
    have hitem := sanitize_eq_scrub_iff "" false item
    rw [isHeadersKey_empty] at hitem
    rw [List.forall_mem_cons, items_alike_iff client host rest, sameItems, Bool.and_eq_true,
      Bool.and_eq_true, ← and_assoc]
    refine and_congr_left fun _ => ?_
    rw [clientItem, hostItem, samePair, beq_iff_eq]
    cases client && isSensitivePair item <;> cases host && Domain.isSensitivePair item <;>
      simp [hitem]

theorem members_alike_iff : ∀ members : List (String × Json),
    (∀ member ∈ members, clientMember member = hostMember member) ↔ sameMembers members = true
  | [] => by simp [sameMembers]
  | (key, nested) :: rest => by
    have hnested := sanitize_eq_scrub_iff key
      (Domain.normalizedCredentialName key = "headers".toList) nested
    rw [List.forall_mem_cons, members_alike_iff rest, sameMembers, Bool.and_eq_true,
      Bool.and_eq_true, ← and_assoc]
    refine and_congr_left fun _ => ?_
    generalize hhost : decide (Domain.normalizedCredentialName key = "headers".toList) = host
      at hnested
    rw [clientMember, hostMember, hhost, beq_iff_eq]
    by_cases hproto : key = "__proto__"
    · -- The client loses this member, and the host keeps it.
      subst hproto
      have hclientKey : isSensitiveJsonKey "__proto__" = false := by decide
      have hhostKey : Domain.isSensitiveJsonKey "__proto__" = false := by decide
      simp [hclientKey, hhostKey]
    · cases isSensitiveJsonKey key <;> cases Domain.isSensitiveJsonKey key <;>
        simp [hproto, hnested]

end

/-! ## Requests on both sides -/

def clientHeaders : ClientPayload → Option (List (String × String))
  | .http payload => some payload.headers
  | .other _ => none

def hostHeaders : Domain.ProtocolPayload → Option (List (String × String))
  | .http payload => some payload.headers
  | _ => none

/-- The host holds the headers, the authentication and the metadata of an envelope the client
has sent. -/
structure Received (client : ClientEnvelope) (host : Domain.RequestEnvelope) : Prop where
  headers : hostHeaders host.payload = clientHeaders client.payload
  auth : host.authRef = client.authRef.toOption
  metadata : host.metadata = client.metadata

theorem hostHeaders_sanitized (payload : Domain.ProtocolPayload) :
    hostHeaders payload.sanitized = (hostHeaders payload).map fun headers =>
      headers.filter fun header => !Domain.isSensitiveHeaderName header.1 := by
  cases payload <;> rfl

theorem authRef_toEnvelope (platform : Platform) (fresh : String) (now : Domain.Timestamp)
    (request : HttpWorkbenchRequest) :
    (toEnvelope platform fresh now request).authRef.toOption = request.auth.toOption := by
  show request.auth.orNull.orNull.toOption = _
  rw [Nullish.orNull_orNull, Nullish.toOption_orNull]

/-- Two tests keep the same elements of a list only if they agree on each of them. -/
theorem filter_eq_filter_iff {α : Type} {p q : α → Bool} {as : List α} :
    as.filter p = as.filter q ↔ ∀ a ∈ as, p a = q a := by
  constructor
  · intro h a ha
    have hmem : a ∈ as.filter p ↔ a ∈ as.filter q := by rw [h]
    rw [List.mem_filter, List.mem_filter, and_congr_right_iff] at hmem
    exact Bool.eq_iff_iff.mpr (hmem ha)
  · exact List.filter_congr

/-- A request on whose names the two letters have no influence. -/
structure Alike (request : HttpWorkbenchRequest) : Prop where
  headers : ∀ header ∈ request.headers,
    Domain.isSensitiveHeaderName (foldLetters header.1) = Domain.isSensitiveHeaderName header.1
  metadata : sameMembers (request.metadata.getD []) = true

theorem headers_alike_iff (headers : List (String × String)) :
    (headers.filter fun header => !Domain.isSensitiveHeaderName header.1) =
        (headers.filter fun header => !isSensitiveHeaderName header.1) ↔
      ∀ header ∈ headers,
        Domain.isSensitiveHeaderName (foldLetters header.1) =
          Domain.isSensitiveHeaderName header.1 := by
  rw [filter_eq_filter_iff]
  refine forall_congr' fun header => forall_congr' fun _ => ?_
  rw [isSensitiveHeaderName_eq, Bool.not_inj_iff, eq_comm]

/-- The client and the host remove the same from a request exactly if the two letters have no
influence on the names in it. -/
theorem sanitizers_agree_iff (platform : Platform) (fresh : String) (now : Domain.Timestamp)
    (request : HttpWorkbenchRequest) (host : Domain.RequestEnvelope)
    (h : Received (toEnvelope platform fresh now request) host) :
    Received (toEnvelope platform fresh now (sanitizeHttpRequestForPersistence request))
        host.sanitizedForPersistence ↔ Alike request := by
  have hheaders : hostHeaders host.sanitizedForPersistence.payload = some
      (request.headers.filter fun header => !Domain.isSensitiveHeaderName header.1) := by
    show hostHeaders host.payload.sanitized = _
    rw [hostHeaders_sanitized, h.headers]
    rfl
  have hauth : host.sanitizedForPersistence.authRef =
      (toEnvelope platform fresh now
        (sanitizeHttpRequestForPersistence request)).authRef.toOption := by
    show host.authRef.map (fun auth => { auth with token := none }) = _
    rw [h.auth, authRef_toEnvelope, authRef_toEnvelope, sanitizeHttpRequestForPersistence]
    cases request.auth <;> rfl
  have hmembers : host.sanitizedForPersistence.metadata =
      .obj (Domain.scrubMembers (request.metadata.getD [])) := by
    show Domain.scrubSensitiveJson false host.metadata = _
    rw [h.metadata]
    rfl
  have hscrubbed : Domain.scrubMembers (request.metadata.getD []) =
      (request.metadata.map sanitizeMembers).getD [] ↔
        sameMembers (request.metadata.getD []) = true := by
    rw [← members_alike_iff, ← sanitizeMembers_eq_scrubMembers_iff, eq_comm]
    cases request.metadata <;> rfl
  constructor
  · intro hsame
    exact {
      headers := (headers_alike_iff request.headers).mp
        (Option.some.inj (hheaders.symm.trans hsame.headers))
      metadata := hscrubbed.mp (Json.obj.inj (hmembers.symm.trans hsame.metadata)) }
  · intro halike
    exact {
      headers := hheaders.trans
        (congrArg some ((headers_alike_iff request.headers).mpr halike.headers))
      auth := hauth
      metadata := hmembers.trans (congrArg Json.obj (hscrubbed.mpr halike.metadata)) }

/-- A request with one header, and the envelope a host makes of it. -/
def headerRequest (name : String) : HttpWorkbenchRequest :=
  { stagingRequest with headers := [(name, "k")] }

def headerEnvelope (name : String) : Domain.RequestEnvelope :=
  { Domain.RequestEnvelope.httpGet "r1" "2026-01-01T00:00:00Z" "list" "https://api.example/items" with
    payload := .http {
      method := "GET"
      headers := [(name, "k")]
      body := none
      bodyEncoding := "text"
      bodySource := none
      multipart := []
      followRedirects := true } }

theorem headerEnvelope_received (name : String) :
    Received (toEnvelope .ascii "fresh" "2026-01-01T00:00:00Z" (headerRequest name))
      (headerEnvelope name) :=
  ⟨rfl, rfl, rfl⟩

/-- Both remove an authorization header. -/
theorem sanitizers_agree_authorization :
    Received (toEnvelope .ascii "fresh" "2026-01-01T00:00:00Z"
        (sanitizeHttpRequestForPersistence (headerRequest "Authorization")))
      (headerEnvelope "Authorization").sanitizedForPersistence :=
  (sanitizers_agree_iff .ascii "fresh" "2026-01-01T00:00:00Z" (headerRequest "Authorization")
    (headerEnvelope "Authorization") (headerEnvelope_received "Authorization")).mpr
      ⟨by decide, by decide⟩

/-- A token whose k is the Kelvin sign is only removed by the client. -/
theorem kelvinToken_told_apart :
    ¬∀ (platform : Platform) (fresh : String) (now : Domain.Timestamp)
      (request : HttpWorkbenchRequest) (host : Domain.RequestEnvelope),
      Received (toEnvelope platform fresh now request) host →
      Received (toEnvelope platform fresh now (sanitizeHttpRequestForPersistence request))
        host.sanitizedForPersistence := by
  intro h
  have hsame := h .ascii "fresh" "2026-01-01T00:00:00Z" (headerRequest "X-To\u212Aen")
    (headerEnvelope "X-To\u212Aen") (headerEnvelope_received "X-To\u212Aen")
  exact absurd hsame.headers (by decide)

/-! ## A second pass -/

mutual

theorem sanitizeMetadataValue_idem : ∀ (key : String) (value : Json),
    sanitizeMetadataValue key (sanitizeMetadataValue key value) = sanitizeMetadataValue key value
  | key, .arr items => by
    rw [sanitizeMetadataValue, sanitizeMetadataValue, sanitizeItems_idem]
  | key, .obj members => by
    rw [sanitizeMetadataValue, sanitizeMetadataValue, sanitizeMembers_idem]
  | _, .null | _, .bool _ | _, .num _ | _, .str _ => rfl

/-- A pair that was kept has kept its name. -/
theorem sanitizeItems_idem : ∀ (inHeaders : Bool) (items : List Json),
    sanitizeItems inHeaders (sanitizeItems inHeaders items) = sanitizeItems inHeaders items
  | _, [] => rfl
  | inHeaders, item :: rest => by
    by_cases h : (inHeaders && isSensitivePair item) = true
    · rw [sanitizeItems, if_pos h, sanitizeItems_idem inHeaders rest]
    · have hkept : (inHeaders && isSensitivePair (sanitizeMetadataValue "" item)) ≠ true := by
        rwa [isSensitivePair_eq, pairName?_sanitize, ← isSensitivePair_eq]
      rw [sanitizeItems, if_neg h, sanitizeItems, if_neg hkept, sanitizeItems_idem inHeaders rest,
        sanitizeMetadataValue_idem "" item]

theorem sanitizeMembers_idem : ∀ members : List (String × Json),
    sanitizeMembers (sanitizeMembers members) = sanitizeMembers members
  | [] => rfl
  | (key, nested) :: rest => by
    by_cases h : (isSensitiveJsonKey key || key = "__proto__") = true
    · rw [sanitizeMembers, if_pos h, sanitizeMembers_idem rest]
    · rw [sanitizeMembers, if_neg h, sanitizeMembers, if_neg h, sanitizeMembers_idem rest,
        sanitizeMetadataValue_idem key nested]

end

/-- A request that has been sanitized is not changed by being sanitized again. -/
theorem sanitizeHttpRequestForPersistence_idem (request : HttpWorkbenchRequest) :
    sanitizeHttpRequestForPersistence (sanitizeHttpRequestForPersistence request) =
      sanitizeHttpRequestForPersistence request := by
  have hmetadata : sanitizeMembers ∘ sanitizeMembers = sanitizeMembers :=
    funext sanitizeMembers_idem
  simp only [sanitizeHttpRequestForPersistence, List.filter_filter, Bool.and_self, Option.map_map,
    hmetadata]
  cases request.auth <;> rfl

end Sanitizer

end ApiVoy.Workbench
