/-
# Redacted headers

Header values are masked in recorded exchanges, redacted in team snapshots, and reported when
a project is exported; each place has its own idea of which names are credentials. They are
compared with the names that are removed from what is persisted. A value is concealed if
another value would have shown the same.
-/

import ApiVoy.Domain.Request
import ApiVoy.Portable.Requests
import ApiVoy.Workbench.Snapshot

namespace ApiVoy.Capture

open Foundation Domain Portable Workbench

/-- A name in ASCII lower case. -/
def lowerName (name : String) : List Char := name.toList.map Char.toLower

def maskedNames : List String :=
  ["authorization", "proxy-authorization", "cookie", "set-cookie", "x-api-key", "x-auth-token"]

def isMasked (name : String) : Bool := maskedNames.any fun known => known.toList = lowerName name

/-- The headers of a recorded exchange. -/
def redactHeaders (values : List (String × String)) : List (String × String) :=
  values.map fun (name, value) => (name, if isMasked name then "***" else value)

/-! ## Concealed values -/

/-- In a recorded exchange some other value of the header looks the same. -/
def ConcealedInExchange (name value : String) : Prop :=
  ∀ before after : List (String × String), ∃ other, other ≠ value ∧
    redactHeaders (before ++ (name, value) :: after) =
      redactHeaders (before ++ (name, other) :: after)

def HasHeaders (envelope : Json) (headers : List (String × String)) : Prop :=
  envelopeHeaders envelope = some (.arr (headers.map headerPair))

/-- In the snapshot of an envelope some other value of the header looks the same. -/
def ConcealedInSnapshot (name value : String) : Prop :=
  ∀ (before after : List (String × String)) (envelope : Json),
    HasHeaders envelope (before ++ (name, value) :: after) →
    ∃ other, other ≠ value ∧ ∀ envelope', HasHeaders envelope' (before ++ (name, other) :: after) →
      envelopeHeaders (redact "" envelope) = envelopeHeaders (redact "" envelope')

/-- The scan reports every request with a header of this name. -/
def ReportedByScan (platform : Script.Platform) (name : String) : Prop :=
  ∀ requests : List PortableRequest, ∀ request ∈ requests, name ∈ request.headers.keys →
    ∃ finding ∈ scanSensitiveData platform requests, finding.kind = .header ∧ finding.key = name

/-- A text that is not the given one, and that nothing keeps as it is. -/
def otherText (value : String) : String := if value = "a" then "b" else "a"

theorem otherText_ne (value : String) : otherText value ≠ value := by
  rw [otherText]
  split
  · rename_i h
    rw [h]
    decide
  · rename_i h
    exact Ne.symm h

theorem hasPlaceholder_otherText (value : String) : hasPlaceholder (otherText value) = false := by
  rw [otherText]
  split <;> decide

/-- Another value in the middle of a list of headers changes nothing if it is shown the same. -/
theorem map_middle_eq {f : String × String → String × String} {name value other : String}
    (h : f (name, value) = f (name, other)) (before after : List (String × String)) :
    (before ++ (name, value) :: after).map f = (before ++ (name, other) :: after).map f := by
  simp [h]

variable (name value : String)

theorem concealedInExchange_iff : ConcealedInExchange name value ↔ isMasked name = true := by
  constructor
  · intro h
    obtain ⟨other, hne, heq⟩ := h [] []
    by_contra hmasked
    simp only [List.nil_append, redactHeaders, List.map_cons, List.map_nil, if_neg hmasked] at heq
    cases heq
    exact hne rfl
  · intro h before after
    exact ⟨otherText value, otherText_ne value, map_middle_eq (by simp only [h, if_true]) before after⟩

theorem redactedHeader_of_sensitive {name value : String} (h : sensitive name = true)
    (hvalue : hasPlaceholder value = false ∨ value = redactedText) :
    redactedHeader (name, value) = (name, redactedText) := by
  rw [redactedHeader, if_pos h]
  rcases hvalue with hplace | rfl
  · simp only [hplace, Bool.false_eq_true, if_false]
  · exact congrArg (Prod.mk name) (ite_self _)

theorem concealedInSnapshot_iff :
    ConcealedInSnapshot name value ↔
      sensitive name = true ∧ (hasPlaceholder value = false ∨ value = redactedText) := by
  constructor
  · intro h
    let envelope : String → Json := fun shown =>
      .obj [("payload", .obj [("headers", .arr [headerPair (name, shown)])])]
    have hheaders : ∀ shown, HasHeaders (envelope shown) ([] ++ (name, shown) :: []) :=
      fun _ => rfl
    obtain ⟨other, hne, heq⟩ := h [] [] (envelope value) (hheaders value)
    have hshown := heq (envelope other) (hheaders other)
    rw [envelopeHeaders_redact (hheaders value), envelopeHeaders_redact (hheaders other)] at hshown
    have hpairs : (redactedHeader (name, value)).2 = (redactedHeader (name, other)).2 := by
      simpa [headerPair] using And.right (by simpa [headerPair] using hshown)
    by_cases hname : sensitive name = true
    · refine ⟨hname, ?_⟩
      by_cases hplace : hasPlaceholder value = true
      · right
        simp only [redactedHeader, if_pos hname, if_pos hplace] at hpairs
        by_cases hother : hasPlaceholder other = true
        · rw [if_pos hother] at hpairs
          exact absurd hpairs.symm hne
        · rw [if_neg hother] at hpairs
          exact hpairs
      · exact Or.inl (eq_false_of_ne_true hplace)
    · simp only [redactedHeader, if_neg hname] at hpairs
      exact absurd hpairs.symm hne
  · rintro ⟨hname, hvalue⟩ before after envelope henvelope
    refine ⟨otherText value, otherText_ne value, fun envelope' henvelope' => ?_⟩
    rw [envelopeHeaders_redact henvelope, envelopeHeaders_redact henvelope']
    have hsame : redactedHeader (name, value) = redactedHeader (name, otherText value) := by
      rw [redactedHeader_of_sensitive hname hvalue,
        redactedHeader_of_sensitive hname (Or.inl (hasPlaceholder_otherText value))]
    rw [map_middle_eq hsame before after]

def requestWith (name : String) : PortableRequest where
  name := ""
  method := "GET"
  url := ""
  headers := AList.singleton name ""
  body := none
  collectionPath := none
  vars := none

theorem reportedByScan_iff (platform : Script.Platform) (name : String) :
    ReportedByScan platform name ↔ secretKey name = true := by
  constructor
  · intro h
    have ⟨finding, hfinding, hkind, hkey⟩ :=
      h [requestWith name] (requestWith name) List.mem_cons_self List.mem_cons_self
    rw [← hkey]
    exact secretKey_of_mem_scan platform hfinding hkind
  · intro h requests request hrequest hname
    exact header_mem_scan platform hrequest hname h

/-! ## The names all places agree on -/

def agreedNames : List String := ["authorization", "proxy-authorization", "cookie", "set-cookie"]

def isAgreed (name : String) : Bool := agreedNames.any fun known => known.toList = lowerName name

/-- Every part of the program that stores or ships the header conceals its value. -/
structure Withheld (platform : Script.Platform) (name value : String) : Prop where
  exchange : ConcealedInExchange name value
  snapshot : ConcealedInSnapshot name value
  reported : ReportedByScan platform name

/-! The patterns look at a name in lower case only, so each known name stands for all its
spellings. -/

variable {a b : String}

theorem isMasked_congr (h : lowerName a = lowerName b) : isMasked a = isMasked b := by
  rw [isMasked, isMasked, h]

theorem sensitive_congr (h : lowerName a = lowerName b) : sensitive a = sensitive b := by
  unfold lowerName at h
  rw [sensitive, sensitive, h]

theorem secretKey_congr (h : lowerName a = lowerName b) : secretKey a = secretKey b := by
  unfold lowerName at h
  rw [secretKey, secretKey, h]

theorem isAgreed_congr (h : lowerName a = lowerName b) : isAgreed a = isAgreed b := by
  rw [isAgreed, isAgreed, h]

/-- A spelling of one of some names that are in lower case. -/
theorem exists_of_spelling {names : List String} {name : String}
    (hlower : ∀ known ∈ names, lowerName known = known.toList)
    (h : names.any (fun known => known.toList = lowerName name) = true) :
    ∃ known ∈ names, lowerName name = lowerName known := by
  obtain ⟨known, hknown, heq⟩ := List.any_eq_true.mp h
  exact ⟨known, hknown, by rw [hlower known hknown, of_decide_eq_true heq]⟩

theorem isAgreed_iff (name : String) :
    isAgreed name = true ↔
      isMasked name = true ∧ sensitive name = true ∧ secretKey name = true := by
  have hforward : ∀ known ∈ agreedNames,
      isMasked known = true ∧ sensitive known = true ∧ secretKey known = true := by decide
  have hback : ∀ known ∈ maskedNames, sensitive known = true → isAgreed known = true := by decide
  constructor
  · intro h
    obtain ⟨known, hknown, heq⟩ := exists_of_spelling (by decide) h
    rw [isMasked_congr heq, sensitive_congr heq, secretKey_congr heq]
    exact hforward known hknown
  · rintro ⟨hmasked, hsensitive, _⟩
    obtain ⟨known, hknown, heq⟩ := exists_of_spelling (by decide) hmasked
    rw [isAgreed_congr heq]
    exact hback known hknown (sensitive_congr heq ▸ hsensitive)

/-- A sensitive header is withheld everywhere exactly if its name is one of the four all places
agree on, and its value is not taken for a placeholder. -/
theorem withheld_iff (platform : Script.Platform) (name value : String) :
    (isSensitiveHeaderName name = true → Withheld platform name value) ↔
      (isSensitiveHeaderName name = true →
        isAgreed name = true ∧ (hasPlaceholder value = false ∨ value = redactedText)) := by
  refine forall_congr' fun _ => ?_
  constructor
  · intro h
    have hmasked := (concealedInExchange_iff name value).mp h.exchange
    have ⟨hsensitive, hvalue⟩ := (concealedInSnapshot_iff name value).mp h.snapshot
    have hreported := (reportedByScan_iff platform name).mp h.reported
    exact ⟨(isAgreed_iff name).mpr ⟨hmasked, hsensitive, hreported⟩, hvalue⟩
  · rintro ⟨hname, hvalue⟩
    have ⟨hmasked, hsensitive, hreported⟩ := (isAgreed_iff name).mp hname
    exact ⟨(concealedInExchange_iff name value).mpr hmasked,
      (concealedInSnapshot_iff name value).mpr ⟨hsensitive, hvalue⟩,
      (reportedByScan_iff platform name).mpr hreported⟩

/-- The access token of a service is removed from what is persisted and shown in recorded
exchanges. -/
theorem accessToken_not_withheld :
    ¬∀ (platform : Script.Platform) (name value : String),
      isSensitiveHeaderName name = true → Withheld platform name value := by
  intro h
  have hname : isSensitiveHeaderName "X-Access-Token" = true := by decide
  have hwithheld := h .ascii "X-Access-Token" "k" hname
  have hmasked := (concealedInExchange_iff _ _).mp hwithheld.exchange
  exact absurd hmasked (by decide)

end ApiVoy.Capture
