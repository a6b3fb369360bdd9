/-
# The verdict on a body

The check asks an object for the member of a field, and an object without one answers with what it
inherits. So a body that conforms with its own members is reported where it leaves out a field of
such a name, and one that lacks a required member passes where what is inherited will do. Apart
from these members the verdict is right.
-/

import ApiVoy.Workbench.DerivedFields

namespace ApiVoy.Workbench

open Foundation Domain

/-! ## Own members -/

/-- The same host, its objects inheriting nothing. -/
def DesignHost.bare (host : DesignHost) : DesignHost :=
  { host with inherited := fun _ => none }

section Own

variable {host other : DesignHost} {settings : ProjectResponseValidationSettings} {σ : Type}

variable {members : List (String × Parsed)} {name : String}

theorem property_bare :
    property host.bare members name =
      (members.find? fun member => member.1 = name).map Prod.snd := by
  unfold property
  cases members.find? fun member => member.1 = name with
  | none => rfl
  | some member => rfl

theorem property_of_own {found : Parsed} (h : property host.bare members name = some found) :
    property other members name = some found := by
  rw [property_bare] at h
  obtain ⟨member, hfind, rfl⟩ := Option.map_eq_some_iff.mp h
  unfold property
  rw [hfind]

theorem property_of_lacking (h : property host.bare members name = none) :
    property other members name = other.inherited name := by
  rw [property_bare, Option.map_eq_none_iff] at h
  unfold property
  rw [h]

variable (host settings)

def ConformsOwn (outline : Outline σ) (node : σ) (value : Parsed) : Prop :=
  Conforms host.bare settings outline node value

/-- The outline that requires no member of a name that is inherited. -/
def lenient (outline : Outline σ) : Outline σ := fun node =>
  (outline node).map fun child =>
    { child with required := child.required && (host.inherited child.name).isNone }

/-- Conforms with its own members, apart from those it lacks but inherits. -/
def ConformsApart (outline : Outline σ) (node : σ) (value : Parsed) : Prop :=
  ConformsOwn host settings (lenient host outline) node value

/-- Some object that is checked has not this member itself, but inherits one of that name. -/
inductive Lacks (outline : Outline σ) : σ → Parsed → Child σ → Prop
  | here {node : σ} {members : List (String × Parsed)} {child : Child σ} {found : Parsed}
      (mem : child ∈ outline node) (lacking : property host.bare members child.name = none)
      (inherits : host.inherited child.name = some found) :
      Lacks outline node (.obj members) child
  | object {node : σ} {members : List (String × Parsed)} {above child : Child σ} {found : Parsed}
      (mem : above ∈ outline node) (own : property host.bare members above.name = some found)
      (type : above.type = "object") (below : Lacks outline above.node found child) :
      Lacks outline node (.obj members) child
  | element {node : σ} {members : List (String × Parsed)} {above child : Child σ}
      {items : List Parsed} {item : Parsed} (mem : above ∈ outline node)
      (own : property host.bare members above.name = some (.arr items))
      (type : above.type = "array") (hitem : item ∈ items)
      (below : Lacks outline above.node item child) :
      Lacks outline node (.obj members) child

/-- What is inherited under the name of a member will do for it: it has the type, and what is below
it conforms. -/
structure InheritedDoes (outline : Outline σ) (child : Child σ) : Prop where
  type : ∀ found, host.inherited child.name = some found →
    matchesJsonType found child.type = true
  object : ∀ found, host.inherited child.name = some found →
    child.type = "object" → Conforms host settings outline child.node found
  element : ∀ items, host.inherited child.name = some (.arr items) →
    child.type = "array" → ∀ item ∈ items, Conforms host settings outline child.node item

variable {host settings}

theorem lenient_names (outline : Outline σ) (node : σ) :
    (lenient host outline node).map Child.name = (outline node).map Child.name := by
  rw [lenient, List.map_map]
  rfl

variable {outline : Outline σ} {child : Child σ}

/-- Of an object only the member of its name matters. -/
theorem MemberConforms.congr {members others : List (String × Parsed)}
    (hsame : property host others child.name = property host members child.name)
    (h : MemberConforms host settings outline members child) :
    MemberConforms host settings outline others child where
  missing := hsame ▸ h.missing
  type := hsame ▸ h.type
  object := hsame ▸ h.object
  element := hsame ▸ h.element

variable {value : Parsed} {node : σ}

/-- A value that conforms, whatever its objects inherit of these names, conforms apart from what it
lacks. -/
theorem Conforms.apart (hother : ∀ name, host.inherited name = none → other.inherited name = none)
    (h : Conforms other settings outline node value) :
    ConformsApart host settings outline node value := by
  induction h with
  | mk fits missing types objects elements ihobjects ihelements =>
    constructor
    · rw [lenient_names]
      exact fits
    all_goals
      intro members heq child hchild
      obtain ⟨child, hmem, rfl⟩ := List.mem_map.mp hchild
    · intro hlacking
      cases hinherits : host.inherited child.name with
      | some found => simp
      | none =>
        have hnone : property other members child.name = none :=
          (property_of_lacking hlacking).trans (hother _ hinherits)
        simpa using missing members heq child hmem hnone
    · exact fun found hown => types members heq child hmem found (property_of_own hown)
    · exact fun found hown => ihobjects members heq child hmem found (property_of_own hown)
    · exact fun items hown => ihelements members heq child hmem items (property_of_own hown)

/-- In a value that conforms, what is lacking is such as an object without members may lack. -/
theorem Lacks.memberConforms (h : Lacks host outline node value child)
    (hconforms : Conforms other settings outline node value) :
    MemberConforms other settings outline [] child := by
  induction h with
  | here hmem hlacking _ =>
    have hchild := (conforms_obj_iff.mp hconforms).1 _ hmem
    exact hchild.congr (property_of_lacking hlacking).symm
  | object hmem hown htype _ ih =>
    have habove := (conforms_obj_iff.mp hconforms).1 _ hmem
    exact ih (habove.object _ (property_of_own hown) htype)
  | element hmem hown htype hitem _ ih =>
    have habove := (conforms_obj_iff.mp hconforms).1 _ hmem
    exact ih (habove.element _ (property_of_own hown) htype _ hitem)

theorem ConformsApart.conforms {outline : Outline σ} {node : σ} {value : Parsed}
    (hother : ∀ name, host.inherited name = none → other.inherited name = none)
    (h : ConformsApart host settings outline node value)
    (hlacks : ∀ child, Lacks host outline node value child →
      MemberConforms other settings outline [] child) :
    Conforms other settings outline node value := by
  unfold ConformsApart ConformsOwn at h
  induction h with
  | @mk node value fits missing types objects elements ihobjects ihelements =>
    rw [lenient_names] at fits
    by_cases hobj : ∃ members, value = .obj members
    · obtain ⟨members, rfl⟩ := hobj
      refine conforms_obj_iff.mpr ⟨fun child hchild => ?_, fits⟩
      have hlenient := List.mem_map_of_mem (f := fun child : Child σ =>
        { child with required := child.required && (host.inherited child.name).isNone }) hchild
      cases hown : property host.bare members child.name with
      | some found =>
        have hsome : ∀ {value}, property other members child.name = some value →
            value = found := fun hvalue =>
          Option.some.inj (hvalue.symm.trans (property_of_own hown))
        constructor
        · intro hnone
          exact absurd (hnone.symm.trans (property_of_own hown)) (by simp)
        · intro value hvalue
          rw [hsome hvalue]
          exact types members rfl _ hlenient found hown
        · intro value hvalue htype
          rw [hsome hvalue]
          exact ihobjects members rfl _ hlenient found hown htype fun below hbelow =>
            hlacks below (.object hchild hown htype hbelow)
        · intro items hvalue htype item hitem
          have hitems := hown.trans (congrArg some (hsome hvalue).symm)
          exact ihelements members rfl _ hlenient items hitems htype item hitem
            fun below hbelow => hlacks below (.element hchild hitems htype hitem hbelow)
      | none =>
        cases hinherits : host.inherited child.name with
        | some found =>
          exact (hlacks child (.here hchild hown hinherits)).congr
            (property_of_lacking hown)
        | none =>
          have hnone : property other members child.name = none :=
            (property_of_lacking hown).trans (hother _ hinherits)
          have hrequired : child.required = false := by
            simpa [hinherits] using missing members rfl _ hlenient hown
          refine ⟨fun _ => hrequired, ?_, ?_, ?_⟩
          all_goals
            intro value hvalue
            exact absurd (hnone.symm.trans hvalue) (by simp)
    · have hplain : ∀ members, value ≠ .obj members := fun members heq => hobj ⟨members, heq⟩
      have hnil : lenient host outline node = [] :=
        (conforms_iff_of_not_obj hplain).mp ⟨by rwa [lenient_names], missing, types, objects,
          elements⟩
      exact (conforms_iff_of_not_obj hplain).mpr (List.map_eq_nil_iff.mp hnil)

/-- What it takes to conform is to do so apart from what is lacking, and for that to be such as an
object without members may lack. -/
theorem conforms_iff_apart
    (hother : ∀ name, host.inherited name = none → other.inherited name = none) :
    Conforms other settings outline node value ↔
      ConformsApart host settings outline node value ∧
        ∀ child, Lacks host outline node value child →
          MemberConforms other settings outline [] child :=
  ⟨fun h => ⟨h.apart hother, fun _ hlacks => hlacks.memberConforms h⟩,
    fun h => h.1.conforms hother h.2⟩

theorem Lacks.inherits (h : Lacks host outline node value child) :
    ∃ found, host.inherited child.name = some found := by
  induction h with
  | here _ _ hinherits => exact ⟨_, hinherits⟩
  | object _ _ _ _ ih => exact ih
  | element _ _ _ _ _ ih => exact ih

theorem conformsOwn_iff_apart :
    ConformsOwn host settings outline node value ↔
      ConformsApart host settings outline node value ∧
        ∀ child, Lacks host outline node value child → child.required = false := by
  refine (conforms_iff_apart fun _ _ => rfl).trans (and_congr_right fun _ =>
    forall₂_congr fun child _ => ⟨fun h => h.missing rfl, fun h => ⟨fun _ => h, ?_, ?_, ?_⟩⟩)
  all_goals
    intro value hvalue
    cases hvalue

theorem conforms_iff_inheritedDoes :
    Conforms host settings outline node value ↔
      ConformsApart host settings outline node value ∧
        ∀ child, Lacks host outline node value child →
          InheritedDoes host settings outline child := by
  refine (conforms_iff_apart fun _ h => h).trans (and_congr_right fun _ =>
    forall₂_congr fun child hlacks => ⟨fun h => ⟨h.type, h.object, h.element⟩, fun h =>
      ⟨fun hnone => ?_, h.type, h.object, h.element⟩⟩)
  obtain ⟨found, hfound⟩ := hlacks.inherits
  exact absurd (hnone.symm.trans hfound) (by simp)

end Own

/-! ## The verdict -/

section Verdict

variable (host : DesignHost) (definition : DesignedResponse) (result : DesignedResponseResult)
  (settings : ProjectResponseValidationSettings)

def bodyResults : List AssertionResultEvent :=
  formatResults host definition result settings ++ schemaResults host definition result settings

/-- No result about the body has failed. -/
def BodyPasses : Prop := ∀ outcome ∈ bodyResults host definition result settings,
  outcome.passed = true

/-- When the verdict on a body is right: no fields means that nothing is checked, so nothing may be
forbidden; and if the body conforms apart from members it lacks but inherits, one of them is
required exactly when for one of them what is inherited will not do. -/
structure VerdictHolds (bodyFields : List DefinitionField) (body : Parsed) : Prop where
  nothing : bodyFields = [] → Fits settings [] body
  lacking : ConformsApart host settings (fieldOutline bodyFields) none body →
    ((∃ child, Lacks host (fieldOutline bodyFields) none body child ∧ child.required = true) ↔
      ∃ child, Lacks host (fieldOutline bodyFields) none body child ∧
        ¬ InheritedDoes host settings (fieldOutline bodyFields) child)

variable {host definition result settings}

theorem bodyPasses_iff {body : Parsed} (hformat : settings.bodyFormat = false)
    (hschema : settings.bodySchema = true) (hsize : withinBudget result = true)
    (hparse : host.parseJson (previewOf result) = some body)
    (hbudget : WithinBudgets host (bodyFieldsOf definition.fields) body) :
    BodyPasses host definition result settings ↔ bodyFieldsOf definition.fields = [] ∨
      Conforms host settings (fieldOutline (bodyFieldsOf definition.fields)) none body := by
  have hnone : formatResults host definition result settings = [] := by
    unfold formatResults
    rw [hformat]
    cases bodyTypeOf definition <;> rfl
  unfold BodyPasses bodyResults
  rw [hnone, List.nil_append]
  refine (schemaPasses_iff hschema hsize hparse).trans ?_
  rw [and_iff_right hbudget]

theorem conformsOwn_nil_iff {body : Parsed} :
    ConformsOwn host settings (fieldOutline []) none body ↔ Fits settings [] body := by
  unfold ConformsOwn
  by_cases hobj : ∃ members, body = .obj members
  · obtain ⟨members, rfl⟩ := hobj
    rw [conforms_obj_iff]
    exact and_iff_right fun _ hchild => absurd hchild List.not_mem_nil
  · have hplain : ∀ members, body ≠ .obj members := fun members heq => hobj ⟨members, heq⟩
    rw [conforms_iff_of_not_obj hplain]
    refine iff_of_true rfl ?_
    cases body with
    | obj members => exact absurd rfl (hplain members)
    | _ => exact rfl

/-- The verdict on a body within the budgets says whether it conforms with its own members, under
exactly this condition. -/
theorem verdict_iff {body : Parsed} (hformat : settings.bodyFormat = false)
    (hschema : settings.bodySchema = true) (hsize : withinBudget result = true)
    (hparse : host.parseJson (previewOf result) = some body)
    (hbudget : WithinBudgets host (bodyFieldsOf definition.fields) body) :
    (BodyPasses host definition result settings ↔
        ConformsOwn host settings (fieldOutline (bodyFieldsOf definition.fields)) none body) ↔
      VerdictHolds host settings (bodyFieldsOf definition.fields) body := by
  rw [bodyPasses_iff hformat hschema hsize hparse hbudget]
  by_cases hfields : bodyFieldsOf definition.fields = []
  · have hnothing : ∀ child, ¬ Lacks host (fieldOutline []) none body child := by
      intro child hlacks
      cases hlacks with
      | here hmem => cases hmem
      | object hmem => cases hmem
      | element hmem => cases hmem
    rw [hfields, eq_self, true_or, true_iff, conformsOwn_nil_iff]
    refine ⟨fun hfits => ⟨fun _ => hfits, fun _ => ?_⟩, fun h => h.nothing rfl⟩
    exact iff_of_false (fun ⟨child, h, _⟩ => hnothing child h) fun ⟨child, h, _⟩ =>
      hnothing child h
  · rw [or_iff_right hfields, conforms_iff_inheritedDoes, conformsOwn_iff_apart]
    have hcond : VerdictHolds host settings (bodyFieldsOf definition.fields) body ↔
        (ConformsApart host settings (fieldOutline (bodyFieldsOf definition.fields)) none body →
          ((∃ child, Lacks host (fieldOutline (bodyFieldsOf definition.fields)) none body child ∧
              child.required = true) ↔
            ∃ child, Lacks host (fieldOutline (bodyFieldsOf definition.fields)) none body child ∧
              ¬ InheritedDoes host settings (fieldOutline (bodyFieldsOf definition.fields))
                child)) :=
      ⟨VerdictHolds.lacking, fun h => ⟨fun hnil => absurd hnil hfields, h⟩⟩
    rw [hcond, and_congr_right_iff]
    refine forall_congr' fun _ => ?_
    rw [← not_iff_not (b := ∃ child, _ ∧ ¬ _)]
    simp only [not_exists, not_and, Bool.not_eq_true, not_not]
    exact iff_comm

end Verdict

/-! ### A field of an inherited name -/

/-- A host that knows one body; its objects inherit a function `toString`. -/
def inheritingHost (text : String) (body : Parsed) : DesignHost :=
  { sampleDesignHost text body with
    inherited := fun name => if name = "toString" then some .function else none }

theorem inheritingHost_parseJson (text : String) (body : Parsed) :
    (inheritingHost text body).parseJson (previewOf (sampleResult text)) = some body := by
  simp [inheritingHost, sampleDesignHost, sampleResult, previewOf]

def emptyText : String := "\x7b\x7d"

def labelledText : String := "\x7b\"toString\":\"a\"\x7d"

def labelledBody : List (String × Parsed) := [("toString", .str "a")]

/-- The design of an object that may have a text `toString`. -/
def labelledDesign : DesignedResponse :=
  sampleDesign [designField "1" "toString" "string" none]

theorem labelled_own {value : Parsed} {child : Child (Option String)}
    (h : Lacks (inheritingHost labelledText (.obj labelledBody))
      (fieldOutline (bodyFieldsOf labelledDesign.fields)) none value child)
    (hvalue : value = .obj labelledBody) : False := by
  cases h with
  | here hmem hlacking _ =>
    cases hvalue
    cases List.mem_singleton.mp hmem
    cases hlacking
  | object hmem _ htype _ =>
    cases List.mem_singleton.mp hmem
    exact absurd htype (by decide)
  | element hmem _ htype _ _ =>
    cases List.mem_singleton.mp hmem
    exact absurd htype (by decide)

/-- With a text of its own under that name, the verdict on an object is right. -/
theorem verdict_iff_labelled :
    BodyPasses (inheritingHost labelledText (.obj labelledBody)) labelledDesign
        (sampleResult labelledText) schemaOnly ↔
      ConformsOwn (inheritingHost labelledText (.obj labelledBody)) schemaOnly
        (fieldOutline (bodyFieldsOf labelledDesign.fields)) none (.obj labelledBody) := by
  refine (verdict_iff rfl rfl (by decide) (inheritingHost_parseJson _ _)
    ⟨by decide, by decide⟩).mpr ⟨fun hnil => absurd hnil (by decide), fun _ => ?_⟩
  exact iff_of_false (fun ⟨child, h, _⟩ => labelled_own h rfl) fun ⟨child, h, _⟩ =>
    labelled_own h rfl

/-- An empty object conforms to fields that may be left out, but it is reported when such a field
is called `toString`. -/
theorem verdict_iff_not :
    ¬∀ (host : DesignHost) (definition : DesignedResponse) (result : DesignedResponseResult)
        (settings : ProjectResponseValidationSettings) (body : Parsed),
      settings.bodyFormat = false → settings.bodySchema = true → withinBudget result = true →
      host.parseJson (previewOf result) = some body →
      WithinBudgets host (bodyFieldsOf definition.fields) body →
      (BodyPasses host definition result settings ↔
        ConformsOwn host settings (fieldOutline (bodyFieldsOf definition.fields)) none body) := by
  intro h
  have hverdict := h (inheritingHost emptyText (.obj [])) labelledDesign (sampleResult emptyText)
    schemaOnly (.obj []) rfl rfl (by decide) (inheritingHost_parseJson _ _) ⟨by decide, by decide⟩
  have hconforms : ConformsOwn (inheritingHost emptyText (.obj [])) schemaOnly
      (fieldOutline (bodyFieldsOf labelledDesign.fields)) none (.obj []) := by
    refine conforms_obj_iff.mpr ⟨List.forall_mem_singleton.mpr ⟨fun _ => rfl, ?_, ?_, ?_⟩, Or.inl rfl⟩
    all_goals
      intro value hvalue
      cases hvalue
  have hpasses := hverdict.mpr hconforms
  have hreported : ¬ BodyPasses (inheritingHost emptyText (.obj [])) labelledDesign
      (sampleResult emptyText) schemaOnly := by
    unfold BodyPasses
    decide
  exact hreported hpasses

end ApiVoy.Workbench
