/-
# What a body is checked against

The check of a body against a list of fields runs over the body and stops at a budget. What it
means does not need the run: the fields give an outline, with the members of each node, and a body
that stays within the budget passes exactly when it conforms to the outline. The fields below the
field of an array are looked for in every element.
-/

import ApiVoy.Workbench.DesignedResponse

namespace ApiVoy.Workbench

open Foundation Domain

/-! ## Outlines -/

/-- A member an outline has at a node, and the node below it. -/
structure Child (σ : Type) where
  name : String
  type : String
  required : Bool
  node : σ

/-- What a value may have at each node. -/
abbrev Outline (σ : Type) := σ → List (Child σ)

section Conforming

variable (host : DesignHost) (settings : ProjectResponseValidationSettings)
  {σ τ : Type}

/-- Is an object, or something without a member, and has no member that is not allowed? -/
def Fits (names : List String) : Parsed → Prop
  | .obj members => settings.allowAdditionalProperties = true ∨
      ∀ member ∈ members, member.1 ∈ names
  | _ => names = []

/-- A value that has the outline of a node. The members of an array's node are looked for in
every element. -/
inductive Conforms (outline : Outline σ) : σ → Parsed → Prop
  | mk {node : σ} {value : Parsed}
      (fits : Fits settings ((outline node).map Child.name) value)
      (missing : ∀ members, value = .obj members → ∀ child ∈ outline node,
        property host members child.name = none → child.required = false)
      (types : ∀ members, value = .obj members → ∀ child ∈ outline node,
        ∀ found, property host members child.name = some found →
          matchesJsonType found child.type = true)
      (objects : ∀ members, value = .obj members → ∀ child ∈ outline node,
        ∀ found, property host members child.name = some found →
          child.type = "object" → Conforms outline child.node found)
      (elements : ∀ members, value = .obj members → ∀ child ∈ outline node,
        ∀ items, property host members child.name = some (.arr items) →
          child.type = "array" → ∀ item ∈ items, Conforms outline child.node item) :
      Conforms outline node value

structure MemberConforms (outline : Outline σ) (members : List (String × Parsed))
    (child : Child σ) : Prop where
  missing : property host members child.name = none → child.required = false
  type : ∀ found, property host members child.name = some found →
    matchesJsonType found child.type = true
  object : ∀ found, property host members child.name = some found →
    child.type = "object" → Conforms host settings outline child.node found
  element : ∀ items, property host members child.name = some (.arr items) →
    child.type = "array" → ∀ item ∈ items, Conforms host settings outline child.node item

variable {host settings}

variable {outline : Outline σ} {node : σ}

theorem conforms_obj_iff {members : List (String × Parsed)} :
    Conforms host settings outline node (.obj members) ↔
      (∀ child ∈ outline node, MemberConforms host settings outline members child) ∧
        Fits settings ((outline node).map Child.name) (.obj members) := by
  constructor
  · rintro ⟨hfits, hmissing, htypes, hobjects, helements⟩
    exact ⟨fun child hchild => ⟨hmissing members rfl child hchild, htypes members rfl child hchild,
      hobjects members rfl child hchild, helements members rfl child hchild⟩, hfits⟩
  · rintro ⟨hmembers, hfits⟩
    constructor
    · exact hfits
    all_goals rintro _ ⟨⟩ child hchild
    · exact (hmembers child hchild).missing
    · exact (hmembers child hchild).type
    · exact (hmembers child hchild).object
    · exact (hmembers child hchild).element

variable {value : Parsed}

theorem conforms_iff_of_not_obj (h : ∀ members, value ≠ .obj members) :
    Conforms host settings outline node value ↔ outline node = [] := by
  have hfits : Fits settings ((outline node).map Child.name) value ↔ outline node = [] := by
    cases value with
    | obj members => exact absurd rfl (h members)
    | _ => exact List.map_eq_nil_iff
  constructor
  · rintro ⟨hfit, -, -, -, -⟩
    exact hfits.mp hfit
  · intro hnil
    constructor
    · exact hfits.mpr hnil
    all_goals exact fun members heq => absurd heq (h members)

/-- Two members that say the same, with related nodes. -/
structure SameChild (R : σ → τ → Prop) (child : Child σ) (other : Child τ) : Prop where
  name : child.name = other.name
  type : child.type = other.type
  required : child.required = other.required
  node : R child.node other.node

/-- Nodes whose members say the same, all the way down. -/
def Simulates (R : σ → τ → Prop) (outline : Outline σ) (other : Outline τ) : Prop :=
  ∀ node node', R node node' → List.Forall₂ (SameChild R) (outline node) (other node')

variable {R : σ → τ → Prop} {other : Outline τ}

theorem Simulates.flip (h : Simulates R outline other) :
    Simulates (fun node' node => R node node') other outline :=
  fun node' node hnode => (h node node' hnode).flip.imp fun _ _ hsame =>
    ⟨hsame.name.symm, hsame.type.symm, hsame.required.symm, hsame.node⟩

variable {children : List (Child σ)} {others : List (Child τ)}

theorem names_of_forall₂ (h : List.Forall₂ (SameChild R) children others) :
    children.map Child.name = others.map Child.name := by
  induction h with
  | nil => rfl
  | cons hsame _ ih => rw [List.map_cons, List.map_cons, hsame.name, ih]

theorem exists_of_forall₂ (h : List.Forall₂ (SameChild R) children others) {other : Child τ}
    (hother : other ∈ others) : ∃ child ∈ children, SameChild R child other := by
  induction h with
  | nil => cases hother
  | cons hsame _ ih =>
    rcases List.mem_cons.mp hother with rfl | hother
    · exact ⟨_, List.mem_cons_self, hsame⟩
    · obtain ⟨child, hchild, hsame⟩ := ih hother
      exact ⟨child, List.mem_cons_of_mem _ hchild, hsame⟩

theorem Simulates.conforms (h : Simulates R outline other) {node' : τ} (hnode : R node node')
    (hconforms : Conforms host settings outline node value) :
    Conforms host settings other node' value := by
  induction hconforms generalizing node' with
  | mk fits missing types objects elements ihobjects ihelements =>
    have hchildren := h _ _ hnode
    constructor
    · rw [← names_of_forall₂ hchildren]
      exact fits
    all_goals
      intro members heq child' hchild'
      obtain ⟨child, hchild, hsame⟩ := exists_of_forall₂ hchildren hchild'
      rw [← hsame.name]
    · rw [← hsame.required]
      exact missing members heq child hchild
    · rw [← hsame.type]
      exact types members heq child hchild
    · intro found hfound htype
      exact ihobjects members heq child hchild found hfound (hsame.type.trans htype) hsame.node
    · intro items hfound htype item hitem
      exact ihelements members heq child hchild items hfound (hsame.type.trans htype) item hitem
        hsame.node

theorem Simulates.conforms_iff (h : Simulates R outline other) {node' : τ} (hnode : R node node') :
    Conforms host settings outline node value ↔ Conforms host settings other node' value :=
  ⟨h.conforms hnode, h.flip.conforms hnode⟩

end Conforming

/-! ## The check of fields -/

/-- The fields of a design, a node being the parent. -/
def DefinitionField.child (field : DefinitionField) : Child (Option String) where
  name := field.name
  type := field.type
  required := field.required
  node := some field.id

def fieldOutline (bodyFields : List DefinitionField) : Outline (Option String) := fun parentId =>
  (childrenOf bodyFields parentId).map DefinitionField.child

section Check

variable {host : DesignHost} {definition : DesignedResponse}
  {settings : ProjectResponseValidationSettings} {bodyFields : List DefinitionField}

def Visit.Clean (st : Visit) : Prop := ∀ result ∈ st.results, result.passed = true

variable {st : Visit}

theorem clean_push {result : AssertionResultEvent} :
    (st.push result).Clean ↔ st.Clean ∧ result.passed = true := by
  unfold Visit.Clean Visit.push
  simp only [List.forall_mem_append, List.forall_mem_singleton]

/-- A visitor that leaves a stopped visit stopped. -/
def KeepsExceeded (deeper : Visitor) : Prop :=
  ∀ parent parentId path st, st.exceeded = true → (deeper parent parentId path st).exceeded = true

variable {α : Type}

theorem exceeded_foldl {f : Visit → α → Visit} {items : List α}
    (hf : ∀ st item, st.exceeded = true → (f st item).exceeded = true) (h : st.exceeded = true) :
    (items.foldl f st).exceeded = true := by
  induction items generalizing st with
  | nil => exact h
  | cons item items ih => exact ih (hf st item h)

/-- A run that was not stopped was not stopped after its first item. -/
theorem not_exceeded_first {f : Visit → α → Visit} {item : α} {items : List α}
    (hf : ∀ st item, st.exceeded = true → (f st item).exceeded = true)
    (h : ((item :: items).foldl f st).exceeded = false) : (f st item).exceeded = false := by
  cases hfirst : (f st item).exceeded with
  | false => rfl
  | true =>
    rw [List.foldl_cons, exceeded_foldl hf hfirst] at h
    cases h

variable {deeper : Visitor}

theorem KeepsExceeded.visitField (hdeeper : KeepsExceeded deeper) (members : List (String × Parsed))
    (path : String) (field : DefinitionField) (h : st.exceeded = true) :
    (visitField host definition deeper members path st field).exceeded = true := by
  unfold Workbench.visitField
  cases property host members field.name with
  | none => exact h
  | some value =>
    dsimp only
    split
    · exact hdeeper _ _ _ _ h
    split
    · cases value with
      | arr items => exact exceeded_foldl (fun st item hst => hdeeper _ _ _ _ hst) h
      | _ => exact h
    · exact h

variable (left : Nat)

theorem keepsExceeded_visit : KeepsExceeded (visit host definition settings bodyFields left) := by
  intro parent parentId path st h
  cases left with
  | zero => rw [visit]; simp only [h, if_true]
  | succ left => rw [visit]; simp only [h, if_true]

/-- What a visitor finds: if it is not stopped, it finds nothing wrong exactly when the value
conforms to the fields. -/
def Agrees (host : DesignHost) (settings : ProjectResponseValidationSettings)
    (bodyFields : List DefinitionField) (deeper : Visitor) : Prop :=
  ∀ value parentId path st, (deeper value parentId path st).exceeded = false →
    ((deeper value parentId path st).Clean ↔
      st.Clean ∧ Conforms host settings (fieldOutline bodyFields) parentId value)

theorem Agrees.elements {deeper : Visitor} (h : Agrees host settings bodyFields deeper)
    (hdeeper : KeepsExceeded deeper) (parentId : Option String) (path : Nat → String)
    {items : List (Parsed × Nat)} {st : Visit}
    (hrun : (items.foldl (fun st item => deeper item.1 parentId (path item.2) st) st).exceeded =
      false) :
    (items.foldl (fun st item => deeper item.1 parentId (path item.2) st) st).Clean ↔
      st.Clean ∧ ∀ item ∈ items,
        Conforms host settings (fieldOutline bodyFields) parentId item.1 := by
  induction items generalizing st with
  | nil => simp
  | cons item items ih =>
    have hfirst : (deeper item.1 parentId (path item.2) st).exceeded = false :=
      not_exceeded_first
        (f := fun st (item : Parsed × Nat) => deeper item.1 parentId (path item.2) st)
        (fun st item hst => hdeeper _ _ _ _ hst) hrun
    rw [List.foldl_cons, ih hrun, h _ _ _ _ hfirst, List.forall_mem_cons, and_assoc]

/-- The values of each type that a field can have. -/
inductive HasType : Parsed → String → Prop
  | null : HasType .null "null"
  | bool (value : Bool) : HasType (.bool value) "boolean"
  | number (q : Rat) : HasType (.num (.finite q)) "number"
  | integer (q : Rat) (h : q.den = 1) : HasType (.num (.finite q)) "integer"
  | text (value type : String) (h : type ∈ ["string", "bytes", "file", "enum"]) :
      HasType (.str value) type
  | array (items : List Parsed) : HasType (.arr items) "array"
  | object (members : List (String × Parsed)) : HasType (.obj members) "object"
  | function : HasType .function "function"

theorem matchesJsonType_iff {value : Parsed} {type : String} :
    matchesJsonType value type = true ↔ HasType value type := by
  constructor
  · intro h
    unfold matchesJsonType at h
    by_cases hnumber : type = "number"
    · subst hnumber
      rw [if_pos rfl] at h
      split at h
      · exact .number _
      · cases h
    by_cases hobject : type = "object"
    · subst hobject
      rw [if_neg (by decide), if_pos rfl] at h
      split at h
      · exact .object _
      · cases h
    rw [if_neg hnumber, if_neg hobject] at h
    split at h
    · rename_i hother
      cases value with
      | str value => exact .text value type (List.mem_cons_of_mem _ (by simpa using hother))
      | null | bool _ | num _ | arr _ | obj _ | function => simp [Parsed.typeof] at h
    · -- what is left has its type by name
      obtain rfl := of_decide_eq_true h
      cases value with
      | null => exact .null
      | bool value => exact .bool value
      | str value => exact .text value _ List.mem_cons_self
      | arr items => exact .array items
      | function => exact .function
      | obj members => exact absurd rfl hobject
      | num value =>
        cases hinteger : (Parsed.num value).isInteger with
        | false => simp [valueType, hinteger, Parsed.typeof] at hnumber
        | true =>
          cases value with
          | finite q => simpa [valueType, hinteger] using HasType.integer q (of_decide_eq_true hinteger)
          | nan | infinite _ => cases hinteger
  · rintro (_ | value | q | ⟨q, h⟩ | ⟨value, type, h⟩ | items | members | _)
    case integer => simp [matchesJsonType, valueType, Parsed.isInteger, h]
    case text =>
      simp only [List.mem_cons, List.not_mem_nil, or_false] at h
      rcases h with rfl | rfl | rfl | rfl <;> rfl
    all_goals rfl

theorem matchesJsonType_array {value : Parsed} (h : matchesJsonType value "array" = true) :
    ∃ items, value = .arr items := by
  generalize htype : "array" = type at h
  cases matchesJsonType_iff.mp h with
  | array items => exact ⟨items, rfl⟩
  | text _ _ hmem =>
    subst htype
    exact absurd hmem (by decide)
  | _ => exact absurd htype (by decide)

variable {members : List (String × Parsed)} {path : String}

/-- One field is checked as the member of the outline it stands for. -/
theorem visitField_agrees (h : Agrees host settings bodyFields deeper)
    (hdeeper : KeepsExceeded deeper) {field : DefinitionField}
    (hrun : (visitField host definition deeper members path st field).exceeded = false) :
    (visitField host definition deeper members path st field).Clean ↔
      st.Clean ∧ MemberConforms host settings (fieldOutline bodyFields) members field.child := by
  unfold visitField at hrun ⊢
  cases hfound : property host members field.name with
  | none =>
    dsimp only
    rw [clean_push]
    refine and_congr_right fun _ => ⟨fun hrequired => ⟨?_, ?_, ?_, ?_⟩, fun hmember => ?_⟩
    · intro _
      simpa [outcome, DefinitionField.child] using hrequired
    · exact fun found hsome => absurd (hfound.symm.trans hsome) (by simp)
    · exact fun found hsome => absurd (hfound.symm.trans hsome) (by simp)
    · exact fun items hsome => absurd (hfound.symm.trans hsome) (by simp)
    · simpa [outcome, DefinitionField.child] using hmember.missing hfound
  | some found =>
    have hsame : ∀ {other}, property host members field.child.name = some other →
        other = found := fun hother => Option.some.inj (hother.symm.trans hfound)
    rw [hfound] at hrun
    dsimp only at hrun ⊢
    cases hpassed : matchesJsonType found field.type with
    | false =>
      simp only [Bool.false_and, Bool.false_eq_true, if_false]
      rw [clean_push]
      constructor
      · rintro ⟨-, hfalse⟩
        cases hfalse
      · rintro ⟨-, hmember⟩
        have htrue := hmember.type found hfound
        rw [show field.child.type = field.type from rfl, hpassed] at htrue
        cases htrue
    | true =>
      rw [hpassed] at hrun
      simp only [Bool.true_and, decide_eq_true_eq, if_true] at hrun ⊢
      have hpush : ∀ result : AssertionResultEvent, result.passed = true →
          ((st.push result).Clean ↔ st.Clean) := fun result hresult =>
        clean_push.trans (and_iff_left hresult)
      have hmissing : property host members field.child.name = none →
          field.child.required = false := fun hnone =>
        absurd (hfound.symm.trans hnone) (by simp)
      have htype : ∀ other, property host members field.child.name = some other →
          matchesJsonType other field.child.type = true := by
        intro other hother
        rw [hsame hother]
        exact hpassed
      by_cases hobject : field.type = "object"
      · rw [if_pos hobject] at hrun ⊢
        rw [h _ _ _ _ hrun, hpush _ rfl]
        refine and_congr_right fun _ => ⟨fun hconforms => ⟨hmissing, htype, ?_, ?_⟩,
          fun hmember => hmember.object found hfound hobject⟩
        · intro other hother _
          rw [hsame hother]
          exact hconforms
        · intro items _ harray
          exact absurd (hobject.symm.trans harray) (by decide)
      rw [if_neg hobject] at hrun ⊢
      by_cases harray : field.type = "array"
      · rw [if_pos harray] at hrun ⊢
        obtain ⟨items, rfl⟩ := matchesJsonType_array (harray ▸ hpassed)
        dsimp only at hrun ⊢
        rw [h.elements hdeeper (some field.id)
          (fun index => path ++ "." ++ field.name ++ "[" ++ toString index ++ "]") hrun,
          hpush _ rfl]
        have hitems : (∀ item ∈ items.zipIdx,
              Conforms host settings (fieldOutline bodyFields) (some field.id) item.1) ↔
            ∀ item ∈ items,
              Conforms host settings (fieldOutline bodyFields) (some field.id) item := by
          conv_rhs => rw [← List.zipIdx_map_fst 0 items]
          rw [List.forall_mem_map]
        rw [hitems]
        refine and_congr_right fun _ => ⟨fun hconforms => ⟨hmissing, htype, ?_, ?_⟩,
          fun hmember => hmember.element items hfound harray⟩
        · exact fun other _ hother => absurd hother hobject
        · intro others hother _
          cases hsame hother
          exact hconforms
      · rw [if_neg harray]
        rw [hpush _ rfl]
        exact ⟨fun hclean => ⟨hclean, hmissing, htype,
          fun other _ hother => absurd hother hobject,
          fun other _ hother => absurd hother harray⟩, And.left⟩

variable {children : List DefinitionField}

theorem fields_agree (h : Agrees host settings bodyFields deeper) (hdeeper : KeepsExceeded deeper)
    (hrun : (children.foldl (visitField host definition deeper members path) st).exceeded = false) :
    (children.foldl (visitField host definition deeper members path) st).Clean ↔
      st.Clean ∧ ∀ field ∈ children,
        MemberConforms host settings (fieldOutline bodyFields) members field.child := by
  induction children generalizing st with
  | nil => simp
  | cons field children ih =>
    have hfirst : (visitField host definition deeper members path st field).exceeded = false :=
      not_exceeded_first (fun st field hst => hdeeper.visitField members path field hst) hrun
    rw [List.foldl_cons, ih hrun, visitField_agrees h hdeeper hfirst, List.forall_mem_cons,
      and_assoc]

/-- Every additional member is a failed result. -/
theorem additional_passed_iff :
    (∀ result ∈ additional definition children members path, result.passed = true) ↔
      ∀ member ∈ members, member.1 ∈ children.map DefinitionField.name := by
  unfold additional
  rw [List.forall_mem_map]
  constructor
  · intro h member hmember
    by_contra hnot
    have hfailed := h member (List.mem_filter.mpr ⟨hmember, by simpa using hnot⟩)
    cases hfailed
  · intro h member hmember
    obtain ⟨hmember, hnot⟩ := List.mem_filter.mp hmember
    exact absurd (h member hmember) (by simpa using hnot)

theorem outline_names (parentId : Option String) :
    (fieldOutline bodyFields parentId).map Child.name =
      (childrenOf bodyFields parentId).map DefinitionField.name := by
  rw [fieldOutline, List.map_map]
  rfl

theorem visitNode_agrees (h : Agrees host settings bodyFields deeper)
    (hdeeper : KeepsExceeded deeper) :
    Agrees host settings bodyFields (visitNode host definition settings bodyFields deeper) := by
  intro value parentId path st hrun
  unfold visitNode at hrun ⊢
  cases value with
  | obj members =>
    rw [conforms_obj_iff, ← and_assoc]
    let fold := (childrenOf bodyFields parentId).foldl
      (visitField host definition deeper members path) st
    have hfields : fold.exceeded = false → (fold.Clean ↔ _) := fields_agree h hdeeper
    have hall : (∀ child ∈ fieldOutline bodyFields parentId,
          MemberConforms host settings (fieldOutline bodyFields) members child) ↔
        ∀ field ∈ childrenOf bodyFields parentId,
          MemberConforms host settings (fieldOutline bodyFields) members field.child := by
      rw [fieldOutline, List.forall_mem_map]
    rw [hall]
    dsimp only at hrun ⊢
    cases hallowed : settings.allowAdditionalProperties with
    | true =>
      rw [hallowed] at hrun
      rw [if_pos rfl] at hrun ⊢
      rw [hfields hrun]
      exact (and_iff_left (Or.inl hallowed)).symm
    | false =>
      rw [hallowed] at hrun
      rw [if_neg Bool.false_ne_true] at hrun ⊢
      have hfold := hfields hrun
      have happend : ∀ (st : Visit) results,
          (Visit.Clean { st with results := st.results ++ results } ↔
            st.Clean ∧ ∀ result ∈ results, result.passed = true) := fun st results =>
        List.forall_mem_append
      rw [happend, hfold, additional_passed_iff, ← outline_names]
      refine and_congr_right fun _ => ⟨Or.inr, ?_⟩
      rintro (hother | hmembers)
      · rw [hallowed] at hother
        cases hother
      · exact hmembers
  | _ =>
    rw [conforms_iff_of_not_obj (fun members heq => by cases heq)]
    unfold fieldOutline
    rw [List.map_eq_nil_iff]
    cases hchildren : childrenOf bodyFields parentId with
    | nil => simp
    | cons field children =>
      simp only [List.isEmpty_cons, Bool.false_eq_true, if_false, reduceCtorEq, and_false,
        iff_false]
      rw [clean_push]
      rintro ⟨-, hfalse⟩
      cases hfalse

theorem visit_agrees :
    Agrees host settings bodyFields (visit host definition settings bodyFields left) := by
  induction left with
  | zero =>
    intro value parentId path st hrun
    rw [visit] at hrun
    dsimp only at hrun
    split at hrun
    · rename_i hexceeded
      rw [hexceeded] at hrun
      cases hrun
    · cases hrun
  | succ left ih =>
    intro value parentId path st hrun
    rw [visit] at hrun ⊢
    dsimp only at hrun ⊢
    split at hrun
    · rename_i hexceeded
      rw [hexceeded] at hrun
      cases hrun
    rename_i hexceeded
    rw [if_neg hexceeded]
    split at hrun
    · cases hrun
    rename_i hnodes
    rw [if_neg hnodes]
    exact visitNode_agrees ih (keepsExceeded_visit left) _ _ _ _ hrun

/-- The check of a body finds nothing wrong exactly when the body conforms to the fields. -/
theorem visitBody_clean_iff {body : Parsed}
    (hbudget : (visitBody host definition settings bodyFields body).exceeded = false) :
    (visitBody host definition settings bodyFields body).Clean ↔
      Conforms host settings (fieldOutline bodyFields) none body := by
  refine (visit_agrees (maxSchemaValidationDepth + 1) body none "$" ⟨0, false, []⟩ hbudget).trans
    (and_iff_right ?_)
  intro result hresult
  cases hresult

/-! ### The budget -/

/-- A visit that was stopped has a failed result. -/
def Visit.Sound (st : Visit) : Prop := st.exceeded = true → ¬ st.Clean

theorem Visit.Sound.append (h : st.Sound) (results : List AssertionResultEvent) :
    Visit.Sound { st with results := st.results ++ results } := by
  intro hexceeded hclean
  exact h hexceeded (List.forall_mem_append.mp hclean).1

theorem sound_foldl {f : Visit → α → Visit} {items : List α}
    (hf : ∀ st item, st.Sound → (f st item).Sound) (h : st.Sound) : (items.foldl f st).Sound := by
  induction items generalizing st with
  | nil => exact h
  | cons item items ih => exact ih (hf st item h)

theorem sound_tooComplex (depth : Nat) (st : Visit) : (tooComplex definition depth st).Sound := by
  intro _ hclean
  have hfailed := (clean_push.mp hclean).2
  cases hfailed

def KeepsSound (deeper : Visitor) : Prop :=
  ∀ parent parentId path st, st.Sound → (deeper parent parentId path st).Sound

theorem KeepsSound.visitField (hdeeper : KeepsSound deeper) (members : List (String × Parsed))
    (path : String) (field : DefinitionField) (h : st.Sound) :
    (visitField host definition deeper members path st field).Sound := by
  unfold Workbench.visitField
  cases property host members field.name with
  | none => exact h.append _
  | some value =>
    dsimp only
    split
    · exact hdeeper _ _ _ _ (h.append _)
    split
    · cases value with
      | arr items => exact sound_foldl (fun st item hst => hdeeper _ _ _ _ hst) (h.append _)
      | _ => exact h.append _
    · exact h.append _

theorem keepsSound_visit : KeepsSound (visit host definition settings bodyFields left) := by
  induction left with
  | zero =>
    intro parent parentId path st h
    rw [visit]
    dsimp only
    split
    · exact h
    · exact sound_tooComplex _ _
  | succ left ih =>
    intro parent parentId path st h
    rw [visit]
    dsimp only
    split
    · exact h
    split
    · exact sound_tooComplex _ _
    have hvisited : Visit.Sound { st with visited := st.visited + 1 } := h
    unfold visitNode
    cases parent with
    | obj members =>
      have hfold : Visit.Sound ((childrenOf bodyFields parentId).foldl
          (visitField host definition (visit host definition settings bodyFields left) members
            path) { st with visited := st.visited + 1 }) :=
        sound_foldl (fun st field hst => ih.visitField members path field hst) hvisited
      dsimp only
      split
      · exact hfold
      · exact hfold.append _
    | _ =>
      dsimp only
      split
      · exact hvisited
      · exact hvisited.append _

/-- A check that was stopped by the budget has a failed result. -/
theorem visitBody_sound (body : Parsed) :
    (visitBody host definition settings bodyFields body).Sound := by
  refine keepsSound_visit _ _ _ _ _ fun hexceeded => ?_
  cases hexceeded

end Check

/-! ## Budgets -/

section Budget

variable (host : DesignHost) (bodyFields : List DefinitionField)

/-- What is reached through one field of an object. -/
def reachedBelow (deeper : Parsed → Option String → List Nat) (members : List (String × Parsed))
    (field : DefinitionField) : List Nat :=
  match property host members field.name with
  | none => []
  | some value =>
    if matchesJsonType value field.type = false then []
    else if field.type = "object" then deeper value (some field.id)
    else if field.type = "array" then
      match value with
      | .arr items => items.flatMap fun item => deeper item (some field.id)
      | _ => []
    else []

/-- What is reached through the fields below a parent. -/
def reachedThrough (deeper : Parsed → Option String → List Nat) (parentId : Option String) :
    Parsed → List Nat
  | .obj members => (childrenOf bodyFields parentId).flatMap (reachedBelow host deeper members)
  | _ => []

/-- The values that are checked with fields of their own, each with the levels left to it. -/
def reached : Nat → Parsed → Option String → List Nat
  | 0, _, _ => [0]
  | left + 1, value, parentId =>
    (left + 1) :: reachedThrough host bodyFields (reached left) parentId value

/-- A body that is neither too deep nor too large for the check. -/
def WithinBudgets (body : Parsed) : Prop :=
  (reached host bodyFields (maxSchemaValidationDepth + 1) body none).length ≤
      maxSchemaValidationNodes ∧
    0 ∉ reached host bodyFields (maxSchemaValidationDepth + 1) body none

variable {host bodyFields} {definition : DesignedResponse}
  {settings : ProjectResponseValidationSettings}

/-- A step visits so many values: a visit goes on exactly when none of them is too deep and there is
room for them, and does not begin again once it was stopped. -/
structure Counts (step : Visit → Visit) (values : List Nat) : Prop where
  stopped : ∀ st, st.exceeded = true → (step st).exceeded = true
  going : ∀ st, st.exceeded = false → st.visited ≤ maxSchemaValidationNodes →
    ((step st).exceeded = false ↔
      0 ∉ values ∧ st.visited + values.length ≤ maxSchemaValidationNodes)
  visited : ∀ st, (step st).exceeded = false → (step st).visited = st.visited + values.length

theorem Counts.push (result : AssertionResultEvent) : Counts (fun st => st.push result) [] where
  stopped _ h := h
  going _ hgoing hroom := iff_of_true hgoing ⟨List.not_mem_nil, hroom⟩
  visited _ _ := rfl

/-- A visit that goes on after a step was going on before it. -/
theorem Counts.not_stopped {step : Visit → Visit} {values : List Nat} (h : Counts step values)
    {st : Visit} (hgoing : (step st).exceeded = false) : st.exceeded = false := by
  cases hstop : st.exceeded with
  | false => rfl
  | true => cases (h.stopped st hstop).symm.trans hgoing

theorem Counts.comp {first second : Visit → Visit} {values others : List Nat}
    (hfirst : Counts first values) (hsecond : Counts second others) :
    Counts (fun st => second (first st)) (values ++ others) where
  stopped st h := hsecond.stopped _ (hfirst.stopped st h)
  going st hgoing hroom := by
    rw [List.mem_append, not_or, List.length_append]
    have hiff := hfirst.going st hgoing hroom
    cases hstop : (first st).exceeded with
    | true =>
      rw [hstop, Bool.true_eq_false, false_iff] at hiff
      have hstopped := hsecond.stopped _ hstop
      refine iff_of_false (fun h => by cases hstopped.symm.trans h) ?_
      rintro ⟨⟨hdeep, -⟩, hfits⟩
      exact hiff ⟨hdeep, by omega⟩
    | false =>
      obtain ⟨hdeep, hfits⟩ := hiff.mp hstop
      have hvisited := hfirst.visited st hstop
      rw [hsecond.going _ hstop (by omega), hvisited, Nat.add_assoc, and_assoc]
      exact (and_iff_right hdeep).symm
  visited st h := by
    have hone := hfirst.visited st (hsecond.not_stopped h)
    have htwo := hsecond.visited _ h
    rw [List.length_append]
    omega

theorem Counts.foldl {α : Type} {f : Visit → α → Visit} {values : α → List Nat} {items : List α}
    (h : ∀ item, Counts (fun st => f st item) (values item)) :
    Counts (fun st => items.foldl f st) (items.flatMap values) := by
  induction items with
  | nil => exact ⟨fun _ h => h, fun _ hgoing hroom => iff_of_true hgoing ⟨List.not_mem_nil, hroom⟩,
      fun _ _ => rfl⟩
  | cons item items ih =>
    rw [List.flatMap_cons]
    exact (h item).comp ih

variable {values : Parsed → Option String → List Nat}

variable {deeper : Visitor}

theorem counts_visitField
    (h : ∀ value parentId path, Counts (deeper value parentId path) (values value parentId))
    (members : List (String × Parsed)) (path : String) (field : DefinitionField) :
    Counts (fun st => visitField host definition deeper members path st field)
      (reachedBelow host values members field) := by
  unfold visitField reachedBelow
  cases property host members field.name with
  | none => exact Counts.push _
  | some value =>
    dsimp only
    cases hpassed : matchesJsonType value field.type with
    | false =>
      simp only [Bool.false_and, Bool.false_eq_true, if_false, if_true]
      exact Counts.push _
    | true =>
      simp only [Bool.true_and, decide_eq_true_eq, Bool.true_eq_false, if_false]
      by_cases hobject : field.type = "object"
      · simp only [if_pos hobject]
        exact (Counts.push _).comp (h value (some field.id) _)
      by_cases harray : field.type = "array"
      · simp only [if_neg hobject, if_pos harray]
        cases value with
        | arr items =>
          have hitems : items.flatMap (fun item => values item (some field.id)) =
              items.zipIdx.flatMap fun item => values item.1 (some field.id) := by
            conv_lhs => rw [← List.zipIdx_map_fst 0 items]
            rw [List.flatMap_map]
          dsimp only
          rw [hitems]
          exact (Counts.push _).comp (Counts.foldl fun item : Parsed × Nat =>
            h item.1 (some field.id) _)
        | _ => exact Counts.push _
      · simp only [if_neg hobject, if_neg harray]
        exact Counts.push _

theorem counts_visitNode
    (h : ∀ value parentId path, Counts (deeper value parentId path) (values value parentId))
    (value : Parsed) (parentId : Option String) (path : String) :
    Counts (visitNode host definition settings bodyFields deeper value parentId path)
      (reachedThrough host bodyFields values parentId value) := by
  have hsame : ∀ {step : Visit → Visit} {values : List Nat}, Counts step values →
      ∀ results : List AssertionResultEvent, Counts (fun st =>
        if settings.allowAdditionalProperties then step st
        else { step st with results := (step st).results ++ results }) values := by
    intro step values hstep results
    split
    · exact hstep
    · exact ⟨hstep.stopped, hstep.going, hstep.visited⟩
  unfold visitNode
  cases value with
  | obj members => exact hsame (Counts.foldl (counts_visitField h members path)) _
  | _ =>
    dsimp only
    split
    · exact ⟨fun _ h => h, fun _ hgoing hroom => iff_of_true hgoing ⟨List.not_mem_nil, hroom⟩,
          fun _ _ => rfl⟩
    · exact Counts.push _

theorem counts_visit (left : Nat) : ∀ (value : Parsed) (parentId : Option String) (path : String),
    Counts (visit host definition settings bodyFields left value parentId path)
      (reached host bodyFields left value parentId) := by
  induction left with
  | zero =>
    intro value parentId path
    have hstops : ∀ st, (visit host definition settings bodyFields 0 value parentId path
        st).exceeded = true := by
      intro st
      rw [visit]
      dsimp only
      split
      · assumption
      · rfl
    refine ⟨fun st _ => hstops st, fun st _ _ => ?_, fun st h => ?_⟩
    · refine iff_of_false (fun h => by cases (hstops st).symm.trans h) ?_
      rintro ⟨hdeep, -⟩
      exact hdeep (List.mem_singleton_self 0)
    · cases (hstops st).symm.trans h
  | succ left ih =>
    intro value parentId path
    have hnode : Counts (visitNode host definition settings bodyFields
        (visit host definition settings bodyFields left) value parentId path)
        (reachedThrough host bodyFields (reached host bodyFields left) parentId value) :=
      counts_visitNode ih value parentId path
    have hrun : ∀ st, st.exceeded = false → visit host definition settings bodyFields (left + 1)
        value parentId path st =
          if maxSchemaValidationNodes < st.visited + 1 then
            tooComplex definition (maxSchemaValidationDepth - left)
              { st with visited := st.visited + 1 }
          else visitNode host definition settings bodyFields
            (visit host definition settings bodyFields left) value parentId path
              { st with visited := st.visited + 1 } := by
      intro st hgoing
      rw [visit]
      dsimp only
      rw [if_neg (by rw [hgoing]; exact Bool.false_ne_true)]
    have hstopped : ∀ st, st.exceeded = true → (visit host definition settings bodyFields
        (left + 1) value parentId path st).exceeded = true :=
      keepsExceeded_visit (left + 1) value parentId path
    refine ⟨hstopped, fun st hgoing hroom => ?_, fun st h => ?_⟩
    · rw [hrun st hgoing, reached, List.mem_cons, not_or, List.length_cons]
      split
      · refine iff_of_false (fun h => by cases h) ?_
        rintro ⟨-, hfits⟩
        omega
      · rename_i hfits
        have hiff := hnode.going { st with visited := st.visited + 1 } hgoing (by dsimp only; omega)
        rw [hiff, and_iff_right (by omega : 0 ≠ left + 1)]
        dsimp only
        rw [Nat.add_assoc, Nat.add_comm 1]
    · have hgoing : st.exceeded = false := by
        cases hstop : st.exceeded with
        | false => rfl
        | true => cases (hstopped st hstop).symm.trans h
      rw [hrun st hgoing] at h ⊢
      rw [reached, List.length_cons]
      split at h
      · cases h
      · rename_i hfits
        rw [if_neg hfits, hnode.visited _ h]
        dsimp only
        omega

/-- The visit of a body is not stopped exactly when the body is neither too deep nor too large. -/
theorem not_exceeded_iff {body : Parsed} :
    (visitBody host definition settings bodyFields body).exceeded = false ↔
      WithinBudgets host bodyFields body := by
  have hcounts : Counts (visit host definition settings bodyFields (maxSchemaValidationDepth + 1)
      body none "$") (reached host bodyFields (maxSchemaValidationDepth + 1) body none) :=
    counts_visit _ body none "$"
  refine (hcounts.going ⟨0, false, []⟩ rfl (Nat.zero_le _)).trans ?_
  rw [WithinBudgets, Nat.zero_add]
  exact and_comm

end Budget

end ApiVoy.Workbench
