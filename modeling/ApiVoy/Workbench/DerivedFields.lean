/-
# Fields derived from a body

Does a body pass the check against the fields that were derived from it? The field of an array has
one field below it, `items`, which stands for the first element, while the check looks for a
member `items` in every element. So a body passes when it conforms to its own shape in this sense:
its arrays hold objects only, and nothing in it is null. For any list of fields, an element that
has not the type of `items` goes unnoticed exactly where the body conforms all the same.
-/

import ApiVoy.Workbench.ResponseOutline

namespace ApiVoy.Workbench

open Foundation Domain

/-! ## The fields of a body -/

/-- The members the fields below the field of a value are for. -/
def shapeOf : Parsed → List (String × Parsed)
  | .obj members => members
  | .arr [] => [("items", .str "")]
  | .arr (first :: _) => [("items", first)]
  | _ => []

/-- The field a member of a body gets, its node being the value. -/
def shapeChild (member : String × Parsed) : Child Parsed where
  name := member.1
  type := fieldType member.2
  required := false
  node := member.2

/-- The outline of a value: what the fields derived from it say. A member without a name is left
out. -/
def shapeOutline : Outline Parsed := fun value =>
  ((shapeOf value).filter fun member => member.1 ≠ "").map shapeChild

section Derived

variable (host : DesignHost) (draw : Nat → String)

variable (name : String)

/-- The field of a value comes first, then those of its shape. -/
theorem addBodyField_eq (item : Parsed) (parentId : Option String) (n : Nat) :
    addBodyField host draw name item parentId n =
      (bodyField host draw name item parentId n ::
          (addBodyFields host draw (shapeOf item) (some (draw n)) (n + 1)).1,
        (addBodyFields host draw (shapeOf item) (some (draw n)) (n + 1)).2) := by
  cases item with
  | arr items =>
    cases items with
    | nil => simp [addBodyField, addBodyFields, shapeOf]
    | cons first others => simp [addBodyField, addBodyFields, shapeOf]
  | obj members => simp [addBodyField, shapeOf]
  | _ => simp [addBodyField, addBodyFields, shapeOf]

variable {host draw}

/-- Fields of a body with ids from `n` on: each is below the parent or below one of them. -/
structure DrawnFrom (draw : Nat → String) (parentId : Option String) (n : Nat)
    (out : List DefinitionField × Nat) : Prop where
  le : n ≤ out.2
  scope : ∀ field ∈ out.1, field.scope = "request.body"
  parent : ∀ field ∈ out.1, field.parentId = parentId ∨
    ∃ k, n ≤ k ∧ k < out.2 ∧ field.parentId = some (draw k)

variable {parentId : Option String}

theorem drawnFrom_leaf {name : String} {item : Parsed} {n : Nat} :
    DrawnFrom draw parentId n ([bodyField host draw name item parentId n], n + 1) where
  le := n.le_succ
  scope := List.forall_mem_singleton.mpr rfl
  parent := List.forall_mem_singleton.mpr (Or.inl rfl)

variable {out : List DefinitionField × Nat}

/-- The field of a value before those of its shape. -/
theorem DrawnFrom.field {name : String} {item : Parsed} {n : Nat}
    (h : DrawnFrom draw (some (draw n)) (n + 1) out) :
    DrawnFrom draw parentId n (bodyField host draw name item parentId n :: out.1, out.2) where
  le := Nat.le_of_succ_le h.le
  scope := List.forall_mem_cons.mpr ⟨rfl, h.scope⟩
  parent := by
    refine List.forall_mem_cons.mpr ⟨Or.inl rfl, fun field hfield => Or.inr ?_⟩
    rcases h.parent field hfield with hparent | ⟨k, hlo, hhi, hparent⟩
    · exact ⟨n, le_rfl, h.le, hparent⟩
    · exact ⟨k, Nat.le_of_succ_le hlo, hhi, hparent⟩

theorem DrawnFrom.append {n next last : Nat} {fields others : List DefinitionField}
    (h : DrawnFrom draw parentId n (fields, next))
    (hothers : DrawnFrom draw parentId next (others, last)) :
    DrawnFrom draw parentId n (fields ++ others, last) where
  le := h.le.trans hothers.le
  scope := List.forall_mem_append.mpr ⟨h.scope, hothers.scope⟩
  parent := by
    refine List.forall_mem_append.mpr ⟨fun field hfield => ?_, fun field hfield => ?_⟩
    · exact (h.parent field hfield).imp_right fun ⟨k, hlo, hhi, hparent⟩ =>
        ⟨k, hlo, hhi.trans_le hothers.le, hparent⟩
    · exact (hothers.parent field hfield).imp_right fun ⟨k, hlo, hhi, hparent⟩ =>
        ⟨k, h.le.trans hlo, hhi, hparent⟩

mutual

theorem drawnFrom_addBodyField (name : String) : ∀ (item : Parsed) (parentId : Option String)
    (n : Nat), DrawnFrom draw parentId n (addBodyField host draw name item parentId n)
  | .arr [], parentId, n => by
    rw [addBodyField]
    exact (drawnFrom_leaf (n := n + 1)).field
  | .arr (first :: others), parentId, n => by
    rw [addBodyField]
    exact (drawnFrom_addBodyField "items" first (some (draw n)) (n + 1)).field
  | .obj members, parentId, n => by
    rw [addBodyField]
    exact (drawnFrom_addBodyFields members (some (draw n)) (n + 1)).field
  | .null, _, _ => drawnFrom_leaf
  | .bool _, _, _ => drawnFrom_leaf
  | .num _, _, _ => drawnFrom_leaf
  | .str _, _, _ => drawnFrom_leaf
  | .function, _, _ => drawnFrom_leaf

theorem drawnFrom_addBodyFields : ∀ (members : List (String × Parsed)) (parentId : Option String)
    (n : Nat), DrawnFrom draw parentId n (addBodyFields host draw members parentId n)
  | [], parentId, n => by
    rw [addBodyFields]
    exact ⟨le_rfl, by simp, by simp⟩
  | (name, item) :: members, parentId, n => by
    rw [addBodyFields]
    exact (drawnFrom_addBodyField name item parentId n).append
      (drawnFrom_addBodyFields members parentId _)

end

/-- The fields below a parent stand for the shape of a value, so many levels down. -/
def Represents (fields : List DefinitionField) : Nat → Option String → Parsed → Prop
  | 0, _, _ => True
  | left + 1, parentId, value =>
    List.Forall₂ (fun member field => field.name = member.1 ∧ field.type = fieldType member.2 ∧
        field.required = false ∧ Represents fields left (some field.id) member.2)
      (shapeOf value) (childrenOf fields parentId)

theorem childrenOf_append (fields others : List DefinitionField) (parentId : Option String) :
    childrenOf (fields ++ others) parentId =
      childrenOf fields parentId ++ childrenOf others parentId :=
  List.filter_append _ _

variable {fields : List DefinitionField}

theorem childrenOf_eq_nil (h : ∀ field ∈ fields, field.parentId ≠ parentId) :
    childrenOf fields parentId = [] := by
  refine List.filter_eq_nil_iff.mpr fun field hfield => ?_
  simpa using h field hfield

/-- Among fields drawn from other numbers there is none below the id of a number. -/
theorem DrawnFrom.childrenOf_eq_nil (hdraw : Function.Injective draw) {n k : Nat}
    (h : DrawnFrom draw parentId n out) (hparent : parentId ≠ some (draw k))
    (hk : k < n ∨ out.2 ≤ k) : childrenOf out.1 (some (draw k)) = [] := by
  refine Workbench.childrenOf_eq_nil fun field hfield heq => ?_
  rcases h.parent field hfield with hfieldParent | ⟨j, hlo, hhi, hfieldParent⟩
  · exact hparent (hfieldParent.symm.trans heq)
  · have hjk : j = k := hdraw (Option.some.inj (hfieldParent.symm.trans heq))
    omega

theorem bodyField_parent (item : Parsed) (parentId : Option String) (n : Nat) :
    childrenOf (bodyField host draw name item parentId n :: fields) parentId =
      bodyField host draw name item parentId n :: childrenOf fields parentId :=
  List.filter_cons_of_pos (by simp [bodyField])

theorem bodyField_other (item : Parsed) {parentId other : Option String} (n : Nat)
    (h : parentId ≠ other) :
    childrenOf (bodyField host draw name item parentId n :: fields) other =
      childrenOf fields other :=
  List.filter_cons_of_neg (by simp [bodyField, h])

/-- The fields below the field of a value, which has the id of this draw, and those below them are
the ones that were derived from the value. -/
def Owned (host : DesignHost) (draw : Nat → String) (fields : List DefinitionField) (item : Parsed)
    (n : Nat) : Prop :=
  ∀ k, n ≤ k → k < (addBodyFields host draw (shapeOf item) (some (draw n)) (n + 1)).2 →
    childrenOf fields (some (draw k)) =
      childrenOf (addBodyFields host draw (shapeOf item) (some (draw n)) (n + 1)).1 (some (draw k))

/-- The fields of some members stand for them, if what is below each stands for the value. -/
theorem forall₂_addBodyFields (hdraw : Function.Injective draw) {fields : List DefinitionField}
    {Below : Option String → Parsed → Prop}
    (hbelow : ∀ item n, Owned host draw fields item n → Below (some (draw n)) item)
    (members : List (String × Parsed)) (parentId : Option String) (n : Nat)
    (hparent : ∀ k, n ≤ k → parentId ≠ some (draw k))
    (howns : ∀ k, n ≤ k → k < (addBodyFields host draw members parentId n).2 →
      childrenOf fields (some (draw k)) =
        childrenOf (addBodyFields host draw members parentId n).1 (some (draw k))) :
    List.Forall₂ (fun member field => field.name = member.1 ∧ field.type = fieldType member.2 ∧
        field.required = false ∧ Below (some field.id) member.2)
      members (childrenOf (addBodyFields host draw members parentId n).1 parentId) := by
  induction members generalizing n with
  | nil =>
    rw [addBodyFields]
    exact List.Forall₂.nil
  | cons member members ih =>
    obtain ⟨name, item⟩ := member
    rw [addBodyFields, addBodyField_eq] at howns ⊢
    dsimp only at howns ⊢
    let sub := addBodyFields host draw (shapeOf item) (some (draw n)) (n + 1)
    have hsub : DrawnFrom draw (some (draw n)) (n + 1) sub := drawnFrom_addBodyFields _ _ _
    let rest := addBodyFields host draw members parentId sub.2
    have hrest : DrawnFrom draw parentId sub.2 rest := drawnFrom_addBodyFields _ _ _
    have hn : n < sub.2 := hsub.le
    have hsubParent : childrenOf sub.1 parentId = [] := by
      refine Workbench.childrenOf_eq_nil fun field hfield heq => ?_
      rcases hsub.parent field hfield with hfieldParent | ⟨j, hlo, -, hfieldParent⟩
      · exact hparent n le_rfl (heq.symm.trans hfieldParent)
      · exact hparent j (Nat.le_of_succ_le hlo) (heq.symm.trans hfieldParent)
    rw [List.cons_append, bodyField_parent, childrenOf_append, hsubParent, List.nil_append]
    refine List.Forall₂.cons ⟨rfl, rfl, rfl, hbelow item n ?_⟩ ?_
    · intro k hlo hhi
      rw [howns k hlo (hhi.trans_le hrest.le), List.cons_append,
        bodyField_other _ _ _ (hparent k hlo), childrenOf_append,
        hrest.childrenOf_eq_nil hdraw (hparent k hlo) (Or.inl hhi), List.append_nil]
    · refine ih sub.2 (fun k hk => hparent k (hn.le.trans hk)) fun k hlo hhi => ?_
      have hnk : some (draw n) ≠ some (draw k) := fun heq => by
        have := hdraw (Option.some.inj heq)
        omega
      rw [howns k (hn.le.trans hlo) hhi, List.cons_append,
        bodyField_other _ _ _ (hparent k (hn.le.trans hlo)), childrenOf_append,
        hsub.childrenOf_eq_nil hdraw hnk (Or.inr hlo), List.nil_append]

theorem represents_of_owned (hdraw : Function.Injective draw) (left : Nat) (item : Parsed) (n : Nat)
    (h : Owned host draw fields item n) : Represents fields left (some (draw n)) item := by
  induction left generalizing item n with
  | zero => trivial
  | succ left ih =>
    have hsub : DrawnFrom draw (some (draw n)) (n + 1)
        (addBodyFields host draw (shapeOf item) (some (draw n)) (n + 1)) :=
      drawnFrom_addBodyFields _ _ _
    rw [Represents, h n le_rfl hsub.le]
    refine forall₂_addBodyFields hdraw ih _ _ _ (fun k hk heq => ?_) fun k hlo hhi =>
      h k (Nat.le_of_succ_le hlo) hhi
    have := hdraw (Option.some.inj heq)
    omega

/-- The fields of a body stand for it. -/
theorem represents_body (hdraw : Function.Injective draw) (left : Nat)
    (members : List (String × Parsed)) (n : Nat) :
    Represents (addBodyFields host draw members none n).1 left none (.obj members) := by
  cases left with
  | zero => trivial
  | succ left =>
    exact forall₂_addBodyFields hdraw (represents_of_owned hdraw left) members none n
      (fun k _ heq => by cases heq) fun k _ _ => rfl

theorem forall₂_forall {α β : Type} {P : Nat → α → β → Prop} {items : List α} {others : List β}
    (h : ∀ n, List.Forall₂ (P n) items others) :
    List.Forall₂ (fun item other => ∀ n, P n item other) items others := by
  induction items generalizing others with
  | nil =>
    cases h 0
    exact List.Forall₂.nil
  | cons item items ih =>
    cases others with
    | nil => cases h 0
    | cons other others =>
      exact List.Forall₂.cons (fun n => (List.forall₂_cons.mp (h n)).1)
        (ih fun n => (List.forall₂_cons.mp (h n)).2)

variable (field : DefinitionField)

@[simp] theorem rescoped_name : field.rescoped.name = field.name := by
  unfold DefinitionField.rescoped
  split <;> rfl

@[simp] theorem rescoped_parentId : field.rescoped.parentId = field.parentId := by
  unfold DefinitionField.rescoped
  split <;> rfl

@[simp] theorem rescoped_child : field.rescoped.child = field.child := by
  unfold DefinitionField.rescoped
  split <;> rfl

/-- Rescoped and without those that have no name, they have the outline of the body. -/
theorem simulates_derived (fields : List DefinitionField) :
    Simulates (fun parentId value => ∀ left, Represents fields left parentId value)
      (fieldOutline ((fields.map DefinitionField.rescoped).filter fun field => field.name ≠ ""))
      shapeOutline := by
  intro parentId value h
  have houtline : fieldOutline
        ((fields.map DefinitionField.rescoped).filter fun field => field.name ≠ "") parentId =
      ((childrenOf fields parentId).filter fun field => field.name ≠ "").map
        DefinitionField.child := by
    unfold fieldOutline childrenOf
    rw [List.filter_map, List.filter_map, List.map_map, List.filter_filter, List.filter_filter]
    congr 1
    · exact funext rescoped_child
    · exact List.filter_congr fun field _ => by simp [Bool.and_comm]
  have hmembers := forall₂_forall fun left => h (left + 1)
  have hnamed := List.rel_filter (p := fun member : String × Parsed => member.1 ≠ "")
    (q := fun field : DefinitionField => field.name ≠ "")
    (fun member field hsame => by simp [(hsame 0).1]) hmembers
  rw [houtline, shapeOutline, List.forall₂_map_left_iff, List.forall₂_map_right_iff]
  refine hnamed.flip.imp fun field member hsame => ?_
  exact ⟨(hsame 0).1, (hsame 0).2.1, (hsame 0).2.2.1, fun left => (hsame left).2.2.2⟩

variable {members : List (String × Parsed)} {draft : HttpDebugDraft}

/-- The fields a response is checked against, when they were derived from a request. -/
theorem bodyFieldsOf_derived (hbody : bodyValue host draft.body = some (.obj members)) :
    bodyFieldsOf ((definitionFieldsFromHttpDraft host draw draft).map DefinitionField.rescoped) =
      ((addBodyFields host draw members none (flatFields host draw draft).length).1.map
        DefinitionField.rescoped).filter fun field => field.name ≠ "" := by
  have hflat : ∀ field ∈ flatFields host draw draft, field.rescoped.scope ≠ "response.body" := by
    intro field hfield
    unfold flatFields at hfield
    rcases List.mem_append.mp hfield with hfield | hfield
    all_goals
      obtain ⟨entry, -, rfl⟩ := List.mem_map.mp hfield
      simp [DefinitionField.rescoped, flatField]
  unfold definitionFieldsFromHttpDraft
  rw [hbody]
  dsimp only
  rw [bodyFieldsOf, List.map_append, List.filter_append]
  have hnone : ((flatFields host draw draft).map DefinitionField.rescoped).filter
      (fun field => field.scope = "response.body" && field.name ≠ "") = [] := by
    refine List.filter_eq_nil_iff.mpr (List.forall_mem_map.mpr fun field hfield => ?_)
    simp [hflat field hfield]
  rw [hnone, List.nil_append]
  refine List.filter_congr (List.forall_mem_map.mpr fun field hfield => ?_)
  have hscope := (drawnFrom_addBodyFields members none _).scope field hfield
  simp [DefinitionField.rescoped, hscope]

/-- A body conforms to its own fields exactly when it has its own shape. -/
theorem conforms_derived_iff (hdraw : Function.Injective draw)
    {settings : ProjectResponseValidationSettings}
    (hbody : bodyValue host draft.body = some (.obj members)) {value : Parsed} :
    Conforms host settings (fieldOutline (bodyFieldsOf
        ((definitionFieldsFromHttpDraft host draw draft).map DefinitionField.rescoped))) none value ↔
      Conforms host settings shapeOutline (.obj members) value := by
  rw [bodyFieldsOf_derived hbody]
  exact (simulates_derived _).conforms_iff fun left => represents_body hdraw left members _

end Derived

/-! ## Validation -/

section Validation

variable {host : DesignHost} {definition : DesignedResponse} {result : DesignedResponseResult}
  {settings : ProjectResponseValidationSettings}

/-- No result of the validation has failed. -/
def Accepts (host : DesignHost) (definition : DesignedResponse) (result : DesignedResponseResult)
    (settings : ProjectResponseValidationSettings) : Prop :=
  ∀ outcome ∈ validateDesignedResponse host definition result settings, outcome.passed = true

/-- Does everything pass but the schema of the body? -/
def AcceptsOtherwise (host : DesignHost) (definition : DesignedResponse)
    (result : DesignedResponseResult) (settings : ProjectResponseValidationSettings) : Prop :=
  Accepts host definition result { settings with bodySchema := false }

instance : Decidable (Accepts host definition result settings) :=
  inferInstanceAs (Decidable (∀ outcome ∈ _, _))

instance : Decidable (AcceptsOtherwise host definition result settings) :=
  inferInstanceAs (Decidable (Accepts _ _ _ _))

/-- No result about the schema of the body has failed. -/
def SchemaPasses (host : DesignHost) (definition : DesignedResponse)
    (result : DesignedResponseResult) (settings : ProjectResponseValidationSettings) : Prop :=
  ∀ outcome ∈ schemaResults host definition result settings, outcome.passed = true

theorem accepts_iff :
    Accepts host definition result settings ↔ AcceptsOtherwise host definition result settings ∧
      SchemaPasses host definition result settings := by
  have hnone : schemaResults host definition result { settings with bodySchema := false } = [] := by
    simp [schemaResults]
  unfold AcceptsOtherwise Accepts validateDesignedResponse
  rw [hnone, List.append_nil, List.forall_mem_append]
  rfl

/-- Of a body whose text is small enough, the schema passes exactly when the body is neither too
deep nor too large and conforms to the fields. -/
theorem schemaPasses_iff {body : Parsed} (hschema : settings.bodySchema = true)
    (hsize : withinBudget result = true) (hparse : host.parseJson (previewOf result) = some body) :
    SchemaPasses host definition result settings ↔
      bodyFieldsOf definition.fields = [] ∨
        WithinBudgets host (bodyFieldsOf definition.fields) body ∧
          Conforms host settings (fieldOutline (bodyFieldsOf definition.fields)) none body := by
  have hbudget : (visitBody host definition settings (bodyFieldsOf definition.fields)
      body).exceeded = false ↔ WithinBudgets host (bodyFieldsOf definition.fields) body :=
    not_exceeded_iff
  unfold SchemaPasses schemaResults
  rw [hschema, hsize, hparse]
  dsimp only
  cases hfields : bodyFieldsOf definition.fields with
  | nil => simp
  | cons field fields =>
    simp only [List.isEmpty_cons, Bool.not_false, Bool.and_self, if_true, reduceCtorEq, if_false,
      false_or]
    rw [← hfields, ← hbudget]
    cases hexceeded : (visitBody host definition settings (bodyFieldsOf definition.fields)
        body).exceeded with
    | true =>
      simp only [Bool.true_eq_false, false_and, iff_false]
      exact visitBody_sound body hexceeded
    | false =>
      rw [eq_self, true_and]
      exact visitBody_clean_iff hexceeded

/-- A body of the design that is too large fails. -/
theorem not_accepts_of_large (hschema : settings.bodySchema = true)
    (hsize : withinBudget result = false) (hfields : bodyFieldsOf definition.fields ≠ []) :
    ¬ Accepts host definition result settings := by
  intro haccepts
  have hschemaPassed := (accepts_iff.mp haccepts).2
  unfold SchemaPasses schemaResults at hschemaPassed
  dsimp only at hschemaPassed
  have hnonempty : (bodyFieldsOf definition.fields).isEmpty = false := by simpa using hfields
  rw [hschema, hnonempty, hsize] at hschemaPassed
  cases hformat : settings.bodyFormat with
  | false =>
    have hfailed := hschemaPassed _ (by
      simp only [Bool.not_false, Bool.and_self, if_true, hformat, Bool.false_eq_true, if_false]
      exact List.mem_singleton_self _)
    cases hfailed
  | true =>
    have htype : ∃ bodyType, bodyTypeOf definition = some bodyType := by
      unfold bodyTypeOf
      rw [hnonempty]
      cases definition.bodyType with
      | none => exact ⟨.json, rfl⟩
      | some bodyType => exact ⟨bodyType, rfl⟩
    obtain ⟨bodyType, htype⟩ := htype
    have hmem : ∀ outcome ∈ formatResults host definition result settings,
        outcome.passed = true := fun outcome houtcome =>
      haccepts outcome (List.mem_append_left _ (List.mem_append_right _ houtcome))
    unfold formatResults at hmem
    rw [htype, hformat, hsize] at hmem
    have hfailed := hmem _ (List.mem_append_right _ (List.mem_singleton_self _))
    cases hfailed

/-! ### The fields that were derived -/

/-- The fields derived from a body accept it exactly when the body has its own shape. -/
theorem accepts_derived_iff {draw : Nat → String} (hdraw : Function.Injective draw)
    {draft : HttpDebugDraft} {members : List (String × Parsed)}
    (hbody : bodyValue host draft.body = some (.obj members))
    (hfields : definition.fields =
      (definitionFieldsFromHttpDraft host draw draft).map DefinitionField.rescoped)
    (hpreview : result.preview = draft.body) (hschema : settings.bodySchema = true)
    (hsize : withinBudget result = true)
    (hbudget : WithinBudgets host (bodyFieldsOf definition.fields) (.obj members)) :
    Accepts host definition result settings ↔ AcceptsOtherwise host definition result settings ∧
      (bodyFieldsOf definition.fields = [] ∨
        Conforms host settings shapeOutline (.obj members) (.obj members)) := by
  have hparse : host.parseJson (previewOf result) = some (.obj members) := by
    rw [previewOf, hpreview]
    unfold bodyValue at hbody
    cases htext : draft.body with
    | none =>
      rw [htext] at hbody
      cases hbody
    | some text =>
      rw [htext] at hbody
      dsimp only at hbody
      split at hbody
      · cases hbody
      · exact hbody
  rw [accepts_iff, schemaPasses_iff hschema hsize hparse, and_iff_right hbudget, hfields,
    conforms_derived_iff hdraw hbody]

/-! ### Elements of arrays -/

/-- A field that is present in a body with this value, below so many arrays. An array's field has
one below it for the elements. -/
inductive Present (host : DesignHost) (bodyFields : List DefinitionField) (body : Parsed) :
    Nat → DefinitionField → Parsed → Prop
  | top {members : List (String × Parsed)} {field : DefinitionField} {found : Parsed}
      (object : body = .obj members) (child : field ∈ childrenOf bodyFields none)
      (member : property host members field.name = some found) :
      Present host bodyFields body 0 field found
  | member {arrays : Nat} {parent field : DefinitionField} {members : List (String × Parsed)}
      {found : Parsed} (above : Present host bodyFields body arrays parent (.obj members))
      (object : parent.type = "object") (child : field ∈ childrenOf bodyFields (some parent.id))
      (member : property host members field.name = some found) :
      Present host bodyFields body arrays field found
  | element {arrays : Nat} {parent field : DefinitionField} {items : List Parsed} {item : Parsed}
      (above : Present host bodyFields body arrays parent (.arr items))
      (array : parent.type = "array") (child : field ∈ childrenOf bodyFields (some parent.id))
      (name : field.name = "items") (mem : item ∈ items) :
      Present host bodyFields body (arrays + 1) field item

/-- An element of a present array that has not the type of the array's `items`. -/
def WrongElement (host : DesignHost) (bodyFields : List DefinitionField) (body : Parsed)
    (arrays : Nat) (item : Parsed) : Prop :=
  ∃ parent field items,
    Present host bodyFields body arrays parent (.arr items) ∧ parent.type = "array" ∧
      field ∈ childrenOf bodyFields (some parent.id) ∧ field.name = "items" ∧ item ∈ items ∧
        matchesJsonType item field.type = false

variable {bodyFields : List DefinitionField} {arrays : Nat}

/-- A field that is reached through objects only has what the outline says of it. -/
theorem conforms_present {body : Parsed} {field : DefinitionField} {value : Parsed}
    (hpresent : Present host bodyFields body arrays field value) (harrays : arrays = 0)
    (h : Conforms host settings (fieldOutline bodyFields) none body) :
    (field.type = "object" →
        Conforms host settings (fieldOutline bodyFields) (some field.id) value) ∧
      (field.type = "array" → ∀ items, value = .arr items → ∀ item ∈ items,
        Conforms host settings (fieldOutline bodyFields) (some field.id) item) := by
  induction hpresent with
  | top hobject hchild hmember =>
    rw [hobject, conforms_obj_iff] at h
    have hfield := h.1 _ (List.mem_map_of_mem hchild)
    refine ⟨hfield.object _ hmember, fun harray items heq => ?_⟩
    exact hfield.element items (heq ▸ hmember) harray
  | member _ hobject hchild hmember ih =>
    have hparent := (ih harrays).1 hobject
    rw [conforms_obj_iff] at hparent
    have hfield := hparent.1 _ (List.mem_map_of_mem hchild)
    refine ⟨hfield.object _ hmember, fun harray items heq => ?_⟩
    exact hfield.element items (heq ▸ hmember) harray
  | element => cases harrays

variable {body item : Parsed}

/-- No body conforms that has, in an array reached through objects only, an element of a wrong type
that is no object itself. -/
theorem not_conforms_of_plain (hwrong : WrongElement host bodyFields body 0 item)
    (hplain : ∀ members, item ≠ .obj members) :
    ¬ Conforms host settings (fieldOutline bodyFields) none body := by
  obtain ⟨parent, field, items, hpresent, harray, hchild, -, hitem, -⟩ := hwrong
  intro h
  have hitemConforms := (conforms_present hpresent rfl h).2 harray items rfl item hitem
  rw [conforms_iff_of_not_obj hplain] at hitemConforms
  have hmem := List.mem_map_of_mem (f := DefinitionField.child) hchild
  rw [fieldOutline] at hitemConforms
  rw [hitemConforms] at hmem
  cases hmem

theorem WrongElement.fields_ne_nil (h : WrongElement host bodyFields body arrays item) :
    bodyFields ≠ [] := by
  obtain ⟨parent, field, items, -, -, hchild, -⟩ := h
  exact List.ne_nil_of_mem (List.mem_filter.mp hchild).1

/-- A body that is too deep or too large fails. -/
theorem not_accepts_of_complex {body : Parsed} (hschema : settings.bodySchema = true)
    (hparse : host.parseJson (previewOf result) = some body)
    (hfields : bodyFieldsOf definition.fields ≠ [])
    (hcomplex : ¬ WithinBudgets host (bodyFieldsOf definition.fields) body) :
    ¬ Accepts host definition result settings := by
  intro haccepts
  cases hsize : withinBudget result with
  | false => exact not_accepts_of_large hschema hsize hfields haccepts
  | true =>
    obtain hnil | ⟨hbudget, -⟩ := (schemaPasses_iff hschema hsize hparse).mp
      (accepts_iff.mp haccepts).2
    · exact hfields hnil
    · exact hcomplex hbudget

/-- The designer's fields: every array has one field below it, `items`. -/
def ItemsBelowArrays (bodyFields : List DefinitionField) : Prop :=
  ∀ field ∈ bodyFields, field.type = "array" →
    ∃ child, childrenOf bodyFields (some field.id) = [child] ∧ child.name = "items"

/-- The fields of a body accept it exactly when it has its own shape, arrays having objects only.
Of a body that is too large or too deep a failure is reported in any case. In any other body a wrong
element is noticed exactly if the body does not conform to the fields as they are checked; in an
array that is reached through objects only, it is noticed if it is no object. -/
theorem designed_accepts_iff {draw : Nat → String} (hdraw : Function.Injective draw)
    (hschema : settings.bodySchema = true) :
    (∀ (draft : HttpDebugDraft) (members : List (String × Parsed)),
      bodyValue host draft.body = some (.obj members) →
      definition.fields =
        (definitionFieldsFromHttpDraft host draw draft).map DefinitionField.rescoped →
      result.preview = draft.body → withinBudget result = true →
      WithinBudgets host (bodyFieldsOf definition.fields) (.obj members) →
      (Accepts host definition result settings ↔ AcceptsOtherwise host definition result settings ∧
        (bodyFieldsOf definition.fields = [] ∨
          Conforms host settings shapeOutline (.obj members) (.obj members)))) ∧
    ∀ body, host.parseJson (previewOf result) = some body →
      (bodyFieldsOf definition.fields ≠ [] → (withinBudget result = false ∨
          ¬ WithinBudgets host (bodyFieldsOf definition.fields) body) →
        ¬ Accepts host definition result settings) ∧
      (withinBudget result = true → WithinBudgets host (bodyFieldsOf definition.fields) body →
        (((∃ arrays item, WrongElement host (bodyFieldsOf definition.fields) body arrays item) →
            ¬ SchemaPasses host definition result settings) ↔
          ((∃ arrays item, WrongElement host (bodyFieldsOf definition.fields) body arrays item) →
            ¬ Conforms host settings (fieldOutline (bodyFieldsOf definition.fields)) none body))) ∧
      ∀ item, WrongElement host (bodyFieldsOf definition.fields) body 0 item →
        (∀ members, item ≠ .obj members) → ¬ Accepts host definition result settings := by
  refine ⟨fun draft members hbody hfields hpreview hsize hbudget =>
    accepts_derived_iff hdraw hbody hfields hpreview hschema hsize hbudget,
    fun body hparse => ⟨fun hfields hlarge => ?_, fun hsize hbudget => ?_, ?_⟩⟩
  · obtain hsize | hcomplex := hlarge
    · exact not_accepts_of_large hschema hsize hfields
    · exact not_accepts_of_complex hschema hparse hfields hcomplex
  · refine forall_congr' fun ⟨arrays, item, hwrong⟩ => not_congr ?_
    rw [schemaPasses_iff hschema hsize hparse, or_iff_right hwrong.fields_ne_nil,
      and_iff_right hbudget]
  · intro item hwrong hplain haccepts
    cases hsize : withinBudget result with
    | false => exact not_accepts_of_large hschema hsize hwrong.fields_ne_nil haccepts
    | true =>
      have hpasses := (schemaPasses_iff hschema hsize hparse).mp (accepts_iff.mp haccepts).2
      exact not_conforms_of_plain hwrong hplain (hpasses.resolve_left hwrong.fields_ne_nil).2

end Validation

/-! ### Two bodies -/

/-- A host that knows one body, and ids of one letter. -/
def sampleDesignHost (text : String) (body : Parsed) : DesignHost where
  platform := .ascii
  parseJson other := if other = text then some body else none
  inherited _ := none
  numberText _ := "1"
  validXml _ := false
  validHtml _ := false
  validEventStream _ := false

def sampleDraw (n : Nat) : String := String.ofList (List.replicate n 'a')

theorem sampleDraw_injective : Function.Injective sampleDraw := by
  intro n m h
  have hlength := congrArg (fun text => text.toList.length) h
  simpa [sampleDraw] using hlength

def schemaOnly : ProjectResponseValidationSettings where
  status := false
  headers := false
  bodyFormat := false
  bodySchema := true
  allowAdditionalProperties := true

def sampleDraft (text : String) : HttpDebugDraft where
  url := "/"
  headers := []
  body := some text

def sampleDesign (fields : List DefinitionField) : DesignedResponse where
  status := "200"
  bodyType := none
  contentType := none
  fields := fields

def derivedDesign (text : String) (body : Parsed) : DesignedResponse :=
  sampleDesign ((definitionFieldsFromHttpDraft (sampleDesignHost text body) sampleDraw
    (sampleDraft text)).map DefinitionField.rescoped)

def sampleResult (text : String) : DesignedResponseResult where
  status := some 200
  preview := some text
  responseMeta := none

def flagText : String := "\x7b\"ok\":true\x7d"

def flagBody : List (String × Parsed) := [("ok", .bool true)]

theorem flag_conforms {host : DesignHost} :
    Conforms host schemaOnly shapeOutline (.obj flagBody) (.obj flagBody) := by
  refine conforms_obj_iff.mpr ⟨List.forall_mem_singleton.mpr ⟨?_, ?_, ?_, ?_⟩, Or.inl rfl⟩
  · exact fun h => by cases h
  · rintro found ⟨⟩
    decide
  · intro found _ htype
    exact absurd htype (by decide)
  · intro items _ htype
    exact absurd htype (by decide)

/-- A body with a flag is accepted by its own fields. -/
theorem flag_accepted :
    Accepts (sampleDesignHost flagText (.obj flagBody)) (derivedDesign flagText (.obj flagBody))
      (sampleResult flagText) schemaOnly := by
  refine ((designed_accepts_iff sampleDraw_injective rfl).1 (sampleDraft flagText) flagBody
    ?_ rfl rfl ?_ ⟨?_, ?_⟩).mpr ⟨?_, Or.inr flag_conforms⟩
  · have hblank : ¬ Script.trim flagText = "" := by decide
    simp only [sampleDraft, bodyValue, if_neg hblank]
    rfl
  · decide
  · decide
  · decide
  · decide

def nullText : String := "\x7b\"a\":null\x7d"

def nullBody : List (String × Parsed) := [("a", .null)]

def emptyElementText : String := "\x7b\"a\":[\x7b\x7d]\x7d"

def emptyElementBody : List (String × Parsed) := [("a", .arr [.obj []])]

/-- A field of the design of a response, of a body. -/
def designField (id name type : String) (parentId : Option String) : DefinitionField where
  id := id
  name := name
  type := type
  required := false
  description := ""
  example? := none
  parentId := parentId
  scope := "response.body"
  status := none
  responseId := none

def textsDesign : DesignedResponse :=
  sampleDesign [designField "1" "a" "array" none, designField "2" "items" "string" (some "1")]

/-- A member that is null is not accepted by its own field, and an empty object passes as the text
that the elements of an array shall be. -/
theorem designed_accepts_not :
    ¬(∀ (host : DesignHost) (draw : Nat → String) (definition : DesignedResponse)
        (result : DesignedResponseResult) (settings : ProjectResponseValidationSettings),
      Function.Injective draw → settings.bodySchema = true →
        (∀ (draft : HttpDebugDraft) (members : List (String × Parsed)),
          bodyValue host draft.body = some (.obj members) →
          definition.fields =
            (definitionFieldsFromHttpDraft host draw draft).map DefinitionField.rescoped →
          result.preview = draft.body → withinBudget result = true →
          WithinBudgets host (bodyFieldsOf definition.fields) (.obj members) →
          Accepts host definition result settings)) ∧
      ¬(∀ (host : DesignHost) (definition : DesignedResponse) (result : DesignedResponseResult)
        (settings : ProjectResponseValidationSettings), settings.bodySchema = true →
        ItemsBelowArrays (bodyFieldsOf definition.fields) →
        ∀ body, host.parseJson (previewOf result) = some body →
          (∃ arrays item, WrongElement host (bodyFieldsOf definition.fields) body arrays item) →
          ¬ Accepts host definition result settings) := by
  constructor
  · intro h
    have haccepts := h (sampleDesignHost nullText (.obj nullBody)) sampleDraw
      (derivedDesign nullText (.obj nullBody)) (sampleResult nullText) schemaOnly
      sampleDraw_injective rfl (sampleDraft nullText) nullBody (by
        have hblank : ¬ Script.trim nullText = "" := by decide
        simp only [sampleDraft, bodyValue, if_neg hblank]
        rfl) rfl rfl (by decide) ⟨by decide, by decide⟩
    exact absurd haccepts (by decide)
  · intro h
    refine h (sampleDesignHost emptyElementText (.obj emptyElementBody)) textsDesign
      (sampleResult emptyElementText) schemaOnly rfl ?_ (.obj emptyElementBody) rfl
      ⟨0, .obj [], designField "1" "a" "array" none,
        designField "2" "items" "string" (some "1"), [.obj []],
        .top rfl (List.mem_cons_self) rfl, rfl, ?_, rfl, List.mem_singleton_self _, by decide⟩
      (by decide)
    · intro field hfield harray
      refine ⟨designField "2" "items" "string" (some "1"), ?_, rfl⟩
      rcases List.mem_cons.mp hfield with rfl | hfield
      · rfl
      · rw [List.mem_singleton.mp hfield] at harray
        exact absurd harray (by decide)
    · exact List.mem_singleton_self _

end ApiVoy.Workbench
