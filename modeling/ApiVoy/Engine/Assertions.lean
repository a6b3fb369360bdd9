/-
# Assertions

The assertions of a request are judged on its response. Each has a target, the part of the
response that it is about, and an operator; the operators for types and lengths look up a value
of the response body whatever the target is. Every enabled assertion has one result.
-/

import ApiVoy.Domain.Execution
import ApiVoy.Engine.JsonPath
import ApiVoy.Foundation.Numerals
import ApiVoy.Foundation.Script

namespace ApiVoy.Engine

open Domain Foundation

/-- What the JSON library does: how it reads a document, and how it writes a value. -/
structure JsonLibrary where
  fromStr : String → Except String Json
  display : Json → String

/-- What the assertions of a request see of its response. -/
structure AssertionContext where
  status : Option UInt16
  headers : List (String × String)
  body : String
  durationMs : UInt64
  bytesReceived : UInt64

/-! ## Names -/

def operatorLabel : AssertionOperator → String
  | .equals => "=="
  | .notEquals => "!="
  | .isIn => "in"
  | .greaterThan => ">"
  | .lessThan => "<"
  | .contains => "contains"
  | .notContains => "not contains"
  | .exists => "exists"
  | .notExists => "not exists"
  | .typeIs => "type is"
  | .lengthEquals => "length =="
  | .lengthGreaterThan => "length >"
  | .lengthLessThan => "length <"

def assertionName (assertion : Assertion) : String :=
  let target := match assertion.target with
    | .status => "status"
    | .header => "header[" ++ assertion.selector.getD "" ++ "]"
    | .body => "body"
    | .jsonPath => "jsonpath " ++ assertion.selector.getD "$"
    | .duration => "duration"
    | .size => "size"
  target ++ " " ++ operatorLabel assertion.operator

/-! ## Parts of a response -/

def findHeader (headers : List (String × String)) (name : String) : Option String :=
  (headers.find? fun header => eqIgnoreAsciiCase header.1 name).map Prod.snd

/-- A text, shortened to a number of bytes; `none` where the program would stop. -/
def truncate (text : String) (max : Nat) : Option String :=
  if byteSize text.toList ≤ max then some text
  else (takeBytes max text.toList).map fun front => String.ofList front ++ "…"

def jsonType : Json → String
  | .null => "null"
  | .bool _ => "boolean"
  | .num _ => "number"
  | .str _ => "string"
  | .arr _ => "array"
  | .obj _ => "object"

def arrayLength : Json → Option Nat
  | .arr items => some items.length
  | _ => none

/-- Compare two texts as floating point numbers. -/
def numericCompare (actual expected : Option String) (compare : Double → Double → Bool) : Bool :=
  match actual.bind fun text => parseF64 text.toList,
      expected.bind fun text => parseF64 text.toList with
  | some a, some b => compare a b
  | _, _ => false

section Evaluation

variable (library : JsonLibrary)

def valueToCompareString : Json → String
  | .str text => text
  | .null => "null"
  | .bool b => if b = true then "true" else "false"
  | value => library.display value

def jsonPathGet (body path : String) : Option (Except String (Option Json)) :=
  match library.fromStr body with
  | .error message => some (.error ("response is not JSON: " ++ message))
  | .ok root => locate root path

variable (assertion : Assertion) (context : AssertionContext)

/-- The value in the body that the selector of an assertion finds, if there is one. -/
def selectedValue : Option (Option Json) :=
  (jsonPathGet library context.body (assertion.selector.getD "$")).map fun found =>
    match found with
    | .ok value => value
    | .error _ => none

/-- The value that an assertion is about, or why the body has no such value. -/
def targetValue : Option (Except String (Option String)) :=
  match assertion.target with
  | .status => some (.ok (context.status.map fun status => toString status.toNat))
  | .header => some (.ok (findHeader context.headers (assertion.selector.getD "")))
  | .body => some (.ok (some context.body))
  | .duration => some (.ok (some (toString context.durationMs.toNat)))
  | .size => some (.ok (some (toString context.bytesReceived.toNat)))
  | .jsonPath =>
    (jsonPathGet library context.body (assertion.selector.getD "$")).map
      (Except.map (Option.map (valueToCompareString library)))

/-- A verdict, the value it is about, and why the assertion failed where the operator says it. -/
structure Judgement where
  passed : Bool
  actual : Option String
  failure : Option String
  deriving DecidableEq

/-- Compare the length of the selected array. A length is exact as a double. -/
def judgeLength (compare : Double → Double → Bool) : Option Judgement :=
  (selectedValue library assertion context).map fun (value : Option Json) =>
    let length := value.bind arrayLength
    let wanted := assertion.expected.bind fun text => parseF64 text.toList
    { passed := match length, wanted with
        | some a, some b => compare (.finite a) b
        | _, _ => false
      actual := length.map toString
      failure := if length.isNone = true then some "目标值不是数组，无法计算长度" else none }

/-- Compare the type of the selected value. -/
def judgeType (actual : Option String) : Option Judgement :=
  (selectedValue library assertion context).map fun value =>
    match value with
    | none => ⟨false, actual, none⟩
    | some value =>
      ⟨decide (jsonType value = assertion.expected.getD ""), some (jsonType value), none⟩

/-- Apply the operator of an assertion to the value it is about. -/
def judge (actual : Option String) : Option Judgement :=
  let expected := assertion.expected
  match assertion.operator with
  | .exists => some ⟨actual.isSome, actual, none⟩
  | .notExists => some ⟨actual.isNone, actual, none⟩
  | .equals => some ⟨decide (actual = expected), actual, none⟩
  | .notEquals => some ⟨decide (actual ≠ expected), actual, none⟩
  | .contains =>
    some ⟨match actual, expected with
      | some a, some e => occursIn e.toList a.toList
      | _, _ => false, actual, none⟩
  | .notContains =>
    some ⟨match actual, expected with
      | some a, some e => !occursIn e.toList a.toList
      | _, _ => false, actual, none⟩
  | .isIn =>
    some ⟨match expected with
      | some items => (items.toList.splitOn ',').any fun item =>
        actual = some (String.ofList (trimChars item))
      | none => false, actual, none⟩
  | .greaterThan => some ⟨numericCompare actual expected fun a b => b.lt a, actual, none⟩
  | .lessThan => some ⟨numericCompare actual expected fun a b => a.lt b, actual, none⟩
  | .typeIs => judgeType library assertion context actual
  | .lengthEquals => judgeLength library assertion context fun a b => a.eq b
  | .lengthGreaterThan => judgeLength library assertion context fun a b => b.lt a
  | .lengthLessThan => judgeLength library assertion context fun a b => a.lt b

def result (passed : Bool) (actual message : Option String) : AssertionResultEvent where
  ruleId := assertion.id
  name := assertionName assertion
  passed := passed
  expected := assertion.expected
  actual := actual
  message := message

/-- The value that a result shows: a body is shortened. -/
def shownActual (actual : Option String) : Option (Option String) :=
  if assertion.target = .body then
    match actual with
    | none => some none
    | some text => (truncate text 200).map some
  else some actual

/-- The result of an assertion; `none` where the program would stop. -/
def evaluate : Option AssertionResultEvent :=
  (targetValue library assertion context).bind fun target =>
    match target with
    | .error message => some (result assertion false none (some message))
    | .ok actual =>
      (judge library assertion context actual).bind fun judgement =>
        let failure :=
          if judgement.passed = false ∧ judgement.failure = none then
            some (if judgement.actual = none then "定位路径或响应字段不存在"
              else "实际值不满足比较条件")
          else judgement.failure
        (shownActual assertion judgement.actual).map fun shown =>
          result assertion judgement.passed shown failure

/-- The results of the enabled assertions, in their order. -/
def runAssertions (assertions : List Assertion) : Option (List AssertionResultEvent) :=
  (assertions.filter fun assertion => assertion.enabled).mapM fun assertion =>
    evaluate library assertion context

/-! ## One result for each enabled assertion -/

/-- Does an assertion show the body itself? The operators for lengths and types show what they
found instead. -/
def showsBody : Bool :=
  decide (assertion.target = .body) &&
    match assertion.operator with
    | .typeIs => decide (selectedValue library assertion context = some none)
    | .lengthEquals | .lengthGreaterThan | .lengthLessThan => false
    | _ => true

/-- Can a text be shortened to a number of bytes? It is not longer, or a character ends there. -/
def CutsAt (max : Nat) (text : List Char) : Prop :=
  byteSize text ≤ max ∨ ∃ front back, text = front ++ back ∧ byteSize front = max

theorem isSome_truncate_iff (text : String) (max : Nat) :
    (truncate text max).isSome = true ↔ CutsAt max text.toList := by
  rw [truncate, CutsAt]
  split
  · rename_i hshort
    simp [hshort]
  · rename_i hlong
    have hsplit : (takeBytes max text.toList).isSome = true ↔
        ∃ front back, text.toList = front ++ back ∧ byteSize front = max := by
      rw [takeBytes, Option.isSome_map, Option.isSome_iff_exists]
      constructor
      · rintro ⟨⟨front, back⟩, h⟩
        exact ⟨front, back, splitAtByte_eq_some_iff.mp h⟩
      · rintro ⟨front, back, h⟩
        exact ⟨(front, back), splitAtByte_eq_some_iff.mpr h⟩
    rw [Option.isSome_map, hsplit]
    exact ⟨Or.inr, fun h => h.resolve_left hlong⟩

/-- A text of characters of one byte can be shortened to any number of bytes. -/
theorem cutsAt_of_ascii {text : List Char} (h : ∀ c ∈ text, c.utf8Size = 1) (max : Nat) :
    CutsAt max text := by
  have hsize : ∀ front : List Char, (∀ c ∈ front, c.utf8Size = 1) →
      byteSize front = front.length := by
    intro front hfront
    induction front with
    | nil => rfl
    | cons c front ih =>
      rw [List.forall_mem_cons] at hfront
      rw [byteSize_cons, hfront.1, ih hfront.2, List.length_cons, Nat.add_comm]
  by_cases hlong : text.length ≤ max
  · exact Or.inl (by rwa [hsize text h])
  · refine Or.inr ⟨text.take max, text.drop max, (List.take_append_drop max text).symm, ?_⟩
    rw [hsize _ fun c hc => h c (List.mem_of_mem_take hc), List.length_take]
    omega

theorem isSome_jsonPathGet (body path : String) : (jsonPathGet library body path).isSome = true := by
  rw [jsonPathGet]
  split
  · rfl
  · rw [locate, Option.isSome_map]
    exact isSome_toJsonPointer path

theorem selectedValue_eq_some : ∃ value, selectedValue library assertion context = some value := by
  rw [← Option.isSome_iff_exists, selectedValue, Option.isSome_map]
  exact isSome_jsonPathGet library _ _

theorem targetValue_eq_some : ∃ target, targetValue library assertion context = some target := by
  rw [← Option.isSome_iff_exists, targetValue]
  split
  all_goals first | rfl | skip
  rw [Option.isSome_map]
  exact isSome_jsonPathGet library _ _

theorem utf8Size_of_isDigit {c : Char} (h : c.isDigit = true) : c.utf8Size = 1 := by
  have hrange : c.toNat ≤ 57 := by
    have hboth : 48 ≤ c.toNat ∧ c.toNat ≤ 57 := by
      simpa [Char.isDigit, UInt32.le_iff_toNat_le] using h
    exact hboth.2
  have hsmall : c.val ≤ 0x7f := by
    rw [UInt32.le_iff_toNat_le]
    exact hrange.trans (by decide)
  unfold Char.utf8Size
  exact if_pos hsmall

theorem utf8Size_of_mem_toString {n : Nat} {c : Char} (h : c ∈ (toString n).toList) :
    c.utf8Size = 1 := by
  rw [Nat.toString_eq_ofList_toDigits, String.toList_ofList] at h
  exact utf8Size_of_isDigit (JsonText.isDigit_toDigits n c h)

theorem utf8Size_of_mem_jsonType (value : Json) : ∀ c ∈ (jsonType value).toList, c.utf8Size = 1 := by
  cases value
  all_goals
    rw [jsonType]
    decide

/-- A body assertion shows the body itself, a length or a type. -/
theorem judge_body (hbody : assertion.target = .body) :
    ∃ judgement, judge library assertion context (some context.body) = some judgement ∧
      (showsBody library assertion context = true → judgement.actual = some context.body) ∧
      (showsBody library assertion context = false → ∀ text, judgement.actual = some text →
        ∀ c ∈ text.toList, c.utf8Size = 1) := by
  obtain ⟨value, hvalue⟩ := selectedValue_eq_some library assertion context
  have hlength : ∀ compare, ∃ judgement, judgeLength library assertion context compare =
      some judgement ∧ ∀ text, judgement.actual = some text → ∀ c ∈ text.toList, c.utf8Size = 1 := by
    intro compare
    refine ⟨_, by rw [judgeLength, hvalue, Option.map_some], fun text htext c hc => ?_⟩
    obtain ⟨n, -, rfl⟩ := Option.map_eq_some_iff.mp htext
    exact utf8Size_of_mem_toString hc
  cases hop : assertion.operator
  case typeIs =>
    have hjudge : judge library assertion context (some context.body) =
        judgeType library assertion context (some context.body) := by
      unfold judge
      rw [hop]
    have hshows : showsBody library assertion context = decide (value = none) := by
      simp [showsBody, hbody, hop, hvalue]
    rw [hjudge, judgeType, hvalue, hshows]
    cases value with
    | none => exact ⟨_, rfl, fun _ => rfl, fun h => absurd h (by decide)⟩
    | some value =>
      refine ⟨_, rfl, fun h => absurd h (by simp), fun _ text htext c hc => ?_⟩
      cases htext
      exact utf8Size_of_mem_jsonType value c hc
  case lengthEquals | lengthGreaterThan | lengthLessThan =>
    have hshows : showsBody library assertion context = false := by
      simp [showsBody, hop]
    obtain ⟨judgement, hjudge, hascii⟩ := hlength _
    refine ⟨judgement, ?_, fun h => ?_, fun _ => hascii⟩
    · unfold judge
      rw [hop]
      exact hjudge
    · rw [hshows] at h
      cases h
  all_goals
    have hshows : showsBody library assertion context = true := by
      simp [showsBody, hbody, hop]
    have hjudge : ∃ judgement, judge library assertion context (some context.body) =
        some judgement ∧ judgement.actual = some context.body := by
      unfold judge
      rw [hop]
      exact ⟨_, rfl, rfl⟩
    obtain ⟨judgement, hjudge, hactual⟩ := hjudge
    refine ⟨judgement, hjudge, fun _ => hactual, fun h => ?_⟩
    rw [hshows] at h
    cases h

theorem judge_eq_some (actual : Option String) :
    ∃ judgement, judge library assertion context actual = some judgement := by
  obtain ⟨value, hvalue⟩ := selectedValue_eq_some library assertion context
  unfold judge judgeType judgeLength
  rw [hvalue]
  cases assertion.operator <;> exact ⟨_, rfl⟩

/-- The program only stops where it shortens a body inside a character. -/
theorem isSome_evaluate_iff :
    (evaluate library assertion context).isSome = true ↔
      (showsBody library assertion context = true → CutsAt 200 context.body.toList) := by
  by_cases hbody : assertion.target = .body
  · obtain ⟨judgement, hjudge, hshown, hascii⟩ := judge_body library assertion context hbody
    have htarget : targetValue library assertion context = some (.ok (some context.body)) := by
      rw [targetValue, hbody]
    have hevaluate : (evaluate library assertion context).isSome =
        (shownActual assertion judgement.actual).isSome := by
      rw [evaluate, htarget, Option.bind_some]
      dsimp only
      rw [hjudge, Option.bind_some, Option.isSome_map]
    rw [hevaluate]
    unfold shownActual
    rw [if_pos hbody]
    by_cases hshows : showsBody library assertion context = true
    · rw [hshown hshows]
      dsimp only
      rw [Option.isSome_map, isSome_truncate_iff]
      simp only [hshows, forall_const]
    · have hfalse : showsBody library assertion context = false := Bool.eq_false_iff.mpr hshows
      refine iff_of_true ?_ fun h => absurd h hshows
      cases hactual : judgement.actual with
      | none => rfl
      | some text =>
        dsimp only
        rw [Option.isSome_map, isSome_truncate_iff]
        exact cutsAt_of_ascii (hascii hfalse text hactual) 200
  · obtain ⟨target, htarget⟩ := targetValue_eq_some library assertion context
    have hshows : showsBody library assertion context = false := by
      simp [showsBody, hbody]
    rw [hshows]
    refine iff_of_true ?_ fun h => absurd h Bool.false_ne_true
    rw [evaluate, htarget, Option.bind_some]
    cases target with
    | error message => rfl
    | ok actual =>
      obtain ⟨judgement, hjudge⟩ := judge_eq_some library assertion context actual
      dsimp only
      rw [hjudge, Option.bind_some, Option.isSome_map]
      unfold shownActual
      rw [if_neg hbody]
      rfl

/-- A result names the assertion that it is about. -/
theorem evaluate_eq_some {event : AssertionResultEvent}
    (h : evaluate library assertion context = some event) :
    event.ruleId = assertion.id ∧ event.name = assertionName assertion ∧
      event.expected = assertion.expected := by
  obtain ⟨target, -, hevent⟩ := Option.bind_eq_some_iff.mp h
  cases target with
  | error message =>
    cases hevent
    exact ⟨rfl, rfl, rfl⟩
  | ok actual =>
    obtain ⟨judgement, -, hshown⟩ := Option.bind_eq_some_iff.mp hevent
    obtain ⟨shown, -, rfl⟩ := Option.map_eq_some_iff.mp hshown
    exact ⟨rfl, rfl, rfl⟩

end Evaluation

/-- A function is applied to all items exactly when it is defined on each of them. -/
theorem mapM_eq_some_iff {α β : Type} {f : α → Option β} {items : List α} {values : List β} :
    items.mapM f = some values ↔ List.Forall₂ (fun item value => f item = some value) items values := by
  induction items generalizing values with
  | nil =>
    rw [List.mapM_nil, List.forall₂_nil_left_iff]
    exact ⟨fun h => (Option.some.inj h).symm, fun h => congrArg some h.symm⟩
  | cons item items ih =>
    rw [List.mapM_cons, List.forall₂_cons_left_iff]
    constructor
    · intro h
      obtain ⟨value, hvalue, hrest⟩ := Option.bind_eq_some_iff.mp h
      obtain ⟨rest, hvalues, heq⟩ := Option.bind_eq_some_iff.mp hrest
      exact ⟨value, rest, hvalue, ih.mp hvalues, (Option.some.inj heq).symm⟩
    · rintro ⟨value, rest, hvalue, hrest, rfl⟩
      rw [hvalue, ih.mpr hrest]
      rfl

theorem exists_mapM_iff {α β : Type} {f : α → Option β} {items : List α} :
    (∃ values, items.mapM f = some values) ↔ ∀ item ∈ items, (f item).isSome = true := by
  constructor
  · rintro ⟨values, hvalues⟩ item hitem
    have hall := mapM_eq_some_iff.mp hvalues
    induction hall with
    | nil => cases hitem
    | cons hvalue hrest ih =>
      rcases List.mem_cons.mp hitem with rfl | hmem
      · rw [hvalue, Option.isSome_some]
      · exact ih (mapM_eq_some_iff.mpr hrest) hmem
  · intro h
    induction items with
    | nil => exact ⟨[], rfl⟩
    | cons item items ih =>
      rw [List.forall_mem_cons] at h
      obtain ⟨value, hvalue⟩ := Option.isSome_iff_exists.mp h.1
      obtain ⟨values, hvalues⟩ := ih h.2
      exact ⟨value :: values, mapM_eq_some_iff.mpr (.cons hvalue (mapM_eq_some_iff.mp hvalues))⟩

section Results

variable (library : JsonLibrary) (context : AssertionContext)

/-- Every enabled assertion has its result, in order, exactly when no enabled assertion shows a
body that is to be cut inside a character. -/
theorem runAssertions_iff (assertions : List Assertion) :
    (∃ events, runAssertions library context assertions = some events ∧
        List.Forall₂
          (fun assertion event => event.ruleId = assertion.id ∧
            event.name = assertionName assertion ∧ event.expected = assertion.expected)
          (assertions.filter fun assertion => assertion.enabled) events) ↔
      ∀ assertion ∈ assertions, assertion.enabled = true →
        showsBody library assertion context = true → CutsAt 200 context.body.toList := by
  have hresults : ∀ events, runAssertions library context assertions = some events →
      List.Forall₂
        (fun assertion event => event.ruleId = assertion.id ∧
          event.name = assertionName assertion ∧ event.expected = assertion.expected)
        (assertions.filter fun assertion => assertion.enabled) events := by
    intro events hevents
    exact (mapM_eq_some_iff.mp hevents).imp fun assertion event h =>
      evaluate_eq_some library assertion context h
  have htotal : (∃ events, runAssertions library context assertions = some events) ↔
      ∀ assertion ∈ assertions.filter fun assertion => assertion.enabled,
        (evaluate library assertion context).isSome = true := exists_mapM_iff
  constructor
  · rintro ⟨events, hevents, -⟩ assertion hmem henabled
    exact (isSome_evaluate_iff library assertion context).mp
      (htotal.mp ⟨events, hevents⟩ assertion (List.mem_filter.mpr ⟨hmem, henabled⟩))
  · intro h
    obtain ⟨events, hevents⟩ := htotal.mpr fun assertion hassertion => by
      obtain ⟨hmem, henabled⟩ := List.mem_filter.mp hassertion
      exact (isSome_evaluate_iff library assertion context).mpr (h assertion hmem henabled)
    exact ⟨events, hevents, hresults events hevents⟩

end Results

/-- A body whose two hundredth byte lies inside a character. -/
def longBody : List Char := List.replicate 199 'a' ++ ['中']

/-- A body assertion that is met still stops the program. -/
theorem runAssertions_iff_not :
    ¬∀ (library : JsonLibrary) (context : AssertionContext) (assertions : List Assertion),
      ∃ events, runAssertions library context assertions = some events := by
  intro h
  have hevents := h ⟨fun _ => .error "", fun _ => ""⟩ ⟨none, [], String.ofList longBody, 0, 202⟩
    [⟨"rule", true, .body, .contains, none, some "a"⟩]
  have hone := exists_mapM_iff.mp hevents _ List.mem_cons_self
  rcases (isSome_evaluate_iff _ _ _).mp hone rfl with hshort | ⟨front, back, hsplit⟩
  · rw [String.toList_ofList] at hshort
    exact absurd hshort (by decide +kernel)
  · rw [String.toList_ofList] at hsplit
    have hcut := splitAtByte_eq_some_iff.mpr hsplit
    have hnone : splitAtByte 200 longBody = none := by decide +kernel
    rw [hnone] at hcut
    cases hcut

/-! ## What an assertion judges -/

/-- Does an operator take the value of the target? The other ones look up the selected value in
the body. -/
def judgesTarget : AssertionOperator → Bool
  | .typeIs | .lengthEquals | .lengthGreaterThan | .lengthLessThan => false
  | _ => true

/-- Do two responses agree on the target of an assertion? -/
def AgreeOn (assertion : Assertion) (first second : AssertionContext) : Prop :=
  match assertion.target with
  | .status => first.status = second.status
  | .header =>
    findHeader first.headers (assertion.selector.getD "") =
      findHeader second.headers (assertion.selector.getD "")
  | .duration => first.durationMs = second.durationMs
  | .size => first.bytesReceived = second.bytesReceived
  | .body | .jsonPath => first.body = second.body

section Targets

variable (library : JsonLibrary) (assertion : Assertion)

theorem targetValue_congr {first second : AssertionContext} (h : AgreeOn assertion first second) :
    targetValue library assertion first = targetValue library assertion second := by
  unfold AgreeOn at h
  unfold targetValue
  cases htarget : assertion.target <;> rw [htarget] at h <;> dsimp only at h ⊢ <;> rw [h]

theorem judge_congr {first second : AssertionContext} (actual : Option String)
    (h : judgesTarget assertion.operator = true ∨
      selectedValue library assertion first = selectedValue library assertion second) :
    judge library assertion first actual = judge library assertion second actual := by
  cases h with
  | inl hoperator =>
    unfold judge
    revert hoperator
    cases assertion.operator <;> intro hoperator <;> first | rfl | cases hoperator
  | inr hselected =>
    unfold judge judgeType judgeLength
    rw [hselected]

/-- The value of a target with a path that can be evaluated. -/
theorem targetValue_ok {context : AssertionContext}
    (h : assertion.target = .jsonPath → ∃ value,
      jsonPathGet library context.body (assertion.selector.getD "$") = some (.ok value)) :
    ∃ actual, targetValue library assertion context = some (.ok actual) := by
  unfold targetValue
  cases htarget : assertion.target
  case jsonPath =>
    obtain ⟨value, hvalue⟩ := h htarget
    dsimp only
    rw [hvalue]
    exact ⟨_, rfl⟩
  all_goals exact ⟨_, rfl⟩

/-- The verdict on a value that an operator judges without looking further. -/
theorem passed_evaluate {context : AssertionContext} {actual : Option String} {passed : Bool}
    (htarget : targetValue library assertion context = some (.ok actual))
    (hjudge : judge library assertion context actual = some ⟨passed, actual, none⟩) :
    (evaluate library assertion context).map AssertionResultEvent.passed =
      (shownActual assertion actual).map fun _ => passed := by
  rw [evaluate, htarget, Option.bind_some]
  dsimp only
  rw [hjudge, Option.bind_some, Option.map_map]
  rfl

/-- The operators other than the ones for types and lengths judge the target only. Those judge
the value that the selector finds in the body as well. Equality and existence have an opposite,
on every response on which the path can be evaluated. -/
theorem evaluate_judges :
    (∀ first second, judgesTarget assertion.operator = true → AgreeOn assertion first second →
        evaluate library assertion first = evaluate library assertion second) ∧
      (∀ first second, judgesTarget assertion.operator = false → AgreeOn assertion first second →
        selectedValue library assertion first = selectedValue library assertion second →
        evaluate library assertion first = evaluate library assertion second) ∧
      ∀ context,
        (assertion.target = .jsonPath → ∃ value,
          jsonPathGet library context.body (assertion.selector.getD "$") = some (.ok value)) →
        (evaluate library { assertion with operator := .notEquals } context).map
            AssertionResultEvent.passed =
          (evaluate library { assertion with operator := .equals } context).map (!·.passed) ∧
        (evaluate library { assertion with operator := .notExists } context).map
            AssertionResultEvent.passed =
          (evaluate library { assertion with operator := .exists } context).map (!·.passed) := by
  have hcongr : ∀ first second, AgreeOn assertion first second →
      (judgesTarget assertion.operator = true ∨
        selectedValue library assertion first = selectedValue library assertion second) →
      evaluate library assertion first = evaluate library assertion second := by
    intro first second hagree hjudges
    have htarget := targetValue_congr library assertion hagree
    unfold evaluate
    rw [htarget]
    congr 1
    funext target
    cases target with
    | error message => rfl
    | ok actual =>
      dsimp only
      rw [judge_congr library assertion actual hjudges]
  refine ⟨fun first second hop hagree => hcongr first second hagree (Or.inl hop),
    fun first second _ hagree hselected => hcongr first second hagree (Or.inr hselected),
    fun context hpath => ?_⟩
  obtain ⟨actual, htarget⟩ := targetValue_ok library assertion hpath
  have hpassed : ∀ operator passed,
      judge library { assertion with operator := operator } context actual =
        some ⟨passed, actual, none⟩ →
      (evaluate library { assertion with operator := operator } context).map
          AssertionResultEvent.passed =
        (shownActual assertion actual).map fun _ => passed :=
    fun operator passed hjudge =>
      passed_evaluate library { assertion with operator := operator } htarget hjudge
  have hnot : ∀ operator passed,
      judge library { assertion with operator := operator } context actual =
        some ⟨passed, actual, none⟩ →
      (evaluate library { assertion with operator := operator } context).map (!·.passed) =
        (shownActual assertion actual).map fun _ => !passed := by
    intro operator passed hjudge
    have hmap := congrArg (Option.map fun b => !b) (hpassed operator passed hjudge)
    rw [Option.map_map, Option.map_map] at hmap
    exact hmap
  constructor
  · rw [hpassed .notEquals _ rfl, hnot .equals _ rfl]
    simp
  · rw [hpassed .notExists _ rfl, hnot .exists _ rfl]
    cases actual <;> rfl

end Targets

def sampleLibrary : JsonLibrary where
  fromStr body := match JsonText.parseChars body.toList with
    | some value => .ok value
    | none => .error "expected value"
  display value := Script.stringify .ascii 0 value

/-- The status decides an assertion on it, whatever the rest of the response is. -/
theorem evaluate_judges_status :
    evaluate sampleLibrary ⟨"rule", true, .status, .equals, none, some "200"⟩
        ⟨some 200, [], "", 5, 0⟩ =
      evaluate sampleLibrary ⟨"rule", true, .status, .equals, none, some "200"⟩
        ⟨some 200, [("a", "b")], "text", 9, 4⟩ :=
  (evaluate_judges sampleLibrary _).1 _ _ rfl rfl

def typedStatus : Assertion := ⟨"rule", true, .status, .typeIs, none, some "object"⟩

/-- Two responses with the same status have different results. -/
theorem evaluate_judges_not :
    ¬∀ (library : JsonLibrary) (assertion : Assertion) (first second : AssertionContext),
      assertion.target = .status → first.status = second.status →
        evaluate library assertion first = evaluate library assertion second := by
  intro h
  have hequal := h sampleLibrary typedStatus ⟨some 200, [], "\x7b\x7d", 5, 2⟩
    ⟨some 200, [], "[]", 5, 2⟩ rfl rfl
  have hpassed := congrArg (Option.map AssertionResultEvent.passed) hequal
  revert hpassed
  decide

end ApiVoy.Engine
