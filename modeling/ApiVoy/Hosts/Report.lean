/-
# The JUnit report of the command line

A collection run is reported as a test suite with a test case for every request. Names and
messages are read back from the report exactly when they are lines of characters that XML allows,
and the failures that are counted are those that are listed exactly when the cases with a message
are those that have not passed.
-/

import ApiVoy.Foundation.Pointer
import ApiVoy.Foundation.Xml
import ApiVoy.Hosts.Extraction
import Mathlib

namespace ApiVoy.Hosts

open Foundation

/-! ## Durations -/

/-- Milliseconds as seconds, in doubles. -/
def seconds (durationMs : UInt64) : Double :=
  match Double.ofNonneg durationMs.toNat with
  | .finite value => Double.ofNonneg (value / 1000)
  | other => other

/-- A double with three digits behind the point. -/
def threeDigits : Double → String
  | .nan => "NaN"
  | .infinite negative => if negative then "-inf" else "inf"
  | .finite value =>
    let thousandths := (Double.roundHalfEven (|value| * 1000)).toNat
    let sign := if value < 0 then "-" else ""
    let padded := (toString (1000 + thousandths % 1000)).toList.drop 1
    sign ++ toString (thousandths / 1000) ++ "." ++ String.ofList padded

/-! ## Documents -/

def xmlEscape (value : String) : String :=
  String.ofList (Pointer.replaceChar '"' "&quot;".toList (Pointer.replaceChar '>' "&gt;".toList
    (Pointer.replaceChar '<' "&lt;".toList (Pointer.replaceChar '&' "&amp;".toList value.toList))))

def RunCase.failureMessage (case : RunCase) : Option String :=
  case.error.or
    (if case.failedAssertions.isEmpty then none
    else some ("assertions failed: " ++ ", ".intercalate case.failedAssertions))

def junitFailure (case : RunCase) : String :=
  match case.failureMessage with
  | some message => "<failure message=\"" ++ xmlEscape message ++ "\"/>"
  | none => ""

def junitCase (case : RunCase) : String :=
  "<testcase name=\"[iteration " ++ toString case.iteration ++ "] " ++ xmlEscape case.name ++
    "\" classname=\"" ++ xmlEscape case.protocolId ++
    "\" time=\"" ++ threeDigits (seconds case.durationMs) ++ "\">" ++ junitFailure case ++
    "</testcase>"

def junit (cases : List RunCase) : String :=
  let failures := (cases.filter fun case => !case.passed).length
  let body := String.join (cases.map junitCase)
  "<?xml version=\"1.0\" encoding=\"UTF-8\"?><testsuite name=\"ApiVoy\" tests=\"" ++
    toString cases.length ++ "\" failures=\"" ++ toString failures ++ "\">" ++ body ++
    "</testsuite>"

example : threeDigits (seconds 1234) = "1.234" := by decide +kernel

/-! ## What is reported -/

/-- The name of the test case of a request. -/
def RunCase.title (case : RunCase) : String :=
  "[iteration " ++ toString case.iteration ++ "] " ++ case.name

/-- A document has the cases with their names, a failure with its message for every case that has
not passed, and their numbers. -/
structure Reported (cases : List RunCase) (root : Xml.Node) : Prop where
  names : (root.elements "testcase").map (Xml.Node.get "name") =
    cases.map fun case => some case.title
  classnames : (root.elements "testcase").map (Xml.Node.get "classname") =
    cases.map fun case => some case.protocolId
  messages : (root.elements "testcase").map
      (fun case => (case.elements "failure").map (Xml.Node.get "message")) =
    cases.map fun case => if case.passed then [] else [case.failureMessage]
  tests : root.get "tests" = some (toString (root.elements "testcase").length)
  failures : root.get "failures" =
    some (toString ((root.elements "testcase").flatMap (Xml.Node.elements "failure")).length)

/-- One line of characters that XML allows. -/
def IsLine (text : String) : Prop :=
  ∀ c ∈ text.toList, Xml.isChar c = true ∧ c ≠ '\t' ∧ c ≠ '\n' ∧ c ≠ '\r'

instance (text : String) : Decidable (IsLine text) :=
  inferInstanceAs (Decidable (∀ c ∈ text.toList, _))

/-- The texts of a case are lines, and it has a message exactly when it has not passed. -/
structure RunCase.Reportable (case : RunCase) : Prop where
  name : IsLine case.name
  protocolId : IsLine case.protocolId
  error : ∀ message, case.error = some message → IsLine message
  assertions : case.error = none → ∀ assertion ∈ case.failedAssertions, IsLine assertion
  failed : case.passed = false ↔ case.error ≠ none ∨ case.failedAssertions ≠ []

/-! ## Texts -/

theorem toList_xmlEscape (value : String) : (xmlEscape value).toList = Xml.escape value.toList := by
  rw [xmlEscape, String.toList_ofList]
  induction value.toList with
  | nil => rfl
  | cons c value ih =>
    rw [Xml.escape_cons, ← ih, Pointer.replaceChar_cons]
    by_cases hand : c = '&'
    · subst hand
      rfl
    by_cases hless : c = '<'
    · subst hless
      rfl
    by_cases hgreater : c = '>'
    · subst hgreater
      rfl
    by_cases hquote : c = '"'
    · subst hquote
      rfl
    rw [if_neg hand, List.singleton_append, Pointer.replaceChar_cons, if_neg hless,
      List.singleton_append, Pointer.replaceChar_cons, if_neg hgreater, List.singleton_append,
      Pointer.replaceChar_cons, if_neg hquote, Xml.escapeChar, if_neg hand, if_neg hless,
      if_neg hgreater, if_neg hquote]

theorem isPlain_toString {n : Nat} {c : Char} (h : c ∈ (toString n).toList) :
    Xml.isPlain c = true := by
  rw [Nat.toString_eq_ofList_toDigits, String.toList_ofList] at h
  exact Xml.isPlain_of_isDigit (Nat.isDigit_of_mem_toDigits (by decide) (by decide) h)

theorem isPlain_threeDigits (value : Double) :
    ∀ c ∈ (threeDigits value).toList, Xml.isPlain c = true := by
  cases value with
  | nan => decide
  | infinite negative => cases negative <;> decide
  | finite value =>
    intro c hc
    simp only [threeDigits, String.toList_append, String.toList_ofList, List.mem_append] at hc
    rcases hc with ((hsign | hwhole) | hpoint) | hpadded
    · have hminus : ∀ d ∈ "-".toList, Xml.isPlain d = true := by decide
      split_ifs at hsign
      · exact hminus c hsign
      · cases hsign
    · exact isPlain_toString hwhole
    · have hall : ∀ d ∈ ".".toList, Xml.isPlain d = true := by decide
      exact hall c hpoint
    · exact isPlain_toString (List.mem_of_mem_drop hpadded)

theorem escape_title (case : RunCase) : Xml.escape case.title.toList =
    "[iteration ".toList ++ ((toString case.iteration).toList ++
      ("] ".toList ++ (xmlEscape case.name).toList)) := by
  have hopening : Xml.escape "[iteration ".toList = "[iteration ".toList :=
    Xml.escape_of_isPlain (by decide)
  have hclosing : Xml.escape "] ".toList = "] ".toList := Xml.escape_of_isPlain (by decide)
  rw [RunCase.title, String.toList_append, String.toList_append, String.toList_append,
    Xml.escape_append, Xml.escape_append, Xml.escape_append, hopening, hclosing,
    Xml.escape_of_isPlain fun _ => isPlain_toString, toList_xmlEscape, List.append_assoc,
    List.append_assoc]

/-! ## Reading the report -/

/-- A text of characters that XML allows. -/
def IsLegal (text : String) : Prop := ∀ c ∈ text.toList, Xml.isChar c = true

structure RunCase.Legal (case : RunCase) : Prop where
  name : IsLegal case.name
  protocolId : IsLegal case.protocolId
  message : ∀ message, case.failureMessage = some message → IsLegal message

def readAttribute (key value : String) : List Char × List Char :=
  (key.toList, Xml.normalizeValue value.toList)

def failureNode (message : String) : Xml.Node :=
  .element ⟨"failure".toList, [readAttribute "message" message]⟩ []

def caseNode (case : RunCase) : Xml.Node :=
  .element ⟨"testcase".toList,
    [readAttribute "name" case.title, readAttribute "classname" case.protocolId,
      readAttribute "time" (threeDigits (seconds case.durationMs))]⟩
    (case.failureMessage.toList.map failureNode)

def reportTag (cases : List RunCase) : Xml.Tag :=
  ⟨"testsuite".toList,
    [readAttribute "name" "ApiVoy", readAttribute "tests" (toString cases.length),
      readAttribute "failures" (toString (cases.filter fun case => !case.passed).length)]⟩

section Reading

variable {stack : List (Xml.Tag × List Xml.Node)} {suite : Xml.Tag} {nodes : List Xml.Node}

theorem reads_markup {reader : Xml.Reader} {markup : String} (tag : Xml.Tag) (key : String)
    {root : Option Xml.Node} (hreturn : '\r' ∉ markup.toList)
    (h : markup.toList.foldlM Xml.Reader.step reader =
      some ⟨stack, root, .value tag key.toList '"' []⟩) :
    Xml.Reads reader markup.toList ⟨stack, root, .value tag key.toList '"' []⟩ :=
  Xml.Reads.of_foldlM hreturn h

theorem reads_junitFailure {case : RunCase} (h : case.Legal) :
    Xml.Reads ⟨(suite, []) :: stack, none, .content [] 0⟩ (junitFailure case).toList
      ⟨(suite, case.failureMessage.toList.map failureNode) :: stack, none, .content [] 0⟩ := by
  cases hmessage : case.failureMessage with
  | none =>
    rw [junitFailure, hmessage]
    exact Xml.Reads.nil _
  | some message =>
    have htext : (junitFailure case).toList = "<failure message=\"".toList ++
        ((Xml.escape message.toList ++ ['"']) ++ "/>".toList) := by
      rw [junitFailure, hmessage]
      simp only [String.toList_append, toList_xmlEscape, List.append_assoc]
      rfl
    rw [htext]
    refine (Xml.Reads.of_foldlM (by decide) rfl).append
      ((Xml.reads_value (fun _ h => absurd h List.not_mem_nil) (h.message message hmessage)
        []).append (Xml.Reads.of_foldlM (by decide) rfl))

theorem isChar_title {case : RunCase} (h : case.Legal) :
    ∀ c ∈ case.title.toList, Xml.isChar c = true := by
  have hopening : ∀ c ∈ "[iteration ".toList, Xml.isChar c = true := by decide
  have hclosing : ∀ c ∈ "] ".toList, Xml.isChar c = true := by decide
  intro c hc
  rw [RunCase.title, String.toList_append, String.toList_append, String.toList_append,
    List.mem_append, List.mem_append, List.mem_append] at hc
  rcases hc with ((hc | hc) | hc) | hc
  · exact hopening c hc
  · exact Xml.isChar_of_isPlain (fun _ => isPlain_toString) c hc
  · exact hclosing c hc
  · exact h.name c hc

/-- A case is read as an element behind those before it. -/
theorem reads_junitCase {case : RunCase} (h : case.Legal) :
    Xml.Reads ⟨(suite, nodes) :: stack, none, .content [] 0⟩ (junitCase case).toList
      ⟨(suite, nodes ++ [caseNode case]) :: stack, none, .content [] 0⟩ := by
  have htime := isPlain_threeDigits (seconds case.durationMs)
  have htext : (junitCase case).toList = "<testcase name=\"".toList ++
      ((Xml.escape case.title.toList ++ ['"']) ++ (" classname=\"".toList ++
      ((Xml.escape case.protocolId.toList ++ ['"']) ++ (" time=\"".toList ++
      ((Xml.escape (threeDigits (seconds case.durationMs)).toList ++ ['"']) ++ (">".toList ++
      ((junitFailure case).toList ++ "</testcase>".toList))))))) := by
    have hname : "<testcase name=\"[iteration ".toList =
        "<testcase name=\"".toList ++ "[iteration ".toList := by decide
    have hclassname : "\" classname=\"".toList = ['"'] ++ " classname=\"".toList := by decide
    have hseconds : "\" time=\"".toList = ['"'] ++ " time=\"".toList := by decide
    have hend : "\">".toList = ['"'] ++ ">".toList := by decide
    rw [escape_title, Xml.escape_of_isPlain htime, ← toList_xmlEscape]
    unfold junitCase
    simp only [String.toList_append, hname, hclassname, hseconds, hend,
      List.append_assoc]
  rw [htext]
  refine (reads_markup ⟨"testcase".toList, []⟩ "name" (by decide) rfl).append
    ((Xml.reads_value (fun _ h => absurd h List.not_mem_nil) (isChar_title h) []).append ?_)
  refine (reads_markup _ "classname" (by decide) rfl).append
    ((Xml.reads_value (by simp) h.protocolId []).append ?_)
  refine (reads_markup _ "time" (by decide) rfl).append
    ((Xml.reads_value (by simp) (Xml.isChar_of_isPlain htime) []).append ?_)
  exact (Xml.Reads.of_foldlM (by decide) rfl).append
    ((reads_junitFailure h).append (Xml.Reads.of_foldlM (by decide) rfl))

theorem reads_junitCases {cases : List RunCase} (h : ∀ case ∈ cases, case.Legal) :
    Xml.Reads ⟨(suite, nodes) :: stack, none, .content [] 0⟩
      (String.join (cases.map junitCase)).toList
      ⟨(suite, nodes ++ cases.map caseNode) :: stack, none, .content [] 0⟩ := by
  induction cases generalizing nodes with
  | nil =>
    rw [List.map_nil, List.map_nil, List.append_nil]
    exact Xml.Reads.nil _
  | cons case cases ih =>
    rw [List.map_cons, String.join_cons, String.toList_append, List.map_cons,
      List.append_cons]
    exact (reads_junitCase (h case List.mem_cons_self)).append
      (ih fun other hother => h other (List.mem_cons_of_mem _ hother))

end Reading

def reportNode (cases : List RunCase) : Xml.Node :=
  .element (reportTag cases) (cases.map caseNode)

variable {cases : List RunCase}

theorem read_junit (h : ∀ case ∈ cases, case.Legal) :
    Xml.read (junit cases).toList = some (reportNode cases) := by
  have htotal (n : Nat) : ∀ c ∈ (toString n).toList, Xml.isPlain c = true :=
    fun _ => isPlain_toString
  have htext : (junit cases).toList = Xml.declaration ++ ("<testsuite name=\"".toList ++
      ((Xml.escape "ApiVoy".toList ++ ['"']) ++ (" tests=\"".toList ++
      ((Xml.escape (toString cases.length).toList ++ ['"']) ++ (" failures=\"".toList ++
      ((Xml.escape (toString (cases.filter fun case => !case.passed).length).toList ++ ['"']) ++
      (">".toList ++ ((String.join (cases.map junitCase)).toList ++
      "</testsuite>".toList)))))))) := by
    have hname : Xml.escape "ApiVoy".toList = "ApiVoy".toList := Xml.escape_of_isPlain (by decide)
    have hopening :
        "<?xml version=\"1.0\" encoding=\"UTF-8\"?><testsuite name=\"ApiVoy\" tests=\"".toList =
          Xml.declaration ++ ("<testsuite name=\"".toList ++ ("ApiVoy".toList ++
            (['"'] ++ " tests=\"".toList))) := by decide
    have hfailures : "\" failures=\"".toList = ['"'] ++ " failures=\"".toList := by decide
    have hend : "\">".toList = ['"'] ++ ">".toList := by decide
    rw [hname, Xml.escape_of_isPlain (htotal _), Xml.escape_of_isPlain (htotal _)]
    unfold junit
    simp only [String.toList_append, hopening, hfailures, hend, List.append_assoc]
  rw [htext]
  refine Xml.read_of_reads ?_
  refine (reads_markup ⟨"testsuite".toList, []⟩ "name" (by decide) rfl).append
    ((Xml.reads_value (fun _ h => absurd h List.not_mem_nil) (by decide) []).append ?_)
  refine (reads_markup _ "tests" (by decide) rfl).append
    ((Xml.reads_value (by simp) (Xml.isChar_of_isPlain (htotal _)) []).append ?_)
  refine (reads_markup _ "failures" (by decide) rfl).append
    ((Xml.reads_value (by simp) (Xml.isChar_of_isPlain (htotal _)) []).append ?_)
  exact (Xml.Reads.of_foldlM (by decide) rfl).append
    ((reads_junitCases h).append (Xml.Reads.of_foldlM (by decide) rfl))

/-! ## What is read back -/

theorem elements_reportNode (cases : List RunCase) :
    (reportNode cases).elements "testcase" = cases.map caseNode := by
  rw [reportNode, Xml.Node.elements]
  refine List.filter_eq_self.mpr fun node hnode => ?_
  obtain ⟨case, -, rfl⟩ := List.mem_map.mp hnode
  simp [Xml.Node.isNamed, caseNode]

theorem elements_caseNode (case : RunCase) :
    (caseNode case).elements "failure" = case.failureMessage.toList.map failureNode := by
  rw [caseNode, Xml.Node.elements]
  refine List.filter_eq_self.mpr fun node hnode => ?_
  obtain ⟨message, -, rfl⟩ := List.mem_map.mp hnode
  simp [Xml.Node.isNamed, failureNode]

theorem isLine_iff {text : String} :
    IsLine text ↔ IsLegal text ∧ Xml.normalizeValue text.toList = text.toList := by
  rw [Xml.normalizeValue_eq_self_iff]
  exact forall₂_and

theorem isLine_append {first second : String} :
    IsLine (first ++ second) ↔ IsLine first ∧ IsLine second := by
  rw [IsLine, String.toList_append, List.forall_mem_append]
  rfl

theorem isLine_intercalate {texts : List String} :
    IsLine (", ".intercalate texts) ↔ ∀ text ∈ texts, IsLine text := by
  have hseparator : IsLine ", " := by decide
  induction texts with
  | nil => simp [IsLine]
  | cons text texts ih =>
    cases texts with
    | nil => simp
    | cons other texts =>
      rw [String.intercalate_cons_cons, isLine_append, isLine_append, List.forall_mem_cons,
        and_assoc]
      exact and_congr_right fun _ => (and_iff_right hseparator).trans ih

variable {case : RunCase}

theorem isLine_title : IsLine case.title ↔ IsLine case.name := by
  have hnumber : IsLine (toString case.iteration) := isLine_iff.mpr
    ⟨Xml.isChar_of_isPlain fun _ => isPlain_toString,
      Xml.normalizeValue_of_isPlain fun _ => isPlain_toString⟩
  have hopening : IsLine "[iteration " := by decide
  have hclosing : IsLine "] " := by decide
  rw [RunCase.title, isLine_append, isLine_append, isLine_append]
  exact and_iff_right ⟨⟨hopening, hnumber⟩, hclosing⟩

/-- A case has a message when there is an error or a failed assertion. -/
theorem failureMessage_ne_none_iff :
    case.failureMessage ≠ none ↔ case.error ≠ none ∨ case.failedAssertions ≠ [] := by
  rw [RunCase.failureMessage]
  cases case.error with
  | some message => simp
  | none =>
    cases case.failedAssertions with
    | nil => simp
    | cons assertion assertions => simp

theorem isLine_failureMessage_iff :
    (∀ message, case.failureMessage = some message → IsLine message) ↔
      (∀ message, case.error = some message → IsLine message) ∧
        (case.error = none → ∀ assertion ∈ case.failedAssertions, IsLine assertion) := by
  have hopening : IsLine "assertions failed: " := by decide
  rw [RunCase.failureMessage]
  cases case.error with
  | some message => simp
  | none =>
    cases hassertions : case.failedAssertions with
    | nil => simp
    | cons assertion assertions =>
      have hlist : IsLine ("assertions failed: " ++ ", ".intercalate (assertion :: assertions)) ↔
          ∀ text ∈ assertion :: assertions, IsLine text := by
        rw [isLine_append, isLine_intercalate]
        exact and_iff_right hopening
      rw [← hlist]
      simp

theorem reportable_iff :
    case.Reportable ↔ IsLine case.title ∧ IsLine case.protocolId ∧
      (∀ message, case.failureMessage = some message → IsLine message) ∧
        (case.passed = false ↔ case.failureMessage ≠ none) := by
  rw [isLine_title, isLine_failureMessage_iff, failureMessage_ne_none_iff]
  exact ⟨fun h => ⟨h.name, h.protocolId, ⟨h.error, h.assertions⟩, h.failed⟩,
    fun ⟨hname, hprotocol, ⟨herror, hassertions⟩, hfailed⟩ =>
      ⟨hname, hprotocol, herror, hassertions, hfailed⟩⟩

theorem get_caseNode_name (case : RunCase) :
    (caseNode case).get "name" = some (String.ofList (Xml.normalizeValue case.title.toList)) := by
  simp [caseNode, readAttribute, Xml.Node.get]

theorem get_caseNode_classname (case : RunCase) : (caseNode case).get "classname" =
    some (String.ofList (Xml.normalizeValue case.protocolId.toList)) := by
  simp [caseNode, readAttribute, Xml.Node.get, List.lookup]

theorem get_failureNode (message : String) : (failureNode message).get "message" =
    some (String.ofList (Xml.normalizeValue message.toList)) := by
  simp [failureNode, readAttribute, Xml.Node.get]

theorem ofList_normalizeValue_toString (n : Nat) :
    String.ofList (Xml.normalizeValue (toString n).toList) = toString n := by
  rw [Xml.normalizeValue_of_isPlain fun _ => isPlain_toString, String.ofList_toList]

variable (tag name tests failures : List Char)

theorem get_tests (children : List Xml.Node) :
    (Xml.Node.element ⟨tag, [("name".toList, name), ("tests".toList, tests),
      ("failures".toList, failures)]⟩ children).get "tests" = some (String.ofList tests) := by
  simp [Xml.Node.get, List.lookup]

theorem get_failures (children : List Xml.Node) :
    (Xml.Node.element ⟨tag, [("name".toList, name), ("tests".toList, tests),
      ("failures".toList, failures)]⟩ children).get "failures" =
      some (String.ofList failures) := by
  simp [Xml.Node.get, List.lookup]

theorem get_reportNode_tests (cases : List RunCase) :
    (reportNode cases).get "tests" = some (toString cases.length) :=
  (get_tests _ _ _ _ _).trans (congrArg some (ofList_normalizeValue_toString _))

theorem get_reportNode_failures (cases : List RunCase) : (reportNode cases).get "failures" =
    some (toString (cases.filter fun case => !case.passed).length) :=
  (get_failures _ _ _ _ _).trans (congrArg some (ofList_normalizeValue_toString _))

theorem ofList_normalizeValue_iff {text : String} :
    some (String.ofList (Xml.normalizeValue text.toList)) = some text ↔
      Xml.normalizeValue text.toList = text.toList := by
  rw [Option.some_inj, ← String.toList_inj, String.toList_ofList]

/-- The failures of a case are the one that is asked for when its message is read back and is
there exactly when the case has not passed. -/
theorem messages_caseNode_iff :
    ((caseNode case).elements "failure").map (Xml.Node.get "message") =
        (if case.passed then [] else [case.failureMessage]) ↔
      (∀ message, case.failureMessage = some message →
        Xml.normalizeValue message.toList = message.toList) ∧
        (case.passed = false ↔ case.failureMessage ≠ none) := by
  rw [elements_caseNode]
  cases case.failureMessage with
  | none => cases case.passed <;> simp
  | some message =>
    rw [Option.toList_some, List.map_singleton, List.map_singleton, get_failureNode]
    cases case.passed with
    | true => simp
    | false =>
      rw [if_neg Bool.false_ne_true, List.singleton_inj, ofList_normalizeValue_iff]
      simp

theorem length_failures (h : ∀ case ∈ cases, case.passed = false ↔ case.failureMessage ≠ none) :
    ((cases.map caseNode).flatMap (Xml.Node.elements "failure")).length =
      (cases.filter fun case => !case.passed).length := by
  induction cases with
  | nil => rfl
  | cons case cases ih =>
    have hcase := h case List.mem_cons_self
    rw [List.map_cons, List.flatMap_cons, List.length_append, elements_caseNode,
      ih fun other hother => h other (List.mem_cons_of_mem _ hother)]
    cases hmessage : case.failureMessage with
    | none =>
      rw [hmessage, ne_self_iff_false, iff_false, Bool.not_eq_false] at hcase
      simp [hcase]
    | some message =>
      have hfailed := hcase.mpr (by rw [hmessage]; exact Option.some_ne_none message)
      simp [hfailed, Nat.add_comm]

/-- A report of legal texts has what it should exactly when its cases can be reported. -/
theorem reported_reportNode_iff (h : ∀ case ∈ cases, case.Legal) :
    Reported cases (reportNode cases) ↔ ∀ case ∈ cases, case.Reportable := by
  constructor
  · intro hreported case hcase
    have hnames := hreported.names
    have hclassnames := hreported.classnames
    have hmessages := hreported.messages
    rw [elements_reportNode, List.map_map, List.map_inj_left] at hnames hclassnames hmessages
    have hname := (get_caseNode_name case).symm.trans (hnames case hcase)
    have hclassname := (get_caseNode_classname case).symm.trans (hclassnames case hcase)
    have ⟨hmessage, hfailed⟩ := messages_caseNode_iff.mp (hmessages case hcase)
    refine reportable_iff.mpr ⟨isLine_iff.mpr ⟨isChar_title (h case hcase),
      ofList_normalizeValue_iff.mp hname⟩, isLine_iff.mpr ⟨(h case hcase).protocolId,
      ofList_normalizeValue_iff.mp hclassname⟩, fun message heq => ?_, hfailed⟩
    exact isLine_iff.mpr ⟨(h case hcase).message message heq, hmessage message heq⟩
  · intro hreportable
    have hall (case : RunCase) (hcase : case ∈ cases) := reportable_iff.mp (hreportable case hcase)
    constructor
    · rw [elements_reportNode, List.map_map, List.map_inj_left]
      intro case hcase
      exact (get_caseNode_name case).trans
        (ofList_normalizeValue_iff.mpr (isLine_iff.mp (hall case hcase).1).2)
    · rw [elements_reportNode, List.map_map, List.map_inj_left]
      intro case hcase
      exact (get_caseNode_classname case).trans
        (ofList_normalizeValue_iff.mpr (isLine_iff.mp (hall case hcase).2.1).2)
    · rw [elements_reportNode, List.map_map, List.map_inj_left]
      intro case hcase
      have ⟨_, _, hmessage, hfailed⟩ := hall case hcase
      exact messages_caseNode_iff.mpr
        ⟨fun message heq => (isLine_iff.mp (hmessage message heq)).2, hfailed⟩
    · rw [elements_reportNode, List.length_map, get_reportNode_tests]
    · rw [elements_reportNode, length_failures fun case hcase => (hall case hcase).2.2.2,
        get_reportNode_failures]

/-- What XML does not allow is in the report when it is in a text of a case. -/
theorem legal_of_read {root : Xml.Node} (h : Xml.read (junit cases).toList = some root) :
    ∀ case ∈ cases, case.Legal := by
  intro case hcase
  have hbody (c : Char) (hc : c ∈ (junitCase case).toList) : Xml.isChar c = true := by
    have hjoin : c ∈ (String.join (cases.map junitCase)).toList := by
      rw [String.toList_join, List.flatMap_map]
      exact List.mem_flatMap.mpr ⟨case, hcase, hc⟩
    refine Xml.isChar_of_read h c ?_
    unfold junit
    simp only [String.toList_append, List.mem_append, hjoin, true_or, or_true]
  unfold junitCase at hbody
  simp only [String.toList_append, List.mem_append, toList_xmlEscape] at hbody
  refine ⟨Xml.isChar_of_escape fun c hc => hbody c (by simp only [hc, true_or, or_true]),
    Xml.isChar_of_escape fun c hc => hbody c (by simp only [hc, true_or, or_true]),
    fun message hmessage => Xml.isChar_of_escape fun c hc => hbody c ?_⟩
  have hfailure : c ∈ (junitFailure case).toList := by
    rw [junitFailure, hmessage]
    simp only [String.toList_append, List.mem_append, toList_xmlEscape, hc, true_or, or_true]
  simp only [hfailure, true_or, or_true]

/-- The report is a document that has the names, the messages and the numbers of its cases exactly
when the texts of every case are lines that XML allows and a case has a message exactly when it
has not passed. -/
theorem junit_reported_iff (cases : List RunCase) :
    (∃ root, Xml.read (junit cases).toList = some root ∧ Reported cases root) ↔
      ∀ case ∈ cases, case.Reportable := by
  constructor
  · intro ⟨root, hread, hreported⟩
    have hlegal := legal_of_read hread
    rw [read_junit hlegal, Option.some_inj] at hread
    subst hread
    exact (reported_reportNode_iff hlegal).mp hreported
  · intro h
    have hlegal : ∀ case ∈ cases, case.Legal := fun case hcase => by
      have ⟨_, hprotocol, hmessage, _⟩ := reportable_iff.mp (h case hcase)
      exact ⟨(isLine_iff.mp (h case hcase).name).1, (isLine_iff.mp hprotocol).1,
        fun message heq => (isLine_iff.mp (hmessage message heq)).1⟩
    exact ⟨reportNode cases, read_junit hlegal, (reported_reportNode_iff hlegal).mpr h⟩

/-- A request whose name is two lines. -/
theorem junit_reported_not : ¬∀ cases : List RunCase,
    ∃ root, Xml.read (junit cases).toList = some root ∧ Reported cases root := by
  intro h
  obtain ⟨root, hread, hreported⟩ := h [⟨1, "first\nsecond", "http", true, 12, none, []⟩]
  have hlegal := legal_of_read hread
  rw [read_junit hlegal, Option.some_inj] at hread
  subst hread
  have hline := ((reported_reportNode_iff hlegal).mp hreported _ (List.mem_singleton_self _)).name
  exact absurd hline (by decide)

end ApiVoy.Hosts
