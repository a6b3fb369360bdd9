/-
# Scripts

The scripts of a request run in an engine for JavaScript. The request, its variables and the
response stand as literals in the program that the engine evaluates, and what the program
returns is read as a request, variables and logs. A script before the request may change all of
it; of a script after the request only the variables are used.
-/

import ApiVoy.Domain.RequestLiterals
import ApiVoy.Engine.Outcome
import ApiVoy.Foundation.Reading

namespace ApiVoy.Engine

open Domain Foundation

structure ScriptResponse where
  status : Option UInt16
  headers : StringMap
  body : String
  durationMs : UInt64
  bytesReceived : UInt64

def ScriptResponse.toJson (response : ScriptResponse) : Json :=
  .obj
    [("status", response.status.elim .null Codec.word16.write),
      ("headers", Codec.stringMap.write response.headers),
      ("body", Codec.text.write response.body),
      ("durationMs", Codec.word64.write response.durationMs),
      ("bytesReceived", Codec.word64.write response.bytesReceived)]

/-- What comes out of scripts. -/
structure ScriptResult where
  request : RequestEnvelope
  vars : StringMap
  logs : List String

def ScriptResult.ofJson : Json → Option ScriptResult
  | .obj members => do
    let request ← (Codec.value.field "request" members).bind RequestEnvelope.ofJson
    let vars ← Codec.stringMap.field "variables" members
    let logs ← textsCodec.field "logs" members
    return { request, vars, logs }
  | _ => none

/-- The engine for JavaScript, and the texts of the errors of the library for JSON. A text of
JSON stands for its value. -/
structure ScriptEngine where
  /-- The value of the text that is returned by scripts with a request, variables and a response
  as literals in front of them. -/
  evaluate : List String → Json → Json → Json → Except ScriptError Json
  /-- What is read of the text that is printed of a number in a program. The engine prints the
  double next to the number, and the library for JSON may read the one next to that. -/
  number : Rat → Rat
  writeError : String
  readError : Json → String

section Running

variable (engine : ScriptEngine)

/-- What is read of the text that an engine returns, if the library for JSON gets to its end. -/
def ScriptResult.ofText (value : Json) : Option ScriptResult :=
  if value.nesting ≤ Json.maxNesting then ofJson value else none

def execute (scripts : List String) (request : RequestEnvelope) (vars : StringMap)
    (response : Option ScriptResponse) : Except ScriptError ScriptResult :=
  match request.toJson with
  | none => .error (.output engine.writeError)
  | some json =>
    match engine.evaluate scripts json (Codec.stringMap.write vars)
        (response.elim .null ScriptResponse.toJson) with
    | .error error => .error error
    | .ok value =>
      match ScriptResult.ofText value with
      | some output => .ok output
      | none => .error (.output (engine.readError value))

/-- The variables of a request are those that its scripts leave. -/
def runPreScripts (request : RequestEnvelope) : Except ScriptError ScriptResult :=
  if request.preScripts = [] then .ok ⟨request, request.vars, []⟩
  else
    match execute engine request.preScripts request request.vars none with
    | .error error => .error error
    | .ok output => .ok { output with request := { output.request with vars := output.vars } }

def runPostScripts (request : RequestEnvelope) (response : ScriptResponse) :
    Except ScriptError ScriptResult :=
  if request.postScripts = [] then .ok ⟨request, request.vars, []⟩
  else execute engine request.postScripts request request.vars (some response)

end Running

/-! ## Scripts that leave the request alone -/

/-- What is returned when no script assigns to the request: the request as it was written into
the program, with the variables and the logs that the scripts make. -/
def untouched (engine : ScriptEngine) (json vars : Json) (logs : List String) : Json :=
  .obj [("request", Json.literal engine.number json), ("variables", vars),
    ("logs", textsCodec.write logs)]

/-- Whether a number is a float where it is read of what JavaScript prints of it. An integer is
printed without a point, so that it is a float only when a machine word has no room for it. -/
def isPrintedFloat (q : Rat) : Bool := !(q.den = 1 && -2 ^ 63 ≤ q.num && q.num < 2 ^ 64)

/-- The numbers in the text of a request. -/
def requestNumbers (request : RequestEnvelope) : List Rat :=
  (request.toJson.map Json.numbers).getD []

/-- Which numbers of the request that comes out of scripts are floats, when `floats` says it of
the request that went in. -/
def floatsAfter (request : RequestEnvelope) (result : ScriptResult) (floats : List Bool) :
    List Bool :=
  if request.preScripts = [] then floats else (requestNumbers result.request).map isPrintedFloat

/-- The request leaves room for what is around it in the text that an engine returns. -/
def HasRoom (request : RequestEnvelope) : Prop :=
  ∀ json, request.toJson = some json → json.nesting < Json.maxNesting

section Untouched

variable {engine : ScriptEngine}

theorem ofJson_untouched (json vars : Json) (logs : List String) :
    ScriptResult.ofJson (untouched engine json vars logs) =
      (RequestEnvelope.ofJson (Json.literal engine.number json)).bind fun request =>
        (Codec.stringMap.read vars).map fun vars => ⟨request, vars, logs⟩ := by
  have hlogs : textsCodec.read (textsCodec.write logs) = some logs := textsCodec.read_write logs
  have hvalue : ∀ value : Json, Codec.value.read value = some value := fun _ => rfl
  simp only [untouched, ScriptResult.ofJson, Codec.field, Json.memberValues_cons,
    Json.memberValues_nil, String.reduceEq, if_true, if_false, hvalue, Option.bind_some, hlogs]
  cases RequestEnvelope.ofJson (Json.literal engine.number json) with
  | none => rfl
  | some request => cases Codec.stringMap.read vars <;> rfl

theorem nesting_texts (texts : List String) : (textsCodec.write texts).nesting = 1 := by
  have hitems : Json.itemNesting (texts.map Codec.text.write) = 0 := by
    induction texts with
    | nil => rfl
    | cons text texts ih => exact (Nat.zero_max _).trans ih
  exact congrArg (· + 1) hitems

theorem memberNesting_textMembers {members : List (String × Json)}
    {entries : List (Sigma fun _ : String => String)} (h : Codec.textMembers members = some entries) :
    Json.memberNesting members = 0 := by
  induction members generalizing entries with
  | nil => rfl
  | cons member members ih =>
    obtain ⟨name, value⟩ := member
    cases value with
    | str text =>
      obtain ⟨rest, hrest, -⟩ := Option.bind_eq_some_iff.mp h
      exact (Nat.zero_max _).trans (ih hrest)
    | null | bool _ | num _ | arr _ | obj _ => cases h

theorem nesting_of_stringMap {json : Json} {vars : StringMap}
    (h : Codec.stringMap.read json = some vars) : json.nesting = 1 := by
  cases json with
  | obj members =>
    cases hmembers : Codec.textMembers members with
    | none =>
      have hnone : Codec.stringMap.read (.obj members) = none := by
        simp only [Codec.stringMap]
        split
        · rename_i heq
          cases heq.symm.trans hmembers
        · rfl
      cases hnone.symm.trans h
    | some entries => exact congrArg (· + 1) (memberNesting_textMembers hmembers)
  | null | bool _ | num _ | str _ | arr _ => cases h

/-- The variables of a request do not nest deeper than the rest of it. -/
theorem nesting_withVars {request : RequestEnvelope} {vars : StringMap} {json other : Json}
    (h : request.toJson = some json) (hother : { request with vars := vars }.toJson = some other) :
    other.nesting = json.nesting := by
  obtain ⟨payload, hpayload, rfl⟩ := RequestEnvelope.toJson_eq_some_iff.mp h
  obtain ⟨again, hagain, rfl⟩ := RequestEnvelope.toJson_eq_some_iff.mp hother
  obtain rfl : payload = again := Option.some.inj (hpayload.symm.trans hagain)
  have hvars : ∀ vars : StringMap, (Codec.stringMap.write vars).nesting = 1 := fun vars =>
    nesting_of_stringMap (Codec.stringMap.read_write vars)
  simp only [Json.nesting, Json.memberNesting, RequestEnvelope.members, hvars]

/-- The text around a request nests one level more than the request. -/
theorem nesting_untouched {request : RequestEnvelope} {left read : StringMap} {json vars : Json}
    (logs : List String) (hwrite : request.toJson = some json)
    (hread : RequestEnvelope.ofJson (Json.literal engine.number json) =
      some { request with vars := left })
    (hvars : Codec.stringMap.read vars = some read) :
    (untouched engine json vars logs).nesting = json.nesting + 1 := by
  have hsame : (Json.literal engine.number json).nesting = json.nesting :=
    nesting_withVars hwrite (RequestEnvelope.toJson_of_read hwrite hread)
  have hpos : 1 ≤ json.nesting := by
    obtain ⟨payload, -, rfl⟩ := RequestEnvelope.toJson_eq_some_iff.mp hwrite
    exact Nat.le_add_left 1 _
  rw [untouched, Json.nesting, Json.memberNesting, Json.memberNesting, Json.memberNesting,
    Json.memberNesting, hsame, nesting_of_stringMap hvars, nesting_texts]
  omega

/-- The request that comes out is the one that went in exactly when its text is read to its end,
its variables are left alone, it has no literal secrets, it is written faithfully and it survives
being a literal. -/
theorem ofText_untouched_iff {request : RequestEnvelope} {json vars : Json} {logs : List String}
    (hwrite : request.toJson = some json) :
    (∃ output, ScriptResult.ofText (untouched engine json vars logs) = some output ∧
        { output.request with vars := output.vars } = request) ↔
      Codec.stringMap.read vars = some request.vars ∧ request.payload.Faithful ∧
        request.NoSecrets ∧ request.Survives engine.number ∧ HasRoom request := by
  have hroom : HasRoom request ↔ json.nesting < Json.maxNesting :=
    ⟨fun h => h json hwrite, fun h other hother => by
      obtain rfl : json = other := Option.some.inj (hwrite.symm.trans hother)
      exact h⟩
  rw [hroom, ScriptResult.ofText, ofJson_untouched]
  constructor
  · rintro ⟨output, houtput, hsame⟩
    obtain ⟨hfits, houtput⟩ := Option.ite_none_right_eq_some.mp houtput
    obtain ⟨read, hread, houtput⟩ := Option.bind_eq_some_iff.mp houtput
    obtain ⟨left, hleft, rfl⟩ := Option.map_eq_some_iff.mp houtput
    have heq : read = { request with vars := read.vars } := by
      rw [← hsame]
    rw [heq] at hread
    rw [nesting_untouched logs hwrite hread hleft] at hfits
    obtain ⟨hfaithful, hsecrets, hsurvives⟩ :=
      (RequestEnvelope.ofJson_literal_iff hwrite).mp ⟨_, hread⟩
    refine ⟨hleft.trans (congrArg some ?_), hfaithful, hsecrets, hsurvives, hfits⟩
    exact congrArg RequestEnvelope.vars hsame
  · rintro ⟨hvars, hfaithful, hsecrets, hsurvives, hfits⟩
    obtain ⟨left, hread⟩ :=
      (RequestEnvelope.ofJson_literal_iff hwrite).mpr ⟨hfaithful, hsecrets, hsurvives⟩
    have hnesting := nesting_untouched logs hwrite hread hvars
    rw [if_pos (hnesting.trans_le hfits), hread, hvars]
    exact ⟨_, rfl, rfl⟩

/-- Scripts that do not assign to the request return it as it was, every number held the same way,
exactly when there are none, or when they leave the variables alone, the request has no literal
secrets, is written faithfully, survives being a literal and leaves room around it, and its
floats are those of JavaScript. -/
theorem runPreScripts_untouched_iff {request : RequestEnvelope} {floats : List Bool} {vars : Json}
    {logs : List String}
    (h : request.preScripts ≠ [] → ∀ json, request.toJson = some json →
      engine.evaluate request.preScripts json (Codec.stringMap.write request.vars) .null =
        .ok (untouched engine json vars logs)) :
    (∃ result, runPreScripts engine request = .ok result ∧ result.request = request ∧
        floatsAfter request result floats = floats) ↔
      request.preScripts = [] ∨
        Codec.stringMap.read vars = some request.vars ∧ request.payload.Faithful ∧
          request.NoSecrets ∧ request.Survives engine.number ∧ HasRoom request ∧
            floats = (requestNumbers request).map isPrintedFloat := by
  by_cases hempty : request.preScripts = []
  · refine iff_of_true ⟨⟨request, request.vars, []⟩, ?_, rfl, ?_⟩ (.inl hempty)
    · rw [runPreScripts, if_pos hempty]
    · rw [floatsAfter, if_pos hempty]
  have hrun : runPreScripts engine request =
      match execute engine request.preScripts request request.vars none with
      | .error error => .error error
      | .ok output =>
        .ok { output with request := { output.request with vars := output.vars } } := by
    rw [runPreScripts, if_neg hempty]
  have hfloats : ∀ result : ScriptResult, result.request = request →
      (floatsAfter request result floats = floats ↔
        floats = (requestNumbers request).map isPrintedFloat) := by
    intro result hsame
    rw [floatsAfter, if_neg hempty, hsame]
    exact eq_comm
  rw [hrun, execute, or_iff_right hempty]
  cases hwrite : request.toJson with
  | none =>
    refine iff_of_false (fun ⟨_, heq, _⟩ => by cases heq) fun ⟨_, hfaithful, _⟩ => ?_
    obtain ⟨json, hjson, -⟩ := RequestEnvelope.ofJson_toJson hfaithful
    cases hwrite.symm.trans hjson
  | some json =>
    have hevaluate : engine.evaluate request.preScripts json
        (Codec.stringMap.write request.vars) (Option.elim none .null ScriptResponse.toJson) =
        .ok (untouched engine json vars logs) := h hempty json hwrite
    dsimp only
    rw [hevaluate]
    dsimp only
    have hiff : (∃ output, ScriptResult.ofText (untouched engine json vars logs) = some output ∧
        { output.request with vars := output.vars } = request) ↔ _ := ofText_untouched_iff hwrite
    cases hread : ScriptResult.ofText (untouched engine json vars logs) with
    | none =>
      refine iff_of_false (fun ⟨_, heq, _⟩ => by cases heq) ?_
      rintro ⟨hvars, hfaithful, hsecrets, hsurvives, hroom, -⟩
      obtain ⟨_, heq, -⟩ := hiff.mpr ⟨hvars, hfaithful, hsecrets, hsurvives, hroom⟩
      cases hread.symm.trans heq
    | some output =>
      constructor
      · rintro ⟨result, heq, hsame, hafter⟩
        cases heq
        obtain ⟨hvars, hfaithful, hsecrets, hsurvives, hroom⟩ := hiff.mp ⟨output, hread, hsame⟩
        exact ⟨hvars, hfaithful, hsecrets, hsurvives, hroom, (hfloats _ hsame).mp hafter⟩
      · rintro ⟨hvars, hfaithful, hsecrets, hsurvives, hroom, hafter⟩
        obtain ⟨found, heq, hsame⟩ := hiff.mpr ⟨hvars, hfaithful, hsecrets, hsurvives, hroom⟩
        obtain rfl : output = found := Option.some.inj (hread.symm.trans heq)
        exact ⟨_, rfl, hsame, (hfloats _ hsame).mpr hafter⟩

end Untouched

/-! ### An empty script -/

/-- An engine that knows the empty script only, for numbers that a double has. -/
def idleEngine : ScriptEngine where
  evaluate _ request vars _ :=
    .ok (.obj [("request", Json.literal id request), ("variables", Json.literal id vars),
      ("logs", .arr [])])
  number q := q
  writeError := "can only flatten structs and maps"
  readError _ := "missing field"

/-- A request with an empty script in front, a number in its metadata and a bearer token of its
own. -/
def tokenRequest (token : Option String) : RequestEnvelope :=
  { RequestEnvelope.httpGet "request" "now" "user" "https://example.com" with
    authRef := some ⟨"bearer", none, token, none, none, none, none, none, none, none, none, none⟩
    metadata := .obj [("qos", .num 1)]
    preScripts := [""] }

/-- The number is the same afterwards if it was written without a point. -/
theorem runPreScripts_untouched_idle :
    (∃ result, runPreScripts idleEngine (tokenRequest none) = .ok result ∧
        result.request = tokenRequest none ∧
          floatsAfter (tokenRequest none) result [false, false, false, false] =
            [false, false, false, false]) ∧
      ¬∃ result, runPreScripts idleEngine (tokenRequest none) = .ok result ∧
        result.request = tokenRequest none ∧
          floatsAfter (tokenRequest none) result [false, false, false, true] =
            [false, false, false, true] := by
  have hidle : (tokenRequest none).preScripts ≠ [] → ∀ json,
      (tokenRequest none).toJson = some json →
      idleEngine.evaluate (tokenRequest none).preScripts json
          (Codec.stringMap.write (tokenRequest none).vars) .null =
        .ok (untouched idleEngine json (.obj []) []) := fun _ _ _ => rfl
  have hsurvives : (tokenRequest none).Survives idleEngine.number :=
    ⟨_, rfl, fun _ _ => rfl, by decide⟩
  have hroom : HasRoom (tokenRequest none) := by
    rintro json hjson
    cases hjson
    decide
  have hsecrets : (tokenRequest none).NoSecrets := by
    refine ⟨?_, rfl⟩
    rintro auth hauth
    cases hauth
    rfl
  refine ⟨(runPreScripts_untouched_iff hidle).mpr (.inr ⟨rfl, trivial, hsecrets, hsurvives, hroom,
    by decide⟩), fun h => ?_⟩
  obtain hempty | ⟨-, -, -, -, -, hfloats⟩ := (runPreScripts_untouched_iff hidle).mp h
  · cases hempty
  · exact absurd hfloats (by decide)

/-- The empty script takes the token away. -/
theorem runPreScripts_untouched_not :
    ¬∀ (engine : ScriptEngine) (request : RequestEnvelope) (vars : Json) (logs : List String),
      (∀ json, request.toJson = some json →
        engine.evaluate request.preScripts json (Codec.stringMap.write request.vars) .null =
          .ok (untouched engine json vars logs)) →
      Codec.stringMap.read vars = some request.vars →
        ∃ result, runPreScripts engine request = .ok result ∧ result.request = request := by
  intro h
  obtain ⟨result, hrun, hsame⟩ := h idleEngine (tokenRequest (some "secret")) (.obj []) []
    (fun _ _ => rfl) rfl
  cases hrun
  have htoken := congrArg (fun request => request.authRef.bind AuthRef.token) hsame
  cases htoken

end ApiVoy.Engine
