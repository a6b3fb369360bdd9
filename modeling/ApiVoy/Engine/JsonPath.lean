/-
# JSON paths

An assertion finds a value in a response by a path. The path is rewritten into a pointer, one
segment after the other, and the pointer is followed. The steps that a path is made of say what
it should find.
-/

import ApiVoy.Foundation.Pointer
import ApiVoy.Foundation.Slices
import ApiVoy.Foundation.Text
import Mathlib.Algebra.Order.BigOperators.Group.List

namespace ApiVoy.Engine

open Foundation

/-! ## From paths to pointers -/

/-- One turn of the loop over a path: what it adds to the pointer, and the rest of the path.
The inner option is `none` for a malformed path, the outer one where the program would stop. -/
def pointerTurn (rest : List Char) : Option (Option (List Char × List Char)) :=
  if rest.head? = some '[' then
    match findByte (· = ']') rest with
    | none => some none
    | some last =>
      (sliceBytes 1 last rest).bind fun idx =>
        (dropBytes (last + 1) rest).map fun rest => some ('/' :: idx, rest)
  else
    let last := (findByte (fun c => c = '.' || c = '[') rest).getD (byteSize rest)
    (takeBytes last rest).bind fun seg =>
      let pushed := if seg = [] then [] else '/' :: Pointer.escape seg
      (dropBytes last rest).bind fun rest =>
        if rest.head? = some '.' then (dropBytes 1 rest).map fun rest => some (pushed, rest)
        else some (some (pushed, rest))

def IsSegment (text : List Char) : Prop := ∀ c ∈ text, (c = '.' || c = '[') = false

/-- What a segment adds to the pointer. -/
def segmentPointer (seg : List Char) : List Char :=
  if seg = [] then [] else '/' :: Pointer.escape seg

theorem pointerTurn_bracket {text : List Char} (h : ']' ∉ text) (back : List Char) :
    pointerTurn ('[' :: text ++ ']' :: back) = some (some ('/' :: text, back)) := by
  have hfront : ∀ c ∈ '[' :: text, decide (c = ']') = false := by
    rw [List.forall_mem_cons]
    exact ⟨rfl, fun c hc => decide_eq_false fun heq => h (heq ▸ hc)⟩
  have hfind : findByte (· = ']') ('[' :: text ++ ']' :: back) = some (byteSize ('[' :: text)) :=
    findByte_append hfront (decide_eq_true rfl)
  have hslice : sliceBytes 1 (byteSize ('[' :: text)) ('[' :: text ++ ']' :: back) = some text := by
    rw [sliceBytes, takeBytes_append]
    exact dropBytes_one text rfl
  have hdrop : dropBytes (byteSize ('[' :: text) + 1) ('[' :: text ++ ']' :: back) = some back := by
    have hsplit : '[' :: text ++ ']' :: back = ('[' :: text ++ [']']) ++ back := by simp
    have hsize : byteSize ('[' :: text) + 1 = byteSize ('[' :: text ++ [']']) := by
      rw [byteSize_append]
      rfl
    rw [hsplit, hsize, dropBytes_append]
  have hhead : ('[' :: text ++ ']' :: back).head? = some '[' := rfl
  rw [pointerTurn, if_pos hhead, hfind]
  dsimp only
  rw [hslice, Option.bind_some, hdrop, Option.map_some]

theorem pointerTurn_open {text : List Char} (h : ']' ∉ text) :
    pointerTurn ('[' :: text) = some none := by
  have hnone : findByte (· = ']') ('[' :: text) = none := by
    apply findByte_eq_none
    rw [List.forall_mem_cons]
    exact ⟨rfl, fun c hc => decide_eq_false fun heq => h (heq ▸ hc)⟩
  have hhead : ('[' :: text).head? = some '[' := rfl
  rw [pointerTurn, if_pos hhead, hnone]

/-- A segment up to a point, which goes with it. -/
theorem pointerTurn_dot {seg : List Char} (h : IsSegment seg) (back : List Char) :
    pointerTurn (seg ++ '.' :: back) = some (some (segmentPointer seg, back)) := by
  have hhead : (seg ++ '.' :: back).head? ≠ some '[' := by
    cases seg with
    | nil => exact fun heq => absurd (Option.some.inj heq) (by decide)
    | cons c seg =>
      intro heq
      cases heq
      have hc := h '[' List.mem_cons_self
      cases hc
  have hfind : findByte (fun c => c = '.' || c = '[') (seg ++ '.' :: back) = some (byteSize seg) :=
    findByte_append h rfl
  have hdot : ('.' :: back).head? = some '.' := rfl
  rw [pointerTurn, if_neg hhead, hfind]
  dsimp only [Option.getD_some]
  rw [takeBytes_append, Option.bind_some, dropBytes_append, Option.bind_some,
    if_pos hdot, dropBytes_one back rfl, Option.map_some, segmentPointer]

/-- A segment up to a bracket, or the last one. -/
theorem pointerTurn_segment {seg back : List Char} (h : IsSegment seg) (hne : seg ≠ [])
    (hback : back = [] ∨ back.head? = some '[') :
    pointerTurn (seg ++ back) = some (some (segmentPointer seg, back)) := by
  have hhead : (seg ++ back).head? ≠ some '[' := by
    cases seg with
    | nil => exact absurd rfl hne
    | cons c seg =>
      intro heq
      cases heq
      have hc := h '[' List.mem_cons_self
      cases hc
  have hlast : (findByte (fun c => c = '.' || c = '[') (seg ++ back)).getD
      (byteSize (seg ++ back)) = byteSize seg := by
    cases hback with
    | inl hnil =>
      subst hnil
      rw [List.append_nil, findByte_eq_none h]
      rfl
    | inr hbracket =>
      cases back with
      | nil => cases hbracket
      | cons c back =>
        cases hbracket
        rw [findByte_append h rfl]
        rfl
  have hdot : back.head? ≠ some '.' := by
    rcases hback with rfl | hbracket
    · decide
    · rw [hbracket]
      decide
  rw [pointerTurn, if_neg hhead]
  dsimp only
  rw [hlast, takeBytes_append, Option.bind_some, dropBytes_append, Option.bind_some, if_neg hdot,
    segmentPointer]

/-- What a path that is not used up begins with. -/
inductive PathHead : List Char → Prop where
  | bracket {text : List Char} (h : ']' ∉ text) (back : List Char) :
      PathHead ('[' :: text ++ ']' :: back)
  | unclosed {text : List Char} (h : ']' ∉ text) : PathHead ('[' :: text)
  | dot {seg : List Char} (h : IsSegment seg) (back : List Char) : PathHead (seg ++ '.' :: back)
  | segment {seg back : List Char} (h : IsSegment seg) (hne : seg ≠ [])
      (hback : back = [] ∨ back.head? = some '[') : PathHead (seg ++ back)

variable {rest : List Char}

theorem pathHead (hne : rest ≠ []) : PathHead rest := by
  cases rest with
  | nil => exact absurd rfl hne
  | cons c rest =>
    by_cases hc : c = '['
    · subst hc
      rcases span_cases (· = ']') rest with hnone | ⟨front, d, back, rfl, hfront, hd⟩
      · exact .unclosed fun hmem => Bool.false_ne_true ((hnone ']' hmem).symm.trans rfl)
      · cases of_decide_eq_true hd
        exact .bracket (fun hmem => Bool.false_ne_true ((hfront ']' hmem).symm.trans rfl)) back
    · rcases span_cases (fun c => c = '.' || c = '[') (c :: rest) with
        hnone | ⟨front, d, back, heq, hfront, hd⟩
      · have hhead : PathHead (c :: rest ++ []) := .segment hnone hne (Or.inl rfl)
        rwa [List.append_nil] at hhead
      · rw [heq]
        by_cases hdot : d = '.'
        · rw [hdot]
          exact .dot hfront back
        · have hd' : d = '[' := by simpa [hdot] using hd
          subst hd'
          refine .segment hfront ?_ (Or.inr rfl)
          rintro rfl
          cases heq
          exact hc rfl

/-- Every turn uses up some of the path. -/
theorem length_pointerTurn_lt {rest pushed back : List Char} (hne : rest ≠ [])
    (h : pointerTurn rest = some (some (pushed, back))) : back.length < rest.length := by
  cases pathHead hne with
  | bracket htext back =>
    rw [pointerTurn_bracket htext] at h
    cases h
    simp
    omega
  | unclosed htext =>
    rw [pointerTurn_open htext] at h
    cases h
  | dot hseg back =>
    rw [pointerTurn_dot hseg] at h
    cases h
    simp only [List.length_append, List.length_cons]
    omega
  | segment hseg hseg' hback =>
    rw [pointerTurn_segment hseg hseg' hback] at h
    cases h
    have hpos := List.length_pos_iff.mpr hseg'
    rw [List.length_append]
    omega

/-- No turn stops the program. -/
theorem isSome_pointerTurn (hne : rest ≠ []) : (pointerTurn rest).isSome = true := by
  cases pathHead hne with
  | bracket htext back => rw [pointerTurn_bracket htext, Option.isSome_some]
  | unclosed htext => rw [pointerTurn_open htext, Option.isSome_some]
  | dot hseg back => rw [pointerTurn_dot hseg, Option.isSome_some]
  | segment hseg hseg' hback => rw [pointerTurn_segment hseg hseg' hback, Option.isSome_some]

def pointerLoop (path : String) (pointer rest : List Char) :
    Option (Except String (List Char)) :=
  if _hne : rest = [] then some (.ok pointer)
  else
    match _hturn : pointerTurn rest with
    | none => none
    | some none => some (.error ("invalid jsonpath: " ++ path))
    | some (some (pushed, back)) => pointerLoop path (pointer ++ pushed) back
termination_by rest.length
decreasing_by exact length_pointerTurn_lt _hne _hturn

/-- A path without the sign of the root. -/
def stripDollar : List Char → List Char
  | '$' :: rest => rest
  | path => path

/-- The pointer of a path. A path that begins with a slash is one. -/
def toJsonPointer (path : String) : Option (Except String (List Char)) :=
  let trimmed := trimChars path.toList
  if trimmed.head? = some '/' then some (.ok trimmed)
  else
    let trimmed := stripDollar trimmed
    if trimmed = [] ∨ trimmed = ['.'] then some (.ok [])
    else if trimmed.head? = some '.' then (dropBytes 1 trimmed).bind (pointerLoop path [])
    else pointerLoop path [] trimmed

/-- The value that a path finds in a document. -/
def locate (root : Json) (path : String) : Option (Except String (Option Json)) :=
  (toJsonPointer path).map (Except.map (Pointer.find root))

variable (path : String)

theorem pointerLoop_nil (pointer : List Char) :
    pointerLoop path pointer [] = some (.ok pointer) := by
  rw [pointerLoop, dif_pos rfl]

theorem pointerLoop_of_turn {path : String} {pointer rest pushed back : List Char}
    (hne : rest ≠ []) (h : pointerTurn rest = some (some (pushed, back))) :
    pointerLoop path pointer rest = pointerLoop path (pointer ++ pushed) back := by
  rw [pointerLoop, dif_neg hne]
  split <;> rename_i hturn <;> rw [h] at hturn <;> cases hturn
  rfl

/-- The loop comes to an end on every path. -/
theorem isSome_pointerLoop (pointer rest : List Char) :
    (pointerLoop path pointer rest).isSome = true := by
  induction hlength : rest.length using Nat.strongRecOn generalizing pointer rest with
  | _ n ih =>
    rw [pointerLoop]
    split
    · rfl
    · rename_i hne
      split
      · rename_i hturn
        have hsome := isSome_pointerTurn hne
        rw [hturn] at hsome
        cases hsome
      · rfl
      · rename_i pushed back hturn
        have hshorter := length_pointerTurn_lt hne hturn
        exact ih back.length (hlength ▸ hshorter) _ _ rfl

theorem isSome_toJsonPointer : (toJsonPointer path).isSome = true := by
  have hloop : ∀ rest : List Char, rest.head? = some '.' →
      ((dropBytes 1 rest).bind (pointerLoop path [])).isSome = true := by
    intro rest hdot
    cases rest with
    | nil => cases hdot
    | cons c rest =>
      cases hdot
      rw [dropBytes_one rest rfl]
      exact isSome_pointerLoop path [] rest
  unfold toJsonPointer
  dsimp only
  split_ifs with hslash hroot hdot
  · rfl
  · rfl
  · exact hloop _ hdot
  · exact isSome_pointerLoop path [] _

/-! ## Paths made of steps -/

/-- One step of a path: a name after a point, or a text in brackets. -/
inductive PathStep where
  | name (text : List Char) (plain : IsSegment text)
  | bracket (text : List Char) (plain : ']' ∉ text)

/-- The name or index that a step asks for. -/
def PathStep.text : PathStep → List Char
  | .name text _ => text
  | .bracket text _ => text

def PathStep.chars : PathStep → List Char
  | .name text _ => '.' :: text
  | .bracket text _ => '[' :: text ++ [']']

/-- The steps of a path, written one after the other. -/
def stepChars (steps : List PathStep) : List Char := steps.flatMap PathStep.chars

def pathOf (steps : List PathStep) : String := String.ofList ('$' :: stepChars steps)

/-- A step selects a member with exactly its name; one in brackets also selects the item of an
array with the index that it is the numeral of. -/
inductive Selects : PathStep → Json → Json → Prop where
  | member {text : List Char} {plain : IsSegment text} {members : List (String × Json)}
      {value : Json} (h : Json.member? (String.ofList text) members = some value) :
      Selects (.name text plain) (.obj members) value
  | entry {text : List Char} {plain : ']' ∉ text} {members : List (String × Json)} {value : Json}
      (h : Json.member? (String.ofList text) members = some value) :
      Selects (.bracket text plain) (.obj members) value
  | item {n : Nat} {plain : ']' ∉ Nat.toDigits 10 n} {items : List Json} {value : Json}
      (h : items[n]? = some value) :
      Selects (.bracket (Nat.toDigits 10 n) plain) (.arr items) value

/-- Steps taken one after the other lead from one value to another. -/
inductive Walks : List PathStep → Json → Json → Prop where
  | done (value : Json) : Walks [] value value
  | step {step : PathStep} {steps : List PathStep} {root next value : Json}
      (h : Selects step root next) (rest : Walks steps next value) :
      Walks (step :: steps) root value

/-- The last step without the white space at its end, which is the end of the path. -/
def trimLast : List PathStep → List PathStep
  | [] => []
  | [.name text plain] =>
    [.name (text.rdropWhile isWhitespace) fun c hc =>
      plain c ((List.rdropWhile_prefix _ _).subset hc)]
  | [.bracket text plain] => [.bracket text plain]
  | first :: second :: rest => first :: trimLast (second :: rest)

/-- What the loop adds to the pointer for a step, without the slashes. -/
def PathStep.chunks : PathStep → List (List Char)
  | .name text _ => if text = [] then [] else [Pointer.escape text]
  | .bracket text _ => [text]

def PathStep.tokens (step : PathStep) : List (List Char) :=
  step.chunks.flatMap fun chunk => (chunk.splitOn '/').map Pointer.unescape

theorem pointerLoop_dot (pointer rest : List Char) :
    pointerLoop path pointer ('.' :: rest) = pointerLoop path pointer rest := by
  have hturn : pointerTurn ('.' :: rest) = some (some ([], rest)) :=
    pointerTurn_dot (fun _ hc => absurd hc List.not_mem_nil) rest
  rw [pointerLoop_of_turn (List.cons_ne_nil _ _) hturn, List.append_nil]

theorem stepChars_cases (steps : List PathStep) :
    (∃ rest, stepChars steps = '.' :: rest) ∨
      (stepChars steps = [] ∨ (stepChars steps).head? = some '[') := by
  cases steps with
  | nil => exact Or.inr (Or.inl rfl)
  | cons step steps =>
    cases step with
    | name text plain => exact Or.inl ⟨text ++ stepChars steps, rfl⟩
    | bracket text plain => exact Or.inr (Or.inr rfl)

/-- The loop over steps adds the chunks of each in turn. -/
theorem pointerLoop_steps (steps : List PathStep) (pointer : List Char) :
    pointerLoop path pointer (stepChars steps) =
      some (.ok (pointer ++ Pointer.join (steps.flatMap PathStep.chunks))) := by
  induction steps generalizing pointer with
  | nil =>
    have hnil : stepChars [] = [] := rfl
    rw [hnil, pointerLoop_nil, List.flatMap_nil, Pointer.join, List.flatMap_nil, List.append_nil]
  | cons step steps ih =>
    cases step with
    | bracket text plain =>
      have hchars : stepChars (.bracket text plain :: steps) =
          '[' :: text ++ ']' :: stepChars steps := by
        simp [stepChars, PathStep.chars]
      have hchunks : Pointer.join ((PathStep.bracket text plain :: steps).flatMap
          PathStep.chunks) = '/' :: text ++ Pointer.join (steps.flatMap PathStep.chunks) := by
        simp [Pointer.join, PathStep.chunks]
      rw [hchars, pointerLoop_of_turn (by simp) (pointerTurn_bracket plain _), ih, hchunks,
        List.append_assoc]
    | name text plain =>
      have hchars : stepChars (.name text plain :: steps) = '.' :: (text ++ stepChars steps) :=
        rfl
      rw [hchars, pointerLoop_dot]
      by_cases hempty : text = []
      · subst hempty
        rw [List.nil_append, ih]
        rfl
      · have hchunks : Pointer.join ((PathStep.name text plain :: steps).flatMap
            PathStep.chunks) =
            segmentPointer text ++ Pointer.join (steps.flatMap PathStep.chunks) := by
          simp [Pointer.join, PathStep.chunks, segmentPointer, hempty]
        rcases stepChars_cases steps with ⟨rest, hrest⟩ | hback
        · have hne : text ++ stepChars steps ≠ [] := by simp [hempty]
          have hturn := pointerTurn_dot plain rest
          rw [← hrest] at hturn
          rw [pointerLoop_of_turn hne hturn, ← pointerLoop_dot, ← hrest, ih, hchunks,
            List.append_assoc]
        · have hne : text ++ stepChars steps ≠ [] := by simp [hempty]
          rw [pointerLoop_of_turn hne (pointerTurn_segment plain hempty hback), ih, hchunks,
            List.append_assoc]

variable {p : Char → Bool}

theorem rdropWhile_append {ys : List Char} (h : ys.rdropWhile p ≠ []) (xs : List Char) :
    (xs ++ ys).rdropWhile p = xs ++ ys.rdropWhile p := by
  have hempty : (ys.reverse.dropWhile p).isEmpty = false := by
    rw [List.isEmpty_eq_false_iff]
    exact fun hnil => h (by rw [List.rdropWhile, hnil, List.reverse_nil])
  rw [List.rdropWhile, List.reverse_append, List.dropWhile_append, hempty,
    if_neg Bool.false_ne_true, List.reverse_append, List.reverse_reverse]
  rfl

theorem rdropWhile_cons {c : Char} (h : p c = false) (cs : List Char) :
    (c :: cs).rdropWhile p = c :: cs.rdropWhile p := by
  by_cases hnil : cs.rdropWhile p = []
  · have hdrop : cs.reverse.dropWhile p = [] := List.reverse_eq_nil_iff.mp hnil
    rw [hnil, List.rdropWhile, List.reverse_cons, List.dropWhile_append, hdrop]
    simp [h]
  · exact rdropWhile_append hnil [c]

theorem stepChars_ne_nil (step : PathStep) (steps : List PathStep) :
    stepChars (step :: steps) ≠ [] := by
  cases step <;> exact List.cons_ne_nil _ _

theorem trimLast_cons_cons (first second : PathStep) (rest : List PathStep) :
    trimLast (first :: second :: rest) = first :: trimLast (second :: rest) := by
  cases first <;> rfl

theorem trimLast_ne_nil (step : PathStep) (steps : List PathStep) :
    ∃ first rest, trimLast (step :: steps) = first :: rest := by
  cases steps with
  | nil => cases step <;> exact ⟨_, _, rfl⟩
  | cons second rest => exact ⟨step, trimLast (second :: rest), trimLast_cons_cons _ _ _⟩

/-- Only the last step can end in white space. -/
theorem rdropWhile_stepChars (steps : List PathStep) :
    (stepChars steps).rdropWhile isWhitespace = stepChars (trimLast steps) := by
  induction steps with
  | nil => rfl
  | cons step steps ih =>
    cases steps with
    | nil =>
      cases step with
      | name text plain =>
        have hname : stepChars [.name text plain] = '.' :: text := by
          simp [stepChars, PathStep.chars]
        rw [hname, rdropWhile_cons (by decide)]
        simp [trimLast, stepChars, PathStep.chars]
      | bracket text plain =>
        have hbracket : stepChars [.bracket text plain] = ('[' :: text) ++ [']'] := by
          simp [stepChars, PathStep.chars]
        rw [trimLast, hbracket, List.rdropWhile_concat_neg _ _ _ (by decide)]
    | cons second rest =>
      have hsplit : stepChars (step :: second :: rest) =
          step.chars ++ stepChars (second :: rest) := rfl
      obtain ⟨first, others, htrim⟩ := trimLast_ne_nil second rest
      have hne : (stepChars (second :: rest)).rdropWhile isWhitespace ≠ [] := by
        rw [ih, htrim]
        exact stepChars_ne_nil _ _
      rw [hsplit, rdropWhile_append hne, ih, trimLast_cons_cons]
      rfl

theorem trimChars_path (steps : List PathStep) :
    trimChars ('$' :: stepChars steps) = '$' :: stepChars (trimLast steps) := by
  have hdollar : isWhitespace '$' = false := by decide
  have hdrop : ('$' :: stepChars steps).dropWhile isWhitespace = '$' :: stepChars steps := by
    rw [List.dropWhile_cons, hdollar, if_neg Bool.false_ne_true]
  rw [trimChars, hdrop, ← rdropWhile_stepChars]
  exact rdropWhile_cons hdollar _

theorem toJsonPointer_pathOf (steps : List PathStep) :
    toJsonPointer (pathOf steps) =
      some (.ok (Pointer.join ((trimLast steps).flatMap PathStep.chunks))) := by
  have hloop := pointerLoop_steps (pathOf steps) (trimLast steps) []
  rw [List.nil_append] at hloop
  have hslash : ('$' :: stepChars (trimLast steps)).head? ≠ some '/' :=
    fun heq => absurd (Option.some.inj heq) (by decide)
  unfold toJsonPointer
  rw [pathOf, String.toList_ofList, trimChars_path]
  have hdollar : stripDollar ('$' :: stepChars (trimLast steps)) = stepChars (trimLast steps) := rfl
  dsimp only
  rw [if_neg hslash, hdollar, ← hloop, pathOf]
  split_ifs with hroot hdot
  · cases hroot with
    | inl hnil => rw [hnil, pointerLoop_nil]
    | inr hpoint => rw [hpoint, pointerLoop_dot, pointerLoop_nil]
  · rcases stepChars_cases (trimLast steps) with ⟨rest, hrest⟩ | hnil | hbracket
    · rw [hrest, dropBytes_one rest rfl, pointerLoop_dot]
      rfl
    · exact absurd (Or.inl hnil) hroot
    · rw [hbracket] at hdot
      exact absurd (Option.some.inj hdot) (by decide)
  · rfl

/-- What a path made of steps finds. -/
theorem locate_pathOf (root : Json) (steps : List PathStep) :
    locate root (pathOf steps) =
      some (.ok (((trimLast steps).flatMap PathStep.tokens).foldlM Pointer.select root)) := by
  have hfind := Pointer.find_join root ((trimLast steps).flatMap PathStep.chunks)
  rw [List.flatMap_assoc] at hfind
  rw [locate, toJsonPointer_pathOf]
  exact congrArg (fun found => some (Except.ok found)) hfind

/-! ## When a path finds what its steps say -/

/-- A step that is looked up as it is written: a name that is not empty and no index, or a text
in brackets without the characters that a pointer reads otherwise. -/
def PathStep.Plain : PathStep → Prop
  | .name text _ => text ≠ [] ∧ Pointer.parseIndex text = none
  | .bracket text _ => '/' ∉ text ∧ ¬['~', '0'] <:+: text ∧ ¬['~', '1'] <:+: text

/-- A path of such steps that does not end in white space. -/
def PlainPath (steps : List PathStep) : Prop :=
  (∀ step ∈ steps, step.Plain) ∧ ∀ c ∈ (stepChars steps).getLast?, isWhitespace c = false

theorem tokens_name {text : List Char} (plain : IsSegment text) (h : text ≠ []) :
    (PathStep.name text plain).tokens = [text] := by
  have hsplit := List.splitOn_eq_singleton (Pointer.slash_not_mem_escape text)
  simp [PathStep.tokens, PathStep.chunks, h, hsplit, Pointer.unescape_escape]

theorem tokens_bracket {text : List Char} (plain : ']' ∉ text) (hslash : '/' ∉ text) :
    (PathStep.bracket text plain).tokens = [Pointer.unescape text] := by
  have hsplit := List.splitOn_eq_singleton hslash
  simp [PathStep.tokens, PathStep.chunks, hsplit]

variable {step : PathStep}

theorem tokens_of_plain (h : step.Plain) : step.tokens = [step.text] := by
  cases step with
  | name text plain => exact tokens_name plain h.1
  | bracket text plain =>
    rw [tokens_bracket plain h.1, Pointer.unescape_eq_self_iff.mpr h.2]
    rfl

variable {root value : Json}

theorem selects_iff (h : step.Plain) :
    Selects step root value ↔ Pointer.select root step.text = some value := by
  constructor
  · intro hselects
    cases hselects with
    | member hmember => exact hmember
    | entry hmember => exact hmember
    | item hitem =>
      change (Pointer.parseIndex (Nat.toDigits 10 _)).bind _ = _
      rw [Pointer.parseIndex_eq_some_iff.mpr rfl]
      exact hitem
  · intro hselect
    cases root with
    | obj members =>
      cases step with
      | name text plain => exact .member hselect
      | bracket text plain => exact .entry hselect
    | arr items =>
      obtain ⟨n, hindex, hitem⟩ := Option.bind_eq_some_iff.mp hselect
      cases step with
      | name text plain =>
        have hnone := h.2
        rw [PathStep.text, hnone] at hindex
        cases hindex
      | bracket text plain =>
        have htext : text = Nat.toDigits 10 n := Pointer.parseIndex_eq_some_iff.mp hindex
        subst htext
        exact .item hitem
    | _ => cases hselect

variable {steps : List PathStep}

theorem walks_iff (h : ∀ step ∈ steps, step.Plain) :
    Walks steps root value ↔
      (steps.map PathStep.text).foldlM Pointer.select root = some value := by
  induction steps generalizing root with
  | nil =>
    constructor
    · rintro ⟨⟩
      rfl
    · intro heq
      cases heq
      exact .done _
  | cons step steps ih =>
    rw [List.forall_mem_cons] at h
    rw [List.map_cons, List.foldlM_cons]
    constructor
    · rintro ⟨⟩
      rename_i next hselects hrest
      rw [(selects_iff h.1).mp hselects]
      exact (ih h.2).mp hrest
    · intro heq
      obtain ⟨next, hselect, hrest⟩ := Option.bind_eq_some_iff.mp heq
      exact .step ((selects_iff h.1).mpr hselect) ((ih h.2).mpr hrest)

theorem text_of_selects {token : List Char} {inner value : Json}
    (h : Selects step (.obj [(String.ofList token, inner)]) value) :
    token = step.text ∧ value = inner := by
  have hmember : Json.member? (String.ofList step.text) [(String.ofList token, inner)] =
      some value := by
    cases h with
    | member hmember => exact hmember
    | entry hmember => exact hmember
  rw [Pointer.member?_singleton] at hmember
  split at hmember
  · rename_i htoken
    exact ⟨htoken, (Option.some.inj hmember).symm⟩
  · cases hmember

/-- Steps that lead to the end of a chain are the ones that it is made of. -/
theorem texts_of_walks {tokens : List (List Char)}
    (h : Walks steps (Pointer.chain .null tokens) .null) : tokens = steps.map PathStep.text := by
  induction steps generalizing tokens with
  | nil =>
    cases tokens with
    | nil => rfl
    | cons token tokens =>
      rw [Pointer.chain] at h
      cases h
  | cons step steps ih =>
    cases tokens with
    | nil =>
      rcases h with _ | ⟨hselects, _⟩
      cases hselects
    | cons token tokens =>
      rw [Pointer.chain] at h
      rcases h with _ | ⟨hselects, hrest⟩
      obtain ⟨rfl, rfl⟩ := text_of_selects hselects
      rw [ih hrest, List.map_cons]

/-- Steps through a chain end at what it is around. -/
theorem walks_of_chain {first rest : List PathStep} {leaf value : Json}
    (h : Walks (first ++ rest) (Pointer.chain leaf (first.map PathStep.text)) value) :
    Walks rest leaf value := by
  induction first with
  | nil => exact h
  | cons step first ih =>
    rw [List.cons_append, List.map_cons, Pointer.chain] at h
    rcases h with _ | ⟨hselects, hrest⟩
    obtain ⟨-, rfl⟩ := text_of_selects hselects
    exact ih hrest

/-- The number of characters of some texts. -/
def weight (texts : List (List Char)) : Nat := (texts.map List.length).sum

theorem weight_flatMap (f : PathStep → List (List Char)) (steps : List PathStep) :
    weight (steps.flatMap f) = (steps.map fun step => weight (f step)).sum := by
  induction steps with
  | nil => rfl
  | cons step steps ih =>
    rw [weight] at ih
    rw [weight, List.flatMap_cons, List.map_append, List.sum_append, ih, List.map_cons,
      List.sum_cons]
    rfl

/-- Cutting a text takes its separators away. -/
theorem weight_splitOn (c : Char) (text : List Char) :
    weight (text.splitOn c) + (text.splitOn c).length = text.length + 1 := by
  induction text with
  | nil => rfl
  | cons d text ih =>
    rw [List.splitOn_cons_eq_if_modifyHead]
    split
    · simp only [weight, List.map_cons, List.length_nil, List.sum_cons,
        List.length_cons] at ih ⊢
      omega
    · have hne : text.splitOn c ≠ [] := List.splitOn_ne_nil _ _
      cases hsplit : text.splitOn c with
      | nil => exact absurd hsplit hne
      | cons piece pieces =>
        rw [hsplit] at ih
        simp only [weight, List.modifyHead_cons, List.map_cons, List.sum_cons,
          List.length_cons] at ih ⊢
        omega

theorem weight_unescape_le (texts : List (List Char)) :
    weight (texts.map Pointer.unescape) ≤ weight texts := by
  induction texts with
  | nil => exact le_rfl
  | cons text texts ih =>
    have htext := Pointer.length_unescape_le text
    simp only [weight, List.map_cons, List.sum_cons] at ih ⊢
    omega

/-- The tokens of a step have at most its characters. -/
theorem weight_tokens_le (step : PathStep) : weight step.tokens ≤ step.text.length := by
  cases step with
  | name text plain =>
    by_cases hempty : text = []
    · simp [PathStep.tokens, PathStep.chunks, hempty, weight]
    · simp [tokens_name plain hempty, weight, PathStep.text]
  | bracket text plain =>
    have htokens : (PathStep.bracket text plain).tokens =
        (text.splitOn '/').map Pointer.unescape := by
      simp [PathStep.tokens, PathStep.chunks]
    have hsplit := weight_splitOn '/' text
    have hunescape := weight_unescape_le (text.splitOn '/')
    have hpos := List.length_pos_iff.mpr (List.splitOn_ne_nil '/' text)
    rw [htokens]
    change _ ≤ text.length
    omega

/-- A text in brackets that loses no character is plain. -/
theorem plain_of_weight {text : List Char} {plain : ']' ∉ text}
    (h : text.length ≤ weight (PathStep.bracket text plain).tokens) :
    (PathStep.bracket text plain).Plain := by
  have htokens : (PathStep.bracket text plain).tokens =
      (text.splitOn '/').map Pointer.unescape := by
    simp [PathStep.tokens, PathStep.chunks]
  have hsplit := weight_splitOn '/' text
  have hunescape := weight_unescape_le (text.splitOn '/')
  rw [htokens] at h
  have hone : (text.splitOn '/').length = 1 := by
    have hpos := List.length_pos_iff.mpr (List.splitOn_ne_nil '/' text)
    omega
  have hslash : '/' ∉ text := by
    intro hmem
    obtain ⟨front, back, rfl⟩ := List.append_of_mem hmem
    have hfront := List.length_pos_iff.mpr (List.splitOn_ne_nil '/' front)
    have hback := List.length_pos_iff.mpr (List.splitOn_ne_nil '/' back)
    rw [List.splitOn_append_cons_self, List.length_append] at hone
    omega
  rw [List.splitOn_eq_singleton hslash] at h
  have hlength : text.length ≤ (Pointer.unescape text).length := by
    simpa [weight] using h
  exact ⟨hslash, Pointer.unescape_eq_self_iff.mp (Pointer.unescape_eq_self_of_length hlength)⟩

/-- Sums of terms that are in order are equal only term by term. -/
theorem le_of_sum_le {f g : PathStep → Nat} (hle : ∀ step ∈ steps, f step ≤ g step)
    (h : (steps.map g).sum ≤ (steps.map f).sum) : ∀ step ∈ steps, g step ≤ f step := by
  induction steps with
  | nil => exact fun _ hmem => absurd hmem List.not_mem_nil
  | cons step steps ih =>
    rw [List.forall_mem_cons] at hle ⊢
    have hrest : (steps.map f).sum ≤ (steps.map g).sum :=
      List.sum_le_sum hle.2
    simp only [List.map_cons, List.sum_cons] at h
    have hhead := hle.1
    exact ⟨by omega, ih hle.2 (by omega)⟩

theorem weight_trimLast (steps : List PathStep) :
    weight ((trimLast steps).map PathStep.text) ≤ weight (steps.map PathStep.text) ∧
      (weight (steps.map PathStep.text) ≤ weight ((trimLast steps).map PathStep.text) →
        trimLast steps = steps) := by
  induction steps with
  | nil => exact ⟨le_rfl, fun _ => rfl⟩
  | cons step steps ih =>
    cases steps with
    | nil =>
      cases step with
      | name text plain =>
        have hprefix := List.rdropWhile_prefix isWhitespace text
        refine ⟨?_, fun h => ?_⟩
        · simpa [trimLast, weight, PathStep.text] using hprefix.length_le
        · have hlength : text.length ≤ (text.rdropWhile isWhitespace).length := by
            simpa [trimLast, weight, PathStep.text] using h
          simp only [trimLast, hprefix.eq_of_length_le hlength]
      | bracket text plain => exact ⟨le_rfl, fun _ => rfl⟩
    | cons second rest =>
      rw [trimLast_cons_cons]
      simp only [weight, List.map_cons, List.sum_cons] at ih ⊢
      refine ⟨by omega, fun h => ?_⟩
      rw [ih.2 (by omega)]

/-- When the tokens of a path are the texts of its steps, nothing of it was trimmed, dropped or
cut. -/
theorem plain_of_tokens (h : (trimLast steps).flatMap PathStep.tokens = steps.map PathStep.text) :
    trimLast steps = steps ∧
      (∀ text plain, PathStep.bracket text plain ∈ steps →
        (PathStep.bracket text plain).Plain) ∧
      ∀ text plain, PathStep.name text plain ∈ steps → text ≠ [] := by
  have hle : weight ((trimLast steps).flatMap PathStep.tokens) ≤
      weight ((trimLast steps).map PathStep.text) := by
    rw [weight_flatMap, weight, List.map_map]
    exact List.sum_le_sum fun step _ => weight_tokens_le step
  have htrim : trimLast steps = steps := (weight_trimLast steps).2 (h ▸ hle)
  rw [htrim] at h
  have hsum : (steps.map fun step => step.text.length).sum ≤
      (steps.map fun step => weight step.tokens).sum := by
    rw [← weight_flatMap, h, weight, List.map_map]
    exact le_rfl
  have hbrackets : ∀ text plain, PathStep.bracket text plain ∈ steps →
      (PathStep.bracket text plain).Plain := fun text plain hmem =>
    plain_of_weight (le_of_sum_le (fun step _ => weight_tokens_le step) hsum _ hmem)
  refine ⟨htrim, hbrackets, ?_⟩
  have hcount : (steps.map fun _ => 1).sum ≤ (steps.map fun step => step.tokens.length).sum := by
    rw [← List.length_flatMap, h]
    simp
  have hone : ∀ step ∈ steps, step.tokens.length ≤ 1 := by
    intro step hmem
    cases step with
    | name text plain =>
      by_cases hempty : text = []
      · simp [PathStep.tokens, PathStep.chunks, hempty]
      · rw [tokens_name plain hempty, List.length_singleton]
    | bracket text plain =>
      rw [tokens_of_plain (hbrackets text plain hmem), List.length_singleton]
  intro text plain hmem hempty
  have hlength := le_of_sum_le hone hcount _ hmem
  simp [PathStep.tokens, PathStep.chunks, hempty] at hlength

/-- A path that does not end in white space is not trimmed. -/
theorem trimLast_eq_self (h : ∀ c ∈ (stepChars steps).getLast?, isWhitespace c = false) :
    trimLast steps = steps := by
  induction steps with
  | nil => rfl
  | cons step steps ih =>
    cases steps with
    | nil =>
      cases step with
      | name text plain =>
        have hlast : text.rdropWhile isWhitespace = text := by
          refine List.rdropWhile_eq_self_iff.mpr fun hne => ?_
          have hmem : text.getLast hne ∈ (stepChars [.name text plain]).getLast? := by
            have hchars : stepChars [.name text plain] = '.' :: text := by
              simp [stepChars, PathStep.chars]
            rw [hchars, List.getLast?_eq_some_getLast (List.cons_ne_nil _ _),
              List.getLast_cons hne]
            rfl
          rw [h _ hmem]
          exact Bool.false_ne_true
        simp only [trimLast, hlast]
      | bracket text plain => rfl
    | cons second rest =>
      have hne : stepChars (second :: rest) ≠ [] := stepChars_ne_nil second rest
      have hsplit : stepChars (step :: second :: rest) =
          step.chars ++ stepChars (second :: rest) := rfl
      rw [hsplit, List.getLast?_append_of_ne_nil _ hne] at h
      rw [trimLast_cons_cons, ih h]

/-- A name that is the numeral of an index also finds items of arrays. -/
theorem parseIndex_of_locate {steps : List PathStep} {text : List Char} {plain : IsSegment text}
    (hmem : PathStep.name text plain ∈ steps)
    (htokens : (trimLast steps).flatMap PathStep.tokens = steps.map PathStep.text)
    (h : ∀ root found, locate root (pathOf steps) = some (.ok found) →
      ∀ value, found = some value → Walks steps root value) :
    Pointer.parseIndex text = none := by
  cases hindex : Pointer.parseIndex text with
  | none => rfl
  | some n =>
    exfalso
    obtain ⟨first, rest, hsteps⟩ := List.append_of_mem hmem
    -- An array whose item at the index leads on to the end of the path.
    let items := List.replicate n Json.null ++ [Pointer.chain .null (rest.map PathStep.text)]
    let root := Pointer.chain (.arr items) (first.map PathStep.text)
    have hitem : Pointer.select (.arr items) text =
        some (Pointer.chain .null (rest.map PathStep.text)) := by
      change (Pointer.parseIndex text).bind _ = _
      rw [hindex, Option.bind_some, List.getElem?_append_right (by simp)]
      simp
    have hfound : (steps.map PathStep.text).foldlM Pointer.select root = some .null := by
      rw [hsteps, List.map_append, List.foldlM_append, Pointer.foldlM_chain, Option.bind_eq_bind,
        Option.bind_some, List.map_cons, List.foldlM_cons]
      change (Pointer.select (.arr items) text).bind _ = _
      rw [hitem, Option.bind_some]
      exact Pointer.foldlM_chain .null _
    have hlocate : locate root (pathOf steps) = some (.ok (some .null)) := by
      rw [locate_pathOf, htokens, hfound]
    have hwalks := h root _ hlocate .null rfl
    rw [hsteps] at hwalks
    rcases walks_of_chain hwalks with _ | ⟨hselects, _⟩
    cases hselects

/-- A path finds what its steps say in every document exactly when it is plain. A path of any
kind is rewritten without the program stopping. -/
theorem locate_iff (path : String) (steps : List PathStep) :
    (toJsonPointer path).isSome = true ∧
      ((∀ root, ∃ found, locate root (pathOf steps) = some (.ok found) ∧
          ∀ value, found = some value ↔ Walks steps root value) ↔
        PlainPath steps) := by
  refine ⟨isSome_toJsonPointer path, fun h => ?_, fun h root => ?_⟩
  · have htokens : (trimLast steps).flatMap PathStep.tokens = steps.map PathStep.text := by
      obtain ⟨found, hfound, hwalks⟩ :=
        h (Pointer.chain .null ((trimLast steps).flatMap PathStep.tokens))
      rw [locate_pathOf, Pointer.foldlM_chain] at hfound
      cases hfound
      exact texts_of_walks ((hwalks .null).mp rfl)
    obtain ⟨htrim, hbrackets, hnames⟩ := plain_of_tokens htokens
    constructor
    · intro step hmem
      cases step with
      | name text plain =>
        refine ⟨hnames text plain hmem, parseIndex_of_locate hmem htokens ?_⟩
        intro root found hlocate value hvalue
        obtain ⟨found', hfound, hwalks⟩ := h root
        rw [hlocate] at hfound
        cases hfound
        exact (hwalks value).mp hvalue
      | bracket text plain => exact hbrackets text plain hmem
    · intro c hc
      have hdrop := rdropWhile_stepChars steps
      rw [htrim] at hdrop
      have hne : stepChars steps ≠ [] := by
        intro hnil
        rw [hnil] at hc
        cases hc
      have hlast := List.rdropWhile_eq_self_iff.mp hdrop hne
      rw [List.getLast?_eq_some_getLast hne] at hc
      cases hc
      exact Bool.eq_false_iff.mpr hlast
  · have hplain : steps.flatMap PathStep.tokens = steps.map PathStep.text := by
      rw [List.flatMap_congr fun step hmem => tokens_of_plain (h.1 step hmem),
        List.map_eq_flatMap]
    refine ⟨_, locate_pathOf root steps, fun value => ?_⟩
    rw [trimLast_eq_self h.2, hplain]
    exact (walks_iff h.1).symm

/-- The path of a member whose name has a slash. -/
def slashedPath : List PathStep := [.bracket ['a', '/', 'b'] (by decide)]

/-- In brackets a slash is read as the end of a token. -/
theorem locate_iff_not :
    ¬∀ (steps : List PathStep) (root : Json), ∃ found,
      locate root (pathOf steps) = some (.ok found) ∧
        ∀ value, found = some value ↔ Walks steps root value := by
  intro h
  obtain ⟨found, hfound, hwalks⟩ := h slashedPath (.obj [("a/b", .bool true)])
  have hnone : found = none := by
    rw [locate_pathOf] at hfound
    have hlocated : ((trimLast slashedPath).flatMap PathStep.tokens).foldlM Pointer.select
        (.obj [("a/b", .bool true)]) = none := by decide
    rw [hlocated] at hfound
    cases hfound
    rfl
  have hwalk : Walks slashedPath (.obj [("a/b", .bool true)]) (.bool true) :=
    .step (.entry (by decide)) (.done _)
  have hsome := (hwalks (.bool true)).mpr hwalk
  rw [hnone] at hsome
  cases hsome

end ApiVoy.Engine
