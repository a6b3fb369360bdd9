/-
# Templates

The placeholders of a text are found by a regular expression and replaced in one pass. Which
placeholders there are is also said by a recursive definition, and both agree on every text. A
dynamic token has a new value at each place.
-/

import ApiVoy.Engine.Variables
import ApiVoy.Foundation.Patterns

namespace ApiVoy.Engine.Template

open Domain Foundation

/-! ## Scanning -/

def notBrace (c : Char) : Bool := !isBrace c

/-- The expression of a placeholder: two braces, white space, as few other characters as
possible but one at least, white space and two braces. -/
def placeholderPattern : List (Atom Char) :=
  [.one (· = '\x7b'), .one (· = '\x7b'), ⟨isWhitespace, 0, true, true⟩,
    ⟨notBrace, 1, true, false⟩, ⟨isWhitespace, 0, true, true⟩, .one (· = '\x7d'),
    .one (· = '\x7d')]

/-- A character of a text, or what the atoms of the expression take. -/
inductive Fragment where
  | char (c : Char)
  | found (parts : List (List Char))

/-- The fragments of a text: the first match from the left, then the first one behind it. -/
def scanFrom : Nat → List Char → List Fragment
  | 0, _ => []
  | _, [] => []
  | fuel + 1, c :: text =>
    match matchAt placeholderPattern (c :: text) with
    | some (parts, rest) => .found parts :: scanFrom fuel rest
    | none => .char c :: scanFrom fuel text

/-- The group that the expression captures. -/
def captured (parts : List (List Char)) : List Char := parts.getD 3 []

section Replacing

variable (draws : Nat → Dynamics) (vars : StringMap)

/-- Replace the matches from a number on, and collect the names that have no value. -/
def replaceAll : Nat → List Fragment → List Char × List String
  | _, [] => ([], [])
  | n, .char c :: rest =>
    let replaced := replaceAll n rest
    (c :: replaced.1, replaced.2)
  | n, .found parts :: rest =>
    let key := String.ofList (trimChars (captured parts))
    let replaced := replaceAll (n + 1) rest
    match (resolveDynamic (draws n) key).or (vars.lookup key) with
    | some value => (value.toList ++ replaced.1, replaced.2)
    | none => (parts.flatten ++ replaced.1, key :: replaced.2)

def resolveTemplate (input : String) : Except String String :=
  let replaced := replaceAll draws vars 0 (scanFrom input.toList.length input.toList)
  match replaced.2.head? with
  | some name => .error name
  | none => .ok (String.ofList replaced.1)

end Replacing

/-! ## The expression finds the placeholders -/

/-- A text without braces between double braces. -/
structure IsPlaceholder (inside : List Char) : Prop where
  nonempty : inside ≠ []
  plain : ∀ c ∈ inside, isBrace c = false

theorem placeholderAt_eq_some_iff {text inside rest : List Char} :
    placeholderAt text = some (inside, rest) ↔
      IsPlaceholder inside ∧ text = (Piece.placeholder inside).text ++ rest := by
  constructor
  · intro h
    refine ⟨?_, placeholderAt_text h⟩
    unfold placeholderAt at h
    split at h
    · split at h
      · cases h
      · rename_i text hne
        split at h
        · cases h
          refine ⟨hne, fun c hc => ?_⟩
          simpa using List.mem_takeWhile_imp hc
        · cases h
    · cases h
  · rintro ⟨⟨hne, hplain⟩, rfl⟩
    have hall : ∀ c ∈ inside, (!isBrace c) = true := fun c hc => by rw [hplain c hc]; rfl
    have htake : (inside ++ '\x7d' :: '\x7d' :: rest).takeWhile (!isBrace ·) = inside := by
      rw [List.takeWhile_append_of_pos hall]
      simp [isBrace]
    have hdrop : (inside ++ '\x7d' :: '\x7d' :: rest).dropWhile (!isBrace ·) =
        '\x7d' :: '\x7d' :: rest := by
      rw [List.dropWhile_append_of_pos hall]
      simp [isBrace]
    have htext : (Piece.placeholder inside).text ++ rest =
        '\x7b' :: '\x7b' :: (inside ++ '\x7d' :: '\x7d' :: rest) := by
      simp [Piece.text]
    rw [htext, placeholderAt, htake, hdrop, if_neg hne]
    rfl

theorem isBrace_of_isWhitespace {c : Char} (h : isWhitespace c = true) : isBrace c = false := by
  cases hbrace : isBrace c with
  | false => rfl
  | true =>
    rw [isBrace, Bool.or_eq_true, decide_eq_true_eq, decide_eq_true_eq] at hbrace
    rcases hbrace with rfl | rfl <;> exact absurd h (by decide)

/-- White space around a text is trimmed. -/
theorem trimChars_append {before text behind : List Char}
    (hbefore : ∀ c ∈ before, isWhitespace c = true)
    (hbehind : ∀ c ∈ behind, isWhitespace c = true) :
    trimChars (before ++ text ++ behind) = trimChars text := by
  have hreverse : ∀ c ∈ behind.reverse, isWhitespace c = true := fun c hc =>
    hbehind c (List.mem_reverse.mp hc)
  rw [trimChars, trimChars, List.append_assoc, List.dropWhile_append_of_pos hbefore,
    List.dropWhile_append]
  split
  · rename_i hempty
    rw [List.isEmpty_iff.mp hempty, List.dropWhile_eq_nil_iff.mpr hbehind]
  · rw [List.reverse_append, List.dropWhile_append_of_pos hreverse]

variable {parts : List (List Char)}

/-- What the atoms of the expression take. -/
theorem parts_of_takes (h : List.Forall₂ Atom.Takes placeholderPattern parts) :
    ∃ before group behind, parts = [['\x7b'], ['\x7b'], before, group, behind, ['\x7d'], ['\x7d']] ∧
      (∀ c ∈ before, isWhitespace c = true) ∧ (∀ c ∈ group, isBrace c = false) ∧ group ≠ [] ∧
      ∀ c ∈ behind, isWhitespace c = true := by
  have hone : ∀ {d : Char} {part : List Char}, (Atom.one (· = d)).Takes part → part = [d] := by
    intro d part htakes
    obtain ⟨c, rfl⟩ := List.length_eq_one_iff.mp (htakes.most rfl)
    have hc := htakes.kind c List.mem_cons_self
    rw [of_decide_eq_true hc]
  rw [placeholderPattern] at h
  obtain _ | ⟨hfirst, h⟩ := h
  obtain _ | ⟨hsecond, h⟩ := h
  obtain _ | ⟨hbefore, h⟩ := h
  rename_i before _
  obtain _ | ⟨hgroup, h⟩ := h
  rename_i group _
  obtain _ | ⟨hbehind, h⟩ := h
  rename_i behind _
  obtain _ | ⟨hthird, h⟩ := h
  obtain _ | ⟨hfourth, h⟩ := h
  cases h
  have hne : group ≠ [] := by
    rintro rfl
    exact absurd hgroup.least (by decide)
  refine ⟨before, group, behind, ?_, hbefore.kind, fun c hc => ?_, hne, hbehind.kind⟩
  · rw [hone hfirst, hone hsecond, hone hthird, hone hfourth]
  · simpa [notBrace] using hgroup.kind c hc

/-- The expression matches where a placeholder is, takes all of it and captures its name. -/
theorem matchAt_eq_some {text rest : List Char}
    (h : matchAt placeholderPattern text = some (parts, rest)) :
    ∃ inside, placeholderAt text = some (inside, rest) ∧
      parts.flatten = (Piece.placeholder inside).text ∧
      trimChars (captured parts) = trimChars inside := by
  obtain ⟨htakes, htext⟩ := matchAt_sound h
  obtain ⟨before, group, behind, rfl, hbefore, hgroup, hne, hbehind⟩ := parts_of_takes htakes
  have hflatten : [['\x7b'], ['\x7b'], before, group, behind, ['\x7d'], ['\x7d']].flatten =
      (Piece.placeholder (before ++ group ++ behind)).text := by
    simp [Piece.text]
  refine ⟨before ++ group ++ behind, placeholderAt_eq_some_iff.mpr ⟨⟨?_, ?_⟩, ?_⟩, hflatten,
    (trimChars_append hbefore hbehind).symm⟩
  · simp [hne]
  · intro c hc
    rw [List.mem_append, List.mem_append] at hc
    rcases hc with (hc | hc) | hc
    · exact isBrace_of_isWhitespace (hbefore c hc)
    · exact hgroup c hc
    · exact isBrace_of_isWhitespace (hbehind c hc)
  · rw [htext, hflatten]

theorem placeholderAt_eq_none {text : List Char} (h : matchAt placeholderPattern text = none) :
    placeholderAt text = none := by
  cases hat : placeholderAt text with
  | none => rfl
  | some found =>
    obtain ⟨inside, rest⟩ := found
    obtain ⟨⟨hne, hplain⟩, rfl⟩ := placeholderAt_eq_some_iff.mp hat
    have htakes : List.Forall₂ Atom.Takes placeholderPattern
        [['\x7b'], ['\x7b'], [], inside, [], ['\x7d'], ['\x7d']] := by
      have hone : ∀ d : Char, (Atom.one (· = d)).Takes [d] := fun d =>
        ⟨fun c hc => decide_eq_true (List.mem_singleton.mp hc), le_rfl, fun _ => rfl⟩
      have hempty : (⟨isWhitespace, 0, true, true⟩ : Atom Char).Takes [] :=
        ⟨fun c hc => absurd hc List.not_mem_nil, le_rfl, fun hmany => by cases hmany⟩
      have hinside : (⟨notBrace, 1, true, false⟩ : Atom Char).Takes inside :=
        ⟨fun c hc => congrArg (!·) (hplain c hc), List.length_pos_iff.mpr hne,
          fun hmany => by cases hmany⟩
      exact .cons (hone _) (.cons (hone _) (.cons hempty (.cons hinside (.cons hempty
        (.cons (hone _) (.cons (hone _) .nil))))))
    have hmatch := matchAt_complete htakes rest
    have htext : [['\x7b'], ['\x7b'], [], inside, [], ['\x7d'], ['\x7d']].flatten ++ rest =
        (Piece.placeholder inside).text ++ rest := by
      simp [Piece.text]
    rw [htext, h] at hmatch
    cases hmatch

/-- A fragment and the piece that it is read from. -/
inductive Reads : Fragment → Piece → Prop where
  | char (c : Char) : Reads (.char c) (.char c)
  | found {parts : List (List Char)} {inside : List Char}
      (text : parts.flatten = (Piece.placeholder inside).text)
      (key : trimChars (captured parts) = trimChars inside) :
      Reads (.found parts) (.placeholder inside)

/-- Scanning finds the pieces of a text. -/
theorem reads_scanFrom (fuel : Nat) (text : List Char) :
    List.Forall₂ Reads (scanFrom fuel text) (piecesFrom fuel text) := by
  induction fuel generalizing text with
  | zero => exact .nil
  | succ fuel ih =>
    cases text with
    | nil => exact .nil
    | cons c text =>
      rw [scanFrom, piecesFrom]
      cases hmatch : matchAt placeholderPattern (c :: text) with
      | none =>
        rw [placeholderAt_eq_none hmatch]
        exact .cons (.char c) (ih text)
      | some found =>
        obtain ⟨parts, rest⟩ := found
        obtain ⟨inside, hat, hflatten, htrim⟩ := matchAt_eq_some hmatch
        rw [hat]
        exact .cons (.found hflatten htrim) (ih rest)

/-! ## What a template becomes -/

/-- The names of some pieces, in order. -/
def pieceKeys (ps : List Piece) : List String :=
  ps.filterMap fun
    | .char _ => none
    | .placeholder inside => some (keyOf inside)

/-- Is a name a dynamic token or a variable? -/
def known (vars : StringMap) (key : String) : Bool :=
  ["$uuid", "$timestamp", "$isoTimestamp"].contains key || (vars.lookup key).isSome

section Law

variable (draws : Nat → Dynamics) (vars : StringMap)

/-- The text with the value of each placeholder in its place. -/
def substituted : Nat → List Piece → List Char
  | _, [] => []
  | n, .char c :: ps => c :: substituted n ps
  | n, .placeholder inside :: ps =>
    ((valueOf (draws n) vars (keyOf inside)).getD "").toList ++ substituted (n + 1) ps

theorem isSome_valueOf (dynamics : Dynamics) (key : String) :
    (valueOf dynamics vars key).isSome = known vars key := by
  unfold valueOf resolveDynamic known
  by_cases huuid : key = "$uuid"
  · simp [huuid]
  · by_cases htimestamp : key = "$timestamp"
    · simp [htimestamp]
    · by_cases hiso : key = "$isoTimestamp"
      · simp [hiso]
      · simp [huuid, htimestamp, hiso]

/-- Replacing collects the names without a value, and when there is none it puts every value in
its place. -/
theorem replaceAll_spec {fragments : List Fragment} {ps : List Piece}
    (h : List.Forall₂ Reads fragments ps) (n : Nat) :
    (replaceAll draws vars n fragments).2 = (pieceKeys ps).filter (!known vars ·) ∧
      ((replaceAll draws vars n fragments).2 = [] →
        (replaceAll draws vars n fragments).1 = substituted draws vars n ps) := by
  induction h generalizing n with
  | nil => exact ⟨rfl, fun _ => rfl⟩
  | @cons fragment piece fragments ps hreads _ ih =>
    cases hreads with
    | char c =>
      refine ⟨(ih n).1, fun hnone => ?_⟩
      exact congrArg (c :: ·) ((ih n).2 hnone)
    | @found parts inside htext hkey =>
      have hname : String.ofList (trimChars (captured parts)) = keyOf inside := by
        rw [hkey, keyOf]
      have hkeys : pieceKeys (.placeholder inside :: ps) = keyOf inside :: pieceKeys ps := rfl
      have hvalue := isSome_valueOf vars (draws n) (keyOf inside)
      rw [replaceAll, hname, hkeys, List.filter_cons, substituted]
      cases hfound : valueOf (draws n) vars (keyOf inside) with
      | some value =>
        rw [hfound] at hvalue
        rw [valueOf] at hfound
        rw [hfound, ← hvalue]
        refine ⟨(ih (n + 1)).1, fun hnone => ?_⟩
        exact congrArg (value.toList ++ ·) ((ih (n + 1)).2 hnone)
      | none =>
        rw [hfound] at hvalue
        rw [valueOf] at hfound
        rw [hfound, ← hvalue]
        refine ⟨congrArg (keyOf inside :: ·) (ih (n + 1)).1, fun hnone => ?_⟩
        cases hnone

/-- How a text is divided from the left: where a placeholder begins it is taken whole, and
elsewhere a character. -/
inductive Splits : List Char → List Piece → Prop where
  | nil : Splits [] []
  | placeholder {inside rest : List Char} {ps : List Piece} (h : IsPlaceholder inside)
      (hrest : Splits rest ps) :
      Splits ((Piece.placeholder inside).text ++ rest) (.placeholder inside :: ps)
  | char {c : Char} {rest : List Char} {ps : List Piece}
      (h : ∀ inside behind, IsPlaceholder inside →
        c :: rest ≠ (Piece.placeholder inside).text ++ behind)
      (hrest : Splits rest ps) : Splits (c :: rest) (.char c :: ps)

variable {text : List Char}

theorem splits_piecesFrom {fuel : Nat} (h : text.length ≤ fuel) :
    Splits text (piecesFrom fuel text) := by
  induction fuel generalizing text with
  | zero =>
    have hnil : text = [] := List.length_eq_zero_iff.mp (Nat.le_zero.mp h)
    rw [hnil]
    exact .nil
  | succ fuel ih =>
    cases text with
    | nil => exact .nil
    | cons c text =>
      rw [piecesFrom]
      cases hat : placeholderAt (c :: text) with
      | none =>
        refine .char (fun inside behind hinside heq => ?_) (ih (Nat.le_of_succ_le_succ h))
        rw [placeholderAt_eq_some_iff.mpr ⟨hinside, heq⟩] at hat
        cases hat
      | some found =>
        obtain ⟨inside, rest⟩ := found
        obtain ⟨hinside, heq⟩ := placeholderAt_eq_some_iff.mp hat
        have hlength := congrArg List.length heq
        rw [heq]
        refine .placeholder hinside (ih ?_)
        rw [List.length_append] at hlength
        simp [Piece.text] at hlength h
        omega

theorem splits_unique {ps qs : List Piece} (hps : Splits text ps) (hqs : Splits text qs) :
    ps = qs := by
  induction hps generalizing qs with
  | nil =>
    generalize htext : ([] : List Char) = text at hqs
    cases hqs with
    | nil => rfl
    | placeholder h _ => simp [Piece.text] at htext
    | char _ _ => cases htext
  | @placeholder inside rest ps hinside _ ih =>
    generalize htext : (Piece.placeholder inside).text ++ rest = text at hqs
    cases hqs with
    | nil => simp [Piece.text] at htext
    | @placeholder other behind _ hother hrest =>
      have hfirst : placeholderAt ((Piece.placeholder inside).text ++ rest) =
          some (inside, rest) := placeholderAt_eq_some_iff.mpr ⟨hinside, rfl⟩
      have hsecond : placeholderAt ((Piece.placeholder inside).text ++ rest) =
          some (other, behind) := placeholderAt_eq_some_iff.mpr ⟨hother, htext⟩
      rw [hfirst] at hsecond
      cases hsecond
      rw [ih hrest]
    | char h _ => exact absurd htext.symm (h inside rest hinside)
  | @char c rest ps hnone _ ih =>
    generalize htext : c :: rest = text at hqs
    cases hqs with
    | nil => cases htext
    | placeholder h _ => exact absurd htext (hnone _ _ h)
    | char _ hrest =>
      cases htext
      rw [ih hrest]

/-- A template is resolved when all its names are known, and else the first other name is
reported. -/
theorem resolveTemplate_eq (input : String) : resolveTemplate draws vars input =
    match (pieceKeys (pieces input)).find? (!known vars ·) with
    | some name => .error name
    | none => .ok (String.ofList (substituted draws vars 0 (pieces input))) := by
  obtain ⟨hnames, htext⟩ :=
    replaceAll_spec draws vars (reads_scanFrom input.toList.length input.toList) 0
  have hfind : (replaceAll draws vars 0 (scanFrom input.toList.length input.toList)).2.head? =
      (pieceKeys (pieces input)).find? (!known vars ·) := by
    rw [hnames, List.head?_filter]
    rfl
  unfold resolveTemplate
  dsimp only
  rw [hfind]
  cases hunknown : (pieceKeys (pieces input)).find? (!known vars ·) with
  | some name => rfl
  | none =>
    refine congrArg (fun text => Except.ok (String.ofList text)) (htext ?_)
    rw [hnames]
    exact List.filter_eq_nil_iff.mpr (List.find?_eq_none.mp hunknown)

theorem resolvePieces_eq (dynamics : Dynamics) (ps : List Piece) (n : Nat) :
    resolvePieces dynamics vars ps =
      match (pieceKeys ps).find? (!known vars ·) with
      | some name => .error name
      | none => .ok (String.ofList (substituted (fun _ => dynamics) vars n ps)) := by
  induction ps generalizing n with
  | nil => rfl
  | cons piece ps ih =>
    cases piece with
    | char c =>
      have hkeys : pieceKeys (.char c :: ps) = pieceKeys ps := rfl
      rw [resolvePieces, Piece.resolve, ih n, hkeys, substituted]
      cases (pieceKeys ps).find? (!known vars ·) with
      | some name => rfl
      | none => exact congrArg Except.ok String.ofList_append.symm
    | placeholder inside =>
      have hkeys : pieceKeys (.placeholder inside :: ps) = keyOf inside :: pieceKeys ps := rfl
      have hknown := isSome_valueOf vars dynamics (keyOf inside)
      rw [resolvePieces, Piece.resolve, hkeys, List.find?_cons, substituted, ← hknown]
      cases hvalue : valueOf dynamics vars (keyOf inside) with
      | none => rfl
      | some value =>
        rw [ih (n + 1)]
        cases (pieceKeys ps).find? (!known vars ·) with
        | some name => rfl
        | none =>
          refine congrArg Except.ok (Eq.trans ?_ String.ofList_append.symm)
          rw [Option.getD_some, String.ofList_toList]

/-- The templates of a request are resolved like any other, with the same values for the dynamic
tokens at each place. -/
theorem resolveTemplate_same (dynamics : Dynamics) (input : String) :
    Engine.resolveTemplate dynamics input vars = resolveTemplate (fun _ => dynamics) vars input := by
  rw [resolveTemplate_eq, Engine.resolveTemplate, resolvePieces_eq vars dynamics _ 0]

/-- The value that a name has in a request: of the scopes the one of the request comes first,
then the ones of the collection, the environment and the global one. -/
def scopedValue (dynamics : Dynamics) (request : RequestEnvelope) (scope : VariableScope)
    (key : String) : Option String :=
  (resolveDynamic dynamics key).or ((request.vars.lookup key).or ((scope.request.lookup key).or
    ((scope.collection.lookup key).or ((scope.environment.lookup key).or
      (scope.global.lookup key)))))

theorem valueOf_scoped (dynamics : Dynamics) (request : RequestEnvelope) (scope : VariableScope)
    (key : String) : valueOf dynamics (request.vars ∪ scope.merged) key =
      scopedValue dynamics request scope key := by
  rw [valueOf, VariableScope.merged, lookup_union, lookup_union, lookup_union, lookup_union]
  rfl

/-- The text with a value for each placeholder in its place. -/
def filled (value : String → Option String) (ps : List Piece) : List Char :=
  ps.flatMap fun
    | .char c => [c]
    | .placeholder inside => ((value (keyOf inside)).getD "").toList

theorem substituted_eq_filled (dynamics : Dynamics) (n : Nat) (ps : List Piece) :
    substituted (fun _ => dynamics) vars n ps = filled (valueOf dynamics vars) ps := by
  induction ps generalizing n with
  | nil => rfl
  | cons piece ps ih => cases piece <;> rw [substituted, ih] <;> rfl

end Law

/-- In a run of braces the last two before a name belong to the placeholder, and a value with
braces is copied. -/
example :
    resolveTemplate (fun _ => ⟨"", "", ""⟩) (AList.singleton "a" "{{b}}")
      "{{{ a }}}" = .ok "{{{b}}}" := by
  decide

end ApiVoy.Engine.Template
