/-
# Texts that are cut short

What reading a value takes of the tokens it is given, and that more tokens behind them change
nothing. It follows that the text of an object is not a beginning of the text of another value:
an object ends with its closing brace, and reading stops there.
-/

import ApiVoy.Foundation.JsonText
import ApiVoy.Foundation.Utf8

namespace ApiVoy.Foundation

namespace JsonText

/-! ## Reading and more tokens -/

/-- Reading takes `used` and nothing of what follows, with this much fuel or more. -/
def Takes {α : Type} (read : Nat → List Token → Option (α × List Token)) (fuel : Nat)
    (used : List Token) (a : α) : Prop :=
  ∀ more k, fuel ≤ k → read k (used ++ more) = some (a, more)

variable {fuel : Nat}

theorem Takes.succ {α : Type} {read : Nat → List Token → Option (α × List Token)}
    {used : List Token} {a : α}
    (h : ∀ more k, fuel ≤ k → read (k + 1) (used ++ more) = some (a, more)) :
    Takes read (fuel + 1) used a := by
  intro more k hk
  cases k with
  | zero => exact absurd hk (Nat.not_succ_le_zero fuel)
  | succ k => exact h more k (Nat.le_of_succ_le_succ hk)

/-- A value is taken from the front, whatever follows; an object ends with its brace. -/
def TakesValues (fuel : Nat) : Prop :=
  ∀ tokens value rest, readValue fuel tokens = some (value, rest) →
    ∃ used, tokens = used ++ rest ∧ Takes readValue fuel used value ∧
      (∃ first more, used = first :: more ∧ first ≠ .closeArray) ∧
      (tokens.head? = some .openObject → used.getLast? = some .closeObject)

/-- Items are taken from the front, whatever follows. -/
def TakesItems (fuel : Nat) : Prop :=
  ∀ tokens items rest, readItems fuel tokens = some (items, rest) →
    ∃ used, tokens = used ++ rest ∧ Takes readItems fuel used items ∧
      ∃ first more, used = first :: more ∧ first ≠ .closeArray

/-- Members are taken from the front, whatever follows; the brace is behind the last one. -/
def TakesMembers (fuel : Nat) : Prop :=
  ∀ tokens members rest, readMembers fuel tokens = some (members, rest) →
    ∃ used, tokens = used ++ rest ∧ Takes readMembers fuel used members ∧
      (∃ name more, used = .text name :: more) ∧ used.getLast? = some .closeObject

theorem takesValues_succ (hitems : TakesItems fuel) (hmembers : TakesMembers fuel) :
    TakesValues (fuel + 1) := by
  intro tokens value rest h
  cases tokens with
  | nil => cases h
  | cons token tokens =>
    cases token with
    | text content =>
      cases h
      exact ⟨[.text content], rfl, .succ fun _ _ _ => rfl, ⟨_, _, rfl, by simp⟩, by simp⟩
    | word chars =>
      obtain ⟨found, hfound, heq⟩ := Option.map_eq_some_iff.mp h
      cases heq
      refine ⟨[.word chars], rfl, .succ fun more k _ => ?_, ⟨_, _, rfl, by simp⟩, by simp⟩
      exact Option.map_eq_some_iff.mpr ⟨value, hfound, rfl⟩
    | openArray =>
      by_cases hclose : tokens.head? = some .closeArray
      · obtain ⟨tail, rfl⟩ := List.head?_eq_some_iff.mp hclose
        cases h
        exact ⟨[.openArray, .closeArray], rfl, .succ fun _ _ _ => rfl,
          ⟨_, _, rfl, by simp⟩, by simp⟩
      · rw [readValue] at h
        swap
        · rintro tail rfl
          exact hclose rfl
        obtain ⟨⟨items, rest'⟩, hfound, heq⟩ := Option.map_eq_some_iff.mp h
        cases heq
        obtain ⟨used, rfl, htakes, first, more, rfl, hfirst⟩ := hitems _ _ _ hfound
        refine ⟨.openArray :: first :: more, rfl, .succ fun after k hk => ?_,
          ⟨_, _, rfl, by simp⟩, by simp⟩
        have hnext := htakes after k hk
        rw [List.cons_append, readValue, hnext]
        · rfl
        · rintro tail heq
          cases heq
          exact hfirst rfl
    | openObject =>
      by_cases hclose : tokens.head? = some .closeObject
      · obtain ⟨tail, rfl⟩ := List.head?_eq_some_iff.mp hclose
        cases h
        exact ⟨[.openObject, .closeObject], rfl, .succ fun _ _ _ => rfl,
          ⟨_, _, rfl, by simp⟩, fun _ => rfl⟩
      · rw [readValue] at h
        swap
        · rintro tail rfl
          exact hclose rfl
        obtain ⟨⟨members, rest'⟩, hfound, heq⟩ := Option.map_eq_some_iff.mp h
        cases heq
        obtain ⟨used, rfl, htakes, ⟨name, more, rfl⟩, hlast⟩ := hmembers _ _ _ hfound
        refine ⟨.openObject :: .text name :: more, rfl, .succ fun after k hk => ?_,
          ⟨_, _, rfl, by simp⟩, fun _ => ?_⟩
        · have hnext := htakes after k hk
          rw [List.cons_append, readValue, hnext]
          · rfl
          · rintro tail heq
            cases heq
        · rw [List.getLast?_cons_cons]
          exact hlast
    | closeArray => cases h
    | closeObject => cases h
    | comma => cases h
    | colon => cases h

theorem takesItems_succ (hvalues : TakesValues fuel) (hitems : TakesItems fuel) :
    TakesItems (fuel + 1) := by
  intro tokens items rest h
  rw [readItems] at h
  obtain ⟨⟨item, after⟩, hitem, hrest⟩ := Option.bind_eq_some_iff.mp h
  obtain ⟨used, rfl, htakes, ⟨first, more, rfl, hfirst⟩, -⟩ := hvalues _ _ _ hitem
  cases after with
  | nil => cases hrest
  | cons token after =>
    cases token with
    | closeArray =>
      cases hrest
      refine ⟨first :: more ++ [.closeArray], by simp, .succ fun behind k hk => ?_,
        _, _, rfl, hfirst⟩
      rw [List.append_assoc, readItems, htakes _ k hk]
      rfl
    | comma =>
      obtain ⟨⟨others, rest'⟩, hothers, heq⟩ := Option.map_eq_some_iff.mp hrest
      cases heq
      obtain ⟨used', rfl, htakes', -⟩ := hitems _ _ _ hothers
      refine ⟨first :: more ++ .comma :: used', by simp, .succ fun behind k hk => ?_,
        _, _, rfl, hfirst⟩
      rw [List.append_assoc, readItems, htakes _ k hk]
      change (readItems k (used' ++ behind)).map _ = _
      rw [htakes' behind k hk]
      rfl
    | _ => cases hrest

theorem takesMembers_succ (hvalues : TakesValues fuel) (hmembers : TakesMembers fuel) :
    TakesMembers (fuel + 1) := by
  intro tokens members rest h
  rw [readMembers.eq_def] at h
  dsimp only at h
  split at h
  · rename_i name tokens
    obtain ⟨⟨value, after⟩, hvalue, hrest⟩ := Option.bind_eq_some_iff.mp h
    obtain ⟨used, rfl, htakes, -, -⟩ := hvalues _ _ _ hvalue
    cases after with
    | nil => cases hrest
    | cons token after =>
      cases token with
      | closeObject =>
        cases hrest
        refine ⟨.text name :: .colon :: (used ++ [.closeObject]), by simp,
          .succ fun behind k hk => ?_, ⟨_, _, rfl⟩, ?_⟩
        · rw [List.cons_append, List.cons_append, List.append_assoc, readMembers,
            htakes _ k hk]
          rfl
        · rw [List.getLast?_cons_cons, ← List.cons_append, List.getLast?_concat]
      | comma =>
        obtain ⟨⟨others, rest'⟩, hothers, heq⟩ := Option.map_eq_some_iff.mp hrest
        cases heq
        obtain ⟨used', rfl, htakes', -, hlast⟩ := hmembers _ _ _ hothers
        refine ⟨.text name :: .colon :: (used ++ .comma :: used'), by simp,
          .succ fun behind k hk => ?_, ⟨_, _, rfl⟩, ?_⟩
        · rw [List.cons_append, List.cons_append, List.append_assoc, readMembers,
            htakes _ k hk]
          change (readMembers k (used' ++ behind)).map _ = _
          rw [htakes' behind k hk]
          rfl
        · rw [List.getLast?_cons_cons, List.getLast?_cons, List.getLast?_append,
            List.getLast?_cons, hlast]
          rfl
      | _ => cases hrest
  · cases h

/-- Reading takes what it reads from the front, whatever follows. -/
theorem takes_all (fuel : Nat) : TakesValues fuel ∧ TakesItems fuel ∧ TakesMembers fuel := by
  induction fuel with
  | zero =>
    refine ⟨fun _ _ _ h => ?_, fun _ _ _ h => ?_, fun _ _ _ h => ?_⟩ <;> cases h
  | succ fuel ih =>
    obtain ⟨hvalues, hitems, hmembers⟩ := ih
    exact ⟨takesValues_succ hitems hmembers, takesItems_succ hvalues hitems,
      takesMembers_succ hvalues hmembers⟩

variable {members : List (String × Json)}

theorem head_of_readValue_obj {tokens rest : List Token}
    (h : readValue fuel tokens = some (.obj members, rest)) : tokens.head? = some .openObject := by
  cases fuel with
  | zero => cases h
  | succ fuel =>
    cases tokens with
    | nil => cases h
    | cons token tokens =>
      cases token with
      | openObject => rfl
      | word chars =>
        obtain ⟨found, hfound, heq⟩ := Option.map_eq_some_iff.mp h
        cases heq
        unfold literal at hfound
        split_ifs at hfound
        all_goals try cases hfound
        obtain ⟨q, -, hq⟩ := Option.map_eq_some_iff.mp hfound
        cases hq
      | openArray =>
        rw [readValue.eq_def] at h
        dsimp only at h
        split at h
        · cases h
        · obtain ⟨found, -, heq⟩ := Option.map_eq_some_iff.mp h
          cases heq
      | _ => cases h

/-! ## The tokens of a beginning -/

variable {tokens : List Token}

theorem tokensFrom_word_cons {chars text : List Char}
    (h : tokensFrom (.word chars) text = some tokens) :
    ∃ chars' more, tokens = .word chars' :: more := by
  induction text generalizing chars with
  | nil =>
    cases h
    exact ⟨chars, [], rfl⟩
  | cons c text ih =>
    rw [tokensFrom_cons] at h
    obtain ⟨⟨first, mode⟩, hstep, hrest⟩ := Option.bind_eq_some_iff.mp h
    obtain ⟨rest, htail, rfl⟩ := Option.map_eq_some_iff.mp hrest
    rw [step] at hstep
    split_ifs at hstep
    · cases hstep
      exact ih htail
    · obtain ⟨⟨after, mode'⟩, -, heq⟩ := Option.map_eq_some_iff.mp hstep
      cases heq
      exact ⟨chars, after ++ rest, rfl⟩

/-- The tokens of a beginning are the first tokens of the whole, but for a last word that may
have been cut. -/
theorem tokensFrom_cut {mode : Mode} {text rest : List Char} {tokens whole : List Token}
    (htokens : tokensFrom mode text = some tokens)
    (hwhole : tokensFrom mode (text ++ rest) = some whole) :
    (∃ more, whole = tokens ++ more ∧ tokensFrom .between rest = some more) ∨
      ∃ front chars chars' more, tokens = front ++ [.word chars] ∧
        whole = front ++ .word chars' :: more := by
  induction text generalizing mode tokens whole with
  | nil =>
    cases mode with
    | between =>
      cases htokens
      exact Or.inl ⟨whole, rfl, hwhole⟩
    | word chars =>
      cases htokens
      obtain ⟨chars', more, rfl⟩ := tokensFrom_word_cons hwhole
      exact Or.inr ⟨[], chars, chars', more, rfl, rfl⟩
    | _ => cases htokens
  | cons c text ih =>
    rw [tokensFrom_cons] at htokens
    rw [List.cons_append, tokensFrom_cons] at hwhole
    obtain ⟨⟨first, mode'⟩, hstep, hrest⟩ := Option.bind_eq_some_iff.mp htokens
    rw [hstep] at hwhole
    obtain ⟨tokens, htail, rfl⟩ := Option.map_eq_some_iff.mp hrest
    obtain ⟨whole, hwholeTail, rfl⟩ := Option.map_eq_some_iff.mp hwhole
    rcases ih htail hwholeTail with ⟨more, rfl, hmore⟩ | ⟨front, chars, chars', more, rfl, rfl⟩
    · exact Or.inl ⟨more, by simp, hmore⟩
    · exact Or.inr ⟨first ++ front, chars, chars', more, by simp, by simp⟩

/-- Inside a word or a string a character goes on with it or ends it with a token. -/
theorem step_of_inside {mode mode' : Mode} {c : Char} {first : List Token}
    (h : step mode c = some (first, mode')) (hmode : mode ≠ .between) :
    first ≠ [] ∨ mode' ≠ .between := by
  cases mode with
  | between => exact absurd rfl hmode
  | word chars =>
    simp only [step] at h
    split_ifs at h
    · cases h
      exact Or.inr (by simp)
    · obtain ⟨⟨after, mode''⟩, -, heq⟩ := Option.map_eq_some_iff.mp h
      cases heq
      exact Or.inl (by simp)
  | text codes =>
    simp only [step] at h
    split_ifs at h
    · obtain ⟨chars, -, heq⟩ := Option.map_eq_some_iff.mp h
      cases heq
      exact Or.inl (by simp)
    · cases h
      exact Or.inr (by simp)
    · cases h
      exact Or.inr (by simp)
  | escaped codes =>
    simp only [step] at h
    split_ifs at h
    · cases h
      exact Or.inr (by simp)
    · obtain ⟨code, -, heq⟩ := Option.map_eq_some_iff.mp h
      cases heq
      exact Or.inr (by simp)
  | unicode codes digits =>
    obtain ⟨digit, -, heq⟩ := Option.map_eq_some_iff.mp h
    split_ifs at heq <;> cases heq <;> exact Or.inr (by simp)

variable {text : List Char}

theorem tokens_ne_nil_of_inside {mode : Mode} (h : tokensFrom mode text = some tokens)
    (hmode : mode ≠ .between) : tokens ≠ [] := by
  induction text generalizing mode tokens with
  | nil =>
    cases mode with
    | between => exact absurd rfl hmode
    | word chars =>
      cases h
      simp
    | _ => cases h
  | cons c text ih =>
    rw [tokensFrom_cons] at h
    obtain ⟨⟨first, mode'⟩, hstep, hrest⟩ := Option.bind_eq_some_iff.mp h
    obtain ⟨rest, htail, rfl⟩ := Option.map_eq_some_iff.mp hrest
    intro hnil
    obtain ⟨rfl, rfl⟩ := List.append_eq_nil_iff.mp hnil
    rcases step_of_inside hstep hmode with hfirst | hinside
    · exact hfirst rfl
    · exact ih htail hinside rfl

theorem blank_of_no_tokens (h : tokensFrom .between text = some []) :
    ∀ c ∈ text, isBlank c = true := by
  induction text with
  | nil => simp
  | cons c text ih =>
    rw [tokensFrom_cons] at h
    obtain ⟨⟨first, mode⟩, hstep, hrest⟩ := Option.bind_eq_some_iff.mp h
    obtain ⟨tokens, htokens, heq⟩ := Option.map_eq_some_iff.mp hrest
    obtain ⟨rfl, rfl⟩ := List.append_eq_nil_iff.mp heq
    change stepBetween c = some ([], mode) at hstep
    unfold stepBetween at hstep
    split_ifs at hstep with hblank hquote hword
    · cases hstep
      exact List.forall_mem_cons.mpr ⟨hblank, ih htokens⟩
    · cases hstep
      exact absurd rfl (tokens_ne_nil_of_inside htokens (by simp))
    · cases hstep
      exact absurd rfl (tokens_ne_nil_of_inside htokens (by simp))
    · obtain ⟨token, -, heq⟩ := Option.map_eq_some_iff.mp hstep
      cases heq

theorem parseChars_eq_some_iff {value : Json} :
    parseChars text = some value ↔ ∃ tokens, tokensFrom .between text = some tokens ∧
      readValue (2 * tokens.length) tokens = some (value, []) := by
  rw [parseChars, Option.bind_eq_some_iff]
  refine exists_congr fun tokens => and_congr_right fun _ => ?_
  rw [readTokens]
  constructor
  · intro h
    split at h
    · rename_i heq
      cases h
      exact heq
    · cases h
  · intro h
    rw [h]

/-- The text of an object that is cut before a character that is not blank is no text of a
value. -/
theorem parseChars_cut {text rest : List Char}
    (hwhole : parseChars (text ++ rest) = some (.obj members))
    (hrest : ∃ c ∈ rest, isBlank c = false) : parseChars text = none := by
  obtain ⟨whole, hwholeTokens, hobject⟩ := parseChars_eq_some_iff.mp hwhole
  by_contra hsome
  obtain ⟨value, hvalue⟩ := Option.ne_none_iff_exists'.mp hsome
  obtain ⟨tokens, htokens, hbegins⟩ := parseChars_eq_some_iff.mp hvalue
  obtain ⟨used, hused, htakes, -, hbrace⟩ := (takes_all _).1 _ _ _ hbegins
  rw [List.append_nil] at hused
  subst hused
  have hhead := head_of_readValue_obj hobject
  rcases tokensFrom_cut htokens hwholeTokens with
    ⟨more, rfl, hmore⟩ | ⟨front, chars, chars', more, rfl, rfl⟩
  · -- Reading the whole stops where reading the beginning does.
    have hsame := htakes more (2 * (tokens ++ more).length) (by
      rw [List.length_append]
      omega)
    rw [hobject] at hsame
    cases hsame
    obtain ⟨c, hc, hnotBlank⟩ := hrest
    rw [blank_of_no_tokens hmore c hc] at hnotBlank
    cases hnotBlank
  · -- A last word is no closing brace.
    cases front with
    | nil => cases hhead
    | cons token front =>
      have hlast := hbrace hhead
      rw [List.getLast?_concat] at hlast
      cases hlast

/-! ## Readers of bytes -/

/-- The bytes of the text of a value whose numbers are all safe integers. -/
def jsonBytes (indent : Nat) (value : Json) : Bytes :=
  encodeChars (render (fun _ => []) indent 0 value)

/-- A value that `jsonBytes` has a text for. -/
abbrev Writable (value : Json) : Prop := printable (fun _ => []) value = true

variable (indent : Nat)

theorem parseChars_rendered {value : Json} (h : Writable value) :
    parseChars (render (fun _ => []) indent 0 value) = some value :=
  parseChars_render indent 0 h

/-- Different values have different texts. -/
theorem jsonBytes_injective {indent : Nat} {a b : Json} (ha : Writable a) (hb : Writable b)
    (h : jsonBytes indent a = jsonBytes indent b) : a = b := by
  have htext : render (fun _ => []) indent 0 a = render (fun _ => []) indent 0 b := by
    have hdecoded := congrArg decodeLossy h
    simpa only [jsonBytes, decodeLossy_encodeChars] using hdecoded
  have hread := parseChars_rendered indent ha
  rw [htext, parseChars_rendered indent hb] at hread
  exact (Option.some.inj hread).symm

theorem jsonBytes_obj_ne_nil (members : List (String × Json)) :
    jsonBytes indent (.obj members) ≠ [] := by
  intro h
  have hdecoded := congrArg decodeLossy h
  rw [jsonBytes, decodeLossy_encodeChars, decodeLossy_nil, render] at hdecoded
  cases hdecoded

/-- What programs rely on when they read JSON: what was written is read back, and an object that
is cut short is refused. -/
structure Reader where
  parse : Bytes → Option Json
  parse_written : ∀ indent value, Writable value → parse (jsonBytes indent value) = some value
  parse_cut : ∀ indent members n, Writable (.obj members) →
    n < (jsonBytes indent (.obj members)).length →
    parse ((jsonBytes indent (.obj members)).take n) = none

/-- The text of an object ends with its brace. -/
theorem render_obj_getLast? (members : List (String × Json)) :
    (render (fun _ => []) indent 0 (.obj members)).getLast? = some '\x7d' := by
  rw [render, ← List.append_assoc, List.getLast?_concat]

theorem parse_utf8_cut (members : List (String × Json)) (n : Nat)
    (hwritable : Writable (.obj members)) (hn : n < (jsonBytes indent (.obj members)).length) :
    ((fromUtf8 ((jsonBytes indent (.obj members)).take n)).bind fun text =>
      parseChars text.toList) = none := by
  unfold fromUtf8
  split
  · rename_i htext
    have hsplit := List.take_append_drop n (jsonBytes indent (.obj members))
    rw [← htext, utf8, jsonBytes] at hsplit
    have hchars := congrArg decodeLossy hsplit
    rw [decodeLossy_encodeChars_append, decodeLossy_encodeChars] at hchars
    refine parseChars_cut (hchars ▸ parseChars_rendered indent hwritable) ⟨'\x7d', ?_, by decide⟩
    -- Something is cut off, so the closing brace is.
    have hne : decodeLossy ((encodeChars (render (fun _ => []) indent 0 (.obj members))).drop n) ≠
        [] := by
      cases hdrop : (encodeChars (render (fun _ => []) indent 0 (.obj members))).drop n with
      | nil =>
        rw [List.drop_eq_nil_iff] at hdrop
        exact absurd hn (by rw [jsonBytes]; omega)
      | cons a rest =>
        rw [decodeLossy_cons]
        exact List.cons_ne_nil _ _
    have hlast := render_obj_getLast? indent members
    rw [← hchars, List.getLast?_append_of_ne_nil _ hne] at hlast
    exact List.mem_of_getLast? hlast
  · rfl

/-- Reading UTF-8, with the last of several members of one name. -/
def Reader.utf8 : Reader where
  parse bytes := (fromUtf8 bytes).bind fun text => parseChars text.toList
  parse_written indent value h := by
    have htext : jsonBytes indent value =
        Foundation.utf8 (String.ofList (render (fun _ => []) indent 0 value)) := by
      rw [Foundation.utf8, String.toList_ofList, jsonBytes]
    rw [htext, fromUtf8_utf8, Option.bind_some, String.toList_ofList]
    exact parseChars_rendered indent h
  parse_cut := parse_utf8_cut

end JsonText

end ApiVoy.Foundation
