/-
# Texts that are read as a value

Which value a text stands for, said of its parts: a word, a string, the items of an array, the
members of an object. A writer that has its own text for some values is followed from the parts
to the whole.
-/

import ApiVoy.Foundation.JsonText

namespace ApiVoy.Foundation

namespace JsonText

/-! ## Parts of a text -/

/-- The tokens of a text, whatever follows that is not a part of its last word. -/
def TokensOf (text : List Char) (tokens : List Token) : Prop :=
  ∀ rest, Delimited rest → tokensFrom .between (text ++ rest) =
    (tokensFrom .between rest).map (tokens ++ ·)

structure ValueOf (tokens : List Token) (value : Json) : Prop where
  /-- A value does not begin with the end of a list. -/
  opens : ∃ token more, tokens = token :: more ∧ token ≠ .closeArray ∧ token ≠ .closeObject
  read : ∀ fuel rest, 2 * tokens.length ≤ fuel →
    readValue fuel (tokens ++ rest) = some (value, rest)

def Reads (text : List Char) (value : Json) : Prop :=
  ∃ tokens, TokensOf text tokens ∧ ValueOf tokens value

variable {text : List Char}

theorem parseChars_of_reads {value : Json} (h : Reads text value) :
    parseChars text = some value := by
  obtain ⟨tokens, htokens, hvalue⟩ := h
  have hwhole : tokensFrom .between text = some tokens := by
    have hnone := htokens [] fun _ hc => (by cases hc)
    rw [List.append_nil] at hnone
    exact hnone.trans (congrArg some (List.append_nil tokens))
  have hread := hvalue.read _ [] (Nat.le_refl _)
  rw [List.append_nil] at hread
  rw [parseChars, hwhole, Option.bind_some, readTokens, hread]

theorem reads_word {chars : List Char} {value : Json} (hne : chars ≠ [])
    (hword : chars.all isWordChar = true) (hliteral : literal chars = some value) :
    Reads chars value := by
  refine ⟨[.word chars], fun rest hrest => tokensFrom_between_word chars hne hword hrest,
    ⟨_, _, rfl, by simp, by simp⟩, fun fuel rest hfuel => ?_⟩
  obtain ⟨fuel, rfl⟩ : ∃ n, fuel = n + 1 := ⟨fuel - 1, by simp at hfuel; omega⟩
  show (literal chars).map (·, rest) = _
  rw [hliteral]
  rfl

theorem reads_null : Reads "null".toList .null := reads_word (by decide) (by decide) rfl

theorem reads_true : Reads "true".toList (.bool true) := reads_word (by decide) (by decide) rfl

theorem reads_false : Reads "false".toList (.bool false) := reads_word (by decide) (by decide) rfl

theorem reads_quote (text : String) : Reads (quote text.toList) (.str text) := by
  refine ⟨[.text text], fun rest _ => ?_, ⟨_, _, rfl, by simp, by simp⟩, fun fuel rest hfuel => ?_⟩
  · rw [tokensFrom_quote, String.ofList_toList]
    rfl
  · obtain ⟨fuel, rfl⟩ : ∃ n, fuel = n + 1 := ⟨fuel - 1, by simp at hfuel; omega⟩
    rfl

/-! ## Lists -/

/-- Texts with a comma between each two. -/
def joinItems : List (List Char) → List Char
  | [] => []
  | text :: rest => text ++ if rest.isEmpty then [] else ',' :: joinItems rest

def arrayText (texts : List (List Char)) : List Char := '[' :: (joinItems texts ++ [']'])

def memberText (member : String × List Char) : List Char :=
  quote member.1.toList ++ (':' :: member.2)

def objectText (members : List (String × List Char)) : List Char :=
  '{' :: (joinItems (members.map memberText) ++ ['}'])

variable {tokens : List Token}

/-- The tokens of joined texts are the tokens of the texts, joined. -/
theorem TokensOf.joined {others : List (List Char)} {more : List Token} (h : TokensOf text tokens)
    (hothers : TokensOf (joinItems others) more) :
    TokensOf (joinItems (text :: others))
      (tokens ++ if others.isEmpty then [] else .comma :: more) := by
  intro rest hrest
  rw [joinItems, List.append_assoc, h _ (delimited_tail others _ hrest)]
  cases others with
  | nil => simp
  | cons next others =>
    have hcomma : stepBetween ',' = some ([.comma], .between) := by decide
    simp only [List.isEmpty_cons, Bool.false_eq_true, if_false, List.cons_append]
    rw [tokensFrom_punctuation _ hcomma, hothers rest hrest, Option.map_map, Option.map_map]
    congr 1
    funext tokens
    simp

/-- A list between its brackets. -/
theorem TokensOf.enclosed (h : TokensOf text tokens) {first last : Char} {opening closing : Token}
    (hfirst : stepBetween first = some ([opening], .between))
    (hlast : stepBetween last = some ([closing], .between)) (hend : isWordChar last = false) :
    TokensOf (first :: (text ++ [last])) (opening :: (tokens ++ [closing])) := by
  intro rest _
  rw [List.cons_append, List.append_assoc, List.singleton_append,
    tokensFrom_punctuation _ hfirst, h _ (delimited_cons rest hend),
    tokensFrom_punctuation rest hlast, Option.map_map, Option.map_map]
  congr 1
  funext tokens
  simp

theorem tokensOf_nil : TokensOf [] [] := fun rest _ =>
  (congrFun Option.map_id (tokensFrom .between rest)).symm

variable {texts : List (List Char)}

variable {items : List Json}

/-- Texts whose values are the items of an array. -/
theorem reads_items (h : List.Forall₂ Reads texts items) :
    ∃ tokens, TokensOf (joinItems texts) tokens ∧
      ∀ item others, items = item :: others →
        (∃ token more, tokens = token :: more ∧ token ≠ .closeArray) ∧
        ∀ fuel rest, 2 * tokens.length + 1 ≤ fuel →
          readItems fuel (tokens ++ .closeArray :: rest) = some (items, rest) := by
  induction h with
  | nil => exact ⟨[], tokensOf_nil, fun _ _ h => (by cases h)⟩
  | @cons text item texts items hitem hitems ih =>
    obtain ⟨tokens, htokens, hvalue⟩ := hitem
    obtain ⟨more, hmore, hread⟩ := ih
    refine ⟨_, htokens.joined hmore, fun _ _ _ => ⟨?_, fun fuel rest hfuel => ?_⟩⟩
    · obtain ⟨token, later, rfl, hne, -⟩ := hvalue.opens
      exact ⟨token, _, rfl, hne⟩
    obtain ⟨fuel, rfl⟩ : ∃ n, fuel = n + 1 := ⟨fuel - 1, by omega⟩
    cases hitems with
    | nil =>
      simp only [List.isEmpty_nil, if_true, List.append_nil] at hfuel ⊢
      rw [readItems, hvalue.read fuel _ (by omega)]
      rfl
    | cons hnext hrest =>
      simp only [List.isEmpty_cons, Bool.false_eq_true, if_false, List.length_append,
        List.length_cons] at hfuel ⊢
      rw [readItems, List.append_assoc, hvalue.read fuel _ (by omega)]
      show (readItems fuel (more ++ .closeArray :: rest)).map _ = _
      rw [(hread _ _ rfl).2 fuel rest (by omega)]
      rfl

theorem reads_array (h : List.Forall₂ Reads texts items) :
    Reads (arrayText texts) (.arr items) := by
  obtain ⟨tokens, htokens, hread⟩ := reads_items h
  have hopen : stepBetween '[' = some ([.openArray], .between) := by decide
  have hclose : stepBetween ']' = some ([.closeArray], .between) := by decide
  refine ⟨_, htokens.enclosed hopen hclose (by decide), ⟨_, _, rfl, by simp, by simp⟩,
    fun fuel rest hfuel => ?_⟩
  obtain ⟨fuel, rfl⟩ : ∃ n, fuel = n + 1 := ⟨fuel - 1, by simp at hfuel; omega⟩
  cases h with
  | nil =>
    -- No item: the end of the array comes at once.
    have hempty : tokens = [] := by
      have hnone := htokens [] fun _ hc => (by cases hc)
      simpa [joinItems, tokensFrom] using hnone
    subst hempty
    rfl
  | cons hitem hitems =>
    obtain ⟨⟨token, more, rfl, hne⟩, hitemsRead⟩ := hread _ _ rfl
    simp only [List.length_cons, List.length_append, List.length_nil] at hfuel
    have hitems := hitemsRead fuel rest (by simp only [List.length_cons]; omega)
    rw [List.cons_append, List.append_assoc, List.singleton_append]
    rw [List.cons_append] at hitems ⊢
    rw [readValue, hitems]
    · rfl
    · rintro _ heq
      cases heq
      exact hne rfl

/-- A member has the name that is written, and a text that is read as its value. -/
structure MemberReads (text : String × List Char) (member : String × Json) : Prop where
  name : text.1 = member.1
  value : Reads text.2 member.2

variable {members : List (String × Json)}

theorem reads_members {texts : List (String × List Char)}
    (h : List.Forall₂ MemberReads texts members) (hnames : (members.map Prod.fst).Nodup) :
    ∃ tokens, TokensOf (joinItems (texts.map memberText)) tokens ∧
      ∀ member others, members = member :: others →
        (∃ token more, tokens = token :: more ∧ token ≠ .closeObject) ∧
        ∀ fuel rest, 2 * tokens.length + 1 ≤ fuel →
          readMembers fuel (tokens ++ .closeObject :: rest) = some (members, rest) := by
  induction h with
  | nil => exact ⟨[], tokensOf_nil, fun _ _ h => (by cases h)⟩
  | @cons text member texts members hmember hmembers ih =>
    obtain ⟨name, chars⟩ := text
    obtain ⟨name', value⟩ := member
    obtain ⟨hname, tokens, htokens, hvalue⟩ := hmember
    cases hname
    obtain ⟨hnew, hdistinct⟩ := List.nodup_cons.mp hnames
    obtain ⟨more, hmore, hread⟩ := ih hdistinct
    have hmemberTokens : TokensOf (memberText (name, chars)) (.text name :: .colon :: tokens) := by
      intro rest hrest
      have hcolon : stepBetween ':' = some ([.colon], .between) := by decide
      rw [memberText, List.append_assoc, tokensFrom_quote, List.cons_append,
        tokensFrom_punctuation _ hcolon, htokens rest hrest, String.ofList_toList,
        Option.map_map, Option.map_map]
      rfl
    refine ⟨_, hmemberTokens.joined hmore, fun _ _ _ =>
      ⟨⟨_, _, rfl, by simp⟩, fun fuel rest hfuel => ?_⟩⟩
    obtain ⟨fuel, rfl⟩ : ∃ n, fuel = n + 1 := ⟨fuel - 1, by omega⟩
    cases hmembers with
    | nil =>
      simp only [List.map_nil, List.isEmpty_nil, if_true, List.append_nil, List.length_cons]
        at hfuel ⊢
      rw [List.cons_append, List.cons_append, readMembers, hvalue.read fuel _ (by omega)]
      rfl
    | cons hnext hrest =>
      simp only [List.map_cons, List.isEmpty_cons, Bool.false_eq_true, if_false,
        List.length_append, List.length_cons] at hfuel ⊢
      rw [List.cons_append, List.cons_append, List.cons_append, List.cons_append, readMembers,
        List.append_assoc, hvalue.read fuel _ (by omega)]
      show (readMembers fuel (more ++ .closeObject :: rest)).map _ = _
      rw [(hread _ _ rfl).2 fuel rest (by omega)]
      exact congrArg (fun members => some (members, rest)) (joinMember_of_not_mem hnew)

theorem reads_object {texts : List (String × List Char)}
    (h : List.Forall₂ MemberReads texts members) (hnames : (members.map Prod.fst).Nodup) :
    Reads (objectText texts) (.obj members) := by
  obtain ⟨tokens, htokens, hread⟩ := reads_members h hnames
  have hopen : stepBetween '{' = some ([.openObject], .between) := by decide
  have hclose : stepBetween '}' = some ([.closeObject], .between) := by decide
  refine ⟨_, htokens.enclosed hopen hclose (by decide), ⟨_, _, rfl, by simp, by simp⟩,
    fun fuel rest hfuel => ?_⟩
  obtain ⟨fuel, rfl⟩ : ∃ n, fuel = n + 1 := ⟨fuel - 1, by simp at hfuel; omega⟩
  cases h with
  | nil =>
    have hempty : tokens = [] := by
      have hnone := htokens [] fun _ hc => (by cases hc)
      simpa [joinItems, tokensFrom] using hnone
    subst hempty
    rfl
  | cons hmember hmembers =>
    obtain ⟨⟨token, more, rfl, hne⟩, hmembersRead⟩ := hread _ _ rfl
    simp only [List.length_cons, List.length_append, List.length_nil] at hfuel
    have hmembers := hmembersRead fuel rest (by simp only [List.length_cons]; omega)
    rw [List.cons_append, List.append_assoc, List.singleton_append]
    rw [List.cons_append] at hmembers ⊢
    rw [readValue, hmembers]
    · rfl
    · rintro _ heq
      cases heq
      exact hne rfl

/-! ## Control characters -/

/-- A string is written without control characters. -/
theorem le_of_mem_quote {c : Char} (h : c ∈ quote text) : 32 ≤ c.toNat := by
  rcases List.mem_cons.mp h with rfl | h
  · decide
  rcases List.mem_append.mp h with h | h
  · obtain ⟨d, -, hd⟩ := List.mem_flatMap.mp h
    unfold escapeChar at hd
    split at hd
    · rename_i e he
      rcases List.mem_cons.mp hd with rfl | hd
      · decide
      rw [List.mem_singleton.mp hd]
      unfold shortEscape at he
      repeat' split at he
      all_goals
        cases he
        try decide
    · split at hd
      · have hdigit : ∀ n < 16, 32 ≤ (hexDigit n).toNat := by decide
        have hd16 : d.toNat / 16 < 16 := by omega
        simp only [List.mem_cons, List.not_mem_nil, or_false] at hd
        rcases hd with rfl | rfl | rfl | rfl | rfl | rfl
        · decide
        · decide
        · decide
        · decide
        · exact hdigit _ hd16
        · exact hdigit _ (by omega)
      · rw [List.mem_singleton.mp hd]
        omega
  · rw [List.mem_singleton.mp h]
    decide

theorem forall_mem_joinItems {p : Char → Prop} (hcomma : p ',')
    (h : ∀ text ∈ texts, ∀ c ∈ text, p c) : ∀ c ∈ joinItems texts, p c := by
  induction texts with
  | nil => exact fun c hc => (by cases hc)
  | cons text texts ih =>
    obtain ⟨htext, htexts⟩ := List.forall_mem_cons.mp h
    intro c hc
    rw [joinItems] at hc
    rcases List.mem_append.mp hc with hc | hc
    · exact htext c hc
    · split at hc
      · cases hc
      · rcases List.mem_cons.mp hc with rfl | hc
        · exact hcomma
        · exact ih htexts c hc

end JsonText

end ApiVoy.Foundation
