/-
# Pointers into JSON values

A pointer is empty or a sequence of tokens with a slash before each. In a token the two
characters that would be read otherwise are escaped. A token selects a member of an object by
its name and an item of an array by its index.
-/

import ApiVoy.Foundation.Json
import ApiVoy.Foundation.Serialized

namespace ApiVoy.Foundation

namespace Pointer

/-! ## Tokens -/

def replaceChar (c : Char) (text : List Char) (cs : List Char) : List Char :=
  cs.flatMap fun d => if d = c then text else [d]

/-- Replace two characters that follow one another by one. -/
def replacePair (a b c : Char) : List Char → List Char
  | x :: y :: rest =>
    if x = a ∧ y = b then c :: replacePair a b c rest else x :: replacePair a b c (y :: rest)
  | cs => cs

def escape (token : List Char) : List Char :=
  replaceChar '/' ['~', '1'] (replaceChar '~' ['~', '0'] token)

def unescape (text : List Char) : List Char :=
  replacePair '~' '0' '~' (replacePair '~' '1' '/' text)

theorem replaceChar_cons (c : Char) (text : List Char) (d : Char) (cs : List Char) :
    replaceChar c text (d :: cs) = (if d = c then text else [d]) ++ replaceChar c text cs := by
  rw [replaceChar, List.flatMap_cons]
  rfl

theorem replacePair_cons {a b c x : Char} (rest : List Char) (h : x ≠ a) :
    replacePair a b c (x :: rest) = x :: replacePair a b c rest := by
  cases rest with
  | nil => rfl
  | cons y rest => rw [replacePair, if_neg (fun both => h both.1)]

theorem replacePair_cons_cons {a b c y : Char} (x : Char) (rest : List Char) (h : y ≠ b) :
    replacePair a b c (x :: y :: rest) = x :: replacePair a b c (y :: rest) := by
  rw [replacePair, if_neg (fun both => h both.2)]

theorem replacePair_pair (a b c : Char) (rest : List Char) :
    replacePair a b c (a :: b :: rest) = c :: replacePair a b c rest := by
  rw [replacePair, if_pos ⟨rfl, rfl⟩]

theorem length_replacePair_le (a b c : Char) :
    ∀ text : List Char, (replacePair a b c text).length ≤ text.length
  | [] => le_rfl
  | [_] => le_rfl
  | x :: y :: rest => by
    rw [replacePair]
    split
    · have hrest := length_replacePair_le a b c rest
      simp only [List.length_cons]
      omega
    · have hrest := length_replacePair_le a b c (y :: rest)
      simp only [List.length_cons] at hrest ⊢
      omega

theorem length_unescape_le (text : List Char) : (unescape text).length ≤ text.length :=
  (length_replacePair_le _ _ _ _).trans (length_replacePair_le _ _ _ _)

/-- A replacement changes a text exactly when the two characters occur in it, and then it gets
shorter. -/
theorem replacePair_spec {a b c : Char} :
    ∀ text : List Char,
      ([a, b] <:+: text → (replacePair a b c text).length < text.length) ∧
        (¬[a, b] <:+: text → replacePair a b c text = text)
  | [] => by simp [replacePair]
  | [x] => by
    refine ⟨fun h => ?_, fun _ => rfl⟩
    have hlength := h.length_le
    simp at hlength
  | x :: y :: rest => by
    by_cases hpair : x = a ∧ y = b
    · obtain ⟨rfl, rfl⟩ := hpair
      refine ⟨fun _ => ?_, fun h => absurd ⟨[], rest, rfl⟩ h⟩
      rw [replacePair_pair]
      have hrest := length_replacePair_le x y c rest
      simp only [List.length_cons]
      omega
    · have htail := replacePair_spec (a := a) (b := b) (c := c) (y :: rest)
      have hinfix : [a, b] <:+: x :: y :: rest ↔ [a, b] <:+: y :: rest := by
        rw [List.infix_cons_iff, List.cons_prefix_cons, List.cons_prefix_cons]
        constructor
        · rintro (⟨hx, hy, -⟩ | h)
          · exact absurd ⟨hx.symm, hy.symm⟩ hpair
          · exact h
        · exact Or.inr
      rw [replacePair, if_neg hpair, hinfix]
      constructor
      · intro h
        exact Nat.succ_lt_succ (htail.1 h)
      · intro h
        rw [htail.2 h]

variable {text : List Char}

/-- A text means itself exactly when no escaped character occurs in it. -/
theorem unescape_eq_self_iff :
    unescape text = text ↔ ¬['~', '0'] <:+: text ∧ ¬['~', '1'] <:+: text := by
  have hlength := length_replacePair_le '~' '0' '~' (replacePair '~' '1' '/' text)
  by_cases hslash : ['~', '1'] <:+: text
  · have hshorter := (replacePair_spec (a := '~') (b := '1') (c := '/') text).1 hslash
    constructor
    · intro h
      rw [← unescape, h] at hlength
      omega
    · rintro ⟨-, hno⟩
      exact absurd hslash hno
  · have hsame := (replacePair_spec (a := '~') (b := '1') (c := '/') text).2 hslash
    rw [unescape, hsame]
    by_cases htilde : ['~', '0'] <:+: text
    · have hshorter := (replacePair_spec (a := '~') (b := '0') (c := '~') text).1 htilde
      constructor
      · intro h
        rw [h] at hshorter
        omega
      · rintro ⟨hno, -⟩
        exact absurd htilde hno
    · simp [(replacePair_spec (a := '~') (b := '0') (c := '~') text).2 htilde, htilde, hslash]

/-- A text that is not shortened means itself. -/
theorem unescape_eq_self_of_length (h : text.length ≤ (unescape text).length) :
    unescape text = text := by
  have hlength := length_replacePair_le '~' '0' '~' (replacePair '~' '1' '/' text)
  have hslash := (replacePair_spec (a := '~') (b := '1') (c := '/') text).1
  have htilde := (replacePair_spec (a := '~') (b := '0') (c := '~') text).1
  have hplain : ¬['~', '1'] <:+: text := by
    intro hinfix
    have hshorter := hslash hinfix
    rw [unescape] at h
    omega
  rw [unescape_eq_self_iff]
  refine ⟨fun hinfix => ?_, hplain⟩
  rw [unescape, (replacePair_spec (a := '~') (b := '1') (c := '/') text).2 hplain] at h
  have hshorter := htilde hinfix
  omega

variable (token : List Char)

/-- An escaped tilde or slash never reads as the other one. -/
theorem unescape_escape : unescape (escape token) = token := by
  have hslash : ∀ cs : List Char,
      replacePair '~' '1' '/' (replaceChar '/' ['~', '1'] (replaceChar '~' ['~', '0'] cs)) =
        replaceChar '~' ['~', '0'] cs := by
    intro cs
    induction cs with
    | nil => rfl
    | cons c cs ih =>
      rw [replaceChar_cons '~']
      by_cases htilde : c = '~'
      · rw [if_pos htilde, List.cons_append, List.singleton_append, replaceChar_cons,
          if_neg (by decide), replaceChar_cons, if_neg (by decide), List.singleton_append,
          List.singleton_append, replacePair_cons_cons _ _ (by decide),
          replacePair_cons _ (by decide), ih]
      · rw [if_neg htilde, List.singleton_append, replaceChar_cons]
        by_cases hc : c = '/'
        · rw [if_pos hc, List.cons_append, List.singleton_append, replacePair_pair, ih, hc]
        · rw [if_neg hc, List.singleton_append, replacePair_cons _ htilde, ih]
  rw [unescape, escape, hslash]
  induction token with
  | nil => rfl
  | cons c cs ih =>
    rw [replaceChar_cons]
    by_cases htilde : c = '~'
    · rw [if_pos htilde, List.cons_append, List.singleton_append, replacePair_pair, ih, htilde]
    · rw [if_neg htilde, List.singleton_append, replacePair_cons _ htilde, ih]

/-- An escaped token holds no separator. -/
theorem slash_not_mem_escape : '/' ∉ escape token := by
  intro h
  rw [escape, replaceChar, List.mem_flatMap] at h
  obtain ⟨c, -, hc⟩ := h
  by_cases hslash : c = '/'
  · rw [if_pos hslash] at hc
    revert hc
    decide
  · rw [if_neg hslash, List.mem_singleton] at hc
    exact hslash hc.symm

/-! ## Indices -/

/-- The index that a token stands for: digits without a leading zero. An index that does not fit
a machine word is beyond the items of every array. -/
def parseIndex (token : List Char) : Option Nat :=
  if token.head? = some '+' ∨ (token.head? = some '0' ∧ token.length ≠ 1) then none
  else parseDigits token

theorem exists_digitChar {c : Char} (h : c.isDigit = true) : ∃ d < 10, c = Nat.digitChar d := by
  have hrange : 48 ≤ c.toNat ∧ c.toNat ≤ 57 := by
    simpa [Char.isDigit, UInt32.le_iff_toNat_le] using h
  have hc : Char.ofNat c.toNat = c := Char.ofNat_toNat c
  generalize c.toNat = n at hrange hc
  refine ⟨n - 48, by omega, ?_⟩
  rw [← hc]
  have hlow := hrange.1
  have hhigh := hrange.2
  interval_cases n <;> rfl

variable {digits : List Char}

theorem toDigits_append_digits {acc : Nat} (hpos : 0 < acc)
    (hdigits : ∀ c ∈ digits, c.isDigit = true) :
    Nat.toDigits 10 acc ++ digits = Nat.toDigits 10 (Nat.ofDigitChars 10 digits acc) := by
  induction digits generalizing acc with
  | nil => rw [List.append_nil, Nat.ofDigitChars_nil]
  | cons c digits ih =>
    rw [List.forall_mem_cons] at hdigits
    obtain ⟨d, hd, rfl⟩ := exists_digitChar hdigits.1
    rw [Nat.ofDigitChars_cons_digitChar_of_lt_ten hd, ← ih (by omega) hdigits.2,
      ← Nat.toDigits_append_toDigits (by decide) hpos hd, Nat.toDigits_of_lt_base hd,
      List.append_assoc, List.singleton_append]

/-- Digits without a leading zero are the ones of the number they denote. -/
theorem toDigits_ofDigitChars (hne : digits ≠ []) (hdigits : ∀ c ∈ digits, c.isDigit = true)
    (hhead : digits.head? ≠ some '0') :
    Nat.toDigits 10 (Nat.ofDigitChars 10 digits 0) = digits := by
  cases digits with
  | nil => exact absurd rfl hne
  | cons c rest =>
    rw [List.forall_mem_cons] at hdigits
    obtain ⟨d, hd, rfl⟩ := exists_digitChar hdigits.1
    have hpos : 0 < d := by
      apply Nat.pos_of_ne_zero
      rintro rfl
      exact hhead rfl
    rw [Nat.ofDigitChars_cons_digitChar_of_lt_ten hd, Nat.mul_zero, Nat.zero_add,
      ← toDigits_append_digits hpos hdigits.2, Nat.toDigits_of_lt_base hd,
      List.singleton_append]

/-- The tokens that stand for an index are the decimal numerals. -/
theorem parseIndex_eq_some_iff {token : List Char} {n : Nat} :
    parseIndex token = some n ↔ token = Nat.toDigits 10 n := by
  constructor
  · intro h
    rw [parseIndex] at h
    split at h
    · cases h
    · rename_i hsign
      rw [parseDigits] at h
      split at h
      · rename_i hdigits
        obtain ⟨hne, hall⟩ := hdigits
        cases h
        by_cases hzero : token.head? = some '0'
        · have hlength : token.length = 1 := by
            by_contra hlong
            exact hsign (Or.inr ⟨hzero, hlong⟩)
          obtain ⟨c, rfl⟩ := List.length_eq_one_iff.mp hlength
          cases hzero
          rfl
        · exact (toDigits_ofDigitChars hne (List.all_eq_true.mp hall) hzero).symm
      · cases h
  · rintro rfl
    have hdigits := JsonText.isDigit_toDigits n
    have hplus : (Nat.toDigits 10 n).head? ≠ some '+' := by
      intro hhead
      have hdigit := hdigits '+' (List.mem_of_mem_head? hhead)
      cases hdigit
    have hzero : ¬((Nat.toDigits 10 n).head? = some '0' ∧ (Nat.toDigits 10 n).length ≠ 1) := by
      rintro ⟨hhead, hlong⟩
      by_cases hn : n = 0
      · subst hn
        exact hlong rfl
      · exact JsonText.head_toDigits hn hhead
    rw [parseIndex, if_neg (by simp [hplus, hzero]), parseDigits_toDigits]

/-! ## Following a pointer -/

def select (value : Json) (token : List Char) : Option Json :=
  match value with
  | .obj members => Json.member? (String.ofList token) members
  | .arr items => (parseIndex token).bind fun n => items[n]?
  | _ => none

def tokens (pointer : List Char) : List (List Char) := (pointer.splitOn '/').tail.map unescape

def find (value : Json) (pointer : List Char) : Option Json :=
  if pointer = [] then some value
  else if pointer.head? ≠ some '/' then none
  else (tokens pointer).foldlM select value

/-- Texts with a slash before each. -/
def join (texts : List (List Char)) : List Char := texts.flatMap fun text => '/' :: text

theorem tokens_join (texts : List (List Char)) :
    tokens (join texts) = texts.flatMap fun text => (text.splitOn '/').map unescape := by
  have hsplit : ∀ (first : List Char) (texts : List (List Char)),
      (first ++ join texts).splitOn '/' =
        first.splitOn '/' ++ texts.flatMap fun text => text.splitOn '/' := by
    intro first texts
    induction texts generalizing first with
    | nil => simp [join]
    | cons text texts ih =>
      have hjoin : join (text :: texts) = '/' :: (text ++ join texts) := by
        simp [join]
      rw [hjoin, List.splitOn_append_cons_self, ih, List.flatMap_cons]
  have hall := hsplit [] texts
  rw [List.nil_append, List.splitOn_nil, List.singleton_append] at hall
  rw [tokens, hall, List.tail_cons, List.map_flatMap]

/-- A pointer that joins texts selects by their tokens in turn. -/
theorem find_join (value : Json) (texts : List (List Char)) :
    find value (join texts) =
      (texts.flatMap fun text => (text.splitOn '/').map unescape).foldlM select value := by
  cases texts with
  | nil => rfl
  | cons text texts =>
    have hhead : join (text :: texts) = '/' :: (text ++ join texts) := by
      simp [join]
    rw [find, if_neg (by rw [hhead]; exact List.cons_ne_nil _ _),
      if_neg (by rw [hhead]; exact fun h => h rfl), tokens_join]

/-- Objects of one member, one inside the other, around a value. -/
def chain (leaf : Json) : List (List Char) → Json
  | [] => leaf
  | token :: rest => .obj [(String.ofList token, chain leaf rest)]

theorem member?_singleton (token name : List Char) (value : Json) :
    Json.member? (String.ofList name) [(String.ofList token, value)] =
      if token = name then some value else none := by
  by_cases h : token = name
  · simp [Json.member?, h]
  · have hname : String.ofList token ≠ String.ofList name := fun heq => h (String.ofList_inj.mp heq)
    simp [Json.member?, h, hname]

/-- The tokens of a chain lead to what it is around. -/
theorem foldlM_chain (leaf : Json) (names : List (List Char)) :
    names.foldlM select (chain leaf names) = some leaf := by
  induction names with
  | nil => rfl
  | cons name names ih =>
    rw [List.foldlM_cons, chain, select, member?_singleton, if_pos rfl]
    exact ih

/-- A member whose name has a slash and a tilde is found under its escaped name. -/
example :
    find (.obj [("a/~b", .arr [.null, .bool true])]) "/a~1~0b/1".toList = some (.bool true) := by
  decide

end Pointer

end ApiVoy.Foundation
