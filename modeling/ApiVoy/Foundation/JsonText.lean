/-
# The text of JSON values

Writing a value as a text and reading it back. A text is first cut into tokens, by a machine
that takes one character at a time, and the tokens are then read as one value. The writer has
a compact layout and one that indents, and the tokens are the same in both.

The text of a number that is not a safe integer is left to the engine. An escape that stands
for half of a surrogate pair is in no text here and is refused, and so is a number beyond the
range of a double.
-/

import ApiVoy.Foundation.Json
import ApiVoy.Foundation.Numerals

namespace ApiVoy.Foundation

namespace JsonText

/-! ## Strings -/

def hexDigit (n : Nat) : Char := Nat.digitChar n

/-- The value of a hexadecimal digit. -/
def hexValue (c : Char) : Option Nat :=
  if c.isDigit then some (c.toNat - '0'.toNat)
  else if 'a' ≤ c ∧ c ≤ 'f' then some (c.toNat - 'a'.toNat + 10)
  else if 'A' ≤ c ∧ c ≤ 'F' then some (c.toNat - 'A'.toNat + 10)
  else none

/-- The character that stands for a control character after a backslash. -/
def shortEscape (c : Char) : Option Char :=
  if c = '"' then some '"'
  else if c = '\\' then some '\\'
  else if c.toNat = 8 then some 'b'
  else if c.toNat = 12 then some 'f'
  else if c.toNat = 10 then some 'n'
  else if c.toNat = 13 then some 'r'
  else if c.toNat = 9 then some 't'
  else none

/-- A character as it is written between the quotes of a string. -/
def escapeChar (c : Char) : List Char :=
  match shortEscape c with
  | some e => ['\\', e]
  | none =>
    if c.toNat < 32 then
      ['\\', 'u', '0', '0', hexDigit (c.toNat / 16), hexDigit (c.toNat % 16)]
    else [c]

def escape (text : List Char) : List Char := text.flatMap escapeChar

def quote (text : List Char) : List Char := '"' :: (escape text ++ ['"'])

/-- The code a character after a backslash stands for; `u` begins four digits instead. -/
def escapeCode (c : Char) : Option Nat :=
  if c = '"' ∨ c = '\\' ∨ c = '/' then some c.toNat
  else if c = 'b' then some 8
  else if c = 'f' then some 12
  else if c = 'n' then some 10
  else if c = 'r' then some 13
  else if c = 't' then some 9
  else none

/-- The characters of a string's codes; two escapes can make one character. -/
def charsOf : List Nat → Option (List Char)
  | [] => some []
  | code :: rest =>
    if 0xD800 ≤ code ∧ code < 0xDC00 then
      match rest with
      | low :: rest =>
        if 0xDC00 ≤ low ∧ low < 0xE000 then
          (charsOf rest).map
            (Char.ofNat (0x10000 + (code - 0xD800) * 0x400 + (low - 0xDC00)) :: ·)
        else none
      | [] => none
    else if 0xDC00 ≤ code ∧ code < 0xE000 then none
    else (charsOf rest).map (Char.ofNat code :: ·)

/-! ## Tokens -/

inductive Token where
  | openArray
  | closeArray
  | openObject
  | closeObject
  | comma
  | colon
  | text (value : String)
  /-- A run of letters, digits, signs and points: a number or a literal name. -/
  | word (chars : List Char)
  deriving DecidableEq

/-- What the cutting machine is inside of. -/
inductive Mode where
  | between
  | word (chars : List Char)
  | text (codes : List Nat)
  | escaped (codes : List Nat)
  | unicode (codes : List Nat) (digits : List Nat)
  deriving DecidableEq

def isBlank (c : Char) : Bool := c = ' ' || c = '\n' || c = '\r' || c = '\t'

def isWordChar (c : Char) : Bool := c.isAlphanum || c = '-' || c = '+' || c = '.'

def punctuation (c : Char) : Option Token :=
  if c = '[' then some .openArray
  else if c = ']' then some .closeArray
  else if c = '{' then some .openObject
  else if c = '}' then some .closeObject
  else if c = ',' then some .comma
  else if c = ':' then some .colon
  else none

/-- A character outside strings and words. -/
def stepBetween (c : Char) : Option (List Token × Mode) :=
  if isBlank c then some ([], .between)
  else if c = '"' then some ([], .text [])
  else if isWordChar c then some ([], .word [c])
  else (punctuation c).map fun token => ([token], .between)

def step : Mode → Char → Option (List Token × Mode)
  | .between, c => stepBetween c
  | .word chars, c =>
    if isWordChar c then some ([], .word (chars ++ [c]))
    else (stepBetween c).map fun (tokens, mode) => (.word chars :: tokens, mode)
  | .text codes, c =>
    if c = '"' then (charsOf codes).map fun chars => ([.text (String.ofList chars)], .between)
    else if c = '\\' then some ([], .escaped codes)
    else if c.toNat < 32 then none
    else some ([], .text (codes ++ [c.toNat]))
  | .escaped codes, c =>
    if c = 'u' then some ([], .unicode codes [])
    else (escapeCode c).map fun code => ([], .text (codes ++ [code]))
  | .unicode codes digits, c =>
    (hexValue c).map fun digit =>
      if digits.length = 3 then
        ([], .text (codes ++ [(digits ++ [digit]).foldl (fun n d => n * 16 + d) 0]))
      else ([], .unicode codes (digits ++ [digit]))

/-- Cut a text into tokens. -/
def tokensFrom : Mode → List Char → Option (List Token)
  | .between, [] => some []
  | .word chars, [] => some [.word chars]
  | _, [] => none
  | mode, c :: rest =>
    (step mode c).bind fun (tokens, mode) => (tokensFrom mode rest).map (tokens ++ ·)

/-! ## Values -/

/-- The nearest double of a number literal without its sign. -/
def readDouble (body : List Char) : Option Double :=
  let whole := body.takeWhile Char.isDigit
  let rest := body.dropWhile Char.isDigit
  -- No superfluous zero, a digit on both sides of the point.
  if whole = [] ∨ (whole.length > 1 ∧ whole.head? = some '0') ∨
      (rest.head? = some '.' ∧ rest.tail.head?.any Char.isDigit = false) then none
  else (parseDecimal body).map Double.ofNonneg

/-- A number literal, with the value of the nearest double. -/
def readNumber (chars : List Char) : Option Rat :=
  let (negative, body) := match chars with
    | '-' :: rest => (true, rest)
    | _ => (false, chars)
  match readDouble body with
  | some (.finite value) => some (if negative = true then -value else value)
  | _ => none

/-- What a word stands for. -/
def literal (chars : List Char) : Option Json :=
  if chars = "null".toList then some .null
  else if chars = "true".toList then some (.bool true)
  else if chars = "false".toList then some (.bool false)
  else (readNumber chars).map Json.num

/-- Put a member in front of the ones after it. Of two members with one name the place is the
first one's and the value the last one's. -/
def joinMember (name : String) (value : Json) (rest : List (String × Json)) :
    List (String × Json) :=
  (name, (Json.member? name rest).getD value) :: rest.filter fun member => member.1 ≠ name

mutual

def readValue : Nat → List Token → Option (Json × List Token)
  | 0, _ => none
  | fuel + 1, tokens =>
    match tokens with
    | .text value :: rest => some (.str value, rest)
    | .word chars :: rest => (literal chars).map (·, rest)
    | .openArray :: rest =>
      match rest with
      | .closeArray :: rest => some (.arr [], rest)
      | _ => (readItems fuel rest).map fun (items, rest) => (.arr items, rest)
    | .openObject :: rest =>
      match rest with
      | .closeObject :: rest => some (.obj [], rest)
      | _ => (readMembers fuel rest).map fun (members, rest) => (.obj members, rest)
    | _ => none

/-- Read the items of an array, which has at least one, and its end. -/
def readItems : Nat → List Token → Option (List Json × List Token)
  | 0, _ => none
  | fuel + 1, tokens =>
    (readValue fuel tokens).bind fun (item, rest) =>
      match rest with
      | .closeArray :: rest => some ([item], rest)
      | .comma :: rest => (readItems fuel rest).map fun (items, rest) => (item :: items, rest)
      | _ => none

/-- Read the members of an object, which has at least one, and its end. -/
def readMembers : Nat → List Token → Option (List (String × Json) × List Token)
  | 0, _ => none
  | fuel + 1, tokens =>
    match tokens with
    | .text name :: .colon :: rest =>
      (readValue fuel rest).bind fun (value, rest) =>
        match rest with
        | .closeObject :: rest => some ([(name, value)], rest)
        | .comma :: rest =>
          (readMembers fuel rest).map fun (members, rest) =>
            (joinMember name value members, rest)
        | _ => none
    | _ => none

end

/-- The value of some tokens. It takes two steps for each of them at most. -/
def readTokens (tokens : List Token) : Option Json :=
  match readValue (2 * tokens.length) tokens with
  | some (value, []) => some value
  | _ => none

/-- The value a text stands for. -/
def parseChars (text : List Char) : Option Json := (tokensFrom .between text).bind readTokens

/-! ## Writing -/

section Writing

-- The engine's text for a number that is not a safe integer, and the width of one step of
-- indentation; without indentation everything stands on one line.
variable (shown : Rat → List Char) (indent : Nat)

def numberText (q : Rat) : List Char :=
  if q.den = 1 ∧ q.num.natAbs ≤ 2 ^ 53 then
    if q.num < 0 then '-' :: Nat.toDigits 10 q.num.natAbs else Nat.toDigits 10 q.num.natAbs
  else shown q

/-- The break in front of an item at some depth. -/
def lineBreak (depth : Nat) : List Char :=
  if indent = 0 then [] else '\n' :: List.replicate (indent * depth) ' '

/-- What stands between a member's name and its value. -/
def colonText : List Char := if indent = 0 then [':'] else [':', ' ']

mutual

def render (depth : Nat) : Json → List Char
  | .null => "null".toList
  | .bool true => "true".toList
  | .bool false => "false".toList
  | .num q => numberText shown q
  | .str text => quote text.toList
  | .arr items =>
    '[' :: renderItems (depth + 1) items ++
      ((if items.isEmpty then [] else lineBreak indent depth) ++ [']'])
  | .obj members =>
    '{' :: renderMembers (depth + 1) members ++
      ((if members.isEmpty then [] else lineBreak indent depth) ++ ['}'])

def renderItems (depth : Nat) : List Json → List Char
  | [] => []
  | item :: rest =>
    lineBreak indent depth ++ (render depth item ++
      if rest.isEmpty then [] else ',' :: renderItems depth rest)

def renderMembers (depth : Nat) : List (String × Json) → List Char
  | [] => []
  | (name, value) :: rest =>
    lineBreak indent depth ++ (quote name.toList ++ (colonText indent ++ (render depth value ++
      if rest.isEmpty then [] else ',' :: renderMembers depth rest)))

end

end Writing

/-! ## What can be read back -/

mutual

def valueTokens (shown : Rat → List Char) : Json → List Token
  | .null => [.word "null".toList]
  | .bool true => [.word "true".toList]
  | .bool false => [.word "false".toList]
  | .num q => [.word (numberText shown q)]
  | .str text => [.text text]
  | .arr items => .openArray :: (itemTokens shown items ++ [.closeArray])
  | .obj members => .openObject :: (memberTokens shown members ++ [.closeObject])

def itemTokens (shown : Rat → List Char) : List Json → List Token
  | [] => []
  | item :: rest =>
    valueTokens shown item ++ if rest.isEmpty then [] else .comma :: itemTokens shown rest

def memberTokens (shown : Rat → List Char) : List (String × Json) → List Token
  | [] => []
  | (name, value) :: rest =>
    .text name :: .colon :: (valueTokens shown value ++
      if rest.isEmpty then [] else .comma :: memberTokens shown rest)

end

/-- Is the text of a number one word that is read as that number? -/
def printsBack (shown : Rat → List Char) (q : Rat) : Bool :=
  (numberText shown q).all isWordChar && literal (numberText shown q) = some (.num q)

mutual

/-- Has every object distinct names, and does every number print back? -/
def printable (shown : Rat → List Char) : Json → Bool
  | .null | .bool _ | .str _ => true
  | .num q => printsBack shown q
  | .arr items => itemsPrintable shown items
  | .obj members => decide (members.map Prod.fst).Nodup && membersPrintable shown members

def itemsPrintable (shown : Rat → List Char) : List Json → Bool
  | [] => true
  | item :: rest => printable shown item && itemsPrintable shown rest

def membersPrintable (shown : Rat → List Char) : List (String × Json) → Bool
  | [] => true
  | (_, value) :: rest => printable shown value && membersPrintable shown rest

end

/-! ## A string is one token -/

theorem tokensFrom_cons (mode : Mode) (c : Char) (rest : List Char) :
    tokensFrom mode (c :: rest) =
      (step mode c).bind fun (tokens, mode) => (tokensFrom mode rest).map (tokens ++ ·) := by
  cases mode <;> rfl

variable {c : Char}

/-- A character that makes no token only changes the machine. -/
theorem tokensFrom_of_step {mode : Mode} (mode' : Mode) (rest : List Char)
    (h : step mode c = some ([], mode')) : tokensFrom mode (c :: rest) = tokensFrom mode' rest := by
  rw [tokensFrom_cons, h, Option.bind_some]
  exact congrFun Option.map_id (tokensFrom mode' rest)

theorem escapeCode_of_shortEscape {c e : Char} (h : shortEscape c = some e) :
    e ≠ 'u' ∧ escapeCode e = some c.toNat := by
  unfold shortEscape at h
  split at h
  · cases h
    subst c
    decide
  split at h
  · cases h
    subst c
    decide
  repeat' split at h
  all_goals
    first
    | cases h
      rename_i hcode
      rw [hcode]
      decide
    | cases h

theorem hexValue_hexDigit : ∀ n < 16, hexValue (hexDigit n) = some n := by decide

variable (codes : List Nat)

theorem tokensFrom_escapeChar (c : Char) (rest : List Char) :
    tokensFrom (.text codes) (escapeChar c ++ rest) =
      tokensFrom (.text (codes ++ [c.toNat])) rest := by
  rw [escapeChar]
  cases hshort : shortEscape c with
  | some e =>
    obtain ⟨hne, hcode⟩ := escapeCode_of_shortEscape hshort
    refine (tokensFrom_of_step (.escaped codes) _ (by simp [step])).trans ?_
    exact tokensFrom_of_step _ _ (by simp [step, hne, hcode])
  | none =>
    by_cases hcontrol : c.toNat < 32
    · -- Six characters; the code is put together from its last two digits.
      have hhigh := hexValue_hexDigit (c.toNat / 16) (by omega)
      have hlow := hexValue_hexDigit (c.toNat % 16) (by omega)
      have hsum : c.toNat / 16 * 16 + c.toNat % 16 = c.toNat := by omega
      simp only [hcontrol, if_true, List.cons_append, List.nil_append]
      rw [tokensFrom_of_step (.escaped codes) _ (by simp [step])]
      rw [tokensFrom_of_step (.unicode codes []) _ (by simp [step])]
      rw [tokensFrom_of_step (.unicode codes [0]) _ (by simp [step, hexValue])]
      rw [tokensFrom_of_step (.unicode codes [0, 0]) _ (by simp [step, hexValue])]
      rw [tokensFrom_of_step (.unicode codes [0, 0, c.toNat / 16]) _
        (by simp [step, hhigh])]
      exact tokensFrom_of_step _ _ (by simp [step, hlow, hsum])
    · have hquote : c ≠ '"' := by
        intro heq
        subst c
        simp [shortEscape] at hshort
      have hslash : c ≠ '\\' := by
        intro heq
        subst c
        simp [shortEscape] at hshort
      simp only [hcontrol, if_false, List.cons_append, List.nil_append]
      exact tokensFrom_of_step _ _ (by simp [step, hquote, hslash, hcontrol])

theorem tokensFrom_escape (text rest : List Char) :
    tokensFrom (.text codes) (escape text ++ rest) =
      tokensFrom (.text (codes ++ text.map Char.toNat)) rest := by
  induction text generalizing codes with
  | nil => simp [escape]
  | cons c text ih =>
    have hcons : escape (c :: text) = escapeChar c ++ escape text := rfl
    rw [hcons, List.append_assoc, tokensFrom_escapeChar, ih]
    simp

/-- A character is no half of a surrogate pair. -/
theorem charsOf_toNat (text : List Char) : charsOf (text.map Char.toNat) = some text := by
  induction text with
  | nil => rfl
  | cons c text ih =>
    have hvalid : c.toNat < 0xD800 ∨ 0xDFFF < c.toNat ∧ c.toNat < 0x110000 := c.valid
    have hhigh : ¬(0xD800 ≤ c.toNat ∧ c.toNat < 0xDC00) := by omega
    have hlow : ¬(0xDC00 ≤ c.toNat ∧ c.toNat < 0xE000) := by omega
    rw [List.map_cons, charsOf.eq_def]
    simp [hhigh, hlow, ih]

theorem tokensFrom_quote (text rest : List Char) :
    tokensFrom .between (quote text ++ rest) =
      (tokensFrom .between rest).map (.text (String.ofList text) :: ·) := by
  have hopen : step .between '"' = some ([], .text []) := by decide
  have hclose : step (.text (text.map Char.toNat)) '"' =
      some ([.text (String.ofList text)], .between) := by simp [step, charsOf_toNat]
  rw [quote, List.cons_append, tokensFrom_of_step _ _ hopen, List.append_assoc, tokensFrom_escape,
    List.nil_append, List.singleton_append, tokensFrom_cons, hclose]
  rfl

/-! ## Words and breaks -/

/-- Does no word go on at the beginning of a text? -/
def Delimited (rest : List Char) : Prop := ∀ c, rest.head? = some c → isWordChar c = false

theorem delimited_cons (rest : List Char) (h : isWordChar c = false) : Delimited (c :: rest) := by
  intro d hd
  cases hd
  exact h

variable {rest : List Char}

variable (chars : List Char)

theorem tokensFrom_wordEnd (h : Delimited rest) :
    tokensFrom (.word chars) rest = (tokensFrom .between rest).map (.word chars :: ·) := by
  cases rest with
  | nil => rfl
  | cons c rest =>
    have hc := h c rfl
    rw [tokensFrom_cons, tokensFrom_cons]
    simp only [step, hc, Bool.false_eq_true, if_false]
    cases stepBetween c with
    | none => rfl
    | some next => cases h : tokensFrom next.2 rest <;> simp [h]

theorem tokensFrom_word (soFar chars : List Char) (hchars : chars.all isWordChar = true)
    (h : Delimited rest) :
    tokensFrom (.word soFar) (chars ++ rest) =
      (tokensFrom .between rest).map (.word (soFar ++ chars) :: ·) := by
  induction chars generalizing soFar with
  | nil =>
    rw [List.nil_append, List.append_nil]
    exact tokensFrom_wordEnd soFar h
  | cons c chars ih =>
    simp only [List.all_cons, Bool.and_eq_true] at hchars
    have hstep : step (.word soFar) c = some ([], .word (soFar ++ [c])) := by
      simp only [step, hchars.1, if_true]
    rw [List.cons_append, tokensFrom_of_step _ _ hstep, ih _ hchars.2, List.append_assoc]
    rfl

theorem not_blank_of_word (h : isWordChar c = true) : isBlank c = false ∧ c ≠ '"' := by
  constructor
  · rw [isBlank, Bool.eq_false_iff]
    intro hblank
    simp only [Bool.or_eq_true, decide_eq_true_eq] at hblank
    rcases hblank with ((rfl | rfl) | rfl) | rfl <;> exact absurd h (by decide)
  · rintro rfl
    exact absurd h (by decide)

theorem tokensFrom_between_word (hne : chars ≠ []) (hchars : chars.all isWordChar = true)
    (h : Delimited rest) :
    tokensFrom .between (chars ++ rest) =
      (tokensFrom .between rest).map (.word chars :: ·) := by
  cases chars with
  | nil => exact absurd rfl hne
  | cons c chars =>
    simp only [List.all_cons, Bool.and_eq_true] at hchars
    obtain ⟨hblank, hquote⟩ := not_blank_of_word hchars.1
    have hstep : step .between c = some ([], .word [c]) := by
      simp [step, stepBetween, hblank, hquote, hchars.1]
    rw [List.cons_append, tokensFrom_of_step _ _ hstep]
    exact tokensFrom_word [c] chars hchars.2 h

theorem tokensFrom_blank (rest : List Char) (h : isBlank c = true) :
    tokensFrom .between (c :: rest) = tokensFrom .between rest :=
  tokensFrom_of_step _ rest (by simp [step, stepBetween, h])

theorem tokensFrom_lineBreak (indent depth : Nat) (rest : List Char) :
    tokensFrom .between (lineBreak indent depth ++ rest) = tokensFrom .between rest := by
  have hspaces : ∀ n, tokensFrom .between (List.replicate n ' ' ++ rest) =
      tokensFrom .between rest := by
    intro n
    induction n with
    | zero => rfl
    | succ n ih => rw [List.replicate_succ, List.cons_append, tokensFrom_blank _ (by decide), ih]
  rw [lineBreak]
  split
  · rfl
  · rw [List.cons_append, tokensFrom_blank _ (by decide), hspaces]

theorem tokensFrom_punctuation {token : Token} (rest : List Char)
    (h : stepBetween c = some ([token], .between)) :
    tokensFrom .between (c :: rest) = (tokensFrom .between rest).map (token :: ·) := by
  rw [tokensFrom_cons, step, h]
  rfl

/-! ## A value is its tokens -/

section ReadBack

variable {shown : Rat → List Char} (indent : Nat)

theorem printsBack_ne_nil {q : Rat} (h : printsBack shown q = true) : numberText shown q ≠ [] := by
  intro hnil
  rw [printsBack, hnil] at h
  exact absurd h (by simp [literal, readNumber, readDouble])

/-- What follows an item of a list: its end, or a comma. -/
theorem delimited_tail {α : Type} (items : List α) (more : List Char) {after : List Char}
    (h : Delimited after) : Delimited ((if items.isEmpty then [] else ',' :: more) ++ after) := by
  cases items with
  | nil => exact h
  | cons => exact delimited_cons _ (by decide)

theorem delimited_close (items : Bool) (depth : Nat) {c : Char} (rest : List Char)
    (h : isWordChar c = false) :
    Delimited ((if items then [] else lineBreak indent depth) ++ ([c] ++ rest)) := by
  cases items with
  | true => exact delimited_cons rest h
  | false =>
    simp only [Bool.false_eq_true, if_false, lineBreak]
    split
    · exact delimited_cons rest h
    · exact delimited_cons _ (by decide)

theorem tokensFrom_close (items : Bool) (depth : Nat) {c : Char} {token : Token}
    (rest : List Char) (h : stepBetween c = some ([token], .between)) :
    tokensFrom .between ((if items then [] else lineBreak indent depth) ++ ([c] ++ rest)) =
      (tokensFrom .between rest).map (token :: ·) := by
  have hskip : tokensFrom .between ((if items then [] else lineBreak indent depth) ++ ([c] ++ rest))
      = tokensFrom .between (c :: rest) := by
    cases items with
    | true => rfl
    | false => exact tokensFrom_lineBreak indent depth _
  rw [hskip, tokensFrom_punctuation rest h]

theorem tokensFrom_colonText (rest : List Char) :
    tokensFrom .between (colonText indent ++ rest) =
      (tokensFrom .between rest).map (.colon :: ·) := by
  rw [colonText]
  split
  · exact tokensFrom_punctuation rest (by decide)
  · have hcolon : stepBetween ':' = some ([.colon], .between) := by decide
    rw [List.cons_append, tokensFrom_punctuation _ hcolon, List.singleton_append,
      tokensFrom_blank rest (by decide)]

mutual

theorem tokensFrom_render : ∀ (depth : Nat) (j : Json) {rest : List Char},
    printable shown j = true → Delimited rest →
    tokensFrom .between (render shown indent depth j ++ rest) =
      (tokensFrom .between rest).map (valueTokens shown j ++ ·)
  | _, .null, _, _, h =>
    tokensFrom_between_word "null".toList (by decide) (by decide) h
  | _, .bool true, _, _, h =>
    tokensFrom_between_word "true".toList (by decide) (by decide) h
  | _, .bool false, _, _, h =>
    tokensFrom_between_word "false".toList (by decide) (by decide) h
  | _, .num _, _, hj, h => by
    have hprints := (Bool.and_eq_true_iff.mp hj).1
    exact tokensFrom_between_word _ (printsBack_ne_nil hj) hprints h
  | _, .str text, rest, _, _ => by
    rw [render, tokensFrom_quote, String.ofList_toList]
    rfl
  | depth, .arr items, rest, hj, _ => by
    have hopen : stepBetween '[' = some ([.openArray], .between) := by decide
    have hclose : stepBetween ']' = some ([.closeArray], .between) := by decide
    rw [render, List.cons_append, List.cons_append, tokensFrom_punctuation _ hopen,
      List.append_assoc, List.append_assoc,
      tokensFrom_renderItems (depth + 1) items hj (delimited_close indent _ _ _ (by decide)),
      tokensFrom_close indent _ _ _ hclose, Option.map_map, Option.map_map, valueTokens]
    congr 1
    funext tokens
    simp
  | depth, .obj members, rest, hj, _ => by
    have hopen : stepBetween '{' = some ([.openObject], .between) := by decide
    have hclose : stepBetween '}' = some ([.closeObject], .between) := by decide
    have hmembers := (Bool.and_eq_true_iff.mp hj).2
    rw [render, List.cons_append, List.cons_append, tokensFrom_punctuation _ hopen,
      List.append_assoc, List.append_assoc,
      tokensFrom_renderMembers (depth + 1) members hmembers
        (delimited_close indent _ _ _ (by decide)),
      tokensFrom_close indent _ _ _ hclose, Option.map_map, Option.map_map, valueTokens]
    congr 1
    funext tokens
    simp

theorem tokensFrom_renderItems : ∀ (depth : Nat) (items : List Json) {rest : List Char},
    itemsPrintable shown items = true → Delimited rest →
    tokensFrom .between (renderItems shown indent depth items ++ rest) =
      (tokensFrom .between rest).map (itemTokens shown items ++ ·)
  | _, [], rest, _, _ => (congrFun Option.map_id (tokensFrom .between rest)).symm
  | depth, item :: others, rest, hj, h => by
    have ⟨hitem, hothers⟩ := Bool.and_eq_true_iff.mp hj
    rw [renderItems, List.append_assoc, tokensFrom_lineBreak, List.append_assoc,
      tokensFrom_render depth item hitem (delimited_tail others _ h), itemTokens]
    cases others with
    | nil => simp
    | cons next others =>
      have hcomma : stepBetween ',' = some ([.comma], .between) := by decide
      have ih := tokensFrom_renderItems depth (next :: others) hothers h
      simp only [List.isEmpty_cons, Bool.false_eq_true, if_false, List.cons_append]
      rw [tokensFrom_punctuation _ hcomma, ih, Option.map_map, Option.map_map]
      congr 1
      funext tokens
      simp

theorem tokensFrom_renderMembers : ∀ (depth : Nat) (members : List (String × Json))
    {rest : List Char}, membersPrintable shown members = true → Delimited rest →
    tokensFrom .between (renderMembers shown indent depth members ++ rest) =
      (tokensFrom .between rest).map (memberTokens shown members ++ ·)
  | _, [], rest, _, _ => (congrFun Option.map_id (tokensFrom .between rest)).symm
  | depth, (name, value) :: others, rest, hj, h => by
    have ⟨hvalue, hothers⟩ := Bool.and_eq_true_iff.mp hj
    rw [renderMembers, List.append_assoc, tokensFrom_lineBreak, List.append_assoc,
      tokensFrom_quote, List.append_assoc, tokensFrom_colonText, List.append_assoc,
      tokensFrom_render depth value hvalue (delimited_tail others _ h), memberTokens,
      String.ofList_toList]
    cases others with
    | nil =>
      simp only [Option.map_map]
      congr 1
      funext tokens
      simp
    | cons next others =>
      have hcomma : stepBetween ',' = some ([.comma], .between) := by decide
      have ih := tokensFrom_renderMembers depth (next :: others) hothers h
      simp only [List.isEmpty_cons, Bool.false_eq_true, if_false, List.cons_append]
      rw [tokensFrom_punctuation _ hcomma, ih]
      simp only [Option.map_map]
      congr 1
      funext tokens
      simp

end

/-! ## The tokens are read as the value -/

theorem length_valueTokens_pos (shown : Rat → List Char) (j : Json) : 0 < (valueTokens shown j).length := by
  cases j with
  | bool value => cases value <;> exact Nat.zero_lt_one
  | _ => simp [valueTokens]

/-- Names that are all different are kept, each with its own value. -/
theorem joinMember_of_not_mem {name : String} {value : Json} {members : List (String × Json)}
    (h : name ∉ members.map Prod.fst) : joinMember name value members = (name, value) :: members := by
  have hkeep : (members.filter fun member => member.1 ≠ name) = members := by
    rw [List.filter_eq_self]
    intro member hmember
    have hne : member.1 ≠ name := fun heq => h (heq ▸ List.mem_map_of_mem hmember)
    simpa using hne
  have hnone : members.filter (fun entry => entry.1 = name) = [] := by
    rw [List.filter_eq_nil_iff]
    intro member hmember heq
    exact h (of_decide_eq_true heq ▸ List.mem_map_of_mem hmember)
  rw [joinMember, hkeep, Json.member?, Json.memberValues, hnone]
  rfl

/-- A value does not begin with the end of a list. -/
theorem valueTokens_ne_close (shown : Rat → List Char) (j : Json) (rest : List Token) :
    ∃ token more, valueTokens shown j ++ rest = token :: more ∧
      token ≠ .closeArray ∧ token ≠ .closeObject := by
  cases j with
  | bool value => cases value <;> exact ⟨_, _, rfl, by simp, by simp⟩
  | _ => exact ⟨_, _, rfl, by simp, by simp⟩

mutual

theorem readValue_tokens : ∀ (fuel : Nat) (j : Json) (rest : List Token),
    printable shown j = true → 2 * (valueTokens shown j).length ≤ fuel →
    readValue fuel (valueTokens shown j ++ rest) = some (j, rest)
  | 0, j, _, _, hfuel => absurd (length_valueTokens_pos shown j) (by omega)
  | _ + 1, .null, _, _, _ => rfl
  | _ + 1, .bool true, _, _, _ => rfl
  | _ + 1, .bool false, _, _, _ => rfl
  | _ + 1, .num q, rest, hj, _ => by
    have hliteral := of_decide_eq_true (Bool.and_eq_true_iff.mp hj).2
    show (literal (numberText shown q)).map (·, rest) = _
    rw [hliteral]
    rfl
  | _ + 1, .str _, _, _, _ => rfl
  | fuel + 1, .arr [], rest, _, _ => rfl
  | fuel + 1, .arr (item :: others), rest, hj, hfuel => by
    have hlength : 2 * (itemTokens shown (item :: others)).length + 1 ≤ fuel := by
      simp only [valueTokens, List.length_cons, List.length_append, List.length_nil] at hfuel
      omega
    have hitems := readItems_tokens fuel item others rest hj hlength
    have ⟨token, more, htokens, hne, _⟩ := valueTokens_ne_close shown item
      ((if others.isEmpty then [] else .comma :: itemTokens shown others) ++
        .closeArray :: rest)
    rw [valueTokens, List.cons_append, List.append_assoc, List.singleton_append]
    rw [itemTokens, List.append_assoc, htokens] at hitems ⊢
    rw [readValue, hitems]
    · rfl
    · rintro _ heq
      cases heq
      exact hne rfl
  | fuel + 1, .obj [], rest, _, _ => rfl
  | fuel + 1, .obj (member :: others), rest, hj, hfuel => by
    have hlength : 2 * (memberTokens shown (member :: others)).length + 1 ≤ fuel := by
      simp only [valueTokens, List.length_cons, List.length_append, List.length_nil] at hfuel
      omega
    have hmembers := readMembers_tokens fuel member others rest hj hlength
    show readValue (fuel + 1) (.openObject :: (memberTokens shown (member :: others) ++
      [.closeObject]) ++ rest) = _
    rw [List.cons_append, List.append_assoc, List.singleton_append]
    show (readMembers fuel (memberTokens shown (member :: others) ++ .closeObject :: rest)).map _
      = _
    rw [hmembers]
    rfl

theorem readItems_tokens : ∀ (fuel : Nat) (item : Json) (others : List Json) (rest : List Token),
    itemsPrintable shown (item :: others) = true →
    2 * (itemTokens shown (item :: others)).length + 1 ≤ fuel →
    readItems fuel (itemTokens shown (item :: others) ++ .closeArray :: rest) =
      some (item :: others, rest)
  | 0, _, _, _, _, hfuel => absurd hfuel (by omega)
  | fuel + 1, item, [], rest, hj, hfuel => by
    have hitem := (Bool.and_eq_true_iff.mp hj).1
    simp only [itemTokens, List.isEmpty_nil, if_true, List.append_nil] at hfuel ⊢
    rw [readItems, readValue_tokens fuel item _ hitem (by omega)]
    rfl
  | fuel + 1, item, next :: others, rest, hj, hfuel => by
    have ⟨hitem, hothers⟩ := Bool.and_eq_true_iff.mp hj
    rw [itemTokens] at hfuel ⊢
    simp only [List.isEmpty_cons, Bool.false_eq_true, if_false, List.length_append,
      List.length_cons] at hfuel ⊢
    rw [readItems, List.append_assoc, readValue_tokens fuel item _ hitem (by omega)]
    show (readItems fuel (itemTokens shown (next :: others) ++ .closeArray :: rest)).map _ = _
    rw [readItems_tokens fuel next others rest hothers (by omega)]
    rfl

theorem readMembers_tokens : ∀ (fuel : Nat) (member : String × Json)
    (others : List (String × Json)) (rest : List Token),
    printable shown (.obj (member :: others)) = true →
    2 * (memberTokens shown (member :: others)).length + 1 ≤ fuel →
    readMembers fuel (memberTokens shown (member :: others) ++ .closeObject :: rest) =
      some (member :: others, rest)
  | 0, _, _, _, _, hfuel => absurd hfuel (by omega)
  | fuel + 1, (name, value), [], rest, hj, hfuel => by
    simp only [printable, membersPrintable, Bool.and_eq_true] at hj
    have hvalue := hj.2.1
    simp only [memberTokens, List.isEmpty_nil, if_true, List.append_nil, List.length_cons]
      at hfuel ⊢
    rw [List.cons_append, List.cons_append, readMembers,
      readValue_tokens fuel value _ hvalue (by omega)]
    rfl
  | fuel + 1, (name, value), next :: others, rest, hj, hfuel => by
    have ⟨hnames, hvalues⟩ := Bool.and_eq_true_iff.mp hj
    have ⟨hvalue, hothers⟩ := Bool.and_eq_true_iff.mp hvalues
    have ⟨hnew, hdistinct⟩ := List.nodup_cons.mp (of_decide_eq_true hnames)
    have hrest : printable shown (.obj (next :: others)) = true :=
      Bool.and_eq_true_iff.mpr ⟨decide_eq_true hdistinct, hothers⟩
    rw [memberTokens] at hfuel ⊢
    simp only [List.isEmpty_cons, Bool.false_eq_true, if_false, List.length_append,
      List.length_cons] at hfuel
    rw [List.cons_append, List.cons_append, readMembers, List.append_assoc,
      readValue_tokens fuel value _ hvalue (by omega)]
    show (readMembers fuel (memberTokens shown (next :: others) ++ .closeObject :: rest)).map _
      = _
    rw [readMembers_tokens fuel next others rest hrest (by omega)]
    exact congrArg (fun members => some (members, rest)) (joinMember_of_not_mem hnew)

end

/-- A value that was written in any layout is read back. -/
theorem parseChars_render (depth : Nat) {j : Json} (h : printable shown j = true) :
    parseChars (render shown indent depth j) = some j := by
  have hend : Delimited [] := fun _ hc => by cases hc
  have htokens := tokensFrom_render indent depth j h hend
  rw [List.append_nil] at htokens
  have hread := readValue_tokens (2 * (valueTokens shown j).length) j [] h (Nat.le_refl _)
  rw [List.append_nil] at hread
  rw [parseChars, htokens]
  show (match readValue (2 * (valueTokens shown j ++ []).length) (valueTokens shown j ++ []) with
    | some (value, []) => some value
    | _ => none) = some j
  rw [List.append_nil, hread]

end ReadBack

end JsonText

end ApiVoy.Foundation
