/-
# Texts in the client's scripts

The operations on texts the client programs use. White space is what a script calls white
space, which is not the Unicode property. Lower case is only ever compared with ASCII texts,
so only the characters that have an ASCII letter in their lower case are mapped.
-/

import ApiVoy.Foundation.JsonText
import ApiVoy.Foundation.Text
import Mathlib.Data.List.Sort

namespace ApiVoy.Foundation

namespace Script

/-- What a script asks the platform it runs on. -/
structure Platform where
  /-- `toUpperCase`, over all of Unicode. -/
  toUpperCase : String → String
  /-- The text of a number that is not a safe integer. -/
  numberText : Rat → List Char
  /-- The names of the query parameters of a URL; none when it is malformed. -/
  searchParamKeys : String → List String
  /-- The entries of a text in the encoding of forms. -/
  formEntries : String → List (String × String)
  /-- The normal form of a URL, relative to another one; none when it is malformed. -/
  resolveUrl : String → Option String → Option String
  /-- The path of a URL; none when it is malformed. -/
  urlPathname : String → Option String
  /-- A text of seconds in whole milliseconds; none when it is no finite number, or negative. -/
  milliseconds : String → Option Rat
  /-- The value of a YAML document, or what is wrong with it. -/
  parseYaml : String → Except String Json

/-- A platform for texts without anything to encode. -/
def Platform.ascii : Platform where
  toUpperCase text := String.ofList (text.toList.map Char.toUpper)
  numberText _ := []
  searchParamKeys _ := []
  formEntries _ := []
  resolveUrl url _ := some url
  urlPathname _ := none
  milliseconds _ := none
  parseYaml _ := .error "unsupported"

/-- White space and line terminators. -/
def isSpace (c : Char) : Bool :=
  decide ((9 ≤ c.toNat ∧ c.toNat ≤ 13) ∨ c.toNat = 0x20 ∨ c.toNat = 0xA0 ∨ c.toNat = 0x1680 ∨
    (0x2000 ≤ c.toNat ∧ c.toNat ≤ 0x200A) ∨ c.toNat = 0x2028 ∨ c.toNat = 0x2029 ∨
    c.toNat = 0x202F ∨ c.toNat = 0x205F ∨ c.toNat = 0x3000 ∨ c.toNat = 0xFEFF)

def trimChars (cs : List Char) : List Char :=
  ((cs.dropWhile isSpace).reverse.dropWhile isSpace).reverse

def trim (text : String) : String := String.ofList (trimChars text.toList)

/-- A text has nothing to trim when it neither begins nor ends with white space. -/
theorem trimChars_eq_self_iff {cs : List Char} :
    trimChars cs = cs ↔
      (∀ c ∈ cs.head?, isSpace c = false) ∧ ∀ c ∈ cs.getLast?, isSpace c = false :=
  trimBy_eq_self_iff

theorem trimChars_sublist (cs : List Char) : (trimChars cs).Sublist cs := trimBy_sublist cs

@[simp]
theorem trimChars_trimChars (cs : List Char) : trimChars (trimChars cs) = trimChars cs :=
  trimBy_trimBy cs

/-- A text that does not begin with white space keeps its first character. -/
theorem head?_trimChars {cs : List Char} {c : Char} (h : cs.head? = some c)
    (hspace : isSpace c = false) : (trimChars cs).head? = some c :=
  head?_trimBy h hspace

@[simp]
theorem trim_trim (text : String) : trim (trim text) = trim text := by
  simp [trim]

/-- The lower case of a character. Besides the ASCII letters only the Kelvin sign and the
dotted capital I have an ASCII letter in it. -/
def lowerChar (c : Char) : List Char :=
  if c.toNat = 0x212A then ['k']
  else if c.toNat = 0x130 then ['i', Char.ofNat 0x307]
  else [c.toLower]

def toLowerCase (text : String) : String := String.ofList (text.toList.flatMap lowerChar)

/-- `includes`. -/
def includes (text part : String) : Bool := occursIn part.toList text.toList

/-! ## JSON -/

variable (platform : Platform)

/-- `JSON.parse`. -/
def parseJson (text : String) : Option Json := JsonText.parseChars text.toList

/-- `JSON.stringify`, with the width of one step of indentation. -/
def stringify (indent : Nat) (value : Json) : String :=
  String.ofList (JsonText.render platform.numberText indent 0 value)

theorem parseJson_stringify (indent : Nat) {value : Json}
    (h : JsonText.printable platform.numberText value = true) :
    parseJson (stringify platform indent value) = some value := by
  rw [parseJson, stringify, String.toList_ofList]
  exact JsonText.parseChars_render indent 0 h

/-! ## Objects -/

/-- The number of a name that an array could have for an item. -/
def arrayIndex (name : String) : Option Nat :=
  (parseDigits name.toList).filter fun n => Nat.toDigits 10 n = name.toList ∧ n < 2 ^ 32 - 1

/-- The members of an object in the order they are enumerated: array indices come first. -/
def enumerate {α : Type} (members : List (String × α)) : List (String × α) :=
  (members.filter fun member => (arrayIndex member.1).isSome).insertionSort
      (fun a b => (arrayIndex a.1).getD 0 ≤ (arrayIndex b.1).getD 0) ++
    members.filter fun member => (arrayIndex member.1).isNone

mutual

/-- A value with the members of its objects in the order of enumeration. -/
def enumerated : Json → Json
  | .arr items => .arr (enumeratedItems items)
  | .obj members => .obj (enumerate (enumeratedMembers members))
  | value => value

def enumeratedItems : List Json → List Json
  | [] => []
  | item :: items => enumerated item :: enumeratedItems items

def enumeratedMembers : List (String × Json) → List (String × Json)
  | [] => []
  | (name, value) :: members => (name, enumerated value) :: enumeratedMembers members

end

/-- A number beyond the doubles is infinite, and an infinite one is written as `null`. -/
def writtenToken : JsonText.Token → JsonText.Token
  | .word chars =>
    let body := if chars.head? = some '-' then chars.tail else chars
    .word (if JsonText.readDouble body = some (.infinite false) then "null".toList else chars)
  | token => token

/-- `JSON.parse`, for a value that is enumerated and written again. -/
def parseObject (text : String) : Option Json :=
  ((parseJson text).or ((JsonText.tokensFrom .between text.toList).bind fun tokens =>
    JsonText.readTokens (tokens.map writtenToken))).map enumerated

/-! ## Conversions -/

/-- The value of a literal with a prefix for its base. -/
def radixNumber (base : Nat) (digits : List Char) : Double :=
  let values := digits.map fun c =>
    if c.isDigit then c.toNat - '0'.toNat
    else if c.isAlpha then c.toLower.toNat - 'a'.toNat + 10 else base
  if digits = [] ∨ values.any (base ≤ ·) then .nan
  else Double.ofNonneg (values.foldl (fun n digit => n * base + digit) 0 : Nat)

/-- `Number(text)`. -/
def toNumber (text : String) : Double :=
  let unsigned : List Char → Double := fun body =>
    if body = "Infinity".toList then .infinite false
    else (parseDecimal body).elim .nan Double.ofNonneg
  match trimChars text.toList with
  | [] => .finite 0
  | '0' :: 'x' :: digits | '0' :: 'X' :: digits => radixNumber 16 digits
  | '0' :: 'o' :: digits | '0' :: 'O' :: digits => radixNumber 8 digits
  | '0' :: 'b' :: digits | '0' :: 'B' :: digits => radixNumber 2 digits
  | '-' :: body => (unsigned body).neg
  | '+' :: body => unsigned body
  | body => unsigned body

mutual

/-- `String(value)`. -/
def textValue : Json → String
  | .null => "null"
  | .bool value => if value then "true" else "false"
  | .num value => String.ofList (JsonText.numberText platform.numberText value)
  | .str text => text
  | .arr items => ",".intercalate (itemTexts items)
  | .obj _ => "[object Object]"

/-- The texts of items; nothing stands for `null`. -/
def itemTexts : List Json → List String
  | [] => []
  | .null :: items => "" :: itemTexts items
  | item :: items => textValue item :: itemTexts items

end

end Script

end ApiVoy.Foundation
