/-
# Text operations

The string operations the modelled code relies on, on lists of characters:
trimming by the Unicode white-space property, and comparing texts by their code
points.
-/

import ApiVoy.Foundation.Trimming
import Mathlib.Data.List.Basic

namespace ApiVoy.Foundation

/-- The Unicode property `White_Space`. -/
def isWhitespace (c : Char) : Bool :=
  decide ((9 ≤ c.toNat ∧ c.toNat ≤ 13) ∨ c.toNat = 0x20 ∨ c.toNat = 0x85 ∨ c.toNat = 0xA0 ∨
    c.toNat = 0x1680 ∨ (0x2000 ≤ c.toNat ∧ c.toNat ≤ 0x200A) ∨ c.toNat = 0x2028 ∨
    c.toNat = 0x2029 ∨ c.toNat = 0x202F ∨ c.toNat = 0x205F ∨ c.toNat = 0x3000)

/-- Remove white space at both ends. -/
def trimChars (cs : List Char) : List Char :=
  ((cs.dropWhile isWhitespace).reverse.dropWhile isWhitespace).reverse

def trim (text : String) : String := String.ofList (trimChars text.toList)

@[simp]
theorem trim_trim (text : String) : trim (trim text) = trim text := by
  rw [trim, trim, String.toList_ofList]
  exact congrArg String.ofList (trimBy_trimBy text.toList)

/-- Compare two texts character by character. -/
def textLe : List Char → List Char → Bool
  | [], _ => true
  | _ :: _, [] => false
  | a :: as, b :: bs => a.toNat < b.toNat || (a.toNat = b.toNat && textLe as bs)

/-- Are two texts equal up to the case of ASCII letters? -/
def eqIgnoreAsciiCase (a b : String) : Bool :=
  a.toList.map Char.toLower = b.toList.map Char.toLower

/-- Does one text occur in another one? -/
def occursIn (part : List Char) : List Char → Bool
  | [] => part.isEmpty
  | c :: rest => part.isPrefixOf (c :: rest) || occursIn part rest

theorem occursIn_singleton (c : Char) (text : List Char) :
    occursIn [c] text = text.contains c := by
  induction text with
  | nil => rfl
  | cons d text ih =>
    rw [occursIn, ih, List.contains_cons]
    simp [List.isPrefixOf]

/-- Texts with a separator between them are the first one, and each other one with the separator
in front of it. -/
theorem toList_intercalate_cons (separator first : String) (texts : List String) :
    (separator.intercalate (first :: texts)).toList =
      first.toList ++ texts.flatMap fun text => separator.toList ++ text.toList := by
  induction texts generalizing first with
  | nil => simp
  | cons text texts ih =>
    rw [String.intercalate_cons_cons, String.toList_append, String.toList_append, ih text,
      List.flatMap_cons, List.append_assoc, List.append_assoc]

/-- White space between words stays. -/
example : trim " two words\n" = "two words" := by decide

end ApiVoy.Foundation
