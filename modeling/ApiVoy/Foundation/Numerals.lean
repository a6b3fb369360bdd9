/-
# Numbers in texts and bytes

Integers and floating point numbers as they are read from a text. An integer has a sign and
decimal digits and must fit its width. A floating point number is the double that is nearest
to a decimal number, the even one of two that are equally near. In bytes a number has a fixed
width.
-/

import ApiVoy.Foundation.Utf8
import Mathlib.Data.Rat.Floor

namespace ApiVoy.Foundation

/-! ## Integers -/

/-- A nonempty list of decimal digits. -/
def parseDigits (text : List Char) : Option Nat :=
  if text ≠ [] ∧ text.all Char.isDigit = true then some (Nat.ofDigitChars 10 text 0) else none

def parseU64 (text : List Char) : Option UInt64 :=
  let digits := match text with
    | '+' :: rest => rest
    | _ => text
  (parseDigits digits).bind fun n => if n < 2 ^ 64 then some (UInt64.ofNat n) else none

def parseI64 (text : List Char) : Option Int :=
  match text with
  | '-' :: rest => (parseDigits rest).bind fun n => if n ≤ 2 ^ 63 then some (-(n : Int)) else none
  | '+' :: rest => (parseDigits rest).bind fun n => if n < 2 ^ 63 then some (n : Int) else none
  | _ => (parseDigits text).bind fun n => if n < 2 ^ 63 then some (n : Int) else none

theorem parseDigits_toDigits (n : Nat) : parseDigits (Nat.toDigits 10 n) = some n := by
  have hne : Nat.toDigits 10 n ≠ [] := Nat.toDigits_ne_nil
  have hall : (Nat.toDigits 10 n).all Char.isDigit = true :=
    List.all_eq_true.mpr fun _ hc => Nat.isDigit_of_mem_toDigits (by decide) (by decide) hc
  rw [parseDigits, if_pos ⟨hne, hall⟩, Nat.ofDigitChars_ten_toDigits]

/-- A number that fits is read back from its digits. -/
theorem parseI64_toDigits {n : Nat} (h : n < 2 ^ 63) :
    parseI64 (Nat.toDigits 10 n) = some (n : Int) := by
  have hdigits := parseDigits_toDigits n
  have hdigit : ∀ c ∈ Nat.toDigits 10 n, c.isDigit = true := fun _ hc =>
    Nat.isDigit_of_mem_toDigits (by decide) (by decide) hc
  have hminus : ∀ rest, Nat.toDigits 10 n ≠ '-' :: rest := by
    intro rest heq
    have hdash := hdigit '-' (by rw [heq]; exact List.mem_cons_self)
    cases hdash
  have hplus : ∀ rest, Nat.toDigits 10 n ≠ '+' :: rest := by
    intro rest heq
    have hsign := hdigit '+' (by rw [heq]; exact List.mem_cons_self)
    cases hsign
  rw [parseI64, hdigits, Option.bind_some, if_pos h]
  · exact hminus
  · exact hplus

/-! ## Floating point numbers -/

inductive Double where
  | nan
  | infinite (negative : Bool)
  | finite (value : Rat)
  deriving DecidableEq

namespace Double

/-- The nearest integer, the even one of two. -/
def roundHalfEven (q : Rat) : Int :=
  let low := q.floor
  if q - low < 1 / 2 ∨ (q - low = 1 / 2 ∧ low % 2 = 0) then low else low + 1

/-- Multiply with a power of two. -/
def scale (q : Rat) (e : Int) : Rat := if 0 ≤ e then q * 2 ^ e.toNat else q / 2 ^ (-e).toNat

/-- The exponent of the greatest power of two up to a positive number. -/
def binaryExponent (q : Rat) : Int :=
  let guess := (Nat.log2 q.num.toNat : Int) - (Nat.log2 q.den : Int)
  if scale 1 guess ≤ q then guess else guess - 1

/-- The nearest double of a number that is not negative. -/
def ofNonneg (q : Rat) : Double :=
  if q = 0 then .finite 0
  else
    let e := max (-1074) (binaryExponent q - 52)
    let value := scale (roundHalfEven (scale q (-e))) e
    if value < 2 ^ 1024 then .finite value else .infinite false

def neg : Double → Double
  | .nan => .nan
  | .infinite negative => .infinite !negative
  | .finite value => .finite (-value)

/-- Is a double less than another one? Nothing is less or greater than what is no number. -/
def lt : Double → Double → Bool
  | .nan, _ => false
  | _, .nan => false
  | .infinite first, .infinite second => first && !second
  | .infinite negative, .finite _ => negative
  | .finite _, .infinite negative => !negative
  | .finite a, .finite b => decide (a < b)

/-- Are two doubles equal as numbers? -/
def eq (a b : Double) : Bool := decide (a ≠ .nan) && decide (a = b)

/-- The bits of a double in the format of IEEE 754: its sign, its exponent and its fraction. -/
def bits (value : Rat) : Nat :=
  let magnitude := |value|
  let e := max (-1022) (binaryExponent magnitude)
  let fraction := (roundHalfEven (scale magnitude (52 - e))).toNat
  (if value < 0 then 2 ^ 63 else 0) +
    if magnitude = 0 then 0
    else if fraction < 2 ^ 52 then fraction
    else (e + 1023).toNat * 2 ^ 52 + (fraction - 2 ^ 52)

end Double

/-- The exponent at the end of a decimal number. -/
def parseExponent (text : List Char) : Option Int :=
  match text with
  | [] => some 0
  | c :: rest =>
    if c = 'e' ∨ c = 'E' then
      match rest with
      | '-' :: digits => (parseDigits digits).map fun n => -(n : Int)
      | '+' :: digits => (parseDigits digits).map fun n => (n : Int)
      | _ => (parseDigits rest).map fun n => (n : Int)
    else none

/-- A decimal number without a sign: digits with a point among them or next to them, and an
exponent. -/
def parseDecimal (text : List Char) : Option Rat :=
  let whole := text.takeWhile Char.isDigit
  let (fraction, exponent) := match text.dropWhile Char.isDigit with
    | '.' :: rest => (rest.takeWhile Char.isDigit, rest.dropWhile Char.isDigit)
    | rest => ([], rest)
  if whole = [] ∧ fraction = [] then none
  else
    (parseExponent exponent).map fun e =>
      let scaled : Rat := Nat.ofDigitChars 10 (whole ++ fraction) 0
      let shift : Int := e - (fraction.length : Int)
      if 0 ≤ shift then scaled * 10 ^ shift.toNat else scaled / 10 ^ (-shift).toNat

def parseF64 (text : List Char) : Option Double :=
  let (negative, body) := match text with
    | '-' :: rest => (true, rest)
    | '+' :: rest => (false, rest)
    | _ => (false, text)
  let lower := body.map Char.toLower
  let magnitude :=
    if lower = "inf".toList ∨ lower = "infinity".toList then some (.infinite false)
    else if lower = "nan".toList then some .nan
    else (parseDecimal body).map Double.ofNonneg
  magnitude.map fun double => if negative = true then double.neg else double

/-! ## Numbers of a fixed width -/

/-- The last bytes of a number, the most significant one first. -/
def beBytes : Nat → Nat → Bytes
  | 0, _ => []
  | width + 1, n => beBytes width (n / 256) ++ [UInt8.ofNat n]

def readBE (bytes : Bytes) : Nat := bytes.foldl (fun n byte => n * 256 + byte.toNat) 0

@[simp]
theorem length_beBytes (width n : Nat) : (beBytes width n).length = width := by
  induction width generalizing n with
  | zero => rfl
  | succ width ih => rw [beBytes, List.length_append, ih, List.length_singleton]

theorem readBE_append_singleton (bytes : Bytes) (byte : UInt8) :
    readBE (bytes ++ [byte]) = readBE bytes * 256 + byte.toNat := by
  rw [readBE, List.foldl_append]
  rfl

/-- A number that fits in the width is read back. -/
theorem readBE_beBytes {width n : Nat} (h : n < 256 ^ width) : readBE (beBytes width n) = n := by
  induction width generalizing n with
  | zero =>
    cases Nat.lt_one_iff.mp h
    rfl
  | succ width ih =>
    have hdiv : n / 256 < 256 ^ width := by
      rw [Nat.div_lt_iff_lt_mul (by decide)]
      exact h
    have hbyte : (UInt8.ofNat n).toNat = n % 256 := UInt8.toNat_ofNat'
    rw [beBytes, readBE_append_singleton, ih hdiv, hbyte]
    exact Nat.div_add_mod' n 256

end ApiVoy.Foundation
