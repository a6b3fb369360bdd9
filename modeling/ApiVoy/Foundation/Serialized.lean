/-
# Serialized values

What a typed program writes as JSON: its numbers are integers of a fixed width or doubles, each
with a text of its own. A reader that knows only doubles takes the nearest one for an integer,
and everything else as it was written.
-/

import ApiVoy.Foundation.FloatingPoint
import ApiVoy.Foundation.JsonReads
import Mathlib.Data.List.TakeWhile
import Mathlib.Tactic.IntervalCases

namespace ApiVoy.Foundation

/-! ## Doubles -/

namespace Double

/-- The double of some bits: a sign, an exponent and a fraction. -/
def ofBits (bits : UInt64) : Double :=
  let negative := decide (2 ^ 63 ≤ bits.toNat)
  let exponent : Nat := bits.toNat / 2 ^ 52 % 2 ^ 11
  let fraction : Nat := bits.toNat % 2 ^ 52
  if exponent = 2047 then if fraction = 0 then .infinite negative else .nan
  else
    let magnitude :=
      if exponent = 0 then scale fraction (-1074)
      else scale (2 ^ 52 + fraction : Nat) ((exponent : Int) - 1075)
    .finite (if negative then -magnitude else magnitude)

/-- The value of the double nearest to an integer. -/
def nearest (n : Nat) : Rat :=
  match ofNonneg n with
  | .finite value => value
  | _ => 0

theorem roundHalfEven_le (q : Rat) : (roundHalfEven q : Rat) ≤ q + 1 := by
  have hfloor : ((q.floor : Int) : Rat) ≤ q := Rat.floor_le q
  unfold roundHalfEven
  dsimp only
  split
  · linarith
  · push_cast
    linarith

/-- No integer of 64 bits is beyond the range of doubles. -/
theorem ofNonneg_nat {n : Nat} (h : n < 2 ^ 64) : ofNonneg n = .finite (nearest n) := by
  have hfinite : ∃ value, ofNonneg n = .finite value := by
    rw [ofNonneg]
    split
    · exact ⟨0, rfl⟩
    dsimp only
    split
    · exact ⟨_, rfl⟩
    rename_i hlarge
    refine absurd ?_ hlarge
    generalize he : max (-1074) (binaryExponent (n : Rat) - 52) = e
    have hexponent : e ≤ 12 := by
      have hguess : binaryExponent (n : Rat) ≤ Nat.log2 n := by
        unfold binaryExponent
        dsimp only
        have hnum : ((n : Rat).num.toNat) = n := by simp
        have hden : (n : Rat).den = 1 := by simp
        rw [hnum, hden]
        split
        · simp
        · simp
          omega
      have hlog : Nat.log2 n < 64 := by
        rcases Nat.eq_zero_or_pos n with rfl | hpos
        · decide
        · exact (Nat.log2_lt hpos.ne').mpr h
      omega
    rw [scale_eq]
    have htwo : (0 : Rat) < 2 ^ e := zpow_pos (by norm_num) e
    have hpower : (2 : Rat) ^ e ≤ 2 ^ 12 := by
      rw [← zpow_natCast]
      exact zpow_le_zpow_right₀ (by norm_num) hexponent
    have hround := roundHalfEven_le (scale n (-e))
    have hback : scale n (-e) * 2 ^ e = n := by
      rw [scale_eq, mul_assoc, ← zpow_add₀ (by norm_num)]
      simp
    calc (roundHalfEven (scale n (-e)) : Rat) * 2 ^ e
        ≤ (scale n (-e) + 1) * 2 ^ e := mul_le_mul_of_nonneg_right hround htwo.le
      _ = n + 2 ^ e := by rw [add_mul, hback, one_mul]
      _ < 2 ^ 1024 := by
          have hn : (n : Rat) < 2 ^ 64 := by exact_mod_cast h
          have hsmall : (2 : Rat) ^ 64 + 2 ^ 12 < 2 ^ 65 := by norm_num
          have hsum : (n : Rat) + 2 ^ e < 2 ^ 65 := by linarith
          exact hsum.trans (pow_lt_pow_right₀ (by norm_num) (by norm_num))
  obtain ⟨value, hvalue⟩ := hfinite
  rw [nearest, hvalue]

end Double

namespace JsonText

/-! ## Integers -/

theorem head_toDigits {n : Nat} (h : n ≠ 0) : (Nat.toDigits 10 n).head? ≠ some '0' := by
  induction n using Nat.strongRecOn with
  | _ n ih =>
    rw [Nat.toDigits_eq_if (by decide)]
    split
    · rename_i hlt
      interval_cases n <;> first | exact absurd rfl h | decide
    · have hrest := ih (n / 10) (by omega) (by omega)
      rw [List.head?_append_of_ne_nil _ Nat.toDigits_ne_nil]
      exact hrest

theorem isDigit_toDigits (n : Nat) : ∀ c ∈ Nat.toDigits 10 n, c.isDigit = true := fun _ hc =>
  Nat.isDigit_of_mem_toDigits (by decide) (by decide) hc

theorem parseDecimal_toDigits (n : Nat) : parseDecimal (Nat.toDigits 10 n) = some (n : Rat) := by
  have htake := List.takeWhile_eq_self_iff.mpr (isDigit_toDigits n)
  have hdrop := List.dropWhile_eq_nil_iff.mpr (isDigit_toDigits n)
  rw [parseDecimal, htake, hdrop]
  simp [Nat.toDigits_ne_nil, parseExponent, Nat.ofDigitChars_ten_toDigits]

theorem literal_toDigits {n : Nat} (h : n < 2 ^ 64) :
    literal (Nat.toDigits 10 n) = some (.num (Double.nearest n)) := by
  have hdigit := isDigit_toDigits n
  have hname : ∀ name : List Char, name.all Char.isDigit = false → Nat.toDigits 10 n ≠ name := by
    rintro name hletters rfl
    rw [List.all_eq_true.mpr hdigit] at hletters
    cases hletters
  have hminus : ∀ rest, Nat.toDigits 10 n ≠ '-' :: rest := fun rest => hname _ rfl
  have htake := List.takeWhile_eq_self_iff.mpr hdigit
  have hdrop := List.dropWhile_eq_nil_iff.mpr hdigit
  have hzero : ¬((Nat.toDigits 10 n).length > 1 ∧ (Nat.toDigits 10 n).head? = some '0') := by
    rintro ⟨hlong, hhead⟩
    rcases Nat.eq_zero_or_pos n with rfl | hpos
    · exact absurd hlong (by decide)
    · exact head_toDigits hpos.ne' hhead
  have hnumber : readNumber (Nat.toDigits 10 n) = some (Double.nearest n) := by
    rw [readNumber]
    · simp only [readDouble, htake, hdrop]
      rw [if_neg (by simpa [Nat.toDigits_ne_nil] using hzero), parseDecimal_toDigits,
        Option.map_some, Double.ofNonneg_nat h]
      rfl
    · exact hminus
  rw [literal, if_neg (hname _ (by decide)), if_neg (hname _ (by decide)),
    if_neg (hname _ (by decide)), hnumber]
  rfl

end JsonText

/-! ## Values and their texts -/

inductive Serialized where
  | null
  | bool (value : Bool)
  | int (value : UInt64)
  | float (bits : UInt64)
  | text (value : String)
  | seq (items : List Serialized)
  | map (members : List (String × Serialized))

namespace Serialized

section Text

variable (floatText : UInt64 → List Char)

mutual

/-- The compact text of a value. A double that is not finite is written as `null`. -/
def chars : Serialized → List Char
  | .null => "null".toList
  | .bool true => "true".toList
  | .bool false => "false".toList
  | .int value => Nat.toDigits 10 value.toNat
  | .float bits =>
    match Double.ofBits bits with
    | .finite _ => floatText bits
    | _ => "null".toList
  | .text value => JsonText.quote value.toList
  | .seq items => JsonText.arrayText (itemChars items)
  | .map members => JsonText.objectText (memberChars members)

def itemChars : List Serialized → List (List Char)
  | [] => []
  | item :: items => chars item :: itemChars items

def memberChars : List (String × Serialized) → List (String × List Char)
  | [] => []
  | (name, value) :: members => (name, chars value) :: memberChars members

end

/-- The text of a finite double is one word, which is read as its value. -/
def PrintsDouble (bits : UInt64) : Prop :=
  ∀ value, Double.ofBits bits = .finite value → floatText bits ≠ [] ∧
    (floatText bits).all JsonText.isWordChar = true ∧
    JsonText.literal (floatText bits) = some (.num value)

end Text

section Json

variable (number : Nat → Rat)

mutual

/-- The value with some number for each integer. -/
def toJson : Serialized → Json
  | .null => .null
  | .bool value => .bool value
  | .int value => .num (number value.toNat)
  | .float bits =>
    match Double.ofBits bits with
    | .finite value => .num value
    | _ => .null
  | .text value => .str value
  | .seq items => .arr (itemsJson items)
  | .map members => .obj (membersJson members)

def itemsJson : List Serialized → List Json
  | [] => []
  | item :: items => toJson item :: itemsJson items

def membersJson : List (String × Serialized) → List (String × Json)
  | [] => []
  | (name, value) :: members => (name, toJson value) :: membersJson members

end

end Json

mutual

/-- The integers in a value. -/
def ints : Serialized → List UInt64
  | .int value => [value]
  | .seq items => itemInts items
  | .map members => memberInts members
  | _ => []

def itemInts : List Serialized → List UInt64
  | [] => []
  | item :: items => ints item ++ itemInts items

def memberInts : List (String × Serialized) → List UInt64
  | [] => []
  | (_, value) :: members => ints value ++ memberInts members

end

mutual

/-- The doubles in a value. -/
def floats : Serialized → List UInt64
  | .float bits => [bits]
  | .seq items => itemFloats items
  | .map members => memberFloats members
  | _ => []

def itemFloats : List Serialized → List UInt64
  | [] => []
  | item :: items => floats item ++ itemFloats items

def memberFloats : List (String × Serialized) → List UInt64
  | [] => []
  | (_, value) :: members => floats value ++ memberFloats members

end

mutual

/-- No object has two members of one name. -/
def Distinct : Serialized → Prop
  | .seq items => ItemsDistinct items
  | .map members => (members.map Prod.fst).Nodup ∧ MembersDistinct members
  | _ => True

def ItemsDistinct : List Serialized → Prop
  | [] => True
  | item :: items => Distinct item ∧ ItemsDistinct items

def MembersDistinct : List (String × Serialized) → Prop
  | [] => True
  | (_, value) :: members => Distinct value ∧ MembersDistinct members

end

variable {floatText : UInt64 → List Char}

theorem map_fst_membersJson (number : Nat → Rat) (members : List (String × Serialized)) :
    (membersJson number members).map Prod.fst = members.map Prod.fst := by
  induction members with
  | nil => rfl
  | cons member members ih => rw [membersJson, List.map_cons, List.map_cons, ih]

theorem le_of_isWordChar {c : Char} (h : JsonText.isWordChar c = true) : 32 ≤ c.toNat := by
  by_contra hlt
  have hall : ∀ n < 32, JsonText.isWordChar (Char.ofNat n) = false := by decide
  have hfalse := hall c.toNat (by omega)
  rw [Char.ofNat_toNat, h] at hfalse
  cases hfalse

theorem forall_mem_null : ∀ c ∈ "null".toList, 32 ≤ c.toNat := by decide

mutual

/-- The text of a value is read as the value, with the nearest double for each integer. -/
theorem reads_chars : ∀ value : Serialized, value.Distinct →
    (∀ bits ∈ value.floats, PrintsDouble floatText bits) →
    JsonText.Reads (value.chars floatText) (value.toJson Double.nearest)
  | .null, _, _ => JsonText.reads_null
  | .bool true, _, _ => JsonText.reads_true
  | .bool false, _, _ => JsonText.reads_false
  | .int value, _, _ => by
    have hword : (Nat.toDigits 10 value.toNat).all JsonText.isWordChar = true := by
      refine List.all_eq_true.mpr fun c hc => ?_
      have hdigit := JsonText.isDigit_toDigits _ c hc
      simp [JsonText.isWordChar, Char.isAlphanum, hdigit]
    exact JsonText.reads_word Nat.toDigits_ne_nil hword (JsonText.literal_toDigits value.toNat_lt)
  | .float bits, _, hfloats => by
    have hprints := hfloats bits List.mem_cons_self
    rw [chars, toJson]
    cases hbits : Double.ofBits bits with
    | finite value =>
      obtain ⟨hne, hword, hliteral⟩ := hprints value hbits
      exact JsonText.reads_word hne hword hliteral
    | nan => exact JsonText.reads_null
    | infinite negative => exact JsonText.reads_null
  | .text value, _, _ => JsonText.reads_quote value
  | .seq items, hdistinct, hfloats =>
    JsonText.reads_array (reads_itemChars items hdistinct hfloats)
  | .map members, hdistinct, hfloats => by
    refine JsonText.reads_object (reads_memberChars members hdistinct.2 hfloats) ?_
    rw [map_fst_membersJson]
    exact hdistinct.1

theorem reads_itemChars : ∀ items : List Serialized, ItemsDistinct items →
    (∀ bits ∈ itemFloats items, PrintsDouble floatText bits) →
    List.Forall₂ JsonText.Reads (itemChars floatText items) (itemsJson Double.nearest items)
  | [], _, _ => .nil
  | item :: items, hdistinct, hfloats =>
    .cons (reads_chars item hdistinct.1 fun bits hbits =>
        hfloats bits (List.mem_append_left _ hbits))
      (reads_itemChars items hdistinct.2 fun bits hbits =>
        hfloats bits (List.mem_append_right _ hbits))

theorem reads_memberChars : ∀ members : List (String × Serialized), MembersDistinct members →
    (∀ bits ∈ memberFloats members, PrintsDouble floatText bits) →
    List.Forall₂ JsonText.MemberReads (memberChars floatText members)
      (membersJson Double.nearest members)
  | [], _, _ => .nil
  | (_, value) :: members, hdistinct, hfloats =>
    .cons ⟨rfl, reads_chars value hdistinct.1 fun bits hbits =>
        hfloats bits (List.mem_append_left _ hbits)⟩
      (reads_memberChars members hdistinct.2 fun bits hbits =>
        hfloats bits (List.mem_append_right _ hbits))

end

mutual

/-- A text has no control characters. -/
theorem le_of_mem_chars : ∀ value : Serialized,
    (∀ bits ∈ value.floats, PrintsDouble floatText bits) →
    ∀ c ∈ value.chars floatText, 32 ≤ c.toNat
  | .null, _ => fun c => forall_mem_null c
  | .bool true, _ => fun c (hc : c ∈ "true".toList) => le_of_isWordChar (by
      revert c
      decide)
  | .bool false, _ => fun c (hc : c ∈ "false".toList) => le_of_isWordChar (by
      revert c
      decide)
  | .int value, _ => fun c hc => le_of_isWordChar (by
      simp [JsonText.isWordChar, Char.isAlphanum, JsonText.isDigit_toDigits _ c hc])
  | .float bits, hfloats => by
    have hprints := hfloats bits List.mem_cons_self
    rw [chars]
    cases hbits : Double.ofBits bits with
    | finite value =>
      obtain ⟨-, hword, -⟩ := hprints value hbits
      exact fun c hc => le_of_isWordChar (List.all_eq_true.mp hword c hc)
    | nan => exact fun c => forall_mem_null c
    | infinite negative => exact fun c => forall_mem_null c
  | .text value, _ => fun c hc => JsonText.le_of_mem_quote hc
  | .seq items, hfloats => by
    have hitems := JsonText.forall_mem_joinItems (by decide) (le_of_mem_itemChars items hfloats)
    intro c hc
    rcases List.mem_cons.mp hc with rfl | hc
    · decide
    rcases List.mem_append.mp hc with hc | hc
    · exact hitems c hc
    · rw [List.mem_singleton.mp hc]
      decide
  | .map members, hfloats => by
    have hmembers := JsonText.forall_mem_joinItems (by decide)
      (le_of_mem_memberChars members hfloats)
    intro c hc
    rcases List.mem_cons.mp hc with rfl | hc
    · decide
    rcases List.mem_append.mp hc with hc | hc
    · exact hmembers c hc
    · rw [List.mem_singleton.mp hc]
      decide

theorem le_of_mem_itemChars : ∀ items : List Serialized,
    (∀ bits ∈ itemFloats items, PrintsDouble floatText bits) →
    ∀ text ∈ itemChars floatText items, ∀ c ∈ text, 32 ≤ c.toNat
  | [], _ => fun _ h => (by cases h)
  | item :: items, hfloats => by
    intro text htext
    rcases List.mem_cons.mp htext with rfl | htext
    · exact le_of_mem_chars item fun bits hbits => hfloats bits (List.mem_append_left _ hbits)
    · exact le_of_mem_itemChars items (fun bits hbits =>
        hfloats bits (List.mem_append_right _ hbits)) text htext

theorem le_of_mem_memberChars : ∀ members : List (String × Serialized),
    (∀ bits ∈ memberFloats members, PrintsDouble floatText bits) →
    ∀ text ∈ (memberChars floatText members).map JsonText.memberText, ∀ c ∈ text, 32 ≤ c.toNat
  | [], _ => fun _ h => (by cases h)
  | (name, value) :: members, hfloats => by
    intro text htext c hc
    rcases List.mem_cons.mp htext with rfl | htext
    · rcases List.mem_append.mp hc with hc | hc
      · exact JsonText.le_of_mem_quote hc
      rcases List.mem_cons.mp hc with rfl | hc
      · decide
      · exact le_of_mem_chars value (fun bits hbits =>
          hfloats bits (List.mem_append_left _ hbits)) c hc
    · exact le_of_mem_memberChars members (fun bits hbits =>
        hfloats bits (List.mem_append_right _ hbits)) text htext c hc

end

mutual

variable {f g : Nat → Rat}

/-- Two readings of the integers agree on a value when they agree on its integers. -/
theorem toJson_eq_iff : ∀ value : Serialized,
    value.toJson f = value.toJson g ↔ ∀ n ∈ value.ints, f n.toNat = g n.toNat
  | .null => by simp [toJson, ints]
  | .bool value => by simp [toJson, ints]
  | .int value => by simp [toJson, ints]
  | .float bits => by simp [toJson, ints]
  | .text value => by simp [toJson, ints]
  | .seq items => by rw [toJson, toJson, Json.arr.injEq, itemsJson_eq_iff items, ints]
  | .map members => by rw [toJson, toJson, Json.obj.injEq, membersJson_eq_iff members, ints]

theorem itemsJson_eq_iff : ∀ items : List Serialized,
    itemsJson f items = itemsJson g items ↔ ∀ n ∈ itemInts items, f n.toNat = g n.toNat
  | [] => by simp [itemsJson, itemInts]
  | item :: items => by
    rw [itemsJson, itemsJson, List.cons.injEq, toJson_eq_iff item, itemsJson_eq_iff items,
      itemInts, List.forall_mem_append]

theorem membersJson_eq_iff : ∀ members : List (String × Serialized),
    membersJson f members = membersJson g members ↔ ∀ n ∈ memberInts members, f n.toNat = g n.toNat
  | [] => by simp [membersJson, memberInts]
  | (name, value) :: members => by
    rw [membersJson, membersJson, List.cons.injEq, Prod.mk.injEq, toJson_eq_iff value,
      membersJson_eq_iff members, memberInts, List.forall_mem_append]
    simp

end

end Serialized

end ApiVoy.Foundation
