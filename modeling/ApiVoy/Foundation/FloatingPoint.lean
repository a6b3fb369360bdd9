/-
# The bits of floating point numbers

A pattern of bits is a sign, an exponent and a fraction. The patterns of doubles and the numbers
that they stand for belong to each other: the bits of a number that is the value of some pattern
are a pattern of this number.
-/

import ApiVoy.Foundation.Numerals
import Mathlib.Algebra.Order.Field.Power
import Mathlib.Data.Rat.Floor
import Mathlib.Tactic.Linarith
import Mathlib.Tactic.NormNum

namespace ApiVoy.Foundation

namespace Double

/-! ## Patterns -/

/-- How many bits there are for the exponent and for the fraction. -/
structure BinaryFormat where
  exponentBits : Nat
  fractionBits : Nat

def binary64 : BinaryFormat := ⟨11, 52⟩

/-- The exponent of the unit of a pattern. -/
def BinaryFormat.unit (format : BinaryFormat) (exponent : Nat) : Int :=
  exponent - (2 ^ (format.exponentBits - 1) - 1) - format.fractionBits

/-- What the exponent and the fraction of a pattern stand for. -/
def BinaryFormat.magnitude (format : BinaryFormat) (exponent fraction : Nat) : Double :=
  if exponent = 2 ^ format.exponentBits - 1 then
    if fraction = 0 then .infinite false else .nan
  else if exponent = 0 then .finite (scale fraction (format.unit 1))
  else .finite (scale (2 ^ format.fractionBits + fraction : Nat) (format.unit exponent))

/-- The number that a pattern stands for. -/
def ofPattern (format : BinaryFormat) (n : Nat) : Double :=
  let magnitude := format.magnitude (n / 2 ^ format.fractionBits % 2 ^ format.exponentBits)
    (n % 2 ^ format.fractionBits)
  if n / 2 ^ (format.exponentBits + format.fractionBits) % 2 = 1 then magnitude.neg else magnitude

/-- Is a number the value of a double? -/
def IsDouble (q : Rat) : Prop := ∃ n, ofPattern binary64 n = .finite q

/-! ## Powers of two -/

theorem scale_eq (q : Rat) (e : Int) : scale q e = q * 2 ^ e := by
  unfold scale
  split
  · rename_i hnonneg
    conv_rhs => rw [← Int.toNat_of_nonneg hnonneg, zpow_natCast]
  · rename_i hneg
    have hflip : e = -((-e).toNat : Int) := by omega
    conv_rhs => rw [hflip, zpow_neg, zpow_natCast]
    rw [div_eq_mul_inv]

theorem log2_le_cast {n : Nat} (hn : n ≠ 0) :
    (2 : Rat) ^ (Nat.log2 n : Int) ≤ n ∧ (n : Rat) < 2 ^ ((Nat.log2 n : Int) + 1) := by
  constructor
  · rw [zpow_natCast]
    exact_mod_cast Nat.log2_self_le hn
  · have hlt : n < 2 ^ (Nat.log2 n + 1) := Nat.lt_log2_self
    rw [show (Nat.log2 n : Int) + 1 = ((Nat.log2 n + 1 : Nat) : Int) from rfl, zpow_natCast]
    exact_mod_cast hlt

variable {q : Rat}

/-- A positive number lies between the power of two of its exponent and the next one. -/
theorem binaryExponent_spec (hq : 0 < q) :
    (2 : Rat) ^ binaryExponent q ≤ q ∧ q < 2 ^ (binaryExponent q + 1) := by
  have hnum : q.num.toNat ≠ 0 := by
    have := Rat.num_pos.mpr hq
    omega
  have hcast : (q.num.toNat : Rat) = (q.num : Rat) := by
    exact_mod_cast Int.toNat_of_nonneg (Rat.num_pos.mpr hq).le
  obtain ⟨hnumLow, hnumHigh⟩ := log2_le_cast hnum
  obtain ⟨hdenLow, hdenHigh⟩ := log2_le_cast q.den_nz
  rw [hcast] at hnumLow hnumHigh
  have hden : (0 : Rat) < q.den := by exact_mod_cast q.den_pos
  have hvalue : q * q.den = q.num := Rat.mul_den_eq_num q
  have hpos : ∀ e : Int, (0 : Rat) < 2 ^ e := fun e => zpow_pos (by norm_num) e
  -- The guess is at most one too large, and never too small.
  have hhigh : q < 2 ^ ((Nat.log2 q.num.toNat : Int) - Nat.log2 q.den + 1) := by
    have hsplit : (2 : Rat) ^ ((Nat.log2 q.num.toNat : Int) + 1) =
        2 ^ ((Nat.log2 q.num.toNat : Int) - Nat.log2 q.den + 1) * 2 ^ (Nat.log2 q.den : Int) := by
      rw [← zpow_add₀ (by norm_num)]
      congr 1
      omega
    rw [hsplit] at hnumHigh
    by_contra hlarge
    have hle := mul_le_mul (not_lt.mp hlarge) hdenLow (hpos _).le hq.le
    linarith
  have hlow : (2 : Rat) ^ ((Nat.log2 q.num.toNat : Int) - Nat.log2 q.den - 1) ≤ q := by
    have hsplit : (2 : Rat) ^ (Nat.log2 q.num.toNat : Int) =
        2 ^ ((Nat.log2 q.num.toNat : Int) - Nat.log2 q.den - 1) *
          2 ^ ((Nat.log2 q.den : Int) + 1) := by
      rw [← zpow_add₀ (by norm_num)]
      congr 1
      omega
    rw [hsplit] at hnumLow
    by_contra hsmall
    have hlt := mul_lt_mul'' (not_le.mp hsmall) hdenHigh hq.le hden.le
    linarith
  unfold binaryExponent
  dsimp only
  rw [scale_eq, one_mul]
  split
  · rename_i hguess
    exact ⟨hguess, hhigh⟩
  · rename_i hguess
    rw [Int.sub_add_cancel]
    exact ⟨hlow, not_le.mp hguess⟩

theorem binaryExponent_unique {e : Int} (hlow : (2 : Rat) ^ e ≤ q) (hhigh : q < 2 ^ (e + 1)) :
    binaryExponent q = e := by
  have hq : 0 < q := lt_of_lt_of_le (zpow_pos (by norm_num) e) hlow
  obtain ⟨hlow', hhigh'⟩ := binaryExponent_spec hq
  have hone : (1 : Rat) < 2 := by norm_num
  have hfirst : e < binaryExponent q + 1 := (zpow_lt_zpow_iff_right₀ hone).mp (hlow.trans_lt hhigh')
  have hsecond : binaryExponent q < e + 1 :=
    (zpow_lt_zpow_iff_right₀ hone).mp (hlow'.trans_lt hhigh)
  omega

theorem roundHalfEven_intCast (n : Int) : roundHalfEven (n : Rat) = n := by
  unfold roundHalfEven
  have hfloor : (n : Rat).floor = n := Rat.floor_intCast n
  rw [hfloor]
  dsimp only
  rw [sub_self, if_pos (Or.inl (by norm_num))]

/-! ## The bits of a double -/

/-- A significand of 53 bits and the exponent of its unit, which is the least one when the
significand has fewer bits. -/
structure HasMagnitude (q : Rat) (significand : Nat) (unit : Int) : Prop where
  value : |q| = significand * 2 ^ unit
  small : significand < 2 ^ 53
  low : -1074 ≤ unit
  high : unit ≤ 971
  normal : 2 ^ 52 ≤ significand ∨ unit = -1074

theorem abs_of_ofPattern {n : Nat} (h : ofPattern binary64 n = .finite q) :
    binary64.magnitude (n / 2 ^ 52 % 2 ^ 11) (n % 2 ^ 52) = .finite |q| := by
  have hnonneg : ∀ value, binary64.magnitude (n / 2 ^ 52 % 2 ^ 11) (n % 2 ^ 52) = .finite value →
      0 ≤ value := by
    intro value hvalue
    have hscale : ∀ (m : Nat) (e : Int), 0 ≤ scale m e := fun m e => by
      rw [scale_eq]
      exact mul_nonneg (Nat.cast_nonneg m) (zpow_pos (by norm_num) e).le
    unfold BinaryFormat.magnitude at hvalue
    split at hvalue
    · split at hvalue <;> cases hvalue
    · split at hvalue
      · cases hvalue
        exact hscale _ _
      · cases hvalue
        exact hscale _ _
  unfold ofPattern at h
  dsimp only at h
  split at h
  · cases hmagnitude : binary64.magnitude (n / 2 ^ 52 % 2 ^ 11) (n % 2 ^ 52) with
    | nan => rw [show binary64.fractionBits = 52 from rfl,
        show binary64.exponentBits = 11 from rfl, hmagnitude] at h; cases h
    | infinite negative => rw [show binary64.fractionBits = 52 from rfl,
        show binary64.exponentBits = 11 from rfl, hmagnitude] at h; cases h
    | finite value =>
      rw [show binary64.fractionBits = 52 from rfl, show binary64.exponentBits = 11 from rfl,
        hmagnitude] at h
      cases h
      rw [abs_neg, abs_of_nonneg (hnonneg _ hmagnitude)]
  · have hmagnitude : binary64.magnitude (n / 2 ^ 52 % 2 ^ 11) (n % 2 ^ 52) = .finite q := h
    rw [hmagnitude, abs_of_nonneg (hnonneg _ hmagnitude)]

theorem IsDouble.exists_magnitude (h : IsDouble q) : ∃ m k, HasMagnitude q m k := by
  obtain ⟨n, hn⟩ := h
  have hmagnitude := abs_of_ofPattern hn
  have hexponent : n / 2 ^ 52 % 2 ^ 11 < 2048 := Nat.mod_lt _ (by norm_num)
  have hfraction : n % 2 ^ 52 < 2 ^ 52 := Nat.mod_lt _ (by norm_num)
  unfold BinaryFormat.magnitude BinaryFormat.unit at hmagnitude
  split at hmagnitude
  · split at hmagnitude <;> cases hmagnitude
  · rename_i hfinite
    rw [show binary64.exponentBits = 11 from rfl] at hfinite
    split at hmagnitude
    · have hvalue := Double.finite.inj hmagnitude
      rw [scale_eq] at hvalue
      refine ⟨n % 2 ^ 52, -1074, hvalue.symm, by omega, by omega, by omega, .inr rfl⟩
    · rename_i hzero
      have hvalue := Double.finite.inj hmagnitude
      rw [scale_eq] at hvalue
      refine ⟨_, _, hvalue.symm, ?_, ?_, ?_, .inl (Nat.le_add_right _ _)⟩
      · simp only [binary64]
        omega
      · simp only [binary64]
        omega
      · simp only [binary64]
        omega

/-- The exponent that the bits of a number are written with. -/
theorem HasMagnitude.exponent {m : Nat} {k : Int} (h : HasMagnitude q m k) (hm : m ≠ 0) :
    max (-1022) (binaryExponent |q|) = k + 52 := by
  have hpow : (0 : Rat) < 2 ^ k := zpow_pos (by norm_num) k
  have hhigh : ∀ bound : Nat, m < 2 ^ bound → |q| < 2 ^ (k + bound) := by
    intro bound hbound
    have hcast : (m : Rat) < 2 ^ bound := by exact_mod_cast hbound
    rw [h.value, zpow_add₀ (by norm_num), zpow_natCast, mul_comm]
    exact mul_lt_mul_of_pos_left hcast hpow
  by_cases hnormal : 2 ^ 52 ≤ m
  · have hlow : (2 : Rat) ^ (k + 52) ≤ |q| := by
      have hcast : (2 : Rat) ^ 52 ≤ m := by exact_mod_cast hnormal
      rw [h.value, zpow_add₀ (by norm_num), mul_comm]
      exact mul_le_mul_of_nonneg_right hcast hpow.le
    have hexact : binaryExponent |q| = k + 52 := binaryExponent_unique hlow (by
      rw [add_assoc]
      exact hhigh 53 h.small)
    have hleast := h.low
    omega
  · have hk : k = -1074 := h.normal.resolve_left hnormal
    have hpositive : 0 < |q| := by
      rw [h.value]
      exact mul_pos (Nat.cast_pos.mpr (Nat.pos_of_ne_zero hm)) hpow
    have hone : (1 : Rat) < 2 := by norm_num
    have hless : binaryExponent |q| < k + 52 := (zpow_lt_zpow_iff_right₀ hone).mp
      ((binaryExponent_spec hpositive).1.trans_lt (hhigh 52 (not_le.mp hnormal)))
    omega

theorem HasMagnitude.bits_eq {m : Nat} {k : Int} (h : HasMagnitude q m k) (hm : m ≠ 0) :
    bits q = (if q < 0 then 2 ^ 63 else 0) +
      if m < 2 ^ 52 then m else (k + 1075).toNat * 2 ^ 52 + (m - 2 ^ 52) := by
  have hround : (roundHalfEven (scale |q| (52 - (k + 52)))).toNat = m := by
    have hunit : scale |q| (52 - (k + 52)) = ((m : Int) : Rat) := by
      have hcancel : k + (52 - (k + 52)) = 0 := by omega
      rw [scale_eq, h.value, mul_assoc, ← zpow_add₀ (by norm_num), hcancel, zpow_zero, mul_one]
      rfl
    rw [hunit, roundHalfEven_intCast, Int.toNat_natCast]
  have hpositive : |q| ≠ 0 := by
    rw [h.value]
    exact mul_ne_zero (Nat.cast_ne_zero.mpr hm) (zpow_pos (by norm_num) k).ne'
  unfold bits
  dsimp only
  rw [h.exponent hm, hround, if_neg hpositive, show k + 52 + 1023 = k + 1075 by omega]

theorem ofPattern_sign {code : Nat} (hcode : code < 2 ^ 63)
    (hvalue : binary64.magnitude (code / 2 ^ 52 % 2 ^ 11) (code % 2 ^ 52) = .finite |q|) :
    ofPattern binary64 ((if q < 0 then 2 ^ 63 else 0) + code) = .finite q := by
  unfold ofPattern
  rw [show binary64.fractionBits = 52 from rfl, show binary64.exponentBits = 11 from rfl]
  dsimp only
  by_cases hneg : q < 0
  · have hexponent : (2 ^ 63 + code) / 2 ^ 52 % 2 ^ 11 = code / 2 ^ 52 % 2 ^ 11 := by omega
    have hfraction : (2 ^ 63 + code) % 2 ^ 52 = code % 2 ^ 52 := by omega
    have hsign : (2 ^ 63 + code) / 2 ^ (11 + 52) % 2 = 1 := by omega
    rw [if_pos hneg, hexponent, hfraction, if_pos hsign, hvalue, neg, abs_of_neg hneg, neg_neg]
  · have hsign : ¬(0 + code) / 2 ^ (11 + 52) % 2 = 1 := by omega
    rw [if_neg hneg, if_neg hsign, Nat.zero_add, hvalue, abs_of_nonneg (not_lt.mp hneg)]

/-- The bits of a double are a pattern of it. -/
theorem ofPattern_bits (h : IsDouble q) :
    ofPattern binary64 (bits q) = .finite q ∧ bits q < 2 ^ 64 := by
  obtain ⟨m, k, hmagnitude⟩ := h.exists_magnitude
  by_cases hm : m = 0
  · have hzero : q = 0 := by
      rw [← abs_eq_zero, hmagnitude.value, hm, Nat.cast_zero, zero_mul]
    rw [hzero]
    decide +kernel
  · have hsmall := hmagnitude.small
    have hlow := hmagnitude.low
    have hhigh := hmagnitude.high
    rw [hmagnitude.bits_eq hm]
    generalize hcode : (if m < 2 ^ 52 then m else (k + 1075).toNat * 2 ^ 52 + (m - 2 ^ 52)) = code
    have hbound : code < 2 ^ 63 := by
      rw [← hcode]
      split <;> omega
    refine ⟨ofPattern_sign hbound ?_, by split <;> omega⟩
    by_cases hnormal : m < 2 ^ 52
    · have hk : k = -1074 := hmagnitude.normal.resolve_left (not_le.mpr hnormal)
      rw [if_pos hnormal] at hcode
      have hexponent : code / 2 ^ 52 % 2 ^ 11 = 0 := by omega
      have hfraction : code % 2 ^ 52 = m := by omega
      rw [hexponent, hfraction, BinaryFormat.magnitude, if_neg (by decide), if_pos rfl, scale_eq,
        hmagnitude.value, hk]
      rfl
    · rw [if_neg hnormal] at hcode
      have hexponent : code / 2 ^ 52 % 2 ^ 11 = (k + 1075).toNat := by omega
      have hfraction : code % 2 ^ 52 = m - 2 ^ 52 := by omega
      have hfinite : ¬(k + 1075).toNat = 2 ^ binary64.exponentBits - 1 := by
        simp only [binary64]
        omega
      have hunit : binary64.unit (k + 1075).toNat = k := by
        simp only [BinaryFormat.unit, binary64]
        omega
      have hsignificand : 2 ^ binary64.fractionBits + (m - 2 ^ 52) = m := by
        simp only [binary64]
        omega
      rw [hexponent, hfraction, BinaryFormat.magnitude, if_neg hfinite, if_neg (by omega), hunit,
        hsignificand, scale_eq, hmagnitude.value]

end Double

end ApiVoy.Foundation
