/-
# Attempts that are repeated

An attempt is repeated when its outcome calls for it and a repetition is left. How many attempts
are made is then decided by the first outcome that does not call for another one, and by the
number of repetitions.
-/

import Mathlib.Order.Lattice

namespace ApiVoy.Foundation

/-- The number of attempts from one on: this one, and the ones that repeat it. -/
def tries (repeats : Nat → Bool) (first : Nat) : Nat → Nat
  | 0 => 1
  | left + 1 => if repeats first = true then tries repeats (first + 1) left + 1 else 1

variable {repeats : Nat → Bool}

theorem tries_pos (first left : Nat) : 0 < tries repeats first left := by
  cases left with
  | zero => exact Nat.one_pos
  | succ left =>
    rw [tries]
    split
    · exact Nat.succ_pos _
    · exact Nat.one_pos

variable {first : Nat}

theorem tries_succ_of_repeats (h : repeats first = true) (left : Nat) :
    tries repeats first (left + 1) = tries repeats (first + 1) left + 1 := if_pos h

theorem tries_of_not_repeats (h : repeats first = false) (left : Nat) :
    tries repeats first left = 1 := by
  cases left with
  | zero => rfl
  | succ left => exact if_neg (by rw [h]; exact Bool.false_ne_true)

/-- The first attempt that is not repeated is the last one, if there are enough repetitions. -/
theorem tries_eq_min {first k : Nat} (hbefore : ∀ i < k, repeats (first + i) = true)
    (hlast : repeats (first + k) = false) (left : Nat) :
    tries repeats first left = min (k + 1) (left + 1) := by
  induction k generalizing first left with
  | zero =>
    rw [tries_of_not_repeats (show repeats first = false from hlast)]
    omega
  | succ k ih =>
    cases left with
    | zero =>
      rw [tries]
      omega
    | succ left =>
      have hnext (i : Nat) : first + 1 + i = first + (i + 1) := by omega
      have hfirst : repeats first = true := hbefore 0 (Nat.succ_pos k)
      rw [tries_succ_of_repeats hfirst,
        ih (fun i hi => by rw [hnext]; exact hbefore (i + 1) (by omega))
          (by rw [hnext]; exact hlast) left]
      omega

/-- Attempts that are all repeated take all repetitions. -/
theorem tries_of_forall (h : ∀ i, repeats (first + i) = true) (left : Nat) :
    tries repeats first left = left + 1 := by
  induction left generalizing first with
  | zero => rfl
  | succ left ih =>
    have hfirst : repeats first = true := h 0
    have hnext (i : Nat) : repeats (first + 1 + i) = true := by
      rw [show first + 1 + i = first + (i + 1) by omega]
      exact h (i + 1)
    rw [tries_succ_of_repeats hfirst, ih hnext]

/-- All attempts but the last one are repeated. -/
theorem repeats_of_succ_lt_tries {first left i : Nat} (h : i + 1 < tries repeats first left) :
    repeats (first + i) = true := by
  induction left generalizing first i with
  | zero => exact absurd h (by rw [tries]; omega)
  | succ left ih =>
    cases hfirst : repeats first with
    | false => exact absurd h (by rw [tries_of_not_repeats hfirst]; omega)
    | true =>
      rw [tries_succ_of_repeats hfirst] at h
      cases i with
      | zero => exact hfirst
      | succ i =>
        rw [show first + (i + 1) = first + 1 + i by omega]
        exact ih (Nat.lt_of_succ_lt_succ h)

end ApiVoy.Foundation
