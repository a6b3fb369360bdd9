/-
# JSON values

The value type shared by everything that crosses a serialization boundary: the
persisted request envelopes, script inputs and outputs, and the documents that
leave the machine. Object members keep their order and may repeat a name, as a
serialized text can; numbers are the exact rationals their literals denote.
-/

import Mathlib.Algebra.Group.Int.Defs
import Mathlib.Data.Rat.Defs

namespace ApiVoy.Foundation

inductive Json where
  | null
  | bool (value : Bool)
  | num (value : Rat)
  | str (value : String)
  | arr (items : List Json)
  | obj (members : List (String × Json))

namespace Json

mutual

/-- Structural comparison of two values. -/
def same : Json → Json → Bool
  | .null, .null => true
  | .bool a, .bool b => a == b
  | .num a, .num b => decide (a = b)
  | .str a, .str b => decide (a = b)
  | .arr a, .arr b => sameItems a b
  | .obj a, .obj b => sameMembers a b
  | _, _ => false

def sameItems : List Json → List Json → Bool
  | [], [] => true
  | a :: as, b :: bs => same a b && sameItems as bs
  | _, _ => false

def sameMembers : List (String × Json) → List (String × Json) → Bool
  | [], [] => true
  | (k, a) :: as, (l, b) :: bs => decide (k = l) && (same a b && sameMembers as bs)
  | _, _ => false

end

mutual

theorem eq_of_same : ∀ a b : Json, same a b = true → a = b
  | .null, b, h => by cases b <;> simp_all [same]
  | .bool x, b, h => by cases b <;> simp_all [same]
  | .num x, b, h => by cases b <;> simp_all [same]
  | .str x, b, h => by cases b <;> simp_all [same]
  | .arr xs, b, h => by
    cases b <;> simp only [same, Bool.false_eq_true] at h
    rw [eq_of_sameItems xs _ h]
  | .obj xs, b, h => by
    cases b <;> simp only [same, Bool.false_eq_true] at h
    rw [eq_of_sameMembers xs _ h]

theorem eq_of_sameItems : ∀ a b : List Json, sameItems a b = true → a = b
  | [], b, h => by cases b <;> simp_all [sameItems]
  | x :: xs, b, h => by
    cases b with
    | nil => simp [sameItems] at h
    | cons y ys =>
      simp only [sameItems, Bool.and_eq_true] at h
      rw [eq_of_same x y h.1, eq_of_sameItems xs ys h.2]

theorem eq_of_sameMembers : ∀ a b : List (String × Json), sameMembers a b = true → a = b
  | [], b, h => by cases b <;> simp_all [sameMembers]
  | (k, x) :: xs, b, h => by
    cases b with
    | nil => simp [sameMembers] at h
    | cons entry ys =>
      obtain ⟨l, y⟩ := entry
      simp only [sameMembers, Bool.and_eq_true, decide_eq_true_eq] at h
      rw [h.1, eq_of_same x y h.2.1, eq_of_sameMembers xs ys h.2.2]

end

mutual

theorem same_refl : ∀ a : Json, same a a = true
  | .null => rfl
  | .bool x => by simp [same]
  | .num x => by simp [same]
  | .str x => by simp [same]
  | .arr xs => by simp only [same, sameItems_refl xs]
  | .obj xs => by simp only [same, sameMembers_refl xs]

theorem sameItems_refl : ∀ a : List Json, sameItems a a = true
  | [] => rfl
  | x :: xs => by simp only [sameItems, same_refl x, sameItems_refl xs, Bool.and_self]

theorem sameMembers_refl : ∀ a : List (String × Json), sameMembers a a = true
  | [] => rfl
  | (k, x) :: xs => by
    simp only [sameMembers, same_refl x, sameMembers_refl xs, decide_true, Bool.and_self]

end

instance : DecidableEq Json := fun a b =>
  decidable_of_iff (same a b = true) ⟨eq_of_same a b, fun h => h ▸ same_refl a⟩

/-- The values of all members with a given name, in order. -/
def memberValues (name : String) (members : List (String × Json)) : List Json :=
  (members.filter fun entry => entry.1 = name).map Prod.snd

@[simp]
theorem memberValues_nil (name : String) : memberValues name [] = [] := by
  simp [memberValues]

@[simp]
theorem memberValues_cons (name key : String) (value : Json) (members : List (String × Json)) :
    memberValues name ((key, value) :: members) =
      if key = name then value :: memberValues name members else memberValues name members := by
  by_cases h : key = name <;> simp [memberValues, h]

/-- The value a name has in an object: the last member with that name. -/
def member? (name : String) (members : List (String × Json)) : Option Json :=
  (memberValues name members).getLast?

/-! ## Looking into a value -/

/-- The member of an object with a given name; of several the last one. -/
def get (name : String) : Json → Option Json
  | .obj members => member? name members
  | _ => none

def asStr : Json → Option String
  | .str text => some text
  | _ => none

def asArray : Json → Option (List Json)
  | .arr items => some items
  | _ => none

def asBool : Json → Option Bool
  | .bool b => some b
  | _ => none

/-- An unsigned integer of 64 bits, for a number that is written without a point. -/
def asU64 : Json → Option Nat
  | .num q => if q.den = 1 ∧ 0 ≤ q.num ∧ q.num < 2 ^ 64 then some q.num.toNat else none
  | _ => none

/-- The text of a member, unless it is empty. -/
def textOf (name : String) (value : Json) : Option String :=
  ((value.get name).bind asStr).filter (· ≠ "")

end Json

end ApiVoy.Foundation
