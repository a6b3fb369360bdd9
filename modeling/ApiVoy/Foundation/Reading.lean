/-
# Reading a text of JSON back

A text that was written is not always read as the value it was written from. The parser gives up
where arrays and objects nest too deeply, and it may take the double next to the one that a number
with a point stands for. A value comes back as it was exactly when its numbers do and it is not
nested too deeply.
-/

import ApiVoy.Foundation.Literals

namespace ApiVoy.Foundation

namespace Json

/-- How many arrays and objects may stand in each other. -/
def maxNesting : Nat := 127

mutual

/-- How many arrays and objects stand in each other. -/
def nesting : Json → Nat
  | .arr items => itemNesting items + 1
  | .obj members => memberNesting members + 1
  | .null | .bool _ | .num _ | .str _ => 0

def itemNesting : List Json → Nat
  | [] => 0
  | item :: items => max (nesting item) (itemNesting items)

def memberNesting : List (String × Json) → Nat
  | [] => 0
  | (_, value) :: members => max (nesting value) (memberNesting members)

end

section Reading

variable (number : Rat → Rat)

mutual

/-- A value with its numbers as `number` reads them. -/
def reread : Json → Json
  | .null => .null
  | .bool value => .bool value
  | .num q => .num (number q)
  | .str text => .str text
  | .arr items => .arr (rereadItems items)
  | .obj members => .obj (rereadMembers members)

def rereadItems : List Json → List Json
  | [] => []
  | item :: items => reread item :: rereadItems items

def rereadMembers : List (String × Json) → List (String × Json)
  | [] => []
  | (name, value) :: members => (name, reread value) :: rereadMembers members

end

/-- What is read of the text of a value. -/
def readBack (value : Json) : Option Json :=
  if nesting value ≤ maxNesting then some (reread number value) else none

/-- Every number comes back, and `levels` arrays and objects are enough. -/
def readable (levels : Nat) (value : Json) : Bool :=
  (numbers value).all (fun q => decide (number q = q)) && decide (nesting value ≤ levels)

variable {number}

mutual

theorem reread_eq_self_iff : ∀ value : Json,
    reread number value = value ↔ ∀ q ∈ numbers value, number q = q
  | .null | .bool _ | .str _ => by simp [reread, numbers]
  | .num q => by simp [reread, numbers]
  | .arr items => by rw [reread, numbers, arr.injEq, rereadItems_eq_self_iff items]
  | .obj members => by rw [reread, numbers, obj.injEq, rereadMembers_eq_self_iff members]

theorem rereadItems_eq_self_iff : ∀ items : List Json,
    rereadItems number items = items ↔ ∀ q ∈ itemNumbers items, number q = q
  | [] => by simp [rereadItems, itemNumbers]
  | item :: items => by
    rw [rereadItems, itemNumbers, List.cons.injEq, reread_eq_self_iff item,
      rereadItems_eq_self_iff items, List.forall_mem_append]

theorem rereadMembers_eq_self_iff : ∀ members : List (String × Json),
    rereadMembers number members = members ↔ ∀ q ∈ memberNumbers members, number q = q
  | [] => by simp [rereadMembers, memberNumbers]
  | (name, value) :: members => by
    rw [rereadMembers, memberNumbers, List.cons.injEq, Prod.mk.injEq, reread_eq_self_iff value,
      rereadMembers_eq_self_iff members, List.forall_mem_append, and_iff_right rfl]

end

theorem readable_iff {levels : Nat} {value : Json} : readable number levels value = true ↔
    reread number value = value ∧ nesting value ≤ levels := by
  simp [readable, reread_eq_self_iff]

/-- A value comes back from its text exactly when it is readable. -/
theorem readBack_eq_self_iff {value : Json} :
    readBack number value = some value ↔ readable number maxNesting value = true := by
  rw [readable_iff, readBack]
  split
  · rename_i hfits
    rw [Option.some_inj, and_iff_left hfits]
  · rename_i hdeep
    exact iff_of_false (fun h => by cases h) fun h => hdeep h.2

theorem readable_arr {levels : Nat} {items : List Json} :
    readable number (levels + 1) (.arr items) = true ↔
      ∀ item ∈ items, readable number levels item = true := by
  simp only [readable_iff, reread, nesting, arr.injEq, Nat.add_le_add_iff_right]
  induction items with
  | nil => simp [rereadItems, itemNesting]
  | cons item items ih =>
    rw [rereadItems, itemNesting, List.cons.injEq, Nat.max_le, List.forall_mem_cons, ← ih]
    exact and_and_and_comm

theorem readable_obj {levels : Nat} {members : List (String × Json)} :
    readable number (levels + 1) (.obj members) = true ↔
      ∀ member ∈ members, readable number levels member.2 = true := by
  simp only [readable_iff, reread, nesting, obj.injEq, Nat.add_le_add_iff_right]
  induction members with
  | nil => simp [rereadMembers, memberNesting]
  | cons member members ih =>
    rw [rereadMembers, memberNesting, List.cons.injEq, Prod.mk.injEq, and_iff_right rfl, Nat.max_le,
      List.forall_mem_cons, ← ih]
    exact and_and_and_comm

theorem readable_num {q : Rat} (levels : Nat) (h : number q = q) :
    readable number levels (.num q) = true :=
  readable_iff.mpr ⟨congrArg Json.num h, Nat.zero_le _⟩

end Reading

/-- A parser that takes a number with a point for one next to it. -/
def nextNumber (q : Rat) : Rat := if q.den = 1 then q else q + 1 / 2 ^ 60

end Json

end ApiVoy.Foundation
