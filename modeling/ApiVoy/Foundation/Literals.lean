/-
# JSON as the literals of a program

A JSON text in a program is an expression. What it stands for is not always the value of the
text: a number is the nearest double, and a member named `__proto__` is no member. A value that
is written into a program and printed by it again is the same exactly when all its numbers are
printed as they were and no member has that name.
-/

import ApiVoy.Foundation.Codec

namespace ApiVoy.Foundation

namespace Json

variable (number : Rat → Rat)

mutual

/-- What is printed of a value that stands in a program, where `number` is what is printed of a
number. An object is read into a map, so that the order of its members is not kept here. -/
def literal : Json → Json
  | .null => .null
  | .bool value => .bool value
  | .num q => .num (number q)
  | .str text => .str text
  | .arr items => .arr (literalItems items)
  | .obj members => .obj (literalMembers members)

def literalItems : List Json → List Json
  | [] => []
  | item :: items => literal item :: literalItems items

def literalMembers : List (String × Json) → List (String × Json)
  | [] => []
  | (name, value) :: members =>
    if name = "__proto__" then literalMembers members
    else (name, literal value) :: literalMembers members

end

mutual

def numbers : Json → List Rat
  | .num q => [q]
  | .arr items => itemNumbers items
  | .obj members => memberNumbers members
  | .null | .bool _ | .str _ => []

def itemNumbers : List Json → List Rat
  | [] => []
  | item :: items => numbers item ++ itemNumbers items

def memberNumbers : List (String × Json) → List Rat
  | [] => []
  | (_, value) :: members => numbers value ++ memberNumbers members

end

mutual

/-- The names of the members of the objects in a value. -/
def names : Json → List String
  | .arr items => itemNames items
  | .obj members => memberNames members
  | .null | .bool _ | .num _ | .str _ => []

def itemNames : List Json → List String
  | [] => []
  | item :: items => names item ++ itemNames items

def memberNames : List (String × Json) → List String
  | [] => []
  | (name, value) :: members => name :: (names value ++ memberNames members)

end

theorem length_literalMembers_le (members : List (String × Json)) :
    (literalMembers number members).length ≤ members.length := by
  induction members with
  | nil => exact le_rfl
  | cons member members ih =>
    obtain ⟨name, value⟩ := member
    rw [literalMembers]
    split
    · exact ih.trans (Nat.le_succ _)
    · exact Nat.succ_le_succ ih

mutual

theorem literal_eq_self_iff : ∀ value : Json, literal number value = value ↔
    (∀ q ∈ numbers value, number q = q) ∧ "__proto__" ∉ names value
  | .null | .bool _ | .str _ => by simp [literal, numbers, names]
  | .num q => by simp [literal, numbers, names]
  | .arr items => by rw [literal, numbers, names, arr.injEq, literalItems_eq_self_iff items]
  | .obj members => by rw [literal, numbers, names, obj.injEq, literalMembers_eq_self_iff members]

theorem literalItems_eq_self_iff : ∀ items : List Json, literalItems number items = items ↔
    (∀ q ∈ itemNumbers items, number q = q) ∧ "__proto__" ∉ itemNames items
  | [] => by simp [literalItems, itemNumbers, itemNames]
  | item :: items => by
    rw [literalItems, itemNumbers, itemNames, List.cons.injEq, literal_eq_self_iff item,
      literalItems_eq_self_iff items, List.forall_mem_append, List.mem_append, not_or]
    exact and_and_and_comm

theorem literalMembers_eq_self_iff : ∀ members : List (String × Json),
    literalMembers number members = members ↔
      (∀ q ∈ memberNumbers members, number q = q) ∧ "__proto__" ∉ memberNames members
  | [] => by simp [literalMembers, memberNumbers, memberNames]
  | (name, value) :: members => by
    rw [literalMembers, memberNumbers, memberNames, List.forall_mem_append, List.mem_cons,
      List.mem_append, not_or, not_or]
    split
    · rename_i hname
      refine iff_of_false (fun heq => ?_) fun h => h.2.1 hname.symm
      have hlength := length_literalMembers_le number members
      rw [heq, List.length_cons] at hlength
      exact Nat.not_succ_le_self _ hlength
    · rename_i hname
      rw [List.cons.injEq, Prod.mk.injEq, literal_eq_self_iff value,
        literalMembers_eq_self_iff members]
      have hne : "__proto__" ≠ name := fun heq => hname heq.symm
      constructor
      · rintro ⟨⟨_, hvalue, hnames⟩, hrest, hothers⟩
        exact ⟨⟨hvalue, hrest⟩, hne, hnames, hothers⟩
      · rintro ⟨⟨hvalue, hrest⟩, _, hnames, hothers⟩
        exact ⟨⟨rfl, hvalue, hnames⟩, hrest, hothers⟩

end

@[simp]
theorem literalMembers_nil : literalMembers number [] = [] := rfl

@[simp]
theorem literalMembers_cons_of_ne {name : String} (h : name ≠ "__proto__") (value : Json)
    (members : List (String × Json)) :
    literalMembers number ((name, value) :: members) =
      (name, literal number value) :: literalMembers number members := by
  rw [literalMembers, if_neg h]

/-- Any other member has the values that are printed for it. -/
theorem memberValues_literalMembers {name : String} (h : name ≠ "__proto__")
    (members : List (String × Json)) :
    memberValues name (literalMembers number members) =
      (memberValues name members).map (literal number) := by
  induction members with
  | nil => rfl
  | cons member members ih =>
    obtain ⟨key, value⟩ := member
    by_cases hkey : key = "__proto__"
    · have hne : key ≠ name := fun heq => h (heq ▸ hkey)
      rw [literalMembers, if_pos hkey, ih, memberValues_cons, if_neg hne]
    · rw [literalMembers, if_neg hkey, memberValues_cons, memberValues_cons, ih]
      split <;> rfl

end Json

/-! ## Codecs -/

namespace Codec

variable {α β : Type} (number : Rat → Rat)

/-- What is read of a printed literal is written as that literal. -/
def Exact (c : Codec α) : Prop :=
  ∀ a b, c.read (Json.literal number (c.write a)) = some b →
    c.write b = Json.literal number (c.write a)

variable {number}

theorem exact_text : Exact number text := fun a b h => by
  cases h
  rfl

theorem exact_boolean : Exact number boolean := fun a b h => by
  cases h
  rfl

theorem exact_value : Exact number value := fun a b h => by
  cases h
  rfl

theorem exact_unsigned (bound : Nat) : Exact number (unsigned bound) := fun a b h => by
  have hread : (unsigned bound).read (.num (number (a.val : Rat))) = some b := h
  have hwrite : Json.literal number ((unsigned bound).write a) = .num (number (a.val : Rat)) := rfl
  rw [hwrite]
  rw [unsigned] at hread
  dsimp only at hread
  split at hread
  · rename_i hwhole
    cases hread
    have hnonneg : ((number (a.val : Rat)).num.toNat : Int) = (number (a.val : Rat)).num :=
      Int.toNat_of_nonneg hwhole.2.1
    have hvalue : ((number (a.val : Rat)).num : Rat) = number (a.val : Rat) :=
      Rat.coe_int_num_of_den_eq_one hwhole.1
    rw [unsigned]
    dsimp only
    rw [← hvalue, ← hnonneg]
    rfl
  · cases hread

variable {c : Codec α}

theorem Exact.ofInverse (hc : Exact number c) {forth : β → α} {back : α → β}
    {h : ∀ b, back (forth b) = b} (hforth : ∀ a, forth (back a) = a) :
    Exact number (c.ofInverse forth back h) := fun a b hread => by
  obtain ⟨read, hsome, rfl⟩ := Option.map_eq_some_iff.mp hread
  have hwrite := hc (forth a) read hsome
  change c.write (forth (back read)) = _
  rw [hforth]
  exact hwrite

theorem exact_word64 : Exact number word64 := (exact_unsigned _).ofInverse fun _ => rfl

theorem exact_word32 : Exact number word32 := (exact_unsigned _).ofInverse fun _ => rfl

theorem exact_readAll (hc : Exact number c) {as bs : List α}
    (h : readAll c.read (Json.literalItems number (as.map c.write)) = some bs) :
    bs.map c.write = Json.literalItems number (as.map c.write) := by
  induction as generalizing bs with
  | nil =>
    cases h
    rfl
  | cons a as ih =>
    obtain ⟨first, hfirst, h⟩ := Option.bind_eq_some_iff.mp h
    obtain ⟨others, hothers, h⟩ := Option.bind_eq_some_iff.mp h
    cases h
    rw [List.map_cons, List.map_cons, Json.literalItems, hc a first hfirst, ih hothers]

theorem Exact.list (hc : Exact number c) : Exact number c.list := fun _ _ h =>
  congrArg Json.arr (exact_readAll hc h)

theorem Exact.pair {d : Codec β} (hc : Exact number c) (hd : Exact number d) :
    Exact number (c.pair d) := fun a b h => by
  obtain ⟨first, hfirst, h⟩ := Option.bind_eq_some_iff.mp h
  obtain ⟨second, hsecond, h⟩ := Option.bind_eq_some_iff.mp h
  cases h
  change Json.arr [c.write first, d.write second] =
    .arr [Json.literal number (c.write a.1), Json.literal number (d.write a.2)]
  rw [hc a.1 first hfirst, hd a.2 second hsecond]

theorem Exact.nullable (hc : Exact number c) {h : ∀ a, c.write a ≠ .null} :
    Exact number (c.nullable h) := fun a b hread => by
  cases a with
  | none =>
    cases hread
    rfl
  | some a =>
    have hne : Json.literal number (c.write a) ≠ .null := by
      have hwrite := h a
      cases hvalue : c.write a <;> rw [hvalue] at hwrite <;> simp_all [Json.literal]
    have hsome : (c.read (Json.literal number (c.write a))).map some = some b := by
      cases hliteral : Json.literal number (c.write a) with
      | null => exact absurd hliteral hne
      | bool _ | num _ | str _ | arr _ | obj _ =>
        change (c.nullable h).read (Json.literal number (c.write a)) = some b at hread
        rw [hliteral] at hread
        exact hread
    obtain ⟨read, hexact, rfl⟩ := Option.map_eq_some_iff.mp hsome
    exact hc a read hexact

theorem exact_optText : Exact number optText := exact_text.nullable

theorem exact_name {label : α → String} {all : List α}
    {h : ∀ a, all.find? (fun b => label b = label a) = some a} :
    Exact number (name label all h) := fun a b hread => by
  have hlabel := List.find?_some hread
  exact congrArg Json.str (of_decide_eq_true hlabel)

/-- What is read of the literal of a record is written as that literal. -/
def ExactMembers (number : Rat → Rat) (ofMembers : List (String × Json) → Option α)
    (members : α → List (String × Json)) : Prop :=
  ∀ a b, ofMembers (Json.literalMembers number (members a)) = some b →
    members b = Json.literalMembers number (members a)

theorem Exact.record {members : α → List (String × Json)}
    {ofMembers : List (String × Json) → Option α} {h : ∀ a, ofMembers (members a) = some a}
    (hexact : ExactMembers number ofMembers members) :
    Exact number (record members ofMembers h) := fun a b hread =>
  congrArg Json.obj (hexact a b hread)

/-- The texts of a map are printed as they are; only one name is lost. -/
theorem literal_stringMap {m : StringMap} :
    Json.literal number (stringMap.write m) = stringMap.write (m.erase "__proto__") := by
  have hmembers : ∀ entries : List (Sigma fun _ : String => String), entries.NodupKeys →
      Json.literalMembers number (entries.map fun e => (e.1, .str e.2)) =
        (entries.kerase "__proto__").map fun e => (e.1, .str e.2) := by
    intro entries hnodup
    induction entries with
    | nil => rfl
    | cons entry entries ih =>
      obtain ⟨hnew, hrest⟩ := List.nodupKeys_cons.mp hnodup
      rw [List.map_cons, Json.literalMembers, ih hrest]
      split
      · rename_i hname
        rw [List.kerase_cons_eq hname.symm]
        rw [hname] at hnew
        rw [List.kerase_of_notMem_keys hnew]
      · rename_i hname
        rw [List.kerase_cons_ne fun heq => hname heq.symm]
        rfl
  exact congrArg Json.obj (hmembers m.entries m.nodupKeys)

theorem exact_stringMap : Exact number stringMap := fun m b h => by
  rw [literal_stringMap, stringMap.read_write] at h
  cases h
  exact literal_stringMap.symm

variable {members : List (String × Json)} {name : String}

/-- A member of a printed record is read from what is printed of its value. -/
theorem Exact.field (hc : Exact number c) {a b : α}
    (h : c.field name (Json.literalMembers number members) = some b)
    (hvalue : Json.memberValues name members = [c.write a]) (hname : name ≠ "__proto__") :
    c.write b = Json.literal number (c.write a) := by
  rw [Codec.field, Json.memberValues_literalMembers number hname, hvalue] at h
  exact hc a b h

theorem Exact.fieldOr (hc : Exact number c) {default : α} {a b : α}
    (h : c.fieldOr default name (Json.literalMembers number members) = some b)
    (hvalue : Json.memberValues name members = [c.write a]) (hname : name ≠ "__proto__") :
    c.write b = Json.literal number (c.write a) := by
  rw [Codec.fieldOr, Json.memberValues_literalMembers number hname, hvalue] at h
  exact hc a b h

/-- The first member of a printed record, and what is left to be read. -/
theorem Exact.peel {β : Type} (hc : Exact number c) {rest : α → Option β} {b : β}
    {a : α} (h : (c.field name (Json.literalMembers number members)).bind rest = some b)
    (hname : decide (name = "__proto__") = false)
    (hvalue : Json.memberValues name members = [c.write a]) :
    ∃ found, c.write found = Json.literal number (c.write a) ∧ rest found = some b := by
  obtain ⟨found, hfound, hrest⟩ := Option.bind_eq_some_iff.mp h
  exact ⟨found, hc.field hfound hvalue (of_decide_eq_false hname), hrest⟩

theorem Exact.peelOr {β : Type} (hc : Exact number c) {default : α} {rest : α → Option β} {b : β}
    {a : α} (h : (c.fieldOr default name (Json.literalMembers number members)).bind rest = some b)
    (hname : decide (name = "__proto__") = false)
    (hvalue : Json.memberValues name members = [c.write a]) :
    ∃ found, c.write found = Json.literal number (c.write a) ∧ rest found = some b := by
  obtain ⟨found, hfound, hrest⟩ := Option.bind_eq_some_iff.mp h
  exact ⟨found, hc.fieldOr hfound hvalue (of_decide_eq_false hname), hrest⟩

end Codec

end ApiVoy.Foundation
