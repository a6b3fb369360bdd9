/-
# Codecs over JSON

A codec writes the values of a type as JSON and reads them back; that reading
inverts writing is part of the codec. Records are read member by member: a
member that is required, one with a default, and one whose absence means that
there is no value. A name that occurs twice among the members is an error for
the field it names and is ignored otherwise.
-/

import ApiVoy.Foundation.Json
import Mathlib.Data.List.AList
import Mathlib.Data.Rat.Lemmas

namespace ApiVoy.Foundation

/-- A map from names to texts. The order of its entries is the order in which
the map is iterated. -/
abbrev StringMap := AList fun _ : String => String

/-- Writing and reading of one type. -/
structure Codec (α : Type) where
  write : α → Json
  read : Json → Option α
  read_write : ∀ a, read (write a) = some a

namespace Codec

variable {α β : Type}

/-! ## Values -/

def text : Codec String where
  write := .str
  read
    | .str s => some s
    | _ => none
  read_write _ := rfl

def boolean : Codec Bool where
  write := .bool
  read
    | .bool b => some b
    | _ => none
  read_write _ := rfl

/-- Any JSON value, as it is. -/
def value : Codec Json where
  write j := j
  read j := some j
  read_write _ := rfl

/-- An unsigned integer below `bound`. -/
def unsigned (bound : Nat) : Codec (Fin bound) where
  write n := .num (n.val : Rat)
  read
    | .num q => if h : q.den = 1 ∧ 0 ≤ q.num ∧ q.num.toNat < bound then some ⟨q.num.toNat, h.2.2⟩
        else none
    | _ => none
  read_write n := by simp

/-- Rename the values of a codec along an equivalence. -/
def ofInverse (c : Codec α) (forth : β → α) (back : α → β)
    (h : ∀ b, back (forth b) = b) : Codec β where
  write b := c.write (forth b)
  read j := (c.read j).map back
  read_write b := by simp [c.read_write, h]

def word64 : Codec UInt64 := (unsigned UInt64.size).ofInverse UInt64.toFin UInt64.ofFin fun _ => rfl

def word32 : Codec UInt32 := (unsigned UInt32.size).ofInverse UInt32.toFin UInt32.ofFin fun _ => rfl

def word16 : Codec UInt16 := (unsigned UInt16.size).ofInverse UInt16.toFin UInt16.ofFin fun _ => rfl

/-- A signed integer of 32 bits. -/
def signed32 : Codec Int32 where
  write n := .num (n.toInt : Rat)
  read
    | .num q => if q.den = 1 ∧ -2147483648 ≤ q.num ∧ q.num < 2147483648 then
        some (Int32.ofInt q.num) else none
    | _ => none
  read_write n := by
    have hlow : (-2147483648 : Int) ≤ n.toInt := n.le_toInt
    have hhigh : n.toInt < 2147483648 := n.toInt_lt
    simp [hlow, hhigh]

def readAll (read : Json → Option α) : List Json → Option (List α)
  | [] => some []
  | j :: rest => do
    let a ← read j
    let as ← readAll read rest
    return a :: as

variable (c : Codec α)

theorem readAll_map_write (as : List α) : readAll c.read (as.map c.write) = some as := by
  induction as with
  | nil => rfl
  | cons a rest ih => simp [readAll, c.read_write, ih]

/-- Every value of a list was read from an item. -/
theorem exists_of_readAll {read : Json → Option α} {items : List Json} {as : List α} {a : α}
    (h : readAll read items = some as) (ha : a ∈ as) : ∃ j ∈ items, read j = some a := by
  induction items generalizing as with
  | nil =>
    cases h
    cases ha
  | cons j rest ih =>
    obtain ⟨first, hfirst, h⟩ := Option.bind_eq_some_iff.mp h
    obtain ⟨others, hothers, heq⟩ := Option.bind_eq_some_iff.mp h
    cases heq
    rcases List.mem_cons.mp ha with heq | hmem
    · exact ⟨j, List.mem_cons_self, by rw [heq, hfirst]⟩
    · have ⟨j', hj', hread⟩ := ih hothers hmem
      exact ⟨j', List.mem_cons_of_mem j hj', hread⟩

def list (c : Codec α) : Codec (List α) where
  write as := .arr (as.map c.write)
  read
    | .arr items => readAll c.read items
    | _ => none
  read_write := readAll_map_write c

/-- A pair, as an array of its two components. -/
def pair (c : Codec α) (d : Codec β) : Codec (α × β) where
  write p := .arr [c.write p.1, d.write p.2]
  read
    | .arr [i, j] => do
      let a ← c.read i
      let b ← d.read j
      return (a, b)
    | _ => none
  read_write p := by simp [c.read_write, d.read_write]

/-- A value that may be missing: `null` stands for its absence, so no value may
itself be written as `null`. -/
def nullable (c : Codec α) (h : ∀ a, c.write a ≠ .null) : Codec (Option α) where
  write
    | none => .null
    | some a => c.write a
  read
    | .null => some none
    | j => (c.read j).map some
  read_write
    | none => rfl
    | some a => by
      have hne := h a
      have hread := c.read_write a
      cases hw : c.write a <;> simp_all

def optText : Codec (Option String) := text.nullable fun _ h => by cases h

/-- The texts of an object's members; a later member replaces an earlier one. -/
def textMembers : List (String × Json) → Option (List (Sigma fun _ : String => String))
  | [] => some []
  | (name, .str s) :: rest => do
    let entries ← textMembers rest
    return if name ∈ entries.keys then entries else ⟨name, s⟩ :: entries
  | _ :: _ => none

theorem textMembers_nodupKeys {members : List (String × Json)}
    {entries : List (Sigma fun _ : String => String)} (h : textMembers members = some entries) :
    entries.NodupKeys := by
  induction members generalizing entries with
  | nil =>
    simp only [textMembers, Option.some.injEq] at h
    simp [← h]
  | cons entry rest ih =>
    obtain ⟨name, j⟩ := entry
    cases j with
    | str s =>
      simp only [textMembers, Option.bind_eq_bind, Option.bind_eq_some_iff] at h
      obtain ⟨found, hfound, heq⟩ := h
      have hnodup := ih hfound
      split at heq
      · simp_all
      · rename_i hnew
        obtain rfl : ⟨name, s⟩ :: found = entries := by simpa using heq
        exact List.nodupKeys_cons.mpr ⟨hnew, hnodup⟩
    | _ => simp [textMembers] at h

theorem textMembers_write (entries : List (Sigma fun _ : String => String))
    (h : entries.NodupKeys) :
    textMembers (entries.map fun e => (e.1, Json.str e.2)) = some entries := by
  induction entries with
  | nil => rfl
  | cons entry rest ih =>
    obtain ⟨hnew, hrest⟩ := List.nodupKeys_cons.mp h
    simp [textMembers, ih hrest, hnew]

/-- A map from names to texts, as an object. -/
def stringMap : Codec StringMap where
  write m := .obj (m.entries.map fun e => (e.1, .str e.2))
  read
    | .obj members =>
      match h : textMembers members with
      | some entries => some ⟨entries, textMembers_nodupKeys h⟩
      | none => none
    | _ => none
  read_write m := by
    have h := textMembers_write m.entries m.nodupKeys
    simp only
    split
    · rename_i heq
      rw [h] at heq
      cases heq
      rfl
    · rename_i heq
      rw [h] at heq
      cases heq

/-! ## Records -/

/-- A required member. -/
def field (c : Codec α) (name : String) (members : List (String × Json)) : Option α :=
  match Json.memberValues name members with
  | [j] => c.read j
  | _ => none

/-- A member with a default for when it is missing. -/
def fieldOr (c : Codec α) (default : α) (name : String) (members : List (String × Json)) :
    Option α :=
  match Json.memberValues name members with
  | [] => some default
  | [j] => c.read j
  | _ => none

/-- A record read from the members of an object. -/
def record (members : α → List (String × Json)) (ofMembers : List (String × Json) → Option α)
    (h : ∀ a, ofMembers (members a) = some a) : Codec α where
  write a := .obj (members a)
  read
    | .obj ms => ofMembers ms
    | _ => none
  read_write := h

/-- One of finitely many names. -/
def name (label : α → String) (all : List α)
    (h : ∀ a, all.find? (fun b => label b = label a) = some a) : Codec α where
  write a := .str (label a)
  read
    | .str s => all.find? fun b => label b = s
    | _ => none
  read_write := h

@[simp]
theorem field_cons_self (name : String) (a : α) (members : List (String × Json))
    (h : Json.memberValues name members = []) :
    c.field name ((name, c.write a) :: members) = some a := by
  simp [field, h, c.read_write]

@[simp]
theorem field_cons_of_ne {name key : String} (j : Json) (members : List (String × Json))
    (h : key ≠ name) : c.field name ((key, j) :: members) = c.field name members := by
  simp [field, h]

@[simp]
theorem fieldOr_nil (default : α) (name : String) : c.fieldOr default name [] = some default := rfl

@[simp]
theorem fieldOr_cons_self (default : α) (name : String) (a : α) (members : List (String × Json))
    (h : Json.memberValues name members = []) :
    c.fieldOr default name ((name, c.write a) :: members) = some a := by
  simp [fieldOr, h, c.read_write]

@[simp]
theorem fieldOr_cons_of_ne (default : α) {name key : String} (j : Json)
    (members : List (String × Json)) (h : key ≠ name) :
    c.fieldOr default name ((key, j) :: members) = c.fieldOr default name members := by
  simp [fieldOr, h]

end Codec

end ApiVoy.Foundation
