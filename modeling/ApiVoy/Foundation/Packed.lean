/-
# Packed values

The MessagePack format: the first byte of a value says what it is, and where its length or its
number is found. A reader is given by the first bytes that it supports and by what it makes of
the parts; the one that follows the specification supports all of them. What a reader makes of
some bytes does not depend on what follows them.
-/

import ApiVoy.Foundation.Fallible
import ApiVoy.Foundation.FloatingPoint

namespace ApiVoy.Foundation.Packed

/-! ## Formats -/

/-- A length is part of the first byte, or a number of some bytes behind it. -/
inductive Length where
  | short (n : Nat)
  | sized (width : Nat)
  deriving DecidableEq

inductive Format where
  | nil
  | bool (value : Bool)
  | small (value : Int)
  | uint (width : Nat)
  | int (width : Nat)
  | float (width exponentBits fractionBits : Nat)
  | text (length : Length)
  | bin (length : Length)
  | array (length : Length)
  | map (length : Length)
  | ext (length : Length)
  deriving DecidableEq

/-- The formats of the specification; the byte `0xc1` is never used. -/
def formatOf (byte : UInt8) : Option Format :=
  let n := byte.toNat
  if n ≤ 0x7f then some (.small n)
  else if n ≤ 0x8f then some (.map (.short (n - 0x80)))
  else if n ≤ 0x9f then some (.array (.short (n - 0x90)))
  else if n ≤ 0xbf then some (.text (.short (n - 0xa0)))
  else if 0xe0 ≤ n then some (.small (n - 0x100))
  else match n with
    | 0xc0 => some .nil
    | 0xc2 => some (.bool false)
    | 0xc3 => some (.bool true)
    | 0xc4 => some (.bin (.sized 1))
    | 0xc5 => some (.bin (.sized 2))
    | 0xc6 => some (.bin (.sized 4))
    | 0xc7 => some (.ext (.sized 1))
    | 0xc8 => some (.ext (.sized 2))
    | 0xc9 => some (.ext (.sized 4))
    | 0xca => some (.float 4 8 23)
    | 0xcb => some (.float 8 11 52)
    | 0xcc => some (.uint 1)
    | 0xcd => some (.uint 2)
    | 0xce => some (.uint 4)
    | 0xcf => some (.uint 8)
    | 0xd0 => some (.int 1)
    | 0xd1 => some (.int 2)
    | 0xd2 => some (.int 4)
    | 0xd3 => some (.int 8)
    | 0xd4 => some (.ext (.short 1))
    | 0xd5 => some (.ext (.short 2))
    | 0xd6 => some (.ext (.short 4))
    | 0xd7 => some (.ext (.short 8))
    | 0xd8 => some (.ext (.short 16))
    | 0xd9 => some (.text (.sized 1))
    | 0xda => some (.text (.sized 2))
    | 0xdb => some (.text (.sized 4))
    | 0xdc => some (.array (.sized 2))
    | 0xdd => some (.array (.sized 4))
    | 0xde => some (.map (.sized 2))
    | 0xdf => some (.map (.sized 4))
    | _ => none

/-! ## Parts -/

inductive ReadError where
  | incomplete
  | unsupported (marker : UInt8)
  | malformed
  deriving DecidableEq

/-- The next bytes, and those behind them. -/
def take (n : Nat) (bytes : Bytes) : Except ReadError (Bytes × Bytes) :=
  if bytes.length < n then .error .incomplete else .ok (bytes.take n, bytes.drop n)

def readLength : Length → Bytes → Except ReadError (Nat × Bytes)
  | .short n, bytes => .ok (n, bytes)
  | .sized width, bytes => do
    let (field, rest) ← take width bytes
    return (readBE field, rest)

/-- The bytes behind their length. -/
def takeLong (length : Length) (bytes : Bytes) : Except ReadError (Bytes × Bytes) := do
  let (n, rest) ← readLength length bytes
  take n rest

/-- A number whose highest bit is its sign. -/
def signed (width n : Nat) : Int := if n < 2 ^ (8 * width - 1) then n else n - 2 ^ (8 * width)

section Many

variable {α : Type} (read : Bytes → Except ReadError (α × Bytes))

def readMany : Nat → Bytes → Except ReadError (List α × Bytes)
  | 0, bytes => .ok ([], bytes)
  | n + 1, bytes => do
    let (item, rest) ← read bytes
    let (items, rest) ← readMany n rest
    return (item :: items, rest)

def readPair (bytes : Bytes) : Except ReadError ((α × α) × Bytes) := do
  let (key, rest) ← read bytes
  let (value, rest) ← read rest
  return ((key, value), rest)

end Many

/-! ## Readers -/

/-- The first bytes that a reader supports, and what it makes of the parts. -/
structure Reader (V : Type) where
  formatOf : UInt8 → Option Format
  nil : V
  bool : Bool → V
  number : Double → V
  decodeText : Bytes → Option String
  text : String → V
  bin : Bytes → V
  array : List V → V
  map : List (V × V) → V
  ext : Bytes → V

namespace Reader

variable {V : Type} (R : Reader V)

def readText (length : Length) (bytes : Bytes) : Except ReadError (V × Bytes) := do
  let (field, rest) ← takeLong length bytes
  match R.decodeText field with
  | some text => return (R.text text, rest)
  | none => .error .malformed

/-- Read the value behind a first byte, with a way to read the values in it. -/
def readFormat (read : Bytes → Except ReadError (V × Bytes)) (bytes : Bytes) :
    Format → Except ReadError (V × Bytes)
  | .nil => .ok (R.nil, bytes)
  | .bool value => .ok (R.bool value, bytes)
  | .small value => .ok (R.number (.finite value), bytes)
  | .uint width => do
    let (field, rest) ← take width bytes
    return (R.number (.finite (readBE field : Nat)), rest)
  | .int width => do
    let (field, rest) ← take width bytes
    return (R.number (.finite (signed width (readBE field))), rest)
  | .float width exponentBits fractionBits => do
    let (field, rest) ← take width bytes
    return (R.number (Double.ofPattern ⟨exponentBits, fractionBits⟩ (readBE field)), rest)
  | .text length => R.readText length bytes
  | .bin length => do
    let (field, rest) ← takeLong length bytes
    return (R.bin field, rest)
  | .array length => do
    let (n, rest) ← readLength length bytes
    let (items, rest) ← readMany read n rest
    return (R.array items, rest)
  | .map length => do
    let (n, rest) ← readLength length bytes
    let (pairs, rest) ← readMany (readPair read) n rest
    return (R.map pairs, rest)
  | .ext length => do
    let (n, rest) ← readLength length bytes
    let (field, rest) ← take (n + 1) rest
    return (R.ext field, rest)

/-- Read one value. Every value in another one is behind a first byte of its own, so that as many
rounds are enough as there are bytes. -/
def read : Nat → Bytes → Except ReadError (V × Bytes)
  | 0, _ | _, [] => .error .incomplete
  | rounds + 1, byte :: rest =>
    match R.formatOf byte with
    | none => .error (.unsupported byte)
    | some format => R.readFormat (read rounds) rest format

end Reader

/-! ## Rules -/

theorem take_append (bytes rest : Bytes) : take bytes.length (bytes ++ rest) = .ok (bytes, rest) := by
  rw [take, if_neg (by rw [List.length_append]; omega), List.take_left, List.drop_left]

theorem take_eq_ok {n : Nat} {bytes field rest : Bytes} (h : take n bytes = .ok (field, rest)) :
    field.length = n ∧ bytes = field ++ rest := by
  unfold take at h
  split at h
  · cases h
  · rename_i hlong
    cases h
    exact ⟨List.length_take_of_le (not_lt.mp hlong), (List.take_append_drop n bytes).symm⟩

/-- The length of some bytes is read from in front of them. -/
theorem readLength_beBytes {width n : Nat} (h : n < 256 ^ width) (rest : Bytes) :
    readLength (.sized width) (beBytes width n ++ rest) = .ok (n, rest) := by
  have htake := take_append (beBytes width n) rest
  rw [length_beBytes] at htake
  rw [readLength, htake]
  exact congrArg (fun n => Except.ok (n, rest)) (readBE_beBytes h)

section Many

variable {α : Type} {read : Bytes → Except ReadError (α × Bytes)}

theorem readMany_length {n : Nat} {bytes rest : Bytes} {items : List α}
    (h : readMany read n bytes = .ok (items, rest)) : items.length = n := by
  induction n generalizing bytes items with
  | zero =>
    cases h
    rfl
  | succ n ih =>
    obtain ⟨⟨item, behind⟩, _, h⟩ := bind_eq_ok_iff.mp h
    obtain ⟨⟨others, after⟩, hothers, h⟩ := bind_eq_ok_iff.mp h
    cases h
    rw [List.length_cons, ih hothers]

/-- These bytes are read as this value, whatever follows them. -/
def ReadsAs (read : Bytes → Except ReadError (α × Bytes)) (bytes : Bytes) (a : α) : Prop :=
  ∀ rest, read (bytes ++ rest) = .ok (a, rest)

theorem readsAs_many_nil : ReadsAs (readMany read 0) [] [] := fun _ => rfl

theorem readsAs_many_cons {n : Nat} {first others : Bytes} {a : α} {items : List α}
    (hfirst : ReadsAs read first a) (hothers : ReadsAs (readMany read n) others items) :
    ReadsAs (readMany read (n + 1)) (first ++ others) (a :: items) := by
  intro rest
  rw [List.append_assoc, readMany, hfirst]
  change (readMany read n (others ++ rest) >>= _) = _
  rw [hothers]
  rfl

theorem readsAs_pair {first second : Bytes} {a b : α} (hfirst : ReadsAs read first a)
    (hsecond : ReadsAs read second b) : ReadsAs (readPair read) (first ++ second) (a, b) := by
  intro rest
  rw [List.append_assoc, readPair, hfirst]
  change (read (second ++ rest) >>= _) = _
  rw [hsecond]
  rfl

end Many

namespace Reader

variable {V : Type} {R : Reader V}

variable {format : Format}

/-- What is read behind a first byte is read with it. -/
theorem readsAs_byte {rounds : Nat} {byte : UInt8} {bytes : Bytes} {a : V}
    (hformat : R.formatOf byte = some format)
    (h : ∀ rest, R.readFormat (R.read rounds) (bytes ++ rest) format = .ok (a, rest)) :
    ReadsAs (R.read (rounds + 1)) (byte :: bytes) a := by
  intro rest
  rw [List.cons_append, read, hformat]
  exact h rest

/-- What is read of bytes is read behind the format of the first one. -/
theorem read_cons {rounds : Nat} {byte : UInt8} (bytes : Bytes)
    (hformat : R.formatOf byte = some format) :
    R.read (rounds + 1) (byte :: bytes) = R.readFormat (R.read rounds) bytes format := by
  rw [read, hformat]

end Reader

/-! ## The specification -/

/-- A value as the specification has it; whole numbers and floating point numbers of the same value
are not told apart. -/
inductive Item where
  | nil
  | bool (value : Bool)
  | number (value : Double)
  | text (value : String)
  | bin (bytes : Bytes)
  | array (items : List Item)
  | map (pairs : List (Item × Item))
  | ext (bytes : Bytes)

/-- The reader that follows the specification. -/
def specification : Reader Item where
  formatOf := formatOf
  nil := .nil
  bool := .bool
  number := .number
  decodeText := fromUtf8
  text := .text
  bin := .bin
  array := .array
  map := .map
  ext := .ext

/-- Read exactly one value. -/
def decode (bytes : Bytes) : Option Item :=
  match specification.read bytes.length bytes with
  | .ok (item, []) => some item
  | _ => none

end ApiVoy.Foundation.Packed
