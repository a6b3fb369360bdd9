/-
# MessagePack

The encoder of the workbench. A length is written in two bytes at most, and a number that is
not a small integer as a double.
-/

import ApiVoy.Foundation.Json
import ApiVoy.Foundation.Numerals

namespace ApiVoy.Workbench

open Foundation

namespace MessagePack

/-- A number in two bytes, the upper one first; what does not fit is lost. -/
def push16 (n : Nat) : Bytes := [UInt8.ofNat (n / 256), UInt8.ofNat n]

def encodeNumber (value : Rat) : Bytes :=
  if value.den = 1 ∧ 0 ≤ value.num ∧ value.num ≤ 0x7f then [UInt8.ofNat value.num.toNat]
  else if value.den = 1 ∧ -32 ≤ value.num ∧ value.num < 0 then
    [UInt8.ofNat (0x100 + value.num).toNat]
  else if value.den = 1 ∧ 0 ≤ value.num ∧ value.num ≤ 0xff then [0xcc, UInt8.ofNat value.num.toNat]
  else if value.den = 1 ∧ 0 ≤ value.num ∧ value.num ≤ 0xffff then 0xcd :: push16 value.num.toNat
  else if value.den = 1 ∧ -128 ≤ value.num ∧ value.num < 0 then
    [0xd0, UInt8.ofNat (0x100 + value.num).toNat]
  else 0xcb :: beBytes 8 (Double.bits value)

def encodeText (text : String) : Bytes :=
  let bytes := utf8 text
  (if bytes.length < 32 then [UInt8.ofNat (0xa0 + bytes.length)]
    else if bytes.length ≤ 0xff then [0xd9, UInt8.ofNat bytes.length]
    else 0xda :: push16 bytes.length) ++ bytes

/-- The head of an array or of an object. -/
def encodeLength (short long : UInt8) (length : Nat) : Bytes :=
  if length < 16 then [short + UInt8.ofNat length] else long :: push16 length

mutual

def encode : Json → Bytes
  | .null => [0xc0]
  | .bool value => [if value then 0xc3 else 0xc2]
  | .num value => encodeNumber value
  | .str text => encodeText text
  | .arr items => encodeLength 0x90 0xdc items.length ++ encodeItems items
  | .obj members => encodeLength 0x80 0xde members.length ++ encodeMembers members

def encodeItems : List Json → Bytes
  | [] => []
  | item :: items => encode item ++ encodeItems items

def encodeMembers : List (String × Json) → Bytes
  | [] => []
  | (name, value) :: members => encodeText name ++ (encode value ++ encodeMembers members)

end

end MessagePack

/-- A character of the base 64 alphabet. -/
def base64Char (n : Nat) : Char :=
  if n < 26 then Char.ofNat ('A'.toNat + n)
  else if n < 52 then Char.ofNat ('a'.toNat + (n - 26))
  else if n < 62 then Char.ofNat ('0'.toNat + (n - 52))
  else if n = 62 then '+' else '/'

/-- `btoa`: three bytes are four characters. -/
def bytesToBase64 : Bytes → List Char
  | [] => []
  | [a] => [base64Char (a.toNat / 4), base64Char (a.toNat % 4 * 16), '=', '=']
  | [a, b] =>
    [base64Char (a.toNat / 4), base64Char (a.toNat % 4 * 16 + b.toNat / 16),
      base64Char (b.toNat % 16 * 4), '=']
  | a :: b :: c :: bytes =>
    base64Char (a.toNat / 4) :: base64Char (a.toNat % 4 * 16 + b.toNat / 16) ::
      base64Char (b.toNat % 16 * 4 + c.toNat / 64) :: base64Char (c.toNat % 64) ::
        bytesToBase64 bytes

/-- The example of an object with one member. -/
example : MessagePack.encode (.obj [("ok", .bool true)]) = [0x81, 0xa2, 0x6f, 0x6b, 0xc3] := by
  decide +kernel

end ApiVoy.Workbench
