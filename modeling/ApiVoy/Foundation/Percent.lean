/-
# Percent encoding

Text as it stands in a component of a URL: a character that is not reserved as it is, and each
byte of another one as a percent sign and two hexadecimal digits.
-/

import ApiVoy.Foundation.JsonText
import ApiVoy.Foundation.Utf8

namespace ApiVoy.Foundation

namespace Percent

/-- A character `encodeURIComponent` leaves as it is. -/
def isUnescaped (c : Char) : Bool := c.isAlphanum || "-_.!~*'()".toList.contains c

def encodeByte (byte : UInt8) : List Char :=
  ['%', (JsonText.hexDigit (byte.toNat / 16)).toUpper, (JsonText.hexDigit (byte.toNat % 16)).toUpper]

def encodeChar (c : Char) : List Char :=
  if isUnescaped c then [c] else (encodeChars [c]).flatMap encodeByte

/-- `encodeURIComponent`. -/
def encodeURIComponent (text : String) : String := String.ofList (text.toList.flatMap encodeChar)

/-- The bytes of a text in which each escape stands for one byte. -/
def escapedBytes : List Char → Option Bytes
  | [] => some []
  | c :: rest =>
    if c = '%' then
      match rest with
      | high :: low :: rest =>
        (JsonText.hexValue high).bind fun high =>
          (JsonText.hexValue low).bind fun low =>
            (escapedBytes rest).map (UInt8.ofNat (high * 16 + low) :: ·)
      | _ => none
    else (escapedBytes rest).map (encodeChars [c] ++ ·)

/-- `decodeURIComponent`, which refuses malformed escapes. No escape stands for a part of a
character that is not escaped. -/
def decodeURIComponent (text : String) : Option String :=
  (escapedBytes text.toList).bind fromUtf8

end Percent

end ApiVoy.Foundation
