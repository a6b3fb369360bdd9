/-
# Form encoding

The entries of a query as one text: an ampersand stands between two entries, an equals sign
behind a name and a plus sign for a space, and each byte that is not plain is escaped. A text
that was not written so is read too: an escape that is none stands for itself.
-/

import ApiVoy.Foundation.Percent

namespace ApiVoy.Foundation

namespace FormEncoding

def isPlain (c : Char) : Bool := c.isAlphanum || "*-._".toList.contains c

/-- A character of an escaped text. -/
def isWritten (c : Char) : Bool := isPlain c || c == '+' || c == '%'

def escapeChar (c : Char) : List Char :=
  if c = ' ' then ['+']
  else if isPlain c then [c]
  else (encodeChars [c]).flatMap Percent.encodeByte

def escape (text : String) : List Char := text.toList.flatMap escapeChar

def entryText (entry : String × String) : List Char := escape entry.1 ++ '=' :: escape entry.2

def serialize (entries : List (String × String)) : List Char :=
  ['&'].intercalate (entries.map entryText)

def unescape : List Char → Bytes
  | [] => []
  | '+' :: rest => 0x20 :: unescape rest
  | '%' :: high :: low :: rest =>
    match JsonText.hexValue high, JsonText.hexValue low with
    | some h, some l => UInt8.ofNat (h * 16 + l) :: unescape rest
    | _, _ => 0x25 :: unescape (high :: low :: rest)
  | c :: rest => encodeChars [c] ++ unescape rest

def decode (text : List Char) : String := fromUtf8Lossy (unescape text)

def readEntry (piece : List Char) : String × String :=
  (decode (piece.takeWhile (· ≠ '=')), decode (piece.dropWhile (· ≠ '=')).tail)

/-- The entries of a text that does not begin with a question mark. -/
def parse (text : List Char) : List (String × String) :=
  ((text.splitOn '&').filter (· ≠ [])).map readEntry

/-! ## Reading back -/

theorem hexValue_toUpper :
    ∀ n < 16, JsonText.hexValue (JsonText.hexDigit n).toUpper = some n := by decide

theorem isWritten_hexDigit : ∀ n < 16, isWritten (JsonText.hexDigit n).toUpper = true := by decide

/-- The escape of a byte is read as the byte. -/
theorem unescape_encodeByte (byte : UInt8) (rest : List Char) :
    unescape (Percent.encodeByte byte ++ rest) = byte :: unescape rest := by
  have hhigh := hexValue_toUpper (byte.toNat / 16) (by have := byte.toNat_lt; omega)
  have hlow := hexValue_toUpper (byte.toNat % 16) (by omega)
  have hbyte : UInt8.ofNat (byte.toNat / 16 * 16 + byte.toNat % 16) = byte := by
    rw [Nat.div_add_mod', UInt8.ofNat_toNat]
  simp only [Percent.encodeByte, List.cons_append, List.nil_append, unescape, hhigh, hlow, hbyte]

theorem unescape_escapeChar (c : Char) (rest : List Char) :
    unescape (escapeChar c ++ rest) = encodeChars [c] ++ unescape rest := by
  unfold escapeChar
  split_ifs with hspace hplain
  · rw [hspace]
    rfl
  · have hplus : c ≠ '+' := fun h => absurd (h ▸ hplain) (by decide)
    have hpercent : c ≠ '%' := fun h => absurd (h ▸ hplain) (by decide)
    rw [List.singleton_append, unescape.eq_4 c rest hplus fun _ _ _ h => absurd h hpercent]
  · induction encodeChars [c] with
    | nil => rfl
    | cons byte bytes ih =>
      rw [List.flatMap_cons, List.append_assoc, unescape_encodeByte, ih, List.cons_append]

theorem decode_escape (text : String) : decode (escape text) = text := by
  have hbytes : ∀ cs : List Char, unescape (cs.flatMap escapeChar) = encodeChars cs := by
    intro cs
    induction cs with
    | nil => rfl
    | cons c cs ih =>
      rw [List.flatMap_cons, unescape_escapeChar, ih]
      exact (encodeChars_append [c] cs).symm
  rw [decode, escape, hbytes]
  exact fromUtf8Lossy_utf8 text

theorem isWritten_of_mem_escape {text : String} {c : Char} (h : c ∈ escape text) :
    isWritten c = true := by
  obtain ⟨d, -, hc⟩ := List.mem_flatMap.mp h
  unfold escapeChar at hc
  split_ifs at hc with hspace hplain
  · rw [List.mem_singleton.mp hc]
    rfl
  · rw [List.mem_singleton.mp hc, isWritten, hplain]
    rfl
  · obtain ⟨byte, -, hbyte⟩ := List.mem_flatMap.mp hc
    simp only [Percent.encodeByte, List.mem_cons, List.not_mem_nil, or_false] at hbyte
    obtain rfl | rfl | rfl := hbyte
    · rfl
    · exact isWritten_hexDigit _ (by have := byte.toNat_lt; omega)
    · exact isWritten_hexDigit _ (by omega)

theorem mem_entryText {entry : String × String} {c : Char} (h : c ∈ entryText entry) :
    isWritten c = true ∨ c = '=' := by
  obtain hname | hvalue := List.mem_append.mp h
  · exact .inl (isWritten_of_mem_escape hname)
  · obtain rfl | hvalue := List.mem_cons.mp hvalue
    · exact .inr rfl
    · exact .inl (isWritten_of_mem_escape hvalue)

theorem mem_serialize {entries : List (String × String)} {c : Char} (h : c ∈ serialize entries) :
    isWritten c = true ∨ c = '=' ∨ c = '&' := by
  induction entries with
  | nil => cases h
  | cons entry entries ih =>
    cases entries with
    | nil => exact (mem_entryText (by simpa [serialize] using h)).imp_right .inl
    | cons next entries =>
      rw [serialize, List.map_cons, List.map_cons, List.intercalate_cons_cons, List.append_assoc]
        at h
      obtain hfirst | hrest := List.mem_append.mp h
      · exact (mem_entryText hfirst).imp_right .inl
      · obtain rfl | hrest := List.mem_cons.mp hrest
        · exact .inr (.inr rfl)
        · exact ih hrest

theorem readEntry_entryText (entry : String × String) : readEntry (entryText entry) = entry := by
  have hname : ∀ c ∈ escape entry.1, decide (c ≠ '=') = true := fun c hc =>
    decide_eq_true fun h => absurd (h ▸ isWritten_of_mem_escape hc) (by decide)
  rw [readEntry, entryText, List.takeWhile_append_of_pos hname, List.dropWhile_append_of_pos hname,
    List.takeWhile_cons_of_neg (by simp), List.dropWhile_cons_of_neg (by simp), List.append_nil,
    List.tail_cons, decode_escape, decode_escape]

/-- **Round trip.** What was written is read back entry by entry. -/
theorem parse_serialize (entries : List (String × String)) :
    parse (serialize entries) = entries := by
  obtain rfl | hne := eq_or_ne entries []
  · rfl
  · have hpieces : ∀ piece ∈ entries.map entryText, '&' ∉ piece := by
      intro piece hpiece hmem
      obtain ⟨entry, -, rfl⟩ := List.mem_map.mp hpiece
      exact absurd (mem_entryText hmem) (by decide)
    have hfull : ∀ piece ∈ entries.map entryText, decide (piece ≠ []) = true := by
      intro piece hpiece
      obtain ⟨entry, -, rfl⟩ := List.mem_map.mp hpiece
      exact decide_eq_true (List.append_ne_nil_of_right_ne_nil _ (List.cons_ne_nil _ _))
    rw [parse, serialize, List.splitOn_intercalate _ hpieces (mt List.map_eq_nil_iff.mp hne),
      List.filter_eq_self.mpr hfull, List.map_map]
    exact List.map_id'' readEntry_entryText entries

end FormEncoding

end ApiVoy.Foundation
