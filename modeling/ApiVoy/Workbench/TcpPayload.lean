/-
# Payloads in hexadecimal digits

The workbench and the driver both read a payload from hexadecimal digits. The driver cuts the
digits by bytes and leaves them to a parser of numbers, so that it panics within a character and
takes a sign for a digit; it knows neither the prefix nor all of the white space that the
workbench skips.
-/

import ApiVoy.Drivers.Tcp
import ApiVoy.Foundation.Script

namespace ApiVoy.Workbench

open Foundation Domain Drivers.Tcp

/-! ## Digits -/

def isHexDigit (c : Char) : Bool := (hexDigit c).isSome

/-- The bytes that pairs of digits denote. -/
def digitBytes : List Char → Option Bytes
  | [] => some []
  | [_] => none
  | a :: b :: rest =>
    (hexDigit a).bind fun high =>
      (hexDigit b).bind fun low =>
        (digitBytes rest).map (UInt8.ofNat (16 * high + low) :: ·)

/-- Digits denote bytes when their number is even. -/
theorem digitBytes_isSome_iff (text : List Char) :
    (digitBytes text).isSome ↔ text.length % 2 = 0 ∧ ∀ c ∈ text, isHexDigit c = true := by
  induction text using digitBytes.induct with
  | case1 => simp [digitBytes]
  | case2 c => simp [digitBytes]
  | case3 a b rest ih =>
    have hlength : (a :: b :: rest).length % 2 = rest.length % 2 := by
      rw [List.length_cons, List.length_cons]
      omega
    rw [hlength, List.forall_mem_cons, List.forall_mem_cons, and_left_comm,
      and_left_comm (b := isHexDigit b = true), ← ih, digitBytes, isHexDigit, isHexDigit]
    cases hexDigit a <;> cases hexDigit b <;> simp

/-! ## The workbench -/

/-- The prefix of hexadecimal numbers is left out. -/
def withoutPrefix : List Char → List Char
  | '0' :: c :: rest => if c = 'x' ∨ c = 'X' then rest else '0' :: c :: rest
  | text => text

def hasPrefix (text : List Char) : Bool := withoutPrefix text ≠ text

/-- Without white space. -/
def compactText (data : String) : List Char := data.toList.filter fun c => !Script.isSpace c

def IsHex (text : List Char) : Prop :=
  text ≠ [] ∧ text.length % 2 = 0 ∧ ∀ c ∈ text, isHexDigit c = true

instance (text : List Char) : Decidable (IsHex text) := inferInstanceAs (Decidable (_ ∧ _ ∧ _))

def hexToBytes (value : String) : Except String Bytes :=
  let compact := withoutPrefix (compactText value)
  if IsHex compact then .ok ((digitBytes compact).getD [])
  else .error "Hex 内容必须由偶数个十六进制字符组成"

/-! ## The driver -/

/-- What is left of a payload for the driver. -/
def driverText (data : String) : List Char := data.toList.filter fun c => !isWhitespace c

/-- Pairs the parser of numbers takes, of which the first character may be a sign. -/
def readablePairs : List Char → Bool
  | [] => true
  | [_] => false
  | a :: b :: rest => (hexByte a b).isSome && readablePairs rest

/-- Are the first two bytes of a text not the ones of whole characters? -/
def cutsFirst : List Char → Bool
  | [] => false
  | [c] => decide (c.utf8Size ≠ 2)
  | c :: d :: _ => decide ((c.utf8Size = 1 ∧ d.utf8Size ≠ 1) ∨ 2 < c.utf8Size)

/-- Is a character cut behind pairs that can be read? -/
def CutsCharacter (text : List Char) : Prop :=
  (encodeChars text).length % 2 = 0 ∧
    ∃ front rest, text = front ++ rest ∧ readablePairs front = true ∧ cutsFirst rest = true

/-- The driver reads a payload as it is meant: it does not panic, it takes exactly the digits, and
it takes what the workbench takes. -/
structure ParsesHex (data : String) : Prop where
  total : decodeData data "hex" ≠ none
  exact : ∀ bytes, decodeData data "hex" = some (.ok bytes) ↔
    digitBytes (driverText data) = some bytes
  agrees : ∀ bytes, hexToBytes data = .ok bytes → decodeData data "hex" = some (.ok bytes)

theorem decodeData_hex (data : String) :
    decodeData data "hex" =
      if (encodeChars (driverText data)).length % 2 ≠ 0 then
        some (.error (.validation "hex data must contain an even number of digits"))
      else hexBytes 0 (driverText data) := rfl

/-! ## Pairs of characters -/

variable {c : Char}

theorem utf8Size_of_hexDigit (h : (hexDigit c).isSome) : c.utf8Size = 1 := by
  have hle : ∀ {last : Char}, last ≤ 'f' → c ≤ last → c.utf8Size = 1 := fun hlast hc =>
    Char.utf8Size_eq_one_iff.mpr (UInt32.le_trans (Char.le_trans hc hlast) (by decide))
  unfold hexDigit at h
  split at h
  · rename_i hc
    exact hle (by decide) hc.2
  · split at h
    · rename_i hc
      exact hle (by decide) hc.2
    · split at h
      · rename_i hc
        exact hle (by decide) hc.2
      · cases h

variable {a b : Char}

/-- A pair the parser takes has two ASCII characters: a sign or a digit, and a digit. -/
theorem of_hexByte (h : (hexByte a b).isSome) :
    (a = '+' ∨ (hexDigit a).isSome) ∧ (hexDigit b).isSome := by
  unfold hexByte at h
  split at h
  · rename_i hplus
    rw [Option.isSome_map] at h
    exact ⟨Or.inl hplus, h⟩
  · cases ha : hexDigit a with
    | none => rw [ha] at h; cases h
    | some high =>
      cases hb : hexDigit b with
      | none => rw [ha, hb] at h; cases h
      | some low => exact ⟨Or.inr rfl, rfl⟩

theorem utf8Size_of_hexByte (h : (hexByte a b).isSome) : a.utf8Size = 1 ∧ b.utf8Size = 1 := by
  obtain ⟨ha, hb⟩ := of_hexByte h
  refine ⟨?_, utf8Size_of_hexDigit hb⟩
  rcases ha with rfl | ha
  · decide
  · exact utf8Size_of_hexDigit ha

theorem hexByte_of_digits {high low : Nat} (ha : hexDigit a = some high)
    (hb : hexDigit b = some low) : hexByte a b = some (UInt8.ofNat (16 * high + low)) := by
  have hplus : a ≠ '+' := by
    rintro rfl
    cases ha
  rw [hexByte, if_neg hplus, ha, hb]

theorem hexBytes_pair {a b : Char} {byte : UInt8} (h : hexByte a b = some byte) (index : Nat)
    (rest : List Char) :
    hexBytes index (a :: b :: rest) =
      (hexBytes (index + 2) rest).map fun bytes => bytes.map (byte :: ·) := by
  rw [hexBytes, if_pos (utf8Size_of_hexByte (h ▸ rfl)), h]

/-! ## What the driver reads -/

/-- The driver panics exactly where a character is cut behind pairs it can read. -/
theorem hexBytes_eq_none_iff (index : Nat) (text : List Char) :
    hexBytes index text = none ↔
      ∃ front rest, text = front ++ rest ∧ readablePairs front = true ∧ cutsFirst rest = true := by
  induction text using digitBytes.induct generalizing index with
  | case1 =>
    refine ⟨fun h => (by cases h), ?_⟩
    rintro ⟨front, rest, happend, _, hcuts⟩
    rw [(List.append_eq_nil_iff.mp happend.symm).2] at hcuts
    cases hcuts
  | case2 c =>
    have hlast : hexBytes index [c] = none ↔ c.utf8Size ≠ 2 := by
      rw [hexBytes]
      split <;> simp_all
    rw [hlast]
    constructor
    · intro hsize
      exact ⟨[], [c], rfl, rfl, decide_eq_true hsize⟩
    · rintro ⟨front, rest, happend, hread, hcuts⟩
      cases front with
      | nil =>
        rw [List.nil_append] at happend
        rw [← happend] at hcuts
        exact of_decide_eq_true hcuts
      | cons d front =>
        have hnil := (List.cons.inj happend).2
        rw [(List.append_eq_nil_iff.mp hnil.symm).1] at hread
        cases hread
  | case3 a b rest ih =>
    -- pairs in front begin with this pair, or there are none
    have hsplit : (∃ front tail, a :: b :: rest = front ++ tail ∧ readablePairs front = true ∧
        cutsFirst tail = true) ↔ cutsFirst (a :: b :: rest) = true ∨ ((hexByte a b).isSome ∧
          ∃ front tail, rest = front ++ tail ∧ readablePairs front = true ∧
            cutsFirst tail = true) := by
      constructor
      · rintro ⟨front, tail, happend, hread, hcuts⟩
        match front, happend, hread with
        | [], happend, _ => exact Or.inl (by rw [happend]; exact hcuts)
        | [_], _, hread => cases hread
        | c :: d :: front, happend, hread =>
          simp only [List.cons_append, List.cons.injEq] at happend
          rw [readablePairs, Bool.and_eq_true, ← happend.1, ← happend.2.1] at hread
          exact Or.inr ⟨hread.1, front, tail, happend.2.2, hread.2, hcuts⟩
      · rintro (hcuts | ⟨hpair, front, tail, rfl, hread, hcuts⟩)
        · exact ⟨[], _, rfl, rfl, hcuts⟩
        · exact ⟨a :: b :: front, tail, rfl, by rw [readablePairs, hpair, hread]; rfl, hcuts⟩
    rw [hsplit]
    cases hpair : hexByte a b with
    | some byte =>
      obtain ⟨ha, hb⟩ := utf8Size_of_hexByte (hpair ▸ rfl : (hexByte a b).isSome)
      have hcuts : cutsFirst (a :: b :: rest) = false := by simp [cutsFirst, ha, hb]
      rw [hexBytes_pair hpair, Option.map_eq_none_iff, ih, hcuts]
      simp
    | none =>
      rw [hexBytes, hpair]
      have hpos := a.utf8Size_pos
      simp only [cutsFirst, decide_eq_true_eq, Option.isSome_none, Bool.false_eq_true,
        false_and, or_false]
      split
      · rename_i hsizes
        simp only [reduceCtorEq, false_iff]
        omega
      · split
        · simp only [reduceCtorEq, false_iff]
          omega
        · simp only [true_iff]
          omega

variable {text : List Char} {bytes : Bytes}

theorem readablePairs_of_ok {index : Nat} (h : hexBytes index text = some (.ok bytes)) :
    readablePairs text = true := by
  induction text using digitBytes.induct generalizing index bytes with
  | case1 => rfl
  | case2 c =>
    rw [hexBytes] at h
    split at h <;> cases h
  | case3 a b rest ih =>
    cases hpair : hexByte a b with
    | none =>
      rw [hexBytes, hpair] at h
      split at h
      · cases h
      · split at h <;> cases h
    | some byte =>
      rw [hexBytes_pair hpair] at h
      obtain ⟨result, hresult, hmap⟩ := Option.map_eq_some_iff.mp h
      cases result with
      | error error => cases hmap
      | ok bytes => rw [readablePairs, hpair, ih hresult]; rfl

theorem ok_of_readablePairs (h : readablePairs text = true) (index : Nat) :
    ∃ bytes, hexBytes index text = some (.ok bytes) := by
  induction text using digitBytes.induct generalizing index with
  | case1 => exact ⟨[], rfl⟩
  | case2 c => cases h
  | case3 a b rest ih =>
    rw [readablePairs, Bool.and_eq_true] at h
    obtain ⟨byte, hpair⟩ := Option.isSome_iff_exists.mp h.1
    obtain ⟨bytes, hrest⟩ := ih h.2 (index + 2)
    exact ⟨byte :: bytes, by rw [hexBytes_pair hpair, hrest]; rfl⟩

/-- Digits are read as the bytes they denote. -/
theorem ok_of_digitBytes (h : digitBytes text = some bytes) (index : Nat) :
    hexBytes index text = some (.ok bytes) := by
  induction text using digitBytes.induct generalizing index bytes with
  | case1 =>
    cases h
    rfl
  | case2 c => cases h
  | case3 a b rest ih =>
    rw [digitBytes] at h
    obtain ⟨high, ha, h⟩ := Option.bind_eq_some_iff.mp h
    obtain ⟨low, hb, h⟩ := Option.bind_eq_some_iff.mp h
    obtain ⟨more, hmore, rfl⟩ := Option.map_eq_some_iff.mp h
    rw [hexBytes_pair (hexByte_of_digits ha hb), ih hmore]
    rfl

/-- Pairs the parser takes are digits unless there is a sign among them. -/
theorem digits_of_readablePairs (h : readablePairs text = true) (hplus : '+' ∉ text) :
    (digitBytes text).isSome := by
  induction text using digitBytes.induct with
  | case1 => rfl
  | case2 c => cases h
  | case3 a b rest ih =>
    rw [readablePairs, Bool.and_eq_true] at h
    rw [List.mem_cons, List.mem_cons, not_or, not_or] at hplus
    obtain ⟨hfirst, hb⟩ := of_hexByte h.1
    have ha := hfirst.resolve_left (Ne.symm hplus.1)
    obtain ⟨high, ha⟩ := Option.isSome_iff_exists.mp ha
    obtain ⟨low, hb⟩ := Option.isSome_iff_exists.mp hb
    rw [digitBytes, ha, hb]
    simpa using ih h.2 hplus.2.2

/-- What the parser takes is ASCII, two characters for each pair. -/
theorem length_of_readablePairs (h : readablePairs text = true) :
    (encodeChars text).length % 2 = 0 := by
  have hone : ∀ {c : Char}, c.utf8Size = 1 → (encodeChar c).length = 1 := by
    intro c hc
    have hlt : c.toNat < 0x80 :=
      lt_of_le_of_lt (UInt32.le_iff_toNat_le.mp (Char.utf8Size_eq_one_iff.mp hc)) (by decide)
    rw [encodeChar, encodeScalar, if_pos hlt]
    rfl
  induction text using digitBytes.induct with
  | case1 => rfl
  | case2 c => cases h
  | case3 a b rest ih =>
    rw [readablePairs, Bool.and_eq_true] at h
    obtain ⟨ha, hb⟩ := utf8Size_of_hexByte h.1
    rw [encodeChars_cons, encodeChars_cons, List.length_append, List.length_append, hone ha,
      hone hb]
    have hrest := ih h.2
    omega

theorem mem_of_readablePairs (h : readablePairs text = true) (hc : c ∈ text) :
    c = '+' ∨ (hexDigit c).isSome := by
  induction text using digitBytes.induct with
  | case1 => cases hc
  | case2 c => cases h
  | case3 a b rest ih =>
    rw [readablePairs, Bool.and_eq_true] at h
    obtain ⟨ha, hb⟩ := of_hexByte h.1
    rcases List.mem_cons.mp hc with rfl | hc
    · exact ha
    · rcases List.mem_cons.mp hc with rfl | hc
      · exact Or.inr hb
      · exact ih h.2 hc

variable {data : String}

theorem decodeData_of_readablePairs (h : readablePairs (driverText data) = true) :
    ∃ bytes, decodeData data "hex" = some (.ok bytes) := by
  obtain ⟨bytes, hbytes⟩ := ok_of_readablePairs h 0
  refine ⟨bytes, ?_⟩
  rw [decodeData_hex, if_neg (not_not.mpr (length_of_readablePairs h)), hbytes]

theorem readablePairs_of_decodeData (h : decodeData data "hex" = some (.ok bytes)) :
    readablePairs (driverText data) = true := by
  rw [decodeData_hex] at h
  split at h
  · cases h
  · exact readablePairs_of_ok h

theorem decodeData_eq_none_iff (data : String) :
    decodeData data "hex" = none ↔ CutsCharacter (driverText data) := by
  rw [decodeData_hex, CutsCharacter]
  split
  · rename_i hodd
    exact iff_of_false (fun h => by cases h) fun h => hodd h.1
  · rename_i heven
    rw [hexBytes_eq_none_iff]
    exact (and_iff_right (not_not.mp heven)).symm

theorem decodeData_of_digitBytes (h : digitBytes (driverText data) = some bytes) :
    decodeData data "hex" = some (.ok bytes) := by
  have hread := ok_of_digitBytes h 0
  rw [decodeData_hex, if_neg (not_not.mpr (length_of_readablePairs (readablePairs_of_ok hread))),
    hread]

/-- The driver takes exactly the digits unless it takes signs for digits. -/
theorem exact_iff (data : String) :
    (∀ bytes, decodeData data "hex" = some (.ok bytes) ↔
      digitBytes (driverText data) = some bytes) ↔
      ¬(readablePairs (driverText data) = true ∧ '+' ∈ driverText data) := by
  constructor
  · rintro h ⟨hread, hplus⟩
    obtain ⟨bytes, hbytes⟩ := decodeData_of_readablePairs hread
    have hdigits := (digitBytes_isSome_iff (driverText data)).mp ((h bytes).mp hbytes ▸ rfl)
    exact absurd (hdigits.2 '+' hplus) (by decide)
  · intro h bytes
    refine ⟨fun hok => ?_, decodeData_of_digitBytes⟩
    have hread := readablePairs_of_decodeData hok
    obtain ⟨other, hother⟩ := Option.isSome_iff_exists.mp
      (digits_of_readablePairs hread fun hplus => h ⟨hread, hplus⟩)
    have hsame := (decodeData_of_digitBytes hother).symm.trans hok
    rw [hother, Except.ok.inj (Option.some.inj hsame)]

/-! ## Both -/

/-- The byte order mark, white space for the workbench only. -/
def byteOrderMark : Char := Char.ofNat 0xFEFF

/-- The other difference in what is white space. -/
def nextLine : Char := Char.ofNat 0x85

theorem isWhitespace_eq (hmark : c ≠ byteOrderMark) (hline : c ≠ nextLine) :
    isWhitespace c = Script.isSpace c := by
  have hmark : c.toNat ≠ 0xFEFF := fun heq => hmark (by rw [← Char.ofNat_toNat c, heq]; rfl)
  have hline : c.toNat ≠ 0x85 := fun heq => hline (by rw [← Char.ofNat_toNat c, heq]; rfl)
  simp [isWhitespace, Script.isSpace, hmark, hline]

theorem driverText_eq (hmark : byteOrderMark ∉ data.toList) (hline : nextLine ∉ data.toList) :
    driverText data = compactText data := by
  refine List.filter_congr fun c hc => ?_
  rw [isWhitespace_eq (fun heq => hmark (heq ▸ hc)) fun heq => hline (heq ▸ hc)]

theorem hexToBytes_eq_ok_iff (data : String) (bytes : Bytes) :
    hexToBytes data = .ok bytes ↔
      IsHex (withoutPrefix (compactText data)) ∧
        digitBytes (withoutPrefix (compactText data)) = some bytes := by
  unfold hexToBytes
  dsimp only
  split
  · rename_i hhex
    obtain ⟨other, hother⟩ := Option.isSome_iff_exists.mp
      ((digitBytes_isSome_iff (withoutPrefix (compactText data))).mpr hhex.2)
    rw [hother, Option.getD_some, Except.ok.injEq, Option.some.injEq, and_iff_right hhex]
  · rename_i hhex
    exact iff_of_false (fun h => by cases h) fun h => hhex h.1

theorem withoutPrefix_cases (text : List Char) :
    withoutPrefix text = text ∨ ∃ c rest, (c = 'x' ∨ c = 'X') ∧ text = '0' :: c :: rest ∧
      withoutPrefix text = rest := by
  unfold withoutPrefix
  split
  · split
    · rename_i c rest hc
      exact Or.inr ⟨c, rest, hc, rfl, rfl⟩
    · exact Or.inl rfl
  · exact Or.inl rfl

/-- A text the workbench takes has no other white space of the driver. -/
theorem nextLine_not_mem (h : IsHex (withoutPrefix (compactText data))) :
    nextLine ∉ data.toList := by
  intro hmem
  have hcompact : nextLine ∈ compactText data := List.mem_filter.mpr ⟨hmem, by decide⟩
  rcases withoutPrefix_cases (compactText data) with hsame | ⟨c, rest, hc, htext, hrest⟩
  · rw [hsame] at h
    exact absurd (h.2.2 nextLine hcompact) (by decide)
  · rw [hrest] at h
    rw [htext, List.mem_cons, List.mem_cons] at hcompact
    rcases hcompact with heq | heq | hmem
    · exact absurd heq (by decide)
    · rw [← heq] at hc
      exact absurd hc (by decide)
    · exact absurd (h.2.2 nextLine hmem) (by decide)

/-- The driver takes what the workbench takes unless there is a prefix or a byte order mark. -/
theorem agrees_iff (data : String) :
    (∀ bytes, hexToBytes data = .ok bytes → decodeData data "hex" = some (.ok bytes)) ↔
      (IsHex (withoutPrefix (compactText data)) →
        hasPrefix (compactText data) = false ∧ byteOrderMark ∉ data.toList) := by
  constructor
  · intro h hhex
    obtain ⟨bytes, hbytes⟩ := Option.isSome_iff_exists.mp
      ((digitBytes_isSome_iff (withoutPrefix (compactText data))).mpr hhex.2)
    have hread := readablePairs_of_decodeData
      (h bytes ((hexToBytes_eq_ok_iff data bytes).mpr ⟨hhex, hbytes⟩))
    have hmark : byteOrderMark ∉ data.toList := by
      intro hmem
      have hdriver : byteOrderMark ∈ driverText data := List.mem_filter.mpr ⟨hmem, by decide⟩
      exact absurd (mem_of_readablePairs hread hdriver) (by decide)
    refine ⟨?_, hmark⟩
    rw [driverText_eq hmark (nextLine_not_mem hhex)] at hread
    rcases withoutPrefix_cases (compactText data) with hsame | ⟨c, rest, hc, htext, _⟩
    · simp [hasPrefix, hsame]
    · rw [htext, readablePairs, Bool.and_eq_true] at hread
      rcases hc with rfl | rfl
      · exact absurd hread.1 (by decide)
      · exact absurd hread.1 (by decide)
  · intro h bytes hbytes
    obtain ⟨hhex, hdigits⟩ := (hexToBytes_eq_ok_iff data bytes).mp hbytes
    obtain ⟨hbegins, hmark⟩ := h hhex
    have hsame : withoutPrefix (compactText data) = compactText data := by
      simpa [hasPrefix] using hbegins
    rw [hsame] at hdigits
    rw [← driverText_eq hmark (nextLine_not_mem hhex)] at hdigits
    exact decodeData_of_digitBytes hdigits

/-- A payload is read as it is meant exactly when no character is cut, no sign is taken for a
digit, and the workbench skips nothing the driver does not skip. -/
theorem parsesHex_iff (data : String) :
    ParsesHex data ↔
      ¬CutsCharacter (driverText data) ∧
        ¬(readablePairs (driverText data) = true ∧ '+' ∈ driverText data) ∧
          (IsHex (withoutPrefix (compactText data)) →
            hasPrefix (compactText data) = false ∧ byteOrderMark ∉ data.toList) := by
  rw [← decodeData_eq_none_iff, ← exact_iff, ← agrees_iff]
  exact ⟨fun h => ⟨h.total, h.exact, h.agrees⟩, fun h => ⟨h.1, h.2.1, h.2.2⟩⟩

/-- The euro sign takes three bytes. -/
theorem parsesHex_not_euro : ¬∀ data, ParsesHex data := by
  intro h
  exact (h "€a").total (by decide +kernel)

end ApiVoy.Workbench
