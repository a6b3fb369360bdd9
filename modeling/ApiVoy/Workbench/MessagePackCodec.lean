/-
# Decoding packed payloads

The decoder of TCP payloads knows a part of the formats. It leaves a byte order mark at the
beginning of a text out, and makes an object of the entries of a map. Values are read back
exactly when their texts have no such mark and everything is short enough for the encoder.
-/

import ApiVoy.Foundation.Entries
import ApiVoy.Foundation.Packed
import ApiVoy.Workbench.MessagePack

namespace ApiVoy.Workbench

open Foundation

namespace MessagePack

/-! ## Encoding -/

mutual

/-- A value and all values in it. -/
def nodes : Json → List Json
  | .arr items => .arr items :: itemNodes items
  | .obj members => .obj members :: memberNodes members
  | value => [value]

def itemNodes : List Json → List Json
  | [] => []
  | item :: items => nodes item ++ itemNodes items

def memberNodes : List (String × Json) → List Json
  | [] => []
  | (_, value) :: members => nodes value ++ memberNodes members

end

/-- The texts of one value: a string, or the names of an object. -/
def nodeTexts : Json → List String
  | .str text => [text]
  | .obj members => members.map Prod.fst
  | _ => []

/-- Encode a value, unless a text has more bytes than a call can pass as arguments; how many these
are is up to the engine. -/
def encodeMessagePack (spreads : Nat → Bool) (value : Json) : Option Bytes :=
  if ((nodes value).flatMap nodeTexts).all (fun text => spreads (utf8 text).length) = true then
    some (encode value)
  else none

/-! ## Values of scripts -/

inductive ScriptValue where
  | null
  | bool (value : Bool)
  | number (value : Double)
  | text (value : String)
  | array (items : List ScriptValue)
  | object (members : List (String × ScriptValue))

/-- `String(value)` of a number. -/
def numberName (platform : Script.Platform) : Double → String
  | .nan => "NaN"
  | .infinite negative => if negative then "-Infinity" else "Infinity"
  | .finite value => String.ofList (JsonText.numberText platform.numberText value)

mutual

/-- `String(value)`. -/
def ScriptValue.toText (platform : Script.Platform) : ScriptValue → String
  | .null => "null"
  | .bool value => if value then "true" else "false"
  | .number value => numberName platform value
  | .text value => value
  | .array items => ",".intercalate (ScriptValue.itemTexts platform items)
  | .object _ => "[object Object]"

/-- The texts of items; nothing stands for `null`. -/
def ScriptValue.itemTexts (platform : Script.Platform) : List ScriptValue → List String
  | [] => []
  | .null :: items => "" :: ScriptValue.itemTexts platform items
  | item :: items => ScriptValue.toText platform item :: ScriptValue.itemTexts platform items

end

/-! ## Decoding -/

/-- A `TextDecoder` that refuses what is not UTF-8. -/
def decodeFatal : Bytes → Option String
  | 0xEF :: 0xBB :: 0xBF :: rest => fromUtf8 rest
  | bytes => fromUtf8 bytes

def decoderFormat (marker : UInt8) : Option Packed.Format :=
  if marker ≤ 0x7f then some (.small marker.toNat)
  else if 0xe0 ≤ marker then some (.small (marker.toNat - 0x100))
  else if marker &&& 0xe0 = 0xa0 then some (.text (.short (marker &&& 0x1f).toNat))
  else if marker &&& 0xf0 = 0x90 then some (.array (.short (marker &&& 0x0f).toNat))
  else if marker &&& 0xf0 = 0x80 then some (.map (.short (marker &&& 0x0f).toNat))
  else match marker.toNat with
    | 0xc0 => some .nil
    | 0xc2 => some (.bool false)
    | 0xc3 => some (.bool true)
    | 0xca => some (.float 4 8 23)
    | 0xcb => some (.float 8 11 52)
    | 0xcc => some (.uint 1)
    | 0xcd => some (.uint 2)
    | 0xce => some (.uint 4)
    | 0xd0 => some (.int 1)
    | 0xd1 => some (.int 2)
    | 0xd2 => some (.int 4)
    | 0xd9 => some (.text (.sized 1))
    | 0xda => some (.text (.sized 2))
    | 0xdb => some (.text (.sized 4))
    | 0xc4 => some (.bin (.sized 1))
    | 0xc5 => some (.bin (.sized 2))
    | 0xdc => some (.array (.sized 2))
    | 0xde => some (.map (.sized 2))
    | _ => none

/-- The decoder of TCP payloads. No first byte stands for an extension. -/
def payloadReader (platform : Script.Platform) : Packed.Reader ScriptValue where
  formatOf := decoderFormat
  nil := .null
  bool := .bool
  number := .number
  decodeText := decodeFatal
  text := .text
  bin bytes := .object [("base64", .text (String.ofList (bytesToBase64 bytes)))]
  array := .array
  map pairs := .object (Script.fromEntries (pairs.map fun pair => (pair.1.toText platform, pair.2)))
  ext _ := .null

/-- The digits of a byte to the base 16. -/
def markerText (marker : UInt8) : String := String.ofList (Nat.toDigits 16 marker.toNat)

def decodeMessagePack (platform : Script.Platform) (bytes : Bytes) : Except String ScriptValue :=
  match (payloadReader platform).read bytes.length bytes with
  | .ok (value, []) => .ok value
  | .ok (_, rest) =>
    .error ("MessagePack 尾部还有 " ++ toString rest.length ++ " 个字节")
  | .error .incomplete => .error "MessagePack 数据不完整"
  | .error (.unsupported marker) => .error ("暂不支持 MessagePack 标记 0x" ++ markerText marker)
  | .error .malformed => .error "The encoded data was not valid for encoding utf-8"

/-! ## What is to be read -/

section Shown

variable {V : Type} (R : Packed.Reader V)

mutual

/-- What a reader makes of a value. -/
def shown : Json → V
  | .null => R.nil
  | .bool value => R.bool value
  | .num value => R.number (.finite value)
  | .str text => R.text text
  | .arr items => R.array (shownItems items)
  | .obj members => R.map (shownPairs members)

def shownItems : List Json → List V
  | [] => []
  | item :: items => shown item :: shownItems items

def shownPairs : List (String × Json) → List (V × V)
  | [] => []
  | (name, value) :: members => (R.text name, shown value) :: shownPairs members

end

/-- A reader supports the formats that the encoder writes, and reads back the texts, numbers and
lengths of a value. -/
def IsCommon (byte : UInt8) : Bool :=
  byte ∉ [0xc1, 0xc6, 0xc7, 0xc8, 0xc9, 0xcf, 0xd3, 0xd4, 0xd5, 0xd6, 0xd7, 0xd8, 0xdd, 0xdf]

def SupportsCommon : Prop := ∀ byte, IsCommon byte = true → R.formatOf byte = Packed.formatOf byte

/-- A text is short enough, and a reader knows its bytes. -/
def ReadableText (text : String) : Prop :=
  (utf8 text).length ≤ 65535 ∧ R.decodeText (utf8 text) = some text

/-- Nothing in a value prevents a reader from reading it back. -/
def ReadableNode : Json → Prop
  | .num value => Double.IsDouble value
  | .str text => ReadableText R text
  | .arr items => items.length ≤ 65535
  | .obj members => members.length ≤ 65535 ∧ ∀ member ∈ members, ReadableText R member.1
  | _ => True

end Shown

theorem decoderFormat_common : ∀ byte : UInt8, IsCommon byte = true →
    decoderFormat byte = Packed.formatOf byte := by
  have hall : ∀ n : Fin 256, IsCommon (UInt8.ofNat n) = true →
      decoderFormat (UInt8.ofNat n) = Packed.formatOf (UInt8.ofNat n) := by decide +kernel
  intro byte hbyte
  have hsame : UInt8.ofNat byte.toNat = byte := UInt8.ofNat_toNat
  have hthis := hall ⟨byte.toNat, UInt8.toNat_lt byte⟩
  dsimp only at hthis
  rw [hsame] at hthis
  exact hthis hbyte

/-! ## Reading back -/

variable (n : Nat)

theorem length_push16 : (push16 n).length = 2 := rfl

/-- Two bytes hold the lower part of a number. -/
theorem readBE_push16 : readBE (push16 n) = n % 65536 := by
  have hread : readBE (push16 n) =
      (0 * 256 + (UInt8.ofNat (n / 256)).toNat) * 256 + (UInt8.ofNat n).toNat := rfl
  rw [hread, UInt8.toNat_ofNat', UInt8.toNat_ofNat']
  omega

theorem readLength_push16 (rest : Bytes) :
    Packed.readLength (.sized 2) (push16 n ++ rest) = .ok (n % 65536, rest) := by
  have htake := Packed.take_append (push16 n) rest
  rw [length_push16] at htake
  rw [Packed.readLength, htake]
  exact congrArg (fun n => Except.ok (n, rest)) (readBE_push16 n)

theorem readBE_byte {n : Nat} (h : n < 256) : readBE [UInt8.ofNat n] = n :=
  readBE_beBytes (show n < 256 ^ 1 from h)

theorem readLength_byte {n : Nat} (h : n < 256) (rest : Bytes) :
    Packed.readLength (.sized 1) (UInt8.ofNat n :: rest) = .ok (n, rest) :=
  Packed.readLength_beBytes (show n < 256 ^ 1 from h) rest

section Reading

variable {V : Type} {R : Packed.Reader V}

variable {byte : UInt8}

theorem format_of_table (hR : SupportsCommon R) {format : Packed.Format}
    (h : IsCommon byte = true ∧ Packed.formatOf byte = some format) :
    R.formatOf byte = some format := (hR byte h.1).trans h.2

/-- How the length of a text is found behind its first byte. -/
theorem text_head (hR : SupportsCommon R) (text : String) : ∃ byte head length,
    encodeText text = byte :: (head ++ utf8 text) ∧ R.formatOf byte = some (.text length) ∧
      ∀ rest, Packed.readLength length (head ++ rest) = .ok ((utf8 text).length % 65536, rest) := by
  have hshort : ∀ n : Fin 32, IsCommon (UInt8.ofNat (0xa0 + n)) = true ∧
      Packed.formatOf (UInt8.ofNat (0xa0 + n)) = some (.text (.short n)) := by decide +kernel
  unfold encodeText
  dsimp only
  split
  · rename_i hlength
    refine ⟨_, [], _, rfl, format_of_table hR (hshort ⟨_, hlength⟩), fun rest => ?_⟩
    rw [Nat.mod_eq_of_lt (by omega)]
    rfl
  · split
    · rename_i hlength
      refine ⟨0xd9, [UInt8.ofNat (utf8 text).length], .sized 1, rfl,
        format_of_table hR (by decide), fun rest => ?_⟩
      rw [Nat.mod_eq_of_lt (by omega)]
      exact readLength_byte (by omega) rest
    · exact ⟨0xda, push16 (utf8 text).length, .sized 2, rfl, format_of_table hR (by decide),
        fun rest => readLength_push16 _ rest⟩

/-- How the length of an array or of an object is found. -/
theorem length_head (hR : SupportsCommon R) {short long : UInt8}
    {format : Packed.Length → Packed.Format}
    (hshort : ∀ n : Fin 16, IsCommon (short + UInt8.ofNat n) = true ∧
      Packed.formatOf (short + UInt8.ofNat n) = some (format (.short n)))
    (hlong : IsCommon long = true ∧ Packed.formatOf long = some (format (.sized 2)))
    (n : Nat) : ∃ byte head length, encodeLength short long n = byte :: head ∧
      R.formatOf byte = some (format length) ∧
      ∀ rest, Packed.readLength length (head ++ rest) = .ok (n % 65536, rest) := by
  unfold encodeLength
  split
  · rename_i hlength
    refine ⟨_, [], _, rfl, format_of_table hR (hshort ⟨n, hlength⟩), fun rest => ?_⟩
    rw [Nat.mod_eq_of_lt (by omega)]
    rfl
  · exact ⟨long, push16 n, .sized 2, rfl, format_of_table hR hlong,
      fun rest => readLength_push16 n rest⟩

theorem array_head (hR : SupportsCommon R) (n : Nat) : ∃ byte head length,
    encodeLength 0x90 0xdc n = byte :: head ∧ R.formatOf byte = some (.array length) ∧
      ∀ rest, Packed.readLength length (head ++ rest) = .ok (n % 65536, rest) :=
  length_head hR (by decide +kernel) (by decide) n

theorem map_head (hR : SupportsCommon R) (n : Nat) : ∃ byte head length,
    encodeLength 0x80 0xde n = byte :: head ∧ R.formatOf byte = some (.map length) ∧
      ∀ rest, Packed.readLength length (head ++ rest) = .ok (n % 65536, rest) :=
  length_head hR (by decide +kernel) (by decide) n

variable {rounds : Nat}

/-- A text is read as some text, if it can be read at all. -/
theorem read_text (hR : SupportsCommon R) (text : String) (rest : Bytes) :
    R.read (rounds + 1) (encodeText text ++ rest) =
      (Packed.take ((utf8 text).length % 65536) (utf8 text ++ rest) >>= fun (field, rest) =>
        match R.decodeText field with
        | some text => .ok (R.text text, rest)
        | none => .error Packed.ReadError.malformed) := by
  obtain ⟨byte, head, length, hencode, hformat, hlength⟩ := text_head hR text
  rw [hencode, List.cons_append, List.append_assoc, Packed.Reader.read_cons _ hformat]
  rw [Packed.Reader.readFormat, Packed.Reader.readText, Packed.takeLong, hlength]
  rfl

theorem readsAs_text (hR : SupportsCommon R) {text : String} (h : ReadableText R text) :
    Packed.ReadsAs (R.read (rounds + 1)) (encodeText text) (R.text text) := by
  intro rest
  rw [read_text hR, Nat.mod_eq_of_lt (Nat.lt_succ_of_le h.1), Packed.take_append]
  change (match R.decodeText (utf8 text) with
    | some text => Except.ok (R.text text, rest)
    | none => .error Packed.ReadError.malformed) = _
  rw [h.2]

variable {q : Rat}

/-- A whole number is read from a first byte and a number of some width behind it. -/
theorem readsAs_small (hR : SupportsCommon R) {n : Int}
    (h : IsCommon byte = true ∧ Packed.formatOf byte = some (.small n)) (hq : (n : Rat) = q) :
    Packed.ReadsAs (R.read (rounds + 1)) [byte] (R.number (.finite q)) := by
  rw [← hq]
  exact Packed.Reader.readsAs_byte (format_of_table hR h) fun rest => rfl

theorem readsAs_uint (hR : SupportsCommon R) {rounds n : Nat} {field : Bytes}
    (h : IsCommon byte = true ∧ Packed.formatOf byte = some (.uint field.length))
    (hfield : readBE field = n) :
    Packed.ReadsAs (R.read (rounds + 1)) (byte :: field) (R.number (.finite n)) := by
  rw [← hfield]
  refine Packed.Reader.readsAs_byte (format_of_table hR h) fun rest => ?_
  rw [Packed.Reader.readFormat, Packed.take_append]
  rfl

theorem intCast_of_den (h : q.den = 1) : (q.num : Rat) = q := by
  conv_rhs => rw [← Rat.num_div_den q, h]
  rw [Nat.cast_one, div_one]

theorem readsAs_number (hR : SupportsCommon R) (h : Double.IsDouble q) :
    Packed.ReadsAs (R.read (rounds + 1)) (encodeNumber q) (R.number (.finite q)) := by
  have hpositive : ∀ n : Fin 128, IsCommon (UInt8.ofNat n) = true ∧
      Packed.formatOf (UInt8.ofNat n) = some (.small (n : Nat)) := by decide +kernel
  have hnegative : ∀ n : Fin 32, IsCommon (UInt8.ofNat (0xe0 + n)) = true ∧
      Packed.formatOf (UInt8.ofNat (0xe0 + n)) = some (.small ((n : Nat) - 32)) := by
    decide +kernel
  have hnat : q.den = 1 → 0 ≤ q.num → ((q.num.toNat : Nat) : Rat) = q := fun hden hnonneg => by
    conv_rhs => rw [← intCast_of_den hden, ← Int.toNat_of_nonneg hnonneg]
    rfl
  unfold encodeNumber
  split
  · rename_i hsmall
    obtain ⟨hden, hlow, hhigh⟩ := hsmall
    refine readsAs_small hR (hpositive ⟨q.num.toNat, by omega⟩) ?_
    exact hnat hden hlow
  · split
    · rename_i hsmall
      obtain ⟨hden, hlow, hhigh⟩ := hsmall
      have hbyte : (0x100 + q.num).toNat = 0xe0 + (q.num + 32).toNat := by omega
      rw [hbyte]
      refine readsAs_small hR (hnegative ⟨(q.num + 32).toNat, by omega⟩) ?_
      have hvalue : ((q.num + 32).toNat : Int) - 32 = q.num := by omega
      dsimp only
      rw [hvalue]
      exact intCast_of_den hden
    · split
      · rename_i hsmall
        obtain ⟨hden, hlow, hhigh⟩ := hsmall
        have hformat : IsCommon 0xcc = true ∧ Packed.formatOf 0xcc = some (.uint 1) := by decide
        have hfield : readBE [UInt8.ofNat q.num.toNat] = q.num.toNat := readBE_byte (by omega)
        have hread : Packed.ReadsAs (R.read (rounds + 1)) [0xcc, UInt8.ofNat q.num.toNat] _ :=
          readsAs_uint hR hformat hfield
        rwa [hnat hden hlow] at hread
      · split
        · rename_i hsmall
          obtain ⟨hden, hlow, hhigh⟩ := hsmall
          have hfield : readBE (push16 q.num.toNat) = q.num.toNat := by
            rw [readBE_push16]
            omega
          have hformat : IsCommon 0xcd = true ∧ Packed.formatOf 0xcd = some (.uint 2) := by decide
          have hread : Packed.ReadsAs (R.read (rounds + 1)) (0xcd :: push16 q.num.toNat) _ :=
            readsAs_uint hR hformat hfield
          rwa [hnat hden hlow] at hread
        · split
          · rename_i hsmall
            obtain ⟨hden, hlow, hhigh⟩ := hsmall
            have hformat : IsCommon 0xd0 = true ∧ Packed.formatOf 0xd0 = some (.int 1) := by decide
            refine Packed.Reader.readsAs_byte (format_of_table hR hformat) fun rest => ?_
            have hfield : readBE [UInt8.ofNat (0x100 + q.num).toNat] = (0x100 + q.num).toNat :=
              readBE_byte (by omega)
            have hsigned : Packed.signed 1 (0x100 + q.num).toNat = q.num := by
              rw [Packed.signed, if_neg (by omega)]
              omega
            have htake := Packed.take_append [UInt8.ofNat (0x100 + q.num).toNat] rest
            rw [Packed.Reader.readFormat]
            change (Packed.take 1 _ >>= _) = _
            rw [show (1 : Nat) = [UInt8.ofNat (0x100 + q.num).toNat].length from rfl, htake]
            change Except.ok (R.number (.finite (Packed.signed 1 (readBE _) : Int)), rest) = _
            rw [hfield, hsigned, intCast_of_den hden]
          · obtain ⟨hbits, hbound⟩ := Double.ofPattern_bits h
            have hformat : IsCommon 0xcb = true ∧ Packed.formatOf 0xcb = some (.float 8 11 52) := by
              decide
            refine Packed.Reader.readsAs_byte (format_of_table hR hformat) fun rest => ?_
            have htake := Packed.take_append (beBytes 8 (Double.bits q)) rest
            rw [length_beBytes] at htake
            rw [Packed.Reader.readFormat, htake]
            change Except.ok (R.number (Double.ofPattern ⟨11, 52⟩ (readBE _)), rest) = _
            rw [readBE_beBytes (by omega)]
            exact congrArg (fun value => Except.ok (R.number value, rest)) hbits

theorem readsAs_null (hR : SupportsCommon R) :
    Packed.ReadsAs (R.read (rounds + 1)) (encode .null) R.nil := by
  have hformat : IsCommon 0xc0 = true ∧ Packed.formatOf 0xc0 = some .nil := by decide
  exact Packed.Reader.readsAs_byte (format_of_table hR hformat) fun rest => rfl

theorem readsAs_bool (hR : SupportsCommon R) (value : Bool) :
    Packed.ReadsAs (R.read (rounds + 1)) (encode (.bool value)) (R.bool value) := by
  have htrue : IsCommon 0xc3 = true ∧ Packed.formatOf 0xc3 = some (.bool true) := by decide
  have hfalse : IsCommon 0xc2 = true ∧ Packed.formatOf 0xc2 = some (.bool false) := by decide
  cases value with
  | true => exact Packed.Reader.readsAs_byte (format_of_table hR htrue) fun rest => rfl
  | false => exact Packed.Reader.readsAs_byte (format_of_table hR hfalse) fun rest => rfl

/-! ### Whole values -/

theorem encode_pos (value : Json) : 0 < (encode value).length := by
  have hnumber : ∀ q, 0 < (encodeNumber q).length := fun q => by
    unfold encodeNumber
    split_ifs <;> exact Nat.zero_lt_succ _
  have hlength : ∀ short long n, 0 < (encodeLength short long n).length := fun short long n => by
    unfold encodeLength
    split <;> exact Nat.zero_lt_succ _
  cases value with
  | null => exact Nat.one_pos
  | bool value => exact Nat.one_pos
  | num value => exact hnumber value
  | str text =>
    have hR : SupportsCommon Packed.specification := fun _ _ => rfl
    obtain ⟨byte, head, length, hencode, -, -⟩ := text_head hR text
    rw [encode, hencode]
    exact Nat.zero_lt_succ _
  | arr items =>
    rw [encode, List.length_append]
    exact Nat.add_pos_left (hlength _ _ _) _
  | obj members =>
    rw [encode, List.length_append]
    exact Nat.add_pos_left (hlength _ _ _) _

mutual

/-- Every value is read back whose numbers, texts and lengths are. -/
theorem readsAs_encode (hR : SupportsCommon R) : ∀ (value : Json) (rounds : Nat),
    (∀ node ∈ nodes value, ReadableNode R node) → (encode value).length ≤ rounds →
      Packed.ReadsAs (R.read rounds) (encode value) (shown R value)
  | value, 0, _, hrounds => absurd (encode_pos value) (not_lt.mpr hrounds)
  | .null, rounds + 1, _, _ => readsAs_null hR
  | .bool value, rounds + 1, _, _ => readsAs_bool hR value
  | .num q, rounds + 1, hnodes, _ => readsAs_number hR (hnodes _ List.mem_cons_self)
  | .str text, rounds + 1, hnodes, _ => readsAs_text hR (hnodes _ List.mem_cons_self)
  | .arr items, rounds + 1, hnodes, hrounds => by
    obtain ⟨byte, head, length, hencode, hformat, hlength⟩ := array_head hR items.length
    have hsmall : items.length ≤ 65535 := hnodes (.arr items) List.mem_cons_self
    have hbytes : encode (.arr items) = byte :: (head ++ encodeItems items) := by
      rw [encode, hencode, List.cons_append]
    rw [hbytes, List.length_cons, List.length_append] at hrounds
    have hitems := readsAs_encodeItems hR items rounds
      (fun node hnode => hnodes node (List.mem_cons_of_mem _ hnode)) (by omega)
    rw [hbytes]
    refine Packed.Reader.readsAs_byte hformat fun rest => ?_
    rw [List.append_assoc, Packed.Reader.readFormat, hlength,
      Nat.mod_eq_of_lt (Nat.lt_succ_of_le hsmall)]
    change (Packed.readMany _ items.length _ >>= _) = _
    rw [hitems]
    rfl
  | .obj members, rounds + 1, hnodes, hrounds => by
    obtain ⟨byte, head, length, hencode, hformat, hlength⟩ := map_head hR members.length
    have hsmall := hnodes (.obj members) List.mem_cons_self
    have hbytes : encode (.obj members) = byte :: (head ++ encodeMembers members) := by
      rw [encode, hencode, List.cons_append]
    rw [hbytes, List.length_cons, List.length_append] at hrounds
    have hmembers := readsAs_encodeMembers hR members rounds hsmall.2
      (fun node hnode => hnodes node (List.mem_cons_of_mem _ hnode)) (by omega)
    rw [hbytes]
    refine Packed.Reader.readsAs_byte hformat fun rest => ?_
    rw [List.append_assoc, Packed.Reader.readFormat, hlength,
      Nat.mod_eq_of_lt (Nat.lt_succ_of_le hsmall.1)]
    change (Packed.readMany _ members.length _ >>= _) = _
    rw [hmembers]
    rfl

theorem readsAs_encodeItems (hR : SupportsCommon R) : ∀ (items : List Json) (rounds : Nat),
    (∀ node ∈ itemNodes items, ReadableNode R node) → (encodeItems items).length ≤ rounds →
      Packed.ReadsAs (Packed.readMany (R.read rounds) items.length) (encodeItems items)
        (shownItems R items)
  | [], _, _, _ => Packed.readsAs_many_nil
  | item :: items, rounds, hnodes, hrounds => by
    rw [encodeItems, List.length_append] at hrounds
    have hfirst := readsAs_encode hR item rounds
      (fun node hnode => hnodes node (List.mem_append_left _ hnode)) (by omega)
    have hothers := readsAs_encodeItems hR items rounds
      (fun node hnode => hnodes node (List.mem_append_right _ hnode)) (by omega)
    exact Packed.readsAs_many_cons hfirst hothers

theorem readsAs_encodeMembers (hR : SupportsCommon R) : ∀ (members : List (String × Json))
    (rounds : Nat), (∀ member ∈ members, ReadableText R member.1) →
    (∀ node ∈ memberNodes members, ReadableNode R node) →
      (encodeMembers members).length ≤ rounds →
        Packed.ReadsAs (Packed.readMany (Packed.readPair (R.read rounds)) members.length)
          (encodeMembers members) (shownPairs R members)
  | [], _, _, _, _ => Packed.readsAs_many_nil
  | (name, value) :: members, rounds, hnames, hnodes, hrounds => by
    rw [encodeMembers, List.length_append, List.length_append] at hrounds
    have hvalue := readsAs_encode hR value rounds
      (fun node hnode => hnodes node (List.mem_append_left _ hnode)) (by omega)
    have hothers := readsAs_encodeMembers hR members rounds
      (fun member hmember => hnames member (List.mem_cons_of_mem _ hmember))
      (fun node hnode => hnodes node (List.mem_append_right _ hnode)) (by omega)
    have hname : Packed.ReadsAs (R.read rounds) (encodeText name) (R.text name) := by
      have hpositive := encode_pos value
      obtain ⟨fewer, rfl⟩ : ∃ fewer, rounds = fewer + 1 := ⟨rounds - 1, by omega⟩
      exact readsAs_text hR (hnames _ List.mem_cons_self)
    rw [encodeMembers, ← List.append_assoc]
    exact Packed.readsAs_many_cons (Packed.readsAs_pair hname hvalue) hothers

end

end Reading

end MessagePack

end ApiVoy.Workbench
