/-
# Values of a RESP server

The values of RESP2 and RESP3 as a server writes them, with the frames that the reader makes
of them. A value that the reader knows is read as a whole, whatever comes behind it; at a big
number or an attribute, also inside of another value, the reader gives up.
-/

import ApiVoy.Drivers.Redis

namespace ApiVoy.Drivers

open Foundation Domain Engine

/-! ## Values -/

/-- The kinds of values that take one line. -/
inductive LineKind where
  | string
  | error
  | integer
  | null
  | boolean
  | double
  | bigNumber
  deriving DecidableEq

def LineKind.byte : LineKind → UInt8
  | .string => 43
  | .error => 45
  | .integer => 58
  | .null => 95
  | .boolean => 35
  | .double => 44
  | .bigNumber => 40

/-- The kinds of values that are bytes behind their length. -/
inductive BulkKind where
  | string
  | verbatim
  | error
  deriving DecidableEq

def BulkKind.byte : BulkKind → UInt8
  | .string => 36
  | .verbatim => 61
  | .error => 33

/-- The kinds of values that are values behind their number. -/
inductive AggregateKind where
  | array
  | set
  | map
  | push
  deriving DecidableEq

def AggregateKind.byte : AggregateKind → UInt8
  | .array => 42
  | .set => 126
  | .map => 37
  | .push => 62

/-- How many values an entry has: those of a map are pairs. -/
def AggregateKind.width (kind : AggregateKind) : Nat := if kind = .map then 2 else 1

/-- A value as it is written, with the digits of its lengths. The null of RESP2 is an absent
bulk string or an absent array, and an attribute comes before the value that it is about. -/
inductive RespValue where
  | line (kind : LineKind) (text : Bytes)
  | bulk (kind : BulkKind) (length bytes : Bytes)
  | absent (isArray : Bool)
  | aggregate (kind : AggregateKind) (count : Bytes) (entries : List RespValue)
  | attributed (count : Bytes) (attributes : List RespValue) (value : RespValue)

namespace RespValue

mutual

def encode : RespValue → Bytes
  | .line kind text => kind.byte :: (text ++ crlf)
  | .bulk kind length bytes => kind.byte :: (length ++ (crlf ++ (bytes ++ crlf)))
  | .absent isArray => (if isArray = true then 42 else 36) :: (utf8 "-1" ++ crlf)
  | .aggregate kind count entries => kind.byte :: (count ++ (crlf ++ encodeAll entries))
  | .attributed count attributes value =>
    124 :: (count ++ (crlf ++ (encodeAll attributes ++ encode value)))

def encodeAll : List RespValue → Bytes
  | [] => []
  | value :: rest => encode value ++ encodeAll rest

end

/-- A line has no line break in it. -/
def Clear (text : Bytes) : Prop := 13 ∉ text ∧ 10 ∉ text

def isDigit (byte : UInt8) : Bool := decide (48 ≤ byte.toNat ∧ byte.toNat ≤ 57)

/-- The digits of a number. -/
structure Numeral (text : Bytes) (n : Nat) : Prop where
  digits : ∀ byte ∈ text, isDigit byte = true
  value : parseI64 (decodeLossy text) = some (n : Int)

def LineText (text : Bytes) : LineKind → Prop
  | .string | .error => True
  | .integer => ∃ n, parseI64 (decodeLossy text) = some n
  | .null => text = []
  | .boolean => text = utf8 "t" ∨ text = utf8 "f"
  | .double => ∃ double, parseF64 (decodeLossy text) = some double
  | .bigNumber => ∃ sign digits : Bytes, text = sign ++ digits ∧
      (sign = [] ∨ sign = [43] ∨ sign = [45]) ∧ digits ≠ [] ∧ ∀ byte ∈ digits, isDigit byte = true

mutual

/-- The value is written as the protocol says. -/
def WellFormed : RespValue → Prop
  | .line kind text => Clear text ∧ LineText text kind
  | .bulk _ length bytes => Numeral length bytes.length
  | .absent _ => True
  | .aggregate kind count entries =>
    (∃ n, Numeral count n ∧ entries.length = n * kind.width) ∧ AllWellFormed entries
  | .attributed count attributes value =>
    (∃ n, Numeral count n ∧ attributes.length = n * 2) ∧ AllWellFormed attributes ∧
      WellFormed value

def AllWellFormed : List RespValue → Prop
  | [] => True
  | value :: rest => WellFormed value ∧ AllWellFormed rest

end

mutual

/-- There is neither a big number nor an attribute in the value. -/
def Supported : RespValue → Prop
  | .line kind _ => kind ≠ .bigNumber
  | .bulk _ _ _ => True
  | .absent _ => True
  | .aggregate _ _ entries => AllSupported entries
  | .attributed _ _ _ => False

def AllSupported : List RespValue → Prop
  | [] => True
  | value :: rest => Supported value ∧ AllSupported rest

end

/-- The server says that the command has failed. -/
def isError : RespValue → Bool
  | .line kind _ => decide (kind = .error)
  | .bulk kind _ _ => decide (kind = .error)
  | .absent _ => false
  | .aggregate _ _ _ => false
  | .attributed _ _ value => isError value

/-- An error whose bytes are a text. -/
def IsText : RespValue → Prop
  | .bulk _ _ bytes => (fromUtf8 bytes).isSome = true
  | _ => True

/-! ## Frames of values -/

def unsupported (byte : UInt8) : DriverError :=
  .protocol ("unsupported RESP prefix 0x" ++ hexByte byte)

def lineValue (text : Bytes) : LineKind → Except DriverError Json
  | .string => .ok (typed "string" (.str (String.ofList (decodeLossy text))))
  | .error => .ok (typed "error" (.str (String.ofList (decodeLossy text))))
  | .integer =>
    match parseI64 (decodeLossy text) with
    | some n => .ok (typed "integer" (.num n))
    | none => .error (.protocol "invalid RESP integer")
  | .null => .ok .null
  | .boolean => .ok (.bool (decide (decodeLossy text = ['t'])))
  | .double =>
    match parseF64 (decodeLossy text) with
    | some double => .ok (doubleJson double)
    | none => .error (.protocol "invalid RESP double")
  | .bigNumber => .error (unsupported 40)

section Decoding

variable (codecs : Codecs)

mutual

/-- What the reader makes of a value. -/
def decoded : RespValue → Except DriverError Json
  | .line kind text => lineValue text kind
  | .bulk kind _ bytes => .ok (bulkValue codecs (decide (kind = .error)) bytes)
  | .absent _ => .ok .null
  | .aggregate kind _ entries =>
    (decodedAll entries).map fun values =>
      typed (if kind = .map then "map" else "array") (.arr values)
  | .attributed _ _ _ => .error (unsupported 124)

def decodedAll : List RespValue → Except DriverError (List Json)
  | [] => .ok []
  | value :: rest =>
    match decoded value with
    | .error e => .error e
    | .ok first => (decodedAll rest).map (first :: ·)

end

end Decoding

/-! ## Reading values -/

section Reading

variable {codecs : Codecs}

theorem Numeral.clear {text : Bytes} {n : Nat} (h : Numeral text n) : (13 : UInt8) ∉ text := by
  intro hmem
  have hdigit := h.digits 13 hmem
  rw [isDigit] at hdigit
  cases of_decide_eq_true hdigit with
  | intro hlow _ => exact absurd hlow (by decide)

theorem ofByte_bulk (kind : BulkKind) :
    RespKind.ofByte kind.byte = some (.bulk (decide (kind = .error))) := by
  cases kind <;> decide

theorem ofByte_aggregate (kind : AggregateKind) :
    RespKind.ofByte kind.byte = some (.aggregate (decide (kind = .map))) := by
  cases kind <;> decide

theorem parseFrame_line (kind : LineKind) {text : Bytes} (h : (13 : UInt8) ∉ text)
    (tail : Bytes) :
    parseFrame codecs (kind.byte :: (text ++ (crlf ++ tail))) =
      (lineValue text kind).map fun value => some (value, text.length + 3) := by
  rw [parseFrame_eq, frameStep, line_of_clear h]
  cases kind with
  | string | error | null | boolean => rfl
  | integer =>
    have hkind : RespKind.ofByte LineKind.integer.byte = some .integer := by decide
    simp only [hkind, lineValue]
    cases parseI64 (decodeLossy text) <;> rfl
  | double =>
    have hkind : RespKind.ofByte LineKind.double.byte = some .double := by decide
    simp only [hkind, lineValue]
    cases parseF64 (decodeLossy text) <;> rfl
  | bigNumber =>
    have hkind : RespKind.ofByte LineKind.bigNumber.byte = none := by decide
    simp only [hkind, lineValue]
    rfl

theorem parseFrame_absent (isArray : Bool) (tail : Bytes) :
    parseFrame codecs ((RespValue.absent isArray).encode ++ tail) =
      .ok (some (.null, (RespValue.absent isArray).encode.length)) := by
  have hparse : parseI64 (decodeLossy (utf8 "-1")) = some (-1) := by decide
  have hclear : (13 : UInt8) ∉ utf8 "-1" := by decide
  have hlength : (utf8 "-1").length = 2 := by decide
  rw [encode, List.cons_append, List.append_assoc, parseFrame_eq, frameStep, line_of_clear hclear]
  cases isArray with
  | false =>
    have hkind : RespKind.ofByte 36 = some (.bulk false) := by decide
    simp only [Bool.false_eq_true, if_false, hkind, bulkFrame, hparse]
    rw [if_pos (by decide)]
    rfl
  | true =>
    have hkind : RespKind.ofByte 42 = some (.aggregate false) := by decide
    simp only [if_true, hkind, aggregateFrame, hparse]
    rw [if_pos (by decide)]
    rfl

theorem parseFrame_attribute {count : Bytes} (h : (13 : UInt8) ∉ count) (rest : Bytes) :
    parseFrame codecs (124 :: (count ++ (crlf ++ rest))) = .error (unsupported 124) := by
  have hkind : RespKind.ofByte 124 = none := by decide
  rw [parseFrame_eq, frameStep, line_of_clear h]
  simp only [hkind]
  rfl

mutual

/-- A value is read as a whole, and nothing behind it. -/
theorem parseFrame_encode : ∀ value : RespValue, value.WellFormed → ∀ tail,
    parseFrame codecs (value.encode ++ tail) =
      (value.decoded codecs).map fun json => some (json, value.encode.length)
  | .line kind text, h, tail => by
    rw [WellFormed] at h
    have hlength : (RespValue.line kind text).encode.length = text.length + 3 := by
      simp [encode, crlf]
    rw [hlength, encode, List.cons_append, List.append_assoc, parseFrame_line kind h.1.1, decoded]
  | .bulk kind length bytes, h, tail => by
    rw [WellFormed] at h
    have hlength : (RespValue.bulk kind length bytes).encode.length =
        length.length + 3 + bytes.length + 2 := by
      simp only [encode, crlf, List.length_cons, List.length_append, List.length_nil]
      omega
    rw [hlength, encode]
    simp only [List.cons_append, List.append_assoc]
    rw [parseFrame_bulk (ofByte_bulk kind) h.clear h.value, decoded]
    rfl
  | .absent isArray, _, tail => by
    rw [parseFrame_absent, decoded]
    rfl
  | .aggregate kind count entries, h, tail => by
    rw [WellFormed] at h
    obtain ⟨⟨n, hcount, hentries⟩, hall⟩ := h
    have hlength : (RespValue.aggregate kind count entries).encode.length =
        count.length + 3 + (encodeAll entries).length := by
      simp only [encode, crlf, List.length_cons, List.length_append, List.length_nil]
      omega
    have hwidth : (n * if decide (kind = .map) = true then 2 else 1) = entries.length := by
      rw [hentries, AggregateKind.width]
      simp only [decide_eq_true_eq]
    rw [hlength, encode]
    simp only [List.cons_append, List.append_assoc]
    rw [parseFrame_aggregate (ofByte_aggregate kind) hcount.clear hcount.value, hwidth,
      parseEntries_encodeAll entries hall _ _ tail (drop_line _), decoded]
    cases decodedAll codecs entries with
    | error e => rfl
    | ok values => simp only [Except.map, Option.map, decide_eq_true_eq]
  | .attributed count attributes value, h, tail => by
    rw [WellFormed] at h
    obtain ⟨⟨n, hcount, _⟩, _⟩ := h
    rw [encode]
    simp only [List.cons_append, List.append_assoc]
    rw [parseFrame_attribute hcount.clear, decoded]
    rfl

theorem parseEntries_encodeAll : ∀ values : List RespValue, AllWellFormed values →
    ∀ (input : Bytes) (cursor : Nat) (tail : Bytes), input.drop cursor = encodeAll values ++ tail →
      parseEntries (parseFrame codecs) input values.length cursor =
        (decodedAll codecs values).map fun jsons =>
          some (jsons, cursor + (encodeAll values).length)
  | [], _, _, _, _, _ => rfl
  | value :: rest, h, input, cursor, tail, hinput => by
    rw [AllWellFormed] at h
    rw [encodeAll, List.append_assoc] at hinput
    have hdrop : input.drop (cursor + value.encode.length) = encodeAll rest ++ tail := by
      rw [← List.drop_drop, hinput, List.drop_left]
    have hrest := parseEntries_encodeAll rest h.2 input (cursor + value.encode.length) tail hdrop
    rw [List.length_cons, parseEntries, hinput, parseFrame_encode value h.1, decodedAll]
    cases value.decoded codecs with
    | error e => rfl
    | ok json =>
      simp only [Except.map, hrest]
      cases decodedAll codecs rest with
      | error e => rfl
      | ok jsons =>
        simp only [encodeAll, List.length_append, Nat.add_assoc]

end

mutual

/-- The reader gives up only at what it does not know. -/
theorem decoded_cases : ∀ value : RespValue, value.WellFormed →
    (value.Supported ∧ ∃ json, value.decoded codecs = .ok json) ∨
      (¬value.Supported ∧ ∃ byte, value.decoded codecs = .error (unsupported byte))
  | .line kind text, h => by
    rw [WellFormed] at h
    rw [Supported, decoded]
    cases kind with
    | string | error | null | boolean => exact .inl ⟨by decide, _, rfl⟩
    | integer =>
      obtain ⟨n, hn⟩ := h.2
      exact .inl ⟨by decide, _, by rw [lineValue, hn]⟩
    | double =>
      obtain ⟨double, hdouble⟩ := h.2
      exact .inl ⟨by decide, _, by rw [lineValue, hdouble]⟩
    | bigNumber => exact .inr ⟨fun h => h rfl, 40, rfl⟩
  | .bulk _ _ _, _ => by
    rw [Supported, decoded]
    exact .inl ⟨trivial, _, rfl⟩
  | .absent _, _ => by
    rw [Supported, decoded]
    exact .inl ⟨trivial, _, rfl⟩
  | .aggregate _ _ entries, h => by
    rw [WellFormed] at h
    rw [Supported, decoded]
    rcases decodedAll_cases entries h.2 with ⟨hsupported, jsons, hjsons⟩ | ⟨hnot, byte, hbyte⟩
    · exact .inl ⟨hsupported, _, by rw [hjsons]; rfl⟩
    · exact .inr ⟨hnot, byte, by rw [hbyte]; rfl⟩
  | .attributed _ _ _, _ => by
    rw [Supported, decoded]
    exact .inr ⟨id, 124, rfl⟩

theorem decodedAll_cases : ∀ values : List RespValue, AllWellFormed values →
    (AllSupported values ∧ ∃ jsons, decodedAll codecs values = .ok jsons) ∨
      (¬AllSupported values ∧ ∃ byte, decodedAll codecs values = .error (unsupported byte))
  | [], _ => by
    rw [AllSupported, decodedAll]
    exact .inl ⟨trivial, _, rfl⟩
  | value :: rest, h => by
    rw [AllWellFormed] at h
    rw [AllSupported, decodedAll]
    rcases decoded_cases value h.1 with ⟨hsupported, json, hjson⟩ | ⟨hnot, byte, hbyte⟩
    · rcases decodedAll_cases rest h.2 with ⟨hrest, jsons, hjsons⟩ | ⟨hnot, byte, hbyte⟩
      · exact .inl ⟨⟨hsupported, hrest⟩, _, by rw [hjson, hjsons]; rfl⟩
      · exact .inr ⟨fun h => hnot h.2, byte, by rw [hjson, hbyte]; rfl⟩
    · exact .inr ⟨fun h => hnot h.1, byte, by rw [hbyte]⟩

end

@[simp]
theorem isErrorValue_typed (type : String) (value : Json) :
    Redis.isErrorValue (typed type value) = decide (type = "error") := by
  simp [Redis.isErrorValue, typed, Json.get, Json.member?, Json.asStr]

theorem isErrorValue_binary (text : String) :
    Redis.isErrorValue (.obj [("base64", .str text), ("type", .str "binary")]) = false := by
  simp [Redis.isErrorValue, Json.get, Json.member?, Json.asStr]

/-- The driver sees an error only when its bytes are a text. -/
theorem isErrorValue_decoded {value : RespValue} {json : Json}
    (h : value.decoded codecs = .ok json) :
    Redis.isErrorValue json = true ↔ value.isError = true ∧ value.IsText := by
  cases value with
  | line kind text =>
    rw [decoded] at h
    rw [isError, IsText]
    · cases kind with
      | string | error =>
        cases h
        simp
      | null | boolean =>
        cases h
        simp [Redis.isErrorValue, Json.get]
      | integer =>
        rw [lineValue] at h
        split at h
        · cases h
          simp
        · cases h
      | double =>
        rw [lineValue] at h
        split at h
        · rename_i double _
          cases h
          cases double <;> simp [doubleJson, Redis.isErrorValue, Json.get]
        · cases h
      | bigNumber => cases h
    · intro _ _ _ hbulk
      cases hbulk
  | bulk kind length bytes =>
    rw [decoded] at h
    cases h
    rw [isError, IsText, bulkValue]
    cases fromUtf8 bytes with
    | none => simp [isErrorValue_binary]
    | some text => cases kind <;> simp
  | absent isArray =>
    rw [decoded] at h
    cases h
    simp [isError, Redis.isErrorValue, Json.get]
  | aggregate kind count entries =>
    rw [decoded] at h
    cases hall : decodedAll codecs entries with
    | error e => rw [hall] at h; cases h
    | ok values =>
      rw [hall] at h
      cases h
      rw [isErrorValue_typed, isError]
      by_cases hmap : kind = .map <;> simp [hmap]
  | attributed count attributes value =>
    rw [decoded] at h
    cases h

end Reading

/-! ## Lists of values -/

variable {values : List RespValue}

theorem allWellFormed_iff : AllWellFormed values ↔ ∀ value ∈ values, value.WellFormed := by
  induction values with
  | nil => exact ⟨fun _ _ hmem => (by cases hmem), fun _ => trivial⟩
  | cons value rest ih => rw [AllWellFormed, ih, List.forall_mem_cons]

theorem allSupported_iff : AllSupported values ↔ ∀ value ∈ values, value.Supported := by
  induction values with
  | nil => exact ⟨fun _ _ hmem => (by cases hmem), fun _ => trivial⟩
  | cons value rest ih => rw [AllSupported, ih, List.forall_mem_cons]

theorem encode_ne_nil (value : RespValue) : value.encode ≠ [] := by
  cases value <;> simp [encode]

end RespValue

end ApiVoy.Drivers
