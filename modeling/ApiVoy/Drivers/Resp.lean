/-
# RESP frames

Commands go to a Redis server as arrays of bulk strings, and the server answers with frames
of RESP2 and RESP3. A frame has a kind, a line, and for some kinds bytes or further frames
behind the line. The reader parses its buffer from the beginning after every read, so a
frame must not change when more of the stream arrives.
-/

import ApiVoy.Drivers.Session
import ApiVoy.Foundation.Incremental
import ApiVoy.Foundation.Numerals

namespace ApiVoy.Drivers

open Foundation Domain Engine

/-! ## Commands -/

def crlf : Bytes := [13, 10]

def encodeArgument (argument : String) : Bytes :=
  utf8 ("$" ++ toString (utf8 argument).length) ++ (crlf ++ (utf8 argument ++ crlf))

def encodeCommand (arguments : List String) : Bytes :=
  utf8 ("*" ++ toString arguments.length) ++ (crlf ++ arguments.flatMap encodeArgument)

/-! ## Frames -/

inductive RespKind where
  | string
  | error
  | integer
  | bulk (isError : Bool)
  | null
  | boolean
  | double
  | aggregate (isMap : Bool)
  deriving DecidableEq

/-- The kind that the first byte of a frame stands for. -/
def RespKind.ofByte (byte : UInt8) : Option RespKind :=
  match Char.ofUInt8 byte with
  | '+' => some .string
  | '-' => some .error
  | ':' => some .integer
  | '$' | '=' => some (.bulk false)
  | '!' => some (.bulk true)
  | '_' => some .null
  | '#' => some .boolean
  | ',' => some .double
  | '*' | '~' | '>' => some (.aggregate false)
  | '%' => some (.aggregate true)
  | _ => none

/-- Where the first line break is. -/
def crlfOffset : Bytes → Option Nat
  | [] => none
  | byte :: rest =>
    if byte = 13 ∧ rest.head? = some 10 then some 0 else (crlfOffset rest).map (· + 1)

/-- The line that starts at a position, and the position behind its line break. -/
def line (input : Bytes) (start : Nat) : Option (Bytes × Nat) :=
  if start ≤ input.length then
    (crlfOffset (input.drop start)).map fun offset =>
      ((input.drop start).take offset, start + offset + 2)
  else none

def typed (type : String) (value : Json) : Json := .obj [("type", .str type), ("value", value)]

/-- Two hexadecimal digits. -/
def hexByte (byte : UInt8) : String :=
  String.ofList [Nat.digitChar (byte.toNat / 16), Nat.digitChar (byte.toNat % 16)]

/-- The JSON number of a double; there is none for an infinity. -/
def doubleJson : Double → Json
  | .finite value => .num value
  | .nan | .infinite _ => .null

section Frames

variable (codecs : Codecs)

/-- The value of a bulk string: bytes that are no text are kept as Base64. -/
def bulkValue (isError : Bool) (bytes : Bytes) : Json :=
  match fromUtf8 bytes with
  | some text => typed (if isError = true then "error" else "bulk") (.str text)
  | none => .obj [("base64", .str (codecs.encodeBase64 bytes)), ("type", .str "binary")]

abbrev RespParser := FrameParser DriverError UInt8 Json

def bulkFrame (isError : Bool) (input : Bytes) (text : List Char) (cursor : Nat) :
    Except DriverError (Option (Json × Nat)) :=
  match parseI64 text with
  | none => .error (.protocol "invalid RESP bulk length")
  | some length =>
    if length < 0 then .ok (some (.null, cursor))
    else
      let stop := cursor + length.toNat
      if input.length < stop + 2 then .ok none
      else if (input.drop stop).take 2 ≠ crlf then
        .error (.protocol "invalid RESP bulk terminator")
      else .ok (some (bulkValue codecs isError ((input.drop cursor).take length.toNat), stop + 2))

/-- Parse a number of frames one behind the other, from a position on. -/
def parseEntries (parse : RespParser) (input : Bytes) :
    Nat → Nat → Except DriverError (Option (List Json × Nat))
  | 0, used => .ok (some ([], used))
  | entries + 1, used =>
    match parse (input.drop used) with
    | .error e => .error e
    | .ok none => .ok none
    | .ok (some (value, size)) =>
      match parseEntries parse input entries (used + size) with
      | .error e => .error e
      | .ok none => .ok none
      | .ok (some (values, used)) => .ok (some (value :: values, used))

def aggregateFrame (parse : RespParser) (isMap : Bool) (input : Bytes) (text : List Char)
    (cursor : Nat) : Except DriverError (Option (Json × Nat)) :=
  match parseI64 text with
  | none => .error (.protocol "invalid RESP aggregate length")
  | some count =>
    if count < 0 then .ok (some (.null, cursor))
    else
      match parseEntries parse input (count.toNat * if isMap = true then 2 else 1) cursor with
      | .error e => .error e
      | .ok none => .ok none
      | .ok (some (values, used)) =>
        .ok (some (typed (if isMap = true then "map" else "array") (.arr values), used))

/-- One frame, when its entries are parsed by `parse`. -/
def frameStep (parse : RespParser) (input : Bytes) : Except DriverError (Option (Json × Nat)) :=
  match input with
  | [] => .ok none
  | byte :: _ =>
    match line input 1 with
    | none => .ok none
    | some (head, cursor) =>
      let text := decodeLossy head
      match RespKind.ofByte byte with
      | some .string => .ok (some (typed "string" (.str (String.ofList text)), cursor))
      | some .error => .ok (some (typed "error" (.str (String.ofList text)), cursor))
      | some .integer =>
        match parseI64 text with
        | some n => .ok (some (typed "integer" (.num n), cursor))
        | none => .error (.protocol "invalid RESP integer")
      | some (.bulk isError) => bulkFrame codecs isError input text cursor
      | some .null => .ok (some (.null, cursor))
      | some .boolean => .ok (some (.bool (decide (text = ['t'])), cursor))
      | some .double =>
        match parseF64 text with
        | some double => .ok (some (doubleJson double, cursor))
        | none => .error (.protocol "invalid RESP double")
      | some (.aggregate isMap) => aggregateFrame parse isMap input text cursor
      | none => .error (.protocol ("unsupported RESP prefix 0x" ++ hexByte byte))

/-- Parse a frame whose entries are nested at most `depth` deep. -/
def parseFrameWithin : Nat → RespParser
  | 0 => fun _ => .ok none
  | depth + 1 => frameStep codecs (parseFrameWithin depth)

/-- Parse one frame. Every entry is shorter than its frame, so the depth suffices. -/
def parseFrame : RespParser := fun input => parseFrameWithin codecs (input.length + 1) input

end Frames

/-! ## More input -/

theorem crlfOffset_append {input : Bytes} {offset : Nat} (h : crlfOffset input = some offset)
    (more : Bytes) : crlfOffset (input ++ more) = some offset ∧ offset + 2 ≤ input.length := by
  induction input generalizing offset with
  | nil => cases h
  | cons byte rest ih =>
    rw [crlfOffset] at h
    rw [List.cons_append, crlfOffset, List.length_cons]
    split at h
    · rename_i hbreak
      cases h
      cases rest with
      | nil => cases hbreak.2
      | cons next rest =>
        rw [if_pos ⟨hbreak.1, by simpa using hbreak.2⟩, List.length_cons]
        exact ⟨rfl, by omega⟩
    · rename_i hbreak
      obtain ⟨before, hbefore, heq⟩ := Option.map_eq_some_iff.mp h
      have ⟨hmore, hlength⟩ := ih hbefore
      have hcons : ¬(byte = 13 ∧ (rest ++ more).head? = some 10) := by
        cases rest with
        | nil => cases hbefore
        | cons next rest => simpa using hbreak
      rw [if_neg hcons, hmore, Option.map_some, heq]
      exact ⟨rfl, by omega⟩

theorem line_append {input head : Bytes} {start cursor : Nat}
    (h : line input start = some (head, cursor)) (more : Bytes) :
    line (input ++ more) start = some (head, cursor) ∧ start + 2 ≤ cursor ∧
      cursor ≤ input.length := by
  rw [line, Option.ite_none_right_eq_some] at h
  obtain ⟨hstart, h⟩ := h
  obtain ⟨offset, hoffset, heq⟩ := Option.map_eq_some_iff.mp h
  cases heq
  have ⟨hmore, hlength⟩ := crlfOffset_append hoffset more
  have hdrop : (input ++ more).drop start = input.drop start ++ more :=
    List.drop_append_of_le_length hstart
  rw [List.length_drop] at hlength
  rw [line, if_pos (by rw [List.length_append]; omega), hdrop, hmore, Option.map_some,
    List.take_append_of_le_length (by rw [List.length_drop]; omega)]
  exact ⟨rfl, by omega, by omega⟩

section Stability

variable {codecs : Codecs} {parse : RespParser} {input : Bytes}

variable {text : List Char} {value : Json}

theorem bulkFrame_used {isError : Bool} {cursor used : Nat} (hcursor : cursor ≤ input.length)
    (h : bulkFrame codecs isError input text cursor = .ok (some (value, used))) :
    cursor ≤ used ∧ used ≤ input.length := by
  rw [bulkFrame] at h
  split at h
  · cases h
  · split at h
    · cases h
      exact ⟨Nat.le_refl _, hcursor⟩
    · simp only at h
      split at h
      · cases h
      · split at h
        · cases h
        · rename_i hlength _
          cases h
          exact ⟨by omega, by omega⟩

theorem bulkFrame_append {isError : Bool} {cursor : Nat} (hcursor : cursor ≤ input.length)
    (h : bulkFrame codecs isError input text cursor ≠ .ok none) (more : Bytes) :
    bulkFrame codecs isError (input ++ more) text cursor =
      bulkFrame codecs isError input text cursor := by
  rw [bulkFrame] at h ⊢
  rw [bulkFrame]
  cases hparse : parseI64 text with
  | none => rfl
  | some length =>
    rw [hparse] at h
    by_cases hneg : length < 0
    · simp only [hneg, if_true]
    · simp only [hneg, if_false] at h ⊢
      by_cases hshort : input.length < cursor + length.toNat + 2
      · rw [if_pos hshort] at h
        exact absurd rfl h
      · have hstop : (input ++ more).drop (cursor + length.toNat) =
            input.drop (cursor + length.toNat) ++ more :=
          List.drop_append_of_le_length (by omega)
        have hbody : (input ++ more).drop cursor = input.drop cursor ++ more :=
          List.drop_append_of_le_length hcursor
        have hdrop : (input.drop (cursor + length.toNat)).length =
            input.length - (cursor + length.toNat) := List.length_drop
        have hbodyLength : (input.drop cursor).length = input.length - cursor := List.length_drop
        have hlong : ¬(input ++ more).length < cursor + length.toNat + 2 := by
          rw [List.length_append]
          omega
        rw [if_neg hlong, if_neg hshort, hstop, hbody,
          List.take_append_of_le_length (by omega), List.take_append_of_le_length (by omega)]

theorem parseEntries_used (hstable : parse.Stable) {entries cursor used : Nat} {values : List Json} (hcursor : cursor ≤ input.length)
    (h : parseEntries parse input entries cursor = .ok (some (values, used))) :
    cursor ≤ used ∧ used ≤ input.length := by
  induction entries generalizing cursor values with
  | zero =>
    cases h
    exact ⟨Nat.le_refl _, hcursor⟩
  | succ entries ih =>
    rw [parseEntries] at h
    cases hparse : parse (input.drop cursor) with
    | error e => rw [hparse] at h; cases h
    | ok found =>
      cases found with
      | none => rw [hparse] at h; cases h
      | some frame =>
        obtain ⟨value, size⟩ := frame
        have hsize := hstable.used_le hparse
        rw [List.length_drop] at hsize
        simp only [hparse] at h
        split at h
        · cases h
        · cases h
        · rename_i hrest
          cases h
          have ⟨hle, hlength⟩ := ih (by omega) hrest
          exact ⟨by omega, hlength⟩

theorem parseEntries_append (hstable : parse.Stable) {entries cursor : Nat} (hcursor : cursor ≤ input.length)
    (h : parseEntries parse input entries cursor ≠ .ok none) (more : Bytes) :
    parseEntries parse (input ++ more) entries cursor =
      parseEntries parse input entries cursor := by
  induction entries generalizing cursor with
  | zero => rfl
  | succ entries ih =>
    rw [parseEntries] at h ⊢
    rw [parseEntries, List.drop_append_of_le_length hcursor]
    have hsettled : parse (input.drop cursor) ≠ .ok none := by
      intro hnone
      rw [hnone] at h
      exact h rfl
    rw [hstable.append hsettled more]
    cases hparse : parse (input.drop cursor) with
    | error e => rfl
    | ok found =>
      cases found with
      | none => exact absurd hparse hsettled
      | some frame =>
        obtain ⟨value, size⟩ := frame
        have hsize := hstable.used_le hparse
        rw [List.length_drop] at hsize
        simp only [hparse] at h ⊢
        have hrest : parseEntries parse input entries (cursor + size) ≠ .ok none := by
          intro hnone
          rw [hnone] at h
          exact h rfl
        rw [ih (by omega) hrest]

theorem aggregateFrame_used (hstable : parse.Stable) {isMap : Bool} {cursor used : Nat}
    (hcursor : cursor ≤ input.length)
    (h : aggregateFrame parse isMap input text cursor = .ok (some (value, used))) :
    cursor ≤ used ∧ used ≤ input.length := by
  rw [aggregateFrame] at h
  split at h
  · cases h
  · split at h
    · cases h
      exact ⟨Nat.le_refl _, hcursor⟩
    · split at h
      · cases h
      · cases h
      · rename_i hentries
        cases h
        exact parseEntries_used hstable hcursor hentries

theorem aggregateFrame_append (hstable : parse.Stable) {isMap : Bool} {cursor : Nat}
    (hcursor : cursor ≤ input.length) (h : aggregateFrame parse isMap input text cursor ≠ .ok none)
    (more : Bytes) :
    aggregateFrame parse isMap (input ++ more) text cursor =
      aggregateFrame parse isMap input text cursor := by
  rw [aggregateFrame] at h ⊢
  rw [aggregateFrame]
  cases hparse : parseI64 text with
  | none => rfl
  | some count =>
    rw [hparse] at h
    by_cases hneg : count < 0
    · simp only [hneg, if_true]
    · simp only [hneg, if_false] at h ⊢
      have hentries : parseEntries parse input (count.toNat * if isMap = true then 2 else 1)
          cursor ≠ .ok none := by
        intro hnone
        rw [hnone] at h
        exact h rfl
      rw [parseEntries_append hstable hcursor hentries more]

/-- A frame takes its line, and no more than there is. -/
theorem frameStep_used (hstable : parse.Stable) {used : Nat}
    (h : frameStep codecs parse input = .ok (some (value, used))) :
    0 < used ∧ used ≤ input.length := by
  cases input with
  | nil => cases h
  | cons byte rest =>
    rw [frameStep] at h
    cases hline : line (byte :: rest) 1 with
    | none => rw [hline] at h; cases h
    | some found =>
      obtain ⟨head, cursor⟩ := found
      have ⟨_, hstart, hcursor⟩ := line_append hline []
      have hline' : cursor ≤ cursor ∧ cursor ≤ (byte :: rest).length :=
        ⟨Nat.le_refl _, hcursor⟩
      have hused : cursor ≤ used ∧ used ≤ (byte :: rest).length := by
        simp only [hline] at h
        cases hkind : RespKind.ofByte byte with
        | none => rw [hkind] at h; cases h
        | some kind =>
          cases kind with
          | string | error | null | boolean =>
            rw [hkind] at h
            cases h
            exact hline'
          | integer =>
            simp only [hkind] at h
            split at h
            · cases h
              exact hline'
            · cases h
          | double =>
            simp only [hkind] at h
            split at h
            · cases h
              exact hline'
            · cases h
          | bulk isError =>
            rw [hkind] at h
            exact bulkFrame_used hcursor h
          | aggregate isMap =>
            rw [hkind] at h
            exact aggregateFrame_used hstable hcursor h
      exact ⟨by omega, hused.2⟩

theorem frameStep_append (hstable : parse.Stable) (h : frameStep codecs parse input ≠ .ok none)
    (more : Bytes) : frameStep codecs parse (input ++ more) = frameStep codecs parse input := by
  cases input with
  | nil => exact absurd rfl h
  | cons byte rest =>
    rw [frameStep] at h
    rw [List.cons_append, frameStep, frameStep]
    cases hline : line (byte :: rest) 1 with
    | none =>
      rw [hline] at h
      exact absurd rfl h
    | some found =>
      obtain ⟨head, cursor⟩ := found
      have ⟨hmore, _, hcursor⟩ := line_append hline more
      rw [List.cons_append] at hmore
      simp only [hline] at h
      simp only [hmore]
      cases hkind : RespKind.ofByte byte with
      | none => rfl
      | some kind =>
        cases kind with
        | string | error | null | boolean | integer | double => rfl
        | bulk isError =>
          rw [hkind] at h
          exact bulkFrame_append hcursor h more
        | aggregate isMap =>
          rw [hkind] at h
          exact aggregateFrame_append hstable hcursor h more

theorem stable_frameStep (hstable : parse.Stable) :
    FrameParser.Stable (frameStep codecs parse) where
  used_pos h := (frameStep_used hstable h).1
  used_le h := (frameStep_used hstable h).2
  append h more := frameStep_append hstable h more

theorem stable_parseFrameWithin (codecs : Codecs) (depth : Nat) :
    (parseFrameWithin codecs depth).Stable := by
  induction depth with
  | zero =>
    exact ⟨fun h => (by cases h), fun h => (by cases h), fun h => absurd rfl h⟩
  | succ depth ih => exact stable_frameStep ih

/-! ## Depth -/

/-- Entries behind a position are parsed alike by two parsers that agree there. -/
theorem parseEntries_congr {parse' : RespParser} {start : Nat}
    (hagree : ∀ position, start ≤ position → parse (input.drop position) = parse' (input.drop position))
    {entries cursor : Nat} (hcursor : start ≤ cursor) :
    parseEntries parse input entries cursor = parseEntries parse' input entries cursor := by
  induction entries generalizing cursor with
  | zero => rfl
  | succ entries ih =>
    rw [parseEntries, parseEntries, hagree cursor hcursor]
    cases parse' (input.drop cursor) with
    | error e => rfl
    | ok found =>
      cases found with
      | none => rfl
      | some frame => simp only [ih (Nat.le_add_right_of_le hcursor)]

theorem frameStep_congr {parse' : RespParser}
    (hagree : ∀ position, 3 ≤ position → parse (input.drop position) = parse' (input.drop position)) :
    frameStep codecs parse input = frameStep codecs parse' input := by
  cases input with
  | nil => rfl
  | cons byte rest =>
    rw [frameStep, frameStep]
    cases hline : line (byte :: rest) 1 with
    | none => rfl
    | some found =>
      obtain ⟨head, cursor⟩ := found
      have ⟨_, hstart, _⟩ := line_append hline []
      have hentries : ∀ entries, parseEntries parse (byte :: rest) entries cursor =
          parseEntries parse' (byte :: rest) entries cursor :=
        fun entries => parseEntries_congr hagree hstart
      simp only [aggregateFrame, hentries]

/-- A depth beyond the length of the input makes no difference. -/
theorem parseFrameWithin_eq (codecs : Codecs) {depth : Nat} (h : input.length < depth) :
    parseFrameWithin codecs depth input = parseFrame codecs input := by
  suffices hall : ∀ depth depth' : Nat, ∀ input : Bytes, input.length < depth →
      input.length < depth' →
      parseFrameWithin codecs depth input = parseFrameWithin codecs depth' input from
    hall depth (input.length + 1) input h (Nat.lt_succ_self _)
  intro depth
  induction depth with
  | zero => intro _ _ h; omega
  | succ depth ih =>
    intro depth' input hdepth hdepth'
    cases depth' with
    | zero => omega
    | succ depth' =>
      cases input with
      | nil => rfl
      | cons byte rest =>
        refine frameStep_congr fun position hposition => ?_
        rw [List.length_cons] at hdepth hdepth'
        have hlength : ((byte :: rest).drop position).length ≤ rest.length - 2 := by
          rw [List.length_drop, List.length_cons]
          omega
        exact ih depth' _ (by omega) (by omega)

/-- A frame is parsed by one step over its entries, which are parsed in the same way. -/
theorem parseFrame_eq (codecs : Codecs) (input : Bytes) :
    parseFrame codecs input = frameStep codecs (parseFrame codecs) input := by
  cases input with
  | nil => rfl
  | cons byte rest =>
    have hentries : ∀ position, 3 ≤ position →
        parseFrameWithin codecs (byte :: rest).length ((byte :: rest).drop position) =
          parseFrame codecs ((byte :: rest).drop position) := by
      intro position hposition
      apply parseFrameWithin_eq
      rw [List.length_drop, List.length_cons]
      omega
    exact frameStep_congr hentries

/-- Whatever arrives later, a frame that was there stays the same. -/
theorem stable_parseFrame (codecs : Codecs) : FrameParser.Stable (parseFrame codecs) where
  used_pos h := (stable_parseFrameWithin codecs _).used_pos h
  used_le h := (stable_parseFrameWithin codecs _).used_le h
  append := by
    intro input h more
    have hdepth : input.length < (input ++ more).length + 1 := by
      rw [List.length_append]
      omega
    rw [← parseFrameWithin_eq codecs hdepth] at h ⊢
    exact (stable_parseFrameWithin codecs _).append h more

end Stability

/-! ## Commands as frames -/

section RoundTrip

variable {codecs : Codecs}

variable {head tail : Bytes}

theorem crlfOffset_of_clear (hclear : (13 : UInt8) ∉ head) :
    crlfOffset (head ++ (crlf ++ tail)) = some head.length := by
  induction head with
  | nil => rfl
  | cons byte rest ih =>
    have hne : byte ≠ 13 := fun heq => hclear (by rw [heq]; exact List.mem_cons_self)
    have hrest : (13 : UInt8) ∉ rest := fun hmem => hclear (List.mem_cons_of_mem byte hmem)
    rw [List.cons_append, crlfOffset, if_neg fun h => hne h.1, ih hrest]
    rfl

variable {byte : UInt8}

/-- A line without a carriage return ends where it is closed. -/
theorem line_of_clear (hclear : (13 : UInt8) ∉ head) :
    line (byte :: (head ++ (crlf ++ tail))) 1 = some (head, head.length + 3) := by
  rw [line, if_pos (by rw [List.length_cons]; omega), List.drop_one, List.tail_cons,
    crlfOffset_of_clear hclear, Option.map_some, List.take_left]
  congr 2
  omega

theorem digits_clear {digits : List Char} (h : ∀ c ∈ digits, c.isDigit = true) :
    (13 : UInt8) ∉ encodeChars digits := by
  induction digits with
  | nil => exact List.not_mem_nil
  | cons c rest ih =>
    have hrest := ih fun d hd => h d (List.mem_cons_of_mem c hd)
    have hdigit : 48 ≤ c.toNat ∧ c.toNat ≤ 57 :=
      Char.isDigit_iff_toNat.mp (h c List.mem_cons_self)
    have hencode : encodeChar c = [UInt8.ofNat c.toNat] := by
      rw [encodeChar, encodeScalar, if_pos (by omega)]
    rw [encodeChars_cons, hencode]
    intro hmem
    rcases List.mem_append.mp hmem with hmem | hmem
    · have heq := congrArg UInt8.toNat (List.mem_singleton.mp hmem)
      rw [toNat_ofNat_of_lt (by omega)] at heq
      have hthirteen : (13 : UInt8).toNat = 13 := rfl
      omega
    · exact hrest hmem

theorem number_clear (n : Nat) : (13 : UInt8) ∉ utf8 (toString n) := by
  rw [utf8, Nat.toString_eq_repr, Nat.toList_repr]
  exact digits_clear fun c hc => Nat.isDigit_of_mem_toDigits (by decide) (by decide) hc

theorem parseI64_number {n : Nat} (h : n < 2 ^ 63) :
    parseI64 (decodeLossy (utf8 (toString n))) = some (n : Int) := by
  rw [utf8, decodeLossy_encodeChars, Nat.toString_eq_repr, Nat.toList_repr]
  exact parseI64_toDigits h

theorem encodeArgument_eq (argument : String) (tail : Bytes) :
    encodeArgument argument ++ tail =
      36 :: (utf8 (toString (utf8 argument).length) ++
        (crlf ++ (utf8 argument ++ (crlf ++ tail)))) := by
  rw [encodeArgument, utf8_append]
  simp only [List.append_assoc]
  rfl

theorem encodeCommand_eq (arguments : List String) (tail : Bytes) :
    encodeCommand arguments ++ tail =
      42 :: (utf8 (toString arguments.length) ++
        (crlf ++ (arguments.flatMap encodeArgument ++ tail))) := by
  rw [encodeCommand, utf8_append]
  simp only [List.append_assoc]
  rfl

/-- A bulk string whose length is right is read as a whole. -/
theorem parseFrame_bulk {isError : Bool} (hkind : RespKind.ofByte byte = some (.bulk isError))
    {length bytes : Bytes} (hclear : (13 : UInt8) ∉ length)
    (hparse : parseI64 (decodeLossy length) = some (bytes.length : Int)) (tail : Bytes) :
    parseFrame codecs (byte :: (length ++ (crlf ++ (bytes ++ (crlf ++ tail))))) =
      .ok (some (bulkValue codecs isError bytes, length.length + 3 + bytes.length + 2)) := by
  rw [parseFrame_eq, frameStep, line_of_clear hclear]
  have hinput : byte :: (length ++ (crlf ++ (bytes ++ (crlf ++ tail)))) =
      (byte :: (length ++ crlf)) ++ (bytes ++ (crlf ++ tail)) := by
    simp only [List.cons_append, List.append_assoc]
  have hhead : (byte :: (length ++ crlf)).length = length.length + 3 := by
    simp [crlf]
  have hbody : (byte :: (length ++ (crlf ++ (bytes ++ (crlf ++ tail))))).drop
      (length.length + 3) = bytes ++ (crlf ++ tail) := by
    rw [hinput, List.drop_left' hhead]
  have hstop : (byte :: (length ++ (crlf ++ (bytes ++ (crlf ++ tail))))).drop
      (length.length + 3 + bytes.length) = crlf ++ tail := by
    rw [← List.drop_drop, hbody, List.drop_left]
  have hlong : ¬(byte :: (length ++ (crlf ++ (bytes ++ (crlf ++ tail))))).length <
      length.length + 3 + bytes.length + 2 := by
    simp only [List.length_cons, List.length_append, crlf, List.length_nil]
    omega
  simp only [hkind, bulkFrame, hparse, Int.toNat_natCast, hlong, if_false, hstop, hbody,
    List.take_left]
  rw [if_neg (by omega), if_neg (by simp [crlf])]

/-- An aggregate is read by reading its entries. -/
theorem parseFrame_aggregate {isMap : Bool} (hkind : RespKind.ofByte byte = some (.aggregate isMap))
    {count : Bytes} {n : Nat} (hclear : (13 : UInt8) ∉ count)
    (hparse : parseI64 (decodeLossy count) = some (n : Int)) (rest : Bytes) :
    parseFrame codecs (byte :: (count ++ (crlf ++ rest))) =
      (parseEntries (parseFrame codecs) (byte :: (count ++ (crlf ++ rest)))
        (n * if isMap = true then 2 else 1) (count.length + 3)).map
          (Option.map fun found =>
            (typed (if isMap = true then "map" else "array") (.arr found.1), found.2)) := by
  rw [parseFrame_eq, frameStep, line_of_clear hclear]
  simp only [hkind, aggregateFrame, hparse, Int.toNat_natCast]
  rw [if_neg (by omega)]
  cases parseEntries (parseFrame codecs) (byte :: (count ++ (crlf ++ rest)))
      (n * if isMap = true then 2 else 1) (count.length + 3) with
  | error e => rfl
  | ok found => cases found <;> rfl

/-- The entries of an aggregate stand behind its line. -/
theorem drop_line {count : Bytes} (rest : Bytes) :
    (byte :: (count ++ (crlf ++ rest))).drop (count.length + 3) = rest := by
  have hinput : byte :: (count ++ (crlf ++ rest)) = (byte :: (count ++ crlf)) ++ rest := by
    simp only [List.cons_append, List.append_assoc]
  have hhead : (byte :: (count ++ crlf)).length = count.length + 3 := by
    simp [crlf]
  rw [hinput, List.drop_left' hhead]

/-- The value of an argument that is read back. -/
def argumentValue (argument : String) : Json :=
  .obj [("type", .str "bulk"), ("value", .str argument)]

/-- The value of a command that is read back. -/
def commandValue (arguments : List String) : Json :=
  .obj [("type", .str "array"), ("value", .arr (arguments.map argumentValue))]

theorem parseFrame_argument {argument : String} (h : (utf8 argument).length < 2 ^ 63)
    (tail : Bytes) :
    parseFrame codecs (encodeArgument argument ++ tail) =
      .ok (some (argumentValue argument, (encodeArgument argument).length)) := by
  have hlength : (encodeArgument argument).length =
      (utf8 (toString (utf8 argument).length)).length + 3 + (utf8 argument).length + 2 := by
    have happend := congrArg List.length (encodeArgument_eq argument [])
    simp only [List.length_append, List.length_cons, List.length_nil, crlf] at happend
    omega
  have hkind : RespKind.ofByte 36 = some (.bulk false) := by decide
  rw [hlength, encodeArgument_eq, parseFrame_bulk hkind (number_clear _) (parseI64_number h),
    bulkValue, fromUtf8_utf8]
  rfl

variable {arguments : List String}

theorem parseEntries_arguments (codecs : Codecs)
    (h : ∀ argument ∈ arguments, (utf8 argument).length < 2 ^ 63) {input tail : Bytes}
    {cursor : Nat} (hinput : input.drop cursor = arguments.flatMap encodeArgument ++ tail) :
    parseEntries (parseFrame codecs) input arguments.length cursor =
      .ok (some (arguments.map argumentValue,
        cursor + (arguments.flatMap encodeArgument).length)) := by
  induction arguments generalizing cursor with
  | nil => rfl
  | cons argument rest ih =>
    rw [List.flatMap_cons, List.append_assoc] at hinput
    have hrest : input.drop (cursor + (encodeArgument argument).length) =
        rest.flatMap encodeArgument ++ tail := by
      rw [← List.drop_drop, hinput, List.drop_left]
    have hparse := ih (fun argument' hmem => h argument' (List.mem_cons_of_mem argument hmem)) hrest
    rw [List.length_cons, parseEntries, hinput,
      parseFrame_argument (h argument List.mem_cons_self)]
    simp only [hparse, List.map_cons, List.flatMap_cons, List.length_append, Nat.add_assoc]

theorem parseFrame_command (hcount : arguments.length < 2 ^ 63)
    (h : ∀ argument ∈ arguments, (utf8 argument).length < 2 ^ 63) (tail : Bytes) :
    parseFrame codecs (encodeCommand arguments ++ tail) =
      .ok (some (commandValue arguments, (encodeCommand arguments).length)) := by
  have hlength : (encodeCommand arguments).length =
      (utf8 (toString arguments.length)).length + 3 +
        (arguments.flatMap encodeArgument).length := by
    have happend := congrArg List.length (encodeCommand_eq arguments [])
    simp only [List.length_append, List.length_cons, List.length_nil, crlf] at happend
    omega
  have hkind : RespKind.ofByte 42 = some (.aggregate false) := by decide
  have hentries : (arguments.length * if false = true then 2 else 1) = arguments.length :=
    Nat.mul_one _
  rw [hlength, encodeCommand_eq, parseFrame_aggregate hkind (number_clear _)
    (parseI64_number hcount), hentries, parseEntries_arguments codecs h (drop_line _)]
  rfl

end RoundTrip

/-- The lists and texts of a program have less than 2^63 entries and bytes. -/
def InMemory (commands : List (List String)) : Prop :=
  ∀ arguments ∈ commands, arguments.length < 2 ^ 63 ∧
    ∀ argument ∈ arguments, (utf8 argument).length < 2 ^ 63

/-- The commands are read back as arrays of their arguments, and nothing is left. -/
theorem resp_round_trip (codecs : Codecs) (commands : List (List String))
    (h : InMemory commands) :
    (parseFrame codecs).drain (commands.flatMap encodeCommand) =
      ⟨commands.map commandValue, none, []⟩ := by
  have hcommands := FrameParser.drain_encoded (stable_parseFrame codecs)
    (fun arguments hmem tail => parseFrame_command (h arguments hmem).1 (h arguments hmem).2 tail) []
  have hempty : (parseFrame codecs).drain [] = ⟨[], none, []⟩ := FrameParser.drain_of_none rfl
  rw [List.append_nil, hempty] at hcommands
  rw [hcommands, Drained.behind, List.append_nil]

/-- An argument may look like a frame. -/
theorem resp_round_trip_nested :
    (parseFrame Codecs.unused).drain ([["SET", "$3\r\n", ""], []].flatMap encodeCommand) =
      ⟨[.obj [("type", .str "array"), ("value", .arr
          [.obj [("type", .str "bulk"), ("value", .str "SET")],
            .obj [("type", .str "bulk"), ("value", .str "$3\r\n")],
            .obj [("type", .str "bulk"), ("value", .str "")]])],
        .obj [("type", .str "array"), ("value", .arr [])]], none, []⟩ :=
  resp_round_trip Codecs.unused [["SET", "$3\r\n", ""], []] (by
    intro arguments hmem
    have hshort : arguments.length ≤ 3 ∧ ∀ argument ∈ arguments, (utf8 argument).length ≤ 4 := by
      revert arguments
      decide
    exact ⟨by omega, fun argument h => by have := hshort.2 argument h; omega⟩)

end ApiVoy.Drivers
