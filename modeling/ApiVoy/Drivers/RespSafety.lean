/-
# RESP frames on a machine

The reader of frames as the machine runs it: sums and products are words, slices have bounds, the
values of an aggregate are allocated before they are read, and entries are read by calling the
reader again. The run is safe, and gives what the reader gives, exactly when no aggregate that is
reached announces more entries than bytes follow, and the frames are not nested deeper than the
stack allows.
-/

import ApiVoy.Drivers.Resp
import ApiVoy.Foundation.Metered

namespace ApiVoy.Drivers

open Foundation Domain Engine

/-! ## Runs -/

/-- Room for the values of an aggregate, and the bytes behind its line. -/
structure CapacityRequest where
  entries : Nat
  following : Nat
  deriving DecidableEq

/-- The input can justify room for as many values as it has bytes. -/
def CapacityRequest.Justified (request : CapacityRequest) : Prop :=
  request.entries ≤ request.following

abbrev RespRun (α : Type) := Metered CapacityRequest α

abbrev Frame := Except DriverError (Option (Json × Nat))

/-- The bytes that one value takes in a vector. -/
def valueSize : Nat := 32

/-- Allocate room for values, which faults when it cannot be addressed. -/
def withCapacity (input : Bytes) (cursor entries : Nat) : RespRun Unit := do
  Metered.request ⟨entries, input.length - cursor⟩
  if entries * valueSize ≤ Metered.maxBytes then pure () else Metered.fault .capacity

def lineRun (input : Bytes) (start : Nat) : RespRun (Option (Bytes × Nat)) :=
  if start ≤ input.length then
    match crlfOffset (input.drop start) with
    | none => pure none
    | some offset => do
      let stop ← Metered.add start offset
      let head ← Metered.slice input start stop
      let cursor ← Metered.add stop 2
      pure (some (head, cursor))
  else pure none

variable (codecs : Codecs)

def bulkRun (isError : Bool) (input : Bytes) (text : List Char) (cursor : Nat) : RespRun Frame :=
  match parseI64 text with
  | none => pure (.error (.protocol "invalid RESP bulk length"))
  | some length =>
    if length < 0 then pure (.ok (some (.null, cursor)))
    else do
      let stop ← Metered.add cursor length.toNat
      let behind ← Metered.add stop 2
      if input.length < behind then pure (.ok none)
      else
        let terminator ← Metered.slice input stop behind
        if terminator ≠ crlf then pure (.error (.protocol "invalid RESP bulk terminator"))
        else
          let bytes ← Metered.slice input cursor stop
          pure (.ok (some (bulkValue codecs isError bytes, behind)))

/-- Read a number of entries one behind the other, from a position on. -/
def entriesRun (parse : Bytes → RespRun Frame) (input : Bytes) :
    Nat → Nat → RespRun (Except DriverError (Option (List Json × Nat)))
  | 0, used => pure (.ok (some ([], used)))
  | entries + 1, used => do
    let following ← Metered.slice input used input.length
    match ← parse following with
    | .error e => pure (.error e)
    | .ok none => pure (.ok none)
    | .ok (some (value, size)) =>
      let used ← Metered.add used size
      match ← entriesRun parse input entries used with
      | .error e => pure (.error e)
      | .ok none => pure (.ok none)
      | .ok (some (values, used)) => pure (.ok (some (value :: values, used)))

def aggregateRun (parse : Bytes → RespRun Frame) (isMap : Bool) (input : Bytes) (text : List Char)
    (cursor : Nat) : RespRun Frame :=
  match parseI64 text with
  | none => pure (.error (.protocol "invalid RESP aggregate length"))
  | some count =>
    if count < 0 then pure (.ok (some (.null, cursor)))
    else do
      let entries ← Metered.mul count.toNat (if isMap = true then 2 else 1)
      withCapacity input cursor entries
      match ← entriesRun parse input entries cursor with
      | .error e => pure (.error e)
      | .ok none => pure (.ok none)
      | .ok (some (values, used)) =>
        pure (.ok (some (typed (if isMap = true then "map" else "array") (.arr values), used)))

/-- The run on one frame, when its entries are read by `parse`. -/
def frameRun (parse : Bytes → RespRun Frame) (input : Bytes) : RespRun Frame :=
  match input with
  | [] => pure (.ok none)
  | byte :: _ => do
    match ← lineRun input 1 with
    | none => pure (.ok none)
    | some (head, cursor) =>
      let text := decodeLossy head
      match RespKind.ofByte byte with
      | some .string => pure (.ok (some (typed "string" (.str (String.ofList text)), cursor)))
      | some .error => pure (.ok (some (typed "error" (.str (String.ofList text)), cursor)))
      | some .integer =>
        match parseI64 text with
        | some n => pure (.ok (some (typed "integer" (.num n), cursor)))
        | none => pure (.error (.protocol "invalid RESP integer"))
      | some (.bulk isError) => bulkRun codecs isError input text cursor
      | some .null => pure (.ok (some (.null, cursor)))
      | some .boolean => pure (.ok (some (.bool (decide (text = ['t'])), cursor)))
      | some .double =>
        match parseF64 text with
        | some double => pure (.ok (some (doubleJson double, cursor)))
        | none => pure (.error (.protocol "invalid RESP double"))
      | some (.aggregate isMap) => aggregateRun parse isMap input text cursor
      | none => pure (.error (.protocol ("unsupported RESP prefix 0x" ++ hexByte byte)))

/-- The run with room for a number of calls on the stack. -/
def parseFrameRun : Nat → Bytes → RespRun Frame
  | 0 => fun _ => .fault .stack
  | stack + 1 => frameRun codecs (parseFrameRun stack)

/-! ## Where frames begin -/

/-- A frame of an aggregate with a number of entries, and where they begin. -/
def Announces (input : Bytes) (entries cursor : Nat) : Prop :=
  ∃ byte rest isMap head count, input = byte :: rest ∧
    RespKind.ofByte byte = some (.aggregate isMap) ∧ line input 1 = some (head, cursor) ∧
      parseI64 (decodeLossy head) = some count ∧ 0 ≤ count ∧
        entries = count.toNat * if isMap = true then 2 else 1

/-- A frame begins at the beginning of the input, and behind the complete entries of an aggregate
that are in front of it; its depth is the number of these aggregates. -/
inductive Begins : Bytes → Nat → Bytes → Prop
  | here (input : Bytes) : Begins input 0 input
  | entry {input suffix : Bytes} {entries cursor before used depth : Nat} {values : List Json} :
      Announces input entries cursor → before < entries →
        parseEntries (parseFrame codecs) input before cursor = .ok (some (values, used)) →
          Begins (input.drop used) depth suffix → Begins input (depth + 1) suffix

/-- Every aggregate that is reached announces no more entries than bytes follow, and the nesting
fits on the stack. -/
def Modest (stack : Nat) (input : Bytes) : Prop :=
  ∀ depth suffix, Begins codecs input depth suffix →
    depth < stack ∧ ∀ entries cursor, Announces suffix entries cursor →
      entries ≤ suffix.length - cursor

/-! ## Safe parts -/

/-- The most bytes that are kept for one frame. -/
def maxInput : Nat := 64 * 1024 * 1024

variable {codecs}

theorem safe_lineRun_iff {input : Bytes} (hsize : input.length ≤ maxInput) (start : Nat)
    {found : Option (Bytes × Nat)} :
    Metered.Safe CapacityRequest.Justified (lineRun input start) found ↔
      found = line input start := by
  unfold lineRun line
  split
  · rename_i hstart
    cases hoffset : crlfOffset (input.drop start) with
    | none => exact Metered.safe_pure_iff
    | some offset =>
      have hlength := (crlfOffset_append hoffset []).2
      rw [List.length_drop] at hlength
      have hword : maxInput < Metered.wordSize := by decide
      have hstop : start + offset + 2 < Metered.wordSize := by omega
      simp only [Metered.safe_bind_iff, Metered.safe_add_iff, Metered.safe_slice_iff,
        Metered.safe_pure_iff, Option.map_some]
      constructor
      · rintro ⟨stop, ⟨rfl, _⟩, head, ⟨rfl, _⟩, cursor, ⟨rfl, _⟩, rfl⟩
        rw [Nat.add_sub_cancel_left]
      · rintro rfl
        refine ⟨_, ⟨rfl, by omega⟩, _, ⟨rfl, by omega, by omega⟩, _, ⟨rfl, hstop⟩, ?_⟩
        rw [Nat.add_sub_cancel_left]
  · exact Metered.safe_pure_iff

variable {text : List Char}

theorem toNat_lt_of_parseI64 {n : Int} (h : parseI64 text = some n) : n.toNat < 2 ^ 63 := by
  have hbound : ∀ {m : Option Nat} {f : Nat → Option Int},
      (∀ k, f k = some n → n.toNat < 2 ^ 63) → m.bind f = some n → n.toNat < 2 ^ 63 := by
    intro m f hf hbind
    obtain ⟨k, _, hk⟩ := Option.bind_eq_some_iff.mp hbind
    exact hf k hk
  unfold parseI64 at h
  split at h
  · refine hbound (fun k hk => ?_) h
    split at hk
    · cases hk
      omega
    · cases hk
  · refine hbound (fun k hk => ?_) h
    split at hk
    · cases hk
      omega
    · cases hk
  · refine hbound (fun k hk => ?_) h
    split at hk
    · cases hk
      omega
    · cases hk

/-- No length makes the reading of a bulk string fault. -/
theorem safe_bulkRun_iff {input : Bytes} (hsize : input.length ≤ maxInput) {isError : Bool}
    {cursor : Nat} (hcursor : cursor ≤ input.length) {frame : Frame} :
    Metered.Safe CapacityRequest.Justified (bulkRun codecs isError input text cursor) frame ↔
      frame = bulkFrame codecs isError input text cursor := by
  unfold bulkRun bulkFrame
  cases hlength : parseI64 text with
  | none => exact Metered.safe_pure_iff
  | some length =>
    have hbound := toNat_lt_of_parseI64 hlength
    have hroom : maxInput + 2 ^ 63 + 2 < Metered.wordSize := by decide
    have hstop : cursor + length.toNat < Metered.wordSize := by omega
    have hbehind : cursor + length.toNat + 2 < Metered.wordSize := by omega
    dsimp only
    split
    · exact Metered.safe_pure_iff
    · simp only [Metered.safe_bind_iff, Metered.safe_add_iff]
      constructor
      · rintro ⟨stop, ⟨rfl, _⟩, behind, ⟨rfl, _⟩, h⟩
        split at h
        · rename_i hshort
          rw [if_pos hshort]
          exact Metered.safe_pure_iff.mp h
        · rename_i hshort
          rw [if_neg hshort]
          simp only [Metered.safe_bind_iff, Metered.safe_slice_iff, Nat.add_sub_cancel_left] at h
          obtain ⟨terminator, ⟨rfl, _⟩, h⟩ := h
          split at h
          · rename_i hend
            rw [if_pos hend]
            exact Metered.safe_pure_iff.mp h
          · rename_i hend
            rw [if_neg hend]
            simp only [Metered.safe_bind_iff, Metered.safe_slice_iff,
              Nat.add_sub_cancel_left] at h
            obtain ⟨bytes, ⟨rfl, _⟩, h⟩ := h
            exact Metered.safe_pure_iff.mp h
      · rintro rfl
        refine ⟨_, ⟨rfl, hstop⟩, _, ⟨rfl, hbehind⟩, ?_⟩
        split
        · exact Metered.safe_pure_iff.mpr rfl
        · rename_i hshort
          rw [Metered.safe_bind_iff]
          refine ⟨_, Metered.safe_slice_iff.mpr ⟨rfl, by omega, by omega⟩, ?_⟩
          rw [Nat.add_sub_cancel_left]
          split
          · exact Metered.safe_pure_iff.mpr rfl
          · rw [Metered.safe_bind_iff]
            refine ⟨_, Metered.safe_slice_iff.mpr ⟨rfl, by omega, by omega⟩, ?_⟩
            rw [Nat.add_sub_cancel_left]
            exact Metered.safe_pure_iff.mpr rfl

/-! ## Entries -/

theorem parseEntries_succ_eq_some_iff {parse : RespParser} {input : Bytes}
    {entries cursor used : Nat} {values : List Json} :
    parseEntries parse input (entries + 1) cursor = .ok (some (values, used)) ↔
      ∃ value size more, parse (input.drop cursor) = .ok (some (value, size)) ∧
        parseEntries parse input entries (cursor + size) = .ok (some (more, used)) ∧
          values = value :: more := by
  rw [parseEntries]
  cases hparse : parse (input.drop cursor) with
  | error e => simp
  | ok found =>
    cases found with
    | none => simp
    | some frame =>
      obtain ⟨value, size⟩ := frame
      simp only [Except.ok.injEq, Option.some.injEq, Prod.mk.injEq]
      cases hmore : parseEntries parse input entries (cursor + size) with
      | error e => simp_all
      | ok found =>
        cases found with
        | none => simp_all
        | some frame =>
          obtain ⟨more, stop⟩ := frame
          simp only [Except.ok.injEq, Option.some.injEq, Prod.mk.injEq]
          constructor
          · rintro ⟨rfl, rfl⟩
            exact ⟨value, size, more, ⟨rfl, rfl⟩, by rw [hmore], rfl⟩
          · rintro ⟨value', size', more', ⟨rfl, rfl⟩, hmore', rfl⟩
            rw [hmore] at hmore'
            cases hmore'
            exact ⟨rfl, rfl⟩

/-- What has to be modest for the entries from a position on: whatever begins behind complete
entries. -/
def EntriesModest (codecs : Codecs) (modest : Bytes → Prop) (input : Bytes)
    (entries cursor : Nat) : Prop :=
  ∀ before values used, before < entries →
    parseEntries (parseFrame codecs) input before cursor = .ok (some (values, used)) →
      modest (input.drop used)

theorem entriesModest_succ_iff {modest : Bytes → Prop} {input : Bytes} {entries cursor : Nat} :
    EntriesModest codecs modest input (entries + 1) cursor ↔
      modest (input.drop cursor) ∧ ∀ value size,
        parseFrame codecs (input.drop cursor) = .ok (some (value, size)) →
          EntriesModest codecs modest input entries (cursor + size) := by
  constructor
  · intro h
    refine ⟨h 0 [] cursor (Nat.succ_pos _) rfl, ?_⟩
    intro value size hvalue before values used hlt hread
    exact h (before + 1) (value :: values) used (Nat.succ_lt_succ hlt)
      (parseEntries_succ_eq_some_iff.mpr ⟨value, size, values, hvalue, hread, rfl⟩)
  · rintro ⟨hfirst, hrest⟩ before values used hlt hread
    cases before with
    | zero =>
      cases hread
      exact hfirst
    | succ before =>
      obtain ⟨value, size, more, hvalue, hmore, rfl⟩ := parseEntries_succ_eq_some_iff.mp hread
      exact hrest value size hvalue before more used (Nat.lt_of_succ_lt_succ hlt) hmore

/-- Behind a part whose value is known, a run is safe when the rest is. -/
theorem safe_bind_of_known {α β : Type} {run : RespRun α} {next : α → RespRun β} {known : α}
    {p : Prop} {b : β} (h : ∀ a, Metered.Safe CapacityRequest.Justified run a ↔ a = known ∧ p) :
    Metered.Safe CapacityRequest.Justified (run >>= next) b ↔
      p ∧ Metered.Safe CapacityRequest.Justified (next known) b := by
  simp only [Metered.safe_bind_iff, h, and_assoc, exists_eq_left]

theorem safe_entriesRun_iff {parse : Bytes → RespRun Frame} {modest : Bytes → Prop} {input : Bytes}
    (hsize : input.length ≤ maxInput)
    (hparse : ∀ position frame,
      Metered.Safe CapacityRequest.Justified (parse (input.drop position)) frame ↔
        frame = parseFrame codecs (input.drop position) ∧ modest (input.drop position))
    {entries cursor : Nat} (hcursor : cursor ≤ input.length)
    {found : Except DriverError (Option (List Json × Nat))} :
    Metered.Safe CapacityRequest.Justified (entriesRun parse input entries cursor) found ↔
      found = parseEntries (parseFrame codecs) input entries cursor ∧
        EntriesModest codecs modest input entries cursor := by
  induction entries generalizing cursor found with
  | zero =>
    rw [entriesRun, Metered.safe_pure_iff]
    exact (and_iff_left fun _ _ _ hlt => absurd hlt (Nat.not_lt_zero _)).symm
  | succ entries ih =>
    have hslice : ∀ part : Bytes,
        Metered.Safe CapacityRequest.Justified (Metered.slice input cursor input.length) part ↔
          part = input.drop cursor ∧ True := by
      intro part
      rw [Metered.safe_slice_iff, and_iff_left ⟨hcursor, le_rfl⟩, and_true,
        List.take_of_length_le (by rw [List.length_drop])]
    rw [entriesRun, entriesModest_succ_iff, safe_bind_of_known hslice, true_and,
      safe_bind_of_known (hparse cursor), parseEntries]
    cases hfirst : parseFrame codecs (input.drop cursor) with
    | error e =>
      dsimp only
      rw [Metered.safe_pure_iff, and_comm]
      exact and_congr_right fun _ => (and_iff_left fun _ _ h => by cases h).symm
    | ok first =>
      cases first with
      | none =>
        dsimp only
        rw [Metered.safe_pure_iff, and_comm]
        exact and_congr_right fun _ => (and_iff_left fun _ _ h => by cases h).symm
      | some frame =>
        obtain ⟨value, size⟩ := frame
        have hused := (stable_parseFrame codecs).used_le hfirst
        rw [List.length_drop] at hused
        have hword : maxInput < Metered.wordSize := by decide
        have hadd : ∀ used : Nat,
            Metered.Safe CapacityRequest.Justified (Metered.add cursor size) used ↔
              used = cursor + size ∧ True := by
          intro used
          rw [Metered.safe_add_iff, and_iff_left (by omega), and_true]
        have hnext := fun found => @ih (cursor + size) (by omega) found
        have hframe : (∀ value' size', (Except.ok (some (value, size)) : Frame) =
            .ok (some (value', size')) →
              EntriesModest codecs modest input entries (cursor + size')) ↔
            EntriesModest codecs modest input entries (cursor + size) := by
          constructor
          · intro h
            exact h value size rfl
          · rintro h value' size' heq
            cases heq
            exact h
        dsimp only
        rw [safe_bind_of_known hadd, true_and, safe_bind_of_known hnext, hframe,
          ← and_assoc, and_comm]
        refine and_congr_left fun _ => ?_
        cases parseEntries (parseFrame codecs) input entries (cursor + size) with
        | error e => exact Metered.safe_pure_iff
        | ok found =>
          cases found with
          | none => exact Metered.safe_pure_iff
          | some more => exact Metered.safe_pure_iff

/-! ## Frames -/

/-- Room is fine exactly when it is justified: the input is too short to justify room that cannot
be addressed. -/
theorem safe_withCapacity_iff {input : Bytes} (hsize : input.length ≤ maxInput)
    (cursor entries : Nat) (value : Unit) :
    Metered.Safe CapacityRequest.Justified (withCapacity input cursor entries) value ↔
      value = () ∧ entries ≤ input.length - cursor := by
  have hroom : maxInput * valueSize ≤ Metered.maxBytes := by decide
  rw [withCapacity, Metered.safe_bind_iff]
  constructor
  · rintro ⟨_, hrequest, _⟩
    have hjustified : CapacityRequest.Justified ⟨entries, input.length - cursor⟩ :=
      Metered.safe_request_iff.mp hrequest
    exact ⟨rfl, hjustified⟩
  · rintro ⟨_, hentries⟩
    refine ⟨(), Metered.safe_request_iff.mpr hentries, ?_⟩
    have hbytes : entries * valueSize ≤ maxInput * valueSize :=
      Nat.mul_le_mul_right _ (by omega)
    rw [if_pos (le_trans hbytes hroom)]
    exact Metered.safe_pure_iff.mpr rfl

/-- What has to be modest for an aggregate with a number of entries. -/
def AggregateModest (codecs : Codecs) (modest : Bytes → Prop) (input : Bytes)
    (entries cursor : Nat) : Prop :=
  entries ≤ input.length - cursor ∧ EntriesModest codecs modest input entries cursor

section Steps

variable {parse : Bytes → RespRun Frame} {modest : Bytes → Prop} {input : Bytes}

theorem safe_aggregateRun_iff (hsize : input.length ≤ maxInput)
    (hparse : ∀ position frame,
      Metered.Safe CapacityRequest.Justified (parse (input.drop position)) frame ↔
        frame = parseFrame codecs (input.drop position) ∧ modest (input.drop position))
    {isMap : Bool} {text : List Char} {cursor : Nat}
    (hcursor : cursor ≤ input.length) {frame : Frame} :
    Metered.Safe CapacityRequest.Justified (aggregateRun parse isMap input text cursor) frame ↔
      frame = aggregateFrame (parseFrame codecs) isMap input text cursor ∧
        ∀ count, parseI64 text = some count → 0 ≤ count →
          AggregateModest codecs modest input (count.toNat * if isMap = true then 2 else 1)
            cursor := by
  unfold aggregateRun aggregateFrame
  cases hcount : parseI64 text with
  | none =>
    dsimp only
    rw [Metered.safe_pure_iff]
    exact (and_iff_left fun _ h => by cases h).symm
  | some count =>
    dsimp only
    split
    · rename_i hneg
      rw [Metered.safe_pure_iff]
      refine (and_iff_left fun other h hpos => ?_).symm
      cases h
      exact absurd hpos (not_le.mpr hneg)
    · rename_i hneg
      have hbound := toNat_lt_of_parseI64 hcount
      have hmul : ∀ entries : Nat, Metered.Safe CapacityRequest.Justified
          (Metered.mul count.toNat (if isMap = true then 2 else 1)) entries ↔
            entries = count.toNat * (if isMap = true then 2 else 1) ∧ True := by
        intro entries
        have hword : count.toNat * (if isMap = true then 2 else 1) < Metered.wordSize := by
          have hdouble : 2 ^ 63 * 2 = Metered.wordSize := by decide
          split <;> omega
        rw [Metered.safe_mul_iff, and_iff_left hword, and_true]
      have hentries : ∀ found, Metered.Safe CapacityRequest.Justified
          (entriesRun parse input (count.toNat * if isMap = true then 2 else 1) cursor) found ↔
            found = parseEntries (parseFrame codecs) input
              (count.toNat * if isMap = true then 2 else 1) cursor ∧
              EntriesModest codecs modest input
                (count.toNat * if isMap = true then 2 else 1) cursor :=
        fun _ => safe_entriesRun_iff hsize hparse hcursor
      have hmodest : (∀ other, some count = some other → 0 ≤ other →
          AggregateModest codecs modest input (other.toNat * if isMap = true then 2 else 1)
            cursor) ↔
          AggregateModest codecs modest input (count.toNat * if isMap = true then 2 else 1)
            cursor := by
        constructor
        · intro h
          exact h count rfl (not_lt.mp hneg)
        · rintro h other heq _
          cases heq
          exact h
      rw [safe_bind_of_known hmul, true_and,
        safe_bind_of_known (safe_withCapacity_iff hsize cursor _), safe_bind_of_known hentries,
        hmodest, AggregateModest, ← and_assoc, and_comm]
      refine and_congr_left fun _ => ?_
      cases parseEntries (parseFrame codecs) input
          (count.toNat * if isMap = true then 2 else 1) cursor with
      | error e => exact Metered.safe_pure_iff
      | ok found =>
        cases found with
        | none => exact Metered.safe_pure_iff
        | some more => exact Metered.safe_pure_iff

/-- One frame: the run gives what the reader gives, and only an aggregate asks for room. -/
theorem safe_frameRun_iff (hsize : input.length ≤ maxInput)
    (hparse : ∀ position frame,
      Metered.Safe CapacityRequest.Justified (parse (input.drop position)) frame ↔
        frame = parseFrame codecs (input.drop position) ∧ modest (input.drop position))
    {frame : Frame} :
    Metered.Safe CapacityRequest.Justified (frameRun codecs parse input) frame ↔
      frame = parseFrame codecs input ∧ ∀ entries cursor, Announces input entries cursor →
        AggregateModest codecs modest input entries cursor := by
  rw [parseFrame_eq]
  cases input with
  | nil =>
    rw [frameRun, Metered.safe_pure_iff]
    refine (and_iff_left ?_).symm
    rintro entries cursor ⟨byte, rest, _, _, _, hcons, _⟩
    cases hcons
  | cons byte rest =>
    have hline : ∀ found, Metered.Safe CapacityRequest.Justified
        (lineRun (byte :: rest) 1) found ↔ found = line (byte :: rest) 1 ∧ True :=
      fun found => (safe_lineRun_iff hsize 1).trans (and_true _).symm.to_iff
    rw [frameRun, safe_bind_of_known hline, true_and, frameStep]
    cases hfound : line (byte :: rest) 1 with
    | none =>
      dsimp only
      rw [Metered.safe_pure_iff]
      refine (and_iff_left ?_).symm
      rintro entries cursor ⟨_, _, _, _, _, hcons, _, hline, _⟩
      cases hcons
      rw [hfound] at hline
      cases hline
    | some found =>
      obtain ⟨head, cursor⟩ := found
      have hcursor := (line_append hfound []).2.2
      -- only an aggregate announces entries
      have hother : (∀ isMap, RespKind.ofByte byte ≠ some (.aggregate isMap)) →
          ∀ entries cursor, Announces (byte :: rest) entries cursor →
            AggregateModest codecs modest (byte :: rest) entries cursor := by
        rintro hkind entries cursor ⟨_, _, isMap, _, _, hcons, hbyte, _⟩
        cases hcons
        exact absurd hbyte (hkind isMap)
      dsimp only
      cases hkind : RespKind.ofByte byte with
      | none =>
        rw [Metered.safe_pure_iff]
        exact (and_iff_left (hother fun _ h => by rw [hkind] at h; cases h)).symm
      | some kind =>
        cases kind with
        | aggregate isMap =>
          refine (safe_aggregateRun_iff hsize hparse hcursor).trans
            (and_congr_right fun _ => ?_)
          constructor
          · rintro h entries cursor'
              ⟨_, _, isMap', head', count, hcons, hbyte, hline, hcount, hpos, rfl⟩
            cases hcons
            rw [hkind] at hbyte
            rw [hfound] at hline
            cases hbyte
            cases hline
            exact h count hcount hpos
          · intro h count hcount hpos
            exact h _ cursor
              ⟨byte, rest, isMap, head, count, rfl, hkind, hfound, hcount, hpos, rfl⟩
        | bulk isError =>
          refine (safe_bulkRun_iff hsize hcursor).trans ?_
          exact (and_iff_left (hother fun _ h => by rw [hkind] at h; cases h)).symm
        | integer =>
          refine Iff.trans ?_
            (and_iff_left (hother fun _ h => by rw [hkind] at h; cases h)).symm
          dsimp only
          cases parseI64 (decodeLossy head) with
          | none => exact Metered.safe_pure_iff
          | some n => exact Metered.safe_pure_iff
        | double =>
          refine Iff.trans ?_
            (and_iff_left (hother fun _ h => by rw [hkind] at h; cases h)).symm
          dsimp only
          cases parseF64 (decodeLossy head) with
          | none => exact Metered.safe_pure_iff
          | some double => exact Metered.safe_pure_iff
        | string | error | null | boolean =>
          refine Metered.safe_pure_iff.trans ?_
          exact (and_iff_left (hother fun _ h => by rw [hkind] at h; cases h)).symm

end Steps

/-! ## Any depth -/

theorem modest_succ_iff (codecs : Codecs) (stack : Nat) (input : Bytes) :
    Modest codecs (stack + 1) input ↔ ∀ entries cursor, Announces input entries cursor →
      AggregateModest codecs (Modest codecs stack) input entries cursor := by
  constructor
  · intro h entries cursor hannounces
    refine ⟨(h 0 input (.here input)).2 entries cursor hannounces, ?_⟩
    intro before values used hlt hread depth suffix hbegins
    obtain ⟨hdepth, hroom⟩ := h (depth + 1) suffix (.entry hannounces hlt hread hbegins)
    exact ⟨Nat.lt_of_succ_lt_succ hdepth, hroom⟩
  · intro h depth suffix hbegins
    cases hbegins with
    | here =>
      exact ⟨Nat.succ_pos stack, fun entries cursor hannounces =>
        (h entries cursor hannounces).1⟩
    | entry hannounces hlt hread hbegins =>
      obtain ⟨hdepth, hroom⟩ := (h _ _ hannounces).2 _ _ _ hlt hread _ _ hbegins
      exact ⟨Nat.succ_lt_succ hdepth, hroom⟩

/-- The run is safe exactly for modest inputs, and then gives what the reader gives. -/
theorem safe_parseFrameRun_iff (codecs : Codecs) (stack : Nat) {input : Bytes}
    (hsize : input.length ≤ maxInput) {frame : Frame} :
    Metered.Safe CapacityRequest.Justified (parseFrameRun codecs stack input) frame ↔
      frame = parseFrame codecs input ∧ Modest codecs stack input := by
  induction stack generalizing input frame with
  | zero =>
    refine iff_of_false Metered.safe_fault fun h => ?_
    exact Nat.not_lt_zero 0 (h.2 0 input (.here input)).1
  | succ stack ih =>
    rw [parseFrameRun, modest_succ_iff]
    refine safe_frameRun_iff hsize fun position frame => ih ?_
    rw [List.length_drop]
    omega

/-- A value, a wish for more, or a protocol error. -/
def IsAnswer {α : Type} : Except DriverError α → Prop
  | .ok _ => True
  | .error e => ∃ text, e = .protocol text

theorem isAnswer_bulkFrame (codecs : Codecs) (isError : Bool) (input : Bytes) (text : List Char)
    (cursor : Nat) : IsAnswer (bulkFrame codecs isError input text cursor) := by
  unfold bulkFrame
  split
  · exact ⟨_, rfl⟩
  · split
    · trivial
    · dsimp only
      split
      · trivial
      · split
        · exact ⟨_, rfl⟩
        · trivial

theorem isAnswer_parseEntries {parse : RespParser} (h : ∀ input, IsAnswer (parse input))
    (input : Bytes) (entries cursor : Nat) :
    IsAnswer (parseEntries parse input entries cursor) := by
  induction entries generalizing cursor with
  | zero => trivial
  | succ entries ih =>
    have hfirst := h (input.drop cursor)
    rw [parseEntries]
    cases hparse : parse (input.drop cursor) with
    | error e =>
      rw [hparse] at hfirst
      exact hfirst
    | ok found =>
      cases found with
      | none => trivial
      | some frame =>
        have hrest := ih (cursor + frame.2)
        dsimp only
        cases hmore : parseEntries parse input entries (cursor + frame.2) with
        | error e =>
          rw [hmore] at hrest
          exact hrest
        | ok found => cases found <;> trivial

theorem isAnswer_aggregateFrame {parse : RespParser} (h : ∀ input, IsAnswer (parse input))
    (isMap : Bool) (input : Bytes) (text : List Char) (cursor : Nat) :
    IsAnswer (aggregateFrame parse isMap input text cursor) := by
  unfold aggregateFrame
  split
  · exact ⟨_, rfl⟩
  · rename_i count _
    have hentries := isAnswer_parseEntries h input
      (count.toNat * if isMap = true then 2 else 1) cursor
    split
    · trivial
    · cases hmore : parseEntries parse input (count.toNat * if isMap = true then 2 else 1)
          cursor with
      | error e =>
        rw [hmore] at hentries
        exact hentries
      | ok found => cases found <;> trivial

theorem isAnswer_frameStep {parse : RespParser} (h : ∀ input, IsAnswer (parse input))
    (input : Bytes) : IsAnswer (frameStep codecs parse input) := by
  unfold frameStep
  split
  · trivial
  · split
    · trivial
    · dsimp only
      split
      · trivial
      · trivial
      · split
        · trivial
        · exact ⟨_, rfl⟩
      · exact isAnswer_bulkFrame codecs _ _ _ _
      · trivial
      · trivial
      · split
        · trivial
        · exact ⟨_, rfl⟩
      · exact isAnswer_aggregateFrame h _ _ _ _
      · exact ⟨_, rfl⟩

theorem isAnswer_parseFrame (codecs : Codecs) (input : Bytes) :
    IsAnswer (parseFrame codecs input) := by
  have hall : ∀ depth input, IsAnswer (parseFrameWithin codecs depth input) := by
    intro depth
    induction depth with
    | zero => exact fun _ => trivial
    | succ depth ih => exact isAnswer_frameStep ih
  exact hall _ _

/-- Reading a frame ends with an answer, and asks for no more room than the input justifies,
exactly when the input is modest. -/
theorem answers_iff_modest (codecs : Codecs) (stack : Nat) (input : Bytes)
    (hsize : input.length ≤ maxInput) :
    (∃ frame, IsAnswer frame ∧
      Metered.Safe CapacityRequest.Justified (parseFrameRun codecs stack input) frame) ↔
      Modest codecs stack input := by
  constructor
  · rintro ⟨frame, _, hsafe⟩
    exact ((safe_parseFrameRun_iff codecs stack hsize).mp hsafe).2
  · intro hmodest
    exact ⟨parseFrame codecs input, isAnswer_parseFrame codecs input,
      (safe_parseFrameRun_iff codecs stack hsize).mpr ⟨rfl, hmodest⟩⟩

/-- A map and an array with a text of two bytes, in an array. -/
def nestedReply : Bytes := utf8 "*2\r\n%1\r\n+a\r\n:1\r\n*1\r\n$2\r\nok\r\n"

/-- What is in the inner aggregates needs a third call on the stack. -/
theorem nestedReply_answers :
    Modest .unused 3 nestedReply ∧ ¬∃ frame, IsAnswer frame ∧ Metered.Safe
      CapacityRequest.Justified (parseFrameRun .unused 2 nestedReply) frame := by
  have hsize : nestedReply.length ≤ maxInput := by decide
  constructor
  · refine (answers_iff_modest .unused 3 nestedReply hsize).mp
      ⟨_, isAnswer_parseFrame .unused nestedReply, rfl, ?_⟩
    unfold CapacityRequest.Justified
    decide
  · rintro ⟨frame, -, houtcome, -⟩
    cases houtcome

/-- The line of an array with the largest count. -/
def hugeArray : Bytes := utf8 "*9223372036854775807\r\n"

theorem hugeArray_faults (codecs : Codecs) (stack : Nat) :
    (parseFrameRun codecs (stack + 1) hugeArray).outcome = .error .capacity := by
  rfl

/-- A line of 22 bytes makes the allocation of the values panic. -/
theorem hugeArray_no_answer :
    ∃ input : Bytes, input.length ≤ maxInput ∧ ∀ codecs stack, ¬∃ frame, IsAnswer frame ∧
      Metered.Safe CapacityRequest.Justified (parseFrameRun codecs stack input) frame := by
  refine ⟨hugeArray, by decide, fun codecs stack => ?_⟩
  rintro ⟨frame, _, hsafe⟩
  cases stack with
  | zero => exact Metered.safe_fault hsafe
  | succ stack =>
    have houtcome := hsafe.1
    rw [hugeArray_faults] at houtcome
    cases houtcome

end ApiVoy.Drivers
