/-
# Decoding a stream of bytes

A decoder that gets a text in pieces keeps the bytes of a character that is not complete, and
decodes them with the next piece. What comes out is the decoded whole, whatever the pieces are.
A byte order mark at the beginning is dropped.
-/

import ApiVoy.Foundation.Incremental
import ApiVoy.Foundation.Utf8

namespace ApiVoy.Foundation

/-! ## Complete characters -/

/-- Take the first character when more bytes would not change it. -/
def takeChar : FrameParser Empty UInt8 Char
  | [] => .ok none
  | a :: rest =>
    let split := takeTail (charWidth a - 1) (mayFollow a) rest
    if split.2 = [] ∧ split.1.length + 1 < charWidth a then .ok none
    else .ok (some ((decodeFirst a rest).1, split.1.length + 1))

/-- A tail that is full, or that a byte has ended, stays when more bytes come. -/
theorem takeTail_append {n : Nat} {first : UInt8 → Bool} {bytes : Bytes}
    (h : ¬((takeTail n first bytes).2 = [] ∧ (takeTail n first bytes).1.length < n))
    (more : Bytes) :
    takeTail n first (bytes ++ more) =
      ((takeTail n first bytes).1, (takeTail n first bytes).2 ++ more) := by
  induction n generalizing first bytes with
  | zero => rfl
  | succ n ih =>
    cases bytes with
    | nil => exact absurd ⟨rfl, Nat.succ_pos n⟩ h
    | cons b rest =>
      rw [takeTail] at h
      rw [List.cons_append, takeTail, takeTail]
      by_cases hb : first b = true
      · simp only [if_pos hb] at h ⊢
        have hrest : ¬((takeTail n isContinuation rest).2 = [] ∧
            (takeTail n isContinuation rest).1.length < n) := by
          rintro ⟨hnil, hlength⟩
          exact h ⟨hnil, by simpa using hlength⟩
        rw [ih hrest]
      · simp only [if_neg hb]
        rfl

theorem takeChar_cons (a : UInt8) (rest : Bytes) :
    takeChar (a :: rest) =
      if (takeTail (charWidth a - 1) (mayFollow a) rest).2 = [] ∧
          (takeTail (charWidth a - 1) (mayFollow a) rest).1.length + 1 < charWidth a then .ok none
      else .ok (some ((decodeFirst a rest).1,
        (takeTail (charWidth a - 1) (mayFollow a) rest).1.length + 1)) := rfl

theorem takeChar_eq_some {a : UInt8} {rest : Bytes} {c : Char} {used : Nat}
    (h : takeChar (a :: rest) = .ok (some (c, used))) :
    used = (takeTail (charWidth a - 1) (mayFollow a) rest).1.length + 1 := by
  rw [takeChar_cons] at h
  split at h
  · cases h
  · cases h
    rfl

theorem stable_takeChar : takeChar.Stable where
  used_pos := by
    intro bytes c used h
    cases bytes with
    | nil => cases h
    | cons a rest =>
      rw [takeChar_eq_some h]
      exact Nat.succ_pos _
  used_le := by
    intro bytes c used h
    cases bytes with
    | nil => cases h
    | cons a rest =>
      have hsplit := congrArg List.length (decodeFirst_split a rest).1
      rw [List.length_append] at hsplit
      rw [takeChar_eq_some h, List.length_cons]
      omega
  append := by
    intro bytes h more
    cases bytes with
    | nil => exact absurd rfl h
    | cons a rest =>
      have hcomplete : ¬((takeTail (charWidth a - 1) (mayFollow a) rest).2 = [] ∧
          (takeTail (charWidth a - 1) (mayFollow a) rest).1.length + 1 < charWidth a) := by
        intro hwaits
        exact h (by rw [takeChar_cons, if_pos hwaits])
      have hfull : ¬((takeTail (charWidth a - 1) (mayFollow a) rest).2 = [] ∧
          (takeTail (charWidth a - 1) (mayFollow a) rest).1.length < charWidth a - 1) :=
        fun ⟨hnil, hlength⟩ => hcomplete ⟨hnil, by omega⟩
      have htail := takeTail_append hfull more
      have hmore : ¬((takeTail (charWidth a - 1) (mayFollow a) rest).2 ++ more = [] ∧
          (takeTail (charWidth a - 1) (mayFollow a) rest).1.length + 1 < charWidth a) :=
        fun ⟨hnil, hlength⟩ => hcomplete ⟨(List.append_eq_nil_iff.mp hnil).1, hlength⟩
      rw [List.cons_append, takeChar_cons, takeChar_cons, htail, if_neg hmore,
        if_neg hcomplete, decodeFirst, decodeFirst, htail]

theorem takeChar_encodeChar (c : Char) (tail : Bytes) :
    takeChar (encodeChar c ++ tail) = .ok (some (c, (encodeChar c).length)) := by
  obtain ⟨a, more, hencode, -, -, hfirst⟩ := decodeFirst_encodeChar c tail
  have hsplit := (decodeFirst_split a (more ++ tail)).1
  rw [hfirst] at hsplit
  have htaken := List.append_cancel_right hsplit
  have hwidth : more.length + 1 = charWidth a := by
    by_contra hne
    -- Only the replacement character could come of an incomplete one, and it is complete.
    have hvalue := congrArg Prod.fst hfirst
    rw [decodeFirst, ← htaken] at hvalue
    simp only [if_neg hne] at hvalue
    subst hvalue
    have hbytes : encodeChar replacement = [0xEF, 0xBF, 0xBD] := by decide
    rw [hbytes] at hencode
    cases hencode
    exact hne (by decide)
  rw [hencode, List.cons_append, takeChar_cons, ← htaken, hfirst, if_neg (by omega)]
  rfl

/-- The characters of a text come out of its bytes, and no byte is left. -/
theorem drain_encodeChars (cs : List Char) : takeChar.drain (encodeChars cs) = ⟨cs, none, []⟩ := by
  have hdrained : takeChar.drain (cs.flatMap encodeChar ++ []) =
      (takeChar.drain []).behind (cs.map id) :=
    FrameParser.drain_encoded stable_takeChar (fun c _ tail => takeChar_encodeChar c tail) []
  rw [List.append_nil, List.map_id] at hdrained
  rw [encodeChars, hdrained, FrameParser.drain_of_none rfl, Drained.behind, List.append_nil]

theorem drain_char_error (bytes : Bytes) : (takeChar.drain bytes).error = none := by
  cases (takeChar.drain bytes).error with
  | none => rfl
  | some e => exact e.elim

/-! ## Decoders -/

def byteOrderMark : Char := Char.ofNat 0xFEFF

/-- A text without the byte order mark it begins with. -/
def dropMark (cs : List Char) : List Char := if cs.head? = some byteOrderMark then cs.tail else cs

theorem dropMark_append (c : Char) (cs ds : List Char) :
    dropMark (c :: cs ++ ds) = dropMark (c :: cs) ++ ds := by
  unfold dropMark
  by_cases hmark : some c = some byteOrderMark
  · exact (if_pos hmark).trans (congrArg (· ++ ds) (if_pos hmark).symm)
  · exact (if_neg hmark).trans (congrArg (· ++ ds) (if_neg hmark).symm)

/-- A `TextDecoder` between two calls with `stream: true`. -/
structure TextDecoder where
  pending : Bytes
  /-- Has a character come out? -/
  begun : Bool

namespace TextDecoder

def new : TextDecoder := ⟨[], false⟩

def decode (decoder : TextDecoder) (value : Bytes) : List Char × TextDecoder :=
  let drained := takeChar.drain (decoder.pending ++ value)
  (if decoder.begun then drained.values else dropMark drained.values,
    ⟨drained.rest, decoder.begun || !drained.values.isEmpty⟩)

/-- A decoder that these bytes have gone into. -/
def fed (bytes : Bytes) : TextDecoder where
  pending := (takeChar.drain bytes).rest
  begun := !(takeChar.drain bytes).values.isEmpty

/-- What has come out of it. -/
def output (bytes : Bytes) : List Char := dropMark (takeChar.drain bytes).values

/-- Some bytes and then others are the same as all of them at once. -/
theorem decode_fed (bytes value : Bytes) :
    (fed bytes).decode value = ((((fed bytes).decode value).1), fed (bytes ++ value)) ∧
      output (bytes ++ value) = output bytes ++ ((fed bytes).decode value).1 := by
  have hdrain := FrameParser.drain_append stable_takeChar (drain_char_error bytes) value
  unfold decode fed output
  rw [hdrain]
  unfold Drained.behind
  cases hvalues : (takeChar.drain bytes).values with
  | nil => exact ⟨rfl, rfl⟩
  | cons c cs => exact ⟨rfl, dropMark_append c cs _⟩

theorem output_encodeChars (cs : List Char) : output (encodeChars cs) = dropMark cs := by
  rw [output, drain_encodeChars]

end TextDecoder

end ApiVoy.Foundation
