/-
# UTF-8 bytes and lossy decoding

Text is decoded lossily where bytes arrive from outside: every maximal run of
bytes that starts a character without completing it becomes one replacement
character. Decoding is exact on whole characters. On pieces of a text it is
exact precisely when no piece starts inside a character, because every byte that
starts a character contributes at least one decoded character to its piece and a
piece that starts with a continuation byte contributes one more.
-/

import Mathlib.Data.List.Basic
import Mathlib.Tactic.SplitIfs

namespace ApiVoy.Foundation

/-- A property of the items of a list is decided item by item, also where all values of their type
could be listed. -/
instance (priority := high) decidableForallMem {α : Type} {p : α → Prop} [DecidablePred p]
    (items : List α) : Decidable (∀ item ∈ items, p item) :=
  List.decidableBAll p items

abbrev Bytes := List UInt8

/-- The UTF-8 encoding of a code point. -/
def encodeScalar (v : Nat) : Bytes :=
  if v < 0x80 then [.ofNat v]
  else if v < 0x800 then [.ofNat (0xC0 + v / 64), .ofNat (0x80 + v % 64)]
  else if v < 0x10000 then
    [.ofNat (0xE0 + v / 4096), .ofNat (0x80 + v / 64 % 64), .ofNat (0x80 + v % 64)]
  else
    [.ofNat (0xF0 + v / 262144), .ofNat (0x80 + v / 4096 % 64), .ofNat (0x80 + v / 64 % 64),
      .ofNat (0x80 + v % 64)]

/-- The UTF-8 encoding of one character. -/
def encodeChar (c : Char) : Bytes := encodeScalar c.toNat

/-- The UTF-8 encoding of a list of characters. -/
def encodeChars (cs : List Char) : Bytes := cs.flatMap encodeChar

def utf8 (text : String) : Bytes := encodeChars text.toList

/-- Is this a byte that continues a character? -/
def isContinuation (b : UInt8) : Bool := decide (0x80 ≤ b.toNat ∧ b.toNat ≤ 0xBF)

/-- May `b` be the second byte of a character that starts with `a`? Overlong
forms, surrogates and values beyond the last code point are excluded here. -/
def mayFollow (a b : UInt8) : Bool :=
  if a.toNat = 0xE0 then decide (0xA0 ≤ b.toNat ∧ b.toNat ≤ 0xBF)
  else if a.toNat = 0xED then decide (0x80 ≤ b.toNat ∧ b.toNat ≤ 0x9F)
  else if a.toNat = 0xF0 then decide (0x90 ≤ b.toNat ∧ b.toNat ≤ 0xBF)
  else if a.toNat = 0xF4 then decide (0x80 ≤ b.toNat ∧ b.toNat ≤ 0x8F)
  else isContinuation b

/-- How many bytes the character that starts with this byte takes; `0` when no
character starts with it. -/
def charWidth (a : UInt8) : Nat :=
  if a.toNat < 0x80 then 1
  else if a.toNat < 0xC2 then 0
  else if a.toNat < 0xE0 then 2
  else if a.toNat < 0xF0 then 3
  else if a.toNat < 0xF5 then 4
  else 0

/-- Split off at most `n` bytes that may continue a character: the first one by
the test given, the others as plain continuation bytes. -/
def takeTail : Nat → (UInt8 → Bool) → Bytes → Bytes × Bytes
  | 0, _, bytes => ([], bytes)
  | _, _, [] => ([], [])
  | n + 1, first, b :: rest =>
    if first b then
      let (taken, behind) := takeTail n isContinuation rest
      (b :: taken, behind)
    else ([], b :: rest)

/-- The bits the first byte of a character of this width contributes. -/
def leadBits (width a : Nat) : Nat :=
  if width = 1 then a else if width = 2 then a - 0xC0 else if width = 3 then a - 0xE0 else a - 0xF0

/-- The character of a complete byte sequence. -/
def assemble (a : UInt8) (tail : Bytes) : Char :=
  Char.ofNat (tail.foldl (fun bits b => bits * 64 + (b.toNat - 0x80))
    (leadBits (charWidth a) a.toNat))

def replacement : Char := Char.ofNat 0xFFFD

/-- The first decoded character of a byte string and the bytes behind it. An
incomplete character is consumed up to the byte that cannot continue it. -/
def decodeFirst (a : UInt8) (rest : Bytes) : Char × Bytes :=
  let split := takeTail (charWidth a - 1) (mayFollow a) rest
  (if split.1.length + 1 = charWidth a then assemble a split.1 else replacement, split.2)

/-- Decode at most `fuel` characters. -/
def decodeWithin : Nat → Bytes → List Char
  | 0, _ => []
  | _, [] => []
  | fuel + 1, a :: rest => (decodeFirst a rest).1 :: decodeWithin fuel (decodeFirst a rest).2

/-- Decode a byte string, replacing what is not UTF-8. -/
def decodeLossy (bytes : Bytes) : List Char := decodeWithin bytes.length bytes

/-- The text of a byte string, with replacement characters where it is not
UTF-8. -/
def fromUtf8Lossy (bytes : Bytes) : String := String.ofList (decodeLossy bytes)

def fromUtf8 (bytes : Bytes) : Option String :=
  if utf8 (fromUtf8Lossy bytes) = bytes then some (fromUtf8Lossy bytes) else none

/-! ## One decoding step -/

theorem isContinuation_of_mayFollow {a b : UInt8} (h : mayFollow a b = true) :
    isContinuation b = true := by
  unfold mayFollow at h
  unfold isContinuation at *
  split_ifs at h <;> simp only [decide_eq_true_eq] at * <;> omega

/-- The bytes split off continue a character, and they are followed by what was
left. -/
theorem takeTail_spec (n : Nat) (first : UInt8 → Bool) (bytes : Bytes)
    (hfirst : ∀ b, first b = true → isContinuation b = true) :
    bytes = (takeTail n first bytes).1 ++ (takeTail n first bytes).2 ∧
      (∀ b ∈ (takeTail n first bytes).1, isContinuation b = true) ∧
      (takeTail n first bytes).1.length ≤ n := by
  induction n generalizing first bytes with
  | zero => simp [takeTail]
  | succ n ih =>
    cases bytes with
    | nil => simp [takeTail]
    | cons b rest =>
      by_cases hb : first b = true
      · obtain ⟨hsplit, hall, hlength⟩ := ih isContinuation rest fun _ h => h
        simp only [takeTail, if_pos hb]
        refine ⟨by simp [← hsplit], ?_, by simpa using hlength⟩
        intro c hc
        rcases List.mem_cons.mp hc with rfl | hc
        · exact hfirst c hb
        · exact hall c hc
      · simp [takeTail, hb]

variable (a : UInt8)

/-- A decoding step consumes its first byte and some continuation bytes. -/
theorem decodeFirst_split (rest : Bytes) :
    rest = (takeTail (charWidth a - 1) (mayFollow a) rest).1 ++ (decodeFirst a rest).2 ∧
      ∀ b ∈ (takeTail (charWidth a - 1) (mayFollow a) rest).1, isContinuation b = true := by
  obtain ⟨hsplit, hall, -⟩ := takeTail_spec (charWidth a - 1) (mayFollow a) rest
    fun _ h => isContinuation_of_mayFollow h
  exact ⟨hsplit, hall⟩

theorem length_decodeFirst_le (rest : Bytes) : (decodeFirst a rest).2.length ≤ rest.length := by
  have h := congrArg List.length (decodeFirst_split a rest).1
  rw [List.length_append] at h
  omega

/-- More fuel than bytes changes nothing. -/
theorem decodeWithin_congr {fuel more : Nat} {bytes : Bytes}
    (hfuel : bytes.length ≤ fuel) (hmore : bytes.length ≤ more) :
    decodeWithin fuel bytes = decodeWithin more bytes := by
  induction fuel generalizing more bytes with
  | zero =>
    obtain rfl : bytes = [] := List.eq_nil_of_length_eq_zero (by omega)
    cases more <;> rfl
  | succ fuel ih =>
    cases bytes with
    | nil => cases more <;> rfl
    | cons a rest =>
      have hle := length_decodeFirst_le a rest
      simp only [List.length_cons] at hfuel hmore
      obtain ⟨more, rfl⟩ : ∃ m, more = m + 1 := ⟨more - 1, by omega⟩
      simp only [decodeWithin, List.cons.injEq, true_and]
      exact ih (by omega) (by omega)

@[simp]
theorem decodeLossy_nil : decodeLossy [] = [] := rfl

theorem decodeLossy_cons (rest : Bytes) :
    decodeLossy (a :: rest) = (decodeFirst a rest).1 :: decodeLossy (decodeFirst a rest).2 := by
  have hle := length_decodeFirst_le a rest
  simp only [decodeLossy, List.length_cons, decodeWithin, List.cons.injEq, true_and]
  exact decodeWithin_congr hle (Nat.le_refl _)

/-! ## Whole characters decode exactly -/

variable (c : Char)

theorem toNat_char_lt : c.toNat < 0xD800 ∨ (0xE000 ≤ c.toNat ∧ c.toNat < 0x110000) := by
  have h := c.valid
  simp only [UInt32.isValidChar, Nat.isValidChar] at h
  change c.val.toNat < _ ∨ _ ≤ c.val.toNat ∧ c.val.toNat < _
  omega

theorem decodeFirst_of_tail {a : UInt8} {tail t : Bytes} (hwidth : charWidth a = tail.length + 1)
    (htake : takeTail tail.length (mayFollow a) (tail ++ t) = (tail, t)) :
    decodeFirst a (tail ++ t) = (assemble a tail, t) := by
  simp [decodeFirst, hwidth, htake]

theorem toNat_ofNat_of_lt {n : Nat} (h : n < 256) : (UInt8.ofNat n).toNat = n :=
  UInt8.toNat_ofNat_of_lt (by simpa using h)

theorem isContinuation_ofNat {n : Nat} (h : n < 64) :
    isContinuation (UInt8.ofNat (0x80 + n)) = true := by
  unfold isContinuation
  rw [toNat_ofNat_of_lt (by omega)]
  simp only [decide_eq_true_eq]
  omega

/-- Decoding starts with the character the bytes start with. -/
theorem decodeFirst_encodeScalar {v : Nat}
    (hvalid : v < 0xD800 ∨ (0xE000 ≤ v ∧ v < 0x110000)) (t : Bytes) :
    ∃ a tail, encodeScalar v = a :: tail ∧ (∀ b ∈ tail, isContinuation b = true) ∧
      isContinuation a = false ∧ decodeFirst a (tail ++ t) = (Char.ofNat v, t) := by
  unfold encodeScalar
  split_ifs with h₁ h₂ h₃
  · have ha : (UInt8.ofNat v).toNat = v := toNat_ofNat_of_lt (by omega)
    have hwidth : charWidth (UInt8.ofNat v) = 1 := by simp [charWidth, ha, h₁]
    refine ⟨_, _, rfl, by simp, by simp [isContinuation, ha]; omega, ?_⟩
    rw [decodeFirst_of_tail (by simpa using hwidth) (by simp [takeTail])]
    simp [assemble, leadBits, hwidth, ha]
  · have ha : (UInt8.ofNat (0xC0 + v / 64)).toNat = 0xC0 + v / 64 := toNat_ofNat_of_lt (by omega)
    have hb : (UInt8.ofNat (0x80 + v % 64)).toNat = 0x80 + v % 64 := toNat_ofNat_of_lt (by omega)
    have hcb : isContinuation (UInt8.ofNat (0x80 + v % 64)) = true :=
      isContinuation_ofNat (by omega)
    generalize UInt8.ofNat (0xC0 + v / 64) = a at *
    generalize UInt8.ofNat (0x80 + v % 64) = b at *
    have hwidth : charWidth a = 2 := by unfold charWidth; split_ifs <;> omega
    have hsecond : mayFollow a b = true := by
      unfold mayFollow
      split_ifs <;> first | exact hcb | omega
    refine ⟨_, _, rfl, by simp [hcb], by simp [isContinuation, ha]; omega, ?_⟩
    rw [decodeFirst_of_tail (by simpa using hwidth) (by simp [takeTail, hsecond])]
    have hbits : (a.toNat - 0xC0) * 64 + (b.toNat - 0x80) = v := by omega
    simp [assemble, leadBits, hwidth, hbits]
  · have ha : (UInt8.ofNat (0xE0 + v / 4096)).toNat = 0xE0 + v / 4096 :=
      toNat_ofNat_of_lt (by omega)
    have hb : (UInt8.ofNat (0x80 + v / 64 % 64)).toNat = 0x80 + v / 64 % 64 :=
      toNat_ofNat_of_lt (by omega)
    have hc : (UInt8.ofNat (0x80 + v % 64)).toNat = 0x80 + v % 64 := toNat_ofNat_of_lt (by omega)
    have hcb : isContinuation (UInt8.ofNat (0x80 + v / 64 % 64)) = true :=
      isContinuation_ofNat (by omega)
    have hcc : isContinuation (UInt8.ofNat (0x80 + v % 64)) = true :=
      isContinuation_ofNat (by omega)
    generalize UInt8.ofNat (0xE0 + v / 4096) = a at *
    generalize UInt8.ofNat (0x80 + v / 64 % 64) = b at *
    generalize UInt8.ofNat (0x80 + v % 64) = c at *
    have hwidth : charWidth a = 3 := by unfold charWidth; split_ifs <;> omega
    have hsecond : mayFollow a b = true := by
      unfold mayFollow
      split_ifs <;> first | exact hcb | (simp only [decide_eq_true_eq]; omega)
    refine ⟨_, _, rfl, by simp [hcb, hcc], by simp [isContinuation, ha]; omega, ?_⟩
    rw [decodeFirst_of_tail (by simpa using hwidth) (by simp [takeTail, hsecond, hcc])]
    have hbits : ((a.toNat - 0xE0) * 64 + (b.toNat - 0x80)) * 64 + (c.toNat - 0x80) = v := by
      omega
    simp [assemble, leadBits, hwidth, hbits]
  · have ha : (UInt8.ofNat (0xF0 + v / 262144)).toNat = 0xF0 + v / 262144 :=
      toNat_ofNat_of_lt (by omega)
    have hb : (UInt8.ofNat (0x80 + v / 4096 % 64)).toNat = 0x80 + v / 4096 % 64 :=
      toNat_ofNat_of_lt (by omega)
    have hc : (UInt8.ofNat (0x80 + v / 64 % 64)).toNat = 0x80 + v / 64 % 64 :=
      toNat_ofNat_of_lt (by omega)
    have hd : (UInt8.ofNat (0x80 + v % 64)).toNat = 0x80 + v % 64 := toNat_ofNat_of_lt (by omega)
    have hcb : isContinuation (UInt8.ofNat (0x80 + v / 4096 % 64)) = true :=
      isContinuation_ofNat (by omega)
    have hcc : isContinuation (UInt8.ofNat (0x80 + v / 64 % 64)) = true :=
      isContinuation_ofNat (by omega)
    have hcd : isContinuation (UInt8.ofNat (0x80 + v % 64)) = true :=
      isContinuation_ofNat (by omega)
    generalize UInt8.ofNat (0xF0 + v / 262144) = a at *
    generalize UInt8.ofNat (0x80 + v / 4096 % 64) = b at *
    generalize UInt8.ofNat (0x80 + v / 64 % 64) = c at *
    generalize UInt8.ofNat (0x80 + v % 64) = d at *
    have hwidth : charWidth a = 4 := by unfold charWidth; split_ifs <;> omega
    have hsecond : mayFollow a b = true := by
      unfold mayFollow
      split_ifs <;> first | exact hcb | (simp only [decide_eq_true_eq]; omega)
    refine ⟨_, _, rfl, by simp [hcb, hcc, hcd], by simp [isContinuation, ha]; omega, ?_⟩
    rw [decodeFirst_of_tail (by simpa using hwidth) (by simp [takeTail, hsecond, hcc, hcd])]
    have hbits : (((a.toNat - 0xF0) * 64 + (b.toNat - 0x80)) * 64 + (c.toNat - 0x80)) * 64
        + (d.toNat - 0x80) = v := by omega
    simp [assemble, leadBits, hwidth, hbits]

theorem decodeFirst_encodeChar (t : Bytes) :
    ∃ a tail, encodeChar c = a :: tail ∧ (∀ b ∈ tail, isContinuation b = true) ∧
      isContinuation a = false ∧ decodeFirst a (tail ++ t) = (c, t) := by
  obtain ⟨a, tail, h⟩ := decodeFirst_encodeScalar (toNat_char_lt c) t
  rw [Char.ofNat_toNat] at h
  exact ⟨a, tail, h⟩

@[simp]
theorem encodeChars_nil : encodeChars [] = [] := rfl

@[simp]
theorem encodeChars_cons (cs : List Char) :
    encodeChars (c :: cs) = encodeChar c ++ encodeChars cs := rfl

@[simp]
theorem encodeChars_append (cs ds : List Char) :
    encodeChars (cs ++ ds) = encodeChars cs ++ encodeChars ds := List.flatMap_append

variable (cs : List Char)

/-- Decoding keeps a prefix of whole characters and goes on behind it. -/
theorem decodeLossy_encodeChars_append (t : Bytes) :
    decodeLossy (encodeChars cs ++ t) = cs ++ decodeLossy t := by
  induction cs with
  | nil => rfl
  | cons c cs ih =>
    obtain ⟨a, tail, hencode, -, -, hfirst⟩ := decodeFirst_encodeChar c (encodeChars cs ++ t)
    rw [encodeChars_cons, hencode, List.append_assoc, List.cons_append, decodeLossy_cons,
      hfirst, ih, List.cons_append]

theorem decodeLossy_encodeChars : decodeLossy (encodeChars cs) = cs := by
  simpa using decodeLossy_encodeChars_append cs []

/-- What was encoded from a text decodes to that text. -/
@[simp]
theorem fromUtf8Lossy_utf8 (text : String) : fromUtf8Lossy (utf8 text) = text := by
  rw [fromUtf8Lossy, utf8, decodeLossy_encodeChars, String.ofList_toList]

/-- Different texts have different bytes. -/
@[simp]
theorem fromUtf8_utf8 (text : String) : fromUtf8 (utf8 text) = some text := by
  rw [fromUtf8, fromUtf8Lossy_utf8, if_pos rfl]

theorem utf8_append (s t : String) : utf8 (s ++ t) = utf8 s ++ utf8 t := by
  rw [utf8, String.toList_append, encodeChars_append]
  rfl

theorem utf8_injective : Function.Injective utf8 := fun s t h => by
  rw [← fromUtf8Lossy_utf8 s, h, fromUtf8Lossy_utf8]

def latin1 (bytes : Bytes) : String := String.ofList (bytes.map Char.ofUInt8)

theorem latin1_injective : Function.Injective latin1 := by
  have hchar : Function.Injective Char.ofUInt8 := by
    intro a b h
    have hval : a.toUInt32 = b.toUInt32 := congrArg Char.val h
    exact UInt8.toUInt32_inj.mp hval
  intro xs ys h
  exact List.map_injective_iff.mpr hchar (String.ofList_injective h)

/-! ## Pieces of a text -/

/-- Does a piece start in the middle of a character? -/
def startsInside (piece : Bytes) : Bool := piece.head?.any isContinuation

/-- The number of bytes that start a character. -/
def leads (bytes : Bytes) : Nat := bytes.countP fun b => !isContinuation b

theorem leads_append (xs ys : Bytes) : leads (xs ++ ys) = leads xs + leads ys :=
  List.countP_append

theorem leads_eq_zero {bytes : Bytes} (h : ∀ b ∈ bytes, isContinuation b = true) :
    leads bytes = 0 := by
  rw [leads, List.countP_eq_zero]
  intro b hb
  simp [h b hb]

theorem leads_encodeChars : leads (encodeChars cs) = cs.length := by
  induction cs with
  | nil => rfl
  | cons c cs ih =>
    obtain ⟨a, tail, hencode, htail, ha, -⟩ := decodeFirst_encodeChar c []
    have hlead : leads (a :: tail) = 1 := by
      rw [leads, List.countP_cons_of_pos (by simp [ha])]
      simpa [leads] using leads_eq_zero htail
    rw [encodeChars_cons, leads_append, hencode, hlead, ih, List.length_cons, Nat.add_comm]

/-- A text that is cut at a character is cut into two texts. -/
theorem encodeChars_cut {cs : List Char} {xs ys : Bytes} (h : encodeChars cs = xs ++ ys)
    (hys : startsInside ys = false) :
    ∃ before after, cs = before ++ after ∧ xs = encodeChars before ∧ ys = encodeChars after := by
  induction cs generalizing xs with
  | nil =>
    obtain ⟨rfl, rfl⟩ := List.append_eq_nil_iff.mp h.symm
    exact ⟨[], [], rfl, rfl, rfl⟩
  | cons c cs ih =>
    obtain ⟨a, tail, hencode, htail, -, -⟩ := decodeFirst_encodeChar c []
    rw [encodeChars_cons] at h
    rcases List.append_eq_append_iff.mp h with ⟨more, rfl, hcs⟩ | ⟨cut, hchar, rfl⟩
    · obtain ⟨before, after, rfl, rfl, rfl⟩ := ih hcs
      exact ⟨c :: before, after, rfl, (encodeChars_cons c before).symm, rfl⟩
    · -- The second part begins with bytes of the first character.
      cases cut with
      | nil => exact ⟨[c], cs, rfl, by simpa using hchar.symm, rfl⟩
      | cons b cut =>
        cases xs with
        | nil => exact ⟨[], c :: cs, rfl, rfl, by rw [encodeChars_cons, hchar]; rfl⟩
        | cons x xs =>
          rw [hencode, List.cons_append] at hchar
          have hb : isContinuation b = true := by
            refine htail b ?_
            rw [(List.cons.inj hchar).2]
            exact List.mem_append_right _ List.mem_cons_self
          rw [List.cons_append, startsInside, List.head?_cons, Option.any_some, hb] at hys
          cases hys

variable {pieces : List Bytes}

theorem startsInside_flatten (h : ∀ piece ∈ pieces, startsInside piece = false) :
    startsInside pieces.flatten = false := by
  induction pieces with
  | nil => rfl
  | cons piece pieces ih =>
    cases piece with
    | nil => exact ih fun piece hmem => h piece (List.mem_cons_of_mem _ hmem)
    | cons b piece => exact h (b :: piece) List.mem_cons_self

/-- Pieces that are cut at characters decode to the whole text. -/
theorem flatMap_decodeLossy {cs : List Char} (hwhole : pieces.flatten = encodeChars cs)
    (h : ∀ piece ∈ pieces, startsInside piece = false) : pieces.flatMap decodeLossy = cs := by
  induction pieces generalizing cs with
  | nil =>
    cases cs with
    | nil => rfl
    | cons c cs =>
      have hlength := congrArg leads hwhole
      rw [leads_encodeChars] at hlength
      cases hlength
  | cons piece pieces ih =>
    have hrest : ∀ piece ∈ pieces, startsInside piece = false := fun piece hmem =>
      h piece (List.mem_cons_of_mem _ hmem)
    rw [List.flatten_cons] at hwhole
    obtain ⟨before, after, rfl, rfl, hafter⟩ :=
      encodeChars_cut hwhole.symm (startsInside_flatten hrest)
    rw [List.flatMap_cons, decodeLossy_encodeChars, ih hafter hrest]

end ApiVoy.Foundation
