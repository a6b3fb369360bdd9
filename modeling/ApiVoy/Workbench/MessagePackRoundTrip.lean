/-
# Packed payloads are read back

What the encoder writes for a value of a script is read back as this value, by the specification
and by the decoder of TCP payloads, exactly when each text, array and object in it is short enough
for a length of two bytes and no text begins with a byte order mark. From the decoder alone all of
this follows, by induction on the value: a part that is too long leaves a shorter one behind.
-/

import ApiVoy.Foundation.Members
import ApiVoy.Workbench.MessagePackCodec

namespace ApiVoy.Workbench

open Foundation

namespace MessagePack

/-! ## Values -/

mutual

/-- The value of a script that a JSON value is. -/
def ofJson : Json → ScriptValue
  | .null => .null
  | .bool value => .bool value
  | .num value => .number (.finite value)
  | .str text => .text text
  | .arr items => .array (ofItems items)
  | .obj members => .object (ofMembers members)

def ofItems : List Json → List ScriptValue
  | [] => []
  | item :: items => ofJson item :: ofItems items

def ofMembers : List (String × Json) → List (String × ScriptValue)
  | [] => []
  | (name, value) :: members => (name, ofJson value) :: ofMembers members

end

/-- The numbers of a script are doubles, and its objects enumerate each name once. -/
def ScriptNode : Json → Prop
  | .num value => Double.IsDouble value
  | .obj members => Script.IsObject members
  | _ => True

def IsScriptValue (value : Json) : Prop := ∀ node ∈ nodes value, ScriptNode node

/-- The byte order mark. -/
def mark : Char := Char.ofNat 0xFEFF

/-- A text is short enough, and no byte order mark is in front of it. -/
def FitsText (text : String) : Prop := (utf8 text).length ≤ 65535 ∧ text.toList.head? ≠ some mark

def FitsNode : Json → Prop
  | .str text => FitsText text
  | .arr items => items.length ≤ 65535
  | .obj members => members.length ≤ 65535 ∧ ∀ member ∈ members, FitsText member.1
  | _ => True

/-- Everything in a value is short enough, and no text begins with a byte order mark. -/
def Fits (value : Json) : Prop := ∀ node ∈ nodes value, FitsNode node

theorem length_ofItems (items : List Json) : (ofItems items).length = items.length := by
  induction items with
  | nil => rfl
  | cons item items ih => rw [ofItems, List.length_cons, List.length_cons, ih]

variable (members : List (String × Json))

theorem ofMembers_eq_map :
    ofMembers members = members.map fun member => (member.1, ofJson member.2) := by
  induction members with
  | nil => rfl
  | cons member members ih =>
    obtain ⟨name, value⟩ := member
    rw [ofMembers, List.map_cons, ih]

theorem length_ofMembers : (ofMembers members).length = members.length := by
  rw [ofMembers_eq_map, List.length_map]

theorem isObject_ofMembers {members : List (String × Json)} (h : Script.IsObject members) :
    Script.IsObject (ofMembers members) := by
  rw [ofMembers_eq_map]
  exact h.map fun member => ofJson member.2

/-! ## Texts -/

variable {text : String}

theorem utf8_of_fromUtf8 {bytes : Bytes} (h : fromUtf8 bytes = some text) : utf8 text = bytes := by
  unfold fromUtf8 at h
  split at h
  · rename_i hbytes
    cases h
    exact hbytes
  · cases h

theorem length_of_decodeFatal {bytes : Bytes} (h : decodeFatal bytes = some text) :
    (utf8 text).length ≤ bytes.length := by
  unfold decodeFatal at h
  split at h
  · rw [utf8_of_fromUtf8 h, List.length_cons, List.length_cons, List.length_cons]
    omega
  · rw [utf8_of_fromUtf8 h]

/-- The bytes of the mark belong to no other character. -/
theorem eq_mark_of_encodeChar {c : Char} {behind rest : Bytes}
    (h : encodeChar c ++ behind = 0xEF :: 0xBB :: 0xBF :: rest) : c = mark := by
  have hbyte : ∀ {n : Nat} {byte : UInt8}, UInt8.ofNat n = byte → n % 256 = byte.toNat := by
    rintro n byte rfl
    exact UInt8.toNat_ofNat'.symm
  have hcode : c.toNat = 0xFEFF := by
    unfold encodeChar encodeScalar at h
    split at h
    · have hfirst := hbyte (List.cons.inj h).1
      have hvalue : (0xEF : UInt8).toNat = 0xEF := rfl
      omega
    · split at h
      · have hfirst := hbyte (List.cons.inj h).1
        have hvalue : (0xEF : UInt8).toNat = 0xEF := rfl
        omega
      · split at h
        · have hfirst := hbyte (List.cons.inj h).1
          have hsecond := hbyte (List.cons.inj (List.cons.inj h).2).1
          have hthird := hbyte (List.cons.inj (List.cons.inj (List.cons.inj h).2).2).1
          have hvalues : (0xEF : UInt8).toNat = 0xEF ∧ (0xBB : UInt8).toNat = 0xBB ∧
              (0xBF : UInt8).toNat = 0xBF := ⟨rfl, rfl, rfl⟩
          omega
        · have hfirst := hbyte (List.cons.inj h).1
          have hvalue : (0xEF : UInt8).toNat = 0xEF := rfl
          have hbound : c.toNat < 0x110000 := by
            have hvalid := c.valid
            simp only [UInt32.isValidChar, Nat.isValidChar] at hvalid
            have hsame : c.toNat = c.val.toNat := rfl
            omega
          omega
  rw [mark, ← hcode, Char.ofNat_toNat]

theorem decodeFatal_utf8 (h : text.toList.head? ≠ some mark) :
    decodeFatal (utf8 text) = some text := by
  unfold decodeFatal
  split
  · rename_i rest hbytes
    exfalso
    unfold utf8 at hbytes
    cases hchars : text.toList with
    | nil =>
      rw [hchars] at hbytes
      cases hbytes
    | cons c cs =>
      rw [hchars, encodeChars_cons] at hbytes
      rw [hchars, List.head?_cons, eq_mark_of_encodeChar hbytes] at h
      exact h rfl
  · exact fromUtf8_utf8 text

/-- A text that is read back has no mark in front of it. -/
theorem head_of_decodeFatal (h : decodeFatal (utf8 text) = some text) :
    text.toList.head? ≠ some mark := by
  intro hmark
  obtain ⟨cs, hchars⟩ : ∃ cs, text.toList = mark :: cs := by
    cases hlist : text.toList with
    | nil => rw [hlist] at hmark; cases hmark
    | cons c cs =>
      rw [hlist] at hmark
      exact ⟨cs, by rw [Option.some.inj hmark]⟩
  have hbytes : utf8 text = 0xEF :: 0xBB :: 0xBF :: encodeChars cs := by
    rw [utf8, hchars, encodeChars_cons]
    rfl
  rw [hbytes] at h
  have hsame := utf8_of_fromUtf8 (show fromUtf8 (encodeChars cs) = some text from h)
  have hlength := congrArg List.length (hbytes.symm.trans hsame)
  rw [List.length_cons, List.length_cons, List.length_cons] at hlength
  omega

theorem arrayIndex_of_not_fits {name : String} (h : ¬FitsText name) :
    Script.arrayIndex name = none := by
  by_contra hindex
  obtain ⟨hlength, hdigits⟩ :=
    Script.digits_of_arrayIndex (Option.isSome_iff_ne_none.mpr hindex)
  refine h ⟨?_, ?_⟩
  · have hbytes : ∀ cs : List Char, (encodeChars cs).length ≤ 4 * cs.length := by
      intro cs
      induction cs with
      | nil => exact Nat.le_refl _
      | cons c cs ih =>
        have hchar : (encodeChar c).length ≤ 4 := by
          unfold encodeChar encodeScalar
          split_ifs <;> simp only [List.length_cons, List.length_nil] <;> omega
        rw [encodeChars_cons, List.length_append, List.length_cons]
        omega
    have hall := hbytes name.toList
    exact hall.trans (by omega)
  · intro hmark
    have hmem : mark ∈ name.toList := List.mem_of_mem_head? hmark
    have hdigit := hdigits _ hmem
    revert hdigit
    decide

/-! ## Exactly the values that fit -/

section Decoding

variable (platform : Script.Platform)

theorem supports_payloadReader : SupportsCommon (payloadReader platform) := decoderFormat_common

variable {platform}

/-- A text is read as a text, and as itself only when it fits. -/
theorem read_text_eq_ok {rounds : Nat} {text : String} {rest rest' : Bytes} {value : ScriptValue}
    (h : (payloadReader platform).read (rounds + 1) (encodeText text ++ rest) = .ok (value, rest')) :
    ∃ read, value = .text read ∧ (read = text → FitsText text ∧ rest' = rest) := by
  rw [read_text (supports_payloadReader platform)] at h
  obtain ⟨⟨field, behind⟩, htake, h⟩ := bind_eq_ok_iff.mp h
  obtain ⟨hfield, hbytes⟩ := Packed.take_eq_ok htake
  dsimp only at h
  cases hdecode : (payloadReader platform).decodeText field with
  | none =>
    rw [hdecode] at h
    cases h
  | some read =>
    rw [hdecode] at h
    cases h
    refine ⟨read, rfl, ?_⟩
    rintro rfl
    have hlength := length_of_decodeFatal hdecode
    have hsmall : (utf8 read).length ≤ 65535 := by
      by_contra hlarge
      have hless : (utf8 read).length % 65536 < 65536 := Nat.mod_lt _ (by decide)
      omega
    rw [Nat.mod_eq_of_lt (Nat.lt_succ_of_le hsmall)] at hfield
    obtain ⟨hsame, hbehind⟩ := List.append_inj hbytes hfield.symm
    rw [← hsame] at hdecode
    exact ⟨⟨hsmall, head_of_decodeFatal hdecode⟩, hbehind.symm⟩

/-- The entries of a map differ from the members of an object, and first in a value or in a name
that is no array index. -/
def Differs (platform : Script.Platform) (entries : List (ScriptValue × ScriptValue))
    (members : List (String × Json)) : Prop :=
  ∃ before name value after key item others, members = before ++ (name, value) :: after ∧
    entries.map (fun pair => (pair.1.toText platform, pair.2)) =
      ofMembers before ++ (key, item) :: others ∧
    ((key = name ∧ item ≠ ofJson value) ∨ (key ≠ name ∧ Script.arrayIndex name = none))

theorem Differs.cons {entries : List (ScriptValue × ScriptValue)} {members : List (String × Json)}
    {pair : ScriptValue × ScriptValue} {name : String} {value : Json}
    (hpair : (pair.1.toText platform, pair.2) = (name, ofJson value))
    (h : Differs platform entries members) :
    Differs platform (pair :: entries) ((name, value) :: members) := by
  obtain ⟨before, name', value', after, key, item, others, rfl, hentries, hdiffer⟩ := h
  refine ⟨(name, value) :: before, name', value', after, key, item, others, rfl, ?_, hdiffer⟩
  rw [List.map_cons, hpair, hentries, ofMembers]
  rfl

theorem readableText_of_fits {text : String} (h : FitsText text) :
    ReadableText (payloadReader platform) text := ⟨h.1, decodeFatal_utf8 h.2⟩

theorem rest_of_readsAs {V : Type} {read : Bytes → Except Packed.ReadError (V × Bytes)}
    {bytes rest rest' : Bytes} {a b : V} (hreads : Packed.ReadsAs read bytes a)
    (h : read (bytes ++ rest) = .ok (b, rest')) : rest' = rest := by
  rw [hreads rest] at h
  cases h
  rfl

mutual

/-- A value that is read back from what the encoder writes for it fits. -/
theorem fits_of_read : ∀ (value : Json) (rounds : Nat) (rest rest' : Bytes),
    (∀ node ∈ nodes value, ScriptNode node) →
      (payloadReader platform).read rounds (encode value ++ rest) = .ok (ofJson value, rest') →
        (∀ node ∈ nodes value, FitsNode node) ∧ rest' = rest
  | value, 0, _, _, _, h => by cases h
  | .null, rounds + 1, _, _, _, h =>
    ⟨List.forall_mem_singleton.mpr trivial,
      rest_of_readsAs (readsAs_null (supports_payloadReader platform)) h⟩
  | .bool value, rounds + 1, _, _, _, h =>
    ⟨List.forall_mem_singleton.mpr trivial,
      rest_of_readsAs (readsAs_bool (supports_payloadReader platform) value) h⟩
  | .num q, rounds + 1, _, _, hnodes, h =>
    ⟨List.forall_mem_singleton.mpr trivial, rest_of_readsAs
      (readsAs_number (supports_payloadReader platform) (hnodes _ List.mem_cons_self)) h⟩
  | .str text, rounds + 1, rest, rest', _, h => by
    obtain ⟨read, hread, hfits⟩ := read_text_eq_ok h
    have hsame : read = text := by
      cases hread
      rfl
    exact ⟨List.forall_mem_singleton.mpr (hfits hsame).1, (hfits hsame).2⟩
  | .arr items, rounds + 1, rest, rest', hnodes, h => by
    obtain ⟨byte, head, length, hencode, hformat, hlength⟩ :=
      array_head (supports_payloadReader platform) items.length
    rw [encode, hencode, List.cons_append, List.cons_append, List.append_assoc,
      Packed.Reader.read_cons _ hformat, Packed.Reader.readFormat, hlength] at h
    change (Packed.readMany _ (items.length % 65536) (encodeItems items ++ rest) >>= _) = _ at h
    obtain ⟨⟨read, behind⟩, hmany, h⟩ := bind_eq_ok_iff.mp h
    have hread : read = ofItems items := by
      cases h
      rfl
    have hbehind : behind = rest' := by
      cases h
      rfl
    have hcount : items.length % 65536 = items.length := by
      rw [← Packed.readMany_length hmany, hread, length_ofItems]
    rw [hcount, hread, hbehind] at hmany
    have hsmall : items.length % 65536 < 65536 := Nat.mod_lt _ (by decide)
    obtain ⟨hitems, hrest⟩ := fits_of_readMany items rounds rest rest'
      (fun node hnode => hnodes node (List.mem_cons_of_mem _ hnode)) hmany
    have hfits : items.length ≤ 65535 := by omega
    exact ⟨List.forall_mem_cons.mpr ⟨hfits, hitems⟩, hrest⟩
  | .obj members, rounds + 1, rest, rest', hnodes, h => by
    obtain ⟨byte, head, length, hencode, hformat, hlength⟩ :=
      map_head (supports_payloadReader platform) members.length
    rw [encode, hencode, List.cons_append, List.cons_append, List.append_assoc,
      Packed.Reader.read_cons _ hformat, Packed.Reader.readFormat, hlength] at h
    change (Packed.readMany _ (members.length % 65536) (encodeMembers members ++ rest) >>= _) = _
      at h
    obtain ⟨⟨entries, behind⟩, hmany, h⟩ := bind_eq_ok_iff.mp h
    have hread : Script.fromEntries (entries.map fun pair => (pair.1.toText platform, pair.2)) =
        ofMembers members := ScriptValue.object.inj (Prod.ext_iff.mp (Except.ok.inj h)).1
    have hbehind : behind = rest' := (Prod.ext_iff.mp (Except.ok.inj h)).2
    have hentries := Packed.readMany_length hmany
    have hsmall : members.length % 65536 < 65536 := Nat.mod_lt _ (by decide)
    have hle : members.length ≤ members.length % 65536 := by
      have hfrom := Script.length_fromEntries_le
        (entries.map fun pair => (pair.1.toText platform, pair.2))
      rw [hread, length_ofMembers, List.length_map, hentries] at hfrom
      exact hfrom
    have hcount : members.length % 65536 = members.length := by omega
    rw [hcount, hbehind] at hmany
    rcases fits_of_readPairs members rounds rest rest' entries
      (fun node hnode => hnodes node (List.mem_cons_of_mem _ hnode)) hmany with
      ⟨hnames, hmembers, hrest⟩ | hdiffers
    · have hfits : members.length ≤ 65535 := by omega
      exact ⟨List.forall_mem_cons.mpr ⟨⟨hfits, hnames⟩, hmembers⟩, hrest⟩
    · obtain ⟨before, name, value, after, key, item, others, rfl, hfirst, hdiffer⟩ := hdiffers
      have hobject := isObject_ofMembers (hnodes (.obj _) List.mem_cons_self)
      rw [hfirst] at hread
      have hnames : ofMembers (before ++ (name, value) :: after) =
          ofMembers before ++ (name, ofJson value) :: ofMembers after := by
        simp only [ofMembers_eq_map, List.map_append, List.map_cons]
      rw [hnames] at hread hobject
      have hcountOthers : others.length = (ofMembers after).length := by
        have hall := congrArg List.length hfirst
        rw [List.length_map, hentries, hcount, List.length_append, List.length_append,
          List.length_cons, List.length_cons, length_ofMembers] at hall
        rw [length_ofMembers]
        omega
      exact absurd hread (Script.fromEntries_ne hobject hcountOthers hdiffer)

theorem fits_of_readMany : ∀ (items : List Json) (rounds : Nat) (rest rest' : Bytes),
    (∀ node ∈ itemNodes items, ScriptNode node) →
      Packed.readMany ((payloadReader platform).read rounds) items.length
          (encodeItems items ++ rest) = .ok (ofItems items, rest') →
        (∀ node ∈ itemNodes items, FitsNode node) ∧ rest' = rest
  | [], _, rest, rest', _, h => by
    cases h
    exact ⟨fun _ hnode => (by cases hnode), rfl⟩
  | item :: items, rounds, rest, rest', hnodes, h => by
    rw [encodeItems, List.append_assoc, List.length_cons, Packed.readMany] at h
    obtain ⟨⟨first, behind⟩, hfirst, h⟩ := bind_eq_ok_iff.mp h
    obtain ⟨⟨others, behind'⟩, hothers, h⟩ := bind_eq_ok_iff.mp h
    have hsame : first = ofJson item ∧ others = ofItems items ∧ behind' = rest' := by
      cases h
      exact ⟨rfl, rfl, rfl⟩
    obtain ⟨rfl, rfl, rfl⟩ := hsame
    obtain ⟨hitem, rfl⟩ := fits_of_read item rounds _ behind
      (fun node hnode => hnodes node (List.mem_append_left _ hnode)) hfirst
    obtain ⟨hitems, hrest⟩ := fits_of_readMany items rounds rest behind'
      (fun node hnode => hnodes node (List.mem_append_right _ hnode)) hothers
    exact ⟨fun node hnode => (List.mem_append.mp hnode).elim (hitem node) (hitems node), hrest⟩

theorem fits_of_readPairs : ∀ (members : List (String × Json)) (rounds : Nat)
    (rest rest' : Bytes) (entries : List (ScriptValue × ScriptValue)),
    (∀ node ∈ memberNodes members, ScriptNode node) →
      Packed.readMany (Packed.readPair ((payloadReader platform).read rounds)) members.length
          (encodeMembers members ++ rest) = .ok (entries, rest') →
        ((∀ member ∈ members, FitsText member.1) ∧
          (∀ node ∈ memberNodes members, FitsNode node) ∧ rest' = rest) ∨
        Differs platform entries members
  | [], _, rest, rest', entries, _, h => by
    cases h
    exact .inl ⟨fun _ hmember => (by cases hmember), fun _ hnode => (by cases hnode), rfl⟩
  | (name, value) :: members, 0, rest, rest', entries, _, h => by cases h
  | (name, value) :: members, rounds + 1, rest, rest', entries, hnodes, h => by
    rw [encodeMembers, List.append_assoc, List.append_assoc, List.length_cons,
      Packed.readMany] at h
    obtain ⟨⟨pair, behind⟩, hpair, h⟩ := bind_eq_ok_iff.mp h
    obtain ⟨⟨others, behind'⟩, hothers, h⟩ := bind_eq_ok_iff.mp h
    obtain ⟨⟨key, afterKey⟩, hkey, hpair⟩ := bind_eq_ok_iff.mp hpair
    obtain ⟨⟨item, afterItem⟩, hitem, hpair⟩ := bind_eq_ok_iff.mp hpair
    cases hpair
    cases h
    obtain ⟨read, rfl, hfits⟩ := read_text_eq_ok hkey
    have hentries : ((.text read, item) :: others : List (ScriptValue × ScriptValue)).map
        (fun pair => (pair.1.toText platform, pair.2)) = ofMembers [] ++ (read, item) ::
          others.map fun pair => (pair.1.toText platform, pair.2) := by
      rw [List.map_cons, ScriptValue.toText]
      rfl
    by_cases hread : read = name
    · obtain ⟨hname, rfl⟩ := hfits hread
      by_cases hvalue : item = ofJson value
      · rw [hvalue] at hitem
        obtain ⟨hvalueFits, rfl⟩ := fits_of_read value _ _ _
          (fun node hnode => hnodes node (List.mem_append_left _ hnode)) hitem
        rcases fits_of_readPairs members _ rest _ others
          (fun node hnode => hnodes node (List.mem_append_right _ hnode)) hothers with
          ⟨hnames, hmembers, hrest⟩ | hdiffers
        · refine .inl ⟨List.forall_mem_cons.mpr ⟨hname, hnames⟩, ?_, hrest⟩
          exact fun node hnode =>
            (List.mem_append.mp hnode).elim (hvalueFits node) (hmembers node)
        · refine .inr (hdiffers.cons ?_)
          rw [ScriptValue.toText, hread, hvalue]
      · exact .inr ⟨[], name, value, members, read, item, _, rfl, hentries, .inl ⟨hread, hvalue⟩⟩
    · have hunfit : ¬FitsText name := by
        intro hname
        have hreads : Packed.ReadsAs ((payloadReader platform).read (rounds + 1))
            (encodeText name) _ :=
          readsAs_text (supports_payloadReader platform) (readableText_of_fits hname)
        rw [hreads] at hkey
        cases hkey
        exact hread rfl
      exact .inr ⟨[], name, value, members, read, item, _, rfl, hentries,
        .inr ⟨hread, arrayIndex_of_not_fits hunfit⟩⟩

end

end Decoding

/-! ## The codec -/

mutual

/-- The item of the specification that a JSON value is. -/
def itemOf : Json → Packed.Item
  | .null => .nil
  | .bool value => .bool value
  | .num value => .number (.finite value)
  | .str text => .text text
  | .arr items => .array (itemsOf items)
  | .obj members => .map (pairsOf members)

def itemsOf : List Json → List Packed.Item
  | [] => []
  | item :: items => itemOf item :: itemsOf items

def pairsOf : List (String × Json) → List (Packed.Item × Packed.Item)
  | [] => []
  | (name, value) :: members => (.text name, itemOf value) :: pairsOf members

end

mutual

theorem shown_specification : ∀ value : Json, shown Packed.specification value = itemOf value
  | .null | .bool _ | .num _ | .str _ => rfl
  | .arr items => congrArg Packed.Item.array (shownItems_specification items)
  | .obj members => congrArg Packed.Item.map (shownPairs_specification members)

theorem shownItems_specification : ∀ items : List Json,
    shownItems Packed.specification items = itemsOf items
  | [] => rfl
  | item :: items => by
    rw [shownItems, itemsOf, shown_specification item, shownItems_specification items]

theorem shownPairs_specification : ∀ members : List (String × Json),
    shownPairs Packed.specification members = pairsOf members
  | [] => rfl
  | (name, value) :: members => by
    rw [shownPairs, pairsOf, shown_specification value, shownPairs_specification members]
    rfl

end

section Codec

variable (platform : Script.Platform)

mutual

theorem shown_payloadReader : ∀ value : Json, (∀ node ∈ nodes value, ScriptNode node) →
    shown (payloadReader platform) value = ofJson value
  | .null, _ | .bool _, _ | .num _, _ | .str _, _ => rfl
  | .arr items, hnodes => congrArg ScriptValue.array (shownItems_payloadReader items
      fun node hnode => hnodes node (List.mem_cons_of_mem _ hnode))
  | .obj members, hnodes => by
    have hpairs := shownPairs_payloadReader members
      fun node hnode => hnodes node (List.mem_cons_of_mem _ hnode)
    have hobject := isObject_ofMembers (hnodes (.obj members) List.mem_cons_self)
    change ScriptValue.object (Script.fromEntries _) = ScriptValue.object (ofMembers members)
    rw [hpairs, Script.fromEntries_of_isObject hobject]

theorem shownItems_payloadReader : ∀ items : List Json,
    (∀ node ∈ itemNodes items, ScriptNode node) →
      shownItems (payloadReader platform) items = ofItems items
  | [], _ => rfl
  | item :: items, hnodes => by
    rw [shownItems, ofItems, shown_payloadReader item fun node hnode =>
      hnodes node (List.mem_append_left _ hnode), shownItems_payloadReader items
      fun node hnode => hnodes node (List.mem_append_right _ hnode)]

theorem shownPairs_payloadReader : ∀ members : List (String × Json),
    (∀ node ∈ memberNodes members, ScriptNode node) →
      (shownPairs (payloadReader platform) members).map
        (fun pair => (pair.1.toText platform, pair.2)) = ofMembers members
  | [], _ => rfl
  | (name, value) :: members, hnodes => by
    rw [shownPairs, List.map_cons, ofMembers, shown_payloadReader value fun node hnode =>
      hnodes node (List.mem_append_left _ hnode), shownPairs_payloadReader members
      fun node hnode => hnodes node (List.mem_append_right _ hnode)]
    rfl

end

theorem readableText_specification {text : String} (h : FitsText text) :
    ReadableText Packed.specification text := by
  have hdecoder : Packed.specification.decodeText = fromUtf8 := rfl
  unfold ReadableText
  rw [hdecoder]
  exact ⟨h.left, fromUtf8_utf8 text⟩

variable {value : Json}

/-- What fits can be read by a reader of the texts that fit. -/
theorem readableNode_of_fits {V : Type} {R : Packed.Reader V}
    (htext : ∀ {text : String}, FitsText text → ReadableText R text)
    (hscript : IsScriptValue value) (hfits : Fits value) :
    ∀ node ∈ nodes value, ReadableNode R node := by
  intro node hnode
  have hfit := hfits node hnode
  cases node with
  | null | bool _ => trivial
  | num q => exact hscript _ hnode
  | str text => exact htext hfit
  | arr items => exact hfit
  | obj members => exact ⟨hfit.1, fun member hmember => htext (hfit.2 member hmember)⟩

theorem decode_encode (hscript : IsScriptValue value) (hfits : Fits value) :
    Packed.decode (encode value) = some (itemOf value) := by
  have hR : SupportsCommon Packed.specification := fun _ _ => rfl
  have hreads := readsAs_encode hR value _
    (readableNode_of_fits readableText_specification hscript hfits) (Nat.le_refl _) []
  rw [List.append_nil, shown_specification] at hreads
  rw [Packed.decode, hreads]

theorem decodeMessagePack_encode (hscript : IsScriptValue value) (hfits : Fits value) :
    decodeMessagePack platform (encode value) = .ok (ofJson value) := by
  have hreads := readsAs_encode (supports_payloadReader platform) value _
    (readableNode_of_fits readableText_of_fits hscript hfits) (Nat.le_refl _) []
  rw [List.append_nil, shown_payloadReader platform value hscript] at hreads
  rw [decodeMessagePack, hreads]

theorem fits_of_decodeMessagePack (hscript : IsScriptValue value)
    (h : decodeMessagePack platform (encode value) = .ok (ofJson value)) : Fits value := by
  unfold decodeMessagePack at h
  split at h
  · rename_i read hread
    cases h
    rw [← List.append_nil (encode value)] at hread
    exact (fits_of_read value _ [] [] hscript hread).1
  · cases h
  · cases h
  · cases h
  · cases h

/-- The encoder throws, or what it writes is decoded to the same value. -/
def RoundTrips (spreads : Nat → Bool) (value : Json) : Prop :=
  ∀ bytes, encodeMessagePack spreads value = some bytes →
    Packed.decode bytes = some (itemOf value) ∧
      decodeMessagePack platform bytes = .ok (ofJson value)

/-- A text in a value has more bytes than a call can pass as arguments. -/
def Overflows (spreads : Nat → Bool) (value : Json) : Prop :=
  ∃ text ∈ (nodes value).flatMap nodeTexts, spreads (utf8 text).length = false

/-- Values of scripts survive exactly when a text is too long for the engine, or everything is short
enough and no text begins with a byte order mark. -/
theorem roundTrips_iff (spreads : Nat → Bool) {value : Json} (hscript : IsScriptValue value) :
    RoundTrips platform spreads value ↔ Overflows spreads value ∨ Fits value := by
  unfold RoundTrips encodeMessagePack
  by_cases hall : ((nodes value).flatMap nodeTexts).all
      (fun text => spreads (utf8 text).length) = true
  · have hspread : ¬Overflows spreads value := by
      rintro ⟨text, htext, hlong⟩
      rw [List.all_eq_true.mp hall text htext] at hlong
      cases hlong
    rw [if_pos hall, or_iff_right hspread]
    constructor
    · intro h
      exact fits_of_decodeMessagePack platform hscript (h _ rfl).2
    · rintro hfits bytes ⟨⟩
      exact ⟨decode_encode hscript hfits, decodeMessagePack_encode platform hscript hfits⟩
  · have hlong : Overflows spreads value := by
      rw [Bool.not_eq_true, List.all_eq_false] at hall
      obtain ⟨text, htext, hlong⟩ := hall
      exact ⟨text, htext, Bool.not_eq_true _ |>.mp hlong⟩
    rw [if_neg hall]
    exact iff_of_true (fun bytes hbytes => by cases hbytes) (.inl hlong)

end Codec

def readings : Json := .obj [("values", .arr [.num 300, .null, .str "n/a"])]

theorem isScriptValue_readings : IsScriptValue readings := by
  have hdouble : Double.IsDouble 300 := ⟨Double.bits 300, by decide +kernel⟩
  have hobject : Script.IsObject [("values", Json.arr [.num 300, .null, .str "n/a"])] :=
    ⟨by decide, by decide +kernel⟩
  intro node hnode
  simp only [readings, nodes, memberNodes, itemNodes, List.append_nil, List.mem_cons,
    List.cons_append, List.nil_append, List.not_mem_nil, or_false] at hnode
  rcases hnode with rfl | rfl | rfl | rfl | rfl
  · exact hobject
  · trivial
  · exact hdouble
  · trivial
  · trivial

theorem fits_readings : Fits readings := by
  intro node hnode
  simp only [readings, nodes, memberNodes, itemNodes, List.append_nil, List.mem_cons,
    List.cons_append, List.nil_append, List.not_mem_nil, or_false] at hnode
  rcases hnode with rfl | rfl | rfl | rfl | rfl
  · exact ⟨by decide, List.forall_mem_singleton.mpr ⟨by decide, by decide⟩⟩
  · exact (by decide : 3 ≤ 65535)
  · trivial
  · trivial
  · exact ⟨by decide, by decide⟩

theorem roundTrips_readings : RoundTrips Script.Platform.ascii (fun _ => true) readings :=
  (roundTrips_iff Script.Platform.ascii (fun _ => true) isScriptValue_readings).mpr
    (.inr fits_readings)

/-- A text of this many equal letters. -/
def letters (n : Nat) : String := String.ofList (List.replicate n 'a')

theorem length_letters (n : Nat) : (utf8 (letters n)).length = n := by
  have hchars : (letters n).toList = List.replicate n 'a' := String.toList_ofList
  rw [utf8, hchars]
  induction n with
  | zero => rfl
  | succ n ih =>
    have hone : (encodeChar 'a').length = 1 := by decide
    have hrest : (letters n).toList = List.replicate n 'a' := String.toList_ofList
    rw [List.replicate_succ, encodeChars_cons, List.length_append, ih hrest, hone, Nat.add_comm]

/-- The length of a text with 65536 letters does not fit in the two bytes that are written. -/
theorem letters_not_roundTrips :
    ¬∀ (platform : Script.Platform) (spreads : Nat → Bool) (value : Json),
      IsScriptValue value → RoundTrips platform spreads value := by
  intro hall
  have hscript : IsScriptValue (.str (letters 65536)) := List.forall_mem_singleton.mpr trivial
  have hdecoded := (hall .ascii (fun _ => true) _ hscript _ (if_pos (by
    rw [List.all_eq_true]
    exact fun _ _ => rfl))).2
  have hfits := fits_of_decodeMessagePack .ascii hscript hdecoded _ List.mem_cons_self
  have hlength : (utf8 (letters 65536)).length ≤ 65535 := hfits.1
  rw [length_letters] at hlength
  omega

end MessagePack

end ApiVoy.Workbench
