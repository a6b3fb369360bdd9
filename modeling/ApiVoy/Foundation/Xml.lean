/-
# XML documents

A reader for documents of elements, attributes, character data and references, one character
after another with a stack of the elements that are open. Line ends become line feeds before
anything else is read, and white space in the value of an attribute becomes blanks. The
declaration is the one of version 1.0 in UTF-8; comments, CDATA sections, processing instructions
and document types are not read.
-/

import ApiVoy.Foundation.JsonText
import ApiVoy.Foundation.Numerals

namespace ApiVoy.Foundation

namespace Xml

/-! ## Characters -/

def inRanges (ranges : List (Nat × Nat)) (c : Char) : Bool :=
  ranges.any fun range => range.1 ≤ c.toNat && c.toNat ≤ range.2

/-- The characters that a document may have. -/
def isChar (c : Char) : Bool :=
  inRanges [(0x9, 0xA), (0xD, 0xD), (0x20, 0xD7FF), (0xE000, 0xFFFD), (0x10000, 0x10FFFF)] c

def isSpace (c : Char) : Bool := c = ' ' || c = '\t' || c = '\n' || c = '\r'

def isNameStart (c : Char) : Bool :=
  c = ':' || c = '_' || c.isAlpha ||
    inRanges [(0xC0, 0xD6), (0xD8, 0xF6), (0xF8, 0x2FF), (0x370, 0x37D), (0x37F, 0x1FFF),
      (0x200C, 0x200D), (0x2070, 0x218F), (0x2C00, 0x2FEF), (0x3001, 0xD7FF), (0xF900, 0xFDCF),
      (0xFDF0, 0xFFFD), (0x10000, 0xEFFFF)] c

def isNameChar (c : Char) : Bool :=
  isNameStart c || c = '-' || c = '.' || c.isDigit ||
    inRanges [(0xB7, 0xB7), (0x300, 0x36F), (0x203F, 0x2040)] c

/-- A carriage return is a line feed, together with a line feed behind it. -/
def normalizeLineEnds : List Char → List Char
  | [] => []
  | '\r' :: '\n' :: rest => '\n' :: normalizeLineEnds rest
  | '\r' :: rest => '\n' :: normalizeLineEnds rest
  | c :: rest => c :: normalizeLineEnds rest

/-- What the name or the number of a reference stands for. -/
def referenced (body : List Char) : Option Char :=
  let ofCode (code : Nat) : Option Char :=
    if code.isValidChar ∧ isChar (Char.ofNat code) then some (Char.ofNat code) else none
  match body with
  | ['l', 't'] => some '<'
  | ['g', 't'] => some '>'
  | ['a', 'm', 'p'] => some '&'
  | ['q', 'u', 'o', 't'] => some '"'
  | ['a', 'p', 'o', 's'] => some '\''
  | '#' :: 'x' :: digit :: digits =>
    ((digit :: digits).foldlM (fun code c => (JsonText.hexValue c).map (16 * code + ·)) 0).bind ofCode
  | '#' :: digits => (parseDigits digits).bind ofCode
  | _ => none

/-! ## Nodes -/

structure Tag where
  name : List Char
  attributes : List (List Char × List Char)

inductive Node where
  | text (content : List Char)
  | element (tag : Tag) (children : List Node)

namespace Node

/-- The value of an attribute. -/
def get (key : String) : Node → Option String
  | text _ => none
  | element tag _ => (tag.attributes.lookup key.toList).map String.ofList

def isNamed (name : String) : Node → Bool
  | text _ => false
  | element tag _ => tag.name = name.toList

def elements (name : String) : Node → List Node
  | text _ => []
  | element _ children => children.filter (isNamed name)

end Node

/-! ## Reading -/

inductive Mode where
  /-- Character data, and how many brackets it ends with. -/
  | content (text : List Char) (brackets : Nat)
  | reference (text body : List Char)
  | opened
  | name (name : List Char)
  | attributes (tag : Tag) (spaced : Bool)
  | key (tag : Tag) (key : List Char)
  | equals (tag : Tag) (key : List Char)
  | quote (tag : Tag) (key : List Char)
  | value (tag : Tag) (key : List Char) (delimiter : Char) (value : List Char)
  | valueReference (tag : Tag) (key : List Char) (delimiter : Char) (value body : List Char)
  | emptied (tag : Tag)
  | closing (name : List Char)
  | closed (name : List Char)

/-- The elements that are open with what they have so far, and the root once it is closed. -/
structure Reader where
  stack : List (Tag × List Node)
  root : Option Node
  mode : Mode

namespace Reader

def start : Reader := ⟨[], none, .content [] 0⟩

/-- A node goes to the element that is open, or it is the root. -/
def add (reader : Reader) (node : Node) : Option Reader :=
  match reader.stack, reader.root with
  | (tag, children) :: stack, root =>
    some ⟨(tag, children ++ [node]) :: stack, root, .content [] 0⟩
  | [], none => some ⟨[], some node, .content [] 0⟩
  | [], some _ => none

/-- Character data ends. Outside of the root it is white space. -/
def addText (reader : Reader) (text : List Char) : Option Reader :=
  if reader.stack = [] then
    if text.all isSpace = true then some reader else none
  else if text = [] then some reader
  else reader.add (.text text)

def close (reader : Reader) (name : List Char) : Option Reader :=
  match reader.stack with
  | (tag, children) :: stack =>
    if tag.name = name then { reader with stack := stack }.add (.element tag children) else none
  | [] => none

def goTo (reader : Reader) (mode : Mode) : Reader := { reader with mode := mode }

/-- What follows the name or an attribute in a tag. -/
def inTag (reader : Reader) (tag : Tag) (spaced : Bool) (c : Char) : Option Reader :=
  if c = '>' then some ⟨(tag, []) :: reader.stack, reader.root, .content [] 0⟩
  else if c = '/' then some (reader.goTo (.emptied tag))
  else if isSpace c then some (reader.goTo (.attributes tag true))
  else if spaced && isNameStart c then some (reader.goTo (.key tag [c]))
  else none

def step (reader : Reader) (c : Char) : Option Reader :=
  if isChar c = false then none
  else
    match reader.mode with
    | .content text brackets =>
      if c = '<' then (reader.addText text).map (·.goTo .opened)
      else if c = '&' then
        if reader.stack = [] then none else some (reader.goTo (.reference text []))
      else if c = '>' ∧ 2 ≤ brackets then none
      else some (reader.goTo (.content (text ++ [c]) (if c = ']' then brackets + 1 else 0)))
    | .reference text body =>
      if c = ';' then (referenced body).map fun d => reader.goTo (.content (text ++ [d]) 0)
      else some (reader.goTo (.reference text (body ++ [c])))
    | .opened =>
      if c = '/' then some (reader.goTo (.closing []))
      else if isNameStart c then some (reader.goTo (.name [c]))
      else none
    | .name name =>
      if isNameChar c then some (reader.goTo (.name (name ++ [c])))
      else reader.inTag ⟨name, []⟩ false c
    | .attributes tag spaced => reader.inTag tag spaced c
    | .key tag key =>
      if isNameChar c then some (reader.goTo (.key tag (key ++ [c])))
      else if c = '=' then some (reader.goTo (.quote tag key))
      else if isSpace c then some (reader.goTo (.equals tag key))
      else none
    | .equals tag key =>
      if c = '=' then some (reader.goTo (.quote tag key))
      else if isSpace c then some reader
      else none
    | .quote tag key =>
      if c = '"' ∨ c = '\'' then some (reader.goTo (.value tag key c []))
      else if isSpace c then some reader
      else none
    | .value tag key delimiter value =>
      if c = delimiter then
        if tag.attributes.any (·.1 = key) then none
        else some (reader.goTo (.attributes ⟨tag.name, tag.attributes ++ [(key, value)]⟩ false))
      else if c = '<' then none
      else if c = '&' then some (reader.goTo (.valueReference tag key delimiter value []))
      else some (reader.goTo
        (.value tag key delimiter (value ++ [if isSpace c then ' ' else c])))
    | .valueReference tag key delimiter value body =>
      if c = ';' then
        (referenced body).map fun d => reader.goTo (.value tag key delimiter (value ++ [d]))
      else some (reader.goTo (.valueReference tag key delimiter value (body ++ [c])))
    | .emptied tag => if c = '>' then reader.add (.element tag []) else none
    | .closing name =>
      if c = '>' then reader.close name
      else if isSpace c then some (reader.goTo (.closed name))
      else some (reader.goTo (.closing (name ++ [c])))
    | .closed name =>
      if c = '>' then reader.close name
      else if isSpace c then some reader
      else none

/-- The root, when every element is closed. -/
def finish (reader : Reader) : Option Node :=
  match reader with
  | ⟨[], root, .content text _⟩ => if text.all isSpace = true then root else none
  | _ => none

def run (reader : Reader) (text : List Char) : Option Reader :=
  (normalizeLineEnds text).foldlM step reader

end Reader

def declaration : List Char := "<?xml version=\"1.0\" encoding=\"UTF-8\"?>".toList

/-- The root of a document. -/
def read (text : List Char) : Option Node :=
  let body := if declaration.isPrefixOf text then text.drop declaration.length else text
  (Reader.start.run body).bind Reader.finish

/-! ## Line ends -/

variable {c : Char}

theorem normalizeLineEnds_cons (h : c ≠ '\r') (rest : List Char) :
    normalizeLineEnds (c :: rest) = c :: normalizeLineEnds rest := by
  rw [normalizeLineEnds]
  · exact fun _ heq => absurd heq h
  · exact fun heq => h heq

theorem normalizeLineEnds_append {text : List Char} (h : '\r' ∉ text) (rest : List Char) :
    normalizeLineEnds (text ++ rest) = text ++ normalizeLineEnds rest := by
  induction text with
  | nil => rfl
  | cons c text ih =>
    have hc : normalizeLineEnds (c :: (text ++ rest)) = _ :=
      normalizeLineEnds_cons (List.ne_of_not_mem_cons h).symm _
    exact hc.trans (congrArg (c :: ·) (ih (List.not_mem_of_not_mem_cons h)))

theorem normalizeLineEnds_return {rest : List Char} (h : rest.head? ≠ some '\n') :
    normalizeLineEnds ('\r' :: rest) = '\n' :: normalizeLineEnds rest := by
  rw [normalizeLineEnds]
  rintro rest rfl
  exact h rfl

/-- Only line ends are changed. -/
theorem mem_normalizeLineEnds (hreturn : c ≠ '\r') (hfeed : c ≠ '\n') {text : List Char}
    (h : c ∈ text) : c ∈ normalizeLineEnds text := by
  induction text using normalizeLineEnds.induct with
  | case1 => exact h
  | case2 rest ih =>
    rw [normalizeLineEnds]
    simp only [List.mem_cons, hreturn, hfeed, false_or] at h ⊢
    exact ih h
  | case3 rest hrest ih =>
    rw [normalizeLineEnds_return fun heq => ?_]
    · simp only [List.mem_cons, hreturn, hfeed, false_or] at h ⊢
      exact ih h
    · obtain ⟨rest, rfl⟩ := List.head?_eq_some_iff.mp heq
      exact hrest rest rfl
  | case4 d rest _ hd ih =>
    rw [normalizeLineEnds_cons hd]
    rcases List.mem_cons.mp h with rfl | h
    · exact List.mem_cons_self
    · exact List.mem_cons_of_mem _ (ih h)

/-! ## Reading one text after another -/

/-- The reader gets from one state to another with a text, whatever follows. -/
def Reads (reader : Reader) (text : List Char) (next : Reader) : Prop :=
  ∀ rest, reader.run (text ++ rest) = next.run rest

namespace Reads

variable {reader middle next : Reader} {text text' : List Char}

theorem nil (reader : Reader) : Reads reader [] reader := fun _ => rfl

theorem append (h : Reads reader text middle) (h' : Reads middle text' next) :
    Reads reader (text ++ text') next := by
  intro rest
  rw [List.append_assoc, h, h']

/-- A text without carriage returns is read as it is. -/
theorem of_foldlM (hreturn : '\r' ∉ text) (h : text.foldlM Reader.step reader = some next) :
    Reads reader text next := by
  intro rest
  rw [Reader.run, normalizeLineEnds_append hreturn, List.foldlM_append, h]
  rfl

end Reads

/-- A document is what is read of it to its end. -/
theorem read_of_reads {body : List Char} {root : Node}
    (h : Reads Reader.start body ⟨[], some root, .content [] 0⟩) :
    read (declaration ++ body) = some root := by
  have hrun := h []
  rw [List.append_nil] at hrun
  rw [read, if_pos (List.isPrefixOf_iff_prefix.mpr (List.prefix_append _ _)), List.drop_left, hrun]
  rfl

/-- A document that is read has only the characters of documents. -/
theorem isChar_of_read {text : List Char} {root : Node} (h : read text = some root) :
    ∀ c ∈ text, isChar c = true := by
  intro c hc
  by_contra hillegal
  rw [Bool.not_eq_true] at hillegal
  have hfails (reader : Reader) (body : List Char) (hmem : c ∈ body) : reader.run body = none := by
    have hmem' : c ∈ normalizeLineEnds body := mem_normalizeLineEnds
      (by rintro rfl; exact absurd hillegal (by decide))
      (by rintro rfl; exact absurd hillegal (by decide)) hmem
    obtain ⟨before, behind, heq⟩ := List.append_of_mem hmem'
    rw [Reader.run, heq, List.foldlM_append]
    cases before.foldlM Reader.step reader with
    | none => rfl
    | some middle =>
      have hstep : middle.step c = none := by
        rw [Reader.step, if_pos hillegal]
      change (middle.step c).bind _ = none
      rw [hstep]
      rfl
  have hnone : read text = none := by
    rw [read]
    split
    · next hbegins =>
        obtain ⟨rest, rfl⟩ := List.isPrefixOf_iff_prefix.mp hbegins
        rw [List.drop_left]
        rcases List.mem_append.mp hc with hdeclaration | hrest
        · have hall : ∀ d ∈ declaration, isChar d = true := by decide
          rw [hall c hdeclaration] at hillegal
          cases hillegal
        · exact congrArg (·.bind Reader.finish) (hfails _ _ hrest)
    · exact congrArg (·.bind Reader.finish) (hfails _ _ hc)
  rw [hnone] at h
  cases h

/-! ## Values -/

/-- How a character is written in the value of an attribute. -/
def escapeChar (c : Char) : List Char :=
  if c = '&' then ['&', 'a', 'm', 'p', ';']
  else if c = '<' then ['&', 'l', 't', ';']
  else if c = '>' then ['&', 'g', 't', ';']
  else if c = '"' then ['&', 'q', 'u', 'o', 't', ';']
  else [c]

def escape (value : List Char) : List Char := value.flatMap escapeChar

/-- What is read of a value without references. -/
def normalizeValue (value : List Char) : List Char :=
  (normalizeLineEnds value).map fun c => if isSpace c then ' ' else c

section Values

variable {stack : List (Tag × List Node)} {root : Option Node} {tag : Tag} {key : List Char}

theorem reads_char {c : Char} (hc : isChar c = true) (hreturn : c ≠ '\r') (value : List Char) :
    Reads ⟨stack, root, .value tag key '"' value⟩ (escapeChar c)
      ⟨stack, root, .value tag key '"' (value ++ [if isSpace c then ' ' else c])⟩ := by
  by_cases hand : c = '&'
  · subst hand
    exact Reads.of_foldlM (by decide) rfl
  by_cases hless : c = '<'
  · subst hless
    exact Reads.of_foldlM (by decide) rfl
  by_cases hgreater : c = '>'
  · subst hgreater
    exact Reads.of_foldlM (by decide) rfl
  by_cases hquote : c = '"'
  · subst hquote
    exact Reads.of_foldlM (by decide) rfl
  rw [escapeChar, if_neg hand, if_neg hless, if_neg hgreater, if_neg hquote]
  refine Reads.of_foldlM (by simpa using hreturn.symm) ?_
  rw [List.foldlM_cons, Reader.step, hc, if_neg Bool.true_eq_false.mp]
  simp [hquote, hless, hand, Reader.goTo]

/-- A line end is read as a blank. -/
theorem run_feed (value rest : List Char) :
    List.foldlM Reader.step (⟨stack, root, .value tag key '"' value⟩ : Reader) ('\n' :: rest) =
      List.foldlM Reader.step ⟨stack, root, .value tag key '"' (value ++ [' '])⟩ rest := rfl

theorem escape_cons (c : Char) (value : List Char) :
    escape (c :: value) = escapeChar c ++ escape value := List.flatMap_cons

theorem head?_escapeChar_ne {c : Char} (h : c ≠ '\n') : (escapeChar c).head? ≠ some '\n' := by
  rw [escapeChar]
  split_ifs <;> simp [h]

theorem escapeChar_ne_nil (c : Char) : escapeChar c ≠ [] := by
  rw [escapeChar]
  split_ifs <;> exact List.cons_ne_nil _ _

/-- A value is read to the quote behind it. -/
theorem reads_value (hnew : ∀ pair ∈ tag.attributes, pair.1 ≠ key) {value : List Char}
    (hchars : ∀ c ∈ value, isChar c = true) (before : List Char) :
    Reads ⟨stack, root, .value tag key '"' before⟩ (escape value ++ ['"'])
      ⟨stack, root, .attributes
        ⟨tag.name, tag.attributes ++ [(key, before ++ normalizeValue value)]⟩ false⟩ := by
  induction value using normalizeLineEnds.induct generalizing before with
  | case1 =>
    refine Reads.of_foldlM (by decide) ?_
    have hfree : (tag.attributes.any fun pair => decide (pair.1 = key)) = false :=
      List.any_eq_false.mpr fun pair hmem => by simpa using hnew pair hmem
    have hquote : isChar '"' = true := by decide
    rw [escape, List.flatMap_nil, List.nil_append, List.foldlM_cons, Reader.step, hquote,
      if_neg Bool.true_eq_false.mp]
    dsimp only
    rw [if_pos rfl, hfree, if_neg Bool.false_ne_true,
      show before ++ normalizeValue [] = before from List.append_nil before]
    rfl
  | case2 value ih =>
    have hblank : before ++ normalizeValue ('\r' :: '\n' :: value) =
        before ++ [' '] ++ normalizeValue value := by
      rw [normalizeValue, normalizeLineEnds, List.append_assoc]
      rfl
    intro rest
    rw [hblank, ← ih (fun c hc => hchars c (by simp [hc])) (before ++ [' ']) rest]
    change List.foldlM Reader.step _
      (normalizeLineEnds ('\r' :: '\n' :: (escape value ++ ['"'] ++ rest))) = _
    rw [normalizeLineEnds]
    exact run_feed _ _
  | case3 value hvalue ih =>
    have hfeed : value.head? ≠ some '\n' := fun heq => by
      obtain ⟨value, rfl⟩ := List.head?_eq_some_iff.mp heq
      exact hvalue value rfl
    have hblank : before ++ normalizeValue ('\r' :: value) =
        before ++ [' '] ++ normalizeValue value := by
      rw [normalizeValue, normalizeLineEnds_return hfeed, List.append_assoc]
      rfl
    intro rest
    have hhead : (escape value ++ ['"'] ++ rest).head? ≠ some '\n' := by
      cases value with
      | nil => exact fun heq => absurd (Option.some.inj heq) (by decide)
      | cons c value =>
        rw [escape_cons, List.append_assoc, List.append_assoc,
          List.head?_append_of_ne_nil _ (escapeChar_ne_nil c)]
        exact head?_escapeChar_ne fun heq => hfeed (congrArg some heq)
    rw [hblank, ← ih (fun c hc => hchars c (by simp [hc])) (before ++ [' ']) rest]
    change List.foldlM Reader.step _
      (normalizeLineEnds ('\r' :: (escape value ++ ['"'] ++ rest))) = _
    rw [normalizeLineEnds_return hhead]
    exact run_feed _ _
  | case4 c value _ hreturn ih =>
    have hrest := ih (fun d hd => hchars d (List.mem_cons_of_mem _ hd))
      (before ++ [if isSpace c then ' ' else c])
    rw [escape_cons, List.append_assoc, normalizeValue, normalizeLineEnds_cons hreturn,
      List.map_cons]
    rw [List.append_assoc] at hrest
    exact (reads_char (hchars c List.mem_cons_self) hreturn before).append hrest

end Values

theorem escape_append (first second : List Char) :
    escape (first ++ second) = escape first ++ escape second := List.flatMap_append

variable {value : List Char}

/-- What is written of a value has every character that documents may not have. -/
theorem isChar_of_escape (h : ∀ c ∈ escape value, isChar c = true) :
    ∀ c ∈ value, isChar c = true := by
  intro c hc
  by_cases hplain : escapeChar c = [c]
  · exact h c (List.mem_flatMap.mpr ⟨c, hc, by rw [hplain]; exact List.mem_singleton_self c⟩)
  · have hspecial : c = '&' ∨ c = '<' ∨ c = '>' ∨ c = '"' := by
      by_contra hother
      rw [not_or, not_or, not_or] at hother
      have ⟨hand, hless, hgreater, hquote⟩ := hother
      exact hplain (by
        rw [escapeChar, if_neg hand, if_neg hless, if_neg hgreater, if_neg hquote])
    rcases hspecial with rfl | rfl | rfl | rfl <;> decide

/-- White space in a value is lost, unless it is blanks. -/
theorem normalizeValue_eq_self_iff :
    normalizeValue value = value ↔ ∀ c ∈ value, c ≠ '\t' ∧ c ≠ '\n' ∧ c ≠ '\r' := by
  constructor
  · intro h c hc
    rw [← h] at hc
    obtain ⟨d, -, rfl⟩ := List.mem_map.mp hc
    by_cases hspace : isSpace d = true
    · rw [if_pos hspace]
      decide
    · rw [if_neg hspace]
      simp only [isSpace, Bool.or_eq_true, decide_eq_true_eq, not_or] at hspace
      exact ⟨hspace.1.1.2, hspace.1.2, hspace.2⟩
  · intro h
    have hreturn : '\r' ∉ value := fun hmem => (h '\r' hmem).2.2 rfl
    have hends : normalizeLineEnds (value ++ []) = value ++ normalizeLineEnds [] :=
      normalizeLineEnds_append hreturn []
    rw [List.append_nil] at hends
    rw [normalizeValue, hends]
    change (value ++ []).map _ = value
    rw [List.append_nil]
    refine (List.map_congr_left fun c hc => ?_).trans (List.map_id value)
    have ⟨htab, hfeed, hret⟩ := h c hc
    by_cases hblank : c = ' '
    · rw [hblank]
      rfl
    · exact if_neg (by simp [isSpace, hblank, htab, hfeed, hret])

/-! ## Plain characters -/

/-- A character that is written and read as it is. -/
def isPlain (c : Char) : Bool :=
  escapeChar c = [c] && isChar c && !(c = '\t' || c = '\n' || c = '\r')

theorem isPlain_of_isDigit (h : c.isDigit = true) : isPlain c = true := by
  have hrange : 48 ≤ c.toNat ∧ c.toNat ≤ 57 := by
    simpa [Char.isDigit, UInt32.le_iff_toNat_le] using h
  have hall : ∀ n < 58, 48 ≤ n → isPlain (Char.ofNat n) = true := by decide
  rw [← Char.ofNat_toNat c]
  exact hall c.toNat (by omega) hrange.1

section Plain

variable {text : List Char} (h : ∀ c ∈ text, isPlain c = true)

include h

theorem escape_of_isPlain : escape text = text := by
  induction text with
  | nil => rfl
  | cons c text ih =>
    have hc := h c List.mem_cons_self
    simp only [isPlain, Bool.and_eq_true, decide_eq_true_eq] at hc
    rw [escape_cons, hc.1.1, ih fun d hd => h d (List.mem_cons_of_mem _ hd)]
    rfl

theorem isChar_of_isPlain : ∀ c ∈ text, isChar c = true := by
  intro c hc
  have hplain := h c hc
  simp only [isPlain, Bool.and_eq_true] at hplain
  exact hplain.1.2

theorem normalizeValue_of_isPlain : normalizeValue text = text := by
  refine normalizeValue_eq_self_iff.mpr fun c hc => ?_
  have hplain := h c hc
  simp only [isPlain, Bool.and_eq_true, Bool.not_eq_true', Bool.or_eq_false_iff,
    decide_eq_false_iff_not] at hplain
  exact ⟨hplain.2.1.1, hplain.2.1.2, hplain.2.2⟩

end Plain

end Xml

end ApiVoy.Foundation
