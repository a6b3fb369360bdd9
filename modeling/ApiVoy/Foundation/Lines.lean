/-
# Lines of a growing text

A text comes in pieces. Its line ends are rewritten to single line feeds, and it is cut at the
blank lines. The reader rewrites what it still has in its buffer once more with every piece,
which does no harm as long as no line end has come out of the first rewriting.
-/

import ApiVoy.Foundation.Incremental
import Mathlib.Data.List.Infix

namespace ApiVoy.Foundation

/-! ## Line ends -/

/-- Rewrite every carriage return with its line feed to the line feed. -/
def unixLines : List Char → List Char
  | [] => []
  | c :: rest =>
    if c = '\r' ∧ rest.head? = some '\n' then unixLines rest else c :: unixLines rest

/-- No carriage return comes before a line feed. -/
def Rewritten (text : List Char) : Prop := ¬['\r', '\n'] <:+: text

instance (text : List Char) : Decidable (Rewritten text) := inferInstanceAs (Decidable (¬_))

variable {text : List Char}

theorem unixLines_of_rewritten (h : Rewritten text) : unixLines text = text := by
  induction text with
  | nil => rfl
  | cons c rest ih =>
    have hrest : Rewritten rest := fun hpart => h (List.infix_cons hpart)
    have hhead : ¬(c = '\r' ∧ rest.head? = some '\n') := by
      rintro ⟨rfl, hhead⟩
      obtain ⟨tail, rfl⟩ := List.head?_eq_some_iff.mp hhead
      exact h (List.prefix_append ['\r', '\n'] tail).isInfix
    rw [unixLines, if_neg hhead, ih hrest]

variable (c : Char)

theorem unixLines_cons (rest : List Char) :
    unixLines (c :: rest) =
      if c = '\r' ∧ rest.head? = some '\n' then unixLines rest else c :: unixLines rest := rfl

theorem unixLines_singleton : unixLines [c] = [c] := if_neg (by simp)

theorem unixLines_ne_nil (rest : List Char) : unixLines (c :: rest) ≠ [] := by
  induction rest generalizing c with
  | nil =>
    rw [unixLines_singleton]
    exact List.cons_ne_nil _ _
  | cons d rest ih =>
    rw [unixLines_cons]
    split
    · exact ih d
    · exact List.cons_ne_nil _ _

/-- A text in front of what begins so: a carriage return at its end belongs to a line feed
that follows. -/
def joinReturn (next : Option Char) (text : List Char) : List Char :=
  if next = some '\n' ∧ text.getLast? = some '\r' then text.dropLast else text

variable (next : Option Char)

theorem joinReturn_nil : joinReturn next [] = [] := by
  rw [joinReturn, List.dropLast_nil, ite_self]

theorem joinReturn_cons (c : Char) (h : text ≠ []) :
    joinReturn next (c :: text) = c :: joinReturn next text := by
  rw [joinReturn, joinReturn, List.getLast?_cons_of_ne_nil h, List.dropLast_cons_of_ne_nil h]
  split <;> rfl

theorem unixLines_append (text more : List Char) :
    unixLines (text ++ more) = joinReturn more.head? (unixLines text) ++ unixLines more := by
  induction text with
  | nil => rw [unixLines, joinReturn_nil]; rfl
  | cons c rest ih =>
    cases rest with
    | nil =>
      rw [unixLines_singleton, List.singleton_append, unixLines_cons, joinReturn]
      by_cases hjoin : c = '\r' ∧ more.head? = some '\n'
      · rw [if_pos hjoin, if_pos ⟨hjoin.2, congrArg some hjoin.1⟩]
        rfl
      · rw [if_neg hjoin, if_neg fun h => hjoin ⟨Option.some.inj h.2, h.1⟩]
        rfl
    | cons d rest =>
      have hhead : (d :: rest ++ more).head? = (d :: rest).head? := rfl
      rw [List.cons_append, unixLines_cons, ih, hhead, unixLines_cons c]
      by_cases hjoin : c = '\r' ∧ (d :: rest).head? = some '\n'
      · rw [if_pos hjoin, if_pos hjoin]
      · rw [if_neg hjoin, if_neg hjoin, joinReturn_cons _ _ (unixLines_ne_nil d rest)]
        rfl

/-! ## Blank lines -/

/-- Where the first blank line begins. -/
def blankLine : List Char → Option Nat
  | [] => none
  | c :: rest =>
    if c = '\n' ∧ rest.head? = some '\n' then some 0 else (blankLine rest).map (· + 1)

/-- What comes before the first blank line. -/
def takeParagraph : FrameParser Empty Char (List Char) := fun text =>
  .ok ((blankLine text).map fun start => (text.take start, start + 2))

theorem blankLine_le {start : Nat} (h : blankLine text = some start) : start + 2 ≤ text.length := by
  induction text generalizing start with
  | nil => cases h
  | cons c rest ih =>
    rw [blankLine] at h
    split at h
    case isTrue hblank =>
      cases h
      obtain ⟨tail, rfl⟩ := List.head?_eq_some_iff.mp hblank.2
      simp only [List.length_cons]
      omega
    case isFalse =>
      obtain ⟨start, hrest, rfl⟩ := Option.map_eq_some_iff.mp h
      have hle := ih hrest
      rw [List.length_cons]
      omega

theorem blankLine_append {start : Nat} (h : blankLine text = some start) (more : List Char) :
    blankLine (text ++ more) = some start := by
  induction text generalizing start with
  | nil => cases h
  | cons c rest ih =>
    rw [blankLine] at h
    rw [List.cons_append, blankLine]
    split at h
    case isTrue hblank =>
      cases h
      obtain ⟨tail, rfl⟩ := List.head?_eq_some_iff.mp hblank.2
      exact if_pos ⟨hblank.1, rfl⟩
    case isFalse hblank =>
      obtain ⟨start, hrest, rfl⟩ := Option.map_eq_some_iff.mp h
      have hhead : (rest ++ more).head? = rest.head? := by
        cases rest with
        | nil => cases hrest
        | cons d rest => rfl
      rw [hhead, if_neg hblank, ih hrest]
      rfl

/-- No blank line begins at a character other than a line feed. -/
theorem blankLine_append_singleton {c : Char} (h : blankLine text = none) (hc : c ≠ '\n') :
    blankLine (text ++ [c]) = none := by
  induction text with
  | nil => exact if_neg fun h => hc h.1
  | cons d rest ih =>
    rw [blankLine] at h
    split at h
    case isTrue => cases h
    case isFalse hblank =>
      have hhead : ¬(d = '\n' ∧ (rest ++ [c]).head? = some '\n') := by
        rintro ⟨hd, hhead⟩
        cases rest with
        | nil => exact hc (Option.some.inj hhead)
        | cons e rest => exact hblank ⟨hd, hhead⟩
      rw [List.cons_append, blankLine, if_neg hhead, ih (Option.map_eq_none_iff.mp h)]
      rfl

theorem takeParagraph_eq_some_iff {text paragraph : List Char} {used : Nat} :
    takeParagraph text = .ok (some (paragraph, used)) ↔
      ∃ start, blankLine text = some start ∧ text.take start = paragraph ∧ start + 2 = used := by
  rw [takeParagraph, Except.ok.injEq, Option.map_eq_some_iff]
  simp only [Prod.mk.injEq]

theorem takeParagraph_eq_none_iff : takeParagraph text = .ok none ↔ blankLine text = none := by
  rw [takeParagraph, Except.ok.injEq, Option.map_eq_none_iff]

theorem stable_takeParagraph : takeParagraph.Stable where
  used_pos := by
    intro text paragraph used h
    obtain ⟨start, -, -, rfl⟩ := takeParagraph_eq_some_iff.mp h
    exact Nat.succ_pos _
  used_le := by
    intro text paragraph used h
    obtain ⟨start, hstart, -, rfl⟩ := takeParagraph_eq_some_iff.mp h
    exact blankLine_le hstart
  append := by
    intro text h more
    cases hstart : blankLine text with
    | none => exact absurd (takeParagraph_eq_none_iff.mpr hstart) h
    | some start =>
      have hle := blankLine_le hstart
      rw [takeParagraph, takeParagraph, blankLine_append hstart, hstart, Option.map_some,
        Option.map_some, List.take_append_of_le_length (by omega)]

theorem drain_error (text : List Char) : (takeParagraph.drain text).error = none := by
  cases (takeParagraph.drain text).error with
  | none => rfl
  | some e => exact e.elim

/-- A carriage return at the end stays in front of what comes next. -/
theorem drain_append_return (text : List Char) :
    takeParagraph.drain (text ++ ['\r']) =
      { takeParagraph.drain text with rest := (takeParagraph.drain text).rest ++ ['\r'] } := by
  have hrest := takeParagraph_eq_none_iff.mp
    (FrameParser.parse_rest stable_takeParagraph (drain_error text))
  rw [FrameParser.drain_append stable_takeParagraph (drain_error text),
    FrameParser.drain_of_none (takeParagraph_eq_none_iff.mpr
      (blankLine_append_singleton hrest (by decide))), Drained.behind]
  simp only [List.append_nil, drain_error]

/-- The paragraphs of a text, and then those of what is left with the next piece, are the
paragraphs of the whole, if no line end has come out of rewriting what is left. -/
theorem drain_unixLines_append (text more : List Char)
    (h : Rewritten (takeParagraph.drain (unixLines text)).rest) :
    takeParagraph.drain (unixLines (text ++ more)) =
      (takeParagraph.drain (unixLines
        ((takeParagraph.drain (unixLines text)).rest ++ more))).behind
          (takeParagraph.drain (unixLines text)).values := by
  rw [unixLines_append, unixLines_append _ more, unixLines_of_rewritten h]
  by_cases hjoin : more.head? = some '\n' ∧ (unixLines text).getLast? = some '\r'
  · -- The carriage return at the end belongs to the line feed that comes next.
    obtain ⟨before, hbefore⟩ := List.getLast?_eq_some_iff.mp hjoin.2
    have hdrained := drain_append_return before
    have hlast : ((takeParagraph.drain before).rest ++ ['\r']).getLast? = some '\r' :=
      List.getLast?_concat
    rw [hbefore, hdrained]
    simp only
    rw [joinReturn, joinReturn, if_pos ⟨hjoin.1, List.getLast?_concat⟩,
      if_pos ⟨hjoin.1, hlast⟩, List.dropLast_concat, List.dropLast_concat]
    exact FrameParser.drain_append stable_takeParagraph (drain_error before) _
  · have hrest : ¬(more.head? = some '\n' ∧
        (takeParagraph.drain (unixLines text)).rest.getLast? = some '\r') := by
      rintro ⟨hmore, hlast⟩
      obtain ⟨consumed, heq⟩ := FrameParser.drain_rest stable_takeParagraph (unixLines text)
      refine hjoin ⟨hmore, ?_⟩
      rw [heq, List.getLast?_append, hlast]
      rfl
    rw [joinReturn, joinReturn, if_neg hjoin, if_neg hrest]
    exact FrameParser.drain_append stable_takeParagraph (drain_error _) _

/-! ## Lines -/

/-- The lines of a text behind the beginning of a line. A carriage return before a line feed
belongs to the end of the line. -/
def linesFrom (line : List Char) : List Char → List (List Char)
  | [] => if line = [] then [] else [line]
  | c :: rest =>
    if c = '\n' then
      (if line.getLast? = some '\r' then line.dropLast else line) :: linesFrom [] rest
    else linesFrom (line ++ [c]) rest

def lines (text : List Char) : List (List Char) := linesFrom [] text

/-- The last line may be without an end. -/
example : lines "id: 1\r\ndata".toList = ["id: 1".toList, "data".toList] := by decide

end ApiVoy.Foundation
