/-
# The words of a command that was laid out

A command is laid out as words with gaps between them, each word bare or in single quotes. The
tokenizer finds these words again when the texts are free of what it treats specially: single
quotes, line breaks it joins, and backslashes it takes off.
-/

import ApiVoy.Workbench.CurlImport

namespace ApiVoy.Workbench.Curl

open Foundation Script

/-! ## Line breaks -/

def startsLineBreak (text : List Char) : Bool :=
  text.head? = some '\n' || (text.head? = some '\r' && text.tail.head? = some '\n')

/-- Does a text have a line break right after a mark? -/
def breaksAfter (mark : Char) : List Char → Bool
  | [] => false
  | c :: text => (c = mark && startsLineBreak text) || breaksAfter mark text

theorem joinAfter_cons {mark c : Char} {text : List Char}
    (h : c = mark → startsLineBreak text = false) :
    joinAfter mark (c :: text) = c :: joinAfter mark text := by
  match text with
  | [] => rfl
  | [d] =>
    have hd : ¬ (c = mark ∧ d = '\n') := by
      rintro ⟨hc, rfl⟩
      exact absurd (h hc) (by decide)
    simp only [joinAfter, if_neg hd]
  | d :: e :: rest =>
    have hd : ¬ (c = mark ∧ d = '\n') := by
      rintro ⟨hc, rfl⟩
      have hbreak := h hc
      simp [startsLineBreak] at hbreak
    have he : ¬ (c = mark ∧ d = '\r' ∧ e = '\n') := by
      rintro ⟨hc, rfl, rfl⟩
      have hbreak := h hc
      simp [startsLineBreak] at hbreak
    rw [joinAfter, if_neg hd, if_neg he]

theorem joinAfter_break (mark : Char) (text : List Char) :
    joinAfter mark (mark :: '\n' :: text) = ' ' :: joinAfter mark text := by
  cases text with
  | nil => simp [joinAfter]
  | cons e rest => simp [joinAfter]

/-- A text that does not begin with a part of a line break. -/
def NoBreak (text : List Char) : Prop := ∀ c ∈ text.head?, c ≠ '\n' ∧ c ≠ '\r'

theorem startsLineBreak_append (text : List Char) {rest : List Char} (h : NoBreak rest) :
    startsLineBreak (text ++ rest) = startsLineBreak text := by
  have hhead : rest.head? ≠ some '\n' := fun heq => (h '\n' heq).1 rfl
  have hreturn : rest.head? ≠ some '\r' := fun heq => (h '\r' heq).2 rfl
  match text with
  | [] => simp [startsLineBreak, hhead, hreturn]
  | [c] => simp [startsLineBreak, hhead]
  | c :: d :: more => simp [startsLineBreak]

/-- A text without such line breaks stays as it is. -/
theorem joinAfter_append {mark : Char} {text : List Char} (h : breaksAfter mark text = false)
    {rest : List Char} (hrest : NoBreak rest) :
    joinAfter mark (text ++ rest) = text ++ joinAfter mark rest := by
  induction text with
  | nil => rfl
  | cons c text ih =>
    simp only [breaksAfter, Bool.or_eq_false_iff, Bool.and_eq_false_iff] at h
    rw [List.cons_append, List.cons_append, joinAfter_cons, ih h.2]
    intro hc
    rw [startsLineBreak_append text hrest]
    exact h.1.resolve_left (by simp [hc])

/-! ## Backslashes -/

/-- Does a text have a backslash that is taken off? -/
def escapes : List Char → Bool
  | [] => false
  | c :: text =>
    (c = '\\' && (text.head? = some '"' || text.head? = some '\\')) || escapes text

theorem unescape_eq_self {text : List Char} (h : escapes text = false) : unescape text = text := by
  induction text with
  | nil => rfl
  | cons c text ih =>
    simp only [escapes, Bool.or_eq_false_iff] at h
    have hrest := ih h.2
    cases text with
    | nil => rfl
    | cons d rest =>
      have hc : ¬ (c = '\\' ∧ (d = '"' ∨ d = '\\')) := by
        rintro ⟨rfl, rfl | rfl⟩ <;> simp at h
      rw [unescape, if_neg hc, hrest]

/-! ## Layout -/

/-- A single quote ends the quoted text, stands behind a backslash, and begins another one. -/
def quoteChar (c : Char) : List Char := if c = '\'' then "'\\''".toList else [c]

/-- A text in single quotes, for a shell. -/
def quoted (text : List Char) : List Char := '\'' :: (text.flatMap quoteChar ++ ['\''])

theorem quoted_eq {text : List Char} (h : '\'' ∉ text) : quoted text = '\'' :: (text ++ ['\'']) := by
  have hsame : text.flatMap quoteChar = text := by
    induction text with
    | nil => rfl
    | cons c text ih =>
      rw [List.mem_cons, not_or] at h
      rw [List.flatMap_cons, ih h.2, quoteChar, if_neg (Ne.symm h.1), List.singleton_append]
  rw [quoted, hsame]

inductive Word where
  | bare (text : List Char)
  | quoted (text : List Char)

def Word.text : Word → List Char
  | .bare text | .quoted text => text

def Word.layout : Word → List Char
  | .bare text => text
  | .quoted text => Curl.quoted text

/-- A text the tokenizer leaves alone. -/
structure Verbatim (text : List Char) : Prop where
  joined : breaksAfter '\\' text = false
  caret : breaksAfter '^' text = false
  escapes : escapes text = false

/-- A word the tokenizer finds: a bare one has no white space and does not begin with a quote, a
quoted one has no single quote. -/
def Word.Found : Word → Prop
  | .bare text => Verbatim text ∧ text ≠ [] ∧ (∀ c ∈ text, isSpace c = false) ∧
      text.head? ≠ some '"' ∧ text.head? ≠ some '\''
  | .quoted text => Verbatim text ∧ '\'' ∉ text

/-- Words, each with a gap in front of it. -/
def layoutWords (gap : Bool → List Char) : List (Bool × Word) → List Char
  | [] => []
  | (wide, word) :: words => gap wide ++ (word.layout ++ layoutWords gap words)

theorem Word.Found.length_pos {word : Word} (h : word.Found) : 0 < word.layout.length := by
  cases word with
  | bare text => exact List.length_pos_iff.mpr h.2.1
  | quoted text => exact Nat.succ_pos _

theorem breaksAfter_append_quote {mark : Char} {text : List Char}
    (h : breaksAfter mark text = false) (hmark : mark ≠ '\'') :
    breaksAfter mark ('\'' :: (text ++ ['\''])) = false := by
  have hquote : NoBreak ['\''] := by
    intro c hc
    cases hc
    exact ⟨by decide, by decide⟩
  have hall : ∀ text, breaksAfter mark text = false → breaksAfter mark (text ++ ['\'']) = false := by
    intro text htext
    induction text with
    | nil => simp [breaksAfter, hmark.symm]
    | cons c text ih =>
      simp only [breaksAfter, Bool.or_eq_false_iff] at htext
      simp only [List.cons_append, breaksAfter, startsLineBreak_append text hquote, htext.1,
        ih htext.2, Bool.or_false]
  simp only [breaksAfter, hall text h, hmark.symm, decide_false, Bool.false_and, Bool.or_false]

theorem Word.Found.breaks {word : Word} (h : word.Found) :
    breaksAfter '\\' word.layout = false ∧ breaksAfter '^' word.layout = false := by
  cases word with
  | bare text => exact ⟨h.1.joined, h.1.caret⟩
  | quoted text =>
    rw [Word.layout, quoted_eq h.2]
    exact ⟨breaksAfter_append_quote h.1.joined (by decide),
      breaksAfter_append_quote h.1.caret (by decide)⟩

/-! ## The layout without line breaks -/

/-- The gap between two words as it is written: a wide one goes on in a new line. -/
def writtenGap (wide : Bool) : List Char := if wide then " \\\n  ".toList else [' ']

/-- The gap without the line break. -/
def joinedGap (wide : Bool) : List Char := if wide then "    ".toList else [' ']

theorem head_layout {gap : Bool → List Char} (hgap : ∀ wide, (gap wide).head? = some ' ')
    (words : List (Bool × Word)) : ∀ c ∈ (layoutWords gap words).head?, c = ' ' := by
  intro c hc
  cases words with
  | nil => cases hc
  | cons entry words =>
    have hhead : (layoutWords gap (entry :: words)).head? = some ' ' := by
      simp [layoutWords, List.head?_append, hgap entry.1]
    cases hhead.symm.trans hc
    rfl

theorem noBreak_layout {gap : Bool → List Char} (hgap : ∀ wide, (gap wide).head? = some ' ')
    (words : List (Bool × Word)) : NoBreak (layoutWords gap words) := by
  intro c hc
  rw [head_layout hgap words c hc]
  exact ⟨by decide, by decide⟩

theorem joinAfter_layout {mark : Char} {gap joined : Bool → List Char}
    (hhead : ∀ wide, (gap wide).head? = some ' ')
    (hgap : ∀ wide rest, joinAfter mark (gap wide ++ rest) = joined wide ++ joinAfter mark rest)
    {words : List (Bool × Word)}
    (h : ∀ entry ∈ words, breaksAfter mark entry.2.layout = false) :
    joinAfter mark (layoutWords gap words) = layoutWords joined words := by
  induction words with
  | nil => rfl
  | cons entry words ih =>
    have hrest := ih fun other hmem => h other (List.mem_cons_of_mem _ hmem)
    rw [layoutWords, layoutWords, hgap,
      joinAfter_append (h entry List.mem_cons_self) (noBreak_layout hhead words), hrest]

theorem joinAfter_spaces {mark : Char} (hmark : mark ≠ ' ') (wide : Bool) (rest : List Char) :
    joinAfter mark (joinedGap wide ++ rest) = joinedGap wide ++ joinAfter mark rest := by
  have hspace : ∀ text, joinAfter mark (' ' :: text) = ' ' :: joinAfter mark text :=
    fun text => joinAfter_cons fun heq => absurd heq.symm hmark
  cases wide
  · exact hspace rest
  · change joinAfter mark (' ' :: ' ' :: ' ' :: ' ' :: rest) = _
    rw [hspace, hspace, hspace, hspace]
    rfl

theorem joinAfter_written (wide : Bool) (rest : List Char) :
    joinAfter '\\' (writtenGap wide ++ rest) = joinedGap wide ++ joinAfter '\\' rest := by
  have hspace : ∀ text, joinAfter '\\' (' ' :: text) = ' ' :: joinAfter '\\' text :=
    fun text => joinAfter_cons fun heq => absurd heq (by decide)
  cases wide
  · exact hspace rest
  · change joinAfter '\\' (' ' :: '\\' :: '\n' :: ' ' :: ' ' :: rest) = _
    rw [hspace, joinAfter_break, hspace, hspace]
    rfl

/-- The tokenizer sees the words of a written command without its line breaks. -/
theorem normalized_layout {words : List (Bool × Word)} (h : ∀ entry ∈ words, entry.2.Found) :
    normalized (layoutWords writtenGap words) = layoutWords joinedGap words := by
  have hwritten : ∀ wide, (writtenGap wide).head? = some ' ' := by decide
  have hjoined : ∀ wide, (joinedGap wide).head? = some ' ' := by decide
  rw [normalized, joinAfter_layout hwritten joinAfter_written fun entry hmem => (h entry hmem).breaks.1,
    joinAfter_layout hjoined (joinAfter_spaces (by decide)) fun entry hmem => (h entry hmem).breaks.2]

/-! ## The words -/

theorem closeSingle_append {text : List Char} (h : '\'' ∉ text) (rest : List Char) :
    closeSingle (text ++ '\'' :: rest) = some (text, rest) := by
  induction text with
  | nil => simp [closeSingle]
  | cons c text ih =>
    rw [List.mem_cons, not_or] at h
    rw [List.cons_append, closeSingle, if_neg (Ne.symm h.1), ih h.2, Option.map_some]

theorem bareWord_append {text rest : List Char} (h : ∀ c ∈ text, isSpace c = false)
    (hrest : ∀ c ∈ rest.head?, isSpace c = true) : bareWord (text ++ rest) = (text, rest) := by
  induction text with
  | nil =>
    cases rest with
    | nil => rfl
    | cons c rest => simp [bareWord, hrest c rfl]
  | cons c text ih =>
    have hc := h c List.mem_cons_self
    have hrest := ih fun d hmem => h d (List.mem_cons_of_mem c hmem)
    have hpair := Prod.mk.inj hrest
    rw [List.cons_append, bareWord, List.takeWhile_cons_of_pos (by simp [hc]),
      List.dropWhile_cons_of_pos (by simp [hc]), hpair.1, hpair.2]

/-- The tokenizer finds a word up to the gap after it. -/
theorem firstWord_layout {word : Word} (h : word.Found) {rest : List Char}
    (hrest : ∀ c ∈ rest.head?, isSpace c = true) :
    firstWord (word.layout ++ rest) = (word.text, rest) := by
  cases word with
  | bare text =>
    obtain ⟨_, hne, hspace, hdouble, hsingle⟩ := h
    have hfound := bareWord_append hspace hrest
    cases text with
    | nil => exact absurd rfl hne
    | cons c text =>
      rw [Word.layout, List.cons_append, firstWord.eq_def]
      split
      · rename_i heq
        cases heq
        exact absurd rfl hdouble
      · rename_i heq
        cases heq
        exact absurd rfl hsingle
      · exact hfound
  | quoted text =>
    rw [Word.layout, quoted_eq h.2, List.cons_append, List.append_assoc, firstWord]
    exact congrArg (Option.getD · _) (closeSingle_append h.2 rest)

theorem wordsFrom_spaces {spaces : List Char} (h : ∀ c ∈ spaces, isSpace c = true) (fuel : Nat)
    (rest : List Char) : wordsFrom (spaces.length + fuel) (spaces ++ rest) = wordsFrom fuel rest := by
  induction spaces with
  | nil => rw [List.length_nil, Nat.zero_add, List.nil_append]
  | cons c spaces ih =>
    rw [List.length_cons, Nat.add_right_comm, List.cons_append, wordsFrom,
      if_pos (h c List.mem_cons_self)]
    exact ih fun d hmem => h d (List.mem_cons_of_mem c hmem)

theorem wordsFrom_word {word : Word} (h : word.Found) {rest : List Char}
    (hrest : ∀ c ∈ rest.head?, isSpace c = true) (fuel : Nat) :
    wordsFrom (fuel + 1) (word.layout ++ rest) =
      String.ofList word.text :: wordsFrom fuel rest := by
  have hfirst := firstWord_layout h hrest
  have hescapes : unescape word.text = word.text := by
    cases word with
    | bare text => exact unescape_eq_self h.1.escapes
    | quoted text => exact unescape_eq_self h.1.escapes
  have hhead : ∃ c text, word.layout ++ rest = c :: text ∧ isSpace c = false := by
    cases word with
    | bare text =>
      obtain ⟨_, hne, hspace, _, _⟩ := h
      obtain ⟨c, text, rfl⟩ := List.exists_cons_of_ne_nil hne
      exact ⟨c, text ++ rest, rfl, hspace c List.mem_cons_self⟩
    | quoted text => exact ⟨'\'', _, rfl, by decide⟩
  obtain ⟨c, text, hlayout, hspace⟩ := hhead
  rw [hlayout] at hfirst ⊢
  rw [wordsFrom, if_neg (by rw [hspace]; exact Bool.false_ne_true), hfirst, hescapes]

theorem wordsFrom_layout {words : List (Bool × Word)} (h : ∀ entry ∈ words, entry.2.Found)
    (fuel : Nat) (hfuel : (layoutWords joinedGap words).length ≤ fuel) :
    wordsFrom fuel (layoutWords joinedGap words) =
      words.map fun entry => String.ofList entry.2.text := by
  induction words generalizing fuel with
  | nil => cases fuel <;> rfl
  | cons entry words ih =>
    obtain ⟨wide, word⟩ := entry
    have hword : word.Found := h (wide, word) List.mem_cons_self
    have hspaces : ∀ c ∈ joinedGap wide, isSpace c = true := by
      cases wide <;> decide
    have hnext : ∀ c ∈ (layoutWords joinedGap words).head?, isSpace c = true := by
      intro c hc
      rw [head_layout (by decide) words c hc]
      decide
    rw [layoutWords, List.length_append, List.length_append] at hfuel
    obtain ⟨more, rfl⟩ := Nat.exists_eq_add_of_le (le_trans (Nat.le_add_right _ _) hfuel)
    have hpositive := hword.length_pos
    obtain ⟨more', rfl⟩ : ∃ more', more = more' + 1 := ⟨more - 1, by omega⟩
    rw [layoutWords, wordsFrom_spaces hspaces, wordsFrom_word hword hnext,
      ih (fun other hmem => h other (List.mem_cons_of_mem _ hmem)) more' (by omega), List.map_cons]

/-- A command that was laid out has the words it was laid out from. -/
theorem shellTokens_layout {command : Word} (hcommand : command.Found) {words : List (Bool × Word)}
    (h : ∀ entry ∈ words, entry.2.Found) :
    shellTokens (String.ofList (command.layout ++ layoutWords writtenGap words)) =
      String.ofList command.text :: words.map fun entry => String.ofList entry.2.text := by
  have hbreak : NoBreak (layoutWords writtenGap words) := noBreak_layout (by decide) words
  have hjoined : NoBreak (joinAfter '\\' (layoutWords writtenGap words)) := by
    rw [joinAfter_layout (by decide) joinAfter_written fun entry hmem => (h entry hmem).breaks.1]
    exact noBreak_layout (by decide) words
  have hnormalized : normalized (command.layout ++ layoutWords writtenGap words) =
      command.layout ++ layoutWords joinedGap words := by
    rw [normalized, joinAfter_append hcommand.breaks.1 hbreak,
      joinAfter_append hcommand.breaks.2 hjoined, ← normalized_layout h, normalized]
  have hnext : ∀ c ∈ (layoutWords joinedGap words).head?, isSpace c = true := by
    intro c hc
    rw [head_layout (by decide) words c hc]
    decide
  have hpositive := hcommand.length_pos
  rw [shellTokens, String.toList_ofList, hnormalized, List.length_append]
  obtain ⟨more, hmore⟩ := Nat.exists_eq_add_of_le hpositive
  have hfuel : command.layout.length + (layoutWords joinedGap words).length =
      (layoutWords joinedGap words).length + more + 1 := by
    omega
  rw [hfuel, wordsFrom_word hcommand hnext, wordsFrom_layout h _ (Nat.le_add_right _ _)]

end ApiVoy.Workbench.Curl
