/-
# Frames of a growing input

A peer sends frames as one stream, and a reader gets the stream in pieces that have nothing
to do with the frames. The reader keeps what it has got in a buffer and runs a parser on it:
the parser takes one frame from the front, asks for more, or gives up. When more input does
not change what the parser has decided, the frames are those of the whole stream, whatever
the pieces are.
-/

import Mathlib.Data.List.Basic

namespace ApiVoy.Foundation

/-- Take one frame from the front of the input, and say how much of the input it takes.
Without a frame the parser asks for more input. -/
abbrev FrameParser (ε α β : Type) := List α → Except ε (Option (β × Nat))

/-- The frames at the front of an input, the error behind them, and what is left. -/
structure Drained (ε α β : Type) where
  values : List β
  error : Option ε
  rest : List α
  deriving DecidableEq

/-- Frames in front of others. -/
def Drained.behind {ε α β : Type} (drained : Drained ε α β) (values : List β) :
    Drained ε α β :=
  { drained with values := values ++ drained.values }

namespace FrameParser

variable {ε α β γ : Type}

/-- More input does not change what a parser has decided, and a frame takes some of the
input. -/
structure Stable (parse : FrameParser ε α β) : Prop where
  used_pos : ∀ {input value used}, parse input = .ok (some (value, used)) → 0 < used
  used_le : ∀ {input value used}, parse input = .ok (some (value, used)) →
    used ≤ input.length
  append : ∀ {input}, parse input ≠ .ok none → ∀ more, parse (input ++ more) = parse input

namespace Stable

variable {parse : FrameParser ε α β} {input : List α}

theorem frame_append (h : parse.Stable) {frame : β × Nat}
    (hparse : parse input = .ok (some frame)) (more : List α) :
    parse (input ++ more) = .ok (some frame) := by
  rw [h.append (by rw [hparse]; nofun), hparse]

theorem error_append (h : parse.Stable) {e : ε} (hparse : parse input = .error e)
    (more : List α) : parse (input ++ more) = .error e := by
  rw [h.append (by rw [hparse]; nofun), hparse]

/-- A parser that asks for more has seen no prefix that it could decide. -/
theorem none_of_append (h : parse.Stable) {more : List α}
    (hnone : parse (input ++ more) = .ok none) : parse input = .ok none := by
  by_contra hsettled
  rw [h.append hsettled] at hnone
  exact hsettled hnone

end Stable

/-! ## All frames -/

/-- Take at most `fuel` frames. -/
def drainWithin (parse : FrameParser ε α β) : Nat → List α → Drained ε α β
  | 0, input => ⟨[], none, input⟩
  | fuel + 1, input =>
    match parse input with
    | .ok (some (value, used)) => (drainWithin parse fuel (input.drop used)).behind [value]
    | .ok none => ⟨[], none, input⟩
    | .error e => ⟨[], some e, input⟩

/-- Take frames until the parser asks for more or gives up. -/
def drain (parse : FrameParser ε α β) (input : List α) : Drained ε α β :=
  drainWithin parse (input.length + 1) input

variable {parse : FrameParser ε α β} {input more : List α}

theorem drain_of_none (h : parse input = .ok none) : parse.drain input = ⟨[], none, input⟩ := by
  simp [drain, drainWithin, h]

theorem drain_of_error {e : ε} (h : parse input = .error e) :
    parse.drain input = ⟨[], some e, input⟩ := by
  simp [drain, drainWithin, h]

/-- Enough fuel is enough. -/
theorem drainWithin_congr (h : parse.Stable) {fuel fuel' : Nat}
    (hfuel : input.length < fuel) (hfuel' : input.length < fuel') :
    drainWithin parse fuel input = drainWithin parse fuel' input := by
  induction fuel generalizing fuel' input with
  | zero => omega
  | succ fuel ih =>
    cases fuel' with
    | zero => omega
    | succ fuel' =>
      rw [drainWithin, drainWithin]
      cases hparse : parse input with
      | error e => rfl
      | ok found =>
        cases found with
        | none => rfl
        | some frame =>
          obtain ⟨value, used⟩ := frame
          have hpos := h.used_pos hparse
          have hle := h.used_le hparse
          have hlength : (input.drop used).length = input.length - used :=
            List.length_drop
          have hrest : drainWithin parse fuel (input.drop used) =
              drainWithin parse fuel' (input.drop used) := ih (by omega) (by omega)
          simp only [hrest]

theorem drain_of_frame (h : parse.Stable) {value : β} {used : Nat}
    (hparse : parse input = .ok (some (value, used))) :
    parse.drain input = (parse.drain (input.drop used)).behind [value] := by
  have hpos := h.used_pos hparse
  have hle := h.used_le hparse
  have hlength : (input.drop used).length = input.length - used := List.length_drop
  have hfuel : drainWithin parse input.length (input.drop used) = parse.drain (input.drop used) :=
    drainWithin_congr h (by omega) (by omega)
  rw [drain, drainWithin, hparse]
  simp only [hfuel]

/-- Induction on the frames of an input. -/
theorem Stable.induction (h : parse.Stable) {P : List α → Prop}
    (none : ∀ input, parse input = .ok none → P input)
    (error : ∀ input e, parse input = .error e → P input)
    (frame : ∀ input value used, parse input = .ok (some (value, used)) →
      P (input.drop used) → P input)
    (input : List α) : P input := by
  induction hn : input.length using Nat.strongRecOn generalizing input with
  | _ n ih =>
    cases hparse : parse input with
    | error e => exact error input e hparse
    | ok found =>
      cases found with
      | none => exact none input hparse
      | some found =>
        obtain ⟨value, used⟩ := found
        have hpos := h.used_pos hparse
        have hle := h.used_le hparse
        have hlength : (input.drop used).length = input.length - used := List.length_drop
        exact frame input value used hparse (ih _ (by omega) _ rfl)

/-- What is left is the end of the input. -/
theorem drain_rest (h : parse.Stable) (input : List α) :
    ∃ consumed, input = consumed ++ (parse.drain input).rest := by
  induction input using h.induction with
  | none input hparse => exact ⟨[], by rw [drain_of_none hparse]; rfl⟩
  | error input e hparse => exact ⟨[], by rw [drain_of_error hparse]; rfl⟩
  | frame input value used hparse ih =>
    have ⟨consumed, heq⟩ := ih
    refine ⟨input.take used ++ consumed, ?_⟩
    rw [drain_of_frame h hparse, Drained.behind, List.append_assoc, ← heq,
      List.take_append_drop]

/-- The parser asks for more behind the last frame. -/
theorem parse_rest (h : parse.Stable) (hopen : (parse.drain input).error = none) :
    parse (parse.drain input).rest = .ok none := by
  induction input using h.induction with
  | none input hparse => rw [drain_of_none hparse]; exact hparse
  | error input e hparse => rw [drain_of_error hparse] at hopen; cases hopen
  | frame input value used hparse ih =>
    rw [drain_of_frame h hparse] at hopen ⊢
    exact ih hopen

/-- What comes later is behind the frames that were there. -/
theorem drain_append (h : parse.Stable) (hopen : (parse.drain input).error = none)
    (more : List α) :
    parse.drain (input ++ more) =
      (parse.drain ((parse.drain input).rest ++ more)).behind (parse.drain input).values := by
  induction input using h.induction with
  | none input hparse => rw [drain_of_none hparse]; rfl
  | error input e hparse => rw [drain_of_error hparse] at hopen; cases hopen
  | frame input value used hparse ih =>
    have hused := h.used_le hparse
    rw [drain_of_frame h hparse] at hopen ⊢
    rw [drain_of_frame h (h.frame_append hparse more), List.drop_append_of_le_length hused,
      ih hopen]
    rfl

/-- Behind an error nothing is read. -/
theorem drain_append_of_error (h : parse.Stable) {e : ε}
    (herror : (parse.drain input).error = some e) (more : List α) :
    parse.drain (input ++ more) =
      { parse.drain input with rest := (parse.drain input).rest ++ more } := by
  induction input using h.induction with
  | none input hparse => rw [drain_of_none hparse] at herror; cases herror
  | error input e' hparse =>
    rw [drain_of_error hparse, drain_of_error (h.error_append hparse more)]
  | frame input value used hparse ih =>
    have hused := h.used_le hparse
    rw [drain_of_frame h hparse] at herror ⊢
    rw [drain_of_frame h (h.frame_append hparse more), List.drop_append_of_le_length hused,
      ih herror]
    rfl

/-- The frames of an encoded list are the values of the list. -/
theorem drain_encoded (h : parse.Stable) {encode : γ → List α} {value : γ → β} {items : List γ}
    (hencode : ∀ item ∈ items, ∀ tail,
      parse (encode item ++ tail) = .ok (some (value item, (encode item).length)))
    (tail : List α) :
    parse.drain (items.flatMap encode ++ tail) =
      (parse.drain tail).behind (items.map value) := by
  induction items with
  | nil => rfl
  | cons item rest ih =>
    have hhead := hencode item List.mem_cons_self (rest.flatMap encode ++ tail)
    have hrest := ih fun item' hmem => hencode item' (List.mem_cons_of_mem item hmem)
    rw [List.flatMap_cons, List.append_assoc, drain_of_frame h hhead, List.drop_left, hrest]
    rfl

end FrameParser

end ApiVoy.Foundation
