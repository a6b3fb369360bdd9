/-
# Reading up to a mark

A reader takes the pieces of a stream until what it has got satisfies a test. The part of the
stream that it is after is the shortest one that does. The reader takes whole pieces, so that
it gets this part exactly when one of the pieces ends where the part does.
-/

import Mathlib.Data.List.Infix

namespace ApiVoy.Foundation

variable {α : Type}

/-- The first part of a stream that satisfies a test, or the whole stream if no part does. -/
structure StopsAt (stop : List α → Bool) (stream part : List α) : Prop where
  isPrefix : part <+: stream
  least : ∀ {other}, other <+: stream → stop other = true → part <+: other
  stopped : stop part = true ∨ part = stream

/-- The pieces that are taken when some elements are there already. -/
def takePieces (stop : List α → Bool) : List α → List (List α) → List (List α)
  | _, [] => []
  | taken, piece :: pieces =>
    if stop (taken ++ piece) = true then [piece]
    else piece :: takePieces stop (taken ++ piece) pieces

variable {pieces : List (List α)}

variable {stop : List α → Bool}

theorem mem_of_mem_takePieces {taken piece : List α} (h : piece ∈ takePieces stop taken pieces) :
    piece ∈ pieces := by
  induction pieces generalizing taken with
  | nil => exact h
  | cons first pieces ih =>
    rw [takePieces] at h
    split at h
    · exact List.mem_singleton.mp h ▸ List.mem_cons_self
    · rcases List.mem_cons.mp h with rfl | h
      · exact List.mem_cons_self
      · exact List.mem_cons_of_mem _ (ih h)

/-- The part is taken exactly when a piece ends where it does. -/
theorem flatten_takePieces_eq_iff {taken part : List α} (hopen : stop taken = false)
    (hpart : StopsAt stop (taken ++ pieces.flatten) part) :
    taken ++ (takePieces stop taken pieces).flatten = part ↔
      ∃ count, taken ++ (pieces.take count).flatten = part := by
  induction pieces generalizing taken with
  | nil =>
    have htake : ∀ count, taken ++ (([] : List (List α)).take count).flatten = taken :=
      fun count => by rw [List.take_nil, List.flatten_nil, List.append_nil]
    rw [takePieces, List.flatten_nil, List.append_nil]
    exact ⟨fun h => ⟨0, (htake 0).trans h⟩, fun ⟨count, h⟩ => (htake count).symm.trans h⟩
  | cons piece pieces ih =>
    have hsucc : ∀ count, taken ++ ((piece :: pieces).take (count + 1)).flatten =
        taken ++ piece ++ (pieces.take count).flatten := fun count => by
      rw [List.take_succ_cons, List.flatten_cons, List.append_assoc]
    -- A part that ends before the first piece is the whole stream, and the piece is empty.
    have hempty : taken = part → piece = [] := fun h => by
      subst h
      rcases hpart.stopped with hstop | hall
      · rw [hopen] at hstop
        cases hstop
      · rw [List.flatten_cons] at hall
        exact (List.append_eq_nil_iff.mp (List.self_eq_append_right.mp hall)).1
    rw [List.flatten_cons, ← List.append_assoc] at hpart
    rw [takePieces]
    by_cases hstop : stop (taken ++ piece) = true
    · rw [if_pos hstop, List.flatten_singleton]
      constructor
      · exact fun h => ⟨1, (hsucc 0).trans ((List.append_nil _).trans h)⟩
      · rintro ⟨count, h⟩
        cases count with
        | zero =>
          rw [List.take_zero, List.flatten_nil, List.append_nil] at h
          rw [hempty h, List.append_nil, h]
        | succ count =>
          have hwithin : part <+: taken ++ piece :=
            hpart.least (List.prefix_append _ _) hstop
          rw [hsucc] at h
          exact (List.prefix_append _ _).eq_of_length_le (h ▸ hwithin.length_le) |>.trans h
    · rw [if_neg hstop, List.flatten_cons, ← List.append_assoc,
        ih (eq_false_of_ne_true hstop) hpart]
      constructor
      · exact fun ⟨count, h⟩ => ⟨count + 1, (hsucc count).trans h⟩
      · rintro ⟨count, h⟩
        cases count with
        | zero =>
          rw [List.take_zero, List.flatten_nil, List.append_nil] at h
          refine ⟨0, ?_⟩
          rw [List.take_zero, List.flatten_nil, List.append_nil, hempty h, List.append_nil, h]
        | succ count => exact ⟨count, (hsucc count).symm.trans h⟩

/-! ## Tests -/

/-- A number of elements. -/
theorem stopsAt_take (length : Nat) (stream : List α) :
    StopsAt (fun taken => decide (length ≤ taken.length)) stream (stream.take length) where
  isPrefix := List.take_prefix _ _
  least := by
    intro other hother hlength
    rw [List.prefix_iff_eq_take.mp hother, List.prefix_take_iff]
    exact ⟨List.take_prefix _ _,
      Nat.le_trans (List.length_take_le _ _) (of_decide_eq_true hlength)⟩
  stopped := by
    by_cases h : length ≤ stream.length
    · exact .inl (decide_eq_true (Nat.le_of_eq (List.length_take_of_le h).symm))
    · exact .inr (List.take_of_length_le (Nat.le_of_not_le h))

theorem stopsAt_all (stream : List α) : StopsAt (fun _ => false) stream stream where
  isPrefix := List.prefix_rfl
  least := fun _ h => Bool.noConfusion h
  stopped := .inr rfl

section Marks

variable [DecidableEq α]

/-- What comes up to the first occurrence of a mark, and the mark. -/
def throughFirst (mark : List α) : List α → List α
  | [] => []
  | a :: rest => if mark <+: a :: rest then mark else a :: throughFirst mark rest

theorem stopsAt_throughFirst {mark : List α} (hmark : mark ≠ []) (stream : List α) :
    StopsAt (fun taken => decide (mark <:+: taken)) stream (throughFirst mark stream) := by
  induction stream with
  | nil =>
    refine ⟨List.prefix_rfl, fun hother hstop => ?_, .inr rfl⟩
    rw [List.prefix_nil.mp hother] at hstop
    exact absurd (List.infix_nil.mp (of_decide_eq_true hstop)) hmark
  | cons a rest ih =>
    rw [throughFirst]
    by_cases hfirst : mark <+: a :: rest
    · rw [if_pos hfirst]
      refine ⟨hfirst, fun hother hstop => ?_, .inl (decide_eq_true List.infix_rfl)⟩
      exact List.prefix_of_prefix_length_le hfirst hother
        (of_decide_eq_true hstop).length_le
    · rw [if_neg hfirst]
      refine ⟨List.cons_prefix_cons.mpr ⟨rfl, ih.isPrefix⟩, ?_, ?_⟩
      · intro other hother hstop
        cases other with
        | nil => exact absurd (List.infix_nil.mp (of_decide_eq_true hstop)) hmark
        | cons b other =>
          obtain ⟨rfl, htail⟩ := List.cons_prefix_cons.mp hother
          refine List.cons_prefix_cons.mpr ⟨rfl, ih.least htail (decide_eq_true ?_)⟩
          exact (List.infix_cons_iff.mp (of_decide_eq_true hstop)).resolve_left
            fun h => hfirst (h.trans hother)
      · exact ih.stopped.imp
          (fun h => decide_eq_true (List.infix_cons_iff.mpr (.inr (of_decide_eq_true h))))
          (congrArg _)

end Marks

end ApiVoy.Foundation
