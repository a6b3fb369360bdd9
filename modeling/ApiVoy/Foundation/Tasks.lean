/-
# Tasks around a shared state

Any number of tasks share one state; each has a phase of its own, and one task at
a time moves. A move changes the shared state and the phase of the task that makes
it. An invariant is given by what holds of the shared state and by what each task
may rely on: a move must establish both and leave the other tasks what they rely
on.
-/

import Mathlib.Logic.Function.Basic
import ApiVoy.Foundation.Interleaving

namespace ApiVoy.Foundation

variable {ι σ φ α : Type}

structure Tasks (ι σ φ : Type) where
  shared : σ
  phase : ι → φ

namespace Tasks

/-- All tasks in one phase. -/
def start (shared : σ) (phase : φ) : Tasks ι σ φ := ⟨shared, fun _ => phase⟩

section Move

variable [DecidableEq ι] {w w' : Tasks ι σ φ} {i j : ι} {next : σ × φ}

/-- Task `i` moves on. -/
def move (w : Tasks ι σ φ) (i : ι) (next : σ × φ) : Tasks ι σ φ :=
  ⟨next.1, Function.update w.phase i next.2⟩

@[simp]
theorem shared_move : (w.move i next).shared = next.1 := rfl

@[simp]
theorem phase_move_self : (w.move i next).phase i = next.2 := by
  simp [move]

@[simp]
theorem phase_move_of_ne (h : j ≠ i) : (w.move i next).phase j = w.phase j := by
  simp [move, h]

/-- A phase after a move is the new one or one that was there before. -/
theorem phase_move_cases {p : φ} (h : (w.move i next).phase j = p) :
    (j = i ∧ next.2 = p) ∨ (j ≠ i ∧ w.phase j = p) := by
  by_cases hj : j = i
  · subst hj
    rw [phase_move_self] at h
    exact Or.inl ⟨rfl, h⟩
  · rw [phase_move_of_ne hj] at h
    exact Or.inr ⟨hj, h⟩

theorem phase_move_of_phase {p : φ} (h : w.phase j = p) (hi : w.phase i ≠ p) :
    (w.move i next).phase j = p := by
  have hj : j ≠ i := by
    intro heq
    subst heq
    exact hi h
  rw [phase_move_of_ne hj, h]

/-- The moves of the tasks of a system, from the one rule they all follow. -/
def step (advance : ι → α → σ → φ → Option (σ × φ)) (i : ι) (a : α) (w : Tasks ι σ φ) :
    Option (Tasks ι σ φ) :=
  (advance i a w.shared (w.phase i)).map (w.move i)

theorem step_eq_some_iff {advance : ι → α → σ → φ → Option (σ × φ)} {a : α} :
    step advance i a w = some w' ↔
      ∃ next, advance i a w.shared (w.phase i) = some next ∧ w' = w.move i next := by
  rw [step, Option.map_eq_some_iff]
  constructor
  · intro ⟨next, hnext, heq⟩
    exact ⟨next, hnext, heq.symm⟩
  · intro ⟨next, hnext, heq⟩
    exact ⟨next, hnext, heq.symm⟩

end Move

/-! ## Invariants -/

/-- The shared state has `G`, and every task can rely on `J`. -/
structure Holds (G : σ → Prop) (J : ι → σ → φ → Prop) (w : Tasks ι σ φ) : Prop where
  shared : G w.shared
  task : ∀ i, J i w.shared (w.phase i)

namespace Holds

variable {G : σ → Prop} {J : ι → σ → φ → Prop} {w : Tasks ι σ φ}

/-- A move keeps an invariant when the task that makes it establishes its part and
leaves the others theirs. -/
theorem move [DecidableEq ι] (h : w.Holds G J) {i : ι} {next : σ × φ} (hshared : G next.1)
    (hself : J i next.1 next.2)
    (hothers : ∀ j, j ≠ i → J j w.shared (w.phase j) → J j next.1 (w.phase j)) :
    (w.move i next).Holds G J where
  shared := hshared
  task j := by
    by_cases hj : j = i
    · subst hj
      rw [phase_move_self]
      exact hself
    · rw [phase_move_of_ne hj]
      exact hothers j hj (h.task j)

/-- A change from outside must leave every task what it relies on. -/
theorem outside (h : w.Holds G J) {s : σ} (hshared : G s)
    (hothers : ∀ j, J j w.shared (w.phase j) → J j s (w.phase j)) :
    (Tasks.mk s w.phase).Holds G J where
  shared := hshared
  task j := hothers j (h.task j)

end Holds

end Tasks

end ApiVoy.Foundation
