/-
# Runs on a machine

A run computes with machine words, reads slices and asks for memory. It may fault: where a sum
or a product is no word, where a slice is out of bounds, where the memory asked for cannot be
addressed, and where the stack is full. What it asks for is recorded, so that it can be compared
with what it had to work on.
-/

import Mathlib.Algebra.Group.Nat.Defs
import Mathlib.Data.List.Basic
import Mathlib.Tactic.Common

namespace ApiVoy.Foundation

inductive Fault where
  | overflow | bounds | capacity | stack
  deriving DecidableEq

/-- What a run has asked for, and what has come of it. -/
structure Metered (ρ α : Type) where
  requests : List ρ
  outcome : Except Fault α

namespace Metered

variable {ρ α β : Type}

def fault (fault : Fault) : Metered ρ α := ⟨[], .error fault⟩

def request (request : ρ) : Metered ρ Unit := ⟨[request], .ok ()⟩

/-- Go on behind a run unless it has faulted. -/
def andThen (run : Metered ρ α) (next : α → Metered ρ β) : Metered ρ β :=
  match run.outcome with
  | .ok value => ⟨run.requests ++ (next value).requests, (next value).outcome⟩
  | .error fault => ⟨run.requests, .error fault⟩

instance : Monad (Metered ρ) where
  pure value := ⟨[], .ok value⟩
  bind := andThen

/-! ## Words -/

/-- The number of words of the machine. -/
def wordSize : Nat := 2 ^ 64

/-- The most bytes that can be asked for at once. -/
def maxBytes : Nat := 2 ^ 63 - 1

def add (a b : Nat) : Metered ρ Nat := if a + b < wordSize then pure (a + b) else fault .overflow

def mul (a b : Nat) : Metered ρ Nat := if a * b < wordSize then pure (a * b) else fault .overflow

def slice (input : List β) (first last : Nat) : Metered ρ (List β) :=
  if first ≤ last ∧ last ≤ input.length then pure ((input.drop first).take (last - first))
  else fault .bounds

/-! ## Safe runs -/

/-- A run ends with a value, and all it has asked for is fine. -/
def Safe (fine : ρ → Prop) (run : Metered ρ α) (value : α) : Prop :=
  run.outcome = .ok value ∧ ∀ request ∈ run.requests, fine request

variable {fine : ρ → Prop}

theorem safe_pure_iff {a b : α} : Safe fine (pure a) b ↔ b = a := by
  constructor
  · intro h
    exact (Except.ok.inj h.1).symm
  · rintro rfl
    exact ⟨rfl, fun _ hmem => by cases hmem⟩

theorem safe_fault {reason : Fault} {b : α} : ¬Safe fine (fault reason) b := by
  intro h
  cases h.1

theorem safe_request_iff {r : ρ} {b : Unit} : Safe fine (request r) b ↔ fine r := by
  constructor
  · intro h
    exact h.2 r List.mem_cons_self
  · intro h
    exact ⟨rfl, List.forall_mem_singleton.mpr h⟩

/-- A run is safe when each of its parts is. -/
theorem safe_bind_iff {run : Metered ρ α} {next : α → Metered ρ β} {b : β} :
    Safe fine (run >>= next) b ↔ ∃ a, Safe fine run a ∧ Safe fine (next a) b := by
  have hbind : run >>= next = andThen run next := rfl
  rw [hbind]
  unfold Safe andThen
  cases hrun : run.outcome with
  | error reason => simp
  | ok value =>
    simp only [Except.ok.injEq, List.forall_mem_append]
    constructor
    · rintro ⟨houtcome, hbefore, hafter⟩
      exact ⟨value, ⟨rfl, hbefore⟩, houtcome, hafter⟩
    · rintro ⟨a, ⟨rfl, hbefore⟩, houtcome, hafter⟩
      exact ⟨houtcome, hbefore, hafter⟩

theorem safe_add_iff {a b n : Nat} :
    Safe fine (add a b) n ↔ n = a + b ∧ a + b < wordSize := by
  unfold add
  split
  · rename_i hword
    rw [safe_pure_iff, and_iff_left hword]
  · rename_i hword
    exact iff_of_false safe_fault fun h => hword h.2

theorem safe_mul_iff {a b n : Nat} :
    Safe fine (mul a b) n ↔ n = a * b ∧ a * b < wordSize := by
  unfold mul
  split
  · rename_i hword
    rw [safe_pure_iff, and_iff_left hword]
  · rename_i hword
    exact iff_of_false safe_fault fun h => hword h.2

theorem safe_slice_iff {input part : List β} {first last : Nat} :
    Safe fine (slice input first last) part ↔
      part = (input.drop first).take (last - first) ∧ first ≤ last ∧ last ≤ input.length := by
  unfold slice
  split
  · rename_i hbounds
    rw [safe_pure_iff, and_iff_left hbounds]
  · rename_i hbounds
    exact iff_of_false safe_fault fun h => hbounds h.2

end Metered

end ApiVoy.Foundation
