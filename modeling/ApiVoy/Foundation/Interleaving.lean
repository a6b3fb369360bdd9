/-
# Interleavings

A system whose parties act in any order is one partial step function: an action
that is not possible in a state has no result there. Runs restrict the actions by
the state they are taken in, so that a condition on every step of a run can be
stated.
-/

import Mathlib.Logic.Basic

namespace ApiVoy.Foundation

variable {σ α : Type} {step : α → σ → Option σ} {admitted admitted' : σ → α → Prop} {s t u : σ}

/-- The states that follow `s` when every action taken is admitted where it is
taken. -/
inductive Follows (step : α → σ → Option σ) (admitted : σ → α → Prop) (s : σ) : σ → Prop
  | refl : Follows step admitted s s
  | step {t u : σ} (h : Follows step admitted s t) (a : α) (hadmitted : admitted t a)
      (hstep : step a t = some u) : Follows step admitted s u

namespace Follows

theorem trans (hst : Follows step admitted s t) (htu : Follows step admitted t u) :
    Follows step admitted s u := by
  induction htu with
  | refl => exact hst
  | step _ a hadmitted hstep ih => exact .step ih a hadmitted hstep

/-- Admitting more actions loses no state. -/
theorem mono (himp : ∀ s a, admitted s a → admitted' s a) (h : Follows step admitted s t) :
    Follows step admitted' s t := by
  induction h with
  | refl => exact .refl
  | step _ a hadmitted hstep ih => exact .step ih a (himp _ _ hadmitted) hstep

/-- What holds at the start and is kept by every admitted action holds from then
on. -/
theorem invariant {I : σ → Prop} (h : Follows step admitted s t) (hs : I s)
    (hstep : ∀ s a s', I s → admitted s a → step a s = some s' → I s') : I t := by
  induction h with
  | refl => exact hs
  | step _ a hadmitted hnext ih => exact hstep _ a _ ih hadmitted hnext

end Follows

/-- Take the actions one after another. -/
def perform (step : α → σ → Option σ) : List α → σ → Option σ
  | [], s => some s
  | a :: rest, s => (step a s).bind (perform step rest)

variable {actions : List α}

theorem follows_of_perform (h : perform step actions s = some t) :
    Follows step (fun _ _ => True) s t := by
  induction actions generalizing s with
  | nil =>
    cases h
    exact .refl
  | cons a rest ih =>
    obtain ⟨mid, hmid, hrest⟩ := Option.bind_eq_some_iff.mp h
    exact Follows.trans (.step .refl a trivial hmid) (ih hrest)

/-- Take the actions one after another, each only where it is admitted. -/
def performAdmitted (step : α → σ → Option σ) (admitted : σ → α → Prop)
    [∀ s a, Decidable (admitted s a)] : List α → σ → Option σ :=
  perform fun a s => if admitted s a then step a s else none

theorem follows_of_performAdmitted [∀ s a, Decidable (admitted s a)]
    (h : performAdmitted step admitted actions s = some t) : Follows step admitted s t := by
  have hfollows := follows_of_perform h
  clear h
  induction hfollows with
  | refl => exact .refl
  | step _ a _ hnext ih =>
    obtain ⟨hadmitted, hnext⟩ := Option.ite_none_right_eq_some.mp hnext
    exact .step ih a hadmitted hnext

/-- Every step that is taken while the actions are performed is of this kind. -/
def EveryStep (step : α → σ → Option σ) (kind : σ → α → σ → Prop) : List α → σ → Prop
  | [], _ => True
  | a :: rest, s =>
    match step a s with
    | none => True
    | some t => kind s a t ∧ EveryStep step kind rest t

namespace EveryStep

variable {kind : σ → α → σ → Prop} {a : α} {rest : List α}

theorem cons_of_some (h : step a s = some t) :
    EveryStep step kind (a :: rest) s ↔ kind s a t ∧ EveryStep step kind rest t := by
  rw [EveryStep, h]

instance decidable [∀ s a t, Decidable (kind s a t)] :
    ∀ (actions : List α) (s : σ), Decidable (EveryStep step kind actions s)
  | [], _ => .isTrue trivial
  | a :: rest, s =>
    match h : step a s with
    | none => .isTrue (by rw [EveryStep, h]; trivial)
    | some t =>
      have := decidable rest t
      decidable_of_iff (kind s a t ∧ EveryStep step kind rest t) (cons_of_some h).symm

/-- What is performed follows by admitted steps when every step was admitted. -/
theorem follows {actions : List α} (hsteps : EveryStep step (fun s a _ => admitted s a) actions s)
    (h : perform step actions s = some t) : Follows step admitted s t := by
  induction actions generalizing s with
  | nil =>
    cases h
    exact .refl
  | cons a rest ih =>
    obtain ⟨mid, hmid, hrest⟩ := Option.bind_eq_some_iff.mp h
    have ⟨hadmitted, hsteps'⟩ := (cons_of_some hmid).mp hsteps
    exact Follows.trans (.step .refl a hadmitted hmid) (ih hsteps' hrest)

end EveryStep

/-! ## What comes about -/

/-- Whichever admitted steps are taken, a state with `P` is reached. -/
inductive Inevitable (step : α → σ → Option σ) (admitted : σ → α → Prop) (P : σ → Prop) :
    σ → Prop
  | now {s : σ} (h : P s) : Inevitable step admitted P s
  | later {s : σ} (hsome : ∃ a t, admitted s a ∧ step a s = some t)
      (hall : ∀ a t, admitted s a → step a s = some t → Inevitable step admitted P t) :
      Inevitable step admitted P s

namespace Inevitable

variable {P I : σ → Prop}

theorem exists_follows (h : Inevitable step admitted P s) :
    ∃ t, Follows step admitted s t ∧ P t := by
  induction h with
  | now h => exact ⟨_, .refl, h⟩
  | later hsome _ ih =>
    have ⟨a, t, hadmitted, hstep⟩ := hsome
    have ⟨u, hfollows, hu⟩ := ih a t hadmitted hstep
    exact ⟨u, Follows.trans (.step .refl a hadmitted hstep) hfollows, hu⟩

/-- `P` comes about where steps use something up and one is possible as long as `P` does
not hold. -/
theorem of_measure (measure : σ → Nat)
    (hprogress : ∀ s, I s → P s ∨ ∃ a t, admitted s a ∧ step a s = some t)
    (hkeeps : ∀ s a t, I s → admitted s a → step a s = some t → I t ∧ measure t < measure s)
    (hs : I s) : Inevitable step admitted P s := by
  induction hn : measure s using Nat.strongRecOn generalizing s with
  | _ n ih =>
    rcases hprogress s hs with hP | hsome
    · exact .now hP
    · refine .later hsome fun a t hadmitted hstep => ?_
      have ⟨ht, hless⟩ := hkeeps s a t hs hadmitted hstep
      exact ih (measure t) (hn ▸ hless) ht rfl

end Inevitable

end ApiVoy.Foundation
