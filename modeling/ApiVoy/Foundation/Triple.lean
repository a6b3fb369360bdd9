/-
# Triples for steps that may fail

What holds after a step is said for both of its outcomes: one assertion for the
value it returns and one for the state an error leaves. A failure may strike
anywhere, so the assertion for errors has to hold at every point a step can stop.
-/

import ApiVoy.Foundation.Fallible

namespace ApiVoy.Foundation.Fallible

variable {σ ε α β : Type} {P P' E E' : σ → Prop} {Q Q' : α → σ → Prop} {R : β → σ → Prop}

/-- From a state in `P` the step returns `a` in a state in `Q a`, or it fails in a
state in `E`, whatever the schedule. -/
def Triple (P : σ → Prop) (m : Fallible (Scheduled σ) ε α) (Q : α → σ → Prop) (E : σ → Prop) :
    Prop :=
  ∀ s faults, P s →
    match m.run ⟨s, faults⟩ with
    | (.ok a, w) => Q a w.state
    | (.error _, w) => E w.state

namespace Triple

variable {m : Fallible (Scheduled σ) ε α} {f : α → Fallible (Scheduled σ) ε β}

theorem pure (a : α) (h : ∀ s, P s → Q a s) :
    Triple P (Pure.pure a : Fallible (Scheduled σ) ε α) Q E :=
  fun s _ hs => h s hs

theorem fail (e : ε) (h : ∀ s, P s → E s) :
    Triple P (Fallible.fail e : Fallible (Scheduled σ) ε α) Q E :=
  fun s _ hs => h s hs

theorem weaken (h : Triple P m Q E) (hpre : ∀ s, P' s → P s) (hpost : ∀ a s, Q a s → Q' a s)
    (herror : ∀ s, E s → E' s) : Triple P' m Q' E' := by
  intro s faults hs
  have hrun := h s faults (hpre s hs)
  rcases hm : m.run ⟨s, faults⟩ with ⟨e | a, w⟩
  · rw [hm] at hrun
    exact herror _ hrun
  · rw [hm] at hrun
    exact hpost a _ hrun

theorem trivial (m : Fallible (Scheduled σ) ε α) : Triple P m (fun _ _ => True) fun _ => True := by
  intro s faults _
  rcases m.run ⟨s, faults⟩ with ⟨_ | _, _⟩ <;> exact True.intro

theorem bind (hm : Triple P m Q E) (hf : ∀ a, Triple (Q a) (f a) R E) :
    Triple P (m >>= f) R E := by
  intro s faults hs
  have hfirst := hm s faults hs
  rw [run_bind]
  rcases hrun : m.run ⟨s, faults⟩ with ⟨e | a, w⟩
  · rw [hrun] at hfirst
    exact hfirst
  · rw [hrun] at hfirst
    exact hf a w.state w.faults hfirst

/-- A handler starts where the error has left the state. -/
theorem recover {handler : ε → Fallible (Scheduled σ) ε α} (hm : Triple P m Q E')
    (hh : ∀ e, Triple E' (handler e) Q E) : Triple P (m.recover handler) Q E := by
  intro s faults hs
  have hfirst := hm s faults hs
  rw [run_recover]
  rcases hrun : m.run ⟨s, faults⟩ with ⟨e | a, w⟩
  · rw [hrun] at hfirst
    exact hh e w.state w.faults hfirst
  · rw [hrun] at hfirst
    exact hfirst

/-- An effect that is struck leaves the state as it is. -/
theorem attempt {e : ε} {action : σ → Except ε α × σ} (hstruck : ∀ s, P s → E s)
    (haction : ∀ s, P s →
      match action s with
      | (.ok a, s') => Q a s'
      | (.error _, s') => E s') : Triple P (Fallible.attempt e action) Q E := by
  intro s faults hs
  by_cases hfault : faults.head? = some true
  · rw [run_attempt_of_struck hfault]
    exact hstruck s hs
  · rw [run_attempt_of_not_struck hfault]
    have hdone := haction s hs
    rcases hresult : action s with ⟨e | a, s'⟩
    · rw [hresult] at hdone
      exact hdone
    · rw [hresult] at hdone
      exact hdone

/-- An assertion about the part of a list that is still to come. -/
theorem each {I : List α → σ → Prop} {f : α → Fallible (Scheduled σ) ε Unit}
    (hf : ∀ a rest, Triple (I (a :: rest)) (f a) (fun _ => I rest) E) (items : List α) :
    Triple (I items) (Fallible.each f items) (fun _ => I []) E := by
  induction items with
  | nil => exact pure () fun _ hs => hs
  | cons a rest ih => exact bind (hf a rest) fun _ => ih

/-- What a step maintains it maintains whatever its outcome. -/
theorem of_maintains (h : Maintains (fun w : Scheduled σ => P w.state) m) :
    Triple P m (fun _ => P) P := by
  intro s faults hs
  have hkept := h ⟨s, faults⟩ hs
  rcases hrun : m.run ⟨s, faults⟩ with ⟨e | a, w⟩
  · rw [hrun] at hkept
    exact hkept
  · rw [hrun] at hkept
    exact hkept

/-- A triple with one assertion for both outcomes is an invariant. -/
theorem maintains (h : Triple P m (fun _ => P) P) :
    Maintains (fun w : Scheduled σ => P w.state) m := by
  intro w hw
  have hrun := h w.state w.faults hw
  rcases hm : m.run w with ⟨e | a, w'⟩
  · have hstate : m.run ⟨w.state, w.faults⟩ = (.error e, w') := hm
    rw [hstate] at hrun
    exact hrun
  · have hstate : m.run ⟨w.state, w.faults⟩ = (.ok a, w') := hm
    rw [hstate] at hrun
    exact hrun

/-- Two triples of one step. -/
theorem and {P₂ E₂ : σ → Prop} {Q₂ : α → σ → Prop} (h : Triple P m Q E)
    (h₂ : Triple P₂ m Q₂ E₂) :
    Triple (fun s => P s ∧ P₂ s) m (fun a s => Q a s ∧ Q₂ a s) (fun s => E s ∧ E₂ s) := by
  intro s faults hs
  have hrun := h s faults hs.1
  have hrun₂ := h₂ s faults hs.2
  rcases hdone : m.run ⟨s, faults⟩ with ⟨e | a, w⟩
  · rw [hdone] at hrun hrun₂
    exact ⟨hrun, hrun₂⟩
  · rw [hdone] at hrun hrun₂
    exact ⟨hrun, hrun₂⟩

/-- An invariant of the step holds beside what the triple says. -/
theorem and_maintains {I : σ → Prop} (h : Triple P m Q E)
    (hm : Maintains (fun w : Scheduled σ => I w.state) m) :
    Triple (fun s => P s ∧ I s) m (fun a s => Q a s ∧ I s) (fun s => E s ∧ I s) :=
  h.and (of_maintains hm)

/-- What a run that returned has established. -/
theorem of_run (h : Triple P m Q E) {s : σ} {faults : List Bool} {a : α} {w : Scheduled σ}
    (hs : P s) (hrun : m.run ⟨s, faults⟩ = (.ok a, w)) : Q a w.state := by
  have hdone := h s faults hs
  rw [hrun] at hdone
  exact hdone

end Triple

/-! ## Without a schedule -/

/-- From a state in `P` the step returns `a` in a state in `Q a`, or it fails in a state in `E`. -/
def Ends (P : σ → Prop) (m : Fallible σ ε α) (Q : α → σ → Prop) (E : σ → Prop) : Prop :=
  ∀ s, P s →
    match m.run s with
    | (.ok a, s') => Q a s'
    | (.error _, s') => E s'

namespace Ends

variable {m : Fallible σ ε α} {f : α → Fallible σ ε β}

theorem pure (a : α) (h : ∀ s, P s → Q a s) : Ends P (Pure.pure a : Fallible σ ε α) Q E := h

theorem bind (hm : Ends P m Q E) (hf : ∀ a, Ends (Q a) (f a) R E) : Ends P (m >>= f) R E := by
  intro s hs
  have hfirst := hm s hs
  rw [run_bind]
  rcases hrun : m.run s with ⟨e | a, s'⟩
  · rw [hrun] at hfirst
    exact hfirst
  · rw [hrun] at hfirst
    exact hf a s' hfirst

/-- What is known beforehand whatever the state. -/
theorem of_and {known : Prop} (h : known → Ends P m Q E) :
    Ends (fun s => known ∧ P s) m Q E := fun s hs => h hs.1 s hs.2

end Ends

end ApiVoy.Foundation.Fallible
