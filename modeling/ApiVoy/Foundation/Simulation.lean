/-
# Programs in lockstep

Two programs over different states run in lockstep when, started from a state and from
its image under the same schedule, they have the same outcome and end in a state and its
image. What the one program knows of its own state on the way may be used: sequencing
takes a triple of the first program for that.
-/

import ApiVoy.Foundation.Triple

namespace ApiVoy.Foundation

variable {σ τ ε α β ι : Type}

/-- The image of a state under the same schedule. -/
def Scheduled.map (φ : σ → τ) (w : Scheduled σ) : Scheduled τ := ⟨φ w.state, w.faults⟩

namespace Fallible

variable {φ : σ → τ} {P P' E : σ → Prop} {Q : α → σ → Prop}

/-- From each state in `P` the second program follows the first one. -/
def Lockstep (φ : σ → τ) (P : σ → Prop) (m : Fallible (Scheduled σ) ε α)
    (n : Fallible (Scheduled τ) ε α) : Prop :=
  ∀ s faults, P s →
    n.run ⟨φ s, faults⟩ = ((m.run ⟨s, faults⟩).1, (m.run ⟨s, faults⟩).2.map φ)

namespace Lockstep

variable {m : Fallible (Scheduled σ) ε α} {n : Fallible (Scheduled τ) ε α}
  {f : α → Fallible (Scheduled σ) ε β} {g : α → Fallible (Scheduled τ) ε β}

theorem weaken (h : Lockstep φ P m n) (hpre : ∀ s, P' s → P s) : Lockstep φ P' m n :=
  fun s faults hs => h s faults (hpre s hs)

theorem pure (a : α) :
    Lockstep φ P (Pure.pure a : Fallible (Scheduled σ) ε α) (Pure.pure a) :=
  fun _ _ _ => rfl

theorem fail (e : ε) : Lockstep φ P (Fallible.fail e : Fallible (Scheduled σ) ε α) (Fallible.fail e) :=
  fun _ _ _ => rfl

/-- Effects are struck together. -/
theorem attempt {e : ε} {action : σ → Except ε α × σ} {action' : τ → Except ε α × τ}
    (h : ∀ s, P s → action' (φ s) = ((action s).1, φ (action s).2)) :
    Lockstep φ P (Fallible.attempt e action) (Fallible.attempt e action') := by
  intro s faults hs
  by_cases hstruck : faults.head? = some true
  · rw [run_attempt_of_struck hstruck, run_attempt_of_struck hstruck]
    rfl
  · rw [run_attempt_of_not_struck hstruck, run_attempt_of_not_struck hstruck]
    show ((action' (φ s)).1, _) = _
    rw [h s hs]
    rfl

theorem bind (hm : Lockstep φ P m n) (hpost : Triple P m Q E)
    (hf : ∀ a, Lockstep φ (Q a) (f a) (g a)) : Lockstep φ P (m >>= f) (n >>= g) := by
  intro s faults hs
  have hfirst := hm s faults hs
  have hafter := hpost s faults hs
  rw [run_bind, run_bind, hfirst]
  rcases hrun : m.run ⟨s, faults⟩ with ⟨e | a, w⟩
  · rfl
  · rw [hrun] at hafter
    exact hf a w.state w.faults hafter

/-- Sequencing where nothing needs to be known in between. -/
theorem bind_all (hm : Lockstep φ P m n) (hf : ∀ a, Lockstep φ (fun _ => True) (f a) (g a)) :
    Lockstep φ P (m >>= f) (n >>= g) :=
  hm.bind (Triple.trivial m) hf

theorem recover {handler : ε → Fallible (Scheduled σ) ε α}
    {handler' : ε → Fallible (Scheduled τ) ε α} (hm : Lockstep φ P m n) (hpost : Triple P m Q E)
    (hh : ∀ e, Lockstep φ E (handler e) (handler' e)) :
    Lockstep φ P (m.recover handler) (n.recover handler') := by
  intro s faults hs
  have hfirst := hm s faults hs
  have hafter := hpost s faults hs
  rw [run_recover, run_recover, hfirst]
  rcases hrun : m.run ⟨s, faults⟩ with ⟨e | a, w⟩
  · rw [hrun] at hafter
    exact hh e w.state w.faults hafter
  · rfl

theorem ignore (hm : Lockstep φ P m n) : Lockstep φ P (Fallible.ignore m) (Fallible.ignore n) := by
  intro s faults hs
  rw [run_ignore, run_ignore, hm s faults hs]

/-- A loop over the same list. -/
theorem each {I : List α → σ → Prop} {f : α → Fallible (Scheduled σ) ε Unit}
    {g : α → Fallible (Scheduled τ) ε Unit}
    (hf : ∀ a rest, Lockstep φ (I (a :: rest)) (f a) (g a))
    (hpost : ∀ a rest, Triple (I (a :: rest)) (f a) (fun _ => I rest) E) (items : List α) :
    Lockstep φ (I items) (Fallible.each f items) (Fallible.each g items) := by
  induction items with
  | nil => exact pure ()
  | cons a rest ih => exact (hf a rest).bind (hpost a rest) fun _ => ih

end Lockstep

/-! ## Whole runs -/

/-- Programs one after another, each under a schedule of its own: their outcomes, and the
state the last one leaves. -/
def runAll (program : ι → Fallible (Scheduled σ) ε α) :
    List (ι × List Bool) → σ → List (Except ε α) × σ
  | [], s => ([], s)
  | (i, faults) :: rest, s =>
    let (r, w) := (program i).run ⟨s, faults⟩
    let (rs, s') := runAll program rest w.state
    (r :: rs, s')

/-- Every step of the run is admitted by the state it starts in, its program and its
schedule. -/
def AllSteps (program : ι → Fallible (Scheduled σ) ε α) (admitted : σ → ι → List Bool → Prop) :
    List (ι × List Bool) → σ → Prop
  | [], _ => True
  | (i, faults) :: rest, s =>
    admitted s i faults ∧ AllSteps program admitted rest ((program i).run ⟨s, faults⟩).2.state

variable {program : ι → Fallible (Scheduled σ) ε α} {program' : ι → Fallible (Scheduled τ) ε α}
  {admitted : σ → ι → List Bool → Prop} {I : σ → Prop}

variable {steps : List (ι × List Bool)}

/-- Steps that are admitted wherever they start. -/
theorem AllSteps.of_forall {s : σ} (h : ∀ step ∈ steps, ∀ s, admitted s step.1 step.2) :
    AllSteps program admitted steps s := by
  induction steps generalizing s with
  | nil => exact True.intro
  | cons step rest ih =>
    exact ⟨h step List.mem_cons_self s, ih fun later hlater => h later (List.mem_cons_of_mem _ hlater)⟩

/-- What admitted steps keep holds after the run. -/
theorem AllSteps.invariant
    (hstep : ∀ s i faults, I s → admitted s i faults → I ((program i).run ⟨s, faults⟩).2.state)
    {s : σ} (h : AllSteps program admitted steps s) (hs : I s) : I (runAll program steps s).2 := by
  induction steps generalizing s with
  | nil => exact hs
  | cons step rest ih => exact ih h.2 (hstep s step.1 step.2 hs h.1)

/-- Steps in lockstep make runs in lockstep. -/
theorem runAll_map
    (hstep : ∀ s i faults, I s → admitted s i faults → I ((program i).run ⟨s, faults⟩).2.state)
    (hlock : ∀ s i faults, I s → admitted s i faults → (program' i).run ⟨φ s, faults⟩ =
      (((program i).run ⟨s, faults⟩).1, ((program i).run ⟨s, faults⟩).2.map φ))
    {steps : List (ι × List Bool)} {s : σ} (h : AllSteps program admitted steps s) (hs : I s) :
    runAll program' steps (φ s) = ((runAll program steps s).1, φ (runAll program steps s).2) := by
  induction steps generalizing s with
  | nil => rfl
  | cons step rest ih =>
    have hfirst := hlock s step.1 step.2 hs h.1
    have hrest := ih h.2 (hstep s step.1 step.2 hs h.1)
    simp only [runAll, hfirst, Scheduled.map, hrest]

end Fallible

end ApiVoy.Foundation
