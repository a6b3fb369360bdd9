/-
# Fallible stateful steps under a failure schedule

A step ends with a value or with an error, and the state it reached is kept in
both cases: a failing step does not undo what it did before. The effects a step
performs may be struck by failures from outside, one schedule entry for each
effect, so that a statement about every schedule is a statement about every
point at which the surrounding system may give out.

The rules come in two shapes. Inversion rules take a finished run apart into the
runs of its parts; preservation rules carry an invariant through a program
without looking at what the program computes.
-/

import Mathlib.Logic.Basic

namespace ApiVoy.Foundation

/-- A computation in two steps succeeds when both do. -/
theorem bind_eq_ok_iff {ε α β : Type} {m : Except ε α} {f : α → Except ε β} {b : β} :
    (m >>= f) = .ok b ↔ ∃ a, m = .ok a ∧ f a = .ok b := by
  cases m with
  | error e => exact iff_of_false (fun h => by cases h) fun ⟨a, h, _⟩ => by cases h
  | ok a => exact ⟨fun h => ⟨a, rfl, h⟩, fun ⟨a', h, hf⟩ => by cases h; exact hf⟩

/-- It fails when the first one does, or the second one behind it. -/
theorem bind_eq_error_iff {ε α β : Type} {m : Except ε α} {f : α → Except ε β} {e : ε} :
    (m >>= f) = .error e ↔ m = .error e ∨ ∃ a, m = .ok a ∧ f a = .error e := by
  cases m with
  | error e' =>
    constructor
    · rintro ⟨⟩
      exact .inl rfl
    · rintro (⟨⟨⟩⟩ | ⟨a, h, -⟩)
      · rfl
      · cases h
  | ok a =>
    constructor
    · exact fun h => .inr ⟨a, rfl, h⟩
    · rintro (h | ⟨a', ⟨⟩, h⟩)
      · cases h
      · exact h

/-- A step over `σ` that returns a value or an error together with the state it
reached. -/
def Fallible (σ ε α : Type) : Type := σ → Except ε α × σ

namespace Fallible

variable {σ ε α β : Type}

/-- Execute a step from a state. -/
def run (m : Fallible σ ε α) (s : σ) : Except ε α × σ := m s

instance : Monad (Fallible σ ε) where
  pure a := fun s => (.ok a, s)
  bind m f := fun s =>
    match m s with
    | (.ok a, s') => f a s'
    | (.error e, s') => (.error e, s')

/-- Stop with an error, leaving the state as it is. -/
def fail (e : ε) : Fallible σ ε α := fun s => (.error e, s)

/-- Run `m`; on an error continue with the handler from the state `m` left. -/
def recover (m : Fallible σ ε α) (handler : ε → Fallible σ ε α) : Fallible σ ε α := fun s =>
  match m s with
  | (.ok a, s') => (.ok a, s')
  | (.error e, s') => handler e s'

/-- Run `m` for its effect only: an error it ends with is dropped. -/
def ignore (m : Fallible σ ε α) : Fallible σ ε Unit := fun s => (.ok (), (m s).2)

/-- Run every step of a list in order, stopping at the first error. -/
def each (f : α → Fallible σ ε Unit) : List α → Fallible σ ε Unit
  | [] => pure ()
  | a :: rest => do
    f a
    each f rest

theorem ext {m n : Fallible σ ε α} (h : ∀ s, m.run s = n.run s) : m = n :=
  funext h

@[simp]
theorem run_pure (a : α) (s : σ) : (pure a : Fallible σ ε α).run s = (.ok a, s) := rfl

@[simp]
theorem run_fail (e : ε) (s : σ) : (fail e : Fallible σ ε α).run s = (.error e, s) := rfl

theorem run_bind (m : Fallible σ ε α) (f : α → Fallible σ ε β) (s : σ) :
    (m >>= f).run s =
      match m.run s with
      | (.ok a, s') => (f a).run s'
      | (.error e, s') => (.error e, s') := rfl

theorem run_recover (m : Fallible σ ε α) (handler : ε → Fallible σ ε α) (s : σ) :
    (m.recover handler).run s =
      match m.run s with
      | (.ok a, s') => (.ok a, s')
      | (.error e, s') => (handler e).run s' := rfl

@[simp]
theorem run_ignore (m : Fallible σ ε α) (s : σ) : (ignore m).run s = (.ok (), (m.run s).2) := rfl

theorem run_map (f : α → β) (m : Fallible σ ε α) (s : σ) :
    (f <$> m).run s =
      match m.run s with
      | (.ok a, s') => (.ok (f a), s')
      | (.error e, s') => (.error e, s') := rfl

/-- What is made of a value does not change the state. -/
theorem run_bind_pure_snd (m : Fallible σ ε α) (f : α → β) (s : σ) :
    ((m >>= fun a => pure (f a)).run s).2 = (m.run s).2 := by
  rw [run_bind]
  rcases m.run s with ⟨_ | _, _⟩ <;> rfl

variable {f : α → Fallible σ ε β} {m : Fallible σ ε α}

theorem run_bind_of_ok {s s' : σ} {a : α} (h : m.run s = (.ok a, s')) :
    (m >>= f).run s = (f a).run s' := by
  rw [run_bind, h]

theorem run_bind_of_error {s s' : σ} {e : ε} (h : m.run s = (.error e, s')) :
    (m >>= f).run s = (.error e, s') := by
  rw [run_bind, h]

variable {s t : σ}

/-- A composite step succeeded exactly when both of its parts did. -/
theorem run_bind_eq_ok_iff {b : β} :
    (m >>= f).run s = (.ok b, t) ↔
      ∃ a s', m.run s = (.ok a, s') ∧ (f a).run s' = (.ok b, t) := by
  rw [run_bind]
  rcases h : m.run s with ⟨_ | a, s'⟩
  · simp
  · constructor
    · exact fun hf => ⟨a, s', rfl, hf⟩
    · rintro ⟨_, _, heq, hf⟩
      cases heq
      exact hf

/-- A composite step failed in its first part, or in its second after the first
one succeeded. -/
theorem run_bind_eq_error_iff {e : ε} :
    (m >>= f).run s = (.error e, t) ↔
      m.run s = (.error e, t) ∨
        ∃ a s', m.run s = (.ok a, s') ∧ (f a).run s' = (.error e, t) := by
  rw [run_bind]
  rcases h : m.run s with ⟨e' | a, s'⟩
  · simp
  · constructor
    · exact fun hf => Or.inr ⟨a, s', rfl, hf⟩
    · rintro (hm | ⟨_, _, heq, hf⟩)
      · cases hm
      · cases heq
        exact hf

/-- A composite step that avoids an error avoided it in its first part. -/
theorem ne_error_of_bind {s : σ} {e : ε} (h : ((m >>= f).run s).1 ≠ .error e) :
    (m.run s).1 ≠ .error e := by
  intro hm
  refine h ?_
  rw [run_bind_of_error (Prod.ext hm rfl)]

theorem run_bind_congr {m m' : Fallible σ ε α} (f : α → Fallible σ ε β) {s : σ}
    (h : m.run s = m'.run s) : (m >>= f).run s = (m' >>= f).run s := by
  rw [run_bind, run_bind, h]

/-- A program that has no successful outcome. -/
def Fails (m : Fallible σ ε α) : Prop := ∀ s a s', m.run s ≠ (.ok a, s')

theorem fails_fail (e : ε) : Fails (fail e : Fallible σ ε α) := by
  intro s a s' h
  cases h

theorem Fails.bind (m : Fallible σ ε α) (hf : ∀ a, Fails (f a)) : Fails (m >>= f) := by
  intro s b t h
  obtain ⟨a, s', -, hrest⟩ := run_bind_eq_ok_iff.mp h
  exact hf a s' b t hrest

/-- With a handler that only cleans up, success is the success of the program
itself. -/
theorem run_recover_ok {handler : ε → Fallible σ ε α} {a : α} (hhandler : ∀ e, Fails (handler e))
    (h : (m.recover handler).run s = (.ok a, t)) : m.run s = (.ok a, t) := by
  rw [run_recover] at h
  rcases hrun : m.run s with ⟨e | b, s'⟩
  · rw [hrun] at h
    exact absurd h (hhandler e s' a t)
  · rw [hrun] at h
    exact h

instance : LawfulMonad (Fallible σ ε) :=
  LawfulMonad.mk' _
    (by
      intro α x
      apply Fallible.ext
      intro s
      change (x >>= fun a => pure a).run s = x.run s
      rw [run_bind]
      rcases x.run s with ⟨_ | _, _⟩ <;> rfl)
    (fun _ _ => rfl)
    (by
      intro α β γ x f g
      apply Fallible.ext
      intro s
      simp only [run_bind]
      rcases x.run s with ⟨_ | _, _⟩ <;> rfl)

/-! ## Results -/

/-- What a step returns satisfies `P`, whatever state it is run in. -/
def Returns (P : α → Prop) (m : Fallible σ ε α) : Prop :=
  ∀ s a s', m.run s = (.ok a, s') → P a

namespace Returns

variable {P : α → Prop} {Q : β → Prop}

theorem pure {a : α} (h : P a) : Returns P (Pure.pure a : Fallible σ ε α) := by
  intro s b s' hrun
  cases hrun
  exact h

theorem fail (e : ε) : Returns P (Fallible.fail e : Fallible σ ε α) := by
  intro s b s' hrun
  cases hrun

/-- The continuation may rely on what is known of the first result. -/
theorem bind {m : Fallible σ ε α} {f : α → Fallible σ ε β} (hm : Returns P m)
    (hf : ∀ a, P a → Returns Q (f a)) : Returns Q (m >>= f) := by
  intro s b t hrun
  have ⟨a, s', hfirst, hsecond⟩ := run_bind_eq_ok_iff.mp hrun
  exact hf a (hm s a s' hfirst) s' b t hsecond

theorem bind_any (m : Fallible σ ε α) {f : α → Fallible σ ε β} (hf : ∀ a, Returns Q (f a)) :
    Returns Q (m >>= f) :=
  bind (P := fun _ => True) (fun _ _ _ _ => trivial) fun a _ => hf a

end Returns

/-! ## Preservation -/

/-- Whatever the outcome of `m`, an invariant that held before it holds after. -/
def Maintains (I : σ → Prop) (m : Fallible σ ε α) : Prop :=
  ∀ s, I s → I (m.run s).2

namespace Maintains

variable {I : σ → Prop}

theorem pure (a : α) : Maintains I (Pure.pure a : Fallible σ ε α) := fun _ h => h

theorem fail (e : ε) : Maintains I (Fallible.fail e : Fallible σ ε α) := fun _ h => h

theorem bind {m : Fallible σ ε α} {f : α → Fallible σ ε β}
    (hm : Maintains I m) (hf : ∀ a, Maintains I (f a)) : Maintains I (m >>= f) := by
  intro s hs
  have h := hm s hs
  rw [run_bind]
  rcases hrun : m.run s with ⟨_ | a, s'⟩
  · simpa [hrun] using h
  · exact hf a s' (by simpa [hrun] using h)

/-- The continuation may rely on what a successful first part established. -/
theorem bind_of_ok {m : Fallible σ ε α} {f : α → Fallible σ ε β}
    (hm : Maintains I m)
    (hf : ∀ s a s', I s → m.run s = (.ok a, s') → I s' → I ((f a).run s').2) :
    Maintains I (m >>= f) := by
  intro s hs
  have h := hm s hs
  rw [run_bind]
  rcases hrun : m.run s with ⟨_ | a, s'⟩
  · simpa [hrun] using h
  · exact hf s a s' hs hrun (by simpa [hrun] using h)

/-- A stronger invariant may hold until the first part has succeeded. -/
theorem bind_to {J : σ → Prop} {m : Fallible σ ε α} {f : α → Fallible σ ε β}
    (hm : Maintains I m) (hweaken : ∀ s, I s → J s) {s : σ} (hs : I s)
    (hf : ∀ a s', m.run s = (.ok a, s') → I s' → J ((f a).run s').2) :
    J ((m >>= f).run s).2 := by
  have h := hm s hs
  rw [run_bind]
  rcases hrun : m.run s with ⟨_ | a, s'⟩
  · exact hweaken s' (by simpa [hrun] using h)
  · exact hf a s' hrun (by simpa [hrun] using h)

theorem recover {m : Fallible σ ε α} {handler : ε → Fallible σ ε α}
    (hm : Maintains I m) (hh : ∀ e, Maintains I (handler e)) :
    Maintains I (m.recover handler) := by
  intro s hs
  have h := hm s hs
  rw [run_recover]
  rcases hrun : m.run s with ⟨e | _, s'⟩
  · exact hh e s' (by simpa [hrun] using h)
  · simpa [hrun] using h

theorem ignore {m : Fallible σ ε α} (hm : Maintains I m) : Maintains I (Fallible.ignore m) :=
  fun s hs => hm s hs

theorem each {f : α → Fallible σ ε Unit} (hf : ∀ a, Maintains I (f a)) (items : List α) :
    Maintains I (Fallible.each f items) := by
  induction items with
  | nil => exact Maintains.pure ()
  | cons a rest ih => exact Maintains.bind (hf a) fun _ => ih

theorem ite {c : Prop} [Decidable c] {m n : Fallible σ ε α}
    (hm : Maintains I m) (hn : Maintains I n) : Maintains I (if c then m else n) := by
  split
  · exact hm
  · exact hn

end Maintains

end Fallible

/-! ## Failure schedules -/

/-- A state together with the outcomes of the coming effects: `true` strikes the
next one. After the end of the list nothing is struck any more. -/
structure Scheduled (σ : Type) where
  state : σ
  faults : List Bool

/-- None of the next `n` effects is struck. -/
def Spared (faults : List Bool) (n : Nat) : Prop := true ∉ faults.take n

instance (faults : List Bool) (n : Nat) : Decidable (Spared faults n) :=
  inferInstanceAs (Decidable (true ∉ faults.take n))

@[simp]
theorem spared_zero (faults : List Bool) : Spared faults 0 := by simp [Spared]

@[simp]
theorem spared_nil (n : Nat) : Spared [] n := by simp [Spared]

variable {faults : List Bool}

theorem spared_add {n k : Nat} :
    Spared faults (n + k) ↔ Spared faults n ∧ Spared (faults.drop n) k := by
  simp only [Spared, List.take_add, List.mem_append, not_or]

theorem spared_one : Spared faults 1 ↔ faults.head? ≠ some true := by
  cases faults <;> simp [Spared, eq_comm]

theorem Spared.mono {n k : Nat} (h : Spared faults k) (hle : n ≤ k) : Spared faults n := by
  obtain ⟨d, rfl⟩ := Nat.exists_eq_add_of_le hle
  exact (spared_add.mp h).1

namespace Fallible

variable {σ ε α : Type}

/-- Perform one effect. When the schedule strikes it, it does nothing but fail
with `e`; otherwise `action` decides the outcome. -/
def attempt (e : ε) (action : σ → Except ε α × σ) : Fallible (Scheduled σ) ε α := fun w =>
  if w.faults.head? = some true then (.error e, ⟨w.state, w.faults.tail⟩)
  else ((action w.state).1, ⟨(action w.state).2, w.faults.tail⟩)

variable {action : σ → Except ε α × σ}

variable {w : Scheduled σ}

theorem run_attempt_of_not_struck {e : ε} (h : w.faults.head? ≠ some true) :
    (attempt e action).run w = ((action w.state).1, ⟨(action w.state).2, w.faults.tail⟩) :=
  if_neg h

theorem run_attempt_of_struck {e : ε} (h : w.faults.head? = some true) :
    (attempt e action).run w = (.error e, ⟨w.state, w.faults.tail⟩) :=
  if_pos h

/-- An effect succeeds exactly when it is not struck and its action succeeds. -/
theorem run_attempt_eq_ok_iff {e : ε} {w w' : Scheduled σ} {a : α} :
    (attempt e action).run w = (.ok a, w') ↔
      w.faults.head? ≠ some true ∧ action w.state = (.ok a, w'.state) ∧
        w'.faults = w.faults.tail := by
  by_cases hstruck : w.faults.head? = some true
  · simp [attempt, run, hstruck]
  · rw [run_attempt_of_not_struck hstruck]
    rcases w' with ⟨s', faults'⟩
    rcases haction : action w.state with ⟨r, s₁⟩
    simp only [Prod.mk.injEq, Scheduled.mk.injEq, ne_eq, hstruck, not_false_eq_true, true_and,
      and_assoc, eq_comm (a := faults')]

/-! ## Counted effects -/

/-- Started in `s`, the step performs `n` effects. When none of them is struck it
ends with the outcome `r` in the state `s'`; when one is, it fails. -/
def Performs (n : Nat) (m : Fallible (Scheduled σ) ε α) (s : σ) (r : Except ε α) (s' : σ) : Prop :=
  ∀ faults, (Spared faults n → m.run ⟨s, faults⟩ = (r, ⟨s', faults.drop n⟩)) ∧
    (¬ Spared faults n → ∃ e w', m.run ⟨s, faults⟩ = (.error e, w'))

namespace Performs

variable {β : Type} {m : Fallible (Scheduled σ) ε α} {f : α → Fallible (Scheduled σ) ε β}
  {s s₁ s' : σ} {a : α} {e : ε} {r : Except ε α} {t : Except ε β} {n k : Nat}

theorem pure (a : α) : Performs 0 (Pure.pure a : Fallible (Scheduled σ) ε α) s (.ok a) s :=
  fun faults => ⟨fun _ => rfl, fun h => absurd (spared_zero faults) h⟩

theorem fail (e : ε) : Performs 0 (Fallible.fail e : Fallible (Scheduled σ) ε α) s (.error e) s :=
  fun faults => ⟨fun _ => rfl, fun h => absurd (spared_zero faults) h⟩

theorem attempt {e : ε} {action : σ → Except ε α × σ} (h : action s = (r, s')) :
    Performs 1 (Fallible.attempt e action) s r s' := by
  intro faults
  constructor
  · intro hspared
    rw [run_attempt_of_not_struck (spared_one.mp hspared), h, List.drop_one]
  · intro hstruck
    rw [spared_one, not_not] at hstruck
    exact ⟨e, _, run_attempt_of_struck hstruck⟩

theorem bind (hm : Performs n m s (.ok a) s₁) (hf : Performs k (f a) s₁ t s') :
    Performs (k + n) (m >>= f) s t s' := by
  intro faults
  rw [Nat.add_comm k n]
  by_cases hfirst : Spared faults n
  · have hrun := (hm faults).1 hfirst
    obtain ⟨hrest, hstruck⟩ := hf (faults.drop n)
    rw [run_bind_of_ok hrun, ← List.drop_drop]
    constructor
    · exact fun h => hrest (spared_add.mp h).2
    · exact fun h => hstruck fun hsecond => h (spared_add.mpr ⟨hfirst, hsecond⟩)
  · obtain ⟨e, w', hrun⟩ := (hm faults).2 hfirst
    constructor
    · exact fun h => absurd (spared_add.mp h).1 hfirst
    · exact fun _ => ⟨e, w', run_bind_of_error hrun⟩

/-- A continuation without effects adds none. -/
theorem bind_pure (hm : Performs n m s (.ok a) s₁) (hf : Performs 0 (f a) s₁ t s') :
    Performs n (m >>= f) s t s' := by
  have h := hm.bind hf
  rwa [Nat.zero_add] at h

theorem bind_error (hm : Performs n m s (.error e) s') :
    Performs n (m >>= f) s (.error e) s' := by
  intro faults
  constructor
  · exact fun h => run_bind_of_error ((hm faults).1 h)
  · intro h
    obtain ⟨e', w', hrun⟩ := (hm faults).2 h
    exact ⟨e', w', run_bind_of_error hrun⟩

/-- A handler that only cleans up never turns a struck effect into a success. -/
theorem recover_ok {handler : ε → Fallible (Scheduled σ) ε α}
    (hhandler : ∀ e, Fails (handler e)) (hm : Performs n m s (.ok a) s') :
    Performs n (m.recover handler) s (.ok a) s' := by
  intro faults
  constructor
  · intro h
    rw [run_recover, (hm faults).1 h]
  · intro h
    obtain ⟨e, w₁, hrun⟩ := (hm faults).2 h
    rw [run_recover, hrun]
    rcases hclean : (handler e).run w₁ with ⟨e' | a', w'⟩
    · exact ⟨e', w', hclean⟩
    · exact absurd hclean (hhandler e w₁ a' w')

/-- Under an empty schedule nothing is struck. -/
theorem run_nil (h : Performs n m s r s') : m.run ⟨s, []⟩ = (r, ⟨s', []⟩) := by
  rw [(h []).1 (spared_nil n), List.drop_nil]

end Performs

/-! ## Atomic steps -/

/-- A step that takes place as a whole or not at all: when it fails nothing has
changed, and when it ends well it has done what it does when nothing is struck. -/
def Atomic (m : Fallible (Scheduled σ) ε α) : Prop :=
  ∀ s faults r w, m.run ⟨s, faults⟩ = (r, w) →
    match r with
    | .ok a => m.run ⟨s, []⟩ = (.ok a, ⟨w.state, []⟩)
    | .error _ => w.state = s

namespace Atomic

variable {β : Type} {m : Fallible (Scheduled σ) ε α} {f : α → Fallible (Scheduled σ) ε β}

theorem pure (a : α) : Atomic (Pure.pure a : Fallible (Scheduled σ) ε α) := by
  intro s faults r w h
  cases h
  rfl

theorem fail (e : ε) : Atomic (Fallible.fail e : Fallible (Scheduled σ) ε α) := by
  intro s faults r w h
  cases h
  rfl

/-- One effect is atomic when its action does nothing where it fails. -/
theorem attempt {e : ε} {action : σ → Except ε α × σ}
    (h : ∀ s e' s', action s = (.error e', s') → s' = s) :
    Atomic (Fallible.attempt e action) := by
  intro s faults r w hrun
  by_cases hstruck : faults.head? = some true
  · rw [run_attempt_of_struck hstruck] at hrun
    cases hrun
    rfl
  · rw [run_attempt_of_not_struck hstruck] at hrun
    cases hrun
    cases haction : action s with
    | mk r s' =>
      cases r with
      | ok a =>
        change (Fallible.attempt e action).run ⟨s, []⟩ = (.ok a, ⟨s', []⟩)
        rw [run_attempt_of_not_struck (by simp), haction]
        rfl
      | error e' => exact h s e' s' haction

theorem bind_read (hm : Atomic m)
    (hread : ∀ s faults a w, m.run ⟨s, faults⟩ = (.ok a, w) → w.state = s)
    (hf : ∀ a, Atomic (f a)) : Atomic (m >>= f) := by
  intro s faults r w hrun
  rw [run_bind] at hrun
  rcases hfirst : m.run ⟨s, faults⟩ with ⟨e | a, w₁⟩
  · rw [hfirst] at hrun
    cases hrun
    exact hm s faults _ _ hfirst
  · rw [hfirst] at hrun
    have hstate := hread s faults a w₁ hfirst
    have hagain := hm s faults _ _ hfirst
    rw [hstate] at hagain
    have hrest := hf a s w₁.faults r w (by rw [← hstate]; exact hrun)
    cases r with
    | ok b => exact (run_bind_of_ok hagain).trans hrest
    | error e => exact hrest

/-- So does returning something afterwards. -/
theorem bind_pure (hm : Atomic m) (g : α → β) :
    Atomic (m >>= fun a => (Pure.pure (g a) : Fallible (Scheduled σ) ε β)) := by
  intro s faults r w hrun
  rw [run_bind] at hrun
  rcases hfirst : m.run ⟨s, faults⟩ with ⟨e | a, w₁⟩
  · rw [hfirst] at hrun
    cases hrun
    exact hm s faults _ _ hfirst
  · rw [hfirst] at hrun
    cases hrun
    exact run_bind_of_ok (hm s faults _ _ hfirst)

end Atomic

/-! ## Runs

A run is a sequence of programs, each executed from the state the one before it
left and under a schedule of its own. -/

/-- The states that runs reach. `admitted` restricts the steps of a run by the
state a step starts in, its program and its outcome. -/
inductive Reachable {ι : Type} (program : ι → Fallible (Scheduled σ) ε α) (start : σ → Prop)
    (admitted : σ → ι → Except ε α → Prop) : σ → Prop
  | start {s : σ} (h : start s) : Reachable program start admitted s
  | step {s : σ} (h : Reachable program start admitted s) (i : ι) (faults : List Bool)
      (hadmitted : admitted s i ((program i).run ⟨s, faults⟩).1) :
      Reachable program start admitted ((program i).run ⟨s, faults⟩).2.state

/-- What holds at the start and is kept by every admitted step holds in every
state a run reaches. -/
theorem Reachable.invariant {ι : Type} {program : ι → Fallible (Scheduled σ) ε α}
    {start : σ → Prop} {admitted : σ → ι → Except ε α → Prop} {I : σ → Prop}
    (hstart : ∀ s, start s → I s)
    (hstep : ∀ s i faults, I s → admitted s i ((program i).run ⟨s, faults⟩).1 →
      I ((program i).run ⟨s, faults⟩).2.state)
    {s : σ} (h : Reachable program start admitted s) : I s := by
  induction h with
  | start hs => exact hstart _ hs
  | step _ i faults hadmitted ih => exact hstep _ i faults ih hadmitted

/-- Admitting more steps reaches no fewer states. -/
theorem Reachable.mono {ι : Type} {program : ι → Fallible (Scheduled σ) ε α}
    {start : σ → Prop} {admitted admitted' : σ → ι → Except ε α → Prop}
    (himp : ∀ s i r, admitted s i r → admitted' s i r) {s : σ}
    (h : Reachable program start admitted s) : Reachable program start admitted' s := by
  induction h with
  | start hs => exact .start hs
  | step _ i faults hadmitted ih => exact .step ih i faults (himp _ _ _ hadmitted)

/-- An effect keeps an invariant of the state when its action does. -/
theorem Maintains.attempt {I : σ → Prop} (e : ε) (h : ∀ s, I s → I (action s).2) :
    Maintains (fun w : Scheduled σ => I w.state) (Fallible.attempt e action) := by
  intro w hw
  by_cases hstruck : w.faults.head? = some true
  · simpa [Fallible.attempt, run, hstruck] using hw
  · rw [run_attempt_of_not_struck hstruck]
    exact h w.state hw

end Fallible

end ApiVoy.Foundation
