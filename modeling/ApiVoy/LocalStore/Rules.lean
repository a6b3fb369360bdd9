/-
# Rules for store programs

How the effects of the store behave: what a successful statement or query says
about the tables, which programs only read, and which parts of the store a
program leaves alone. An invariant of one part of the store is then kept by
every program that leaves that part alone, whatever the program does elsewhere.
-/

import ApiVoy.LocalStore.Operation

namespace ApiVoy.LocalStore

open Foundation Domain

variable {α β τ : Type} {w w' : Scheduled Store}

/-! ## What an outcome says -/

variable {read : Store → α}

theorem query_ok {a : α} (h : (query read).run w = (.ok a, w')) :
    a = read w.state ∧ w'.state = w.state := by
  obtain ⟨-, haction, -⟩ := Fallible.run_attempt_eq_ok_iff.mp h
  simp only [Prod.mk.injEq, Except.ok.injEq] at haction
  exact ⟨haction.1.symm, haction.2.symm⟩

theorem query_error {e : StoreError} (h : (query read).run w = (.error e, w')) :
    e = .sqlite .failed := by
  by_cases hstruck : w.faults.head? = some true
  · rw [query, Fallible.run_attempt_of_struck hstruck] at h
    cases h
    rfl
  · rw [query, Fallible.run_attempt_of_not_struck hstruck] at h
    cases h

variable {statement : Store → Option (Store × Nat)}

theorem execute_ok {n : Nat} (h : (execute statement).run w = (.ok n, w')) :
    statement w.state = some (w'.state, n) := by
  obtain ⟨-, haction, -⟩ := Fallible.run_attempt_eq_ok_iff.mp h
  cases hstatement : statement w.state with
  | none => simp [hstatement] at haction
  | some result =>
    simp only [hstatement, Prod.mk.injEq, Except.ok.injEq] at haction
    rw [← haction.1, ← haction.2]

/-- A statement that failed did not take place. -/
theorem execute_error {e : StoreError} (h : (execute statement).run w = (.error e, w')) :
    w'.state = w.state := by
  by_cases hstruck : w.faults.head? = some true
  · simp only [execute, Fallible.attempt, Fallible.run, if_pos hstruck, Prod.mk.injEq] at h
    rw [← h.2]
  · rw [execute, Fallible.run_attempt_of_not_struck hstruck] at h
    cases hstatement : statement w.state with
    | none =>
      simp only [hstatement, Prod.mk.injEq] at h
      rw [← h.2]
    | some result =>
      simp only [hstatement, Prod.mk.injEq] at h
      cases h.1

/-- A statement leaves the store as it was or as it says. -/
theorem execute_state (statement : Store → Option (Store × Nat)) (w : Scheduled Store) :
    ((execute statement).run w).2.state = w.state ∨
      ∃ n, statement w.state = some (((execute statement).run w).2.state, n) := by
  by_cases hstruck : w.faults.head? = some true
  · exact Or.inl (by simp [execute, Fallible.attempt, Fallible.run, hstruck])
  · rw [execute, Fallible.run_attempt_of_not_struck hstruck]
    cases hstatement : statement w.state with
    | none => exact Or.inl rfl
    | some result => exact Or.inr ⟨result.2, rfl⟩

/-- A handler that cleans up and then passes its error on. -/
theorem fails_cleanup {β : Type} (m : StoreM β) (e : StoreError) :
    Fallible.Fails (do let _ ← m; Fallible.fail e : StoreM α) :=
  Fallible.Fails.bind m fun _ => Fallible.fails_fail e

theorem run_restoring (m : StoreM α) (w : Scheduled Store) :
    (restoring m).run w =
      match m.run w with
      | (.ok a, w') => (.ok a, w')
      | (.error e, w') => (.error e, ⟨w.state, w'.faults⟩) := rfl

/-! ## Keeping an invariant -/

/-- Whatever the outcome, an invariant of the store survives. -/
def Keeps (I : Store → Prop) (m : StoreM α) : Prop :=
  Fallible.Maintains (fun w : Scheduled Store => I w.state) m

namespace Keeps

variable {I : Store → Prop}

variable {m : StoreM α}

theorem state (h : Keeps I m) {s : Store} (hs : I s) (faults : List Bool) :
    I (m.run ⟨s, faults⟩).2.state :=
  h ⟨s, faults⟩ hs

theorem pure (a : α) : Keeps I (Pure.pure a : StoreM α) := Fallible.Maintains.pure a

theorem fail (e : StoreError) : Keeps I (Fallible.fail e : StoreM α) := Fallible.Maintains.fail e

theorem bind {f : α → StoreM β} (hm : Keeps I m) (hf : ∀ a, Keeps I (f a)) : Keeps I (m >>= f) :=
  Fallible.Maintains.bind hm hf

theorem attempt {e : StoreError} {action : Store → Except StoreError α × Store}
    (h : ∀ s, I s → I (action s).2) : Keeps I (Fallible.attempt e action) :=
  Fallible.Maintains.attempt e h

theorem query (read : Store → α) : Keeps I (query read) := attempt fun _ h => h

theorem execute {statement : Store → Option (Store × Nat)}
    (h : ∀ s s' n, I s → statement s = some (s', n) → I s') : Keeps I (execute statement) := by
  refine attempt fun s hs => ?_
  cases hstatement : statement s with
  | none => exact hs
  | some result => exact h s result.1 result.2 hs hstatement

theorem execute_some {statement : Store → Option (Store × Nat)} {result : Store → Store}
    {count : Store → Nat} (hresult : ∀ s, statement s = some (result s, count s))
    (h : ∀ s, I s → I (result s)) : Keeps I (LocalStore.execute statement) := by
  refine execute fun s s' n hs hstatement => ?_
  rw [hresult] at hstatement
  cases hstatement
  exact h s hs

theorem fileEffect {effect : Store → Store} (h : ∀ s, I s → I (effect s)) :
    Keeps I (fileEffect effect) :=
  attempt h

theorem readFile (path : String) : Keeps I (readFile path) := by
  refine attempt fun s hs => ?_
  split <;> exact hs

theorem requireRow (row : Option (Option α)) : Keeps I (requireRow row) := by
  rcases row with _ | _ | a
  · exact fail _
  · exact fail _
  · exact pure a

theorem recover {handler : StoreError → StoreM α} (hm : Keeps I m) (hh : ∀ e, Keeps I (handler e)) :
    Keeps I (Fallible.recover m handler) :=
  Fallible.Maintains.recover hm hh

theorem ignore (hm : Keeps I m) : Keeps I (Fallible.ignore m) :=
  Fallible.Maintains.ignore hm

variable {f : α → StoreM Unit}

theorem each (hf : ∀ a, Keeps I (f a)) (items : List α) : Keeps I (Fallible.each f items) :=
  Fallible.Maintains.each hf items

theorem each_mem {items : List α} (hf : ∀ a ∈ items, Keeps I (f a)) :
    Keeps I (Fallible.each f items) := by
  induction items with
  | nil => exact pure ()
  | cons a rest ih =>
    apply bind (hf a (List.mem_cons_self ..))
    intro _
    exact ih fun b hb => hf b (List.mem_cons_of_mem a hb)

theorem discard (hm : Keeps I m) : Keeps I (discard m) :=
  bind hm fun _ => pure ()

theorem restoring (hm : Keeps I m) : Keeps I (restoring m) := by
  intro w hw
  have hkept := hm w hw
  rw [run_restoring]
  rcases hrun : m.run w with ⟨_ | a, w₁⟩
  · exact hw
  · rw [hrun] at hkept
    exact hkept

theorem transaction {body : StoreM α} (hbody : Keeps I body) : Keeps I (transaction body) :=
  bind (query _) fun _ => restoring (bind hbody fun _ => bind (query _) fun _ => pure _)

end Keeps

/-! ## Leaving a part of the store alone -/

/-- A program leaves what `view` shows of the store alone. -/
def Frames (view : Store → τ) (m : StoreM α) : Prop :=
  ∀ shown, Keeps (fun s => view s = shown) m

abbrev ReadOnly (m : StoreM α) : Prop := Frames (fun s => s) m

namespace Frames

variable {view : Store → τ}

variable {m : StoreM α}

theorem state (h : Frames view m) (w : Scheduled Store) : view (m.run w).2.state = view w.state :=
  h (view w.state) w rfl

/-- An invariant of what is shown is kept. -/
theorem keeps (h : Frames view m) (I : τ → Prop) : Keeps (fun s => I (view s)) m := by
  intro w hw
  simpa only [h.state w] using hw

theorem pure (a : α) : Frames view (Pure.pure a : StoreM α) := fun _ => Keeps.pure a

theorem fail (e : StoreError) : Frames view (Fallible.fail e : StoreM α) := fun _ => Keeps.fail e

variable {f : α → StoreM β}

theorem bind (hm : Frames view m) (hf : ∀ a, Frames view (f a)) : Frames view (m >>= f) :=
  fun shown => .bind (hm shown) fun a => hf a shown

theorem query (read : Store → α) : Frames view (query read) := fun _ => Keeps.query read

theorem execute {statement : Store → Option (Store × Nat)}
    (h : ∀ s s' n, statement s = some (s', n) → view s' = view s) :
    Frames view (execute statement) :=
  fun _ => .execute fun s s' n hs hstatement => (h s s' n hstatement).trans hs

theorem execute_some {statement : Store → Option (Store × Nat)} {result : Store → Store}
    {count : Store → Nat} (hresult : ∀ s, statement s = some (result s, count s))
    (h : ∀ s, view (result s) = view s) : Frames view (LocalStore.execute statement) :=
  fun _ => .execute_some hresult fun s hs => (h s).trans hs

theorem fileEffect {effect : Store → Store} (h : ∀ s, view (effect s) = view s) :
    Frames view (fileEffect effect) :=
  fun _ => .fileEffect fun s hs => (h s).trans hs

theorem readFile (path : String) : Frames view (readFile path) := fun _ => Keeps.readFile path

theorem requireRow (row : Option (Option α)) : Frames view (requireRow row) :=
  fun _ => .requireRow row

theorem recover {handler : StoreError → StoreM α} (hm : Frames view m)
    (hh : ∀ e, Frames view (handler e)) : Frames view (Fallible.recover m handler) :=
  fun shown => .recover (hm shown) fun e => hh e shown

theorem ignore (hm : Frames view m) : Frames view (Fallible.ignore m) :=
  fun shown => .ignore (hm shown)

theorem each {f : α → StoreM Unit} (hf : ∀ a, Frames view (f a)) (items : List α) :
    Frames view (Fallible.each f items) :=
  fun shown => .each (fun a => hf a shown) items

theorem discard (hm : Frames view m) : Frames view (discard m) :=
  bind hm fun _ => pure ()

theorem transaction {body : StoreM α} (hbody : Frames view body) :
    Frames view (transaction body) :=
  fun shown => .transaction (hbody shown)

/-- What follows and leaves the part alone does not matter to it. -/
theorem state_bind (hf : ∀ a, Frames view (f a)) (w : Scheduled Store) :
    view ((m >>= f).run w).2.state = view (m.run w).2.state := by
  rw [Fallible.run_bind]
  rcases m.run w with ⟨_ | a, w₁⟩
  · rfl
  · exact (hf a).state w₁

/-- What only reads leaves every part alone. -/
theorem of_readOnly (h : ReadOnly m) : Frames view m := by
  intro shown w hw
  rw [h.state w]
  exact hw

theorem changedOrNotFound (id : String) (changed : Nat) :
    Frames view (changedOrNotFound id changed) := by
  unfold LocalStore.changedOrNotFound
  split
  · exact fail _
  · exact pure ()

theorem removeFile (path : String)
    (h : ∀ s files, view { s with files := files } = view s) : Frames view (removeFile path) := by
  refine fun shown => .attempt fun s hs => ?_
  split
  · exact (h s _).trans hs
  · exact hs

end Frames

/-! ## Failing without a trace -/

/-- When the program fails, what `view` shows is as it was before. -/
def Traceless (view : Store → τ) (m : StoreM α) : Prop :=
  ∀ w e w', m.run w = (.error e, w') → view w'.state = view w.state

namespace Traceless

variable {view : Store → τ}

variable {m : StoreM α}

theorem of_frames (h : Frames view m) : Traceless view m := by
  intro w e w' hrun
  have hstate := h.state w
  rwa [hrun] at hstate

theorem execute (statement : Store → Option (Store × Nat)) : Traceless view (execute statement) :=
  fun _ _ _ hrun => congrArg view (execute_error hrun)

/-- What precedes may only change what is not shown. -/
theorem bind {f : α → StoreM β} (hm : Frames view m) (hf : ∀ a, Traceless view (f a)) :
    Traceless view (m >>= f) := by
  intro w e w' hrun
  rcases Fallible.run_bind_eq_error_iff.mp hrun with herror | ⟨a, w₁, hok, hrest⟩
  · exact of_frames hm w e w' herror
  · have hstate := hm.state w
    rw [hok] at hstate
    exact (hf a w₁ e w' hrest).trans hstate

/-- What follows must not fail. -/
theorem bind_pure (hm : Traceless view m) (f : α → β) :
    Traceless view (m >>= fun a => Pure.pure (f a)) := by
  intro w e w' hrun
  rcases Fallible.run_bind_eq_error_iff.mp hrun with herror | ⟨a, w₁, -, hrest⟩
  · exact hm w e w' herror
  · cases hrest

theorem recover {handler : StoreError → StoreM α} (hm : Traceless view m)
    (hh : ∀ e, Frames view (handler e)) : Traceless view (Fallible.recover m handler) := by
  intro w e w' hrun
  rw [Fallible.run_recover] at hrun
  rcases hfirst : m.run w with ⟨e₁ | a, w₁⟩
  · rw [hfirst] at hrun
    have hcleanup : (handler e₁).run w₁ = (.error e, w') := hrun
    have hstate := (hh e₁).state w₁
    rw [hcleanup] at hstate
    exact hstate.trans (hm w e₁ w₁ hfirst)
  · rw [hfirst] at hrun
    cases hrun

end Traceless

theorem Keeps.of_readOnly {I : Store → Prop} {m : StoreM α} (h : ReadOnly m) : Keeps I m := by
  intro w hw
  have hstate : (m.run w).2.state = w.state := h.state w
  rwa [← hstate] at hw

/-! ## Reading first

An operation reads, decides and then writes. What it read from a store is what
its later steps may rely on, because reading changes nothing. -/

/-- `m` can return `a` from the store `s`. -/
def Returns (m : StoreM α) (s : Store) (a : α) : Prop :=
  ∃ faults w', m.run ⟨s, faults⟩ = (.ok a, w')

/-- From the store `s` an invariant survives. -/
def KeepsFrom (I : Store → Prop) (s : Store) (m : StoreM α) : Prop :=
  I s → ∀ faults, I (m.run ⟨s, faults⟩).2.state

theorem ReadOnly.state_of_run {m : StoreM α} (h : ReadOnly m) {r : Except StoreError α}
    (hrun : m.run w = (r, w')) : w'.state = w.state := by
  have hstate := h.state w
  rwa [hrun] at hstate

namespace Returns

variable {s : Store} {m : StoreM α} {f : α → StoreM β}

theorem pure {a b : α} (h : Returns (Pure.pure a) s b) : b = a := by
  obtain ⟨faults, w', hrun⟩ := h
  simp only [Fallible.run_pure, Prod.mk.injEq, Except.ok.injEq] at hrun
  exact hrun.1.symm

theorem fail {e : StoreError} {a : α} (h : Returns (Fallible.fail e) s a) : False := by
  obtain ⟨faults, w', hrun⟩ := h
  simp only [Fallible.run_fail, Prod.mk.injEq, reduceCtorEq, false_and] at hrun

theorem query {read : Store → α} {a : α} (h : Returns (query read) s a) : a = read s := by
  obtain ⟨faults, w', hrun⟩ := h
  exact (query_ok hrun).1

theorem bind {b : β} (h : Returns (m >>= f) s b) (hm : ReadOnly m) :
    ∃ a, Returns m s a ∧ Returns (f a) s b := by
  obtain ⟨faults, w', hrun⟩ := h
  obtain ⟨a, w₁, hfirst, hrest⟩ := Fallible.run_bind_eq_ok_iff.mp hrun
  have hstate := hm.state_of_run hfirst
  refine ⟨a, ⟨faults, w₁, hfirst⟩, w₁.faults, w', ?_⟩
  rw [← hrest]
  exact congrArg (fun t => (f a).run ⟨t, w₁.faults⟩) hstate.symm

theorem requireRow {row : Option (Option α)} {a : α} (h : Returns (requireRow row) s a) :
    row = some (some a) := by
  rcases row with _ | _ | b
  · exact h.fail.elim
  · exact h.fail.elim
  · rw [h.pure]

end Returns

namespace KeepsFrom

variable {I : Store → Prop} {s : Store}

variable {m : StoreM α}

theorem of_keeps (h : Keeps I m) : KeepsFrom I s m := fun hs faults =>
  h ⟨s, faults⟩ hs

variable {f : α → StoreM β}

theorem bind_read (hm : ReadOnly m) (hf : ∀ a, Returns m s a → KeepsFrom I s (f a)) :
    KeepsFrom I s (m >>= f) := by
  intro hs faults
  rw [Fallible.run_bind]
  have hstate := hm.state ⟨s, faults⟩
  rcases hrun : m.run ⟨s, faults⟩ with ⟨_ | a, w'⟩
  · simpa [hm.state_of_run hrun] using hs
  · have hstep := hf a ⟨faults, w', hrun⟩ hs w'.faults
    have hw' : w'.state = s := hm.state_of_run hrun
    simpa only [← hw'] using hstep

theorem execute {statement : Store → Option (Store × Nat)}
    (h : ∀ s' n, I s → statement s = some (s', n) → I s') :
    KeepsFrom I s (execute statement) := by
  intro hs faults
  rcases execute_state statement ⟨s, faults⟩ with hsame | ⟨n, hdone⟩
  · rw [hsame]
    exact hs
  · exact h _ n hs hdone

/-- A statement, and then what only reads or leaves the invariant alone. -/
theorem bind_keeps (hm : KeepsFrom I s m) (hf : ∀ a, Keeps I (f a)) : KeepsFrom I s (m >>= f) := by
  intro hs faults
  have hfirst := hm hs faults
  rw [Fallible.run_bind]
  rcases hrun : m.run ⟨s, faults⟩ with ⟨_ | a, w'⟩
  · simpa [hrun] using hfirst
  · exact hf a w' (by simpa [hrun] using hfirst)

/-- Only what the body of a transaction leaves on success matters. -/
theorem transaction {body : StoreM α}
    (hbody : I s → ∀ faults a w', body.run ⟨s, faults⟩ = (.ok a, w') → I w'.state) :
    KeepsFrom I s (transaction body) := by
  refine bind_read (.query _) fun _ _ hs faults => ?_
  rw [run_restoring]
  rcases hrun : (body >>= fun a => query (fun _ => ()) >>= fun _ => pure a).run ⟨s, faults⟩
    with ⟨_ | a, w₂⟩
  · exact hs
  · obtain ⟨b, w₁, hok, hcommit⟩ := Fallible.run_bind_eq_ok_iff.mp hrun
    obtain ⟨_, w₃, hquery, hpure⟩ := Fallible.run_bind_eq_ok_iff.mp hcommit
    simp only [Fallible.run_pure, Prod.mk.injEq] at hpure
    simp only
    rw [← hpure.2, (query_ok hquery).2]
    exact hbody hs faults b w₁ hok

end KeepsFrom

/-! ## Ending -/

/-- From the store `s` no loop of the program runs out of fuel. -/
def Ends (m : StoreM α) (s : Store) : Prop :=
  ∀ faults, (m.run ⟨s, faults⟩).1 ≠ .error .unfinished

namespace Ends

variable {s : Store} {m : StoreM α} {f : α → StoreM β}

theorem pure (a : α) : Ends (Pure.pure a) s := fun _ h => by cases h

theorem fail {e : StoreError} (he : e ≠ .unfinished) : Ends (Fallible.fail e : StoreM α) s :=
  fun _ h => he (by simpa using h)

theorem attempt {e : StoreError} {action : Store → Except StoreError α × Store}
    (he : e ≠ .unfinished) (h : (action s).1 ≠ .error .unfinished) :
    Ends (Fallible.attempt e action) s := by
  intro faults
  by_cases hstruck : faults.head? = some true
  · simpa [Fallible.attempt, Fallible.run, hstruck] using he
  · rw [Fallible.run_attempt_of_not_struck (w := ⟨s, faults⟩) hstruck]
    exact h

theorem query (read : Store → α) : Ends (query read) s := attempt (by simp) (by simp)

theorem execute (statement : Store → Option (Store × Nat)) : Ends (execute statement) s := by
  refine attempt (by simp) ?_
  cases statement s <;> simp

theorem bind (hm : Ends m s)
    (hf : ∀ faults a w', m.run ⟨s, faults⟩ = (.ok a, w') → Ends (f a) w'.state) :
    Ends (m >>= f) s := by
  intro faults
  rw [Fallible.run_bind]
  rcases hrun : m.run ⟨s, faults⟩ with ⟨e | a, w'⟩
  · simpa [hrun] using hm faults
  · exact hf faults a w' hrun w'.faults

theorem bind_read (hm : Ends m s) (hread : ReadOnly m)
    (hf : ∀ a, Returns m s a → Ends (f a) s) : Ends (m >>= f) s := by
  refine hm.bind fun faults a w' hrun => ?_
  have hstate : w'.state = s := hread.state_of_run hrun
  rw [hstate]
  exact hf a ⟨faults, w', hrun⟩

theorem transaction {body : StoreM α} (hbody : Ends body s) : Ends (transaction body) s := by
  refine (query _).bind_read (.query _) fun _ _ faults => ?_
  have hrest : Ends (body >>= fun a => LocalStore.query (fun _ => ()) >>= fun _ => Pure.pure a) s :=
    hbody.bind fun _ a w' _ => (query _).bind fun _ _ _ _ => pure a
  have houtcome := hrest faults
  rw [run_restoring]
  rcases hrun : (body >>= fun a => LocalStore.query (fun _ => ()) >>= fun _ => Pure.pure a).run
    ⟨s, faults⟩ with ⟨e | a, w₂⟩
  · simp only [hrun] at houtcome
    exact houtcome
  · simp

theorem recover {handler : StoreError → StoreM α} (hm : Ends m s)
    (hh : ∀ e s', e ≠ .unfinished → Ends (handler e) s') :
    Ends (Fallible.recover m handler) s := by
  intro faults
  have houtcome := hm faults
  rw [Fallible.run_recover]
  rcases hrun : m.run ⟨s, faults⟩ with ⟨e | a, w'⟩
  · have he : e ≠ .unfinished := by
      intro heq
      exact houtcome (by rw [hrun, heq])
    exact hh e w'.state he w'.faults
  · simp

theorem each {g : α → StoreM Unit} (hg : ∀ a s', Ends (g a) s') (items : List α) :
    Ends (Fallible.each g items) s := by
  induction items generalizing s with
  | nil => exact pure ()
  | cons a rest ih => exact (hg a s).bind fun _ _ _ _ => ih

/-! Giving up a reference has no loop. -/

theorem removeFile (path : String) : Ends (removeFile path) s := by
  refine attempt (by simp) ?_
  cases s.files.find? path <;> simp

theorem releaseBlob (id : String) : Ends (releaseBlob id) s := by
  refine (query _).bind fun _ found w' _ => ?_
  cases found with
  | none => exact pure ()
  | some blob =>
    simp only
    split
    · exact (execute _).bind fun _ _ _ _ => pure ()
    · refine (execute _).bind fun _ _ _ _ => (removeFile _).recover fun e _ he => ?_
      split
      · exact pure ()
      · exact fail he

end Ends

theorem keeps_of_keepsFrom {I : Store → Prop} {m : StoreM α} (h : ∀ s, KeepsFrom I s m) :
    Keeps I m := fun w hw => h w.state hw w.faults

end ApiVoy.LocalStore
