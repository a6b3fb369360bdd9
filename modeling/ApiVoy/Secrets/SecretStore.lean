/-
# The secret store

Secrets live in the keychain of the operating system, and a map behind a lock is
kept as a write-through cache. Every call takes the keychain and the cache one after
the other, and calls of other threads go on in between. The cache agrees with the
keychain whenever no call is running, unless an entry of the keychain was changed
while a call on the same name was on its way from the keychain to the cache.
-/

import Mathlib.Data.Fintype.Basic
import ApiVoy.Foundation.Tasks

namespace ApiVoy.Secrets

open Foundation

inductive SecretError where
  | notFound (name : String)
  | keychain (message : String)
  deriving DecidableEq

inductive SecretBackendKind where
  | memory
  | keychain
  deriving DecidableEq

/-- The cache, and the entries of the keychain under the store's service. -/
structure SecretStore where
  kind : SecretBackendKind
  cache : String → Option String
  keychain : String → Option String

/-- Nothing is cached at first. A keychain in which the probe cannot be looked up is
not used. -/
def SecretStore.withKeychain (probe : Except String (Option String))
    (keychain : String → Option String) : SecretStore :=
  match probe with
  | .ok _ => ⟨.keychain, fun _ => none, keychain⟩
  | .error _ => ⟨.memory, fun _ => none, keychain⟩

inductive SecretCall where
  | putRef (name value : String)
  | resolve (name : String)
  | delete (name : String)
  deriving DecidableEq

inductive SecretAnswer where
  | done
  | value (value : String)
  | failed (error : SecretError)
  deriving DecidableEq

/-! ## Steps -/

inductive SecretPhase where
  | idle
  | called (call : SecretCall)
  /-- `resolve` has missed the cache and turns to the keychain. -/
  | looking (name : String)
  /-- The keychain has been read or written, and what it holds goes to the cache. -/
  | caching (name : String) (value : Option String) (answer : SecretAnswer)
  | answered (answer : SecretAnswer)
  deriving DecidableEq

def SecretPhase.isRunning : SecretPhase → Bool
  | .idle | .answered _ => false
  | .called _ | .looking _ | .caching .. => true

def SecretPhase.isCaching (name : String) : SecretPhase → Bool
  | .caching other _ _ => other = name
  | _ => false

inductive SecretMove where
  | start (call : SecretCall)
  /-- The next step of a running call; the keychain fails in it when there is a message. -/
  | proceed (fault : Option String)
  deriving DecidableEq

/-- Write an entry of the keychain, and the cache after it. -/
def SecretStore.write (store : SecretStore) (name : String) (value : Option String)
    (fault : Option String) : SecretStore × SecretPhase :=
  match store.kind, fault with
  | .memory, _ => (store, .caching name value .done)
  | .keychain, some message => (store, .answered (.failed (.keychain message)))
  | .keychain, none =>
    ({ store with keychain := Function.update store.keychain name value },
      .caching name value .done)

/-- How a call goes on. -/
def SecretMove.advance : SecretMove → SecretStore → SecretPhase → Option (SecretStore × SecretPhase)
  | .start call, store, .idle => some (store, .called call)
  | .proceed fault, store, .called (.putRef name value) =>
    some (store.write name (some value) fault)
  | .proceed fault, store, .called (.delete name) => some (store.write name none fault)
  | .proceed _, store, .called (.resolve name) =>
    match store.cache name, store.kind with
    | some value, _ => some (store, .answered (.value value))
    | none, .keychain => some (store, .looking name)
    | none, .memory => some (store, .answered (.failed (.notFound name)))
  | .proceed fault, store, .looking name =>
    match fault, store.keychain name with
    | some message, _ => some (store, .answered (.failed (.keychain message)))
    | none, some value => some (store, .caching name (some value) (.value value))
    | none, none => some (store, .answered (.failed (.notFound name)))
  | .proceed _, store, .caching name value answer =>
    some ({ store with cache := Function.update store.cache name value }, .answered answer)
  | _, _, _ => none

section Threads

variable {ι : Type} [DecidableEq ι]

abbrev SecretCalls (ι : Type) := Tasks ι SecretStore SecretPhase

def secretStep (action : ι × SecretMove) (calls : SecretCalls ι) : Option (SecretCalls ι) :=
  calls.step (fun _ move => move.advance) action.1 action.2

/-- What a step would write to the keychain. -/
def SecretMove.writes : SecretMove → SecretPhase → Option (String × Option String)
  | .proceed none, .called (.putRef name value) => some (name, some value)
  | .proceed none, .called (.delete name) => some (name, none)
  | _, _ => none

/-- A step changes no entry of the keychain that another call is about to cache. -/
def Undisturbed (calls : SecretCalls ι) (action : ι × SecretMove) : Prop :=
  match action.2.writes (calls.phase action.1) with
  | none => True
  | some (name, value) =>
    calls.shared.keychain name = value ∨ ∀ j, (calls.phase j).isCaching name = false

instance [Fintype ι] (calls : SecretCalls ι) (action : ι × SecretMove) :
    Decidable (Undisturbed calls action) :=
  match h : action.2.writes (calls.phase action.1) with
  | none => .isTrue (by rw [Undisturbed, h]; trivial)
  | some (name, value) =>
    decidable_of_iff
      (calls.shared.keychain name = value ∨ ∀ j, (calls.phase j).isCaching name = false)
      (by rw [Undisturbed, h])

def SecretCalls.Quiet (calls : SecretCalls ι) : Prop := ∀ i, (calls.phase i).isRunning = false

instance [Fintype ι] (calls : SecretCalls ι) : Decidable calls.Quiet :=
  inferInstanceAs (Decidable (∀ i, (calls.phase i).isRunning = false))

/-- What the cache has is what the keychain has. -/
def SecretStore.Coherent (store : SecretStore) : Prop :=
  ∀ name value, store.cache name = some value → store.keychain name = some value

/-! ## Coherence -/

variable {name : String} {store : SecretStore}

theorem write_keychain (hkind : store.kind = .keychain) {value fault : Option String} :
    store.write name value fault =
      match fault with
      | some message => (store, .answered (.failed (.keychain message)))
      | none => ({ store with keychain := Function.update store.keychain name value },
          .caching name value .done) := by
  cases store with
  | mk kind cache keychain =>
    cases hkind
    cases fault with
    | some message => rfl
    | none => rfl

variable {next : SecretStore × SecretPhase}

variable {phase : SecretPhase} {move : SecretMove}

/-- What a step of a call on the keychain does: it leaves the store and is not about to
cache, or it goes to cache what the keychain has, or it writes the keychain, or it
caches. -/
theorem advance_cases (hkind : store.kind = .keychain) (h : move.advance store phase = some next) :
    (next.1 = store ∧ ∀ name, phase.isCaching name = false ∧ next.2.isCaching name = false) ∨
    (∃ name answer, (∀ other, phase.isCaching other = false) ∧
      next = (store, .caching name (store.keychain name) answer)) ∨
    (∃ name value, move.writes phase = some (name, value) ∧
      (∀ other, phase.isCaching other = false) ∧
      next = ({ store with keychain := Function.update store.keychain name value },
        .caching name value .done)) ∨
    ∃ name value answer, phase = .caching name value answer ∧
      next = ({ store with cache := Function.update store.cache name value },
        .answered answer) := by
  cases phase with
  | idle =>
    cases move with
    | start call =>
      cases h
      exact Or.inl ⟨rfl, fun _ => ⟨rfl, rfl⟩⟩
    | proceed fault => cases h
  | called call =>
    cases move with
    | start _ => cases h
    | proceed fault =>
      cases call with
      | putRef name value =>
        rw [SecretMove.advance, write_keychain hkind] at h
        cases fault with
        | some message =>
          cases h
          exact Or.inl ⟨rfl, fun _ => ⟨rfl, rfl⟩⟩
        | none =>
          cases h
          exact Or.inr (Or.inr (Or.inl ⟨name, some value, rfl, fun _ => rfl, rfl⟩))
      | delete name =>
        rw [SecretMove.advance, write_keychain hkind] at h
        cases fault with
        | some message =>
          cases h
          exact Or.inl ⟨rfl, fun _ => ⟨rfl, rfl⟩⟩
        | none =>
          cases h
          exact Or.inr (Or.inr (Or.inl ⟨name, none, rfl, fun _ => rfl, rfl⟩))
      | resolve name =>
        cases hcached : store.cache name with
        | some value =>
          simp only [SecretMove.advance, hcached] at h
          cases h
          exact Or.inl ⟨rfl, fun _ => ⟨rfl, rfl⟩⟩
        | none =>
          simp only [SecretMove.advance, hcached, hkind] at h
          cases h
          exact Or.inl ⟨rfl, fun _ => ⟨rfl, rfl⟩⟩
  | looking name =>
    cases move with
    | start _ => cases h
    | proceed fault =>
      cases fault with
      | some message =>
        cases h
        exact Or.inl ⟨rfl, fun _ => ⟨rfl, rfl⟩⟩
      | none =>
        cases hvalue : store.keychain name with
        | none =>
          simp only [SecretMove.advance, hvalue] at h
          cases h
          exact Or.inl ⟨rfl, fun _ => ⟨rfl, rfl⟩⟩
        | some value =>
          simp only [SecretMove.advance, hvalue] at h
          cases h
          refine Or.inr (Or.inl ⟨name, .value value, fun _ => rfl, ?_⟩)
          rw [hvalue]
  | caching name value answer =>
    cases move with
    | start _ => cases h
    | proceed fault =>
      cases h
      exact Or.inr (Or.inr (Or.inr ⟨name, value, answer, rfl, rfl⟩))
  | answered answer =>
    cases move <;> cases h

/-- What every call can rely on: a value on its way to the cache is the keychain's, and
an entry of the cache that is not the keychain's is about to be replaced. -/
structure WrittenThrough (calls : SecretCalls ι) : Prop where
  kind : calls.shared.kind = .keychain
  pending : ∀ i name value answer, calls.phase i = .caching name value answer →
    calls.shared.keychain name = value
  cached : ∀ name value, calls.shared.cache name = some value →
    calls.shared.keychain name = some value ∨ ∃ i, (calls.phase i).isCaching name = true

variable {calls calls' : SecretCalls ι} {i : ι}

theorem isCaching_move {j : ι} (hfree : (calls.phase i).isCaching name = false)
    (hj : (calls.phase j).isCaching name = true) :
    ((calls.move i next).phase j).isCaching name = true := by
  have hne : j ≠ i := by
    intro heq
    rw [heq, hfree] at hj
    cases hj
  rw [Tasks.phase_move_of_ne hne]
  exact hj

omit [DecidableEq ι] in
theorem isCaching_of_phase {value : Option String} {answer : SecretAnswer}
    (h : calls.phase i = .caching name value answer) : (calls.phase i).isCaching name = true := by
  rw [h]
  exact decide_eq_true rfl

namespace WrittenThrough

/-- What is cached for a name that the moving call is not about to cache. -/
theorem cached_move (h : WrittenThrough calls) {name value : String} {phase : SecretPhase}
    (hfree : (calls.phase i).isCaching name = false)
    (hcached : calls.shared.cache name = some value) :
    calls.shared.keychain name = some value ∨
      ∃ j, ((calls.move i (calls.shared, phase)).phase j).isCaching name = true := by
  rcases h.cached name value hcached with hsame | ⟨j, hj⟩
  · exact Or.inl hsame
  · exact Or.inr ⟨j, isCaching_move hfree hj⟩

/-- A step that leaves the store and caches nothing before or after. -/
theorem rests (h : WrittenThrough calls) {phase : SecretPhase}
    (hfree : ∀ name, (calls.phase i).isCaching name = false ∧ phase.isCaching name = false) :
    WrittenThrough (calls.move i (calls.shared, phase)) where
  kind := h.kind
  pending j name value answer hj := by
    rcases Tasks.phase_move_cases hj with ⟨-, hnow⟩ | ⟨-, hbefore⟩
    · have hnot := (hfree name).2
      rw [show phase = .caching name value answer from hnow] at hnot
      simp [SecretPhase.isCaching] at hnot
    · exact h.pending j name value answer hbefore
  cached name value hcached := h.cached_move (hfree name).1 hcached

/-- A call has the keychain's value, and goes to cache it. -/
theorem looksUp (h : WrittenThrough calls) {name : String} {answer : SecretAnswer}
    (hfree : ∀ other, (calls.phase i).isCaching other = false) :
    WrittenThrough (calls.move i
      (calls.shared, .caching name (calls.shared.keychain name) answer)) where
  kind := h.kind
  pending j other value answer' hj := by
    rcases Tasks.phase_move_cases hj with ⟨-, hnow⟩ | ⟨-, hbefore⟩
    · cases hnow
      rfl
    · exact h.pending j other value answer' hbefore
  cached other value hcached := h.cached_move (hfree other) hcached

variable {value : Option String}

/-- A call writes the keychain, and goes to cache what it has written. -/
theorem writes (h : WrittenThrough calls) {name : String}
    (hfree : ∀ other, (calls.phase i).isCaching other = false)
    (halone : calls.shared.keychain name = value ∨ ∀ j, (calls.phase j).isCaching name = false) :
    WrittenThrough (calls.move i
      ({ calls.shared with keychain := Function.update calls.shared.keychain name value },
        .caching name value .done)) where
  kind := h.kind
  pending j other value' answer hj := by
    show Function.update calls.shared.keychain name value other = value'
    rcases Tasks.phase_move_cases hj with ⟨-, hnow⟩ | ⟨-, hbefore⟩
    · cases hnow
      simp
    · have hvalue := h.pending j other value' answer hbefore
      by_cases hother : other = name
      · subst hother
        rw [Function.update_self]
        rcases halone with hsame | hnone
        · rw [← hsame, hvalue]
        · have hcaching := isCaching_of_phase hbefore
          rw [hnone j] at hcaching
          cases hcaching
      · rw [Function.update_of_ne hother]
        exact hvalue
  cached other value' hcached := by
    show Function.update calls.shared.keychain name value other = some value' ∨ _
    by_cases hother : other = name
    · have hcaching : (calls.move i
          ({ calls.shared with keychain := Function.update calls.shared.keychain name value },
            .caching name value .done)).phase i = .caching name value .done :=
        Tasks.phase_move_self
      rw [hother]
      exact Or.inr ⟨i, isCaching_of_phase hcaching⟩
    · rw [Function.update_of_ne hother]
      rcases h.cached other value' hcached with hsame | ⟨j, hj⟩
      · exact Or.inl hsame
      · exact Or.inr ⟨j, isCaching_move (hfree other) hj⟩

/-- A call caches what it has read or written. -/
theorem caches (h : WrittenThrough calls) {name : String} {answer : SecretAnswer}
    (hi : calls.phase i = .caching name value answer) :
    WrittenThrough (calls.move i
      ({ calls.shared with cache := Function.update calls.shared.cache name value },
        .answered answer)) where
  kind := h.kind
  pending j other value' answer' hj := by
    rcases Tasks.phase_move_cases hj with ⟨-, hnow⟩ | ⟨-, hbefore⟩
    · cases hnow
    · exact h.pending j other value' answer' hbefore
  cached other value' hcached := by
    by_cases hother : other = name
    · subst hother
      have hvalue : value = some value' := by simpa using hcached
      exact Or.inl ((h.pending i other value answer hi).trans hvalue)
    · have hbefore : calls.shared.cache other = some value' := by
        simpa [hother] using hcached
      have hfree : (calls.phase i).isCaching other = false := by
        rw [hi]
        exact decide_eq_false (Ne.symm hother)
      rcases h.cached other value' hbefore with hsame | ⟨j, hj⟩
      · exact Or.inl hsame
      · exact Or.inr ⟨j, isCaching_move hfree hj⟩

theorem step (h : WrittenThrough calls) {action : ι × SecretMove}
    (hundisturbed : Undisturbed calls action) (hstep : secretStep action calls = some calls') :
    WrittenThrough calls' := by
  rw [secretStep, Tasks.step_eq_some_iff] at hstep
  have ⟨next, hnext, heq⟩ := hstep
  subst heq
  rcases advance_cases h.kind hnext with ⟨hstore, hfree⟩ | ⟨name, answer, hfree, hnext⟩ |
    ⟨name, value, hwrites, hfree, hnext⟩ | ⟨name, value, answer, hi, hnext⟩
  · rw [show next = (calls.shared, next.2) from Prod.ext hstore rfl]
    exact h.rests hfree
  · rw [hnext]
    exact h.looksUp hfree
  · rw [Undisturbed, hwrites] at hundisturbed
    rw [hnext]
    exact h.writes hfree hundisturbed
  · rw [hnext]
    exact h.caches hi

omit [DecidableEq ι] in
theorem coherent (h : WrittenThrough calls) (hquiet : calls.Quiet) : calls.shared.Coherent := by
  intro name value hcached
  rcases h.cached name value hcached with hsame | ⟨i, hi⟩
  · exact hsame
  · have hstill := hquiet i
    cases hphase : calls.phase i with
    | caching other value answer =>
      rw [hphase] at hstill
      cases hstill
    | idle | called _ | looking _ | answered _ =>
      rw [hphase] at hi
      cases hi

end WrittenThrough

omit [DecidableEq ι] in
theorem writtenThrough_start (entry : Option String) (keychain : String → Option String) :
    WrittenThrough
      (Tasks.start (SecretStore.withKeychain (.ok entry) keychain) .idle : SecretCalls ι) where
  kind := rfl
  pending _ _ _ _ h := by cases h
  cached _ _ h := by cases h

/-! ## Resolving alone -/

/-- The steps of one call to `resolve`, with a keychain that does not fail. -/
def ResolvesAlone (i : ι) (name : String) (_ : SecretCalls ι) (action : ι × SecretMove) : Prop :=
  action = (i, .start (.resolve name)) ∨ action = (i, .proceed none)

/-- What the keychain says about a name. -/
def SecretStore.current (store : SecretStore) (name : String) : SecretAnswer :=
  match store.keychain name with
  | some value => .value value
  | none => .failed (.notFound name)

/-- How far a call to `resolve` on its own can be. -/
def SecretPhase.Resolves (store : SecretStore) (name : String) : SecretPhase → Prop
  | .idle => True
  | .called call => call = .resolve name
  | .looking other => other = name
  | .caching other value answer =>
    other = name ∧ value = store.keychain name ∧ answer = store.current name
  | .answered answer => answer = store.current name

theorem SecretStore.current_of_some {name value : String} (h : store.keychain name = some value) :
    store.current name = .value value := by
  rw [SecretStore.current, h]

theorem SecretStore.current_of_none (h : store.keychain name = none) :
    store.current name = .failed (.notFound name) := by
  rw [SecretStore.current, h]

/-- A step of `resolve` leaves the keychain, and the cache coherent. -/
theorem resolves_advance (hkind : store.kind = .keychain) (hcoherent : store.Coherent)
    (hphase : phase.Resolves store name)
    (hmove : move = .start (.resolve name) ∨ move = .proceed none)
    (h : move.advance store phase = some next) :
    next.1.kind = .keychain ∧ next.1.Coherent ∧ next.1.keychain = store.keychain ∧
      next.2.Resolves store name := by
  cases phase with
  | idle =>
    rcases hmove with hmove | hmove
    · subst hmove
      cases h
      exact ⟨hkind, hcoherent, rfl, rfl⟩
    · subst hmove
      cases h
  | called call =>
    rcases hmove with hmove | hmove
    · subst hmove
      cases h
    · subst hmove
      cases (show call = .resolve name from hphase)
      cases hcached : store.cache name with
      | some value =>
        simp only [SecretMove.advance, hcached] at h
        cases h
        refine ⟨hkind, hcoherent, rfl, ?_⟩
        exact (SecretStore.current_of_some (hcoherent name value hcached)).symm
      | none =>
        simp only [SecretMove.advance, hcached, hkind] at h
        cases h
        exact ⟨hkind, hcoherent, rfl, rfl⟩
  | looking other =>
    rcases hmove with hmove | hmove
    · subst hmove
      cases h
    · subst hmove
      cases (show other = name from hphase)
      cases hvalue : store.keychain name with
      | none =>
        simp only [SecretMove.advance, hvalue] at h
        cases h
        exact ⟨hkind, hcoherent, rfl, (SecretStore.current_of_none hvalue).symm⟩
      | some value =>
        simp only [SecretMove.advance, hvalue] at h
        cases h
        exact ⟨hkind, hcoherent, rfl, rfl, hvalue.symm,
          (SecretStore.current_of_some hvalue).symm⟩
  | caching other value answer =>
    rcases hmove with hmove | hmove
    · subst hmove
      cases h
    · subst hmove
      cases h
      have ⟨hname, hvalue, hanswer⟩ := hphase
      refine ⟨hkind, ?_, rfl, hanswer⟩
      intro key cached hcached
      by_cases hkey : key = other
      · subst hkey
        have hsame : value = some cached := by simpa using hcached
        rw [← hsame, hvalue, hname]
      · exact hcoherent key cached (by simpa [hkey] using hcached)
  | answered answer =>
    rcases hmove with hmove | hmove
    · subst hmove
      cases h
    · subst hmove
      cases h

/-- What a call to `resolve` on its own answers. -/
theorem answer_of_resolvesAlone (hkind : calls.shared.kind = .keychain)
    (hcoherent : calls.shared.Coherent) (hidle : calls.phase i = .idle)
    (h : Follows secretStep (ResolvesAlone i name) calls calls') {answer : SecretAnswer}
    (hanswer : calls'.phase i = .answered answer) : answer = calls.shared.current name := by
  have hphase : calls'.shared.kind = .keychain ∧ calls'.shared.Coherent ∧
      calls'.shared.keychain = calls.shared.keychain ∧
      (calls'.phase i).Resolves calls.shared name := by
    apply h.invariant
    · refine ⟨hkind, hcoherent, rfl, ?_⟩
      rw [hidle]
      trivial
    · intro before action after ⟨hkind, hcoherent, hsame, hphase⟩ hadmitted hstep
      have hcurrent : ∀ phase : SecretPhase,
          phase.Resolves calls.shared name ↔ phase.Resolves before.shared name := by
        intro phase
        cases phase <;> simp only [SecretPhase.Resolves, SecretStore.current, hsame]
      rw [secretStep, Tasks.step_eq_some_iff] at hstep
      have ⟨next, hnext, heq⟩ := hstep
      have hmove : action.1 = i ∧
          (action.2 = .start (.resolve name) ∨ action.2 = .proceed none) := by
        rcases hadmitted with hadmitted | hadmitted
        · exact ⟨by rw [hadmitted], Or.inl (by rw [hadmitted])⟩
        · exact ⟨by rw [hadmitted], Or.inr (by rw [hadmitted])⟩
      rw [hmove.1] at hnext heq
      have ⟨hkind', hcoherent', hsame', hphase'⟩ := resolves_advance hkind hcoherent
        ((hcurrent _).mp hphase) hmove.2 hnext
      subst heq
      refine ⟨hkind', hcoherent', hsame'.trans hsame, ?_⟩
      rw [Tasks.phase_move_self, hcurrent]
      exact hphase'
  have hresolved := hphase.2.2.2
  rw [hanswer] at hresolved
  exact hresolved

theorem follows_proceed (next : SecretStore × SecretPhase)
    (h : Follows secretStep (ResolvesAlone i name) calls calls')
    (hnext : (SecretMove.proceed none).advance calls'.shared (calls'.phase i) = some next) :
    Follows secretStep (ResolvesAlone i name) calls (calls'.move i next) := by
  apply Follows.step h (i, .proceed none) (Or.inr rfl)
  rw [secretStep, Tasks.step_eq_some_iff]
  exact ⟨next, hnext, rfl⟩

/-- A call to `resolve` on its own is answered. -/
theorem exists_answer_of_resolvesAlone (hkind : calls.shared.kind = .keychain)
    (hidle : calls.phase i = .idle) :
    ∃ calls' answer, Follows secretStep (ResolvesAlone i name) calls calls' ∧
      calls'.phase i = .answered answer := by
  have hcalled : Follows secretStep (ResolvesAlone i name) calls
      (calls.move i (calls.shared, .called (.resolve name))) := by
    apply Follows.step .refl (i, .start (.resolve name)) (Or.inl rfl)
    rw [secretStep, Tasks.step_eq_some_iff]
    exact ⟨_, by rw [hidle]; rfl, rfl⟩
  cases hcached : calls.shared.cache name with
  | some value =>
    have hfound := follows_proceed (calls.shared, .answered (.value value)) hcalled
      (by simp [SecretMove.advance, hcached])
    exact ⟨_, _, hfound, Tasks.phase_move_self⟩
  | none =>
    have hlooking := follows_proceed (calls.shared, .looking name) hcalled
      (by simp [SecretMove.advance, hcached, hkind])
    cases hvalue : calls.shared.keychain name with
    | none =>
      have hmissed := follows_proceed
        (calls.shared, .answered (.failed (.notFound name))) hlooking
        (by simp [SecretMove.advance, hvalue])
      exact ⟨_, _, hmissed, Tasks.phase_move_self⟩
    | some value =>
      have hcaching := follows_proceed
        (calls.shared, .caching name (some value) (.value value)) hlooking
        (by simp [SecretMove.advance, hvalue])
      have hfound := follows_proceed _ hcaching (by rw [Tasks.phase_move_self]; rfl)
      exact ⟨_, _, hfound, Tasks.phase_move_self⟩

/-! ## The store -/

/-- When no step changes an entry of the keychain that another call is about to cache,
the cache agrees with the keychain whenever no call is running, and a call to `resolve`
is then answered with what the keychain has. -/
theorem secrets_coherent {entry : Option String} {keychain : String → Option String}
    (h : Follows secretStep Undisturbed
      (Tasks.start (SecretStore.withKeychain (.ok entry) keychain) .idle) calls)
    (hquiet : calls.Quiet) :
    calls.shared.Coherent ∧
      ∀ i name, calls.phase i = .idle →
        (∃ calls' answer, Follows secretStep (ResolvesAlone i name) calls calls' ∧
          calls'.phase i = .answered answer) ∧
        ∀ calls' answer, Follows secretStep (ResolvesAlone i name) calls calls' →
          calls'.phase i = .answered answer → answer = calls.shared.current name := by
  have hwritten : WrittenThrough calls := by
    apply h.invariant (writtenThrough_start entry keychain)
    intro before action after hbefore hundisturbed hstep
    exact hbefore.step hundisturbed hstep
  have hcoherent := hwritten.coherent hquiet
  refine ⟨hcoherent, fun i name hidle => ⟨?_, ?_⟩⟩
  · exact exists_answer_of_resolvesAlone hwritten.kind hidle
  · intro calls' answer hfollows hanswer
    exact answer_of_resolvesAlone hwritten.kind hcoherent hidle hfollows hanswer

end Threads

/-- The keychain at first. -/
def storedToken (name : String) : Option String := if name = "token" then some "old" else none

def twoThreads : SecretCalls Bool :=
  Tasks.start (SecretStore.withKeychain (.ok none) storedToken) .idle

/-- A secret is resolved and then overwritten by the other thread. -/
def overwrittenSecret : Option (SecretCalls Bool) :=
  performAdmitted secretStep Undisturbed
    [(false, .start (.resolve "token")), (true, .start (.putRef "token" "new")),
      (false, .proceed none), (false, .proceed none), (false, .proceed none),
      (true, .proceed none), (true, .proceed none)] twoThreads

theorem secrets_coherent_overwritten :
    ∃ calls, overwrittenSecret = some calls ∧ calls.shared.Coherent := by
  have hquiet : overwrittenSecret.map (fun calls => decide calls.Quiet) = some true := by
    decide +kernel
  have ⟨calls, hcalls, hstill⟩ := Option.map_eq_some_iff.mp hquiet
  exact ⟨calls, hcalls,
    (secrets_coherent (follows_of_performAdmitted hcalls) (of_decide_eq_true hstill)).1⟩

/-- One thread has read a secret from the keychain when the other deletes it, and then
caches it. -/
def deletedSecret : Option (SecretCalls Bool) :=
  perform secretStep
    [(false, .start (.resolve "token")), (false, .proceed none), (false, .proceed none),
      (true, .start (.delete "token")), (true, .proceed none), (true, .proceed none),
      (false, .proceed none)] twoThreads

/-- A deleted secret comes back from the cache. -/
theorem deleted_secret_cached :
    ∃ calls, Follows secretStep (fun _ _ => True) twoThreads calls ∧ calls.Quiet ∧
      calls.shared.cache "token" = some "old" ∧ calls.shared.keychain "token" = none := by
  have hrun : deletedSecret.map (fun calls =>
      (decide calls.Quiet, calls.shared.cache "token",
        calls.shared.keychain "token")) = some (true, some "old", none) := by decide +kernel
  have ⟨calls, hcalls, heq⟩ := Option.map_eq_some_iff.mp hrun
  have ⟨hstill, hstored⟩ := Prod.mk.inj heq
  have ⟨hcached, hkeychain⟩ := Prod.mk.inj hstored
  exact ⟨calls, follows_of_perform hcalls, of_decide_eq_true hstill, hcached, hkeychain⟩

end ApiVoy.Secrets
