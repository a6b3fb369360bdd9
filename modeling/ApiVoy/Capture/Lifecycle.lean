/-
# Starting and stopping the capture proxy

The proxy has one slot behind a lock: whether it is running, where it is bound, the token
that stops it, and a generation that counts changes. A start looks at the slot, binds a
listener without the lock, and then fills the slot and spawns the loop that accepts
connections. A stop empties the slot and cancels the token it finds. A loop ends when its
token is cancelled or accepting fails, and empties the slot if the generation is still its
own. Its listener is open until then.
-/

import ApiVoy.Foundation.Tasks
import Mathlib.Algebra.Group.Nat.Defs

namespace ApiVoy.Capture

open Foundation

/-- How far the accept loop of a start is; it keeps the generation of its start. -/
inductive LoopPhase where
  | absent
  | accepting (generation : Nat)
  /-- Out of the loop, and waiting for the lock to clean up. -/
  | leaving (generation : Nat)
  | ended
  deriving DecidableEq

/-- The generation of a loop that has not cleaned up. -/
def LoopPhase.own? : LoopPhase → Option Nat
  | .accepting generation | .leaving generation => some generation
  | .absent | .ended => none

section Steps

variable {ι : Type}

/-- The slot, the tokens and the loops. Tokens and loops are named by the start that
has made them. The generation is compared modulo 2^64, and the number of stops is not
kept by the code. -/
structure CaptureDesk (ι : Type) where
  running : Bool
  bind : Option String
  shutdown : Option ι
  generation : Nat
  stops : Nat
  cancelled : ι → Bool
  loops : ι → LoopPhase

def CaptureDesk.new : CaptureDesk ι :=
  ⟨false, none, none, 0, 0, fun _ => false, fun _ => .absent⟩

structure CaptureStatus where
  running : Bool
  bind : Option String
  deriving DecidableEq

def CaptureDesk.status (desk : CaptureDesk ι) : CaptureStatus := ⟨desk.running, desk.bind⟩

inductive CaptureCall where
  | start (bind : String) (loopback allowRemote : Bool)
  | stop
  | status
  deriving DecidableEq

/-- How far a call is. A start keeps the number of stops that its check has found. -/
inductive CapturePhase where
  | idle
  | checking (bind : String)
  | binding (bind : String) (seen : Nat)
  | bound (actual : String) (seen : Nat)
  | stopping
  | reporting
  | answered (status : CaptureStatus)
  | failed (error : String)
  /-- The caller has gone away. -/
  | dropped
  deriving DecidableEq

namespace CapturePhase

/-- The stops seen by a start that has not filled the slot yet. -/
def seen? : CapturePhase → Option Nat
  | .binding _ seen | .bound _ seen => some seen
  | .idle | .checking _ | .stopping | .reporting | .answered _ | .failed _ | .dropped => none

/-- A start that may still fill the slot, or a call that has not begun. -/
def isEarly : CapturePhase → Bool
  | .idle | .checking _ | .binding .. | .bound .. => true
  | .stopping | .reporting | .answered _ | .failed _ | .dropped => false

end CapturePhase

/-- What a call does next: begin, take the lock and do what is done under it, hear of
its listener, or go away. -/
inductive CaptureMove where
  | enter (call : CaptureCall)
  | lock
  | listen (result : Except String String)
  | drop

inductive LoopMove where
  | accept
  | acceptFails
  | cancelled
  | cleanUp
  deriving DecidableEq

variable [DecidableEq ι]

namespace CaptureDesk

/-- Fill the slot and spawn the loop. -/
def store (desk : CaptureDesk ι) (i : ι) (actual : String) : CaptureDesk ι where
  running := true
  bind := some actual
  shutdown := some i
  generation := desk.generation + 1
  stops := desk.stops
  cancelled := desk.cancelled
  loops := Function.update desk.loops i (.accepting (desk.generation + 1))

/-- Empty the slot and cancel the token that was in it. -/
def take (desk : CaptureDesk ι) : CaptureDesk ι where
  running := false
  bind := none
  shutdown := none
  generation := desk.generation + 1
  stops := desk.stops + 1
  cancelled :=
    match desk.shutdown with
    | some i => Function.update desk.cancelled i true
    | none => desk.cancelled
  loops := desk.loops

def setLoop (desk : CaptureDesk ι) (i : ι) (phase : LoopPhase) : CaptureDesk ι :=
  { desk with loops := Function.update desk.loops i phase }

/-- A loop that has left empties the slot when the generation is its own. -/
def cleanUp (desk : CaptureDesk ι) (i : ι) (own : Nat) : CaptureDesk ι :=
  if desk.generation % 2 ^ 64 = own % 2 ^ 64 then
    { desk.setLoop i .ended with running := false, bind := none, shutdown := none }
  else desk.setLoop i .ended

end CaptureDesk

/-- How a call goes on. -/
def CaptureMove.advance (i : ι) :
    CaptureMove → CaptureDesk ι → CapturePhase → Option (CaptureDesk ι × CapturePhase)
  | .enter (.start address loopback allowRemote), desk, .idle =>
    if allowRemote = false ∧ loopback = false then
      some (desk, .failed
        "capture proxy may only bind loopback unless remote access is explicitly enabled")
    else some (desk, .checking address)
  | .enter .stop, desk, .idle => some (desk, .stopping)
  | .enter .status, desk, .idle => some (desk, .reporting)
  | .lock, desk, .checking address =>
    if desk.running = true then some (desk, .answered desk.status)
    else some (desk, .binding address desk.stops)
  | .listen (.ok actual), desk, .binding _ seen => some (desk, .bound actual seen)
  | .listen (.error error), desk, .binding _ _ => some (desk, .failed error)
  | .lock, desk, .bound actual _ => some (desk.store i actual, .reporting)
  | .lock, desk, .stopping => some (desk.take, .reporting)
  | .lock, desk, .reporting => some (desk, .answered desk.status)
  | .drop, desk, .checking _ | .drop, desk, .binding _ _ | .drop, desk, .bound _ _
  | .drop, desk, .stopping | .drop, desk, .reporting => some (desk, .dropped)
  | _, _, _ => none

/-- How a loop goes on. Accepting goes on being possible when the token is cancelled. -/
def LoopMove.advance (i : ι) (move : LoopMove) (desk : CaptureDesk ι) : Option (CaptureDesk ι) :=
  match move, desk.loops i with
  | .accept, .accepting _ => some desk
  | .acceptFails, .accepting own => some (desk.setLoop i (.leaving own))
  | .cancelled, .accepting own =>
    if desk.cancelled i = true then some (desk.setLoop i (.leaving own)) else none
  | .cleanUp, .leaving own => some (desk.cleanUp i own)
  | _, _ => none

abbrev CaptureProxy (ι : Type) := Tasks ι (CaptureDesk ι) CapturePhase

inductive CaptureAction (ι : Type) where
  | call (i : ι) (move : CaptureMove)
  | loop (i : ι) (move : LoopMove)

def captureStep (action : CaptureAction ι) (proxy : CaptureProxy ι) : Option (CaptureProxy ι) :=
  match action with
  | .call i move => proxy.step (fun i move => move.advance i) i move
  | .loop i move => (move.advance i proxy.shared).map fun desk => ⟨desk, proxy.phase⟩

def CaptureProxy.new : CaptureProxy ι := Tasks.start CaptureDesk.new .idle

namespace CaptureAction

/-- A start fills the slot only when it is empty and no stop has run since its check; and
a loop does not clean up at a generation that has come round to its own. -/
def isSettled (proxy : CaptureProxy ι) : CaptureAction ι → Bool
  | .call i .lock =>
    match proxy.phase i with
    | .bound _ seen => proxy.shared.running = false ∧ proxy.shared.stops = seen
    | _ => true
  | .loop i .cleanUp =>
    match proxy.shared.loops i with
    | .leaving own =>
      proxy.shared.generation % 2 ^ 64 = own % 2 ^ 64 → proxy.shared.generation = own
    | _ => true
  | _ => true

/-- A start looks at the slot. -/
def isCheck (proxy : CaptureProxy ι) : CaptureAction ι → Bool
  | .call i .lock =>
    match proxy.phase i with
    | .checking _ => true
    | _ => false
  | _ => false

end CaptureAction

/-! ## The slot and the loops -/

variable {i j : ι} {desk desk' : CaptureDesk ι}

namespace CaptureDesk

/-- The loop of a start has not cleaned up, and its token is not cancelled. -/
def Listens (desk : CaptureDesk ι) (i : ι) : Prop :=
  (desk.loops i).own?.isSome = true ∧ desk.cancelled i = false

/-- The slot has the loop that listens, if there is one, and the generation is that of
this loop only. -/
structure Kept (desk : CaptureDesk ι) : Prop where
  running : desk.running = desk.shutdown.isSome
  current : ∀ i, desk.shutdown = some i →
    (desk.loops i).own? = some desk.generation ∧ desk.cancelled i = false
  listening : ∀ i, desk.Listens i → desk.shutdown = some i
  own : ∀ i own, (desk.loops i).own? = some own →
    own ≤ desk.generation ∧ (own = desk.generation → desk.shutdown = some i)

omit [DecidableEq ι] in
theorem kept_new : (new : CaptureDesk ι).Kept where
  running := rfl
  current _ h := by cases h
  listening _ h := by cases h.1
  own _ _ h := by cases h

omit [DecidableEq ι] in
theorem Kept.shutdown_eq_none (h : desk.Kept) (hrunning : desk.running = false) :
    desk.shutdown = none := by
  rw [← Option.not_isSome_iff_eq_none, ← h.running, hrunning]
  exact Bool.false_ne_true

omit [DecidableEq ι] in
theorem Kept.not_listens (h : desk.Kept) (hshutdown : desk.shutdown = none) (i : ι) :
    ¬ desk.Listens i := by
  intro hlistens
  have hslot := h.listening i hlistens
  rw [hshutdown] at hslot
  cases hslot

/-- An empty slot can be filled for a start that has no loop yet. -/
theorem Kept.store (h : desk.Kept) (hrunning : desk.running = false)
    (hcancelled : desk.cancelled i = false) (actual : String) : (desk.store i actual).Kept where
  running := rfl
  current j hj := by
    have hij : i = j := Option.some.inj hj
    subst hij
    exact ⟨by simp [CaptureDesk.store, LoopPhase.own?], hcancelled⟩
  listening j hlistens := by
    by_cases hj : j = i
    · subst hj
      rfl
    · have hloops : (desk.store i actual).loops j = desk.loops j := by
        simp [CaptureDesk.store, hj]
      have hbefore : desk.Listens j := ⟨hloops ▸ hlistens.1, hlistens.2⟩
      exact absurd hbefore (h.not_listens (h.shutdown_eq_none hrunning) j)
  own j own hown := by
    by_cases hj : j = i
    · subst hj
      have hnew : (desk.store j actual).loops j = .accepting (desk.generation + 1) := by
        simp [CaptureDesk.store]
      rw [hnew] at hown
      cases hown
      exact ⟨Nat.le_refl _, fun _ => rfl⟩
    · have hloops : (desk.store i actual).loops j = desk.loops j := by
        simp [CaptureDesk.store, hj]
      rw [hloops] at hown
      have hle := (h.own j own hown).1
      have hnext : (desk.store i actual).generation = desk.generation + 1 := rfl
      exact ⟨by omega, by omega⟩

/-- A stop leaves nothing that listens. -/
theorem Kept.take (h : desk.Kept) : desk.take.Kept where
  running := rfl
  current _ hj := by cases hj
  listening j hlistens := by
    -- the loop that was in the slot is cancelled, and no other one listens
    have ⟨hloop, hcancelled⟩ := hlistens
    cases hslot : desk.shutdown with
    | none =>
      simp only [CaptureDesk.take, hslot] at hcancelled
      exact absurd ⟨hloop, hcancelled⟩ (h.not_listens hslot j)
    | some i =>
      simp only [CaptureDesk.take, hslot] at hcancelled
      by_cases hj : j = i
      · subst hj
        rw [Function.update_self] at hcancelled
        cases hcancelled
      · rw [Function.update_of_ne hj] at hcancelled
        have hsame := h.listening j ⟨hloop, hcancelled⟩
        rw [hslot] at hsame
        exact absurd (Option.some.inj hsame).symm hj
  own j own hown := by
    have hle := (h.own j own hown).1
    have hnext : desk.take.generation = desk.generation + 1 := rfl
    exact ⟨by omega, by omega⟩

variable {own : Nat}

/-- A loop that leaves is still one that has not cleaned up. -/
theorem Kept.leave (h : desk.Kept) (hloop : desk.loops i = .accepting own) :
    (desk.setLoop i (.leaving own)).Kept := by
  have hown : ∀ j, ((desk.setLoop i (.leaving own)).loops j).own? = (desk.loops j).own? := by
    intro j
    by_cases hj : j = i
    · subst hj
      simp [setLoop, LoopPhase.own?, hloop]
    · simp [setLoop, hj]
  exact {
    running := h.running
    current := fun j hj => ⟨(hown j).trans (h.current j hj).1, (h.current j hj).2⟩
    listening := fun j hlistens => h.listening j ⟨hown j ▸ hlistens.1, hlistens.2⟩
    own := fun j own' hj => h.own j own' ((hown j).symm.trans hj) }

theorem own_setLoop_ended (h : ((desk.setLoop i .ended).loops j).own? = some own) :
    j ≠ i ∧ (desk.loops j).own? = some own := by
  by_cases hj : j = i
  · subst hj
    simp [setLoop, LoopPhase.own?] at h
  · simp only [setLoop, Function.update_of_ne hj] at h
    exact ⟨hj, h⟩

theorem listens_setLoop_ended (h : (desk.setLoop i .ended).Listens j) :
    j ≠ i ∧ desk.Listens j := by
  have ⟨own, hown⟩ := Option.isSome_iff_exists.mp h.1
  have ⟨hj, hbefore⟩ := own_setLoop_ended hown
  exact ⟨hj, by rw [hbefore, Option.isSome_some], h.2⟩

/-- A loop that cleans up takes itself out of the slot, and leaves another one in it. -/
theorem Kept.cleanUp (h : desk.Kept) (hloop : desk.loops i = .leaving own)
    (hround : desk.generation % 2 ^ 64 = own % 2 ^ 64 → desk.generation = own) :
    (desk.cleanUp i own).Kept := by
  have hself : (desk.loops i).own? = some own := by rw [hloop, LoopPhase.own?]
  by_cases hgeneration : desk.generation % 2 ^ 64 = own % 2 ^ 64
  · rw [CaptureDesk.cleanUp, if_pos hgeneration]
    have hslot := (h.own i own hself).2 (hround hgeneration).symm
    have hnot : ∀ k, k ≠ i → desk.shutdown ≠ some k := by
      intro k hk hk'
      exact hk (Option.some.inj (hslot.symm.trans hk')).symm
    exact {
      running := rfl
      current := fun k hk => by cases hk
      listening := by
        intro k hlistens
        have ⟨hk, hbefore⟩ := listens_setLoop_ended hlistens
        exact absurd (h.listening k hbefore) (hnot k hk)
      own := by
        intro k own' hown'
        have ⟨hk, hbefore⟩ := own_setLoop_ended hown'
        have ⟨hle, hsame⟩ := h.own k own' hbefore
        exact ⟨hle, fun heq => absurd (hsame heq) (hnot k hk)⟩ }
  · rw [CaptureDesk.cleanUp, if_neg hgeneration]
    exact {
      running := h.running
      current := by
        intro k hk
        have ⟨hcurrent, hcancelled⟩ := h.current k hk
        have hne : k ≠ i := by
          intro heq
          subst heq
          have hsame : own = desk.generation := Option.some.inj (hself.symm.trans hcurrent)
          exact hgeneration (by rw [hsame])
        have hloops : (desk.setLoop i .ended).loops k = desk.loops k := by
          simp [setLoop, hne]
        exact ⟨by rw [hloops, hcurrent]; rfl, hcancelled⟩
      listening := fun k hlistens => h.listening k (listens_setLoop_ended hlistens).2
      own := fun k own' hown' => h.own k own' (own_setLoop_ended hown').2 }

end CaptureDesk

/-! ## The steps -/

/-- What a call that may still fill the slot relies on. -/
structure Relies (i : ι) (desk : CaptureDesk ι) (phase : CapturePhase) : Prop where
  seen : ∀ seen, phase.seen? = some seen → seen ≤ desk.stops
  fresh : phase.isEarly = true → desk.loops i = .absent ∧ desk.cancelled i = false

/-- What holds of the slot, the loops and the calls under way. -/
abbrev Tracked (proxy : CaptureProxy ι) : Prop :=
  proxy.Holds CaptureDesk.Kept Relies

variable {phase : CapturePhase}

omit [DecidableEq ι] in
/-- A call that has filled the slot or emptied it relies on nothing more. -/
theorem relies_of_over (hseen : phase.seen? = none) (hearly : phase.isEarly = false) :
    Relies i desk phase where
  seen seen h := by
    rw [hseen] at h
    cases h
  fresh h := by
    rw [hearly] at h
    cases h

omit [DecidableEq ι] in
/-- What a call relies on stays when its loop and its token do. -/
theorem Relies.of_same (h : Relies i desk phase) (hstops : desk.stops ≤ desk'.stops)
    (hloop : desk.loops i = .absent → desk'.loops i = .absent)
    (hcancelled : desk.loops i = .absent → desk.cancelled i = false → desk'.cancelled i = false) :
    Relies i desk' phase where
  seen seen hseen := Nat.le_trans (h.seen seen hseen) hstops
  fresh hearly :=
    have ⟨habsent, hlive⟩ := h.fresh hearly
    ⟨hloop habsent, hcancelled habsent hlive⟩

/-- How a step of a call goes: it fills the slot, or empties it, or leaves it alone; in
the last case it has looked at the slot if it has seen anything new. -/
inductive CallStep (i : ι) (move : CaptureMove) (desk : CaptureDesk ι) :
    CapturePhase → CaptureDesk ι × CapturePhase → Prop
  | store (actual : String) (seen : Nat) (hmove : move = .lock) :
      CallStep i move desk (.bound actual seen) (desk.store i actual, .reporting)
  | take (hmove : move = .lock) : CallStep i move desk .stopping (desk.take, .reporting)
  | check (address : String) (hmove : move = .lock) :
      CallStep i move desk (.checking address) (desk, .binding address desk.stops)
  | aside (phase after : CapturePhase)
      (hseen : ∀ seen, after.seen? = some seen → phase.seen? = some seen)
      (hearly : after.isEarly = true → phase.isEarly = true) :
      CallStep i move desk phase (desk, after)

theorem callStep_of_advance {move : CaptureMove} {next : CaptureDesk ι × CapturePhase}
    (h : move.advance i desk phase = some next) : CallStep i move desk phase next := by
  cases move with
  | enter call =>
    cases phase with
    | idle =>
      cases call with
      | start address loopback allowRemote =>
        rw [CaptureMove.advance] at h
        split at h
        · cases h
          exact .aside _ _ (fun _ hseen => hseen) (fun _ => rfl)
        · cases h
          exact .aside _ _ (fun _ hseen => hseen) (fun _ => rfl)
      | stop | status =>
        cases h
        exact .aside _ _ (fun _ hseen => hseen) (fun _ => rfl)
    | checking _ | binding _ _ | bound _ _ | stopping | reporting | answered _ | failed _
    | dropped => cases call <;> cases h
  | lock =>
    cases phase with
    | checking address =>
      rw [CaptureMove.advance] at h
      split at h
      · cases h
        exact .aside _ _ (fun _ hseen => hseen) (fun _ => rfl)
      · cases h
        exact .check address rfl
    | bound actual seen =>
      cases h
      exact .store actual seen rfl
    | stopping =>
      cases h
      exact .take rfl
    | reporting =>
      cases h
      exact .aside _ _ (fun _ hseen => hseen) (fun hearly => hearly)
    | idle | binding _ _ | answered _ | failed _ | dropped => cases h
  | listen result =>
    cases phase with
    | binding address seen =>
      cases result with
      | ok actual =>
        cases h
        exact .aside _ _ (fun _ hseen => hseen) (fun _ => rfl)
      | error error =>
        cases h
        exact .aside _ _ (fun _ hseen => by cases hseen) (fun _ => rfl)
    | idle | checking _ | bound _ _ | stopping | reporting | answered _ | failed _
    | dropped => cases result <;> cases h
  | drop =>
    cases phase with
    | checking _ | binding _ _ | bound _ _ | stopping | reporting =>
      cases h
      exact .aside _ _ (fun _ hseen => by cases hseen) (fun hearly => by cases hearly)
    | idle | answered _ | failed _ | dropped => cases h

/-- How a step of a loop goes. -/
inductive LoopStep (i : ι) (move : LoopMove) (desk : CaptureDesk ι) : CaptureDesk ι → Prop
  | accept : LoopStep i move desk desk
  | leave (own : Nat) (hloop : desk.loops i = .accepting own) :
      LoopStep i move desk (desk.setLoop i (.leaving own))
  | cleanUp (own : Nat) (hmove : move = .cleanUp) (hloop : desk.loops i = .leaving own) :
      LoopStep i move desk (desk.cleanUp i own)

variable {move : LoopMove}

theorem loopStep_of_advance (h : move.advance i desk = some desk') :
    LoopStep i move desk desk' := by
  cases hloop : desk.loops i with
  | absent | ended => cases move <;> simp [LoopMove.advance, hloop] at h
  | accepting own =>
    cases move with
    | accept =>
      simp only [LoopMove.advance, hloop, Option.some.injEq] at h
      exact h ▸ .accept
    | acceptFails =>
      simp only [LoopMove.advance, hloop, Option.some.injEq] at h
      exact h ▸ .leave own hloop
    | cancelled =>
      simp only [LoopMove.advance, hloop, Option.ite_none_right_eq_some,
        Option.some.injEq] at h
      exact h.2 ▸ .leave own hloop
    | cleanUp => simp [LoopMove.advance, hloop] at h
  | leaving own =>
    cases move with
    | cleanUp =>
      simp only [LoopMove.advance, hloop, Option.some.injEq] at h
      exact h ▸ .cleanUp own rfl hloop
    | accept | acceptFails | cancelled => simp [LoopMove.advance, hloop] at h

/-- A step of a loop changes no token, and nothing of a start that has no loop. -/
theorem LoopStep.frame (h : LoopStep i move desk desk') :
    desk'.stops = desk.stops ∧ desk'.cancelled = desk.cancelled ∧
      (desk'.shutdown = desk.shutdown ∨ desk'.shutdown = none) ∧
      ∀ k, desk.loops k = .absent → desk'.loops k = .absent := by
  have hset : ∀ (phase : LoopPhase), desk.loops i ≠ .absent →
      ∀ k, desk.loops k = .absent → (desk.setLoop i phase).loops k = .absent := by
    intro phase hloop k habsent
    have hne : k ≠ i := by
      intro heq
      exact hloop (heq ▸ habsent)
    simp [CaptureDesk.setLoop, hne, habsent]
  cases h with
  | accept => exact ⟨rfl, rfl, .inl rfl, fun _ habsent => habsent⟩
  | leave own hloop => exact ⟨rfl, rfl, .inl rfl, hset _ (by rw [hloop]; exact nofun)⟩
  | cleanUp own hmove hloop =>
    have hloops := hset .ended (by rw [hloop]; exact nofun)
    rw [CaptureDesk.cleanUp]
    split
    · exact ⟨rfl, rfl, .inr rfl, hloops⟩
    · exact ⟨rfl, rfl, .inl rfl, hloops⟩

variable {proxy proxy' stopped : CaptureProxy ι} {action : CaptureAction ι}

/-- A settled step of a call keeps what is tracked. -/
theorem tracked_call {move : CaptureMove} (h : Tracked proxy)
    (hsettled : CaptureAction.isSettled proxy (.call i move) = true)
    (hstep : captureStep (.call i move) proxy = some proxy') : Tracked proxy' := by
  rw [captureStep, Tasks.step_eq_some_iff] at hstep
  have ⟨next, hnext, heq⟩ := hstep
  subst heq
  have hkept := h.shared
  have hrelies := h.task i
  have hcall := callStep_of_advance hnext
  generalize hphase : proxy.phase i = phase at hcall hrelies
  cases hcall with
  | store actual seen hmove =>
    subst hmove
    simp only [CaptureAction.isSettled, hphase, decide_eq_true_eq] at hsettled
    have ⟨_, hlive⟩ := hrelies.fresh rfl
    apply h.move (hkept.store hsettled.1 hlive actual) (relies_of_over rfl rfl)
    intro k hk hother
    have hstops : proxy.shared.stops ≤ (proxy.shared.store i actual).stops := Nat.le_refl _
    apply hother.of_same hstops
    · intro habsent
      simp [CaptureDesk.store, hk, habsent]
    · intro _ hfresh
      exact hfresh
  | take hmove =>
    apply h.move hkept.take (relies_of_over rfl rfl)
    intro k _ hother
    have hstops : proxy.shared.stops ≤ proxy.shared.take.stops := Nat.le_succ _
    apply hother.of_same hstops
    · intro habsent
      exact habsent
    · intro habsent hfresh
      -- the token that is cancelled is that of a loop
      cases hslot : proxy.shared.shutdown with
      | none => simpa only [CaptureDesk.take, hslot] using hfresh
      | some owner =>
        have hne : k ≠ owner := by
          intro heq
          subst heq
          have hcurrent := (hkept.current k hslot).1
          rw [habsent] at hcurrent
          cases hcurrent
        simpa only [CaptureDesk.take, hslot, Function.update_of_ne hne] using hfresh
  | check address hmove =>
    apply h.move hkept
    · exact {
        seen := fun seen hseen => Nat.le_of_eq (Option.some.inj hseen).symm
        fresh := fun _ => hrelies.fresh rfl }
    · exact fun _ _ hother => hother
  | aside phase after hseen hearly =>
    apply h.move hkept
    · exact {
        seen := fun seen hafter => hrelies.seen seen (hseen seen hafter)
        fresh := fun hafter => hrelies.fresh (hearly hafter) }
    · exact fun _ _ hother => hother

/-- A settled step of a loop keeps what is tracked. -/
theorem tracked_loop (h : Tracked proxy)
    (hsettled : CaptureAction.isSettled proxy (.loop i move) = true)
    (hstep : captureStep (.loop i move) proxy = some proxy') : Tracked proxy' := by
  have ⟨next, hnext, heq⟩ := Option.map_eq_some_iff.mp hstep
  subst heq
  have hloop := loopStep_of_advance hnext
  have ⟨hstops, hcancelled, _, hloops⟩ := hloop.frame
  apply h.outside
  · cases hloop with
    | accept => exact h.shared
    | leave own hphase => exact h.shared.leave hphase
    | cleanUp own hmove hphase =>
      subst hmove
      simp only [CaptureAction.isSettled, hphase, decide_eq_true_eq] at hsettled
      exact h.shared.cleanUp hphase hsettled
  · intro k hrelies
    exact hrelies.of_same (Nat.le_of_eq hstops.symm) (hloops k)
      fun _ hlive => hcancelled ▸ hlive

theorem tracked_step (h : Tracked proxy) (hsettled : action.isSettled proxy = true)
    (hstep : captureStep action proxy = some proxy') : Tracked proxy' := by
  cases action with
  | call i move => exact tracked_call h hsettled hstep
  | loop i move => exact tracked_loop h hsettled hstep

theorem tracked_of_follows
    (h : Follows captureStep (fun proxy action => action.isSettled proxy = true)
      CaptureProxy.new proxy) : Tracked proxy := by
  apply h.invariant
  · exact {
      shared := CaptureDesk.kept_new
      task := fun _ => ⟨fun _ hseen => (by cases hseen), fun _ => ⟨rfl, rfl⟩⟩ }
  · intro before action after hbefore hsettled hstep
    exact tracked_step hbefore hsettled hstep

/-! ## After a stop -/

/-- The slot is empty, and every start under way has seen it before the last stop. -/
structure Quiet (proxy : CaptureProxy ι) : Prop where
  tracked : Tracked proxy
  empty : proxy.shared.shutdown = none
  stale : ∀ i seen, (proxy.phase i).seen? = some seen → seen < proxy.shared.stops

/-- A stop that has the lock makes the proxy quiet. -/
theorem quiet_of_stop (h : Tracked proxy) (hphase : proxy.phase i = .stopping)
    (hstep : captureStep (.call i .lock) proxy = some stopped) : Quiet stopped where
  tracked := by
    apply tracked_call h _ hstep
    rw [CaptureAction.isSettled, hphase]
  empty := by
    rw [captureStep, Tasks.step, hphase] at hstep
    cases hstep
    rfl
  stale := by
    rw [captureStep, Tasks.step, hphase] at hstep
    cases hstep
    intro k seen hseen
    by_cases hk : k = i
    · subst hk
      rw [Tasks.phase_move_self] at hseen
      cases hseen
    · rw [Tasks.phase_move_of_ne hk] at hseen
      exact Nat.lt_succ_of_le ((h.task k).seen seen hseen)

/-- The proxy stays quiet until a start looks at the slot. -/
theorem quiet_step (h : Quiet proxy) (hsettled : action.isSettled proxy = true)
    (hcheck : action.isCheck proxy = false) (hstep : captureStep action proxy = some proxy') :
    Quiet proxy' := by
  have htracked := tracked_step h.tracked hsettled hstep
  cases action with
  | loop i move =>
    have ⟨next, hnext, heq⟩ := Option.map_eq_some_iff.mp hstep
    subst heq
    have ⟨hstops, _, hslot, _⟩ := (loopStep_of_advance hnext).frame
    exact {
      tracked := htracked
      empty := hslot.elim (fun hsame => hsame.trans h.empty) id
      stale := fun k seen hseen => hstops ▸ h.stale k seen hseen }
  | call i move =>
    rw [captureStep, Tasks.step_eq_some_iff] at hstep
    have ⟨next, hnext, heq⟩ := hstep
    subst heq
    have hcall := callStep_of_advance hnext
    have hstale := h.stale i
    generalize hphase : proxy.phase i = phase at hcall hstale
    have hothers : ∀ k seen, k ≠ i →
        ((proxy.move i next).phase k).seen? = some seen → seen < proxy.shared.stops := by
      intro k seen hk hseen
      rw [Tasks.phase_move_of_ne hk] at hseen
      exact h.stale k seen hseen
    cases hcall with
    | store actual seen hmove =>
      -- a start that has seen the slot before the stop does not fill it
      subst hmove
      simp only [CaptureAction.isSettled, hphase, decide_eq_true_eq] at hsettled
      exact absurd hsettled.2 (Nat.ne_of_gt (hstale seen rfl))
    | check address hmove =>
      subst hmove
      rw [CaptureAction.isCheck, hphase] at hcheck
      cases hcheck
    | take hmove =>
      refine ⟨htracked, rfl, fun k seen hseen => ?_⟩
      by_cases hk : k = i
      · subst hk
        rw [Tasks.phase_move_self] at hseen
        cases hseen
      · exact Nat.lt_succ_of_lt (hothers k seen hk hseen)
    | aside phase after hseen hearly =>
      refine ⟨htracked, h.empty, fun k seen hafter => ?_⟩
      by_cases hk : k = i
      · subst hk
        rw [Tasks.phase_move_self] at hafter
        exact hstale seen (hseen seen hafter)
      · exact hothers k seen hk hafter

theorem quiet_of_follows (h : Quiet proxy)
    (hrun : Follows captureStep
      (fun proxy action => action.isSettled proxy = true ∧ action.isCheck proxy = false)
      proxy proxy') : Quiet proxy' := by
  apply hrun.invariant h
  intro before action after hbefore hadmitted hstep
  exact quiet_step hbefore hadmitted.1 hadmitted.2 hstep

/-! ## One loop -/

/-- At most one loop listens, and the status says whether one does. -/
structure KeepsOneLoop (proxy : CaptureProxy ι) : Prop where
  atMostOne : ∀ i j, proxy.shared.Listens i → proxy.shared.Listens j → i = j
  shown : proxy.shared.status.running = true ↔ ∃ i, proxy.shared.Listens i

omit [DecidableEq ι] in
theorem keepsOneLoop_of_kept (h : proxy.shared.Kept) : KeepsOneLoop proxy where
  atMostOne i j hi hj := Option.some.inj ((h.listening i hi).symm.trans (h.listening j hj))
  shown := by
    rw [CaptureDesk.status, h.running, Option.isSome_iff_exists]
    constructor
    · intro ⟨i, hslot⟩
      have ⟨hopen, hlive⟩ := h.current i hslot
      exact ⟨i, by rw [hopen, Option.isSome_some], hlive⟩
    · intro ⟨i, hlistens⟩
      exact ⟨i, h.listening i hlistens⟩

/-- In every run whose steps are settled, one loop listens or none, the status says which,
and after a stop none listens until a start looks at the slot again. -/
theorem capture_keeps_one_loop
    (h : Follows captureStep (fun proxy action => action.isSettled proxy = true)
      CaptureProxy.new proxy) :
    KeepsOneLoop proxy ∧
      ∀ i stopped after, proxy.phase i = .stopping →
        captureStep (.call i .lock) proxy = some stopped →
        Follows captureStep
          (fun proxy action => action.isSettled proxy = true ∧ action.isCheck proxy = false)
          stopped after →
        ∀ j, ¬ after.shared.Listens j := by
  have htracked := tracked_of_follows h
  refine ⟨keepsOneLoop_of_kept htracked.shared, ?_⟩
  intro i stopped after hphase hstop hrun j
  have hquiet := quiet_of_follows (quiet_of_stop htracked hphase hstop) hrun
  exact hquiet.tracked.shared.not_listens hquiet.empty j

end Steps

/-- A start, and a stop that is about to take the lock. -/
def stoppingProxy : Option (CaptureProxy Bool) :=
  performAdmitted captureStep (fun proxy action => action.isSettled proxy = true)
    [.call false (.enter (.start "127.0.0.1:8899" true false)), .call false .lock,
      .call false (.listen (.ok "127.0.0.1:8899")), .call false .lock, .call false .lock,
      .loop false .accept, .call true (.enter .stop)] CaptureProxy.new

theorem capture_keeps_one_loop_of_stopping :
    ∃ proxy stopped after, stoppingProxy = some proxy ∧
      captureStep (.call true .lock) proxy = some stopped ∧
      captureStep (.loop false .cancelled) stopped = some after ∧ KeepsOneLoop proxy ∧
      ¬ after.shared.Listens false := by
  have hrun : stoppingProxy.map (fun proxy =>
      (proxy.phase true,
        ((captureStep (.call true .lock) proxy).bind fun stopped =>
          (captureStep (.loop false .cancelled) stopped).map fun _ => ()).isSome)) =
      some (.stopping, true) := by decide +kernel
  have ⟨proxy, hproxy, heq⟩ := Option.map_eq_some_iff.mp hrun
  have ⟨hphase, hsome⟩ := Prod.mk.inj heq
  have ⟨_, hunit⟩ := Option.isSome_iff_exists.mp hsome
  have ⟨stopped, hstopped, hafter'⟩ := Option.bind_eq_some_iff.mp hunit
  have ⟨after, hafter, _⟩ := Option.map_eq_some_iff.mp hafter'
  have ⟨hone, hstop⟩ := capture_keeps_one_loop (follows_of_performAdmitted hproxy)
  refine ⟨proxy, stopped, after, hproxy, hstopped, hafter, hone, ?_⟩
  exact hstop true stopped after hphase hstopped (.step .refl _ ⟨rfl, rfl⟩ hafter) false

/-- Two starts that both look at the empty slot. -/
def overlappingStarts : Option (CaptureProxy Bool) :=
  perform captureStep
    [.call false (.enter (.start "127.0.0.1:8899" true false)),
      .call true (.enter (.start "127.0.0.1:8900" true false)),
      .call false .lock, .call true .lock,
      .call false (.listen (.ok "127.0.0.1:8899")), .call true (.listen (.ok "127.0.0.1:8900")),
      .call false .lock, .call true .lock] CaptureProxy.new

/-- Two loops listen, and the slot has the second one only. -/
theorem overlapping_starts_both_listen :
    ∃ proxy : CaptureProxy Bool,
      Follows captureStep (fun _ _ => True) CaptureProxy.new proxy ∧
      proxy.shared.Listens false ∧ proxy.shared.Listens true ∧
      proxy.shared.shutdown = some true ∧ ¬ KeepsOneLoop proxy := by
  have hrun : overlappingStarts.map (fun proxy =>
      ((proxy.shared.loops false).own?, (proxy.shared.loops true).own?,
        proxy.shared.cancelled false, proxy.shared.cancelled true, proxy.shared.shutdown)) =
      some (some 1, some 2, false, false, some true) := by decide +kernel
  have ⟨proxy, hproxy, heq⟩ := Option.map_eq_some_iff.mp hrun
  simp only [Prod.mk.injEq] at heq
  have ⟨hfirst, hsecond, hlive, hlive', hslot⟩ := heq
  have hlistens : proxy.shared.Listens false := ⟨by rw [hfirst]; rfl, hlive⟩
  have hlistens' : proxy.shared.Listens true := ⟨by rw [hsecond]; rfl, hlive'⟩
  refine ⟨proxy, follows_of_perform hproxy, hlistens, hlistens', hslot, fun hkeeps => ?_⟩
  cases hkeeps.atMostOne false true hlistens hlistens'

end ApiVoy.Capture
