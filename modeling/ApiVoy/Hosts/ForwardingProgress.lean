/-
# What keeps an execution going

A task of an execution can go on until the host has finished, unless the channel of the
stream is full and its receiver waits for a client. So an execution comes to its end by
itself when it sends no more events than this channel holds, and is blocked for good when
it sends more and no client opens its stream.
-/

import ApiVoy.Hosts.ForwardingAccounts

namespace ApiVoy.Hosts

open Foundation Domain Engine

section Runs

variable {decode : String → Option Bytes} {run : EngineRun} {stores : Bool}
variable {relay relay' : Relay}

namespace Relay

omit decode run stores relay' in
/-- The engine's task or the tee goes on when the sink is empty, until the sink is closed. -/
theorem Wired.progress (h : relay.Wired) (hempty : relay.sink.items = []) (run : EngineRun) :
    relay.sinkClosed = true ∨ (relay.engineStep run).isSome = true ∨
      relay.teeStep.isSome = true := by
  have hsend : ∀ event, ∃ sink, relay.sink.send event = some sink := by
    intro event
    refine Option.ne_none_iff_exists'.mp fun hnone => ?_
    rw [Channel.send_eq_none_iff, hempty] at hnone
    cases hnone
  -- a tee that is alive goes on unless it waits for the driver
  have htee : relay.teeTask.isAlive = true →
      relay.teeStep.isSome = true ∨
        (relay.engine.isDriving = true ∧ relay.tee.items = []) := by
    intro halive
    cases htask : relay.teeTask with
    | absent | done =>
      rw [htask] at halive
      cases halive
    | sending event =>
      obtain ⟨sink, hsink⟩ := hsend event
      exact Or.inl (by simp only [teeStep, htask, hsink, Option.map_some, Option.isSome_some])
    | receiving =>
      cases hreceive : relay.tee.receive with
      | some next => exact Or.inl (by simp only [teeStep, htask, hreceive, Option.isSome_some])
      | none =>
        by_cases hdriving : relay.engine.isDriving = true
        · exact Or.inr ⟨hdriving, Channel.receive_eq_none_iff.mp hreceive⟩
        · left
          simp only [teeStep, htask, hreceive, if_neg hdriving, Option.isSome_some]
  have hover : relay.engine.isOver = true → relay.sinkClosed = true ∨
      (relay.engineStep run).isSome = true ∨ relay.teeStep.isSome = true := by
    intro hover
    by_cases halive : relay.teeTask.isAlive = true
    · rcases htee halive with hstep | ⟨hdriving, _⟩
      · exact Or.inr (Or.inr hstep)
      · cases hengine : relay.engine with
        | driving _ =>
          rw [hengine] at hover
          cases hover
        | early _ | joining | late _ | leaving | ended =>
          rw [hengine] at hdriving
          cases hdriving
    · left
      rw [Bool.not_eq_true] at halive
      rw [sinkClosed, hover, halive]
      rfl
  cases hengine : relay.engine with
  | early left =>
    right; left
    cases left with
    | nil => cases run <;> simp only [engineStep, hengine, Option.isSome_some]
    | cons event left =>
      obtain ⟨sink, hsink⟩ := hsend event
      simp only [engineStep, hengine, hsink, Option.map_some, Option.isSome_some]
  | driving left =>
    right
    cases left with
    | nil => left; cases run <;> simp only [engineStep, hengine, Option.isSome_some]
    | cons event left =>
      rcases htee (h.driving (by rw [hengine, EnginePhase.isDriving])) with hstep | ⟨_, hdrained⟩
      · exact Or.inr hstep
      · left
        obtain ⟨tee, hroom⟩ : ∃ tee, relay.tee.send event = some tee := by
          refine Option.ne_none_iff_exists'.mp fun hnone => ?_
          rw [Channel.send_eq_none_iff, hdrained] at hnone
          cases hnone
        simp only [engineStep, hengine, hroom, Option.map_some, Option.isSome_some]
  | joining =>
    right
    by_cases halive : relay.teeTask.isAlive = true
    · rcases htee halive with hstep | ⟨hdriving, _⟩
      · exact Or.inr hstep
      · rw [hengine] at hdriving
        cases hdriving
    · left
      have hdone : relay.teeTask = .done := by
        have hthere := h.joining hengine
        cases htask : relay.teeTask with
        | done => rfl
        | absent => exact absurd htask hthere
        | receiving | sending _ =>
          rw [htask] at halive
          exact absurd rfl halive
      simp only [engineStep, hengine, if_pos hdone, Option.isSome_some]
  | late left =>
    right; left
    cases left with
    | nil => simp only [engineStep, hengine, Option.isSome_some]
    | cons event left =>
      obtain ⟨sink, hsink⟩ := hsend event
      simp only [engineStep, hengine, hsink, Option.map_some, Option.isSome_some]
  | leaving | ended => exact hover (by rw [hengine, EnginePhase.isOver])

omit decode run stores relay' in
theorem sendSse_progress (event : ExecutionEvent) (next failed : Relay) :
    (relay.sendSse event next failed).isSome = true ∨
      (relay.receiver ≠ .gone ∧ relay.sse.items.length = channelCapacity) := by
  by_cases hgone : relay.receiver = .gone
  · exact Or.inl (by rw [sendSse, if_pos hgone, Option.isSome_some])
  · cases hsend : relay.sse.send event with
    | some sse =>
      exact Or.inl (by rw [sendSse, if_neg hgone, hsend, Option.map_some, Option.isSome_some])
    | none => exact Or.inr ⟨hgone, Channel.send_eq_none_iff.mp hsend⟩

/-- A task goes on until the host has finished, unless the stream's channel is full and its
receiver is still there. -/
theorem Accounted.progress (h : relay.Accounted decode run stores) :
    relay.forward = .finished ∨
      (∃ task, (relayStep decode run stores (.task task) relay).isSome = true) ∨
      (relay.receiver ≠ .gone ∧ relay.sse.items.length = channelCapacity ∧
        relay.ahead decode run ≠ []) := by
  have hsse : ∀ (event : ExecutionEvent) (next failed : Relay),
      relay.forwardStep decode run stores = relay.sendSse event next failed →
      relay.ahead decode run ≠ [] →
      (∃ task, (relayStep decode run stores (.task task) relay).isSome = true) ∨
        (relay.receiver ≠ .gone ∧ relay.sse.items.length = channelCapacity ∧
          relay.ahead decode run ≠ []) := by
    intro event next failed heq hahead
    rcases relay.sendSse_progress event next failed with hsend | ⟨hthere, hfull⟩
    · exact Or.inl ⟨.forward, by rw [relayStep, heq, hsend]⟩
    · exact Or.inr ⟨hthere, hfull, hahead⟩
  cases hforward : relay.forward with
  | finished => exact Or.inl rfl
  | receiving =>
    right; left
    cases hreceive : relay.sink.receive with
    | some next => exact ⟨.forward, by simp only [relayStep, forwardStep, hforward, hreceive, Option.isSome_some]⟩
    | none =>
      have hempty := Channel.receive_eq_none_iff.mp hreceive
      rcases h.wired.progress hempty run with hclosed | hstep | hstep
      · exact ⟨.forward, by
          simp only [relayStep, forwardStep, hforward, hreceive, if_pos hclosed,
            Option.isSome_some]⟩
      · exact ⟨.engine, hstep⟩
      · exact ⟨.tee, hstep⟩
  | sending event =>
    right
    apply hsse event { relay with forward := .receiving }
      { relay with forward := .receiving, connected := false }
    · simp only [forwardStep, hforward]
    · simp only [ahead, hforward]
      exact List.cons_ne_nil _ _
  | warning =>
    right
    apply hsse truncationWarning { relay with forward := .joining }
      { relay with forward := .joining }
    · simp only [forwardStep, hforward]
    · simp only [ahead, hforward]
      exact List.cons_ne_nil _ _
  | joining =>
    right; left
    obtain ⟨hclosed, _⟩ := h.closed (by rw [hforward, ForwardPhase.isOver])
    have hover : relay.engine.isOver = true := by
      rw [sinkClosed, Bool.and_eq_true] at hclosed
      exact hclosed.1
    cases hengine : relay.engine with
    | leaving => exact ⟨.engine, by simp only [relayStep, engineStep, hengine, Option.isSome_some]⟩
    | ended =>
      exact ⟨.forward, by simp only [relayStep, forwardStep, hforward, if_pos hengine, Option.isSome_some]⟩
    | early _ | driving _ | joining | late _ =>
      rw [hengine] at hover
      cases hover
  | reporting left =>
    right
    cases left with
    | nil => exact Or.inl ⟨.forward, by simp only [relayStep, forwardStep, hforward, Option.isSome_some]⟩
    | cons event left =>
      apply hsse event { relay with forward := .reporting left }
        { relay with forward := .reporting left }
      · simp only [forwardStep, hforward]
      · simp only [ahead, hforward]
        exact List.cons_ne_nil _ _
  | persisting =>
    exact Or.inr (Or.inl ⟨.forward, by simp only [relayStep, forwardStep, hforward, Option.isSome_some]⟩)

end Relay

theorem work_of_task {task : RelayTask} (h : relay.Accounted decode run stores)
    (hstep : relayStep decode run stores (.task task) relay = some relay') :
    relay'.work run < relay.work run := by
  cases task with
  | engine => exact (Relay.inner_of_engineStep h.wired hstep).work
  | tee => exact (Relay.inner_of_teeStep h.wired hstep).work
  | forward => exact (Relay.outer_of_forwardStep h hstep).work

/-- The host has finished, and the record of an execution whose driver has finished is in
the store. -/
def Settled (run : EngineRun) (relay : Relay) : Prop :=
  relay.forward = .finished ∧ (run.driverFinishes = true → relay.recorded = true)

/-- No state has all tasks blocked, the tasks come to their end in every order, and the
receiver of the stream can be taken once. -/
structure KeepsGoing (decode : String → Option Bytes) (run : EngineRun) (stores : Bool)
    (relay : Relay) : Prop where
  notBlocked : relay.forward = .finished ∨
    ∃ task, (relayStep decode run stores (.task task) relay).isSome = true
  persists : Inevitable (relayStep decode run stores) (fun _ action => action.isTask = true)
    (Settled run) relay
  claimable : relay.claims + (if relay.receiver = .waiting then 1 else 0) ≤ 1

theorem settled_of_finished (h : relay.Accounted decode run stores)
    (hfinished : relay.forward = .finished)
    (hstores : run.driverFinishes = true → run.result.isPanicked = false ∧ stores = true) :
    Settled run relay := by
  refine ⟨hfinished, fun hdriver => ?_⟩
  have ⟨hresult, haccepts⟩ := hstores hdriver
  rw [h.recorded, hfinished, hresult, haccepts]
  rfl

/-- An execution that sends no more than the stream's channel holds keeps going. -/
theorem keepsGoing_of_sends_le (hsends : run.sends decode ≤ channelCapacity)
    (hstores : run.driverFinishes = true → run.result.isPanicked = false ∧ stores = true)
    (h : relay.Accounted decode run stores) : KeepsGoing decode run stores relay := by
  have hgoes : ∀ relay : Relay, relay.Accounted decode run stores → relay.forward = .finished ∨
      ∃ task, (relayStep decode run stores (.task task) relay).isSome = true := by
    intro relay h
    rcases h.progress with hfinished | hstep | ⟨_, hfull, hahead⟩
    · exact Or.inl hfinished
    · exact Or.inr hstep
    · have hbound := h.bound
      have hsome := List.length_pos_iff.mpr hahead
      rw [Relay.onTheWay, List.length_append] at hbound
      omega
  exact {
    notBlocked := hgoes relay h
    persists := by
      apply Inevitable.of_measure (I := fun relay => relay.Accounted decode run stores)
        (Relay.work run) _ _ h
      · intro relay h
        rcases hgoes relay h with hfinished | ⟨task, hstep⟩
        · exact Or.inl (settled_of_finished h hfinished hstores)
        · obtain ⟨relay', hrelay'⟩ := Option.isSome_iff_exists.mp hstep
          exact Or.inr ⟨.task task, relay', rfl, hrelay'⟩
      · intro relay action relay' h htask hstep
        cases action with
        | task task => exact ⟨accounted_step h hstep, work_of_task h hstep⟩
        | insert | abandon | openStream | receive | disconnect => cases htask
    claimable := by
      by_cases hwaiting : relay.receiver = .waiting
      · rw [if_pos hwaiting, h.unclaimed (Or.inr hwaiting)]
      · rw [if_neg hwaiting]
        exact h.claims }

/-- An execution that sends more comes to a state in which every task is blocked, when no
client opens its stream. -/
theorem exists_blocked (decode : String → Option Bytes) (run : EngineRun) (stores : Bool)
    (hsends : channelCapacity < run.sends decode) :
    ∃ relay, Follows (relayStep decode run stores) (fun _ _ => True) (Relay.new run) relay ∧
      relay.receiver = .waiting ∧ relay.forward ≠ .finished ∧
      ∀ task, relayStep decode run stores (.task task) relay = none := by
  have hinsert : relayStep decode run stores .insert (Relay.new run) =
      some { Relay.new run with receiver := .waiting } := by
    simp only [relayStep, Relay.new, if_true]
  have hrests : Inevitable (relayStep decode run stores) (fun _ action => action.isTask = true)
      (fun relay => (relay.Accounted decode run stores ∧ relay.receiver = .waiting) ∧
        ∀ task, relayStep decode run stores (.task task) relay = none)
      { Relay.new run with receiver := .waiting } := by
    apply Inevitable.of_measure
      (I := fun relay => relay.Accounted decode run stores ∧ relay.receiver = .waiting)
      (Relay.work run) _ _ ⟨accounted_step Relay.accounted_new hinsert, rfl⟩
    · intro relay h
      by_cases hrest : ∀ task, relayStep decode run stores (.task task) relay = none
      · exact Or.inl ⟨h, hrest⟩
      · obtain ⟨task, hsome⟩ := not_forall.mp hrest
        obtain ⟨relay', hrelay'⟩ := Option.ne_none_iff_exists'.mp hsome
        exact Or.inr ⟨.task task, relay', rfl, hrelay'⟩
    · rintro relay action relay' ⟨h, hwaiting⟩ htask hstep
      cases action with
      | task task =>
        exact ⟨⟨accounted_step h hstep, (receiver_of_task h hstep).trans hwaiting⟩,
          work_of_task h hstep⟩
      | insert | abandon | openStream | receive | disconnect => cases htask
  obtain ⟨relay, hfollows, ⟨h, hwaiting⟩, hblocked⟩ := hrests.exists_follows
  refine ⟨relay, ?_, hwaiting, ?_, hblocked⟩
  · exact Follows.trans (.step .refl .insert trivial hinsert)
      (hfollows.mono fun _ _ _ => trivial)
  · -- all events but those in the stream's channel are still to be sent
    intro hfinished
    have hall := h.awaited (Or.inr hwaiting)
    simp only [Relay.onTheWay, Relay.ahead, hfinished, List.append_nil] at hall
    have hbounded := relay.sse.bounded
    rw [hall, ← EngineRun.sends] at hbounded
    omega

/-- An execution keeps going in every run of its tasks and its client if and only if it
sends no more than the stream's channel holds, and its record is written when the driver
finishes. -/
theorem execution_keeps_going_iff (decode : String → Option Bytes) (run : EngineRun)
    (stores : Bool) :
    (∀ relay, Follows (relayStep decode run stores) (fun _ _ => True) (Relay.new run) relay →
      KeepsGoing decode run stores relay) ↔
    run.sends decode ≤ channelCapacity ∧
      (run.driverFinishes = true → run.result.isPanicked = false ∧ stores = true) := by
  constructor
  · intro hgoes
    constructor
    · by_contra hmore
      have ⟨relay, hfollows, _, hunfinished, hblocked⟩ :=
        exists_blocked decode run stores (Nat.lt_of_not_le hmore)
      rcases (hgoes relay hfollows).notBlocked with hfinished | ⟨task, hstep⟩
      · exact hunfinished hfinished
      · rw [hblocked task] at hstep
        cases hstep
    · intro hdriver
      have ⟨relay, hfollows, hfinished, hrecorded⟩ := (hgoes _ .refl).persists.exists_follows
      have h := accounted_of_follows (hfollows.mono fun _ _ _ => trivial)
      have hstored := h.recorded.symm.trans (hrecorded hdriver)
      simp only [Bool.and_eq_true, Bool.not_eq_true'] at hstored
      exact hstored.2
  · intro ⟨hsends, hstores⟩ relay hfollows
    exact keepsGoing_of_sends_le hsends hstores (accounted_of_follows hfollows)

end Runs

/-- A driver that writes a thousand lines to the log. -/
def longRun : EngineRun :=
  .afterDriver [] (List.replicate 1000 (.log "info" "line")) []
    (.returned
      { executionId := "e", requestId := "r", protocolId := "http", state := .completed,
        startedAt := "2024-01-01T00:00:00Z", finishedAt := "2024-01-01T00:00:01Z",
        durationMs := 1000, bytesReceived := 0, status := some 200 })

/-- All tasks of the long run are blocked for good when no client opens its stream. -/
theorem long_run_is_blocked :
    ∃ relay, Follows (relayStep (fun _ => none) longRun true) (fun _ _ => True)
        (Relay.new longRun) relay ∧
      relay.forward ≠ .finished ∧
      (∀ task, relayStep (fun _ => none) longRun true (.task task) relay = none) ∧
      ¬ KeepsGoing (fun _ => none) longRun true relay := by
  have hevents : longRun.events.length = 1000 := by
    rw [longRun, EngineRun.events, EngineRun.early, EngineRun.driven, EngineRun.late,
      List.nil_append, List.append_nil, List.length_replicate]
  have hsends : channelCapacity < longRun.sends (fun _ => none) := by
    rw [EngineRun.sends, EngineRun.streamed, List.length_append, List.length_map, hevents,
      channelCapacity]
    omega
  obtain ⟨relay, hfollows, _, hunfinished, hblocked⟩ :=
    exists_blocked (fun _ => none) longRun true hsends
  refine ⟨relay, hfollows, hunfinished, hblocked, fun hgoes => ?_⟩
  rcases hgoes.notBlocked with hfinished | ⟨task, hstep⟩
  · exact hunfinished hfinished
  · rw [hblocked task] at hstep
    cases hstep

end ApiVoy.Hosts
