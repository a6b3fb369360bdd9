/-
# The events of an execution on their way

No event is lost between the engine and the stream's channel: the events in the channels,
in the hands of the tee and of the host, and those that the engine has still to send are
together those of the run. The steps of the tasks use up a bounded amount of work.
-/

import ApiVoy.Hosts.Forwarding

namespace ApiVoy.Hosts

open Foundation Domain Engine

/-! ## The events of the stream -/

def withoutData : ExecutionEvent → ExecutionEvent
  | .responseChunk contentType size preview _ done =>
    .responseChunk contentType size preview none done
  | event => event

end ApiVoy.Hosts

namespace ApiVoy.Engine.EngineRun

open Foundation Domain Hosts

variable (decode : String → Option Bytes)

def kept (run : EngineRun) : Collected := Collected.new.takeAll decode run.events

/-- What the host sends of its own: one warning for a truncated response, and the report
of a panic. -/
def closing (run : EngineRun) : List ExecutionEvent :=
  (if (run.kept decode).truncated = true then [truncationWarning] else []) ++ run.result.report

def streamed (run : EngineRun) : List ExecutionEvent :=
  run.events.map withoutData ++ run.closing decode

/-- How many events are to be sent to the stream. -/
def sends (run : EngineRun) : Nat := (run.streamed decode).length

end ApiVoy.Engine.EngineRun

namespace ApiVoy.Hosts

open Foundation Domain Engine

/-! ## What is under way -/

section Runs

variable {decode : String → Option Bytes} {run : EngineRun} {stores : Bool}
variable {relay relay' : Relay}

/-- The events that the engine's task and the driver have not sent yet. -/
def EnginePhase.left (run : EngineRun) : EnginePhase → List ExecutionEvent
  | .early left => left ++ (run.driven ++ run.late)
  | .driving left => left ++ run.late
  | .joining => run.late
  | .late left => left
  | .leaving | .ended => []

def TeePhase.held : TeePhase → List ExecutionEvent
  | .sending event => [event]
  | .absent | .receiving | .done => []

/-- The events that the host has not received yet. -/
def Relay.rest (run : EngineRun) (relay : Relay) : List ExecutionEvent :=
  relay.sink.items ++ (relay.teeTask.held ++ (relay.tee.items ++ relay.engine.left run))

/-- The steps that the engine's task has ahead, and those that its events make. -/
def EnginePhase.work (run : EngineRun) : EnginePhase → Nat
  | .early left => 4 * left.length + (6 * run.driven.length + (4 * run.late.length + 6))
  | .driving left => 6 * left.length + (4 * run.late.length + 4)
  | .joining => 4 * run.late.length + 3
  | .late left => 4 * left.length + 2
  | .leaving => 1
  | .ended => 0

def TeePhase.work : TeePhase → Nat
  | .receiving => 1
  | .sending _ => 5
  | .absent | .done => 0

def ForwardPhase.work : ForwardPhase → Nat
  | .sending _ => 12
  | .receiving => 10
  | .warning => 9
  | .joining => 7
  | .reporting left => 2 * left.length + 2
  | .persisting => 1
  | .finished => 0

def ReceiverPhase.work : ReceiverPhase → Nat
  | .reading => 1
  | .starting | .waiting | .gone => 0

/-- How many steps of the tasks and of a reading client are ahead at most. -/
def Relay.work (run : EngineRun) (relay : Relay) : Nat :=
  relay.engine.work run + 5 * relay.tee.items.length + relay.teeTask.work +
    3 * relay.sink.items.length + relay.forward.work + relay.sse.items.length +
    relay.receiver.work

namespace Relay

/-- How the engine's task and the tee are connected. -/
structure Wired (relay : Relay) : Prop where
  early : ∀ left, relay.engine = .early left → relay.teeTask = .absent
  driving : relay.engine.isDriving = true → relay.teeTask.isAlive = true
  joining : relay.engine = .joining → relay.teeTask ≠ .absent
  late : ∀ left, relay.engine = .late left → relay.teeTask = .done
  drained : relay.teeTask.isAlive = false → relay.tee.items = []

theorem Wired.of_same (h : relay.Wired) (hengine : relay'.engine = relay.engine)
    (htask : relay'.teeTask = relay.teeTask) (htee : relay'.tee = relay.tee) : relay'.Wired where
  early := by rw [hengine, htask]; exact h.early
  driving := by rw [hengine, htask]; exact h.driving
  joining := by rw [hengine, htask]; exact h.joining
  late := by rw [hengine, htask]; exact h.late
  drained := by rw [htask, htee]; exact h.drained

/-- What a step of the engine's task or the tee does not change. -/
structure SameOutside (relay relay' : Relay) : Prop where
  forward : relay'.forward = relay.forward
  collected : relay'.collected = relay.collected
  connected : relay'.connected = relay.connected
  sse : relay'.sse = relay.sse
  receiver : relay'.receiver = relay.receiver
  claims : relay'.claims = relay.claims
  recorded : relay'.recorded = relay.recorded

/-- A step inside the engine moves events towards the host, and sends none to a sink that
is closed. -/
structure Inner (run : EngineRun) (relay relay' : Relay) : Prop where
  wired : relay'.Wired
  same : SameOutside relay relay'
  rest : relay'.rest run = relay.rest run
  closed : relay.sinkClosed = true → relay'.sinkClosed = true ∧ relay'.sink = relay.sink
  work : relay'.work run < relay.work run

/-- The engine's task moves on and sends nothing. -/
theorem inner_of_phase {engine : EnginePhase} (hwired : { relay with engine := engine }.Wired)
    (hleft : engine.left run = relay.engine.left run)
    (hover : relay.engine.isOver = true → engine.isOver = true)
    (hwork : engine.work run < relay.engine.work run) :
    Inner run relay { relay with engine := engine } where
  wired := hwired
  same := ⟨rfl, rfl, rfl, rfl, rfl, rfl, rfl⟩
  rest := by simp [rest, hleft]
  closed hclosed := by
    simp only [sinkClosed, Bool.and_eq_true] at hclosed ⊢
    exact ⟨⟨hover hclosed.1, hclosed.2⟩, trivial⟩
  work := by
    simp only [work]
    omega

/-- The engine's task sends to the sink when the tee has nothing. -/
theorem inner_of_send {engine : EnginePhase} {event : ExecutionEvent}
    {sink : Channel channelCapacity ExecutionEvent} (hsend : relay.sink.send event = some sink)
    (hwired : { relay with engine := engine, sink := sink }.Wired)
    (hheld : relay.teeTask.held = []) (hdrained : relay.tee.items = [])
    (hleft : relay.engine.left run = event :: engine.left run)
    (hover : relay.engine.isOver = false) (hwork : engine.work run + 4 = relay.engine.work run) :
    Inner run relay { relay with engine := engine, sink := sink } where
  wired := hwired
  same := ⟨rfl, rfl, rfl, rfl, rfl, rfl, rfl⟩
  rest := by simp [rest, Channel.items_of_send hsend, hheld, hdrained, hleft]
  closed hclosed := by simp [sinkClosed, hover] at hclosed
  work := by
    simp only [work, Channel.items_of_send hsend, List.length_append, List.length_cons,
      List.length_nil]
    omega

theorem inner_of_engineStep (h : relay.Wired) (hstep : relay.engineStep run = some relay') :
    Inner run relay relay' := by
  cases hengine : relay.engine with
  | early left =>
    have htee := h.early left hengine
    have hdrained := h.drained (by rw [htee, TeePhase.isAlive])
    cases left with
    | cons event left =>
      simp only [engineStep, hengine] at hstep
      obtain ⟨sink, hsend, heq⟩ := Option.map_eq_some_iff.mp hstep
      subst heq
      apply inner_of_send hsend
      · exact ⟨fun _ _ => htee, by rintro ⟨⟩, by rintro ⟨⟩, by rintro _ ⟨⟩, fun _ => hdrained⟩
      · rw [htee, TeePhase.held]
      · exact hdrained
      · rw [hengine, EnginePhase.left, EnginePhase.left, List.cons_append]
      · rw [hengine, EnginePhase.isOver]
      · simp only [hengine, EnginePhase.work, List.length_cons]
        omega
    | nil =>
      simp only [engineStep, hengine] at hstep
      cases run with
      | beforeDriver early result =>
        cases hstep
        apply inner_of_phase
        · exact ⟨by rintro _ ⟨⟩, by rintro ⟨⟩, by rintro ⟨⟩, by rintro _ ⟨⟩, fun _ => hdrained⟩
        · simp [hengine, EnginePhase.left, EngineRun.driven, EngineRun.late]
        · exact fun _ => rfl
        · simp only [hengine, EnginePhase.work]
          omega
      | inDriver early driven joinError | afterDriver early driven late result =>
        cases hstep
        exact {
          wired := ⟨by rintro _ ⟨⟩, fun _ => rfl, by rintro ⟨⟩, by rintro _ ⟨⟩, by rintro ⟨⟩⟩
          same := ⟨rfl, rfl, rfl, rfl, rfl, rfl, rfl⟩
          rest := by
            simp [rest, EnginePhase.left, TeePhase.held, EngineRun.driven, hengine, htee]
          closed := by simp [sinkClosed, EnginePhase.isOver, hengine]
          work := by
            simp only [work, EnginePhase.work, TeePhase.work, EngineRun.driven, hengine]
            omega }
  | driving left =>
    have halive := h.driving (by rw [hengine, EnginePhase.isDriving])
    cases left with
    | cons event left =>
      simp only [engineStep, hengine] at hstep
      obtain ⟨tee, hsend, heq⟩ := Option.map_eq_some_iff.mp hstep
      have hitems := Channel.items_of_send hsend
      subst heq
      exact {
        wired := by
          refine ⟨by rintro _ ⟨⟩, fun _ => halive, by rintro ⟨⟩, by rintro _ ⟨⟩, fun hdead => ?_⟩
          rw [halive] at hdead
          cases hdead
        same := ⟨rfl, rfl, rfl, rfl, rfl, rfl, rfl⟩
        rest := by simp [rest, EnginePhase.left, hengine, hitems]
        closed := by simp [sinkClosed, EnginePhase.isOver, hengine]
        work := by
          simp only [work, EnginePhase.work, hengine, hitems, List.length_append,
            List.length_cons, List.length_nil]
          omega }
    | nil =>
      simp only [engineStep, hengine] at hstep
      cases run with
      | beforeDriver early result | inDriver early driven joinError =>
        cases hstep
        apply inner_of_phase
        · exact ⟨by rintro _ ⟨⟩, by rintro ⟨⟩, by rintro ⟨⟩, by rintro _ ⟨⟩, h.drained⟩
        · simp [hengine, EnginePhase.left, EngineRun.late]
        · exact fun _ => rfl
        · simp only [hengine, EnginePhase.work]
          omega
      | afterDriver early driven late result =>
        cases hstep
        apply inner_of_phase
        · refine ⟨by rintro _ ⟨⟩, by rintro ⟨⟩, fun _ habsent => ?_, by rintro _ ⟨⟩, h.drained⟩
          rw [habsent] at halive
          cases halive
        · simp [hengine, EnginePhase.left]
        · simp [hengine, EnginePhase.isOver]
        · simp [hengine, EnginePhase.work]
  | joining =>
    simp only [engineStep, hengine, Option.ite_none_right_eq_some, Option.some.injEq] at hstep
    obtain ⟨hdone, heq⟩ := hstep
    subst heq
    apply inner_of_phase
    · exact ⟨by rintro _ ⟨⟩, by rintro ⟨⟩, by rintro ⟨⟩, fun _ _ => hdone, h.drained⟩
    · rw [hengine, EnginePhase.left, EnginePhase.left]
    · simp [hengine, EnginePhase.isOver]
    · simp [hengine, EnginePhase.work]
  | late left =>
    have hdone := h.late left hengine
    cases left with
    | cons event left =>
      simp only [engineStep, hengine] at hstep
      obtain ⟨sink, hsend, heq⟩ := Option.map_eq_some_iff.mp hstep
      subst heq
      apply inner_of_send hsend
      · exact ⟨by rintro _ ⟨⟩, by rintro ⟨⟩, by rintro ⟨⟩, fun _ _ => hdone, h.drained⟩
      · rw [hdone, TeePhase.held]
      · exact h.drained (by rw [hdone, TeePhase.isAlive])
      · rw [hengine, EnginePhase.left, EnginePhase.left]
      · rw [hengine, EnginePhase.isOver]
      · simp only [hengine, EnginePhase.work, List.length_cons]
        omega
    | nil =>
      simp only [engineStep, hengine] at hstep
      cases hstep
      apply inner_of_phase
      · exact ⟨by rintro _ ⟨⟩, by rintro ⟨⟩, by rintro ⟨⟩, by rintro _ ⟨⟩, h.drained⟩
      · rw [hengine, EnginePhase.left, EnginePhase.left]
      · exact fun _ => rfl
      · simp [hengine, EnginePhase.work]
  | leaving =>
    simp only [engineStep, hengine] at hstep
    cases hstep
    apply inner_of_phase
    · exact ⟨by rintro _ ⟨⟩, by rintro ⟨⟩, by rintro ⟨⟩, by rintro _ ⟨⟩, h.drained⟩
    · rw [hengine, EnginePhase.left, EnginePhase.left]
    · exact fun _ => rfl
    · simp [hengine, EnginePhase.work]
  | ended =>
    simp only [engineStep, hengine] at hstep
    cases hstep

theorem inner_of_teeStep (h : relay.Wired) (hstep : relay.teeStep = some relay') :
    Inner run relay relay' := by
  have hearly : ∀ left, relay.engine = .early left → relay.teeTask.isAlive = false := by
    intro left hengine
    rw [h.early left hengine, TeePhase.isAlive]
  have hlate : ∀ left, relay.engine = .late left → relay.teeTask.isAlive = false := by
    intro left hengine
    rw [h.late left hengine, TeePhase.isAlive]
  cases htee : relay.teeTask with
  | absent | done =>
    simp only [teeStep, htee] at hstep
    cases hstep
  | sending event =>
    simp only [teeStep, htee] at hstep
    obtain ⟨sink, hsend, heq⟩ := Option.map_eq_some_iff.mp hstep
    have hitems := Channel.items_of_send hsend
    subst heq
    rw [htee] at hearly hlate
    exact {
      wired := ⟨fun left hengine => absurd (hearly left hengine) (by rintro ⟨⟩), fun _ => rfl,
        by rintro _ ⟨⟩, fun left hengine => absurd (hlate left hengine) (by rintro ⟨⟩),
        by rintro ⟨⟩⟩
      same := ⟨rfl, rfl, rfl, rfl, rfl, rfl, rfl⟩
      rest := by simp [rest, TeePhase.held, htee, hitems]
      closed := by simp [sinkClosed, TeePhase.isAlive, htee]
      work := by
        simp only [work, TeePhase.work, htee, hitems, List.length_append, List.length_cons,
          List.length_nil]
        omega }
  | receiving =>
    simp only [teeStep, htee] at hstep
    rw [htee] at hearly hlate
    cases hreceive : relay.tee.receive with
    | some next =>
      obtain ⟨event, tee⟩ := next
      rw [hreceive] at hstep
      cases hstep
      have hitems := Channel.items_of_receive hreceive
      exact {
        wired := ⟨fun left hengine => absurd (hearly left hengine) (by rintro ⟨⟩), fun _ => rfl,
          by rintro _ ⟨⟩, fun left hengine => absurd (hlate left hengine) (by rintro ⟨⟩),
          by rintro ⟨⟩⟩
        same := ⟨rfl, rfl, rfl, rfl, rfl, rfl, rfl⟩
        rest := by simp [rest, TeePhase.held, htee, hitems]
        closed := by simp [sinkClosed, TeePhase.isAlive, htee]
        work := by
          simp only [work, TeePhase.work, htee, hitems, List.length_cons]
          omega }
    | none =>
      have hitems := Channel.receive_eq_none_iff.mp hreceive
      rw [hreceive] at hstep
      simp only [Option.ite_none_left_eq_some, Option.some.injEq] at hstep
      obtain ⟨hdriving, heq⟩ := hstep
      subst heq
      exact {
        wired := ⟨fun left hengine => absurd (hearly left hengine) (by rintro ⟨⟩),
          fun hstill => absurd hstill hdriving, by rintro _ ⟨⟩, fun _ _ => rfl, fun _ => hitems⟩
        same := ⟨rfl, rfl, rfl, rfl, rfl, rfl, rfl⟩
        rest := by simp [rest, TeePhase.held, htee]
        closed := by simp [sinkClosed, TeePhase.isAlive, htee]
        work := by
          simp only [work, TeePhase.work, htee]
          omega }

end Relay

/-! ## What the stream gets -/

/-- The host has received all events. -/
def ForwardPhase.isOver : ForwardPhase → Bool
  | .receiving | .sending _ => false
  | .warning | .joining | .reporting _ | .persisting | .finished => true

theorem take_snd (collected : Collected) (event : ExecutionEvent) :
    (collected.take decode event).2 = withoutData event := by
  cases event <;> rfl

namespace Relay

/-- The events that the host may still send to the stream. -/
def ahead (decode : String → Option Bytes) (run : EngineRun) (relay : Relay) :
    List ExecutionEvent :=
  match relay.forward with
  | .receiving => (relay.rest run).map withoutData ++ run.closing decode
  | .sending event => event :: ((relay.rest run).map withoutData ++ run.closing decode)
  | .warning => truncationWarning :: run.result.report
  | .joining => run.result.report
  | .reporting left => left
  | .persisting | .finished => []

/-- The events on their way to the client. -/
def onTheWay (decode : String → Option Bytes) (run : EngineRun) (relay : Relay) :
    List ExecutionEvent :=
  relay.sse.items ++ relay.ahead decode run

/-- Where the events of a run are: no more are on their way than all events of the stream,
and these just as long as no client has taken the receiver. -/
structure Accounted (decode : String → Option Bytes) (run : EngineRun) (stores : Bool)
    (relay : Relay) : Prop where
  wired : relay.Wired
  closed : relay.forward.isOver = true → relay.sinkClosed = true ∧ relay.sink.items = []
  kept : relay.collected.takeAll decode (relay.rest run) = run.kept decode
  connected : relay.receiver ≠ .gone → relay.connected = true
  bound : (relay.onTheWay decode run).length ≤ run.sends decode
  awaited : relay.receiver = .starting ∨ relay.receiver = .waiting →
    relay.onTheWay decode run = run.streamed decode
  recorded : relay.recorded =
    (decide (relay.forward = .finished) && (!run.result.isPanicked && stores))
  unclaimed : relay.receiver = .starting ∨ relay.receiver = .waiting → relay.claims = 0
  claims : relay.claims ≤ 1

theorem accounted_new : (Relay.new run).Accounted decode run stores where
  wired := ⟨fun _ _ => rfl, by rintro ⟨⟩, by rintro ⟨⟩, by rintro _ ⟨⟩, fun _ => rfl⟩
  closed := by rintro ⟨⟩
  kept := rfl
  connected _ := rfl
  bound := Nat.le_refl _
  awaited _ := rfl
  recorded := rfl
  unclaimed _ := rfl
  claims := Nat.zero_le _

/-- What a step of the host keeps and uses up: it loses no event unless the receiver is
gone. -/
structure Outer (decode : String → Option Bytes) (run : EngineRun) (stores : Bool)
    (relay relay' : Relay) : Prop where
  wired : relay'.Wired
  closed : relay'.forward.isOver = true → relay'.sinkClosed = true ∧ relay'.sink.items = []
  kept : relay'.collected.takeAll decode (relay'.rest run) = run.kept decode
  connected : relay.receiver ≠ .gone → relay'.connected = true
  moves : relay.receiver ≠ .gone → relay'.onTheWay decode run = relay.onTheWay decode run
  loses : (relay'.onTheWay decode run).length ≤ (relay.onTheWay decode run).length
  recorded : relay'.recorded =
    (decide (relay'.forward = .finished) && (!run.result.isPanicked && stores))
  receiver : relay'.receiver = relay.receiver
  claims : relay'.claims = relay.claims
  work : relay'.work run < relay.work run

theorem onTheWay_of_inner (h : Inner run relay relay') :
    relay'.onTheWay decode run = relay.onTheWay decode run := by
  rw [onTheWay, onTheWay, ahead, ahead, h.same.sse, h.same.forward, h.rest]

theorem accounted_of_inner (h : relay.Accounted decode run stores)
    (hinner : Inner run relay relay') : relay'.Accounted decode run stores := by
  have hway : relay'.onTheWay decode run = relay.onTheWay decode run := onTheWay_of_inner hinner
  have ⟨hforward, hcollected, hconnected, hsse, hreceiver, hclaims, hrecorded⟩ := hinner.same
  exact {
    wired := hinner.wired
    closed := by
      rw [hforward]
      intro hover
      have ⟨hclosed, hempty⟩ := h.closed hover
      have ⟨hclosed', hsink⟩ := hinner.closed hclosed
      exact ⟨hclosed', hsink ▸ hempty⟩
    kept := by rw [hcollected, hinner.rest, h.kept]
    connected := by rw [hreceiver, hconnected]; exact h.connected
    bound := by rw [hway]; exact h.bound
    awaited := by rw [hreceiver, hway]; exact h.awaited
    recorded := by rw [hforward, hrecorded, h.recorded]
    unclaimed := by rw [hreceiver, hclaims]; exact h.unclaimed
    claims := by rw [hclaims]; exact h.claims }

theorem accounted_of_outer (h : relay.Accounted decode run stores)
    (houter : Outer decode run stores relay relay') : relay'.Accounted decode run stores where
  wired := houter.wired
  closed := houter.closed
  kept := houter.kept
  connected := by rw [houter.receiver]; exact houter.connected
  bound := Nat.le_trans houter.loses h.bound
  awaited := by
    rw [houter.receiver]
    intro hawaited
    have hthere : relay.receiver ≠ .gone := by
      rcases hawaited with heq | heq <;> rw [heq] <;> rintro ⟨⟩
    rw [houter.moves hthere, h.awaited hawaited]
  recorded := houter.recorded
  unclaimed := by rw [houter.receiver, houter.claims]; exact h.unclaimed
  claims := by rw [houter.claims]; exact h.claims

/-! ## The steps of the host -/

omit decode run stores relay' in
/-- Nothing is left once the engine's task is over and the sink is closed and empty. -/
theorem rest_of_closed (h : relay.Wired) (hclosed : relay.sinkClosed = true)
    (hempty : relay.sink.items = []) (run : EngineRun) : relay.rest run = [] := by
  simp only [sinkClosed, Bool.and_eq_true, Bool.not_eq_true'] at hclosed
  have ⟨hover, hdead⟩ := hclosed
  have hheld : relay.teeTask.held = [] := by
    cases htask : relay.teeTask with
    | sending event =>
      rw [htask] at hdead
      cases hdead
    | absent | receiving | done => rfl
  have hleft : relay.engine.left run = [] := by
    cases hengine : relay.engine with
    | leaving | ended => rfl
    | early _ | driving _ | joining | late _ =>
      rw [hengine] at hover
      cases hover
  rw [rest, hempty, hheld, h.drained hdead, hleft]
  rfl

omit decode run stores relay' in
/-- An event is sent when the receiver is there, and fails when it is gone. -/
theorem sendSse_cases {event : ExecutionEvent} {next failed after : Relay}
    (h : relay.sendSse event next failed = some after) :
    (relay.receiver = .gone ∧ after = failed) ∨
      (relay.receiver ≠ .gone ∧
        ∃ sse, relay.sse.send event = some sse ∧ after = { next with sse := sse }) := by
  rw [sendSse] at h
  split at h
  · next hgone => exact Or.inl ⟨hgone, (Option.some.inj h).symm⟩
  · next hthere =>
      have ⟨sse, hsend, heq⟩ := Option.map_eq_some_iff.mp h
      exact Or.inr ⟨hthere, sse, hsend, heq.symm⟩

/-- The host moves on and sends nothing. -/
theorem outer_of_phase {forward : ForwardPhase} {recorded : Bool}
    (h : relay.Accounted decode run stores)
    (hclosed : relay.sinkClosed = true ∧ relay.sink.items = [])
    (hmoves : relay.receiver ≠ .gone →
      { relay with forward := forward }.ahead decode run = relay.ahead decode run)
    (hloses : ({ relay with forward := forward }.ahead decode run).length ≤
      (relay.ahead decode run).length)
    (hrecorded : recorded =
      (decide (forward = .finished) && (!run.result.isPanicked && stores)))
    (hwork : forward.work < relay.forward.work) :
    Outer decode run stores relay { relay with forward := forward, recorded := recorded } where
  wired := h.wired.of_same rfl rfl rfl
  closed _ := hclosed
  kept := h.kept
  connected := h.connected
  moves hthere := congrArg (relay.sse.items ++ ·) (hmoves hthere)
  loses := by
    simp only [onTheWay, List.length_append]
    exact Nat.add_le_add_left hloses _
  recorded := hrecorded
  receiver := rfl
  claims := rfl
  work := by
    simp only [work]
    omega

/-- The host sends the first event that it has to send, or loses it to a receiver that is
gone. -/
theorem outer_of_sendSse {event : ExecutionEvent} {forward : ForwardPhase} {connected : Bool}
    (h : relay.Accounted decode run stores)
    (hsend : relay.sendSse event { relay with forward := forward }
      { relay with forward := forward, connected := connected } = some relay')
    (hahead : relay.ahead decode run = event :: { relay with forward := forward }.ahead decode run)
    (hclosed : forward.isOver = true → relay.sinkClosed = true ∧ relay.sink.items = [])
    (hbefore : relay.forward ≠ .finished) (hafter : forward ≠ .finished)
    (hwork : forward.work + 1 < relay.forward.work) :
    Outer decode run stores relay relay' := by
  have hrecorded : relay.recorded =
      (decide (forward = .finished) && (!run.result.isPanicked && stores)) := by
    rw [h.recorded, decide_eq_false hbefore, decide_eq_false hafter]
  rcases sendSse_cases hsend with ⟨hgone, heq⟩ | ⟨hthere, sse, hsse, heq⟩
  · subst heq
    exact {
      wired := h.wired.of_same rfl rfl rfl
      closed := hclosed
      kept := h.kept
      connected := fun hthere => absurd hgone hthere
      moves := fun hthere => absurd hgone hthere
      loses := by
        simp only [onTheWay, hahead, List.length_append, List.length_cons]
        exact Nat.add_le_add_left (Nat.le_succ _) _
      recorded := hrecorded
      receiver := rfl
      claims := rfl
      work := by
        simp only [work]
        omega }
  · subst heq
    have hmoves : sse.items ++ { relay with forward := forward }.ahead decode run =
        relay.onTheWay decode run := by
      rw [onTheWay, hahead, Channel.items_of_send hsse, List.append_assoc]
      rfl
    exact {
      wired := h.wired.of_same rfl rfl rfl
      closed := hclosed
      kept := h.kept
      connected := h.connected
      moves := fun _ => hmoves
      loses := Nat.le_of_eq (congrArg List.length hmoves)
      recorded := hrecorded
      receiver := rfl
      claims := rfl
      work := by
        simp only [work, Channel.items_of_send hsse, List.length_append, List.length_cons,
          List.length_nil]
        omega }

theorem outer_of_receive {event : ExecutionEvent}
    {sink : Channel channelCapacity ExecutionEvent} (h : relay.Accounted decode run stores)
    (hforward : relay.forward = .receiving) (hitems : relay.sink.items = event :: sink.items) :
    Outer decode run stores relay
      { relay with
        sink := sink
        collected := (relay.collected.take decode event).1
        forward := if relay.connected = true then
          .sending (relay.collected.take decode event).2 else .receiving } := by
  have hrest : relay.rest run = event :: { relay with sink := sink }.rest run := by
    rw [rest, hitems]
    rfl
  have hkept : (relay.collected.take decode event).1.takeAll decode
      ({ relay with sink := sink }.rest run) = run.kept decode := by
    rw [← h.kept, hrest]
    rfl
  have hahead : relay.ahead decode run = withoutData event ::
      (({ relay with sink := sink }.rest run).map withoutData ++ run.closing decode) := by
    simp only [ahead, hforward, hrest, List.map_cons, List.cons_append]
  by_cases hconnected : relay.connected = true
  · rw [if_pos hconnected, take_snd]
    have hmoves : ∀ collected, { relay with
        sink := sink, collected := collected,
        forward := .sending (withoutData event) }.onTheWay decode run =
          relay.onTheWay decode run := by
      intro collected
      rw [onTheWay, onTheWay, hahead]
      rfl
    exact {
      wired := h.wired.of_same rfl rfl rfl
      closed := fun hover => by cases hover
      kept := hkept
      connected := h.connected
      moves := fun _ => hmoves _
      loses := Nat.le_of_eq (congrArg List.length (hmoves _))
      recorded := by rw [h.recorded, hforward]; rfl
      receiver := rfl
      claims := rfl
      work := by
        simp only [work, hforward, hitems, ForwardPhase.work, List.length_cons]
        omega }
  · rw [if_neg hconnected]
    have hgone : relay.receiver = .gone := by
      by_contra hthere
      exact hconnected (h.connected hthere)
    exact {
      wired := h.wired.of_same rfl rfl rfl
      closed := fun hover => by cases hover
      kept := hkept
      connected := h.connected
      moves := fun hthere => absurd hgone hthere
      loses := by
        rw [onTheWay, onTheWay, hahead, List.length_append, List.length_append, List.length_cons]
        exact Nat.add_le_add_left (Nat.le_succ _) _
      recorded := by rw [h.recorded, hforward]
      receiver := rfl
      claims := rfl
      work := by
        simp only [work, hforward, hitems, ForwardPhase.work, List.length_cons]
        omega }

theorem outer_of_forwardStep (h : relay.Accounted decode run stores)
    (hstep : relay.forwardStep decode run stores = some relay') :
    Outer decode run stores relay relay' := by
  cases hforward : relay.forward with
  | receiving =>
    simp only [forwardStep, hforward] at hstep
    cases hreceive : relay.sink.receive with
    | some next =>
      have ⟨event, sink⟩ := next
      rw [hreceive] at hstep
      cases hstep
      exact outer_of_receive h hforward (Channel.items_of_receive hreceive)
    | none =>
      have hempty := Channel.receive_eq_none_iff.mp hreceive
      rw [hreceive] at hstep
      simp only [Option.ite_none_right_eq_some, Option.some.injEq] at hstep
      have ⟨hclosed, heq⟩ := hstep
      subst heq
      have hrest := rest_of_closed h.wired hclosed hempty run
      have hkept : relay.collected = run.kept decode := by
        rw [← h.kept, hrest]
        rfl
      have hahead : relay.ahead decode run = run.closing decode := by
        simp only [ahead, hforward, hrest, List.map_nil, List.nil_append]
      by_cases hwarns : relay.collected.truncated = true ∧ relay.connected = true
      · rw [if_pos hwarns]
        have hclosing : run.closing decode = truncationWarning :: run.result.report := by
          rw [EngineRun.closing, ← hkept, if_pos hwarns.1]
          rfl
        apply outer_of_phase h ⟨hclosed, hempty⟩
        · intro _
          rw [hahead, hclosing]
          rfl
        · rw [hahead, hclosing]
          exact Nat.le_refl _
        · rw [h.recorded, hforward]
          rfl
        · rw [hforward]
          exact Nat.lt_succ_self 9
      · rw [if_neg hwarns]
        -- a truncated response is not announced to a receiver that is gone
        apply outer_of_phase h ⟨hclosed, hempty⟩
        · intro hthere
          have hwhole : ¬ (run.kept decode).truncated = true := fun htruncated =>
            hwarns ⟨hkept ▸ htruncated, h.connected hthere⟩
          rw [hahead, EngineRun.closing, if_neg hwhole]
          rfl
        · rw [hahead, EngineRun.closing, List.length_append]
          exact Nat.le_add_left _ _
        · rw [h.recorded, hforward]
          rfl
        · rw [hforward]
          exact Nat.lt_of_sub_pos (by decide)
  | sending event =>
    simp only [forwardStep, hforward] at hstep
    apply outer_of_sendSse h hstep
    · simp only [ahead, hforward]
      rfl
    · exact fun hover => by cases hover
    · rw [hforward]
      rintro ⟨⟩
    · rintro ⟨⟩
    · rw [hforward]
      exact Nat.lt_succ_self 11
  | warning =>
    simp only [forwardStep, hforward] at hstep
    have hover := h.closed (by rw [hforward, ForwardPhase.isOver])
    apply outer_of_sendSse h hstep
    · simp only [ahead, hforward]
    · exact fun _ => hover
    · rw [hforward]
      rintro ⟨⟩
    · rintro ⟨⟩
    · rw [hforward]
      exact Nat.lt_succ_self 8
  | joining =>
    simp only [forwardStep, hforward, Option.ite_none_right_eq_some, Option.some.injEq] at hstep
    have hover := h.closed (by rw [hforward, ForwardPhase.isOver])
    have ⟨_, heq⟩ := hstep
    subst heq
    have hreport : run.result.report.length ≤ 2 := by
      cases run.result with
      | panicked _ => exact Nat.le_refl _
      | returned _ | failed _ => exact Nat.zero_le _
    apply outer_of_phase h hover
    · intro _
      simp only [ahead, hforward]
    · simp only [ahead, hforward]
      exact Nat.le_refl _
    · rw [h.recorded, hforward]
      rfl
    · simp only [hforward, ForwardPhase.work]
      omega
  | reporting left =>
    have hover := h.closed (by rw [hforward, ForwardPhase.isOver])
    cases left with
    | nil =>
      simp only [forwardStep, hforward] at hstep
      cases hstep
      apply outer_of_phase h hover
      · intro _
        simp only [ahead, hforward]
      · simp only [ahead, hforward]
        exact Nat.le_refl _
      · rw [h.recorded, hforward]
        rfl
      · rw [hforward]
        exact Nat.lt_succ_self 1
    | cons event left =>
      simp only [forwardStep, hforward] at hstep
      apply outer_of_sendSse h hstep
      · simp only [ahead, hforward]
      · exact fun _ => hover
      · rw [hforward]
        rintro ⟨⟩
      · rintro ⟨⟩
      · simp only [hforward, ForwardPhase.work, List.length_cons]
        omega
  | persisting =>
    simp only [forwardStep, hforward] at hstep
    have hover := h.closed (by rw [hforward, ForwardPhase.isOver])
    cases hstep
    apply outer_of_phase h hover
    · intro _
      simp only [ahead, hforward]
    · simp only [ahead, hforward]
      exact Nat.le_refl _
    · rfl
    · rw [hforward]
      exact Nat.lt_succ_self 0
  | finished =>
    simp only [forwardStep, hforward] at hstep
    cases hstep

/-! ## The steps of the client -/

/-- A client that reads takes an event or comes to the end of the stream. -/
theorem receiveStep_cases (h : relay.receiveStep = some relay') :
    relay.receiver = .reading ∧
      ((∃ event sse, relay.sse.items = event :: sse.items ∧ relay' = { relay with sse := sse }) ∨
        (relay.sse.items = [] ∧ relay.sseClosed = true ∧
          relay' = { relay with receiver := .gone })) := by
  simp only [receiveStep, Option.ite_none_right_eq_some] at h
  have ⟨hreading, hrest⟩ := h
  cases hreceive : relay.sse.receive with
  | some next =>
    have ⟨event, sse⟩ := next
    rw [hreceive] at hrest
    cases hrest
    exact ⟨hreading, Or.inl ⟨event, sse, Channel.items_of_receive hreceive, rfl⟩⟩
  | none =>
    rw [hreceive] at hrest
    simp only [Option.ite_none_right_eq_some, Option.some.injEq] at hrest
    exact ⟨hreading,
      Or.inr ⟨Channel.receive_eq_none_iff.mp hreceive, hrest.1, hrest.2.symm⟩⟩

/-- What a client does takes nothing from the accounts but events that it has read or
that are lost to it. -/
theorem accounted_of_client {receiver : ReceiverPhase} {claims : Nat}
    {sse : Channel channelCapacity ExecutionEvent} (h : relay.Accounted decode run stores)
    (hgone : relay.receiver ≠ .gone) (hsse : sse.items.length ≤ relay.sse.items.length)
    (hwaits : receiver = .waiting → relay.receiver = .starting ∧ sse = relay.sse)
    (hstarts : receiver ≠ .starting) (hclaims : claims ≤ 1)
    (hunclaimed : receiver = .waiting → claims = relay.claims) :
    ({ relay with receiver := receiver, claims := claims, sse := sse }
      : Relay).Accounted decode run stores where
  wired := h.wired.of_same rfl rfl rfl
  closed := h.closed
  kept := h.kept
  connected _ := h.connected hgone
  bound := by
    apply Nat.le_trans _ h.bound
    rw [onTheWay, onTheWay, List.length_append, List.length_append]
    exact Nat.add_le_add_right hsse _
  awaited hawaited := by
    have hwaiting := hawaited.resolve_left hstarts
    have ⟨hstarting, heq⟩ := hwaits hwaiting
    rw [heq]
    exact h.awaited (Or.inl hstarting)
  recorded := h.recorded
  unclaimed hawaited := by
    have hwaiting := hawaited.resolve_left hstarts
    exact (hunclaimed hwaiting).trans (h.unclaimed (Or.inl (hwaits hwaiting).1))
  claims := hclaims

end Relay

theorem accounted_step {action : RelayAction} (h : relay.Accounted decode run stores)
    (hstep : relayStep decode run stores action relay = some relay') :
    relay'.Accounted decode run stores := by
  cases action with
  | task task =>
    cases task with
    | engine => exact Relay.accounted_of_inner h (Relay.inner_of_engineStep h.wired hstep)
    | tee => exact Relay.accounted_of_inner h (Relay.inner_of_teeStep h.wired hstep)
    | forward => exact Relay.accounted_of_outer h (Relay.outer_of_forwardStep h hstep)
  | insert =>
    simp only [relayStep, Option.ite_none_right_eq_some, Option.some.injEq] at hstep
    have ⟨hstarting, heq⟩ := hstep
    subst heq
    apply Relay.accounted_of_client h (by rw [hstarting]; rintro ⟨⟩) (Nat.le_refl _)
    · exact fun _ => ⟨hstarting, rfl⟩
    · rintro ⟨⟩
    · exact h.claims
    · exact fun _ => rfl
  | abandon =>
    simp only [relayStep, Option.ite_none_right_eq_some, Option.some.injEq] at hstep
    have ⟨hstarting, heq⟩ := hstep
    subst heq
    apply Relay.accounted_of_client h (by rw [hstarting]; rintro ⟨⟩) (Nat.zero_le _)
    · rintro ⟨⟩
    · rintro ⟨⟩
    · exact h.claims
    · rintro ⟨⟩
  | openStream =>
    simp only [relayStep, Option.ite_none_right_eq_some, Option.some.injEq] at hstep
    have ⟨hwaiting, heq⟩ := hstep
    subst heq
    apply Relay.accounted_of_client h (by rw [hwaiting]; rintro ⟨⟩) (Nat.le_refl _)
    · rintro ⟨⟩
    · rintro ⟨⟩
    · rw [h.unclaimed (Or.inr hwaiting)]
    · rintro ⟨⟩
  | receive =>
    have ⟨hreading, hcases⟩ := Relay.receiveStep_cases hstep
    have hthere : relay.receiver ≠ .gone := by
      rw [hreading]
      rintro ⟨⟩
    rcases hcases with ⟨event, sse, hitems, heq⟩ | ⟨_, _, heq⟩
    · subst heq
      apply Relay.accounted_of_client h hthere
      · rw [hitems, List.length_cons]
        exact Nat.le_succ _
      · exact fun hwaiting => absurd (hreading.symm.trans hwaiting) (by rintro ⟨⟩)
      · exact fun hstarting => absurd (hreading.symm.trans hstarting) (by rintro ⟨⟩)
      · exact h.claims
      · exact fun _ => rfl
    · subst heq
      apply Relay.accounted_of_client h hthere (Nat.le_refl _)
      · rintro ⟨⟩
      · rintro ⟨⟩
      · exact h.claims
      · rintro ⟨⟩
  | disconnect =>
    simp only [relayStep, Option.ite_none_right_eq_some, Option.some.injEq] at hstep
    have ⟨hreading, heq⟩ := hstep
    subst heq
    apply Relay.accounted_of_client h (by rw [hreading]; rintro ⟨⟩) (Nat.zero_le _)
    · rintro ⟨⟩
    · rintro ⟨⟩
    · exact h.claims
    · rintro ⟨⟩

variable {task : RelayTask}

/-- A task does nothing to the receiver. -/
theorem receiver_of_task (h : relay.Accounted decode run stores)
    (hstep : relayStep decode run stores (.task task) relay = some relay') :
    relay'.receiver = relay.receiver := by
  cases task with
  | engine => exact (Relay.inner_of_engineStep h.wired hstep).same.receiver
  | tee =>
    have hinner : Relay.Inner run relay relay' := Relay.inner_of_teeStep h.wired hstep
    exact hinner.same.receiver
  | forward => exact (Relay.outer_of_forwardStep h hstep).receiver

/-- The tasks lose nothing that is on its way to a receiver that is there. -/
theorem onTheWay_of_task (h : relay.Accounted decode run stores) (hthere : relay.receiver ≠ .gone)
    (hstep : relayStep decode run stores (.task task) relay = some relay') :
    relay'.onTheWay decode run = relay.onTheWay decode run := by
  cases task with
  | engine => exact Relay.onTheWay_of_inner (Relay.inner_of_engineStep h.wired hstep)
  | tee => exact Relay.onTheWay_of_inner (Relay.inner_of_teeStep h.wired hstep)
  | forward => exact (Relay.outer_of_forwardStep h hstep).moves hthere

theorem accounted_of_follows
    (h : Follows (relayStep decode run stores) (fun _ _ => True) (Relay.new run) relay) :
    relay.Accounted decode run stores := by
  apply h.invariant Relay.accounted_new
  intro before action after hbefore _ hstep
  exact accounted_step hbefore hstep

end Runs

end ApiVoy.Hosts
