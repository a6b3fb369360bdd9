/-
# Tickets for TCP sessions

A client asks the local agent for a ticket to one target and redeems it on the
WebSocket that relays to this target. Tickets live in a map behind a lock. Every
handler reads the clock when its request arrives and then waits for the lock;
under it the handler drops the tickets that had expired at its reading, and adds
or takes out one. Ticket ids are drawn at random: requests draw different ones.
-/

import ApiVoy.Foundation.Table
import ApiVoy.Foundation.Tasks
import ApiVoy.Foundation.Text
import ApiVoy.Foundation.Utf8

namespace ApiVoy.Hosts

open Foundation

def protocolApiVersion : String := "1"

def tcpSessionTicketPrefix : String := "apivoy-ticket."

def tcpSessionTicketLifetimeSeconds : Nat := 30

def maxPendingTcpSessionTickets : Nat := 256

/-- Instants count nanoseconds. -/
abbrev Instant := Nat

def nanosPerSecond : Nat := 1000000000

structure TcpSessionTicket where
  ticket : String
  target : String
  expiresAt : Instant
  deriving DecidableEq

instance : Keyed TcpSessionTicket := ⟨TcpSessionTicket.ticket⟩

/-- A request, with the headers its handler reads; a header value that is no text is
`some none`. -/
inductive TcpRequest where
  | createTcpSessionTicket (protocolVersion : Option (Option String)) (target : String)
  | tcpSession (origin protocols : Option (Option String))
  deriving DecidableEq

/-- The status and the message of a refusal, if the version is not the agent's. -/
def checkProtocolVersion : Option (Option String) → Option (Nat × String)
  | none => none
  | some none => some (400, "invalid X-ApiVoy-Protocol-Api-Version header")
  | some (some version) =>
    if version ≠ protocolApiVersion then
      some (426, "protocol API version mismatch: client=" ++ version ++ ", agent=" ++
        protocolApiVersion ++ "; upgrade required")
    else none

/-- The first ticket among the protocols a WebSocket offers. -/
def tcpSessionTicketFromHeaders (protocols : Option (Option String)) : Option String :=
  (protocols.join.bind fun value =>
    ((value.toList.splitOn ',').findSome? fun protocol =>
      (trimChars protocol).dropPrefix? tcpSessionTicketPrefix.toList).map String.ofList).filter
    fun ticket => ticket ≠ ""

/-! ## Steps -/

/-- A session that is being opened: the ticket, the target it opens, the reading of the
clock its request took and the time at which the ticket was taken out. -/
structure Redemption where
  ticket : String
  target : String
  readAt : Instant
  takenAt : Instant
  deriving DecidableEq

inductive TcpPhase where
  | idle
  /-- Waiting for the lock to add a ticket. -/
  | creating (ticket target : String) (now : Instant)
  /-- Waiting for the lock to take a ticket out. -/
  | redeeming (ticket : String) (now : Instant)
  | refused (status : Nat) (message : String)
  | issued (entry : TcpSessionTicket)
  | relaying (redemption : Redemption)
  /-- The client went away while the handler was waiting. -/
  | dropped
  deriving DecidableEq

/-- The map of tickets and the clock. -/
structure TicketDesk where
  clock : Instant
  tickets : Table TcpSessionTicket
  deriving DecidableEq

/-- Drop what had expired at a reading of the clock. -/
def retain (now : Instant) (tickets : Table TcpSessionTicket) : Table TcpSessionTicket :=
  tickets.filter fun entry => now < entry.expiresAt

inductive TcpMove where
  | arrive (request : TcpRequest)
  | lock
  | drop
  deriving DecidableEq

/-- A handler's way to the lock; `uuid` is the ticket id its request draws. -/
def TcpRequest.arrive (allowedOrigins : List String) (uuid : String) (now : Instant) :
    TcpRequest → TcpPhase
  | .createTcpSessionTicket protocolVersion target =>
    match checkProtocolVersion protocolVersion with
    | some (status, message) => .refused status message
    | none =>
      let target := trim target
      if target = "" ∨ 2048 < (utf8 target).length ∨ '\r' ∈ target.toList ∨
          '\n' ∈ target.toList then
        .refused 400 "invalid TCP target"
      else .creating uuid target now
  | .tcpSession origin protocols =>
    if origin.join.any fun origin => origin ∉ allowedOrigins then
      .refused 403 "untrusted WebSocket origin"
    else
      match tcpSessionTicketFromHeaders protocols with
      | none => .refused 401 "missing TCP session ticket"
      | some ticket => .redeeming ticket now

/-- What a handler does under the lock, with the time at which it has it. -/
def TcpPhase.underLock (clock : Instant) (tickets : Table TcpSessionTicket) :
    TcpPhase → Option (Table TcpSessionTicket × TcpPhase)
  | .creating ticket target now =>
    let tickets := retain now tickets
    if maxPendingTcpSessionTickets ≤ tickets.rows.length then
      some (tickets, .refused 429 "too many pending TCP session tickets")
    else
      let entry : TcpSessionTicket := {
        ticket, target
        expiresAt := now + tcpSessionTicketLifetimeSeconds * nanosPerSecond }
      some (tickets.put entry, .issued entry)
  | .redeeming ticket now =>
    let tickets := retain now tickets
    match tickets.find? ticket with
    | none => some (tickets, .refused 401 "invalid or expired TCP session ticket")
    | some entry =>
      some (tickets.filter fun other => other.ticket ≠ ticket,
        .relaying ⟨ticket, entry.target, now, clock⟩)
  | _ => none

/-- How a handler goes on. -/
def TcpMove.advance (allowedOrigins : List String) (uuid : String) :
    TcpMove → TicketDesk → TcpPhase → Option (TicketDesk × TcpPhase)
  | .arrive request, desk, .idle =>
    some (desk, request.arrive allowedOrigins uuid desk.clock)
  | .lock, desk, phase =>
    (phase.underLock desk.clock desk.tickets).map fun next =>
      ({ desk with tickets := next.1 }, next.2)
  | .drop, desk, .creating _ _ _ | .drop, desk, .redeeming _ _ => some (desk, .dropped)
  | _, _, _ => none

/-- The agent: its tickets and a handler for each request. -/
abbrev TicketAgent := Tasks Nat TicketDesk TcpPhase

inductive TicketAction where
  | handler (request : Nat) (move : TcpMove)
  | passes (nanos : Nat)
  deriving DecidableEq

/-- `uuid` gives the ticket id that each request would draw. -/
def ticketStep (allowedOrigins : List String) (uuid : Nat → String) (action : TicketAction)
    (agent : TicketAgent) : Option TicketAgent :=
  match action with
  | .handler request move =>
    agent.step (fun i move => move.advance allowedOrigins (uuid i)) request move
  | .passes nanos =>
    some ⟨{ agent.shared with clock := agent.shared.clock + nanos }, agent.phase⟩

/-- No ticket has been issued yet. -/
def TicketAgent.opened (clock : Instant) : TicketAgent := Tasks.start ⟨clock, ∅⟩ .idle

/-! ## Tables of tickets -/

variable {tickets : Table TcpSessionTicket} {entry other : TcpSessionTicket} {k : String}
  {now : Instant}

theorem mem_retain : entry ∈ (retain now tickets).rows ↔
    entry ∈ tickets.rows ∧ now < entry.expiresAt := by
  rw [retain, Table.mem_filter, decide_eq_true_iff]

theorem length_retain_le : (retain now tickets).rows.length ≤ tickets.rows.length :=
  List.length_filter_le _ _

/-! ## Single use -/

/-- What holds of the agent at all times: every pending ticket was issued by the
handler that drew its id, every session is relayed on a ticket that was issued for its
target and had not expired, and no ticket is used again. -/
structure Ticketed (uuid : Nat → String) (agent : TicketAgent) : Prop where
  few : agent.shared.tickets.rows.length ≤ maxPendingTcpSessionTickets
  drawn : ∀ i ticket target now, agent.phase i = .creating ticket target now → ticket = uuid i
  own : ∀ i entry, agent.phase i = .issued entry → entry.ticket = uuid i
  pending : ∀ entry ∈ agent.shared.tickets.rows, ∃ i, agent.phase i = .issued entry
  opened : ∀ i redemption, agent.phase i = .relaying redemption →
    ∃ j entry, agent.phase j = .issued entry ∧ entry.ticket = redemption.ticket ∧
      entry.target = redemption.target ∧ redemption.readAt < entry.expiresAt
  spent : ∀ i redemption, agent.phase i = .relaying redemption →
    agent.shared.tickets.find? redemption.ticket = none
  once : ∀ i j redemption redemption', agent.phase i = .relaying redemption →
    agent.phase j = .relaying redemption' → redemption.ticket = redemption'.ticket → i = j

variable {uuid : Nat → String} {agent agent' : TicketAgent} {allowedOrigins : List String}
  {i : Nat} {next : TcpPhase}

/-- A handler that has answered does not go on. -/
def TcpPhase.isOpen : TcpPhase → Bool
  | .idle | .creating .. | .redeeming .. => true
  | .refused .. | .issued _ | .relaying _ | .dropped => false

def TcpPhase.relays : TcpPhase → Bool
  | .relaying _ => true
  | _ => false

variable {desk : TicketDesk}

theorem phase_of_issued (hopen : (agent.phase i).isOpen = true) {j : Nat}
    (h : agent.phase j = .issued entry) : (agent.move i (desk, next)).phase j = .issued entry := by
  apply Tasks.phase_move_of_phase h
  intro heq
  rw [heq] at hopen
  cases hopen

theorem phase_of_relaying {j : Nat} {redemption : Redemption} (hnext : next.relays = false)
    (h : (agent.move i (desk, next)).phase j = .relaying redemption) :
    agent.phase j = .relaying redemption := by
  rcases Tasks.phase_move_cases h with ⟨-, hnow⟩ | ⟨-, hbefore⟩
  · rw [show next = .relaying redemption from hnow] at hnext
    cases hnext
  · exact hbefore

namespace Ticketed

/-- Time passes, and tickets are dropped. -/
theorem outside (h : Ticketed uuid agent) {desk : TicketDesk}
    (hlength : desk.tickets.rows.length ≤ agent.shared.tickets.rows.length)
    (hrows : ∀ entry ∈ desk.tickets.rows, entry ∈ agent.shared.tickets.rows) :
    Ticketed uuid ⟨desk, agent.phase⟩ where
  few := Nat.le_trans hlength h.few
  drawn := h.drawn
  own := h.own
  pending entry hentry := h.pending entry (hrows entry hentry)
  opened := h.opened
  spent j redemption hj := by
    rw [Table.find?_eq_none_iff]
    intro entry hentry
    exact Table.find?_eq_none_iff.mp (h.spent j redemption hj) entry (hrows entry hentry)
  once := h.once

theorem retained (h : Ticketed uuid agent) (now : Instant) :
    Ticketed uuid ⟨{ agent.shared with tickets := retain now agent.shared.tickets }, agent.phase⟩ :=
  h.outside length_retain_le fun _ hentry => (mem_retain.mp hentry).1

/-- A handler goes on without a ticket. -/
theorem grantsNothing (h : Ticketed uuid agent) (hopen : (agent.phase i).isOpen = true)
    (hnext : next.relays = false) (hissued : ∀ entry, next ≠ .issued entry)
    (hdrawn : ∀ ticket target now, next = .creating ticket target now → ticket = uuid i) :
    Ticketed uuid (agent.move i (agent.shared, next)) where
  few := h.few
  drawn j ticket target now hj := by
    rcases Tasks.phase_move_cases hj with ⟨heq, hnow⟩ | ⟨-, hbefore⟩
    · rw [heq]
      exact hdrawn ticket target now hnow
    · exact h.drawn j ticket target now hbefore
  own j entry hj := by
    rcases Tasks.phase_move_cases hj with ⟨-, hnow⟩ | ⟨-, hbefore⟩
    · exact absurd hnow (hissued entry)
    · exact h.own j entry hbefore
  pending entry hentry := by
    have ⟨j, hj⟩ := h.pending entry hentry
    exact ⟨j, phase_of_issued hopen hj⟩
  opened j redemption hj := by
    have hbefore := phase_of_relaying hnext hj
    have ⟨issuer, entry, hissued, hrest⟩ := h.opened j redemption hbefore
    exact ⟨issuer, entry, phase_of_issued hopen hissued, hrest⟩
  spent j redemption hj := h.spent j redemption (phase_of_relaying hnext hj)
  once j k redemption redemption' hj hk :=
    h.once j k redemption redemption' (phase_of_relaying hnext hj) (phase_of_relaying hnext hk)

/-- A handler adds the ticket it has drawn. -/
theorem issues (hfresh : Function.Injective uuid) (h : Ticketed uuid agent) {target : String}
    {now expiresAt : Instant} (hi : agent.phase i = .creating k target now)
    (hfew : agent.shared.tickets.rows.length < maxPendingTcpSessionTickets) :
    Ticketed uuid (agent.move i ({ agent.shared with
      tickets := agent.shared.tickets.put ⟨k, target, expiresAt⟩ },
        .issued ⟨k, target, expiresAt⟩)) where
  few := Nat.le_trans (Table.length_put_le _ _) hfew
  drawn j ticket target now hj := by
    rcases Tasks.phase_move_cases hj with ⟨-, hnow⟩ | ⟨-, hbefore⟩
    · cases hnow
    · exact h.drawn j ticket target now hbefore
  own j entry hj := by
    rcases Tasks.phase_move_cases hj with ⟨heq, hnow⟩ | ⟨-, hbefore⟩
    · cases hnow
      rw [heq]
      exact h.drawn i k target now hi
    · exact h.own j entry hbefore
  pending entry hentry := by
    rcases Table.mem_put hentry with heq | hold
    · subst heq
      exact ⟨i, Tasks.phase_move_self⟩
    · have ⟨j, hj⟩ := h.pending entry hold
      exact ⟨j, phase_of_issued (by rw [hi]; rfl) hj⟩
  opened j redemption hj := by
    have hbefore := phase_of_relaying rfl hj
    have ⟨issuer, entry, hissued, hrest⟩ := h.opened j redemption hbefore
    exact ⟨issuer, entry, phase_of_issued (by rw [hi]; rfl) hissued, hrest⟩
  spent j redemption hj := by
    have hbefore := phase_of_relaying rfl hj
    have ⟨issuer, entry, hissued, hticket, _⟩ := h.opened j redemption hbefore
    -- the handler that issued the used ticket has answered
    have hother : k ≠ redemption.ticket := by
      intro hsame
      have hdrawn : uuid issuer = uuid i := by
        rw [← h.own issuer entry hissued, hticket, ← hsame, h.drawn i k target now hi]
      have heq : issuer = i := hfresh hdrawn
      rw [heq, hi] at hissued
      cases hissued
    show (agent.shared.tickets.put ⟨k, target, expiresAt⟩).find? redemption.ticket = none
    have hkey : Keyed.key (⟨k, target, expiresAt⟩ : TcpSessionTicket) ≠ redemption.ticket := hother
    rw [Table.find?_put, if_neg hkey]
    exact h.spent j redemption hbefore
  once j k redemption redemption' hj hk :=
    h.once j k redemption redemption' (phase_of_relaying rfl hj) (phase_of_relaying rfl hk)

/-- A handler takes out the ticket it was given. -/
theorem redeems (h : Ticketed uuid agent) {now clock : Instant}
    (hi : agent.phase i = .redeeming k now) (hfound : agent.shared.tickets.find? k = some entry)
    (hexpires : now < entry.expiresAt) :
    Ticketed uuid (agent.move i ({ agent.shared with
      tickets := agent.shared.tickets.filter fun other => other.ticket ≠ k },
        .relaying ⟨k, entry.target, now, clock⟩)) := by
  have hopen : (agent.phase i).isOpen = true := by rw [hi]; rfl
  have hkey : entry.ticket = k := Table.key_of_find? hfound
  have hsub : ∀ other ∈ (agent.shared.tickets.filter fun other => other.ticket ≠ k).rows,
      other ∈ agent.shared.tickets.rows := fun other hother => (Table.mem_filter.mp hother).1
  exact {
    few := Nat.le_trans (List.length_filter_le _ _) h.few
    drawn := by
      intro j ticket target now hj
      rcases Tasks.phase_move_cases hj with ⟨-, hnow⟩ | ⟨-, hbefore⟩
      · cases hnow
      · exact h.drawn j ticket target now hbefore
    own := by
      intro j entry hj
      rcases Tasks.phase_move_cases hj with ⟨-, hnow⟩ | ⟨-, hbefore⟩
      · cases hnow
      · exact h.own j entry hbefore
    pending := by
      intro other hother
      have ⟨j, hj⟩ := h.pending other (hsub other hother)
      exact ⟨j, phase_of_issued hopen hj⟩
    opened := by
      intro j redemption hj
      rcases Tasks.phase_move_cases hj with ⟨-, hnow⟩ | ⟨-, hbefore⟩
      · cases hnow
        have ⟨issuer, hissued⟩ := h.pending entry (Table.mem_of_find? hfound)
        exact ⟨issuer, entry, phase_of_issued hopen hissued, hkey, rfl, hexpires⟩
      · have ⟨issuer, other, hissued, hrest⟩ := h.opened j redemption hbefore
        exact ⟨issuer, other, phase_of_issued hopen hissued, hrest⟩
    spent := by
      intro j redemption hj
      rw [Table.find?_eq_none_iff]
      intro other hother hsame
      rcases Tasks.phase_move_cases hj with ⟨-, hnow⟩ | ⟨-, hbefore⟩
      · cases hnow
        have hne := (Table.mem_filter.mp hother).2
        rw [decide_eq_true_iff] at hne
        exact hne hsame
      · exact Table.find?_eq_none_iff.mp (h.spent j redemption hbefore) other
          (hsub other hother) hsame
    once := by
      -- a ticket that another handler has used is not found
      have hunused : ∀ j redemption, agent.phase j = .relaying redemption →
          redemption.ticket ≠ k := by
        intro j redemption hj hsame
        have hgone := h.spent j redemption hj
        rw [hsame, hfound] at hgone
        cases hgone
      intro j j' redemption redemption' hj hj' hsame
      rcases Tasks.phase_move_cases hj with ⟨heq, hnow⟩ | ⟨-, hbefore⟩
      · rcases Tasks.phase_move_cases hj' with ⟨heq', -⟩ | ⟨-, hbefore'⟩
        · rw [heq, heq']
        · cases hnow
          exact absurd hsame.symm (hunused j' redemption' hbefore')
      · rcases Tasks.phase_move_cases hj' with ⟨-, hnow'⟩ | ⟨-, hbefore'⟩
        · cases hnow'
          exact absurd hsame (hunused j redemption hbefore)
        · exact h.once j j' redemption redemption' hbefore hbefore' hsame }

theorem arrives (h : Ticketed uuid agent) (request : TcpRequest) (hi : agent.phase i = .idle) :
    Ticketed uuid (agent.move i
      (agent.shared, request.arrive allowedOrigins (uuid i) agent.shared.clock)) := by
  have hopen : (agent.phase i).isOpen = true := by rw [hi]; rfl
  cases request with
  | createTcpSessionTicket protocolVersion target =>
    rw [TcpRequest.arrive]
    cases checkProtocolVersion protocolVersion with
    | some refusal => exact h.grantsNothing hopen rfl (by simp) (by simp)
    | none =>
      dsimp only
      split
      · exact h.grantsNothing hopen rfl (by simp) (by simp)
      · exact h.grantsNothing hopen rfl (by simp) (by simp +contextual)
  | tcpSession origin protocols =>
    rw [TcpRequest.arrive]
    split
    · exact h.grantsNothing hopen rfl (by simp) (by simp)
    · cases tcpSessionTicketFromHeaders protocols with
      | none => exact h.grantsNothing hopen rfl (by simp) (by simp)
      | some ticket => exact h.grantsNothing hopen rfl (by simp) (by simp)

theorem locks (hfresh : Function.Injective uuid) (h : Ticketed uuid agent)
    {after : Table TcpSessionTicket × TcpPhase}
    (hlock : (agent.phase i).underLock agent.shared.clock agent.shared.tickets = some after) :
    Ticketed uuid (agent.move i ({ agent.shared with tickets := after.1 }, after.2)) := by
  cases hi : agent.phase i with
  | creating ticket target now =>
    have hkept := h.retained now
    have hopen : (agent.phase i).isOpen = true := by rw [hi]; rfl
    rw [hi, TcpPhase.underLock] at hlock
    dsimp only at hlock
    by_cases hmany : maxPendingTcpSessionTickets ≤ (retain now agent.shared.tickets).rows.length
    · rw [if_pos hmany] at hlock
      cases hlock
      exact hkept.grantsNothing hopen rfl (by simp) (by simp)
    · rw [if_neg hmany] at hlock
      cases hlock
      exact hkept.issues hfresh hi (Nat.lt_of_not_le hmany)
  | redeeming ticket now =>
    have hkept := h.retained now
    have hopen : (agent.phase i).isOpen = true := by rw [hi]; rfl
    rw [hi, TcpPhase.underLock] at hlock
    cases hfound : (retain now agent.shared.tickets).find? ticket with
    | none =>
      rw [hfound] at hlock
      cases hlock
      exact hkept.grantsNothing hopen rfl (by simp) (by simp)
    | some entry =>
      rw [hfound] at hlock
      cases hlock
      exact hkept.redeems hi hfound (mem_retain.mp (Table.mem_of_find? hfound)).2
  | idle | refused _ _ | issued _ | relaying _ | dropped =>
    rw [hi] at hlock
    cases hlock

end Ticketed

theorem advance_cases {uuid : String} {move : TcpMove} {phase : TcpPhase}
    {after : TicketDesk × TcpPhase} (h : move.advance allowedOrigins uuid desk phase = some after) :
    (∃ request, phase = .idle ∧
      after = (desk, TcpRequest.arrive allowedOrigins uuid desk.clock request)) ∨
    (∃ locked, phase.underLock desk.clock desk.tickets = some locked ∧
      after = ({ desk with tickets := locked.1 }, locked.2)) ∨
    (phase.isOpen = true ∧ after = (desk, .dropped)) := by
  cases move with
  | arrive request =>
    cases phase with
    | idle => exact Or.inl ⟨request, rfl, (Option.some.inj h).symm⟩
    | creating _ _ _ | redeeming _ _ | refused _ _ | issued _ | relaying _ | dropped => cases h
  | lock =>
    rw [TcpMove.advance, Option.map_eq_some_iff] at h
    have ⟨locked, hlocked, heq⟩ := h
    exact Or.inr (Or.inl ⟨locked, hlocked, heq.symm⟩)
  | drop =>
    cases phase with
    | creating _ _ _ | redeeming _ _ => exact Or.inr (Or.inr ⟨rfl, (Option.some.inj h).symm⟩)
    | idle | refused _ _ | issued _ | relaying _ | dropped => cases h

theorem ticketed_step (hfresh : Function.Injective uuid) (h : Ticketed uuid agent)
    (action : TicketAction) (hstep : ticketStep allowedOrigins uuid action agent = some agent') :
    Ticketed uuid agent' := by
  cases action with
  | passes nanos =>
    cases hstep
    exact h.outside (Nat.le_refl _) fun _ hentry => hentry
  | handler i move =>
    rw [ticketStep, Tasks.step_eq_some_iff] at hstep
    have ⟨after, hafter, heq⟩ := hstep
    subst heq
    rcases advance_cases hafter with ⟨request, hi, heq⟩ | ⟨locked, hlocked, heq⟩ | ⟨hopen, heq⟩
    · rw [heq]
      exact h.arrives request hi
    · rw [heq]
      exact h.locks hfresh hlocked
    · rw [heq]
      exact h.grantsNothing hopen rfl (by simp) (by simp)

theorem ticketed_of_follows (hfresh : Function.Injective uuid) {clock : Instant}
    (h : Follows (ticketStep allowedOrigins uuid) (fun _ _ => True) (TicketAgent.opened clock)
      agent) : Ticketed uuid agent := by
  apply h.invariant
  · exact {
      few := Nat.zero_le _
      drawn := by simp [TicketAgent.opened, Tasks.start]
      own := by simp [TicketAgent.opened, Tasks.start]
      pending := by simp [TicketAgent.opened, Tasks.start]
      opened := by simp [TicketAgent.opened, Tasks.start]
      spent := by simp [TicketAgent.opened, Tasks.start]
      once := by simp [TicketAgent.opened, Tasks.start] }
  · intro agent action agent' hbefore _ hstep
    exact ticketed_step hfresh hbefore action hstep

/-- A ticket that nobody has issued, or that has opened a session before, opens none. -/
theorem Ticketed.refuses (h : Ticketed uuid agent) (hi : agent.phase i = .redeeming k now)
    (hk : (∀ j entry, agent.phase j = .issued entry → entry.ticket ≠ k) ∨
      ∃ j redemption, agent.phase j = .relaying redemption ∧ redemption.ticket = k) :
    (agent.phase i).underLock agent.shared.clock agent.shared.tickets =
      some (retain now agent.shared.tickets,
        .refused 401 "invalid or expired TCP session ticket") := by
  have habsent : (retain now agent.shared.tickets).find? k = none := by
    rw [Table.find?_eq_none_iff]
    intro entry hentry hkey
    have hmem := (mem_retain.mp hentry).1
    rcases hk with hunknown | ⟨j, redemption, hj, hused⟩
    · have ⟨j, hj⟩ := h.pending entry hmem
      exact hunknown j entry hj hkey
    · have hspent := h.spent j redemption hj
      rw [hused] at hspent
      exact Table.find?_eq_none_iff.mp hspent entry hmem hkey
  rw [hi, TcpPhase.underLock, habsent]

/-- Whatever order requests come in and however time passes, no more than 256 tickets
are pending, and a ticket opens one session at most, to the target it was issued for
and for a request that arrived before it expired. -/
theorem ticket_opens_one_session (hfresh : Function.Injective uuid) {clock : Instant}
    (h : Follows (ticketStep allowedOrigins uuid) (fun _ _ => True) (TicketAgent.opened clock)
      agent) :
    agent.shared.tickets.rows.length ≤ maxPendingTcpSessionTickets ∧
      (∀ i redemption, agent.phase i = .relaying redemption →
        ∃ j entry, agent.phase j = .issued entry ∧ entry.ticket = redemption.ticket ∧
          entry.target = redemption.target ∧ redemption.readAt < entry.expiresAt) ∧
      (∀ i j redemption redemption', agent.phase i = .relaying redemption →
        agent.phase j = .relaying redemption' → redemption.ticket = redemption'.ticket → i = j) ∧
      (∀ i k now, agent.phase i = .redeeming k now →
        ((∀ j entry, agent.phase j = .issued entry → entry.ticket ≠ k) ∨
          ∃ j redemption, agent.phase j = .relaying redemption ∧ redemption.ticket = k) →
        (agent.phase i).underLock agent.shared.clock agent.shared.tickets =
          some (retain now agent.shared.tickets,
            .refused 401 "invalid or expired TCP session ticket")) := by
  have hkept := ticketed_of_follows hfresh h
  exact ⟨hkept.few, hkept.opened, hkept.once, fun _ _ _ hi hk => hkept.refuses hi hk⟩

/-- A different id for each request. -/
def countedUuid (request : Nat) : String := String.ofList (List.replicate (request + 1) 'a')

theorem countedUuid_injective : Function.Injective countedUuid := by
  intro i j h
  have hlists : List.replicate (i + 1) 'a' = List.replicate (j + 1) 'a' := by
    simpa [countedUuid] using congrArg String.toList h
  simpa using congrArg List.length hlists

/-- A ticket is issued; it expires while a request that would redeem it waits for the
lock, and is taken out afterwards. -/
def waitingAgent : Option TicketAgent :=
  perform (ticketStep [] countedUuid)
    [.handler 0 (.arrive (.createTcpSessionTicket none "localhost:6379")),
      .handler 0 .lock,
      .handler 1 (.arrive (.tcpSession none (some (some "apivoy, apivoy-ticket.a")))),
      .passes (31 * nanosPerSecond),
      .handler 1 .lock]
    (TicketAgent.opened 0)

theorem ticket_opens_one_session_after_wait :
    ∃ agent, waitingAgent = some agent ∧
      agent.shared.tickets.rows.length ≤ maxPendingTcpSessionTickets := by
  have hsome : waitingAgent.isSome = true := by decide +kernel
  have ⟨agent, hagent⟩ := Option.isSome_iff_exists.mp hsome
  exact ⟨agent, hagent,
    (ticket_opens_one_session countedUuid_injective (follows_of_perform hagent)).1⟩

/-- A session is opened with a ticket that has expired a second before. -/
theorem ticket_redeemed_after_expiry :
    ∃ agent, Follows (ticketStep [] countedUuid) (fun _ _ => True) (TicketAgent.opened 0) agent ∧
      ∃ i j redemption entry, agent.phase i = .relaying redemption ∧
        agent.phase j = .issued entry ∧ entry.ticket = redemption.ticket ∧
        entry.expiresAt < redemption.takenAt := by
  have hphases : waitingAgent.map (fun agent => (agent.phase 1, agent.phase 0)) =
      some (.relaying ⟨"a", "localhost:6379", 0, 31 * nanosPerSecond⟩,
        .issued ⟨"a", "localhost:6379", 30 * nanosPerSecond⟩) := by decide +kernel
  have ⟨agent, hagent, heq⟩ := Option.map_eq_some_iff.mp hphases
  have ⟨hrelaying, hissued⟩ := Prod.mk.inj heq
  exact ⟨agent, follows_of_perform hagent, 1, 0, _, _, hrelaying, hissued, rfl, by decide⟩

end ApiVoy.Hosts
