/-
# The attempts of an HTTP request

What comes of an attempt, the pause behind it included, decides whether there is another one. The
attempts that are made are therefore counted by the first outcome that does not call for another
one and by the policy of the request, they are all the same attempt, and the last one gives the
result.
-/

import ApiVoy.Drivers.Http

namespace ApiVoy.Drivers.Http

open Foundation Domain Engine

/-! ## Outcomes -/

/-- The request could not be sent, or was answered with a server error. -/
def Reply.isFailure : Reply → Bool
  | .answered response => isServerError response.status
  | .failed _ => true
  | .cancelled => false

/-- The response of an attempt, or the error that it ends with. -/
def Reply.result : Reply → Except DriverError WebResponse
  | .answered response => .ok response
  | .failed error => .error (mapReqwestError error)
  | .cancelled => .error .cancelled

/-- A cancellation is observed before the end of a body. -/
def isCutOff : List BodyItem → Bool
  | [] => false
  | .chunk _ :: items => isCutOff items
  | .failed _ :: _ => false
  | .cancelled :: _ => true

/-- A cancellation is observed while the driver waits for an answer or receives it. -/
def Reply.isCancelled : Reply → Bool
  | .answered response => isCutOff response.items
  | .failed _ => false
  | .cancelled => true

namespace Server

variable (policy : RetryPolicy) (server : Server)

/-- Is a cancellation observed in the pause behind an attempt? The last attempt that the policy
allows has no pause behind it. -/
def breaksOff (i : Nat) : Bool :=
  (server.replies i).isFailure && decide (i < policy.maxRetries.toNat) &&
    decide (0 < policy.backoffMs.toNat) && server.pauses i

/-- What comes of an attempt and of the pause behind it. -/
def outcome (i : Nat) : Reply :=
  if server.breaksOff policy i = true then .cancelled else server.replies i

/-- Does what comes of an attempt call for another one? -/
def repeats (i : Nat) : Bool := (server.outcome policy i).isFailure

variable {policy server}

variable {i : Nat}

theorem outcome_of_breaksOff (h : server.breaksOff policy i = true) :
    server.outcome policy i = .cancelled := if_pos h

theorem outcome_of_not_breaksOff (h : server.breaksOff policy i = false) :
    server.outcome policy i = server.replies i := if_neg (by rw [h]; exact Bool.false_ne_true)

theorem breaksOff_of_le (h : policy.maxRetries.toNat ≤ i) : server.breaksOff policy i = false := by
  rw [breaksOff, decide_eq_false (Nat.not_lt.mpr h)]
  simp

theorem breaksOff_of_not_failure (h : (server.replies i).isFailure = false) :
    server.breaksOff policy i = false := by
  rw [breaksOff, h]
  rfl

theorem breaksOff_of_failure (h : (server.replies i).isFailure = true)
    (hlt : i < policy.maxRetries.toNat) :
    server.breaksOff policy i = (decide (0 < policy.backoffMs.toNat) && server.pauses i) := by
  rw [breaksOff, h, decide_eq_true hlt]
  rfl

def after (server : Server) (attempt : HttpAttempt) (n : Nat) : Server :=
  { server with attempts := server.attempts ++ List.replicate n attempt }

theorem after_after (server : Server) (attempt : HttpAttempt) (m n : Nat) :
    (server.after attempt m).after attempt n = server.after attempt (m + n) := by
  simp only [after, List.append_assoc, List.replicate_append_replicate]

end Server

def isRetryWarning : ExecutionEvent → Bool
  | .warning code _ => code == "http_retry"
  | _ => false

/-- How often the driver has announced another attempt. -/
def retryWarnings (session : Session Server) : Nat := session.events.countP isRetryWarning

@[simp]
theorem isRetryWarning_retryWarning (cause : String) (attempt : Nat) :
    isRetryWarning (retryWarning cause attempt) = true := rfl

/-! ## One attempt -/

section Steps

variable (policy : RetryPolicy) (attempt : HttpAttempt)

theorem run_tryOnce (server : Server) (events : List ExecutionEvent) :
    (tryOnce (.ok attempt)).run ⟨server, events⟩ =
      (.ok (server.replies server.attempts.length), ⟨server.after attempt 1, events⟩) := rfl

variable {server : Server}

/-- An attempt that does not fail is the last one. -/
theorem run_attemptLoop_of_last {left : Nat} (events : List ExecutionEvent)
    (h : left = 0 ∨ (server.replies server.attempts.length).isFailure = false) :
    ∃ events', (attemptLoop policy (.ok attempt) left).run ⟨server, events⟩ =
        ((server.replies server.attempts.length).result,
          ⟨server.after attempt 1, events ++ events'⟩) ∧
      events'.countP isRetryWarning = 0 := by
  have hfirst := run_tryOnce attempt server events
  cases hreply : server.replies server.attempts.length with
  | cancelled =>
    rw [hreply] at hfirst
    refine ⟨[.cancelled (some "user cancelled")], ?_, rfl⟩
    cases left with
    | zero => exact Fallible.run_bind_of_ok hfirst
    | succ left => exact Fallible.run_bind_of_ok hfirst
  | answered response =>
    rw [hreply] at hfirst h
    refine ⟨[], ?_, rfl⟩
    rw [List.append_nil]
    cases left with
    | zero => exact Fallible.run_bind_of_ok hfirst
    | succ left =>
      rcases h with h | h
      · cases h
      · have hstatus : ¬isServerError response.status = true := by
          rw [show isServerError response.status = false from h]
          exact Bool.false_ne_true
        refine (Fallible.run_bind_of_ok hfirst).trans ?_
        dsimp only
        rw [if_neg hstatus]
        rfl
  | failed error =>
    rw [hreply] at hfirst h
    refine ⟨[], ?_, rfl⟩
    rw [List.append_nil]
    cases left with
    | zero => exact Fallible.run_bind_of_ok hfirst
    | succ left =>
      rcases h with h | h
      · cases h
      · cases h

/-- An attempt that fails is announced to be repeated. -/
theorem run_attemptLoop_of_failure (left : Nat) (events : List ExecutionEvent)
    (h : (server.replies server.attempts.length).isFailure = true) :
    ∃ event, isRetryWarning event = true ∧
      (attemptLoop policy (.ok attempt) (left + 1)).run ⟨server, events⟩ =
        (do backoff policy; attemptLoop policy (.ok attempt) left : HttpM WebResponse).run
          ⟨server.after attempt 1, events ++ [event]⟩ := by
  have hfirst := run_tryOnce attempt server events
  cases hreply : server.replies server.attempts.length with
  | cancelled =>
    rw [hreply] at h
    cases h
  | answered response =>
    rw [hreply] at hfirst h
    refine ⟨retryWarning ("HTTP " ++ statusText response) (policy.maxRetries.toNat - left), rfl,
      (Fallible.run_bind_of_ok hfirst).trans ?_⟩
    dsimp only
    rw [if_pos (show isServerError response.status = true from h)]
    rfl
  | failed error =>
    rw [hreply] at hfirst
    exact ⟨retryWarning (mapReqwestError error).message (policy.maxRetries.toNat - left), rfl,
      Fallible.run_bind_of_ok hfirst⟩

/-- The pause behind the last attempt ends, or is cancelled. -/
theorem run_backoff (server : Server) (events : List ExecutionEvent) :
    (backoff policy).run ⟨server, events⟩ =
      if (decide (0 < policy.backoffMs.toNat) &&
          server.pauses (server.attempts.length - 1)) = true then
        (.error .cancelled,
          ⟨server, events ++ [.cancelled (some "user cancelled during retry backoff")]⟩)
      else (.ok (), ⟨server, events⟩) := by
  rw [backoff]
  by_cases hpause : 0 < policy.backoffMs.toNat
  · rw [if_pos hpause, decide_eq_true hpause, Bool.true_and]
    refine (Fallible.run_bind_of_ok (run_askPeer _ _)).trans ?_
    change (if server.pauses (server.attempts.length - 1) = true then
      cancel "user cancelled during retry backoff" else pure () : HttpM Unit).run _ = _
    by_cases hcancelled : server.pauses (server.attempts.length - 1) = true
    · rw [if_pos hcancelled, if_pos hcancelled]
      rfl
    · rw [if_neg hcancelled, if_neg hcancelled]
      rfl
  · rw [if_neg hpause, decide_eq_false hpause]
    rfl

end Steps

/-! ## All attempts -/

section Loop

variable {policy : RetryPolicy} {attempt : HttpAttempt}

/-- What the attempts from one on come to. -/
structure Settled (policy : RetryPolicy) (attempt : HttpAttempt) (left : Nat)
    (session : Session Server) (final : Except DriverError WebResponse × Session Server) :
    Prop where
  peer : final.2.peer = session.peer.after attempt
    (tries (session.peer.repeats policy) session.peer.attempts.length left)
  result : final.1 = (session.peer.outcome policy (final.2.peer.attempts.length - 1)).result
  warnings : retryWarnings final.2 + 1 = retryWarnings session +
    tries (session.peer.repeats policy) session.peer.attempts.length left +
      (session.peer.breaksOff policy (final.2.peer.attempts.length - 1)).toNat

theorem length_after (server : Server) (n : Nat) :
    (server.after attempt n).attempts.length = server.attempts.length + n := by
  rw [Server.after, List.length_append, List.length_replicate]

/-- An attempt that is not repeated settles the loop. -/
theorem settled_of_last {left : Nat} {session : Session Server}
    {final : Except DriverError WebResponse × Session Server}
    (hlast : left = 0 ∨ session.peer.repeats policy session.peer.attempts.length = false)
    (hpeer : final.2.peer = session.peer.after attempt 1)
    (hresult : final.1 = (session.peer.outcome policy session.peer.attempts.length).result)
    (hwarnings : retryWarnings final.2 = retryWarnings session +
      (session.peer.breaksOff policy session.peer.attempts.length).toNat) :
    Settled policy attempt left session final := by
  have hone : tries (session.peer.repeats policy) session.peer.attempts.length left = 1 := by
    rcases hlast with rfl | hlast
    · rfl
    · exact tries_of_not_repeats hlast left
  have hindex : final.2.peer.attempts.length - 1 = session.peer.attempts.length := by
    rw [hpeer, length_after, Nat.add_sub_cancel]
  constructor
  · rw [hone, hpeer]
  · rw [hindex, hresult]
  · rw [hindex, hone, hwarnings]
    omega

variable {events : List ExecutionEvent} {left : Nat}

variable {server : Server}

/-- An attempt that is the last one by the policy or by its outcome. -/
theorem attemptLoop_settled_of_last
    (hlast : left = 0 ∨ (server.replies server.attempts.length).isFailure = false)
    (hnone : server.breaksOff policy server.attempts.length = false) :
    Settled policy attempt left ⟨server, events⟩
      ((attemptLoop policy (.ok attempt) left).run ⟨server, events⟩) := by
  obtain ⟨events', hrun, hquiet⟩ := run_attemptLoop_of_last policy attempt events hlast
  have houtcome := Server.outcome_of_not_breaksOff hnone
  rw [hrun]
  refine settled_of_last (hlast.imp_right fun h => ?_) rfl ?_ ?_
  · change (server.outcome policy server.attempts.length).isFailure = false
    rw [houtcome, h]
  · rw [houtcome]
  · rw [hnone, retryWarnings, List.countP_append, hquiet]
    rfl

/-- An attempt that is repeated leaves the rest to the next one. -/
theorem settled_of_next {event : ExecutionEvent}
    {final : Except DriverError WebResponse × Session Server}
    (hrepeats : server.repeats policy server.attempts.length = true)
    (hevent : isRetryWarning event = true)
    (h : Settled policy attempt left ⟨server.after attempt 1, events ++ [event]⟩ final) :
    Settled policy attempt (left + 1) ⟨server, events⟩ final := by
  obtain ⟨hpeer, hresult, hwarnings⟩ := h
  have hnext := tries_succ_of_repeats hrepeats left
  dsimp only at hpeer hresult hwarnings
  rw [length_after] at hpeer hwarnings
  constructor
  · rw [hpeer, Server.after_after]
    dsimp only
    rw [hnext, Nat.add_comm 1]
    rfl
  · exact hresult
  · have hcount : retryWarnings ⟨server.after attempt 1, events ++ [event]⟩ =
        retryWarnings ⟨server, events⟩ + 1 := by
      rw [retryWarnings, List.countP_append, List.countP_singleton, if_pos hevent]
      rfl
    have hsame : (server.after attempt 1).repeats policy = server.repeats policy := rfl
    have hbreaks : (server.after attempt 1).breaksOff policy = server.breaksOff policy := rfl
    rw [hwarnings, hcount, hsame, hbreaks]
    dsimp only
    rw [hnext]
    omega

/-- The attempts that are left are made as their outcomes call for them. -/
theorem attemptLoop_settled (hleft : server.attempts.length + left = policy.maxRetries.toNat) :
    Settled policy attempt left ⟨server, events⟩
      ((attemptLoop policy (.ok attempt) left).run ⟨server, events⟩) := by
  induction left generalizing server events with
  | zero => exact attemptLoop_settled_of_last (.inl rfl) (Server.breaksOff_of_le (by omega))
  | succ left ih =>
    cases hfailure : (server.replies server.attempts.length).isFailure with
    | false =>
      exact attemptLoop_settled_of_last (.inr hfailure)
        (Server.breaksOff_of_not_failure hfailure)
    | true =>
      obtain ⟨event, hevent, hrun⟩ :=
        run_attemptLoop_of_failure policy attempt left events hfailure
      have hbreaks : server.breaksOff policy server.attempts.length = _ :=
        Server.breaksOff_of_failure hfailure (by omega)
      have hpause := run_backoff policy (server.after attempt 1) (events ++ [event])
      rw [length_after, Nat.add_sub_cancel,
        show (server.after attempt 1).pauses = server.pauses from rfl, ← hbreaks] at hpause
      rw [hrun]
      cases hcancelled : server.breaksOff policy server.attempts.length with
      | true =>
        rw [hcancelled, if_pos rfl] at hpause
        rw [Fallible.run_bind_of_error hpause]
        have houtcome := Server.outcome_of_breaksOff hcancelled
        refine settled_of_last (.inr ?_) rfl ?_ ?_
        · change (server.outcome policy server.attempts.length).isFailure = false
          rw [houtcome]
          rfl
        · rw [houtcome]
          rfl
        · rw [hcancelled, retryWarnings, List.countP_append, List.countP_append,
            List.countP_singleton, if_pos hevent]
          rfl
      | false =>
        rw [hcancelled, if_neg Bool.false_ne_true] at hpause
        rw [Fallible.run_bind_of_ok hpause]
        refine settled_of_next ?_ hevent (ih ?_)
        · rw [Server.repeats, Server.outcome_of_not_breaksOff hcancelled, hfailure]
        · rw [length_after]
          omega

end Loop

/-! ## The response -/

section Receiving

variable (codecs : Codecs) (info : RunInfo) (request : RequestEnvelope)

/-- The events announce no attempt. -/
def Unannounced (events : List ExecutionEvent) : Prop := events.countP isRetryWarning = 0

theorem reports_receiveLoop (contentType : Option String) (items : List BodyItem)
    (preview : String) (received : Nat) :
    ∃ events result, Reports (receiveLoop codecs contentType items preview received) events result ∧
      Unannounced events ∧ (isCutOff items = true → result = .error .cancelled) := by
  induction items generalizing preview received with
  | nil => exact ⟨[], .ok (preview, received), .pure _, rfl, (by cases ·)⟩
  | cons item items ih =>
    cases item with
    | cancelled => exact ⟨_, .error .cancelled, .bind (.emit _) (.fail _), rfl, fun _ => rfl⟩
    | failed message => exact ⟨[], .error (.protocol message), .fail _, rfl, (by cases ·)⟩
    | chunk chunk =>
      obtain ⟨events, result, hreports, hquiet, hcut⟩ :=
        ih (addPreview preview chunk) (received + chunk.length)
      exact ⟨_, result, .bind (.emit _) hreports, hquiet, hcut⟩

/-- What a response comes to, whatever has gone before. -/
def received (response : WebResponse) : Except DriverError ExecutionSummary :=
  ((receive codecs info request response).run ⟨⟨fun _ => .cancelled, fun _ => false, none, []⟩, []⟩).1

theorem reports_receive (response : WebResponse) :
    ∃ events, Reports (receive codecs info request response) events
        (received codecs info request response) ∧ Unannounced events ∧
      (isCutOff response.items = true →
        received codecs info request response = .error .cancelled) := by
  obtain ⟨events, result, hbody, hquiet, hcut⟩ :=
    reports_receiveLoop codecs response.contentType response.items "" 0
  have hall : ∃ events result', Reports (receive codecs info request response) events result' ∧
      Unannounced events ∧ (result = .error .cancelled → result' = .error .cancelled) := by
    cases result with
    | error e =>
      refine ⟨_, .error e, .bind (.emit _) (.bind (.emit _) (.bind_error hbody)), hquiet, ?_⟩
      rintro ⟨⟩
      rfl
    | ok body =>
      refine ⟨_, _, .bind (.emit _) (.bind (.emit _) (.bind hbody (.bind (.emit _)
        (.bind (.emit _) (.bind (.emit _) (.pure _)))))), ?_, (by cases ·)⟩
      rw [Unannounced] at hquiet ⊢
      simp only [List.countP_append, hquiet]
      rfl
  obtain ⟨events', result', hreports, hquiet', hcut'⟩ := hall
  have hreceived : received codecs info request response = result' :=
    congrArg Prod.fst (hreports _)
  rw [hreceived]
  exact ⟨events', hreports, hquiet', fun h => hcut' (hcut h)⟩

end Receiving

/-! ## The run -/

section Runs

variable (codecs : Codecs) (library : HttpLibrary) (info : RunInfo) (request : RequestEnvelope)

/-- The attempt that is made, or the error that a request ends with before any attempt. -/
def prepared (jar : Option String) : Except DriverError HttpAttempt := do
  let payload ← httpPayload request
  validated (library.parseMethod payload.method)
  clientFor library request payload.followRedirects
  validated (library.parseUrl request.target)
  buildAttempt codecs library request payload (mergedCookies payload jar)

/-- What the last attempt comes to. -/
def Reply.finalResult : Reply → Except DriverError ExecutionSummary
  | .answered response => received codecs info request response
  | .failed error => .error (mapReqwestError error)
  | .cancelled => .error .cancelled

/-- The law of the attempts of a run that makes the given one. -/
structure RetryLaw (server : Server) (attempt : HttpAttempt)
    (final : Except DriverError ExecutionSummary × Session Server) : Prop where
  pos : 0 < final.2.peer.attempts.length
  same : ∀ made ∈ final.2.peer.attempts, made = attempt
  /-- All attempts but the last one fail, and no cancellation is observed behind them. -/
  failures : ∀ i < final.2.peer.attempts.length - 1,
    (server.outcome request.retryPolicy i).isFailure = true
  /-- The first outcome that is not a failure is the last one, unless the policy ends the
  attempts before. -/
  length_eq_min : ∀ k, (∀ i < k, (server.outcome request.retryPolicy i).isFailure = true) →
    (server.outcome request.retryPolicy k).isFailure = false →
    final.2.peer.attempts.length = min (k + 1) (request.retryPolicy.maxRetries.toNat + 1)
  /-- Attempts that all fail are as many as the policy allows. -/
  length_of_failures : (∀ i, (server.outcome request.retryPolicy i).isFailure = true) →
    final.2.peer.attempts.length = request.retryPolicy.maxRetries.toNat + 1
  result : final.1 = (server.outcome request.retryPolicy
    (final.2.peer.attempts.length - 1)).finalResult codecs info request
  /-- Each repeated attempt is announced, and so is one whose pause is then cancelled. -/
  warnings : retryWarnings final.2 = final.2.peer.attempts.length - 1 +
    (server.breaksOff request.retryPolicy (final.2.peer.attempts.length - 1)).toNat
  cancelled : (server.outcome request.retryPolicy
    (final.2.peer.attempts.length - 1)).isCancelled = true → final.1 = .error .cancelled

variable {codecs library info request}

variable {reply : Reply}

theorem Reply.finalResult_of_isCancelled (h : reply.isCancelled = true) :
    reply.finalResult codecs info request = .error .cancelled := by
  cases reply with
  | answered response =>
    obtain ⟨-, -, -, hcut⟩ := reports_receive codecs info request response
    exact hcut h
  | failed error => cases h
  | cancelled => rfl

theorem Reply.finalResult_of_error {e : DriverError} (h : .error e = reply.result) :
    reply.finalResult codecs info request = .error e := by
  cases reply <;> cases h <;> rfl

theorem Reply.finalResult_of_ok {response : WebResponse} (h : .ok response = reply.result) :
    reply.finalResult codecs info request = received codecs info request response := by
  cases reply <;> cases h
  rfl

/-- What the attempts come to decides what the run comes to. -/
theorem retryLaw_of_settled {server : Server} {attempt : HttpAttempt} {session : Session Server}
    {settled : Except DriverError WebResponse × Session Server}
    {final : Except DriverError ExecutionSummary × Session Server}
    (hserver : session.peer = server) (hfresh : server.attempts = [])
    (hquiet : retryWarnings session = 0)
    (h : Settled request.retryPolicy attempt request.retryPolicy.maxRetries.toNat session settled)
    (hpeer : final.2.peer = settled.2.peer)
    (hwarnings : retryWarnings final.2 = retryWarnings settled.2)
    (hresult : final.1 = (server.outcome request.retryPolicy
      (final.2.peer.attempts.length - 1)).finalResult codecs info request) :
    RetryLaw codecs info request server attempt final := by
  subst hserver
  have hpos : 0 < tries (session.peer.repeats request.retryPolicy) 0
      request.retryPolicy.maxRetries.toNat := tries_pos 0 _
  obtain ⟨hafter, -, hcount⟩ := h
  rw [hfresh] at hafter hcount
  rw [List.length_nil] at hafter hcount
  have hattempts : final.2.peer.attempts = List.replicate
      (tries (session.peer.repeats request.retryPolicy) 0 request.retryPolicy.maxRetries.toNat)
      attempt := by
    rw [hpeer, hafter, Server.after, hfresh, List.nil_append]
  have hlength : final.2.peer.attempts.length =
      tries (session.peer.repeats request.retryPolicy) 0 request.retryPolicy.maxRetries.toNat := by
    rw [hattempts, List.length_replicate]
  refine ⟨?_, ?_, ?_, ?_, ?_, hresult, ?_, ?_⟩
  · rw [hlength]
    exact hpos
  · rw [hattempts]
    exact fun made hmade => List.eq_of_mem_replicate hmade
  · intro i hi
    rw [hlength] at hi
    have hrepeats := repeats_of_succ_lt_tries (Nat.add_lt_of_lt_sub hi)
    rwa [Nat.zero_add] at hrepeats
  · intro k hbefore hlast
    rw [hlength]
    refine tries_eq_min (fun i hi => ?_) ?_ _
    · rw [Nat.zero_add]
      exact hbefore i hi
    · rw [Nat.zero_add]
      exact hlast
  · intro hall
    rw [hlength]
    exact tries_of_forall (fun i => hall (0 + i)) _
  · rw [hquiet, ← hpeer] at hcount
    rw [hwarnings, hlength]
    rw [hlength] at hcount
    omega
  · intro hcancelled
    rw [hresult]
    exact Reply.finalResult_of_isCancelled hcancelled

theorem run_attemptLoop_of_error (policy : RetryPolicy) (e : DriverError) (left : Nat)
    (session : Session Server) :
    (attemptLoop policy (.error e) left).run session = (.error e, session) := by
  cases left with
  | zero => rfl
  | succ left => rfl

variable {server : Server}

theorem run_execute {payload : HttpPayload} (hpayload : httpPayload request = .ok payload)
    (hmethod : validated (library.parseMethod payload.method) = .ok ())
    (hclient : clientFor library request payload.followRedirects = .ok ())
    (hurl : validated (library.parseUrl request.target) = .ok ()) :
    (execute codecs library info request).run ⟨server, []⟩ =
      (attemptLoop request.retryPolicy
          (buildAttempt codecs library request payload (mergedCookies payload server.jar))
          request.retryPolicy.maxRetries.toNat >>=
        receive codecs info request).run ⟨server, [running .connect]⟩ := by
  rw [execute, hpayload]
  refine (Fallible.run_bind_of_ok (run_ofExcept _ _)).trans ?_
  rw [hmethod, hclient, hurl]
  rfl

/-- A request that cannot be prepared ends without an attempt. -/
theorem execute_of_error {server : Server} {e : DriverError}
    (h : prepared codecs library request server.jar = .error e) :
    ∃ events, Unannounced events ∧
      (execute codecs library info request).run ⟨server, []⟩ = (.error e, ⟨server, events⟩) := by
  rcases bind_eq_error_iff.mp h with hpayload | ⟨payload, hpayload, h⟩
  · refine ⟨[], rfl, ?_⟩
    rw [execute, hpayload]
    rfl
  refine ⟨[running .connect], rfl, ?_⟩
  rcases bind_eq_error_iff.mp h with hmethod | ⟨⟨⟩, hmethod, h⟩
  · rw [execute, hpayload]
    refine (Fallible.run_bind_of_ok (run_ofExcept _ _)).trans ?_
    rw [hmethod]
    rfl
  rcases bind_eq_error_iff.mp h with hclient | ⟨⟨⟩, hclient, h⟩
  · rw [execute, hpayload]
    refine (Fallible.run_bind_of_ok (run_ofExcept _ _)).trans ?_
    rw [hmethod, hclient]
    rfl
  rcases bind_eq_error_iff.mp h with hurl | ⟨⟨⟩, hurl, h⟩
  · rw [execute, hpayload]
    refine (Fallible.run_bind_of_ok (run_ofExcept _ _)).trans ?_
    rw [hmethod, hclient, hurl]
    rfl
  rw [run_execute hpayload hmethod hclient hurl, h]
  exact Fallible.run_bind_of_error (run_attemptLoop_of_error _ _ _ _)

variable {attempt : HttpAttempt}

/-- A request that can be prepared attempts, and receives the response. -/
theorem execute_of_ok (h : prepared codecs library request server.jar = .ok attempt) :
    (execute codecs library info request).run ⟨server, []⟩ =
      (attemptLoop request.retryPolicy (.ok attempt) request.retryPolicy.maxRetries.toNat >>=
        receive codecs info request).run ⟨server, [running .connect]⟩ := by
  obtain ⟨payload, hpayload, h⟩ := bind_eq_ok_iff.mp h
  obtain ⟨⟨⟩, hmethod, h⟩ := bind_eq_ok_iff.mp h
  obtain ⟨⟨⟩, hclient, h⟩ := bind_eq_ok_iff.mp h
  obtain ⟨⟨⟩, hurl, h⟩ := bind_eq_ok_iff.mp h
  rw [run_execute hpayload hmethod hclient hurl, h]

/-- A request that can be prepared makes the attempts of the law. -/
theorem execute_retryLaw (hfresh : server.attempts = [])
    (h : prepared codecs library request server.jar = .ok attempt) :
    RetryLaw codecs info request server attempt
      ((execute codecs library info request).run ⟨server, []⟩) := by
  have hleft : server.attempts.length + request.retryPolicy.maxRetries.toNat =
      request.retryPolicy.maxRetries.toNat := by rw [hfresh, List.length_nil, Nat.zero_add]
  have hsettled : Settled request.retryPolicy attempt _ ⟨server, [running .connect]⟩ _ :=
    attemptLoop_settled hleft
  have hresult := hsettled.result
  rw [execute_of_ok h, Fallible.run_bind]
  rcases hrun : (attemptLoop request.retryPolicy (.ok attempt)
    request.retryPolicy.maxRetries.toNat).run ⟨server, [running .connect]⟩ with
      ⟨e | response, session⟩
  · rw [hrun] at hsettled hresult
    exact retryLaw_of_settled rfl hfresh rfl hsettled rfl rfl
      (Reply.finalResult_of_error hresult).symm
  · rw [hrun] at hsettled hresult
    obtain ⟨events, hreports, hquiet, -⟩ := reports_receive codecs info request response
    have hreceive := hreports session
    dsimp only
    refine retryLaw_of_settled rfl hfresh rfl hsettled ?_ ?_ ?_
    · rw [hreceive]
    · rw [hreceive, retryWarnings, List.countP_append, hquiet]
      rfl
    · rw [hreceive]
      exact (Reply.finalResult_of_ok hresult).symm

variable (codecs library info request)

/-- The attempts of every run, whatever comes of them and of the pauses behind them. A request
that cannot be prepared ends without an attempt. -/
theorem execute_retries (replies : Nat → Reply) (pauses : Nat → Bool) (jar : Option String) :
    let final := (execute codecs library info request).run ⟨⟨replies, pauses, jar, []⟩, []⟩
    match prepared codecs library request jar with
    | .error e => final.1 = .error e ∧ final.2.peer.attempts = [] ∧ retryWarnings final.2 = 0
    | .ok attempt => RetryLaw codecs info request ⟨replies, pauses, jar, []⟩ attempt final := by
  dsimp only
  split
  case h_1 e hprepared =>
    obtain ⟨events, hquiet, hrun⟩ :=
      @execute_of_error codecs library info request ⟨replies, pauses, jar, []⟩ e hprepared
    rw [hrun]
    exact ⟨rfl, rfl, hquiet⟩
  case h_2 attempt hprepared => exact execute_retryLaw rfl hprepared

end Runs

/-! ### A cancelled pause -/

section Sample

def sampleLibrary : HttpLibrary :=
  ⟨fun _ => .ok (), fun _ => .ok (), fun _ => .ok (), fun _ => .ok (), fun _ => .ok (), .ok ()⟩

/-- A request that may be repeated once, after a pause. -/
def sampleRequest : RequestEnvelope :=
  { RequestEnvelope.httpGet "request" "now" "sample" "http://localhost/" with
    retryPolicy := ⟨1, 250⟩ }

/-- The first attempt is announced to be repeated, and is not when the pause is cancelled. -/
theorem retryWarnings_not_repeated : ¬∀ (codecs : Codecs) (library : HttpLibrary) (info : RunInfo)
    (request : RequestEnvelope) (replies : Nat → Reply) (pauses : Nat → Bool) (jar : Option String),
    let final := (execute codecs library info request).run ⟨⟨replies, pauses, jar, []⟩, []⟩
    retryWarnings final.2 = final.2.peer.attempts.length - 1 := by
  intro h
  have hsample := h .unused sampleLibrary ⟨"execution", "start", "end", 0⟩ sampleRequest
    (fun _ => .failed ⟨"connection refused", false, true⟩) (fun _ => true) none
  exact absurd hsample (by decide +kernel)

end Sample

end ApiVoy.Drivers.Http
