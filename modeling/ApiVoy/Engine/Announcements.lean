/-
# How a run announces its end

A run that fails says so once before it hands its error back, and unless a script has failed the
state comes right behind. A run that is cancelled or panics says nothing of the kind. What a
driver emits is passed on in every case, and only a driver brings a summary.
-/

import ApiVoy.Engine.Run

namespace ApiVoy.Engine

open Domain Foundation

def isFailed : ExecutionEvent → Bool
  | .failed .. => true
  | _ => false

/-- The code of an announcement; failed scripts have one of their own. -/
def announcedCode : EngineError → String
  | .script _ => "script_error"
  | error => error.code

/-- What is reported behind an announcement. -/
def ReportedBehind : EngineError → List ExecutionEvent → Prop
  | .script _, rest => rest = []
  | _, rest => ∃ phase, rest = [.stateChanged .failed phase]

/-- The events end with the announcement of an error, and no other one is before it. That a run
was cancelled is not announced. -/
def Announced : EngineError → List ExecutionEvent → Prop
  | .cancelled, events => events.any isFailed = false
  | error, events =>
    ∃ before message rest, events = before ++ .failed (announcedCode error) message :: rest ∧
      before.any isFailed = false ∧ ReportedBehind error rest

/-- A step announces an error when it fails, and only then. -/
def Announces {α : Type} (m : RunM α) : Prop :=
  ∀ events, events.any isFailed = false →
    match m.run events with
    | (.ok _, after) => after.any isFailed = false
    | (.error error, after) => Announced error after

variable {early late : List ExecutionEvent}

theorem any_isFailed_append (hearly : early.any isFailed = false)
    (hlate : late.any isFailed = false) : (early ++ late).any isFailed = false := by
  rw [List.any_append, hearly, hlate, Bool.or_self]

theorem Announced.append {error : EngineError} (hearly : early.any isFailed = false)
    (h : Announced error late) : Announced error (early ++ late) := by
  cases error with
  | cancelled => exact any_isFailed_append hearly h
  | _ =>
    obtain ⟨before, message, rest, rfl, hbefore, hrest⟩ := h
    exact ⟨early ++ before, message, rest, (List.append_assoc _ _ _).symm,
      any_isFailed_append hearly hbefore, hrest⟩

namespace Announces

variable {α β : Type}

theorem pure (a : α) : Announces (Pure.pure a : RunM α) := fun _ h => h

theorem emit {event : ExecutionEvent} (h : isFailed event = false) : Announces (emit event) := by
  intro events hevents
  exact any_isFailed_append hevents (by rw [List.any_cons, h, List.any_nil, Bool.or_self])

theorem bind {m : RunM α} {f : α → RunM β} (hm : Announces m) (hf : ∀ a, Announces (f a)) :
    Announces (m >>= f) := by
  intro events hevents
  have hfirst := hm events hevents
  rw [Fallible.run_bind]
  rcases hrun : m.run events with ⟨error | a, after⟩ <;> rw [hrun] at hfirst
  · exact hfirst
  · exact hf a after hfirst

theorem each {f : α → RunM Unit} (h : ∀ a, Announces (f a)) (as : List α) :
    Announces (Fallible.each f as) := by
  induction as with
  | nil => exact pure ()
  | cons a as ih => exact (h a).bind fun _ => ih

theorem refuse {phase : ExecutionPhase} {code message : String} {error : EngineError}
    (hcode : code = announcedCode error) (hcancelled : error ≠ .cancelled)
    (hscript : ∀ e, error ≠ .script e) : Announces (refuse phase code message error : RunM α) := by
  intro events hevents
  have hshape : events ++ [.failed code message] ++ [.stateChanged .failed (some phase)] =
      events ++ .failed (announcedCode error) message :: [.stateChanged .failed (some phase)] := by
    rw [← hcode, List.append_assoc]
    rfl
  cases error with
  | cancelled => exact absurd rfl hcancelled
  | script e => exact absurd rfl (hscript e)
  | _ => exact ⟨events, message, _, hshape, hevents, some phase, rfl⟩

theorem scriptError (error : ScriptError) :
    Announces (Engine.emit (.failed "script_error" error.text) >>= fun _ =>
      Fallible.fail (.script error) : RunM α) :=
  fun events hevents => ⟨events, _, [], rfl, hevents, rfl⟩

end Announces

variable (library : EngineLibrary) (driver : Driver)

theorem announces_prepare (request : RequestEnvelope) (scope : ExecutionScope) :
    Announces (prepare library driver request scope) := by
  refine .bind ?_ fun request => .bind ?_ fun request => .bind ?_ fun request => ?_
  · rw [preScriptPhase]
    split
    · exact .pure request
    · refine (Announces.emit rfl).bind fun _ => ?_
      split
      · exact (Announces.each (fun _ => .emit rfl) _).bind fun _ => .pure _
      · exact .scriptError _
  · refine (Announces.emit rfl).bind fun _ => ?_
    split
    · exact .pure _
    · exact .refuse rfl (by simp) (by simp)
  · rw [authPhase]
    split
    · exact .pure _
    · exact .refuse rfl (by simp) (by simp)
  · refine (Announces.emit rfl).bind fun _ => ?_
    split
    · exact .pure _
    · exact .refuse rfl (by simp) (by simp)

/-- A request reaches the driver only when the driver finds nothing wrong with it. -/
theorem returns_prepare (request : RequestEnvelope) (scope : ExecutionScope) :
    Fallible.Returns (fun prepared => driver.validate prepared = [])
      (prepare library driver request scope) := by
  refine .bind_any _ fun _ => .bind_any _ fun _ => .bind_any _ fun request => .bind_any _ fun _ => ?_
  split
  · rename_i hvalid
    exact .pure hvalid
  · exact .bind_any _ fun _ => .bind_any _ fun _ => .fail _

section Conclusion

variable (request : RequestEnvelope) (events : List ExecutionEvent) (summary : ExecutionSummary)

theorem announces_conclude : Announces (conclude library request events summary) := by
  refine .bind ?_ fun _ => ?_
  · rw [postScriptPhase]
    split
    · exact .pure ()
    · refine (Announces.emit rfl).bind fun _ => ?_
      split
      · exact (Announces.each (fun _ => .emit rfl) _).bind fun _ => .emit rfl
      · exact .scriptError _
  · rw [assertionPhase]
    split
    · exact .pure _
    · refine (Announces.emit rfl).bind fun _ => ?_
      split
      · exact (Announces.each (fun _ => .emit rfl) _).bind fun _ => .pure _
      · exact .pure _

/-- What follows a driver that has returned hands its summary on, or panics. -/
theorem returns_conclude : Fallible.Returns
    (fun result => result = .returned summary ∨ result = .panicked library.panicText)
    (conclude library request events summary) := by
  refine .bind_any _ fun _ => ?_
  rw [assertionPhase]
  split
  · exact .pure (.inl rfl)
  · refine .bind_any _ fun _ => ?_
    split
    · exact .bind_any _ fun _ => .pure (.inl rfl)
    · exact .pure (.inr rfl)

end Conclusion

/-- However a run goes, it announces the error that it ends with and no other, in the last of its
own events; a run that ends well is one of a driver that has accepted the request, passes on what
the driver emits, and ends with the summary of the driver. -/
theorem runDriver_announces (request : RequestEnvelope) (scope : ExecutionScope) :
    let run := runDriver library driver request scope
    match run.result with
    | .failed error => Announced error (run.early ++ run.late)
    | .panicked _ => (run.early ++ run.late).any isFailed = false
    | .returned summary => (run.early ++ run.late).any isFailed = false ∧
        ∃ prepared, driver.validate prepared = [] ∧
          (driver.execute prepared).outcome = .returned summary ∧
          run.driven = (driver.execute prepared).events := by
  have hprepared := announces_prepare library driver request scope [] rfl
  dsimp only
  rw [runDriver]
  rcases hprepare : (prepare library driver request scope).run [] with ⟨error | prepared, early⟩ <;>
    rw [hprepare] at hprepared
  · show Announced error (early ++ [])
    rwa [List.append_nil]
  have hearly : early.any isFailed = false := hprepared
  dsimp only
  cases houtcome : (driver.execute prepared).outcome with
  | panicked joinError => exact any_isFailed_append hearly rfl
  | failed error =>
    cases error with
    | cancelled => exact any_isFailed_append hearly rfl
    | _ => exact ⟨early, _, _, rfl, hearly, none, rfl⟩
  | returned summary =>
    have hconcluded := announces_conclude library prepared (driver.execute prepared).events summary
      [] rfl
    dsimp only
    rcases hconclude : (conclude library prepared (driver.execute prepared).events summary).run []
      with ⟨error | result, late⟩ <;> rw [hconclude] at hconcluded
    · exact Announced.append hearly hconcluded
    rcases returns_conclude library _ _ _ _ _ _ hconclude with rfl | rfl
    · exact ⟨any_isFailed_append hearly hconcluded, prepared,
        returns_prepare library driver request scope _ _ _ hprepare, houtcome, rfl⟩
    · exact any_isFailed_append hearly hconcluded

end ApiVoy.Engine
