/-
# What subscribers are told

A push publishes its event after its commit. The operations on comments publish
theirs before they return, so a subscriber may hear of a comment whose transaction
is still to be committed, or never will be. When no one is subscribed at that
moment nothing is sent; otherwise every event that arrives is backed by committed
rows.
-/

import ApiVoy.Collaboration.Revisions

namespace ApiVoy.Collaboration

open Foundation

variable {s s' : Server}

/-! ## Deliveries of a step -/

/-- What a step sends, and what it knows of the transactions it sends it for. -/
structure Sends (s s' : Server) (sent : List Delivery) : Prop where
  delivered : s'.delivered = s.delivered ++ sent
  committed : ∀ d ∈ sent, ∃ call isNew state change,
    s.phase d.transaction = .committed call (.workspace isNew state change) ∧
      d.organizationId = call.organizationId ∧
      d.event = .workspaceChanged call.workspaceId state.revision call.actor

theorem sends_nothing (h : s'.delivered = s.delivered) : Sends s s' [] := by
  refine ⟨by simpa using h, ?_⟩
  intro d hd
  cases hd

/-- No one is subscribed to the organization of a comment that is published. -/
def Action.Unheard (s : Server) : Action → Prop
  | .publishComment t => ∀ call isNew row action,
      s.phase t = .prepared call (.comment isNew row action) →
      ∀ sub ∈ s.subscribers, sub.1 ≠ call.organizationId
  | _ => True

/-- A result that is passed on sends nothing by itself. -/
theorem delivered_proceed {α : Type} {t : Nat} {call : Call} {result : ServiceResult α}
    {next : α → Server} (h : ∀ a, (next a).delivered = s.delivered) :
    (s.proceed t call result next).delivered = s.delivered := by
  cases result with
  | error e => rfl
  | ok a => exact h a

variable {action : Action}

/-- Unless a comment is heard, what is sent is about a committed push. -/
theorem sends_step (hunheard : action.Unheard s) (h : step action s = some s') :
    ∃ sent, Sends s s' sent := by
  cases action with
  | publishComment t =>
    simp only [step] at h
    split at h
    · rename_i call isNew row action hphase
      cases h
      have hnone : s.emitters call.organizationId = [] := by
        rw [Server.emitters, List.map_eq_nil_iff, List.filter_eq_nil_iff]
        intro sub hsub
        simpa using hunheard call isNew row action hphase sub hsub
      refine ⟨[], sends_nothing ?_⟩
      show s.delivered ++ ((s.emitters call.organizationId).takeWhile _).map _ = _
      rw [hnone, List.takeWhile_nil, List.map_nil, List.append_nil]
    · cases h
  | announce t =>
    simp only [step] at h
    split at h
    · rename_i call isNew state change hphase
      cases h
      refine ⟨_, rfl, ?_⟩
      intro d hd
      obtain ⟨sub, -, rfl⟩ := List.mem_map.mp hd
      exact ⟨call, isNew, state, change, hphase, rfl, rfl⟩
    · cases h
  | authorize t | prepare t draw | flushState t | flushChange t | commit t =>
    simp only [step] at h
    split at h
    · cases h
      exact ⟨[], sends_nothing (delivered_proceed fun _ => rfl)⟩
    · cases h
  | call t call | fail t | subscribe actor organizationId emitter =>
    simp only [step] at h
    split at h
    · cases h
      exact ⟨[], sends_nothing rfl⟩
    · cases h
  | complete emitter | unsubscribe emitter | changeMembers memberships =>
    cases h
    exact ⟨[], sends_nothing rfl⟩

/-! ## Committed changes stay -/

/-- The change of a push that has committed is in its table. -/
def Landed (s : Server) : Prop :=
  ∀ t call isNew state change, (s.phase t).settled = some (call, .workspace isNew state change) →
    change ∈ s.db.changes ∧ change.organizationId = call.organizationId ∧
      change.workspaceId = call.workspaceId ∧ change.revision = state.revision

theorem landed_step (hrevised : Revised s) (h : Landed s) (hstep : step action s = some s') :
    Landed s' := by
  rcases step_cases hstep with hquiet | ⟨t, call, work, -, hprepares⟩ |
    ⟨t, call, work, -, hcommits⟩
  · intro t call isNew state change hsettled
    rw [hquiet.settled] at hsettled
    rw [hquiet.changes]
    exact h t call isNew state change hsettled
  · obtain ⟨-, -, rfl⟩ := hprepares
    intro u call' isNew state change hsettled
    rw [phase_set, Function.update_apply] at hsettled
    by_cases hu : u = t
    · rw [if_pos hu] at hsettled
      cases hsettled
    · rw [if_neg hu] at hsettled
      exact h u call' isNew state change hsettled
  · obtain ⟨hbefore, db, happly, rfl⟩ := hcommits
    have hkept : ∀ c ∈ s.db.changes, c ∈ db.changes := by
      intro c hc
      cases work with
      | comment isNew row action =>
        rw [(saveComment_tables happly).2]
        exact hc
      | workspace isNew state change =>
        have hwork : PushWork s.db call isNew state change :=
          hrevised.held t call (.workspace isNew state change) (by rw [hbefore]; rfl)
        rw [(pushed_of_apply hrevised.ids hrevised.keys hwork happly).changes]
        exact List.mem_append_left _ hc
    intro u call' isNew state change hsettled
    have hsettled : (Function.update s.phase t (.committed call work) u).settled =
        some (call', .workspace isNew state change) := hsettled
    rw [Function.update_apply] at hsettled
    by_cases hu : u = t
    · rw [if_pos hu] at hsettled
      cases hsettled
      have hwork : PushWork s.db call isNew state change :=
        hrevised.held t call (.workspace isNew state change) (by rw [hbefore]; rfl)
      have hchangeKey := hwork.changeKey.trans hwork.key
      rw [Prod.mk.injEq] at hchangeKey
      refine ⟨?_, hchangeKey.1, hchangeKey.2, hwork.changeRevision⟩
      rw [(pushed_of_apply hrevised.ids hrevised.keys hwork happly).changes]
      exact List.mem_append_right _ (List.mem_singleton_self change)
    · rw [if_neg hu] at hsettled
      obtain ⟨hmem, hcolumns⟩ := h u call' isNew state change hsettled
      exact ⟨hkept change hmem, hcolumns⟩

/-- No change is ahead of the state of its workspace. -/
theorem revision_le_of_change (h : Revised s) {change : WorkspaceChange}
    (hmem : change ∈ s.db.changes) :
    change.revision ≤ s.db.revisionOf change.organizationId change.workspaceId := by
  have hlinear := h.linear change.organizationId change.workspaceId
  have hlisted : change.revision ∈
      (s.db.changesOf change.organizationId change.workspaceId).map WorkspaceChange.revision :=
    List.mem_map_of_mem (List.mem_filter.mpr ⟨hmem, by simp⟩)
  rw [hlinear.changes, revisionsTo] at hlisted
  obtain ⟨i, hi, heq⟩ := List.mem_map.mp hlisted
  rw [List.mem_range] at hi
  rw [hlinear.revisionOf, ← heq]
  omega

/-! ## Backed events -/

/-- The transaction of a delivered event has committed, and who reloads finds what
the event announces: the change is in the log and the state is not behind it. -/
structure Backed (s : Server) (d : Delivery) : Prop where
  committed : (s.phase d.transaction).settled.isSome = true
  visible : ∃ workspaceId revision actor,
    d.event = .workspaceChanged workspaceId revision actor ∧
      (∃ change ∈ s.db.changes, change.organizationId = d.organizationId ∧
        change.workspaceId = workspaceId ∧ change.revision = revision) ∧
      revision ≤ s.db.revisionOf d.organizationId workspaceId

/-- What is known of a delivered event, whatever happens later. -/
def Announced (s : Server) : Prop :=
  ∀ d ∈ s.delivered, ∃ call isNew state change,
    (s.phase d.transaction).settled = some (call, .workspace isNew state change) ∧
      d.organizationId = call.organizationId ∧
      d.event = .workspaceChanged call.workspaceId state.revision call.actor

theorem announced_step (hunheard : action.Unheard s) (h : Announced s)
    (hstep : step action s = some s') : Announced s' := by
  obtain ⟨sent, hsends⟩ := sends_step hunheard hstep
  intro d hd
  rw [hsends.delivered, List.mem_append] at hd
  rcases hd with hold | hnew
  · obtain ⟨call, isNew, state, change, hsettled, hrest⟩ := h d hold
    exact ⟨call, isNew, state, change, settled_step hstep hsettled, hrest⟩
  · obtain ⟨call, isNew, state, change, hphase, hrest⟩ := hsends.committed d hnew
    refine ⟨call, isNew, state, change, settled_step hstep ?_, hrest⟩
    rw [hphase]
    rfl

/-- The states of the runs in which no comment is published to a subscriber. -/
def ReachedUnheard (s : Server) : Prop :=
  ∃ db, Unpushed db ∧ Follows step (fun s action => action.Unheard s) (Server.start db) s

theorem reached_of_unheard (h : ReachedUnheard s) : Reached s := by
  obtain ⟨db, hunpushed, hfollows⟩ := h
  exact ⟨db, hunpushed, hfollows.mono fun _ _ _ => trivial⟩

/-- In every state of a run in which no comment is published to a subscriber, each
delivered event is backed by committed rows; and what the next step of such a run
sends is about transactions that have committed before it. -/
theorem events_backed (h : ReachedUnheard s) :
    (∀ d ∈ s.delivered, Backed s d) ∧
      ∀ action s', action.Unheard s → step action s = some s' → ∃ sent,
        s'.delivered = s.delivered ++ sent ∧
          ∀ d ∈ sent, (s.phase d.transaction).settled.isSome = true := by
  have hrevised := revised_of_reached (reached_of_unheard h)
  obtain ⟨db, hunpushed, hfollows⟩ := h
  have hlanded : Revised s ∧ Landed s := by
    apply hfollows.invariant (I := fun s => Revised s ∧ Landed s)
    · refine ⟨revised_start hunpushed, ?_⟩
      intro t call isNew state change hsettled
      cases hsettled
    · intro s action s' hs _ hstep
      exact ⟨revised_step hs.1 hstep, landed_step hs.1 hs.2 hstep⟩
  have hannounced : Announced s := by
    apply hfollows.invariant (I := Announced)
    · intro d hd
      cases hd
    · intro s action s' hs hunheard hstep
      exact announced_step hunheard hs hstep
  constructor
  · intro d hd
    obtain ⟨call, isNew, state, change, hsettled, horganization, hevent⟩ := hannounced d hd
    obtain ⟨hmem, horg, hworkspace, hrevision⟩ := hlanded.2 _ call isNew state change hsettled
    refine ⟨by rw [hsettled]; rfl, _, _, _, hevent, ⟨change, hmem, ?_, hworkspace, hrevision⟩, ?_⟩
    · rw [horg, horganization]
    · rw [horganization, ← horg, ← hworkspace, ← hrevision]
      exact revision_le_of_change hrevised hmem
  · intro action s' hunheard hstep
    obtain ⟨sent, hsends⟩ := sends_step hunheard hstep
    refine ⟨sent, hsends.delivered, ?_⟩
    intro d hd
    obtain ⟨call, isNew, state, change, hphase, -⟩ := hsends.committed d hd
    rw [hphase]
    rfl

/-! ## A run of each kind -/

/-- A subscriber hears of a push. -/
def heardPushServer : Server :=
  (perform step ([Action.subscribe "ann" "org" 7, .call 0 (pushCall 0 (.num 1))] ++
    pushActions 0 ⟨"s0", "c0", "t"⟩ ++ [.announce 0]) (Server.start editorDatabase)).get
      (by decide +kernel)

theorem follows_unheard_of_perform {actions : List Action} {s s' : Server}
    (hpushes : ∀ action ∈ actions, ∀ t, action ≠ .publishComment t)
    (h : perform step actions s = some s') :
    Follows step (fun s action => action.Unheard s) s s' := by
  induction actions generalizing s with
  | nil =>
    cases h
    exact .refl
  | cons action rest ih =>
    obtain ⟨mid, hmid, hrest⟩ := Option.bind_eq_some_iff.mp h
    have hunheard : action.Unheard s := by
      cases action with
      | publishComment t =>
        exact absurd rfl (hpushes (.publishComment t) (List.mem_cons_self ..) t)
      | _ => trivial
    exact Follows.trans (.step .refl action hunheard hmid)
      (ih (fun a ha => hpushes a (List.mem_cons_of_mem _ ha)) hrest)

theorem heardPushServer_backed :
    heardPushServer.delivered.length = 1 ∧ ∀ d ∈ heardPushServer.delivered,
      Backed heardPushServer d := by
  refine ⟨by decide +kernel, (events_backed ⟨editorDatabase, ⟨rfl, rfl⟩,
    follows_unheard_of_perform ?_ (Option.some_get _).symm⟩).1⟩
  intro action haction t heq
  subst heq
  revert haction
  simp [pushActions]

/-- A subscriber hears of a comment whose transaction fails afterwards. -/
def heardCommentActions : List Action :=
  [.subscribe "ann" "org" 7,
    .call 0 ⟨"ann", "org", "ws", .addComment none (some "Please verify.")⟩, .authorize 0,
    .prepare 0 ⟨"comment", "unused", "t"⟩, .publishComment 0, .fail 0]

def heardCommentServer : Server :=
  (perform step heardCommentActions (Server.start editorDatabase)).get (by decide +kernel)

/-- The comment was announced, and there is no such comment. -/
theorem comment_announced_unbacked :
    ¬ ∀ s, Reached s → ∀ d ∈ s.delivered, (s.phase d.transaction).settled.isSome = true := by
  intro hall
  have hreached : Reached heardCommentServer :=
    ⟨editorDatabase, ⟨rfl, rfl⟩, follows_of_perform (Option.some_get _).symm⟩
  have hbacked := hall _ hreached ⟨7, 0, "org", .commentChanged "ws" "comment" "created" "ann"⟩
    (by decide +kernel)
  have hunsettled : (heardCommentServer.phase 0).settled = none := by decide +kernel
  rw [hunsettled] at hbacked
  cases hbacked

end ApiVoy.Collaboration
