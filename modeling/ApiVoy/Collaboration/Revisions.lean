/-
# The revisions of a workspace

Pushes race: first pushes on the creation of the state row, later ones on its
version, and the log of changes is a second table. Whatever the order of their
steps, the committed pushes of a workspace form one sequence, in which each was
based on the one before it.
-/

import ApiVoy.Collaboration.Transactions
import Mathlib.Data.List.Nodup

namespace ApiVoy.Collaboration

open Foundation

variable {s s' : Server} {organizationId workspaceId : String}

/-! ## The committed pushes -/

def Call.pushesTo (organizationId workspaceId : String) (call : Call) : Bool :=
  match call.method with
  | .push .. => call.organizationId = organizationId && call.workspaceId = workspaceId
  | _ => false

/-- The revision a push says it starts from. -/
def Call.baseRevision (call : Call) : Int :=
  match call.method with
  | .push baseRevision _ _ => baseRevision
  | _ => 0

def Call.document (call : Call) : Option Json :=
  match call.method with
  | .push _ document _ => document
  | _ => none

/-- The committed pushes to a workspace, in the order of their commits. -/
def Server.pushes (s : Server) (organizationId workspaceId : String) : List Call :=
  (s.log.map fun entry => entry.2.1).filter (Call.pushesTo organizationId workspaceId)

def Database.changesOf (db : Database) (organizationId workspaceId : String) :
    List WorkspaceChange :=
  db.changes.filter fun c => c.organizationId = organizationId && c.workspaceId = workspaceId

/-- The numbers from 1 to `n`. -/
def revisionsTo (n : Nat) : List Int := (List.range n).map fun i : Nat => (i : Int) + 1

theorem revisionsTo_succ (n : Nat) : revisionsTo (n + 1) = revisionsTo n ++ [(n : Int) + 1] := by
  simp [revisionsTo, List.range_succ]

/-- The tables agree with the committed pushes of a workspace. -/
structure Linear (s : Server) (organizationId workspaceId : String) : Prop where
  /-- The changes are numbered from 1 without gap or duplicate. -/
  changes : (s.db.changesOf organizationId workspaceId).map WorkspaceChange.revision =
    revisionsTo (s.pushes organizationId workspaceId).length
  /-- There is a state row once something was pushed. -/
  created : findState s.db organizationId workspaceId = none ↔
    s.pushes organizationId workspaceId = []
  /-- The state is at the last revision, with the document pushed for it. -/
  state : ∀ row, findState s.db organizationId workspaceId = some row →
    row.revision = (s.pushes organizationId workspaceId).length ∧
      ∃ call, (s.pushes organizationId workspaceId).getLast? = some call ∧
        row.documentJson = write call.document ∧ row.updatedBy = call.actor
  /-- Each push was based on the revision before its own. -/
  bases : (s.pushes organizationId workspaceId).map (fun call => call.baseRevision + 1) =
    revisionsTo (s.pushes organizationId workspaceId).length

/-! ## The invariant -/

def WorkspaceState.key (row : WorkspaceState) : String × String :=
  (row.organizationId, row.workspaceId)

/-- What a transaction that pushes has prepared, and the committed rows it depends
on. -/
structure PushWork (db : Database) (call : Call) (isNew : Bool) (state : WorkspaceState)
    (change : WorkspaceChange) : Prop where
  method : ∃ baseRevision document patch, call.method = .push baseRevision document patch
  key : state.key = (call.organizationId, call.workspaceId)
  changeKey : (change.organizationId, change.workspaceId) = state.key
  revision : state.revision = call.baseRevision + 1
  changeRevision : change.revision = state.revision
  document : state.documentJson = write call.document
  updatedBy : state.updatedBy = call.actor
  /-- A new row starts from nothing; an old one has counted its revisions. -/
  version : call.baseRevision = if isNew then 0 else (state.entityVersion : Int) + 1
  fresh : isNew = true → state.entityVersion = 0
  /-- The row an update was read from is still there, whatever became of it. -/
  origin : isNew = false → ∃ row ∈ db.states, row.id = state.id ∧ row.key = state.key

/-- The writes of a call are of its kind. -/
def HoldsWork (db : Database) (call : Call) : Work → Prop
  | .workspace isNew state change => PushWork db call isNew state change
  | .comment .. => ∀ organizationId workspaceId, call.pushesTo organizationId workspaceId = false

structure Revised (s : Server) : Prop where
  ids : (s.db.states.map WorkspaceState.id).Nodup
  keys : (s.db.states.map WorkspaceState.key).Nodup
  /-- A row is created with its first revision and counts both on together. -/
  version : ∀ row ∈ s.db.states, row.revision = (row.entityVersion : Int) + 1
  linear : ∀ organizationId workspaceId, Linear s organizationId workspaceId
  held : ∀ t call work, (s.phase t).pending = some (call, work) → HoldsWork s.db call work

/-! ### Finding rows -/

theorem isOf_iff (row : WorkspaceState) :
    (decide (row.organizationId = organizationId) && decide (row.workspaceId = workspaceId)) =
      true ↔ row.key = (organizationId, workspaceId) := by
  simp [WorkspaceState.key]

variable {row : WorkspaceState}

theorem mem_of_findState {db : Database} (h : findState db organizationId workspaceId = some row) :
    row ∈ db.states ∧ row.key = (organizationId, workspaceId) := by
  unfold findState at h
  have htest := List.find?_some h
  exact ⟨List.mem_of_find?_eq_some h, (isOf_iff row).mp htest⟩

theorem findState_eq_none_iff {db : Database} :
    findState db organizationId workspaceId = none ↔
      ∀ row ∈ db.states, row.key ≠ (organizationId, workspaceId) := by
  simp [findState, WorkspaceState.key]

/-- With one row for each workspace, the row that is there is the one found. -/
theorem findState_of_mem {db : Database} (hkeys : (db.states.map WorkspaceState.key).Nodup)
    (hmem : row ∈ db.states) (hkey : row.key = (organizationId, workspaceId)) :
    findState db organizationId workspaceId = some row := by
  cases hfind : findState db organizationId workspaceId with
  | none => exact absurd hkey (findState_eq_none_iff.mp hfind row hmem)
  | some found =>
    obtain ⟨hfound, hfoundKey⟩ := mem_of_findState hfind
    rw [List.inj_on_of_nodup_map hkeys hfound hmem (hfoundKey.trans hkey.symm)]

/-! ### Writing rows -/

variable {db db' : Database}

theorem saveState_new (h : saveState true row db = .ok db') :
    (∀ r ∈ db.states, r.id ≠ row.id ∧ r.key ≠ row.key) ∧
      db' = { db with states := db.states ++ [row] } := by
  simp only [saveState, if_true] at h
  split at h
  · cases h
  · rename_i hunique
    cases h
    refine ⟨?_, rfl⟩
    intro r hr
    have hfree := fun hany => hunique (List.any_eq_true.mpr ⟨r, hr, hany⟩)
    constructor
    · intro hid
      exact hfree (by simp [hid])
    · intro hkey
      simp only [WorkspaceState.key, Prod.mk.injEq] at hkey
      exact hfree (by simp [hkey.1, hkey.2])

/-- The row that replaces an old one. -/
def WorkspaceState.bumped (row : WorkspaceState) : WorkspaceState :=
  { row with entityVersion := row.entityVersion + 1 }

theorem saveState_old (h : saveState false row db = .ok db') :
    (∃ r ∈ db.states, r.id = row.id ∧ r.entityVersion = row.entityVersion) ∧
      db' = { db with states := db.states.map fun r => if r.id = row.id then row.bumped else r } := by
  simp only [saveState, Bool.false_eq_true, if_false] at h
  split at h
  · rename_i hfound
    cases h
    obtain ⟨r, hr, hmatch⟩ := List.any_eq_true.mp hfound
    rw [Bool.and_eq_true, decide_eq_true_eq, decide_eq_true_eq] at hmatch
    exact ⟨⟨r, hr, hmatch⟩, rfl⟩
  · cases h

theorem saveChange_ok {row : WorkspaceChange} (h : saveChange row db = .ok db') :
    db' = { db with changes := db.changes ++ [row] } := by
  unfold saveChange at h
  split at h
  · cases h
  · cases h
    rfl

/-- The row a push leaves. -/
def writtenState (isNew : Bool) (state : WorkspaceState) : WorkspaceState :=
  if isNew then state else state.bumped

theorem bumped_key (row : WorkspaceState) : row.bumped.key = row.key := rfl

theorem writtenState_key (isNew : Bool) (state : WorkspaceState) :
    (writtenState isNew state).key = state.key := by
  cases isNew <;> rfl

theorem map_id_replace (rows : List WorkspaceState) (row : WorkspaceState) :
    (rows.map fun r => if r.id = row.id then row.bumped else r).map WorkspaceState.id =
      rows.map WorkspaceState.id := by
  rw [List.map_map]
  apply List.map_congr_left
  intro r _
  by_cases hid : r.id = row.id
  · simp [hid, WorkspaceState.bumped]
  · simp [hid]

/-- So it keeps every key, when the row of that id has the key of its
replacement. -/
theorem map_key_replace {rows : List WorkspaceState}
    (hsame : ∀ r ∈ rows, r.id = row.id → r.key = row.key) :
    (rows.map fun r => if r.id = row.id then row.bumped else r).map WorkspaceState.key =
      rows.map WorkspaceState.key := by
  rw [List.map_map]
  apply List.map_congr_left
  intro r hr
  by_cases hid : r.id = row.id
  · simp [hid, bumped_key, hsame r hr hid]
  · simp [hid]

/-! ### Preparing a push -/

variable {call : Call} {work : Work} {draw : Draw}

theorem holdsWork_preparePush {db : Database} {baseRevision : Int} {document patch : Option Json}
    (hversion : ∀ row ∈ db.states, row.revision = (row.entityVersion : Int) + 1)
    (hmethod : call.method = .push baseRevision document patch)
    (h : preparePush call draw baseRevision document patch db = .ok work) :
    HoldsWork db call work := by
  have hbase : call.baseRevision = baseRevision := by rw [Call.baseRevision, hmethod]
  have hdocument : call.document = document := by rw [Call.document, hmethod]
  unfold preparePush at h
  simp only at h
  split at h
  · cases h
  rename_i hcurrent
  cases h
  rw [not_not] at hcurrent
  cases hfound : findState db call.organizationId call.workspaceId with
  | none =>
    rw [hfound] at hcurrent
    have hzero : baseRevision = 0 := hcurrent.symm
    exact {
      method := ⟨_, _, _, hmethod⟩
      key := rfl
      changeKey := rfl
      revision := by rw [hbase, hzero]; rfl
      changeRevision := rfl
      document := by rw [hdocument]
      updatedBy := rfl
      version := by rw [hbase, hzero]; rfl
      fresh := fun _ => rfl
      origin := fun hold => by cases hold }
  | some row =>
    rw [hfound] at hcurrent
    have hcurrent : row.revision = baseRevision := hcurrent
    obtain ⟨hmem, hkey⟩ := mem_of_findState hfound
    exact {
      method := ⟨_, _, _, hmethod⟩
      key := hkey
      changeKey := hkey.symm
      revision := by rw [hbase, ← hcurrent]; rfl
      changeRevision := rfl
      document := by rw [hdocument]
      updatedBy := rfl
      version := by rw [hbase, ← hcurrent, hversion row hmem]; rfl
      fresh := fun hnew => by cases hnew
      origin := fun _ => ⟨row, hmem, rfl, rfl⟩ }

variable {member : Membership}

/-- The operations on comments prepare a comment. -/
theorem prepare_comment {db : Database}
    (hmethod : ∀ baseRevision document patch, call.method ≠ .push baseRevision document patch)
    (h : prepare call member draw db = .ok work) :
    ∃ isNew row action, work = .comment isNew row action := by
  unfold prepare at h
  split at h
  · rename_i hpush
    exact absurd hpush (hmethod _ _ _)
  · rename_i parentId body _
    unfold prepareAddComment at h
    cases htext : commentBody body with
    | error e =>
      rw [htext] at h
      cases h
    | ok text =>
      rw [htext] at h
      cases hparent : checkParent call parentId db with
      | error e =>
        simp only [hparent] at h
        cases h
      | ok _ =>
        simp only [hparent] at h
        cases h
        exact ⟨_, _, _, rfl⟩
  · rename_i commentId body _
    unfold prepareEditComment at h
    cases hcomment : findComment db call.organizationId call.workspaceId commentId with
    | error e =>
      rw [hcomment] at h
      cases h
    | ok comment =>
      simp only [hcomment, bind, Except.bind] at h
      split at h
      · cases h
      · cases htext : commentBody body with
        | error e =>
          rw [htext] at h
          cases h
        | ok text =>
          rw [htext] at h
          cases h
          exact ⟨_, _, _, rfl⟩
  · rename_i commentId resolved _
    unfold prepareResolveComment at h
    cases hcomment : findComment db call.organizationId call.workspaceId commentId with
    | error e =>
      rw [hcomment] at h
      cases h
    | ok comment =>
      rw [hcomment] at h
      cases h
      exact ⟨_, _, _, rfl⟩

theorem holdsWork_prepare {db : Database}
    (hversion : ∀ row ∈ db.states, row.revision = (row.entityVersion : Int) + 1)
    (h : prepare call member draw db = .ok work) : HoldsWork db call work := by
  by_cases hpush : ∃ baseRevision document patch, call.method = .push baseRevision document patch
  · obtain ⟨baseRevision, document, patch, hmethod⟩ := hpush
    rw [prepare, hmethod] at h
    exact holdsWork_preparePush hversion hmethod h
  · have hmethod : ∀ baseRevision document patch,
        call.method ≠ .push baseRevision document patch := by
      intro baseRevision document patch hkind
      exact hpush ⟨_, _, _, hkind⟩
    obtain ⟨isNew, row, action, rfl⟩ := prepare_comment hmethod h
    intro organizationId workspaceId
    rw [Call.pushesTo]
    cases hkind : call.method with
    | push baseRevision document patch => exact absurd hkind (hmethod _ _ _)
    | _ => rfl

/-! ### Steps -/

theorem Linear.congr (h : Linear s organizationId workspaceId)
    (hchanges : s'.db.changesOf organizationId workspaceId =
      s.db.changesOf organizationId workspaceId)
    (hpushes : s'.pushes organizationId workspaceId = s.pushes organizationId workspaceId)
    (hfind : findState s'.db organizationId workspaceId =
      findState s.db organizationId workspaceId) : Linear s' organizationId workspaceId where
  changes := by rw [hchanges, hpushes]; exact h.changes
  created := by rw [hfind, hpushes]; exact h.created
  state row hrow := by
    rw [hpushes]
    exact h.state row (hfind ▸ hrow)
  bases := by rw [hpushes]; exact h.bases

/-- One more push, based on the last revision. -/
theorem Linear.push (h : Linear s organizationId workspaceId) {call : Call}
    {change : WorkspaceChange} {row : WorkspaceState}
    (hbase : call.baseRevision = (s.pushes organizationId workspaceId).length)
    (hpushes : s'.pushes organizationId workspaceId = s.pushes organizationId workspaceId ++ [call])
    (hchanges : s'.db.changesOf organizationId workspaceId =
      s.db.changesOf organizationId workspaceId ++ [change])
    (hchange : change.revision = call.baseRevision + 1)
    (hfind : findState s'.db organizationId workspaceId = some row)
    (hrow : row.revision = call.baseRevision + 1)
    (hdocument : row.documentJson = write call.document) (hupdated : row.updatedBy = call.actor) :
    Linear s' organizationId workspaceId where
  changes := by
    rw [hchanges, hpushes, List.map_append, h.changes, List.length_append, List.length_singleton,
      revisionsTo_succ, List.map_singleton, hchange, hbase]
  created := by
    rw [hfind, hpushes]
    simp
  state found hfound := by
    rw [hfind] at hfound
    cases hfound
    rw [hpushes]
    refine ⟨?_, call, by simp, hdocument, hupdated⟩
    rw [hrow, hbase, List.length_append, List.length_singleton]
    rfl
  bases := by
    rw [hpushes, List.map_append, h.bases, List.length_append, List.length_singleton,
      revisionsTo_succ, List.map_singleton, hbase]

/-- A transaction's writes rest on rows that do not go away. -/
theorem HoldsWork.mono (h : HoldsWork db call work)
    (hkept : ∀ row ∈ db.states, ∃ row' ∈ db'.states, row'.id = row.id ∧ row'.key = row.key) :
    HoldsWork db' call work := by
  cases work with
  | comment isNew row action => exact h
  | workspace isNew state change =>
    have h : PushWork db call isNew state change := h
    refine { h with origin := fun hold => ?_ }
    obtain ⟨row, hrow, hid, hkey⟩ := h.origin hold
    obtain ⟨row', hrow', hid', hkey'⟩ := hkept row hrow
    exact ⟨row', hrow', hid'.trans hid, hkey'.trans hkey⟩

theorem Revised.quiet (h : Revised s) (hquiet : Quiet s s') : Revised s' where
  ids := by rw [hquiet.states]; exact h.ids
  keys := by rw [hquiet.states]; exact h.keys
  version := by rw [hquiet.states]; exact h.version
  linear organizationId workspaceId := by
    apply (h.linear organizationId workspaceId).congr
    · rw [Database.changesOf, hquiet.changes]
      rfl
    · rw [Server.pushes, hquiet.log]
      rfl
    · rw [findState, hquiet.states]
      rfl
  held t call work hheld := by
    apply (h.held t call work (hquiet.pending t _ hheld)).mono
    intro row hrow
    exact ⟨row, by rwa [hquiet.states], rfl, rfl⟩

variable {t : Nat}

theorem Revised.prepares (h : Revised s) (hprepares : Prepares t call work s s') : Revised s' := by
  obtain ⟨hbefore, ⟨member, draw, hresult⟩, rfl⟩ := hprepares
  refine ⟨h.ids, h.keys, h.version, fun _ _ => (h.linear _ _).congr rfl rfl rfl, ?_⟩
  intro u call' work' hheld
  rw [phase_set, Function.update_apply] at hheld
  by_cases hu : u = t
  · rw [if_pos hu] at hheld
    cases hheld
    exact holdsWork_prepare h.version hresult
  · rw [if_neg hu] at hheld
    exact h.held u call' work' hheld

/-- What the writes of a push leave in the tables. -/
structure Pushed (db db' : Database) (isNew : Bool) (state : WorkspaceState)
    (change : WorkspaceChange) : Prop where
  ids : (db'.states.map WorkspaceState.id).Nodup
  keys : (db'.states.map WorkspaceState.key).Nodup
  rows : ∀ row ∈ db'.states, row ∈ db.states ∨ row = writtenState isNew state
  kept : ∀ row ∈ db.states, ∃ row' ∈ db'.states, row'.id = row.id ∧ row'.key = row.key
  written : writtenState isNew state ∈ db'.states
  /-- Other workspaces keep their row. -/
  others : ∀ row ∈ db.states, row.key ≠ state.key → row ∈ db'.states
  changes : db'.changes = db.changes ++ [change]
  /-- The row that is replaced had the version that was read; a new row replaces
  none. -/
  before : if isNew then ∀ row ∈ db.states, row.key ≠ state.key
    else ∃ row ∈ db.states, row.key = state.key ∧ row.entityVersion = state.entityVersion

variable {change : WorkspaceChange} {state : WorkspaceState} {isNew : Bool}

theorem pushed_of_apply (hids : (db.states.map WorkspaceState.id).Nodup)
    (hkeys : (db.states.map WorkspaceState.key).Nodup) (h : PushWork db call isNew state change)
    (happly : (Work.workspace isNew state change).apply db = .ok db') :
    Pushed db db' isNew state change := by
  cases hsaved : saveState isNew state db with
  | error e =>
    rw [Work.apply, hsaved] at happly
    cases happly
  | ok saved =>
    rw [Work.apply, hsaved] at happly
    have hchange : db' = { saved with changes := saved.changes ++ [change] } := saveChange_ok happly
    subst hchange
    cases isNew with
    | true =>
      obtain ⟨hfree, rfl⟩ := saveState_new hsaved
      have hfreeId : state.id ∉ db.states.map WorkspaceState.id := by
        intro hmem
        obtain ⟨r, hr, hid⟩ := List.mem_map.mp hmem
        exact (hfree r hr).1 hid
      have hfreeKey : state.key ∉ db.states.map WorkspaceState.key := by
        intro hmem
        obtain ⟨r, hr, hkey⟩ := List.mem_map.mp hmem
        exact (hfree r hr).2 hkey
      exact {
        ids := by
          simp only [List.map_append, List.map_singleton]
          exact List.nodup_append.mpr ⟨hids, by simp, by
            intro a ha b hb
            rw [List.mem_singleton.mp hb]
            rintro rfl
            exact hfreeId ha⟩
        keys := by
          simp only [List.map_append, List.map_singleton]
          exact List.nodup_append.mpr ⟨hkeys, by simp, by
            intro a ha b hb
            rw [List.mem_singleton.mp hb]
            rintro rfl
            exact hfreeKey ha⟩
        rows := fun row hrow => by simpa [writtenState] using hrow
        kept := fun row hrow => ⟨row, List.mem_append_left _ hrow, rfl, rfl⟩
        written := by simp [writtenState]
        others := fun row hrow _ => List.mem_append_left _ hrow
        changes := rfl
        before := fun row hrow => (hfree row hrow).2 }
    | false =>
      obtain ⟨⟨old, hold, hid, hversion⟩, rfl⟩ := saveState_old hsaved
      obtain ⟨origin, horigin, hsameId, hsameKey⟩ := h.origin rfl
      have hsame (r : WorkspaceState) (hr : r ∈ db.states) (hrid : r.id = state.id) :
          r.key = state.key := by
        rw [List.inj_on_of_nodup_map hids hr horigin (hrid.trans hsameId.symm)]
        exact hsameKey
      have hkept (row : WorkspaceState) (hrow : row ∈ db.states) :
          ∃ row' ∈ db.states.map fun r => if r.id = state.id then state.bumped else r,
            row'.id = row.id ∧ row'.key = row.key := by
        refine ⟨_, List.mem_map_of_mem hrow, ?_⟩
        by_cases hrid : row.id = state.id
        · rw [if_pos hrid]
          exact ⟨hrid.symm, (hsame row hrow hrid).symm⟩
        · rw [if_neg hrid]
          exact ⟨rfl, rfl⟩
      exact {
        ids := by
          rw [map_id_replace]
          exact hids
        keys := by
          rw [map_key_replace hsame]
          exact hkeys
        rows := fun row hrow => by
          obtain ⟨r, hr, rfl⟩ := List.mem_map.mp hrow
          by_cases hrid : r.id = state.id
          · exact Or.inr (if_pos hrid)
          · rw [if_neg hrid]
            exact Or.inl hr
        kept := hkept
        written := List.mem_map.mpr ⟨old, hold, if_pos hid⟩
        others := fun row hrow hne =>
          List.mem_map.mpr ⟨row, hrow, if_neg fun hrid => hne (hsame row hrow hrid)⟩
        changes := rfl
        before := ⟨old, hold, hsame old hold hid, hversion⟩ }

theorem saveComment_tables {row : WorkspaceComment} (h : saveComment isNew row db = .ok db') :
    db'.states = db.states ∧ db'.changes = db.changes := by
  unfold saveComment at h
  split at h
  · split at h
    · cases h
    · cases h
      exact ⟨rfl, rfl⟩
  · cases h
    exact ⟨rfl, rfl⟩

/-- A commit adds its call to the pushes of its workspace, if it is a push. -/
theorem pushes_commit (s : Server) (t : Nat) (call : Call) (work : Work)
    (hlog : s'.log = s.log ++ [(t, call, work)]) :
    s'.pushes organizationId workspaceId = s.pushes organizationId workspaceId ++
      if call.pushesTo organizationId workspaceId then [call] else [] := by
  rw [Server.pushes, hlog, List.map_append, List.filter_append, List.map_singleton,
    List.filter_singleton, Bool.cond_eq_ite]
  rfl

theorem Pushed.findState_other (h : Pushed db db' isNew state change)
    (hne : (organizationId, workspaceId) ≠ state.key) :
    findState db' organizationId workspaceId = findState db organizationId workspaceId := by
  cases hfound : findState db organizationId workspaceId with
  | none =>
    rw [findState_eq_none_iff] at hfound ⊢
    intro row hrow
    rcases h.rows row hrow with hold | rfl
    · exact hfound row hold
    · rw [writtenState_key]
      exact fun hkey => hne hkey.symm
  | some row =>
    obtain ⟨hmem, hkey⟩ := mem_of_findState hfound
    apply findState_of_mem h.keys (h.others row hmem _) hkey
    rw [hkey]
    exact hne

/-- A push that commits was based on the last revision. -/
theorem Revised.base_of_pushed (h : Revised s) {db : Database}
    (hwork : PushWork s.db call isNew state change) (hpushed : Pushed s.db db isNew state change) :
    call.baseRevision = (s.pushes call.organizationId call.workspaceId).length := by
  have hlinear := h.linear call.organizationId call.workspaceId
  cases isNew with
  | true =>
    have hnone : findState s.db call.organizationId call.workspaceId = none := by
      rw [findState_eq_none_iff, ← hwork.key]
      exact hpushed.before
    rw [hlinear.created.mp hnone]
    exact hwork.version
  | false =>
    obtain ⟨row, hrow, hkey, hversion⟩ := hpushed.before
    have hfound : findState s.db call.organizationId call.workspaceId = some row :=
      findState_of_mem h.keys hrow (hkey.trans hwork.key)
    calc call.baseRevision = (state.entityVersion : Int) + 1 := hwork.version
      _ = (row.entityVersion : Int) + 1 := by rw [hversion]
      _ = row.revision := (h.version row hrow).symm
      _ = (s.pushes call.organizationId call.workspaceId).length :=
        (hlinear.state row hfound).1

theorem Revised.commits (h : Revised s) (hcommits : Commits t call work s s') : Revised s' := by
  obtain ⟨hbefore, db, happly, rfl⟩ := hcommits
  have hheld : HoldsWork s.db call work := h.held t call work (by rw [hbefore]; rfl)
  have hothers (u : Nat) (call' : Call) (work' : Work)
      (hpending : (Function.update s.phase t (.committed call work) u).pending =
        some (call', work')) : HoldsWork s.db call' work' := by
    rw [Function.update_apply] at hpending
    by_cases hu : u = t
    · rw [if_pos hu] at hpending
      cases hpending
    · rw [if_neg hu] at hpending
      exact h.held u call' work' hpending
  cases work with
  | comment isNew row action =>
    obtain ⟨hstates, hchanges⟩ : db.states = s.db.states ∧ db.changes = s.db.changes :=
      saveComment_tables happly
    have hnone (o w : String) : call.pushesTo o w = false := hheld o w
    refine ⟨by rw [hstates]; exact h.ids, by rw [hstates]; exact h.keys,
      by rw [hstates]; exact h.version, ?_, ?_⟩
    · intro o w
      apply (h.linear o w).congr
      · show db.changesOf o w = s.db.changesOf o w
        rw [Database.changesOf, hchanges]
        rfl
      · rw [pushes_commit s t call _ rfl, hnone]
        simp
      · show findState db o w = findState s.db o w
        rw [findState, hstates]
        rfl
    · intro u call' work' hpending
      apply (hothers u call' work' hpending).mono
      intro row hrow
      exact ⟨row, by rwa [hstates], rfl, rfl⟩
  | workspace isNew state change =>
    have hwork : PushWork s.db call isNew state change := hheld
    have hpushed := pushed_of_apply h.ids h.keys hwork happly
    have hbase := h.base_of_pushed hwork hpushed
    refine ⟨hpushed.ids, hpushed.keys, ?_, ?_, ?_⟩
    · intro row hrow
      rcases hpushed.rows row hrow with hold | rfl
      · exact h.version row hold
      · cases isNew with
        | true =>
          show state.revision = (state.entityVersion : Int) + 1
          rw [hwork.revision, hwork.version, hwork.fresh rfl]
          rfl
        | false =>
          show state.revision = ((state.entityVersion + 1 : Nat) : Int) + 1
          rw [hwork.revision, hwork.version]
          simp
    · intro o w
      obtain ⟨baseRevision, document, patch, hmethod⟩ := hwork.method
      have hto : call.pushesTo o w = true ↔ (o, w) = state.key := by
        rw [Call.pushesTo, hmethod, hwork.key, Bool.and_eq_true, decide_eq_true_eq,
          decide_eq_true_eq, Prod.mk.injEq, eq_comm, @eq_comm _ w]
      have hof : (decide (change.organizationId = o) && decide (change.workspaceId = w)) = true ↔
          (o, w) = state.key := by
        rw [← hwork.changeKey, Bool.and_eq_true, decide_eq_true_eq, decide_eq_true_eq,
          Prod.mk.injEq, eq_comm, @eq_comm _ w]
      by_cases hkey : (o, w) = state.key
      · obtain ⟨rfl, rfl⟩ : o = call.organizationId ∧ w = call.workspaceId := by
          simpa using hkey.trans hwork.key
        have hfind : findState db call.organizationId call.workspaceId =
            some (writtenState isNew state) :=
          findState_of_mem hpushed.keys hpushed.written
            ((writtenState_key isNew state).trans hwork.key)
        refine (h.linear _ _).push hbase ?_ ?_ (hwork.changeRevision.trans hwork.revision) hfind
          ?_ ?_ ?_
        · rw [pushes_commit s t call _ rfl, if_pos (hto.mpr hkey)]
        · rw [Database.changesOf, hpushed.changes, List.filter_append, List.filter_singleton,
            hof.mpr hkey]
          rfl
        · cases isNew <;> exact hwork.revision
        · cases isNew <;> exact hwork.document
        · cases isNew <;> exact hwork.updatedBy
      · apply (h.linear o w).congr
        · rw [Database.changesOf, hpushed.changes, List.filter_append, List.filter_singleton,
            Bool.eq_false_iff.mpr fun hc => hkey (hof.mp hc), cond_false, List.append_nil]
          rfl
        · rw [pushes_commit s t call _ rfl, if_neg fun hc => hkey (hto.mp hc), List.append_nil]
        · exact hpushed.findState_other hkey
    · intro u call' work' hpending
      exact (hothers u call' work' hpending).mono hpushed.kept

variable {action : Action}

theorem revised_step (h : Revised s) (hstep : step action s = some s') : Revised s' := by
  rcases step_cases hstep with hquiet | ⟨t, call, work, -, hprepares⟩ |
    ⟨t, call, work, -, hcommits⟩
  · exact h.quiet hquiet
  · exact h.prepares hprepares
  · exact h.commits hcommits

theorem revised_start {db : Database} (h : Unpushed db) : Revised (Server.start db) := by
  have hstates : (Server.start db).db.states = [] := h.1
  have hfind (o w : String) : findState (Server.start db).db o w = none := by
    rw [findState, hstates]
    rfl
  refine ⟨by rw [hstates]; exact List.nodup_nil, by rw [hstates]; exact List.nodup_nil, ?_, ?_, ?_⟩
  · intro row hrow
    rw [hstates] at hrow
    cases hrow
  · intro o w
    refine ⟨?_, ?_, ?_, rfl⟩
    · have hchanges : (Server.start db).db.changes = [] := h.2
      rw [Database.changesOf, hchanges]
      rfl
    · rw [hfind]
      simp [Server.pushes, Server.start]
    · intro row hrow
      rw [hfind] at hrow
      cases hrow
  · intro t call work hheld
    cases hheld

theorem revised_of_reached (h : Reached s) : Revised s := by
  obtain ⟨db, hunpushed, hfollows⟩ := h
  exact hfollows.invariant (revised_start hunpushed) fun _ _ _ hs _ hstep => revised_step hs hstep

/-! ## The log -/

/-- The log lists the committed transactions, each once. -/
structure Logged (s : Server) : Prop where
  entries : ∀ t call work, (t, call, work) ∈ s.log ↔ (s.phase t).settled = some (call, work)
  once : (s.log.map Prod.fst).Nodup

theorem logged_step (h : Logged s) (hstep : step action s = some s') : Logged s' := by
  rcases step_cases hstep with hquiet | ⟨t, call, work, -, hprepares⟩ |
    ⟨t, call, work, -, hcommits⟩
  · refine ⟨?_, by rw [hquiet.log]; exact h.once⟩
    intro t call work
    rw [hquiet.log, hquiet.settled]
    exact h.entries t call work
  · obtain ⟨hbefore, -, rfl⟩ := hprepares
    refine ⟨?_, h.once⟩
    intro u call' work'
    rw [phase_set, Function.update_apply]
    by_cases hu : u = t
    · subst hu
      rw [if_pos rfl]
      show (u, call', work') ∈ s.log ↔ _
      rw [h.entries, hbefore]
      rfl
    · rw [if_neg hu]
      exact h.entries u call' work'
  · obtain ⟨hbefore, db, -, rfl⟩ := hcommits
    have hunlogged (call' : Call) (work' : Work) : (t, call', work') ∉ s.log := by
      intro hmem
      have hsettled := (h.entries t call' work').mp hmem
      rw [hbefore] at hsettled
      cases hsettled
    constructor
    · intro u call' work'
      show (u, call', work') ∈ s.log ++ [(t, call, work)] ↔
        (Function.update s.phase t (.committed call work) u).settled = some (call', work')
      rw [Function.update_apply, List.mem_append, List.mem_singleton, Prod.mk.injEq]
      by_cases hu : u = t
      · subst hu
        rw [if_pos rfl]
        simp only [hunlogged, false_or, true_and, Phase.settled, Option.some.injEq]
        exact eq_comm
      · rw [if_neg hu]
        simpa [hu] using h.entries u call' work'
    · show ((s.log ++ [(t, call, work)]).map Prod.fst).Nodup
      rw [List.map_append, List.map_singleton]
      apply List.nodup_append.mpr
      refine ⟨h.once, by simp, ?_⟩
      intro a ha b hb
      rw [List.mem_singleton.mp hb]
      rintro rfl
      obtain ⟨⟨u, call', work'⟩, hmem, rfl⟩ := List.mem_map.mp ha
      exact hunlogged call' work' hmem

theorem logged_of_reached (h : Reached s) : Logged s := by
  obtain ⟨db, -, hfollows⟩ := h
  apply hfollows.invariant _ fun _ _ _ hs _ hstep => logged_step hs hstep
  refine ⟨?_, List.nodup_nil⟩
  intro t call work
  simp [Server.start, Phase.settled]

/-! ## The protocol -/

def Database.revisionOf (db : Database) (organizationId workspaceId : String) : Int :=
  (findState db organizationId workspaceId).elim 0 WorkspaceState.revision

theorem Linear.revisionOf (h : Linear s organizationId workspaceId) :
    s.db.revisionOf organizationId workspaceId = (s.pushes organizationId workspaceId).length := by
  rw [Database.revisionOf]
  cases hfound : findState s.db organizationId workspaceId with
  | none =>
    rw [h.created.mp hfound]
    rfl
  | some row => exact (h.state row hfound).1

/-- A push commits on top of the revision it names. -/
theorem revision_of_commit (h : Revised s)
    (hcommits : Commits t call (.workspace isNew state change) s s') :
    s.db.revisionOf call.organizationId call.workspaceId = call.baseRevision ∧
      s'.db.revisionOf call.organizationId call.workspaceId = call.baseRevision + 1 := by
  have hlinear := (h.commits hcommits).linear call.organizationId call.workspaceId
  obtain ⟨hbefore, db, happly, rfl⟩ := hcommits
  have hwork : PushWork s.db call isNew state change :=
    h.held t call (.workspace isNew state change) (by rw [hbefore]; rfl)
  have hpushed := pushed_of_apply h.ids h.keys hwork happly
  have hbase := h.base_of_pushed hwork hpushed
  obtain ⟨baseRevision, document, patch, hmethod⟩ := hwork.method
  have hto : call.pushesTo call.organizationId call.workspaceId = true := by
    rw [Call.pushesTo, hmethod]
    simp
  constructor
  · rw [(h.linear _ _).revisionOf, hbase]
  · rw [hlinear.revisionOf, pushes_commit s t call _ rfl, if_pos hto, hbase, List.length_append,
      List.length_singleton]
    rfl

/-- Has the caller been told of an error? -/
def Phase.failed : Phase → Bool
  | .aborted .. | .interrupted .. => true
  | .idle | .called _ | .authorized .. | .prepared .. | .stateFlushed .. | .returned ..
  | .committed .. | .announced .. => false

/-- No step of a call that has ended with an error has touched the tables. -/
def FailuresUnseen (s : Server) : Prop :=
  ∀ t, (s.phase t).failed = true → ∀ action before after, action.transaction = some t →
    step action before = some after → Follows step (fun _ _ => True) after s →
      after.db.states = before.db.states ∧ after.db.changes = before.db.changes

/-- Where a push is announced, no emitter of its organization has completed. -/
def Action.live (s : Server) : Action → Bool
  | .announce t =>
    match s.phase t with
    | .committed call _ => s.publishes call.organizationId
    | _ => true
  | _ => true

/-- The states of the runs in which every push is announced to live emitters. -/
def ReachedLive (s : Server) : Prop :=
  ∃ db, Unpushed db ∧ Follows step (fun s action => action.live s = true) (Server.start db) s

def Uninterrupted (s : Server) : Prop := ∀ t call work, s.phase t ≠ .interrupted call work

theorem Uninterrupted.set (h : Uninterrupted s) {phase : Phase}
    (hphase : ∀ call work, phase ≠ .interrupted call work) : Uninterrupted (s.set t phase) := by
  intro u call work
  rw [phase_set, Function.update_apply]
  split
  · exact hphase call work
  · exact h u call work

theorem Uninterrupted.proceed {α : Type} (h : Uninterrupted s) {result : ServiceResult α}
    {next : α → Server} (hnext : ∀ a, Uninterrupted (next a)) :
    Uninterrupted (s.proceed t call result next) := by
  cases result with
  | error e => exact h.set (by simp)
  | ok a => exact hnext a

theorem uninterrupted_step (hlive : action.live s = true) (h : Uninterrupted s)
    (hstep : step action s = some s') : Uninterrupted s' := by
  cases action with
  | announce t =>
    simp only [step] at hstep
    split at hstep
    · rename_i call isNew state change hphase
      cases hstep
      simp only [Action.live, hphase] at hlive
      rw [if_pos hlive]
      exact h.set (by simp)
    · cases hstep
  | publishComment t =>
    simp only [step] at hstep
    split at hstep
    · cases hstep
      exact h.set fun _ _ => by split <;> simp
    · cases hstep
  | authorize t | prepare t draw | flushState t | flushChange t | commit t =>
    simp only [step] at hstep
    split at hstep
    · cases hstep
      exact h.proceed fun _ => h.set (by simp)
    · cases hstep
  | call t call | fail t =>
    simp only [step] at hstep
    split at hstep
    · cases hstep
      exact h.set (by simp)
    · cases hstep
  | subscribe actor organizationId emitter =>
    simp only [step] at hstep
    split at hstep
    · cases hstep
      exact h
    · cases hstep
  | complete emitter | unsubscribe emitter | changeMembers memberships =>
    cases hstep
    exact h

/-- A committed transaction does not end in an abort later. -/
theorem unseen_of_aborted {error : ServiceError} (haborted : s.phase t = .aborted call error)
    {before after : Server} (htransaction : action.transaction = some t)
    (hstep : step action before = some after) (hfollows : Follows step (fun _ _ => True) after s) :
    after.db.states = before.db.states ∧ after.db.changes = before.db.changes := by
  rcases step_cases hstep with hquiet | ⟨u, call', work, -, hprepares⟩ |
    ⟨u, call', work, hu, hcommits⟩
  · exact ⟨hquiet.states, hquiet.changes⟩
  · rw [hprepares.after]
    exact ⟨rfl, rfl⟩
  · obtain rfl : u = t := by
      rw [hu] at htransaction
      simpa using htransaction
    obtain ⟨-, db, -, hafter⟩ := hcommits
    have hsettled : (after.phase u).settled = some (call', work) := by
      rw [hafter]
      simp [Phase.settled]
    have hstays := hfollows.invariant (I := fun s => (s.phase u).settled = some (call', work))
      hsettled fun _ _ _ hs _ hnext => settled_step hnext hs
    rw [haborted] at hstays
    cases hstays

def editorDatabase : Database where
  memberships := [⟨"m", "org", "ann", .editor⟩]
  states := []
  changes := []
  comments := []

def pushCall (baseRevision : Int) (document : Json) : Call :=
  ⟨"ann", "org", "ws", .push baseRevision (some document) none⟩

/-- The steps of a push that is not disturbed. -/
def pushActions (t : Nat) (draw : Draw) : List Action :=
  [.authorize t, .prepare t draw, .flushState t, .flushChange t, .commit t]

/-- Two first pushes that have both read the empty tables, and one more after them. -/
def raceActions : List Action :=
  [Action.call 0 (pushCall 0 (.num 1)), .call 1 (pushCall 0 (.num 2)), .authorize 0, .authorize 1,
    .prepare 0 ⟨"s0", "c0", "t"⟩, .prepare 1 ⟨"s1", "c1", "t"⟩, .flushState 1, .flushState 0,
    .flushChange 0, .flushChange 1, .commit 1, .commit 0, .call 2 (pushCall 1 (.num 3))] ++
    pushActions 2 ⟨"s2", "c2", "t"⟩

/-- The last push is announced to a subscriber. -/
def raceServer : Server :=
  (performAdmitted step (fun s action => action.live s = true)
    (raceActions ++ [.subscribe "ann" "org" 7, .announce 2]) (Server.start editorDatabase)).get
      (by decide +kernel)

/-- A push up to its commit, while an emitter that has completed is subscribed. -/
def closedActions : List Action :=
  [.subscribe "ann" "org" 7, .complete 7, .call 0 (pushCall 0 (.num 1))] ++
    pushActions 0 ⟨"s0", "c0", "t"⟩

def returnedServer : Server :=
  (perform step closedActions.dropLast (Server.start editorDatabase)).get (by decide +kernel)

def committedServer : Server := (step (.commit 0) returnedServer).get (by decide +kernel)

def interruptedServer : Server := (step (.announce 0) committedServer).get (by decide +kernel)

end ApiVoy.Collaboration
