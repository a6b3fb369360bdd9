/-
# What a failed operation leaves

An operation that is one statement, or one transaction, takes place as a whole or not at all. What
may still fail behind the statement is the check that it has found its row, and a statement that
has found none has changed none.
-/

import ApiVoy.LocalStore.CollectionForest

namespace ApiVoy.LocalStore

open Foundation Domain

/-- A failed transaction is rolled back. -/
theorem traceless_transaction {α : Type} (body : StoreM α) : Traceless (fun s => s) (transaction body) := by
  refine .bind (Frames.query _) fun _ w e w' hrun => ?_
  rw [run_restoring] at hrun
  split at hrun <;> cases hrun
  rfl

/-- A statement that changes the row of a key, and the check that there is one. -/
theorem traceless_update {ρ : Type} [Keyed ρ] (table : Store → Table ρ) {id : String}
    {statement : Store → Option (Store × Nat)}
    (h : ∀ s s' n, statement s = some (s', n) →
      n = Sql.changedAt (table s) id ∧ ((table s).find? id = none → s' = s)) :
    Traceless (fun s => s) (do
      let changed ← execute statement
      changedOrNotFound id changed) := by
  intro w e w' hrun
  rcases Fallible.run_bind_eq_error_iff.mp hrun with herror | ⟨n, w₁, hok, hrest⟩
  · exact execute_error herror
  · obtain ⟨hn, hstate⟩ := h _ _ _ (execute_ok hok)
    rw [changedOrNotFound] at hrest
    split at hrest
    · rename_i hzero
      cases hrest
      exact hstate (by simpa [Sql.changedAt] using hn.symm.trans hzero)
    · cases hrest

/-- The operations of one statement or one transaction. -/
def Op.isSingle : Op → Bool
  | .deleteWorkspace .. | .createProject .. | .deleteProject .. | .deleteCollection ..
  | .saveRequest .. | .deleteRequest .. | .putBlob .. | .recordExecution ..
  | .recordWithResponse .. | .deleteApiDefinition .. => false
  | _ => true

theorem traceless_program (hexSha256 : Bytes → String) (op : Op) (h : op.isSingle = true) :
    Traceless (fun s => s) (op.program hexSha256) := by
  have hfail {β : Type} (e : StoreError) : Traceless (fun s => s) (Fallible.fail e : StoreM β) :=
    .of_frames (Frames.fail e)
  have hguarded {β : Type} {c : Prop} [Decidable c] (e : StoreError) {m : StoreM β}
      (hm : Traceless (fun s => s) m) :
      Traceless (fun s => s) (if c then Fallible.fail e else m) := by
    split
    · exact hfail e
    · exact hm
  have hstatement {β : Type} (statement : Store → Option (Store × Nat)) (b : β) :
      Traceless (fun s => s) (do let _ ← execute statement; pure b) :=
    (Traceless.execute statement).bind_pure _
  have hworkspace (id : String) (f : WorkspaceRow → WorkspaceRow)
      (hf : ∀ row, (f row).id = row.id) : Traceless (fun s => s) (do
        let changed ← execute (Sql.updateWorkspace id f hf)
        changedOrNotFound id changed) := by
    refine traceless_update Store.workspaces fun s s' n h => ?_
    cases h
    exact ⟨rfl, fun habsent => by rw [Table.update_of_absent habsent]⟩
  cases op with
  | saveWorkspace | saveEnvironment | saveScript | deleteScript | saveApiDefinition
  | bindRequestDefinition | unbindRequestDefinition => exact hstatement _ _
  | deleteEnvironment => exact hguarded _ (hstatement _ _)
  | createWorkspace => exact .bind_pure (hguarded _ ((hstatement _ _).bind_pure _)) _
  | createModule => exact .bind_pure (hguarded _ (hstatement _ _)) _
  | renameWorkspace | archiveWorkspace => exact hguarded _ (hworkspace _ _ _)
  | touchWorkspace => exact hworkspace _ _ _
  | renameProject =>
    refine hguarded _ (traceless_update Store.projects fun s s' n h => ?_)
    cases h
    exact ⟨rfl, fun habsent => by rw [Table.update_of_absent habsent]⟩
  | updateCollectionTags =>
    refine traceless_update Store.collections fun s s' n h => ?_
    cases h
    exact ⟨rfl, fun habsent => by rw [Table.update_of_absent habsent]⟩
  | moveRequest =>
    refine .bind (Frames.query _) fun _ => hguarded _ (traceless_update Store.requests ?_)
    intro s s' n h
    unfold Sql.moveRequest at h
    split at h <;> cases h
    exact ⟨rfl, fun habsent => by rw [Table.update_of_absent habsent]⟩
  | createCollectionInModule =>
    exact .bind_pure (hguarded _ (.bind (readOnly_checkParent _) fun _ =>
      .bind (Frames.query _) fun _ => .bind (Frames.requireRow _) fun _ =>
      .bind (readOnly_moduleOfNewCollection _ _) fun _ => hstatement _ _)) _
  | updateCollection id name parentId sortOrder =>
    have hwithin (fuel : Nat) : Traceless (fun s => s)
        (updateCollectionWithin fuel id name parentId sortOrder) := by
      refine hguarded _ (.bind (Frames.query _) fun source => ?_)
      cases source with
      | none => exact hfail _
      | some row =>
        simp only
        split
        · exact hfail _
        · exact .bind (readOnly_targetModule _ _ _) fun _ => traceless_transaction _
    intro w e w' hrun
    exact hwithin _ w e w' ((run_updateCollection name parentId sortOrder w).symm.trans hrun)
  | _ => cases h

/-- Whatever fails on the way, a failed operation of these leaves the store as it was. -/
theorem failed_operation_leaves (hexSha256 : Bytes → String) (op : Op) (h : op.isSingle = true)
    (s s' : Store) (faults rest : List Bool) (e : StoreError)
    (hrun : (op.program hexSha256).run ⟨s, faults⟩ = (.error e, ⟨s', rest⟩)) : s' = s :=
  traceless_program hexSha256 op h _ _ _ hrun

/-- A transaction that fails when it is committed. -/
theorem failed_operation_leaves_struck :
    ∃ s' rest e, ((Op.updateCollection "default-collection" "renamed" none 0).program
        fun _ => "").run ⟨openedStore "now", [false, false, false, true]⟩ =
          (.error e, ⟨s', rest⟩) ∧ s' = openedStore "now" :=
  ⟨_, _, _, rfl, failed_operation_leaves (fun _ => "")
    (.updateCollection "default-collection" "renamed" none 0) rfl (openedStore "now") _
    [false, false, false, true] _ _ rfl⟩

end ApiVoy.LocalStore
