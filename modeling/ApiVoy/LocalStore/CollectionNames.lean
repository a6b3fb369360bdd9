/-
# The names of collections

A collection gets its name when it is made and when it is updated, and both trim it. So in
every state of every run the names of the collections have no white space at their ends.
-/

import ApiVoy.LocalStore.CollectionForest

namespace ApiVoy.LocalStore

open Foundation Domain

variable {s : Store}

/-- Every name is what trimming leaves of it. -/
def NamesTrimmed (t : Table CollectionRow) : Prop := ∀ c ∈ t.rows, trim c.name = c.name

def Store.HasTrimmedNames (s : Store) : Prop := NamesTrimmed s.collections

namespace NamesTrimmed

variable {t t' : Table CollectionRow}

theorem filter (h : NamesTrimmed t) (p : CollectionRow → Bool) : NamesTrimmed (t.filter p) :=
  fun c hc => h c (Table.mem_filter.mp hc).1

theorem updateWhere (h : NamesTrimmed t) (p : CollectionRow → Bool)
    (f : CollectionRow → CollectionRow) (hkey : ∀ c, (f c).id = c.id)
    (hname : ∀ c ∈ t.rows, trim (f c).name = (f c).name) :
    NamesTrimmed (t.updateWhere p f hkey) := by
  intro c hc
  obtain ⟨old, hold, rfl⟩ := Table.mem_updateWhere.mp hc
  split
  · exact hname old hold
  · exact h old hold

theorem insert (h : NamesTrimmed t) {row : CollectionRow} (hrow : trim row.name = row.name)
    (hinsert : t.insert? row = some t') : NamesTrimmed t' := by
  intro c hc
  rw [(Table.insert?_eq_some_iff.mp hinsert).2] at hc
  rcases List.mem_append.mp hc with hold | hnew
  · exact h c hold
  · rw [List.mem_singleton.mp hnew]
    exact hrow

end NamesTrimmed

variable {f : CollectionRow → CollectionRow}

theorem hasTrimmedNames_updateWhere {p : CollectionRow → Bool} {hkey : ∀ c, (f c).id = c.id}
    (hname : ∀ c ∈ s.collections.rows, trim (f c).name = (f c).name) (h : s.HasTrimmedNames) :
    Store.HasTrimmedNames { s with collections := s.collections.updateWhere p f hkey } :=
  NamesTrimmed.updateWhere h p f hkey hname

theorem hasTrimmedNames_update {id : String} {hkey : ∀ c, (f c).id = c.id}
    (hname : ∀ c ∈ s.collections.rows, trim (f c).name = (f c).name) (h : s.HasTrimmedNames) :
    Store.HasTrimmedNames { s with collections := s.collections.update id f hkey } :=
  NamesTrimmed.updateWhere h _ f hkey hname

theorem Frames.keeps_names {α : Type} {m : StoreM α} (h : Frames treeView m) :
    Keeps Store.HasTrimmedNames m :=
  h.keeps fun shown => NamesTrimmed shown.2

theorem namesTrimmed_createCollectionInModule (newId : String) (now : Timestamp)
    (projectId : String) (requestedModuleId parentId : Option String) (name : String) :
    Keeps Store.HasTrimmedNames
      (createCollectionInModule newId now projectId requestedModuleId parentId name) := by
  refine keeps_of_keepsFrom fun s => .createCollectionInModule ?_
  intro moduleId sortOrder s' n _ _ hs hinsert
  obtain ⟨t, ht, rfl, -⟩ := Sql.insertCollection_eq_some hinsert
  refine NamesTrimmed.insert hs ?_ ht
  exact trim_trim name

theorem namesTrimmed_updateCollection (id name : String) (parentId : Option String)
    (sortOrder : Int) : Keeps Store.HasTrimmedNames (updateCollection id name parentId sortOrder) := by
  intro w hw
  rw [run_updateCollection]
  refine (KeepsFrom.updateCollectionWithin ?_) hw w.faults
  intro source sourceModuleId targetModuleId moved n s' _ _ _ hs hupdate hrest
  have hmoved : moved.HasTrimmedNames := by
    obtain ⟨-, rfl, -⟩ := Sql.updateCollection_eq_some hupdate
    exact hasTrimmedNames_update (fun _ _ => trim_trim name) hs
  rcases hrest with ⟨-, rfl⟩ | ⟨-, ids, -, rfl⟩
  · exact hmoved
  · exact hasTrimmedNames_updateWhere hmoved hmoved

theorem namesTrimmed_updateCollectionTags (id : String) (tags : List String) :
    Keeps Store.HasTrimmedNames (updateCollectionTags id tags) := by
  refine Keeps.bind (Keeps.execute_some (fun _ => rfl) fun s hs => ?_) fun changed =>
    (Frames.changedOrNotFound _ _).keeps_names
  exact hasTrimmedNames_update hs hs

/-- Every operation keeps the names trimmed. -/
theorem namesTrimmed_program (hexSha256 : Bytes → String) (op : Op) :
    Keeps Store.HasTrimmedNames (op.program hexSha256) := by
  have hblobs : KeepsBlobs hexSha256 Store.HasTrimmedNames :=
    treeView_blobBlind.keepsBlobs hexSha256 fun shown => NamesTrimmed shown.2
  have hdrop (doomed : CollectionRow → Bool) (s : Store) (hs : s.HasTrimmedNames) :
      (Sql.dropCollections doomed s).HasTrimmedNames :=
    NamesTrimmed.filter hs _
  cases op with
  | deleteWorkspace id =>
    exact hblobs.deleteWorkspace id (fun _ s hs => hdrop _ s hs) fun _ _ hs => hs
  | deleteProject id => exact hblobs.deleteProject id fun s hs => hdrop _ s hs
  | createCollectionInModule id now projectId requestedModuleId parentId name =>
    exact (namesTrimmed_createCollectionInModule id now projectId requestedModuleId parentId
      name).discard
  | updateCollection id name parentId sortOrder =>
    exact namesTrimmed_updateCollection id name parentId sortOrder
  | updateCollectionTags id tags => exact namesTrimmed_updateCollectionTags id tags
  | deleteCollection id => exact hblobs.deleteCollection id fun s hs => hdrop _ s hs
  | _ => exact (frames_treeView hexSha256 _ rfl).keeps_names

/-- In every state a run reaches, the names of the collections are trimmed. -/
theorem namesTrimmed_of_reached {hexSha256 : Bytes → String} (h : Reached hexSha256 s) :
    s.HasTrimmedNames := by
  refine Fallible.Reachable.invariant ?_ ?_ h
  · rintro s ⟨now, rfl⟩
    rw [initial_eq_openedStore]
    intro c hc
    rw [List.mem_singleton.mp hc]
    change trim "Default Collection" = "Default Collection"
    decide
  · intro s op faults hs _
    exact (namesTrimmed_program hexSha256 op).state hs faults

end ApiVoy.LocalStore
