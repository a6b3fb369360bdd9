/-
# Imported folders

The import of a list of requests below a collection. The path of a request is walked segment
by segment; a folder is looked up among the collections the client has loaded, else made. The
folders met so far are remembered under a text for the path that leads to them: the segments
with a slash in front of each. So the folders follow the paths as long as different paths have
different texts, and as long as the store does not trim the names of the segments.
-/

import ApiVoy.LocalStore.CollectionNames
import ApiVoy.Portable.Requests
import ApiVoy.Workbench.Envelopes
import Mathlib.Data.List.Infix

namespace ApiVoy.Workbench

open Foundation Domain LocalStore Portable

/-! ## The import -/

/-- What is drawn while one request is imported. -/
structure ImportDraws where
  requestId : String
  createdAt : Timestamp
  blobId : String
  savedAt : Timestamp
  /-- The id and the time of a collection that is made for a segment. -/
  collection : Nat → String × Timestamp

structure ImportHost where
  platform : Script.Platform
  hexSha256 : Bytes → String
  /-- The envelope that the agent reads from the text of an envelope, when it accepts it. -/
  received : ClientEnvelope → Option RequestEnvelope
  /-- The collections the client has loaded. -/
  tree : Option (List CollectionRow)
  projectId : String
  collectionId : String

/-- The walk along a path: the folder it has come to and the text for the way there, and the
folders of all texts met so far. -/
structure FolderCursor where
  parentId : String
  key : String
  paths : StringMap

def importedRequest (request : PortableRequest) : HttpWorkbenchRequest where
  id := none
  name := some request.name
  url := request.url
  method := request.method
  headers := Script.enumerate (request.headers.entries.map fun entry => (entry.1, entry.2))
  body := request.body
  bodyEncoding := none
  bodySource := none
  multipart := none
  timeoutMs := 30000
  vars := request.vars.getD ∅
  assertions := []
  auth := .null
  followRedirects := true
  retryMax := 0
  retryBackoffMs := 250
  proxy := .null
  tlsVerify := true
  tlsClientCertRef := .undefined
  environmentRef := .undefined
  preScripts := none
  postScripts := none
  metadata := none

/-- A parameter of the query; an empty one is left out, and the agent has a default for it. -/
def queryParameter (value default : String) : String := if value = "" then default else value

section Import

variable (host : ImportHost)

def saveRequestViaAgent (draws : ImportDraws) (request : HttpWorkbenchRequest)
    (collectionId : String) : StoreM Unit :=
  match host.received (toEnvelope host.platform draws.requestId draws.createdAt request) with
  | none => Fallible.fail .serde
  | some envelope => do
    let _ ← saveRequest host.hexSha256 draws.blobId draws.savedAt envelope
      (queryParameter host.projectId "default-project")
      (queryParameter collectionId "default-collection")
    pure ()

/-- The folder of a segment, among the collections the client has loaded. -/
def existingFolder (parentId segment : String) : Option String :=
  ((host.tree.getD []).find? fun item =>
    item.projectId = host.projectId && item.parentId = some parentId &&
      item.name = segment).map CollectionRow.id

/-- The folder of a segment, made when there is none. -/
def folderOf (drawn : String × Timestamp) (parentId segment : String) : StoreM String :=
  match existingFolder host parentId segment with
  | some id => pure id
  | none => do
    let created ← createCollectionInModule drawn.1 drawn.2 host.projectId none (some parentId)
      segment
    pure created.id

/-- One turn of the walk along a path. -/
def enterFolder (drawn : String × Timestamp) (cursor : FolderCursor) (segment : String) :
    StoreM FolderCursor :=
  let key := cursor.key ++ "/" ++ segment
  -- An empty id counts as none.
  match (cursor.paths.lookup key).filter (· ≠ "") with
  | some id => pure { cursor with parentId := id, key }
  | none => do
    let id ← folderOf host drawn cursor.parentId segment
    pure { parentId := id, key, paths := cursor.paths.insert key id }

/-- The walk along the segments of a path, of which `index` are behind it. -/
def enterFolders (drawn : Nat → String × Timestamp) :
    Nat → FolderCursor → List String → StoreM FolderCursor
  | _, cursor, [] => pure cursor
  | index, cursor, segment :: segments => do
    let next ← enterFolder host (drawn index) cursor segment
    enterFolders drawn (index + 1) next segments

def pathOf (imported : ImportDraws × PortableRequest) : List String :=
  imported.2.collectionPath.getD []

def importRequest (paths : StringMap) (imported : ImportDraws × PortableRequest) :
    StoreM StringMap := do
  let cursor ← enterFolders host imported.1.collection 0
    ⟨host.collectionId, host.collectionId, paths⟩ (pathOf imported)
  saveRequestViaAgent host imported.1 (importedRequest imported.2) cursor.parentId
  pure cursor.paths

def importRequests : StringMap → List (ImportDraws × PortableRequest) → StoreM StringMap
  | paths, [] => pure paths
  | paths, imported :: rest => do
    let paths ← importRequest host paths imported
    importRequests paths rest

def onImportRequests (requests : List (ImportDraws × PortableRequest)) : StoreM Unit := do
  let _ ← importRequests host ∅ requests
  pure ()

end Import

/-! ## What the folders should be -/

/-- The names of the collections from `root`, exclusively, down to a collection. -/
inductive NamesBelow (t : Table CollectionRow) (root : String) : String → List String → Prop
  | root : NamesBelow t root root []
  | child {id parent : String} {row : CollectionRow} {names : List String}
      (hrow : t.find? id = some row) (hparent : row.parentId = some parent) (hne : id ≠ root)
      (habove : NamesBelow t root parent names) : NamesBelow t root id (names ++ [row.name])

def collectionOf (s : Store) (requestId : String) : Option String :=
  (s.requests.find? requestId).map RequestRow.collectionId

/-- Two requests are in one collection exactly when they have one path, which consists of the
names above the request. -/
structure FoldersFaithful (s : Store) (root : String)
    (requests : List (ImportDraws × PortableRequest)) : Prop where
  together : ∀ a ∈ requests, ∀ b ∈ requests,
    collectionOf s a.1.requestId = collectionOf s b.1.requestId ↔ pathOf a = pathOf b
  names : ∀ a ∈ requests, ∃ id, collectionOf s a.1.requestId = some id ∧
    NamesBelow s.collections root id (pathOf a)

/-- The text a path is remembered under. -/
def folderKey (collectionId : String) (path : List String) : String :=
  path.foldl (fun key segment => key ++ "/" ++ segment) collectionId

/-- Trimming leaves the segments as they are, and different beginnings of the paths have
different texts. -/
structure PathsApart (root : String) (requests : List (ImportDraws × PortableRequest)) : Prop where
  trimmed : ∀ a ∈ requests, ∀ segment ∈ pathOf a, trim segment = segment
  keys : ∀ a ∈ requests, ∀ b ∈ requests, ∀ p q, p <+: pathOf a → q <+: pathOf b →
    folderKey root p = folderKey root q → p = q

/-- An import into a collection of a store that a run has reached. What the client has loaded is
still so, and what is drawn is an id that is not empty, another one for each request. -/
structure ImportSetting (host : ImportHost) (s : Store)
    (requests : List (ImportDraws × PortableRequest)) : Prop where
  reached : Reached host.hexSha256 s
  loaded : ∀ c ∈ host.tree.getD [], s.collections.find? c.id = some c
  target : (s.collections.find? host.collectionId).isSome = true
  noEmptyId : s.collections.find? "" = none
  received : ∀ envelope request, host.received envelope = some request → request.id = envelope.id
  drawn : ∀ a ∈ requests, ∀ index, (a.1.collection index).1 ≠ ""
  fresh : (requests.map fun a => a.1.requestId).Nodup

variable {host : ImportHost} {s s' : Store} {w w' : Scheduled Store} {root : String}
  {requests : List (ImportDraws × PortableRequest)}

/-! ## Names below a collection -/

namespace NamesBelow

variable {t t' : Table CollectionRow} {id : String} {names names' : List String}

/-- Rows that stay keep the names below the root. -/
theorem mono (h : NamesBelow t root id names)
    (hkept : ∀ k row, t.find? k = some row → t'.find? k = some row) :
    NamesBelow t' root id names := by
  induction h with
  | root => exact .root
  | child hrow hparent hne _ ih => exact .child (hkept _ _ hrow) hparent hne ih

theorem unique (h : NamesBelow t root id names) (h' : NamesBelow t root id names') :
    names = names' := by
  induction h generalizing names' with
  | root =>
    cases h' with
    | root => rfl
    | child _ _ hne _ => exact absurd rfl hne
  | child hrow hparent hne _ ih =>
    cases h' with
    | root => exact absurd rfl hne
    | child hrow' hparent' _ habove' =>
      rw [hrow] at hrow'
      cases hrow'
      rw [hparent] at hparent'
      cases hparent'
      rw [ih habove']

theorem ascends (h : NamesBelow s.collections root id names) : Ascends s.parentOf id root := by
  induction h with
  | root => exact Ascends.refl root
  | child hrow hparent _ _ ih => exact Ascends.head (by simp [Store.parentOf, hrow, hparent]) ih

theorem exists_row (h : NamesBelow t root id names) {name : String} (hname : name ∈ names) :
    ∃ row ∈ t.rows, row.name = name := by
  induction h with
  | root => cases hname
  | child hrow _ _ _ ih =>
    rcases List.mem_append.mp hname with habove | hlast
    · exact ih habove
    · exact ⟨_, Table.mem_of_find? hrow, (List.mem_singleton.mp hlast).symm⟩

end NamesBelow

/-! ## Texts of paths -/

@[simp]
theorem folderKey_nil (root : String) : folderKey root [] = root := rfl

@[simp]
theorem folderKey_append_singleton (root : String) (path : List String) (segment : String) :
    folderKey root (path ++ [segment]) = folderKey root path ++ "/" ++ segment := by
  simp [folderKey]

theorem length_folderKey (root : String) (path : List String) :
    root.length + path.length ≤ (folderKey root path).length := by
  induction path using List.reverseRecOn with
  | nil => simp
  | append_singleton path segment ih =>
    have hslash : ("/" : String).length = 1 := rfl
    simp only [folderKey_append_singleton, String.length_append, List.length_append,
      List.length_singleton, hslash]
    omega

theorem folderKey_eq_root_iff {path : List String} : folderKey root path = root ↔ path = [] := by
  constructor
  · intro h
    have hlength := length_folderKey root path
    rw [h] at hlength
    exact List.length_eq_zero_iff.mp (by omega)
  · rintro rfl
    rfl

/-! ## What the agent does to the store -/

/-- No collection is lost or changed. -/
def CollectionsKept (s s' : Store) : Prop :=
  ∀ id row, s.collections.find? id = some row → s'.collections.find? id = some row

theorem createCollectionInModule_ok {newId projectId name : String} {now : Timestamp}
    {requestedModuleId parentId : Option String} {row : CollectionRow}
    (h : (createCollectionInModule newId now projectId requestedModuleId parentId name).run w =
      (.ok row, w')) :
    row.id = newId ∧ row.name = trim name ∧ row.parentId = parentId ∧
      ∃ t, w.state.collections.insert? row = some t ∧
        w'.state = { w.state with collections := t } := by
  unfold createCollectionInModule at h
  split at h
  · cases h
  obtain ⟨u, w₁, hcheck, h⟩ := Fallible.run_bind_eq_ok_iff.mp h
  obtain ⟨next, w₂, hnext, h⟩ := Fallible.run_bind_eq_ok_iff.mp h
  obtain ⟨order, w₃, horder, h⟩ := Fallible.run_bind_eq_ok_iff.mp h
  obtain ⟨moduleId, w₄, hmodule, h⟩ := Fallible.run_bind_eq_ok_iff.mp h
  obtain ⟨n, w₅, hinsert, hdone⟩ := Fallible.run_bind_eq_ok_iff.mp h
  cases hdone
  have hstate₁ : w₁.state = w.state := by
    have hread : ReadOnly (checkParent projectId parentId) := readOnly_checkParent parentId
    have hsame := hread.state w
    rwa [hcheck] at hsame
  have hstate₃ : w₃.state = w₂.state := by
    have hread : ReadOnly (requireRow next) := Frames.requireRow next
    have hsame := hread.state w₂
    rwa [horder] at hsame
  have hstate₄ : w₄.state = w₃.state := by
    have hread : ReadOnly (moduleOfNewCollection projectId requestedModuleId parentId) :=
      readOnly_moduleOfNewCollection requestedModuleId parentId
    have hsame := hread.state w₃
    rwa [hmodule] at hsame
  have hstate : w₄.state = w.state :=
    hstate₄.trans (hstate₃.trans ((query_ok hnext).2.trans hstate₁))
  obtain ⟨t, ht, hresult, -⟩ := Sql.insertCollection_eq_some (execute_ok hinsert)
  rw [hstate] at ht hresult
  exact ⟨rfl, rfl, rfl, t, ht, hresult⟩

theorem returns_externalizeHttpBody (hexSha256 : Bytes → String) (blobId : String)
    (now : Timestamp) (envelope : RequestEnvelope) :
    Fallible.Returns (fun placed : RequestEnvelope × Option String => placed.1.id = envelope.id)
      (externalizeHttpBody hexSha256 blobId now envelope) := by
  unfold externalizeHttpBody
  cases envelope.payload.body with
  | none => exact .pure rfl
  | some body =>
    simp only
    split
    · exact .pure rfl
    · exact .bind_any _ fun blob => .pure rfl

theorem saveRequest_ok {hexSha256 : Bytes → String} {blobId projectId collectionId : String}
    {now : Timestamp} {request : RequestEnvelope} {stored : StoredRequest}
    (h : (saveRequest hexSha256 blobId now request projectId collectionId).run w =
      (.ok stored, w')) :
    w'.state.collections = w.state.collections ∧
      ∀ k, collectionOf w'.state k =
        if request.id = k then some collectionId else collectionOf w.state k := by
  have hframe := (Frames.saveRequest treeView_blobBlind (fun _ _ => rfl) hexSha256 blobId now
    request projectId collectionId).state w
  rw [h] at hframe
  refine ⟨congrArg Prod.snd hframe, fun k => ?_⟩
  have hblind : BlobBlind Store.requests := ⟨fun _ _ => rfl, fun _ _ => rfl⟩
  obtain ⟨previous, w₁, hprevious, h⟩ := Fallible.run_bind_eq_ok_iff.mp h
  obtain ⟨⟨envelope, bodyBlobId⟩, w₂, hexternalize, h⟩ := Fallible.run_bind_eq_ok_iff.mp h
  simp only at h
  cases hjson : envelope.toJson with
  | none =>
    rw [hjson] at h
    exact absurd h (fails_cleanup _ _ w₂ stored w')
  | some json =>
    rw [hjson] at h
    obtain ⟨n, w₃, hwrite, h⟩ := Fallible.run_bind_eq_ok_iff.mp h
    obtain ⟨u, w₄, hrelease, h⟩ := Fallible.run_bind_eq_ok_iff.mp h
    obtain ⟨hydrated, w₅, hhydrate, hdone⟩ := Fallible.run_bind_eq_ok_iff.mp h
    cases hdone
    have hid : envelope.id = request.id := returns_externalizeHttpBody _ _ _ _ _ _ _ hexternalize
    have hwritten := (Sql.upsertRequest_eq_some
      (execute_ok (Fallible.run_recover_ok (fun e => fails_cleanup _ e) hwrite))).2.2
    -- Nothing beside the row itself touches the requests.
    have hbefore : w₂.state.requests = w.state.requests := by
      have hkept := (Frames.externalizeHttpBody hblind hexSha256 blobId now
        request.sanitizedForPersistence).state w₁
      rw [hexternalize] at hkept
      rw [hkept, (query_ok hprevious).2]
    have hafter : w'.state.requests = w₃.state.requests := by
      have hreleased := (Frames.releaseOptional hblind previous).state w₃
      rw [hrelease] at hreleased
      have hframes : Frames Store.requests (hydrateHttpBody envelope bodyBlobId) :=
        Frames.hydrateHttpBody envelope bodyBlobId
      have hread := hframes.state w₄
      rw [hhydrate] at hread
      exact hread.trans hreleased
    rw [collectionOf, hafter, hwritten, Table.find?_upsert, hbefore, collectionOf]
    change (if envelope.id = k then _ else _ : Option RequestRow).map _ = _
    rw [hid]
    split
    · cases w.state.requests.find? k <;> rfl
    · rfl

/-! ## The walk along a path -/

/-- What the walks rely on and keep: the collections form a tree below the target, and those the
client has loaded are still there. -/
structure FolderStore (host : ImportHost) (s : Store) : Prop where
  tree : s.HasTree
  target : (s.collections.find? host.collectionId).isSome = true
  loaded : ∀ c ∈ host.tree.getD [], c.id ≠ "" ∧ s.collections.find? c.id = some c

/-- The names of a folder below the target of the import. -/
abbrev FolderAt (host : ImportHost) (s : Store) (id : String) (names : List String) : Prop :=
  NamesBelow s.collections host.collectionId id names

/-- The folder that is found or made for a segment has its name, and is in the folder it was
asked for. -/
theorem folderOf_ok {drawn : String × Timestamp} {parentId segment id : String}
    {names : List String} (hstore : FolderStore host w.state) (hdrawn : drawn.1 ≠ "")
    (htrim : trim segment = segment) (hparent : FolderAt host w.state parentId names)
    (h : (folderOf host drawn parentId segment).run w = (.ok id, w')) :
    FolderStore host w'.state ∧ CollectionsKept w.state w'.state ∧
      w'.state.requests = w.state.requests ∧ id ≠ "" ∧
      FolderAt host w'.state id (names ++ [segment]) := by
  unfold folderOf at h
  cases hexisting : existingFolder host parentId segment with
  | some found =>
    rw [hexisting] at h
    cases h
    obtain ⟨item, hitem, rfl⟩ := Option.map_eq_some_iff.mp hexisting
    have hmatches := List.find?_some hitem
    simp only [Bool.and_eq_true, decide_eq_true_eq] at hmatches
    obtain ⟨⟨-, hitemParent⟩, rfl⟩ := hmatches
    obtain ⟨hne, hrow⟩ := hstore.loaded item (List.mem_of_find?_eq_some hitem)
    refine ⟨hstore, fun _ _ hkept => hkept, rfl, hne, .child hrow hitemParent ?_ hparent⟩
    -- The target is above its parent, so it is not the folder that is found in it.
    intro hcycle
    have hlink : w.state.parentOf item.id = some parentId := by
      simp [Store.parentOf, hrow, hitemParent]
    rw [hcycle] at hlink
    exact (hstore.tree.forest _).not_ascends_parent hlink hparent.ascends
  | none =>
    rw [hexisting] at h
    obtain ⟨row, w₁, hcreate, hdone⟩ := Fallible.run_bind_eq_ok_iff.mp h
    cases hdone
    obtain ⟨hid, hname, hrowParent, t, hinsert, hstate⟩ := createCollectionInModule_ok hcreate
    have hfree : w.state.collections.find? row.id = none := (Table.insert?_eq_some_iff.mp hinsert).1
    have hkept : CollectionsKept w.state w'.state := by
      intro k old hold
      rw [hstate]
      exact Table.find?_insert_of_some hinsert hold
    have hrow : w'.state.collections.find? row.id = some row := by
      rw [hstate]
      exact (Table.find?_insert hinsert row.id).trans (if_pos rfl)
    have htree : w'.state.HasTree := by
      have hkeeps : Keeps Store.HasTree (createCollectionInModule drawn.1 drawn.2 host.projectId
          none (some parentId) segment) :=
        keeps_createCollectionInModule drawn.1 drawn.2 none (some parentId) segment
      have hkept := hkeeps w hstore.tree
      rwa [hcreate] at hkept
    obtain ⟨old, hold⟩ := Option.isSome_iff_exists.mp hstore.target
    refine ⟨⟨htree, ?_, fun c hc => ?_⟩, hkept, by rw [hstate], hid ▸ hdrawn, ?_⟩
    · rw [hkept _ _ hold]
      rfl
    · exact ⟨(hstore.loaded c hc).1, hkept _ _ (hstore.loaded c hc).2⟩
    · have hne : row.id ≠ host.collectionId := by
        rintro heq
        rw [heq, hold] at hfree
        cases hfree
      have hchild := NamesBelow.child hrow hrowParent hne (hparent.mono hkept)
      rwa [hname, htrim] at hchild

/-- The folders that are remembered: each under the text of its own names, and with it the folder
it is in. Of the names themselves something more may be known. -/
structure FolderCache (host : ImportHost) (known : List String → Prop) (s : Store)
    (paths : StringMap) : Prop where
  entry : ∀ key id, paths.lookup key = some id → id ≠ "" ∧ ∃ names, names ≠ [] ∧ known names ∧
    FolderAt host s id names ∧ folderKey host.collectionId names = key
  above : ∀ names name id, names ≠ [] →
    paths.lookup (folderKey host.collectionId (names ++ [name])) = some id →
    FolderAt host s id (names ++ [name]) →
    ∃ parent, paths.lookup (folderKey host.collectionId names) = some parent ∧
      FolderAt host s parent names

/-- A walk that has come to the folder for the segments behind it. -/
structure CursorAt (host : ImportHost) (known : List String → Prop) (s : Store)
    (cursor : FolderCursor) (walked : List String) : Prop where
  store : FolderStore host s
  cache : FolderCache host known s cursor.paths
  key : cursor.key = folderKey host.collectionId walked
  place : ∃ names, FolderAt host s cursor.parentId names ∧
    folderKey host.collectionId names = cursor.key ∧
    (names ≠ [] → known names ∧ cursor.paths.lookup cursor.key = some cursor.parentId)

/-- What is remembered stays remembered. -/
def PathsKept (paths paths' : StringMap) : Prop :=
  ∀ key id, paths.lookup key = some id → paths'.lookup key = some id

section Walk

variable {known : List String → Prop} {cursor next : FolderCursor} {paths : StringMap}

theorem FolderCache.mono (h : FolderCache host known s paths) (hkept : CollectionsKept s s') :
    FolderCache host known s' paths where
  entry key id hlookup := by
    obtain ⟨hne, names, hnames, hknown, hat, hkey⟩ := h.entry key id hlookup
    exact ⟨hne, names, hnames, hknown, hat.mono hkept, hkey⟩
  above names name id hne hlookup hat := by
    obtain ⟨-, found, -, -, hfound, -⟩ := h.entry _ id hlookup
    obtain rfl := hat.unique (hfound.mono hkept)
    obtain ⟨parent, hparent, habove⟩ := h.above names name id hne hlookup hfound
    exact ⟨parent, hparent, habove.mono hkept⟩

/-- A folder made or found below a remembered one, or below the target, can be remembered too. -/
theorem FolderCache.insert (h : FolderCache host known s paths) {names : List String}
    {name id parent : String} (hknown : known (names ++ [name])) (hid : id ≠ "")
    (hfree : paths.lookup (folderKey host.collectionId (names ++ [name])) = none)
    (hat : FolderAt host s id (names ++ [name])) (hparent : FolderAt host s parent names)
    (hlookup : names ≠ [] → paths.lookup (folderKey host.collectionId names) = some parent) :
    FolderCache host known s
      (paths.insert (folderKey host.collectionId (names ++ [name])) id) where
  entry key found hfound := by
    by_cases hkey : key = folderKey host.collectionId (names ++ [name])
    · rw [hkey, AList.lookup_insert, Option.some.injEq] at hfound
      exact ⟨hfound ▸ hid, names ++ [name], by simp, hknown, hfound ▸ hat, hkey.symm⟩
    · rw [AList.lookup_insert_ne hkey] at hfound
      exact h.entry key found hfound
  above names' name' found hne hfound hat' := by
    have hother (key : String) (value : String) (hvalue : paths.lookup key = some value) :
        (paths.insert (folderKey host.collectionId (names ++ [name])) id).lookup key =
          some value := by
      rw [AList.lookup_insert_ne]
      · exact hvalue
      · rintro rfl
        rw [hfree] at hvalue
        cases hvalue
    by_cases hkey : folderKey host.collectionId (names' ++ [name']) =
        folderKey host.collectionId (names ++ [name])
    · rw [hkey, AList.lookup_insert, Option.some.injEq] at hfound
      subst hfound
      obtain ⟨rfl, -⟩ := List.append_inj' (hat'.unique hat) rfl
      exact ⟨parent, hother _ _ (hlookup hne), hparent⟩
    · rw [AList.lookup_insert_ne hkey] at hfound
      obtain ⟨above, habove, hat''⟩ := h.above names' name' found hne hfound hat'
      exact ⟨above, hother _ _ habove, hat''⟩

/-- One turn of the walk: the next folder is a remembered one, or it is found or made in the
folder the walk has come to. -/
theorem enterFolder_ok {drawn : String × Timestamp} {segment : String} {walked : List String}
    (hcursor : CursorAt host known w.state cursor walked) (hdrawn : drawn.1 ≠ "")
    (htrim : trim segment = segment)
    (hknown : ∀ names, (names ≠ [] → known names) →
      folderKey host.collectionId names = folderKey host.collectionId walked →
      known (names ++ [segment]))
    (h : (enterFolder host drawn cursor segment).run w = (.ok next, w')) :
    CursorAt host known w'.state next (walked ++ [segment]) ∧
      CollectionsKept w.state w'.state ∧ w'.state.requests = w.state.requests ∧
      PathsKept cursor.paths next.paths ∧ next.paths.lookup next.key = some next.parentId := by
  obtain ⟨names, hat, hnames, hplace⟩ := hcursor.place
  have hkey : cursor.key ++ "/" ++ segment =
      folderKey host.collectionId (walked ++ [segment]) := by
    rw [folderKey_append_singleton, hcursor.key]
  have hkey' : cursor.key ++ "/" ++ segment = folderKey host.collectionId (names ++ [segment]) := by
    rw [folderKey_append_singleton, hnames]
  unfold enterFolder at h
  simp only at h
  cases hlookup : cursor.paths.lookup (cursor.key ++ "/" ++ segment) with
  | some id =>
    obtain ⟨hid, found, hne, hfoundKnown, hfound, hfoundKey⟩ := hcursor.cache.entry _ id hlookup
    rw [hlookup, Option.filter_some, if_pos (by simpa using hid)] at h
    cases h
    exact ⟨⟨hcursor.store, hcursor.cache, hkey,
      found, hfound, hfoundKey, fun _ => ⟨hfoundKnown, hlookup⟩⟩,
      fun _ _ hkept => hkept, rfl, fun _ _ hkept => hkept, hlookup⟩
  | none =>
    rw [hlookup] at h
    obtain ⟨id, w₁, hfolder, hdone⟩ := Fallible.run_bind_eq_ok_iff.mp h
    cases hdone
    obtain ⟨hstore, hkept, hrequests, hid, hfound⟩ :=
      folderOf_ok hcursor.store hdrawn htrim hat hfolder
    have hmember : known (names ++ [segment]) :=
      hknown names (fun hne => (hplace hne).1) (hnames.trans hcursor.key)
    rw [hkey'] at hlookup
    have hcache := (hcursor.cache.mono hkept).insert hmember hid hlookup hfound
      (hat.mono hkept) fun hne => by rw [hnames]; exact (hplace hne).2
    rw [← hkey'] at hcache
    refine ⟨⟨hstore, hcache, hkey, names ++ [segment], hfound, hkey'.symm, fun _ => ?_⟩,
      hkept, hrequests, fun key value hvalue => ?_, AList.lookup_insert _⟩
    · exact ⟨hmember, AList.lookup_insert _⟩
    · change (cursor.paths.insert _ id).lookup key = some value
      rw [AList.lookup_insert_ne]
      · exact hvalue
      · rintro rfl
        rw [← hkey', hvalue] at hlookup
        cases hlookup

/-- The folder of a path, as it is remembered. -/
def IsFolder (host : ImportHost) (paths : StringMap) (path : List String) (id : String) : Prop :=
  (path = [] ∧ id = host.collectionId) ∨
    path ≠ [] ∧ paths.lookup (folderKey host.collectionId path) = some id

theorem IsFolder.mono {paths' : StringMap} {path : List String} {id : String}
    (h : IsFolder host paths path id) (hkept : PathsKept paths paths') :
    IsFolder host paths' path id :=
  h.imp_right fun ⟨hne, hlookup⟩ => ⟨hne, hkept _ _ hlookup⟩

/-- The segments of a path are known to lead on from any folder with the right text. -/
def LeadsOn (host : ImportHost) (known : List String → Prop) (path : List String) : Prop :=
  ∀ walked segment, walked ++ [segment] <+: path → ∀ names, (names ≠ [] → known names) →
    folderKey host.collectionId names = folderKey host.collectionId walked →
    known (names ++ [segment])

theorem enterFolders_ok {drawn : Nat → String × Timestamp} {index : Nat}
    {walked segments : List String} (hcursor : CursorAt host known w.state cursor walked)
    (hfolder : IsFolder host cursor.paths walked cursor.parentId)
    (hdrawn : ∀ index, (drawn index).1 ≠ "")
    (htrim : ∀ segment ∈ segments, trim segment = segment)
    (hleads : LeadsOn host known (walked ++ segments))
    (h : (enterFolders host drawn index cursor segments).run w = (.ok next, w')) :
    FolderStore host w'.state ∧ FolderCache host known w'.state next.paths ∧
      CollectionsKept w.state w'.state ∧ w'.state.requests = w.state.requests ∧
      PathsKept cursor.paths next.paths ∧
      IsFolder host next.paths (walked ++ segments) next.parentId := by
  induction segments generalizing index cursor walked w with
  | nil =>
    cases h
    rw [List.append_nil]
    exact ⟨hcursor.store, hcursor.cache, fun _ _ hkept => hkept, rfl, fun _ _ hkept => hkept,
      hfolder⟩
  | cons segment segments ih =>
    obtain ⟨mid, w₁, hstep, hrest⟩ := Fallible.run_bind_eq_ok_iff.mp h
    have hsplit : walked ++ segment :: segments = (walked ++ [segment]) ++ segments := by simp
    have hbegins : walked ++ [segment] <+: walked ++ segment :: segments := by
      rw [hsplit]
      exact List.prefix_append _ _
    obtain ⟨hmid, hkept₁, hrequests₁, hpaths₁, hlookup⟩ := enterFolder_ok hcursor (hdrawn index)
      (htrim segment List.mem_cons_self) (hleads walked segment hbegins) hstep
    rw [hmid.key] at hlookup
    rw [hsplit] at hleads ⊢
    obtain ⟨hstore, hcache, hkept₂, hrequests₂, hpaths₂, hlast⟩ := ih hmid
      (Or.inr ⟨by simp, hlookup⟩)
      (fun other hother => htrim other (List.mem_cons_of_mem _ hother)) hleads hrest
    exact ⟨hstore, hcache, fun _ _ hrow => hkept₂ _ _ (hkept₁ _ _ hrow),
      hrequests₂.trans hrequests₁, fun _ _ hpath => hpaths₂ _ _ (hpaths₁ _ _ hpath), hlast⟩

/-! ## The import as a whole -/

/-- An imported request is in the folder of its path, and the other requests are where they
were. -/
theorem importRequest_ok {imported : ImportDraws × PortableRequest} {paths' : StringMap}
    (htarget : host.collectionId ≠ "")
    (hreceived : ∀ envelope request, host.received envelope = some request →
      request.id = envelope.id)
    (hstore : FolderStore host w.state) (hcache : FolderCache host known w.state paths)
    (hdrawn : ∀ index, (imported.1.collection index).1 ≠ "")
    (htrim : ∀ segment ∈ pathOf imported, trim segment = segment)
    (hleads : LeadsOn host known (pathOf imported))
    (h : (importRequest host paths imported).run w = (.ok paths', w')) :
    FolderStore host w'.state ∧ FolderCache host known w'.state paths' ∧
      PathsKept paths paths' ∧ ∃ id, IsFolder host paths' (pathOf imported) id ∧
        ∀ k, collectionOf w'.state k =
          if imported.1.requestId = k then some id else collectionOf w.state k := by
  obtain ⟨cursor, w₁, hwalk, h⟩ := Fallible.run_bind_eq_ok_iff.mp h
  obtain ⟨u, w₂, hsave, hdone⟩ := Fallible.run_bind_eq_ok_iff.mp h
  cases hdone
  have hstart : CursorAt host known w.state ⟨host.collectionId, host.collectionId, paths⟩ [] :=
    ⟨hstore, hcache, rfl, [], .root, rfl, fun hne => absurd rfl hne⟩
  obtain ⟨hstore₁, hcache₁, -, hrequests, hpaths, hfolder⟩ := enterFolders_ok hstart
    (Or.inl ⟨rfl, rfl⟩) hdrawn htrim hleads hwalk
  have hnonempty : cursor.parentId ≠ "" := by
    rcases hfolder with ⟨-, hroot⟩ | ⟨-, hlookup⟩
    · rwa [hroot]
    · exact (hcache₁.entry _ _ hlookup).1
  unfold saveRequestViaAgent at hsave
  cases hread : host.received (toEnvelope host.platform imported.1.requestId imported.1.createdAt
      (importedRequest imported.2)) with
  | none =>
    rw [hread] at hsave
    cases hsave
  | some envelope =>
    rw [hread] at hsave
    obtain ⟨stored, w₃, hsave, hdone⟩ := Fallible.run_bind_eq_ok_iff.mp hsave
    cases hdone
    obtain ⟨hcollections, hplaced⟩ := saveRequest_ok hsave
    have hid : envelope.id = imported.1.requestId := hreceived _ _ hread
    have hkept : CollectionsKept w₁.state w'.state := by
      intro k row hrow
      rw [hcollections]
      exact hrow
    have htree : w'.state.HasTree := by
      have hkeeps := (Frames.saveRequest treeView_blobBlind (fun _ _ => rfl) host.hexSha256
        imported.1.blobId imported.1.savedAt envelope
        (queryParameter host.projectId "default-project")
        (queryParameter cursor.parentId "default-collection")).keeps_tree w₁ hstore₁.tree
      rwa [hsave] at hkeeps
    refine ⟨⟨htree, ?_, fun c hc => ?_⟩, hcache₁.mono hkept, hpaths, cursor.parentId, hfolder,
      fun k => ?_⟩
    · rw [hcollections]
      exact hstore₁.target
    · exact ⟨(hstore₁.loaded c hc).1, hkept _ _ (hstore₁.loaded c hc).2⟩
    · rw [hplaced k, hid, queryParameter, if_neg hnonempty]
      simp only [collectionOf, hrequests]

/-- After the import every request is in the folder of its path. -/
theorem importRequests_ok {paths' : StringMap} (htarget : host.collectionId ≠ "")
    (hreceived : ∀ envelope request, host.received envelope = some request →
      request.id = envelope.id)
    (hstore : FolderStore host w.state) (hcache : FolderCache host known w.state paths)
    (hdrawn : ∀ a ∈ requests, ∀ index, (a.1.collection index).1 ≠ "")
    (hfresh : (requests.map fun a => a.1.requestId).Nodup)
    (htrim : ∀ a ∈ requests, ∀ segment ∈ pathOf a, trim segment = segment)
    (hleads : ∀ a ∈ requests, LeadsOn host known (pathOf a))
    (h : (importRequests host paths requests).run w = (.ok paths', w')) :
    FolderCache host known w'.state paths' ∧ PathsKept paths paths' ∧
      (∀ a ∈ requests, ∃ id, IsFolder host paths' (pathOf a) id ∧
        collectionOf w'.state a.1.requestId = some id) ∧
      ∀ k, (∀ a ∈ requests, a.1.requestId ≠ k) →
        collectionOf w'.state k = collectionOf w.state k := by
  induction requests generalizing paths w with
  | nil =>
    cases h
    exact ⟨hcache, fun _ _ hkept => hkept, by simp, fun _ _ => rfl⟩
  | cons imported rest ih =>
    obtain ⟨mid, w₁, hfirst, hrest⟩ := Fallible.run_bind_eq_ok_iff.mp h
    obtain ⟨hstore₁, hcache₁, hpaths₁, id, hfolder, hplaced⟩ := importRequest_ok htarget hreceived
      hstore hcache (hdrawn imported List.mem_cons_self) (htrim imported List.mem_cons_self)
      (hleads imported List.mem_cons_self) hfirst
    rw [List.map_cons, List.nodup_cons] at hfresh
    obtain ⟨hcache₂, hpaths₂, hothers, hsame⟩ := ih hstore₁ hcache₁
      (fun a ha => hdrawn a (List.mem_cons_of_mem _ ha)) hfresh.2
      (fun a ha => htrim a (List.mem_cons_of_mem _ ha))
      (fun a ha => hleads a (List.mem_cons_of_mem _ ha)) hrest
    refine ⟨hcache₂, fun _ _ hpath => hpaths₂ _ _ (hpaths₁ _ _ hpath), fun a ha => ?_,
      fun k hk => ?_⟩
    · rcases List.mem_cons.mp ha with rfl | hmem
      · refine ⟨id, hfolder.mono hpaths₂, ?_⟩
        rw [hsame, hplaced, if_pos rfl]
        intro b hb heq
        exact hfresh.1 (List.mem_map.mpr ⟨b, hb, heq⟩)
      · exact hothers a hmem
    · rw [hsame k fun a ha => hk a (List.mem_cons_of_mem _ ha), hplaced,
        if_neg (hk imported List.mem_cons_self)]

theorem FolderCache.empty : FolderCache host known s ∅ where
  entry key id h := by simp at h
  above names name id _ h := by simp at h

/-- With a folder every folder above it is remembered. -/
theorem FolderCache.beginning (h : FolderCache host known s paths) {path p : List String}
    {id : String} (hlookup : paths.lookup (folderKey host.collectionId path) = some id)
    (hat : FolderAt host s id path) (hne : p ≠ []) (hbegins : p <+: path) :
    ∃ above, paths.lookup (folderKey host.collectionId p) = some above ∧
      FolderAt host s above p := by
  induction path using List.reverseRecOn generalizing id with
  | nil => exact absurd (List.prefix_nil.mp hbegins) hne
  | append_singleton path segment ih =>
    rcases List.prefix_concat_iff.mp hbegins with rfl | hshorter
    · exact ⟨id, hlookup, hat⟩
    · have hpath : path ≠ [] := by
        rintro rfl
        exact hne (List.prefix_nil.mp hshorter)
      obtain ⟨parent, hparent, habove⟩ := h.above path segment id hpath hlookup hat
      exact ih hparent habove hshorter

end Walk

/-- An import creates collections and saves requests. -/
theorem keeps_importRequests {I : Store → Prop}
    (hcreate : ∀ newId now parentId name, Keeps I
      (createCollectionInModule newId now host.projectId none parentId name))
    (hsave : ∀ blobId now request projectId collectionId, Keeps I
      (saveRequest host.hexSha256 blobId now request projectId collectionId))
    (paths : StringMap) (requests : List (ImportDraws × PortableRequest)) :
    Keeps I (importRequests host paths requests) := by
  have hfolder (drawn : String × Timestamp) (cursor : FolderCursor) (segment : String) :
      Keeps I (enterFolder host drawn cursor segment) := by
    unfold enterFolder
    simp only
    split
    · exact .pure _
    · refine .bind ?_ fun id => .pure _
      unfold folderOf
      split
      · exact .pure _
      · exact .bind (hcreate _ _ _ _) fun created => .pure _
  have hfolders (drawn : Nat → String × Timestamp) (index : Nat) (cursor : FolderCursor)
      (segments : List String) : Keeps I (enterFolders host drawn index cursor segments) := by
    induction segments generalizing index cursor with
    | nil => exact .pure _
    | cons segment segments ih => exact .bind (hfolder _ _ _) fun next => ih _ next
  induction requests generalizing paths with
  | nil => exact .pure _
  | cons imported rest ih =>
    refine .bind (.bind (hfolders _ _ _ _) fun cursor => .bind ?_ fun _ =>
      Keeps.pure _) fun paths => ih paths
    unfold saveRequestViaAgent
    split
    · exact .fail _
    · exact (hsave _ _ _ _ _).discard

section Outcome

theorem ImportSetting.collectionId_ne (hsetting : ImportSetting host s requests) :
    host.collectionId ≠ "" := by
  intro heq
  have htarget := hsetting.target
  rw [heq, hsetting.noEmptyId] at htarget
  cases htarget

theorem ImportSetting.folderStore (hsetting : ImportSetting host s requests) :
    FolderStore host s where
  tree := hasTree_of_reached hsetting.reached
  target := hsetting.target
  loaded c hc := by
    have hrow := hsetting.loaded c hc
    refine ⟨fun heq => ?_, hrow⟩
    rw [heq, hsetting.noEmptyId] at hrow
    cases hrow

/-- After an import that succeeds the folders are faithful exactly when the paths were apart. -/
theorem foldersFaithful_iff {faults : List Bool} {u : Unit}
    (hsetting : ImportSetting host s requests)
    (h : (onImportRequests host requests).run ⟨s, faults⟩ = (.ok u, w')) :
    FoldersFaithful w'.state host.collectionId requests ↔
      PathsApart host.collectionId requests := by
  obtain ⟨paths', w₁, hrun, hdone⟩ := Fallible.run_bind_eq_ok_iff.mp h
  cases hdone
  have houtcome (known : List String → Prop)
      (htrim : ∀ a ∈ requests, ∀ segment ∈ pathOf a, trim segment = segment)
      (hleads : ∀ a ∈ requests, LeadsOn host known (pathOf a)) :=
    importRequests_ok hsetting.collectionId_ne hsetting.received hsetting.folderStore
      (FolderCache.empty : FolderCache host known s ∅) hsetting.drawn hsetting.fresh htrim hleads
      hrun
  constructor
  · intro hfaithful
    have htrimmed : w'.state.HasTrimmedNames := by
      have hkeeps : Keeps Store.HasTrimmedNames (importRequests host ∅ requests) :=
        keeps_importRequests
          (fun newId now parentId name => namesTrimmed_createCollectionInModule newId now
            host.projectId none parentId name)
          (fun blobId now request projectId collectionId => (Frames.saveRequest treeView_blobBlind
            (fun _ _ => rfl) host.hexSha256 blobId now request projectId collectionId).keeps_names)
          ∅ requests
      have hkept := hkeeps ⟨s, faults⟩ (namesTrimmed_of_reached hsetting.reached)
      rwa [hrun] at hkept
    have htrim (a : ImportDraws × PortableRequest) (ha : a ∈ requests) (segment : String)
        (hsegment : segment ∈ pathOf a) : trim segment = segment := by
      obtain ⟨id, -, hnames⟩ := hfaithful.names a ha
      obtain ⟨row, hrow, rfl⟩ := hnames.exists_row hsegment
      exact htrimmed row hrow
    obtain ⟨hcache, -, hplaced, -⟩ := houtcome (fun _ => True) htrim fun _ _ _ _ _ _ _ _ => trivial
    -- What is remembered for the beginnings of a path has their names.
    have hbeginning (a : ImportDraws × PortableRequest) (ha : a ∈ requests) (p : List String)
        (hne : p ≠ []) (hp : p <+: pathOf a) :
        ∃ id, paths'.lookup (folderKey host.collectionId p) = some id ∧
          FolderAt host w'.state id p := by
      obtain ⟨id, hfolder, hid⟩ := hplaced a ha
      obtain ⟨id', hid', hnames⟩ := hfaithful.names a ha
      rw [hid] at hid'
      cases hid'
      rcases hfolder with ⟨hnil, -⟩ | ⟨-, hlookup⟩
      · rw [hnil] at hp
        exact absurd (List.prefix_nil.mp hp) hne
      · exact hcache.beginning hlookup hnames hne hp
    refine ⟨htrim, fun a ha b hb p q hp hq hkey => ?_⟩
    by_cases hpnil : p = []
    · subst hpnil
      rw [folderKey_nil] at hkey
      exact (folderKey_eq_root_iff.mp hkey.symm).symm
    by_cases hqnil : q = []
    · subst hqnil
      rw [folderKey_nil] at hkey
      exact folderKey_eq_root_iff.mp hkey
    obtain ⟨id, hlookup, hat⟩ := hbeginning a ha p hpnil hp
    obtain ⟨id', hlookup', hat'⟩ := hbeginning b hb q hqnil hq
    rw [hkey, hlookup', Option.some.injEq] at hlookup
    subst hlookup
    exact hat.unique hat'
  · intro hapart
    have hleads (a : ImportDraws × PortableRequest) (ha : a ∈ requests) :
        LeadsOn host (fun names => ∃ b ∈ requests, names <+: pathOf b) (pathOf a) := by
      intro walked segment hbegins names hknown hkey
      have hwalked : walked <+: pathOf a := (List.prefix_append _ _).trans hbegins
      have heq : names = walked := by
        by_cases hnil : names = []
        · subst hnil
          exact (folderKey_eq_root_iff.mp hkey.symm).symm
        · obtain ⟨b, hb, hnames⟩ := hknown hnil
          exact hapart.keys b hb a ha names walked hnames hwalked hkey
      subst heq
      exact ⟨a, ha, hbegins⟩
    obtain ⟨hcache, -, hplaced, -⟩ := houtcome _ hapart.trimmed hleads
    have hnames (a : ImportDraws × PortableRequest) (ha : a ∈ requests) (id : String)
        (hfolder : IsFolder host paths' (pathOf a) id) : FolderAt host w'.state id (pathOf a) := by
      rcases hfolder with ⟨hnil, rfl⟩ | ⟨-, hlookup⟩
      · rw [hnil]
        exact .root
      · obtain ⟨-, names, -, ⟨b, hb, hbegins⟩, hat, hkey⟩ := hcache.entry _ _ hlookup
        rwa [← hapart.keys b hb a ha names (pathOf a) hbegins (List.prefix_refl _) hkey]
    refine ⟨fun a ha b hb => ?_, fun a ha => ?_⟩
    · obtain ⟨ida, hfoldera, hida⟩ := hplaced a ha
      obtain ⟨idb, hfolderb, hidb⟩ := hplaced b hb
      rw [hida, hidb, Option.some.injEq]
      constructor
      · rintro rfl
        exact (hnames a ha ida hfoldera).unique (hnames b hb ida hfolderb)
      · intro hpath
        rw [hpath] at hfoldera
        rcases hfoldera with ⟨hnil, rfl⟩ | ⟨hne, hlookup⟩
        · rcases hfolderb with ⟨-, rfl⟩ | ⟨hne, -⟩
          · rfl
          · exact absurd hnil hne
        · rcases hfolderb with ⟨hnil, -⟩ | ⟨-, hlookup'⟩
          · exact absurd hnil hne
          · rw [hlookup] at hlookup'
            exact Option.some.inj hlookup'
    · obtain ⟨id, hfolder, hid⟩ := hplaced a ha
      exact ⟨id, hid, hnames a ha id hfolder⟩

end Outcome

/-! ## An import with nested folders -/

def readPlainGet (envelope : ClientEnvelope) : Option RequestEnvelope :=
  some { RequestEnvelope.httpGet envelope.id envelope.createdAt envelope.name envelope.target with
    environmentRef := envelope.environmentRef.toOption
    retryPolicy := ⟨0, 250⟩ }

/-- An import into the first collection of a new store. -/
def freshImport : ImportHost where
  platform := .ascii
  hexSha256 := latin1
  received := readPlainGet
  tree := some (openedStore "t").collections.rows
  projectId := "default-project"
  collectionId := "default-collection"

/-- A request in some folder, with the ids that are drawn for it. -/
def importedGet (id : String) (path : List String) : ImportDraws × PortableRequest where
  fst := {
    requestId := id
    createdAt := "t"
    blobId := id ++ "-blob"
    savedAt := "t"
    collection := fun index => (id ++ "-folder" ++ toString index, "t") }
  snd := {
    name := id
    method := "GET"
    url := "https://api.example/items"
    headers := ∅
    body := none
    collectionPath := some path
    vars := none }

/-- Requests in a folder and in a folder below it. -/
def nestedImport : List (ImportDraws × PortableRequest) :=
  [importedGet "r1" ["a", "b"], importedGet "r2" ["a"], importedGet "r3" ["a", "b"]]

theorem freshImport_setting {requests : List (ImportDraws × PortableRequest)}
    (hdrawn : ∀ a ∈ requests, ∃ id path, a = importedGet id path)
    (hfresh : (requests.map fun a => a.1.requestId).Nodup) :
    ImportSetting freshImport (openedStore "t") requests where
  reached := .start ⟨"t", (initial_eq_openedStore "t").symm⟩
  loaded c hc := Table.find?_key hc
  target := by decide
  noEmptyId := by decide
  received envelope request h := by
    cases h
    rfl
  drawn a ha index := by
    obtain ⟨id, path, rfl⟩ := hdrawn a ha
    intro hempty
    have hlength := congrArg String.length hempty
    have hname : ("-folder" : String).length = 7 := rfl
    simp only [importedGet, String.length_append, String.length_empty, hname] at hlength
    omega
  fresh := hfresh

/-- The state after a run from the new store that succeeds. -/
theorem freshImport_run {requests : List (ImportDraws × PortableRequest)}
    (hok : ((onImportRequests freshImport requests).run ⟨openedStore "t", []⟩).1.isOk = true) :
    (onImportRequests freshImport requests).run ⟨openedStore "t", []⟩ =
      (.ok (), ((onImportRequests freshImport requests).run ⟨openedStore "t", []⟩).2) := by
  rcases hrun : (onImportRequests freshImport requests).run ⟨openedStore "t", []⟩ with ⟨_ | _, w⟩
  · rw [hrun] at hok
    cases hok
  · rfl

theorem nestedImport_faithful :
    FoldersFaithful ((onImportRequests freshImport nestedImport).run ⟨openedStore "t", []⟩).2.state
      "default-collection" nestedImport := by
  refine (foldersFaithful_iff
    (freshImport_setting ?_ (by decide)) (freshImport_run (by decide +kernel))).mpr ⟨?_, ?_⟩
  · simp [nestedImport]
  · decide
  · have hkeys : ∀ a ∈ nestedImport, ∀ b ∈ nestedImport, ∀ p ∈ (pathOf a).inits,
        ∀ q ∈ (pathOf b).inits,
        folderKey "default-collection" p = folderKey "default-collection" q → p = q := by
      decide
    intro a ha b hb p q hp hq
    exact hkeys a ha b hb p ((List.mem_inits _ _).mpr hp) q ((List.mem_inits _ _).mpr hq)

/-- A folder whose name has a slash in it, beside a folder in a folder. -/
def slashImport : List (ImportDraws × PortableRequest) :=
  [importedGet "r1" ["a", "b"], importedGet "r2" ["a/b"]]

/-- Both requests end up in one folder. -/
theorem slashImport_mixed :
    ¬∀ (host : ImportHost) (s : Store) (requests : List (ImportDraws × PortableRequest))
      (faults : List Bool) (w' : Scheduled Store), ImportSetting host s requests →
      (onImportRequests host requests).run ⟨s, faults⟩ = (.ok (), w') →
      FoldersFaithful w'.state host.collectionId requests := by
  intro h
  have hfaithful := h freshImport (openedStore "t") slashImport [] _
    (freshImport_setting (by simp [slashImport]) (by decide)) (freshImport_run (by decide +kernel))
  have htogether := hfaithful.together (importedGet "r1" ["a", "b"]) (by simp [slashImport])
    (importedGet "r2" ["a/b"]) (by simp [slashImport])
  exact absurd (htogether.mp (by decide +kernel)) (by decide)

end ApiVoy.Workbench
