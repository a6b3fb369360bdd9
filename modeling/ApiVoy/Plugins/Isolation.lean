/-
# One plugin among others

What the manager does with a plugin, and what it would do if the plugin were alone. Listing stops
at the first entry whose signature does not verify or whose component cannot be read, and a
plugin is looked up by the id in its manifest. So a plugin is unaffected by the entries beside
it exactly when each of them either is passed over or names another id and has no signature that
fails.
-/

import ApiVoy.Plugins.Manager

namespace ApiVoy.Plugins

open Foundation

variable {Key : Type} {host : PluginHost Key} {id : String} {files : PluginFiles}
  {before after : List Entry} {entries : List Entry} {entry : Entry}

/-! ## Entries -/

/-- A root that can be listed. -/
def readableRoot (entries : List Entry) : Root := ⟨true, none, entries⟩

/-- The root with one plugin only. -/
def aloneRoot (id : String) (files : PluginFiles) : Root := readableRoot [.directory id files]

/-- The files of a plugin are all there: they can be read, the manifest has the plugin's id, and
a signature verifies. -/
structure Intact (host : PluginHost Key) (id : String) (files : PluginFiles)
    (manifest : PluginManifest) (state : PluginState) (bytes : Bytes) : Prop where
  manifest_read : readJson host PluginManifest.codec (files .manifest) = .ok manifest
  state_read : readJson host PluginState.codec (files .state) = .ok state
  wasm_read : files .wasm = .ok bytes
  named : manifest.id = id
  signature : manifest.signatureBase64.isSome = true →
    ∃ verified, verifySignature host manifest bytes = .ok verified

/-- An entry that is passed over, or that names another id and has no signature that fails. -/
def Harmless (host : PluginHost Key) (id : String) : Entry → Prop
  | .broken _ => False
  | .file _ => True
  | .directory _ files =>
    ∀ manifest state, readJson host PluginManifest.codec (files .manifest) = .ok manifest →
      readJson host PluginState.codec (files .state) = .ok state →
      manifest.id ≠ id ∧
        (manifest.signatureBase64.isSome = true → ∃ bytes, files .wasm = .ok bytes ∧
          ∃ verified, verifySignature host manifest bytes = .ok verified)

theorem listedSignature_ok_iff {manifest : PluginManifest} {wasm : Except String Bytes} :
    (∃ verified, listedSignature host manifest wasm = .ok verified) ↔
      (manifest.signatureBase64.isSome = true → ∃ bytes, wasm = .ok bytes ∧
        ∃ verified, verifySignature host manifest bytes = .ok verified) := by
  unfold listedSignature
  cases hsigned : manifest.signatureBase64.isSome with
  | false => simp
  | true =>
    cases wasm with
    | error error => simp
    | ok bytes => simp

/-- What is listed for a directory whose manifest and state can be read. -/
theorem listEntry_of_read {name : String} {manifest : PluginManifest} {state : PluginState}
    (hmanifest : readJson host PluginManifest.codec (files .manifest) = .ok manifest)
    (hstate : readJson host PluginState.codec (files .state) = .ok state) :
    listEntry host (.directory name files) =
      (listedSignature host manifest (files .wasm)).map fun verified =>
        some ⟨manifest, state.enabled, state.sha256, verified⟩ := by
  rw [listEntry, hmanifest, hstate]

/-- An entry is harmless when it is listed without an error and under another id. -/
theorem harmless_iff :
    Harmless host id entry ↔ ∃ plugin, listEntry host entry = .ok plugin ∧
      ∀ p ∈ plugin, p.manifest.id ≠ id := by
  cases entry with
  | broken error => simp [Harmless, listEntry]
  | file name => simp [Harmless, listEntry]
  | directory name files =>
    rw [Harmless]
    cases hmanifest : readJson host PluginManifest.codec (files .manifest) with
    | error error => simp [listEntry, hmanifest]
    | ok manifest =>
      cases hstate : readJson host PluginState.codec (files .state) with
      | error error => simp [listEntry, hmanifest, hstate]
      | ok state =>
        rw [listEntry_of_read hmanifest hstate]
        constructor
        · intro h
          obtain ⟨hne, hsignature⟩ := h manifest state rfl rfl
          obtain ⟨verified, hverified⟩ := listedSignature_ok_iff.mpr hsignature
          refine ⟨some ⟨manifest, state.enabled, state.sha256, verified⟩, ?_, ?_⟩
          · rw [hverified]
            rfl
          · intro p hp
            cases hp
            exact hne
        · rintro ⟨plugin, hlisted, hne⟩ _ _ ⟨⟩ ⟨⟩
          cases hverified : listedSignature host manifest (files .wasm) with
          | error error =>
            rw [hverified] at hlisted
            cases hlisted
          | ok verified =>
            rw [hverified] at hlisted
            cases hlisted
            exact ⟨hne _ rfl, listedSignature_ok_iff.mp ⟨verified, hverified⟩⟩

/-! ## Listing -/

variable {plugins : List InstalledPlugin}

theorem listEntries_cons_ok_iff {rest : List Entry} :
    listEntries host (entry :: rest) = .ok plugins ↔
      ∃ plugin others, listEntry host entry = .ok plugin ∧ listEntries host rest = .ok others ∧
        plugins = plugin.toList ++ others := by
  rw [listEntries]
  cases listEntry host entry with
  | error error => exact ⟨fun h => (by cases h), fun ⟨_, _, h, _⟩ => (by cases h)⟩
  | ok plugin =>
    cases listEntries host rest with
    | error error => exact ⟨fun h => (by cases h), fun ⟨_, _, _, h, _⟩ => (by cases h)⟩
    | ok others =>
      constructor
      · intro h
        cases h
        exact ⟨plugin, others, rfl, rfl, rfl⟩
      · rintro ⟨_, _, ⟨⟩, ⟨⟩, rfl⟩
        rfl

theorem listEntries_append_ok_iff :
    listEntries host (before ++ after) = .ok plugins ↔
      ∃ first second, listEntries host before = .ok first ∧
        listEntries host after = .ok second ∧ plugins = first ++ second := by
  induction before generalizing plugins with
  | nil => simp [listEntries]
  | cons entry rest ih =>
    rw [List.cons_append, listEntries_cons_ok_iff]
    constructor
    · rintro ⟨plugin, others, hentry, hothers, rfl⟩
      obtain ⟨first, second, hfirst, hsecond, rfl⟩ := ih.mp hothers
      exact ⟨plugin.toList ++ first, second,
        listEntries_cons_ok_iff.mpr ⟨plugin, first, hentry, hfirst, rfl⟩, hsecond,
        (List.append_assoc _ _ _).symm⟩
    · rintro ⟨first, second, hfirst, hsecond, rfl⟩
      obtain ⟨plugin, others, hentry, hothers, rfl⟩ := listEntries_cons_ok_iff.mp hfirst
      exact ⟨plugin, others ++ second, hentry, ih.mpr ⟨others, second, hothers, hsecond, rfl⟩,
        List.append_assoc _ _ _⟩

/-- Entries are all harmless when they are listed without an error and under other ids. -/
theorem forall_harmless_iff :
    (∀ entry ∈ entries, Harmless host id entry) ↔
      ∃ plugins, listEntries host entries = .ok plugins ∧
        plugins.filter (fun plugin => plugin.manifest.id = id) = [] := by
  induction entries with
  | nil => simp [listEntries]
  | cons entry rest ih =>
    rw [List.forall_mem_cons, ih, harmless_iff]
    constructor
    · rintro ⟨⟨plugin, hentry, hne⟩, others, hothers, hnone⟩
      refine ⟨plugin.toList ++ others,
        listEntries_cons_ok_iff.mpr ⟨plugin, others, hentry, hothers, rfl⟩, ?_⟩
      rw [List.filter_append, hnone, List.append_nil, List.filter_eq_nil_iff]
      intro p hp
      simpa using hne p (Option.mem_toList.mp hp)
    · rintro ⟨plugins, hplugins, hnone⟩
      obtain ⟨plugin, others, hentry, hothers, rfl⟩ := listEntries_cons_ok_iff.mp hplugins
      rw [List.filter_append, List.append_eq_nil_iff] at hnone
      refine ⟨⟨plugin, hentry, fun p hp => ?_⟩, others, hothers, hnone.2⟩
      simpa using List.filter_eq_nil_iff.mp hnone.1 p (Option.mem_toList.mpr hp)

def listedAs (host : PluginHost Key) (root : Root) (id : String) :
    Except PluginError (List InstalledPlugin) :=
  (list host root).map fun plugins => plugins.filter fun plugin => plugin.manifest.id = id

theorem listedAs_readableRoot_ok_iff {plugin : InstalledPlugin} :
    listedAs host (readableRoot entries) id = .ok [plugin] ↔
      ∃ plugins, listEntries host entries = .ok plugins ∧
        plugins.filter (fun plugin => plugin.manifest.id = id) = [plugin] := by
  have hlist : listedAs host (readableRoot entries) id =
      ((listEntries host entries).map (List.insertionSort byName)).map fun plugins =>
        plugins.filter fun plugin => plugin.manifest.id = id := rfl
  rw [hlist]
  cases listEntries host entries with
  | error error => exact ⟨fun h => (by cases h), fun ⟨_, h, _⟩ => (by cases h)⟩
  | ok plugins =>
    have hperm := (List.perm_insertionSort byName plugins).filter
      fun plugin => decide (plugin.manifest.id = id)
    have hsorted : (((Except.ok plugins : Except PluginError _).map
        (List.insertionSort byName)).map fun plugins =>
          plugins.filter fun plugin => plugin.manifest.id = id) =
        .ok ((plugins.insertionSort byName).filter fun plugin => plugin.manifest.id = id) := rfl
    rw [hsorted]
    constructor
    · intro h
      rw [Except.ok.inj h] at hperm
      exact ⟨plugins, rfl, List.perm_singleton.mp hperm.symm⟩
    · rintro ⟨_, ⟨⟩, hfilter⟩
      rw [hfilter] at hperm
      rw [List.perm_singleton.mp hperm]

/-! ## The plugin among the others -/

/-- The same plugin, alone and among others. -/
structure Isolated (host : PluginHost Key) (root alone : Root) (id : String) : Prop where
  listed : ∃ plugins, list host root = .ok plugins ∧ ∃ plugin ∈ plugins, plugin.manifest.id = id
  entry : listedAs host root id = listedAs host alone id
  invoked : ∀ input, invoke host root id input = invoke host alone id input
  enabled : ∀ outcome enabled,
    ((setEnabled host outcome id enabled).run root).1 =
        ((setEnabled host outcome id enabled).run alone).1 ∧
      ((setEnabled host outcome id enabled).run root).2.filesOf id =
        ((setEnabled host outcome id enabled).run alone).2.filesOf id
  uninstalled : ∀ outcome,
    ((uninstall outcome id).run root).1 = ((uninstall outcome id).run alone).1 ∧
      ((uninstall outcome id).run root).2.filesOf id =
        ((uninstall outcome id).run alone).2.filesOf id

/-! ## Files by the name of their directory -/

theorem filesOf_among (hother : ∀ entry ∈ before, entry.filesOf id = none) :
    (readableRoot (before ++ .directory id files :: after)).filesOf id = some files := by
  have hbefore : before.findSome? (Entry.filesOf id) = none :=
    List.findSome?_eq_none_iff.mpr hother
  simp [Root.filesOf, readableRoot, List.findSome?_append, hbefore, Entry.filesOf]

theorem filesOf_set_self (name : String) (file : PluginFile) (content : Except String Bytes)
    (entry : Entry) :
    (entry.set name file content).filesOf name =
      (entry.filesOf name).map fun files => PluginFiles.set files file content := by
  cases entry with
  | directory other files =>
    simp only [Entry.set, Entry.filesOf]
    split <;> rfl
  | _ => rfl

theorem filesOf_leave_self (name error : String) (left : PluginFile → Bool) (entry : Entry) :
    (entry.leave name error left).filesOf name =
      (entry.filesOf name).map fun files file =>
        if left file then files file else .error error := by
  cases entry with
  | directory other files =>
    simp only [Entry.leave, Entry.filesOf]
    split <;> rfl
  | _ => rfl

/-- Changing the entries changes what is found under a name alike. -/
theorem findSome?_map_change {f : Entry → Entry} {change : PluginFiles → PluginFiles}
    {name : String} (h : ∀ entry, (f entry).filesOf name = (entry.filesOf name).map change)
    (entries : List Entry) :
    (entries.map f).findSome? (Entry.filesOf name) =
      (entries.findSome? (Entry.filesOf name)).map change := by
  induction entries with
  | nil => rfl
  | cons entry rest ih =>
    rw [List.map_cons, List.findSome?_cons, List.findSome?_cons, h entry, ih]
    cases entry.filesOf name <;> rfl

variable {root root' : Root}

/-- A write is seen under the name of the directory. -/
theorem writeFile_seen {outcome : WriteOutcome} {file : PluginFile} {bytes : Bytes}
    (h : root.filesOf id = root'.filesOf id) :
    ((writeFile outcome id file bytes).run root).1 =
        ((writeFile outcome id file bytes).run root').1 ∧
      ((writeFile outcome id file bytes).run root).2.filesOf id =
        ((writeFile outcome id file bytes).run root').2.filesOf id := by
  have hset (content : Except String Bytes) :
      (root.set id file content).filesOf id = (root'.set id file content).filesOf id := by
    simp only [Root.filesOf, Root.set,
      findSome?_map_change (filesOf_set_self id file content)]
    exact congrArg _ h
  cases outcome with
  | done => exact ⟨rfl, hset _⟩
  | refused error => exact ⟨rfl, h⟩
  | torn error written => exact ⟨rfl, hset _⟩

theorem removeDirectory_seen {outcome : RemoveOutcome} (h : root.filesOf id = root'.filesOf id) :
    ((removeDirectory outcome id).run root).1 = ((removeDirectory outcome id).run root').1 ∧
      ((removeDirectory outcome id).run root).2.filesOf id =
        ((removeDirectory outcome id).run root').2.filesOf id := by
  cases outcome with
  | done =>
    have hnone (root : Root) :
        ((removeDirectory .done id).run root).2.filesOf id = none := by
      refine List.findSome?_eq_none_iff.mpr fun entry hentry => ?_
      exact Option.isNone_iff_eq_none.mp (of_decide_eq_true (by
        simpa using (List.mem_filter.mp hentry).2))
    exact ⟨rfl, (hnone root).trans (hnone root').symm⟩
  | failed error left =>
    refine ⟨rfl, ?_⟩
    change (root.entries.map _).findSome? _ = (root'.entries.map _).findSome? _
    rw [findSome?_map_change (filesOf_leave_self id error left),
      findSome?_map_change (filesOf_leave_self id error left)]
    exact congrArg _ h

theorem pluginDirectory_seen (h : root.filesOf id = root'.filesOf id) :
    ∃ result, (pluginDirectory id).run root = (result, root) ∧
      (pluginDirectory id).run root' = (result, root') := by
  unfold pluginDirectory Fallible.run
  cases validateId id with
  | error error => exact ⟨_, rfl, rfl⟩
  | ok u =>
    simp only
    rw [← h]
    cases root.filesOf id with
    | none => exact ⟨_, rfl, rfl⟩
    | some files => exact ⟨_, rfl, rfl⟩

theorem setEnabled_seen (h : root.filesOf id = root'.filesOf id) (outcome : WriteOutcome)
    (enabled : Bool) :
    ((setEnabled host outcome id enabled).run root).1 =
        ((setEnabled host outcome id enabled).run root').1 ∧
      ((setEnabled host outcome id enabled).run root).2.filesOf id =
        ((setEnabled host outcome id enabled).run root').2.filesOf id := by
  obtain ⟨result, hroot, hroot'⟩ := pluginDirectory_seen h
  unfold setEnabled
  cases result with
  | error error =>
    rw [Fallible.run_bind_of_error hroot, Fallible.run_bind_of_error hroot']
    exact ⟨rfl, h⟩
  | ok files =>
    rw [Fallible.run_bind_of_ok hroot, Fallible.run_bind_of_ok hroot']
    cases hstate : readJson host PluginState.codec (files .state) with
    | error error =>
      have hcheck (root : Root) : (check (.error error : Except PluginError PluginState)).run
          root = (.error error, root) := rfl
      rw [Fallible.run_bind_of_error (hcheck root), Fallible.run_bind_of_error (hcheck root')]
      exact ⟨rfl, h⟩
    | ok state =>
      have hcheck (root : Root) : (check (.ok state : Except PluginError PluginState)).run
          root = (.ok state, root) := rfl
      rw [Fallible.run_bind_of_ok (hcheck root), Fallible.run_bind_of_ok (hcheck root')]
      exact writeFile_seen h

theorem uninstall_seen (h : root.filesOf id = root'.filesOf id) (outcome : RemoveOutcome) :
    ((uninstall outcome id).run root).1 = ((uninstall outcome id).run root').1 ∧
      ((uninstall outcome id).run root).2.filesOf id =
        ((uninstall outcome id).run root').2.filesOf id := by
  obtain ⟨result, hroot, hroot'⟩ := pluginDirectory_seen h
  unfold uninstall
  cases result with
  | error error =>
    rw [Fallible.run_bind_of_error hroot, Fallible.run_bind_of_error hroot']
    exact ⟨rfl, h⟩
  | ok files =>
    rw [Fallible.run_bind_of_ok hroot, Fallible.run_bind_of_ok hroot']
    exact removeDirectory_seen h

/-! ## When a plugin is unaffected -/

section Among

variable {manifest : PluginManifest} {state : PluginState} {bytes : Bytes}

theorem Intact.listed (h : Intact host id files manifest state bytes) :
    ∃ verified, listEntry host (.directory id files) =
      .ok (some ⟨manifest, state.enabled, state.sha256, verified⟩) := by
  obtain ⟨verified, hverified⟩ := listedSignature_ok_iff.mpr fun hsigned =>
    ⟨bytes, h.wasm_read, h.signature hsigned⟩
  refine ⟨verified, ?_⟩
  rw [listEntry_of_read h.manifest_read h.state_read, hverified]
  rfl

variable {plugin : InstalledPlugin}

/-- The plugin is the only one that is listed under its id exactly when the other entries are
harmless. -/
theorem listedAs_among_iff (hentry : listEntry host (.directory id files) = .ok (some plugin))
    (hnamed : plugin.manifest.id = id) :
    listedAs host (readableRoot (before ++ .directory id files :: after)) id = .ok [plugin] ↔
      ∀ entry ∈ before ++ after, Harmless host id entry := by
  rw [listedAs_readableRoot_ok_iff]
  simp only [List.mem_append, or_imp, forall_and]
  rw [forall_harmless_iff, forall_harmless_iff]
  constructor
  · rintro ⟨plugins, hplugins, hfilter⟩
    obtain ⟨first, second, hfirst, hsecond, rfl⟩ := listEntries_append_ok_iff.mp hplugins
    obtain ⟨found, others, hfound, hothers, rfl⟩ := listEntries_cons_ok_iff.mp hsecond
    rw [hentry] at hfound
    cases hfound
    have hlength := congrArg List.length hfilter
    simp only [Option.toList_some, List.filter_append, List.filter_cons, hnamed, decide_true,
      if_true, List.filter_nil, List.length_append, List.length_cons, List.length_nil] at hlength
    exact ⟨⟨first, hfirst, List.length_eq_zero_iff.mp (by omega)⟩,
      others, hothers, List.length_eq_zero_iff.mp (by omega)⟩
  · rintro ⟨⟨first, hfirst, hnoFirst⟩, second, hsecond, hnoSecond⟩
    refine ⟨first ++ (plugin :: second), listEntries_append_ok_iff.mpr
      ⟨first, plugin :: second, hfirst, listEntries_cons_ok_iff.mpr
        ⟨some plugin, second, hentry, hsecond, rfl⟩, rfl⟩, ?_⟩
    rw [List.filter_append, hnoFirst, List.filter_cons, if_pos (by simpa using hnamed), hnoSecond]
    rfl

theorem listedAs_eq_ok_iff {root : Root} {listed : List InstalledPlugin} :
    listedAs host root id = .ok listed ↔ ∃ plugins, list host root = .ok plugins ∧
      plugins.filter (fun plugin => plugin.manifest.id = id) = listed := by
  unfold listedAs
  cases list host root with
  | error error => exact ⟨fun h => (by cases h), fun ⟨_, h, _⟩ => (by cases h)⟩
  | ok plugins =>
    constructor
    · intro h
      exact ⟨plugins, rfl, Except.ok.inj h⟩
    · rintro ⟨_, ⟨⟩, rfl⟩
      rfl

/-- A plugin that is the only one of its id is found by it. -/
theorem findPlugin_of_listedAs {root : Root} (h : listedAs host root id = .ok [plugin]) :
    findPlugin host root id = .ok plugin := by
  obtain ⟨plugins, hlist, hfilter⟩ := listedAs_eq_ok_iff.mp h
  have hfind : plugins.find? (fun plugin => plugin.manifest.id = id) = some plugin := by
    rw [← List.head?_filter, hfilter]
    rfl
  unfold findPlugin
  rw [hlist]
  dsimp only [bind, Except.bind]
  rw [hfind]
  rfl

/-- What is found and read under an id is all that a call depends on. -/
theorem invoke_congr {root root' : Root} (hfind : findPlugin host root id = findPlugin host root' id)
    (hfiles : root.filesOf id = root'.filesOf id) (input : String) :
    invoke host root id input = invoke host root' id input := by
  have hread : readWasm host root id = readWasm host root' id := by
    rw [readWasm, readWasm, hfiles]
  simp only [invoke, invokeTyped, approve, hfind, hread]

theorem Intact.listedAs_alone (h : Intact host id files manifest state bytes) :
    ∃ plugin, plugin.manifest.id = id ∧
      listEntry host (.directory id files) = .ok (some plugin) ∧
      listedAs host (aloneRoot id files) id = .ok [plugin] := by
  obtain ⟨verified, hentry⟩ := h.listed
  have hlisted : listedAs host (readableRoot ([] ++ .directory id files :: [])) id = .ok [_] :=
    (listedAs_among_iff hentry h.named).mpr (by simp)
  exact ⟨_, h.named, hentry, hlisted⟩

theorem Isolated.harmless (h : Isolated host
      (readableRoot (before ++ .directory id files :: after)) (aloneRoot id files) id)
    (hintact : Intact host id files manifest state bytes) :
    ∀ entry ∈ before ++ after, Harmless host id entry := by
  obtain ⟨plugin, hnamed, hentry, halone⟩ := hintact.listedAs_alone
  exact (listedAs_among_iff hentry hnamed).mp (h.entry.trans halone)

/-- A plugin with intact files is unaffected by the entries beside it exactly when they are
harmless. -/
theorem isolated_iff (hintact : Intact host id files manifest state bytes)
    (hother : ∀ entry ∈ before ++ after, entry.filesOf id = none) :
    Isolated host (readableRoot (before ++ .directory id files :: after)) (aloneRoot id files) id ↔
      ∀ entry ∈ before ++ after, Harmless host id entry := by
  constructor
  · intro h
    exact h.harmless hintact
  · intro hharmless
    obtain ⟨plugin, hnamed, hentry, halone⟩ := hintact.listedAs_alone
    have hlisted := (listedAs_among_iff hentry hnamed).mpr hharmless
    have hfiles : (readableRoot (before ++ .directory id files :: after)).filesOf id =
        (aloneRoot id files).filesOf id := by
      rw [filesOf_among fun entry hmem => hother entry (List.mem_append_left _ hmem)]
      have halone : (readableRoot ([] ++ .directory id files :: [])).filesOf id = some files :=
        filesOf_among (by simp)
      exact halone.symm
    have hfind := (findPlugin_of_listedAs hlisted).trans (findPlugin_of_listedAs halone).symm
    refine ⟨?_, hlisted.trans halone.symm, invoke_congr hfind hfiles, setEnabled_seen hfiles,
      uninstall_seen hfiles⟩
    obtain ⟨plugins, hlist, hfilter⟩ := listedAs_eq_ok_iff.mp hlisted
    refine ⟨plugins, hlist, plugin, ?_, hnamed⟩
    have hmem : plugin ∈ plugins.filter fun plugin => plugin.manifest.id = id := by
      rw [hfilter]
      exact List.mem_singleton_self _
    exact List.mem_of_mem_filter hmem

end Among

/-! ## A small root -/

def emptyComponent : Bytes := [0x00, 0x61, 0x73, 0x6D, 0x0D, 0x00, 0x01, 0x00]

/-- A component with a section of its own and nothing in it. -/
def namedComponent : Bytes := emptyComponent ++ [0x00, 0x02, 0x01, 0x61]

/-- The digests of these two components; other bytes are only told apart from them. -/
def smallDigest (bytes : Bytes) : Digest :=
  if bytes = emptyComponent then
    ⟨[0x24, 0xEA, 0xF3, 0x43, 0x9A, 0x60, 0xC9, 0x67, 0x64, 0xC4, 0xF2,
      0xC9, 0x2A, 0x0A, 0x81, 0xB5, 0x2B, 0xD4, 0xFE, 0x5D, 0x5B, 0x91,
      0xF0, 0x90, 0x18, 0x4A, 0x0F, 0x64, 0x86, 0xB1, 0xBF, 0x29], rfl⟩
  else if bytes = namedComponent then
    ⟨[0x81, 0x36, 0x53, 0x0E, 0xD2, 0x93, 0x13, 0xBA, 0x89, 0x6A, 0x55,
      0xD7, 0x27, 0xEE, 0xF1, 0xE5, 0x93, 0x99, 0xD9, 0xB0, 0x6D, 0xA9,
      0xA0, 0xE7, 0x16, 0x54, 0xA8, 0xC4, 0x0A, 0x18, 0x60, 0xB4], rfl⟩
  else ⟨List.replicate 32 0, rfl⟩

/-- A host that trusts no key and accepts plugins without a signature. -/
def smallHost : PluginHost Unit where
  json := .utf8
  jsonError _ := "invalid JSON"
  digest := smallDigest
  component _ := .ok ()
  call _ exportName _ := .error ("missing export " ++ exportName)
  granted _ := false
  trustedKeys _ := none
  checkSignature _ _ _ := .error "signature error"
  allowUnsigned := true
  elsewhere _ := .error "No such file or directory"

def smallManifest (id : String) (key signature : Option String) : PluginManifest where
  id := id
  name := "Example"
  version := "1.0.0"
  kind := .transformer
  permissions := []
  description := ""
  publisherKeyId := key
  signatureBase64 := signature

def smallState : PluginState where
  enabled := true
  sha256 := hexDigest (smallDigest emptyComponent)

/-- The files as an installation leaves them. -/
def installedFiles (manifest : PluginManifest) (state : PluginState) (bytes : Bytes) : PluginFiles
  | .wasm => .ok bytes
  | .manifest => .ok (prettyBytes (PluginManifest.codec.write manifest))
  | .state => .ok (prettyBytes (PluginState.codec.write state))

theorem intact_small (id : String) :
    Intact smallHost id
      (installedFiles (smallManifest id none none) smallState emptyComponent)
      (smallManifest id none none) smallState emptyComponent where
  manifest_read := readJson_written (writable_manifest _)
  state_read := readJson_written (writable_state _)
  wasm_read := rfl
  named := rfl
  signature h := by cases h

/-- A file, and a directory that lost its files. -/
def brokenEntries : List Entry :=
  [.file "README.md", .directory "broken" fun _ => .error "No such file or directory"]

/-- Another plugin. -/
def otherEntry : Entry :=
  .directory "other" (installedFiles (smallManifest "other" none none) smallState emptyComponent)

/-- Beside a broken directory and another plugin a plugin is unaffected. -/
theorem isolated_beside_file :
    Isolated smallHost
      (readableRoot (brokenEntries ++ .directory "example"
        (installedFiles (smallManifest "example" none none) smallState emptyComponent) ::
          [otherEntry]))
      (aloneRoot "example"
        (installedFiles (smallManifest "example" none none) smallState emptyComponent))
      "example" := by
  refine (isolated_iff (intact_small "example") ?_).mpr ?_
  · simp [brokenEntries, otherEntry, Entry.filesOf]
  · simp only [brokenEntries, List.cons_append, List.nil_append, List.forall_mem_cons]
    refine ⟨trivial, ?_, ?_, fun _ hentry => absurd hentry List.not_mem_nil⟩
    · intro manifest state hmanifest
      cases hmanifest
    · intro manifest state hmanifest _
      cases hmanifest.symm.trans (readJson_written (writable_manifest _))
      exact ⟨by decide, fun hsigned => by cases hsigned⟩

/-- A plugin whose publisher is not trusted. -/
def untrustedEntry : Entry :=
  .directory "signed" (installedFiles (smallManifest "signed" (some "official") (some "AA=="))
    smallState emptyComponent)

/-- Beside a plugin whose signature fails, another one is affected. -/
theorem untrusted_entry_affects :
    ¬∀ (host : PluginHost Unit) (id : String) (files : PluginFiles) (before after : List Entry)
      (manifest : PluginManifest) (state : PluginState) (bytes : Bytes),
      Intact host id files manifest state bytes →
      (∀ entry ∈ before ++ after, entry.filesOf id = none) →
      Isolated host (readableRoot (before ++ .directory id files :: after))
        (aloneRoot id files) id := by
  intro h
  have hisolated := h smallHost "example" _ [untrustedEntry] [] _ _ _ (intact_small "example")
    (by simp [untrustedEntry, Entry.filesOf])
  have hharmless : Harmless smallHost "example" untrustedEntry :=
    hisolated.harmless (intact_small "example") untrustedEntry (by simp)
  obtain ⟨-, hsignature⟩ := hharmless _ _ (readJson_written (writable_manifest _))
    (readJson_written (writable_state _))
  obtain ⟨bytes, -, verified, hverified⟩ := hsignature rfl
  cases hverified

end ApiVoy.Plugins
