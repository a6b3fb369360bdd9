/-
# Upgrades

An installation over a plugin that is there writes three files in place, and it enables the
plugin. What a failed installation leaves is the version before it exactly when nothing has been
written, or what has been written of the component would have passed as the old one and the
manifest is the old one. No installation that succeeds keeps a plugin disabled.
-/

import ApiVoy.Plugins.Integrity

namespace ApiVoy.Plugins

open Foundation

variable {Key : Type} {host : PluginHost Key} {id : String} {files : PluginFiles}
  {before after : List Entry} {root : Root} {log : List PluginEvent} {old : InstalledPlugin}

/-! ## Versions -/

/-- The bytes pass as the component of a plugin. -/
structure Usable (host : PluginHost Key) (plugin : InstalledPlugin) (bytes : Bytes) : Prop where
  digest : hexDigest (host.digest bytes) = plugin.sha256
  signature : ∃ verified, verifySignature host plugin.manifest bytes = .ok verified
  component : host.component bytes = .ok ()

/-- A plugin is listed, and its component is instantiated when it is enabled. -/
structure Installed (host : PluginHost Key) (root : Root) (plugin : InstalledPlugin) : Prop where
  listed : findPlugin host root plugin.manifest.id = .ok plugin
  usable : ∃ bytes, readWasm host root plugin.manifest.id = .ok bytes ∧ Usable host plugin bytes

/-- A failed installation leaves the version before it, and none enables a disabled plugin. -/
structure Atomic (host : PluginHost Key) (root : Root) (old : InstalledPlugin)
    (outcomes : InstallOutcomes) (manifest : PluginManifest) (bytes : Bytes) : Prop where
  kept : ∀ error root', (install host outcomes manifest bytes).run root = (.error error, root') →
    Installed host root' old
  flag : ∀ plugin root', (install host outcomes manifest bytes).run root = (.ok plugin, root') →
    old.enabled = false →
      ∀ listed, findPlugin host root' old.manifest.id = .ok listed → listed.enabled = false

/-- The checks of an installation. -/
structure Accepted (host : PluginHost Key) (manifest : PluginManifest) (bytes : Bytes) : Prop where
  valid : validateManifest manifest = .ok ()
  permitted : checkPermissions host manifest.permissions = .ok ()
  component : host.component bytes = .ok ()
  signature : ∃ verified, verifySignature host manifest bytes = .ok verified

/-- When the writes of an installation leave the version before it, or keep it enabled. -/
def KeepsVersion (host : PluginHost Key) (old : InstalledPlugin) (outcomes : InstallOutcomes)
    (manifest : PluginManifest) (bytes : Bytes) : Prop :=
  match outcomes.wasm, outcomes.manifest, outcomes.state with
  | .refused _, _, _ => True
  | .torn _ written, _, _ => Usable host old (bytes.take (min written (bytes.length - 1)))
  | .done, .refused _, _ => Usable host old bytes
  | .done, .torn _ _, _ => False
  | .done, .done, .refused _ => manifest = old.manifest ∧ Usable host old bytes
  | .done, .done, .torn _ _ => False
  | .done, .done, .done => old.enabled = true

/-! ## What is listed for a directory -/

variable {verified : Bool}

theorem verified_eq_isSome {manifest : PluginManifest} {bytes : Bytes}
    (h : verifySignature host manifest bytes = .ok verified) :
    verified = manifest.signatureBase64.isSome := by
  unfold verifySignature at h
  split at h
  · next _ hsignature =>
      split at h
      · cases h
        rw [hsignature]
        rfl
      · cases h
  · next _ hsignature =>
      split at h
      · cases h
      · split at h
        · cases h
        · cases h
          rw [hsignature]
          rfl
  · cases h

variable {plugin : InstalledPlugin}

theorem listEntry_eq_some_iff {name : String} :
    listEntry host (.directory name files) = .ok (some plugin) ↔
      readJson host PluginManifest.codec (files .manifest) = .ok plugin.manifest ∧
      readJson host PluginState.codec (files .state) = .ok ⟨plugin.enabled, plugin.sha256⟩ ∧
      listedSignature host plugin.manifest (files .wasm) = .ok plugin.signatureVerified := by
  constructor
  · intro h
    obtain ⟨_, _, state, heq, hmanifest, hstate, henabled, hsha⟩ := listEntry_eq_some h
    cases heq
    rw [listEntry_of_read hmanifest hstate] at h
    refine ⟨hmanifest, by rw [hstate, henabled, hsha], ?_⟩
    cases hverified : listedSignature host plugin.manifest (files .wasm) with
    | error error =>
      rw [hverified] at h
      cases h
    | ok verified =>
      rw [hverified] at h
      have hplugin := Option.some.inj (Except.ok.inj h)
      rw [← hplugin]
  · rintro ⟨hmanifest, hstate, hverified⟩
    rw [listEntry_of_read hmanifest hstate, hverified]
    rfl

/-- What is listed of a signature that verifies, for whatever component. -/
theorem listedSignature_of_verified {manifest : PluginManifest} {bytes : Bytes}
    (h : verifySignature host manifest bytes = .ok verified) :
    listedSignature host manifest (.ok bytes) = .ok manifest.signatureBase64.isSome := by
  rw [listedSignature]
  cases hsigned : manifest.signatureBase64.isSome with
  | false => rfl
  | true =>
    rw [if_pos rfl, h, verified_eq_isSome h, hsigned]

/-! ## Names of directories -/

def Entry.directoryName : Entry → Option String
  | .directory name _ => some name
  | _ => none

def DistinctNames (root : Root) : Prop := (root.entries.filterMap Entry.directoryName).Nodup

theorem filesOf_eq_none_iff {entry : Entry} :
    entry.filesOf id = none ↔ entry.directoryName ≠ some id := by
  cases entry with
  | directory name files => simp [Entry.filesOf, Entry.directoryName]
  | _ => simp [Entry.filesOf, Entry.directoryName]

theorem DistinctNames.map {change : Entry → Entry} (h : DistinctNames root)
    (hchange : ∀ entry, (change entry).directoryName = entry.directoryName) :
    DistinctNames { root with entries := root.entries.map change } := by
  rw [DistinctNames, List.filterMap_map]
  exact (congrArg (fun f => (root.entries.filterMap f).Nodup) (funext hchange)).mpr h

theorem directoryName_set (name : String) (file : PluginFile) (content : Except String Bytes)
    (entry : Entry) : (entry.set name file content).directoryName = entry.directoryName := by
  cases entry <;> rfl

theorem DistinctNames.set (h : DistinctNames root) (name : String) (file : PluginFile)
    (content : Except String Bytes) : DistinctNames (root.set name file content) :=
  h.map (directoryName_set name file content)

theorem distinct_createDirectory (refused : Option String) (name : String) :
    Leads DistinctNames (createDirectory refused name) DistinctNames := by
  intro root hroot
  unfold createDirectory Fallible.run
  dsimp only
  cases hfiles : root.filesOf name with
  | some files => exact hroot
  | none =>
    cases refused with
    | some error => exact hroot
    | none =>
      change ((root.entries ++ [Entry.directory name emptyFiles]).filterMap
        Entry.directoryName).Nodup
      rw [List.filterMap_append]
      refine List.Nodup.append hroot (List.nodup_singleton name) fun other hmem hother => ?_
      rw [List.mem_singleton.mp hother] at hmem
      obtain ⟨entry, hentry, hname⟩ := List.mem_filterMap.mp hmem
      exact filesOf_eq_none_iff.mp (List.findSome?_eq_none_iff.mp hfiles entry hentry) hname

theorem distinct_writeFile (outcome : WriteOutcome) (name : String) (file : PluginFile)
    (bytes : Bytes) : Leads DistinctNames (writeFile outcome name file bytes) DistinctNames :=
  leads_writeFile (fun _ h => h.set _ _ _) fun _ _ h => h.set _ _ _

theorem distinct_install (outcomes : InstallOutcomes) (manifest : PluginManifest) (bytes : Bytes) :
    Leads DistinctNames (install host outcomes manifest bytes) DistinctNames := by
  refine (leads_check _).bind fun _ => (leads_check _).bind fun _ => (leads_check _).bind fun _ =>
    (leads_check _).bind fun verified => (distinct_createDirectory _ _).bind fun _ => ?_
  exact (distinct_writeFile _ _ _ _).bind fun _ => (distinct_writeFile _ _ _ _).bind fun _ =>
    (distinct_writeFile _ _ _ _).bind_pure _

variable {P : Root → Prop}

theorem leads_pluginDirectory (id : String) : Leads P (pluginDirectory id) P := by
  intro root hroot
  rcases pluginDirectory_run id root with ⟨error, hrun⟩ | ⟨files, -, hrun⟩
  · rw [hrun]
    exact hroot
  · rw [hrun]
    exact hroot

theorem distinct_removeDirectory (outcome : RemoveOutcome) (name : String) :
    Leads DistinctNames (removeDirectory outcome name) DistinctNames := by
  intro root hroot
  cases outcome with
  | done => exact hroot.sublist (List.filter_sublist.filterMap _)
  | failed error left =>
    refine hroot.map fun entry => ?_
    cases entry <;> rfl

theorem Leads.state {α : Type} {m : PluginM α} (h : Leads P m P) (hroot : P root) :
    P (m.run root).2 := by
  have hdone := h root hroot
  rcases hrun : m.run root with ⟨_ | _, root'⟩
  · rw [hrun] at hdone
    exact hdone
  · rw [hrun] at hdone
    exact hdone

theorem DistinctNames.call (h : DistinctNames root) (op : PluginOp) :
    DistinctNames ((op.program host).run root).2 := by
  cases op with
  | install outcomes manifest bytes =>
    exact ((distinct_install outcomes manifest bytes).bind_pure _).state h
  | setEnabled outcome id enabled =>
    exact ((leads_pluginDirectory id).bind fun _ => (leads_check _).bind fun _ =>
      distinct_writeFile _ _ _ _).state h
  | uninstall outcome id =>
    exact ((leads_pluginDirectory id).bind fun _ => distinct_removeDirectory outcome id).state h
  | invoke id input => exact h

theorem distinct_of_run (h : PluginRun host log root) : DistinctNames root := by
  induction h with
  | start => exact List.nodup_nil
  | call op h ih => exact ih.call op
  | tamper name file content hfile h ih => exact ih.set name file content
  | reorder hentries hpresent h ih => exact (hentries.filterMap _).nodup_iff.mpr ih

/-! ## One directory among harmless entries -/

/-- The root with a directory among other entries. -/
def among (before after : List Entry) (id : String) (files : PluginFiles) : Root :=
  readableRoot (before ++ .directory id files :: after)

/-- The other entries have other names and are harmless. -/
structure Around (host : PluginHost Key) (id : String) (before after : List Entry) : Prop where
  others : ∀ entry ∈ before ++ after, entry.filesOf id = none
  harmless : ∀ entry ∈ before ++ after, Harmless host id entry

namespace Around

theorem filesOf (h : Around host id before after) : (among before after id files).filesOf id =
    some files :=
  filesOf_among fun entry hentry => h.others entry (List.mem_append_left _ hentry)

theorem findPlugin_iff (h : Around host id before after) {plugin : InstalledPlugin}
    (hid : plugin.manifest.id = id) :
    findPlugin host (among before after id files) id = .ok plugin ↔
      listEntry host (.directory id files) = .ok (some plugin) := by
  constructor
  · intro hfind
    obtain ⟨-, entry, hentry, hlisted⟩ := findPlugin_ok hfind
    rcases List.mem_append.mp hentry with hbefore | hmem
    · obtain ⟨found, hfound, hne⟩ :=
        harmless_iff.mp (h.harmless entry (List.mem_append_left _ hbefore))
      rw [hlisted] at hfound
      cases hfound
      exact absurd hid (hne plugin rfl)
    · rcases List.mem_cons.mp hmem with rfl | hafter
      · exact hlisted
      · obtain ⟨found, hfound, hne⟩ :=
          harmless_iff.mp (h.harmless entry (List.mem_append_right _ hafter))
        rw [hlisted] at hfound
        cases hfound
        exact absurd hid (hne plugin rfl)
  · intro hentry
    exact findPlugin_of_listedAs ((listedAs_among_iff hentry hid).mpr h.harmless)

theorem installed_iff (h : Around host id before after) {plugin : InstalledPlugin}
    (hid : plugin.manifest.id = id) :
    Installed host (among before after id files) plugin ↔
      listEntry host (.directory id files) = .ok (some plugin) ∧
        ∃ bytes, files .wasm = .ok bytes ∧ Usable host plugin bytes := by
  have hread : readWasm host (among before after id files) id = files .wasm := by
    rw [readWasm, h.filesOf]
  rw [← h.findPlugin_iff hid, ← hread, ← hid]
  exact ⟨fun hinstalled => ⟨hinstalled.listed, hinstalled.usable⟩,
    fun h => ⟨h.1, h.2⟩⟩

theorem set (h : Around host id before after) (file : PluginFile) (content : Except String Bytes) :
    (among before after id files).set id file content =
      among before after id (files.set file content) := by
  have hother (entries : List Entry) (hentries : ∀ entry ∈ entries, entry ∈ before ++ after) :
      entries.map (Entry.set id file content) = entries := by
    refine (List.map_congr_left fun entry hentry => ?_).trans (List.map_id entries)
    have hnone := h.others entry (hentries entry hentry)
    cases entry with
    | directory other files =>
      have hne : other ≠ id := by simpa [Entry.filesOf] using hnone
      rw [Entry.set, if_neg hne]
      rfl
    | _ => rfl
  rw [among, Root.set, readableRoot, List.map_append, List.map_cons, Entry.set, if_pos rfl,
    hother before fun _ => List.mem_append_left _, hother after fun _ => List.mem_append_right _]
  rfl

variable {file : PluginFile} {bytes : Bytes} {error : String}

theorem run_done (h : Around host id before after) :
    (writeFile .done id file bytes).run (among before after id files) =
      (.ok (), among before after id (files.set file (.ok bytes))) :=
  congrArg (Prod.mk _) (h.set file _)

theorem run_refused : (writeFile (.refused error) id file bytes).run (among before after id files) =
    (.error (.storage error), among before after id files) := rfl

theorem run_torn (h : Around host id before after) (written : Nat) :
    (writeFile (.torn error written) id file bytes).run (among before after id files) =
      (.error (.storage error), among before after id
        (files.set file (.ok (bytes.take (min written (bytes.length - 1)))))) :=
  congrArg (Prod.mk _) (h.set file _)

end Around

/-- A plugin is only found when all entries can be listed. -/
theorem readable_of_findPlugin (h : findPlugin host root id = .ok plugin) :
    root = readableRoot root.entries ∧ ∃ plugins, listEntries host root.entries = .ok plugins := by
  obtain ⟨present, readError, entries⟩ := root
  rw [findPlugin] at h
  cases present with
  | false => cases h
  | true =>
    cases readError with
    | some error => cases h
    | none =>
      refine ⟨rfl, ?_⟩
      cases hentries : listEntries host entries with
      | error error =>
        simp [list, hentries, Except.map, bind, Except.bind] at h
      | ok plugins => exact ⟨plugins, rfl⟩

theorem listEntry_of_listEntries {entries : List Entry} {plugins : List InstalledPlugin}
    (h : listEntries host entries = .ok plugins) :
    ∀ entry ∈ entries, ∃ plugin, listEntry host entry = .ok plugin := by
  induction entries generalizing plugins with
  | nil => exact fun entry hentry => absurd hentry List.not_mem_nil
  | cons first rest ih =>
    obtain ⟨plugin, others, hfirst, hrest, -⟩ := listEntries_cons_ok_iff.mp h
    intro entry hentry
    rcases List.mem_cons.mp hentry with rfl | hmem
    · exact ⟨plugin, hfirst⟩
    · exact ih hrest entry hmem

/-- In every history whose changes leave each manifest the id of its directory, a plugin that is
installed has a directory of its own among harmless entries. -/
theorem exists_around (hrun : PluginRun host log root) (hlog : ∀ event ∈ log, event.NamesItself host)
    (h : Installed host root old) : ∃ before after files,
      root = among before after old.manifest.id files ∧
        Around host old.manifest.id before after := by
  obtain ⟨-, entry, hentry, hlisted⟩ := findPlugin_ok h.listed
  obtain ⟨name, files, state, rfl, hmanifest, -, -, -⟩ := listEntry_eq_some hlisted
  have hrecorded := recorded_of_run hrun hlog
  have hname : old.manifest.id = name := (hrecorded _ hentry).1 _ hmanifest
  subst hname
  obtain ⟨before, after, hentries⟩ := List.append_of_mem hentry
  have ⟨hreadable, plugins, hplugins⟩ := readable_of_findPlugin h.listed
  have hothers : ∀ entry ∈ before ++ after, entry.filesOf old.manifest.id = none := by
    have hdistinct := distinct_of_run hrun
    rw [DistinctNames, hentries, List.filterMap_append,
      List.filterMap_cons_some (show Entry.directoryName (.directory old.manifest.id files) =
        some old.manifest.id from rfl), List.nodup_middle, ← List.filterMap_append] at hdistinct
    intro entry hmem
    refine filesOf_eq_none_iff.mpr fun hname => (List.nodup_cons.mp hdistinct).1 ?_
    exact List.mem_filterMap.mpr ⟨entry, hmem, hname⟩
  refine ⟨before, after, files, by rw [among, ← hentries]; exact hreadable, hothers, ?_⟩
  intro entry hmem
  have hin : entry ∈ root.entries := by
    rw [hentries]
    rcases List.mem_append.mp hmem with hbefore | hafter
    · exact List.mem_append_left _ hbefore
    · exact List.mem_append_right _ (List.mem_cons_of_mem _ hafter)
  obtain ⟨found, hfound⟩ := listEntry_of_listEntries hplugins entry hin
  refine harmless_iff.mpr ⟨found, hfound, fun plugin hplugin hsame => ?_⟩
  rw [Option.mem_def.mp hplugin] at hfound
  obtain ⟨other, files, state, rfl, hread, -, -, -⟩ := listEntry_eq_some hfound
  have hself : plugin.manifest.id = other := (hrecorded _ hin).1 _ hread
  refine filesOf_eq_none_iff.mp (hothers _ hmem) ?_
  rw [Entry.directoryName, ← hself, hsame]

/-! ## What an installation leaves -/

section Install

variable {outcomes : InstallOutcomes} {manifest : PluginManifest} {bytes : Bytes}

/-- An installation whose checks fail changes nothing. -/
theorem install_run_of_not_accepted (h : ¬Accepted host manifest bytes) :
    ∃ error, (install host outcomes manifest bytes).run root = (.error error, root) := by
  have hfails {α : Type} (error : PluginError) :
      (check (.error error) : PluginM α).run root = (.error error, root) := rfl
  have hpasses {α : Type} (a : α) : (check (.ok a)).run root = (.ok a, root) := rfl
  unfold install
  cases hvalid : validateManifest manifest with
  | error error => exact ⟨error, Fallible.run_bind_of_error (hfails error)⟩
  | ok u =>
    rw [Fallible.run_bind_of_ok (hpasses u)]
    cases hpermitted : checkPermissions host manifest.permissions with
    | error error => exact ⟨error, Fallible.run_bind_of_error (hfails error)⟩
    | ok u =>
      rw [Fallible.run_bind_of_ok (hpasses u)]
      cases hcomponent : host.component bytes with
      | error error => exact ⟨.component error, Fallible.run_bind_of_error (hfails _)⟩
      | ok u =>
        rw [Except.mapError, Fallible.run_bind_of_ok (hpasses u)]
        cases hverified : verifySignature host manifest bytes with
        | error error => exact ⟨error, Fallible.run_bind_of_error (hfails error)⟩
        | ok verified =>
          exact absurd ⟨hvalid, hpermitted, hcomponent, verified, hverified⟩ h

/-- The writes of an installation, one after another. -/
theorem install_run_of_accepted (haccepted : Accepted host manifest bytes)
    (haround : Around host manifest.id before after) : ∃ verified,
    (install host outcomes manifest bytes).run (among before after manifest.id files) =
      (do
        writeFile outcomes.wasm manifest.id .wasm bytes
        writeFile outcomes.manifest manifest.id .manifest
          (prettyBytes (PluginManifest.codec.write manifest))
        writeFile outcomes.state manifest.id .state
          (prettyBytes (PluginState.codec.write ⟨true, hexDigest (host.digest bytes)⟩))
        pure ⟨manifest, true, hexDigest (host.digest bytes), verified⟩ :
          PluginM InstalledPlugin).run (among before after manifest.id files) := by
  obtain ⟨verified, hverified⟩ := haccepted.signature
  have hpasses {α : Type} (a : α) (root : Root) : (check (.ok a)).run root = (.ok a, root) := rfl
  have hcreate : (createDirectory outcomes.directory manifest.id).run
      (among before after manifest.id files) = (.ok (), among before after manifest.id files) := by
    unfold createDirectory Fallible.run
    dsimp only
    rw [haround.filesOf]
  refine ⟨verified, ?_⟩
  unfold install
  rw [haccepted.valid, Fallible.run_bind_of_ok (hpasses _ _), haccepted.permitted,
    Fallible.run_bind_of_ok (hpasses _ _), haccepted.component, Except.mapError,
    Fallible.run_bind_of_ok (hpasses _ _), hverified, Fallible.run_bind_of_ok (hpasses _ _),
    Fallible.run_bind_of_ok hcreate]

theorem atomic_of_error {error : PluginError} {root' : Root}
    (hrun : (install host outcomes manifest bytes).run root = (.error error, root')) :
    Atomic host root old outcomes manifest bytes ↔ Installed host root' old := by
  constructor
  · exact fun h => h.kept error root' hrun
  · intro h
    constructor
    · intro _ _ hother
      rw [hrun] at hother
      cases hother
      exact h
    · intro _ _ hother
      rw [hrun] at hother
      cases hother

theorem atomic_of_ok {plugin : InstalledPlugin} {root' : Root}
    (hrun : (install host outcomes manifest bytes).run root = (.ok plugin, root')) :
    Atomic host root old outcomes manifest bytes ↔ (old.enabled = false →
      ∀ listed, findPlugin host root' old.manifest.id = .ok listed → listed.enabled = false) := by
  constructor
  · exact fun h => h.flag plugin root' hrun
  · intro h
    constructor
    · intro _ _ hother
      rw [hrun] at hother
      cases hother
    · intro _ _ hother
      rw [hrun] at hother
      cases hother
      exact h

variable (haround : Around host manifest.id before after) (hid : old.manifest.id = manifest.id)

include haround hid

/-- With another component the plugin is still the old one when the component passes for it. -/
theorem installed_set_wasm_iff
    (hlisted : listEntry host (.directory manifest.id files) = .ok (some old)) (written : Bytes) :
    Installed host (among before after manifest.id (files.set .wasm (.ok written))) old ↔
      Usable host old written := by
  rw [haround.installed_iff hid]
  constructor
  · rintro ⟨-, bytes, hbytes, husable⟩
    cases hbytes
    exact husable
  · intro husable
    obtain ⟨verified, hverified⟩ := husable.signature
    have ⟨hmanifest, hstate, hsignature⟩ := listEntry_eq_some_iff.mp hlisted
    have hsame : old.signatureVerified = old.manifest.signatureBase64.isSome := by
      unfold listedSignature at hsignature
      cases hsigned : old.manifest.signatureBase64.isSome with
      | false =>
        rw [hsigned] at hsignature
        exact (Except.ok.inj hsignature).symm
      | true =>
        rw [hsigned, if_pos rfl] at hsignature
        cases hwasm : files .wasm with
        | error error =>
          rw [hwasm] at hsignature
          cases hsignature
        | ok read =>
          rw [hwasm] at hsignature
          rw [verified_eq_isSome hsignature, hsigned]
    refine ⟨listEntry_eq_some_iff.mpr ⟨hmanifest, hstate, ?_⟩, written, rfl, husable⟩
    rw [hsame]
    exact listedSignature_of_verified hverified

/-- Without a manifest that can be read, or a state, nothing is installed. -/
theorem not_installed_of_unread
    (h : (∀ plugin, readJson host PluginManifest.codec (files .manifest) ≠ .ok plugin) ∨
      ∀ state, readJson host PluginState.codec (files .state) ≠ .ok state) :
    ¬Installed host (among before after manifest.id files) old := by
  rw [haround.installed_iff hid]
  rintro ⟨hlisted, -⟩
  have ⟨hmanifest, hstate, _⟩ := listEntry_eq_some_iff.mp hlisted
  exact h.elim (fun hnone => hnone _ hmanifest) fun hnone => hnone _ hstate

/-- With another component and manifest the plugin is the old one when the manifest is. -/
theorem installed_set_manifest_iff
    (hlisted : listEntry host (.directory manifest.id files) = .ok (some old)) (written : Bytes) :
    Installed host (among before after manifest.id ((files.set .wasm (.ok written)).set .manifest
        (.ok (prettyBytes (PluginManifest.codec.write manifest))))) old ↔
      manifest = old.manifest ∧ Usable host old written := by
  have hread : readJson host PluginManifest.codec
      (.ok (prettyBytes (PluginManifest.codec.write manifest))) = .ok manifest :=
    readJson_written (writable_manifest manifest)
  have ⟨hmanifest, hstate, _⟩ := listEntry_eq_some_iff.mp hlisted
  constructor
  · intro hinstalled
    obtain ⟨hentry, bytes, hbytes, husable⟩ := (haround.installed_iff hid).mp hinstalled
    have ⟨hsame, _, _⟩ := listEntry_eq_some_iff.mp hentry
    refine ⟨Except.ok.inj (hread.symm.trans hsame), ?_⟩
    cases hbytes
    exact husable
  · rintro ⟨hsame, husable⟩
    have hinstalled := (installed_set_wasm_iff haround hid hlisted written).mpr husable
    obtain ⟨hentry, bytes, hbytes, husable⟩ := (haround.installed_iff hid).mp hinstalled
    have ⟨_, _, hsignature⟩ := listEntry_eq_some_iff.mp hentry
    refine (haround.installed_iff hid).mpr ⟨listEntry_eq_some_iff.mpr ⟨?_, hstate, hsignature⟩,
      bytes, hbytes, husable⟩
    rw [← hsame]
    exact hread

/-- Once everything is written the new version is found, and it is enabled. -/
theorem findPlugin_installed (haccepted : Accepted host manifest bytes) :
    ∃ plugin, plugin.enabled = true ∧ findPlugin host (among before after manifest.id
      (((files.set .wasm (.ok bytes)).set .manifest
        (.ok (prettyBytes (PluginManifest.codec.write manifest)))).set .state
        (.ok (prettyBytes (PluginState.codec.write ⟨true, hexDigest (host.digest bytes)⟩)))))
      old.manifest.id = .ok plugin := by
  obtain ⟨verified, hverified⟩ := haccepted.signature
  rw [hid]
  refine ⟨⟨manifest, true, hexDigest (host.digest bytes), manifest.signatureBase64.isSome⟩, rfl,
    (haround.findPlugin_iff rfl).mpr (listEntry_eq_some_iff.mpr ⟨?_, ?_, ?_⟩)⟩
  · exact readJson_written (writable_manifest manifest)
  · exact readJson_written (writable_state _)
  · exact listedSignature_of_verified hverified

theorem atomic_among_iff (hold : Installed host (among before after manifest.id files) old) :
    Atomic host (among before after manifest.id files) old outcomes manifest bytes ↔
      (Accepted host manifest bytes → KeepsVersion host old outcomes manifest bytes) := by
  by_cases haccepted : Accepted host manifest bytes
  · obtain ⟨hlisted, -⟩ := (haround.installed_iff hid).mp hold
    obtain ⟨verified, hrun⟩ := @install_run_of_accepted _ _ files _ _ outcomes _ _
      haccepted haround
    obtain ⟨directory, wasm, manifestWrite, stateWrite⟩ := outcomes
    rw [imp_iff_right haccepted]
    cases wasm with
    | refused error =>
      rw [Fallible.run_bind_of_error Around.run_refused] at hrun
      rw [atomic_of_error hrun]
      exact iff_true_intro hold
    | torn error written =>
      rw [Fallible.run_bind_of_error (haround.run_torn written)] at hrun
      rw [atomic_of_error hrun]
      exact installed_set_wasm_iff haround hid hlisted _
    | done =>
      rw [Fallible.run_bind_of_ok haround.run_done] at hrun
      cases manifestWrite with
      | refused error =>
        rw [Fallible.run_bind_of_error Around.run_refused] at hrun
        rw [atomic_of_error hrun]
        exact installed_set_wasm_iff haround hid hlisted _
      | torn error written =>
        rw [Fallible.run_bind_of_error (haround.run_torn written)] at hrun
        rw [atomic_of_error hrun]
        exact iff_false_intro (not_installed_of_unread haround hid (.inl fun _ =>
          readJson_torn rfl (writable_manifest manifest) written))
      | done =>
        rw [Fallible.run_bind_of_ok haround.run_done] at hrun
        cases stateWrite with
        | refused error =>
          rw [Fallible.run_bind_of_error Around.run_refused] at hrun
          rw [atomic_of_error hrun]
          exact installed_set_manifest_iff haround hid hlisted _
        | torn error written =>
          rw [Fallible.run_bind_of_error (haround.run_torn written)] at hrun
          rw [atomic_of_error hrun]
          exact iff_false_intro (not_installed_of_unread haround hid (.inr fun _ =>
            readJson_torn rfl (writable_state _) written))
        | done =>
          rw [Fallible.run_bind_of_ok haround.run_done] at hrun
          obtain ⟨plugin, henabled, hfound⟩ :=
            @findPlugin_installed _ _ files _ _ old _ _ haround hid haccepted
          rw [atomic_of_ok hrun]
          constructor
          · intro h
            by_contra hdisabled
            have hflag := h (Bool.not_eq_true _ ▸ hdisabled) plugin hfound
            rw [henabled] at hflag
            cases hflag
          · intro hbefore hdisabled
            rw [show old.enabled = true from hbefore] at hdisabled
            cases hdisabled
  · obtain ⟨error, hrun⟩ := @install_run_of_not_accepted _ _
      (among before after manifest.id files) outcomes _ _ haccepted
    rw [atomic_of_error hrun]
    exact ⟨fun _ hnow => absurd hnow haccepted, fun _ => hold⟩

end Install

/-! ## A small upgrade -/

def firstPlugin : InstalledPlugin where
  manifest := smallManifest "a" none none
  enabled := true
  sha256 := hexDigest (smallDigest emptyComponent)
  signatureVerified := false

def firstFiles : PluginFiles :=
  installedFiles (smallManifest "a" none none) smallState emptyComponent

def secondEntry : Entry :=
  .directory "b" (installedFiles (smallManifest "b" none none)
    ⟨true, hexDigest (smallDigest namedComponent)⟩ namedComponent)

theorem around_first : Around smallHost "a" [] [secondEntry] where
  others := by simp [secondEntry, Entry.filesOf]
  harmless := by
    intro entry hentry
    rw [List.nil_append, List.mem_singleton] at hentry
    rw [hentry]
    intro manifest state hmanifest _
    have hwritten : Except.ok (smallManifest "b" none none) = Except.ok manifest :=
      (readJson_written (writable_manifest _)).symm.trans hmanifest
    cases hwritten
    exact ⟨by decide, fun h => (by cases h)⟩

theorem installed_first : Installed smallHost (among [] [secondEntry] "a" firstFiles) firstPlugin := by
  refine (around_first.installed_iff rfl).mpr ⟨listEntry_eq_some_iff.mpr ⟨?_, ?_, rfl⟩,
    emptyComponent, rfl, rfl, ⟨false, rfl⟩, rfl⟩
  · exact readJson_written (writable_manifest _)
  · exact readJson_written (writable_state _)

/-- There is no room for the manifest after the component has been written. -/
def manifestRefused : InstallOutcomes := ⟨none, .done, .refused "No space left on device", .done⟩

/-- The new component is not the one that the old state records. -/
theorem install_atomic_not :
    ¬∀ (host : PluginHost Unit) (log : List PluginEvent) (root : Root) (old : InstalledPlugin)
      (outcomes : InstallOutcomes) (manifest : PluginManifest) (bytes : Bytes),
      PluginRun host log root → (∀ event ∈ log, event.NamesItself host) →
      Installed host root old → manifest.id = old.manifest.id →
      Atomic host root old outcomes manifest bytes := by
  intro h
  have hatomic := h smallHost twoInstallations twoPlugins firstPlugin manifestRefused
    (smallManifest "a" none none) namedComponent twoPlugins_run
    (by simp [twoInstallations, PluginEvent.NamesItself]) installed_first rfl
  have haccepted : Accepted smallHost (smallManifest "a" none none) namedComponent :=
    ⟨by decide +kernel, rfl, rfl, false, rfl⟩
  have hiff := @atomic_among_iff Unit smallHost firstFiles [] [secondEntry] firstPlugin
    manifestRefused (smallManifest "a" none none) namedComponent around_first rfl installed_first
  have husable : Usable smallHost firstPlugin namedComponent := hiff.mp hatomic haccepted
  exact absurd (hexDigest_injective husable.digest) (by decide +kernel)

/-- In every history whose changes leave each manifest the id of its directory, an installation
over a plugin is atomic exactly when one of its checks fails, or its writes keep the version. -/
theorem install_atomic_iff (hrun : PluginRun host log root)
    (hlog : ∀ event ∈ log, event.NamesItself host) (hold : Installed host root old)
    {manifest : PluginManifest} (hid : manifest.id = old.manifest.id) (outcomes : InstallOutcomes)
    (bytes : Bytes) :
    Atomic host root old outcomes manifest bytes ↔
      (Accepted host manifest bytes → KeepsVersion host old outcomes manifest bytes) := by
  obtain ⟨before, after, files, rfl, haround⟩ := exists_around hrun hlog hold
  rw [← hid] at haround hold ⊢
  exact atomic_among_iff haround hid.symm hold

def laterManifest : PluginManifest := { smallManifest "a" none none with version := "1.1.0" }

/-- A new manifest is refused behind the component that is there already. -/
theorem install_atomic_sample :
    Atomic smallHost twoPlugins firstPlugin manifestRefused laterManifest emptyComponent := by
  have hid : laterManifest.id = firstPlugin.manifest.id := rfl
  have husable : Usable smallHost firstPlugin emptyComponent := ⟨rfl, ⟨false, rfl⟩, rfl⟩
  exact (install_atomic_iff twoPlugins_run (by simp [twoInstallations, PluginEvent.NamesItself])
    installed_first hid manifestRefused emptyComponent).mpr fun _ => husable

end ApiVoy.Plugins
