/-
# What an invocation instantiates

Over a whole history of the plugin directory. Calls install, enable, disable and remove plugins,
each write may fail, and between the calls components and manifests are changed by others. What
is instantiated then has the digest of the last installation and is enabled, as long as nobody
gives a directory a manifest with another plugin's id: the state that is checked is found by the
id in the manifest, the component by the name of the directory.
-/

import ApiVoy.Plugins.Isolation

namespace ApiVoy.Plugins

open Foundation

variable {Key : Type} {host : PluginHost Key} {id name : String} {files : PluginFiles}
  {root root' : Root} {entry : Entry}

/-! ## Histories -/

inductive PluginOp where
  | install (outcomes : InstallOutcomes) (manifest : PluginManifest) (bytes : Bytes)
  | setEnabled (outcome : WriteOutcome) (id : String) (enabled : Bool)
  | uninstall (outcome : RemoveOutcome) (id : String)
  | invoke (id input : String)

def PluginOp.program (host : PluginHost Key) : PluginOp → PluginM Unit
  | .install outcomes manifest bytes => do
    let _ ← Plugins.install host outcomes manifest bytes
    pure ()
  | .setEnabled outcome id enabled => Plugins.setEnabled host outcome id enabled
  | .uninstall outcome id => Plugins.uninstall outcome id
  | .invoke id input => fun root => ((Plugins.invoke host root id input).map fun _ => (), root)

/-- What happens to the directory: a call, which succeeds or fails, or a change by others. -/
inductive PluginEvent where
  | called (op : PluginOp) (succeeded : Bool)
  | tampered (name : String) (file : PluginFile) (content : Except String Bytes)

/-- The directories a history leads to; the last event comes first. -/
inductive PluginRun (host : PluginHost Key) : List PluginEvent → Root → Prop
  | start : PluginRun host [] ⟨false, none, []⟩
  | call {log : List PluginEvent} {root : Root} (op : PluginOp) (h : PluginRun host log root) :
      PluginRun host (.called op ((op.program host).run root).1.isOk :: log)
        ((op.program host).run root).2
  | tamper {log : List PluginEvent} {root : Root} (name : String) (file : PluginFile)
      (content : Except String Bytes) (hfile : file ≠ .state) (h : PluginRun host log root) :
      PluginRun host (.tampered name file content :: log) (root.set name file content)
  /-- Nothing is promised about the order of the entries. -/
  | reorder {log : List PluginEvent} {root root' : Root} (hentries : root'.entries.Perm root.entries)
      (hpresent : root'.present = root.present) (h : PluginRun host log root) :
      PluginRun host log root'

/-- What the last successful `set_enabled` or `install` left. -/
def leftEnabled (id : String) : List PluginEvent → Option Bool
  | [] => none
  | .called (.install _ manifest _) true :: rest =>
    if manifest.id = id then some true else leftEnabled id rest
  | .called (.setEnabled _ other enabled) true :: rest =>
    if other = id then some enabled else leftEnabled id rest
  | _ :: rest => leftEnabled id rest

/-- The bytes of the last installation that wrote the state, which it does last. -/
def installedBytes (id : String) : List PluginEvent → Option Bytes
  | [] => none
  | .called (.install _ manifest bytes) true :: rest =>
    if manifest.id = id then some bytes else installedBytes id rest
  | _ :: rest => installedBytes id rest

/-- Does a changed manifest keep the id of its plugin? -/
def PluginEvent.NamesItself (host : PluginHost Key) : PluginEvent → Prop
  | .tampered name .manifest content =>
    ∀ manifest, readJson host PluginManifest.codec content = .ok manifest → manifest.id = name
  | _ => True

/-! ## What the directories record -/

/-- A manifest has the id of its directory, and a state is what the history says. -/
def EntryRecorded (host : PluginHost Key) (log : List PluginEvent) : Entry → Prop
  | .directory name files =>
    (∀ manifest, readJson host PluginManifest.codec (files .manifest) = .ok manifest →
      manifest.id = name) ∧
    ∀ state, readJson host PluginState.codec (files .state) = .ok state →
      leftEnabled name log = some state.enabled ∧
        ∃ bytes, installedBytes name log = some bytes ∧
          state.sha256 = hexDigest (host.digest bytes)
  | _ => True

def Recorded (host : PluginHost Key) (log : List PluginEvent) (root : Root) : Prop :=
  ∀ entry ∈ root.entries, EntryRecorded host log entry

variable {log log' : List PluginEvent}

theorem Recorded.map (h : Recorded host log root) {f : Entry → Entry}
    (hf : ∀ entry, EntryRecorded host log entry → EntryRecorded host log' (f entry)) :
    Recorded host log' { root with entries := root.entries.map f } := by
  intro entry hentry
  obtain ⟨old, hold, rfl⟩ := List.mem_map.mp hentry
  exact hf old (h old hold)

theorem Recorded.set_wasm (h : Recorded host log root) (name : String)
    (content : Except String Bytes) : Recorded host log (root.set name .wasm content) := by
  refine h.map fun entry hentry => ?_
  cases entry with
  | directory other files =>
    simp only [Entry.set]
    split
    · exact hentry
    · exact hentry
  | _ => trivial

theorem Recorded.set_manifest (h : Recorded host log root) {name : String}
    {content : Except String Bytes}
    (hcontent : ∀ manifest, readJson host PluginManifest.codec content = .ok manifest →
      manifest.id = name) : Recorded host log (root.set name .manifest content) := by
  refine h.map fun entry hentry => ?_
  cases entry with
  | directory other files =>
    simp only [Entry.set]
    split
    · rename_i heq
      subst heq
      exact ⟨hcontent, hentry.2⟩
    · exact hentry
  | _ => trivial

/-- A state may be written when the history says so, and says the same of the other plugins. -/
theorem Recorded.set_state (h : Recorded host log root) {name : String}
    {content : Except String Bytes}
    (hothers : ∀ other, other ≠ name → leftEnabled other log' = leftEnabled other log ∧
      installedBytes other log' = installedBytes other log)
    (hcontent : ∀ state, readJson host PluginState.codec content = .ok state →
      leftEnabled name log' = some state.enabled ∧ ∃ bytes, installedBytes name log' = some bytes ∧
        state.sha256 = hexDigest (host.digest bytes)) :
    Recorded host log' (root.set name .state content) := by
  refine h.map fun entry hentry => ?_
  cases entry with
  | directory other files =>
    simp only [Entry.set]
    split
    · rename_i heq
      subst heq
      exact ⟨hentry.1, hcontent⟩
    · rename_i hne
      obtain ⟨henabled, hinstalled⟩ := hothers other hne
      rw [EntryRecorded, henabled, hinstalled]
      exact hentry
  | _ => trivial

/-! ## Programs that keep the record -/

/-- From `P` the program leads to `Q`; when it fails, `P` still holds. -/
def Leads {α : Type} (P : Root → Prop) (m : PluginM α) (Q : Root → Prop) : Prop :=
  ∀ root, P root →
    match m.run root with
    | (.ok _, root') => Q root'
    | (.error _, root') => P root'

section Leads

variable {α β : Type} {P Q : Root → Prop} {m : PluginM α} {f : α → PluginM β}

theorem Leads.bind (hm : Leads P m P) (hf : ∀ a, Leads P (f a) Q) : Leads P (m >>= f) Q := by
  intro root hroot
  have hfirst := hm root hroot
  rw [Fallible.run_bind]
  rcases hrun : m.run root with ⟨_ | a, root'⟩
  · rw [hrun] at hfirst
    exact hfirst
  · rw [hrun] at hfirst
    exact hf a root' hfirst

theorem Leads.bind_pure (hm : Leads P m Q) (g : α → β) :
    Leads P (m >>= fun a => pure (g a)) Q := by
  intro root hroot
  have hfirst := hm root hroot
  rw [Fallible.run_bind]
  rcases hrun : m.run root with ⟨_ | a, root'⟩
  · rw [hrun] at hfirst
    exact hfirst
  · rw [hrun] at hfirst
    exact hfirst

theorem leads_check (result : Except PluginError α) : Leads P (check result) P := by
  intro root hroot
  cases result <;> exact hroot

/-- A write leads where its whole content leads, when what a failed write leaves keeps `P`. -/
theorem leads_writeFile {outcome : WriteOutcome} {name : String} {file : PluginFile}
    {bytes : Bytes} (hdone : ∀ root, P root → Q (root.set name file (.ok bytes)))
    (htorn : ∀ root written, P root →
      P (root.set name file (.ok (bytes.take (min written (bytes.length - 1)))))) :
    Leads P (writeFile outcome name file bytes) Q := by
  intro root hroot
  cases outcome with
  | done => exact hdone root hroot
  | refused error => exact hroot
  | torn error written => exact htorn root written hroot

end Leads

theorem emptyFiles_recorded (name : String) :
    EntryRecorded host log (.directory name emptyFiles) :=
  ⟨fun _ h => (by cases h), fun _ h => (by cases h)⟩

theorem leads_createDirectory (refused : Option String) (name : String) :
    Leads (Recorded host log) (createDirectory refused name) (Recorded host log) := by
  intro root hroot
  unfold createDirectory Fallible.run
  dsimp only
  cases root.filesOf name with
  | some files => exact hroot
  | none =>
    cases refused with
    | some error => exact hroot
    | none =>
      intro entry hentry
      rcases List.mem_append.mp hentry with hold | hnew
      · exact hroot entry hold
      · rw [List.mem_singleton.mp hnew]
        exact emptyFiles_recorded name

/-- An installation is recorded once its state is written. -/
theorem leads_install (outcomes : InstallOutcomes) (manifest : PluginManifest) (bytes : Bytes) :
    Leads (Recorded host log) (install host outcomes manifest bytes)
      (Recorded host (.called (.install outcomes manifest bytes) true :: log)) := by
  refine (leads_check _).bind fun _ => (leads_check _).bind fun _ => (leads_check _).bind fun _ =>
    (leads_check _).bind fun verified => (leads_createDirectory _ _).bind fun _ => ?_
  refine Leads.bind (leads_writeFile (fun root h => h.set_wasm _ _)
    fun root _ h => h.set_wasm _ _) fun _ => ?_
  refine Leads.bind (leads_writeFile (fun root h => h.set_manifest ?_)
    fun root written h => h.set_manifest ?_) fun _ => ?_
  · intro read hread
    rw [readJson_written (writable_manifest manifest)] at hread
    cases hread
    rfl
  · intro read hread
    exact absurd hread (readJson_torn rfl (writable_manifest manifest) written)
  refine Leads.bind_pure (leads_writeFile (fun root h => h.set_state ?_ ?_)
    fun root written h => h.set_state (fun _ _ => ⟨rfl, rfl⟩) ?_) _
  · intro other hne
    simp [leftEnabled, installedBytes, Ne.symm hne]
  · intro state hread
    rw [readJson_written (writable_state _)] at hread
    cases hread
    exact ⟨by simp [leftEnabled], bytes, by simp [installedBytes], rfl⟩
  · intro state hread
    exact absurd hread (readJson_torn rfl (writable_state _) written)

theorem directory_of_filesOf (h : root.filesOf id = some files) :
    .directory id files ∈ root.entries := by
  obtain ⟨entry, hentry, hfiles⟩ := List.exists_of_findSome?_eq_some h
  cases entry with
  | directory other found =>
    simp only [Entry.filesOf, Option.ite_none_right_eq_some, Option.some.injEq] at hfiles
    obtain ⟨rfl, rfl⟩ := hfiles
    exact hentry
  | _ => cases hfiles

theorem pluginDirectory_run (id : String) (root : Root) :
    (∃ error, (pluginDirectory id).run root = (.error error, root)) ∨
      ∃ files, root.filesOf id = some files ∧ (pluginDirectory id).run root = (.ok files, root) := by
  unfold pluginDirectory Fallible.run
  dsimp only
  cases validateId id with
  | error error => exact Or.inl ⟨error, rfl⟩
  | ok u =>
    dsimp only
    cases hfiles : root.filesOf id with
    | none => exact Or.inl ⟨.notFound id, rfl⟩
    | some files => exact Or.inr ⟨files, rfl, rfl⟩

/-- A plugin keeps its digest when it is enabled or disabled. -/
theorem leads_setEnabled (outcome : WriteOutcome) (id : String) (enabled : Bool) :
    Leads (Recorded host log) (setEnabled host outcome id enabled)
      (Recorded host (.called (.setEnabled outcome id enabled) true :: log)) := by
  intro root hroot
  rcases pluginDirectory_run id root with ⟨error, hrun⟩ | ⟨files, hfiles, hrun⟩
  · unfold setEnabled
    rw [Fallible.run_bind_of_error hrun]
    exact hroot
  unfold setEnabled
  rw [Fallible.run_bind_of_ok hrun]
  cases hstate : readJson host PluginState.codec (files .state) with
  | error error => exact hroot
  | ok state =>
    obtain ⟨-, bytes, hbytes, hdigest⟩ :=
      (hroot _ (directory_of_filesOf hfiles)).2 state hstate
    have hwrite : Leads (Recorded host log)
        (writeFile outcome id .state
          (prettyBytes (PluginState.codec.write { state with enabled })))
        (Recorded host (.called (.setEnabled outcome id enabled) true :: log)) := by
      refine leads_writeFile (fun root h => h.set_state ?_ ?_)
        fun root written h => h.set_state (fun _ _ => ⟨rfl, rfl⟩) ?_
      · intro other hne
        simp [leftEnabled, installedBytes, Ne.symm hne]
      · intro read hread
        rw [readJson_written (writable_state _)] at hread
        cases hread
        exact ⟨by simp [leftEnabled], bytes, by simpa [installedBytes] using hbytes, hdigest⟩
      · intro read hread
        exact absurd hread (readJson_torn rfl (writable_state _) written)
    exact hwrite root hroot

theorem Recorded.of_same (h : Recorded host log root)
    (henabled : ∀ id, leftEnabled id log' = leftEnabled id log)
    (hinstalled : ∀ id, installedBytes id log' = installedBytes id log) :
    Recorded host log' root := by
  intro entry hentry
  have hold := h entry hentry
  cases entry with
  | directory name files =>
    rw [EntryRecorded, henabled, hinstalled]
    exact hold
  | _ => trivial

theorem leads_uninstall (outcome : RemoveOutcome) (id : String) :
    Leads (Recorded host log) (uninstall outcome id) (Recorded host log) := by
  intro root hroot
  rcases pluginDirectory_run id root with ⟨error, hrun⟩ | ⟨files, hfiles, hrun⟩
  · unfold uninstall
    rw [Fallible.run_bind_of_error hrun]
    exact hroot
  unfold uninstall
  rw [Fallible.run_bind_of_ok hrun]
  cases outcome with
  | done => exact fun entry hentry => hroot entry (List.mem_filter.mp hentry).1
  | failed error left =>
    refine hroot.map fun entry hentry => ?_
    cases entry with
    | directory other files =>
      simp only [Entry.leave]
      split
      · refine ⟨fun manifest hread => ?_, fun state hread => ?_⟩
        · cases hleft : left .manifest with
          | false =>
            simp only [hleft] at hread
            cases hread
          | true =>
            simp only [hleft, if_true] at hread
            exact hentry.1 manifest hread
        · cases hleft : left .state with
          | false =>
            simp only [hleft] at hread
            cases hread
          | true =>
            simp only [hleft, if_true] at hread
            exact hentry.2 state hread
      · exact hentry
    | _ => trivial

/-- A call keeps the record, whatever its outcome. -/
theorem Recorded.call (h : Recorded host log root) (op : PluginOp) :
    Recorded host (.called op ((op.program host).run root).1.isOk :: log)
      ((op.program host).run root).2 := by
  have hleads : Leads (Recorded host log) (op.program host)
      (Recorded host (.called op true :: log)) := by
    cases op with
    | install outcomes manifest bytes => exact (leads_install outcomes manifest bytes).bind_pure _
    | setEnabled outcome id enabled => exact leads_setEnabled outcome id enabled
    | uninstall outcome id =>
      intro root hroot
      have hkept := leads_uninstall outcome id root hroot
      rw [PluginOp.program]
      rcases hrun : (uninstall outcome id).run root with ⟨_ | _, root'⟩
      · rw [hrun] at hkept
        exact hkept
      · rw [hrun] at hkept
        exact hkept.of_same (fun _ => rfl) fun _ => rfl
    | invoke id input =>
      intro root hroot
      rw [PluginOp.program]
      unfold Fallible.run
      dsimp only
      cases Plugins.invoke host root id input with
      | error error => exact hroot
      | ok output => exact hroot.of_same (fun _ => rfl) fun _ => rfl
  have hdone := hleads root h
  rcases hrun : (op.program host).run root with ⟨_ | _, root'⟩
  · rw [hrun] at hdone
    exact hdone.of_same (fun _ => by cases op <;> rfl) fun _ => by cases op <;> rfl
  · rw [hrun] at hdone
    exact hdone

/-- In every history whose changes leave each manifest the id of its directory, the directories
record what was done. -/
theorem recorded_of_run (h : PluginRun host log root)
    (hlog : ∀ event ∈ log, event.NamesItself host) : Recorded host log root := by
  induction h with
  | start =>
    intro entry hentry
    cases hentry
  | call op h ih => exact (ih fun event hevent => hlog event (List.mem_cons_of_mem _ hevent)).call op
  | tamper name file content hfile h ih =>
    have hkept := ih fun event hevent => hlog event (List.mem_cons_of_mem _ hevent)
    have hself := hlog _ List.mem_cons_self
    cases file with
    | wasm => exact (hkept.set_wasm name content).of_same (fun _ => rfl) fun _ => rfl
    | manifest => exact (hkept.set_manifest hself).of_same (fun _ => rfl) fun _ => rfl
    | state => exact absurd rfl hfile
  | reorder hentries hpresent h ih =>
    exact fun entry hentry => ih hlog entry (hentries.mem_iff.mp hentry)

/-! ## What is instantiated -/

theorem flatMap_hexByte_injective : Function.Injective (List.flatMap hexByte) := by
  have hdigit : ∀ n m, n < 16 → m < 16 → JsonText.hexDigit n = JsonText.hexDigit m → n = m := by
    intro n m hn hm h
    have hvalue := congrArg JsonText.hexValue h
    rw [JsonText.hexValue_hexDigit n hn, JsonText.hexValue_hexDigit m hm] at hvalue
    exact Option.some.inj hvalue
  intro xs
  induction xs with
  | nil =>
    intro ys h
    cases ys with
    | nil => rfl
    | cons y ys => cases h
  | cons x xs ih =>
    intro ys h
    cases ys with
    | nil => cases h
    | cons y ys =>
      simp only [List.flatMap_cons, hexByte, List.cons_append, List.nil_append,
        List.cons.injEq] at h
      obtain ⟨hhigh, hlow, hrest⟩ := h
      have hx := x.toNat_lt
      have hy := y.toNat_lt
      have hhigh := hdigit _ _ (by omega) (by omega) hhigh
      have hlow := hdigit _ _ (by omega) (by omega) hlow
      have hbyte : x.toNat = y.toNat := by omega
      rw [UInt8.toNat_inj.mp hbyte, ih hrest]

theorem hexDigest_injective : Function.Injective hexDigest := fun _ _ h =>
  Subtype.ext (flatMap_hexByte_injective (String.ofList_injective h))

variable {plugin : InstalledPlugin} {plugins : List InstalledPlugin}

theorem mem_listEntries {entries : List Entry} (h : listEntries host entries = .ok plugins)
    (hmem : plugin ∈ plugins) : ∃ entry ∈ entries, listEntry host entry = .ok (some plugin) := by
  induction entries generalizing plugins with
  | nil =>
    cases h
    cases hmem
  | cons entry rest ih =>
    obtain ⟨listed, others, hentry, hothers, rfl⟩ := listEntries_cons_ok_iff.mp h
    rcases List.mem_append.mp hmem with hlisted | hother
    · rw [Option.mem_toList.mp hlisted] at hentry
      exact ⟨entry, List.mem_cons_self, hentry⟩
    · obtain ⟨found, hfound, hplugin⟩ := ih hothers hother
      exact ⟨found, List.mem_cons_of_mem _ hfound, hplugin⟩

/-- A plugin that is listed has a directory with its manifest and its state. -/
theorem listEntry_eq_some (h : listEntry host entry = .ok (some plugin)) :
    ∃ name files state, entry = .directory name files ∧
      readJson host PluginManifest.codec (files .manifest) = .ok plugin.manifest ∧
      readJson host PluginState.codec (files .state) = .ok state ∧
      plugin.enabled = state.enabled ∧ plugin.sha256 = state.sha256 := by
  cases entry with
  | broken error => cases h
  | file name => cases h
  | directory name files =>
    rw [listEntry] at h
    cases hmanifest : readJson host PluginManifest.codec (files .manifest) with
    | error error =>
      rw [hmanifest] at h
      cases h
    | ok manifest =>
      cases hstate : readJson host PluginState.codec (files .state) with
      | error error =>
        rw [hmanifest, hstate] at h
        cases h
      | ok state =>
        rw [hmanifest, hstate] at h
        dsimp only at h
        cases hverified : listedSignature host manifest (files .wasm) with
        | error error =>
          rw [hverified] at h
          cases h
        | ok verified =>
          rw [hverified] at h
          cases h
          exact ⟨name, files, state, rfl, hmanifest, hstate, rfl, rfl⟩

theorem findPlugin_ok (h : findPlugin host root id = .ok plugin) :
    plugin.manifest.id = id ∧ ∃ entry ∈ root.entries, listEntry host entry = .ok (some plugin) := by
  rw [findPlugin] at h
  cases hlist : list host root with
  | error error =>
    rw [hlist] at h
    cases h
  | ok plugins =>
    rw [hlist] at h
    dsimp only [bind, Except.bind] at h
    cases hfind : plugins.find? fun plugin => plugin.manifest.id = id with
    | none =>
      rw [hfind] at h
      cases h
    | some found =>
      rw [hfind] at h
      cases h
      refine ⟨by simpa using List.find?_some hfind, ?_⟩
      rw [list] at hlist
      split at hlist
      · cases hlist
        cases hfind
      split at hlist
      · cases hlist
      cases hentries : listEntries host root.entries with
      | error error =>
        rw [hentries] at hlist
        cases hlist
      | ok listed =>
        rw [hentries] at hlist
        cases hlist
        have hmem := List.mem_of_find?_eq_some hfind
        rw [List.mem_insertionSort] at hmem
        exact mem_listEntries hentries hmem

variable {bytes : Bytes}

/-- The checks that a component has passed when it is instantiated. -/
theorem approve_ok {kind : PluginKind} (h : approve host root id kind = .ok (plugin, bytes)) :
    findPlugin host root id = .ok plugin ∧ plugin.enabled = true ∧
      hexDigest (host.digest bytes) = plugin.sha256 ∧
      ∃ verified, verifySignature host plugin.manifest bytes = .ok verified := by
  rw [approve] at h
  cases hfind : findPlugin host root id with
  | error error =>
    rw [hfind] at h
    cases h
  | ok found =>
    rw [hfind] at h
    change (if found.enabled = false then _ else _) = _ at h
    split at h
    · cases h
    rename_i henabled
    split at h
    · cases h
    cases hwasm : readWasm host root id with
    | error error =>
      rw [hwasm] at h
      cases h
    | ok read =>
      rw [hwasm] at h
      change (if hexDigest (host.digest read) ≠ found.sha256 then _ else _) = _ at h
      split at h
      · cases h
      rename_i hdigest
      cases hverified : verifySignature host found.manifest read with
      | error error =>
        rw [hverified] at h
        cases h
      | ok verified =>
        rw [hverified] at h
        cases hcomponent : host.component read with
        | error error =>
          rw [hcomponent] at h
          cases h
        | ok u =>
          rw [hcomponent] at h
          cases h
          exact ⟨rfl, by simpa using henabled, not_not.mp hdigest, verified, hverified⟩

/-- Does a call by the id instantiate these bytes for that plugin? -/
def Instantiates (host : PluginHost Key) (root : Root) (id : String) (plugin : InstalledPlugin)
    (bytes : Bytes) : Prop :=
  ∃ kind, approve host root id kind = .ok (plugin, bytes)

structure Vouched (host : PluginHost Key) (Signed : Key → Bytes → Prop) (log : List PluginEvent)
    (id : String) (plugin : InstalledPlugin) (bytes : Bytes) : Prop where
  named : plugin.manifest.id = id
  enabled : leftEnabled id log = some true
  digest : ∃ installed, installedBytes id log = some installed ∧
    host.digest bytes = host.digest installed
  signed : host.allowUnsigned = false → ∃ keyId key,
    plugin.manifest.publisherKeyId = some keyId ∧ host.trustedKeys keyId = some key ∧
      Signed key (pluginSignaturePayload host.digest plugin.manifest bytes)

theorem verifySignature_signed {Signed : Key → Bytes → Prop}
    (hideal : ∀ key payload signature, host.checkSignature key payload signature = .ok () →
      Signed key payload) {manifest : PluginManifest} {bytes : Bytes} {verified : Bool}
    (h : verifySignature host manifest bytes = .ok verified) (hsigned : host.allowUnsigned = false) :
    ∃ keyId key, manifest.publisherKeyId = some keyId ∧ host.trustedKeys keyId = some key ∧
      Signed key (pluginSignaturePayload host.digest manifest bytes) := by
  rw [verifySignature] at h
  cases hid : manifest.publisherKeyId with
  | none =>
    cases hsignature : manifest.signatureBase64 with
    | none => simp [hid, hsignature, hsigned] at h
    | some encoded => simp [hid, hsignature] at h
  | some keyId =>
    cases hsignature : manifest.signatureBase64 with
    | none => simp [hid, hsignature] at h
    | some encoded =>
      simp only [hid, hsignature] at h
      cases hkey : host.trustedKeys keyId with
      | none => simp [hkey] at h
      | some key =>
        simp only [hkey] at h
        cases hcheck : host.checkSignature key
            (pluginSignaturePayload host.digest manifest bytes) encoded with
        | error error => simp [hcheck] at h
        | ok u => exact ⟨keyId, key, rfl, hkey, hideal _ _ _ hcheck⟩

/-- In a history whose changes leave each manifest the id of its directory, everything that is
instantiated is vouched for, and what is signed says what it is about. -/
theorem vouched_of_run {Signed : Key → Bytes → Prop}
    (hideal : ∀ key payload signature, host.checkSignature key payload signature = .ok () →
      Signed key payload)
    (hrun : PluginRun host log root) (hlog : ∀ event ∈ log, event.NamesItself host) :
    (∀ id plugin bytes, Instantiates host root id plugin bytes →
      Vouched host Signed log id plugin bytes) ∧
    ∀ m m' bytes bytes', pluginSignaturePayload host.digest m bytes =
        pluginSignaturePayload host.digest m' bytes' ↔
      SignedAlike m m' ∧ host.digest bytes = host.digest bytes' := by
  refine ⟨?_, fun _ _ _ _ => pluginSignaturePayload_eq_iff⟩
  rintro id plugin bytes ⟨kind, happrove⟩
  obtain ⟨hfind, henabled, hdigest, verified, hverified⟩ := approve_ok happrove
  obtain ⟨hnamed, entry, hentry, hlisted⟩ := findPlugin_ok hfind
  obtain ⟨name, files, state, rfl, hmanifest, hstate, hstateEnabled, hstateDigest⟩ :=
    listEntry_eq_some hlisted
  obtain ⟨hself, hstates⟩ := recorded_of_run hrun hlog _ hentry
  -- the directory the state comes from is the one the component is in
  have hname : name = id := (hself _ hmanifest).symm.trans hnamed
  subst hname
  obtain ⟨hleft, installed, hinstalled, hrecorded⟩ := hstates state hstate
  refine ⟨hnamed, ?_, ⟨installed, hinstalled, ?_⟩, verifySignature_signed hideal hverified⟩
  · rw [hleft, ← hstateEnabled, henabled]
  · exact hexDigest_injective (by rw [hdigest, hstateDigest, hrecorded])

/-! ## A small history -/

def noTrouble : InstallOutcomes := ⟨none, .done, .done, .done⟩

/-- An installation under a new id that is not refused adds a directory with the three files. -/
theorem install_fresh {manifest : PluginManifest} {verified : Bool}
    (hvalid : validateManifest manifest = .ok ())
    (hgranted : checkPermissions host manifest.permissions = .ok ())
    (hcomponent : host.component bytes = .ok ())
    (hverified : verifySignature host manifest bytes = .ok verified)
    (hfresh : ∀ entry ∈ root.entries, entry.filesOf manifest.id = none) :
    ((PluginOp.install noTrouble manifest bytes).program host).run root =
      (.ok (), ⟨true, root.readError, root.entries ++ [.directory manifest.id
        (installedFiles manifest ⟨true, hexDigest (host.digest bytes)⟩ bytes)]⟩) := by
  have hcheck : ∀ {α : Type} (a : α) (root : Root), (check (.ok a)).run root = (.ok a, root) :=
    fun _ _ => rfl
  have hcreate : (createDirectory none manifest.id).run root =
      (.ok (), ⟨true, root.readError, root.entries ++ [.directory manifest.id emptyFiles]⟩) := by
    have hnone : root.filesOf manifest.id = none := List.findSome?_eq_none_iff.mpr hfresh
    unfold createDirectory Fallible.run
    dsimp only
    rw [hnone]
  have hwrite : ∀ files file content, (writeFile .done manifest.id file content).run
      ⟨true, root.readError, root.entries ++ [.directory manifest.id files]⟩ =
      (.ok (), ⟨true, root.readError,
        root.entries ++ [.directory manifest.id (files.set file (.ok content))]⟩) := by
    intro files file content
    have hother : root.entries.map (Entry.set manifest.id file (.ok content)) = root.entries := by
      refine (List.map_congr_left fun entry hentry => ?_).trans (List.map_id _)
      have hnone := hfresh entry hentry
      cases entry with
      | directory other files =>
        have hne : other ≠ manifest.id := by simpa [Entry.filesOf] using hnone
        rw [Entry.set, if_neg hne]
        rfl
      | _ => rfl
    unfold writeFile Fallible.run
    dsimp only
    rw [Root.set, List.map_append, hother, List.map_singleton, Entry.set, if_pos rfl]
  have hfiles : ((emptyFiles.set .wasm (.ok bytes)).set .manifest
      (.ok (prettyBytes (PluginManifest.codec.write manifest)))).set .state
      (.ok (prettyBytes (PluginState.codec.write ⟨true, hexDigest (host.digest bytes)⟩))) =
      installedFiles manifest ⟨true, hexDigest (host.digest bytes)⟩ bytes := by
    funext file
    cases file <;> rfl
  rw [PluginOp.program, install, hvalid, hgranted, hcomponent, hverified, ← hfiles]
  simp only [noTrouble, Fallible.run_bind, hcheck, Except.mapError, hcreate, hwrite]
  rfl

/-- The root with two plugins, the second with another component. -/
def twoPlugins : Root :=
  readableRoot [.directory "a" (installedFiles (smallManifest "a" none none) smallState
      emptyComponent),
    .directory "b" (installedFiles (smallManifest "b" none none)
      ⟨true, hexDigest (smallDigest namedComponent)⟩ namedComponent)]

def twoInstallations : List PluginEvent :=
  [.called (.install noTrouble (smallManifest "b" none none) namedComponent) true,
    .called (.install noTrouble (smallManifest "a" none none) emptyComponent) true]

theorem twoPlugins_run : PluginRun smallHost twoInstallations twoPlugins := by
  have hfirst := PluginRun.call
    (.install noTrouble (smallManifest "a" none none) emptyComponent)
    (PluginRun.start : PluginRun smallHost [] ⟨false, none, []⟩)
  rw [install_fresh (by decide +kernel) rfl rfl rfl (by simp)] at hfirst
  have hsecond := PluginRun.call
    (.install noTrouble (smallManifest "b" none none) namedComponent) hfirst
  rw [install_fresh (by decide +kernel) rfl rfl rfl (by simp [Entry.filesOf, smallManifest])]
    at hsecond
  exact hsecond

theorem twoInstallations_vouched :
    PluginRun smallHost twoInstallations twoPlugins ∧
      ((∀ id plugin bytes, Instantiates smallHost twoPlugins id plugin bytes →
        Vouched smallHost (fun _ _ => False) twoInstallations id plugin bytes) ∧
      ∀ m m' bytes bytes', pluginSignaturePayload smallDigest m bytes =
          pluginSignaturePayload smallDigest m' bytes' ↔
        SignedAlike m m' ∧ smallDigest bytes = smallDigest bytes') :=
  ⟨twoPlugins_run, vouched_of_run (fun _ _ _ h => (by cases h)) twoPlugins_run
    (by simp [twoInstallations, PluginEvent.NamesItself])⟩

/-- A manifest of the first plugin that comes first in the order of names. -/
def copiedManifest : PluginManifest := { smallManifest "a" none none with name := "Copy" }

/-- The second plugin has got a manifest of the first, and the first its component. -/
def misdirected : Root :=
  (twoPlugins.set "b" .manifest (.ok (prettyBytes (PluginManifest.codec.write copiedManifest)))).set
    "a" .wasm (.ok namedComponent)

def misdirection : List PluginEvent :=
  .tampered "a" .wasm (.ok namedComponent) ::
    .tampered "b" .manifest (.ok (prettyBytes (PluginManifest.codec.write copiedManifest))) ::
      twoInstallations

def misdirectedPlugin : InstalledPlugin :=
  ⟨copiedManifest, true, hexDigest (smallDigest namedComponent), false⟩

theorem list_of_entries (hpresent : root.present = true) (hreadable : root.readError = none)
    (h : listEntries host root.entries = .ok plugins) :
    list host root = .ok (plugins.insertionSort byName) := by
  rw [list, hpresent, hreadable, h]
  rfl

theorem misdirected_instantiates :
    Instantiates smallHost misdirected "a" misdirectedPlugin namedComponent := by
  have hlist : listEntries smallHost misdirected.entries =
      .ok [⟨smallManifest "a" none none, true, smallState.sha256, false⟩, misdirectedPlugin] := by
    refine listEntries_cons_ok_iff.mpr
      ⟨some ⟨smallManifest "a" none none, true, smallState.sha256, false⟩, [misdirectedPlugin],
        ?_, listEntries_cons_ok_iff.mpr ⟨some misdirectedPlugin, [], ?_, rfl, rfl⟩, rfl⟩
    · exact (listEntry_of_read
        (readJson_written (a := smallManifest "a" none none) (writable_manifest _))
        (readJson_written (a := smallState) (writable_state _))).trans rfl
    · exact (listEntry_of_read (readJson_written (a := copiedManifest) (writable_manifest _))
        (readJson_written (a := ⟨true, hexDigest (smallDigest namedComponent)⟩)
          (writable_state _))).trans rfl
  have hfind : findPlugin smallHost misdirected "a" = .ok misdirectedPlugin := by
    have hsorted : List.insertionSort byName
        [⟨smallManifest "a" none none, true, smallState.sha256, false⟩, misdirectedPlugin] =
        [misdirectedPlugin, ⟨smallManifest "a" none none, true, smallState.sha256, false⟩] := by
      decide +kernel
    have hall : list smallHost misdirected =
        .ok [misdirectedPlugin, ⟨smallManifest "a" none none, true, smallState.sha256, false⟩] := by
      rw [← hsorted]
      exact list_of_entries rfl rfl hlist
    rw [findPlugin, hall]
    rfl
  refine ⟨.transformer, ?_⟩
  rw [approve, hfind]
  rfl

/-- What is instantiated then is not what was installed. -/
theorem misdirection_unvouched :
    ¬∀ (host : PluginHost Unit) (Signed : Unit → Bytes → Prop),
      (∀ key payload signature, host.checkSignature key payload signature = .ok () →
        Signed key payload) →
      ∀ log root, PluginRun host log root → ∀ id plugin bytes,
        Instantiates host root id plugin bytes → Vouched host Signed log id plugin bytes := by
  intro h
  have hrun : PluginRun smallHost misdirection misdirected :=
    (twoPlugins_run.tamper "b" .manifest _ (by decide)).tamper "a" .wasm _ (by decide)
  obtain ⟨installed, hinstalled, hdigest⟩ := (h smallHost (fun _ _ => False)
    (fun _ _ _ h => (by cases h)) _ _ hrun _ _ _ misdirected_instantiates).digest
  have hempty : installedBytes "a" misdirection = some emptyComponent := by decide +kernel
  rw [hempty] at hinstalled
  cases hinstalled
  exact absurd hdigest (by decide +kernel)

end ApiVoy.Plugins
