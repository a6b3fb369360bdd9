/-
# The plugin manager

The plugins are the directories below one root: each holds a component, a manifest and a state,
which an installation writes in this order. Listing reads every directory in turn; what a plugin
is called by is the id in its manifest, while its files are found under the name of its
directory. Before a component is instantiated its digest and its signature are checked again.
-/

import ApiVoy.Foundation.Fallible
import ApiVoy.Plugins.Manifest
import Mathlib.Data.List.Sort

namespace ApiVoy.Plugins

open Foundation

/-! ## The files -/

inductive PluginFile where
  | wasm | manifest | state
  deriving DecidableEq

/-- What reading the files of a plugin gives: their bytes, or why there are none. -/
abbrev PluginFiles := PluginFile → Except String Bytes

/-- What reading the root gives, one entry after another. -/
inductive Entry where
  | broken (error : String)
  | file (name : String)
  | directory (name : String) (files : PluginFiles)

structure Root where
  present : Bool
  /-- Why the entries cannot be listed. -/
  readError : Option String
  entries : List Entry

def Entry.filesOf (name : String) : Entry → Option PluginFiles
  | .directory other files => if other = name then some files else none
  | _ => none

/-- The files of the directory below the root that has some name. -/
def Root.filesOf (root : Root) (name : String) : Option PluginFiles :=
  root.entries.findSome? (Entry.filesOf name)

/-- What is outside the manager. -/
structure PluginHost (Key : Type) where
  json : JsonText.Reader
  /-- Why bytes are no text of the value that was asked for. -/
  jsonError : Bytes → String
  digest : Bytes → Digest
  component : Bytes → Except String Unit
  /-- Instantiate a component and call one of its exports. -/
  call : Bytes → String → String → Except String String
  granted : PluginPermission → Bool
  trustedKeys : String → Option Key
  /-- Is that the text of a signature of the bytes? -/
  checkSignature : Key → Bytes → String → Except String Unit
  allowUnsigned : Bool
  /-- The component below a name that is no directory of the root. -/
  elsewhere : String → Except String Bytes

variable {Key : Type} (host : PluginHost Key)

/-! ## Reading -/

def readJson {α : Type} (c : Codec α) : Except String Bytes → Except PluginError α
  | .error error => .error (.storage error)
  | .ok bytes =>
    match (host.json.parse bytes).bind c.read with
    | none => .error (.storage (host.jsonError bytes))
    | some a => .ok a

theorem readJson_written {host : PluginHost Key} {α : Type} {c : Codec α} {a : α}
    (h : JsonText.Writable (c.write a)) :
    readJson host c (.ok (prettyBytes (c.write a))) = .ok a := by
  rw [readJson, prettyBytes, host.json.parse_written 2 _ h, Option.bind_some, c.read_write]

/-- What a write that failed has left cannot be read. -/
theorem readJson_torn {host : PluginHost Key} {α : Type} {c : Codec α} {a : α}
    {members : List (String × Json)} (hmembers : c.write a = .obj members)
    (h : JsonText.Writable (c.write a)) (written : Nat) {b : α} :
    readJson host c (.ok ((prettyBytes (c.write a)).take
      (min written ((prettyBytes (c.write a)).length - 1)))) ≠ .ok b := by
  have hlength : 0 < (prettyBytes (c.write a)).length := by
    rw [hmembers]
    exact List.length_pos_iff.mpr (JsonText.jsonBytes_obj_ne_nil 2 members)
  have hshort : min written ((prettyBytes (c.write a)).length - 1) <
      (prettyBytes (c.write a)).length := by omega
  rw [hmembers] at h hshort ⊢
  have hcut : host.json.parse ((prettyBytes (.obj members)).take
      (min written ((prettyBytes (.obj members)).length - 1))) = none :=
    host.json.parse_cut 2 members _ h hshort
  rw [readJson, hcut, Option.bind_none]
  simp

def verifySignature (manifest : PluginManifest) (pluginBytes : Bytes) : Except PluginError Bool :=
  match manifest.publisherKeyId, manifest.signatureBase64 with
  | none, none =>
    if host.allowUnsigned then .ok false
    else .error (.signature "unsigned plugins are disabled")
  | some keyId, some encoded =>
    match host.trustedKeys keyId with
    | none => .error (.signature ("publisher key `" ++ keyId ++ "` is not trusted"))
    | some key =>
      match host.checkSignature key (pluginSignaturePayload host.digest manifest pluginBytes)
          encoded with
      | .error error => .error (.signature error)
      | .ok () => .ok true
  | _, _ => .error (.signature "publisherKeyId and signatureBase64 must be supplied together")

/-- The signature of a plugin that is listed. It is only looked at when there is one. -/
def listedSignature (manifest : PluginManifest) (wasm : Except String Bytes) :
    Except PluginError Bool :=
  if manifest.signatureBase64.isSome then
    match wasm with
    | .error error => .error (.storage error)
    | .ok bytes => verifySignature host manifest bytes
  else .ok false

/-- The plugin of an entry. A directory without a readable manifest and state is passed over. -/
def listEntry : Entry → Except PluginError (Option InstalledPlugin)
  | .broken error => .error (.storage error)
  | .file _ => .ok none
  | .directory _ files =>
    match readJson host PluginManifest.codec (files .manifest),
        readJson host PluginState.codec (files .state) with
    | .ok manifest, .ok state =>
      (listedSignature host manifest (files .wasm)).map fun verified =>
        some ⟨manifest, state.enabled, state.sha256, verified⟩
    | _, _ => .ok none

def listEntries : List Entry → Except PluginError (List InstalledPlugin)
  | [] => .ok []
  | entry :: rest => do
    let plugin ← listEntry host entry
    let plugins ← listEntries rest
    pure (plugin.toList ++ plugins)

def byName (a b : InstalledPlugin) : Prop :=
  textLe a.manifest.name.toList b.manifest.name.toList = true

instance : DecidableRel byName := fun a b =>
  inferInstanceAs (Decidable (textLe a.manifest.name.toList b.manifest.name.toList = true))

/-- All plugins; of two with one name the one that is read first comes first. -/
def list (root : Root) : Except PluginError (List InstalledPlugin) :=
  if root.present = false then .ok []
  else
    match root.readError with
    | some error => .error (.storage error)
    | none => (listEntries host root.entries).map (List.insertionSort byName)

/-! ## Calling a plugin -/

def findPlugin (root : Root) (id : String) : Except PluginError InstalledPlugin := do
  let plugins ← list host root
  match plugins.find? fun plugin => plugin.manifest.id = id with
  | none => .error (.notFound id)
  | some plugin => pure plugin

def PluginKind.debug : PluginKind → String
  | .protocol => "Protocol"
  | .auth => "Auth"
  | .importer => "Importer"
  | .transformer => "Transformer"

def PluginKind.exportName : PluginKind → String
  | .protocol => "execute"
  | .auth => "apply-auth"
  | .importer => "import"
  | .transformer => "transform"

def hexByte (byte : UInt8) : List Char :=
  [JsonText.hexDigit (byte.toNat / 16), JsonText.hexDigit (byte.toNat % 16)]

def hexDigest (digest : Digest) : String := String.ofList (digest.val.flatMap hexByte)

/-- The component below a name. -/
def readWasm (root : Root) (id : String) : Except String Bytes :=
  match root.filesOf id with
  | some files => files .wasm
  | none => host.elsewhere id

/-- The plugin that is called and the bytes that are instantiated for it. -/
def approve (root : Root) (id : String) (expectedKind : PluginKind) :
    Except PluginError (InstalledPlugin × Bytes) := do
  let plugin ← findPlugin host root id
  if plugin.enabled = false then .error (.disabled id)
  else if plugin.manifest.kind ≠ expectedKind then
    .error (.manifest ("plugin `" ++ id ++ "` is " ++ plugin.manifest.kind.debug ++
      ", expected " ++ expectedKind.debug))
  else do
    let bytes ← (readWasm host root id).mapError .storage
    if hexDigest (host.digest bytes) ≠ plugin.sha256 then
      .error (.component "plugin checksum changed after installation")
    else do
      let _ ← verifySignature host plugin.manifest bytes
      let _ ← (host.component bytes).mapError .component
      pure (plugin, bytes)

def invokeTyped (root : Root) (id : String) (expectedKind : PluginKind) (exportName : String)
    (input : String) : Except PluginError String := do
  let (_, bytes) ← approve host root id expectedKind
  (host.call bytes exportName input).mapError .execution

def invoke (root : Root) (id input : String) : Except PluginError String := do
  let plugin ← findPlugin host root id
  invokeTyped host root id plugin.manifest.kind plugin.manifest.kind.exportName input

/-! ## Changing the files -/

/-- How an effect on the file system ends. A write that fails has changed nothing, or it has
written less than all; a removal that fails has left some of the files. -/
inductive WriteOutcome where
  | done
  | refused (error : String)
  | torn (error : String) (written : Nat)

inductive RemoveOutcome where
  | done
  | failed (error : String) (left : PluginFile → Bool)

abbrev PluginM := Fallible Root PluginError

/-- A check that changes nothing. -/
def check {α : Type} (result : Except PluginError α) : PluginM α := fun root => (result, root)

def PluginFiles.set (files : PluginFiles) (file : PluginFile) (content : Except String Bytes) :
    PluginFiles :=
  Function.update files file content

/-- Put a file into the directories of that name. -/
def Entry.set (name : String) (file : PluginFile) (content : Except String Bytes) : Entry → Entry
  | .directory other files =>
    .directory other (if other = name then PluginFiles.set files file content else files)
  | entry => entry

def Root.set (root : Root) (name : String) (file : PluginFile) (content : Except String Bytes) :
    Root :=
  { root with entries := root.entries.map (Entry.set name file content) }

def writeFile (outcome : WriteOutcome) (name : String) (file : PluginFile) (bytes : Bytes) :
    PluginM Unit := fun root =>
  match outcome with
  | .done => (.ok (), root.set name file (.ok bytes))
  | .refused error => (.error (.storage error), root)
  | .torn error written =>
    (.error (.storage error),
      root.set name file (.ok (bytes.take (min written (bytes.length - 1)))))

/-- No file of a directory is there yet. -/
def emptyFiles : PluginFiles := fun _ => .error "No such file or directory"

/-- Create the directory of a plugin, and the root with it, unless it is there. -/
def createDirectory (refused : Option String) (name : String) : PluginM Unit := fun root =>
  match root.filesOf name with
  | some _ => (.ok (), root)
  | none =>
    match refused with
    | some error => (.error (.storage error), root)
    | none =>
      (.ok (), { root with
        present := true
        entries := root.entries ++ [.directory name emptyFiles] })

/-- What a failed removal has left of an entry. -/
def Entry.leave (name error : String) (left : PluginFile → Bool) : Entry → Entry
  | .directory other files =>
    .directory other
      (if other = name then fun file => if left file then files file else .error error else files)
  | entry => entry

def removeDirectory (outcome : RemoveOutcome) (name : String) : PluginM Unit := fun root =>
  match outcome with
  | .done =>
    (.ok (), { root with
      entries := root.entries.filter fun entry => (entry.filesOf name).isNone })
  | .failed error left =>
    (.error (.storage error), { root with entries := root.entries.map (Entry.leave name error left) })

def PluginPermission.debug : PluginPermission → String
  | .network => "Network"
  | .filesystemRead => "FilesystemRead"
  | .filesystemWrite => "FilesystemWrite"
  | .secretsRead => "SecretsRead"

def checkPermissions : List PluginPermission → Except PluginError Unit
  | [] => .ok ()
  | permission :: rest =>
    if host.granted permission then checkPermissions rest
    else .error (.permission permission.debug)

/-- How the effects of an installation end. -/
structure InstallOutcomes where
  directory : Option String
  wasm : WriteOutcome
  manifest : WriteOutcome
  state : WriteOutcome

def install (outcomes : InstallOutcomes) (manifest : PluginManifest) (bytes : Bytes) :
    PluginM InstalledPlugin := do
  check (validateManifest manifest)
  check (checkPermissions host manifest.permissions)
  check ((host.component bytes).mapError .component)
  let sha256 := hexDigest (host.digest bytes)
  let signatureVerified ← check (verifySignature host manifest bytes)
  createDirectory outcomes.directory manifest.id
  writeFile outcomes.wasm manifest.id .wasm bytes
  writeFile outcomes.manifest manifest.id .manifest
    (prettyBytes (PluginManifest.codec.write manifest))
  writeFile outcomes.state manifest.id .state
    (prettyBytes (PluginState.codec.write ⟨true, sha256⟩))
  pure ⟨manifest, true, sha256, signatureVerified⟩

/-- The files of a plugin that is addressed by its id. -/
def pluginDirectory (id : String) : PluginM PluginFiles := fun root =>
  match validateId id with
  | .error error => (.error error, root)
  | .ok () =>
    match root.filesOf id with
    | some files => (.ok files, root)
    | none => (.error (.notFound id), root)

def setEnabled (outcome : WriteOutcome) (id : String) (enabled : Bool) : PluginM Unit := do
  let files ← pluginDirectory id
  let state ← check (readJson host PluginState.codec (files .state))
  writeFile outcome id .state (prettyBytes (PluginState.codec.write { state with enabled }))

def uninstall (outcome : RemoveOutcome) (id : String) : PluginM Unit := do
  let _ ← pluginDirectory id
  removeDirectory outcome id

end ApiVoy.Plugins
