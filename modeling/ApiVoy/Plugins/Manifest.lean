/-
# Plugin manifests

What a plugin says about itself, how that is written to and read from a file, and the bytes a
publisher signs: the digest of the component and, as JSON, everything the manifest says except
the signature. The digest has a fixed length and the JSON can be read back, so the bytes that are
signed determine all of it.
-/

import ApiVoy.Foundation.Codec
import ApiVoy.Foundation.JsonCut
import ApiVoy.Foundation.Text

namespace ApiVoy.Plugins

open Foundation

inductive PluginKind where
  | protocol | auth | importer | transformer
  deriving DecidableEq

inductive PluginPermission where
  | network | filesystemRead | filesystemWrite | secretsRead
  deriving DecidableEq

structure PluginManifest where
  id : String
  name : String
  version : String
  kind : PluginKind
  permissions : List PluginPermission
  description : String
  publisherKeyId : Option String
  signatureBase64 : Option String
  deriving DecidableEq

structure InstalledPlugin where
  manifest : PluginManifest
  enabled : Bool
  sha256 : String
  signatureVerified : Bool
  deriving DecidableEq

structure PluginState where
  enabled : Bool
  sha256 : String
  deriving DecidableEq

/-! ## Files -/

def PluginKind.label : PluginKind → String
  | .protocol => "protocol"
  | .auth => "auth"
  | .importer => "importer"
  | .transformer => "transformer"

def PluginKind.codec : Codec PluginKind :=
  .name PluginKind.label [.protocol, .auth, .importer, .transformer] fun kind => by
    cases kind <;> decide

def PluginPermission.label : PluginPermission → String
  | .network => "network"
  | .filesystemRead => "filesystem_read"
  | .filesystemWrite => "filesystem_write"
  | .secretsRead => "secrets_read"

def PluginPermission.codec : Codec PluginPermission :=
  .name PluginPermission.label [.network, .filesystemRead, .filesystemWrite, .secretsRead]
    fun permission => by cases permission <;> decide

def permissionsCodec : Codec (List PluginPermission) := .list PluginPermission.codec

/-- A member that is left out when there is no value for it. -/
def optionalText (name : String) : Option String → List (String × Json)
  | none => []
  | some text => [(name, Codec.optText.write (some text))]

def PluginManifest.members (manifest : PluginManifest) : List (String × Json) :=
  [("id", Codec.text.write manifest.id), ("name", Codec.text.write manifest.name),
    ("version", Codec.text.write manifest.version),
    ("kind", PluginKind.codec.write manifest.kind),
    ("permissions", permissionsCodec.write manifest.permissions),
    ("description", Codec.text.write manifest.description)] ++
    (optionalText "publisherKeyId" manifest.publisherKeyId ++
      optionalText "signatureBase64" manifest.signatureBase64)

def PluginManifest.ofMembers (ms : List (String × Json)) : Option PluginManifest := do
  let id ← Codec.text.field "id" ms
  let name ← Codec.text.field "name" ms
  let version ← Codec.text.field "version" ms
  let kind ← PluginKind.codec.field "kind" ms
  let permissions ← permissionsCodec.fieldOr [] "permissions" ms
  let description ← Codec.text.fieldOr "" "description" ms
  let publisherKeyId ← Codec.optText.fieldOr none "publisherKeyId" ms
  let signatureBase64 ← Codec.optText.fieldOr none "signatureBase64" ms
  return { id, name, version, kind, permissions, description, publisherKeyId, signatureBase64 }

def PluginManifest.codec : Codec PluginManifest :=
  .record PluginManifest.members PluginManifest.ofMembers fun manifest => by
    obtain ⟨id, name, version, kind, permissions, description, key, signature⟩ := manifest
    cases key <;> cases signature <;>
      simp [PluginManifest.members, PluginManifest.ofMembers, optionalText]

def PluginState.codec : Codec PluginState :=
  .record
    (fun state =>
      [("enabled", Codec.boolean.write state.enabled), ("sha256", Codec.text.write state.sha256)])
    (fun ms => do
      let enabled ← Codec.boolean.field "enabled" ms
      let sha256 ← Codec.text.field "sha256" ms
      return { enabled, sha256 })
    (fun state => by simp)

/-- The pretty text of a value, two characters wide. -/
def prettyBytes (value : Json) : Bytes := JsonText.jsonBytes 2 value

theorem itemsPrintable_texts {α : Type} (label : α → String) (items : List α) :
    JsonText.itemsPrintable (fun _ => []) (items.map fun item => Json.str (label item)) = true := by
  induction items with
  | nil => rfl
  | cons item items ih =>
    rw [List.map_cons, JsonText.itemsPrintable, ih]
    rfl

theorem printable_permissions (permissions : List PluginPermission) :
    JsonText.Writable (permissionsCodec.write permissions) :=
  itemsPrintable_texts PluginPermission.label permissions

variable (manifest : PluginManifest)

theorem writable_manifest : JsonText.Writable (.obj manifest.members) := by
  obtain ⟨id, name, version, kind, permissions, description, key, signature⟩ := manifest
  have hpermissions := printable_permissions permissions
  cases key <;> cases signature <;>
    simp [JsonText.Writable, PluginManifest.members, optionalText, JsonText.printable,
      JsonText.membersPrintable, Codec.text, Codec.optText, Codec.nullable, PluginKind.codec,
      Codec.name] <;> exact hpermissions

theorem writable_state (state : PluginState) :
    JsonText.Writable (PluginState.codec.write state) := by
  simp [JsonText.Writable, PluginState.codec, Codec.record, JsonText.printable,
    JsonText.membersPrintable, Codec.text, Codec.boolean]

/-! ## What a publisher signs -/

abbrev Digest := { bytes : Bytes // bytes.length = 32 }

/-- The members that are signed, in the order of their names. -/
def signatureMetadata (manifest : PluginManifest) : Json :=
  .obj [("description", Codec.text.write manifest.description),
    ("id", Codec.text.write manifest.id), ("kind", PluginKind.codec.write manifest.kind),
    ("name", Codec.text.write manifest.name),
    ("permissions", permissionsCodec.write manifest.permissions),
    ("publisherKeyId", Codec.optText.write manifest.publisherKeyId),
    ("version", Codec.text.write manifest.version)]

def pluginSignaturePayload (digest : Bytes → Digest) (manifest : PluginManifest)
    (pluginBytes : Bytes) : Bytes :=
  utf8 "ApiVoy Plugin Signature v1" ++ [0] ++ (digest pluginBytes).val ++
    JsonText.jsonBytes 0 (signatureMetadata manifest)

theorem writable_signatureMetadata : JsonText.Writable (signatureMetadata manifest) := by
  have hpermissions := printable_permissions manifest.permissions
  cases hkey : manifest.publisherKeyId <;>
    simp [JsonText.Writable, signatureMetadata, JsonText.printable, JsonText.membersPrintable,
      Codec.text, Codec.optText, Codec.nullable, PluginKind.codec, Codec.name, hkey] <;>
    exact hpermissions

theorem write_injective {α : Type} (c : Codec α) : Function.Injective c.write := by
  intro a b h
  have hread := c.read_write a
  rw [h, c.read_write b] at hread
  exact (Option.some.inj hread).symm

/-- Do two manifests agree on everything that is signed? -/
structure SignedAlike (m m' : PluginManifest) : Prop where
  id : m.id = m'.id
  name : m.name = m'.name
  version : m.version = m'.version
  kind : m.kind = m'.kind
  permissions : m.permissions = m'.permissions
  description : m.description = m'.description
  publisherKeyId : m.publisherKeyId = m'.publisherKeyId

variable {m m' : PluginManifest}

theorem signatureMetadata_eq_iff :
    signatureMetadata m = signatureMetadata m' ↔ SignedAlike m m' := by
  constructor
  · intro h
    simp only [signatureMetadata, Json.obj.injEq, List.cons.injEq, Prod.mk.injEq, true_and,
      and_true] at h
    obtain ⟨hdescription, hid, hkind, hname, hpermissions, hkey, hversion⟩ := h
    exact ⟨write_injective _ hid, write_injective _ hname, write_injective _ hversion,
      write_injective _ hkind, write_injective _ hpermissions, write_injective _ hdescription,
      write_injective _ hkey⟩
  · rintro ⟨hid, hname, hversion, hkind, hpermissions, hdescription, hkey⟩
    simp only [signatureMetadata, hid, hname, hversion, hkind, hpermissions, hdescription, hkey]

/-- The bytes that are signed determine the digest and everything else that is signed. -/
theorem pluginSignaturePayload_eq_iff {digest : Bytes → Digest} {bytes bytes' : Bytes} :
    pluginSignaturePayload digest m bytes = pluginSignaturePayload digest m' bytes' ↔
      SignedAlike m m' ∧ digest bytes = digest bytes' := by
  constructor
  · intro h
    have hlength : (digest bytes).val.length = (digest bytes').val.length :=
      (digest bytes).property.trans (digest bytes').property.symm
    obtain ⟨hfront, hjson⟩ := List.append_inj h (by
      rw [List.length_append, hlength, ← List.length_append])
    have hdigest := List.append_cancel_left hfront
    exact ⟨signatureMetadata_eq_iff.mp (JsonText.jsonBytes_injective
      (writable_signatureMetadata m) (writable_signatureMetadata m') hjson), Subtype.ext hdigest⟩
  · rintro ⟨halike, hdigest⟩
    rw [pluginSignaturePayload, pluginSignaturePayload, signatureMetadata_eq_iff.mpr halike, hdigest]

/-! ## Checks -/

inductive PluginError where
  | manifest (message : String)
  | permission (name : String)
  | component (message : String)
  | notFound (id : String)
  | disabled (id : String)
  | execution (message : String)
  | storage (message : String)
  | signature (message : String)
  deriving DecidableEq

def isIdByte (byte : UInt8) : Bool :=
  (0x30 ≤ byte && byte ≤ 0x39) || (0x41 ≤ byte && byte ≤ 0x5A) || (0x61 ≤ byte && byte ≤ 0x7A) ||
    byte = 0x2D || byte = 0x5F

def validateId (id : String) : Except PluginError Unit :=
  if id = "" ∨ 80 < (utf8 id).length ∨ (utf8 id).all isIdByte = false then
    .error (.manifest "id must contain only ASCII letters, digits, '-' or '_'")
  else .ok ()

def validateManifest (manifest : PluginManifest) : Except PluginError Unit := do
  validateId manifest.id
  if trim manifest.name = "" ∨ trim manifest.version = "" then
    .error (.manifest "name and version are required")
  else pure ()

end ApiVoy.Plugins
