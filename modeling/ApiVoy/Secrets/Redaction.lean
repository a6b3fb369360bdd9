/-
# Redaction of logs

The cached secrets are masked one after another, in the order in which the map of the cache is
iterated. Nothing of them is left, and the order does not matter, exactly when no secret touches
another one or the mask.
-/

import Mathlib.Data.Finset.Dedup
import ApiVoy.Foundation.Separation
import ApiVoy.Foundation.Slices
import ApiVoy.Secrets.SecretStore

namespace ApiVoy.Secrets

open Foundation

def redactionMask : String := "***"

/-- Shorter values are not masked. -/
def isMasked (value : String) : Bool := 4 ≤ byteSize value.toList

/-- Replace what is not empty, from left to right. -/
def replaceText (part mask text : String) : String :=
  String.ofList (replaceAll part.toList mask.toList text.toList)

/-- Mask known secret values in free-form text, in the order in which the names of the cache are
iterated. -/
def SecretStore.redact (store : SecretStore) (order : List String) (text : String) : String :=
  (order.filterMap store.cache).foldl
    (fun out value => if isMasked value then replaceText value redactionMask out else out) text

/-- An order in which the map of the cache can be iterated. -/
def SecretStore.Iterates (store : SecretStore) (order : List String) : Prop :=
  order.Nodup ∧ ∀ name, name ∈ order ↔ store.cache name ≠ none

/-- Whatever the text and the order, no masked secret is left, the order does not matter, and a
secret that contains another one is masked as if this were done before anything else. -/
structure SecretStore.Redacts (store : SecretStore) : Prop where
  complete : ∀ order, store.Iterates order → ∀ text name value, store.cache name = some value →
    isMasked value → ¬value.toList <:+: (store.redact order text).toList
  unordered : ∀ order order', store.Iterates order → store.Iterates order' → ∀ text,
    store.redact order text = store.redact order' text
  covered : ∀ order, store.Iterates order → ∀ text name name' whole part,
    store.cache name = some whole → store.cache name' = some part → isMasked whole →
    part ≠ whole → part.toList <:+: whole.toList →
    store.redact order text = store.redact order (replaceText whole redactionMask text)

/-- The secrets of a set are cached, under whatever names. -/
def SecretStore.Caches (store : SecretStore) (secrets : Finset String) : Prop :=
  ∀ value, value ∈ secrets ↔ ∃ name, store.cache name = some value

noncomputable def maskedSecrets (secrets : Finset String) : List (List Char) :=
  (secrets.filter fun value => isMasked value).toList.map String.toList

/-- No masked secret is part of another one or of the mask, or contains the mask, and none begins
as another one or the mask ends. -/
def Untouched (secrets : Finset String) : Prop :=
  Separated redactionMask.toList (maskedSecrets secrets)

/-! ## Secrets and the mask -/

theorem mem_maskedSecrets_iff {secrets : Finset String} {part : List Char} :
    part ∈ maskedSecrets secrets ↔
      ∃ value ∈ secrets, isMasked value ∧ value.toList = part := by
  rw [maskedSecrets, List.mem_map]
  constructor
  · rintro ⟨value, hvalue, rfl⟩
    have ⟨hmem, hmasked⟩ := Finset.mem_filter.mp (Finset.mem_toList.mp hvalue)
    exact ⟨value, hmem, hmasked, rfl⟩
  · rintro ⟨value, hmem, hmasked, rfl⟩
    exact ⟨value, Finset.mem_toList.mpr (Finset.mem_filter.mpr ⟨hmem, hmasked⟩), rfl⟩

theorem toList_replaceText (part mask text : String) :
    (replaceText part mask text).toList = replaceAll part.toList mask.toList text.toList :=
  String.toList_ofList

/-- The secrets are masked one after another. -/
theorem toList_redact (store : SecretStore) (order : List String) (text : String) :
    (store.redact order text).toList =
      replaceEach (((order.filterMap store.cache).filter isMasked).map String.toList)
        redactionMask.toList text.toList := by
  rw [SecretStore.redact]
  induction order.filterMap store.cache generalizing text with
  | nil => rfl
  | cons value values ih =>
    rw [List.foldl_cons, ih]
    cases hmasked : isMasked value with
    | true =>
      rw [List.filter_cons_of_pos hmasked, if_pos rfl, toList_replaceText]
      rfl
    | false =>
      rw [List.filter_cons_of_neg (by simp [hmasked]), if_neg Bool.false_ne_true]

theorem byteSize_le_within {part text : List Char} (h : part <:+: text) :
    byteSize part ≤ byteSize text := by
  obtain ⟨before, behind, rfl⟩ := h
  rw [byteSize, byteSize, List.map_append, List.map_append, List.sum_append, List.sum_append]
  omega

/-- Masked secrets have more bytes than the mask. -/
theorem maskedBy (secrets : Finset String) :
    MaskedBy Char.utf8Size '*' redactionMask.toList (maskedSecrets secrets) := by
  have hmask : byteSize redactionMask.toList = 3 := by decide
  have hlarge : ∀ part ∈ maskedSecrets secrets, byteSize redactionMask.toList < byteSize part := by
    intro part hpart
    obtain ⟨value, -, hmasked, rfl⟩ := mem_maskedSecrets_iff.mp hpart
    have hbytes : 4 ≤ byteSize value.toList := of_decide_eq_true hmasked
    omega
  constructor
  · exact ⟨2, rfl⟩
  · exact (Finset.nodup_toList _).map fun _ _ => String.toList_inj.mp
  · intro part hpart hwithin
    exact absurd (byteSize_le_within hwithin) (Nat.not_le.mpr (hlarge part hpart))
  · exact hlarge

/-! ## Caches of a set of secrets -/

section Caches

variable {store : SecretStore} {secrets : Finset String} {order : List String}

/-- What is masked, in whatever order, are the masked secrets of the set. -/
theorem mem_masked_iff (hcaches : store.Caches secrets) (horder : store.Iterates order)
    (part : List Char) :
    part ∈ ((order.filterMap store.cache).filter isMasked).map String.toList ↔
      part ∈ maskedSecrets secrets := by
  rw [mem_maskedSecrets_iff, List.mem_map]
  refine exists_congr fun value => ?_
  rw [List.mem_filter, List.mem_filterMap, hcaches value, and_assoc]
  refine and_congr_left fun _ => exists_congr fun name => and_iff_right_of_imp fun hname => ?_
  rw [horder.2 name, hname]
  exact Option.some_ne_none value

/-- Secrets that do not touch are masked in one pass. -/
theorem toList_redact_of_untouched (h : Untouched secrets) (hcaches : store.Caches secrets)
    (horder : store.Iterates order) (text : String) :
    (store.redact order text).toList =
      maskAll (maskedSecrets secrets) redactionMask.toList text.toList := by
  have hmem := mem_masked_iff hcaches horder
  have hseparated := Separated.subset h fun part hpart => (hmem part).mp hpart
  rw [toList_redact, hseparated.replaceEach_eq_maskAll]
  exact hseparated.maskAll_congr hmem _

/-- Masking one of the secrets before the others changes nothing. -/
theorem maskAll_replaceText (h : Untouched secrets) {whole : String} (hwhole : whole ∈ secrets)
    (hmasked : isMasked whole) (text : String) :
    maskAll (maskedSecrets secrets) redactionMask.toList
        (replaceText whole redactionMask text).toList =
      maskAll (maskedSecrets secrets) redactionMask.toList text.toList := by
  have hmem : whole.toList ∈ maskedSecrets secrets :=
    mem_maskedSecrets_iff.mpr ⟨whole, hwhole, hmasked, rfl⟩
  have hall (part : List Char) :
      part ∈ whole.toList :: maskedSecrets secrets ↔ part ∈ maskedSecrets secrets :=
    ⟨fun hpart => (List.mem_cons.mp hpart).elim (· ▸ hmem) id, List.mem_cons_of_mem _⟩
  have hseparated := Separated.subset h fun part hpart => (hall part).mp hpart
  rw [toList_replaceText, ← Separated.replaceEach_eq_maskAll h, ← hseparated.maskAll_congr hall,
    ← hseparated.replaceEach_eq_maskAll]
  rfl

theorem redacts_of_untouched (h : Untouched secrets) (hcaches : store.Caches secrets) :
    store.Redacts where
  complete order horder text name value hvalue hmasked := by
    rw [toList_redact_of_untouched h hcaches horder]
    exact Separated.not_infix_maskAll h (mem_maskedSecrets_iff.mpr
      ⟨value, (hcaches value).mpr ⟨name, hvalue⟩, hmasked, rfl⟩) _
  unordered order order' horder horder' text := by
    rw [← String.toList_inj, toList_redact_of_untouched h hcaches horder,
      toList_redact_of_untouched h hcaches horder']
  covered order horder text name name' whole part hwhole _ hmasked _ _ := by
    rw [← String.toList_inj, toList_redact_of_untouched h hcaches horder,
      toList_redact_of_untouched h hcaches horder]
    exact (maskAll_replaceText h ((hcaches whole).mpr ⟨name, hwhole⟩) hmasked text).symm

end Caches

/-! ## Every secret under its own name -/

/-- A store in memory with every secret under the name that it spells. -/
def SecretStore.ofSecrets (secrets : Finset String) : SecretStore where
  kind := .memory
  cache name := if name ∈ secrets then some name else none
  keychain _ := none

variable {secrets : Finset String}

theorem caches_ofSecrets : (SecretStore.ofSecrets secrets).Caches secrets := by
  intro value
  simp [SecretStore.ofSecrets]

theorem filterMap_ofSecrets {order : List String} (h : ∀ name ∈ order, name ∈ secrets) :
    order.filterMap (SecretStore.ofSecrets secrets).cache = order := by
  induction order with
  | nil => rfl
  | cons name order ih =>
    have hname : (SecretStore.ofSecrets secrets).cache name = some name :=
      if_pos (h name List.mem_cons_self)
    rw [List.filterMap_cons_some hname,
      ih fun other hother => h other (List.mem_cons_of_mem _ hother)]

/-- Every order of the masked secrets is one in which they can be masked. -/
theorem exists_iterates {order : List (List Char)} (h : order.Perm (maskedSecrets secrets)) :
    ∃ names, (SecretStore.ofSecrets secrets).Iterates names ∧ ∀ text,
      ((SecretStore.ofSecrets secrets).redact names text).toList =
        replaceEach order redactionMask.toList text.toList := by
  have hmem (name : String) : name ∈ order.map String.ofList ↔ name ∈ secrets ∧ isMasked name := by
    rw [List.mem_map]
    constructor
    · rintro ⟨part, hpart, rfl⟩
      obtain ⟨value, hvalue, hmasked, rfl⟩ := mem_maskedSecrets_iff.mp (h.mem_iff.mp hpart)
      rw [String.ofList_toList]
      exact ⟨hvalue, hmasked⟩
    · rintro ⟨hname, hmasked⟩
      exact ⟨name.toList, h.mem_iff.mpr (mem_maskedSecrets_iff.mpr ⟨name, hname, hmasked, rfl⟩),
        String.ofList_toList⟩
  let short := (secrets.filter fun value => isMasked value = false).toList
  have hshort (name : String) : name ∈ short ↔ name ∈ secrets ∧ isMasked name = false := by
    rw [Finset.mem_toList, Finset.mem_filter]
  have hall (name : String) : name ∈ order.map String.ofList ++ short ↔ name ∈ secrets := by
    rw [List.mem_append, hmem, hshort, ← and_or_left]
    exact and_iff_left (by cases isMasked name <;> simp)
  refine ⟨order.map String.ofList ++ short, ⟨?_, fun name => ?_⟩, fun text => ?_⟩
  · refine List.Nodup.append ?_ (Finset.nodup_toList _) fun name hname hother => ?_
    · refine List.Nodup.map ?_ (h.nodup_iff.mpr (maskedBy secrets).nodup)
      exact fun _ _ heq => String.ofList_injective heq
    · have hmasked := ((hmem name).mp hname).2
      rw [((hshort name).mp hother).2] at hmasked
      cases hmasked
  · rw [hall]
    simp [SecretStore.ofSecrets]
  · rw [toList_redact, filterMap_ofSecrets fun name hname => (hall name).mp hname,
      List.filter_append, List.filter_eq_self.mpr fun name hname => ((hmem name).mp hname).2,
      List.filter_eq_nil_iff.mpr fun name hname => by simp [((hshort name).mp hname).2],
      List.append_nil, List.map_map]
    congr 1
    exact List.map_id'' (fun part => String.toList_ofList) order

/-- What a store does whatever the order of its names holds of the secrets in every order. -/
theorem faithful_of_redacts (h : (SecretStore.ofSecrets secrets).Redacts) :
    Faithful redactionMask.toList (maskedSecrets secrets) := by
  constructor
  · intro order horder text part hpart
    obtain ⟨names, hnames, hredact⟩ := exists_iterates horder
    obtain ⟨value, hvalue, hmasked, rfl⟩ := mem_maskedSecrets_iff.mp hpart
    have hleft := h.complete names hnames (String.ofList text) value value (if_pos hvalue) hmasked
    rwa [hredact, String.toList_ofList] at hleft
  · intro order order' horder horder' text
    obtain ⟨names, hnames, hredact⟩ := exists_iterates horder
    obtain ⟨names', hnames', hredact'⟩ := exists_iterates horder'
    have hsame := h.unordered names names' hnames hnames' (String.ofList text)
    rwa [← String.toList_inj, hredact, hredact', String.toList_ofList] at hsame

/-- Whatever caches a set of secrets redacts them exactly when none of them touches another one
or the mask. -/
theorem redacts_iff_untouched (secrets : Finset String) :
    (∀ store : SecretStore, store.Caches secrets → store.Redacts) ↔ Untouched secrets := by
  constructor
  · intro h
    exact (faithful_iff (maskedBy secrets)).mp
      (faithful_of_redacts (h (SecretStore.ofSecrets secrets) caches_ofSecrets))
  · exact fun h store hcaches => redacts_of_untouched h hcaches

/-- The rest of a secret can be read when a part of it is masked first. -/
theorem redacts_not_password : ¬∀ store : SecretStore, store.Redacts := by
  intro h
  have hiterates (order : List String) (hnodup : order.Nodup)
      (hmem : ∀ name, name ∈ order ↔ name = "password" ∨ name = "word") :
      (SecretStore.ofSecrets {"password", "word"}).Iterates order :=
    ⟨hnodup, fun name => by simp [hmem, SecretStore.ofSecrets, or_iff_not_imp_left]⟩
  have hsame := (h (SecretStore.ofSecrets {"password", "word"})).unordered
    ["word", "password"] ["password", "word"]
    (hiterates _ (by decide) fun name => by simp [or_comm])
    (hiterates _ (by decide) fun name => by simp) "password"
  have hfirst : (SecretStore.ofSecrets {"password", "word"}).redact ["word", "password"]
      "password" = "pass***" := by decide +kernel
  have hsecond : (SecretStore.ofSecrets {"password", "word"}).redact ["password", "word"]
      "password" = "***" := by decide +kernel
  rw [hfirst, hsecond] at hsame
  exact absurd hsame (by decide)

end ApiVoy.Secrets
