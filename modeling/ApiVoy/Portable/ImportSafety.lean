/-
# What an import hands on

Dereferencing keeps an OpenAPI document an OpenAPI document, so the two imports read a document
as one and the same format. Their requests are then as they should be exactly when the entries
of a project file are.
-/

import ApiVoy.Foundation.Members
import ApiVoy.Portable.WellTyped

namespace ApiVoy.Portable

open Foundation Script

/-! ## Members -/

theorem isText_or {value other : Option Json} (h : isText value = true) :
    isText (value.or other) = true := by
  cases value with
  | none => cases h
  | some value => exact h

/-- Setting a member sets that one and no other. -/
theorem member?_setEntry (name key : String) (value : Json) (members : List (String × Json)) :
    Json.member? name (setEntry members (key, value)) =
      if key = name then some value else Json.member? name members := by
  unfold setEntry
  split
  case isTrue hmem =>
    rw [member?_replace]
    by_cases h : key = name
    · have ⟨before, hbefore⟩ := member?_isSome (h ▸ hmem)
      rw [if_pos h, if_pos h, hbefore, Option.map_some]
    · rw [if_neg h, if_neg h]
  case isFalse hmem =>
    rw [member?_append, member?_cons]
    by_cases h : key = name
    · simp [h, Json.member?]
    · simp [h, Json.member?]

theorem member?_fromEntries (name : String) (members : List (String × Json)) :
    Json.member? name (fromEntries members) = Json.member? name members := by
  have hfold : ∀ before : List (String × Json), Json.member? name (members.foldl setEntry before) =
      (Json.member? name members).or (Json.member? name before) := by
    induction members with
    | nil => exact fun before => rfl
    | cons entry rest ih =>
      intro before
      rw [List.foldl_cons, ih, member?_setEntry, member?_cons, Option.or_assoc]
      split <;> rfl
  have hnames := @nodup_foldl_setEntry _ [] List.nodup_nil members
  exact (member?_perm hnames (enumerate_perm _).symm).symm.trans ((hfold []).trans (Option.or_none))

/-! ## Dereferencing -/

section Dereferencing

variable (platform : Platform) (load : Option (String → Except String String))

/-- A step on each member keeps the names, and so it keeps a text if it keeps texts. -/
theorem collectDeref_keeps {f : String × Json → Dereference (String × Json)} (name : String)
    (hf : ∀ member, Fallible.Returns
      (fun result => result.1 = member.1 ∧ (isText (some member.2) → isText (some result.2))) (f member))
    (members : List (String × Json)) :
    Fallible.Returns
      (fun results => ((Json.member? name members).isSome = (Json.member? name results).isSome) ∧
        (isText (Json.member? name members) → isText (Json.member? name results)))
      (collectDeref f members) := by
  induction members with
  | nil => exact .pure ⟨rfl, id⟩
  | cons member rest ih =>
    refine .bind (hf member) fun result hresult =>
      Fallible.Returns.bind ih fun results hresults => .pure ?_
    rw [member?_cons, member?_cons, hresult.1]
    have ⟨hsome, htext⟩ := hresults
    cases hrest : Json.member? name rest with
    | some value =>
      rw [hrest] at hsome htext
      have ⟨value', hvalue'⟩ := Option.isSome_iff_exists.mp hsome.symm
      rw [hvalue'] at htext ⊢
      exact ⟨rfl, htext⟩
    | none =>
      rw [hrest] at hsome
      have hnone : Json.member? name results = none := by simpa using hsome.symm
      rw [hnone]
      split
      · exact ⟨rfl, hresult.2⟩
      · exact ⟨rfl, id⟩

theorem visit_text (fuel : Nat) (value : Json) (uri : String) (stack : List String) (depth : Nat)
    (h : isText (some value) = true) :
    Fallible.Returns (fun result => isText (some result) = true)
      (visit platform load fuel value uri stack depth) := by
  cases fuel with
  | zero => exact .fail _
  | succ fuel =>
    cases value with
    | str text => exact .bind_any _ fun _ => .pure rfl
    | null | bool _ | num _ | arr _ | obj _ => cases h

/-- Whatever a reference leads to, a text beside it stays. -/
theorem visit_keeps {name : String} (href : name ≠ "$ref") (hproto : name ≠ "__proto__")
    (fuel : Nat) (value : Json) (uri : String) (stack : List String) (depth : Nat)
    (h : isText (value.get name) = true) :
    Fallible.Returns (fun result => isText (result.get name) = true)
      (visit platform load fuel value uri stack depth) := by
  induction fuel generalizing value uri stack depth with
  | zero => exact .fail _
  | succ fuel ih =>
    cases value with
    | null | bool _ | num _ | str _ | arr _ => cases h
    | obj members =>
      replace h : isText (Json.member? name members) = true := h
      rw [visit]
      refine .bind_any _ fun _ => ?_
      cases (Json.member? "$ref" members).bind Json.asStr with
      | none =>
        have hmember : ∀ member : String × Json, Fallible.Returns
            (fun result : String × Json => result.1 = member.1 ∧
              (isText (some member.2) → isText (some result.2))) (do
            let value ← visit platform load fuel member.2 uri stack (depth + 1)
            return (member.1, value)) := by
          intro member
          refine .bind (P := fun value =>
            isText (some member.2) → isText (some value)) ?_ fun value hvalue =>
              Fallible.Returns.pure ⟨rfl, hvalue⟩
          intro state value state' hrun htext
          exact visit_text platform load fuel member.2 uri stack _ htext state value state' hrun
        refine .bind (collectDeref_keeps name hmember members)
          fun results hresults => .pure ?_
        have hkept : Json.member? name (results.filter fun member => member.1 ≠ "__proto__") =
            Json.member? name results :=
          member?_filter name fun member _ heq => by simpa using heq ▸ hproto
        rw [Json.get, hkept]
        exact hresults.2 h
      | some ref =>
        have hsiblings : Json.member? name (members.filter fun member => member.1 ≠ "$ref") =
            Json.member? name members :=
          member?_filter name fun member _ heq => by simpa using heq ▸ href
        refine .bind_any _ fun _ => .bind_any _ fun _ =>
          Fallible.Returns.bind_any _ fun _ => .bind_any _ fun _ =>
          Fallible.Returns.bind_any _ fun _ => .bind_any _ fun resolved => ?_
        by_cases hempty : (members.filter fun member => member.1 ≠ "$ref") = []
        · rw [hempty] at hsiblings
          rw [← hsiblings] at h
          cases h
        · dsimp only
          rw [if_neg hempty]
          cases resolved with
          | obj targets =>
            refine ih _ uri stack _ ?_
            rw [Json.get, member?_fromEntries, member?_append, hsiblings]
            exact isText_or h
          | null | bool _ | num _ | str _ | arr _ =>
            exact ih _ uri stack _ (by rw [Json.get, hsiblings]; exact h)

end Dereferencing

/-! ## The imports -/

section Imports

variable (platform : Platform)

theorem returns_onDocuments {α : Type} {P : α → Prop} {m : Import α} (h : Fallible.Returns P m) :
    Fallible.Returns P (onDocuments m) := by
  intro state a state' hrun
  have hfirst : (m.run state.documents).1 = .ok a := congrArg Prod.fst hrun
  exact h state.documents a _ (Prod.ext hfirst rfl)

theorem returns_onTraversal {α : Type} {P : α → Prop} {m : Import α} (h : Fallible.Returns P m) :
    Fallible.Returns P (onTraversal m) := by
  intro state a state' hrun
  have hfirst : (m.run state.traversal).1 = .ok a := congrArg Prod.fst hrun
  exact h state.traversal a _ (Prod.ext hfirst rfl)

theorem object_returns (value : Option Json) :
    Fallible.Returns (fun members => value = some (.obj members)) (object value) := by
  match value with
  | some (.obj members) => exact .pure rfl
  | none | some .null | some (.bool _) | some (.num _) | some (.str _) | some (.arr _) =>
    exact .fail _

theorem parsed_returns (document : String) :
    Fallible.Returns (fun value => parseJson document = some value) (parsed document) := by
  unfold parsed
  cases h : parseJson document with
  | some value => exact .pure rfl
  | none => exact .fail _

theorem isOpenApi_iff (root : List (String × Json)) :
    isOpenApi root = true ↔
      isText (Json.member? "openapi" root) = true ∨ isText (Json.member? "swagger" root) = true := by
  have htext : ∀ value : Option Json, (value.bind Json.asStr).isSome = isText value := by
    rintro (_ | (_ | _ | _ | _ | _ | _)) <;> rfl
  rw [isOpenApi, htext, htext, Bool.or_eq_true]

def membersOf : Json → Option (List (String × Json))
  | .obj members => some members
  | _ => none

/-- The members a document is read as, by JSON or else by YAML. -/
def documentRoot (document : String) : Option (List (String × Json)) :=
  ((parseJson document).bind membersOf).or ((platform.parseYaml document).toOption.bind membersOf)

/-- The entries a document hands on as they are. -/
def projectEntries (document : String) : List Json :=
  (documentRoot platform document).elim [] (handedOn platform)

theorem parseDocumentObject_returns (document label : String) :
    Fallible.Returns (fun members => documentRoot platform document = some members)
      (parseDocumentObject platform document label) := by
  refine .bind_any _ fun _ => ?_
  unfold documentRoot
  split
  case h_1 members hjson =>
    rw [hjson]
    exact .pure rfl
  case h_2 hjson =>
    have hnone : (parseJson document).bind membersOf = none := by
      rcases h : parseJson document with _ | (_ | _ | _ | _ | _ | members)
      · rfl
      · rfl
      · rfl
      · rfl
      · rfl
      · rfl
      · exact absurd h (hjson members)
    rw [hnone, Option.none_or]
    split
    case h_1 members hyaml =>
      rw [hyaml]
      exact .pure rfl
    case h_2 => exact .fail _
    case h_3 => exact .fail _

variable {root : List (String × Json)}

/-- A dereferenced document is an OpenAPI document still. -/
theorem dereferenceOpenApi_returns (h : isOpenApi root = true) (options : ImportDocumentOptions) :
    Fallible.Returns (fun resolved => isOpenApi resolved = true)
      (dereferenceOpenApi platform root options) := by
  refine .bind_any _ fun uri => .bind_any _ fun _ =>
    Fallible.Returns.bind_any _ fun _ => .bind (P := fun value =>
      isText (value.get "openapi") = true ∨ isText (value.get "swagger") = true) ?_ fun value hvalue => ?_
  · intro state value state' hrun
    refine ((isOpenApi_iff root).mp h).imp (fun htext => ?_) fun htext => ?_
    · exact visit_keeps platform options.load (by decide) (by decide) _ (.obj root) uri [] 0 htext
        state value state' hrun
    · exact visit_keeps platform options.load (by decide) (by decide) _ (.obj root) uri [] 0 htext
        state value state' hrun
  · intro state members state' hrun
    have hobj := returns_onTraversal (object_returns (some value)) state members state' hrun
    cases hobj
    exact (isOpenApi_iff members).mpr hvalue

theorem handedOn_of_isOpenApi (h : isOpenApi root = true) : handedOn platform root = [] := by
  rw [handedOn, h, Bool.true_or, if_pos rfl]

theorem resolvedDocument_returns (document : String) (options : ImportDocumentOptions) :
    Fallible.Returns (fun resolved => handedOn platform resolved = projectEntries platform document)
      (resolvedDocument platform document options) := by
  refine .bind_any _ fun _ => .bind
    (returns_onDocuments (parseDocumentObject_returns platform document _)) fun root hroot => ?_
  have hentries : projectEntries platform document = handedOn platform root := by
    rw [projectEntries, hroot, Option.elim_some]
  have hkept : Fallible.Returns (fun resolved => handedOn platform resolved = handedOn platform root)
      (dereferenced platform root options) := by
    by_cases hopen : isOpenApi root = true
    · rw [dereferenced, if_pos hopen]
      intro state resolved state' hrun
      have hstill := dereferenceOpenApi_returns platform hopen options state resolved state' hrun
      exact (handedOn_of_isOpenApi platform hstill).trans
        (handedOn_of_isOpenApi platform hopen).symm
    · rw [dereferenced, if_neg hopen]
      exact .pure rfl
  rw [hentries]
  exact .bind_any _ fun _ => .bind hkept fun resolved hresolved =>
    Fallible.Returns.bind_any _ fun _ => .pure hresolved

theorem quiet_consumeDocument (document label : String) :
    Quiet (consumeDocument document label) :=
  Quiet.bind (.guardLimit _ _) fun _ => .bind (.spend fun _ => rfl) fun _ =>
    Quiet.bind (.guardLimit _ _) fun _ => .guardLimit _ _

theorem quiet_parsed (document : String) : Quiet (parsed document) := by
  unfold parsed
  split
  · exact .pure _
  · exact .fail _

theorem importJsonSteps_counts (document : String) :
    Counts 0 (fun result => result.requests.length) (importJsonSteps platform document) :=
  Counts.quiet_bind (quiet_consumeDocument _ _) fun _ => Counts.quiet_bind (quiet_parsed _) fun _ =>
    Counts.quiet_bind (.object _) fun root =>
    Counts.quiet_bind (fun _ _ h => h) fun _ => Counts.importObject platform root

/-- What an import should hand on. -/
def Safe (result : ImportResult) : Prop :=
  Built result ∧ result.requests.length ≤ importMaxRequests

variable {result : ImportResult}

theorem length_of_counts {m : Import ImportResult}
    (h : Counts 0 (fun result => result.requests.length) m)
    (hrun : (m.run createBudget).1 = .ok result) : result.requests.length ≤ importMaxRequests :=
  (h createBudget result _ rfl (Nat.zero_le _) (Prod.ext hrun rfl)).2

variable {document : String}

theorem importJson_safe_iff (h : importJson platform document = .ok result) :
    Safe result ↔ ∀ entry ∈ projectEntries platform document, wellTyped entry = true := by
  have hlength := length_of_counts (importJsonSteps_counts platform document) h
  have hbuilt : Fallible.Returns (fun result => Built result ↔
      ∀ entry ∈ projectEntries platform document, wellTyped entry = true)
      (importJsonSteps platform document) := by
    refine .bind_any _ fun _ => .bind (parsed_returns document)
      fun value hvalue => .bind (object_returns (some value)) fun root hroot =>
      Fallible.Returns.bind_any _ fun _ => ?_
    cases hroot
    have hentries : projectEntries platform document = handedOn platform root := by
      rw [projectEntries, documentRoot, hvalue]
      rfl
    rw [hentries]
    exact importObject_requests platform root
  rw [Safe, and_iff_left hlength]
  exact hbuilt createBudget result _ (Prod.ext h rfl)

theorem importDocument_safe_iff {options : ImportDocumentOptions}
    (h : importDocument platform document options = .ok result) :
    Safe result ↔ ∀ entry ∈ projectEntries platform document, wellTyped entry = true := by
  unfold importDocument at h
  split at h
  case h_1 => cases h
  case h_2 resolved hresolved =>
    have hentries := resolvedDocument_returns platform document options _ resolved _
      (Prod.ext hresolved rfl)
    have hlength := length_of_counts (Counts.importObject platform resolved) h
    rw [Safe, and_iff_left hlength, ← hentries]
    exact importObject_requests platform resolved createBudget result _ (Prod.ext h rfl)

/-- A successful import hands on well typed requests, and no more than the limit, exactly when
the document is no project file or has only well typed entries. -/
theorem import_safe_iff (document : String) (options : ImportDocumentOptions)
    {result : ImportResult}
    (h : importJson platform document = .ok result ∨
      importDocument platform document options = .ok result) :
    Safe result ↔ ∀ entry ∈ projectEntries platform document, wellTyped entry = true :=
  h.elim (importJson_safe_iff platform) (importDocument_safe_iff platform)

end Imports

/-! ## A project file with an entry of another type -/

/-- A project file with one entry, whose name is a number. -/
def untypedProject : Json :=
  .obj [("format", .str "apivoy-project"), ("requests", .arr [.obj [("name", .num 5)]])]

def untypedDocument : String := stringify .ascii 0 untypedProject

def untypedResult : ImportResult where
  source := .apivoy
  name := "ApiVoy Import"
  requests := [.obj [("name", .num 5)]]
  warnings := []

theorem untyped_imported : importJson .ascii untypedDocument = .ok untypedResult := by
  decide +kernel

theorem import_safe_untyped :
    Safe untypedResult ↔
      ∀ entry ∈ projectEntries .ascii untypedDocument, wellTyped entry = true :=
  import_safe_iff .ascii untypedDocument ⟨none, [], none⟩ (.inl untyped_imported)

theorem importJson_not_safe :
    ¬ ∀ (document : String) (result : ImportResult),
      importJson .ascii document = .ok result → Safe result := by
  intro h
  have hsafe := h untypedDocument untypedResult untyped_imported
  have hentry := hsafe.1 _ List.mem_cons_self
  cases hentry

end ApiVoy.Portable
