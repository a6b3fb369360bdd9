/-
# What the export gate lets through

A project is only exported without consent if the scan finds nothing. The names that are
credentials for everything that is persisted are compared with the names the scan finds.
-/

import ApiVoy.Domain.Request
import ApiVoy.Portable.Requests

namespace ApiVoy.Portable

open Foundation Script Domain

mutual

/-- The names of the members of a value, at every depth. -/
def memberNames : Json → List String
  | .arr items => itemNames items
  | .obj members => ownNames members
  | _ => []

def itemNames : List Json → List String
  | [] => []
  | item :: rest => memberNames item ++ itemNames rest

def ownNames : List (String × Json) → List String
  | [] => []
  | (name, value) :: rest => name :: (memberNames value ++ ownNames rest)

end

/-- Is the body of a request declared to be a form? -/
def PortableRequest.isForm (request : PortableRequest) : Bool :=
  request.headers.entries.any fun header =>
    toLowerCase header.1 = "content-type" &&
      includes (toLowerCase header.2) "x-www-form-urlencoded"

variable (platform : Platform)

/-- The keys of a body: the names in a JSON value, or the names of a form's entries. -/
def PortableRequest.bodyKeys (request : PortableRequest) : List String :=
  request.body.elim [] fun body =>
    match parseJson body with
    | some value => memberNames value
    | none => if request.isForm then (platform.formEntries body).map Prod.fst else []

/-- The names the scan looks at by the pattern for names. -/
def PortableRequest.scannedNames (request : PortableRequest) : List String :=
  request.headers.keys ++ platform.searchParamKeys request.url

/-- The names the scan does not look at: variables are not scanned at all, and a body is only
scanned as a text. -/
def PortableRequest.otherNames (request : PortableRequest) : List String :=
  request.vars.elim [] AList.keys ++ request.bodyKeys platform

/-- Does a request have a name that is a credential for what is persisted? -/
def PortableRequest.carriesCredential (request : PortableRequest) : Bool :=
  (request.scannedNames platform ++ request.otherNames platform).any isSensitiveHeaderName

/-- Does a request have a credential name that the scan has no eyes for: one whose word is not
set off by separators, or one of a variable or in a body? -/
def PortableRequest.hidesCredential (request : PortableRequest) : Bool :=
  (request.scannedNames platform).any (fun name => isSensitiveHeaderName name && !secretKey name) ||
    (request.otherNames platform).any isSensitiveHeaderName

variable {request : PortableRequest}

theorem caught_of_scannedName {name : String} (hname : name ∈ request.scannedNames platform)
    (h : secretKey name = true) : request.caught platform = true := by
  rw [PortableRequest.caught, Bool.or_eq_true, Bool.or_eq_true]
  rcases List.mem_append.mp hname with hheader | hquery
  · exact Or.inl (List.any_eq_true.mpr ⟨name, hheader, h⟩)
  · exact Or.inr (Or.inl (List.any_eq_true.mpr ⟨name, hquery, h⟩))

/-- In a request the scan does not catch, the hidden credentials are all there are. -/
theorem carriesCredential_eq (h : request.caught platform = false) :
    request.carriesCredential platform = request.hidesCredential platform := by
  have hscanned : (request.scannedNames platform).any isSensitiveHeaderName =
      (request.scannedNames platform).any fun name =>
        isSensitiveHeaderName name && !secretKey name := by
    rw [Bool.eq_iff_iff, List.any_eq_true, List.any_eq_true]
    refine exists_congr fun name => and_congr_right fun hname => ?_
    have hkey : secretKey name = false := by
      by_contra hne
      rw [caught_of_scannedName platform hname (eq_true_of_ne_false hne)] at h
      cases h
    rw [hkey, Bool.not_false, Bool.and_true]
  rw [PortableRequest.carriesCredential, PortableRequest.hidesCredential, List.any_append, hscanned]

theorem exportApiVoyProject_isOk (name now : String) (requests : List PortableRequest) :
    (∃ text, exportApiVoyProject platform name requests false now = .ok text) ↔
      ∀ request ∈ requests, request.caught platform = false := by
  rw [← scanSensitiveData_eq_nil, exportApiVoyProject]
  by_cases h : scanSensitiveData platform requests = []
  · simp [h]
  · simp [h]

/-- What leaves without consent has no credential names exactly if one of the patterns matches
somewhere in the project, or no name is a credential the patterns do not see. -/
theorem export_withholds_iff (name now : String) (requests : List PortableRequest) :
    ((∃ text, exportApiVoyProject platform name requests false now = .ok text) →
        ∀ request ∈ requests, request.carriesCredential platform = false) ↔
      (∃ request ∈ requests, request.caught platform = true) ∨
        ∀ request ∈ requests, request.hidesCredential platform = false := by
  rw [exportApiVoyProject_isOk]
  by_cases hcaught : ∃ request ∈ requests, request.caught platform = true
  · obtain ⟨request, hrequest, hmatch⟩ := hcaught
    refine iff_of_true (fun h => ?_) (Or.inl ⟨request, hrequest, hmatch⟩)
    rw [h request hrequest] at hmatch
    cases hmatch
  · have hclean : ∀ request ∈ requests, request.caught platform = false := fun request hrequest =>
      eq_false_of_ne_true fun hmatch => hcaught ⟨request, hrequest, hmatch⟩
    rw [or_iff_right hcaught]
    constructor
    · intro h request hrequest
      rw [← carriesCredential_eq platform (hclean request hrequest)]
      exact h hclean request hrequest
    · intro h _ request hrequest
      rw [carriesCredential_eq platform (hclean request hrequest)]
      exact h request hrequest

/-- A request with a header whose credential word is written in camel case. -/
def camelCaseRequest : PortableRequest where
  name := "list"
  method := "GET"
  url := "https://api.example/items"
  headers := AList.singleton "X-AccessToken" "k"
  body := none
  collectionPath := none
  vars := none

/-- The header is exported without consent. -/
theorem camelCase_exported :
    ¬∀ (platform : Platform) (name now : String) (requests : List PortableRequest),
      (∃ text, exportApiVoyProject platform name requests false now = .ok text) →
        ∀ request ∈ requests, request.carriesCredential platform = false := by
  intro h
  have hclean : ∀ request ∈ [camelCaseRequest], request.caught .ascii = false := by decide
  have hleft := h .ascii "shop" "2026-01-01T00:00:00Z" [camelCaseRequest]
    ((exportApiVoyProject_isOk .ascii _ _ _).mpr hclean) camelCaseRequest List.mem_cons_self
  exact absurd hleft (by decide)

end ApiVoy.Portable
