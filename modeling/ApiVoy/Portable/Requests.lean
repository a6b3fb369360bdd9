/-
# Portable requests

What leaves and enters the program as a file: requests without an identity of their own. A
project is scanned for credentials before it is exported. The scan has one pattern for the
names of headers and query parameters, which wants the credential word set off by hyphens or
underscores, and another one for the text of a body.
-/

import ApiVoy.Foundation.Codec
import ApiVoy.Foundation.Script

namespace ApiVoy.Portable

open Foundation Script

structure PortableRequest where
  name : String
  method : String
  url : String
  headers : StringMap
  body : Option String
  collectionPath : Option (List String)
  /-- Variables the request brings along. -/
  vars : Option StringMap
  deriving DecidableEq

/-- The member of an optional value; a value that is absent has none. -/
def optionalMember (c : Codec α) (name : String) : Option α → List (String × Json)
  | none => []
  | some a => [(name, c.write a)]

def PortableRequest.members (request : PortableRequest) : List (String × Json) :=
  [("name", .str request.name), ("method", .str request.method), ("url", .str request.url),
    ("headers", Codec.stringMap.write request.headers)] ++
    (optionalMember .text "body" request.body ++
      (optionalMember (.list .text) "collectionPath" request.collectionPath ++
        optionalMember Codec.stringMap "variables" request.vars))

def PortableRequest.toJson (request : PortableRequest) : Json := .obj request.members

/-! ## The scan for credentials -/

inductive FindingKind where
  | header | query | body
  deriving DecidableEq

structure SensitiveFinding where
  path : String
  kind : FindingKind
  key : String
  deriving DecidableEq

def isSeparator (c : Char) : Bool := c = '-' || c = '_'

/-- The words of the pattern for names; an API key can be written in three ways. -/
def secretWords : List String :=
  ["authorization", "apikey", "api-key", "api_key", "token", "secret", "password", "passwd",
    "cookie", "set-cookie"]

/-- Does a text begin with one of the words, up to a separator or its end? -/
def startsWithWord (text : List Char) : Bool :=
  secretWords.any fun word =>
    word.toList.isPrefixOf text && (text.drop word.length).head?.all isSeparator

/-- Does one of the words follow a separator? -/
def wordAfterSeparator : List Char → Bool
  | [] => false
  | c :: rest => (isSeparator c && startsWithWord rest) || wordAfterSeparator rest

/-- The pattern `SECRET_KEY`, which ignores the case of ASCII letters. -/
def secretKey (name : String) : Bool :=
  let text := name.toList.map Char.toLower
  startsWithWord text || wordAfterSeparator text

/-- A character of the words in a body. -/
def isNameChar (c : Char) : Bool := c.isAlphanum || c = '_' || c = '-'

def bodyWords : List String := ["token", "secret", "password", "apikey", "api-key", "api_key"]

def carriesBodyWord (run : List Char) : Bool :=
  bodyWords.any fun word => occursIn word.toList (run.map Char.toLower)

/-- Does a text begin with an assignment, after a closing quote and white space? -/
def assigns (text : List Char) : Bool :=
  let unquoted := match text with
    | c :: rest => if c = '"' ∨ c = '\'' then rest else text
    | [] => []
  match unquoted.dropWhile isSpace with
  | c :: _ => c = ':' || c = '='
  | [] => false

/-- The assigned words of a body, `run` being the characters of the word read so far. -/
def assignedFrom (run : List Char) : List Char → List String
  | [] => []
  | c :: rest =>
    if isNameChar c then assignedFrom (run ++ [c]) rest
    else
      (if carriesBodyWord run && assigns (c :: rest) then [String.ofList run] else []) ++
        assignedFrom [] rest

def assignedKeys (body : String) : List String := assignedFrom [] body.toList

variable (platform : Platform)

def scanRequest (index : Nat) (request : PortableRequest) : List SensitiveFinding :=
  let path := "requests[" ++ toString index ++ "]"
  ((request.headers.keys.filter secretKey).map fun key =>
      ⟨path ++ ".headers." ++ key, .header, key⟩) ++
    ((((platform.searchParamKeys request.url).filter secretKey).map fun key =>
        ⟨path ++ ".url." ++ key, .query, key⟩) ++
      ((request.body.elim [] assignedKeys).map fun key => ⟨path ++ ".body", .body, key⟩))

def scanSensitiveData (requests : List PortableRequest) : List SensitiveFinding :=
  (requests.zipIdx.map fun (request, index) => scanRequest platform index request).flatten

variable {requests : List PortableRequest} {finding : SensitiveFinding}

theorem mem_scanSensitiveData :
    finding ∈ scanSensitiveData platform requests ↔
      ∃ index request, requests[index]? = some request ∧
        finding ∈ scanRequest platform index request := by
  rw [scanSensitiveData, List.mem_flatten]
  constructor
  · rintro ⟨found, hfound, hfinding⟩
    obtain ⟨⟨request, index⟩, hrequest, rfl⟩ := List.mem_map.mp hfound
    exact ⟨index, request, List.mem_zipIdx_iff_getElem?.mp hrequest, hfinding⟩
  · rintro ⟨index, request, hrequest, hfinding⟩
    have hmem : (request, index) ∈ requests.zipIdx := List.mem_zipIdx_iff_getElem?.mpr hrequest
    exact ⟨scanRequest platform index request, List.mem_map.mpr ⟨_, hmem, rfl⟩, hfinding⟩

/-- Does one of the patterns of the scan match in a request? -/
def PortableRequest.caught (request : PortableRequest) : Bool :=
  request.headers.keys.any secretKey ||
    ((platform.searchParamKeys request.url).any secretKey ||
      request.body.any fun body => assignedKeys body ≠ [])

theorem scanRequest_eq_nil (index : Nat) (request : PortableRequest) :
    scanRequest platform index request = [] ↔ request.caught platform = false := by
  rw [scanRequest, PortableRequest.caught]
  cases request.body <;> simp

theorem scanSensitiveData_eq_nil (requests : List PortableRequest) :
    scanSensitiveData platform requests = [] ↔
      ∀ request ∈ requests, request.caught platform = false := by
  rw [List.eq_nil_iff_forall_not_mem]
  constructor
  · intro h request hrequest
    obtain ⟨index, hindex⟩ := List.getElem?_of_mem hrequest
    rw [← scanRequest_eq_nil platform index, List.eq_nil_iff_forall_not_mem]
    intro finding hfinding
    exact h finding ((mem_scanSensitiveData platform).mpr ⟨index, request, hindex, hfinding⟩)
  · intro h finding hfinding
    obtain ⟨index, request, hrequest, hmem⟩ := (mem_scanSensitiveData platform).mp hfinding
    rw [(scanRequest_eq_nil platform index request).mpr (h request (List.mem_of_getElem? hrequest))]
      at hmem
    cases hmem

/-- A header whose name matches is reported under its name. -/
theorem header_mem_scan {request : PortableRequest} {name : String} (hrequest : request ∈ requests)
    (hname : name ∈ request.headers.keys) (h : secretKey name = true) :
    ∃ finding ∈ scanSensitiveData platform requests, finding.kind = .header ∧
      finding.key = name := by
  obtain ⟨index, hindex⟩ := List.getElem?_of_mem hrequest
  have hkey : name ∈ request.headers.keys.filter secretKey := List.mem_filter.mpr ⟨hname, h⟩
  refine ⟨⟨"requests[" ++ toString index ++ "]" ++ ".headers." ++ name, .header, name⟩,
    ?_, rfl, rfl⟩
  rw [mem_scanSensitiveData]
  exact ⟨index, request, hindex, List.mem_append_left _ (List.mem_map_of_mem hkey)⟩

/-- Only names that match are reported as headers. -/
theorem secretKey_of_mem_scan (h : finding ∈ scanSensitiveData platform requests)
    (hkind : finding.kind = .header) : secretKey finding.key = true := by
  obtain ⟨index, request, _, hmem⟩ := (mem_scanSensitiveData platform).mp h
  rcases List.mem_append.mp hmem with hheader | hother
  · obtain ⟨key, hkey, rfl⟩ := List.mem_map.mp hheader
    exact (List.mem_filter.mp hkey).2
  · rcases List.mem_append.mp hother with hquery | hbody
    · obtain ⟨_, _, rfl⟩ := List.mem_map.mp hquery
      cases hkind
    · obtain ⟨_, _, rfl⟩ := List.mem_map.mp hbody
      cases hkind

/-! ## Export -/

/-- The exported document. -/
def projectJson (name : String) (requests : List PortableRequest) (now : String) : Json :=
  .obj [("format", .str "apivoy-project"), ("version", .num 1), ("name", .str name),
    ("exportedAt", .str now), ("requests", .arr (requests.map PortableRequest.toJson))]

def exportApiVoyProject (name : String) (requests : List PortableRequest) (allowSensitive : Bool)
    (now : String) : Except String String :=
  let findings := scanSensitiveData platform requests
  if findings ≠ [] ∧ allowSensitive = false then
    .error ("检测到 " ++ toString findings.length ++ " 处可能的敏感信息，请清理或明确允许导出")
  else .ok (stringify platform 2 (projectJson name requests now))

end ApiVoy.Portable
