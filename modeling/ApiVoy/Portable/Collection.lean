/-
# Collections on the command line

The command line runs the requests of a file: a list of them, or an object with one. An entry
that names its protocol is a request envelope; any other one is a portable request, of which
the name, the method, the URL, the headers and the body are used.
-/

import ApiVoy.Domain.RequestJson
import ApiVoy.Foundation.Script

namespace ApiVoy.Portable

open Domain Foundation Script

mutual

/-- How deep arrays and objects are nested in a value. -/
def nesting : Json → Nat
  | .arr items => itemsNesting items + 1
  | .obj members => membersNesting members + 1
  | _ => 0

def itemsNesting : List Json → Nat
  | [] => 0
  | item :: rest => max (nesting item) (itemsNesting rest)

def membersNesting : List (String × Json) → Nat
  | [] => 0
  | (_, value) :: rest => max (nesting value) (membersNesting rest)

end

/-- The nesting the command line's parser stops at. -/
def recursionLimit : Nat := 128

/-- The value of a text that is not nested too deep. -/
def fromStr (contents : String) : Option Json :=
  (parseJson contents).filter fun value => nesting value < recursionLimit

/-- The command line keeps the members of an object in the order of their names. -/
def byName {α : Type} (entries : List (String × α)) : List (String × α) :=
  entries.mergeSort fun a b => textLe a.1.toList b.1.toList

/-- The entries of a file. -/
def collectionRows : Json → Except String (List Json)
  | .arr rows => .ok rows
  | value =>
    match value.get "requests" with
    | some (.arr rows) => .ok rows
    | _ => .error "collection must be an array or contain requests"

/-- The headers of an entry; a value that is no text counts as an empty one. -/
def rowHeaders (row : Json) : List (String × String) :=
  match row.get "headers" with
  | some (.obj items) => (byName items).map fun entry => (entry.1, entry.2.asStr.getD "")
  | _ => []

/-- The request of an entry, with the identity and the time it gets. -/
def loadRow (id : RequestId) (now : Timestamp) (row : Json) : Except String RequestEnvelope :=
  if (row.get "protocolId").isSome then
    match RequestEnvelope.ofJson row with
    | some request => .ok request
    | none => .error "invalid request"
  else
    let name := ((row.get "name").bind Json.asStr).getD "Imported request"
    match (row.get "url").bind Json.asStr with
    | none => .error "portable request is missing url"
    | some url =>
      .ok { RequestEnvelope.httpGet id now name url with
        payload := .http {
          method := ((row.get "method").bind Json.asStr).getD "GET"
          headers := rowHeaders row
          body := (row.get "body").bind Json.asStr
          bodyEncoding := "text"
          bodySource := none
          multipart := []
          followRedirects := true } }

/-- The requests of the entries, of which the first one has some index. -/
def loadRows (ids : Nat → RequestId) (now : Timestamp) (index : Nat) :
    List Json → Except String (List RequestEnvelope)
  | [] => .ok []
  | row :: rest => do
    let request ← loadRow (ids index) now row
    let requests ← loadRows ids now (index + 1) rest
    return request :: requests

def loadCollection (ids : Nat → RequestId) (now : Timestamp) (contents : String) :
    Except String (List RequestEnvelope) :=
  match fromStr contents with
  | none => .error "invalid JSON"
  | some value => (collectionRows value).bind (loadRows ids now 0)

/-- Entries that can all be loaded are loaded in their order. -/
theorem loadRows_ok {α : Type} {ids : Nat → RequestId} {now : Timestamp} {row : α → Json}
    {request : RequestId → α → RequestEnvelope}
    (h : ∀ id a, loadRow id now (row a) = .ok (request id a)) (as : List α) (index : Nat) :
    loadRows ids now index (as.map row) =
      .ok ((as.zipIdx index).map fun (a, i) => request (ids i) a) := by
  induction as generalizing index with
  | nil => rfl
  | cons a rest ih =>
    rw [List.map_cons, loadRows, h, ih (index + 1), List.zipIdx_cons, List.map_cons]
    rfl

end ApiVoy.Portable
