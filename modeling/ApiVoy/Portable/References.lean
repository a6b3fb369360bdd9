/-
# References across documents

An OpenAPI document is dereferenced before it is imported as a document: every reference is
replaced by what it leads to, in this document or in another one, and the members next to a
reference are put over those of its target. Documents are loaded once.
-/

import ApiVoy.Portable.Import

namespace ApiVoy.Portable

open Foundation Script

structure ImportDocumentOptions where
  baseUri : Option String
  documents : List (String × String)
  load : Option (String → Except String String)

/-- The documents that are there, and what has been spent on documents and on the traversal. -/
structure DereferenceState where
  cache : List (String × List (String × Json))
  documents : ImportBudget
  traversal : ImportBudget

abbrev Dereference := Fallible DereferenceState String

/-- Spend from the budget of the traversal. -/
def onTraversal {α : Type} (m : Import α) : Dereference α := fun state =>
  ((m.run state.traversal).1, { state with traversal := (m.run state.traversal).2 })

/-- Spend from the budget of the documents. -/
def onDocuments {α : Type} (m : Import α) : Dereference α := fun state =>
  ((m.run state.documents).1, { state with documents := (m.run state.documents).2 })

section References

variable (platform : Platform)

/-! ## URIs and pointers -/

/-- Does a text begin with the scheme of a URI? -/
def hasScheme (uri : String) : Bool :=
  match uri.toList with
  | [] => false
  | c :: rest =>
    c.isAlpha &&
      (rest.dropWhile fun c => c.isAlphanum || "+.-".toList.contains c).head? = some ':'

def slashes (path : List Char) : List Char := path.map fun c => if c = '\\' then '/' else c

/-- Go along the parts of a path; `..` takes the last one off again. -/
def normalizeParts : List (List Char) → List (List Char) → List (List Char)
  | result, [] => result
  | result, part :: rest =>
    if part = [] ∨ part = ['.'] then normalizeParts result rest
    else if part = ['.', '.'] then normalizeParts result.dropLast rest
    else normalizeParts (result ++ [part]) rest

def canonicalUri (input base : String) : Option String :=
  if hasScheme input then platform.resolveUrl input none
  else if base ≠ "" ∧ hasScheme base then platform.resolveUrl input (some base)
  else
    let normalized := slashes input.toList
    let absolute := normalized.head? = some '/'
    let baseParts := (List.splitOn '/' (slashes base.toList)).dropLast
    let parts := (if absolute then [] else baseParts) ++ List.splitOn '/' normalized
    let path := (if absolute then ['/'] else []) ++ ['/'].intercalate (normalizeParts [] parts)
    some (if path = [] then "." else String.ofList path)

def canonical (input base : String) : Dereference String :=
  match canonicalUri platform input base with
  | some uri => pure uri
  | none => Fallible.fail "Invalid URL"

/-- Go down along the segments of a fragment. A member that every object inherits is a function,
which no document holds, so it is refused. -/
def pointerSteps : List (List Char) → Json → Import Json
  | [], current => pure current
  | raw :: rest, current => do
    let segment ← match Percent.decodeURIComponent (String.ofList raw) with
      | some segment => pure (String.ofList (unescapeSegment segment.toList))
      | none => Fallible.fail "URI malformed"
    let members ← object (some current)
    match readMember members segment with
    | .own value => pointerSteps rest value
    | _ => Fallible.fail "OpenAPI reference does not exist"

def pointerValue (root : List (String × Json)) (fragment : String) : Import Json :=
  if fragment = "" ∨ fragment = "#" then pure (.obj root)
  else if "#/".toList.isPrefixOf fragment.toList then
    pointerSteps (List.splitOn '/' (fragment.toList.drop 2)) (.obj root)
  else Fallible.fail ("Unsupported OpenAPI reference fragment: " ++ fragment)

/-! ## Documents -/

/-- The object in a text, as JSON or else as YAML. -/
def parseDocumentObject (text label : String) : Import (List (String × Json)) := do
  consumeDocument text label
  match parseJson text with
  | some (.obj members) => pure members
  | _ =>
    match platform.parseYaml text with
    | .ok (.obj members) => pure members
    | .ok _ => Fallible.fail ("无法解析导入文件：" ++ objectMessage)
    | .error detail => Fallible.fail ("无法解析导入文件：" ++ detail)

def cached (uri : String) : Dereference (Option (List (String × Json))) := fun state =>
  (.ok (state.cache.lookup uri), state)

def setCached (uri : String) (document : List (String × Json)) : Dereference Unit := fun state =>
  (.ok (), { state with cache := setEntry state.cache (uri, document) })

/-- Read a further document and keep it. -/
def addDocument (mainUri : String) (entry : String × String) : Dereference Unit := do
  let document ← onDocuments (parseDocumentObject platform entry.2 entry.1)
  onDocuments (validateStructure (.obj document))
  let uri ← canonical platform entry.1 ""
  setCached uri document
  let relative ← canonical platform entry.1 mainUri
  setCached relative document

def loadDocument (load : Option (String → Except String String)) (uri : String) :
    Dereference (List (String × Json)) := do
  match ← cached uri with
  | some document => pure document
  | none =>
    match load with
    | none => Fallible.fail ("缺少外部 OpenAPI 引用文档：" ++ uri)
    | some load =>
      match load uri with
      | .error message => Fallible.fail message
      | .ok text => do
        let document ← onDocuments (parseDocumentObject platform text uri)
        onDocuments (validateStructure (.obj document))
        setCached uri document
        pure document

/-! ## The traversal -/

/-- What a reference names before the fragment. -/
def documentPart (ref : String) : String := String.ofList (ref.toList.takeWhile (· ≠ '#'))

def fragmentPart (ref : String) : String := String.ofList (ref.toList.dropWhile (· ≠ '#'))

/-- The document a reference leads to. -/
def targetUriOf (documentPart currentUri : String) : Dereference String :=
  if documentPart = "" then pure currentUri else canonical platform documentPart currentUri

/-- Do a step for each element, and keep the results. -/
def collectDeref {α β : Type} (f : α → Dereference β) : List α → Dereference (List β)
  | [] => pure []
  | a :: rest => do
    let b ← f a
    let bs ← collectDeref f rest
    return b :: bs

/-- Replace the references in a value; `stack` is the references it was reached by. An assignment
to `__proto__` makes no member. -/
def visit (load : Option (String → Except String String)) :
    Nat → Json → String → List String → Nat → Dereference Json
  | 0, _, _, _, _ => Fallible.fail depthMessage
  | fuel + 1, value, currentUri, stack, depth => do
    onTraversal (consumeNode depth)
    match value with
    | .arr items => do
      let items ← collectDeref
        (fun item => visit load fuel item currentUri stack (depth + 1)) items
      return .arr items
    | .obj members =>
      match (Json.member? "$ref" members).bind Json.asStr with
      | some ref => do
        onTraversal consumeRef
        let targetUri ← targetUriOf platform (documentPart ref) currentUri
        let identity := targetUri ++ fragmentPart ref
        onTraversal (guardLimit (stack.contains identity)
          ("OpenAPI $ref 循环引用：" ++ identity))
        let document ← loadDocument platform load targetUri
        let target ← onTraversal (pointerValue document (fragmentPart ref))
        let resolved ← visit load fuel target targetUri (stack ++ [identity]) (depth + 1)
        let siblings := members.filter fun member => member.1 ≠ "$ref"
        if siblings = [] then return resolved
        else
          match resolved with
          | .obj targetMembers =>
            visit load fuel (.obj (fromEntries (targetMembers ++ siblings))) currentUri
              stack (depth + 1)
          | _ => visit load fuel (.obj siblings) currentUri stack (depth + 1)
      | none => do
        let members ← collectDeref (fun (member : String × Json) => do
          let value ← visit load fuel member.2 currentUri stack (depth + 1)
          return (member.1, value)) members
        return .obj (members.filter fun member => member.1 ≠ "__proto__")
    | scalar => return scalar

def dereferenceOpenApi (root : List (String × Json)) (options : ImportDocumentOptions) :
    Dereference (List (String × Json)) := do
  let mainUri ← canonical platform (options.baseUri.getD "openapi.yaml") ""
  setCached mainUri root
  Fallible.each (addDocument platform mainUri) options.documents
  let value ← visit platform options.load (importMaxDepth + 1) (.obj root) mainUri [] 0
  onTraversal (object (some value))

/-! ## Importing a document -/

/-- Only an OpenAPI document has references. -/
def dereferenced (root : List (String × Json)) (options : ImportDocumentOptions) :
    Dereference (List (String × Json)) :=
  if isOpenApi root then dereferenceOpenApi platform root options else pure root

/-- What is imported: the document itself, or what is left of its references. -/
def resolvedDocument (document : String) (options : ImportDocumentOptions) :
    Dereference (List (String × Json)) := do
  onDocuments (guardLimit (options.documents.length > importMaxDocuments - 1)
    ("导入文档数量超过 " ++ toString importMaxDocuments ++ " 个的上限"))
  let root ← onDocuments (parseDocumentObject platform document "导入文件")
  onDocuments (validateStructure (.obj root))
  let resolved ← dereferenced platform root options
  onDocuments (validateStructure (.obj resolved))
  return resolved

def importDocument (document : String) (options : ImportDocumentOptions) :
    Except String ImportResult :=
  match ((resolvedDocument platform document options).run ⟨[], createBudget, createBudget⟩).1 with
  | .error message => .error message
  | .ok resolved => ((importObject platform resolved).run createBudget).1

end References

end ApiVoy.Portable
