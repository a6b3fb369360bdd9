/-
# Projects on their way out and back

A project is written by one program and read by two. The client reads back what it has written.
The command line leaves the variables of a request out, so a request is run as it was exported
exactly when none of its placeholders names one of them.
-/

import ApiVoy.Engine.Variables
import ApiVoy.Portable.Collection
import ApiVoy.Portable.Import
import ApiVoy.Portable.Requests

namespace ApiVoy.Portable

open Domain Engine Foundation Script

/-! ## The size of a document -/

mutual

/-- The number of values in a value, itself included. -/
def nodeCount : Json → Nat
  | .arr items => itemsCount items + 1
  | .obj members => membersCount members + 1
  | _ => 1

def itemsCount : List Json → Nat
  | [] => 0
  | item :: rest => nodeCount item + itemsCount rest

def membersCount : List (String × Json) → Nat
  | [] => 0
  | (_, value) :: rest => nodeCount value + membersCount rest

end

theorem itemsCount_eq (items : List Json) : itemsCount items = (items.map nodeCount).sum := by
  induction items with
  | nil => rfl
  | cons item rest ih => rw [itemsCount, ih, List.map_cons, List.sum_cons]

theorem membersCount_eq (members : List (String × Json)) :
    membersCount members = ((members.map Prod.snd).map nodeCount).sum := by
  induction members with
  | nil => rfl
  | cons member rest ih => rw [membersCount, ih, List.map_cons, List.map_cons, List.sum_cons]

theorem nodeCount_eq (value : Json) :
    nodeCount value = ((childrenOf value).map nodeCount).sum + 1 := by
  cases value with
  | arr items => rw [nodeCount, itemsCount_eq, childrenOf]
  | obj members => rw [nodeCount, membersCount_eq, childrenOf]
  | null | bool _ | num _ | str _ => rfl

variable {items : List Json}

theorem nesting_le_of_mem_items {item : Json} (h : item ∈ items) :
    nesting item ≤ itemsNesting items := by
  induction items with
  | nil => cases h
  | cons first rest ih =>
    rw [itemsNesting]
    rcases List.mem_cons.mp h with rfl | hrest
    · exact Nat.le_max_left _ _
    · exact le_trans (ih hrest) (Nat.le_max_right _ _)

theorem nesting_le_of_mem_members {members : List (String × Json)} {member : String × Json}
    (h : member ∈ members) : nesting member.2 ≤ membersNesting members := by
  induction members with
  | nil => cases h
  | cons first rest ih =>
    rw [membersNesting]
    rcases List.mem_cons.mp h with rfl | hrest
    · exact Nat.le_max_left _ _
    · exact le_trans (ih hrest) (Nat.le_max_right _ _)

theorem nesting_lt_of_mem_children {value child : Json} (h : child ∈ childrenOf value) :
    nesting child < nesting value := by
  cases value with
  | arr items => exact Nat.lt_succ_of_le (nesting_le_of_mem_items h)
  | obj members =>
    obtain ⟨member, hmem, rfl⟩ := List.mem_map.mp h
    exact Nat.lt_succ_of_le (nesting_le_of_mem_members hmem)
  | null | bool _ | num _ | str _ => cases h

theorem consumeNode_ok (depth : Nat) (budget : ImportBudget) (hdepth : depth ≤ importMaxDepth)
    (hnodes : budget.nodes < importMaxNodes) :
    (consumeNode depth).run budget = (.ok (), { budget with nodes := budget.nodes + 1 }) := by
  have hdeep : decide (depth > importMaxDepth) = false := decide_eq_false (Nat.not_lt.mpr hdepth)
  have hmany : decide (budget.nodes + 1 > importMaxNodes) = false :=
    decide_eq_false (Nat.not_lt.mpr hnodes)
  rw [consumeNode, hdeep]
  refine (Fallible.run_bind_of_ok rfl).trans ((Fallible.run_bind_of_ok rfl).trans ?_)
  dsimp only
  rw [hmany]
  rfl

/-- The visit of a document ends well when the budget is enough for all of its values. -/
theorem validateLoop_ok (fuel : Nat) (stack : List (Json × Nat)) (budget : ImportBudget)
    (hfuel : (stack.map fun entry => nodeCount entry.1).sum ≤ fuel)
    (hnodes : budget.nodes + (stack.map fun entry => nodeCount entry.1).sum ≤ importMaxNodes)
    (hdepth : ∀ entry ∈ stack, entry.2 + nesting entry.1 ≤ importMaxDepth) :
    ∃ budget', (validateLoop fuel stack).run budget = (.ok (), budget') := by
  induction fuel generalizing stack budget with
  | zero =>
    cases stack with
    | nil => exact ⟨budget, rfl⟩
    | cons entry stack =>
      rw [List.map_cons, List.sum_cons, nodeCount_eq] at hfuel
      omega
  | succ fuel ih =>
    cases stack with
    | nil => exact ⟨budget, rfl⟩
    | cons entry stack =>
      obtain ⟨value, depth⟩ := entry
      rw [List.map_cons, List.sum_cons, nodeCount_eq] at hfuel hnodes
      have hhere := hdepth (value, depth) List.mem_cons_self
      have hsum : ((((childrenOf value).map fun child => (child, depth + 1)).reverse ++ stack).map
          fun entry => nodeCount entry.1).sum =
          ((childrenOf value).map nodeCount).sum +
            (stack.map fun entry => nodeCount entry.1).sum := by
        rw [List.map_append, List.sum_append, List.map_reverse, List.sum_reverse, List.map_map]
        rfl
      dsimp only at hfuel hnodes hhere
      have hstep := consumeNode_ok depth budget (by omega) (by omega)
      rw [validateLoop, Fallible.run_bind_of_ok hstep]
      refine ih _ _ (by omega) (by dsimp only; omega) ?_
      intro entry hentry
      rcases List.mem_append.mp hentry with hchild | hother
      · obtain ⟨child, hmem, rfl⟩ := List.mem_map.mp (List.mem_reverse.mp hchild)
        have hless := nesting_lt_of_mem_children hmem
        dsimp only
        omega
      · exact hdepth entry (List.mem_cons_of_mem _ hother)

/-! ## What is written -/

variable (platform : Platform)

variable (entries : List (Sigma fun _ : String => String))

theorem printable_textRecord (h : entries.NodupKeys) :
    JsonText.printable platform.numberText
      (.obj (entries.map fun entry => (entry.1, Json.str entry.2))) = true := by
  have hnames : ((entries.map fun entry => (entry.1, Json.str entry.2)).map Prod.fst).Nodup := by
    rw [List.map_map]
    exact h
  have hvalues : ∀ entries : List (Sigma fun _ : String => String),
      JsonText.membersPrintable platform.numberText
        (entries.map fun entry => (entry.1, Json.str entry.2)) = true := by
    intro entries
    induction entries with
    | nil => rfl
    | cons entry rest ih => exact ih
  rw [JsonText.printable, hvalues, Bool.and_true, decide_eq_true hnames]

theorem printable_texts (texts : List String) :
    JsonText.printable platform.numberText (.arr (texts.map Json.str)) = true := by
  induction texts with
  | nil => rfl
  | cons text rest ih => exact ih

theorem printable_toJson (request : PortableRequest) :
    JsonText.printable platform.numberText request.toJson = true := by
  have hmap : ∀ m : StringMap,
      JsonText.printable platform.numberText (Codec.stringMap.write m) = true :=
    fun m => printable_textRecord platform m.entries m.nodupKeys
  have hpath : ∀ path : List String,
      JsonText.printable platform.numberText ((Codec.list Codec.text).write path) = true :=
    printable_texts platform
  have htext : ∀ text : String,
      JsonText.printable platform.numberText (Codec.text.write text) = true := fun _ => rfl
  obtain ⟨name, method, url, headers, body, collectionPath, vars⟩ := request
  cases body <;> cases collectionPath <;> cases vars <;>
    simp [PortableRequest.toJson, PortableRequest.members, optionalMember, JsonText.printable,
      JsonText.membersPrintable, hmap, hpath, htext]

theorem itemsPrintable_of_forall
    (h : ∀ item ∈ items, JsonText.printable platform.numberText item = true) :
    JsonText.itemsPrintable platform.numberText items = true := by
  induction items with
  | nil => rfl
  | cons item rest ih =>
    rw [JsonText.itemsPrintable, h item List.mem_cons_self,
      ih fun item hmem => h item (List.mem_cons_of_mem _ hmem), Bool.and_true]

variable (name : String)

theorem printable_projectJson (requests : List PortableRequest) (now : String) :
    JsonText.printable platform.numberText (projectJson name requests now) = true := by
  have hrequests : JsonText.itemsPrintable platform.numberText
      (requests.map PortableRequest.toJson) = true := by
    refine itemsPrintable_of_forall platform fun item hmem => ?_
    obtain ⟨request, _, rfl⟩ := List.mem_map.mp hmem
    exact printable_toJson platform request
  have hone : JsonText.printsBack platform.numberText 1 = true := by
    have htext : JsonText.numberText platform.numberText 1 = ['1'] := if_pos (by decide)
    rw [JsonText.printsBack, htext]
    decide +kernel
  simp [projectJson, JsonText.printable, JsonText.membersPrintable, hrequests, hone]

theorem itemsNesting_le {bound : Nat} (h : ∀ item ∈ items, nesting item ≤ bound) :
    itemsNesting items ≤ bound := by
  induction items with
  | nil => exact Nat.zero_le bound
  | cons item rest ih =>
    exact Nat.max_le.mpr ⟨h item List.mem_cons_self,
      ih fun item hmem => h item (List.mem_cons_of_mem _ hmem)⟩

theorem membersNesting_texts :
    membersNesting (entries.map fun entry => (entry.1, Json.str entry.2)) = 0 := by
  induction entries with
  | nil => rfl
  | cons entry rest ih =>
    rw [List.map_cons, membersNesting, ih]
    rfl

theorem nesting_toJson (request : PortableRequest) : nesting request.toJson ≤ 2 := by
  have hmap : ∀ m : StringMap, nesting (Codec.stringMap.write m) = 1 := fun m =>
    congrArg (· + 1) (membersNesting_texts m.entries)
  have hpath : ∀ path : List String, nesting ((Codec.list Codec.text).write path) = 1 := by
    intro path
    refine congrArg (· + 1) (Nat.le_zero.mp (itemsNesting_le fun item hmem => ?_))
    obtain ⟨text, _, rfl⟩ := List.mem_map.mp hmem
    exact Nat.zero_le 0
  have htext : ∀ text : String, nesting (Codec.text.write text) = 0 := fun _ => rfl
  obtain ⟨name, method, url, headers, body, collectionPath, vars⟩ := request
  cases body <;> cases collectionPath <;> cases vars <;>
    simp [PortableRequest.toJson, PortableRequest.members, optionalMember, nesting, membersNesting,
      hmap, hpath, htext]

/-- However large it is, a project is not nested deep. -/
theorem nesting_projectJson (requests : List PortableRequest) (now : String) :
    nesting (projectJson name requests now) ≤ 4 := by
  have hrequests : itemsNesting (requests.map PortableRequest.toJson) ≤ 2 := by
    refine itemsNesting_le fun item hmem => ?_
    obtain ⟨request, _, rfl⟩ := List.mem_map.mp hmem
    exact nesting_toJson request
  simp only [projectJson, nesting, membersNesting]
  omega

/-! ## The client reads it back -/

/-- The limits of an import, for a project that is to be imported again. -/
structure WithinLimits (name : String) (requests : List PortableRequest) (now : String) : Prop where
  size : (stringify platform 2 (projectJson name requests now)).utf8ByteSize ≤ importMaxFileBytes
  nodes : nodeCount (projectJson name requests now) ≤ importMaxNodes
  requests : requests.length ≤ importMaxRequests

theorem consumeDocument_ok (document label : String)
    (h : document.utf8ByteSize ≤ importMaxFileBytes) :
    ∃ budget, (consumeDocument document label).run createBudget = (.ok (), budget) ∧
      budget.requests = 0 := by
  have hsize : decide (document.utf8ByteSize > importMaxFileBytes) = false :=
    decide_eq_false (Nat.not_lt.mpr h)
  have htotal : decide (0 + document.utf8ByteSize > importMaxTotalBytes) = false := by
    refine decide_eq_false (Nat.not_lt.mpr ?_)
    rw [Nat.zero_add]
    exact le_trans h (by decide)
  refine ⟨{ createBudget with documents := 1, bytes := 0 + document.utf8ByteSize }, ?_, rfl⟩
  rw [consumeDocument, hsize]
  refine (Fallible.run_bind_of_ok rfl).trans ((Fallible.run_bind_of_ok rfl).trans
    ((Fallible.run_bind_of_ok rfl).trans ?_))
  change Fallible.run (guardLimit (decide (0 + document.utf8ByteSize > importMaxTotalBytes)) _) _ = _
  rw [htotal]
  rfl

theorem validateStructure_ok {value : Json} (budget : ImportBudget)
    (hnodes : nodeCount value ≤ importMaxNodes) (hdepth : nesting value ≤ importMaxDepth) :
    (validateStructure value).run budget = (.ok (), budget) := by
  have hsum : ([(value, 0)].map fun entry => nodeCount entry.1).sum = nodeCount value :=
    Nat.add_zero _
  obtain ⟨budget', hrun⟩ := validateLoop_ok (importMaxNodes + 1) [(value, 0)] createBudget
    (by rw [hsum]; omega) (by rw [hsum]; exact le_of_eq_of_le (Nat.zero_add _) hnodes)
    (by simpa using hdepth)
  change (((validateLoop (importMaxNodes + 1) [(value, 0)]).run createBudget).1, budget) = _
  rw [hrun]

theorem collect_consumeRequest (values : List Json) (budget : ImportBudget)
    (h : budget.requests + values.length ≤ importMaxRequests) :
    ∃ units budget', (collect (fun _ => consumeRequest) values).run budget =
      (.ok units, budget') := by
  induction values generalizing budget with
  | nil => exact ⟨[], budget, rfl⟩
  | cons value rest ih =>
    rw [List.length_cons] at h
    have hmore : decide (budget.requests + 1 > importMaxRequests) = false :=
      decide_eq_false (by omega)
    have hstep : consumeRequest.run budget =
        (.ok (), { budget with requests := budget.requests + 1 }) := by
      refine (Fallible.run_bind_of_ok rfl).trans ?_
      dsimp only
      rw [hmore]
      rfl
    obtain ⟨units, budget', hrest⟩ := ih { budget with requests := budget.requests + 1 }
      (by dsimp only; omega)
    refine ⟨() :: units, budget', ?_⟩
    rw [collect, Fallible.run_bind_of_ok hstep, Fallible.run_bind_of_ok hrest]
    rfl

def projectResult (name : String) (requests : List PortableRequest) : ImportResult where
  source := .apivoy
  name := name
  requests := requests.map PortableRequest.toJson
  warnings := []

def projectMembers (name : String) (requests : List PortableRequest) (now : String) :
    List (String × Json) :=
  [("format", .str "apivoy-project"), ("version", .num 1), ("name", .str name),
    ("exportedAt", .str now), ("requests", .arr (requests.map PortableRequest.toJson))]

theorem project_member_name (requests : List PortableRequest) (now : String) :
    Json.member? "name" (projectMembers name requests now) = some (.str name) := by
  simp [projectMembers, Json.member?]

/-- A project is taken for no other format. -/
theorem importObject_project (requests : List PortableRequest) (now : String) :
    importObject platform (projectMembers name requests now) =
      importProject platform (projectMembers name requests now)
        (requests.map PortableRequest.toJson) := by
  have hopen : isOpenApi (projectMembers name requests now) = false := by
    simp [isOpenApi, projectMembers, Json.member?]
  have hlog : isObject (Json.member? "log" (projectMembers name requests now)) = false := by
    simp [projectMembers, Json.member?, isObject]
  have hnames : namesPostman platform (projectMembers name requests now) = .ok false := by
    simp [namesPostman, projectMembers, Json.member?]
  have hformat : Json.member? "format" (projectMembers name requests now) =
      some (.str "apivoy-project") := by
    simp [projectMembers, Json.member?]
  have hrequests : Json.member? "requests" (projectMembers name requests now) =
      some (.arr (requests.map PortableRequest.toJson)) := by
    simp [projectMembers, Json.member?]
  rw [importObject, hopen, hlog, hnames, hformat, hrequests]
  rfl

/-- A project within the limits comes back as it was. -/
theorem importJson_project {name : String} {requests : List PortableRequest} {now : String}
    (h : WithinLimits platform name requests now) :
    importJson platform (stringify platform 2 (projectJson name requests now)) =
      .ok (projectResult name requests) := by
  obtain ⟨hsize, hnodes, hrequests⟩ := h
  have hparse := parseJson_stringify platform 2 (printable_projectJson platform name requests now)
  obtain ⟨budget, hdocument, hbudget⟩ := consumeDocument_ok _ "导入文件" hsize
  have hdepth : nesting (projectJson name requests now) ≤ importMaxDepth :=
    le_trans (nesting_projectJson name requests now) (by decide)
  have hvalid : (validateStructure (.obj (projectMembers name requests now))).run budget =
      (.ok (), budget) := validateStructure_ok budget hnodes hdepth
  have hobject : (object (some (projectJson name requests now))).run budget =
      (.ok (projectMembers name requests now), budget) := rfl
  obtain ⟨units, budget', hunits⟩ := collect_consumeRequest (requests.map PortableRequest.toJson)
    budget (by rw [hbudget, List.length_map, Nat.zero_add]; exact hrequests)
  have hparsed : (parsed (stringify platform 2 (projectJson name requests now))).run budget =
      (.ok (projectJson name requests now), budget) := by
    rw [parsed, hparse]
    rfl
  rw [importJson, importJsonSteps, Fallible.run_bind_of_ok hdocument, Fallible.run_bind_of_ok hparsed]
  have hname : (textOr platform (Json.member? "name" (projectMembers name requests now))
      "ApiVoy Import").run budget' = (.ok name, budget') := by
    rw [project_member_name]
    rfl
  rw [Fallible.run_bind_of_ok hobject, Fallible.run_bind_of_ok hvalid, importObject_project,
    importProject, Fallible.run_bind_of_ok hunits, Fallible.run_bind_of_ok hname]
  rfl

/-! ## The command line loads it -/

/-- The headers of a request in the order of their names. -/
def headerList (headers : StringMap) : List (String × String) :=
  byName (headers.entries.map fun entry => (entry.1, entry.2))

/-- The request a portable request stands for, with some variables. -/
def PortableRequest.toEnvelope (request : PortableRequest) (vars : StringMap) (id : RequestId)
    (now : Timestamp) : RequestEnvelope :=
  { RequestEnvelope.httpGet id now request.name request.url with
    payload := .http {
      method := request.method
      headers := headerList request.headers
      body := request.body
      bodyEncoding := "text"
      bodySource := none
      multipart := []
      followRedirects := true }
    vars := vars }

theorem rowHeaders_write {row : Json} {headers : StringMap}
    (h : row.get "headers" = some (Codec.stringMap.write headers)) :
    rowHeaders row = headerList headers := by
  rw [rowHeaders, h]
  change (byName (headers.entries.map fun entry => (entry.1, Json.str entry.2))).map
    (fun entry => (entry.1, entry.2.asStr.getD "")) = headerList headers
  refine (List.map_mergeSort (s := fun a b : String × String => textLe a.1.toList b.1.toList)
    fun _ _ _ _ => rfl).trans ?_
  rw [List.map_map]
  rfl

/-- The command line leaves the variables of a request out. -/
theorem loadRow_toJson (id : RequestId) (now : Timestamp) (request : PortableRequest) :
    loadRow id now request.toJson = .ok (request.toEnvelope ∅ id now) := by
  have hheaders : request.toJson.get "headers" = some (Codec.stringMap.write request.headers) := by
    obtain ⟨name, method, url, headers, body, collectionPath, vars⟩ := request
    cases body <;> cases collectionPath <;> cases vars <;>
      simp [PortableRequest.toJson, PortableRequest.members, optionalMember, Json.get, Json.member?]
  have hrow := rowHeaders_write hheaders
  rw [loadRow, hrow]
  obtain ⟨name, method, url, headers, body, collectionPath, vars⟩ := request
  cases body <;> cases collectionPath <;> cases vars <;>
    simp [PortableRequest.toJson, PortableRequest.members, optionalMember, Json.get, Json.member?,
      Codec.text, Json.asStr, PortableRequest.toEnvelope, RequestEnvelope.httpGet]

theorem loadCollection_project (requests : List PortableRequest) (now : String)
    (ids : Nat → RequestId) (time : Timestamp) :
    loadCollection ids time (stringify platform 2 (projectJson name requests now)) =
      .ok (requests.zipIdx.map fun (request, index) => request.toEnvelope ∅ (ids index) time) := by
  have hparse := parseJson_stringify platform 2 (printable_projectJson platform name requests now)
  have hnesting : decide (nesting (projectJson name requests now) < recursionLimit) = true :=
    decide_eq_true (lt_of_le_of_lt (nesting_projectJson name requests now) (by decide))
  have hrows : collectionRows (projectJson name requests now) =
      .ok (requests.map PortableRequest.toJson) := by
    simp [collectionRows, projectJson, Json.get, Json.member?]
  rw [loadCollection, fromStr, hparse, Option.filter_some, hnesting]
  exact (congrArg (Except.bind · _) hrows).trans
    (loadRows_ok (fun id request => loadRow_toJson id time request) requests 0)

/-! ## What is sent -/

structure SentRequest where
  method : String
  url : String
  headers : List (String × String)
  body : Option String
  deriving DecidableEq

def sentOf (request : RequestEnvelope) : Option SentRequest :=
  match request.payload with
  | .http payload => some ⟨payload.method, request.target, payload.headers, payload.body⟩
  | _ => none

/-- What is sent of a portable request when its texts are resolved. -/
def resolveSent (resolve : String → Except String String) (request : PortableRequest) :
    Except String SentRequest := do
  let url ← resolve request.url
  let headers ← resolvePairs resolve (headerList request.headers)
  let body ← resolveOptional resolve request.body
  return ⟨request.method, url, headers, body⟩

variable (dynamics : Dynamics)

theorem sentOf_resolveRequest (request : PortableRequest) (vars : StringMap) (id : RequestId)
    (now : Timestamp) (scope : VariableScope) :
    (resolveRequest dynamics (request.toEnvelope vars id now) scope).map sentOf =
      (resolveSent (resolveTemplate dynamics · (vars ∪ scope.merged)) request).map some := by
  simp only [resolveRequest, resolveSent, PortableRequest.toEnvelope, RequestEnvelope.httpGet,
    resolvePayload]
  cases resolveTemplate dynamics request.url (vars ∪ scope.merged) with
  | error name => rfl
  | ok url =>
    cases resolvePairs (resolveTemplate dynamics · (vars ∪ scope.merged))
      (headerList request.headers) with
    | error name => rfl
    | ok headers =>
      cases resolveOptional (resolveTemplate dynamics · (vars ∪ scope.merged)) request.body with
      | error name => rfl
      | ok body => rfl

def PortableRequest.texts (request : PortableRequest) : List String :=
  request.url :: (((headerList request.headers).flatMap fun header => [header.1, header.2]) ++
    request.body.toList)

variable {resolve other : String → Except String String} {pairs : List (String × String)}

theorem resolvePairs_congr
    (h : ∀ text ∈ pairs.flatMap fun header => [header.1, header.2], resolve text = other text) :
    resolvePairs resolve pairs = resolvePairs other pairs := by
  induction pairs with
  | nil => rfl
  | cons pair rest ih =>
    obtain ⟨name, value⟩ := pair
    have hname := h name (by simp)
    have hvalue := h value (by simp)
    have hrest := ih fun text hmem => h text (by simp only [List.flatMap_cons]; simp [hmem])
    rw [resolvePairs, resolvePairs, hname, hvalue, hrest]

variable {request : PortableRequest}

theorem resolveSent_congr (h : ∀ text ∈ request.texts, resolve text = other text) :
    resolveSent resolve request = resolveSent other request := by
  have hurl := h request.url List.mem_cons_self
  have hheaders := resolvePairs_congr fun text hmem =>
    h text (List.mem_cons_of_mem _ (List.mem_append_left _ hmem))
  have hbody : resolveOptional resolve request.body = resolveOptional other request.body := by
    cases hcase : request.body with
    | none => rfl
    | some body =>
      have hsame := h body (List.mem_cons_of_mem _ (List.mem_append_right _ (by simp [hcase])))
      rw [resolveOptional, resolveOptional, hsame]
  rw [resolveSent, resolveSent, hurl, hheaders, hbody]

theorem resolvePairs_ok {resolve : String → Except String String} :
    (∃ resolved, resolvePairs resolve pairs = .ok resolved) ↔
      ∀ text ∈ pairs.flatMap fun header => [header.1, header.2],
        ∃ resolved, resolve text = .ok resolved := by
  induction pairs with
  | nil => simp [resolvePairs]
  | cons pair rest ih =>
    obtain ⟨name, value⟩ := pair
    have hparts : (∃ resolved, resolvePairs resolve ((name, value) :: rest) = .ok resolved) ↔
        (∃ resolved, resolve name = .ok resolved) ∧ (∃ resolved, resolve value = .ok resolved) ∧
          ∃ resolved, resolvePairs resolve rest = .ok resolved := by
      rw [resolvePairs]
      cases resolve name <;> cases resolve value <;> cases resolvePairs resolve rest <;>
        simp [bind, Except.bind, pure, Except.pure]
    rw [hparts, ih]
    simp

/-- A request is sent when all its texts are resolved, and only then. -/
theorem resolveSent_ok {resolve : String → Except String String} :
    (∃ sent, resolveSent resolve request = .ok sent) ↔
      ∀ text ∈ request.texts, ∃ resolved, resolve text = .ok resolved := by
  have hbody : (∃ body, resolveOptional resolve request.body = .ok body) ↔
      ∀ text ∈ request.body.toList, ∃ resolved, resolve text = .ok resolved := by
    cases request.body with
    | none => simp [resolveOptional]
    | some body =>
      cases hcase : resolve body <;>
        simp [resolveOptional, hcase, bind, Except.bind, pure, Except.pure]
  have hparts : (∃ sent, resolveSent resolve request = .ok sent) ↔
      (∃ url, resolve request.url = .ok url) ∧
        (∃ headers, resolvePairs resolve (headerList request.headers) = .ok headers) ∧
          ∃ body, resolveOptional resolve request.body = .ok body := by
    rw [resolveSent]
    cases resolve request.url <;> cases resolvePairs resolve (headerList request.headers) <;>
      cases resolveOptional resolve request.body <;> simp [bind, Except.bind, pure, Except.pure]
  rw [hparts, hbody, resolvePairs_ok, PortableRequest.texts, List.forall_mem_cons,
    List.forall_mem_append]

/-! ## The variables of a request -/

/-- Is a name the one of a dynamic token? -/
def isDynamic (key : String) : Bool := ["$uuid", "$timestamp", "$isoTimestamp"].contains key

/-- Does a placeholder of a request name one of its variables? -/
def PortableRequest.usesVariable (request : PortableRequest) : Bool :=
  (request.texts.flatMap keys).any fun key =>
    !isDynamic key && (request.vars.any fun vars => (vars.lookup key).isSome)

theorem resolveDynamic_isSome (key : String) :
    (resolveDynamic dynamics key).isSome = isDynamic key := by
  unfold resolveDynamic isDynamic
  by_cases huuid : key = "$uuid" <;> by_cases htimestamp : key = "$timestamp" <;>
    by_cases hiso : key = "$isoTimestamp" <;> simp [huuid, htimestamp, hiso]

/-- Without its variables a request is sent in the same way, whatever the scopes are, when it
does not use them. -/
theorem sent_alike (h : request.usesVariable = false) (dynamics : Dynamics) (scope : StringMap) :
    resolveSent (resolveTemplate dynamics · (∅ ∪ scope)) request =
      resolveSent (resolveTemplate dynamics · (request.vars.getD ∅ ∪ scope)) request := by
  refine resolveSent_congr fun text htext => resolveTemplate_congr dynamics fun key hkey => ?_
  have hmem : key ∈ request.texts.flatMap keys := List.mem_flatMap.mpr ⟨text, htext, hkey⟩
  have hfree := List.any_eq_false.mp h key hmem
  rw [valueOf, valueOf, lookup_union, lookup_union, AList.lookup_empty, Option.none_or]
  cases hdynamic : resolveDynamic dynamics key with
  | some value => rfl
  | none =>
    have hstatic : isDynamic key = false := by
      rw [← resolveDynamic_isSome dynamics key, hdynamic, Option.isSome_none]
    have hnone : (request.vars.getD ∅).lookup key = none := by
      cases hvars : request.vars with
      | none => exact AList.lookup_empty key
      | some vars => simpa [hstatic, hvars] using hfree
    rw [hnone, Option.none_or, Option.none_or]

def namesScope (names : List String) : StringMap :=
  (names.map fun name => (⟨name, ""⟩ : Sigma fun _ : String => String)).toAList

theorem lookup_namesScope (names : List String) (key : String) :
    ((namesScope names).lookup key).isSome = true ↔ key ∈ names := by
  rw [namesScope, AList.lookup_to_alist, List.dlookup_isSome, List.keys, List.map_map]
  exact Iff.of_eq (congrArg (key ∈ ·) (List.map_id names))

/-- Where a variable is used there are scopes under which the request is sent with it and not
without it. -/
theorem sent_apart (h : request.usesVariable = true) (dynamics : Dynamics) :
    ∃ scope : StringMap, resolveSent (resolveTemplate dynamics · (∅ ∪ scope)) request ≠
      resolveSent (resolveTemplate dynamics · (request.vars.getD ∅ ∪ scope)) request := by
  obtain ⟨key, hmem, hkey⟩ := List.any_eq_true.mp h
  obtain ⟨text, htext, hin⟩ := List.mem_flatMap.mp hmem
  obtain ⟨hstatic, hused⟩ := Bool.and_eq_true_iff.mp hkey
  let others := (request.texts.flatMap keys).filter (· ≠ key)
  refine ⟨namesScope others, fun hsame => ?_⟩
  have hvalue : ∀ name ∈ request.texts.flatMap keys,
      ((request.vars.getD ∅ ∪ namesScope others).lookup name).isSome = true := by
    intro name hname
    rw [lookup_union, Option.isSome_or, Bool.or_eq_true]
    by_cases heq : name = key
    · left
      rw [heq]
      cases hvars : request.vars with
      | none =>
        rw [hvars] at hused
        cases hused
      | some vars =>
        rw [hvars] at hused
        exact hused
    · right
      exact (lookup_namesScope others name).mpr
        (List.mem_filter.mpr ⟨hname, decide_eq_true heq⟩)
  have hsent : ∃ sent, resolveSent
      (resolveTemplate dynamics · (request.vars.getD ∅ ∪ namesScope others)) request = .ok sent := by
    refine resolveSent_ok.mpr fun text htext => (resolveTemplate_ok dynamics).mpr fun name hname => ?_
    rw [valueOf, Option.isSome_or,
      hvalue name (List.mem_flatMap.mpr ⟨text, htext, hname⟩), Bool.or_true]
  rw [← hsame] at hsent
  have hkeyed := (resolveTemplate_ok dynamics).mp (resolveSent_ok.mp hsent text htext) key hin
  have hlookup : ((namesScope others).lookup key).isSome = false := by
    rw [← Bool.not_eq_true, lookup_namesScope]
    exact fun hother => of_decide_eq_true (List.mem_filter.mp hother).2 rfl
  rw [valueOf, Option.isSome_or, resolveDynamic_isSome, lookup_union, AList.lookup_empty,
    Option.none_or, hlookup, Bool.or_false] at hkeyed
  rw [hkeyed] at hstatic
  cases hstatic

/-! ## The round trip -/

/-- What an export is for: the client reads the project back, and the command line has a request
for each of it, which is sent as the exported one with its variables, whatever the scopes are. -/
def RoundTrips (name : String) (requests : List PortableRequest) (now : String)
    (ids : Nat → RequestId) (time : Timestamp) : Prop :=
  ∃ document, exportApiVoyProject platform name requests true now = .ok document ∧
    importJson platform document = .ok (projectResult name requests) ∧
    ∃ loaded, loadCollection ids time document = .ok loaded ∧ loaded.length = requests.length ∧
      ∀ (index : Nat) (request : PortableRequest) (envelope : RequestEnvelope),
        requests[index]? = some request → loaded[index]? = some envelope →
        ∀ dynamics scope,
          (resolveRequest dynamics envelope scope).map sentOf =
            (resolveRequest dynamics
              (request.toEnvelope (request.vars.getD ∅) (ids index) time) scope).map sentOf

theorem map_some_inj {ε α : Type} {first second : Except ε α} :
    first.map some = second.map some ↔ first = second := by
  cases first <;> cases second <;> simp [Except.map]

/-- What the command line has loaded is sent as the exported request exactly when that one does
not use its variables. -/
theorem loaded_sent_iff (request : PortableRequest) (id : RequestId) (time : Timestamp) :
    (∀ dynamics scope, (resolveRequest dynamics (request.toEnvelope ∅ id time) scope).map sentOf =
      (resolveRequest dynamics
        (request.toEnvelope (request.vars.getD ∅) id time) scope).map sentOf) ↔
      request.usesVariable = false := by
  simp only [sentOf_resolveRequest, map_some_inj]
  constructor
  · intro h
    refine Bool.not_eq_true _ ▸ fun hused => ?_
    obtain ⟨scope, happart⟩ := sent_apart hused ⟨"", "", ""⟩
    refine happart ?_
    have hmerged : (⟨scope, ∅, ∅, ∅⟩ : VariableScope).merged = scope := by
      simp [VariableScope.merged]
    have hsame := h ⟨"", "", ""⟩ ⟨scope, ∅, ∅, ∅⟩
    rwa [hmerged] at hsame
  · exact fun hfree dynamics scope => sent_alike hfree dynamics scope.merged

/-- A project within the limits makes its round trip exactly when no placeholder of a request
names a variable that the request brings along. -/
theorem project_roundTrips_iff {name : String} {requests : List PortableRequest} {now : String}
    (h : WithinLimits platform name requests now) (ids : Nat → RequestId) (time : Timestamp) :
    RoundTrips platform name requests now ids time ↔
      ∀ request ∈ requests, request.usesVariable = false := by
  have hexport : exportApiVoyProject platform name requests true now =
      .ok (stringify platform 2 (projectJson name requests now)) := by
    simp [exportApiVoyProject]
  have hload := loadCollection_project platform name requests now ids time
  constructor
  · rintro ⟨document, hdocument, _, loaded, hloaded, _, hsent⟩ request hmem
    cases hexport.symm.trans hdocument
    cases hload.symm.trans hloaded
    obtain ⟨index, hindex⟩ := List.getElem?_of_mem hmem
    refine (loaded_sent_iff request (ids index) time).mp (hsent index request _ hindex ?_)
    rw [List.getElem?_map, List.getElem?_zipIdx, hindex]
    simp
  · intro hfree
    refine ⟨_, hexport, importJson_project platform h, _, hload, by simp, ?_⟩
    intro index request envelope hrequest henvelope
    rw [List.getElem?_map, List.getElem?_zipIdx, hrequest] at henvelope
    have heq : envelope = request.toEnvelope ∅ (ids index) time := by
      simpa using henvelope.symm
    rw [heq]
    exact (loaded_sent_iff request (ids index) time).mpr
      (hfree request (List.mem_of_getElem? hrequest))

/-! ## A request with a variable -/

/-- A request to a host that is a variable of its own. -/
def templatedRequest : PortableRequest where
  name := "List users"
  method := "GET"
  url := "\x7b\x7bhost\x7d\x7d/users"
  headers := ∅
  body := none
  collectionPath := none
  vars := some (AList.singleton "host" "https://api.test")

theorem templated_withinLimits : WithinLimits .ascii "Users" [templatedRequest] "" where
  size := by decide +kernel
  nodes := by decide +kernel
  requests := by decide

theorem templated_roundTrips_iff :
    RoundTrips .ascii "Users" [templatedRequest] "" (fun _ => "1") "" ↔
      ∀ request ∈ [templatedRequest], request.usesVariable = false :=
  project_roundTrips_iff .ascii templated_withinLimits (fun _ => "1") ""

theorem templated_not_roundTrips :
    ¬ ∀ (name : String) (requests : List PortableRequest) (now : String),
      WithinLimits .ascii name requests now →
        RoundTrips .ascii name requests now (fun _ => "1") "" := by
  intro h
  have hround := h "Users" [templatedRequest] "" templated_withinLimits
  rw [project_roundTrips_iff .ascii templated_withinLimits] at hround
  exact absurd (hround templatedRequest List.mem_cons_self) (by decide +kernel)

end ApiVoy.Portable
