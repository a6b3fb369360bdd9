/-
# Well-typed imports

What an import hands on is stored without another look at it. Three of the importers build
their requests, so these have the form a portable request should have; the entries of a
project file are handed on unchecked. All of them count their requests against the budget.
-/

import ApiVoy.Portable.References

namespace ApiVoy.Portable

open Foundation Script

/-! ## The form of a request -/

def isText : Option Json → Bool
  | some (.str _) => true
  | _ => false

def isTextList : Option Json → Bool
  | some (.arr items) => items.all fun item => isText (some item)
  | _ => false

def isTextRecord : Option Json → Bool
  | some (.obj members) => members.all fun member => isText (some member.2)
  | _ => false

/-- A request with texts for its name, method and URL, texts in its headers, and its other
members absent or of their types. -/
def wellTyped (request : Json) : Bool :=
  isText (request.get "name") && (isText (request.get "method") && (isText (request.get "url") &&
    (isTextRecord (request.get "headers") &&
      (((request.get "body").isNone || isText (request.get "body")) &&
        (((request.get "collectionPath").isNone || isTextList (request.get "collectionPath")) &&
          ((request.get "variables").isNone || isTextRecord (request.get "variables")))))))

theorem isTextRecord_textRecord (entries : List (String × String)) :
    isTextRecord (some (textRecord entries)) = true := by
  simp [textRecord, isTextRecord, isText]

theorem isTextList_texts (texts : List String) :
    isTextList (some (.arr (texts.map Json.str))) = true := by
  simp [isTextList, isText]

/-- A request an importer has built has the right form. -/
theorem wellTyped_toJson (request : ImportedRequest) : wellTyped request.toJson = true := by
  obtain ⟨name, method, url, headers, body, collectionPath, vars⟩ := request
  have hheaders := isTextRecord_textRecord headers
  have hpath := isTextList_texts collectionPath
  cases body <;> cases vars <;>
    simp [wellTyped, ImportedRequest.toJson, Json.get, Json.member?, isText, hheaders, hpath,
      isTextRecord_textRecord]

/-! ## Counting requests -/

/-- A step that spends no requests. -/
def Quiet {α : Type} (m : Import α) : Prop :=
  ∀ count, Fallible.Maintains (fun budget => budget.requests = count) m

namespace Quiet

variable {α β : Type}

theorem pure (a : α) : Quiet (Pure.pure a : Import α) := fun _ => Fallible.Maintains.pure a

theorem fail (message : String) : Quiet (Fallible.fail message : Import α) := fun _ =>
  Fallible.Maintains.fail message

variable {f : α → Import β}

theorem bind {m : Import α} (hm : Quiet m) (hf : ∀ a, Quiet (f a)) :
    Quiet (m >>= f) := fun count => .bind (hm count) fun a => hf a count

theorem ite {c : Prop} [Decidable c] {m n : Import α} (hm : Quiet m) (hn : Quiet n) :
    Quiet (if c then m else n) := fun count => .ite (hm count) (hn count)

theorem lift (result : Except String α) : Quiet (Portable.lift result) := by
  cases result with
  | ok a => exact pure a
  | error message => exact fail message

theorem guardLimit (exceeded : Bool) (message : String) :
    Quiet (Portable.guardLimit exceeded message) := ite (fail message) (pure ())

theorem spend {f : ImportBudget → ImportBudget} (h : ∀ b, (f b).requests = b.requests) :
    Quiet (Portable.spend f) := fun _ budget hbudget => (h budget).trans hbudget

theorem collect (hf : ∀ a, Quiet (f a)) (as : List α) : Quiet (Portable.collect f as) := by
  induction as with
  | nil => exact pure []
  | cons a rest ih => exact bind (hf a) fun b => bind ih fun bs => pure (b :: bs)

theorem consumeNode (depth : Nat) : Quiet (Portable.consumeNode depth) :=
  bind (guardLimit _ _) fun _ => bind (spend fun _ => rfl) fun _ => guardLimit _ _

theorem consumeRef : Quiet Portable.consumeRef :=
  bind (spend fun _ => rfl) fun _ => guardLimit _ _

theorem object (value : Option Json) : Quiet (Portable.object value) := by
  match value with
  | some (.obj members) => exact pure members
  | none | some .null | some (.bool _) | some (.num _) | some (.str _) | some (.arr _) =>
    exact fail _

theorem objectIfAny (value : Option Json) : Quiet (Portable.objectIfAny value) :=
  ite (object value) (pure [])

theorem walk (segments : List String) (current : Found) : Quiet (Portable.walk segments current) := by
  induction segments generalizing current with
  | nil => exact pure current
  | cons segment rest ih => exact bind (object _) fun _ => ih _

theorem resolveFrom (root : List (String × Json)) (fuel depth : Nat) (current : Found)
    (seen : List String) : Quiet (Portable.resolveFrom root fuel depth current seen) := by
  induction fuel generalizing depth current seen with
  | zero =>
    rw [Portable.resolveFrom.eq_def]
    dsimp only
    cases refOf current with
    | none => exact pure _
    | some ref => exact fail _
  | succ fuel ih =>
    rw [Portable.resolveFrom.eq_def]
    dsimp only
    cases refOf current with
    | none => exact pure _
    | some ref =>
      exact bind (consumeNode depth) fun _ => bind consumeRef fun _ =>
        bind (guardLimit _ _) fun _ => bind (guardLimit _ _) fun _ =>
          bind (walk _ _) fun _ => ih _ _ _

theorem resolvePointer (root : List (String × Json)) (value : Found) (seen : List String) :
    Quiet (Portable.resolvePointer root value seen) := resolveFrom root _ _ _ _

theorem resolved (root : List (String × Json)) (value : Option Json) :
    Quiet (Portable.resolved root value) :=
  bind (resolvePointer root _ _) fun _ => pure _

theorem resolvedObject (root : List (String × Json)) (value : Option Json) :
    Quiet (Portable.resolvedObject root value) := bind (resolved root value) fun _ => object _

theorem requestBodyOf (root operation : List (String × Json)) :
    Quiet (Portable.requestBodyOf root operation) := ite (resolvedObject root _) (pure [])

theorem mediaOf (root content : List (String × Json)) (mediaType : Option String) :
    Quiet (Portable.mediaOf root content mediaType) := by
  cases mediaType with
  | none => exact pure []
  | some mediaType => exact resolvedObject root _

theorem schemaExample (root : List (String × Json)) (fuel : Nat) (input : Found)
    (seen : List String) (depth : Nat) :
    Quiet (Portable.schemaExample root fuel input seen depth) := by
  induction fuel generalizing input seen depth with
  | zero => exact fail _
  | succ fuel ih =>
    refine bind (consumeNode depth) fun _ => bind (resolvePointer root input seen) fun found => ?_
    obtain ⟨target, seen'⟩ := found
    match target with
    | .missing | .inherited => exact pure _
    | .own .null | .own (.bool _) | .own (.num _) | .own (.str _) | .own (.arr _) => exact pure _
    | .own (.obj schema) =>
      simp only
      split
      · exact pure _
      · refine ite (bind (ih _ _ _) fun _ => pure _) (ite ?_ (pure _))
        exact bind (collect (fun entry => bind (ih _ _ _) fun _ => pure _) _) fun _ => pure _

variable (platform : Platform)

theorem text (value : Option Json) : Quiet (Portable.text platform value) := lift _

theorem textOr (value : Option Json) (default : String) :
    Quiet (Portable.textOr platform value default) := text platform _

theorem headerMap (value : Option Json) : Quiet (Portable.headerMap platform value) := by
  match value with
  | some (.arr items) =>
    exact bind (collect (fun item => bind (text platform _) fun _ =>
      bind (textOr platform _ _) fun _ => pure _) _) fun _ => pure _
  | some (.obj members) =>
    exact bind (collect (fun entry => bind (text platform _) fun _ => pure _) _) fun _ => pure _
  | none | some .null | some (.bool _) | some (.num _) | some (.str _) => exact pure _

theorem queryText (parameters : List Found) : Quiet (Portable.queryText platform parameters) :=
  collect (fun _ => bind (text platform _) fun _ => bind (text platform _) fun _ => pure _) _

theorem mediaExample (root media : List (String × Json)) :
    Quiet (Portable.mediaExample root media) := by
  unfold Portable.mediaExample
  split
  · exact pure _
  · exact ite (schemaExample root _ _ _ _) (pure _)

theorem postmanMembers (value : Option Json) : Quiet (Portable.postmanMembers value) := by
  unfold Portable.postmanMembers
  split
  · exact pure _
  · exact object _

theorem postmanVariables (value : Option Json) :
    Quiet (Portable.postmanVariables platform value) :=
  bind (collect (fun _ => bind (textOr platform _ _) fun _ =>
    bind (textOr platform _ _) fun _ => pure _) _) fun _ => pure _

theorem harName (entry request : List (String × Json)) :
    Quiet (Portable.harName platform entry request) := by
  unfold Portable.harName
  split
  · exact text platform _
  · exact bind (textOr platform _ _) fun _ => bind (textOr platform _ _) fun _ => pure _

end Quiet

/-- A step that ends well from `start` requests, within the limit, stays within the limit and ends
with as many requests as `count` says of its result. -/
def Counts {α : Type} (start : Nat) (count : α → Nat) (m : Import α) : Prop :=
  ∀ budget a budget', budget.requests = start → start ≤ importMaxRequests →
    m.run budget = (.ok a, budget') → budget'.requests = count a ∧ count a ≤ importMaxRequests

namespace Counts

variable {α β : Type} {start : Nat}

variable {count : α → Nat}

theorem pure {a : α} (h : count a = start) : Counts start count (Pure.pure a) := by
  intro budget b budget' hstart hlimit hrun
  cases hrun
  exact ⟨hstart.trans h.symm, h ▸ hlimit⟩

theorem fail (count : α → Nat) (message : String) : Counts start count (Fallible.fail message) := by
  intro budget a budget' _ _ hrun
  cases hrun

theorem ite {c : Prop} [Decidable c] {m n : Import α} (hm : Counts start count m)
    (hn : Counts start count n) : Counts start count (if c then m else n) := by
  split
  · exact hm
  · exact hn

variable {m : Import α}

theorem of_quiet (h : Quiet m) : Counts start (fun _ => start) m := by
  intro budget a budget' hstart hlimit hrun
  have hsame := h start budget hstart
  rw [hrun] at hsame
  exact ⟨hsame, hlimit⟩

variable {f : α → Import β}

theorem bind {between : α → Nat} {count : β → Nat} (hm : Counts start between m)
    (hf : ∀ a, Counts (between a) count (f a)) : Counts start count (m >>= f) := by
  intro budget b budget' hstart hlimit hrun
  have ⟨a, middle, hfirst, hsecond⟩ := Fallible.run_bind_eq_ok_iff.mp hrun
  have ⟨hbetween, hwithin⟩ := hm budget a middle hstart hlimit hfirst
  exact hf a middle b budget' hbetween hwithin hsecond

theorem quiet_bind {count : β → Nat} (hm : Quiet m) (hf : ∀ a, Counts start count (f a)) :
    Counts start count (m >>= f) :=
  bind (of_quiet hm) hf

/-- Over a list, what its elements spend adds up. -/
theorem collect {size : β → Nat} (hf : ∀ a start, Counts start (fun b => start + size b) (f a))
    (as : List α) (start : Nat) :
    Counts start (fun bs => start + (bs.map size).sum) (Portable.collect f as) := by
  induction as generalizing start with
  | nil => exact pure rfl
  | cons a rest ih =>
    refine bind (hf a start) fun b => bind (ih (start + size b)) fun bs => pure ?_
    rw [List.map_cons, List.sum_cons, Nat.add_assoc]

/-- The steps of a list that spend one request each. -/
theorem collect_one (hf : ∀ a start, Counts start (fun _ => start + 1) (f a)) (as : List α)
    (start : Nat) : Counts start (fun bs => start + bs.length) (Portable.collect f as) := by
  have hone : ∀ a start, Counts start (fun b => start + (fun _ : β => 1) b) (f a) := hf
  simpa using collect hone as start

theorem collect_given (hf : ∀ a start, Counts start (fun _ => start + 1) (f a)) (as : List α)
    (start : Nat) : Counts start (fun _ => start + as.length) (Portable.collect f as) := by
  induction as generalizing start with
  | nil => exact pure rfl
  | cons a rest ih =>
    refine bind (hf a start) fun b => bind (ih (start + 1)) fun bs => pure ?_
    rw [List.length_cons, Nat.add_assoc, Nat.add_comm 1]

theorem consumeRequest : Counts start (fun _ => start + 1) Portable.consumeRequest := by
  intro budget a budget' hstart hlimit hrun
  have ⟨spent, middle, hspend, hguard⟩ := Fallible.run_bind_eq_ok_iff.mp hrun
  cases hspend
  have hwithin : budget.requests + 1 ≤ importMaxRequests := by
    refine Nat.le_of_not_lt fun hover => ?_
    rw [guardLimit, if_pos (decide_eq_true hover)] at hguard
    cases hguard
  rw [guardLimit, if_neg (by simpa using hwithin)] at hguard
  cases hguard
  subst hstart
  exact ⟨rfl, hwithin⟩

variable (platform : Platform)

theorem importOperation (root : List (String × Json)) (base : String)
    (vars : List (String × String)) (path : String) (pathItem : List (String × Json))
    (method : String) (start : Nat) :
    Counts start (fun _ => start + 1)
      (Portable.importOperation platform root base vars path pathItem method) := by
  refine bind consumeRequest fun _ => of_quiet ?_
  exact .bind (.resolvedObject root _) fun _ =>
    Quiet.bind (.collect (fun _ => .resolved root _) _) fun _ =>
    Quiet.bind (.queryText platform _) fun _ => .bind (.requestBodyOf root _) fun _ =>
    Quiet.bind (.object _) fun _ => .bind (.mediaOf root _ _) fun _ =>
    Quiet.bind (.mediaExample root _) fun _ =>
    Quiet.bind (.textOr platform _ _) fun _ => .pure _

theorem importPath (root : List (String × Json)) (base : String) (vars : List (String × String))
    (entry : String × Json) (start : Nat) :
    Counts start (fun requests => start + requests.length)
      (Portable.importPath platform root base vars entry) :=
  quiet_bind (.resolvedObject root _) fun pathItem =>
    collect_one (importOperation platform root base vars entry.1 pathItem) _ start

theorem importOpenApi (root : List (String × Json)) :
    Counts 0 (fun result => result.requests.length) (Portable.importOpenApi platform root) := by
  refine quiet_bind (.collect (fun _ => .bind (.object _) fun _ =>
      Quiet.bind (.textOr platform _ _) fun _ => .pure _) _) fun vars =>
    quiet_bind (.textOr platform _ _) fun base => quiet_bind (.object _) fun paths =>
    bind (collect (importPath platform root _ _) paths 0) fun requests =>
    quiet_bind (.textOr platform _ _) fun name => pure ?_
  rw [List.length_map, List.length_flatten, Nat.zero_add]

theorem postmanRequest (vars : List (String × String)) (path : List String)
    (item : List (String × Json)) (start : Nat) :
    Counts start (fun _ => start + 1) (Portable.postmanRequest platform vars path item) := by
  refine bind consumeRequest fun _ => of_quiet ?_
  exact .bind (.postmanMembers _) fun _ => .bind (.objectIfAny _) fun _ =>
    Quiet.bind (.textOr platform _ _) fun _ => .bind (.textOr platform _ _) fun _ =>
    Quiet.bind (.headerMap platform _) fun _ => .pure _

theorem requestsOf (vars : List (String × String)) (path : List String)
    (item : List (String × Json)) (start : Nat) :
    Counts start (fun requests => start + requests.length)
      (Portable.requestsOf platform vars path item) :=
  ite (bind (postmanRequest platform vars path item start) fun _ => pure rfl) (pure rfl)

theorem postmanLoop (vars : List (String × String)) (fuel : Nat) (stack : List PostmanFrame)
    (start : Nat) :
    Counts start (fun requests => start + requests.length)
      (Portable.postmanLoop platform vars fuel stack) := by
  induction fuel generalizing stack start with
  | zero =>
    cases stack with
    | nil => exact pure rfl
    | cons current stack => exact fail _ _
  | succ fuel ih =>
    cases stack with
    | nil => exact pure rfl
    | cons current stack =>
      refine quiet_bind (.consumeNode _) fun _ => quiet_bind (.object _) fun item =>
        bind (requestsOf platform vars current.path item start) fun requests =>
        quiet_bind (.textOr platform _ _) fun folder => bind (ih _ _) fun rest => pure ?_
      rw [List.length_append, Nat.add_assoc]

theorem importPostman (root : List (String × Json)) :
    Counts 0 (fun result => result.requests.length) (Portable.importPostman platform root) := by
  refine quiet_bind (.postmanVariables platform _) fun vars =>
    bind (postmanLoop platform vars _ _ 0) fun requests =>
    quiet_bind (.objectIfAny _) fun info =>
    quiet_bind (.textOr platform _ _) fun name => pure ?_
  rw [List.length_map, Nat.zero_add]

theorem harRequest (value : Json) (start : Nat) :
    Counts start (fun _ => start + 1) (Portable.harRequest platform value) :=
  bind consumeRequest fun _ => of_quiet <|
    Quiet.bind (.object _) fun _ => .bind (.object _) fun _ =>
    Quiet.bind (.objectIfAny _) fun _ =>
    Quiet.bind (.harName platform _ _) fun _ => .bind (.textOr platform _ _) fun _ =>
    Quiet.bind (.textOr platform _ _) fun _ => .bind (.headerMap platform _) fun _ =>
    Quiet.pure _

theorem importHar (root : List (String × Json)) :
    Counts 0 (fun result => result.requests.length) (Portable.importHar platform root) := by
  refine quiet_bind (.object _) fun log =>
    bind (collect_one (harRequest platform) _ 0) fun requests => pure ?_
  rw [List.length_map, Nat.zero_add]

/-- The requests of a project file are counted although nothing else is looked at. -/
theorem importProject (root : List (String × Json)) (requests : List Json) :
    Counts 0 (fun result => result.requests.length)
      (Portable.importProject platform root requests) := by
  have hspent := collect_given (fun _ _ => consumeRequest) requests 0
  exact bind hspent fun spent => quiet_bind (.textOr platform _ _) fun name =>
    pure (Nat.zero_add _).symm

/-- Every import stays within the limit. -/
theorem importObject (root : List (String × Json)) :
    Counts 0 (fun result => result.requests.length) (Portable.importObject platform root) := by
  refine ite (importOpenApi platform root) (ite (importHar platform root) ?_)
  refine quiet_bind (.lift _) fun postman => ite (importPostman platform root) ?_
  split
  · exact importProject platform root _
  · exact fail _ _

end Counts

/-! ## What is handed on -/

section HandedOn

variable (platform : Platform)

/-- The entries an import hands on as they are: those of a project file, which is a document of
no other format. -/
def handedOn (root : List (String × Json)) : List Json :=
  if isOpenApi root || isObject (Json.member? "log" root) then []
  else if namesPostman platform root = .ok true then []
  else
    match Json.member? "format" root, Json.member? "requests" root with
    | some (.str "apivoy-project"), some (.arr requests) => requests
    | _, _ => []

/-- A result whose requests are built by an importer. -/
def Built (result : ImportResult) : Prop := ∀ request ∈ result.requests, wellTyped request = true

theorem built_of_requests {result : ImportResult} {requests : List ImportedRequest}
    (h : result.requests = requests.map ImportedRequest.toJson) : Built result := by
  intro request hmem
  rw [h] at hmem
  have ⟨imported, _, heq⟩ := List.mem_map.mp hmem
  rw [← heq]
  exact wellTyped_toJson imported

theorem importOpenApi_built (root : List (String × Json)) :
    Fallible.Returns Built (importOpenApi platform root) :=
  Fallible.Returns.bind_any _ fun _ => .bind_any _ fun _ => .bind_any _ fun _ => .bind_any _ fun _ =>
    Fallible.Returns.bind_any _ fun _ => .pure (built_of_requests rfl)

theorem importPostman_built (root : List (String × Json)) :
    Fallible.Returns Built (importPostman platform root) :=
  Fallible.Returns.bind_any _ fun _ => .bind_any _ fun _ => .bind_any _ fun _ => .bind_any _ fun _ =>
    Fallible.Returns.pure (built_of_requests rfl)

theorem importHar_built (root : List (String × Json)) : Fallible.Returns Built (importHar platform root) :=
  Fallible.Returns.bind_any _ fun _ => .bind_any _ fun _ => .pure (built_of_requests rfl)

theorem importProject_requests (root : List (String × Json)) (requests : List Json) :
    Fallible.Returns (fun result => result.requests = requests) (importProject platform root requests) :=
  Fallible.Returns.bind_any _ fun _ => .bind_any _ fun _ => .pure rfl

/-- The requests of an import are built, unless they are those of a project file. -/
theorem importObject_requests (root : List (String × Json)) :
    Fallible.Returns (fun result => Built result ↔ ∀ entry ∈ handedOn platform root, wellTyped entry = true)
      (importObject platform root) := by
  have hbuilt : ∀ {m : Import ImportResult}, Fallible.Returns Built m → handedOn platform root = [] →
      Fallible.Returns (fun result => Built result ↔
        ∀ entry ∈ handedOn platform root, wellTyped entry = true) m := by
    intro m hm hnone budget result budget' hrun
    have hall := hm budget result budget' hrun
    simp [hnone, hall]
  by_cases hopen : isOpenApi root = true
  · rw [importObject, if_pos hopen]
    exact hbuilt (importOpenApi_built platform root) (by simp [handedOn, hopen])
  by_cases hlog : isObject (Json.member? "log" root) = true
  · rw [importObject, if_neg hopen, if_pos hlog]
    exact hbuilt (importHar_built platform root) (by simp [handedOn, hlog])
  rw [importObject, if_neg hopen, if_neg hlog]
  intro budget result budget' hrun
  have ⟨postman, middle, hfirst, hsecond⟩ := Fallible.run_bind_eq_ok_iff.mp hrun
  have hnames : namesPostman platform root = .ok postman := by
    cases hcase : namesPostman platform root with
    | error message => simp [hcase, lift] at hfirst
    | ok named =>
      rw [hcase] at hfirst
      cases hfirst
      rfl
  cases postman with
  | true =>
    refine hbuilt (importPostman_built platform root) ?_ middle result budget' hsecond
    simp [handedOn, hnames]
  | false =>
    have hentries : handedOn platform root =
        match Json.member? "format" root, Json.member? "requests" root with
        | some (.str "apivoy-project"), some (.arr requests) => requests
        | _, _ => [] := by
      simp [handedOn, hopen, hlog, hnames]
    rw [if_neg Bool.false_ne_true] at hsecond
    split at hsecond
    · rename_i requests hformat hrequests
      have hsame : result.requests = requests :=
        importProject_requests platform root requests middle result budget' hsecond
      have hthese : handedOn platform root = requests := by
        rw [hentries, hformat, hrequests]
        rfl
      show Built result ↔ _
      rw [hthese, Built, hsame]
    · cases hsecond

end HandedOn

end ApiVoy.Portable
