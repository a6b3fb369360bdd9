/-
# Walking a Postman collection

The items of a collection wait on a stack, the children of one being put on it last one first, so
that the first child is taken next. What comes out is what a recursive walk finds: an item's own
request before those of its children, the children in their order, and with each request the names
of the folders above it.
-/

import ApiVoy.Portable.Import

namespace ApiVoy.Portable

open Foundation Script

/-! ## Steps without a budget -/

/-- What a step gives when nothing has been spent before. -/
def outcomeOf {α : Type} (m : Import α) : Except String α := (m.run createBudget).1

/-- A step that neither spends the budget nor looks at it. -/
def Steady {α : Type} (m : Import α) : Prop := ∀ budget, m.run budget = (outcomeOf m, budget)

namespace Steady

variable {α β : Type}

theorem pure (a : α) : Steady (Pure.pure a : Import α) := fun _ => rfl

theorem fail (message : String) : Steady (Fallible.fail message : Import α) := fun _ => rfl

theorem lift (result : Except String α) : Steady (Portable.lift result) := by
  cases result with
  | ok a => exact pure a
  | error message => exact fail message

variable {f : α → Import β}

theorem bind {m : Import α} (hm : Steady m) (hf : ∀ a, Steady (f a)) : Steady (m >>= f) := by
  intro budget
  unfold outcomeOf
  rw [Fallible.run_bind, Fallible.run_bind, hm budget, hm createBudget]
  cases outcomeOf m with
  | error message => rfl
  | ok a => exact hf a budget

theorem ite {c : Prop} [Decidable c] {m n : Import α} (hm : Steady m) (hn : Steady n) :
    Steady (if c then m else n) := by
  split
  · exact hm
  · exact hn

theorem collect (hf : ∀ a, Steady (f a)) (items : List α) : Steady (Portable.collect f items) := by
  induction items with
  | nil => exact pure []
  | cons a rest ih => exact bind (hf a) fun b => bind ih fun bs => pure (b :: bs)

theorem object (value : Option Json) : Steady (Portable.object value) := by
  unfold Portable.object
  split
  · exact pure _
  · exact fail _

theorem objectIfAny (value : Option Json) : Steady (Portable.objectIfAny value) :=
  ite (object value) (pure [])

variable (platform : Platform)

theorem text (value : Option Json) : Steady (Portable.text platform value) := lift _

theorem textOr (value : Option Json) (default : String) :
    Steady (Portable.textOr platform value default) := text platform _

theorem headerMap (value : Option Json) : Steady (Portable.headerMap platform value) := by
  unfold Portable.headerMap
  split
  · exact bind (collect (fun item => bind (text platform _) fun _ =>
      bind (textOr platform _ _) fun _ => pure _) _) fun _ => pure _
  · exact bind (collect (fun entry => bind (text platform _) fun _ => pure _) _) fun _ => pure _
  · exact pure []

theorem postmanMembers (value : Option Json) : Steady (Portable.postmanMembers value) := by
  unfold Portable.postmanMembers
  split
  · exact pure _
  · exact object _

end Steady

variable {budget after : ImportBudget}

theorem Steady.run_eq_ok_iff {α : Type} {m : Import α} (h : Steady m) {a : α} :
    m.run budget = (.ok a, after) ↔ outcomeOf m = .ok a ∧ after = budget := by
  rw [h budget, Prod.mk.injEq]
  exact and_congr_right fun _ => eq_comm

variable {u : Unit}

theorem guardLimit_eq_ok_iff {exceeded : Bool} {message : String} :
    (guardLimit exceeded message).run budget = (.ok u, after) ↔
      exceeded = false ∧ after = budget := by
  cases exceeded with
  | false => exact ⟨fun h => ⟨rfl, (Prod.mk.inj h).2.symm⟩, fun h => h.2 ▸ rfl⟩
  | true =>
    refine iff_of_false ?_ fun h => Bool.noConfusion h.1
    intro h
    cases h

theorem spend_eq_ok_iff {f : ImportBudget → ImportBudget} {budget after seen : ImportBudget} :
    (spend f).run budget = (.ok seen, after) ↔ seen = f budget ∧ after = f budget := by
  constructor
  · intro h
    cases h
    exact ⟨rfl, rfl⟩
  · rintro ⟨rfl, rfl⟩
    rfl

theorem consumeNode_eq_ok_iff {depth : Nat} :
    (consumeNode depth).run budget = (.ok u, after) ↔ depth ≤ importMaxDepth ∧
      budget.nodes + 1 ≤ importMaxNodes ∧ after = { budget with nodes := budget.nodes + 1 } := by
  unfold consumeNode
  simp only [Fallible.run_bind_eq_ok_iff, guardLimit_eq_ok_iff, spend_eq_ok_iff]
  constructor
  · rintro ⟨_, _, ⟨hdepth, rfl⟩, seen, middle, ⟨rfl, rfl⟩, hnodes, rfl⟩
    exact ⟨by simpa using hdepth, by simpa using hnodes, rfl⟩
  · rintro ⟨hdepth, hnodes, rfl⟩
    exact ⟨(), budget, ⟨by simpa using hdepth, rfl⟩, _, _, ⟨rfl, rfl⟩, by simpa using hnodes, rfl⟩

theorem consumeRequest_eq_ok_iff :
    consumeRequest.run budget = (.ok u, after) ↔ budget.requests + 1 ≤ importMaxRequests ∧
      after = { budget with requests := budget.requests + 1 } := by
  unfold consumeRequest
  simp only [Fallible.run_bind_eq_ok_iff, guardLimit_eq_ok_iff, spend_eq_ok_iff]
  constructor
  · rintro ⟨seen, middle, ⟨rfl, rfl⟩, hrequests, rfl⟩
    exact ⟨by simpa using hrequests, rfl⟩
  · rintro ⟨hrequests, rfl⟩
    exact ⟨_, _, ⟨rfl, rfl⟩, by simpa using hrequests, rfl⟩

/-! ## The recursive walk -/

section Walk

variable (platform : Platform) (vars : List (String × String))

/-- An item of a collection, with the names of the folders above it. -/
structure Listed where
  path : List String
  members : List (String × Json)

/-- The name an item has as a folder. -/
def folderName (members : List (String × Json)) : Except String String :=
  outcomeOf (textOr platform (Json.member? "name" members) "Folder")

theorem sizeOf_member_lt {name : String} {members : List (String × Json)} {value : Json}
    (h : Json.member? name members = some value) : sizeOf value < sizeOf members := by
  obtain ⟨entry, hentry, rfl⟩ := List.mem_map.mp (List.mem_of_getLast? h)
  have hmem := List.sizeOf_lt_of_mem (List.mem_filter.mp hentry).1
  have hsnd : sizeOf entry.2 < sizeOf entry := by
    obtain ⟨key, value⟩ := entry
    simp only [Prod.mk.sizeOf_spec]
    omega
  omega

theorem sizeOf_itemsOf_lt (name : String) (members : List (String × Json)) :
    sizeOf (itemsOf (Json.member? name members)) < sizeOf (Json.obj members) := by
  rw [Json.obj.sizeOf_spec]
  have hmembers : 1 ≤ sizeOf members := by
    cases members <;> simp only [List.nil.sizeOf_spec, List.cons.sizeOf_spec] <;> omega
  cases hvalue : Json.member? name members with
  | none =>
    rw [itemsOf, List.nil.sizeOf_spec]
    · omega
    · exact fun items heq => by cases heq
  | some value =>
    have hlt := sizeOf_member_lt hvalue
    cases value with
    | arr items =>
      rw [Json.arr.sizeOf_spec] at hlt
      rw [itemsOf]
      omega
    | _ =>
      rw [itemsOf, List.nil.sizeOf_spec]
      · omega
      · exact fun items heq => by cases heq

mutual

/-- The items of a tree of folders: an item before its children, and these in their order. -/
def listItem (path : List String) : Json → Except String (List Listed)
  | .obj members => do
    let folder ← folderName platform members
    let below ← listItems (path ++ [folder]) (itemsOf (Json.member? "item" members))
    return ⟨path, members⟩ :: below
  | _ => .error objectMessage
  termination_by item => sizeOf item
  decreasing_by exact sizeOf_itemsOf_lt _ _

def listItems (path : List String) : List Json → Except String (List Listed)
  | [] => return []
  | item :: rest => do
    let listed ← listItem path item
    let others ← listItems path rest
    return listed ++ others
  termination_by items => sizeOf items

end

/-- Has an item a request of its own? -/
def Listed.hasRequest (listed : Listed) : Bool := truthy (Json.member? "request" listed.members)

/-- The request of an item, on its own. -/
def Listed.requestOf (listed : Listed) : Except String ImportedRequest :=
  outcomeOf (postmanRequest platform vars listed.path listed.members)

/-- The requests of items, in their order. -/
def requestsOfListed : List Listed → Except String (List ImportedRequest)
  | [] => return []
  | listed :: rest =>
    if listed.hasRequest then do
      let request ← listed.requestOf platform vars
      let requests ← requestsOfListed rest
      return request :: requests
    else requestsOfListed rest

/-- The items that wait on a stack, with those below them. -/
def listFrames : List PostmanFrame → Except String (List Listed)
  | [] => return []
  | frame :: stack => do
    let listed ← listItem platform frame.path frame.item
    let others ← listFrames stack
    return listed ++ others

/-! ## The stack -/

/-- The loop as it runs: the last item of the stack is taken, and the children are put on it from
the last one to the first. -/
def stackLoop : Nat → List PostmanFrame → Import (List ImportedRequest)
  | fuel, stack =>
    match stack.getLast? with
    | none => return []
    | some current =>
      match fuel with
      | 0 => Fallible.fail nodesMessage
      | fuel + 1 => do
        consumeNode current.depth
        let item ← object (some current.item)
        let requests ← requestsOf platform vars current.path item
        let folder ← textOr platform (Json.member? "name" item) "Folder"
        let children := (itemsOf (Json.member? "item" item)).map fun child =>
          ⟨child, current.path ++ [folder], current.depth + 1⟩
        let rest ← stackLoop fuel (children.reverse.foldl (fun stack child =>
          stack ++ [child]) stack.dropLast)
        return requests ++ rest

variable {platform vars}

theorem foldl_push (children stack : List PostmanFrame) :
    children.foldl (fun stack child => stack ++ [child]) stack = stack ++ children := by
  induction children generalizing stack with
  | nil => exact (List.append_nil stack).symm
  | cons child children ih => rw [List.foldl_cons, ih, List.append_assoc, List.singleton_append]

/-- The stack is read from its end. -/
theorem stackLoop_reverse (fuel : Nat) (stack : List PostmanFrame) :
    stackLoop platform vars fuel stack.reverse = postmanLoop platform vars fuel stack := by
  induction fuel generalizing stack with
  | zero =>
    cases stack with
    | nil => rfl
    | cons current stack =>
      rw [stackLoop, List.getLast?_reverse]
      rfl
  | succ fuel ih =>
    cases stack with
    | nil => rfl
    | cons current stack =>
      rw [stackLoop, List.getLast?_reverse, List.reverse_cons, List.dropLast_concat,
        List.head?_cons]
      dsimp only
      simp only [foldl_push, ← List.reverse_append, ih]
      rfl

def childFrames (current : PostmanFrame) (members : List (String × Json)) (folder : String) :
    List PostmanFrame :=
  (itemsOf (Json.member? "item" members)).map fun child =>
    ⟨child, current.path ++ [folder], current.depth + 1⟩

variable {members : List (String × Json)}

theorem object_eq_ok_iff {value : Json} {budget after : ImportBudget} :
    (object (some value)).run budget = (.ok members, after) ↔
      value = .obj members ∧ after = budget := by
  cases value with
  | obj others =>
    constructor
    · intro h
      cases h
      exact ⟨rfl, rfl⟩
    · rintro ⟨⟨⟩, rfl⟩
      rfl
  | _ =>
    refine iff_of_false ?_ fun h => by cases h.1
    intro h
    cases h

variable {path : List String}

/-- The request of an item is built as it is on its own, and one request is spent. -/
theorem postmanRequest_eq_ok_iff {request : ImportedRequest} {budget after : ImportBudget} :
    (postmanRequest platform vars path members).run budget = (.ok request, after) ↔
      budget.requests + 1 ≤ importMaxRequests ∧
        (Listed.mk path members).requestOf platform vars = .ok request ∧
        after = { budget with requests := budget.requests + 1 } := by
  obtain ⟨rest, hrest, hsteady⟩ : ∃ rest : Import ImportedRequest,
      postmanRequest platform vars path members = (consumeRequest >>= fun _ => rest) ∧
        Steady rest :=
    ⟨_, rfl, Steady.bind (.postmanMembers _) fun _ => .bind (.objectIfAny _)
      fun _ => .bind (.textOr platform _ _) fun _ =>
        Steady.bind (.textOr platform _ _) fun _ =>
          Steady.bind (.headerMap platform _) fun _ => .pure _⟩
  have hown : (Listed.mk path members).requestOf platform vars = outcomeOf rest := by
    have hspent : consumeRequest.run createBudget =
        (.ok (), { createBudget with requests := createBudget.requests + 1 }) :=
      consumeRequest_eq_ok_iff.mpr ⟨by decide, rfl⟩
    rw [Listed.requestOf, hrest, outcomeOf, Fallible.run_bind_of_ok hspent, hsteady]
  rw [hrest, hown]
  simp only [Fallible.run_bind_eq_ok_iff, consumeRequest_eq_ok_iff, hsteady.run_eq_ok_iff]
  constructor
  · rintro ⟨_, _, ⟨hrequests, rfl⟩, hrequest, rfl⟩
    exact ⟨hrequests, hrequest, rfl⟩
  · rintro ⟨hrequests, hrequest, rfl⟩
    exact ⟨(), _, ⟨hrequests, rfl⟩, hrequest, rfl⟩

theorem requestsOfListed_cons (listed : Listed) (rest : List Listed) :
    requestsOfListed platform vars (listed :: rest) = (do
      let own ← requestsOfListed platform vars [listed]
      let requests ← requestsOfListed platform vars rest
      return own ++ requests) := by
  simp only [requestsOfListed]
  split
  · simp only [bind_assoc, pure_bind, List.singleton_append]
  · simp only [pure_bind, List.nil_append, bind_pure]

theorem requestsOf_eq_ok_iff {own : List ImportedRequest} {budget after : ImportBudget}
    (hbudget : budget.requests ≤ importMaxRequests) :
    (requestsOf platform vars path members).run budget = (.ok own, after) ↔
      requestsOfListed platform vars [⟨path, members⟩] = .ok own ∧
        budget.requests + own.length ≤ importMaxRequests ∧
        after = { budget with requests := budget.requests + own.length } := by
  unfold requestsOf
  simp only [requestsOfListed]
  by_cases hrequest : truthy (Json.member? "request" members) = true
  · have hlisted : (Listed.mk path members).hasRequest = true := hrequest
    rw [if_pos hrequest, if_pos hlisted]
    simp only [Fallible.run_bind_eq_ok_iff, postmanRequest_eq_ok_iff, bind_eq_ok_iff]
    constructor
    · rintro ⟨request, _, ⟨hrequests, hrequest, rfl⟩, hreturn⟩
      cases hreturn
      exact ⟨⟨request, hrequest, [], rfl, rfl⟩, hrequests, rfl⟩
    · rintro ⟨⟨request, hrequest, requests, hnil, hown⟩, hrequests, rfl⟩
      cases hnil
      cases hown
      exact ⟨request, _, ⟨hrequests, hrequest, rfl⟩, rfl⟩
  · have hlisted : ¬ (Listed.mk path members).hasRequest = true := hrequest
    rw [if_neg hrequest, if_neg hlisted]
    constructor
    · intro h
      cases h
      exact ⟨rfl, hbudget, rfl⟩
    · rintro ⟨hown, -, rfl⟩
      cases hown
      rfl

variable {requests : List ImportedRequest} {stack : List PostmanFrame} {current : PostmanFrame}

theorem postmanLoop_cons_eq_ok_iff {fuel : Nat} {budget : ImportBudget}
    (hbudget : budget.requests ≤ importMaxRequests) :
    (∃ after, (postmanLoop platform vars (fuel + 1) (current :: stack)).run budget =
        (.ok requests, after)) ↔
      ∃ members folder own rest, current.item = .obj members ∧
        folderName platform members = .ok folder ∧ current.depth ≤ importMaxDepth ∧
        budget.nodes + 1 ≤ importMaxNodes ∧
        requestsOfListed platform vars [⟨current.path, members⟩] = .ok own ∧
        budget.requests + own.length ≤ importMaxRequests ∧ requests = own ++ rest ∧
        ∃ after, (postmanLoop platform vars fuel
            (childFrames current members folder ++ stack)).run
          { budget with
            nodes := budget.nodes + 1
            requests := budget.requests + own.length } = (.ok rest, after) := by
  rw [postmanLoop]
  constructor
  · rintro ⟨after, h⟩
    obtain ⟨_, _, hnode, h⟩ := Fallible.run_bind_eq_ok_iff.mp h
    obtain ⟨hdepth, hnodes, rfl⟩ := consumeNode_eq_ok_iff.mp hnode
    obtain ⟨members, _, hobject, h⟩ := Fallible.run_bind_eq_ok_iff.mp h
    obtain ⟨hitem, rfl⟩ := object_eq_ok_iff.mp hobject
    obtain ⟨own, _, hrequest, h⟩ := Fallible.run_bind_eq_ok_iff.mp h
    obtain ⟨hown, hrequests, rfl⟩ := (requestsOf_eq_ok_iff (by exact hbudget)).mp hrequest
    obtain ⟨folder, _, hname, h⟩ := Fallible.run_bind_eq_ok_iff.mp h
    obtain ⟨hfolder, rfl⟩ := (Steady.textOr platform _ _).run_eq_ok_iff.mp hname
    obtain ⟨rest, after, hrest, hreturn⟩ := Fallible.run_bind_eq_ok_iff.mp h
    cases hreturn
    exact ⟨members, folder, own, rest, hitem, hfolder, hdepth, hnodes, hown, hrequests, rfl, _,
      hrest⟩
  · rintro ⟨members, folder, own, rest, hitem, hfolder, hdepth, hnodes, hown, hrequests, rfl, after,
      hrest⟩
    refine ⟨after, Fallible.run_bind_eq_ok_iff.mpr ⟨(), _,
      consumeNode_eq_ok_iff.mpr ⟨hdepth, hnodes, rfl⟩, ?_⟩⟩
    refine Fallible.run_bind_eq_ok_iff.mpr ⟨members, _, object_eq_ok_iff.mpr ⟨hitem, rfl⟩, ?_⟩
    refine Fallible.run_bind_eq_ok_iff.mpr ⟨own, _,
      (requestsOf_eq_ok_iff (by exact hbudget)).mpr ⟨hown, hrequests, rfl⟩, ?_⟩
    refine Fallible.run_bind_eq_ok_iff.mpr ⟨folder, _,
      (Steady.textOr platform _ _).run_eq_ok_iff.mpr ⟨hfolder, rfl⟩, ?_⟩
    exact Fallible.run_bind_eq_ok_iff.mpr ⟨rest, after, hrest, rfl⟩

variable {listed : List Listed}

/-- One round of the walk. -/
theorem listFrames_cons_eq_ok_iff :
    listFrames platform (current :: stack) = .ok listed ↔
      ∃ members folder rest, current.item = .obj members ∧
        folderName platform members = .ok folder ∧
        listFrames platform (childFrames current members folder ++ stack) = .ok rest ∧
        listed = ⟨current.path, members⟩ :: rest := by
  have hchildren : ∀ (path : List String) (depth : Nat) (items : List Json),
      listFrames platform ((items.map fun child => ⟨child, path, depth⟩) ++ stack) = (do
        let below ← listItems platform path items
        let others ← listFrames platform stack
        return below ++ others) := by
    intro path depth items
    induction items with
    | nil =>
      rw [List.map_nil, List.nil_append, listItems]
      exact (bind_pure (listFrames platform stack)).symm
    | cons item items ih =>
      rw [List.map_cons, List.cons_append, listFrames, listItems, ih]
      simp only [bind_assoc, pure_bind, List.append_assoc]
  rw [listFrames]
  cases hitem : current.item with
  | obj members =>
    rw [listItem]
    simp only [bind_assoc, pure_bind, Json.obj.injEq]
    constructor
    · intro h
      obtain ⟨folder, hfolder, h⟩ := bind_eq_ok_iff.mp h
      obtain ⟨below, hbelow, h⟩ := bind_eq_ok_iff.mp h
      obtain ⟨others, hothers, h⟩ := bind_eq_ok_iff.mp h
      cases h
      refine ⟨members, folder, below ++ others, rfl, hfolder, ?_, rfl⟩
      rw [childFrames, hchildren]
      exact bind_eq_ok_iff.mpr ⟨below, hbelow, bind_eq_ok_iff.mpr ⟨others, hothers, rfl⟩⟩
    · rintro ⟨_, folder, rest, rfl, hfolder, hrest, rfl⟩
      rw [childFrames, hchildren] at hrest
      obtain ⟨below, hbelow, hrest⟩ := bind_eq_ok_iff.mp hrest
      obtain ⟨others, hothers, hrest⟩ := bind_eq_ok_iff.mp hrest
      cases hrest
      exact bind_eq_ok_iff.mpr ⟨folder, hfolder, bind_eq_ok_iff.mpr ⟨below, hbelow,
        bind_eq_ok_iff.mpr ⟨others, hothers, rfl⟩⟩⟩
  | _ =>
    rw [listItem]
    · refine iff_of_false ?_ fun h => ?_
      · intro h
        cases h
      · obtain ⟨_, _, _, h, -⟩ := h
        cases h
    · exact fun members heq => by cases heq

/-- Listed items within the budget that is left, with these requests. -/
structure Affordable (budget : ImportBudget) (listed : List Listed)
    (requests : List ImportedRequest) : Prop where
  nodes : budget.nodes + listed.length ≤ importMaxNodes
  depth : ∀ item ∈ listed, item.path.length ≤ importMaxDepth
  requests : budget.requests + requests.length ≤ importMaxRequests

/-- The loop returns what the walk finds, and it returns whenever that is within the budget. -/
theorem postmanLoop_eq_ok_iff {fuel : Nat} {budget : ImportBudget}
    (hfuel : importMaxNodes < fuel + budget.nodes) (hnodes : budget.nodes ≤ importMaxNodes)
    (hbudget : budget.requests ≤ importMaxRequests)
    (hdepth : ∀ frame ∈ stack, frame.depth = frame.path.length) :
    (∃ after, (postmanLoop platform vars fuel stack).run budget = (.ok requests, after)) ↔
      ∃ listed, listFrames platform stack = .ok listed ∧
        requestsOfListed platform vars listed = .ok requests ∧
        Affordable budget listed requests := by
  induction fuel generalizing stack budget requests with
  | zero => omega
  | succ fuel ih =>
    cases stack with
    | nil =>
      rw [postmanLoop, listFrames]
      constructor
      · rintro ⟨after, h⟩
        cases h
        exact ⟨[], rfl, rfl, by simpa using hnodes, by simp, by simpa using hbudget⟩
      · rintro ⟨listed, hlisted, hrequests, -⟩
        cases hlisted
        cases hrequests
        exact ⟨budget, rfl⟩
    | cons current stack =>
      have hcurrent := hdepth current List.mem_cons_self
      have hchildren : ∀ members folder,
          ∀ frame ∈ childFrames current members folder ++ stack,
            frame.depth = frame.path.length := by
        intro members folder frame hframe
        rcases List.mem_append.mp hframe with hframe | hframe
        · obtain ⟨child, -, rfl⟩ := List.mem_map.mp hframe
          rw [List.length_append, List.length_singleton, hcurrent]
        · exact hdepth frame (List.mem_cons_of_mem _ hframe)
      rw [postmanLoop_cons_eq_ok_iff hbudget]
      constructor
      · rintro ⟨members, folder, own, rest, hitem, hfolder, hdeep, hnode, hown, hspent, rfl,
          hrest⟩
        obtain ⟨listed, hlisted, hrequests, haffordable⟩ := (ih (by dsimp only; omega)
          (by exact hnode) (by exact hspent) (hchildren members folder)).mp hrest
        refine ⟨⟨current.path, members⟩ :: listed, listFrames_cons_eq_ok_iff.mpr
          ⟨members, folder, listed, hitem, hfolder, hlisted, rfl⟩, ?_, ?_, ?_, ?_⟩
        · rw [requestsOfListed_cons]
          exact bind_eq_ok_iff.mpr ⟨own, hown, bind_eq_ok_iff.mpr ⟨rest, hrequests, rfl⟩⟩
        · have hle := haffordable.nodes
          rw [List.length_cons]
          dsimp only at hle
          omega
        · exact List.forall_mem_cons.mpr ⟨hcurrent ▸ hdeep, haffordable.depth⟩
        · have hle := haffordable.requests
          rw [List.length_append]
          dsimp only at hle
          omega
      · rintro ⟨listed, hlisted, hrequests, haffordable⟩
        obtain ⟨members, folder, rest, hitem, hfolder, hrest, rfl⟩ :=
          listFrames_cons_eq_ok_iff.mp hlisted
        rw [requestsOfListed_cons] at hrequests
        obtain ⟨own, hown, hrequests⟩ := bind_eq_ok_iff.mp hrequests
        obtain ⟨others, hothers, hrequests⟩ := bind_eq_ok_iff.mp hrequests
        cases hrequests
        have hnodes := haffordable.nodes
        have hrequests := haffordable.requests
        obtain ⟨hdeep, hdepths⟩ := List.forall_mem_cons.mp haffordable.depth
        rw [List.length_cons] at hnodes
        rw [List.length_append] at hrequests
        refine ⟨members, folder, own, others, hitem, hfolder, hcurrent.trans_le hdeep,
          by omega, hown, by omega, rfl, ?_⟩
        refine (ih (by dsimp only; omega) (by dsimp only; omega) (by dsimp only; omega)
          (hchildren members folder)).mpr ⟨rest, hrest, hothers, ?_, hdepths, ?_⟩
        · dsimp only
          omega
        · dsimp only
          omega

theorem listFrames_roots (items : List Json) :
    listFrames platform (items.map fun item => ⟨item, [], 0⟩) = listItems platform [] items := by
  induction items with
  | nil => rw [List.map_nil, listFrames, listItems]
  | cons item items ih => rw [List.map_cons, listFrames, listItems, ih]

theorem returns_path (path : List String) (members : List (String × Json)) :
    Fallible.Returns (fun request => request.collectionPath = path)
      (postmanRequest platform vars path members) :=
  Fallible.Returns.bind_any _ fun _ => .bind_any _ fun _ =>
    Fallible.Returns.bind_any _ fun _ => .bind_any _ fun _ =>
      Fallible.Returns.bind_any _ fun _ => .bind_any _ fun _ =>
        Fallible.Returns.pure rfl

/-- Every request stands where its item is listed, with the names above it. -/
theorem collectionPath_of_listed (h : requestsOfListed platform vars listed = .ok requests) :
    requests.map ImportedRequest.collectionPath =
      (listed.filter Listed.hasRequest).map Listed.path := by
  induction listed generalizing requests with
  | nil =>
    cases h
    rfl
  | cons item listed ih =>
    rw [requestsOfListed] at h
    by_cases hitem : item.hasRequest = true
    · rw [if_pos hitem] at h
      obtain ⟨request, hrequest, h⟩ := bind_eq_ok_iff.mp h
      obtain ⟨rest, hrest, h⟩ := bind_eq_ok_iff.mp h
      cases h
      have hpath : request.collectionPath = item.path :=
        returns_path item.path item.members createBudget request _ (Prod.ext hrequest rfl)
      rw [List.filter_cons_of_pos hitem, List.map_cons, List.map_cons, ih hrest, hpath]
    · rw [if_neg hitem] at h
      rw [List.filter_cons_of_neg hitem, ih h]

/-- The loop over the items of a collection returns the requests of a recursive walk in their order,
each with the names of the folders above its item, and it returns them whenever the collection is
within the budget. -/
theorem stackLoop_eq_walk (root : List (String × Json)) (requests : List ImportedRequest) :
    (∃ after, (stackLoop platform vars (importMaxNodes + 1)
        ((itemsOf (Json.member? "item" root)).map fun item => ⟨item, [], 0⟩).reverse).run
          createBudget = (.ok requests, after)) ↔
      ∃ listed, listItems platform [] (itemsOf (Json.member? "item" root)) = .ok listed ∧
        requestsOfListed platform vars listed = .ok requests ∧
        requests.map ImportedRequest.collectionPath =
          (listed.filter Listed.hasRequest).map Listed.path ∧
        Affordable createBudget listed requests := by
  have hframes : ∀ frame ∈ (itemsOf (Json.member? "item" root)).map fun item =>
      (⟨item, [], 0⟩ : PostmanFrame), frame.depth = frame.path.length := by
    intro frame hframe
    obtain ⟨item, -, rfl⟩ := List.mem_map.mp hframe
    rfl
  rw [stackLoop_reverse, ← listFrames_roots,
    postmanLoop_eq_ok_iff (by decide) (by decide) (by decide) hframes]
  refine exists_congr fun listed => and_congr_right fun _ => and_congr_right fun hrequests => ?_
  exact (and_iff_right (collectionPath_of_listed hrequests)).symm

end Walk

end ApiVoy.Portable
