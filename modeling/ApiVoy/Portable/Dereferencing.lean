/-
# What dereferencing leaves

A successful traversal has gone down from each place of a document to all that it leads to: the
items and members of a value, the target of a reference and the members next to it. So no place
leads back to itself. And no reference is left, unless one stood where the name of another one
belongs and led to a text.
-/

import ApiVoy.Foundation.Triple
import ApiVoy.Portable.ImportSafety
import ApiVoy.Portable.Parameters

namespace ApiVoy.Portable

open Foundation Script

/-! ## Values -/

/-- A value that is another one or stands in it. -/
inductive Inside (part : Json) : Json → Prop
  | here : Inside part part
  | item {item : Json} {items : List Json} (h : item ∈ items) (rest : Inside part item) :
      Inside part (.arr items)
  | member {entry : String × Json} {members : List (String × Json)} (h : entry ∈ members)
      (rest : Inside part entry.2) : Inside part (.obj members)

def isReference (value : Json) : Bool := isText (value.get "$ref")

/-- No reference is left. -/
def Dereferenced (value : Json) : Prop := ∀ part, Inside part value → isReference part = false

/-- No reference stands where the name of another one belongs. -/
def PlainReferences (value : Json) : Prop :=
  ∀ part inner, Inside part value → part.get "$ref" = some inner → isReference inner = false

theorem Dereferenced.plain {value : Json} (h : Dereferenced value) : PlainReferences value := by
  intro part inner hpart hinner
  have hdown : ∀ whole, Inside part whole → Inside inner whole := by
    intro whole hwhole
    induction hwhole with
    | here =>
      cases part with
      | obj members => exact .member (mem_of_member? hinner) .here
      | _ => cases hinner
    | item hitem _ ih => exact .item hitem ih
    | member hmember _ ih => exact .member hmember ih
  exact h inner (hdown value hpart)

theorem plainReferences_obj {members : List (String × Json)}
    (href : ∀ inner, Json.member? "$ref" members = some inner → isReference inner = false)
    (hmembers : ∀ entry ∈ members, PlainReferences entry.2) : PlainReferences (.obj members) := by
  intro part inner hpart hinner
  cases hpart with
  | here => exact href inner hinner
  | member hentry hrest => exact hmembers _ hentry part inner hrest hinner

theorem PlainReferences.member {members : List (String × Json)} (h : PlainReferences (.obj members))
    {entry : String × Json} (hentry : entry ∈ members) : PlainReferences entry.2 :=
  fun part inner hpart => h part inner (.member hentry hpart)

section Traversal

variable (platform : Platform) (load : Option (String → Except String String))

/-! ## Places -/

def loaded (uri : String) : Option (List (String × Json)) :=
  load.bind fun load => (load uri).toOption.bind (documentRoot platform)

def targetUri? (documentPart currentUri : String) : Option String :=
  if documentPart = "" then some currentUri else canonicalUri platform documentPart currentUri

variable (documents : String → Option (List (String × Json)))

/-- From a value in a document to one that the traversal goes to for it. -/
inductive Leads : Json × String → Json × String → Prop
  | item {items : List Json} {item : Json} {uri : String} (h : item ∈ items) :
      Leads (.arr items, uri) (item, uri)
  | member {members : List (String × Json)} {name : String} {value : Json} {uri : String}
      (h : Json.member? name members = some value) : Leads (.obj members, uri) (value, uri)
  | reference {members document : List (String × Json)} {ref uri target : String} {value : Json}
      (href : Json.member? "$ref" members = some (.str ref))
      (htarget : targetUri? platform (documentPart ref) uri = some target)
      (hdocument : documents target = some document)
      (hvalue : outcomeOf (pointerValue document (fragmentPart ref)) = .ok value) :
      Leads (.obj members, uri) (value, target)

/-- Everything a place leads to is reached in finitely many steps. -/
def Grounded (place : Json × String) : Prop :=
  Acc (fun next place => Leads platform documents place next) place

theorem Grounded.not_cyclic {place : Json × String} (h : Grounded platform documents place) :
    ¬Relation.TransGen (Leads platform documents) place place := by
  induction h with
  | intro place _ ih =>
    intro hcycle
    obtain ⟨next, hfirst, hrest⟩ := Relation.TransGen.head'_iff.mp hcycle
    exact ih next hfirst (Relation.TransGen.tail' hrest hfirst)

theorem Grounded.of_reach {place next : Json × String} (h : Grounded platform documents place)
    (hreach : Relation.ReflTransGen (Leads platform documents) place next) :
    Grounded platform documents next := by
  induction hreach with
  | refl => exact h
  | tail _ hstep ih => exact ih.inv hstep

/-! ## The state of a traversal -/

/-- Nothing beyond the limits, or nothing but what is refused for it. -/
def Within (refused : Nat) (state : DereferenceState) : Prop :=
  state.traversal.nodes ≤ importMaxNodes + refused ∧ state.traversal.refs ≤ importMaxRefs + refused

/-- The limits are kept, and what is cached is the document, which is loaded otherwise. -/
structure Going (state : DereferenceState) : Prop where
  within : Within 0 state
  kept : ∀ uri document, state.cache.lookup uri = some document → documents uri = some document
  fresh : ∀ uri, state.cache.lookup uri = none → documents uri = loaded platform load uri

/-- A step of the traversal and what its result satisfies. -/
def Goes {α : Type} (P : α → Prop) (m : Dereference α) : Prop :=
  Fallible.Ends (Going platform load documents) m
    (fun a state => P a ∧ Going platform load documents state) (Within 1)

variable {platform load documents} {α β : Type} {P : α → Prop} {Q : β → Prop}

variable {state : DereferenceState}

theorem Going.refused (h : Going platform load documents state) :
    Within 1 state := ⟨h.within.1.trans (Nat.le_succ _), h.within.2.trans (Nat.le_succ _)⟩

/-- Reading documents spends nothing of the traversal. -/
theorem ends_onDocuments {I : DereferenceState → Prop} {m : Import α} (h : Fallible.Returns P m)
    (hkeep : ∀ state spent, I state → I { state with documents := spent })
    (hrefused : ∀ state, I state → Within 1 state) :
    Fallible.Ends I (onDocuments m) (fun a state => P a ∧ I state) (Within 1) := by
  intro state hstate
  have hrun : (onDocuments m).run state = ((m.run state.documents).1,
      { state with documents := (m.run state.documents).2 }) := rfl
  rw [hrun]
  rcases hm : m.run state.documents with ⟨_ | a, after⟩
  · exact hrefused _ (hkeep state after hstate)
  · exact ⟨h _ a after hm, hkeep state after hstate⟩

theorem run_spend_guardLimit (f : ImportBudget → ImportBudget) (exceeded : ImportBudget → Bool)
    (message : String) (budget : ImportBudget) :
    (spend f >>= fun seen => guardLimit (exceeded seen) message).run budget =
      (if exceeded (f budget) then .error message else .ok (), f budget) := by
  change (guardLimit (exceeded (f budget)) message).run (f budget) = _
  cases exceeded (f budget) <;> rfl

namespace Goes

theorem pure {a : α} (h : P a) : Goes platform load documents P (Pure.pure a : Dereference α) :=
  fun _ hs => ⟨h, hs⟩

theorem fail (message : String) :
    Goes platform load documents P (Fallible.fail message : Dereference α) := fun _ hs => hs.refused

variable {f : α → Dereference β} {m : Dereference α}

theorem bind (hm : Goes platform load documents P m)
    (hf : ∀ a, P a → Goes platform load documents Q (f a)) :
    Goes platform load documents Q (m >>= f) :=
  Fallible.Ends.bind hm fun a state hstate => hf a hstate.1 state hstate.2

theorem imp {P' : α → Prop} (hm : Goes platform load documents P m) (h : ∀ a, P a → P' a) :
    Goes platform load documents P' m := by
  intro state hstate
  have hrun := hm state hstate
  rcases hm : m.run state with ⟨_ | a, after⟩
  · rwa [hm] at hrun
  · rw [hm] at hrun
    exact ⟨h a hrun.1, hrun.2⟩

theorem onTraversal {m : Import α} (h : Steady m) :
    Goes platform load documents (fun a => outcomeOf m = .ok a) (Portable.onTraversal m) := by
  intro state hstate
  have hrun : (Portable.onTraversal m).run state = (outcomeOf m, state) := by
    rw [Fallible.run, Portable.onTraversal, h]
  rw [hrun]
  cases outcomeOf m with
  | error message => exact hstate.refused
  | ok a => exact ⟨rfl, hstate⟩

theorem onDocuments {m : Import α} (h : Fallible.Returns P m) :
    Goes platform load documents P (Portable.onDocuments m) :=
  ends_onDocuments h (fun _ _ hstate => ⟨hstate.within, hstate.kept, hstate.fresh⟩)
    fun _ hstate => hstate.refused

theorem collectDeref {R : α → β → Prop} {items : List α}
    (hf : ∀ a ∈ items, Goes platform load documents (R a) (f a)) :
    Goes platform load documents (List.Forall₂ R items) (Portable.collectDeref f items) := by
  induction items with
  | nil => exact pure .nil
  | cons a rest ih =>
    rw [List.forall_mem_cons] at hf
    exact bind hf.1 fun b hb => bind (ih hf.2) fun bs hbs => pure (.cons hb hbs)

theorem spending {m : Import Unit} (h : ∀ budget, budget.nodes ≤ importMaxNodes →
      budget.refs ≤ importMaxRefs → match m.run budget with
        | (.ok _, after) => after.nodes ≤ importMaxNodes ∧ after.refs ≤ importMaxRefs
        | (.error _, after) => after.nodes ≤ importMaxNodes + 1 ∧ after.refs ≤ importMaxRefs + 1) :
    Goes platform load documents (fun _ => True) (Portable.onTraversal m) := by
  intro state hstate
  have hspent := h state.traversal hstate.within.1 hstate.within.2
  rcases hrun : m.run state.traversal with ⟨e | u, after⟩
  · have hstep : (Portable.onTraversal m).run state =
        (.error e, { state with traversal := after }) := by
      rw [Fallible.run, Portable.onTraversal, hrun]
    rw [hrun] at hspent
    rw [hstep]
    exact hspent
  · have hstep : (Portable.onTraversal m).run state = (.ok u, { state with traversal := after }) := by
      rw [Fallible.run, Portable.onTraversal, hrun]
    rw [hrun] at hspent
    rw [hstep]
    exact ⟨trivial, hspent, hstate.kept, hstate.fresh⟩

theorem consumeRef :
    Goes platform load documents (fun _ => True) (Portable.onTraversal Portable.consumeRef) := by
  refine spending fun budget hnodes hrefs => ?_
  rw [Portable.consumeRef, run_spend_guardLimit]
  cases hlimit : decide (budget.refs + 1 > importMaxRefs) with
  | false => exact ⟨hnodes, Nat.le_of_not_lt (of_decide_eq_false hlimit)⟩
  | true => exact ⟨hnodes.trans (Nat.le_succ _), Nat.succ_le_succ hrefs⟩

theorem consumeNode (depth : Nat) :
    Goes platform load documents (fun _ => True)
      (Portable.onTraversal (Portable.consumeNode depth)) := by
  refine spending fun budget hnodes hrefs => ?_
  rw [Portable.consumeNode, guardLimit, Fallible.run_bind]
  cases hdepth : decide (depth > importMaxDepth) with
  | true => exact ⟨hnodes.trans (Nat.le_succ _), hrefs.trans (Nat.le_succ _)⟩
  | false =>
    rw [if_neg Bool.false_ne_true, Fallible.run_pure]
    dsimp only
    rw [run_spend_guardLimit]
    cases hlimit : decide (budget.nodes + 1 > importMaxNodes) with
    | false => exact ⟨Nat.le_of_not_lt (of_decide_eq_false hlimit), hrefs⟩
    | true => exact ⟨Nat.succ_le_succ hnodes, hrefs.trans (Nat.le_succ _)⟩

end Goes

/-! ## Documents and pointers -/

theorem lookup_setEntry {α : Type} (entries : List (String × α)) (name key : String) (value : α) :
    (setEntry entries (name, value)).lookup key =
      if key = name then some value else entries.lookup key := by
  have hreplace : ∀ entries : List (String × α),
      (entries.map fun entry => if entry.1 = name then (name, value) else entry).lookup key =
        if key = name then (entries.lookup key).map fun _ => value else entries.lookup key := by
    intro entries
    induction entries with
    | nil => simp
    | cons entry rest ih => grind
  unfold setEntry
  split
  case isTrue hmem =>
    rw [hreplace]
    split
    case isTrue hkey =>
      cases hfound : entries.lookup key with
      | some found => rfl
      | none =>
        rw [List.lookup_eq_none_iff] at hfound
        obtain ⟨entry, hentry, hname⟩ := List.mem_map.mp hmem
        have hne := hfound entry hentry
        simp [hname, hkey] at hne
    case isFalse => rfl
  case isFalse hmem =>
    rw [List.lookup_append]
    split
    case isTrue hkey =>
      have hnone : entries.lookup key = none := by
        rw [List.lookup_eq_none_iff]
        intro entry hentry
        have hne : name ≠ entry.1 := fun heq =>
          hmem (List.mem_map.mpr ⟨entry, hentry, heq.symm⟩)
        simpa [hkey] using hne
      rw [hnone, hkey]
      simp
    case isFalse hkey => simp [List.lookup_cons, beq_eq_false_iff_ne.mpr hkey]

theorem goes_setCached {uri : String} {document : List (String × Json)}
    (h : documents uri = some document) :
    Goes platform load documents (fun _ => True) (setCached uri document) := by
  intro state hstate
  refine ⟨trivial, hstate.within, fun key found hfound => ?_, fun key hnone => ?_⟩
  · change (setEntry state.cache (uri, document)).lookup key = some found at hfound
    rw [lookup_setEntry] at hfound
    split at hfound
    case isTrue hkey => rw [hkey, h, hfound]
    case isFalse => exact hstate.kept key found hfound
  · change (setEntry state.cache (uri, document)).lookup key = none at hnone
    rw [lookup_setEntry] at hnone
    split at hnone
    · cases hnone
    · exact hstate.fresh key hnone

variable (uri : String)

theorem goes_loadDocument :
    Goes platform load documents (fun document => documents uri = some document)
      (loadDocument platform load uri) := by
  have hcached : Fallible.Ends (Going platform load documents) (cached uri)
      (fun found state => (∀ document, found = some document → documents uri = some document) ∧
        (found = none → documents uri = loaded platform load uri) ∧
        Going platform load documents state) (Within 1) :=
    fun state hstate => ⟨hstate.kept uri, hstate.fresh uri, hstate⟩
  refine Fallible.Ends.bind hcached fun found => ?_
  cases found with
  | some document => exact fun state hstate => ⟨hstate.1 document rfl, hstate.2.2⟩
  | none =>
    intro state hstate
    have hloaded := hstate.2.1 rfl
    refine (?_ : Goes platform load documents (fun document => documents uri = some document) _)
      state hstate.2.2
    unfold loaded at hloaded
    dsimp only
    split
    case h_1 => exact .fail _
    case h_2 =>
      rw [Option.bind_some] at hloaded
      split
      case h_1 => exact .fail _
      case h_2 text htext =>
        rw [htext] at hloaded
        refine .bind (.onDocuments (parseDocumentObject_returns platform text uri))
          fun document hdocument => ?_
        have heq := hloaded.trans hdocument
        exact .bind (.onDocuments fun _ _ _ _ => trivial) fun _ _ =>
          .bind (goes_setCached heq) fun _ _ => .pure heq

theorem goes_targetUriOf (documentPart currentUri : String) :
    Goes platform load documents
      (fun target => targetUri? platform documentPart currentUri = some target)
      (targetUriOf platform documentPart currentUri) := by
  unfold targetUriOf targetUri? canonical
  split
  · exact .pure rfl
  · split
    case h_1 uri huri => exact .pure huri
    case h_2 => exact .fail _

variable (segments : List (List Char))

theorem steady_pointerSteps (current : Json) : Steady (pointerSteps segments current) := by
  induction segments generalizing current with
  | nil => exact .pure current
  | cons raw rest ih =>
    rw [pointerSteps]
    split
    · refine .bind (.pure _) fun segment => .bind (.object _) fun members => ?_
      split
      · exact ih _
      · exact .fail _
    · exact fun _ => rfl

theorem steady_pointerValue (root : List (String × Json)) (fragment : String) :
    Steady (pointerValue root fragment) :=
  .ite (.pure _) (.ite (steady_pointerSteps _ _) (.fail _))

theorem plainReferences_pointerSteps {current : Json} (h : PlainReferences current) :
    Fallible.Returns PlainReferences (pointerSteps segments current) := by
  induction segments generalizing current with
  | nil => exact .pure h
  | cons raw rest ih =>
    rw [pointerSteps]
    split
    case h_2 =>
      intro state target after hrun
      cases hrun
    case h_1 =>
      refine .bind_any _ fun segment => .bind (object_returns _) fun members hmembers => ?_
      cases hmembers
      split
      case h_2 => exact .fail _
      case h_1 value hvalue =>
        refine ih ?_
        unfold readMember at hvalue
        split at hvalue
        case h_1 found hfound =>
          cases hvalue
          exact h.member (mem_of_member? hfound)
        case h_2 =>
          split at hvalue
          · cases hvalue
          · split at hvalue
            · cases hvalue
              exact plainReferences_obj nofun nofun
            · cases hvalue

theorem plainReferences_pointerValue {root : List (String × Json)} {fragment : String} {value : Json}
    (h : PlainReferences (.obj root)) (hvalue : outcomeOf (pointerValue root fragment) = .ok value) :
    PlainReferences value := by
  have hreturns : Fallible.Returns PlainReferences (pointerValue root fragment) := by
    unfold pointerValue
    split
    · exact .pure h
    · split
      · exact plainReferences_pointerSteps _ h
      · exact .fail _
  exact hreturns createBudget value _ (Prod.ext hvalue rfl)

/-! ## The traversal -/

variable (documents) in
/-- No document has a reference where the name of another one belongs. -/
def Plain : Prop := ∀ uri document, documents uri = some document → PlainReferences (.obj document)

variable (platform documents) in
/-- What a visit has found out about a value, and what its result is. -/
structure Visited (value : Json) (uri : String) (result : Json) : Prop where
  grounded : Grounded platform documents (value, uri)
  text : isText (some result) = true → isText (some value) = true ∨ isReference value = true
  left : Plain documents → PlainReferences value → Dereferenced result

theorem reference_eq_some {members : List (String × Json)} {ref : String}
    (h : (Json.member? "$ref" members).bind Json.asStr = some ref) :
    Json.member? "$ref" members = some (.str ref) := by
  obtain ⟨value, hvalue, htext⟩ := Option.bind_eq_some_iff.mp h
  cases value with
  | str text =>
    cases htext
    exact hvalue
  | _ => cases htext

theorem visited_scalar {value : Json} (h : isObject (some value) = false) :
    Visited platform documents value uri value where
  grounded := ⟨_, fun next hnext => by cases hnext <;> cases h⟩
  text := .inl
  left _ _ part hpart := by
    cases hpart with
    | here => cases value <;> first | rfl | cases h
    | item | member => cases h

theorem visited_arr {items results : List Json} {uri : String}
    (h : List.Forall₂ (fun item result => Visited platform documents item uri result) items results) :
    Visited platform documents (.arr items) uri (.arr results) where
  grounded := ⟨_, fun next hnext => by
    cases hnext with
    | item hitem =>
      have ⟨_, _, hvisited⟩ := exists_of_forall₂ h hitem
      exact hvisited.grounded⟩
  text := nofun
  left hdocuments hplain part hpart := by
    cases hpart with
    | here => rfl
    | item hresult hrest =>
      have ⟨item, hitem, hvisited⟩ := exists_of_forall₂ h.flip hresult
      exact hvisited.left hdocuments (fun part inner hin => hplain part inner (.item hitem hin))
        part hrest

/-- What a name has in both of two objects whose members correspond to each other. -/
theorem member?_forall₂ {R : Json → Json → Prop} (name : String)
    {members results : List (String × Json)}
    (h : List.Forall₂ (fun member result => result.1 = member.1 ∧ R member.2 result.2)
      members results) :
    (Json.member? name members = none ∧ Json.member? name results = none) ∨
      ∃ value result, Json.member? name members = some value ∧
        Json.member? name results = some result ∧ R value result := by
  induction h with
  | nil => exact .inl ⟨rfl, rfl⟩
  | cons hfirst _ ih =>
    rw [member?_cons, member?_cons, hfirst.1]
    rcases ih with ⟨hvalue, hresult⟩ | ⟨value, result, hvalue, hresult, hrelated⟩
    · rw [hvalue, hresult, Option.none_or, Option.none_or]
      split
      · exact .inr ⟨_, _, rfl, rfl, hfirst.2⟩
      · exact .inl ⟨rfl, rfl⟩
    · rw [hvalue, hresult]
      exact .inr ⟨value, result, rfl, rfl, hrelated⟩

/-- The members of an object that is no reference, each with its name. -/
theorem visited_members {members results : List (String × Json)} {uri : String}
    (hnone : (Json.member? "$ref" members).bind Json.asStr = none)
    (h : List.Forall₂ (fun member result => result.1 = member.1 ∧
      Visited platform documents member.2 uri result.2) members results) :
    Visited platform documents (.obj members) uri
      (.obj (results.filter fun member => member.1 ≠ "__proto__")) where
  grounded := ⟨_, fun next hnext => by
    cases hnext with
    | member hvalue =>
      have ⟨_, _, hvisited⟩ := exists_of_forall₂ h (mem_of_member? hvalue)
      exact hvisited.2.grounded
    | reference href =>
      rw [href] at hnone
      cases hnone⟩
  text := nofun
  left hdocuments hplain part hpart := by
    cases hpart with
    | here =>
      have hkept : Json.member? "$ref" (results.filter fun member => member.1 ≠ "__proto__") =
          Json.member? "$ref" results :=
        member?_filter "$ref" fun member _ heq => by simp [heq]
      change isText (Json.member? "$ref" (results.filter _)) = false
      rw [hkept]
      rcases member?_forall₂ (R := (Visited platform documents · uri ·)) "$ref" h
        with ⟨_, hresult⟩ | ⟨value, result, hvalue, hresult, hvisited⟩
      · rw [hresult]
        rfl
      · rw [hresult, ← Bool.not_eq_true]
        intro htext
        rcases hvisited.text htext with hown | hreference
        · cases value with
          | str text =>
            rw [hvalue] at hnone
            cases hnone
          | _ => cases hown
        · exact Bool.noConfusion (hreference.symm.trans (hplain _ value .here hvalue))
    | member hresult hrest =>
      have ⟨member, hmember, _, hvisited⟩ := exists_of_forall₂ h.flip (List.mem_filter.mp hresult).1
      exact hvisited.left hdocuments (hplain.member hmember) part hrest

/-- A reference leads to its target and to what stands next to it. -/
theorem visited_reference {members document : List (String × Json)} {ref uri target : String}
    {value resolved result : Json}
    (href : (Json.member? "$ref" members).bind Json.asStr = some ref)
    (htarget : targetUri? platform (documentPart ref) uri = some target)
    (hdocument : documents target = some document)
    (hvalue : outcomeOf (pointerValue document (fragmentPart ref)) = .ok value)
    (hresolved : Visited platform documents value target resolved)
    (hsiblings : ∀ name sibling, name ≠ "$ref" → Json.member? name members = some sibling →
      Grounded platform documents (sibling, uri))
    (hleft : Plain documents → PlainReferences (.obj members) → Dereferenced resolved →
      Dereferenced result) :
    Visited platform documents (.obj members) uri result := by
  have hstr := reference_eq_some href
  refine ⟨⟨_, fun next hnext => ?_⟩, fun _ => .inr (congrArg isText hstr), fun hplain hmembers =>
    hleft hplain hmembers (hresolved.left hplain
      (plainReferences_pointerValue (hplain target document hdocument) hvalue))⟩
  cases hnext with
  | @member _ name sibling _ hsibling =>
    by_cases hname : name = "$ref"
    · rw [hname, hstr] at hsibling
      cases hsibling
      exact (visited_scalar uri rfl).grounded
    · exact hsiblings name sibling hname hsibling
  | reference href' htarget' hdocument' hvalue' =>
    cases hstr.symm.trans href'
    cases htarget.symm.trans htarget'
    cases hdocument.symm.trans hdocument'
    cases hvalue.symm.trans hvalue'
    exact hresolved.grounded

theorem plainReferences_merged {targets siblings : List (String × Json)}
    (htargets : Dereferenced (.obj targets)) (hnone : Json.member? "$ref" siblings = none)
    (hsiblings : ∀ entry ∈ siblings, PlainReferences entry.2) :
    PlainReferences (.obj (fromEntries (targets ++ siblings))) := by
  refine plainReferences_obj (fun inner hinner => ?_) fun entry hentry => ?_
  · rw [member?_fromEntries, member?_append, hnone, Option.none_or] at hinner
    exact htargets.plain _ inner .here hinner
  · obtain ⟨before, after, hsplit, _⟩ := mem_fromEntries.mp hentry
    have hmem : entry ∈ targets ++ siblings := by
      rw [hsplit]
      exact List.mem_append_right _ List.mem_cons_self
    exact (List.mem_append.mp hmem).elim htargets.plain.member (hsiblings entry)

theorem goes_visit (fuel : Nat) (value : Json) (uri : String) (stack : List String) (depth : Nat) :
    Goes platform load documents (Visited platform documents value uri)
      (visit platform load fuel value uri stack depth) := by
  induction fuel generalizing value uri stack depth with
  | zero => exact .fail _
  | succ fuel ih =>
    cases value with
    | null | bool _ | num _ | str _ =>
      exact .bind (.consumeNode depth) fun _ _ => .pure (visited_scalar uri rfl)
    | arr items =>
      exact .bind (.consumeNode depth) fun _ _ =>
        .bind (.collectDeref fun item _ => ih item uri stack _) fun results hresults =>
          .pure (visited_arr hresults)
    | obj members =>
      rw [visit]
      refine .bind (.consumeNode depth) fun _ _ => ?_
      cases href : (Json.member? "$ref" members).bind Json.asStr with
      | none =>
        refine .bind (.collectDeref (R := fun member result => result.1 = member.1 ∧
          Visited platform documents member.2 uri result.2) fun member _ =>
            .bind (ih member.2 uri stack _) fun result hresult => .pure ⟨rfl, hresult⟩) ?_
        exact fun results hresults => .pure (visited_members href hresults)
      | some ref =>
        refine .bind .consumeRef fun _ _ => .bind (goes_targetUriOf _ _) fun target htarget =>
          .bind (.onTraversal (.ite (.fail _) (.pure ()))) fun _ _ =>
          .bind (goes_loadDocument target) fun document hdocument =>
          .bind (.onTraversal (steady_pointerValue _ _)) fun value hvalue =>
          .bind (ih value target _ _) fun resolved hresolved => ?_
        generalize hfilter : members.filter (fun member => member.1 ≠ "$ref") = siblings
        have hkept : ∀ name, name ≠ "$ref" →
            Json.member? name siblings = Json.member? name members := fun name hname => by
          rw [← hfilter]
          exact member?_filter name fun member _ heq => by simpa using heq ▸ hname
        have hplain : PlainReferences (.obj members) →
            ∀ entry ∈ siblings, PlainReferences entry.2 := fun h entry hentry =>
          h.member (List.mem_filter.mp (hfilter ▸ hentry)).1
        have hnone : Json.member? "$ref" siblings = none := by
          rw [Option.eq_none_iff_forall_ne_some]
          intro found hfound
          have hmem := mem_of_member? hfound
          rw [← hfilter] at hmem
          exact of_decide_eq_true (List.mem_filter.mp hmem).2 rfl
        have hsecond : ∀ others, (∀ name sibling, name ≠ "$ref" →
              Json.member? name siblings = some sibling →
                Json.member? name others = some sibling) →
            (PlainReferences (.obj members) → Dereferenced resolved →
              PlainReferences (.obj others)) →
            Goes platform load documents (Visited platform documents (.obj members) uri)
              (visit platform load fuel (.obj others) uri stack (depth + 1)) :=
          fun others hsame hothers => (ih (.obj others) uri stack _).imp fun result hresult =>
            visited_reference href htarget hdocument hvalue hresolved
              (fun name sibling hname hsibling => hresult.grounded.inv
                (.member (hsame name sibling hname ((hkept name hname).trans hsibling))))
              fun hdocuments hmembers hclean =>
                hresult.left hdocuments (hothers hmembers hclean)
        dsimp only
        split
        case isTrue hempty =>
          refine .pure (visited_reference href htarget hdocument hvalue hresolved ?_
            fun _ _ hclean => hclean)
          intro name sibling hname hsibling
          rw [← hkept name hname, hempty] at hsibling
          cases hsibling
        case isFalse =>
          split
          case h_1 targets =>
            refine hsecond _ (fun name sibling _ hsibling => ?_) fun hmembers hclean =>
              plainReferences_merged hclean hnone (hplain hmembers)
            rw [member?_fromEntries, member?_append, hsibling, Option.some_or]
          case h_2 =>
            refine hsecond _ (fun _ _ _ hsibling => hsibling) fun hmembers _ =>
              plainReferences_obj (fun inner hinner => ?_) (hplain hmembers)
            rw [hnone] at hinner
            cases hinner

/-! ## The documents that are given -/

variable (platform)

/-- Another document under its URI, and under the one it has next to the main document. -/
def withDocument (mainUri : String) (cache : List (String × List (String × Json)))
    (entry : String × String) : List (String × List (String × Json)) :=
  match documentRoot platform entry.2, canonicalUri platform entry.1 "",
      canonicalUri platform entry.1 mainUri with
  | some document, some uri, some relative =>
    setEntry (setEntry cache (uri, document)) (relative, document)
  | _, _, _ => cache

/-- What is at a URI: a document that is given, or one that can be loaded. -/
def documentAt (root : List (String × Json)) (options : ImportDocumentOptions) (mainUri : String)
    (uri : String) : Option (List (String × Json)) :=
  ((options.documents.foldl (withDocument platform mainUri) [(mainUri, root)]).lookup uri).or
    (loaded platform options.load uri)

/-- Before the traversal. -/
def Ready (cache : List (String × List (String × Json))) (state : DereferenceState) : Prop :=
  state.traversal = createBudget ∧ state.cache = cache

variable {platform} {cache : List (String × List (String × Json))}

theorem Ready.refused (h : Ready cache state) : Within 1 state := by
  rw [Within, h.1]
  exact ⟨Nat.zero_le _, Nat.zero_le _⟩

theorem ready_canonical (input base : String) :
    Fallible.Ends (Ready cache) (canonical platform input base)
      (fun uri state => canonicalUri platform input base = some uri ∧ Ready cache state)
      (Within 1) := by
  unfold canonical
  split
  case h_1 uri huri => exact fun _ hstate => ⟨huri, hstate⟩
  case h_2 => exact fun _ hstate => hstate.refused

theorem ready_setCached (document : List (String × Json)) :
    Fallible.Ends (Ready cache) (setCached uri document)
      (fun _ => Ready (setEntry cache (uri, document))) (Within 1) :=
  fun _ hstate => ⟨hstate.1, congrArg (setEntry · (uri, document)) hstate.2⟩

variable (mainUri : String)

theorem ready_addDocument (entry : String × String) :
    Fallible.Ends (Ready cache) (addDocument platform mainUri entry)
      (fun _ => Ready (withDocument platform mainUri cache entry)) (Within 1) := by
  refine .bind (ends_onDocuments (parseDocumentObject_returns platform entry.2 entry.1)
    (fun _ _ h => h) fun _ h => h.refused) fun document => .of_and fun hdocument => ?_
  refine .bind (ends_onDocuments (P := fun _ => True) (fun _ _ _ _ => trivial) (fun _ _ h => h)
    fun _ h => h.refused) fun _ => .of_and fun _ => ?_
  refine .bind (ready_canonical _ _) fun uri => .of_and fun huri => ?_
  refine .bind (ready_setCached _ _) fun _ => ?_
  refine .bind (ready_canonical _ _) fun relative => .of_and fun hrelative => ?_
  rw [withDocument, hdocument, huri, hrelative]
  exact ready_setCached _ _

theorem ready_documents (documents : List (String × String)) :
    Fallible.Ends (Ready cache) (Fallible.each (addDocument platform mainUri) documents)
      (fun _ => Ready (documents.foldl (withDocument platform mainUri) cache)) (Within 1) := by
  induction documents generalizing cache with
  | nil => exact .pure () fun _ h => h
  | cons entry rest ih => exact .bind (ready_addDocument mainUri entry) fun _ => ih

/-- The traversal begins with the documents that are given. -/
theorem going_of_ready {root : List (String × Json)} {options : ImportDocumentOptions}
    {mainUri : String}
    (h : Ready (options.documents.foldl (withDocument platform mainUri) [(mainUri, root)]) state) :
    Going platform options.load (documentAt platform root options mainUri) state where
  within := by
    rw [Within, h.1]
    exact ⟨Nat.zero_le _, Nat.zero_le _⟩
  kept uri document hfound := by
    rw [h.2] at hfound
    rw [documentAt, hfound, Option.some_or]
  fresh uri hnone := by
    rw [h.2] at hnone
    rw [documentAt, hnone, Option.none_or]

/-- Dereferencing ends within its limits, but for the one step that is refused for them. When it
succeeds no place that it came to leads back to itself, and no reference is left unless one stood
where the name of another one belongs. -/
theorem dereferenceOpenApi_spec (platform : Platform) (root : List (String × Json))
    (options : ImportDocumentOptions) (budget : ImportBudget) :
    match (dereferenceOpenApi platform root options).run ⟨[], budget, createBudget⟩ with
    | (.error _, after) => Within 1 after
    | (.ok resolved, after) => Within 0 after ∧ ∃ mainUri,
        canonicalUri platform (options.baseUri.getD "openapi.yaml") "" = some mainUri ∧
        (Plain (documentAt platform root options mainUri) → PlainReferences (.obj root) →
          Dereferenced (.obj resolved)) ∧
        ∀ place, Relation.ReflTransGen (Leads platform (documentAt platform root options mainUri))
            (.obj root, mainUri) place →
          ¬Relation.TransGen (Leads platform (documentAt platform root options mainUri)) place place := by
  have hspec : Fallible.Ends (Ready []) (dereferenceOpenApi platform root options)
      (fun resolved after => Within 0 after ∧ ∃ mainUri,
        canonicalUri platform (options.baseUri.getD "openapi.yaml") "" = some mainUri ∧
          Visited platform (documentAt platform root options mainUri) (.obj root) mainUri
            (.obj resolved)) (Within 1) := by
    refine .bind (ready_canonical _ _) fun mainUri => .of_and fun hmain => ?_
    refine .bind (ready_setCached _ _) fun _ => .bind (ready_documents mainUri _) fun _ => ?_
    have hwalk : Goes platform options.load (documentAt platform root options mainUri)
        (fun resolved => Visited platform (documentAt platform root options mainUri) (.obj root)
          mainUri (.obj resolved)) (do
        let value ← visit platform options.load (importMaxDepth + 1) (.obj root) mainUri [] 0
        onTraversal (object (some value))) :=
      .bind (goes_visit _ _ _ _ _) fun value hvisited =>
        (Goes.onTraversal (.object _)).imp fun members hmembers => by
          cases (object_eq_ok_iff.mp (Prod.ext hmembers rfl)).1
          exact hvisited
    intro state hready
    have hrun := hwalk state (going_of_ready hready)
    rcases hm : Fallible.run (do
        let value ← visit platform options.load (importMaxDepth + 1) (.obj root) mainUri [] 0
        onTraversal (object (some value))) state with ⟨_ | resolved, after⟩
    · rwa [hm] at hrun
    · rw [hm] at hrun
      exact ⟨hrun.2.within, mainUri, hmain, hrun.1⟩
  have hrun := hspec ⟨[], budget, createBudget⟩ ⟨rfl, rfl⟩
  rcases hm : (dereferenceOpenApi platform root options).run ⟨[], budget, createBudget⟩ with
    ⟨_ | resolved, after⟩
  · rwa [hm] at hrun
  · rw [hm] at hrun
    have ⟨hwithin, mainUri, hmain, hvisited⟩ := hrun
    exact ⟨hwithin, mainUri, hmain, hvisited.left, fun place hreach =>
      (hvisited.grounded.of_reach _ _ hreach).not_cyclic⟩

/-- A reference in the place of a name, to a text. -/
def referredName : List (String × Json) :=
  [("t", .str "x"), ("a", .obj [("$ref", .obj [("$ref", .str "#/t")])])]

theorem dereferenced_not : ¬∀ root options budget resolved after,
    (dereferenceOpenApi Platform.ascii root options).run ⟨[], budget, createBudget⟩ =
      (.ok resolved, after) → Dereferenced (.obj resolved) := by
  intro h
  have hrun : (dereferenceOpenApi Platform.ascii referredName ⟨none, [], none⟩).run
      ⟨[], createBudget, createBudget⟩ = (.ok [("t", .str "x"), ("a", .obj [("$ref", .str "x")])],
        ⟨[("openapi.yaml", referredName)], createBudget, { createBudget with nodes := 5, refs := 1 }⟩) := by
    rfl
  have hleft := h _ _ _ _ _ hrun (.obj [("$ref", .str "x")])
    (.member (List.mem_cons_of_mem _ List.mem_cons_self) .here)
  cases hleft

end Traversal

end ApiVoy.Portable
