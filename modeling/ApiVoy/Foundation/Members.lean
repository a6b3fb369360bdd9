/-
# The members of an object

What a name has in an object, member by member; and the edits of an object that keep its names or
leave some of them out. The order of enumeration depends on the names alone, so that these edits
need no new enumeration.
-/

import ApiVoy.Foundation.Entries

namespace ApiVoy.Foundation.Script

/-! ## The value of a name -/

variable (name : String)

/-- Later members hide earlier ones of the same name. -/
theorem member?_cons (entry : String × Json) (members : List (String × Json)) :
    Json.member? name (entry :: members) =
      (Json.member? name members).or (if entry.1 = name then some entry.2 else none) := by
  obtain ⟨key, value⟩ := entry
  rw [Json.member?, Json.memberValues_cons, Json.member?]
  by_cases h : key = name
  · rw [if_pos h, if_pos h, List.getLast?_cons]
    cases (Json.memberValues name members).getLast? <;> rfl
  · rw [if_neg h, if_neg h, Option.or_none]

theorem member?_append (first second : List (String × Json)) :
    Json.member? name (first ++ second) =
      (Json.member? name second).or (Json.member? name first) := by
  induction first with
  | nil => exact (Option.or_none).symm
  | cons entry rest ih =>
    rw [List.cons_append, member?_cons, ih, member?_cons, Option.or_assoc]

theorem member?_filter {keep : String × Json → Bool} {members : List (String × Json)}
    (h : ∀ member ∈ members, member.1 = name → keep member = true) :
    Json.member? name (members.filter keep) = Json.member? name members := by
  induction members with
  | nil => rfl
  | cons entry rest ih =>
    have hrest := ih fun member hmem => h member (List.mem_cons_of_mem entry hmem)
    by_cases hkeep : keep entry = true
    · rw [List.filter_cons_of_pos hkeep, member?_cons, member?_cons, hrest]
    · have hother : entry.1 ≠ name := fun heq => hkeep (h entry List.mem_cons_self heq)
      rw [List.filter_cons_of_neg hkeep, member?_cons, hrest, if_neg hother, Option.or_none]

theorem member?_isSome {name : String} {members : List (String × Json)}
    (h : name ∈ members.map Prod.fst) : ∃ value, Json.member? name members = some value := by
  induction members with
  | nil => cases h
  | cons entry rest ih =>
    rw [member?_cons]
    by_cases hrest : name ∈ rest.map Prod.fst
    · have ⟨value, hvalue⟩ := ih hrest
      exact ⟨value, by rw [hvalue, Option.some_or]⟩
    · have hname : entry.1 = name := by
        rw [List.map_cons, List.mem_cons] at h
        exact (h.resolve_right hrest).symm
      rw [if_pos hname]
      cases Json.member? name rest <;> exact ⟨_, rfl⟩

theorem member?_replace (name key : String) (value : Json) (members : List (String × Json)) :
    Json.member? name
        (members.map fun entry => if entry.1 = key then (key, value) else entry) =
      if key = name then (Json.member? name members).map fun _ => value
      else Json.member? name members := by
  induction members with
  | nil => simp [Json.member?]
  | cons entry rest ih =>
    rw [List.map_cons, member?_cons, member?_cons, ih]
    by_cases hname : key = name
    · subst hname
      by_cases hentry : entry.1 = key
      · rw [if_pos rfl, if_pos rfl, if_pos hentry, if_pos rfl, if_pos hentry]
        cases Json.member? key rest <;> rfl
      · rw [if_pos rfl, if_pos rfl, if_neg hentry, if_neg hentry, Option.or_none, Option.or_none]
    · rw [if_neg hname, if_neg hname]
      by_cases hentry : entry.1 = key
      · have hother : entry.1 ≠ name := fun heq => hname (hentry.symm.trans heq)
        rw [if_pos hentry, if_neg hname, if_neg hother]
      · rw [if_neg hentry]

theorem mem_of_member? {name : String} {value : Json} {members : List (String × Json)}
    (h : Json.member? name members = some value) : (name, value) ∈ members := by
  have hvalue := List.mem_of_getLast? h
  rw [Json.memberValues, List.mem_map] at hvalue
  obtain ⟨entry, hentry, rfl⟩ := hvalue
  rw [List.mem_filter, decide_eq_true_iff] at hentry
  rw [← hentry.2]
  exact hentry.1

/-- Where no name comes twice, the order of the members does not matter. -/
theorem member?_perm {name : String} {members others : List (String × Json)}
    (hnodup : (members.map Prod.fst).Nodup) (h : members.Perm others) :
    Json.member? name members = Json.member? name others := by
  have hmem : ∀ {members : List (String × Json)}, (members.map Prod.fst).Nodup → ∀ value,
      Json.member? name members = some value ↔ (name, value) ∈ members := by
    intro members hnodup value
    refine ⟨mem_of_member?, fun hvalue => ?_⟩
    obtain ⟨other, hother⟩ := member?_isSome (List.mem_map.mpr ⟨_, hvalue, rfl⟩)
    cases List.inj_on_of_nodup_map hnodup hvalue (mem_of_member? hother) rfl
    exact hother
  refine Option.ext fun value => ?_
  rw [hmem hnodup, hmem ((h.map Prod.fst).nodup_iff.mp hnodup), h.mem_iff]

/-! ## Edits -/

variable {α β : Type}

/-- Values do not matter for the order of enumeration. -/
theorem enumerate_map (f : String × α → β) (members : List (String × α)) :
    enumerate (members.map fun member => (member.1, f member)) =
      (enumerate members).map fun member => (member.1, f member) := by
  have hsort := List.map_insertionSort
    (fun a b : String × α => (arrayIndex a.1).getD 0 ≤ (arrayIndex b.1).getD 0)
    (fun a b : String × β => (arrayIndex a.1).getD 0 ≤ (arrayIndex b.1).getD 0)
    (fun member : String × α => (member.1, f member))
    (members.filter fun member => (arrayIndex member.1).isSome) fun _ _ _ _ => Iff.rfl
  unfold enumerate
  rw [List.map_append, hsort, List.filter_map, List.filter_map]
  rfl

namespace IsObject

variable {members : List (String × α)}

theorem map (h : IsObject members) (f : String × α → β) :
    IsObject (members.map fun member => (member.1, f member)) where
  nodup := by
    rw [List.map_map]
    exact h.nodup
  enumerated := by rw [enumerate_map, h.enumerated]

/-- The array indices of an object are in front, in their order. -/
theorem sorted (h : IsObject members) :
    (members.filter fun member => (arrayIndex member.1).isSome).Pairwise
      fun a b => (arrayIndex a.1).getD 0 ≤ (arrayIndex b.1).getD 0 := by
  rw [← h.enumerated, filter_index_enumerate]
  exact List.pairwise_insertionSort _ _

theorem filter (h : IsObject members) (keep : String × α → Bool) :
    IsObject (members.filter keep) where
  nodup := h.nodup.sublist (List.filter_sublist.map Prod.fst)
  enumerated := by
    have hsorted := (h.sorted.filter keep).insertionSort_eq
    have hsplit := congrArg (List.filter keep) h.enumerated
    rw [enumerate, h.sorted.insertionSort_eq, List.filter_append] at hsplit
    rw [List.filter_filter] at hsorted
    rw [List.filter_filter, List.filter_filter] at hsplit
    rw [enumerate, List.filter_filter, List.filter_filter]
    simp only [Bool.and_comm] at hsorted hsplit ⊢
    rw [hsorted, hsplit]

/-- Writing a member that there is leaves every name at its place. -/
theorem enumerate_setEntry (h : IsObject members) {name : String} (value : α)
    (hname : name ∈ members.map Prod.fst) :
    enumerate (setEntry members (name, value)) =
      members.map fun member => if member.1 = name then (name, value) else member := by
  have hreplace : (fun member : String × α => if member.1 = name then (name, value) else member) =
      fun member => (member.1, if member.1 = name then value else member.2) := by
    funext member
    split
    case isTrue heq => rw [heq]
    case isFalse => rfl
  rw [setEntry, if_pos hname, hreplace, enumerate_map, h.enumerated]

end IsObject

/-! ## Values that come back from their texts -/

theorem enumeratedMembers_eq_map (members : List (String × Json)) :
    enumeratedMembers members = members.map fun member => (member.1, enumerated member.2) := by
  induction members with
  | nil => rfl
  | cons member members ih => exact congrArg _ ih

mutual

/-- Enumerating what was enumerated changes nothing. -/
theorem enumerated_enumerated : ∀ value : Json, enumerated (enumerated value) = enumerated value
  | .null | .bool _ | .num _ | .str _ => rfl
  | .arr items => congrArg Json.arr (enumeratedItems_enumeratedItems items)
  | .obj members => by
    rw [enumerated, enumerated, enumeratedMembers_eq_map (enumerate _),
      ← enumerate_map fun member => enumerated member.2, ← enumeratedMembers_eq_map,
      enumeratedMembers_enumeratedMembers members, enumerate_enumerate]

theorem enumeratedItems_enumeratedItems : ∀ items : List Json,
    enumeratedItems (enumeratedItems items) = enumeratedItems items
  | [] => rfl
  | item :: items => congrArg₂ List.cons (enumerated_enumerated item)
    (enumeratedItems_enumeratedItems items)

theorem enumeratedMembers_enumeratedMembers : ∀ members : List (String × Json),
    enumeratedMembers (enumeratedMembers members) = enumeratedMembers members
  | [] => rfl
  | (name, value) :: members => congrArg₂ List.cons
    (congrArg (Prod.mk name) (enumerated_enumerated value))
    (enumeratedMembers_enumeratedMembers members)

end

theorem printable_of_mem {shown : Rat → List Char} {members : List (String × Json)}
    {entry : String × Json} (h : JsonText.membersPrintable shown members = true)
    (hmem : entry ∈ members) : JsonText.printable shown entry.2 = true := by
  induction members with
  | nil => cases hmem
  | cons member members ih =>
    obtain ⟨hmember, hmembers⟩ := Bool.and_eq_true_iff.mp h
    rcases List.mem_cons.mp hmem with rfl | hmem
    · exact hmember
    · exact ih hmembers hmem

/-- A value that a text of it is read as. -/
structure Rereads (platform : Platform) (value : Json) : Prop where
  prints : JsonText.printable platform.numberText value = true
  inOrder : enumerated value = value

/-- A text of JSON with nothing superfluous in it, and its value. -/
structure IsTextOf (platform : Platform) (text : String) (value : Json) : Prop where
  reads : parseObject text = some value
  compact : stringify platform 0 value = text

namespace Rereads

variable {platform : Platform} {value : Json}

theorem parseObject_stringify (h : Rereads platform value) (indent : Nat) :
    parseObject (stringify platform indent value) = some value := by
  rw [parseObject, parseJson_stringify platform indent h.prints, Option.some_or, Option.map_some,
    h.inOrder]

theorem isTextOf_iff (h : Rereads platform value) {text : String} :
    IsTextOf platform text value ↔ text = stringify platform 0 value := by
  constructor
  · exact fun htext => htext.compact.symm
  · rintro rfl
    exact ⟨h.parseObject_stringify 0, rfl⟩

theorem get (h : Rereads platform value) {name : String} {member : Json}
    (hget : value.get name = some member) : Rereads platform member := by
  cases value with
  | obj members =>
    have hmem := mem_of_member? hget
    refine ⟨printable_of_mem (Bool.and_eq_true_iff.mp h.prints).2 hmem, ?_⟩
    have hall : enumerate (enumeratedMembers members) = members := Json.obj.inj h.inOrder
    rw [← hall, (enumerate_perm _).mem_iff, enumeratedMembers_eq_map, List.mem_map] at hmem
    obtain ⟨entry, -, heq⟩ := hmem
    rw [← (Prod.mk.inj heq).2, enumerated_enumerated]
  | null | bool | num | str | arr => cases hget

end Rereads

end ApiVoy.Foundation.Script
