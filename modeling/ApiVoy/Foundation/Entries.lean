/-
# Objects from entries

An object that a script builds from entries has each name once, with the last of its values, and
enumerates the names that an array could have first. As many entries as members mean that no name
comes twice. From the object its entries are known up to the order of the array indices, so that
no other entry can stand where the first one belongs that is no array index.
-/

import ApiVoy.Foundation.Script

namespace ApiVoy.Foundation.Script

variable {α : Type}

/-! ## Building objects -/

/-- Put a member in the place of the one with its name, or at the end. -/
def setEntry (members : List (String × α)) (entry : String × α) : List (String × α) :=
  if entry.1 ∈ members.map Prod.fst then
    members.map fun member => if member.1 = entry.1 then entry else member
  else members ++ [entry]

/-- `Object.fromEntries`. -/
def fromEntries (entries : List (String × α)) : List (String × α) :=
  enumerate (entries.foldl setEntry [])

variable (members : List (String × α))

theorem length_setEntry_le (entry : String × α) :
    (setEntry members entry).length ≤ members.length + 1 := by
  unfold setEntry
  split
  · rw [List.length_map]
    exact Nat.le_succ _
  · rw [List.length_append, List.length_singleton]

theorem length_foldl_setEntry_le (members entries : List (String × α)) :
    (entries.foldl setEntry members).length ≤ members.length + entries.length := by
  induction entries generalizing members with
  | nil => exact Nat.le_refl _
  | cons entry entries ih =>
    have hfirst := length_setEntry_le members entry
    have hothers := ih (setEntry members entry)
    rw [List.foldl_cons, List.length_cons]
    omega

/-- When no name comes twice, the entries are the members. -/
theorem foldl_setEntry_of_nodup {members entries : List (String × α)}
    (h : ((members ++ entries).map Prod.fst).Nodup) :
    entries.foldl setEntry members = members ++ entries := by
  induction entries generalizing members with
  | nil => exact (List.append_nil members).symm
  | cons entry entries ih =>
    have hnew : entry.1 ∉ members.map Prod.fst := by
      rw [List.map_append, List.map_cons] at h
      intro hmem
      exact (List.disjoint_of_nodup_append h) hmem List.mem_cons_self
    have hset : setEntry members entry = members ++ [entry] := if_neg hnew
    have hrest : ((members ++ [entry] ++ entries).map Prod.fst).Nodup := by
      rw [List.append_assoc, List.singleton_append]
      exact h
    rw [List.foldl_cons, hset, ih hrest, List.append_assoc, List.singleton_append]

theorem nodup_of_length_foldl_setEntry {members entries : List (String × α)}
    (hmembers : (members.map Prod.fst).Nodup)
    (h : (entries.foldl setEntry members).length = members.length + entries.length) :
    ((members ++ entries).map Prod.fst).Nodup := by
  induction entries generalizing members with
  | nil => rwa [List.append_nil]
  | cons entry entries ih =>
    rw [List.foldl_cons, List.length_cons] at h
    by_cases hold : entry.1 ∈ members.map Prod.fst
    · have hlength : (setEntry members entry).length = members.length := by
        rw [setEntry, if_pos hold, List.length_map]
      have hle := length_foldl_setEntry_le (setEntry members entry) entries
      omega
    · have hset : setEntry members entry = members ++ [entry] := if_neg hold
      have hnew : ((members ++ [entry]).map Prod.fst).Nodup := by
        rw [List.map_append, List.map_singleton]
        exact List.nodup_append_comm.mp (List.nodup_cons.mpr ⟨hold, hmembers⟩)
      have hrest := ih hnew (by
        rw [hset] at h
        rw [h, List.length_append, List.length_singleton]
        omega)
      rwa [List.append_assoc, List.singleton_append] at hrest

/-! ## Enumeration -/

theorem enumerate_perm : (enumerate members).Perm members := by
  have hsplit := List.filter_append_perm (fun member => (arrayIndex member.1).isSome) members
  refine ((List.perm_insertionSort _ _).append ?_).trans hsplit
  refine List.Perm.of_eq (List.filter_congr fun member _ => ?_)
  cases arrayIndex member.1 <;> rfl

theorem length_enumerate :
    (enumerate members).length = members.length := (enumerate_perm members).length_eq

/-- The members that are no array indices stay in their order. -/
theorem filter_enumerate :
    (enumerate members).filter (fun member => (arrayIndex member.1).isNone) =
      members.filter fun member => (arrayIndex member.1).isNone := by
  have hnone : ∀ member ∈ (members.filter fun member => (arrayIndex member.1).isSome).insertionSort
      (fun a b => (arrayIndex a.1).getD 0 ≤ (arrayIndex b.1).getD 0),
      ¬(arrayIndex member.1).isNone = true := by
    intro member hmem
    rw [List.mem_insertionSort, List.mem_filter] at hmem
    rw [Option.isNone_iff_eq_none, ← Option.isSome_iff_ne_none.not_left]
    exact fun h => h hmem.2
  rw [enumerate, List.filter_append, List.filter_eq_nil_iff.mpr hnone, List.nil_append,
    List.filter_filter]
  exact List.filter_congr fun member _ => Bool.and_self _

/-- The array indices are in front, in their order. -/
theorem filter_index_enumerate :
    (enumerate members).filter (fun member => (arrayIndex member.1).isSome) =
      (members.filter fun member => (arrayIndex member.1).isSome).insertionSort
        fun a b => (arrayIndex a.1).getD 0 ≤ (arrayIndex b.1).getD 0 := by
  have hnone : (members.filter fun member => (arrayIndex member.1).isNone).filter
      (fun member => (arrayIndex member.1).isSome) = [] := by
    rw [List.filter_eq_nil_iff]
    intro member hmem
    have hno := (List.mem_filter.mp hmem).2
    cases hindex : arrayIndex member.1 <;> simp [hindex] at hno ⊢
  rw [enumerate, List.filter_append, hnone, List.append_nil, List.filter_eq_self]
  intro member hmem
  rw [List.mem_insertionSort] at hmem
  exact (List.mem_filter.mp hmem).2

theorem enumerate_enumerate : enumerate (enumerate members) = enumerate members := by
  conv_lhs => rw [enumerate, filter_index_enumerate, filter_enumerate]
  rw [(List.pairwise_insertionSort _ _).insertionSort_eq]
  rfl

/-- Nothing that is an array index follows what is none. -/
theorem pairwise_enumerate : (enumerate members).Pairwise
    fun a b => (arrayIndex b.1).isSome = true → (arrayIndex a.1).isSome = true := by
  rw [enumerate, List.pairwise_append]
  refine ⟨?_, ?_, ?_⟩
  · refine List.Pairwise.imp_of_mem (fun ha _ _ _ => ?_) (List.pairwise_of_forall (R := fun _ _ => True)
      fun _ _ => trivial)
    rw [List.mem_insertionSort] at ha
    exact (List.mem_filter.mp ha).2
  · refine List.Pairwise.imp_of_mem (fun _ hb _ hsome => ?_) (List.pairwise_of_forall
      (R := fun _ _ => True) fun _ _ => trivial)
    have hnone := (List.mem_filter.mp hb).2
    rw [Option.isNone_iff_eq_none] at hnone
    rw [hnone] at hsome
    cases hsome
  · intro a ha _ _ _
    rw [List.mem_insertionSort] at ha
    exact (List.mem_filter.mp ha).2

/-- The members of an object: each name once, and in the order of enumeration. -/
structure IsObject (members : List (String × α)) : Prop where
  nodup : (members.map Prod.fst).Nodup
  enumerated : enumerate members = members

theorem fromEntries_of_isObject {members : List (String × α)} (h : IsObject members) :
    fromEntries members = members := by
  have hall : members.foldl setEntry [] = [] ++ members := foldl_setEntry_of_nodup (by
    rw [List.nil_append]
    exact h.nodup)
  rw [fromEntries, hall, List.nil_append, h.enumerated]

theorem length_fromEntries_le (entries : List (String × α)) :
    (fromEntries entries).length ≤ entries.length := by
  have hle := length_foldl_setEntry_le [] entries
  rw [fromEntries, length_enumerate]
  exact hle.trans (Nat.zero_add _).le

theorem nodup_foldl_setEntry {members : List (String × α)} (h : (members.map Prod.fst).Nodup)
    (entries : List (String × α)) : ((entries.foldl setEntry members).map Prod.fst).Nodup := by
  induction entries generalizing members with
  | nil => exact h
  | cons entry entries ih =>
    refine ih ?_
    unfold setEntry
    split
    · rename_i hmem
      have hnames : (members.map fun member => if member.1 = entry.1 then entry else member).map
          Prod.fst = members.map Prod.fst := by
        rw [List.map_map]
        refine List.map_congr_left fun member _ => ?_
        by_cases hname : member.1 = entry.1 <;> simp [hname]
      rwa [hnames]
    · rename_i hmem
      rw [List.map_append]
      exact List.Nodup.append h (List.nodup_singleton _) (List.disjoint_singleton.mpr hmem)

theorem nodup_fromEntries (entries : List (String × α)) :
    ((fromEntries entries).map Prod.fst).Nodup :=
  ((enumerate_perm _).map Prod.fst).nodup_iff.mpr
    (@nodup_foldl_setEntry _ [] List.nodup_nil entries)

/-- As many entries as members are the members in some order. -/
theorem enumerate_of_fromEntries {entries members : List (String × α)}
    (hlength : entries.length = members.length) (h : fromEntries entries = members) :
    (entries.map Prod.fst).Nodup ∧ enumerate entries = members := by
  have hall : (entries.foldl setEntry []).length = ([] : List (String × α)).length + entries.length := by
    rw [← length_enumerate, List.length_nil, Nat.zero_add, hlength, ← h]
    rfl
  have hempty : (([] : List (String × α)).map Prod.fst).Nodup := List.nodup_nil
  have hnodup := nodup_of_length_foldl_setEntry hempty hall
  have hfold := foldl_setEntry_of_nodup hnodup
  rw [List.nil_append] at hnodup hfold
  rw [fromEntries, hfold] at h
  exact ⟨hnodup, h⟩

/-- Behind the same entries an object does not come from another value of the same name, or from
another name in the place of one that is no array index. -/
theorem fromEntries_ne {before after others : List (String × α)} {name key : String} {value item : α}
    (hobject : IsObject (before ++ (name, value) :: after))
    (hlength : others.length = after.length)
    (hdiffer : (key = name ∧ item ≠ value) ∨ (key ≠ name ∧ arrayIndex name = none)) :
    fromEntries (before ++ (key, item) :: others) ≠ before ++ (name, value) :: after := by
  intro heq
  obtain ⟨hnodup, henumerate⟩ := enumerate_of_fromEntries (by
    rw [List.length_append, List.length_append, List.length_cons, List.length_cons, hlength]) heq
  have hmem : (key, item) ∈ before ++ (name, value) :: after := by
    rw [← henumerate, (enumerate_perm _).mem_iff]
    exact List.mem_append_right _ List.mem_cons_self
  rcases hdiffer with ⟨rfl, hvalue⟩ | ⟨hkey, hname⟩
  · have hunique := List.inj_on_of_nodup_map hobject.nodup hmem
      (List.mem_append_right _ List.mem_cons_self) rfl
    exact hvalue (Prod.ext_iff.mp hunique).2
  · cases hindex : arrayIndex key with
    | none =>
      have hfilter := filter_enumerate (before ++ (key, item) :: others)
      rw [henumerate, List.filter_append, List.filter_append] at hfilter
      have hrest := List.append_cancel_left hfilter
      rw [List.filter_cons_of_pos (by rw [hname]; rfl),
        List.filter_cons_of_pos (by rw [hindex]; rfl)] at hrest
      exact hkey (Prod.ext_iff.mp (List.cons.inj hrest).1).1.symm
    | some n =>
      -- An array index is in front of the name, and would come twice among the entries.
      have hbefore : (key, item) ∈ before := by
        have hpairwise := pairwise_enumerate (before ++ (name, value) :: after)
        rw [hobject.enumerated, List.pairwise_append, List.pairwise_cons] at hpairwise
        rcases List.mem_append.mp hmem with hfirst | hlater
        · exact hfirst
        · rcases List.mem_cons.mp hlater with hsame | hlast
          · exact absurd (Prod.ext_iff.mp hsame).1 hkey
          · have hsome := hpairwise.2.1.1 _ hlast (by rw [hindex]; rfl)
            rw [hname] at hsome
            cases hsome
      rw [List.map_append, List.map_cons] at hnodup
      exact (List.disjoint_of_nodup_append hnodup) (List.mem_map_of_mem hbefore)
        List.mem_cons_self

/-! ## Array indices -/

/-- An array index is written with ten digits at most. -/
theorem digits_of_arrayIndex {name : String} (h : (arrayIndex name).isSome = true) :
    name.toList.length ≤ 10 ∧ ∀ c ∈ name.toList, c.isDigit = true := by
  obtain ⟨n, hn⟩ := Option.isSome_iff_exists.mp h
  have hkept := of_decide_eq_true (Option.filter_eq_some_iff.mp hn).2
  rw [← hkept.1]
  have hbound : n < 10 ^ 10 := by
    have hless := hkept.2
    omega
  exact ⟨(Nat.length_toDigits_le_iff (by decide) (by decide)).mpr hbound,
    fun c hc => Nat.isDigit_of_mem_toDigits (by decide) (by decide) hc⟩

end ApiVoy.Foundation.Script
