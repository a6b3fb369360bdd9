/-
# Edits in a tree of JSON values

The editor writes, removes and renames what stands at the path of one of its rows. A write is one
at each segment of the path: what holds of a member or an element that is written holds, by
induction on the path, of the value at its end. A write changes what it passes through and what
leads to it, and the root leads everywhere.
-/

import ApiVoy.Foundation.Members

namespace ApiVoy.Workbench

open Foundation Script

/-! ## Paths -/

/-- A step of a path: `string | number`. -/
inductive Segment where
  | name (text : String)
  | number (value : Rat)

/-- A number that can be the index of an element. -/
def natural (value : Rat) : Option Nat :=
  if value.den = 1 ∧ 0 ≤ value.num then some value.num.toNat else none

/-- `Number(segment)`, where an element can stand. -/
def Segment.elementIndex : Segment → Option Nat
  | .number value => natural value
  | .name text =>
    match toNumber text with
    | .finite value => natural value
    | _ => none

section Editing

variable (platform : Platform)

/-- `String(segment)`. -/
def Segment.memberName : Segment → String
  | .name text => text
  | .number value => textValue platform (.num value)

/-- The member or the element at a segment; none where a value of JSON has nothing there. -/
def child? : Json → Segment → Option Json
  | .arr items, segment => segment.elementIndex.bind (items[·]?)
  | .obj members, segment => Json.member? (segment.memberName platform) members
  | _, _ => none

def valueAtPath (root : Json) (path : List Segment) : Option Json :=
  path.foldlM (child? platform) root

/-- A copy of an array or an object with something written at a segment. -/
def withChild : Json → Segment → Json → Option Json
  | .arr items, segment, child =>
    segment.elementIndex.bind fun index =>
      if index < items.length then some (.arr (items.set index child))
      else if index = items.length then some (.arr (items ++ [child])) else none
  | .obj members, segment, child =>
    some (.obj (enumerate (setEntry members (segment.memberName platform, child))))
  | _, _, _ => none

def updateJsonTreeValue : Option Json → List Segment → Json → Option Json
  | _, [], value => some value
  | none, _ :: _, _ => none
  | some root, segment :: rest, value =>
    (updateJsonTreeValue (child? platform root segment) rest value).bind
      (withChild platform root segment)

/-- A copy of an array or an object without what stands at a segment. -/
def withoutChild : Json → Segment → Option Json
  | .arr items, segment =>
    some (.arr ((items.zipIdx.filter fun item =>
      some item.2 ≠ segment.elementIndex).map Prod.fst))
  | .obj members, segment =>
    some (.obj (fromEntries (members.filter fun member =>
      member.1 ≠ segment.memberName platform)))
  | _, _ => none

def removeJsonTreeValue : Option Json → List Segment → Option Json
  | _, [] => some (.obj [])
  | none, _ :: _ => none
  | some root, [segment] => withoutChild platform root segment
  | some root, segment :: next :: rest =>
    (removeJsonTreeValue (child? platform root segment) (next :: rest)).bind
      (withChild platform root segment)

/-- A member under the new name, if it had the previous one. -/
def renamedMember (previous nextName : String) (member : String × Json) : String × Json :=
  if member.1 = previous then (nextName, member.2) else member

def renameObjectProperty (root : Json) (parentPath : List Segment) (previous nextName : String) :
    Option Json :=
  match valueAtPath platform root parentPath with
  | some (.obj members) =>
    if nextName = "" ∨ nextName = previous ∨ nextName ∈ members.map Prod.fst then some root
    else updateJsonTreeValue platform (some root) parentPath
      (.obj (fromEntries (members.map (renamedMember previous nextName))))
  | _ => none

/-! ## One segment -/

/-- Wherever an object stands in a value, it has each name once and is in the order of
enumeration. -/
def IsTree (root : Json) : Prop :=
  ∀ path members, valueAtPath platform root path = some (.obj members) → IsObject members

/-- Two segments of a value for the same member or element. -/
def Meets : Json → Segment → Segment → Prop
  | .arr _, segment, other => segment.elementIndex = other.elementIndex
  | _, segment, other => segment.memberName platform = other.memberName platform

/-- A path that goes through the end of another one. -/
def PassesThrough : Json → List Segment → List Segment → Prop
  | _, [], _ => True
  | _, _ :: _, [] => False
  | root, segment :: path, other :: rest =>
    Meets platform root segment other ∧
      ∀ child, child? platform root segment = some child → PassesThrough child path rest

/-- What writing at a segment does. -/
structure Written (root : Json) (segment : Segment) (child next : Json) : Prop where
  got : ∀ other, Meets platform root segment other → child? platform next other = some child
  others : ∀ other, ¬Meets platform root segment other →
    child? platform next other = child? platform root other
  again : ∀ last, withChild platform next segment last = withChild platform root segment last

variable {platform}

variable {segment : Segment}

theorem IsTree.child {root child : Json} (h : IsTree platform root)
    (hchild : child? platform root segment = some child) : IsTree platform child := by
  intro path members hpath
  refine h (segment :: path) members ?_
  rw [valueAtPath, List.foldlM_cons, hchild]
  exact hpath

theorem meets_refl (root : Json) (segment : Segment) : Meets platform root segment segment := by
  cases root <;> rfl

theorem Meets.symm {root : Json} {segment other : Segment} (h : Meets platform root segment other) :
    Meets platform root other segment := by
  cases root <;> exact Eq.symm h

theorem Meets.child {root : Json} {segment other : Segment}
    (h : Meets platform root segment other) :
    child? platform root other = child? platform root segment := by
  cases root with
  | arr items => exact congrArg (Option.bind · (items[·]?)) (Eq.symm h)
  | obj members => exact congrArg (Json.member? · members) (Eq.symm h)
  | _ => rfl

variable {root old : Json}

theorem written (h : IsTree platform root) (hold : child? platform root segment = some old)
    (child : Json) :
    ∃ next, withChild platform root segment child = some next ∧
      Written platform root segment child next := by
  cases root with
  | arr items =>
    obtain ⟨index, hindex, hitem⟩ := Option.bind_eq_some_iff.mp hold
    have hlt : index < items.length := (List.getElem?_eq_some_iff.mp hitem).1
    refine ⟨.arr (items.set index child), ?_, fun other hother => ?_, fun other hother => ?_,
      fun last => ?_⟩
    · rw [withChild, hindex, Option.bind_some, if_pos hlt]
    · rw [Meets, hindex] at hother
      rw [child?, ← hother, Option.bind_some, List.getElem?_set_self hlt]
    · rw [Meets, hindex] at hother
      cases hother' : other.elementIndex with
      | none => rw [child?, child?, hother', Option.bind_none, Option.bind_none]
      | some j =>
        have hne : index ≠ j := fun heq => hother (by rw [hother', heq])
        rw [child?, child?, hother', Option.bind_some, Option.bind_some,
          List.getElem?_set_ne hne]
    · rw [withChild, withChild, hindex, Option.bind_some, Option.bind_some, List.length_set,
        if_pos hlt, if_pos hlt, List.set_set]
  | obj members =>
    have hobject : IsObject members := h [] members rfl
    have hname : segment.memberName platform ∈ members.map Prod.fst :=
      List.mem_map_of_mem (mem_of_member? hold)
    have hwrite := hobject.enumerate_setEntry child hname
    have hnext := hobject.map fun member =>
      if member.1 = segment.memberName platform then child else member.2
    have hsame : (members.map fun member =>
        if member.1 = segment.memberName platform then (segment.memberName platform, child)
        else member) = members.map fun member =>
          (member.1, if member.1 = segment.memberName platform then child else member.2) := by
      refine List.map_congr_left fun member _ => ?_
      split
      case isTrue heq => rw [heq]
      case isFalse => rfl
    refine ⟨.obj _, rfl, fun other hother => ?_, fun other hother => ?_, fun last => ?_⟩
    · have heq : segment.memberName platform = other.memberName platform := hother
      rw [hwrite, child?, ← heq, member?_replace, if_pos rfl]
      exact congrArg (Option.map fun _ => child) hold
    · have hne : segment.memberName platform ≠ other.memberName platform := hother
      rw [hwrite, child?, child?, member?_replace, if_neg hne]
    · have hagain : segment.memberName platform ∈ (members.map fun member =>
          (member.1, if member.1 = segment.memberName platform then child else member.2)).map
            Prod.fst := by
        rw [List.map_map]
        exact hname
      rw [withChild, withChild, hwrite, hsame, hnext.enumerate_setEntry last hagain,
        hobject.enumerate_setEntry last hname, List.map_map]
      refine congrArg (some ∘ Json.obj) (List.map_congr_left fun member _ => ?_)
      by_cases heq : member.1 = segment.memberName platform <;> simp [heq]
  | _ => cases hold

/-- Writing what stands there changes nothing. -/
theorem withChild_self (h : IsTree platform root) (hold : child? platform root segment = some old) :
    withChild platform root segment old = some root := by
  cases root with
  | arr items =>
    obtain ⟨index, hindex, hitem⟩ := Option.bind_eq_some_iff.mp hold
    obtain ⟨hlt, rfl⟩ := List.getElem?_eq_some_iff.mp hitem
    rw [withChild, hindex, Option.bind_some, if_pos hlt, List.set_getElem_self]
  | obj members =>
    have hobject : IsObject members := h [] members rfl
    have hmem := mem_of_member? hold
    rw [withChild, hobject.enumerate_setEntry old (List.mem_map_of_mem hmem)]
    refine congrArg (some ∘ Json.obj) ((List.map_congr_left fun member hmember => ?_).trans
      members.map_id)
    split
    case isTrue heq => exact (List.inj_on_of_nodup_map hobject.nodup hmember hmem heq).symm
    case isFalse => rfl
  | _ => cases hold

/-! ## Updates -/

variable (platform) in
structure Updated (root : Json) (path : List Segment) (value next : Json) : Prop where
  value : valueAtPath platform next path = some value
  frame : ∀ other kept, valueAtPath platform root other = some kept →
    ¬PassesThrough platform root path other → ¬PassesThrough platform root other path →
    valueAtPath platform next other = some kept
  again : ∀ last, updateJsonTreeValue platform (some next) path last =
    updateJsonTreeValue platform (some root) path last

theorem valueAtPath_cons (root : Json) (segment : Segment) (rest : List Segment) :
    valueAtPath platform root (segment :: rest) =
      (child? platform root segment).bind (valueAtPath platform · rest) := rfl

/-- The paths over one segment are those below it. -/
theorem passesThrough_cons {root child : Json} {segment other : Segment} {path rest : List Segment}
    (hmeets : Meets platform root segment other)
    (hchild : child? platform root segment = some child) :
    PassesThrough platform root (segment :: path) (other :: rest) ↔
      PassesThrough platform child path rest := by
  refine ⟨fun h => h.2 child hchild, fun h => ⟨hmeets, fun found hfound => ?_⟩⟩
  rw [Option.some.inj (hfound.symm.trans hchild)]
  exact h

variable {path : List Segment}

theorem updated (htree : IsTree platform root) (hold : valueAtPath platform root path = some old)
    (value : Json) :
    ∃ next, updateJsonTreeValue platform (some root) path value = some next ∧
      Updated platform root path value next := by
  induction path generalizing root with
  | nil => exact ⟨value, rfl, rfl, fun _ _ _ hnot _ => absurd trivial hnot, fun _ => rfl⟩
  | cons segment rest ih =>
    rw [valueAtPath_cons, Option.bind_eq_some_iff] at hold
    obtain ⟨child, hchild, hvalue⟩ := hold
    have ⟨below, hbelow, hupdated⟩ := ih (htree.child hchild) hvalue
    have ⟨next, hnext, hwritten⟩ := written htree hchild below
    have hgot := hwritten.got segment (meets_refl root segment)
    refine ⟨next, ?_, ?_, ?_, fun last => ?_⟩
    · rw [updateJsonTreeValue, hchild, hbelow, Option.bind_some, hnext]
    · rw [valueAtPath_cons, hgot, Option.bind_some, hupdated.value]
    · intro other kept hkept hthrough hleads
      cases other with
      | nil => exact absurd trivial hleads
      | cons first others =>
        rw [valueAtPath_cons] at hkept
        by_cases hmeets : Meets platform root segment first
        · have hfirst : child? platform root first = some child := hmeets.child.trans hchild
          rw [passesThrough_cons hmeets hchild] at hthrough
          rw [passesThrough_cons hmeets.symm hfirst] at hleads
          rw [hfirst, Option.bind_some] at hkept
          rw [valueAtPath_cons, hwritten.got first hmeets, Option.bind_some]
          exact hupdated.frame others kept hkept hthrough hleads
        · rw [valueAtPath_cons, hwritten.others first hmeets, hkept]
    · rw [updateJsonTreeValue, updateJsonTreeValue, hgot, hchild, hupdated.again,
        funext hwritten.again]

/-- An update with the value that is there changes nothing. -/
theorem update_self (htree : IsTree platform root)
    (hold : valueAtPath platform root path = some old) :
    updateJsonTreeValue platform (some root) path old = some root := by
  induction path generalizing root with
  | nil => exact hold.symm
  | cons segment rest ih =>
    rw [valueAtPath_cons, Option.bind_eq_some_iff] at hold
    obtain ⟨child, hchild, hvalue⟩ := hold
    rw [updateJsonTreeValue, hchild, ih (htree.child hchild) hvalue, Option.bind_some,
      withChild_self htree hchild]

/-! ## Removals -/

variable (platform) in
/-- An array or an object with all but the element or the member at a segment. -/
def Without : Json → Segment → Json → Prop
  | .arr items, segment, rest => ∃ index remaining, segment.elementIndex = some index ∧
      rest = .arr remaining ∧ remaining.length + 1 = items.length ∧
      ∀ j, remaining[j]? = if j < index then items[j]? else items[j + 1]?
  | .obj members, segment, rest =>
    segment.memberName platform ∈ members.map Prod.fst ∧
      rest = .obj (members.filter fun member => member.1 ≠ segment.memberName platform)
  | _, _, _ => False

theorem filter_zipIdx {α : Type} (items : List α) (start index : ℕ) :
    ((items.zipIdx start).filter fun item => some item.2 ≠ some (start + index)).map Prod.fst =
      items.eraseIdx index := by
  induction items generalizing start index with
  | nil => rfl
  | cons item items ih =>
    rw [List.zipIdx_cons]
    cases index with
    | zero =>
      have hlater : (items.zipIdx (start + 1)).filter
          (fun item => some item.2 ≠ some (start + 0)) = items.zipIdx (start + 1) := by
        rw [List.filter_eq_self]
        intro item hitem
        have hle := (List.mem_zipIdx hitem).1
        simp only [ne_eq, Option.some.injEq, decide_eq_true_iff]
        omega
      rw [List.filter_cons_of_neg (by simp), hlater, List.zipIdx_map_fst,
        List.eraseIdx_cons_zero]
    | succ index =>
      have hlater := ih (start + 1) index
      rw [Nat.add_assoc, Nat.add_comm 1 index] at hlater
      rw [List.filter_cons_of_pos (by simp), List.map_cons, hlater, List.eraseIdx_cons_succ]

theorem withoutChild_spec (htree : IsTree platform root)
    (hold : child? platform root segment = some old) :
    ∃ rest, withoutChild platform root segment = some rest ∧ Without platform root segment rest := by
  cases root with
  | arr items =>
    obtain ⟨index, hindex, hitem⟩ := Option.bind_eq_some_iff.mp hold
    have hlt : index < items.length := (List.getElem?_eq_some_iff.mp hitem).1
    have herase := filter_zipIdx items 0 index
    rw [Nat.zero_add] at herase
    refine ⟨.arr (items.eraseIdx index), ?_, index, items.eraseIdx index, hindex, rfl, ?_, ?_⟩
    · rw [withoutChild, hindex, herase]
    · rw [List.length_eraseIdx_of_lt hlt]
      omega
    · exact fun j => List.getElem?_eraseIdx
  | obj members =>
    have hobject : IsObject members := htree [] members rfl
    refine ⟨_, rfl, List.mem_map_of_mem (mem_of_member? hold), ?_⟩
    rw [fromEntries_of_isObject (hobject.filter _)]
  | _ => cases hold

theorem remove_eq_update {root place rest : Json} {parent : List Segment}
    (hplace : valueAtPath platform root parent = some place)
    (hrest : withoutChild platform place segment = some rest) :
    removeJsonTreeValue platform (some root) (parent ++ [segment]) =
      updateJsonTreeValue platform (some root) parent rest := by
  induction parent generalizing root with
  | nil =>
    cases Option.some.inj hplace
    exact hrest
  | cons first parent ih =>
    rw [valueAtPath_cons, Option.bind_eq_some_iff] at hplace
    obtain ⟨child, hchild, hbelow⟩ := hplace
    have hcons : removeJsonTreeValue platform (some root) (first :: (parent ++ [segment])) =
        (removeJsonTreeValue platform (child? platform root first) (parent ++ [segment])).bind
          (withChild platform root first) := by
      cases parent <;> rfl
    rw [List.cons_append, hcons, hchild, ih hbelow, updateJsonTreeValue, hchild]

/-! ## Names -/

/-- The members with one of them under a new name, unless that name is taken or empty. -/
def Renamed (previous nextName : String) (members renamed : List (String × Json)) : Prop :=
  renamed.length = members.length ∧
    if nextName = "" ∨ nextName = previous ∨ nextName ∈ members.map Prod.fst then renamed = members
    else (renamed.map Prod.fst).Nodup ∧
      renamed.Perm (members.map (renamedMember previous nextName))

theorem rename_spec {root : Json} {members : List (String × Json)} (htree : IsTree platform root)
    (hold : valueAtPath platform root path = some (.obj members)) (previous nextName : String) :
    ∃ renamed, Renamed previous nextName members renamed ∧
      renameObjectProperty platform root path previous nextName =
        updateJsonTreeValue platform (some root) path (.obj renamed) := by
  unfold renameObjectProperty Renamed
  rw [hold]
  dsimp only
  by_cases h : nextName = "" ∨ nextName = previous ∨ nextName ∈ members.map Prod.fst
  · refine ⟨members, ⟨rfl, ?_⟩, ?_⟩
    · rw [if_pos h]
    · rw [if_pos h, update_self htree hold]
  · have hnew : nextName ∉ members.map Prod.fst := fun hmem => h (.inr (.inr hmem))
    have hnames : (members.map (renamedMember previous nextName)).map Prod.fst =
        (members.map Prod.fst).map fun name => if name = previous then nextName else name := by
      rw [List.map_map, List.map_map]
      refine List.map_congr_left fun member _ => ?_
      simp only [Function.comp_apply, renamedMember, apply_ite Prod.fst]
    have hnodup : ((members.map (renamedMember previous nextName)).map Prod.fst).Nodup := by
      rw [hnames]
      refine (htree path members hold).nodup.map_on fun a ha b hb hab => ?_
      have hane : a ≠ nextName := fun heq => hnew (heq ▸ ha)
      have hbne : b ≠ nextName := fun heq => hnew (heq ▸ hb)
      grind
    have hfold := @foldl_setEntry_of_nodup _ [] _ hnodup
    have hperm : (fromEntries (members.map (renamedMember previous nextName))).Perm
        (members.map (renamedMember previous nextName)) := by
      rw [fromEntries, hfold, List.nil_append]
      exact enumerate_perm _
    refine ⟨_, ⟨hperm.length_eq.trans (List.length_map _), ?_⟩, if_neg h⟩
    rw [if_neg h]
    exact ⟨(hperm.map Prod.fst).nodup_iff.mpr hnodup, hperm⟩

/-! ## All edits of a path -/

/-- At a path of a value, an update is read back, leaves alone what neither passes through the path
nor leads to it, and hides an earlier one; the value that is there changes nothing. A removal is the
update of what the last segment is in to all the others, and a new name that of the object to the
renamed members. -/
theorem tree_edits (root : Json) (path : List Segment) (old : Json) (htree : IsTree platform root)
    (hold : valueAtPath platform root path = some old) :
    (∀ value, ∃ next, updateJsonTreeValue platform (some root) path value = some next ∧
      Updated platform root path value next) ∧
    updateJsonTreeValue platform (some root) path old = some root ∧
    (∀ parent segment, path = parent ++ [segment] → ∃ place rest next,
      valueAtPath platform root parent = some place ∧ Without platform place segment rest ∧
        removeJsonTreeValue platform (some root) path = some next ∧
        updateJsonTreeValue platform (some root) parent rest = some next) ∧
    ∀ members, old = .obj members → ∀ previous nextName, ∃ renamed next,
      Renamed previous nextName members renamed ∧
        renameObjectProperty platform root path previous nextName = some next ∧
        updateJsonTreeValue platform (some root) path (.obj renamed) = some next := by
  refine ⟨updated htree hold, update_self htree hold, ?_, ?_⟩
  · intro parent segment hpath
    rw [hpath, valueAtPath, List.foldlM_append] at hold
    obtain ⟨place, hplace, hchild⟩ := Option.bind_eq_some_iff.mp hold
    rw [List.foldlM_cons] at hchild
    obtain ⟨last, hlast, -⟩ := Option.bind_eq_some_iff.mp hchild
    have hbelow : IsTree platform place := fun below members hmembers =>
      htree (parent ++ below) members (by
        rw [valueAtPath, List.foldlM_append, hplace]
        exact hmembers)
    have ⟨rest, hrest, hwithout⟩ := withoutChild_spec hbelow hlast
    have ⟨next, hnext, _⟩ := updated htree hplace rest
    refine ⟨place, rest, next, hplace, hwithout, ?_, hnext⟩
    rw [hpath, remove_eq_update hplace hrest, hnext]
  · intro members hmembers previous nextName
    rw [hmembers] at hold
    have ⟨renamed, hrenamed, hrename⟩ := rename_spec htree hold previous nextName
    have ⟨next, hnext, _⟩ := updated htree hold (.obj renamed)
    exact ⟨renamed, next, hrenamed, hrename.trans hnext, hnext⟩

end Editing

/-- An object with two members, for the examples of edits. -/
def twoMembers : Json := .obj [("a", .null), ("b", .bool false)]

theorem isTree_twoMembers : IsTree Platform.ascii twoMembers := by
  intro path members hpath
  cases path with
  | nil =>
    cases hpath
    exact ⟨by decide, by decide⟩
  | cons segment rest =>
    rw [valueAtPath_cons, Option.bind_eq_some_iff] at hpath
    obtain ⟨child, hchild, hbelow⟩ := hpath
    have hmem : (segment.memberName Platform.ascii, child) ∈
        [("a", Json.null), ("b", .bool false)] := mem_of_member? hchild
    rcases List.mem_cons.mp hmem with heq | hmem
    · cases (Prod.ext_iff.mp heq).2
      cases rest <;> cases hbelow
    · cases (Prod.ext_iff.mp (List.mem_singleton.mp hmem)).2
      cases rest <;> cases hbelow

/-- One of the members is updated, updated to itself and removed, and then renamed. -/
theorem tree_edits_member :
    (∃ next, updateJsonTreeValue Platform.ascii (some twoMembers) [.name "b"] (.bool true) =
        some next ∧ Updated Platform.ascii twoMembers [.name "b"] (.bool true) next) ∧
      updateJsonTreeValue Platform.ascii (some twoMembers) [.name "b"] (.bool false) =
        some twoMembers ∧
      (∃ place rest next, valueAtPath Platform.ascii twoMembers [] = some place ∧
        Without Platform.ascii place (.name "b") rest ∧
          removeJsonTreeValue Platform.ascii (some twoMembers) [.name "b"] = some next ∧
          updateJsonTreeValue Platform.ascii (some twoMembers) [] rest = some next) ∧
      ∃ renamed next, Renamed "b" "c" [("a", .null), ("b", .bool false)] renamed ∧
        renameObjectProperty Platform.ascii twoMembers [] "b" "c" = some next ∧
        updateJsonTreeValue Platform.ascii (some twoMembers) [] (.obj renamed) = some next := by
  obtain ⟨hupdated, hself, hremoved, -⟩ :=
    tree_edits twoMembers [.name "b"] (.bool false) isTree_twoMembers rfl
  obtain ⟨-, -, -, hrenamed⟩ := tree_edits twoMembers [] twoMembers isTree_twoMembers rfl
  exact ⟨hupdated (.bool true), hself, hremoved [] (.name "b") rfl, hrenamed _ rfl "b" "c"⟩

/-- The root does not pass through a member, and it changes with it. -/
theorem update_frame_not : ¬∀ root path old value next other kept,
    IsTree Platform.ascii root → valueAtPath Platform.ascii root path = some old →
      updateJsonTreeValue Platform.ascii (some root) path value = some next →
      valueAtPath Platform.ascii root other = some kept →
      ¬PassesThrough Platform.ascii root path other →
      valueAtPath Platform.ascii next other = some kept := by
  intro h
  have hroot := h twoMembers [.name "a"] .null (.bool true)
    (.obj [("a", .bool true), ("b", .bool false)]) [] twoMembers isTree_twoMembers rfl rfl rfl id
  cases hroot

end ApiVoy.Workbench
