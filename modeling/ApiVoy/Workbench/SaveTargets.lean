/-
# The collections a request can be saved in

The walk lists a collection and then the collections below it, and skips what it has listed. It
starts at the collections without a parent and takes what is left at the end: these are the ones
whose ancestors go round in a circle. Each call lists something new or returns at once, so there
are no more calls inside each other than collections.
-/

import ApiVoy.Foundation.Forest
import Mathlib.Data.List.Nodup

namespace ApiVoy.Workbench

open Foundation

namespace SaveTargets

/-- What the walk has seen and listed. -/
structure Listing (T : Type) where
  visited : List String
  result : List (T × ℕ)

section Walk

variable {T : Type} (idOf : T → String) (parentId : T → Option String) (collections : List T)

def childrenOf (collection : T) : List T :=
  collections.filter fun candidate => parentId candidate = some (idOf collection)

/-- `append`, with as many calls inside each other as there is fuel. -/
def append : ℕ → ℕ → Listing T → T → Option (Listing T)
  | 0, _, _, _ => none
  | fuel + 1, depth, listing, collection =>
    if idOf collection ∈ listing.visited then some listing
    else (childrenOf idOf parentId collections collection).foldlM (append fuel (depth + 1))
      { visited := idOf collection :: listing.visited
        result := listing.result ++ [(collection, depth)] }

/-- A collection without a parent among the others; the empty text stands for none. -/
def isRoot (collection : T) : Bool :=
  match parentId collection with
  | none => true
  | some parent => parent = "" ∨ parent ∉ collections.map idOf

def flattenSaveCollections (fuel : ℕ) : Option (List (T × ℕ)) :=
  ((collections.filter (isRoot idOf parentId collections)).foldlM
      (append idOf parentId collections fuel 0) ⟨[], []⟩).bind fun listing =>
    (collections.foldlM (append idOf parentId collections fuel 0) listing).map Listing.result

/-! ## What the walk keeps -/

/-- The collection above another one. -/
def parentOf (collection : T) : Option T :=
  match parentId collection with
  | none => none
  | some parent => if parent = "" then none else collections.find? (idOf · = parent)

/-- Everything listed is visited, and listed once. -/
structure Sound (listing : Listing T) : Prop where
  ids : ∀ id, id ∈ listing.visited ↔ ∃ entry ∈ listing.result, idOf entry.1 = id
  nodup : (listing.result.map Prod.fst).Nodup
  mem : ∀ entry ∈ listing.result, entry.1 ∈ collections
  length : listing.visited.length = listing.result.length

/-- A place for a collection: one below its parent, which is listed. -/
def Justified (result : List (T × ℕ)) (depth : ℕ) (collection : T) : Prop :=
  ∀ parent, parentOf idOf parentId collections collection = some parent →
    ∃ above, (parent, above) ∈ result ∧ depth = above + 1

/-- Entries that had a place when they were listed. -/
inductive Placed : List (T × ℕ) → Prop
  | nil : Placed []
  | snoc {result : List (T × ℕ)} {collection : T} {depth : ℕ} (h : Placed result)
      (hplace : Justified idOf parentId collections result depth collection) :
      Placed (result ++ [(collection, depth)])

/-- What calls for some nodes at one depth do. -/
structure Walked (before after : Listing T) (nodes : List T) (depth : ℕ) : Prop where
  sound : Sound idOf collections after
  keeps : before.result <+: after.result
  visits : ∀ node ∈ nodes, idOf node ∈ after.visited
  closed : ∀ x ∈ collections, idOf x ∈ after.visited → idOf x ∉ before.visited →
    ∀ y ∈ collections, parentId y = some (idOf x) → idOf y ∈ after.visited
  placed : (∀ node ∈ nodes, Justified idOf parentId collections before.result depth node) →
    Placed idOf parentId collections before.result → Placed idOf parentId collections after.result

variable {idOf parentId collections}

theorem parentOf_spec {collection parent : T}
    (h : parentOf idOf parentId collections collection = some parent) :
    parentId collection = some (idOf parent) ∧ idOf parent ≠ "" ∧ parent ∈ collections := by
  unfold parentOf at h
  cases hid : parentId collection with
  | none =>
    rw [hid] at h
    cases h
  | some id =>
    rw [hid] at h
    simp only [Option.ite_none_left_eq_some] at h
    have heq : idOf parent = id := by simpa using List.find?_some h.2
    exact ⟨congrArg some heq.symm, heq ▸ h.1, List.mem_of_find?_eq_some h.2⟩

theorem Justified.mono {result more : List (T × ℕ)} {depth : ℕ} {collection : T}
    (h : Justified idOf parentId collections result depth collection) (hmore : result <+: more) :
    Justified idOf parentId collections more depth collection := by
  intro parent hparent
  have ⟨above, hmem, hdepth⟩ := h parent hparent
  exact ⟨above, hmore.subset hmem, hdepth⟩

/-- In the entries, a parent is listed before, one level higher. -/
theorem Placed.parent {result : List (T × ℕ)} {collection parent : T} {depth : ℕ}
    (h : Placed idOf parentId collections result) (hmem : (collection, depth) ∈ result)
    (hparent : parentOf idOf parentId collections collection = some parent) :
    ∃ before above after, result = before ++ (collection, above + 1) :: after ∧
      (parent, above) ∈ before := by
  induction h with
  | nil => cases hmem
  | @snoc result last depth' _ hplace ih =>
    rcases List.mem_append.mp hmem with hearlier | hlast
    · have ⟨before, above, after, hsplit, habove⟩ := ih hearlier
      refine ⟨before, above, after ++ [(last, depth')], ?_, habove⟩
      rw [hsplit, List.append_assoc, List.cons_append]
    · cases List.mem_singleton.mp hlast
      have ⟨above, habove, hdepth⟩ := hplace parent hparent
      exact ⟨result, above, [], by rw [hdepth], habove⟩

namespace Sound

variable {before after : Listing T}

theorem subset (hbefore : Sound idOf collections before) (hafter : Sound idOf collections after)
    (hkeeps : before.result <+: after.result) {id : String} (hid : id ∈ before.visited) :
    id ∈ after.visited := by
  have ⟨entry, hentry, heq⟩ := (hbefore.ids id).mp hid
  exact (hafter.ids id).mpr ⟨entry, hkeeps.subset hentry, heq⟩

theorem length_le (h : Sound idOf collections before) :
    before.visited.length ≤ collections.length := by
  have hsubset : before.result.map Prod.fst ⊆ collections := by
    intro node hnode
    obtain ⟨entry, hentry, rfl⟩ := List.mem_map.mp hnode
    exact h.mem entry hentry
  have hle := (List.subperm_of_subset h.nodup hsubset).length_le
  rwa [List.length_map, ← h.length] at hle

theorem push (h : Sound idOf collections before) {collection : T} (depth : ℕ)
    (hmem : collection ∈ collections) (hnew : idOf collection ∉ before.visited) :
    Sound idOf collections ⟨idOf collection :: before.visited,
      before.result ++ [(collection, depth)]⟩ where
  ids id := by
    simp only [List.mem_cons, List.mem_append, h.ids, List.not_mem_nil, or_false, or_and_right,
      exists_or, exists_eq_left]
    rw [or_comm, eq_comm]
  nodup := by
    have hfresh : collection ∉ before.result.map Prod.fst := by
      intro hlisted
      obtain ⟨entry, hentry, heq⟩ := List.mem_map.mp hlisted
      exact hnew ((h.ids _).mpr ⟨entry, hentry, by rw [heq]⟩)
    rw [List.map_append, List.map_singleton]
    exact List.nodup_append_comm.mp (List.nodup_cons.mpr ⟨hfresh, h.nodup⟩)
  mem entry hentry := by
    rcases List.mem_append.mp hentry with hold | hlast
    · exact h.mem entry hold
    · rw [List.mem_singleton.mp hlast]
      exact hmem
  length := by rw [List.length_cons, List.length_append, h.length, List.length_singleton]

end Sound

namespace Walked

variable {before middle after : Listing T} {depth : ℕ}

theorem refl {nodes : List T} (h : Sound idOf collections before)
    (hvisited : ∀ node ∈ nodes, idOf node ∈ before.visited) :
    Walked idOf parentId collections before before nodes depth where
  sound := h
  keeps := List.prefix_rfl
  visits := hvisited
  closed _ _ hin hout := absurd hin hout
  placed _ hplaced := hplaced

theorem cons {node : T} {nodes : List T}
    (hfirst : Walked idOf parentId collections before middle [node] depth)
    (hothers : Walked idOf parentId collections middle after nodes depth) :
    Walked idOf parentId collections before after (node :: nodes) depth where
  sound := hothers.sound
  keeps := hfirst.keeps.trans hothers.keeps
  visits := List.forall_mem_cons.mpr
    ⟨hfirst.sound.subset hothers.sound hothers.keeps (hfirst.visits node List.mem_cons_self),
      hothers.visits⟩
  closed x hx hin hout y hy hparent := by
    by_cases hmiddle : idOf x ∈ middle.visited
    · exact hfirst.sound.subset hothers.sound hothers.keeps
        (hfirst.closed x hx hmiddle hout y hy hparent)
    · exact hothers.closed x hx hin hmiddle y hy hparent
  placed hnodes hplaced := by
    rw [List.forall_mem_cons] at hnodes
    exact hothers.placed (fun other hother => (hnodes.2 other hother).mono hfirst.keeps)
      (hfirst.placed (by simpa using hnodes.1) hplaced)

end Walked

/-! ## Calls -/

/-- Calls for several nodes do what each of them does. -/
theorem foldlM_append {fuel depth : ℕ} {listing : Listing T} {nodes : List T}
    (hstep : ∀ listing, Sound idOf collections listing →
      collections.length < fuel + listing.visited.length → ∀ node ∈ collections, ∃ after,
        append idOf parentId collections fuel depth listing node = some after ∧
          Walked idOf parentId collections listing after [node] depth)
    (hsound : Sound idOf collections listing)
    (hfuel : collections.length < fuel + listing.visited.length)
    (hnodes : ∀ node ∈ nodes, node ∈ collections) :
    ∃ after, nodes.foldlM (append idOf parentId collections fuel depth) listing = some after ∧
      Walked idOf parentId collections listing after nodes depth := by
  induction nodes generalizing listing with
  | nil => exact ⟨listing, rfl, .refl hsound fun _ h => absurd h List.not_mem_nil⟩
  | cons node nodes ih =>
    rw [List.forall_mem_cons] at hnodes
    have ⟨middle, hmiddle, hfirst⟩ := hstep listing hsound hfuel node hnodes.1
    have hgrows : listing.visited.length ≤ middle.visited.length := by
      rw [hsound.length, hfirst.sound.length]
      exact hfirst.keeps.length_le
    have ⟨after, hafter, hothers⟩ := ih hfirst.sound (by omega) hnodes.2
    exact ⟨after, by rw [List.foldlM_cons, hmiddle]; exact hafter, hfirst.cons hothers⟩

/-- The parent of what is below a collection is this one, or none when its id is empty. -/
theorem parentOf_child {collection child : T} (hids : (collections.map idOf).Nodup)
    (hmem : collection ∈ collections)
    (hchild : parentId child = some (idOf collection)) :
    ∀ parent, parentOf idOf parentId collections child = some parent → parent = collection := by
  intro parent hparent
  have ⟨hid, _, hin⟩ := parentOf_spec hparent
  exact List.inj_on_of_nodup_map hids hin hmem (Option.some.inj (hid.symm.trans hchild))

theorem append_walks (hids : (collections.map idOf).Nodup) (fuel : ℕ) :
    ∀ (depth : ℕ) (listing : Listing T), Sound idOf collections listing →
      collections.length < fuel + listing.visited.length → ∀ node ∈ collections, ∃ after,
        append idOf parentId collections fuel depth listing node = some after ∧
          Walked idOf parentId collections listing after [node] depth := by
  induction fuel with
  | zero =>
    intro depth listing hsound hfuel
    have hle := hsound.length_le
    omega
  | succ fuel ih =>
    intro depth listing hsound hfuel node hnode
    by_cases hvisited : idOf node ∈ listing.visited
    · exact ⟨listing, by rw [append, if_pos hvisited],
        .refl hsound (by simpa using hvisited)⟩
    · have hpush := hsound.push depth hnode hvisited
      have hchildren : ∀ child ∈ childrenOf idOf parentId collections node,
          child ∈ collections := fun child hchild => (List.mem_filter.mp hchild).1
      have ⟨after, hafter, hwalked⟩ := foldlM_append (ih (depth + 1)) hpush
        (by rw [List.length_cons]; omega) hchildren
      have hself := hpush.subset hwalked.sound hwalked.keeps List.mem_cons_self
      refine ⟨after, by rw [append, if_neg hvisited, hafter], hwalked.sound,
        (List.prefix_append _ _).trans hwalked.keeps, by simpa using hself, ?_, ?_⟩
      · intro x hx hin hout y hy hparent
        by_cases hnew : idOf x = idOf node
        · refine hwalked.visits y (List.mem_filter.mpr ⟨hy, decide_eq_true ?_⟩)
          rw [hparent, hnew]
        · refine hwalked.closed x hx hin (fun hmem => ?_) y hy hparent
          exact (List.mem_cons.mp hmem).elim hnew hout
      · intro hjustified hplaced
        refine hwalked.placed (fun child hchild parent hparent => ?_)
          (hplaced.snoc (hjustified node List.mem_cons_self))
        have hbelow := of_decide_eq_true (List.mem_filter.mp hchild).2
        rw [parentOf_child hids hnode hbelow parent hparent]
        exact ⟨depth, List.mem_append_right _ List.mem_cons_self, rfl⟩

/-- A collection with a proper chain of ancestors is visited from the roots. -/
theorem visited_of_rooted {listing : Listing T} {collection : T}
    (hwalked : Walked idOf parentId collections ⟨[], []⟩ listing
      (collections.filter (isRoot idOf parentId collections)) 0)
    (hrooted : Rooted (parentOf idOf parentId collections) collection)
    (hmem : collection ∈ collections) : idOf collection ∈ listing.visited := by
  induction hrooted with
  | @root node hnone =>
    refine hwalked.visits node (List.mem_filter.mpr ⟨hmem, ?_⟩)
    unfold parentOf at hnone
    unfold isRoot
    cases hparent : parentId node with
    | none => rfl
    | some parent =>
      rw [hparent] at hnone
      simp only [ite_eq_left_iff, List.find?_eq_none, decide_eq_true_iff] at hnone
      simp only [decide_eq_true_iff, List.mem_map, not_exists, not_and]
      exact or_iff_not_imp_left.mpr hnone
  | @step node parent hparent _ ih =>
    obtain ⟨hid, _, hin⟩ := parentOf_spec hparent
    exact hwalked.closed parent hin (ih hin) List.not_mem_nil node hmem hid

end Walk

/-- A collection listed before its parent, beside two that are each other's parent. -/
def mixedCollections : List (String × Option String) :=
  [("child", some "root"), ("a", some "b"), ("root", none), ("b", some "a")]

end SaveTargets

end ApiVoy.Workbench
