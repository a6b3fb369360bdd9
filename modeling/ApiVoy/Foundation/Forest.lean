/-
# Parent forests, ancestor walks and descendant sweeps

A parent function is a forest when following it from every node ends at a root.
The module keeps this notion inductive, so that a walk towards the root is an
induction, and connects it with the two programs that run over such a relation:
climbing from a node until a test holds, and sweeping the descendants of a node
through a queue that nothing guards against repetition. Both are given with
fuel; the forest property bounds the fuel they need by the number of nodes.
-/

import Mathlib.Data.List.Nodup
import Mathlib.Data.List.Perm.Subperm
import Mathlib.Logic.Function.Basic
import Mathlib.Logic.Relation

namespace ApiVoy.Foundation

universe u

variable {α : Type u}

/-- Following `parent` from a node ends at a root after finitely many steps. -/
inductive Rooted (parent : α → Option α) : α → Prop
  | root {a : α} (h : parent a = none) : Rooted parent a
  | step {a b : α} (h : parent a = some b) (rest : Rooted parent b) : Rooted parent a

/-- Every node is rooted. -/
def Forest (parent : α → Option α) : Prop := ∀ a, Rooted parent a

/-- `b` is `a` or one of its ancestors. -/
def Ascends (parent : α → Option α) : α → α → Prop :=
  Relation.ReflTransGen fun a b => parent a = some b

namespace Ascends

variable {parent : α → Option α} {a b c : α}

theorem refl (a : α) : Ascends parent a a := Relation.ReflTransGen.refl

theorem head (h : parent a = some b) (rest : Ascends parent b c) : Ascends parent a c :=
  Relation.ReflTransGen.head h rest

theorem tail (rest : Ascends parent a b) (h : parent b = some c) : Ascends parent a c :=
  Relation.ReflTransGen.tail rest h

/-- The first step of an ascent is the parent of its start. -/
theorem eq_or_parent (h : Ascends parent a c) :
    a = c ∨ ∃ b, parent a = some b ∧ Ascends parent b c := by
  rcases Relation.ReflTransGen.cases_head h with heq | ⟨b, hb, rest⟩
  · exact Or.inl heq
  · exact Or.inr ⟨b, hb, rest⟩

end Ascends

namespace Rooted

variable {parent : α → Option α} {a b : α}

theorem of_parent (h : Rooted parent a) (hb : parent a = some b) : Rooted parent b := by
  cases h with
  | root hnone => rw [hnone] at hb; cases hb
  | step hsome rest =>
    rw [hsome] at hb
    cases hb
    exact rest

/-- A rooted node is not an ancestor of its own parent. -/
theorem not_ascends_parent (h : Rooted parent a) :
    ∀ {b}, parent a = some b → ¬ Ascends parent b a := by
  induction h with
  | root hnone => intro b hb; rw [hnone] at hb; cases hb
  | @step a c hsome rest ih =>
    intro b hb hcycle
    rw [hsome] at hb
    obtain rfl : c = b := by simpa using hb
    rcases hcycle.eq_or_parent with rfl | ⟨d, hd, hda⟩
    · exact ih hsome (Ascends.refl _)
    · exact ih hd (hda.tail hsome)

end Rooted

namespace Forest

variable {parent parent' : α → Option α}

/-- Dropping parent links keeps a forest. -/
theorem of_sublinks (h : Forest parent)
    (hsub : ∀ a, parent' a = none ∨ parent' a = parent a) : Forest parent' := by
  intro a
  induction h a with
  | root hnone => exact .root ((hsub _).elim id fun heq => heq.trans hnone)
  | step hsome _ ih =>
    rcases hsub _ with hnone | heq
    · exact .root hnone
    · exact .step (heq.trans hsome) ih

variable [DecidableEq α]

/-- A link redirected at `c` does not disturb a node whose ancestors avoid `c`. -/
theorem rooted_update_of_not_ascends {a c : α} (value : Option α) (h : Rooted parent a)
    (hne : ¬ Ascends parent a c) : Rooted (Function.update parent c value) a := by
  induction h with
  | @root a hnone =>
    have hac : a ≠ c := fun heq => hne (heq ▸ Ascends.refl a)
    exact .root (by rw [Function.update_of_ne hac, hnone])
  | @step a b hsome rest ih =>
    have hac : a ≠ c := fun heq => hne (heq ▸ Ascends.refl a)
    exact .step (by rw [Function.update_of_ne hac, hsome])
      (ih fun hbc => hne (Ascends.head hsome hbc))

/-- Moving a node under a new parent keeps a forest as long as the node is not
among the new parent's ancestors. -/
theorem update (h : Forest parent) {c : α} {value : Option α}
    (hsafe : ∀ p, value = some p → ¬ Ascends parent p c) :
    Forest (Function.update parent c value) := by
  intro a
  induction h a with
  | @root a hnone =>
    by_cases hac : a = c
    · subst a
      cases hvalue : value with
      | none => exact .root (by simp)
      | some p =>
        exact .step (by simp)
          (rooted_update_of_not_ascends _ (h p) (hsafe p hvalue))
    · exact .root (by rw [Function.update_of_ne hac, hnone])
  | @step a b hsome rest ih =>
    by_cases hac : a = c
    · subst a
      cases hvalue : value with
      | none => exact .root (by simp)
      | some p =>
        exact .step (by simp)
          (rooted_update_of_not_ascends _ (h p) (hsafe p hvalue))
    · exact .step (by rw [Function.update_of_ne hac, hsome]) ih

end Forest

/-! ## Bounded ancestor chains -/

/-- `path` lists a node and then its ancestors up to a root. -/
inductive IsLineage (parent : α → Option α) : α → List α → Prop
  | root {a : α} (h : parent a = none) : IsLineage parent a [a]
  | step {a b : α} {path : List α} (h : parent a = some b)
      (rest : IsLineage parent b path) : IsLineage parent a (a :: path)

namespace IsLineage

variable {parent : α → Option α} {a b : α} {path : List α}

theorem ascends_of_mem (h : IsLineage parent a path) (hb : b ∈ path) : Ascends parent a b := by
  induction h with
  | root _ =>
    obtain rfl : b = _ := by simpa using hb
    exact Ascends.refl _
  | step hsome _ ih =>
    rcases List.mem_cons.mp hb with rfl | hb
    · exact Ascends.refl _
    · exact Ascends.head hsome (ih hb)

theorem nodup (h : IsLineage parent a path) (hrooted : Rooted parent a) : path.Nodup := by
  induction h with
  | root _ => simp
  | step hsome rest ih =>
    refine List.nodup_cons.mpr ⟨fun hmem => ?_, ih (hrooted.of_parent hsome)⟩
    exact hrooted.not_ascends_parent hsome (rest.ascends_of_mem hmem)

end IsLineage

theorem Rooted.exists_lineage {parent : α → Option α} {a : α} (h : Rooted parent a) :
    ∃ path, IsLineage parent a path := by
  induction h with
  | root hnone => exact ⟨_, .root hnone⟩
  | step hsome _ ih =>
    obtain ⟨path, hpath⟩ := ih
    exact ⟨_, .step hsome hpath⟩

variable {nodes : List α}

/-- In a forest whose links stay inside a list of nodes, a lineage that starts
inside it is no longer than the list. -/
theorem IsLineage.length_le {parent : α → Option α}
    (hclosed : ∀ a ∈ nodes, ∀ b, parent a = some b → b ∈ nodes) {a : α} {path : List α}
    (h : IsLineage parent a path) (hrooted : Rooted parent a) (ha : a ∈ nodes) :
    path.length ≤ nodes.length := by
  have hsub : ∀ b ∈ path, b ∈ nodes := by
    have hstays : ∀ b, Ascends parent a b → b ∈ nodes := by
      intro b hab
      induction hab with
      | refl => exact ha
      | tail _ hstep ih => exact hclosed _ ih _ hstep
    exact fun b hb => hstays b (h.ascends_of_mem hb)
  exact (List.subperm_of_subset (h.nodup hrooted) hsub).length_le

/-! ## Climbing -/

/-- Does a climb of at most `fuel` links from a node meet the test? -/
def climbs (parent : α → Option α) (test : α → Bool) : Nat → α → Bool
  | 0, a => test a
  | fuel + 1, a =>
    test a ||
      match parent a with
      | none => false
      | some b => climbs parent test fuel b

variable {test : α → Bool} {fuel : Nat}

theorem climbs_sound {parent : α → Option α} {a : α} (h : climbs parent test fuel a = true) :
    ∃ b, Ascends parent a b ∧ test b = true := by
  induction fuel generalizing a with
  | zero => exact ⟨a, Ascends.refl a, h⟩
  | succ fuel ih =>
    rcases (Bool.or_eq_true _ _).mp h with htest | hrest
    · exact ⟨a, Ascends.refl a, htest⟩
    · cases hparent : parent a with
      | none => simp [hparent] at hrest
      | some c =>
        obtain ⟨b, hb, htest⟩ := ih (by simpa [hparent] using hrest)
        exact ⟨b, Ascends.head hparent hb, htest⟩

theorem climbs_complete {parent : α → Option α} {path : List α} {a b : α}
    (hpath : IsLineage parent a path) (hfuel : path.length ≤ fuel + 1) (hab : Ascends parent a b)
    (htest : test b = true) : climbs parent test fuel a = true := by
  induction hpath generalizing fuel with
  | @root a hnone =>
    have heq : a = b := by
      rcases hab.eq_or_parent with heq | ⟨c, hc, _⟩
      · exact heq
      · rw [hnone] at hc; cases hc
    subst heq
    cases fuel <;> simp [climbs, htest]
  | @step a c path hsome rest ih =>
    rcases hab.eq_or_parent with rfl | ⟨d, hd, hdb⟩
    · cases fuel <;> simp [climbs, htest]
    · obtain rfl : c = d := by rw [hsome] at hd; simpa using hd
      cases fuel with
      | zero =>
        have hpos : 0 < path.length := by cases rest <;> simp
        simp only [List.length_cons] at hfuel
        omega
      | succ fuel =>
        have hrec := ih (by simpa using hfuel) hdb
        simp [climbs, hsome, hrec]

/-- With fuel for every node, climbing decides whether an ancestor meets the
test. -/
theorem climbs_iff {parent : α → Option α} (h : Forest parent)
    (hclosed : ∀ a ∈ nodes, ∀ b, parent a = some b → b ∈ nodes) {a : α} (ha : a ∈ nodes) :
    climbs parent test nodes.length a = true ↔ ∃ b, Ascends parent a b ∧ test b = true := by
  refine ⟨climbs_sound, ?_⟩
  rintro ⟨b, hab, htest⟩
  obtain ⟨path, hpath⟩ := (h a).exists_lineage
  have hlength := hpath.length_le hclosed (h a) ha
  exact climbs_complete hpath (by omega) hab htest

/-! ## Sweeping descendants -/

/-- Pop nodes off a queue, appending the children of each popped node, until the
queue is empty. `none` when the fuel ran out first. -/
def sweep (children : α → List α) : Nat → List α → Option (List α)
  | _, [] => some []
  | 0, _ :: _ => none
  | fuel + 1, a :: queue => (sweep children fuel (queue ++ children a)).map (a :: ·)

/-- What a sweep from `root` has established once it popped `done` and has
`queue` before it: nothing is listed twice, everything listed descends from the
root through a popped parent, and the children of popped nodes are listed. -/
structure SweepInvariant (parent : α → Option α) (root : α) (done queue : List α) : Prop where
  nodup : (done ++ queue).Nodup
  ascends : ∀ a ∈ done ++ queue, Ascends parent a root
  origin : ∀ a ∈ done ++ queue, a = root ∨ ∃ p ∈ done, parent a = some p
  closed : ∀ p ∈ done, ∀ a, parent a = some p → a ∈ done ++ queue
  root_mem : root ∈ done ++ queue

namespace SweepInvariant

variable {parent : α → Option α} {children : α → List α} {root a : α} {done queue : List α}

theorem start (parent : α → Option α) (root : α) : SweepInvariant parent root [] [root] where
  nodup := by simp
  ascends := by simp [Ascends.refl]
  origin := by simp
  closed := by simp
  root_mem := by simp

theorem pop (hforest : Forest parent)
    (hchildren : ∀ p c, c ∈ children p ↔ parent c = some p)
    (hdistinct : ∀ p, (children p).Nodup)
    (h : SweepInvariant parent root done (a :: queue)) :
    SweepInvariant parent root (done ++ [a]) (queue ++ children a) := by
  have hassoc : done ++ [a] ++ (queue ++ children a) = (done ++ a :: queue) ++ children a := by
    simp
  have ha : Ascends parent a root := h.ascends a (by simp)
  have hnotDone : a ∉ done := by
    intro hmem
    exact (List.nodup_append.mp h.nodup).2.2 a hmem a (by simp) rfl
  refine ⟨?_, ?_, ?_, ?_, ?_⟩
  · rw [hassoc]
    refine List.nodup_append.mpr ⟨h.nodup, hdistinct a, ?_⟩
    rintro b hb c hc rfl
    have hparent := (hchildren a b).mp hc
    -- A listed child of `a` is the root, closing a cycle, or came from a popped
    -- node, which would be `a` itself.
    rcases h.origin b hb with rfl | ⟨p, hp, hbp⟩
    · exact (hforest b).not_ascends_parent hparent ha
    · obtain rfl : a = p := by rw [hparent] at hbp; simpa using hbp
      exact hnotDone hp
  · intro b hb
    rw [hassoc, List.mem_append] at hb
    rcases hb with hb | hb
    · exact h.ascends b hb
    · exact Ascends.head ((hchildren a b).mp hb) ha
  · intro b hb
    rw [hassoc, List.mem_append] at hb
    rcases hb with hb | hb
    · exact (h.origin b hb).imp_right fun ⟨p, hp, hbp⟩ => ⟨p, by simp [hp], hbp⟩
    · exact Or.inr ⟨a, by simp, (hchildren a b).mp hb⟩
  · intro p hp b hb
    rw [hassoc, List.mem_append]
    rcases List.mem_append.mp hp with hp | hp
    · exact Or.inl (h.closed p hp b hb)
    · obtain rfl : p = a := by simpa using hp
      exact Or.inr ((hchildren p b).mpr hb)
  · rw [hassoc]
    exact List.mem_append_left _ h.root_mem

/-- Once the queue is empty the popped nodes are exactly the descendants. -/
theorem mem_iff (h : SweepInvariant parent root done []) (b : α) :
    b ∈ done ↔ Ascends parent b root := by
  refine ⟨fun hb => h.ascends b (by simpa using hb), fun hb => ?_⟩
  induction hb using Relation.ReflTransGen.head_induction_on with
  | refl => simpa using h.root_mem
  | head hstep _ ih => simpa using h.closed _ ih _ hstep

theorem sweep_eq_some {nodes : List α} (hforest : Forest parent)
    (hchildren : ∀ p c, c ∈ children p ↔ parent c = some p)
    (hdistinct : ∀ p, (children p).Nodup)
    (hnodes : ∀ b, Ascends parent b root → b ∈ nodes) :
    ∀ (fuel : Nat) {done queue : List α}, SweepInvariant parent root done queue →
      nodes.length ≤ fuel + done.length →
      ∃ out, sweep children fuel queue = some out ∧
        SweepInvariant parent root (done ++ out) [] := by
  intro fuel
  induction fuel with
  | zero =>
    intro done queue h hfuel
    cases queue with
    | nil => exact ⟨[], by simp [sweep], by simpa using h⟩
    | cons a queue =>
      -- A nonempty queue would list more nodes than there are.
      have hle := (List.subperm_of_subset h.nodup
        fun b hb => hnodes b (h.ascends b hb)).length_le
      simp only [List.length_append, List.length_cons] at hle
      omega
  | succ fuel ih =>
    intro done queue h hfuel
    cases queue with
    | nil => exact ⟨[], by simp [sweep], by simpa using h⟩
    | cons a queue =>
      obtain ⟨out, hout, hinv⟩ := ih (h.pop hforest hchildren hdistinct)
        (by simp only [List.length_append, List.length_singleton]; omega)
      exact ⟨a :: out, by simp [sweep, hout], by simpa using hinv⟩

end SweepInvariant

/-- In a forest a sweep finishes once it has fuel for every node, and it lists
every descendant of its start exactly once. -/
theorem Forest.sweep_spec {parent : α → Option α} {children : α → List α} {root : α}
    (hforest : Forest parent) (hchildren : ∀ p c, c ∈ children p ↔ parent c = some p)
    (hdistinct : ∀ p, (children p).Nodup) (hnodes : ∀ b, Ascends parent b root → b ∈ nodes)
    (hfuel : nodes.length ≤ fuel) :
    ∃ out, sweep children fuel [root] = some out ∧ out.Nodup ∧
      ∀ b, b ∈ out ↔ Ascends parent b root := by
  obtain ⟨out, hout, hinv⟩ := SweepInvariant.sweep_eq_some hforest hchildren hdistinct hnodes
    fuel (SweepInvariant.start parent root) (by simpa using hfuel)
  rw [List.nil_append] at hinv
  exact ⟨out, hout, by simpa using hinv.nodup, hinv.mem_iff⟩

end ApiVoy.Foundation
