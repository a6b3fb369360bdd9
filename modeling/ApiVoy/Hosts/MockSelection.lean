/-
# The rule a request is answered by

The agent looks through all its mock rules, in the order in which the map gives them, and takes the
one with the largest priority that serves the request, an exact method going before the wildcard.
Two rules that are equal in both are told apart by that order only, and the map is in another order
after each start.
-/

import Mathlib.Data.Prod.Lex
import ApiVoy.Foundation.Largest
import ApiVoy.Hosts.MockRules

namespace ApiVoy.Hosts

open Foundation

def MockRule.serves (method requestedPath : String) (rule : MockRule) : Bool :=
  rule.path = requestedPath && (rule.method = "*" || eqIgnoreAsciiCase rule.method method)

def MockRule.rank (rule : MockRule) : ℤ ×ₗ Bool :=
  toLex (rule.priority.toInt, rule.method ≠ "*")

/-- The rule for a request, of rules that are looked through in this order. -/
def selectMockRuleId (order : List MockRuleState) (method requestedPath : String) :
    Option String :=
  (maxByKey (fun entry => entry.rule.rank)
    (order.filter fun entry => entry.rule.serves method requestedPath)).map fun entry =>
      entry.rule.id

/-- An order in which a map with these rules may be looked through, whatever their hits. -/
def Iterates (rules : Table MockRuleState) (order : List MockRuleState) : Prop :=
  (order.map MockRuleState.rule).Perm (rules.rows.map MockRuleState.rule)

/-- A rule that serves the request, with a priority as large as any, and an exact method if one of
that priority has an exact method. -/
structure Preferred (rules : Table MockRuleState) (method requestedPath : String)
    (rule : MockRule) : Prop where
  mem : rule ∈ rules.rows.map MockRuleState.rule
  serves : rule.serves method requestedPath = true
  priority : ∀ other ∈ rules.rows.map MockRuleState.rule,
    other.serves method requestedPath = true → other.priority ≤ rule.priority
  exact : ∀ other ∈ rules.rows.map MockRuleState.rule,
    other.serves method requestedPath = true → other.priority = rule.priority →
      other.method ≠ "*" → rule.method ≠ "*"

/-- What is expected of the choice: a preferred rule whenever one serves the request, and the same
one in any order. -/
structure SelectsWell (rules : Table MockRuleState) (method requestedPath : String) : Prop where
  preferred : ∀ order, Iterates rules order → ∀ id,
    selectMockRuleId order method requestedPath = some id →
      ∃ rule, Preferred rules method requestedPath rule ∧ rule.id = id
  found : ∀ order, Iterates rules order →
    (∃ rule ∈ rules.rows.map MockRuleState.rule, rule.serves method requestedPath = true) →
      (selectMockRuleId order method requestedPath).isSome = true
  stable : ∀ order others, Iterates rules order → Iterates rules others →
    selectMockRuleId order method requestedPath = selectMockRuleId others method requestedPath

variable {rules : Table MockRuleState} {method requestedPath : String} {order : List MockRuleState}

variable {rule other : MockRule}

theorem MockRule.rank_le_iff :
    other.rank ≤ rule.rank ↔ other.priority ≤ rule.priority ∧
      (other.priority = rule.priority → other.method ≠ "*" → rule.method ≠ "*") := by
  unfold MockRule.rank
  rw [Prod.Lex.toLex_le_toLex, Int32.le_iff_toInt_le, Int32.toInt_inj.symm]
  rcases lt_trichotomy other.priority.toInt rule.priority.toInt with hlt | heq | hgt
  · exact iff_of_true (Or.inl hlt) ⟨hlt.le, fun heq => absurd heq hlt.ne⟩
  · simp only [heq, lt_self_iff_false, false_or, true_and, le_refl, true_imp_iff, ne_eq]
    by_cases hother : other.method = "*"
    · simp [hother]
    · by_cases hrule : rule.method = "*" <;> simp [hother, hrule]
  · refine iff_of_false ?_ fun h => absurd h.1 (not_le.mpr hgt)
    rintro (hlt | ⟨heq, -⟩)
    · exact absurd hlt hgt.not_gt
    · exact absurd heq hgt.ne'

/-- The preferred rules are those with the largest rank among those that serve the request. -/
theorem preferred_iff_largest {rule : MockRule} :
    Preferred rules method requestedPath rule ↔
      Largest MockRule.rank
        ((rules.rows.map MockRuleState.rule).filter (MockRule.serves method requestedPath)) rule := by
  constructor
  · intro h
    refine ⟨List.mem_filter.mpr ⟨h.mem, h.serves⟩, fun other hother => ?_⟩
    obtain ⟨hmem, hserves⟩ := List.mem_filter.mp hother
    exact MockRule.rank_le_iff.mpr ⟨h.priority other hmem hserves, h.exact other hmem hserves⟩
  · intro h
    have hle : ∀ other ∈ rules.rows.map MockRuleState.rule,
        other.serves method requestedPath = true → other.rank ≤ rule.rank := fun other hmem hserves =>
      h.le other (List.mem_filter.mpr ⟨hmem, hserves⟩)
    exact {
      mem := (List.mem_filter.mp h.mem).1
      serves := (List.mem_filter.mp h.mem).2
      priority := fun other hmem hserves => (MockRule.rank_le_iff.mp (hle other hmem hserves)).1
      exact := fun other hmem hserves => (MockRule.rank_le_iff.mp (hle other hmem hserves)).2 }

theorem foldl_laterMax_map (first : MockRuleState) (rest : List MockRuleState) :
    (rest.foldl (laterMax fun entry : MockRuleState => entry.rule.rank) first).rule =
      (rest.map MockRuleState.rule).foldl (laterMax MockRule.rank) first.rule := by
  induction rest generalizing first with
  | nil => rfl
  | cons second rest ih =>
    rw [List.foldl_cons, ih, List.map_cons, List.foldl_cons]
    congr 1
    exact apply_ite MockRuleState.rule _ first second

/-- Only the rules matter, not their hits. -/
theorem selectMockRuleId_eq :
    selectMockRuleId order method requestedPath =
      (maxByKey MockRule.rank ((order.map MockRuleState.rule).filter
        (MockRule.serves method requestedPath))).map MockRule.id := by
  unfold selectMockRuleId
  rw [List.filter_map]
  change Option.map _ (maxByKey _ (order.filter
    (MockRule.serves method requestedPath ∘ MockRuleState.rule))) = _
  cases order.filter (MockRule.serves method requestedPath ∘ MockRuleState.rule) with
  | nil => rfl
  | cons first rest =>
    rw [List.map_cons, maxByKey, maxByKey, Option.map_some, Option.map_some, foldl_laterMax_map]

/-- The rules of a map are told apart by their ids. -/
theorem eq_of_id_eq (hrule : rule ∈ rules.rows.map MockRuleState.rule)
    (hother : other ∈ rules.rows.map MockRuleState.rule) (hid : rule.id = other.id) :
    rule = other := by
  obtain ⟨entry, hentry, rfl⟩ := List.mem_map.mp hrule
  obtain ⟨second, hsecond, rfl⟩ := List.mem_map.mp hother
  exact congrArg MockRuleState.rule (List.inj_on_of_nodup_map rules.nodup hentry hsecond hid)

/-- Every order comes from an order of the rules alone. -/
theorem iterates_of_perm {sorted : List MockRule}
    (h : sorted.Perm (rules.rows.map MockRuleState.rule)) :
    Iterates rules (sorted.map fun rule => ⟨rule, 0⟩) := by
  unfold Iterates
  rw [List.map_map]
  exact (List.map_id sorted).symm ▸ h

/-- Orders that agree on the id of their choice agree on the rule. -/
theorem choice_stable_iff :
    (∀ order others, Iterates rules order → Iterates rules others →
        selectMockRuleId order method requestedPath =
          selectMockRuleId others method requestedPath) ↔
      ∀ sorted others : List MockRule, sorted.Perm (rules.rows.map MockRuleState.rule) →
        others.Perm (rules.rows.map MockRuleState.rule) →
        maxByKey MockRule.rank (sorted.filter (MockRule.serves method requestedPath)) =
          maxByKey MockRule.rank (others.filter (MockRule.serves method requestedPath)) := by
  constructor
  · intro h sorted others hsorted hothers
    have hids := h _ _ (iterates_of_perm hsorted) (iterates_of_perm hothers)
    rw [selectMockRuleId_eq, selectMockRuleId_eq, List.map_map, List.map_map] at hids
    have hself : ∀ rules : List MockRule,
        rules.map (MockRuleState.rule ∘ fun rule => ⟨rule, 0⟩) = rules := List.map_id
    rw [hself, hself] at hids
    have hmem : ∀ {items : List MockRule} {rule : MockRule},
        items.Perm (rules.rows.map MockRuleState.rule) →
        maxByKey MockRule.rank (items.filter (MockRule.serves method requestedPath)) = some rule →
        rule ∈ rules.rows.map MockRuleState.rule := fun hitems hchoice =>
      hitems.mem_iff.mp (List.mem_filter.mp (largest_of_maxByKey hchoice).mem).1
    cases hfirst : maxByKey MockRule.rank
        (sorted.filter (MockRule.serves method requestedPath)) with
    | none =>
      rw [hfirst] at hids
      exact (Option.map_eq_none_iff.mp hids.symm).symm
    | some rule =>
      rw [hfirst] at hids
      obtain ⟨other, hsecond, hid⟩ := Option.map_eq_some_iff.mp hids.symm
      rw [hsecond, eq_of_id_eq (hmem hsorted hfirst) (hmem hothers hsecond) hid.symm]
  · intro h order others horder hothers
    rw [selectMockRuleId_eq, selectMockRuleId_eq, h _ _ horder hothers]

/-- A preferred rule is taken whenever one serves the request, and it is the same one in every order
exactly when there are no two of them. -/
theorem selectsWell_iff :
    SelectsWell rules method requestedPath ↔
      ∀ rule other, Preferred rules method requestedPath rule →
        Preferred rules method requestedPath other → rule = other := by
  have hunique : (∀ rule other, Preferred rules method requestedPath rule →
        Preferred rules method requestedPath other → rule = other) ↔
      ∀ order others, Iterates rules order → Iterates rules others →
        selectMockRuleId order method requestedPath =
          selectMockRuleId others method requestedPath := by
    rw [choice_stable_iff, maxByKey_perm_iff]
    exact forall₂_congr fun rule other =>
      imp_congr preferred_iff_largest (imp_congr preferred_iff_largest Iff.rfl)
  rw [hunique]
  refine ⟨SelectsWell.stable, fun hstable => ⟨?_, ?_, hstable⟩⟩
  · intro order horder id hid
    rw [selectMockRuleId_eq] at hid
    obtain ⟨rule, hchoice, rfl⟩ := Option.map_eq_some_iff.mp hid
    have hlargest := (largest_of_maxByKey hchoice).of_perm
      (horder.filter (MockRule.serves method requestedPath))
    exact ⟨rule, preferred_iff_largest.mpr hlargest, rfl⟩
  · intro order horder ⟨rule, hmem, hserves⟩
    rw [selectMockRuleId_eq, Option.isSome_map]
    exact maxByKey_isSome (List.ne_nil_of_mem
      (List.mem_filter.mpr ⟨horder.mem_iff.mpr hmem, hserves⟩))

/-! ### Two rules alike -/

/-- The rules two handlers made of one request. -/
def helloTwice : Table MockRuleState :=
  .collect [⟨helloRule.rule "a", 0⟩, ⟨helloRule.rule "b", 0⟩]

/-- Two rules that differ in their ids only are both preferred, and the order decides. -/
theorem selectsWell_not : ¬∀ (rules : Table MockRuleState) (method requestedPath : String),
    SelectsWell rules method requestedPath := by
  intro h
  have hstable := (h helloTwice "GET" "/hello").stable helloTwice.rows helloTwice.rows.reverse
    (List.Perm.refl _) ((List.reverse_perm _).map _)
  exact absurd hstable (by decide +kernel)

end ApiVoy.Hosts
