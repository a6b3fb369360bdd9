/-
# Parameters and headers of imported requests

The URL of an imported operation lists the query parameters of its path and its own one after the
other. So a parameter that the operation has of its own in place of that of the path is there
twice. And in a list of headers an entry that has a `key` counts even when it is disabled.
-/

import Mathlib.Data.List.Forall2
import ApiVoy.Portable.PostmanWalk

namespace ApiVoy.Portable

open Foundation Script

/-! ## Entries -/

section Entries

variable {α : Type}

theorem exists_of_forall₂ {β : Type} {R : α → β → Prop} {items : List α} {others : List β}
    (h : List.Forall₂ R items others) {item : α} (hitem : item ∈ items) :
    ∃ other ∈ others, R item other := by
  induction h with
  | nil => cases hitem
  | cons hhead _ ih =>
    rcases List.mem_cons.mp hitem with rfl | hitem
    · exact ⟨_, List.mem_cons_self, hhead⟩
    · obtain ⟨other, hother, hrelated⟩ := ih hitem
      exact ⟨other, List.mem_cons_of_mem _ hother, hrelated⟩

variable {entries : List (String × α)} {entry : String × α}

theorem mem_setEntry {other : String × α} :
    entry ∈ setEntry entries other ↔ entry = other ∨ entry ∈ entries ∧ entry.1 ≠ other.1 := by
  unfold setEntry
  split
  · rename_i hmem
    obtain ⟨old, hold, hname⟩ := List.mem_map.mp hmem
    rw [List.mem_map]
    constructor
    · rintro ⟨member, hmember, rfl⟩
      split
      · exact Or.inl rfl
      · rename_i hne
        exact Or.inr ⟨hmember, hne⟩
    · rintro (rfl | ⟨hentry, hne⟩)
      · exact ⟨old, hold, if_pos hname⟩
      · exact ⟨entry, hentry, if_neg hne⟩
  · rename_i hmem
    rw [List.mem_append, List.mem_singleton, or_comm]
    refine or_congr_right (and_iff_left_of_imp fun hentry heq => hmem ?_).symm
    exact heq ▸ List.mem_map_of_mem hentry

theorem mem_fromEntries_concat {last : String × α} :
    entry ∈ fromEntries (entries ++ [last]) ↔
      entry = last ∨ entry ∈ fromEntries entries ∧ entry.1 ≠ last.1 := by
  unfold fromEntries
  rw [(enumerate_perm _).mem_iff, (enumerate_perm _).mem_iff, List.foldl_concat, mem_setEntry]

/-- What is left of entries are the last ones of their names. -/
theorem mem_fromEntries :
    entry ∈ fromEntries entries ↔ ∃ before after, entries = before ++ entry :: after ∧
      ∀ later ∈ after, later.1 ≠ entry.1 := by
  induction entries using List.reverseRecOn with
  | nil => simp [fromEntries, enumerate]
  | append_singleton entries last ih =>
    rw [mem_fromEntries_concat, ih]
    constructor
    · rintro (rfl | ⟨⟨before, after, rfl, hafter⟩, hne⟩)
      · exact ⟨entries, [], rfl, by simp⟩
      · refine ⟨before, after ++ [last], by rw [List.append_assoc, List.cons_append], ?_⟩
        exact List.forall_mem_append.mpr ⟨hafter, List.forall_mem_singleton.mpr hne.symm⟩
    · rintro ⟨before, after, hsplit, hafter⟩
      rcases List.eq_nil_or_concat after with rfl | ⟨after, other, rfl⟩
      · have hlast : last = entry := by
          simpa using congrArg List.getLast? hsplit
        exact Or.inl hlast.symm
      · rw [List.concat_eq_append] at hsplit hafter
        rw [← List.cons_append, ← List.append_assoc] at hsplit
        obtain ⟨rfl, heq⟩ := List.append_inj' hsplit rfl
        cases heq
        obtain ⟨hafter, hlast⟩ := List.forall_mem_append.mp hafter
        exact Or.inr ⟨⟨before, after, rfl, hafter⟩,
          (List.forall_mem_singleton.mp hlast).symm⟩

theorem exists_mem_fromEntries (h : entry ∈ entries) :
    ∃ last ∈ fromEntries entries, last.1 = entry.1 := by
  induction entries using List.reverseRecOn with
  | nil => cases h
  | append_singleton entries last ih =>
    by_cases hname : last.1 = entry.1
    · exact ⟨last, mem_fromEntries_concat.mpr (Or.inl rfl), hname⟩
    · have hmem : entry ∈ entries := by
        rcases List.mem_append.mp h with hmem | hmem
        · exact hmem
        · exact absurd (congrArg Prod.fst (List.mem_singleton.mp hmem)).symm hname
      obtain ⟨left, hleft, hsame⟩ := ih hmem
      exact ⟨left, mem_fromEntries_concat.mpr
        (Or.inr ⟨hleft, fun heq => hname (heq.symm.trans hsame)⟩), hsame⟩

end Entries

/-! ## Header lists -/

section Headers

variable (platform : Platform)

/-- Is an item of a list a header, with its name under either key, that is not disabled? -/
def isEnabledHeader (item : Json) : Bool :=
  isObject (some item) && !truthy (item.get "disabled") &&
    (((item.get "name").bind Json.asStr).isSome || ((item.get "key").bind Json.asStr).isSome)

/-- The name and the value an item stands for. -/
def headerEntry (item : Json) : Import (String × String) := do
  let name ← text platform (orValue (item.get "name") (item.get "key"))
  let value ← textOr platform (item.get "value") ""
  return (name, value)

def StandsFor (item : Json) (entry : String × String) : Prop :=
  outcomeOf (headerEntry platform item) = .ok entry

def ExactHeaders (items : List Json) (entries : List (String × String)) : Prop :=
  ∀ entry, entry ∈ entries ↔
    ∃ item ∈ items, isEnabledHeader item = true ∧ StandsFor platform item entry

/-- No two enabled headers of one name have different values, and a disabled entry that counts, and
that no entry of its name comes after, stands for the same as an enabled one. -/
structure HeadersAgree (items : List Json) : Prop where
  agree : ∀ item ∈ items, ∀ other ∈ items, isEnabledHeader item = true →
    isEnabledHeader other = true → ∀ entry entry', StandsFor platform item entry →
      StandsFor platform other entry' → entry.1 = entry'.1 → entry = entry'
  disabled : ∀ before item after, items.filter isHeaderEntry = before ++ item :: after →
    isEnabledHeader item = false → ∀ entry, StandsFor platform item entry →
      (∀ later ∈ after, ∀ entry', StandsFor platform later entry' → entry'.1 ≠ entry.1) →
        ∃ other ∈ items, isEnabledHeader other = true ∧ StandsFor platform other entry

variable {platform}

theorem StandsFor.unique {item : Json} {entry entry' : String × String}
    (h : StandsFor platform item entry) (h' : StandsFor platform item entry') : entry = entry' :=
  Except.ok.inj (h.symm.trans h')

theorem steady_headerEntry (item : Json) : Steady (headerEntry platform item) :=
  Steady.bind (.text platform _) fun _ => .bind (.textOr platform _ _) fun _ =>
    Steady.pure _

variable {budget after : ImportBudget}

theorem collect_eq_ok_iff {α β : Type} {f : α → Import β} (hf : ∀ a, Steady (f a)) {items : List α}
    {results : List β} :
    (collect f items).run budget = (.ok results, after) ↔
      List.Forall₂ (fun a b => outcomeOf (f a) = .ok b) items results ∧ after = budget := by
  induction items generalizing results budget after with
  | nil =>
    rw [collect, List.forall₂_nil_left_iff]
    constructor
    · intro h
      cases h
      exact ⟨rfl, rfl⟩
    · rintro ⟨rfl, rfl⟩
      rfl
  | cons a items ih =>
    rw [collect, List.forall₂_cons_left_iff]
    constructor
    · intro h
      obtain ⟨b, _, hfirst, hothers⟩ := Fallible.run_bind_eq_ok_iff.mp h
      obtain ⟨hb, rfl⟩ := (hf a).run_eq_ok_iff.mp hfirst
      obtain ⟨bs, _, hrest, hreturn⟩ := Fallible.run_bind_eq_ok_iff.mp hothers
      obtain ⟨hbs, rfl⟩ := ih.mp hrest
      cases hreturn
      exact ⟨⟨b, bs, hb, hbs, rfl⟩, rfl⟩
    · rintro ⟨⟨b, bs, hb, hbs, rfl⟩, rfl⟩
      exact Fallible.run_bind_eq_ok_iff.mpr ⟨b, after, (hf a).run_eq_ok_iff.mpr ⟨hb, rfl⟩,
        Fallible.run_bind_eq_ok_iff.mpr ⟨bs, after, ih.mpr ⟨hbs, rfl⟩, rfl⟩⟩

theorem isHeaderEntry_of_enabled {item : Json} (h : isEnabledHeader item = true) :
    isHeaderEntry item = true := by
  unfold isEnabledHeader at h
  unfold isHeaderEntry
  simp only [Bool.and_eq_true, Bool.or_eq_true] at h ⊢
  exact ⟨h.1.1, h.2.imp_left fun hname => ⟨h.1.2, hname⟩⟩

variable {entries : List (String × String)}

variable {items : List Json}

/-- What counts of a list of headers is the last entry of each name. -/
theorem mem_headerMap_iff
    (hrun : (headerMap platform (some (.arr items))).run budget = (.ok entries, after))
    {entry : String × String} :
    entry ∈ entries ↔ ∃ before item later, items.filter isHeaderEntry = before ++ item :: later ∧
      StandsFor platform item entry ∧
        ∀ other ∈ later, ∀ entry', StandsFor platform other entry' → entry'.1 ≠ entry.1 := by
  obtain ⟨pairs, middle, hcollect, hreturn⟩ := Fallible.run_bind_eq_ok_iff.mp hrun
  cases hreturn
  obtain ⟨hpairs, -⟩ := (collect_eq_ok_iff steady_headerEntry).mp hcollect
  rw [mem_fromEntries]
  constructor
  · rintro ⟨before, later, rfl, hlater⟩
    have hdrop := List.forall₂_drop_append _ _ _ hpairs
    obtain ⟨item, others, hitem, hothers, heq⟩ := List.forall₂_cons_right_iff.mp hdrop
    refine ⟨List.take before.length (items.filter isHeaderEntry), item, others, ?_, hitem,
      fun other hother entry' hentry' => ?_⟩
    · rw [← heq, List.take_append_drop]
    · obtain ⟨pair, hpair, hstands⟩ := exists_of_forall₂ hothers hother
      rw [StandsFor.unique hentry' hstands]
      exact hlater pair hpair
  · rintro ⟨before, item, later, hsplit, hitem, hlater⟩
    rw [hsplit] at hpairs
    have hdrop := List.forall₂_drop_append _ _ _ hpairs.flip
    obtain ⟨pair, others, hpair, hothers, heq⟩ := List.forall₂_cons_right_iff.mp hdrop
    cases StandsFor.unique hitem hpair
    refine ⟨List.take before.length pairs, others, ?_, fun pair hpair => ?_⟩
    · rw [← heq, List.take_append_drop]
    · obtain ⟨other, hother, hstands⟩ := exists_of_forall₂ hothers hpair
      exact hlater other hother pair hstands

/-- The headers are exactly the enabled ones under this condition. -/
theorem exactHeaders_iff
    (hrun : (headerMap platform (some (.arr items))).run budget = (.ok entries, after)) :
    ExactHeaders platform items entries ↔ HeadersAgree platform items := by
  have hmem : ∀ entry, entry ∈ entries ↔ _ := fun entry => mem_headerMap_iff hrun
  obtain ⟨pairs, middle, hcollect, hreturn⟩ := Fallible.run_bind_eq_ok_iff.mp hrun
  cases hreturn
  obtain ⟨hpairs, -⟩ := (collect_eq_ok_iff steady_headerEntry).mp hcollect
  constructor
  · intro h
    constructor
    · intro item hitem other hother henabled henabled' entry entry' hentry hentry' hname
      exact List.inj_on_of_nodup_map (nodup_fromEntries pairs)
        ((h entry).mpr ⟨item, hitem, henabled, hentry⟩)
        ((h entry').mpr ⟨other, hother, henabled', hentry'⟩) hname
    · intro before item later hsplit _ entry hentry hlater
      exact (h entry).mp ((hmem entry).mpr ⟨before, item, later, hsplit, hentry, hlater⟩)
  · intro h
    have hsound : ∀ entry ∈ fromEntries pairs,
        ∃ item ∈ items, isEnabledHeader item = true ∧ StandsFor platform item entry := by
      intro entry hentry
      obtain ⟨before, item, later, hsplit, hstands, hlater⟩ := (hmem entry).mp hentry
      cases henabled : isEnabledHeader item with
      | false => exact h.disabled before item later hsplit henabled entry hstands hlater
      | true =>
        have hcounts : item ∈ items.filter isHeaderEntry := by
          rw [hsplit]
          exact List.mem_append_right before List.mem_cons_self
        exact ⟨item, (List.mem_filter.mp hcounts).1, henabled, hstands⟩
    refine fun entry => ⟨hsound entry, fun ⟨item, hitem, henabled, hstands⟩ => ?_⟩
    obtain ⟨pair, hpair, hsame⟩ := exists_of_forall₂ hpairs
      (List.mem_filter.mpr ⟨hitem, isHeaderEntry_of_enabled henabled⟩)
    cases StandsFor.unique hstands hsame
    obtain ⟨last, hlast, hname⟩ := exists_mem_fromEntries hpair
    obtain ⟨other, hother, henabled', hstands'⟩ := hsound last hlast
    rw [h.agree item hitem other hother henabled henabled' entry last hstands hstands' hname.symm]
    exact hlast

end Headers

/-! ## Parameters -/

section Parameters

variable (platform : Platform)

def NamedAt (parameter : Found) (name : String) (location : Json) : Prop :=
  ∃ value, parameter.value? = some value ∧ isObject (some value) = true ∧
    value.get "in" = some location ∧ outcomeOf (text platform (value.get "name")) = .ok name

/-- The parameters of an operation: its own, and those of the path that none of its own replaces. -/
def Effective (shared own : List Found) (parameter : Found) : Prop :=
  parameter ∈ own ∨ parameter ∈ shared ∧ ¬∃ other ∈ own, ∃ name location,
    NamedAt platform parameter name location ∧ NamedAt platform other name location

/-- A query parameter as it stands in a URL. -/
def placeholder (name : String) : String :=
  Percent.encodeURIComponent name ++ "=\x7b\x7b" ++ name ++ "\x7d\x7d"

/-- A URL with query parameters of these names behind it. -/
def withQuery (url : String) (names : List String) : String :=
  if names = [] then url
  else url ++ (if includes url "?" then "&" else "?") ++ "&".intercalate (names.map placeholder)

/-- The URL has each query parameter that is effective once, and no other one. -/
def ExactQuery (url full : String) (shared own : List Found) : Prop :=
  ∃ names : List String, full = withQuery url names ∧ names.Nodup ∧
    ∀ name, name ∈ names ↔ ∃ parameter, Effective platform shared own parameter ∧
      NamedAt platform parameter name (.str "query")

/-- No two of the parameters are query parameters of one name. -/
def DistinctQuery (parameters : List Found) : Prop :=
  parameters.Pairwise fun parameter other => ∀ name,
    NamedAt platform parameter name (.str "query") → ¬ NamedAt platform other name (.str "query")

variable {platform}

theorem NamedAt.unique {parameter : Found} {name name' : String} {location location' : Json}
    (h : NamedAt platform parameter name location)
    (h' : NamedAt platform parameter name' location') : name = name' ∧ location = location' := by
  obtain ⟨value, hvalue, -, hin, hname⟩ := h
  obtain ⟨value', hvalue', -, hin', hname'⟩ := h'
  cases hvalue.symm.trans hvalue'
  exact ⟨Except.ok.inj (hname.symm.trans hname'), Option.some.inj (hin.symm.trans hin')⟩

variable {shared own : List Found} {name : String}

/-- An effective query parameter has a name that some query parameter has: one that is replaced has
the name of the one that replaces it. -/
theorem effective_query_iff :
    (∃ parameter, Effective platform shared own parameter ∧
        NamedAt platform parameter name (.str "query")) ↔
      ∃ parameter ∈ shared ++ own, NamedAt platform parameter name (.str "query") := by
  constructor
  · rintro ⟨parameter, hown | ⟨hshared, -⟩, hname⟩
    · exact ⟨parameter, List.mem_append_right shared hown, hname⟩
    · exact ⟨parameter, List.mem_append_left own hshared, hname⟩
  · rintro ⟨parameter, hmem, hname⟩
    rcases List.mem_append.mp hmem with hshared | hown
    · by_cases hreplaced : ∃ other ∈ own, ∃ name location,
          NamedAt platform parameter name location ∧ NamedAt platform other name location
      · obtain ⟨other, hother, name', location, hname', hother'⟩ := hreplaced
        obtain ⟨rfl, rfl⟩ := hname.unique hname'
        exact ⟨other, Or.inl hother, hother'⟩
      · exact ⟨parameter, Or.inr ⟨hshared, hreplaced⟩, hname⟩
    · exact ⟨parameter, Or.inl hown, hname⟩

/-- The names of the query parameters, in their order. -/
def QueryNames (platform : Platform) (parameters : List Found) (names : List String) : Prop :=
  List.Forall₂ (fun value name => outcomeOf (text platform (value.get "name")) = .ok name)
    ((parameters.filterMap Found.value?).filter fun parameter =>
      isObject (some parameter) && parameter.get "in" = some (.str "query")) names

theorem forall₂_exists_iff {α β γ : Type} {R : α → β → Prop} {f : β → γ} {items : List α}
    {results : List γ} :
    List.Forall₂ (fun a c => ∃ b, R a b ∧ f b = c) items results ↔
      ∃ between, List.Forall₂ R items between ∧ results = between.map f := by
  constructor
  · intro h
    induction h with
    | nil => exact ⟨[], List.Forall₂.nil, rfl⟩
    | cons hhead _ ih =>
      obtain ⟨b, hb, rfl⟩ := hhead
      obtain ⟨between, hbetween, rfl⟩ := ih
      exact ⟨b :: between, List.Forall₂.cons hb hbetween, rfl⟩
  · rintro ⟨between, hbetween, rfl⟩
    rw [List.forall₂_map_right_iff]
    exact hbetween.imp fun a b hb => ⟨b, hb, rfl⟩

variable {parameters : List Found}

theorem queryText_eq_ok_iff {texts : List String} {budget after : ImportBudget} :
    (queryText platform parameters).run budget = (.ok texts, after) ↔
      (∃ names, QueryNames platform parameters names ∧ texts = names.map placeholder) ∧
        after = budget := by
  have hsteady : ∀ parameter : Json, Steady (do
      let name ← text platform (member "name" (some parameter))
      let inside ← text platform (member "name" (some parameter))
      return Percent.encodeURIComponent name ++ "=\x7b\x7b" ++ inside ++ "\x7d\x7d" :
        Import String) := fun parameter =>
    Steady.bind (.text platform _) fun _ => .bind (.text platform _) fun _ =>
      Steady.pure _
  have htext : ∀ (parameter : Json) (written : String), outcomeOf (do
      let name ← text platform (member "name" (some parameter))
      let inside ← text platform (member "name" (some parameter))
      return Percent.encodeURIComponent name ++ "=\x7b\x7b" ++ inside ++ "\x7d\x7d" :
        Import String) = .ok written ↔
      ∃ name, outcomeOf (text platform (parameter.get "name")) = .ok name ∧
        placeholder name = written := by
    intro parameter written
    have hmember : member "name" (some parameter) = parameter.get "name" := rfl
    rw [hmember]
    unfold outcomeOf text
    cases (parameter.get "name").elim (.ok "undefined") (textOf platform) with
    | error message =>
      refine iff_of_false (fun h => ?_) fun ⟨name, h, _⟩ => ?_
      · cases h
      · cases h
    | ok name =>
      constructor
      · intro h
        cases h
        exact ⟨name, rfl, rfl⟩
      · rintro ⟨name, h, rfl⟩
        cases h
        rfl
  unfold queryText
  rw [collect_eq_ok_iff hsteady]
  refine and_congr_left fun _ => ?_
  simp only [htext]
  exact forall₂_exists_iff

variable {names : List String} {parameter : Found}

theorem QueryNames.cons_of_query {value : Json} (hvalue : parameter.value? = some value)
    (hobject : isObject (some value) = true) (hin : value.get "in" = some (.str "query")) :
    QueryNames platform (parameter :: parameters) names ↔
      ∃ name rest, NamedAt platform parameter name (.str "query") ∧
        QueryNames platform parameters rest ∧ names = name :: rest := by
  have hname : ∀ name, NamedAt platform parameter name (.str "query") ↔
      outcomeOf (text platform (value.get "name")) = .ok name := by
    intro name
    refine ⟨fun ⟨other, hother, _, _, hname⟩ => ?_,
      fun hname => ⟨value, hvalue, hobject, hin, hname⟩⟩
    cases hvalue.symm.trans hother
    exact hname
  unfold QueryNames
  rw [List.filterMap_cons_some hvalue, List.filter_cons_of_pos (by simp [hobject, hin]),
    List.forall₂_cons_left_iff]
  simp only [hname]

theorem QueryNames.cons_of_not {parameter : Found} {parameters : List Found}
    {names : List String} (h : ¬∃ value, parameter.value? = some value ∧
      isObject (some value) = true ∧ value.get "in" = some (.str "query")) :
    QueryNames platform (parameter :: parameters) names ↔ QueryNames platform parameters names := by
  unfold QueryNames
  cases hvalue : parameter.value? with
  | none => rw [List.filterMap_cons_none hvalue]
  | some value =>
    rw [List.filterMap_cons_some hvalue, List.filter_cons_of_neg]
    intro htrue
    rw [Bool.and_eq_true, decide_eq_true_eq] at htrue
    exact h ⟨value, hvalue, htrue⟩

theorem NamedAt.isQuery (h : NamedAt platform parameter name (.str "query")) : ∃ value,
      parameter.value? = some value ∧ isObject (some value) = true ∧
        value.get "in" = some (.str "query") := by
  obtain ⟨value, hvalue, hobject, hin, -⟩ := h
  exact ⟨value, hvalue, hobject, hin⟩

theorem QueryNames.mem_iff (h : QueryNames platform parameters names) :
    name ∈ names ↔ ∃ parameter ∈ parameters, NamedAt platform parameter name (.str "query") := by
  induction parameters generalizing names with
  | nil =>
    cases h
    simp
  | cons parameter parameters ih =>
    by_cases hquery : ∃ value, parameter.value? = some value ∧
        isObject (some value) = true ∧ value.get "in" = some (.str "query")
    · obtain ⟨value, hvalue, hobject, hin⟩ := hquery
      obtain ⟨first, rest, hfirst, hrest, rfl⟩ := (cons_of_query hvalue hobject hin).mp h
      rw [List.mem_cons, ih hrest, List.exists_mem_cons_iff]
      refine or_congr_left ⟨fun heq => heq ▸ hfirst, fun hname => (hname.unique hfirst).1⟩
    · rw [ih ((cons_of_not hquery).mp h), List.exists_mem_cons_iff]
      exact (or_iff_right fun hname => hquery hname.isQuery).symm

/-- The names are distinct exactly when the query parameters are. -/
theorem QueryNames.nodup_iff (h : QueryNames platform parameters names) :
    names.Nodup ↔ DistinctQuery platform parameters := by
  unfold DistinctQuery
  induction parameters generalizing names with
  | nil =>
    cases h
    simp
  | cons parameter parameters ih =>
    rw [List.pairwise_cons]
    by_cases hquery : ∃ value, parameter.value? = some value ∧
        isObject (some value) = true ∧ value.get "in" = some (.str "query")
    · obtain ⟨value, hvalue, hobject, hin⟩ := hquery
      obtain ⟨first, rest, hfirst, hrest, rfl⟩ := (cons_of_query hvalue hobject hin).mp h
      rw [List.nodup_cons, ih hrest, hrest.mem_iff]
      refine and_congr_left fun _ => ?_
      constructor
      · intro hnot other hother name hname hother'
        exact hnot ⟨other, hother, (hname.unique hfirst).1 ▸ hother'⟩
      · rintro hnot ⟨other, hother, hname⟩
        exact hnot other hother first hfirst hname
    · rw [ih ((cons_of_not hquery).mp h)]
      exact (and_iff_right fun other _ name hname => absurd hname.isQuery hquery).symm

/-- What the parameters of these names take in a URL. -/
def querySize (names : List String) : Nat :=
  (names.map fun name => (placeholder name).toList.length + 1).sum

theorem querySize_cons (name : String) (names : List String) :
    querySize (name :: names) = (placeholder name).toList.length + 1 + querySize names := by
  rw [querySize, List.map_cons, List.sum_cons]
  rfl

variable {url : String}

theorem length_withQuery (h : names ≠ []) :
    (withQuery url names).toList.length = url.toList.length + querySize names := by
  have hrest : ∀ texts : List String, (texts.flatMap fun text =>
      "&".toList ++ text.toList).length = (texts.map fun text => text.toList.length + 1).sum := by
    intro texts
    rw [List.length_flatMap]
    refine congrArg List.sum (List.map_congr_left fun text _ => ?_)
    rw [List.length_append]
    exact Nat.add_comm _ _
  cases names with
  | nil => exact absurd rfl h
  | cons name names =>
    have hmark : (if includes url "?" then "&" else "?" : String).toList.length = 1 := by
      split <;> rfl
    rw [withQuery, if_neg h, String.toList_append, String.toList_append, List.length_append,
      List.length_append, hmark, List.map_cons, toList_intercalate_cons, List.length_append,
      hrest, querySize_cons, List.map_map]
    rw [querySize, Function.comp_def]
    omega

theorem querySize_of_sublist {names others : List String} (h : names.Sublist others) :
    querySize names + others.length ≤ querySize others + names.length := by
  induction h with
  | slnil => exact le_rfl
  | cons name _ ih =>
    rw [querySize_cons, List.length_cons]
    omega
  | cons_cons name _ ih =>
    rw [querySize_cons, querySize_cons, List.length_cons, List.length_cons]
    omega

/-- Of two queries with the same names, one without repetition, the other one is longer if it
repeats a name. -/
theorem nodup_of_withQuery_eq {names others : List String}
    (h : withQuery url names = withQuery url others) (hnodup : others.Nodup)
    (hmem : ∀ name, name ∈ names ↔ name ∈ others) : names.Nodup := by
  by_cases hnil : names = []
  · rw [hnil]
    exact List.nodup_nil
  have hother : others ≠ [] := by
    rintro rfl
    exact hnil (List.eq_nil_iff_forall_not_mem.mpr fun name hname => by simpa using (hmem name).mp hname)
  obtain ⟨sub, hperm, hsub⟩ := List.subperm_of_subset hnodup fun name hname => (hmem name).mpr hname
  have hlength : (withQuery url names).toList.length = (withQuery url others).toList.length := by
    rw [h]
  rw [length_withQuery hnil, length_withQuery hother] at hlength
  have hsize : querySize sub = querySize others := (hperm.map _).sum_eq
  have hle := querySize_of_sublist hsub
  rw [← hsub.eq_of_length_le (by omega)]
  exact hperm.nodup_iff.mpr hnodup

theorem exactQuery_withQuery_iff (h : QueryNames platform (shared ++ own) names) :
    ExactQuery platform url (withQuery url names) shared own ↔
      DistinctQuery platform (shared ++ own) := by
  rw [← h.nodup_iff]
  have hmem : ∀ name, name ∈ names ↔ ∃ parameter, Effective platform shared own parameter ∧
      NamedAt platform parameter name (.str "query") := fun name =>
    h.mem_iff.trans effective_query_iff.symm
  constructor
  · rintro ⟨others, hsame, hnodup, hothers⟩
    exact nodup_of_withQuery_eq hsame hnodup fun name => (hmem name).trans (hothers name).symm
  · exact fun hnodup => ⟨names, rfl, hnodup, hmem⟩

/-! ### Operations -/

/-- A step may give this value, with some of the budget left. -/
def Yields {α : Type} (m : Import α) (a : α) : Prop :=
  ∃ budget after, m.run budget = (.ok a, after)

/-- A step that gives one value only, whatever the budget. -/
def Settled {α : Type} (m : Import α) : Prop := ∀ a b, Yields m a → Yields m b → a = b

theorem Yields.of_bind {α β : Type} {m : Import α} {f : α → Import β} {b : β}
    (h : Yields (m >>= f) b) : ∃ a, Yields m a ∧ Yields (f a) b := by
  obtain ⟨budget, after, hrun⟩ := h
  obtain ⟨a, middle, hfirst, hsecond⟩ := Fallible.run_bind_eq_ok_iff.mp hrun
  exact ⟨a, ⟨budget, middle, hfirst⟩, middle, after, hsecond⟩

namespace Settled

variable {α β : Type}

theorem bind {m : Import α} {f : α → Import β} (hm : Settled m) (hf : ∀ a, Settled (f a)) :
    Settled (m >>= f) := by
  intro b b' hb hb'
  obtain ⟨a, ha, hb⟩ := hb.of_bind
  obtain ⟨a', ha', hb'⟩ := hb'.of_bind
  cases hm a a' ha ha'
  exact hf a b b' hb hb'

theorem unit (m : Import Unit) : Settled m := fun _ _ _ _ => rfl

theorem of_steady {m : Import α} (h : Steady m) : Settled m := by
  rintro a a' ⟨_, _, hrun⟩ ⟨_, _, hrun'⟩
  exact Except.ok.inj ((h.run_eq_ok_iff.mp hrun).1.symm.trans (h.run_eq_ok_iff.mp hrun').1)

theorem walk (segments : List String) (current : Found) :
    Settled (Portable.walk segments current) := by
  induction segments generalizing current with
  | nil => exact of_steady (.pure current)
  | cons segment rest ih => exact bind (of_steady (.object _)) fun _ => ih _

variable (root : List (String × Json))

theorem resolveFrom (fuel depth : Nat) (current : Found) (seen : List String) :
    Settled (Portable.resolveFrom root fuel depth current seen) := by
  induction fuel generalizing depth current seen with
  | zero =>
    rw [Portable.resolveFrom.eq_def]
    dsimp only
    cases refOf current with
    | none => exact of_steady (.pure _)
    | some ref => exact of_steady (.fail _)
  | succ fuel ih =>
    rw [Portable.resolveFrom.eq_def]
    dsimp only
    cases refOf current with
    | none => exact of_steady (.pure _)
    | some ref =>
      exact bind (unit _) fun _ => bind (unit _) fun _ => bind (unit _) fun _ =>
        bind (unit _) fun _ => bind (walk _ _) fun _ => ih _ _ _

theorem resolved (value : Option Json) : Settled (Portable.resolved root value) :=
  bind (resolveFrom root _ _ _ _) fun _ => of_steady (.pure _)

theorem resolvedObject (value : Option Json) : Settled (Portable.resolvedObject root value) :=
  bind (resolved root value) fun _ => of_steady (.object _)

end Settled

/-- Where an operation stands in a document: its path with what that has, and its method. -/
structure OperationSite where
  path : String
  pathItem : List (String × Json)
  method : String

/-- The operations of paths with these items: a method is one if the item has a value for it. -/
def sitesOf (paths : List (String × Json)) (items : List (List (String × Json))) :
    List OperationSite :=
  (paths.zip items).flatMap fun place =>
    (methods.filter fun method => truthy (Json.member? method place.2)).map fun method =>
      { path := place.1.1, pathItem := place.2, method := method }

/-- The operations of a document, in its order, with the references of its paths resolved. -/
def OperationSites (root : List (String × Json)) (sites : List OperationSite) : Prop :=
  ∃ paths items, orValue (Json.member? "paths" root) (some (.obj [])) = some (.obj paths) ∧
    List.Forall₂ (fun (entry : String × Json) item =>
      Yields (resolvedObject root (some entry.2)) item) paths items ∧
    sites = sitesOf paths items

/-- The URL of the first server of a document, if it names one. -/
def BaseUrl (platform : Platform) (root : List (String × Json)) (base : String) : Prop :=
  ∃ url, Yields (textOr platform (member "url" (itemsOf (Json.member? "servers" root)).head?) "")
      url ∧ base = expandOpenApiServerUrl url

/-- The parameters of its path and its own ones, with their references resolved. -/
structure OperationSite.HasParameters (root : List (String × Json)) (site : OperationSite)
    (shared own : List Found) : Prop where
  shared : List.Forall₂ (fun item found => Yields (resolved root (some item)) found)
    (itemsOf (Json.member? "parameters" site.pathItem)) shared
  own : ∃ members, Yields (resolvedObject root (Json.member? site.method site.pathItem)) members ∧
    List.Forall₂ (fun item found => Yields (resolved root (some item)) found)
      (itemsOf (Json.member? "parameters" members)) own

/-- The requests are those of the operations of a document, one for each in its order, and `P` is
true of the URL of the operation, that of its request, and the parameters of its path and its own
ones. -/
def RequestsOf (platform : Platform) (root : List (String × Json)) (requests : List Json)
    (P : String → String → List Found → List Found → Prop) : Prop :=
  ∃ base sites, BaseUrl platform root base ∧ OperationSites root sites ∧
    List.Forall₂ (fun (site : OperationSite) (request : Json) => ∃ url shared own,
      request.get "method" = some (.str (platform.toUpperCase site.method)) ∧
      request.get "url" = some (.str url) ∧ site.HasParameters root shared own ∧
      P (base ++ site.path) url shared own) sites requests

theorem forall₂_of_collect {α β : Type} {f : α → Import β} {items : List α} {results : List β}
    (h : Yields (collect f items) results) :
    List.Forall₂ (fun a b => Yields (f a) b) items results := by
  induction items generalizing results with
  | nil =>
    obtain ⟨budget, after, hrun⟩ := h
    cases hrun
    exact List.Forall₂.nil
  | cons a items ih =>
    rw [collect] at h
    obtain ⟨b, hb, h⟩ := h.of_bind
    obtain ⟨bs, hbs, ⟨_, _, hrun⟩⟩ := h.of_bind
    cases hrun
    exact List.Forall₂.cons hb (ih hbs)

theorem forall₂_append {α β : Type} {R : α → β → Prop} {items items' : List α}
    {results results' : List β} (h : List.Forall₂ R items results)
    (h' : List.Forall₂ R items' results') : List.Forall₂ R (items ++ items') (results ++ results') := by
  induction h with
  | nil => exact h'
  | cons hhead _ ih => exact List.Forall₂.cons hhead ih

theorem forall₂_append_left {α β : Type} {R : α → β → Prop} {items items' : List α}
    {results : List β} (h : List.Forall₂ R (items ++ items') results) :
    ∃ first second, List.Forall₂ R items first ∧ List.Forall₂ R items' second ∧
      results = first ++ second := by
  exact ⟨results.take items.length, results.drop items.length,
    (List.forall₂_take_append _ _ _ h.flip).flip, (List.forall₂_drop_append _ _ _ h.flip).flip,
    (List.take_append_drop _ _).symm⟩

theorem forall₂_unique {α β : Type} {R : α → β → Prop}
    (hunique : ∀ a b b', R a b → R a b' → b = b') {items : List α} {results others : List β}
    (h : List.Forall₂ R items results) (hothers : List.Forall₂ R items others) :
    results = others :=
  List.right_unique_forall₂' (fun a b b' => hunique a b b') h hothers

section Sites

variable {root : List (String × Json)} {site : OperationSite} {base : String}
  {vars : List (String × String)} {request : ImportedRequest}

theorem OperationSite.HasParameters.unique {shared' own' : List Found}
    (h : site.HasParameters root shared own) (h' : site.HasParameters root shared' own') :
    shared = shared' ∧ own = own' := by
  have hitems := fun item => Settled.resolved root (some item)
  obtain ⟨members, hmembers, hown⟩ := h.own
  obtain ⟨members', hmembers', hown'⟩ := h'.own
  cases Settled.resolvedObject root _ _ _ hmembers hmembers'
  exact ⟨forall₂_unique hitems h.shared h'.shared, forall₂_unique hitems hown hown'⟩

theorem OperationSites.unique {sites sites' : List OperationSite} (h : OperationSites root sites)
    (h' : OperationSites root sites') : sites = sites' := by
  obtain ⟨paths, items, hpaths, hitems, rfl⟩ := h
  obtain ⟨paths', items', hpaths', hitems', rfl⟩ := h'
  cases hpaths.symm.trans hpaths'
  have hunique := fun entry : String × Json => Settled.resolvedObject root (some entry.2)
  rw [forall₂_unique hunique hitems hitems']

theorem BaseUrl.unique {base' : String} (h : BaseUrl platform root base)
    (h' : BaseUrl platform root base') : base = base' := by
  obtain ⟨url, hurl, rfl⟩ := h
  obtain ⟨url', hurl', rfl⟩ := h'
  rw [Settled.of_steady (.textOr platform _ _) url url' hurl hurl']

/-- The request of an operation has its method, and behind its URL the query parameters of its path
and its own ones. -/
theorem request_of_operation
    (h : Yields (importOperation platform root base vars site.path site.pathItem site.method)
      request) :
    request.method = platform.toUpperCase site.method ∧
      ∃ shared own, site.HasParameters root shared own ∧
        ∃ names, QueryNames platform (shared ++ own) names ∧
          request.url = withQuery (base ++ site.path) names := by
  obtain ⟨_, _, himport⟩ := h.of_bind
  obtain ⟨members, hmembers, himport⟩ := himport.of_bind
  obtain ⟨parameters, hparameters, himport⟩ := himport.of_bind
  obtain ⟨texts, ⟨_, _, htexts⟩, himport⟩ := himport.of_bind
  obtain ⟨⟨names, hnames, rfl⟩, -⟩ := queryText_eq_ok_iff.mp htexts
  obtain ⟨shared, own, hshared, hown, hsplit⟩ :=
    forall₂_append_left (forall₂_of_collect hparameters)
  obtain ⟨_, _, himport⟩ := himport.of_bind
  obtain ⟨_, _, himport⟩ := himport.of_bind
  obtain ⟨_, _, himport⟩ := himport.of_bind
  obtain ⟨_, _, himport⟩ := himport.of_bind
  obtain ⟨_, _, budget, after, hrun⟩ := himport.of_bind
  have hrequest := (Except.ok.inj (congrArg Prod.fst hrun)).symm
  refine ⟨congrArg ImportedRequest.method hrequest, shared, own,
    ⟨hshared, members, hmembers, hown⟩, names, hsplit ▸ hnames, ?_⟩
  have hurl : (if names.map placeholder = [] then base ++ site.path
      else base ++ site.path ++ (if includes (base ++ site.path) "?" then "&" else "?") ++
        "&".intercalate (names.map placeholder)) = withQuery (base ++ site.path) names := by
    unfold withQuery
    simp only [List.map_eq_nil_iff]
  rw [← hurl]
  exact congrArg ImportedRequest.url hrequest

/-! ### Documents -/

/-- What is imported of paths are the requests of their operations. -/
theorem requests_of_paths {paths : List (String × Json)} {groups : List (List ImportedRequest)}
    (h : List.Forall₂ (fun entry group => Yields (importPath platform root base vars entry) group)
      paths groups) :
    ∃ items, List.Forall₂ (fun (entry : String × Json) item =>
        Yields (resolvedObject root (some entry.2)) item) paths items ∧
      List.Forall₂ (fun (site : OperationSite) request =>
        Yields (importOperation platform root base vars site.path site.pathItem site.method)
          request) (sitesOf paths items) groups.flatten := by
  induction h with
  | nil => exact ⟨[], List.Forall₂.nil, List.Forall₂.nil⟩
  | cons hpath _ ih =>
    obtain ⟨items, hitems, hrest⟩ := ih
    obtain ⟨item, hitem, hgroup⟩ := hpath.of_bind
    exact ⟨item :: items, List.Forall₂.cons hitem hitems,
      forall₂_append (List.forall₂_map_left_iff.mpr (forall₂_of_collect hgroup)) hrest⟩

theorem eq_of_yields_object {value : Option Json} {members : List (String × Json)}
    (h : Yields (object value) members) : value = some (.obj members) := by
  obtain ⟨budget, after, hrun⟩ := h
  cases value with
  | none => cases hrun
  | some value => rw [(object_eq_ok_iff.mp hrun).1]

theorem toJson_members (request : ImportedRequest) :
    request.toJson.get "method" = some (.str request.method) ∧
      request.toJson.get "url" = some (.str request.url) := by
  unfold ImportedRequest.toJson
  cases request.body <;> cases request.vars <;> exact ⟨rfl, rfl⟩

variable {requests : List Json} {P Q : String → String → List Found → List Found → Prop}

theorem RequestsOf.imp {sites : List OperationSite} (h : RequestsOf platform root requests P)
    (hsites : OperationSites root sites)
    (himp : ∀ site ∈ sites, ∀ url full shared own, site.HasParameters root shared own →
      P url full shared own → Q url full shared own) : RequestsOf platform root requests Q := by
  obtain ⟨base, sites', hbase, hsites', hrequests⟩ := h
  obtain rfl := hsites'.unique hsites
  refine ⟨base, sites', hbase, hsites', ?_⟩
  rw [List.forall₂_iff_zip] at hrequests ⊢
  refine ⟨hrequests.1, fun hmem => ?_⟩
  obtain ⟨url, shared, own, hmethod, hurl, hparameters, hP⟩ := hrequests.2 hmem
  exact ⟨url, shared, own, hmethod, hurl, hparameters,
    himp _ (List.of_mem_zip hmem).1 _ url shared own hparameters hP⟩

theorem RequestsOf.and (h : RequestsOf platform root requests P)
    (h' : RequestsOf platform root requests Q) :
    RequestsOf platform root requests fun url full shared own =>
      P url full shared own ∧ Q url full shared own := by
  obtain ⟨base, sites, hbase, hsites, hrequests⟩ := h
  obtain ⟨base', sites', hbase', hsites', hrequests'⟩ := h'
  cases hbase.unique hbase'
  cases hsites.unique hsites'
  refine ⟨base, sites, hbase, hsites, hrequests.mp ?_ hrequests'⟩
  rintro site request ⟨url, shared, own, hmethod, hurl, hparameters, hP⟩
    ⟨url', shared', own', -, hurl', hparameters', hQ⟩
  cases hurl.symm.trans hurl'
  obtain ⟨rfl, rfl⟩ := hparameters.unique hparameters'
  exact ⟨url, shared, own, hmethod, hurl, hparameters, hP, hQ⟩

theorem requests_of_document {result : ImportResult}
    (h : Yields (importOpenApi platform root) result) :
    RequestsOf platform root result.requests fun url full shared own =>
      ∃ names, QueryNames platform (shared ++ own) names ∧ full = withQuery url names := by
  obtain ⟨vars, _, himport⟩ := h.of_bind
  obtain ⟨url, hurl, himport⟩ := himport.of_bind
  obtain ⟨paths, hpaths, himport⟩ := himport.of_bind
  obtain ⟨groups, hgroups, himport⟩ := himport.of_bind
  obtain ⟨_, _, budget, after, hrun⟩ := himport.of_bind
  cases hrun
  obtain ⟨items, hitems, hrequests⟩ := requests_of_paths (forall₂_of_collect hgroups)
  refine ⟨_, sitesOf paths items, ⟨url, hurl, rfl⟩, ⟨paths, items, ?_, hitems, rfl⟩,
    List.forall₂_map_right_iff.mpr (hrequests.imp fun site request hrequest => ?_)⟩
  · exact eq_of_yields_object hpaths
  · obtain ⟨hmethod, shared, own, hparameters, hquery⟩ := request_of_operation hrequest
    exact ⟨request.url, shared, own, hmethod ▸ (toJson_members request).1,
      (toJson_members request).2, hparameters, hquery⟩

end Sites

/-- The requests of a document that is imported are those of its operations, and the URL of each has
every effective query parameter once exactly when no two query parameters of the path and the
operation have one name; and what is kept of a list of headers are the enabled ones exactly when
they agree. -/
theorem imported_lists (platform : Platform) :
    (∀ (root : List (String × Json)) (result : ImportResult),
      Yields (importOpenApi platform root) result →
      RequestsOf platform root result.requests fun url full shared own =>
        (ExactQuery platform url full shared own ↔ DistinctQuery platform (shared ++ own))) ∧
    ∀ (items : List Json) (entries : List (String × String)),
      Yields (headerMap platform (some (.arr items))) entries →
        (ExactHeaders platform items entries ↔ HeadersAgree platform items) := by
  constructor
  · intro root result hresult
    have hrequests := requests_of_document hresult
    obtain ⟨_, _, _, hsites, _⟩ := id hrequests
    refine hrequests.imp hsites fun _ _ url full shared own _ hquery => ?_
    obtain ⟨names, hnames, rfl⟩ := hquery
    exact exactQuery_withQuery_iff hnames
  · rintro items entries ⟨budget, after, hrun⟩
    exact exactHeaders_iff hrun

/-! ### A document and its headers -/

def queryParameter (name : String) : Json := .obj [("name", .str name), ("in", .str "query")]

/-- A path with the query parameter `x`, and an operation with one of its own. -/
def samplePath (name : String) : List (String × Json) :=
  [("parameters", .arr [queryParameter "x"]),
    ("get", .obj [("parameters", .arr [queryParameter name])])]

def sampleDocument (name : String) : List (String × Json) :=
  [("paths", .obj [("/a", .obj (samplePath name))])]

theorem sampleDocument_sites (name : String) :
    OperationSites (sampleDocument name) [⟨"/a", samplePath name, "get"⟩] :=
  ⟨[("/a", .obj (samplePath name))], [samplePath name], rfl,
    List.Forall₂.cons ⟨createBudget, createBudget, rfl⟩ List.Forall₂.nil, rfl⟩

theorem sampleDocument_parameters (name : String) :
    OperationSite.HasParameters (sampleDocument name) ⟨"/a", samplePath name, "get"⟩
      [.own (queryParameter "x")] [.own (queryParameter name)] := by
  have hresolved : ∀ name', Yields (resolved (sampleDocument name) (some (queryParameter name')))
      (.own (queryParameter name')) := fun name' => ⟨createBudget, createBudget, rfl⟩
  exact ⟨List.Forall₂.cons (hresolved "x") List.Forall₂.nil, _,
    ⟨createBudget, createBudget, rfl⟩, List.Forall₂.cons (hresolved name) List.Forall₂.nil⟩

theorem sampleDocument_distinct {name : String} :
    DistinctQuery .ascii [.own (queryParameter "x"), .own (queryParameter name)] ↔ name ≠ "x" := by
  have hnamed : ∀ name' other, NamedAt .ascii (.own (queryParameter name')) other (.str "query") ↔
      name' = other := by
    intro name' other
    have hself : NamedAt .ascii (.own (queryParameter name')) name' (.str "query") :=
      ⟨queryParameter name', rfl, rfl, rfl, rfl⟩
    exact ⟨fun h => (hself.unique h).1, fun h => h ▸ hself⟩
  simp [DistinctQuery, hnamed]

theorem sampleDocument_imported (name : String)
    (h : ((importOpenApi .ascii (sampleDocument name)).run createBudget).1.toOption.isSome = true) :
    ∃ result, Yields (importOpenApi .ascii (sampleDocument name)) result := by
  cases hrun : (importOpenApi .ascii (sampleDocument name)).run createBudget with
  | mk outcome after =>
    rw [hrun] at h
    cases outcome with
    | error message => cases h
    | ok result => exact ⟨result, createBudget, after, hrun⟩

/-- The header `a`, with its name under either key. -/
def sampleHeader (key : String) (disabled : Bool) : Json :=
  .obj [(key, .str "a"), ("value", .str "1"), ("disabled", .bool disabled)]

theorem sampleHeaders_agree :
    HeadersAgree .ascii [sampleHeader "key" false, sampleHeader "name" true] where
  agree := by
    intro item hitem other hother henabled henabled' entry entry' hentry hentry' _
    rcases List.mem_pair.mp hitem with rfl | rfl
    · rcases List.mem_pair.mp hother with rfl | rfl
      · exact hentry.unique hentry'
      · exact absurd henabled' (by decide)
    · exact absurd henabled (by decide)
  disabled := by
    intro before item after hsplit hdisabled
    have hcounts : [sampleHeader "key" false, sampleHeader "name" true].filter isHeaderEntry =
        [sampleHeader "key" false] := by decide
    have hitem : item ∈ [sampleHeader "key" false] := by
      rw [← hcounts, hsplit]
      exact List.mem_append_right before List.mem_cons_self
    cases List.mem_singleton.mp hitem
    exact absurd hdisabled (by decide)

/-- A parameter of the path and one of the operation are in the URL once, and of two headers the
enabled one is kept. -/
theorem imported_lists_document :
    (∃ result, Yields (importOpenApi .ascii (sampleDocument "y")) result ∧
      RequestsOf .ascii (sampleDocument "y") result.requests (ExactQuery .ascii)) ∧
    ExactHeaders .ascii [sampleHeader "key" false, sampleHeader "name" true] [("a", "1")] := by
  refine ⟨?_, ?_⟩
  · obtain ⟨result, hresult⟩ := sampleDocument_imported "y" (by decide +kernel)
    refine ⟨result, hresult, ((imported_lists .ascii).1 _ result hresult).imp
      (sampleDocument_sites "y") fun site hsite url full shared own hparameters hexact => ?_⟩
    cases List.mem_singleton.mp hsite
    obtain ⟨rfl, rfl⟩ := hparameters.unique (sampleDocument_parameters "y")
    exact hexact.mpr (sampleDocument_distinct.mpr (by decide))
  · exact ((imported_lists .ascii).2 _ _ ⟨createBudget, createBudget, rfl⟩).mpr sampleHeaders_agree

/-- A parameter of the path that the operation has again is in the URL twice, and a disabled header
with a `key` is kept. -/
theorem imported_lists_not :
    (¬∀ (platform : Platform) (root : List (String × Json)) (result : ImportResult),
      Yields (importOpenApi platform root) result →
        RequestsOf platform root result.requests (ExactQuery platform)) ∧
    ¬∀ (platform : Platform) (items : List Json) (entries : List (String × String)),
      Yields (headerMap platform (some (.arr items))) entries →
        ExactHeaders platform items entries := by
  constructor
  · intro h
    obtain ⟨result, hresult⟩ := sampleDocument_imported "x" (by decide +kernel)
    have hboth := (requests_of_document hresult).and (h .ascii _ result hresult)
    obtain ⟨_, sites, _, hsites, hrequests⟩ := id hboth
    cases hsites.unique (sampleDocument_sites "x")
    obtain ⟨request, _, hrequest, _, _⟩ := List.forall₂_cons_left_iff.mp hrequests
    obtain ⟨url, shared, own, _, _, hparameters, hquery, hexact⟩ := hrequest
    obtain ⟨rfl, rfl⟩ := hparameters.unique (sampleDocument_parameters "x")
    obtain ⟨names, hnames, rfl⟩ := hquery
    exact sampleDocument_distinct.mp ((exactQuery_withQuery_iff hnames).mp hexact) rfl
  · intro h
    have hkept := (h .ascii [sampleHeader "key" true] [("a", "1")]
      ⟨createBudget, createBudget, rfl⟩ ("a", "1")).mp List.mem_cons_self
    obtain ⟨item, hitem, henabled, -⟩ := hkept
    cases List.mem_singleton.mp hitem
    exact absurd henabled (by decide)

end Parameters

end ApiVoy.Portable
