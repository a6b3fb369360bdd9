/-
# Replacing parts of a text by a mask

One after another, the parts are replaced wherever they occur. When no part touches another one or
the mask, this is the same as replacing all of them in one pass, so that the order of the parts
does not matter and none of them is left.
-/

import Mathlib.Data.List.Infix

namespace ApiVoy.Foundation

variable {α : Type}

/-! ## Passes -/

section Passes

variable [DecidableEq α]

/-- Replace the parts from left to right, after the items that are still to skip. -/
def maskFrom (parts : List (List α)) (mask : List α) : Nat → List α → List α
  | _, [] => []
  | skip + 1, _ :: rest => maskFrom parts mask skip rest
  | 0, c :: rest =>
    match parts.find? fun part => part.isPrefixOf (c :: rest) with
    | some part => mask ++ maskFrom parts mask (part.length - 1) rest
    | none => c :: maskFrom parts mask 0 rest

/-- Replace several parts in one pass. -/
def maskAll (parts : List (List α)) (mask text : List α) : List α := maskFrom parts mask 0 text

def replaceAll (part mask text : List α) : List α := maskAll [part] mask text

theorem maskFrom_eq_drop (parts : List (List α)) (mask : List α) (skip : Nat) (text : List α) :
    maskFrom parts mask skip text = maskAll parts mask (text.drop skip) := by
  induction text generalizing skip with
  | nil => cases skip <;> rfl
  | cons c rest ih =>
    cases skip with
    | zero => rfl
    | succ skip => exact ih skip

variable {parts : List (List α)} {mask : List α}

@[simp]
theorem maskAll_nil (parts : List (List α)) (mask : List α) : maskAll parts mask [] = [] := rfl

/-- An item at which no part begins stays. -/
theorem maskAll_cons {c : α} {rest : List α} (h : ∀ part ∈ parts, ¬part <+: c :: rest) :
    maskAll parts mask (c :: rest) = c :: maskAll parts mask rest := by
  have hnone : (parts.find? fun part => part.isPrefixOf (c :: rest)) = none :=
    List.find?_eq_none.mpr fun part hpart => by
      rw [List.isPrefixOf_iff_prefix]
      exact h part hpart
  rw [maskAll, maskFrom, hnone]
  rfl

/-- A part that begins the text is replaced. -/
theorem maskAll_append {part : List α} (hpart : part ∈ parts) (hne : part ≠ []) {rest : List α}
    (hunique : ∀ other ∈ parts, other <+: part ++ rest → other = part) :
    maskAll parts mask (part ++ rest) = mask ++ maskAll parts mask rest := by
  obtain ⟨c, tail, rfl⟩ := List.exists_cons_of_ne_nil hne
  have hsome : (parts.find? fun part => part.isPrefixOf (c :: (tail ++ rest))) =
      some (c :: tail) := by
    cases hfind : parts.find? fun part => part.isPrefixOf (c :: (tail ++ rest)) with
    | none =>
      have hnot := List.find?_eq_none.mp hfind _ hpart
      rw [List.isPrefixOf_iff_prefix] at hnot
      exact absurd ⟨rest, rfl⟩ hnot
    | some found =>
      have hfound := List.find?_some hfind
      rw [List.isPrefixOf_iff_prefix] at hfound
      rw [hunique found (List.mem_of_find?_eq_some hfind) hfound]
  rw [List.cons_append, maskAll, maskFrom, hsome]
  dsimp only
  rw [maskFrom_eq_drop, List.length_cons, Nat.add_sub_cancel, List.drop_left]

/-- A stretch in which no part begins stays. -/
theorem maskAll_append_of_not {stretch rest : List α}
    (h : ∀ begun, begun ≠ [] → begun <:+ stretch → ∀ part ∈ parts, ¬part <+: begun ++ rest) :
    maskAll parts mask (stretch ++ rest) = stretch ++ maskAll parts mask rest := by
  induction stretch with
  | nil => rfl
  | cons c stretch ih =>
    have hc : maskAll parts mask (c :: (stretch ++ rest)) = _ :=
      maskAll_cons (h (c :: stretch) (List.cons_ne_nil _ _) List.suffix_rfl)
    refine hc.trans (congrArg (c :: ·) (ih fun begun hne hsuffix => ?_))
    exact h begun hne (hsuffix.trans (List.suffix_cons c stretch))

theorem maskAll_of_not_within {text : List α} (h : ∀ part ∈ parts, ¬part <:+: text) :
    maskAll parts mask text = text := by
  have hstay : maskAll parts mask (text ++ []) = text ++ maskAll parts mask [] :=
    maskAll_append_of_not fun begun _ hsuffix part hpart hbegins => h part hpart (by
      rw [List.append_nil] at hbegins
      exact hbegins.isInfix.trans hsuffix.isInfix)
  simpa using hstay

/-! ## One replacement -/

/-- Put something in the place where a part occurs first. -/
def replaceFirst (part replacement : List α) : List α → List α
  | [] => if part = [] then replacement else []
  | c :: rest =>
    if part.isPrefixOf (c :: rest) then replacement ++ (c :: rest).drop part.length
    else c :: replaceFirst part replacement rest

/-- A part that begins the text is replaced there. -/
theorem replaceFirst_append {part : List α} (hne : part ≠ []) (replacement rest : List α) :
    replaceFirst part replacement (part ++ rest) = replacement ++ rest := by
  cases part with
  | nil => exact absurd rfl hne
  | cons c tail =>
    have hbegins : (c :: tail).isPrefixOf (c :: (tail ++ rest)) = true :=
      List.isPrefixOf_iff_prefix.mpr (List.prefix_append (c :: tail) rest)
    rw [List.cons_append, replaceFirst, if_pos hbegins, List.length_cons, List.drop_succ_cons,
      List.drop_left]

variable (replacement : List α)

/-- A stretch in which the part does not begin stays. -/
theorem replaceFirst_append_of_not {part stretch rest : List α}
    (h : ∀ begun, begun ≠ [] → begun <:+ stretch → ¬part <+: begun ++ rest) :
    replaceFirst part replacement (stretch ++ rest) =
      stretch ++ replaceFirst part replacement rest := by
  induction stretch with
  | nil => rfl
  | cons c stretch ih =>
    have hnot : ¬part.isPrefixOf (c :: (stretch ++ rest)) = true := by
      rw [List.isPrefixOf_iff_prefix]
      exact h (c :: stretch) (List.cons_ne_nil _ _) List.suffix_rfl
    rw [List.cons_append, replaceFirst, if_neg hnot, ih fun begun hbegun hsuffix =>
      h begun hbegun (hsuffix.trans (List.suffix_cons c stretch)), List.cons_append]

/-- Without the part the text stays. -/
theorem replaceFirst_of_not_within {part text : List α} (h : ¬part <:+: text) :
    replaceFirst part replacement text = text := by
  induction text with
  | nil => exact if_neg fun hnil => h (by rw [hnil])
  | cons c text ih =>
    have hnot : ¬part.isPrefixOf (c :: text) = true := by
      rw [List.isPrefixOf_iff_prefix]
      exact fun hbegins => h hbegins.isInfix
    rw [replaceFirst, if_neg hnot, ih fun hwithin => h (hwithin.trans
      (List.suffix_cons c text).isInfix)]

end Passes

/-! ## Parts that do not touch -/

/-- The end of one text is the beginning of another one. -/
def Overlaps (first second : List α) : Prop := ∃ shared, shared ≠ [] ∧ shared <:+ first ∧
  shared <+: second

/-- Neither text contains the other one, or ends as the other one begins. -/
structure Apart (first second : List α) : Prop where
  not_within : ¬first <:+: second
  not_within' : ¬second <:+: first
  not_overlaps : ¬Overlaps first second
  not_overlaps' : ¬Overlaps second first

/-- No part begins inside a text that it does not touch. -/
theorem Apart.not_begins {part stretch begun rest : List α} (h : Apart part stretch)
    (hne : begun ≠ []) (hsuffix : begun <:+ stretch) : ¬part <+: begun ++ rest := by
  intro hbegins
  rcases List.prefix_or_prefix_of_prefix hbegins (List.prefix_append begun rest) with hle | hle
  · exact h.not_within (hle.isInfix.trans hsuffix.isInfix)
  · exact h.not_overlaps' ⟨begun, hne, hsuffix, hle⟩

/-- No part touches another one or the mask. -/
structure Separated (mask : List α) (parts : List (List α)) : Prop where
  mask : ∀ part ∈ parts, Apart part mask
  parts : ∀ first ∈ parts, ∀ second ∈ parts, first ≠ second → Apart first second

namespace Separated

variable {mask : List α} {parts : List (List α)}

theorem ne_nil (h : Separated mask parts) {part : List α} (hpart : part ∈ parts) : part ≠ [] := by
  rintro rfl
  exact (h.mask [] hpart).not_within List.nil_infix

/-- At most one part begins a text. -/
theorem unique (h : Separated mask parts) {first second text : List α} (hfirst : first ∈ parts)
    (hsecond : second ∈ parts) (hbegins : first <+: text) (hbegins' : second <+: text) :
    first = second := by
  by_contra hne
  have hapart := h.parts first hfirst second hsecond hne
  rcases List.prefix_or_prefix_of_prefix hbegins hbegins' with hle | hle
  · exact hapart.not_within hle.isInfix
  · exact hapart.not_within' hle.isInfix

theorem subset {parts' : List (List α)} (h : Separated mask parts) (hsubset : parts' ⊆ parts) :
    Separated mask parts' :=
  ⟨fun part hpart => h.mask part (hsubset hpart),
    fun first hfirst second hsecond => h.parts first (hsubset hfirst) second (hsubset hsecond)⟩

end Separated

/-- A text is read part by part, and item by item where no part begins. -/
theorem parts_induction {parts : List (List α)} (hne : ∀ part ∈ parts, part ≠ [])
    {P : List α → Prop} (nil : P [])
    (part : ∀ part ∈ parts, ∀ rest, P rest → P (part ++ rest))
    (item : ∀ c rest, (∀ part ∈ parts, ¬part <+: c :: rest) → P rest → P (c :: rest))
    (text : List α) : P text := by
  induction hlength : text.length using Nat.strong_induction_on generalizing text with
  | _ n ih =>
    subst hlength
    cases text with
    | nil => exact nil
    | cons c rest =>
      by_cases hbegins : ∃ part ∈ parts, part <+: c :: rest
      · obtain ⟨first, hfirst, behind, hbehind⟩ := hbegins
        have hpos := List.length_pos_iff.mpr (hne first hfirst)
        have hlength := congrArg List.length hbehind
        rw [List.length_append] at hlength
        rw [← hbehind]
        exact part first hfirst behind (ih _ (by omega) behind rfl)
      · refine item c rest (fun first hfirst h => hbegins ⟨first, hfirst, h⟩) ?_
        exact ih _ (Nat.lt_succ_self _) rest rfl

/-- A part that does not touch a text does not begin in it. -/
theorem Apart.infix_of_append {part stretch rest : List α} (h : Apart part stretch)
    (hwithin : part <:+: stretch ++ rest) : part <:+: rest := by
  have hall (begun : List α) (hsuffix : begun <:+ stretch) (hwithin : part <:+: begun ++ rest) :
      part <:+: rest := by
    induction begun with
    | nil => exact hwithin
    | cons c begun ih =>
      rcases List.infix_cons_iff.mp hwithin with hbegins | hwithin
      · exact absurd hbegins (h.not_begins (List.cons_ne_nil _ _) hsuffix)
      · exact ih ((List.suffix_cons c begun).trans hsuffix) hwithin
  exact hall stretch List.suffix_rfl hwithin

section Sequences

variable [DecidableEq α] {mask : List α} {parts : List (List α)}

variable {part : List α}

theorem Separated.maskAll_part (h : Separated mask parts) (hpart : part ∈ parts) (rest : List α) :
    maskAll parts mask (part ++ rest) = mask ++ maskAll parts mask rest :=
  maskAll_append hpart (h.ne_nil hpart) fun _ hother hbegins =>
    h.unique hother hpart hbegins (List.prefix_append part rest)

/-- The end of a part that begins the text with its parts replaced begins the text. -/
theorem Separated.prefix_of_prefix_maskAll (h : Separated mask parts) (hpart : Apart part mask)
    {text rear : List α} (hrear : rear <:+ part) (hbegins : rear <+: maskAll parts mask text) :
    rear <+: text := by
  induction text using parts_induction (fun _ => h.ne_nil) generalizing rear with
  | nil => exact hbegins
  | part first hfirst rest ih =>
    rw [h.maskAll_part hfirst] at hbegins
    by_cases hnil : rear = []
    · rw [hnil]
      exact List.nil_prefix
    · rcases List.prefix_or_prefix_of_prefix hbegins (List.prefix_append mask _) with hle | hle
      · exact absurd ⟨rear, hnil, hrear, hle⟩ hpart.not_overlaps
      · exact absurd (hle.isInfix.trans hrear.isInfix) hpart.not_within'
  | item c rest hnone ih =>
    rw [maskAll_cons hnone] at hbegins
    obtain rfl | ⟨rear, rfl, hrest⟩ := List.prefix_cons_iff.mp hbegins
    · exact List.nil_prefix
    · exact (List.prefix_cons_inj c).mpr (ih ((List.suffix_cons c rear).trans hrear) hrest)

theorem Separated.not_infix_maskAll (h : Separated mask parts) (hpart : part ∈ parts)
    (text : List α) : ¬part <:+: maskAll parts mask text := by
  induction text using parts_induction (fun _ => h.ne_nil) with
  | nil => exact fun hwithin => h.ne_nil hpart (List.infix_nil.mp hwithin)
  | part first hfirst rest ih =>
    rw [h.maskAll_part hfirst]
    exact fun hwithin => ih ((h.mask part hpart).infix_of_append hwithin)
  | item c rest hnone ih =>
    intro hwithin
    have hstay : maskAll parts mask (c :: rest) = _ := maskAll_cons hnone
    rw [hstay] at hwithin
    rcases List.infix_cons_iff.mp hwithin with hbegins | hwithin
    · rw [← hstay] at hbegins
      exact hnone part hpart
        (h.prefix_of_prefix_maskAll (h.mask part hpart) List.suffix_rfl hbegins)
    · exact ih hwithin

/-- The order of the parts does not matter, and neither do repetitions. -/
theorem Separated.maskAll_congr {parts' : List (List α)} (h : Separated mask parts)
    (hmem : ∀ part, part ∈ parts ↔ part ∈ parts') (text : List α) :
    maskAll parts mask text = maskAll parts' mask text := by
  have h' : Separated mask parts' := h.subset fun part hpart => (hmem part).mpr hpart
  induction text using parts_induction (fun _ => h.ne_nil) with
  | nil => rfl
  | part first hfirst rest ih =>
    rw [h.maskAll_part hfirst, h'.maskAll_part ((hmem first).mp hfirst), ih]
  | item c rest hnone ih =>
    rw [maskAll_cons hnone, maskAll_cons fun part hpart => hnone part ((hmem part).mpr hpart), ih]

/-- Replacing one more part behind the others is replacing it with them. -/
theorem replaceAll_maskAll (h : Separated mask (part :: parts)) (hnew : part ∉ parts)
    (text : List α) :
    replaceAll part mask (maskAll parts mask text) = maskAll (part :: parts) mask text := by
  have hparts : Separated mask parts := h.subset (List.subset_cons_self part parts)
  have hone : Separated mask [part] := h.subset fun other hother =>
    List.mem_singleton.mp hother ▸ List.mem_cons_self
  have hmask := h.mask part List.mem_cons_self
  have hlone := List.mem_singleton_self part
  induction text using parts_induction (fun _ => h.ne_nil) with
  | nil => rfl
  | part first hfirst rest ih =>
    rw [h.maskAll_part hfirst, ← ih]
    rcases List.mem_cons.mp hfirst with rfl | hfirst
    · rw [maskAll_append_of_not fun begun hne hrear other hother =>
        (h.parts other (List.mem_cons_of_mem _ hother) first List.mem_cons_self
          fun heq => hnew (heq ▸ hother)).not_begins hne hrear]
      exact hone.maskAll_part hlone _
    · rw [hparts.maskAll_part hfirst]
      exact maskAll_append_of_not fun begun hne hrear other hother =>
        List.mem_singleton.mp hother ▸ hmask.not_begins hne hrear
  | item c rest hnone ih =>
    have hstay : maskAll parts mask (c :: rest) = _ := maskAll_cons fun other hother =>
      hnone other (List.mem_cons_of_mem _ hother)
    rw [maskAll_cons hnone, ← ih, hstay]
    refine maskAll_cons fun other hother hbegins => ?_
    rw [List.mem_singleton.mp hother, ← hstay] at hbegins
    exact hnone part List.mem_cons_self
      (hparts.prefix_of_prefix_maskAll hmask List.suffix_rfl hbegins)

/-- Replace one part after another. -/
def replaceEach (parts : List (List α)) (mask text : List α) : List α :=
  parts.foldl (fun text part => replaceAll part mask text) text

/-- Parts that do not touch are replaced one after another as in one pass. -/
theorem Separated.replaceEach_eq_maskAll (h : Separated mask parts) (text : List α) :
    replaceEach parts mask text = maskAll parts mask text := by
  induction parts using List.reverseRecOn with
  | nil => exact (maskAll_of_not_within fun _ hpart => absurd hpart List.not_mem_nil).symm
  | append_singleton parts part ih =>
    have hparts := h.subset (List.subset_append_left parts [part])
    rw [replaceEach, List.foldl_append]
    change replaceAll part mask (replaceEach parts mask text) = _
    rw [ih hparts]
    by_cases hmem : part ∈ parts
    · rw [replaceAll, maskAll_of_not_within fun other hother =>
        List.mem_singleton.mp hother ▸ hparts.not_infix_maskAll hmem text]
      refine hparts.maskAll_congr (fun other => ?_) text
      rw [List.mem_append, List.mem_singleton]
      exact ⟨.inl, fun hother => hother.elim id fun heq => heq ▸ hmem⟩
    · have hall : ∀ other, other ∈ parts ++ [part] ↔ other ∈ part :: parts := by
        simp [or_comm]
      have h' : Separated mask (part :: parts) := h.subset fun other hother =>
        (hall other).mpr hother
      rw [replaceAll_maskAll h' hmem]
      exact (h.maskAll_congr hall text).symm

end Sequences

end ApiVoy.Foundation
