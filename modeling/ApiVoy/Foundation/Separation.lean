/-
# Parts that must not touch

Replacing parts one after another can be relied on when no part is left, whatever the text, and
the order of the parts does not matter. For a mask that repeats one item, and parts that are
larger than the mask, this is so only when no part touches another one or the mask: wherever two
of them touch there is a text on which the replacing fails.
-/

import ApiVoy.Foundation.Replacing
import Mathlib.Algebra.GroupWithZero.Nat
import Mathlib.Data.Nat.Find

namespace ApiVoy.Foundation

variable {α : Type}

/-! ## Leftmost occurrences -/

/-- A part that occurs in a text occurs in it first somewhere. -/
theorem exists_leftmost {part text : List α} (h : part <:+: text) :
    ∃ before behind, text = before ++ part ++ behind ∧
      ∀ begun, begun ≠ [] → begun <:+ before → ¬part <+: begun ++ (part ++ behind) := by
  induction text with
  | nil => exact ⟨[], [], by rw [List.infix_nil.mp h]; rfl, fun begun hne hrear =>
    absurd (List.suffix_nil.mp hrear) hne⟩
  | cons c text ih =>
    by_cases hbegins : part <+: c :: text
    · obtain ⟨behind, hbehind⟩ := hbegins
      exact ⟨[], behind, hbehind.symm, fun begun hne hrear =>
        absurd (List.suffix_nil.mp hrear) hne⟩
    · obtain ⟨before, behind, rfl, hfirst⟩ := ih ((List.infix_cons_iff.mp h).resolve_left hbegins)
      refine ⟨c :: before, behind, rfl, fun begun hne hrear => ?_⟩
      rcases List.suffix_cons_iff.mp hrear with rfl | hrear
      · simpa using hbegins
      · exact hfirst begun hne hrear

section Replacing

variable [DecidableEq α] {mask part : List α}

variable {text : List α}

theorem replaceAll_of_not_within (h : ¬part <:+: text) : replaceAll part mask text = text :=
  maskAll_of_not_within fun _ hother => List.mem_singleton.mp hother ▸ h

/-- The first occurrence of a part is replaced. -/
theorem replaceAll_append (hne : part ≠ []) {before : List α} (behind : List α)
    (hfirst : ∀ begun, begun ≠ [] → begun <:+ before → ¬part <+: begun ++ (part ++ behind)) :
    replaceAll part mask (before ++ (part ++ behind)) =
      before ++ (mask ++ replaceAll part mask behind) := by
  rw [replaceAll, maskAll_append_of_not fun begun hbegun hrear other hother =>
    List.mem_singleton.mp hother ▸ hfirst begun hbegun hrear]
  exact congrArg (before ++ ·) (maskAll_append (List.mem_singleton_self part) hne
    fun other hother _ => List.mem_singleton.mp hother)

theorem replaceAll_append_left (hne : part ≠ []) (rest : List α) :
    replaceAll part mask (part ++ rest) = mask ++ replaceAll part mask rest :=
  replaceAll_append hne rest fun _ hbegun hrear => absurd (List.suffix_nil.mp hrear) hbegun

theorem replaceAll_self (hne : part ≠ []) : replaceAll part mask part = mask := by
  have hreplaced : replaceAll part mask (part ++ []) = _ := replaceAll_append_left hne []
  rw [List.append_nil] at hreplaced
  rw [hreplaced]
  exact List.append_nil mask

theorem replaceAll_eq_nil_iff (hne : part ≠ []) (hmask : mask ≠ []) :
    replaceAll part mask text = [] ↔ text = [] := by
  refine ⟨fun h => ?_, by rintro rfl; rfl⟩
  by_cases hwithin : part <:+: text
  · obtain ⟨before, behind, rfl, hfirst⟩ := exists_leftmost hwithin
    rw [List.append_assoc, replaceAll_append hne behind hfirst] at h
    simp [hmask] at h
  · rwa [replaceAll_of_not_within hwithin] at h

/-- Only the part itself is replaced by the mask alone. -/
theorem eq_of_replaceAll_eq_mask (hne : part ≠ []) (hmask : mask ≠ []) (hwithin : part <:+: text)
    (h : replaceAll part mask text = mask) : text = part := by
  obtain ⟨before, behind, rfl, hfirst⟩ := exists_leftmost hwithin
  rw [List.append_assoc, replaceAll_append hne behind hfirst] at h
  have hlength := congrArg List.length h
  rw [List.length_append, List.length_append] at hlength
  have hbefore : before = [] := List.length_eq_zero_iff.mp (by omega)
  have hbehind : replaceAll part mask behind = [] := List.length_eq_zero_iff.mp (by omega)
  rw [replaceAll_eq_nil_iff hne hmask] at hbehind
  simp [hbefore, hbehind]

/-- A mask is left where a part has been. -/
theorem mask_infix_replaceAll (hne : part ≠ []) (hwithin : part <:+: text) :
    mask <:+: replaceAll part mask text := by
  obtain ⟨before, behind, rfl, hfirst⟩ := exists_leftmost hwithin
  rw [List.append_assoc, replaceAll_append hne behind hfirst]
  exact ⟨before, _, List.append_assoc _ _ _⟩

end Replacing

/-! ## Sizes -/

/-- The size of a text, by the sizes of its items. -/
def size (weight : α → Nat) (text : List α) : Nat := (text.map weight).sum

@[simp]
theorem size_append (weight : α → Nat) (first second : List α) :
    size weight (first ++ second) = size weight first + size weight second := by
  rw [size, List.map_append, List.sum_append]
  rfl

section Sizes

variable [DecidableEq α] {weight : α → Nat} {mask part : List α}

theorem size_replaceAll_le (hne : part ≠ []) (hlarge : size weight mask < size weight part)
    (text : List α) : size weight (replaceAll part mask text) ≤ size weight text := by
  have hall : ∀ other ∈ [part], other ≠ [] := fun _ h => List.mem_singleton.mp h ▸ hne
  induction text using parts_induction hall with
  | nil => exact le_rfl
  | part first hfirst rest ih =>
    rw [List.mem_singleton.mp hfirst]
    rw [replaceAll_append_left hne, size_append, size_append]
    omega
  | item c rest hnone ih =>
    rw [replaceAll, maskAll_cons hnone]
    rw [replaceAll] at ih
    rw [size, size, List.map_cons, List.map_cons, List.sum_cons, List.sum_cons]
    exact Nat.add_le_add_left ih _

theorem size_replaceAll_lt (hne : part ≠ []) (hlarge : size weight mask < size weight part)
    {text : List α} (hwithin : part <:+: text) :
    size weight (replaceAll part mask text) < size weight text := by
  obtain ⟨before, behind, rfl, hfirst⟩ := exists_leftmost hwithin
  have hrest := size_replaceAll_le hne hlarge behind
  rw [List.append_assoc, replaceAll_append hne behind hfirst]
  simp only [size_append]
  omega

end Sizes

/-! ## Repeated items -/

section Repeated

variable {c : α} {n : Nat} {part rest : List α}

/-- What occurs in a repeated item with a text behind it. -/
theorem infix_replicate_append (h : part <:+: List.replicate n c ++ rest) : part <:+: rest ∨
      part <:+: List.replicate n c ∨ ∃ i first, 0 < i ∧ first ≠ [] ∧ first <+: rest ∧
        part = List.replicate i c ++ first := by
  induction n with
  | zero => exact .inl h
  | succ n ih =>
    rw [List.replicate_succ, List.cons_append] at h
    rcases List.infix_cons_iff.mp h with hbegins | hwithin
    · rw [← List.cons_append, ← List.replicate_succ] at hbegins
      rcases List.prefix_or_prefix_of_prefix hbegins (List.prefix_append _ rest) with hle | hle
      · exact .inr (.inl hle.isInfix)
      · obtain ⟨first, rfl⟩ := hle
        by_cases hnil : first = []
        · subst hnil
          exact .inr (.inl (by rw [List.append_nil]))
        · exact .inr (.inr ⟨n + 1, first, Nat.succ_pos n, hnil,
            List.prefix_append_right_inj _ |>.mp hbegins, rfl⟩)
    · rcases ih hwithin with hrest | hrepeated | hmixed
      · exact .inl hrest
      · exact .inr (.inl (hrepeated.trans (by
          rw [List.replicate_succ]
          exact (List.suffix_cons c _).isInfix)))
      · exact .inr (.inr hmixed)

/-- A text without the first items that repeat another one. -/
theorem exists_replicate_append (c : α) (text : List α) : ∃ i rest,
    text = List.replicate i c ++ rest ∧ rest.head? ≠ some c := by
  induction text with
  | nil => exact ⟨0, [], rfl, by simp⟩
  | cons d text ih =>
    by_cases heq : d = c
    · obtain ⟨i, rest, rfl, hhead⟩ := ih
      exact ⟨i + 1, rest, by rw [heq, List.replicate_succ, List.cons_append], hhead⟩
    · exact ⟨0, d :: text, rfl, by simpa using heq⟩

/-- What occurs in a text with a repeated item behind it. -/
theorem infix_append_replicate (h : part <:+: rest ++ List.replicate n c) : part <:+: rest ∨
    part <:+: List.replicate n c ∨ ∃ i last, 0 < i ∧ last ≠ [] ∧ last <:+ rest ∧
      part = last ++ List.replicate i c := by
  rw [← List.reverse_infix, List.reverse_append, List.reverse_replicate] at h
  rcases infix_replicate_append h with hrest | hrepeated | ⟨i, first, hi, hne, hfirst, heq⟩
  · exact .inl (List.reverse_infix.mp hrest)
  · refine .inr (.inl ?_)
    rw [← List.reverse_infix, List.reverse_replicate]
    exact hrepeated
  · refine .inr (.inr ⟨i, first.reverse, hi, by simpa using hne, ?_, ?_⟩)
    · rw [← List.reverse_prefix, List.reverse_reverse]
      exact hfirst
    · rw [← List.reverse_inj, heq, List.reverse_append, List.reverse_reverse,
        List.reverse_replicate]

theorem exists_append_replicate (c : α) (text : List α) : ∃ i rest,
    text = rest ++ List.replicate i c ∧ rest.getLast? ≠ some c := by
  obtain ⟨i, rest, heq, hhead⟩ := exists_replicate_append c text.reverse
  refine ⟨i, rest.reverse, ?_, by rwa [List.getLast?_reverse]⟩
  rw [← List.reverse_inj, heq, List.reverse_append, List.reverse_reverse, List.reverse_replicate]

theorem replicate_eq_append {i : Nat} (h : i ≤ n) :
    List.replicate n c = List.replicate (n - i) c ++ List.replicate i c := by
  rw [List.replicate_append_replicate, Nat.sub_add_cancel h]

theorem replicate_eq_append' {i : Nat} (h : i ≤ n) :
    List.replicate n c = List.replicate i c ++ List.replicate (n - i) c := by
  rw [List.replicate_append_replicate, Nat.add_sub_cancel' h]

end Repeated

/-! ## Sequences that can be relied on -/

/-- A mask that repeats one item, and different parts that are larger than it. -/
structure MaskedBy (weight : α → Nat) (c : α) (mask : List α) (parts : List (List α)) : Prop where
  repeated : ∃ n, mask = List.replicate (n + 1) c
  nodup : parts.Nodup
  not_within : ∀ part ∈ parts, ¬part <:+: mask
  large : ∀ part ∈ parts, size weight mask < size weight part

namespace MaskedBy

variable {weight : α → Nat} {c : α} {mask part : List α} {parts : List (List α)}

theorem ne_nil (h : MaskedBy weight c mask parts) (hpart : part ∈ parts) : part ≠ [] := by
  rintro rfl
  exact h.not_within [] hpart List.nil_infix

theorem mask_ne_nil (h : MaskedBy weight c mask parts) : mask ≠ [] := by
  obtain ⟨n, rfl⟩ := h.repeated
  exact List.cons_ne_nil _ _

end MaskedBy

section Faithful

variable [DecidableEq α] {mask : List α} {parts : List (List α)}

/-- Whatever the text, no part is left, and the order of the parts does not matter. -/
structure Faithful (mask : List α) (parts : List (List α)) : Prop where
  complete : ∀ order, order.Perm parts → ∀ text, ∀ part ∈ parts,
    ¬part <:+: replaceEach order mask text
  unordered : ∀ order order', order.Perm parts → order'.Perm parts → ∀ text,
    replaceEach order mask text = replaceEach order' mask text

/-- Parts that do not touch can be relied on. -/
theorem Separated.faithful (h : Separated mask parts) : Faithful mask parts := by
  have hall {order : List (List α)} (horder : order.Perm parts) (text : List α) :
      replaceEach order mask text = maskAll parts mask text := by
    have horders : Separated mask order := h.subset horder.subset
    rw [horders.replaceEach_eq_maskAll]
    exact horders.maskAll_congr (fun _ => horder.mem_iff) text
  constructor
  · intro order horder text part hpart
    rw [hall horder]
    exact h.not_infix_maskAll hpart text
  · intro order order' horder horder' text
    rw [hall horder, hall horder']

variable {order : List (List α)}

theorem replaceEach_of_not_within {text : List α} (h : ∀ part ∈ order, ¬part <:+: text) :
    replaceEach order mask text = text := by
  induction order with
  | nil => rfl
  | cons part order ih =>
    change replaceEach order mask (replaceAll part mask text) = text
    rw [replaceAll_of_not_within (h part List.mem_cons_self)]
    exact ih fun other hother => h other (List.mem_cons_of_mem _ hother)

variable {weight : α → Nat} {c : α} {part : List α}

/-- Replacing a part first is all that is done when no other part occurs in the result. -/
theorem Faithful.replaceEach_eq (h : Faithful mask parts) (hnodup : parts.Nodup)
    (hpart : part ∈ parts) (text : List α)
    (hothers : ∀ other ∈ parts, other ≠ part → ¬other <:+: replaceAll part mask text)
    (horder : order.Perm parts) : replaceEach order mask text = replaceAll part mask text := by
  rw [h.unordered order (part :: parts.erase part) horder (List.perm_cons_erase hpart).symm]
  change replaceEach (parts.erase part) mask (replaceAll part mask text) = _
  refine replaceEach_of_not_within fun other hother => ?_
  obtain ⟨hne, hmem⟩ := hnodup.mem_erase_iff.mp hother
  exact hothers other hmem hne

/-- Then the part itself is not left either. -/
theorem Faithful.not_infix_replaceAll (h : Faithful mask parts) (hnodup : parts.Nodup)
    (hpart : part ∈ parts) (text : List α)
    (hothers : ∀ other ∈ parts, other ≠ part → ¬other <:+: replaceAll part mask text) :
    ¬part <:+: replaceAll part mask text := by
  rw [← h.replaceEach_eq hnodup hpart text hothers (List.Perm.refl parts)]
  exact h.complete parts (List.Perm.refl parts) text part hpart

/-- No other part occurs in the part. -/
def IsMinimal (parts : List (List α)) (part : List α) : Prop :=
  ∀ other ∈ parts, other ≠ part → ¬other <:+: part

/-- A part that contains the mask comes back when it is replaced inside of itself, unless it
contains another part. -/
theorem not_mask_infix_of_isMinimal (hmasked : MaskedBy weight c mask parts)
    (h : Faithful mask parts) (hpart : part ∈ parts) (hminimal : IsMinimal parts part) :
    ¬mask <:+: part := by
  intro hwithin
  obtain ⟨before, behind, heq, hfirst⟩ := exists_leftmost hwithin
  have hne := hmasked.ne_nil hpart
  -- The part does not begin before the place where it is put.
  have hleft : ∀ begun, begun ≠ [] → begun <:+ before → ¬part <+: begun ++ (part ++ behind) := by
    rintro begun hbegun hrear ⟨rest, hrest⟩
    obtain ⟨front, hfront⟩ := hrear
    have hdrop := congrArg (List.drop before.length) hrest
    rw [heq, List.append_assoc, List.append_assoc, List.drop_left, ← hfront] at hdrop
    have hlength : (front ++ begun).length = (begun ++ front).length := by
      rw [List.length_append, List.length_append, Nat.add_comm]
    rw [hlength, show begun ++ (front ++ begun ++ mask ++ behind ++ behind) =
      begun ++ front ++ (begun ++ mask ++ (behind ++ behind)) by simp, List.drop_left] at hdrop
    have hmask : mask <+: begun ++ mask := List.prefix_of_prefix_length_le ⟨_, hdrop⟩
      (List.prefix_append _ _) (by rw [List.length_append]; omega)
    refine hfirst begun hbegun ⟨front, hfront⟩ (hmask.trans ?_)
    exact ⟨behind, List.append_assoc _ _ _⟩
  have hbehind : ¬part <:+: behind := fun hwithin => by
    have hlength := hwithin.length_le
    have hpos := List.length_pos_iff.mpr hmasked.mask_ne_nil
    rw [heq, List.length_append, List.length_append] at hlength
    omega
  have hback : replaceAll part mask (before ++ (part ++ behind)) = part := by
    rw [replaceAll_append hne behind hleft, replaceAll_of_not_within hbehind, heq,
      List.append_assoc]
  have hleft' := h.not_infix_replaceAll hmasked.nodup hpart (before ++ (part ++ behind))
  rw [hback] at hleft'
  exact hleft' hminimal List.infix_rfl

/-- A text that is reduced to the mask has been reduced, at last, from a part. -/
theorem exists_mask_infix_of_replaceEach_eq (hmasked : MaskedBy weight c mask parts)
    (horder : order ⊆ parts) {text : List α} (hwithin : mask <:+: text) (hne : text ≠ mask)
    (h : replaceEach order mask text = mask) :
    ∃ part ∈ parts, mask <:+: part ∧ size weight part ≤ size weight text := by
  induction order generalizing text with
  | nil => exact absurd h hne
  | cons part order ih =>
    have hpart := horder List.mem_cons_self
    have hrest := List.Subset.trans (List.subset_cons_self part order) horder
    change replaceEach order mask (replaceAll part mask text) = mask at h
    by_cases hoccurs : part <:+: text
    · have hpartNe := hmasked.ne_nil hpart
      by_cases hlast : replaceAll part mask text = mask
      · have heq := eq_of_replaceAll_eq_mask hpartNe hmasked.mask_ne_nil hoccurs hlast
        rw [heq] at hwithin ⊢
        exact ⟨part, hpart, hwithin, le_rfl⟩
      · have hsmaller := size_replaceAll_lt hpartNe (hmasked.large part hpart) hoccurs
        obtain ⟨last, hmem, hwithin, hsize⟩ :=
          ih hrest (mask_infix_replaceAll hpartNe hoccurs) hlast h
        exact ⟨last, hmem, hwithin, hsize.trans hsmaller.le⟩
    · rw [replaceAll_of_not_within hoccurs] at h
      exact ih hrest hwithin hne h

/-- No part contains another one. -/
theorem isMinimal_of_faithful (hmasked : MaskedBy weight c mask parts) (h : Faithful mask parts)
    (hpart : part ∈ parts) : IsMinimal parts part := by
  induction hsize : size weight part using Nat.strong_induction_on generalizing part with
  | _ n ih =>
    subst hsize
    intro other hother hne hwithin
    have hotherNe := hmasked.ne_nil hother
    -- The part alone is masked when it is replaced first,
    have hself : replaceAll part mask part = mask := replaceAll_self (hmasked.ne_nil hpart)
    have hmasks : replaceEach (other :: parts.erase other) mask part = mask := by
      rw [h.replaceEach_eq hmasked.nodup hpart part (fun third hthird _ => ?_)
        (List.perm_cons_erase hother).symm, hself]
      rw [hself]
      exact hmasked.not_within third hthird
    -- so that it must be reduced to the mask as well when the other one is.
    have hreduced : replaceAll other mask part ≠ mask := fun heq =>
      hne (eq_of_replaceAll_eq_mask hotherNe hmasked.mask_ne_nil hwithin heq).symm
    obtain ⟨last, hlast, hmask, hle⟩ := exists_mask_infix_of_replaceEach_eq hmasked
      List.erase_subset (mask_infix_replaceAll hotherNe hwithin) hreduced hmasks
    have hsmaller := size_replaceAll_lt hotherNe (hmasked.large other hother) hwithin
    exact not_mask_infix_of_isMinimal hmasked h hlast
      (ih _ (hle.trans_lt hsmaller) hlast rfl) hmask

/-! ### Parts at the ends of the mask -/

theorem not_mask_within (hmasked : MaskedBy weight c mask parts) (h : Faithful mask parts)
    (hpart : part ∈ parts) : ¬mask <:+: part :=
  not_mask_infix_of_isMinimal hmasked h hpart (isMinimal_of_faithful hmasked h hpart)

/-- No part begins as the mask ends. -/
theorem head?_ne_of_faithful (hmasked : MaskedBy weight c mask parts) (h : Faithful mask parts)
    (hpart : part ∈ parts) : part.head? ≠ some c := by
  obtain ⟨m, rfl⟩ := hmasked.repeated
  obtain ⟨j, rest, rfl, hrest⟩ := exists_replicate_append c part
  by_cases hzero : j = 0
  · rw [hzero]
    exact hrest
  exfalso
  -- The part is taken with the shortest rest behind the repeated item.
  induction hlength : rest.length using Nat.strong_induction_on generalizing j rest with
  | _ n ih =>
    subst hlength
    have hminimal := isMinimal_of_faithful hmasked h hpart
    have hj : j ≤ m + 1 := by
      by_contra hlarge
      refine not_mask_within hmasked h hpart ?_
      rw [replicate_eq_append' (show m + 1 ≤ j by omega), List.append_assoc]
      exact (List.prefix_append _ _).isInfix
    have hbehind : ¬List.replicate j c ++ rest <:+: rest := fun hwithin => by
      have hle := hwithin.length_le
      rw [List.length_append, List.length_replicate] at hle
      omega
    have hreplaced : replaceAll (List.replicate j c ++ rest) (List.replicate (m + 1) c)
        (List.replicate j c ++ rest ++ rest) = List.replicate (m + 1) c ++ rest := by
      rw [replaceAll_append_left (hmasked.ne_nil hpart), replaceAll_of_not_within hbehind]
    have hleft := h.not_infix_replaceAll hmasked.nodup hpart
      (List.replicate j c ++ rest ++ rest)
    rw [hreplaced] at hleft
    refine hleft (fun other hother hne hwithin => ?_) ?_
    · rcases infix_replicate_append hwithin with hinside | hmask |
        ⟨i, first, hi, hfirstNe, hfirst, rfl⟩
      · exact hminimal other hother hne (hinside.trans (List.suffix_append _ _).isInfix)
      · exact hmasked.not_within other hother hmask
      · by_cases hshorter : first.length < rest.length
        · have hhead : first.head? ≠ some c := by
            obtain ⟨more, rfl⟩ := hfirst
            rwa [List.head?_append_of_ne_nil _ hfirstNe] at hrest
          exact ih _ hshorter i first hhead hother hi.ne' rfl
        · obtain rfl := hfirst.eq_of_length_le (Nat.not_lt.mp hshorter)
          by_cases hij : i ≤ j
          · refine hminimal _ hother hne ?_
            rw [replicate_eq_append hij, List.append_assoc]
            exact (List.suffix_append _ _).isInfix
          · refine isMinimal_of_faithful hmasked h hother _ hpart hne.symm ?_
            rw [replicate_eq_append (Nat.le_of_not_le hij), List.append_assoc]
            exact (List.suffix_append _ _).isInfix
    · rw [replicate_eq_append hj, List.append_assoc]
      exact (List.suffix_append _ _).isInfix

/-- No part ends as the mask begins. -/
theorem getLast?_ne_of_faithful (hmasked : MaskedBy weight c mask parts) (h : Faithful mask parts)
    (hpart : part ∈ parts) : part.getLast? ≠ some c := by
  obtain ⟨m, rfl⟩ := hmasked.repeated
  obtain ⟨j, rest, rfl, hrest⟩ := exists_append_replicate c part
  by_cases hzero : j = 0
  · rw [hzero, List.replicate_zero, List.append_nil]
    exact hrest
  exfalso
  -- The part is taken with the shortest rest before the repeated item.
  induction hlength : rest.length using Nat.strong_induction_on generalizing j rest with
  | _ n ih =>
    subst hlength
    have hminimal := isMinimal_of_faithful hmasked h hpart
    have hj : j ≤ m + 1 := by
      by_contra hlarge
      refine not_mask_within hmasked h hpart ?_
      rw [replicate_eq_append (show m + 1 ≤ j by omega), ← List.append_assoc]
      exact (List.suffix_append _ _).isInfix
    -- A part that began earlier would begin as the mask ends.
    have hleftmost : ∀ begun, begun ≠ [] → begun <:+ rest →
        ¬rest ++ List.replicate j c <+: begun ++ (rest ++ List.replicate j c ++ []) := by
      rintro begun hbegun ⟨front, hfront⟩ ⟨more, hmore⟩
      have hdrop := congrArg (List.drop rest.length) hmore
      have hlength : rest.length = (begun ++ front).length := by
        rw [← hfront, List.length_append, List.length_append, Nat.add_comm]
      have hshift : begun ++ (rest ++ List.replicate j c ++ []) =
          begun ++ front ++ (begun ++ List.replicate j c) := by
        rw [← hfront]
        simp
      rw [List.append_assoc, List.drop_left, hshift, hlength, List.drop_left] at hdrop
      have hrepeated : List.replicate j c ≠ [] := by simpa using hzero
      have hhead := congrArg List.head? hdrop
      rw [List.head?_append_of_ne_nil _ hrepeated, List.head?_append_of_ne_nil _ hbegun,
        List.head?_replicate, if_neg hzero] at hhead
      have hfirst := congrArg List.head? hmore
      rw [List.head?_append_of_ne_nil _ (hmasked.ne_nil hpart),
        List.head?_append_of_ne_nil _ hbegun, ← hhead] at hfirst
      exact head?_ne_of_faithful hmasked h hpart hfirst
    have hreplaced : replaceAll (rest ++ List.replicate j c) (List.replicate (m + 1) c)
        (rest ++ (rest ++ List.replicate j c ++ [])) = rest ++ List.replicate (m + 1) c := by
      rw [replaceAll_append (hmasked.ne_nil hpart) [] hleftmost]
      exact congrArg (rest ++ ·) (List.append_nil _)
    have hleft := h.not_infix_replaceAll hmasked.nodup hpart
      (rest ++ (rest ++ List.replicate j c ++ []))
    rw [hreplaced] at hleft
    refine hleft (fun other hother hne hwithin => ?_) ?_
    · rcases infix_append_replicate hwithin with hinside | hmask |
        ⟨i, last, hi, hlastNe, hlast, rfl⟩
      · exact hminimal other hother hne (hinside.trans (List.prefix_append _ _).isInfix)
      · exact hmasked.not_within other hother hmask
      · by_cases hshorter : last.length < rest.length
        · have hend : last.getLast? ≠ some c := by
            obtain ⟨more, rfl⟩ := hlast
            rwa [List.getLast?_append_of_ne_nil _ hlastNe] at hrest
          exact ih _ hshorter i last hend hother hi.ne' rfl
        · obtain rfl := hlast.eq_of_length_le (Nat.not_lt.mp hshorter)
          by_cases hij : i ≤ j
          · refine hminimal _ hother hne ?_
            rw [replicate_eq_append' hij, ← List.append_assoc]
            exact (List.prefix_append _ _).isInfix
          · refine isMinimal_of_faithful hmasked h hother _ hpart hne.symm ?_
            rw [replicate_eq_append' (Nat.le_of_not_le hij), ← List.append_assoc]
            exact (List.prefix_append _ _).isInfix
    · rw [replicate_eq_append' hj, ← List.append_assoc]
      exact (List.prefix_append _ _).isInfix

/-! ### Parts that overlap -/

variable {first second : List α}

omit [DecidableEq α] in
/-- What overlaps does so in a longest stretch. -/
theorem exists_longest_overlap (h : Overlaps first second) :
    ∃ before shared behind, shared ≠ [] ∧ first = before ++ shared ∧ second = shared ++ behind ∧
      ∀ longer, longer <:+ first → longer <+: second → longer.length ≤ shared.length := by
  classical
  have hrears : ∃ k, first.drop k ≠ [] ∧ first.drop k <+: second := by
    obtain ⟨shared, hne, hrear, hbegins⟩ := h
    refine ⟨first.length - shared.length, ?_⟩
    rw [← List.suffix_iff_eq_drop.mp hrear]
    exact ⟨hne, hbegins⟩
  obtain ⟨hne, behind, hbehind⟩ := Nat.find_spec hrears
  refine ⟨first.take (Nat.find hrears), first.drop (Nat.find hrears), behind, hne,
    (List.take_append_drop _ first).symm, hbehind.symm, fun longer hrear hbegins => ?_⟩
  by_contra hlonger
  have hlength := hrear.length_le
  rw [List.length_drop] at hlonger
  refine Nat.find_min hrears (show first.length - longer.length < _ by omega) ?_
  rw [← List.suffix_iff_eq_drop.mp hrear]
  exact ⟨List.length_pos_iff.mp (by omega), hbegins⟩

/-- No part ends as another one begins. -/
theorem not_overlaps_of_faithful (hmasked : MaskedBy weight c mask parts) (h : Faithful mask parts)
    (hfirst : first ∈ parts) (hsecond : second ∈ parts) (hne : first ≠ second) :
    ¬Overlaps first second := by
  intro hoverlaps
  obtain ⟨before, shared, behind, hshared, rfl, rfl, hlongest⟩ := exists_longest_overlap hoverlaps
  obtain ⟨m, rfl⟩ := hmasked.repeated
  have hminimal := isMinimal_of_faithful hmasked h hfirst
  have hminimal' := isMinimal_of_faithful hmasked h hsecond
  have hpos := List.length_pos_iff.mpr hshared
  -- Replacing the first part first leaves the rest of the second one,
  have hleft : replaceAll (before ++ shared) (List.replicate (m + 1) c)
      (before ++ shared ++ behind) = List.replicate (m + 1) c ++ behind := by
    rw [replaceAll_append_left (hmasked.ne_nil hfirst), replaceAll_of_not_within fun hwithin =>
      hminimal' _ hfirst hne (hwithin.trans (List.suffix_append _ _).isInfix)]
  have hothers : ∀ other ∈ parts, other ≠ before ++ shared →
      ¬other <:+: List.replicate (m + 1) c ++ behind := by
    intro other hother hdistinct hwithin
    rcases infix_replicate_append hwithin with hinside | hmask | ⟨i, begun, hi, -, -, rfl⟩
    · by_cases hsame : other = shared ++ behind
      · have hle := hinside.length_le
        rw [hsame, List.length_append] at hle
        omega
      · exact hminimal' other hother hsame (hinside.trans (List.suffix_append _ _).isInfix)
    · exact hmasked.not_within other hother hmask
    · refine head?_ne_of_faithful hmasked h hother ?_
      rw [List.head?_append_of_ne_nil _ (by simpa using hi.ne'), List.head?_replicate,
        if_neg hi.ne']
  -- and replacing the second part first leaves the rest of the first one.
  have hleftmost : ∀ begun, begun ≠ [] → begun <:+ before →
      ¬shared ++ behind <+: begun ++ (shared ++ behind ++ []) := by
    rintro begun hbegun ⟨front, hfront⟩ hbegins
    have hrear : begun ++ shared <:+ before ++ shared :=
      ⟨front, by rw [← List.append_assoc, hfront]⟩
    have hbegins' : begun ++ shared <+: begun ++ (shared ++ behind ++ []) :=
      ⟨behind, by simp⟩
    rcases List.prefix_or_prefix_of_prefix hbegins hbegins' with hle | hle
    · exact hminimal _ hsecond hne.symm (hle.isInfix.trans hrear.isInfix)
    · have hlength := hlongest _ hrear hle
      have hbegunPos := List.length_pos_iff.mpr hbegun
      rw [List.length_append] at hlength
      omega
  have hright : replaceAll (shared ++ behind) (List.replicate (m + 1) c)
      (before ++ shared ++ behind) = before ++ List.replicate (m + 1) c := by
    have hreplaced : replaceAll (shared ++ behind) (List.replicate (m + 1) c) _ = _ :=
      replaceAll_append (hmasked.ne_nil hsecond) [] hleftmost
    rw [List.append_nil, ← List.append_assoc] at hreplaced
    rw [hreplaced]
    exact congrArg (before ++ ·) (List.append_nil _)
  have hothers' : ∀ other ∈ parts, other ≠ shared ++ behind →
      ¬other <:+: before ++ List.replicate (m + 1) c := by
    intro other hother hdistinct hwithin
    rcases infix_append_replicate hwithin with hinside | hmask | ⟨i, last, hi, -, -, rfl⟩
    · by_cases hsame : other = before ++ shared
      · have hle := hinside.length_le
        rw [hsame, List.length_append] at hle
        omega
      · exact hminimal other hother hsame (hinside.trans (List.prefix_append _ _).isInfix)
    · exact hmasked.not_within other hother hmask
    · refine getLast?_ne_of_faithful hmasked h hother ?_
      rw [List.getLast?_append_of_ne_nil _ (by simpa using hi.ne'), List.getLast?_replicate,
        if_neg hi.ne']
  have hresult := h.replaceEach_eq hmasked.nodup hfirst (before ++ shared ++ behind)
    (by rw [hleft]; exact hothers) (List.Perm.refl parts)
  have hresult' := h.replaceEach_eq hmasked.nodup hsecond (before ++ shared ++ behind)
    (by rw [hright]; exact hothers') (List.Perm.refl parts)
  rw [hresult, hleft, hright] at hresult'
  by_cases hnil : before = []
  · refine hminimal' _ hfirst hne ?_
    rw [hnil, List.nil_append]
    exact (List.prefix_append _ _).isInfix
  · have hhead := congrArg List.head? hresult'
    rw [List.replicate_succ, List.cons_append, List.head?_cons,
      List.head?_append_of_ne_nil _ hnil] at hhead
    refine head?_ne_of_faithful hmasked h hfirst ?_
    rw [List.head?_append_of_ne_nil _ hnil, hhead]

/-- Parts can be relied on exactly when they do not touch. -/
theorem faithful_iff (hmasked : MaskedBy weight c mask parts) :
    Faithful mask parts ↔ Separated mask parts := by
  refine ⟨fun h => ⟨fun part hpart => ?_, fun first hfirst second hsecond hne => ?_⟩,
    Separated.faithful⟩
  · obtain ⟨m, rfl⟩ := hmasked.repeated
    refine ⟨hmasked.not_within part hpart, not_mask_within hmasked h hpart, ?_, ?_⟩
    · rintro ⟨shared, hne, ⟨front, hfront⟩, hbegins⟩
      refine getLast?_ne_of_faithful hmasked h hpart ?_
      rw [← hfront, List.getLast?_append_of_ne_nil _ hne, List.getLast?_eq_some_getLast hne]
      exact congrArg some (List.eq_of_mem_replicate (hbegins.subset (List.getLast_mem hne)))
    · rintro ⟨shared, hne, hrear, behind, hbehind⟩
      refine head?_ne_of_faithful hmasked h hpart ?_
      rw [← hbehind, List.head?_append_of_ne_nil _ hne, List.head?_eq_some_head hne]
      exact congrArg some (List.eq_of_mem_replicate (hrear.subset (List.head_mem hne)))
  · exact ⟨isMinimal_of_faithful hmasked h hsecond first hfirst hne,
      isMinimal_of_faithful hmasked h hfirst second hsecond hne.symm,
      not_overlaps_of_faithful hmasked h hfirst hsecond hne,
      not_overlaps_of_faithful hmasked h hsecond hfirst hne.symm⟩

end Faithful

end ApiVoy.Foundation
