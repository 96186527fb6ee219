import Mathlib.Order.Interval.Set.OrdConnected
import BezOS.Memory.PageUnmapping

/-!
# Ranges as sets of addresses

The relations and functions of `memory/range.hpp` against the sets of addresses the ranges stand
for. Each is what its name says except in cases of its own: a range strictly inside the other,
touching ranges, ranges with one back, the end of the address space.
-/

namespace BezOS
namespace AnyRange

open Lib List Set

variable {a b r x : AnyRange} {align : Nat} {ranges : List AnyRange}

def merge (a b : AnyRange) : AnyRange := ⟨min a.front b.front, max a.back b.back⟩

def combinedInterval : List AnyRange → AnyRange
  | [] => ⟨0, 0⟩
  | r :: ranges => ranges.foldl merge r

/-! ## Sets of addresses -/

/-- A range that is not empty, of 64-bit addresses. -/
structure Proper (r : AnyRange) : Prop where
  front_lt : r.front < r.back
  back_lt : r.back < wordCount

def addresses (r : AnyRange) : Set Nat := {address | r.contains address}

lemma mem_addresses {address : Nat} :
    address ∈ r.addresses ↔ r.front ≤ address ∧ address < r.back := Iff.rfl

lemma addresses_eq (r : AnyRange) : r.addresses = Set.Ico r.front r.back := rfl

lemma subset_iff (h : r.front < r.back) :
    r.addresses ⊆ x.addresses ↔ x.front ≤ r.front ∧ r.back ≤ x.back :=
  Set.Ico_subset_Ico_iff h

lemma subset_of_le (h : r.back ≤ r.front) (s : Set Nat) : r.addresses ⊆ s := by
  rw [addresses_eq, Set.Ico_eq_empty (Nat.not_lt.2 h)]
  exact empty_subset s

lemma nonempty_inter_iff (ha : a.Proper) (hb : b.Proper) :
    (a.addresses ∩ b.addresses).Nonempty ↔ Meets a b :=
  (meets_iff_exists ha.front_lt hb.front_lt).symm

def IsAligned (align : Nat) (r : AnyRange) : Prop := align ∣ r.front ∧ align ∣ r.back

structure IsSpan (ranges : List AnyRange) (r : AnyRange) : Prop where
  covers : ∀ x ∈ ranges, x.addresses ⊆ r.addresses
  least : ∀ y : AnyRange, (∀ x ∈ ranges, x.addresses ⊆ y.addresses) → r.addresses ⊆ y.addresses

structure IsLargestWithin (align : Nat) (a r : AnyRange) : Prop where
  aligned : IsAligned align r
  within : r.addresses ⊆ a.addresses
  largest : ∀ x, IsAligned align x → x.addresses ⊆ a.addresses → x.addresses ⊆ r.addresses

structure IsSmallestAround (align : Nat) (a r : AnyRange) : Prop where
  aligned : IsAligned align r
  around : a.addresses ⊆ r.addresses
  smallest : ∀ x, IsAligned align x → a.addresses ⊆ x.addresses → r.addresses ⊆ x.addresses

/-! ## Relations -/

/-- The one range ends before the other on both sides. -/
def StrictlyInside (a b : AnyRange) : Prop := b.front < a.front ∧ a.back < b.back

lemma intersects_correct_iff (ha : a.Proper) (hb : b.Proper) :
    (a.intersects b ↔ Meets a b) ↔ ¬ StrictlyInside a b := by
  have hfront := ha.front_lt
  have hfront' := hb.front_lt
  refine ⟨?_, fun h => intersects_iff_meets hfront hfront' h⟩
  rintro h ⟨hlt, hlt'⟩
  have hmeets : Meets a b := ⟨by omega, by omega⟩
  have hno : ¬ a.intersects b := by
    simp only [intersects, containsRange, contains]
    omega
  exact hno (h.2 hmeets)

lemma meets_comm : Meets a b ↔ Meets b a := And.comm

section

variable (ha : a.Proper) (hb : b.Proper)

include ha hb

lemma intersects_comm_iff (h : a.intersects b ↔ Meets a b) :
    (a.intersects b ↔ b.intersects a) ↔ ¬ StrictlyInside b a := by
  rw [← intersects_correct_iff hb ha, h, meets_comm]
  exact Iff.comm

lemma overlaps_comm_iff : (a.overlaps b ↔ b.overlaps a) ↔
    (a.back ≠ b.front ∧ b.back ≠ a.front) ∧ (a.back = b.back → a.front = b.front) := by
  have hfront := ha.front_lt
  have hfront' := hb.front_lt
  simp only [overlaps, contains]
  omega

lemma interval_iff :
    a.interval b ↔ b.front ≤ a.back ∧ a.front ≤ b.back := by
  have hfront := ha.front_lt
  have hfront' := hb.front_lt
  simp only [interval, outerAdjacent, overlaps, containsRange, contains]
  omega

lemma ordConnected_union_iff :
    (a.addresses ∪ b.addresses).OrdConnected ↔ b.front ≤ a.back ∧ a.front ≤ b.back := by
  have hfront := ha.front_lt
  have hfront' := hb.front_lt
  constructor
  · intro h
    have hmem : a.front ∈ a.addresses ∪ b.addresses := .inl ⟨Nat.le_refl _, hfront⟩
    have hmem' : b.front ∈ a.addresses ∪ b.addresses := .inr ⟨Nat.le_refl _, hfront'⟩
    refine ⟨Nat.not_lt.1 fun hlt => ?_, Nat.not_lt.1 fun hlt => ?_⟩
    · have hgap := h.out hmem hmem' ⟨by omega, Nat.le_of_lt hlt⟩
      simp only [mem_union, mem_addresses] at hgap
      omega
    · have hgap := h.out hmem' hmem ⟨by omega, Nat.le_of_lt hlt⟩
      simp only [mem_union, mem_addresses] at hgap
      omega
  · rintro ⟨hle, hle'⟩
    rw [addresses_eq, addresses_eq, Set.Ico_union_Ico' hle hle']
    exact ordConnected_Ico

end

/-! ## Cutting -/

lemma cut_cases (a b : AnyRange) : (¬ a.overlaps b ∧ a.cut b = a) ∨
    (a.overlaps b ∧ b.front ≤ a.front ∧ a.cut b = ⟨min a.back b.back, max a.back b.back⟩) ∨
    (a.overlaps b ∧ a.front < b.front ∧ a.back ≤ b.back ∧
      a.cut b = ⟨min a.front b.front, max a.front b.front⟩) ∨
    (a.front < b.front ∧ b.back < a.back ∧ a.cut b = a) := by
  rw [cut]
  by_cases ho : a.overlaps b
  · rw [if_neg (not_not.2 ho)]
    by_cases hfront : b.front ≤ a.front
    · rw [if_pos hfront]
      exact .inr (.inl ⟨ho, hfront, rfl⟩)
    · rw [if_neg hfront]
      by_cases hback : a.back ≤ b.back
      · rw [if_pos hback]
        exact .inr (.inr (.inl ⟨ho, Nat.not_le.1 hfront, hback, rfl⟩))
      · rw [if_neg hback]
        exact .inr (.inr (.inr ⟨Nat.not_le.1 hfront, Nat.not_le.1 hback, rfl⟩))
  · rw [if_pos ho]
    exact .inl ⟨ho, rfl⟩

lemma cut_nonempty (h : b.containsRange a) (hfront : a.front < a.back)
    (hne : ¬ (a.front = b.front ∧ a.back = b.back)) : (a.cut b).front < (a.cut b).back := by
  obtain ⟨hle, hle'⟩ := h
  rcases cut_cases a b with ⟨-, hcut⟩ | ⟨ho, -, hcut⟩ | ⟨-, hlt, -⟩ | ⟨hlt, -⟩
  · rw [hcut]
    exact hfront
  · rw [hcut]
    simp only [overlaps, contains] at ho
    dsimp only
    omega
  · omega
  · omega

lemma cut_addresses_iff (ha : a.Proper) (hb : b.Proper) :
    (a.cut b).addresses = a.addresses \ b.addresses ↔
      ¬ StrictlyInside b a ∧ (b.containsRange a → a = b) := by
  have hfront := ha.front_lt
  have hfront' := hb.front_lt
  constructor
  · intro h
    refine ⟨?_, fun hcontains => ?_⟩
    · rintro ⟨hlt, hlt'⟩
      have hcut : a.cut b = a := by
        rw [cut, if_pos]
        simp only [overlaps, contains]
        omega
      have hmem : b.front ∈ a.addresses \ b.addresses := by
        rw [← h, hcut, mem_addresses]
        omega
      exact hmem.2 ⟨Nat.le_refl _, hfront'⟩
    · by_contra hne
      have hends : ¬ (a.front = b.front ∧ a.back = b.back) := fun hsame =>
        hne (by cases a; cases b; cases hsame.1; cases hsame.2; rfl)
      have hleft := cut_nonempty hcontains hfront hends
      have hmem : (a.cut b).front ∈ a.addresses \ b.addresses := h ▸ ⟨Nat.le_refl _, hleft⟩
      exact hmem.2 ((subset_iff hfront).2 hcontains hmem.1)
  · rintro ⟨hinside, hequal⟩
    have hends : b.containsRange a → a.front = b.front ∧ a.back = b.back := fun h => by
      rw [hequal h]
      exact ⟨rfl, rfl⟩
    ext x
    simp only [StrictlyInside, containsRange] at hinside hends
    rw [mem_sdiff, mem_addresses, mem_addresses, mem_addresses]
    rcases cut_cases a b with ⟨ho, hcut⟩ | ⟨ho, hle, hcut⟩ | ⟨ho, hlt, hle, hcut⟩ |
      ⟨hlt, hlt', hcut⟩
    · rw [hcut]
      simp only [overlaps, contains] at ho
      omega
    · rw [hcut]
      simp only [overlaps, contains] at ho
      dsimp only
      omega
    · rw [hcut]
      simp only [overlaps, contains] at ho
      dsimp only
      omega
    · omega

/-! ## Spanning -/

lemma merge_front_lt (ha : a.front < a.back) : (merge a b).front < (merge a b).back :=
  Nat.lt_of_le_of_lt (Nat.min_le_left ..) (Nat.lt_of_lt_of_le ha (Nat.le_max_left ..))

lemma merge_subset_iff (ha : a.front < a.back) (hb : b.front < b.back) :
    (merge a b).addresses ⊆ x.addresses ↔
      a.addresses ⊆ x.addresses ∧ b.addresses ⊆ x.addresses := by
  rw [subset_iff (merge_front_lt ha), subset_iff ha, subset_iff hb]
  simp only [merge]
  omega

lemma foldl_merge_subset_iff (ha : a.front < a.back)
    (hranges : ∀ r ∈ ranges, r.front < r.back) :
    (ranges.foldl merge a).addresses ⊆ x.addresses ↔
      a.addresses ⊆ x.addresses ∧ ∀ r ∈ ranges, r.addresses ⊆ x.addresses := by
  induction ranges generalizing a with
  | nil => simp
  | cons r ranges ih =>
    rw [forall_mem_cons] at hranges ⊢
    rw [foldl_cons, ih (merge_front_lt ha) hranges.2, merge_subset_iff ha hranges.1, and_assoc]

lemma combinedInterval_spans (hranges : ∀ r ∈ ranges, r.front < r.back) :
    IsSpan ranges (combinedInterval ranges) := by
  cases ranges with
  | nil =>
    refine ⟨by simp, fun y _ => ?_⟩
    exact subset_of_le (Nat.le_refl 0) y.addresses
  | cons r ranges =>
    rw [forall_mem_cons] at hranges
    refine ⟨?_, fun y hy => ?_⟩
    · rw [forall_mem_cons]
      exact (foldl_merge_subset_iff hranges.1 hranges.2).1 subset_rfl
    · rw [forall_mem_cons] at hy
      exact (foldl_merge_subset_iff hranges.1 hranges.2).2 hy

/-! ## Alignment -/

lemma isLargestWithin_of {front back : Nat} (hfront : align ∣ front) (hback : align ∣ back)
    (hbetween : front < back → a.front ≤ front ∧ back ≤ a.back)
    (hleast : ∀ x, IsAligned align x → x.front < x.back → x.addresses ⊆ a.addresses →
      front ≤ x.front ∧ x.back ≤ back) :
    IsLargestWithin align a (if back ≤ front then ⟨0, 0⟩ else ⟨front, back⟩) := by
  have hlargest : ∀ x, IsAligned align x → x.addresses ⊆ a.addresses →
      x.addresses ⊆ Set.Ico front back := by
    intro x hx hxa
    by_cases hne : x.front < x.back
    · obtain ⟨hle, hle'⟩ := hleast x hx hne hxa
      exact Set.Ico_subset_Ico hle hle'
    · exact subset_of_le (Nat.not_lt.1 hne) _
  split
  · rename_i hempty
    rw [Set.Ico_eq_empty (Nat.not_lt.2 hempty)] at hlargest
    refine ⟨⟨Nat.dvd_zero align, Nat.dvd_zero align⟩, subset_of_le (Nat.le_refl 0) _, ?_⟩
    exact fun x hx hxa => (hlargest x hx hxa).trans (empty_subset _)
  · rename_i hlt
    have hlt' := Nat.not_le.1 hlt
    exact ⟨⟨hfront, hback⟩, (subset_iff hlt').2 (hbetween hlt'), hlargest⟩

lemma aligned_iff (ha : a.Proper) (halign : 0 < align) (hword : align < wordCount) :
    IsLargestWithin align a (a.aligned align) ↔
      a.front + align ≤ wordCount ∨ a.back < align := by
  have hfront := ha.front_lt
  have hback := ha.back_lt
  constructor
  · intro h
    by_contra hno
    rw [not_or, Nat.not_le, Nat.not_lt] at hno
    have hzero : roundup a.front align = 0 :=
      wrapRoundUp_of_lt hno.1 (hfront.trans hback) (Nat.le_of_lt hword)
    have hpos : 0 < rounddown a.back align :=
      Nat.lt_of_lt_of_le halign (le_roundDown hno.2 (Nat.dvd_refl align))
    have hwithin := h.within
    rw [aligned, hzero] at hwithin
    rw [if_neg (by omega), subset_iff hpos] at hwithin
    dsimp only at hwithin
    omega
  · intro h
    have hdown : rounddown a.back align ≤ a.back := roundDown_le ..
    rw [aligned]
    refine isLargestWithin_of (dvd_wrapRoundUp ..) (dvd_roundDown ..) (fun hlt => ?_)
      fun x hx hne hxa => ?_
    · rcases h with hle | hback
      · have hup : roundup a.front align = roundUp a.front align := wrapRoundUp_of_le hle halign
        rw [hup]
        exact ⟨le_roundUp halign _, hdown⟩
      · have hzero : rounddown a.back align = 0 := by
          rw [rounddown, Nat.div_eq_of_lt hback, Nat.zero_mul]
        omega
    · obtain ⟨hxfront, hxback⟩ := (subset_iff hne).1 hxa
      refine ⟨?_, le_roundDown hxback hx.2⟩
      rcases h with hle | hback
      · have hup : roundup a.front align = roundUp a.front align := wrapRoundUp_of_le hle halign
        rw [hup]
        exact roundUp_least halign hxfront hx.1
      · have hpage := Nat.le_of_dvd (Nat.zero_lt_of_lt hne) hx.2
        omega

lemma alignedOut_iff (ha : a.Proper) (halign : 0 < align) (hword : align < wordCount) :
    IsSmallestAround align a (a.alignedOut align) ↔ a.back + align ≤ wordCount := by
  have hfront := ha.front_lt
  have hback := ha.back_lt
  constructor
  · intro h
    refine Nat.not_lt.1 fun hlt => ?_
    have hzero : roundup a.back align = 0 := wrapRoundUp_of_lt hlt hback (Nat.le_of_lt hword)
    have haround := ((subset_iff hfront).1 h.around).2
    rw [alignedOut, hzero] at haround
    dsimp only at haround
    omega
  · intro hle
    have hup : roundup a.back align = roundUp a.back align := wrapRoundUp_of_le hle halign
    have hdown : rounddown a.front align ≤ a.front := roundDown_le ..
    have hup' := le_roundUp halign a.back
    rw [alignedOut, hup]
    refine ⟨⟨dvd_roundDown .., dvd_roundUp ..⟩, (subset_iff hfront).2 ⟨hdown, hup'⟩,
      fun x hx hax => ?_⟩
    obtain ⟨hxfront, hxback⟩ := (subset_iff hfront).1 hax
    rw [subset_iff (by dsimp only; omega)]
    exact ⟨le_roundDown hxfront hx.1, roundUp_least halign hxback hx.2⟩

/-! ## All of it -/

/-- The relations and functions are what the sets of addresses say. -/
structure SetMeaning (a b : AnyRange) (align : Nat) (ranges : List AnyRange) : Prop where
  intersects : a.intersects b ↔ (a.addresses ∩ b.addresses).Nonempty
  intersects_comm : a.intersects b ↔ b.intersects a
  contained : a.addresses ⊆ b.addresses ∨ b.addresses ⊆ a.addresses → a.intersects b
  overlaps_comm : a.overlaps b ↔ b.overlaps a
  cut : (a.cut b).addresses = a.addresses \ b.addresses
  interval : a.interval b ↔ (a.addresses ∪ b.addresses).OrdConnected
  span : IsSpan ranges (combinedInterval ranges)
  aligned : IsLargestWithin align a (a.aligned align)
  alignedOut : IsSmallestAround align a (a.alignedOut align)

/-- The ranges are not of one of the cases in which they are not. -/
structure InNoSpecialCase (a b : AnyRange) (align : Nat) : Prop where
  notInside : ¬ StrictlyInside a b
  notAround : ¬ StrictlyInside b a
  apart : a.back ≠ b.front ∧ b.back ≠ a.front
  sameBack : a.back = b.back → a.front = b.front
  contained : b.containsRange a → a = b
  front : a.front + align ≤ wordCount ∨ a.back < align
  back : a.back + align ≤ wordCount

lemma meets_of_subset (ha : a.Proper) (hb : b.Proper)
    (h : a.addresses ⊆ b.addresses ∨ b.addresses ⊆ a.addresses) : Meets a b := by
  have hfront := ha.front_lt
  have hfront' := hb.front_lt
  rw [subset_iff hfront, subset_iff hfront'] at h
  exact ⟨by omega, by omega⟩

/-- The ranges mean what their sets of addresses mean except in the special cases. -/
theorem setMeaning_iff (ha : a.Proper) (hb : b.Proper) (hranges : ∀ r ∈ ranges, r.Proper)
    (halign : 0 < align) (hword : align < wordCount) :
    SetMeaning a b align ranges ↔ InNoSpecialCase a b align := by
  have hnonempty := nonempty_inter_iff ha hb
  constructor
  · intro h
    have hmeets : a.intersects b ↔ Meets a b := h.intersects.trans hnonempty
    have hoverlaps := (overlaps_comm_iff ha hb).1 h.overlaps_comm
    have hcut := (cut_addresses_iff ha hb).1 h.cut
    exact ⟨(intersects_correct_iff ha hb).1 hmeets, hcut.1, hoverlaps.1, hoverlaps.2, hcut.2,
      (aligned_iff ha halign hword).1 h.aligned, (alignedOut_iff ha halign hword).1 h.alignedOut⟩
  · intro h
    have hmeets := (intersects_correct_iff ha hb).2 h.notInside
    exact ⟨hmeets.trans hnonempty.symm, (intersects_comm_iff ha hb hmeets).2 h.notAround,
      fun hsub => hmeets.2 (meets_of_subset ha hb hsub),
      (overlaps_comm_iff ha hb).2 ⟨h.apart, h.sameBack⟩,
      (cut_addresses_iff ha hb).2 ⟨h.notAround, h.contained⟩,
      (interval_iff ha hb).trans (ordConnected_union_iff ha hb).symm,
      combinedInterval_spans fun r hr => (hranges r hr).front_lt,
      (aligned_iff ha halign hword).2 h.front, (alignedOut_iff ha halign hword).2 h.back⟩

/-- Two ranges of which one begins in the other. -/
theorem setMeaning_staggered : SetMeaning ⟨0x1000, 0x3000⟩ ⟨0x2000, 0x4000⟩ 0x1000
    [⟨0x1000, 0x3000⟩, ⟨0x6000, 0x7000⟩] := by
  have ha : Proper ⟨0x1000, 0x3000⟩ := ⟨by decide, by decide⟩
  have hb : Proper ⟨0x2000, 0x4000⟩ := ⟨by decide, by decide⟩
  have hc : Proper ⟨0x6000, 0x7000⟩ := ⟨by decide, by decide⟩
  refine (setMeaning_iff ha hb ?_ (by decide) (by decide)).2 ⟨?_, ?_, ?_, ?_, ?_, ?_, ?_⟩
  · simp only [forall_mem_cons]
    exact ⟨ha, hc, by simp⟩
  · simp [StrictlyInside]
  · simp [StrictlyInside]
  · decide
  · decide
  · decide
  · decide
  · decide

/-- A page does not intersect the range that it is inside of. -/
theorem not_setMeaning_inside : ¬ SetMeaning ⟨0x2000, 0x3000⟩ ⟨0x1000, 0x4000⟩ 0x1000 [] := by
  intro h
  have hno : ¬ intersects ⟨0x2000, 0x3000⟩ ⟨0x1000, 0x4000⟩ := by decide
  exact hno (h.intersects.2 ⟨0x2000, ⟨by decide, by decide⟩, by decide, by decide⟩)

end AnyRange
end BezOS
