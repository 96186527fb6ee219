import BezOS.System.MemoryManager

/-!
# Ownership, address by address

The meaning of a segment table: how many owners each address has. A reference-count update of a
range cuts the segments the range meets into the parts below, inside and above it and changes
the inside parts only; `retainPieces` and `releasePieces` say so for one segment, and the lemmas
here turn that into a statement about every address.
-/

namespace BezOS
namespace MemoryManager

open Lib MemorySegment RangeTable AnyRange

/-- The owner count of an address, `none` where no segment covers it. -/
def ownersAt (t : List MemorySegment) (a : Nat) : Option Nat :=
  valueAt range (fun s _ => s.owners.toNat) t a

/-- The segments that share an address with the range, in address order. -/
def touched (m : MemoryManager) (r : AnyRange) : List MemorySegment :=
  m.table.filter fun s => decide (AnyRange.Meets r s.range)

/-- The heap's live ranges are the segments of the table and the ranges others hold. -/
structure Tracks (others : List AnyRange) (m : MemoryManager) : Prop where
  wf : RangeTable.WellFormed range m.table
  held : m.heap.used.Perm (m.table.map range ++ others)
  apart : ∀ s ∈ m.table, ∀ o ∈ others, ¬ AnyRange.Meets s.range o

/-! ## The parts of a segment -/

def below (r : AnyRange) (s : MemorySegment) : List MemorySegment :=
  if s.range.front < r.front then [⟨s.owners, ⟨s.range.front, r.front⟩⟩] else []

def inside (r : AnyRange) (s : MemorySegment) : MemorySegment :=
  ⟨s.owners, ⟨max s.range.front r.front, min s.range.back r.back⟩⟩

def above (r : AnyRange) (s : MemorySegment) : List MemorySegment :=
  if r.back < s.range.back then [⟨s.owners, ⟨r.back, s.range.back⟩⟩] else []

def retainPieces (r : AnyRange) (s : MemorySegment) : List MemorySegment :=
  below r s ++ (inside r s).retained :: above r s

def releasePieces (r : AnyRange) (s : MemorySegment) : List MemorySegment :=
  below r s ++ ((if s.owners = 1 then [] else [(inside r s).released]) ++ above r s)

@[simp] lemma owners_inside (r : AnyRange) (s : MemorySegment) :
    (inside r s).owners = s.owners := rfl

section Pieces

variable {r : AnyRange} {s : MemorySegment}

lemma inside_of_contained (h : r.containsRange s.range) : inside r s = s := by
  simp only [containsRange] at h
  have h1 : max s.range.front r.front = s.range.front := by omega
  have h2 : min s.range.back r.back = s.range.back := by omega
  simp only [inside, h1, h2]
  rfl

lemma below_of_le (h : r.front ≤ s.range.front) : below r s = [] := by
  simp only [below]
  rw [if_neg (by omega)]

lemma above_of_le (h : s.range.back ≤ r.back) : above r s = [] := by
  simp only [above]
  rw [if_neg (by omega)]

lemma retainPieces_of_contained (h : r.containsRange s.range) :
    retainPieces r s = [s.retained] := by
  have hb := below_of_le h.1
  have ha := above_of_le h.2
  simp [retainPieces, hb, ha, inside_of_contained h]

lemma releasePieces_of_contained (h : r.containsRange s.range) :
    releasePieces r s = if s.owners = 1 then [] else [s.released] := by
  have hb := below_of_le h.1
  have ha := above_of_le h.2
  simp [releasePieces, hb, ha, inside_of_contained h]

section

variable (hs : r.front < s.range.back ∧ s.range.front < r.back) (hr : r.front < r.back)
  (hne : s.range.front < s.range.back)

include hs hr hne

lemma wellFormed_pieces {mid : List MemorySegment}
    (hmid : mid = [] ∨ ∃ p, mid = [p] ∧ p.range = (inside r s).range) :
    RangeTable.WellFormed range (below r s ++ (mid ++ above r s)) ∧
      ∀ p ∈ below r s ++ (mid ++ above r s),
        s.range.front ≤ p.range.front ∧ p.range.back ≤ s.range.back := by
  have hb : ∀ p ∈ below r s, p.range = ⟨s.range.front, r.front⟩ ∧ s.range.front < r.front := by
    intro p hp
    simp only [below] at hp
    split at hp
    · exact ⟨by simp [List.mem_singleton.1 hp], by assumption⟩
    · simp at hp
  have ha : ∀ p ∈ above r s, p.range = ⟨r.back, s.range.back⟩ ∧ r.back < s.range.back := by
    intro p hp
    simp only [above] at hp
    split at hp
    · exact ⟨by simp [List.mem_singleton.1 hp], by assumption⟩
    · simp at hp
  have hm : ∀ p ∈ mid, p.range = (inside r s).range := by
    rcases hmid with rfl | ⟨p, rfl, hp⟩
    · simp
    · simpa using hp
  have hin : (inside r s).range =
      ⟨max s.range.front r.front, min s.range.back r.back⟩ := rfl
  refine ⟨wellFormed_append.2 ⟨?_, wellFormed_append.2 ⟨?_, ?_, ?_⟩, ?_⟩, ?_⟩
  · refine ⟨fun p hp => ?_, ?_⟩
    · have := hb p hp
      rw [this.1]
      exact this.2
    · simp only [below]
      split <;> simp
  · refine ⟨fun p hp => ?_, ?_⟩
    · rw [hm p hp, hin]
      simp only
      omega
    · rcases hmid with rfl | ⟨p, rfl, -⟩ <;> simp
  · refine ⟨fun p hp => ?_, ?_⟩
    · have := ha p hp
      rw [this.1]
      exact this.2
    · simp only [above]
      split <;> simp
  · intro p hp q hq
    rw [hm p hp, (ha q hq).1, hin]
    simp only
    omega
  · intro p hp q hq
    rw [(hb p hp).1]
    rcases List.mem_append.1 hq with hq | hq
    · rw [hm q hq, hin]
      simp only
      omega
    · rw [(ha q hq).1]
      exact hr.le
  · intro p hp
    rcases List.mem_append.1 hp with hp | hp
    · rw [(hb p hp).1]
      exact ⟨le_refl _, hs.1.le⟩
    · rcases List.mem_append.1 hp with hp | hp
      · rw [hm p hp, hin]
        simp only
        omega
      · rw [(ha p hp).1]
        exact ⟨hs.2.le, le_refl _⟩

lemma wellFormed_retainPieces :
    RangeTable.WellFormed range (retainPieces r s) ∧
      ∀ p ∈ retainPieces r s, s.range.front ≤ p.range.front ∧ p.range.back ≤ s.range.back :=
  wellFormed_pieces hs hr hne (.inr ⟨(inside r s).retained, rfl, rfl⟩)

lemma wellFormed_releasePieces :
    RangeTable.WellFormed range (releasePieces r s) ∧
      ∀ p ∈ releasePieces r s, s.range.front ≤ p.range.front ∧ p.range.back ≤ s.range.back := by
  refine wellFormed_pieces hs hr hne ?_
  by_cases h : s.owners = 1
  · exact .inl (by simp [h])
  · exact .inr ⟨(inside r s).released, by simp [h], rfl⟩

end

end Pieces

/-! ## Owner counts of composed tables -/

lemma ownersAt_append (t u : List MemorySegment) (a : Nat) :
    ownersAt (t ++ u) a = (ownersAt t a).or (ownersAt u a) :=
  valueAt_append t u a

lemma ownersAt_nil (a : Nat) : ownersAt [] a = none := rfl

lemma ownersAt_cons (s : MemorySegment) (t : List MemorySegment) (a : Nat) :
    ownersAt (s :: t) a =
      if s.range.contains a then some s.owners.toNat else ownersAt t a :=
  valueAt_cons s t a

lemma ownersAt_eq_none_iff {t : List MemorySegment} {a : Nat} :
    ownersAt t a = none ↔ ∀ s ∈ t, ¬ s.range.contains a :=
  valueAt_eq_none_iff

/-- What a reference-count update `f` of the addresses of `r` does to the owner counts. -/
def updateAt (f : Nat → Option Nat) (r : AnyRange) (t : List MemorySegment) (a : Nat) : Option Nat :=
  RangeTable.updateAt range (fun s _ => s.owners.toNat) f r t a

lemma updateAt_eq (f : Nat → Option Nat) (r : AnyRange) (t : List MemorySegment) (a : Nat) :
    updateAt f r t a = if r.contains a then (ownersAt t a).bind f else ownersAt t a := rfl

variable {r : AnyRange} {s : MemorySegment} {f : Nat → Option Nat}

lemma ownersAt_pieces {mid : List MemorySegment}
    (hs : r.front < s.range.back ∧ s.range.front < r.back)
    (hmid : ∀ a, ownersAt mid a = if (inside r s).range.contains a then f s.owners.toNat else none)
    (a : Nat) :
    ownersAt (below r s ++ (mid ++ above r s)) a = updateAt f r [s] a := by
  simp only [ownersAt_append, hmid a, updateAt_eq, ownersAt_cons, ownersAt_nil]
  have hin : (inside r s).range.contains a ↔ r.contains a ∧ s.range.contains a := by
    simp only [inside, range_mk, contains]
    omega
  have hbelow : ownersAt (below r s) a =
      if s.range.contains a ∧ a < r.front then some s.owners.toNat else none := by
    by_cases h : s.range.front < r.front
    · simp only [below, if_pos h, ownersAt_cons, ownersAt_nil, range_mk]
      congr 1
      simp only [contains, eq_iff_iff]
      omega
    · have : ¬ (s.range.contains a ∧ a < r.front) := by
        simp only [contains]
        omega
      simp [below, if_neg h, ownersAt_nil, this]
  have habove : ownersAt (above r s) a =
      if s.range.contains a ∧ r.back ≤ a then some s.owners.toNat else none := by
    by_cases h : r.back < s.range.back
    · simp only [above, if_pos h, ownersAt_cons, ownersAt_nil, range_mk]
      congr 1
      simp only [contains, eq_iff_iff]
      omega
    · have : ¬ (s.range.contains a ∧ r.back ≤ a) := by
        simp only [contains]
        omega
      simp [above, if_neg h, ownersAt_nil, this]
  rw [hbelow, habove]
  by_cases hsa : s.range.contains a
  · by_cases hra : r.contains a
    · have h1 : ¬ a < r.front := by simp only [contains] at hra; omega
      have h2 : ¬ r.back ≤ a := by simp only [contains] at hra; omega
      simp [hin, hsa, hra, h1, h2]
    · by_cases h1 : a < r.front
      · simp [hin, hsa, hra, h1]
      · have h2 : r.back ≤ a := by simp only [contains] at hra; omega
        simp [hin, hsa, hra, h1, h2]
  · simp [hin, hsa]

lemma ownersAt_replace {t pre mid post : List MemorySegment}
    (hwf : RangeTable.WellFormed range t)
    (h : RangeTable.Around range t r pre mid post)
    {pieces : MemorySegment → List MemorySegment}
    (hpieces : ∀ s ∈ mid, ∀ a, ownersAt (pieces s) a = updateAt f r [s] a) (a : Nat) :
    ownersAt (pre ++ (mid.flatMap pieces ++ post)) a = updateAt f r t a :=
  valueAt_replace hwf h hpieces a

lemma ownersAt_retainPieces (hs : r.front < s.range.back ∧ s.range.front < r.back) (a : Nat) :
    ownersAt (retainPieces r s) a = updateAt (fun n => some ((n + 1) % 256)) r [s] a := by
  have hsplit : retainPieces r s = below r s ++ ([(inside r s).retained] ++ above r s) := rfl
  rw [hsplit]
  refine ownersAt_pieces hs (fun a => ?_) a
  simp only [ownersAt_cons, ownersAt_nil, range_retained,
    owners_retained, UInt8.toNat_add, UInt8.toNat_ofNat]
  rfl

lemma ownersAt_releasePieces (hs : r.front < s.range.back ∧ s.range.front < r.back) (a : Nat) :
    ownersAt (releasePieces r s) a =
      updateAt (fun n => if n = 1 then none else some ((n + 255) % 256)) r [s] a := by
  refine ownersAt_pieces hs (fun a => ?_) a
  have hone : s.owners.toNat = 1 ↔ s.owners = 1 := by
    rw [← UInt8.toNat_inj]
    rfl
  by_cases h : s.owners = 1
  · simp [h, ownersAt_nil]
  · have hn : s.owners.toNat ≠ 1 := fun hn => h (hone.1 hn)
    have hval : (s.owners - 1).toNat = (s.owners.toNat + 255) % 256 := by
      rw [UInt8.toNat_sub]
      simp [Nat.add_comm]
    simp [if_neg h, if_neg hn, ownersAt_cons, ownersAt_nil, owners_released, owners_inside, hval]

end MemoryManager
end BezOS
