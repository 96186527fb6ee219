import BezOS.System.UnmapSteps

/-!
# Backing memory, and unmapping inside one segment

The physical address a segment gives a virtual one, what it keeps when a part of it is cut off,
and the outcomes of `unmap` when its range meets a single segment. A segment without backing
memory has an empty `virtualRange`, and the comparisons of `unmap` go wrong on it.
-/

namespace BezOS
namespace AddressSpaceManager

open Lib AddressSegment AnyRange RangeTable List

variable {m m' : AddressSpaceManager} {pre post mid : List AddressSegment} {s : AddressSegment}
  {r : AnyRange} {p a : Nat}

/-! ## Backing memory -/

/-- What the mapping functions promise of a segment: addresses are 64-bit, and backing memory, if
there is any, is as long as the virtual range. -/
structure SegmentOk (s : AddressSegment) : Prop where
  range : s.range.back < 2 ^ 64
  front : s.backing.front < 2 ^ 64
  back : s.backing.back < 2 ^ 64
  backed : s.hasBackingMemory → s.backingSize = s.range.size

def physical (s : AddressSegment) (a : Nat) : Option Nat :=
  if s.hasBackingMemory then some (wrapAdd (2 ^ 64) s.backing.front (a - s.range.front)) else none

/-- What a table says of an address: `none` if it is not mapped, else the physical address. -/
def backingAt (t : List AddressSegment) (a : Nat) : Option (Option Nat) :=
  valueAt AddressSegment.range physical t a

section Parts

variable (hok : SegmentOk s) (hp : s.range.front < p ∧ p < s.range.back)

include hok hp

lemma SegmentOk.lowPart : SegmentOk (lowPart s p) := by
  have hback : (AddressSpaceManager.lowPart s p).backing.back < 2 ^ 64 := wrapAdd_lt (by decide)
  refine ⟨?_, hok.front, hback, fun _ => ?_⟩
  · rw [lowPart_range]
    exact hp.2.trans hok.range
  · have hr := hok.range
    have hf := hok.front
    simp only [backingSize, AddressSpaceManager.lowPart, backingFirst,
      range_mk, size] at hback ⊢
    generalize 2 ^ 64 = w at *
    have h1 := wrapAdd_cases (b := p - s.range.front) hf (by omega)
    have h2 := wrapSub_cases hback hf.le
    omega

lemma SegmentOk.highPart : SegmentOk (highPart s p) := by
  have hfront : (AddressSpaceManager.highPart s p).backing.front < 2 ^ 64 :=
    wrapSub_lt (by decide)
  refine ⟨?_, hfront, hok.back, fun _ => ?_⟩
  · rw [highPart_range]
    exact hok.range
  · have hr := hok.range
    have hb := hok.back
    simp only [backingSize, AddressSpaceManager.highPart, backingLast,
      range_mk, size] at hfront ⊢
    generalize 2 ^ 64 = w at *
    have h1 := wrapSub_cases (b := s.range.back - p) hb (by omega)
    have h2 := wrapSub_cases hb hfront.le
    omega

lemma lowPart_hasBackingMemory : (AddressSpaceManager.lowPart s p).hasBackingMemory := by
  have hr := hok.range
  have hf := hok.front
  simp only [hasBackingMemory, AddressSpaceManager.lowPart,
    backingFirst]
  generalize 2 ^ 64 = w at *
  have h1 := wrapAdd_cases (b := p - s.range.front) hf (by omega)
  omega

lemma highPart_hasBackingMemory : (AddressSpaceManager.highPart s p).hasBackingMemory := by
  have hr := hok.range
  have hb := hok.back
  simp only [hasBackingMemory, AddressSpaceManager.highPart,
    backingLast]
  generalize 2 ^ 64 = w at *
  have h1 := wrapSub_cases (b := s.range.back - p) hb (by omega)
  omega

lemma callsOf_gonePart (side : ReleaseSide) : callsOf (gonePart s p side) = 2 := by
  cases side with
  | low => rw [callsOf, gonePart, if_pos (lowPart_hasBackingMemory hok hp)]
  | high => rw [callsOf, gonePart, if_pos (highPart_hasBackingMemory hok hp)]

lemma physical_lowPart (hs : s.hasBackingMemory) :
    physical (AddressSpaceManager.lowPart s p) a = physical s a := by
  simp only [physical, if_pos hs, if_pos (lowPart_hasBackingMemory hok hp), lowPart_range]
  simp only [AddressSpaceManager.lowPart, backingFirst]

lemma physical_highPart (hs : s.hasBackingMemory) (ha : p ≤ a ∧ a < s.range.back) :
    physical (AddressSpaceManager.highPart s p) a = physical s a := by
  have hsize := hok.backed hs
  have hr := hok.range
  have hf := hok.front
  have hb := hok.back
  have hfront : (AddressSpaceManager.highPart s p).backing.front < 2 ^ 64 :=
    wrapSub_lt (by decide)
  simp only [physical, if_pos hs, if_pos (highPart_hasBackingMemory hok hp), highPart_range]
  simp only [backingSize, size] at hsize
  simp only [AddressSpaceManager.highPart, backingLast, Option.some_inj] at hfront ⊢
  generalize 2 ^ 64 = w at *
  have h1 := wrapSub_cases hb hf.le
  have h2 := wrapSub_cases (b := s.range.back - p) hb (by omega)
  have h3 := wrapAdd_cases (b := a - p) hfront (by omega)
  have h4 := wrapAdd_cases (b := a - s.range.front) hf (by omega)
  omega

end Parts

lemma virtualRange_backed (hok : SegmentOk s) (hne : s.range.front < s.range.back)
    (hs : s.hasBackingMemory) : s.virtualRange = s.range := by
  have hsize := hok.backed hs
  simp only [size] at hsize
  have hback : s.range.front + (s.range.back - s.range.front) = s.range.back := by omega
  rw [virtualRange, hsize, hback]

lemma virtualRange_external (hs : ¬ s.hasBackingMemory) (hok : SegmentOk s) :
    s.virtualRange = ⟨s.range.front, s.range.front⟩ := by
  have heq : s.backing.front = s.backing.back := by
    simpa [hasBackingMemory] using hs
  have hsize : s.backingSize = 0 := by
    have hb := hok.back
    simp only [backingSize, heq]
    generalize 2 ^ 64 = w at *
    have := wrapSub_cases hb hb.le
    omega
  simp [virtualRange, hsize]

/-- Every segment of the table is as the mapping functions made it. -/
structure Sound (m : AddressSpaceManager) : Prop where
  wf : RangeTable.WellFormed AddressSegment.range m.table
  segments : ∀ s ∈ m.table, SegmentOk s

namespace Sound

section

variable (hm : Sound m)

include hm

lemma of_sublist (h : m'.table.Sublist m.table) : Sound m' :=
  ⟨⟨fun s hs => hm.wf.nonempty s (h.subset hs), hm.wf.disjoint.sublist h⟩,
    fun s hs => hm.segments s (h.subset hs)⟩

lemma replace (ht : m.table = pre ++ s :: post) {parts : List AddressSegment}
    (ht' : m'.table = pre ++ (parts ++ post))
    (hparts : RangeTable.WellFormed AddressSegment.range parts)
    (hinside : ∀ q ∈ parts, s.range.front ≤ q.range.front ∧ q.range.back ≤ s.range.back)
    (hok : ∀ q ∈ parts, SegmentOk q) : Sound m' := by
  refine ⟨?_, fun q hq => ?_⟩
  · rw [ht']
    exact (ht ▸ hm.wf).replace hparts hinside
  · simp only [ht', mem_append] at hq
    rcases hq with hq | hq | hq
    · exact hm.segments q (by simp [ht, hq])
    · exact hok q hq
    · exact hm.segments q (by simp [ht, hq])

lemma splitSegment {it : Nat} {side : ReleaseSide} {status : OsStatus}
    (h : m.splitSegment it p side = .ok (status, m')) : Sound m' := by
  cases hget : m.table[it]? with
  | none => simp [AddressSpaceManager.splitSegment, hget] at h
  | some s =>
    obtain ⟨pre, post, ht, rfl⟩ := cut_at hget
    have hok := hm.segments s (by simp [ht])
    obtain ⟨-, hp, htakes⟩ | ⟨-, hsame⟩ := splitSegment_takes ht hm.wf h
    · -- the kept part lies inside the segment, whichever side goes
      have hkept : SegmentOk (keptPart s p side) ∧
          (keptPart s p side).range.front < (keptPart s p side).range.back ∧
          s.range.front ≤ (keptPart s p side).range.front ∧
          (keptPart s p side).range.back ≤ s.range.back := by
        cases side with
        | low => exact ⟨hok.highPart hp, hp.2, hp.1.le, le_rfl⟩
        | high => exact ⟨hok.lowPart hp, hp.1, le_rfl, hp.2.le⟩
      have ht' : m'.table = pre ++ ([keptPart s p side] ++ post) := htakes.table
      refine hm.replace ht ht' ⟨?_, by simp⟩ ?_ ?_
      · simpa using hkept.2.1
      · simpa using hkept.2.2
      · simpa using hkept.1
    · exact hm.of_sublist (by rw [hsame])

lemma eraseSegmentAt {it : Nat} (h : m.eraseSegmentAt it = .ok m') : Sound m' := by
  cases hget : m.table[it]? with
  | none => simp [AddressSpaceManager.eraseSegmentAt, hget] at h
  | some s =>
    obtain ⟨pre, post, ht, rfl⟩ := cut_at hget
    refine hm.of_sublist ?_
    rw [(eraseSegmentAt_takes ht h).table, ht]
    exact (sublist_cons_self s post).append_left pre

lemma eraseSegment (h : m.eraseSegment r = .ok m') : Sound m' :=
  hm.of_sublist (eraseSegment_sublist h)

lemma eraseMany (hr : r.front ≤ r.back) (h : m.eraseMany r = .ok m') : Sound m' :=
  hm.of_sublist (eraseMany_keeps hm.wf hr h).1

end

end Sound

/-! ## The parts of a segment outside a range -/

def remains (r : AnyRange) (s : AddressSegment) : List AddressSegment :=
  (if s.range.front < r.front then [lowPart s r.front] else []) ++
    (if r.back < s.range.back then [highPart s r.back] else [])

/-- The blocks needed to cut a range out of a segment. -/
def splitsOf (r : AnyRange) (s : AddressSegment) : Nat :=
  (if s.range.front < r.front then 1 else 0) + (if r.back < s.range.back then 1 else 0)

section Remains

variable (hmeet : r.front < s.range.back ∧ s.range.front < r.back)

include hmeet in
lemma mem_remains (hok : SegmentOk s) {q : AddressSegment} (hq : q ∈ remains r s) :
    SegmentOk q ∧ q.range.front < q.range.back ∧ s.range.front ≤ q.range.front ∧
      q.range.back ≤ s.range.back := by
  simp only [remains, mem_append, mem_ite_nil_right, mem_singleton] at hq
  rcases hq with ⟨hlt, rfl⟩ | ⟨hlt, rfl⟩
  · refine ⟨hok.lowPart ⟨hlt, hmeet.1⟩, ?_⟩
    simp only [lowPart_range]
    omega
  · refine ⟨hok.highPart ⟨hmeet.2, hlt⟩, ?_⟩
    simp only [highPart_range]
    omega

lemma wellFormed_remains (hr : r.front < r.back) :
    RangeTable.WellFormed AddressSegment.range (remains r s) := by
  have hlow : s.range.front < r.front →
      RangeTable.WellFormed AddressSegment.range [lowPart s r.front] :=
    fun hlt => ⟨by simpa using hlt, by simp⟩
  have hhigh : r.back < s.range.back →
      RangeTable.WellFormed AddressSegment.range [highPart s r.back] :=
    fun hlt => ⟨by simpa using hlt, by simp⟩
  refine wellFormed_append.2 ⟨?_, ?_, ?_⟩
  · split
    · exact hlow ‹_›
    · exact .nil
  · split
    · exact hhigh ‹_›
    · exact .nil
  · intro a ha b hb
    simp only [mem_ite_nil_right, mem_singleton] at ha hb
    obtain ⟨-, rfl⟩ := ha
    obtain ⟨-, rfl⟩ := hb
    simpa using hr.le

include hmeet in
lemma backingAt_remains (hok : SegmentOk s) (hs : s.hasBackingMemory ∨ r.containsRange s.range)
    (a : Nat) :
    backingAt (remains r s) a =
      updateAt AddressSegment.range physical (fun _ => none) r [s] a := by
  have hlow : ∀ hlt : s.range.front < r.front, physical (lowPart s r.front) a = physical s a := by
    intro hlt
    refine physical_lowPart hok ⟨hlt, hmeet.1⟩ (hs.resolve_right fun hc => ?_)
    exact absurd hc.1 (by omega)
  have hhigh : r.back < s.range.back → r.back ≤ a ∧ a < s.range.back →
      physical (highPart s r.back) a = physical s a := by
    intro hlt ha
    refine physical_highPart hok ⟨hmeet.2, hlt⟩ (hs.resolve_right fun hc => ?_) ha
    exact absurd hc.2 (by omega)
  have hlo : valueAt AddressSegment.range physical
      (if s.range.front < r.front then [lowPart s r.front] else []) a =
        if (AnyRange.mk s.range.front r.front).contains a then some (physical s a) else none := by
    split
    · rename_i hlt
      rw [valueAt_cons, valueAt_nil, hlow hlt]
      rfl
    · rw [if_neg (by simp only [AnyRange.contains]; omega), valueAt_nil]
  have hhi : valueAt AddressSegment.range physical
      (if r.back < s.range.back then [highPart s r.back] else []) a =
        if (AnyRange.mk r.back s.range.back).contains a then some (physical s a) else none := by
    split
    · rename_i hlt
      rw [valueAt_cons, valueAt_nil, highPart_range]
      by_cases ha : (AnyRange.mk r.back s.range.back).contains a
      · rw [if_pos ha, if_pos ha, hhigh hlt ha]
      · rw [if_neg ha, if_neg ha]
    · rw [if_neg (by simp only [AnyRange.contains]; omega), valueAt_nil]
  rw [updateAt, backingAt, remains, valueAt_append, hlo, hhi,
    valueAt_cons, valueAt_nil]
  by_cases h1 : (AnyRange.mk s.range.front r.front).contains a
  · have h2 : ¬ r.contains a := by
      simp only [AnyRange.contains] at h1 ⊢
      omega
    have h3 : s.range.contains a := by
      simp only [AnyRange.contains] at h1 ⊢
      omega
    rw [if_pos h1, if_neg h2, if_pos h3, Option.some_or]
  · rw [if_neg h1, Option.none_or]
    by_cases h2 : r.contains a
    · have h3 : ¬ (AnyRange.mk r.back s.range.back).contains a := by
        simp only [AnyRange.contains] at h2 ⊢
        omega
      rw [if_pos h2, if_neg h3]
      simp
    · rw [if_neg h2]
      refine if_congr ?_ rfl rfl
      simp only [AnyRange.contains] at h1 h2 ⊢
      omega

end Remains

/-! ## A range that meets one segment -/

section One

variable {status : OsStatus} (ht : m.table = pre ++ s :: post)
  (hwf : RangeTable.WellFormed AddressSegment.range m.table) (hok : SegmentOk s)
  (hr : r.front < r.back) (hmeet : r.front < s.range.back ∧ s.range.front < r.back)

include ht

lemma unmapOne_eq (hvr : s.virtualRange = s.range) :
    m.unmapOne pre.length r =
      if r.containsRange s.range then
        (m.eraseSegmentAt pre.length).map fun m => (.success, m)
      else if r.front ≤ s.range.front then m.splitSegment pre.length r.back .low
      else if s.range.back ≤ r.back then m.splitSegment pre.length r.front .high
      else m.unmapInner pre.length s r := by
  have hget : m.table[pre.length]? = some s := by rw [ht, getElem?_append_cons]
  simp only [unmapOne, hget, hvr]
  by_cases h1 : r.containsRange s.range
  · simp only [h1, or_true, if_true]
    cases m.eraseSegmentAt pre.length <;> rfl
  · have hne : ¬ (s.range = r ∨ r.containsRange s.range) := by
      rintro (heq | hc)
      · exact h1 (by simp [heq, containsRange])
      · exact h1 hc
    simp only [if_neg hne, if_neg h1]
    rw [containsRange_iff] at h1
    by_cases h2 : r.front ≤ s.range.front
    · rw [if_pos h2]
      by_cases h3 : r.front = s.range.front
      · rw [if_pos h3]
      · have hin : ¬ s.range.containsRange r := fun hc => by have := hc.1; omega
        rw [if_neg h3, if_neg (by omega), if_neg hin, if_pos (by omega)]
    · rw [if_neg h2, if_neg (by omega)]
      by_cases h3 : s.range.back ≤ r.back
      · rw [if_pos h3]
        by_cases h4 : r.back = s.range.back
        · rw [if_pos h4]
        · have hin : ¬ s.range.containsRange r := fun hc => by have := hc.2; omega
          rw [if_neg h4, if_neg hin, if_neg (by omega), if_pos (by omega)]
      · have hin : s.range.containsRange r := ⟨by omega, by omega⟩
        rw [if_neg h3, if_neg (by omega), if_pos hin]

lemma unmapOne_external_eq (hmeet : r.front < s.range.back ∧ s.range.front < r.back)
    (hvr : s.virtualRange = ⟨s.range.front, s.range.front⟩) :
    m.unmapOne pre.length r =
      if r.front ≤ s.range.front then
        (m.eraseSegmentAt pre.length).map fun m => (.success, m)
      else m.splitSegment pre.length r.front .high := by
  have hget : m.table[pre.length]? = some s := by rw [ht, getElem?_append_cons]
  simp only [unmapOne, hget, hvr]
  by_cases h1 : r.front ≤ s.range.front
  · rw [if_pos (.inr ⟨h1, hmeet.2.le⟩), if_pos h1]
    cases m.eraseSegmentAt pre.length <;> rfl
  · have hne : ¬ ((⟨s.range.front, s.range.front⟩ : AnyRange) = r ∨
        r.containsRange ⟨s.range.front, s.range.front⟩) := by
      rintro (heq | hc)
      · exact h1 (by simp [← heq])
      · exact h1 hc.1
    have hin : ¬ (AnyRange.mk s.range.front s.range.front).containsRange r := by
      rw [containsRange_iff]
      dsimp only
      omega
    rw [if_neg h1, if_neg hne, if_neg (by omega), if_neg (by omega), if_neg hin,
      if_neg (by omega), if_pos (by omega)]

section Inner

variable (hin : s.range.front < r.front ∧ r.front < r.back ∧ r.back < s.range.back)

def cutOut (m : AddressSpaceManager) (it : Nat) (s : AddressSegment) (r : AnyRange) :
    AddressSpaceManager :=
  (((m.free r).erase it).addSegment (lowPart s r.front)).addSegment (highPart s r.back)

omit ht

include hin

lemma unmapInner_granted (it : Nat) (hvr : s.virtualRange = s.range)
    (hg : 2 ≤ granted m.heap) :
    ∃ h memory, m.unmapInner it s r =
      ({ m with heap := h }.call (.release memory) >>= fun m => m.call (.unmap r)).map
        fun m => (OsStatus.success, cutOut m it s r) := by
  have hlhs : ¬ ((AnyRange.mk s.range.front r.front).isEmpty ∨
      (AnyRange.mk r.back s.range.back).isEmpty) := by
    simp only [AnyRange.isEmpty]
    omega
  obtain ⟨h, hsplit, -⟩ := splitv_of_granted hin hg
  refine ⟨h, ⟨wrapAdd (2 ^ 64) s.backing.front (r.front - s.range.front),
    wrapAdd (2 ^ 64) (s.backing.front + (r.front - s.range.front)) r.size⟩, ?_⟩
  simp only [unmapInner, hvr, if_neg hlhs, AddressSegment.allocation_eq_range, hsplit]
  generalize wrapAdd (2 ^ 64) s.backing.front (r.front - s.range.front) = x
  generalize wrapAdd (2 ^ 64) (s.backing.front + (r.front - s.range.front)) r.size = y
  cases h1 : { m with heap := h }.call (.release ⟨x, y⟩) with
  | error e => rfl
  | ok m1 =>
    cases h2 : m1.call (.unmap r) with
    | error e => simp [bind, Except.bind, Except.map, h2]
    | ok m2 => simp [bind, Except.bind, Except.map, h2, pure, Except.pure, cutOut, lowPart,
        highPart, size]

lemma unmapInner_refused (it : Nat) (hvr : s.virtualRange = s.range)
    (hg : granted m.heap < 2) :
    ∃ h, m.unmapInner it s r = .ok (.outOfMemory, { m with heap := h }) := by
  have hlhs : ¬ ((AnyRange.mk s.range.front r.front).isEmpty ∨
      (AnyRange.mk r.back s.range.back).isEmpty) := by
    simp only [AnyRange.isEmpty]
    omega
  obtain ⟨h, hsplit, -⟩ := splitv_of_refused hin hg
  exact ⟨h, by simp only [unmapInner, hvr, if_neg hlhs, AddressSegment.allocation_eq_range, hsplit]⟩

lemma cutOut_table (ht : m.table = pre ++ s :: post)
    (hwf : RangeTable.WellFormed AddressSegment.range m.table) :
    (m.cutOut pre.length s r).table = pre ++ (remains r s ++ post) := by
  have hat := (ht ▸ hwf).at_cons
  simp only [cutOut, addSegment, erase, free]
  rw [ht, eraseIdx_append_cons, insert_inside (ht ▸ hwf)]
  · have hcut : pre ++ lowPart s r.front :: post = (pre ++ [lowPart s r.front]) ++ post := by simp
    rw [hcut, insert_eq]
    · simp [remains, hin]
    · intro a ha
      rw [highPart_range]
      rcases mem_append.1 ha with ha | ha
      · have := hat.2.1 a ha
        dsimp only
        omega
      · obtain rfl := mem_singleton.1 ha
        rw [lowPart_range]
        dsimp only
        omega
    · intro a ha
      have := hat.2.2 a ha
      rw [highPart_range]
      dsimp only
      omega
  · rw [lowPart_range]
    exact hin.1
  · rw [lowPart_range]
    dsimp only
    omega

end Inner

lemma unmapOne_served (hvr : s.virtualRange = s.range)
    (hwf : RangeTable.WellFormed AddressSegment.range m.table)
    (hr : r.front < r.back) (hmeet : r.front < s.range.back ∧ s.range.front < r.back)
    (hg : splitsOf r s ≤ granted m.heap) (hc : 2 ≤ m.served) :
    ∃ m', m.unmapOne pre.length r = .ok (.success, m') := by
  have hcalls : ∀ u : AddressSegment, callsOf u ≤ 2 := by
    intro u
    rw [callsOf]
    split <;> omega
  rw [unmapOne_eq ht hvr]
  simp only [splitsOf] at hg
  by_cases h1 : r.containsRange s.range
  · obtain ⟨m1, h2⟩ := eraseSegmentAt_served ht ((hcalls s).trans hc)
    exact ⟨m1, by rw [if_pos h1, h2]; rfl⟩
  · rw [if_neg h1]
    rw [containsRange_iff] at h1
    by_cases h2 : r.front ≤ s.range.front
    · have hlt : r.back < s.range.back := by omega
      rw [if_pos h2]
      rw [if_pos hlt] at hg
      exact splitSegment_served ht _ hwf ⟨hmeet.2, hlt⟩ (by omega) ((hcalls _).trans hc)
    · rw [if_neg h2]
      rw [if_pos (by omega)] at hg
      by_cases h3 : s.range.back ≤ r.back
      · rw [if_pos h3]
        exact splitSegment_served ht _ hwf ⟨by omega, hmeet.1⟩ (by omega) ((hcalls _).trans hc)
      · rw [if_neg h3]
        rw [if_pos (by omega)] at hg
        obtain ⟨h, memory, heq⟩ := unmapInner_granted
          ⟨by omega, hr, by omega⟩ pre.length hvr (by omega)
        have hsame : ({ m with heap := h } : AddressSpaceManager).served = m.served := rfl
        obtain ⟨m1, h4, -, -, hs1⟩ :=
          call_served (m := { m with heap := h }) (by omega)
        obtain ⟨m2, h5, -, -, -⟩ := call_served (m := m1) (c := .unmap r) (by omega)
        exact ⟨_, by rw [heq, h4]; simp only [bind, Except.bind, h5, Except.map]; rfl⟩

lemma unmapOne_takes (hvr : s.virtualRange = s.range)
    (hwf : RangeTable.WellFormed AddressSegment.range m.table) (hok : SegmentOk s)
    (hs : s.hasBackingMemory) (hr : r.front < r.back)
    (hmeet : r.front < s.range.back ∧ s.range.front < r.back)
    (h : m.unmapOne pre.length r = .ok (status, m')) :
    (status = .success ∧ m'.table = pre ++ (remains r s ++ post) ∧
        splitsOf r s ≤ granted m.heap ∧ 2 ≤ m.served) ∨
      (status ≠ .success ∧ m'.table = m.table) := by
  rw [unmapOne_eq ht hvr] at h
  simp only [splitsOf, remains]
  by_cases h1 : r.containsRange s.range
  · rw [if_pos h1] at h
    rw [containsRange_iff] at h1
    cases he : m.eraseSegmentAt pre.length with
    | error e => simp [he, Except.map] at h
    | ok m1 =>
      simp only [he, Except.map, Except.ok.injEq, Prod.mk.injEq] at h
      obtain ⟨rfl, rfl⟩ := h
      have htakes := eraseSegmentAt_takes ht he
      have := htakes.calls
      rw [callsOf, if_pos hs] at this
      rw [if_neg (by omega), if_neg (by omega), if_neg (by omega), if_neg (by omega)]
      exact .inl ⟨rfl, by simpa using htakes.table, by simp, by omega⟩
  · rw [if_neg h1] at h
    rw [containsRange_iff] at h1
    by_cases h2 : r.front ≤ s.range.front
    · have hlt : r.back < s.range.back := by omega
      rw [if_pos h2] at h
      have hnlt : ¬ s.range.front < r.front := by omega
      rw [if_neg hnlt, if_neg hnlt, if_pos hlt, if_pos hlt]
      obtain ⟨rfl, -, htakes⟩ | hsame := splitSegment_takes ht hwf h
      · have hb := htakes.blocks
        have hc := htakes.calls
        rw [callsOf_gonePart hok ⟨hmeet.2, hlt⟩] at hc
        exact .inl ⟨rfl, htakes.table, by omega, by omega⟩
      · exact .inr hsame
    · have hlt : s.range.front < r.front := by omega
      rw [if_neg h2] at h
      rw [if_pos hlt, if_pos hlt]
      by_cases h3 : s.range.back ≤ r.back
      · rw [if_pos h3] at h
        have hnlt : ¬ r.back < s.range.back := by omega
        rw [if_neg hnlt, if_neg hnlt]
        obtain ⟨rfl, -, htakes⟩ | hsame := splitSegment_takes ht hwf h
        · have hb := htakes.blocks
          have hc := htakes.calls
          rw [callsOf_gonePart hok ⟨hlt, hmeet.1⟩] at hc
          exact .inl ⟨rfl, htakes.table, by omega, by omega⟩
        · exact .inr hsame
      · rw [if_neg h3] at h
        have hin : s.range.front < r.front ∧ r.front < r.back ∧ r.back < s.range.back :=
          ⟨hlt, hr, by omega⟩
        rw [if_pos hin.2.2, if_pos hin.2.2]
        by_cases hg : granted m.heap < 2
        · obtain ⟨h', heq⟩ := unmapInner_refused hin pre.length hvr hg
          rw [heq] at h
          cases h
          exact .inr ⟨by decide, rfl⟩
        · obtain ⟨h', memory, heq⟩ := unmapInner_granted hin pre.length hvr (not_lt.1 hg)
          rw [heq] at h
          simp only [bind, Except.bind] at h
          cases h4 : ({ m with heap := h' } : AddressSpaceManager).call (.release memory) with
          | error e => simp [h4, Except.map] at h
          | ok m1 =>
            cases h5 : m1.call (.unmap r) with
            | error e => simp [h4, h5, Except.map] at h
            | ok m2 =>
              simp only [h4, h5, Except.map, Except.ok.injEq, Prod.mk.injEq] at h
              obtain ⟨rfl, rfl⟩ := h
              have ht1 := call_takes h4
              have ht2 := ht1.trans (call_takes h5)
              have hsame : m2.table = m.table := by
                rw [ht2.table, ht1.table]
              have hcut := cutOut_table hin (hsame.trans ht) (hsame ▸ hwf)
              have hc : m2.served + 2 = m.served := ht2.calls
              simp only [remains, if_pos hin.1, if_pos hin.2.2] at hcut
              exact .inl ⟨rfl, hcut, by omega, by omega⟩

end One

end AddressSpaceManager
end BezOS
