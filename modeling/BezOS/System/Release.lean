import BezOS.System.RetainOutcome

/-!
# Releasing a range

`MemoryManager::release` computed on a table cut at the range, in the order of
`BezOS.System.Retain`: one segment, both ends in segments, and the loop. A released part leaves the
table together with its last owner, so the segments the range meets are replaced by their
`releasePieces`.
-/

namespace BezOS
namespace MemoryManager

open Lib AnyRange List MemorySegment

variable {m : MemoryManager} {pre post mid : List MemorySegment} {s : MemorySegment}
  {r : AnyRange}

/-! ## One segment -/

/-- The two parts of a segment cut at `mid`, the one on `side` with an owner less. -/
def releaseParts (s : MemorySegment) (mid : Nat) : ReleaseSide → List MemorySegment
  | .low => releasedOne ⟨s.owners, ⟨s.range.front, mid⟩⟩ ++ [⟨s.owners, ⟨mid, s.range.back⟩⟩]
  | .high => ⟨s.owners, ⟨s.range.front, mid⟩⟩ :: releasedOne ⟨s.owners, ⟨mid, s.range.back⟩⟩

lemma releasePieces_low (h1 : r.front ≤ s.range.front) (h2 : r.back < s.range.back) :
    releasePieces r s = releaseParts s r.back .low := by
  have hmax : max s.range.front r.front = s.range.front := by omega
  have hmin : min s.range.back r.back = r.back := by omega
  simp [releasePieces, releasedOne, releaseParts, below_of_le h1, inside, above, h2, hmax,
    hmin]

lemma releasePieces_high (h1 : s.range.front < r.front) (h2 : s.range.back ≤ r.back) :
    releasePieces r s = releaseParts s r.front .high := by
  have hmax : max s.range.front r.front = r.front := by omega
  have hmin : min s.range.back r.back = s.range.back := by omega
  simp [releasePieces, releasedOne, releaseParts, below, h1, inside, above_of_le h2, hmax,
    hmin]

lemma releasePieces_inner (h1 : s.range.front < r.front) (h2 : r.back < s.range.back) :
    releasePieces r s = ⟨s.owners, ⟨s.range.front, r.front⟩⟩ :: (releasedOne ⟨s.owners, r⟩ ++
      [⟨s.owners, ⟨r.back, s.range.back⟩⟩]) := by
  have hmax : max s.range.front r.front = r.front := by omega
  have hmin : min s.range.back r.back = r.back := by omega
  simp [releasePieces, releasedOne, below, h1, inside, above, h2, hmax, hmin]

lemma releasePieces_contained (h : r.containsRange s.range) :
    releasePieces r s = releasedOne s := releasePieces_of_contained h

lemma range_of_mem_releasedOne {p : MemorySegment} (hp : p ∈ releasedOne s) :
    p.range = s.range := by
  simp only [releasedOne] at hp
  split at hp
  · simp at hp
  · rw [mem_singleton.1 hp]
    rfl

lemma releaseOrAdd_pair (ht : m.table = pre ++ post)
    (hwf : RangeTable.WellFormed range (pre ++ s :: post)) (lo hi : MemorySegment)
    (hlo : s.range.front < lo.range.back) (hmid : lo.range.back < hi.range.back)
    (hhi : hi.range.back ≤ s.range.back) :
    (m.releaseOrAdd lo).addSegment hi =
        ⟨pre ++ (releasedOne lo ++ hi :: post), freedOne m.heap lo⟩ ∧
      (m.releaseOrAdd hi).addSegment lo =
        ⟨pre ++ (lo :: (releasedOne hi ++ post)), freedOne m.heap hi⟩ := by
  have hpre : ∀ a ∈ pre, a.range.back < lo.range.back := by
    intro a ha
    have := hwf.at_cons.2.1 a ha
    omega
  have hpost : ∀ a ∈ post, hi.range.back < a.range.back := by
    intro a ha
    have := hwf.at_cons.2.2 a ha
    omega
  constructor
  · rw [releaseOrAdd_eq ht hpre fun a ha => hmid.trans (hpost a ha)]
    rw [← append_assoc, addSegment_eq rfl (fun a ha => ?_) hpost]
    · simp
    · rcases mem_append.1 ha with ha | ha
      · exact (hpre a ha).trans hmid
      · rwa [range_of_mem_releasedOne ha]
  · rw [releaseOrAdd_eq ht (fun a ha => (hpre a ha).trans hmid) hpost]
    rw [addSegment_eq rfl hpre fun a ha => ?_]
    rcases mem_append.1 ha with ha | ha
    · rwa [range_of_mem_releasedOne ha]
    · exact hmid.trans (hpost a ha)

section Segment

variable (ht : m.table = pre ++ s :: post)
  (hwf : RangeTable.WellFormed range m.table)

include ht

lemma splitSegment_outside {p : Nat} (hp : p ≤ s.range.front ∨ s.range.back ≤ p)
    (side : ReleaseSide) : m.splitSegment pre.length p side = .ok (.invalidInput, m) := by
  simp only [splitSegment, get_eq ht, split_of_outside hp]

lemma splitSegment_refused {p : Nat} (hp : s.range.front < p ∧ p < s.range.back)
    (hg : granted m.heap = 0) (side : ReleaseSide) :
    ∃ h, m.splitSegment pre.length p side = .ok (.outOfMemory, ⟨m.table, h⟩) ∧
      h.used = m.heap.used := by
  obtain ⟨h, hsplit, hused⟩ := split_of_refused hp hg
  exact ⟨h, by simp only [splitSegment, get_eq ht, hsplit], hused⟩

include hwf

lemma splitSegment_granted {p : Nat} (hp : s.range.front < p ∧ p < s.range.back)
    (hg : 0 < granted m.heap) (side : ReleaseSide) :
    ∃ h, m.splitSegment pre.length p side =
        .ok (.success, ⟨pre ++ (releaseParts s p side ++ post), h⟩) ∧
      granted h + 1 = granted m.heap ∧
      Exchanges m.heap h [s.range] ((releaseParts s p side).map range) := by
  obtain ⟨h, hsplit, hgr, hex⟩ := split_of_granted hp hg
  rw [ht] at hwf
  have herase : erase { m with heap := h } pre.length = ⟨pre ++ post, h⟩ :=
    erase_eq ht
  let lo : MemorySegment := ⟨s.owners, ⟨s.range.front, p⟩⟩
  let hi : MemorySegment := ⟨s.owners, ⟨p, s.range.back⟩⟩
  have hpair := releaseOrAdd_pair (m := ⟨pre ++ post, h⟩) rfl hwf lo hi hp.1 hp.2 (le_refl _)
  have hfree : ∀ u, granted (freedOne h u) = granted h := by
    intro u
    simp only [freedOne]
    split <;> rfl
  cases side with
  | low =>
    refine ⟨freedOne h lo, ?_, by rw [hfree, hgr], ?_⟩
    · simp only [splitSegment, get_eq ht, hsplit, herase]
      rw [hpair.1]
      simp [releaseParts, lo, hi]
    · have hfr := (Exchanges.freedOne h lo).frame_right [hi.range]
      simpa [releaseParts, lo, hi] using hex.trans hfr
  | high =>
    refine ⟨freedOne h hi, ?_, by rw [hfree, hgr], ?_⟩
    · simp only [splitSegment, get_eq ht, hsplit, herase]
      rw [hpair.2]
      simp [releaseParts, lo, hi]
    · have hfr := (Exchanges.freedOne h hi).frame_left [lo.range]
      simpa [releaseParts, lo, hi] using hex.trans hfr

end Segment

/-! ## A range that meets one segment -/

section One

variable (ht : m.table = pre ++ s :: post)
  (hwf : RangeTable.WellFormed range m.table)
  (hr : r.front < r.back) (hs : r.front < s.range.back ∧ s.range.front < r.back)

include ht

lemma releaseOne_high (h1 : s.range.front < r.front) (h0 : r.front < s.range.back)
    (h2 : s.range.back ≤ r.back) :
    m.releaseOne pre.length r = m.splitSegment pre.length r.front .high := by
  have hc : ¬ (s.range = r ∨ r.containsRange s.range) := by
    rintro (h | h)
    · rw [h] at h1
      omega
    · exact absurd h.1 (by omega)
  have hin : ¬ (s.range.containsRange r ∧ ¬ innerAdjacent s.range r) := by
    simp only [containsRange, innerAdjacent]
    omega
  have hcon : ¬ ((s.range.back = r.back ∧ s.range.front > r.front) ∨
      (s.range.front = r.front ∧ r.back > s.range.back)) := by omega
  have hlow : ¬ (s.range.back > r.back ∧ s.range.front > r.front) := by omega
  simp only [releaseOne, get_eq ht, if_neg hc, if_neg hin, if_neg hcon, if_neg hlow]
  by_cases hlt : r.back > s.range.back ∧ r.front > s.range.front
  · exact if_pos hlt
  · have h3 : ¬ (s.range.front > r.front ∧ s.range.contains r.back) := by omega
    have h4 : ¬ (s.range.front > r.front ∧ s.range.back = r.back) := by omega
    have h5 : ¬ (s.range.front = r.front ∧ s.range.contains r.back) := by omega
    have h6 : s.range.back = r.back ∧ s.range.contains r.front := by
      simp only [AnyRange.contains]
      omega
    rw [if_neg hlt, if_neg h3, if_neg h4, if_neg h5, if_pos h6]

lemma releaseOne_low (h1 : r.front ≤ s.range.front) (h0 : s.range.front < r.back)
    (h2 : r.back < s.range.back) :
    m.releaseOne pre.length r = m.splitSegment pre.length r.back .low := by
  have hc : ¬ (s.range = r ∨ r.containsRange s.range) := by
    rintro (h | h)
    · rw [h] at h2
      omega
    · exact absurd h.2 (by omega)
  have hin : ¬ (s.range.containsRange r ∧ ¬ innerAdjacent s.range r) := by
    simp only [containsRange, innerAdjacent]
    omega
  have hcon : ¬ ((s.range.back = r.back ∧ s.range.front > r.front) ∨
      (s.range.front = r.front ∧ r.back > s.range.back)) := by omega
  simp only [releaseOne, get_eq ht, if_neg hc, if_neg hin, if_neg hcon]
  by_cases hlt : s.range.back > r.back ∧ s.range.front > r.front
  · exact if_pos hlt
  · have h3 : ¬ (r.back > s.range.back ∧ r.front > s.range.front) := by omega
    have h4 : ¬ (s.range.front > r.front ∧ s.range.contains r.back) := by omega
    have h5 : ¬ (s.range.front > r.front ∧ s.range.back = r.back) := by omega
    have h6 : s.range.front = r.front ∧ s.range.contains r.back := by
      simp only [AnyRange.contains]
      omega
    rw [if_neg hlt, if_neg h3, if_neg h4, if_neg h5, if_pos h6]

include hr hs

lemma releaseOne_refused (hg : granted m.heap < splitsOf r s) :
    ∃ h, m.releaseOne pre.length r = .ok (.outOfMemory, ⟨m.table, h⟩) ∧
      h.used = m.heap.used := by
  by_cases hlo : s.range.front < r.front <;> by_cases hhi : r.back < s.range.back <;>
    simp only [splitsOf, hlo, hhi, if_true, if_false] at hg
  · obtain ⟨h, hsplit, hused⟩ := splitv_of_refused ⟨hlo, hr, hhi⟩ hg
    have hcond := innerConditions hlo hhi
    refine ⟨h, ?_, hused⟩
    simp only [releaseOne, get_eq ht, if_neg (mt Or.symm hcond.1), if_pos hcond.2, hsplit]
  · rw [releaseOne_high ht hlo hs.1 (by omega)]
    exact splitSegment_refused ht ⟨hlo, hs.1⟩ (by omega) .high
  · rw [releaseOne_low ht (by omega) hs.2 hhi]
    exact splitSegment_refused ht ⟨hs.2, hhi⟩ (by omega) .low
  · omega

include hwf

lemma releaseOne_granted (hg : splitsOf r s ≤ granted m.heap) :
    ∃ h, m.releaseOne pre.length r = .ok (.success, ⟨pre ++ (releasePieces r s ++ post), h⟩) ∧
      Exchanges m.heap h [s.range] ((releasePieces r s).map range) := by
  by_cases hlo : s.range.front < r.front <;> by_cases hhi : r.back < s.range.back <;>
    simp only [splitsOf, hlo, hhi, if_true, if_false] at hg
  · -- both ends inside
    obtain ⟨h, hsplit, hex⟩ := splitv_of_granted ⟨hlo, hr, hhi⟩ hg
    have hcond := innerConditions hlo hhi
    let lo : MemorySegment := ⟨s.owners, ⟨s.range.front, r.front⟩⟩
    let mid : MemorySegment := ⟨s.owners, r⟩
    let hi : MemorySegment := ⟨s.owners, ⟨r.back, s.range.back⟩⟩
    have herase : erase { m with heap := h } pre.length = ⟨pre ++ post, h⟩ :=
      erase_eq ht
    rw [ht] at hwf
    have hpair := (releaseOrAdd_pair (m := ⟨pre ++ post, h⟩) rfl hwf lo mid hlo hr hhi.le).2
    have hadd : addSegment ⟨pre ++ (lo :: (releasedOne mid ++ post)), freedOne h mid⟩ hi =
        ⟨pre ++ (lo :: (releasedOne mid ++ hi :: post)), freedOne h mid⟩ := by
      have hcut : pre ++ (lo :: (releasedOne mid ++ post)) = (pre ++ lo :: releasedOne mid) ++ post := by
        simp
      rw [hcut, addSegment_eq rfl]
      · simp
      · intro a ha
        rcases mem_append.1 ha with ha | ha
        · have := hwf.at_cons.2.1 a ha
          simp only [hi, range_mk]
          omega
        · rcases mem_cons.1 ha with rfl | ha
          · exact hr.trans hhi
          · rw [range_of_mem_releasedOne ha]
            exact hhi
      · intro a ha
        have := hwf.at_cons.2.2 a ha
        simp only [hi, range_mk]
        omega
    refine ⟨freedOne h mid, ?_, ?_⟩
    · simp only [releaseOne, get_eq ht, if_neg (mt Or.symm hcond.1), if_pos hcond.2, hsplit, herase]
      rw [hpair, hadd, releasePieces_inner hlo hhi]
      simp [lo, mid, hi]
    · have hfr := ((Exchanges.freedOne h mid).frame_left [lo.range]).frame_right [hi.range]
      simpa [releasePieces_inner hlo hhi, lo, mid, hi] using hex.trans hfr
  · obtain ⟨h, hres, -, hex⟩ := splitSegment_granted ht hwf ⟨hlo, hs.1⟩ hg .high
    rw [releaseOne_high ht hlo hs.1 (by omega), releasePieces_high hlo (by omega)]
    exact ⟨h, hres, hex⟩
  · obtain ⟨h, hres, -, hex⟩ := splitSegment_granted ht hwf ⟨hs.2, hhi⟩ hg .low
    rw [releaseOne_low ht (by omega) hs.2 hhi, releasePieces_low (by omega) hhi]
    exact ⟨h, hres, hex⟩
  · have hc : r.containsRange s.range := ⟨by omega, by omega⟩
    simp only [releaseOne, get_eq ht, if_pos (Or.inr hc : s.range = r ∨ r.containsRange s.range)]
    rw [releaseEntry_eq ht, releasePieces_contained hc]
    exact ⟨freedOne m.heap s, rfl, .freedOne m.heap s⟩

end One

/-! ## A range with both ends in segments -/

section Ends

variable (ht : m.table = pre ++ s :: post)
  (hwf : RangeTable.WellFormed range m.table)

include ht hwf

lemma releaseLhs_eq (h1 : s.range.front ≤ r.front) (h2 : r.front < s.range.back)
    (h3 : s.range.back ≤ r.back) :
    ∃ h, m.releaseLhs s (cutParts (decide (s.range.front ≠ r.front)) s.range r.front) r =
        .ok ⟨pre ++ (releasePieces r s ++ post), h⟩ ∧
      Exchanges m.heap h (cutRanges (decide (s.range.front ≠ r.front)) s.range r.front)
        ((releasePieces r s).map range) := by
  by_cases h : s.range.front = r.front
  · have hc : r.containsRange s.range := ⟨h.ge, h3⟩
    refine ⟨freedOne m.heap s, ?_, ?_⟩
    · simp [releaseLhs, h, releaseEntryAt_eq ht hwf, releasePieces_contained hc]
    · simpa [cutRanges, h, releasePieces_contained hc] using Exchanges.freedOne m.heap s
  · have hlt := lt_of_le_of_ne h1 h
    have hsplit : decide (s.range.front ≠ r.front) = true := decide_eq_true h
    let lo : MemorySegment := ⟨s.owners, ⟨s.range.front, r.front⟩⟩
    let hi : MemorySegment := ⟨s.owners, ⟨r.front, s.range.back⟩⟩
    rw [releaseLhs, if_pos h, eraseKey_eq ht hwf, hsplit, releasePieces_high hlt h3]
    rw [ht] at hwf
    have hpair := (releaseOrAdd_pair (m := ⟨pre ++ post, m.heap⟩) rfl hwf lo hi hlt h2
      (le_refl _)).2
    refine ⟨freedOne m.heap hi, congrArg Except.ok hpair, ?_⟩
    simpa [cutRanges, releaseParts, lo, hi] using (Exchanges.freedOne m.heap hi).frame_left [lo.range]

lemma releaseRhs_eq (h1 : r.front ≤ s.range.front) (h2 : s.range.front < r.back)
    (h3 : r.back ≤ s.range.back) :
    ∃ h, m.releaseRhs s (cutParts (decide (s.range.back ≠ r.back)) s.range r.back) r =
        .ok ⟨pre ++ (releasePieces r s ++ post), h⟩ ∧
      Exchanges m.heap h (cutRanges (decide (s.range.back ≠ r.back)) s.range r.back)
        ((releasePieces r s).map range) := by
  by_cases h : s.range.back = r.back
  · have hc : r.containsRange s.range := ⟨h1, h.le⟩
    refine ⟨freedOne m.heap s, ?_, ?_⟩
    · simp only [releaseRhs, h, not_true_eq_false, if_false, ne_eq]
      rw [← h, releaseEntryAt_eq ht hwf, releasePieces_contained hc]
    · simpa [cutRanges, h, releasePieces_contained hc] using Exchanges.freedOne m.heap s
  · have hlt := lt_of_le_of_ne h3 (Ne.symm h)
    have hsplit : decide (s.range.back ≠ r.back) = true := decide_eq_true h
    let lo : MemorySegment := ⟨s.owners, ⟨s.range.front, r.back⟩⟩
    let hi : MemorySegment := ⟨s.owners, ⟨r.back, s.range.back⟩⟩
    rw [releaseRhs, if_pos h, eraseKey_eq ht hwf, hsplit, releasePieces_low h1 hlt]
    rw [ht] at hwf
    have hpair := (releaseOrAdd_pair (m := ⟨pre ++ post, m.heap⟩) rfl hwf lo hi h2 hlt
      (le_refl _)).1
    refine ⟨freedOne m.heap lo, ?_, ?_⟩
    · exact (congrArg Except.ok hpair).trans (by simp [releaseParts, lo, hi])
    · simpa [cutRanges, releaseParts, lo, hi] using
        (Exchanges.freedOne m.heap lo).frame_right [hi.range]

end Ends

lemma releaseMany_eq {p : Nat} (mid : List MemorySegment) :
    ∀ {m : MemoryManager} {pre : List MemorySegment} {n : Nat},
      m.table = pre ++ (mid ++ post) → (∀ a ∈ pre ++ mid, a.range.back ≤ p) →
      (∀ a ∈ post, p < a.range.back) → mid.length < n →
      ∃ h, releaseMany p n m pre.length (pre.length + mid.length) =
          .ok ⟨pre ++ (mid.flatMap releasedOne ++ post), h⟩ ∧
        Exchanges m.heap h (mid.map range)
          ((mid.flatMap releasedOne).map range) := by
  induction mid with
  | nil =>
    intro m pre n ht _ _ hfuel
    obtain ⟨n, rfl⟩ : ∃ k, n = k + 1 := ⟨n - 1, by omega⟩
    simp only [nil_append] at ht
    exact ⟨m.heap, by simp [releaseMany, ← ht], .refl _ _⟩
  | cons s mid ih =>
    intro m pre n ht hlow hhigh hfuel
    obtain ⟨n, rfl⟩ : ∃ k, n = k + 1 := ⟨n - 1, by simp at hfuel; omega⟩
    have hfuel' : mid.length < n := by simpa using hfuel
    have ht' : m.table = pre ++ s :: (mid ++ post) := by simpa using ht
    have hit : pre.length ≠ pre.length + (s :: mid).length := by simp
    by_cases hs : s.owners = 1
    · -- the segment leaves the table; the next one takes its place
      have hlow' : ∀ a ∈ pre ++ mid, a.range.back ≤ p := fun a ha => by
        rcases mem_append.1 ha with ha | ha
        · exact hlow a (by simp [ha])
        · exact hlow a (by simp [ha])
      obtain ⟨h, hrest, hex⟩ := ih (m := ⟨pre ++ (mid ++ post), m.heap.free s.range⟩) rfl hlow'
        hhigh hfuel'
      have hupper : upper ⟨pre ++ (mid ++ post), m.heap.free s.range⟩ p =
          pre.length + mid.length := by
        rw [← length_append]
        exact upper_eq (append_assoc _ _ _).symm hlow' hhigh
      have hfree : Exchanges m.heap (m.heap.free s.range) [s.range] [] := by
        simpa [freedOne, releasedOne, hs] using Exchanges.freedOne m.heap s
      have herase : m.table.eraseIdx pre.length = pre ++ (mid ++ post) := by
        rw [ht', eraseIdx_append_cons]
      refine ⟨h, ?_, ?_⟩
      · simp only [releaseMany, if_neg hit, get_eq ht', releaseSegment, if_pos hs, herase, hupper,
          hrest]
        simp [releasedOne, hs]
      · have hall := (hfree.frame_right (mid.map range)).trans hex
        simpa [releasedOne, hs] using hall
    · have hlow' : ∀ a ∈ (pre ++ [s.released]) ++ mid, a.range.back ≤ p := fun a ha => by
        simp only [mem_append, mem_singleton] at ha
        rcases ha with (ha | rfl) | ha
        · exact hlow a (by simp [ha])
        · exact hlow s (by simp)
        · exact hlow a (by simp [ha])
      obtain ⟨h, hrest, hex⟩ := ih (m := ⟨(pre ++ [s.released]) ++ (mid ++ post), m.heap⟩) rfl
        hlow' hhigh hfuel'
      have hlen : pre.length + (s :: mid).length = (pre ++ [s.released]).length + mid.length := by
        simp
        omega
      refine ⟨h, ?_, ?_⟩
      · have hmod : m.table.modify pre.length released =
            (pre ++ [s.released]) ++ (mid ++ post) := by
          simp [ht', modify_append_cons]
        have hone : pre.length + 1 = (pre ++ [s.released]).length := by simp
        simp only [releaseMany, if_neg hit, get_eq ht', releaseSegment, if_neg hs, hmod]
        rw [hone, hlen, hrest]
        simp [releasedOne, hs]
      · simpa [releasedOne, hs] using hex.frame_left [s.range]

lemma flatMap_releasePieces_of_contained (h : ∀ s ∈ mid, r.containsRange s.range) :
    mid.flatMap (releasePieces r) = mid.flatMap releasedOne := by
  induction mid with
  | nil => rfl
  | cons s mid ih =>
    rw [flatMap_cons, flatMap_cons, releasePieces_contained (h s (by simp)),
      ih fun u hu => h u (by simp [hu])]

section BothEnds

variable {lhs rhs : MemorySegment} {inner : List MemorySegment}
  (ht : m.table = pre ++ (lhs :: (inner ++ rhs :: post)))
  (hwf : RangeTable.WellFormed range m.table)
  (hl : lhs.range.front ≤ r.front ∧ r.front < lhs.range.back)
  (hr : rhs.range.front < r.back ∧ r.back ≤ rhs.range.back)

include ht hwf hl hr

lemma releaseEnds_refused (hg : granted m.heap < splitsOf r lhs + splitsOf r rhs) :
    ∃ h, m.releaseEnds lhs rhs r = .ok (.outOfMemory, ⟨m.table, h⟩) ∧ h.used = m.heap.used := by
  rw [splitsOf_ends ht hwf hl hr] at hg
  obtain ⟨h, hsplit, hused⟩ := splitEnds_refused hg
  exact ⟨h, by simp only [releaseEnds, hsplit], hused⟩

lemma releaseEnds_granted (hg : splitsOf r lhs + splitsOf r rhs ≤ granted m.heap) :
    ∃ h, m.releaseEnds lhs rhs r = .ok (.success,
        ⟨pre ++ ((lhs :: (inner ++ [rhs])).flatMap (releasePieces r) ++ post), h⟩) ∧
      Exchanges m.heap h ((lhs :: (inner ++ [rhs])).map range)
        (((lhs :: (inner ++ [rhs])).flatMap (releasePieces r)).map range) := by
  have hord := lhs_le_rhs ht hwf
  have hrr : r.front < r.back := by omega
  rw [splitsOf_ends ht hwf hl hr] at hg
  obtain ⟨h0, hsplit, hex0⟩ := splitEnds_granted hl hr hg
  have hwf' := hwf
  rw [ht] at hwf'
  have hat := hwf'.at_cons
  obtain ⟨h1, hlhs, hex1⟩ := releaseLhs_eq (m := ⟨m.table, h0⟩) ht hwf hl.1 hl.2
    (by omega)
  obtain ⟨hwfL, hinL⟩ := wellFormed_releasePieces ⟨hl.2, by omega⟩ hrr hat.1
  obtain ⟨hwfR, hinR⟩ := wellFormed_releasePieces ⟨by omega, hr.1⟩ hrr hord.2
  have hwf1 := hwf'.replace hwfL hinL
  have hassoc : pre ++ (releasePieces r lhs ++ (inner ++ rhs :: post)) =
      (pre ++ releasePieces r lhs ++ inner) ++ rhs :: post := by simp
  obtain ⟨h2, hrhs, hex2⟩ := releaseRhs_eq
    (m := ⟨pre ++ (releasePieces r lhs ++ (inner ++ rhs :: post)), h1⟩) hassoc hwf1
    (by omega) hr.1 hr.2
  -- the two ends, with the segments between them still as they were
  have hends : Exchanges m.heap h2 [lhs.range, rhs.range]
      ((releasePieces r lhs ++ releasePieces r rhs).map range) := by
    rw [map_append]
    exact hex0.trans ((hex1.frame_right _).trans (hex2.frame_left _))
  have hinner := between ht hwf
  have hin : ∀ u ∈ inner, r.containsRange u.range := by
    intro u hu
    have := hinner u hu
    exact ⟨by omega, by omega⟩
  simp only [releaseEnds, hsplit, hlhs, hrhs]
  by_cases hadj : lhs.range.back = rhs.range.front
  · obtain rfl : inner = [] := by
      refine eq_nil_iff_forall_not_mem.2 fun u hu => ?_
      have := hinner u hu
      omega
    exact ⟨h2, by simp [hadj], by simpa using hends⟩
  · obtain ⟨hup1, hup2⟩ := upper_ends ht hwf hinL hwfR hinR
    have hassoc2 : (pre ++ releasePieces r lhs ++ inner) ++ (releasePieces r rhs ++ post) =
        (pre ++ releasePieces r lhs) ++ (inner ++ (releasePieces r rhs ++ post)) := by simp
    have hlow : ∀ a ∈ (pre ++ releasePieces r lhs) ++ inner, a.range.back ≤ rhs.range.front := by
      intro a ha
      simp only [mem_append] at ha
      rcases ha with (ha | ha) | ha
      · have := hat.2.1 a ha
        omega
      · have := (hinL a ha).2
        omega
      · exact (hinner a ha).2.2
    have hhigh : ∀ a ∈ releasePieces r rhs ++ post, rhs.range.front < a.range.back := by
      intro a ha
      rcases mem_append.1 ha with ha | ha
      · have h3 := (hinR a ha).1
        have h4 := hwfR.nonempty a ha
        omega
      · have hassoc3 : pre ++ (lhs :: (inner ++ rhs :: post)) =
            (pre ++ lhs :: inner) ++ rhs :: post := by simp
        have := (hassoc3 ▸ hwf').at_cons.2.2 a ha
        omega
    obtain ⟨h3, hmany, hex3⟩ := releaseMany_eq inner
      (m := ⟨(pre ++ releasePieces r lhs) ++ (inner ++ (releasePieces r rhs ++ post)), h2⟩)
      (n := loopBound ⟨(pre ++ releasePieces r lhs) ++ (inner ++ (releasePieces r rhs ++ post)), h2⟩)
      rfl hlow hhigh (by simp [loopBound]; omega)
    refine ⟨h3, ?_, ?_⟩
    · rw [if_neg hadj, hassoc2, hup1, hup2, hmany]
      simp [flatMap_releasePieces_of_contained hin]
    · have hbetween := Exchanges.between (l := [lhs.range])
        (by simpa [map_append] using hends) hex3
      simpa [flatMap_releasePieces_of_contained hin] using hbetween

end BothEnds

end MemoryManager
end BezOS
