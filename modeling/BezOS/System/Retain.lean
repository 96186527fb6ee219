import BezOS.System.TableEdits

/-!
# Retaining a range

`MemoryManager::retain` computed on a table cut at the range. Where the call does what a
reference-count increment should, the segments the range meets are replaced by their
`retainPieces`; the remaining outcomes are listed with the table they leave behind.
-/

namespace BezOS
namespace MemoryManager

open Lib AnyRange MemorySegment

variable {m m' : MemoryManager} {pre post mid : List MemorySegment} {s : MemorySegment}
  {r : AnyRange}

/-! ## One segment -/

/-- The two parts of a segment cut at `mid`, the one on `side` with an owner more. -/
def retainParts (s : MemorySegment) (mid : Nat) : ReleaseSide → List MemorySegment
  | .low => [⟨s.owners + 1, ⟨s.range.front, mid⟩⟩, ⟨s.owners, ⟨mid, s.range.back⟩⟩]
  | .high => [⟨s.owners, ⟨s.range.front, mid⟩⟩, ⟨s.owners + 1, ⟨mid, s.range.back⟩⟩]

lemma retainPieces_low (h1 : r.front ≤ s.range.front) (h2 : r.back < s.range.back) :
    retainPieces r s = retainParts s r.back .low := by
  have hmax : max s.range.front r.front = s.range.front := by omega
  have hmin : min s.range.back r.back = r.back := by omega
  simp [retainPieces, retainParts, below_of_le h1, inside, above, h2, hmax, hmin,
    retained]

lemma retainPieces_high (h1 : s.range.front < r.front) (h2 : s.range.back ≤ r.back) :
    retainPieces r s = retainParts s r.front .high := by
  have hmax : max s.range.front r.front = r.front := by omega
  have hmin : min s.range.back r.back = s.range.back := by omega
  simp [retainPieces, retainParts, below, h1, inside, above_of_le h2, hmax, hmin,
    retained]

lemma retainPieces_inner (h1 : s.range.front < r.front) (h2 : r.back < s.range.back) :
    retainPieces r s = [⟨s.owners, ⟨s.range.front, r.front⟩⟩, ⟨s.owners + 1, r⟩,
      ⟨s.owners, ⟨r.back, s.range.back⟩⟩] := by
  have hmax : max s.range.front r.front = r.front := by omega
  have hmin : min s.range.back r.back = r.back := by omega
  simp [retainPieces, below, h1, inside, above, h2, hmax, hmin, retained]

section Segment

variable (ht : m.table = pre ++ s :: post)
  (hwf : RangeTable.WellFormed range m.table)

include ht

lemma retainSegment_outside {p : Nat} (hp : p ≤ s.range.front ∨ s.range.back ≤ p)
    (side : ReleaseSide) : m.retainSegment pre.length p side = .ok (.invalidInput, m) := by
  simp only [retainSegment, get_eq ht, split_of_outside hp]

lemma retainSegment_refused {p : Nat} (hp : s.range.front < p ∧ p < s.range.back)
    (hg : granted m.heap = 0) (side : ReleaseSide) :
    ∃ h, m.retainSegment pre.length p side = .ok (.outOfMemory, ⟨m.table, h⟩) ∧
      h.used = m.heap.used := by
  obtain ⟨h, hsplit, hused⟩ := split_of_refused hp hg
  exact ⟨h, by simp only [retainSegment, get_eq ht, hsplit], hused⟩

include hwf

lemma retainSegment_granted {p : Nat} (hp : s.range.front < p ∧ p < s.range.back)
    (hg : 0 < granted m.heap) (side : ReleaseSide) :
    ∃ h, m.retainSegment pre.length p side =
        .ok (.success, ⟨pre ++ (retainParts s p side ++ post), h⟩) ∧
      granted h + 1 = granted m.heap ∧
      Exchanges m.heap h [s.range] ((retainParts s p side).map range) := by
  obtain ⟨h, hsplit, hgr, hex⟩ := split_of_granted hp hg
  rw [ht] at hwf
  have herase : erase { m with heap := h } pre.length = ⟨pre ++ post, h⟩ :=
    erase_eq ht
  refine ⟨h, ?_, hgr, by cases side <;> simpa [retainParts] using hex⟩
  simp only [retainSegment, get_eq ht, hsplit, herase]
  cases side with
  | low =>
    have hpair := (addSegment_pair (m := ⟨pre ++ post, h⟩) rfl hwf
      ⟨s.owners + 1, ⟨s.range.front, p⟩⟩ ⟨s.owners, ⟨p, s.range.back⟩⟩ hp.1 hp.2 (le_refl _)).1
    simpa [retainParts, retained] using hpair
  | high =>
    have hpair := (addSegment_pair (m := ⟨pre ++ post, h⟩) rfl hwf
      ⟨s.owners, ⟨s.range.front, p⟩⟩ ⟨s.owners + 1, ⟨p, s.range.back⟩⟩ hp.1 hp.2 (le_refl _)).1
    simpa [retainParts, retained] using hpair

end Segment

/-! ## A range that meets one segment -/

/-- The blocks a range asks for at one segment: one for each end strictly inside it. -/
def splitsOf (r : AnyRange) (s : MemorySegment) : Nat :=
  (if s.range.front < r.front then 1 else 0) + (if r.back < s.range.back then 1 else 0)

lemma innerConditions (h1 : s.range.front < r.front) (h2 : r.back < s.range.back) :
    ¬ (r.containsRange s.range ∨ s.range = r) ∧
      (s.range.containsRange r ∧ ¬ innerAdjacent s.range r) := by
  refine ⟨?_, ?_⟩
  · rintro (h | h)
    · exact absurd h.1 (by omega)
    · rw [h] at h1
      omega
  · simp only [containsRange, innerAdjacent]
    omega

section One

variable (ht : m.table = pre ++ s :: post)
  (hwf : RangeTable.WellFormed range m.table)
  (hr : r.front < r.back) (hs : r.front < s.range.back ∧ s.range.front < r.back)

include ht hwf

lemma splitInner_add {h : HeapView} (h1 : s.range.front < r.front) (hr : r.front < r.back)
    (h2 : r.back < s.range.back) (lo mid hi : MemorySegment)
    (hlo : lo.range = ⟨s.range.front, r.front⟩) (hmid : mid.range = r)
    (hhi : hi.range = ⟨r.back, s.range.back⟩) :
    (((erase { m with heap := h } pre.length).addSegment lo).addSegment mid).addSegment hi =
      ⟨pre ++ ([lo, mid, hi] ++ post), h⟩ := by
  have herase : erase { m with heap := h } pre.length = ⟨pre ++ post, h⟩ :=
    erase_eq ht
  rw [ht] at hwf
  have hpair := (addSegment_pair (m := ⟨pre ++ post, h⟩) rfl hwf lo mid (by simp [hlo, h1])
    (by simp [hlo, hmid, hr]) (by simp [hmid, h2.le])).1
  have hadd := addSegment_eq (m := ⟨(pre ++ [lo, mid]) ++ post, h⟩) (s := hi) rfl
  rw [herase, hpair]
  rw [← List.append_assoc, hadd]
  · simp
  · intro a ha
    simp only [hhi]
    simp only [List.mem_append, List.mem_cons, List.not_mem_nil, or_false] at ha
    rcases ha with ha | rfl | rfl
    · have h3 := hwf.at_cons.2.1 a ha
      omega
    · simp only [hlo]
      omega
    · simpa [hmid] using h2
  · intro a ha
    have := hwf.at_cons.2.2 a ha
    simp only [hhi]
    omega

omit hwf in
lemma retainOne_high (h1 : s.range.front < r.front) (h2 : s.range.back ≤ r.back) :
    m.retainOne pre.length r = m.retainSegment pre.length r.front .high := by
  have hc : ¬ (r.containsRange s.range ∨ s.range = r) := by
    rintro (h | h)
    · exact absurd h.1 (by omega)
    · rw [h] at h1
      omega
  have hin : ¬ (s.range.containsRange r ∧ ¬ innerAdjacent s.range r) := by
    simp only [containsRange, innerAdjacent]
    omega
  have hlow : ¬ (s.range.front ≥ r.front ∧ s.range.back > r.back) := by omega
  simp only [retainOne, get_eq ht, if_neg hc, if_neg hin, if_neg hlow]
  exact if_pos ⟨h1, h2⟩

omit hwf in
lemma retainOne_low (h1 : r.front ≤ s.range.front) (h2 : r.back < s.range.back) :
    m.retainOne pre.length r = m.retainSegment pre.length r.back .low := by
  have hc : ¬ (r.containsRange s.range ∨ s.range = r) := by
    rintro (h | h)
    · exact absurd h.2 (by omega)
    · rw [h] at h2
      omega
  have hin : ¬ (s.range.containsRange r ∧ ¬ innerAdjacent s.range r) := by
    simp only [containsRange, innerAdjacent]
    omega
  simp only [retainOne, get_eq ht, if_neg hc, if_neg hin]
  exact if_pos ⟨h1, h2⟩

include hr hs

lemma retainOne_granted (hg : splitsOf r s ≤ granted m.heap) :
    ∃ h, m.retainOne pre.length r = .ok (.success, ⟨pre ++ (retainPieces r s ++ post), h⟩) ∧
      Exchanges m.heap h [s.range] ((retainPieces r s).map range) := by
  by_cases hlo : s.range.front < r.front <;> by_cases hhi : r.back < s.range.back <;>
    simp only [splitsOf, hlo, hhi, if_true, if_false] at hg
  · -- both ends inside
    obtain ⟨h, hsplit, hex⟩ := splitv_of_granted ⟨hlo, hr, hhi⟩ hg
    have hcond := innerConditions hlo hhi
    refine ⟨h, ?_, by simpa [retainPieces_inner hlo hhi] using hex⟩
    simp only [retainOne, get_eq ht, if_neg hcond.1, if_pos hcond.2, hsplit]
    rw [splitInner_add ht hwf hlo hr hhi _ _ _ rfl rfl rfl, retainPieces_inner hlo hhi]
  · obtain ⟨h, hres, -, hex⟩ := retainSegment_granted ht hwf ⟨hlo, hs.1⟩ hg .high
    rw [retainOne_high ht hlo (by omega), retainPieces_high hlo (by omega)]
    exact ⟨h, hres, hex⟩
  · obtain ⟨h, hres, -, hex⟩ := retainSegment_granted ht hwf ⟨hs.2, hhi⟩ hg .low
    rw [retainOne_low ht (by omega) hhi, retainPieces_low (by omega) hhi]
    exact ⟨h, hres, hex⟩
  · have hc : r.containsRange s.range := ⟨by omega, by omega⟩
    simp only [retainOne, get_eq ht, if_pos (Or.inl hc)]
    rw [retainEntry_eq ht, retainPieces_of_contained hc]
    exact ⟨m.heap, rfl, .refl _ _⟩

omit hwf in
lemma retainOne_refused (hg : granted m.heap < splitsOf r s) :
    ∃ h, m.retainOne pre.length r = .ok (.outOfMemory, ⟨m.table, h⟩) ∧
      h.used = m.heap.used := by
  by_cases hlo : s.range.front < r.front <;> by_cases hhi : r.back < s.range.back <;>
    simp only [splitsOf, hlo, hhi, if_true, if_false] at hg
  · obtain ⟨h, hsplit, hused⟩ := splitv_of_refused ⟨hlo, hr, hhi⟩ hg
    have hcond := innerConditions hlo hhi
    refine ⟨h, ?_, hused⟩
    simp only [retainOne, get_eq ht, if_neg hcond.1, if_pos hcond.2, hsplit]
  · rw [retainOne_high ht hlo (by omega)]
    exact retainSegment_refused ht ⟨hlo, hs.1⟩ (by omega) .high
  · rw [retainOne_low ht (by omega) hhi]
    exact retainSegment_refused ht ⟨hs.2, hhi⟩ (by omega) .low
  · omega

end One

/-! ## A range with both ends in segments -/

lemma range_retainPieces_first (h1 : s.range.front ≤ r.front) (h2 : s.range.back ≤ r.back) :
    (retainPieces r s).map range =
      cutRanges (decide (s.range.front ≠ r.front)) s.range r.front := by
  by_cases h : s.range.front = r.front
  · have hc : r.containsRange s.range := ⟨h.ge, h2⟩
    simp [retainPieces_of_contained hc, cutRanges, h]
  · simp [retainPieces_high (lt_of_le_of_ne h1 h) h2, retainParts, cutRanges, h]

lemma range_retainPieces_last (h1 : r.front ≤ s.range.front) (h2 : r.back ≤ s.range.back) :
    (retainPieces r s).map range =
      cutRanges (decide (s.range.back ≠ r.back)) s.range r.back := by
  by_cases h : s.range.back = r.back
  · have hc : r.containsRange s.range := ⟨h1, h.le⟩
    simp [retainPieces_of_contained hc, cutRanges, h]
  · simp [retainPieces_low h1 (lt_of_le_of_ne h2 (Ne.symm h)), retainParts, cutRanges, h]

section Ends

variable (ht : m.table = pre ++ s :: post)
  (hwf : RangeTable.WellFormed range m.table)

include ht hwf

lemma retainLhs_eq (h1 : s.range.front ≤ r.front) (h2 : r.front < s.range.back)
    (h3 : s.range.back ≤ r.back) :
    m.retainLhs s (cutParts (decide (s.range.front ≠ r.front)) s.range r.front) r =
      .ok ⟨pre ++ (retainPieces r s ++ post), m.heap⟩ := by
  by_cases h : s.range.front = r.front
  · have hc : r.containsRange s.range := ⟨h.ge, h3⟩
    simp [retainLhs, h, retainEntryAt_eq ht hwf, retainPieces_of_contained hc]
  · have hlt := lt_of_le_of_ne h1 h
    have hsplit : decide (s.range.front ≠ r.front) = true := decide_eq_true h
    rw [retainLhs, if_pos h, eraseKey_eq ht hwf, hsplit, retainPieces_high hlt h3]
    rw [ht] at hwf
    have hpair := (addSegment_pair (m := ⟨pre ++ post, m.heap⟩) rfl hwf
      ⟨s.owners, ⟨s.range.front, r.front⟩⟩ ⟨s.owners + 1, ⟨r.front, s.range.back⟩⟩
      hlt h2 (le_refl _)).2
    exact congrArg Except.ok hpair

lemma retainRhs_eq (h1 : r.front ≤ s.range.front) (h2 : s.range.front < r.back)
    (h3 : r.back ≤ s.range.back) :
    m.retainRhs s (cutParts (decide (s.range.back ≠ r.back)) s.range r.back) r =
      .ok ⟨pre ++ (retainPieces r s ++ post), m.heap⟩ := by
  by_cases h : s.range.back = r.back
  · have hc : r.containsRange s.range := ⟨h1, h.le⟩
    simp only [retainRhs, h, not_true_eq_false, if_false, ne_eq]
    rw [← h, retainEntryAt_eq ht hwf, retainPieces_of_contained hc]
    rfl
  · have hlt := lt_of_le_of_ne h3 (Ne.symm h)
    have hsplit : decide (s.range.back ≠ r.back) = true := decide_eq_true h
    rw [retainRhs, if_pos h, eraseKey_eq ht hwf, hsplit, retainPieces_low h1 hlt]
    rw [ht] at hwf
    have hpair := (addSegment_pair (m := ⟨pre ++ post, m.heap⟩) rfl hwf
      ⟨s.owners + 1, ⟨s.range.front, r.back⟩⟩ ⟨s.owners, ⟨r.back, s.range.back⟩⟩
      h2 hlt (le_refl _)).1
    exact congrArg Except.ok hpair

end Ends

lemma retainMany_eq (mid : List MemorySegment) : ∀ {m : MemoryManager} {pre : List MemorySegment},
    m.table = pre ++ (mid ++ post) →
      m.retainMany pre.length mid.length =
        ⟨pre ++ (mid.map retained ++ post), m.heap⟩ := by
  induction mid with
  | nil =>
    intro m pre ht
    simp only [List.nil_append] at ht
    simp [retainMany, ← ht]
  | cons s mid ih =>
    intro m pre ht
    have ht' : m.table = pre ++ s :: (mid ++ post) := by simpa using ht
    have hone := retainEntry_eq ht'
    have hcut : (⟨pre ++ s.retained :: (mid ++ post), m.heap⟩ : MemoryManager).table =
        (pre ++ [s.retained]) ++ (mid ++ post) := by simp
    have hrest := ih hcut
    simp only [List.length_append, List.length_singleton, List.append_assoc,
      List.singleton_append] at hrest
    simp [retainMany, hone, hrest, List.map_cons, List.cons_append]

lemma flatMap_retainPieces_of_contained (h : ∀ s ∈ mid, r.containsRange s.range) :
    mid.flatMap (retainPieces r) = mid.map retained := by
  induction mid with
  | nil => rfl
  | cons s mid ih =>
    rw [List.flatMap_cons, retainPieces_of_contained (h s (by simp)),
      ih fun u hu => h u (by simp [hu])]
    rfl

section BothEnds

variable {lhs rhs : MemorySegment} {inner : List MemorySegment}
  (ht : m.table = pre ++ (lhs :: (inner ++ rhs :: post)))
  (hwf : RangeTable.WellFormed range m.table)
  (hl : lhs.range.front ≤ r.front ∧ r.front < lhs.range.back)
  (hr : rhs.range.front < r.back ∧ r.back ≤ rhs.range.back)

include ht hwf hl hr

omit hl hr in
lemma lhs_le_rhs : lhs.range.back ≤ rhs.range.front ∧ rhs.range.front < rhs.range.back := by
  rw [ht] at hwf
  exact ⟨(hwf.at_cons.2.2 rhs (by simp)).1, (hwf.at_cons.2.2 rhs (by simp)).2⟩

omit hl hr in
lemma between : ∀ u ∈ inner,
    lhs.range.back ≤ u.range.front ∧ u.range.front < u.range.back ∧
      u.range.back ≤ rhs.range.front := by
  intro u hu
  rw [ht] at hwf
  have h1 := hwf.at_cons.2.2 u (by simp [hu])
  have hassoc : pre ++ (lhs :: (inner ++ rhs :: post)) = (pre ++ lhs :: inner) ++ rhs :: post := by
    simp
  rw [hassoc] at hwf
  have h2 := hwf.at_cons.2.1 u (by simp [hu])
  omega

omit hl hr in
lemma upper_ends {h : HeapView} {partsL partsR : List MemorySegment}
    (hinL : ∀ p ∈ partsL, lhs.range.front ≤ p.range.front ∧ p.range.back ≤ lhs.range.back)
    (hwfR : RangeTable.WellFormed range partsR)
    (hinR : ∀ p ∈ partsR, rhs.range.front ≤ p.range.front ∧ p.range.back ≤ rhs.range.back) :
    upper ⟨(pre ++ partsL) ++ (inner ++ (partsR ++ post)), h⟩ lhs.range.back =
        (pre ++ partsL).length ∧
      upper ⟨(pre ++ partsL) ++ (inner ++ (partsR ++ post)), h⟩ rhs.range.front =
        (pre ++ partsL).length + inner.length := by
  have hinner := between ht hwf
  have hord := lhs_le_rhs ht hwf
  rw [ht] at hwf
  have hat := hwf.at_cons
  have hassoc : pre ++ (lhs :: (inner ++ rhs :: post)) = (pre ++ lhs :: inner) ++ rhs :: post := by
    simp
  have hat2 := (hassoc ▸ hwf).at_cons
  have hlow : ∀ a ∈ pre ++ partsL, a.range.back ≤ lhs.range.back := by
    intro a ha
    rcases List.mem_append.1 ha with ha | ha
    · have := hat.2.1 a ha
      omega
    · exact (hinL a ha).2
  have hhigh : ∀ a ∈ partsR ++ post, rhs.range.front < a.range.back := by
    intro a ha
    rcases List.mem_append.1 ha with ha | ha
    · have h1 := (hinR a ha).1
      have h2 := hwfR.nonempty a ha
      omega
    · have := hat2.2.2 a ha
      omega
  constructor
  · refine upper_eq rfl hlow fun a ha => ?_
    rcases List.mem_append.1 ha with ha | ha
    · have := hinner a ha
      omega
    · exact lt_of_le_of_lt hord.1 (hhigh a ha)
  · rw [← List.length_append]
    refine upper_eq (List.append_assoc _ _ _).symm (fun a ha => ?_) hhigh
    rcases List.mem_append.1 ha with ha | ha
    · exact (hlow a ha).trans hord.1
    · exact (hinner a ha).2.2

lemma splitsOf_ends : splitsOf r lhs + splitsOf r rhs =
    (decide (lhs.range.front ≠ r.front)).toNat + (decide (rhs.range.back ≠ r.back)).toNat := by
  have hord := lhs_le_rhs ht hwf
  have h1 : splitsOf r lhs = (decide (lhs.range.front ≠ r.front)).toNat := by
    by_cases h : lhs.range.front = r.front
    · simp [splitsOf, h]
      omega
    · have h1 : lhs.range.front < r.front := by omega
      have h2 : ¬ r.back < lhs.range.back := by omega
      simp [splitsOf, h, h1, h2]
  have h2 : splitsOf r rhs = (decide (rhs.range.back ≠ r.back)).toNat := by
    by_cases h : rhs.range.back = r.back
    · simp [splitsOf, h]
      omega
    · have h1 : r.back < rhs.range.back := by omega
      have h2 : ¬ rhs.range.front < r.front := by omega
      simp [splitsOf, h, h1, h2]
  omega

lemma retainEnds_refused (hg : granted m.heap < splitsOf r lhs + splitsOf r rhs) :
    ∃ h, m.retainEnds lhs rhs r = .ok (.outOfMemory, ⟨m.table, h⟩) ∧ h.used = m.heap.used := by
  rw [splitsOf_ends ht hwf hl hr] at hg
  obtain ⟨h, hsplit, hused⟩ := splitEnds_refused hg
  exact ⟨h, by simp only [retainEnds, hsplit], hused⟩

lemma retainEnds_granted (hg : splitsOf r lhs + splitsOf r rhs ≤ granted m.heap) :
    ∃ h, m.retainEnds lhs rhs r = .ok (.success,
        ⟨pre ++ ((lhs :: (inner ++ [rhs])).flatMap (retainPieces r) ++ post), h⟩) ∧
      Exchanges m.heap h ((lhs :: (inner ++ [rhs])).map range)
        (((lhs :: (inner ++ [rhs])).flatMap (retainPieces r)).map range) := by
  have hord := lhs_le_rhs ht hwf
  have hrr : r.front < r.back := by omega
  rw [splitsOf_ends ht hwf hl hr] at hg
  obtain ⟨h, hsplit, hex⟩ := splitEnds_granted hl hr hg
  rw [← range_retainPieces_first hl.1 (by omega), ← range_retainPieces_last (by omega) hr.2,
    ← List.map_append] at hex
  have hinner := between ht hwf
  have hflat : inner.flatMap (retainPieces r) = inner.map retained := by
    refine flatMap_retainPieces_of_contained fun u hu => ?_
    have := hinner u hu
    exact ⟨by omega, by omega⟩
  have hall := Exchanges.between (l := [lhs.range])
    (by simpa [List.map_append] using hex) (.refl h (inner.map range))
  have hmap : inner.map (range ∘ retained) =
      inner.map range := rfl
  refine ⟨h, ?_, by simpa [hflat, hmap] using hall⟩
  have hwf' := hwf
  rw [ht] at hwf'
  have hat := hwf'.at_cons
  have hlhs := retainLhs_eq (m := ⟨m.table, h⟩) ht hwf hl.1 hl.2 (by omega)
  obtain ⟨hwfL, hinL⟩ := wellFormed_retainPieces ⟨hl.2, by omega⟩ hrr hat.1
  have hwf1 := hwf'.replace hwfL hinL
  have hassoc : pre ++ (retainPieces r lhs ++ (inner ++ rhs :: post)) =
      (pre ++ retainPieces r lhs ++ inner) ++ rhs :: post := by simp
  have hrhs := retainRhs_eq
    (m := ⟨pre ++ (retainPieces r lhs ++ (inner ++ rhs :: post)), h⟩) hassoc hwf1
    (by omega) hr.1 hr.2
  simp only [retainEnds, hsplit, hlhs, hrhs]
  by_cases hadj : lhs.range.back = rhs.range.front
  · -- adjacent ends leave no room for a segment between them
    obtain rfl : inner = [] := by
      refine List.eq_nil_iff_forall_not_mem.2 fun u hu => ?_
      have := hinner u hu
      omega
    simp [hadj]
  · obtain ⟨hwfR, hinR⟩ := wellFormed_retainPieces ⟨by omega, hr.1⟩ hrr hord.2
    obtain ⟨hup1, hup2⟩ := upper_ends ht hwf hinL hwfR hinR
    have hmany := retainMany_eq inner (m := ⟨(pre ++ retainPieces r lhs) ++
      (inner ++ (retainPieces r rhs ++ post)), h⟩) rfl
    have hassoc2 : (pre ++ retainPieces r lhs ++ inner) ++ (retainPieces r rhs ++ post) =
        (pre ++ retainPieces r lhs) ++ (inner ++ (retainPieces r rhs ++ post)) := by simp
    rw [if_neg hadj, hassoc2, hup1, hup2, Nat.add_sub_cancel_left, hmany]
    simp [hflat]

end BothEnds

/-! ## The loop -/

/-- Where `updateIterators` puts the end of the loop. -/
def endOf (m : MemoryManager) (k : Nat) : Nat :=
  if m.lower k ≠ m.table.length then m.lower k + 1 else m.lower k

lemma lower_congr {m : MemoryManager}
    (h : m.table.map range = m'.table.map range) (k : Nat) :
    m.lower k = m'.lower k := by
  have hmap : ∀ t : List MemorySegment, lowerBound (RangeTable.back range) k t =
      (t.map range).findIdx fun x => decide (k ≤ x.back) := by
    intro t
    rw [List.findIdx_map]
    rfl
  rw [lower, lower, hmap, hmap, h]

lemma endOf_congr {m : MemoryManager}
    (h : m.table.map range = m'.table.map range) (k : Nat) :
    m.endOf k = m'.endOf k := by
  have hlen : m.table.length = m'.table.length := by
    simpa using congrArg List.length h
  rw [endOf, endOf, lower_congr h, hlen]

lemma lt_endOf {k : Nat} (ht : m.table = pre ++ s :: post)
    (hwf : RangeTable.WellFormed range m.table) (hs : s.range.front < k) :
    pre.length < m.endOf k := by
  have hle : pre.length ≤ m.lower k := by
    rw [lower, ht]
    refine length_le_lowerBound fun a ha => ?_
    rw [ht] at hwf
    exact lt_of_le_of_lt (hwf.at_cons.2.1 a ha).2 hs
  have hlt : pre.length < m.table.length := by
    rw [ht]
    simp
  simp only [endOf]
  split <;> omega

lemma retainLoop_end {n it : Nat} {q : AnyRange} (hfuel : 0 < n) :
    retainLoop r n m q it it = .ok (.success, m) := by
  obtain ⟨n, rfl⟩ : ∃ k, n = k + 1 := ⟨n - 1, by omega⟩
  simp [retainLoop]

section Loop

variable (ht : m.table = pre ++ s :: post)
  (hwf : RangeTable.WellFormed range m.table) {q : AnyRange} {n e : Nat}

include ht

lemma retainLoop_beyond (hfuel : 0 < n) (hs : r.back < s.range.front)
    (hr : r.front < r.back) (hne : s.range.front < s.range.back) (hit : pre.length ≠ e) :
    retainLoop r n m q pre.length e = .ok (.success, m) := by
  obtain ⟨n, rfl⟩ : ∃ k, n = k + 1 := ⟨n - 1, by omega⟩
  have hno : ¬ interval s.range r := by
    simp only [interval, outerAdjacent, overlaps, contains,
      containsRange]
    omega
  simp [retainLoop, hit, get_eq ht, hno]

lemma retainLoop_adjacent (hfuel : 0 < n) (hs : s.range.front = r.back)
    (hr : r.front < r.back) (hne : s.range.front < s.range.back) (hit : pre.length ≠ e) :
    retainLoop r n m q pre.length e = .ok (.invalidInput, m) := by
  obtain ⟨n, rfl⟩ : ∃ k, n = k + 1 := ⟨n - 1, by omega⟩
  have hint : interval s.range r := .inl (.inr hs.symm)
  have h1 : ¬ r.containsRange s.range := by
    simp only [containsRange]
    omega
  have h2 : ¬ s.range.back = r.front := by omega
  have h3 : s.range.front > r.front := by omega
  have hout := retainSegment_outside ht (.inl hs.ge) .low
  simp [retainLoop, if_neg hit, get_eq ht, hint, if_false, retainRange, if_neg h1, if_neg h2, if_pos h3, hout]

lemma retainLoop_crossing (hfuel : 0 < n) (hit : pre.length ≠ e)
    (hs : r.front < s.range.front ∧ s.range.front < r.back ∧ r.back < s.range.back) {st : OsStatus}
    (hres : m.retainSegment pre.length r.back .low = .ok (st, m'))
    (hst : st = .success ∨ st = .outOfMemory) :
    retainLoop r n m q pre.length e = .ok (st, m') := by
  obtain ⟨n, rfl⟩ : ∃ k, n = k + 1 := ⟨n - 1, by omega⟩
  have hint : interval s.range r := by
    simp only [interval, outerAdjacent, overlaps, contains,
      containsRange]
    omega
  have h1 : ¬ r.containsRange s.range := by
    simp only [containsRange]
    omega
  have h2 : ¬ s.range.back = r.front := by omega
  simp only [retainLoop, if_neg hit, get_eq ht, hint, not_true_eq_false, if_false, retainRange,
    if_neg h1, if_neg h2, gt_iff_lt, if_pos hs.1, hres]
  rcases hst with rfl | rfl <;> rfl

lemma retainLoop_front (hit : pre.length ≠ e)
    (hs : s.range.front < r.front ∧ r.front < s.range.back ∧ s.range.back < r.back) {st : OsStatus}
    (hres : m.retainSegment pre.length r.front .high = .ok (st, m'))
    (hst : st = .success ∨ st = .outOfMemory) :
    retainLoop r (n + 1) m q pre.length e =
      if st = .success then
        retainLoop r n m' ⟨s.range.back, r.back⟩ (m'.lower s.range.back + 1) (m'.endOf r.back)
      else .ok (st, m') := by
  have hint : interval s.range r := by
    simp only [interval, outerAdjacent, overlaps, contains,
      containsRange]
    omega
  have h1 : ¬ r.containsRange s.range := by
    simp only [containsRange]
    omega
  have h2 : ¬ s.range.back = r.front := by omega
  have h3 : ¬ s.range.front > r.front := by omega
  simp only [retainLoop, if_neg hit, get_eq ht, hint, not_true_eq_false, if_false, retainRange,
    if_neg h1, if_neg h2, if_neg h3, hres]
  rcases hst with rfl | rfl <;> rfl

include hwf

lemma retainLoop_step (hit : pre.length ≠ e) (hs : r.containsRange s.range) :
    retainLoop r (n + 1) m q pre.length e =
      retainLoop r n ⟨pre ++ s.retained :: post, m.heap⟩ ⟨s.range.back, r.back⟩
        (pre.length + 1) (m.endOf r.back) := by
  have hint : interval s.range r := .inr (.inr (.inr hs))
  have hlower : lower ⟨pre ++ s.retained :: post, m.heap⟩ s.range.back = pre.length := by
    rw [ht] at hwf
    refine lower_eq rfl (fun a ha => ?_) fun a ha => ?_
    · have h1 := hwf.at_cons.2.1 a ha
      have h2 := hwf.at_cons.1
      omega
    · rcases List.mem_cons.1 ha with rfl | ha
      · simp
      · have := hwf.at_cons.2.2 a ha
        omega
  have hend : endOf ⟨pre ++ s.retained :: post, m.heap⟩ r.back = m.endOf r.back :=
    endOf_congr (by simp [ht]) _
  simp only [retainLoop, if_neg hit, get_eq ht, hint, not_true_eq_false, if_false, retainRange,
    if_pos hs, retainEntry_eq ht, updateIterators, hlower]
  rw [← hend]
  rfl

end Loop

lemma retainLoop_contained (mid : List MemorySegment) :
    ∀ {m : MemoryManager} {pre : List MemorySegment} {q : AnyRange} {n : Nat},
      m.table = pre ++ (mid ++ post) → RangeTable.WellFormed range m.table →
      (∀ s ∈ mid, r.containsRange s.range) →
      ∃ q', retainLoop r (n + mid.length) m q pre.length (m.endOf r.back) =
        retainLoop r n ⟨pre ++ (mid.map retained ++ post), m.heap⟩ q'
          (pre.length + mid.length) (m.endOf r.back) := by
  induction mid with
  | nil =>
    intro m pre q n ht _ _
    simp only [List.nil_append] at ht
    exact ⟨q, by simp [← ht]⟩
  | cons s mid ih =>
    intro m pre q n ht hwf hin
    have hs := hin s (by simp)
    have ht' : m.table = pre ++ s :: (mid ++ post) := by simpa using ht
    have hne : s.range.front < s.range.back := hwf.nonempty s (by simp [ht])
    have hit : pre.length ≠ m.endOf r.back :=
      (lt_endOf ht' hwf (lt_of_lt_of_le hne hs.2)).ne
    have hone := retainLoop_step ht' hwf (q := q) (n := n + mid.length) hit hs
    let m' : MemoryManager := ⟨(pre ++ [s.retained]) ++ (mid ++ post), m.heap⟩
    have hranges : m'.table.map range = m.table.map range := by
      simp [m', ht]
    have hwf' : RangeTable.WellFormed range m'.table := hwf.of_map_eq hranges.symm
    have hcut : m'.table = (pre ++ [s.retained]) ++ (mid ++ post) := rfl
    obtain ⟨q', hrest⟩ := ih hcut hwf'
      fun u hu => hin u (by simp [hu])
    rw [endOf_congr hranges] at hrest
    refine ⟨q', ?_⟩
    rw [List.length_cons, ← Nat.add_assoc, hone]
    simpa [m', Nat.add_assoc, Nat.add_comm 1] using hrest

end MemoryManager
end BezOS
