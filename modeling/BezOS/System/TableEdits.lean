import BezOS.System.Ownership

/-!
# Single edits of a cut table

How the helpers of the memory manager act on a table written as a list around the segment they
edit, and on the ranges the heap holds.
-/

namespace BezOS
namespace MemoryManager

open Lib RangeTable

variable {m : MemoryManager} {pre post rest : List MemorySegment} {s : MemorySegment}
  {r : AnyRange}

/-! ## The ordered map -/

lemma addSegment_eq (ht : m.table = pre ++ post)
    (hpre : ∀ a ∈ pre, a.range.back < s.range.back)
    (hpost : ∀ a ∈ post, s.range.back < a.range.back) :
    m.addSegment s = { m with table := pre ++ s :: post } := by
  have hins : insertKey (back MemorySegment.range) s (pre ++ post) = pre ++ s :: post :=
    insertKey_append hpre hpost
  rw [addSegment, RangeTable.insert, ht, hins]

section

variable (ht : m.table = pre ++ s :: post)

include ht

lemma findKey_eq (hwf : RangeTable.WellFormed MemorySegment.range m.table) :
    findKey (back MemorySegment.range) s.range.back m.table = pre.length := by
  rw [ht] at hwf ⊢
  refine findKey_append (fun a ha => ?_) rfl
  have h1 := hwf.at_cons.2.1 a ha
  have h2 := hwf.at_cons.1
  simp only [back]
  omega

lemma eraseKey_eq (hwf : RangeTable.WellFormed MemorySegment.range m.table) :
    m.eraseKey s.range.back = { m with table := pre ++ post } := by
  rw [eraseKey, findKey_eq ht hwf, erase, ht, eraseIdx_append_cons]

lemma erase_eq :
    m.erase pre.length = { m with table := pre ++ post } := by
  rw [erase, ht, eraseIdx_append_cons]

lemma retainEntry_eq :
    m.retainEntry pre.length = { m with table := pre ++ s.retained :: post } := by
  rw [retainEntry, ht, modify_append_cons]

lemma get_eq : m.table[pre.length]? = some s := by
  rw [ht, getElem?_append_cons]

lemma retainEntryAt_eq (hwf : RangeTable.WellFormed MemorySegment.range m.table) :
    m.retainEntryAt s.range.back = .ok { m with table := pre ++ s.retained :: post } := by
  have hlt : pre.length ≠ m.table.length := by
    rw [ht]
    simp
  simp only [retainEntryAt, findKey_eq ht hwf, if_neg hlt, retainEntry_eq ht]

end

lemma upper_eq {k : Nat} (ht : m.table = pre ++ post) (hpre : ∀ a ∈ pre, a.range.back ≤ k)
    (hpost : ∀ a ∈ post, k < a.range.back) : m.upper k = pre.length := by
  rw [upper, ht]
  exact upperBound_append hpre hpost

lemma lower_eq {k : Nat} (ht : m.table = pre ++ post) (hpre : ∀ a ∈ pre, a.range.back < k)
    (hpost : ∀ a ∈ post, k ≤ a.range.back) : m.lower k = pre.length := by
  rw [lower, ht]
  exact lowerBound_append hpre hpost

/-- A released segment leaves the table with its last owner. -/
def releasedOne (s : MemorySegment) : List MemorySegment :=
  if s.owners = 1 then [] else [s.released]

def freedOne (h : HeapView) (s : MemorySegment) : HeapView :=
  if s.owners = 1 then h.free s.range else h

lemma releaseEntry_eq (ht : m.table = pre ++ s :: post) :
    m.releaseEntry pre.length =
      .ok { table := pre ++ (releasedOne s ++ post), heap := freedOne m.heap s } := by
  simp only [releaseEntry, get_eq ht, releaseSegment, releasedOne, freedOne]
  by_cases h : s.owners = 1
  · simp [h, ht, eraseIdx_append_cons, List.nil_append]
  · simp [h, ht, modify_append_cons, List.cons_append, List.nil_append]

lemma releaseEntryAt_eq (ht : m.table = pre ++ s :: post)
    (hwf : RangeTable.WellFormed MemorySegment.range m.table) :
    m.releaseEntryAt s.range.back =
      .ok { table := pre ++ (releasedOne s ++ post), heap := freedOne m.heap s } := by
  have hlt : pre.length ≠ m.table.length := by
    rw [ht]
    simp
  simp only [releaseEntryAt, findKey_eq ht hwf, if_neg hlt, releaseEntry_eq ht]

lemma releaseOrAdd_eq (ht : m.table = pre ++ post)
    (hpre : ∀ a ∈ pre, a.range.back < s.range.back)
    (hpost : ∀ a ∈ post, s.range.back < a.range.back) :
    m.releaseOrAdd s = { table := pre ++ (releasedOne s ++ post), heap := freedOne m.heap s } := by
  simp only [releaseOrAdd, releaseSegment, releasedOne, freedOne]
  by_cases h : s.owners = 1
  · simp [h, ht]
  · have hadd : m.addSegment s.released = { m with table := pre ++ s.released :: post } :=
      addSegment_eq ht hpre hpost
    simpa [h] using hadd

lemma addSegment_pair (ht : m.table = pre ++ post)
    (hwf : RangeTable.WellFormed MemorySegment.range (pre ++ s :: post)) (lo hi : MemorySegment)
    (hlo : s.range.front < lo.range.back) (hmid : lo.range.back < hi.range.back)
    (hhi : hi.range.back ≤ s.range.back) :
    (m.addSegment lo).addSegment hi = { m with table := pre ++ ([lo, hi] ++ post) } ∧
      (m.addSegment hi).addSegment lo = { m with table := pre ++ ([lo, hi] ++ post) } := by
  have hpre : ∀ a ∈ pre, a.range.back < lo.range.back := by
    intro a ha
    have := hwf.at_cons.2.1 a ha
    omega
  have hpost : ∀ a ∈ post, hi.range.back < a.range.back := by
    intro a ha
    have := hwf.at_cons.2.2 a ha
    omega
  constructor
  · rw [addSegment_eq ht hpre fun a ha => hmid.trans (hpost a ha)]
    have ht' : pre ++ lo :: post = (pre ++ [lo]) ++ post := by simp
    rw [addSegment_eq ht' (fun a ha => ?_) hpost]
    · simp
    · rcases List.mem_append.1 ha with ha | ha
      · exact (hpre a ha).trans hmid
      · rw [List.mem_singleton.1 ha]
        exact hmid
  · rw [addSegment_eq ht (fun a ha => (hpre a ha).trans hmid) hpost]
    have ht' : pre ++ hi :: post = pre ++ (hi :: post) := rfl
    rw [addSegment_eq ht' hpre (fun a ha => ?_)]
    · simp
    · rcases List.mem_cons.1 ha with rfl | ha
      · exact hmid
      · exact hmid.trans (hpost a ha)

end MemoryManager

lemma Exchanges.freedOne (h : HeapView) (s : MemorySegment) :
    Exchanges h (MemoryManager.freedOne h s) [s.range]
      ((MemoryManager.releasedOne s).map MemorySegment.range) := by
  intro l hp
  simp only [MemoryManager.freedOne, MemoryManager.releasedOne]
  by_cases hs : s.owners = 1
  · simpa [hs, HeapView.free] using hp.erase s.range
  · simpa [hs] using hp

namespace MemoryManager

open Lib

variable {m : MemoryManager} {pre post rest : List MemorySegment} {s : MemorySegment} {r : AnyRange}
  {h : HeapView} {b : Bool}

/-! ## The command list -/

/-- The two results of a recorded split, null when none was recorded. -/
def cutParts (shouldSplit : Bool) (x : AnyRange) (p : Nat) : AnyRange × AnyRange :=
  if shouldSplit then (⟨x.front, p⟩, ⟨p, x.back⟩) else (⟨0, 0⟩, ⟨0, 0⟩)

/-- The live ranges a recorded split leaves of `x`. -/
def cutRanges (shouldSplit : Bool) (x : AnyRange) (p : Nat) : List AnyRange :=
  if shouldSplit then [⟨x.front, p⟩, ⟨p, x.back⟩] else [x]

lemma reserveSplit_granted (hg : b.toNat ≤ granted h) :
    ∃ h', reserveSplit h b = (true, h') ∧ h'.used = h.used ∧
      granted h' + b.toNat = granted h := by
  cases b with
  | false => exact ⟨h, rfl, rfl, rfl⟩
  | true => exact request_of_granted hg

lemma reserveSplit_refused (hg : granted h < b.toNat) :
    ∃ h', reserveSplit h b = (false, h') ∧ h'.used = h.used := by
  cases b with
  | false => simp at hg
  | true => exact request_of_refused (by simpa using hg)

lemma commitSplit_ok {x : AnyRange} {p : Nat} (hp : b = true → x.front < p ∧ p < x.back) :
    ∃ h', commitSplit h b x p = .ok ((cutParts b x p).1, (cutParts b x p).2, h') ∧
      Exchanges h h' [x] (cutRanges b x p) := by
  cases b with
  | false => exact ⟨h, rfl, .refl _ _⟩
  | true =>
    refine ⟨(h.cut x p).2.2, ?_, .cut h x p⟩
    simp only [commitSplit, HeapView.commitSplit, if_true, if_pos (hp rfl)]
    rfl

section Ends

variable {lhs rhs : MemorySegment}

lemma splitEnds_granted
    (hl : lhs.range.front ≤ r.front ∧ r.front < lhs.range.back)
    (hr : rhs.range.front < r.back ∧ r.back ≤ rhs.range.back)
    (hg : (decide (lhs.range.front ≠ r.front)).toNat + (decide (rhs.range.back ≠ r.back)).toNat
      ≤ granted m.heap) :
    ∃ h, m.splitEnds lhs rhs r =
        .ok (some (cutParts (decide (lhs.range.front ≠ r.front)) lhs.range r.front,
          cutParts (decide (rhs.range.back ≠ r.back)) rhs.range r.back), ⟨m.table, h⟩) ∧
      Exchanges m.heap h [lhs.range, rhs.range]
        (cutRanges (decide (lhs.range.front ≠ r.front)) lhs.range r.front ++
          cutRanges (decide (rhs.range.back ≠ r.back)) rhs.range r.back) := by
  obtain ⟨h1, hreq1, hused1, hgr1⟩ := reserveSplit_granted (h := m.heap)
    (b := decide (lhs.range.front ≠ r.front)) (by omega)
  obtain ⟨h2, hreq2, hused2, -⟩ := reserveSplit_granted (h := h1)
    (b := decide (rhs.range.back ≠ r.back)) (by omega)
  obtain ⟨h3, hcom1, hex1⟩ := commitSplit_ok (h := h2) (b := decide (lhs.range.front ≠ r.front))
    (x := lhs.range) (p := r.front) (by rw [decide_eq_true_eq]; omega)
  obtain ⟨h4, hcom2, hex2⟩ := commitSplit_ok (h := h3) (b := decide (rhs.range.back ≠ r.back))
    (x := rhs.range) (p := r.back) (by rw [decide_eq_true_eq]; omega)
  refine ⟨h4, by simp only [splitEnds, hreq1, hreq2, hcom1, hcom2], ?_⟩
  have hex0 := Exchanges.of_used_eq (hused2.trans hused1) [lhs.range, rhs.range]
  exact hex0.trans ((hex1.frame_right [rhs.range]).trans (hex2.frame_left _))

lemma splitEnds_refused
    (hg : granted m.heap <
      (decide (lhs.range.front ≠ r.front)).toNat + (decide (rhs.range.back ≠ r.back)).toNat) :
    ∃ h, m.splitEnds lhs rhs r = .ok (none, ⟨m.table, h⟩) ∧ h.used = m.heap.used := by
  by_cases hl : granted m.heap < (decide (lhs.range.front ≠ r.front)).toNat
  · obtain ⟨h1, hreq1, hused1⟩ := reserveSplit_refused hl
    exact ⟨h1, by simp only [splitEnds, hreq1], hused1⟩
  · obtain ⟨h1, hreq1, hused1, hgr1⟩ := reserveSplit_granted (not_lt.1 hl)
    obtain ⟨h2, hreq2, hused2⟩ := reserveSplit_refused (h := h1)
      (b := decide (rhs.range.back ≠ r.back)) (by omega)
    exact ⟨h2, by simp only [splitEnds, hreq1, hreq2], hused2.trans hused1⟩

end Ends

end MemoryManager
end BezOS
