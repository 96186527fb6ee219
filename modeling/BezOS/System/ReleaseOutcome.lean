import BezOS.System.Release

/-!
# What a release does

The final loop of `MemoryManager::release` drops the segment it has just handled from the
remaining range but not always from the table, and it looks one segment past the range. It
therefore succeeds on some tables only; `releasable` says on which. All other branches succeed
whenever the pool grants the blocks for the splits.
-/

namespace BezOS
namespace MemoryManager

open Lib List MemorySegment

variable {m : MemoryManager} {pre post mid inner d todo : List MemorySegment}
  {s lhs rhs : MemorySegment} {r : AnyRange}

/-! ## One turn of the loop -/

section Turn

variable (ht : m.table = d ++ s :: post) (hwf : RangeTable.WellFormed range m.table) {q : AnyRange}
  {n e : Nat} {m' : MemoryManager}

include ht

section

variable (hit : d.length ≠ e)

include hit

lemma releaseLoop_low (hint : AnyRange.interval s.range q)
    (hs : q.front < s.range.front ∧ q.back < s.range.back) {st : OsStatus}
    (hres : m.splitSegment d.length q.back .low = .ok (st, m'))
    (hst : st = .success ∨ st = .outOfMemory ∨ st = .invalidInput) :
    releaseLoop (n + 1) m q d.length e = .ok (st, m') := by
  have h1 : ¬ q.containsRange s.range := by
    simp only [AnyRange.containsRange]
    omega
  simp only [releaseLoop, if_neg hit, releaseRange, get_eq ht, hint, not_true_eq_false, if_false,
    if_neg h1, gt_iff_lt, if_pos hs.1, hres]
  rcases hst with rfl | rfl | rfl <;> rfl

lemma releaseLoop_high (hint : AnyRange.interval s.range q) (hs : s.range.front ≤ q.front)
    (hnot : ¬ q.containsRange s.range) {st : OsStatus}
    (hres : m.splitSegment d.length q.front .high = .ok (st, m'))
    (hst : st = .outOfMemory ∨ st = .invalidInput) :
    releaseLoop (n + 1) m q d.length e = .ok (st, m') := by
  have h2 : ¬ s.range.front > q.front := by omega
  simp only [releaseLoop, if_neg hit, releaseRange, get_eq ht, hint, not_true_eq_false, if_false,
    if_neg hnot, if_neg h2, hres]
  rcases hst with rfl | rfl <;> rfl

lemma releaseLoop_front
    (hs : s.range.front < q.front ∧ q.front < s.range.back ∧ s.range.back < q.back)
    (hres : m.splitSegment d.length q.front .high = .ok (.success, m')) :
    releaseLoop (n + 1) m q d.length e =
      releaseLoop n m' ⟨s.range.back, q.back⟩ (m'.lower s.range.back)
        (m'.endOf q.back) := by
  have hint : AnyRange.interval s.range q := by
    simp only [AnyRange.interval, AnyRange.outerAdjacent, AnyRange.overlaps, AnyRange.contains,
      AnyRange.containsRange]
    omega
  have h1 : ¬ q.containsRange s.range := by
    simp only [AnyRange.containsRange]
    omega
  have h2 : ¬ s.range.front > q.front := by omega
  simp only [releaseLoop, if_neg hit, releaseRange, get_eq ht, hint, not_true_eq_false, if_false,
    if_neg h1, if_neg h2, hres]
  rfl

lemma releaseLoop_again (hs : s.range.back = q.front) (hne : s.range.front < s.range.back) :
    releaseLoop (n + 1) m q d.length e = .ok (.invalidInput, m) := by
  have hnot : ¬ q.containsRange s.range := by
    simp only [AnyRange.containsRange]
    omega
  exact releaseLoop_high ht hit (.inl (.inl hs)) (by omega) hnot
    (splitSegment_outside ht (.inr hs.le) .high) (.inr rfl)

lemma releaseLoop_past (hs : q.back ≤ s.range.front) (hrem : q.front ≤ q.back)
    (hne : s.range.front < s.range.back) (m' : MemoryManager) :
    releaseLoop (n + 1) m q d.length e ≠ .ok (.success, m') := by
  by_cases hadj : s.range.front = q.back
  · have hint : AnyRange.interval s.range q := .inl (.inr hadj.symm)
    by_cases hlt : q.front < s.range.front
    · rw [releaseLoop_low ht hit hint ⟨hlt, by omega⟩
        (splitSegment_outside ht (.inl (by omega)) .low) (.inr (.inr rfl))]
      simp
    · have hnot : ¬ q.containsRange s.range := by
        simp only [AnyRange.containsRange]
        omega
      rw [releaseLoop_high ht hit hint (by omega) hnot
        (splitSegment_outside ht (.inl (by omega)) .high) (.inr rfl)]
      simp
  · have hint : ¬ AnyRange.interval s.range q := by
      simp only [AnyRange.interval, AnyRange.outerAdjacent, AnyRange.overlaps, AnyRange.contains,
        AnyRange.containsRange]
      omega
    simp [releaseLoop, hit, releaseRange, get_eq ht, hint]

end

include hwf

lemma releaseLoop_inside (hit : d.length ≠ e) (hs : q.containsRange s.range) :
    releaseLoop (n + 1) m q d.length e =
      releaseLoop n ⟨d ++ (releasedOne s ++ post), freedOne m.heap s⟩
        ⟨s.range.back, q.back⟩ d.length
        (endOf ⟨d ++ (releasedOne s ++ post), freedOne m.heap s⟩ q.back) := by
  have hint : AnyRange.interval s.range q := .inr (.inr (.inr hs))
  have hlower : lower ⟨d ++ (releasedOne s ++ post), freedOne m.heap s⟩ s.range.back =
      d.length := by
    rw [ht] at hwf
    refine lower_eq rfl (fun a ha => ?_) fun a ha => ?_
    · have h1 := hwf.at_cons.2.1 a ha
      have h2 := hwf.at_cons.1
      omega
    · rcases mem_append.1 ha with ha | ha
      · rw [range_of_mem_releasedOne ha]
      · have := hwf.at_cons.2.2 a ha
        omega
  simp only [releaseLoop, if_neg hit, releaseRange, get_eq ht, hint, not_true_eq_false, if_false,
    if_pos hs, releaseEntry_eq ht, updateIterators, hlower]
  rfl

end Turn

/-! ## The whole loop -/

/-- What the loop needs to get through `todo` when it has come to address `x`: single owners on
the segments inside the range, a gap in front of a last segment that crosses the end of the
range, and no segment after the range otherwise. -/
def releasable (b g : Nat) (post : List MemorySegment) : Nat → List MemorySegment → Prop
  | _, [] => post = []
  | x, s :: todo =>
      if s.range.back ≤ b then s.owners = 1 ∧ releasable b g post s.range.back todo
      else x < s.range.front ∧ 0 < g

lemma releaseLoop_iff (hr : r.front < r.back) (todo : List MemorySegment) :
    ∀ {m : MemoryManager} {d : List MemorySegment} {x n e : Nat},
      m.table = d ++ (todo ++ post) → RangeTable.WellFormed range m.table →
      (∀ a ∈ d, a.range.back ≤ r.front) → r.front ≤ x → x ≤ r.back →
      (∀ s ∈ todo, x ≤ s.range.front ∧ s.range.front < r.back) →
      (∀ p ∈ post, r.back ≤ p.range.front) →
      (todo = [] → e = m.endOf r.back) → (todo ≠ [] → d.length ≠ e) →
      todo.length + 2 ≤ n →
      (releasable r.back (granted m.heap) post x todo →
        ∃ h, releaseLoop n m ⟨x, r.back⟩ d.length e =
          .ok (.success, ⟨d ++ (todo.flatMap (releasePieces r) ++ post), h⟩)) ∧
      (¬ releasable r.back (granted m.heap) post x todo →
        ∀ m', releaseLoop n m ⟨x, r.back⟩ d.length e ≠ .ok (.success, m')) := by
  induction todo with
  | nil =>
    intro m d x n e ht hwf hdone hx hxb _ hpost hend _ hfuel
    obtain ⟨n, rfl⟩ : ∃ k, n = k + 1 := ⟨n - 1, by omega⟩
    rw [nil_append] at ht
    have hlower : m.lower r.back = d.length := by
      refine lower_eq ht (fun a ha => ?_) fun a ha => ?_
      · have := hdone a ha
        omega
      · have h1 := hpost a ha
        have h2 := hwf.nonempty a (by simp [ht, ha])
        omega
    cases post with
    | nil =>
      have hend' : e = d.length := by
        rw [hend rfl]
        simp [endOf, hlower, ht]
      refine ⟨fun _ => ⟨m.heap, ?_⟩, fun hno => absurd rfl hno⟩
      simp [releaseLoop, hend', ← ht]
    | cons p post =>
      have hend' : e = d.length + 1 := by
        rw [hend rfl]
        simp [endOf, hlower, ht]
      have hat := (ht ▸ hwf).at_cons
      refine ⟨fun hok => by simp [releasable] at hok, fun _ m' => ?_⟩
      have hit : d.length ≠ e := by omega
      exact releaseLoop_past (q := ⟨x, r.back⟩) ht hit (hpost p (by simp)) hxb hat.1 m'
  | cons s todo ih =>
    intro m d x n e ht hwf hdone hx hxb htodo hpost _ hnotEnd hfuel
    obtain ⟨n, rfl⟩ : ∃ k, n = k + 1 := ⟨n - 1, by omega⟩
    have ht' : m.table = d ++ s :: (todo ++ post) := by simpa using ht
    have hit := hnotEnd (by simp)
    have hs := htodo s (by simp)
    have hat := (ht' ▸ hwf).at_cons
    by_cases hin : s.range.back ≤ r.back
    · have hc : AnyRange.containsRange ⟨x, r.back⟩ s.range := ⟨hs.1, hin⟩
      rw [releaseLoop_inside ht' hwf hit hc]
      simp only [releasable, if_pos hin]
      by_cases hone : s.owners = 1
      · -- the segment left the table, the rest of the loop is the loop on the rest
        let m' : MemoryManager := ⟨d ++ (todo ++ post), freedOne m.heap s⟩
        have hm' : (⟨d ++ (releasedOne s ++ (todo ++ post)), freedOne m.heap s⟩ : MemoryManager) =
            m' := by simp [m', releasedOne, hone]
        have hwf' : RangeTable.WellFormed range m'.table := by
          have := (ht' ▸ hwf).replace (RangeTable.WellFormed.nil) (by simp)
          simpa [m'] using this
        have hgr : granted m'.heap = granted m.heap := by
          simp only [m', freedOne]
          split <;> rfl
        have htodo' : ∀ u ∈ todo, s.range.back ≤ u.range.front ∧ u.range.front < r.back :=
          fun u hu => ⟨(hat.2.2 u (by simp [hu])).1, (htodo u (by simp [hu])).2⟩
        have hend : todo ≠ [] → d.length ≠ m'.endOf r.back := by
          intro hne
          obtain ⟨u, rest, rfl⟩ := exists_cons_of_ne_nil hne
          have hcut : m'.table = d ++ u :: (rest ++ post) := by simp [m']
          exact (lt_endOf hcut hwf' (htodo' u (by simp)).2).ne
        have hrest := ih rfl hwf' hdone (by omega)
          hin htodo' hpost (fun _ => rfl) hend (by simp at hfuel; omega)
        rw [hm', ← hgr]
        have hpieces : releasePieces r s = [] := by
          rw [releasePieces_contained ⟨by omega, hin⟩, releasedOne, if_pos hone]
        simpa [hone, hpieces] using hrest
      · -- the segment stayed in the table and is visited again
        refine ⟨fun hok => absurd hok.1 hone, fun _ m' => ?_⟩
        obtain ⟨n, rfl⟩ : ∃ k, n = k + 1 := ⟨n - 1, by omega⟩
        have hstay : releasedOne s = [s.released] := by simp [releasedOne, hone]
        rw [hstay]
        let m1 : MemoryManager := ⟨d ++ ([s.released] ++ (todo ++ post)), freedOne m.heap s⟩
        have hwf1 : RangeTable.WellFormed range m1.table :=
          hwf.of_map_eq (by simp [m1, ht'])
        have hcut1 : m1.table = d ++ s.released :: (todo ++ post) := rfl
        have hlt : d.length < m1.endOf r.back :=
          lt_endOf hcut1 hwf1 hs.2
        rw [releaseLoop_again hcut1 hlt.ne rfl hat.1]
        simp
    · have hback : r.back < s.range.back := by omega
      obtain rfl : todo = [] := by
        refine eq_nil_iff_forall_not_mem.2 fun u hu => ?_
        have h1 := hat.2.2 u (by simp [hu])
        have h2 := htodo u (by simp [hu])
        omega
      have hint : AnyRange.interval s.range ⟨x, r.back⟩ := by
        simp only [AnyRange.interval, AnyRange.outerAdjacent, AnyRange.overlaps, AnyRange.contains,
          AnyRange.containsRange]
        omega
      simp only [releasable, if_neg hin]
      by_cases hgap : x < s.range.front
      · by_cases hg : 0 < granted m.heap
        · obtain ⟨h, hres, -, -⟩ := splitSegment_granted ht' hwf ⟨hs.2, hback⟩ hg .low
          refine ⟨fun _ => ⟨h, ?_⟩, fun hno => absurd ⟨hgap, hg⟩ hno⟩
          rw [releaseLoop_low ht' hit hint ⟨hgap, hback⟩ hres (.inl rfl),
            ← releasePieces_low (by omega) hback]
          simp
        · obtain ⟨h, hres, -⟩ := splitSegment_refused ht' ⟨hs.2, hback⟩ (by omega) .low
          refine ⟨fun hok => absurd hok.2 hg, fun _ m' => ?_⟩
          rw [releaseLoop_low ht' hit hint ⟨hgap, hback⟩ hres (.inr (.inl rfl))]
          simp
      · have hnot : ¬ AnyRange.containsRange ⟨x, r.back⟩ s.range := by
          simp only [AnyRange.containsRange]
          omega
        refine ⟨fun hok => absurd hok.1 hgap, fun _ m' => ?_⟩
        rw [releaseLoop_high ht' hit hint (by simp only; omega) hnot
          (splitSegment_outside ht' (.inl (by simp only; omega)) .high) (.inr rfl)]
        simp

lemma releasable_iff {b g : Nat} (todo : List MemorySegment) :
    ∀ {x : Nat}, RangeTable.WellFormed range todo →
      (∀ s ∈ todo, x ≤ s.range.front ∧ s.range.front < b) →
      (releasable b g post x todo ↔
        (∀ s ∈ todo, s.range.back ≤ b → s.owners = 1) ∧
        (∀ s ∈ todo, b < s.range.back →
          x < s.range.front ∧ (∀ u ∈ todo, u.range.back ≠ s.range.front) ∧ 0 < g) ∧
        ((∀ s ∈ todo, s.range.back ≤ b) → post = [])) := by
  induction todo with
  | nil =>
    intro x _ _
    simp [releasable]
  | cons s todo ih =>
    intro x hwf hx
    rw [RangeTable.wellFormed_cons] at hwf
    have hs := hx s (by simp)
    by_cases hin : s.range.back ≤ b
    · have hih := ih hwf.2.1 fun u hu =>
        ⟨hwf.2.2 u hu, (hx u (by simp [hu])).2⟩
      rw [releasable, if_pos hin, hih]
      constructor
      · rintro ⟨hone, hall, hcross, hlast⟩
        refine ⟨?_, ?_, fun h => hlast fun u hu => h u (by simp [hu])⟩
        · intro u hu hub
          rcases mem_cons.1 hu with rfl | hu
          · exact hone
          · exact hall u hu hub
        · intro u hu hub
          rcases mem_cons.1 hu with rfl | hu
          · omega
          · obtain ⟨h1, h2, h3⟩ := hcross u hu hub
            refine ⟨by omega, fun v hv => ?_, h3⟩
            rcases mem_cons.1 hv with rfl | hv
            · omega
            · exact h2 v hv
      · rintro ⟨hall, hcross, hlast⟩
        refine ⟨hall s (by simp) hin, fun u hu => hall u (by simp [hu]), fun u hu hub => ?_,
          fun h => hlast fun u hu => ?_⟩
        · obtain ⟨h1, h2, h3⟩ := hcross u (by simp [hu]) hub
          have h4 := h2 s (by simp)
          have h5 := hwf.2.2 u hu
          exact ⟨by omega, fun v hv => h2 v (by simp [hv]), h3⟩
        · rcases mem_cons.1 hu with rfl | hu
          · exact hin
          · exact h u hu
    · obtain rfl : todo = [] := by
        refine eq_nil_iff_forall_not_mem.2 fun u hu => ?_
        have h1 := hwf.2.2 u hu
        have h2 := hx u (by simp [hu])
        omega
      have hb : b < s.range.back := by omega
      have hne : s.range.back ≠ s.range.front := by omega
      simp [releasable, hin, hb, hne]

/-! ## The whole call -/

def loopShape (m : MemoryManager) (r : AnyRange) : Prop :=
  2 ≤ (m.touched r).length ∧ (m.startsInGap r ∨ m.endsInGap r) →
    (∀ s ∈ m.touched r, s.range.back ≤ r.back → s.owners = 1) ∧
    (∀ s ∈ m.touched r, r.back < s.range.back →
      ∀ u ∈ m.touched r, u.range.back ≠ s.range.front) ∧
    (m.endsInside r ∨ ∀ s ∈ m.table, s.range.front < r.back)
  deriving Decidable

section Call

variable (hwf : RangeTable.WellFormed range m.table) (hr : r.front < r.back)

include hwf hr

lemma release_none (h : RangeTable.Around range m.table r pre [] post) :
    m.release r = .ok (.notFound, m) := by
  have hv : r.isValid := hr.le
  simp [release, hv, h.find_nil hwf hr]

lemma release_one (h : RangeTable.Around range m.table r pre [s] post) :
    m.release r = m.releaseOne pre.length r := by
  have hv : r.isValid := hr.le
  have hfind := RangeTable.Around.find_concat hwf hr (show RangeTable.Around range
    m.table r pre ([] ++ [s]) post from h)
  have hne : pre.length ≠ m.table.length := by
    simp [h.eq]
  simp [release, hv, hfind, hne]

section Several

variable (h : RangeTable.Around range m.table r pre (lhs :: (inner ++ [rhs])) post)

include h

lemma release_several :
    m.release r =
      if lhs.range.front ≤ r.front ∧ r.back ≤ rhs.range.back then m.releaseEnds lhs rhs r
      else releaseLoop m.loopBound m r pre.length (pre.length + inner.length + 2) := by
  have hv : r.isValid := hr.le
  have hfind := RangeTable.Around.find_concat hwf hr (show RangeTable.Around range
    m.table r pre ((lhs :: inner) ++ [rhs]) post from h)
  have ht : m.table = pre ++ (lhs :: (inner ++ rhs :: post)) := by simp [h.eq]
  have hlen : m.table.length = pre.length + inner.length + 2 + post.length := by
    simp [ht]
    omega
  have hgetl : m.table[pre.length]? = some lhs := get_eq ht
  have hgetr : m.table[pre.length + (lhs :: inner).length]? = some rhs := by
    have ht' : m.table = (pre ++ lhs :: inner) ++ rhs :: post := by simp [ht]
    rw [← length_append]
    exact get_eq ht'
  have hl := h.meets lhs (by simp)
  have hrm := h.meets rhs (by simp)
  have hcond : ((lhs.range.contains r.front ∨ lhs.range.front = r.front) ∧
      (rhs.range.contains r.back ∨ rhs.range.back = r.back)) ↔
      (lhs.range.front ≤ r.front ∧ r.back ≤ rhs.range.back) := by
    simp only [AnyRange.contains]
    omega
  have h1 : pre.length ≠ m.table.length := by omega
  have h2 : pre.length ≠ pre.length + (lhs :: inner).length := by simp
  have h3 : ¬ (pre.length + (lhs :: inner).length + 1 = m.table.length ∧
      lhs.range.back = r.front) := by omega
  have h4 : ¬ lhs.range.back = r.front := by omega
  simp only [release, hv, not_true_eq_false, if_false, hfind, if_neg h1, if_neg h2, hgetl, hgetr,
    hcond, if_neg h4, releaseRest, if_neg h3]
  rfl

omit hr in
lemma loopShape_iff (hgap : m.startsInGap r ∨ m.endsInGap r) :
    m.loopShape r ↔
      (∀ s ∈ lhs :: (inner ++ [rhs]), s.range.back ≤ r.back → s.owners = 1) ∧
      (∀ s ∈ lhs :: (inner ++ [rhs]), r.back < s.range.back →
        ∀ u ∈ lhs :: (inner ++ [rhs]), u.range.back ≠ s.range.front) ∧
      (r.back < rhs.range.back ∨ post = []) := by
  have hlen : 2 ≤ (lhs :: (inner ++ [rhs])).length := by simp
  have hpost : (∀ s ∈ m.table, s.range.front < r.back) ↔ post = [] := by
    constructor
    · intro hall
      refine eq_nil_iff_forall_not_mem.2 fun u hu => ?_
      have h1 := hall u (by simp [h.eq, hu])
      have h2 := h.after u hu
      omega
    · rintro rfl s hs
      have hne := hwf.nonempty s hs
      rw [h.eq, append_nil, mem_append] at hs
      rcases hs with hs | hs
      · have h2 := h.meets lhs (by simp)
        have h3 := (h.wf_parts hwf).2.2.2.1 s hs lhs (by simp)
        omega
      · exact (h.meets s hs).2
  simp [loopShape, touched_eq h, hlen, hgap, forall_const, (ends_iff hwf h).2.1, hpost]

lemma releaseLoop_whole (hl : r.front ≤ lhs.range.front)
    (hgap : m.startsInGap r ∨ m.endsInGap r) :
    (m.splits r ≤ granted m.heap ∧ m.loopShape r →
      ∃ h', releaseLoop m.loopBound m r pre.length (pre.length + inner.length + 2) =
        .ok (.success,
          ⟨pre ++ ((lhs :: (inner ++ [rhs])).flatMap (releasePieces r) ++ post), h'⟩)) ∧
    (¬ (m.splits r ≤ granted m.heap ∧ m.loopShape r) →
      ∀ m', releaseLoop m.loopBound m r pre.length (pre.length + inner.length + 2) ≠
        .ok (.success, m')) := by
  have ht : m.table = pre ++ (lhs :: (inner ++ rhs :: post)) := by simp [h.eq]
  have hinner := between ht hwf
  have hord := lhs_le_rhs ht hwf
  have hmid := (h.wf_parts hwf).2.1
  have hnel := hwf.nonempty lhs (by simp [ht])
  have hfront : ∀ s ∈ lhs :: (inner ++ [rhs]), r.front ≤ s.range.front ∧ s.range.front < r.back := by
    intro s hs
    refine ⟨?_, (h.meets s hs).2⟩
    simp only [mem_cons, mem_append, not_mem_nil, or_false] at hs
    rcases hs with rfl | hs | rfl
    · exact hl
    · have := hinner s hs
      omega
    · omega
  have hback : ∀ s ∈ lhs :: (inner ++ [rhs]), s ≠ rhs → s.range.back ≤ rhs.range.front := by
    intro s hs hne
    simp only [mem_cons, mem_append, not_mem_nil, or_false] at hs
    rcases hs with rfl | hs | rfl
    · exact hord.1
    · exact (hinner s hs).2.2
    · exact absurd rfl hne
  have hrm := (h.meets rhs (by simp)).2
  have hiff : releasable r.back (granted m.heap) post r.front (lhs :: (inner ++ [rhs])) ↔
      m.splits r ≤ granted m.heap ∧ m.loopShape r := by
    obtain ⟨hsi, hei, -, -⟩ := ends_iff hwf h
    have hno : ¬ lhs.range.front < r.front := by omega
    rw [releasable_iff _ hmid hfront, loopShape_iff hwf h hgap]
    simp only [splits, hsi, hei, if_neg hno, Nat.zero_add]
    constructor
    · rintro ⟨hall, hcross, hlast⟩
      by_cases hb : r.back < rhs.range.back
      · have := hcross rhs (by simp) hb
        refine ⟨by rw [if_pos hb]; exact this.2.2, hall, fun s hs hsb => (hcross s hs hsb).2.1, .inl hb⟩
      · refine ⟨by rw [if_neg hb]; exact Nat.zero_le _, hall,
          fun s hs hsb => (hcross s hs hsb).2.1, .inr (hlast fun s hs => ?_)⟩
        by_cases hne : s = rhs
        · rw [hne]
          omega
        · have := hback s hs hne
          omega
    · rintro ⟨hg, hall, hcross, hlast⟩
      refine ⟨hall, fun s hs hsb => ?_, fun hle => ?_⟩
      · have hsr : s = rhs := by
          by_contra hne
          have := hback s hs hne
          omega
        subst hsr
        rw [if_pos hsb] at hg
        exact ⟨by omega, hcross s hs hsb, hg⟩
      · rcases hlast with hb | hb
        · have := hle rhs (by simp)
          omega
        · exact hb
  have hloop := releaseLoop_iff hr (lhs :: (inner ++ [rhs]))
    (d := pre) (n := m.loopBound) (e := pre.length + inner.length + 2)
    h.eq hwf h.before (le_refl _) hr.le hfront h.after (by simp) (by omega)
    (by simp [loopBound, ht]; omega)
  rw [hiff] at hloop
  exact hloop

lemma releaseLoop_fromInside (hl : lhs.range.front < r.front) (hb : rhs.range.back < r.back) :
    (m.splits r ≤ granted m.heap ∧ m.loopShape r →
      ∃ h', releaseLoop m.loopBound m r pre.length (pre.length + inner.length + 2) =
        .ok (.success,
          ⟨pre ++ ((lhs :: (inner ++ [rhs])).flatMap (releasePieces r) ++ post), h'⟩)) ∧
    (¬ (m.splits r ≤ granted m.heap ∧ m.loopShape r) →
      ∀ m', releaseLoop m.loopBound m r pre.length (pre.length + inner.length + 2) ≠
        .ok (.success, m')) ∧
    (granted m.heap < m.splits r →
      ∃ h', releaseLoop m.loopBound m r pre.length (pre.length + inner.length + 2) =
        .ok (.outOfMemory, ⟨m.table, h'⟩)) := by
  have ht : m.table = pre ++ (lhs :: (inner ++ rhs :: post)) := by simp [h.eq]
  have hinner := between ht hwf
  have hord := lhs_le_rhs ht hwf
  have hlm := h.meets lhs (by simp)
  have hat := (ht ▸ hwf).at_cons
  obtain ⟨hsi, hei, -, heg⟩ := ends_iff hwf h
  have hsplits : m.splits r = 1 := by
    have hno : ¬ r.back < rhs.range.back := by omega
    simp [splits, hsi, hei, hl, hno]
  have hit : pre.length ≠ pre.length + inner.length + 2 := by omega
  have hcross : lhs.range.front < r.front ∧ r.front < lhs.range.back ∧ lhs.range.back < r.back := by
    omega
  have hint : AnyRange.interval lhs.range r := by
    simp only [AnyRange.interval, AnyRange.outerAdjacent, AnyRange.overlaps, AnyRange.contains,
      AnyRange.containsRange]
    omega
  have hnot : ¬ r.containsRange lhs.range := by
    simp only [AnyRange.containsRange]
    omega
  obtain ⟨n, hfuel⟩ : ∃ n, m.loopBound = n + 1 := ⟨m.table.length + 2, rfl⟩
  rw [hfuel, hsplits]
  by_cases hg : 0 < granted m.heap
  · obtain ⟨h', hres, hgr, -⟩ := splitSegment_granted ht hwf ⟨hl, hlm.1⟩ hg .high
    let lo : MemorySegment := ⟨lhs.owners, ⟨lhs.range.front, r.front⟩⟩
    let hi : MemorySegment := ⟨lhs.owners, ⟨r.front, lhs.range.back⟩⟩
    let m1 : MemoryManager := ⟨(pre ++ [lo]) ++ (releasedOne hi ++ (inner ++ rhs :: post)), h'⟩
    have hm1 : (⟨pre ++ (releaseParts lhs r.front .high ++ (inner ++ rhs :: post)), h'⟩ :
        MemoryManager) = m1 := by simp [m1, releaseParts, lo, hi]
    rw [hm1] at hres
    obtain ⟨hwfP, hinP⟩ := wellFormed_releasePieces hlm hr hat.1
    rw [releasePieces_high hl (by omega)] at hwfP hinP
    have hwf1 : RangeTable.WellFormed range m1.table := by
      rw [← hm1]
      exact (ht ▸ hwf).replace hwfP hinP
    have hdone : ∀ a ∈ pre ++ [lo], a.range.back ≤ r.front := by
      intro a ha
      rcases mem_append.1 ha with ha | ha
      · exact h.before a ha
      · rw [mem_singleton.1 ha]
        exact le_refl r.front
    have hlower : m1.lower lhs.range.back = (pre ++ [lo]).length := by
      refine lower_eq rfl (fun a ha => lt_of_le_of_lt (hdone a ha) hlm.1) fun a ha => ?_
      rcases mem_append.1 ha with ha | ha
      · rw [range_of_mem_releasedOne ha]
        exact le_refl lhs.range.back
      · have := hat.2.2 a ha
        omega
    have hcall := releaseLoop_front (n := n) ht hit hcross hres
    rw [hlower] at hcall
    rw [hcall]
    by_cases hone : lhs.owners = 1
    · -- the part inside the range left the table
      have htodo : ∀ s ∈ inner ++ [rhs], lhs.range.back ≤ s.range.front ∧ s.range.front < r.back := by
        intro s hs
        refine ⟨(hat.2.2 s ?_).1, (h.meets s (by simp_all)).2⟩
        rcases mem_append.1 hs with hs | hs
        · simp [hs]
        · simp [mem_singleton.1 hs]
      have hback : ∀ s ∈ inner ++ [rhs], s.range.back ≤ r.back := by
        intro s hs
        rcases mem_append.1 hs with hs | hs
        · have := hinner s hs
          omega
        · rw [mem_singleton.1 hs]
          exact hb.le
      have hm1' : m1.table = (pre ++ [lo]) ++ ((inner ++ [rhs]) ++ post) := by
        simp [m1, releasedOne, hi, hone]
      have hend : inner ++ [rhs] ≠ [] → (pre ++ [lo]).length ≠ m1.endOf r.back := by
        intro hne
        obtain ⟨u, rest, hu⟩ := exists_cons_of_ne_nil hne
        have hcut : m1.table = (pre ++ [lo]) ++ u :: (rest ++ post) := by simp [hm1', hu]
        exact (lt_endOf hcut hwf1 (htodo u (by simp [hu])).2).ne
      have hloop := releaseLoop_iff hr (inner ++ [rhs])
        (d := pre ++ [lo]) (n := n)
        hm1' hwf1 hdone hlm.1.le (by omega) htodo h.after (fun _ => rfl) hend
        (by
          have : m.table.length + 2 = n := by simpa [loopBound] using hfuel
          simp [← this, ht]
          omega)
      have hiff : releasable r.back (granted m1.heap) post lhs.range.back (inner ++ [rhs]) ↔
          1 ≤ granted m.heap ∧ m.loopShape r := by
        have hmid := (RangeTable.wellFormed_cons.1 (h.wf_parts hwf).2.1).2.1
        have hnb : ¬ r.back < rhs.range.back := by omega
        rw [releasable_iff _ hmid htodo, loopShape_iff hwf h (.inr (heg.2 hb))]
        constructor
        · rintro ⟨hall, -, hlast⟩
          refine ⟨hg, fun s hs hsb => ?_, fun s hs hsb => ?_, .inr (hlast hback)⟩
          · rcases mem_cons.1 hs with rfl | hs
            · exact hone
            · exact hall s hs hsb
          · rcases mem_cons.1 hs with rfl | hs
            · omega
            · have := hback s hs
              omega
        · rintro ⟨-, hall, -, hlast⟩
          refine ⟨fun s hs => hall s (mem_cons_of_mem _ hs), fun s hs hsb => ?_,
            fun _ => hlast.resolve_left hnb⟩
          have := hback s hs
          omega
      rw [hiff] at hloop
      have hpieces : releasePieces r lhs = [lo] := by
        rw [releasePieces_high hl (by omega)]
        simp [releaseParts, releasedOne, hone, lo]
      refine ⟨fun hok => ?_, hloop.2, fun hno => absurd hno (by omega)⟩
      obtain ⟨h'', hdone⟩ := hloop.1 hok
      exact ⟨h'', by rw [hdone]; simp [hpieces]⟩
    · -- it stayed in the table and is visited again
      have hno : ¬ m.loopShape r := by
        rw [loopShape_iff hwf h (.inr (heg.2 hb))]
        exact fun hshape => hone (hshape.1 lhs (by simp) (by omega))
      refine ⟨fun hok => absurd hok.2 hno, fun _ m' => ?_, fun hlt => absurd hlt (by omega)⟩
      have hstay : m1.table = (pre ++ [lo]) ++ hi.released :: (inner ++ rhs :: post) := by
        simp [m1, releasedOne, hi, hone]
      obtain ⟨n, rfl⟩ : ∃ k, n = k + 1 := ⟨n - 1, by simp [loopBound] at hfuel; omega⟩
      rw [releaseLoop_again hstay (lt_endOf hstay hwf1 hr).ne rfl hlm.1]
      simp
  · obtain ⟨h', hres, -⟩ := splitSegment_refused ht ⟨hl, hlm.1⟩ (by omega) .high
    have hloop := releaseLoop_high (n := n) ht hit hint hl.le hnot hres (.inl rfl)
    refine ⟨fun hok => absurd hok.1 (by omega), fun _ m' => by simp [hloop], fun _ => ⟨h', hloop⟩⟩

end Several

/-! ### The outcomes -/

section Outcome

variable (h : RangeTable.Around range m.table r pre mid post)

include h

lemma release_iff (hmid : mid ≠ []) :
    (m.splits r ≤ granted m.heap ∧ m.loopShape r →
      ∃ h', m.release r =
        .ok (.success, ⟨pre ++ (mid.flatMap (releasePieces r) ++ post), h'⟩)) ∧
    (¬ (m.splits r ≤ granted m.heap ∧ m.loopShape r) →
      ∀ m', m.release r ≠ .ok (.success, m')) := by
  rcases ends_cases mid with rfl | ⟨s, rfl⟩ | ⟨lhs, inner, rhs, rfl⟩
  · exact absurd rfl hmid
  · have hshape : m.loopShape r := by simp [loopShape, touched_eq h]
    have ht : m.table = pre ++ s :: post := by simpa using h.eq
    rw [release_one hwf hr h, splits_one hr h]
    constructor
    · rintro ⟨hg, -⟩
      obtain ⟨h', hres, -⟩ := releaseOne_granted ht hwf hr (h.meets s (by simp)) hg
      exact ⟨h', by simpa using hres⟩
    · intro hno m'
      have hg : granted m.heap < splitsOf r s := by
        by_contra hge
        exact hno ⟨by omega, hshape⟩
      obtain ⟨h', hres, -⟩ := releaseOne_refused ht hr (h.meets s (by simp)) hg
      simp [hres]
  · obtain ⟨hsi, hei, hsg, heg⟩ := ends_iff hwf h
    have hlm := h.meets lhs (by simp)
    have hrm := h.meets rhs (by simp)
    rw [release_several hwf hr h]
    by_cases hends : lhs.range.front ≤ r.front ∧ r.back ≤ rhs.range.back
    · have ht : m.table = pre ++ (lhs :: (inner ++ rhs :: post)) := by simp [h.eq]
      have hord := lhs_le_rhs ht hwf
      have hsplits : m.splits r = splitsOf r lhs + splitsOf r rhs := by
        have h1 : ¬ r.back < lhs.range.back := by omega
        have h2 : ¬ rhs.range.front < r.front := by omega
        simp [splits, hsi, hei, splitsOf, h1, h2]
      have hshape : m.loopShape r := by
        rintro ⟨-, hgap⟩
        rw [hsg, heg] at hgap
        omega
      rw [if_pos hends, hsplits]
      constructor
      · rintro ⟨hg, -⟩
        obtain ⟨h', hres, -⟩ :=
          releaseEnds_granted ht hwf ⟨hends.1, hlm.1⟩ ⟨hrm.2, hends.2⟩ hg
        exact ⟨h', hres⟩
      · intro hno m'
        have hg : granted m.heap < splitsOf r lhs + splitsOf r rhs := by
          by_contra hge
          exact hno ⟨by omega, hshape⟩
        obtain ⟨h', hres, -⟩ :=
          releaseEnds_refused ht hwf ⟨hends.1, hlm.1⟩ ⟨hrm.2, hends.2⟩ hg
        simp [hres]
    · rw [if_neg hends]
      by_cases hl : lhs.range.front < r.front
      · have hloop := releaseLoop_fromInside hwf hr h hl (by omega)
        exact ⟨hloop.1, hloop.2.1⟩
      · exact releaseLoop_whole hwf hr h (by omega) (by rw [hsg, heg]; omega)

lemma release_refused (hg : granted m.heap < m.splits r)
    (hgap : ¬ (2 ≤ mid.length ∧ m.startsInGap r)) :
    ∃ h', m.release r = .ok (.outOfMemory, ⟨m.table, h'⟩) := by
  rcases ends_cases mid with rfl | ⟨s, rfl⟩ | ⟨lhs, inner, rhs, rfl⟩
  · rw [splits_none hwf hr h] at hg
    omega
  · rw [splits_one hr h] at hg
    obtain ⟨h', hres, -⟩ := releaseOne_refused (by simpa using h.eq) hr (h.meets s (by simp)) hg
    exact ⟨h', by rw [release_one hwf hr h, hres]⟩
  · have ht : m.table = pre ++ (lhs :: (inner ++ rhs :: post)) := by simp [h.eq]
    obtain ⟨hsi, hei, hsg, -⟩ := ends_iff hwf h
    have hlm := h.meets lhs (by simp)
    have hrm := h.meets rhs (by simp)
    have hl : lhs.range.front ≤ r.front := by
      rw [hsg] at hgap
      simp at hgap
      exact hgap
    rw [release_several hwf hr h]
    by_cases hb : r.back ≤ rhs.range.back
    · have hord := lhs_le_rhs ht hwf
      have hsp : granted m.heap < splitsOf r lhs + splitsOf r rhs := by
        have h1 : ¬ r.back < lhs.range.back := by omega
        have h2 : ¬ rhs.range.front < r.front := by omega
        simpa [splits, hsi, hei, splitsOf, h1, h2] using hg
      obtain ⟨h', hres, -⟩ := releaseEnds_refused ht hwf ⟨hl, hlm.1⟩ ⟨hrm.2, hb⟩ hsp
      exact ⟨h', by rw [if_pos ⟨hl, hb⟩, hres]⟩
    · have hnb : ¬ r.back < rhs.range.back := by omega
      have hlt : lhs.range.front < r.front := by
        by_contra hno
        simp [splits, hsi, hei, hno, hnb] at hg
      rw [if_neg (by omega)]
      exact (releaseLoop_fromInside hwf hr h hlt (by omega)).2.2 hg

end Outcome

end Call

end MemoryManager
end BezOS
