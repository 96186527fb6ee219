import BezOS.Lib.Transition
import BezOS.System.UnmapMany

/-!
# When an unmap is exact

`AddressSpaceManager::unmap` takes the addresses of its range out of the table and nothing else
exactly when it meets none of the combinations its case tree leaves out: segments without backing
memory at its ends, a range that ends inside a segment but starts at or below another, one that
starts inside a segment and ends with the last, one that starts and ends in gaps, and answers of
the pool or the services that it does not handle.
-/

namespace BezOS
namespace AddressSpaceManager

open Lib List RangeTable AddressSegment OsStatus

variable {m m' : AddressSpaceManager} {pre post inner mid : List AddressSegment}
  {lhs rhs s : AddressSegment} {r L R : AnyRange} {status : OsStatus}

def touched (m : AddressSpaceManager) (r : AnyRange) : List AddressSegment :=
  m.table.filter fun s => decide (r.Meets s.range)

/-- `unmap` neither stops in an assertion nor, when it succeeds, leaves a table that differs from
the former one in anything but the addresses of the range. -/
def UnmapExact (m : AddressSpaceManager) (r : AnyRange) : Prop :=
  ∃ status m', m.unmap r = .ok (status, m') ∧
    (status = .success →
      (∀ a, backingAt m'.table a = if r.contains a then none else backingAt m.table a) ∧
        RangeTable.WellFormed range m'.table)

/-- The positions of a range against its first and last segment that the case tree covers. -/
def Covered (lhs rhs : AddressSegment) (r : AnyRange) : Prop :=
  (lhs.range.front < r.front ∧ r.back ≠ rhs.range.back) ∨
    (r.front = lhs.range.front ∧ rhs.range.back ≤ r.back) ∨
      (r.front < lhs.range.front ∧ r.back = rhs.range.back)
  deriving Decidable

/-- The state in which an unmap works. -/
structure UnmapSafe (m : AddressSpaceManager) (r : AnyRange) : Prop where
  one : ∀ s, m.touched r = [s] → s.hasBackingMemory ∨ r.containsRange s.range
  many : ∀ lhs inner rhs, m.touched r = lhs :: (inner ++ [rhs]) →
    lhs.hasBackingMemory ∧ rhs.hasBackingMemory ∧ Covered lhs rhs r
  blocks : ((m.touched r).map (splitsOf r)).sum ≤ granted m.heap
  calls : callsOfAll (m.touched r) ≤ m.served

/-! ## Which branch is taken -/

section Body

variable (hwf : RangeTable.WellFormed range m.table) (hr : r.front < r.back)

include hwf hr

lemma unmapBody_none (h : RangeTable.Around range m.table r pre [] post) :
    m.unmapBody r = .ok (.notFound, m) := by
  simp [unmapBody, h.find_nil hwf hr]

lemma unmapBody_one (h : RangeTable.Around range m.table r pre [s] post) :
    m.unmapBody r = m.unmapOne pre.length r := by
  have h' : RangeTable.Around range m.table r pre ([] ++ [s]) post := h
  have hfind := h'.find_concat hwf hr
  have hne : pre.length ≠ m.table.length := by simp [h.eq]
  simp [unmapBody, hfind, hne]

lemma unmapBody_many
    (h : RangeTable.Around range m.table r pre (lhs :: (inner ++ [rhs])) post) :
    m.unmapBody r = m.unmapMany pre.length lhs.virtualRange rhs.virtualRange r := by
  have h' : RangeTable.Around range m.table r pre ((lhs :: inner) ++ [rhs]) post := h
  have hfind := h'.find_concat hwf hr
  have hne : pre.length ≠ m.table.length := by simp [h.eq]
  have hlhs : m.table[pre.length]? = some lhs := by simp [h.eq]
  have hrhs : m.table[pre.length + (lhs :: inner).length]? = some rhs := by
    have ht : m.table = (pre ++ lhs :: inner) ++ rhs :: post := by simp [h.eq]
    rw [ht, ← length_append]
    exact getElem?_append_cons
  have hne' : pre.length ≠ pre.length + (lhs :: inner).length := by simp
  simp only [unmapBody, hfind, if_neg hne, if_neg hne', hlhs, hrhs]

end Body

/-! ## Ends without backing memory -/

/-- An address outside the range whose backing has changed. -/
def Spoils (m m' : AddressSpaceManager) (r : AnyRange) : Prop :=
  ∃ a, ¬ r.contains a ∧ backingAt m'.table a ≠ backingAt m.table a

lemma Spoils.of_lost (hwf : RangeTable.WellFormed range m.table) (hs : s ∈ m.table)
    {a : Nat} (hsa : s.range.contains a) (ha : ¬ r.contains a)
    (h : ∀ u ∈ m'.table, ¬ u.range.contains a) : Spoils m m' r := by
  refine ⟨a, ha, ?_⟩
  rw [backingAt, valueAt_eq_none_iff.2 h, backingAt,
    valueAt_of_mem hwf hs hsa]
  simp

section External

variable (ht : m.table = pre ++ lhs :: (inner ++ rhs :: post)) (hm : Sound m)
  (hrl : ∀ u ∈ pre, u.range.back ≤ r.front) (hl : r.front < lhs.range.back) (hrb : rhs.range.front < r.back)

include ht hm hrl hl hrb

lemma unmapBetween_external (hL : L = ⟨lhs.range.front, lhs.range.front⟩)
    (hR : L.back ≤ R.front) (h : m.unmapBetween L R = .ok (status, m')) : Spoils m m' r := by
  have hb := between ht hm.wf
  simp only [unmapBetween, bind_eq_ok] at h
  obtain ⟨m1, h1, m2, h2, m3, h3, h⟩ := h
  obtain ⟨rfl, rfl⟩ : success = status ∧ m3 = m' := by simpa [pure, Except.pure] using h
  have hm1 := hm.eraseSegment h1
  have hm2 := hm1.eraseSegment h2
  obtain ⟨p, x, q, hx, hback, t1⟩ := eraseSegment_takes h1
  have hback : x.range.back = lhs.range.front := by rw [hback, hL]
  have hxne := hm.wf.nonempty x (by simp [hx])
  have hxm : x ∈ m.table := by simp [hx]
  have hxpre : x ∈ pre := by
    simp only [ht, mem_append, mem_cons] at hxm
    have := hb.left
    have := hb.right
    rcases hxm with hxm | rfl | hxm | rfl | hxm
    · exact hxm
    · omega
    · have := hb.inside x hxm
      omega
    · have := hb.order
      omega
    · have := hb.above x hxm
      have := hb.order
      omega
  refine Spoils.of_lost hm.wf hxm ⟨le_rfl, hxne⟩ (fun hc => ?_) fun u hu huc => ?_
  · have h1 := hrl x hxpre
    have h2 := hc.1
    omega
  · have hu2 := (eraseMany_keeps hm2.wf hR h3).1.subset hu
    have hu1 := (eraseSegment_sublist h2).subset hu2
    rw [t1.table] at hu1
    -- nothing else of the table covers the address
    have hat := (hx ▸ hm.wf).at_cons
    have hcon := huc
    simp only [AnyRange.contains] at hcon
    rcases mem_append.1 hu1 with hu1 | hu1
    · have := hat.2.1 u hu1
      omega
    · have := hat.2.2 u hu1
      omega

lemma unmapMany_external_lhs (hL : L = ⟨lhs.range.front, lhs.range.front⟩)
    (hR : R.front = rhs.range.front)
    (h : m.unmapMany pre.length L R r = .ok (status, m')) : Spoils m m' r := by
  have hb := between ht hm.wf
  have hLR : L.back ≤ R.front := by
    have h1 := hb.order
    have h2 := hb.left
    rw [hL, hR]
    dsimp only
    omega
  have hnot : ¬ (L.contains r.front ∧ R.contains r.back) := by
    rintro ⟨hc, -⟩
    rw [hL] at hc
    have h1 := hc.1
    have h2 := hc.2
    dsimp only at h1 h2
    omega
  have hbetween := @unmapBetween_external m m' pre post inner lhs rhs r L R status ht hm hrl hl hrb
    hL hLR
  by_cases h1 : L.front = r.front ∧ R.back = r.back
  · rw [unmapMany, if_pos h1] at h
    exact hbetween h
  by_cases h2 : r.containsRange L ∧ R.back = r.back
  · rw [unmapMany, if_neg h1, if_pos h2] at h
    exact hbetween h
  by_cases h3 : r.containsRange R ∧ L.front = r.front
  · rw [unmapMany, if_neg h1, if_neg h2, if_pos h3] at h
    exact hbetween h
  by_cases h5 : r.front > L.front ∧ r.back > R.back
  · obtain ⟨status1, m1, hs, m2, he, hmany, -⟩ := (unmapMany_spill h5.1 h5.2 hnot).1 h
    have hm1 := hm.splitSegment hs
    have hm2 := hm1.eraseSegment he
    have hLf : L.front = lhs.range.front := by rw [hL]
    have hLb : L.back = lhs.range.front := by rw [hL]
    -- what is left of the first segment lies between the ends, and is erased
    obtain ⟨x, hx, hxf, hxb⟩ : ∃ x ∈ m1.table, x.range.contains lhs.range.front ∧
        x.range.back ≤ lhs.range.back := by
      obtain ⟨-, hp, t1⟩ | ⟨-, hsame⟩ := splitSegment_takes ht hm.wf hs
      · exact ⟨lowPart lhs r.front, by simp [t1.table, keptPart], ⟨le_rfl, hp.1⟩, hp.2.le⟩
      · exact ⟨lhs, by simp [hsame, ht], ⟨le_rfl, hb.left⟩, le_rfl⟩
    refine Spoils.of_lost hm.wf (by simp [ht]) ⟨le_rfl, hb.left⟩
      (fun hc => ?_) fun u hu huc => ?_
    · have := hc.1
      omega
    · obtain ⟨hu2, hout⟩ := ((eraseMany_keeps hm2.wf hLR hmany).2 u).1 hu
      have hu1 := (eraseSegment_sublist he).subset hu2
      obtain rfl := eq_of_contains hm1.wf hx hu1 hxf huc
      have h1 := huc.2
      have h2 := hb.order
      dsimp only at hout
      omega
  · rw [unmapMany, if_neg h1, if_neg h2, if_neg h3, if_neg hnot, if_neg h5] at h
    simp at h

omit hrl hl in
lemma unmapMany_external_rhs (hLb : L.back ≤ lhs.range.back)
    (hR : R = ⟨rhs.range.front, rhs.range.front⟩)
    (h : m.unmapMany pre.length L R r = .ok (status, m')) : rhs ∈ m'.table := by
  have hb := between ht hm.wf
  have hRf : R.front = rhs.range.front := by rw [hR]
  have hRb : R.back = rhs.range.front := by rw [hR]
  have hord := hb.order
  have hright := hb.right
  have hLR : L.back ≤ R.front := by omega
  have hnot : ¬ (L.contains r.front ∧ R.contains r.back) := by
    rintro ⟨-, hc⟩
    have := hc.2
    omega
  have hmem : rhs ∈ m.table := by simp [ht]
  by_cases h1 : L.front = r.front ∧ R.back = r.back
  · omega
  by_cases h2 : r.containsRange L ∧ R.back = r.back
  · omega
  by_cases h3 : r.containsRange R ∧ L.front = r.front
  · rw [unmapMany, if_neg h1, if_neg h2, if_pos h3] at h
    simp only [unmapBetween, bind_eq_ok] at h
    obtain ⟨m1, h4, m2, h5, m3, h6, h⟩ := h
    obtain ⟨rfl, rfl⟩ : success = status ∧ m3 = m' := by simpa [pure, Except.pure] using h
    have hm2 := (hm.eraseSegment h4).eraseSegment h5
    have hmem1 := eraseSegment_mem h4 hmem (by omega)
    have hmem2 := eraseSegment_mem h5 hmem1 (by omega)
    exact ((eraseMany_keeps hm2.wf hLR h6).2 rhs).2 ⟨hmem2, .inr (by dsimp only; omega)⟩
  by_cases h5 : r.front > L.front ∧ r.back > R.back
  · obtain ⟨status1, m1, hs, m2, he, hmany, -⟩ := (unmapMany_spill h5.1 h5.2 hnot).1 h
    have hm2 := (hm.splitSegment hs).eraseSegment he
    have hmem1 : rhs ∈ m1.table := by
      obtain ⟨-, -, t1⟩ | ⟨-, hsame⟩ := splitSegment_takes ht hm.wf hs
      · simp [t1.table]
      · simp [hsame, ht]
    have hmem2 := eraseSegment_mem he hmem1 (by omega)
    exact ((eraseMany_keeps hm2.wf hLR hmany).2 rhs).2 ⟨hmem2, .inr (by dsimp only; omega)⟩
  · rw [unmapMany, if_neg h1, if_neg h2, if_neg h3, if_neg hnot, if_neg h5] at h
    simp at h

end External

/-! ## Soundness of the table -/

lemma Sound.unmapMany (hm : Sound m) {it : Nat} (hLR : L.back ≤ R.front)
    (h : m.unmapMany it L R r = .ok (status, m')) : Sound m' := by
  have hbetween : m.unmapBetween L R = .ok (status, m') → Sound m' := by
    intro h
    simp only [AddressSpaceManager.unmapBetween, bind_eq_ok] at h
    obtain ⟨m1, h1, m2, h2, m3, h3, h⟩ := h
    obtain ⟨rfl, rfl⟩ : success = status ∧ m3 = m' := by simpa [pure, Except.pure] using h
    exact ((hm.eraseSegment h1).eraseSegment h2).eraseMany hLR h3
  simp only [AddressSpaceManager.unmapMany] at h
  split_ifs at h with h1 h2 h3 h4 h5
  · exact hbetween h
  · exact hbetween h
  · exact hbetween h
  · simp only [bind_eq_ok, Prod.exists] at h
    obtain ⟨_, m1, h1, _, m2, h2, m3, h3, h⟩ := h
    obtain ⟨rfl, rfl⟩ : success = status ∧ m3 = m' := by simpa [pure, Except.pure] using h
    exact ((hm.splitSegment h1).splitSegment h2).eraseMany hLR h3
  · simp only [bind_eq_ok, Prod.exists] at h
    obtain ⟨_, m1, h1, m2, h2, m3, h3, h⟩ := h
    obtain ⟨rfl, rfl⟩ : success = status ∧ m3 = m' := by simpa [pure, Except.pure] using h
    exact ((hm.splitSegment h1).eraseSegment h2).eraseMany hLR h3

lemma virtualRange_back_le (hok : SegmentOk s) (hne : s.range.front < s.range.back) :
    s.virtualRange.back ≤ s.range.back := by
  by_cases hs : s.hasBackingMemory
  · rw [virtualRange_backed hok hne hs]
  · rw [virtualRange_external hs hok]
    exact hne.le

lemma Sound.unmapOne (hm : Sound m) (hr : r.front < r.back) (ht : m.table = pre ++ s :: post)
    (hmeet : r.front < s.range.back ∧ s.range.front < r.back)
    (h : m.unmapOne pre.length r = .ok (status, m')) : Sound m' := by
  have hok := hm.segments s (by simp [ht])
  have hne := hm.wf.nonempty s (by simp [ht])
  by_cases hs : s.hasBackingMemory
  · obtain ⟨-, ht', -⟩ | hsame :=
      unmapOne_takes ht (virtualRange_backed hok hne hs) hm.wf hok hs hr hmeet h
    · exact hm.replace ht ht' (wellFormed_remains hr)
        (fun q hq => (mem_remains hmeet hok hq).2.2) fun q hq => (mem_remains hmeet hok hq).1
    · exact hm.of_sublist (by rw [hsame.2])
  · rw [unmapOne_external_eq ht hmeet (virtualRange_external hs hok)] at h
    split_ifs at h with hle
    · obtain ⟨m1, h1, heq⟩ := map_eq_ok.1 h
      obtain ⟨-, rfl⟩ : success = status ∧ m1 = m' := by simpa using heq
      exact hm.eraseSegmentAt h1
    · exact hm.splitSegment h

lemma Sound.unmapBody (hm : Sound m) (hr : r.front < r.back)
    (h : m.unmapBody r = .ok (status, m')) : Sound m' := by
  obtain ⟨pre, mid, post, ha⟩ := hm.wf.exists_around r
  rcases ends_cases mid with rfl | ⟨s, rfl⟩ | ⟨lhs, inner, rhs, rfl⟩
  · rw [unmapBody_none hm.wf hr ha] at h
    cases h
    exact hm
  · rw [unmapBody_one hm.wf hr ha] at h
    exact hm.unmapOne hr (by simpa using ha.eq) (ha.meets s (by simp)) h
  · have ht : m.table = pre ++ lhs :: (inner ++ rhs :: post) := by simp [ha.eq]
    rw [unmapBody_many hm.wf hr ha] at h
    refine hm.unmapMany ?_ h
    have hb := between ht hm.wf
    exact (virtualRange_back_le (hm.segments lhs (by simp [ht])) hb.left).trans hb.order

lemma unmap_eq_ok (hr : r.front < r.back) :
    m.unmap r = .ok (status, m') ↔ m.unmapBody r = .ok (status, m') ∧ unmapDeferred r m' := by
  have hvalid : ¬ ¬ r.isValid := by
    rw [AnyRange.isValid]
    omega
  rw [unmap, if_neg hvalid]
  cases h : m.unmapBody r with
  | error e => simp
  | ok out =>
    obtain ⟨status1, m1⟩ := out
    dsimp only
    split_ifs with hd
    · simp only [Except.ok.injEq, Prod.mk.injEq]
      constructor
      · rintro ⟨rfl, rfl⟩
        exact ⟨⟨rfl, rfl⟩, hd⟩
      · exact fun h => h.1
    · simp only [Except.ok.injEq, Prod.mk.injEq, false_iff, not_and]
      rintro ⟨-, rfl⟩
      exact hd

/-! ## Safe calls -/

lemma unmapDeferred_of_clear (h : ∀ s ∈ m.table, ¬ r.Meets s.range)
    (hne : ∀ s ∈ m.table, s.range.front < s.range.back) (hr : r.front < r.back) :
    unmapDeferred r m := by
  intro s hs
  have hs := mem_of_getElem? hs
  have h1 := h s hs
  simp only [AnyRange.Meets] at h1
  have hle : min r.back s.range.back ≤ max r.front s.range.front := by omega
  simp only [AnyRange.intersection, if_pos hle, AnyRange.isEmpty]

lemma remains_clear {q : AddressSegment} (hq : q ∈ remains r s) : ¬ r.Meets q.range := by
  simp only [remains, mem_append, mem_ite_nil_right, mem_singleton] at hq
  simp only [AnyRange.Meets]
  rcases hq with ⟨-, rfl⟩ | ⟨-, rfl⟩
  · rw [lowPart_range]
    dsimp only
    omega
  · rw [highPart_range]
    dsimp only
    omega

section Safe

variable (hm : Sound m) (hr : r.front < r.back)
  (ha : RangeTable.Around range m.table r pre mid post)

lemma touched_eq (ha : RangeTable.Around range m.table r pre mid post) :
    m.touched r = mid := ha.filter_meets

include hm in
lemma inner_contained
    (ha : RangeTable.Around range m.table r pre (lhs :: (inner ++ [rhs])) post) :
    (∀ u ∈ inner, splitsOf r u = 0 ∧ remains r u = []) ∧
      splitsOf r lhs = (if lhs.range.front < r.front then 1 else 0) ∧
      splitsOf r rhs = (if r.back < rhs.range.back then 1 else 0) ∧
      remains r lhs = (if lhs.range.front < r.front then [lowPart lhs r.front] else []) ∧
      remains r rhs = (if r.back < rhs.range.back then [highPart rhs r.back] else []) := by
  have ht : m.table = pre ++ lhs :: (inner ++ rhs :: post) := by simp [ha.eq]
  have hb := between ht hm.wf
  have hl := ha.meets lhs (by simp)
  have hrm := ha.meets rhs (by simp)
  have hord := hb.order
  have h1 : ¬ r.back < lhs.range.back := by omega
  have h2 : ¬ rhs.range.front < r.front := by omega
  refine ⟨fun u hu => ?_, by simp [splitsOf, h1], by simp [splitsOf, h2], by simp [remains, h1],
    by simp [remains, h2]⟩
  have hu := hb.inside u hu
  have h3 : ¬ u.range.front < r.front := by omega
  have h4 : ¬ r.back < u.range.back := by omega
  simp [splitsOf, remains, h3, h4]

include hm in
lemma unmapMany_safe
    (ha : RangeTable.Around range m.table r pre (lhs :: (inner ++ [rhs])) post)
    (hbl : lhs.hasBackingMemory) (hbr : rhs.hasBackingMemory) (hcov : Covered lhs rhs r)
    (hg : splitsOf r lhs + splitsOf r rhs ≤ granted m.heap)
    (hc : callsOf lhs + callsOf rhs + callsOfAll inner ≤ m.served) :
    ∃ m', m.unmapMany pre.length lhs.range rhs.range r = .ok (.success, m') ∧
      m'.table = pre ++ (remains r lhs ++ remains r rhs ++ post) := by
  have ht : m.table = pre ++ lhs :: (inner ++ rhs :: post) := by simp [ha.eq]
  have hb := between ht hm.wf
  have hl := ha.meets lhs (by simp)
  have hrm := ha.meets rhs (by simp)
  have hord := hb.order
  obtain ⟨-, hsl, hsr, hreml, hremr⟩ := inner_contained hm ha
  have hcl : callsOf lhs = 2 := by rw [callsOf, if_pos hbl]
  have hcr : callsOf rhs = 2 := by rw [callsOf, if_pos hbr]
  -- the three branches that erase both ends whole
  have hwhole : ¬ lhs.range.front < r.front → ¬ r.back < rhs.range.back →
      m.unmapMany pre.length lhs.range rhs.range r = m.unmapBetween lhs.range rhs.range →
      ∃ m', m.unmapMany pre.length lhs.range rhs.range r = .ok (.success, m') ∧
        m'.table = pre ++ (remains r lhs ++ remains r rhs ++ post) := by
    intro h1 h2 heq
    obtain ⟨m', h'⟩ := unmapBetween_served ht hm.wf (R := rhs.range) rfl rfl rfl hc
    refine ⟨m', heq.trans h', ?_⟩
    rw [(unmapBetween_takes ht hm.wf rfl rfl rfl h').table, hreml, hremr, if_neg h1, if_neg h2]
    simp
  rcases hcov with ⟨h1, h2⟩ | ⟨h1, h2⟩ | ⟨h1, h2⟩
  · by_cases h3 : r.back < rhs.range.back
    · have hl' : lhs.range.front < r.front ∧ r.front < lhs.range.back := ⟨h1, hl.1⟩
      have hr' : rhs.range.front < r.back ∧ r.back < rhs.range.back := ⟨hrm.2, h3⟩
      rw [hsl, hsr, if_pos h1, if_pos h3] at hg
      obtain ⟨m', h', t⟩ := unmapMany_across_served ht hm hl' hr' pre.length (by omega)
        (by omega)
      refine ⟨m', h', ?_⟩
      rw [t.table, hreml, hremr, if_pos h1, if_pos h3]
      simp
    · have h3 : rhs.range.back < r.back := by omega
      have hl' : lhs.range.front < r.front ∧ r.front < lhs.range.back := ⟨h1, hl.1⟩
      rw [hsl, if_pos h1] at hg
      obtain ⟨m', h', t⟩ := unmapMany_spill_served ht hm hl' h3 (by omega) (by omega)
      refine ⟨m', h', ?_⟩
      rw [t.table, hreml, hremr, if_pos h1, if_neg (by omega)]
      simp
  · refine hwhole (by omega) (by omega) ?_
    by_cases h3 : rhs.range.back = r.back
    · rw [unmapMany, if_pos ⟨h1.symm, h3⟩]
    · have hcon : r.containsRange rhs.range := ⟨by omega, h2⟩
      rw [unmapMany, if_neg (by omega), if_neg (by omega), if_pos ⟨hcon, h1.symm⟩]
  · refine hwhole (by omega) (by omega) ?_
    have hcon : r.containsRange lhs.range := ⟨by omega, by have := hb.right; omega⟩
    rw [unmapMany, if_neg (by omega), if_pos ⟨hcon, h2.symm⟩]

include hm ha in
lemma callsOfAll_touched (hmid : mid = lhs :: (inner ++ [rhs])) :
    callsOfAll (m.touched r) = callsOf lhs + callsOf rhs + callsOfAll inner ∧
      ((m.touched r).map (splitsOf r)).sum = splitsOf r lhs + splitsOf r rhs ∧
      mid.flatMap (remains r) = remains r lhs ++ remains r rhs := by
  subst hmid
  obtain ⟨hinner, -⟩ := inner_contained hm ha
  have hsum : (inner.map (splitsOf r)).sum = 0 := by
    rw [List.sum_eq_zero_iff_forall_eq_nat]
    intro n hn
    obtain ⟨u, hu, rfl⟩ := mem_map.1 hn
    exact (hinner u hu).1
  have hflat : inner.flatMap (remains r) = [] :=
    flatMap_eq_nil_iff.2 fun u hu => (hinner u hu).2
  rw [touched_eq ha]
  refine ⟨?_, ?_, ?_⟩
  · simp [callsOfAll]
    omega
  · simp [hsum]
  · simp [hflat]

include hm hr ha in
lemma unmap_of_safe (hmid : mid ≠ []) (hsafe : UnmapSafe m r) :
    ∃ m', m.unmap r = .ok (.success, m') ∧
      m'.table = pre ++ (mid.flatMap (remains r) ++ post) := by
  have hbody : ∃ m', m.unmapBody r = .ok (.success, m') ∧
      m'.table = pre ++ (mid.flatMap (remains r) ++ post) := by
    rcases ends_cases mid with rfl | ⟨s, rfl⟩ | ⟨lhs, inner, rhs, rfl⟩
    · exact absurd rfl hmid
    · have ht : m.table = pre ++ s :: post := by simpa using ha.eq
      have hmeet := ha.meets s (by simp)
      have hok := hm.segments s (by simp [ht])
      have hne := hm.wf.nonempty s (by simp [ht])
      have hg := hsafe.blocks
      have hc := hsafe.calls
      simp only [touched_eq ha, callsOfAll, map_cons, map_nil, sum_cons,
        sum_nil, add_zero] at hg hc
      rw [unmapBody_one hm.wf hr ha]
      by_cases hs : s.hasBackingMemory
      · have hvr := virtualRange_backed hok hne hs
        rw [callsOf, if_pos hs] at hc
        obtain ⟨m', h'⟩ := unmapOne_served ht hvr hm.wf hr hmeet hg hc
        refine ⟨m', h', ?_⟩
        obtain ⟨-, ht', -⟩ | ⟨hfail, -⟩ := unmapOne_takes ht hvr hm.wf hok hs hr hmeet h'
        · simpa using ht'
        · exact absurd rfl hfail
      · have hcon := (hsafe.one s (touched_eq ha)).resolve_left hs
        obtain ⟨m', h'⟩ := eraseSegmentAt_served ht hc
        refine ⟨m', ?_, ?_⟩
        · rw [unmapOne_external_eq ht hmeet (virtualRange_external hs hok), if_pos hcon.1, h']
          rfl
        · have h1 : ¬ s.range.front < r.front := not_lt.2 hcon.1
          have h2 : ¬ r.back < s.range.back := not_lt.2 hcon.2
          rw [(eraseSegmentAt_takes ht h').table]
          simp [remains, h1, h2]
    · obtain ⟨hcalls, hsplits, hflat⟩ := callsOfAll_touched hm ha rfl
      obtain ⟨hbl, hbr, hcov⟩ := hsafe.many lhs inner rhs (touched_eq ha)
      have ht : m.table = pre ++ lhs :: (inner ++ rhs :: post) := by simp [ha.eq]
      have hb := between ht hm.wf
      have hvl := virtualRange_backed (hm.segments lhs (by simp [ht])) hb.left hbl
      have hvr := virtualRange_backed (hm.segments rhs (by simp [ht])) hb.right hbr
      rw [unmapBody_many hm.wf hr ha, hvl, hvr, hflat]
      exact unmapMany_safe hm ha hbl hbr hcov (hsplits ▸ hsafe.blocks) (hcalls ▸ hsafe.calls)
  obtain ⟨m', h', ht'⟩ := hbody
  refine ⟨m', (unmap_eq_ok hr).2 ⟨h', ?_⟩, ht'⟩
  refine unmapDeferred_of_clear (fun s hs => ?_) (hm.unmapBody hr h').wf.nonempty hr
  rw [ht', mem_append, mem_append] at hs
  rcases hs with hs | hs | hs
  · have := ha.before s hs
    simp only [AnyRange.Meets]
    omega
  · obtain ⟨u, -, hu⟩ := mem_flatMap.1 hs
    exact remains_clear hu
  · have := ha.after s hs
    simp only [AnyRange.Meets]
    omega

end Safe

/-! ## Calls that return -/

lemma unmapMany_status {it : Nat} (h : m.unmapMany it L R r = .ok (status, m')) :
    status = .success := by
  simp only [unmapMany, unmapBetween] at h
  split_ifs at h <;> simp only [bind_eq_ok, Prod.exists, pure, Except.pure, Except.ok.injEq,
    Prod.mk.injEq] at h
  · obtain ⟨_, _, _, _, _, _, rfl, -⟩ := h
    rfl
  · obtain ⟨_, _, _, _, _, _, rfl, -⟩ := h
    rfl
  · obtain ⟨_, _, _, _, _, _, rfl, -⟩ := h
    rfl
  · obtain ⟨_, _, _, _, _, _, _, _, rfl, -⟩ := h
    rfl
  · obtain ⟨_, _, _, _, _, _, _, rfl, -⟩ := h
    rfl

section Returns

variable (hm : Sound m) (hr : r.front < r.back)

include hm hr

lemma unmapOne_external_spoils (ht : m.table = pre ++ s :: post)
    (hmeet : r.front < s.range.back ∧ s.range.front < r.back) (hs : ¬ s.hasBackingMemory)
    (hcon : ¬ r.containsRange s.range) (h : m.unmapOne pre.length r = .ok (status, m'))
    (hdef : unmapDeferred r m') : status = .success ∧ Spoils m m' r := by
  have hok := hm.segments s (by simp [ht])
  have hne := hm.wf.nonempty s (by simp [ht])
  have hsm : s ∈ m.table := by simp [ht]
  have hat := (ht ▸ hm.wf).at_cons
  rw [unmapOne_external_eq ht hmeet (virtualRange_external hs hok)] at h
  rw [AnyRange.containsRange_iff] at hcon
  split_ifs at h with hle
  · obtain ⟨m1, h1, heq⟩ := map_eq_ok.1 h
    obtain ⟨rfl, rfl⟩ : success = status ∧ m1 = m' := by simpa using heq
    refine ⟨rfl, Spoils.of_lost hm.wf hsm (a := s.range.back - 1) ⟨by omega, by omega⟩
      (fun hc => ?_) fun u hu huc => ?_⟩
    · have := hc.2
      omega
    · rw [(eraseSegmentAt_takes ht h1).table] at hu
      have h1 := huc.1
      have h2 := huc.2
      rcases mem_append.1 hu with hu | hu
      · have := hat.2.1 u hu
        omega
      · have := hat.2.2 u hu
        omega
  · have hm' := hm.splitSegment h
    obtain ⟨rfl, hp, t⟩ | ⟨-, hsame⟩ := splitSegment_takes ht hm.wf h
    · refine ⟨rfl, s.range.front, fun hc => hle hc.1, ?_⟩
      have hlow : lowPart s r.front ∈ m'.table := by simp [t.table, keptPart]
      have hcl : (lowPart s r.front).range.contains s.range.front := ⟨le_rfl, hp.1⟩
      rw [backingAt, valueAt_of_mem hm'.wf hlow hcl, backingAt,
        valueAt_of_mem hm.wf hsm ⟨le_rfl, hne⟩, physical, physical, if_neg hs,
        if_pos (lowPart_hasBackingMemory hok hp)]
      simp
    · refine absurd hdef (not_unmapDeferred hm'.wf hr (by rw [hsame]; exact hsm) ?_)
      exact ⟨hmeet.1, hmeet.2⟩

lemma unmapMany_covered
    (ha : RangeTable.Around range m.table r pre (lhs :: (inner ++ [rhs])) post)
    (hbl : lhs.hasBackingMemory) (hbr : rhs.hasBackingMemory)
    (h : m.unmapMany pre.length lhs.range rhs.range r = .ok (status, m'))
    (hdef : unmapDeferred r m') :
    Covered lhs rhs r ∧ splitsOf r lhs + splitsOf r rhs ≤ granted m.heap ∧
      callsOf lhs + callsOf rhs + callsOfAll inner ≤ m.served := by
  have ht : m.table = pre ++ lhs :: (inner ++ rhs :: post) := by simp [ha.eq]
  have hb := between ht hm.wf
  have hl := ha.meets lhs (by simp)
  have hrm := ha.meets rhs (by simp)
  have hord := hb.order
  have hm' := hm.unmapMany hord h
  have hgone : ∀ u, r.Meets u.range → u ∉ m'.table :=
    fun u hu hmem => not_unmapDeferred hm'.wf hr hmem hu hdef
  have hlg := hgone lhs ⟨hl.1, hl.2⟩
  have hrg := hgone rhs ⟨hrm.1, hrm.2⟩
  obtain ⟨-, hsl, hsr, -, -⟩ := inner_contained hm ha
  have hcl : callsOf lhs = 2 := by rw [callsOf, if_pos hbl]
  have hcr : callsOf rhs = 2 := by rw [callsOf, if_pos hbr]
  have hwhole : m.unmapBetween lhs.range rhs.range = .ok (status, m') →
      callsOf lhs + callsOf rhs + callsOfAll inner ≤ m.served := by
    intro h
    have := (unmapBetween_takes ht hm.wf rfl rfl rfl h).calls
    omega
  rcases lt_trichotomy lhs.range.front r.front with h1 | h1 | h1
  · have hl' : lhs.range.front < r.front ∧ r.front < lhs.range.back := ⟨h1, hl.1⟩
    rw [hsl, hsr, if_pos h1]
    rcases lt_trichotomy r.back rhs.range.back with h2 | h2 | h2
    · rcases unmapMany_across_takes ht hm hl' ⟨hrm.2, h2⟩ h with t | hbad | hbad
      · have hblocks := t.blocks
        have hcalls := t.calls
        exact ⟨.inl ⟨h1, by omega⟩, by rw [if_pos h2]; omega, by omega⟩
      · exact absurd hbad hlg
      · exact absurd hbad hrg
    · -- it starts inside a segment and ends with the last one: no branch for it
      have hno : ¬ r.containsRange lhs.range := fun hc => by have := hc.1; omega
      have hno' : ¬ rhs.range.contains r.back := fun hc => by have := hc.2; omega
      rw [unmapMany, if_neg (by omega), if_neg fun hc => hno hc.1, if_neg (by omega),
        if_neg fun hc => hno' hc.2, if_neg (by omega)] at h
      simp at h
    · rcases unmapMany_spill_takes ht hm hl' h2 h with t | hbad
      · have hblocks := t.blocks
        have hcalls := t.calls
        exact ⟨.inl ⟨h1, by omega⟩, by rw [if_neg (by omega)]; omega, by omega⟩
      · exact absurd hbad hlg
  · rw [hsl, hsr, if_neg (by omega)]
    by_cases h2 : r.back < rhs.range.back
    · exact absurd (unmapMany_across_stuck ht hm ⟨hrm.2, h2⟩ h1 h) hlg
    · refine ⟨.inr (.inl ⟨h1.symm, by omega⟩), by rw [if_neg h2]; omega, hwhole ?_⟩
      by_cases h3 : rhs.range.back = r.back
      · rwa [unmapMany, if_pos ⟨h1, h3⟩] at h
      · have hcon : r.containsRange rhs.range := ⟨by omega, by omega⟩
        rwa [unmapMany, if_neg (by omega), if_neg (by omega), if_pos ⟨hcon, h1⟩] at h
  · rw [hsl, hsr, if_neg (by omega)]
    by_cases h2 : r.back = rhs.range.back
    · refine ⟨.inr (.inr ⟨h1, h2⟩), by rw [if_neg (by omega)]; omega, hwhole ?_⟩
      have hcon : r.containsRange lhs.range := ⟨by omega, by omega⟩
      rwa [unmapMany, if_neg (by omega), if_pos ⟨hcon, h2.symm⟩] at h
    · -- it starts in a gap and does not end with the last one: no branch for it either
      have hno : ¬ lhs.range.contains r.front := fun hc => by have := hc.1; omega
      rw [unmapMany, if_neg (by omega), if_neg (by omega), if_neg (by omega),
        if_neg fun hc => hno hc.1, if_neg (by omega)] at h
      simp at h

lemma safe_or_spoils (hne : m.touched r ≠ []) (h : m.unmap r = .ok (status, m')) :
    UnmapSafe m r ∨ status = .success ∧ Spoils m m' r := by
  obtain ⟨pre, mid, post, ha⟩ := hm.wf.exists_around r
  have htouched := touched_eq ha
  obtain ⟨h, hdef⟩ := (unmap_eq_ok hr).1 h
  have hm' := hm.unmapBody hr h
  rcases ends_cases mid with rfl | ⟨s, rfl⟩ | ⟨lhs, inner, rhs, rfl⟩
  · exact absurd htouched hne
  · have ht : m.table = pre ++ s :: post := by simpa using ha.eq
    have hmeet := ha.meets s (by simp)
    have hok := hm.segments s (by simp [ht])
    have hsne := hm.wf.nonempty s (by simp [ht])
    rw [unmapBody_one hm.wf hr ha] at h
    -- a single segment: what is left to show are the blocks and the calls
    have hsafe : (s.hasBackingMemory ∨ r.containsRange s.range) → splitsOf r s ≤ granted m.heap →
        callsOf s ≤ m.served → UnmapSafe m r := by
      intro hs hg hc
      refine ⟨fun u hu => ?_, fun a b c habc => ?_, by simpa [htouched] using hg,
        by simpa [htouched, callsOfAll] using hc⟩
      · obtain rfl : s = u := by simpa [htouched] using hu
        exact hs
      · simp [htouched] at habc
    by_cases hs : s.hasBackingMemory
    · have hvr := virtualRange_backed hok hsne hs
      obtain ⟨-, -, hg, hc⟩ | ⟨-, hsame⟩ := unmapOne_takes ht hvr hm.wf hok hs hr hmeet h
      · exact .inl (hsafe (.inl hs) hg (by rw [callsOf, if_pos hs]; exact hc))
      · refine absurd hdef (not_unmapDeferred hm'.wf hr ?_ ⟨hmeet.1, hmeet.2⟩)
        simp [hsame, ht]
    · by_cases hcon : r.containsRange s.range
      · rw [unmapOne_external_eq ht hmeet (virtualRange_external hs hok), if_pos hcon.1] at h
        obtain ⟨m1, h1, -⟩ := map_eq_ok.1 h
        have hc := (eraseSegmentAt_takes ht h1).calls
        have h2 : ¬ s.range.front < r.front := not_lt.2 hcon.1
        have h3 : ¬ r.back < s.range.back := not_lt.2 hcon.2
        exact .inl (hsafe (.inr hcon) (by simp [splitsOf, h2, h3]) (by omega))
      · exact .inr (unmapOne_external_spoils hm hr ht hmeet hs hcon h hdef)
  · have ht : m.table = pre ++ lhs :: (inner ++ rhs :: post) := by simp [ha.eq]
    have hb := between ht hm.wf
    have hl := ha.meets lhs (by simp)
    have hrm := ha.meets rhs (by simp)
    have hokl := hm.segments lhs (by simp [ht])
    have hokr := hm.segments rhs (by simp [ht])
    rw [unmapBody_many hm.wf hr ha] at h
    by_cases hbl : lhs.hasBackingMemory
    · by_cases hbr : rhs.hasBackingMemory
      · rw [virtualRange_backed hokl hb.left hbl, virtualRange_backed hokr hb.right hbr] at h
        obtain ⟨hcov, hg, hc⟩ := unmapMany_covered hm hr ha hbl hbr h hdef
        obtain ⟨hcalls, hsplits, -⟩ := callsOfAll_touched hm ha rfl
        refine .inl ⟨fun u hu => ?_, fun a b c habc => ?_, by rwa [hsplits], by rwa [hcalls]⟩
        · simp [htouched] at hu
        · rw [htouched, cons.injEq] at habc
          obtain ⟨rfl, habc⟩ := habc
          obtain ⟨-, hlast⟩ := append_inj' habc rfl
          obtain rfl : rhs = c := by simpa using hlast
          exact ⟨hbl, hbr, hcov⟩
      · have hmem := unmapMany_external_rhs ht hm hrm.2
          (virtualRange_back_le hokl hb.left) (virtualRange_external hbr hokr) h
        exact absurd hdef (not_unmapDeferred hm'.wf hr hmem ⟨hrm.1, hrm.2⟩)
    · exact .inr ⟨unmapMany_status h, unmapMany_external_lhs (R := rhs.virtualRange) ht hm
        ha.before hl.1 hrm.2 (virtualRange_external hbl hokl) rfl h⟩

end Returns

/-! ## Reachable address spaces -/

inductive Call
  | map (s : AddressSegment)
  | unmap (r : AnyRange)
  deriving DecidableEq

/-- The calls that edit the table of an address space. The mapping functions all insert one
segment, over addresses the heap had free; what they do to the heap and what the services answer
later is left open. -/
inductive Step : AddressSpaceManager → Call → AddressSpaceManager → Prop
  | map {m m' : AddressSpaceManager} {s : AddressSegment} (hok : SegmentOk s)
      (hne : s.range.front < s.range.back) (hfree : ∀ u ∈ m.table, ¬ s.range.Meets u.range)
      (ht : m'.table = (m.addSegment s).table) : Step m (.map s) m'
  | unmap {m m' : AddressSpaceManager} {r : AnyRange} {status : OsStatus}
      (hr : r.front < r.back) (h : m.unmap r = .ok (status, m')) : Step m (.unmap r) m'

def Reachable (m : AddressSpaceManager) : Prop := Lib.Reachable Step (fun m => m.table = []) m

lemma Sound.step {c : Call} (hm : Sound m) (h : Step m c m') : Sound m' := by
  cases h with
  | map hok hne hfree ht =>
    rename_i s
    obtain ⟨pre, mid, post, ha⟩ := hm.wf.exists_around s.range
    have hmid : mid = [] := by
      rw [← ha.filter_meets, filter_eq_nil_iff]
      intro u hu
      simpa using hfree u hu
    subst hmid
    obtain ⟨hpre, -, hpost, hpp, -⟩ := ha.wf_parts hm.wf
    have ht' : m'.table = pre ++ s :: post := by
      have hm : m.table = pre ++ post := by simpa using ha.eq
      rw [ht, addSegment, hm]
      refine insert_eq (fun u hu => ?_) fun u hu => ?_
      · exact lt_of_le_of_lt (ha.before u hu) hne
      · have h1 := ha.after u hu
        have h2 := hpost.nonempty u hu
        omega
    refine ⟨?_, fun u hu => ?_⟩
    · rw [ht']
      refine wellFormed_append.2 ⟨hpre,
        wellFormed_cons.2 ⟨hne, hpost, ha.after⟩, fun u hu v hv => ?_⟩
      rcases mem_cons.1 hv with rfl | hv
      · exact ha.before u hu
      · exact hpp u hu v (by simpa using hv)
    · rw [ht', mem_append, mem_cons] at hu
      rcases hu with hu | rfl | hu
      · exact hm.segments u (by simp [ha.eq, hu])
      · exact hok
      · exact hm.segments u (by simp [ha.eq, hu])
  | unmap hr h => exact hm.unmapBody hr ((unmap_eq_ok hr).1 h).1

lemma Reachable.sound (hm : Reachable m) : Sound m := by
  refine Lib.Reachable.induction (fun s hs => ?_) (fun s c t hs h => hs.step h) hm
  exact ⟨hs ▸ .nil, by simp [hs]⟩

lemma Reachable.step (hm : Reachable m) {c : Call} (h : Step m c m') : Reachable m' := by
  obtain ⟨s, cs, hs, hrun⟩ := hm
  exact ⟨s, cs ++ [c], hs, hrun.append (.single h)⟩

lemma UnmapSafe.exact (hm : Sound m) (hr : r.front < r.back) (hmeets : m.touched r ≠ [])
    (hsafe : UnmapSafe m r) : UnmapExact m r := by
  obtain ⟨pre, mid, post, ha⟩ := hm.wf.exists_around r
  have htouched := touched_eq ha
  obtain ⟨m', h', ht'⟩ := unmap_of_safe hm hr ha (by rwa [← htouched]) hsafe
  refine ⟨.success, m', h', fun _ => ⟨fun a => ?_, (hm.unmapBody hr ((unmap_eq_ok hr).1 h').1).wf⟩⟩
  -- a segment without backing memory is never cut
  have hcut : ∀ s ∈ mid, s.hasBackingMemory ∨ r.containsRange s.range := by
    rcases ends_cases mid with rfl | ⟨s, rfl⟩ | ⟨lhs, inner, rhs, rfl⟩
    · simp
    · simpa using hsafe.one s htouched
    · obtain ⟨hbl, hbr, -⟩ := hsafe.many lhs inner rhs htouched
      have hin := (inner_contained hm ha).1
      intro s hs
      simp only [mem_cons, mem_append, not_mem_nil, or_false] at hs
      rcases hs with rfl | hs | rfl
      · exact .inl hbl
      · have h0 := (hin s hs).1
        refine .inr ⟨?_, ?_⟩ <;> by_contra hlt <;> rw [not_le] at hlt <;>
          simp [splitsOf, hlt] at h0
      · exact .inl hbr
  have hpieces : valueAt range physical
      (pre ++ (mid.flatMap (remains r) ++ post)) a =
        updateAt range physical (fun _ => none) r m.table a :=
    valueAt_replace hm.wf ha (fun s hs b => backingAt_remains (ha.meets s hs)
      (hm.segments s (by simp [ha.eq, hs])) (hcut s hs) b) a
  rw [backingAt, ht', hpieces, updateAt, backingAt]
  split <;> simp

/-- An unmap is exact in the safe states, and in no others. -/
theorem unmap_exact_iff (hm : Reachable m) (hr : r.front < r.back) (hmeets : m.touched r ≠ []) :
    UnmapExact m r ↔ UnmapSafe m r := by
  refine ⟨?_, UnmapSafe.exact hm.sound hr hmeets⟩
  rintro ⟨status, m', h, hexact⟩
  rcases safe_or_spoils hm.sound hr hmeets h with hsafe | ⟨rfl, a, ha, hne⟩
  · exact hsafe
  · refine absurd ?_ hne
    rw [(hexact rfl).1 a, if_neg ha]

def threePages : AddressSpaceManager :=
  { table := [⟨⟨0x10000, 0x11000⟩, ⟨0x1000, 0x2000⟩⟩, ⟨⟨0x20000, 0x22000⟩, ⟨0x2000, 0x4000⟩⟩]
    heap := ⟨[⟨0x1000, 0x2000⟩, ⟨0x2000, 0x4000⟩], [true, true]⟩
    answers := [true, true, true, true]
    log := [] }

lemma reachable_threePages : Reachable threePages := by
  have h0 : Reachable ⟨[], ⟨[], []⟩, [], []⟩ := ⟨_, [], rfl, .nil _⟩
  have h1 : Reachable ⟨[⟨⟨0x10000, 0x11000⟩, ⟨0x1000, 0x2000⟩⟩], ⟨[], []⟩, [], []⟩ :=
    h0.step (.map
      ⟨by decide, by decide, by decide, fun _ => by decide⟩ (by decide) (by decide) rfl)
  exact h1.step (.map (s := ⟨⟨0x20000, 0x22000⟩, ⟨0x2000, 0x4000⟩⟩)
    ⟨by decide, by decide, by decide, fun _ => by decide⟩ (by decide) (by decide) rfl)

/-- The middle page alone is cut off the front of its segment. -/
theorem unmap_exact_middle_page :
    UnmapSafe threePages ⟨0x2000, 0x3000⟩ ∧ UnmapExact threePages ⟨0x2000, 0x3000⟩ := by
  have htouched : threePages.touched ⟨0x2000, 0x3000⟩ =
      [⟨⟨0x20000, 0x22000⟩, ⟨0x2000, 0x4000⟩⟩] := by decide
  have hsafe : UnmapSafe threePages ⟨0x2000, 0x3000⟩ := by
    refine ⟨fun s hs => ?_, fun lhs inner rhs hs => ?_, by decide, by decide⟩
    · obtain ⟨rfl, -⟩ := hs
      exact .inl (by decide)
    · simp [htouched] at hs
  exact ⟨hsafe, (unmap_exact_iff reachable_threePages (by decide) (by decide)).2 hsafe⟩

/-- The first two pages: the range starts with one segment and ends inside the other, the split of
the first one is refused, and the call stops in the check it makes when it leaves. -/
theorem unmap_first_two_pages_inexact :
    Reachable threePages ∧ threePages.touched ⟨0x1000, 0x3000⟩ ≠ [] ∧
      ¬ UnmapExact threePages ⟨0x1000, 0x3000⟩ := by
  refine ⟨reachable_threePages, by decide, ?_⟩
  rintro ⟨status, m', h, -⟩
  have hfault : threePages.unmap ⟨0x1000, 0x3000⟩ = .error .bugCheck := by decide
  rw [hfault] at h
  simp at h

end AddressSpaceManager
end BezOS
