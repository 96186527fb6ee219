import BezOS.System.UnmapOne

/-!
# Unmapping across segments

The branches of `unmap` for a range that meets several segments: `lhs` is the first of them,
`rhs` the last, `inner` those between.
-/

namespace BezOS
namespace AddressSpaceManager

open Lib AddressSegment List RangeTable

variable {m m' : AddressSpaceManager} {pre post inner : List AddressSegment}
  {lhs rhs s : AddressSegment} {r L R : AnyRange} {status : OsStatus}

/-- Where the parts of a table lie that is cut at two segments. -/
structure Between (pre : List AddressSegment) (lhs : AddressSegment) (inner : List AddressSegment)
    (rhs : AddressSegment) (post : List AddressSegment) : Prop where
  below : ∀ u ∈ pre, u.range.front < u.range.back ∧ u.range.back ≤ lhs.range.front
  left : lhs.range.front < lhs.range.back
  inside : ∀ u ∈ inner, lhs.range.back ≤ u.range.front ∧ u.range.front < u.range.back ∧
    u.range.back ≤ rhs.range.front
  order : lhs.range.back ≤ rhs.range.front
  right : rhs.range.front < rhs.range.back
  above : ∀ u ∈ post, rhs.range.back ≤ u.range.front ∧ u.range.front < u.range.back

lemma between (ht : m.table = pre ++ lhs :: (inner ++ rhs :: post))
    (hwf : RangeTable.WellFormed range m.table) :
    Between pre lhs inner rhs post := by
  have hl := (ht ▸ hwf).at_cons
  have ht' : m.table = (pre ++ lhs :: inner) ++ rhs :: post := by simp [ht]
  have hr := (ht' ▸ hwf).at_cons
  exact ⟨hl.2.1, hl.1,
    fun u hu => ⟨(hl.2.2 u (by simp [hu])).1, (hr.2.1 u (by simp [hu])).1,
      (hr.2.1 u (by simp [hu])).2⟩,
    (hl.2.2 rhs (by simp)).1, hr.1, hr.2.2⟩

namespace Between

variable (hb : Between pre lhs inner rhs post)

include hb

lemma pre_le : ∀ u ∈ pre, u.range.back ≤ lhs.range.back :=
  fun u hu => (hb.below u hu).2.trans hb.left.le

lemma cut_le {p : Nat} (hp : p ≤ lhs.range.back) :
    ∀ u ∈ pre ++ [lowPart lhs p], u.range.back ≤ lhs.range.back := by
  intro u hu
  rcases mem_append.1 hu with hu | hu
  · exact hb.pre_le u hu
  · obtain rfl := mem_singleton.1 hu
    exact hp

lemma lt_post : ∀ u ∈ post, rhs.range.front < u.range.back := by
  intro u hu
  have h1 := hb.above u hu
  have h2 := hb.right
  omega

lemma lt_cut {p : Nat} : ∀ u ∈ highPart rhs p :: post, rhs.range.front < u.range.back := by
  intro u hu
  rcases mem_cons.1 hu with rfl | hu
  · exact hb.right
  · exact hb.lt_post u hu

end Between

/-! ## Everything between the ends -/

section Middle

variable (hb : Between pre lhs inner rhs post) {low high : List AddressSegment}
  (hlow : ∀ u ∈ low, u.range.back ≤ lhs.range.back)
  (hhigh : ∀ u ∈ high, rhs.range.front < u.range.back)
  (ht : m.table = low ++ (inner ++ high))

include hb hlow hhigh ht

lemma eraseInner_takes (h : m.eraseMany ⟨lhs.range.back, rhs.range.front⟩ = .ok m') :
    Takes m m' (low ++ high) 0 (callsOfAll inner) := by
  refine eraseMany_takes hhigh hlow hb.order ht (fun u hu => ?_) h
  have := hb.inside u hu
  dsimp only
  omega

lemma eraseInner_served (hc : callsOfAll inner ≤ m.served) :
    ∃ m', m.eraseMany ⟨lhs.range.back, rhs.range.front⟩ = .ok m' := by
  refine eraseMany_served hhigh hlow hb.order ht (fun u hu => ?_) hc
  have := hb.inside u hu
  rw [AnyRange.containsRange_iff]
  dsimp only
  omega

end Middle

section Branches

variable (ht : m.table = pre ++ lhs :: (inner ++ rhs :: post))
  (hwf : RangeTable.WellFormed range m.table)

include ht hwf

lemma wellFormed_tail :
    RangeTable.WellFormed range ((pre ++ inner) ++ rhs :: post) := by
  simpa using (ht ▸ hwf).replace .nil (by simp)

/-! ## Both ends whole -/

lemma unmapBetween_takes (hL : L.back = lhs.range.back) (hR : R.back = rhs.range.back)
    (hRf : R.front = rhs.range.front) (h : m.unmapBetween L R = .ok (status, m')) :
    Takes m m' (pre ++ post) 0 (callsOf lhs + callsOf rhs + callsOfAll inner) := by
  have hb := between ht hwf
  simp only [unmapBetween, bind_eq_ok, eraseSegment_eq ht hwf hL] at h
  obtain ⟨m1, h1, m2, h2, m3, h3, h⟩ := h
  obtain ⟨rfl, rfl⟩ : OsStatus.success = status ∧ m3 = m' := by simpa [pure, Except.pure] using h
  have t1 := eraseSegmentAt_takes ht h1
  have ht1 : m1.table = (pre ++ inner) ++ rhs :: post := by simp [t1.table]
  rw [eraseSegment_eq ht1 (ht1 ▸ wellFormed_tail ht hwf) hR] at h2
  have t2 := eraseSegmentAt_takes ht1 h2
  rw [hL, hRf] at h3
  refine (t1.trans t2).trans (eraseInner_takes hb hb.pre_le hb.lt_post ?_ h3)
  rw [t2.table, append_assoc]

lemma unmapBetween_served (hL : L.back = lhs.range.back) (hR : R.back = rhs.range.back)
    (hRf : R.front = rhs.range.front)
    (hc : callsOf lhs + callsOf rhs + callsOfAll inner ≤ m.served) :
    ∃ m', m.unmapBetween L R = .ok (.success, m') := by
  have hb := between ht hwf
  obtain ⟨m1, h1⟩ := eraseSegmentAt_served ht (by omega)
  have t1 := eraseSegmentAt_takes ht h1
  have c1 := t1.calls
  have ht1 : m1.table = (pre ++ inner) ++ rhs :: post := by simp [t1.table]
  obtain ⟨m2, h2⟩ := eraseSegmentAt_served ht1 (by omega)
  have t2 := eraseSegmentAt_takes ht1 h2
  have c2 := t2.calls
  have ht2 : m2.table = pre ++ (inner ++ post) := by rw [t2.table, append_assoc]
  obtain ⟨m3, h3⟩ := eraseInner_served hb hb.pre_le hb.lt_post ht2 (by omega)
  refine ⟨m3, ?_⟩
  simp only [unmapBetween, bind_eq_ok]
  refine ⟨m1, ?_, m2, ?_, m3, ?_, rfl⟩
  · rw [eraseSegment_eq ht hwf hL, h1]
  · rw [eraseSegment_eq ht1 (ht1 ▸ wellFormed_tail ht hwf) hR, h2]
  · rw [hL, hRf, h3]

end Branches

/-! ## Both ends cut -/

section Across

variable {it : Nat} (ht : m.table = pre ++ lhs :: (inner ++ rhs :: post)) (hm : Sound m)
  (hl : lhs.range.front < r.front ∧ r.front < lhs.range.back)
  (hrb : rhs.range.front < r.back ∧ r.back < rhs.range.back)

lemma unmapMany_across
    (hl : lhs.range.front ≤ r.front ∧ r.front < lhs.range.back)
    (hrb : rhs.range.front < r.back ∧ r.back < rhs.range.back) :
    m.unmapMany it lhs.range rhs.range r = .ok (status, m') ↔
      ∃ status1 m1, m.splitSegment (findAddress range m.table r.front)
          r.front .high = .ok (status1, m1) ∧
        ∃ status2 m2, m1.splitSegment (findAddress range m1.table r.back)
            r.back .low = .ok (status2, m2) ∧
          m2.eraseMany ⟨lhs.range.back, rhs.range.front⟩ = .ok m' ∧ status = .success := by
  have h1 : ¬ (lhs.range.front = r.front ∧ rhs.range.back = r.back) := by omega
  have h2 : ¬ (r.containsRange lhs.range ∧ rhs.range.back = r.back) := by omega
  have h3 : ¬ (r.containsRange rhs.range ∧ lhs.range.front = r.front) := by
    rintro ⟨hc, -⟩
    have := hc.2
    omega
  have h4 : lhs.range.contains r.front ∧ rhs.range.contains r.back :=
    ⟨hl, hrb.1.le, hrb.2⟩
  simp only [unmapMany, if_neg h1, if_neg h2, if_neg h3, if_pos h4, bind_eq_ok, Prod.exists]
  refine exists_congr fun status1 => exists_congr fun m1 => and_congr_right fun _ =>
    exists_congr fun status2 => exists_congr fun m2 => and_congr_right fun _ => ?_
  constructor
  · rintro ⟨m3, h5, h6⟩
    obtain ⟨rfl, rfl⟩ : OsStatus.success = status ∧ m3 = m' := by simpa [pure, Except.pure] using h6
    exact ⟨h5, rfl⟩
  · rintro ⟨h5, rfl⟩
    exact ⟨m', h5, rfl⟩

include ht hm hl hrb

lemma unmapMany_across_takes (h : m.unmapMany it lhs.range rhs.range r = .ok (status, m')) :
    Takes m m' (pre ++ lowPart lhs r.front :: highPart rhs r.back :: post) 2
        (2 + 2 + callsOfAll inner) ∨ lhs ∈ m'.table ∨ rhs ∈ m'.table := by
  have hb := between ht hm.wf
  have hokl := hm.segments lhs (by simp [ht])
  have hokr := hm.segments rhs (by simp [ht])
  obtain ⟨status1, m1, h1, status2, m2, h2, h3, -⟩ :=
    (unmapMany_across ⟨hl.1.le, hl.2⟩ hrb).1 h
  have hm1 := hm.splitSegment h1
  have hm2 := hm1.splitSegment h2
  have hkeeps := (eraseMany_keeps hm2.wf hb.order h3).2
  have hfind : findAddress range m.table r.front = pre.length := by
    rw [ht]
    exact findAddress_eq (ht ▸ hm.wf) hl
  rw [hfind] at h1
  obtain ⟨-, -, t1⟩ | ⟨-, hsame1⟩ := splitSegment_takes ht hm.wf h1
  · have ht1 : m1.table = (pre ++ lowPart lhs r.front :: inner) ++ rhs :: post := by
      rw [t1.table]
      simp [keptPart]
    have hfind2 : findAddress range m1.table r.back =
        (pre ++ lowPart lhs r.front :: inner).length := by
      rw [ht1]
      exact findAddress_eq (ht1 ▸ hm1.wf) hrb
    rw [hfind2] at h2
    obtain ⟨-, -, t2⟩ | ⟨-, hsame2⟩ := splitSegment_takes ht1 hm1.wf h2
    · left
      have ht2 : m2.table =
          (pre ++ [lowPart lhs r.front]) ++ (inner ++ highPart rhs r.back :: post) := by
        rw [t2.table]
        simp [keptPart]
      have t3 := eraseInner_takes hb (hb.cut_le hl.2.le) hb.lt_cut ht2 h3
      rw [callsOf_gonePart hokl hl] at t1
      rw [callsOf_gonePart hokr hrb] at t2
      simpa using (t1.trans t2).trans t3
    · refine .inr (.inr ((hkeeps rhs).2 ⟨?_, .inr hb.right⟩))
      rw [hsame2, ht1]
      simp
  · refine .inr (.inl ((hkeeps lhs).2 ⟨?_, .inl le_rfl⟩))
    refine splitAddress_mem hm1.wf h2 (by simp [hsame1, ht]) fun hc => ?_
    have h1 := hc.2
    have h2 := hb.order
    omega

omit hl in
lemma unmapMany_across_stuck (hl : lhs.range.front = r.front)
    (h : m.unmapMany it lhs.range rhs.range r = .ok (status, m')) : lhs ∈ m'.table := by
  have hb := between ht hm.wf
  have hleft := hb.left
  have hlm : lhs ∈ m.table := by simp [ht]
  have hlc : lhs.range.contains r.front := ⟨hl.le, by omega⟩
  obtain ⟨status1, m1, h1, status2, m2, h2, h3, -⟩ :=
    (unmapMany_across ⟨hl.le, by omega⟩ hrb).1 h
  have hm1 := hm.splitSegment h1
  have hm2 := hm1.splitSegment h2
  obtain ⟨p, u, q, hu, huc, ⟨-, hin, -⟩ | ⟨-, hsame⟩⟩ := splitAddress_takes hm.wf h1
  · obtain rfl := eq_of_contains hm.wf hlm (by simp [hu]) hlc huc
    omega
  · refine ((eraseMany_keeps hm2.wf hb.order h3).2 lhs).2 ⟨?_, .inl le_rfl⟩
    refine splitAddress_mem hm1.wf h2 (by rwa [hsame]) fun hc => ?_
    have h1 := hc.2
    have h2 := hb.order
    omega

lemma unmapMany_across_served (it : Nat) (hg : 2 ≤ granted m.heap)
    (hc : 2 + 2 + callsOfAll inner ≤ m.served) :
    ∃ m', m.unmapMany it lhs.range rhs.range r = .ok (.success, m') ∧
      Takes m m' (pre ++ lowPart lhs r.front :: highPart rhs r.back :: post) 2
        (2 + 2 + callsOfAll inner) := by
  have hb := between ht hm.wf
  have hokl := hm.segments lhs (by simp [ht])
  have hokr := hm.segments rhs (by simp [ht])
  have hfind : findAddress range m.table r.front = pre.length := by
    rw [ht]
    exact findAddress_eq (ht ▸ hm.wf) hl
  obtain ⟨m1, h1⟩ := splitSegment_served ht .high hm.wf hl (by omega)
    (by rw [callsOf_gonePart hokl hl]; omega)
  have hm1 := hm.splitSegment h1
  obtain ⟨-, -, t1⟩ | ⟨hne, -⟩ := splitSegment_takes ht hm.wf h1
  · rw [callsOf_gonePart hokl hl] at t1
    have ht1 : m1.table = (pre ++ lowPart lhs r.front :: inner) ++ rhs :: post := by
      rw [t1.table]
      simp [keptPart]
    have hfind2 : findAddress range m1.table r.back =
        (pre ++ lowPart lhs r.front :: inner).length := by
      rw [ht1]
      exact findAddress_eq (ht1 ▸ hm1.wf) hrb
    have b1 := t1.blocks
    have c1 := t1.calls
    obtain ⟨m2, h2⟩ := splitSegment_served ht1 .low hm1.wf hrb (by omega)
      (by rw [callsOf_gonePart hokr hrb]; omega)
    obtain ⟨-, -, t2⟩ | ⟨hne, -⟩ := splitSegment_takes ht1 hm1.wf h2
    · rw [callsOf_gonePart hokr hrb] at t2
      have c2 := t2.calls
      have ht2 : m2.table =
          (pre ++ [lowPart lhs r.front]) ++ (inner ++ highPart rhs r.back :: post) := by
        rw [t2.table]
        simp [keptPart]
      obtain ⟨m3, h3⟩ := eraseInner_served hb (hb.cut_le hl.2.le) hb.lt_cut ht2 (by omega)
      have t3 := eraseInner_takes hb (hb.cut_le hl.2.le) hb.lt_cut ht2 h3
      refine ⟨m3, (unmapMany_across ⟨hl.1.le, hl.2⟩ hrb).2
        ⟨.success, m1, ?_, .success, m2, ?_, h3, rfl⟩, by simpa using (t1.trans t2).trans t3⟩
      · rw [hfind, h1]
      · rw [hfind2, h2]
    · exact absurd rfl hne
  · exact absurd rfl hne

end Across

/-! ## The first segment cut, the last one whole -/

section Spill

variable (ht : m.table = pre ++ lhs :: (inner ++ rhs :: post)) (hm : Sound m)

lemma unmapMany_spill {it : Nat} (hl : L.front < r.front) (hrb : R.back < r.back)
    (hne : ¬ (L.contains r.front ∧ R.contains r.back)) :
    m.unmapMany it L R r = .ok (status, m') ↔
      ∃ status1 m1, m.splitSegment it r.front .high = .ok (status1, m1) ∧
        ∃ m2, m1.eraseSegment R = .ok m2 ∧
          m2.eraseMany ⟨L.back, R.front⟩ = .ok m' ∧ status = .success := by
  have h1 : ¬ (L.front = r.front ∧ R.back = r.back) := by omega
  have h2 : ¬ (r.containsRange L ∧ R.back = r.back) := by omega
  have h3 : ¬ (r.containsRange R ∧ L.front = r.front) := by omega
  have h5 : r.front > L.front ∧ r.back > R.back := ⟨hl, hrb⟩
  simp only [unmapMany, if_neg h1, if_neg h2, if_neg h3, if_neg hne, if_pos h5, bind_eq_ok,
    Prod.exists]
  refine exists_congr fun status1 => exists_congr fun m1 => and_congr_right fun _ =>
    exists_congr fun m2 => and_congr_right fun _ => ?_
  constructor
  · rintro ⟨m3, h5, h6⟩
    obtain ⟨rfl, rfl⟩ : OsStatus.success = status ∧ m3 = m' := by simpa [pure, Except.pure] using h6
    exact ⟨h5, rfl⟩
  · rintro ⟨h5, rfl⟩
    exact ⟨m', h5, rfl⟩

variable (hl : lhs.range.front < r.front ∧ r.front < lhs.range.back) (hrb : rhs.range.back < r.back)

include ht hm hl hrb

lemma unmapMany_spill_takes
    (h : m.unmapMany pre.length lhs.range rhs.range r = .ok (status, m')) :
    Takes m m' (pre ++ lowPart lhs r.front :: post) 1 (2 + callsOf rhs + callsOfAll inner) ∨
      lhs ∈ m'.table := by
  have hb := between ht hm.wf
  have hokl := hm.segments lhs (by simp [ht])
  have hne : ¬ (lhs.range.contains r.front ∧ rhs.range.contains r.back) := by
    rintro ⟨-, hc⟩
    have := hc.2
    omega
  obtain ⟨status1, m1, h1, m2, h2, h3, -⟩ := (unmapMany_spill hl.1 hrb hne).1 h
  have hm1 := hm.splitSegment h1
  have hm2 := hm1.eraseSegment h2
  have hkeeps := (eraseMany_keeps hm2.wf hb.order h3).2
  obtain ⟨-, -, t1⟩ | ⟨-, hsame⟩ := splitSegment_takes ht hm.wf h1
  · left
    have ht1 : m1.table = (pre ++ lowPart lhs r.front :: inner) ++ rhs :: post := by
      rw [t1.table]
      simp [keptPart]
    rw [eraseSegment_eq ht1 hm1.wf rfl] at h2
    have t2 := eraseSegmentAt_takes ht1 h2
    have ht2 : m2.table = (pre ++ [lowPart lhs r.front]) ++ (inner ++ post) := by
      rw [t2.table]
      simp
    have t3 := eraseInner_takes hb (hb.cut_le hl.2.le) hb.lt_post ht2 h3
    rw [callsOf_gonePart hokl hl] at t1
    simpa using (t1.trans t2).trans t3
  · refine .inr ((hkeeps lhs).2 ⟨?_, .inl le_rfl⟩)
    refine eraseSegment_mem h2 (by simp [hsame, ht]) fun heq => ?_
    have h1 := hb.order
    have h2 := hb.right
    omega

lemma unmapMany_spill_served (hg : 1 ≤ granted m.heap)
    (hc : 2 + callsOf rhs + callsOfAll inner ≤ m.served) :
    ∃ m', m.unmapMany pre.length lhs.range rhs.range r = .ok (.success, m') ∧
      Takes m m' (pre ++ lowPart lhs r.front :: post) 1 (2 + callsOf rhs + callsOfAll inner) := by
  have hb := between ht hm.wf
  have hokl := hm.segments lhs (by simp [ht])
  have hne : ¬ (lhs.range.contains r.front ∧ rhs.range.contains r.back) := by
    rintro ⟨-, hc⟩
    have := hc.2
    omega
  obtain ⟨m1, h1⟩ := splitSegment_served ht .high hm.wf hl (by omega)
    (by rw [callsOf_gonePart hokl hl]; omega)
  have hm1 := hm.splitSegment h1
  obtain ⟨-, -, t1⟩ | ⟨hne', -⟩ := splitSegment_takes ht hm.wf h1
  · rw [callsOf_gonePart hokl hl] at t1
    have c1 := t1.calls
    have ht1 : m1.table = (pre ++ lowPart lhs r.front :: inner) ++ rhs :: post := by
      rw [t1.table]
      simp [keptPart]
    obtain ⟨m2, h2⟩ := eraseSegmentAt_served ht1 (by omega)
    have t2 := eraseSegmentAt_takes ht1 h2
    have c2 := t2.calls
    have ht2 : m2.table = (pre ++ [lowPart lhs r.front]) ++ (inner ++ post) := by
      rw [t2.table]
      simp
    obtain ⟨m3, h3⟩ := eraseInner_served hb (hb.cut_le hl.2.le) hb.lt_post ht2 (by omega)
    have t3 := eraseInner_takes hb (hb.cut_le hl.2.le) hb.lt_post ht2 h3
    refine ⟨m3, (unmapMany_spill hl.1 hrb hne).2 ⟨.success, m1, h1, m2, ?_, h3, rfl⟩,
      by simpa using (t1.trans t2).trans t3⟩
    rw [eraseSegment_eq ht1 hm1.wf rfl, h2]
  · exact absurd rfl hne'

end Spill

end AddressSpaceManager
end BezOS
