import BezOS.System.Retain

/-!
# What a retain does

Every call of `MemoryManager::retain` on a well-formed table ends in one of four ways: the counts
of the range are raised, the pool refuses a block before anything has changed, it refuses one
after some counts have been raised, or a segment that only touches the end of the range makes the
call fail after all counts have been raised.
-/

namespace BezOS
namespace MemoryManager

open Lib MemorySegment

variable {m : MemoryManager} {pre post mid inner : List MemorySegment}
  {s lhs rhs : MemorySegment} {r : AnyRange}

/-! ## How a range lies in a table -/

def startsInside (m : MemoryManager) (r : AnyRange) : Prop :=
  ∃ s ∈ m.table, s.range.front < r.front ∧ r.front < s.range.back
  deriving Decidable

def endsInside (m : MemoryManager) (r : AnyRange) : Prop :=
  ∃ s ∈ m.table, s.range.front < r.back ∧ r.back < s.range.back
  deriving Decidable

def startsInGap (m : MemoryManager) (r : AnyRange) : Prop :=
  ∀ s ∈ m.touched r, r.front < s.range.front
  deriving Decidable

def endsInGap (m : MemoryManager) (r : AnyRange) : Prop :=
  ∀ s ∈ m.touched r, s.range.back < r.back
  deriving Decidable

/-- The blocks an update of the range needs from the heap's pool. -/
def splits (m : MemoryManager) (r : AnyRange) : Nat :=
  (if m.startsInside r then 1 else 0) + (if m.endsInside r then 1 else 0)

section Around

variable (hwf : RangeTable.WellFormed range m.table) (hr : r.front < r.back)

lemma touched_eq (h : RangeTable.Around range m.table r pre mid post) :
    m.touched r = mid := h.filter_meets

include hwf hr

lemma splits_none (h : RangeTable.Around range m.table r pre [] post) :
    m.splits r = 0 := by
  have hmem : ∀ s ∈ m.table, s.range.back ≤ r.front ∨ r.back ≤ s.range.front := by
    intro s hs
    rw [h.eq, List.nil_append, List.mem_append] at hs
    exact hs.imp (h.before s) (h.after s)
  have h1 : ¬ m.startsInside r := by
    rintro ⟨s, hs, hlt⟩
    have := hmem s hs
    omega
  have h2 : ¬ m.endsInside r := by
    rintro ⟨s, hs, hlt⟩
    have := hmem s hs
    omega
  simp [splits, h1, h2]

omit hwf in
lemma splits_one (h : RangeTable.Around range m.table r pre [s] post) :
    m.splits r = splitsOf r s := by
  have hs := h.meets s (by simp)
  have hmem : ∀ u ∈ m.table, u = s ∨ u.range.back ≤ r.front ∨ r.back ≤ u.range.front := by
    intro u hu
    simp only [h.eq, List.mem_append, List.mem_singleton] at hu
    rcases hu with hu | hu | hu
    · exact .inr (.inl (h.before u hu))
    · exact .inl hu
    · exact .inr (.inr (h.after u hu))
  have hmems : s ∈ m.table := by simp [h.eq]
  have h1 : m.startsInside r ↔ s.range.front < r.front := by
    constructor
    · rintro ⟨u, hu, hlt⟩
      rcases hmem u hu with rfl | hu
      · exact hlt.1
      · omega
    · exact fun hlt => ⟨s, hmems, hlt, hs.1⟩
  have h2 : m.endsInside r ↔ r.back < s.range.back := by
    constructor
    · rintro ⟨u, hu, hlt⟩
      rcases hmem u hu with rfl | hu
      · exact hlt.2
      · omega
    · exact fun hlt => ⟨s, hmems, hs.2, hlt⟩
  simp only [splits, splitsOf, h1, h2]

omit hr in
lemma ends_iff
    (h : RangeTable.Around range m.table r pre (lhs :: (inner ++ [rhs])) post) :
    (m.startsInside r ↔ lhs.range.front < r.front) ∧ (m.endsInside r ↔ r.back < rhs.range.back) ∧
      (m.startsInGap r ↔ r.front < lhs.range.front) ∧ (m.endsInGap r ↔ rhs.range.back < r.back) := by
  have hl := h.meets lhs (by simp)
  have hrm := h.meets rhs (by simp)
  have ht : m.table = pre ++ (lhs :: (inner ++ rhs :: post)) := by simp [h.eq]
  have hinner := between ht hwf
  have hord : lhs.range.back ≤ rhs.range.front := (lhs_le_rhs ht hwf).1
  have hmem : ∀ u ∈ m.table, u = lhs ∨ u = rhs ∨ (r.front < u.range.front ∧ u.range.back < r.back)
      ∨ u.range.back ≤ r.front ∨ r.back ≤ u.range.front := by
    intro u hu
    simp only [ht, List.mem_append, List.mem_cons] at hu
    rcases hu with hu | hu | hu | hu | hu
    · exact .inr (.inr (.inr (.inl (h.before u hu))))
    · exact .inl hu
    · have := hinner u hu
      exact .inr (.inr (.inl (by omega)))
    · exact .inr (.inl hu)
    · exact .inr (.inr (.inr (.inr (h.after u hu))))
  refine ⟨⟨?_, fun hlt => ⟨lhs, by simp [ht], hlt, hl.1⟩⟩,
    ⟨?_, fun hlt => ⟨rhs, by simp [ht], hrm.2, hlt⟩⟩, ?_, ?_⟩
  · rintro ⟨u, hu, hlt⟩
    rcases hmem u hu with rfl | rfl | hu | hu <;> omega
  · rintro ⟨u, hu, hlt⟩
    rcases hmem u hu with rfl | rfl | hu | hu <;> omega
  · simp only [startsInGap, touched_eq h]
    constructor
    · exact fun hall => hall lhs (by simp)
    · intro hlt u hu
      simp only [List.mem_cons, List.mem_append, List.not_mem_nil, or_false] at hu
      rcases hu with rfl | hu | rfl
      · exact hlt
      · have := hinner u hu
        omega
      · omega
  · simp only [endsInGap, touched_eq h]
    constructor
    · exact fun hall => hall rhs (by simp)
    · intro hlt u hu
      simp only [List.mem_cons, List.mem_append, List.not_mem_nil, or_false] at hu
      rcases hu with rfl | hu | rfl
      · omega
      · have := hinner u hu
        omega
      · exact hlt

end Around

/-! ## The loop over several segments -/

section Loop

variable {q : AnyRange} {n : Nat}

lemma retainLoop_flush {d : List MemorySegment} (ht : m.table = d ++ (s :: post))
    (hwf : RangeTable.WellFormed range m.table) (hs : s.range.back = r.back)
    (hfuel : 0 < n) :
    retainLoop r n m q (d.length + 1) (m.endOf r.back) = .ok (.success, m) := by
  have hlower : m.lower r.back = d.length := by
    have hat := (ht ▸ hwf).at_cons
    refine lower_eq ht (fun a ha => ?_) fun a ha => ?_
    · have := hat.2.1 a ha
      omega
    · rcases List.mem_cons.1 ha with rfl | ha
      · exact hs.ge
      · have := hat.2.2 a ha
        omega
  have hend : m.endOf r.back = d.length + 1 := by
    simp [endOf, hlower, ht]
  rw [hend]
  exact retainLoop_end hfuel

lemma retainLoop_gap {d : List MemorySegment} (ht : m.table = d ++ post)
    (hwf : RangeTable.WellFormed range m.table) (hr : r.front < r.back)
    (hdone : ∀ a ∈ d, a.range.back < r.back) (hpost : ∀ a ∈ post, r.back ≤ a.range.front)
    (hfuel : 0 < n) :
    retainLoop r n m q d.length (m.endOf r.back) =
      .ok (if ∃ p ∈ post, p.range.front = r.back then .invalidInput else .success, m) := by
  have hlower : m.lower r.back = d.length := by
    refine lower_eq ht hdone fun a ha => ?_
    have h1 := hpost a ha
    have h2 := hwf.nonempty a (by simp [ht, ha])
    omega
  cases post with
  | nil =>
    have hend : m.endOf r.back = d.length := by simp [endOf, hlower, ht]
    simp [hend, retainLoop_end hfuel]
  | cons p post =>
    have hend : m.endOf r.back = d.length + 1 := by simp [endOf, hlower, ht]
    have hat := (ht ▸ hwf).at_cons
    have hit : d.length ≠ m.endOf r.back := by omega
    by_cases hp : p.range.front = r.back
    · rw [if_pos ⟨p, by simp, hp⟩]
      exact retainLoop_adjacent ht hfuel hp hr hat.1 hit
    · have hlt : r.back < p.range.front := lt_of_le_of_ne (hpost p (by simp)) (Ne.symm hp)
      rw [if_neg, retainLoop_beyond ht hfuel hlt hr hat.1 hit]
      rintro ⟨q, hq, hqf⟩
      rcases List.mem_cons.1 hq with rfl | hq
      · exact hp hqf
      · have := hat.2.2 q hq
        omega

lemma retainLoop_done {d : List MemorySegment} (ht : m.table = d ++ (s :: post))
    (hwf : RangeTable.WellFormed range m.table) (hr : r.front < r.back)
    (hs : s.range.back ≤ r.back) (hpost : ∀ a ∈ post, r.back ≤ a.range.front)
    {c : Prop} [Decidable c] (hc : c ↔ s.range.back < r.back ∧ ∃ p ∈ post, p.range.front = r.back)
    (hfuel : 0 < n) :
    retainLoop r n m q (d.length + 1) (m.endOf r.back) =
      .ok (if c then .invalidInput else .success, m) := by
  by_cases hlt : s.range.back < r.back
  · have ht' : m.table = (d ++ [s]) ++ post := by simp [ht]
    have hdone : ∀ a ∈ d ++ [s], a.range.back < r.back := by
      have hat := (ht ▸ hwf).at_cons
      intro a ha
      rcases List.mem_append.1 ha with ha | ha
      · have := hat.2.1 a ha
        omega
      · rwa [List.mem_singleton.1 ha]
    have hgap := retainLoop_gap (q := q) ht' hwf hr hdone hpost hfuel
    have hc' : c ↔ ∃ p ∈ post, p.range.front = r.back := by simp [hc, hlt]
    rw [if_congr hc' rfl rfl]
    simpa using hgap
  · have hback : s.range.back = r.back := by omega
    simpa [hc, hlt] using retainLoop_flush ht hwf hback hfuel

lemma retainLoop_inside {e : Nat} (ht : m.table = pre ++ (lhs :: mid ++ post))
    (hwf : RangeTable.WellFormed range m.table)
    (hin : ∀ s ∈ lhs :: mid, r.containsRange s.range) (hit : pre.length ≠ e) :
    ∃ q', retainLoop r (n + (lhs :: mid).length) m q pre.length e =
      retainLoop r n ⟨pre ++ ((lhs :: mid).map retained ++ post), m.heap⟩ q'
        (pre.length + (lhs :: mid).length) (m.endOf r.back) := by
  have ht' : m.table = pre ++ lhs :: (mid ++ post) := by simpa using ht
  have hne : lhs.range.front < lhs.range.back := hwf.nonempty lhs (by simp [ht])
  have hlt := lt_endOf ht' hwf (lt_of_lt_of_le hne (hin lhs (by simp)).2)
  obtain ⟨q', hrest⟩ := retainLoop_contained (lhs :: mid) (q := q) ht hwf hin
  refine ⟨q', ?_⟩
  rw [← hrest, List.length_cons, ← Nat.add_assoc,
    retainLoop_step ht' hwf hit (hin lhs (by simp)),
    retainLoop_step ht' hwf hlt.ne (hin lhs (by simp))]

end Loop

/-! ## The whole call -/

/-- The range meets several segments, ends above them, and the next segment starts right there. -/
def touchesNext (m : MemoryManager) (r : AnyRange) : Prop :=
  2 ≤ (m.touched r).length ∧ m.endsInGap r ∧ ∃ s ∈ m.table, s.range.front = r.back
  deriving Decidable

section Call

variable (hwf : RangeTable.WellFormed range m.table) (hr : r.front < r.back)

include hwf hr

lemma retain_none (h : RangeTable.Around range m.table r pre [] post) :
    m.retain r = .ok (.notFound, m) := by
  simp [retain, h.find_nil hwf hr]

lemma retain_one (h : RangeTable.Around range m.table r pre [s] post) :
    m.retain r = m.retainOne pre.length r := by
  have hfind := RangeTable.Around.find_concat hwf hr (show RangeTable.Around range
    m.table r pre ([] ++ [s]) post from h)
  have hne : pre.length ≠ m.table.length := by
    simp [h.eq]
  simp [retain, hfind, hne]

section Several

variable (h : RangeTable.Around range m.table r pre (lhs :: (inner ++ [rhs])) post)

include h

lemma retain_several :
    m.retain r =
      if lhs.range.front ≤ r.front ∧ r.back ≤ rhs.range.back then m.retainEnds lhs rhs r
      else retainLoop r m.loopBound m r pre.length (pre.length + inner.length + 2) := by
  have hfind := RangeTable.Around.find_concat hwf hr (show RangeTable.Around range
    m.table r pre ((lhs :: inner) ++ [rhs]) post from h)
  have ht : m.table = pre ++ (lhs :: (inner ++ rhs :: post)) := by simp [h.eq]
  have hlen : m.table.length = pre.length + inner.length + 2 + post.length := by
    simp [ht]
    omega
  have hgetl : m.table[pre.length]? = some lhs := get_eq ht
  have hgetr : m.table[pre.length + (lhs :: inner).length]? = some rhs := by
    have ht' : m.table = (pre ++ lhs :: inner) ++ rhs :: post := by simp [ht]
    rw [← List.length_append]
    exact get_eq ht'
  have hl := h.meets lhs (by simp)
  have hrm := h.meets rhs (by simp)
  have hcond : ((lhs.range.contains r.front ∨ lhs.range.front = r.front) ∧
      (rhs.range.contains r.back ∨ rhs.range.back = r.back)) ↔
      (lhs.range.front ≤ r.front ∧ r.back ≤ rhs.range.back) := by
    simp only [AnyRange.contains]
    omega
  have h1 : pre.length ≠ m.table.length := by omega
  have h2 : pre.length ≠ pre.length + (lhs :: inner).length := by simp
  have h3 : ¬ (pre.length + (lhs :: inner).length + 1 = m.table.length ∧
      lhs.range.back = r.front) := by omega
  simp only [retain, hfind, if_neg h1, if_neg h2, hgetl, hgetr, hcond, retainRest, if_neg h3]
  rfl

lemma exists_touchesNext_iff :
    (m.touchesNext r ↔ rhs.range.back < r.back ∧ ∃ p ∈ post, p.range.front = r.back) := by
  have hgap := (ends_iff hwf h).2.2.2
  have hlen : 2 ≤ (m.touched r).length := by simp [touched_eq h]
  have hmem : (∃ s ∈ m.table, s.range.front = r.back) ↔ ∃ p ∈ post, p.range.front = r.back := by
    constructor
    · rintro ⟨u, hu, hf⟩
      have hne := hwf.nonempty u hu
      rw [h.eq, List.mem_append, List.mem_append] at hu
      rcases hu with hu | hu | hu
      · have := h.before u hu
        omega
      · have := h.meets u hu
        omega
      · exact ⟨u, hu, hf⟩
    · rintro ⟨u, hu, hf⟩
      exact ⟨u, by simp [h.eq, hu], hf⟩
  simp [touchesNext, hgap, hmem, hlen]

lemma retainLoop_whole (hl : r.front ≤ lhs.range.front) (hb : rhs.range.back ≤ r.back) :
    retainLoop r m.loopBound m r pre.length (pre.length + inner.length + 2) =
      .ok (if m.touchesNext r then .invalidInput else .success,
        ⟨pre ++ ((lhs :: (inner ++ [rhs])).flatMap (retainPieces r) ++ post), m.heap⟩) := by
  have ht : m.table = pre ++ ((lhs :: (inner ++ [rhs])) ++ post) := h.eq
  have ht' : m.table = pre ++ (lhs :: (inner ++ rhs :: post)) := by simp [ht]
  have hin : ∀ u ∈ lhs :: (inner ++ [rhs]), r.containsRange u.range := by
    have hinner := between ht' hwf
    have hord := lhs_le_rhs ht' hwf
    have hnel := hwf.nonempty lhs (by simp [ht])
    intro u hu
    simp only [List.mem_cons, List.mem_append, List.not_mem_nil, or_false] at hu
    rcases hu with rfl | hu | rfl
    · exact ⟨hl, by omega⟩
    · have := hinner u hu
      exact ⟨by omega, by omega⟩
    · exact ⟨by omega, hb⟩
  have hfuel : m.loopBound = (m.loopBound - (lhs :: (inner ++ [rhs])).length) +
      (lhs :: (inner ++ [rhs])).length := by
    simp [loopBound, ht]
    omega
  obtain ⟨q', hloop⟩ := retainLoop_inside (e := pre.length + inner.length + 2)
    ht hwf hin (by omega)
  have hpos : 0 < m.loopBound - (lhs :: (inner ++ [rhs])).length := by
    simp [loopBound, ht]
    omega
  rw [hfuel, hloop, flatMap_retainPieces_of_contained hin]
  -- after the last segment only the end of the range is left to look at
  have hnext := exists_touchesNext_iff hwf hr h
  let m' : MemoryManager :=
    ⟨pre ++ ((lhs :: (inner ++ [rhs])).map retained ++ post), m.heap⟩
  have hranges : m.table.map range = m'.table.map range := by
    simp [m', ht]
  have hdone := retainLoop_done (s := rhs.retained)
    (d := pre ++ (lhs :: inner).map retained) (q := q') (by simp [m'])
    (hwf.of_map_eq hranges) hr hb h.after hnext hpos
  rw [endOf_congr hranges]
  have hlen : pre.length + (lhs :: (inner ++ [rhs])).length =
      (pre ++ (lhs :: inner).map retained).length + 1 := by
    simp
    omega
  rw [hlen, hdone]

lemma retainLoop_fromInside (hl : lhs.range.front < r.front) (hb : rhs.range.back < r.back) :
    (0 < granted m.heap →
      ∃ h', retainLoop r m.loopBound m r pre.length (pre.length + inner.length + 2) =
        .ok (if m.touchesNext r then .invalidInput else .success,
          ⟨pre ++ ((lhs :: (inner ++ [rhs])).flatMap (retainPieces r) ++ post), h'⟩)) ∧
    (granted m.heap = 0 →
      ∃ h', retainLoop r m.loopBound m r pre.length (pre.length + inner.length + 2) =
        .ok (.outOfMemory, ⟨m.table, h'⟩)) := by
  have ht : m.table = pre ++ (lhs :: (inner ++ rhs :: post)) := by simp [h.eq]
  have hinner := between ht hwf
  have hord := lhs_le_rhs ht hwf
  have hlm := h.meets lhs (by simp)
  have hfuel : m.loopBound =
      ((m.loopBound - (inner ++ [rhs]).length - 1) + (inner ++ [rhs]).length) + 1 := by
    simp [loopBound, ht]
    omega
  have hpos : 0 < m.loopBound - (inner ++ [rhs]).length - 1 := by
    simp [loopBound, ht]
    omega
  have hit : pre.length ≠ pre.length + inner.length + 2 := by omega
  constructor
  · intro hg
    obtain ⟨h', hres, -, -⟩ := retainSegment_granted ht hwf ⟨hl, hlm.1⟩ hg .high
    refine ⟨h', ?_⟩
    rw [hfuel, retainLoop_front ht hit ⟨hl, hlm.1, by omega⟩ hres (.inl rfl), if_pos rfl,
      ← retainPieces_high hl (by omega)]
    -- the loop goes on behind the two parts of the first segment
    obtain ⟨hwfL, hinL⟩ := wellFormed_retainPieces hlm hr (hwf.nonempty lhs (by simp [ht]))
    let m' : MemoryManager := ⟨pre ++ (retainPieces r lhs ++ (inner ++ rhs :: post)), h'⟩
    have ht' : m'.table = (pre ++ retainPieces r lhs) ++ ((inner ++ [rhs]) ++ post) := by simp [m']
    have hwf' : RangeTable.WellFormed range m'.table := (ht ▸ hwf).replace hwfL hinL
    have hin : ∀ u ∈ inner ++ [rhs], r.containsRange u.range := by
      intro u hu
      rcases List.mem_append.1 hu with hu | hu
      · have := hinner u hu
        exact ⟨by omega, by omega⟩
      · rw [List.mem_singleton.1 hu]
        exact ⟨by omega, hb.le⟩
    have hlower : m'.lower lhs.range.back + 1 = (pre ++ retainPieces r lhs).length := by
      have hat := (ht ▸ hwf).at_cons
      have hparts := retainPieces_high hl (by omega)
      have hcut : m'.table = (pre ++ [⟨lhs.owners, ⟨lhs.range.front, r.front⟩⟩]) ++
          ⟨lhs.owners + 1, ⟨r.front, lhs.range.back⟩⟩ :: (inner ++ rhs :: post) := by
        simp [m', hparts, retainParts]
      have hlow := lower_eq (k := lhs.range.back) hcut (fun a ha => ?_) (fun a ha => ?_)
      · simp [hlow, hparts, retainParts]
      · rcases List.mem_append.1 ha with ha | ha
        · have := hat.2.1 a ha
          omega
        · rw [List.mem_singleton.1 ha]
          exact hlm.1
      · rcases List.mem_cons.1 ha with rfl | ha
        · exact le_refl _
        · have := hat.2.2 a ha
          omega
    obtain ⟨q', hloop⟩ := retainLoop_contained (inner ++ [rhs])
      (q := ⟨lhs.range.back, r.back⟩)
      ht' hwf' hin
    have hnext := exists_touchesNext_iff hwf hr h
    let m'' : MemoryManager := ⟨(pre ++ retainPieces r lhs) ++
      ((inner ++ [rhs]).map retained ++ post), h'⟩
    have hranges : m'.table.map range = m''.table.map range := by
      simp [m', m'']
    have hdone := retainLoop_done (s := rhs.retained)
      (d := (pre ++ retainPieces r lhs) ++ inner.map retained) (q := q')
      (by simp [m'']) (hwf'.of_map_eq hranges) hr hb.le h.after hnext hpos
    have hlen : (pre ++ retainPieces r lhs).length + (inner ++ [rhs]).length =
        ((pre ++ retainPieces r lhs) ++ inner.map retained).length + 1 := by
      simp
      omega
    have hflat : (inner ++ [rhs]).flatMap (retainPieces r) =
        (inner ++ [rhs]).map retained := flatMap_retainPieces_of_contained hin
    rw [hlower, hloop, hlen, endOf_congr hranges, hdone, List.flatMap_cons, hflat]
    simp [m'']
  · intro hg
    obtain ⟨h', hres, -⟩ := retainSegment_refused ht ⟨hl, hlm.1⟩ hg .high
    refine ⟨h', ?_⟩
    rw [hfuel, retainLoop_front ht hit ⟨hl, hlm.1, by omega⟩ hres (.inr rfl)]
    rfl

omit hr in
lemma retainLoop_toInside (hl : r.front ≤ lhs.range.front) (hb : r.back < rhs.range.back) :
    (0 < granted m.heap →
      ∃ h', retainLoop r m.loopBound m r pre.length (pre.length + inner.length + 2) =
        .ok (.success,
          ⟨pre ++ ((lhs :: (inner ++ [rhs])).flatMap (retainPieces r) ++ post), h'⟩)) ∧
    (granted m.heap = 0 →
      ∃ h', retainLoop r m.loopBound m r pre.length (pre.length + inner.length + 2) =
        .ok (.outOfMemory,
          ⟨pre ++ ((lhs :: inner).map retained ++ rhs :: post), h'⟩)) := by
  have ht : m.table = pre ++ (lhs :: inner ++ rhs :: post) := by simp [h.eq]
  have ht' : m.table = pre ++ (lhs :: (inner ++ rhs :: post)) := by simp [h.eq]
  have hinner := between ht' hwf
  have hord := lhs_le_rhs ht' hwf
  have hlm := h.meets lhs (by simp)
  have hrm := h.meets rhs (by simp)
  have hin : ∀ u ∈ lhs :: inner, r.containsRange u.range := by
    intro u hu
    rcases List.mem_cons.1 hu with rfl | hu
    · exact ⟨hl, by omega⟩
    · have := hinner u hu
      exact ⟨by omega, by omega⟩
  have hfuel : m.loopBound =
      (m.loopBound - (lhs :: inner).length) + (lhs :: inner).length := by
    simp [loopBound, ht]
    omega
  have hpos : 0 < m.loopBound - (lhs :: inner).length := by
    simp [loopBound, ht]
    omega
  obtain ⟨q', hloop⟩ := retainLoop_inside (e := pre.length + inner.length + 2)
    ht hwf hin (by omega)
  -- only the last segment is left, and the loop has not come to its end
  let m' : MemoryManager :=
    ⟨pre ++ ((lhs :: inner).map retained ++ rhs :: post), m.heap⟩
  have hranges : m.table.map range = m'.table.map range := by
    simp [m', ht]
  have hwf' := hwf.of_map_eq hranges
  have hm' : m'.table = (pre ++ (lhs :: inner).map retained) ++ rhs :: post := by
    simp [m']
  have hlen : pre.length + (lhs :: inner).length =
      (pre ++ (lhs :: inner).map retained).length := by simp
  have hit := (lt_endOf hm' hwf' hrm.2).ne
  have hcross : r.front < rhs.range.front ∧ rhs.range.front < r.back ∧ r.back < rhs.range.back := by
    omega
  rw [hfuel, hloop, hlen, endOf_congr hranges]
  constructor
  · intro hg
    obtain ⟨h', hres, -, -⟩ := retainSegment_granted hm' hwf' ⟨hrm.2, hb⟩ hg .low
    refine ⟨h', ?_⟩
    rw [retainLoop_crossing hm' hpos hit hcross hres (.inl rfl)]
    have hflat : (lhs :: inner).flatMap (retainPieces r) =
        (lhs :: inner).map retained := flatMap_retainPieces_of_contained hin
    have hsplit : lhs :: (inner ++ [rhs]) = (lhs :: inner) ++ [rhs] := by simp
    rw [hsplit, List.flatMap_append, hflat, ← retainPieces_low (by omega) hb]
    simp
  · intro hg
    obtain ⟨h', hres, -⟩ := retainSegment_refused hm' ⟨hrm.2, hb⟩ hg .low
    exact ⟨h', retainLoop_crossing hm' hpos hit hcross hres (.inr rfl)⟩

end Several

/-! ### The four outcomes -/

section Outcome

variable (h : RangeTable.Around range m.table r pre mid post)

include h

lemma retain_granted (hmid : mid ≠ []) (hg : m.splits r ≤ granted m.heap) :
    ∃ h', m.retain r = .ok (if m.touchesNext r then .invalidInput else .success,
      ⟨pre ++ (mid.flatMap (retainPieces r) ++ post), h'⟩) := by
  rcases ends_cases mid with rfl | ⟨s, rfl⟩ | ⟨lhs, inner, rhs, rfl⟩
  · exact absurd rfl hmid
  · have hno : ¬ m.touchesNext r := by simp [touchesNext, touched_eq h]
    rw [splits_one hr h] at hg
    obtain ⟨h', hres, -⟩ := retainOne_granted (by simpa using h.eq) hwf hr (h.meets s (by simp)) hg
    refine ⟨h', ?_⟩
    rw [retain_one hwf hr h, hres, if_neg hno]
    simp
  · have ht : m.table = pre ++ (lhs :: (inner ++ rhs :: post)) := by simp [h.eq]
    obtain ⟨hsi, hei, -, -⟩ := ends_iff hwf h
    have hlm := h.meets lhs (by simp)
    have hrm := h.meets rhs (by simp)
    rw [retain_several hwf hr h]
    simp only [splits, hsi, hei] at hg
    by_cases hl : lhs.range.front ≤ r.front <;> by_cases hb : r.back ≤ rhs.range.back
    · have hno : ¬ m.touchesNext r := by
        rw [exists_touchesNext_iff hwf hr h]
        omega
      have hord := lhs_le_rhs ht hwf
      have hsp : splitsOf r lhs + splitsOf r rhs ≤ granted m.heap := by
        have h1 : ¬ r.back < lhs.range.back := by omega
        have h2 : ¬ rhs.range.front < r.front := by omega
        simpa [splitsOf, h1, h2] using hg
      obtain ⟨h', hres, -⟩ := retainEnds_granted ht hwf ⟨hl, hlm.1⟩ ⟨hrm.2, hb⟩ hsp
      exact ⟨h', by rw [if_pos ⟨hl, hb⟩, hres, if_neg hno]⟩
    · rw [if_neg (by omega)]
      by_cases heq : lhs.range.front = r.front
      · exact ⟨m.heap, retainLoop_whole hwf hr h (by omega) (by omega)⟩
      · have hlt : lhs.range.front < r.front := by omega
        rw [if_pos hlt] at hg
        exact (retainLoop_fromInside hwf hr h hlt (by omega)).1 (by omega)
    · rw [if_neg (by omega)]
      by_cases heq : rhs.range.back = r.back
      · exact ⟨m.heap, retainLoop_whole hwf hr h (by omega) (by omega)⟩
      · have hlt : r.back < rhs.range.back := by omega
        have hno : ¬ m.touchesNext r := by
          rw [exists_touchesNext_iff hwf hr h]
          omega
        rw [if_pos hlt] at hg
        rw [if_neg hno]
        exact (retainLoop_toInside hwf h (by omega) hlt).1 (by omega)
    · rw [if_neg (by omega)]
      exact ⟨m.heap, retainLoop_whole hwf hr h (by omega) (by omega)⟩

lemma retain_refused (hg : granted m.heap < m.splits r)
    (hgap : ¬ (2 ≤ mid.length ∧ m.startsInGap r)) :
    ∃ h', m.retain r = .ok (.outOfMemory, ⟨m.table, h'⟩) := by
  rcases ends_cases mid with rfl | ⟨s, rfl⟩ | ⟨lhs, inner, rhs, rfl⟩
  · rw [splits_none hwf hr h] at hg
    omega
  · rw [splits_one hr h] at hg
    obtain ⟨h', hres, -⟩ := retainOne_refused (by simpa using h.eq) hr (h.meets s (by simp)) hg
    exact ⟨h', by rw [retain_one hwf hr h, hres]⟩
  · have ht : m.table = pre ++ (lhs :: (inner ++ rhs :: post)) := by simp [h.eq]
    obtain ⟨hsi, hei, hsg, -⟩ := ends_iff hwf h
    have hlm := h.meets lhs (by simp)
    have hrm := h.meets rhs (by simp)
    have hl : lhs.range.front ≤ r.front := by
      rw [hsg] at hgap
      simp at hgap
      exact hgap
    rw [retain_several hwf hr h]
    simp only [splits, hsi, hei] at hg
    by_cases hb : r.back ≤ rhs.range.back
    · have hord := lhs_le_rhs ht hwf
      have hsp : granted m.heap < splitsOf r lhs + splitsOf r rhs := by
        have h1 : ¬ r.back < lhs.range.back := by omega
        have h2 : ¬ rhs.range.front < r.front := by omega
        simpa [splitsOf, h1, h2] using hg
      obtain ⟨h', hres, -⟩ := retainEnds_refused ht hwf ⟨hl, hlm.1⟩ ⟨hrm.2, hb⟩ hsp
      exact ⟨h', by rw [if_pos ⟨hl, hb⟩, hres]⟩
    · have hnb : ¬ r.back < rhs.range.back := by omega
      rw [if_neg hnb] at hg
      have hlt : lhs.range.front < r.front := by
        by_contra hno
        rw [if_neg hno] at hg
        omega
      rw [if_pos hlt] at hg
      rw [if_neg (by omega)]
      exact (retainLoop_fromInside hwf hr h hlt (by omega)).2 (by omega)

lemma retain_late (hg : granted m.heap < m.splits r)
    (hgap : 2 ≤ mid.length ∧ m.startsInGap r) :
    ∃ h' init last, mid = init ++ [last] ∧ init ≠ [] ∧ m.retain r =
      .ok (.outOfMemory, ⟨pre ++ (init.map retained ++ last :: post), h'⟩) := by
  rcases ends_cases mid with rfl | ⟨s, rfl⟩ | ⟨lhs, inner, rhs, rfl⟩
  · simp at hgap
  · simp at hgap
  · obtain ⟨hsi, hei, hsg, -⟩ := ends_iff hwf h
    have hl : r.front < lhs.range.front := hsg.1 hgap.2
    have hno : ¬ lhs.range.front < r.front := by omega
    simp only [splits, hsi, hei, if_neg hno] at hg
    have hlt : r.back < rhs.range.back := by
      by_contra hno'
      rw [if_neg hno'] at hg
      omega
    rw [if_pos hlt] at hg
    obtain ⟨h', hres⟩ := (retainLoop_toInside hwf h hl.le hlt).2 (by omega)
    refine ⟨h', lhs :: inner, rhs, by simp, by simp, ?_⟩
    rw [retain_several hwf hr h, if_neg (by omega), hres]

end Outcome

end Call

end MemoryManager
end BezOS
