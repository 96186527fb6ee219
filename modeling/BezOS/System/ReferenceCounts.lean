import BezOS.System.Tracking

/-!
# Reference counts of physical memory

The memory manager as a transition system, and what its two reference-count calls do in every
reachable state. `retain` is an exact increment and `release` an exact decrement on part of
their inputs only; both parts are given in terms of the table and the range alone.
-/

namespace BezOS
namespace MemoryManager

open Lib List Option

variable {m m' : MemoryManager} {others : List AnyRange} {pre post mid t : List MemorySegment}
  {s : MemorySegment} {r : AnyRange} {a : Nat} {label : Call × OsStatus}

/-! ## The system -/

inductive Call
  | allocate (block : Option AnyRange)
  | retain (range : AnyRange)
  | release (range : AnyRange)
  /-- The other clients of the page heap. -/
  | others
  deriving DecidableEq

/-- One call and the status it returns; a call that ends in a fault has no successor. -/
inductive Step : MemoryManager → Call × OsStatus → MemoryManager → Prop
  | allocate {m : MemoryManager} (block : Option AnyRange)
      (hnew : ∀ r ∈ block, r.front < r.back ∧ ∀ u ∈ m.heap.used, ¬ AnyRange.Meets r u) :
      Step m (.allocate block, (m.allocate block).1) (m.allocate block).2
  | retain {m m' : MemoryManager} {r : AnyRange} {st : OsStatus} (hr : r.front < r.back)
      (h : m.retain r = .ok (st, m')) : Step m (.retain r, st) m'
  | release {m m' : MemoryManager} {r : AnyRange} {st : OsStatus} (hr : r.front < r.back)
      (h : m.release r = .ok (st, m')) : Step m (.release r, st) m'
  | others {m : MemoryManager} {h : HeapView} {others : List AnyRange}
      (htracks : Tracks others ⟨m.table, h⟩) : Step m (.others, .success) ⟨m.table, h⟩

def Reachable (m : MemoryManager) : Prop := Lib.Reachable Step (fun m => m.table = []) m

lemma tracks_of_empty (h : m.table = []) : Tracks m.heap.used m := by
  refine ⟨?_, ?_, ?_⟩
  · rw [h]
    exact .nil
  · simp [h]
  · simp [h]

lemma Step.tracks (hstep : Step m label m') (hm : ∃ others, Tracks others m) :
    ∃ others, Tracks others m' := by
  obtain ⟨others, hm⟩ := hm
  cases hstep with
  | allocate block hnew =>
    cases block with
    | none => exact ⟨others, hm⟩
    | some r =>
      obtain ⟨hr, hdis⟩ := hnew r rfl
      exact ⟨others, (allocate_tracks hm hr hdis).1⟩
  | retain hr h => exact ⟨others, retain_tracks hm hr h⟩
  | release hr h => exact ⟨others, release_tracks hm hr h⟩
  | others h => exact ⟨_, h⟩

lemma Reachable.tracks (hm : Reachable m) : ∃ others, Tracks others m :=
  hm.induction (fun m h => ⟨m.heap.used, tracks_of_empty h⟩) fun _ _ _ hs hstep => hstep.tracks hs

lemma Reachable.step (hm : Reachable m) (h : Step m label m') :
    Reachable m' := by
  obtain ⟨s, as, hs, hrun⟩ := hm
  exact ⟨s, as ++ [label], hs, hrun.append (.single h)⟩

/-! ## Owner counts and segments -/

lemma ownersAt_of_mem (hwf : RangeTable.WellFormed MemorySegment.range t) (hs : s ∈ t)
    (ha : s.range.contains a) :
    ownersAt t a = some s.owners.toNat :=
  RangeTable.valueAt_of_mem hwf hs ha

lemma exists_of_ownersAt {n : Nat} (h : ownersAt t a = some n) :
    ∃ s ∈ t, s.range.contains a ∧ n = s.owners.toNat :=
  RangeTable.exists_of_valueAt h

lemma mem_touched : s ∈ m.touched r ↔ s ∈ m.table ∧ AnyRange.Meets r s.range := by
  rw [touched, mem_filter, decide_eq_true_eq]

lemma mem_touched_of_contains (hs : s ∈ m.table) (hsa : s.range.contains a)
    (hra : r.contains a) : s ∈ m.touched r := by
  rw [mem_touched]
  refine ⟨hs, ?_⟩
  simp only [AnyRange.contains, AnyRange.Meets] at *
  omega

lemma exists_shared (hwf : RangeTable.WellFormed MemorySegment.range m.table)
    (hr : r.front < r.back) (hs : s ∈ m.touched r) :
    ∃ a, r.contains a ∧ s.range.contains a := by
  rw [mem_touched] at hs
  exact (AnyRange.meets_iff_exists hr (hwf.nonempty s hs.1)).1 hs.2

/-! ## Retain -/

/-- The call returns; on success it raised the count of every address of the range that has one
and of no other, and on an error it changed neither a count nor a segment's range. -/
def RetainExact (m : MemoryManager) (r : AnyRange) : Prop :=
  ∃ st m', m.retain r = .ok (st, m') ∧
    (st = .success → ∀ a, ownersAt m'.table a =
      if r.contains a then (ownersAt m.table a).map (· + 1) else ownersAt m.table a) ∧
    (st ≠ .success → (∀ a, ownersAt m'.table a = ownersAt m.table a) ∧
      m'.table.map MemorySegment.range = m.table.map MemorySegment.range)

/-- The inputs on which `retain` is exact: it meets nothing; or the pool refuses a block before
anything changed; or the blocks are granted, no count is at its maximum, and no segment starts
right where a range that meets several segments ends in a gap. -/
def RetainSafe (m : MemoryManager) (r : AnyRange) : Prop :=
  m.touched r = [] ∨
  (granted m.heap < m.splits r ∧ ¬ (2 ≤ (m.touched r).length ∧ m.startsInGap r)) ∨
  (m.splits r ≤ granted m.heap ∧ (∀ s ∈ m.touched r, s.owners ≠ 255) ∧ ¬ m.touchesNext r)
  deriving Decidable

lemma ownersAt_retained (hwf : RangeTable.WellFormed MemorySegment.range m.table)
    (h : RangeTable.Around MemorySegment.range m.table r pre mid post) (a : Nat) :
    ownersAt (pre ++ (mid.flatMap (retainPieces r) ++ post)) a =
      updateAt (fun n => some ((n + 1) % 256)) r m.table a :=
  ownersAt_replace hwf h (fun s hs a => ownersAt_retainPieces (h.meets s hs) a) a

lemma retained_toNat_ne (n : UInt8) : (n + 1).toNat ≠ n.toNat := by
  simp only [UInt8.toNat_add, UInt8.toNat_one]
  omega

lemma not_retainExact_of_changed {st : OsStatus} (hres : m.retain r = .ok (st, m'))
    (hst : st ≠ .success) (hne : ownersAt m'.table a ≠ ownersAt m.table a) : ¬ RetainExact m r := by
  rintro ⟨st', m'', hres', -, herr⟩
  obtain ⟨rfl, rfl⟩ := eq_of_ok_eq (hres.symm.trans hres')
  exact hne ((herr hst).1 a)

section RetainIff

variable (hwf : RangeTable.WellFormed MemorySegment.range m.table) (hr : r.front < r.back)
  (h : RangeTable.Around MemorySegment.range m.table r pre mid post)

include hwf hr h

lemma retainExact_of_granted (hmid : mid ≠ []) (hg : m.splits r ≤ granted m.heap) :
    RetainExact m r ↔ (∀ s ∈ m.touched r, s.owners ≠ 255) ∧ ¬ m.touchesNext r := by
  obtain ⟨h', hres⟩ := retain_granted hwf hr h hmid hg
  have hcounts := ownersAt_retained hwf h
  obtain ⟨u, hu⟩ := exists_mem_of_ne_nil mid hmid
  have hut : u ∈ m.touched r := by rwa [touched_eq h]
  by_cases hnext : m.touchesNext r
  · rw [if_pos hnext] at hres
    obtain ⟨a, hra, hua⟩ := exists_shared hwf hr hut
    refine iff_of_false ?_ (fun hok => hok.2 hnext)
    refine not_retainExact_of_changed (a := a) hres (by simp) ?_
    have hown := ownersAt_of_mem hwf (mem_touched.1 hut).1 hua
    rw [hcounts, updateAt_eq, if_pos hra, hown, bind_some, ne_eq, some_inj]
    omega
  · rw [if_neg hnext] at hres
    constructor
    · rintro ⟨st, m'', hres', hok, -⟩
      obtain ⟨rfl, rfl⟩ := eq_of_ok_eq (hres.symm.trans hres')
      refine ⟨fun s hs hmax => ?_, hnext⟩
      obtain ⟨a, hra, hsa⟩ := exists_shared hwf hr hs
      have hown := ownersAt_of_mem hwf (mem_touched.1 hs).1 hsa
      have hcount := hok rfl a
      rw [hcounts, updateAt_eq, if_pos hra, if_pos hra, hown, hmax] at hcount
      simp at hcount
    · rintro ⟨hmax, -⟩
      refine ⟨.success, _, hres, fun _ a => ?_, fun hno => absurd rfl hno⟩
      rw [hcounts, updateAt_eq]
      by_cases hra : r.contains a
      · rw [if_pos hra, if_pos hra]
        cases hown : ownersAt m.table a with
        | none => rfl
        | some n =>
          obtain ⟨s, hs, hsa, rfl⟩ := exists_of_ownersAt hown
          have hlt := s.owners.toNat_lt
          have hne : s.owners.toNat ≠ 255 := fun heq =>
            hmax s (mem_touched_of_contains hs hsa hra) (UInt8.toNat_inj.1 heq)
          rw [bind_some, map_some, Nat.mod_eq_of_lt (by omega)]
      · rw [if_neg hra, if_neg hra]

lemma retainExact_of_refused (hg : granted m.heap < m.splits r) :
    RetainExact m r ↔ ¬ (2 ≤ (m.touched r).length ∧ m.startsInGap r) := by
  rw [touched_eq h]
  by_cases hgap : 2 ≤ mid.length ∧ m.startsInGap r
  · refine iff_of_false ?_ (fun hno => hno hgap)
    obtain ⟨h', init, last, rfl, hne, hres⟩ := retain_late hwf hr h hg hgap
    obtain ⟨u, rest, rfl⟩ := exists_cons_of_ne_nil hne
    have ht : m.table = pre ++ u :: (rest ++ last :: post) := by simp [h.eq]
    have hat := (ht ▸ hwf).at_cons
    refine not_retainExact_of_changed (a := u.range.front) hres (by simp) ?_
    have hpre : ownersAt pre u.range.front = none := by
      refine ownersAt_eq_none_iff.2 fun v hv => ?_
      have := hat.2.1 v hv
      simp only [AnyRange.contains]
      omega
    have hcon : u.range.contains u.range.front := ⟨le_refl _, hat.1⟩
    have hnew : ownersAt (pre ++ ((u :: rest).map MemorySegment.retained ++ last :: post))
        u.range.front = some (u.owners + 1).toNat := by
      rw [ownersAt_append, hpre, map_cons, cons_append, ownersAt_cons,
        MemorySegment.range_retained, if_pos hcon]
      rfl
    rw [hnew, ownersAt_of_mem hwf (by simp [ht]) hcon, ne_eq, some_inj]
    exact retained_toNat_ne u.owners
  · obtain ⟨h', hres⟩ := retain_refused hwf hr h hg hgap
    exact iff_of_true ⟨_, _, hres, fun hno => absurd hno (by simp), fun _ => ⟨fun _ => rfl, rfl⟩⟩ hgap

end RetainIff

/-- In every reachable state `retain` is a pointwise increment exactly on its safe inputs. -/
theorem retain_exact_iff (hm : Reachable m) (hr : r.front < r.back) :
    RetainExact m r ↔ RetainSafe m r := by
  obtain ⟨others, htr⟩ := hm.tracks
  obtain ⟨pre, mid, post, h⟩ := htr.wf.exists_around r
  by_cases hmid : mid = []
  · subst hmid
    refine iff_of_true ⟨.notFound, m, retain_none htr.wf hr h, by simp, fun _ => ⟨fun _ => rfl, rfl⟩⟩ ?_
    exact .inl (touched_eq h)
  · have htouched : m.touched r ≠ [] := by rwa [touched_eq h]
    by_cases hg : m.splits r ≤ granted m.heap
    · have hno : ¬ granted m.heap < m.splits r := by omega
      rw [retainExact_of_granted htr.wf hr h hmid hg]
      simp [RetainSafe, htouched, hg, hno]
    · have hlt : granted m.heap < m.splits r := by omega
      rw [retainExact_of_refused htr.wf hr h hlt]
      simp [RetainSafe, htouched, hg, hlt]

def threePages : MemoryManager :=
  ⟨[⟨1, ⟨0x1000, 0x2000⟩⟩, ⟨1, ⟨0x2000, 0x3000⟩⟩, ⟨1, ⟨0x4000, 0x5000⟩⟩],
    ⟨[⟨0x4000, 0x5000⟩, ⟨0x2000, 0x3000⟩, ⟨0x1000, 0x2000⟩], [true, true]⟩⟩

lemma reachable_threePages : Reachable threePages := by
  have h₀ : Reachable ⟨[], ⟨[], [true, true]⟩⟩ := ⟨_, [], rfl, .nil _⟩
  have h1 := h₀.step (.allocate (some ⟨0x1000, 0x2000⟩) (by decide))
  have h2 := h1.step (.allocate (some ⟨0x2000, 0x3000⟩) (by decide))
  exact h2.step (.allocate (some ⟨0x4000, 0x5000⟩) (by decide))

theorem retain_exact_first_page :
    RetainSafe threePages ⟨0x1000, 0x2000⟩ ∧ RetainExact threePages ⟨0x1000, 0x2000⟩ :=
  ⟨by decide, (retain_exact_iff reachable_threePages (by decide)).2 (by decide)⟩

/-- A range over the first two pages and the gap after them is retained, and then reported as an
invalid input. -/
theorem retain_past_gap_inexact :
    Reachable threePages ∧ ¬ RetainExact threePages ⟨0x1000, 0x4000⟩ := by
  have hres : threePages.retain ⟨0x1000, 0x4000⟩ = .ok (.invalidInput,
      ⟨[⟨2, ⟨0x1000, 0x2000⟩⟩, ⟨2, ⟨0x2000, 0x3000⟩⟩, ⟨1, ⟨0x4000, 0x5000⟩⟩], threePages.heap⟩) := by
    decide
  exact ⟨reachable_threePages, not_retainExact_of_changed (a := 0x1000) hres (by decide) (by decide)⟩

/-! ## Release -/

def inUse (h : HeapView) (a : Nat) : Prop := ∃ u ∈ h.used, u.contains a
  deriving Decidable

/-- A count with one owner less; the last owner takes the address out of the table. -/
def Lowered (n : Nat) (after : Option Nat) : Prop :=
  if n = 1 then after = none else ∃ k, after = some k ∧ k + 1 = n

/-- The call returns success, lowered the count of every address of the range that has one and of
no other, and the heap got back exactly the addresses that lost their last owner. -/
def ReleaseExact (m : MemoryManager) (r : AnyRange) : Prop :=
  ∃ m', m.release r = .ok (.success, m') ∧
    (∀ a, r.contains a → ∀ n, ownersAt m.table a = some n → Lowered n (ownersAt m'.table a)) ∧
    (∀ a, ¬ r.contains a ∨ ownersAt m.table a = none →
      ownersAt m'.table a = ownersAt m.table a) ∧
    ∀ a, inUse m'.heap a ↔ inUse m.heap a ∧ ¬ (r.contains a ∧ ownersAt m.table a = some 1)

/-- The inputs on which `release` is exact: no count is zero, the pool grants the blocks, and the
final loop, where it is needed, gets through. -/
def ReleaseSafe (m : MemoryManager) (r : AnyRange) : Prop :=
  (∀ s ∈ m.touched r, s.owners ≠ 0) ∧ m.splits r ≤ granted m.heap ∧ m.loopShape r
  deriving Decidable

lemma ownersAt_released (hwf : RangeTable.WellFormed MemorySegment.range m.table)
    (h : RangeTable.Around MemorySegment.range m.table r pre mid post) (a : Nat) :
    ownersAt (pre ++ (mid.flatMap (releasePieces r) ++ post)) a =
      updateAt (fun n => if n = 1 then none else some ((n + 255) % 256)) r m.table a :=
  ownersAt_replace hwf h (fun s hs a => ownersAt_releasePieces (h.meets s hs) a) a

lemma Tracks.inUse_iff (hm : Tracks others m) :
    (inUse m.heap a ↔ ownersAt m.table a ≠ none ∨ ∃ o ∈ others, o.contains a) ∧
      ¬ (ownersAt m.table a ≠ none ∧ ∃ o ∈ others, o.contains a) := by
  have htable : ownersAt m.table a ≠ none ↔ ∃ s ∈ m.table, s.range.contains a := by
    rw [ne_eq, ownersAt_eq_none_iff]
    simp
  rw [htable]
  constructor
  · constructor
    · rintro ⟨u, hu, hua⟩
      rcases mem_append.1 (hm.held.mem_iff.1 hu) with hu | hu
      · obtain ⟨s, hs, rfl⟩ := mem_map.1 hu
        exact .inl ⟨s, hs, hua⟩
      · exact .inr ⟨u, hu, hua⟩
    · rintro (⟨s, hs, hsa⟩ | ⟨o, ho, hoa⟩)
      · exact ⟨s.range, hm.held.mem_iff.2 (mem_append.2 (.inl (mem_map_of_mem hs))), hsa⟩
      · exact ⟨o, hm.held.mem_iff.2 (mem_append.2 (.inr ho)), hoa⟩
  · rintro ⟨⟨s, hs, hsa⟩, o, ho, hoa⟩
    refine hm.apart s hs o ho ?_
    simp only [AnyRange.contains, AnyRange.Meets] at *
    omega

lemma lowered_iff {n : Nat} (hn : n < 256) :
    Lowered n (if n = 1 then none else some ((n + 255) % 256)) ↔ n ≠ 0 := by
  by_cases h1 : n = 1
  · simp [Lowered, h1]
  · simp only [Lowered, h1, if_false, Option.some.injEq, exists_eq_left']
    omega

/-- In every reachable state a `release` that meets a segment is a pointwise decrement exactly on
its safe inputs. -/
theorem release_exact_iff (hm : Reachable m) (hr : r.front < r.back) (hmeets : m.touched r ≠ []) :
    ReleaseExact m r ↔ ReleaseSafe m r := by
  obtain ⟨others, htr⟩ := hm.tracks
  obtain ⟨pre, mid, post, h⟩ := htr.wf.exists_around r
  have hmid : mid ≠ [] := by rwa [touched_eq h] at hmeets
  have hiff := release_iff htr.wf hr h hmid
  have hcounts := ownersAt_released htr.wf h
  constructor
  · rintro ⟨m', hres, hlow, -, -⟩
    have hok : m.splits r ≤ granted m.heap ∧ m.loopShape r := by
      by_contra hno
      exact hiff.2 hno m' hres
    refine ⟨fun s hs => ?_, hok.1, hok.2⟩
    obtain ⟨h', hres'⟩ := hiff.1 hok
    obtain ⟨-, rfl⟩ := eq_of_ok_eq (hres.symm.trans hres')
    obtain ⟨a, hra, hsa⟩ := exists_shared htr.wf hr hs
    have hown := ownersAt_of_mem htr.wf (mem_touched.1 hs).1 hsa
    have hl := hlow a hra _ hown
    rw [hcounts, updateAt_eq, if_pos hra, hown, bind_some, lowered_iff s.owners.toNat_lt] at hl
    exact fun hzero => hl (by rw [hzero]; rfl)
  · rintro ⟨hzero, hg, hshape⟩
    obtain ⟨h', hres⟩ := hiff.1 ⟨hg, hshape⟩
    have htr' := release_tracks htr hr hres
    have hlow : ∀ a, r.contains a → ∀ n, ownersAt m.table a = some n →
        Lowered n (ownersAt (pre ++ (mid.flatMap (releasePieces r) ++ post)) a) := by
      intro a hra n hown
      obtain ⟨s, hs, hsa, rfl⟩ := exists_of_ownersAt hown
      have hne := hzero s (mem_touched_of_contains hs hsa hra)
      rw [hcounts, updateAt_eq, if_pos hra, hown, bind_some, lowered_iff s.owners.toNat_lt]
      exact fun h0 => hne (UInt8.toNat_inj.1 h0)
    have hsame : ∀ a, ¬ r.contains a ∨ ownersAt m.table a = none →
        ownersAt (pre ++ (mid.flatMap (releasePieces r) ++ post)) a = ownersAt m.table a := by
      rintro a (hra | hnone)
      · rw [hcounts, updateAt_eq, if_neg hra]
      · rw [hcounts, updateAt_eq, hnone]
        simp
    refine ⟨_, hres, hlow, hsame, fun a => ?_⟩
    obtain ⟨huse, hapart⟩ := htr.inUse_iff
    rw [(htr'.inUse_iff).1, huse]
    by_cases hra : r.contains a
    · cases hown : ownersAt m.table a with
      | none => simp [hsame a (.inr hown), hown]
      | some n =>
        have hl := hlow a hra n hown
        by_cases hone : n = 1
        · subst hone
          rw [Lowered, if_pos rfl] at hl
          rw [hown] at hapart
          simp only [hl]
          simpa [hra] using hapart
        · rw [Lowered, if_neg hone] at hl
          obtain ⟨k, hk, -⟩ := hl
          simp [hk, hone]
    · simp [hsame a (.inl hra), hra]

theorem release_exact_first_page :
    ReleaseSafe threePages ⟨0x1000, 0x2000⟩ ∧ ReleaseExact threePages ⟨0x1000, 0x2000⟩ :=
  ⟨by decide, (release_exact_iff reachable_threePages (by decide) (by decide)).2 (by decide)⟩

/-- Releasing the first two pages together with the free page below them stops in a failed
assertion, because a segment further up is still in the table. -/
theorem release_from_gap_inexact :
    Reachable threePages ∧ threePages.touched ⟨0, 0x3000⟩ ≠ [] ∧
      ¬ ReleaseExact threePages ⟨0, 0x3000⟩ := by
  have hres : threePages.release ⟨0, 0x3000⟩ = .error .bugCheck := by decide
  refine ⟨reachable_threePages, by decide, ?_⟩
  rintro ⟨m', hres', -⟩
  simp [hres] at hres'

end MemoryManager
end BezOS
