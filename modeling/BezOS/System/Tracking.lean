import BezOS.Lib.Transition
import BezOS.System.ReleaseOutcome

/-!
# The table tracks the heap

Whatever a call does and however it ends, the segments of the table stay disjoint and the heap's
live ranges stay the segments of the table and the ranges of the heap's other clients. The calls
of a memory manager and the steps of those clients form a transition system with that invariant.
-/

namespace BezOS
namespace MemoryManager

open Lib Except MemorySegment List RangeTable

variable {m m' : MemoryManager} {others : List AnyRange} {pre post mid x y : List MemorySegment}
  {s : MemorySegment} {r : AnyRange} {st : OsStatus} {it : Nat} {h : HeapView}

namespace Tracks

lemma replace (hm : Tracks others m) (ht : m.table = pre ++ (x ++ post))
    (hwf : RangeTable.WellFormed MemorySegment.range (pre ++ (y ++ post)))
    (hin : ∀ p ∈ y, ∃ u ∈ x, u.range.front ≤ p.range.front ∧ p.range.back ≤ u.range.back)
    (hex : Exchanges m.heap h (x.map MemorySegment.range) (y.map MemorySegment.range)) :
    Tracks others ⟨pre ++ (y ++ post), h⟩ := by
  have hmove : ∀ a : List AnyRange, (pre.map MemorySegment.range ++
      (a ++ post.map MemorySegment.range) ++ others).Perm
      (a ++ (pre.map MemorySegment.range ++ post.map MemorySegment.range ++ others)) := by
    intro a
    have hswap : (pre.map MemorySegment.range ++ (a ++ post.map MemorySegment.range)).Perm
        (a ++ (pre.map MemorySegment.range ++ post.map MemorySegment.range)) := by
      rw [← append_assoc, ← append_assoc]
      exact perm_append_comm.append_right _
    simpa using hswap.append_right others
  refine ⟨hwf, ?_, ?_⟩
  · have hheld := hm.held
    rw [ht, map_append, map_append] at hheld
    have hnew := hex _ (hheld.trans (hmove _))
    simpa using hnew.trans (hmove _).symm
  · intro p hp o ho
    rcases mem_append.1 hp with hp | hp
    · exact hm.apart p (by simp [ht, hp]) o ho
    · rcases mem_append.1 hp with hp | hp
      · obtain ⟨u, hu, hle⟩ := hin p hp
        have := hm.apart u (by simp [ht, hu]) o ho
        simp only [AnyRange.Meets] at this ⊢
        omega
      · exact hm.apart p (by simp [ht, hp]) o ho

lemma same_used (hm : Tracks others m) (hused : h.used = m.heap.used) :
    Tracks others ⟨m.table, h⟩ := by
  refine ⟨hm.wf, ?_, hm.apart⟩
  simpa [hused] using hm.held

lemma replace_one (hm : Tracks others m) (ht : m.table = pre ++ s :: post)
    (hwf : RangeTable.WellFormed MemorySegment.range y)
    (hin : ∀ p ∈ y, s.range.front ≤ p.range.front ∧ p.range.back ≤ s.range.back)
    (hex : Exchanges m.heap h [s.range] (y.map MemorySegment.range)) :
    Tracks others ⟨pre ++ (y ++ post), h⟩ :=
  hm.replace (x := [s]) ht ((ht ▸ hm.wf).replace hwf hin) (fun p hp => ⟨s, by simp, hin p hp⟩)
    (by simpa using hex)

end Tracks

lemma eq_of_ok_eq {st' : OsStatus}
    (h : (.ok (st, m) : Except Fault (OsStatus × MemoryManager)) = .ok (st', m')) :
    st = st' ∧ m = m' := by
  simpa using h

lemma exists_cut (h : m.table[it]? = some s) :
    ∃ pre post, m.table = pre ++ s :: post ∧ pre.length = it := by
  obtain ⟨hlt, hget⟩ := List.getElem?_eq_some_iff.1 h
  refine ⟨m.table.take it, m.table.drop (it + 1), ?_, by simp; omega⟩
  rw [← hget]
  simp

/-! ## Every helper keeps the tables in step -/

section Helpers

variable (hm : Tracks others m)

include hm

lemma retainEntry_tracks : Tracks others (m.retainEntry it) := by
  cases hget : m.table[it]? with
  | none =>
    have hlen : m.table.length ≤ it := List.getElem?_eq_none_iff.1 hget
    have hsame : m.table.modify it retained = m.table :=
      modify_eq_self hlen
    simpa [retainEntry, hsame] using hm
  | some s =>
    obtain ⟨pre, post, ht, rfl⟩ := exists_cut hget
    rw [retainEntry_eq ht]
    exact hm.replace_one (y := [s.retained]) ht
      ⟨by simpa using hm.wf.nonempty s (by simp [ht]), by simp⟩ (by simp) (.refl _ _)

lemma releaseEntry_tracks (h : m.releaseEntry it = .ok m') : Tracks others m' := by
  cases hget : m.table[it]? with
  | none => simp [releaseEntry, hget] at h
  | some s =>
    obtain ⟨pre, post, ht, rfl⟩ := exists_cut hget
    rw [releaseEntry_eq ht, ok.injEq] at h
    subst h
    have hne := hm.wf.nonempty s (by simp [ht])
    refine hm.replace_one ht ⟨fun p hp => ?_, ?_⟩ (fun p hp => ?_) (.freedOne m.heap s)
    · rwa [range_of_mem_releasedOne hp]
    · simp only [releasedOne]
      split <;> simp
    · rw [range_of_mem_releasedOne hp]
      exact ⟨le_refl _, le_refl _⟩

lemma retainSegment_tracks {p : Nat} {side : ReleaseSide}
    (h : m.retainSegment it p side = .ok (st, m')) : Tracks others m' := by
  cases hget : m.table[it]? with
  | none => simp [retainSegment, hget] at h
  | some s =>
    obtain ⟨pre, post, ht, rfl⟩ := exists_cut hget
    by_cases hp : s.range.front < p ∧ p < s.range.back
    · by_cases hg : 0 < granted m.heap
      · obtain ⟨h', hres, -, hex⟩ := retainSegment_granted ht hm.wf hp hg side
        obtain ⟨-, rfl⟩ := eq_of_ok_eq (hres.symm.trans h)
        have hparts : RangeTable.WellFormed MemorySegment.range (retainParts s p side) ∧
            ∀ q ∈ retainParts s p side,
              s.range.front ≤ q.range.front ∧ q.range.back ≤ s.range.back := by
          cases side <;> simp [retainParts, wellFormed_cons, RangeTable.WellFormed.nil] <;>
            omega
        exact hm.replace_one ht hparts.1 hparts.2 hex
      · obtain ⟨h', hres, hused⟩ := retainSegment_refused ht hp (by omega) side
        obtain ⟨-, rfl⟩ := eq_of_ok_eq (hres.symm.trans h)
        exact hm.same_used hused
    · have hres := retainSegment_outside ht (p := p) (by omega) side
      obtain ⟨-, rfl⟩ := eq_of_ok_eq (hres.symm.trans h)
      exact hm

lemma splitSegment_tracks {p : Nat} {side : ReleaseSide}
    (h : m.splitSegment it p side = .ok (st, m')) : Tracks others m' := by
  cases hget : m.table[it]? with
  | none => simp [splitSegment, hget] at h
  | some s =>
    obtain ⟨pre, post, ht, rfl⟩ := exists_cut hget
    by_cases hp : s.range.front < p ∧ p < s.range.back
    · by_cases hg : 0 < granted m.heap
      · obtain ⟨h', hres, -, hex⟩ := splitSegment_granted ht hm.wf hp hg side
        obtain ⟨-, rfl⟩ := eq_of_ok_eq (hres.symm.trans h)
        have hparts : RangeTable.WellFormed MemorySegment.range (releaseParts s p side) ∧
            ∀ q ∈ releaseParts s p side,
              s.range.front ≤ q.range.front ∧ q.range.back ≤ s.range.back := by
          cases side <;> by_cases hone : s.owners = 1 <;>
            simp [releaseParts, releasedOne, hone, wellFormed_cons,
              RangeTable.WellFormed.nil] <;> omega
        exact hm.replace_one ht hparts.1 hparts.2 hex
      · obtain ⟨h', hres, hused⟩ := splitSegment_refused ht hp (by omega) side
        obtain ⟨-, rfl⟩ := eq_of_ok_eq (hres.symm.trans h)
        exact hm.same_used hused
    · have hres := splitSegment_outside ht (p := p) (by omega) side
      obtain ⟨-, rfl⟩ := eq_of_ok_eq (hres.symm.trans h)
      exact hm

lemma retainRange_tracks {rem rem' : AnyRange} (h : m.retainRange it r rem = .ok (st, rem', m')) :
    Tracks others m' := by
  simp only [retainRange] at h
  split at h
  · simp at h
  · split at h
    · obtain ⟨-, -, rfl⟩ : _ ∧ _ ∧ _ = m' := by simpa using h
      exact retainEntry_tracks hm
    · split at h
      · obtain ⟨-, -, rfl⟩ : _ ∧ _ ∧ m = m' := by simpa using h
        exact hm
      · split at h <;> split at h <;> simp only [reduceCtorEq, ok.injEq, Prod.mk.injEq] at h <;>
          obtain ⟨-, -, rfl⟩ := h <;> exact retainSegment_tracks hm ‹_›

lemma releaseRange_tracks {rem rem' : AnyRange} (h : m.releaseRange it rem = .ok (st, rem', m')) :
    Tracks others m' := by
  simp only [releaseRange] at h
  split at h
  · simp at h
  · split at h
    · simp at h
    · split at h
      · split at h <;> simp only [reduceCtorEq, ok.injEq, Prod.mk.injEq] at h
        obtain ⟨-, -, rfl⟩ := h
        exact releaseEntry_tracks hm ‹_›
      · split at h <;> split at h <;> simp only [reduceCtorEq, ok.injEq, Prod.mk.injEq] at h <;>
          obtain ⟨-, -, rfl⟩ := h <;> exact splitSegment_tracks hm ‹_›

end Helpers

lemma retainLoop_tracks {fuel : Nat} :
    ∀ {m : MemoryManager} {rem : AnyRange} {it end' : Nat} {st : OsStatus}, Tracks others m →
      retainLoop r fuel m rem it end' = .ok (st, m') → Tracks others m' := by
  induction fuel with
  | zero =>
    intro m rem it end' st _ h
    simp [retainLoop] at h
  | succ fuel ih =>
    intro m rem it end' st hm h
    simp only [retainLoop] at h
    split at h
    · obtain ⟨-, rfl⟩ := eq_of_ok_eq h
      exact hm
    · split at h
      · simp at h
      · split at h
        · obtain ⟨-, rfl⟩ := eq_of_ok_eq h
          exact hm
        · split at h
          · simp at h
          · obtain ⟨-, rfl⟩ := eq_of_ok_eq h
            exact retainRange_tracks hm ‹_›
          · exact ih (retainRange_tracks hm ‹_›) h
          · exact ih (retainRange_tracks hm ‹_›) h
          · obtain ⟨-, rfl⟩ := eq_of_ok_eq h
            exact retainRange_tracks hm ‹_›

lemma releaseLoop_tracks {fuel : Nat} :
    ∀ {m : MemoryManager} {rem : AnyRange} {it end' : Nat} {st : OsStatus}, Tracks others m →
      releaseLoop fuel m rem it end' = .ok (st, m') → Tracks others m' := by
  induction fuel with
  | zero =>
    intro m rem it end' st _ h
    simp [releaseLoop] at h
  | succ fuel ih =>
    intro m rem it end' st hm h
    simp only [releaseLoop] at h
    split at h
    · obtain ⟨-, rfl⟩ := eq_of_ok_eq h
      exact hm
    · split at h
      · simp at h
      · obtain ⟨-, rfl⟩ := eq_of_ok_eq h
        exact releaseRange_tracks hm ‹_›
      · exact ih (releaseRange_tracks hm ‹_›) h
      · obtain ⟨-, rfl⟩ := eq_of_ok_eq h
        exact releaseRange_tracks hm ‹_›

/-! ## Every call keeps them in step -/

section Calls

variable (hm : Tracks others m) (hr : r.front < r.back) {st : OsStatus}

include hm

lemma Tracks.replace_pieces (h : RangeTable.Around MemorySegment.range m.table r pre mid post)
    {pieces : MemorySegment → List MemorySegment} {h' : HeapView}
    (hpieces : ∀ s ∈ mid, RangeTable.WellFormed MemorySegment.range (pieces s) ∧
      ∀ p ∈ pieces s, s.range.front ≤ p.range.front ∧ p.range.back ≤ s.range.back)
    (hex : Exchanges m.heap h' (mid.map MemorySegment.range)
      ((mid.flatMap pieces).map MemorySegment.range)) :
    Tracks others ⟨pre ++ (mid.flatMap pieces ++ post), h'⟩ := by
  refine hm.replace h.eq (h.wf_replace hm.wf (fun s hs => (hpieces s hs).1)
    fun s hs => (hpieces s hs).2) (fun p hp => ?_) hex
  obtain ⟨s, hs, hp⟩ := mem_flatMap.1 hp
  exact ⟨s, hs, (hpieces s hs).2 p hp⟩

include hr

lemma retain_tracks (h : m.retain r = .ok (st, m')) : Tracks others m' := by
  obtain ⟨pre, mid, post, har⟩ := hm.wf.exists_around r
  have hpieces : ∀ s ∈ mid, RangeTable.WellFormed MemorySegment.range (retainPieces r s) ∧
      ∀ p ∈ retainPieces r s, s.range.front ≤ p.range.front ∧ p.range.back ≤ s.range.back :=
    fun s hs => wellFormed_retainPieces (har.meets s hs) hr
      (hm.wf.nonempty s (by rw [har.eq]; simp [hs]))
  rcases ends_cases mid with rfl | ⟨s, rfl⟩ | ⟨lhs, inner, rhs, rfl⟩
  · rw [retain_none hm.wf hr har] at h
    obtain ⟨-, rfl⟩ := eq_of_ok_eq h
    exact hm
  · have ht : m.table = pre ++ s :: post := by simpa using har.eq
    rw [retain_one hm.wf hr har] at h
    by_cases hg : splitsOf r s ≤ granted m.heap
    · obtain ⟨h', hres, hex⟩ := retainOne_granted ht hm.wf hr (har.meets s (by simp)) hg
      obtain ⟨-, rfl⟩ := eq_of_ok_eq (hres.symm.trans h)
      simpa using hm.replace_pieces har hpieces (by simpa using hex)
    · obtain ⟨h', hres, hused⟩ := retainOne_refused ht hr (har.meets s (by simp)) (by omega)
      obtain ⟨-, rfl⟩ := eq_of_ok_eq (hres.symm.trans h)
      exact hm.same_used hused
  · have ht : m.table = pre ++ (lhs :: (inner ++ rhs :: post)) := by simp [har.eq]
    rw [retain_several hm.wf hr har] at h
    split at h
    case isTrue hends =>
      have hl : lhs.range.front ≤ r.front ∧ r.front < lhs.range.back :=
        ⟨hends.1, (har.meets lhs (by simp)).1⟩
      have hrr : rhs.range.front < r.back ∧ r.back ≤ rhs.range.back :=
        ⟨(har.meets rhs (by simp)).2, hends.2⟩
      by_cases hg : splitsOf r lhs + splitsOf r rhs ≤ granted m.heap
      · obtain ⟨h', hres, hex⟩ := retainEnds_granted ht hm.wf hl hrr hg
        obtain ⟨-, rfl⟩ := eq_of_ok_eq (hres.symm.trans h)
        exact hm.replace_pieces har hpieces hex
      · obtain ⟨h', hres, hused⟩ := retainEnds_refused ht hm.wf hl hrr (by omega)
        obtain ⟨-, rfl⟩ := eq_of_ok_eq (hres.symm.trans h)
        exact hm.same_used hused
    case isFalse => exact retainLoop_tracks hm h

lemma release_tracks (h : m.release r = .ok (st, m')) : Tracks others m' := by
  obtain ⟨pre, mid, post, har⟩ := hm.wf.exists_around r
  have hpieces : ∀ s ∈ mid, RangeTable.WellFormed MemorySegment.range (releasePieces r s) ∧
      ∀ p ∈ releasePieces r s, s.range.front ≤ p.range.front ∧ p.range.back ≤ s.range.back :=
    fun s hs => wellFormed_releasePieces (har.meets s hs) hr
      (hm.wf.nonempty s (by rw [har.eq]; simp [hs]))
  rcases ends_cases mid with rfl | ⟨s, rfl⟩ | ⟨lhs, inner, rhs, rfl⟩
  · rw [release_none hm.wf hr har] at h
    obtain ⟨-, rfl⟩ := eq_of_ok_eq h
    exact hm
  · have ht : m.table = pre ++ s :: post := by simpa using har.eq
    rw [release_one hm.wf hr har] at h
    by_cases hg : splitsOf r s ≤ granted m.heap
    · obtain ⟨h', hres, hex⟩ := releaseOne_granted ht hm.wf hr (har.meets s (by simp)) hg
      obtain ⟨-, rfl⟩ := eq_of_ok_eq (hres.symm.trans h)
      simpa using hm.replace_pieces har hpieces (by simpa using hex)
    · obtain ⟨h', hres, hused⟩ := releaseOne_refused ht hr (har.meets s (by simp)) (by omega)
      obtain ⟨-, rfl⟩ := eq_of_ok_eq (hres.symm.trans h)
      exact hm.same_used hused
  · have ht : m.table = pre ++ (lhs :: (inner ++ rhs :: post)) := by simp [har.eq]
    rw [release_several hm.wf hr har] at h
    split at h
    case isTrue hends =>
      have hl : lhs.range.front ≤ r.front ∧ r.front < lhs.range.back :=
        ⟨hends.1, (har.meets lhs (by simp)).1⟩
      have hrr : rhs.range.front < r.back ∧ r.back ≤ rhs.range.back :=
        ⟨(har.meets rhs (by simp)).2, hends.2⟩
      by_cases hg : splitsOf r lhs + splitsOf r rhs ≤ granted m.heap
      · obtain ⟨h', hres, hex⟩ := releaseEnds_granted ht hm.wf hl hrr hg
        obtain ⟨-, rfl⟩ := eq_of_ok_eq (hres.symm.trans h)
        exact hm.replace_pieces har hpieces hex
      · obtain ⟨h', hres, hused⟩ := releaseEnds_refused ht hm.wf hl hrr (by omega)
        obtain ⟨-, rfl⟩ := eq_of_ok_eq (hres.symm.trans h)
        exact hm.same_used hused
    case isFalse => exact releaseLoop_tracks hm h

end Calls

lemma allocate_tracks (hm : Tracks others m) (hr : r.front < r.back)
    (hnew : ∀ u ∈ m.heap.used, ¬ AnyRange.Meets r u) :
    Tracks others (m.allocate (some r)).2 ∧ ∃ pre post, m.table = pre ++ post ∧
      (m.allocate (some r)).2.table = pre ++ ⟨1, r⟩ :: post := by
  obtain ⟨pre, mid, post, har⟩ := hm.wf.exists_around r
  have hused : ∀ s ∈ m.table, ¬ AnyRange.Meets r s.range := by
    intro s hs
    refine hnew _ (hm.held.mem_iff.2 ?_)
    exact mem_append.2 (.inl (mem_map_of_mem hs))
  obtain rfl : mid = [] := by
    refine eq_nil_iff_forall_not_mem.2 fun s hs => ?_
    exact hused s (by rw [har.eq]; simp [hs]) (har.meets s hs)
  have ht : m.table = pre ++ post := by simpa using har.eq
  have hadd : (m.allocate (some r)).2 =
      ⟨pre ++ ⟨1, r⟩ :: post, { m.heap with used := r :: m.heap.used }⟩ := by
    refine addSegment_eq ht (fun a ha => ?_) fun a ha => ?_
    · have := har.before a ha
      simp only [range_mk]
      omega
    · have h1 := har.after a ha
      have h2 := hm.wf.nonempty a (by simp [ht, ha])
      simp only [range_mk]
      omega
  refine ⟨?_, pre, post, ht, by rw [hadd]⟩
  have hwf := hm.wf
  rw [ht, wellFormed_append] at hwf
  rw [hadd]
  refine ⟨wellFormed_append.2 ⟨hwf.1,
    wellFormed_cons.2 ⟨hr, hwf.2.1, har.after⟩, fun a ha b hb => ?_⟩, ?_, ?_⟩
  · rcases mem_cons.1 hb with rfl | hb
    · exact har.before a ha
    · exact hwf.2.2 a ha b hb
  · have hheld := hm.held.cons r
    rw [ht] at hheld
    refine hheld.trans ?_
    simpa using perm_middle.symm
  · intro s hs o ho
    have hcases : s = ⟨1, r⟩ ∨ s ∈ m.table := by
      simp only [ht, mem_append, mem_cons] at hs ⊢
      tauto
    rcases hcases with rfl | hs
    · exact hnew o (hm.held.mem_iff.2 (mem_append.2 (.inr ho)))
    · exact hm.apart s hs o ho

end MemoryManager
end BezOS
