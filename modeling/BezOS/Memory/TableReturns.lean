import BezOS.Memory.TableRequests

/-!
# Returning and adding memory

The other direction: `Returns s l s' l' taken` says that the pages `taken` joined the free list
and that only words of these pages and of the free list changed.
-/

namespace BezOS
namespace PageTableAllocator

open Lib BlockMemory List

variable {s s' s'' : PageTableAllocator} {l l' l'' taken taken' : List Nat} {range : AnyRange}

structure Returns (s : PageTableAllocator) (l : List Nat) (s' : PageTableAllocator) (l' : List Nat)
    (taken : List Nat) : Prop where
  blockSize : s'.mBlockSize = s.mBlockSize
  free : s'.Free l'
  perm : (s'.pages l').Perm (taken ++ s.pages l)
  same : Untouched (taken ++ s.pages l) s.mem s'.mem

lemma Returns.trans (h : Returns s l s' l' taken) (h' : Returns s' l' s'' l'' taken') :
    Returns s l s'' l'' (taken' ++ taken) where
  blockSize := h'.blockSize.trans h.blockSize
  free := h'.free
  perm := by
    rw [append_assoc]
    exact h'.perm.trans (h.perm.append_left taken')
  same := by
    rw [append_assoc]
    refine (h.same.mono (subset_append_right ..)).trans (h'.same.mono ?_)
    exact (h.perm.append_left taken').subset

lemma deallocate_spec {ptr blocks : Nat} (slide : Nat) (h : s.Free l) (hbs : 0 < s.mBlockSize)
    (hblocks : 0 < blocks) (hptr : ptr ≠ 0) (hbound : ptr + blocks * s.mBlockSize < wordCount)
    (hfresh : ∀ p ∈ blockPages s.mBlockSize ptr (blocks * s.mBlockSize), p ∉ s.pages l) :
    ∃ s', s.deallocate ptr blocks slide = some s' ∧
      Returns s l s' (ptr :: l) (blockPages s.mBlockSize ptr (blocks * s.mBlockSize)) := by
  have hdvd : s.mBlockSize ∣ blocks * s.mBlockSize := Nat.dvd_mul_left ..
  have hpos : 0 < blocks * s.mBlockSize := Nat.mul_pos hblocks hbs
  obtain ⟨m', hm', hfree, hpages, hsame⟩ :=
    h.pushHead slide hbs ⟨hptr, hdvd, hpos, hbound⟩ hfresh
  have hhead : ¬ (s.mHead ≠ 0 ∧ s.mem.prev s.mHead ≠ 0) := by
    rintro ⟨hne, hprev⟩
    rw [h.head_eq] at hne hprev
    cases l with
    | nil => exact hne rfl
    | cons a l => exact hprev (h.first a (by simp))
  have hbytes : s.bytesOf blocks = blocks * s.mBlockSize := bytesOf_eq (by omega)
  refine ⟨⟨s.mBlockSize, ptr, m'⟩, ?_, rfl, hfree, ?_, hsame.mono ?_⟩
  · rw [deallocate, if_neg hhead, hbytes, ← hm']
  · rw [← hpages]
  · intro p hp
    rcases mem_cons.1 hp with rfl | hp
    · exact mem_append_left _ (self_mem_blockPages hbs hdvd hpos)
    · exact mem_append_right _ (h.subset_freePages hbs hp)

lemma deallocateList_spec {fuel : Nat} {list : PageTableList} {held : List Nat} (h : s.Free l)
    (hbs : 0 < s.mBlockSize) (hheld : list.Holds s.mem held)
    (hnodup : (held ++ s.pages l).Nodup) (hbound : ∀ p ∈ held, p + s.mBlockSize < wordCount)
    (hfuel : held.length < fuel) :
    ∃ s' l', deallocateList fuel s list = some s' ∧ Returns s l s' l' held := by
  induction held generalizing fuel s l list with
  | nil =>
    obtain ⟨fuel, rfl⟩ : ∃ k, fuel = k + 1 := ⟨fuel - 1, by omega⟩
    refine ⟨s, l, ?_, rfl, h, Perm.refl _, Untouched.refl _ _⟩
    rw [deallocateList, hheld.drain_nil]
    rfl
  | cons a held ih =>
    obtain ⟨fuel, rfl⟩ : ∃ k, fuel = k + 1 := ⟨fuel - 1, by omega⟩
    obtain ⟨hblock, ha, hdrain, htail⟩ := hheld.drain_cons
    simp only [cons_append, nodup_cons, mem_append, not_or] at hnodup
    obtain ⟨⟨hheldA, hpagesA⟩, hnodup⟩ := hnodup
    have hone : blockPages s.mBlockSize a (1 * s.mBlockSize) = [a] := by
      simp [blockPages, Nat.div_self hbs]
    obtain ⟨s1, hrun1, hreturns1⟩ := deallocate_spec list.mTable.mSlide h hbs one_pos ha
      (by simpa using hbound a (by simp)) (by rw [hone]; simpa using hpagesA)
    rw [hone] at hreturns1
    have hbs1 := hreturns1.blockSize
    have htail1 : (⟨list.mTable.getNext s.mem⟩ : PageTableList).Holds s1.mem held := by
      refine htail.untouched hreturns1.same ?_
      intro p hp hmem
      rcases mem_append.1 hmem with hmem | hmem
      · obtain rfl : p = a := by simpa using hmem
        exact hheldA hp
      · exact (nodup_append.1 hnodup).2.2 p hp p hmem rfl
    have hnodup1 : (held ++ s1.pages (a :: l)).Nodup := by
      refine ((Perm.append_left held hreturns1.perm).nodup_iff).2 ?_
      rw [singleton_append, perm_middle.nodup_iff, nodup_cons]
      exact ⟨by simp [hheldA, hpagesA], hnodup⟩
    obtain ⟨s', l', hrun, hreturns⟩ := ih hreturns1.free (hbs1 ▸ hbs) htail1 hnodup1
      (fun p hp => by rw [hbs1]; exact hbound p (mem_cons_of_mem _ hp)) (by simpa using hfuel)
    have hall := hreturns1.trans hreturns
    refine ⟨s', l', ?_, hall.blockSize, hall.free, ?_, ?_⟩
    · have hpresent : list.mTable.isPresent := by
        rw [PageTableAllocation.isPresent, hblock]
        exact ha
      rw [deallocateList, hdrain]
      simp only [if_pos hpresent, hblock, hrun1, Option.bind_eq_bind, Option.bind_some]
      exact hrun
    · refine hall.perm.trans (Perm.append_right _ ?_)
      exact perm_append_comm
    · refine hall.same.mono ?_
      intro p hp
      simp only [mem_append, mem_cons, not_mem_nil, or_false] at hp ⊢
      tauto

/-! ## New memory -/

/-- A range `addMemory` does not stop at. -/
structure Addable (bs : Nat) (range : AnyRange) : Prop where
  front : range.front ≠ 0
  lt : range.front < range.back
  back : range.back < wordCount
  whole : range.bytes % bs = 0
  aligned : range.alignedOut bs = range

instance (bs : Nat) (range : AnyRange) : Decidable (Addable bs range) :=
  decidable_of_iff (range.front ≠ 0 ∧ range.front < range.back ∧ range.back < wordCount ∧
      range.bytes % bs = 0 ∧ range.alignedOut bs = range)
    ⟨fun ⟨h1, h2, h3, h4, h5⟩ => ⟨h1, h2, h3, h4, h5⟩,
      fun ⟨h1, h2, h3, h4, h5⟩ => ⟨h1, h2, h3, h4, h5⟩⟩

lemma bytes_eq (hlt : range.front < range.back) (hback : range.back < wordCount) :
    range.bytes = range.back - range.front := by
  have := wrapSub_cases (b := range.front) hback (by omega)
  rw [AnyRange.bytes]
  omega

lemma Addable.page {bs p : Nat} (h : Addable bs range)
    (hp : p ∈ blockPages bs range.front range.bytes) :
    p ≠ 0 ∧ bs ∣ p ∧ p + bs < wordCount := by
  have hbytes := bytes_eq h.lt h.back
  have hfront : range.front / bs * bs = range.front := congrArg AnyRange.front h.aligned
  have hpage := blockPages_lt hp
  have hlt := h.lt
  have hback := h.back
  have hne := h.front
  refine ⟨by omega, ?_, by omega⟩
  obtain ⟨i, -, rfl⟩ := mem_blockPages.1 hp
  refine Nat.dvd_add ⟨range.front / bs, ?_⟩ (Nat.dvd_mul_left ..)
  rw [Nat.mul_comm]
  exact hfront.symm

lemma addMemory_spec (h : s.Free l) (hbs : 0 < s.mBlockSize) (hrange : Addable s.mBlockSize range)
    (hfresh : ∀ p ∈ blockPages s.mBlockSize range.front range.bytes, p ∉ s.pages l) :
    ∃ s' l', s.addMemory range = some s' ∧
      Returns s l s' l' (blockPages s.mBlockSize range.front range.bytes) := by
  have hbytes := bytes_eq hrange.lt hrange.back
  have hpos : 0 < range.bytes := by
    have := hrange.lt
    omega
  have hdvd : s.mBlockSize ∣ range.bytes := Nat.dvd_of_mod_eq_zero hrange.whole
  have hself : range.front ∈ blockPages s.mBlockSize range.front range.bytes :=
    self_mem_blockPages hbs hdvd hpos
  have hchecks : ¬ (range.bytes = 0 ∨ range.bytes % s.mBlockSize ≠ 0) :=
    not_or.2 ⟨hpos.ne', not_not.2 hrange.whole⟩
  rw [addMemory, if_neg hchecks, if_neg (not_not.2 hrange.aligned)]
  have hnew := h.newHead 0 hbs
    ⟨hrange.front, hdvd, hpos, by have := hrange.back; have := hrange.lt; omega⟩ hfresh
  generalize s.mem.setBlock range.front s.mHead 0 range.bytes 0 = m1 at hnew ⊢
  have hsame : Untouched (blockPages s.mBlockSize range.front range.bytes ++ s.pages l) s.mem m1 :=
    hnew.same.mono (by simpa using .inl hself)
  cases l with
  | nil =>
    refine ⟨⟨s.mBlockSize, range.front, m1⟩, [range.front], if_pos (.inr hnew.next), rfl,
      ⟨rfl, ?_, ?_, hnew.blocks, hnew.nodup⟩, ?_, hsame⟩
    · simpa using hnew.next
    · simpa using hnew.prev
    · rw [← hnew.pages]
  | cons b l =>
    have hnodup := nodup_of_freePages hbs hnew.blocks hnew.nodup
    have hzero : 0 ∉ range.front :: b :: l := fun hmem => (hnew.blocks 0 hmem).ne_zero rfl
    have halmost : AlmostLinked m1 (range.front :: b :: l) := by
      refine ⟨hnew.next, by simpa using hnodup, by simpa using hzero, ?_, trivial, hnew.linked,
        trivial⟩
      exact fun c hc => .inr ⟨rfl, hnew.first c hc⟩
    obtain ⟨m', l', hrun, hfree, hperm, hsame', -⟩ :=
      defragment_spec hbs halmost hnew.prev hnew.blocks hnew.nodup
    refine ⟨_, l', hrun, rfl, hfree, ?_, hsame.trans (hsame'.mono ?_)⟩
    · rw [← hnew.pages]
      exact hperm
    · rw [← hnew.pages]
      exact fun c hc => mem_freePages hbs (hnew.blocks c hc) hc

end PageTableAllocator
end BezOS
