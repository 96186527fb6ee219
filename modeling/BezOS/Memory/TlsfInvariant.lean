import BezOS.Memory.TlsfRuns

/-!
# The representation invariant

What a heap is between two calls, read off its fields alone: the chain, its links, the lists and
the bitmaps. Careful calls keep it. A call that is not careful need not: `grow` to the very end of
a free block counts the bytes of that block twice.
-/

namespace BezOS
namespace Tlsf

open Lib

structure RepInvariant (range : AnyRange) (h : TlsfHeap) : Prop where
  /-- The blocks from the null block back follow each other through the range. -/
  tiles : Tiles range.front (pieces h.regions)
  extent : extent (pieces h.regions) = h.mSize
  mSize : h.mSize = range.size
  /-- The links are inverse to each other. -/
  links : Laid h.coreOf none h.regions none
  null : (blocksOf h.regions).getLast? = some h.mNullBlock
  coalesced : Coalesced (pieces h.regions)
  /-- A block is free iff it is once in the list of its size and in no other one. -/
  listed : ∀ r ∈ h.regions, r.block ≠ h.mNullBlock → getListIndex r.size < h.mFreeListCount ∧
    (r.used = false ↔ (h.freeListOf (getListIndex r.size)).count r.block = 1 ∧
      ∀ i < h.mFreeListCount, i ≠ getListIndex r.size → r.block ∉ h.freeListOf i)
  /-- The bits of the lists that are not empty, and only those, are set. -/
  inner : ∀ c s, s < 32 → ((h.mInnerFreeMap c).getLsbD s = true ↔
    getListIndexOf c s < h.mFreeListCount ∧ h.freeListOf (getListIndexOf c s) ≠ [])
  top : ∀ c < 32, (h.mTopLevelFreeMap.getLsbD c = true ↔
    ∃ s < 32, getListIndexOf c s < h.mFreeListCount ∧ h.freeListOf (getListIndexOf c s) ≠ [])

variable {h h' : TlsfHeap} {base : Nat} {rs l t : List Region} {r : Region}
  {lists : Nat → List BlockPtr} {spare : List BlockPtr} {range : AnyRange} {ranges : List AnyRange}

lemma Formed.inner_iff (hf : Formed h base rs lists spare) {c s : Nat} (hs : s < 32) :
    (h.mInnerFreeMap c).getLsbD s = true ↔
      getListIndexOf c s < h.mFreeListCount ∧ h.freeListOf (getListIndexOf c s) ≠ [] := by
  rw [hf.repr.listed.headed.inner c s hs, getListIndexOf_eq]
  constructor
  · intro hne
    have hlt := (hf.list_lt hne).1
    rw [hf.repr.freeListOf_eq]
    exact ⟨hlt, hne⟩
  · rintro ⟨hlt, hne⟩
    rwa [hf.repr.freeListOf_eq] at hne

lemma Formed.top_iff (hf : Formed h base rs lists spare) {c : Nat} (hc : c < 32) :
    h.mTopLevelFreeMap.getLsbD c = true ↔
      ∃ s < 32, getListIndexOf c s < h.mFreeListCount ∧ h.freeListOf (getListIndexOf c s) ≠ [] := by
  rw [hf.repr.listed.headed.top c hc, bitVec_ne_zero_iff]
  constructor
  · rintro ⟨s, hs, hbit⟩
    exact ⟨s, hs, (hf.inner_iff hs).1 hbit⟩
  · rintro ⟨s, hs, hlist⟩
    exact ⟨s, hs, (hf.inner_iff hs).2 hlist⟩

lemma Formed.listed_iff (hf : Formed h base (l ++ r :: t) lists spare)
    (hnull : r.block ≠ h.mNullBlock) : r.used = false ↔
      (h.freeListOf (getListIndex r.size)).count r.block = 1 ∧
      ∀ i < h.mFreeListCount, i ≠ getListIndex r.size → r.block ∉ h.freeListOf i := by
  rw [hf.repr.freeListOf_eq]
  constructor
  · intro hfree
    refine ⟨List.count_eq_one_of_mem (hf.repr.listed.nodup _) (hf.free_listed hfree hnull), ?_⟩
    intro i hi hne hmem
    rw [hf.repr.freeListOf_eq] at hmem
    exact hne ((hf.repr.member r (by simp) i).1 hmem).2.2.symm
  · rintro ⟨hcount, -⟩
    have hmem : r.block ∈ lists (getListIndex r.size) := by
      rw [← List.count_pos_iff, hcount]
      exact Nat.one_pos
    exact ((hf.repr.member r (by simp) _).1 hmem).1

lemma WellformedOver.repInvariant (hw : WellformedOver range h) : RepInvariant range h := by
  obtain ⟨⟨lists, hw⟩, hsize⟩ := hw
  refine ⟨hw.tiling.tiles, hw.tiling.extent, hsize, hw.repr.laid, hw.repr.null, hw.coalesced, ?_,
    fun c s hs => hw.toFormed.inner_iff hs, fun c hc => hw.toFormed.top_iff hc⟩
  intro r hr hnull
  obtain ⟨l, t, hrs⟩ := List.append_of_mem hr
  have hf := hw.toFormed
  rw [hrs] at hf
  exact ⟨(hf.safe (by simp)).list, hf.listed_iff hnull⟩

/-- After careful calls, in every order, the heap is what it should be. -/
theorem repInvariant_of_reachable (hr : Reachable ranges h) :
    RepInvariant (combinedInterval ranges) h :=
  hr.wellformedOver.repInvariant

theorem repInvariant_of_gapCalls : ∃ h, Reachable [⟨0x1000, 0x2000⟩] h ∧
    RepInvariant (combinedInterval [⟨0x1000, 0x2000⟩]) h := by
  obtain ⟨h, hreplay⟩ := Option.isSome_iff_exists.1 (show (replayOver .ample [⟨0x1000, 0x2000⟩]
    (fun h call => call.isCareful [] h) gapCalls).isSome = true by decide +kernel)
  have hr := reachable_of_replay hreplay (by decide) (by decide) (by decide)
  exact ⟨h, hr, repInvariant_of_reachable hr⟩

/-- The first allocation grows over the whole gap: the bytes of the gap count twice. -/
theorem repInvariant_not_kept : ¬ ∀ ranges h0 calls h, Built ranges h0 →
    Run (HeapCall.Call []) h0 calls h → RepInvariant (combinedInterval ranges) h := by
  intro hall
  have hany : (replayOver .ample [⟨0x1000, 0x2000⟩] (fun h call => call.isLive [] h)
      (gapCalls ++ [.grow ⟨0, 0⟩ 128])).any
      (fun h => decide (extent (pieces h.regions) ≠ h.mSize)) = true := by decide +kernel
  obtain ⟨h, hreplay, hextent⟩ := exists_of_any
    (fun h : TlsfHeap => extent (pieces h.regions) ≠ h.mSize) hany
  obtain ⟨h0, hb, hreplay⟩ := replayOver_built hreplay (by decide) (by decide) (by decide)
  exact hextent (hall _ h0 _ h hb (replay_calls hreplay)).extent

end Tlsf
end BezOS
