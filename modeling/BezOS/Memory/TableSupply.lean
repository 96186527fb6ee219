import Mathlib.Algebra.Order.BigOperators.Group.List
import Mathlib.Algebra.Order.Group.Nat
import Mathlib.Data.List.Sort
import BezOS.Memory.TableConservation

/-!
# The free memory of the page table allocator

The free pages of a state, and the stretches of memory they make up when adjacent free blocks
are put together, which is what `defragment` leaves on the list.
-/

namespace BezOS
namespace PageTableAllocator

open Lib BlockMemory List

variable {s s' : PageTableAllocator} {l l' given : List Nat}

def freeBlocks (s : PageTableAllocator) : List Nat := (s.mem.walk walkLimit s.mHead).getD []

def supply (s : PageTableAllocator) : List Nat := s.pages s.freeBlocks

def freeBytes (s : PageTableAllocator) : Nat := (s.freeBlocks.map s.mem.size).sum

/-- The free memory with adjacent blocks of one mapping put together. -/
def coalesced (s : PageTableAllocator) : List (Span Nat) :=
  coalesce (s.mem.spans (s.freeBlocks.insertionSort (· ≤ ·)))

/-! ## From the list to the state -/

section

variable (h : s.Free l) (hbs : 0 < s.mBlockSize)

include h hbs

lemma freeBlocks_eq : s.freeBlocks = l := by
  have hwalk : s.mem.walk walkLimit s.mHead = some l := by
    rw [h.head_eq]
    exact TableSystem.walk_of_chain (TableSystem.chain_of_linked h.linked h.zero_not_mem)
      (Nat.lt_of_succ_lt (h.length_lt hbs))
  rw [freeBlocks, hwalk, Option.getD_some]

lemma supply_eq : s.supply = s.pages l := by
  rw [supply, freeBlocks_eq h hbs]

lemma supply_of_serves (hs : Serves s l s' l' given) :
    (s'.supply ++ given).Perm s.supply := by
  rw [supply_eq h hbs, supply_eq hs.free (hs.blockSize ▸ hbs)]
  exact hs.perm

lemma spans_of_merges {m' : BlockMemory} (hm : Merges s.mem l m' l') :
    m'.spans l' = s.coalesced := by
  obtain ⟨sorted, hperm, hsorted, hspans⟩ := hm
  have heq : sorted = l.insertionSort (· ≤ ·) := by
    refine Perm.eq_of_pairwise' (hsorted.imp fun h => Nat.le_of_lt h)
      (l.pairwise_insertionSort (· ≤ ·)) ?_
    exact hperm.trans (l.perm_insertionSort (· ≤ ·)).symm
  rw [hspans, heq, coalesced, freeBlocks_eq h hbs]

end

lemma coalesced_le_freeBytes {b : Span Nat} (hb : b ∈ s.coalesced) : b.size ≤ s.freeBytes := by
  have hsort := s.freeBlocks.perm_insertionSort (· ≤ ·)
  calc b.size ≤ (s.coalesced.map Span.size).sum := le_sum_of_mem (mem_map_of_mem hb)
    _ = ((s.mem.spans (s.freeBlocks.insertionSort (· ≤ ·))).map Span.size).sum :=
        sum_size_coalesce
    _ = ((s.freeBlocks.insertionSort (· ≤ ·)).map s.mem.size).sum := by
        rw [spans, map_map]
        rfl
    _ = s.freeBytes := (hsort.map s.mem.size).sum_eq

lemma freeBytes_eq (h : s.Free l) (hbs : 0 < s.mBlockSize) :
    s.freeBytes = s.supply.length * s.mBlockSize := by
  rw [freeBytes, supply_eq h hbs, freeBlocks_eq h hbs, length_pages h.blocks]

lemma freeBytes_lt (h : s.Free l) (hbs : 0 < s.mBlockSize)
    (haligned : ∀ p ∈ s.pages l, s.mBlockSize ∣ p ∧ p + s.mBlockSize < wordCount) :
    s.freeBytes < wordCount := by
  rw [freeBytes_eq h hbs, supply_eq h hbs]
  by_contra hle
  have hcount : 0 < (s.pages l).length := by
    refine Nat.pos_of_ne_zero fun hzero => ?_
    rw [hzero, Nat.zero_mul] at hle
    exact hle (by decide)
  -- All of them fit below the highest one.
  have hsub : (s.pages l).map (· / s.mBlockSize) ⊆ range ((s.pages l).length - 1) := by
    intro k hk
    obtain ⟨p, hp, rfl⟩ := mem_map.1 hk
    obtain ⟨⟨j, rfl⟩, hbound⟩ := haligned p hp
    rw [Nat.mul_div_cancel_left _ hbs, mem_range]
    have hlt : (j + 1) * s.mBlockSize < (s.pages l).length * s.mBlockSize := by
      rw [Nat.add_mul, Nat.one_mul, Nat.mul_comm j]
      omega
    have hlt' := Nat.lt_of_mul_lt_mul_right hlt
    omega
  have hnodup : ((s.pages l).map (· / s.mBlockSize)).Nodup := by
    refine Nodup.map_on (fun p hp q hq heq => ?_) h.nodup
    exact Nat.div_left_inj (haligned p hp).1 (haligned q hq).1 |>.1 heq
  have hlength := (hnodup.subperm hsub).length_le
  rw [length_map, length_range] at hlength
  omega

end PageTableAllocator
end BezOS
