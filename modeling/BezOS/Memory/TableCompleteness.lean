import BezOS.Memory.TableReleasing

/-!
# Completeness of the page table allocator

When a request is served, compared with when the free memory would do. A request for one block
of pages looks at the head of the list, merges the list and looks at its head once more, so that
it is refused while a block further on is large enough.
-/

namespace BezOS
namespace PageTableAllocator

open Lib BlockMemory List

variable {s s' : PageTableAllocator} {l l' given : List Nat} {n need : Nat}

/-- The requests that are served for the memory there is: all those, and no others. -/
structure Complete (s : PageTableAllocator) (n : Nat) : Prop where
  returns : s.allocate n ≠ none ∧ s.allocateList n ≠ none
  single : (∃ s' result, s.allocate n = some (s', result) ∧ result.isPresent) ↔
    ∃ b ∈ s.coalesced, n * s.mBlockSize ≤ b.size
  list : (∃ s' list, s.allocateList n = some (s', some list)) ↔ n ≤ s.supply.length
  distinct : ∀ s' list, s.allocateList n = some (s', some list) →
    ∃ given, list.Holds s'.mem given ∧ given.length = n ∧ given.Nodup ∧ given ⊆ s.supply
  refused : ∀ s' result, s.allocate n = some (s', result) → ¬ result.isPresent →
    s'.supply.Perm s.supply
  refusedList : ∀ s', s.allocateList n = some (s', none) → s'.supply.Perm s.supply

/-- The head block is large enough, or the lowest one after merging. -/
def HeadServes (s : PageTableAllocator) (need : Nat) : Prop :=
  (∃ b ∈ (s.mem.spans s.freeBlocks).head?, need ≤ b.size) ∨
    ∃ b ∈ s.coalesced.head?, need ≤ b.size
  deriving Decidable

/-- Where the code is right about `n` blocks: some stretch of `n` blocks is at the head when
there is any, and a size that does not fit 64 bits is too much also after it has wrapped. -/
def Suits (s : PageTableAllocator) (n : Nat) : Prop :=
  0 < n ∧ if n * s.mBlockSize < wordCount then
    (∃ b ∈ s.coalesced, n * s.mBlockSize ≤ b.size) → s.HeadServes (n * s.mBlockSize)
  else s.freeBlocks = [] ∨ s.freeBytes < s.bytesOf n
  deriving Decidable

lemma HeadServes.exists_coalesced (hserves : s.HeadServes need) :
    ∃ b ∈ s.coalesced, need ≤ b.size := by
  rcases hserves with ⟨b, hb, hle⟩ | ⟨b, hb, hle⟩
  · obtain ⟨a, ha, rfl⟩ := mem_map.1 (mem_of_mem_head? hb)
    refine exists_size_le_coalesce ⟨s.mem.span a, mem_map_of_mem ?_, hle⟩
    exact (s.freeBlocks.perm_insertionSort (· ≤ ·)).mem_iff.2 ha
  · exact ⟨b, mem_of_mem_head? hb, hle⟩

/-! ## Requests for one block -/

lemma head_le_of_spans {m : BlockMemory} (hsmall : ∀ b ∈ (m.spans l).head?, b.size < need) :
    ∀ a ∈ l.head?, m.size a < need := by
  intro a ha
  obtain ⟨l, rfl⟩ := head?_eq_some_iff.1 ha
  exact hsmall (m.span a) rfl

lemma exists_head_of_spans {m : BlockMemory} (h : ∃ b ∈ (m.spans l).head?, need ≤ b.size) :
    ∃ a l1, l = a :: l1 ∧ need ≤ m.size a := by
  obtain ⟨b, hb, hle⟩ := h
  cases l with
  | nil => simp at hb
  | cons a l =>
    obtain rfl : m.span a = b := by simpa using hb
    exact ⟨a, l, rfl, hle⟩

lemma allocate_refused (h : s.Free l) (hbs : 0 < s.mBlockSize)
    (hnot : s.bytesOf n = 0 ∨ ¬ s.HeadServes (s.bytesOf n)) :
    ∃ s' l', s.allocate n = some (s', .null) ∧ Serves s l s' l' [] := by
  simp only [HeadServes, not_or, not_exists, not_and, not_le] at hnot
  obtain ⟨s1, l1, hdefragment, hserves1, hmerges⟩ := serves_defragment h hbs
  have hbytes1 : s1.bytesOf n = s.bytesOf n := by
    rw [bytesOf, hserves1.blockSize]
    rfl
  rw [freeBlocks_eq h hbs, ← spans_of_merges h hbs hmerges] at hnot
  have hnone := allocateBlock_refused h (hnot.imp id fun hnot => head_le_of_spans hnot.1)
  have hnone1 :=
    allocateBlock_refused hserves1.free (hnot.imp id fun hnot => head_le_of_spans hnot.2)
  refine ⟨s1, l1, ?_, hserves1⟩
  simp [allocate, hnone, hdefragment, hbytes1, hnone1]

lemma allocate_served (h : s.Free l) (hbs : 0 < s.mBlockSize) (hpos : 0 < s.bytesOf n)
    (hdvd : s.mBlockSize ∣ s.bytesOf n) (hserves : s.HeadServes (s.bytesOf n)) :
    ∃ s' result, s.allocate n = some (s', result) ∧ result.isPresent := by
  by_cases hfirst : ∃ b ∈ (s.mem.spans l).head?, s.bytesOf n ≤ b.size
  · obtain ⟨a, l, rfl, hle⟩ := exists_head_of_spans hfirst
    obtain ⟨s', b, l', hrun, hb, -, -⟩ := allocateBlock_served h hbs hdvd hpos hle
    refine ⟨s', ⟨b, s'.mem.slide b⟩, ?_, hb⟩
    simp [allocate, hrun, hb]
  -- The head is too small, so that it is the head of the merged list that serves.
  rcases hserves with hhead | hmerged
  · rw [freeBlocks_eq h hbs] at hhead
    exact absurd hhead hfirst
  obtain ⟨s1, l1, hdefragment, hserves1, hmerges⟩ := serves_defragment h hbs
  have hbs1 := hserves1.blockSize
  have hbytes1 : s1.bytesOf n = s.bytesOf n := by
    rw [bytesOf, hbs1]
    rfl
  have hnone : s.allocateBlock (s.bytesOf n) = some (s, 0) := by
    refine allocateBlock_refused h (.inr (head_le_of_spans fun b hb => ?_))
    by_contra hle
    exact hfirst ⟨b, hb, not_lt.1 hle⟩
  rw [← spans_of_merges h hbs hmerges] at hmerged
  obtain ⟨a, l2, rfl, hle⟩ := exists_head_of_spans hmerged
  obtain ⟨s', b, l', hrun, hb, -, -⟩ :=
    allocateBlock_served hserves1.free (hbs1 ▸ hbs) (hbs1.symm ▸ hdvd) hpos hle
  refine ⟨s', ⟨b, s'.mem.slide b⟩, ?_, hb⟩
  simp [allocate, hnone, hdefragment, hbytes1, hrun, hb]

/-! ## Requests for a list -/

lemma canAllocateBlocks_eq (need : Nat) (h : s.Free l) (hbs : 0 < s.mBlockSize) :
    canAllocateBlocks s.mem walkLimit s.mHead need =
      some (decide (l ≠ [] ∧ need ≤ (l.map s.mem.size).sum)) := by
  rw [h.head_eq]
  rcases Nat.eq_zero_or_pos need with rfl | hpos
  · obtain ⟨k, hk⟩ : ∃ k, walkLimit = k + 1 := ⟨wordCount + 1, rfl⟩
    cases l with
    | nil => simp [canAllocateBlocks, hk]
    | cons a l =>
      have ha := (h.blocks a (mem_cons_self ..)).ne_zero
      simp [canAllocateBlocks, hk, ha]
  · rw [canAllocateBlocks_spec h.linked h.zero_not_mem hpos (Nat.lt_of_succ_lt (h.length_lt hbs))]
    congr 2
    refine propext ⟨fun hle => ⟨?_, hle⟩, And.right⟩
    rintro rfl
    simp only [map_nil, sum_nil] at hle
    omega

lemma allocateList_refused (h : s.Free l) (hbs : 0 < s.mBlockSize)
    (hnot : l = [] ∨ (l.map s.mem.size).sum < s.bytesOf n) :
    s.allocateList n = some (s, none) := by
  have hcheck := canAllocateBlocks_eq (s.bytesOf n) h hbs
  rw [decide_eq_false (by rintro ⟨hne, hle⟩; exact hnot.elim hne fun hlt => by omega)] at hcheck
  rw [allocateList, hcheck]
  rfl

lemma allocateList_ne_refused (h : s.Free l) (hbs : 0 < s.mBlockSize) (hne : l ≠ [])
    (hle : s.bytesOf n ≤ (l.map s.mem.size).sum) : s.allocateList n ≠ some (s', none) := by
  have hcheck := canAllocateBlocks_eq (s.bytesOf n) h hbs
  rw [decide_eq_true ⟨hne, hle⟩] at hcheck
  rw [allocateList, hcheck]
  simp only [Option.bind_eq_bind, Option.bind_some, if_true]
  intro hrun
  obtain ⟨⟨s1, list1, remaining⟩, -, hrun⟩ := Option.bind_eq_some_iff.1 hrun
  obtain ⟨⟨s2, list2⟩, -, hrun⟩ := Option.bind_eq_some_iff.1 hrun
  simp at hrun

/-! ## Both -/

section

variable (h : s.Free l) (hbs : 0 < s.mBlockSize)

include h hbs

lemma complete_of_small (hn : 0 < n) (hsmall : n * s.mBlockSize < wordCount)
    (hfits : s.mBlockSize = kPageSize ∨ n ≤ 1)
    (hhead : (∃ b ∈ s.coalesced, n * s.mBlockSize ≤ b.size) → s.HeadServes (n * s.mBlockSize)) :
    s.Complete n := by
  have hbytes := bytesOf_eq hsmall
  have hdvd : s.mBlockSize ∣ s.bytesOf n := by
    rw [hbytes]
    exact Nat.dvd_mul_left ..
  have hpos : 0 < s.bytesOf n := by
    rw [hbytes]
    exact Nat.mul_pos hn hbs
  rw [← hbytes] at hhead
  obtain ⟨s1, result, l1, hallocate, hcases⟩ := allocate_spec h hbs hsmall
  have hlist := allocateList_spec h hbs hn hsmall hfits
  have henough : (∃ s' list, s.allocateList n = some (s', some list)) ↔ n ≤ s.supply.length := by
    rw [← Nat.mul_le_mul_right_iff hbs, ← freeBytes_eq h hbs, ← hbytes, freeBytes,
      freeBlocks_eq h hbs]
    constructor
    · rintro ⟨s', list, hrun⟩
      by_contra hlt
      rw [allocateList_refused h hbs (.inr (not_le.1 hlt))] at hrun
      simp at hrun
    · intro hle
      have hne : l ≠ [] := by
        rintro rfl
        simp only [map_nil, sum_nil] at hle
        omega
      rcases hlist with hnone | ⟨s', list, l', given, hrun, -⟩
      · exact absurd hnone (allocateList_ne_refused h hbs hne hle)
      · exact ⟨s', list, hrun⟩
  refine ⟨⟨by simp [hallocate], ?_⟩, ⟨?_, fun hex => ?_⟩, henough, ?_, ?_, ?_⟩
  · rcases hlist with hnone | ⟨s', list, l', given, hrun, -⟩
    · simp [hnone]
    · simp [hrun]
  · rintro ⟨s', r, hrun, hr⟩
    by_contra hnot
    rw [← hbytes] at hnot
    obtain ⟨s2, l2, hnull, -⟩ :=
      allocate_refused h hbs (.inr fun hserves => hnot hserves.exists_coalesced)
    rw [hrun] at hnull
    obtain ⟨-, rfl⟩ : s' = s2 ∧ r = .null := by simpa using hnull
    exact hr rfl
  · rw [← hbytes] at hex
    exact allocate_served h hbs hpos hdvd (hhead hex)
  · intro s' list hrun
    rcases hlist with hnone | ⟨s2, list2, l2, given, hrun2, hholds, hlength, hserves⟩
    · rw [hnone] at hrun
      simp at hrun
    · rw [hrun] at hrun2
      obtain ⟨rfl, rfl⟩ : s' = s2 ∧ list = list2 := by simpa using hrun2
      refine ⟨given, hholds, hlength, ?_, ?_⟩
      · exact (nodup_append.1 (hserves.perm.nodup_iff.2 h.nodup)).2.1
      · rw [supply_eq h hbs]
        exact fun p hp => hserves.given_mem hp
  · intro s' r hrun hr
    rw [hrun] at hallocate
    obtain ⟨rfl, rfl⟩ : s' = s1 ∧ r = result := by simpa using hallocate
    rcases hcases with ⟨-, hserves⟩ | ⟨hne, -, -⟩
    · simpa using supply_of_serves h hbs hserves
    · exact absurd hne hr
  · intro s' hrun
    rcases hlist with hnone | ⟨s2, list2, l2, given, hrun2, -⟩
    · rw [hrun] at hnone
      obtain rfl : s' = s := by simpa using hnone
      exact Perm.refl _
    · rw [hrun] at hrun2
      simp at hrun2

lemma not_complete_zero : ¬ s.Complete 0 := by
  intro hc
  have hbytes : s.bytesOf 0 = 0 := by rw [bytesOf, Nat.zero_mul, Nat.zero_mod]
  cases l with
  | nil =>
    obtain ⟨s', list, hrun⟩ := hc.list.2 (Nat.zero_le _)
    rw [allocateList_refused h hbs (.inl rfl)] at hrun
    simp at hrun
  | cons a l =>
    have hserves : s.HeadServes (0 * s.mBlockSize) := by
      refine .inl ⟨s.mem.span a, ?_, ?_⟩
      · rw [freeBlocks_eq h hbs, spans_cons, head?_cons]
        rfl
      · rw [Nat.zero_mul]
        exact Nat.zero_le _
    obtain ⟨s', r, hrun, hr⟩ := hc.single.2 hserves.exists_coalesced
    obtain ⟨s1, l1, hnull, -⟩ := allocate_refused h hbs (.inl hbytes)
    rw [hrun] at hnull
    obtain ⟨-, rfl⟩ : s' = s1 ∧ r = .null := by simpa using hnull
    exact hr rfl

lemma complete_iff_of_large (htotal : s.freeBytes < wordCount)
    (hlarge : wordCount ≤ n * s.mBlockSize) :
    s.Complete n ↔ l = [] ∨ s.freeBytes < s.bytesOf n := by
  have hmany : ¬ n ≤ s.supply.length := by
    intro hle
    have := Nat.mul_le_mul_right s.mBlockSize hle
    rw [← freeBytes_eq h hbs] at this
    omega
  have hnone : ¬ ∃ b ∈ s.coalesced, n * s.mBlockSize ≤ b.size := by
    rintro ⟨b, hb, hle⟩
    have := coalesced_le_freeBytes hb
    omega
  have hbytes : s.freeBytes = (l.map s.mem.size).sum := by rw [freeBytes, freeBlocks_eq h hbs]
  constructor
  · intro hc
    by_contra hnot
    rw [not_or, not_lt, hbytes] at hnot
    -- The request for a list passes the check, and there is no answer to it but pages.
    obtain ⟨⟨s', list⟩, hrun⟩ := Option.ne_none_iff_exists'.1 hc.returns.2
    cases list with
    | none => exact allocateList_ne_refused h hbs hnot.1 hnot.2 hrun
    | some list => exact hmany (hc.list.1 ⟨s', list, hrun⟩)
  · intro hfew
    have hlist : s.allocateList n = some (s, none) := by
      refine allocateList_refused h hbs ?_
      rw [← hbytes]
      exact hfew
    have hhead : ¬ s.HeadServes (s.bytesOf n) := by
      intro hserves
      obtain ⟨b, hb, hle⟩ := hserves.exists_coalesced
      rcases hfew with rfl | hlt
      · rw [coalesced, freeBlocks_eq h hbs] at hb
        simp [coalesce] at hb
      · have := coalesced_le_freeBytes hb
        omega
    obtain ⟨s1, l1, hallocate, hserves⟩ := allocate_refused h hbs (.inr hhead)
    refine ⟨⟨by simp [hallocate], by simp [hlist]⟩, iff_of_false ?_ hnone, iff_of_false ?_ hmany,
      ?_, ?_, ?_⟩
    · rintro ⟨s', r, hrun, hr⟩
      rw [hrun] at hallocate
      obtain ⟨-, rfl⟩ : s' = s1 ∧ r = .null := by simpa using hallocate
      exact hr rfl
    · simp [hlist]
    · intro s' list hrun
      rw [hlist] at hrun
      simp at hrun
    · intro s' r hrun hr
      rw [hrun] at hallocate
      obtain ⟨rfl, -⟩ : s' = s1 ∧ r = .null := by simpa using hallocate
      simpa using supply_of_serves h hbs hserves
    · intro s' hrun
      rw [hlist] at hrun
      obtain rfl : s = s' := by simpa using hrun
      exact Perm.refl _

lemma complete_iff (haligned : ∀ p ∈ s.pages l, s.mBlockSize ∣ p ∧ p + s.mBlockSize < wordCount)
    (hfits : s.mBlockSize = kPageSize ∨ n ≤ 1) : s.Complete n ↔ s.Suits n := by
  by_cases hsmall : n * s.mBlockSize < wordCount
  · rw [Suits, if_pos hsmall]
    refine ⟨fun hc => ?_, fun hs => complete_of_small h hbs hs.1 hsmall hfits hs.2⟩
    refine ⟨Nat.pos_of_ne_zero fun hzero => ?_, fun hex => ?_⟩
    · exact not_complete_zero h hbs (hzero ▸ hc)
    · by_contra hnot
      rw [← bytesOf_eq hsmall] at hnot
      obtain ⟨s1, l1, hnull, -⟩ := allocate_refused h hbs (.inr hnot)
      obtain ⟨s', r, hrun, hr⟩ := hc.single.2 hex
      rw [hrun] at hnull
      obtain ⟨-, rfl⟩ : s' = s1 ∧ r = .null := by simpa using hnull
      exact hr rfl
  · have hn : 0 < n := by
      refine Nat.pos_of_ne_zero fun hzero => hsmall ?_
      rw [hzero, Nat.zero_mul]
      decide
    rw [Suits, if_neg hsmall, freeBlocks_eq h hbs,
      complete_iff_of_large h hbs (freeBytes_lt h hbs haligned) (not_lt.1 hsmall)]
    exact ⟨fun hfew => ⟨hn, hfew⟩, And.right⟩

end

end PageTableAllocator

namespace TableSystem

open Lib PageTableAllocator

variable {s t : TableSystem}

/-- In every state of every run, the requests for `n` blocks are served for the memory there is
exactly where the code is right about `n` blocks. -/
theorem complete_of_run {memory : AnyRange} {slide blockSize n : Nat} {m : BlockMemory}
    {calls : List OwnerCall} (hcreate : create memory slide blockSize m = .ok s)
    (hmemory : memory.front ≠ 0 ∧ memory.back < wordCount) (hblock : controlBlockSize ≤ blockSize)
    (hrun : Run OwnerStep s calls t) (hfits : t.alloc.mBlockSize = kPageSize ∨ n ≤ 1) :
    t.alloc.Complete n ↔ t.alloc.Suits n := by
  obtain ⟨free, held, h⟩ := balanced_of_ownerRun hcreate hmemory hblock hrun
  exact complete_iff h.freeList h.blockSize h.aligned hfits

/-- Three pages in two pieces: three are served as a list. -/
theorem complete_of_three : ∃ s t, create ⟨0x1000, 0x2000⟩ 0 kPageSize zeroMemory = .ok s ∧
    Run OwnerStep s [.client (.addMemory ⟨0x3000, 0x5000⟩)] t ∧ t.alloc.Complete 3 := by
  have hsome : (fragmented.bind fun t =>
      if t.alloc.mBlockSize = kPageSize ∧ t.alloc.Suits 3 then some () else none).isSome = true := by
    decide +kernel
  obtain ⟨u, hu⟩ := Option.isSome_iff_exists.1 hsome
  obtain ⟨t, ht, hu⟩ := Option.bind_eq_some_iff.1 hu
  obtain ⟨hpage, hsuits⟩ : t.alloc.mBlockSize = kPageSize ∧ t.alloc.Suits 3 := by
    by_contra hnot
    rw [if_neg hnot] at hu
    cases hu
  obtain ⟨s, hcreate, hrun⟩ := run_of_fragmented ht
  refine ⟨s, t, hcreate, hrun, ?_⟩
  exact (complete_of_run hcreate (by decide) (by decide) hrun (.inl hpage)).2 hsuits

/-- Two pages are refused although there is a block of two pages behind the head. -/
theorem not_complete_of_two : ∃ s t, create ⟨0x1000, 0x2000⟩ 0 kPageSize zeroMemory = .ok s ∧
    Run OwnerStep s [.client (.addMemory ⟨0x3000, 0x5000⟩)] t ∧ ¬ t.alloc.Complete 2 := by
  have hsome : (fragmented.bind fun t => (t.alloc.allocate 2).bind fun r =>
      if ¬ r.2.isPresent ∧ ∃ b ∈ t.alloc.coalesced, 2 * t.alloc.mBlockSize ≤ b.size then some ()
      else none).isSome = true := by
    decide +kernel
  obtain ⟨u, hu⟩ := Option.isSome_iff_exists.1 hsome
  obtain ⟨t, ht, hu⟩ := Option.bind_eq_some_iff.1 hu
  obtain ⟨⟨alloc, result⟩, hallocate, hu⟩ := Option.bind_eq_some_iff.1 hu
  obtain ⟨hnull, hblock⟩ :
      ¬ result.isPresent ∧ ∃ b ∈ t.alloc.coalesced, 2 * t.alloc.mBlockSize ≤ b.size := by
    by_contra hnot
    rw [if_neg hnot] at hu
    cases hu
  obtain ⟨s, hcreate, hrun⟩ := run_of_fragmented ht
  refine ⟨s, t, hcreate, hrun, fun hc => ?_⟩
  obtain ⟨alloc', result', hallocate', hpresent⟩ := hc.single.2 hblock
  rw [hallocate] at hallocate'
  obtain ⟨-, rfl⟩ : alloc = alloc' ∧ result = result' := by simpa using hallocate'
  exact hnull hpresent

end TableSystem
end BezOS
