import BezOS.Memory.FreeBlocks

/-!
# Sorting and merging a list of blocks

`sortBlocks` and `mergeAdjacentBlocks` as a whole, on any doubly linked list of blocks that share
no byte. Blocks are joined when the second one starts where the first one ends and both have the
same slide: two neighbours that map to different places of the physical memory stay apart.
-/

namespace BezOS
namespace BlockMemory

open Lib Span List

variable {m m' : BlockMemory} {l l' : List Nat} {a b : Nat}

structure BlockList (m : BlockMemory) (l : List Nat) : Prop where
  linked : Linked m.next m.prev 0 l
  first : ∀ a ∈ l.head?, m.prev a = 0
  fits : ∀ a ∈ l, Fits m a
  apart : l.Pairwise fun a b => a + m.size a ≤ b ∨ b + m.size b ≤ a

namespace BlockList

section

variable (h : BlockList m l)

include h

lemma zero_not_mem : 0 ∉ l := fun hmem => (h.fits 0 hmem).ne_zero rfl

lemma nodup : l.Nodup := by
  refine h.apart.imp_of_mem ?_
  rintro a b ha - hapart rfl
  have hpos := (h.fits a ha).pos
  omega

lemma head_eq {fuel : Nat} (ha : a ∈ l) (hfuel : l.length < fuel) :
    m.head fuel a = some (l.headD 0) := by
  obtain ⟨x, y, rfl⟩ := append_of_mem ha
  refine head_spec h.linked h.zero_not_mem h.first ?_
  simp only [length_append] at hfuel
  omega

lemma ascending (hsorted : l.Pairwise (· < ·)) : Ascending (spans m l) where
  positive := forall_mem_map.2 fun a ha => (h.fits a ha).pos
  pairwise := by
    rw [spans, pairwise_map]
    refine (h.apart.and hsorted).imp_of_mem ?_
    rintro a b ha hb ⟨hapart, hlt⟩
    simp only [span, back]
    omega

end

lemma of_ascending (hlinked : Linked m'.next m'.prev 0 l')
    (hfirst : ∀ a ∈ l'.head?, m'.prev a = 0) (hfits : ∀ a ∈ l', Fits m' a)
    (hasc : Ascending (spans m' l')) : BlockList m' l' where
  linked := hlinked
  first := hfirst
  fits := hfits
  apart := by
    have hpair := hasc.pairwise
    rw [spans, pairwise_map] at hpair
    exact hpair.imp .inl

end BlockList

lemma sortBlocks_spec {fuel : Nat} (h : BlockList m l) (ha : a ∈ l) (hfuel : l.length < fuel) :
    ∃ m' l', m.sortBlocks fuel a = some m' ∧ BlockList m' l' ∧ l'.Perm l ∧
      l'.Pairwise (· < ·) ∧ Relinks l m m' := by
  obtain ⟨m', l', hrun, hperm, hsorted, hlinked, hfirst, hrel⟩ :=
    quicksort_spec (AlmostLinked.of_linked h.linked h.nodup h.zero_not_mem) h.zero_not_mem hfuel
  refine ⟨m', l', ?_, ⟨hlinked, hfirst, ?_, ?_⟩, hperm, hsorted, hrel⟩
  · rw [sortBlocks, h.head_eq ha hfuel]
    exact hrun
  · exact fun c hc => (h.fits c (hperm.mem_iff.1 hc)).congr (by rw [hrel.size])
  · rw [hrel.size]
    exact (hperm.pairwise_iff fun hab => hab.symm).2 h.apart

/-- A span inside the address space, away from the null pointer. -/
def Inside (s : Span Nat) : Prop := s.front ≠ 0 ∧ 0 < s.size ∧ s.back ≤ wordCount

lemma inside_span : Inside (m.span a) ↔ Fits m a :=
  ⟨fun ⟨hzero, hpos, hbound⟩ => ⟨hzero, hpos, hbound⟩,
    fun h => ⟨h.ne_zero, h.pos, h.bound⟩⟩

lemma Inside.join {s t : Span Nat} (hs : Inside s) (ht : Inside t) (h : s.Touches t) :
    Inside (s.join t) := by
  refine ⟨hs.1, Nat.add_pos_left hs.2.1 _, ?_⟩
  rw [join_back h]
  exact ht.2.2

lemma mergeAdjacentBlocks_sorted {fuel : Nat} (h : BlockList m (a :: l))
    (hsorted : (a :: l).Pairwise (· < ·)) (hfuel : (a :: l).length < fuel) :
    ∃ m' l', mergeAdjacentBlocks fuel m a = some m' ∧ BlockList m' (a :: l') ∧
      spans m' (a :: l') = coalesce (spans m (a :: l)) ∧ Untouched (a :: l) m m' := by
  obtain ⟨m', l', hrun, hlinked, hprev, hspans, hsame⟩ :=
    mergeAdjacentBlocks_run h.linked h.fits h.nodup hfuel
  have hasc := ascending_coalesceFrom (h.ascending hsorted)
  rw [← spans, ← hspans] at hasc
  refine ⟨m', l', hrun, BlockList.of_ascending hlinked ?_ ?_ hasc, hspans, hsame⟩
  · intro c hc
    obtain rfl : a = c := by simpa using hc
    exact hprev.trans (h.first a rfl)
  · intro c hc
    have hmem : m'.span c ∈ coalesceFrom (m.span a) (spans m l) :=
      hspans ▸ mem_map_of_mem hc
    refine inside_span.1 (forall_coalesceFrom (fun s t => Inside.join) ?_ _ hmem)
    exact forall_mem_map.2 fun d hd => inside_span.2 (h.fits d hd)

lemma slide_ne_of_separate (hasc : Ascending (spans m l)) (hsep : Separate (spans m l))
    (ha : a ∈ l) (hb : b ∈ l) (hadj : a + m.size a = b) : m.slide a ≠ m.slide b := by
  intro hslide
  have hpos := hasc.positive (m.span a) (mem_map_of_mem ha)
  have hposb := hasc.positive (m.span b) (mem_map_of_mem hb)
  have hne : m.span a ≠ m.span b := by
    intro heq
    have hfront : a = b := congrArg front heq
    simp only [span] at hpos
    omega
  have hrelated := pairwise_related (hasc.pairwise.and hsep)
    (mem_map_of_mem ha) (mem_map_of_mem hb) hne
  rcases hrelated with ⟨-, hnot⟩ | ⟨hback, -⟩
  · exact hnot ⟨hadj, hslide⟩
  · simp only [span, back] at hback hpos hposb
    omega

structure Normalised (m : BlockMemory) (l : List Nat) (m' : BlockMemory) (l' : List Nat) :
    Prop where
  list : BlockList m' l'
  sorted : l'.Pairwise (· < ·)
  /-- The same bytes with the same slides. -/
  covers : ∀ p slide, Covers (spans m' l') p slide ↔ Covers (spans m l) p slide
  /-- Where a block starts at the end of another, it has another slide. -/
  separate : ∀ a ∈ l', ∀ b ∈ l', a + m'.size a = b → m'.slide a ≠ m'.slide b

lemma pairwise_lt_of_ascending (h : Ascending (spans m l)) : l.Pairwise (· < ·) := by
  have hpair := h.pairwise
  rw [spans, pairwise_map] at hpair
  refine hpair.imp_of_mem ?_
  intro a b ha _ hle
  have hpos := h.positive (m.span a) (mem_map_of_mem ha)
  simp only [span, back] at hle hpos
  omega

/-- Sorted from any of its blocks the list has the blocks it had, in increasing order; merged from
its first block it has the bytes it had, in blocks that could not be joined further. -/
theorem sortBlocks_mergeAdjacentBlocks {fuel : Nat} (h : BlockList m l) (ha : a ∈ l)
    (hfuel : l.length < fuel) :
    ∃ m1 l1, m.sortBlocks fuel a = some m1 ∧ BlockList m1 l1 ∧ l1.Pairwise (· < ·) ∧
      (spans m1 l1).Perm (spans m l) ∧ m1.head fuel a = some (l1.headD 0) ∧
      ∃ m2 l2, m1.mergeAdjacentBlocks fuel (l1.headD 0) = some m2 ∧
        l2.headD 0 = l1.headD 0 ∧ Normalised m l m2 l2 ∧ Untouched l m m2 := by
  obtain ⟨m1, l1, hsort, hlist1, hperm, hsorted, hrel⟩ := sortBlocks_spec h ha hfuel
  have hlength : l1.length < fuel := hperm.length_eq ▸ hfuel
  have hspans1 : (spans m1 l1).Perm (spans m l) := by
    rw [spans_congr (m := m) (fun _ _ => by rw [hrel.size]) fun _ _ => by rw [hrel.slide]]
    exact hperm.map _
  refine ⟨m1, l1, hsort, hlist1, hsorted, hspans1, hlist1.head_eq (hperm.mem_iff.2 ha) hlength, ?_⟩
  obtain ⟨b, r, rfl⟩ : ∃ b r, l1 = b :: r :=
    exists_cons_of_ne_nil (ne_nil_of_mem (hperm.mem_iff.2 ha))
  obtain ⟨m2, r', hmerge, hlist2, hspans2, hsame⟩ :=
    mergeAdjacentBlocks_sorted hlist1 hsorted hlength
  have hasc : Ascending (spans m2 (b :: r')) := by
    rw [hspans2]
    exact ascending_coalesce (hlist1.ascending hsorted)
  have hsep : Separate (spans m2 (b :: r')) := by
    rw [hspans2]
    exact separate_coalesce (hlist1.ascending hsorted)
  refine ⟨m2, b :: r', hmerge, rfl, ⟨hlist2, pairwise_lt_of_ascending hasc, ?_, ?_⟩,
    hrel.untouched.trans (hsame.mono hperm.subset)⟩
  · intro p slide
    rw [hspans2, covers_coalesce, covers_perm hspans1]
  · exact fun c hc d hd => slide_ne_of_separate hasc hsep hc hd

def neighbours : BlockMemory where
  next a := if a = 8192 then 4096 else 0
  prev a := if a = 4096 then 8192 else 0
  size _ := 4096
  slide a := if a = 4096 then 0 else 65536

lemma neighbours_blockList : BlockList neighbours [8192, 4096] where
  linked := by simp [Linked.cons_cons_iff, neighbours]
  first := by simp [neighbours]
  fits := by
    intro a ha
    simp only [mem_cons, not_mem_nil, or_false] at ha
    rcases ha with rfl | rfl <;> exact ⟨by decide, by decide, by decide⟩
  apart := by simp [neighbours]

theorem sortBlocks_mergeAdjacentBlocks_neighbours :
    BlockList neighbours [8192, 4096] ∧
      ∃ m1 l1, neighbours.sortBlocks 3 4096 = some m1 ∧ BlockList m1 l1 ∧
        l1.Pairwise (· < ·) ∧ (spans m1 l1).Perm (spans neighbours [8192, 4096]) ∧
        m1.head 3 4096 = some (l1.headD 0) ∧
        ∃ m2 l2, m1.mergeAdjacentBlocks 3 (l1.headD 0) = some m2 ∧
          l2.headD 0 = l1.headD 0 ∧ Normalised neighbours [8192, 4096] m2 l2 ∧
          Untouched [8192, 4096] neighbours m2 :=
  ⟨neighbours_blockList,
    sortBlocks_mergeAdjacentBlocks neighbours_blockList (by decide) (by decide)⟩

/-- They are not joined: the first block ends where the second one begins. -/
theorem neighbours_stay_apart : ¬ ∀ (m : BlockMemory) (l : List Nat) (a fuel : Nat),
    BlockList m l → a ∈ l → l.length < fuel →
      ∃ m1 first m2 l2, m.sortBlocks fuel a = some m1 ∧ m1.head fuel a = some first ∧
        m1.mergeAdjacentBlocks fuel first = some m2 ∧ BlockList m2 (first :: l2) ∧
        (∀ p slide, Covers (spans m2 (first :: l2)) p slide ↔ Covers (spans m l) p slide) ∧
        ∀ a ∈ first :: l2, ∀ b ∈ first :: l2, a + m2.size a ≠ b := by
  intro hall
  obtain ⟨m1, first, m2, l2, hsort, hhead, hmerge, hlist, -, hno⟩ :=
    hall neighbours [8192, 4096] 4096 3 neighbours_blockList (by decide) (by decide)
  have hrun : (do
      let m1 ← neighbours.sortBlocks 3 4096
      let first ← m1.head 3 4096
      let m2 ← m1.mergeAdjacentBlocks 3 first
      return (first, m2.next first, m2.size first)) = some (4096, 8192, 4096) := by decide
  rw [hsort, Option.bind_eq_bind, Option.bind_some, hhead, Option.bind_eq_bind, Option.bind_some,
    hmerge] at hrun
  simp only [Option.bind_some, Option.pure_def, Option.some.injEq,
    Prod.mk.injEq] at hrun
  obtain ⟨rfl, hnext, hsize⟩ := hrun
  -- the second block of the list is the one the first one points at
  have hsecond : 8192 ∈ l2 := by
    rw [hlist.linked.next_head] at hnext
    cases l2 with
    | nil => simp at hnext
    | cons b l2 => simp_all
  exact hno 4096 (by simp) 8192 (by simp [hsecond]) (by rw [hsize])

end BlockMemory
end BezOS
