import BezOS.Lib.Tiling
import BezOS.Memory.TlsfEdits

/-!
# Well-formed heaps

`Formed h base rs lists spare` is the state of a heap between two edits: the blocks `rs` tile the
`mSize` bytes from `base` on and the lists are those of their sizes. `Wellformed` adds what holds
between two calls: no two neighbours are free. Here also is the abstract state of a heap, the used
pieces of the tiling, which determine the whole.
-/

namespace BezOS
namespace Tlsf

open Lib List Region

def Region.piece (r : Region) : Piece := ⟨r.offset, r.size, r.used⟩

def pieces (rs : List Region) : List Piece := rs.map piece

@[simp] lemma pieces_nil : pieces [] = [] := rfl

@[simp] lemma pieces_cons (r : Region) (rs : List Region) :
    pieces (r :: rs) = r.piece :: pieces rs := rfl

@[simp] lemma pieces_append (x y : List Region) : pieces (x ++ y) = pieces x ++ pieces y :=
  map_append

lemma piece_mem {rs : List Region} {r : Region} (hr : r ∈ rs) : r.piece ∈ pieces rs :=
  mem_map_of_mem hr

lemma pieces_eq_nil {rs : List Region} : pieces rs = [] ↔ rs = [] := map_eq_nil_iff

lemma pieces_getLast? (rs : List Region) :
    (pieces rs).getLast? = rs.getLast?.map piece := getLast?_map ..

/-- What the source assumes of a heap it has made: the lists are as many as the size asks for, and
the size is one for which every index is in bounds. The back of the range is an address. -/
structure Limits (h : TlsfHeap) (base : Nat) : Prop where
  count : h.mFreeListCount = freeListCount h.mSize
  large : 256 < h.mSize
  small : h.mSize < 2 ^ 38
  word : base + h.mSize < wordCount

structure Formed (h : TlsfHeap) (base : Nat) (rs : List Region) (lists : Nat → List BlockPtr)
    (spare : List BlockPtr) : Prop where
  repr : Represents h rs lists spare
  tiling : Tiling base h.mSize (pieces rs)
  limits : Limits h base

structure Wellformed (h : TlsfHeap) (base : Nat) (rs : List Region) (lists : Nat → List BlockPtr)
    (spare : List BlockPtr) : Prop extends Formed h base rs lists spare where
  coalesced : Coalesced (pieces rs)

variable {h h' : TlsfHeap} {base : Nat} {rs l t : List Region} {r : Region}
  {lists : Nat → List BlockPtr} {spare : List BlockPtr} {c : BlockPtr}

lemma Limits.keeps (hl : Limits h base) (hk : Keeps h h') : Limits h' base :=
  ⟨by rw [hk.mFreeListCount, hk.mSize, hl.count], by rw [hk.mSize]; exact hl.large,
    by rw [hk.mSize]; exact hl.small, by rw [hk.mSize]; exact hl.word⟩

lemma Limits.safe (hl : Limits h base) {n : Nat} (hn : n ≤ h.mSize) :
    BlockIndicesSafe h.mFreeListCount n := by
  rw [hl.count]
  exact blockIndicesSafe hn hl.large hl.small

structure Stays (h h' : TlsfHeap) : Prop extends Keeps h h' where
  mNullBlock : h'.mNullBlock = h.mNullBlock
  grants : h'.mBlockPool.grants = h.mBlockPool.grants

namespace Stays

lemma refl (h : TlsfHeap) : Stays h h := ⟨.refl h, rfl, rfl⟩

lemma trans {h'' : TlsfHeap} (h1 : Stays h h') (h2 : Stays h' h'') : Stays h h'' :=
  ⟨h1.toKeeps.trans h2.toKeeps, h2.mNullBlock.trans h1.mNullBlock, h2.grants.trans h1.grants⟩

lemma of_header (heq : h'.header = h.header) : Stays h h' :=
  ⟨.of_header heq, congrArg Header.mNullBlock heq,
    congrArg PoolAllocator.grants (congrArg Header.mBlockPool heq)⟩

lemma edit (h : TlsfHeap) (p : Option BlockPtr) (f : TlsfBlock → TlsfBlock) :
    Stays h (h.edit p f) := .of_header rfl

end Stays

/-- The used regions of a chain: the live allocations of the heap. -/
def usedRegions (rs : List Region) : List Region := rs.filter Region.used

@[simp] lemma usedRegions_append (x y : List Region) :
    usedRegions (x ++ y) = usedRegions x ++ usedRegions y := filter_append ..

@[simp] lemma usedRegions_nil : usedRegions [] = [] := rfl

lemma usedRegions_used (hr : r.used = true) : usedRegions (r :: rs) = r :: usedRegions rs :=
  filter_cons_of_pos hr

lemma usedRegions_free (hr : r.used = false) : usedRegions (r :: rs) = usedRegions rs :=
  filter_cons_of_neg (by simp [hr])

lemma live_pieces (rs : List Region) : live (pieces rs) = pieces (usedRegions rs) :=
  filter_map ..

namespace Formed

section

variable (hf : Formed h base rs lists spare)

include hf

lemma of_represents {rs' : List Region} {lists' : Nat → List BlockPtr} {spare' : List BlockPtr}
    (hr : Represents h' rs' lists' spare') (hk : Keeps h h') (ht : Tiling base h.mSize (pieces rs'))
    : Formed h' base rs' lists' spare' :=
  ⟨hr, by rw [hk.mSize]; exact ht, hf.limits.keeps hk⟩

lemma size_le (hr : r ∈ rs) : r.size ≤ h.mSize := by
  have hbounds := hf.tiling.bounds (piece_mem hr)
  simp only [piece] at hbounds
  omega

lemma back_lt (hr : r ∈ rs) :
    r.offset + r.size < wordCount := by
  have hbounds := hf.tiling.bounds (piece_mem hr)
  have hword := hf.limits.word
  simp only [piece] at hbounds
  omega

lemma safe (hr : r ∈ rs) :
    BlockIndicesSafe h.mFreeListCount r.size := hf.limits.safe (hf.size_le hr)

end

section

variable (hf : Formed h base (l ++ r :: t) lists spare)

include hf

lemma positive (hnull : r.block ≠ h.mNullBlock) :
    0 < r.size := by
  have ht : t ≠ [] := fun ht => hnull (hf.repr.null_iff.2 ht)
  have htiling := hf.tiling
  rw [show l ++ r :: t = (l ++ [r]) ++ t by simp, pieces_append] at htiling
  exact htiling.positive_of_append (p := r.piece) (by rwa [ne_eq, pieces_eq_nil]) (by simp)

lemma used_ne_null (hused : r.used = true) :
    r.block ≠ h.mNullBlock := by
  intro hnull
  obtain rfl : t = [] := hf.repr.null_iff.1 hnull
  rw [hf.repr.null_used] at hused
  cases hused

lemma take (hfree : r.used = false) (hnull : r.block ≠ h.mNullBlock) :
    ∃ h', takeBlockFromFreeList r.block h = .ok ((), h') ∧ h'.header = h.header ∧
      Formed h' base (l ++ { r with used := true } :: t) (unlist lists r) spare := by
  obtain ⟨h', hrun, hheader, hr'⟩ := hf.repr.take hfree hnull (hf.positive hnull) (hf.safe (by simp))
  refine ⟨h', hrun, hheader, hf.of_represents hr' (.of_header hheader) ?_⟩
  have htiling := hf.tiling
  rw [pieces_append, pieces_cons] at htiling ⊢
  exact htiling.congr rfl rfl

lemma release (hused : r.used = true) :
    ∃ h', releaseBlockToFreeList r.block h = .ok ((), h') ∧ h'.header = h.header ∧
      Formed h' base (l ++ { r with used := false } :: t) (enlist lists r) spare := by
  have hnull := hf.used_ne_null hused
  obtain ⟨h', hrun, hheader, hr'⟩ :=
    hf.repr.release hused hnull (hf.positive hnull) (hf.safe (by simp))
  refine ⟨h', hrun, hheader, hf.of_represents hr' (.of_header hheader) ?_⟩
  have htiling := hf.tiling
  rw [pieces_append, pieces_cons] at htiling ⊢
  exact htiling.congr rfl rfl

end

lemma merge {p b : Region} (hf : Formed h base (l ++ p :: b :: t) lists spare)
    (hp : p.used = true) (hb : b.used = true ∨ b.block = h.mNullBlock) :
    ∃ h', mergeBlock b.block p.block h = .ok ((), h') ∧ Stays h h' ∧
      Formed h' base (l ++ ⟨b.block, p.offset, b.size + p.size, b.used⟩ :: t) lists spare := by
  obtain ⟨h', hrun, hnull, hgrants, hkeeps, hr'⟩ := hf.repr.merge hp hb
  refine ⟨h', hrun, ⟨hkeeps, hnull, hgrants⟩, hf.of_represents hr' hkeeps ?_⟩
  have htiling := hf.tiling
  rw [pieces_append, pieces_cons, pieces_cons] at htiling
  rw [pieces_append, pieces_cons]
  exact htiling.join rfl rfl

lemma recount (hf : Formed h base rs lists spare) (q m n : Nat) :
    Formed { h with mReserved := q, mMallocCount := m, mFreeCount := n } base rs lists spare := by
  obtain ⟨hr, htiling, hlimits⟩ := hf
  refine ⟨?_, htiling, ⟨hlimits.count, hlimits.large, hlimits.small, hlimits.word⟩⟩
  exact ⟨hr.laid, hr.nodup, hr.objects, hr.marks, hr.null, hr.nullFree, hr.nullLink,
    ⟨hr.listed.thread, hr.listed.nodup, hr.listed.disjoint, hr.listed.object,
      ⟨hr.listed.headed.head, hr.listed.headed.inner, hr.listed.headed.top⟩⟩,
    hr.member, hr.only, hr.pool, hr.occupied⟩

end Formed

namespace Wellformed

lemma packed (hw : Wellformed h base rs lists spare) : Packed base h.mSize (pieces rs) := by
  refine ⟨hw.tiling, hw.coalesced, ?_⟩
  obtain ⟨init, n, rfl⟩ : ∃ init n, rs = init ++ [n] := by
    rcases eq_nil_or_concat rs with rfl | ⟨init, n, rfl⟩
    · have hnull := hw.repr.null
      cases hnull
    · exact ⟨init, n, by simp⟩
  refine ⟨n.piece, by simp, hw.repr.null_used⟩

end Wellformed

end Tlsf
end BezOS

/-!
## Freeing

`free` marks a block free and merges it with the free blocks at its two ends. On a well-formed heap
it always returns, leaves a well-formed heap, and takes the block out of the live allocations, of
which no other one changes.
-/

namespace BezOS
namespace Tlsf

open Lib

variable {h h' : TlsfHeap} {base : Nat} {rs l t : List Region} {r n : Region}
  {lists : Nat → List BlockPtr} {spare : List BlockPtr}

/-- What `free` has done to the blocks before `r`: a free one went into it. -/
inductive MergedBefore (l : List Region) (r : Region) (lists : Nat → List BlockPtr) :
    List Region → Region → (Nat → List BlockPtr) → Prop where
  | kept (hl : ∀ p ∈ l.getLast?, p.used = true) : MergedBefore l r lists l r lists
  | merged {l1 : List Region} {p : Region} (hl : l = l1 ++ [p]) (hp : p.used = false) :
      MergedBefore l r lists l1 ⟨r.block, p.offset, r.size + p.size, true⟩ (unlist lists p)

lemma mergeFreeBefore_run (hf : Formed h base (l ++ r :: t) lists spare) (hused : r.used = true) :
    ∃ h' l1 r1 lists1, mergeFreeBefore r.block (blocksOf l).getLast? h = .ok ((), h') ∧ Stays h h' ∧
      Formed h' base (l1 ++ r1 :: t) lists1 spare ∧ MergedBefore l r lists l1 r1 lists1 ∧
      r1.block = r.block ∧ r1.used = true := by
  rcases List.eq_nil_or_concat l with rfl | ⟨l1, p, rfl⟩
  · exact ⟨h, [], r, lists, rfl, .refl h, hf, .kept (by simp), rfl, hused⟩
  · rw [List.concat_eq_append] at *
    have hlast : (blocksOf (l1 ++ [p])).getLast? = some p.block := by simp
    have hf' : Formed h base (l1 ++ p :: r :: t) lists spare := by simpa using hf
    obtain ⟨k, hk⟩ := hf'.repr.stores
    rw [hlast, mergeFreeBefore, bind_run (deref_run hk.block), hk.free]
    cases hp : p.used with
    | true =>
      refine ⟨h, l1 ++ [p], r, lists, rfl, .refl h, hf, .kept ?_, rfl, hused⟩
      simpa using hp
    | false =>
      have hnull : p.block ≠ h.mNullBlock := fun heq => by
        have hnil := hf'.repr.null_iff.1 heq
        cases hnil
      obtain ⟨h1, htake, hheader, hf1⟩ := hf'.take hp hnull
      obtain ⟨h2, hmerge, hstays, hf2⟩ := hf1.merge rfl (.inl hused)
      rw [hused] at hf2
      refine ⟨h2, l1, _, _, ?_, (Stays.of_header hheader).trans hstays, hf2,
        .merged (p := p) rfl hp, rfl, rfl⟩
      simp only [Bool.not_false, if_true]
      rw [bind_run htake]
      exact hmerge

/-- What `free` has done with `r` and the block `n` after it: `r` is free, alone or as the first
part of `n`. -/
inductive MergedAfter (h : TlsfHeap) (r n : Region) (t : List Region)
    (lists : Nat → List BlockPtr) : Region → List Region → (Nat → List BlockPtr) → Prop where
  | kept (hn : n.used = true) :
      MergedAfter h r n t lists { r with used := false } (n :: t) (enlist lists r)
  | null (hn : n.used = false) (hnull : n.block = h.mNullBlock) :
      MergedAfter h r n t lists ⟨n.block, r.offset, n.size + r.size, false⟩ t lists
  | merged (hn : n.used = false) (hnull : n.block ≠ h.mNullBlock) :
      MergedAfter h r n t lists ⟨n.block, r.offset, n.size + r.size, false⟩ t
        (enlist (unlist lists n) ⟨n.block, r.offset, n.size + r.size, true⟩)

lemma mergeFreeAfter_run (hf : Formed h base (l ++ r :: n :: t) lists spare)
    (hused : r.used = true) :
    ∃ h' f t' lists', mergeFreeAfter r.block n.block h = .ok ((), h') ∧ Stays h h' ∧
      Formed h' base (l ++ f :: t') lists' spare ∧ MergedAfter h r n t lists f t' lists' := by
  have hf' : Formed h base ((l ++ [r]) ++ n :: t) lists spare := by simpa using hf
  obtain ⟨k, hk⟩ := hf'.repr.stores
  rw [mergeFreeAfter, bind_run (deref_run hk.block), bind_run get_run, hk.free]
  cases hn : n.used with
  | true =>
    obtain ⟨h1, hrelease, hheader, hf1⟩ := hf.release hused
    exact ⟨h1, _, _, _, hrelease, .of_header hheader, hf1, .kept hn⟩
  | false =>
    simp only [Bool.not_false, if_true]
    by_cases hnull : n.block = h.mNullBlock
    · rw [if_pos hnull]
      obtain ⟨h1, hmerge, hstays, hf1⟩ := hf.merge hused (.inr hnull)
      rw [hn] at hf1
      exact ⟨h1, _, _, _, hmerge, hstays, hf1, .null hn hnull⟩
    · rw [if_neg hnull]
      obtain ⟨h1, htake, hheader, hf1⟩ := hf'.take hn hnull
      have hf1' : Formed h1 base (l ++ r :: { n with used := true } :: t) (unlist lists n) spare := by
        simpa using hf1
      obtain ⟨h2, hmerge, hstays, hf2⟩ := hf1'.merge hused (.inl rfl)
      obtain ⟨h3, hrelease, hheader3, hf3⟩ := hf2.release rfl
      refine ⟨h3, _, _, _, ?_, ?_, hf3, .merged hn hnull⟩
      · rw [bind_run htake, bind_run hmerge]
        exact hrelease
      · exact ((Stays.of_header hheader).trans hstays).trans (.of_header hheader3)

lemma MergedBefore.rest {l1 : List Region} {r1 : Region} {lists1 : Nat → List BlockPtr}
    (hm : MergedBefore l r lists l1 r1 lists1) (hc : Coalesced (pieces l)) :
    Coalesced (pieces l1) ∧ usedRegions l1 = usedRegions l ∧
      ∀ p ∈ (pieces l1).getLast?, p.used = true := by
  cases hm with
  | kept hl =>
    refine ⟨hc, rfl, fun p hp => ?_⟩
    rw [pieces_getLast?] at hp
    obtain ⟨q, hq, rfl⟩ := Option.map_eq_some_iff.1 hp
    exact hl q hq
  | @merged _ p hl hp =>
    subst hl
    rw [pieces_append, pieces_cons, coalesced_middle] at hc
    refine ⟨hc.1, by simp [usedRegions_free hp], fun q hq => ?_⟩
    exact (hc.2.2.1 q hq).resolve_right (by simp [Region.piece, hp])

lemma MergedAfter.rest {f : Region} {t' : List Region} {lists' : Nat → List BlockPtr}
    (hm : MergedAfter h r n t lists f t' lists') (hc : Coalesced (pieces (n :: t))) :
    Coalesced (pieces t') ∧ usedRegions t' = usedRegions (n :: t) ∧ f.used = false ∧
      ∀ p ∈ (pieces t').head?, p.used = true := by
  have hfree : n.used = false → Coalesced (pieces t) ∧ usedRegions t = usedRegions (n :: t) ∧
      ∀ p ∈ (pieces t).head?, p.used = true := by
    intro hn
    have hc' := coalesced_middle (x := []) |>.1 hc
    refine ⟨hc'.2.1, (usedRegions_free hn).symm, fun q hq => ?_⟩
    exact (hc'.2.2.2 q hq).resolve_left (by simp [Region.piece, hn])
  cases hm with
  | kept hn =>
    refine ⟨hc, rfl, rfl, fun p hp => ?_⟩
    obtain rfl : n.piece = p := by simpa using hp
    exact hn
  | null hn _ => exact ⟨(hfree hn).1, (hfree hn).2.1, rfl, (hfree hn).2.2⟩
  | merged hn _ => exact ⟨(hfree hn).1, (hfree hn).2.1, rfl, (hfree hn).2.2⟩

lemma free_run (hw : Wellformed h base (l ++ r :: t) lists spare) (hused : r.used = true) :
    ∃ h' rs' lists', free r.block h = .ok ((), h') ∧ Wellformed h' base rs' lists' spare ∧
      usedRegions rs' = usedRegions l ++ usedRegions t ∧ h'.mSize = h.mSize := by
  have hnull := hw.used_ne_null hused
  obtain ⟨n, t, rfl⟩ : ∃ n t', t = n :: t' :=
    List.exists_cons_of_ne_nil fun ht => hnull (hw.repr.null_iff.2 ht)
  obtain ⟨k, hk⟩ := hw.repr.stores
  obtain ⟨h1, l1, r1, lists1, hbefore, hstays1, hf1, hmerged1, hblock1, hused1⟩ :=
    mergeFreeBefore_run hw.toFormed hused
  obtain ⟨h2, f, t', lists2, hafter, hstays2, hf2, hmerged2⟩ := mergeFreeAfter_run hf1 hused1
  have hcoalesced := hw.coalesced
  rw [pieces_append, pieces_cons, coalesced_used hused] at hcoalesced
  obtain ⟨hcl, hul, hlast⟩ := hmerged1.rest hcoalesced.1
  obtain ⟨hct, hut, hfree, hhead⟩ := hmerged2.rest hcoalesced.2
  refine ⟨{ h2 with mFreeCount := h2.mFreeCount + 1 }, l1 ++ f :: t', lists2, ?_, ⟨?_, ?_⟩, ?_, ?_⟩
  · have hcheck : (!k.isFree r.block) = true := by rw [hk.free, hused]; rfl
    have hnext : k.next = some n.block := by rw [hk.next]; simp
    rw [free, bind_run (deref_run hk.block), bind_run (check_run hcheck), hk.prev,
      bind_run hbefore, hnext, bind_run nonNull_run, ← hblock1, bind_run hafter]
    rfl
  · exact hf2.recount h2.mReserved h2.mMallocCount (h2.mFreeCount + 1)
  · rw [pieces_append, pieces_cons, coalesced_middle]
    exact ⟨hcl, hct, fun p hp => .inl (hlast p hp), fun p hp => .inr (hhead p hp)⟩
  · rw [usedRegions_append, usedRegions_free hfree, hul, hut]
  · exact hstays2.mSize.trans hstays1.mSize

end Tlsf
end BezOS
