import BezOS.Memory.TlsfRuns

/-!
# Resetting a heap

`reset` merges the block before the null block into the null block, and goes on from the block
before that one instead of from the null block again. So only every second block is merged into
its neighbour, and the lists are not touched. The heap is as good as new iff it has at most one
block besides the null block.
-/

namespace BezOS
namespace Tlsf

open Lib Function List Option TlsfHeap

variable {h h' : TlsfHeap} {base : Nat} {rs l t : List Region} {r p n : Region}
  {lists : Nat → List BlockPtr} {spare : List BlockPtr} {c : BlockPtr} {range : AnyRange}

/-! ## A heap of one block -/

lemma Represents.lists_of_one (hr : Represents h [r] lists spare) (i : Nat) : lists i = [] := by
  have hnull : r.block = h.mNullBlock := by simpa using hr.null
  refine eq_nil_iff_forall_not_mem.2 fun a ha => ?_
  obtain rfl : a = r.block := by simpa using hr.only i a ha
  rw [hnull] at ha
  exact hr.null_not_listed ha

lemma bitVec_eq_zero {w : Nat} {x : BitVec w} (hx : ∀ i < w, x.getLsbD i = false) : x = 0 :=
  BitVec.eq_of_getLsbD_eq fun i hi => by simpa using hx i hi

lemma Formed.eq_init (hf : Formed h base [r] lists []) :
    h = { init h.mBlockPool h.mNullBlock ⟨base, base + h.mSize⟩ with
      mReserved := h.mReserved, mMallocCount := h.mMallocCount, mFreeCount := h.mFreeCount } := by
  have hr : Represents h ([] ++ r :: []) lists [] := hf.repr
  have hlists := hf.repr.lists_of_one
  have hnull : r.block = h.mNullBlock := hr.null_iff.2 rfl
  obtain ⟨htiles, -, -⟩ := hf.tiling
  have hoffset : r.offset = base := htiles.1
  have hsize : r.size = h.mSize := by
    have hextent := hf.tiling.extent
    simpa [Region.piece] using hextent
  have hcount := hf.limits.count
  have hinner : ∀ c, h.mInnerFreeMap c = 0 := fun c => bitVec_eq_zero fun s hs => by
    rw [← Bool.not_eq_true, hr.listed.headed.inner c s hs, hlists]
    simp
  have htop : h.mTopLevelFreeMap = 0 := bitVec_eq_zero fun c hc => by
    rw [← Bool.not_eq_true, hr.listed.headed.top c hc, hinner]
    simp
  have hblocks : h.blocks = update (fun _ => none) h.mNullBlock
      (some ⟨base, h.mSize, none, none, none, none⟩) := by
    funext a
    obtain ⟨k, hk⟩ := hr.stores
    by_cases ha : a = h.mNullBlock
    · subst ha
      have hblock := hk.block
      have hfree := hr.nullFree
      have hlink := hr.nullLink
      rw [hnull] at hblock
      rw [prevFreeOf_eq hblock] at hfree
      rw [nextFreeOf_eq hblock] at hlink
      have hko := hk.offset
      have hks := hk.size
      have hkp := hk.prev
      have hkn := hk.next
      rw [update_self, hblock]
      cases k
      simp_all
    · rw [update_of_ne ha, ← not_isSome_iff_eq_none, hf.repr.objects]
      simpa [hnull] using ha
  have hspan : AnyRange.size ⟨base, base + h.mSize⟩ = h.mSize := by simp [AnyRange.size]
  have hfreeList : h.mFreeList = fun _ => none := by
    funext i
    rw [hr.listed.headed.head i, hlists]
    rfl
  cases h
  simp only [init, mk.injEq, true_and] at *
  refine ⟨hspan.symm, ?_, ?_, hfreeList, funext hinner, htop⟩
  · rw [hspan]
    exact hblocks
  · rw [hspan]
    exact hcount

/-! ## What a reset heap should be -/

/-- The heap is what `create` makes over `range` of a pool whose only object is the null block: the
later calls find what they find on a new heap. A reset keeps `mReserved`, which only the statistics
read. -/
structure AsCreated (range : AnyRange) (reserved : Nat) (h : TlsfHeap) : Prop where
  whole : h.regions = [⟨h.mNullBlock, range.front, range.size, false⟩]
  lists : ∀ i, h.freeListOf i = []
  inner : ∀ c, h.mInnerFreeMap c = 0
  top : h.mTopLevelFreeMap = 0
  pool : h.mBlockPool.Valid ∧ ∀ a, h.mBlockPool.Occupied a ↔ a = h.mNullBlock
  made : h = { init h.mBlockPool h.mNullBlock range with mReserved := reserved }

def ResetsAsCreated (range : AnyRange) (h : TlsfHeap) : Prop :=
  ∃ h', reset h = .ok ((), h') ∧ AsCreated range h.mReserved h'

lemma Wellformed.asCreated (hw : Wellformed h range.front [r] lists [])
    (hsize : h.mSize = range.size) (hrange : range.front ≤ range.back)
    (hmalloc : h.mMallocCount = 0) (hfree : h.mFreeCount = 0) :
    AsCreated range h.mReserved h := by
  have hr : Represents h ([] ++ r :: []) lists [] := hw.repr
  have hlists := hw.repr.lists_of_one
  have hnull : r.block = h.mNullBlock := hr.null_iff.2 rfl
  have hmade := hw.toFormed.eq_init
  have hback : range.front + h.mSize = range.back := by
    rw [hsize, AnyRange.size]
    omega
  rw [hmalloc, hfree, hback] at hmade
  refine ⟨?_, fun i => ?_, fun c => ?_, ?_, ⟨hw.repr.pool, fun a => ?_⟩, hmade⟩
  · have hoffset : r.offset = range.front := hw.tiling.tiles.1
    have hextent := hw.tiling.extent
    have hsize' : r.size = range.size := by
      rw [← hsize]
      simpa [Region.piece] using hextent
    have hused : r.used = false := Represents.null_used hr
    rw [hw.repr.regions_eq, ← hnull, ← hoffset, ← hsize', ← hused]
  · rw [hw.repr.freeListOf_eq, hlists]
  · rw [hmade]
    rfl
  · rw [hmade]
    rfl
  · rw [hw.repr.occupied, hw.repr.objects]
    simp [hnull]

/-! ## At most one block besides the null block -/

lemma resetLoop_two {k : Nat} (hr : Represents h [p, n] lists spare) (hused : p.used = true)
    (hadjacent : p.offset + p.size = n.offset) {h1 : TlsfHeap}
    (hmerge : mergeBlock n.block p.block h = .ok ((), h1)) :
    resetLoop (k + 1) (some n.block) h = .ok ((), h1) := by
  have hrp : Represents h ([] ++ p :: [n]) lists spare := hr
  have hrn : Represents h ([p] ++ n :: []) lists spare := hr
  obtain ⟨kp, hkp⟩ := hrp.stores
  obtain ⟨kn, hkn⟩ := hrn.stores
  have hfirst : kp.prev = none := hkp.prev
  have hprev : kn.prev = some p.block := hkn.prev
  have hsizes : (kp.offset + kp.size == kn.offset) = true := by
    rw [beq_iff_eq, hkp.offset, hkp.size, hkn.offset, hadjacent]
  have hprevCheck : (kn.prev == some p.block) = true := beq_iff_eq.2 hprev
  have hfreeCheck : (!kp.isFree p.block) = true := by rw [hkp.free, hused]; rfl
  rw [mergeBlock, bind_run (deref_run hkn.block), bind_run (check_run hprevCheck),
    bind_run (deref_run hkp.block), bind_run (check_run hfreeCheck)] at hmerge
  rw [resetLoop, bind_run (deref_run hkn.block), hprev]
  simp only
  rw [bind_run (deref_run hkp.block), bind_run (check_run hsizes)]
  obtain ⟨_, h2, hwrite, hmerge⟩ := bind_ok hmerge
  rw [bind_run hwrite]
  rw [hfirst, writeIf, bind_run (pure_run ())] at hmerge
  rw [bind_run hmerge, hfirst]
  cases k <;> rfl

lemma reset_of_short (hw : Wellformed h range.front rs lists [])
    (hsize : h.mSize = range.size) (hrange : range.front ≤ range.back) (hshort : rs.length ≤ 2) :
    ResetsAsCreated range h := by
  have hnull := hw.repr.null
  match rs, hshort with
  | [], _ => cases hnull
  | [n], _ =>
    have hr : Represents h ([] ++ n :: []) lists [] := hw.repr
    obtain ⟨k, hk⟩ := hr.stores
    have hlast : n.block = h.mNullBlock := hr.null_iff.2 rfl
    have hprev : k.prev = none := hk.prev
    have hloop : resetLoop (h.mBlockPool.objectCount + 1) (some h.mNullBlock) h = .ok ((), h) := by
      rw [← hlast, resetLoop, bind_run (deref_run hk.block), hprev]
      rfl
    refine ⟨{ h with mMallocCount := 0, mFreeCount := 0 }, ?_, ?_⟩
    · rw [reset, bind_run get_run, bind_run hloop]
      rfl
    · have hw' : Wellformed { h with mMallocCount := 0, mFreeCount := 0 } range.front [n] lists [] :=
        ⟨hw.toFormed.recount h.mReserved 0 0, hw.coalesced⟩
      exact hw'.asCreated hsize hrange rfl rfl
  | [p, n], _ =>
    have hr : Represents h ([p] ++ n :: []) lists [] := hw.repr
    have hlast : n.block = h.mNullBlock := hr.null_iff.2 rfl
    have hfree : n.used = false := Represents.null_used hr
    -- The null block is free, so the block before it is used.
    have hused : p.used = true := by
      have hcoalesced := hw.coalesced
      rw [Coalesced, pieces_cons, pieces_cons, pieces_nil, isChain_pair,
        show n.piece.used = false from hfree] at hcoalesced
      exact hcoalesced.resolve_right Bool.false_ne_true
    have hadjacent : p.offset + p.size = n.offset := by
      obtain ⟨hp, hn, -⟩ : p.offset = range.front ∧ n.offset = range.front + p.size ∧ _ :=
        hw.tiling.tiles
      omega
    obtain ⟨h1, hmerge, hstays, hf⟩ := Formed.merge (l := []) hw.toFormed hused (.inr hlast)
    have hloop := resetLoop_two (k := h.mBlockPool.objectCount) hw.repr hused hadjacent hmerge
    rw [hlast] at hloop
    refine ⟨{ h1 with mMallocCount := 0, mFreeCount := 0 }, ?_, ?_⟩
    · rw [reset, bind_run get_run, bind_run hloop]
      rfl
    · rw [← hstays.mReserved]
      have hw' : Wellformed { h1 with mMallocCount := 0, mFreeCount := 0 } range.front
          [⟨n.block, p.offset, n.size + p.size, n.used⟩] lists [] :=
        ⟨hf.recount h1.mReserved 0 0, isChain_singleton _⟩
      exact hw'.asCreated (hstays.mSize.trans hsize) hrange rfl rfl

/-! ## More blocks -/

lemma resetLoop_step {k : Nat} {b c : BlockPtr} {kb kc : TlsfBlock} (hb : h.blocks b = some kb)
    (hprev : kb.prev = some c) (hc : h.blocks c = some kc) (hbc : b ≠ c)
    (hrun : resetLoop (k + 1) (some b) h = .ok ((), h')) :
    ∃ h1, resetLoop k kc.prev h1 = .ok ((), h') ∧ h1.mNullBlock = h.mNullBlock ∧
      h1.blocks b =
        some { kb with offset := kc.offset, size := kb.size + kc.size, prev := kc.prev } ∧
      ∀ a, a ≠ b → a ≠ c → h1.blocks a = h.blocks a := by
  rw [resetLoop, bind_run (deref_run hb), hprev] at hrun
  simp only at hrun
  rw [bind_run (deref_run hc)] at hrun
  obtain ⟨_, _, hcheck, hrun⟩ := bind_ok hrun
  rw [check] at hcheck
  split at hcheck
  · cases hcheck
    rw [bind_run (write_run (by rw [hb]; rfl))] at hrun
    obtain ⟨_, h1, hdestroy, hrun⟩ := bind_ok hrun
    rw [destroy] at hdestroy
    cases hrelease : (h.edit (some b) fun b =>
        { b with offset := kc.offset, size := b.size + kc.size, prev := kc.prev }).mBlockPool.release c with
    | error e =>
      rw [hrelease] at hdestroy
      cases hdestroy
    | ok pool =>
      rw [hrelease] at hdestroy
      cases hdestroy
      refine ⟨_, hrun, rfl, ?_, fun a hab hac => ?_⟩
      · show update (edit h (some b) _).blocks c none b = _
        rw [update_of_ne hbc, blocks_edit, if_pos rfl, hb]
        rfl
      · show update (edit h (some b) _).blocks c none a = _
        rw [update_of_ne hac, blocks_edit, if_neg (by simpa using Ne.symm hab)]
  · cases hcheck

lemma resetLoop_frame {k : Nat} {e : Option BlockPtr} (hlaid : Laid h.coreOf none l e)
    (hnodup : (blocksOf l).Nodup) (hc : c ∉ blocksOf l)
    (hrun : resetLoop k (blocksOf l).getLast? h = .ok ((), h')) :
    h'.blocks c = h.blocks c ∧ h'.mNullBlock = h.mNullBlock := by
  induction k generalizing h l e with
  | zero =>
    rcases eq_nil_or_concat l with rfl | ⟨x, q, rfl⟩
    · cases hrun
      exact ⟨rfl, rfl⟩
    · rw [concat_eq_append, show (blocksOf (x ++ [q])).getLast? = some q.block by simp] at hrun
      cases hrun
  | succ k ih =>
    rcases eq_nil_or_concat l with rfl | ⟨x, q, rfl⟩
    · cases hrun
      exact ⟨rfl, rfl⟩
    rw [concat_eq_append] at *
    rw [show (blocksOf (x ++ [q])).getLast? = some q.block by simp] at hrun
    obtain ⟨hx, hq, -⟩ := Laid.middle_iff.1 hlaid
    rw [coreOf, map_eq_some_iff] at hq
    obtain ⟨kq, hkq, hcore⟩ := hq
    have hprevq : kq.prev = (blocksOf x).getLast? := by
      have hfield : kq.prev = _ := congrArg Core.prev hcore
      simpa using hfield
    rcases eq_nil_or_concat x with rfl | ⟨y, s, rfl⟩
    · rw [resetLoop, bind_run (deref_run hkq), show kq.prev = none from hprevq] at hrun
      cases hrun
      exact ⟨rfl, rfl⟩
    rw [concat_eq_append] at *
    obtain ⟨hy, hs, -⟩ := Laid.middle_iff.1 hx
    rw [coreOf, map_eq_some_iff] at hs
    obtain ⟨ks, hks, hcore⟩ := hs
    have hprevs : ks.prev = (blocksOf y).getLast? := by
      have hfield : ks.prev = _ := congrArg Core.prev hcore
      simpa using hfield
    simp only [blocksOf_append, blocksOf_cons, blocksOf_nil, append_assoc,
      singleton_append] at hnodup hc
    obtain ⟨hynodup, hqs, hne⟩ := nodup_append.1 hnodup
    have hprev' : kq.prev = some s.block := by rw [hprevq]; simp
    have hsq : q.block ≠ s.block := by
      intro heq
      simp [heq] at hqs
    -- `q` absorbs `s`; the loop goes on from the last block of `y`.
    obtain ⟨h1, hrun1, hnull1, -, hother⟩ := resetLoop_step hkq hprev' hks hsq hrun
    rw [hprevs] at hrun1
    have hy1 : Laid h1.coreOf none y (some s.block) := hy.congr fun a ha => by
      rw [coreOf, coreOf, hother a (hne a ha _ (by simp)) (hne a ha _ (by simp))]
    simp only [mem_append, mem_cons, not_mem_nil, or_false, not_or] at hc
    obtain ⟨hblocks, hnull⟩ := ih hy1 hynodup hc.1 hrun1
    exact ⟨hblocks.trans (hother c hc.2.2 hc.2.1), hnull.trans hnull1⟩

lemma reset_of_long (hw : Wellformed h range.front (l ++ [r, p, n]) lists [])
    (hreset : ResetsAsCreated range h) : False := by
  obtain ⟨h', hrun, hnew⟩ := hreset
  have hrn : Represents h ((l ++ [r, p]) ++ n :: []) lists [] := by simpa using hw.repr
  have hrp : Represents h ((l ++ [r]) ++ p :: [n]) lists [] := by simpa using hw.repr
  obtain ⟨kn, hkn⟩ := hrn.stores
  obtain ⟨kp, hkp⟩ := hrp.stores
  have hlast : n.block = h.mNullBlock := hrn.null_iff.2 rfl
  have hprevn : kn.prev = some p.block := by rw [hkn.prev]; simp
  have hprevp : kp.prev = (blocksOf (l ++ [r])).getLast? := hkp.prev
  have hnp : n.block ≠ p.block := hrp.other_ne (by simp)
  rw [reset, bind_run get_run] at hrun
  obtain ⟨_, h1, hloop, hrun⟩ := bind_ok hrun
  cases hrun
  rw [← hlast] at hloop
  obtain ⟨h2, hloop, hnull2, hblockn, hother⟩ := resetLoop_step hkn.block hprevn hkp.block hnp hloop
  rw [hprevp] at hloop
  have hnodup := hrp.blocks_nodup
  rw [blocksOf_append] at hnodup
  obtain ⟨hnodup, -, hne⟩ := nodup_append.1 hnodup
  have hlaid : Laid h2.coreOf none (l ++ [r]) (some p.block) :=
    (Laid.middle_iff.1 hrp.laid).1.congr fun a ha => by
      rw [coreOf, coreOf, hother a (hne a ha _ (by simp)) (hne a ha _ (by simp))]
  have hout : n.block ∉ blocksOf (l ++ [r]) := fun hmem => hne _ hmem _ (by simp) rfl
  obtain ⟨hblocks, hnull⟩ := resetLoop_frame hlaid hnodup hout hloop
  -- The null block of a new heap has no block before it.
  have hmade : h1.blocks h1.mNullBlock =
      some ⟨range.front, range.size, none, none, none, none⟩ := by
    have hfield := congrArg blocks hnew.made
    have hat := congrFun hfield h1.mNullBlock
    simpa [init] using hat
  rw [hnull, hnull2, ← hlast, hblocks, hblockn] at hmade
  have hprev := congrArg TlsfBlock.prev (Option.some.inj hmade)
  rw [hprevp] at hprev
  simp at hprev

end Tlsf
end BezOS
