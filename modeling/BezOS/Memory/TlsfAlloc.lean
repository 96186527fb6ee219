import BezOS.Memory.TlsfCarve
import BezOS.Memory.TlsfSearch

/-!
# Allocating

`aligned_alloc` tries the blocks of one list, then the null block, then the blocks of another list;
the first one with room for the aligned bytes is cut, unless the pool refuses the blocks that takes.
Which blocks are tried is a matter of the heap before the call. As long as each of them has a block
before it to put the bytes in front of the aligned ones behind, and as many bytes as it gives away,
an allocation is what was asked for.
-/

namespace BezOS
namespace Tlsf

open Lib List PoolAllocator

variable {h h' : TlsfHeap} {base : Nat} {rs l t : List Region} {r : Region}
  {lists : Nat → List BlockPtr} {spare bs cs : List BlockPtr} {b : BlockPtr}
  {align size listIndex : Nat}

/-- The test of `checkBlock`. -/
def Fits (align size : Nat) (r : Region) : Prop :=
  ¬ r.size < wrapSub wordCount (wrapAdd wordCount size (roundup r.offset align)) r.offset
  deriving Decidable

/-- The bytes in front of the aligned offset, `missingAlignment`. -/
def missingAlignment (align : Nat) (r : Region) : Nat :=
  wrapSub wordCount (roundup r.offset align) r.offset

/-- The block has the bytes in front, and a block before it if there are any. -/
def Paddable (align : Nat) (r : Region) (prev : Option BlockPtr) : Prop :=
  missingAlignment align r ≤ r.size ∧ (missingAlignment align r = 0 ∨ prev ≠ none)

/-- The blocks of `bs` that are tried, in their order: those that fit, up to the first one for which
the pool has the blocks. -/
def TlsfHeap.triedFrom (h : TlsfHeap) (align size : Nat) :
    PoolAllocator → List BlockPtr → List BlockPtr
  | _, [] => []
  | pool, b :: bs =>
    match h.blocks b with
    | none => []
    | some k =>
      let required := blocksFor h (k.region b) (roundup k.offset align) size
      if Fits align size (k.region b) then
        b :: if supplies required pool then []
          else triedFrom h align size (afterRequest [] required pool) bs
      else triedFrom h align size pool bs

/-- The blocks that `aligned_alloc` looks at. -/
def TlsfHeap.candidates (h : TlsfHeap) (size : Nat) : List BlockPtr :=
  h.listFrom size ++ h.mNullBlock :: h.listFrom (getNextBlockSize size)

def TlsfHeap.tried (h : TlsfHeap) (align size : Nat) : List BlockPtr :=
  h.triedFrom align size h.mBlockPool (h.candidates size)

/-- Every block that `aligned_alloc` tries can be padded. -/
def AllocCareful (h : TlsfHeap) (align size : Nat) : Prop :=
  ∀ b ∈ h.tried align size, ∀ k, h.blocks b = some k → Paddable align (k.region b) k.prev

lemma Unchanged.triedFrom (hu : Unchanged h h') (pool : PoolAllocator) (bs : List BlockPtr) :
    h'.triedFrom align size pool bs = h.triedFrom align size pool bs := by
  induction bs generalizing pool with
  | nil => rfl
  | cons b bs ih =>
    have hrequired : ∀ r o s, blocksFor h' r o s = blocksFor h r o s := fun r o s => by
      rw [blocksFor, blocksFor, hu.mNullBlock]
    simp only [TlsfHeap.triedFrom, hu.blocks, hrequired, ih]

/-! ## One block -/

/-- The outcomes of `checkBlock` on a free block that can be padded. -/
inductive CheckOutcome (h : TlsfHeap) (base : Nat) (l : List Region) (r : Region) (t : List Region)
    (lists : Nat → List BlockPtr) (spare : List BlockPtr) (align size : Nat) :
    Except Fault (Option BlockPtr × TlsfHeap) → Prop where
  | unfit (hfit : ¬ Fits align size r) :
      CheckOutcome h base l r t lists spare align size (.ok (none, h))
  | refused {h' : TlsfHeap} (hfit : Fits align size r)
      (hpool : supplies (blocksFor h r (roundup r.offset align) size) h.mBlockPool =
        false)
      (hafter : h'.mBlockPool = afterRequest []
        (blocksFor h r (roundup r.offset align) size) h.mBlockPool)
      (hsame : Unchanged h h') (hw : Wellformed h' base (l ++ r :: t) lists spare) :
      CheckOutcome h base l r t lists spare align size (.ok (none, h'))
  | carved {h' : TlsfHeap} {rs' : List Region} {lists' : Nat → List BlockPtr}
      (hfit : Fits align size r) (hfront : r.offset ≤ roundup r.offset align)
      (hback : roundup r.offset align + size ≤ r.offset + r.size) (hkeeps : Keeps h h')
      (hw : Wellformed h' base rs' lists' spare)
      (hlive : usedRegions rs' =
        usedRegions l ++ ⟨r.block, roundup r.offset align, size, true⟩ :: usedRegions t) :
      CheckOutcome h base l r t lists spare align size (.ok (some r.block, h'))
  | panic (hfit : Fits align size r)
      (hover : r.offset + r.size < roundup r.offset align + size) :
      CheckOutcome h base l r t lists spare align size (.error .bugCheck)

lemma roundup_lt (o align : Nat) : roundup o align < wordCount := by
  have hlt : wrapAdd wordCount o (align - 1) < wordCount := wrapAdd_lt (by decide)
  exact Nat.lt_of_le_of_lt (Nat.div_mul_le_self _ _) hlt

lemma missingAlignment_le (hword : r.offset + r.size < wordCount)
    (hm : missingAlignment align r ≤ r.size) :
    r.offset ≤ roundup r.offset align ∧ roundup r.offset align ≤ r.offset + r.size ∧
      missingAlignment align r = roundup r.offset align - r.offset := by
  rw [missingAlignment] at *
  have hcases := wrapSub_cases (roundup_lt r.offset align)
    (show r.offset ≤ wordCount by omega)
  omega

lemma checkBlock_run (hw : Wellformed h base (l ++ r :: t) lists spare) (hfree : r.used = false)
    (halign : 0 < align) (hsize : 0 < size)
    (hindex : r.block = h.mNullBlock ∨ listIndex = getListIndex r.size)
    (hsafe : Fits align size r → Paddable align r (blocksOf l).getLast?) :
    CheckOutcome h base l r t lists spare align size (checkBlock r.block listIndex size align h) := by
  have hword := hw.toFormed.back_lt (r := r) (by simp)
  obtain ⟨k, hk⟩ := hw.repr.stores
  have hisFree : k.isFree r.block = true := by rw [hk.free, hfree]; rfl
  rw [checkBlock, bind_run (deref_run hk.block), bind_run (check_run hisFree),
    bind_run (assumePositive_run halign), hk.offset, hk.size]
  by_cases hfit : Fits align size r
  · obtain ⟨hm, hprev⟩ := hsafe hfit
    obtain ⟨hfront, hreach, heq⟩ := missingAlignment_le hword hm
    have hfirst : roundup r.offset align = r.offset ∨ l ≠ [] := by
      rcases hprev with hzero | hprev
      · exact .inl (by omega)
      · refine .inr fun hl => hprev ?_
        rw [hl]
        rfl
    rw [if_neg hfit]
    by_cases hback : roundup r.offset align + size ≤ r.offset + r.size
    · have hout := reserveBlock_run hw hfree hfront hsize hback hfirst hindex
      generalize reserveBlock r.block size (roundup r.offset align) listIndex h = result at hout
      cases hout with
      | refused hpool hafter hsame hw' => exact .refused hfit hpool hafter hsame hw'
      | carved hpool hkeeps hw' hlive => exact .carved hfit hfront hback hkeeps hw' hlive
    · have hover : r.offset + r.size < roundup r.offset align + size := by omega
      rcases reserveBlock_overlong hw hfree hfront hreach hover hfirst hindex with
        ⟨h', hrun, hpool, hafter, hsame, hw'⟩ | hrun
      · rw [hrun]
        exact .refused hfit hpool hafter hsame hw'
      · rw [hrun]
        exact .panic hfit hover
  · rw [if_pos (not_not.1 hfit)]
    exact .unfit hfit

/-! ## A list -/

/-- A search has found the block `r` of the chain and cut it. -/
structure Served (h : TlsfHeap) (base : Nat) (rs : List Region) (spare : List BlockPtr)
    (align size : Nat) (b : BlockPtr) (h' : TlsfHeap) : Prop where
  keeps : Keeps h h'
  cut : ∃ l r t rs' lists', rs = l ++ r :: t ∧ r.block = b ∧ r.used = false ∧
    r.offset ≤ roundup r.offset align ∧ roundup r.offset align + size ≤ r.offset + r.size ∧
    Wellformed h' base rs' lists' spare ∧ usedRegions rs' =
      usedRegions l ++ ⟨b, roundup r.offset align, size, true⟩ :: usedRegions t

/-- A search has found nothing: no block fits and the heap is the same, or the pool refused. -/
structure Fruitless (h : TlsfHeap) (base : Nat) (rs : List Region) (lists : Nat → List BlockPtr)
    (spare : List BlockPtr) (align size : Nat) (bs : List BlockPtr) (h' : TlsfHeap) : Prop where
  same : Unchanged h h'
  wellformed : Wellformed h' base rs lists spare
  rest : ∀ cs, ∀ b ∈ h'.triedFrom align size h'.mBlockPool cs,
    b ∈ h.triedFrom align size h.mBlockPool (bs ++ cs)
  refused : (h' = h ∧ ∀ r ∈ rs, r.block ∈ bs → ¬ Fits align size r) ∨
    ∃ r ∈ rs, r.used = false ∧ Fits align size r ∧ supplies
      (blocksFor h r (roundup r.offset align) size) h.mBlockPool = false

/-- Some block fits only because the sum of the sizes wraps. -/
def Overlong (rs : List Region) (align size : Nat) : Prop :=
  ∃ r ∈ rs, Fits align size r ∧ r.offset + r.size < roundup r.offset align + size

inductive SearchOutcome (h : TlsfHeap) (base : Nat) (rs : List Region) (lists : Nat → List BlockPtr)
    (spare : List BlockPtr) (align size : Nat) (bs : List BlockPtr) :
    Except Fault (Option BlockPtr × TlsfHeap) → Prop where
  | served {b : BlockPtr} {h' : TlsfHeap} (hserved : Served h base rs spare align size b h') :
      SearchOutcome h base rs lists spare align size bs (.ok (some b, h'))
  | none {h' : TlsfHeap} (hnone : Fruitless h base rs lists spare align size bs h') :
      SearchOutcome h base rs lists spare align size bs (.ok (none, h'))
  | panic (hover : Overlong rs align size) :
      SearchOutcome h base rs lists spare align size bs (.error .bugCheck)

namespace Fruitless

lemma nil (hw : Wellformed h base rs lists spare) :
    Fruitless h base rs lists spare align size [] h :=
  ⟨.refl h, hw, fun _ _ hb => hb, .inl ⟨rfl, by simp⟩⟩

lemma append {h'' : TlsfHeap} (h1 : Fruitless h base rs lists spare align size bs h')
    (h2 : Fruitless h' base rs lists spare align size cs h'') :
    Fruitless h base rs lists spare align size (bs ++ cs) h'' := by
  refine ⟨h1.same.trans h2.same, h2.wellformed, fun ds b hb => ?_, ?_⟩
  · rw [append_assoc]
    exact h1.rest _ b (h2.rest ds b hb)
  · rcases h1.refused with ⟨rfl, hno1⟩ | hrefused
    · rcases h2.refused with ⟨rfl, hno2⟩ | hrefused
      · refine .inl ⟨rfl, fun r hr hmem => ?_⟩
        rcases mem_append.1 hmem with hmem | hmem
        · exact hno1 r hr hmem
        · exact hno2 r hr hmem
      · exact .inr hrefused
    · exact .inr hrefused

end Fruitless

lemma Served.of_unchanged {h'' : TlsfHeap} (hs : Served h' base rs spare align size b h'')
    (hu : Unchanged h h') : Served h base rs spare align size b h'' :=
  ⟨hu.keeps.trans hs.keeps, hs.cut⟩

lemma checkBlock_search (hw : Wellformed h base (l ++ r :: t) lists spare)
    (hfree : r.used = false) (halign : 0 < align) (hsize : 0 < size)
    (hindex : r.block = h.mNullBlock ∨ listIndex = getListIndex r.size)
    (hsafe : ∀ b ∈ h.triedFrom align size h.mBlockPool (r.block :: cs), ∀ k,
      h.blocks b = some k → Paddable align (k.region b) k.prev) :
    SearchOutcome h base (l ++ r :: t) lists spare align size [r.block]
      (checkBlock r.block listIndex size align h) := by
  obtain ⟨k, hk⟩ := hw.repr.stores
  have hregion : k.region r.block = r := by
    rw [TlsfBlock.region, hk.offset, hk.size, hk.free, Bool.not_not]
  have honly : ∀ q ∈ l ++ r :: t, q.block ∈ [r.block] → q = r := by
    intro q hq hmem
    by_contra hne
    have hother : q ∈ l ++ t := by
      simp only [mem_append, mem_cons] at hq ⊢
      tauto
    exact hw.repr.other_ne hother (mem_singleton.1 hmem)
  -- What is tried when this block is the first one.
  have htried : ∀ ds, h.triedFrom align size h.mBlockPool (r.block :: ds) =
      if Fits align size r then
        r.block :: if supplies (blocksFor h r (roundup r.offset align) size)
            h.mBlockPool then []
          else h.triedFrom align size (afterRequest []
            (blocksFor h r (roundup r.offset align) size) h.mBlockPool) ds
      else h.triedFrom align size h.mBlockPool ds := by
    intro ds
    rw [TlsfHeap.triedFrom, hk.block]
    simp only [hregion, hk.offset]
  have hpad : Fits align size r → Paddable align r (blocksOf l).getLast? := by
    intro hfit
    have hpaddable := hsafe r.block (by rw [htried, if_pos hfit]; simp) k hk.block
    rwa [hregion, hk.prev] at hpaddable
  have hout := checkBlock_run hw hfree halign hsize hindex hpad
  generalize checkBlock r.block listIndex size align h = result at hout
  cases hout with
  | unfit hfit =>
    refine .none ⟨.refl h, hw, fun ds b hb => ?_, .inl ⟨rfl, fun q hq hmem => ?_⟩⟩
    · rw [singleton_append, htried, if_neg hfit]
      exact hb
    · rwa [honly q hq hmem]
  | refused hfit hpool hafter hsame hw' =>
    refine .none ⟨hsame, hw', fun ds b hb => ?_, .inr ⟨r, by simp, hfree, hfit, hpool⟩⟩
    rw [singleton_append, htried, if_pos hfit, hpool]
    rw [hsame.triedFrom, hafter] at hb
    simp [hb]
  | carved hfit hfront hback hkeeps hw' hlive =>
    exact .served ⟨hkeeps, l, r, t, _, _, rfl, rfl, hfree, hfront, hback, hw', hlive⟩
  | panic hfit hover => exact .panic ⟨r, by simp, hfit, hover⟩

lemma searchList_run {n i : Nat} {x : List BlockPtr} (hw : Wellformed h base rs lists spare)
    (halign : 0 < align) (hsize : 0 < size) (hi : lists i = x ++ bs) (hn : bs.length ≤ n)
    (hsafe : ∀ b ∈ h.triedFrom align size h.mBlockPool (bs ++ cs), ∀ k,
      h.blocks b = some k → Paddable align (k.region b) k.prev) :
    SearchOutcome h base rs lists spare align size bs (searchList i size align n bs.head? h) := by
  induction bs generalizing h n x with
  | nil =>
    rw [head?_nil, searchList]
    exact .none (.nil hw)
  | cons b bs ih =>
    cases n with
    | zero => cases hn
    | succ n =>
      obtain ⟨l, r, t, rfl, rfl, hfree, hnull, hindex⟩ :=
        hw.toFormed.listed_free (i := i) (b := b) (by simp [hi])
      have hout := checkBlock_search hw hfree halign hsize (.inr hindex.symm) hsafe
      rw [head?_cons, searchList]
      generalize hcheck : checkBlock r.block i size align h = result at hout
      cases hout with
      | served hserved =>
        rw [bind_run hcheck]
        exact .served hserved
      | panic hover =>
        rw [bind_error hcheck]
        exact .panic hover
      | @none h1 hnone =>
        -- The block is as it was, and so is the one after it in the list.
        have hw1 := hnone.wellformed
        obtain ⟨k, hk⟩ := hw1.repr.stores
        have hisFree : k.isFree r.block = true := by rw [hk.free, hfree]; rfl
        have hnext : k.nextFree = bs.head? := (hw1.repr.listed.neighbours hi hk.block).2
        have hsafe1 : ∀ b ∈ h1.triedFrom align size h1.mBlockPool (bs ++ cs), ∀ k,
            h1.blocks b = some k → Paddable align (k.region b) k.prev := by
          intro b hb k hk
          rw [hnone.same.blocks] at hk
          exact hsafe b (hnone.rest _ b hb) k hk
        have hrest := @ih h1 n (x ++ [r.block]) hw1 (by simpa using hi)
          (by simpa using hn) hsafe1
        rw [bind_run hcheck]
        show SearchOutcome _ _ _ _ _ _ _ _ ((deref r.block >>= _) h1)
        rw [bind_run (deref_run hk.block), bind_run (check_run hisFree), hnext]
        generalize searchList i size align n bs.head? h1 = result at hrest
        cases hrest with
        | served hserved => exact .served (hserved.of_unchanged hnone.same)
        | none hnone' => exact .none (hnone.append hnone')
        | panic hover => exact .panic hover

/-! ## The whole search -/

/-- The outcomes of `allocBestFit`. -/
inductive AllocOutcome (h : TlsfHeap) (base : Nat) (rs : List Region) (lists : Nat → List BlockPtr)
    (spare : List BlockPtr) (align size : Nat) : Except Fault (Option BlockPtr × TlsfHeap) → Prop where
  | served {b : BlockPtr} {h' : TlsfHeap} (hserved : Served h base rs spare align size b h') :
      AllocOutcome h base rs lists spare align size (.ok (some b, h'))
  | none {h' : TlsfHeap}
      (hnone : Fruitless h base rs lists spare align size (h.candidates size) h') :
      AllocOutcome h base rs lists spare align size (.ok (none, h'))
  | panic (hover : Overlong rs align size) :
      AllocOutcome h base rs lists spare align size (.error .bugCheck)
  | shift (hbeyond : ¬ (RequestIndicesSafe size ∧ RequestIndicesSafe (getNextBlockSize size))) :
      AllocOutcome h base rs lists spare align size (.error .badAccess)

lemma getNextBlockSize_pos (hsize : 0 < size) : 0 < getNextBlockSize size := by
  rw [getNextBlockSize]
  split
  · rw [Nat.shiftLeft_eq]
    exact Nat.mul_pos (by decide) (Nat.two_pow_pos _)
  · split
    · decide
    · omega

lemma Unchanged.listFrom (hu : Unchanged h h') (hr : Represents h rs lists spare)
    (hr' : Represents h' rs lists spare) : h'.listFrom size = h.listFrom size := by
  have hlist : h'.mFreeList = h.mFreeList := by rw [hu.rest]
  rw [TlsfHeap.listFrom, TlsfHeap.listFrom, hu.keeps.mFreeListCount, hlist]
  split
  case h_2 => rfl
  case h_1 i hfind => rw [hr.freeListOf_eq, hr'.freeListOf_eq]

lemma searchFound_run {n : Nat} (hw : Wellformed h base rs lists spare) (halign : 0 < align)
    (hsize : 0 < size) {request : Nat} (hrequest : 0 < request)
    (hsafe : RequestIndicesSafe request) (hn : ∀ i, (lists i).length ≤ n)
    (hpad : ∀ b ∈ h.triedFrom align size h.mBlockPool (h.listFrom request ++ cs), ∀ k,
      h.blocks b = some k → Paddable align (k.region b) k.prev) :
    ∃ i, findFreeBlock request h = .ok (((h.listFrom request).head?, i), h) ∧
      SearchOutcome h base rs lists spare align size (h.listFrom request)
        (searchList i size align n (h.listFrom request).head? h) := by
  obtain ⟨i, hfind, hlist⟩ := hw.toFormed.findFreeBlock hrequest hsafe
  refine ⟨i, hfind, ?_⟩
  rcases hlist with hnil | ⟨hlist, -⟩
  · rw [hnil, head?_nil, searchList]
    exact .none (.nil hw)
  · exact searchList_run (x := []) hw halign hsize (by rw [hlist]; rfl) (by rw [hlist]; exact hn i)
      hpad

lemma allocBestFit_run (hw : Wellformed h base rs lists spare) (halign : 0 < align)
    (hsize : 0 < size) (hcareful : AllocCareful h align size) :
    AllocOutcome h base rs lists spare align size (allocBestFit align size h) := by
  rw [allocBestFit, bind_run get_run]
  by_cases hsafe : RequestIndicesSafe size
  case neg =>
    rw [bind_error (hw.toFormed.findFreeBlock_unsafe hsafe)]
    exact .shift fun hboth => hsafe hboth.1
  obtain ⟨i, hfind, hout⟩ := searchFound_run hw halign hsize hsize hsafe
    (fun i => Nat.le_succ_of_le (hw.repr.list_length_le i)) hcareful
  rw [bind_run hfind]
  show AllocOutcome _ _ _ _ _ _ _ ((searchList i size align _ (h.listFrom size).head? >>= _) h)
  generalize hfirst : searchList i size align (h.mBlockPool.objectCount + 1)
    (h.listFrom size).head? h = result at hout
  cases hout with
  | served hserved =>
    rw [bind_run hfirst]
    exact .served hserved
  | panic hover =>
    rw [bind_error hfirst]
    exact .panic hover
  | @none h1 hnone1 =>
    have hw1 := hnone1.wellformed
    have hcareful1 : ∀ b ∈ h1.triedFrom align size h1.mBlockPool
        (h.mNullBlock :: h.listFrom (getNextBlockSize size)), ∀ k,
        h1.blocks b = some k → Paddable align (k.region b) k.prev := by
      intro b hb k hk
      rw [hnone1.same.blocks] at hk
      exact hcareful b (hnone1.rest _ b hb) k hk
    rw [bind_run hfirst]
    show AllocOutcome _ _ _ _ _ _ _ (((get : HeapM TlsfHeap) >>= _) h1)
    rw [bind_run get_run]
    -- The null block is the last one of the chain.
    obtain ⟨init, n, rfl⟩ : ∃ init n, rs = init ++ [n] := by
      rcases eq_nil_or_concat rs with rfl | ⟨init, n, rfl⟩
      · exact absurd hw.repr.null (by simp)
      · exact ⟨init, n, by simp⟩
    have hnull : n.block = h.mNullBlock := hw.repr.null_iff.2 rfl
    have hnull1 : n.block = h1.mNullBlock := hw1.repr.null_iff.2 rfl
    rw [← hnull] at hcareful1
    have hout1 : SearchOutcome h1 base (init ++ [n]) lists spare align size [n.block]
        (checkBlock n.block h1.mFreeListCount size align h1) :=
      checkBlock_search hw1 hw1.repr.null_used halign hsize (.inl hnull1) hcareful1
    rw [← hnull1]
    generalize hcheck : checkBlock n.block h1.mFreeListCount size align h1 = result at hout1
    cases hout1 with
    | served hserved =>
      rw [bind_run hcheck]
      exact .served (hserved.of_unchanged hnone1.same)
    | panic hover =>
      rw [bind_error hcheck]
      exact .panic hover
    | @none h2 hnone2 =>
      have hw2 := hnone2.wellformed
      have hboth := hnone1.append hnone2
      have hlist2 : h2.listFrom (getNextBlockSize size) = h.listFrom (getNextBlockSize size) :=
        hboth.same.listFrom hw.repr hw2.repr
      have hcareful2 : ∀ b ∈ h2.triedFrom align size h2.mBlockPool
          (h2.listFrom (getNextBlockSize size) ++ []), ∀ k,
          h2.blocks b = some k → Paddable align (k.region b) k.prev := by
        intro b hb k hk
        rw [hboth.same.blocks] at hk
        rw [append_nil, hlist2] at hb
        refine hcareful b ?_ k hk
        have hmem := hboth.rest _ b hb
        rwa [hnull, append_assoc, singleton_append] at hmem
      rw [bind_run hcheck]
      by_cases hsafe2 : RequestIndicesSafe (getNextBlockSize size)
      case neg =>
        show AllocOutcome _ _ _ _ _ _ _ ((findFreeBlock _ >>= _) h2)
        rw [bind_error (hw2.toFormed.findFreeBlock_unsafe hsafe2)]
        exact .shift fun hboth => hsafe2 hboth.2
      obtain ⟨j, hfind2, hout2⟩ := searchFound_run hw2 halign hsize (getNextBlockSize_pos hsize)
        hsafe2 (fun i => Nat.le_succ_of_le (hw1.repr.list_length_le i)) hcareful2
      show AllocOutcome _ _ _ _ _ _ _ ((findFreeBlock _ >>= _) h2)
      rw [bind_run hfind2]
      show AllocOutcome _ _ _ _ _ _ _ (searchList j size align _ _ h2)
      generalize searchList j size align (h1.mBlockPool.objectCount + 1)
        (h2.listFrom (getNextBlockSize size)).head? h2 = result at hout2
      cases hout2 with
      | served hserved => exact .served (hserved.of_unchanged hboth.same)
      | panic hover => exact .panic hover
      | none hnone3 =>
        have hall := hboth.append hnone3
        rw [hlist2, hnull, append_assoc, singleton_append] at hall
        exact .none hall

end Tlsf
end BezOS
