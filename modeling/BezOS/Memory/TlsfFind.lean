import BezOS.Memory.TlsfFormed

/-!
# Reading a heap

The chain and the lists of a heap, read off its blocks by following their links. On a heap that
represents a chain and lists, these are what is read; a walk is given a step for each object of the
pool, which is enough since no block comes twice.
-/

namespace BezOS
namespace Tlsf

open Lib List

/-- The block at `b` as a part of the chain. -/
def TlsfBlock.region (k : TlsfBlock) (b : BlockPtr) : Region :=
  ⟨b, k.offset, k.size, !k.isFree b⟩

namespace TlsfHeap

/-- The chain up to the block `p`, in front of the blocks seen so far. -/
def walkBack (h : TlsfHeap) : Nat → Option BlockPtr → List Region → List Region
  | 0, _, seen => seen
  | _ + 1, none, seen => seen
  | n + 1, some b, seen =>
    match h.blocks b with
    | some k => walkBack h n k.prev (k.region b :: seen)
    | none => seen

def regions (h : TlsfHeap) : List Region :=
  h.walkBack h.mBlockPool.objectCount (some h.mNullBlock) []

/-- The blocks of a list from `p` on. -/
def walkList (h : TlsfHeap) : Nat → Option BlockPtr → List BlockPtr
  | 0, _ => []
  | _ + 1, none => []
  | n + 1, some b => b :: walkList h n (h.nextFreeOf b)

/-- The blocks of the list `i`. -/
def freeListOf (h : TlsfHeap) (i : Nat) : List BlockPtr :=
  h.walkList h.mBlockPool.objectCount (h.mFreeList i)

end TlsfHeap

variable {h h' : TlsfHeap} {base : Nat} {rs l t : List Region} {r : Region}
  {lists : Nat → List BlockPtr} {spare : List BlockPtr}

namespace Represents

lemma length_le (hr : Represents h rs lists spare) : rs.length ≤ h.mBlockPool.objectCount := by
  have hlength := hr.pool.length_le_objectCount hr.blocks_nodup fun a ha => by
    rw [hr.occupied, hr.objects]
    exact .inl ha
  rwa [blocksOf, length_map] at hlength

lemma list_length_le (hr : Represents h rs lists spare) (i : Nat) :
    (lists i).length ≤ h.mBlockPool.objectCount :=
  hr.pool.length_le_objectCount (hr.listed.nodup i) fun a ha => by
    rw [hr.occupied]
    exact hr.listed.object i a ha

lemma walkBack_eq {x y : List Region} {n : Nat} (hr : Represents h (x ++ y) lists spare)
    (hn : x.length ≤ n) : h.walkBack n (blocksOf x).getLast? y = x ++ y := by
  induction n generalizing x y with
  | zero =>
    obtain rfl : x = [] := length_eq_zero_iff.1 (Nat.le_zero.1 hn)
    rfl
  | succ n ih =>
    rcases eq_nil_or_concat x with rfl | ⟨x, r, rfl⟩
    · rfl
    · rw [concat_eq_append] at *
      have hr' : Represents h (x ++ r :: y) lists spare := by simpa using hr
      obtain ⟨k, hk⟩ := hr'.stores
      have hregion : k.region r.block = r := by
        rw [TlsfBlock.region, hk.offset, hk.size, hk.free, Bool.not_not]
      have hlast : (blocksOf (x ++ [r])).getLast? = some r.block := by simp
      rw [hlast, TlsfHeap.walkBack, hk.block]
      simp only [hregion, hk.prev]
      rw [ih hr' (by simpa using hn)]
      simp

lemma regions_eq (hr : Represents h rs lists spare) : h.regions = rs := by
  have hr' : Represents h (rs ++ []) lists spare := by simpa using hr
  have hwalk := hr'.walkBack_eq hr.length_le
  rwa [hr.null, append_nil] at hwalk

lemma freeListOf_eq (hr : Represents h rs lists spare) (i : Nat) :
    h.freeListOf i = lists i := by
  have hwalk : ∀ (l : List BlockPtr) (n : Nat) (p : Option BlockPtr), l.length ≤ n →
      Threaded h.nextFreeOf h.prevFreeOf p l none → h.walkList n l.head? = l := by
    intro l
    induction l with
    | nil =>
      intro n p _ _
      cases n <;> rfl
    | cons b l ih =>
      intro n p hn hthread
      obtain ⟨-, hnext, hthread⟩ := hthread
      cases n with
      | zero => cases hn
      | succ n =>
        rw [head?_cons, TlsfHeap.walkList, hnext, Option.or_none,
          ih n _ (by simpa using hn) hthread]
  rw [TlsfHeap.freeListOf, hr.listed.headed.head i]
  exact hwalk _ _ _ (hr.list_length_le i) (hr.listed.thread i)

end Represents

lemma Formed.list_lt (hf : Formed h base rs lists spare) {i : Nat} (hi : lists i ≠ []) :
    i < h.mFreeListCount ∧ i < 32 * 31 := by
  obtain ⟨a, ha⟩ := exists_mem_of_ne_nil _ hi
  obtain ⟨r, hr, rfl⟩ := mem_blocksOf.1 (hf.repr.only i a ha)
  obtain ⟨-, -, rfl⟩ := (hf.repr.member r hr i).1 ha
  refine ⟨(hf.safe hr).list, ?_⟩
  have hclass := memoryClass_lt_of_lt
    (Nat.lt_of_le_of_lt (hf.size_le hr) hf.limits.small)
  have hsecond := secondIndex_lt r.size
  rw [getListIndex_eq]
  omega

lemma Formed.free_listed (hf : Formed h base (l ++ r :: t) lists spare) (hfree : r.used = false)
    (hnull : r.block ≠ h.mNullBlock) : r.block ∈ lists (getListIndex r.size) :=
  (hf.repr.member r (by simp) _).2 ⟨hfree, hnull, rfl⟩

lemma Formed.listed_free (hf : Formed h base rs lists spare) {i : Nat} {b : BlockPtr}
    (hb : b ∈ lists i) : ∃ l r t, rs = l ++ r :: t ∧ r.block = b ∧ r.used = false ∧
      r.block ≠ h.mNullBlock ∧ getListIndex r.size = i := by
  obtain ⟨r, hr, rfl⟩ := mem_blocksOf.1 (hf.repr.only i b hb)
  obtain ⟨hfree, hnull, hi⟩ := (hf.repr.member r hr i).1 hb
  obtain ⟨l, t, rfl⟩ := append_of_mem hr
  exact ⟨l, r, t, rfl, rfl, hfree, hnull, hi⟩

end Tlsf
end BezOS

/-!
## Finding a block by its address

`findAllocation` of `memory/heap.cpp` compares the offset of every block, from the null block down.
It is not asked for the size of the block, and what it finds it hands out as an allocation, whose
constructor checks that the block is taken.
-/

namespace BezOS
namespace Tlsf

open Lib List

/-- The loop of `findAllocation` from `block` down. -/
def findLoop (address : Nat) : Nat → Option BlockPtr → HeapM (Option BlockPtr)
  | _, none => pure none
  | 0, some _ => fault .outOfFuel
  | fuel + 1, some block => do
    let b ← deref block
    if b.offset = address then do
      check (!b.isFree block)
      return some block
    else findLoop address fuel b.prev

/-- `findAllocation`; no result stands for `OsStatusNotFound`. -/
def findAllocation (address : Nat) : HeapM (Option BlockPtr) := do
  let h ← get
  findLoop address (h.mBlockPool.objectCount + 1) (some h.mNullBlock)

variable {h : TlsfHeap} {base address n : Nat} {rs l t x y : List Region} {r : Region}
  {lists : Nat → List BlockPtr} {spare : List BlockPtr} {b : BlockPtr}

lemma findLoop_run (address : Nat) (hr : Represents h (x ++ y) lists spare)
    (hn : x.length ≤ n) :
    ((∀ q ∈ x, q.offset ≠ address) ∧
      findLoop address n (blocksOf x).getLast? h = .ok (none, h)) ∨
    ∃ r ∈ x, r.offset = address ∧ findLoop address n (blocksOf x).getLast? h =
      if r.used then .ok (some r.block, h) else .error .bugCheck := by
  induction n generalizing x y with
  | zero =>
    obtain rfl : x = [] := length_eq_zero_iff.1 (Nat.le_zero.1 hn)
    exact .inl ⟨by simp, rfl⟩
  | succ n ih =>
    rcases eq_nil_or_concat x with rfl | ⟨x, r, rfl⟩
    · exact .inl ⟨by simp, rfl⟩
    rw [concat_eq_append] at *
    have hr' : Represents h (x ++ r :: y) lists spare := by simpa using hr
    obtain ⟨k, hk⟩ := hr'.stores
    rw [show (blocksOf (x ++ [r])).getLast? = some r.block by simp, findLoop,
      bind_run (deref_run hk.block), hk.offset]
    by_cases hoffset : r.offset = address
    · refine .inr ⟨r, by simp, hoffset, ?_⟩
      rw [if_pos hoffset]
      cases hused : r.used with
      | true =>
        have hcheck : (!k.isFree r.block) = true := by rw [hk.free, hused]; rfl
        rw [bind_run (check_run hcheck)]
        rfl
      | false =>
        have hcheck : (!k.isFree r.block) = false := by rw [hk.free, hused]; rfl
        rw [bind_error (check_error hcheck)]
        rfl
    · rw [if_neg hoffset, hk.prev]
      rcases ih hr' (by simpa using hn) with ⟨hall, hrun⟩ | ⟨r', hmem, heq, hrun⟩
      · refine .inl ⟨fun q hq => ?_, hrun⟩
        rcases mem_append.1 hq with hq | hq
        · exact hall q hq
        · rw [mem_singleton.1 hq]
          exact hoffset
      · exact .inr ⟨r', by simp [hmem], heq, hrun⟩

lemma Formed.eq_of_offset (hf : Formed h base rs lists spare) {q : Region} (hr : r ∈ rs)
    (hq : q ∈ rs) (hoffset : q.offset = r.offset) : q = r := by
  obtain ⟨l, t, rfl⟩ := append_of_mem hr
  by_contra hne
  -- The lower one of the two is not the last block, so it has bytes.
  have hbelow : ∀ {p s : Region} {l t : List Region}, Formed h base (l ++ p :: t) lists spare →
      s ∈ t → p.offset < s.offset := by
    intro p s l t hf hs
    have hnull : p.block ≠ h.mNullBlock := fun heq => by
      rw [hf.repr.null_iff.1 heq] at hs
      cases hs
    have hpos := hf.positive hnull
    have hpairs := hf.tiling.tiles.pairwise
    rw [pieces_append, pieces_cons, pairwise_append, pairwise_cons] at hpairs
    have hbehind := hpairs.2.1.1 s.piece (piece_mem hs)
    simp only [Region.piece] at hbehind
    omega
  rcases mem_append.1 hq with hq | hq
  · obtain ⟨l1, l2, rfl⟩ := append_of_mem hq
    have hf' : Formed h base (l1 ++ q :: (l2 ++ r :: t)) lists spare := by simpa using hf
    have hlt := hbelow hf' (s := r) (by simp)
    omega
  · have hlt := hbelow hf ((mem_cons.1 hq).resolve_left hne)
    omega

/-- What `findAllocation` does on a well-formed heap. -/
inductive FindOutcome (h : TlsfHeap) (rs : List Region) (address : Nat) :
    Except Fault (Option BlockPtr × TlsfHeap) → Prop where
  | missed (hall : ∀ q ∈ rs, q.offset ≠ address) : FindOutcome h rs address (.ok (none, h))
  | found {r : Region} (hr : r ∈ rs) (hoffset : r.offset = address) (hused : r.used = true) :
      FindOutcome h rs address (.ok (some r.block, h))
  | panic {r : Region} (hr : r ∈ rs) (hoffset : r.offset = address) (hfree : r.used = false) :
      FindOutcome h rs address (.error .bugCheck)

lemma findAllocation_run (hr : Represents h rs lists spare) (address : Nat) :
    FindOutcome h rs address (findAllocation address h) := by
  have hr' : Represents h (rs ++ []) lists spare := by simpa using hr
  have hloop := findLoop_run address (n := h.mBlockPool.objectCount + 1) hr'
    (by have := hr.length_le; omega)
  rw [hr.null] at hloop
  show FindOutcome h rs address (findLoop address _ _ h)
  rcases hloop with ⟨hall, hrun⟩ | ⟨r, hmem, hoffset, hrun⟩
  · rw [hrun]
    exact .missed hall
  · rw [hrun]
    cases hused : r.used with
    | true => exact .found hmem hoffset hused
    | false => exact .panic hmem hoffset hused

lemma free_not_live (hr : Represents h rs lists [])
    (hnot : ∀ r ∈ rs, r.used = true → r.block ≠ b) : ∃ e, free b h = .error e := by
  by_cases hmem : b ∈ blocksOf rs
  · obtain ⟨r, hr', rfl⟩ := mem_blocksOf.1 hmem
    obtain ⟨l, t, rfl⟩ := append_of_mem hr'
    obtain ⟨k, hk⟩ := hr.stores
    have hfree : r.used = false := by
      cases hused : r.used with
      | true => exact absurd rfl (hnot r hr' hused)
      | false => rfl
    have hcheck : (!k.isFree r.block) = false := by rw [hk.free, hfree]; rfl
    refine ⟨.bugCheck, ?_⟩
    rw [free, bind_run (deref_run hk.block), bind_error (check_error hcheck)]
  · have hnone : h.blocks b = none := by
      rw [← Option.not_isSome_iff_eq_none, hr.objects]
      simpa using hmem
    exact ⟨.badAccess, by rw [free, bind_error (deref_error hnone)]⟩

end Tlsf
end BezOS
