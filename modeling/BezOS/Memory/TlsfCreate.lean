import BezOS.Memory.TlsfReserve

/-!
# Creating a heap

A heap over one range is one free block. Over many ranges it spans them all, and the holes between
them are reserved and never given back; the last step is `validate`, which finds nothing to object
to in a well-formed heap.
-/

namespace BezOS
namespace Tlsf

open Lib TlsfHeap List

/-! ## Validating -/

/-- The walk through a list, from `block` on. `propNextFree` asserts that a block is free. -/
def validateList (head : BlockPtr) : Nat → BlockPtr → HeapM Unit
  | 0, _ => fault .outOfFuel
  | fuel + 1, block => do
    let b ← deref block
    check (b.isFree block)
    match b.nextFree with
    | none => pure ()
    | some next =>
      check (next != head)
      let n ← deref next
      check (n.isFree next)
      check (n.prevFree == some block)
      check (next != block)
      validateList head fuel next

def validateHead (fuel i : Nat) : HeapM Unit := do
  match ← getFreeList i with
  | none => pure ()
  | some head =>
    let b ← deref head
    check (b.isFree head)
    check (b.prevFree == none)
    validateList head fuel head

/-- The first `n` lists. -/
def validateLists (fuel : Nat) : Nat → HeapM Unit
  | 0 => pure ()
  | n + 1 => do
    validateLists fuel n
    validateHead fuel n

/-- Whether the list from `block` on holds the block `prev`. -/
def listHolds (prev : BlockPtr) : Nat → BlockPtr → HeapM Bool
  | 0, _ => fault .outOfFuel
  | fuel + 1, block => do
    let b ← deref block
    check (b.isFree block)
    if block = prev then return true
    else
      match b.nextFree with
      | none => return false
      | some next => listHolds prev fuel next

/-- The check that the list from `block` on does not hold the block `prev`. -/
def listLacks (prev : BlockPtr) : Nat → Option BlockPtr → HeapM Unit
  | _, none => pure ()
  | 0, some _ => fault .outOfFuel
  | fuel + 1, some block => do
    check (block != prev)
    let b ← deref block
    check (b.isFree block)
    listLacks prev fuel b.nextFree

/-- A free block is in the list of its size, and a taken one is not. -/
def validateMembership (fuel : Nat) (block : BlockPtr) (b : TlsfBlock) : HeapM Unit := do
  assumePositive b.size
  let head ← getFreeList (getListIndex b.size)
  if b.isFree block then
    match head with
    | none => fault .bugCheck
    | some head => check (← listHolds block fuel head)
  else listLacks block fuel head

/-- The block before `block`, if there is one, goes on to it. -/
def validateBefore (block : BlockPtr) (b : TlsfBlock) : HeapM Unit :=
  match b.prev with
  | none => pure ()
  | some prev => do
    let p ← deref prev
    check (p.next == some block)

/-- The walk down the chain: `nextOffset` is where the block at hand has to end, `computedSize`
the bytes seen so far. -/
def validateChain (lists : Nat) : Nat → Option BlockPtr → Nat → Nat → HeapM Nat
  | _, none, _, computedSize => pure computedSize
  | 0, some _, _, _ => fault .outOfFuel
  | fuel + 1, some block, nextOffset, computedSize => do
    let b ← deref block
    check (b.offset + b.size == nextOffset)
    validateMembership lists block b
    validateBefore block b
    validateChain lists fuel b.prev b.offset (computedSize + b.size)

def validate : HeapM Unit := do
  let h ← get
  validateLists (h.mBlockPool.objectCount + 1) h.mFreeListCount
  let n ← deref h.mNullBlock
  check (n.next == none)
  check (n.isFree h.mNullBlock)
  validateBefore h.mNullBlock n
  let computedSize ← validateChain (h.mBlockPool.objectCount + 1) (h.mBlockPool.objectCount + 1)
    n.prev n.offset n.size
  check (computedSize == h.mSize)

/-! ## Many ranges -/

/-- `merge`. -/
def mergeRanges (a b : AnyRange) : AnyRange := ⟨min a.front b.front, max a.back b.back⟩

def combinedInterval : List AnyRange → AnyRange
  | [] => ⟨0, 0⟩
  | range :: ranges => ranges.foldl mergeRanges range

/-- The loop over the holes between neighbours; the number is the bytes reserved so far. -/
def reserveHoles (reserved : Nat) : List AnyRange → HeapM (OsStatus × Nat)
  | range :: next :: ranges =>
    if range.back < next.front then do
      match ← reserve ⟨range.back, next.front⟩ with
      | (.success, _) => reserveHoles (reserved + (next.front - range.back)) (next :: ranges)
      | (status, _) => return (status, reserved)
    else reserveHoles reserved (next :: ranges)
  | _ => return (.success, reserved)

/-- `std::ranges::is_sorted(ranges, less, front)`. -/
def sortedByFront : List AnyRange → Bool
  | a :: b :: ranges => decide (a.front ≤ b.front) && sortedByFront (b :: ranges)
  | _ => true

/-- What is left of `create` when the heap over all ranges is there. -/
def reserveAll (ranges : List AnyRange) : HeapM OsStatus := do
  match ← reserveHoles 0 ranges with
  | (.success, reserved) =>
    modify fun h => { h with mReserved := reserved }
    validate
    return .success
  | (status, _) => return status

/-- `create` over many ranges. -/
def createMany (memory : SystemMemory) (ranges : List AnyRange) :
    Except Fault (OsStatus × Option TlsfHeap) := do
  if ranges = [] then return (.invalidInput, none)
  else if ranges.any fun range => decide range.isEmpty then return (.invalidInput, none)
  else
    match ranges with
    | [range] => create memory range
    | ranges =>
      if sortedByFront ranges = false then throw .bugCheck
      else
        match ← create memory (combinedInterval ranges) with
        | (.success, some h) =>
          let (status, h) ← reserveAll ranges h
          return (status, some h)
        | (status, h) => return (status, h)

variable {h h' : TlsfHeap} {base : Nat} {rs l t : List Region} {r : Region}
  {lists : Nat → List BlockPtr} {spare : List BlockPtr} {i n : Nat} {b head nullBlock : BlockPtr}
  {x y : List BlockPtr} {ranges : List AnyRange} {range : AnyRange} {pool : PoolAllocator}

/-! ## A well-formed heap is valid -/

section

variable (hl : Listed h lists)

include hl

lemma Listed.stored (hi : lists i = x ++ b :: y) :
    ∃ k, h.blocks b = some k ∧ k.isFree b = true ∧ k.prevFree = x.getLast? ∧
      k.nextFree = y.head? := by
  have hmem : b ∈ lists i := by simp [hi]
  obtain ⟨k, hk⟩ := Option.isSome_iff_exists.1 (hl.object i b hmem)
  obtain ⟨hprev, hnext⟩ := hl.neighbours hi hk
  exact ⟨k, hk, hl.isFree hmem hk, hprev, hnext⟩

lemma validateList_run (hi : lists i = x ++ b :: y) (hhead : (lists i).head? = some head)
    (hn : y.length < n) :
    validateList head n b h = .ok ((), h) := by
  induction n generalizing x b y with
  | zero => cases hn
  | succ n ih =>
    obtain ⟨k, hk, hfree, -, hnext⟩ := hl.stored hi
    rw [validateList, bind_run (deref_run hk), bind_run (check_run hfree), hnext]
    cases y with
    | nil => rfl
    | cons c y =>
      have hi' : lists i = (x ++ [b]) ++ c :: y := by simpa using hi
      obtain ⟨k', hk', hfree', hprev', -⟩ := hl.stored hi'
      have hnodup := hl.nodup i
      -- A block comes only once, so the next one is neither the head nor the block itself.
      have hnot : c ∉ x ++ [b] := by
        rw [hi', nodup_append] at hnodup
        exact fun hmem => hnodup.2.2 c hmem c (by simp) rfl
      have hne : (c != head) = true := by
        rw [bne_iff_ne]
        rintro rfl
        rw [hi', head?_append_of_ne_nil _ (by simp)] at hhead
        exact hnot (mem_of_mem_head? hhead)
      have hself : (c != b) = true := by
        rw [bne_iff_ne]
        rintro rfl
        exact hnot (by simp)
      have hback : (k'.prevFree == some b) = true := by
        rw [hprev']
        simp
      show (check (c != head) >>= _) h = _
      rw [bind_run (check_run hne), bind_run (deref_run hk'), bind_run (check_run hfree'),
        bind_run (check_run hback), bind_run (check_run hself)]
      exact ih hi' (by simpa using hn)

lemma validateHead_run (hi : i < h.mFreeListCount) (hn : (lists i).length ≤ n) :
    validateHead n i h = .ok ((), h) := by
  rw [validateHead, bind_run (getFreeList_run hi), hl.headed.head i]
  cases hlist : lists i with
  | nil => rfl
  | cons b y =>
    have hi' : lists i = [] ++ b :: y := hlist
    obtain ⟨k, hk, hfree, hprev, -⟩ := hl.stored hi'
    have hback : (k.prevFree == none) = true := by
      rw [hprev]
      rfl
    show (deref b >>= _) h = _
    rw [bind_run (deref_run hk), bind_run (check_run hfree), bind_run (check_run hback)]
    refine validateList_run hl hi' (by rw [hlist]; rfl) ?_
    rw [hlist] at hn
    exact hn

lemma validateLists_run (hn : ∀ i, (lists i).length ≤ n) {m : Nat} (hm : m ≤ h.mFreeListCount) :
    validateLists n m h = .ok ((), h) := by
  induction m with
  | zero => rfl
  | succ m ih =>
    rw [validateLists, bind_run (ih (by omega))]
    exact validateHead_run hl (by omega) (hn m)

lemma listHolds_run {c : BlockPtr} (hi : lists i = x ++ b :: y) (hc : c ∈ b :: y)
    (hn : y.length < n) : listHolds c n b h = .ok (true, h) := by
  induction n generalizing x b y with
  | zero => cases hn
  | succ n ih =>
    obtain ⟨k, hk, hfree, -, hnext⟩ := hl.stored hi
    rw [listHolds, bind_run (deref_run hk), bind_run (check_run hfree), hnext]
    by_cases heq : b = c
    · rw [if_pos heq]
      rfl
    · rw [if_neg heq]
      have hmem : c ∈ y := (mem_cons.1 hc).resolve_left (Ne.symm heq)
      cases y with
      | nil => cases hmem
      | cons d y =>
        have hi' : lists i = (x ++ [b]) ++ d :: y := by simpa using hi
        exact ih hi' hmem (by simpa using hn)

lemma listLacks_run {c : BlockPtr} (hi : lists i = x ++ y) (hc : c ∉ lists i) (hn : y.length ≤ n) :
    listLacks c n y.head? h = .ok ((), h) := by
  induction n generalizing x y with
  | zero =>
    obtain rfl : y = [] := length_eq_zero_iff.1 (Nat.le_zero.1 hn)
    rfl
  | succ n ih =>
    cases y with
    | nil => rfl
    | cons b y =>
      obtain ⟨k, hk, hfree, -, hnext⟩ := hl.stored hi
      have hne : (b != c) = true := by
        rw [bne_iff_ne]
        rintro rfl
        exact hc (by simp [hi])
      rw [head?_cons, listLacks, bind_run (check_run hne), bind_run (deref_run hk),
        bind_run (check_run hfree), hnext]
      exact @ih (x ++ [b]) y (by simpa using hi) (by simpa using hn)

end

lemma validateMembership_run {k : TlsfBlock} (hf : Formed h base (l ++ r :: t) lists spare)
    (hk : Represents.Stores h l r t k) (hnull : r.block ≠ h.mNullBlock)
    (hn : ∀ i, (lists i).length ≤ n) : validateMembership n r.block k h = .ok ((), h) := by
  have hindex := (hf.safe (r := r) (by simp)).list
  rw [validateMembership, hk.size, bind_run (assumePositive_run (hf.positive hnull)),
    bind_run (getFreeList_run hindex), hk.free, hf.repr.listed.headed.head _]
  cases hused : r.used with
  | true =>
    exact listLacks_run (x := []) hf.repr.listed rfl (hf.repr.used_not_listed hused _) (hn _)
  | false =>
    have hmem := hf.free_listed hused hnull
    cases hlist : lists (getListIndex r.size) with
    | nil => simp [hlist] at hmem
    | cons b y =>
      rw [hlist] at hmem
      have hi : lists (getListIndex r.size) = [] ++ b :: y := hlist
      have hlength := hn (getListIndex r.size)
      rw [hlist] at hlength
      have hholds := listHolds_run hf.repr.listed hi hmem hlength
      show (listHolds r.block n b >>= _) h = _
      rw [bind_run hholds]
      rfl

lemma validateBefore_run {k : TlsfBlock} (hr : Represents h (l ++ r :: t) lists spare)
    (hk : Represents.Stores h l r t k) : validateBefore r.block k h = .ok ((), h) := by
  rw [validateBefore, hk.prev]
  rcases eq_nil_or_concat l with rfl | ⟨l, p, rfl⟩
  · rfl
  · rw [concat_eq_append] at *
    have hr' : Represents h (l ++ p :: r :: t) lists spare := by simpa using hr
    obtain ⟨kp, hkp⟩ := hr'.stores
    have hnext : (kp.next == some r.block) = true := by
      rw [hkp.next]
      simp
    rw [show (blocksOf (l ++ [p])).getLast? = some p.block by simp]
    show (deref p.block >>= _) h = _
    rw [bind_run (deref_run hkp.block)]
    exact check_run hnext

lemma validateChain_run {m : Nat} (hf : Formed h base (l ++ t) lists spare) (ht : t ≠ [])
    (hn : ∀ i, (lists i).length ≤ n) (hm : l.length ≤ m) (size : Nat) :
    validateChain n m (blocksOf l).getLast? (base + extent (pieces l)) size h =
      .ok (size + extent (pieces l), h) := by
  induction m generalizing l t size with
  | zero =>
    obtain rfl : l = [] := length_eq_zero_iff.1 (Nat.le_zero.1 hm)
    rfl
  | succ m ih =>
    rcases eq_nil_or_concat l with rfl | ⟨l, r, rfl⟩
    · rfl
    rw [concat_eq_append] at *
    have hf' : Formed h base (l ++ r :: t) lists spare := by simpa using hf
    obtain ⟨k, hk⟩ := hf'.repr.stores
    have hnull : r.block ≠ h.mNullBlock := fun heq => ht (hf'.repr.null_iff.1 heq)
    have htiling := hf'.tiling.tiles
    rw [pieces_append, pieces_cons, tiles_middle] at htiling
    have hoffset : r.offset = base + extent (pieces l) := htiling.2.1
    have hextent : extent (pieces (l ++ [r])) = extent (pieces l) + r.size := by
      simp [Region.piece]
    have hend : (k.offset + k.size == base + extent (pieces (l ++ [r]))) = true := by
      rw [hk.offset, hk.size, hextent, beq_iff_eq]
      omega
    rw [show (blocksOf (l ++ [r])).getLast? = some r.block by simp, validateChain,
      bind_run (deref_run hk.block), bind_run (check_run hend),
      bind_run (validateMembership_run hf' hk hnull hn), bind_run (validateBefore_run hf'.repr hk),
      hk.prev, hk.offset, hk.size, hoffset, ih hf' (by simp) (by simpa using hm), hextent]
    rw [Nat.add_right_comm, Nat.add_assoc]

lemma validate_run (hf : Formed h base rs lists spare) : validate h = .ok ((), h) := by
  obtain ⟨l, n, rfl⟩ : ∃ l n, rs = l ++ [n] := by
    rcases eq_nil_or_concat rs with rfl | ⟨l, n, rfl⟩
    · exact absurd hf.repr.null (by simp)
    · exact ⟨l, n, by simp⟩
  have hnull : n.block = h.mNullBlock := hf.repr.null_iff.2 rfl
  obtain ⟨k, hk⟩ := hf.repr.stores
  have hlists : ∀ i, (lists i).length ≤ h.mBlockPool.objectCount + 1 := fun i =>
    Nat.le_succ_of_le (hf.repr.list_length_le i)
  have hlength := hf.repr.length_le
  rw [length_append, length_singleton] at hlength
  have htiling := hf.tiling
  rw [pieces_append, pieces_cons, pieces_nil] at htiling
  have hoffset : n.offset = base + extent (pieces l) := (tiles_middle.1 htiling.tiles).2.1
  have hextent : extent (pieces l) + n.size = h.mSize := by
    have hextent := htiling.extent
    simpa [Region.piece] using hextent
  have hnext : (k.next == none) = true := by
    rw [hk.next]
    rfl
  have hfree : k.isFree n.block = true := by
    rw [hk.free, hf.repr.null_used]
    rfl
  rw [validate, bind_run get_run, bind_run (validateLists_run hf.repr.listed hlists le_rfl), ← hnull,
    bind_run (deref_run hk.block), bind_run (check_run hnext), bind_run (check_run hfree),
    bind_run (validateBefore_run hf.repr hk), hk.prev, hk.offset, hk.size, hoffset,
    bind_run (validateChain_run hf (by simp) hlists (by omega) n.size)]
  refine check_run ?_
  rw [beq_iff_eq]
  omega

/-! ## One range -/

lemma init_wellformed (hvalid : pool.Valid) (hoccupied : ∀ a, pool.Occupied a ↔ a = nullBlock)
    (hrange : range.front ≤ range.back) (hlarge : 256 < range.size) (hsmall : range.size < 2 ^ 38)
    (hword : range.back < wordCount) :
    Wellformed (.init pool nullBlock range) range.front
      [⟨nullBlock, range.front, range.size, false⟩] (fun _ => []) [] := by
  have hblock : ∀ a, (init pool nullBlock range).blocks a =
      if a = nullBlock then some ⟨range.front, range.size, none, none, none, none⟩ else none := by
    intro a
    simp only [init, Function.update_apply]
  have hprevFree : (init pool nullBlock range).prevFreeOf nullBlock = none := by
    rw [prevFreeOf, hblock, if_pos rfl]
    rfl
  have hnextFree : (init pool nullBlock range).nextFreeOf nullBlock = none := by
    rw [nextFreeOf, hblock, if_pos rfl]
    rfl
  have hsome : ∀ a, ((init pool nullBlock range).blocks a).isSome = true ↔
      a = nullBlock := by
    intro a
    rw [hblock]
    split <;> simp [*]
  have hheaded : Headed (.init pool nullBlock range) fun _ => [] :=
    ⟨fun _ => rfl, fun c s _ => by simp [init], fun c _ => by simp [init]⟩
  have hrepr : Represents (.init pool nullBlock range)
      [⟨nullBlock, range.front, range.size, false⟩] (fun _ => []) [] := by
    refine ⟨⟨?_, trivial⟩, by simp, fun a => by simp [hsome], ?_, rfl, hprevFree, hnextFree,
      ⟨fun _ => trivial, fun _ => .nil, by simp, by simp, hheaded⟩, ?_, by simp, hvalid, ?_⟩
    · show ((init pool nullBlock range).blocks nullBlock).map TlsfBlock.core = _
      rw [hblock, if_pos rfl]
      rfl
    · intro r hr
      rw [mem_singleton.1 hr, hprevFree]
      simp
    · intro r hr i
      rw [mem_singleton.1 hr]
      simp [init]
    · intro a
      rw [hsome]
      exact hoccupied a
  have hsize : range.front + range.size = range.back := by
    rw [AnyRange.size]
    omega
  refine ⟨⟨hrepr, ⟨⟨rfl, trivial⟩, by simp [Region.piece, init], by simp⟩, rfl, hlarge,
    hsmall, ?_⟩, isChain_singleton _⟩
  show range.front + range.size < wordCount
  omega

lemma PoolAllocator.first_hands {grants : Nat → Bool}
    (ha : PoolAllocator.allocate ⟨[], 0, grants⟩ = (some nullBlock, pool)) :
    pool.Valid ∧ ∀ a, pool.Occupied a ↔ a = nullBlock := by
  have hempty : (⟨[], 0, grants⟩ : PoolAllocator).Valid :=
    ⟨by simp, by simp, by simp, by simp, by simp⟩
  have hhands := PoolAllocator.allocate_hands hempty ha
  refine ⟨hhands.valid, fun a => ?_⟩
  rw [hhands.occupied, or_iff_left]
  rintro ⟨m, hm, -⟩
  cases hm

lemma create_run (memory : SystemMemory) (range : AnyRange) (hrange : range.front ≤ range.back)
    (hlarge : 256 < range.size) (hsmall : range.size < 2 ^ 38) (hword : range.back < wordCount) :
    create memory range = .ok (.outOfMemory, none) ∨
    ∃ h nullBlock, create memory range = .ok (.success, some h) ∧ h.mSize = range.size ∧
      Wellformed h range.front [⟨nullBlock, range.front, range.size, false⟩] (fun _ => []) [] := by
  rw [create, if_neg (by omega)]
  rcases ha : PoolAllocator.allocate ⟨[], 0, memory.grants⟩ with ⟨_ | nullBlock, pool⟩
  · exact .inl rfl
  · obtain ⟨hvalid, hoccupied⟩ := PoolAllocator.first_hands ha
    cases hlists : memory.lists with
    | false => exact .inl (by simp)
    | true =>
      refine .inr ⟨.init pool nullBlock range, nullBlock, by simp, rfl, ?_⟩
      exact init_wellformed hvalid hoccupied hrange hlarge hsmall hword

/-! ## The holes -/

def holesOf : List AnyRange → List AnyRange
  | range :: next :: ranges =>
    if range.back < next.front then ⟨range.back, next.front⟩ :: holesOf (next :: ranges)
    else holesOf (next :: ranges)
  | _ => []

def usedPiece (range : AnyRange) : Piece := ⟨range.front, range.back - range.front, true⟩

lemma Wellformed.last_of_used_below (hw : Wellformed h base (l ++ r :: t) lists spare)
    (hfree : r.used = false) {a : Nat} (ha : a < r.offset + r.size)
    (hused : ∀ u ∈ usedRegions (l ++ r :: t), u.offset + u.size ≤ a) : t = [] := by
  cases t with
  | nil => rfl
  | cons q t =>
    exfalso
    have hcoalesced := hw.coalesced
    rw [pieces_append, pieces_cons, coalesced_middle] at hcoalesced
    have hq : q.used = true :=
      (hcoalesced.2.2.2 q.piece (by simp)).resolve_left (by simp [Region.piece, hfree])
    have hbehind := hw.toFormed.behind (q := q) (by simp)
    have hle := hused q (mem_filter.2 ⟨by simp, hq⟩)
    omega

lemma Wellformed.null_offset_le {n : Region} (hw : Wellformed h base (l ++ [n]) lists spare)
    {a : Nat} (hbase : base ≤ a) (hused : ∀ u ∈ usedRegions (l ++ [n]), u.offset + u.size ≤ a) :
    n.offset ≤ a := by
  have htiles := hw.tiling.tiles
  rcases hw.before hw.repr.null_used with rfl | ⟨l, p, rfl, hp⟩
  · have hoffset : n.offset = base := htiles.1
    omega
  · have hle := hused p (mem_filter.2 ⟨by simp, hp⟩)
    have htiles' : Tiles base (pieces l ++ p.piece :: n.piece :: []) := by simpa using htiles
    obtain ⟨-, hoffset, hnext, -⟩ := tiles_middle.1 htiles'
    simp only [Region.piece] at hoffset hnext
    omega

lemma reserve_hole (hole : AnyRange) (hw : Wellformed h base rs lists spare)
    (hbase : base ≤ hole.front) (hrange : hole.front < hole.back)
    (hend : hole.back ≤ base + h.mSize)
    (hused : ∀ u ∈ usedRegions rs, u.offset + u.size ≤ hole.front) :
    (∃ h' b, reserve hole h = .ok ((.outOfMemory, b), h')) ∨
    ∃ h' b rs' lists', reserve hole h = .ok ((.success, b), h') ∧ Keeps h h' ∧
      Wellformed h' base rs' lists' spare ∧
      pieces (usedRegions rs') = pieces (usedRegions rs) ++ [usedPiece hole] := by
  obtain ⟨l0, n, rfl⟩ : ∃ l n, rs = l ++ [n] := by
    rcases eq_nil_or_concat rs with rfl | ⟨l, n, rfl⟩
    · exact absurd hw.repr.null (by simp)
    · exact ⟨l, n, by simp⟩
  have hlast : ∀ {l r t}, Finds (l0 ++ [n]) l r t hole → t = [] := by
    intro l r t hfinds
    have hback := hfinds.back
    rw [hfinds.chain] at hw hused
    exact hw.last_of_used_below hfinds.free (by omega) hused
  have hout := reserve_run hw hrange fun l r t hfinds _ _ => .inl <| by
    have hr := hw.repr
    rw [hfinds.chain] at hr
    exact hr.null_iff.2 (hlast hfinds)
  generalize reserve hole h = result at hout
  cases hout with
  | @reserved l t rs' r h' lists' hfinds _ hkeeps hw' hlive =>
    obtain rfl := hlast hfinds
    refine .inr ⟨h', _, rs', lists', rfl, hkeeps, hw', ?_⟩
    rw [hlive, hfinds.chain, pieces_append, usedRegions_append, usedRegions_free hfinds.free]
    simp [usedPiece, Region.piece]
  | exhausted => exact .inl ⟨_, _, rfl⟩
  | halfway => exact .inl ⟨_, _, rfl⟩
  | missed hnone =>
    exfalso
    have hnull := hw.null_offset_le hbase hused
    have htiling := hw.tiling.extent
    have htiles := hw.tiling.tiles
    rw [pieces_append, pieces_cons, pieces_nil] at htiling htiles
    have hoffset : n.offset = base + extent (pieces l0) := (tiles_middle.1 htiles).2.1
    rw [extent_append, extent_cons, extent_nil] at htiling
    simp only [Region.piece] at htiling
    exact hnone l0 n [] ⟨rfl, hw.repr.null_used, hnull, by omega, .inr rfl⟩

lemma reserveHoles_run (reserved : Nat) (hw : Wellformed h base rs lists spare)
    (hsorted : (range :: ranges).IsChain fun a b => a.front ≤ b.front)
    (hpos : ∀ a ∈ range :: ranges, a.front < a.back)
    (hend : ∀ a ∈ range :: ranges, a.back ≤ base + h.mSize) (hbase : base ≤ range.front)
    (hused : ∀ u ∈ usedRegions rs, u.offset + u.size ≤ range.front) :
    (∃ n h', reserveHoles reserved (range :: ranges) h = .ok ((.outOfMemory, n), h')) ∨
    ∃ h' rs' lists', reserveHoles reserved (range :: ranges) h = .ok ((.success,
        reserved + ((holesOf (range :: ranges)).map AnyRange.size).sum), h') ∧ Keeps h h' ∧
      Wellformed h' base rs' lists' spare ∧ pieces (usedRegions rs') =
        pieces (usedRegions rs) ++ (holesOf (range :: ranges)).map usedPiece := by
  induction ranges generalizing range reserved h rs lists with
  | nil => exact .inr ⟨h, rs, lists, rfl, .refl h, hw, by simp [holesOf]⟩
  | cons next ranges ih =>
    obtain ⟨hle, hsorted'⟩ := isChain_cons_cons.1 hsorted
    have hfront := hpos range (by simp)
    have hnext := hpos next (by simp)
    have hpos' : ∀ a ∈ next :: ranges, a.front < a.back := fun a ha =>
      hpos a (mem_cons_of_mem _ ha)
    have hend' : ∀ a ∈ next :: ranges, a.back ≤ base + h.mSize := fun a ha =>
      hend a (mem_cons_of_mem _ ha)
    rw [reserveHoles, holesOf]
    by_cases hhole : range.back < next.front
    case neg =>
      rw [if_neg hhole, if_neg hhole]
      refine ih reserved hw hsorted' hpos' hend' (by omega) fun u hu => ?_
      have hu := hused u hu
      omega
    rw [if_pos hhole, if_pos hhole]
    have hback := hend' next (by simp)
    rcases reserve_hole ⟨range.back, next.front⟩ hw (show base ≤ range.back by omega) hhole
      (show next.front ≤ base + h.mSize by omega) (fun u hu => by
        have hu := hused u hu
        show u.offset + u.size ≤ range.back
        omega) with
      ⟨h1, b, hrun⟩ | ⟨h1, b, rs1, lists1, hrun, hkeeps, hw1, hlive⟩
    · rw [bind_run hrun]
      exact .inl ⟨_, h1, rfl⟩
    · have hused1 : ∀ u ∈ usedRegions rs1, u.offset + u.size ≤ next.front := by
        intro u hu
        have hmem : u.piece ∈ pieces (usedRegions rs1) := piece_mem hu
        rw [hlive, mem_append, mem_singleton] at hmem
        rcases hmem with hmem | heq
        · obtain ⟨q, hq, hpiece⟩ := mem_map.1 hmem
          have hle' := hused q hq
          simp only [Region.piece, Piece.mk.injEq] at hpiece
          omega
        · simp only [Region.piece, usedPiece, Piece.mk.injEq] at heq
          omega
      rw [bind_run hrun]
      rcases ih (reserved + (next.front - range.back)) hw1 hsorted' hpos'
          (by rw [hkeeps.mSize]; exact hend') (by omega) hused1 with
        ⟨n, h2, hrun2⟩ | ⟨h2, rs2, lists2, hrun2, hkeeps2, hw2, hlive2⟩
      · exact .inl ⟨n, h2, hrun2⟩
      · refine .inr ⟨h2, rs2, lists2, ?_, hkeeps.trans hkeeps2, hw2, ?_⟩
        · rw [map_cons, sum_cons, ← Nat.add_assoc]
          exact hrun2
        · rw [hlive2, hlive, append_assoc]
          rfl

/-! ## Many ranges -/

lemma combinedInterval_bounds (hsorted : ∀ a ∈ ranges, range.front ≤ a.front) :
    (combinedInterval (range :: ranges)).front = range.front ∧
      ∀ a ∈ range :: ranges, a.back ≤ (combinedInterval (range :: ranges)).back := by
  induction ranges generalizing range with
  | nil => simp [combinedInterval]
  | cons next ranges ih =>
    have hle := hsorted next (by simp)
    have hmerge : (mergeRanges range next).front = range.front := Nat.min_eq_left hle
    have hrest : ∀ a ∈ ranges, (mergeRanges range next).front ≤ a.front := fun a ha => by
      rw [hmerge]
      exact hsorted a (mem_cons_of_mem _ ha)
    obtain ⟨hfront, hback⟩ := ih hrest
    have heq : combinedInterval (range :: next :: ranges) =
        combinedInterval (mergeRanges range next :: ranges) := rfl
    rw [heq]
    refine ⟨hfront.trans hmerge, ?_⟩
    have hboth := hback (mergeRanges range next) (by simp)
    have hmax : (mergeRanges range next).back = max range.back next.back := rfl
    intro a ha
    rcases mem_cons.1 ha with rfl | ha
    · omega
    · rcases mem_cons.1 ha with rfl | ha
      · omega
      · exact hback a (mem_cons_of_mem _ ha)

/-- The ranges a heap can be made from: sorted and not empty. -/
structure Ordered (ranges : List AnyRange) : Prop where
  sorted : ranges.IsChain fun a b => a.front ≤ b.front
  positive : ∀ a ∈ ranges, a.front < a.back

namespace Ordered

variable {range next : AnyRange} {ranges : List AnyRange}

lemma tail (hs : Ordered (range :: ranges)) : Ordered ranges :=
  ⟨hs.sorted.tail, fun a ha => hs.positive a (mem_cons_of_mem _ ha)⟩

lemma front_le (hs : Ordered (range :: ranges)) : ∀ a ∈ ranges, range.front ≤ a.front := by
  induction ranges generalizing range with
  | nil => simp
  | cons next ranges ih =>
    obtain ⟨hle, -⟩ := isChain_cons_cons.1 hs.sorted
    intro a ha
    rcases mem_cons.1 ha with rfl | ha
    · exact hle
    · have hfront := ih hs.tail a ha
      omega

lemma any_isEmpty (hs : Ordered ranges) :
    ranges.any (fun range => decide range.isEmpty) = false := by
  rw [any_eq_false]
  intro a ha
  have hpos := hs.positive a ha
  rw [decide_eq_true_eq, AnyRange.isEmpty]
  omega

lemma sortedByFront (hs : Ordered ranges) : sortedByFront ranges = true := by
  induction ranges with
  | nil => rfl
  | cons range ranges ih =>
    cases ranges with
    | nil => rfl
    | cons next ranges =>
      rw [Tlsf.sortedByFront, ih hs.tail, decide_eq_true (hs.front_le next (by simp))]
      rfl

end Ordered

/-- The bounds on the span of a heap for which every index is in bounds. -/
structure Spans (range : AnyRange) : Prop where
  large : 256 < range.size
  small : range.size < 2 ^ 38
  word : range.back < wordCount

lemma reserveAll_run (hw : Wellformed h base rs lists spare) (hs : Ordered (range :: ranges))
    (hend : ∀ a ∈ range :: ranges, a.back ≤ base + h.mSize) (hbase : base ≤ range.front)
    (hused : usedRegions rs = []) :
    (∃ h', reserveAll (range :: ranges) h = .ok (.outOfMemory, h')) ∨
    ∃ h' rs' lists', reserveAll (range :: ranges) h = .ok (.success, h') ∧ h'.mSize = h.mSize ∧
      Wellformed h' base rs' lists' spare ∧
      pieces (usedRegions rs') = (holesOf (range :: ranges)).map usedPiece := by
  rw [reserveAll]
  rcases reserveHoles_run 0 hw hs.sorted hs.positive hend hbase (by simp [hused]) with
    ⟨n, h1, hrun⟩ | ⟨h1, rs1, lists1, hrun, hkeeps, hw1, hlive⟩
  · rw [bind_run hrun]
    exact .inl ⟨h1, rfl⟩
  · have hf2 := hw1.toFormed.recount ((holesOf (range :: ranges)).map AnyRange.size).sum
      h1.mMallocCount h1.mFreeCount
    rw [Nat.zero_add] at hrun
    rw [hused] at hlive
    refine .inr ⟨{ h1 with mReserved := ((holesOf (range :: ranges)).map AnyRange.size).sum }, rs1,
      lists1, ?_, hkeeps.mSize, ⟨hf2, hw1.coalesced⟩, hlive⟩
    rw [bind_run hrun]
    show ((modify _ : HeapM Unit) >>= _) h1 = _
    rw [bind_run (modify_run _), bind_run (validate_run hf2)]
    rfl

lemma createMany_run (memory : SystemMemory) (hs : Ordered (range :: ranges))
    (hspan : Spans (combinedInterval (range :: ranges))) :
    (∃ h, createMany memory (range :: ranges) = .ok (.outOfMemory, h)) ∨
    ∃ h rs lists, createMany memory (range :: ranges) = .ok (.success, some h) ∧
      h.mSize = (combinedInterval (range :: ranges)).size ∧ Wellformed h range.front rs lists [] ∧
      pieces (usedRegions rs) = (holesOf (range :: ranges)).map usedPiece := by
  have hpos := hs.positive range (by simp)
  obtain ⟨hfront, hback⟩ := combinedInterval_bounds hs.front_le
  have hbackFirst := hback range (by simp)
  have hsize : (combinedInterval (range :: ranges)).front +
      (combinedInterval (range :: ranges)).size = (combinedInterval (range :: ranges)).back := by
    rw [AnyRange.size]
    omega
  have hcreate := create_run memory (combinedInterval (range :: ranges)) (by omega)
    hspan.large hspan.small hspan.word
  rw [hfront] at hcreate
  unfold createMany
  rw [if_neg (by simp), if_neg (by rw [hs.any_isEmpty]; simp)]
  cases ranges with
  | nil =>
    show (∃ h, create memory range = _) ∨ ∃ h rs lists, create memory range = _ ∧ _
    rcases hcreate with hnone | ⟨h1, nullBlock, hrun, hmSize, hw1⟩
    · exact .inl ⟨none, hnone⟩
    · exact .inr ⟨h1, _, _, hrun, hmSize, hw1, rfl⟩
  | cons next ranges =>
    simp only [hs.sortedByFront, if_neg Bool.true_eq_false_eq_False]
    rcases hcreate with hnone | ⟨h1, nullBlock, hrun, hmSize, hw1⟩
    · rw [hnone]
      exact .inl ⟨none, rfl⟩
    · have hends : ∀ a ∈ range :: next :: ranges, a.back ≤ range.front + h1.mSize := by
        intro a ha
        have hle := hback a ha
        rw [hmSize]
        omega
      rw [hrun]
      show (∃ h, (reserveAll (range :: next :: ranges) h1 >>= _) = _) ∨
        ∃ h rs lists, (reserveAll (range :: next :: ranges) h1 >>= _) = _ ∧ _
      rcases reserveAll_run hw1 hs hends le_rfl (usedRegions_free rfl) with
        ⟨h2, hrun2⟩ | ⟨h2, rs2, lists2, hrun2, hmSize2, hw2, hlive2⟩
      · rw [hrun2]
        exact .inl ⟨some h2, rfl⟩
      · rw [hrun2]
        exact .inr ⟨h2, rs2, lists2, rfl, hmSize2.trans hmSize, hw2, hlive2⟩

end Tlsf
end BezOS
