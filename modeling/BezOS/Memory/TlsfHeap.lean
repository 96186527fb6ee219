import BezOS.Memory.ControlBlock
import BezOS.Memory.PoolAllocator
import BezOS.Memory.Range
import BezOS.Memory.TlsfIndex

/-!
# The heap

`TlsfHeap` of `memory/heap.cpp`, pointer by pointer. The blocks of the heap are objects of a pool;
a pointer to a slot that holds none, like the null pointer, cannot be followed. A block is taken
when its `prevFree` names the block itself.

A call either returns, with the state of the heap after it, or ends in a fault: a failed check or
assertion is a bug check, and what the language does not define (a null pointer, an index out of
bounds, a shift as wide as the word, the list index of a block without bytes) is a bad access. The
loops over linked blocks are given one step for each object of the pool and one more.
-/

namespace BezOS
namespace Tlsf

open Lib Function

abbrev BlockPtr := PoolSlot

structure TlsfBlock where
  offset : Nat
  size : Nat
  prev : Option BlockPtr
  next : Option BlockPtr
  nextFree : Option BlockPtr
  prevFree : Option BlockPtr
  deriving DecidableEq

/-- `TlsfBlock {}`. -/
instance : Inhabited TlsfBlock := ⟨⟨0, 0, none, none, none, none⟩⟩

/-- `isFree`, of the block at `self`. -/
def TlsfBlock.isFree (b : TlsfBlock) (self : BlockPtr) : Bool := b.prevFree != some self

structure TlsfHeap where
  mSize : Nat
  mReserved : Nat
  mMallocCount : Nat
  mFreeCount : Nat
  mBlockPool : PoolAllocator
  /-- The objects in the slots of the pool. -/
  blocks : BlockPtr → Option TlsfBlock
  mNullBlock : BlockPtr
  mFreeListCount : Nat
  mFreeList : Nat → Option BlockPtr
  mInnerFreeMap : Nat → BitVec 32
  mTopLevelFreeMap : BitVec 32

abbrev HeapM := StateT TlsfHeap (Except Fault)

/-! ## Memory -/

def fault {α : Type} (f : Fault) : HeapM α := fun _ => .error f

/-- `KM_CHECK` and `KM_ASSERT`. -/
def check (c : Bool) : HeapM Unit := if c then pure () else fault .bugCheck

def deref (b : BlockPtr) : HeapM TlsfBlock := fun h =>
  match h.blocks b with
  | some block => .ok (block, h)
  | none => .error .badAccess

/-- Use of a pointer that may be null. -/
def nonNull : Option BlockPtr → HeapM BlockPtr
  | some b => pure b
  | none => fault .badAccess

def TlsfHeap.setBlock (h : TlsfHeap) (b : BlockPtr) (block : Option TlsfBlock) : TlsfHeap :=
  { h with blocks := update h.blocks b block }

def write (b : BlockPtr) (f : TlsfBlock → TlsfBlock) : HeapM Unit := fun h =>
  match h.blocks b with
  | some block => .ok ((), h.setBlock b (some (f block)))
  | none => .error .badAccess

/-- The assignments under `if (p != nullptr)`. -/
def writeIf (p : Option BlockPtr) (f : TlsfBlock → TlsfBlock) : HeapM Unit :=
  match p with
  | some b => write b f
  | none => pure ()

/-- `mBlockPool.construct(init)`. -/
def construct (init : TlsfBlock) : HeapM (Option BlockPtr) := fun h =>
  match h.mBlockPool.allocate with
  | (some b, pool) => .ok (some b, { h with mBlockPool := pool }.setBlock b (some init))
  | (none, pool) => .ok (none, { h with mBlockPool := pool })

/-- `mBlockPool.destroy`. -/
def destroy (b : BlockPtr) : HeapM Unit := fun h => do
  let pool ← h.mBlockPool.release b
  return ((), { h with mBlockPool := pool }.setBlock b none)

def getFreeList (i : Nat) : HeapM (Option BlockPtr) := fun h =>
  if i < h.mFreeListCount then .ok (h.mFreeList i, h) else .error .badAccess

def setFreeList (i : Nat) (b : Option BlockPtr) : HeapM Unit := fun h =>
  if i < h.mFreeListCount then .ok ((), { h with mFreeList := update h.mFreeList i b })
  else .error .badAccess

def getInner (c : Nat) : HeapM (BitVec 32) := fun h =>
  if c < kMaxMemoryClass then .ok (h.mInnerFreeMap c, h) else .error .badAccess

def setInner (c : Nat) (m : BitVec 32) : HeapM Unit := fun h =>
  if c < kMaxMemoryClass then
    .ok ((), { h with mInnerFreeMap := update h.mInnerFreeMap c m })
  else .error .badAccess

/-- `x << n`. -/
def shiftLeft (x : BitVec 32) (n : Nat) : HeapM (BitVec 32) :=
  if n < kBitMapDigits then pure (x <<< n) else fault .badAccess

/-- `[[assume(size > 0)]]`, which stands before the step of a size is computed. -/
def assumePositive (size : Nat) : HeapM Unit := if 0 < size then pure () else fault .badAccess

/-! ## Free lists -/

/-- The list of a block becomes empty, or its last block leaves: its bits go. -/
def clearBits (memoryClass second : Nat) : HeapM Unit := do
  let inner ← getInner memoryClass
  let bit ← shiftLeft 1 second
  setInner memoryClass (inner &&& ~~~ bit)
  if inner &&& ~~~ bit = 0 then
    let bit ← shiftLeft 1 memoryClass
    modify fun h => { h with mTopLevelFreeMap := h.mTopLevelFreeMap &&& ~~~ bit }
  else pure ()

def setBits (memoryClass second : Nat) : HeapM Unit := do
  let inner ← getInner memoryClass
  let bit ← shiftLeft 1 second
  setInner memoryClass (inner ||| bit)
  let bit ← shiftLeft 1 memoryClass
  modify fun h => { h with mTopLevelFreeMap := h.mTopLevelFreeMap ||| bit }

/-- The block before `b` in its list, or the head of the list, goes on to the block after `b`. -/
def unlinkBefore (b : TlsfBlock) : HeapM Unit :=
  match b.prevFree with
  | some p => do
    let before ← deref p
    check (before.isFree p)
    write p fun p => { p with nextFree := b.nextFree }
  | none => do
    assumePositive b.size
    let memoryClass := sizeToMemoryClass b.size
    let second := sizeToSecondIndex b.size memoryClass
    setFreeList (getListIndexOf memoryClass second) b.nextFree
    if b.nextFree = none then clearBits memoryClass second else pure ()

def takeBlockFromFreeList (block : BlockPtr) : HeapM Unit := do
  let h ← get
  check (block != h.mNullBlock)
  let b ← deref block
  check (b.isFree block)
  writeIf b.nextFree fun n => { n with prevFree := b.prevFree }
  unlinkBefore b
  write block fun b => { b with prevFree := some block }

def releaseBlockToFreeList (block : BlockPtr) : HeapM Unit := do
  let h ← get
  check (block != h.mNullBlock)
  let b ← deref block
  check (!b.isFree block)
  assumePositive b.size
  let memoryClass := sizeToMemoryClass b.size
  let second := sizeToSecondIndex b.size memoryClass
  let head ← getFreeList (getListIndexOf memoryClass second)
  write block fun b => { b with prevFree := none, nextFree := head }
  setFreeList (getListIndexOf memoryClass second) (some block)
  match head with
  | some n => write n fun n => { n with prevFree := some block }
  | none => setBits memoryClass second

/-- A block that is not the first of its list moves to the front of the list `listIndex`. -/
def detachBlock (block : BlockPtr) (listIndex : Nat) : HeapM Unit := do
  let h ← get
  let b ← deref block
  if listIndex ≠ h.mFreeListCount then
    match b.prevFree with
    | none => pure ()
    | some p =>
      let before ← deref p
      check (before.isFree p)
      check (b.isFree block)
      write p fun p => { p with nextFree := b.nextFree }
      writeIf b.nextFree fun n => { n with prevFree := some p }
      let head ← getFreeList listIndex
      write block fun b => { b with prevFree := none, nextFree := head }
      setFreeList listIndex (some block)
      writeIf head fun n => { n with prevFree := some block }
  else pure ()

/-! ## Merging and resizing -/

/-- `block` takes the place of `prev`, the block before it. -/
def mergeBlock (block prev : BlockPtr) : HeapM Unit := do
  let b ← deref block
  check (b.prev == some prev)
  let p ← deref prev
  check (!p.isFree prev)
  write block fun b => { b with offset := p.offset, size := b.size + p.size, prev := p.prev }
  writeIf p.prev fun x => { x with next := some block }
  destroy prev

def resizeBlock (block : BlockPtr) (newSize : Nat) : HeapM Unit := do
  let h ← get
  check (block != h.mNullBlock)
  let b ← deref block
  assumePositive b.size
  assumePositive newSize
  if getListIndex b.size ≠ getListIndex newSize then
    takeBlockFromFreeList block
    write block fun b => { b with size := newSize }
    releaseBlockToFreeList block
  else pure ()

/-! ## Splitting -/

def splitBlock (block : BlockPtr) (midpoint : Nat) (newBlock : BlockPtr) :
    HeapM (BlockPtr × BlockPtr) := do
  let b ← deref block
  let size := wrapSub wordCount midpoint b.offset
  let extraSize := wrapSub wordCount b.size size
  check (decide (0 < size))
  check (decide (0 < extraSize))
  write newBlock fun _ => ⟨midpoint, extraSize, some block, b.next, none, none⟩
  write block fun b => { b with size := size, next := some newBlock }
  let next ← nonNull b.next
  write next fun n => { n with prev := some newBlock }
  write newBlock fun n => { n with prevFree := some newBlock }
  -- The two handles are made from blocks that are not free.
  let lo ← deref block
  check (!lo.isFree block)
  return (block, newBlock)

def split (block : BlockPtr) (midpoint : Nat) : HeapM (OsStatus × Option (BlockPtr × BlockPtr)) := do
  let h ← get
  check (block != h.mNullBlock)
  let b ← deref block
  check (!b.isFree block)
  if midpoint < b.offset ∨ b.offset + b.size ≤ midpoint then return (.invalidInput, none)
  else if midpoint - b.offset = b.size ∨ b.size < midpoint - b.offset ∨ midpoint - b.offset = 0 then
    return (.invalidInput, none)
  else
    match ← construct default with
    | none => return (.outOfMemory, none)
    | some newBlock =>
      let (lo, hi) ← splitBlock block midpoint newBlock
      return (.success, some (lo, hi))

/-! ## Splitting at many points -/

/-- The results of `splitv`: a span the caller owns, in which the new blocks are kept until each
gets its place. -/
abbrev Results := List (Option BlockPtr)

/-- `results[i] = b`. -/
def setResult (results : Results) (i : Nat) (b : BlockPtr) : HeapM Results :=
  if i < results.length then pure (results.set i (some b)) else fault .badAccess

/-- `results[i]`, where a block was stored. -/
def getResult (results : Results) (i : Nat) : HeapM BlockPtr :=
  match results[i]? with
  | some b => nonNull b
  | none => fault .badAccess

/-- `std::ranges::is_sorted(points)` and no two neighbours equal. -/
def strictlySorted : List Nat → Bool
  | a :: b :: points => decide (a < b) && strictlySorted (b :: points)
  | _ => true

/-- The destruction of the blocks `storage[i - 1]`, ..., `storage[1]`. -/
def rollBack (results : Results) : Nat → HeapM Unit
  | 0 => pure ()
  | 1 => pure ()
  | j + 2 => do
    destroy (← getResult results (j + 1))
    rollBack results (j + 1)

/-- The loop that fills `storage[i]`, ..., `storage[i + n - 1]` with new blocks. When one is missing
the others go back to the pool, but stay in the results. -/
def storeBlocks (results : Results) (i : Nat) : Nat → HeapM (Bool × Results)
  | 0 => pure (true, results)
  | n + 1 => do
    match ← construct default with
    | none =>
      rollBack results i
      return (false, results)
    | some block =>
      let results ← setResult results i block
      storeBlocks results (i + 1) n

/-- The loop that cuts at `points[i]` and at those after it; the last cut also fills the last
result. -/
def cutBlocks (results : Results) (i : Nat) (lo next : BlockPtr) : List Nat → HeapM Results
  | [] => pure results
  | [point] => do
    let (lo, hi) ← splitBlock lo point next
    let results ← setResult results i lo
    setResult results (i + 1) hi
  | point :: points => do
    let (lo, hi) ← splitBlock lo point next
    let next ← getResult results (i + 2)
    let results ← setResult results i lo
    cutBlocks results (i + 1) hi next points

def splitv (block : BlockPtr) (points : List Nat) (results : Results) :
    HeapM (OsStatus × Results) := do
  let b ← deref block
  let range : AnyRange := ⟨b.offset, b.offset + b.size⟩
  if points = [] then return (.invalidInput, results)
  else if results.length + 1 ≤ points.length then return (.invalidInput, results)
  else if strictlySorted points = false then return (.invalidInput, results)
  else if points.any fun point =>
      decide (¬ range.contains point ∨ range.front = point ∨ range.back = point) then
    return (.invalidInput, results)
  else
    match ← storeBlocks results 1 points.length with
    | (false, results) => return (.outOfMemory, results)
    | (true, results) =>
      let next ← getResult results 1
      let results ← cutBlocks results 0 block next points
      return (.success, results)

/-! ## Cutting a piece out of a free block -/

/-- The destructor of `BlockBuffer`; the last block reserved stands first. -/
def destroyBuffer : List BlockPtr → HeapM Unit
  | [] => pure ()
  | b :: buffer => do
    destroyBuffer buffer
    destroy b

/-- `BlockBuffer::reserve`; the blocks of a buffer that could not be filled go back to the pool. -/
def reserveBuffer (buffer : List BlockPtr) : Nat → HeapM (Option (List BlockPtr))
  | 0 => pure (some buffer)
  | count + 1 => do
    match ← construct default with
    | some b => reserveBuffer (b :: buffer) count
    | none =>
      destroyBuffer buffer
      return none

/-- `BlockBuffer::take`. -/
def takeBuffer (init : TlsfBlock) : List BlockPtr → HeapM (BlockPtr × List BlockPtr)
  | [] => fault .bugCheck
  | b :: buffer => do
    write b fun _ => init
    return (b, buffer)

/-- The bytes before the aligned offset go to `prev`, or to a new free block between the two. -/
def padBefore (block prev : BlockPtr) (offset missingAlignment : Nat) (buffer : List BlockPtr) :
    HeapM (List BlockPtr) := do
  let p ← deref prev
  if p.isFree prev then do
    resizeBlock prev (wrapAdd wordCount p.size missingAlignment)
    return buffer
  else do
    let (newBlock, buffer) ←
      takeBuffer ⟨offset, missingAlignment, some prev, some block, none, none⟩ buffer
    write block fun b => { b with prev := some newBlock }
    write prev fun p => { p with next := some newBlock }
    write newBlock fun n => { n with prevFree := some newBlock }
    releaseBlockToFreeList newBlock
    return buffer

/-- The part of `reserveBlock` under `if (missingAlignment > 0)`. -/
def padBlock (block : BlockPtr) (missingAlignment : Nat) (buffer : List BlockPtr) :
    HeapM (List BlockPtr) :=
  if 0 < missingAlignment then do
    let b ← deref block
    match b.prev with
    | none => fault .bugCheck
    | some prev => do
      let buffer ← padBefore block prev b.offset missingAlignment buffer
      write block fun b =>
        { b with
          size := wrapSub wordCount b.size missingAlignment
          offset := wrapAdd wordCount b.offset missingAlignment }
      return buffer
  else return buffer

/-- The bytes after the first `size` ones go to a new free block, or become the null block. -/
def cutTail (block : BlockPtr) (size : Nat) (buffer : List BlockPtr) : HeapM (List BlockPtr) := do
  let b ← deref block
  let h ← get
  if b.size = size then
    if block = h.mNullBlock then do
      let (newNullBlock, buffer) ←
        takeBuffer ⟨wrapAdd wordCount b.offset size, 0, some block, none, none, none⟩ buffer
      modify fun h => { h with mNullBlock := newNullBlock }
      write block fun b => { b with next := some newNullBlock, prevFree := some block }
      return buffer
    else return buffer
  else do
    check (decide (size < b.size))
    let (newBlock, buffer) ←
      takeBuffer ⟨wrapAdd wordCount b.offset size, b.size - size, some block, b.next, none, none⟩
        buffer
    write block fun b => { b with next := some newBlock, size := size }
    if block = h.mNullBlock then do
      modify fun h => { h with mNullBlock := newBlock }
      write block fun b => { b with prevFree := some block }
      return buffer
    else do
      let next ← nonNull b.next
      write next fun n => { n with prev := some newBlock }
      write newBlock fun n => { n with prevFree := some newBlock }
      releaseBlockToFreeList newBlock
      return buffer

/-- The number of blocks that cutting `size` bytes at `alignedOffset` out of a block takes. -/
def requiredBlocks (block : BlockPtr) (b : TlsfBlock) (size missingAlignment : Nat) :
    HeapM Nat := do
  let h ← get
  if 0 < missingAlignment then do
    let prev ← nonNull b.prev
    let p ← deref prev
    let innerSize := wrapSub wordCount b.size missingAlignment
    return (if p.isFree prev then 0 else 1) +
      if innerSize = size ∧ block ≠ h.mNullBlock then 0 else 1
  else return if b.size = size ∧ block ≠ h.mNullBlock then 0 else 1

/-- The null block is in no list. -/
def takeIfListed (block : BlockPtr) : HeapM Unit := do
  let h ← get
  if block ≠ h.mNullBlock then takeBlockFromFreeList block else pure ()

/-- `reserveBlock`; no result stands for `false`. -/
def reserveBlock (block : BlockPtr) (size alignedOffset listIndex : Nat) :
    HeapM (Option BlockPtr) := do
  let b ← deref block
  let missingAlignment := wrapSub wordCount alignedOffset b.offset
  let required ← requiredBlocks block b size missingAlignment
  match ← reserveBuffer [] required with
  | none => return none
  | some buffer =>
    detachBlock block listIndex
    takeIfListed block
    let buffer ← padBlock block missingAlignment buffer
    let buffer ← cutTail block size buffer
    let b ← deref block
    check (!b.isFree block)
    destroyBuffer buffer
    return some block

/-! ## Searching -/

/-- `BitScanTrailing` of a bitmap. -/
def bitScanTrailing (mask : BitVec 32) : Nat :=
  if mask = 0 then 255 else (List.range 32).findIdx mask.getLsbD

/-- `findFreeBlock`: the head of the first list, from the list of `size` on, that the bitmaps say
is not empty, and the index of that list. -/
def findFreeBlock (size : Nat) : HeapM (Option BlockPtr × Nat) := do
  check (decide (0 < size))
  let memoryClass := sizeToMemoryClass size
  let second := sizeToSecondIndex size memoryClass
  if kBitMapDigits < memoryClass then return (none, 0)
  else do
    let inner ← getInner memoryClass
    let mask ← shiftLeft (BitVec.allOnes 32) second
    if inner &&& mask = 0 then do
      let mask ← shiftLeft (BitVec.allOnes 32) (memoryClass + 1)
      let h ← get
      if h.mTopLevelFreeMap &&& mask = 0 then return (none, 0)
      else do
        let memoryClass := bitScanTrailing (h.mTopLevelFreeMap &&& mask)
        let inner ← getInner memoryClass
        check (inner != 0)
        let index := getListIndexOf memoryClass (bitScanTrailing inner)
        return (← getFreeList index, index)
    else do
      let index := getListIndexOf memoryClass (bitScanTrailing (inner &&& mask))
      return (← getFreeList index, index)

def roundup (value multiple : Nat) : Nat :=
  wrapAdd wordCount value (multiple - 1) / multiple * multiple

/-- `checkBlock`; no result stands for `false`. -/
def checkBlock (block : BlockPtr) (listIndex size align : Nat) : HeapM (Option BlockPtr) := do
  let b ← deref block
  check (b.isFree block)
  assumePositive align
  let alignedOffset := roundup b.offset align
  if b.size < wrapSub wordCount (wrapAdd wordCount size alignedOffset) b.offset then return none
  else reserveBlock block size alignedOffset listIndex

/-- The loop of `allocBestFit` over the blocks of one list. -/
def searchList (listIndex size align : Nat) : Nat → Option BlockPtr → HeapM (Option BlockPtr)
  | _, none => pure none
  | 0, some _ => fault .outOfFuel
  | fuel + 1, some block => do
    match ← checkBlock block listIndex size align with
    | some b => return some b
    | none =>
      let b ← deref block
      check (b.isFree block)
      searchList listIndex size align fuel b.nextFree

def allocBestFit (align size : Nat) : HeapM (Option BlockPtr) := do
  let h ← get
  let (first, index) ← findFreeBlock size
  match ← searchList index size align (h.mBlockPool.objectCount + 1) first with
  | some b => return some b
  | none =>
    let h ← get
    match ← checkBlock h.mNullBlock h.mFreeListCount size align with
    | some b => return some b
    | none =>
      let (first, index) ← findFreeBlock (getNextBlockSize size)
      searchList index size align (h.mBlockPool.objectCount + 1) first

/-- `aligned_alloc`. -/
def alignedAlloc (align size : Nat) : HeapM (Option BlockPtr) := do
  match ← allocBestFit align size with
  | some b =>
    modify fun h => { h with mMallocCount := h.mMallocCount + 1 }
    return some b
  | none => return none

/-- `alignof(std::max_align_t)`. -/
def kMaxAlign : Nat := 16

def malloc (size : Nat) : HeapM (Option BlockPtr) := alignedAlloc kMaxAlign size

/-! ## Freeing -/

/-- A free block before `block` is merged into it. -/
def mergeFreeBefore (block : BlockPtr) : Option BlockPtr → HeapM Unit
  | none => pure ()
  | some prev => do
    let p ← deref prev
    if p.isFree prev then do
      takeBlockFromFreeList prev
      mergeBlock block prev
    else pure ()

/-- `block` becomes free: part of a free block after it, of the null block, or on its own. -/
def mergeFreeAfter (block next : BlockPtr) : HeapM Unit := do
  let n ← deref next
  let h ← get
  if n.isFree next then
    if next = h.mNullBlock then mergeBlock next block
    else do
      takeBlockFromFreeList next
      mergeBlock next block
      releaseBlockToFreeList next
  else releaseBlockToFreeList block

def free (block : BlockPtr) : HeapM Unit := do
  let b ← deref block
  check (!b.isFree block)
  mergeFreeBefore block b.prev
  let next ← nonNull b.next
  mergeFreeAfter block next
  modify fun h => { h with mFreeCount := h.mFreeCount + 1 }

/-! ## Growing and shrinking -/

def grow (block : BlockPtr) (size : Nat) : HeapM (OsStatus × Option BlockPtr) := do
  let b ← deref block
  check (!b.isFree block)
  if size = b.size then return (.success, some block)
  else if size < b.size then return (.invalidInput, none)
  else
    match b.next with
    | none => return (.outOfMemory, none)
    | some next =>
      let n ← deref next
      if n.isFree next = false then return (.outOfMemory, none)
      else if size - b.size ≤ n.size then do
        let extraSize := size - b.size
        let h ← get
        write block fun b => { b with size := size }
        write next fun n => { n with offset := n.offset + extraSize }
        if n.size = extraSize then do
          check (next != h.mNullBlock)
          takeBlockFromFreeList next
          mergeBlock next block
          return (.success, some next)
        else if next ≠ h.mNullBlock then do
          resizeBlock next (n.size - extraSize)
          return (.success, some block)
        else do
          write next fun n => { n with size := n.size - extraSize }
          return (.success, some block)
      else return (.outOfMemory, none)

def shrink (block : BlockPtr) (size : Nat) : HeapM (OsStatus × Option BlockPtr) := do
  let b ← deref block
  if size = b.size then return (.success, some block)
  else if b.size < size then return (.invalidInput, none)
  else
    match ← split block (b.offset + size) with
    | (.success, some (lo, hi)) =>
      free hi
      return (.success, some lo)
    | (status, _) => return (status, none)

def resize (block : BlockPtr) (size : Nat) : HeapM (OsStatus × Option BlockPtr) := do
  if size = 0 then return (.invalidInput, none)
  else do
    let b ← deref block
    if size = b.size then return (.success, some block)
    else if size < b.size then shrink block size
    else grow block size

/-! ## Compacting -/

/-- The loop of `compact` from `block` down. -/
def compactLoop : Nat → BlockPtr → HeapM Unit
  | 0, _ => fault .outOfFuel
  | fuel + 1, block => do
    let b ← deref block
    match b.prev with
    | none => pure ()
    | some prev =>
      let p ← deref prev
      if b.isFree block && p.isFree prev then do
        mergeBlock block prev
        compactLoop fuel block
      else compactLoop fuel prev

def compact : HeapM Unit := do
  let h ← get
  compactLoop (h.mBlockPool.objectCount + 1) h.mNullBlock
  modify fun h => { h with mBlockPool := h.mBlockPool.compact }

/-! ## Reserving -/

/-- A first block that does not start at `alignedOffset` leaves its bytes before it to a new free
block. -/
def splitBlockForAllocationIfRequired (block : BlockPtr) (alignedOffset : Nat) :
    HeapM OsStatus := do
  let b ← deref block
  if alignedOffset ≠ b.offset ∧ b.prev = none then
    let size := wrapSub wordCount alignedOffset b.offset
    match ← construct ⟨b.offset, size, none, some block, none, none⟩ with
    | none => return .outOfMemory
    | some newBlock =>
      write block fun b =>
        { b with prev := some newBlock, offset := alignedOffset,
                 size := wrapSub wordCount b.size size }
      write newBlock fun n => { n with prevFree := some newBlock }
      releaseBlockToFreeList newBlock
      return .success
  else return .success

/-- The loop of `reserve` from `block` down. -/
def reserveLoop (range : AnyRange) : Nat → Option BlockPtr → HeapM (OsStatus × Option BlockPtr)
  | _, none => pure (.notFound, none)
  | 0, some _ => fault .outOfFuel
  | fuel + 1, some block => do
    let b ← deref block
    let blockRange : AnyRange := ⟨b.offset, b.offset + b.size⟩
    if blockRange.containsRange range ∨ blockRange = range then
      if b.isFree block = false then return (.notAvailable, none)
      else
        match ← splitBlockForAllocationIfRequired block range.front with
        | .success =>
          let b ← deref block
          assumePositive b.size
          match ← reserveBlock block (wrapSub wordCount range.back range.front) range.front
              (getListIndex b.size) with
          | some result => return (.success, some result)
          | none => return (.outOfMemory, none)
        | status => return (status, none)
    else if blockRange.overlaps range then return (.notAvailable, none)
    else reserveLoop range fuel b.prev

def reserve (range : AnyRange) : HeapM (OsStatus × Option BlockPtr) := do
  compact
  let h ← get
  reserveLoop range (h.mBlockPool.objectCount + 1) (some h.mNullBlock)

def allocateAt (address size : Nat) : HeapM (Option BlockPtr) := do
  if address % kMaxAlign ≠ 0 then return none
  else if size = 0 then return none
  else
    match ← reserve ⟨address, wrapAdd wordCount address size⟩ with
    | (.success, result) => return result
    | _ => return none

/-! ## Creating -/

/-- The memory a heap is made from: whether each magazine and the array of list heads is granted. -/
structure SystemMemory where
  grants : Nat → Bool
  lists : Bool

def TlsfHeap.init (pool : PoolAllocator) (nullBlock : BlockPtr) (range : AnyRange) : TlsfHeap where
  mSize := range.size
  mReserved := 0
  mMallocCount := 0
  mFreeCount := 0
  mBlockPool := pool
  blocks := update (fun _ => none) nullBlock
    (some ⟨range.front, range.size, none, none, none, none⟩)
  mNullBlock := nullBlock
  mFreeListCount := freeListCount range.size
  mFreeList := fun _ => none
  mInnerFreeMap := fun _ => 0
  mTopLevelFreeMap := 0

/-- `create` over one range. -/
def create (memory : SystemMemory) (range : AnyRange) : Except Fault (OsStatus × Option TlsfHeap) :=
  if range.size = 0 then .error .badAccess
  else
    match PoolAllocator.allocate ⟨[], 0, memory.grants⟩ with
    | (none, _) => .ok (.outOfMemory, none)
    | (some nullBlock, pool) =>
      if memory.lists then .ok (.success, some (.init pool nullBlock range))
      else .ok (.outOfMemory, none)

/-! ## Resetting -/

/-- The loop of `reset` from `block` down. -/
def resetLoop : Nat → Option BlockPtr → HeapM Unit
  | _, none => pure ()
  | 0, some _ => fault .outOfFuel
  | fuel + 1, some block => do
    let b ← deref block
    match b.prev with
    | none => pure ()
    | some prev =>
      let p ← deref prev
      check (p.offset + p.size == b.offset)
      write block fun b => { b with offset := p.offset, size := b.size + p.size, prev := p.prev }
      destroy prev
      resetLoop fuel p.prev

def reset : HeapM Unit := do
  let h ← get
  resetLoop (h.mBlockPool.objectCount + 1) (some h.mNullBlock)
  modify fun h => { h with mMallocCount := 0, mFreeCount := 0 }

end Tlsf
end BezOS
