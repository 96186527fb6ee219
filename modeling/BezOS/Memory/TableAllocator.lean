import Mathlib.Data.List.Range
import BezOS.Lib.Chain
import BezOS.Memory.ControlBlock
import BezOS.Memory.Range
import BezOS.Status

/-!
# Lists of page tables

`memory/detail/page_table_allocation.hpp` and `memory/detail/table_list.cpp`. A page handed out
in a list holds the allocation of the next one in its first sixteen bytes: these are the words
the control block of a free block keeps its two links in, so that a page leaves the free list
before it is put on a list of this kind.
-/

namespace BezOS

open Lib

def kPageSize : Nat := 4096

structure PageTableAllocation where
  mBlock : Nat
  mSlide : Nat
  deriving DecidableEq

namespace PageTableAllocation

def null : PageTableAllocation := ⟨0, 0⟩

def isPresent (allocation : PageTableAllocation) : Prop := allocation.mBlock ≠ 0
  deriving Decidable

def getPhysical (allocation : PageTableAllocation) : Nat :=
  wrapSub wordCount allocation.mBlock allocation.mSlide

def setNext (allocation next : PageTableAllocation) (m : BlockMemory) : BlockMemory :=
  (m.setNext allocation.mBlock next.mBlock).setPrev allocation.mBlock next.mSlide

def getNext (allocation : PageTableAllocation) (m : BlockMemory) : PageTableAllocation :=
  ⟨m.next allocation.mBlock, m.prev allocation.mBlock⟩

def offset (allocation : PageTableAllocation) (index : Nat) : PageTableAllocation :=
  ⟨wrapAdd wordCount allocation.mBlock (index * kPageSize), allocation.mSlide⟩

end PageTableAllocation

structure PageTableList where
  mTable : PageTableAllocation
  deriving DecidableEq

namespace PageTableList

open PageTableAllocation

def empty : PageTableList := ⟨null⟩

/-- The constructor from a run of `count` pages. -/
def ofPages (allocation : PageTableAllocation) (count : Nat) (m : BlockMemory) :
    BlockMemory × PageTableList :=
  let m := (List.range (count - 1)).foldl
    (fun m i => (allocation.offset i).setNext (allocation.offset (i + 1)) m) m
  ((allocation.offset (count - 1)).setNext null m, ⟨allocation⟩)

def push (list : PageTableList) (allocation : PageTableAllocation) (m : BlockMemory) :
    BlockMemory × PageTableList :=
  (allocation.setNext list.mTable m, ⟨allocation⟩)

/-- `push(PageTableAllocation, size_t)`. -/
def pushPages (list : PageTableList) (allocation : PageTableAllocation) (count : Nat)
    (m : BlockMemory) : BlockMemory × PageTableList :=
  (List.range count).foldl (fun (m, list) i => list.push (allocation.offset i) m) (m, list)

def drain (list : PageTableList) (m : BlockMemory) : PageTableAllocation × PageTableList :=
  if list.mTable.isPresent then (list.mTable, ⟨list.mTable.getNext m⟩) else (null, list)

/-- `append`, with a bound on the number of its rounds. -/
def append : Nat → BlockMemory → PageTableList → PageTableList → Option (BlockMemory × PageTableList)
  | 0, _, _, _ => none
  | fuel + 1, m, list, more =>
    let (page, more) := more.drain m
    if page.isPresent then
      let (m, list) := list.push page m
      append fuel m list more
    else some (m, list)

/-- `next`: the page comes zeroed, and an exhausted list stops the machine. -/
def next (list : PageTableList) (m : BlockMemory) :
    Option (BlockMemory × PageTableAllocation × PageTableList) :=
  if list.mTable.isPresent then
    some (m.setBlock list.mTable.mBlock 0 0 0 0, list.mTable, ⟨list.mTable.getNext m⟩)
  else none

end PageTableList

end BezOS

/-!
## The page table allocator

`memory/table_allocator.cpp`. The free blocks are a doubly linked list inside the memory they
stand for. Requests are served from the head of the list only; a request the head is too small
for sorts and merges the list and tries once more.

`none` is a stopped machine: a `KM_CHECK` or `KM_PANIC`, or the null pointer followed.
-/

namespace BezOS

open Lib

/-- More rounds than a loop over distinct addresses takes. -/
def walkLimit : Nat := wordCount + 2

def roundup (value multiple : Nat) : Nat := (value + multiple - 1) % wordCount / multiple * multiple

def rounddown (value multiple : Nat) : Nat := value / multiple * multiple

namespace AnyRange

/-- `size()` at the width of an address. -/
def bytes (r : AnyRange) : Nat := wrapSub wordCount r.back r.front

def aligned (r : AnyRange) (align : Nat) : AnyRange :=
  let front := roundup r.front align
  let back := rounddown r.back align
  if back ≤ front then ⟨0, 0⟩ else ⟨front, back⟩

def alignedOut (r : AnyRange) (align : Nat) : AnyRange :=
  ⟨rounddown r.front align, roundup r.back align⟩

def startsWith (r other : AnyRange) : Prop := r.front = other.front ∧ other.back ≤ r.back
  deriving Decidable

def endsWith (r other : AnyRange) : Prop := r.back = other.back ∧ r.front ≤ other.front
  deriving Decidable

end AnyRange

def BlockMemory.range (m : BlockMemory) (block : Nat) : AnyRange :=
  ⟨block, wrapAdd wordCount block (m.size block)⟩

structure PageTableAllocator where
  mBlockSize : Nat
  mHead : Nat
  /-- The memory the blocks lie in. -/
  mem : BlockMemory

namespace PageTableAllocator

def setHead (s : PageTableAllocator) (block : Nat) : PageTableAllocator :=
  { s with
    mHead := block
    mem := if block ≠ 0 then s.mem.setPrev block 0 else s.mem }

/-- The number of bytes of `blocks` blocks, `size_t` arithmetic. -/
def bytesOf (s : PageTableAllocator) (blocks : Nat) : Nat := blocks * s.mBlockSize % wordCount

def isPageTableAllocatorInputValid (memory : AnyRange) (blockSize : Nat) : Prop :=
  0 < blockSize ∧ blockSize ≤ memory.bytes ∧ memory.aligned blockSize = memory

instance (memory : AnyRange) (blockSize : Nat) :
    Decidable (isPageTableAllocatorInputValid memory blockSize) :=
  inferInstanceAs (Decidable (_ ∧ _))

/-- `create(VirtualRangeEx, ...)` with the slide 0, `create(AddressMapping, ...)` with the slide
of the mapping. -/
def create (memory : AnyRange) (slide blockSize : Nat) (m : BlockMemory) :
    Except OsStatus PageTableAllocator :=
  if isPageTableAllocatorInputValid memory blockSize then
    .ok
      { mBlockSize := blockSize
        mHead := memory.front
        mem := m.setBlock memory.front 0 0 memory.bytes slide }
  else .error .invalidInput

/-- `AllocateBlock`; the null pointer when the head is too small. -/
def allocateBlock (s : PageTableAllocator) (size : Nat) : Option (PageTableAllocator × Nat) :=
  if size = 0 then some (s, 0)
  else if s.mHead = 0 then some (s, 0)
  else if s.mem.prev s.mHead ≠ 0 then none
  else if s.mem.size s.mHead < size then some (s, 0)
  else if s.mem.size s.mHead = size then some (s.setHead (s.mem.next s.mHead), s.mHead)
  else do
    let (m, next) ← s.mem.splitBlock s.mHead size
    return ({ s with mem := m.removeBlock next }, next)

def defragment (s : PageTableAllocator) : Option PageTableAllocator :=
  if s.mHead = 0 ∨ s.mem.next s.mHead = 0 then some s
  else if s.mem.prev s.mHead ≠ 0 then none
  else do
    let m ← s.mem.sortBlocks walkLimit s.mHead
    let block ← m.head walkLimit s.mHead
    let m ← m.mergeAdjacentBlocks walkLimit block
    return { s with mHead := block, mem := m }

def allocate (s : PageTableAllocator) (blocks : Nat) :
    Option (PageTableAllocator × PageTableAllocation) := do
  let (s, result) ← s.allocateBlock (s.bytesOf blocks)
  if result ≠ 0 then
    return (s, ⟨result, s.mem.slide result⟩)
  else
    let s ← s.defragment
    let (s, result) ← s.allocateBlock (s.bytesOf blocks)
    if result ≠ 0 then
      return (s, ⟨result, s.mem.slide result⟩)
    else
      return (s, .null)

def canAllocateBlocks (m : BlockMemory) : Nat → Nat → Nat → Option Bool
  | 0, _, _ => none
  | fuel + 1, block, remaining =>
    if block = 0 then some false
    else if remaining ≤ m.size block then some true
    else canAllocateBlocks m fuel (m.next block) (remaining - m.size block)

/-- `AllocateHead`: what the head block gives towards `remaining` blocks, and what remains. -/
def allocateHead (s : PageTableAllocator) (remaining : Nat) :
    Option (PageTableAllocator × PageTableList × Nat) :=
  let block := s.mHead
  let size := s.bytesOf remaining
  if block = 0 ∨ s.mem.prev block ≠ 0 then none
  else if size < s.mem.size block then do
    let (m, next) ← s.mem.splitBlock block size
    let m := m.removeBlock next
    let (m, list) := PageTableList.ofPages ⟨next, m.slide next⟩ (size / s.mBlockSize) m
    return ({ s with mem := m }, list, 0)
  else if s.mem.size block = size then
    let s := s.setHead (s.mem.next block)
    let (m, list) :=
      PageTableList.ofPages ⟨block, s.mem.slide block⟩ (size / s.mBlockSize) s.mem
    some ({ s with mem := m }, list, 0)
  else
    let blockSize := s.mem.size block
    let remaining := remaining - blockSize / s.mBlockSize
    let s := s.setHead (s.mem.next block)
    let (m, list) :=
      PageTableList.ofPages ⟨block, s.mem.slide block⟩ (blockSize / s.mBlockSize) s.mem
    some ({ s with mem := m }, list, remaining)

/-- The loop of `allocateList`. Its `node` is the head of the free list in every round. -/
def allocateListLoop : Nat → PageTableAllocator → PageTableList → Nat →
    Option (PageTableAllocator × PageTableList)
  | 0, _, _, _ => none
  | fuel + 1, s, list, remaining =>
    let node := s.mHead
    let size := s.bytesOf remaining
    if remaining = 0 then some (s, list)
    else if node = 0 then none
    else if size < s.mem.size node then do
      let (m, next) ← s.mem.splitBlock node size
      let m := m.removeBlock next
      let (m, list) := list.pushPages ⟨next, m.slide next⟩ remaining m
      allocateListLoop fuel { s with mem := m } list 0
    else if s.mem.size node = size then
      let s := s.setHead (s.mem.next node)
      let m := s.mem.removeBlock node
      let (m, list) := list.pushPages ⟨node, m.slide node⟩ remaining m
      allocateListLoop fuel { s with mem := m } list 0
    else
      let s := s.setHead (s.mem.next node)
      let m := s.mem.removeBlock node
      let (m, list) := list.pushPages ⟨node, m.slide node⟩ (m.size node / s.mBlockSize) m
      -- the size is read again, after the links of the list went into the same block
      allocateListLoop fuel { s with mem := m } list (remaining - m.size node / s.mBlockSize)

/-- `allocateList`; no list when there is not enough memory. -/
def allocateList (s : PageTableAllocator) (blocks : Nat) :
    Option (PageTableAllocator × Option PageTableList) := do
  if ← canAllocateBlocks s.mem walkLimit s.mHead (s.bytesOf blocks) then
    let (s, list, remaining) ← s.allocateHead blocks
    let (s, list) ← allocateListLoop walkLimit s list remaining
    return (s, some list)
  else
    return (s, none)

/-- `allocateExtra`; no list when there is not enough memory. -/
def allocateExtra (s : PageTableAllocator) (blocks : Nat) (list : PageTableList) :
    Option (PageTableAllocator × Option PageTableList) := do
  match ← s.allocateList blocks with
  | (s, some extra) =>
    let (m, list) ← PageTableList.append walkLimit s.mem list extra
    return ({ s with mem := m }, some list)
  | (s, none) => return (s, none)

def deallocate (s : PageTableAllocator) (ptr blocks slide : Nat) : Option PageTableAllocator :=
  if s.mHead ≠ 0 ∧ s.mem.prev s.mHead ≠ 0 then none
  else
    let m := s.mem.setBlock ptr s.mHead 0 (s.bytesOf blocks) slide
    some
      { s with
        mHead := ptr
        mem := if s.mHead ≠ 0 then m.setPrev s.mHead ptr else m }

/-- `deallocateList`, with a bound on the number of its rounds. -/
def deallocateList : Nat → PageTableAllocator → PageTableList → Option PageTableAllocator
  | 0, _, _ => none
  | fuel + 1, s, list =>
    let (page, list) := list.drain s.mem
    if page.isPresent then do
      let s ← s.deallocate page.mBlock 1 page.mSlide
      deallocateList fuel s list
    else some s

def addMemory (s : PageTableAllocator) (range : AnyRange) : Option PageTableAllocator :=
  if range.bytes = 0 ∨ range.bytes % s.mBlockSize ≠ 0 then none
  else if range.alignedOut s.mBlockSize ≠ range then none
  else
    -- the old head is not told of the block before it
    defragment
      { s with
        mHead := range.front
        mem := s.mem.setBlock range.front s.mHead 0 range.bytes 0 }

/-- The loop of `releaseMemory` from `block` on, and the block it stops at. -/
def releaseLoop (range : AnyRange) : Nat → BlockMemory → Nat → Option (BlockMemory × Nat)
  | 0, _, _ => none
  | fuel + 1, m, block =>
    if block = 0 then some (m, 0)
    else
      let blockRange := m.range block
      if range.back ≤ blockRange.front then some (m, block)
      else
        let overlap := blockRange.intersection range
        if overlap.isEmpty then releaseLoop range fuel m (m.next block)
        else if blockRange = overlap then
          let m := m.removeBlock block
          releaseLoop range fuel m (m.next block)
        else if blockRange.startsWith overlap then do
          let (m, next) ← m.splitBlock block overlap.bytes
          releaseLoop range fuel (m.removeBlock block) next
        else if blockRange.endsWith overlap then do
          -- what the split leaves in `block` is as long as the overlap
          let (m, _) ← m.splitBlock block (blockRange.bytes - overlap.bytes)
          let m := m.removeBlock (m.next block)
          return (m, m.next block)
        else if blockRange.containsRange overlap then do
          let (m, tail) ← m.splitBlock block (overlap.front - blockRange.front)
          let (m, middle) ← m.splitBlock block overlap.bytes
          return (m.removeBlock middle, tail)
        else none

/-- The head of the list is looked for from the block the loop stops at: past the last block
there is none. -/
def releaseMemory (s : PageTableAllocator) (range : AnyRange) : Option PageTableAllocator := do
  let s ← s.defragment
  let (m, block) ← releaseLoop range walkLimit s.mem s.mHead
  let head ← if block = 0 then some 0 else m.head walkLimit block
  return { s with mem := m }.setHead head

end PageTableAllocator

end BezOS
