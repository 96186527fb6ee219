import BezOS.Memory.MaxPages
import BezOS.Memory.PageTables

/-!
# Mapping pages

The half of `memory/page_tables.cpp` that maps: the tables for a request are taken out of the
allocator first, then the range is mapped from that list of tables, in pages of 4 KiB and 2 MiB,
and what is left of the list goes back.

Virtual addresses and sizes are numbers below `wordCount`, and their sums wrap.
-/

namespace BezOS

open Lib

inductive Stop
  /-- A `KM_CHECK`, `KM_ASSERT` or `KM_PANIC`, with its message. -/
  | check (message : String)
  /-- An invalid pointer followed, or a stop inside the allocator. -/
  | fault
  deriving DecidableEq

namespace Stop

def exhausted : Stop := .check "PageTableList exhausted."
def outOfRange : Stop := .check "Physical address out of range."
def emptyRange : Stop := .check "Cannot remap empty range."
def notContained : Stop := .check "range.contains(other)"

end Stop

/-- A step that stops the machine when it has no result. -/
def orStop {α : Type} (stop : Stop) : Option α → Except Stop α
  | none => .error stop
  | some a => .ok a

/-- `km::split` at a range. -/
def AnyRange.split (range other : AnyRange) : Except Stop (AnyRange × AnyRange) :=
  if range.containsRange other then .ok (⟨range.front, other.front⟩, ⟨other.back, range.back⟩)
  else .error .notContained

/-- The `freeBlocks` of `PageTableAllocator::stats`, from `block` on. -/
def PageTableAllocator.statsFreeBlocks (s : PageTableAllocator) : Nat → Nat → Option Nat
  | 0, _ => none
  | fuel + 1, block =>
    if block = 0 then some 0
    else (statsFreeBlocks s fuel (s.mem.next block)).map (s.mem.size block / s.mBlockSize + ·)

namespace km

open x64 (kLargePageSize kHugePageSize)

namespace detail

def alignLargeRangeHead (mapping : AddressMapping) : AddressMapping :=
  let aligned := roundup mapping.vaddr kLargePageSize
  ⟨mapping.vaddr, mapping.paddr, wrapSub wordCount aligned mapping.vaddr⟩

def alignLargeRangeBody (mapping : AddressMapping) : AddressMapping :=
  let head2m := roundup mapping.vaddr kLargePageSize
  let tail2m := rounddown (wrapAdd wordCount mapping.vaddr mapping.size) kLargePageSize
  let offset := wrapSub wordCount head2m mapping.vaddr
  ⟨head2m, wrapAdd wordCount mapping.paddr offset, wrapSub wordCount tail2m head2m⟩

def alignLargeRangeTail (mapping : AddressMapping) : AddressMapping :=
  let back := wrapAdd wordCount mapping.vaddr mapping.size
  let tail2m := rounddown back kLargePageSize
  let size := wrapSub wordCount back tail2m
  ⟨tail2m, wrapSub wordCount (wrapAdd wordCount mapping.paddr mapping.size) size, size⟩

def isLargePageEligible (mapping : AddressMapping) : Prop :=
  kLargePageSize ≤ mapping.size ∧
    mapping.paddr % kLargePageSize = mapping.vaddr % kLargePageSize ∧
    roundup mapping.paddr kLargePageSize <
      rounddown (wrapAdd wordCount mapping.paddr mapping.size) kLargePageSize
  deriving Decidable

end detail

def isPageMappingRequestInputValid (mapping : AddressMapping) (flags : PageFlags) : Prop :=
  mapping.size ≠ 0 ∧ mapping.size % kPageSize = 0 ∧ mapping.vaddr % kPageSize = 0 ∧
    mapping.paddr % kPageSize = 0 ∧ flags ≠ PageFlags.eNone

instance (mapping : AddressMapping) (flags : PageFlags) :
    Decidable (isPageMappingRequestInputValid mapping flags) :=
  inferInstanceAs (Decidable (_ ∧ _ ∧ _ ∧ _ ∧ _))

/-- A request that has passed its check. -/
structure PageMappingRequest where
  mapping : AddressMapping
  flags : PageFlags
  type : MemoryType
  valid : isPageMappingRequestInputValid mapping flags

def PageMappingRequest.create (mapping : AddressMapping) (flags : PageFlags) (type : MemoryType) :
    Except OsStatus PageMappingRequest :=
  if valid : isPageMappingRequestInputValid mapping flags then .ok ⟨mapping, flags, type, valid⟩
  else .error .invalidInput

structure PageMappingResult where
  mTotalPagesRequired : Nat
  mExtraPagesRequired : Nat
  deriving DecidableEq

namespace PageTables

/-- One index of `getAddressParts`. -/
def part (vaddr shift : Nat) : BitVec 9 := BezOS.PageTables.addressPart (.ofNat 64 vaddr) shift

variable (s : PageTables)

def setAllocator (allocator : PageTableAllocator) : PageTables := { s with mAllocator := allocator }

/-- `setEntryFlags`, of an entry of a table. -/
def setEntryFlags (table : Nat) (index : BitVec 9) (flags : PageFlags) (address : Nat) :
    Except Stop PageTables := do
  let e ← orStop .outOfRange (s.mPageManager.setEntryFlags (s.tables table index) flags address)
  return s.setEntry table index e

def deallocate (vaddr paddr pages : Nat) : Except Stop PageTables := do
  let slide := wrapSub wordCount paddr vaddr
  let allocator ← orStop .fault (s.mAllocator.deallocate vaddr pages slide)
  return { s.setAllocator allocator with mCache := s.mCache.release paddr }

/-- `claimListEntry`; the page comes zeroed. -/
def claimListEntry (list : PageTableList) :
    Except Stop (PageTables × PageTableAllocation × PageTableList) := do
  let (m, allocation, list) ← orStop .exhausted (list.next s.mAllocator.mem)
  let s := (s.setAllocator { s.mAllocator with mem := m }).zeroPage allocation.mBlock
  return ({ s with mCache := s.mCache.retain allocation.getPhysical }, allocation, list)

/-- `getPageMap3` and `getPageMap2`, which differ in the level: the table below an entry. -/
def getBelow (table : Nat) (index : BitVec 9) (buffer : PageTableList) :
    Except Stop (PageTables × Nat × PageTableList) :=
  if ¬ (s.tables table index).present then do
    let (s, allocation, buffer) ← s.claimListEntry buffer
    let s ← s.setEntryFlags table index s.mMiddleFlags allocation.getPhysical
    return (s, allocation.mBlock, buffer)
  else do
    let below ← orStop .fault (s.asVirtual (s.address (s.tables table index)))
    return (s, below, buffer)

def getPageMap3 (l4 : Nat) (pml4e : BitVec 9) (buffer : PageTableList) :
    Except Stop (PageTables × Nat × PageTableList) := s.getBelow l4 pml4e buffer
def getPageMap2 (l3 : Nat) (pdpte : BitVec 9) (buffer : PageTableList) :
    Except Stop (PageTables × Nat × PageTableList) := s.getBelow l3 pdpte buffer

/-! ## Splitting a page of 2 MiB -/

/-- One round of the loop of `partialRemap2m`, at the address `i`. -/
def remapPage (pt : Nat) (range : AnyRange) (paddr : Nat) (type : MemoryType) (i : Nat) :
    Except Stop PageTables :=
  let t1 := s.mPageManager.setMemoryType x64.pte.kPageAttributeBit (s.tables pt (part i 12)) type
  (s.setEntry pt (part i 12) t1).setEntryFlags pt (part i 12) s.mMiddleFlags
    (wrapAdd wordCount paddr (i - range.front))

def partialRemap2m (pt : Nat) (range : AnyRange) (paddr : Nat) (type : MemoryType) :
    Except Stop PageTables :=
  if range.isEmpty then .error .emptyRange
  else
    (List.range ((range.back - range.front + kPageSize - 1) / kPageSize)).foldlM
      (fun s n => s.remapPage pt range paddr type (range.front + n * kPageSize)) s

/-- The entry of a page of 2 MiB is made that of a table of its pages of 4 KiB. -/
def replaceLarge (table : Nat) (index : BitVec 9) (allocation : PageTableAllocation) :
    Except Stop PageTables := do
  let s ← s.setEntryFlags table index s.mMiddleFlags allocation.getPhysical
  return s.setEntry table index ((s.tables table index).setLarge false)

def split2mMapping (table : Nat) (index : BitVec 9) (page erase : AnyRange)
    (allocation : PageTableAllocation) : Except Stop PageTables :=
  let pde := s.tables table index
  if ¬ pde.isLarge then .error (.check "Splitting pde that is already split.")
  else do
    let (lo, hi) ← page.split erase
    let type := PageBuilder.getMemoryType x64.pdte.kPageAttributeBit pde
    let paddr := s.address pde
    let hiOffset := wrapSub wordCount erase.back page.front
    let s ← s.partialRemap2m allocation.mBlock lo paddr type
    let s ← s.partialRemap2m allocation.mBlock hi (wrapAdd wordCount paddr hiOffset) type
    s.replaceLarge table index allocation

/-! ## Mapping one page -/

/-- The page table of `map4k`. A page of 2 MiB is split to make space for the mapping. -/
def getPageTable (l2 : Nat) (pdte : BitVec 9) (vaddr : Nat) (buffer : PageTableList) :
    Except Stop (PageTables × Nat × PageTableList) :=
  let t2 := s.tables l2 pdte
  if t2.present ∧ t2.isLarge then do
    let (s, allocation, buffer) ← s.claimListEntry buffer
    let page : AnyRange := ⟨rounddown vaddr kLargePageSize, roundup vaddr kLargePageSize⟩
    let erase : AnyRange := ⟨vaddr, wrapAdd wordCount vaddr kPageSize⟩
    let s ← s.split2mMapping l2 pdte page erase allocation
    return (s, allocation.mBlock, buffer)
  else s.getBelow l2 pdte buffer

def map4k (paddr vaddr : Nat) (flags : PageFlags) (type : MemoryType) (buffer : PageTableList) :
    Except Stop (PageTables × PageTableList) := do
  let (s, l3, buffer) ← s.getPageMap3 s.pml4 (part vaddr 39) buffer
  let (s, l2, buffer) ← s.getPageMap2 l3 (part vaddr 30) buffer
  let (s, pt, buffer) ← s.getPageTable l2 (part vaddr 21) vaddr buffer
  let pte := part vaddr 12
  let t1 := s.mPageManager.setMemoryType x64.pte.kPageAttributeBit (s.tables pt pte) type
  let s ← (s.setEntry pt pte t1).setEntryFlags pt pte flags paddr
  return (s, buffer)

/-- The page table below an entry, which is replaced, goes back to the allocator. -/
def freeTable (l2 : Nat) (pdte : BitVec 9) : Except Stop PageTables := do
  let paddr := s.address (s.tables l2 pdte)
  let ptr ← orStop .fault (s.asVirtual paddr)
  s.deallocate ptr paddr 1

def map2m (paddr vaddr : Nat) (flags : PageFlags) (type : MemoryType) (buffer : PageTableList) :
    Except Stop (PageTables × PageTableList) := do
  let (s, l3, buffer) ← s.getPageMap3 s.pml4 (part vaddr 39) buffer
  let (s, l2, buffer) ← s.getPageMap2 l3 (part vaddr 30) buffer
  let pdte := part vaddr 21
  let t2 := s.tables l2 pdte
  let s ← if t2.present ∧ ¬ t2.isLarge then s.freeTable l2 pdte else .ok s
  let t2 := (s.tables l2 pdte).setLarge true
  let t2 := s.mPageManager.setMemoryType x64.pdte.kPageAttributeBit t2 type
  let s ← (s.setEntry l2 pdte t2).setEntryFlags l2 pdte flags paddr
  return (s, buffer)

/-! ## Mapping a range -/

/-- The loops of `mapRange4k` and `mapRange2m`: one call for each page of the range. -/
def mapRange (map : PageTables → Nat → Nat → PageFlags → MemoryType → PageTableList →
      Except Stop (PageTables × PageTableList)) (pageSize : Nat) (mapping : AddressMapping)
    (flags : PageFlags) (type : MemoryType) (buffer : PageTableList) :
    Except Stop (PageTables × PageTableList) :=
  (List.range ((mapping.size + pageSize - 1) / pageSize)).foldlM
    (fun (s, buffer) n =>
      map s (wrapAdd wordCount mapping.paddr (n * pageSize))
        (wrapAdd wordCount mapping.vaddr (n * pageSize)) flags type buffer) (s, buffer)

def mapRange4k (mapping : AddressMapping) (flags : PageFlags) (type : MemoryType)
    (buffer : PageTableList) : Except Stop (PageTables × PageTableList) :=
  s.mapRange map4k kPageSize mapping flags type buffer

def mapRange2m (mapping : AddressMapping) (flags : PageFlags) (type : MemoryType)
    (buffer : PageTableList) : Except Stop (PageTables × PageTableList) :=
  s.mapRange map2m kLargePageSize mapping flags type buffer

def mapWithList (mapping : AddressMapping) (flags : PageFlags) (type : MemoryType)
    (buffer : PageTableList) : Except Stop (PageTables × PageTableList) :=
  let front2m := roundup mapping.physicalRange.front kLargePageSize
  let back2m := rounddown mapping.physicalRange.back kLargePageSize
  if detail.isLargePageEligible mapping ∧ front2m < back2m then do
    let head := detail.alignLargeRangeHead mapping
    let (s, buffer) ←
      if head.size ≠ 0 then s.mapRange4k head flags type buffer else .ok (s, buffer)
    let (s, buffer) ← s.mapRange2m (detail.alignLargeRangeBody mapping) flags type buffer
    let tail := detail.alignLargeRangeTail mapping
    if tail.size ≠ 0 then s.mapRange4k tail flags type buffer else .ok (s, buffer)
  else s.mapRange4k mapping flags type buffer

end PageTables
end km
end BezOS
