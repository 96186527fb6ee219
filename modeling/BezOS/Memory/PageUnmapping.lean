import BezOS.Memory.PageMapping

/-!
# Unmapping and compaction

The other half of `memory/page_tables.cpp`: ranges are unmapped, where the head and the tail of a
range may lie within a page of 2 MiB that is split first, and tables that map nothing are given
back.
-/

namespace BezOS

open Lib

def nextMultiple (value multiple : Nat) : Nat :=
  if value % multiple = 0 then wrapAdd wordCount value multiple else roundup value multiple

def AnyRange.cut (r other : AnyRange) : AnyRange :=
  if ¬ r.overlaps other then r
  else if other.front ≤ r.front then ⟨min r.back other.back, max r.back other.back⟩
  else if r.back ≤ other.back then ⟨min r.front other.front, max r.front other.front⟩
  else r

namespace km
namespace PageTables

open x64 (kLargePageSize kHugePageSize)

variable (s : PageTables)

/-! ## Unmapping -/

def cut2mMapping (table : Nat) (index : BitVec 9) (page erase : AnyRange)
    (allocation : PageTableAllocation) : Except Stop PageTables := do
  let remaining := page.cut erase
  let pde := s.tables table index
  let type := PageBuilder.getMemoryType x64.pdte.kPageAttributeBit pde
  let paddr := s.address pde
  let offset := wrapSub wordCount remaining.front page.front
  let s ← s.partialRemap2m allocation.mBlock remaining (wrapAdd wordCount paddr offset) type
  s.replaceLarge table index allocation

def reclaim2m (l2 : Nat) (pdte : BitVec 9) : Except Stop PageTables := do
  let s ← if ¬ (s.tables l2 pdte).isLarge then s.freeTable l2 pdte else .ok s
  return s.setEntry l2 pdte (((s.tables l2 pdte).setPresent false).setLarge false)

/-- The lambda `isMappedUsingLargePage` of `countRequiredPageTables`. -/
def isMappedUsingLargePage (address : Nat) : Except Stop Bool := do
  let walk ← orStop .fault (s.walkUnlocked (.ofNat 64 address))
  return walk.pageSize = .eLarge

def countRequiredPageTables (range : AnyRange) : Except Stop Nat :=
  let frontAligned := range.front % kLargePageSize = 0
  let backAligned := range.back % kLargePageSize = 0
  if frontAligned ∧ backAligned then .ok 0
  else if rounddown range.front kLargePageSize = rounddown range.back kLargePageSize then do
    return if ← s.isMappedUsingLargePage range.front then 1 else 0
  else do
    let head ← if ¬ frontAligned then s.isMappedUsingLargePage range.front else .ok false
    let tail ← if ¬ backAligned then s.isMappedUsingLargePage range.back else .ok false
    return head.toNat + tail.toNat

/-- `getLargePageEntry`: the table of the entry, and its index there. -/
def getLargePageEntry (address : Nat) : Except Stop (Nat × BitVec 9) := do
  match ← orStop .fault (s.findPageMap3 s.pml4 (part address 39)) with
  | none => .error (.check "Failed to find page map level 3.")
  | some l3 =>
    match ← orStop .fault (s.findPageMap2 l3 (part address 30)) with
    | none => .error (.check "Failed to find page map level 2.")
    | some l2 => return (l2, part address 21)

/-- `earlyUnmapWithList`, and what remains of the range. -/
def earlyUnmapWithList (earlyAllocations : Nat) (range : AnyRange) (buffer : PageTableList) :
    Except Stop (PageTables × AnyRange × PageTableList) :=
  if earlyAllocations = 2 then do
    let low : AnyRange := ⟨range.front, roundup range.front kLargePageSize⟩
    let high : AnyRange := ⟨rounddown range.back kLargePageSize, range.back⟩
    let lowPage : AnyRange := ⟨rounddown range.front kLargePageSize, roundup range.front kLargePageSize⟩
    let highPage : AnyRange := ⟨rounddown range.back kLargePageSize, roundup range.back kLargePageSize⟩
    let (lowTable, lowIndex) ← s.getLargePageEntry low.front
    let (highTable, highIndex) ← s.getLargePageEntry high.front
    let (s, allocation, buffer) ← s.claimListEntry buffer
    let s ← s.cut2mMapping lowTable lowIndex lowPage low allocation
    let (s, allocation, buffer) ← s.claimListEntry buffer
    let s ← s.cut2mMapping highTable highIndex highPage high allocation
    return (s, ⟨low.back, high.front⟩, buffer)
  else if earlyAllocations = 1 then do
    -- the page goes from the 2 MiB page of the front to that of the back
    let page : AnyRange := ⟨rounddown range.front kLargePageSize, roundup range.back kLargePageSize⟩
    if page.containsRange range ∧ ¬ AnyRange.innerAdjacent page range then
      let (table, index) ← s.getLargePageEntry range.front
      let (s, allocation, buffer) ← s.claimListEntry buffer
      let s ← s.split2mMapping table index page range allocation
      return (s, ⟨0, 0⟩, buffer)
    else if page.front = range.front ∧ page.back = range.back then .error (.check "Invalid range.")
    else
      -- in both branches of the source the entry is that of the front
      let (table, index) ← s.getLargePageEntry range.front
      let (s, allocation, buffer) ← s.claimListEntry buffer
      let s ← s.cut2mMapping table index page range allocation
      return (s, ⟨0, 0⟩, buffer)
  else .ok (s, range, buffer)

/-- `earlyUnmap`: the buffer of tables is not looked at again. -/
def earlyUnmap (range : AnyRange) : Except Stop (OsStatus × PageTables × AnyRange) := do
  let earlyAllocations ← s.countRequiredPageTables range
  if earlyAllocations = 0 then return (.success, s, range)
  else
    match ← orStop .fault (s.mAllocator.allocateList earlyAllocations) with
    | (allocator, none) => return (.outOfMemory, s.setAllocator allocator, range)
    | (allocator, some buffer) => do
      let (s, remaining, _) ←
        (s.setAllocator allocator).earlyUnmapWithList earlyAllocations range buffer
      return (.success, s, remaining)

/-- The loop of `unmapUnlocked` from the address `i` on. The distances that the loop skips over
tables that are not there are added to the address, as the source does. -/
def unmapLoop (back : Nat) : Nat → PageTables → Nat → Except Stop PageTables
  | 0, _, _ => .error .fault
  | fuel + 1, s, i =>
    if back ≤ i then .ok s
    else do
      match ← orStop .fault (s.findPageMap3 s.pml4 (part i 39)) with
      | none =>
        unmapLoop back fuel s (wrapAdd wordCount i (nextMultiple i kPml4MemorySize))
      | some l3 =>
        match ← orStop .fault (s.findPageMap2 l3 (part i 30)) with
        | none =>
          unmapLoop back fuel s (wrapAdd wordCount i (nextMultiple i kHugePageSize))
        | some l2 =>
          let pde := s.tables l2 (part i 21)
          if ¬ pde.present then
            unmapLoop back fuel s (wrapAdd wordCount i (nextMultiple i kLargePageSize))
          else if pde.isLarge then do
            let s ← s.reclaim2m l2 (part i 21)
            unmapLoop back fuel s (nextMultiple i kLargePageSize)
          else
            match ← orStop .fault (s.findPageTable l2 (part i 21)) with
            | none => unmapLoop back fuel s (wrapAdd wordCount i kPageSize)
            | some pt =>
              let t1 := (s.tables pt (part i 12)).setPresent false
              unmapLoop back fuel (s.setEntry pt (part i 12) t1) (wrapAdd wordCount i kPageSize)

def unmapUnlocked (range : AnyRange) : Except Stop PageTables :=
  unmapLoop range.back walkLimit s range.front

def unmap (range : AnyRange) : Except Stop (OsStatus × PageTables) := do
  let range := range.alignedOut kPageSize
  let (status, s, range) ← s.earlyUnmap range
  if status ≠ .success then return (status, s)
  else return (.success, ← s.unmapUnlocked range)

/-- The loop of `unmap2m` from the address `i` on. -/
def unmap2mLoop (back : Nat) : Nat → PageTables → Nat → Except Stop PageTables
  | 0, _, _ => .error .fault
  | fuel + 1, s, i =>
    if back ≤ i then .ok s
    else do
      match ← orStop .fault (s.findPageMap3 s.pml4 (part i 39)) with
      | none => unmap2mLoop back fuel s (wrapAdd wordCount i kPml4MemorySize)
      | some l3 =>
        match ← orStop .fault (s.findPageMap2 l3 (part i 30)) with
        | none => unmap2mLoop back fuel s (wrapAdd wordCount i kHugePageSize)
        | some l2 =>
          if ¬ (s.tables l2 (part i 21)).present then
            unmap2mLoop back fuel s (wrapAdd wordCount i kLargePageSize)
          else do
            let s ← s.reclaim2m l2 (part i 21)
            unmap2mLoop back fuel s (wrapAdd wordCount i kLargePageSize)

def unmap2m (range : AnyRange) : Except Stop (OsStatus × PageTables) :=
  if range.front % kLargePageSize = 0 ∧ range.back % kLargePageSize = 0 ∧
      kLargePageSize ≤ range.bytes then do
    return (.success, ← unmap2mLoop range.back walkLimit s range.front)
  else .ok (.invalidInput, s)

/-! ## Compaction -/

def isTableEmpty (table : Nat) : Prop := ∀ i, (s.tables table i).present = false

instance (table : Nat) : Decidable (s.isTableEmpty table) :=
  decidable_of_iff (∀ i ∈ indices, (s.tables table i).present = false)
    ⟨fun h i => h i (by
      simp only [indices, List.mem_map, List.mem_range]
      exact ⟨i.toNat, i.isLt, BitVec.ofNat_toNat ..⟩),
     fun h i _ => h i⟩

/-- A table that maps nothing goes back to the allocator, its entry is no longer present. -/
def dropTable (table : Nat) (index : BitVec 9) (below paddr : Nat) : Except Stop PageTables := do
  let s ← s.deallocate below paddr 1
  return s.setEntry table index ((s.tables table index).setPresent false)

def compactPt (pd : Nat) (index : BitVec 9) : Except Stop (PageTables × Nat) :=
  let entry := s.tables pd index
  if ¬ entry.present then .ok (s, 0)
  else if entry.isLarge then .ok (s, 0)
  else do
    let paddr := s.address entry
    let pt ← orStop .fault (s.asVirtual paddr)
    if s.isTableEmpty pt then return (← s.dropTable pd index pt paddr, 1)
    else return (s, 0)

/-- The loops of `compactPd` and `compactPdpt` over the entries of a table, with what each entry
gives up. The flag says that no entry was present after its turn. -/
def compactEntries (compact : PageTables → Nat → BitVec 9 → Except Stop (PageTables × Nat))
    (table : Nat) : Except Stop (PageTables × Nat × Bool) :=
  indices.foldlM (fun (s, count, reclaim) i => do
    let (s, freed) ← compact s table i
    return (s, count + freed, reclaim && !(s.tables table i).present)) (s, 0, true)

/-- The bodies of `compactPd` and `compactPdpt`, for a table below an entry. -/
def compactBelow (compact : PageTables → Nat → BitVec 9 → Except Stop (PageTables × Nat))
    (table : Nat) (index : BitVec 9) : Except Stop (PageTables × Nat) := do
  let paddr := s.address (s.tables table index)
  let below ← orStop .fault (s.asVirtual paddr)
  let (s, count, reclaim) ← s.compactEntries compact below
  if reclaim then return (← s.dropTable table index below paddr, count + 1)
  else return (s, count)

def compactPd (pd : Nat) (index : BitVec 9) : Except Stop (PageTables × Nat) :=
  let entry := s.tables pd index
  if ¬ entry.present then .ok (s, 0)
  else if entry.isLarge then .ok (s, 0)
  else s.compactBelow compactPt pd index

def compactPdpt (pd : Nat) (index : BitVec 9) : Except Stop (PageTables × Nat) :=
  if ¬ (s.tables pd index).present then .ok (s, 0) else s.compactBelow compactPd pd index

def compactPml4 (pml4 : Nat) : Except Stop (PageTables × Nat) :=
  indices.foldlM (fun (s, count) i => do
    let (s, freed) ← s.compactPdpt pml4 i
    return (s, count + freed)) (s, 0)

def compactUnlocked : Except Stop (PageTables × Nat) := s.compactPml4 s.pml4

def compact : Except Stop (PageTables × Nat) := s.compactUnlocked

end PageTables
end km
end BezOS
