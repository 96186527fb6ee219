import BezOS.Lib.OrderedList
import BezOS.Memory.PageEntry
import BezOS.Memory.TableAllocator

/-!
# Page tables

`memory/page_tables.cpp`: the tables of one address space, and what reads them. The tables lie in
the pages of the allocator and are found by their physical address through a lookup table of
mappings. The words that the allocator keeps in free pages are its own, `PageTableAllocator.mem`;
what a page holds as a table is `tables`.

`none` is a stopped machine: a `KM_CHECK` or `KM_PANIC`, or an invalid pointer followed.
-/

namespace BezOS

open Lib

inductive PageSize
  | eNone
  | eRegular
  | eLarge
  | eHuge
  deriving DecidableEq

def PageWalk.pageSize (w : PageWalk) : PageSize :=
  if w.pdpte.present ∧ w.pdpte.isLarge then .eHuge
  else if w.pdte.present ∧ w.pdte.isLarge then .eLarge
  else if w.pte.present then .eRegular
  else .eNone

namespace km

structure AddressMapping where
  vaddr : Nat
  paddr : Nat
  size : Nat
  deriving DecidableEq

namespace AddressMapping

def virtualRange (m : AddressMapping) : AnyRange := ⟨m.vaddr, wrapAdd wordCount m.vaddr m.size⟩

def physicalRange (m : AddressMapping) : AnyRange := ⟨m.paddr, wrapAdd wordCount m.paddr m.size⟩

def slide (m : AddressMapping) : Nat := wrapSub wordCount m.vaddr m.paddr

end AddressMapping

/-! ## The lookup table -/

structure MapEntry where
  vaddr : Nat
  count : Nat
  refs : Nat
  deriving DecidableEq

/-- A `StaticFlatMap` from physical addresses, in their order. -/
structure MappingLookupTable where
  mCapacity : Nat
  entries : List (Nat × MapEntry)

namespace MappingLookupTable

/-- The entries that fit into `size` bytes. -/
def ofStorage (size : Nat) : MappingLookupTable := ⟨size / 24, []⟩

def lowerBound (t : MappingLookupTable) (paddr : Nat) : Nat :=
  Lib.lowerBound Prod.fst paddr t.entries

def findEntry (t : MappingLookupTable) (paddr : Nat) : Option (Nat × MapEntry) :=
  match t.entries[t.lowerBound paddr]? with
  | none => none
  | some (key, entry) => if key = paddr then some (t.lowerBound paddr, entry) else none

def insert (t : MappingLookupTable) (paddr : Nat) (entry : MapEntry) :
    OsStatus × MappingLookupTable :=
  if t.entries.length = t.mCapacity then (.outOfMemory, t)
  else
    match t.findEntry paddr with
    | some (index, _) => (.success, { t with entries := t.entries.set index (paddr, entry) })
    | none =>
        (.success, { t with entries := t.entries.insertIdx (t.lowerBound paddr) (paddr, entry) })

def addMemory (t : MappingLookupTable) (mapping : AddressMapping) :
    OsStatus × MappingLookupTable :=
  t.insert mapping.paddr ⟨mapping.vaddr, mapping.size / kPageSize % 2 ^ 32, 0⟩

/-- `find`; nothing for the invalid address. The entry before the lower bound is taken even where
the lower bound is the entry asked for. -/
def find (t : MappingLookupTable) (paddr : Nat) : Option Nat :=
  let it := t.lowerBound paddr
  let it := if it ≠ 0 then it - 1 else it
  match t.entries[it]? with
  | none => none
  | some (key, entry) =>
      if key > paddr ∨ wrapAdd wordCount key (entry.count * kPageSize) ≤ paddr then none
      else
        let slide := wrapSub wordCount key entry.vaddr
        some (wrapSub wordCount paddr slide)

/-- `reclaimMemory`: the first mapping that is not referenced. -/
def reclaimMemory (t : MappingLookupTable) : Option (AddressMapping × MappingLookupTable) :=
  match t.entries.find? fun e => e.2.refs = 0 with
  | none => none
  | some (key, entry) =>
      some (⟨entry.vaddr, key, entry.count * kPageSize⟩,
        { t with entries := t.entries.filter fun e => e.1 ≠ key })

def retain (t : MappingLookupTable) (paddr : Nat) : MappingLookupTable :=
  match t.findEntry paddr with
  | none => t
  | some (index, entry) =>
      { t with entries := t.entries.set index (paddr, { entry with
          refs := (entry.refs + 1) % 2 ^ 32 }) }

def release (t : MappingLookupTable) (paddr : Nat) : MappingLookupTable :=
  match t.findEntry paddr with
  | none => t
  | some (index, entry) =>
      if entry.refs > 0 then
        { t with entries := t.entries.set index (paddr, { entry with refs := entry.refs - 1 }) }
      else t

end MappingLookupTable

/-! ## The tables -/

structure PageTables where
  mCache : MappingLookupTable
  mAllocator : PageTableAllocator
  mPageManager : PageBuilder
  mRootAllocation : PageTableAllocation
  mMiddleFlags : PageFlags
  /-- The tables, by the virtual address of their page. -/
  tables : Nat → BitVec 9 → x64.Entry

namespace PageTables

open BezOS.PageTables (addressPart)

variable (s : PageTables)

def pml4 : Nat := s.mRootAllocation.mBlock

def address (e : x64.Entry) : Nat := s.mPageManager.address e

/-- `asVirtual` and `getPageEntry`: the table at a physical address. -/
def asVirtual (paddr : Nat) : Option Nat := s.mCache.find paddr

def setEntry (table : Nat) (index : BitVec 9) (e : x64.Entry) : PageTables :=
  { s with tables := Function.update s.tables table (Function.update (s.tables table) index e) }

def zeroPage (table : Nat) : PageTables :=
  { s with tables := Function.update s.tables table fun _ => 0 }

/-- `create`, in memory that holds what it holds. -/
def create (pm : PageBuilder) (pteMemory : AddressMapping) (flags : PageFlags) (m : BlockMemory)
    (tables : Nat → BitVec 9 → x64.Entry) : Option (Except OsStatus PageTables) :=
  match PageTableAllocator.create pteMemory.virtualRange pteMemory.slide kPageSize m with
  | .error status => some (.error status)
  | .ok allocator => do
      let (allocator, root) ← allocator.allocate 1
      let (allocator, cache) ← allocator.allocate 1
      if ¬ root.isPresent ∨ ¬ cache.isPresent then some (.error .outOfMemory)
      else
        match (MappingLookupTable.ofStorage kPageSize).addMemory pteMemory with
        | (.success, mCache) =>
            let mCache := (mCache.retain root.getPhysical).retain cache.getPhysical
            let s : PageTables := ⟨mCache, allocator, pm, root, flags, tables⟩
            some (.ok (s.zeroPage root.mBlock))
        | _ => none

/-! ## Reading -/

/-- `findPageMap3`; the null pointer for a table that is not there. -/
def findPageMap3 (l4 : Nat) (pml4e : BitVec 9) : Option (Option Nat) :=
  if (s.tables l4 pml4e).present then (s.asVirtual (s.address (s.tables l4 pml4e))).map some
  else some none

/-- `findPageMap2` and `findPageTable`, which differ in the level they read. -/
def findBelow (table : Nat) (index : BitVec 9) : Option (Option Nat) :=
  let e := s.tables table index
  if e.present ∧ ¬ e.isLarge then (s.asVirtual (s.address e)).map some else some none

def findPageMap2 (l3 : Nat) (pdpte : BitVec 9) : Option (Option Nat) := s.findBelow l3 pdpte
def findPageTable (l2 : Nat) (pdte : BitVec 9) : Option (Option Nat) := s.findBelow l2 pdte

def walkUnlocked (ptr : BitVec 64) : Option PageWalk := do
  let pml4e := s.tables s.pml4 (addressPart ptr 39)
  if ¬ pml4e.present then return ⟨pml4e, 0, 0, 0⟩
  else
    let l3 ← s.asVirtual (s.address pml4e)
    let pdpte := s.tables l3 (addressPart ptr 30)
    if ¬ pdpte.present ∨ pdpte.isLarge then return ⟨pml4e, pdpte, 0, 0⟩
    else
      let l2 ← s.asVirtual (s.address pdpte)
      let pdte := s.tables l2 (addressPart ptr 21)
      if ¬ pdte.present ∨ pdte.isLarge then return ⟨pml4e, pdpte, pdte, 0⟩
      else
        let pt ← s.asVirtual (s.address pdte)
        return ⟨pml4e, pdpte, pdte, s.tables pt (addressPart ptr 12)⟩

def walk (ptr : BitVec 64) : Option PageWalk := s.walkUnlocked ptr

def getMemoryFlags (ptr : BitVec 64) : Option PageFlags := (s.walk ptr).map PageWalk.flags

def getPageSize (ptr : BitVec 64) : Option PageSize := (s.walk ptr).map PageWalk.pageSize

/-- `getBackingAddressUnlocked`; the inner nothing is `PhysicalAddressEx::invalid()`. -/
def getBackingAddressUnlocked (ptr : BitVec 64) : Option (Option Nat) := do
  let offset := (ptr &&& 0xFFF).toNat
  let t4 := s.tables s.pml4 (addressPart ptr 39)
  if ¬ t4.present then return none
  else
    let l3 ← s.asVirtual (s.address t4)
    let t3 := s.tables l3 (addressPart ptr 30)
    if ¬ t3.present then return none
    else if t3.isLarge then
      let pdpteOffset := (ptr &&& 0x3FF000).toNat
      return some (s.address t3 + pdpteOffset + offset)
    else
      let l2 ← s.asVirtual (s.address t3)
      let t2 := s.tables l2 (addressPart ptr 21)
      if ¬ t2.present then return none
      else if t2.isLarge then
        let pdteOffset := (ptr &&& 0x1FF000).toNat
        return some (s.address t2 + pdteOffset + offset)
      else
        match ← s.findPageTable l2 (addressPart ptr 21) with
        | none => return none
        | some pt =>
            let t1 := s.tables pt (addressPart ptr 12)
            if ¬ t1.present then return none
            else return some (s.address t1 + offset)

def getBackingAddress (ptr : BitVec 64) : Option (Option Nat) := s.getBackingAddressUnlocked ptr

/-! ## Counting -/

structure PageTableStats where
  pml4Entries : Nat
  pdptEntries : Nat
  pdEntries : Nat
  ptEntries : Nat
  deriving DecidableEq

def indices : List (BitVec 9) := (List.range 512).map fun i => BitVec.ofNat 9 i

/-- `stats`, without those of the allocator. The tables of the two inner loops are found by the
entry of the root, as that of the loop around them. -/
def stats : Option PageTableStats :=
  indices.foldlM (fun stats i => do
    let e := s.tables s.pml4 i
    if ¬ e.present then return stats
    else
      let stats := { stats with pml4Entries := stats.pml4Entries + 1 }
      indices.foldlM (fun stats j => do
        let l3 ← s.asVirtual (s.address e)
        let pdpte := s.tables l3 j
        if ¬ pdpte.present then return stats
        else
          let stats := { stats with pdptEntries := stats.pdptEntries + 1 }
          if pdpte.isLarge then return stats
          else
            indices.foldlM (fun stats k => do
              let l2 ← s.asVirtual (s.address e)
              let pdte := s.tables l2 k
              if ¬ pdte.present then return stats
              else
                let stats := { stats with pdEntries := stats.pdEntries + 1 }
                if pdte.isLarge then return stats
                else
                  indices.foldlM (fun stats l => do
                    let pt ← s.asVirtual (s.address e)
                    if (s.tables pt l).present then
                      return { stats with ptEntries := stats.ptEntries + 1 }
                    else return stats) stats) stats) stats) ⟨0, 0, 0, 0⟩

end PageTables
end km
end BezOS
