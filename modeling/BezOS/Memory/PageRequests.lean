import BezOS.Memory.PageUnmapping

/-!
# Mapping requests

`PageTables::map` with the allocation of its tables, and the memory that tables are allocated
from. A request for tables is tried with a bound on their number first, then with a count made on
the tables, then once more after a compaction.
-/

namespace BezOS

open Lib

namespace km
namespace PageTables

open x64 (kLargePageSize kHugePageSize)

variable (s : PageTables)

/-! ## Counting the tables of a mapping -/

/-- A loop of `countPagesForMapping`: the segments of a range for which a table is missing. -/
def countMissing (range : AnyRange) (segment : Nat) (missing : Nat → Option Bool) : Option Nat :=
  let aligned := range.alignedOut segment
  (List.range ((aligned.back - aligned.front) / segment)).foldlM
    (fun count n => do
      return if ← missing (aligned.front + n * segment) then count + 1 else count) 0

def missingPml4e (i : Nat) : Option Bool := some (!(s.tables s.pml4 (part i 39)).present)

def missingPdpte (i : Nat) : Option Bool := do
  match ← s.findPageMap3 s.pml4 (part i 39) with
  | none => return true
  | some l3 => return !(s.tables l3 (part i 30)).present

def missingPdte (i : Nat) : Option Bool := do
  match ← s.findPageMap3 s.pml4 (part i 39) with
  | none => return true
  | some l3 =>
    match ← s.findPageMap2 l3 (part i 30) with
    | none => return true
    | some l2 => return !(s.tables l2 (part i 21)).present

def countPagesForMapping (range : AnyRange) : Option Nat := do
  let count4 ← countMissing range kPml4MemorySize s.missingPml4e
  let count3 ← countMissing range kHugePageSize s.missingPdpte
  let count2 ← countMissing range kLargePageSize s.missingPdte
  let count := count4 + count3 + count2
  let count := if range.front % kLargePageSize ≠ 0 then count + 1 else count
  return if range.back % kLargePageSize ≠ 0 then count + 1 else count

/-! ## Allocating them -/

/-- `allocateList`, and whether there is a list. -/
def allocateList (blocks : Nat) : Except Stop (PageTables × Option PageTableList) := do
  let (allocator, list) ← orStop .fault (s.mAllocator.allocateList blocks)
  return (s.setAllocator allocator, list)

def allocatePageTables (range : AnyRange) :
    Except Stop (PageTables × Except PageMappingResult PageTableList) := do
  match ← s.allocateList (maxPagesForMapping range) with
  | (s, some list) => return (s, .ok list)
  | (s, none) => do
    let freeBlocks ← orStop .fault
      (s.mAllocator.statsFreeBlocks walkLimit s.mAllocator.mHead)
    let requiredPages ← orStop .fault (s.countPagesForMapping range)
    match ← s.allocateList requiredPages with
    | (s, some list) => return (s, .ok list)
    | (s, none) => do
      let (s, count) ← s.compactUnlocked
      match ← s.allocateList requiredPages with
      | (s, some list) => return (s, .ok list)
      | (s, none) =>
        return (s, .error ⟨requiredPages, wrapSub wordCount requiredPages (freeBlocks + count)⟩)

def drainTableList (list : PageTableList) : Except Stop PageTables := do
  let allocator ← orStop .fault (s.mAllocator.deallocateList walkLimit list)
  return s.setAllocator allocator

/-! ## Mapping -/

/-- The loop that checks a mapping that was made, up to the end of its range. -/
def checkMapped (mapping : AddressMapping) : Except Stop Unit :=
  let back := wrapAdd wordCount mapping.vaddr mapping.size
  (List.range ((back - mapping.vaddr + kPageSize - 1) / kPageSize)).forM fun n => do
    let size ← orStop .fault (s.getPageSize (.ofNat 64 (mapping.vaddr + n * kPageSize)))
    if size = .eNone then .error (.check "Mapping failed to map the page.") else .ok ()

def map (request : PageMappingRequest) :
    Except Stop (OsStatus × PageTables × Option PageMappingResult) := do
  match ← s.allocatePageTables request.mapping.virtualRange with
  | (s, .error result) => return (.outOfMemory, s, some result)
  | (s, .ok buffer) => do
    let (s, buffer) ← s.mapWithList request.mapping request.flags request.type buffer
    s.checkMapped request.mapping
    let s ← s.drainTableList buffer
    return (.success, s, none)

/-! ## Backing memory -/

def addBackingMemory (mapping : AddressMapping) : Except Stop (OsStatus × PageTables) :=
  match s.mCache.addMemory mapping with
  | (.success, mCache) => do
    let allocator ← orStop .fault (s.mAllocator.addMemory mapping.virtualRange)
    return (.success, { s.setAllocator allocator with mCache })
  | (status, _) => .ok (status, s)

def reclaimBackingMemory : Except Stop (PageTables × Option AddressMapping) :=
  match s.mCache.reclaimMemory with
  | none => .ok (s, none)
  | some (reclaimed, mCache) => do
    let allocator ← orStop .fault (s.mAllocator.releaseMemory reclaimed.virtualRange)
    return ({ s.setAllocator allocator with mCache }, some reclaimed)

end PageTables
end km
end BezOS

/-!
## Calls on page tables

The calls that one owner of page tables makes, one after another, on tables that `create` made.
-/

namespace BezOS
namespace km

open PageFlags

inductive PageTablesCall
  | map (request : PageMappingRequest)
  | unmap (range : AnyRange)
  | unmap2m (range : AnyRange)
  | compact
  | addBackingMemory (mapping : AddressMapping)
  | reclaimBackingMemory

namespace PageTables

/-- The tables after a call; what the call returns is of no interest to the next one. -/
def serve (s : PageTables) : PageTablesCall → Except Stop PageTables
  | .map request => do return (← s.map request).2.1
  | .unmap range => do return (← s.unmap range).2
  | .unmap2m range => do return (← s.unmap2m range).2
  | .compact => do return (← s.compact).1
  | .addBackingMemory mapping => do return (← s.addBackingMemory mapping).2
  | .reclaimBackingMemory => do return (← s.reclaimBackingMemory).1

def serveAll (s : PageTables) (calls : List PageTablesCall) : Except Stop PageTables :=
  calls.foldlM serve s

/-- Tables that were created, and served some calls without a stop of the machine. -/
inductive Reachable : PageTables → Prop
  | create {pm : PageBuilder} {pteMemory : AddressMapping} {flags : PageFlags} {m : BlockMemory}
      {tables : Nat → BitVec 9 → x64.Entry} {s : PageTables}
      (h : create pm pteMemory flags m tables = some (.ok s)) : Reachable s
  | serve {s s' : PageTables} {call : PageTablesCall} (hs : Reachable s)
      (h : s.serve call = .ok s') : Reachable s'

lemma Reachable.serveAll {s s' : PageTables} {calls : List PageTablesCall} (hs : Reachable s)
    (h : s.serveAll calls = .ok s') : Reachable s' := by
  induction calls generalizing s with
  | nil =>
    obtain rfl : s = s' := Except.ok.inj h
    exact hs
  | cons call calls ih =>
    obtain ⟨next, hcall, hrest⟩ := bind_eq_ok.1 h
    exact ih (.serve hs hcall) hrest

end PageTables

/-! ## An example -/

def PageBuilder.of48 : PageBuilder where
  mAddressMask := x64.paging.addressMask 48
  mVaddrBits := 48
  vaddrBits_pos := by decide
  vaddrBits_le := by decide
  mLayout := getDefaultPatLayout
  paddrbits := 48
  paddrbits_lt := by decide
  addressMask_eq := rfl

def PageTablesCall.mapData (vaddr paddr size : Nat)
    (valid : isPageMappingRequestInputValid ⟨vaddr, paddr, size⟩ eAll := by decide) :
    PageTablesCall :=
  .map ⟨⟨vaddr, paddr, size⟩, eAll, MemoryType.eWriteBack, valid⟩

namespace PageTables

/-- Tables that serve some calls, in `pages` pages of empty memory. -/
def after (vaddr paddr pages : Nat) (calls : List PageTablesCall) : Except Stop PageTables :=
  match create .of48 ⟨vaddr, paddr, pages * kPageSize⟩ eAll
      ⟨fun _ => 0, fun _ => 0, fun _ => 0, fun _ => 0⟩ fun _ _ => 0 with
  | some (.ok s) => s.serveAll calls
  | _ => .error .fault

lemma reachable_after {vaddr paddr pages : Nat} {calls : List PageTablesCall} {s : PageTables}
    (h : after vaddr paddr pages calls = .ok s) : Reachable s := by
  rw [after] at h
  split at h
  · next hcreate => exact (Reachable.create hcreate).serveAll h
  · cases h

lemma exists_reachable (vaddr paddr pages : Nat) (calls : List PageTablesCall)
    {p : PageTables → Prop} [∀ s, Decidable (p s)]
    (h : ((after vaddr paddr pages calls).toOption.any fun s => decide (p s)) = true) :
    ∃ s, Reachable s ∧ p s := by
  obtain ⟨s, hs, hp⟩ := (Option.any_eq_true_iff_get _ _).1 h |> fun ⟨hsome, hp⟩ =>
    (⟨_, Option.some_get hsome, of_decide_eq_true hp⟩ :
      ∃ s, some s = (after vaddr paddr pages calls).toOption ∧ p s)
  exact ⟨s, reachable_after (eq_ok_of_toOption hs.symm), hp⟩

end PageTables
end km
end BezOS
