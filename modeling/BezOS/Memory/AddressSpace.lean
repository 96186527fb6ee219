import BezOS.Memory.PageTables
import BezOS.Memory.TlsfFreeing

/-!
# Address spaces

`AddressSpace` of `memory/address_space.cpp`: page tables and a heap of virtual ranges, with a lock
that the calls take for the heap. What the page tables do is a parameter: of a call they make, an
address space sees only the status.

A call that takes the lock while it holds it spins for ever.
-/

namespace BezOS
namespace km

open Lib Tlsf

/-- `PageTables::map` and `PageTables::unmap`. -/
structure PageTableCalls (τ : Type) where
  map : AddressMapping → PageFlags → MemoryType → τ → OsStatus × τ
  unmap : AnyRange → τ → OsStatus × τ

structure AddressSpace (τ : Type) where
  mLock : Bool
  mTables : τ
  mVmemHeap : TlsfHeap

/-- `StackMapping`: the stack, and its range with the guard pages. -/
structure StackMapping where
  stack : AddressMapping
  total : AnyRange
  deriving DecidableEq

namespace AddressSpace

variable {τ α : Type}

abbrev SpaceM (τ : Type) := StateT (AddressSpace τ) (Except Fault)

def lock : SpaceM τ Unit := fun s =>
  if s.mLock then .error .deadlock else .ok ((), { s with mLock := true })

def unlock : SpaceM τ Unit := fun s => .ok ((), { s with mLock := false })

/-- The scope of a `LockGuard`. -/
def locked (body : SpaceM τ α) : SpaceM τ α := do
  lock
  let a ← body
  unlock
  return a

def heap (call : HeapM α) : SpaceM τ α := fun s =>
  match call s.mVmemHeap with
  | .ok (a, mVmemHeap) => .ok (a, { s with mVmemHeap })
  | .error e => .error e

def tables (call : τ → OsStatus × τ) : SpaceM τ OsStatus := fun s =>
  .ok ((call s.mTables).1, { s with mTables := (call s.mTables).2 })

def blockRange (block : BlockPtr) : HeapM AnyRange := do
  let b ← deref block
  return ⟨b.offset, wrapAdd wordCount b.offset b.size⟩

/-- `KM_ASSERT(status == OsStatusSuccess)`. -/
def assertSuccess (status : OsStatus) : SpaceM τ Unit := heap (check (status == .success))

def isPageRange (range : AnyRange) : Prop :=
  ¬ range.isEmpty ∧ range = range.alignedOut kPageSize
  deriving Decidable

variable (pt : PageTableCalls τ)

def reserve (range : AnyRange) : SpaceM τ (OsStatus × Option BlockPtr) :=
  if isPageRange range then locked (heap (Tlsf.reserve range)) else return (.invalidInput, none)

/-- `unmap(VirtualRange)`. -/
def unmap (range : AnyRange) : SpaceM τ OsStatus :=
  if isPageRange range then
    locked do
      match ← heap (findAllocation range.front) with
      | none => return .notFound
      | some allocation =>
        let status ← tables (pt.unmap range)
        if status ≠ .success then return status
        else do
          heap (free allocation)
          return .success
  else return .invalidInput

/-- `unmap(VmemAllocation)`: the lock is taken after the page tables are called. -/
def unmapAllocation (allocation : BlockPtr) : SpaceM τ OsStatus := do
  let range ← heap (blockRange allocation)
  let status ← tables (pt.unmap range)
  if status ≠ .success then return status
  else do
    locked (heap (free allocation))
    return .success

/-- `map(MemoryRangeEx, PageFlags, MemoryType, VmemAllocation*)`. -/
def map (memory : AnyRange) (flags : PageFlags) (type : MemoryType) :
    SpaceM τ (OsStatus × Option BlockPtr) :=
  if isPageRange memory then
    locked do
      match ← heap (alignedAlloc kPageSize memory.bytes) with
      | none => return (.outOfMemory, none)
      | some vmem =>
        let range ← heap (blockRange vmem)
        let mapping : AddressMapping := ⟨range.front, memory.front, memory.bytes⟩
        let status ← tables (pt.map mapping flags type)
        if status ≠ .success then do
          heap (free vmem)
          return (status, none)
        else return (.success, some vmem)
  else return (.invalidInput, none)

def guardedSize (memory : AnyRange) : Nat := wrapAdd wordCount memory.bytes (2 * kPageSize)

def guardPoints (range : AnyRange) : List Nat :=
  [wrapAdd wordCount range.front kPageSize, wrapSub wordCount range.back kPageSize]

/-- What `mapStack` does when a step fails. -/
def dropStack (vmem : BlockPtr) : SpaceM τ Unit := do
  let inner ← unmapAllocation pt vmem
  assertSuccess inner

/-- `mapStack(MemoryRangeEx, PageFlags, std::array<VmemAllocation, 3>*)`. -/
def mapStack (memory : AnyRange) (flags : PageFlags) : SpaceM τ (OsStatus × Results) :=
  locked do
    match ← heap (alignedAlloc kPageSize (guardedSize memory)) with
    | none => return (.outOfMemory, [])
    | some vmem =>
      let range ← heap (blockRange vmem)
      let (status, results) ← heap (splitv vmem (guardPoints range) [none, none, none])
      if status ≠ .success then do
        dropStack pt vmem
        return (status, [])
      else do
        let stack ← heap (blockRange (← heap (getResult results 1)))
        let mapping : AddressMapping := ⟨stack.front, memory.front, memory.bytes⟩
        let status ← tables (pt.map mapping flags MemoryType.eWriteBack)
        if status ≠ .success then do
          dropStack pt vmem
          heap (free (← heap (getResult results 0)))
          heap (free (← heap (getResult results 1)))
          heap (free (← heap (getResult results 2)))
          return (status, [])
        else return (.success, results)

/-- The loop of `unmapStack` over the parts of a stack. -/
def unmapParts : List BlockPtr → SpaceM τ Unit
  | [] => pure ()
  | block :: blocks => do
    let range ← heap (blockRange block)
    assertSuccess (← tables (pt.unmap range))
    unmapParts blocks

def unmapStack (mapping : StackMapping) : SpaceM τ OsStatus :=
  locked do
    match ← heap (findAllocation mapping.total.front) with
    | none => return .notFound
    | some head =>
      match ← heap (findAllocation mapping.stack.vaddr) with
      | none => return .notFound
      | some stack =>
        match ← heap (findAllocation (wrapSub wordCount mapping.total.back kPageSize)) with
        | none => return .notFound
        | some tail =>
          unmapParts pt [head, stack, tail]
          heap (freeAll [head, stack, tail])
          return .success

end AddressSpace
end km
end BezOS
