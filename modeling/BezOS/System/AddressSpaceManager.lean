import BezOS.Lib.Word
import BezOS.Memory.HeapView
import BezOS.System.RangeLookup

/-!
# The address space manager

`sys::AddressSpaceManager::unmap` of `system/vmm.cpp` with everything it calls. A segment pairs a
virtual allocation with the physical memory that backs it; memory mapped with `mapExternal` has no
backing range. Releasing physical memory and unmapping pages are calls to the memory manager and
to the page tables: they are recorded in the order they are made, and each consumes one answer.
Addresses are 64-bit, so offsets into backing memory wrap.
-/

namespace BezOS

open Lib RangeTable

structure AddressSegment where
  backing : AnyRange
  allocation : AnyRange
  deriving DecidableEq

namespace AddressSegment

def range (s : AddressSegment) : AnyRange := s.allocation

def hasBackingMemory (s : AddressSegment) : Prop := s.backing.front ≠ s.backing.back
  deriving Decidable

/-- `getBackingMemory().size()`. -/
def backingSize (s : AddressSegment) : Nat := wrapSub (2 ^ 64) s.backing.back s.backing.front

/-- `mapping().virtualRange()`: as long as the backing memory, not as the allocation. -/
def virtualRange (s : AddressSegment) : AnyRange :=
  ⟨s.range.front, s.range.front + s.backingSize⟩

/-- `getBackingMemory().first(size)`. -/
def backingFirst (s : AddressSegment) (size : Nat) : AnyRange :=
  ⟨s.backing.front, wrapAdd (2 ^ 64) s.backing.front size⟩

/-- `getBackingMemory().last(size)`. -/
def backingLast (s : AddressSegment) (size : Nat) : AnyRange :=
  ⟨wrapSub (2 ^ 64) s.backing.back size, s.backing.back⟩

@[simp] lemma range_mk (b r : AnyRange) : (AddressSegment.mk b r).range = r := rfl
@[simp] lemma allocation_eq_range (s : AddressSegment) : s.allocation = s.range := rfl

end AddressSegment

/-- The calls an address space makes to the memory manager and to its page tables. -/
inductive ServiceCall
  | release (memory : AnyRange)
  | unmap (range : AnyRange)
  deriving DecidableEq

structure AddressSpaceManager where
  table : List AddressSegment
  heap : HeapView
  answers : List Bool
  log : List ServiceCall
  deriving DecidableEq

namespace AddressSpaceManager

inductive ReleaseSide
  | low
  | high
  deriving DecidableEq

/-- A call whose status is asserted to be `OsStatusSuccess`. -/
def call (m : AddressSpaceManager) (c : ServiceCall) : Except Fault AddressSpaceManager :=
  match m.answers with
  | true :: rest => .ok { m with answers := rest, log := m.log ++ [c] }
  | _ => .error .bugCheck

def addSegment (m : AddressSpaceManager) (s : AddressSegment) : AddressSpaceManager :=
  { m with table := insert AddressSegment.range m.table s }

def erase (m : AddressSpaceManager) (it : Nat) : AddressSpaceManager :=
  { m with table := m.table.eraseIdx it }

def free (m : AddressSpaceManager) (allocation : AnyRange) : AddressSpaceManager :=
  { m with heap := m.heap.free allocation }

def upper (m : AddressSpaceManager) (address : Nat) : Nat :=
  upperBound (back AddressSegment.range) address m.table

def deleteSegment (m : AddressSpaceManager) (s : AddressSegment) :
    Except Fault AddressSpaceManager := do
  let m ← if s.hasBackingMemory then m.call (.release s.backing) else pure m
  let m ← m.call (.unmap s.range)
  pure (m.free s.allocation)

/-- `eraseSegment(MemoryManager*, Iterator)`. -/
def eraseSegmentAt (m : AddressSpaceManager) (it : Nat) : Except Fault AddressSpaceManager :=
  match m.table[it]? with
  | none => .error .badAccess
  | some s => do
      let m ← m.deleteSegment s
      pure (m.erase it)

/-- `eraseSegment(MemoryManager*, VirtualRange)`: looked up by the end of the range. -/
def eraseSegment (m : AddressSpaceManager) (segment : AnyRange) :
    Except Fault AddressSpaceManager :=
  let it := findKey (back AddressSegment.range) segment.back m.table
  if it = m.table.length then .error .bugCheck else m.eraseSegmentAt it

/-- The loop of `eraseMany`; `end` is looked up again after each erase. -/
def eraseManyLoop (range : AnyRange) :
    Nat → AddressSpaceManager → Nat → Nat → Except Fault AddressSpaceManager
  | 0, _, _, _ => .error .outOfFuel
  | fuel + 1, m, it, end' =>
      if it = end' then .ok m
      else
        match m.table[it]? with
        | none => .error .badAccess
        | some s =>
            if ¬ range.containsRange s.range then .error .bugCheck
            else
              match m.eraseSegmentAt it with
              | .error e => .error e
              | .ok m => eraseManyLoop range fuel m it (m.upper range.back)

def eraseMany (m : AddressSpaceManager) (range : AnyRange) : Except Fault AddressSpaceManager :=
  eraseManyLoop range (m.table.length + 1) m (m.upper range.front) (m.upper range.back)

def splitSegment (m : AddressSpaceManager) (it midpoint : Nat) (side : ReleaseSide) :
    Except Fault (OsStatus × AddressSpaceManager) :=
  match m.table[it]? with
  | none => .error .badAccess
  | some s =>
      let seg := s.range
      let frontOffset := midpoint - seg.front
      let backOffset := seg.back - midpoint
      match m.heap.split s.allocation midpoint with
      | (.error status, h) => .ok (status, { m with heap := h })
      | (.ok (lo, hi), h) =>
          let loSegment : AddressSegment := ⟨s.backingFirst frontOffset, lo⟩
          let hiSegment : AddressSegment := ⟨s.backingLast backOffset, hi⟩
          let m := { m with heap := h }.erase it
          match side with
          | .low => do
              let m ← (m.addSegment hiSegment).deleteSegment loSegment
              pure (.success, m)
          | .high => do
              let m ← (m.addSegment loSegment).deleteSegment hiSegment
              pure (.success, m)

/-! ## Unmap -/

/-- `unmap` of a range strictly inside its one segment. -/
def unmapInner (m : AddressSpaceManager) (it : Nat) (s : AddressSegment) (range : AnyRange) :
    Except Fault (OsStatus × AddressSpaceManager) :=
  let seg := s.virtualRange
  let lhs : AnyRange := ⟨seg.front, range.front⟩
  let rhs : AnyRange := ⟨range.back, seg.back⟩
  if lhs.isEmpty ∨ rhs.isEmpty then .error .bugCheck
  else
    match m.heap.splitv s.allocation [range.front, range.back] 3 with
    | (.error status, h) => .ok (status, { m with heap := h })
    | (.ok [lo, mid, hi], h) => do
        let offset := range.front - seg.front
        let memory : AnyRange := ⟨wrapAdd (2 ^ 64) s.backing.front offset,
          wrapAdd (2 ^ 64) (s.backing.front + offset) range.size⟩
        let m ← { m with heap := h }.call (.release memory)
        let m ← m.call (.unmap range)
        let m := (m.free mid).erase it
        pure (.success, (m.addSegment ⟨s.backingFirst lhs.size, lo⟩).addSegment
          ⟨s.backingLast rhs.size, hi⟩)
    | (.ok _, _) => .error .badAccess

/-- `unmap` when the range meets one segment. -/
def unmapOne (m : AddressSpaceManager) (it : Nat) (range : AnyRange) :
    Except Fault (OsStatus × AddressSpaceManager) :=
  match m.table[it]? with
  | none => .error .badAccess
  | some s =>
      let seg := s.virtualRange
      if seg = range ∨ range.containsRange seg then do
        let m ← m.eraseSegmentAt it
        pure (.success, m)
      else if range.front = seg.front then m.splitSegment it range.back .low
      else if range.back = seg.back then m.splitSegment it range.front .high
      else if seg.containsRange range then m.unmapInner it s range
      else if seg.front > range.front ∧ seg.back > range.back then
        m.splitSegment it range.back .low
      else if range.front > seg.front ∧ range.back > seg.back then
        m.splitSegment it range.front .high
      else .error .bugCheck

/-- The two ends erased, then everything between them. -/
def unmapBetween (m : AddressSpaceManager) (lhs rhs : AnyRange) :
    Except Fault (OsStatus × AddressSpaceManager) := do
  let m ← m.eraseSegment lhs
  let m ← m.eraseSegment rhs
  let m ← m.eraseMany ⟨lhs.back, rhs.front⟩
  pure (.success, m)

/-- `unmap` when the range meets several segments. -/
def unmapMany (m : AddressSpaceManager) (begin : Nat) (lhs rhs range : AnyRange) :
    Except Fault (OsStatus × AddressSpaceManager) :=
  if lhs.front = range.front ∧ rhs.back = range.back then m.unmapBetween lhs rhs
  else if range.containsRange lhs ∧ rhs.back = range.back then m.unmapBetween lhs rhs
  else if range.containsRange rhs ∧ lhs.front = range.front then m.unmapBetween lhs rhs
  else if lhs.contains range.front ∧ rhs.contains range.back then do
    -- the statuses of both splits are discarded
    let (_, m) ← m.splitSegment (findAddress AddressSegment.range m.table range.front)
      range.front .high
    let (_, m) ← m.splitSegment (findAddress AddressSegment.range m.table range.back)
      range.back .low
    let m ← m.eraseMany ⟨lhs.back, rhs.front⟩
    pure (.success, m)
  else if range.front > lhs.front ∧ range.back > rhs.back then do
    let (_, m) ← m.splitSegment begin range.front .high
    let m ← m.eraseSegment rhs
    let m ← m.eraseMany ⟨lhs.back, rhs.front⟩
    pure (.success, m)
  else .error .bugCheck

def unmapSegment (m : AddressSpaceManager) (it : Nat) (range remaining : AnyRange) :
    Except Fault (OsStatus × AnyRange × AddressSpaceManager) :=
  match m.table[it]? with
  | none => .error .badAccess
  | some s =>
      let seg := s.range
      let subrange := AnyRange.intersection seg range
      if subrange.isEmpty then .ok (.completed, remaining, m)
      else if range.containsRange seg then do
        let frontOffset := subrange.front - seg.front
        let backOffset := seg.back - subrange.back
        let srcMemory : AnyRange := ⟨wrapAdd (2 ^ 64) s.backing.front frontOffset,
          wrapSub (2 ^ 64) s.backing.back backOffset⟩
        let m ← m.call (.release srcMemory)
        let m ← m.call (.unmap seg)
        pure (.success, ⟨seg.back, range.back⟩, (m.free s.allocation).erase it)
      else if seg.front > range.front then
        match m.splitSegment it range.back .low with
        | .error e => .error e
        | .ok (.success, m) => .ok (.completed, remaining, m)
        | .ok (status, m) => .ok (status, remaining, m)
      else if ¬ (range.back > seg.back ∧ seg.contains range.front) then .error .bugCheck
      else
        match m.splitSegment it range.front .high with
        | .error e => .error e
        | .ok (status, m) => .ok (status, remaining, m)

/-- The final loop of `unmap`. -/
def unmapLoop (range : AnyRange) : Nat → AddressSpaceManager → AnyRange → Nat → Nat →
    Except Fault (OsStatus × AddressSpaceManager)
  | 0, _, _, _, _ => .error .outOfFuel
  | fuel + 1, m, remaining, it, end' =>
      if it = end' then .ok (.success, m)
      else
        match m.unmapSegment it range remaining with
        | .error e => .error e
        | .ok (.completed, _, m) => .ok (.success, m)
        | .ok (.success, remaining, m) =>
            let (it, end') := find AddressSegment.range m.table remaining
            unmapLoop range fuel m remaining it end'
        | .ok (status, _, m) => .ok (status, m)

/-- The body of `unmap`. -/
def unmapBody (m : AddressSpaceManager) (range : AnyRange) :
    Except Fault (OsStatus × AddressSpaceManager) :=
  let (begin, end') := find AddressSegment.range m.table range
  if begin = m.table.length then .ok (.notFound, m)
  else if begin = end' then m.unmapOne begin range
  else
    match m.table[begin]?, m.table[end']? with
    | some lhs, some rhs => m.unmapMany begin lhs.virtualRange rhs.virtualRange range
    | _, _ =>
        unmapLoop range (m.table.length + 1) m range begin
          (findAddress AddressSegment.range m.table range.back)

/-- The `defer` of `unmap`: a segment that still shares an address with the range is an internal
error, whatever the call was about to return. -/
def unmapDeferred (range : AnyRange) (m : AddressSpaceManager) : Prop :=
  ∀ s ∈ m.table[m.upper range.front]?, (AnyRange.intersection range s.range).isEmpty

instance (range : AnyRange) (m : AddressSpaceManager) : Decidable (unmapDeferred range m) :=
  match h : m.table[m.upper range.front]? with
  | none => isTrue (by simp [unmapDeferred, h])
  | some s =>
      decidable_of_iff ((AnyRange.intersection range s.range).isEmpty) (by simp [unmapDeferred, h])

def unmap (m : AddressSpaceManager) (range : AnyRange) :
    Except Fault (OsStatus × AddressSpaceManager) :=
  if ¬ range.isValid then .error .bugCheck
  else
    match m.unmapBody range with
    | .error e => .error e
    | .ok (status, m) =>
        if unmapDeferred range m then .ok (status, m) else .error .bugCheck

end AddressSpaceManager
end BezOS

/-!
## Mapping into an address space

The functions of `sys::AddressSpaceManager` that add segments. The virtual heap and the page
tables answer through the arguments of a call. A service never looks at handles, so no status of
one denies access.
-/

namespace BezOS

open Lib

structure ServiceStatus where
  status : OsStatus
  ne_accessDenied : status ≠ .accessDenied
  deriving DecidableEq

namespace ServiceStatus

def success : ServiceStatus := ⟨.success, by decide⟩

def outOfMemory : ServiceStatus := ⟨.outOfMemory, by decide⟩

end ServiceStatus

structure SpaceAnswers where
  /-- `alignedAlloc` or `allocateWithHint`. -/
  allocation : Option AnyRange
  /-- `reserve`. -/
  reserve : ServiceStatus
  /-- `mPageTables.map`. -/
  tables : ServiceStatus
  /-- `manager->retain` succeeds, which is asserted. -/
  retained : Bool

namespace AddressSpaceManager

abbrev MapResult := Except Fault (OsStatus × Option Nat × AddressSpaceManager)

def take (m : AddressSpaceManager) (allocation : AnyRange) : AddressSpaceManager :=
  { m with heap := { m.heap with used := allocation :: m.heap.used } }

/-- The end of `allocateVirtual` and of `map` of given memory, once the heap has answered. -/
def mapAllocation (m : AddressSpaceManager) (memory allocation : AnyRange) (tables : ServiceStatus) :
    OsStatus × Option Nat × AddressSpaceManager :=
  if tables.status ≠ .success then (tables.status, none, m)
  else (.success, some allocation.front, (m.take allocation).addSegment ⟨memory, allocation⟩)

def allocateVirtual (m : AddressSpaceManager) (memory : AnyRange) (address size : Nat)
    (addressIsHint : Bool) (a : SpaceAnswers) : MapResult :=
  if addressIsHint then
    if address = 0 then .error .bugCheck
    else
      match a.allocation with
      | none => .ok (.outOfMemory, none, m)
      | some allocation => .ok (m.mapAllocation memory allocation a.tables)
  else if address ≠ 0 then
    if a.reserve.status ≠ .success then .ok (a.reserve.status, none, m)
    else .ok (m.mapAllocation memory ⟨address, wrapAdd (2 ^ 64) address size⟩ a.tables)
  else
    match a.allocation with
    | none => .ok (.outOfMemory, none, m)
    | some allocation => .ok (m.mapAllocation memory allocation a.tables)

/-- `map` of given memory at an address of the heap's choice; the memory is released when the page
tables refuse. -/
def mapMemory (m : AddressSpaceManager) (memory : AnyRange) (a : SpaceAnswers) : MapResult :=
  match a.allocation with
  | none => .ok (.outOfMemory, none, m)
  | some allocation =>
      if a.tables.status ≠ .success then do
        let m ← m.call (.release memory)
        pure (a.tables.status, none, m)
      else .ok (m.mapAllocation memory allocation a.tables)

/-- `map` of given memory at a given address, which is unmapped first. -/
def mapAt (m : AddressSpaceManager) (address : Nat) (memory : AnyRange) (a : SpaceAnswers) :
    MapResult := do
  let range : AnyRange := ⟨address, wrapAdd (2 ^ 64) address memory.size⟩
  let (status, m) ← m.unmap range
  if status ≠ .success ∧ status ≠ .notFound then pure (status, none, m)
  else if a.reserve.status ≠ .success then pure (a.reserve.status, none, m)
  else if a.tables.status ≠ .success then .error .bugCheck
  else pure (.success, some address, (m.take range).addSegment ⟨memory, range⟩)

/-- The part of the other segment that the remote mapping shares: all of it, or its high end. -/
def remoteMemory (s : AddressSegment) (range : AnyRange) : Option AnyRange :=
  if s.range = range then some s.backing
  else if s.range.back = range.back then
    some ⟨wrapAdd (2 ^ 64) s.backing.front (wrapSub (2 ^ 64) range.front s.range.front),
      s.backing.back⟩
  else none

/-- `map` of a range of another address space. Only a range inside one segment is supported; the
loop over several segments is never reached, since the end of the range is never `end()`. -/
def mapRemote (m other : AddressSpaceManager) (range : AnyRange) (a : SpaceAnswers) : MapResult :=
  let (begin, end') := RangeTable.find AddressSegment.range other.table range
  if begin = other.table.length then .ok (.notFound, none, m)
  else
    match a.allocation with
    | none => .ok (.outOfMemory, none, m)
    | some allocation =>
        if begin ≠ end' then .error .bugCheck
        else
          match other.table[begin]? with
          | none => .error .badAccess
          | some s =>
              match remoteMemory s range with
              | none => .error .bugCheck
              | some memory =>
                  if ¬ a.retained then .error .bugCheck
                  else if a.tables.status ≠ .success then .error .bugCheck
                  else .ok (.success, some allocation.front,
                    (m.take allocation).addSegment ⟨memory, allocation⟩)

end AddressSpaceManager
end BezOS
