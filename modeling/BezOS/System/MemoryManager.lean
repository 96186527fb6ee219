import BezOS.Memory.HeapView
import BezOS.System.RangeLookup

/-!
# The physical memory manager

`sys::MemoryManager` of `system/pmm.cpp`: reference-counted segments of physical memory over a
page heap. Each function below follows its source; the two public calls `retain` and `release`
are cut at their top-level branches into the helpers named after what the branch handles.
-/

namespace BezOS

open Lib AnyRange RangeTable

/-- `sys::MemorySegment`: the owner count is an 8-bit atomic. -/
structure MemorySegment where
  owners : UInt8
  allocation : AnyRange
  deriving DecidableEq

namespace MemorySegment

def range (s : MemorySegment) : AnyRange := s.allocation

/-- `owners += 1`. -/
def retained (s : MemorySegment) : MemorySegment := { s with owners := s.owners + 1 }

/-- `owners.fetch_sub(1)`. -/
def released (s : MemorySegment) : MemorySegment := { s with owners := s.owners - 1 }

@[simp] lemma range_retained (s : MemorySegment) : s.retained.range = s.range := rfl
@[simp] lemma range_released (s : MemorySegment) : s.released.range = s.range := rfl
@[simp] lemma range_mk (n : UInt8) (r : AnyRange) : (MemorySegment.mk n r).range = r := rfl
@[simp] lemma allocation_eq_range (s : MemorySegment) : s.allocation = s.range := rfl
@[simp] lemma owners_retained (s : MemorySegment) : s.retained.owners = s.owners + 1 := rfl
@[simp] lemma owners_released (s : MemorySegment) : s.released.owners = s.owners - 1 := rfl

end MemorySegment

structure MemoryManager where
  table : List MemorySegment
  heap : HeapView
  deriving DecidableEq

namespace MemoryManager

inductive ReleaseSide
  | low
  | high
  deriving DecidableEq

def addSegment (m : MemoryManager) (s : MemorySegment) : MemoryManager :=
  { m with table := insert MemorySegment.range m.table s }

/-- `mTable.erase(it)`. -/
def erase (m : MemoryManager) (it : Nat) : MemoryManager :=
  { m with table := m.table.eraseIdx it }

/-- `segments().erase(address)`. -/
def eraseKey (m : MemoryManager) (address : Nat) : MemoryManager :=
  m.erase (findKey (back MemorySegment.range) address m.table)

def lower (m : MemoryManager) (address : Nat) : Nat :=
  lowerBound (back MemorySegment.range) address m.table

def upper (m : MemoryManager) (address : Nat) : Nat :=
  upperBound (back MemorySegment.range) address m.table

/-! ## Single segments -/

/-- `retainEntry(Iterator)`. -/
def retainEntry (m : MemoryManager) (it : Nat) : MemoryManager :=
  { m with table := m.table.modify it MemorySegment.retained }

/-- `retainEntry(PhysicalAddress)`. -/
def retainEntryAt (m : MemoryManager) (address : Nat) : Except Fault MemoryManager :=
  let it := findKey (back MemorySegment.range) address m.table
  if it = m.table.length then .error .bugCheck else .ok (m.retainEntry it)

/-- `releaseSegment`: whether the last owner left, and the heap after it. -/
def releaseSegment (h : HeapView) (s : MemorySegment) : Bool × HeapView :=
  if s.owners = 1 then (true, h.free s.range) else (false, h)

/-- `releaseEntry(Iterator)`. -/
def releaseEntry (m : MemoryManager) (it : Nat) : Except Fault MemoryManager :=
  match m.table[it]? with
  | none => .error .badAccess
  | some s =>
      match releaseSegment m.heap s with
      | (true, h) => .ok { table := m.table.eraseIdx it, heap := h }
      | (false, h) => .ok { table := m.table.modify it MemorySegment.released, heap := h }

/-- `releaseEntry(PhysicalAddress)`. -/
def releaseEntryAt (m : MemoryManager) (address : Nat) : Except Fault MemoryManager :=
  let it := findKey (back MemorySegment.range) address m.table
  if it = m.table.length then .error .bugCheck else m.releaseEntry it

/-- `if (!releaseSegment(segment)) addSegment(segment)`. -/
def releaseOrAdd (m : MemoryManager) (s : MemorySegment) : MemoryManager :=
  match releaseSegment m.heap s with
  | (true, h) => { m with heap := h }
  | (false, h) => { m with heap := h }.addSegment s.released

def retainSegment (m : MemoryManager) (it midpoint : Nat) (side : ReleaseSide) :
    Except Fault (OsStatus × MemoryManager) :=
  match m.table[it]? with
  | none => .error .badAccess
  | some s =>
      match m.heap.split s.range midpoint with
      | (.error status, h) => .ok (status, { m with heap := h })
      | (.ok (lo, hi), h) =>
          let lo : MemorySegment := ⟨s.owners, lo⟩
          let hi : MemorySegment := ⟨s.owners, hi⟩
          let m := { m with heap := h }.erase it
          match side with
          | .low => .ok (.success, (m.addSegment lo.retained).addSegment hi)
          | .high => .ok (.success, (m.addSegment lo).addSegment hi.retained)

def splitSegment (m : MemoryManager) (it midpoint : Nat) (side : ReleaseSide) :
    Except Fault (OsStatus × MemoryManager) :=
  match m.table[it]? with
  | none => .error .badAccess
  | some s =>
      match m.heap.split s.range midpoint with
      | (.error status, h) => .ok (status, { m with heap := h })
      | (.ok (lo, hi), h) =>
          let lo : MemorySegment := ⟨s.owners, lo⟩
          let hi : MemorySegment := ⟨s.owners, hi⟩
          let m := { m with heap := h }.erase it
          match side with
          | .low => .ok (.success, (m.releaseOrAdd lo).addSegment hi)
          | .high => .ok (.success, (m.releaseOrAdd hi).addSegment lo)

/-! ## The loops over the segments of a range -/

/-- The lambda `updateIterators` that `retain` and `release` share. -/
def updateIterators (m : MemoryManager) (newRange : AnyRange) : Nat × Nat :=
  let end' := m.lower newRange.back
  (m.lower newRange.front, if end' ≠ m.table.length then end' + 1 else end')

def retainRange (m : MemoryManager) (it : Nat) (range remaining : AnyRange) :
    Except Fault (OsStatus × AnyRange × MemoryManager) :=
  match m.table[it]? with
  | none => .error .badAccess
  | some s =>
      let seg := s.range
      if range.containsRange seg then
        .ok (.success, ⟨seg.back, range.back⟩, m.retainEntry it)
      else if seg.back = range.front then .ok (.moreData, remaining, m)
      else if seg.front > range.front then
        match m.retainSegment it range.back .low with
        | .error e => .error e
        | .ok (.success, m) => .ok (.completed, remaining, m)
        | .ok (status, m) => .ok (status, remaining, m)
      else
        match m.retainSegment it range.front .high with
        | .error e => .error e
        | .ok (.success, m) => .ok (.success, ⟨seg.back, range.back⟩, m)
        | .ok (status, m) => .ok (status, remaining, m)

/-- The final loop of `retain`. -/
def retainLoop (range : AnyRange) : Nat → MemoryManager → AnyRange → Nat → Nat →
    Except Fault (OsStatus × MemoryManager)
  | 0, _, _, _, _ => .error .outOfFuel
  | fuel + 1, m, remaining, it, end' =>
      if it = end' then .ok (.success, m)
      else
        match m.table[it]? with
        | none => .error .badAccess
        | some s =>
            if ¬ interval s.range range then .ok (.success, m)
            else
              match m.retainRange it range remaining with
              | .error e => .error e
              | .ok (.completed, _, m) => .ok (.success, m)
              | .ok (.moreData, remaining, m) => retainLoop range fuel m remaining (it + 1) end'
              | .ok (.success, remaining, m) =>
                  let (begin, end') := m.updateIterators remaining
                  retainLoop range fuel m remaining (begin + 1) end'
              | .ok (status, _, m) => .ok (status, m)

def releaseRange (m : MemoryManager) (it : Nat) (range : AnyRange) :
    Except Fault (OsStatus × AnyRange × MemoryManager) :=
  match m.table[it]? with
  | none => .error .badAccess
  | some s =>
      let seg := s.range
      if ¬ interval seg range then .error .bugCheck
      else if range.containsRange seg then
        match m.releaseEntry it with
        | .error e => .error e
        | .ok m => .ok (.success, ⟨seg.back, range.back⟩, m)
      else if seg.front > range.front then
        match m.splitSegment it range.back .low with
        | .error e => .error e
        | .ok (.success, m) => .ok (.completed, range, m)
        | .ok (status, m) => .ok (status, range, m)
      else
        match m.splitSegment it range.front .high with
        | .error e => .error e
        | .ok (.success, m) => .ok (.success, ⟨seg.back, range.back⟩, m)
        | .ok (status, m) => .ok (status, range, m)

/-- The final loop of `release`. -/
def releaseLoop : Nat → MemoryManager → AnyRange → Nat → Nat →
    Except Fault (OsStatus × MemoryManager)
  | 0, _, _, _, _ => .error .outOfFuel
  | fuel + 1, m, remaining, it, end' =>
      if it = end' then .ok (.success, m)
      else
        match m.releaseRange it remaining with
        | .error e => .error e
        | .ok (.completed, _, m) => .ok (.success, m)
        | .ok (.success, remaining, m) =>
            let (begin, end') := m.updateIterators remaining
            releaseLoop fuel m remaining begin end'
        | .ok (status, _, m) => .ok (status, m)

/-- More than the number of segments either loop can visit: each visit moves past a segment and
a loop adds at most one. -/
def loopBound (m : MemoryManager) : Nat := m.table.length + 3

/-! ## Retain -/

/-- `retain` when the range meets one segment. -/
def retainOne (m : MemoryManager) (it : Nat) (range : AnyRange) :
    Except Fault (OsStatus × MemoryManager) :=
  match m.table[it]? with
  | none => .error .badAccess
  | some s =>
      let seg := s.range
      if range.containsRange seg ∨ seg = range then .ok (.success, m.retainEntry it)
      else if seg.containsRange range ∧ ¬ innerAdjacent seg range then
        match m.heap.splitv seg [range.front, range.back] 3 with
        | (.error status, h) => .ok (status, { m with heap := h })
        | (.ok [lo, mid, hi], h) =>
            let m := { m with heap := h }.erase it
            .ok (.success, ((m.addSegment ⟨s.owners, lo⟩).addSegment
              ⟨s.owners + 1, mid⟩).addSegment ⟨s.owners, hi⟩)
        | (.ok _, _) => .error .badAccess
      else if seg.front ≥ range.front ∧ seg.back > range.back then
        m.retainSegment it range.back .low
      else if range.front > seg.front ∧ range.back ≥ seg.back then
        m.retainSegment it range.front .high
      else .error .bugCheck

/-- One recording of the command list: nothing, or a block request. -/
def reserveSplit (h : HeapView) (shouldSplit : Bool) : Bool × HeapView :=
  if shouldSplit then h.request else (true, h)

/-- One recorded command of `list.commit()`; without it the two results stay null. -/
def commitSplit (h : HeapView) (shouldSplit : Bool) (ptr : AnyRange) (midpoint : Nat) :
    Except Fault (AnyRange × AnyRange × HeapView) :=
  if shouldSplit then h.commitSplit ptr midpoint else .ok (⟨0, 0⟩, ⟨0, 0⟩, h)

/-- What `retain` and `release` share when both ends of the range lie in segments: reserve the
blocks for the splits, then split. The result carries the parts of the two segments. -/
def splitEnds (m : MemoryManager) (lhs rhs : MemorySegment) (range : AnyRange) :
    Except Fault (Option ((AnyRange × AnyRange) × (AnyRange × AnyRange)) × MemoryManager) :=
  let lhsShouldSplit := decide (lhs.range.front ≠ range.front)
  let rhsShouldSplit := decide (rhs.range.back ≠ range.back)
  match reserveSplit m.heap lhsShouldSplit with
  | (false, h) => .ok (none, { m with heap := h })
  | (true, h) =>
      match reserveSplit h rhsShouldSplit with
      | (false, h) => .ok (none, { m with heap := h })
      | (true, h) =>
          match commitSplit h lhsShouldSplit lhs.range range.front with
          | .error e => .error e
          | .ok (lhsLo, lhsHi, h) =>
              match commitSplit h rhsShouldSplit rhs.range range.back with
              | .error e => .error e
              | .ok (rhsLo, rhsHi, h) =>
                  .ok (some ((lhsLo, lhsHi), (rhsLo, rhsHi)), { m with heap := h })

/-- The first segment, kept below the range and retained inside it. -/
def retainLhs (m : MemoryManager) (lhs : MemorySegment) (parts : AnyRange × AnyRange)
    (range : AnyRange) : Except Fault MemoryManager :=
  if lhs.range.front ≠ range.front then
    let lo : MemorySegment := ⟨lhs.owners, parts.1⟩
    let hi : MemorySegment := ⟨lhs.owners, parts.2⟩
    .ok (((m.eraseKey lhs.range.back).addSegment hi.retained).addSegment lo)
  else m.retainEntryAt lhs.range.back

/-- The last segment, retained inside the range and kept above it. -/
def retainRhs (m : MemoryManager) (rhs : MemorySegment) (parts : AnyRange × AnyRange)
    (range : AnyRange) : Except Fault MemoryManager :=
  if rhs.range.back ≠ range.back then
    let lo : MemorySegment := ⟨rhs.owners, parts.1⟩
    let hi : MemorySegment := ⟨rhs.owners, parts.2⟩
    .ok (((m.eraseKey rhs.range.back).addSegment lo.retained).addSegment hi)
  else m.retainEntryAt rhs.range.back

/-- `for (it = begin; it != end; ++it) retainEntry(it)`. -/
def retainMany (m : MemoryManager) (begin : Nat) : Nat → MemoryManager
  | 0 => m
  | n + 1 => retainMany (m.retainEntry begin) (begin + 1) n

/-- `retain` when both ends of the range lie in segments. -/
def retainEnds (m : MemoryManager) (lhs rhs : MemorySegment) (range : AnyRange) :
    Except Fault (OsStatus × MemoryManager) :=
  match m.splitEnds lhs rhs range with
  | .error e => .error e
  | .ok (none, m) => .ok (.outOfMemory, m)
  | .ok (some (lhsParts, rhsParts), m) =>
      match m.retainLhs lhs lhsParts range with
      | .error e => .error e
      | .ok m =>
          match m.retainRhs rhs rhsParts range with
          | .error e => .error e
          | .ok m =>
              if lhs.range.back = rhs.range.front then .ok (.success, m)
              else
                let begin := m.upper lhs.range.back
                let end' := m.upper rhs.range.front
                .ok (.success, m.retainMany begin (end' - begin))

/-- The tests before the final loop of `retain`, and the loop. -/
def retainRest (m : MemoryManager) (begin end' : Nat) (range : AnyRange) :
    Except Fault (OsStatus × MemoryManager) :=
  match m.table[begin]? with
  | some s =>
      if end' = m.table.length ∧ s.range.back = range.front then .ok (.notFound, m)
      else retainLoop range m.loopBound m range begin end'
  | none => retainLoop range m.loopBound m range begin end'

def retain (m : MemoryManager) (range : AnyRange) : Except Fault (OsStatus × MemoryManager) :=
  let (begin, end') := find MemorySegment.range m.table range
  if begin = m.table.length then .ok (.notFound, m)
  else if begin = end' then m.retainOne begin range
  else
    match m.table[begin]?, m.table[end']? with
    | some lhs, some rhs =>
        if (lhs.range.contains range.front ∨ lhs.range.front = range.front) ∧
            (rhs.range.contains range.back ∨ rhs.range.back = range.back) then
          m.retainEnds lhs rhs range
        else m.retainRest begin (end' + 1) range
    | _, _ => m.retainRest begin end' range

/-! ## Release -/

/-- `release` when the range meets one segment. -/
def releaseOne (m : MemoryManager) (it : Nat) (range : AnyRange) :
    Except Fault (OsStatus × MemoryManager) :=
  match m.table[it]? with
  | none => .error .badAccess
  | some s =>
      let seg := s.range
      let entry : Except Fault (OsStatus × MemoryManager) :=
        match m.releaseEntry it with
        | .error e => .error e
        | .ok m => .ok (.success, m)
      if seg = range ∨ range.containsRange seg then entry
      else if seg.containsRange range ∧ ¬ innerAdjacent seg range then
        match m.heap.splitv seg [range.front, range.back] 3 with
        | (.error status, h) => .ok (status, { m with heap := h })
        | (.ok [lo, mid, hi], h) =>
            let m := { m with heap := h }.erase it
            .ok (.success, ((m.releaseOrAdd ⟨s.owners, mid⟩).addSegment
              ⟨s.owners, lo⟩).addSegment ⟨s.owners, hi⟩)
        | (.ok _, _) => .error .badAccess
      else if (seg.back = range.back ∧ seg.front > range.front) ∨
          (seg.front = range.front ∧ range.back > seg.back) then entry
      else if seg.back > range.back ∧ seg.front > range.front then
        m.splitSegment it range.back .low
      else if range.back > seg.back ∧ range.front > seg.front then
        m.splitSegment it range.front .high
      else if seg.front > range.front ∧ seg.contains range.back then
        m.splitSegment it range.back .low
      else if seg.front > range.front ∧ seg.back = range.back then entry
      else if seg.front = range.front ∧ seg.contains range.back then
        m.splitSegment it range.back .low
      else if seg.back = range.back ∧ seg.contains range.front then
        m.splitSegment it range.front .high
      else .error .bugCheck

/-- The first segment, kept below the range and released inside it. -/
def releaseLhs (m : MemoryManager) (lhs : MemorySegment) (parts : AnyRange × AnyRange)
    (range : AnyRange) : Except Fault MemoryManager :=
  if lhs.range.front ≠ range.front then
    let lo : MemorySegment := ⟨lhs.owners, parts.1⟩
    let hi : MemorySegment := ⟨lhs.owners, parts.2⟩
    .ok (((m.eraseKey lhs.range.back).releaseOrAdd hi).addSegment lo)
  else m.releaseEntryAt lhs.range.back

/-- The last segment, released inside the range and kept above it. -/
def releaseRhs (m : MemoryManager) (rhs : MemorySegment) (parts : AnyRange × AnyRange)
    (range : AnyRange) : Except Fault MemoryManager :=
  if rhs.range.back ≠ range.back then
    let lo : MemorySegment := ⟨rhs.owners, parts.1⟩
    let hi : MemorySegment := ⟨rhs.owners, parts.2⟩
    .ok (((m.eraseKey rhs.range.back).releaseOrAdd lo).addSegment hi)
  else m.releaseEntryAt rhs.range.back

/-- The loop over the segments between the two ends; `end` is looked up again after an erase. -/
def releaseMany (point : Nat) : Nat → MemoryManager → Nat → Nat → Except Fault MemoryManager
  | 0, _, _, _ => .error .outOfFuel
  | fuel + 1, m, it, end' =>
      if it = end' then .ok m
      else
        match m.table[it]? with
        | none => .error .badAccess
        | some s =>
            match releaseSegment m.heap s with
            | (true, h) =>
                let m := { table := m.table.eraseIdx it, heap := h }
                releaseMany point fuel m it (m.upper point)
            | (false, h) =>
                let m := { table := m.table.modify it MemorySegment.released, heap := h }
                releaseMany point fuel m (it + 1) end'

/-- `release` when both ends of the range lie in segments. -/
def releaseEnds (m : MemoryManager) (lhs rhs : MemorySegment) (range : AnyRange) :
    Except Fault (OsStatus × MemoryManager) :=
  match m.splitEnds lhs rhs range with
  | .error e => .error e
  | .ok (none, m) => .ok (.outOfMemory, m)
  | .ok (some (lhsParts, rhsParts), m) =>
      match m.releaseLhs lhs lhsParts range with
      | .error e => .error e
      | .ok m =>
          match m.releaseRhs rhs rhsParts range with
          | .error e => .error e
          | .ok m =>
              if lhs.range.back = rhs.range.front then .ok (.success, m)
              else
                match releaseMany rhs.range.front m.loopBound m (m.upper lhs.range.back)
                    (m.upper rhs.range.front) with
                | .error e => .error e
                | .ok m => .ok (.success, m)

/-- The tests before the final loop of `release`, and the loop. -/
def releaseRest (m : MemoryManager) (begin end' : Nat) (range : AnyRange) :
    Except Fault (OsStatus × MemoryManager) :=
  match m.table[begin]? with
  | some s =>
      if end' = m.table.length ∧ s.range.back = range.front then .ok (.notFound, m)
      else releaseLoop m.loopBound m range begin end'
  | none => releaseLoop m.loopBound m range begin end'

def release (m : MemoryManager) (range : AnyRange) : Except Fault (OsStatus × MemoryManager) :=
  if ¬ range.isValid then .error .bugCheck
  else
    let (begin, end') := find MemorySegment.range m.table range
    if begin = m.table.length then .ok (.notFound, m)
    else if begin = end' then m.releaseOne begin range
    else
      match m.table[begin]?, m.table[end']? with
      | some lhs, some rhs =>
          if (lhs.range.contains range.front ∨ lhs.range.front = range.front) ∧
              (rhs.range.contains range.back ∨ rhs.range.back = range.back) then
            m.releaseEnds lhs rhs range
          else if lhs.range.back = range.front then
            if ¬ rhs.range.contains range.back then .error .bugCheck
            else m.splitSegment end' range.back .low
          else m.releaseRest begin (end' + 1) range
      | _, _ => m.releaseRest begin end' range

/-! ## Allocate -/

/-- `allocate` when the heap answers `block`: a null allocation, or the range it took. -/
def allocate (m : MemoryManager) (block : Option AnyRange) : OsStatus × MemoryManager :=
  match block with
  | none => (.outOfMemory, m)
  | some r => (.success, { m with heap := { m.heap with used := r :: m.heap.used } }.addSegment ⟨1, r⟩)

end MemoryManager
end BezOS
