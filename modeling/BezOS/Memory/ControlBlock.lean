import BezOS.Lib.DoublyLinked
import BezOS.Lib.Word

/-!
# Control blocks

`memory/detail/control_block.cpp` and the two list edits of `memory/table_allocator.cpp`. A free
block of the page table allocator holds its own `ControlBlock` in its first four words. The
memory is given by these words of each block address: `next` is the word at offset 0, `prev` at
8, `size` at 16 and `slide` at 24. Address 0 is the null pointer.

A walk over the list takes a number of steps it may make at most and answers `none` when the list
is longer than that.
-/

namespace BezOS

open Lib Function

abbrev wordCount : Nat := 2 ^ 64

@[ext]
structure BlockMemory where
  next : Nat → Nat
  prev : Nat → Nat
  size : Nat → Nat
  slide : Nat → Nat

namespace BlockMemory

variable (m : BlockMemory) (a b x : Nat)

def setNext : BlockMemory := { m with next := update m.next a x }

def setPrev : BlockMemory := { m with prev := update m.prev a x }

def setSize : BlockMemory := { m with size := update m.size a x }

def setSlide : BlockMemory := { m with slide := update m.slide a x }

@[simp] lemma setNext_next : (m.setNext a x).next = update m.next a x := rfl
@[simp] lemma setNext_prev : (m.setNext a x).prev = m.prev := rfl
@[simp] lemma setNext_size : (m.setNext a x).size = m.size := rfl
@[simp] lemma setNext_slide : (m.setNext a x).slide = m.slide := rfl
@[simp] lemma setPrev_next : (m.setPrev a x).next = m.next := rfl
@[simp] lemma setPrev_prev : (m.setPrev a x).prev = update m.prev a x := rfl
@[simp] lemma setPrev_size : (m.setPrev a x).size = m.size := rfl
@[simp] lemma setPrev_slide : (m.setPrev a x).slide = m.slide := rfl
@[simp] lemma setSize_next : (m.setSize a x).next = m.next := rfl
@[simp] lemma setSize_prev : (m.setSize a x).prev = m.prev := rfl
@[simp] lemma setSize_size : (m.setSize a x).size = update m.size a x := rfl
@[simp] lemma setSize_slide : (m.setSize a x).slide = m.slide := rfl
@[simp] lemma setSlide_next : (m.setSlide a x).next = m.next := rfl
@[simp] lemma setSlide_prev : (m.setSlide a x).prev = m.prev := rfl
@[simp] lemma setSlide_size : (m.setSlide a x).size = m.size := rfl
@[simp] lemma setSlide_slide : (m.setSlide a x).slide = update m.slide a x := rfl

/-- `*block = ControlBlock { next, prev, size, slide }`. -/
def setBlock (next prev size slide : Nat) : BlockMemory :=
  (((m.setNext a next).setPrev a prev).setSize a size).setSlide a slide

/-! ## Taking a block apart and out -/

/-- `SplitBlock`: the last `size` bytes of `block` become a block of their own, linked behind it.
`KM_CHECK` stops the machine when the block is not larger than that. -/
def splitBlock (block size : Nat) : Option (BlockMemory × Nat) :=
  if size < m.size block then
    let next := wrapAdd wordCount block (m.size block - size)
    let m := m.setSize block (m.size block - size)
    let m := if m.next block ≠ 0 then m.setPrev (m.next block) next else m
    let m := m.setNext next (m.next block)
    let m := m.setNext block next
    let m := m.setPrev next block
    let m := m.setSize next size
    let m := m.setSlide next (m.slide block)
    some (m, next)
  else none

def removeBlock (block : Nat) : BlockMemory :=
  let m := if m.prev block ≠ 0 then m.setNext (m.prev block) (m.next block) else m
  if m.next block ≠ 0 then m.setPrev (m.next block) (m.prev block) else m

/-! ## Sorting -/

/-- The body of the loop of `Partition` for a block above the pivot: it leaves its list, by the
same two writes as `RemoveBlock`, and becomes the first block of `result`. -/
def moveGreater (l result : Nat) : BlockMemory :=
  let m := m.removeBlock l
  let m := if result = 0 then m.setNext l 0 else (m.setNext l result).setPrev result l
  m.setPrev l 0

/-- The loop of `Partition` from the block `l` on; `lte` and `result` are what it has gathered. -/
def partitionLoop (value : Nat) : Nat → BlockMemory → Nat → Nat → Nat →
    Option (BlockMemory × Nat × Nat)
  | 0, _, _, _, _ => none
  | fuel + 1, m, l, lte, result =>
    if l = 0 then some (m, lte, result)
    else
      let next := m.next l
      if value < l then partitionLoop value fuel (m.moveGreater l result) next lte l
      else partitionLoop value fuel m next (if lte = 0 then l else lte) result

/-- `Partition`: the lists `lte` and `gt`; `mid` is the block it is given. -/
def partition (fuel l : Nat) : Option (BlockMemory × Nat × Nat) :=
  if l = 0 then some (m, 0, 0) else partitionLoop l fuel m (m.next l) 0 0

/-- The end of `QuicksortInner`: `mid` goes before `gt` and `lte` before both. -/
def joinSorted (lte lteEnd mid gt gtEnd : Nat) : BlockMemory × Nat × Nat :=
  let (m, last) :=
    if gt = 0 then ((m.setNext mid 0).setPrev mid 0, mid)
    else (((m.setNext mid gt).setPrev mid 0).setPrev gt mid, gtEnd)
  if lte = 0 then (m, mid, last)
  else ((m.setNext lteEnd mid).setPrev mid lteEnd, lte, last)

/-- `QuicksortInner`: the first and the last block of the sorted list. -/
def quicksortInner : Nat → BlockMemory → Nat → Option (BlockMemory × Nat × Nat)
  | 0, _, _ => none
  | fuel + 1, m, l =>
    if l = 0 then some (m, 0, 0)
    else if m.next l = 0 then some (m, l, l)
    else do
      let (m, lte, gt) ← m.partition (fuel + 1) l
      let (m, lte, lteEnd) ← quicksortInner fuel m lte
      let (m, gt, gtEnd) ← quicksortInner fuel m gt
      return m.joinSorted lte lteEnd l gt gtEnd

/-- `Quicksort`, without the first block of the result, which its caller does not use. -/
def quicksort (fuel head : Nat) : Option BlockMemory := do
  let (m, first, last) ← quicksortInner fuel m head
  let m := if first ≠ 0 then m.setPrev first 0 else m
  return if last ≠ 0 then m.setNext last 0 else m

def head : Nat → Nat → Option Nat
  | 0, _ => none
  | fuel + 1, block => if m.prev block ≠ 0 then head fuel (m.prev block) else some block

def sortBlocks (fuel block : Nat) : Option BlockMemory := do
  let block ← m.head fuel block
  m.quicksort fuel block

/-! ## Merging -/

/-- `next` goes into the block before it. -/
def mergeNext (block next : Nat) : BlockMemory :=
  let m := m.setSize block (wrapAdd wordCount (m.size block) (m.size next))
  let m := m.setNext block (m.next next)
  if m.next next ≠ 0 then m.setPrev (m.next next) block else m

def mergeAdjacentBlocks : Nat → BlockMemory → Nat → Option BlockMemory
  | 0, _, _ => none
  | fuel + 1, m, block =>
    if block = 0 then some m
    else
      let next := m.next block
      if next = 0 then some m
      else if wrapAdd wordCount block (m.size block) = next ∧ m.slide next = m.slide block then
        mergeAdjacentBlocks fuel (m.mergeNext block next) block
      else mergeAdjacentBlocks fuel m (m.next block)

end BlockMemory

end BezOS
