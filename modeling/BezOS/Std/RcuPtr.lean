import Mathlib.Tactic.Common

/-!
# Reference-counted pointers

`sm::RcuSharedPtr` and `sm::RcuWeakPtr` of `std/rcuptr.hpp`, with the control blocks they share and
the sticky counters inside them. A pointer is a slot that holds a control block or nothing; a new
pointer is a new slot, and a slot whose pointer is gone holds nothing. Pointers converted from a
derived type run the same code as copies and moves and have no operations of their own.
-/

namespace BezOS

/-! ## Counters -/

namespace StickyCounter

def kZeroFlag : UInt32 := 0x80000000

def kPendingZeroFlag : UInt32 := 0x40000000

def load (value : UInt32) : UInt32 :=
  if value = 0 then 0 else if value &&& kZeroFlag ≠ 0 then 0 else value

/-- `increment(1)`. -/
def increment (count : UInt32) : Bool × UInt32 := (count &&& kZeroFlag == 0, count + 1)

/-- `decrement(1)`. -/
def decrement (count : UInt32) : Bool × UInt32 :=
  if count = 1 then
    let expected := count - 1
    if expected = 0 then (true, kZeroFlag)
    else if expected &&& kPendingZeroFlag ≠ 0 then (true, kZeroFlag)
    else (false, expected)
  else (false, count - 1)

end StickyCounter

/-- `rcu::detail::ControlBlock`: the joint count, and how often the object and the block itself
were handed to the domain. -/
structure ControlBlock where
  mWeakCount : UInt32
  mStrongCount : UInt32
  objectRetired : Nat
  blockRetired : Nat
  deriving DecidableEq

namespace ControlBlock

open StickyCounter

/-- `NewControlBlock`. -/
def new : ControlBlock := ⟨1, 1, 0, 0⟩

def weakRetain (cb : ControlBlock) : Bool × ControlBlock :=
  let (ok, count) := increment cb.mWeakCount
  (ok, { cb with mWeakCount := count })

/-- `RcuReleaseWeak`. -/
def releaseWeak (cb : ControlBlock) : ControlBlock :=
  let (cleared, count) := decrement cb.mWeakCount
  let cb := { cb with mWeakCount := count }
  if cleared then { cb with blockRetired := cb.blockRetired + 1 } else cb

def strongRetain (cb : ControlBlock) : Bool × ControlBlock :=
  match increment cb.mWeakCount with
  | (false, count) => (false, { cb with mWeakCount := count })
  | (true, count) =>
      let cb := { cb with mWeakCount := count }
      let (ok, count) := increment cb.mStrongCount
      (ok, { cb with mStrongCount := count })

/-- `RcuReleaseStrong`. -/
def releaseStrong (cb : ControlBlock) : ControlBlock :=
  let (weakCleared, weak) := decrement cb.mWeakCount
  let (strongCleared, strong) := decrement cb.mStrongCount
  let cb := { cb with mWeakCount := weak, mStrongCount := strong }
  let cb := if strongCleared then { cb with objectRetired := cb.objectRetired + 1 } else cb
  if weakCleared then { cb with blockRetired := cb.blockRetired + 1 } else cb

end ControlBlock

/-! ## Pointers -/

structure RcuPtrs where
  blocks : List ControlBlock
  shared : List (Option Nat)
  weak : List (Option Nat)
  deriving DecidableEq

namespace RcuPtrs

/-- `mControl` of a shared pointer. -/
def sharedAt (s : RcuPtrs) (i : Nat) : Option Nat := s.shared[i]?.join

/-- `mControl` of a weak pointer. -/
def weakAt (s : RcuPtrs) (i : Nat) : Option Nat := s.weak[i]?.join

def setShared (s : RcuPtrs) (i : Nat) (control : Option Nat) : RcuPtrs :=
  { s with shared := s.shared.set i control }

def setWeak (s : RcuPtrs) (i : Nat) (control : Option Nat) : RcuPtrs :=
  { s with weak := s.weak.set i control }

def newShared (s : RcuPtrs) : RcuPtrs := { s with shared := s.shared ++ [none] }

def newWeak (s : RcuPtrs) : RcuPtrs := { s with weak := s.weak ++ [none] }

def modifyBlock (s : RcuPtrs) (b : Nat) (f : ControlBlock → ControlBlock) : RcuPtrs :=
  { s with blocks := s.blocks.modify b f }

def rcuReleaseStrong (s : RcuPtrs) (b : Nat) : RcuPtrs := s.modifyBlock b ControlBlock.releaseStrong

def rcuReleaseWeak (s : RcuPtrs) (b : Nat) : RcuPtrs := s.modifyBlock b ControlBlock.releaseWeak

def rcuAcquireStrong (s : RcuPtrs) (b : Nat) : Bool × RcuPtrs :=
  ((s.blocks.getD b .new).strongRetain.1, s.modifyBlock b fun cb => cb.strongRetain.2)

def rcuAcquireWeak (s : RcuPtrs) (b : Nat) : Bool × RcuPtrs :=
  ((s.blocks.getD b .new).weakRetain.1, s.modifyBlock b fun cb => cb.weakRetain.2)

def replaceControl (s : RcuPtrs) (i : Nat) (control : Option Nat) : RcuPtrs :=
  match s.sharedAt i with
  | none => s.setShared i control
  | some old => (s.setShared i control).rcuReleaseStrong old

def acquire (s : RcuPtrs) (i : Nat) (control : Option Nat) : RcuPtrs :=
  match control with
  | none => s.replaceControl i none
  | some b =>
      match s.rcuAcquireStrong b with
      | (true, s) => s.replaceControl i (some b)
      | (false, s) => s.replaceControl i none

def exchangeControl (s : RcuPtrs) (i : Nat) (control : Option Nat) : RcuPtrs :=
  match s.weakAt i with
  | none => s.setWeak i control
  | some old => (s.setWeak i control).rcuReleaseWeak old

/-- `RcuWeakPtr::acquire`. -/
def acquireWeak (s : RcuPtrs) (i : Nat) (control : Option Nat) : RcuPtrs :=
  match control with
  | none => s.exchangeControl i none
  | some b =>
      match s.rcuAcquireWeak b with
      | (true, s) => s.exchangeControl i (some b)
      | (false, s) => s.exchangeControl i none

def newBlock (s : RcuPtrs) : RcuPtrs := { s with blocks := s.blocks ++ [.new] }

/-- `initWeak(weak())`: the object's own weak pointer is a new slot, and so is the argument. -/
def initWeak (s : RcuPtrs) (i : Nat) : RcuPtrs :=
  let self := s.weak.length
  let argument := self + 1
  let s := (s.newWeak.newWeak).acquireWeak argument (s.sharedAt i)
  let s := s.acquireWeak self (s.weakAt argument)
  s.exchangeControl argument none

/-- The move of a shared pointer into the slot `dst`. -/
def moveShared (s : RcuPtrs) (dst src : Nat) : RcuPtrs :=
  (s.setShared src none).replaceControl dst (s.sharedAt src)

/-- The move of a weak pointer into the slot `dst`. -/
def moveWeak (s : RcuPtrs) (dst src : Nat) : RcuPtrs :=
  (s.setWeak src none).exchangeControl dst (s.weakAt src)

/-- The body that `compare_exchange_strong` and `compare_exchange_weak` share. The latter may also
fail when the pointers are equal. -/
def compareExchange (s : RcuPtrs) (self expected desired : Nat) (spurious : Bool) : RcuPtrs :=
  let oldControl := s.sharedAt self
  if oldControl ≠ s.sharedAt expected ∨ spurious then
    -- a temporary takes the pointer that was found and is moved into `expected`
    let temporary := s.shared.length
    (s.newShared.acquire temporary oldControl).moveShared expected temporary
  else
    let s := s.setShared self (s.sharedAt desired)
    match oldControl with
    | none => s
    | some old => s.rcuReleaseStrong old

end RcuPtrs

/-- The operations on a set of pointers. Each that makes a pointer makes it in a new slot. -/
inductive PtrOp
  | construct
  /-- From a domain and an object; allocating the control block may fail. -/
  | constructObject (allocated intrusive : Bool)
  | copy (src : Nat)
  | move (src : Nat)
  | assign (dst src : Nat)
  | moveAssign (dst src : Nat)
  | constructWeak
  /-- `RcuWeakPtr(const RcuSharedPtr&)`, and `weak()`. -/
  | weak (src : Nat)
  /-- `RcuWeakPtr(RcuSharedPtr&&)`. -/
  | weakOfRvalue (src : Nat)
  | copyWeak (src : Nat)
  | moveNewWeak (src : Nat)
  | assignWeak (dst src : Nat)
  | moveAssignWeak (dst src : Nat)
  | lock (src : Nat)
  | exchange (self desired : Nat)
  /-- `desired` is passed by value: copied, or moved from. -/
  | compareExchangeStrong (self expected desired : Nat) (moved : Bool)
  | compareExchangeWeak (self expected desired : Nat) (spurious : Bool)
  | store (self desired : Nat)
  | reset (self : Nat)
  /-- `reset(domain, ptr)`. -/
  | resetObject (self : Nat) (allocated : Bool)
  | destroy (self : Nat)
  | resetWeak (self : Nat)
  | destroyWeak (self : Nat)
  deriving DecidableEq

namespace RcuPtrs

def step (s : RcuPtrs) : PtrOp → RcuPtrs
  | .construct => s.newShared
  | .constructObject allocated intrusive =>
      if allocated then
        let self := s.shared.length
        let s := s.newShared.newBlock.setShared self (some s.blocks.length)
        if intrusive then s.initWeak self else s
      else s.newShared
  | .copy src => s.newShared.acquire s.shared.length (s.sharedAt src)
  | .move src => s.newShared.moveShared s.shared.length src
  | .assign dst src => s.acquire dst (s.sharedAt src)
  | .moveAssign dst src => s.moveShared dst src
  | .constructWeak => s.newWeak
  | .weak src => s.newWeak.acquireWeak s.weak.length (s.sharedAt src)
  | .weakOfRvalue src =>
      (s.newWeak.setShared src none).exchangeControl s.weak.length (s.sharedAt src)
  | .copyWeak src => s.newWeak.acquireWeak s.weak.length (s.weakAt src)
  | .moveNewWeak src => s.newWeak.moveWeak s.weak.length src
  | .assignWeak dst src => s.acquireWeak dst (s.weakAt src)
  | .moveAssignWeak dst src => s.moveWeak dst src
  | .lock src => s.newShared.acquire s.shared.length (s.weakAt src)
  | .exchange self desired =>
      (s.newShared.setShared self (s.sharedAt desired)).replaceControl s.shared.length
        (s.sharedAt self)
  | .compareExchangeStrong self expected desired moved =>
      let argument := s.shared.length
      let s := if moved then s.newShared.moveShared argument desired
        else s.newShared.acquire argument (s.sharedAt desired)
      (s.compareExchange self expected argument false).replaceControl argument none
  | .compareExchangeWeak self expected desired spurious =>
      s.compareExchange self expected desired spurious
  | .store self desired => s.acquire self (s.sharedAt desired)
  | .reset self => s.replaceControl self none
  | .resetObject self allocated =>
      if allocated then s.newBlock.replaceControl self (some s.blocks.length) else s
  | .destroy self => s.replaceControl self none
  | .resetWeak self => s.exchangeControl self none
  | .destroyWeak self => s.exchangeControl self none

end RcuPtrs
end BezOS
