import BezOS.Memory.PageWalk
import BezOS.Status

/-!
# User memory

The checks that the kernel makes before it copies from or to user memory, in both of their forms:
`user/context.cpp`, where a range is verified against rules, and `user/user.cpp`, where it is only
tested page by page. A call returns its status and the span of user memory that its `memcpy`
touches.
-/

namespace BezOS

open PageFlags

structure VerifyRules where
  alignment : BitVec 64
  minSize : BitVec 64
  maxSize : BitVec 64
  multiple : BitVec 64
  deriving DecidableEq

/-- The user operand of a `memcpy`. -/
structure UserSpan where
  front : BitVec 64
  size : BitVec 64
  deriving DecidableEq

namespace PageTables

/-- `__builtin_add_overflow`. -/
def addOverflow (a b : BitVec 64) : Option (BitVec 64) :=
  if a.toNat + b.toNat < 2 ^ 64 then some (a + b) else none

def isPageMapped (pt : PageTables) (flags : PageFlags) (address : BitVec 64) : Bool :=
  pt.getMemoryFlags address &&& flags = flags

/-- `for (addr = begin; addr < end; addr += kPageSize)`, until a page lacks the flags. -/
def pagesLoop (mapped : BitVec 64 → Bool) (back : BitVec 64) : Nat → BitVec 64 → Option Bool
  | 0, _ => none
  | fuel + 1, addr =>
      if addr < back then
        if mapped addr then pagesLoop mapped back fuel (addr + BitVec.ofNat 64 x64.kPageSize)
        else some false
      else some true

/-- The loop over the pages of a range. The addresses come back after `2 ^ 52` steps, so a loop
that has not ended by then never does. -/
def pagesMapped (pt : PageTables) (front back : BitVec 64) (flags : PageFlags) :
    Except Fault Bool :=
  match pagesLoop (pt.isPageMapped flags) back (2 ^ 52 + 1) front with
  | none => .error .diverges
  | some mapped => .ok mapped

/-! ## Verified ranges -/

def verifyUserPointer (pm : PageBuilder) (rules : VerifyRules) (address size : BitVec 64) :
    Except Fault OsStatus :=
  if address &&& (rules.alignment - 1) ≠ 0 then .ok .invalidAddress
  else if size < rules.minSize ∨ size > rules.maxSize then .ok .invalidSpan
  -- the remainder of a division by zero
  else if rules.multiple = 0 then .error .badAccess
  else if size % rules.multiple ≠ 0 then .ok .invalidSpan
  else
    match addOverflow address size with
    | none => .ok .invalidSpan
    | some back =>
        if ¬ pm.isCanonicalAddress address ∨ ¬ pm.isCanonicalAddress back then .ok .invalidAddress
        else if pm.isHigherHalf address ∨ pm.isHigherHalf back then .ok .invalidAddress
        else .ok .success

def verifyUserRange (pm : PageBuilder) (rules : VerifyRules) (front back : BitVec 64) :
    Except Fault OsStatus :=
  if front > back then .ok .invalidSpan else verifyUserPointer pm rules front (back - front)

def verifyRangeMapped (pt : PageTables) (front back : BitVec 64) (flags : PageFlags) :
    Except Fault OsStatus := do
  let mapped ← pt.pagesMapped front back flags
  pure (if mapped then .success else .invalidData)

def verifyRangeValid (pt : PageTables) (rules : VerifyRules) (front back : BitVec 64)
    (flags : PageFlags) : Except Fault OsStatus := do
  let status ← verifyUserRange pt.mPageManager rules front back
  if status ≠ .success then pure status else pt.verifyRangeMapped front back flags

abbrev CopyResult := Except Fault (OsStatus × Option UserSpan)

/-- `ReadUserRange`, `WriteUserRange` and `ReadUserArray`, which differ in the flags. -/
def copyRange (pt : PageTables) (rules : VerifyRules) (flags : PageFlags)
    (front back : BitVec 64) : CopyResult := do
  let status ← pt.verifyRangeValid rules front back flags
  if status ≠ .success then pure (status, none)
  else pure (.success, some ⟨front, back - front⟩)

def readUserRange (pt : PageTables) (rules : VerifyRules) (front back : BitVec 64) : CopyResult :=
  pt.copyRange rules (eUser ||| eRead) front back

def writeUserRange (pt : PageTables) (rules : VerifyRules) (front back : BitVec 64) : CopyResult :=
  pt.copyRange rules (eUser ||| eWrite) front back

def readUserArray (pt : PageTables) (rules : VerifyRules) (front back : BitVec 64) : CopyResult :=
  pt.copyRange rules (eUser ||| eRead) front back

def readUserObject (pt : PageTables) (rules : VerifyRules) (address size : BitVec 64) :
    CopyResult :=
  match addOverflow address size with
  | none => .ok (.invalidSpan, none)
  | some back => pt.readUserRange rules address back

def writeUserObject (pt : PageTables) (rules : VerifyRules) (address size : BitVec 64) :
    CopyResult :=
  match addOverflow address size with
  | none => .ok (.invalidSpan, none)
  | some back => pt.writeUserRange rules address back

/-! ## Ranges tested page by page -/

def isRangeMapped (pt : PageTables) (front back : BitVec 64) (flags : PageFlags) :
    Except Fault Bool :=
  if ¬ pt.mPageManager.isCanonicalAddress front ∨ ¬ pt.mPageManager.isCanonicalAddress back then
    .ok false
  else pt.pagesMapped front back flags

/-- What the three calls below do once they know the end of the range. -/
def copyMapped (pt : PageTables) (flags : PageFlags) (front back size : BitVec 64) : CopyResult := do
  let mapped ← pt.isRangeMapped front back flags
  if ¬ mapped then pure (.invalidAddress, none) else pure (.success, some ⟨front, size⟩)

def copyUserMemory (pt : PageTables) (address size : BitVec 64) : CopyResult :=
  match addOverflow address size with
  | none => .ok (.invalidSpan, none)
  | some tail => pt.copyMapped (eUser ||| eRead) address tail size

def readUserMemory (pt : PageTables) (front back size : BitVec 64) : CopyResult :=
  if front ≥ back then .ok (.invalidSpan, none)
  else if size > back - front then .ok (.invalidSpan, none)
  else pt.copyMapped (eUser ||| eRead) front back size

def writeUserMemory (pt : PageTables) (dst size : BitVec 64) : CopyResult :=
  match addOverflow dst size with
  | none => .ok (.invalidSpan, none)
  | some back => pt.copyMapped (eUser ||| eWrite) dst back size

end PageTables

inductive UserCopy
  | readUserRange (rules : VerifyRules) (front back : BitVec 64)
  | writeUserRange (rules : VerifyRules) (front back : BitVec 64)
  | readUserArray (rules : VerifyRules) (front back : BitVec 64)
  | readUserObject (rules : VerifyRules) (address size : BitVec 64)
  | writeUserObject (rules : VerifyRules) (address size : BitVec 64)
  | copyUserMemory (address size : BitVec 64)
  | readUserMemory (front back size : BitVec 64)
  | writeUserMemory (dst size : BitVec 64)

namespace PageTables

def copy (pt : PageTables) : UserCopy → CopyResult
  | .readUserRange rules front back => pt.readUserRange rules front back
  | .writeUserRange rules front back => pt.writeUserRange rules front back
  | .readUserArray rules front back => pt.readUserArray rules front back
  | .readUserObject rules address size => pt.readUserObject rules address size
  | .writeUserObject rules address size => pt.writeUserObject rules address size
  | .copyUserMemory address size => pt.copyUserMemory address size
  | .readUserMemory front back size => pt.readUserMemory front back size
  | .writeUserMemory dst size => pt.writeUserMemory dst size

end PageTables
end BezOS
