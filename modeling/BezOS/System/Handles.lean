import Mathlib.Logic.Function.Basic
import BezOS.Lib.Transition
import BezOS.Status

/-!
# Handles

The handle table of `sys::Process` and the calls that install, look up, clone and close handles. A
handle packs the type of its object into the top byte and a counter into the others. What a call
asks of the rest of the kernel (a lookup in the file system, memory for an object) is answered by
its arguments.
-/

namespace BezOS

open Lib

abbrev OsHandle := BitVec 64

abbrev OsHandleAccess := BitVec 64

inductive OsHandleType
  | unknown
  | node
  | device
  | mutex
  | thread
  | process
  | tx
  | event
  deriving DecidableEq

namespace OsHandleType

def toNat : OsHandleType → Nat
  | unknown => 0
  | node => 1
  | device => 2
  | mutex => 3
  | thread => 4
  | process => 5
  | tx => 6
  | event => 7

/-- The enumerator with a value below `eOsHandleCount`. -/
def ofNat? : Nat → Option OsHandleType
  | 0 => some unknown
  | 1 => some node
  | 2 => some device
  | 3 => some mutex
  | 4 => some thread
  | 5 => some process
  | 6 => some tx
  | 7 => some event
  | _ => none

lemma ofNat?_toNat (type : OsHandleType) : ofNat? type.toNat = some type := by
  cases type <;> rfl

lemma toNat_lt (type : OsHandleType) : type.toNat < 8 := by
  cases type <;> decide

lemma toNat_injective {a b : OsHandleType} (h : a.toNat = b.toNat) : a = b := by
  have heq := ofNat?_toNat a
  rw [h, ofNat?_toNat] at heq
  exact (Option.some_inj.1 heq).symm

end OsHandleType

def osHandleInvalid : OsHandle := 0

def osHandleType (handle : OsHandle) : Nat := (handle >>> 56).toNat

def osHandleNew (type : OsHandleType) (id : OsHandle) : OsHandle :=
  (BitVec.ofNat 64 type.toNat <<< 56) ||| id

/-! ## Access bits -/

def eOsAccessRead : OsHandleAccess := 1 <<< 0
def eOsAccessWrite : OsHandleAccess := 1 <<< 1
def eOsAccessStat : OsHandleAccess := 1 <<< 2
def eOsAccessDestroy : OsHandleAccess := 1 <<< 4
def eOsAccessWait : OsHandleAccess := 1 <<< 4

def eOsAccessAll : OsHandleAccess :=
  eOsAccessRead ||| eOsAccessWrite ||| eOsAccessStat ||| eOsAccessDestroy ||| eOsAccessWait

def osImplAccessBit (bit : Nat) : OsHandleAccess := 1 <<< (bit + 4 + 1)

def eOsNodeAccessQueryInterface : OsHandleAccess := osImplAccessBit 1

def eOsProcessAccessVmControl : OsHandleAccess := osImplAccessBit 1
def eOsProcessAccessIoControl : OsHandleAccess := osImplAccessBit 3
def eOsProcessAccessProcessControl : OsHandleAccess := osImplAccessBit 4

/-- `eAll` of the access type of each kind of object. -/
def accessAll : OsHandleType → OsHandleAccess
  | .node | .thread | .tx => eOsAccessAll ||| osImplAccessBit 0 ||| osImplAccessBit 1
  | .device => eOsAccessAll ||| osImplAccessBit 0
  | .process => eOsAccessAll ||| osImplAccessBit 0 ||| osImplAccessBit 1 |||
      osImplAccessBit 2 ||| osImplAccessBit 3 ||| osImplAccessBit 4 |||
      osImplAccessBit 5 ||| osImplAccessBit 6
  | .unknown | .mutex | .event => 0

/-! ## Objects and handles -/

/-- An object, named by its kind and an identity. -/
structure ObjectRef where
  type : OsHandleType
  id : Nat
  deriving DecidableEq

/-- `sys::BaseHandle`. -/
structure IHandle where
  object : ObjectRef
  handle : OsHandle
  access : OsHandleAccess
  deriving DecidableEq

namespace IHandle

def hasAccess (h : IHandle) (access : OsHandleAccess) : Prop := h.access &&& access = access
  deriving Decidable

/-- `clone`, which only node handles have; `memory` answers `new`. -/
def clone (h : IHandle) (access : OsHandleAccess) (id : OsHandle) (memory : Bool) :
    Except OsStatus IHandle :=
  match h.object.type with
  | .node =>
      if ¬ h.hasAccess access then .error .accessDenied
      else if memory then .ok ⟨h.object, id, access⟩
      else .error .outOfMemory
  | _ => .error .notSupported

end IHandle

structure HandleTable where
  mIdAllocators : OsHandleType → BitVec 64
  mHandles : List IHandle

namespace HandleTable

/-- Every allocator starts at `OS_HANDLE_INVALID + 1`. -/
def empty : HandleTable := ⟨fun _ => osHandleInvalid + 1, []⟩

def newHandleId (t : HandleTable) (type : OsHandleType) : OsHandle × HandleTable :=
  let id := t.mIdAllocators type
  (osHandleNew type id,
    { t with mIdAllocators := Function.update t.mIdAllocators type (id + 1) })

def getHandle (t : HandleTable) (handle : OsHandle) : Option IHandle :=
  t.mHandles.find? (·.handle == handle)

/-- `addHandle`, and the caller's `getHandle()` of what it added: `insert` destroys a handle whose
key is taken. -/
def addHandle (t : HandleTable) (h : IHandle) : Except Fault HandleTable :=
  match t.getHandle h.handle with
  | some _ => .error .badAccess
  | none => .ok { t with mHandles := h :: t.mHandles }

def removeHandle (t : HandleTable) (handle : OsHandle) : OsStatus × HandleTable :=
  match t.getHandle handle with
  | some _ => (.success, { t with mHandles := t.mHandles.filter (·.handle ≠ handle) })
  | none => (.invalidHandle, t)

def findHandle (t : HandleTable) (handle : OsHandle) (type : OsHandleType) :
    Except OsStatus IHandle :=
  if osHandleType handle ≠ type.toNat then .error .invalidHandle
  else
    match t.getHandle handle with
    | some h => .ok h
    | none => .error .invalidHandle

def sysFindHandle (t : HandleTable) (handle : OsHandle) (type : OsHandleType) :
    Except OsStatus IHandle :=
  if handle = osHandleInvalid then .error .invalidHandle else t.findHandle handle type

/-! ## Calls -/

abbrev Result := Except Fault (OsStatus × Option IHandle × HandleTable)

/-- What every call that makes a handle does: what comes before the identifier is taken
(`prepare`), the identifier, what comes after it (`finish`), and the new handle. -/
def install (t : HandleTable) (object : ObjectRef) (access : OsHandleAccess)
    (prepare finish : OsStatus) : Result :=
  if prepare ≠ .success then .ok (prepare, none, t)
  else
    let (id, t) := t.newHandleId object.type
    if finish ≠ .success then .ok (finish, none, t)
    else do
      let h : IHandle := ⟨object, id, access⟩
      let t ← t.addHandle h
      pure (.success, some h, t)

/-- The status of `new (std::nothrow)`. -/
def newStatus (memory : Bool) : OsStatus := if memory then .success else .outOfMemory

/-- `IObject::open`, which only processes have. -/
def openObject (t : HandleTable) (object : ObjectRef) (access : OsHandleAccess) (memory : Bool) :
    Result :=
  match object.type with
  | .process => t.install ⟨.process, object.id⟩ access .success (newStatus memory)
  | _ => .ok (.notSupported, none, t)

/-- `SysProcessCreate` and `Process::createProcess`. -/
def processCreate (t : HandleTable) (id : Nat) (prepare finish : OsStatus) : Result :=
  t.install ⟨.process, id⟩ (accessAll .process) prepare finish

/-- `SysThreadCreate`. -/
def threadCreate (t : HandleTable) (id : Nat) (prepare finish : OsStatus) : Result :=
  t.install ⟨.thread, id⟩ (accessAll .thread) prepare finish

/-- `SysNodeOpen` and `SysNodeCreate`. -/
def nodeCreate (t : HandleTable) (id : Nat) (prepare : OsStatus) (memory : Bool) : Result :=
  t.install ⟨.node, id⟩ (accessAll .node) prepare (newStatus memory)

/-- `DeviceOpenExisting` and `DeviceCreateNew`. -/
def deviceOpen (t : HandleTable) (id : Nat) (prepare : OsStatus) (memory : Bool) : Result :=
  t.install ⟨.device, id⟩ (accessAll .device) prepare (newStatus memory)

/-- `SysTxCreate`. -/
def txCreate (t : HandleTable) (id : Nat) (prepare : OsStatus) (memory : Bool) : Result :=
  t.install ⟨.tx, id⟩ (accessAll .tx) prepare (newStatus memory)

/-- `SysNodeQuery`: a node handle that may be queried gives a device. -/
def nodeQuery (t : HandleTable) (node : OsHandle) (id : Nat) (prepare : OsStatus) (memory : Bool) :
    Result :=
  match t.sysFindHandle node .node with
  | .error status => .ok (status, none, t)
  | .ok h =>
      if ¬ h.hasAccess eOsNodeAccessQueryInterface then .ok (.accessDenied, none, t)
      else t.install ⟨.device, id⟩ (accessAll .device) prepare (newStatus memory)

/-- `SysHandleClone`: the new identifier is of the type that the source handle encodes. -/
def handleClone (t : HandleTable) (source : OsHandle) (access : OsHandleAccess) (memory : Bool) :
    Result :=
  match t.getHandle source with
  | none => .ok (.invalidHandle, none, t)
  | some h =>
      match OsHandleType.ofNat? (osHandleType h.handle) with
      | none => .error .badAccess
      | some type =>
          let (id, t) := t.newHandleId type
          match h.clone access id memory with
          | .error status => .ok (status, none, t)
          | .ok result => do
              let t ← t.addHandle result
              pure (.success, some result, t)

/-- `SysHandleClose`. -/
def handleClose (t : HandleTable) (handle : OsHandle) : OsStatus × HandleTable :=
  t.removeHandle handle

/-- `SysNodeClose` and `SysDeviceClose`, for handles of the given type. -/
def closeTyped (t : HandleTable) (type : OsHandleType) (handle : OsHandle) :
    OsStatus × HandleTable :=
  match t.sysFindHandle handle type with
  | .error status => (status, t)
  | .ok h =>
      if ¬ h.hasAccess eOsAccessDestroy then (.accessDenied, t) else t.removeHandle h.handle

def nodeClose (t : HandleTable) (handle : OsHandle) : OsStatus × HandleTable :=
  t.closeTyped .node handle

def deviceClose (t : HandleTable) (handle : OsHandle) : OsStatus × HandleTable :=
  t.closeTyped .device handle

end HandleTable

inductive HandleCall
  | openObject (object : ObjectRef) (access : OsHandleAccess) (memory : Bool)
  | processCreate (id : Nat) (prepare finish : OsStatus)
  | threadCreate (id : Nat) (prepare finish : OsStatus)
  | nodeCreate (id : Nat) (prepare : OsStatus) (memory : Bool)
  | nodeQuery (node : OsHandle) (id : Nat) (prepare : OsStatus) (memory : Bool)
  | deviceOpen (id : Nat) (prepare : OsStatus) (memory : Bool)
  | txCreate (id : Nat) (prepare : OsStatus) (memory : Bool)
  | handleClone (source : OsHandle) (access : OsHandleAccess) (memory : Bool)
  | findHandle (handle : OsHandle) (type : OsHandleType)
  | handleClose (handle : OsHandle)
  | nodeClose (handle : OsHandle)
  | deviceClose (handle : OsHandle)

end BezOS
