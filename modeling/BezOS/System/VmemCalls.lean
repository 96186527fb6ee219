import BezOS.Memory.PageWalk
import BezOS.System.AddressSpaceManager
import BezOS.System.Handles

/-!
# System calls on processes

`SysVmemCreate`, `SysVmemMap` and `SysProcessCreate`: the argument record is sanitized against the
handles of the calling process, and the operation runs on the process that the record names.
-/

namespace BezOS

open Lib PageFlags

abbrev OsMemoryAccess := BitVec 32

def eOsMemoryRead : OsMemoryAccess := 1 <<< 0
def eOsMemoryWrite : OsMemoryAccess := 1 <<< 1
def eOsMemoryExecute : OsMemoryAccess := 1 <<< 2
def eOsMemoryReserve : OsMemoryAccess := 1 <<< 3
def eOsMemoryCommit : OsMemoryAccess := 1 <<< 4
def eOsMemoryDiscard : OsMemoryAccess := 1 <<< 5
def eOsMemoryAddressHint : OsMemoryAccess := 1 <<< 6

abbrev ProcessId := Nat

structure OsVmemCreateInfo where
  BaseAddress : Nat
  Size : Nat
  Alignment : Nat
  Access : OsMemoryAccess
  Process : OsHandle
  deriving DecidableEq

structure OsVmemMapInfo where
  SrcAddress : Nat
  DstAddress : Nat
  Size : Nat
  Access : OsMemoryAccess
  Source : OsHandle
  Process : OsHandle
  deriving DecidableEq

structure OsProcessCreateInfo where
  Parent : OsHandle
  deriving DecidableEq

inductive VmemCreateMode
  | commit
  | reserve
  deriving DecidableEq

structure VmemCreateInfo where
  size : Nat
  alignment : Nat
  baseAddress : Nat
  flags : PageFlags
  zeroMemory : Bool
  mode : VmemCreateMode
  addressIsHint : Bool
  process : ProcessId
  deriving DecidableEq

structure VmemMapInfo where
  size : Nat
  baseAddress : Nat
  flags : PageFlags
  srcAddress : Nat
  srcObject : ObjectRef
  process : ProcessId
  deriving DecidableEq

/-! ## Sanitizing -/

/-- `takeFlag`: whether the flag is there, and the access without it. -/
def takeFlag (access test : OsMemoryAccess) : Bool × OsMemoryAccess :=
  if access &&& test = test then (true, access &&& ~~~test) else (false, access)

def applyFlag (access test : OsMemoryAccess) (flags flag : PageFlags) : PageFlags × OsMemoryAccess :=
  match takeFlag access test with
  | (true, access) => (flags ||| flag, access)
  | (false, access) => (flags, access)

/-- The three `applyFlag` calls that both sanitizers make. -/
def applyFlags (access : OsMemoryAccess) : PageFlags × OsMemoryAccess :=
  let (flags, access) := applyFlag access eOsMemoryRead eUser eRead
  let (flags, access) := applyFlag access eOsMemoryWrite flags eWrite
  applyFlag access eOsMemoryExecute flags eExecute

/-- The process a handle names: the caller itself, or the object of a process handle. -/
def resolveProcess (t : HandleTable) (self : ProcessId) (handle : OsHandle) :
    Except OsStatus ProcessId :=
  if handle = osHandleInvalid then .ok self
  else
    match t.sysFindHandle handle .process with
    | .error status => .error status
    | .ok h => .ok h.object.id

/-- `Sanitize<VmemCreateInfo>::sanitize`. -/
def sanitizeVmemCreate (t : HandleTable) (self : ProcessId) (info : OsVmemCreateInfo) :
    Except OsStatus VmemCreateInfo :=
  let (addressIsHint, access) := takeFlag info.Access eOsMemoryAddressHint
  if info.Size = 0 ∨ info.Size % x64.kPageSize ≠ 0 then .error .invalidInput
  else
    let align := if info.Alignment = 0 then x64.kPageSize else info.Alignment
    if align % x64.kPageSize ≠ 0 then .error .invalidInput
    else if info.BaseAddress ≠ 0 ∧ info.BaseAddress % align ≠ 0 then .error .invalidInput
    else
      let (flags, access) := applyFlags access
      let (reserve, access) := takeFlag access eOsMemoryReserve
      let (commit, access) := takeFlag access eOsMemoryCommit
      let (zeroMemory, access) := takeFlag access eOsMemoryDiscard
      if ¬ commit ∧ ¬ reserve then .error .invalidInput
      else if access ≠ 0 then .error .invalidInput
      else
        match resolveProcess t self info.Process with
        | .error status => .error status
        | .ok process =>
            .ok ⟨info.Size, align, info.BaseAddress, flags, zeroMemory,
              if commit then .commit else .reserve, addressIsHint, process⟩

/-- The source of a mapping: a process, or a device that is a file. -/
def resolveSource (t : HandleTable) (source : OsHandle) (isFile : Nat → Bool) :
    Except OsStatus ObjectRef :=
  if source = osHandleInvalid then .error .invalidHandle
  else if osHandleType source = OsHandleType.process.toNat then
    match t.sysFindHandle source .process with
    | .error status => .error status
    | .ok h => .ok ⟨.process, h.object.id⟩
  else if osHandleType source = OsHandleType.device.toNat then
    match t.sysFindHandle source .device with
    | .error status => .error status
    | .ok h => if isFile h.object.id then .ok ⟨.device, h.object.id⟩ else .error .invalidHandle
  else .error .invalidHandle

/-- `Sanitize<VmemMapInfo>::sanitize`; `isFile` says which devices have the file interface. -/
def sanitizeVmemMap (t : HandleTable) (self : ProcessId) (isFile : Nat → Bool)
    (info : OsVmemMapInfo) : Except OsStatus VmemMapInfo :=
  if info.Size = 0 then .error .invalidInput
  else if info.SrcAddress % x64.kPageSize ≠ 0 then .error .invalidInput
  else
    let (addressIsHint, access) := takeFlag info.Access eOsMemoryAddressHint
    if addressIsHint ∧ info.DstAddress = 0 then .error .invalidInput
    else if info.DstAddress % x64.kPageSize ≠ 0 ∧ info.DstAddress ≠ 0 then .error .invalidInput
    else
      let (flags, access) := applyFlags access
      if access ≠ 0 then .error .invalidInput
      else
        match resolveSource t info.Source isFile with
        | .error status => .error status
        | .ok srcObject =>
            match resolveProcess t self info.Process with
            | .error status => .error status
            | .ok process =>
                .ok ⟨info.Size, info.DstAddress, flags, info.SrcAddress, srcObject, process⟩

/-! ## The operations -/

/-- `sys::Process`, as far as these calls read and write it. -/
structure Process where
  handles : HandleTable
  mChildren : List ProcessId
  mAddressSpace : AddressSpaceManager

structure VmemAnswers where
  /-- `MemoryManager::allocate`. -/
  memory : Option AnyRange
  /-- `MemoryManager::release` succeeds, which is asserted. -/
  released : Bool
  space : SpaceAnswers
  /-- The mapping into the kernel. -/
  kernel : ServiceStatus
  /-- `file->read`. -/
  read : ServiceStatus
  /-- The whole request was read, which is asserted. -/
  complete : Bool

/-- An operation on a process returns its status, an address, and the process. -/
abbrev VmemResult := Except Fault (OsStatus × Option Nat × Process)

namespace Process

def withSpace (p : Process) (r : AddressSpaceManager.MapResult) : VmemResult :=
  r.map fun (status, address, space) => (status, address, { p with mAddressSpace := space })

/-- `KM_ASSERT(mm.release(memory) == OsStatusSuccess)` on a failed path. -/
def releaseAsserted (a : VmemAnswers) (result : OsStatus × Option Nat × Process) : VmemResult :=
  if a.released then .ok result else .error .bugCheck

def vmemCreate (p : Process) (info : VmemCreateInfo) (a : VmemAnswers) : VmemResult :=
  if info.addressIsHint ∧ info.baseAddress = 0 then .ok (.invalidInput, none, p)
  else
    match a.memory with
    | none => .ok (.outOfMemory, none, p)
    | some memory => do
        let (status, address, p) ← p.withSpace (p.mAddressSpace.allocateVirtual memory
          info.baseAddress info.size info.addressIsHint a.space)
        if status ≠ .success then releaseAsserted a (status, none, p)
        else if info.zeroMemory ∧ a.kernel.status ≠ .success then .error .bugCheck
        else pure (.success, address, p)

def mapFileToMemory (a : VmemAnswers) : Except Fault (Except OsStatus AnyRange) :=
  match a.memory with
  | none => .ok (.error .outOfMemory)
  | some memory =>
      if a.kernel.status ≠ .success then
        if a.released then .ok (.error a.kernel.status) else .error .bugCheck
      else if a.read.status ≠ .success then
        if a.released then .ok (.error a.read.status) else .error .bugCheck
      else if ¬ a.complete then .error .bugCheck
      else .ok (.ok memory)

def vmemMapFile (p : Process) (info : VmemMapInfo) (a : VmemAnswers) : VmemResult := do
  match ← mapFileToMemory a with
  | .error status => pure (status, none, p)
  | .ok memory =>
      let (status, address, p) ← p.withSpace (
        if info.baseAddress = 0 then p.mAddressSpace.mapMemory memory a.space
        else p.mAddressSpace.mapAt info.baseAddress memory a.space)
      if status ≠ .success then releaseAsserted a (status, none, p)
      else pure (.success, address, p)

/-- `vmemMapProcess` from another process. -/
def vmemMapProcess (p : Process) (info : VmemMapInfo) (source : Process) (a : VmemAnswers) :
    VmemResult :=
  p.withSpace (p.mAddressSpace.mapRemote source.mAddressSpace
    ⟨info.srcAddress, wrapAdd (2 ^ 64) info.srcAddress info.size⟩ a.space)

end Process

/-! ## The system calls -/

structure System where
  process : ProcessId → Process
  isFile : Nat → Bool

structure InvokeContext where
  process : ProcessId
  tx : OsHandle
  deriving DecidableEq

namespace System

def setProcess (s : System) (id : ProcessId) (p : Process) : System :=
  { s with process := Function.update s.process id p }

def commit (s : System) (id : ProcessId) (r : VmemResult) : Except Fault (OsStatus × System) :=
  r.map fun (status, _, p) => (status, s.setProcess id p)

def sysVmemCreate (s : System) (context : InvokeContext) (info : OsVmemCreateInfo)
    (a : VmemAnswers) : Except Fault (OsStatus × System) :=
  match sanitizeVmemCreate (s.process context.process).handles context.process info with
  | .error status => .ok (status, s)
  | .ok vmemInfo =>
      s.commit vmemInfo.process ((s.process vmemInfo.process).vmemCreate vmemInfo a)

def sysVmemMap (s : System) (context : InvokeContext) (info : OsVmemMapInfo) (a : VmemAnswers) :
    Except Fault (OsStatus × System) :=
  match sanitizeVmemMap (s.process context.process).handles context.process s.isFile info with
  | .error status => .ok (status, s)
  | .ok vmemInfo =>
      let target := s.process vmemInfo.process
      match vmemInfo.srcObject.type with
      | .process =>
          -- an address space that maps from itself takes its own lock twice
          if vmemInfo.srcObject.id = vmemInfo.process then .error .deadlock
          else s.commit vmemInfo.process
            (target.vmemMapProcess vmemInfo (s.process vmemInfo.srcObject.id) a)
      | .device => s.commit vmemInfo.process (target.vmemMapFile vmemInfo a)
      | _ => .error .bugCheck

/-- `SysProcessCreate`: `inner` is how `CreateProcessInner` ends, which on success makes the
process `child`. -/
def sysProcessCreate (s : System) (context : InvokeContext) (info : OsProcessCreateInfo)
    (child : ProcessId) (image : Process) (inner : Except Fault ServiceStatus) :
    Except Fault (OsStatus × System) :=
  let caller := s.process context.process
  match resolveProcess caller.handles context.process info.Parent with
  | .error status => .ok (status, s)
  | .ok parent =>
      match (if context.tx = osHandleInvalid then .ok () else
        (caller.handles.sysFindHandle context.tx .tx).map fun _ => ()) with
      | .error status => .ok (status, s)
      | .ok () => do
          let (id, handles) := caller.handles.newHandleId .process
          let s := s.setProcess context.process { caller with handles := handles }
          let inner ← inner
          if inner.status ≠ .success then pure (inner.status, s)
          else do
            let s := s.setProcess child image
            let s := s.setProcess parent
              { s.process parent with mChildren := child :: (s.process parent).mChildren }
            let handles ← (s.process context.process).handles.addHandle
              ⟨⟨.process, child⟩, id, accessAll .process⟩
            pure (.success, s.setProcess context.process
              { s.process context.process with handles := handles })

end System
end BezOS
