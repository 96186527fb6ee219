import BezOS.Lib.Word
import BezOS.Status

/-!
# Loading ELF programs

The checks of ELF headers, the ranges that load segments take, and what is written for them:
`rtld/rtld.cpp` of the user loader and `elf/elf.cpp` of the kernel. Fields are words of any value.
-/

namespace BezOS
namespace Elf

open Lib

def kWord : Nat := 2 ^ 64

def kPageSize : Nat := 0x1000

inductive LoadStatus
  | success
  | invalidData
  | invalidVersion
  deriving DecidableEq

structure Header where
  ident : List UInt8
  type : UInt16
  entry : UInt64
  phoff : UInt64
  phentsize : UInt16
  phnum : UInt16

namespace Header

def kMagic : List UInt8 := [0x7f, 0x45, 0x4c, 0x46]

def isValid (header : Header) : Bool := header.ident.take 4 = kMagic

/-- `endian() == std::endian::little`, `elfClass()` and `objVersion()` are those of the loaders. -/
def isSupported (header : Header) : Bool :=
  header.ident.getD 5 0 = 1 ∧ header.ident.getD 4 0 = 2 ∧ header.ident.getD 6 0 = 1

end Header

inductive ProgramHeaderType
  | eLoad | eDynamic | eTls
  | other (value : Nat)
  deriving DecidableEq

structure ProgramHeader where
  type : ProgramHeaderType
  offset : UInt64
  vaddr : UInt64
  filesz : UInt64
  memsz : UInt64
  align : UInt64
  deriving DecidableEq

/-- `sizeof(ProgramHeader)` -/
def ProgramHeader.kSize : Nat := 56

def loads (phs : List ProgramHeader) : List ProgramHeader :=
  phs.filter fun ph => ph.type = .eLoad

/-! ## Headers -/

/-- `ValidateElfHeader`, of the user loader and of the kernel. -/
def validateElfHeader (header : Header) (size : UInt64) : LoadStatus :=
  if ¬ header.isValid then .invalidData
  else if ¬ header.isSupported then .invalidVersion
  else if header.type ≠ 2 ∧ header.type ≠ 3 then .invalidData
  else if header.phentsize.toNat ≠ ProgramHeader.kSize then .invalidData
  else
    let phend := wrapAdd kWord header.phoff.toNat (header.phnum.toNat * header.phentsize.toNat)
    if phend > size.toNat then .invalidData
    else if header.entry = 0 then .invalidData
    else .success

/-! ## Ranges -/

/-- The body of the loop of `RtldGetMemoryRange`. -/
def extend (range : Nat × Nat) (ph : ProgramHeader) : Nat × Nat :=
  let minAddr := if ph.vaddr.toNat < range.1 then ph.vaddr.toNat else range.1
  let back := wrapAdd kWord ph.vaddr.toNat ph.memsz.toNat
  (minAddr, if back > range.2 then back else range.2)

def rtldGetMemoryRange (phs : List ProgramHeader) : Except LoadStatus (Nat × Nat) :=
  let (minAddr, maxAddr) := (loads phs).foldl extend (kWord - 1, 0)
  if minAddr = kWord - 1 ∨ maxAddr = 0 ∨ maxAddr ≤ minAddr then .error .invalidData
  else .ok (roundDown minAddr kPageSize, wrapRoundUp kWord maxAddr kPageSize)

/-- `sm::roundup`, which divides by the multiple. -/
def roundup (value multiple : Nat) : Except Fault Nat :=
  if multiple = 0 then .error .badAccess else .ok (wrapRoundUp kWord value multiple)

/-- Where the loop of `LoadMemorySize` places a segment behind those before. -/
def place (back : Nat) (ph : ProgramHeader) : Except Fault Nat := do
  let vaddr ← roundup ph.vaddr.toNat ph.align.toNat
  if vaddr < back then roundup back ph.align.toNat else pure vaddr

/-- The body of the loop of `LoadMemorySize`. -/
def layOut (range : Nat × Nat) (ph : ProgramHeader) : Except Fault (Nat × Nat) := do
  let vaddr ← place range.2 ph
  pure (min range.1 vaddr, max range.2 (wrapAdd kWord vaddr ph.memsz.toNat))

def loadMemorySize (phs : List ProgramHeader) : Except Fault (Except LoadStatus (Nat × Nat)) := do
  let (front, back) ← (loads phs).foldlM layOut (kWord - 1, 0)
  if ¬ front ≤ back ∨ front = back then pure (.error .invalidData)
  else pure (.ok (roundDown front kPageSize, wrapRoundUp kWord back kPageSize))

/-! ## What is written -/

structure Write where
  start : Nat
  count : Nat
  deriving DecidableEq

def Write.Inside (write : Write) (size : Nat) : Prop :=
  write.count = 0 ∨ write.start + write.count ≤ size

/-- `OsDeviceRead` of an offset and a size: how many bytes are read, or none for an error. At most
the size is written to the buffer. -/
abbrev Device := UInt64 → UInt64 → Option Nat

/-- The loop of `RtldMapProgram` over the load segments: what is written, by distance from the
first byte of the memory. -/
def loadSegments (device : Device) (memoryBegin : Nat) : List ProgramHeader → List Write
  | [] => []
  | ph :: rest =>
      match device ph.offset ph.filesz with
      | none => []
      | some size =>
          let write : Write :=
            { start := wrapSub kWord ph.vaddr.toNat memoryBegin
              count := min size ph.filesz.toNat }
          if size ≠ ph.filesz.toNat then [write]
          else write :: loadSegments device memoryBegin rest

/-- What `RtldMapProgram` writes: the size of the memory it allocates, and the writes to it. -/
def rtldMapProgram (device : Device) (phs : List ProgramHeader) :
    Except LoadStatus (Nat × List Write) := do
  let (memoryBegin, memoryEnd) ← rtldGetMemoryRange phs
  pure (wrapSub kWord memoryEnd memoryBegin, loadSegments device memoryBegin (loads phs))

def findTlsSection (phs : List ProgramHeader) : Option ProgramHeader :=
  phs.find? fun ph => ph.type = .eTls

structure RtldTlsInitInfo where
  InitAddress : Nat
  TlsDataSize : Nat
  TlsBssSize : Nat
  TlsAlign : Nat
  deriving DecidableEq

def rtldTlsInit (ph : ProgramHeader) : RtldTlsInitInfo where
  InitAddress := ph.vaddr.toNat
  TlsDataSize := ph.filesz.toNat
  TlsBssSize := wrapSub kWord ph.memsz.toNat ph.filesz.toNat
  TlsAlign := ph.align.toNat

/-- What `RtldCreateTls` writes if its calls of the kernel succeed: the size of the memory it
allocates, the initial data, and the pointer behind them. -/
def rtldCreateTls (info : RtldTlsInitInfo) : Except Fault (Nat × List Write) := do
  let tlsSize ← roundup (wrapAdd kWord info.TlsDataSize info.TlsBssSize) info.TlsAlign
  let totalSize := wrapRoundUp kWord (wrapAdd kWord tlsSize 8) kPageSize
  let data : List Write := if info.InitAddress ≠ 0 then [⟨0, info.TlsDataSize⟩] else []
  pure (totalSize, data ++ [⟨tlsSize, 8⟩])

end Elf
end BezOS
