import BezOS.Drivers.BlockReads
import BezOS.Fs.TarParse
import BezOS.Lib.Orbit

/-!
# Parsing any medium

`vfs::ParseTar` over devices of any size and content, whose offsets are 64-bit words. The walk over
the headers is a loop: where a header stands says where the next one does.
-/

namespace BezOS
namespace Vfs
namespace TarScan

open Block Lib TarPosixHeader

/-! ## The loop -/

inductive Outcome
  | stop (status : OsStatus)
  | skip (next : Nat)
  | entry (path : VfsString) (entry : TarEntry) (next : Nat)

/-- The rest of a round, behind the checks of the name and the magic. -/
def afterMagic (mediaSize : Nat) (options : TarParseOptions) (offset : Nat)
    (header : TarPosixHeader) : Except Fault Outcome := do
  let passes ← checksumPasses options header
  if ¬ passes then pure (.stop .invalidInput)
  else do
    let size ← header.getSize
    let dataOffset := wrapAdd (2 ^ 64) offset kTarBlockSize
    if wrapAdd (2 ^ 64) size dataOffset > mediaSize then pure (.stop .invalidInput)
    else
      let next := wrapAdd (2 ^ 64) dataOffset (roundup size kTarBlockSize)
      if header.getType ≠ .file ∧ header.getType ≠ .folder then pure (.skip next)
      else if header.name.take 3 = [0x2e, 0x2f, 0] then pure (.skip next)
      else match convertTarPath header.name with
        | .error status => pure (.stop status)
        | .ok path => pure (.entry path ⟨header, dataOffset⟩ next)

/-- A round of the loop. What the header held before does not matter: a read that does not fill it
ends the loop. -/
def member (d : BlockDevice) (options : TarParseOptions) (offset : Nat) : Except Fault Outcome := do
  let (read, bytes) ← d.read offset (List.replicate kSize 0)
  let header := ofBytes bytes
  if read ≠ kSize then pure (.stop .invalidInput)
  else if header.name.head? = some 0 then pure (.stop .success)
  else if header.magic ≠ kMagic then pure (.stop .success)
  else afterMagic d.mDevice.size options offset header

def parseFrom (d : BlockDevice) (options : TarParseOptions) :
    Nat → Nat → TarMap → Except Fault (OsStatus × TarMap)
  | 0, _, _ => .error .outOfFuel
  | fuel + 1, offset, result =>
      if offset < d.mDevice.size then do
        match ← member d options offset with
        | .stop status => pure (status, result)
        | .skip next => parseFrom d options fuel next result
        | .entry path entry next =>
            parseFrom d options fuel next (insertEntry path entry result)
      else .ok (.success, result)

/-- `TarFsFile::read`: the bytes that are asked of the device, where they start and how many. -/
def fileSpan (entry : TarEntry) (offset length : Nat) : Except Fault (Option (Nat × Nat)) := do
  let size ← entry.header.getSize
  if offset ≥ size then pure none
  else pure (some (wrapAdd (2 ^ 64) entry.offset offset, min (size - offset) length))

/-! ## Safety -/

/-- The data of an entry lies inside the device. -/
def Inside (mediaSize : Nat) (entry : TarEntry) : Prop :=
  ∃ size, entry.header.getSize = .ok size ∧ entry.offset + size ≤ mediaSize

/-- The parser ends, reads numbers from their own bytes only, and reports entries whose data, and
all that is read of it later, lies inside the device. -/
def Safe (d : BlockDevice) (options : TarParseOptions) : Prop :=
  ∃ fuel status entries, parseFrom d options fuel 0 [] = .ok (status, entries) ∧
    ∀ item ∈ entries, Inside d.mDevice.size item.2 ∧
      ∀ offset length start count, fileSpan item.2 offset length = .ok (some (start, count)) →
        start + count ≤ d.mDevice.size

abbrev State := Nat × TarMap

/-- A round that does not end the loop. -/
def advance (d : BlockDevice) (options : TarParseOptions) (s : State) : Option State :=
  if s.1 < d.mDevice.size then
    match member d options s.1 with
    | .ok (.skip next) => some (next, s.2)
    | .ok (.entry path entry next) => some (next, insertEntry path entry s.2)
    | _ => none
  else none

def stateAfter (d : BlockDevice) (options : TarParseOptions) (rounds : Nat) : Option State :=
  orbit (advance d options) rounds (0, [])

def headerAt (d : BlockDevice) (offset : Nat) : Option TarPosixHeader :=
  match d.read offset (List.replicate kSize 0) with
  | .ok (read, bytes) =>
      let header := ofBytes bytes
      if read = kSize ∧ header.name.head? ≠ some 0 ∧
          header.magic = kMagic then some header
      else none
  | .error _ => none

/-- Every checksum that is looked at ends inside its field. -/
def ChecksumsEnd (d : BlockDevice) (options : TarParseOptions) : Prop :=
  ∀ rounds s header, stateAfter d options rounds = some s → s.1 < d.mDevice.size →
    headerAt d s.1 = some header →
    options.ignoreChecksum = true ∨ ∃ c ∈ header.checksum, ¬ isOctal c

/-- The data of no entry that is added wraps. -/
def RangesFit (d : BlockDevice) (options : TarParseOptions) : Prop :=
  ∀ rounds s path entry next size, stateAfter d options rounds = some s →
    s.1 < d.mDevice.size → member d options s.1 = .ok (.entry path entry next) →
    path ∉ s.2.map Prod.fst → entry.header.getSize = .ok size → entry.offset + size < 2 ^ 64

/-- The loop comes to no offset twice. -/
def NeverReturns (d : BlockDevice) (options : TarParseOptions) : Prop :=
  ∀ i j s t, i < j → stateAfter d options i = some s → stateAfter d options j = some t →
    s.1 ≠ t.1

/-- Beyond this size, the offsets may wrap. -/
def kLargestPlain : Nat := 2 ^ 64 - 2 ^ 37

structure Clean (d : BlockDevice) (options : TarParseOptions) : Prop where
  checksums : ChecksumsEnd d options
  large : d.mDevice.size ≤ kLargestPlain ∨ (RangesFit d options ∧ NeverReturns d options)

end TarScan
end Vfs
end BezOS
