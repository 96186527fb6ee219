import BezOS.Drivers.BlockReads
import BezOS.Lib.Bytes

/-!
# Partition tables

`km::ParsePartitionTable` of `drivers/fs/driver.cpp` over devices of any block size, content and
answers. What is read lies over the bytes of the device, its numbers being little-endian.
-/

namespace BezOS
namespace Gpt

open Block Lib

/-! ## What stands on a device -/

def field (bytes : List UInt8) (start width : Nat) : Nat :=
  leValue ((bytes.drop start).take width)

structure MbrPartition where
  status : UInt8
  chsBegin : List UInt8
  type : UInt8
  chsEnd : List UInt8
  lbaBegin : Nat
  sectors : Nat
  deriving DecidableEq

def MbrPartition.ofBytes (bytes : List UInt8) : MbrPartition where
  status := bytes.headD 0
  chsBegin := (bytes.drop 1).take 3
  type := (bytes.drop 4).headD 0
  chsEnd := (bytes.drop 5).take 3
  lbaBegin := field bytes 8 4
  sectors := field bytes 12 4

def MbrPartition.isGpt (partition : MbrPartition) : Bool :=
  partition.type = 0xee

structure MasterBootRecord where
  boot : List UInt8
  partitions : List MbrPartition
  signature : List UInt8
  deriving DecidableEq

namespace MasterBootRecord

def kSize : Nat := 512

def kSignature : List UInt8 := [0x55, 0xaa]

def ofBytes (bytes : List UInt8) : MasterBootRecord where
  boot := bytes.take 446
  partitions := (List.range 4).map fun i => .ofBytes ((bytes.drop (446 + 16 * i)).take 16)
  signature := (bytes.drop 510).take 2

def isGpt (mbr : MasterBootRecord) : Bool :=
  mbr.partitions.any MbrPartition.isGpt

end MasterBootRecord

structure GptHeader where
  signature : List UInt8
  revision : Nat
  size : Nat
  checksum : Nat
  reserved : List UInt8
  lbaCurrent : Nat
  lbaBackup : Nat
  lbaPartitionBegin : Nat
  lbaParitionEnd : Nat
  guid : List UInt8
  lbaPartitionArray : Nat
  partitionCount : Nat
  partitionEntrySize : Nat
  partitionArrayChecksum : Nat
  deriving DecidableEq

namespace GptHeader

def kSize : Nat := 92

/-- `"EFI PART"` -/
def kSignature : List UInt8 := [0x45, 0x46, 0x49, 0x20, 0x50, 0x41, 0x52, 0x54]

def ofBytes (bytes : List UInt8) : GptHeader where
  signature := bytes.take 8
  revision := field bytes 8 4
  size := field bytes 12 4
  checksum := field bytes 16 4
  reserved := (bytes.drop 20).take 4
  lbaCurrent := field bytes 24 8
  lbaBackup := field bytes 32 8
  lbaPartitionBegin := field bytes 40 8
  lbaParitionEnd := field bytes 48 8
  guid := (bytes.drop 56).take 16
  lbaPartitionArray := field bytes 72 8
  partitionCount := field bytes 80 4
  partitionEntrySize := field bytes 84 4
  partitionArrayChecksum := field bytes 88 4

end GptHeader

structure GptEntry where
  type : List UInt8
  guid : List UInt8
  lbaBegin : Nat
  lbaEnd : Nat
  flags : Nat
  name : List UInt8
  deriving DecidableEq

namespace GptEntry

def kSize : Nat := 128

def kNullEntry : List UInt8 := List.replicate 16 0

def ofBytes (bytes : List UInt8) : GptEntry where
  type := bytes.take 16
  guid := (bytes.drop 16).take 16
  lbaBegin := field bytes 32 8
  lbaEnd := field bytes 40 8
  flags := field bytes 48 8
  name := (bytes.drop 56).take 72

end GptEntry

/-! ## The parser -/

/-- `gpt` is none where the source leaves the header as it is constructed. -/
structure DrivePartitions where
  mbr : MasterBootRecord
  gpt : Option GptHeader
  entries : List GptEntry
  deriving DecidableEq

inductive PartParseError
  | eReadError
  | eInvalidMbrSignature
  | eInvalidGptSignature
  deriving DecidableEq

/-- `drive.read` into a structure: the bytes, if all of it is read. -/
def readInto (drive : BlockDevice) (offset size : Nat) : Except Fault (Option (List UInt8)) := do
  let (read, bytes) ← drive.read offset (List.replicate size 0)
  if read ≠ size then pure none else pure (some bytes)

/-- Where the source reads an entry: `lbaPartitionArray * blockSize` is a 64-bit product, and
`i * partitionEntrySize` is a 32-bit one. -/
def entryOffset (drive : BlockDevice) (header : GptHeader) (i : Nat) : Nat :=
  wrapAdd (2 ^ 64) (header.lbaPartitionArray * drive.mDevice.blockSize % 2 ^ 64)
    (i * header.partitionEntrySize % 2 ^ 32)

def entriesFrom (drive : BlockDevice) (header : GptHeader) :
    Nat → Nat → List GptEntry → Except Fault (List GptEntry)
  | 0, _, entries => .ok entries
  | rounds + 1, i, entries => do
      match ← readInto drive (entryOffset drive header i) GptEntry.kSize with
      | none => pure entries
      | some bytes =>
          let entry := GptEntry.ofBytes bytes
          if entry.type = GptEntry.kNullEntry then pure entries
          else entriesFrom drive header rounds (i + 1) (entries ++ [entry])

def parseGpt (drive : BlockDevice) (mbr : MasterBootRecord) :
    Except Fault (Except PartParseError DrivePartitions) := do
  match ← readInto drive drive.mDevice.blockSize GptHeader.kSize with
  | none => pure (.error .eReadError)
  | some bytes => do
      let header := GptHeader.ofBytes bytes
      if header.signature ≠ GptHeader.kSignature then pure (.error .eInvalidMbrSignature)
      else
        let entries ← entriesFrom drive header header.partitionCount 0 []
        pure (.ok { mbr := mbr, gpt := some header, entries := entries })

def parsePartitionTable (drive : BlockDevice) :
    Except Fault (Except PartParseError DrivePartitions) := do
  match ← readInto drive 0 MasterBootRecord.kSize with
  | none => pure (.error .eReadError)
  | some bytes =>
      let mbr := MasterBootRecord.ofBytes bytes
      if mbr.signature ≠ MasterBootRecord.kSignature then pure (.error .eInvalidMbrSignature)
      else if ¬ mbr.isGpt then pure (.ok { mbr := mbr, gpt := none, entries := [] })
      else parseGpt drive mbr

/-! ## What a table says -/

def tableOffset (drive : BlockDevice) (header : GptHeader) (i : Nat) : Nat :=
  header.lbaPartitionArray * drive.mDevice.blockSize + i * header.partitionEntrySize

def entryAt (drive : BlockDevice) (header : GptHeader) (i : Nat) : GptEntry :=
  .ofBytes (drive.mDevice.span (tableOffset drive header i) GptEntry.kSize)

def Used (drive : BlockDevice) (header : GptHeader) (i : Nat) : Prop :=
  (entryAt drive header i).type ≠ GptEntry.kNullEntry
  deriving Decidable

def usedEntries (drive : BlockDevice) (header : GptHeader) : List GptEntry :=
  ((List.range header.partitionCount).filter fun i => Used drive header i).map
    (entryAt drive header)

/-- A device with a header, whose table lies inside the device. -/
structure ValidGpt (drive : BlockDevice) (mbr : MasterBootRecord) (header : GptHeader) : Prop where
  mbr_read : ∃ bytes, readInto drive 0 MasterBootRecord.kSize = .ok (some bytes) ∧
    mbr = .ofBytes bytes
  mbr_signature : mbr.signature = MasterBootRecord.kSignature
  mbr_isGpt : mbr.isGpt = true
  header_read : ∃ bytes, readInto drive drive.mDevice.blockSize GptHeader.kSize = .ok (some bytes) ∧
    header = .ofBytes bytes
  header_signature : header.signature = GptHeader.kSignature
  table_inside : ∀ i < header.partitionCount,
    tableOffset drive header i + GptEntry.kSize ≤ drive.mDevice.size

/-- The loop reads an entry: all entries before it are read and are used. -/
def Reached (drive : BlockDevice) (header : GptHeader) (i : Nat) : Prop :=
  i < header.partitionCount ∧ ∀ j < i, ∃ bytes,
    readInto drive (entryOffset drive header j) GptEntry.kSize = .ok (some bytes) ∧
    (GptEntry.ofBytes bytes).type ≠ GptEntry.kNullEntry

/-- The scan returns the used entries, and reads every entry where it stands. -/
structure Complete (drive : BlockDevice) (mbr : MasterBootRecord) (header : GptHeader) : Prop where
  result_eq : parsePartitionTable drive =
    .ok (.ok { mbr := mbr, gpt := some header, entries := usedEntries drive header })
  reads_eq : ∀ i, Reached drive header i →
    entryOffset drive header i = tableOffset drive header i

def Good (drive : BlockDevice) (header : GptHeader) (i : Nat) : Prop :=
  (∃ bytes, readInto drive (tableOffset drive header i) GptEntry.kSize = .ok (some bytes)) ∧
    Used drive header i

/-- The used entries come first, and 32 bits hold where the first other one stands. -/
structure UsedFirst (drive : BlockDevice) (header : GptHeader) : Prop where
  first : ∀ j < header.partitionCount, Used drive header j → ∀ i ≤ j, Good drive header i
  narrow : ∀ i < header.partitionCount, (∀ j < i, Good drive header j) →
    i * header.partitionEntrySize < 2 ^ 32

end Gpt
end BezOS
