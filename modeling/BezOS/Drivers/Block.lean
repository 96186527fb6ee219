import BezOS.Lib.Word
import BezOS.Status

/-!
# Block devices of any size

`km::IBlockDriver` and `km::BlockDevice::read` of `drivers/block/driver.cpp`, for drivers of any
block size, any number of blocks and any answer of `readImpl`. Offsets, sizes and sector numbers
are 64-bit words. The device behind a driver holds `blockSize * blockCount` bytes, a number that
fits a word: `BlockDevice` allocates a buffer of that size.
-/

namespace BezOS

open Lib

namespace Block

/-- A driver with its `capability()`, the bytes of its device, and whether `readImpl` of some
blocks ends with `eOk`. -/
structure IBlockDriver where
  readable : Bool
  blockSize : Nat
  blockCount : Nat
  bytes : List UInt8
  answers : Nat → Nat → Bool
  blockSize_lt : blockSize < 2 ^ 32
  length_bytes : bytes.length = blockSize * blockCount
  size_lt : blockSize * blockCount < 2 ^ 64

/-- `memcpy` out of a buffer. -/
def slice (buffer : List UInt8) (start count : Nat) : Except Fault (List UInt8) :=
  if start + count ≤ buffer.length then .ok ((buffer.drop start).take count) else .error .badAccess

/-- `memcpy` into a buffer. -/
def store (buffer : List UInt8) (start : Nat) (bytes : List UInt8) : Except Fault (List UInt8) :=
  if start + bytes.length ≤ buffer.length then
    .ok (buffer.take start ++ bytes ++ buffer.drop (start + bytes.length))
  else .error .badAccess

namespace IBlockDriver

variable (d : IBlockDriver)

def size : Nat := d.blockSize * d.blockCount

def span (start count : Nat) : List UInt8 := (d.bytes.drop start).take count

/-- `IBlockDriver::read`: the bytes read, or none for a status that is not `eOk`. The range check
wraps, and `readImpl` must not be asked for blocks that the device does not have. -/
def read (block count : Nat) : Except Fault (Option (List UInt8)) :=
  if ¬ d.readable then .ok none
  else if wrapAdd (2 ^ 64) block count > d.blockCount then .ok none
  else if block + count > d.blockCount then .error .badAccess
  else if d.answers block count then
    .ok (some (d.span (block * d.blockSize) (count * d.blockSize)))
  else .ok none

end IBlockDriver

structure SectorRange where
  firstSector : Nat
  firstSectorOffset : Nat
  lastSector : Nat
  lastSectorOffset : Nat

def sectorRangeForSpan (offset size blockSize : Nat) : SectorRange :=
  let firstSector := offset / blockSize
  let firstSectorOffset := offset - firstSector * blockSize
  let back := wrapAdd (2 ^ 64) offset size
  let lastSector := back / blockSize
  let lastSectorOffset := back - lastSector * blockSize
  if lastSectorOffset = 0 then
    ⟨firstSector, firstSectorOffset, wrapSub (2 ^ 64) lastSector 1, blockSize⟩
  else ⟨firstSector, firstSectorOffset, lastSector, lastSectorOffset⟩

structure BlockDevice where
  mDevice : IBlockDriver
  mBuffer : List UInt8
  length_buffer : mBuffer.length = mDevice.size

namespace BlockDevice

variable (d : BlockDevice)

/-- The last sector of a read, `readSize` bytes of which are stored already. -/
def readLast (buffer : List UInt8) (lastSector lastSectorCount readSize : Nat)
    (dst : List UInt8) : Except Fault (Nat × List UInt8) := do
  match ← d.mDevice.read lastSector 1 with
  | none => pure (readSize, dst)
  | some block => do
      let buffer ← store buffer 0 block
      let bytes ← slice buffer 0 lastSectorCount
      let dst ← store dst readSize bytes
      pure (readSize + lastSectorCount, dst)

/-- The sectors after the first one: `sectorCount` of them, which may be none, and the last. -/
def readRest (buffer : List UInt8) (nextSector sectorCount lastSector lastSectorCount readSize : Nat)
    (dst : List UInt8) : Except Fault (Nat × List UInt8) :=
  if sectorCount = 0 then d.readLast buffer lastSector lastSectorCount readSize dst
  else do
    match ← d.mDevice.read nextSector sectorCount with
    | none => pure (readSize, dst)
    | some bytes => do
        let dst ← store dst readSize bytes
        d.readLast buffer lastSector lastSectorCount
          (readSize + sectorCount * d.mDevice.blockSize) dst

/-- `BlockDevice::read` into a buffer of the given contents, all of which it may fill: the number of
bytes it returns, and the buffer. -/
def read (offset : Nat) (dst : List UInt8) : Except Fault (Nat × List UInt8) :=
  if wrapAdd (2 ^ 64) offset dst.length > d.mDevice.size then .ok (0, dst)
  else if d.mDevice.blockSize = 0 then .error .badAccess -- a division by zero
  else do
    let r := sectorRangeForSpan offset dst.length d.mDevice.blockSize
    match ← d.mDevice.read r.firstSector 1 with
    | none => pure (0, dst)
    | some block => do
        let buffer ← store d.mBuffer 0 block
        if r.firstSector = r.lastSector then
          let readSize := wrapSub (2 ^ 64) r.lastSectorOffset r.firstSectorOffset
          let bytes ← slice buffer r.firstSectorOffset readSize
          let dst ← store dst 0 bytes
          pure (readSize, dst)
        else
          let readSize := d.mDevice.blockSize - r.firstSectorOffset
          let bytes ← slice buffer r.firstSectorOffset readSize
          let dst ← store dst 0 bytes
          d.readRest buffer (wrapAdd (2 ^ 64) r.firstSector 1)
            (wrapSub (2 ^ 64) (wrapSub (2 ^ 64) r.lastSector r.firstSector) 1) r.lastSector
            r.lastSectorOffset readSize dst

/-- The driver refuses some blocks of a span of the device, behind the one the span starts in. -/
def RefusedPartWay (offset size : Nat) : Prop :=
  offset + size ≤ d.mDevice.size ∧
    ∃ block count, offset < block * d.mDevice.blockSize ∧
      block * d.mDevice.blockSize < offset + size ∧ block + count ≤ d.mDevice.blockCount ∧
      d.mDevice.read block count = .ok none

/-- A read returns, and the bytes it counts are those of the device, stored at the front of the
buffer; the rest of the buffer is left. It counts none or all, or the driver refused some blocks
part-way. -/
def ReadsExactly (offset : Nat) (dst : List UInt8) : Prop :=
  ∃ n, n ≤ dst.length ∧
    d.read offset dst = .ok (n, d.mDevice.span offset n ++ dst.drop n) ∧
    (n = 0 ∨ offset + n ≤ d.mDevice.size) ∧
    (n = 0 ∨ n = dst.length ∨ d.RefusedPartWay offset dst.length)

/-- The reads that are served: those out of range, those whose first block the driver refuses, and
those of a span that does not wrap and is not an empty one between two blocks. -/
def Served (offset size : Nat) : Prop :=
  d.mDevice.size < wrapAdd (2 ^ 64) offset size ∨
    (d.mDevice.blockSize ≠ 0 ∧
      (d.mDevice.read (offset / d.mDevice.blockSize) 1 = .ok none ∨
        (offset + size < 2 ^ 64 ∧ (0 < size ∨ offset % d.mDevice.blockSize ≠ 0))))

end BlockDevice

end Block

end BezOS
