import BezOS.Lib.Word
import BezOS.Status

/-!
# Block devices

`km::MemoryBlk` of `drivers/block/ramblk.cpp`, a device over bytes in memory that can be read, and
`km::BlockDevice::read` of `drivers/block/driver.cpp`, which reads any span of bytes through whole
blocks. A read is given by the bytes it stores, which must fit the buffer of the caller. Offsets
and sizes are in range of the device, so that only the numbers of sectors can wrap.
-/

namespace BezOS

open Lib List

structure MemoryBlk where
  mMemory : List UInt8

namespace MemoryBlk

def kBlockSize : Nat := 512

variable (d : MemoryBlk)

def blockCount : Nat := d.mMemory.length / kBlockSize

def size : Nat := kBlockSize * d.blockCount

/-- `IBlockDriver::read`: blocks in range, or none. -/
def read (block count : Nat) : Option (List UInt8) :=
  if wrapAdd (2 ^ 64) block count > d.blockCount then none
  else some ((d.mMemory.drop (block * kBlockSize)).take (count * kBlockSize))

end MemoryBlk

structure SectorRange where
  firstSector : Nat
  firstSectorOffset : Nat
  lastSector : Nat
  lastSectorOffset : Nat

def sectorRangeForSpan (offset size blockSize : Nat) : SectorRange :=
  let firstSector := offset / blockSize
  let firstSectorOffset := offset - firstSector * blockSize
  let lastSector := (offset + size) / blockSize
  let lastSectorOffset := (size + offset) - lastSector * blockSize
  if lastSectorOffset = 0 then
    ⟨firstSector, firstSectorOffset, wrapSub (2 ^ 64) lastSector 1, blockSize⟩
  else ⟨firstSector, firstSectorOffset, lastSector, lastSectorOffset⟩

namespace BlockDevice

/-- `memcpy` behind the bytes stored so far, into a buffer of the given size. -/
def copy (size : Nat) (stored bytes : List UInt8) : Except Fault (List UInt8) :=
  if (stored ++ bytes).length ≤ size then .ok (stored ++ bytes) else .error .badAccess

def read (d : MemoryBlk) (offset size : Nat) : Except Fault (List UInt8) :=
  if offset + size > d.size then .ok []
  else
    let r := sectorRangeForSpan offset size MemoryBlk.kBlockSize
    match d.read r.firstSector 1 with
    | none => .ok []
    | some buffer =>
        if r.firstSector = r.lastSector then
          copy size [] ((buffer.drop r.firstSectorOffset).take
            (wrapSub (2 ^ 64) r.lastSectorOffset r.firstSectorOffset))
        else do
          let stored ← copy size [] ((buffer.drop r.firstSectorOffset).take
            (MemoryBlk.kBlockSize - r.firstSectorOffset))
          -- the sectors between the first and the last
          let sectorCount := wrapSub (2 ^ 64) (wrapSub (2 ^ 64) r.lastSector r.firstSector) 1
          let middle := if sectorCount = 0 then some [] else d.read (r.firstSector + 1) sectorCount
          match middle with
          | none => .ok stored
          | some bytes => do
              let stored ← copy size stored bytes
              match d.read r.lastSector 1 with
              | none => .ok stored
              | some buffer => copy size stored (buffer.take r.lastSectorOffset)

variable {d : MemoryBlk} {offset size : Nat}

lemma read_block {block count : Nat} (hlength : d.mMemory.length < 2 ^ 64)
    (hrange : block + count ≤ d.mMemory.length / 512) :
    d.read block count = some ((d.mMemory.drop (block * 512)).take (count * 512)) := by
  rw [MemoryBlk.read, wrapAdd, Nat.mod_eq_of_lt (by omega)]
  exact if_neg (Nat.not_lt.2 hrange)

lemma copy_of_le {stored bytes : List UInt8} (h : stored.length + bytes.length ≤ size) :
    copy size stored bytes = .ok (stored ++ bytes) := by
  rw [copy, if_pos (by rwa [length_append])]

lemma span_block (memory : List UInt8) (block : Nat) {front count : Nat}
    (h : front + count ≤ 512) :
    (((memory.drop (block * 512)).take 512).drop front).take count =
      (memory.drop (block * 512 + front)).take count := by
  rw [drop_take, take_take, drop_drop, Nat.min_eq_left (by omega)]

lemma span_append (memory : List UInt8) (offset a b : Nat) :
    (memory.drop offset).take a ++ (memory.drop (offset + a)).take b =
      (memory.drop offset).take (a + b) := by
  rw [take_add, drop_drop]

lemma sectorRange_spec (hsize : 0 < size) (hbound : offset + size < 2 ^ 64) :
    ∃ last count, sectorRangeForSpan offset size 512 = ⟨offset / 512, offset % 512, last, count⟩ ∧
      last * 512 + count = offset + size ∧ 0 < count ∧ count ≤ 512 ∧ offset / 512 ≤ last ∧
      last < 2 ^ 64 := by
  have hoffset : offset - offset / 512 * 512 = offset % 512 := by omega
  simp only [sectorRangeForSpan, hoffset]
  by_cases hzero : size + offset - (offset + size) / 512 * 512 = 0
  · refine ⟨(offset + size) / 512 - 1, 512, ?_, by omega, by omega, by omega, by omega, by omega⟩
    have hwrap : wrapSub (2 ^ 64) ((offset + size) / 512) 1 = (offset + size) / 512 - 1 :=
      wrapSub_of_le (by omega) (by omega)
    simp only [if_pos hzero, hwrap]
  · refine ⟨(offset + size) / 512, size + offset - (offset + size) / 512 * 512, ?_, by omega,
      by omega, by omega, by omega, by omega⟩
    simp only [if_neg hzero]

lemma sector_start {last middle : Nat} (hle : offset / 512 ≤ last)
    (hone : ¬ offset / 512 = last) (hmiddle : middle = last - offset / 512 - 1) :
    last * 512 = offset + (512 - offset % 512 + middle * 512) := by
  omega

section

variable (hlength : d.mMemory.length < 2 ^ 64)

include hlength

lemma read_eq (hsize : 0 < size) (hrange : offset + size ≤ d.size) :
    read d offset size = .ok ((d.mMemory.drop offset).take size) := by
  rw [read, if_neg (Nat.not_lt.2 hrange), show MemoryBlk.kBlockSize = 512 from rfl]
  replace hrange : offset + size ≤ 512 * (d.mMemory.length / 512) := hrange
  obtain ⟨last, count, hsectors, hlast, hpos, hcount, hle, hbound⟩ :=
    @sectorRange_spec offset size hsize (by omega)
  have hstart : offset / 512 * 512 + offset % 512 = offset := Nat.div_add_mod' offset 512
  have hblock : ∀ block, block < d.mMemory.length / 512 →
      d.read block 1 = some ((d.mMemory.drop (block * 512)).take 512) :=
    fun block hblock => read_block hlength hblock
  have hspan : ∀ start bytes, ((d.mMemory.drop start).take bytes).length ≤ bytes :=
    fun start bytes => length_take_le ..
  simp only [hsectors, hblock (offset / 512) (by omega)]
  by_cases hone : offset / 512 = last
  · have hsub : count - offset % 512 = size := by omega
    have hwrap : wrapSub (2 ^ 64) count (offset % 512) = size := by
      rw [wrapSub_of_le (by omega) (by omega), hsub]
    rw [if_pos hone, hwrap, span_block _ _ (by omega), hstart, copy_of_le, nil_append]
    rw [length_nil, Nat.zero_add]
    exact hspan offset size
  · -- the rest of the first block, the blocks between, the front of the last block
    have hwrap : wrapSub (2 ^ 64) (wrapSub (2 ^ 64) last (offset / 512)) 1 =
        last - offset / 512 - 1 := by
      rw [wrapSub_of_le hle hbound, wrapSub_of_le (by omega) (by omega)]
    obtain ⟨middle, hmiddle⟩ : ∃ middle, middle = last - offset / 512 - 1 := ⟨_, rfl⟩
    have hnext : (offset / 512 + 1) * 512 = offset + (512 - offset % 512) := by omega
    have hrest := sector_start hle hone hmiddle
    have hread : (if middle = 0 then some [] else d.read (offset / 512 + 1) middle) =
        some ((d.mMemory.drop (offset + (512 - offset % 512))).take (middle * 512)) := by
      by_cases hzero : middle = 0
      · simp [hzero]
      · rw [if_neg hzero, read_block hlength (by omega), hnext]
    rw [if_neg hone, hwrap, ← hmiddle, span_block _ _ (by omega), hstart, hread, copy_of_le]
    · simp only [bind, Except.bind, nil_append, hblock last (by omega)]
      rw [copy_of_le, span_append, take_take, Nat.min_eq_left hcount, hrest]
      · change copy size _ _ = _
        rw [copy_of_le, span_append]
        · have htotal : 512 - offset % 512 + middle * 512 + count = size := by omega
          rw [htotal]
        · have h1 := hspan offset (512 - offset % 512 + middle * 512)
          have h2 := hspan (offset + (512 - offset % 512 + middle * 512)) count
          omega
      · have h1 := hspan offset (512 - offset % 512)
        have h2 := hspan (offset + (512 - offset % 512)) (middle * 512)
        omega
    · have h1 := hspan offset (512 - offset % 512)
      simp only [length_nil, Nat.zero_add]
      omega

lemma read_zero_inside (hinside : offset % 512 ≠ 0) (hrange : offset < d.size) :
    read d offset 0 = .ok [] := by
  rw [read, Nat.add_zero, if_neg (Nat.not_lt.2 (Nat.le_of_lt hrange)),
    show MemoryBlk.kBlockSize = 512 from rfl]
  replace hrange : offset < 512 * (d.mMemory.length / 512) := hrange
  have hoffset : offset - offset / 512 * 512 = offset % 512 := by omega
  have hblock := @read_block d (offset / 512) 1 hlength (by omega)
  simp only [sectorRangeForSpan, Nat.add_zero, Nat.zero_add, hoffset, if_neg hinside, hblock, if_true,
    wrapSub_of_le (w := 2 ^ 64) (Nat.le_refl (offset % 512)) (by omega), Nat.sub_self,
    take_zero]
  rfl

lemma read_zero_front (hfront : offset % 512 = 0) (hrange : offset < d.size) :
    read d offset 0 = .error .badAccess := by
  rw [read, Nat.add_zero, if_neg (Nat.not_lt.2 (Nat.le_of_lt hrange)),
    show MemoryBlk.kBlockSize = 512 from rfl]
  replace hrange : offset < 512 * (d.mMemory.length / 512) := hrange
  have hoffset : offset - offset / 512 * 512 = 0 := by omega
  have hne : offset / 512 ≠ wrapSub (2 ^ 64) (offset / 512) 1 := by
    have hlt : offset / 512 < 2 ^ 64 := by omega
    have hcases := wrapSub_cases hlt (show 1 ≤ 2 ^ 64 by decide)
    omega
  have hblock := @read_block d (offset / 512) 1 hlength (by omega)
  simp only [sectorRangeForSpan, Nat.add_zero, Nat.zero_add, hoffset, if_true, hblock, if_neg hne,
    drop_zero, Nat.sub_zero]
  rw [copy, if_neg]
  · rfl
  · simp only [nil_append, take_take, length_take, length_drop]
    omega

end

end BlockDevice

end BezOS
