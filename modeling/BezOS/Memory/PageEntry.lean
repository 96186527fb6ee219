import BezOS.Memory.PageWalk

/-!
# Page table entries

The bits of an entry, `arch/paging.hpp`, and what `PageBuilder` of `memory/paging.hpp` puts there.
An entry is written bit by bit, and each write is described by the bits that it leaves.
-/

namespace BezOS
namespace x64

def setmask (value mask : BitVec 64) (state : Bool) : BitVec 64 :=
  if state then value ||| mask else value &&& ~~~mask

namespace paging

def kPresentBit : BitVec 64 := 1#64 <<< 0
def kReadOnlyBit : BitVec 64 := 1#64 <<< 1
def kUserBit : BitVec 64 := 1#64 <<< 2
def kWriteThroughBit : BitVec 64 := 1#64 <<< 3
def kCacheDisableBit : BitVec 64 := 1#64 <<< 4
def kExecuteDisableBit : BitVec 64 := 1#64 <<< 63

def addressMask (width : Nat) : BitVec 64 := ((1#64 <<< width) - 1) &&& ~~~(4096#64 - 1)

def setMemoryType (entry : BitVec 64) (pat : Nat) (type : BitVec 8) : BitVec 64 :=
  let mask := kWriteThroughBit ||| kCacheDisableBit ||| (1#64 <<< pat)
  let select := (type.setWidth 64 &&& 0b001#64) <<< 3 ||| (type.setWidth 64 &&& 0b010#64) <<< 3 |||
    (type.setWidth 64 &&& 0b100#64) <<< (pat - 2)
  (entry &&& ~~~mask) ||| select

def getMemoryType (entry : BitVec 64) (pat : Nat) : BitVec 8 :=
  ((entry &&& kWriteThroughBit) >>> 3 ||| (entry &&& kCacheDisableBit) >>> 3 |||
    (entry &&& (1#64 <<< pat)) >>> (pat - 2)).setWidth 8

end paging

namespace Entry

open paging

def setPresent (e : Entry) (b : Bool) : Entry := setmask e kPresentBit b
def setWriteable (e : Entry) (b : Bool) : Entry := setmask e kReadOnlyBit b
def setUser (e : Entry) (b : Bool) : Entry := setmask e kUserBit b
def setExecutable (e : Entry) (b : Bool) : Entry := setmask e kExecuteDisableBit (!b)
/-- `set2m` of a page directory entry and `set1g` of an entry one level up. -/
def setLarge (e : Entry) (b : Bool) : Entry := setmask e (1#64 <<< 7) b

end Entry

/-- `kPageAttributeBit` of an entry for a page of 4 KiB. -/
def pte.kPageAttributeBit : Nat := 7

/-- `kPageAttributeBit` of an entry for a large page. -/
def pdte.kPageAttributeBit : Nat := 12

end x64

/-- The type of a page, as the byte behind the enumeration: a type may be cast from any byte. -/
abbrev MemoryType := BitVec 8

namespace MemoryType

def eUncached : MemoryType := 0x00
def eWriteCombine : MemoryType := 0x01
def eWriteThrough : MemoryType := 0x04
def eWriteProtect : MemoryType := 0x05
def eWriteBack : MemoryType := 0x06
def eUncachedOverridable : MemoryType := 0x07

end MemoryType

/-- The entries of the page attribute table that the memory types have. -/
structure PageMemoryTypeLayout where
  deferred : BitVec 8
  uncached : BitVec 8
  writeCombined : BitVec 8
  writeThrough : BitVec 8
  writeProtect : BitVec 8
  writeBack : BitVec 8
  deriving DecidableEq

def getDefaultPatLayout : PageMemoryTypeLayout where
  deferred := 2
  uncached := 3
  writeCombined := 4
  writeThrough := 1
  writeProtect := 5
  writeBack := 0

def getMemoryPatIndex (layout : PageMemoryTypeLayout) (type : MemoryType) : BitVec 8 :=
  if type = MemoryType.eUncached then layout.uncached
  else if type = MemoryType.eWriteCombine then layout.writeCombined
  else if type = MemoryType.eWriteThrough then layout.writeThrough
  else if type = MemoryType.eWriteProtect then layout.writeProtect
  else if type = MemoryType.eWriteBack then layout.writeBack
  else layout.deferred

namespace km

/-- `km::PageBuilder` as its constructor makes it, with the layout of the memory types. -/
structure PageBuilder extends BezOS.PageBuilder where
  mLayout : PageMemoryTypeLayout
  paddrbits : Nat
  paddrbits_lt : paddrbits < 64
  addressMask_eq : mAddressMask = x64.paging.addressMask paddrbits

namespace PageBuilder

open x64

def maxPhysicalAddress (pm : PageBuilder) : Nat := pm.mAddressMask.toNat

/-- `address(entry)`. -/
def address (pm : PageBuilder) (e : Entry) : Nat := (e &&& pm.mAddressMask).toNat

def setAddress (pm : PageBuilder) (e : Entry) (address : Nat) : Entry :=
  (e &&& ~~~pm.mAddressMask) ||| (.ofNat 64 address &&& pm.mAddressMask)

/-- `setMemoryType` of an entry with the attribute bit `pat`. -/
def setMemoryType (pm : PageBuilder) (pat : Nat) (e : Entry) (type : MemoryType) : Entry :=
  paging.setMemoryType e pat (getMemoryPatIndex pm.mLayout type)

/-- `getMemoryType`: the index is cast, not looked up in the layout. -/
def getMemoryType (pat : Nat) (e : Entry) : MemoryType := paging.getMemoryType e pat

/-- `PageTables::setEntryFlags`; nothing for an address out of range. -/
def setEntryFlags (pm : PageBuilder) (e : Entry) (flags : PageFlags) (address : Nat) :
    Option Entry :=
  if address > pm.maxPhysicalAddress then none
  else
    let e := pm.setAddress e address
    let e := e.setWriteable (flags &&& PageFlags.eWrite ≠ 0)
    let e := e.setExecutable (flags &&& PageFlags.eExecute ≠ 0)
    let e := e.setUser (flags &&& PageFlags.eUser ≠ 0)
    some (e.setPresent true)

end PageBuilder
end km

/-! ## The bits -/

namespace x64

variable {i width : Nat}

namespace paging

lemma getLsbD_addressMask (hwidth : width < 64) (hi : i < 64) :
    (addressMask width).getLsbD i = decide (12 ≤ i ∧ i < width) := by
  have hones : ((1#64 <<< width) - 1).getLsbD i = decide (i < width) := by
    have hval : (1#64 <<< width) - 1 = BitVec.ofNat 64 (2 ^ width - 1) := by
      refine BitVec.eq_of_toNat_eq ?_
      have hpow : 2 ^ width < 2 ^ 64 := Nat.pow_lt_pow_right (by decide) hwidth
      have hpos : 0 < 2 ^ width := Nat.two_pow_pos width
      have hone : (1 : BitVec 64).toNat = 1 := rfl
      rw [BitVec.toNat_sub, hone, BitVec.toNat_shiftLeft, BitVec.toNat_ofNat, BitVec.toNat_ofNat,
        Nat.shiftLeft_eq, Nat.one_mod, Nat.one_mul, Nat.mod_eq_of_lt hpow]
      omega
    rw [hval, BitVec.getLsbD_ofNat, Nat.testBit_two_pow_sub_one]
    simp [hi]
  have hlow : (4096#64 - 1).getLsbD i = decide (i < 12) := by
    rw [show 4096#64 - 1 = BitVec.ofNat 64 (2 ^ 12 - 1) from rfl, BitVec.getLsbD_ofNat,
      Nat.testBit_two_pow_sub_one]
    simp [hi]
  have hmask : addressMask width = ((1#64 <<< width) - 1) &&& ~~~(4096#64 - 1) := rfl
  rw [hmask, BitVec.getLsbD_and, BitVec.getLsbD_not, hones, hlow, Bool.eq_iff_iff]
  simp [hi]
  omega

end paging
end x64

namespace km.PageBuilder

open x64

variable {pm : PageBuilder} {a i : Nat}

lemma getLsbD_mask (hi : i < 64) :
    pm.mAddressMask.getLsbD i = decide (12 ≤ i ∧ i < pm.paddrbits) := by
  rw [pm.addressMask_eq]
  exact paging.getLsbD_addressMask pm.paddrbits_lt hi

end km.PageBuilder

end BezOS
