import Mathlib.Data.Nat.Bitwise
import Mathlib.Tactic.Common

/-!
# Walking page tables

`PageTables::walkUnlocked` and the flags that a walk gives an address. A page table is what
physical memory holds at its address: 512 entries of 64 bits.
-/

namespace BezOS

open BitVec

abbrev PageFlags := BitVec 8

namespace PageFlags

def eNone : PageFlags := 0
def eRead : PageFlags := 1 <<< 0
def eWrite : PageFlags := 1 <<< 1
def eExecute : PageFlags := 1 <<< 2
def eUser : PageFlags := 1 <<< 3
def eAll : PageFlags := eRead ||| eWrite ||| eExecute
def eUserAll : PageFlags := eAll ||| eUser

end PageFlags

namespace x64

def kPageSize : Nat := 4096

abbrev Entry := BitVec 64

namespace Entry

def present (e : Entry) : Bool := e.getLsbD 0
def writeable (e : Entry) : Bool := e.getLsbD 1
def user (e : Entry) : Bool := e.getLsbD 2
/-- `is2m` of a page directory entry and `is1g` of an entry one level up. -/
def isLarge (e : Entry) : Bool := e.getLsbD 7
def executable (e : Entry) : Bool := !e.getLsbD 63

end Entry

end x64

/-- `km::PageBuilder`: which bits of an entry are an address, and how wide virtual addresses are. -/
structure PageBuilder where
  mAddressMask : BitVec 64
  mVaddrBits : Nat
  vaddrBits_pos : 0 < mVaddrBits
  vaddrBits_le : mVaddrBits ≤ 64
  deriving DecidableEq

namespace PageBuilder

/-- `-(1ull << (mVaddrBits - 1))`. -/
def highMask (pm : PageBuilder) : BitVec 64 := -(1 <<< (pm.mVaddrBits - 1))

def isCanonicalAddress (pm : PageBuilder) (address : BitVec 64) : Bool :=
  address &&& pm.highMask = 0 || address &&& pm.highMask = pm.highMask

def isHigherHalf (pm : PageBuilder) (address : BitVec 64) : Bool :=
  address &&& pm.highMask = pm.highMask

lemma getLsbD_highMask (pm : PageBuilder) {i : Nat} (hi : i < 64) :
    pm.highMask.getLsbD i = decide (pm.mVaddrBits - 1 ≤ i) := by
  have hbits := pm.vaddrBits_le
  have hbit : ∀ j, (1#64 <<< (pm.mVaddrBits - 1)).getLsbD j = decide (j = pm.mVaddrBits - 1) := by
    intro j
    rw [getLsbD_shiftLeft, getLsbD_one, Bool.eq_iff_iff]
    simp only [Bool.and_eq_true, decide_eq_true_eq, Bool.not_eq_true', decide_eq_false_iff_not]
    omega
  have hbelow : (∃ j < i, j = pm.mVaddrBits - 1) ↔ pm.mVaddrBits - 1 < i :=
    ⟨fun ⟨j, hj, heq⟩ => heq ▸ hj, fun hlt => ⟨_, hlt, rfl⟩⟩
  change (-(1#64 <<< (pm.mVaddrBits - 1))).getLsbD i = _
  rw [getLsbD_neg]
  simp only [hbit, decide_eq_true_eq, hbelow, hi, decide_true, Bool.true_and]
  by_cases hle : pm.mVaddrBits - 1 ≤ i
  · by_cases heq : i = pm.mVaddrBits - 1
    · simp [heq]
    · have hlt : pm.mVaddrBits - 1 < i := by omega
      simp [heq, hle, hlt]
  · have hne : i ≠ pm.mVaddrBits - 1 := by omega
    have hlt : ¬ pm.mVaddrBits - 1 < i := by omega
    simp [hle, hne, hlt]

end PageBuilder

/-- Physical memory as page tables, and the root table. -/
structure PageTables where
  mPageManager : PageBuilder
  root : BitVec 64
  memory : BitVec 64 → BitVec 9 → x64.Entry

/-- The entries that a walk has read; those it did not reach are zero. -/
structure PageWalk where
  pml4e : x64.Entry
  pdpte : x64.Entry
  pdte : x64.Entry
  pte : x64.Entry
  deriving DecidableEq

namespace PageTables

/-- One index of `getAddressParts`. -/
def addressPart (address : BitVec 64) (shift : Nat) : BitVec 9 := (address >>> shift).setWidth 9

/-- `getPageEntry`: the table that an entry points to. -/
def next (pt : PageTables) (e : x64.Entry) : BitVec 64 := e &&& pt.mPageManager.mAddressMask

def walk (pt : PageTables) (address : BitVec 64) : PageWalk :=
  let pml4e := pt.memory pt.root (addressPart address 39)
  if ¬ pml4e.present then ⟨pml4e, 0, 0, 0⟩
  else
    let pdpte := pt.memory (pt.next pml4e) (addressPart address 30)
    if ¬ pdpte.present ∨ pdpte.isLarge then ⟨pml4e, pdpte, 0, 0⟩
    else
      let pdte := pt.memory (pt.next pdpte) (addressPart address 21)
      if ¬ pdte.present ∨ pdte.isLarge then ⟨pml4e, pdpte, pdte, 0⟩
      else ⟨pml4e, pdpte, pdte, pt.memory (pt.next pdte) (addressPart address 12)⟩

end PageTables

namespace PageWalk

/-- The lambda `applyFlags` of `PageWalk::flags`. -/
def applyFlags (flags : PageFlags) (e : x64.Entry) : PageFlags :=
  if ¬ e.present then flags
  else
    let flags := if e.writeable then flags else flags &&& ~~~PageFlags.eWrite
    let flags := if e.executable then flags else flags &&& ~~~PageFlags.eExecute
    if e.user then flags else flags &&& ~~~PageFlags.eUser

def flags (w : PageWalk) : PageFlags :=
  let flags := applyFlags PageFlags.eUserAll w.pml4e
  if ¬ w.pdpte.present then PageFlags.eNone
  else
    let flags := applyFlags flags w.pdpte
    if w.pdpte.isLarge then flags
    else if ¬ w.pdte.present then PageFlags.eNone
    else
      let flags := applyFlags flags w.pdte
      if w.pdte.isLarge then flags
      else if ¬ w.pte.present then PageFlags.eNone
      else applyFlags flags w.pte

end PageWalk

namespace PageTables

def getMemoryFlags (pt : PageTables) (address : BitVec 64) : PageFlags := (pt.walk address).flags

variable {a b : BitVec 64}

lemma addressPart_eq_of_page (hpage : a >>> 12 = b >>> 12) {shift : Nat} (hshift : 12 ≤ shift) :
    addressPart a shift = addressPart b shift := by
  obtain ⟨n, rfl⟩ := Nat.exists_eq_add_of_le hshift
  rw [addressPart, addressPart, shiftRight_add, shiftRight_add, hpage]

lemma getMemoryFlags_eq_of_page (pt : PageTables) (hpage : a >>> 12 = b >>> 12) :
    pt.getMemoryFlags a = pt.getMemoryFlags b := by
  rw [getMemoryFlags, getMemoryFlags, walk, walk,
    addressPart_eq_of_page hpage (by decide : 12 ≤ 39),
    addressPart_eq_of_page hpage (by decide : 12 ≤ 30),
    addressPart_eq_of_page hpage (by decide : 12 ≤ 21),
    addressPart_eq_of_page hpage (by decide : 12 ≤ 12)]

end PageTables
end BezOS
