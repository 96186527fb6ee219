import BezOS.Memory.PageRequests

/-!
# Two readers of page tables

`getBackingAddress` and `walk` descend the same tables on their own. What a walk finds names an
address: the frame of the page, with the low bits of the virtual address, as many as the page has.
The two agree where every large page lies on a boundary of its size. For a page of 1 GiB the
source takes 22 bits of the virtual address instead of 30.
-/

namespace BezOS
namespace km

open BitVec Nat PageWalk

open BezOS.PageTables (addressPart)

/-! ## Offsets -/

lemma toNat_and_low (a : BitVec 64) {bits : Nat} (hbits : bits ≤ 64) :
    (a &&& BitVec.ofNat 64 (2 ^ bits - 1)).toNat = a.toNat % 2 ^ bits := by
  have hpow : 2 ^ bits - 1 < 2 ^ 64 := by
    have := Nat.pow_le_pow_right (show 0 < 2 by decide) hbits
    omega
  rw [toNat_and, toNat_ofNat, mod_eq_of_lt hpow, and_two_pow_sub_one_eq_mod]

lemma offset_add {a : BitVec 64} {bits : Nat} {mask : BitVec 64} (hlow : 12 ≤ bits)
    (hbits : bits ≤ 64) (hmask : mask = BitVec.ofNat 64 (2 ^ bits - 1) &&& ~~~0xFFF) :
    (a &&& mask).toNat + (a &&& 0xFFF).toNat = a.toNat % 2 ^ bits := by
  have hdisjoint : (a &&& mask) &&& (a &&& 0xFFF) = 0 := by
    refine BitVec.eq_of_getLsbD_eq fun i hi => ?_
    simp only [hmask, BitVec.getLsbD_and, getLsbD_not]
    by_cases hfff : (0xFFF#64).getLsbD i <;> simp [hfff]
  have hsplit : (a &&& mask) ||| (a &&& 0xFFF) = a &&& BitVec.ofNat 64 (2 ^ bits - 1) := by
    have hin : 0xFFF#64 = 0xFFF#64 &&& BitVec.ofNat 64 (2 ^ bits - 1) := by
      refine BitVec.eq_of_getLsbD_eq fun i hi => ?_
      rw [BitVec.getLsbD_and, show 0xFFF#64 = BitVec.ofNat 64 (2 ^ 12 - 1) from rfl]
      simp only [getLsbD_ofNat, testBit_two_pow_sub_one]
      by_cases h12 : i < 12
      · have : i < bits := by omega
        simp [h12, this]
      · simp [h12]
    refine BitVec.eq_of_getLsbD_eq fun i hi => ?_
    have hbit : (0xFFF#64).getLsbD i =
        ((0xFFF#64).getLsbD i && (BitVec.ofNat 64 (2 ^ bits - 1)).getLsbD i) := by
      rw [← BitVec.getLsbD_and, ← hin]
    simp only [hmask, getLsbD_or, BitVec.getLsbD_and, getLsbD_not]
    revert hbit
    cases (BitVec.ofNat 64 (2 ^ bits - 1)).getLsbD i <;> cases a.getLsbD i <;>
      cases (0xFFF#64).getLsbD i <;> simp [hi]
  have hsum : (a &&& mask) + (a &&& 0xFFF) = (a &&& mask) ||| (a &&& 0xFFF) :=
    add_eq_or_of_and_eq_zero _ _ hdisjoint
  have hlt : (a &&& mask).toNat + (a &&& 0xFFF).toNat < 2 ^ 64 := by
    rw [← toNat_add_of_and_eq_zero hdisjoint]
    exact isLt _
  rw [← toNat_and_low a hbits, ← hsplit, ← hsum, toNat_add, mod_eq_of_lt hlt]

namespace PageTables

open x64 (kLargePageSize kHugePageSize)

variable {s : PageTables} {a : BitVec 64}

/-- An address in the frame of a page of `size` bytes, with the low bits of `a`. -/
def inFrame (frame size : Nat) (a : BitVec 64) : Nat := frame / size * size + a.toNat % size

/-- The physical address that a walk to `a` has found. -/
def walkedAddress (s : PageTables) (a : BitVec 64) (w : PageWalk) : Option Nat :=
  match w.pageSize with
  | .eNone => none
  | .eRegular => some (inFrame (s.address w.pte) kPageSize a)
  | .eLarge => some (inFrame (s.address w.pdte) kLargePageSize a)
  | .eHuge => some (inFrame (s.address w.pdpte) kHugePageSize a)

/-- The address that backs `a` is the one a walk to `a` finds. -/
def ReadersAgree (s : PageTables) (a : BitVec 64) : Prop :=
  s.getBackingAddress a = (s.walk a).map (s.walkedAddress a)
  deriving Decidable

/-- A large page that `a` is in lies where it does for both readers: a page of 2 MiB on a boundary
of its size, and a page of 1 GiB where its frame has the bits of `a` that the source leaves out. -/
def LargeFrameFits (s : PageTables) (a : BitVec 64) : Prop :=
  ∀ l3, s.findPageMap3 s.pml4 (addressPart a 39) = some (some l3) →
    ((s.tables l3 (addressPart a 30)).present → (s.tables l3 (addressPart a 30)).isLarge →
      s.address (s.tables l3 (addressPart a 30)) % kHugePageSize + a.toNat % 2 ^ 22 =
        a.toNat % kHugePageSize) ∧
    ∀ l2, s.findPageMap2 l3 (addressPart a 30) = some (some l2) →
      (s.tables l2 (addressPart a 21)).present → (s.tables l2 (addressPart a 21)).isLarge →
        s.address (s.tables l2 (addressPart a 21)) % kLargePageSize = 0

lemma inFrame_eq_iff {frame size offset : Nat} :
    frame + offset = inFrame frame size a ↔ frame % size + offset = a.toNat % size := by
  have hdiv := div_add_mod' frame size
  rw [inFrame]
  omega

lemma address_mod (s : PageTables) (e : x64.Entry) : s.address e % kPageSize = 0 := by
  refine eq_of_testBit_eq fun i => ?_
  rw [show kPageSize = 2 ^ 12 from rfl, testBit_mod_two_pow, zero_testBit, address,
    PageBuilder.address, testBit_toNat, BitVec.getLsbD_and]
  by_cases hi : i < 12
  · rw [PageBuilder.getLsbD_mask (by omega)]
    simp [hi]
  · simp [hi]

lemma present_zero : x64.Entry.present 0#64 = false := rfl

/-- The readers take the same way down, and part at the leaf only. -/
theorem readersAgree_iff : s.ReadersAgree a ↔ s.LargeFrameFits a := by
  have hregular : ∀ e, s.address e + (a &&& 0xFFF#64).toNat = inFrame (s.address e) kPageSize a := by
    intro e
    rw [inFrame_eq_iff, s.address_mod, Nat.zero_add]
    exact toNat_and_low a (show 12 ≤ 64 by decide)
  have hlarge : (a &&& 0x1FF000#64).toNat + (a &&& 0xFFF#64).toNat = a.toNat % 2 ^ 21 :=
    offset_add (by decide) (by decide) (by decide)
  have hhuge : (a &&& 0x3FF000#64).toNat + (a &&& 0xFFF#64).toNat = a.toNat % 2 ^ 22 :=
    offset_add (by decide) (by decide) (by decide)
  have hzero := present_zero
  simp only [ReadersAgree, LargeFrameFits, getBackingAddress, getBackingAddressUnlocked, walk,
    walkUnlocked, findPageMap3, findPageMap2, findPageTable, findBelow]
  by_cases h4 : (s.tables s.pml4 (addressPart a 39)).present
  case neg => simp [h4, walkedAddress, pageSize, hzero]
  cases s.asVirtual (s.address (s.tables s.pml4 (addressPart a 39))) with
  | none => simp [h4]
  | some l3 =>
    by_cases h3 : (s.tables l3 (addressPart a 30)).present
    case neg => simp [h4, h3, walkedAddress, pageSize, hzero]
    by_cases hl : (s.tables l3 (addressPart a 30)).isLarge
    case pos =>
      -- a page of 1 GiB
      simp [h4, h3, hl, walkedAddress, pageSize, Nat.add_assoc, hhuge,
        inFrame_eq_iff, -toNat_and]
    cases hl2 : s.asVirtual (s.address (s.tables l3 (addressPart a 30))) with
    | none => simp [h4, h3, hl, hl2]
    | some l2 =>
      by_cases h2 : (s.tables l2 (addressPart a 21)).present
      case neg => simp [h4, h3, hl, hl2, h2, walkedAddress, pageSize, hzero]
      by_cases hl' : (s.tables l2 (addressPart a 21)).isLarge
      case pos =>
        -- a page of 2 MiB
        simp [h4, h3, hl, hl2, h2, hl', walkedAddress, pageSize, Nat.add_assoc,
          hlarge, inFrame_eq_iff, kLargePageSize, -toNat_and]
      cases hpt : s.asVirtual (s.address (s.tables l2 (addressPart a 21))) with
      | none => simp [h4, h3, hl, hl2, h2, hl', hpt]
      | some pt =>
        -- what is left is a page of 4 KiB, or none
        by_cases h1 : (s.tables pt (addressPart a 12)).present
        · simp [h4, h3, hl, hl2, h2, hl', hpt, h1, walkedAddress, pageSize, hregular,
            -toNat_and]
        · simp [h4, h3, hl, hl2, h2, hl', hpt, h1, walkedAddress, pageSize]

/-- In 24 pages whose physical addresses are two pages below the virtual ones, a page that was
given back is claimed again for a table one level below the root. Its entry names the physical
address of a page directory, so that the page of 2 MiB mapped there is read as one of 1 GiB. -/
theorem not_readersAgree_of_claimed_again :
    ∃ s, Reachable s ∧ ¬ s.ReadersAgree 0x17FC0000000 :=
  exists_reachable 0x100000 0xFE000 24
    [.mapData 0xFFFFFFFFFFE00000 0x600000 0x200000, .mapData 0x200000 0x400000 0x1000,
      .mapData 0x400000 0x400000 0x1000, .mapData 0x600000 0x400000 0x1000,
      .mapData 0x800000 0x400000 0x1000, .unmap2m ⟨0x200000, 0xA00000⟩,
      .mapData 0x17FC0000000 0x600000 0x1000]
    (by decide +kernel)

end PageTables
end km
end BezOS
