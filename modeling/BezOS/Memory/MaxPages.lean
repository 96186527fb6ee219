import Mathlib.Data.Finset.Card
import Mathlib.Order.Interval.Finset.Nat
import BezOS.Memory.PageWalk
import BezOS.Memory.TableAllocator

/-!
# How many tables a mapping takes

`MaxPagesForMapping` of `memory/memory.cpp`: a bound on the number of page tables that mapping a
range takes, from the two ends of the range only.
-/

namespace BezOS

open Lib Finset Nat

namespace x64

def kLargePageSize : Nat := 2 ^ 21
def kHugePageSize : Nat := 2 ^ 30

end x64

def kPml4MemorySize : Nat := x64.kHugePageSize * 512

def getCoveredSegments (range : AnyRange) (segment : Nat) : Nat :=
  wrapSub wordCount (roundup range.back segment) (rounddown range.front segment) / segment

def maxPagesForMapping (range : AnyRange) : Nat :=
  let count := getCoveredSegments range kPml4MemorySize +
    getCoveredSegments range x64.kHugePageSize
  if range.bytes < x64.kLargePageSize then
    let front := rounddown range.front x64.kLargePageSize
    let back := rounddown range.back x64.kLargePageSize
    if front ≠ back then count + 4 else count + 2
  else
    let count := if range.front % x64.kLargePageSize ≠ 0 then count + 1 else count
    let count := if range.back % x64.kLargePageSize ≠ 0 then count + 1 else count
    count + getCoveredSegments range x64.kLargePageSize

/-! ## The tables a range needs -/

def touchedPages (range : AnyRange) : Finset Nat :=
  (Finset.range range.bytes).image fun i => rounddown (range.front + i) kPageSize

open PageTables in
def touchedPdpts (range : AnyRange) : Finset (BitVec 9) :=
  (touchedPages range).image fun a => addressPart (.ofNat 64 a) 39

open PageTables in
def touchedPds (range : AnyRange) : Finset (BitVec 9 × BitVec 9) :=
  (touchedPages range).image fun a =>
    (addressPart (.ofNat 64 a) 39, addressPart (.ofNat 64 a) 30)

open PageTables in
def touchedPts (range : AnyRange) : Finset (BitVec 9 × BitVec 9 × BitVec 9) :=
  (touchedPages range).image fun a =>
    (addressPart (.ofNat 64 a) 39, addressPart (.ofNat 64 a) 30, addressPart (.ofNat 64 a) 21)

/-- A range of addresses that are canonical, with at least one. The last one may be that of the
address space, so that the end of the range is 0. -/
structure CanonicalRange (pm : PageBuilder) (range : AnyRange) : Prop where
  front : range.front < wordCount
  back : range.back < wordCount
  order : range.front < range.back ∨ range.back = 0 ∧ range.front ≠ 0
  canonical : ∀ i < range.bytes, pm.isCanonicalAddress (.ofNat 64 (range.front + i))

variable {pm : PageBuilder} {range : AnyRange} {segment a b t : Nat}

lemma CanonicalRange.end_eq (h : CanonicalRange pm range) :
    range.front + range.bytes ≤ wordCount ∧ 0 < range.bytes ∧
      range.back = (range.front + range.bytes) % wordCount := by
  have hfront := h.front
  have hback := h.back
  have hcases := wrapSub_cases hback hfront.le
  have hbytes : range.bytes = wrapSub wordCount range.back range.front := rfl
  rcases h.order with hlt | ⟨hzero, hne⟩
  · have hsum : range.front + range.bytes = range.back := by omega
    refine ⟨by omega, by omega, ?_⟩
    rw [hsum, Nat.mod_eq_of_lt hback]
  · have hsum : range.front + range.bytes = wordCount := by omega
    refine ⟨by omega, by omega, ?_⟩
    rw [hsum, mod_self, hzero]

lemma not_canonical_middle (hbits : pm.mVaddrBits < 64) (hlow : 2 ^ 62 ≤ a) (hhigh : a < 2 ^ 63) :
    ¬ pm.isCanonicalAddress (.ofNat 64 a) := by
  have hbit : ∀ i, (BitVec.ofNat 64 a).getLsbD i = (decide (i < 64) && a.testBit i) :=
    fun i => BitVec.getLsbD_ofNat 64 a i
  have h62 : (BitVec.ofNat 64 a).getLsbD 62 = true := by
    have hdiv : a / 2 ^ 62 = 1 := by omega
    rw [hbit, testBit_eq_decide_div_mod_eq, hdiv]
    rfl
  have h63 : (BitVec.ofNat 64 a).getLsbD 63 = false := by
    have hdiv : a / 2 ^ 63 = 0 := by omega
    rw [hbit, testBit_eq_decide_div_mod_eq, hdiv]
    rfl
  have hmask62 := pm.getLsbD_highMask (i := 62) (by decide)
  have hmask63 := pm.getLsbD_highMask (i := 63) (by decide)
  rw [decide_eq_true (by omega)] at hmask62 hmask63
  intro hcanonical
  simp only [PageBuilder.isCanonicalAddress, Bool.or_eq_true, decide_eq_true_eq] at hcanonical
  rcases hcanonical with hzero | hones
  · have hbit62 := BitVec.getLsbD_and (x := BitVec.ofNat 64 a) (y := pm.highMask) (i := 62)
    rw [hzero, h62, hmask62] at hbit62
    simp at hbit62
  · have hbit63 := BitVec.getLsbD_and (x := BitVec.ofNat 64 a) (y := pm.highMask) (i := 63)
    rw [hones, h63, hmask63] at hbit63
    simp at hbit63

lemma getCoveredSegments_eq {front bytes : Nat} (hsegment : 0 < segment)
    (hdvd : segment ∣ wordCount) (hend : front + bytes ≤ wordCount) (hbytes : 0 < bytes)
    (hwhole : segment ≤ front ∨ front + bytes ≤ wordCount - segment) :
    getCoveredSegments ⟨front, (front + bytes) % wordCount⟩ segment =
      (front + bytes - 1) / segment + 1 - front / segment := by
  obtain ⟨q, hq⟩ := hdvd
  have hq0 : 0 < q := by
    refine Nat.pos_of_ne_zero ?_
    rintro rfl
    simp at hq
  rw [getCoveredSegments]
  simp only [roundup, rounddown]
  by_cases hwrap : front + bytes + segment - 1 < wordCount
  · have hlast : (front + bytes + segment - 1) / segment = (front + bytes - 1) / segment + 1 := by
      rw [show front + bytes + segment - 1 = front + bytes - 1 + segment by omega,
        add_div_right _ hsegment]
    have hround := Nat.div_mul_le_self (front + bytes + segment - 1) segment
    rw [Nat.mod_eq_of_lt (a := front + bytes) (by omega), Nat.mod_eq_of_lt hwrap, hlast] at *
    have hle : front / segment * segment ≤ ((front + bytes - 1) / segment + 1) * segment := by
      refine Nat.mul_le_mul_right _ (le_trans (Nat.div_le_div_right ?_) (Nat.le_succ _))
      omega
    rw [wrapSub_of_le hle (by omega), ← Nat.sub_mul, Nat.mul_div_cancel _ hsegment]
  · -- The end is rounded up to the end of the address space, which is 0.
    have hzero : ((front + bytes) % wordCount + segment - 1) % wordCount / segment = 0 := by
      refine div_eq_of_lt ?_
      rcases hend.lt_or_eq with hlt | heq
      · rw [Nat.mod_eq_of_lt hlt, mod_eq_sub_mod (by omega), Nat.mod_eq_of_lt (by omega)]
        omega
      · rw [heq, mod_self, Nat.mod_eq_of_lt (by omega)]
        omega
    have hlast : (front + bytes - 1) / segment = q - 1 := by
      refine Nat.div_eq_of_lt_le ?_ ?_
      · rw [Nat.sub_mul, Nat.mul_comm q, ← hq]
        omega
      · rw [Nat.sub_add_cancel hq0, Nat.mul_comm q, ← hq]
        omega
    have hfirst : 0 < front / segment := Nat.div_pos (by omega) hsegment
    have hfirst' : 0 < front / segment * segment := Nat.mul_pos hfirst hsegment
    have hsub : wrapSub wordCount 0 (front / segment * segment) =
        (q - front / segment) * segment := by
      rw [wrapSub, Nat.zero_add, Nat.mod_eq_of_lt (by omega), Nat.sub_mul, Nat.mul_comm q, ← hq]
    rw [hzero, zero_mul, hsub, Nat.mul_div_cancel _ hsegment, hlast]
    omega

lemma addressPart_segment {shift : Nat} (ha : a < wordCount) (hle : t ≤ shift) :
    PageTables.addressPart (.ofNat 64 (a / 2 ^ t * 2 ^ t)) shift =
      PageTables.addressPart (.ofNat 64 a) shift := by
  obtain ⟨d, rfl⟩ := Nat.exists_eq_add_of_le hle
  have hlt : a / 2 ^ t * 2 ^ t < wordCount := (Nat.div_mul_le_self ..).trans_lt ha
  refine BitVec.eq_of_toNat_eq ?_
  simp only [PageTables.addressPart, BitVec.toNat_setWidth, BitVec.toNat_ushiftRight,
    BitVec.toNat_ofNat, shiftRight_eq_div_pow]
  rw [Nat.mod_eq_of_lt hlt, Nat.mod_eq_of_lt ha, Nat.pow_add, ← Nat.div_div_eq_div_mul,
    ← Nat.div_div_eq_div_mul, Nat.mul_div_cancel _ (Nat.two_pow_pos t)]

lemma card_touched_le {T : Type*} [DecidableEq T] {table : Nat → T}
    (hend : range.front + range.bytes ≤ wordCount) (hbytes : 0 < range.bytes) (ht : 12 ≤ t)
    (htable : ∀ a < wordCount, table (a / 2 ^ t * 2 ^ t) = table a) :
    ((touchedPages range).image table).card ≤
      (range.front + range.bytes - 1) / 2 ^ t + 1 - range.front / 2 ^ t := by
  have hsub : (touchedPages range).image table ⊆
      (Finset.Icc (range.front / 2 ^ t) ((range.front + range.bytes - 1) / 2 ^ t)).image
        fun k => table (k * 2 ^ t) := by
    intro x hx
    obtain ⟨a, ha, rfl⟩ := mem_image.1 hx
    obtain ⟨i, hi, rfl⟩ := mem_image.1 ha
    rw [mem_range] at hi
    have hpage : rounddown (range.front + i) kPageSize / 2 ^ t = (range.front + i) / 2 ^ t := by
      obtain ⟨d, rfl⟩ := Nat.exists_eq_add_of_le ht
      have hsize : kPageSize = 2 ^ 12 := rfl
      rw [rounddown, hsize, Nat.pow_add, ← Nat.div_div_eq_div_mul, ← Nat.div_div_eq_div_mul,
        Nat.mul_div_cancel _ (Nat.two_pow_pos 12)]
    refine mem_image.2 ⟨(range.front + i) / 2 ^ t, mem_Icc.2 ⟨?_, ?_⟩, ?_⟩
    · exact Nat.div_le_div_right (by omega)
    · exact Nat.div_le_div_right (by omega)
    · rw [← hpage]
      refine htable _ ?_
      have hle : rounddown (range.front + i) kPageSize ≤ range.front + i := Nat.div_mul_le_self ..
      omega
  calc ((touchedPages range).image table).card
      ≤ (Finset.Icc (range.front / 2 ^ t) ((range.front + range.bytes - 1) / 2 ^ t)).card :=
        (card_le_card hsub).trans card_image_le
    _ = (range.front + range.bytes - 1) / 2 ^ t + 1 - range.front / 2 ^ t := card_Icc ..

lemma CanonicalRange.not_whole (h : CanonicalRange pm range) (hbits : pm.mVaddrBits < 64)
    (ht : t ≤ 62) : 2 ^ t ≤ range.front ∨ range.front + range.bytes ≤ wordCount - 2 ^ t := by
  have hpow : 2 ^ t ≤ 2 ^ 62 := Nat.pow_le_pow_right (by decide) ht
  by_contra hnot
  have hword : wordCount = 2 ^ 64 := rfl
  have hin : range.front + (2 ^ 62 - range.front) = 2 ^ 62 := by omega
  have hcanonical := h.canonical (2 ^ 62 - range.front) (by omega)
  rw [hin] at hcanonical
  exact not_canonical_middle hbits (by decide) (by decide) hcanonical

lemma CanonicalRange.card_le_covered (h : CanonicalRange pm range) (hbits : pm.mVaddrBits < 64)
    {T : Type*} [DecidableEq T] {table : Nat → T} (ht : 12 ≤ t) (ht' : t ≤ 62)
    (htable : ∀ a < wordCount, table (a / 2 ^ t * 2 ^ t) = table a) :
    ((touchedPages range).image table).card ≤ getCoveredSegments range (2 ^ t) := by
  obtain ⟨hend, hbytes, hback⟩ := h.end_eq
  have hcovered := getCoveredSegments_eq (Nat.two_pow_pos t)
    (Nat.pow_dvd_pow 2 (by omega)) hend hbytes (h.not_whole hbits ht')
  rw [← hback] at hcovered
  rw [hcovered]
  exact card_touched_le hend hbytes ht htable

/-- The bound holds for every range of canonical addresses. -/
theorem touched_le_maxPagesForMapping (h : CanonicalRange pm range) (hbits : pm.mVaddrBits < 64) :
    (touchedPdpts range).card + (touchedPds range).card + (touchedPts range).card ≤
      maxPagesForMapping range := by
  obtain ⟨hend, hbytes, hback⟩ := h.end_eq
  have hpdpts : (touchedPdpts range).card ≤ getCoveredSegments range kPml4MemorySize := by
    refine h.card_le_covered hbits (t := 39) (by decide) (by decide) fun a ha => ?_
    exact addressPart_segment ha (by decide)
  have hpds : (touchedPds range).card ≤ getCoveredSegments range x64.kHugePageSize := by
    refine h.card_le_covered hbits (by decide) (by decide) fun a ha => ?_
    rw [addressPart_segment ha (by decide), addressPart_segment ha (by decide)]
  have htable : ∀ a < wordCount,
      (PageTables.addressPart (.ofNat 64 (a / 2 ^ 21 * 2 ^ 21)) 39,
        PageTables.addressPart (.ofNat 64 (a / 2 ^ 21 * 2 ^ 21)) 30,
        PageTables.addressPart (.ofNat 64 (a / 2 ^ 21 * 2 ^ 21)) 21) =
      (PageTables.addressPart (.ofNat 64 a) 39, PageTables.addressPart (.ofNat 64 a) 30,
        PageTables.addressPart (.ofNat 64 a) 21) := by
    intro a ha
    rw [addressPart_segment ha (by decide), addressPart_segment ha (by decide),
      addressPart_segment ha (by decide)]
  have hpts : (touchedPts range).card ≤ getCoveredSegments range x64.kLargePageSize :=
    h.card_le_covered hbits (by decide) (by decide) htable
  have hpts' : (touchedPts range).card ≤
      (range.front + range.bytes - 1) / 2 ^ 21 + 1 - range.front / 2 ^ 21 :=
    card_touched_le hend hbytes (by decide) htable
  have hlarge : x64.kLargePageSize = 2 ^ 21 := rfl
  rw [maxPagesForMapping]
  by_cases hsmall : range.bytes < x64.kLargePageSize
  · rw [if_pos hsmall]
    simp only
    split
    · -- A short range has a boundary in it at most.
      omega
    · rename_i hsame
      omega
  · rw [if_neg hsmall]
    simp only
    split <;> split <;> omega

lemma canonical_of_lt (ha : a < 2 ^ (pm.mVaddrBits - 1)) :
    pm.isCanonicalAddress (.ofNat 64 a) := by
  have hzero : BitVec.ofNat 64 a &&& pm.highMask = 0 := by
    refine BitVec.eq_of_getLsbD_eq fun i hi => ?_
    rw [BitVec.getLsbD_and, pm.getLsbD_highMask hi, BitVec.getLsbD_ofNat]
    by_cases hle : pm.mVaddrBits - 1 ≤ i
    · have hbit := testBit_eq_false_of_lt (ha.trans_le (Nat.pow_le_pow_right (by decide) hle))
      simp [hbit]
    · simp [hle]
  simp [PageBuilder.isCanonicalAddress, hzero]

/-- One page on either side of a boundary of 512 GiB. -/
theorem touched_le_of_boundary :
    (touchedPdpts ⟨2 ^ 39 - 4096, 2 ^ 39 + 4096⟩).card +
      (touchedPds ⟨2 ^ 39 - 4096, 2 ^ 39 + 4096⟩).card +
      (touchedPts ⟨2 ^ 39 - 4096, 2 ^ 39 + 4096⟩).card ≤
        maxPagesForMapping ⟨2 ^ 39 - 4096, 2 ^ 39 + 4096⟩ := by
  have hbytes : AnyRange.bytes ⟨2 ^ 39 - 4096, 2 ^ 39 + 4096⟩ = 8192 := by decide
  have hrange : CanonicalRange ⟨0xFFFFFFFFF000, 48, by decide, by decide⟩
      ⟨2 ^ 39 - 4096, 2 ^ 39 + 4096⟩ := by
    refine ⟨by decide, by decide, .inl (by decide), fun i hi => canonical_of_lt ?_⟩
    simp only
    omega
  exact touched_le_maxPagesForMapping hrange (by decide)

end BezOS
