import Mathlib.Data.Nat.Bitwise
import Mathlib.Data.Nat.Log
import Mathlib.Tactic.Common
import Mathlib.Tactic.IntervalCases
import Mathlib.Order.Bounds.Basic

/-!
# Size classes of the heap

The `detail` functions of `memory/detail/tlsf.hpp`. A size above `kSmallBufferSize` has the class
of its highest bit and, within the class, one of 32 steps; the small sizes share class 0, in steps
of 8 bytes. Each pair of class and step has a free list of its own.

The results relate the two formulas of the source: the index of the list of a size and the number
of lists a heap of a given size has.
-/

namespace BezOS
namespace Tlsf

open Nat

def kSmallBufferSize : Nat := 0x100
def kMemoryClassShift : Nat := 7
def kSecondLevelIndex : Nat := 5
def kMaxMemoryClass : Nat := 64 - kMemoryClassShift
def kSmallSizeStep : Nat := kSmallBufferSize / (1 <<< kSecondLevelIndex)

/-- `std::numeric_limits<TlsfBitMap>::digits`. -/
def kBitMapDigits : Nat := 32

/-- `BitScanLeading` of a `size_t`. -/
def bitScanLeading (mask : Nat) : Nat := if mask = 0 then 255 else Nat.log2 mask

def sizeToMemoryClass (size : Nat) : Nat :=
  if kSmallBufferSize < size then bitScanLeading size - kMemoryClassShift else 0

def sizeToSecondIndex (size memoryClass : Nat) : Nat :=
  if memoryClass = 0 then (size - 1) / 8
  else (size >>> (memoryClass + kMemoryClassShift - kSecondLevelIndex)) ^^^ (1 <<< kSecondLevelIndex)

def getFreeListSize (memoryClass secondIndex : Nat) : Nat :=
  if memoryClass = 0 then 0
  else (memoryClass - 1) * (1 <<< kSecondLevelIndex) + secondIndex + 1 + (1 <<< kSecondLevelIndex)

/-- `GetListIndex(uint8_t, uint16_t)`. -/
def getListIndexOf (memoryClass secondIndex : Nat) : Nat :=
  if memoryClass = 0 then secondIndex
  else (memoryClass - 1) * (1 <<< kSecondLevelIndex) + secondIndex + (1 <<< kSecondLevelIndex)

/-- `GetListIndex(size_t)`. -/
def getListIndex (size : Nat) : Nat :=
  getListIndexOf (sizeToMemoryClass size) (sizeToSecondIndex size (sizeToMemoryClass size))

def getNextBlockSize (size : Nat) : Nat :=
  if kSmallBufferSize < size then 1 <<< (bitScanLeading size - kSecondLevelIndex)
  else if kSmallBufferSize - kSmallSizeStep < size then kSmallBufferSize + 1
  else size + kSmallSizeStep

/-- The number of lists `create` allocates for a heap of this size. -/
def freeListCount (size : Nat) : Nat :=
  getFreeListSize (sizeToMemoryClass size) (sizeToSecondIndex size (sizeToMemoryClass size))

def secondIndex (size : Nat) : Nat := sizeToSecondIndex size (sizeToMemoryClass size)

/-! ## Classes and steps -/

variable {s t : Nat}

lemma memoryClass_small (h : s ≤ 256) : sizeToMemoryClass s = 0 := by
  rw [sizeToMemoryClass, if_neg]
  show ¬ 256 < s
  omega

lemma memoryClass_large (h : 256 < s) : sizeToMemoryClass s = Nat.log2 s - 7 := by
  rw [sizeToMemoryClass, if_pos (show kSmallBufferSize < s from h), bitScanLeading,
    if_neg (by omega)]
  rfl

lemma log2_large (h : 256 < s) : 8 ≤ Nat.log2 s :=
  (le_log2 (by omega)).2 (by omega)

lemma memoryClass_eq_zero_iff : sizeToMemoryClass s = 0 ↔ s ≤ 256 := by
  constructor
  · intro h
    by_contra hs
    have hlog := log2_large (s := s) (by omega)
    rw [memoryClass_large (by omega)] at h
    omega
  · exact memoryClass_small

lemma memoryClass_lt_iff {c : Nat} (hc : 0 < c) :
    sizeToMemoryClass s < c ↔ s < 2 ^ (c + 7) ∨ s ≤ 256 := by
  by_cases hs : s ≤ 256
  · rw [memoryClass_small hs]
    exact ⟨fun _ => .inr hs, fun _ => hc⟩
  · have hlog := log2_large (s := s) (by omega)
    have hiff : Nat.log2 s < c + 7 ↔ s < 2 ^ (c + 7) := log2_lt (by omega)
    rw [memoryClass_large (by omega)]
    omega

lemma xor_step {x : Nat} (h : 32 ≤ x) (h' : x < 64) : x ^^^ (1 <<< kSecondLevelIndex) = x - 32 := by
  interval_cases x <;> rfl

lemma leading_bits (h : 256 < s) :
    32 ≤ s / 2 ^ (Nat.log2 s - 5) ∧ s / 2 ^ (Nat.log2 s - 5) < 64 := by
  have hlog := log2_large h
  have hle : 2 ^ Nat.log2 s ≤ s := log2_self_le (by omega)
  have hlt : s < 2 ^ (Nat.log2 s + 1) := lt_log2_self
  have hpos : 0 < 2 ^ (Nat.log2 s - 5) := Nat.two_pow_pos _
  constructor
  · rw [Nat.le_div_iff_mul_le hpos]
    calc 32 * 2 ^ (Nat.log2 s - 5) = 2 ^ (5 + (Nat.log2 s - 5)) := by rw [Nat.pow_add]
      _ = 2 ^ Nat.log2 s := by congr 1; omega
      _ ≤ s := hle
  · rw [Nat.div_lt_iff_lt_mul hpos]
    calc s < 2 ^ (Nat.log2 s + 1) := hlt
      _ = 2 ^ (6 + (Nat.log2 s - 5)) := by congr 1; omega
      _ = 64 * 2 ^ (Nat.log2 s - 5) := by rw [Nat.pow_add]

lemma secondIndex_small (h : s ≤ 256) : secondIndex s = (s - 1) / 8 := by
  rw [secondIndex, sizeToSecondIndex, if_pos (memoryClass_small h)]

lemma secondIndex_large (h : 256 < s) : secondIndex s = s / 2 ^ (Nat.log2 s - 5) - 32 := by
  have hlog := log2_large h
  have hne : sizeToMemoryClass s ≠ 0 := by
    rw [memoryClass_large h]
    omega
  have hshift : sizeToMemoryClass s + kMemoryClassShift - kSecondLevelIndex = Nat.log2 s - 5 := by
    rw [memoryClass_large h, kMemoryClassShift, kSecondLevelIndex]
    omega
  rw [secondIndex, sizeToSecondIndex, if_neg hne, hshift, shiftRight_eq_div_pow]
  exact xor_step (leading_bits h).1 (leading_bits h).2

lemma secondIndex_lt (s : Nat) : secondIndex s < 32 := by
  by_cases h : s ≤ 256
  · rw [secondIndex_small h]
    omega
  · have hbits := leading_bits (s := s) (by omega)
    rw [secondIndex_large (by omega)]
    omega

lemma getListIndexOf_eq (c i : Nat) : getListIndexOf c i = 32 * c + i := by
  rw [getListIndexOf, show 1 <<< kSecondLevelIndex = 32 from rfl]
  split <;> omega

lemma getListIndex_eq (s : Nat) : getListIndex s = 32 * sizeToMemoryClass s + secondIndex s :=
  getListIndexOf_eq _ _

lemma memoryClass_mono (h : s ≤ t) : sizeToMemoryClass s ≤ sizeToMemoryClass t := by
  by_cases hs : s ≤ 256
  · rw [memoryClass_small hs]
    exact Nat.zero_le _
  · rw [memoryClass_large (by omega), memoryClass_large (by omega)]
    have hlog : Nat.log2 s ≤ Nat.log2 t := by
      rw [le_log2 (by omega)]
      exact (log2_self_le (by omega)).trans h
    omega

lemma secondIndex_mono (h : s ≤ t) (hc : sizeToMemoryClass s = sizeToMemoryClass t) :
    secondIndex s ≤ secondIndex t := by
  by_cases hs : s ≤ 256
  · have ht : t ≤ 256 := memoryClass_eq_zero_iff.1 (by rw [← hc, memoryClass_small hs])
    rw [secondIndex_small hs, secondIndex_small ht]
    omega
  · have hlogs := log2_large (s := s) (by omega)
    rw [memoryClass_large (by omega), memoryClass_large (by omega)] at hc
    have hlog : Nat.log2 s = Nat.log2 t := by omega
    rw [secondIndex_large (by omega), secondIndex_large (by omega), hlog]
    exact Nat.sub_le_sub_right (Nat.div_le_div_right h) _

lemma getListIndex_mono (h : s ≤ t) : getListIndex s ≤ getListIndex t := by
  have hclass := memoryClass_mono h
  have hs := secondIndex_lt s
  rw [getListIndex_eq, getListIndex_eq]
  rcases hclass.lt_or_eq with hlt | heq
  · omega
  · have hsecond := secondIndex_mono h heq
    omega

lemma lt_of_getListIndex_lt (h : getListIndex s < getListIndex t) : s < t := by
  by_contra hle
  have hmono := getListIndex_mono (s := t) (t := s) (by omega)
  omega

lemma freeListCount_small (h : s ≤ 256) : freeListCount s = 0 := by
  rw [freeListCount, getFreeListSize, if_pos (memoryClass_small h)]

lemma freeListCount_large (h : 256 < s) : freeListCount s = getListIndex s + 1 := by
  have hne : sizeToMemoryClass s ≠ 0 := fun hzero => by
    have hle := memoryClass_eq_zero_iff.1 hzero
    omega
  rw [freeListCount, getFreeListSize, if_neg hne, getListIndex, getListIndexOf, if_neg hne]
  omega

lemma getNextBlockSize_lt (h : s < 2 ^ 38) : getNextBlockSize s < 2 ^ 38 := by
  rw [getNextBlockSize]
  split
  case isTrue hs =>
    have hs : 256 < s := hs
    have hle : 2 ^ Nat.log2 s ≤ s := log2_self_le (by omega)
    rw [bitScanLeading, if_neg (by omega), shiftLeft_eq, Nat.one_mul]
    calc 2 ^ (Nat.log2 s - kSecondLevelIndex) ≤ 2 ^ Nat.log2 s :=
          Nat.pow_le_pow_right (by decide) (Nat.sub_le _ _)
      _ ≤ s := hle
      _ < 2 ^ 38 := h
  case isFalse hs =>
    rw [show kSmallBufferSize = 256 from rfl, show kSmallSizeStep = 8 from rfl]
    split <;> omega

/-! ## Indices within bounds -/

/-- What the operations derive from the size of a block: the list it is taken from, released to or
looked for in, the entry of the inner bitmap array, and the two bits `1u << secondIndex` and
`1u << memoryClass`. The list that `findFreeBlock` goes to is the list of a block that was
released, so it is one of these too. -/
structure BlockIndicesSafe (count size : Nat) : Prop where
  list : getListIndex size < count
  inner : sizeToMemoryClass size < kMaxMemoryClass
  innerBit : secondIndex size < kBitMapDigits
  topBit : sizeToMemoryClass size < kBitMapDigits

/-- What `findFreeBlock` derives from the size it is asked for, once it is past its early return:
the entry of the inner bitmap array and the two shifts of `BitMap(~0)`. -/
structure RequestIndicesSafe (size : Nat) : Prop where
  inner : sizeToMemoryClass size ≤ kBitMapDigits → sizeToMemoryClass size < kMaxMemoryClass
  innerShift : sizeToMemoryClass size ≤ kBitMapDigits → secondIndex size < kBitMapDigits
  topShift : sizeToMemoryClass size ≤ kBitMapDigits → sizeToMemoryClass size + 1 < kBitMapDigits

/-- Every size a heap of `heapSize` bytes meets is safe: the sizes of its blocks, and for a request
the size itself and the size `allocBestFit` tries after it. -/
def IndexSafe (heapSize : Nat) : Prop :=
  ∀ size, 1 ≤ size → size ≤ heapSize → BlockIndicesSafe (freeListCount heapSize) size ∧
    RequestIndicesSafe size ∧ RequestIndicesSafe (getNextBlockSize size)

lemma memoryClass_lt_of_lt (h : s < 2 ^ 38) : sizeToMemoryClass s < 31 :=
  (memoryClass_lt_iff (by decide)).2 (.inl h)

lemma blockIndicesSafe (h : s ≤ t) (ht : 256 < t) (ht' : t < 2 ^ 38) :
    BlockIndicesSafe (freeListCount t) s := by
  have hclass := memoryClass_lt_of_lt (s := s) (by omega)
  have hmono := getListIndex_mono h
  refine ⟨?_, ?_, secondIndex_lt s, ?_⟩
  · rw [freeListCount_large ht]
    omega
  · rw [show kMaxMemoryClass = 57 from rfl]
    omega
  · rw [show kBitMapDigits = 32 from rfl]
    omega

lemma requestIndicesSafe (h : s < 2 ^ 38) : RequestIndicesSafe s := by
  have hclass := memoryClass_lt_of_lt h
  refine ⟨fun _ => ?_, fun _ => secondIndex_lt s, fun _ => ?_⟩
  · rw [show kMaxMemoryClass = 57 from rfl]
    omega
  · rw [show kBitMapDigits = 32 from rfl]
    omega

/-- A heap of at most 256 bytes has no lists at all, and a request of 2^38 bytes is the first for
which the shift by the class after its own is too wide. -/
theorem indexSafe_iff {heapSize : Nat} (h : 1 ≤ heapSize) :
    IndexSafe heapSize ↔ 256 < heapSize ∧ heapSize < 2 ^ 38 := by
  constructor
  · intro hsafe
    constructor
    · by_contra hsmall
      have hlist := (hsafe 1 le_rfl h).1.list
      rw [freeListCount_small (by omega)] at hlist
      exact Nat.not_lt_zero _ hlist
    · by_contra hlarge
      have htop := (hsafe (2 ^ 38) (by omega) (by omega)).2.1.topShift
      exact absurd (htop (by decide +kernel)) (by decide +kernel)
  · rintro ⟨hsmall, hlarge⟩ size _ hle
    have hlt : size < 2 ^ 38 := by omega
    exact ⟨blockIndicesSafe hle hsmall hlarge, requestIndicesSafe hlt,
      requestIndicesSafe (getNextBlockSize_lt hlt)⟩

theorem indexSafe_page : 1 ≤ 4096 ∧ (IndexSafe 4096 ↔ 256 < 4096 ∧ 4096 < 2 ^ 38) :=
  ⟨by decide, indexSafe_iff (by decide)⟩

/-- In a heap of 64 bytes a block of 8 bytes belongs to the list 0 of none. -/
theorem smallHeap_not_indexSafe : ¬ IndexSafe 64 := by
  intro hsafe
  have hlist := (hsafe 8 (by decide) (by decide)).1.list
  exact absurd hlist (by decide)

end Tlsf
end BezOS

/-!
## The order of the size classes

The lists are in the order of the sizes, so that every block of a later list is large enough. The
list `allocBestFit` goes on from is to be the first of them. It is for most small sizes. For a size
that begins a step it is one too late, and for a size above `kSmallBufferSize` it is the list of the
step alone, whose blocks are too small.
-/

namespace BezOS
namespace Tlsf

variable {s t b i : Nat}

/-- The lists whose every block is large enough. -/
def LargeEnough (s : Nat) : Set Nat :=
  { i | ∀ b, 0 < b → b < 2 ^ 64 → getListIndex b = i → s ≤ b }

/-- What the lists owe to the sizes, and the search to a request. -/
structure OrderPreserving (s : Nat) : Prop where
  mono : ∀ a b, 0 < a → a ≤ b → b < 2 ^ 64 → getListIndex a ≤ getListIndex b
  above : ∀ b, 0 < b → b < 2 ^ 64 → getListIndex s < getListIndex b → s ≤ b
  start : IsLeast (LargeEnough s) (getListIndex (getNextBlockSize s))

lemma getListIndex_small (h : s ≤ 256) : getListIndex s = (s - 1) / 8 := by
  rw [getListIndex_eq, memoryClass_small h, secondIndex_small h, Nat.mul_zero, Nat.zero_add]

lemma getListIndex_large (h : 256 < s) : 32 ≤ getListIndex s := by
  have hclass : sizeToMemoryClass s ≠ 0 := fun hzero => by
    have hle := memoryClass_eq_zero_iff.1 hzero
    omega
  rw [getListIndex_eq]
  omega

lemma getListIndex_next_small (hpos : 0 < s) (h : s ≤ 256) :
    getListIndex (getNextBlockSize s) = getListIndex s + 1 := by
  have hnot : ¬ kSmallBufferSize < s := Nat.not_lt.2 h
  rw [getNextBlockSize, if_neg hnot, getListIndex_small h]
  split
  · rename_i hlast
    have hlast : 248 < s := hlast
    have hfirst : getListIndex (kSmallBufferSize + 1) = 32 := by decide
    omega
  · rename_i hlast
    have hlast : ¬ 248 < s := hlast
    have hstep : kSmallSizeStep = 8 := rfl
    rw [hstep, getListIndex_small (by omega)]
    omega

lemma next_lt_of_large (h : 256 < s) :
    0 < getNextBlockSize s ∧ getNextBlockSize s < s := by
  have hlarge : kSmallBufferSize < s := h
  have hlog := log2_large h
  have hle : 2 ^ Nat.log2 s ≤ s := Nat.log2_self_le (by omega)
  have hpos : 0 < 2 ^ (Nat.log2 s - 5) := Nat.two_pow_pos _
  have hsplit : 2 ^ Nat.log2 s = 2 ^ (Nat.log2 s - 5) * 2 ^ 5 := by
    rw [← Nat.pow_add]
    congr 1
    omega
  have hstep : kSecondLevelIndex = 5 := rfl
  rw [getNextBlockSize, if_pos hlarge, bitScanLeading, if_neg (by omega), Nat.one_shiftLeft, hstep]
  omega

lemma start_small (hpos : 0 < s) (h : s ≤ 256) (hstep : s % 8 ≠ 1) :
    IsLeast (LargeEnough s) (getListIndex (getNextBlockSize s)) := by
  rw [getListIndex_next_small hpos h]
  constructor
  · intro b _ _ hb
    exact (lt_of_getListIndex_lt (by omega)).le
  · -- the first block of an earlier list is smaller
    intro i hi
    by_contra hlt
    rw [getListIndex_small h] at hlt
    have hindex : getListIndex (8 * i + 1) = i := by
      rw [getListIndex_small (by omega)]
      omega
    have hle := hi (8 * i + 1) (Nat.succ_pos _) (by omega) hindex
    omega

lemma not_start_of_step (hpos : 0 < s) (h : s ≤ 256) (hstep : s % 8 = 1) :
    ¬ IsLeast (LargeEnough s) (getListIndex (getNextBlockSize s)) := by
  intro hleast
  have hown : getListIndex s ∈ LargeEnough s := by
    intro b _ _ hb
    have hsmall : b ≤ 256 := by
      by_contra hlarge
      have hfar := getListIndex_large (s := b) (by omega)
      rw [hb, getListIndex_small h] at hfar
      omega
    rw [getListIndex_small hsmall, getListIndex_small h] at hb
    omega
  have hle := hleast.2 hown
  rw [getListIndex_next_small hpos h] at hle
  omega

lemma not_start_of_large (h : 256 < s) (hlt : s < 2 ^ 64) :
    ¬ IsLeast (LargeEnough s) (getListIndex (getNextBlockSize s)) := by
  intro hleast
  obtain ⟨hpos, hnext⟩ := next_lt_of_large h
  have hle := hleast.1 (getNextBlockSize s) hpos (by omega) rfl
  omega

/-- The lists are in the order of the sizes, and the search goes on from the first list that is
large enough exactly for the small sizes that do not begin a step. -/
theorem orderPreserving_iff (hpos : 0 < s) (hlt : s < 2 ^ 64) :
    OrderPreserving s ↔ s ≤ 256 ∧ s % 8 ≠ 1 := by
  constructor
  · intro h
    by_cases hsmall : s ≤ 256
    · exact ⟨hsmall, fun hstep => not_start_of_step hpos hsmall hstep h.start⟩
    · exact absurd h.start (not_start_of_large (by omega) hlt)
  · rintro ⟨hsmall, hstep⟩
    exact ⟨fun a b _ hab _ => getListIndex_mono hab,
      fun b _ _ hb => (lt_of_getListIndex_lt hb).le, start_small hpos hsmall hstep⟩

theorem orderPreserving_iff_page :
    0 < 4096 ∧ 4096 < 2 ^ 64 ∧ (OrderPreserving 4096 ↔ 4096 ≤ 256 ∧ 4096 % 8 ≠ 1) :=
  ⟨by decide, by decide, orderPreserving_iff (by decide) (by decide)⟩

/-- A request for a page goes on from the list of 128 bytes. -/
theorem page_not_orderPreserving : getNextBlockSize 4096 = 128 ∧
    getListIndex (getNextBlockSize 4096) = 15 ∧ getListIndex 4096 = 160 ∧
    ¬ OrderPreserving 4096 := by
  refine ⟨by decide +kernel, by decide +kernel, by decide +kernel, fun h => ?_⟩
  have hle := h.start.1 128 (by decide) (by decide) (by decide +kernel)
  omega

end Tlsf
end BezOS
