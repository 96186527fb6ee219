import BezOS.Lib.Bitmap
import BezOS.Memory.TableAllocator

/-!
# The bitmap allocator

`mem::BitmapAllocator` of `allocator/bitmap.cpp`: a region of memory handed out in units, with one
bit per unit in a bitmap that stands at the front of the region it describes. Addresses and sizes
are 64-bit words; `SIZE_MAX`, the answer of a failed scan, is `none`.
-/

namespace BezOS

open Lib

structure BitmapAllocator where
  mFront : Nat
  mBack : Nat
  mUnit : Nat
  /-- The bytes of `bitmap()`, which start at `mFront`. -/
  bits : List UInt8
  deriving DecidableEq

/-- The loop of `ScanBitsForwards` over the bits `i, …, i + n - 1`. -/
def scanLoop (bits : List UInt8) (count align : Nat) : Nat → Nat → Nat → Nat → Nat × Nat
  | 0, _, start, length => (start, length)
  | n + 1, i, start, length =>
      if length = 0 ∧ i % align ≠ 0 then scanLoop bits count align n (i + 1) start length
      else if testBit bits i then
        -- the break after a used bit is only taken for an empty run
        if 0 ≥ count then (i + 1, 0) else scanLoop bits count align n (i + 1) (i + 1) 0
      else if length + 1 ≥ count then (start, length + 1)
      else scanLoop bits count align n (i + 1) start (length + 1)

def scanBitsForwards (bits : List UInt8) (count align : Nat) : Option Nat :=
  let (start, length) := scanLoop bits count align (bits.length * 8) 0 0 0
  if length < count then none else some start

namespace BitmapAllocator

def size (a : BitmapAllocator) : Nat := wrapSub wordCount a.mBack a.mFront

def bitmapBitCount (a : BitmapAllocator) : Nat := a.size / a.mUnit

def bitmapWordCount (a : BitmapAllocator) : Nat := a.bitmapBitCount / 8

def memoryFront (a : BitmapAllocator) : Nat :=
  wrapAdd wordCount a.mFront (roundup a.bitmapWordCount a.mUnit)

def memoryBack (a : BitmapAllocator) : Nat := a.mBack

def init (front back unit : Nat) : BitmapAllocator :=
  let a : BitmapAllocator := ⟨front, back, unit, []⟩
  { a with bits := List.replicate a.bitmapWordCount 0 }

def allocateBitmapSpace (a : BitmapAllocator) (count align : Nat) :
    Option Nat × BitmapAllocator :=
  match scanBitsForwards a.bits count align with
  | none => (none, a)
  | some start => (some start, { a with bits := setBitRange a.bits start count })

/-- `allocateAligned`; a null pointer is `none`. -/
def allocateAligned (a : BitmapAllocator) (size align : Nat) : Option Nat × BitmapAllocator :=
  let align := roundup align a.mUnit
  let size := roundup size a.mUnit
  match a.allocateBitmapSpace (size / a.mUnit) (align / a.mUnit) with
  | (none, a) => (none, a)
  | (some front, a) => (some (wrapAdd wordCount a.memoryFront (front * a.mUnit)), a)

def allocate (a : BitmapAllocator) (size : Nat) : Option Nat × BitmapAllocator :=
  a.allocateAligned size a.mUnit

def deallocate (a : BitmapAllocator) (ptr size : Nat) : BitmapAllocator :=
  if ptr < a.memoryFront ∨ ptr ≥ a.memoryBack then a
  else
    let size := roundup size a.mUnit
    let offset := ptr - a.memoryFront
    let front := offset / a.mUnit
    { a with bits := clearBitRange a.bits front (size / a.mUnit) }

end BitmapAllocator
end BezOS

/-!
## What the bit scan finds

`ScanBitsForwards` counts a run of free bits from a multiple of the alignment on, and reports the
bit after the last used one it looked at. The two are the same bit unless unaligned bits were
skipped in between. The loop is followed with one invariant, from which come the first aligned
free run and the condition under which the reported bit is its first.
-/

namespace BezOS

open Lib

/-- The first aligned run of `count` free bits starts at `j`. -/
structure FirstFit (bits : List UInt8) (count align j : Nat) : Prop where
  aligned : j % align = 0
  bound : j + count ≤ 8 * bits.length
  free : ∀ k, j ≤ k → k < j + count → testBit bits k = false
  first : ∀ i < j, i % align = 0 → ∃ k, i ≤ k ∧ k < i + count ∧ testBit bits k = true

instance (bits : List UInt8) (count align j : Nat) : Decidable (FirstFit bits count align j) :=
  decidable_of_iff (j % align = 0 ∧ j + count ≤ 8 * bits.length ∧
      (∀ k < j + count, j ≤ k → testBit bits k = false) ∧
      ∀ i < j, i % align = 0 → ∃ k < i + count, i ≤ k ∧ testBit bits k = true)
    ⟨fun h => ⟨h.1, h.2.1, fun k hk hlt => h.2.2.1 k hlt hk, fun i hi hmod =>
        (h.2.2.2 i hi hmod).imp fun _ hk => ⟨hk.2.1, hk.1, hk.2.2⟩⟩,
      fun h => ⟨h.aligned, h.bound, fun k hlt hk => h.free k hk hlt, fun i hi hmod =>
        (h.first i hi hmod).imp fun _ hk => ⟨hk.2.1, hk.1, hk.2.2⟩⟩⟩

/-- Nothing is skipped before `j`: it is the first bit, or the bit before it is used and the
others since the aligned bit before are free. -/
def Flush (bits : List UInt8) (align j : Nat) : Prop :=
  j = 0 ∨ (testBit bits (j - 1) = true ∧ ∀ k < j - 1, j ≤ k + align → testBit bits k = false)

instance (bits : List UInt8) (align j : Nat) : Decidable (Flush bits align j) :=
  inferInstanceAs (Decidable (_ ∨ (_ ∧ ∀ k < j - 1, j ≤ k + align → testBit bits k = false)))

/-- The scan stands before bit `i` with `length` free bits counted. -/
structure Scanning (bits : List UInt8) (count align i start length : Nat) : Prop where
  length_le : length ≤ i
  length_lt : length < count
  -- a run in progress
  aligned : 0 < length → (i - length) % align = 0
  free : ∀ k, i - length ≤ k → k < i → 0 < length → testBit bits k = false
  flush : 0 < length → Flush bits align (i - length) → start = i - length
  -- no run in progress: only unaligned bits since the last used one
  skipped : length = 0 → (start = 0 ∧ i = 0) ∨
    (0 < start ∧ start ≤ i ∧ testBit bits (start - 1) = true ∧
      ∀ k, start ≤ k → k < i → k % align ≠ 0)
  first : ∀ j < i - length, j % align = 0 → ∃ k, j ≤ k ∧ k < j + count ∧ testBit bits k = true

variable {bits : List UInt8} {count align i start length n : Nat}

lemma Scanning.init (hcount : 0 < count) : Scanning bits count align 0 0 0 where
  length_le := le_refl _
  length_lt := hcount
  aligned := by simp
  free := by simp
  flush := by simp
  skipped := by simp
  first := by simp

lemma Scanning.skip (h : Scanning bits count align i start 0) (hi : i % align ≠ 0) :
    Scanning bits count align (i + 1) start 0 where
  length_le := Nat.zero_le _
  length_lt := h.length_lt
  aligned := by simp
  free := by simp
  flush := by simp
  skipped := by
    intro _
    rcases h.skipped rfl with ⟨-, rfl⟩ | ⟨hpos, hle, hused, hskip⟩
    · simp at hi
    · refine .inr ⟨hpos, by omega, hused, fun k hk hlt => ?_⟩
      by_cases hki : k = i
      · rwa [hki]
      · exact hskip k hk (by omega)
  first := by
    intro j hj hmod
    by_cases hji : j = i
    · exact absurd (hji ▸ hmod) hi
    · exact h.first j (by omega) hmod

lemma Scanning.used (h : Scanning bits count align i start length)
    (hused : testBit bits i = true) : Scanning bits count align (i + 1) (i + 1) 0 where
  length_le := Nat.zero_le _
  length_lt := by have := h.length_lt; omega
  aligned := by simp
  free := by simp
  flush := by simp
  skipped := by
    intro _
    exact .inr ⟨by omega, le_refl _, by simpa using hused, by omega⟩
  first := by
    intro j hj hmod
    by_cases hlt : j < i - length
    · exact h.first j hlt hmod
    · -- every run that starts in the one just lost would need the used bit too
      have hlen := h.length_lt
      exact ⟨i, by omega, by omega, hused⟩

lemma Scanning.start_flush (h : Scanning bits count align i start 0) (hi : i % align = 0)
    (hflush : Flush bits align i) : start = i := by
  rcases h.skipped rfl with ⟨rfl, rfl⟩ | ⟨hpos, hle, hused, hskip⟩
  · rfl
  · by_contra hne
    have halign : 0 < align := by
      refine Nat.pos_of_ne_zero fun hzero => ?_
      rw [hzero, Nat.mod_zero] at hi
      omega
    rcases hflush with rfl | ⟨-, hfree⟩
    · omega
    · -- the last used bit lies after the aligned bit before `i`
      have hnear : i ≤ start - 1 + align := by
        by_contra hfar
        have hback : (i - align) % align = 0 := by
          rw [← Nat.mod_eq_sub_mod (by omega)]
          exact hi
        exact hskip (i - align) (by omega) (by omega) hback
      have hclear := hfree (start - 1) (by omega) hnear
      rw [hused] at hclear
      cases hclear

/-- One more free bit of a run, or the first of a new one. -/
structure Counted (bits : List UInt8) (count align i start length : Nat) : Prop where
  length_le : length < i
  aligned : (i - (length + 1)) % align = 0
  free : ∀ k, i - (length + 1) ≤ k → k < i → testBit bits k = false
  flush : Flush bits align (i - (length + 1)) → start = i - (length + 1)
  first : ∀ j < i - (length + 1), j % align = 0 →
    ∃ k, j ≤ k ∧ k < j + count ∧ testBit bits k = true

lemma Scanning.counted (h : Scanning bits count align i start length)
    (hi : ¬ (length = 0 ∧ i % align ≠ 0)) (hfree : testBit bits i = false) :
    Counted bits count align (i + 1) start length := by
  have hle := h.length_le
  have hrun : i + 1 - (length + 1) = i - length := by omega
  have haligned : (i - length) % align = 0 := by
    rcases Nat.eq_zero_or_pos length with rfl | hpos
    · simpa using hi
    · exact h.aligned hpos
  refine ⟨by omega, by rwa [hrun], ?_, ?_, by rw [hrun]; exact h.first⟩
  · intro k hk hlt
    by_cases hki : k = i
    · rwa [hki]
    · exact h.free k (by omega) (by omega) (by omega)
  · rw [hrun]
    intro hflush
    rcases Nat.eq_zero_or_pos length with rfl | hpos
    · exact h.start_flush haligned hflush
    · exact h.flush hpos hflush

lemma Counted.scanning (h : Counted bits count align i start length) (hlt : length + 1 < count) :
    Scanning bits count align i start (length + 1) where
  length_le := h.length_le
  length_lt := hlt
  aligned := fun _ => h.aligned
  free := fun k hk hki _ => h.free k hk hki
  flush := fun _ => h.flush
  skipped := by omega
  first := h.first

lemma Counted.firstFit (h : Counted bits count align i start length) (hge : count ≤ length + 1)
    (hi : i ≤ 8 * bits.length) : FirstFit bits count align (i - (length + 1)) where
  aligned := h.aligned
  bound := by have := h.length_le; omega
  free := fun k hk hlt => h.free k hk (by have := h.length_le; omega)
  first := h.first

lemma scanLoop_spec (hn : i + n = 8 * bits.length)
    (h : Scanning bits count align i start length) {start' length' : Nat}
    (hloop : scanLoop bits count align n i start length = (start', length'))
    (hlen : count ≤ length') :
    ∃ j, FirstFit bits count align j ∧ (Flush bits align j → start' = j) := by
  induction n generalizing i start length with
  | zero =>
    cases hloop
    exact absurd h.length_lt (by omega)
  | succ n ih =>
    rw [scanLoop] at hloop
    by_cases hskip : length = 0 ∧ i % align ≠ 0
    · rw [if_pos hskip] at hloop
      obtain ⟨rfl, hi⟩ := hskip
      exact ih (by omega) (h.skip hi) hloop
    · rw [if_neg hskip] at hloop
      by_cases hused : testBit bits i = true
      · have hcount : ¬ 0 ≥ count := by have := h.length_lt; omega
        rw [if_pos hused, if_neg hcount] at hloop
        exact ih (by omega) (h.used hused) hloop
      · rw [if_neg hused] at hloop
        have hcounted := h.counted hskip (by simpa using hused)
        by_cases hdone : length + 1 ≥ count
        · rw [if_pos hdone] at hloop
          cases hloop
          have hfit := hcounted.firstFit hdone (by omega)
          exact ⟨_, hfit, hcounted.flush⟩
        · rw [if_neg hdone] at hloop
          exact ih (by omega) (hcounted.scanning (by omega)) hloop

lemma scanBitsForwards_spec (hcount : 0 < count)
    (h : scanBitsForwards bits count align = some start) :
    ∃ j, FirstFit bits count align j ∧ (Flush bits align j → start = j) := by
  rw [scanBitsForwards] at h
  cases hloop : scanLoop bits count align (bits.length * 8) 0 0 0 with
  | mk start' length' =>
    rw [hloop] at h
    simp only [Option.ite_none_left_eq_some, Option.some_inj, not_lt] at h
    obtain ⟨hlen, rfl⟩ := h
    exact scanLoop_spec (by omega) (Scanning.init hcount) hloop hlen

lemma scanBitsForwards_zero :
    scanBitsForwards bits 0 align = some (if testBit bits 0 = true then 1 else 0) := by
  rw [scanBitsForwards]
  cases bits with
  | nil => rfl
  | cons b rest =>
    rw [List.length_cons, Nat.succ_mul, Nat.add_succ, scanLoop]
    by_cases hused : testBit (b :: rest) 0 = true <;> simp [hused]

end BezOS
