import Mathlib.Data.List.Basic
import Mathlib.Tactic.Common
import Mathlib.Tactic.IntervalCases

/-!
# Bitmaps

A byte array read as a sequence of bits, least significant bit of the first byte first, with the
two ways a run of bits is written: all set, all cleared.
-/

namespace BezOS
namespace Lib

open List

/-- `1 << (i % CHAR_BIT)`. -/
def bitMask (i : Nat) : UInt8 := 1 <<< UInt8.ofNat (i % 8)

def testBit (bits : List UInt8) (i : Nat) : Bool := bits.getD (i / 8) 0 &&& bitMask i != 0

def setBit (bits : List UInt8) (i : Nat) : List UInt8 := bits.modify (i / 8) (· ||| bitMask i)

def clearBit (bits : List UInt8) (i : Nat) : List UInt8 := bits.modify (i / 8) (· &&& ~~~ bitMask i)

def setBitRange (bits : List UInt8) (start count : Nat) : List UInt8 :=
  (range' start count).foldl setBit bits

def clearBitRange (bits : List UInt8) (start count : Nat) : List UInt8 :=
  (range' start count).foldl clearBit bits

variable {bits : List UInt8} {i j start count : Nat}

lemma getLsbD_bitMask (i k : Nat) :
    (bitMask i).toBitVec.getLsbD k = decide (k = i % 8) := by
  have hi : i % 8 < 8 := Nat.mod_lt _ (by decide)
  generalize hm : i % 8 = m at hi
  have hmask : bitMask i = 1 <<< UInt8.ofNat m := by rw [bitMask, hm]
  rw [hmask]
  by_cases hk : k < 8
  · interval_cases m <;> interval_cases k <;> rfl
  · rw [BitVec.getLsbD_of_ge _ _ (by omega)]
    simp only [Bool.false_eq, decide_eq_false_iff_not]
    omega

lemma and_bitMask_bne_zero (b : UInt8) (i : Nat) :
    (b &&& bitMask i != 0) = b.toBitVec.getLsbD (i % 8) := by
  have hbit : ∀ k, (b &&& bitMask i).toBitVec.getLsbD k =
      (b.toBitVec.getLsbD k && decide (k = i % 8)) := by
    intro k
    rw [UInt8.toBitVec_and, BitVec.getLsbD_and, getLsbD_bitMask]
  cases h : b.toBitVec.getLsbD (i % 8) with
  | true =>
    rw [bne_iff_ne]
    intro heq
    have hzero := hbit (i % 8)
    rw [heq, h] at hzero
    simp at hzero
  | false =>
    rw [bne_eq_false_iff_eq]
    refine UInt8.toBitVec_inj.1 (BitVec.eq_of_getLsbD_eq fun k _ => ?_)
    rw [hbit k]
    by_cases hk : k = i % 8
    · subst hk
      simp [h]
    · simp [hk]

lemma testBit_eq (bits : List UInt8) (i : Nat) :
    testBit bits i = (bits.getD (i / 8) 0).toBitVec.getLsbD (i % 8) :=
  and_bitMask_bne_zero _ _

lemma bit_eq_iff (i j : Nat) : i = j ↔ i / 8 = j / 8 ∧ i % 8 = j % 8 := by
  omega

lemma testBit_of_ge (h : 8 * bits.length ≤ i) : testBit bits i = false := by
  rw [testBit_eq, getD_eq_getElem?_getD, getElem?_eq_none (by omega)]
  simp

@[simp] lemma length_setBit : (setBit bits i).length = bits.length := length_modify ..

@[simp] lemma length_clearBit : (clearBit bits i).length = bits.length := length_modify ..

lemma testBit_setBit (h : i < 8 * bits.length) :
    testBit (setBit bits i) j = (testBit bits j || decide (i = j)) := by
  rw [testBit_eq, testBit_eq, setBit, getD_eq_getElem?_getD, getD_eq_getElem?_getD,
    getElem?_modify]
  by_cases hbyte : i / 8 = j / 8
  · have hlt : j / 8 < bits.length := by omega
    rw [getElem?_eq_getElem hlt]
    simp only [if_pos hbyte, Option.map_eq_map, Option.map_some, Option.getD_some, UInt8.toBitVec_or, BitVec.getLsbD_or,
      getLsbD_bitMask]
    congr 2
    rw [bit_eq_iff i j, eq_iff_iff]
    omega
  · have hne : i ≠ j := fun h => hbyte (by rw [h])
    simp [if_neg hbyte, hne]

lemma testBit_clearBit (h : i < 8 * bits.length) :
    testBit (clearBit bits i) j = (testBit bits j && decide (i ≠ j)) := by
  rw [testBit_eq, testBit_eq, clearBit, getD_eq_getElem?_getD, getD_eq_getElem?_getD,
    getElem?_modify]
  by_cases hbyte : i / 8 = j / 8
  · have hlt : j / 8 < bits.length := by omega
    have hbit : j % 8 < 8 := Nat.mod_lt _ (by decide)
    rw [getElem?_eq_getElem hlt]
    simp only [if_pos hbyte, Option.map_eq_map, Option.map_some, Option.getD_some, UInt8.toBitVec_and, UInt8.toBitVec_not,
      BitVec.getLsbD_and, BitVec.getLsbD_not, getLsbD_bitMask, hbit, decide_true, Bool.true_and]
    congr 1
    rw [← decide_not]
    congr 1
    rw [ne_eq, bit_eq_iff i j, eq_iff_iff]
    omega
  · have hne : i ≠ j := fun h => hbyte (by rw [h])
    simp [if_neg hbyte, hne]

@[simp] lemma length_setBitRange : (setBitRange bits start count).length = bits.length := by
  rw [setBitRange]
  generalize range' start count = run
  induction run generalizing bits with
  | nil => rfl
  | cons i run ih => simp [ih]

@[simp] lemma length_clearBitRange : (clearBitRange bits start count).length = bits.length := by
  rw [clearBitRange]
  generalize range' start count = run
  induction run generalizing bits with
  | nil => rfl
  | cons i run ih => simp [ih]

lemma testBit_setBitRange (h : start + count ≤ 8 * bits.length) :
    testBit (setBitRange bits start count) j =
      (testBit bits j || decide (start ≤ j ∧ j < start + count)) := by
  induction count with
  | zero =>
    have hempty : ¬ (start ≤ j ∧ j < start + 0) := by omega
    rw [decide_eq_false hempty, Bool.or_false]
    rfl
  | succ count ih =>
    have hlast : setBitRange bits start (count + 1) =
        setBit (setBitRange bits start count) (start + count) := by
      simp [setBitRange, range'_concat]
    rw [hlast, testBit_setBit (by rw [length_setBitRange]; omega), ih (by omega), Bool.or_assoc,
      ← Bool.decide_or]
    congr 2
    rw [eq_iff_iff]
    omega

lemma testBit_clearBitRange (h : start + count ≤ 8 * bits.length) :
    testBit (clearBitRange bits start count) j =
      (testBit bits j && decide (¬ (start ≤ j ∧ j < start + count))) := by
  induction count with
  | zero =>
    have hempty : ¬ (start ≤ j ∧ j < start + 0) := by omega
    rw [decide_eq_true hempty, Bool.and_true]
    rfl
  | succ count ih =>
    have hlast : clearBitRange bits start (count + 1) =
        clearBit (clearBitRange bits start count) (start + count) := by
      simp [clearBitRange, range'_concat]
    rw [hlast, testBit_clearBit (by rw [length_clearBitRange]; omega), ih (by omega),
      Bool.and_assoc, ← Bool.decide_and]
    congr 2
    rw [eq_iff_iff]
    omega

lemma eq_replicate_of_testBit (h : ∀ i < 8 * bits.length, testBit bits i = false) :
    bits = replicate bits.length 0 := by
  refine eq_replicate_iff.2 ⟨rfl, fun b hb => ?_⟩
  obtain ⟨k, hk, rfl⟩ := getElem_of_mem hb
  refine UInt8.toBitVec_inj.1 (BitVec.eq_of_getLsbD_eq fun n hn => ?_)
  have hbit := h (8 * k + n) (by omega)
  have hdiv : (8 * k + n) / 8 = k := by omega
  have hmod : (8 * k + n) % 8 = n := by omega
  rw [testBit_eq, hdiv, hmod, getD_eq_getElem?_getD, getElem?_eq_getElem hk] at hbit
  simpa using hbit

lemma testBit_replicate_zero (n i : Nat) : testBit (replicate n 0) i = false := by
  rw [testBit_eq, getD_eq_getElem?_getD, getElem?_replicate]
  split <;> simp

end Lib
end BezOS
