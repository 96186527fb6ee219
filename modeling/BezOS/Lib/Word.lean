import Mathlib.Data.Nat.ModEq
import Mathlib.Tactic.Common

/-!
# Wrapping arithmetic

Addition and subtraction of machine words, on numbers below a modulus. Each is given by the two
cases of a carry, so that facts about wrapped addresses become linear ones.
-/

namespace BezOS
namespace Lib

open Nat

/-- Addition modulo `w`. -/
def wrapAdd (w a b : Nat) : Nat := (a + b) % w

/-- Subtraction modulo `w`, of a number not above `w`. -/
def wrapSub (w a b : Nat) : Nat := (a + (w - b)) % w

variable {w a b c : Nat}

lemma wrapAdd_lt (hw : 0 < w) : wrapAdd w a b < w := mod_lt _ hw

lemma wrapSub_lt (hw : 0 < w) : wrapSub w a b < w := mod_lt _ hw

lemma wrapAdd_cases (ha : a < w) (hb : b ≤ w) :
    (a + b < w ∧ wrapAdd w a b = a + b) ∨ (w ≤ a + b ∧ wrapAdd w a b + w = a + b) := by
  by_cases h : a + b < w
  · exact .inl ⟨h, mod_eq_of_lt h⟩
  · refine .inr ⟨by omega, ?_⟩
    have hlt : a + b - w < w := by omega
    rw [wrapAdd, mod_eq_sub_mod (by omega), mod_eq_of_lt hlt]
    omega

lemma wrapSub_cases (ha : a < w) (hb : b ≤ w) :
    (b ≤ a ∧ wrapSub w a b + b = a) ∨ (a < b ∧ wrapSub w a b + b = a + w) := by
  have hsub : wrapSub w a b = wrapAdd w a (w - b) := rfl
  rcases wrapAdd_cases (b := w - b) ha (by omega) with h | h
  · exact .inr ⟨by omega, by omega⟩
  · exact .inl ⟨by omega, by omega⟩

lemma wrapAdd_of_lt (h : a + b < w) : wrapAdd w a b = a + b := mod_eq_of_lt h

lemma wrapSub_of_le (h : b ≤ a) (ha : a < w) : wrapSub w a b = a - b := by
  have hcases := wrapSub_cases ha (Nat.le_of_lt (Nat.lt_of_le_of_lt h ha))
  omega

lemma eq_of_mod_eq_of_window (start : Nat) (ha : start ≤ a) (ha' : a < start + w)
    (hb : start ≤ b) (hb' : b < start + w) (h : a % w = b % w) : a = b := by
  refine ModEq.eq_of_abs_lt h ?_
  rw [abs_lt]
  omega

end Lib
end BezOS

/-!
## Rounding to multiples

Rounding up and down, on numbers and on machine words. On words, rounding up can wrap, and then
gives zero.
-/

namespace BezOS
namespace Lib

open Nat

def roundUp (x m : Nat) : Nat := (x + m - 1) / m * m

def roundDown (x m : Nat) : Nat := x / m * m

/-- Rounding up as words below `w` do it. -/
def wrapRoundUp (w x m : Nat) : Nat := (x + m - 1) % w / m * m

variable {w x y m : Nat}

lemma roundDown_le (x m : Nat) : roundDown x m ≤ x := div_mul_le_self x m

lemma roundDown_mono (h : x ≤ y) (m : Nat) : roundDown x m ≤ roundDown y m :=
  Nat.mul_le_mul_right m (Nat.div_le_div_right h)

lemma le_roundDown (h : y ≤ x) (hy : m ∣ y) : y ≤ roundDown x m := by
  have hmono := roundDown_mono h m
  rwa [roundDown, Nat.div_mul_cancel hy] at hmono

lemma dvd_roundDown (x m : Nat) : m ∣ roundDown x m := Nat.dvd_mul_left ..

lemma dvd_roundUp (x m : Nat) : m ∣ roundUp x m := Nat.dvd_mul_left ..

lemma le_roundUp (hm : 0 < m) (x : Nat) : x ≤ roundUp x m := by
  have hdiv := div_add_mod' (x + m - 1) m
  have hmod := mod_lt (x + m - 1) hm
  rw [roundUp]
  omega

lemma roundUp_mono (h : x ≤ y) (m : Nat) : roundUp x m ≤ roundUp y m :=
  Nat.mul_le_mul_right m (Nat.div_le_div_right (by omega))

lemma roundUp_least (hm : 0 < m) (h : x ≤ y) (hy : m ∣ y) : roundUp x m ≤ y := by
  obtain ⟨k, rfl⟩ := hy
  rw [roundUp, Nat.mul_comm m k]
  refine Nat.mul_le_mul_right m (Nat.lt_succ_iff.1 ?_)
  rw [Nat.div_lt_iff_lt_mul hm, Nat.succ_mul, Nat.mul_comm k m]
  omega

lemma wrapRoundUp_of_le (h : x + m ≤ w) (hm : 0 < m) : wrapRoundUp w x m = roundUp x m := by
  rw [wrapRoundUp, mod_eq_of_lt (by omega), roundUp]

lemma wrapRoundUp_of_lt (h : w < x + m) (hx : x < w) (hm : m ≤ w) : wrapRoundUp w x m = 0 := by
  have hwrap : (x + m - 1) % w = x + m - 1 - w := by
    rw [mod_eq_sub_mod (by omega), mod_eq_of_lt (by omega)]
  rw [wrapRoundUp, hwrap, div_eq_of_lt (by omega), zero_mul]

lemma wrapRoundUp_lt (hw : 0 < w) (x m : Nat) : wrapRoundUp w x m < w :=
  Nat.lt_of_le_of_lt (div_mul_le_self _ _) (mod_lt _ hw)

lemma dvd_wrapRoundUp (w x m : Nat) : m ∣ wrapRoundUp w x m := Nat.dvd_mul_left ..

end Lib
end BezOS
