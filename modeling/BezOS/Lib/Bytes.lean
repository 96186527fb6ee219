import Mathlib.Data.UInt
import Mathlib.Tactic.Common
import Mathlib.Data.List.Basic
import Mathlib.Logic.Function.Basic

/-!
# Little-endian numbers

A number in a field of bytes, the least significant of them first.
-/

namespace BezOS
namespace Lib

open Function List

def leValue : List UInt8 → Nat
  | [] => 0
  | byte :: bytes => byte.toNat + 256 * leValue bytes

def leBytes : Nat → Nat → List UInt8
  | 0, _ => []
  | width + 1, n => UInt8.ofNat n :: leBytes width (n / 256)

@[simp] lemma length_leBytes (width n : Nat) : (leBytes width n).length = width := by
  induction width generalizing n with
  | zero => rfl
  | succ width ih => rw [leBytes, length_cons, ih]

lemma leValue_lt (bytes : List UInt8) : leValue bytes < 256 ^ bytes.length := by
  induction bytes with
  | nil => exact Nat.one_pos
  | cons byte bytes ih =>
    have hbyte : byte.toNat < 256 := byte.toNat_lt
    rw [leValue, length_cons, Nat.pow_succ]
    omega

lemma leValue_leBytes {width n : Nat} (h : n < 256 ^ width) :
    leValue (leBytes width n) = n := by
  induction width generalizing n with
  | zero =>
    rw [Nat.pow_zero, Nat.lt_one_iff] at h
    exact h.symm
  | succ width ih =>
    have hrest : n / 256 < 256 ^ width := by
      exact Nat.div_lt_of_lt_mul (by omega)
    have hbyte : (UInt8.ofNat n).toNat = n % 256 := UInt8.toNat_ofNat'
    rw [leBytes, leValue, ih hrest, hbyte]
    omega

lemma leBytes_leValue (bytes : List UInt8) : leBytes bytes.length (leValue bytes) = bytes := by
  induction bytes with
  | nil => rfl
  | cons byte bytes ih =>
    have hbyte : byte.toNat < 256 := byte.toNat_lt
    have hfirst : UInt8.ofNat (byte.toNat + 256 * leValue bytes) = byte := by
      refine UInt8.toNat_inj.1 ?_
      rw [UInt8.toNat_ofNat']
      omega
    have hrest : (byte.toNat + 256 * leValue bytes) / 256 = leValue bytes := by omega
    rw [length_cons, leBytes, leValue, hfirst, hrest, ih]

/-!
## Flat memories

A memory has a value at every address. What stands in a span of it is a list.
-/

variable {α : Type*} {m m' : Nat → α} {start a n : Nat} {values : List α}

def load (m : Nat → α) (start n : Nat) : List α := (range n).map fun i => m (start + i)

def store (m : Nat → α) (start : Nat) (values : List α) : Nat → α := fun a =>
  if start ≤ a then values[a - start]?.getD (m a) else m a

@[simp] lemma length_load (m : Nat → α) (start n : Nat) : (load m start n).length = n := by
  rw [load, length_map, length_range]

lemma load_congr (h : ∀ i < n, m' (start + i) = m (start + i)) :
    load m' start n = load m start n :=
  map_congr_left fun i hi => h i (mem_range.1 hi)

lemma store_outside (h : a < start ∨ start + values.length ≤ a) : store m start values a = m a := by
  rw [store]
  split
  · rename_i hle
    rw [getElem?_eq_none (by omega)]
    rfl
  · rfl

lemma store_inside (m : Nat → α) (start : Nat) (h : n < values.length) :
    store m start values (start + n) = values[n] := by
  rw [store, if_pos (Nat.le_add_right _ _), Nat.add_sub_cancel_left, getElem?_eq_getElem h]
  rfl

lemma load_store_self (m : Nat → α) (start : Nat) (values : List α) :
    load (store m start values) start values.length = values := by
  refine ext_getElem (length_load _ _ _) fun i h h' => ?_
  rw [← store_inside m start h']
  exact (getElem_map _).trans (by rw [getElem_range])

lemma load_store_apart (h : a + n ≤ start ∨ start + values.length ≤ a) :
    load (store m start values) a n = load m a n :=
  load_congr fun i hi => store_outside (by omega)

lemma load_cons (m : Nat → α) (start n : Nat) :
    load m start (n + 1) = m start :: load m (start + 1) n := by
  rw [load, range_succ_eq_map, map_cons, map_map, load]
  refine congrArg _ (map_congr_left fun i _ => ?_)
  exact congrArg m (by omega)

lemma load_concat (m : Nat → α) (start n : Nat) :
    load m start (n + 1) = load m start n ++ [m (start + n)] := by
  rw [load, range_succ, map_append]
  rfl

lemma store_nil (m : Nat → α) (start : Nat) : store m start [] = m := by
  funext a
  exact store_outside (by
    rw [length_nil]
    omega)

lemma store_self (h : ∀ i (hi : i < values.length), m (start + i) = values[i]) :
    store m start values = m := by
  funext a
  by_cases ha : a < start ∨ start + values.length ≤ a
  · exact store_outside ha
  · obtain ⟨i, rfl⟩ := Nat.exists_eq_add_of_le (Nat.le_of_not_lt fun hlt => ha (.inl hlt))
    have hi : i < values.length := by omega
    rw [store_inside m start hi, h i hi]

lemma store_cons (m : Nat → α) (start : Nat) (v : α) (values : List α) :
    store m start (v :: values) = store (update m start v) (start + 1) values := by
  funext a
  rcases Nat.lt_trichotomy a start with hlt | rfl | hlt
  · rw [store_outside (.inl hlt), store_outside (.inl (by omega)), update_of_ne (by omega)]
  · rw [store_outside (.inl (Nat.lt_succ_self a)), update_self]
    have hfirst : 0 < (v :: values).length := Nat.zero_lt_succ _
    exact store_inside m a hfirst
  · obtain ⟨n, rfl⟩ := Nat.exists_eq_add_of_le hlt
    have hne : start + 1 + n ≠ start := by omega
    rw [store, store, if_pos (by omega), if_pos (by omega), update_of_ne hne]
    have hback : start + 1 + n - start = (start + 1 + n - (start + 1)) + 1 := by omega
    rw [hback, getElem?_cons_succ]

lemma store_concat (m : Nat → α) (start : Nat) (values : List α) (v : α) :
    store m start (values ++ [v]) = update (store m start values)
      (start + values.length) v := by
  induction values generalizing m start with
  | nil => rw [nil_append, store_cons, store_nil, store_nil]; rfl
  | cons w values ih =>
    rw [cons_append, store_cons, ih, store_cons, length_cons]
    congr 1
    omega

lemma store_update_end (m : Nat → α) (start : Nat) (values : List α) (v : α) :
    store (update m (start + values.length) v) start values =
      store m start (values ++ [v]) := by
  rw [store_concat]
  funext a
  by_cases ha : a = start + values.length
  · rw [ha, store_outside (.inr (Nat.le_refl _)), update_self, update_self]
  · rw [update_of_ne ha, store, store, update_of_ne ha]

end Lib
end BezOS
