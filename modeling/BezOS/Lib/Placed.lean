import Mathlib.Data.List.Basic
import Mathlib.Tactic.Common

/-!
# Where a list stands in another

What a memory holds from an index on. Longer contents are put together of shorter ones.
-/

namespace BezOS
namespace Lib

open List

variable {α : Type*} {xs ys zs : List α} {i j : Nat} {y : α}

/-- The list stands in another from an index on. -/
def Placed (xs : List α) (i : Nat) (ys : List α) : Prop :=
  ys <+: xs.drop i

lemma Placed.nil (xs : List α) (i : Nat) : Placed xs i [] :=
  nil_prefix

lemma Placed.self (xs : List α) : Placed xs 0 xs :=
  prefix_refl xs

lemma placed_cons_iff : Placed xs i (y :: ys) ↔ xs[i]? = some y ∧ Placed xs (i + 1) ys := by
  by_cases hi : i < xs.length
  · rw [Placed, drop_eq_getElem_cons hi, cons_prefix_cons, getElem?_eq_getElem hi,
      Option.some_inj]
    exact and_congr_left' eq_comm
  · have hnone : xs[i]? = none := getElem?_eq_none (Nat.le_of_not_lt hi)
    rw [Placed, drop_eq_nil_of_le (Nat.le_of_not_lt hi), prefix_nil, hnone]
    simp

lemma placed_append_iff :
    Placed xs i (ys ++ zs) ↔ Placed xs i ys ∧ Placed xs (i + ys.length) zs := by
  induction ys generalizing i with
  | nil => simp [Placed.nil]
  | cons y ys ih =>
    rw [cons_append, placed_cons_iff, placed_cons_iff, ih, and_assoc, length_cons,
      Nat.add_assoc, Nat.add_comm 1]

namespace Placed

lemma head (h : Placed xs i (y :: ys)) : xs[i]? = some y :=
  (placed_cons_iff.1 h).1

lemma tail (h : Placed xs i (y :: ys)) : Placed xs (i + 1) ys :=
  (placed_cons_iff.1 h).2

lemma left (h : Placed xs i (ys ++ zs)) : Placed xs i ys :=
  (placed_append_iff.1 h).1

lemma right (h : Placed xs i (ys ++ zs)) : Placed xs (i + ys.length) zs :=
  (placed_append_iff.1 h).2

lemma slice (h : Placed xs i ys) : (xs.drop i).take ys.length = ys :=
  (prefix_iff_eq_take.1 h).symm

lemma length_le (h : Placed xs i ys) : ys.length ≤ xs.length - i := by
  have hle := IsPrefix.length_le h
  rwa [length_drop] at hle

end Placed
end Lib
end BezOS
