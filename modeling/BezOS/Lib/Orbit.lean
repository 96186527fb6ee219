import Mathlib.Data.Fintype.Card
import Mathlib.Tactic.Common

/-!
# Loops

A loop is a step on its states that says when it ends. A loop whose place in a bounded range says
where it goes next ends exactly if it comes to no place twice.
-/

namespace BezOS
namespace Lib

open Option

variable {σ : Type*}

def orbit (step : σ → Option σ) : Nat → σ → Option σ
  | 0, s => some s
  | n + 1, s => (orbit step n s).bind step

variable {step : σ → Option σ} {s t : σ} {m n : Nat}

lemma orbit_add (m n : Nat) (s : σ) :
    orbit step (m + n) s = (orbit step m s).bind (orbit step n) := by
  induction n with
  | zero => exact (bind_fun_some (orbit step m s)).symm
  | succ n ih =>
    rw [Nat.add_succ, orbit, ih, bind_assoc]
    rfl

lemma orbit_eq_none_of_le (hle : m ≤ n) (h : orbit step m s = none) :
    orbit step n s = none := by
  obtain ⟨k, rfl⟩ := Nat.exists_eq_add_of_le hle
  rw [orbit_add, h]
  rfl

lemma exists_last (h : orbit step n s = none) :
    ∃ k last, orbit step k s = some last ∧ step last = none := by
  induction n with
  | zero => cases h
  | succ n ih =>
    cases hn : orbit step n s with
    | none => exact ih hn
    | some last =>
      rw [orbit, hn] at h
      exact ⟨n, last, hn, h⟩

lemma orbit_invariant {Inv : σ → Prop} (hs : Inv s)
    (hstep : ∀ k a b, orbit step k s = some a → Inv a → step a = some b → Inv b)
    (h : orbit step n s = some t) : Inv t := by
  induction n generalizing t with
  | zero =>
    cases h
    exact hs
  | succ n ih =>
    rw [orbit, bind_eq_some_iff] at h
    obtain ⟨a, ha, hat⟩ := h
    exact hstep n a t ha (ih ha) hat

section Places

variable {place : σ → Nat}

lemma orbit_place (hplace : ∀ a b, place a = place b → (step a).map place = (step b).map place)
    (n : Nat) (hst : place s = place t) :
    (orbit step n s).map place = (orbit step n t).map place := by
  induction n with
  | zero => exact congrArg some hst
  | succ n ih =>
    rw [orbit, orbit]
    cases hs : orbit step n s with
    | none =>
      rw [hs] at ih
      rw [map_eq_none_iff.1 ih.symm]
    | some a =>
      rw [hs] at ih
      obtain ⟨b, hb, hba⟩ := map_eq_some_iff.1 ih.symm
      rw [hb]
      exact hplace a b hba.symm

lemma orbit_ne_none_of_return
    (hplace : ∀ a b, place a = place b → (step a).map place = (step b).map place) {i j : Nat}
    {a b : σ} (hij : i < j) (hi : orbit step i s = some a) (hj : orbit step j s = some b)
    (hab : place a = place b) (n : Nat) : orbit step n s ≠ none := by
  obtain ⟨period, rfl⟩ := Nat.exists_eq_add_of_le hij.le
  rw [orbit_add, hi] at hj
  have hcycle : orbit step period a = some b := hj
  have hnever : ∀ m, orbit step m a ≠ none := by
    intro m
    induction m using Nat.strong_induction_on with
    | h m ih =>
      intro hm
      by_cases hle : m ≤ period
      · rw [orbit_eq_none_of_le hle hm] at hcycle
        cases hcycle
      · obtain ⟨rest, rfl⟩ := Nat.exists_eq_add_of_le (Nat.le_of_not_le hle)
        rw [orbit_add, hcycle] at hm
        -- the rounds from the second visit on are those from the first one on
        have hrest := orbit_place hplace rest hab
        rw [show orbit step rest b = none from hm] at hrest
        exact ih rest (by omega) (map_eq_none_iff.1 hrest)
  intro hn
  refine hnever n ?_
  have hlate := orbit_eq_none_of_le (Nat.le_add_left n i) hn
  rw [orbit_add, hi] at hlate
  exact hlate

lemma exists_orbit_eq_none {bound : Nat}
    (hbound : ∀ k a, orbit step k s = some a → place a < bound)
    (honce : ∀ i j a b, i < j → orbit step i s = some a → orbit step j s = some b →
      place a ≠ place b) : ∃ n, orbit step n s = none := by
  by_contra hnot
  have hsome : ∀ n, ∃ a, orbit step n s = some a := by
    intro n
    exact ne_none_iff_exists'.1 fun h => hnot ⟨n, h⟩
  choose visit hvisit using hsome
  have hinj : Function.Injective fun n : Fin (bound + 1) =>
      (⟨place (visit n), hbound n _ (hvisit n)⟩ : Fin bound) := by
    intro i j hij
    have heq : place (visit i) = place (visit j) := congrArg Fin.val hij
    rcases Nat.lt_trichotomy i j with hlt | hval | hgt
    · exact absurd heq (honce i j _ _ hlt (hvisit i) (hvisit j))
    · exact Fin.ext hval
    · exact absurd heq.symm (honce j i _ _ hgt (hvisit j) (hvisit i))
  have hcard := Fintype.card_le_of_injective _ hinj
  rw [Fintype.card_fin, Fintype.card_fin] at hcard
  omega

end Places

end Lib
end BezOS
