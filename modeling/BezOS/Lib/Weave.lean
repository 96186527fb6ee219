import Mathlib.Algebra.GroupWithZero.Nat
import Mathlib.Data.List.Basic
import Mathlib.Tactic.Common

/-!
# Interleaving

The in-order listing of a node of a search tree: the listings of its children with its own entries
between them. A node can be cut at an entry or at a child, and its listing is cut with it.
-/

namespace BezOS
namespace Lib

open List

variable {α : Type*} {c : List α} {cs csL csR : List (List α)} {e : α} {es esL esR : List α}

/-- `c₀ e₀ c₁ e₁ …`, up to the longer of the two. -/
def weave : List (List α) → List α → List α
  | [], es => es
  | c :: cs, [] => c ++ weave cs []
  | c :: cs, e :: es => c ++ e :: weave cs es

@[simp] lemma weave_nil (es : List α) : weave [] es = es := by
  cases es <;> rfl

@[simp] lemma weave_singleton_nil (c : List α) : weave [c] [] = c := by
  simp [weave]

lemma weave_cons_cons : weave (c :: cs) (e :: es) = c ++ e :: weave cs es := rfl

lemma weave_cons : weave (c :: cs) es = c ++ weave ([] :: cs) es := by
  cases es <;> rfl

lemma weave_append (h : csL.length = esL.length) :
    weave (csL ++ cs) (esL ++ es) = weave csL esL ++ weave cs es := by
  induction csL generalizing esL with
  | nil =>
    obtain rfl : esL = [] := length_eq_zero_iff.1 h.symm
    simp
  | cons c csL ih =>
    cases esL with
    | nil => simp at h
    | cons e esL =>
      have h' : csL.length = esL.length := by simpa using h
      simp [weave_cons_cons, ih h']

lemma weave_split (h : csL.length = esL.length + 1) :
    weave (csL ++ csR) (esL ++ e :: esR) = weave csL esL ++ e :: weave csR esR := by
  induction esL generalizing csL with
  | nil =>
    obtain ⟨c, rfl⟩ := length_eq_one_iff.1 h
    simp [weave_cons_cons]
  | cons x esL ih =>
    cases csL with
    | nil => simp at h
    | cons c csL =>
      have h' : csL.length = esL.length + 1 := by simpa using h
      simp [weave_cons_cons, ih h']

lemma weave_hole (h : csL.length = esL.length) :
    weave (csL ++ c :: cs) (esL ++ es) = weave csL esL ++ (c ++ weave ([] :: cs) es) := by
  rw [weave_append h, weave_cons]

lemma mem_weave {x : α} : x ∈ weave cs es ↔ (∃ c ∈ cs, x ∈ c) ∨ x ∈ es := by
  induction cs generalizing es with
  | nil => simp
  | cons c cs ih =>
    cases es with
    | nil => simp [weave, ih]
    | cons e es =>
      simp only [weave_cons_cons, mem_append, mem_cons, ih, exists_eq_or_imp]
      rw [or_assoc, or_left_comm (b := ∃ c ∈ cs, x ∈ c)]

lemma sublist_weave : es.Sublist (weave cs es) := by
  induction cs generalizing es with
  | nil => simp
  | cons c cs ih =>
    cases es with
    | nil => exact nil_sublist _
    | cons e es => exact (ih.cons_cons e).trans (sublist_append_right c _)

lemma length_weave : (weave cs es).length = (cs.map length).sum + es.length := by
  induction cs generalizing es with
  | nil => simp
  | cons c cs ih =>
    cases es with
    | nil => simp [weave, ih]
    | cons e es =>
      simp [weave_cons_cons, ih]
      omega

end Lib
end BezOS
