import Mathlib.Data.List.Basic
import Mathlib.Tactic.Common

/-!
# Threads

A doubly linked list in memory whose two ends may be null: `Threaded next prev p l e` says that
the cells of `l` follow each other both ways, that the back link of the first one is `p` and that
the forward link of the last one is `e`. An edit at the seam of two pieces changes one end of
each.
-/

namespace BezOS
namespace Lib

open List

variable {O : Type*} {next prev next' prev' : O → Option O} {p e p' e' : Option O} {a b : O}
  {l x y : List O}

def Threaded (next prev : O → Option O) : Option O → List O → Option O → Prop
  | _, [], _ => True
  | p, a :: l, e => prev a = p ∧ next a = l.head?.or e ∧ Threaded next prev (some a) l e

namespace Threaded

@[simp] lemma nil : Threaded next prev p [] e := trivial

lemma cons_iff : Threaded next prev p (a :: l) e ↔
    prev a = p ∧ next a = l.head?.or e ∧ Threaded next prev (some a) l e := Iff.rfl

@[simp] lemma singleton_iff : Threaded next prev p [a] e ↔ prev a = p ∧ next a = e := by
  simp [cons_iff]

lemma congr (h : Threaded next prev p l e) (hnext : ∀ a ∈ l, next' a = next a)
    (hprev : ∀ a ∈ l, prev' a = prev a) : Threaded next' prev' p l e := by
  induction l generalizing p with
  | nil => trivial
  | cons a l ih =>
    obtain ⟨h1, h2, h3⟩ := h
    refine ⟨?_, ?_, ?_⟩
    · rw [hprev a (mem_cons_self ..), h1]
    · rw [hnext a (mem_cons_self ..), h2]
    · exact ih h3 (fun b hb => hnext b (mem_cons_of_mem _ hb))
        (fun b hb => hprev b (mem_cons_of_mem _ hb))

lemma append_iff : Threaded next prev p (x ++ y) e ↔
    Threaded next prev p x (y.head?.or e) ∧ Threaded next prev (x.getLast?.or p) y e := by
  induction x generalizing p with
  | nil => simp
  | cons a x ih =>
    rw [cons_append, cons_iff, ih, cons_iff]
    have hhead : (x ++ y).head?.or e = x.head?.or (y.head?.or e) := by
      cases x <;> simp
    have hlast : (a :: x).getLast?.or p = x.getLast?.or (some a) := by
      rw [getLast?_cons]
      cases x.getLast? <;> rfl
    rw [hhead, hlast]
    tauto

lemma middle_iff : Threaded next prev p (x ++ a :: y) e ↔
    Threaded next prev p x (some a) ∧ prev a = x.getLast?.or p ∧ next a = y.head?.or e ∧
      Threaded next prev (some a) y e := by
  rw [append_iff, cons_iff]
  simp

section

variable (h : Threaded next prev p l e)

include h

lemma turn_last (hl : l.Nodup) (hprev : ∀ a ∈ l, prev' a = prev a)
    (hnext : ∀ a ∈ l, l.getLast? ≠ some a → next' a = next a)
    (hlast : ∀ a, l.getLast? = some a → next' a = e') : Threaded next' prev' p l e' := by
  rcases eq_nil_or_concat l with rfl | ⟨x, z, rfl⟩
  · trivial
  · rw [concat_eq_append] at *
    have hz : (x ++ [z]).getLast? = some z := by simp
    have hne : ∀ a ∈ x, a ≠ z := fun a ha heq => by
      subst heq
      exact (nodup_append.1 hl).2.2 a ha a (by simp) rfl
    obtain ⟨h1, h2⟩ := append_iff.1 h
    refine append_iff.2 ⟨?_, ?_⟩
    · refine h1.congr (fun a ha => ?_) (fun a ha => hprev a (by simp [ha]))
      refine hnext a (by simp [ha]) ?_
      rw [hz]
      exact fun heq => hne a ha (Option.some.inj heq).symm
    · rw [singleton_iff] at h2 ⊢
      exact ⟨by rw [hprev z (by simp), h2.1], hlast z hz⟩

lemma turn_first (hl : l.Nodup) (hnext : ∀ a ∈ l, next' a = next a)
    (hprev : ∀ a ∈ l, l.head? ≠ some a → prev' a = prev a)
    (hfirst : ∀ a, l.head? = some a → prev' a = p') : Threaded next' prev' p' l e := by
  cases l with
  | nil => trivial
  | cons z l =>
    obtain ⟨-, h2, h3⟩ := h
    refine ⟨hfirst z rfl, by rw [hnext z (by simp), h2], ?_⟩
    refine h3.congr (fun a ha => hnext a (by simp [ha])) (fun a ha => ?_)
    refine hprev a (by simp [ha]) ?_
    rintro heq
    obtain rfl : z = a := by simpa using heq
    exact (nodup_cons.1 hl).1 ha

lemma prev_head (ha : l.head? = some a) : prev a = p := by
  cases l with
  | nil => cases ha
  | cons b l =>
    obtain rfl : b = a := by simpa using ha
    exact h.1

end

end Threaded

end Lib
end BezOS
