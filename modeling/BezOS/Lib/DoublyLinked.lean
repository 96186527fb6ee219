import Mathlib.Logic.Function.Basic
import Mathlib.Tactic.Common

/-!
# Doubly linked lists

A doubly linked list in memory, given by the forward and the back link of each cell.
`Linked next prev e l` says that the cells of `l` follow each other in this order and that the
forward link of the last one is `e`. The back link of the first cell is left open: code that
takes a list apart and joins its pieces lets it go stale until the pieces are joined again.
-/

namespace BezOS
namespace Lib

open Function List

variable {O : Type*} {next prev next' prev' : O → O} {e a b : O} {l x y : List O}

def Linked (next prev : O → O) (e : O) : List O → Prop
  | [] => True
  | a :: l => next a = l.headD e ∧ (∀ b ∈ l.head?, prev b = a) ∧ Linked next prev e l

namespace Linked

@[simp] lemma nil : Linked next prev e [] := trivial

lemma cons_iff : Linked next prev e (a :: l) ↔
    next a = l.headD e ∧ (∀ b ∈ l.head?, prev b = a) ∧ Linked next prev e l := Iff.rfl

@[simp] lemma singleton_iff : Linked next prev e [a] ↔ next a = e := by
  simp [cons_iff]

lemma cons_cons_iff : Linked next prev e (a :: b :: l) ↔
    next a = b ∧ prev b = a ∧ Linked next prev e (b :: l) := by
  simp [cons_iff]

lemma tail (h : Linked next prev e (a :: l)) : Linked next prev e l := h.2.2

lemma next_head (h : Linked next prev e (a :: l)) : next a = l.headD e := h.1

lemma congr (h : Linked next prev e l) (hnext : ∀ a ∈ l, next' a = next a)
    (hprev : ∀ a ∈ l.tail, prev' a = prev a) : Linked next' prev' e l := by
  induction l with
  | nil => trivial
  | cons a l ih =>
    obtain ⟨h1, h2, h3⟩ := h
    refine ⟨?_, ?_, ?_⟩
    · rw [hnext a (mem_cons_self ..)]
      exact h1
    · intro b hb
      rw [hprev b (mem_of_mem_head? hb)]
      exact h2 b hb
    · apply ih h3
      · exact fun b hb => hnext b (mem_cons_of_mem _ hb)
      · exact fun b hb => hprev b (mem_of_mem_tail hb)

lemma append_iff : Linked next prev e (x ++ y) ↔
    Linked next prev (y.headD e) x ∧ (∀ a ∈ x.getLast?, ∀ b ∈ y.head?, prev b = a) ∧
      Linked next prev e y := by
  induction x with
  | nil => simp
  | cons a x ih =>
    cases x with
    | nil => simp [cons_iff]
    | cons b x =>
      rw [cons_append, cons_append, cons_cons_iff, ← cons_append, ih, cons_cons_iff]
      tauto

lemma next_last (h : Linked next prev e l) (ha : a ∈ l.getLast?) : next a = e := by
  rcases eq_nil_or_concat l with rfl | ⟨init, z, rfl⟩
  · cases ha
  · rw [concat_eq_append] at h ha
    obtain rfl : z = a := by simpa using ha
    simpa using (append_iff.1 h).2.2

lemma endWith {e' : O} (h : Linked next prev e l) (hnodup : l.Nodup)
    (hlast : ∀ a ∈ l.getLast?, next' a = e')
    (hnext : ∀ a ∈ l, a ∉ l.getLast? → next' a = next a)
    (hprev : ∀ a ∈ l.tail, prev' a = prev a) : Linked next' prev' e' l := by
  rcases eq_nil_or_concat l with rfl | ⟨init, z, rfl⟩
  · trivial
  rw [concat_eq_append] at *
  have hne : ∀ a ∈ init, a ≠ z := by
    rintro a ha rfl
    exact (nodup_append.1 hnodup).2.2 a ha a (by simp) rfl
  obtain ⟨hinit, hseam, -⟩ := append_iff.1 h
  refine append_iff.2 ⟨?_, ?_, ?_⟩
  · refine hinit.congr (fun a ha => hnext a (by simp [ha]) ?_) fun a ha => hprev a ?_
    · simpa using (hne a ha).symm
    · cases init <;> simp_all
  · intro a ha b hb
    obtain rfl : z = b := by simpa using hb
    rw [hprev z (by cases init <;> simp_all)]
    exact hseam a ha z (by simp)
  · exact singleton_iff.2 (hlast z (by simp))

lemma unlink (h : Linked next prev e (x ++ a :: y)) (hnodup : (x ++ a :: y).Nodup)
    (hlast : ∀ b ∈ x.getLast?, next' b = y.headD e)
    (hhead : ∀ b ∈ x.getLast?, ∀ c ∈ y.head?, prev' c = b)
    (hnext : ∀ b ∈ x ++ y, b ∉ x.getLast? → next' b = next b)
    (hprev : ∀ b ∈ x ++ y, b ∉ y.head? → prev' b = prev b) : Linked next' prev' e (x ++ y) := by
  obtain ⟨hx, -, hay⟩ := append_iff.1 h
  obtain ⟨hxnodup, haynodup, hdisjoint⟩ := nodup_append.1 hnodup
  refine append_iff.2 ⟨?_, fun b hb c hc => hhead b hb c hc, ?_⟩
  · refine hx.endWith hxnodup hlast (fun b hb => hnext b (by simp [hb])) fun b hb => ?_
    have hbx := mem_of_mem_tail hb
    refine hprev b (by simp [hbx]) fun hby => ?_
    exact hdisjoint b hbx b (mem_cons_of_mem _ (mem_of_mem_head? hby)) rfl
  · refine hay.tail.congr (fun b hb => hnext b (by simp [hb]) ?_) fun b hb => ?_
    · exact fun hbx => hdisjoint b (mem_of_mem_getLast? hbx) b (by simp [hb]) rfl
    · refine hprev b (by simp [mem_of_mem_tail hb]) fun hby => ?_
      cases y with
      | nil => simp at hb
      | cons c y =>
        obtain rfl : c = b := by simpa using hby
        exact (nodup_cons.1 (nodup_cons.1 haynodup).2).1 hb

lemma insertAfter (h : Linked next prev e (x ++ a :: y)) (hnodup : (x ++ a :: y).Nodup)
    (hb : b ∉ x ++ a :: y) (hnexta : next' a = b) (hnextb : next' b = y.headD e)
    (hprevb : prev' b = a) (hhead : ∀ c ∈ y.head?, prev' c = b)
    (hnext : ∀ c ∈ x ++ y, next' c = next c)
    (hprev : ∀ c ∈ x ++ a :: y, c ∉ y.head? → prev' c = prev c) :
    Linked next' prev' e (x ++ a :: b :: y) := by
  obtain ⟨hx, hseam, hay⟩ := append_iff.1 h
  obtain ⟨hxnodup, haynodup, hdisjoint⟩ := nodup_append.1 hnodup
  have hafter : ∀ c ∈ y.head?, c ∈ y := fun c hc => mem_of_mem_head? hc
  refine append_iff.2 ⟨?_, ?_, cons_cons_iff.2 ⟨hnexta, hprevb, hnextb, hhead, ?_⟩⟩
  · refine hx.congr (fun c hc => hnext c (by simp [hc])) fun c hc => ?_
    have hcx := mem_of_mem_tail hc
    refine hprev c (by simp [hcx]) fun hcy => ?_
    exact hdisjoint c hcx c (mem_cons_of_mem _ (hafter c hcy)) rfl
  · intro c hc d hd
    obtain rfl : a = d := by simpa using hd
    rw [hprev a (by simp) fun hay => (nodup_cons.1 haynodup).1 (hafter a hay)]
    exact hseam c hc a (by simp)
  · refine hay.tail.congr (fun c hc => hnext c (by simp [hc])) fun c hc => ?_
    refine hprev c (by simp [mem_of_mem_tail hc]) fun hcy => ?_
    cases y with
    | nil => simp at hc
    | cons d y =>
      obtain rfl : d = c := by simpa using hcy
      exact (nodup_cons.1 (nodup_cons.1 haynodup).2).1 hc

variable [DecidableEq O]

lemma update_next (h : Linked next prev e l) (ha : a ∉ l) (b : O) :
    Linked (update next a b) prev e l := by
  refine h.congr ?_ (fun _ _ => rfl)
  intro c hc
  rw [update_of_ne]
  rintro rfl
  exact ha hc

lemma update_prev (h : Linked next prev e l) (ha : a ∉ l.tail) (b : O) :
    Linked next (update prev a b) e l := by
  refine h.congr (fun _ _ => rfl) ?_
  intro c hc
  rw [update_of_ne]
  rintro rfl
  exact ha hc

end Linked

end Lib
end BezOS
