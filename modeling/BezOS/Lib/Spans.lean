import Mathlib.Algebra.GroupWithZero.Nat
import Mathlib.Data.List.Chain
import Mathlib.Data.List.Pairwise
import Mathlib.Tactic.Common

/-!
# Spans

Stretches of addresses that carry a tag each. Two spans touch when the second starts where the
first ends and both have the same tag. `coalesce` joins the spans of an ascending list that touch:
the same addresses are covered, and a stretch of addresses with one tag lies in one span.
-/

namespace BezOS
namespace Lib

open List

structure Span (T : Type*) where
  front : Nat
  size : Nat
  tag : T
  deriving DecidableEq

variable {T : Type*} {a b s u : Span T} {l x y : List (Span T)} {p n : Nat} {t t' : T}

namespace Span

def back (s : Span T) : Nat := s.front + s.size

def Has (s : Span T) (p : Nat) (t : T) : Prop := s.tag = t ∧ s.front ≤ p ∧ p < s.back

def Touches (a b : Span T) : Prop := a.back = b.front ∧ a.tag = b.tag

instance [DecidableEq T] (a b : Span T) : Decidable (a.Touches b) :=
  inferInstanceAs (Decidable (_ ∧ _))

def join (a b : Span T) : Span T := { a with size := a.size + b.size }

lemma has_join (h : a.Touches b) : (a.join b).Has p t ↔ a.Has p t ∨ b.Has p t := by
  obtain ⟨hback, htag⟩ := h
  simp only [Has, back, join] at *
  rw [← htag, ← hback]
  by_cases ht : a.tag = t
  · simp only [ht, true_and]
    omega
  · simp [ht]

lemma join_back (h : a.Touches b) : (a.join b).back = b.back := by
  have hback := h.1
  simp only [back, join] at *
  omega

end Span

/-- Some span has the address `p`, with the tag `t`. -/
def Covers (l : List (Span T)) (p : Nat) (t : T) : Prop := ∃ s ∈ l, s.Has p t

@[simp] lemma covers_nil : ¬ Covers ([] : List (Span T)) p t := by simp [Covers]

@[simp] lemma covers_cons : Covers (a :: l) p t ↔ a.Has p t ∨ Covers l p t := by simp [Covers]

@[simp] lemma covers_append : Covers (x ++ y) p t ↔ Covers x p t ∨ Covers y p t := by
  simp [Covers, or_and_right, exists_or]

lemma covers_perm (h : x.Perm y) : Covers x p t ↔ Covers y p t := by
  simp only [Covers, h.mem_iff]

/-- Some span has the address `p`. -/
def Covered (l : List (Span T)) (p : Nat) : Prop := ∃ s ∈ l, s.front ≤ p ∧ p < s.back

@[simp] lemma covered_nil : ¬ Covered ([] : List (Span T)) p := by simp [Covered]

@[simp] lemma covered_cons :
    Covered (a :: l) p ↔ (a.front ≤ p ∧ p < a.back) ∨ Covered l p := by simp [Covered]

@[simp] lemma covered_append : Covered (x ++ y) p ↔ Covered x p ∨ Covered y p := by
  simp [Covered, or_and_right, exists_or]

lemma pairwise_related {r : Span T → Span T → Prop} (h : l.Pairwise r) (hs : s ∈ l) (hu : u ∈ l)
    (hne : s ≠ u) : r s u ∨ r u s := by
  have hpair : l.Pairwise fun a b => r a b ∨ r b a := h.imp .inl
  have hsymm : Std.Symm fun a b => r a b ∨ r b a := ⟨fun _ _ => Or.symm⟩
  exact hpair.forall hs hu hne

structure Ascending (l : List (Span T)) : Prop where
  positive : ∀ s ∈ l, 0 < s.size
  pairwise : l.Pairwise fun a b => a.back ≤ b.front

namespace Ascending

lemma nil : Ascending ([] : List (Span T)) := ⟨by simp, .nil⟩

lemma tail (h : Ascending (a :: l)) : Ascending l :=
  ⟨fun s hs => h.positive s (mem_cons_of_mem _ hs), (pairwise_cons.1 h.pairwise).2⟩

lemma behind (h : Ascending (a :: l)) : ∀ s ∈ l, a.back ≤ s.front :=
  (pairwise_cons.1 h.pairwise).1

lemma append_iff : Ascending (x ++ y) ↔
    Ascending x ∧ Ascending y ∧ ∀ a ∈ x, ∀ b ∈ y, a.back ≤ b.front := by
  constructor
  · intro h
    obtain ⟨hx, hy, hxy⟩ := pairwise_append.1 h.pairwise
    exact ⟨⟨fun s hs => h.positive s (mem_append_left _ hs), hx⟩,
      ⟨fun s hs => h.positive s (mem_append_right _ hs), hy⟩, hxy⟩
  · rintro ⟨hx, hy, hxy⟩
    refine ⟨fun s hs => ?_, pairwise_append.2 ⟨hx.pairwise, hy.pairwise, hxy⟩⟩
    exact (mem_append.1 hs).elim (hx.positive s) (hy.positive s)

lemma eq_of_mem (h : Ascending l) (hs : s ∈ l) (hu : u ∈ l) (hsp : s.front ≤ p ∧ p < s.back)
    (hup : u.front ≤ p ∧ p < u.back) : s = u := by
  by_contra hne
  have hapart : s.back ≤ u.front ∨ u.back ≤ s.front := by
    exact pairwise_related h.pairwise hs hu hne
  omega

lemma tag_eq (h : Ascending l) (ht : Covers l p t) (ht' : Covers l p t') : t = t' := by
  obtain ⟨s, hs, rfl, hsp⟩ := ht
  obtain ⟨u, hu, rfl, hup⟩ := ht'
  rw [h.eq_of_mem hs hu hsp hup]

lemma join (h : Ascending (a :: b :: l)) (htouch : a.Touches b) : Ascending (a.join b :: l) := by
  refine ⟨fun s hs => ?_, pairwise_cons.2 ⟨fun s hs => ?_, h.tail.tail.pairwise⟩⟩
  · rcases mem_cons.1 hs with rfl | hs
    · exact Nat.add_pos_left (h.positive a (by simp)) _
    · exact h.positive s (by simp [hs])
  · rw [Span.join_back htouch]
    exact h.tail.behind s hs

end Ascending

/-! ## Joining spans that touch -/

variable [DecidableEq T] {P : Span T → Prop}

/-- `a` with the spans after it. -/
def coalesceFrom (a : Span T) : List (Span T) → List (Span T)
  | [] => [a]
  | b :: l => if a.Touches b then coalesceFrom (a.join b) l else a :: coalesceFrom b l

def coalesce : List (Span T) → List (Span T)
  | [] => []
  | a :: l => coalesceFrom a l

lemma covers_coalesceFrom : Covers (coalesceFrom a l) p t ↔ Covers (a :: l) p t := by
  induction l generalizing a with
  | nil => rfl
  | cons b l ih =>
    rw [coalesceFrom]
    split
    · next htouch => rw [ih, covers_cons, covers_cons, covers_cons, Span.has_join htouch, or_assoc]
    · rw [covers_cons, ih, covers_cons (a := a)]

lemma covers_coalesce : Covers (coalesce l) p t ↔ Covers l p t := by
  cases l with
  | nil => rfl
  | cons a l => exact covers_coalesceFrom

lemma front_le_coalesceFrom (h : Ascending (a :: l)) (hs : s ∈ coalesceFrom a l) :
    a.front ≤ s.front := by
  induction l generalizing a with
  | nil =>
    obtain rfl := mem_singleton.1 hs
    exact Nat.le_refl _
  | cons b l ih =>
    rw [coalesceFrom] at hs
    split at hs
    · next htouch =>
      have hle := ih (h.join htouch) hs
      exact hle
    · rcases mem_cons.1 hs with rfl | hs
      · exact Nat.le_refl _
      · have hab := h.behind b (by simp)
        have hle := ih h.tail hs
        simp only [Span.back] at hab
        omega

lemma ascending_coalesceFrom (h : Ascending (a :: l)) : Ascending (coalesceFrom a l) := by
  induction l generalizing a with
  | nil => exact h
  | cons b l ih =>
    rw [coalesceFrom]
    split
    · next htouch => exact ih (h.join htouch)
    · have hrest := ih h.tail
      refine ⟨fun s hs => ?_, pairwise_cons.2 ⟨fun s hs => ?_, hrest.pairwise⟩⟩
      · rcases mem_cons.1 hs with rfl | hs
        · exact h.positive s (by simp)
        · exact hrest.positive s hs
      · exact (h.behind b (by simp)).trans (front_le_coalesceFrom h.tail hs)

lemma ascending_coalesce (h : Ascending l) : Ascending (coalesce l) := by
  cases l with
  | nil => exact h
  | cons a l => exact ascending_coalesceFrom h

lemma exists_size_le_coalesceFrom (hs : ∃ s ∈ a :: l, n ≤ s.size) :
    ∃ u ∈ coalesceFrom a l, n ≤ u.size := by
  induction l generalizing a with
  | nil => exact hs
  | cons b l ih =>
    rw [coalesceFrom]
    obtain ⟨s, hs, hn⟩ := hs
    split
    · refine ih ?_
      -- What `a` or `b` was is the joined span.
      rcases mem_cons.1 hs with rfl | hs
      · exact ⟨s.join b, by simp, hn.trans (Nat.le_add_right ..)⟩
      · rcases mem_cons.1 hs with rfl | hs
        · exact ⟨a.join s, by simp, hn.trans (Nat.le_add_left ..)⟩
        · exact ⟨s, by simp [hs], hn⟩
    · rcases mem_cons.1 hs with rfl | hs
      · exact ⟨s, by simp, hn⟩
      · obtain ⟨u, hu, hn⟩ := ih ⟨s, hs, hn⟩
        exact ⟨u, mem_cons_of_mem _ hu, hn⟩

lemma exists_size_le_coalesce (hs : ∃ s ∈ l, n ≤ s.size) : ∃ u ∈ coalesce l, n ≤ u.size := by
  cases l with
  | nil => simp at hs
  | cons a l => exact exists_size_le_coalesceFrom hs

lemma sum_size_coalesceFrom :
    ((coalesceFrom a l).map Span.size).sum = ((a :: l).map Span.size).sum := by
  induction l generalizing a with
  | nil => rfl
  | cons b l ih =>
    rw [coalesceFrom]
    split
    · rw [ih]
      simp [Span.join, Nat.add_assoc]
    · simp [ih]

lemma sum_size_coalesce : ((coalesce l).map Span.size).sum = (l.map Span.size).sum := by
  cases l with
  | nil => rfl
  | cons a l => exact sum_size_coalesceFrom

lemma forall_coalesceFrom (hjoin : ∀ a b, P a → P b → a.Touches b → P (a.join b))
    (h : ∀ s ∈ a :: l, P s) :
    ∀ s ∈ coalesceFrom a l, P s := by
  induction l generalizing a with
  | nil => exact h
  | cons b l ih =>
    have ha := h a (by simp)
    have hb := h b (by simp)
    rw [coalesceFrom]
    split
    · next htouch =>
      exact ih (forall_mem_cons.2 ⟨hjoin a b ha hb htouch, fun s hs => h s (by simp [hs])⟩)
    · exact forall_mem_cons.2 ⟨ha, ih (forall_mem_cons.1 h).2⟩

lemma flatMap_coalesceFrom {β : Type*} {f : Span T → List β}
    (hjoin : ∀ a b, P a → P b → a.Touches b → P (a.join b))
    (hf : ∀ a b, P a → a.Touches b → f (a.join b) = f a ++ f b) (h : ∀ s ∈ a :: l, P s) :
    (coalesceFrom a l).flatMap f = (a :: l).flatMap f := by
  induction l generalizing a with
  | nil => rfl
  | cons b l ih =>
    have ha := h a (by simp)
    have hb := h b (by simp)
    rw [coalesceFrom]
    split
    · next htouch =>
      rw [ih (forall_mem_cons.2 ⟨hjoin a b ha hb htouch, fun s hs => h s (by simp [hs])⟩)]
      simp [hf a b ha htouch]
    · rw [flatMap_cons, ih (forall_mem_cons.1 h).2, flatMap_cons (x := a)]

def Separate (l : List (Span T)) : Prop := l.Pairwise fun a b => ¬ a.Touches b

lemma touches_of_coalesceFrom (h : Ascending (a :: b :: l)) (hs : s ∈ coalesceFrom b l)
    (htouch : a.Touches s) : a.Touches b := by
  have hab := h.behind b (by simp)
  have hbs := front_le_coalesceFrom h.tail hs
  obtain ⟨hback, htag⟩ := htouch
  have hfront : a.back = b.front := by omega
  refine ⟨hfront, htag.trans ?_⟩
  have hpos := (ascending_coalesceFrom h.tail).positive s hs
  have hposb := h.positive b (by simp)
  -- Both start at one address.
  have hcover : Covers (b :: l) b.front s.tag := by
    rw [← covers_coalesceFrom]
    refine ⟨s, hs, rfl, ?_⟩
    simp only [Span.back]
    omega
  refine h.tail.tag_eq hcover ⟨b, by simp, rfl, Nat.le_refl _, ?_⟩
  simp only [Span.back]
  omega

lemma separate_coalesceFrom (h : Ascending (a :: l)) : Separate (coalesceFrom a l) := by
  induction l generalizing a with
  | nil => exact pairwise_singleton _ _
  | cons b l ih =>
    rw [coalesceFrom]
    split
    · next htouch => exact ih (h.join htouch)
    · next hnot =>
      refine pairwise_cons.2 ⟨fun s hs htouch => ?_, ih h.tail⟩
      exact hnot (touches_of_coalesceFrom h hs htouch)

lemma separate_coalesce (h : Ascending l) : Separate (coalesce l) := by
  cases l with
  | nil => exact .nil
  | cons a l => exact separate_coalesceFrom h

end Lib
end BezOS
