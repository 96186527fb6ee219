import Mathlib.Data.Finmap
import Mathlib.Data.List.TakeWhile
import BezOS.Lib.OrderedList

/-!
# Sorted association lists

Lists of pairs with strictly increasing keys, as listings of finite maps: where a key stands in
such a list, and what inserting or deleting its pair does to the map.
-/

namespace BezOS
namespace Lib

open List

variable {K V : Type} [LinearOrder K]

def KeySorted (l : List (K × V)) : Prop := l.Pairwise fun x y => x.1 < y.1

/-- `l` lists the finite map `f`. -/
structure Lists (l : List (K × V)) (f : Finmap fun _ : K => V) : Prop where
  sorted : KeySorted l
  mem : ∀ k v, (k, v) ∈ l ↔ f.lookup k = some v

variable {l x y : List (K × V)} {k : K} {v : V} {f : Finmap fun _ : K => V} {e : K × V}

namespace KeySorted

lemma append_iff :
    KeySorted (x ++ y) ↔ KeySorted x ∧ KeySorted y ∧ ∀ a ∈ x, ∀ b ∈ y, a.1 < b.1 :=
  pairwise_append

lemma cons_iff : KeySorted (e :: y) ↔ (∀ b ∈ y, e.1 < b.1) ∧ KeySorted y :=
  pairwise_cons

lemma left (h : KeySorted (x ++ y)) : KeySorted x := (append_iff.1 h).1

lemma right (h : KeySorted (x ++ y)) : KeySorted y := (append_iff.1 h).2.1

lemma around (h : KeySorted (x ++ e :: y)) :
    (∀ a ∈ x, a.1 < e.1) ∧ ∀ b ∈ y, e.1 < b.1 := by
  rw [append_iff, cons_iff] at h
  exact ⟨fun a ha => h.2.2 a ha e (by simp), h.2.1.1⟩

lemma insert (h : KeySorted (x ++ y)) (hx : ∀ a ∈ x, a.1 < e.1) (hy : ∀ b ∈ y, e.1 < b.1) :
    KeySorted (x ++ e :: y) := by
  rw [append_iff] at h
  refine append_iff.2 ⟨h.1, cons_iff.2 ⟨hy, h.2.1⟩, fun a ha b hb => ?_⟩
  rcases mem_cons.1 hb with rfl | hb
  · exact hx a ha
  · exact h.2.2 a ha b hb

lemma delete (h : KeySorted (x ++ e :: y)) : KeySorted (x ++ y) :=
  h.sublist ((sublist_cons_self e y).append_left x)

end KeySorted

namespace Lists

lemma nil : Lists ([] : List (K × V)) ∅ :=
  ⟨List.Pairwise.nil, by simp⟩

lemma lookup_eq_none (h : Lists l f) (hk : ∀ e ∈ l, e.1 ≠ k) : f.lookup k = none := by
  cases hv : f.lookup k with
  | none => rfl
  | some v => exact absurd rfl (hk (k, v) ((h.mem k v).2 hv))

lemma insert {m : List (K × V)} (h : Lists (x ++ m ++ y) f) (hm : ∀ e ∈ m, e.1 = k)
    (hx : ∀ a ∈ x, a.1 < k) (hy : ∀ b ∈ y, k < b.1) :
    Lists (x ++ (k, v) :: y) (f.insert k v) := by
  have hxy : KeySorted (x ++ y) := by
    refine List.Pairwise.sublist ?_ h.sorted
    exact (sublist_append_left x m).append_right y
  refine ⟨hxy.insert hx hy, fun j w => ?_⟩
  have hmem := h.mem j w
  simp only [mem_append, mem_cons, Prod.mk.injEq] at hmem ⊢
  by_cases hj : j = k
  · subst hj
    rw [Finmap.lookup_insert, Option.some_inj]
    constructor
    · rintro (hw | ⟨-, rfl⟩ | hw)
      · exact absurd (hx _ hw) (lt_irrefl _)
      · rfl
      · exact absurd (hy _ hw) (lt_irrefl _)
    · rintro rfl
      exact .inr (.inl ⟨rfl, rfl⟩)
  · rw [Finmap.lookup_insert_of_ne _ hj, ← hmem]
    constructor
    · rintro (hw | ⟨rfl, -⟩ | hw)
      · exact .inl (.inl hw)
      · exact absurd rfl hj
      · exact .inr hw
    · rintro ((hw | hw) | hw)
      · exact .inl hw
      · exact absurd (hm _ hw) hj
      · exact .inr (.inr hw)

lemma erase {w : V} (h : Lists (x ++ (k, w) :: y) f) : Lists (x ++ y) (f.erase k) := by
  refine ⟨h.sorted.delete, fun j u => ?_⟩
  have ha := h.sorted.around
  have hmem := h.mem j u
  simp only [mem_append, mem_cons, Prod.mk.injEq] at hmem ⊢
  by_cases hj : j = k
  · subst hj
    rw [Finmap.lookup_erase]
    constructor
    · rintro (hu | hu)
      · exact absurd (ha.1 _ hu) (lt_irrefl _)
      · exact absurd (ha.2 _ hu) (lt_irrefl _)
    · simp
  · rw [Finmap.lookup_erase_ne hj, ← hmem]
    constructor
    · rintro (hu | hu)
      · exact .inl hu
      · exact .inr (.inr hu)
    · rintro (hu | ⟨rfl, -⟩ | hu)
      · exact .inl hu
      · exact absurd rfl hj
      · exact .inr hu

lemma erase_absent (h : Lists l f) (hk : ∀ e ∈ l, e.1 ≠ k) : f.erase k = f := by
  refine Finmap.ext_lookup fun j => ?_
  by_cases hj : j = k
  · subst hj
    rw [Finmap.lookup_erase, h.lookup_eq_none hk]
  · rw [Finmap.lookup_erase_ne hj]

lemma card_keys (h : Lists l f) : f.keys.card = l.length := by
  have hnodup : (l.map Prod.fst).Nodup :=
    List.Pairwise.imp (fun hlt => ne_of_lt hlt) (pairwise_map.2 h.sorted)
  have hkeys : f.keys = (l.map Prod.fst).toFinset := by
    ext j
    rw [Finmap.mem_keys, ← Finmap.lookup_isSome, Option.isSome_iff_exists, mem_toFinset,
      mem_map]
    constructor
    · rintro ⟨w, hw⟩
      exact ⟨(j, w), (h.mem j w).2 hw, rfl⟩
    · rintro ⟨⟨_, w⟩, hw, rfl⟩
      exact ⟨w, (h.mem _ w).1 hw⟩
  rw [hkeys, toFinset_card_of_nodup hnodup, length_map]

end Lists

lemma KeySorted.exists_cut (h : KeySorted l) (k : K) :
    ∃ x y, l = x ++ y ∧ (∀ a ∈ x, a.1 ≤ k) ∧ ∀ b ∈ y, k < b.1 := by
  refine ⟨l.takeWhile fun e => decide (e.1 ≤ k), l.dropWhile fun e => decide (e.1 ≤ k),
    (takeWhile_append_dropWhile).symm, fun a ha => by simpa using mem_takeWhile_imp ha,
    fun b hb => ?_⟩
  have hno := not_of_mem_dropWhile ?_ b hb
  · simpa using hno
  · refine h.imp fun {a b} hab hb => ?_
    simp only [decide_eq_true_eq] at hb ⊢
    exact hab.le.trans hb

end Lib
end BezOS
