import Mathlib.Order.Nat
import Mathlib.Data.List.TakeWhile
import BezOS.Lib.OrderedList
import BezOS.Memory.Range

/-!
# Range tables

`sys::detail::RangeTable` of `system/detail/range_table.hpp`: segments of an address space in an
ordered map keyed by the end of their range. The map is a list ordered by that key, an iterator
is a position in it and `end()` is the length.
-/

namespace BezOS
namespace RangeTable

open Lib List

variable {S : Type*} (range : S → AnyRange)

def back (s : S) : Nat := (range s).back

/-- `find(Address)`: the segment that contains the address, found through `lower_bound`. -/
def findAddress (t : List S) (address : Nat) : Nat :=
  let it := lowerBound (back range) address t
  match t[it]? with
  | some segment => if (range segment).contains address then it else t.length
  | none => t.length

/-- The tail of `find(Range)`: step back from a last segment the range does not reach. -/
def findEnd (t : List S) (r : AnyRange) (begin end' : Nat) : Nat × Nat :=
  let end' := if end' = t.length ∧ begin ≠ t.length then end' - 1 else end'
  match t[end']? with
  | some segment =>
      if (range segment).front = r.back ∨ ¬ r.intersects (range segment) then (begin, end' - 1)
      else (begin, end')
  | none => (begin, end')

/-- `find(Range)`: the first and the last segment the range intersects. -/
def find (t : List S) (r : AnyRange) : Nat × Nat :=
  let begin := upperBound (back range) r.front t
  let end' := lowerBound (back range) r.back t
  match t[begin]? with
  | some segment =>
      if (range segment).containsRange r then (begin, begin)
      else if ¬ r.intersects (range segment) then findEnd range t r t.length t.length
      else findEnd range t r begin end'
  | none => findEnd range t r begin end'

def insert (t : List S) (s : S) : List S := insertKey (back range) s t

/-! ## Well-formed tables -/

/-- Non-empty segments in address order, no two of which share an address. -/
structure WellFormed (t : List S) : Prop where
  nonempty : ∀ s ∈ t, (range s).front < (range s).back
  disjoint : t.Pairwise fun a b => (range a).back ≤ (range b).front

/-- A table cut at a range: the segments before it, those that meet it, those after it. -/
structure Around (t : List S) (r : AnyRange) (pre mid post : List S) : Prop where
  eq : t = pre ++ (mid ++ post)
  before : ∀ s ∈ pre, (range s).back ≤ r.front
  meets : ∀ s ∈ mid, r.front < (range s).back ∧ (range s).front < r.back
  after : ∀ s ∈ post, r.back ≤ (range s).front

variable {range} {t : List S} {parts : S → List S}

lemma WellFormed.nil : WellFormed range ([] : List S) :=
  ⟨by simp, List.Pairwise.nil⟩

lemma wellFormed_append {u : List S} :
    WellFormed range (t ++ u) ↔
      WellFormed range t ∧ WellFormed range u ∧
        ∀ a ∈ t, ∀ b ∈ u, (range a).back ≤ (range b).front := by
  constructor
  · rintro ⟨hne, hdis⟩
    rw [pairwise_append] at hdis
    exact ⟨⟨fun s hs => hne s (by simp [hs]), hdis.1⟩,
      ⟨fun s hs => hne s (by simp [hs]), hdis.2.1⟩, hdis.2.2⟩
  · rintro ⟨ht, hu, htu⟩
    refine ⟨fun s hs => ?_, pairwise_append.2 ⟨ht.disjoint, hu.disjoint, htu⟩⟩
    rcases mem_append.1 hs with hs | hs
    · exact ht.nonempty s hs
    · exact hu.nonempty s hs

lemma wellFormed_cons {s : S} :
    WellFormed range (s :: t) ↔
      (range s).front < (range s).back ∧ WellFormed range t ∧
        ∀ b ∈ t, (range s).back ≤ (range b).front := by
  constructor
  · rintro ⟨hne, hdis⟩
    rw [pairwise_cons] at hdis
    exact ⟨hne s (by simp), ⟨fun b hb => hne b (by simp [hb]), hdis.2⟩, hdis.1⟩
  · rintro ⟨hs, ht, hst⟩
    refine ⟨fun b hb => ?_, pairwise_cons.2 ⟨hst, ht.disjoint⟩⟩
    rcases mem_cons.1 hb with rfl | hb
    · exact hs
    · exact ht.nonempty b hb

lemma WellFormed.of_map_eq {u : List S} (h : t.map range = u.map range) (hwf : WellFormed range t) :
    WellFormed range u := by
  have hne : ∀ x ∈ t.map range, x.front < x.back := by
    simpa using hwf.nonempty
  have hdis : (t.map range).Pairwise fun a b => a.back ≤ b.front :=
    pairwise_map.2 hwf.disjoint
  rw [h] at hne hdis
  exact ⟨by simpa using hne, pairwise_map.1 hdis⟩

lemma WellFormed.at_cons {pre post : List S} {s : S} (hwf : WellFormed range (pre ++ s :: post)) :
    (range s).front < (range s).back ∧
      (∀ a ∈ pre, (range a).front < (range a).back ∧ (range a).back ≤ (range s).front) ∧
        ∀ b ∈ post, (range s).back ≤ (range b).front ∧ (range b).front < (range b).back := by
  rw [wellFormed_append, wellFormed_cons] at hwf
  exact ⟨hwf.2.1.1, fun a ha => ⟨hwf.1.nonempty a ha, hwf.2.2 a ha s (by simp)⟩,
    fun b hb => ⟨hwf.2.1.2.2 b hb, hwf.2.1.2.1.nonempty b hb⟩⟩

lemma WellFormed.flatMap (hwf : WellFormed range t) (hparts : ∀ s ∈ t, WellFormed range (parts s))
    (hinside : ∀ s ∈ t, ∀ p ∈ parts s,
      (range s).front ≤ (range p).front ∧ (range p).back ≤ (range s).back) :
    WellFormed range (t.flatMap parts) := by
  induction t with
  | nil => exact WellFormed.nil
  | cons s t ih =>
    have hcons := wellFormed_cons.1 hwf
    rw [flatMap_cons, wellFormed_append]
    refine ⟨hparts s (by simp), ih hcons.2.1 (fun u hu => hparts u (by simp [hu]))
      (fun u hu => hinside u (by simp [hu])), ?_⟩
    intro p hp q hq
    obtain ⟨u, hu, hq⟩ := mem_flatMap.1 hq
    have h1 := hinside s (by simp) p hp
    have h2 := hinside u (by simp [hu]) q hq
    have h3 := hcons.2.2 u hu
    omega

lemma WellFormed.replace {pre post parts : List S} {s : S}
    (hwf : WellFormed range (pre ++ s :: post)) (hparts : WellFormed range parts)
    (hinside : ∀ p ∈ parts, (range s).front ≤ (range p).front ∧ (range p).back ≤ (range s).back) :
    WellFormed range (pre ++ (parts ++ post)) := by
  have hat := hwf.at_cons
  rw [wellFormed_append, wellFormed_cons] at hwf
  refine wellFormed_append.2 ⟨hwf.1, wellFormed_append.2 ⟨hparts, hwf.2.1.2.1, ?_⟩, ?_⟩
  · intro p hp b hb
    exact (hinside p hp).2.trans (hat.2.2 b hb).1
  · intro a ha b hb
    rcases mem_append.1 hb with hb | hb
    · exact (hat.2.1 a ha).2.trans (hinside b hb).1
    · exact hwf.2.2 a ha b (by simp [hb])

lemma WellFormed.exists_around (hwf : WellFormed range t) (r : AnyRange) :
    ∃ pre mid post, Around range t r pre mid post := by
  let before : S → Bool := fun s => decide ((range s).back ≤ r.front)
  let starts : S → Bool := fun s => decide ((range s).front < r.back)
  let rest := t.dropWhile before
  have hbefore : ∀ s ∈ rest, before s = false := by
    refine not_of_mem_dropWhile (hwf.disjoint.imp_of_mem ?_)
    intro a b ha hb hab
    have := hwf.nonempty b hb
    simp only [before, decide_eq_true_eq]
    omega
  have hrest : rest.Sublist t := dropWhile_sublist _
  have hstarts : ∀ s ∈ rest.dropWhile starts, starts s = false := by
    refine not_of_mem_dropWhile ((hwf.disjoint.sublist hrest).imp_of_mem ?_)
    intro a b ha hb hab
    have := hwf.nonempty a (hrest.subset ha)
    simp only [starts, decide_eq_true_eq]
    omega
  refine ⟨t.takeWhile before, rest.takeWhile starts, rest.dropWhile starts, ?_, ?_, ?_, ?_⟩
  · rw [takeWhile_append_dropWhile, takeWhile_append_dropWhile]
  · intro s hs
    simpa [before] using mem_takeWhile_imp hs
  · intro s hs
    have h1 := hbefore s ((takeWhile_sublist _).subset hs)
    have h2 := mem_takeWhile_imp hs
    simp only [before, starts, decide_eq_false_iff_not, decide_eq_true_eq] at h1 h2
    exact ⟨by omega, h2⟩
  · intro s hs
    have h := hstarts s hs
    simp only [starts, decide_eq_false_iff_not] at h
    omega

/-! ## What a lookup finds -/

namespace Around

variable {t pre mid post : List S} {r : AnyRange}

lemma wf_parts (hwf : WellFormed range t) (h : Around range t r pre mid post) :
    WellFormed range pre ∧ WellFormed range mid ∧ WellFormed range post ∧
      (∀ a ∈ pre, ∀ b ∈ mid ++ post, (range a).back ≤ (range b).front) ∧
        ∀ a ∈ mid, ∀ b ∈ post, (range a).back ≤ (range b).front := by
  rw [h.eq, wellFormed_append, wellFormed_append] at hwf
  exact ⟨hwf.1, hwf.2.1.1, hwf.2.1.2.1, hwf.2.2, hwf.2.1.2.2⟩

lemma upperBound_front (hwf : WellFormed range t) (hr : r.front < r.back)
    (h : Around range t r pre mid post) :
    upperBound (back range) r.front t = pre.length := by
  have hparts := h.wf_parts hwf
  rw [h.eq]
  refine upperBound_append h.before fun a ha => ?_
  rcases mem_append.1 ha with ha | ha
  · exact (h.meets a ha).1
  · have h1 := h.after a ha
    have h2 := hparts.2.2.1.nonempty a ha
    simp only [back]
    omega

lemma filter_meets (h : Around range t r pre mid post) :
    (t.filter fun s => decide (AnyRange.Meets r (range s))) = mid := by
  have hpre : pre.filter (fun s => decide (AnyRange.Meets r (range s))) = [] := by
    rw [filter_eq_nil_iff]
    intro s hs
    have := h.before s hs
    rw [decide_eq_true_eq, AnyRange.Meets]
    omega
  have hpost : post.filter (fun s => decide (AnyRange.Meets r (range s))) = [] := by
    rw [filter_eq_nil_iff]
    intro s hs
    have := h.after s hs
    rw [decide_eq_true_eq, AnyRange.Meets]
    omega
  have hmid : mid.filter (fun s => decide (AnyRange.Meets r (range s))) = mid := by
    rw [filter_eq_self]
    intro s hs
    have := h.meets s hs
    rw [decide_eq_true_eq, AnyRange.Meets]
    omega
  simp [h.eq, hpre, hmid, hpost]

lemma wf_replace (hwf : WellFormed range t) (h : Around range t r pre mid post)
    (hparts : ∀ s ∈ mid, WellFormed range (parts s)) (hinside : ∀ s ∈ mid, ∀ p ∈ parts s,
      (range s).front ≤ (range p).front ∧ (range p).back ≤ (range s).back) :
    WellFormed range (pre ++ (mid.flatMap parts ++ post)) := by
  obtain ⟨hpre, hmid, hpost, hpm, hmp⟩ := h.wf_parts hwf
  have hin : ∀ p ∈ mid.flatMap parts, ∃ s ∈ mid,
      (range s).front ≤ (range p).front ∧ (range p).back ≤ (range s).back := by
    intro p hp
    obtain ⟨s, hs, hp⟩ := mem_flatMap.1 hp
    exact ⟨s, hs, hinside s hs p hp⟩
  refine wellFormed_append.2 ⟨hpre, wellFormed_append.2 ⟨hmid.flatMap hparts hinside, hpost, ?_⟩, ?_⟩
  · intro p hp b hb
    obtain ⟨s, hs, -, hps⟩ := hin p hp
    exact hps.trans (hmp s hs b hb)
  · intro a ha b hb
    rcases mem_append.1 hb with hb | hb
    · obtain ⟨s, hs, hps, -⟩ := hin b hb
      exact (hpm a ha s (by simp [hs])).trans hps
    · exact hpm a ha b (by simp [hb])

section

variable (hwf : WellFormed range t) (hr : r.front < r.back)

include hwf hr

lemma find_nil (h : Around range t r pre [] post) : find range t r = (t.length, t.length) := by
  have hend : findEnd range t r t.length t.length = (t.length, t.length) := by
    simp [findEnd]
  have hlower : lowerBound (back range) r.back t = pre.length := by
    rw [h.eq]
    refine lowerBound_append (fun a ha => lt_of_le_of_lt (h.before a ha) hr) fun a ha => ?_
    have h1 := h.after a (by simpa using ha)
    have h2 := (h.wf_parts hwf).2.2.1.nonempty a (by simpa using ha)
    simp only [back]
    omega
  simp only [find, h.upperBound_front hwf hr, hlower]
  cases post with
  | nil =>
    have hlen : t.length = pre.length := by simp [h.eq]
    have hnone : t[pre.length]? = none := by simp [hlen]
    rw [hnone]
    simpa [hlen] using hend
  | cons p post =>
    have hp : t[pre.length]? = some p := by simp [h.eq]
    have h1 := h.after p (by simp)
    have h2 := (h.wf_parts hwf).2.2.1.nonempty p (by simp)
    have hnot : ¬ (range p).containsRange r := by
      simp only [AnyRange.containsRange]
      omega
    have hmiss : ¬ r.intersects (range p) := by
      simp only [AnyRange.intersects, AnyRange.contains, AnyRange.containsRange]
      omega
    simp [hp, hnot, hmiss, hend]

lemma findEnd_concat {init : List S} {last : S} (h : Around range t r pre (init ++ [last]) post)
    (hmeet : r.intersects (range last)) :
    findEnd range t r pre.length (lowerBound (back range) r.back t) =
      (pre.length, pre.length + init.length) := by
  have hlast := h.meets last (by simp)
  have hparts := h.wf_parts hwf
  have hinit : ∀ a ∈ pre ++ init, back range a < r.back := by
    intro a ha
    rcases mem_append.1 ha with ha | ha
    · exact lt_of_le_of_lt (h.before a ha) hr
    · have := (wellFormed_append.1 hparts.2.1).2.2 a ha last (by simp)
      simp only [back]
      omega
  have hpost : ∀ a ∈ post, r.back < back range a := by
    intro a ha
    have h1 := h.after a ha
    have h2 := hparts.2.2.1.nonempty a ha
    simp only [back]
    omega
  have hlen : t.length = pre.length + init.length + 1 + post.length := by
    simp [h.eq]
    omega
  have hget : t[pre.length + init.length]? = some last := by
    rw [h.eq]
    have : pre ++ (init ++ [last] ++ post) = (pre ++ init) ++ last :: post := by simp
    rw [this, ← length_append]
    exact getElem?_append_cons
  have hstop : ¬ ((range last).front = r.back ∨ ¬ r.intersects (range last)) := by
    rintro (heq | hno)
    · omega
    · exact hno hmeet
  by_cases hback : r.back ≤ back range last
  · have hlower : lowerBound (back range) r.back t = pre.length + init.length := by
      have : t = (pre ++ init) ++ last :: post := by simp [h.eq]
      rw [this, lowerBound_append hinit, length_append]
      intro a ha
      rcases mem_cons.1 ha with rfl | ha
      · exact hback
      · exact (hpost a ha).le
    have hne : ¬ (pre.length + init.length = t.length ∧ pre.length ≠ t.length) := by omega
    simp only [findEnd, hlower, if_neg hne, hget, if_neg hstop]
  · have hlower : lowerBound (back range) r.back t = pre.length + init.length + 1 := by
      have : t = (pre ++ init ++ [last]) ++ post := by simp [h.eq]
      rw [this, lowerBound_append]
      · simp
        omega
      · intro a ha
        rcases mem_append.1 ha with ha | ha
        · exact hinit a ha
        · rw [mem_singleton.1 ha]
          omega
      · exact fun a ha => (hpost a ha).le
    cases post with
    | nil =>
      have hcond : pre.length + init.length + 1 = t.length ∧ pre.length ≠ t.length := by
        simp at hlen
        omega
      simp [findEnd, hlower, if_pos hcond, hget, if_neg hstop]
    | cons p post =>
      have hne : ¬ (pre.length + init.length + 1 = t.length ∧ pre.length ≠ t.length) := by
        simp at hlen
        omega
      have hp : t[pre.length + init.length + 1]? = some p := by
        have : t = (pre ++ init ++ [last]) ++ p :: post := by simp [h.eq]
        rw [this]
        have hl : pre.length + init.length + 1 = (pre ++ init ++ [last]).length := by
          simp
          omega
        rw [hl]
        exact getElem?_append_cons
      have h1 := h.after p (by simp)
      have h2 := hparts.2.2.1.nonempty p (by simp)
      have hmiss : (range p).front = r.back ∨ ¬ r.intersects (range p) := by
        right
        simp only [AnyRange.intersects, AnyRange.contains, AnyRange.containsRange]
        omega
      simp [findEnd, hlower, if_neg hne, hp, if_pos hmiss]

lemma find_concat {init : List S} {last : S} (h : Around range t r pre (init ++ [last]) post) :
    find range t r = (pre.length, pre.length + init.length) := by
  have hparts := h.wf_parts hwf
  have hlast := h.meets last (by simp)
  obtain ⟨first, hget, hfirst⟩ : ∃ s, t[pre.length]? = some s ∧ s ∈ (init ++ [last]).head? := by
    cases init with
    | nil => exact ⟨last, by simp [h.eq], by simp⟩
    | cons s init => exact ⟨s, by simp [h.eq], by simp⟩
  have hmf := h.meets first (mem_of_mem_head? hfirst)
  simp only [find, h.upperBound_front hwf hr, hget]
  cases init with
  | nil =>
    obtain rfl : first = last := by simpa using hfirst.symm
    by_cases hcon : (range first).containsRange r
    · simp [hcon]
    · have hmeet : r.intersects (range first) := by
        simp only [AnyRange.intersects, AnyRange.contains, AnyRange.containsRange] at hcon ⊢
        omega
      simp only [hcon, hmeet, not_true_eq_false, if_false]
      exact h.findEnd_concat hwf hr hmeet
  | cons s init =>
    obtain rfl : first = s := by simpa using hfirst.symm
    have hord := (wellFormed_append.1 hparts.2.1).2.2 first (by simp) last (by simp)
    have hnot : ¬ (range first).containsRange r := by
      simp only [AnyRange.containsRange]
      omega
    have hmeet : ∀ x, first = x ∨ last = x → r.intersects (range x) := by
      rintro x (rfl | rfl) <;>
        simp only [AnyRange.intersects, AnyRange.contains, AnyRange.containsRange] at hnot ⊢ <;>
        omega
    simp only [hnot, hmeet first (Or.inl rfl), not_true_eq_false, if_false]
    exact h.findEnd_concat hwf hr (hmeet last (Or.inr rfl))

end

end Around

end RangeTable
end BezOS
