import BezOS.System.RangeTable

/-!
# What a range table says about an address

The meaning of a table: the value the segment covering an address gives it. An edit that replaces
the segments a range meets by pieces of themselves is understood address by address.
-/

namespace BezOS
namespace RangeTable

variable {S β : Type*} {range : S → AnyRange} {val : S → Nat → β}

variable (range val) in
/-- The value of an address, `none` where no segment covers it. -/
def valueAt (t : List S) (a : Nat) : Option β :=
  (t.find? fun s => decide ((range s).contains a)).map fun s => val s a

lemma valueAt_nil (a : Nat) : valueAt range val [] a = none := rfl

lemma valueAt_append (t u : List S) (a : Nat) :
    valueAt range val (t ++ u) a = (valueAt range val t a).or (valueAt range val u a) := by
  simp only [valueAt, List.find?_append]
  cases t.find? fun s => decide ((range s).contains a) <;> simp

lemma valueAt_cons (s : S) (t : List S) (a : Nat) :
    valueAt range val (s :: t) a =
      if (range s).contains a then some (val s a) else valueAt range val t a := by
  by_cases h : (range s).contains a <;> simp [valueAt, h]

variable {a : Nat} {t : List S}

lemma valueAt_eq_none_iff :
    valueAt range val t a = none ↔ ∀ s ∈ t, ¬ (range s).contains a := by
  simp [valueAt]

lemma valueAt_of_mem (hwf : WellFormed range t) {s : S} (hs : s ∈ t) (ha : (range s).contains a) :
    valueAt range val t a = some (val s a) := by
  induction t with
  | nil => simp at hs
  | cons u t ih =>
    rw [wellFormed_cons] at hwf
    rw [valueAt_cons]
    rcases List.mem_cons.1 hs with rfl | hs
    · rw [if_pos ha]
    · -- two segments of a table never share an address
      have hu : ¬ (range u).contains a := by
        have := hwf.2.2 s hs
        simp only [AnyRange.contains] at ha ⊢
        omega
      rw [if_neg hu, ih hwf.2.1 hs]

lemma exists_of_valueAt {v : β} (h : valueAt range val t a = some v) :
    ∃ s ∈ t, (range s).contains a ∧ v = val s a := by
  simp only [valueAt, Option.map_eq_some_iff] at h
  obtain ⟨s, hfind, hv⟩ := h
  have hs := List.find?_some hfind
  exact ⟨s, List.mem_of_find?_eq_some hfind, by simpa using hs, hv.symm⟩

variable (range val) in
/-- What an update `f` of the addresses of `r` does to the values of a table. -/
def updateAt (f : β → Option β) (r : AnyRange) (t : List S) (a : Nat) : Option β :=
  if r.contains a then (valueAt range val t a).bind f else valueAt range val t a

lemma valueAt_replace {pre mid post : List S} {r : AnyRange} (hwf : WellFormed range t)
    (h : Around range t r pre mid post) {f : β → Option β} {pieces : S → List S}
    (hpieces : ∀ s ∈ mid, ∀ a, valueAt range val (pieces s) a = updateAt range val f r [s] a)
    (a : Nat) :
    valueAt range val (pre ++ (mid.flatMap pieces ++ post)) a = updateAt range val f r t a := by
  have hmid : ∀ l : List S, WellFormed range l →
      (∀ s ∈ l, ∀ a, valueAt range val (pieces s) a = updateAt range val f r [s] a) →
      valueAt range val (l.flatMap pieces) a = updateAt range val f r l a := by
    intro l
    induction l with
    | nil =>
      intro _ _
      simp [updateAt, valueAt_nil]
    | cons s l ih =>
      intro hl hp
      rw [wellFormed_cons] at hl
      rw [List.flatMap_cons, valueAt_append, hp s (by simp),
        ih hl.2.1 fun u hu => hp u (by simp [hu])]
      simp only [updateAt, valueAt_cons, valueAt_nil]
      by_cases hsa : (range s).contains a
      · -- the address is in `s`, hence in no later segment
        have hnone : valueAt range val l a = none := by
          refine valueAt_eq_none_iff.2 fun u hu => ?_
          have := hl.2.2 u hu
          simp only [AnyRange.contains] at hsa ⊢
          omega
        split <;> simp [hnone]
      · split <;> simp
  rw [valueAt_append, valueAt_append, hmid mid (h.wf_parts hwf).2.1 hpieces, h.eq]
  simp only [updateAt, valueAt_append]
  by_cases hra : r.contains a
  · -- neither side of the table covers an address of the range
    have hpre : valueAt range val pre a = none := by
      refine valueAt_eq_none_iff.2 fun u hu => ?_
      have := h.before u hu
      simp only [AnyRange.contains] at hra ⊢
      omega
    have hpost : valueAt range val post a = none := by
      refine valueAt_eq_none_iff.2 fun u hu => ?_
      have := h.after u hu
      simp only [AnyRange.contains] at hra ⊢
      omega
    simp [hra, hpre, hpost]
  · simp [hra]

/-! ## The ordered map of a cut table -/

section Cut

open Lib

variable {pre post : List S} {s : S}

lemma insert_eq (hpre : ∀ a ∈ pre, (range a).back < (range s).back)
    (hpost : ∀ a ∈ post, (range s).back < (range a).back) :
    insert range (pre ++ post) s = pre ++ s :: post :=
  insertKey_append hpre hpost

section

variable (hwf : WellFormed range (pre ++ s :: post))

include hwf

lemma insert_inside {p : S} (hlow : (range s).front < (range p).back)
    (hhigh : (range p).back ≤ (range s).back) :
    insert range (pre ++ post) p = pre ++ p :: post := by
  refine insert_eq (fun a ha => ?_) fun a ha => ?_
  · have := hwf.at_cons.2.1 a ha
    omega
  · have := hwf.at_cons.2.2 a ha
    omega

lemma findKey_eq :
    findKey (back range) (range s).back (pre ++ s :: post) = pre.length := by
  refine findKey_append (fun a ha => ?_) rfl
  have h1 := hwf.at_cons.2.1 a ha
  have h2 := hwf.at_cons.1
  simp only [back]
  omega

lemma findAddress_eq (ha : (range s).front < a ∧ a < (range s).back) :
    findAddress range (pre ++ s :: post) a = pre.length := by
  have hlower : lowerBound (back range) a (pre ++ s :: post) = pre.length := by
    refine lowerBound_append (fun u hu => ?_) fun u hu => ?_
    · have := hwf.at_cons.2.1 u hu
      simp only [back]
      omega
    · rcases List.mem_cons.1 hu with rfl | hu
      · exact ha.2.le
      · have := hwf.at_cons.2.2 u hu
        simp only [back]
        omega
  have hcon : (range s).contains a := ⟨ha.1.le, ha.2⟩
  simp [findAddress, hlower, if_pos hcon]

end

end Cut

end RangeTable
end BezOS
