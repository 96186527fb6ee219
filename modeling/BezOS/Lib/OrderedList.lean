import Mathlib.Order.Lattice
import Mathlib.Data.List.Basic
import Mathlib.Tactic.Common

/-!
# Lists ordered by a key

The list view of an ordered map: elements carry their key, positions stand for iterators and
the length of the list for the past-the-end iterator. Every lookup is given by where it falls
in a list cut into a lower and an upper part.
-/

namespace BezOS
namespace Lib

open List

section Ordered

variable {α κ : Type*} [LinearOrder κ] (key : α → κ)

/-- Position of the first element whose key is not below `k`. -/
def lowerBound (k : κ) (l : List α) : Nat := l.findIdx fun a => decide (k ≤ key a)

/-- Position of the first element whose key is above `k`. -/
def upperBound (k : κ) (l : List α) : Nat := l.findIdx fun a => decide (k < key a)

/-- Position of the element with key `k`. -/
def findKey (k : κ) (l : List α) : Nat := l.findIdx fun a => decide (key a = k)

/-- Ordered insertion; an element with the same key stays in place of the new one. -/
def insertKey (x : α) : List α → List α
  | [] => [x]
  | a :: l =>
      if key x < key a then x :: a :: l
      else if key x = key a then a :: l
      else a :: insertKey x l

variable {key} {l : List α} {x : α} {k : κ}

lemma findIdx_append_of_split {p : α → Bool} {pre post : List α}
    (hpre : ∀ a ∈ pre, p a = false) (hpost : ∀ a ∈ post.head?, p a = true) :
    (pre ++ post).findIdx p = pre.length := by
  induction pre with
  | nil =>
    cases post with
    | nil => rfl
    | cons b post => simp [findIdx_cons, hpost b (by simp)]
  | cons a pre ih =>
    have ha : p a = false := hpre a (by simp)
    have htail : ∀ b ∈ pre, p b = false := fun b hb => hpre b (by simp [hb])
    simp [findIdx_cons, ha, ih htail]

lemma lowerBound_append {pre post : List α} (hpre : ∀ a ∈ pre, key a < k)
    (hpost : ∀ a ∈ post, k ≤ key a) : lowerBound key k (pre ++ post) = pre.length := by
  apply findIdx_append_of_split
  · intro a ha
    simpa using hpre a ha
  · intro a ha
    simpa using hpost a (mem_of_mem_head? ha)

lemma length_le_lowerBound {pre post : List α} (hpre : ∀ a ∈ pre, key a < k) :
    pre.length ≤ lowerBound key k (pre ++ post) := by
  induction pre with
  | nil => exact Nat.zero_le _
  | cons a pre ih =>
    have ha : ¬ k ≤ key a := not_le_of_gt (hpre a (by simp))
    have htail := ih fun b hb => hpre b (by simp [hb])
    simp only [lowerBound, cons_append, findIdx_cons, ha, decide_false, cond_false,
      length_cons] at htail ⊢
    exact Nat.succ_le_succ htail

lemma upperBound_append {pre post : List α} (hpre : ∀ a ∈ pre, key a ≤ k)
    (hpost : ∀ a ∈ post, k < key a) : upperBound key k (pre ++ post) = pre.length := by
  apply findIdx_append_of_split
  · intro a ha
    simpa using hpre a ha
  · intro a ha
    simpa using hpost a (mem_of_mem_head? ha)

lemma findKey_append {pre post : List α} (hpre : ∀ a ∈ pre, key a ≠ k) (hx : key x = k) :
    findKey key k (pre ++ x :: post) = pre.length := by
  apply findIdx_append_of_split
  · intro a ha
    simpa using hpre a ha
  · simp [hx]

lemma insertKey_append {pre post : List α} (hpre : ∀ a ∈ pre, key a < key x)
    (hpost : ∀ a ∈ post, key x < key a) :
    insertKey key x (pre ++ post) = pre ++ x :: post := by
  induction pre with
  | nil =>
    cases post with
    | nil => rfl
    | cons b post => simp [insertKey, hpost b (by simp)]
  | cons a pre ih =>
    have ha : key a < key x := hpre a (by simp)
    have htail : ∀ b ∈ pre, key b < key x := fun b hb => hpre b (by simp [hb])
    simp [insertKey, not_lt_of_gt ha, ne_of_gt ha, ih htail]

lemma upperBound_spec (hsorted : l.Pairwise fun a b => key a < key b) (k : κ) :
    (∀ a ∈ l.take (upperBound key k l), key a ≤ k) ∧
      (∀ a ∈ l.drop (upperBound key k l), k < key a) ∧ upperBound key k l ≤ l.length := by
  induction l with
  | nil => simp [upperBound]
  | cons x l ih =>
    obtain ⟨hx, hl⟩ := pairwise_cons.1 hsorted
    by_cases hlt : k < key x
    · have hzero : upperBound key k (x :: l) = 0 := by simp [upperBound, findIdx_cons, hlt]
      rw [hzero]
      refine ⟨by simp, forall_mem_cons.2 ⟨hlt, fun a ha => ?_⟩, Nat.zero_le _⟩
      exact hlt.trans (hx a ha)
    · have hsucc : upperBound key k (x :: l) = upperBound key k l + 1 := by
        simp [upperBound, findIdx_cons, hlt]
      obtain ⟨htake, hdrop, hle⟩ := ih hl
      rw [hsucc, take_succ_cons, drop_succ_cons, length_cons]
      exact ⟨forall_mem_cons.2 ⟨not_lt.1 hlt, htake⟩, hdrop, Nat.succ_le_succ hle⟩

lemma upperBound_of_getElem? (hsorted : l.Pairwise fun a b => key a < key b) {i : Nat}
    (hi : l[i]? = some x) : upperBound key (key x) l = i + 1 := by
  obtain ⟨hlt, rfl⟩ := List.getElem?_eq_some_iff.1 hi
  have hcut : l = l.take (i + 1) ++ l.drop (i + 1) := (take_append_drop _ _).symm
  have hlength : (l.take (i + 1)).length = i + 1 := length_take_of_le hlt
  have hpairs := pairwise_iff_getElem.1 hsorted
  have hbound := @upperBound_append α κ _ key (key l[i]) (l.take (i + 1)) (l.drop (i + 1)) ?_ ?_
  · rwa [← hcut, hlength] at hbound
  · intro a ha
    obtain ⟨j, hj, rfl⟩ := mem_take_iff_getElem.1 ha
    rcases Nat.lt_or_eq_of_le (Nat.le_of_lt_succ (Nat.lt_of_lt_of_le hj (Nat.min_le_left _ _)))
      with hlt' | rfl
    · exact (hpairs j i _ hlt hlt').le
    · exact le_refl _
  · intro a ha
    obtain ⟨j, hj, rfl⟩ := mem_drop_iff_getElem.1 ha
    exact hpairs i (i + 1 + j) hlt _ (by omega)

lemma mem_of_mem_insertKey {a : α} (h : a ∈ insertKey key x l) :
    a = x ∨ a ∈ l := by
  induction l with
  | nil => exact .inl (mem_singleton.1 h)
  | cons b l ih =>
    rw [insertKey] at h
    split at h
    · exact mem_cons.1 h
    · split at h
      · exact .inr h
      · rcases mem_cons.1 h with rfl | h
        · exact .inr (mem_cons_self ..)
        · exact (ih h).imp_right (mem_cons_of_mem _)

lemma insertKey_sorted (hsorted : l.Pairwise fun a b => key a < key b) :
    (insertKey key x l).Pairwise fun a b => key a < key b := by
  induction l with
  | nil => exact pairwise_singleton _ _
  | cons b l ih =>
    obtain ⟨hb, hl⟩ := pairwise_cons.1 hsorted
    rw [insertKey]
    split
    · rename_i hlt
      refine pairwise_cons.2 ⟨forall_mem_cons.2 ⟨hlt, fun a ha => ?_⟩, hsorted⟩
      exact hlt.trans (hb a ha)
    · rename_i hlt
      split
      · exact hsorted
      · rename_i hne
        refine pairwise_cons.2 ⟨fun a ha => ?_, ih hl⟩
        rcases mem_of_mem_insertKey ha with rfl | ha
        · exact lt_of_le_of_ne (not_lt.1 hlt) (Ne.symm hne)
        · exact hb a ha

end Ordered

section Cut

variable {α : Type*} {x : α}

lemma getElem?_append_cons {pre post : List α} :
    (pre ++ x :: post)[pre.length]? = some x := by
  simp

lemma eraseIdx_append_cons {pre post : List α} :
    (pre ++ x :: post).eraseIdx pre.length = pre ++ post := by
  rw [eraseIdx_append_of_length_le (Nat.le_refl _)]
  simp

lemma insertIdx_append {pre post : List α} :
    (pre ++ post).insertIdx pre.length x = pre ++ x :: post := by
  induction pre with
  | nil => simp
  | cons a pre ih => simpa using ih

lemma modify_append_cons {pre post : List α} {f : α → α} :
    (pre ++ x :: post).modify pre.length f = pre ++ f x :: post := by
  induction pre with
  | nil => rfl
  | cons a pre ih => simpa using ih

lemma exists_append_cons {l : List α} {n : Nat} (h : n < l.length) :
    ∃ pre x post, l = pre ++ x :: post ∧ pre.length = n :=
  ⟨l.take n, l[n], l.drop (n + 1), by simp, by simp; omega⟩

lemma ends_cases (l : List α) :
    l = [] ∨ (∃ x, l = [x]) ∨ ∃ x inner y, l = x :: (inner ++ [y]) := by
  cases l with
  | nil => exact .inl rfl
  | cons x rest =>
    rcases eq_nil_or_concat rest with rfl | ⟨inner, y, rfl⟩
    · exact .inr (.inl ⟨x, rfl⟩)
    · exact .inr (.inr ⟨x, inner, y, by simp⟩)

lemma not_of_mem_dropWhile {p : α → Bool} {l : List α}
    (hmono : l.Pairwise fun a b => p b = true → p a = true) :
    ∀ a ∈ l.dropWhile p, p a = false := by
  induction l with
  | nil => simp
  | cons x l ih =>
    rw [pairwise_cons] at hmono
    intro a ha
    rw [dropWhile_cons] at ha
    by_cases hx : p x = true
    · rw [if_pos hx] at ha
      exact ih hmono.2 a ha
    · rw [if_neg hx] at ha
      rcases mem_cons.1 ha with rfl | hmem
      · simpa using hx
      · by_contra hpa
        exact hx (hmono.1 a hmem (by simpa using hpa))

end Cut

end Lib
end BezOS

/-!
## Bisection

The halving loop of `std::partition_point`, from which `std::lower_bound` and `std::upper_bound`
come: on an array that a predicate cuts in two it finds the cut.
-/

namespace BezOS
namespace Lib

variable {p : Nat → Bool} {n first len fuel : Nat}

/-- The first of `len` positions where `p` fails, if all that pass stand before those that fail. -/
def partitionPoint (p : Nat → Bool) : Nat → Nat → Nat → Nat
  | 0, first, _ => first
  | fuel + 1, first, len =>
    if len = 0 then first
    else if p (first + len / 2) then
      partitionPoint p fuel (first + len / 2 + 1) (len - len / 2 - 1)
    else partitionPoint p fuel first (len / 2)

/-- Before the position everything passes, from it on nothing does. -/
structure CutAt (p : Nat → Bool) (n cut : Nat) : Prop where
  le : cut ≤ n
  before : ∀ i < cut, p i = true
  behind : ∀ i, cut ≤ i → i < n → p i = false

lemma partitionPoint_cutAt_of (hmono : ∀ i j, i ≤ j → j < n → p j = true → p i = true)
    (hfuel : len ≤ fuel) (hle : first + len ≤ n) (hbefore : ∀ i < first, p i = true)
    (hbehind : ∀ i, first + len ≤ i → i < n → p i = false) :
    CutAt p n (partitionPoint p fuel first len) := by
  induction fuel generalizing first len with
  | zero =>
    have hlen : len = 0 := Nat.le_zero.1 hfuel
    subst hlen
    exact ⟨hle, hbefore, hbehind⟩
  | succ fuel ih =>
    rw [partitionPoint]
    split
    · rename_i hlen
      subst hlen
      exact ⟨hle, hbefore, hbehind⟩
    · split
      · rename_i hmid
        refine ih (by omega) (by omega) (fun i hi => ?_) fun i hi hn => hbehind i (by omega) hn
        exact hmono i _ (Nat.le_of_lt_succ hi) (by omega) hmid
      · rename_i hmid
        refine ih (by omega) (by omega) hbefore fun i hi hn => ?_
        rw [Bool.eq_false_iff]
        exact fun hpass => hmid (hmono _ i hi hn hpass)

lemma partitionPoint_cutAt (hmono : ∀ i j, i ≤ j → j < n → p j = true → p i = true) :
    CutAt p n (partitionPoint p n 0 n) :=
  partitionPoint_cutAt_of hmono (Nat.le_refl n) (Nat.le_of_eq (Nat.zero_add n))
    (fun i hi => absurd hi (Nat.not_lt_zero i)) fun i hi hn => by omega

end Lib
end BezOS
