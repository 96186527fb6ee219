import BezOS.Lib.Word
import BezOS.Status

/-!
# Deques of fixed size

`stdx::FixedSizeDeque` of `std/fixed_deque.hpp`: a ring over an array that is filled and emptied at
both ends. Elements go in at the back by moving `mBack` down, and at the front by moving `mFront` up;
`Holds` says which list, from back to front, a deque keeps.
-/

namespace BezOS
namespace stdx

open Lib List Nat

structure FixedSizeDeque (T : Type) where
  mCount : Nat
  mFront : Nat
  mBack : Nat
  mEntries : List T
  mCapacity : Nat

namespace FixedSizeDeque

variable {T : Type} (d : FixedSizeDeque T)

/-- The constructor, over an array of `size` elements. -/
def create (entries : List T) (size : Nat) : FixedSizeDeque T := ⟨0, 0, 0, entries, size⟩

def capacity : Nat := d.mCapacity
def count : Nat := d.mCount

def entryAt (index : Nat) : Except Fault T :=
  match d.mEntries[index]? with
  | some e => .ok e
  | none => .error .badAccess

def setEntry (index : Nat) (e : T) : Except Fault (List T) :=
  if index < d.mEntries.length then .ok (d.mEntries.set index e) else .error .badAccess

def addFront (e : T) : Except Fault (Bool × FixedSizeDeque T) :=
  if d.mCount = d.capacity then .ok (false, d)
  else do
    let entries ← d.setEntry d.mFront e
    pure (true, { d with
      mEntries := entries
      mFront := wrapAdd (2 ^ 64) d.mFront 1 % d.capacity
      mCount := wrapAdd (2 ^ 64) d.mCount 1 })

def popFront : Bool × FixedSizeDeque T :=
  if d.mCount = 0 then (false, d)
  else
    (true, { d with
      mCount := d.mCount - 1
      mFront := if d.mFront = 0 then wrapSub (2 ^ 64) d.capacity 1 else d.mFront - 1 })

def addBack (e : T) : Except Fault (Bool × FixedSizeDeque T) :=
  if d.mCount = d.capacity then .ok (false, d)
  else do
    let back := if d.mBack = 0 then wrapSub (2 ^ 64) d.capacity 1 else d.mBack - 1
    let entries ← d.setEntry back e
    pure (true, { d with
      mBack := back
      mEntries := entries
      mCount := wrapAdd (2 ^ 64) d.mCount 1 })

def popBack : Bool × FixedSizeDeque T :=
  if d.mCount = 0 then (false, d)
  else
    (true, { d with
      mCount := d.mCount - 1
      mBack := wrapAdd (2 ^ 64) d.mBack 1 % d.capacity })

def get (index : Nat) : Except Fault T :=
  if d.mCount = 0 ∨ index > d.mCount then d.entryAt 0
  else d.entryAt (wrapAdd (2 ^ 64) d.mBack index % d.capacity)

/-- `*--end()`. -/
def front : Except Fault T := d.get (wrapSub (2 ^ 64) d.mCount 1)

/-- `*begin()`. -/
def back : Except Fault T := d.get 0

def pollFront : Except Fault (T × FixedSizeDeque T) := do
  let result ← d.front
  pure (result, d.popFront.2)

def pollBack : Except Fault (T × FixedSizeDeque T) := do
  let result ← d.back
  pure (result, d.popBack.2)

variable {d} {e : T} {xs : List T} {c b i j n : Nat}

lemma setEntry_of_lt (h : i < d.mEntries.length) :
    d.setEntry i e = .ok (d.mEntries.set i e) := if_pos h

/-! ## Places in the ring -/

lemma down_add (hb : b < c) (j : Nat) :
    ((if b = 0 then c - 1 else b - 1) + (j + 1)) % c = (b + j) % c := by
  split
  · rw [show c - 1 + (j + 1) = b + j + c by omega, add_mod_right]
  · congr 1
    omega

lemma down_lt (hb : b < c) : (if b = 0 then c - 1 else b - 1) < c := by
  split <;> omega

lemma place_ne (hj : j < c) (hij : i < j) : (b + i) % c ≠ (b + j) % c := by
  intro h
  have heq := eq_of_mod_eq_of_window b (by omega) (by omega) (by omega) (by omega) h
  omega

/-! ## What a deque holds -/

/-- A deque that keeps the list, from its back to its front. An array takes up less than half of the
address space. -/
structure Holds (d : FixedSizeDeque T) (xs : List T) : Prop where
  capacity_pos : 0 < d.mCapacity
  capacity_lt : d.mCapacity < 2 ^ 63
  length_entries : d.mEntries.length = d.mCapacity
  count : d.mCount = xs.length
  count_le : xs.length ≤ d.mCapacity
  back_lt : d.mBack < d.mCapacity
  front : d.mFront = (d.mBack + xs.length) % d.mCapacity
  entries : ∀ i, i < xs.length → d.mEntries[(d.mBack + i) % d.mCapacity]? = xs[i]?

lemma holds_create {entries : List T} {size : Nat} (hlength : entries.length = size)
    (hpos : 0 < size) (hlt : size < 2 ^ 63) : (create entries size).Holds [] where
  capacity_pos := hpos
  capacity_lt := hlt
  length_entries := hlength
  count := rfl
  count_le := Nat.zero_le _
  back_lt := hpos
  front := (zero_mod _).symm
  entries := fun i hi => absurd hi (Nat.not_lt_zero i)

namespace Holds

section

variable (h : d.Holds xs)

include h

lemma front_lt : d.mFront < d.mCapacity := by
  rw [h.front]
  exact mod_lt _ h.capacity_pos

lemma addBack_full (hfull : xs.length = d.mCapacity) :
    d.addBack e = .ok (false, d) := if_pos (h.count.trans hfull)

lemma addFront_full (hfull : xs.length = d.mCapacity) :
    d.addFront e = .ok (false, d) := if_pos (h.count.trans hfull)

lemma addBack (e : T) (hspace : xs.length < d.mCapacity) :
    ∃ d', d.addBack e = .ok (true, d') ∧ d'.Holds (e :: xs) ∧ d'.mCapacity = d.mCapacity := by
  have hlt := h.capacity_lt
  have hcount := h.count
  have hdown := down_lt h.back_lt
  have hback : (if d.mBack = 0 then wrapSub (2 ^ 64) d.capacity 1 else d.mBack - 1) =
      if d.mBack = 0 then d.mCapacity - 1 else d.mBack - 1 := by
    rw [capacity, wrapSub_of_le h.capacity_pos (by omega)]
  obtain ⟨back, hbackEq⟩ : ∃ back, back = if d.mBack = 0 then d.mCapacity - 1 else d.mBack - 1 :=
    ⟨_, rfl⟩
  rw [← hbackEq] at hback hdown
  have hwrap : wrapAdd (2 ^ 64) d.mCount 1 = d.mCount + 1 := wrapAdd_of_lt (by omega)
  have hnext : ∀ j, (back + (j + 1)) % d.mCapacity = (d.mBack + j) % d.mCapacity := by
    intro j
    rw [hbackEq]
    exact down_add h.back_lt j
  refine ⟨{ d with
    mBack := back
    mEntries := d.mEntries.set back e
    mCount := d.mCount + 1 }, ?_, ?_, rfl⟩
  · have hset := @setEntry_of_lt T d e back (by rw [h.length_entries]; exact hdown)
    have hne : ¬ d.mCount = d.capacity := by
      rw [capacity]
      omega
    simp only [FixedSizeDeque.addBack, if_neg hne, hback, hset, hwrap]
    rfl
  · refine ⟨h.capacity_pos, hlt, ?_, ?_, ?_, hdown, ?_, ?_⟩
    · rw [length_set]
      exact h.length_entries
    · rw [length_cons, ← hcount]
    · rw [length_cons]
      exact hspace
    · rw [length_cons, hnext]
      exact h.front
    · intro i hi
      cases i with
      | zero =>
        change (d.mEntries.set back e)[(back + 0) % d.mCapacity]? = _
        rw [Nat.add_zero, mod_eq_of_lt hdown, getElem?_cons_zero]
        exact getElem?_set_self (by rw [h.length_entries]; exact hdown)
      | succ j =>
        have hj : j < xs.length := lt_of_succ_lt_succ hi
        have hne : back ≠ (back + (j + 1)) % d.mCapacity := by
          have h := @place_ne d.mCapacity back 0 (j + 1) (by omega) (succ_pos j)
          rwa [Nat.add_zero, mod_eq_of_lt hdown] at h
        rw [getElem?_set_ne hne, hnext, getElem?_cons_succ]
        exact h.entries j hj

lemma addFront (e : T) (hspace : xs.length < d.mCapacity) :
    ∃ d', d.addFront e = .ok (true, d') ∧ d'.Holds (xs ++ [e]) ∧ d'.mCapacity = d.mCapacity := by
  have hlt := h.capacity_lt
  have hcount := h.count
  have hfront := h.front_lt
  have hwrap : wrapAdd (2 ^ 64) d.mCount 1 = d.mCount + 1 := wrapAdd_of_lt (by omega)
  have hnext : wrapAdd (2 ^ 64) d.mFront 1 = d.mFront + 1 := wrapAdd_of_lt (by omega)
  refine ⟨{ d with
    mEntries := d.mEntries.set d.mFront e
    mFront := (d.mFront + 1) % d.mCapacity
    mCount := d.mCount + 1 }, ?_, ?_, rfl⟩
  · have hset := @setEntry_of_lt T d e d.mFront (by rw [h.length_entries]; exact hfront)
    have hne : ¬ d.mCount = d.capacity := by
      rw [capacity]
      omega
    simp only [FixedSizeDeque.addFront, if_neg hne, hset, hwrap, hnext]
    rfl
  · refine ⟨h.capacity_pos, hlt, ?_, ?_, ?_, h.back_lt, ?_, ?_⟩
    · rw [length_set]
      exact h.length_entries
    · rw [length_append, length_singleton, ← hcount]
    · rw [length_append, length_singleton]
      exact hspace
    · rw [length_append, length_singleton, ← Nat.add_assoc]
      rw [h.front, mod_add_mod]
    · intro i hi
      rw [length_append, length_singleton] at hi
      rcases Nat.lt_or_eq_of_le (le_of_lt_succ hi) with hi | rfl
      · have hne : d.mFront ≠ (d.mBack + i) % d.mCapacity := by
          rw [h.front]
          exact (place_ne hspace hi).symm
        rw [getElem?_set_ne hne, getElem?_append_left hi]
        exact h.entries i hi
      · rw [← h.front, getElem?_set_self (by rw [h.length_entries]; exact hfront)]
        simp

lemma get (hi : i < xs.length) : d.get i = .ok (xs.get ⟨i, hi⟩) := by
  have hlt := h.capacity_lt
  have hback := h.back_lt
  have hle := h.count_le
  have hwrap : wrapAdd (2 ^ 64) d.mBack i = d.mBack + i := wrapAdd_of_lt (by omega)
  rw [FixedSizeDeque.get, if_neg (by rw [h.count]; omega), entryAt, capacity, hwrap, h.entries i hi,
    getElem?_eq_getElem hi]
  rfl

end

lemma popFront (h : d.Holds (xs ++ [e])) :
    d.popFront = (true, d.popFront.2) ∧ d.popFront.2.Holds xs ∧
      d.popFront.2.mCapacity = d.mCapacity := by
  have hlength : (xs ++ [e]).length = xs.length + 1 := by
    rw [length_append, length_singleton]
  have hcount : d.mCount = xs.length + 1 := h.count.trans hlength
  have hlt := h.capacity_lt
  have hle := h.count_le
  have hfront := h.front_lt
  have hfrontEq := h.front
  rw [hlength] at hle hfrontEq
  have hwrap : wrapSub (2 ^ 64) d.capacity 1 = d.mCapacity - 1 :=
    wrapSub_of_le h.capacity_pos (hlt.trans (by decide))
  have hpop : d.popFront = (true, { d with
      mCount := d.mCount - 1
      mFront := if d.mFront = 0 then d.mCapacity - 1 else d.mFront - 1 }) := by
    rw [FixedSizeDeque.popFront, if_neg (by omega), hwrap]
  rw [hpop]
  refine ⟨rfl, ⟨h.capacity_pos, hlt, h.length_entries, ?_, le_of_succ_le hle, h.back_lt, ?_, ?_⟩,
    rfl⟩
  · exact Nat.sub_eq_of_eq_add hcount
  · -- one place down from the front is the place of the last element
    have hdown : ((if d.mFront = 0 then d.mCapacity - 1 else d.mFront - 1) + 1) % d.mCapacity =
        d.mFront := (down_add hfront 0).trans (mod_eq_of_lt hfront)
    have hdownLt := down_lt hfront
    generalize (if d.mFront = 0 then d.mCapacity - 1 else d.mFront - 1) = down at hdown hdownLt
    have hmod : (down + 1) % d.mCapacity = (d.mBack + xs.length + 1) % d.mCapacity := by
      rw [hdown, hfrontEq, Nat.add_assoc]
    have hcancel : down % d.mCapacity = (d.mBack + xs.length) % d.mCapacity :=
      ModEq.add_right_cancel' 1 hmod
    rwa [mod_eq_of_lt hdownLt] at hcancel
  · intro i hi
    have hentry := h.entries i (by omega)
    rwa [getElem?_append_left hi] at hentry

lemma popBack (h : d.Holds (e :: xs)) :
    d.popBack = (true, d.popBack.2) ∧ d.popBack.2.Holds xs ∧
      d.popBack.2.mCapacity = d.mCapacity := by
  have hcount : d.mCount = xs.length + 1 := h.count
  have hlt := h.capacity_lt
  have hle := h.count_le
  have hback := h.back_lt
  have hwrap : wrapAdd (2 ^ 64) d.mBack 1 = d.mBack + 1 := wrapAdd_of_lt (by omega)
  have hpop : d.popBack = (true, { d with
      mCount := d.mCount - 1
      mBack := (d.mBack + 1) % d.mCapacity }) := by
    rw [FixedSizeDeque.popBack, if_neg (by omega), hwrap]
    rfl
  have hshift : ∀ j, ((d.mBack + 1) % d.mCapacity + j) % d.mCapacity =
      (d.mBack + (j + 1)) % d.mCapacity := by
    intro j
    rw [mod_add_mod]
    congr 1
    omega
  rw [hpop]
  refine ⟨rfl, ⟨h.capacity_pos, hlt, h.length_entries, ?_, le_of_succ_le hle, ?_, ?_, ?_⟩, rfl⟩
  · exact Nat.sub_eq_of_eq_add hcount
  · exact mod_lt _ h.capacity_pos
  · exact h.front.trans (hshift xs.length).symm
  · intro i hi
    have hentry := h.entries (i + 1) (succ_lt_succ hi)
    rw [← hshift, getElem?_cons_succ] at hentry
    exact hentry

lemma pollFront (h : d.Holds (xs ++ [e])) :
    ∃ d', d.pollFront = .ok (e, d') ∧ d'.Holds xs ∧ d'.mCapacity = d.mCapacity := by
  have hlength : (xs ++ [e]).length = xs.length + 1 := by
    rw [length_append, length_singleton]
  have hcount : d.mCount = xs.length + 1 := h.count.trans hlength
  have hlt := h.capacity_lt
  have hle := h.count_le
  have hwrap : wrapSub (2 ^ 64) d.mCount 1 = xs.length := by
    rw [hcount, wrapSub_of_le (by omega) (by omega), Nat.add_sub_cancel]
  have hget := h.get (i := xs.length) (by omega)
  rw [get_eq_getElem, getElem_concat_length rfl] at hget
  obtain ⟨-, hrest, hcapacity⟩ := h.popFront
  refine ⟨_, ?_, hrest, hcapacity⟩
  rw [FixedSizeDeque.pollFront, FixedSizeDeque.front, hwrap, hget]
  rfl

lemma pollBack (h : d.Holds (e :: xs)) :
    ∃ d', d.pollBack = .ok (e, d') ∧ d'.Holds xs ∧ d'.mCapacity = d.mCapacity := by
  have hget := h.get (succ_pos _)
  obtain ⟨-, hrest, hcapacity⟩ := h.popBack
  refine ⟨_, ?_, hrest, hcapacity⟩
  rw [FixedSizeDeque.pollBack, FixedSizeDeque.back, hget]
  rfl

end Holds
end FixedSizeDeque
end stdx
end BezOS
