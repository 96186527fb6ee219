import Mathlib.Logic.Function.Basic
import BezOS.Lib.Association
import BezOS.Status

/-!
# Flat maps

`sm::StaticFlatMap` of `std/container/static_flat_map.hpp`: keys in order in one array and their
values in another, both of fixed size. A key is found by bisection; an insertion moves what is
behind the place of the key up, a removal moves it down.

The comparison is any strict weak order: it compares the ranks of keys in a linear order, and for
`std::less` a key is its own rank. A pointer to a value is the value, an iterator its index.
-/

namespace BezOS
namespace sm

open Lib

structure StaticFlatMap (K V : Type) where
  mKeys : Nat → K
  mValues : Nat → V
  mCapacity : Nat
  mCount : Nat

namespace StaticFlatMap

variable {K V R : Type} [LinearOrder R] (rank : K → R) (s : StaticFlatMap K V)

/-- The constructor, over storage for `capacity` entries. -/
def create (keys : Nat → K) (values : Nat → V) (capacity : Nat) : StaticFlatMap K V :=
  ⟨keys, values, capacity, 0⟩

def isFull : Prop := s.mCount = s.mCapacity
  deriving Decidable

def mCompare (a b : K) : Bool := decide (rank a < rank b)

/-- `std::lower_bound`, as an index. -/
def lowerBound (key : K) : Nat :=
  partitionPoint (fun i => mCompare rank (s.mKeys i) key) s.mCount 0 s.mCount

/-- `std::upper_bound`, as an index. -/
def upperBound (key : K) : Nat :=
  partitionPoint (fun i => !mCompare rank key (s.mKeys i)) s.mCount 0 s.mCount

def setEntry (i : Nat) (key : K) (value : V) : StaticFlatMap K V :=
  { s with mKeys := Function.update s.mKeys i key, mValues := Function.update s.mValues i value }

/-- The loop of `insert`, with `n` entries from `index` on still to move up. -/
def moveUp (index : Nat) : Nat → StaticFlatMap K V → StaticFlatMap K V
  | 0, s => s
  | n + 1, s =>
    moveUp index n (s.setEntry (index + n + 1) (s.mKeys (index + n)) (s.mValues (index + n)))

/-- The loop of `remove`, with `n` entries behind `i` still to move down. -/
def moveDown : Nat → Nat → StaticFlatMap K V → StaticFlatMap K V
  | 0, _, s => s
  | n + 1, i, s => moveDown n (i + 1) (s.setEntry i (s.mKeys (i + 1)) (s.mValues (i + 1)))

/-- Whether the entry at an index that `lowerBound` gave is that of the key. -/
def isAt (index : Nat) (key : K) : Prop :=
  index ≠ s.mCount ∧ ¬ mCompare rank key (s.mKeys index) ∧ ¬ mCompare rank (s.mKeys index) key
  deriving Decidable

def insert (key : K) (value : V) : StaticFlatMap K V × OsStatus :=
  if s.isFull then (s, .outOfMemory)
  else
    let index := s.lowerBound rank key
    if s.isAt rank index key then
      ({ s with mValues := Function.update s.mValues index value }, .success)
    else
      let moved := (s.moveUp index (s.mCount - index)).setEntry index key value
      ({ moved with mCount := s.mCount + 1 }, .success)

def remove (key : K) : StaticFlatMap K V × OsStatus :=
  let index := s.lowerBound rank key
  if s.isAt rank index key then
    ({ moveDown (s.mCount - 1 - index) index s with mCount := s.mCount - 1 }, .success)
  else (s, .notFound)

def find (key : K) : Option V :=
  let index := s.lowerBound rank key
  if s.isAt rank index key then some (s.mValues index) else none

def slot (i : Nat) : K × V := (s.mKeys i, s.mValues i)

def entryAt (index : Nat) : Option (K × V) :=
  if index = s.mCount then none else some (s.slot index)

inductive Call (K V : Type)
  | insert (key : K) (value : V)
  | remove (key : K)
  | find (key : K)
  | lowerBound (key : K)
  | upperBound (key : K)

inductive Answer (V : Type)
  | status (status : OsStatus)
  | value (value : Option V)
  | iterator (index : Nat)

def step : Call K V → StaticFlatMap K V × Answer V
  | .insert key value => ((s.insert rank key value).1, .status (s.insert rank key value).2)
  | .remove key => ((s.remove rank key).1, .status (s.remove rank key).2)
  | .find key => (s, .value (s.find rank key))
  | .lowerBound key => (s, .iterator (s.lowerBound rank key))
  | .upperBound key => (s, .iterator (s.upperBound rank key))

/-! ## The bounded map -/

/-- Keys of one rank are one key; the map keeps the one that came first, with its value. -/
abbrev Map (R K V : Type) : Type := Finmap fun _ : R => K × V

def IsFirst (m : Map R K V) (P : R → Prop) : Option (K × V) → Prop
  | none => ∀ r ∈ m, ¬ P r
  | some e => ∃ r, m.lookup r = some e ∧ P r ∧ ∀ r' ∈ m, P r' → r ≤ r'

/-- The calls of a map that has room for `capacity` entries, where an iterator at `index` points at
`entry index`. -/
inductive BoundedStep (capacity : Nat) (entry : Nat → Option (K × V)) :
    Map R K V → Call K V → Answer V → Map R K V → Prop where
  | replace {m : Map R K V} {key old : K} {value was : V} :
      m.lookup (rank key) = some (old, was) →
      BoundedStep capacity entry m (.insert key value) (.status .success)
        (m.insert (rank key) (old, value))
  | add {m : Map R K V} {key : K} {value : V} :
      m.lookup (rank key) = none → m.keys.card ≠ capacity →
      BoundedStep capacity entry m (.insert key value) (.status .success)
        (m.insert (rank key) (key, value))
  | full {m : Map R K V} {key : K} {value : V} :
      m.lookup (rank key) = none → m.keys.card = capacity →
      BoundedStep capacity entry m (.insert key value) (.status .outOfMemory) m
  | erase {m : Map R K V} {key : K} :
      rank key ∈ m →
      BoundedStep capacity entry m (.remove key) (.status .success) (m.erase (rank key))
  | missing {m : Map R K V} {key : K} :
      rank key ∉ m → BoundedStep capacity entry m (.remove key) (.status .notFound) m
  | find {m : Map R K V} {key : K} :
      BoundedStep capacity entry m (.find key)
        (.value ((m.lookup (rank key)).map Prod.snd)) m
  | lowerBound {m : Map R K V} {key : K} {index : Nat} :
      IsFirst m (rank key ≤ ·) (entry index) →
      BoundedStep capacity entry m (.lowerBound key) (.iterator index) m
  | upperBound {m : Map R K V} {key : K} {index : Nat} :
      IsFirst m (rank key < ·) (entry index) →
      BoundedStep capacity entry m (.upperBound key) (.iterator index) m

def entries : List (R × (K × V)) :=
  (List.range s.mCount).map fun i => (rank (s.mKeys i), s.slot i)

/-- The arrays list the map in strict order of its keys, and it has room. -/
structure Represents (s : StaticFlatMap K V) (m : Map R K V) : Prop where
  lists : Lists (s.entries rank) m
  room : s.mCount ≤ s.mCapacity

def Refines : StaticFlatMap K V → Map R K V → List (Call K V) → Prop
  | s, m, [] => Represents rank s m
  | s, m, c :: calls => Represents rank s m ∧ ∃ m',
      BoundedStep rank s.mCapacity s.entryAt m c (s.step rank c).2 m' ∧
        Refines (s.step rank c).1 m' calls

/-- An insertion of a key that is there, into a map that is full. -/
def ReplacesWhenFull : Call K V → Prop
  | .insert key _ => s.isFull ∧ ∃ i < s.mCount, rank (s.mKeys i) = rank key
  | _ => False

/-- None of the calls finds the map full and its key there. -/
def NeverReplacesFull : StaticFlatMap K V → List (Call K V) → Prop
  | _, [] => True
  | s, c :: calls => ¬ s.ReplacesWhenFull rank c ∧ NeverReplacesFull (s.step rank c).1 calls

end StaticFlatMap
end sm
end BezOS

/-!
## The flat map is a bounded map

The arrays list a finite map in strict order, and every call answers and acts as the bounded map
does, except one: an insertion that would replace a value is refused when the map is full, since
`insert` looks for room before it looks for the key.
-/

namespace BezOS
namespace sm
namespace StaticFlatMap

open Lib Finmap List

variable {K V R : Type} {rank : K → R} {s : StaticFlatMap K V} {key : K} {value : V}
variable {index i j n : Nat} {change : StaticFlatMap K V}

/-! ## The arrays -/

@[simp] lemma slot_setEntry : (s.setEntry i key value).slot j =
    if j = i then (key, value) else s.slot j := by
  by_cases h : j = i
  · subst h
    simp [slot, setEntry]
  · simp only [slot, setEntry, Function.update_of_ne h, if_neg h]

lemma slot_moveUp : (s.moveUp index n).slot j =
    if index < j ∧ j ≤ index + n then s.slot (j - 1) else s.slot j := by
  induction n generalizing s with
  | zero => rw [moveUp, if_neg (by omega)]
  | succ n ih =>
    rw [moveUp, ih, slot_setEntry, slot_setEntry]
    by_cases hlast : j = index + n + 1
    · subst hlast
      rw [if_neg (by omega), if_pos rfl, if_pos (by omega)]
      rfl
    · rw [if_neg hlast]
      by_cases hin : index < j ∧ j ≤ index + n
      · rw [if_pos hin, if_neg (by omega), if_pos (by omega)]
      · rw [if_neg hin, if_neg (by omega)]

lemma slot_moveDown : (moveDown n index s).slot j =
    if index ≤ j ∧ j < index + n then s.slot (j + 1) else s.slot j := by
  induction n generalizing index s with
  | zero => rw [moveDown, if_neg (by omega)]
  | succ n ih =>
    rw [moveDown, ih, slot_setEntry, slot_setEntry]
    by_cases hfirst : j = index
    · subst hfirst
      rw [if_neg (by omega), if_pos rfl, if_pos (by omega)]
      rfl
    · rw [if_neg hfirst]
      by_cases hin : index + 1 ≤ j ∧ j < index + 1 + n
      · rw [if_pos hin, if_neg (by omega), if_pos (by omega)]
      · rw [if_neg hin, if_neg (by omega)]

@[simp] lemma length_entries : (s.entries rank).length = s.mCount := by
  rw [entries, length_map, length_range]

@[simp] lemma getElem_entries (h : i < (s.entries rank).length) :
    (s.entries rank)[i] = (rank (s.slot i).1, s.slot i) := by
  simp [entries, slot]

lemma entries_eq_of_slots {l : List (R × (K × V))} (hlength : l.length = s.mCount)
    (hslots : ∀ i (h : i < l.length), l[i] = (rank (s.slot i).1, s.slot i)) :
    s.entries rank = l := by
  refine ext_getElem (length_entries.trans hlength.symm) fun i h h' => ?_
  rw [getElem_entries, hslots]

@[simp] lemma mCapacity_moveUp : (s.moveUp index n).mCapacity = s.mCapacity := by
  induction n generalizing s with
  | zero => rfl
  | succ n ih => exact ih

@[simp] lemma mCapacity_moveDown : (moveDown n index s).mCapacity = s.mCapacity := by
  induction n generalizing index s with
  | zero => rfl
  | succ n ih => exact ih

/-- Below the index the ranks have the property, from it on they do not. -/
structure SplitAt (rank : K → R) (s : StaticFlatMap K V) (P : R → Prop) (index : Nat) : Prop where
  le : index ≤ s.mCount
  before : ∀ i < index, P (rank (s.mKeys i))
  behind : ∀ i, index ≤ i → i < s.mCount → ¬ P (rank (s.mKeys i))

lemma entries_cut {P : R → Prop} (hsplit : SplitAt rank s P index) :
    ∃ pre post, s.entries rank = pre ++ post ∧ pre.length = index ∧ (∀ a ∈ pre, P a.1) ∧
      ∀ b ∈ post, ¬ P b.1 := by
  have hle := hsplit.le
  refine ⟨(s.entries rank).take index, (s.entries rank).drop index,
    (take_append_drop ..).symm, ?_, fun a ha => ?_, fun b hb => ?_⟩
  · rw [length_take, length_entries]
    omega
  · obtain ⟨i, hi, rfl⟩ := mem_take_iff_getElem.1 ha
    rw [getElem_entries]
    exact hsplit.before i (by omega)
  · obtain ⟨i, hi, rfl⟩ := mem_drop_iff_getElem.1 hb
    rw [getElem_entries]
    rw [length_entries] at hi
    exact hsplit.behind _ (Nat.le_add_right ..) (by omega)

lemma entries_around (rank : K → R) (hlt : index < s.mCount) :
    ∃ pre post, s.entries rank = pre ++ (rank (s.mKeys index), s.slot index) :: post ∧
      pre.length = index := by
  have hlt' : index < (s.entries rank).length := by rw [length_entries]; exact hlt
  obtain ⟨pre, x, post, hcut, hlength⟩ := exists_append_cons hlt'
  have hx : x = (rank (s.mKeys index), s.slot index) := by
    have hget : (s.entries rank)[index]? = some x := by
      rw [hcut, ← hlength]
      exact getElem?_append_cons
    rw [getElem?_eq_getElem hlt', getElem_entries] at hget
    exact (Option.some.inj hget).symm
  exact ⟨pre, post, hx ▸ hcut, hlength⟩

/-! ## Changing the arrays -/

lemma entries_add (hle : index ≤ s.mCount) (hcount : change.mCount = s.mCount + 1)
    (hslot : ∀ i, change.slot i =
      ((s.moveUp index (s.mCount - index)).setEntry index key value).slot i) :
    change.entries rank = (s.entries rank).insertIdx index (rank key, (key, value)) := by
  have hindex : index ≤ (s.entries rank).length := by rw [length_entries]; exact hle
  refine entries_eq_of_slots ?_ fun i hi => ?_
  · rw [length_insertIdx_of_le_length hindex, length_entries, hcount]
  · rw [length_insertIdx_of_le_length hindex, length_entries] at hi
    rw [hslot, slot_setEntry, slot_moveUp]
    rcases Nat.lt_trichotomy i index with hlt | rfl | hgt
    · rw [getElem_insertIdx_of_lt hlt, getElem_entries, if_neg (by omega), if_neg (by omega)]
    · rw [getElem_insertIdx_self, if_pos rfl]
    · rw [getElem_insertIdx_of_gt hgt, getElem_entries, if_neg (by omega), if_pos (by omega)]

lemma entries_remove (hlt : index < s.mCount) (hcount : change.mCount = s.mCount - 1)
    (hslot : ∀ i, change.slot i = (moveDown (s.mCount - 1 - index) index s).slot i) :
    change.entries rank = (s.entries rank).eraseIdx index := by
  refine entries_eq_of_slots ?_ fun i hi => ?_
  · rw [length_eraseIdx_of_lt (by rw [length_entries]; exact hlt), length_entries, hcount]
  · rw [length_eraseIdx_of_lt (by rw [length_entries]; exact hlt), length_entries] at hi
    rw [hslot, slot_moveDown]
    by_cases hi' : i < index
    · rw [getElem_eraseIdx_of_lt _ hi', getElem_entries, if_neg (by omega)]
    · rw [getElem_eraseIdx_of_ge _ (by omega), getElem_entries, if_pos (by omega)]

lemma entries_replace (hcount : change.mCount = s.mCount)
    (hslot : ∀ i, change.slot i = if i = index then (s.mKeys index, value) else s.slot i) :
    change.entries rank =
      (s.entries rank).set index (rank (s.mKeys index), (s.mKeys index, value)) := by
  refine entries_eq_of_slots ?_ fun i hi => ?_
  · rw [length_set, length_entries, hcount]
  · rw [getElem_set, getElem_entries, hslot]
    by_cases heq : index = i
    · rw [if_pos heq, if_pos heq.symm]
    · rw [if_neg heq, if_neg (Ne.symm heq)]

/-! ## Finding the place of a key -/

variable [LinearOrder R] {m : Map R K V} {calls : List (Call K V)}

section

variable (h : Represents rank s m)

include h

lemma rank_lt_of_lt (hij : i < j) (hj : j < s.mCount) :
    rank (s.mKeys i) < rank (s.mKeys j) := by
  have hpairs := pairwise_iff_getElem.1 h.lists.sorted i j
    (by rw [length_entries]; omega) (by rw [length_entries]; exact hj) hij
  simpa only [getElem_entries, slot] using hpairs

lemma rank_le_of_le (hij : i ≤ j) (hj : j < s.mCount) :
    rank (s.mKeys i) ≤ rank (s.mKeys j) := by
  rcases Nat.lt_or_eq_of_le hij with hlt | rfl
  · exact (rank_lt_of_lt h hlt hj).le
  · exact le_refl _

lemma lowerBound_splits (key : K) :
    SplitAt rank s (· < rank key) (s.lowerBound rank key) := by
  have hcut := partitionPoint_cutAt
    (p := fun i => mCompare rank (s.mKeys i) key) fun i j hij hj hpass => by
      simp only [mCompare, decide_eq_true_eq] at hpass ⊢
      exact (rank_le_of_le h hij hj).trans_lt hpass
  exact ⟨hcut.le, fun i hi => of_decide_eq_true (hcut.before i hi),
    fun i hi hn => of_decide_eq_false (hcut.behind i hi hn)⟩

lemma upperBound_splits (key : K) :
    SplitAt rank s (· ≤ rank key) (s.upperBound rank key) := by
  have hcut := partitionPoint_cutAt
    (p := fun i => !mCompare rank key (s.mKeys i)) fun i j hij hj hpass => by
      simp only [mCompare, Bool.not_eq_true', decide_eq_false_iff_not, not_lt] at hpass ⊢
      exact (rank_le_of_le h hij hj).trans hpass
  refine ⟨hcut.le, fun i hi => ?_, fun i hi hn => ?_⟩
  · simpa [mCompare] using hcut.before i hi
  · simpa [mCompare] using hcut.behind i hi hn

lemma lookup_slot (hi : i < s.mCount) :
    m.lookup (rank (s.mKeys i)) = some (s.slot i) := by
  refine (h.lists.mem _ _).1 (mem_iff_getElem.2 ⟨i, by rw [length_entries]; exact hi, ?_⟩)
  rw [getElem_entries]
  rfl

lemma exists_slot {r : R} (hr : r ∈ m) :
    ∃ i < s.mCount, rank (s.mKeys i) = r := by
  obtain ⟨e, he⟩ := Option.isSome_iff_exists.1 (lookup_isSome.2 hr)
  obtain ⟨i, hi, heq⟩ := mem_iff_getElem.1 ((h.lists.mem r e).2 he)
  rw [getElem_entries] at heq
  rw [length_entries] at hi
  exact ⟨i, hi, congrArg Prod.fst heq⟩

lemma mem_iff_slot {r : R} :
    r ∈ m ↔ ∃ i < s.mCount, rank (s.mKeys i) = r := by
  refine ⟨exists_slot h, ?_⟩
  rintro ⟨i, hi, rfl⟩
  exact lookup_isSome.1 (by rw [lookup_slot h hi]; rfl)

lemma isFirst_entryAt {P Q : R → Prop} (hsplit : SplitAt rank s P index) (hnot : ∀ r, Q r ↔ ¬ P r) :
    IsFirst m Q (s.entryAt index) := by
  rw [entryAt]
  split
  · rename_i hend
    intro r hr hQ
    obtain ⟨i, hi, rfl⟩ := exists_slot h hr
    exact (hnot _).1 hQ (hsplit.before i (by omega))
  · rename_i hend
    have hlt : index < s.mCount := Nat.lt_of_le_of_ne hsplit.le hend
    refine ⟨_, lookup_slot h hlt, (hnot _).2 (hsplit.behind index (Nat.le_refl _) hlt), ?_⟩
    intro r hr hQ
    obtain ⟨i, hi, rfl⟩ := exists_slot h hr
    refine rank_le_of_le h (Nat.not_lt.1 fun hlt => ?_) hi
    exact (hnot _).1 hQ (hsplit.before i hlt)

end

lemma isAt_iff : s.isAt rank index key ↔
    index ≠ s.mCount ∧ rank (s.mKeys index) = rank key := by
  simp only [isAt, mCompare, decide_eq_true_eq, not_lt]
  constructor
  · rintro ⟨hne, hle, hge⟩
    exact ⟨hne, le_antisymm hle hge⟩
  · rintro ⟨hne, heq⟩
    exact ⟨hne, heq.le, heq.ge⟩

lemma isAt_iff_mem (h : Represents rank s m) :
    s.isAt rank (s.lowerBound rank key) key ↔ rank key ∈ m := by
  have hsplit := lowerBound_splits h key
  rw [isAt_iff, mem_iff_slot h]
  constructor
  · rintro ⟨hne, heq⟩
    exact ⟨_, Nat.lt_of_le_of_ne hsplit.le hne, heq⟩
  · rintro ⟨i, hi, heq⟩
    -- No key before the bound has this rank, and the bound itself has the least of the others.
    have hle : s.lowerBound rank key ≤ i :=
      Nat.not_lt.1 fun hlt => (hsplit.before i hlt).ne heq
    have hlt : s.lowerBound rank key < s.mCount := Nat.lt_of_le_of_lt hle hi
    refine ⟨Nat.ne_of_lt hlt, le_antisymm ?_ (not_lt.1 (hsplit.behind _ (Nat.le_refl _) hlt))⟩
    exact (rank_le_of_le h hle hi).trans heq.le

/-! ## Changing the map -/

section

variable (h : Represents rank s m)

include h

lemma mem_of_mem_entries {e : R × (K × V)} (he : e ∈ s.entries rank) : e.1 ∈ m :=
  lookup_isSome.1 (by rw [(h.lists.mem e.1 e.2).1 he]; rfl)

lemma represents_add (hroom : ¬ s.isFull) (hkey : rank key ∉ m)
    (hcount : change.mCount = s.mCount + 1) (hcapacity : change.mCapacity = s.mCapacity)
    (hslot : ∀ i, change.slot i =
      ((s.moveUp (s.lowerBound rank key) (s.mCount - s.lowerBound rank key)).setEntry
        (s.lowerBound rank key) key value).slot i) :
    Represents rank change (m.insert (rank key) (key, value)) := by
  have hsplit := lowerBound_splits h key
  obtain ⟨pre, post, hcut, hlength, hpre, hpost⟩ := entries_cut hsplit
  have hlists := h.lists
  rw [hcut, ← append_nil pre] at hlists
  constructor
  · rw [entries_add hsplit.le hcount hslot, hcut, ← hlength, insertIdx_append]
    refine hlists.insert (by simp) hpre fun b hb => lt_of_le_of_ne (not_lt.1 (hpost b hb)) ?_
    rintro heq
    exact hkey (heq ▸ mem_of_mem_entries h (hcut ▸ mem_append_right pre hb))
  · have hle := h.room
    rw [isFull] at hroom
    omega

lemma represents_replace (hlt : index < s.mCount) (hcount : change.mCount = s.mCount)
    (hcapacity : change.mCapacity = s.mCapacity)
    (hslot : ∀ i, change.slot i = if i = index then (s.mKeys index, value) else s.slot i) :
    Represents rank change (m.insert (rank (s.mKeys index)) (s.mKeys index, value)) := by
  obtain ⟨pre, post, hcut, hlength⟩ := entries_around rank hlt
  have hlists := h.lists
  have haround := (hcut ▸ h.lists.sorted).around
  rw [hcut, append_cons] at hlists
  subst hlength
  constructor
  · rw [entries_replace hcount hslot, hcut, set_append_right _ _ (Nat.le_refl _),
      Nat.sub_self, set_cons_zero]
    exact hlists.insert (by simp) haround.1 haround.2
  · rw [hcount, hcapacity]
    exact h.room

lemma represents_remove (hlt : index < s.mCount) (hcount : change.mCount = s.mCount - 1)
    (hcapacity : change.mCapacity = s.mCapacity)
    (hslot : ∀ i, change.slot i = (moveDown (s.mCount - 1 - index) index s).slot i) :
    Represents rank change (m.erase (rank (s.mKeys index))) := by
  obtain ⟨pre, post, hcut, hlength⟩ := entries_around rank hlt
  have hlists := h.lists
  rw [hcut] at hlists
  subst hlength
  constructor
  · rw [entries_remove hlt hcount hslot, hcut, eraseIdx_append_cons]
    exact hlists.erase
  · have hle := h.room
    omega

end

/-! ## Calls -/

section

variable (h : Represents rank s m)

include h

lemma insert_cases (key : K) (value : V) :
    (s.isFull ∧ s.insert rank key value = (s, .outOfMemory)) ∨
      (¬ s.isFull ∧ (∃ old was, m.lookup (rank key) = some (old, was) ∧
        Represents rank (s.insert rank key value).1 (m.insert (rank key) (old, value))) ∧
        (s.insert rank key value).2 = .success) ∨
      (¬ s.isFull ∧ rank key ∉ m ∧
        Represents rank (s.insert rank key value).1 (m.insert (rank key) (key, value)) ∧
        (s.insert rank key value).2 = .success) := by
  have hmem : s.isAt rank (s.lowerBound rank key) key ↔ _ := isAt_iff_mem h
  rw [insert]
  by_cases hfull : s.isFull
  · rw [if_pos hfull]
    exact .inl ⟨hfull, rfl⟩
  · rw [if_neg hfull]
    by_cases hat : s.isAt rank (s.lowerBound rank key) key
    · rw [if_pos hat]
      obtain ⟨hne, heq⟩ := isAt_iff.1 hat
      have hlt := Nat.lt_of_le_of_ne (lowerBound_splits h key).le hne
      refine .inr (.inl ⟨hfull, ⟨_, _, heq ▸ lookup_slot h hlt, ?_⟩, rfl⟩)
      rw [← heq]
      refine represents_replace h hlt rfl rfl fun i => ?_
      by_cases hi : i = s.lowerBound rank key
      · subst hi
        simp [slot]
      · simp only [slot, Function.update_of_ne hi, if_neg hi]
    · rw [if_neg hat]
      have hkey : rank key ∉ m := fun hm => hat (hmem.2 hm)
      exact .inr (.inr ⟨hfull, hkey,
        represents_add h hfull hkey rfl mCapacity_moveUp fun i => rfl, rfl⟩)

lemma remove_cases (key : K) :
    (rank key ∈ m ∧ Represents rank (s.remove rank key).1 (m.erase (rank key)) ∧
      (s.remove rank key).2 = .success) ∨
      (rank key ∉ m ∧ s.remove rank key = (s, .notFound)) := by
  have hmem : s.isAt rank (s.lowerBound rank key) key ↔ _ := isAt_iff_mem h
  rw [remove]
  by_cases hat : s.isAt rank (s.lowerBound rank key) key
  · rw [if_pos hat]
    obtain ⟨hne, heq⟩ := isAt_iff.1 hat
    have hlt := Nat.lt_of_le_of_ne (lowerBound_splits h key).le hne
    refine .inl ⟨hmem.1 hat, ?_, rfl⟩
    rw [← heq]
    exact represents_remove h hlt rfl mCapacity_moveDown fun i => rfl
  · rw [if_neg hat]
    exact .inr ⟨fun hm => hat (hmem.2 hm), rfl⟩

lemma find_eq (key : K) :
    s.find rank key = (m.lookup (rank key)).map Prod.snd := by
  have hmem : s.isAt rank (s.lowerBound rank key) key ↔ _ := isAt_iff_mem h
  rw [find]
  by_cases hat : s.isAt rank (s.lowerBound rank key) key
  · obtain ⟨hne, heq⟩ := isAt_iff.1 hat
    have hlt := Nat.lt_of_le_of_ne (lowerBound_splits h key).le hne
    rw [if_pos hat, ← heq, lookup_slot h hlt]
    rfl
  · rw [if_neg hat, lookup_eq_none.2 fun hm => hat (hmem.2 hm)]
    rfl

lemma isFull_iff : s.isFull ↔ m.keys.card = s.mCapacity := by
  rw [h.lists.card_keys, length_entries, isFull]

lemma replacesWhenFull_insert_iff :
    s.ReplacesWhenFull rank (.insert key value) ↔ s.isFull ∧ rank key ∈ m := by
  rw [mem_iff_slot h]
  rfl

lemma exists_boundedStep {c : Call K V} (hno : ¬ s.ReplacesWhenFull rank c) :
    ∃ m', BoundedStep rank s.mCapacity s.entryAt m c (s.step rank c).2 m' ∧
      Represents rank (s.step rank c).1 m' := by
  cases c with
  | insert key value =>
    rw [replacesWhenFull_insert_iff h, not_and] at hno
    rw [step]
    rcases insert_cases h key value with ⟨hfull, heq⟩ | ⟨hfull, ⟨old, was, hold, hrep⟩, heq⟩ |
      ⟨hfull, hkey, hrep, heq⟩
    · rw [heq]
      exact ⟨m, .full (lookup_eq_none.2 (hno hfull)) ((isFull_iff h).1 hfull), h⟩
    · rw [heq]
      exact ⟨_, .replace hold, hrep⟩
    · rw [heq]
      exact ⟨_, .add (lookup_eq_none.2 hkey) fun hcard => hfull ((isFull_iff h).2 hcard),
        hrep⟩
  | remove key =>
    rw [step]
    rcases remove_cases h key with ⟨hkey, hrep, heq⟩ | ⟨hkey, heq⟩
    · rw [heq]
      exact ⟨_, .erase hkey, hrep⟩
    · rw [heq]
      exact ⟨m, .missing hkey, h⟩
  | find key =>
    refine ⟨m, ?_, h⟩
    rw [step, find_eq h key]
    exact .find
  | lowerBound key =>
    exact ⟨m, .lowerBound (isFirst_entryAt h (lowerBound_splits h key) fun r => not_lt.symm), h⟩
  | upperBound key =>
    exact ⟨m, .upperBound (isFirst_entryAt h (upperBound_splits h key) fun r => not_le.symm), h⟩

lemma not_boundedStep {c : Call K V} (hreplaces : s.ReplacesWhenFull rank c) {m' : Map R K V} :
    ¬ BoundedStep rank s.mCapacity s.entryAt m c (s.step rank c).2 m' := by
  cases c with
  | insert key value =>
    obtain ⟨hfull, hkey⟩ := (replacesWhenFull_insert_iff h).1 hreplaces
    have hinsert : s.insert rank key value = (s, .outOfMemory) := by rw [insert, if_pos hfull]
    rw [step, hinsert]
    intro hstep
    cases hstep with
    | full hnone => exact lookup_eq_none.1 hnone hkey
  | _ => exact absurd hreplaces id

end

lemma Refines.represents (h : Refines rank s m calls) :
    Represents rank s m := by
  cases calls with
  | nil => exact h
  | cons c calls => exact h.1

lemma refines_iff (h : Represents rank s m) :
    Refines rank s m calls ↔ NeverReplacesFull rank s calls := by
  induction calls generalizing s m with
  | nil => exact iff_of_true h trivial
  | cons c calls ih =>
    constructor
    · rintro ⟨-, m', hstep, hrefines⟩
      have hno : ¬ s.ReplacesWhenFull rank c := fun hreplaces => not_boundedStep h hreplaces hstep
      exact ⟨hno, (ih hrefines.represents).1 hrefines⟩
    · rintro ⟨hno, hnever⟩
      obtain ⟨m', hstep, hrep⟩ := exists_boundedStep h hno
      exact ⟨h, m', hstep, (ih hrep).2 hnever⟩

lemma represents_create (keys : Nat → K) (values : Nat → V) (capacity : Nat) :
    Represents rank (create keys values capacity) ∅ :=
  ⟨Lists.nil, Nat.zero_le capacity⟩

end StaticFlatMap
end sm
end BezOS
