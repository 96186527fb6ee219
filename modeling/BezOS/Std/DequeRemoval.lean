import BezOS.Std.FixedDeque
import Mathlib.Data.List.Basic

/-!
# Removal from deques of fixed size

`remove` and `erase` of `stdx::FixedSizeDeque` shift the elements behind an index with `std::copy`,
in up to three parts where the ring is wrapped. Any sequence of calls does what it does to a bounded
list, exactly if none of them removes at the end.
-/

namespace BezOS
namespace stdx

open Lib List

namespace FixedSizeDeque

variable {T : Type} (d : FixedSizeDeque T)

def copyFrom (entries : List T) (first dest : Nat) : Nat → Except Fault (List T)
  | 0 => .ok entries
  | left + 1 =>
      match entries[first]? with
      | none => .error .badAccess
      | some e =>
          if dest < entries.length then copyFrom (entries.set dest e) (first + 1) (dest + 1) left
          else .error .badAccess

/-- `std::copy` inside the array: the elements in their order, up to one that `last` must be at. -/
def copy (entries : List T) (first last dest : Nat) : Except Fault (List T) :=
  if first ≤ last then copyFrom entries first dest (last - first) else .error .badAccess

/-- The shift of `remove`, with the index of the ring as that of a slot. -/
def shift (index : Nat) : Except Fault (List T) :=
  if d.mBack < d.mFront then copy d.mEntries (index + 1) d.mFront index
  else if index ≥ d.mBack then do
    let entries ← copy d.mEntries (index + 1) d.capacity index
    let entries ← copy entries 0 1 (d.capacity - 1)
    -- the ends of the last part are exchanged if they are out of order
    if 1 > d.mFront then copy entries d.mFront 1 0 else copy entries 1 d.mFront 0
  else copy d.mEntries (index + 1) d.mFront index

def remove (index : Nat) : Except Fault (Bool × FixedSizeDeque T) :=
  if d.mCount = 0 ∨ index > d.mCount then .ok (false, d)
  else do
    let entries ← d.shift (wrapAdd (2 ^ 64) d.mBack index % d.capacity)
    pure (true, { d with mEntries := entries }.popFront.2)

/-- The iterator that is returned has the index of the one that is given. -/
def erase (index : Nat) : Except Fault (Nat × FixedSizeDeque T) := do
  let (_, d) ← d.remove index
  pure (index, d)

/-- What a loop from `begin()` to `end()` reads. -/
def iterate : Except Fault (List T) := (range d.mCount).mapM d.get

/-! ## Bounded deques -/

inductive Call (T : Type)
  | addFront (e : T)
  | popFront
  | addBack (e : T)
  | popBack
  | pollFront
  | pollBack
  | remove (index : Nat)
  | erase (index : Nat)
  deriving DecidableEq

inductive Reply (T : Type)
  | status (success : Bool)
  | value (e : T)
  | position (index : Nat)
  deriving DecidableEq

def perform : Call T → Except Fault (Reply T × FixedSizeDeque T)
  | .addFront e => do
      let (ok, d) ← d.addFront e
      pure (.status ok, d)
  | .popFront => .ok (.status d.popFront.1, d.popFront.2)
  | .addBack e => do
      let (ok, d) ← d.addBack e
      pure (.status ok, d)
  | .popBack => .ok (.status d.popBack.1, d.popBack.2)
  | .pollFront => do
      let (e, d) ← d.pollFront
      pure (.value e, d)
  | .pollBack => do
      let (e, d) ← d.pollBack
      pure (.value e, d)
  | .remove index => do
      let (ok, d) ← d.remove index
      pure (.status ok, d)
  | .erase index => do
      let (index, d) ← d.erase index
      pure (.position index, d)

/-- What a call makes of the list of a bounded deque, from its back to its front. -/
def Call.next (capacity : Nat) (xs : List T) : Call T → List T
  | .addFront e => if xs.length < capacity then xs ++ [e] else xs
  | .popFront => xs.dropLast
  | .addBack e => if xs.length < capacity then e :: xs else xs
  | .popBack => xs.tail
  | .pollFront => xs.dropLast
  | .pollBack => xs.tail
  | .remove index => xs.eraseIdx index
  | .erase index => xs.eraseIdx index

/-- The reply of a bounded deque; an empty one may hand out any value. -/
def Call.Fits (capacity : Nat) (xs : List T) : Call T → Reply T → Prop
  | .addFront _, .status ok => ok = true ↔ xs.length < capacity
  | .popFront, .status ok => ok = true ↔ xs ≠ []
  | .addBack _, .status ok => ok = true ↔ xs.length < capacity
  | .popBack, .status ok => ok = true ↔ xs ≠ []
  | .pollFront, .value e => ∀ last ∈ xs.getLast?, e = last
  | .pollBack, .value e => ∀ first ∈ xs.head?, e = first
  | .remove index, .status ok => ok = true ↔ index < xs.length
  | .erase index, .position i => i = index
  | _, _ => False

/-- The deque goes on as a bounded list does, and is read as this list before and after a call. -/
def Refines (capacity : Nat) : FixedSizeDeque T → List T → List (Call T) → Prop
  | d, xs, [] => d.iterate = .ok xs
  | d, xs, call :: calls => d.iterate = .ok xs ∧ ∃ reply d', d.perform call = .ok (reply, d') ∧
      call.Fits capacity xs reply ∧ Refines capacity d' (call.next capacity xs) calls

/-- The call removes what is one behind the last element, from a deque that is not empty. -/
def Call.AtEnd (xs : List T) : Call T → Prop
  | .remove index => xs ≠ [] ∧ index = xs.length
  | .erase index => xs ≠ [] ∧ index = xs.length
  | _ => False

def NeverAtEnd (capacity : Nat) : List T → List (Call T) → Prop
  | _, [] => True
  | xs, call :: calls => ¬ call.AtEnd xs ∧ NeverAtEnd capacity (call.next capacity xs) calls

variable {d} {e : T} {xs entries : List T} {first last dest i j n : Nat}

/-! ## What is copied -/

lemma copyFrom_eq (hfirst : first + n ≤ entries.length) (hto : dest + n ≤ entries.length)
    (hdown : dest ≤ first ∨ n ≤ 1) : ∃ copied, copyFrom entries first dest n = .ok copied ∧
      copied.length = entries.length ∧
      ∀ j, copied[j]? = entries[if dest ≤ j ∧ j < dest + n then j - dest + first else j]? := by
  induction n generalizing entries first dest with
  | zero => exact ⟨entries, rfl, rfl, fun j => by rw [if_neg (by omega)]⟩
  | succ n ih =>
    have hget : entries[first]? = some (entries.get ⟨first, by omega⟩) := by
      rw [getElem?_eq_getElem (by omega)]
      rfl
    obtain ⟨copied, hcopy, hlength, hentries⟩ := @ih
      (entries.set dest (entries.get ⟨first, by omega⟩)) (first + 1) (dest + 1) (by simp; omega)
      (by simp; omega) (by omega)
    refine ⟨copied, ?_, by rw [hlength, length_set], fun j => ?_⟩
    · rw [copyFrom, hget]
      simp only [if_pos (show dest < entries.length by omega), hcopy]
    · rw [hentries j]
      by_cases hj : j = dest
      · subst hj
        rw [if_neg (by omega), if_pos (by omega), getElem?_set_self (by omega), Nat.sub_self,
          Nat.zero_add, hget]
      · have hsame : (if dest + 1 ≤ j ∧ j < dest + 1 + n then j - (dest + 1) + (first + 1) else j) =
            if dest ≤ j ∧ j < dest + (n + 1) then j - dest + first else j := by
          split_ifs <;> omega
        rw [hsame, getElem?_set_ne]
        split_ifs <;> omega

lemma copy_eq (hle : first ≤ last) (hlast : last ≤ entries.length)
    (hto : dest + (last - first) ≤ entries.length) (hdown : dest ≤ first ∨ last ≤ first + 1) :
    ∃ copied, copy entries first last dest = .ok copied ∧ copied.length = entries.length ∧
      ∀ j, copied[j]? =
        entries[if dest ≤ j ∧ j < dest + (last - first) then j - dest + first else j]? := by
  rw [copy, if_pos hle]
  exact copyFrom_eq (by omega) hto (by omega)

namespace Holds

section

variable (h : d.Holds xs)

include h

lemma place_eq (hj : j ≤ d.mCapacity) :
    (d.mBack + j) % d.mCapacity =
      if d.mBack + j < d.mCapacity then d.mBack + j else d.mBack + j - d.mCapacity := by
  have hback := h.back_lt
  split
  · exact Nat.mod_eq_of_lt (by assumption)
  · rw [Nat.mod_eq_sub_mod (by omega), Nat.mod_eq_of_lt (by omega)]

lemma shift (hi : i < xs.length) :
    ∃ copied, d.shift ((d.mBack + i) % d.mCapacity) = .ok copied ∧
      copied.length = d.mCapacity ∧ ∀ k, k + 1 < xs.length →
        copied[(d.mBack + k) % d.mCapacity]? =
          d.mEntries[(d.mBack + if k < i then k else k + 1) % d.mCapacity]? := by
  have hback := h.back_lt
  have hle := h.count_le
  have hlength := h.length_entries
  have hfront := h.front
  rw [h.place_eq hle] at hfront
  rw [h.place_eq (by omega)]
  -- the places of the list, without the remainders
  have hplaces : ∀ {copied : List T}, (∀ k, k + 1 < xs.length → ∀ next,
      (k < i ∧ next = k ∨ i ≤ k ∧ next = k + 1) →
      copied[if d.mBack + k < d.mCapacity then d.mBack + k else d.mBack + k - d.mCapacity]? =
        d.mEntries[if d.mBack + next < d.mCapacity then d.mBack + next
          else d.mBack + next - d.mCapacity]?) →
      ∀ k, k + 1 < xs.length → copied[(d.mBack + k) % d.mCapacity]? =
        d.mEntries[(d.mBack + if k < i then k else k + 1) % d.mCapacity]? := by
    intro copied hcopied k hk
    rw [h.place_eq (by omega), h.place_eq (by split_ifs <;> omega)]
    exact hcopied k hk _ (by split_ifs <;> omega)
  by_cases hcontiguous : d.mBack < d.mFront
  · -- no element is behind the end of the array
    have hnowrap : d.mBack + xs.length < d.mCapacity := by
      split at hfront <;> omega
    rw [if_pos hnowrap] at hfront
    rw [if_pos (by omega), FixedSizeDeque.shift, if_pos hcontiguous]
    obtain ⟨copied, hcopy, hsame, hentries⟩ := @copy_eq T d.mEntries (d.mBack + i + 1) d.mFront
      (d.mBack + i) (by omega) (by omega) (by omega) (by omega)
    refine ⟨copied, hcopy, hsame.trans hlength, hplaces fun k hk next hnext => ?_⟩
    rw [hentries]
    congr 1
    split_ifs <;> omega
  · have hwrap : ¬ d.mBack + xs.length < d.mCapacity := by
      intro hlt
      rw [if_pos hlt] at hfront
      omega
    rw [if_neg hwrap] at hfront
    rw [FixedSizeDeque.shift, if_neg hcontiguous]
    by_cases hlow : d.mBack + i < d.mCapacity
    · -- the index is below the end of the array, and elements on both sides of it move
      rw [if_pos hlow, if_pos (by omega), capacity]
      obtain ⟨above, habove, hsame, hentries⟩ := @copy_eq T d.mEntries (d.mBack + i + 1) d.mCapacity
        (d.mBack + i) (by omega) (by omega) (by omega) (by omega)
      obtain ⟨across, hacross, hsame', hentries'⟩ := @copy_eq T above 0 1 (d.mCapacity - 1)
        (by omega) (by omega) (by omega) (by omega)
      obtain ⟨below, hbelow, hsame'', hentries''⟩ : ∃ below, (if 1 > d.mFront then
          copy across d.mFront 1 0 else copy across 1 d.mFront 0) = .ok below ∧
          below.length = across.length ∧
          ∀ j, below[j]? = across[if j + 1 < d.mFront then j + 1 else j]? := by
        by_cases hzero : 1 > d.mFront
        · obtain ⟨below, hbelow, hsame'', hentries''⟩ := @copy_eq T across d.mFront 1 0 (by omega)
            (by omega) (by omega) (by omega)
          refine ⟨below, by rw [if_pos hzero, hbelow], hsame'', fun j => ?_⟩
          rw [hentries'']
          congr 1
          split_ifs <;> omega
        · obtain ⟨below, hbelow, hsame'', hentries''⟩ := @copy_eq T across 1 d.mFront 0 (by omega)
            (by omega) (by omega) (by omega)
          refine ⟨below, by rw [if_neg hzero, hbelow], hsame'', fun j => ?_⟩
          rw [hentries'']
          congr 1
          split_ifs <;> omega
      refine ⟨below, ?_, by omega, hplaces fun k hk next hnext => ?_⟩
      · rw [habove]
        change (copy above 0 1 (d.mCapacity - 1)).bind _ = _
        rw [hacross]
        exact hbelow
      · rw [hentries'', hentries', hentries]
        congr 1
        split_ifs <;> omega
    · rw [if_neg hlow, if_neg (by omega)]
      obtain ⟨copied, hcopy, hsame, hentries⟩ := @copy_eq T d.mEntries
        (d.mBack + i - d.mCapacity + 1) d.mFront (d.mBack + i - d.mCapacity) (by omega) (by omega)
        (by omega) (by omega)
      refine ⟨copied, hcopy, hsame.trans hlength, hplaces fun k hk next hnext => ?_⟩
      rw [hentries]
      congr 1
      split_ifs <;> omega

lemma remove (hi : i < xs.length) :
    ∃ d', d.remove i = .ok (true, d') ∧ d'.Holds (xs.eraseIdx i) ∧ d'.mCapacity = d.mCapacity := by
  have hlt := h.capacity_lt
  have hback := h.back_lt
  have hle := h.count_le
  have hcount := h.count
  have hpos := h.capacity_pos
  obtain ⟨copied, hshift, hlength, hentries⟩ := h.shift hi
  have hlast : (d.mBack + (xs.length - 1)) % d.mCapacity < copied.length := by
    rw [hlength]
    exact Nat.mod_lt _ hpos
  have hrest : (xs.eraseIdx i).length = xs.length - 1 := by rw [length_eraseIdx, if_pos hi]
  have herase : (xs.eraseIdx i ++ [copied.get ⟨_, hlast⟩]).length = xs.length := by
    rw [length_append, hrest, length_singleton]
    omega
  -- what is copied, with a last element that is popped
  have hshifted : Holds { d with mEntries := copied }
      (xs.eraseIdx i ++ [copied.get ⟨_, hlast⟩]) := by
    refine ⟨hpos, hlt, hlength, by rw [herase]; exact hcount, by rw [herase]; exact hle, hback,
      by rw [herase]; exact h.front, fun k hk => ?_⟩
    rw [herase] at hk
    change copied[(d.mBack + k) % d.mCapacity]? = _
    by_cases hk' : k + 1 < xs.length
    · rw [hentries k hk', getElem?_append_left (by rw [hrest]; omega), getElem?_eraseIdx]
      split_ifs with hki
      · exact h.entries k hk
      · exact h.entries (k + 1) hk'
    · obtain rfl : k = xs.length - 1 := by omega
      rw [getElem?_append_right (Nat.le_of_eq hrest), hrest, Nat.sub_self,
        getElem?_eq_getElem hlast]
      rfl
  obtain ⟨-, hholds, hcapacity⟩ := hshifted.popFront
  refine ⟨_, ?_, hholds, hcapacity⟩
  rw [FixedSizeDeque.remove, if_neg (by omega), wrapAdd_of_lt (by omega), capacity, hshift]
  rfl

lemma remove_above (hi : xs = [] ∨ xs.length < i) :
    d.remove i = .ok (false, d) := by
  have hcount := h.count
  refine if_pos ?_
  rcases hi with rfl | hi
  · exact .inl hcount
  · exact .inr (by omega)

lemma iterate : d.iterate = .ok xs := by
  have hget : ∀ n, n ≤ xs.length → (range n).mapM d.get = .ok (xs.take n) := by
    intro n
    induction n with
    | zero => exact fun _ => rfl
    | succ n ih =>
      intro hn
      rw [range_succ, mapM_append, ih (Nat.le_of_succ_le hn)]
      change (mapM d.get [n]).bind _ = _
      simp only [mapM_cons, h.get hn]
      rw [take_succ_eq_append_getElem hn]
      rfl
  rw [FixedSizeDeque.iterate, h.count, hget _ (Nat.le_refl _), take_length]

end

end Holds

lemma length_mapM {α β : Type} {f : α → Except Fault β} {as : List α} {bs : List β}
    (h : as.mapM f = .ok bs) : bs.length = as.length := by
  induction as generalizing bs with
  | nil =>
    cases h
    rfl
  | cons a as ih =>
    rw [mapM_cons] at h
    cases hf : f a with
    | error _ =>
      rw [hf] at h
      cases h
    | ok b =>
      cases hrest : as.mapM f with
      | error _ =>
        rw [hf, hrest] at h
        cases h
      | ok rest =>
        rw [hf, hrest] at h
        cases h
        rw [length_cons, length_cons, ih hrest]

lemma length_iterate (h : d.iterate = .ok xs) : xs.length = d.mCount :=
  (length_mapM h).trans length_range

namespace Holds

lemma entryAt_zero (h : d.Holds xs) : ∃ stale, d.entryAt 0 = .ok stale := by
  have hlt : 0 < d.mEntries.length := h.length_entries.symm ▸ h.capacity_pos
  refine ⟨d.mEntries.get ⟨0, hlt⟩, ?_⟩
  rw [entryAt, getElem?_eq_getElem hlt]
  rfl

lemma remove_at_end (h : d.Holds xs) (hne : xs ≠ []) {result : Bool × FixedSizeDeque T}
    (hremove : d.remove xs.length = .ok result) : result.2.mCount + 1 = xs.length := by
  have hcount := h.count
  have hpos := length_pos_iff.2 hne
  rw [FixedSizeDeque.remove, if_neg (by omega)] at hremove
  cases hshift : d.shift (wrapAdd (2 ^ 64) d.mBack xs.length % d.capacity) with
  | error fault =>
    rw [hshift] at hremove
    cases hremove
  | ok copied =>
    rw [hshift] at hremove
    cases hremove
    rw [FixedSizeDeque.popFront, if_neg (by simp only; omega)]
    simp only
    omega

end Holds

/-! ## Runs -/

lemma perform_next {call : Call T} (h : d.Holds xs) (hend : ¬ call.AtEnd xs) :
    ∃ reply d', d.perform call = .ok (reply, d') ∧ call.Fits d.mCapacity xs reply ∧
      d'.Holds (call.next d.mCapacity xs) ∧ d'.mCapacity = d.mCapacity := by
  have hremove : ∀ index, (xs ≠ [] → index ≠ xs.length) → ∃ ok d', d.remove index = .ok (ok, d') ∧
      (ok = true ↔ index < xs.length) ∧ d'.Holds (xs.eraseIdx index) ∧
      d'.mCapacity = d.mCapacity := by
    intro index hindex
    rcases Nat.lt_or_ge index xs.length with hlt | hge
    · obtain ⟨d', hremove, hrest⟩ := h.remove hlt
      exact ⟨true, d', hremove, by simp [hlt], hrest⟩
    · refine ⟨false, d, h.remove_above ?_, by simp [hge], ?_, rfl⟩
      · by_cases hnil : xs = []
        · exact .inl hnil
        · exact .inr (Nat.lt_of_le_of_ne hge (hindex hnil).symm)
      · rwa [eraseIdx_of_length_le hge]
  cases call with
  | addFront e =>
    by_cases hspace : xs.length < d.mCapacity
    · obtain ⟨d', hadd, hrest⟩ := h.addFront e hspace
      exact ⟨_, d', by rw [perform, hadd]; rfl, by simp [Call.Fits, hspace],
        by simpa [Call.next, hspace] using hrest⟩
    · have hfull := h.addFront_full (e := e) (Nat.le_antisymm h.count_le (Nat.not_lt.1 hspace))
      exact ⟨_, d, by rw [perform, hfull]; rfl, by simp [Call.Fits, hspace],
        by simpa [Call.next, hspace] using h⟩
  | addBack e =>
    by_cases hspace : xs.length < d.mCapacity
    · obtain ⟨d', hadd, hrest⟩ := h.addBack e hspace
      exact ⟨_, d', by rw [perform, hadd]; rfl, by simp [Call.Fits, hspace],
        by simpa [Call.next, hspace] using hrest⟩
    · have hfull := h.addBack_full (e := e) (Nat.le_antisymm h.count_le (Nat.not_lt.1 hspace))
      exact ⟨_, d, by rw [perform, hfull]; rfl, by simp [Call.Fits, hspace],
        by simpa [Call.next, hspace] using h⟩
  | popFront =>
    rcases eq_nil_or_concat xs with rfl | ⟨ys, y, rfl⟩
    · have hpop : d.popFront = (false, d) := if_pos h.count
      exact ⟨_, d, by rw [perform, hpop], by simp [Call.Fits], h, rfl⟩
    · rw [concat_eq_append] at h ⊢
      obtain ⟨hpop, hrest⟩ := h.popFront
      exact ⟨_, _, by rw [perform, hpop], by simp [Call.Fits], by simpa [Call.next] using hrest⟩
  | popBack =>
    cases xs with
    | nil =>
      have hpop : d.popBack = (false, d) := if_pos h.count
      exact ⟨_, d, by rw [perform, hpop], by simp [Call.Fits], h, rfl⟩
    | cons y ys =>
      obtain ⟨hpop, hrest⟩ := h.popBack
      exact ⟨_, _, by rw [perform, hpop], by simp [Call.Fits], hrest⟩
  | pollFront =>
    rcases eq_nil_or_concat xs with rfl | ⟨ys, y, rfl⟩
    · obtain ⟨stale, hstale⟩ := h.entryAt_zero
      have hpop : d.popFront = (false, d) := if_pos h.count
      refine ⟨.value stale, d, ?_, by simp [Call.Fits], h, rfl⟩
      rw [perform, FixedSizeDeque.pollFront, front, FixedSizeDeque.get, if_pos (.inl h.count),
        hstale]
      simp only [hpop]
      rfl
    · rw [concat_eq_append] at h ⊢
      obtain ⟨d', hpoll, hrest⟩ := h.pollFront
      exact ⟨_, d', by rw [perform, hpoll]; rfl, by simp [Call.Fits],
        by simpa [Call.next] using hrest⟩
  | pollBack =>
    cases xs with
    | nil =>
      obtain ⟨stale, hstale⟩ := h.entryAt_zero
      have hpop : d.popBack = (false, d) := if_pos h.count
      refine ⟨.value stale, d, ?_, by simp [Call.Fits], h, rfl⟩
      rw [perform, FixedSizeDeque.pollBack, back, FixedSizeDeque.get, if_pos (.inl h.count), hstale]
      simp only [hpop]
      rfl
    | cons y ys =>
      obtain ⟨d', hpoll, hrest⟩ := h.pollBack
      exact ⟨_, d', by rw [perform, hpoll]; rfl, by simp [Call.Fits], hrest⟩
  | remove index =>
    obtain ⟨ok, d', hremoved, hok, hrest⟩ := hremove index fun hne heq => hend ⟨hne, heq⟩
    exact ⟨.status ok, d', by rw [perform, hremoved]; rfl, hok, hrest⟩
  | erase index =>
    obtain ⟨ok, d', hremoved, -, hrest⟩ := hremove index fun hne heq => hend ⟨hne, heq⟩
    exact ⟨.position index, d', by rw [perform, erase, hremoved]; rfl, rfl, hrest⟩

lemma not_iterate_at_end {call : Call T} (h : d.Holds xs) (hend : call.AtEnd xs)
    {reply : Reply T} {d' : FixedSizeDeque T} (hperform : d.perform call = .ok (reply, d')) :
    d'.iterate ≠ .ok (call.next d.mCapacity xs) := by
  have hcount : d'.mCount + 1 = xs.length := by
    cases call with
    | remove index =>
      obtain ⟨hne, rfl⟩ := hend
      rw [perform] at hperform
      cases hremove : d.remove xs.length with
      | error _ =>
        rw [hremove] at hperform
        cases hperform
      | ok result =>
        rw [hremove] at hperform
        cases hperform
        exact h.remove_at_end hne hremove
    | erase index =>
      obtain ⟨hne, rfl⟩ := hend
      rw [perform, erase] at hperform
      cases hremove : d.remove xs.length with
      | error _ =>
        rw [hremove] at hperform
        cases hperform
      | ok result =>
        rw [hremove] at hperform
        cases hperform
        exact h.remove_at_end hne hremove
    | _ => exact hend.elim
  have hnext : call.next d.mCapacity xs = xs := by
    cases call with
    | remove index => exact eraseIdx_of_length_le (Nat.le_of_eq hend.2.symm)
    | erase index => exact eraseIdx_of_length_le (Nat.le_of_eq hend.2.symm)
    | _ => exact hend.elim
  intro hiterate
  rw [hnext] at hiterate
  have hlength := length_iterate hiterate
  omega

lemma refines_iff {capacity : Nat} {calls : List (Call T)} (h : d.Holds xs)
    (hcapacity : d.mCapacity = capacity) :
    Refines capacity d xs calls ↔ NeverAtEnd capacity xs calls := by
  subst hcapacity
  induction calls generalizing d xs with
  | nil => exact ⟨fun _ => trivial, fun _ => h.iterate⟩
  | cons call calls ih =>
    rw [Refines, NeverAtEnd]
    by_cases hend : call.AtEnd xs
    · refine ⟨?_, fun hnever => absurd hend hnever.1⟩
      rintro ⟨-, reply, d', hperform, -, hrest⟩
      refine absurd ?_ (not_iterate_at_end h hend hperform)
      cases calls with
      | nil => exact hrest
      | cons _ _ => exact hrest.1
    · obtain ⟨reply, d', hperform, hfits, hholds, hcap⟩ := perform_next h hend
      have hrest := ih hholds
      rw [hcap] at hrest
      rw [← hrest]
      constructor
      · rintro ⟨-, reply', d'', hperform', -, hrefines⟩
        obtain ⟨rfl, rfl⟩ := Prod.mk.inj (Except.ok.inj (hperform.symm.trans hperform'))
        exact ⟨hend, hrefines⟩
      · exact fun hrefines => ⟨h.iterate, reply, d', hperform, hfits, hrefines.2⟩

theorem deque_refines_iff {capacity : Nat} (hlength : entries.length = capacity)
    (hpos : 0 < capacity) (hlt : capacity < 2 ^ 63) (calls : List (Call T)) :
    Refines capacity (create entries capacity) [] calls ↔ NeverAtEnd capacity [] calls :=
  refines_iff (holds_create hlength hpos hlt) rfl

/-- A full ring of three, an element between two others removed. -/
theorem deque_refines_middle : Refines 3 (create [0, 0, 0] 3) []
    [.addBack 7, .addFront 8, .addBack 6, .remove 1, .erase 0, .remove 2, .pollFront] :=
  (@deque_refines_iff Nat [0, 0, 0] 3 rfl (by decide) (by decide) _).2
    (by simp [NeverAtEnd, Call.AtEnd, Call.next])

/-- A full deque of one element, of which the element with the index 1 is to be removed. -/
theorem not_refines_at_end : ¬ Refines 1 (create [0] 1) [] [.addBack 7, .remove 1] := by
  rintro ⟨-, reply, d, hadd, -, -, reply', d', hremove, hfits, -⟩
  cases hadd
  cases hremove
  exact absurd (hfits.1 rfl) (by decide)

end FixedSizeDeque
end stdx
end BezOS
