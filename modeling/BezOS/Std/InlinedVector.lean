import BezOS.Lib.Transition
import BezOS.Lib.Word
import BezOS.Status
import Mathlib.Data.Nat.Bitwise
import Mathlib.Logic.Equiv.Basic

/-!
# Vectors with inline storage

`sm::InlinedVector` of `std/inlined_vector.hpp`, with the lifetimes of its elements. A place of
some storage holds an element from its construction to its destruction; anything else that is done
to an element is an access the language does not define, and so is an end of the storage before
that of its elements. Where the bytes of a vector are copied, its inline elements go with them.
-/

namespace BezOS
namespace sm

open Lib Function

/-- The inline bytes of a vector or a buffer of the allocator. -/
structure Storage (T : Type) where
  room : Nat
  element : Nat → Option T

namespace Storage

variable {T : Type} (c : Storage T)

def read (k : Nat) : Except Fault T :=
  match c.element k with
  | some x => .ok x
  | none => .error .badAccess

def write (k : Nat) (x : Option T) : Storage T := { c with element := update c.element k x }

/-- An element that is there would be lost. -/
def constructAt (k : Nat) (x : T) : Except Fault (Storage T) :=
  if k < c.room ∧ (c.element k).isNone then .ok (c.write k (some x)) else .error .badAccess

def destroyAt (k : Nat) : Except Fault (Storage T) := (c.read k).map fun _ => c.write k none

/-- `std::uninitialized_copy`. -/
def constructAll (k : Nat) : List T → Storage T → Except Fault (Storage T)
  | [], c => .ok c
  | x :: xs, c => do constructAll (k + 1) xs (← c.constructAt k x)

/-- `std::destroy_n`. -/
def destroyAll (k : Nat) : Nat → Storage T → Except Fault (Storage T)
  | 0, c => .ok c
  | n + 1, c => do destroyAll (k + 1) n (← c.destroyAt k)

/-- `n` elements, as they are read. -/
def elements (k : Nat) : Nat → Except Fault (List T)
  | 0 => .ok []
  | n + 1 => do return (← c.read k) :: (← elements (k + 1) n)

/-- `std::move` of `n` elements to the places before theirs. -/
def moveDown (k : Nat) : Nat → Storage T → Except Fault (Storage T)
  | 0, c => .ok c
  | n + 1, c => do
      let _ ← c.read k
      moveDown (k + 1) n (c.write k (some (← c.read (k + 1))))

/-- The end of the storage; elements that are there would be lost. -/
def release : Except Fault Unit :=
  if (List.range c.room).all fun k => (c.element k).isNone then .ok () else .error .badAccess

end Storage

/-- `data` and `capacity` are `mStorage.heap`, which shares its bytes with the inline elements;
neither is read before it was written. -/
structure InlinedVector (T : Type) where
  flat : Nat → Option T
  data : Nat
  capacity : Nat
  mSize : Nat

namespace InlinedVector

def kHeapFlag : Nat := 2 ^ 63

variable {T : Type} (vec : InlinedVector T)

def create : InlinedVector T := ⟨fun _ => none, 0, 0, 0⟩

def isHeapAllocated : Bool := vec.mSize &&& kHeapFlag ≠ 0

def count : Nat := vec.mSize &&& (kHeapFlag - 1)

def setSize (newSize : Nat) : InlinedVector T :=
  { vec with mSize := (vec.mSize &&& kHeapFlag) ||| newSize }

/-- `capacity()` of a vector with room for `N` inline elements. -/
def room (N : Nat) : Nat := if vec.isHeapAllocated then vec.capacity else N

end InlinedVector

/-- The vectors, and the buffers that the allocator has given them. -/
structure System (T : Type) where
  heap : Nat → Option (Storage T)
  buffers : Nat
  vectors : Nat → Option (InlinedVector T)

namespace System

variable {T : Type} (N sizeofT : Nat)

def init : System T := ⟨fun _ => none, 0, fun _ => none⟩

def vector (s : System T) (v : Nat) : Except Fault (InlinedVector T) :=
  match s.vectors v with
  | some vec => .ok vec
  | none => .error .badAccess

/-- What `begin()` points to. -/
def storage (s : System T) (vec : InlinedVector T) : Except Fault (Storage T) :=
  if vec.isHeapAllocated then
    match s.heap vec.data with
    | some c => .ok c
    | none => .error .badAccess
  else .ok ⟨N, vec.flat⟩

def set (s : System T) (v : Nat) (vec : InlinedVector T) : System T :=
  { s with vectors := update s.vectors v (some vec) }

/-- The vector `v` with its storage. -/
def store (s : System T) (v : Nat) (vec : InlinedVector T) (c : Storage T) : System T :=
  if vec.isHeapAllocated then { s.set v vec with heap := update s.heap vec.data (some c) }
  else s.set v { vec with flat := c.element }

/-- The end of a vector's buffer, where it has one. -/
def deallocate (s : System T) (vec : InlinedVector T) : Except Fault (System T) :=
  if vec.isHeapAllocated then
    if (s.heap vec.data).isSome then .ok { s with heap := update s.heap vec.data none }
    else .error .badAccess
  else .ok s

/-- `alloc` is the allocator's answer. Where the elements are already in a buffer, the flag that
is set at the end is set. -/
def reserveExact (alloc : Bool) (v newCapacity : Nat) (s : System T) :
    Except Fault (OsStatus × System T) := do
  let vec ← s.vector v
  if newCapacity ≤ vec.room N then return (.success, s)
  if !alloc then return (.outOfMemory, s)
  let newRoom := newCapacity * sizeofT % 2 ^ 64 / sizeofT
  let c ← s.storage N vec
  let new ← Storage.constructAll 0 (← c.elements 0 vec.count) ⟨newRoom, fun _ => none⟩
  (← c.destroyAll 0 vec.count).release
  let s ← s.deallocate vec
  let vec := ⟨fun _ => none, s.buffers, newRoom, vec.mSize ||| InlinedVector.kHeapFlag⟩
  return (.success, { s.set v vec with
    heap := update s.heap s.buffers (some new), buffers := s.buffers + 1 })

def ensureExtra (alloc : Bool) (v extra : Nat) (s : System T) :
    Except Fault (OsStatus × System T) := do
  let vec ← s.vector v
  if wrapAdd (2 ^ 64) vec.count extra ≥ vec.room N then
    reserveExact N sizeofT alloc v (wrapAdd (2 ^ 64) (vec.room N) extra) s
  else return (.success, s)

def reserve (alloc : Bool) (v size : Nat) (s : System T) : Except Fault (OsStatus × System T) := do
  let vec ← s.vector v
  reserveExact N sizeofT alloc v (max size (vec.room N)) s

/-- `add` of a range of values; an element is added as the range of it alone. -/
def add (alloc : Bool) (v : Nat) (xs : List T) (s : System T) :
    Except Fault (OsStatus × System T) := do
  let (status, s) ← ensureExtra N sizeofT alloc v xs.length s
  if status ≠ .success then return (status, s)
  let vec ← s.vector v
  let c ← Storage.constructAll vec.count xs (← s.storage N vec)
  return (.success, s.store v (vec.setSize (vec.count + xs.length)) c)

def resize [Inhabited T] (alloc : Bool) (v size : Nat) (s : System T) :
    Except Fault (OsStatus × System T) := do
  let vec ← s.vector v
  if size < vec.count then
    let c ← Storage.destroyAll vec.count (vec.count - size) (← s.storage N vec)
    return (.success, s.store v (vec.setSize size) c)
  else if size > vec.count then
    add N sizeofT alloc v (List.replicate (size - vec.count) default) s
  else return (.success, s)

def clear (v : Nat) (s : System T) : Except Fault (System T) := do
  let vec ← s.vector v
  let c ← Storage.destroyAll 0 vec.count (← s.storage N vec)
  return s.store v (vec.setSize 0) c

def remove (v index : Nat) (s : System T) : Except Fault (System T) := do
  let vec ← s.vector v
  let c ← (← s.storage N vec).destroyAt index
  let c ← c.moveDown index (vec.count - (index + 1))
  let c ← c.destroyAt vec.count
  return s.store v (vec.setSize (wrapSub (2 ^ 64) vec.count 1)) c

/-- `remove_if` from the element `i` on, which there are `left` of. -/
def removeIf [DecidableEq T] (v : Nat) (element : T) (i : Nat) : Nat → System T →
    Except Fault (System T)
  | 0, s => .ok s
  | left + 1, s => do
      if (← (← s.storage N (← s.vector v)).read i) = element then
        removeIf v element i left (← remove N v i s)
      else removeIf v element (i + 1) left s

def moveConstruct (v w : Nat) (s : System T) : Except Fault (System T) := do
  let vec ← s.vector w
  return (s.set v vec).set w { vec with flat := fun _ => none, mSize := 0 }

def moveAssign (v w : Nat) (s : System T) : Except Fault (System T) := do
  if v = w then return s
  let s ← s.clear N v
  let vec ← s.vector w
  clear N w ((s.set v vec).set w { vec with flat := fun _ => none })

def swap (v w : Nat) (s : System T) : Except Fault (System T) := do
  let lhs ← s.vector v
  let rhs ← s.vector w
  return (s.set v rhs).set w lhs

/-- The destructor. -/
def destroy (v : Nat) (s : System T) : Except Fault (System T) := do
  let vec ← s.vector v
  (← Storage.destroyAll 0 vec.count (← s.storage N vec)).release
  let s ← s.deallocate vec
  return { s with vectors := update s.vectors v none }

inductive Call (T : Type)
  | construct (v : Nat)
  | add (v : Nat) (value : T)
  | addRange (v : Nat) (values : List T)
  | remove (v index : Nat)
  | removeIf (v : Nat) (element : T)
  | resize (v size : Nat)
  | reserve (v size : Nat)
  | clear (v : Nat)
  | moveConstruct (v w : Nat)
  | moveAssign (v w : Nat)
  | swap (v w : Nat)
  | destroy (v : Nat)

def step [DecidableEq T] [Inhabited T] (alloc : Bool) (s : System T) :
    Call T → Except Fault (OsStatus × System T)
  | .construct v => .ok (.success, s.set v .create)
  | .add v value => s.add N sizeofT alloc v [value]
  | .addRange v values => s.add N sizeofT alloc v values
  | .remove v index => (s.remove N v index).map (.success, ·)
  | .removeIf v element => do
      return (.success, ← removeIf N v element 0 (← s.vector v).count s)
  | .resize v size => s.resize N sizeofT alloc v size
  | .reserve v size => s.reserve N sizeofT alloc v size
  | .clear v => (s.clear N v).map (.success, ·)
  | .moveConstruct v w => (s.moveConstruct v w).map (.success, ·)
  | .moveAssign v w => (s.moveAssign N v w).map (.success, ·)
  | .swap v w => (s.swap v w).map (.success, ·)
  | .destroy v => (s.destroy N v).map (.success, ·)

/-- The elements of a vector, all of them in their lifetime. -/
def contents (s : System T) (v : Nat) : Option (List T) :=
  (s.vectors v).bind fun vec => (s.storage N vec >>= (·.elements 0 vec.count)).toOption

/-- What a call does to the lists. -/
def Call.spec [DecidableEq T] [Inhabited T] (lists : Nat → Option (List T)) :
    Call T → Nat → Option (List T)
  | .construct v => update lists v (some [])
  | .add v value => update lists v ((lists v).map (· ++ [value]))
  | .addRange v values => update lists v ((lists v).map (· ++ values))
  | .remove v index => update lists v ((lists v).map (·.eraseIdx index))
  | .removeIf v element => update lists v ((lists v).map (·.filter (· ≠ element)))
  | .resize v size => update lists v ((lists v).map fun l =>
      l.take size ++ List.replicate (size - l.length) default)
  | .reserve _ _ => lists
  | .clear v => update lists v (some [])
  | .moveConstruct v w => update (update lists v (lists w)) w (some [])
  | .moveAssign v w => if v = w then lists else update (update lists v (lists w)) w (some [])
  | .swap v w => update (update lists v (lists w)) w (lists v)
  | .destroy v => update lists v none

end System

namespace InlinedVector

/-- The size word of `n` elements. -/
def word (heap : Bool) (n : Nat) : Nat := (if heap then kHeapFlag else 0) + n

variable {T : Type} {vec : InlinedVector T} {heap : Bool} {n m : Nat}

lemma word_and (h : n < 2 ^ 63) : word heap n &&& kHeapFlag = if heap then kHeapFlag else 0 := by
  have hlow : n &&& 2 ^ 63 = 0 := by rw [Nat.and_two_pow, Nat.testBit_lt_two_pow h]; rfl
  cases heap with
  | false => rw [word, if_neg nofun, Nat.zero_add, kHeapFlag, hlow]
  | true =>
    rw [word, if_pos rfl, kHeapFlag, Nat.and_two_pow, Nat.testBit_two_pow_add_eq,
      Nat.testBit_lt_two_pow h]
    rfl

lemma isHeapAllocated_word (hsize : vec.mSize = word heap n) (h : n < 2 ^ 63) :
    vec.isHeapAllocated = heap := by
  rw [isHeapAllocated, hsize, word_and h]
  cases heap <;> decide

lemma count_word (hsize : vec.mSize = word heap n) (h : n < 2 ^ 63) : vec.count = n := by
  rw [count, hsize, kHeapFlag, Nat.and_two_pow_sub_one_eq_mod, word, kHeapFlag]
  split <;> omega

lemma setSize_word (hsize : vec.mSize = word heap n) (h : n < 2 ^ 63) (hm : m < 2 ^ 63) :
    (vec.setSize m).mSize = word heap m := by
  rw [setSize, hsize, word_and h]
  cases heap with
  | false => simp [word]
  | true =>
    have hor := Nat.two_pow_add_eq_or_of_lt hm 1
    rw [Nat.mul_one] at hor
    simp only [word, if_true, kHeapFlag, hor]

lemma word_or (h : n < 2 ^ 63) : word heap n ||| kHeapFlag = word true n := by
  have hor := Nat.two_pow_add_eq_or_of_lt h 1
  rw [Nat.mul_one] at hor
  cases heap with
  | false => rw [word, word, if_neg nofun, if_pos rfl, kHeapFlag, Nat.zero_add, hor, Nat.or_comm]
  | true =>
    rw [word, if_pos rfl, kHeapFlag, hor, Nat.or_comm, ← Nat.or_assoc, Nat.or_self]

end InlinedVector

namespace Storage

variable {T : Type} {c : Storage T} {room k : Nat} {l : List T}

/-- A storage with the elements of a list in front. -/
def of (room : Nat) (l : List T) : Storage T := ⟨room, fun k => l[k]?⟩

lemma elements_eq (h : ∀ j, c.element (k + j) = l[j]?) : c.elements k l.length = .ok l := by
  induction l generalizing k with
  | nil => rfl
  | cons x l ih =>
    have hx : c.read k = .ok x := by rw [read, ← Nat.add_zero k, h]; rfl
    have hrest := ih (k := k + 1) fun j => by
      rw [Nat.add_assoc, Nat.add_comm 1, h, List.getElem?_cons_succ]
    simp only [List.length_cons, elements, hx, hrest]
    rfl

lemma constructAll_of (xs : List T) (h : l.length + xs.length ≤ room) :
    constructAll l.length xs (of room l) = .ok (of room (l ++ xs)) := by
  induction xs generalizing l with
  | nil => rw [List.append_nil, constructAll]
  | cons x xs ih =>
    rw [List.length_cons] at h
    have hone : (of room l).constructAt l.length x = .ok (of room (l ++ [x])) := by
      have hwrite : (of room l).write l.length (some x) = of room (l ++ [x]) := by
        simp only [write, of, Storage.mk.injEq, true_and]
        funext k
        grind [Function.update_apply]
      rw [constructAt, if_pos ⟨by simp only [of]; omega, by simp [of]⟩, hwrite]
    have hrest := ih (l := l ++ [x]) (by rw [List.length_append, List.length_singleton]; omega)
    rw [List.length_append, List.length_singleton, List.append_assoc] at hrest
    simp only [constructAll, hone]
    exact hrest

lemma destroyAll_eq (hbefore : ∀ j < k, c.element j = none)
    (h : ∀ j, c.element (k + j) = l[j]?) : destroyAll k l.length c = .ok (of c.room []) := by
  induction l generalizing k c with
  | nil =>
    have hnone : c.element = fun _ => none := by
      funext j
      by_cases hj : j < k
      · exact hbefore j hj
      · rw [← Nat.add_sub_cancel' (Nat.le_of_not_lt hj), h]
        rfl
    exact congrArg (fun e => Except.ok (Storage.mk c.room e)) hnone
  | cons x l ih =>
    have hone : c.destroyAt k = .ok (c.write k none) := by
      rw [destroyAt, read, ← Nat.add_zero k, h]
      rfl
    simp only [List.length_cons, destroyAll, hone]
    refine ih (c := c.write k none) (k := k + 1) (fun j hj => ?_) fun j => ?_
    · simp only [write, update_apply]
      split
      · rfl
      · exact hbefore j (by omega)
    · rw [← List.getElem?_cons_succ (a := x), ← h, ← Nat.add_assoc, Nat.add_right_comm]
      exact update_of_ne (by omega) _ _

lemma elements_of : (of room l).elements 0 l.length = .ok l :=
  elements_eq fun j => by rw [Nat.zero_add]; rfl

lemma destroyAll_of : destroyAll 0 l.length (of room l) = .ok (of room []) :=
  destroyAll_eq (fun _ hj => absurd hj (Nat.not_lt_zero _)) fun j => by rw [Nat.zero_add]; rfl

lemma release_of : (of room ([] : List T)).release = .ok () := by simp [release, of]

end Storage

namespace System

open InlinedVector

variable {T : Type} {N sizeofT : Nat} {s t : System T} {v w b : Nat} {vec wec : InlinedVector T}
  {l : List T}

/-! ## Vectors with their elements -/

/-- The vector has the elements `l` and no others in its storage. -/
structure Stored (N sizeofT : Nat) (s : System T) (vec : InlinedVector T) (l : List T) : Prop where
  size : vec.mSize = word vec.isHeapAllocated l.length
  lt : l.length < 2 ^ 63
  le : l.length ≤ vec.room N
  bytes : vec.room N * sizeofT < 2 ^ 63
  storage : s.storage N vec = .ok (.of (vec.room N) l)
  flat : vec.isHeapAllocated → vec.flat = fun _ => none

def Owns (s : System T) (v b : Nat) : Prop :=
  ∃ vec, s.vectors v = some vec ∧ vec.isHeapAllocated ∧ vec.data = b

/-- Every vector has its elements, and every buffer is that of exactly one vector. -/
structure Holds (N sizeofT : Nat) (s : System T) : Prop where
  stored : ∀ v vec, s.vectors v = some vec → ∃ l, Stored N sizeofT s vec l
  alone : ∀ b v w, s.Owns v b → s.Owns w b → v = w
  owned : ∀ b, (s.heap b).isSome → ∃ v, s.Owns v b
  unused : ∀ b, s.buffers ≤ b → s.heap b = none

lemma not_owns (hv : s.vectors v = none) (b : Nat) : ¬ s.Owns v b := by
  rintro ⟨_, hvec, -⟩
  rw [hv] at hvec
  cases hvec

lemma vector_eq (hv : s.vectors v = some vec) : s.vector v = .ok vec := by
  simp only [vector, hv]

namespace Stored

lemma count_eq (h : Stored N sizeofT s vec l) : vec.count = l.length := count_word h.size h.lt

lemma contents_eq (h : Stored N sizeofT s vec l) (hv : s.vectors v = some vec) :
    s.contents N v = some l := by
  simp only [contents, hv, Option.bind_some, h.storage, h.count_eq, bind, Except.bind,
    Storage.elements_of]
  rfl

lemma frame (h : Stored N sizeofT s vec l)
    (hheap : vec.isHeapAllocated → t.heap vec.data = s.heap vec.data) :
    Stored N sizeofT t vec l := by
  refine ⟨h.size, h.lt, h.le, h.bytes, h.storage ▸ ?_, h.flat⟩
  simp only [System.storage]
  split
  · rw [hheap ‹_›]
  · rfl

lemma heap_eq (h : Stored N sizeofT s vec l) (hheap : vec.isHeapAllocated) :
    s.heap vec.data = some (.of (vec.room N) l) := by
  have hstorage := h.storage
  rw [System.storage, if_pos hheap] at hstorage
  split at hstorage
  · rw [‹s.heap vec.data = _›, Except.ok.inj hstorage]
  · cases hstorage

lemma deallocate (h : Stored N sizeofT s vec l) (hv : s.vectors v = some vec) :
    ∃ t, s.deallocate vec = .ok t ∧ t.vectors = s.vectors ∧ t.buffers = s.buffers ∧
      (∀ b, s.Owns v b → t.heap b = none) ∧ ∀ b, ¬ s.Owns v b → t.heap b = s.heap b := by
  by_cases hheap : vec.isHeapAllocated
  · refine ⟨{ s with heap := update s.heap vec.data none }, ?_, rfl, rfl, ?_, fun b ho => ?_⟩
    · rw [System.deallocate, if_pos hheap, h.heap_eq hheap]
      rfl
    · rintro b ⟨_, hv', -, rfl⟩
      obtain rfl := Option.some.inj (hv.symm.trans hv')
      exact update_self ..
    · exact update_of_ne (fun heq => ho ⟨vec, hv, hheap, heq.symm⟩) _ _
  · refine ⟨s, if_neg hheap, rfl, rfl, ?_, fun _ _ => rfl⟩
    rintro b ⟨_, hv', hheap', -⟩
    exact absurd (Option.some.inj (hv.symm.trans hv') ▸ hheap') hheap

lemma of_empty (hsize : vec.mSize = 0) (hflat : vec.flat = fun _ => none)
    (hN : N * sizeofT < 2 ^ 63) : Stored N sizeofT s vec [] := by
  have hheap : vec.isHeapAllocated = false := by simp [isHeapAllocated, hsize]
  have hroom : vec.room N = N := by simp [room, hheap]
  refine ⟨by rw [hheap, hsize]; rfl, by simp, Nat.zero_le _, by rwa [hroom], ?_, fun _ => hflat⟩
  rw [System.storage, hheap, hroom, hflat]
  rfl

end Stored

namespace Holds

lemma heap_isSome (h : Holds N sizeofT s) (ho : s.Owns v b) : (s.heap b).isSome := by
  obtain ⟨vec, hv, hheap, rfl⟩ := ho
  obtain ⟨l, hs⟩ := h.stored v vec hv
  rw [hs.heap_eq hheap]
  rfl

lemma lt_buffers (h : Holds N sizeofT s) (ho : s.Owns v b) : b < s.buffers := by
  have hsome := h.heap_isSome ho
  by_contra hle
  rw [h.unused b (Nat.le_of_not_lt hle)] at hsome
  cases hsome

lemma change (h : Holds N sizeofT s) {new : Option (InlinedVector T)}
    (hvectors : t.vectors = update s.vectors v new)
    (hheap : ∀ b w, w ≠ v → s.Owns w b → t.heap b = s.heap b)
    (hself : ∀ vec, new = some vec → ∃ l, Stored N sizeofT t vec l)
    (halone : ∀ b w, t.Owns v b → w ≠ v → ¬ s.Owns w b)
    (howned : ∀ b, (t.heap b).isSome → t.Owns v b ∨ ∃ w, w ≠ v ∧ s.Owns w b)
    (hunused : ∀ b, t.buffers ≤ b → t.heap b = none) :
    Holds N sizeofT t ∧ t.contents N = update (s.contents N) v (t.contents N v) := by
  have hother : ∀ w, w ≠ v → t.vectors w = s.vectors w := fun w hw => by
    rw [hvectors, update_of_ne hw]
  have howns : ∀ w b, w ≠ v → (t.Owns w b ↔ s.Owns w b) := fun w b hw => by
    simp only [Owns, hother w hw]
  have hkept : ∀ w wec l, w ≠ v → s.vectors w = some wec → Stored N sizeofT s wec l →
      Stored N sizeofT t wec l :=
    fun w wec l hne hw hs => hs.frame fun hf => hheap _ w hne ⟨wec, hw, hf, rfl⟩
  refine ⟨⟨fun w wec hw => ?_, fun b w u hw hu => ?_, fun b hb => ?_, hunused⟩, funext fun w => ?_⟩
  · by_cases hne : w = v
    · rw [hne, hvectors, update_self] at hw
      exact hself wec hw
    · rw [hother w hne] at hw
      obtain ⟨l, hs⟩ := h.stored w wec hw
      exact ⟨l, hkept w wec l hne hw hs⟩
  · have := h.alone b w u
    have := halone b
    grind
  · rcases howned b hb with ho | ⟨w, hne, ho⟩
    · exact ⟨v, ho⟩
    · exact ⟨w, (howns w b hne).2 ho⟩
  · by_cases hne : w = v
    · rw [hne, update_self]
    · rw [update_of_ne hne]
      cases hw : s.vectors w with
      | none => simp only [contents, hother w hne, hw, Option.bind_none]
      | some wec =>
        obtain ⟨l, hs⟩ := h.stored w wec hw
        rw [hs.contents_eq hw, (hkept w wec l hne hw hs).contents_eq ((hother w hne).trans hw)]

lemma same {u : InlinedVector T} (h : Holds N sizeofT s)
    (hvectors : t.vectors = update s.vectors v (some u)) (hbuffers : t.buffers = s.buffers)
    (howns : ∀ b, (u.isHeapAllocated ∧ u.data = b) ↔ s.Owns v b)
    (hheap : ∀ b, ¬ s.Owns v b → t.heap b = s.heap b) (hself : Stored N sizeofT t u l) :
    Holds N sizeofT t ∧ t.contents N = update (s.contents N) v (some l) := by
  have hnew : t.vectors v = some u := by rw [hvectors, update_self]
  have howns' : ∀ b, t.Owns v b ↔ s.Owns v b := fun b => by
    rw [← howns]
    simp only [Owns, hnew]
    grind
  rw [← hself.contents_eq hnew]
  refine h.change hvectors (fun b w hne ho => hheap b fun hv => hne (h.alone b w v ho hv))
    (fun vec hvec => ⟨l, Option.some.inj hvec ▸ hself⟩)
    (fun b w ht hne ho => hne (h.alone b w v ho ((howns' b).1 ht))) (fun b hb => ?_) fun b hb => ?_
  · by_cases ho : s.Owns v b
    · exact .inl ((howns' b).2 ho)
    · rw [hheap b ho] at hb
      obtain ⟨w, hw⟩ := h.owned b hb
      exact .inr ⟨w, fun hne => ho (hne ▸ hw), hw⟩
  · rw [hbuffers] at hb
    rw [hheap b fun ho => absurd (h.lt_buffers ho) (Nat.not_lt.2 hb), h.unused b hb]

lemma set_empty (h : Holds N sizeofT s) (vec : InlinedVector T) (hnone : ∀ b, ¬ s.Owns v b)
    (hsize : vec.mSize = 0) (hflat : vec.flat = fun _ => none) (hN : N * sizeofT < 2 ^ 63) :
    Holds N sizeofT (s.set v vec) ∧
      (s.set v vec).contents N = update (s.contents N) v (some []) := by
  refine h.same rfl rfl (fun b => iff_of_false ?_ (hnone b)) (fun _ _ => rfl)
    (.of_empty hsize hflat hN)
  simp [isHeapAllocated, hsize]

lemma refill (h : Holds N sizeofT s) (l' : List T) (hv : s.vectors v = some vec)
    (hlt : l'.length < 2 ^ 63) (hle : l'.length ≤ vec.room N) :
    Holds N sizeofT (s.store v (vec.setSize l'.length) (.of (vec.room N) l')) ∧
      (s.store v (vec.setSize l'.length) (.of (vec.room N) l')).contents N =
        update (s.contents N) v (some l') := by
  obtain ⟨l, hs⟩ := h.stored v vec hv
  have hword := setSize_word hs.size hs.lt hlt
  have hflag := isHeapAllocated_word hword hlt
  have hroom : (vec.setSize l'.length).room N = vec.room N := by rw [room, hflag]; rfl
  have howns : ∀ b, (vec.isHeapAllocated ∧ vec.data = b) ↔ s.Owns v b := fun b => by
    simp only [Owns, hv]
    grind
  simp only [store, hflag]
  split
  · next hheap =>
    refine h.same rfl rfl (by rwa [hflag]) (fun b ho => update_of_ne ?_ _ _)
      ⟨by rw [hword, hflag], hlt, hroom ▸ hle, hroom ▸ hs.bytes, ?_, fun _ => hs.flat hheap⟩
    · rintro rfl
      exact ho ((howns _).1 ⟨hheap, rfl⟩)
    · rw [System.storage, hflag, if_pos hheap, hroom]
      simp only [update_self, show (vec.setSize l'.length).data = vec.data from rfl]
  · next hheap =>
    let new : InlinedVector T := { vec.setSize l'.length with flat := fun k => l'[k]? }
    have hflag' : new.isHeapAllocated = vec.isHeapAllocated := hflag
    have hroom' : new.room N = vec.room N := hroom
    refine h.same (u := new) rfl rfl (by rwa [hflag']) (fun b ho => rfl) ⟨hflag'.symm ▸ hword, hlt,
      hroom'.symm ▸ hle, hroom'.symm ▸ hs.bytes, ?_, fun ht => absurd (hflag' ▸ ht) hheap⟩
    rw [System.storage, hflag', if_neg hheap, hroom', room, if_neg hheap]
    rfl

lemma clear (h : Holds N sizeofT s) (hv : s.vectors v = some vec) :
    ∃ t, s.clear N v = .ok t ∧ Holds N sizeofT t ∧
      t.contents N = update (s.contents N) v (some []) ∧
      ∃ u, t.vectors = update s.vectors v (some u) ∧ u.isHeapAllocated = vec.isHeapAllocated := by
  obtain ⟨l, hs⟩ := h.stored v vec hv
  obtain ⟨ht, hcontents⟩ := h.refill [] hv (Nat.two_pow_pos 63) (Nat.zero_le _)
  refine ⟨_, ?_, ht, hcontents, ?_⟩
  · simp only [System.clear, vector_eq hv, hs.storage, hs.count_eq, bind, Except.bind,
      Storage.destroyAll_of]
    rfl
  · have hflag := isHeapAllocated_word (setSize_word hs.size hs.lt (Nat.two_pow_pos 63))
      (Nat.two_pow_pos 63)
    simp only [store]
    split
    · exact ⟨_, rfl, hflag⟩
    · exact ⟨_, rfl, hflag⟩

lemma relocate (h : Holds N sizeofT s) (hv : s.vectors v = some vec)
    (hs : Stored N sizeofT s vec l) {n : Nat} (hn : vec.room N < n) (hbytes : n * sizeofT < 2 ^ 63)
    (hsize : 0 < sizeofT) :
    ∃ t wec, reserveExact N sizeofT true v n s = .ok (.success, t) ∧ Holds N sizeofT t ∧
      t.contents N = s.contents N ∧ t.vectors v = some wec ∧ Stored N sizeofT t wec l ∧
      wec.room N = n := by
  have hroom : n * sizeofT % 2 ^ 64 / sizeofT = n := by
    rw [Nat.mod_eq_of_lt (by omega), Nat.mul_div_cancel _ hsize]
  have hmade : Storage.constructAll 0 l ⟨n, fun _ => none⟩ = .ok (.of n l) :=
    Storage.constructAll_of (l := []) l (by have := hs.le; simp only [List.length_nil]; omega)
  let wec : InlinedVector T := ⟨fun _ => none, s.buffers, n, vec.mSize ||| kHeapFlag⟩
  have hword : wec.mSize = word true l.length := by rw [← word_or hs.lt, ← hs.size]
  have hflag : wec.isHeapAllocated = true := isHeapAllocated_word hword hs.lt
  have hwroom : wec.room N = n := if_pos hflag
  obtain ⟨u, hfree, hvectors, hbuffers, hfreed, hkept⟩ := hs.deallocate hv
  let t : System T := { u.set v wec with
    heap := update u.heap u.buffers (some (.of n l)), buffers := u.buffers + 1 }
  have hrun : reserveExact N sizeofT true v n s = .ok (.success, t) := by
    simp only [reserveExact, vector_eq hv, bind, Except.bind, if_neg (Nat.not_le.2 hn), hs.storage,
      hs.count_eq, Storage.elements_of, hroom, hmade, Storage.destroyAll_of, Storage.release_of,
      hfree, Bool.not_true, Bool.false_eq_true, if_false, ← hbuffers, t, wec]
    rfl
  have hstored : Stored N sizeofT t wec l := by
    refine ⟨by rw [hflag]; exact hword, hs.lt, ?_, hwroom ▸ hbytes, ?_, fun _ => rfl⟩
    · have := hs.le
      omega
    · rw [System.storage, if_pos hflag, hwroom]
      simp only [t, wec, hbuffers, update_self]
  have hother : ∀ b, b ≠ s.buffers → t.heap b = u.heap b := fun b hb =>
    update_of_ne (hbuffers ▸ hb) _ _
  have hself : t.vectors v = some wec := update_self ..
  have hchange := h.change (t := t) (by rw [← hvectors]; rfl) (fun b w hne ho => ?_)
    (fun vec hvec => ⟨l, Option.some.inj hvec ▸ hstored⟩) (fun b w ht hne ho => ?_)
    (fun b hb => ?_) fun b hb => ?_
  · refine ⟨t, wec, hrun, hchange.1, hchange.2.trans ?_, hself, hstored, hwroom⟩
    rw [hstored.contents_eq hself, ← hs.contents_eq hv, update_eq_self]
  · rw [hother b (h.lt_buffers ho).ne, hkept b fun hv => hne (h.alone b w v ho hv)]
  · obtain ⟨_, hvec, -, rfl⟩ := ht
    obtain rfl := Option.some.inj (hself.symm.trans hvec)
    exact absurd (h.lt_buffers ho) (lt_irrefl _)
  · by_cases hbuffer : b = s.buffers
    · exact .inl ⟨wec, hself, hflag, hbuffer.symm⟩
    · rw [hother b hbuffer] at hb
      have ho : ¬ s.Owns v b := fun ho => by simp [hfreed b ho] at hb
      rw [hkept b ho] at hb
      obtain ⟨w, hw⟩ := h.owned b hb
      exact .inr ⟨w, fun hne => ho (hne ▸ hw), hw⟩
  · have hlt : s.buffers < b := hbuffers ▸ hb
    rw [hother b hlt.ne']
    by_cases ho : s.Owns v b
    · exact hfreed b ho
    · rw [hkept b ho, h.unused b hlt.le]

lemma destroy (h : Holds N sizeofT s) (hv : s.vectors v = some vec) :
    ∃ t, s.destroy N v = .ok t ∧ Holds N sizeofT t ∧
      t.contents N = update (s.contents N) v none := by
  obtain ⟨l, hs⟩ := h.stored v vec hv
  obtain ⟨u, hfree, hvectors, hbuffers, hfreed, hkept⟩ := hs.deallocate hv
  let t : System T := { u with vectors := update u.vectors v none }
  have hrun : s.destroy N v = .ok t := by
    simp only [System.destroy, vector_eq hv, bind, Except.bind, hs.storage, hs.count_eq,
      Storage.destroyAll_of, Storage.release_of, hfree]
    rfl
  have hself : t.vectors v = none := update_self ..
  have hchange := h.change (t := t) (by rw [← hvectors]) (fun b w hne ho => ?_)
    (fun _ hvec => by cases hvec) (fun b _ ht _ => absurd ht (not_owns hself b))
    (fun b hb => ?_) fun b hb => ?_
  · refine ⟨t, hrun, hchange.1, hchange.2.trans ?_⟩
    simp only [contents, hself, Option.bind_none]
  · exact hkept b fun hv => hne (h.alone b w v ho hv)
  · have ho : ¬ s.Owns v b := fun ho => by
      rw [hfreed b ho] at hb
      cases hb
    rw [hkept b ho] at hb
    obtain ⟨w, hw⟩ := h.owned b hb
    exact .inr ⟨w, fun hne => ho (hne ▸ hw), hw⟩
  · by_cases ho : s.Owns v b
    · exact hfreed b ho
    · rw [hkept b ho, h.unused b (hbuffers ▸ hb)]

lemma swap (h : Holds N sizeofT s) (hv : s.vectors v = some vec) (hw : s.vectors w = some wec) :
    Holds N sizeofT ((s.set v wec).set w vec) ∧ ((s.set v wec).set w vec).contents N =
      update (update (s.contents N) v (s.contents N w)) w (s.contents N v) := by
  have hvectors : ((s.set v wec).set w vec).vectors = s.vectors ∘ Equiv.swap w v := by
    rw [Equiv.comp_swap_eq_update, hv, hw]
    rfl
  have howns : ∀ u b, ((s.set v wec).set w vec).Owns u b ↔ s.Owns (Equiv.swap w v u) b :=
    fun u b => by simp only [Owns, hvectors, comp_apply]
  refine ⟨⟨fun u uec hu => ?_, fun b u u' hu hu' => ?_, fun b hb => ?_, h.unused⟩, ?_⟩
  · rw [hvectors] at hu
    obtain ⟨l, hs⟩ := h.stored _ uec hu
    exact ⟨l, hs.frame fun _ => rfl⟩
  · exact (Equiv.swap w v).injective (h.alone b _ _ ((howns u b).1 hu) ((howns u' b).1 hu'))
  · obtain ⟨u, ho⟩ := h.owned b hb
    exact ⟨Equiv.swap w v u, (howns _ b).2 (by rwa [Equiv.swap_apply_self])⟩
  · rw [← Equiv.comp_swap_eq_update]
    funext u
    simp only [contents, hvectors, comp_apply]
    rfl

lemma moveConstruct (h : Holds N sizeofT s) (hv : s.vectors v = none)
    (hw : s.vectors w = some wec) (hN : N * sizeofT < 2 ^ 63) :
    ∃ t, s.moveConstruct v w = .ok t ∧ Holds N sizeofT t ∧
      t.contents N = update (update (s.contents N) v (s.contents N w)) w (some []) := by
  have hne : w ≠ v := by
    rintro rfl
    rw [hv] at hw
    cases hw
  let rest : InlinedVector T := { wec with flat := fun _ => none, mSize := 0 }
  obtain ⟨hnew, hcontents⟩ := h.set_empty (v := v) rest
    (not_owns hv) rfl rfl hN
  obtain ⟨ht, hresult⟩ := hnew.swap (update_self ..) ((update_of_ne hne _ _).trans hw)
  refine ⟨_, ?_, ht, hresult.trans ?_⟩
  · simp only [System.moveConstruct, vector_eq hw, bind, Except.bind]
    simp only [set, update_idem]
    rfl
  · rw [hcontents, update_self, update_of_ne hne, update_idem]

lemma moveAssign (h : Holds N sizeofT s) (hne : v ≠ w) (hv : s.vectors v = some vec)
    (hw : s.vectors w = some wec) (hvflat : ¬ vec.isHeapAllocated) (hwflat : ¬ wec.isHeapAllocated)
    (hzero : wec.count = 0) (hN : N * sizeofT < 2 ^ 63) :
    ∃ t, s.moveAssign N v w = .ok t ∧ Holds N sizeofT t ∧
      t.contents N = update (update (s.contents N) v (s.contents N w)) w (some []) := by
  obtain ⟨l, hs⟩ := h.stored w wec hw
  obtain rfl : l = [] := List.length_eq_zero_iff.1 (hs.count_eq.symm.trans hzero)
  have hflag : wec.isHeapAllocated = false := by simpa using hwflat
  have hwsize : wec.mSize = 0 := by rw [hs.size, hflag]; rfl
  have hwnone : wec.flat = fun _ => none := by
    have hstorage := hs.storage
    rw [System.storage, if_neg hwflat] at hstorage
    exact congrArg Storage.element (Except.ok.inj hstorage)
  obtain ⟨t, hclear, ht, hcontents, u, hvectors, huflat⟩ := h.clear hv
  have hw' : t.vectors w = some wec := by rw [hvectors, update_of_ne hne.symm, hw]
  have hnone : ∀ b, ¬ t.Owns v b := by
    rintro b ⟨_, hvec, hheap, -⟩
    rw [hvectors, update_self] at hvec
    obtain rfl := Option.some.inj hvec
    exact hvflat (huflat ▸ hheap)
  obtain ⟨ht', hcontents'⟩ := ht.set_empty wec hnone hwsize hwnone hN
  let rest : InlinedVector T := { wec with flat := fun _ => none }
  have hwnone' : ∀ b, ¬ (t.set v wec).Owns w b := by
    rintro b ⟨_, hvec, hheap, -⟩
    simp only [set, update_of_ne hne.symm, hw'] at hvec
    obtain rfl := Option.some.inj hvec
    exact hwflat hheap
  obtain ⟨hlast, hcontents''⟩ := ht'.set_empty rest hwnone' hwsize rfl hN
  obtain ⟨t', hrun, ht', hresult, -⟩ := hlast.clear (update_self ..)
  refine ⟨t', ?_, ht', ?_⟩
  · simp only [System.moveAssign, if_neg hne, hclear, bind, Except.bind, vector_eq hw']
    exact hrun
  · rw [hresult, hcontents'', hcontents', hcontents, update_idem, update_idem, hs.contents_eq hw]

end Holds

/-- The lists after a call that served, or all as it was where there was no memory. -/
def Serves (N sizeofT : Nat) (s : System T) (alloc : Bool) (lists : Nat → Option (List T))
    (result : Except Fault (OsStatus × System T)) : Prop :=
  (∃ t, result = .ok (.success, t) ∧ Holds N sizeofT t ∧ t.contents N = lists) ∨
    alloc = false ∧ result = .ok (.outOfMemory, s)

/-- There is room for `extra` more elements, or the places asked for have as many bytes as the
difference of two pointers can be. -/
def Fits (N sizeofT : Nat) (vec : InlinedVector T) (extra : Nat) : Prop :=
  vec.count + extra < vec.room N ∨ (vec.room N + extra) * sizeofT < 2 ^ 63

namespace Holds

variable (alloc : Bool)

lemma ensureExtra {extra : Nat} (h : Holds N sizeofT s) (hv : s.vectors v = some vec)
    (hs : Stored N sizeofT s vec l) (hsize : 0 < sizeofT) (hfits : Fits N sizeofT vec extra) :
    (∃ t wec, ensureExtra N sizeofT alloc v extra s = .ok (.success, t) ∧ Holds N sizeofT t ∧
      t.contents N = s.contents N ∧ t.vectors v = some wec ∧ Stored N sizeofT t wec l ∧
      l.length + extra ≤ wec.room N ∧ l.length + extra < 2 ^ 63) ∨
    alloc = false ∧ ensureExtra N sizeofT alloc v extra s = .ok (.outOfMemory, s) := by
  have hle := hs.le
  have hbytes := hs.bytes
  have hroom := Nat.le_mul_of_pos_right (vec.room N) hsize
  have hmore := Nat.le_mul_of_pos_right (vec.room N + extra) hsize
  rw [Fits, hs.count_eq] at hfits
  have hlt : l.length + extra < 2 ^ 63 := by omega
  have hcount : wrapAdd (2 ^ 64) vec.count extra = l.length + extra := by
    rw [hs.count_eq]
    exact wrapAdd_of_lt (by omega)
  simp only [System.ensureExtra, vector_eq hv, bind, Except.bind, hcount]
  by_cases henough : l.length + extra < vec.room N
  · rw [if_neg (by omega)]
    exact .inl ⟨s, vec, rfl, h, rfl, hv, hs, henough.le, hlt⟩
  · have hnew := hfits.resolve_left henough
    rw [if_pos (by omega), wrapAdd_of_lt (by omega)]
    by_cases hlarger : vec.room N < vec.room N + extra
    · cases alloc with
      | true =>
        obtain ⟨t, wec, hrun, ht, hcontents, hw, hstored, hwroom⟩ :=
          h.relocate hv hs hlarger hnew hsize
        exact .inl ⟨t, wec, hrun, ht, hcontents, hw, hstored, by omega, hlt⟩
      | false =>
        refine .inr ⟨rfl, ?_⟩
        simp only [reserveExact, vector_eq hv, bind, Except.bind, if_neg (Nat.not_le.2 hlarger)]
        rfl
    · refine .inl ⟨s, vec, ?_, h, rfl, hv, hs, by omega, hlt⟩
      simp only [reserveExact, vector_eq hv, bind, Except.bind, if_pos (Nat.not_lt.1 hlarger)]
      rfl

lemma add (h : Holds N sizeofT s) (hv : s.vectors v = some vec) (hs : Stored N sizeofT s vec l)
    (hsize : 0 < sizeofT) (xs : List T) (hfits : Fits N sizeofT vec xs.length) :
    Serves N sizeofT s alloc (update (s.contents N) v (some (l ++ xs)))
      (s.add N sizeofT alloc v xs) := by
  rcases h.ensureExtra alloc hv hs hsize hfits with
    ⟨t, wec, hrun, ht, hcontents, hw, hstored, hroom, hlt⟩ | ⟨hfail, hrun⟩
  · have hmade := Storage.constructAll_of xs hroom
    rw [← List.length_append] at hroom hlt
    refine .inl ⟨_, ?_, hcontents ▸ ht.refill _ hw hlt hroom⟩
    simp only [System.add, hrun, bind, Except.bind, vector_eq hw, hstored.storage,
      hstored.count_eq, hmade, List.length_append]
    rfl
  · refine .inr ⟨hfail, ?_⟩
    simp only [System.add, hrun, bind, Except.bind]
    rfl

lemma reserve (h : Holds N sizeofT s) (hv : s.vectors v = some vec) (hsize : 0 < sizeofT)
    {size : Nat} (hfits : size ≤ vec.room N ∨ size * sizeofT < 2 ^ 63) :
    Serves N sizeofT s alloc (s.contents N) (s.reserve N sizeofT alloc v size) := by
  obtain ⟨l, hs⟩ := h.stored v vec hv
  by_cases hle : size ≤ vec.room N
  · refine .inl ⟨s, ?_, h, rfl⟩
    simp only [System.reserve, reserveExact, vector_eq hv, bind, Except.bind, max_eq_right hle,
      le_refl, if_true]
    rfl
  · have hmax : max size (vec.room N) = size := max_eq_left (Nat.le_of_not_le hle)
    cases alloc with
    | true =>
      obtain ⟨t, _, hrun, ht, hcontents, -⟩ :=
        h.relocate hv hs (Nat.lt_of_not_le hle) (hfits.resolve_left hle) hsize
      refine .inl ⟨t, ?_, ht, hcontents⟩
      simp only [System.reserve, vector_eq hv, bind, Except.bind, hmax, hrun]
    | false =>
      refine .inr ⟨rfl, ?_⟩
      simp only [System.reserve, reserveExact, vector_eq hv, bind, Except.bind, hmax, if_neg hle]
      rfl

lemma resize [Inhabited T] (h : Holds N sizeofT s) (hv : s.vectors v = some vec)
    (hs : Stored N sizeofT s vec l) (hsize : 0 < sizeofT) {size : Nat} (hle : vec.count ≤ size)
    (hfits : vec.count < size → Fits N sizeofT vec (size - vec.count)) :
    Serves N sizeofT s alloc (update (s.contents N) v
        (some (l.take size ++ List.replicate (size - l.length) default)))
      (s.resize N sizeofT alloc v size) := by
  rw [List.take_of_length_le (hs.count_eq ▸ hle), ← hs.count_eq]
  simp only [System.resize, vector_eq hv, bind, Except.bind, if_neg (Nat.not_lt.2 hle)]
  rcases hle.lt_or_eq with hlt | rfl
  · rw [if_pos hlt]
    exact h.add alloc hv hs hsize _ (by rw [List.length_replicate]; exact hfits hlt)
  · rw [if_neg (lt_irrefl _), Nat.sub_self, List.replicate_zero, List.append_nil,
      ← hs.contents_eq hv, update_eq_self]
    exact .inl ⟨s, rfl, h, rfl⟩

lemma removeIf [DecidableEq T] (hs : Stored N sizeofT s vec l) (hv : s.vectors v = some vec)
    {element : T} (hno : element ∉ l) (left i : Nat) (hle : i + left ≤ l.length) :
    removeIf N v element i left s = .ok s := by
  induction left generalizing i with
  | zero => rfl
  | succ left ih =>
    have hi : i < l.length := by omega
    have hread : (Storage.of (vec.room N) l).read i = .ok l[i] := by
      simp only [Storage.read, Storage.of, List.getElem?_eq_getElem hi]
    have hne : l[i] ≠ element := fun heq => hno (heq ▸ List.getElem_mem hi)
    simp only [System.removeIf, vector_eq hv, bind, Except.bind, hs.storage, hread, if_neg hne]
    exact ih (i + 1) (by omega)

end Holds

/-! ## Calls -/

/-- What the callers promise. -/
def Uses (s : System T) : Call T → Prop
  | .construct v => s.vectors v = none
  | .moveConstruct v w => s.vectors v = none ∧ (s.vectors w).isSome
  | .moveAssign v w | .swap v w => (s.vectors v).isSome ∧ (s.vectors w).isSome
  | .remove v index => ∃ vec ∈ s.vectors v, index < vec.count
  | .add v _ | .addRange v _ | .removeIf v _ | .resize v _ | .reserve v _ | .clear v | .destroy v =>
      (s.vectors v).isSome

/-- Nothing is removed and no vector shrinks or is assigned one with elements or a buffer, or to
its own buffer; the sizes fit. -/
def Meets (N sizeofT : Nat) (s : System T) : Call T → Prop
  | .remove _ _ => False
  | .removeIf v element => ∀ l ∈ s.contents N v, element ∉ l
  | .add v _ => ∀ vec ∈ s.vectors v, Fits N sizeofT vec 1
  | .addRange v values => ∀ vec ∈ s.vectors v, Fits N sizeofT vec values.length
  | .resize v size => ∀ vec ∈ s.vectors v, vec.count ≤ size ∧
      (vec.count < size → Fits N sizeofT vec (size - vec.count))
  | .reserve v size => ∀ vec ∈ s.vectors v, size ≤ vec.room N ∨ size * sizeofT < 2 ^ 63
  | .moveAssign v w => v = w ∨ ∀ vec ∈ s.vectors v, ∀ wec ∈ s.vectors w,
      ¬ vec.isHeapAllocated ∧ ¬ wec.isHeapAllocated ∧ wec.count = 0
  | _ => True

lemma Holds.step [DecidableEq T] [Inhabited T] {c : Call T} (h : Holds N sizeofT s) (alloc : Bool)
    (hsize : 0 < sizeofT) (hN : N * sizeofT < 2 ^ 63) (huses : s.Uses c)
    (hmeets : s.Meets N sizeofT c) :
    Serves N sizeofT s alloc (c.spec (s.contents N)) (s.step N sizeofT alloc c) := by
  have hserves : ∀ {f : Except Fault (System T)} {lists : Nat → Option (List T)},
      (∃ t, f = .ok t ∧ Holds N sizeofT t ∧ t.contents N = lists) →
        Serves N sizeofT s alloc lists (f.map (.success, ·)) := by
    rintro _ lists ⟨t, rfl, ht, hlists⟩
    exact .inl ⟨t, rfl, ht, hlists⟩
  cases c with
  | construct v =>
    exact .inl ⟨_, rfl, h.set_empty .create (not_owns huses) rfl rfl hN⟩
  | add v value =>
    obtain ⟨vec, hv⟩ := Option.isSome_iff_exists.1 huses
    obtain ⟨l, hs⟩ := h.stored v vec hv
    rw [Call.spec, hs.contents_eq hv, Option.map_some]
    exact h.add alloc hv hs hsize [value] (hmeets vec hv)
  | addRange v values =>
    obtain ⟨vec, hv⟩ := Option.isSome_iff_exists.1 huses
    obtain ⟨l, hs⟩ := h.stored v vec hv
    rw [Call.spec, hs.contents_eq hv, Option.map_some]
    exact h.add alloc hv hs hsize values (hmeets vec hv)
  | remove v index => exact hmeets.elim
  | removeIf v element =>
    obtain ⟨vec, hv⟩ := Option.isSome_iff_exists.1 huses
    obtain ⟨l, hs⟩ := h.stored v vec hv
    have hno := hmeets l (hs.contents_eq hv)
    refine .inl ⟨s, ?_, h, ?_⟩
    · simp only [System.step, vector_eq hv, bind, Except.bind, hs.count_eq,
        Holds.removeIf hs hv hno l.length 0 (by omega)]
      rfl
    · have hall : l.filter (· ≠ element) = l :=
        List.filter_eq_self.2 fun x hx => by simpa using fun heq : x = element => hno (heq ▸ hx)
      rw [Call.spec, hs.contents_eq hv, Option.map_some, hall, ← hs.contents_eq hv, update_eq_self]
  | resize v size =>
    obtain ⟨vec, hv⟩ := Option.isSome_iff_exists.1 huses
    obtain ⟨l, hs⟩ := h.stored v vec hv
    rw [Call.spec, hs.contents_eq hv, Option.map_some]
    exact h.resize alloc hv hs hsize (hmeets vec hv).1 (hmeets vec hv).2
  | reserve v size =>
    obtain ⟨vec, hv⟩ := Option.isSome_iff_exists.1 huses
    exact h.reserve alloc hv hsize (hmeets vec hv)
  | clear v =>
    obtain ⟨vec, hv⟩ := Option.isSome_iff_exists.1 huses
    obtain ⟨t, hrun, ht, hlists, -⟩ := h.clear hv
    exact hserves ⟨t, hrun, ht, hlists⟩
  | moveConstruct v w =>
    obtain ⟨wec, hw⟩ := Option.isSome_iff_exists.1 huses.2
    exact hserves (h.moveConstruct huses.1 hw hN)
  | moveAssign v w =>
    obtain ⟨vec, hv⟩ := Option.isSome_iff_exists.1 huses.1
    obtain ⟨wec, hw⟩ := Option.isSome_iff_exists.1 huses.2
    by_cases hne : v = w
    · refine hserves ⟨s, ?_, h, ?_⟩
      · rw [System.moveAssign, if_pos hne]
        rfl
      · rw [Call.spec, if_pos hne]
    · obtain ⟨hvflat, hwflat, hzero⟩ := hmeets.resolve_left hne vec hv wec hw
      rw [Call.spec, if_neg hne]
      exact hserves (h.moveAssign hne hv hw hvflat hwflat hzero hN)
  | swap v w =>
    obtain ⟨vec, hv⟩ := Option.isSome_iff_exists.1 huses.1
    obtain ⟨wec, hw⟩ := Option.isSome_iff_exists.1 huses.2
    refine hserves ⟨_, ?_, h.swap hv hw⟩
    simp only [System.swap, vector_eq hv, vector_eq hw, bind, Except.bind]
    rfl
  | destroy v =>
    obtain ⟨vec, hv⟩ := Option.isSome_iff_exists.1 huses
    exact hserves (h.destroy hv)

lemma Holds.init : Holds N sizeofT (init : System T) where
  stored _ _ hv := by cases hv
  alone _ _ _ hv := by
    obtain ⟨_, hv, -⟩ := hv
    cases hv
  owned _ hb := by cases hb
  unused _ _ := rfl

variable [DecidableEq T] [Inhabited T]

/-- A call with the allocator's answer. -/
def Steps (N sizeofT : Nat) (s : System T) (call : Call T × Bool) (t : System T) : Prop :=
  s.Uses call.1 ∧ ∃ status, s.step N sizeofT call.2 call.1 = .ok (status, t)

end System
end sm
end BezOS
