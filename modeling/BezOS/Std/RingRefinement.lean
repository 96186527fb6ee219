import BezOS.Std.RingQueue

/-!
# The ring queue is a bounded queue

Calls of `tryPush` and `tryPop`, one after the other, against a list that holds at most `capacity`
elements, and `count()` against the length of the list. `create` asks for `capacity + 1` slots and
takes every index modulo that number; `count()` adds it to an index before it subtracts, and both
are done in 32 bits.
-/

namespace BezOS

open Lib List Nat

inductive RingCall (T : Type)
  | tryPush (value : T)
  | tryPop

inductive RingReply (T : Type)
  | pushed (accepted : Bool)
  | popped (value : Option T)
  deriving DecidableEq

namespace AtomicRingQueue

variable {T : Type}

/-- `count()`; the result is reduced by `mCapacity`, which must not be zero. -/
def count (q : AtomicRingQueue T) : Except Fault Nat :=
  if q.mCapacity = 0 then .error .badAccess
  else .ok (wrapSub (2 ^ 32) (wrapAdd (2 ^ 32) q.mCapacity q.mProducerTail) q.mConsumerTail %
    q.mCapacity)

def serve (moved : T → T) (q : AtomicRingQueue T) :
    RingCall T → Except Fault (RingReply T × AtomicRingQueue T)
  | .tryPush value => (q.tryPush value).map fun r => (.pushed r.1, r.2)
  | .tryPop => (q.tryPop moved).map fun r => (.popped r.1, r.2)

def serveAll (moved : T → T) (q : AtomicRingQueue T) :
    List (RingCall T) → Except Fault (List (RingReply T) × AtomicRingQueue T)
  | [] => .ok ([], q)
  | c :: calls => do
      let (reply, q) ← q.serve moved c
      let (replies, q) ← serveAll moved q calls
      pure (reply :: replies, q)

/-- Every index names one of the slots that were allocated. -/
structure InRange (q : AtomicRingQueue T) (slots : Nat) : Prop where
  producerHead : q.mProducerHead < slots
  producerTail : q.mProducerTail < slots
  consumerHead : q.mConsumerHead < slots
  consumerTail : q.mConsumerTail < slots

end AtomicRingQueue

/-! ## Bounded queues -/

namespace Fifo

variable {T : Type}

/-- A queue of at most `capacity` elements. -/
def serve (capacity : Nat) (l : List T) : RingCall T → RingReply T × List T
  | .tryPush value =>
      if l.length < capacity then (.pushed true, l ++ [value]) else (.pushed false, l)
  | .tryPop =>
      match l with
      | [] => (.popped none, [])
      | value :: rest => (.popped (some value), rest)

def serveAll (capacity : Nat) : List T → List (RingCall T) → List (RingReply T) × List T
  | l, [] => ([], l)
  | l, c :: calls =>
      let (reply, l) := serve capacity l c
      let (replies, l) := serveAll capacity l calls
      (reply :: replies, l)

lemma serveAll_cons (capacity : Nat) (l : List T) (c : RingCall T) (calls : List (RingCall T)) :
    serveAll capacity l (c :: calls) =
      ((serve capacity l c).1 :: (serveAll capacity (serve capacity l c).2 calls).1,
        (serveAll capacity (serve capacity l c).2 calls).2) := rfl

lemma serveAll_pushes {capacity n : Nat} (value : T) (l : List T)
    (h : l.length + n ≤ capacity) :
    (serveAll capacity l (replicate n (.tryPush value))).2 = l ++ replicate n value := by
  induction n generalizing l with
  | zero => simp [serveAll]
  | succ n ih =>
    have hroom : l.length < capacity := by omega
    rw [replicate_succ, serveAll_cons, serve, if_pos hroom, ih]
    · rw [append_assoc, replicate_succ]
      rfl
    · rw [length_append, length_singleton]
      omega

end Fifo

namespace AtomicRingQueue

variable {T : Type} {q : AtomicRingQueue T} {capacity : Nat} {l : List T} {moved : T → T}

/-- The queue answers like a bounded queue of the given contents, counts its elements, and keeps
to its slots, whatever is called. -/
def RefinesFifo (moved : T → T) (q : AtomicRingQueue T) (capacity : Nat) (l : List T) : Prop :=
  ∀ calls, ∃ q', q.serveAll moved calls = .ok ((Fifo.serveAll capacity l calls).1, q') ∧
    q'.count = .ok (Fifo.serveAll capacity l calls).2.length ∧ q'.InRange (capacity + 1)

namespace Contains

section

variable (h : q.Contains capacity l)

include h

lemma serve (c : RingCall T) :
    ∃ q', q.serve moved c = .ok ((Fifo.serve capacity l c).1, q') ∧
      q'.Contains capacity (Fifo.serve capacity l c).2 := by
  cases c with
  | tryPush value =>
    rcases Nat.lt_or_ge l.length capacity with hroom | hfull
    · obtain ⟨q', hpush, hcontains⟩ := h.tryPush_of_lt hroom value
      refine ⟨q', ?_, ?_⟩
      · rw [AtomicRingQueue.serve, hpush, Fifo.serve, if_pos hroom]
        rfl
      · rw [Fifo.serve, if_pos hroom]
        exact hcontains
    · have hpush := h.tryPush_of_full (Nat.le_antisymm h.length_le hfull) value
      refine ⟨q, ?_, ?_⟩
      · rw [AtomicRingQueue.serve, hpush, Fifo.serve, if_neg (Nat.not_lt.2 hfull)]
        rfl
      · rw [Fifo.serve, if_neg (Nat.not_lt.2 hfull)]
        exact h
  | tryPop =>
    cases l with
    | nil =>
      refine ⟨q, ?_, h⟩
      rw [AtomicRingQueue.serve, h.tryPop_nil]
      rfl
    | cons value rest =>
      obtain ⟨q', hpop, hcontains⟩ := @tryPop_cons T q capacity rest value moved h
      refine ⟨q', ?_, hcontains⟩
      rw [AtomicRingQueue.serve, hpop]
      rfl

lemma serveAll (calls : List (RingCall T)) :
    ∃ q', q.serveAll moved calls = .ok ((Fifo.serveAll capacity l calls).1, q') ∧
      q'.Contains capacity (Fifo.serveAll capacity l calls).2 := by
  induction calls generalizing q l with
  | nil => exact ⟨q, rfl, h⟩
  | cons c calls ih =>
    obtain ⟨q1, hserve, h1⟩ := @serve T q capacity l moved h c
    obtain ⟨q2, hrest, h2⟩ := ih h1
    refine ⟨q2, ?_, h2⟩
    rw [AtomicRingQueue.serveAll, hserve, Fifo.serveAll_cons]
    simp only [bind, Except.bind, hrest]
    rfl

lemma consumer_lt : q.mConsumerTail < capacity + 1 :=
  h.consumerTail ▸ h.head_lt

lemma inRange : q.InRange (capacity + 1) :=
  ⟨h.producer_lt, h.producerTail ▸ h.producer_lt, h.head_lt, h.consumer_lt⟩

lemma count (hcapacity : capacity < 2 ^ 31) :
    q.count = .ok l.length := by
  have hhead := h.head_lt
  have hlen := h.length_le
  have hproducer := h.producer_lt
  have hsum : wrapAdd (2 ^ 32) (capacity + 1) q.mProducerHead =
      capacity + 1 + q.mProducerHead := wrapAdd_of_lt (by omega)
  rw [AtomicRingQueue.count, if_neg h.size_ne_zero, h.size, h.producerTail, h.consumerTail, hsum,
    wrapSub_of_le (by omega) (by omega)]
  rcases wrapAdd_cases (b := l.length) hhead (by omega) with ⟨hlt, hp⟩ | ⟨hge, hp⟩ <;>
    rw [← h.producerHead] at hp
  · have hdiff : capacity + 1 + q.mProducerHead - q.mConsumerHead = capacity + 1 + l.length := by
      omega
    rw [hdiff, add_mod_left, mod_eq_of_lt (by omega)]
  · have hdiff : capacity + 1 + q.mProducerHead - q.mConsumerHead = l.length := by omega
    rw [hdiff, mod_eq_of_lt (by omega)]

end

end Contains

lemma consumerHead_of_pushes {n : Nat} {value : T} {replies : List (RingReply T)}
    {q' : AtomicRingQueue T}
    (h : q.serveAll moved (replicate n (.tryPush value)) = .ok (replies, q')) :
    q'.mConsumerHead = q.mConsumerHead := by
  induction n generalizing q replies with
  | zero =>
    cases h
    rfl
  | succ n ih =>
    obtain ⟨⟨reply, q1⟩, hserve, h⟩ := bind_eq_ok.1 h
    obtain ⟨⟨rest, q2⟩, hrest, h⟩ := bind_eq_ok.1 h
    cases h
    obtain ⟨⟨accepted, q3⟩, hpush, heq⟩ := map_eq_ok.1 hserve
    cases heq
    have hhead : q3.mConsumerHead = q.mConsumerHead := by
      rw [tryPush] at hpush
      split at hpush
      · cases hpush
      · split at hpush <;>
        · cases hpush
          rfl
    exact (ih hrest).trans hhead

lemma count_wraps (h : q.Contains capacity l) (hhead : q.mConsumerHead = 0)
    (htotal : capacity + 1 + l.length = 2 ^ 32) : q.count = .ok 0 := by
  have hlen := h.length_le
  have hproducer : q.mProducerTail = l.length := by
    rw [h.producerTail, h.producerHead, hhead, wrapAdd, Nat.zero_add, mod_eq_of_lt (by omega)]
  have hsum : wrapAdd (2 ^ 32) (capacity + 1) l.length = 0 := by
    rw [wrapAdd, htotal, mod_self]
  have hsub : wrapSub (2 ^ 32) 0 0 = 0 := wrapSub_of_le (Nat.le_refl _) (by decide)
  rw [count, if_neg h.size_ne_zero, h.size, hproducer, h.consumerTail, hhead, hsum, hsub,
    zero_mod]

/-- The ring of a given capacity refines the bounded queue of that capacity if and only if the
capacity is below half of the words. -/
theorem refinesFifo_iff {storage : Option (Nat → T)} (hword : capacity < 2 ^ 32)
    (hcreate : create capacity storage = .ok q) :
    RefinesFifo moved q capacity [] ↔ capacity < 2 ^ 31 := by
  obtain ⟨slots, hne, rfl⟩ : ∃ slots, capacity ≠ 0 ∧ q = reset slots capacity := by
    unfold create at hcreate
    split at hcreate
    · cases hcreate
    · cases storage with
      | none => cases hcreate
      | some slots =>
        cases hcreate
        exact ⟨slots, ‹_›, rfl⟩
  constructor
  · intro hrefines
    by_contra hbound
    by_cases hzero : capacity + 1 = 2 ^ 32
    · -- no slots: every index is reduced by zero
      obtain ⟨q', hserve, -⟩ := hrefines [.tryPop]
      have hsize : (reset slots capacity).mCapacity = 0 := by
        rw [reset, hzero, mod_self]
      rw [serveAll, AtomicRingQueue.serve, tryPop, if_pos hsize] at hserve
      cases hserve
    · have hcontains := @contains_reset T capacity slots (by omega)
      obtain ⟨n, hn⟩ : ∃ n, capacity + 1 + n = 2 ^ 32 := ⟨2 ^ 32 - (capacity + 1), by omega⟩
      have hlist := @Fifo.serveAll_pushes T capacity n (slots 0) [] (by
        rw [length_nil]
        omega)
      obtain ⟨q1, hrun1, h1⟩ :=
        @Contains.serveAll T _ capacity [] moved hcontains (replicate n (.tryPush (slots 0)))
      obtain ⟨q2, hrun2, hcount, -⟩ := hrefines (replicate n (.tryPush (slots 0)))
      obtain rfl : q1 = q2 := congrArg Prod.snd (Except.ok.inj (hrun1.symm.trans hrun2))
      rw [hlist, nil_append] at h1 hcount
      rw [length_replicate, count_wraps h1 (consumerHead_of_pushes hrun1)
        (by rwa [length_replicate])] at hcount
      have hnone : 0 = n := Except.ok.inj hcount
      omega
  · intro hbound calls
    have hcontains := @contains_reset T capacity slots (by omega)
    obtain ⟨q', hserve, h'⟩ := @Contains.serveAll T _ capacity [] moved hcontains calls
    exact ⟨q', hserve, h'.count hbound, h'.inRange⟩

/-- A queue of two elements. -/
theorem refinesFifo_two : RefinesFifo (fun n => n) (reset (fun _ => 0) 2) 2 ([] : List Nat) :=
  (refinesFifo_iff (by decide) (show create 2 (some fun _ => 0) = .ok _ from rfl)).2 (by decide)

/-- The largest capacity: the modulus is zero, and the first push divides by it. -/
theorem not_refinesFifo_max : create (2 ^ 32 - 1) (some fun _ => 0) =
      .ok (reset (fun _ => 0) (2 ^ 32 - 1)) ∧
    ¬ RefinesFifo (fun n => n) (reset (fun _ => 0) (2 ^ 32 - 1)) (2 ^ 32 - 1) ([] : List Nat) := by
  refine ⟨rfl, fun hrefines => ?_⟩
  obtain ⟨q', hserve, -⟩ := hrefines [.tryPush 0]
  cases hserve

end AtomicRingQueue

end BezOS
