import BezOS.Lib.Transition
import BezOS.Status
import BezOS.Lib.Word

/-!
# The ring queue

`sm::AtomicRingQueue` of `std/ringbuffer.hpp`. A `tryPush` or `tryPop` is cut at its atomic
operations and its access to the slot: each constructor of `TryPush` and `TryPop` is the operation
the call makes next, with the local variables that are still read. One step of the system is one
such operation of one call, so that the runs of the system are the interleavings of any number of
producers with the one consumer; a push that interrupts another one is a call that takes all its
steps between two steps of the other.
-/

namespace BezOS

structure AtomicRingQueue (T : Type) where
  mStorage : Nat → T
  mCapacity : Nat
  mProducerHead : Nat
  mConsumerTail : Nat
  mProducerTail : Nat
  mConsumerHead : Nat

/-- A `tryPush` call, at the operation it makes next. -/
inductive TryPush (T : Type)
  | loadHead (value : T)
  | loadConsumerTail (value : T) (producerHead : Nat)
  | exchangeHead (value : T) (producerHead producerNext : Nat)
  | store (value : T) (producerHead : Nat)
  | loadTail
  | exchangeTail (producerTail producerTailNext : Nat)
  | returned (accepted : Bool)
  deriving DecidableEq

/-- The consumer: between calls, or in a `tryPop` call at the operation it makes next. -/
inductive TryPop
  | idle
  | loadTail (consumerHead : Nat)
  | storeHead (consumerHead consumerNext : Nat)
  | move (consumerHead consumerNext : Nat)
  | storeTail (consumerNext : Nat)
  deriving DecidableEq

/-- What a run is judged by: slots claimed, values stored and moved out, and the steps of
`mProducerTail`. A push is known by its number among the calls. -/
inductive QueueEvent (T : Type)
  | claimed (call slot : Nat) (value : T)
  | stored (call slot : Nat) (value : T)
  | published (call : Nat)
  | popped (slot : Nat) (value : T)
  deriving DecidableEq

namespace AtomicRingQueue

variable {T : Type}

/-- Index arithmetic is that of `uint32_t`. -/
def next (q : AtomicRingQueue T) (index : Nat) : Nat :=
  (index + 1) % 2 ^ 32 % q.mCapacity

def reset (storage : Nat → T) (capacity : Nat) : AtomicRingQueue T where
  mStorage := storage
  mCapacity := (capacity + 1) % 2 ^ 32
  mProducerHead := 0
  mConsumerTail := 0
  mProducerTail := 0
  mConsumerHead := 0

/-- `storage` is what the allocator answers. -/
def create (capacity : Nat) (storage : Option (Nat → T)) : Except OsStatus (AtomicRingQueue T) :=
  if capacity = 0 then .error .invalidInput
  else match storage with
    | some storage => .ok (reset storage capacity)
    | none => .error .outOfMemory

end AtomicRingQueue

/-- One operation of the push with number `call`. -/
def TryPush.step {T : Type} (q : AtomicRingQueue T) (call : Nat) :
    TryPush T → AtomicRingQueue T × TryPush T × List (QueueEvent T)
  | .loadHead value => (q, .loadConsumerTail value q.mProducerHead, [])
  | .loadConsumerTail value producerHead =>
      if q.next producerHead = q.mConsumerTail then
        (q, .returned false, []) -- queue is full
      else
        (q, .exchangeHead value producerHead (q.next producerHead), [])
  | .exchangeHead value producerHead producerNext =>
      if q.mProducerHead = producerHead then
        ({ q with mProducerHead := producerNext }, .store value producerHead,
          [.claimed call producerHead value])
      else
        (q, .loadHead value, [])
  | .store value producerHead =>
      ({ q with mStorage := Function.update q.mStorage producerHead value }, .loadTail,
        [.stored call producerHead value])
  | .loadTail => (q, .exchangeTail q.mProducerTail (q.next q.mProducerTail), [])
  | .exchangeTail producerTail producerTailNext =>
      if q.mProducerTail = producerTail then
        ({ q with mProducerTail := producerTailNext }, .returned true, [.published call])
      else
        (q, .loadTail, [])
  | .returned accepted => (q, .returned accepted, [])

/-- One operation of the consumer. `moved` is what a move leaves behind in the slot. -/
def TryPop.step {T : Type} (moved : T → T) (q : AtomicRingQueue T) :
    TryPop → AtomicRingQueue T × TryPop × List (QueueEvent T)
  | .idle => (q, .loadTail q.mConsumerHead, [])
  | .loadTail consumerHead =>
      if consumerHead = q.mProducerTail then
        (q, .idle, []) -- queue is empty
      else
        (q, .storeHead consumerHead (q.next consumerHead), [])
  | .storeHead consumerHead consumerNext =>
      ({ q with mConsumerHead := consumerNext }, .move consumerHead consumerNext, [])
  | .move consumerHead consumerNext =>
      let value := q.mStorage consumerHead
      ({ q with mStorage := Function.update q.mStorage consumerHead (moved value) },
        .storeTail consumerNext, [.popped consumerHead value])
  | .storeTail consumerNext => ({ q with mConsumerTail := consumerNext }, .idle, [])

structure QueueSystem (T : Type) where
  queue : AtomicRingQueue T
  pushes : List (TryPush T)
  pop : TryPop
  trace : List (QueueEvent T)

inductive QueueAction (T : Type)
  /-- A producer calls `tryPush`. -/
  | tryPush (value : T)
  /-- A push that was called takes its next step. -/
  | push (call : Nat)
  /-- The consumer takes its next step. -/
  | pop

namespace QueueSystem

variable {T : Type}

def init (q : AtomicRingQueue T) : QueueSystem T := ⟨q, [], .idle, []⟩

def step (moved : T → T) (s : QueueSystem T) : QueueAction T → QueueSystem T
  | .tryPush value => { s with pushes := s.pushes ++ [.loadHead value] }
  | .push call =>
      match s.pushes[call]? with
      | none => s
      | some p =>
          let (q, p, events) := p.step s.queue call
          ⟨q, s.pushes.set call p, s.pop, s.trace ++ events⟩
  | .pop =>
      let (q, p, events) := s.pop.step moved s.queue
      ⟨q, s.pushes, p, s.trace ++ events⟩

/-- Every action is one atomic step; it always has an outcome. -/
def Steps (moved : T → T) (s : QueueSystem T) (a : QueueAction T) (t : QueueSystem T) : Prop :=
  s.step moved a = t

def run (moved : T → T) (s : QueueSystem T) (as : List (QueueAction T)) : QueueSystem T :=
  as.foldl (step moved) s

end QueueSystem

/-! ## What the queue is for -/

section History

variable {T : Type}

/-- An accepted push: its slot and value, with the number of the call. -/
structure Claim (T : Type) where
  call : Nat
  slot : Nat
  value : T
  deriving DecidableEq

/-- The pushes that claimed a slot, in the order of the claims. -/
def claims (trace : List (QueueEvent T)) : List (Claim T) :=
  trace.filterMap fun
    | .claimed call slot value => some ⟨call, slot, value⟩
    | _ => none

/-- What the pops returned, with the slots read, in the order of the reads. -/
def pops (trace : List (QueueEvent T)) : List (Nat × T) :=
  trace.filterMap fun
    | .popped slot value => some (slot, value)
    | _ => none

/-- How often `mProducerTail` was advanced. -/
def published (trace : List (QueueEvent T)) : Nat :=
  trace.countP fun
    | .published _ => true
    | _ => false

def QueueEvent.ofStore (c : Claim T) : QueueEvent T := .stored c.call c.slot c.value

/-- The `n`-th value moved out is that of the `n`-th claim, which was stored in that slot before;
a slot is stored to when every value stored there before has been moved out. -/
def QueueEvent.allowed (past : List (QueueEvent T)) : QueueEvent T → Prop
  | .claimed _ _ _ => True
  | .published _ => True
  | .stored _ slot _ => ∀ n c, (claims past)[n]? = some c → c.slot = slot → .ofStore c ∈ past →
      n < (pops past).length
  | .popped slot value => ∃ c, (claims past)[(pops past).length]? = some c ∧ c.slot = slot ∧
      c.value = value ∧ .ofStore c ∈ past

/-- A history of a multi-producer, single-consumer queue. The values returned are the first
values accepted, each once and in the order of the claims. -/
structure QueueHistory (trace : List (QueueEvent T)) : Prop where
  justified : Lib.Justified QueueEvent.allowed trace
  returned : pops trace <+: (claims trace).map fun c => (c.slot, c.value)

end History

end BezOS

/-!
## The ring queue, one call after the other

What `tryPush` and `tryPop` of `sm::AtomicRingQueue` do when no other call is made meanwhile. Every
compare-exchange then finds the value that was loaded. A ring contains a list when the slots from
the consumer's index on, round the end of the storage, hold its elements.
-/

namespace BezOS

open Lib Function List Nat

namespace AtomicRingQueue

variable {T : Type} {q q' : AtomicRingQueue T} {capacity : Nat} {l : List T} {value : T}
  {moved : T → T}

/-- The indices are reduced by `mCapacity`, which must not be zero. -/
def tryPush (q : AtomicRingQueue T) (value : T) : Except Fault (Bool × AtomicRingQueue T) :=
  if q.mCapacity = 0 then .error .badAccess
  else if q.next q.mProducerHead = q.mConsumerTail then .ok (false, q)
  else
    .ok (true, { q with mStorage := update q.mStorage q.mProducerHead value,
                        mProducerHead := q.next q.mProducerHead,
                        mProducerTail := q.next q.mProducerTail })

/-- `moved` is what a move leaves behind in the slot. -/
def tryPop (moved : T → T) (q : AtomicRingQueue T) :
    Except Fault (Option T × AtomicRingQueue T) :=
  if q.mCapacity = 0 then .error .badAccess
  else if q.mConsumerHead = q.mProducerTail then .ok (none, q)
  else
    let value := q.mStorage q.mConsumerHead
    .ok (some value,
      { q with mStorage := update q.mStorage q.mConsumerHead (moved value),
               mConsumerHead := q.next q.mConsumerHead,
               mConsumerTail := q.next q.mConsumerHead })

/-! ## The calls as sequences of their operations -/

/-- The next operations of a push, with no operation of another call in between. -/
def pushSteps (call : Nat) : Nat → AtomicRingQueue T × TryPush T → AtomicRingQueue T × TryPush T
  | 0, s => s
  | n + 1, s =>
    let (q, p, _) := s.2.step s.1 call
    pushSteps call n (q, p)

/-- The next operations of the consumer, with no operation of a push in between. -/
def popSteps (moved : T → T) : Nat → AtomicRingQueue T × TryPop → AtomicRingQueue T × TryPop
  | 0, s => s
  | n + 1, s =>
    let (q, p, _) := s.2.step moved s.1
    popSteps moved n (q, p)

lemma pushSteps_tryPush {accepted : Bool} (call : Nat)
    (h : q.tryPush value = .ok (accepted, q')) :
    pushSteps call 6 (q, .loadHead value) = (q', .returned accepted) := by
  rw [tryPush] at h
  split at h
  case isTrue => cases h
  case isFalse =>
    split at h
    case isTrue hfull =>
      cases h
      simp [pushSteps, TryPush.step, hfull]
    case isFalse hroom =>
      cases h
      simp [pushSteps, TryPush.step, hroom]
      rfl

lemma popSteps_tryPop {popped : Option T} (h : q.tryPop moved = .ok (popped, q')) :
    popSteps moved (if popped.isSome then 5 else 2) (q, .idle) = (q', .idle) := by
  rw [tryPop] at h
  split at h
  case isTrue => cases h
  case isFalse =>
    split at h
    case isTrue hempty =>
      cases h
      simp [popSteps, TryPop.step, hempty]
    case isFalse hsome =>
      cases h
      simp [popSteps, TryPop.step, hsome]

/-- The ring holds the elements of the list, the first one at the consumer's index. -/
structure Contains (q : AtomicRingQueue T) (capacity : Nat) (l : List T) : Prop where
  size : q.mCapacity = capacity + 1
  word : capacity + 1 < 2 ^ 32
  head_lt : q.mConsumerHead < capacity + 1
  consumerTail : q.mConsumerTail = q.mConsumerHead
  producerHead : q.mProducerHead = wrapAdd (capacity + 1) q.mConsumerHead l.length
  producerTail : q.mProducerTail = q.mProducerHead
  length_le : l.length ≤ capacity
  values : ∀ (i : Nat) (hi : i < l.length),
    q.mStorage (wrapAdd (capacity + 1) q.mConsumerHead i) = l[i]

namespace Contains

section

variable (h : q.Contains capacity l)

include h

lemma size_ne_zero : q.mCapacity ≠ 0 := by
  rw [h.size]
  exact succ_ne_zero capacity

lemma next_eq {index : Nat} (hindex : index < capacity + 1) :
    q.next index = wrapAdd (capacity + 1) index 1 := by
  have hword := h.word
  have hlt : index + 1 < 2 ^ 32 := by omega
  rw [next, h.size, wrapAdd, mod_eq_of_lt hlt]

lemma producer_lt : q.mProducerHead < capacity + 1 := by
  rw [h.producerHead]
  exact wrapAdd_lt (succ_pos _)

lemma next_producer_iff :
    q.next q.mProducerHead = q.mConsumerTail ↔ l.length = capacity := by
  have hhead := h.head_lt
  have hlen := h.length_le
  rw [h.next_eq h.producer_lt, h.consumerTail, h.producerHead]
  rcases wrapAdd_cases (b := l.length) hhead (by omega) with hp | hp <;>
    rcases wrapAdd_cases (b := 1) (wrapAdd_lt (w := capacity + 1) (a := q.mConsumerHead)
      (b := l.length) (by omega)) (by omega) with hn | hn <;> omega

lemma tryPush_of_full (hfull : l.length = capacity) (value : T) :
    q.tryPush value = .ok (false, q) := by
  rw [tryPush, if_neg h.size_ne_zero, if_pos (h.next_producer_iff.2 hfull)]

lemma tryPush_of_lt (hroom : l.length < capacity) (value : T) :
    ∃ q', q.tryPush value = .ok (true, q') ∧ q'.Contains capacity (l ++ [value]) := by
  have hhead := h.head_lt
  have hfull : ¬ q.next q.mProducerHead = q.mConsumerTail := by
    rw [h.next_producer_iff]
    omega
  refine ⟨{ q with mStorage := update q.mStorage q.mProducerHead value,
                   mProducerHead := q.next q.mProducerHead,
                   mProducerTail := q.next q.mProducerTail },
    by rw [tryPush, if_neg h.size_ne_zero, if_neg hfull], h.size, h.word, hhead, h.consumerTail,
    ?_, ?_, ?_, ?_⟩
  · simp only [length_append, length_singleton]
    rw [h.next_eq h.producer_lt, h.producerHead]
    simp [wrapAdd, Nat.add_assoc]
  · simp only [h.producerTail]
  · simp only [length_append, length_singleton]
    exact hroom
  · intro i hi
    simp only [length_append, length_singleton] at hi
    simp only [h.producerHead]
    rcases Nat.lt_or_ge i l.length with hlt | hge
    · -- the earlier elements stand in other slots
      have hne : wrapAdd (capacity + 1) q.mConsumerHead i ≠
          wrapAdd (capacity + 1) q.mConsumerHead l.length := by
        rcases wrapAdd_cases (b := i) hhead (by omega) with hi' | hi' <;>
          rcases wrapAdd_cases (b := l.length) hhead (by omega) with hl | hl <;> omega
      rw [update_of_ne hne, h.values i hlt, getElem_append_left hlt]
    · obtain rfl : i = l.length := by omega
      rw [update_self]
      simp

end

lemma tryPop_nil (h : q.Contains capacity ([] : List T)) :
    q.tryPop moved = .ok (none, q) := by
  have hempty : q.mConsumerHead = q.mProducerTail := by
    rw [h.producerTail, h.producerHead, wrapAdd, length_nil, Nat.add_zero,
      mod_eq_of_lt h.head_lt]
  rw [tryPop, if_neg h.size_ne_zero, if_pos hempty]

lemma tryPop_cons (h : q.Contains capacity (value :: l)) :
    ∃ q', q.tryPop moved = .ok (some value, q') ∧ q'.Contains capacity l := by
  have hhead := h.head_lt
  have hlen := h.length_le
  have hproducer := h.producerHead
  have hfirst := h.values 0 (by simp)
  simp only [length_cons] at hlen hproducer
  simp only [wrapAdd, Nat.add_zero, mod_eq_of_lt hhead, getElem_cons_zero] at hfirst
  have hsome : ¬ q.mConsumerHead = q.mProducerTail := by
    rw [h.producerTail, hproducer]
    rcases wrapAdd_cases (b := l.length + 1) hhead (by omega) with hp | hp <;> omega
  have hnext := h.next_eq hhead
  refine ⟨{ q with mStorage := update q.mStorage q.mConsumerHead (moved value),
                   mConsumerHead := q.next q.mConsumerHead,
                   mConsumerTail := q.next q.mConsumerHead }, ?_, h.size, h.word, ?_, rfl,
    ?_, h.producerTail, by omega, ?_⟩
  · rw [tryPop, if_neg h.size_ne_zero, if_neg hsome, hfirst]
  · simp only [hnext]
    exact wrapAdd_lt (succ_pos _)
  · simp only [hnext, hproducer]
    simp [wrapAdd, Nat.add_assoc, Nat.add_comm 1]
  · intro i hi
    have hslot : wrapAdd (capacity + 1) (wrapAdd (capacity + 1) q.mConsumerHead 1) i =
        wrapAdd (capacity + 1) q.mConsumerHead (i + 1) := by
      simp [wrapAdd, Nat.add_assoc, Nat.add_comm 1]
    have hne : wrapAdd (capacity + 1) q.mConsumerHead (i + 1) ≠ q.mConsumerHead := by
      rcases wrapAdd_cases (b := i + 1) hhead (by omega) with hp | hp <;> omega
    have hvalue := h.values (i + 1) (by simp; omega)
    simp only [hnext]
    rw [hslot, update_of_ne hne, hvalue, getElem_cons_succ]

end Contains

lemma contains_reset (storage : Nat → T) (hword : capacity + 1 < 2 ^ 32) :
    (reset storage capacity).Contains capacity [] := by
  refine ⟨mod_eq_of_lt hword, hword, succ_pos _, rfl, ?_, rfl, Nat.zero_le _, ?_⟩
  · simp [reset, wrapAdd]
  · intro i hi
    cases hi

end AtomicRingQueue

/-! ## Progress -/

namespace QueueSystem

open AtomicRingQueue

variable {T : Type} {moved : T → T} {s : QueueSystem T} {p : TryPush T} {call : Nat}

lemma run_push (hcall : s.pushes[call]? = some p) (n : Nat) :
    (s.run moved (replicate n (.push call))).pushes[call]? =
      some (pushSteps call n (s.queue, p)).2 := by
  induction n generalizing s p with
  | zero => exact hcall
  | succ n ih =>
    have hlt : call < s.pushes.length := (List.getElem?_eq_some_iff.1 hcall).1
    have hstep : (s.step moved (.push call)).pushes[call]? = some (p.step s.queue call).2.1 := by
      rw [step, hcall]
      exact List.getElem?_set_self hlt
    rw [replicate_succ, run, foldl_cons]
    refine (ih hstep).trans ?_
    rw [pushSteps, step, hcall]

/-- How many operations the consumer's call has left at most. -/
def rest : TryPop → Nat
  | .idle => 0
  | .loadTail _ => 4
  | .storeHead _ _ => 3
  | .move _ _ => 2
  | .storeTail _ => 1

def isPop : QueueAction T → Bool
  | .pop => true
  | _ => false

lemma rest_step (q : AtomicRingQueue T) {p : TryPop} (hp : p ≠ .idle) :
    rest (p.step moved q).2.1 < rest p := by
  cases p with
  | idle => exact absurd rfl hp
  | loadTail consumerHead =>
    rw [TryPop.step]
    split <;> simp [rest]
  | storeHead | move | storeTail => exact Nat.lt_succ_self _

end QueueSystem

end BezOS
