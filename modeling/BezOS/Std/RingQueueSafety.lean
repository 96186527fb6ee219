import Mathlib.Data.List.Induction
import BezOS.Std.RingQueue

/-!
# Safety of the ring queue

The four indices are counters modulo the capacity: claims, publications, and the pops begun and
finished. `QueueSystem.Invariant` relates them to the history of the run. It is kept by every step
but two: a push may publish a slot that its producer has not stored to yet, and the exchange of
`mProducerHead` may succeed after the index has gone all the way round, when the check for a full
queue is out of date. `Timely` excludes these two, in terms of the state before the step.
-/

namespace BezOS

open Lib AtomicRingQueue Function List Nat QueueEvent

variable {T : Type}

namespace TryPush

/-- The push has claimed a slot and has not advanced `mProducerTail` yet. -/
def owes : TryPush T → Bool
  | .store _ _ => true
  | .loadTail => true
  | .exchangeTail _ _ => true
  | _ => false

/-- The push may still claim a slot. -/
def searching : TryPush T → Bool
  | .loadHead _ => true
  | .loadConsumerTail _ _ => true
  | .exchangeHead _ _ _ => true
  | _ => false

def storing : TryPush T → Bool
  | .store _ _ => true
  | _ => false

/-- The push has claimed `slot` and has not stored its value there yet. -/
def storesTo (slot : Nat) : TryPush T → Bool
  | .store _ producerHead => producerHead = slot
  | _ => false

end TryPush

/-! ## The histories -/

section Events

variable (trace : List (QueueEvent T)) (call slot : Nat) (value : T)

@[simp] lemma claims_claimed :
    claims (trace ++ [.claimed call slot value]) = claims trace ++ [⟨call, slot, value⟩] := by
  simp [claims]

@[simp] lemma claims_stored : claims (trace ++ [.stored call slot value]) = claims trace := by
  simp [claims]

@[simp] lemma claims_published : claims (trace ++ [.published call]) = claims trace := by
  simp [claims]

@[simp] lemma claims_popped : claims (trace ++ [.popped slot value]) = claims trace := by
  simp [claims]

@[simp] lemma pops_claimed : pops (trace ++ [.claimed call slot value]) = pops trace := by
  simp [pops]

@[simp] lemma pops_stored : pops (trace ++ [.stored call slot value]) = pops trace := by
  simp [pops]

@[simp] lemma pops_published : pops (trace ++ [.published call]) = pops trace := by
  simp [pops]

@[simp] lemma pops_popped :
    pops (trace ++ [.popped slot value]) = pops trace ++ [(slot, value)] := by
  simp [pops]

@[simp] lemma published_claimed :
    published (trace ++ [.claimed call slot value]) = published trace := by
  simp [published]

@[simp] lemma published_stored :
    published (trace ++ [.stored call slot value]) = published trace := by
  simp [published]

@[simp] lemma published_published :
    published (trace ++ [.published call]) = published trace + 1 := by
  simp [published]

@[simp] lemma published_popped :
    published (trace ++ [.popped slot value]) = published trace := by
  simp [published]

end Events

lemma QueueHistory.of_justified {trace : List (QueueEvent T)}
    (h : Justified allowed trace) : QueueHistory trace := by
  refine ⟨h, ?_⟩
  -- each pop extends the prefix by the claim that its justification names
  have hstarts : ∀ past later, trace = past ++ later →
      pops past <+: (claims trace).map fun c => (c.slot, c.value) := by
    intro past
    induction past using reverseRecOn with
    | nil => exact fun _ _ => nil_prefix
    | append_singleton past e ih =>
      intro later hcut
      have hcut' : trace = past ++ e :: later := by simpa using hcut
      have hpast := ih (e :: later) hcut'
      cases e with
      | claimed call slot value => simpa using hpast
      | stored call slot value => simpa using hpast
      | published call => simpa using hpast
      | popped slot value =>
        obtain ⟨c, hc, rfl, rfl, -⟩ := h past _ later hcut'
        have hc' : (claims trace)[(pops past).length]? = some c := by
          rw [hcut', claims, filterMap_append]
          exact getElem?_append_of_some hc _
        obtain ⟨rest, hrest⟩ := hpast
        have hmap : ((claims trace).map fun c => (c.slot, c.value))[(pops past).length]? =
            some (c.slot, c.value) := by
          rw [getElem?_map, hc']
          rfl
        rw [← hrest, getElem?_append_right (Nat.le_refl _), Nat.sub_self] at hmap
        obtain ⟨x, rest, rfl⟩ : ∃ x rest', rest = x :: rest' := by
          cases rest with
          | nil => simp at hmap
          | cons x rest => exact ⟨x, rest, rfl⟩
        obtain rfl : x = (c.slot, c.value) := by simpa using hmap
        rw [pops_popped, ← hrest]
        exact ⟨rest, by simp⟩
  exact hstarts trace [] (by simp)

/-! ## The invariant -/

namespace TryPop

/-- Where the consumer stands, after `popped` values were moved out of `published` ones. -/
def At (q : AtomicRingQueue T) (popped published : Nat) : TryPop → Prop
  | .idle => q.mConsumerHead = popped % q.mCapacity
  | .loadTail consumerHead =>
      q.mConsumerHead = popped % q.mCapacity ∧ consumerHead = popped % q.mCapacity
  | .storeHead consumerHead consumerNext => popped < published ∧
      consumerHead = popped % q.mCapacity ∧ consumerNext = (popped + 1) % q.mCapacity
  | .move consumerHead consumerNext => popped < published ∧
      q.mConsumerHead = (popped + 1) % q.mCapacity ∧
      consumerHead = popped % q.mCapacity ∧ consumerNext = (popped + 1) % q.mCapacity
  | .storeTail consumerNext => 0 < popped ∧ q.mConsumerHead = popped % q.mCapacity ∧
      consumerNext = popped % q.mCapacity

lemma At.of_indices {q q' : AtomicRingQueue T} {popped published : Nat} {p : TryPop}
    (h : p.At q popped published) (hcapacity : q'.mCapacity = q.mCapacity)
    (hhead : q'.mConsumerHead = q.mConsumerHead) : p.At q' popped published := by
  cases p <;> simpa [At, hcapacity, hhead] using h

lemma At.mono {q : AtomicRingQueue T} {popped published published' : Nat} {p : TryPop}
    (h : p.At q popped published) (hle : published ≤ published') : p.At q popped published' := by
  cases p with
  | idle => exact h
  | loadTail consumerHead => exact h
  | storeHead consumerHead consumerNext => exact ⟨Nat.lt_of_lt_of_le h.1 hle, h.2⟩
  | move consumerHead consumerNext => exact ⟨Nat.lt_of_lt_of_le h.1 hle, h.2⟩
  | storeTail consumerNext => exact h

/-- Pops whose slot the consumer has given back, out of `popped` values moved out. -/
def freed (popped : Nat) : TryPop → Nat
  | .storeTail _ => popped - 1
  | _ => popped

lemma freed_le (popped : Nat) (p : TryPop) : p.freed popped ≤ popped := by
  cases p <;> simp [freed]

end TryPop

namespace QueueSystem

variable (s : QueueSystem T)

structure Counts : Prop where
  two_le : 2 ≤ s.queue.mCapacity
  lt : s.queue.mCapacity < 2 ^ 32
  head : s.queue.mProducerHead = (claims s.trace).length % s.queue.mCapacity
  tail : s.queue.mProducerTail = published s.trace % s.queue.mCapacity
  consumer : s.pop.At s.queue (pops s.trace).length (published s.trace)
  consumerTail : s.queue.mConsumerTail = s.pop.freed (pops s.trace).length % s.queue.mCapacity
  balance : published s.trace + s.pushes.countP TryPush.owes = (claims s.trace).length
  popped_le : (pops s.trace).length ≤ published s.trace
  room : (claims s.trace).length < s.pop.freed (pops s.trace).length + s.queue.mCapacity

structure Calls : Prop where
  known : ∀ c ∈ claims s.trace, c.call < s.pushes.length
  once : ∀ {m n : Nat} {a b : Claim T}, (claims s.trace)[m]? = some a → (claims s.trace)[n]? = some b →
    a.call = b.call → m = n
  searching : ∀ {call : Nat} {p : TryPush T}, s.pushes[call]? = some p → p.searching → ∀ c ∈ claims s.trace,
    c.call ≠ call
  storing : ∀ {call : Nat} {value : T} {slot : Nat}, s.pushes[call]? = some (.store value slot) →
    (∃ n : Nat, (claims s.trace)[n]? = some ⟨call, slot, value⟩) ∧
      QueueEvent.stored call slot value ∉ s.trace
  claimed : ∀ {call slot : Nat} {value : T}, QueueEvent.stored call slot value ∈ s.trace →
    ⟨call, slot, value⟩ ∈ claims s.trace
  exchangeHead : ∀ {call : Nat} {value : T} {head next : Nat},
    s.pushes[call]? = some (.exchangeHead value head next) → next = s.queue.next head
  exchangeTail : ∀ {call tail next : Nat},
    s.pushes[call]? = some (.exchangeTail tail next) → next = s.queue.next tail

structure Slots : Prop where
  slot : ∀ {n : Nat} {c : Claim T}, (claims s.trace)[n]? = some c → c.slot = n % s.queue.mCapacity
  pending : ∀ {n : Nat} {c : Claim T}, (claims s.trace)[n]? = some c →
    s.pushes[c.call]? = some (.store c.value c.slot) ∨ .ofStore c ∈ s.trace
  held : ∀ {n : Nat} {c : Claim T}, (claims s.trace)[n]? = some c → .ofStore c ∈ s.trace →
    (pops s.trace).length ≤ n → s.queue.mStorage c.slot = c.value
  written : ∀ {n : Nat} {c : Claim T}, (claims s.trace)[n]? = some c → n < published s.trace →
    .ofStore c ∈ s.trace

structure Invariant : Prop where
  counts : Counts s
  calls : Calls s
  slots : Slots s
  history : Justified allowed s.trace

variable {s} {moved : T → T}

lemma Counts.next_mod (h : s.Counts) (n : Nat) :
    s.queue.next (n % s.queue.mCapacity) = (n + 1) % s.queue.mCapacity := by
  have hpos : 0 < s.queue.mCapacity := by have := h.two_le; omega
  have hlt := mod_lt n hpos
  have hword : n % s.queue.mCapacity + 1 < 2 ^ 32 := by have := h.lt; omega
  rw [AtomicRingQueue.next, mod_eq_of_lt hword, mod_add_mod]

lemma Counts.published_le (h : s.Counts) : published s.trace ≤ (claims s.trace).length :=
  h.balance ▸ Nat.le_add_right _ _

lemma Counts.eq_of_mod_eq (h : s.Counts) {m n : Nat} {a b : Claim T}
    (ha : (claims s.trace)[m]? = some a) (hb : (claims s.trace)[n]? = some b)
    (hm : (pops s.trace).length ≤ m) (hn : (pops s.trace).length ≤ n)
    (hmod : m % s.queue.mCapacity = n % s.queue.mCapacity) : m = n := by
  have hroom := h.room
  have hfreed := TryPop.freed_le (pops s.trace).length s.pop
  have ha := (List.getElem?_eq_some_iff.1 ha).1
  have hb := (List.getElem?_eq_some_iff.1 hb).1
  exact eq_of_mod_eq_of_window (pops s.trace).length hm (by omega) hn (by omega) hmod

/-! ## Steps of a push -/

section Push

variable {call : Nat} {p p' : TryPush T}

lemma Invariant.of_quiet (h : s.Invariant) (hp : s.pushes[call]? = some p)
    (howes : p'.owes = p.owes) (hsearching : p'.searching → p.searching)
    (hstoring : p.storing = false) (hstoring' : p'.storing = false)
    (hhead : ∀ value head next, p' = .exchangeHead value head next → next = s.queue.next head)
    (htail : ∀ tail next, p' = .exchangeTail tail next → next = s.queue.next tail) :
    Invariant { s with pushes := s.pushes.set call p' } where
  counts := by
    have hcount := countP_set_add TryPush.owes (u := p') hp
    rw [howes] at hcount
    have hbalance := h.counts.balance
    exact { h.counts with balance := by simp only at hbalance ⊢; omega }
  calls :=
    { known := by simpa using h.calls.known
      once := h.calls.once
      searching := by
        intro j p1 hj hp1
        rcases getElem?_set_eq_some hj with ⟨rfl, rfl⟩ | ⟨-, hj⟩
        · exact h.calls.searching hp (hsearching hp1)
        · exact h.calls.searching hj hp1
      storing := by
        intro j value slot hj
        rcases getElem?_set_eq_some hj with ⟨rfl, rfl⟩ | ⟨-, hj⟩
        · simp [TryPush.storing] at hstoring'
        · exact h.calls.storing hj
      claimed := h.calls.claimed
      exchangeHead := by
        intro j value head next hj
        rcases getElem?_set_eq_some hj with ⟨rfl, he⟩ | ⟨-, hj⟩
        · exact hhead _ _ _ he.symm
        · exact h.calls.exchangeHead hj
      exchangeTail := by
        intro j tail next hj
        rcases getElem?_set_eq_some hj with ⟨rfl, he⟩ | ⟨-, hj⟩
        · exact htail _ _ he.symm
        · exact h.calls.exchangeTail hj }
  slots :=
    { h.slots with
      pending := by
        intro n c hc
        refine (h.slots.pending hc).imp_left fun hcall => ?_
        have hne : call ≠ c.call := by
          rintro rfl
          rw [hp] at hcall
          cases hcall
          simp [TryPush.storing] at hstoring
        simp only [ne_eq, hne, not_false_eq_true, getElem?_set_ne]
        exact hcall }
  history := h.history

lemma Calls.of_settled {q : AtomicRingQueue T} {e : QueueEvent T} (h : s.Calls)
    (hsearching : p'.searching = false) (hstoring : p'.storing = false) (htail : ∀ tail next, p' ≠ .exchangeTail tail next)
    (hq : q.mCapacity = s.queue.mCapacity) (hclaims : claims (s.trace ++ [e]) = claims s.trace)
    (he : ∀ j slot value, e = .stored j slot value →
      j = call ∧ ⟨j, slot, value⟩ ∈ claims s.trace) :
    Calls { s with queue := q, pushes := s.pushes.set call p', trace := s.trace ++ [e] } := by
  have hnext : ∀ index, q.next index = s.queue.next index := by
    intro index
    rw [AtomicRingQueue.next, hq, AtomicRingQueue.next]
  refine ⟨?_, ?_, ?_, ?_, ?_, ?_, ?_⟩
  · simpa [hclaims] using h.known
  · intro m n a b ha hb
    simp only [hclaims] at ha hb
    exact h.once ha hb
  · intro j p1 hj hp1 c hc
    simp only [hclaims] at hc
    rcases getElem?_set_eq_some hj with ⟨rfl, rfl⟩ | ⟨-, hj⟩
    · simp [hsearching] at hp1
    · exact h.searching hj hp1 c hc
  · intro j value slot hj
    rcases getElem?_set_eq_some hj with ⟨rfl, rfl⟩ | ⟨hne, hj⟩
    · simp [TryPush.storing] at hstoring
    · obtain ⟨hn, hstored⟩ := h.storing hj
      refine ⟨by simpa [hclaims] using hn, ?_⟩
      simp only [mem_append, mem_singleton, not_or]
      exact ⟨hstored, fun heq => hne (he _ _ _ heq.symm).1.symm⟩
  · intro j slot value hstored
    simp only [mem_append, mem_singleton] at hstored
    simp only [hclaims]
    rcases hstored with hstored | hstored
    · exact h.claimed hstored
    · exact (he _ _ _ hstored.symm).2
  · intro j value head next hj
    rcases getElem?_set_eq_some hj with ⟨rfl, rfl⟩ | ⟨-, hj⟩
    · simp [TryPush.searching] at hsearching
    · exact (h.exchangeHead hj).trans (hnext head).symm
  · intro j tail next hj
    rcases getElem?_set_eq_some hj with ⟨rfl, he⟩ | ⟨-, hj⟩
    · exact absurd he.symm (htail tail next)
    · exact (h.exchangeTail hj).trans (hnext tail).symm

lemma Invariant.of_claim {value : T} {head next : Nat} (h : s.Invariant)
    (hp : s.pushes[call]? = some (.exchangeHead value head next))
    (hhead : s.queue.mProducerHead = head) (hfree : next ≠ s.queue.mConsumerTail) :
    Invariant
      { s with
        queue := { s.queue with mProducerHead := next }
        pushes := s.pushes.set call (.store value head)
        trace := s.trace ++ [.claimed call head value] } := by
  obtain ⟨hcounts, hcalls, hslots, hhistory⟩ := h
  have hlen : (claims s.trace).length % s.queue.mCapacity = head := by
    rw [← hhead, hcounts.head]
  have hnext : next = ((claims s.trace).length + 1) % s.queue.mCapacity := by
    rw [hcalls.exchangeHead hp, ← hlen, hcounts.next_mod]
  have hnew := hcalls.searching hp rfl
  refine ⟨?counts, ?calls, ?slots, hhistory.snoc trivial⟩
  case counts =>
    have hcount := countP_set_add TryPush.owes (u := TryPush.store value head) hp
    have hbalance := hcounts.balance
    refine
      { hcounts with
        head := by simpa using hnext
        tail := by simpa using hcounts.tail
        consumer := by
          simp only [pops_claimed, published_claimed]
          exact hcounts.consumer.of_indices rfl rfl
        consumerTail := by simpa using hcounts.consumerTail
        balance := ?_
        popped_le := by simpa using hcounts.popped_le
        room := ?_ }
    · simp [TryPush.owes] at hcount ⊢
      omega
    · -- one slot stays free: the counters would otherwise agree modulo the capacity
      have hroom := hcounts.room
      have hne : (claims s.trace).length + 1 ≠
          s.pop.freed (pops s.trace).length + s.queue.mCapacity := by
        intro heq
        apply hfree
        rw [hnext, heq, add_mod_right, hcounts.consumerTail]
      simp only [claims_claimed, pops_claimed, length_append, length_singleton]
      omega
  case calls =>
    refine ⟨?_, ?_, ?_, ?_, ?_, ?_, ?_⟩
    · intro c hc
      simp only [claims_claimed, mem_append, mem_singleton, length_set] at hc ⊢
      rcases hc with hc | rfl
      · exact hcalls.known c hc
      · exact (List.getElem?_eq_some_iff.1 hp).1
    · intro m n a b ha hb hab
      simp only [claims_claimed] at ha hb
      rcases getElem?_append_singleton ha with ⟨rfl, rfl⟩ | ha <;>
        rcases getElem?_append_singleton hb with ⟨rfl, rfl⟩ | hb
      · rfl
      · exact absurd hab.symm (hnew b (mem_of_getElem? hb))
      · exact absurd hab (hnew a (mem_of_getElem? ha))
      · exact hcalls.once ha hb hab
    · intro j p1 hj hp1 c hc
      simp only [claims_claimed, mem_append, mem_singleton] at hc
      rcases getElem?_set_eq_some hj with ⟨rfl, rfl⟩ | ⟨hne, hj⟩
      · simp [TryPush.searching] at hp1
      · rcases hc with hc | rfl
        · exact hcalls.searching hj hp1 c hc
        · exact hne
    · intro j value' slot hj
      simp only [claims_claimed]
      rcases getElem?_set_eq_some hj with ⟨rfl, he⟩ | ⟨hne, hj⟩
      · cases he
        refine ⟨⟨_, getElem?_concat_length⟩, ?_⟩
        simp only [mem_append, mem_singleton, reduceCtorEq, or_false]
        exact fun hstored => hnew _ (hcalls.claimed hstored) rfl
      · obtain ⟨⟨n, hn⟩, hstored⟩ := hcalls.storing hj
        refine ⟨⟨n, getElem?_append_of_some hn _⟩, ?_⟩
        simpa using hstored
    · intro j slot value' hstored
      simp only [mem_append, mem_singleton, reduceCtorEq, or_false] at hstored
      simp only [claims_claimed, mem_append]
      exact .inl (hcalls.claimed hstored)
    · intro j value' head' next' hj
      rcases getElem?_set_eq_some hj with ⟨rfl, he⟩ | ⟨-, hj⟩
      · cases he
      · exact hcalls.exchangeHead hj
    · intro j tail' next' hj
      rcases getElem?_set_eq_some hj with ⟨rfl, he⟩ | ⟨-, hj⟩
      · cases he
      · exact hcalls.exchangeTail hj
  case slots =>
    refine ⟨?_, ?_, ?_, ?_⟩
    · intro n c hc
      simp only [claims_claimed] at hc
      rcases getElem?_append_singleton hc with ⟨rfl, rfl⟩ | hc
      · exact hlen.symm
      · exact hslots.slot hc
    · intro n c hc
      simp only [claims_claimed] at hc
      rcases getElem?_append_singleton hc with ⟨rfl, rfl⟩ | hc
      · exact .inl (getElem?_set_same hp)
      · refine (hslots.pending hc).imp (fun hcall => ?_) (mem_append_left _)
        have hne : call ≠ c.call := (hnew c (mem_of_getElem? hc)).symm
        simpa [hne] using hcall
    · intro n c hc hstored hn
      simp only [claims_claimed, pops_claimed] at hc hn
      simp only [ofStore, mem_append, mem_singleton, reduceCtorEq,
        or_false] at hstored
      rcases getElem?_append_singleton hc with ⟨rfl, rfl⟩ | hc
      · exact absurd rfl (hnew _ (hcalls.claimed hstored))
      · exact hslots.held hc hstored hn
    · intro n c hc hn
      simp only [claims_claimed, published_claimed] at hc hn
      rcases getElem?_append_singleton hc with ⟨rfl, rfl⟩ | hc
      · exact absurd hn (Nat.not_lt.2 hcounts.published_le)
      · exact mem_append_left _ (hslots.written hc hn)

lemma Invariant.of_store {value : T} {slot : Nat} (h : s.Invariant)
    (hp : s.pushes[call]? = some (.store value slot)) :
    Invariant
      { s with
        queue := { s.queue with mStorage := update s.queue.mStorage slot value }
        pushes := s.pushes.set call .loadTail
        trace := s.trace ++ [.stored call slot value] } := by
  obtain ⟨hcounts, hcalls, hslots, hhistory⟩ := h
  obtain ⟨⟨n, hn⟩, hnew⟩ := hcalls.storing hp
  -- every other claim of this slot was popped: the claims not popped lie in one window
  have hother : ∀ m c, (claims s.trace)[m]? = some c → c.slot = slot → m ≠ n →
      .ofStore c ∈ s.trace → m < (pops s.trace).length := by
    intro m c hc hslot hne hstored
    by_contra hm
    refine hne (hcounts.eq_of_mod_eq hc hn (Nat.not_lt.1 hm) ?_ ?_)
    · exact Nat.le_trans hcounts.popped_le
        (Nat.not_lt.1 fun hlt => hnew (hslots.written hn hlt))
    · rw [← hslots.slot hc, hslot, ← hslots.slot hn]
  refine ⟨?counts, ?calls, ?slots, hhistory.snoc ?history⟩
  case counts =>
    have hcount := countP_set_add TryPush.owes (u := TryPush.loadTail) hp
    have hbalance := hcounts.balance
    refine
      { two_le := hcounts.two_le
        lt := hcounts.lt
        head := by simpa using hcounts.head
        tail := by simpa using hcounts.tail
        consumer := by
          simp only [pops_stored, published_stored]
          exact hcounts.consumer.of_indices rfl rfl
        consumerTail := by simpa using hcounts.consumerTail
        balance := ?_
        popped_le := by simpa using hcounts.popped_le
        room := by simpa using hcounts.room }
    simp [TryPush.owes] at hcount ⊢
    omega
  case calls =>
    refine hcalls.of_settled rfl rfl (by simp) rfl (claims_stored ..) ?_
    rintro j slot' value' heq
    cases heq
    exact ⟨rfl, mem_of_getElem? hn⟩
  case slots =>
    refine ⟨?_, ?_, ?_, ?_⟩
    · intro m c hc
      simp only [claims_stored] at hc
      exact hslots.slot hc
    · intro m c hc
      simp only [claims_stored] at hc
      by_cases hcall : call = c.call
      · obtain rfl := hcalls.once hc hn hcall.symm
        obtain rfl := Option.some.inj (hc.symm.trans hn)
        exact .inr (by simp [ofStore])
      · refine (hslots.pending hc).imp (fun hpending => ?_) (mem_append_left _)
        simpa [hcall] using hpending
    · intro m c hc hstored hm
      simp only [claims_stored, pops_stored] at hc hm
      simp only [mem_append, mem_singleton] at hstored
      by_cases hmn : m = n
      · obtain rfl := hmn
        obtain rfl := Option.some.inj (hc.symm.trans hn)
        simp
      · have hstored : .ofStore c ∈ s.trace := by
          refine hstored.resolve_right fun heq => hmn (hcalls.once hc hn ?_)
          cases c
          simp only [ofStore, QueueEvent.stored.injEq] at heq
          exact heq.1
        have hne : c.slot ≠ slot := fun hslot =>
          absurd (hother m c hc hslot hmn hstored) (Nat.not_lt.2 hm)
        simp only [update_of_ne hne]
        exact hslots.held hc hstored hm
    · intro m c hc hm
      simp only [claims_stored, published_stored] at hc hm
      exact mem_append_left _ (hslots.written hc hm)
  case history =>
    intro m c hc hslot hstored
    by_cases hmn : m = n
    · obtain rfl := hmn
      obtain rfl := Option.some.inj (hc.symm.trans hn)
      exact absurd hstored hnew
    · exact hother m c hc hslot hmn hstored

lemma Invariant.of_publish {tail next : Nat} (h : s.Invariant)
    (hp : s.pushes[call]? = some (.exchangeTail tail next))
    (htail : s.queue.mProducerTail = tail)
    (hwritten : ∀ p ∈ s.pushes, p.storesTo tail = false) :
    Invariant
      { s with
        queue := { s.queue with mProducerTail := next }
        pushes := s.pushes.set call (.returned true)
        trace := s.trace ++ [.published call] } := by
  obtain ⟨hcounts, hcalls, hslots, hhistory⟩ := h
  have hcount := countP_set_add TryPush.owes (u := TryPush.returned true) hp
  have hbalance := hcounts.balance
  refine ⟨?counts, ?calls, ?slots, hhistory.snoc trivial⟩
  case counts =>
    refine
      { two_le := hcounts.two_le
        lt := hcounts.lt
        head := by simpa using hcounts.head
        tail := ?_
        consumer := ?_
        consumerTail := by simpa using hcounts.consumerTail
        balance := ?_
        popped_le := ?_
        room := by simpa using hcounts.room }
    · simp only [published_published]
      rw [hcalls.exchangeTail hp, ← htail, hcounts.tail, hcounts.next_mod]
    · simp only [pops_published, published_published]
      exact (hcounts.consumer.of_indices rfl rfl).mono (le_succ _)
    · simp [TryPush.owes] at hcount ⊢
      omega
    · have hle := hcounts.popped_le
      simp only [pops_published, published_published]
      omega
  case calls => exact hcalls.of_settled rfl rfl (by simp) rfl (claims_published ..) (by simp)
  case slots =>
    refine ⟨?_, ?_, ?_, ?_⟩
    · intro m c hc
      simp only [claims_published] at hc
      exact hslots.slot hc
    · intro m c hc
      simp only [claims_published] at hc
      refine (hslots.pending hc).imp (fun hpending => ?_) (mem_append_left _)
      have hne : call ≠ c.call := by
        rintro rfl
        rw [hp] at hpending
        cases hpending
      simpa [hne] using hpending
    · intro m c hc hstored hm
      simp only [claims_published, pops_published] at hc hm
      simp only [ofStore, mem_append, mem_singleton, reduceCtorEq,
        or_false] at hstored
      exact hslots.held hc hstored hm
    · intro m c hc hm
      simp only [claims_published, published_published] at hc hm
      apply mem_append_left
      rcases Nat.lt_succ_iff_lt_or_eq.1 hm with hm | rfl
      · exact hslots.written hc hm
      · -- the claim published now is no longer on its way to the slot
        refine (hslots.pending hc).resolve_left fun hpending => ?_
        have hslot : c.slot = tail := by rw [hslots.slot hc, ← hcounts.tail, htail]
        have hdone := hwritten _ (mem_of_getElem? hpending)
        simp [TryPush.storesTo, hslot] at hdone

end Push

/-! ## Steps of the consumer -/

section Pop

variable {q : AtomicRingQueue T} {p : TryPop} {moved : T → T}

lemma Invariant.of_consumer (h : s.Invariant) (hstorage : q.mStorage = s.queue.mStorage)
    (hcapacity : q.mCapacity = s.queue.mCapacity)
    (hcounts : Counts { s with queue := q, pop := p }) :
    Invariant { s with queue := q, pop := p } where
  counts := hcounts
  calls :=
    { h.calls with
      exchangeHead := by
        intro call value head next hp
        rw [h.calls.exchangeHead hp, AtomicRingQueue.next, AtomicRingQueue.next, hcapacity]
      exchangeTail := by
        intro call tail next hp
        rw [h.calls.exchangeTail hp, AtomicRingQueue.next, AtomicRingQueue.next, hcapacity] }
  slots :=
    { h.slots with
      slot := by
        intro n c hc
        rw [h.slots.slot hc, hcapacity]
      held := by
        intro n c hc hstored hn
        simp only [hstorage]
        exact h.slots.held hc hstored hn }
  history := h.history

lemma Invariant.of_move {head next : Nat} (h : s.Invariant) (hp : s.pop = .move head next) :
    Invariant
      { s with
        queue :=
          { s.queue with
            mStorage := update s.queue.mStorage head (moved (s.queue.mStorage head)) }
        pop := .storeTail next
        trace := s.trace ++ [.popped head (s.queue.mStorage head)] } := by
  obtain ⟨hcounts, hcalls, hslots, hhistory⟩ := h
  have hat := hcounts.consumer
  rw [hp] at hat
  obtain ⟨hlt, hconsumerHead, hhead, hnext⟩ := hat
  obtain ⟨c, hc⟩ : ∃ c, (claims s.trace)[(pops s.trace).length]? = some c :=
    ⟨_, getElem?_eq_getElem (Nat.lt_of_lt_of_le hlt hcounts.published_le)⟩
  have hslot : c.slot = head := by rw [hslots.slot hc, hhead]
  have hvalue : s.queue.mStorage head = c.value := by
    rw [← hslot]
    exact hslots.held hc (hslots.written hc hlt) (Nat.le_refl _)
  refine ⟨?counts, ?calls, ?slots, hhistory.snoc ?history⟩
  case counts =>
    have hroom := hcounts.room
    have htail := hcounts.consumerTail
    simp only [hp, TryPop.freed] at hroom htail
    exact
      { two_le := hcounts.two_le
        lt := hcounts.lt
        head := by simpa using hcounts.head
        tail := by simpa using hcounts.tail
        consumer := by
          simp only [pops_popped, length_append, length_singleton]
          exact ⟨succ_pos _, hconsumerHead, hnext⟩
        consumerTail := by simpa [TryPop.freed] using htail
        balance := by simpa using hcounts.balance
        popped_le := by simpa using succ_le_of_lt hlt
        room := by simpa [TryPop.freed] using hroom }
  case calls =>
    have hevents : ∀ call slot value, QueueEvent.stored call slot value ∈
        s.trace ++ [.popped head (s.queue.mStorage head)] ↔ .stored call slot value ∈ s.trace := by
      simp
    refine ⟨?_, ?_, ?_, ?_, ?_, hcalls.exchangeHead, hcalls.exchangeTail⟩
    all_goals simp only [claims_popped, hevents]
    · exact hcalls.known
    · exact hcalls.once
    · exact hcalls.searching
    · exact hcalls.storing
    · exact hcalls.claimed
  case slots =>
    have hevents : ∀ c : Claim T, ofStore c ∈
        s.trace ++ [.popped head (s.queue.mStorage head)] ↔ .ofStore c ∈ s.trace := by
      simp [ofStore]
    refine ⟨?_, ?_, ?_, ?_⟩
    all_goals simp only [claims_popped, published_popped, hevents]
    · exact hslots.slot
    · exact hslots.pending
    · intro n c' hc' hstored hn
      simp only [pops_popped, length_append, length_singleton] at hn
      have hne : c'.slot ≠ head := by
        intro hslot'
        have hmod : n % s.queue.mCapacity = (pops s.trace).length % s.queue.mCapacity := by
          rw [← hslots.slot hc', hslot', hhead]
        have := hcounts.eq_of_mod_eq hc' hc (by omega) (Nat.le_refl _) hmod
        omega
      rw [update_of_ne hne]
      exact hslots.held hc' hstored (by omega)
    · exact hslots.written
  case history => exact ⟨c, hc, hslot, hvalue.symm, hslots.written hc hlt⟩

lemma Invariant.step_pop (h : s.Invariant) :
    Invariant (s.step moved .pop) := by
  have hcounts := h.counts
  have hat := hcounts.consumer
  have htail := hcounts.consumerTail
  have hroom := hcounts.room
  cases hp : s.pop with
  | idle =>
    simp only [hp, TryPop.At, TryPop.freed] at hat htail hroom
    simp only [step, hp, TryPop.step, append_nil]
    exact h.of_consumer rfl rfl
      { hcounts with consumer := ⟨hat, hat⟩, consumerTail := htail, room := hroom }
  | loadTail head =>
    simp only [hp, TryPop.At, TryPop.freed] at hat htail hroom
    obtain ⟨hconsumerHead, hhead⟩ := hat
    simp only [step, hp, TryPop.step]
    split
    · simp only [append_nil]
      exact h.of_consumer rfl rfl
        { hcounts with consumer := hconsumerHead, consumerTail := htail, room := hroom }
    · rename_i hne
      simp only [append_nil]
      -- the indices differ, so the counters do
      have hlt : (pops s.trace).length < published s.trace := by
        refine Nat.lt_of_le_of_ne hcounts.popped_le fun heq => hne ?_
        rw [hhead, heq, hcounts.tail]
      have hnext : s.queue.next head = ((pops s.trace).length + 1) % s.queue.mCapacity := by
        rw [hhead, hcounts.next_mod]
      exact h.of_consumer rfl rfl
        { hcounts with consumer := ⟨hlt, hhead, hnext⟩, consumerTail := htail, room := hroom }
  | storeHead head next =>
    simp only [hp, TryPop.At, TryPop.freed] at hat htail hroom
    obtain ⟨hlt, hhead, hnext⟩ := hat
    simp only [step, hp, TryPop.step, append_nil]
    exact h.of_consumer rfl rfl
      { hcounts with
        consumer := ⟨hlt, hnext, hhead, hnext⟩, consumerTail := htail, room := hroom }
  | move head next =>
    simp only [step, hp, TryPop.step]
    exact h.of_move hp
  | storeTail next =>
    simp only [hp, TryPop.At, TryPop.freed] at hat htail hroom
    obtain ⟨hpos, hconsumerHead, hnext⟩ := hat
    simp only [step, hp, TryPop.step, append_nil]
    refine h.of_consumer rfl rfl
      { hcounts with consumer := hconsumerHead, consumerTail := hnext, room := ?_ }
    simp only [TryPop.freed]
    omega

end Pop

/-! ## Runs -/

/-- The step `push` takes next is in time. Two are not: an exchange of `mProducerHead` that succeeds
although the queue is full, and one of `mProducerTail` that succeeds although the slot it publishes
is still to be stored to. -/
def PushTimely (s : QueueSystem T) : TryPush T → Prop
  | .exchangeHead _ producerHead producerNext =>
      s.queue.mProducerHead = producerHead → producerNext ≠ s.queue.mConsumerTail
  | .exchangeTail producerTail _ =>
      s.queue.mProducerTail = producerTail → ∀ p ∈ s.pushes, p.storesTo producerTail = false
  | _ => True

def Timely (s : QueueSystem T) : QueueAction T → Prop
  | .push call => ∀ p ∈ s.pushes[call]?, s.PushTimely p
  | _ => True

instance (s : QueueSystem T) : DecidablePred s.PushTimely
  | .exchangeHead _ _ _ => inferInstanceAs (Decidable (_ → _))
  | .exchangeTail _ _ => inferInstanceAs (Decidable (_ → _))
  | .loadHead _ | .loadConsumerTail _ _ | .store _ _ | .loadTail | .returned _ => isTrue trivial

instance (s : QueueSystem T) : DecidablePred s.Timely
  | .push call => inferInstanceAs (Decidable (∀ p ∈ s.pushes[call]?, s.PushTimely p))
  | .tryPush _ | .pop => isTrue trivial

lemma Invariant.step_push {call : Nat} (h : s.Invariant) (ht : s.Timely (.push call)) :
    Invariant (s.step moved (.push call)) := by
  simp only [step]
  cases hp : s.pushes[call]? with
  | none => exact h
  | some p =>
    have ht := ht p hp
    cases p with
    | loadHead value =>
      simp only [TryPush.step, append_nil]
      exact h.of_quiet hp rfl (fun _ => rfl) rfl rfl (by simp) (by simp)
    | loadConsumerTail value head =>
      simp only [TryPush.step]
      split
      · simp only [append_nil]
        exact h.of_quiet hp rfl (by simp [TryPush.searching]) rfl rfl (by simp) (by simp)
      · simp only [append_nil]
        refine h.of_quiet hp rfl (fun _ => rfl) rfl rfl ?_ (by simp)
        intro value' head' next' heq
        cases heq
        rfl
    | exchangeHead value head next =>
      simp only [TryPush.step]
      split
      · rename_i hhead
        exact h.of_claim hp hhead (ht hhead)
      · simp only [append_nil]
        exact h.of_quiet hp rfl (fun _ => rfl) rfl rfl (by simp) (by simp)
    | store value slot => exact h.of_store hp
    | loadTail =>
      simp only [TryPush.step, append_nil]
      refine h.of_quiet hp rfl (by simp [TryPush.searching]) rfl rfl (by simp) ?_
      intro tail next heq
      cases heq
      rfl
    | exchangeTail tail next =>
      simp only [TryPush.step]
      split
      · rename_i htail
        exact h.of_publish hp htail (ht htail)
      · simp only [append_nil]
        exact h.of_quiet hp rfl (by simp [TryPush.searching]) rfl rfl (by simp) (by simp)
    | returned accepted =>
      simp only [TryPush.step, append_nil]
      exact h.of_quiet hp rfl (by simp [TryPush.searching]) rfl rfl (by simp) (by simp)

lemma Invariant.step_tryPush {value : T} (h : s.Invariant) :
    Invariant (s.step moved (.tryPush value)) where
  counts := { h.counts with balance := by simpa [step, TryPush.owes] using h.counts.balance }
  calls :=
    { known := by
        intro c hc
        have hlt := h.calls.known c hc
        simp only [step, length_append, length_singleton]
        omega
      once := h.calls.once
      searching := by
        intro call p hp hsearching c hc
        rcases getElem?_append_singleton hp with ⟨rfl, -⟩ | hp
        · exact Nat.ne_of_lt (h.calls.known c hc)
        · exact h.calls.searching hp hsearching c hc
      storing := by
        intro call v slot hp
        rcases getElem?_append_singleton hp with ⟨-, heq⟩ | hp
        · cases heq
        · exact h.calls.storing hp
      claimed := h.calls.claimed
      exchangeHead := by
        intro call v head next hp
        rcases getElem?_append_singleton hp with ⟨-, heq⟩ | hp
        · cases heq
        · exact h.calls.exchangeHead hp
      exchangeTail := by
        intro call tail next hp
        rcases getElem?_append_singleton hp with ⟨-, heq⟩ | hp
        · cases heq
        · exact h.calls.exchangeTail hp }
  slots :=
    { h.slots with
      pending := by
        intro n c hc
        exact (h.slots.pending hc).imp_left fun hp => getElem?_append_of_some hp _ }
  history := h.history

lemma Invariant.step {a : QueueAction T} (h : s.Invariant) (ht : s.Timely a) :
    Invariant (s.step moved a) := by
  cases a with
  | tryPush value => exact h.step_tryPush
  | push call => exact h.step_push ht
  | pop => exact h.step_pop

lemma Invariant.init {capacity : Nat} {storage : Nat → T} (hpos : 0 < capacity)
    (hword : capacity + 1 < 2 ^ 32) : Invariant (init (reset storage capacity)) where
  counts :=
    { two_le := by
        simp only [QueueSystem.init, reset, mod_eq_of_lt hword]
        omega
      lt := mod_lt _ (by decide)
      head := by simp [QueueSystem.init, reset, claims]
      tail := by simp [QueueSystem.init, reset, published]
      consumer := by simp [QueueSystem.init, reset, TryPop.At, pops]
      consumerTail := by simp [QueueSystem.init, reset, TryPop.freed, pops]
      balance := by simp [QueueSystem.init, claims, published]
      popped_le := by simp [QueueSystem.init, pops]
      room := by
        simp only [QueueSystem.init, reset, mod_eq_of_lt hword, claims, pops,
          TryPop.freed, filterMap_nil, length_nil]
        omega }
  calls := by constructor <;> simp [QueueSystem.init, claims]
  slots := by constructor <;> simp [QueueSystem.init, claims]
  history := .nil

/-- A run of the queue in time: any interleaving of any number of pushes with the consumer, each
step of it timely. -/
def TimelySteps (moved : T → T) (s : QueueSystem T) (a : QueueAction T) (t : QueueSystem T) :
    Prop :=
  s.Timely a ∧ s.Steps moved a t

lemma run_timely {s : QueueSystem T} {as : List (QueueAction T)}
    (h : ∀ n : Fin as.length, (s.run moved (as.take n)).Timely (as.get n)) :
    Run (TimelySteps moved) s as (s.run moved as) := by
  induction as generalizing s with
  | nil => exact .nil s
  | cons a as ih =>
    refine .cons ⟨h 0, rfl⟩ (ih fun n => ?_)
    have hn := h n.succ
    simpa [run] using hn

def pushPop : List (QueueAction Nat) :=
  .tryPush 7 :: replicate 6 (.push 0) ++ replicate 5 .pop

/-- The first push claims slot 0 and stops; the second claims slot 1, stores its value and advances
`mProducerTail` past slot 0; the consumer takes what was in slot 0 before. -/
def overtake : List (QueueAction Nat) :=
  [.tryPush 7, .tryPush 8] ++ replicate 3 (.push 0) ++ replicate 6 (.push 1) ++
    replicate 4 .pop

end QueueSystem

end BezOS
