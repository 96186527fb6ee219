import BezOS.Lib.Transition
import BezOS.Lib.Word
import Mathlib.Logic.Function.Basic

/-!
# Spin locks

`stdx::SharedSpinLock` of `std/shared_spinlock.hpp` and `stdx::RecursiveSpinLock` of
`std/recursive_mutex.hpp`, cut at their atomic operations. One step of a system is one of them, so
that the runs are the interleavings of any number of threads or cores.
-/

namespace BezOS
namespace stdx

open Lib Function List

/-! ## The shared lock -/

namespace SharedSpinLock

def kWriteLock : Nat := 2 ^ 31

/-- An acquisition, at the atomic operation it makes next; that of a holder is the release. The
functions that try do not go round. -/
inductive Call
  | lock (tries : Bool)
  | lockShared (tries : Bool)
  | exchangeShared (tries : Bool) (expected : Nat)
  | writing
  | reading
  | returned
  deriving DecidableEq

def Call.step (mLock : Nat) : Call → Nat × Call
  | .lock tries =>
      if mLock = 0 then (kWriteLock, .writing)
      else (mLock, if tries then .returned else .lock tries)
  | .lockShared tries => (mLock, .exchangeShared tries (mLock &&& (2 ^ 32 - 1 - kWriteLock)))
  | .exchangeShared tries expected =>
      if mLock = expected then (wrapAdd (2 ^ 32) expected 1, .reading)
      else (mLock, if tries then .returned else .lockShared tries)
  | .writing => (0, .returned) -- unlock
  | .reading => (wrapSub (2 ^ 32) mLock 1, .returned) -- unlock_shared
  | .returned => (mLock, .returned)

structure LockSystem where
  mLock : Nat
  calls : List Call
  deriving DecidableEq

inductive Action
  | lock (tries : Bool)
  | lockShared (tries : Bool)
  /-- A call that was made takes its next step. -/
  | step (call : Nat)

namespace LockSystem

def init : LockSystem := ⟨0, []⟩

def step (s : LockSystem) : Action → LockSystem
  | .lock tries => { s with calls := s.calls ++ [.lock tries] }
  | .lockShared tries => { s with calls := s.calls ++ [.lockShared tries] }
  | .step call =>
      match s.calls[call]? with
      | none => s
      | some c => ⟨(c.step s.mLock).1, s.calls.set call (c.step s.mLock).2⟩

def writers (s : LockSystem) : Nat := s.calls.countP (· == .writing)

def readers (s : LockSystem) : Nat := s.calls.countP (· == .reading)

/-- Fewer than `2 ^ 31` readers at once. -/
def Steps (s : LockSystem) (a : Action) (t : LockSystem) : Prop :=
  s.step a = t ∧ t.readers < 2 ^ 31

/-- A writer is alone, and the word is the writer or the number of readers. -/
structure Excludes (s : LockSystem) : Prop where
  writers_le : s.writers ≤ 1
  readers_eq : s.writers ≠ 0 → s.readers = 0
  word_writer : s.writers ≠ 0 → s.mLock = kWriteLock
  word_readers : s.writers = 0 → s.mLock = s.readers

structure Invariant (s : LockSystem) : Prop extends Excludes s where
  readers_lt : s.readers < kWriteLock
  expected_lt : ∀ tries expected, .exchangeShared tries expected ∈ s.calls → expected < kWriteLock

lemma invariant_init : Invariant init := 
  ⟨⟨Nat.zero_le _, fun _ => rfl, fun h => absurd rfl h, fun _ => rfl⟩, by decide, nofun⟩

variable {s t : LockSystem} {i : Nat} {c : Call}

section

variable (h : s.Invariant)

include h

lemma Invariant.same {calls : List Call} (hw : calls.countP (· == .writing) = s.writers)
    (hr : calls.countP (· == .reading) = s.readers)
    (hx : ∀ tries expected, .exchangeShared tries expected ∈ calls → expected < kWriteLock) :
    Invariant ⟨s.mLock, calls⟩ := by
  have hwriters : writers ⟨s.mLock, calls⟩ = s.writers := hw
  have hreaders : readers ⟨s.mLock, calls⟩ = s.readers := hr
  refine ⟨⟨?_, ?_, ?_, ?_⟩, ?_, hx⟩
  · exact hwriters ▸ h.writers_le
  · exact hwriters ▸ hreaders ▸ h.readers_eq
  · exact hwriters ▸ h.word_writer
  · exact hwriters ▸ hreaders ▸ h.word_readers
  · exact hreaders ▸ h.readers_lt

lemma Invariant.quiet (hi : s.calls[i]? = some c) (hw : c ≠ .writing) (hr : c ≠ .reading) {u : Call}
    (huw : u ≠ .writing) (hur : u ≠ .reading)
    (hexpected : ∀ tries expected, u = .exchangeShared tries expected → expected < kWriteLock) :
    Invariant ⟨s.mLock, s.calls.set i u⟩ := by
  have hwriters := countP_set_add (u := u) (· == .writing) hi
  have hreaders := countP_set_add (u := u) (· == .reading) hi
  simp only [beq_iff_eq, hw, huw, if_false, Nat.add_zero] at hwriters
  simp only [beq_iff_eq, hr, hur, if_false, Nat.add_zero] at hreaders
  refine h.same hwriters hreaders fun tries expected hm => ?_
  rcases mem_or_eq_of_mem_set hm with hm | heq
  · exact h.expected_lt tries expected hm
  · exact hexpected tries expected heq.symm

lemma Invariant.begin (hw : c ≠ .writing) (hr : c ≠ .reading)
    (hx : ∀ tries expected, c ≠ .exchangeShared tries expected) :
    Invariant { s with calls := s.calls ++ [c] } := by
  refine h.same (by simp [writers, hw]) (by simp [readers, hr]) fun tries expected hm => ?_
  rcases mem_append.1 hm with hm | hm
  · exact h.expected_lt tries expected hm
  · exact absurd (mem_singleton.1 hm).symm (hx tries expected)

lemma Invariant.changes (hi : s.calls[i]? = some c) {u : Call} {mLock : Nat}
    (hu : ∀ tries expected, u ≠ .exchangeShared tries expected) (hcounts : ∀ writers readers,
      writers + (if c = .writing then 1 else 0) = s.writers + (if u = .writing then 1 else 0) →
      readers + (if c = .reading then 1 else 0) = s.readers + (if u = .reading then 1 else 0) →
      readers < kWriteLock → writers ≤ 1 ∧ (writers ≠ 0 → readers = 0) ∧
        (writers ≠ 0 → mLock = kWriteLock) ∧ (writers = 0 → mLock = readers))
    (hlt : readers ⟨mLock, s.calls.set i u⟩ < kWriteLock) : Invariant ⟨mLock, s.calls.set i u⟩ := by
  have hwriters := countP_set_add (u := u) (· == .writing) hi
  have hreaders := countP_set_add (u := u) (· == .reading) hi
  simp only [beq_iff_eq] at hwriters hreaders
  obtain ⟨hle, hnone, hwriter, hcount⟩ := hcounts _ _ hwriters hreaders hlt
  refine ⟨⟨hle, hnone, hwriter, hcount⟩, hlt, fun tries expected hm => ?_⟩
  rcases mem_or_eq_of_mem_set hm with hm | heq
  · exact h.expected_lt tries expected hm
  · exact absurd heq.symm (hu tries expected)

lemma Invariant.step {a : Action} (hstep : Steps s a t) : t.Invariant := by
  obtain ⟨rfl, hlt⟩ := hstep
  have hle := h.writers_le
  have hnone := h.readers_eq
  have hwriter := h.word_writer
  have hcount := h.word_readers
  have hreaders := h.readers_lt
  have hkWriteLock : kWriteLock = 2 ^ 31 := rfl
  cases a with
  | lock tries => exact h.begin nofun nofun nofun
  | lockShared tries => exact h.begin nofun nofun nofun
  | step call =>
    rw [LockSystem.step] at hlt ⊢
    cases hc : s.calls[call]? with
    | none => exact h
    | some c =>
      simp only [hc] at hlt ⊢
      cases c with
      | lock tries =>
        by_cases hzero : s.mLock = 0
        · simp only [Call.step, if_pos hzero] at hlt ⊢
          refine h.changes hc nofun (fun w r hw hr _ => ?_) hlt
          simp only [reduceCtorEq, if_true, if_false] at hw hr
          omega
        · simp only [Call.step, if_neg hzero]
          split
          · exact h.quiet hc nofun nofun nofun nofun nofun
          · exact h.quiet hc nofun nofun nofun nofun nofun
      | lockShared tries =>
        refine h.quiet hc nofun nofun nofun nofun fun _ expected heq => ?_
        obtain ⟨-, rfl⟩ := Call.exchangeShared.inj heq
        exact Nat.lt_of_le_of_lt Nat.and_le_right (by decide)
      | exchangeShared tries expected =>
        have hexpected := h.expected_lt _ _ (mem_of_getElem? hc)
        by_cases heq : s.mLock = expected
        · -- the writer's bit was taken out of the expected word, so there is no writer
          have hwrap : wrapAdd (2 ^ 32) expected 1 = expected + 1 := wrapAdd_of_lt (by omega)
          simp only [Call.step, if_pos heq, hwrap] at hlt ⊢
          refine h.changes hc nofun (fun w r hw hr _ => ?_) hlt
          simp only [reduceCtorEq, if_true, if_false] at hw hr
          omega
        · simp only [Call.step, if_neg heq]
          split
          · exact h.quiet hc nofun nofun nofun nofun nofun
          · exact h.quiet hc nofun nofun nofun nofun nofun
      | writing =>
        have hpos : 0 < s.writers := countP_pos_of_getElem? (· == Call.writing) hc rfl
        simp only [Call.step] at hlt ⊢
        refine h.changes hc nofun (fun w r hw hr _ => ?_) hlt
        simp only [reduceCtorEq, if_true, if_false] at hw hr
        omega
      | reading =>
        have hpos : 0 < s.readers := countP_pos_of_getElem? (· == Call.reading) hc rfl
        have hwrap : wrapSub (2 ^ 32) s.mLock 1 = s.mLock - 1 := wrapSub_of_le (by omega) (by omega)
        simp only [Call.step, hwrap] at hlt ⊢
        refine h.changes hc nofun (fun w r hw hr _ => ?_) hlt
        simp only [reduceCtorEq, if_true, if_false] at hw hr
        omega
      | returned => exact h.quiet hc nofun nofun nofun nofun nofun

end

end LockSystem
end SharedSpinLock

/-! ## The recursive lock -/

namespace RecursiveSpinLock

/-- `km::CpuCoreId::eInvalid`, the id of no core. -/
def eInvalid : Nat := 0xFFFFFFFF

/-- Where a core is: outside the functions of the lock, or at the operation it makes next. -/
inductive Place
  | outside
  | locking (tries : Bool)
  | counting
  | clearing
  deriving DecidableEq

/-- The lock, the cores, and how many acquisitions each of them has not released. -/
structure LockSystem where
  mOwner : Nat
  mCount : Nat
  place : Nat → Place
  depth : Nat → Nat

inductive Action
  | lock (core : Nat) (tries : Bool)
  | unlock (core : Nat)
  /-- A core that is in a function takes its next step. -/
  | step (core : Nat)

namespace LockSystem

def init : LockSystem := ⟨eInvalid, 0, fun _ => .outside, fun _ => 0⟩

def moved (s : LockSystem) (core : Nat) (place : Place) : LockSystem :=
  { s with place := update s.place core place }

def step (s : LockSystem) : Action → LockSystem
  | .lock core tries => s.moved core (.locking tries)
  | .unlock core =>
      let count := wrapSub (2 ^ 32) s.mCount 1
      { s.moved core (if count = 0 then .clearing else .outside) with
        mCount := count
        depth := update s.depth core (s.depth core - 1) }
  | .step core =>
      match s.place core with
      | .outside => s
      | .locking tries =>
          if s.mOwner = eInvalid then { s.moved core .counting with mOwner := core }
          else if s.mOwner = core then s.moved core .counting
          else s.moved core (if tries then .outside else .locking tries)
      | .counting =>
          { s.moved core .outside with
            mCount := wrapAdd (2 ^ 32) s.mCount 1
            depth := update s.depth core (s.depth core + 1) }
      | .clearing => { s.moved core .outside with mOwner := eInvalid }

/-- A core calls one function after the other, and each release matches an acquisition. -/
def Legal (s : LockSystem) : Action → Prop
  | .lock core _ => core ≠ eInvalid ∧ s.place core = .outside
  | .unlock core => s.place core = .outside ∧ 0 < s.depth core
  | .step _ => True

/-- The word for the nesting count has room for another acquisition. -/
def Shallow (s : LockSystem) : Action → Prop
  | .step core => s.place core = .counting → s.depth core + 1 < 2 ^ 32
  | _ => True

def Steps (s : LockSystem) (a : Action) (t : LockSystem) : Prop := s.Legal a ∧ s.step a = t

def ShallowSteps (s : LockSystem) (a : Action) (t : LockSystem) : Prop := s.Shallow a ∧ s.Steps a t

/-- From the exchange of the owner to the store that clears it. -/
def Holds (s : LockSystem) (core : Nat) : Prop :=
  0 < s.depth core ∨ s.place core = .counting ∨ s.place core = .clearing

/-- One core holds the lock, as its owner, and is about to clear the owner exactly when it is left
without an acquisition. -/
structure Owned (s : LockSystem) : Prop where
  alone : ∀ a b, s.Holds a → s.Holds b → a = b
  owner : ∀ core, core ≠ eInvalid → (s.mOwner = core ↔ s.Holds core)
  cleared : ∀ core, s.Holds core →
    (s.place core = .clearing ↔ s.depth core = 0 ∧ s.place core ≠ .counting)

structure Invariant (s : LockSystem) : Prop where
  holders : ∀ core, s.Holds core → core = s.mOwner ∧ core ≠ eInvalid
  owner : s.mOwner ≠ eInvalid → s.Holds s.mOwner
  count : s.mOwner ≠ eInvalid → s.mCount = s.depth s.mOwner ∧ s.mCount < 2 ^ 32
  cleared : ∀ core, s.Holds core →
    (s.place core = .clearing ↔ s.depth core = 0 ∧ s.place core ≠ .counting)
  free : s.mOwner = eInvalid → s.mCount = 0
  known : s.place eInvalid = .outside

variable {s t : LockSystem} {core : Nat}

lemma Invariant.owned (h : s.Invariant) : s.Owned := by
  refine ⟨fun a b ha hb => (h.holders a ha).1.trans (h.holders b hb).1.symm, fun core hcore => ?_,
    h.cleared⟩
  refine ⟨fun heq => ?_, fun hholds => (h.holders core hholds).1.symm⟩
  subst heq
  exact h.owner hcore

lemma invariant_init : Invariant init :=
  ⟨by simp [Holds, init], fun h => absurd rfl h, fun h => absurd rfl h, by simp [Holds, init],
    fun _ => rfl, rfl⟩

lemma holds_moved_of_ne {place : Place} {c : Nat} (hc : c ≠ core) :
    (s.moved core place).Holds c ↔ s.Holds c := by
  simp [Holds, moved, hc]

lemma Invariant.owns (h : s.Invariant) (hcore : core ≠ eInvalid) (howner : t.mOwner = core)
    (hbefore : s.mOwner = core ∨ s.mOwner = eInvalid)
    (hothers : ∀ c, c ≠ core → t.place c = s.place c ∧ t.depth c = s.depth c)
    (hholds : t.Holds core) (hcount : t.mCount = t.depth core) (hlt : t.mCount < 2 ^ 32)
    (hcleared : t.place core = .clearing ↔ t.depth core = 0 ∧ t.place core ≠ .counting) :
    t.Invariant := by
  have hothers' : ∀ c, t.Holds c → c = core := by
    intro c hc
    by_contra hne
    obtain ⟨hplace, hdepth⟩ := hothers c hne
    rw [Holds, hplace, hdepth] at hc
    obtain ⟨rfl, hvalid⟩ := h.holders c hc
    rcases hbefore with heq | heq
    · exact hne heq
    · exact hvalid heq
  refine ⟨fun c hc => ?_, fun _ => howner ▸ hholds, fun _ => ?_, fun c hc => ?_, fun hfree => ?_,
    ?_⟩
  · obtain rfl := hothers' c hc
    exact ⟨howner.symm, hcore⟩
  · rw [howner]
    exact ⟨hcount, hlt⟩
  · obtain rfl := hothers' c hc
    exact hcleared
  · exact absurd (howner.symm.trans hfree) hcore
  · rw [(hothers eInvalid hcore.symm).1]
    exact h.known

lemma Invariant.quiet (h : s.Invariant) (hcore : core ≠ eInvalid) {place : Place}
    (hfrom : s.place core ≠ .counting ∧ s.place core ≠ .clearing)
    (hto : place ≠ .counting ∧ place ≠ .clearing) : (s.moved core place).Invariant := by
  have hholds : ∀ c, (s.moved core place).Holds c ↔ s.Holds c := by
    intro c
    by_cases hc : c = core
    · subst hc
      simp [Holds, moved, hfrom, hto]
    · exact holds_moved_of_ne hc
  refine ⟨fun c hc => h.holders c ((hholds c).1 hc), fun hne => (hholds _).2 (h.owner hne), h.count,
    fun c hc => ?_, h.free, ?_⟩
  · have hcleared := h.cleared c ((hholds c).1 hc)
    by_cases heq : c = core
    · subst heq
      simp only [hfrom, false_iff, not_and, not_not] at hcleared
      simp only [moved, update_self, hto, false_iff, not_and, not_not]
      exact fun hzero => (hcleared hzero).elim
    · simpa [moved, heq] using hcleared
  · simp only [moved, update_of_ne hcore.symm]
    exact h.known

lemma Invariant.step {a : Action} (h : s.Invariant) (hstep : s.ShallowSteps a t) :
    t.Invariant := by
  obtain ⟨hshallow, hlegal, rfl⟩ := hstep
  cases a with
  | lock core tries =>
    exact h.quiet hlegal.1 (by simp [hlegal.2]) (by simp)
  | unlock core =>
    obtain ⟨hplace, hpos⟩ := hlegal
    obtain ⟨rfl, hcore⟩ := h.holders core (.inl hpos)
    obtain ⟨hcount, hlt⟩ := h.count hcore
    have hwrap : wrapSub (2 ^ 32) s.mCount 1 = s.mCount - 1 := wrapSub_of_le (by omega) hlt
    have hroom : s.mCount - 1 < 2 ^ 32 := by omega
    have hleft : s.mCount - 1 = s.depth s.mOwner - 1 := by rw [hcount]
    simp only [LockSystem.step, hwrap]
    generalize s.mCount - 1 = count at hroom hleft
    refine h.owns hcore rfl (.inl rfl) (fun c hc => by simp [moved, hc]) ?_
      (by simpa using hleft) hroom ?_
    · by_cases hzero : count = 0
      · simp [Holds, moved, hzero]
      · exact .inl (by simp only [update_self]; omega)
    · by_cases hzero : count = 0
      · simp [moved, hzero, ← hleft]
      · simp [moved, hzero, ← hleft]
  | step core =>
    rw [LockSystem.step]
    cases hplace : s.place core with
    | outside => exact h
    | locking tries =>
      have hcore : core ≠ eInvalid := by
        rintro rfl
        cases hplace.symm.trans h.known
      by_cases hfree : s.mOwner = eInvalid
      · have hdepth : s.depth core = 0 := by
          by_contra hne
          exact hcore ((h.holders core (.inl (Nat.pos_of_ne_zero hne))).1.trans hfree)
        simp only [if_pos hfree]
        exact h.owns hcore rfl (.inr hfree) (fun c hc => by simp [moved, hc])
          (by simp [Holds, moved]) (by simp [moved, hdepth, h.free hfree])
          (by simp [moved, h.free hfree]) (by simp [moved])
      · simp only [if_neg hfree]
        by_cases howner : s.mOwner = core
        · obtain ⟨hcount, hlt⟩ := h.count hfree
          simp only [if_pos howner]
          exact h.owns hcore howner (.inl howner) (fun c hc => by simp [moved, hc])
            (by simp [Holds, moved]) (hcount.trans (by rw [howner]; rfl)) hlt (by simp [moved])
        · simp only [if_neg howner]
          exact h.quiet hcore (by simp [hplace]) (by split <;> simp)
    | counting =>
      obtain ⟨rfl, hcore⟩ := h.holders core (.inr (.inl hplace))
      obtain ⟨hcount, -⟩ := h.count hcore
      have hroom := hshallow hplace
      have hwrap : wrapAdd (2 ^ 32) s.mCount 1 = s.mCount + 1 := wrapAdd_of_lt (by omega)
      simp only [hwrap]
      exact h.owns hcore rfl (.inl rfl) (fun c hc => by simp [moved, hc]) (by simp [Holds])
        (by simp [hcount]) (by simp only [hcount]; exact hroom) (by simp [moved])
    | clearing =>
      obtain ⟨rfl, hcore⟩ := h.holders core (.inr (.inr hplace))
      have hnone : ∀ c, ¬ (s.moved s.mOwner .outside).Holds c := by
        intro c hholds
        by_cases hc : c = s.mOwner
        · subst hc
          have hzero := ((h.cleared _ (.inr (.inr hplace))).1 hplace).1
          simp [Holds, moved, hzero] at hholds
        · exact hc (h.holders c ((holds_moved_of_ne hc).1 hholds)).1
      refine ⟨fun c hc => absurd hc (hnone c), fun hne => absurd rfl hne, fun hne => absurd rfl hne,
        fun c hc => absurd hc (hnone c), fun _ => ?_, ?_⟩
      · exact (h.count hcore).1.trans ((h.cleared _ (.inr (.inr hplace))).1 hplace).1
      · simp only [moved, update_of_ne hcore.symm]
        exact h.known

lemma exists_nested (n : Nat) : ∃ as s, Run Steps init as s ∧
    (s.mOwner = eInvalid ∨ s.mOwner = 0) ∧ s.mCount = n % 2 ^ 32 ∧ s.depth 0 = n ∧
    s.place 0 = .outside ∧ s.place 1 = .outside := by
  induction n with
  | zero => exact ⟨[], init, .nil _, .inl rfl, rfl, rfl, rfl, rfl⟩
  | succ n ih =>
    obtain ⟨as, s, hrun, howner, hcount, hdepth, hplace, hother⟩ := ih
    have hlock : Run Steps s [.lock 0 false, .step 0, .step 0] { s.moved 0 .outside with
        mOwner := 0, mCount := wrapAdd (2 ^ 32) s.mCount 1,
        depth := update s.depth 0 (s.depth 0 + 1) } := by
      refine .cons ⟨⟨by decide, hplace⟩, rfl⟩
        (.cons (t := { s.moved 0 .counting with mOwner := 0 }) ⟨trivial, ?_⟩
          (.single ⟨trivial, ?_⟩))
      · rcases howner with heq | heq
        · simp [LockSystem.step, moved, heq]
        · simp [LockSystem.step, moved, heq, eInvalid]
      · simp [LockSystem.step, moved]
    refine ⟨_, _, hrun.append hlock, .inr rfl, ?_, ?_, ?_, ?_⟩
    · simp [wrapAdd, hcount]
    · simp [hdepth]
    · simp [moved]
    · simpa [moved] using hother

end LockSystem
end RecursiveSpinLock

/-! ## Exclusion -/

end stdx
end BezOS
