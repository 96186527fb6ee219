import BezOS.Std.RingQueue
import BezOS.Task.SchedulerQueue

/-!
# The scheduler queue over its ring

`task::SchedulerQueue` of `task/scheduler_queue.cpp` with the ring queue as it lies in memory. Its
calls do what the calls on the list of the tasks in the ring do: as long as the ring contains the
list, both return the same, and the ring after the call contains the list after it.
-/

namespace BezOS
namespace task

structure SchedulerQueue (S : Type) where
  mQueue : AtomicRingQueue TaskId
  mCurrentTask : Option TaskId
  mRescueTask : Option TaskId
  entries : TaskId → SchedulerEntry S

namespace SchedulerQueue

variable {S : Type}

/-- `create`; `storage` is what the allocator answers. -/
def create (capacity : Nat) (storage : Option (Nat → TaskId)) (entries : TaskId → SchedulerEntry S) :
    Except OsStatus (SchedulerQueue S) :=
  (AtomicRingQueue.create capacity storage).map fun ring =>
    { mQueue := ring, mCurrentTask := none, mRescueTask := none, entries := entries }

variable (q : SchedulerQueue S)

def status (task : TaskId) : TaskStatus := (q.entries task).mStatus

def setEntry (task : TaskId) (e : SchedulerEntry S) : SchedulerQueue S :=
  { q with entries := Function.update q.entries task e }

def setStatus (task : TaskId) (status : TaskStatus) : SchedulerQueue S :=
  q.setEntry task { q.entries task with mStatus := status }

def setState (task : TaskId) (state : S) : SchedulerQueue S :=
  q.setEntry task { q.entries task with mState := state }

/-- `mQueue.tryPush`. -/
def tryPush (task : TaskId) : Except Fault (Bool × SchedulerQueue S) :=
  (q.mQueue.tryPush task).map fun (pushed, ring) => (pushed, { q with mQueue := ring })

/-- `mQueue.tryPop`: a task is known by its address, which a move leaves in the slot. -/
def tryPop : Except Fault (Option TaskId × SchedulerQueue S) :=
  (q.mQueue.tryPop id).map fun (task, ring) => (task, { q with mQueue := ring })

def moveTaskToIdle (task : TaskId) : Except Fault (Bool × SchedulerQueue S) :=
  match q.status task with
  | .running => .ok (true, q.setStatus task .idle)
  | .idle => .error .bugCheck
  | .suspended => .ok (false, q)
  | .terminated => .ok (false, q.setStatus task .closed)
  | .closed => .error .bugCheck

def moveTaskToRunning (task : TaskId) : Except Fault (Bool × SchedulerQueue S) :=
  match q.status task with
  | .idle => .ok (true, q.setStatus task .running)
  | .running => .error .bugCheck
  | .suspended => .ok (false, q)
  | .terminated => .ok (false, q.setStatus task .closed)
  | .closed => .error .bugCheck

def keepTaskRunning (task : TaskId) : Except Fault (Bool × SchedulerQueue S) :=
  match q.status task with
  | .running => .ok (true, q)
  | .idle => .error .bugCheck
  | .suspended => .ok (false, q)
  | .terminated => .ok (false, q.setStatus task .closed)
  | .closed => .error .bugCheck

def setCurrentTask (task : TaskId) : Except Fault (SchedulerQueue S) :=
  if q.mCurrentTask = some task then .error .bugCheck
  else if q.status task = .closed then .error .bugCheck
  else match q.mCurrentTask with
    | none => .ok { q with mCurrentTask := some task }
    | some current => do
        let (addToQueue, q) ← q.moveTaskToIdle current
        if addToQueue then
          let (pushed, q) ← q.tryPush current
          if pushed then pure { q with mCurrentTask := some task }
          else if q.mRescueTask = none then
            pure { q with mRescueTask := some current, mCurrentTask := some task }
          else .error .bugCheck
        else pure { q with mCurrentTask := some task }

/-- The loop of `takeNextTask`; each round takes a task out of the ring. -/
def takeNextTaskFrom : Nat → SchedulerQueue S → Except Fault (Option TaskId × SchedulerQueue S)
  | 0, _ => .error .outOfFuel
  | fuel + 1, q => do
      let (popped, q) ← q.tryPop
      match popped with
      | none => pure (none, q)
      | some task => do
          let (moved, q) ← q.moveTaskToRunning task
          if moved then pure (some task, q) else takeNextTaskFrom fuel q

def takeNextTask : Except Fault (Option TaskId × SchedulerQueue S) :=
  takeNextTaskFrom (q.mQueue.mCapacity + 1) q

/-- The store of `*state` to the current task, if there is one. -/
def saveCurrent (state : S) : SchedulerQueue S :=
  match q.mCurrentTask with
  | none => q
  | some current => q.setState current state

def reschedule (state : S) : Except Fault (ScheduleResult × S × SchedulerQueue S) := do
  let (next, q) ← q.takeNextTask
  match next with
  | none =>
      match q.mCurrentTask with
      | none => pure (.idle, state, q)
      | some current => do
          let (keep, q) ← q.keepTaskRunning current
          if keep then pure (.resume, state, q)
          else pure (.idle, state, { q.setState current state with mCurrentTask := none })
  | some task => do
      let q ← (q.saveCurrent state).setCurrentTask task
      pure (.resume, (q.entries task).mState, q)

def enqueue (state : S) (task : TaskId) : Except Fault (OsStatus × SchedulerQueue S) :=
  if q.status task ≠ .idle then .error .bugCheck
  else do
    let (drained, q) ← match q.mRescueTask with
      | none => pure (true, q)
      | some rescue => do
          let (pushed, q) ← q.tryPush rescue
          if pushed then pure (true, { q with mRescueTask := none }) else pure (false, q)
    if drained then
      let (pushed, q) ← (q.setState task state).tryPush task
      if pushed then pure (.success, q) else pure (.outOfMemory, q)
    else pure (.outOfMemory, q)

end SchedulerQueue
end task

/-! ## Computations that do the same -/

section Lifts

variable {α β γ δ : Type} {R : α → β → Prop} {Q : γ → δ → Prop} {x : Except Fault α}
  {y : Except Fault β}

/-- Both computations return related values, or both end in the same fault. -/
def Lifts (R : α → β → Prop) : Except Fault α → Except Fault β → Prop
  | .ok a, .ok b => R a b
  | .error e, .error e' => e = e'
  | _, _ => False

lemma Lifts.bind {f : α → Except Fault γ} {g : β → Except Fault δ} (h : Lifts R x y)
    (hfg : ∀ a b, R a b → Lifts Q (f a) (g b)) : Lifts Q (x >>= f) (y >>= g) := by
  cases x with
  | error e =>
    cases y with
    | error e' => exact h
    | ok b => exact h.elim
  | ok a =>
    cases y with
    | error e' => exact h.elim
    | ok b => exact hfg a b h

lemma Lifts.exists_ok {b : β} (h : Lifts R x (.ok b)) : ∃ a, x = .ok a ∧ R a b := by
  cases x with
  | error e => exact h.elim
  | ok a => exact ⟨a, rfl, h⟩

lemma Lifts.eq_error {e : Fault} (h : Lifts R x (.error e)) : x = .error e := by
  cases x with
  | error e' => exact congrArg Except.error h
  | ok a => exact h.elim

end Lifts

/-! ## The ring contains the list -/

namespace task
namespace SchedulerQueue

variable {S : Type} {t : SchedulerQueue S} {q : BezOS.SchedulerQueue S}

/-- The ring contains the list of the tasks in it; everything else is the same. -/
structure Models (t : SchedulerQueue S) (q : BezOS.SchedulerQueue S) : Prop where
  ring : t.mQueue.Contains q.capacity q.mQueue
  current : t.mCurrentTask = q.mCurrentTask
  rescue : t.mRescueTask = q.mRescueTask
  entries : t.entries = q.entries

def Answers {α : Type} (a : α × SchedulerQueue S) (b : α × BezOS.SchedulerQueue S) : Prop :=
  a.1 = b.1 ∧ a.2.Models b.2

namespace Models

variable {task : TaskId} {state : S}

section

variable (h : t.Models q)

include h

lemma status (task : TaskId) : t.status task = q.status task := by
  rw [SchedulerQueue.status, BezOS.SchedulerQueue.status, h.entries]

lemma setEntry (task : TaskId) (e : SchedulerEntry S) :
    (t.setEntry task e).Models (q.setEntry task e) := by
  refine ⟨h.ring, h.current, h.rescue, ?_⟩
  rw [SchedulerQueue.setEntry, BezOS.SchedulerQueue.setEntry, h.entries]

lemma setStatus (task : TaskId) (status : TaskStatus) :
    (t.setStatus task status).Models (q.setStatus task status) := by
  rw [SchedulerQueue.setStatus, BezOS.SchedulerQueue.setStatus, h.entries]
  exact h.setEntry task _

lemma setState (task : TaskId) (state : S) :
    (t.setState task state).Models (q.setState task state) := by
  rw [SchedulerQueue.setState, BezOS.SchedulerQueue.setState, h.entries]
  exact h.setEntry task _

lemma setCurrent (current : Option TaskId) :
    Models { t with mCurrentTask := current } { q with mCurrentTask := current } :=
  ⟨h.ring, rfl, h.rescue, h.entries⟩

lemma setRescue (rescue : Option TaskId) :
    Models { t with mRescueTask := rescue } { q with mRescueTask := rescue } :=
  ⟨h.ring, h.current, rfl, h.entries⟩

lemma tryPush (task : TaskId) :
    (q.tryPush task = none ∧ t.tryPush task = .ok (false, t)) ∨
      ∃ t' q', q.tryPush task = some q' ∧ t.tryPush task = .ok (true, t') ∧ t'.Models q' := by
  by_cases hroom : q.mQueue.length < q.capacity
  · obtain ⟨ring, hpush, hring⟩ := h.ring.tryPush_of_lt hroom task
    refine .inr ⟨{ t with mQueue := ring }, _, if_pos hroom, ?_, hring, h.current, h.rescue,
      h.entries⟩
    rw [SchedulerQueue.tryPush, hpush]
    rfl
  · have hfull : q.mQueue.length = q.capacity := by
      have := h.ring.length_le
      omega
    refine .inl ⟨if_neg hroom, ?_⟩
    rw [SchedulerQueue.tryPush, h.ring.tryPush_of_full hfull]
    rfl

lemma moveTaskToIdle (task : TaskId) :
    Lifts Answers (t.moveTaskToIdle task) (q.moveTaskToIdle task) := by
  rw [SchedulerQueue.moveTaskToIdle, BezOS.SchedulerQueue.moveTaskToIdle, h.status]
  cases q.status task with
  | running => exact ⟨rfl, h.setStatus task .idle⟩
  | idle => exact rfl
  | suspended => exact ⟨rfl, h⟩
  | terminated => exact ⟨rfl, h.setStatus task .closed⟩
  | closed => exact rfl

lemma moveTaskToRunning (task : TaskId) :
    Lifts Answers (t.moveTaskToRunning task) (q.moveTaskToRunning task) := by
  rw [SchedulerQueue.moveTaskToRunning, BezOS.SchedulerQueue.moveTaskToRunning, h.status]
  cases q.status task with
  | idle => exact ⟨rfl, h.setStatus task .running⟩
  | running => exact rfl
  | suspended => exact ⟨rfl, h⟩
  | terminated => exact ⟨rfl, h.setStatus task .closed⟩
  | closed => exact rfl

lemma keepTaskRunning (task : TaskId) :
    Lifts Answers (t.keepTaskRunning task) (q.keepTaskRunning task) := by
  rw [SchedulerQueue.keepTaskRunning, BezOS.SchedulerQueue.keepTaskRunning, h.status]
  cases q.status task with
  | running => exact ⟨rfl, h⟩
  | idle => exact rfl
  | suspended => exact ⟨rfl, h⟩
  | terminated => exact ⟨rfl, h.setStatus task .closed⟩
  | closed => exact rfl

lemma setCurrentTask (task : TaskId) :
    Lifts Models (t.setCurrentTask task) (q.setCurrentTask task) := by
  rw [SchedulerQueue.setCurrentTask, BezOS.SchedulerQueue.setCurrentTask, h.current, h.status]
  split
  · exact rfl
  · split
    · exact rfl
    · cases hcurrent : q.mCurrentTask with
      | none => exact h.setCurrent (some task)
      | some current =>
        refine (h.moveTaskToIdle current).bind ?_
        rintro ⟨added, t1⟩ ⟨_, q1⟩ ⟨rfl, h1⟩
        cases added with
        | false => exact h1.setCurrent (some task)
        | true =>
          rcases h1.tryPush current with ⟨hnone, hfull⟩ | ⟨t2, q2, hsome, hpush, h2⟩
          · simp only [if_true, hnone, hfull]
            change Lifts Models (if t1.mRescueTask = none then _ else _) _
            rw [h1.rescue]
            split
            · exact (h1.setRescue (some current)).setCurrent (some task)
            · exact rfl
          · simp only [if_true, hsome, hpush]
            exact h2.setCurrent (some task)

end

lemma takeNextTaskFrom {tasks : List TaskId} {fuel : Nat} (hfuel : tasks.length < fuel)
    (h : t.Models { q with mQueue := tasks }) :
    Lifts Answers (takeNextTaskFrom fuel t) (q.takeNextTaskFrom tasks) := by
  induction tasks generalizing t q fuel with
  | nil =>
    obtain ⟨fuel, rfl⟩ : ∃ k, fuel = k + 1 := ⟨fuel - 1, by simp at hfuel; omega⟩
    have hpop : t.tryPop = .ok (none, t) := by
      rw [SchedulerQueue.tryPop, h.ring.tryPop_nil]
      rfl
    rw [SchedulerQueue.takeNextTaskFrom, hpop]
    exact ⟨rfl, h⟩
  | cons task tasks ih =>
    obtain ⟨fuel, rfl⟩ : ∃ k, fuel = k + 1 := ⟨fuel - 1, by simp at hfuel; omega⟩
    obtain ⟨ring, hpop, hring⟩ := h.ring.tryPop_cons
    have hpop' : t.tryPop = .ok (some task, { t with mQueue := ring }) := by
      rw [SchedulerQueue.tryPop, hpop]
      rfl
    have h1 : Models { t with mQueue := ring } { q with mQueue := tasks } :=
      ⟨hring, h.current, h.rescue, h.entries⟩
    have hmove := h1.moveTaskToRunning task
    rw [SchedulerQueue.takeNextTaskFrom, hpop', BezOS.SchedulerQueue.takeNextTaskFrom]
    change Lifts Answers (SchedulerQueue.moveTaskToRunning { t with mQueue := ring } task >>= _) _
    -- the list is taken off before a task moves in the ring, and after it in the list
    have hentries : ∀ r : Except Fault (Bool × BezOS.SchedulerQueue S),
        r = q.moveTaskToRunning task →
        BezOS.SchedulerQueue.moveTaskToRunning { q with mQueue := tasks } task =
          r.map fun p => (p.1, { p.2 with mQueue := tasks }) := by
      rintro _ rfl
      rw [BezOS.SchedulerQueue.moveTaskToRunning, BezOS.SchedulerQueue.moveTaskToRunning,
        BezOS.SchedulerQueue.status, BezOS.SchedulerQueue.status]
      cases (q.entries task).mStatus <;> rfl
    rw [hentries _ rfl] at hmove
    cases hq : q.moveTaskToRunning task with
    | error e =>
      rw [hq] at hmove
      rw [hmove.eq_error]
      exact rfl
    | ok r =>
      obtain ⟨moved, q1⟩ := r
      rw [hq] at hmove
      obtain ⟨⟨moved', t1⟩, ht1, rfl, h2⟩ := hmove.exists_ok
      rw [ht1]
      cases moved' with
      | true => exact ⟨rfl, h2⟩
      | false => exact ih (by simp at hfuel; omega) h2

lemma takeNextTask (h : t.Models q) : Lifts Answers t.takeNextTask q.takeNextTask := by
  have hlen := h.ring.length_le
  refine takeNextTaskFrom ?_ h
  rw [h.ring.size]
  omega

lemma saveCurrent (h : t.Models q) (state : S) :
    (t.saveCurrent state).Models (q.saveCurrent state) := by
  rw [SchedulerQueue.saveCurrent, BezOS.SchedulerQueue.saveCurrent, h.current]
  cases q.mCurrentTask with
  | none => exact h
  | some current => exact h.setState current state

def Rescheduled (a : ScheduleResult × S × SchedulerQueue S)
    (b : ScheduleResult × S × BezOS.SchedulerQueue S) : Prop :=
  a.1 = b.1 ∧ a.2.1 = b.2.1 ∧ a.2.2.Models b.2.2

lemma reschedule (h : t.Models q) (state : S) :
    Lifts Rescheduled (t.reschedule state) (q.reschedule state) := by
  rw [SchedulerQueue.reschedule, BezOS.SchedulerQueue.reschedule]
  refine h.takeNextTask.bind ?_
  rintro ⟨next, t1⟩ ⟨_, q1⟩ ⟨rfl, h1⟩
  cases next with
  | none =>
    change Lifts Rescheduled (match t1.mCurrentTask with | none => _ | some current => _) _
    rw [h1.current]
    cases hcurrent : q1.mCurrentTask with
    | none =>
      simp only [hcurrent]
      exact ⟨rfl, rfl, h1⟩
    | some current =>
      simp only [hcurrent]
      refine (h1.keepTaskRunning current).bind ?_
      rintro ⟨keep, t2⟩ ⟨_, q2⟩ ⟨rfl, h2⟩
      cases keep with
      | true => exact ⟨rfl, rfl, h2⟩
      | false => exact ⟨rfl, rfl, (h2.setState current state).setCurrent none⟩
  | some task =>
    refine ((h1.saveCurrent state).setCurrentTask task).bind ?_
    intro t2 q2 h2
    exact ⟨rfl, by rw [h2.entries], h2⟩

lemma push_saved (h : t.Models q) (state : S) (task : TaskId) : Lifts Answers (do
      let (pushed, q) ← (t.setState task state).tryPush task
      if pushed then pure (OsStatus.success, q) else pure (.outOfMemory, q))
    (match (q.setState task state).tryPush task with
      | none => .ok (.outOfMemory, q.setState task state)
      | some q => .ok (.success, q)) := by
  rcases (h.setState task state).tryPush task with
    ⟨hnone, hfull⟩ | ⟨t2, q2, hsome, hpush, h2⟩
  · rw [hnone, hfull]
    exact ⟨rfl, h.setState task state⟩
  · rw [hsome, hpush]
    exact ⟨rfl, h2⟩

lemma enqueue (h : t.Models q) (state : S) (task : TaskId) :
    Lifts Answers (t.enqueue state task) (q.enqueue state task) := by
  rw [SchedulerQueue.enqueue, BezOS.SchedulerQueue.enqueue, h.status]
  split
  · exact rfl
  · rw [h.rescue, BezOS.SchedulerQueue.drainRescue]
    cases hrescue : q.mRescueTask with
    | none =>
      exact h.push_saved state task
    | some rescue =>
      rcases h.tryPush rescue with ⟨hnone, hfull⟩ | ⟨t2, q2, hsome, hpush, h2⟩
      · simp only [hnone, hfull, Option.map_none]
        exact ⟨rfl, h⟩
      · simp only [hsome, hpush, Option.map_some]
        exact (h2.setRescue none).push_saved state task

end Models

lemma create_models {capacity : Nat} (storage : Nat → TaskId)
    (entries : TaskId → SchedulerEntry S) (hpos : 0 < capacity) (hword : capacity + 1 < 2 ^ 32) :
    ∃ t, create capacity (some storage) entries = .ok t ∧
      t.Models (.create capacity entries) := by
  have hne : capacity ≠ 0 := Nat.pos_iff_ne_zero.1 hpos
  refine ⟨⟨.reset storage capacity, none, none, entries⟩, ?_,
    AtomicRingQueue.contains_reset storage hword, rfl, rfl, rfl⟩
  rw [create, AtomicRingQueue.create, if_neg hne]
  rfl

end SchedulerQueue
end task

end BezOS
