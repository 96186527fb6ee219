import Mathlib.Algebra.GroupWithZero.Nat
import Mathlib.Algebra.BigOperators.Group.List.Basic
import Mathlib.Data.List.Perm.Basic
import BezOS.Lib.OrderedList
import BezOS.Task.Conservation

/-!
# Accounting of the scheduler

The counter of the scheduler against what its queues hold. A task gives its token back to no one
when it is closed, and a sleeping task is let go by its queue: the account is right as long as no
reschedule meets a task that was put to sleep or terminated.
-/

namespace BezOS

open Lib Except List Scheduler

namespace Scheduler

variable {S : Type}

abbrev Queues (S : Type) := List (CpuCoreId × SchedulerQueue S)

def placesOf (queues : Queues S) : List TaskId := queues.flatMap fun entry => entry.2.places

def capacityOf (queues : Queues S) : Nat := (queues.map fun entry => entry.2.capacity).sum

@[simp] lemma placesOf_cons (entry : CpuCoreId × SchedulerQueue S) (queues : Queues S) :
    placesOf (entry :: queues) = entry.2.places ++ placesOf queues := rfl

@[simp] lemma placesOf_append (pre post : Queues S) :
    placesOf (pre ++ post) = placesOf pre ++ placesOf post :=
  flatMap_append ..

@[simp] lemma capacityOf_cons (entry : CpuCoreId × SchedulerQueue S) (queues : Queues S) :
    capacityOf (entry :: queues) = entry.2.capacity + capacityOf queues := by
  simp [capacityOf]

@[simp] lemma capacityOf_append (pre post : Queues S) :
    capacityOf (pre ++ post) = capacityOf pre + capacityOf post := by
  simp [capacityOf]

end Scheduler

/-- A scheduler with the tasks it accepted and the capacity that was added to it. -/
structure SchedulerAccount (S : Type) where
  scheduler : Scheduler S
  accepted : List TaskId
  total : Nat

namespace SchedulerAccount

variable {S : Type}

def init (entries : TaskId → SchedulerEntry S) : SchedulerAccount S := ⟨.create entries, [], 0⟩

def step (r : SchedulerAccount S) : TaskSchedulerCall S → Except Fault (SchedulerAccount S)
  | .addQueue core capacity memory =>
      let (status, s) := r.scheduler.addQueue core capacity memory
      .ok ⟨s, r.accepted, if status = .success then r.total + capacity else r.total⟩
  | .enqueue task state => do
      let (status, s) ← r.scheduler.enqueue state task
      pure ⟨s, if status = .success then r.accepted ++ [task] else r.accepted, r.total⟩
  | .sleep task timeout =>
      .ok { r with
        scheduler := r.scheduler.setEntry task ((r.scheduler.entries task).sleep timeout).2 }
  | .terminate task =>
      .ok { r with scheduler := r.scheduler.setEntry task (r.scheduler.entries task).terminate }
  | .reschedule core state => do
      let (_, _, s) ← r.scheduler.reschedule core state
      pure { r with scheduler := s }

def Steps (r : SchedulerAccount S) (call : TaskSchedulerCall S) (r' : SchedulerAccount S) : Prop :=
  r.step call = .ok r'

variable (r : SchedulerAccount S)

def status (task : TaskId) : TaskStatus := (r.scheduler.entries task).mStatus

def opened : List TaskId := r.accepted.filter fun task => r.status task ≠ .closed

def places : List TaskId := Scheduler.placesOf r.scheduler.mQueues

structure Accounted : Prop where
  counted : (r.scheduler.mAvailableTaskCount.available : Int) = r.total - r.opened.length
  refused : ∀ task state s, r.scheduler.enqueue state task = .ok (.outOfMemory, s) →
    r.scheduler.mAvailableTaskCount.available = 0
  once : ∀ task ∈ r.opened, r.places.count task = 1

/-- The calls that keep the account: a queue is added for a new processor, and the counter has room
for its capacity; a task is not accepted twice; a reschedule finds the first task of the ring idle
and the current task running. -/
def Calm : TaskSchedulerCall S → Prop
  | .addQueue core capacity memory => memory = true →
      (∀ entry ∈ r.scheduler.mQueues, entry.1 ≠ core) ∧
      r.scheduler.mAvailableTaskCount.mAvailable + capacity < 2 ^ 31
  | .enqueue task _ => task ∈ r.accepted → r.scheduler.mAvailableTaskCount.mAvailable ≤ 0
  | .sleep _ _ => True
  | .terminate _ => True
  | .reschedule core _ => ∀ entry ∈ r.scheduler.mQueues, entry.1 = core →
      (∀ task ∈ entry.2.mQueue.head?, r.status task = .idle) ∧
      ∀ task ∈ entry.2.mCurrentTask, r.status task = .running

instance : DecidablePred r.Calm
  | .addQueue _ _ _ => inferInstanceAs (Decidable (_ → _ ∧ _))
  | .enqueue _ _ => inferInstanceAs (Decidable (_ → _))
  | .reschedule _ _ => inferInstanceAs (Decidable (∀ entry ∈ r.scheduler.mQueues, _))
  | .sleep _ _ | .terminate _ => isTrue trivial

def CalmSteps (r : SchedulerAccount S) (call : TaskSchedulerCall S) (r' : SchedulerAccount S) :
    Prop :=
  r.Calm call ∧ r.Steps call r'

end SchedulerAccount

/-! ## One queue -/

namespace SchedulerQueue

variable {S : Type} {q : SchedulerQueue S}

/-- A queue that no concurrent push has overfilled, and that keeps no sleeping task. -/
structure Fit (q : SchedulerQueue S) : Prop where
  rescue : q.mRescueTask = none
  sleeping : q.mSleepingTasks = []
  length : q.mQueue.length ≤ q.capacity

lemma Fit.places (h : q.Fit) : q.places = q.mQueue ++ q.mCurrentTask.toList := by
  simp [SchedulerQueue.places, h.rescue, h.sleeping]

lemma fit_create (capacity : Nat) (entries : TaskId → SchedulerEntry S) :
    (SchedulerQueue.create capacity entries).Fit :=
  ⟨rfl, rfl, Nat.zero_le _⟩

lemma Fit.enqueue {state : S} {task : TaskId} {status : OsStatus} {q' : SchedulerQueue S}
    (h : q.Fit) (henqueue : q.enqueue state task = .ok (status, q')) :
    q'.Fit ∧ q'.capacity = q.capacity ∧ (∀ t, q'.status t = q.status t) ∧
      q.status task = .idle ∧
      (status = .success ∧ q'.places.Perm (task :: q.places) ∨
        status ≠ .success ∧ q'.places = q.places ∧ q.capacity ≤ q.places.length) := by
  unfold SchedulerQueue.enqueue at henqueue
  split at henqueue
  · cases henqueue
  · rename_i hidle
    rw [not_not] at hidle
    simp only [drainRescue, h.rescue] at henqueue
    by_cases hroom : q.mQueue.length < q.capacity
    · simp only [tryPush_of_lt (q := q.setState task state) task hroom] at henqueue
      obtain ⟨rfl, rfl⟩ := Prod.mk.inj (ok.inj henqueue)
      refine ⟨⟨h.rescue, h.sleeping, ?_⟩, rfl, fun t => status_setState q task t state, hidle,
        .inl ⟨rfl, ?_⟩⟩
      · rw [length_append, length_singleton]
        exact hroom
      · simp only [SchedulerQueue.places, append_assoc]
        exact perm_middle
    · have hpush : (q.setState task state).tryPush task = none := if_neg hroom
      simp only [hpush] at henqueue
      obtain ⟨rfl, rfl⟩ := Prod.mk.inj (ok.inj henqueue)
      refine ⟨⟨h.rescue, h.sleeping, h.length⟩, rfl, fun t => status_setState q task t state,
        hidle, .inr ⟨by decide, rfl, ?_⟩⟩
      rw [h.places, length_append]
      omega

lemma setCurrentTask_running {task : TaskId} (hne : q.mCurrentTask ≠ some task)
    (hrunning : q.status task = .running) (hroom : q.mQueue.length < q.capacity)
    (hcurrent : ∀ current, q.mCurrentTask = some current → q.status current = .running) :
    ∃ q', q.setCurrentTask task = .ok q' ∧ q'.mQueue = q.mQueue ++ q.mCurrentTask.toList ∧
      q'.mCurrentTask = some task ∧ q'.capacity = q.capacity ∧ q'.mRescueTask = q.mRescueTask ∧
      q'.mSleepingTasks = q.mSleepingTasks ∧
      ∀ t, q'.status t = .closed → q.status t = .closed := by
  unfold setCurrentTask
  rw [if_neg hne, if_neg (by simp [hrunning])]
  cases hq : q.mCurrentTask with
  | none => exact ⟨_, rfl, (append_nil _).symm, rfl, rfl, rfl, rfl, fun _ => id⟩
  | some current =>
    have hmove : q.moveTaskToIdle current = .ok (true, q.setStatus current .idle) := by
      simp only [moveTaskToIdle, hcurrent current hq]
    have hpush := tryPush_of_lt (q := q.setStatus current .idle) current hroom
    refine ⟨{ q.setStatus current .idle with
      mQueue := q.mQueue ++ [current], mCurrentTask := some task }, ?_, rfl, rfl, rfl, rfl, rfl, ?_⟩
    · simp only [hmove, bind, Except.bind, if_true, hpush]
      rfl
    · intro t ht
      have hstatus : (if t = current then .idle else q.status t) = TaskStatus.closed :=
        (status_setStatus q current t .idle).symm.trans ht
      split at hstatus
      · cases hstatus
      · exact hstatus

lemma Fit.reschedule (state : S) (h : q.Fit) (hnodup : q.places.Nodup)
    (hhead : ∀ task ∈ q.mQueue.head?, q.status task = .idle)
    (hcurrent : ∀ task ∈ q.mCurrentTask, q.status task = .running) :
    ∃ result state' q', q.reschedule state = .ok (result, state', q') ∧ q'.Fit ∧
      q'.capacity = q.capacity ∧ q'.places.Perm q.places ∧
      ∀ t, q'.status t = .closed → q.status t = .closed := by
  have hapart : ∀ task ∈ q.mCurrentTask, task ∉ q.mQueue := by
    intro task htask hmem
    rw [h.places] at hnodup
    exact disjoint_of_nodup_append hnodup hmem (by simpa using htask)
  cases hqueue : q.mQueue with
  | nil =>
    have htake : q.takeNextTask = .ok (none, q) := by
      rw [takeNextTask, hqueue, takeNextTaskFrom, ← hqueue]
    cases hq : q.mCurrentTask with
    | none =>
      refine ⟨.idle, state, q, ?_, h, rfl, .refl _, fun _ => id⟩
      simp only [SchedulerQueue.reschedule, htake, bind, Except.bind, hq]
      rfl
    | some current =>
      refine ⟨.resume, state, q, ?_, h, rfl, .refl _, fun _ => id⟩
      simp only [SchedulerQueue.reschedule, htake, bind, Except.bind, hq, keepTaskRunning,
        hcurrent current hq]
      rfl
  | cons task tasks =>
    have hidle : q.status task = .idle := hhead task (by simp [hqueue])
    have hne : q.mCurrentTask ≠ some task := fun hq => hapart task hq (by simp [hqueue])
    obtain ⟨q1, hq1⟩ : ∃ q1, q1 = { q.setStatus task .running with mQueue := tasks } := ⟨_, rfl⟩
    have htake : q.takeNextTask = .ok (some task, q1) := by
      rw [takeNextTask, hqueue, takeNextTaskFrom, moveTaskToRunning, hidle, hq1]
      rfl
    have hstatus1 : ∀ t, q1.status t = if t = task then .running else q.status t := by
      intro t
      rw [hq1]
      exact status_setStatus q task t .running
    obtain ⟨q2, hq2⟩ : ∃ q2, q2 = q1.saveCurrent state := ⟨_, rfl⟩
    have hsaved : q2.mQueue = tasks ∧ q2.mCurrentTask = q.mCurrentTask ∧
        q2.capacity = q.capacity ∧ q2.mRescueTask = q.mRescueTask ∧
        q2.mSleepingTasks = q.mSleepingTasks ∧ ∀ t, q2.status t = q1.status t := by
      rw [hq2, saveCurrent]
      split
      · exact hq1 ▸ ⟨rfl, rfl, rfl, rfl, rfl, fun _ => rfl⟩
      · refine ⟨?_, ?_, ?_, ?_, ?_, fun t => status_setState q1 _ t state⟩ <;> exact hq1 ▸ rfl
    obtain ⟨htasks, hcurrent2, hcapacity, hrescue, hsleeping, hstatus2⟩ := hsaved
    have hlength := h.length
    rw [hqueue, length_cons] at hlength
    have hruns : ∀ current, q2.mCurrentTask = some current → q2.status current = .running := by
      intro current hq
      rw [hcurrent2] at hq
      rw [hstatus2, hstatus1, hcurrent current hq]
      exact ite_self _
    have hchosen : q2.status task = .running := by rw [hstatus2, hstatus1, if_pos rfl]
    have hroom : q2.mQueue.length < q2.capacity := by
      rw [htasks, hcapacity]
      omega
    obtain ⟨q', hset, hqueue', hcurrent', hcapacity', hrescue', hsleeping', hclosed⟩ :=
      setCurrentTask_running (hcurrent2 ▸ hne) hchosen hroom hruns
    rw [htasks, hcurrent2] at hqueue'
    have hfit : q'.Fit := by
      refine ⟨hrescue'.trans (hrescue.trans h.rescue), hsleeping'.trans (hsleeping.trans h.sleeping),
        ?_⟩
      have hone : q.mCurrentTask.toList.length ≤ 1 := by cases q.mCurrentTask <;> simp
      rw [hqueue', hcapacity', hcapacity, length_append]
      omega
    refine ⟨.resume, (q'.entries task).mState, q', ?_, hfit, hcapacity'.trans hcapacity, ?_, ?_⟩
    · simp only [SchedulerQueue.reschedule, htake, bind, Except.bind, ← hq2, hset]
      rfl
    · rw [hfit.places, h.places, hqueue', hcurrent', hqueue]
      exact perm_append_singleton ..
    · intro t ht
      have hstatus := hclosed t ht
      rw [hstatus2, hstatus1] at hstatus
      split at hstatus
      · cases hstatus
      · exact hstatus

end SchedulerQueue

/-! ## All queues -/

namespace Scheduler

variable {S : Type}

lemma insertQueue_perm {core : CpuCoreId} (queue : SchedulerQueue S) {queues : Queues S}
    (hnew : ∀ entry ∈ queues, entry.1 ≠ core) :
    (insertQueue core queue queues).Perm ((core, queue) :: queues) := by
  induction queues with
  | nil => exact .refl _
  | cons entry queues ih =>
    rw [insertQueue]
    split
    · exact .refl _
    · rw [if_neg fun heq => hnew entry (mem_cons_self ..) heq.symm]
      have hrest := ih fun entry hentry => hnew entry (mem_cons_of_mem _ hentry)
      exact (hrest.cons entry).trans (.swap ..)

lemma enqueueFrom_effect {state : S} {task : TaskId} {entries entries' : TaskId → SchedulerEntry S}
    {queues queues' : Queues S} {status : OsStatus} (hfit : ∀ entry ∈ queues, entry.2.Fit)
    (h : enqueueFrom state task entries queues = .ok (status, queues', entries')) :
    (∀ entry ∈ queues', entry.2.Fit) ∧ capacityOf queues' = capacityOf queues ∧
      (∀ t, (entries' t).mStatus = (entries t).mStatus) ∧
      (status = .success ∧ (entries task).mStatus = .idle ∧
          (placesOf queues').Perm (task :: placesOf queues) ∨
        status ≠ .success ∧ placesOf queues' = placesOf queues ∧
          capacityOf queues ≤ (placesOf queues).length) := by
  induction queues generalizing entries entries' queues' status with
  | nil =>
    cases h
    exact ⟨hfit, rfl, fun _ => rfl, .inr ⟨by decide, rfl, Nat.le_refl _⟩⟩
  | cons entry queues ih =>
    obtain ⟨core, q⟩ := entry
    have hq : (view entries q).Fit := by
      have hq := hfit (core, q) (mem_cons_self ..)
      exact ⟨hq.rescue, hq.sleeping, hq.length⟩
    have hrest : ∀ entry ∈ queues, entry.2.Fit :=
      fun entry hentry => hfit entry (mem_cons_of_mem _ hentry)
    rw [enqueueFrom, bind_eq_ok] at h
    obtain ⟨⟨status1, q1⟩, henqueue, h⟩ := h
    obtain ⟨hfit1, hcapacity1, hstatus1, hidle, hcases⟩ := hq.enqueue henqueue
    have hcapacity1 : q1.capacity = q.capacity := hcapacity1
    dsimp only at h
    rcases hcases with ⟨rfl, hplaces⟩ | ⟨hne, hplaces, hfull⟩
    · cases h
      refine ⟨?_, ?_, hstatus1, .inl ⟨rfl, hidle, ?_⟩⟩
      · intro entry hentry
        rcases mem_cons.1 hentry with rfl | hentry
        · exact hfit1
        · exact hrest entry hentry
      · rw [capacityOf_cons, capacityOf_cons, hcapacity1]
      · exact hplaces.append_right (placesOf queues)
    · rw [if_neg hne, bind_eq_ok] at h
      obtain ⟨⟨status2, queues2, entries2⟩, hloop, h⟩ := h
      cases h
      obtain ⟨hfit2, hcapacity2, hstatus2, hcases⟩ := ih hrest hloop
      have hplaces : q1.places = q.places := hplaces
      have hfull : q.capacity ≤ q.places.length := hfull
      refine ⟨?_, ?_, fun t => (hstatus2 t).trans (hstatus1 t), ?_⟩
      · intro entry hentry
        rcases mem_cons.1 hentry with rfl | hentry
        · exact hfit1
        · exact hfit2 entry hentry
      · rw [capacityOf_cons, capacityOf_cons, hcapacity1, hcapacity2]
      · rw [placesOf_cons, placesOf_cons, capacityOf_cons, hplaces]
        rcases hcases with ⟨hsuccess, -, hperm⟩ | ⟨hne, heq, hle⟩
        · exact .inl ⟨hsuccess, hidle, (hperm.append_left _).trans perm_middle⟩
        · refine .inr ⟨hne, by rw [heq], ?_⟩
          rw [length_append]
          exact Nat.add_le_add hfull hle

end Scheduler

/-! ## The invariant -/

lemma toInt32_of_lt {x : Int} (hlow : 0 ≤ x) (hhigh : x < 2 ^ 31) : toInt32 x = x := by
  rw [toInt32, Int.bmod_eq_of_le_mul_two (by omega) (by omega)]

namespace SchedulerAccount

variable {S : Type} {r r' : SchedulerAccount S} {task : TaskId} {state : S}

/-- The queues hold the accepted tasks, and the counter has a token for the rest. -/
structure Invariant (r : SchedulerAccount S) : Prop where
  fit : ∀ entry ∈ r.scheduler.mQueues, entry.2.Fit
  held : r.places.Perm r.accepted
  distinct : r.accepted.Nodup
  unclosed : ∀ task ∈ r.accepted, r.status task ≠ .closed
  capacity : r.total = Scheduler.capacityOf r.scheduler.mQueues
  count : r.scheduler.mAvailableTaskCount.mAvailable = r.total - r.accepted.length
  nonneg : 0 ≤ r.scheduler.mAvailableTaskCount.mAvailable
  bounded : r.scheduler.mAvailableTaskCount.mAvailable < 2 ^ 31

lemma Invariant.init (entries : TaskId → SchedulerEntry S) : (init entries).Invariant :=
  ⟨by simp [SchedulerAccount.init, create], .refl _, nodup_nil,
    by simp [SchedulerAccount.init], rfl, rfl, Int.le_refl _, Int.pow_pos (by decide)⟩

section

variable (h : r.Invariant)

include h

lemma Invariant.enqueue_success {status : OsStatus} {s : Scheduler S}
    (htoken : 0 < r.scheduler.mAvailableTaskCount.mAvailable)
    (henqueue : r.scheduler.enqueue state task = .ok (status, s)) :
    ∃ queues entries,
      s = ⟨queues, ⟨toInt32 (r.scheduler.mAvailableTaskCount.mAvailable - 1)⟩, entries⟩ ∧
      status = .success ∧ (∀ entry ∈ queues, entry.2.Fit) ∧
      Scheduler.capacityOf queues = Scheduler.capacityOf r.scheduler.mQueues ∧
      (∀ t, (entries t).mStatus = r.status t) ∧ r.status task = .idle ∧
      (Scheduler.placesOf queues).Perm (task :: r.places) := by
  simp only [Scheduler.enqueue, AvailableTaskCount.consume, if_pos htoken, bind_eq_ok] at henqueue
  obtain ⟨⟨status1, queues, entries⟩, hloop, hresult⟩ := henqueue
  obtain ⟨hfit, hcapacity, hstatus, hcases⟩ := Scheduler.enqueueFrom_effect h.fit hloop
  rcases hcases with ⟨rfl, hidle, hplaces⟩ | ⟨-, -, hfull⟩
  · cases hresult
    exact ⟨queues, entries, rfl, rfl, hfit, hcapacity, hstatus, hidle, hplaces⟩
  · -- the rings hold as many tasks as they can, so that no token is left
    have hlength : (Scheduler.placesOf r.scheduler.mQueues).length = r.accepted.length :=
      h.held.length_eq
    have hcount := h.count
    rw [h.capacity] at hcount
    omega

lemma Invariant.enqueue_refused {status : OsStatus} {s : Scheduler S}
    (htoken : ¬ 0 < r.scheduler.mAvailableTaskCount.mAvailable)
    (henqueue : r.scheduler.enqueue state task = .ok (status, s)) :
    status = .outOfMemory ∧ s = r.scheduler := by
  have hzero : r.scheduler.mAvailableTaskCount.mAvailable = 0 := by
    have := h.nonneg
    omega
  have hcount : r.scheduler.mAvailableTaskCount.consume =
      (false, r.scheduler.mAvailableTaskCount) := by
    generalize r.scheduler.mAvailableTaskCount = c at hzero
    obtain ⟨available⟩ := c
    obtain rfl : available = 0 := hzero
    decide
  simp only [Scheduler.enqueue, hcount] at henqueue
  cases henqueue
  exact ⟨rfl, rfl⟩

lemma Invariant.opened_eq : r.opened = r.accepted := by
  refine filter_eq_self.2 fun task htask => ?_
  simpa using h.unclosed task htask

lemma Invariant.accounted : r.Accounted where
  counted := by
    have hnonneg := h.nonneg
    rw [h.opened_eq, ← h.count, AvailableTaskCount.available]
    omega
  refused := by
    intro task state s henqueue
    by_cases htoken : 0 < r.scheduler.mAvailableTaskCount.mAvailable
    · obtain ⟨_, _, -, hsuccess, -⟩ := h.enqueue_success htoken henqueue
      cases hsuccess
    · rw [AvailableTaskCount.available]
      omega
  once := by
    intro task htask
    rw [h.opened_eq] at htask
    rw [h.held.count_eq]
    exact count_eq_one_of_mem h.distinct htask

lemma Invariant.addQueue {core : CpuCoreId} {capacity : Nat} {memory : Bool}
    (hcalm : r.Calm (.addQueue core capacity memory))
    (hstep : r.Steps (.addQueue core capacity memory) r') : r'.Invariant := by
  cases memory with
  | false =>
    cases hstep
    exact h
  | true =>
    obtain ⟨hnew, hbound⟩ := hcalm rfl
    obtain rfl := ok.inj hstep
    have hperm := Scheduler.insertQueue_perm (.create capacity r.scheduler.entries) hnew
    have hcount := h.count
    have hnonneg := h.nonneg
    have hvalue : toInt32 (r.scheduler.mAvailableTaskCount.mAvailable + capacity) =
        r.scheduler.mAvailableTaskCount.mAvailable + capacity :=
      toInt32_of_lt (by omega) hbound
    refine ⟨?_, ?_, h.distinct, h.unclosed, ?_, ?_, ?_, ?_⟩
    · intro entry hentry
      rcases mem_cons.1 (hperm.mem_iff.1 hentry) with rfl | hentry
      · exact SchedulerQueue.fit_create capacity r.scheduler.entries
      · exact h.fit entry hentry
    · exact (hperm.flatMap_right _).trans h.held
    · have hsum := (hperm.map fun entry => entry.2.capacity).sum_eq
      rw [h.capacity, Nat.add_comm]
      exact hsum.symm
    all_goals
      simp only [AvailableTaskCount.add, if_true, hvalue]
      omega

lemma Invariant.enqueue (hcalm : r.Calm (.enqueue task state))
    (hstep : r.Steps (.enqueue task state) r') :
    r'.Invariant := by
  simp only [Steps, step, bind_eq_ok] at hstep
  obtain ⟨⟨status, s⟩, henqueue, hstep⟩ := hstep
  obtain rfl := ok.inj hstep
  by_cases htoken : 0 < r.scheduler.mAvailableTaskCount.mAvailable
  · obtain ⟨queues, entries, rfl, rfl, hfit, hcapacity, hstatus, hidle, hplaces⟩ :=
      h.enqueue_success htoken henqueue
    have hnew : task ∉ r.accepted := by
      intro hmem
      have := hcalm hmem
      omega
    have hvalue : toInt32 (r.scheduler.mAvailableTaskCount.mAvailable - 1) =
        r.scheduler.mAvailableTaskCount.mAvailable - 1 := by
      have := h.bounded
      exact toInt32_of_lt (by omega) (by omega)
    have hcount := h.count
    have hbounded := h.bounded
    refine ⟨hfit, ?_, ?_, ?_, h.capacity.trans hcapacity.symm, ?_, ?_, ?_⟩
    · rw [if_pos rfl]
      exact hplaces.trans ((h.held.cons task).trans (perm_append_singleton ..).symm)
    · rw [if_pos rfl]
      refine nodup_append.2 ⟨h.distinct, nodup_singleton _, ?_⟩
      rintro a ha b hb rfl
      obtain rfl := mem_singleton.1 hb
      exact hnew ha
    · intro t ht
      change (entries t).mStatus ≠ .closed
      rw [hstatus]
      rcases mem_append.1 ht with ht | ht
      · exact h.unclosed t ht
      · obtain rfl := mem_singleton.1 ht
        simp [hidle]
    all_goals
      simp only [hvalue, if_true, length_append, length_singleton]
      omega
  · obtain ⟨rfl, rfl⟩ := h.enqueue_refused htoken henqueue
    exact h

lemma Invariant.of_setEntry {e : SchedulerEntry S}
    (hclosed : e.mStatus = .closed → r.status task = .closed) :
    Invariant { r with scheduler := r.scheduler.setEntry task e } := by
  refine ⟨h.fit, h.held, h.distinct, ?_, h.capacity, h.count, h.nonneg, h.bounded⟩
  intro t ht
  by_cases heq : t = task
  · subst heq
    simp only [SchedulerAccount.status, setEntry, Function.update_self]
    exact fun hstatus => h.unclosed t ht (hclosed hstatus)
  · simp only [SchedulerAccount.status, setEntry, Function.update_of_ne heq]
    exact h.unclosed t ht

lemma Invariant.reschedule {core : CpuCoreId} (hcalm : r.Calm (.reschedule core state))
    (hstep : r.Steps (.reschedule core state) r') :
    r'.Invariant := by
  simp only [Steps, step, bind_eq_ok] at hstep
  obtain ⟨⟨result, state', s⟩, hreschedule, hstep⟩ := hstep
  obtain rfl := ok.inj hstep
  unfold Scheduler.reschedule at hreschedule
  generalize hi : r.scheduler.mQueues.findIdx (fun entry => entry.1 = core) = i at hreschedule
  dsimp only at hreschedule
  split at hreschedule
  · cases hreschedule
  · rename_i core' q hget
    obtain ⟨hlt, hentry⟩ := List.getElem?_eq_some_iff.1 hget
    have hcore : core' = core := by
      subst hi
      simpa [hentry] using findIdx_getElem (w := hlt)
    obtain ⟨pre, entry, post, hqueues, hpre⟩ := exists_append_cons hlt
    obtain rfl : entry = (core', q) := by
      rw [hqueues, ← hpre] at hget
      simpa using hget
    have hmem : (core', q) ∈ r.scheduler.mQueues := by simp [hqueues]
    obtain ⟨hhead, hcurrent⟩ := hcalm (core', q) hmem hcore
    have hplaces : r.places = Scheduler.placesOf pre ++ (q.places ++ Scheduler.placesOf post) := by
      simp [SchedulerAccount.places, hqueues]
    have hq : (Scheduler.view r.scheduler.entries q).Fit := by
      have hq := h.fit (core', q) hmem
      exact ⟨hq.rescue, hq.sleeping, hq.length⟩
    have hnodup : q.places.Nodup := by
      have hall := h.held.nodup_iff.2 h.distinct
      rw [hplaces] at hall
      exact hall.of_append_right.of_append_left
    obtain ⟨result1, state1, q', hq', hfit, hcapacity, hperm, hclosed⟩ :=
      hq.reschedule state hnodup hhead hcurrent
    rw [hq'] at hreschedule
    cases hreschedule
    have hmodify : r.scheduler.mQueues.modify i (fun entry => (entry.1, q')) =
        pre ++ (core', q') :: post := by
      rw [hqueues, ← hpre, modify_append_cons]
    refine ⟨?_, ?_, h.distinct, ?_, ?_, h.count, h.nonneg, h.bounded⟩
    · intro entry hentry
      rw [hmodify] at hentry
      rcases mem_append.1 hentry with hentry | hentry
      · exact h.fit entry (by simp [hqueues, hentry])
      · rcases mem_cons.1 hentry with rfl | hentry
        · exact hfit
        · exact h.fit entry (by simp [hqueues, hentry])
    · change (Scheduler.placesOf (r.scheduler.mQueues.modify i _)).Perm _
      rw [hmodify, Scheduler.placesOf_append, Scheduler.placesOf_cons]
      refine Perm.trans ?_ h.held
      rw [hplaces]
      exact (hperm.append_right _).append_left _
    · intro t ht hstatus
      exact h.unclosed t ht (hclosed t hstatus)
    · rw [hmodify, h.capacity, hqueues]
      simp only [Scheduler.capacityOf_append, Scheduler.capacityOf_cons, hcapacity]
      rfl

lemma Invariant.step {call : TaskSchedulerCall S} (hstep : r.CalmSteps call r') :
    r'.Invariant := by
  obtain ⟨hcalm, hstep⟩ := hstep
  cases call with
  | addQueue core capacity memory => exact h.addQueue hcalm hstep
  | enqueue task state => exact h.enqueue hcalm hstep
  | sleep task timeout =>
    cases hstep
    refine h.of_setEntry ?_
    unfold SchedulerEntry.sleep SchedulerAccount.status
    split <;> simp_all
  | terminate task =>
    cases hstep
    refine h.of_setEntry ?_
    unfold SchedulerEntry.terminate SchedulerAccount.status
    split <;> simp_all
  | reschedule core state => exact h.reschedule hcalm hstep

end

/-- The counter is the capacity less the open tasks, a task is refused only when it is zero, and
every open task is in one place, after every run of calm calls. -/
theorem accounted_of_calm {entries : TaskId → SchedulerEntry S} {calls : List (TaskSchedulerCall S)}
    (hrun : Run CalmSteps (init entries) calls r) : r.Accounted := by
  have hinv : r.Invariant := by
    refine hrun.invariant ?_ (Invariant.init entries)
    exact fun _ _ _ h hstep => h.step hstep
  exact hinv.accounted

/-- Two processors; the second task is put to sleep behind the first, and the fourth is refused. -/
def twoQueues : List (TaskSchedulerCall Nat) :=
  [.addQueue 1 2 true, .addQueue 0 1 true, .enqueue 7 10, .reschedule 0 5, .enqueue 8 20,
    .enqueue 9 30, .sleep 9 100, .enqueue 4 40, .reschedule 0 6]

theorem accounted_of_twoQueues : ∃ r : SchedulerAccount Nat, r.Accounted ∧
    (r.total, r.opened, r.places) = (3, [7, 8, 9], [7, 8, 9]) ∧
    Run CalmSteps (init fun _ => ⟨.idle, instantMin, 0⟩) twoQueues r := by
  have hrun : (runGuarded Calm step (init fun _ => ⟨.idle, instantMin, 0⟩) twoQueues).map
      (fun r => (r.total, r.opened, r.places)) = some (3, [7, 8, 9], [7, 8, 9]) := by
    decide +kernel
  obtain ⟨r, hr, hresult⟩ := Option.map_eq_some_iff.1 hrun
  have hrun := Run.of_runGuarded hr
  exact ⟨r, accounted_of_calm hrun, hresult, hrun⟩

def terminateAndReschedule : List (TaskSchedulerCall Nat) :=
  [.addQueue 0 1 true, .enqueue 0 10, .terminate 0, .reschedule 0 5]

theorem not_accounted_of_closed :
    ¬ ∀ (entries : TaskId → SchedulerEntry Nat) (calls : List (TaskSchedulerCall Nat))
      (r : SchedulerAccount Nat), (∀ task, (entries task).mStatus = .idle) →
      Run Steps (init entries) calls r → r.accepted.Nodup → r.Accounted := by
  intro hall
  have hrun : (terminateAndReschedule.foldlM step
      (init fun _ => ⟨.idle, instantMin, 0⟩)).toOption.map
      (fun r => (r.total, r.accepted, r.opened, r.scheduler.mAvailableTaskCount.available)) =
      some (1, [0], [], 0) := by
    decide +kernel
  obtain ⟨r, hr, hresult⟩ := Option.map_eq_some_iff.1 hrun
  simp only [Prod.mk.injEq] at hresult
  obtain ⟨htotal, haccepted, hopened, havailable⟩ := hresult
  have haccounted := hall _ terminateAndReschedule r (fun _ => rfl) (Run.of_foldlM hr)
    (by simp [haccepted])
  have hcounted := haccounted.counted
  simp [htotal, hopened, havailable] at hcounted

end SchedulerAccount

end BezOS
