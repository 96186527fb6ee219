import Mathlib.Algebra.Group.Int.Defs
import Mathlib.Algebra.Group.Nat.Defs
import Mathlib.Logic.Function.Basic
import BezOS.Lib.Transition
import BezOS.Status

/-!
# The scheduler queue

`task::SchedulerEntry` and `task::SchedulerQueue` of `task/scheduler_queue.cpp`, as they run when
one call is made after the other. A compare-exchange that fails then fails once: the loop goes
round with the status it has seen, and the second exchange succeeds. The ring queue is the list of
the tasks in it, which holds at most `capacity` of them.
-/

namespace BezOS

inductive TaskStatus
  | idle
  | running
  | suspended
  | terminated
  | closed
  deriving DecidableEq

inductive WakeResult
  | wake
  | discard
  | sleep
  deriving DecidableEq

inductive ScheduleResult
  | resume
  | idle
  deriving DecidableEq

/-- An entry; `S` is the type of machine states. -/
structure SchedulerEntry (S : Type) where
  mStatus : TaskStatus
  mSleepUntil : Int
  mState : S

/-- `os_instant::min()`. -/
def instantMin : Int := -2 ^ 63

namespace SchedulerEntry

variable {S : Type} (e : SchedulerEntry S)

def wakeIfTimeout (now : Int) : Except Fault (WakeResult × SchedulerEntry S) :=
  if e.mSleepUntil > now then .ok (.sleep, e)
  else match e.mStatus with
    | .suspended => .ok (.wake, { e with mStatus := .idle })
    | .running => .error .bugCheck
    | .idle => .ok (.wake, e)
    | .terminated => .ok (.discard, e)
    | .closed => .ok (.discard, e)

def wake : SchedulerEntry S := { e with mSleepUntil := instantMin }

def sleep (timeout : Int) : Bool × SchedulerEntry S :=
  match e.mStatus with
  | .idle => (true, { e with mStatus := .suspended })
  | .closed => (false, e)
  | .terminated => (false, e)
  -- the first exchange fails, `atomicMax` is called, the second exchange succeeds
  | .running => (true, { e with mStatus := .suspended, mSleepUntil := max e.mSleepUntil timeout })
  | .suspended => (true, { e with mSleepUntil := max e.mSleepUntil timeout })

def terminate : SchedulerEntry S :=
  match e.mStatus with
  | .idle => { e with mStatus := .terminated }
  | .running => { e with mStatus := .terminated }
  | .suspended => { e with mStatus := .terminated }
  | .terminated => e
  | .closed => e

end SchedulerEntry

abbrev TaskId := Nat

structure SchedulerQueue (S : Type) where
  capacity : Nat
  mQueue : List TaskId
  mCurrentTask : Option TaskId
  mRescueTask : Option TaskId
  mSleepingTasks : List TaskId
  entries : TaskId → SchedulerEntry S

namespace SchedulerQueue

variable {S : Type}

def create (capacity : Nat) (entries : TaskId → SchedulerEntry S) : SchedulerQueue S where
  capacity := capacity
  mQueue := []
  mCurrentTask := none
  mRescueTask := none
  mSleepingTasks := []
  entries := entries

variable (q : SchedulerQueue S)

def status (task : TaskId) : TaskStatus := (q.entries task).mStatus

def setEntry (task : TaskId) (e : SchedulerEntry S) : SchedulerQueue S :=
  { q with entries := Function.update q.entries task e }

def setStatus (task : TaskId) (status : TaskStatus) : SchedulerQueue S :=
  q.setEntry task { q.entries task with mStatus := status }

def setState (task : TaskId) (state : S) : SchedulerQueue S :=
  q.setEntry task { q.entries task with mState := state }

@[simp] lemma status_setState (task t : TaskId) (state : S) :
    (q.setState task state).status t = q.status t := by
  by_cases ht : t = task
  · subst ht
    simp [status, setState, setEntry]
  · simp [status, setState, setEntry, ht]

/-- `mQueue.tryPush`. -/
def tryPush (task : TaskId) : Option (SchedulerQueue S) :=
  if q.mQueue.length < q.capacity then some { q with mQueue := q.mQueue ++ [task] } else none

def moveTaskToIdle (task : TaskId) : Except Fault (Bool × SchedulerQueue S) :=
  match q.status task with
  | .running => .ok (true, q.setStatus task .idle)
  | .idle => .error .bugCheck
  | .suspended => .ok (false, q)
  | .terminated => .ok (false, q.setStatus task .closed)
  | .closed => .error .bugCheck

def moveTaskToRunning (task : TaskId) : Except Fault (Bool × SchedulerQueue S) :=
  match q.status task with
  | .idle => .ok (true, q.setStatus task .running)
  | .running => .error .bugCheck
  | .suspended => .ok (false, q)
  | .terminated => .ok (false, q.setStatus task .closed)
  | .closed => .error .bugCheck

def keepTaskRunning (task : TaskId) : Except Fault (Bool × SchedulerQueue S) :=
  match q.status task with
  | .running => .ok (true, q)
  | .idle => .error .bugCheck
  | .suspended => .ok (false, q)
  | .terminated => .ok (false, q.setStatus task .closed)
  | .closed => .error .bugCheck

/-- The loop of `wakeSleepingTasks` over the tasks from the iterator on; `before` are the tasks it
has left in the list, `woken` counts the others. -/
def wakeSleepingTasksFrom (now : Int) (q : SchedulerQueue S) (before : List TaskId) (woken : Nat) :
    List TaskId → Except Fault (Nat × SchedulerQueue S)
  | [] => .ok (woken, { q with mSleepingTasks := before })
  | task :: tasks => do
      let (result, e) ← (q.entries task).wakeIfTimeout now
      let q := q.setEntry task e
      match result with
      | .sleep => wakeSleepingTasksFrom now q (before ++ [task]) woken tasks
      | .wake =>
          match q.tryPush task with
          | some q => wakeSleepingTasksFrom now q before (woken + 1) tasks
          | none => .error .bugCheck
      | .discard => wakeSleepingTasksFrom now q before (woken + 1) tasks

def wakeSleepingTasks (now : Int) : Except Fault (Nat × SchedulerQueue S) :=
  wakeSleepingTasksFrom now q [] 0 q.mSleepingTasks

def setCurrentTask (task : TaskId) : Except Fault (SchedulerQueue S) :=
  if q.mCurrentTask = some task then .error .bugCheck
  else if q.status task = .closed then .error .bugCheck
  else match q.mCurrentTask with
    | none => .ok { q with mCurrentTask := some task }
    | some current => do
        let (addToQueue, q) ← q.moveTaskToIdle current
        if addToQueue then
          match q.tryPush current with
          | some q => pure { q with mCurrentTask := some task }
          | none =>
              -- the exchange takes the place of a rescue task, which is asserted to be none
              if q.mRescueTask = none then
                pure { q with mRescueTask := some current, mCurrentTask := some task }
              else .error .bugCheck
        else pure { q with mCurrentTask := some task }

/-- The loop of `takeNextTask` over the tasks in the ring. -/
def takeNextTaskFrom (q : SchedulerQueue S) :
    List TaskId → Except Fault (Option TaskId × SchedulerQueue S)
  | [] => .ok (none, { q with mQueue := [] })
  | task :: tasks => do
      let (moved, q) ← q.moveTaskToRunning task
      if moved then pure (some task, { q with mQueue := tasks })
      else takeNextTaskFrom q tasks

def takeNextTask : Except Fault (Option TaskId × SchedulerQueue S) :=
  q.takeNextTaskFrom q.mQueue

/-- The store of `*state` to the current task, if there is one. -/
def saveCurrent (state : S) : SchedulerQueue S :=
  match q.mCurrentTask with
  | none => q
  | some current => q.setState current state

def reschedule (state : S) : Except Fault (ScheduleResult × S × SchedulerQueue S) := do
  let (next, q) ← q.takeNextTask
  match next with
  | none =>
      match q.mCurrentTask with
      | none => pure (.idle, state, q)
      | some current => do
          let (keep, q) ← q.keepTaskRunning current
          if keep then pure (.resume, state, q)
          else pure (.idle, state, { q.setState current state with mCurrentTask := none })
  | some task => do
      let q ← (q.saveCurrent state).setCurrentTask task
      pure (.resume, (q.entries task).mState, q)

/-- A rescue task goes back to the ring before a new one may. -/
def drainRescue : Option (SchedulerQueue S) :=
  match q.mRescueTask with
  | none => some q
  | some rescue => (q.tryPush rescue).map fun q => { q with mRescueTask := none }

def enqueue (state : S) (task : TaskId) : Except Fault (OsStatus × SchedulerQueue S) :=
  if q.status task ≠ .idle then .error .bugCheck
  else match q.drainRescue with
    | none => .ok (.outOfMemory, q)
    | some q =>
        let q := q.setState task state
        match q.tryPush task with
        | none => .ok (.outOfMemory, q)
        | some q => .ok (.success, q)

end SchedulerQueue

/-! ## Calls, one after the other -/

inductive SchedulerCall (S : Type)
  | enqueue (task : TaskId) (state : S)
  | reschedule (state : S)
  | sleep (task : TaskId) (timeout : Int)
  | wake (task : TaskId)
  | terminate (task : TaskId)
  | wakeSleepingTasks (now : Int)

namespace SchedulerQueue

variable {S : Type} (q : SchedulerQueue S)

def serve : SchedulerCall S → Except Fault (SchedulerQueue S)
  | .enqueue task state => (q.enqueue state task).map Prod.snd
  | .reschedule state => (q.reschedule state).map fun r => r.2.2
  | .sleep task timeout => .ok (q.setEntry task ((q.entries task).sleep timeout).2)
  | .wake task => .ok (q.setEntry task (q.entries task).wake)
  | .terminate task => .ok (q.setEntry task (q.entries task).terminate)
  | .wakeSleepingTasks now => (q.wakeSleepingTasks now).map Prod.snd

end SchedulerQueue

end BezOS

/-!
## The scheduler

`task::Scheduler` of `task/scheduler.cpp`: queues by processor, and a counter of the tasks that may
still be enqueued. The queues share the entries of the tasks. Calls run one after the other.
-/

namespace BezOS

abbrev CpuCoreId := Nat

/-- Two's complement of 32 bits. -/
def toInt32 (x : Int) : Int := x.bmod (2 ^ 32)

structure AvailableTaskCount where
  mAvailable : Int
  deriving DecidableEq

namespace AvailableTaskCount

def add (c : AvailableTaskCount) (count : Nat) : AvailableTaskCount := ⟨toInt32 (c.mAvailable + count)⟩

def consume (c : AvailableTaskCount) : Bool × AvailableTaskCount :=
  let taken : AvailableTaskCount := ⟨toInt32 (c.mAvailable - 1)⟩
  if c.mAvailable > 0 then (true, taken) else (false, taken.add 1)

def available (c : AvailableTaskCount) : Nat := (max 0 c.mAvailable).toNat

end AvailableTaskCount

structure Scheduler (S : Type) where
  mQueues : List (CpuCoreId × SchedulerQueue S)
  mAvailableTaskCount : AvailableTaskCount
  entries : TaskId → SchedulerEntry S

namespace Scheduler

variable {S : Type}

def create (entries : TaskId → SchedulerEntry S) : Scheduler S := ⟨[], ⟨0⟩, entries⟩

def view (entries : TaskId → SchedulerEntry S) (q : SchedulerQueue S) : SchedulerQueue S :=
  { q with entries := entries }

/-- `mQueues.insert`: in the order of the processors, and in the place of an old queue. -/
def insertQueue (core : CpuCoreId) (queue : SchedulerQueue S) :
    List (CpuCoreId × SchedulerQueue S) → List (CpuCoreId × SchedulerQueue S)
  | [] => [(core, queue)]
  | (other, q) :: rest =>
      if core < other then (core, queue) :: (other, q) :: rest
      else if core = other then (core, queue) :: rest
      else (other, q) :: insertQueue core queue rest

/-- `addQueue` of a queue just created; `memory` says whether the map could grow. -/
def addQueue (s : Scheduler S) (core : CpuCoreId) (capacity : Nat) (memory : Bool) :
    OsStatus × Scheduler S :=
  if ¬ memory then (.outOfMemory, s)
  else (.success, { s with
    mQueues := insertQueue core (SchedulerQueue.create capacity s.entries) s.mQueues
    mAvailableTaskCount := s.mAvailableTaskCount.add capacity })

/-- The loop of `enqueue` over the queues. -/
def enqueueFrom (state : S) (task : TaskId) (entries : TaskId → SchedulerEntry S) :
    List (CpuCoreId × SchedulerQueue S) →
      Except Fault (OsStatus × List (CpuCoreId × SchedulerQueue S) × (TaskId → SchedulerEntry S))
  | [] => .ok (.outOfMemory, [], entries)
  | (core, q) :: rest => do
      let (status, q) ← (view entries q).enqueue state task
      if status = .success then pure (.success, (core, q) :: rest, q.entries)
      else do
        let (status, rest, entries) ← enqueueFrom state task q.entries rest
        pure (status, (core, q) :: rest, entries)

def enqueue (s : Scheduler S) (state : S) (task : TaskId) : Except Fault (OsStatus × Scheduler S) :=
  match s.mAvailableTaskCount.consume with
  | (false, count) => .ok (.outOfMemory, { s with mAvailableTaskCount := count })
  | (true, count) => do
      let (status, queues, entries) ← enqueueFrom state task s.entries s.mQueues
      if status = .success then pure (.success, ⟨queues, count, entries⟩)
      else pure (.outOfMemory, ⟨queues, count.add 1, entries⟩)

/-- `reschedule` of a processor, which must have a queue. -/
def reschedule (s : Scheduler S) (core : CpuCoreId) (state : S) :
    Except Fault (ScheduleResult × S × Scheduler S) :=
  let i := s.mQueues.findIdx fun entry => entry.1 = core
  match s.mQueues[i]? with
  | none => .error .bugCheck
  | some (_, q) => do
      let (result, state, q) ← (view s.entries q).reschedule state
      pure (result, state, { s with
        mQueues := s.mQueues.modify i fun entry => (entry.1, q)
        entries := q.entries })

def setEntry (s : Scheduler S) (task : TaskId) (e : SchedulerEntry S) : Scheduler S :=
  { s with entries := Function.update s.entries task e }

end Scheduler

/-- The calls of the scheduler; `terminate` is the entry's own. -/
inductive TaskSchedulerCall (S : Type)
  | addQueue (core : CpuCoreId) (capacity : Nat) (memory : Bool)
  | enqueue (task : TaskId) (state : S)
  | sleep (task : TaskId) (timeout : Int)
  | terminate (task : TaskId)
  | reschedule (core : CpuCoreId) (state : S)

end BezOS
