import BezOS.Task.SchedulerQueue

/-!
# The scheduler, step by step

The calls of `task/scheduler_queue.cpp` cut at their atomic operations: any number of callers of
`sleep`, `wake`, `terminate` and `wakeIfTimeout`, and one core that reschedules. An exchange that
fails leaves the status it saw in `expected`, and the loop goes round with that.
-/

namespace BezOS

inductive EntryCall
  | sleep (task : TaskId) (timeout : Int) (expected : TaskStatus)
  /-- `atomicMax`: the load. -/
  | loadMax (task : TaskId) (timeout : Int) (expected : TaskStatus)
  /-- `atomicMax`: the exchange. -/
  | exchangeMax (task : TaskId) (timeout : Int) (expected : TaskStatus) (current : Int)
  | wake (task : TaskId)
  | terminate (task : TaskId) (expected : TaskStatus)
  /-- `wakeIfTimeout`: the load of the timeout. -/
  | loadTimeout (task : TaskId) (now : Int)
  /-- `wakeIfTimeout`: the exchange. -/
  | wakeIfTimeout (task : TaskId) (expected : TaskStatus)
  | slept (result : Bool)
  | woken (result : WakeResult)
  | returned
  | panicked
  deriving DecidableEq

/-- The core, between calls or in a `reschedule` at the operation it makes next. -/
inductive RescheduleCall (S : Type)
  | returned (result : ScheduleResult) (state : S)
  | pop (state : S)
  | moveTaskToRunning (state : S) (task : TaskId)
  | closeTaken (state : S) (task : TaskId)
  | keepTaskRunning (state : S) (current : TaskId)
  | closeKept (state : S) (current : TaskId)
  | setCurrentTask (task : TaskId)
  | moveTaskToIdle (task current : TaskId)
  | closeStopped (task current : TaskId)
  | push (task current : TaskId)
  | rescue (task current : TaskId)
  | switch (task : TaskId)
  | panicked

/-- What a run is judged by: `terminate` has returned, `takeNextTask` has taken a task from the
ring, and has selected it. -/
inductive SchedulerEvent
  | terminated (task : TaskId)
  | popped (task : TaskId)
  | selected (task : TaskId)
  deriving DecidableEq

section Steps

variable {S : Type} (q : SchedulerQueue S)

/-- The loop of `atomicMax` at its test, after a load that saw `current`. -/
def EntryCall.testMax (task : TaskId) (timeout : Int) (expected : TaskStatus) (current : Int) :
    EntryCall :=
  if current < timeout then .exchangeMax task timeout expected current
  else .sleep task timeout expected

/-- One operation of a call. The exchange of `atomicMax` is a weak one, which may fail without a
reason. -/
def EntryCall.step (spurious : Bool) :
    EntryCall → SchedulerQueue S × EntryCall × List SchedulerEvent
  | .sleep task timeout expected =>
      if q.status task = expected then (q.setStatus task .suspended, .slept true, [])
      else match q.status task with
        | .closed => (q, .slept false, [])
        | .terminated => (q, .slept false, [])
        | observed => (q, .loadMax task timeout observed, [])
  | .loadMax task timeout expected =>
      (q, testMax task timeout expected (q.entries task).mSleepUntil, [])
  | .exchangeMax task timeout expected current =>
      let e := q.entries task
      if e.mSleepUntil = current ∧ spurious = false then
        (q.setEntry task { e with mSleepUntil := timeout }, .sleep task timeout expected, [])
      else (q, testMax task timeout expected e.mSleepUntil, [])
  | .wake task =>
      (q.setEntry task { q.entries task with mSleepUntil := instantMin }, .returned, [])
  | .terminate task expected =>
      if q.status task = expected then
        (q.setStatus task .terminated, .returned, [.terminated task])
      else match q.status task with
        | .terminated => (q, .returned, [.terminated task])
        | .closed => (q, .returned, [.terminated task])
        | observed => (q, .terminate task observed, [])
  | .loadTimeout task now =>
      if (q.entries task).mSleepUntil > now then (q, .woken .sleep, [])
      else (q, .wakeIfTimeout task .suspended, [])
  | .wakeIfTimeout task expected =>
      if q.status task = expected then (q.setStatus task .idle, .woken .wake, [])
      else match q.status task with
        | .running => (q, .panicked, [])
        | .suspended => (q, .panicked, [])
        | .idle => (q, .wakeIfTimeout task .idle, [])
        | .terminated => (q, .woken .discard, [])
        | .closed => (q, .woken .discard, [])
  | .slept result => (q, .slept result, [])
  | .woken result => (q, .woken result, [])
  | .returned => (q, .returned, [])
  | .panicked => (q, .panicked, [])

/-- The current task cannot go on, and there is no other: its state is saved. -/
def SchedulerQueue.stop (current : TaskId) (state : S) : SchedulerQueue S :=
  { q.setState current state with mCurrentTask := none }

/-- One operation of the core. What only the core touches is done along with the operation before
it. -/
def RescheduleCall.step : RescheduleCall S → SchedulerQueue S × RescheduleCall S × List SchedulerEvent
  | .returned result state => (q, .returned result state, [])
  | .pop state =>
      match q.mQueue with
      | task :: tasks => ({ q with mQueue := tasks }, .moveTaskToRunning state task, [.popped task])
      | [] =>
          match q.mCurrentTask with
          | none => (q, .returned .idle state, [])
          | some current => (q, .keepTaskRunning state current, [])
  | .moveTaskToRunning state task =>
      match q.status task with
      | .idle =>
          ((q.setStatus task .running).saveCurrent state, .setCurrentTask task, [.selected task])
      | .running => (q, .panicked, [])
      | .suspended => (q, .pop state, [])
      | .terminated => (q, .closeTaken state task, [])
      | .closed => (q, .panicked, [])
  | .closeTaken state task => (q.setStatus task .closed, .pop state, [])
  | .keepTaskRunning state current =>
      match q.status current with
      | .running => (q, .returned .resume state, [])
      | .idle => (q, .panicked, [])
      | .suspended => (q.stop current state, .returned .idle state, [])
      | .terminated => (q, .closeKept state current, [])
      | .closed => (q, .panicked, [])
  | .closeKept state current =>
      ((q.setStatus current .closed).stop current state, .returned .idle state, [])
  | .setCurrentTask task =>
      if q.mCurrentTask = some task then (q, .panicked, [])
      else if q.status task = .closed then (q, .panicked, [])
      else match q.mCurrentTask with
        | none => (q, .switch task, [])
        | some current => (q, .moveTaskToIdle task current, [])
  | .moveTaskToIdle task current =>
      match q.status current with
      | .running => (q.setStatus current .idle, .push task current, [])
      | .idle => (q, .panicked, [])
      | .suspended => (q, .switch task, [])
      | .terminated => (q, .closeStopped task current, [])
      | .closed => (q, .panicked, [])
  | .closeStopped task current => (q.setStatus current .closed, .switch task, [])
  | .push task current =>
      match q.tryPush current with
      | some q => (q, .switch task, [])
      | none => (q, .rescue task current, [])
  | .rescue task current =>
      match q.mRescueTask with
      | none => ({ q with mRescueTask := some current }, .switch task, [])
      | some _ => ({ q with mRescueTask := some current }, .panicked, [])
  | .switch task =>
      ({ q with mCurrentTask := some task }, .returned .resume (q.entries task).mState, [])
  | .panicked => (q, .panicked, [])

end Steps

structure SchedulerSystem (S : Type) where
  queue : SchedulerQueue S
  calls : List EntryCall
  core : RescheduleCall S
  trace : List SchedulerEvent

inductive SchedulerAction (S : Type)
  | sleep (task : TaskId) (timeout : Int)
  | wake (task : TaskId)
  | terminate (task : TaskId)
  | wakeIfTimeout (task : TaskId) (now : Int)
  /-- A call takes its next step. -/
  | callStep (call : Nat) (spurious : Bool)
  | reschedule (state : S)
  /-- The core takes its next step. -/
  | coreStep

namespace SchedulerSystem

variable {S : Type}

def init (q : SchedulerQueue S) (state : S) : SchedulerSystem S := ⟨q, [], .returned .idle state, []⟩

def start (s : SchedulerSystem S) (call : EntryCall) : SchedulerSystem S :=
  { s with calls := s.calls ++ [call] }

def step (s : SchedulerSystem S) : SchedulerAction S → SchedulerSystem S
  | .sleep task timeout => s.start (.sleep task timeout .idle)
  | .wake task => s.start (.wake task)
  | .terminate task => s.start (.terminate task .idle)
  | .wakeIfTimeout task now => s.start (.loadTimeout task now)
  | .callStep call spurious =>
      match s.calls[call]? with
      | none => s
      | some c =>
          let (q, c, events) := c.step s.queue spurious
          ⟨q, s.calls.set call c, s.core, s.trace ++ events⟩
  | .reschedule state =>
      match s.core with
      | .returned _ _ => { s with core := .pop state }
      | _ => s
  | .coreStep =>
      let (q, c, events) := s.core.step s.queue
      ⟨q, s.calls, c, s.trace ++ events⟩

def Steps (s : SchedulerSystem S) (a : SchedulerAction S) (t : SchedulerSystem S) : Prop :=
  s.step a = t

end SchedulerSystem

end BezOS

/-!
## The rescue slot, step by step

`enqueue` cut at its operations on `mRescueTask` and on the ring, beside the core and the calls of
`SchedulerSteps`. A task that is displaced while the ring is full waits in the slot, until an
`enqueue` puts it back in the ring: this takes a load, a push and a store.
-/

namespace BezOS

/-- An `enqueue`, at the operation it makes next. -/
inductive EnqueueCall (S : Type)
  | assertIdle (state : S) (task : TaskId)
  | loadRescue (state : S) (task : TaskId)
  | pushRescue (state : S) (task rescueTask : TaskId)
  | clearRescue (state : S) (task : TaskId)
  | push (state : S) (task : TaskId)
  | returned (status : OsStatus)
  | panicked

namespace EnqueueCall

variable {S : Type}

/-- One operation of a call. The store of the state goes along with the push after it. -/
def step (q : SchedulerQueue S) : EnqueueCall S → SchedulerQueue S × EnqueueCall S
  | .assertIdle state task =>
      if q.status task = .idle then (q, .loadRescue state task) else (q, .panicked)
  | .loadRescue state task =>
      match q.mRescueTask with
      | none => (q, .push state task)
      | some rescueTask => (q, .pushRescue state task rescueTask)
  | .pushRescue state task rescueTask =>
      match q.tryPush rescueTask with
      | some q => (q, .clearRescue state task)
      | none => (q, .returned .outOfMemory)
  | .clearRescue state task => ({ q with mRescueTask := none }, .push state task)
  | .push state task =>
      match (q.setState task state).tryPush task with
      | some q => (q, .returned .success)
      | none => (q.setState task state, .returned .outOfMemory)
  | .returned status => (q, .returned status)
  | .panicked => (q, .panicked)

def tasks : EnqueueCall S → List TaskId
  | .assertIdle _ task => [task]
  | .loadRescue _ task => [task]
  | .pushRescue _ task _ => [task]
  | .clearRescue _ task => [task]
  | .push _ task => [task]
  | .returned _ => []
  | .panicked => []

/-- The call has put the rescue task in the ring, and has not emptied the slot yet. -/
def clears : EnqueueCall S → Bool
  | .clearRescue _ _ => true
  | _ => false

/-- The call has read the rescue task, and has not emptied the slot yet. -/
def drains : EnqueueCall S → Bool
  | .pushRescue _ _ _ => true
  | .clearRescue _ _ => true
  | _ => false

end EnqueueCall

def RescheduleCall.tasks {S : Type} (mCurrentTask : Option TaskId) : RescheduleCall S → List TaskId
  | .returned _ _ => mCurrentTask.toList
  | .pop _ => mCurrentTask.toList
  | .moveTaskToRunning _ task => task :: mCurrentTask.toList
  | .closeTaken _ task => task :: mCurrentTask.toList
  | .keepTaskRunning _ _ => mCurrentTask.toList
  | .closeKept _ _ => mCurrentTask.toList
  | .setCurrentTask task => task :: mCurrentTask.toList
  | .moveTaskToIdle task current => [task, current]
  | .closeStopped task current => [task, current]
  | .push task current => [task, current]
  | .rescue task current => [task, current]
  | .switch task => [task]
  | .panicked => []

/-- The core makes the exchange with the slot next. -/
def RescheduleCall.exchanges {S : Type} : RescheduleCall S → Bool
  | .rescue _ _ => true
  | _ => false

def SchedulerAction.isCoreStep {S : Type} : SchedulerAction S → Bool
  | .coreStep => true
  | _ => false

/-- The scheduler with the `enqueue` calls in flight. -/
structure RescueSystem (S : Type) extends SchedulerSystem S where
  enqueues : List (EnqueueCall S)
  /-- What did not fit in the ring, and has not been taken from it since. -/
  displaced : List TaskId
  /-- The exchange has found a task in the slot. -/
  failed : Bool

inductive RescueAction (S : Type)
  | sched (action : SchedulerAction S)
  | enqueue (task : TaskId) (state : S)
  /-- An `enqueue` takes its next step. -/
  | enqueueStep (call : Nat)

namespace RescueSystem

variable {S : Type}

def init (capacity : Nat) (entries : TaskId → SchedulerEntry S) (state : S) : RescueSystem S where
  toSchedulerSystem := SchedulerSystem.init (SchedulerQueue.create capacity entries) state
  enqueues := []
  displaced := []
  failed := false

variable (s : RescueSystem S)

/-- The displaced tasks after the next operation of the core. -/
def displacedNext : List TaskId :=
  match s.core, s.queue.mQueue with
  | .pop _, task :: _ => s.displaced.filter (· ≠ task)
  | .rescue _ current, _ => s.displaced ++ [current]
  | _, _ => s.displaced

/-- The next operation of the core is an exchange that finds a task. -/
def exchangeFails : Bool := s.core.exchanges && s.queue.mRescueTask.isSome

def step : RescueAction S → RescueSystem S
  | .sched .coreStep =>
      { toSchedulerSystem := s.toSchedulerSystem.step .coreStep
        enqueues := s.enqueues
        displaced := s.displacedNext
        failed := s.failed || s.exchangeFails }
  | .sched action => { s with toSchedulerSystem := s.toSchedulerSystem.step action }
  | .enqueue task state => { s with enqueues := s.enqueues ++ [.assertIdle state task] }
  | .enqueueStep call =>
      match s.enqueues[call]? with
      | none => s
      | some e =>
          let (q, e) := e.step s.queue
          { s with queue := q, enqueues := s.enqueues.set call e }

/-- Some call is between its push of the rescue task and its store. -/
def clearing : Bool := s.enqueues.any EnqueueCall.clears

def waiting : List TaskId := if s.clearing then [] else s.queue.mRescueTask.toList

def tasks : List TaskId :=
  s.queue.mQueue ++ (s.queue.mRescueTask.toList ++ (s.core.tasks s.queue.mCurrentTask ++
    s.enqueues.flatMap EnqueueCall.tasks))

def Fresh : RescueAction S → Prop
  | .enqueue task _ => task ∉ s.tasks
  | _ => True

instance : DecidablePred s.Fresh
  | .sched _ => inferInstanceAs (Decidable True)
  | .enqueue task _ => inferInstanceAs (Decidable (task ∉ s.tasks))
  | .enqueueStep _ => inferInstanceAs (Decidable True)

def FreshSteps (s : RescueSystem S) (action : RescueAction S) (t : RescueSystem S) : Prop :=
  s.Fresh action ∧ s.step action = t

/-- A step of an `enqueue` that the slot may be trusted with: one call at a time puts the rescue
task back, and no call pushes a task of its own past a rescue task. -/
def CarefulCall : EnqueueCall S → Prop
  | .loadRescue _ _ => s.queue.mRescueTask = none ∨ ∀ e ∈ s.enqueues, e.drains = false
  | .push _ _ => s.queue.mRescueTask = none
  | _ => True

instance : DecidablePred s.CarefulCall
  | .assertIdle _ _ => inferInstanceAs (Decidable True)
  | .loadRescue _ _ => inferInstanceAs (Decidable (_ ∨ _))
  | .pushRescue _ _ _ => inferInstanceAs (Decidable True)
  | .clearRescue _ _ => inferInstanceAs (Decidable True)
  | .push _ _ => inferInstanceAs (Decidable (_ = _))
  | .returned _ => inferInstanceAs (Decidable True)
  | .panicked => inferInstanceAs (Decidable True)

/-- The exchange does not come between a push of the rescue task and its store. -/
def CarefulCore : Prop := s.core.exchanges = true → s.clearing = false
  deriving Decidable

def Careful : RescueAction S → Prop
  | .sched action => action.isCoreStep = true → s.CarefulCore
  | .enqueue task _ => task ∉ s.tasks
  | .enqueueStep call => ∀ e ∈ s.enqueues[call]?, s.CarefulCall e

instance : DecidablePred s.Careful
  | .sched _ => inferInstanceAs (Decidable (_ → _))
  | .enqueue task _ => inferInstanceAs (Decidable (task ∉ s.tasks))
  | .enqueueStep call => inferInstanceAs (Decidable (∀ e ∈ s.enqueues[call]?, s.CarefulCall e))

def CarefulSteps (s : RescueSystem S) (action : RescueAction S) (t : RescueSystem S) : Prop :=
  s.Careful action ∧ s.step action = t

end RescueSystem

end BezOS
