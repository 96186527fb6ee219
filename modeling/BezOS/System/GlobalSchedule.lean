import Mathlib.Logic.Function.Basic
import BezOS.Lib.Transition
import BezOS.Status

/-!
# The global schedule

`sys::GlobalSchedule` and `sys::CpuLocalSchedule` of `system/schedule.cpp`, with the parts of
`sys::Thread` that write a thread's state. Calls run one after the other, so a compare-exchange
that fails has seen the state that the next round exchanges. Hash tables and heaps are lists: which
of several equal entries comes first is left to the order of the list, which `reorder` may change
at any time. A weak pointer to a thread is its name, and locking it asks whether the thread lives.
-/

namespace BezOS

open Lib

inductive OsThreadState
  | finished
  | running
  | suspended
  | waiting
  | queued
  | orphaned
  deriving DecidableEq

abbrev ThreadId := Nat

abbrev ObjectId := Nat

/-- `sys::CpuLocalSchedule`; the ring queue holds at most `capacity` threads. -/
structure CpuLocalSchedule where
  capacity : Nat
  mTaskQueue : List ThreadId
  mCurrent : Option ThreadId
  deriving DecidableEq

structure SleepEntry where
  wake : Nat
  thread : ThreadId
  deriving DecidableEq

structure WaitEntry where
  timeout : Nat
  thread : ThreadId
  object : Option ObjectId
  deriving DecidableEq

/-- `top()` of a `std::priority_queue`: an entry with the greatest key. -/
def queueTop {α : Type} (key : α → Nat) : List α → Option α
  | [] => none
  | a :: l =>
      match queueTop key l with
      | none => some a
      | some b => if key b ≤ key a then some a else some b

structure GlobalSchedule where
  mCpuLocal : List (Nat × CpuLocalSchedule)
  mWaitQueue : List (ObjectId × List WaitEntry)
  mTimeoutQueue : List WaitEntry
  mSleepQueue : List SleepEntry
  mSuspendSet : List ThreadId
  state : ThreadId → OsThreadState
  alive : ThreadId → Bool

namespace GlobalSchedule

def setState (g : GlobalSchedule) (t : ThreadId) (state : OsThreadState) : GlobalSchedule :=
  { g with state := Function.update g.state t state }

def doSuspendUnlocked (g : GlobalSchedule) (t : ThreadId) : GlobalSchedule :=
  { g with mSuspendSet := g.mSuspendSet.insert t }

/-! ## The schedule of one processor -/

def startThread (g : GlobalSchedule) (t : ThreadId) : Bool × GlobalSchedule :=
  match g.state t with
  | .queued => (true, g.setState t .running)
  | .suspended => (false, g.doSuspendUnlocked t)
  | .waiting => (false, g)
  | .orphaned | .finished => (false, g)
  | .running => (true, g)

def stopThread (g : GlobalSchedule) (t : ThreadId) : Bool × GlobalSchedule :=
  match g.state t with
  | .running => (true, g.setState t .queued)
  | .queued => (true, g)
  | .suspended | .waiting => (false, g)
  | .orphaned | .finished => (false, g)

/-- `KM_ASSERT(mTaskQueue.tryPush(thread))`. -/
def pushTask (cpu : CpuLocalSchedule) (t : ThreadId) : Except Fault CpuLocalSchedule :=
  if cpu.mTaskQueue.length < cpu.capacity then
    .ok { cpu with mTaskQueue := cpu.mTaskQueue ++ [t] }
  else .error .bugCheck

/-- The loop of `reschedule`, over the tasks that are popped. -/
def rescheduleLoop : List ThreadId → CpuLocalSchedule → GlobalSchedule →
    Except Fault (CpuLocalSchedule × GlobalSchedule)
  | [], cpu, g => .ok ({ cpu with mTaskQueue := [] }, g)
  | t :: rest, cpu, g =>
      if g.alive t then
        match g.startThread t with
        | (false, g) => rescheduleLoop rest cpu g
        | (true, g) =>
            let cpu := { cpu with mTaskQueue := rest }
            match cpu.mCurrent with
            | none => .ok ({ cpu with mCurrent := some t }, g)
            | some current => do
                let (_, g) := g.stopThread current
                let cpu ← pushTask cpu current
                pure ({ cpu with mCurrent := some t }, g)
      else rescheduleLoop rest cpu g

/-- `CpuLocalSchedule::reschedule`. -/
def rescheduleCpu (cpu : CpuLocalSchedule) (g : GlobalSchedule) :
    Except Fault (CpuLocalSchedule × GlobalSchedule) := do
  let (cpu, g) ← rescheduleLoop cpu.mTaskQueue cpu g
  match cpu.mCurrent with
  | none => pure (cpu, g)
  | some current =>
      match g.startThread current with
      | (true, g) => pure (cpu, g)
      | (false, g) => do
          let (_, g) := g.stopThread current
          let cpu ← pushTask cpu current
          pure ({ cpu with mCurrent := none }, g)

def setCpu (g : GlobalSchedule) (i : Nat) (cpu : CpuLocalSchedule) : GlobalSchedule :=
  { g with mCpuLocal := g.mCpuLocal.modify i fun entry => (entry.1, cpu) }

/-- `reschedule` of the processor at position `i`. -/
def reschedule (g : GlobalSchedule) (i : Nat) : Except Fault GlobalSchedule :=
  match g.mCpuLocal[i]? with
  | none => .error .badAccess
  | some (_, cpu) => do
      let (cpu, g) ← rescheduleCpu cpu g
      pure (g.setCpu i cpu)

/-! ## Placing threads -/

/-- `CpuLocalSchedule::addThread`. -/
def addThreadTo (g : GlobalSchedule) (t : ThreadId) (i : Nat) : Option GlobalSchedule :=
  match g.mCpuLocal[i]? with
  | none => none
  | some (_, cpu) =>
      if cpu.mTaskQueue.length < cpu.capacity then
        some (g.setCpu i { cpu with mTaskQueue := cpu.mTaskQueue ++ [t] })
      else none

def leastLoaded (g : GlobalSchedule) : Nat :=
  g.mCpuLocal.findIdx fun entry =>
    g.mCpuLocal.all fun other => entry.2.mTaskQueue.length ≤ other.2.mTaskQueue.length

def scheduleThread (g : GlobalSchedule) (t : ThreadId) : OsStatus × GlobalSchedule :=
  if g.leastLoaded = g.mCpuLocal.length then (.outOfMemory, g)
  else
    match g.addThreadTo t g.leastLoaded with
    | some g => (.success, g)
    | none =>
        match (List.range g.mCpuLocal.length).findSome? (g.addThreadTo t) with
        | some g => (.success, g)
        | none => (.outOfMemory, g)

def initCpuSchedule (g : GlobalSchedule) (cpu tasks : Nat) : GlobalSchedule :=
  if g.mCpuLocal.any (·.1 == cpu) then g
  else { g with mCpuLocal := g.mCpuLocal ++ [(cpu, ⟨tasks, [], none⟩)] }

/-! ## Suspending and resuming -/

def suspendUnlocked (g : GlobalSchedule) (t : ThreadId) : OsStatus × GlobalSchedule :=
  match g.state t with
  | .finished | .orphaned => (.completed, g)
  | .suspended => (.success, g.doSuspendUnlocked t)
  | .queued | .running | .waiting => (.success, (g.setState t .suspended).doSuspendUnlocked t)

def doResumeUnlocked (g : GlobalSchedule) (t : ThreadId) : GlobalSchedule :=
  if t ∈ g.mSuspendSet then
    ({ g with mSuspendSet := g.mSuspendSet.erase t }.scheduleThread t).2
  else g

def resumeUnlocked (g : GlobalSchedule) (t : ThreadId) : OsStatus × GlobalSchedule :=
  match g.state t with
  | .suspended => (.success, (g.setState t .running).doResumeUnlocked t)
  | .queued | .running | .waiting => (.success, g)
  | .finished | .orphaned => (.completed, g)

def sleep (g : GlobalSchedule) (t : ThreadId) (wake : Nat) : OsStatus × GlobalSchedule :=
  match g.suspendUnlocked t with
  | (.success, g) => (.success, { g with mSleepQueue := ⟨wake, t⟩ :: g.mSleepQueue })
  | (status, g) => (status, g)

/-- `mWaitQueue[object].push(entry)`. -/
def pushWait (object : ObjectId) (entry : WaitEntry) :
    List (ObjectId × List WaitEntry) → List (ObjectId × List WaitEntry)
  | [] => [(object, [entry])]
  | (o, queue) :: rest =>
      if o = object then (o, entry :: queue) :: rest else (o, queue) :: pushWait object entry rest

/-- `wait`; the entry does not name the object, and nothing enters the timeout queue. -/
def wait (g : GlobalSchedule) (t : ThreadId) (object : ObjectId) (timeout : Nat) :
    OsStatus × GlobalSchedule :=
  match g.suspendUnlocked t with
  | (.success, g) => (.success, { g with mWaitQueue := pushWait object ⟨timeout, t, none⟩ g.mWaitQueue })
  | (status, g) => (status, g)

/-- `signal`: the lock is held, and `resume` takes it again for the first waiter that lives. -/
def signal (g : GlobalSchedule) (object : ObjectId) : Except Fault (OsStatus × GlobalSchedule) :=
  match g.mWaitQueue.lookup object with
  | none => .ok (.notFound, g)
  | some queue =>
      if queue.any fun entry => g.alive entry.thread then .error .deadlock
      else .ok (.success, { g with mWaitQueue := g.mWaitQueue.filter (·.1 ≠ object) })

/-! ## Ticks -/

/-- The loop of `resumeSleepQueue`; `fuel` is the number of entries. -/
def resumeSleepQueue (now : Nat) : Nat → GlobalSchedule → GlobalSchedule
  | 0, g => g
  | fuel + 1, g =>
      match queueTop SleepEntry.wake g.mSleepQueue with
      | none => g
      | some entry =>
          if entry.wake > now then g
          else
            let g := { g with mSleepQueue := g.mSleepQueue.erase entry }
            resumeSleepQueue now fuel
              (if g.alive entry.thread then (g.resumeUnlocked entry.thread).2 else g)

/-- The loop of `wakeQueue` on one queue; `fuel` is the number of entries. -/
def popExpired (now : Nat) : Nat → List WaitEntry → List WaitEntry
  | 0, queue => queue
  | fuel + 1, queue =>
      match queueTop WaitEntry.timeout queue with
      | none => queue
      | some entry => if entry.timeout > now then queue else popExpired now fuel (queue.erase entry)

def wakeQueue (g : GlobalSchedule) (now : Nat) (object : Option ObjectId) : GlobalSchedule :=
  match object with
  | none => g
  | some object =>
      let expire : List WaitEntry → List WaitEntry := fun queue => popExpired now queue.length queue
      let queues := g.mWaitQueue.map fun q => if q.1 = object then (q.1, expire q.2) else q
      { g with mWaitQueue := queues.filter fun q => q.1 ≠ object ∨ q.2 ≠ [] }

/-- The loop of `resumeWaitQueue`; `fuel` is the number of entries. -/
def resumeWaitQueue (now : Nat) : Nat → GlobalSchedule → GlobalSchedule
  | 0, g => g
  | fuel + 1, g =>
      match queueTop WaitEntry.timeout g.mTimeoutQueue with
      | none => g
      | some entry =>
          if entry.timeout > now then g
          else
            let g := { g with mTimeoutQueue := g.mTimeoutQueue.erase entry }.wakeQueue now entry.object
            resumeWaitQueue now fuel
              (if g.alive entry.thread then (g.resumeUnlocked entry.thread).2 else g)

/-- The loop of `tick` over the suspended threads. -/
def scheduleQueued (g : GlobalSchedule) : GlobalSchedule :=
  g.mSuspendSet.foldl
    (fun g t => if g.alive t ∧ g.state t = .queued then (g.scheduleThread t).2 else g) g

/-- `absl::erase_if` at the end of `tick`. -/
def forgetResumed (g : GlobalSchedule) : GlobalSchedule :=
  { g with mSuspendSet := g.mSuspendSet.filter fun t =>
      g.alive t ∧ g.state t ≠ .queued ∧ g.state t ≠ .orphaned ∧ g.state t ≠ .finished }

def tick (g : GlobalSchedule) (now : Nat) : GlobalSchedule :=
  let g := resumeSleepQueue now g.mSleepQueue.length g
  let g := resumeWaitQueue now g.mTimeoutQueue.length g
  g.scheduleQueued.forgetResumed

end GlobalSchedule

/-! ## Calls -/

inductive ScheduleCall
  | initCpuSchedule (cpu tasks : Nat)
  | addThread (thread : ThreadId)
  | startThread (thread : ThreadId)
  | stopThread (thread : ThreadId)
  | reschedule (cpu : Nat)
  | suspend (thread : ThreadId)
  | resume (thread : ThreadId)
  | sleep (thread : ThreadId) (wake : Nat)
  | wait (thread : ThreadId) (object : ObjectId) (timeout : Nat)
  | signal (object : ObjectId)
  | tick (now : Nat)
  /-- `Thread::suspend`, which only writes the state. -/
  | threadSuspend (thread : ThreadId)
  /-- `Thread::resume`, which only writes the state. -/
  | threadResume (thread : ThreadId)
  | threadDestroy (thread : ThreadId) (reason : OsThreadState)
  /-- The last shared pointer to the thread goes. -/
  | drop (thread : ThreadId)
  /-- The tables and heaps keep their entries in another order. -/
  | reorder (cpus : List (Nat × CpuLocalSchedule)) (suspended : List ThreadId)
      (sleeping : List SleepEntry)

namespace GlobalSchedule

/-- `Thread::suspend`. -/
def threadSuspend (g : GlobalSchedule) (t : ThreadId) : GlobalSchedule :=
  match g.state t with
  | .suspended | .finished | .orphaned => g
  | .queued | .waiting | .running => g.setState t .suspended

/-- `Thread::resume`. -/
def threadResume (g : GlobalSchedule) (t : ThreadId) : GlobalSchedule :=
  match g.state t with
  | .suspended => g.setState t .queued
  | _ => g

def step (g : GlobalSchedule) : ScheduleCall → Except Fault GlobalSchedule
  | .initCpuSchedule cpu tasks => .ok (g.initCpuSchedule cpu tasks)
  | .addThread t => .ok (g.scheduleThread t).2
  | .startThread t => .ok (g.startThread t).2
  | .stopThread t => .ok (g.stopThread t).2
  | .reschedule cpu => g.reschedule cpu
  | .suspend t => .ok (g.suspendUnlocked t).2
  | .resume t => .ok (g.resumeUnlocked t).2
  | .sleep t wake => .ok (g.sleep t wake).2
  | .wait t object timeout => .ok (g.wait t object timeout).2
  | .signal object => (g.signal object).map (·.2)
  | .tick now => .ok (g.tick now)
  | .threadSuspend t => .ok (g.threadSuspend t)
  | .threadResume t => .ok (g.threadResume t)
  | .threadDestroy t reason => .ok (g.setState t reason)
  | .drop t => .ok { g with alive := Function.update g.alive t false }
  | .reorder cpus suspended sleeping =>
      .ok { g with mCpuLocal := cpus, mSuspendSet := suspended, mSleepQueue := sleeping }

end GlobalSchedule
end BezOS
