import Mathlib.Data.List.Nodup
import BezOS.Task.Contexts

/-!
# Conservation of tasks

A task that was enqueued and is not terminated is held in one place. This is so as long as no
reschedule meets a task that was put to sleep: such a task is taken out of the ring, or of the
current slot, and is not put into the list of sleeping tasks, to which nothing ever adds.
-/

namespace BezOS

open Lib List Option SchedulerQueue

namespace SchedulerQueue

variable {S : Type} (q : SchedulerQueue S)

def places : List TaskId :=
  q.mQueue ++ q.mCurrentTask.toList ++ q.mRescueTask.toList ++ q.mSleepingTasks

def Held (task : TaskId) : Prop := task ∈ q.mQueue ∨ q.mCurrentTask = some task

@[simp] lemma status_setStatus (task t : TaskId) (status : TaskStatus) :
    (q.setStatus task status).status t = if t = task then status else q.status t := by
  by_cases ht : t = task
  · subst ht
    simp [SchedulerQueue.status, setStatus, setEntry]
  · simp [SchedulerQueue.status, setStatus, setEntry, ht]

end SchedulerQueue

namespace TaskStatus

def alive : TaskStatus → Bool
  | .terminated => false
  | .closed => false
  | _ => true

def inRing : TaskStatus → Bool
  | .idle => true
  | .suspended => true
  | .terminated => true
  | _ => false

def onCore : TaskStatus → Bool
  | .running => true
  | .suspended => true
  | .terminated => true
  | _ => false

end TaskStatus

namespace SchedulerQueue

variable {S : Type} {q : SchedulerQueue S}

lemma takeWhile_congr {α : Type} {p p' : α → Bool} {l : List α} (h : ∀ a ∈ l, p a = p' a) :
    l.takeWhile p = l.takeWhile p' := by
  induction l with
  | nil => rfl
  | cons a l ih =>
    rw [takeWhile_cons, takeWhile_cons, h a (mem_cons_self ..),
      ih fun b hb => h b (mem_cons_of_mem _ hb)]

/-- What the loop of `takeNextTask` does to the tasks it takes, if none of them sleeps. -/
structure Taken (q : SchedulerQueue S) (tasks : List TaskId) (next : Option TaskId)
    (q' : SchedulerQueue S) (dropped : List TaskId) : Prop where
  cut : tasks = dropped ++ next.toList ++ q'.mQueue
  closed : ∀ t ∈ dropped, q'.status t = .closed
  chosen : ∀ t, next = some t → q'.status t = .running
  same : ∀ t, t ∉ dropped → next ≠ some t → q'.status t = q.status t

lemma takeNextTaskFrom_awake {tasks : List TaskId} (hnodup : tasks.Nodup)
    (hring : ∀ t ∈ tasks, (q.status t).inRing)
    (hawake : ∀ t ∈ tasks.takeWhile (q.status · ≠ .idle), q.status t ≠ .suspended) :
    ∃ next q' dropped, q.takeNextTaskFrom tasks = .ok (next, q') ∧
      Taken q tasks next q' dropped := by
  induction tasks generalizing q with
  | nil =>
    refine ⟨none, { q with mQueue := [] }, [], rfl, rfl, ?_, ?_, fun _ _ _ => rfl⟩
    · simp
    · simp
  | cons task tasks ih =>
    obtain ⟨hnew, hnodup⟩ := nodup_cons.1 hnodup
    have hhead := hring task (mem_cons_self ..)
    cases hstatus : q.status task with
    | idle =>
      refine ⟨some task, { q.setStatus task .running with mQueue := tasks }, [], ?_, rfl, ?_, ?_, ?_⟩
      · simp only [takeNextTaskFrom, moveTaskToRunning, hstatus]
        rfl
      · simp
      · rintro t heq
        obtain rfl := Option.some.inj heq
        have := status_setStatus q task task .running
        rwa [if_pos rfl] at this
      · intro t _ ht
        have hne : t ≠ task := fun heq => ht (heq ▸ rfl)
        have := status_setStatus q task t .running
        rwa [if_neg hne] at this
    | running => simp [hstatus, TaskStatus.inRing] at hhead
    | closed => simp [hstatus, TaskStatus.inRing] at hhead
    | suspended =>
      refine absurd hstatus (hawake task ?_)
      simp [hstatus]
    | terminated =>
      have hother : ∀ t ∈ tasks, (q.setStatus task .closed).status t = q.status t := by
        intro t ht
        rw [status_setStatus, if_neg]
        rintro rfl
        exact hnew ht
      have hsame : tasks.takeWhile ((q.setStatus task .closed).status · ≠ .idle) =
          tasks.takeWhile (q.status · ≠ .idle) :=
        takeWhile_congr fun t ht => by rw [hother t ht]
      have hring' : ∀ t ∈ tasks, ((q.setStatus task .closed).status t).inRing := by
        intro t ht
        rw [hother t ht]
        exact hring t (mem_cons_of_mem _ ht)
      have hawake' : ∀ t ∈ tasks.takeWhile ((q.setStatus task .closed).status · ≠ .idle),
          (q.setStatus task .closed).status t ≠ .suspended := by
        rw [hsame]
        intro t ht
        rw [hother t (takeWhile_subset _ ht)]
        refine hawake t ?_
        rw [takeWhile_cons_of_pos (by simp [hstatus])]
        exact mem_cons_of_mem _ ht
      obtain ⟨next, q', dropped, htake, htaken⟩ := ih hnodup hring' hawake'
      refine ⟨next, q', task :: dropped, ?_, ?_, ?_, htaken.chosen, ?_⟩
      · simp only [takeNextTaskFrom, moveTaskToRunning, hstatus]
        exact htake
      · simp [htaken.cut]
      · intro t ht
        rcases mem_cons.1 ht with rfl | ht
        · -- the task was closed; it does not occur again
          have hnotin : t ∉ dropped ++ next.toList ++ q'.mQueue := htaken.cut ▸ hnew
          simp only [mem_append, mem_toList, not_or] at hnotin
          rw [htaken.same t hnotin.1.1 hnotin.1.2, status_setStatus, if_pos rfl]
        · exact htaken.closed t ht
      · intro t ht hnext
        simp only [mem_cons, not_or] at ht
        rw [htaken.same t ht.2 hnext, status_setStatus, if_neg ht.1]

/-- What `setCurrentTask` makes of the task that stops: it goes to the ring, or is closed. -/
structure Placed (q : SchedulerQueue S) (task : TaskId) (q' : SchedulerQueue S)
    (pushed : List TaskId) : Prop where
  queue : q'.mQueue = q.mQueue ++ pushed
  current : q'.mCurrentTask = some task
  capacity : q'.capacity = q.capacity
  rescue : q'.mRescueTask = q.mRescueTask
  sleeping : q'.mSleepingTasks = q.mSleepingTasks
  length : pushed.length ≤ 1
  idled : ∀ t ∈ pushed, q.mCurrentTask = some t ∧ q'.status t = .idle
  closed : ∀ t, q.mCurrentTask = some t → t ∉ pushed → q'.status t = .closed
  same : ∀ t, q.mCurrentTask ≠ some t → q'.status t = q.status t

lemma setCurrentTask_awake {task : TaskId} (hne : q.mCurrentTask ≠ some task)
    (hrunning : q.status task = .running) (hroom : q.mQueue.length < q.capacity)
    (hcurrent : ∀ current, q.mCurrentTask = some current →
      q.status current = .running ∨ q.status current = .terminated) :
    ∃ q' pushed, q.setCurrentTask task = .ok q' ∧ Placed q task q' pushed := by
  unfold setCurrentTask
  rw [if_neg hne, if_neg (by simp [hrunning])]
  cases hq : q.mCurrentTask with
  | none =>
    refine ⟨_, [], rfl, ?_⟩
    constructor <;> simp [hq, status]
  | some current =>
    have hother : ∀ status t, q.mCurrentTask ≠ some t →
        (q.setStatus current status).status t = q.status t := by
      intro status t ht
      rw [status_setStatus, if_neg]
      rintro rfl
      exact ht hq
    have hself : ∀ status, (q.setStatus current status).status current = status := by
      intro status
      rw [status_setStatus, if_pos rfl]
    rcases hcurrent current hq with hrun | hterm
    · have hmove : q.moveTaskToIdle current = .ok (true, q.setStatus current .idle) := by
        simp only [moveTaskToIdle, hrun]
      have hpush := tryPush_of_lt (q := q.setStatus current .idle) current hroom
      refine ⟨{ q.setStatus current .idle with
        mQueue := q.mQueue ++ [current], mCurrentTask := some task }, [current], ?_, ?_⟩
      · simp only [hmove, bind, Except.bind, if_true, hpush]
        rfl
      · refine ⟨rfl, rfl, rfl, rfl, rfl, Nat.le_refl _, ?_, ?_, hother .idle⟩
        · intro t ht
          obtain rfl := mem_singleton.1 ht
          exact ⟨hq, hself .idle⟩
        · intro t ht hnot
          obtain rfl := Option.some.inj (hq.symm.trans ht)
          exact absurd (mem_singleton_self _) hnot
    · have hmove : q.moveTaskToIdle current = .ok (false, q.setStatus current .closed) := by
        simp only [moveTaskToIdle, hterm]
      refine ⟨{ q.setStatus current .closed with mCurrentTask := some task }, [], ?_, ?_⟩
      · simp only [hmove, bind, Except.bind]
        rfl
      · refine ⟨(append_nil _).symm, rfl, rfl, rfl, rfl, Nat.zero_le _, by simp, ?_,
          hother .closed⟩
        intro t ht _
        obtain rfl := Option.some.inj (hq.symm.trans ht)
        exact hself .closed

end SchedulerQueue

structure TaskRun (S : Type) where
  queue : SchedulerQueue S
  enqueued : List TaskId

namespace TaskRun

variable {S : Type}

def step (r : TaskRun S) : SchedulerCall S → Except Fault (TaskRun S)
  | .enqueue task state => do
      let (status, q) ← r.queue.enqueue state task
      pure ⟨q, if status = .success then r.enqueued ++ [task] else r.enqueued⟩
  | call => do
      let q ← r.queue.serve call
      pure ⟨q, r.enqueued⟩

def Steps (r : TaskRun S) (call : SchedulerCall S) (r' : TaskRun S) : Prop := r.step call = .ok r'

def init (capacity : Nat) (entries : TaskId → SchedulerEntry S) : TaskRun S :=
  ⟨.create capacity entries, []⟩

/-- Every task that was enqueued and may still run is held once, and no closed task is in the ring
or current. -/
structure Conserved (r : TaskRun S) : Prop where
  held : ∀ task ∈ r.enqueued, (r.queue.status task).alive → r.queue.places.count task = 1
  opened : ∀ task, task ∈ r.queue.mQueue ∨ r.queue.mCurrentTask = some task →
    r.queue.status task ≠ .closed

/-- The calls that keep tasks: `enqueue` is called for an idle entry, and does not succeed twice for
it; a reschedule finds the current task awake, and those it takes from the ring, up to the first
idle one. -/
def Awake (r : TaskRun S) : SchedulerCall S → Prop
  | .enqueue task _ => r.queue.status task = .idle ∧
      (task ∈ r.enqueued → r.queue.capacity ≤ r.queue.mQueue.length)
  | .reschedule _ =>
      (∀ task ∈ r.queue.mCurrentTask, r.queue.status task ≠ .suspended) ∧
      ∀ task ∈ r.queue.mQueue.takeWhile (r.queue.status · ≠ .idle),
        r.queue.status task ≠ .suspended
  | _ => True

instance (r : TaskRun S) : DecidablePred r.Awake
  | .enqueue _ _ => inferInstanceAs (Decidable (_ ∧ (_ → _)))
  | .reschedule _ => inferInstanceAs (Decidable (_ ∧ _))
  | .sleep _ _ | .wake _ | .terminate _ | .wakeSleepingTasks _ => isTrue trivial

def AwakeSteps (r : TaskRun S) (call : SchedulerCall S) (r' : TaskRun S) : Prop :=
  r.Awake call ∧ r.Steps call r'

/-! ## The invariant -/

structure Invariant (r : TaskRun S) : Prop where
  rescue : r.queue.mRescueTask = none
  sleeping : r.queue.mSleepingTasks = []
  length : r.queue.mQueue.length ≤ r.queue.capacity
  nodup : r.queue.mQueue.Nodup
  apart : ∀ task, r.queue.mCurrentTask = some task → task ∉ r.queue.mQueue
  queued : ∀ task ∈ r.queue.mQueue, (r.queue.status task).inRing
  current : ∀ task, r.queue.mCurrentTask = some task → (r.queue.status task).onCore
  held : ∀ task ∈ r.enqueued, (r.queue.status task).alive →
    task ∈ r.queue.mQueue ∨ r.queue.mCurrentTask = some task
  known : ∀ task, task ∈ r.queue.mQueue ∨ r.queue.mCurrentTask = some task → task ∈ r.enqueued

variable {r : TaskRun S} {state : S} {task : TaskId} {q1 : SchedulerQueue S} {dropped : List TaskId}

section

variable (h : r.Invariant)

include h

lemma Invariant.conserved : r.Conserved where
  held := by
    intro task htask halive
    simp only [SchedulerQueue.places, h.rescue, h.sleeping, toList_none, append_nil,
      count_append]
    rcases h.held task htask halive with hmem | hcurrent
    · have hne : r.queue.mCurrentTask ≠ some task := fun hcurrent => h.apart task hcurrent hmem
      rw [count_eq_one_of_mem h.nodup hmem]
      cases hcurrent : r.queue.mCurrentTask with
      | none => rfl
      | some current =>
        have hne : current ≠ task := fun heq => hne (heq ▸ hcurrent)
        simp [hne]
    · rw [count_eq_zero.2 (h.apart task hcurrent), hcurrent]
      simp
  opened := by
    rintro task (hmem | hcurrent) hclosed
    · have hring := h.queued task hmem
      simp [hclosed, TaskStatus.inRing] at hring
    · have hcore := h.current task hcurrent
      simp [hclosed, TaskStatus.onCore] at hcore

lemma Invariant.of_setEntry {e : SchedulerEntry S}
    (hring : (r.queue.status task).inRing → e.mStatus.inRing)
    (hcore : (r.queue.status task).onCore → e.mStatus.onCore)
    (halive : e.mStatus.alive → (r.queue.status task).alive) :
    Invariant ⟨r.queue.setEntry task e, r.enqueued⟩ := by
  have hother : ∀ t, t ≠ task → (r.queue.setEntry task e).status t = r.queue.status t := by
    intro t ht
    simp [SchedulerQueue.status, SchedulerQueue.setEntry, ht]
  have hself : (r.queue.setEntry task e).status task = e.mStatus := by
    simp [SchedulerQueue.status, SchedulerQueue.setEntry]
  refine ⟨h.rescue, h.sleeping, h.length, h.nodup, h.apart, ?_, ?_, ?_, h.known⟩
  · intro t ht
    by_cases heq : t = task
    · subst heq
      rw [hself]
      exact hring (h.queued t ht)
    · rw [hother t heq]
      exact h.queued t ht
  · intro t ht
    by_cases heq : t = task
    · subst heq
      rw [hself]
      exact hcore (h.current t ht)
    · rw [hother t heq]
      exact h.current t ht
  · intro t ht hal
    by_cases heq : t = task
    · subst heq
      rw [hself] at hal
      exact h.held t ht (halive hal)
    · rw [hother t heq] at hal
      exact h.held t ht hal

lemma Invariant.enqueue (hawake : r.Awake (.enqueue task state)) :
    ∃ r', r.step (.enqueue task state) = .ok r' ∧ r'.Invariant := by
  obtain ⟨hidle, hfull⟩ := hawake
  simp only [step, SchedulerQueue.enqueue, hidle, drainRescue, h.rescue, ne_eq,
    not_true_eq_false, if_false]
  by_cases hroom : r.queue.mQueue.length < r.queue.capacity
  · have hnew : task ∉ r.enqueued := fun hmem => by
      have := hfull hmem
      omega
    have hpush := SchedulerQueue.tryPush_of_lt (q := r.queue.setState task state) task hroom
    simp only [hpush]
    refine ⟨_, rfl, ⟨h.rescue, h.sleeping, ?_, ?_, ?_, ?_, ?_, ?_, ?_⟩⟩
    · simpa [setState, SchedulerQueue.setEntry] using Nat.succ_le_of_lt hroom
    · refine nodup_append.2 ⟨h.nodup, nodup_singleton _, ?_⟩
      intro a ha b hb
      obtain rfl := mem_singleton.1 hb
      rintro rfl
      exact hnew (h.known a (.inl ha))
    · intro t ht hmem
      rcases mem_append.1 hmem with hmem | hmem
      · exact h.apart t ht hmem
      · obtain rfl := mem_singleton.1 hmem
        exact hnew (h.known t (.inr ht))
    · intro t ht
      have hstatus := status_setState r.queue task t state
      rcases mem_append.1 ht with ht | ht
      · exact hstatus ▸ h.queued t ht
      · obtain rfl := mem_singleton.1 ht
        exact hstatus.trans hidle ▸ rfl
    · intro t ht
      exact status_setState r.queue task t state ▸ h.current t ht
    · intro t ht halive
      simp only [if_true, mem_append, mem_singleton] at ht ⊢
      have halive : (r.queue.status t).alive :=
        status_setState r.queue task t state ▸ halive
      rcases ht with ht | rfl
      · exact (h.held t ht halive).imp_left .inl
      · exact .inl (.inr rfl)
    · intro t ht
      simp only [if_true, mem_append, mem_singleton] at ht ⊢
      rcases ht with (ht | rfl) | ht
      · exact .inl (h.known t (.inl ht))
      · exact .inr rfl
      · exact .inl (h.known t (.inr ht))
  · have hpush : (r.queue.setState task state).tryPush task = none := if_neg hroom
    simp only [hpush]
    exact ⟨_, rfl, h.of_setEntry id id id⟩

lemma Invariant.of_moved {q : SchedulerQueue S} (hrescue : q.mRescueTask = none)
    (hsleeping : q.mSleepingTasks = []) (hlength : q.mQueue.length ≤ q.capacity)
    (hnodup : q.mQueue.Nodup) (hapart : ∀ t, q.mCurrentTask = some t → t ∉ q.mQueue)
    (hqueued : ∀ t ∈ q.mQueue, r.queue.Held t ∧ (q.status t).inRing)
    (hcurrent : ∀ t, q.mCurrentTask = some t → r.queue.Held t ∧ (q.status t).onCore)
    (hheld : ∀ t, r.queue.Held t → (q.status t).alive → q.Held t)
    (hsame : ∀ t, ¬ r.queue.Held t → q.status t = r.queue.status t) :
    Invariant ⟨q, r.enqueued⟩ where
  rescue := hrescue
  sleeping := hsleeping
  length := hlength
  nodup := hnodup
  apart := hapart
  queued := fun t ht => (hqueued t ht).2
  current := fun t ht => (hcurrent t ht).2
  held := by
    intro t ht halive
    by_cases hbefore : r.queue.Held t
    · exact hheld t hbefore halive
    · refine absurd (h.held t ht ?_) hbefore
      rw [← hsame t hbefore]
      exact halive
  known := by
    rintro t (ht | ht)
    · exact h.known t (hqueued t ht).1
    · exact h.known t (hcurrent t ht).1

end

lemma nodup_of_length_le_one {α : Type} {l : List α} (h : l.length ≤ 1) : l.Nodup := by
  rcases l with - | ⟨a, - | ⟨b, l⟩⟩
  · exact nodup_nil
  · exact nodup_singleton a
  · simp at h

lemma onCore_awake {status : TaskStatus} (h : status.onCore) (hawake : status ≠ .suspended) :
    status = .running ∨ status = .terminated := by
  cases status <;> simp_all [TaskStatus.onCore]

section

variable (h : r.Invariant) (hawake : r.Awake (.reschedule state))

include h hawake

lemma Invariant.reschedule_none (htake : r.queue.takeNextTask = .ok (none, q1))
    (htaken : SchedulerQueue.Taken r.queue r.queue.mQueue none q1 dropped) :
    ∃ r', r.step (.reschedule state) = .ok r' ∧ r'.Invariant := by
  obtain ⟨hdrops, -⟩ := drops_takeNextTaskFrom htake
  have hempty := takeNextTaskFrom_none htake
  have hdropped : r.queue.mQueue = dropped := by simpa [hempty] using htaken.cut
  have hsame : ∀ t, t ∉ r.queue.mQueue → q1.status t = r.queue.status t :=
    fun t ht => htaken.same t (hdropped ▸ ht) (by simp)
  have hclosed : ∀ t ∈ r.queue.mQueue, q1.status t = .closed :=
    fun t ht => htaken.closed t (hdropped ▸ ht)
  simp only [step, serve, SchedulerQueue.reschedule, htake]
  cases hcurrent : r.queue.mCurrentTask with
  | none =>
    have hcurrent1 : q1.mCurrentTask = none := hdrops.current.trans hcurrent
    refine ⟨⟨q1, r.enqueued⟩, ?_, h.of_moved (hdrops.rescue.trans h.rescue)
      (hdrops.sleeping.trans h.sleeping) (by simp [hempty]) (by simp [hempty])
      (by simp [hcurrent1]) (by simp [hempty]) (by simp [hcurrent1]) ?_ ?_⟩
    · simp [bind, Except.bind, pure, Except.pure, Except.map, hcurrent1]
    · rintro t (ht | ht) halive
      · simp [hclosed t ht, TaskStatus.alive] at halive
      · simp [hcurrent] at ht
    · exact fun t ht => hsame t fun hmem => ht (.inl hmem)
  | some current =>
    have hcurrent1 : q1.mCurrentTask = some current := hdrops.current.trans hcurrent
    have hstatus := hsame current (h.apart current hcurrent)
    rcases onCore_awake (h.current current hcurrent) (hawake.1 current hcurrent) with hrun | hterm
    · rw [hrun] at hstatus
      refine ⟨⟨q1, r.enqueued⟩, ?_, h.of_moved (hdrops.rescue.trans h.rescue)
        (hdrops.sleeping.trans h.sleeping) (by simp [hempty]) (by simp [hempty])
        (by simp [hempty]) (by simp [hempty]) ?_ ?_ ?_⟩
      · simp [bind, Except.bind, pure, Except.pure, Except.map, hcurrent1,
          keepTaskRunning, hstatus]
      · intro t ht
        obtain rfl := Option.some.inj (hcurrent1.symm.trans ht)
        exact ⟨.inr hcurrent, by simp [hstatus, TaskStatus.onCore]⟩
      · rintro t (ht | ht) halive
        · simp [hclosed t ht, TaskStatus.alive] at halive
        · exact .inr (hcurrent1.trans (hcurrent.symm.trans ht))
      · exact fun t ht => hsame t fun hmem => ht (.inl hmem)
    · rw [hterm] at hstatus
      have hfinal : ∀ t, SchedulerQueue.status
          { (q1.setStatus current .closed).setState current state with mCurrentTask := none } t =
          if t = current then .closed else q1.status t := by
        intro t
        exact (status_setState ..).trans (SchedulerQueue.status_setStatus ..)
      refine ⟨⟨{ (q1.setStatus current .closed).setState current state with mCurrentTask := none },
        r.enqueued⟩, ?_, h.of_moved (hdrops.rescue.trans h.rescue)
        (hdrops.sleeping.trans h.sleeping) ?_ ?_ (by simp) ?_ (by simp) ?_ ?_⟩
      · simp [bind, Except.bind, pure, Except.pure, Except.map, hcurrent1,
          keepTaskRunning, hstatus]
      · simp [setState, SchedulerQueue.setStatus, SchedulerQueue.setEntry, hempty]
      · simp [setState, SchedulerQueue.setStatus, SchedulerQueue.setEntry, hempty]
      · simp [setState, SchedulerQueue.setStatus, SchedulerQueue.setEntry, hempty]
      · intro t ht halive
        rw [hfinal] at halive
        split at halive
        · cases halive
        · rename_i hne
          rcases ht with ht | ht
          · simp [hclosed t ht, TaskStatus.alive] at halive
          · exact absurd (Option.some.inj (ht.symm.trans hcurrent)) hne
      · intro t ht
        have hne : t ≠ current := by
          rintro rfl
          exact ht (.inr hcurrent)
        rw [hfinal, if_neg hne]
        exact hsame t fun hmem => ht (.inl hmem)

lemma Invariant.reschedule_some (htake : r.queue.takeNextTask = .ok (some task, q1))
    (htaken : SchedulerQueue.Taken r.queue r.queue.mQueue (some task) q1 dropped) :
    ∃ r', r.step (.reschedule state) = .ok r' ∧ r'.Invariant := by
  obtain ⟨hdrops, -⟩ := drops_takeNextTaskFrom htake
  have hcut : r.queue.mQueue = dropped ++ [task] ++ q1.mQueue := htaken.cut
  have hnodup := h.nodup
  rw [hcut] at hnodup
  have hrest : ∀ t ∈ q1.mQueue, t ∉ dropped ∧ t ≠ task := by
    intro t ht
    have hdisjoint := disjoint_of_nodup_append hnodup
    have hnotin : t ∉ dropped ++ [task] := fun hmem => hdisjoint hmem ht
    simpa using hnotin
  have hmem : ∀ t ∈ q1.mQueue, t ∈ r.queue.mQueue := by
    intro t ht
    simp [hcut, ht]
  have htask : task ∈ r.queue.mQueue := by simp [hcut]
  have hrunning : q1.status task = .running := htaken.chosen task rfl
  have hsame : ∀ t ∈ q1.mQueue, q1.status t = r.queue.status t :=
    fun t ht => htaken.same t (hrest t ht).1 (by simpa using (hrest t ht).2.symm)
  have hout : ∀ t, t ∉ r.queue.mQueue → q1.status t = r.queue.status t := by
    intro t ht
    refine htaken.same t ?_ ?_
    · exact fun hdropped => ht (by simp [hcut, hdropped])
    · rintro heq
      exact ht (Option.some.inj heq ▸ htask)
  have halive : ∀ t ∈ r.queue.mQueue, (q1.status t).alive → t ∈ q1.mQueue ∨ t = task := by
    intro t ht hal
    rw [hcut] at ht
    simp only [mem_append, mem_singleton] at ht
    rcases ht with (ht | ht) | ht
    · simp [htaken.closed t ht, TaskStatus.alive] at hal
    · exact .inr ht
    · exact .inl ht
  have hlength : q1.mQueue.length < r.queue.capacity := by
    have := h.length
    simp only [hcut, length_append, length_singleton] at this
    omega
  -- the state is saved, which no status depends on
  obtain ⟨q2, hq2, hqueue2, hcurrent2, hcapacity2, hrescue2, hsleeping2, hstatus2⟩ :
      ∃ q2, q1.saveCurrent state = q2 ∧ q2.mQueue = q1.mQueue ∧
        q2.mCurrentTask = r.queue.mCurrentTask ∧ q2.capacity = r.queue.capacity ∧
        q2.mRescueTask = none ∧ q2.mSleepingTasks = [] ∧ ∀ t, q2.status t = q1.status t := by
    refine ⟨_, rfl, ?_⟩
    unfold saveCurrent
    cases hcurrent : q1.mCurrentTask with
    | none => exact ⟨rfl, hdrops.current, hdrops.capacity, hdrops.rescue.trans h.rescue,
        hdrops.sleeping.trans h.sleeping, fun _ => rfl⟩
    | some current => exact ⟨rfl, hdrops.current, hdrops.capacity, hdrops.rescue.trans h.rescue,
        hdrops.sleeping.trans h.sleeping,
        fun t => status_setState q1 current t state⟩
  have hne : ∀ t, r.queue.mCurrentTask = some t → t ∉ r.queue.mQueue := h.apart
  obtain ⟨q', pushed, hset, hplaced⟩ := @SchedulerQueue.setCurrentTask_awake S q2 task
    (by rw [hcurrent2]; exact fun heq => hne task heq htask) (by rw [hstatus2, hrunning])
    (by rw [hqueue2, hcapacity2]; exact hlength) (by
      intro current hcurrent
      rw [hcurrent2] at hcurrent
      rw [hstatus2, hout current (hne current hcurrent)]
      exact onCore_awake (h.current current hcurrent) (hawake.1 current hcurrent))
  have hold : ∀ t, t ∈ pushed → r.queue.mCurrentTask = some t :=
    fun t ht => hcurrent2 ▸ (hplaced.idled t ht).1
  have hnew : ∀ t, r.queue.mCurrentTask ≠ some t → q'.status t = q1.status t :=
    fun t ht => (hplaced.same t (hcurrent2.symm ▸ ht)).trans (hstatus2 t)
  have hring : ∀ t ∈ r.queue.mQueue, r.queue.mCurrentTask ≠ some t :=
    fun t ht hcurrent => hne t hcurrent ht
  refine ⟨⟨q', r.enqueued⟩, ?_, h.of_moved (hplaced.rescue.trans hrescue2)
    (hplaced.sleeping.trans hsleeping2) ?_ ?_ ?_ ?_ ?_ ?_ ?_⟩
  · simp only [step, serve, SchedulerQueue.reschedule, htake]
    simp only [bind, Except.bind, hq2, hset]
    rfl
  · rw [hplaced.queue, hplaced.capacity, hqueue2, hcapacity2, length_append]
    have := hplaced.length
    omega
  · rw [hplaced.queue, hqueue2]
    refine nodup_append.2 ⟨(nodup_append.1 hnodup).2.1, ?_, ?_⟩
    · exact nodup_of_length_le_one hplaced.length
    · rintro a ha b hb rfl
      exact hne a (hold a hb) (hmem a ha)
  · intro t ht hmem'
    obtain rfl := Option.some.inj (hplaced.current.symm.trans ht)
    rw [hplaced.queue, hqueue2] at hmem'
    rcases mem_append.1 hmem' with hmem' | hmem'
    · exact (hrest task hmem').2 rfl
    · exact hne task (hold task hmem') htask
  · intro t ht
    rw [hplaced.queue, hqueue2] at ht
    rcases mem_append.1 ht with ht | ht
    · refine ⟨.inl (hmem t ht), ?_⟩
      rw [hnew t (hring t (hmem t ht)), hsame t ht]
      exact h.queued t (hmem t ht)
    · refine ⟨.inr (hold t ht), ?_⟩
      rw [(hplaced.idled t ht).2]
      rfl
  · intro t ht
    obtain rfl := Option.some.inj (hplaced.current.symm.trans ht)
    refine ⟨.inl htask, ?_⟩
    rw [hnew task (hring task htask), hrunning]
    rfl
  · rintro t (ht | ht) hal
    · rw [hnew t (hring t ht)] at hal
      rcases halive t ht hal with ht | rfl
      · exact .inl (by rw [hplaced.queue, hqueue2]; exact mem_append_left _ ht)
      · exact .inr hplaced.current
    · by_cases hpushed : t ∈ pushed
      · exact .inl (by rw [hplaced.queue]; exact mem_append_right _ hpushed)
      · rw [hplaced.closed t (hcurrent2.trans ht) hpushed] at hal
        cases hal
  · intro t ht
    rw [hnew t fun hcurrent => ht (.inr hcurrent)]
    exact hout t fun hmem => ht (.inl hmem)

lemma Invariant.reschedule :
    ∃ r', r.step (.reschedule state) = .ok r' ∧ r'.Invariant := by
  obtain ⟨next, q1, dropped, htake, htaken⟩ :=
    SchedulerQueue.takeNextTaskFrom_awake h.nodup h.queued hawake.2
  cases next with
  | none => exact h.reschedule_none hawake htake htaken
  | some task => exact h.reschedule_some hawake htake htaken

end

/-! ## Runs -/

lemma Invariant.step {call : SchedulerCall S} (h : r.Invariant) (hawake : r.Awake call) :
    ∃ r', r.step call = .ok r' ∧ r'.Invariant := by
  cases call with
  | enqueue task state => exact h.enqueue hawake
  | reschedule state => exact h.reschedule hawake
  | sleep task timeout =>
    refine ⟨_, rfl, h.of_setEntry ?_ ?_ ?_⟩ <;>
      · unfold SchedulerEntry.sleep SchedulerQueue.status
        split <;> simp_all [TaskStatus.inRing, TaskStatus.onCore, TaskStatus.alive]
  | wake task => exact ⟨_, rfl, h.of_setEntry id id id⟩
  | terminate task =>
    refine ⟨_, rfl, h.of_setEntry ?_ ?_ ?_⟩ <;>
      · unfold SchedulerEntry.terminate SchedulerQueue.status
        split <;> simp_all [TaskStatus.inRing, TaskStatus.onCore, TaskStatus.alive]
  | wakeSleepingTasks now =>
    refine ⟨⟨{ r.queue with mSleepingTasks := [] }, r.enqueued⟩, ?_, ?_⟩
    · simp only [TaskRun.step, serve, SchedulerQueue.wakeSleepingTasks, h.sleeping]
      rfl
    · exact ⟨h.rescue, rfl, h.length, h.nodup, h.apart, h.queued, h.current, h.held, h.known⟩

lemma Invariant.init (capacity : Nat) (entries : TaskId → SchedulerEntry S) :
    (init capacity entries).Invariant := by
  constructor <;> simp [TaskRun.init, create]

/-- Tasks are conserved, and no call panics, in every run in which no reschedule meets a task that
sleeps. -/
theorem conserved_of_awake (capacity : Nat) (entries : TaskId → SchedulerEntry S)
    {calls : List (SchedulerCall S)} {r : TaskRun S}
    (h : Run AwakeSteps (init capacity entries) calls r) :
    r.Conserved ∧ ∀ call, r.Awake call → ∃ r', r.step call = .ok r' := by
  have hinv : r.Invariant := by
    refine h.invariant ?_ (.init capacity entries)
    rintro r call r' hr ⟨hawake, hstep⟩
    obtain ⟨r'', hstep', hr''⟩ := hr.step hawake
    obtain rfl : r'' = r' := Except.ok.inj (hstep'.symm.trans hstep)
    exact hr''
  refine ⟨hinv.conserved, fun call hawake => ?_⟩
  obtain ⟨r', hstep, -⟩ := hinv.step hawake
  exact ⟨r', hstep⟩

/-- Two tasks, one of which is terminated while it waits. -/
theorem conserved_of_terminate : ∃ r : TaskRun Nat, r.Conserved ∧ r.queue.mCurrentTask = some 0 ∧
    Run AwakeSteps (init 4 fun _ => ⟨.idle, instantMin, 0⟩)
      [.enqueue 0 10, .enqueue 1 20, .terminate 1, .reschedule 5, .reschedule 6] r := by
  have hrun : (runGuarded Awake step (init 4 fun _ => ⟨.idle, instantMin, 0⟩)
      [.enqueue 0 10, .enqueue 1 20, .terminate 1, .reschedule 5, .reschedule 6]).map
      (fun r => r.queue.mCurrentTask) = some (some 0) := by decide
  obtain ⟨r, hr, hcurrent⟩ := map_eq_some_iff.1 hrun
  have hrun := Run.of_runGuarded hr
  exact ⟨r, (conserved_of_awake 4 _ hrun).1, hcurrent, hrun⟩

/-- A task is put to sleep while it is current, and the next reschedule lets go of it. -/
def sleepAndReschedule : List (SchedulerCall Nat) :=
  [.enqueue 0 10, .reschedule 5, .sleep 0 100, .reschedule 6]

theorem not_conserved_of_sleep :
    ¬ ∀ (capacity : Nat) (entries : TaskId → SchedulerEntry Nat) (calls : List (SchedulerCall Nat))
      (r : TaskRun Nat), (∀ task, (entries task).mStatus = .idle) →
      Run Steps (init capacity entries) calls r → r.enqueued.Nodup → r.Conserved := by
  intro hall
  have hrun : (sleepAndReschedule.foldlM step (init 4 fun _ => ⟨.idle, instantMin, 0⟩)).toOption.map
      (fun r => (r.enqueued, r.queue.status 0, r.queue.places)) = some ([0], .suspended, []) := by
    decide
  obtain ⟨r, hr, hresult⟩ := map_eq_some_iff.1 hrun
  simp only [Prod.mk.injEq] at hresult
  obtain ⟨henqueued, hstatus, hplaces⟩ := hresult
  have hconserved := hall 4 _ sleepAndReschedule r (fun _ => rfl) (Run.of_foldlM hr)
    (by simp [henqueued])
  have hcount := hconserved.held 0 (by simp [henqueued]) (by simp [hstatus, TaskStatus.alive])
  simp [hplaces] at hcount

end TaskRun

end BezOS
