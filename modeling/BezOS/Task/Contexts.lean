import BezOS.Task.SchedulerQueue

/-!
# Register contexts

Which machine state a task is resumed with. A reschedule saves the state it is given for the task
that stops, and `enqueue` sets the state a task starts with; between the two, and however the task
was put to sleep, woken or terminated in the meantime, nothing else writes it.
-/

namespace BezOS

open Lib SchedulerQueue Option List

inductive ContextEvent (S : Type)
  /-- A call of `enqueue`, with the state given. -/
  | enqueued (task : TaskId) (state : S)
  /-- A reschedule at which a task stopped being current, with the state passed. -/
  | stopped (task : TaskId) (state : S)
  /-- A reschedule that made a task current, with the state stored. -/
  | resumed (task : TaskId) (state : S)
  /-- A reschedule that kept the task, with the states passed and stored. -/
  | kept (task : TaskId) (passed stored : S)
  deriving DecidableEq

section History

variable {S : Type}

/-- The state a task has to be resumed with: the one at which it last stopped, or the one that was
given to `enqueue` if that came later. -/
def context (trace : List (ContextEvent S)) (task : TaskId) : Option S :=
  trace.foldl (fun state e =>
    match e with
    | .enqueued t s => if t = task then some s else state
    | .stopped t s => if t = task then some s else state
    | _ => state) none

def ContextEvent.allowed (past : List (ContextEvent S)) : ContextEvent S → Prop
  | .resumed task state => context past task = some state
  | .kept _ passed stored => stored = passed
  | _ => True

end History

structure ContextRun (S : Type) where
  queue : SchedulerQueue S
  trace : List (ContextEvent S)

namespace ContextRun

variable {S : Type}

def rescheduled (before after : Option TaskId) (passed stored : S) : List (ContextEvent S) :=
  match before, after with
  | none, none => []
  | none, some task => [.resumed task stored]
  | some current, none => [.stopped current passed]
  | some current, some task =>
      if current = task then [.kept task passed stored]
      else [.stopped current passed, .resumed task stored]

def step (r : ContextRun S) : SchedulerCall S → Except Fault (ContextRun S)
  | .enqueue task state => do
      let (_, q) ← r.queue.enqueue state task
      pure ⟨q, r.trace ++ [.enqueued task state]⟩
  | .reschedule state => do
      let (_, stored, q) ← r.queue.reschedule state
      pure ⟨q, r.trace ++ rescheduled r.queue.mCurrentTask q.mCurrentTask state stored⟩
  | call => do
      let q ← r.queue.serve call
      pure ⟨q, r.trace⟩

def Steps (r : ContextRun S) (call : SchedulerCall S) (r' : ContextRun S) : Prop :=
  r.step call = .ok r'

def init (capacity : Nat) (entries : TaskId → SchedulerEntry S) : ContextRun S :=
  ⟨.create capacity entries, []⟩

end ContextRun

/-! ## What the steps leave alone -/

namespace SchedulerQueue

variable {S : Type} {q q' : SchedulerQueue S} {task : TaskId} {tasks : List TaskId}

/-- The statuses apart, only tasks leave the ring. -/
structure Drops (q q' : SchedulerQueue S) : Prop where
  capacity : q'.capacity = q.capacity
  current : q'.mCurrentTask = q.mCurrentTask
  rescue : q'.mRescueTask = q.mRescueTask
  sleeping : q'.mSleepingTasks = q.mSleepingTasks
  state : ∀ task, (q'.entries task).mState = (q.entries task).mState

lemma Drops.refl (q : SchedulerQueue S) : Drops q q := ⟨rfl, rfl, rfl, rfl, fun _ => rfl⟩

lemma Drops.trans {q1 q2 q3 : SchedulerQueue S} (h : Drops q1 q2) (k : Drops q2 q3) :
    Drops q1 q3 where
  capacity := k.capacity.trans h.capacity
  current := k.current.trans h.current
  rescue := k.rescue.trans h.rescue
  sleeping := k.sleeping.trans h.sleeping
  state := fun task => (k.state task).trans (h.state task)

lemma mState_setEntry {e : SchedulerEntry S} (h : e.mState = (q.entries task).mState) (t : TaskId) :
    ((q.setEntry task e).entries t).mState = (q.entries t).mState := by
  by_cases ht : t = task
  · subst ht
    simpa [setEntry] using h
  · simp [setEntry, ht]

lemma drops_setStatus (q : SchedulerQueue S) (task : TaskId) (status : TaskStatus) :
    Drops q (q.setStatus task status) :=
  ⟨rfl, rfl, rfl, rfl, mState_setEntry rfl⟩

lemma drops_moveTaskToRunning {moved : Bool} (h : q.moveTaskToRunning task = .ok (moved, q')) :
    Drops q q' ∧ q'.mQueue = q.mQueue := by
  unfold moveTaskToRunning at h
  split at h <;> cases h
  · exact ⟨drops_setStatus .., rfl⟩
  · exact ⟨.refl q, rfl⟩
  · exact ⟨drops_setStatus .., rfl⟩

lemma drops_moveTaskToIdle {moved : Bool} (h : q.moveTaskToIdle task = .ok (moved, q')) :
    Drops q q' ∧ q'.mQueue = q.mQueue := by
  unfold moveTaskToIdle at h
  split at h <;> cases h
  · exact ⟨drops_setStatus .., rfl⟩
  · exact ⟨.refl q, rfl⟩
  · exact ⟨drops_setStatus .., rfl⟩

lemma drops_keepTaskRunning {keep : Bool} (h : q.keepTaskRunning task = .ok (keep, q')) :
    Drops q q' ∧ q'.mQueue = q.mQueue := by
  unfold keepTaskRunning at h
  split at h <;> cases h
  · exact ⟨.refl q, rfl⟩
  · exact ⟨.refl q, rfl⟩
  · exact ⟨drops_setStatus .., rfl⟩

lemma drops_takeNextTaskFrom {next : Option TaskId} (h : q.takeNextTaskFrom tasks = .ok (next, q'))
    :
    Drops q q' ∧ ∃ dropped, tasks = dropped ++ next.toList ++ q'.mQueue := by
  induction tasks generalizing q with
  | nil =>
    cases h
    exact ⟨⟨rfl, rfl, rfl, rfl, fun _ => rfl⟩, [], rfl⟩
  | cons task tasks ih =>
    obtain ⟨⟨moved, q1⟩, hmove, h⟩ := bind_eq_ok.1 h
    obtain ⟨hdrops, -⟩ := drops_moveTaskToRunning hmove
    cases moved with
    | true =>
      cases h
      exact ⟨⟨hdrops.capacity, hdrops.current, hdrops.rescue, hdrops.sleeping, hdrops.state⟩,
        [], rfl⟩
    | false =>
      obtain ⟨hdrops', dropped, hcut⟩ := ih h
      exact ⟨hdrops.trans hdrops', task :: dropped, by simp [hcut]⟩

lemma takeNextTaskFrom_none (h : q.takeNextTaskFrom tasks = .ok (none, q')) : q'.mQueue = [] := by
  induction tasks generalizing q with
  | nil =>
    cases h
    rfl
  | cons task tasks ih =>
    obtain ⟨⟨moved, q1⟩, -, h⟩ := bind_eq_ok.1 h
    cases moved with
    | true => cases h
    | false => exact ih h

lemma tryPush_eq_some (h : q.tryPush task = some q') :
    q.mQueue.length < q.capacity ∧ q' = { q with mQueue := q.mQueue ++ [task] } := by
  unfold tryPush at h
  split at h
  · exact ⟨‹_›, (Option.some.inj h).symm⟩
  · cases h

lemma tryPush_of_lt (task : TaskId) (h : q.mQueue.length < q.capacity) :
    q.tryPush task = some { q with mQueue := q.mQueue ++ [task] } :=
  if_pos h

lemma setCurrentTask_spec (h : q.setCurrentTask task = .ok q')
    (hroom : q.mQueue.length < q.capacity) :
    q.mCurrentTask ≠ some task ∧ q'.mCurrentTask = some task ∧ q'.capacity = q.capacity ∧
      q'.mRescueTask = q.mRescueTask ∧ q'.mSleepingTasks = q.mSleepingTasks ∧
      (∀ t, (q'.entries t).mState = (q.entries t).mState) ∧
      (q'.mQueue = q.mQueue ∨ ∃ current, q.mCurrentTask = some current ∧
        q'.mQueue = q.mQueue ++ [current]) := by
  unfold setCurrentTask at h
  split at h
  · cases h
  · rename_i hne
    split at h
    · cases h
    · refine ⟨hne, ?_⟩
      split at h
      · cases h
        exact ⟨rfl, rfl, rfl, rfl, fun _ => rfl, .inl rfl⟩
      · rename_i current hcurrent
        obtain ⟨⟨add, q1⟩, hmove, h⟩ := bind_eq_ok.1 h
        obtain ⟨hdrops, hqueue⟩ := drops_moveTaskToIdle hmove
        have hroom1 : q1.mQueue.length < q1.capacity := by rwa [hqueue, hdrops.capacity]
        cases add with
        | true =>
          simp only [if_true, tryPush_of_lt current hroom1] at h
          cases h
          exact ⟨rfl, hdrops.capacity, hdrops.rescue, hdrops.sleeping, hdrops.state,
            .inr ⟨current, hcurrent, by rw [hqueue]⟩⟩
        | false =>
          cases h
          exact ⟨rfl, hdrops.capacity, hdrops.rescue, hdrops.sleeping, hdrops.state,
            .inl hqueue⟩

def saved (q : SchedulerQueue S) (state : S) (task : TaskId) : S :=
  if q.mCurrentTask = some task then state else (q.entries task).mState

inductive Rescheduled (q : SchedulerQueue S) (passed stored : S) (q' : SchedulerQueue S) : Prop
  /-- There is no task. -/
  | idle : q.mCurrentTask = none → q'.mCurrentTask = none → q'.mQueue = [] →
      (∀ t, (q'.entries t).mState = (q.entries t).mState) → Rescheduled q passed stored q'
  /-- The current task goes on. -/
  | keep (current : TaskId) : q.mCurrentTask = some current → q'.mCurrentTask = some current →
      q'.mQueue = [] → stored = passed → (∀ t, (q'.entries t).mState = (q.entries t).mState) →
      Rescheduled q passed stored q'
  /-- The current task cannot go on, and there is no other. -/
  | stop (current : TaskId) : q.mCurrentTask = some current → q'.mCurrentTask = none →
      q'.mQueue = [] → (∀ t, (q'.entries t).mState = q.saved passed t) →
      Rescheduled q passed stored q'
  /-- Another task is made current. -/
  | switch (task : TaskId) : task ∈ q.mQueue → q.mCurrentTask ≠ some task →
      q'.mCurrentTask = some task → stored = (q.entries task).mState →
      (∀ t ∈ q'.mQueue, t ∈ q.mQueue ∨ q.mCurrentTask = some t) →
      q'.mQueue.length ≤ q.mQueue.length →
      (∀ t, (q'.entries t).mState = q.saved passed t) → Rescheduled q passed stored q'

lemma reschedule_cases {state stored : S} {result : ScheduleResult}
    (h : q.reschedule state = .ok (result, stored, q'))
    (hlength : q.mQueue.length ≤ q.capacity) :
    Rescheduled q state stored q' ∧ q'.capacity = q.capacity ∧ q'.mRescueTask = q.mRescueTask ∧
      q'.mSleepingTasks = q.mSleepingTasks := by
  obtain ⟨⟨next, q1⟩, htake, h⟩ := bind_eq_ok.1 h
  obtain ⟨hdrops, dropped, hcut⟩ := drops_takeNextTaskFrom htake
  cases next with
  | none =>
    have hempty : q1.mQueue = [] := takeNextTaskFrom_none htake
    cases hcurrent : q1.mCurrentTask with
    | none =>
      simp only [hcurrent] at h
      cases h
      exact ⟨.idle (hdrops.current.symm.trans hcurrent) hcurrent hempty hdrops.state,
        hdrops.capacity, hdrops.rescue, hdrops.sleeping⟩
    | some current =>
      simp only [hcurrent] at h
      obtain ⟨⟨keep, q2⟩, hkeep, h⟩ := bind_eq_ok.1 h
      obtain ⟨hdrops2, hqueue⟩ := drops_keepTaskRunning hkeep
      have hdrops := hdrops.trans hdrops2
      have hq := hdrops2.current.symm ▸ hdrops.current
      rw [hcurrent] at hq
      cases keep with
      | true =>
        cases h
        exact ⟨.keep current hq.symm (hdrops2.current.trans hcurrent) (hqueue.trans hempty) rfl
          hdrops.state, hdrops.capacity, hdrops.rescue, hdrops.sleeping⟩
      | false =>
        cases h
        refine ⟨.stop current hq.symm rfl (hqueue.trans hempty) ?_, hdrops.capacity,
          hdrops.rescue, hdrops.sleeping⟩
        intro t
        by_cases ht : t = current
        · subst ht
          simp [setState, setEntry, saved, hq]
        · simp [setState, setEntry, saved, ← hq, ht, Ne.symm ht, hdrops.state]
  | some task =>
    obtain ⟨q3, hset, h⟩ := bind_eq_ok.1 h
    cases h
    have hmem : task ∈ q.mQueue := by simp [hcut]
    have hshort : q1.mQueue.length < q.mQueue.length := by
      simp only [hcut, toList_some, length_append, length_singleton]
      omega
    -- the state is saved before `setCurrentTask` makes sure that another task is current
    obtain ⟨q2, hq2, hqueue, hcurrent, hcapacity, hrescue, hsleeping, hstate⟩ :
        ∃ q2 : SchedulerQueue S, q2.setCurrentTask task = .ok q' ∧ q2.mQueue = q1.mQueue ∧
          q2.mCurrentTask = q.mCurrentTask ∧ q2.capacity = q.capacity ∧
          q2.mRescueTask = q.mRescueTask ∧ q2.mSleepingTasks = q.mSleepingTasks ∧
          ∀ t, (q2.entries t).mState = q.saved state t := by
      refine ⟨_, hset, ?_⟩
      unfold saveCurrent
      cases hcurrent : q1.mCurrentTask with
      | none =>
        refine ⟨rfl, hdrops.current, hdrops.capacity, hdrops.rescue, hdrops.sleeping, ?_⟩
        intro t
        simp [saved, ← hdrops.current, hcurrent, hdrops.state]
      | some current =>
        refine ⟨rfl, hdrops.current, hdrops.capacity, hdrops.rescue, hdrops.sleeping, ?_⟩
        intro t
        by_cases ht : t = current
        · subst ht
          simp [setState, setEntry, saved, ← hdrops.current, hcurrent]
        · simp [setState, setEntry, saved, ← hdrops.current, hcurrent, ht, Ne.symm ht,
            hdrops.state]
    obtain ⟨hne, hcurrent', hcapacity', hrescue', hsleeping', hstate', hqueue'⟩ :=
      setCurrentTask_spec hq2 (by rw [hqueue, hcapacity]; omega)
    rw [hcurrent] at hne hqueue'
    rw [hqueue] at hqueue'
    refine ⟨.switch task hmem hne hcurrent' ?_ ?_ ?_ fun t => (hstate' t).trans (hstate t),
      hcapacity'.trans hcapacity, hrescue'.trans hrescue, hsleeping'.trans hsleeping⟩
    · rw [hstate', hstate, saved, if_neg hne]
    · intro t ht
      rcases hqueue' with hqueue' | ⟨current, hcurrent'', hqueue'⟩
      · rw [hqueue'] at ht
        exact .inl (by simp [hcut, ht])
      · rw [hqueue'] at ht
        simp only [mem_append, mem_singleton] at ht
        rcases ht with ht | rfl
        · exact .inl (by simp [hcut, ht])
        · exact .inr hcurrent''
    · rcases hqueue' with hqueue' | ⟨current, -, hqueue'⟩
      · rw [hqueue']
        omega
      · rw [hqueue', length_append, length_singleton]
        omega

lemma enqueue_spec {state : S} {status : OsStatus} (h : q.enqueue state task = .ok (status, q'))
    (hrescue : q.mRescueTask = none) :
    q'.capacity = q.capacity ∧ q'.mCurrentTask = q.mCurrentTask ∧ q'.mRescueTask = none ∧
      q'.mSleepingTasks = q.mSleepingTasks ∧ q'.entries = (q.setState task state).entries ∧
      (q'.mQueue = q.mQueue ∨ q.mQueue.length < q.capacity ∧ q'.mQueue = q.mQueue ++ [task]) := by
  simp only [enqueue, drainRescue, hrescue] at h
  split at h
  · cases h
  · split at h
    · cases h
      exact ⟨rfl, rfl, hrescue, rfl, rfl, .inl rfl⟩
    · rename_i q1 hpush
      cases h
      obtain ⟨hlt, rfl⟩ := tryPush_eq_some hpush
      exact ⟨rfl, rfl, hrescue, rfl, rfl, .inr ⟨hlt, rfl⟩⟩

end SchedulerQueue

/-! ## Runs -/

section Events

variable {S : Type} (trace : List (ContextEvent S)) (t task : TaskId) (s passed stored : S)

@[simp] lemma context_enqueued :
    context (trace ++ [.enqueued task s]) t = if task = t then some s else context trace t := by
  simp [context]

@[simp] lemma context_stopped :
    context (trace ++ [.stopped task s]) t = if task = t then some s else context trace t := by
  simp [context]

@[simp] lemma context_resumed : context (trace ++ [.resumed task s]) t = context trace t := by
  simp [context]

@[simp] lemma context_kept : context (trace ++ [.kept task passed stored]) t = context trace t := by
  simp [context]

end Events

namespace ContextRun

variable {S : Type}

/-- The tasks held have contexts, and all but the current one have them in their entries. -/
structure Tracks (q : SchedulerQueue S) (trace : List (ContextEvent S)) : Prop where
  queued : ∀ task ∈ q.mQueue, (context trace task).isSome
  current : ∀ task, q.mCurrentTask = some task → (context trace task).isSome
  state : ∀ task s, q.mCurrentTask ≠ some task → context trace task = some s →
    (q.entries task).mState = s
  history : Justified ContextEvent.allowed trace

structure Invariant (r : ContextRun S) : Prop extends Tracks r.queue r.trace where
  rescue : r.queue.mRescueTask = none
  sleeping : r.queue.mSleepingTasks = []
  length : r.queue.mQueue.length ≤ r.queue.capacity

variable {r r' : ContextRun S} {state : S} {task : TaskId}

section

variable (h : r.Invariant)

include h

lemma Invariant.enqueue (hstep : r.step (.enqueue task state) = .ok r') :
    r'.Invariant := by
  obtain ⟨⟨status, q⟩, henqueue, hr'⟩ := bind_eq_ok.1 hstep
  cases hr'
  obtain ⟨hcapacity, hcurrent, hrescue, hsleeping, hentries, hqueue⟩ :=
    SchedulerQueue.enqueue_spec henqueue h.rescue
  refine ⟨⟨?_, ?_, ?_, h.history.snoc trivial⟩, hrescue, hsleeping.trans h.sleeping, ?_⟩
  rotate_left 3
  · have hlength := h.length
    rcases hqueue with hqueue | ⟨hlt, hqueue⟩ <;> simp only [hqueue, hcapacity]
    · exact hlength
    · simpa using Nat.succ_le_of_lt hlt
  · intro t ht
    rw [context_enqueued]
    split
    · rfl
    · rename_i hne
      rcases hqueue with hqueue | ⟨-, hqueue⟩
      · exact h.queued t (hqueue ▸ ht)
      · rw [hqueue, mem_append, mem_singleton] at ht
        exact h.queued t (ht.resolve_right (Ne.symm hne))
  · intro t ht
    rw [context_enqueued]
    split
    · rfl
    · exact h.current t (hcurrent ▸ ht)
  · intro t s ht hs
    simp only [hcurrent] at ht
    rw [hentries]
    rw [context_enqueued] at hs
    by_cases heq : task = t
    · subst heq
      simpa [SchedulerQueue.setState, SchedulerQueue.setEntry] using hs
    · rw [if_neg heq] at hs
      simpa [SchedulerQueue.setState, SchedulerQueue.setEntry, Ne.symm heq] using h.state t s ht hs

lemma Invariant.state_saved {current : TaskId} {s : S}
    (hcurrent : r.queue.mCurrentTask = some current)
    (hs : context (r.trace ++ [.stopped current state]) task = some s) :
    r.queue.saved state task = s := by
  rw [context_stopped] at hs
  by_cases heq : current = task
  · subst heq
    rw [if_pos rfl] at hs
    rw [SchedulerQueue.saved, if_pos hcurrent]
    exact Option.some.inj hs
  · rw [if_neg heq] at hs
    have hne : r.queue.mCurrentTask ≠ some task := by simp [hcurrent, heq]
    rw [SchedulerQueue.saved, if_neg hne]
    exact h.state task s hne hs

lemma Invariant.reschedule (hstep : r.step (.reschedule state) = .ok r') :
    r'.Invariant := by
  obtain ⟨⟨result, stored, q⟩, hreschedule, hr'⟩ := bind_eq_ok.1 hstep
  cases hr'
  obtain ⟨hcases, hcapacity, hrescue, hsleeping⟩ :=
    SchedulerQueue.reschedule_cases hreschedule h.length
  have hlength := h.length
  have hstopped : ∀ {current task}, (context r.trace task).isSome →
      (context (r.trace ++ [.stopped current state]) task).isSome := by
    intro current task hsome
    rw [context_stopped]
    split
    · rfl
    · exact hsome
  refine ⟨?_, hrescue.trans h.rescue, hsleeping.trans h.sleeping, ?_⟩
  rotate_left
  · cases hcases with
    | idle _ _ hqueue _ => simp [hqueue]
    | keep _ _ _ hqueue _ _ => simp [hqueue]
    | stop _ _ _ hqueue _ => simp [hqueue]
    | switch _ _ _ _ _ _ hle _ =>
      simp only [hcapacity]
      omega
  · -- the history grows by what the tasks before and after the call say
    cases hcases with
    | idle hbefore hafter hqueue hstate =>
      simp only [hbefore, hafter, rescheduled, append_nil]
      refine ⟨by simp [hqueue], by simp [hafter], ?_, h.history⟩
      intro t s _ hs
      rw [hstate]
      exact h.state t s (by simp [hbefore]) hs
    | keep current hbefore hafter hqueue hstored hstate =>
      simp only [hbefore, hafter, rescheduled, if_true]
      refine ⟨by simp [hqueue], ?_, ?_, h.history.snoc hstored⟩
      · intro t ht
        rw [context_kept]
        exact h.current t (hbefore.trans (hafter.symm.trans ht))
      · intro t s ht hs
        rw [context_kept] at hs
        rw [hstate]
        exact h.state t s (hbefore.symm ▸ hafter.symm ▸ ht) hs
    | stop current hbefore hafter hqueue hstate =>
      simp only [hbefore, hafter, rescheduled]
      refine ⟨by simp [hqueue], by simp [hafter], ?_, h.history.snoc trivial⟩
      intro t s _ hs
      rw [hstate]
      exact h.state_saved hbefore hs
    | switch task hmem hne hafter hstored hqueue _ hstate =>
      have hmemState : ∀ s, context r.trace task = some s → stored = s :=
        fun s hs => hstored.trans (h.state task s hne hs)
      obtain ⟨s0, hs0⟩ := isSome_iff_exists.1 (h.queued task hmem)
      obtain rfl := hmemState s0 hs0
      cases hbefore : r.queue.mCurrentTask with
      | none =>
        simp only [hafter, rescheduled]
        refine ⟨?_, ?_, ?_, h.history.snoc hs0⟩
        · intro t ht
          rw [context_resumed]
          exact h.queued t ((hqueue t ht).resolve_right (by simp [hbefore]))
        · intro t ht
          rw [context_resumed]
          obtain rfl : task = t := Option.some.inj (hafter.symm.trans ht)
          simp [hs0]
        · intro t s _ hs
          rw [context_resumed] at hs
          rw [hstate, SchedulerQueue.saved, if_neg (by simp [hbefore])]
          exact h.state t s (by simp [hbefore]) hs
      | some current =>
        have hcurrent : current ≠ task := by
          rintro rfl
          exact hne hbefore
        have hevents : r.trace ++ rescheduled (some current) (some task) state stored =
            r.trace ++ [.stopped current state] ++ [.resumed task stored] := by
          simp [rescheduled, hcurrent]
        have hresumed : context (r.trace ++ [.stopped current state]) task = some stored := by
          simp [hcurrent, hs0]
        have hstop : Justified ContextEvent.allowed (r.trace ++ [.stopped current state]) :=
          h.history.snoc trivial
        simp only [hafter, hevents]
        refine ⟨?_, ?_, ?_, hstop.snoc hresumed⟩
        · intro t ht
          rw [context_resumed]
          refine hstopped ?_
          rcases hqueue t ht with ht | ht
          · exact h.queued t ht
          · exact h.current t ht
        · intro t ht
          rw [context_resumed]
          obtain rfl : task = t := Option.some.inj (hafter.symm.trans ht)
          simp [hresumed]
        · intro t s _ hs
          rw [context_resumed] at hs
          rw [hstate]
          exact h.state_saved hbefore hs

lemma Invariant.of_setEntry {e : SchedulerEntry S} (he : e.mState = (r.queue.entries task).mState) :
    Invariant ⟨r.queue.setEntry task e, r.trace⟩ where
  rescue := h.rescue
  sleeping := h.sleeping
  length := h.length
  queued := h.queued
  current := h.current
  state := by
    intro t s ht hs
    rw [SchedulerQueue.mState_setEntry he]
    exact h.state t s ht hs
  history := h.history

end

lemma mState_sleep (e : SchedulerEntry S) (timeout : Int) :
    (e.sleep timeout).2.mState = e.mState := by
  unfold SchedulerEntry.sleep
  split <;> rfl

lemma mState_terminate (e : SchedulerEntry S) : e.terminate.mState = e.mState := by
  unfold SchedulerEntry.terminate
  split <;> rfl

lemma Invariant.step {call : SchedulerCall S} (h : r.Invariant)
    (hstep : r.Steps call r') : r'.Invariant := by
  cases call with
  | enqueue task state => exact h.enqueue hstep
  | reschedule state => exact h.reschedule hstep
  | sleep task timeout =>
    cases hstep
    exact h.of_setEntry (mState_sleep _ _)
  | wake task =>
    cases hstep
    exact h.of_setEntry rfl
  | terminate task =>
    cases hstep
    exact h.of_setEntry (mState_terminate _)
  | wakeSleepingTasks now =>
    -- no call puts a task into the list
    obtain ⟨q, hserve, hr'⟩ := bind_eq_ok.1 hstep
    cases hr'
    simp only [serve, SchedulerQueue.wakeSleepingTasks, h.sleeping,
      wakeSleepingTasksFrom] at hserve
    cases hserve
    exact ⟨⟨h.queued, h.current, h.state, h.history⟩, h.rescue, rfl, h.length⟩

lemma Invariant.init (capacity : Nat) (entries : TaskId → SchedulerEntry S) :
    (init capacity entries).Invariant where
  queued := by simp [ContextRun.init, create]
  current := by simp [ContextRun.init, create]
  state := by simp [ContextRun.init, context]
  history := .nil
  rescue := rfl
  sleeping := rfl
  length := Nat.zero_le _

/-- Whatever was called before, a reschedule that makes a task current stores its context, and one
that keeps the task stores what it was passed. -/
theorem contexts_of_run (capacity : Nat) (entries : TaskId → SchedulerEntry S)
    {calls : List (SchedulerCall S)} {r : ContextRun S}
    (h : Run Steps (init capacity entries) calls r) :
    Justified ContextEvent.allowed r.trace := by
  have hinv : r.Invariant :=
    h.invariant (fun _ _ _ hs hstep => hs.step hstep) (.init capacity entries)
  exact hinv.history

def takeTurns : List (SchedulerCall Nat) :=
  [.enqueue 0 10, .enqueue 1 20, .reschedule 5, .reschedule 6, .reschedule 7]

def idleEntries (_ : TaskId) : SchedulerEntry Nat := ⟨.idle, instantMin, 0⟩

theorem contexts_of_takeTurns : ∃ r : ContextRun Nat,
    Run Steps (init 4 idleEntries) takeTurns r ∧ Justified ContextEvent.allowed r.trace ∧
    r.trace = [.enqueued 0 10, .enqueued 1 20, .resumed 0 10, .stopped 0 6, .resumed 1 20,
      .stopped 1 7, .resumed 0 6] := by
  have hrun : (takeTurns.foldlM step (init 4 idleEntries)).toOption.map ContextRun.trace =
      some [.enqueued 0 10, .enqueued 1 20, .resumed 0 10, .stopped 0 6, .resumed 1 20,
        .stopped 1 7, .resumed 0 6] := by decide
  obtain ⟨r, hr, htrace⟩ := map_eq_some_iff.1 hrun
  have hrun := Run.of_foldlM hr
  exact ⟨r, hrun, contexts_of_run 4 idleEntries hrun, htrace⟩

/-- The context as the task left it: what was given to `enqueue` counts only until the task has
run. -/
def leftContext (trace : List (ContextEvent S)) (task : TaskId) : Option S :=
  let stops := trace.filterMap fun
    | .stopped t s => if t = task then some s else none
    | _ => none
  let starts := trace.filterMap fun
    | .enqueued t s => if t = task then some s else none
    | _ => none
  stops.getLast?.or starts.getLast?

def leavesContext (past : List (ContextEvent S)) : ContextEvent S → Prop
  | .resumed task state => leftContext past task = some state
  | .kept _ passed stored => stored = passed
  | _ => True

/-- A task that has run and waits in the ring is idle, and `enqueue` takes it again. -/
def enqueueAgain : List (SchedulerCall Nat) :=
  [.enqueue 0 10, .enqueue 1 20, .reschedule 5, .reschedule 6, .enqueue 0 30, .reschedule 7]

theorem not_leavesContext_of_enqueueAgain :
    ¬ ∀ (capacity : Nat) (entries : TaskId → SchedulerEntry Nat) (calls : List (SchedulerCall Nat))
      (r : ContextRun Nat), Run Steps (init capacity entries) calls r →
      Justified leavesContext r.trace := by
  intro hall
  have hrun : (enqueueAgain.foldlM step (init 4 idleEntries)).toOption.map ContextRun.trace =
      some ([.enqueued 0 10, .enqueued 1 20, .resumed 0 10, .stopped 0 6, .resumed 1 20,
        .enqueued 0 30, .stopped 1 7] ++ [.resumed 0 30]) := by decide
  obtain ⟨r, hr, htrace⟩ := map_eq_some_iff.1 hrun
  have hresumed := hall 4 idleEntries enqueueAgain r (Run.of_foldlM hr) _ _ [] htrace
  revert hresumed
  simp only [leavesContext]
  decide

end ContextRun

end BezOS
