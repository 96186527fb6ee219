import BezOS.System.RunsOnce

/-!
# What a tick wakes

A tick is for the threads whose time has come: those with an entry in the sleep queue or in the wait
queue of an object that is due. The sleep queue is a heap with its latest entry on top, and the loop
stops at the first entry that is not due; the entries of waiters never enter the queue of timeouts,
which is the one the tick looks at.
-/

namespace BezOS

open Lib List Option

namespace GlobalSchedule

variable {g h : GlobalSchedule} {t u : ThreadId} {now fuel : Nat}

/-! ## Due threads -/

/-- The thread sleeps until `wake`. -/
def Sleeps (g : GlobalSchedule) (t : ThreadId) (wake : Nat) : Prop :=
  ⟨wake, t⟩ ∈ g.mSleepQueue

/-- The thread waits for an object until `timeout`. -/
def Waits (g : GlobalSchedule) (t : ThreadId) (timeout : Nat) : Prop :=
  ∃ q ∈ g.mWaitQueue, ∃ entry ∈ q.2, entry.thread = t ∧ entry.timeout = timeout

def Asleep (g : GlobalSchedule) (t : ThreadId) : Prop :=
  g.alive t = true ∧ g.state t = .suspended
  deriving Decidable

/-- A tick at `now` is to resume the thread. -/
def Due (g : GlobalSchedule) (now : Nat) (t : ThreadId) : Prop :=
  g.Asleep t ∧ ∃ deadline ≤ now, g.Sleeps t deadline ∨ g.Waits t deadline

/-- A tick resumes the threads that are due and no others, and every deadline after `now` is
kept. -/
structure WakesDue (g : GlobalSchedule) (now : Nat) : Prop where
  resumed : ∀ t, g.Due now t → (g.tick now).state t = .running
  others : ∀ t, ¬g.Due now t → (g.tick now).state t = g.state t
  sleeps : ∀ t, ∀ wake > now, (g.tick now).Sleeps t wake ↔ g.Sleeps t wake
  waits : ∀ t, ∀ timeout > now, (g.tick now).Waits t timeout ↔ g.Waits t timeout

/-- No thread is due; or the whole sleep queue is due, and a thread that is due as a waiter is also
in the sleep queue. -/
def Served (g : GlobalSchedule) (now : Nat) : Prop :=
  (∀ t, ¬g.Due now t) ∨
    (∀ e ∈ g.mSleepQueue, e.wake ≤ now) ∧ ∀ t, g.Due now t → ∃ wake, g.Sleeps t wake

/-! ## What scheduling keeps -/

/-- Everything but the processors and the suspended threads. -/
structure SameDeadlines (g h : GlobalSchedule) : Prop where
  state : h.state = g.state
  alive : h.alive = g.alive
  sleep : h.mSleepQueue = g.mSleepQueue
  wait : h.mWaitQueue = g.mWaitQueue
  timeout : h.mTimeoutQueue = g.mTimeoutQueue

lemma SameDeadlines.refl (g : GlobalSchedule) : SameDeadlines g g := ⟨rfl, rfl, rfl, rfl, rfl⟩

lemma SameDeadlines.trans {k : GlobalSchedule} (hgh : SameDeadlines g h)
    (hhk : SameDeadlines h k) : SameDeadlines g k :=
  ⟨hhk.state.trans hgh.state, hhk.alive.trans hgh.alive, hhk.sleep.trans hgh.sleep,
    hhk.wait.trans hgh.wait, hhk.timeout.trans hgh.timeout⟩

lemma addThreadTo_deadlines {i : Nat} (hadd : g.addThreadTo t i = some h) :
    SameDeadlines g h := by
  rw [addThreadTo] at hadd
  cases hi : g.mCpuLocal[i]? with
  | none =>
    rw [hi] at hadd
    cases hadd
  | some entry =>
    simp only [hi, ite_none_right_eq_some, some_inj] at hadd
    obtain ⟨-, rfl⟩ := hadd
    exact ⟨rfl, rfl, rfl, rfl, rfl⟩

lemma scheduleThread_deadlines : SameDeadlines g (g.scheduleThread t).2 := by
  rw [scheduleThread]
  split
  · exact SameDeadlines.refl g
  · cases hadd : g.addThreadTo t g.leastLoaded with
    | some h => exact addThreadTo_deadlines hadd
    | none =>
      cases hfind : (range g.mCpuLocal.length).findSome? (g.addThreadTo t) with
      | none => exact SameDeadlines.refl g
      | some h =>
        obtain ⟨i, -, hadd⟩ := exists_of_findSome?_eq_some hfind
        exact addThreadTo_deadlines hadd

lemma scheduleQueued_deadlines (list : List ThreadId) :
    SameDeadlines g (list.foldl (fun g t =>
      if g.alive t ∧ g.state t = .queued then (g.scheduleThread t).2 else g) g) := by
  induction list generalizing g with
  | nil => exact SameDeadlines.refl g
  | cons t list ih =>
    rw [foldl_cons]
    split
    · exact scheduleThread_deadlines.trans ih
    · exact ih

/-! ## The sleep queue -/

/-- The thread runs if it was suspended. -/
def woken (g : GlobalSchedule) (t : ThreadId) : GlobalSchedule :=
  if g.state t = .suspended then g.setState t .running else g

lemma woken_state :
    (g.woken t).state u = if u = t ∧ g.state u = .suspended then .running else g.state u := by
  by_cases hs : g.state t = .suspended
  · rw [woken, if_pos hs]
    change Function.update g.state t .running u = _
    rw [Function.update_apply]
    by_cases hut : u = t
    · subst hut
      rw [if_pos rfl, if_pos ⟨rfl, hs⟩]
    · rw [if_neg hut, if_neg fun h => hut h.1]
  · rw [woken, if_neg hs, if_neg]
    rintro ⟨rfl, hu⟩
    exact hs hu

lemma woken_same : (g.woken t).alive = g.alive ∧ (g.woken t).mSleepQueue = g.mSleepQueue ∧
    (g.woken t).mWaitQueue = g.mWaitQueue ∧ (g.woken t).mTimeoutQueue = g.mTimeoutQueue := by
  rw [woken]
  split <;> exact ⟨rfl, rfl, rfl, rfl⟩

lemma resumeUnlocked_deadlines : SameDeadlines (g.woken t) (g.resumeUnlocked t).2 := by
  rw [resumeUnlocked, woken]
  cases hs : g.state t with
  | suspended =>
    rw [if_pos rfl]
    simp only [doResumeUnlocked]
    split
    · have hsame := scheduleThread_deadlines (t := t) (g := { g.setState t .running with
        mSuspendSet := (g.setState t .running).mSuspendSet.erase t })
      exact ⟨hsame.state, hsame.alive, hsame.sleep, hsame.wait, hsame.timeout⟩
    · exact SameDeadlines.refl _
  | _ =>
    rw [if_neg (by simp)]
    exact SameDeadlines.refl g

/-- A round of `resumeSleepQueue` on an entry that is due. -/
def resumeEntry (g : GlobalSchedule) (entry : SleepEntry) : GlobalSchedule :=
  let g := { g with mSleepQueue := g.mSleepQueue.erase entry }
  if g.alive entry.thread then (g.resumeUnlocked entry.thread).2 else g

lemma resumeSleepQueue_cons {entry : SleepEntry}
    (htop : queueTop SleepEntry.wake g.mSleepQueue = some entry) (hdue : entry.wake ≤ now) :
    resumeSleepQueue now (fuel + 1) g = resumeSleepQueue now fuel (g.resumeEntry entry) := by
  rw [resumeSleepQueue, htop]
  simp only [if_neg (show ¬entry.wake > now by omega)]
  rfl

lemma resumeEntry_same (g : GlobalSchedule) (entry : SleepEntry) :
    (g.resumeEntry entry).alive = g.alive ∧
      (g.resumeEntry entry).mSleepQueue = g.mSleepQueue.erase entry ∧
      (g.resumeEntry entry).mWaitQueue = g.mWaitQueue ∧
      (g.resumeEntry entry).mTimeoutQueue = g.mTimeoutQueue := by
  simp only [resumeEntry]
  split
  · have hsame := resumeUnlocked_deadlines
      (g := { g with mSleepQueue := g.mSleepQueue.erase entry }) (t := entry.thread)
    obtain ⟨halive, hsleep, hwait, htimeout⟩ :=
      woken_same
    exact ⟨hsame.alive.trans halive, hsame.sleep.trans hsleep, hsame.wait.trans hwait,
      hsame.timeout.trans htimeout⟩
  · exact ⟨rfl, rfl, rfl, rfl⟩

lemma resumeEntry_state (g : GlobalSchedule) (entry : SleepEntry) (u : ThreadId) :
    (g.resumeEntry entry).state u =
      if u = entry.thread ∧ g.Asleep u then .running else g.state u := by
  simp only [resumeEntry]
  by_cases halive : g.alive entry.thread = true
  · rw [if_pos halive, resumeUnlocked_deadlines.state, woken_state]
    by_cases hu : u = entry.thread
    · subst hu
      simp [Asleep, halive]
    · simp [hu]
  · rw [if_neg halive, if_neg]
    rintro ⟨rfl, hasleep⟩
    exact halive hasleep.1

lemma resumeEntry_asleep (g : GlobalSchedule) (entry : SleepEntry) (u : ThreadId) :
    (g.resumeEntry entry).Asleep u ↔ g.Asleep u ∧ u ≠ entry.thread := by
  rw [Asleep, (resumeEntry_same g entry).1, resumeEntry_state]
  by_cases hu : u = entry.thread ∧ g.Asleep u
  · rw [if_pos hu]
    simp [hu.1]
  · rw [if_neg hu]
    constructor
    · intro hasleep
      exact ⟨hasleep, fun heq => hu ⟨heq, hasleep⟩⟩
    · exact fun h => h.1

lemma resumeSleepQueue_of_due (hdue : ∀ e ∈ g.mSleepQueue, e.wake ≤ now)
    (hfuel : g.mSleepQueue.length ≤ fuel) :
    (resumeSleepQueue now fuel g).mSleepQueue = [] ∧ ∀ u,
      (resumeSleepQueue now fuel g).state u =
        if g.Asleep u ∧ ∃ e ∈ g.mSleepQueue, e.thread = u then .running else g.state u := by
  induction fuel generalizing g with
  | zero =>
    have hnil : g.mSleepQueue = [] := length_eq_zero_iff.1 (Nat.le_zero.1 hfuel)
    exact ⟨hnil, fun u => by simp [resumeSleepQueue, hnil]⟩
  | succ fuel ih =>
    cases htop : queueTop SleepEntry.wake g.mSleepQueue with
    | none =>
      have hnil := queueTop_eq_none htop
      rw [resumeSleepQueue, htop]
      exact ⟨hnil, fun u => by simp [hnil]⟩
    | some entry =>
      have hmem := (queueTop_spec htop).1
      rw [resumeSleepQueue_cons htop (hdue entry hmem)]
      have hsleep := (resumeEntry_same g entry).2.1
      have hlength := length_erase_of_mem hmem
      obtain ⟨hempty, hstate⟩ := ih
        (by rw [hsleep]; exact fun e he => hdue e (mem_of_mem_erase he))
        (by rw [hsleep]; omega)
      refine ⟨hempty, fun u => ?_⟩
      simp only [hstate, resumeEntry_asleep, resumeEntry_state, hsleep]
      by_cases hu : u = entry.thread
      · -- the thread of this entry runs, and the entries that are left do nothing to it
        have hentry : ∃ e ∈ g.mSleepQueue, e.thread = u := ⟨entry, hmem, hu.symm⟩
        by_cases hasleep : g.Asleep u
        · rw [if_neg fun h => h.1.2 hu, if_pos ⟨hu, hasleep⟩, if_pos ⟨hasleep, hentry⟩]
        · rw [if_neg fun h => hasleep h.1.1, if_neg fun h => hasleep h.2,
            if_neg fun h => hasleep h.1]
      · have hothers : (∃ e ∈ g.mSleepQueue.erase entry, e.thread = u) ↔
            ∃ e ∈ g.mSleepQueue, e.thread = u := by
          constructor
          · rintro ⟨e, he, rfl⟩
            exact ⟨e, mem_of_mem_erase he, rfl⟩
          · rintro ⟨e, he, rfl⟩
            have hne : e ≠ entry := fun heq => hu (heq ▸ rfl)
            exact ⟨e, (mem_erase_of_ne hne).2 he, rfl⟩
        simp [hothers, hu, not_false_eq_true, and_true, false_and, if_false]

lemma resumeSleepQueue_same :
    (resumeSleepQueue now fuel g).alive = g.alive ∧
      (resumeSleepQueue now fuel g).mWaitQueue = g.mWaitQueue ∧
      (resumeSleepQueue now fuel g).mTimeoutQueue = g.mTimeoutQueue := by
  induction fuel generalizing g with
  | zero => exact ⟨rfl, rfl, rfl⟩
  | succ fuel ih =>
    cases htop : queueTop SleepEntry.wake g.mSleepQueue with
    | none =>
      rw [resumeSleepQueue, htop]
      exact ⟨rfl, rfl, rfl⟩
    | some entry =>
      by_cases hdue : entry.wake ≤ now
      · rw [resumeSleepQueue_cons htop hdue]
        obtain ⟨halive, -, hwait, htimeout⟩ := resumeEntry_same g entry
        obtain ⟨halive', hwait', htimeout'⟩ := ih
        exact ⟨halive'.trans halive, hwait'.trans hwait, htimeout'.trans htimeout⟩
      · rw [resumeSleepQueue_of_late ⟨entry, (queueTop_spec htop).1, by omega⟩]
        exact ⟨rfl, rfl, rfl⟩

/-! ## Ticks -/

section

variable (htimeout : g.mTimeoutQueue = [])

include htimeout

lemma tick_deadlines :
    SameDeadlines (resumeSleepQueue now g.mSleepQueue.length g) (g.tick now) := by
  have hempty : (resumeSleepQueue now g.mSleepQueue.length g).mTimeoutQueue = [] :=
    resumeSleepQueue_same.2.2.trans htimeout
  rw [tick]
  simp only [resumeWaitQueue_of_empty hempty]
  have hsame := scheduleQueued_deadlines (g := resumeSleepQueue now g.mSleepQueue.length g)
    (resumeSleepQueue now g.mSleepQueue.length g).mSuspendSet
  exact ⟨hsame.state, hsame.alive, hsame.sleep, hsame.wait, hsame.timeout⟩

lemma tick_waits {deadline : Nat} :
    (g.tick now).Waits t deadline ↔ g.Waits t deadline := by
  have hwait := (@tick_deadlines g now htimeout).wait.trans resumeSleepQueue_same.2.1
  rw [Waits, Waits, hwait]

lemma tick_of_late (hlate : ∃ e ∈ g.mSleepQueue, now < e.wake) :
    (g.tick now).state = g.state ∧ (g.tick now).mSleepQueue = g.mSleepQueue := by
  have hsame := @tick_deadlines g now htimeout
  rw [resumeSleepQueue_of_late hlate] at hsame
  exact ⟨hsame.state, hsame.sleep⟩

lemma tick_of_due (hdue : ∀ e ∈ g.mSleepQueue, e.wake ≤ now) :
    (g.tick now).mSleepQueue = [] ∧ ∀ u, (g.tick now).state u =
      if g.Asleep u ∧ ∃ e ∈ g.mSleepQueue, e.thread = u then .running else g.state u := by
  have hsame := @tick_deadlines g now htimeout
  obtain ⟨hempty, hstate⟩ := resumeSleepQueue_of_due hdue (Nat.le_refl g.mSleepQueue.length)
  exact ⟨hsame.sleep.trans hempty, fun u => (congrFun hsame.state u).trans (hstate u)⟩

end

lemma exists_sleeps : (∃ e ∈ g.mSleepQueue, e.thread = t) ↔ ∃ wake, g.Sleeps t wake := by
  constructor
  · rintro ⟨e, he, rfl⟩
    exact ⟨e.wake, he⟩
  · rintro ⟨wake, hsleeps⟩
    exact ⟨⟨wake, t⟩, hsleeps, rfl⟩

lemma due_of_sleeps (hdue : ∀ e ∈ g.mSleepQueue, e.wake ≤ now) (hasleep : g.Asleep t)
    (hsleeps : ∃ wake, g.Sleeps t wake) : g.Due now t := by
  obtain ⟨wake, hwake⟩ := hsleeps
  exact ⟨hasleep, wake, hdue _ hwake, .inl hwake⟩

section

variable (htimeout : g.mTimeoutQueue = [])

include htimeout

lemma wakesDue_of_due (hdue : ∀ e ∈ g.mSleepQueue, e.wake ≤ now)
    (hserved : ∀ t, g.Due now t → ∃ wake, g.Sleeps t wake) : g.WakesDue now := by
  obtain ⟨hempty, hstate⟩ := tick_of_due htimeout hdue
  refine ⟨fun t ht => ?_, fun t ht => ?_, fun t wake hwake => ?_, fun t timeout _ =>
    tick_waits htimeout⟩
  · rw [hstate, if_pos ⟨ht.1, exists_sleeps.2 (hserved t ht)⟩]
  · rw [hstate, if_neg]
    rintro ⟨hasleep, hsleeps⟩
    exact ht (due_of_sleeps hdue hasleep (exists_sleeps.1 hsleeps))
  · rw [Sleeps, Sleeps, hempty]
    refine ⟨fun h => absurd h not_mem_nil, fun h => ?_⟩
    have hle : wake ≤ now := hdue _ h
    omega

lemma wakesDue_of_served (hserved : g.Served now) :
    g.WakesDue now := by
  by_cases hdue : ∀ e ∈ g.mSleepQueue, e.wake ≤ now
  · refine wakesDue_of_due htimeout hdue fun t ht => ?_
    rcases hserved with hnone | ⟨-, hsleep⟩
    · exact absurd ht (hnone t)
    · exact hsleep t ht
  · have hnone : ∀ t, ¬g.Due now t := hserved.resolve_right fun h => hdue h.1
    obtain ⟨hstate, hsleep⟩ := tick_of_late htimeout (by simpa using hdue)
    refine ⟨fun t ht => absurd ht (hnone t), fun t _ => congrFun hstate t, fun t wake _ => ?_,
      fun t timeout _ => tick_waits htimeout⟩
    rw [Sleeps, Sleeps, hsleep]

lemma served_of_wakesDue (hwakes : g.WakesDue now) :
    g.Served now := by
  by_cases hdue : ∀ e ∈ g.mSleepQueue, e.wake ≤ now
  · refine .inr ⟨hdue, fun t ht => ?_⟩
    have hrunning := hwakes.resumed t ht
    rw [(tick_of_due htimeout hdue).2] at hrunning
    by_contra hsleeps
    rw [if_neg fun h => hsleeps (exists_sleeps.1 h.2), ht.1.2] at hrunning
    cases hrunning
  · left
    intro t ht
    have hrunning := hwakes.resumed t ht
    rw [(tick_of_late htimeout (by simpa using hdue)).1, ht.1.2] at hrunning
    cases hrunning

end

/-! ## Runs -/

/-- No call puts an entry into the queue of timeouts. -/
def NoTimeouts (g : GlobalSchedule) : Prop := g.mTimeoutQueue = []

lemma noTimeouts_kept : KeptByStates NoTimeouts where
  setState _ _ _ hg := hg
  doSuspendUnlocked _ _ hg := hg

lemma NoTimeouts.resumeUnlocked (hg : g.NoTimeouts) (t : ThreadId) :
    (g.resumeUnlocked t).2.NoTimeouts :=
  (resumeUnlocked_deadlines.timeout.trans woken_same.2.2.2).trans hg

lemma NoTimeouts.step {call : ScheduleCall} (hg : g.NoTimeouts) (hstep : g.step call = .ok h) :
    h.NoTimeouts := by
  cases call with
  | initCpuSchedule cpu tasks =>
    cases hstep
    rw [GlobalSchedule.initCpuSchedule]
    split <;> exact hg
  | addThread t =>
    cases hstep
    exact scheduleThread_deadlines.timeout.trans hg
  | startThread t =>
    cases hstep
    exact noTimeouts_kept.startThread hg t
  | stopThread t =>
    cases hstep
    exact noTimeouts_kept.stopThread hg t
  | reschedule i =>
    change g.reschedule i = .ok h at hstep
    rw [GlobalSchedule.reschedule] at hstep
    cases hi : g.mCpuLocal[i]? with
    | none =>
      rw [hi] at hstep
      cases hstep
    | some entry =>
      simp only [hi, bind_eq_ok] at hstep
      obtain ⟨⟨cpu, g1⟩, hcpu, hstep⟩ := hstep
      have hg1 := noTimeouts_kept.rescheduleCpu hg hcpu
      cases hstep
      exact hg1
  | suspend t =>
    cases hstep
    exact noTimeouts_kept.suspendUnlocked hg t
  | resume t =>
    cases hstep
    exact hg.resumeUnlocked t
  | sleep t wake =>
    cases hstep
    have hsuspend := noTimeouts_kept.suspendUnlocked hg t
    rw [GlobalSchedule.sleep]
    split
    all_goals
      rename_i heq
      rw [heq] at hsuspend
      exact hsuspend
  | wait t object timeout =>
    cases hstep
    have hsuspend := noTimeouts_kept.suspendUnlocked hg t
    rw [GlobalSchedule.wait]
    split
    all_goals
      rename_i heq
      rw [heq] at hsuspend
      exact hsuspend
  | signal object =>
    change (g.signal object).map (·.2) = .ok h at hstep
    rw [GlobalSchedule.signal] at hstep
    split at hstep
    · cases hstep
      exact hg
    · split at hstep <;> cases hstep
      exact hg
  | tick now =>
    cases hstep
    exact ((tick_deadlines hg).timeout.trans resumeSleepQueue_same.2.2).trans hg
  | threadSuspend t =>
    cases hstep
    exact noTimeouts_kept.threadSuspend hg t
  | threadResume t =>
    cases hstep
    exact noTimeouts_kept.threadResume hg t
  | threadDestroy t reason =>
    cases hstep
    exact hg
  | drop t =>
    cases hstep
    exact hg
  | reorder cpus suspended sleeping =>
    cases hstep
    exact hg

def twoSleepers : List ScheduleCall :=
  [.initCpuSchedule 0 4, .addThread 7, .addThread 8, .reschedule 0, .sleep 7 5, .sleep 8 9]

end GlobalSchedule
end BezOS
