import BezOS.Task.SchedulerSteps

/-!
# Deadlines of sleeping tasks

Callers put a task to sleep while others do, while it runs, and while it is terminated or woken by
its timeout. `atomicMax` only raises the deadline, and a call that has been through it finds the
deadline raised when its exchange succeeds; a call whose first exchange succeeds has not been through
it. Nothing but `wake` takes a deadline back.
-/

namespace BezOS

open Lib List SchedulerAction

variable {S : Type}

/-! ## Deadlines -/

namespace SchedulerQueue

def sleepUntil (q : SchedulerQueue S) (task : TaskId) : Int := (q.entries task).mSleepUntil

variable (q : SchedulerQueue S) (task t : TaskId)

lemma sleepUntil_setEntry_same {e : SchedulerEntry S} (h : e.mSleepUntil = q.sleepUntil t) :
    (q.setEntry t e).sleepUntil task = q.sleepUntil task := by
  by_cases ht : task = t
  · subst ht
    simpa [sleepUntil, setEntry] using h
  · simp [sleepUntil, setEntry, ht]

@[simp] lemma sleepUntil_setStatus (status : TaskStatus) :
    (q.setStatus t status).sleepUntil task = q.sleepUntil task :=
  q.sleepUntil_setEntry_same task t rfl

@[simp] lemma sleepUntil_setState (state : S) :
    (q.setState t state).sleepUntil task = q.sleepUntil task :=
  q.sleepUntil_setEntry_same task t rfl

@[simp] lemma sleepUntil_saveCurrent (state : S) :
    (q.saveCurrent state).sleepUntil task = q.sleepUntil task := by
  rw [saveCurrent]
  split
  · rfl
  · exact sleepUntil_setState ..

@[simp] lemma sleepUntil_stop (state : S) :
    (q.stop t state).sleepUntil task = q.sleepUntil task :=
  sleepUntil_setState q task t state

lemma sleepUntil_tryPush {q' : SchedulerQueue S} (h : q.tryPush t = some q') :
    q'.sleepUntil task = q.sleepUntil task := by
  rw [tryPush] at h
  split at h <;> cases h
  rfl

end SchedulerQueue

lemma RescheduleCall.step_sleepUntil (q : SchedulerQueue S) (c : RescheduleCall S)
    (task : TaskId) : (c.step q).1.sleepUntil task = q.sleepUntil task := by
  cases c with
  | pop state =>
    rw [step]
    split
    · rfl
    · split <;> rfl
  | moveTaskToRunning state t =>
    rw [step]
    split <;> simp
  | keepTaskRunning state current =>
    rw [step]
    split <;> simp
  | setCurrentTask t =>
    rw [step]
    split
    · rfl
    · split
      · rfl
      · split <;> rfl
  | moveTaskToIdle t current =>
    rw [step]
    split <;> simp
  | push t current =>
    rw [step]
    split
    · rename_i q' hpush
      exact q.sleepUntil_tryPush task current hpush
    · rfl
  | rescue t current =>
    rw [step]
    split <;> rfl
  | closeTaken state t => simp [step]
  | closeKept state current => simp [step]
  | closeStopped t current => simp [step]
  | switch t => rfl
  | returned result state => rfl
  | panicked => rfl

/-! ## Calls -/

def SchedulerAction.call? : SchedulerAction S → Option EntryCall
  | .sleep task timeout => some (.sleep task timeout .idle)
  | .wake task => some (.wake task)
  | .terminate task => some (.terminate task .idle)
  | .wakeIfTimeout task now => some (.loadTimeout task now)
  | _ => none

/-- The calls that a run starts, in order; the calls of the system are these as far as they came. -/
def started (as : List (SchedulerAction S)) : List EntryCall := as.filterMap call?

namespace SchedulerSystem

/-- The sleep call at a place of the list that asked for `timeout` has returned true. -/
def Slept (s : SchedulerSystem S) (calls : List EntryCall) (task : TaskId) (timeout : Int) : Prop :=
  ∃ i : Nat, calls[i]? = some (EntryCall.sleep task timeout .idle) ∧
    s.calls[i]? = some (EntryCall.slept true)

/-- The deadline is the first one or one that a sleep call asked for, it is not below any that a
sleep call returned true for, and `wakeIfTimeout` answers so. -/
structure Honoured (s : SchedulerSystem S) (calls : List EntryCall) (task : TaskId) (first : Int) :
    Prop where
  deadline : ∀ timeout, s.Slept calls task timeout → timeout ≤ s.queue.sleepUntil task
  asleep : ∀ timeout, s.Slept calls task timeout → ∀ now < timeout, ∀ spurious,
    (EntryCall.loadTimeout task now).step s.queue spurious = (s.queue, .woken .sleep, [])
  latest : s.queue.sleepUntil task = first ∨
    ∃ timeout, EntryCall.sleep task timeout .idle ∈ calls ∧ s.queue.sleepUntil task = timeout

/-- A sleep call at its first exchange finds the task in another status than idle, or with the
deadline it asks for. -/
def Raised (s : SchedulerSystem S) (task : TaskId) : SchedulerAction S → Prop
  | .callStep call _ => ∀ timeout, s.calls[call]? = some (.sleep task timeout .idle) →
      s.queue.status task = .idle → timeout ≤ s.queue.sleepUntil task
  | _ => True

def AsleepSteps (task : TaskId) (s : SchedulerSystem S) (a : SchedulerAction S)
    (t : SchedulerSystem S) : Prop :=
  a.call? ≠ some (.wake task) ∧ s.step a = t

def RaisedSteps (task : TaskId) (s : SchedulerSystem S) (a : SchedulerAction S)
    (t : SchedulerSystem S) : Prop :=
  s.Raised task a ∧ AsleepSteps task s a t

end SchedulerSystem

namespace EntryCall

/-- How far a call is that began as `start`, when the deadline of the task is `deadline`. -/
def Sound (task : TaskId) (deadline : Int) (start : EntryCall) : EntryCall → Prop
  | .sleep t timeout expected =>
      start = .sleep t timeout .idle ∧ (t = task → expected ≠ .idle → timeout ≤ deadline)
  | .loadMax t timeout _ => start = .sleep t timeout .idle
  | .exchangeMax t timeout _ current => start = .sleep t timeout .idle ∧ current < timeout
  | .slept true => ∃ t timeout, start = .sleep t timeout .idle ∧ (t = task → timeout ≤ deadline)
  | .wake t => start = .wake t
  | _ => True

variable {task : TaskId} {deadline deadline' : Int} {start c : EntryCall} {q : SchedulerQueue S}

lemma Sound.mono (h : Sound task deadline start c) (hle : deadline ≤ deadline') :
    Sound task deadline' start c := by
  cases c with
  | sleep t timeout expected => exact ⟨h.1, fun ht he => Int.le_trans (h.2 ht he) hle⟩
  | slept result =>
    cases result with
    | false => trivial
    | true =>
      obtain ⟨t, timeout, hstart, hdeadline⟩ := h
      exact ⟨t, timeout, hstart, fun ht => Int.le_trans (hdeadline ht) hle⟩
  | _ => exact h

lemma Sound.testMax {t : TaskId} {timeout current : Int} {expected : TaskStatus}
    (hstart : start = .sleep t timeout .idle) (hcurrent : t = task → current ≤ deadline) :
    Sound task deadline start (testMax t timeout expected current) := by
  rw [EntryCall.testMax]
  split
  · rename_i hlt
    exact ⟨hstart, hlt⟩
  · rename_i hle
    exact ⟨hstart, fun ht _ => Int.le_trans (Int.not_lt.1 hle) (hcurrent ht)⟩

lemma sleepUntil_raise {t : TaskId} {timeout : Int} :
    (q.setEntry t { q.entries t with mSleepUntil := timeout }).sleepUntil task =
      if t = task then timeout else q.sleepUntil task := by
  by_cases ht : t = task
  · subst ht
    simp [SchedulerQueue.sleepUntil, SchedulerQueue.setEntry]
  · simp [SchedulerQueue.sleepUntil, SchedulerQueue.setEntry, ht, Ne.symm ht]

lemma step_sleepUntil (spurious : Bool) (h : Sound task (q.sleepUntil task) start c)
    (hwake : start ≠ .wake task) :
    (c.step q spurious).1.sleepUntil task = q.sleepUntil task ∨
      ∃ timeout ≥ q.sleepUntil task, start = .sleep task timeout .idle ∧
        (c.step q spurious).1.sleepUntil task = timeout := by
  cases c with
  | sleep t timeout expected =>
    rw [step]
    left
    split
    · simp
    · split <;> rfl
  | exchangeMax t timeout expected current =>
    obtain ⟨rfl, hlt⟩ := h
    rw [step]
    split
    · rename_i hsame
      rw [sleepUntil_raise]
      by_cases ht : t = task
      · subst ht
        have hle : q.sleepUntil t ≤ timeout := by
          rw [SchedulerQueue.sleepUntil, hsame.1]
          omega
        exact .inr ⟨timeout, hle, rfl, if_pos rfl⟩
      · exact .inl (if_neg ht)
    · exact .inl rfl
  | wake t =>
    obtain rfl : start = .wake t := h
    have ht : t ≠ task := fun heq => hwake (heq ▸ rfl)
    exact .inl (sleepUntil_raise.trans (if_neg ht))
  | terminate t expected =>
    rw [step]
    left
    split
    · simp
    · split <;> rfl
  | loadTimeout t now =>
    rw [step]
    split <;> exact .inl rfl
  | wakeIfTimeout t expected =>
    rw [step]
    left
    split
    · simp
    · split <;> rfl
  | loadMax t timeout expected => exact .inl rfl
  | slept result => exact .inl rfl
  | woken result => exact .inl rfl
  | returned => exact .inl rfl
  | panicked => exact .inl rfl

lemma Sound.step (spurious : Bool) (h : Sound task (q.sleepUntil task) start c)
    (hwake : start ≠ .wake task)
    (hraised : ∀ timeout, c = .sleep task timeout .idle → q.status task = .idle →
      timeout ≤ q.sleepUntil task) :
    Sound task ((c.step q spurious).1.sleepUntil task) start (c.step q spurious).2.1 := by
  cases c with
  | sleep t timeout expected =>
    obtain ⟨rfl, hdeadline⟩ := h
    rw [EntryCall.step]
    split
    · rename_i hstatus
      -- the exchange succeeds: either the deadline was raised, or it is the first one
      refine ⟨t, timeout, rfl, fun ht => ?_⟩
      subst ht
      simp only [SchedulerQueue.sleepUntil_setStatus]
      by_cases hidle : expected = .idle
      · subst hidle
        exact hraised timeout rfl hstatus
      · exact hdeadline rfl hidle
    · split
      · trivial
      · trivial
      · exact rfl
  | loadMax t timeout expected =>
    obtain rfl : start = .sleep t timeout .idle := h
    refine Sound.testMax rfl fun ht => ?_
    subst ht
    exact Int.le_refl _
  | exchangeMax t timeout expected current =>
    obtain ⟨rfl, hlt⟩ := h
    rw [EntryCall.step]
    split
    · refine ⟨rfl, fun ht _ => ?_⟩
      exact Int.le_of_eq (sleepUntil_raise.trans (if_pos ht)).symm
    · refine Sound.testMax rfl fun ht => ?_
      subst ht
      exact Int.le_refl _
  | wake t => trivial
  | terminate t expected =>
    rw [EntryCall.step]
    split
    · trivial
    · split <;> trivial
  | loadTimeout t now =>
    rw [EntryCall.step]
    split <;> trivial
  | wakeIfTimeout t expected =>
    rw [EntryCall.step]
    split
    · trivial
    · split <;> trivial
  | slept result => exact h
  | woken result => trivial
  | returned => trivial
  | panicked => trivial

lemma Sound.of_call {a : SchedulerAction S} (h : a.call? = some c) : Sound task deadline c c := by
  cases a with
  | sleep t timeout =>
    obtain rfl := Option.some.inj h
    exact ⟨rfl, fun _ hne => absurd rfl hne⟩
  | wake t =>
    obtain rfl := Option.some.inj h
    exact rfl
  | terminate t =>
    obtain rfl := Option.some.inj h
    trivial
  | wakeIfTimeout t now =>
    obtain rfl := Option.some.inj h
    trivial
  | callStep call spurious => cases h
  | reschedule state => cases h
  | coreStep => cases h

end EntryCall

/-! ## Runs -/

namespace SchedulerSystem

variable {s t : SchedulerSystem S} {calls : List EntryCall} {task : TaskId} {first : Int}
  {a : SchedulerAction S}

structure SleepInv (s : SchedulerSystem S) (calls : List EntryCall) (task : TaskId) (first : Int) :
    Prop where
  length : s.calls.length = calls.length
  sound : ∀ (i : Nat) (start c : EntryCall), calls[i]? = some start → s.calls[i]? = some c →
    EntryCall.Sound task (s.queue.sleepUntil task) start c
  quiet : EntryCall.wake task ∉ calls
  latest : s.queue.sleepUntil task = first ∨
    ∃ timeout, EntryCall.sleep task timeout .idle ∈ calls ∧ s.queue.sleepUntil task = timeout

section

variable (h : s.SleepInv calls task first)

include h

lemma SleepInv.honoured : s.Honoured calls task first := by
  have hdeadline : ∀ timeout, s.Slept calls task timeout →
      timeout ≤ s.queue.sleepUntil task := by
    rintro timeout ⟨i, hstart, hslept⟩
    obtain ⟨t, timeout', heq, hle⟩ := h.sound i _ _ hstart hslept
    obtain ⟨rfl, rfl, -⟩ := EntryCall.sleep.inj heq
    exact hle rfl
  refine ⟨hdeadline, fun timeout hslept now hnow spurious => ?_, h.latest⟩
  have hlater : (s.queue.entries task).mSleepUntil > now :=
    Int.lt_of_lt_of_le hnow (hdeadline timeout hslept)
  rw [EntryCall.step, if_pos hlater]

lemma SleepInv.start {c : EntryCall} (hsound : EntryCall.Sound task (s.queue.sleepUntil task) c c)
    (hwake : c ≠ .wake task) :
    (s.start c).SleepInv (calls ++ [c]) task first := by
  refine ⟨?_, fun i start c' hstart hc => ?_, ?_, ?_⟩
  · simp [SchedulerSystem.start, h.length]
  · rcases getElem?_append_singleton hstart with ⟨rfl, rfl⟩ | hstart
    · -- the new call is the last one of both lists
      rcases getElem?_append_singleton hc with ⟨-, rfl⟩ | hc
      · exact hsound
      · have hlt := (List.getElem?_eq_some_iff.1 hc).1
        have hlength := h.length
        omega
    · have hlt := (List.getElem?_eq_some_iff.1 hstart).1
      rcases getElem?_append_singleton hc with ⟨rfl, -⟩ | hc
      · have hlength := h.length
        omega
      · exact h.sound i start c' hstart hc
  · rw [mem_append, mem_singleton]
    rintro (hmem | rfl)
    · exact h.quiet hmem
    · exact hwake rfl
  · rcases h.latest with hfirst | ⟨timeout, hmem, heq⟩
    · exact .inl hfirst
    · exact .inr ⟨timeout, mem_append_left _ hmem, heq⟩

lemma SleepInv.same {q : SchedulerQueue S} {core : RescheduleCall S} {trace : List SchedulerEvent}
    (hq : q.sleepUntil task = s.queue.sleepUntil task) :
    SleepInv ⟨q, s.calls, core, trace⟩ calls task first := by
  refine ⟨h.length, fun i start c hstart hc => ?_, h.quiet, ?_⟩
  · rw [hq]
    exact h.sound i start c hstart hc
  · rw [hq]
    exact h.latest

lemma SleepInv.callStep {call : Nat} {spurious : Bool}
    (hraised : s.Raised task (.callStep call spurious)) :
    (s.step (.callStep call spurious)).SleepInv calls task first := by
  rw [step]
  cases hc : s.calls[call]? with
  | none => exact h
  | some c =>
    have hlt : call < calls.length := h.length ▸ (List.getElem?_eq_some_iff.1 hc).1
    have hstart := getElem?_eq_getElem hlt
    have hsound := h.sound call _ c hstart hc
    have hwake : calls[call] ≠ .wake task :=
      fun heq => h.quiet (heq ▸ getElem_mem hlt)
    have hstep := EntryCall.step_sleepUntil spurious hsound hwake
    have hle : s.queue.sleepUntil task ≤ (c.step s.queue spurious).1.sleepUntil task := by
      rcases hstep with heq | ⟨timeout, hge, -, heq⟩
      · exact Int.le_of_eq heq.symm
      · exact heq ▸ hge
    refine ⟨by simpa using h.length, fun i start c' hi hc' => ?_, h.quiet, ?_⟩
    · rcases getElem?_set_eq_some hc' with ⟨rfl, rfl⟩ | ⟨-, hc'⟩
      · obtain rfl := Option.some.inj (hstart.symm.trans hi)
        refine hsound.step spurious hwake fun timeout hcall => ?_
        exact hraised timeout (hcall ▸ hc)
      · exact (h.sound i start c' hi hc').mono hle
    · rcases hstep with heq | ⟨timeout, -, hsleep, heq⟩
      · rw [heq]
        exact h.latest
      · exact .inr ⟨timeout, hsleep ▸ getElem_mem hlt, heq⟩

lemma SleepInv.step (hraised : s.Raised task a) (hwake : a.call? ≠ some (.wake task)) :
    (s.step a).SleepInv (calls ++ a.call?.toList) task first := by
  have hnew : ∀ c, a.call? = some c → (s.start c).SleepInv (calls ++ [c]) task first :=
    fun c hc => h.start (EntryCall.Sound.of_call hc) fun heq => hwake (heq ▸ hc)
  cases a with
  | sleep t timeout => exact hnew _ rfl
  | wake t => exact hnew _ rfl
  | terminate t => exact hnew _ rfl
  | wakeIfTimeout t now => exact hnew _ rfl
  | callStep call spurious => exact (append_nil calls).symm ▸ h.callStep hraised
  | reschedule state =>
    rw [SchedulerSystem.step]
    split
    · exact (append_nil calls).symm ▸ h.same rfl
    · exact (append_nil calls).symm ▸ h
  | coreStep =>
    exact (append_nil calls).symm ▸ h.same (s.core.step_sleepUntil s.queue task)

end

lemma started_cons (a : SchedulerAction S) (as : List (SchedulerAction S)) :
    started (a :: as) = a.call?.toList ++ started as := by
  rw [started, filterMap_cons]
  cases a.call? <;> rfl

lemma SleepInv.of_run {as : List (SchedulerAction S)} (hrun : Run (RaisedSteps task) s as t)
    (h : s.SleepInv calls task first) : t.SleepInv (calls ++ started as) task first := by
  induction hrun generalizing calls with
  | nil s => exact (append_nil calls).symm ▸ h
  | cons hstep _ ih =>
    obtain ⟨hraised, hwake, rfl⟩ := hstep
    rw [started_cons, ← append_assoc]
    exact ih (h.step hraised hwake)

lemma raised_of_honoured (h : s.SleepInv calls task first)
    (hnext : (s.step a).Honoured (calls ++ a.call?.toList) task first) : s.Raised task a := by
  cases a with
  | callStep call spurious =>
    intro timeout hcall hidle
    have hlt : call < calls.length := h.length ▸ (List.getElem?_eq_some_iff.1 hcall).1
    have hstart := getElem?_eq_getElem hlt
    have hsound := (h.sound call _ _ hstart hcall).1
    have hstep : s.step (.callStep call spurious) =
        ⟨s.queue.setStatus task .suspended, s.calls.set call (.slept true), s.core,
          s.trace ++ []⟩ := by
      simp only [SchedulerSystem.step, hcall, EntryCall.step, if_pos hidle]
    have hslept : (s.step (.callStep call spurious)).Slept (calls ++ []) task timeout := by
      refine ⟨call, ?_, ?_⟩
      · rw [append_nil, hstart, hsound]
      · rw [hstep]
        exact getElem?_set_same hcall
    have hdeadline := hnext.deadline timeout hslept
    rwa [hstep, SchedulerQueue.sleepUntil_setStatus] at hdeadline
  | _ => trivial

/-- Until the task is woken, the deadlines of a run are honoured if every call that finds the task
idle at its first exchange finds its deadline raised, and a step keeps them so just when it
does. -/
theorem honoured_iff_raised {as : List (SchedulerAction S)} (hs : s.calls = [])
    (hrun : Run (RaisedSteps task) s as t) :
    t.Honoured (started as) task (s.queue.sleepUntil task) ∧
      ∀ a : SchedulerAction S, a.call? ≠ some (.wake task) →
        ((t.step a).Honoured (started as ++ a.call?.toList) task (s.queue.sleepUntil task) ↔
          t.Raised task a) := by
  have hinit : s.SleepInv [] task (s.queue.sleepUntil task) :=
    ⟨congrArg List.length hs, fun i start c hstart => (by cases hstart), not_mem_nil, .inl rfl⟩
  have h := SleepInv.of_run hrun hinit
  exact ⟨h.honoured, fun a hwake =>
    ⟨raised_of_honoured h, fun hraised => (h.step hraised hwake).honoured⟩⟩

def alone (status : TaskStatus) : SchedulerSystem Nat :=
  init (.create 1 fun _ => ⟨status, instantMin, 0⟩) 0

def sleepRunning : List (SchedulerAction Nat) :=
  .sleep 1 5 :: replicate 4 (.callStep 0 false)

lemma run_sleepRunning :
    Run (RaisedSteps 1) (alone .running) sleepRunning (sleepRunning.foldl step (alone .running)) := by
  have hwake : (some (EntryCall.sleep 1 5 .idle)) ≠ some (.wake 1) := by decide
  refine .cons ⟨trivial, hwake, rfl⟩ (.cons ⟨fun timeout _ hidle => ?_, by simp [call?], rfl⟩
    (.cons ⟨fun timeout hcall => ?_, by simp [call?], rfl⟩
      (.cons ⟨fun timeout hcall => ?_, by simp [call?], rfl⟩
        (.cons ⟨fun timeout hcall => ?_, by simp [call?], rfl⟩ (.nil _)))))
  · cases hidle
  · cases hcall
  · cases hcall
  · cases hcall

theorem honoured_sleepRunning : (sleepRunning.foldl step (alone .running)).calls = [.slept true] ∧
    ∃ t : SchedulerSystem Nat, t.Honoured (started sleepRunning) 1 instantMin ∧
      ∀ a : SchedulerAction Nat, a.call? ≠ some (.wake 1) →
        ((t.step a).Honoured (started sleepRunning ++ a.call?.toList) 1 instantMin ↔
          t.Raised 1 a) :=
  ⟨rfl, _, honoured_iff_raised rfl run_sleepRunning⟩

/-- An idle task is suspended without a deadline. -/
theorem not_honoured_idle :
    ¬∀ (s t : SchedulerSystem Nat) (task : TaskId) (as : List (SchedulerAction Nat)),
      s.calls = [] → Run (AsleepSteps task) s as t →
        t.Honoured (started as) task (s.queue.sleepUntil task) := by
  intro hall
  have hrun : Run (AsleepSteps 1) (alone .idle) [.sleep 1 5, .callStep 0 false]
      ([SchedulerAction.sleep 1 5, .callStep 0 false].foldl step (alone .idle)) :=
    .cons ⟨by simp [call?], rfl⟩
      (.cons ⟨by simp [call?], rfl⟩ (.nil _))
  have hdeadline := (hall _ _ 1 _ rfl hrun).deadline 5 ⟨0, rfl, rfl⟩
  exact absurd hdeadline (by decide)

end SchedulerSystem
end BezOS
