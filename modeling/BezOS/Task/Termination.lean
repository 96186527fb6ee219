import BezOS.Task.Conservation
import BezOS.Task.SchedulerSteps

/-!
# Termination is final

No exchange ever expects a status of a task that was terminated, and the plain stores only close
tasks. So a terminated task stays terminated until it is closed, and the exchange with which
`takeNextTask` selects a task fails for it.
-/

namespace BezOS

open Lib List TaskStatus

variable {S : Type}

namespace EntryCall

/-- The status an exchange of the call expects is one of a task that may run. -/
def Expects : EntryCall → Prop
  | .sleep _ _ expected => expected.alive
  | .loadMax _ _ expected => expected.alive
  | .exchangeMax _ _ expected _ => expected.alive
  | .terminate _ expected => expected.alive
  | .wakeIfTimeout _ expected => expected.alive
  | _ => True

end EntryCall

namespace SchedulerQueue

def Dead (q : SchedulerQueue S) (task : TaskId) : Prop := (q.status task).alive = false

lemma dead_iff {q : SchedulerQueue S} {task : TaskId} :
    q.Dead task ↔ q.status task = .terminated ∨ q.status task = .closed := by
  unfold Dead
  cases q.status task <;> simp [alive]

variable {q q' : SchedulerQueue S} {task t : TaskId}

lemma status_setEntry_same {e : SchedulerEntry S} (h : e.mStatus = q.status task) :
    (q.setEntry task e).status t = q.status t := by
  by_cases ht : t = task
  · subst ht
    simpa [status, setEntry] using h
  · simp [status, setEntry, ht]

lemma status_exchange {expected status : TaskStatus} (hexpected : expected.alive)
    (hstatus : q.status task = expected) (hdead : q.Dead t) :
    (q.setStatus task status).status t = q.status t := by
  rw [status_setStatus, if_neg]
  rintro rfl
  rw [Dead, hstatus, hexpected] at hdead
  cases hdead

lemma status_saveCurrent (state : S) : (q.saveCurrent state).status t = q.status t := by
  unfold saveCurrent
  split
  · rfl
  · exact status_setState ..

lemma status_stop (state : S) : (q.stop task state).status t = q.status t :=
  status_setState q task t state

end SchedulerQueue

/-! ## Steps -/

namespace EntryCall

variable {q q' : SchedulerQueue S} {c c' : EntryCall} {events : List SchedulerEvent}
  {spurious : Bool}

lemma expects_testMax {task : TaskId} {timeout current : Int} {expected : TaskStatus}
    (h : expected.alive) : (testMax task timeout expected current).Expects := by
  unfold testMax
  split <;> exact h

lemma step_spec (hc : c.Expects) (h : c.step q spurious = (q', c', events)) :
    c'.Expects ∧ (∀ t, q.Dead t → q'.status t = q.status t) ∧
      ∀ t, .terminated t ∈ events → q'.Dead t := by
  cases c with
  | sleep task timeout expected =>
    simp only [step] at h
    split at h
    · cases h
      exact ⟨trivial, fun t ht => SchedulerQueue.status_exchange hc ‹_› ht, by simp⟩
    · split at h <;> cases h
      · exact ⟨trivial, fun _ _ => rfl, by simp⟩
      · exact ⟨trivial, fun _ _ => rfl, by simp⟩
      · refine ⟨?_, fun _ _ => rfl, by simp⟩
        show (q.status task).alive = true
        cases hstatus : q.status task <;> simp_all [alive]
  | loadMax task timeout expected =>
    cases h
    exact ⟨expects_testMax hc, fun _ _ => rfl, by simp⟩
  | exchangeMax task timeout expected current =>
    simp only [step] at h
    split at h <;> cases h
    · exact ⟨hc, fun t _ => SchedulerQueue.status_setEntry_same rfl, by simp⟩
    · exact ⟨expects_testMax hc, fun _ _ => rfl, by simp⟩
  | wake task =>
    cases h
    exact ⟨trivial, fun t _ => SchedulerQueue.status_setEntry_same rfl, by simp⟩
  | terminate task expected =>
    simp only [step] at h
    split at h
    · cases h
      refine ⟨trivial, fun t ht => SchedulerQueue.status_exchange hc ‹_› ht, ?_⟩
      intro t ht
      obtain rfl : t = task := by simpa using ht
      rw [SchedulerQueue.Dead, SchedulerQueue.status_setStatus, if_pos rfl]
      rfl
    · split at h <;> cases h
      · refine ⟨trivial, fun _ _ => rfl, ?_⟩
        intro t ht
        obtain rfl : t = task := by simpa using ht
        exact SchedulerQueue.dead_iff.2 (.inl ‹_›)
      · refine ⟨trivial, fun _ _ => rfl, ?_⟩
        intro t ht
        obtain rfl : t = task := by simpa using ht
        exact SchedulerQueue.dead_iff.2 (.inr ‹_›)
      · refine ⟨?_, fun _ _ => rfl, by simp⟩
        show (q.status task).alive = true
        cases hstatus : q.status task <;> simp_all [alive]
  | loadTimeout task now =>
    simp only [step] at h
    split at h <;> cases h
    · exact ⟨trivial, fun _ _ => rfl, by simp⟩
    · exact ⟨rfl, fun _ _ => rfl, by simp⟩
  | wakeIfTimeout task expected =>
    simp only [step] at h
    split at h
    · cases h
      exact ⟨trivial, fun t ht => SchedulerQueue.status_exchange hc ‹_› ht, by simp⟩
    · split at h <;> cases h <;> exact ⟨by trivial, fun _ _ => rfl, by simp⟩
  | slept result =>
    cases h
    exact ⟨trivial, fun _ _ => rfl, by simp⟩
  | woken result =>
    cases h
    exact ⟨trivial, fun _ _ => rfl, by simp⟩
  | returned =>
    cases h
    exact ⟨trivial, fun _ _ => rfl, by simp⟩
  | panicked =>
    cases h
    exact ⟨trivial, fun _ _ => rfl, by simp⟩

lemma step_not_selected (h : c.step q spurious = (q', c', events)) (t : TaskId) :
    .selected t ∉ events := by
  have hall : ∀ e ∈ events, ∃ task, e = .terminated task := by
    cases c <;> simp only [step] at h <;> (repeat' split at h) <;> cases h <;> simp
  intro ht
  obtain ⟨task, hne⟩ := hall _ ht
  cases hne

end EntryCall

/-- What may become of a dead task: it stays as it is, or a terminated one is closed. -/
def StaysDead (before after : TaskStatus) : Prop :=
  after = before ∨ before = .terminated ∧ after = .closed

namespace RescheduleCall

variable {q q' : SchedulerQueue S} {c c' : RescheduleCall S} {events : List SchedulerEvent}
  {task t : TaskId}

lemma staysDead_close (ht : q.Dead t) :
    StaysDead (q.status t) ((q.setStatus task .closed).status t) := by
  rw [SchedulerQueue.status_setStatus]
  split
  · rcases SchedulerQueue.dead_iff.1 ht with hstatus | hstatus
    · exact .inr ⟨hstatus, rfl⟩
    · exact .inl hstatus.symm
  · exact .inl rfl

lemma step_spec (h : c.step q = (q', c', events)) (ht : q.Dead t) :
    StaysDead (q.status t) (q'.status t) ∧ .selected t ∉ events := by
  cases c with
  | returned result state =>
    cases h
    exact ⟨.inl rfl, by simp⟩
  | pop state =>
    simp only [step] at h
    split at h
    · cases h
      exact ⟨.inl rfl, by simp⟩
    · split at h <;> cases h <;> exact ⟨.inl rfl, by simp⟩
  | moveTaskToRunning state task =>
    simp only [step] at h
    split at h
    · rename_i hidle
      cases h
      have hstatus : (q.setStatus task .running).status t = q.status t :=
        SchedulerQueue.status_exchange rfl hidle ht
      refine ⟨.inl ?_, ?_⟩
      · rw [SchedulerQueue.status_saveCurrent, hstatus]
      · simp only [mem_singleton, SchedulerEvent.selected.injEq]
        rintro rfl
        rw [SchedulerQueue.Dead, hidle] at ht
        cases ht
    all_goals
      cases h
      exact ⟨.inl rfl, by simp⟩
  | closeTaken state task =>
    cases h
    exact ⟨staysDead_close ht, by simp⟩
  | keepTaskRunning state current =>
    simp only [step] at h
    split at h <;> cases h
    all_goals try exact ⟨.inl rfl, by simp⟩
    exact ⟨.inl (SchedulerQueue.status_stop state), by simp⟩
  | closeKept state current =>
    cases h
    refine ⟨?_, by simp⟩
    rw [SchedulerQueue.status_stop]
    exact staysDead_close ht
  | setCurrentTask task =>
    simp only [step] at h
    split at h
    · cases h
      exact ⟨.inl rfl, by simp⟩
    · split at h
      · cases h
        exact ⟨.inl rfl, by simp⟩
      · split at h <;> cases h <;> exact ⟨.inl rfl, by simp⟩
  | moveTaskToIdle task current =>
    simp only [step] at h
    split at h <;> cases h
    all_goals try exact ⟨.inl rfl, by simp⟩
    exact ⟨.inl (SchedulerQueue.status_exchange rfl ‹_› ht), by simp⟩
  | closeStopped task current =>
    cases h
    exact ⟨staysDead_close ht, by simp⟩
  | push task current =>
    simp only [step] at h
    split at h <;> cases h
    · rename_i hpush
      obtain ⟨-, rfl⟩ := SchedulerQueue.tryPush_eq_some hpush
      exact ⟨.inl rfl, by simp⟩
    · exact ⟨.inl rfl, by simp⟩
  | rescue task current =>
    simp only [step] at h
    split at h <;> cases h <;> exact ⟨.inl rfl, by simp⟩
  | switch task =>
    cases h
    exact ⟨.inl rfl, by simp⟩
  | panicked =>
    cases h
    exact ⟨.inl rfl, by simp⟩

lemma step_not_terminated (h : c.step q = (q', c', events)) : .terminated t ∉ events := by
  have hall : ∀ e ∈ events, (∃ task, e = .popped task) ∨ ∃ task, e = .selected task := by
    cases c <;> simp only [step] at h <;> (repeat' split at h) <;> cases h <;> simp
  intro ht
  rcases hall _ ht with ⟨task, hne⟩ | ⟨task, hne⟩ <;> cases hne

end RescheduleCall

/-! ## Runs -/

lemma StaysDead.trans {a b c : TaskStatus} (h : StaysDead a b) (k : StaysDead b c) :
    StaysDead a c := by
  rcases h with rfl | ⟨rfl, rfl⟩
  · exact k
  · rcases k with rfl | ⟨hb, -⟩
    · exact .inr ⟨rfl, rfl⟩
    · cases hb

lemma StaysDead.alive_eq {a b : TaskStatus} (h : StaysDead a b) (ha : a.alive = false) :
    b.alive = false := by
  rcases h with rfl | ⟨-, rfl⟩
  · exact ha
  · rfl

namespace SchedulerSystem

variable {s t : SchedulerSystem S} {a : SchedulerAction S} {task : TaskId}

structure Invariant (s : SchedulerSystem S) : Prop where
  expects : ∀ c ∈ s.calls, c.Expects
  terminated : ∀ task, .terminated task ∈ s.trace → s.queue.Dead task

structure Spares (s t : SchedulerSystem S) (task : TaskId) : Prop where
  status : StaysDead (s.queue.status task) (t.queue.status task)
  trace : ∃ later, t.trace = s.trace ++ later ∧ .selected task ∉ later

lemma Spares.refl (s : SchedulerSystem S) (task : TaskId) : Spares s s task :=
  ⟨.inl rfl, [], by simp, by simp⟩

lemma Spares.trans {u : SchedulerSystem S} (h : Spares s t task) (k : Spares t u task) :
    Spares s u task := by
  obtain ⟨later, htrace, hlater⟩ := h.trace
  obtain ⟨later', htrace', hlater'⟩ := k.trace
  refine ⟨h.status.trans k.status, later ++ later', ?_, ?_⟩
  · rw [htrace', htrace, append_assoc]
  · simp [hlater, hlater']

lemma Spares.dead (h : Spares s t task) (hdead : s.queue.Dead task) : t.queue.Dead task :=
  h.status.alive_eq hdead

lemma step_spares (h : s.Invariant) (hstep : s.Steps a t) (hdead : s.queue.Dead task) :
    Spares s t task := by
  cases hstep
  cases a with
  | callStep call spurious =>
    simp only [step]
    split
    · exact .refl s task
    · rename_i c hc
      obtain ⟨-, hsame, -⟩ := EntryCall.step_spec (h.expects c (mem_of_getElem? hc)) rfl
      exact ⟨.inl (hsame task hdead), _, rfl, EntryCall.step_not_selected rfl task⟩
  | reschedule state =>
    simp only [step]
    split
    · exact ⟨.inl rfl, [], by simp, by simp⟩
    · exact .refl s task
  | coreStep =>
    obtain ⟨hstatus, hselected⟩ := RescheduleCall.step_spec rfl hdead
    exact ⟨hstatus, _, rfl, hselected⟩
  | _ => exact ⟨.inl rfl, [], by simp [step, start], by simp⟩

lemma Invariant.start {call : EntryCall} (h : s.Invariant) (hcall : call.Expects) :
    (s.start call).Invariant := by
  refine ⟨?_, h.terminated⟩
  intro c hc
  simp only [SchedulerSystem.start, mem_append, mem_singleton] at hc
  rcases hc with hc | rfl
  · exact h.expects c hc
  · exact hcall

lemma Invariant.step (h : s.Invariant) (hstep : s.Steps a t) : t.Invariant := by
  have hspares : ∀ task, .terminated task ∈ s.trace → t.queue.Dead task :=
    fun task htask => (step_spares h hstep (h.terminated task htask)).dead (h.terminated task htask)
  cases hstep
  cases a with
  | sleep task timeout => exact h.start rfl
  | wake task => exact h.start trivial
  | terminate task => exact h.start rfl
  | wakeIfTimeout task now => exact h.start trivial
  | callStep call spurious =>
    simp only [SchedulerSystem.step] at hspares ⊢
    split
    · exact h
    · rename_i c hc
      simp only [hc] at hspares
      have hstep : c.step s.queue spurious = c.step s.queue spurious := rfl
      obtain ⟨hexpects, -, hdead⟩ :=
        EntryCall.step_spec (h.expects c (mem_of_getElem? hc)) hstep
      refine ⟨?_, ?_⟩
      · intro c' hc'
        rcases mem_or_eq_of_mem_set hc' with hc' | rfl
        · exact h.expects c' hc'
        · exact hexpects
      · intro task htask
        rcases mem_append.1 htask with htask | htask
        · exact hspares task htask
        · exact hdead task htask
  | reschedule state =>
    simp only [SchedulerSystem.step]
    split
    · exact ⟨h.expects, h.terminated⟩
    · exact h
  | coreStep =>
    refine ⟨h.expects, ?_⟩
    intro task htask
    rcases mem_append.1 htask with htask | htask
    · exact hspares task htask
    · exact absurd htask (RescheduleCall.step_not_terminated rfl)

/-- Once `terminate` has returned, the task is terminated or closed, whatever is called and in
whatever order the steps are taken; it only goes from terminated to closed, and is not selected to
run again. -/
theorem terminated_forever (q : SchedulerQueue S) (state : S) {as bs : List (SchedulerAction S)}
    {s t : SchedulerSystem S} (h : Run Steps (init q state) as s)
    (hreturned : .terminated task ∈ s.trace) (k : Run Steps s bs t) :
    s.queue.Dead task ∧ Spares s t task := by
  have hinit : (init q state).Invariant := ⟨by simp [init], by simp [init]⟩
  have hs : s.Invariant := h.invariant (fun _ _ _ hs hstep => hs.step hstep) hinit
  have hdead := hs.terminated task hreturned
  refine ⟨hdead, ?_⟩
  clear h hreturned hinit
  induction k with
  | nil s => exact .refl s task
  | cons hstep _ ih =>
    have hspares := step_spares hs hstep hdead
    exact hspares.trans (ih (hs.step hstep) (hspares.dead hdead))

def oneTask : SchedulerQueue Nat :=
  { SchedulerQueue.create 4 fun _ => ⟨.idle, instantMin, 0⟩ with mQueue := [0] }

/-- The task is terminated while it waits; the core takes it from the ring and closes it. -/
theorem terminated_forever_in_ring : ∃ s t : SchedulerSystem Nat,
    s.queue.status 0 = .terminated ∧ t.queue.status 0 = .closed ∧
    s.queue.Dead 0 ∧ Spares s t 0 := by
  have hrun := Run.of_foldl step (init oneTask 0) [.terminate 0, .callStep 0 false]
  have hrun' := Run.of_foldl step ([.terminate 0, .callStep 0 false].foldl step (init oneTask 0))
    (.reschedule 5 :: replicate 4 .coreStep)
  exact ⟨_, _, by decide, by decide, terminated_forever oneTask 0 hrun (by decide) hrun'⟩

end SchedulerSystem

end BezOS
