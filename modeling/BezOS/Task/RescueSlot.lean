import Mathlib.Data.List.Nodup
import BezOS.Task.SchedulerSteps

/-!
# The rescue slot

While the calls of `enqueue` take turns at the slot, a displaced task is in one place: in the slot
or in the ring. Between the push of the rescue task and the store of the null pointer the slot
still names the task, and the ring is where it is.

A task is displaced when an `enqueue` takes the place `takeNextTask` has made. So what has to be
kept is that the ring has room as long as the core has taken a task and a rescue task waits.
-/

namespace BezOS

open Lib EnqueueCall List

variable {S : Type}

namespace SchedulerQueue

variable {q q' : SchedulerQueue S} {task : TaskId}

lemma saveCurrent_eq (q : SchedulerQueue S) (state : S) :
    q.saveCurrent state = { q with entries := (q.saveCurrent state).entries } := by
  unfold saveCurrent
  split <;> rfl

lemma tryPush_spec (h : q.tryPush task = some q') :
    q.mQueue.length < q.capacity ∧ q' = { q with mQueue := q.mQueue ++ [task] } := by
  unfold tryPush at h
  split at h
  · exact ⟨‹_›, (Option.some.inj h).symm⟩
  · cases h

lemma tryPush_none (h : q.tryPush task = none) : q.capacity ≤ q.mQueue.length := by
  unfold tryPush at h
  split at h
  · cases h
  · exact Nat.le_of_not_lt ‹_›

end SchedulerQueue

/-! ## Steps of the core -/

namespace RescheduleCall

/-- The core has taken a task from the ring, and has not pushed the current one. -/
def between : RescheduleCall S → Bool
  | .moveTaskToRunning _ _ => true
  | .setCurrentTask _ => true
  | .moveTaskToIdle _ _ => true
  | .push _ _ => true
  | _ => false

/-- A step that touches neither the ring nor the slot; tasks may be dropped. -/
structure Quiet (q : SchedulerQueue S) (c : RescheduleCall S) (q' : SchedulerQueue S)
    (c' : RescheduleCall S) : Prop where
  mQueue : q'.mQueue = q.mQueue
  capacity : q'.capacity = q.capacity
  mRescueTask : q'.mRescueTask = q.mRescueTask
  tasks : (c'.tasks q'.mCurrentTask).Sublist (c.tasks q.mCurrentTask)
  between : c'.between = true → c.between = true
  exchanges : c'.exchanges = false
  noExchange : c.exchanges = false
  noPop : ∀ state, c = .pop state → q.mQueue = []

variable {q q' : SchedulerQueue S} {c c' : RescheduleCall S} {events : List SchedulerEvent}

lemma step_cases (h : c.step q = (q', c', events)) :
    Quiet q c q' c' ∨
    (∃ state task tasks, c = .pop state ∧ q.mQueue = task :: tasks ∧
      q' = { q with mQueue := tasks } ∧ c' = .moveTaskToRunning state task) ∨
    (∃ task current, c = .push task current ∧ q.tryPush current = some q' ∧ c' = .switch task) ∨
    (∃ task current, c = .push task current ∧ q.tryPush current = none ∧ q' = q ∧
      c' = .rescue task current) ∨
    (∃ task current, c = .rescue task current ∧ q.mRescueTask = none ∧
      q' = { q with mRescueTask := some current } ∧ c' = .switch task) ∨
    ∃ task current, c = .rescue task current ∧ q.mRescueTask ≠ none := by
  cases c with
  | returned result state =>
    cases h
    exact .inl ⟨rfl, rfl, rfl, .refl _, id, rfl, rfl, nofun⟩
  | pop state =>
    simp only [step] at h
    split at h
    · cases h
      exact .inr (.inl ⟨state, _, _, rfl, ‹_›, rfl, rfl⟩)
    · split at h <;> cases h <;>
        exact .inl ⟨rfl, rfl, rfl, .refl _, nofun, rfl, rfl, fun _ _ => ‹_›⟩
  | moveTaskToRunning state task =>
    simp only [step] at h
    split at h <;> cases h
    · rw [SchedulerQueue.saveCurrent_eq]
      exact .inl ⟨rfl, rfl, rfl, .refl _, fun _ => rfl, rfl, rfl, nofun⟩
    · exact .inl ⟨rfl, rfl, rfl, nil_sublist _, nofun, rfl, rfl, nofun⟩
    · exact .inl ⟨rfl, rfl, rfl, sublist_cons_self .., nofun, rfl, rfl, nofun⟩
    · exact .inl ⟨rfl, rfl, rfl, .refl _, nofun, rfl, rfl, nofun⟩
    · exact .inl ⟨rfl, rfl, rfl, nil_sublist _, nofun, rfl, rfl, nofun⟩
  | closeTaken state task =>
    cases h
    exact .inl ⟨rfl, rfl, rfl, sublist_cons_self .., nofun, rfl, rfl, nofun⟩
  | keepTaskRunning state current =>
    simp only [step] at h
    split at h <;> cases h <;>
      refine .inl ⟨rfl, rfl, rfl, ?_, nofun, rfl, rfl, nofun⟩ <;>
      simp [RescheduleCall.tasks, SchedulerQueue.stop]
  | closeKept state current =>
    cases h
    exact .inl ⟨rfl, rfl, rfl, nil_sublist _, nofun, rfl, rfl, nofun⟩
  | setCurrentTask task =>
    simp only [step] at h
    split at h
    · cases h
      exact .inl ⟨rfl, rfl, rfl, nil_sublist _, nofun, rfl, rfl, nofun⟩
    · split at h
      · cases h
        exact .inl ⟨rfl, rfl, rfl, nil_sublist _, nofun, rfl, rfl, nofun⟩
      · split at h <;> cases h
        · exact .inl ⟨rfl, rfl, rfl, by simp [RescheduleCall.tasks], nofun, rfl, rfl, nofun⟩
        · next current hcurrent =>
          have hsublist : [task, current].Sublist (task :: q.mCurrentTask.toList) := by
            simp [hcurrent]
          exact .inl ⟨rfl, rfl, rfl, hsublist, fun _ => rfl, rfl, rfl, nofun⟩
  | moveTaskToIdle task current =>
    simp only [step] at h
    split at h <;> cases h <;>
      exact .inl ⟨rfl, rfl, rfl, by simp [RescheduleCall.tasks], fun _ => rfl, rfl, rfl, nofun⟩
  | closeStopped task current =>
    cases h
    exact .inl ⟨rfl, rfl, rfl, by simp [RescheduleCall.tasks], nofun, rfl, rfl, nofun⟩
  | push task current =>
    simp only [step] at h
    split at h <;> cases h
    · exact .inr (.inr (.inl ⟨task, current, rfl, ‹_›, rfl⟩))
    · exact .inr (.inr (.inr (.inl ⟨task, current, rfl, ‹_›, rfl, rfl⟩)))
  | rescue task current =>
    simp only [step] at h
    split at h <;> cases h
    · exact .inr (.inr (.inr (.inr (.inl ⟨task, current, rfl, ‹_›, rfl, rfl⟩))))
    · exact .inr (.inr (.inr (.inr (.inr ⟨task, current, rfl, by simp [*]⟩))))
  | switch task =>
    cases h
    exact .inl ⟨rfl, rfl, rfl, by simp [RescheduleCall.tasks], nofun, rfl, rfl, nofun⟩
  | panicked =>
    cases h
    exact .inl ⟨rfl, rfl, rfl, .refl _, id, rfl, rfl, nofun⟩

end RescheduleCall

/-! ## The invariant -/

namespace RescueSystem

variable {q q' : SchedulerQueue S} {c c' : RescheduleCall S} {x y calls : List (EnqueueCall S)}
  {e e' : EnqueueCall S} {displaced : List TaskId} {task rescueTask current : TaskId} {state : S}
  {status : OsStatus}

/-- The tasks that are in the slot and not in the ring as well. -/
def waitingIn (q : SchedulerQueue S) (calls : List (EnqueueCall S)) : List TaskId :=
  if calls.any clears then [] else q.mRescueTask.toList

structure Sound (q : SchedulerQueue S) (c : RescheduleCall S) (calls : List (EnqueueCall S))
    (displaced : List TaskId) : Prop where
  bound : q.mQueue.length ≤ q.capacity
  once : ∀ a, q.mQueue.count a + (waitingIn q calls).count a +
    (c.tasks q.mCurrentTask).count a + (calls.flatMap EnqueueCall.tasks).count a ≤ 1
  kept : ∀ t ∈ displaced, t ∈ waitingIn q calls ∨ t ∈ q.mQueue
  /-- One call at a time puts the rescue task back. -/
  drains : calls.countP EnqueueCall.drains ≤ 1
  loaded : ∀ state task rescueTask, .pushRescue state task rescueTask ∈ calls →
    q.mRescueTask = some rescueTask
  /-- The place the core has made is still there. -/
  room : q.mRescueTask ≠ none → calls.any clears = false → c.between = true →
    q.mQueue.length < q.capacity
  exchange : c.exchanges = true → q.mRescueTask = none ∨ calls.any clears = true

lemma waitingIn_of_none (calls : List (EnqueueCall S)) (h : q.mRescueTask = none) :
    waitingIn q calls = [] := by
  simp [waitingIn, h]

lemma waitingIn_of_clears (h : calls.any clears = true) : waitingIn q calls = [] := by
  simp [waitingIn, h]

lemma clears_of_drains (h : e.drains = false) : e.clears = false := by
  cases e <;> first | rfl | cases h

namespace Sound

/-! ### Steps of the core -/

lemma quiet (h : Sound q c calls displaced) (hq : RescheduleCall.Quiet q c q' c') :
    Sound q' c' calls displaced := by
  have hwaiting : waitingIn q' calls = waitingIn q calls := by rw [waitingIn, hq.mRescueTask]; rfl
  refine ⟨?_, ?_, ?_, h.drains, ?_, ?_, ?_⟩
  · rw [hq.mQueue, hq.capacity]
    exact h.bound
  · intro a
    have honce := h.once a
    have hle := hq.tasks.count_le a
    rw [hq.mQueue, hwaiting]
    omega
  · rw [hq.mQueue, hwaiting]
    exact h.kept
  · rw [hq.mRescueTask]
    exact h.loaded
  · rw [hq.mRescueTask, hq.mQueue, hq.capacity]
    exact fun hrescue hclears hbetween => h.room hrescue hclears (hq.between hbetween)
  · rw [hq.exchanges]
    nofun

lemma pop {tasks : List TaskId} (h : Sound q (.pop state) calls displaced)
    (hring : q.mQueue = task :: tasks) :
    Sound { q with mQueue := tasks } (.moveTaskToRunning state task) calls
      (displaced.filter (· ≠ task)) := by
  have hbound : tasks.length < q.capacity := by
    have hbound := h.bound
    rw [hring] at hbound
    exact hbound
  refine ⟨Nat.le_of_lt hbound, ?_, ?_, h.drains, h.loaded, fun _ _ _ => hbound, nofun⟩
  · intro a
    have honce := h.once a
    simp only [hring, count_cons, RescheduleCall.tasks, waitingIn] at honce ⊢
    omega
  · intro t ht
    obtain ⟨hmem, hne⟩ := mem_filter.1 ht
    have hkept := h.kept t hmem
    rw [hring, mem_cons] at hkept
    exact hkept.imp_right fun hor => hor.resolve_left (by simpa using hne)

lemma push (h : Sound q (.push task current) calls displaced) (hpush : q.tryPush current = some q')
    :
    Sound q' (.switch task) calls displaced := by
  obtain ⟨hlt, rfl⟩ := SchedulerQueue.tryPush_spec hpush
  refine ⟨?_, ?_, ?_, h.drains, h.loaded, nofun, nofun⟩
  · simpa using Nat.succ_le_of_lt hlt
  · intro a
    have honce := h.once a
    simp only [count_append, count_cons, count_nil, RescheduleCall.tasks,
      waitingIn] at honce ⊢
    omega
  · intro t ht
    exact (h.kept t ht).imp_right (mem_append_left _)

lemma full (h : Sound q (.push task current) calls displaced) (hpush : q.tryPush current = none) :
    Sound q (.rescue task current) calls displaced := by
  have hle := SchedulerQueue.tryPush_none hpush
  refine ⟨h.bound, h.once, h.kept, h.drains, h.loaded, nofun, fun _ => ?_⟩
  -- with room for a rescue task that waits the push would not have failed
  by_contra hnot
  rw [not_or, Bool.not_eq_true] at hnot
  have hlt := h.room hnot.1 hnot.2 rfl
  omega

lemma exchange_none (h : Sound q (.rescue task current) calls displaced)
    (hclears : calls.any clears = false) (hrescue : q.mRescueTask = none) :
    Sound { q with mRescueTask := some current } (.switch task) calls
      (displaced ++ [current]) := by
  have hwaiting : waitingIn { q with mRescueTask := some current } calls = [current] := by
    simp [waitingIn, hclears]
  refine ⟨h.bound, ?_, ?_, h.drains, ?_, nofun, nofun⟩
  · intro a
    have honce := h.once a
    rw [hwaiting]
    simp only [waitingIn_of_none calls hrescue, count_cons, count_nil,
      RescheduleCall.tasks] at honce ⊢
    omega
  · intro t ht
    rw [hwaiting, mem_singleton]
    rcases mem_append.1 ht with ht | ht
    · have hkept := h.kept t ht
      rw [waitingIn_of_none calls hrescue] at hkept
      exact hkept.elim nofun .inr
    · exact .inl (mem_singleton.1 ht)
  · intro state task' rescueTask hmem
    have hloaded := h.loaded _ _ _ hmem
    rw [hrescue] at hloaded
    cases hloaded

/-! ### Steps of a call -/

section

variable (h : Sound q c (x ++ e :: y) displaced)

include h

lemma others (he : e.drains = true) :
    ∀ f ∈ x ++ y, f.drains = false := by
  intro f hf
  have hcount := h.drains
  rw [countP_append, countP_cons_of_pos he, ← Nat.add_assoc, ← countP_append]
    at hcount
  have hzero : (x ++ y).countP EnqueueCall.drains = 0 := by omega
  simpa using countP_eq_zero.1 hzero f hf

lemma drains_replace (he : e'.drains = true → e.drains = true) :
    (x ++ e' :: y).countP EnqueueCall.drains ≤ 1 := by
  have hcount := h.drains
  grind

lemma advance (he : e.drains = false) (he' : e'.drains = false) (htasks : e'.tasks.Sublist e.tasks)
    :
    Sound q c (x ++ e' :: y) displaced := by
  have hclears : (x ++ e' :: y).any clears = (x ++ e :: y).any clears := by
    simp [clears_of_drains he, clears_of_drains he']
  have hwaiting : waitingIn q (x ++ e' :: y) = waitingIn q (x ++ e :: y) := by
    rw [waitingIn, hclears]
    rfl
  refine ⟨h.bound, ?_, hwaiting ▸ h.kept, ?_, ?_, hclears ▸ h.room, hclears ▸ h.exchange⟩
  · intro a
    have honce := h.once a
    have hle := htasks.count_le a
    rw [hwaiting]
    simp only [flatMap_append, flatMap_cons, count_append] at honce ⊢
    omega
  · refine h.drains_replace fun htrue => ?_
    rw [he'] at htrue
    cases htrue
  · intro state task rescueTask hmem
    refine h.loaded state task rescueTask ?_
    have hne : .pushRescue state task rescueTask ≠ e' := by
      rintro rfl
      cases he'
    simp only [mem_append, mem_cons, hne, false_or] at hmem ⊢
    exact hmem.imp_right .inr

end

lemma of_setState (h : Sound q c calls displaced) (task : TaskId) (state : S) :
    Sound (q.setState task state) c calls displaced :=
  ⟨h.bound, h.once, h.kept, h.drains, h.loaded, h.room, h.exchange⟩

lemma load (h : Sound q c (x ++ .loadRescue state task :: y) displaced)
    (hrescue : q.mRescueTask = some rescueTask) (hothers : ∀ f ∈ x ++ y, f.drains = false) :
    Sound q c (x ++ .pushRescue state task rescueTask :: y) displaced := by
  have hwaiting : waitingIn q (x ++ .pushRescue state task rescueTask :: y) =
      waitingIn q (x ++ .loadRescue state task :: y) := by
    simp [waitingIn, clears]
  refine ⟨h.bound, ?_, hwaiting ▸ h.kept, ?_, ?_, ?_, ?_⟩
  · intro a
    rw [hwaiting]
    simpa [EnqueueCall.tasks] using h.once a
  · have hzero : (x ++ y).countP EnqueueCall.drains = 0 :=
      countP_eq_zero.2 fun f hf => by simp [hothers f hf]
    rw [countP_append] at hzero
    rw [countP_append, countP_cons_of_pos rfl]
    omega
  · intro state' task' rescueTask' hmem
    rcases mem_append.1 hmem with hmem | hmem
    · cases hothers _ (mem_append_left _ hmem)
    · rcases mem_cons.1 hmem with heq | hmem
      · cases heq
        exact hrescue
      · cases hothers _ (mem_append_right _ hmem)
  · simpa [clears] using h.room
  · simpa [clears] using h.exchange

lemma drain (h : Sound q c (x ++ .pushRescue state task rescueTask :: y) displaced)
    (hpush : q.tryPush rescueTask = some q') :
    Sound q' c (x ++ .clearRescue state task :: y) displaced := by
  have hrescue : q.mRescueTask = some rescueTask := h.loaded state task rescueTask (by simp)
  obtain ⟨hlt, rfl⟩ := SchedulerQueue.tryPush_spec hpush
  have hothers := h.others rfl
  have hclear : ∀ f ∈ x ++ y, f.clears = false := fun f hf => clears_of_drains (hothers f hf)
  have hbefore : waitingIn q (x ++ .pushRescue state task rescueTask :: y) = [rescueTask] := by
    have hx : ∀ f ∈ x, f.clears = false := fun f hf => hclear f (mem_append_left _ hf)
    have hy : ∀ f ∈ y, f.clears = false := fun f hf => hclear f (mem_append_right _ hf)
    have hany : (x ++ .pushRescue state task rescueTask :: y).any clears = false := by
      simpa [clears] using ⟨hx, hy⟩
    simp [waitingIn, hany, hrescue]
  have hany : (x ++ .clearRescue state task :: y).any clears = true := by
    simp [clears]
  refine ⟨?_, ?_, ?_, ?_, ?_, ?_, fun _ => .inr hany⟩
  · simpa using Nat.succ_le_of_lt hlt
  · intro a
    have honce := h.once a
    rw [hbefore] at honce
    rw [waitingIn_of_clears hany]
    simp only [count_append, flatMap_append, flatMap_cons, EnqueueCall.tasks,
      count_nil] at honce ⊢
    omega
  · intro t ht
    have hkept := h.kept t ht
    rw [hbefore, mem_singleton] at hkept
    right
    rw [mem_append, mem_singleton]
    exact hkept.symm
  · exact h.drains_replace fun _ => rfl
  · intro state' task' rescueTask' hmem
    simp only [mem_append, mem_cons, reduceCtorEq, false_or] at hmem
    cases hothers _ (mem_append.2 hmem)
  · rw [hany]
    nofun

lemma drain_full (h : Sound q c (x ++ .pushRescue state task rescueTask :: y) displaced) :
    Sound q c (x ++ .returned status :: y) displaced := by
  have hwaiting : waitingIn q (x ++ .returned status :: y) =
      waitingIn q (x ++ .pushRescue state task rescueTask :: y) := by
    simp [waitingIn, clears]
  refine ⟨h.bound, ?_, hwaiting ▸ h.kept, ?_, ?_, ?_, ?_⟩
  · intro a
    have honce := h.once a
    rw [hwaiting]
    simp only [count_append, flatMap_append, flatMap_cons, EnqueueCall.tasks,
      count_nil] at honce ⊢
    omega
  · exact h.drains_replace nofun
  · intro state' task' rescueTask' hmem
    refine h.loaded state' task' rescueTask' ?_
    simp only [mem_append, mem_cons, reduceCtorEq, false_or] at hmem
    simp only [mem_append, mem_cons]
    exact hmem.imp_right .inr
  · simpa [clears] using h.room
  · simpa [clears] using h.exchange

lemma clear (h : Sound q c (x ++ .clearRescue state task :: y) displaced) :
    Sound { q with mRescueTask := none } c (x ++ .push state task :: y) displaced := by
  have hbefore : waitingIn q (x ++ .clearRescue state task :: y) = [] :=
    waitingIn_of_clears (by simp [clears])
  have hothers := h.others rfl
  refine ⟨h.bound, ?_, ?_, ?_, ?_, fun hrescue => absurd rfl hrescue, fun _ => .inl rfl⟩
  · intro a
    have honce := h.once a
    rw [hbefore] at honce
    rw [waitingIn_of_none _ rfl]
    simpa [EnqueueCall.tasks] using honce
  · intro t ht
    have hkept := h.kept t ht
    rw [hbefore] at hkept
    exact .inr (hkept.resolve_left nofun)
  · exact h.drains_replace nofun
  · intro state' task' rescueTask' hmem
    simp only [mem_append, mem_cons, reduceCtorEq, false_or] at hmem
    cases hothers _ (mem_append.2 hmem)

lemma enqueued (h : Sound q c (x ++ .push state task :: y) displaced)
    (hrescue : q.mRescueTask = none) (hlt : q.mQueue.length < q.capacity) :
    Sound { q with mQueue := q.mQueue ++ [task] } c (x ++ .returned status :: y) displaced := by
  have h' : Sound q c (x ++ .returned status :: y) displaced :=
    h.advance rfl rfl (nil_sublist _)
  refine ⟨?_, ?_, ?_, h'.drains, h'.loaded, fun hne => absurd hrescue hne, h'.exchange⟩
  · simpa using Nat.succ_le_of_lt hlt
  · intro a
    have honce := h.once a
    rw [waitingIn_of_none (q := { q with mQueue := q.mQueue ++ [task] }) _ hrescue]
    simp only [count_append, flatMap_append, flatMap_cons, EnqueueCall.tasks,
      count_nil] at honce ⊢
    omega
  · intro t ht
    exact (h'.kept t ht).imp_right (mem_append_left _)

lemma of_entries (h : Sound q c calls displaced) (hq : q' = { q with entries := q'.entries }) :
    Sound q' c calls displaced := by
  rw [hq]
  exact ⟨h.bound, h.once, h.kept, h.drains, h.loaded, h.room, h.exchange⟩

lemma start (h : Sound q c calls displaced)
    (hfresh : task ∉ q.mQueue ++ (q.mRescueTask.toList ++ (c.tasks q.mCurrentTask ++
      calls.flatMap EnqueueCall.tasks))) :
    Sound q c (calls ++ [.assertIdle state task]) displaced := by
  have hclears : (calls ++ [EnqueueCall.assertIdle state task]).any clears =
      calls.any clears := by
    rw [any_append]
    exact Bool.or_false _
  have hwaiting : waitingIn q (calls ++ [.assertIdle state task]) = waitingIn q calls := by
    rw [waitingIn, hclears]
    rfl
  refine ⟨h.bound, ?_, hwaiting ▸ h.kept, ?_, ?_, hclears ▸ h.room, hclears ▸ h.exchange⟩
  · intro a
    have honce := h.once a
    rw [hwaiting]
    simp only [flatMap_append, flatMap_cons, flatMap_nil, EnqueueCall.tasks,
      append_nil, count_append, count_singleton]
    split
    · next heq =>
      obtain rfl : task = a := by simpa using heq
      simp only [mem_append, not_or] at hfresh
      have hslot : task ∉ waitingIn q calls := by
        unfold waitingIn
        split
        · simp
        · exact hfresh.2.1
      have hring := count_eq_zero_of_not_mem hfresh.1
      have hwaits := count_eq_zero_of_not_mem hslot
      have hcore := count_eq_zero_of_not_mem hfresh.2.2.1
      have hcalls := count_eq_zero_of_not_mem hfresh.2.2.2
      omega
    · exact honce
  · simpa [countP_append, EnqueueCall.drains] using h.drains
  · intro state' task' rescueTask hmem
    exact h.loaded state' task' rescueTask (by simpa using hmem)

/-! ### Whole steps -/

lemma enqueueStep (h : Sound q c (x ++ e :: y) displaced)
    (hload : ∀ state task, e = .loadRescue state task →
      q.mRescueTask = none ∨ ∀ f ∈ x ++ e :: y, f.drains = false)
    (hpush : ∀ state task, e = .push state task → q.mRescueTask = none)
    (hstep : e.step q = (q', e')) : Sound q' c (x ++ e' :: y) displaced := by
  cases e with
  | assertIdle state task =>
    simp only [EnqueueCall.step] at hstep
    split at hstep <;> cases hstep
    · exact h.advance rfl rfl (.refl _)
    · exact h.advance rfl rfl (nil_sublist _)
  | loadRescue state task =>
    simp only [EnqueueCall.step] at hstep
    split at hstep <;> cases hstep
    · exact h.advance rfl rfl (.refl _)
    · next hrescue =>
      have hothers := (hload state task rfl).resolve_left (by simp [hrescue])
      refine h.load hrescue fun f hf => hothers f ?_
      simp only [mem_append, mem_cons] at hf ⊢
      exact hf.imp_right .inr
  | pushRescue state task rescueTask =>
    simp only [EnqueueCall.step] at hstep
    split at hstep <;> cases hstep
    · exact h.drain ‹_›
    · exact h.drain_full
  | clearRescue state task =>
    cases hstep
    exact h.clear
  | push state task =>
    have hrescue := hpush state task rfl
    simp only [EnqueueCall.step] at hstep
    split at hstep <;> cases hstep
    · next htry =>
      obtain ⟨hlt, rfl⟩ := SchedulerQueue.tryPush_spec htry
      exact (h.of_setState task state).enqueued hrescue hlt
    · exact (h.of_setState task state).advance rfl rfl (nil_sublist _)
  | returned status =>
    cases hstep
    exact h
  | panicked =>
    cases hstep
    exact h

end Sound

variable {s t : RescueSystem S} {action : RescueAction S} {as : List (RescueAction S)}

structure Invariant (s : RescueSystem S) : Prop where
  sound : Sound s.queue s.core s.enqueues s.displaced
  failed : s.failed = false

lemma Invariant.coreStep (h : s.Invariant) (hcareful : s.CarefulCore) :
    (s.step (.sched .coreStep)).Invariant := by
  have hsound := h.sound
  rcases hstep : s.core.step s.queue with ⟨q', c', events⟩
  have hqueue : (s.step (.sched .coreStep)).queue = q' := by
    simp only [step, SchedulerSystem.step, hstep]
  have hcore : (s.step (.sched .coreStep)).core = c' := by
    simp only [step, SchedulerSystem.step, hstep]
  suffices hboth : Sound q' c' s.enqueues s.displacedNext ∧ s.exchangeFails = false by
    refine ⟨?_, ?_⟩
    · rw [hqueue, hcore]
      exact hboth.1
    · simp [step, h.failed, hboth.2]
  unfold displacedNext exchangeFails
  unfold CarefulCore at hcareful
  generalize s.core = c at hsound hstep hcareful
  rcases RescheduleCall.step_cases hstep with hquiet | ⟨state, task, tasks, rfl, hring, rfl, rfl⟩ |
    ⟨task, current, rfl, hpush, rfl⟩ | ⟨task, current, rfl, hpush, rfl, rfl⟩ |
    ⟨task, current, rfl, hrescue, rfl, rfl⟩ | ⟨task, current, rfl, hrescue⟩
  · refine ⟨?_, by simp [hquiet.noExchange]⟩
    have hsame := hsound.quiet hquiet
    split
    · next hring => simp [hquiet.noPop _ rfl] at hring
    · exact absurd hquiet.noExchange nofun
    · exact hsame
  · rw [hring]
    exact ⟨hsound.pop hring, rfl⟩
  · exact ⟨hsound.push hpush, rfl⟩
  · exact ⟨hsound.full hpush, rfl⟩
  · refine ⟨hsound.exchange_none (hcareful rfl) hrescue, ?_⟩
    simp [RescheduleCall.exchanges, hrescue]
  · -- the exchange comes when no call is at its store, so that the slot is empty
    have hclears := hcareful rfl
    rcases hsound.exchange rfl with hnone | hclearing
    · exact absurd hnone hrescue
    · rw [clearing, hclearing] at hclears
      cases hclears

lemma entryCall_queue (e : EntryCall) (spurious : Bool) :
    (e.step q spurious).1 = { q with entries := (e.step q spurious).1.entries } := by
  cases e <;> simp only [EntryCall.step] <;> (repeat' split) <;> rfl

lemma Invariant.sched {a : SchedulerAction S} (h : s.Invariant) (ha : a.isCoreStep = false) :
    (s.step (.sched a)).Invariant := by
  have hstep : s.step (.sched a) = { s with toSchedulerSystem := s.toSchedulerSystem.step a } := by
    cases a <;> first | rfl | cases ha
  rw [hstep]
  refine ⟨?_, h.failed⟩
  have hsound := h.sound
  cases a with
  | coreStep => cases ha
  | callStep call spurious =>
    simp only [SchedulerSystem.step]
    split
    · exact hsound
    · exact hsound.of_entries (entryCall_queue ..)
  | reschedule state =>
    simp only [SchedulerSystem.step]
    split
    · next hcore =>
      rw [hcore] at hsound
      exact ⟨hsound.bound, hsound.once, hsound.kept, hsound.drains, hsound.loaded, nofun, nofun⟩
    · exact hsound
  | sleep task timeout => exact hsound
  | wake task => exact hsound
  | terminate task => exact hsound
  | wakeIfTimeout task now => exact hsound

lemma Invariant.enqueueStep {call : Nat} (h : s.Invariant)
    (hcareful : ∀ e ∈ s.enqueues[call]?, s.CarefulCall e) :
    (s.step (.enqueueStep call)).Invariant := by
  simp only [step]
  split
  · exact h
  · next e hget =>
    have hturn := hcareful e hget
    obtain ⟨x, y, hcut, hset⟩ := exists_split hget
    refine ⟨?_, h.failed⟩
    have hsound := h.sound
    simp only [hset]
    rw [hcut] at hsound
    refine hsound.enqueueStep ?_ ?_ rfl
    · rintro state task rfl
      rw [← hcut]
      exact hturn
    · rintro state task rfl
      exact hturn

lemma Invariant.step (h : s.Invariant) (hstep : CarefulSteps s action t) : t.Invariant := by
  obtain ⟨hcareful, rfl⟩ := hstep
  cases action with
  | sched a =>
    cases ha : a.isCoreStep with
    | false => exact h.sched ha
    | true =>
      obtain rfl : a = .coreStep := by cases a <;> first | rfl | cases ha
      exact h.coreStep (hcareful rfl)
  | enqueue task state => exact ⟨h.sound.start hcareful, h.failed⟩
  | enqueueStep call => exact h.enqueueStep hcareful

lemma Invariant.init (capacity : Nat) (entries : TaskId → SchedulerEntry S) (state : S) :
    (init capacity entries state).Invariant where
  sound := ⟨Nat.zero_le _, by simp [RescueSystem.init, SchedulerSystem.init,
    SchedulerQueue.create, waitingIn, RescheduleCall.tasks], nofun, Nat.zero_le _, nofun, nofun, nofun⟩
  failed := rfl

/-! ## Displaced tasks -/

/-- No exchange has found a task. A displaced task is once in the slot or once in the ring; while
a call has yet to empty the slot, it is in the ring. -/
structure Kept (s : RescueSystem S) : Prop where
  failed : s.failed = false
  kept : s.clearing = false → ∀ task ∈ s.displaced,
    (s.queue.mRescueTask.toList ++ s.queue.mQueue).count task = 1
  clearing : s.clearing = true → ∀ task ∈ s.displaced, s.queue.mQueue.count task = 1

lemma Invariant.count_eq_one {task : TaskId} (h : s.Invariant) (htask : task ∈ s.displaced) :
    (s.waiting ++ s.queue.mQueue).count task = 1 := by
  have honce := h.sound.once task
  have hpos : 0 < (s.waiting ++ s.queue.mQueue).count task := by
    rw [count_pos_iff, mem_append]
    exact h.sound.kept task htask
  rw [count_append] at hpos ⊢
  change _ + s.waiting.count task + _ + _ ≤ 1 at honce
  omega

lemma Invariant.keeps (h : s.Invariant) : s.Kept where
  failed := h.failed
  kept hclearing task htask := by
    have hcount := h.count_eq_one htask
    simpa [waiting, hclearing] using hcount
  clearing hclearing task htask := by
    have hcount := h.count_eq_one htask
    simpa [waiting, hclearing] using hcount

/-- While the calls take turns at the slot, no displaced task is lost or doubled, and the
assertion holds. -/
theorem kept_of_careful (capacity : Nat) (entries : TaskId → SchedulerEntry S) (state : S)
    (h : Run CarefulSteps (RescueSystem.init capacity entries state) as s) : s.Kept :=
  (h.invariant (fun _ _ _ hs hstep => hs.step hstep) (Invariant.init capacity entries state)).keeps

/-- The state after the given actions, if the guard lets every one of them pass. -/
def runOf (G : RescueSystem S → RescueAction S → Prop) [∀ s, DecidablePred (G s)]
    (s : RescueSystem S) (as : List (RescueAction S)) : Option (RescueSystem S) :=
  runGuarded G (fun s a => (.ok (s.step a) : Except Fault _)) s as

lemma run_of_runOf {G : RescueSystem S → RescueAction S → Prop} [∀ s, DecidablePred (G s)]
    (h : runOf G s as = some t) : Run (fun s a t => G s a ∧ s.step a = t) s as t :=
  (Run.of_runGuarded h).mono fun _ _ _ ⟨hguard, hstep⟩ => ⟨hguard, Except.ok.inj hstep⟩

def start : RescueSystem Nat := init 1 (fun _ => ⟨.idle, instantMin, 0⟩) 0

def coreSteps (count : Nat) : List (RescueAction Nat) := replicate count (.sched .coreStep)

def enqueueSteps (call count : Nat) : List (RescueAction Nat) :=
  replicate count (.enqueueStep call)

/-- Task 1 runs, task 2 has the only place of the ring, and a call with task 3 has looked at the
empty slot. The core takes task 2, the call takes its place, and task 1 is displaced. -/
def displaceOne : List (RescueAction Nat) :=
  .enqueue 1 0 :: enqueueSteps 0 3 ++ .sched (.reschedule 0) :: coreSteps 4 ++
    .enqueue 2 0 :: enqueueSteps 1 3 ++ .enqueue 3 0 :: enqueueSteps 2 2

/-- A call that has looked at the slot before task 1 was in it takes the place of task 3. -/
def pushPast : List (RescueAction Nat) :=
  displaceOne ++ .enqueue 4 0 :: enqueueSteps 3 2 ++ .sched (.reschedule 0) :: coreSteps 1 ++
    enqueueSteps 2 1 ++ coreSteps 6 ++ .sched (.reschedule 0) :: coreSteps 1 ++
    enqueueSteps 3 1 ++ coreSteps 5

/-- Two calls have read task 1 from the slot. The first one puts it back, task 2 is displaced, and
the second one puts task 1 back again and empties the slot. -/
def drainTwice : List (RescueAction Nat) :=
  displaceOne ++ .sched (.reschedule 0) :: coreSteps 1 ++ enqueueSteps 2 1 ++ coreSteps 6 ++
    .enqueue 4 0 :: enqueueSteps 3 2 ++ .enqueue 5 0 :: enqueueSteps 4 2 ++
    .sched (.reschedule 0) :: coreSteps 1 ++ enqueueSteps 3 2 ++ coreSteps 6 ++
    .sched (.reschedule 0) :: coreSteps 1 ++ enqueueSteps 4 2

/-- The assertion fails, and a displaced task gets lost. -/
theorem rescue_slot_loses :
    (∃ s, Run FreshSteps start pushPast s ∧ s.failed = true) ∧
      ∃ s, Run FreshSteps start drainTwice s ∧ s.failed = false ∧ 2 ∈ s.displaced ∧
        s.queue.mRescueTask = none ∧ 2 ∉ s.queue.mQueue := by
  constructor
  · have hrun : (runOf Fresh start pushPast).map (fun s => s.failed) = some true := by
      decide +kernel
    obtain ⟨s, hs, hfailed⟩ := Option.map_eq_some_iff.1 hrun
    exact ⟨s, run_of_runOf hs, hfailed⟩
  · have hrun : (runOf Fresh start drainTwice).map (fun s =>
        (s.failed, s.displaced, s.queue.mRescueTask, s.queue.mQueue)) =
          some (false, [2], none, [1]) := by
      decide +kernel
    obtain ⟨s, hs, hparts⟩ := Option.map_eq_some_iff.1 hrun
    simp only [Prod.mk.injEq] at hparts
    obtain ⟨hfailed, hdisplaced, hrescue, hring⟩ := hparts
    exact ⟨s, run_of_runOf hs, hfailed, by simp [hdisplaced], hrescue, by simp [hring]⟩

def drainOnce : List (RescueAction Nat) :=
  displaceOne ++ .sched (.reschedule 0) :: coreSteps 1 ++ enqueueSteps 2 1 ++ coreSteps 6 ++
    .sched (.reschedule 0) :: coreSteps 1 ++ .enqueue 4 0 :: enqueueSteps 3 4

theorem kept_of_drainOnce : ∃ s, Run CarefulSteps start drainOnce s ∧ s.Kept ∧
    s.displaced = [1] ∧ s.queue.mQueue = [1] ∧ s.queue.mRescueTask = none := by
  have hrun : (runOf Careful start drainOnce).map (fun s =>
      (s.displaced, s.queue.mQueue, s.queue.mRescueTask)) = some ([1], [1], none) := by
    decide +kernel
  obtain ⟨s, hs, hparts⟩ := Option.map_eq_some_iff.1 hrun
  simp only [Prod.mk.injEq] at hparts
  exact ⟨s, run_of_runOf hs, kept_of_careful _ _ _ (run_of_runOf hs), hparts⟩

end RescueSystem

end BezOS
