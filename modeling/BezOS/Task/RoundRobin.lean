import Mathlib.Data.Int.CardIntervalMod
import Mathlib.Data.List.Rotate
import BezOS.Task.SchedulerRing

/-!
# Round robin

A queue whose tasks neither sleep nor terminate hands the core on in the order they were enqueued.
The task that stops goes to the end of the ring, so the tasks waiting and the current one are a
rotation of that order; each reschedule turns it by one.
-/

namespace BezOS

open Nat List

namespace SchedulerQueue

variable {S : Type} {q : SchedulerQueue S} {order rest : List TaskId} {task current : TaskId}
  {state : S}

/-! ## Turns -/

/-- The tasks wait in this order, the current one last. -/
structure InTurn (q : SchedulerQueue S) (order : List TaskId) : Prop where
  nodup : order.Nodup
  room : order.length ≤ q.capacity
  rescue : q.mRescueTask = none
  order : q.mQueue ++ q.mCurrentTask.toList = order
  idle : ∀ t ∈ q.mQueue, q.status t = .idle
  running : ∀ t ∈ q.mCurrentTask, q.status t = .running

lemma status_setStatus_self (q : SchedulerQueue S) (task : TaskId) (status : TaskStatus) :
    (q.setStatus task status).status task = status := by
  simp [SchedulerQueue.status, setStatus, setEntry]

lemma status_setStatus_of_ne {t : TaskId} (h : t ≠ task) (status : TaskStatus) :
    (q.setStatus task status).status t = q.status t := by
  simp [SchedulerQueue.status, setStatus, setEntry, Function.update_of_ne h]

lemma takeNextTask_cons (hqueue : q.mQueue = task :: rest) (hidle : q.status task = .idle) :
    q.takeNextTask = .ok (some task, { q.setStatus task .running with mQueue := rest }) := by
  rw [takeNextTask, hqueue, takeNextTaskFrom, moveTaskToRunning, hidle]
  rfl

lemma keepTaskRunning_of_running (h : q.status task = .running) :
    q.keepTaskRunning task = .ok (true, q) := by
  rw [keepTaskRunning, h]

lemma setCurrentTask_of_running (hcurrent : q.mCurrentTask = some current)
    (hstop : q.status current = .running) (hnext : q.status task = .running) (hne : current ≠ task)
    (hroom : q.mQueue.length < q.capacity) :
    q.setCurrentTask task = .ok { q.setStatus current .idle with
      mQueue := q.mQueue ++ [current], mCurrentTask := some task } := by
  have hdiff : ¬ q.mCurrentTask = some task := by
    rw [hcurrent]
    exact fun heq => hne (Option.some.inj heq)
  have hopen : ¬ q.status task = .closed := by
    rw [hnext]
    decide
  have hpush : (q.setStatus current .idle).tryPush current =
      some { q.setStatus current .idle with mQueue := q.mQueue ++ [current] } := if_pos hroom
  rw [setCurrentTask, if_neg hdiff, if_neg hopen, hcurrent]
  simp only [moveTaskToIdle, hstop, bind, Except.bind, if_true, hpush]
  rfl

lemma reschedule_of_take {q1 q2 : SchedulerQueue S}
    (htake : q.takeNextTask = .ok (some task, q1))
    (hset : (q1.saveCurrent state).setCurrentTask task = .ok q2) :
    q.reschedule state = .ok (.resume, (q2.entries task).mState, q2) := by
  rw [SchedulerQueue.reschedule, htake]
  simp only [bind, Except.bind, hset, pure, Except.pure]

lemma reschedule_of_keep {q1 q2 : SchedulerQueue S} (htake : q.takeNextTask = .ok (none, q1))
    (hcurrent : q1.mCurrentTask = some task) (hkeep : q1.keepTaskRunning task = .ok (true, q2)) :
    q.reschedule state = .ok (.resume, state, q2) := by
  rw [SchedulerQueue.reschedule, htake]
  simp [bind, Except.bind, hcurrent, hkeep, pure, Except.pure]

lemma InTurn.reschedule_alone (h : q.InTurn (task :: rest)) (hqueue : q.mQueue = [])
    (state : S) :
    ∃ stored q', q.reschedule state = .ok (.resume, stored, q') ∧
      q'.InTurn (rest ++ [task]) ∧ q'.mCurrentTask = some task := by
  have horder := h.order
  rw [hqueue, nil_append] at horder
  obtain ⟨hcurrent, rfl⟩ : q.mCurrentTask = some task ∧ rest = [] := by
    cases hc : q.mCurrentTask with
    | none => simp [hc] at horder
    | some c =>
      simp only [hc, Option.toList_some, List.cons.injEq] at horder
      exact ⟨by rw [horder.1], horder.2.symm⟩
  have hkeep : ({ q with mQueue := [] } : SchedulerQueue S).keepTaskRunning task =
      .ok (true, { q with mQueue := [] }) := keepTaskRunning_of_running (h.running task hcurrent)
  have htake : q.takeNextTask = .ok (none, { q with mQueue := [] }) := by
    rw [takeNextTask, hqueue, takeNextTaskFrom]
  refine ⟨_, _, reschedule_of_keep htake hcurrent hkeep,
    ⟨h.nodup, h.room, h.rescue, ?_, ?_, h.running⟩, hcurrent⟩
  · simp [hcurrent]
  · intro t ht
    cases ht

lemma InTurn.reschedule_first (h : q.InTurn (task :: rest)) (hcurrent : q.mCurrentTask = none)
    (state : S) :
    ∃ stored q', q.reschedule state = .ok (.resume, stored, q') ∧
      q'.InTurn (rest ++ [task]) ∧ q'.mCurrentTask = some task := by
  have hqueue := h.order
  rw [hcurrent, Option.toList_none, append_nil] at hqueue
  have htake := takeNextTask_cons hqueue (h.idle task (by simp [hqueue]))
  -- the queue with the task taken
  obtain ⟨q1, hq1⟩ : ∃ q1 : SchedulerQueue S,
    q1 = { q.setStatus task .running with mQueue := rest } := ⟨_, rfl⟩
  have hnone : q1.mCurrentTask = none := by
    rw [hq1]
    exact hcurrent
  have hnext : q1.status task = .running := by
    rw [hq1]
    exact status_setStatus_self q task .running
  have hset : (q1.saveCurrent state).setCurrentTask task =
      .ok { q1 with mCurrentTask := some task } := by
    have hopen : ¬ q1.status task = .closed := by
      rw [hnext]
      decide
    rw [saveCurrent, hnone]
    simp [setCurrentTask, hnone, if_false, if_neg hopen]
  rw [← hq1] at htake
  refine ⟨_, _, reschedule_of_take htake hset, ⟨?_, ?_, ?_, ?_, ?_, ?_⟩, rfl⟩
  · exact (perm_append_singleton task rest).nodup_iff.2 h.nodup
  · rw [hq1]
    change _ ≤ q.capacity
    simpa using h.room
  · rw [hq1]
    exact h.rescue
  · rw [hq1]
    rfl
  · intro t ht
    rw [hq1] at ht
    have hne : t ≠ task := ne_of_mem_of_not_mem ht (nodup_cons.1 h.nodup).1
    have hidle := h.idle t (by rw [hqueue]; exact mem_cons_of_mem _ ht)
    rw [hq1]
    exact (status_setStatus_of_ne hne .running).trans hidle
  · intro t ht
    obtain rfl : task = t := Option.some.inj ht
    exact hnext

lemma InTurn.reschedule_next {waiting : List TaskId} (h : q.InTurn (task :: (waiting ++ [current])))
    (hqueue : q.mQueue = task :: waiting) (hcurrent : q.mCurrentTask = some current) (state : S) :
    ∃ stored q', q.reschedule state = .ok (.resume, stored, q') ∧
      q'.InTurn (waiting ++ [current] ++ [task]) ∧ q'.mCurrentTask = some task := by
  have hnodup := nodup_cons.1 h.nodup
  have hne : current ≠ task := fun heq => hnodup.1 (by simp [heq])
  have htake := takeNextTask_cons hqueue (h.idle task (by simp [hqueue]))
  -- the queue in which the current task stops
  obtain ⟨q1, hq1⟩ : ∃ q1 : SchedulerQueue S, q1 = ({ q.setStatus task .running with
    mQueue := waiting } : SchedulerQueue S).setState current state := ⟨_, rfl⟩
  have hsave : ({ q.setStatus task .running with mQueue := waiting } :
      SchedulerQueue S).saveCurrent state = q1 := by
    have hsome : (q.setStatus task .running).mCurrentTask = some current := hcurrent
    simp only [saveCurrent, hsome, hq1]
  have hstatus : ∀ t, q1.status t = (q.setStatus task .running).status t := by
    intro t
    rw [hq1]
    exact status_setState _ current t state
  have hstop : q1.status current = .running := by
    rw [hstatus, status_setStatus_of_ne hne, h.running current hcurrent]
  have hnext : q1.status task = .running := by
    rw [hstatus, status_setStatus_self]
  have hqueue1 : q1.mQueue = waiting := by
    rw [hq1]
    rfl
  have hcapacity1 : q1.capacity = q.capacity := by
    rw [hq1]
    rfl
  have hroom := h.room
  simp only [length_cons, length_append, length_nil] at hroom
  have hset := setCurrentTask_of_running (by rw [hq1]; exact hcurrent) hstop hnext hne
    (by rw [hqueue1, hcapacity1]; omega)
  rw [hqueue1] at hset
  rw [← hsave] at hset
  refine ⟨_, _, reschedule_of_take htake hset, ⟨?_, ?_, ?_, rfl, ?_, ?_⟩, rfl⟩
  · exact (perm_append_singleton task _).nodup_iff.2 h.nodup
  · rw [hsave]
    change _ ≤ q1.capacity
    rw [hcapacity1]
    simp only [length_append, length_singleton]
    omega
  · rw [hsave]
    rw [hq1]
    exact h.rescue
  · intro t ht
    rw [hsave]
    change (q1.setStatus current .idle).status t = .idle
    rcases mem_append.1 ht with ht | ht
    · have hnt : t ≠ task := fun heq => hnodup.1 (by simp [← heq, ht])
      have hnc : t ≠ current := (nodup_append.1 hnodup.2).2.2 t ht current (by simp)
      rw [status_setStatus_of_ne hnc, hstatus, status_setStatus_of_ne hnt]
      exact h.idle t (by simp [hqueue, ht])
    · rw [mem_singleton.1 ht, status_setStatus_self]
  · intro t ht
    obtain rfl : task = t := Option.some.inj ht
    rw [hsave]
    change (q1.setStatus current .idle).status task = .running
    rw [status_setStatus_of_ne hne.symm, hnext]

lemma InTurn.reschedule (h : q.InTurn (task :: rest)) (state : S) :
    ∃ stored q', q.reschedule state = .ok (.resume, stored, q') ∧
      q'.InTurn (rest ++ [task]) ∧ q'.mCurrentTask = some task := by
  rcases hqueue : q.mQueue with _ | ⟨first, waiting⟩
  · exact h.reschedule_alone hqueue state
  · cases hcurrent : q.mCurrentTask with
    | none => exact h.reschedule_first hcurrent state
    | some current =>
      have horder := h.order
      rw [hqueue, hcurrent, Option.toList_some, cons_append, List.cons.injEq] at horder
      obtain ⟨rfl, rfl⟩ := horder
      exact h.reschedule_next hqueue hcurrent state

lemma InTurn.enqueue (h : q.InTurn order) (hnone : q.mCurrentTask = none)
    (hfresh : task ∉ order) (hidle : q.status task = .idle) (hroom : order.length < q.capacity)
    (state : S) :
    ∃ q', q.enqueue state task = .ok (.success, q') ∧ q'.InTurn (order ++ [task]) ∧
      q'.mCurrentTask = none ∧ q'.capacity = q.capacity ∧ ∀ t, q'.status t = q.status t := by
  have horder := h.order
  rw [hnone, Option.toList_none, append_nil] at horder
  have hpush : (q.setState task state).tryPush task =
      some { q.setState task state with mQueue := q.mQueue ++ [task] } := by
    have hlt : (q.setState task state).mQueue.length < (q.setState task state).capacity := by
      change q.mQueue.length < q.capacity
      rw [horder]
      exact hroom
    rw [tryPush, if_pos hlt]
    rfl
  refine ⟨{ q.setState task state with mQueue := q.mQueue ++ [task] }, ?_,
    ⟨?_, ?_, h.rescue, ?_, ?_, ?_⟩, hnone, rfl, fun t => status_setState q task t state⟩
  · rw [SchedulerQueue.enqueue, if_neg (by simpa using hidle), drainRescue, h.rescue]
    simp only [hpush]
  · exact nodup_append.2 ⟨h.nodup, by simp, by
      rintro a ha b hb rfl
      exact hfresh (mem_singleton.1 hb ▸ ha)⟩
  · simp only [length_append, length_singleton]
    exact hroom
  · change (q.mQueue ++ [task]) ++ q.mCurrentTask.toList = _
    rw [hnone, horder]
    simp
  · intro t ht
    change (q.setState task state).status t = _
    rw [status_setState]
    rcases mem_append.1 ht with ht | ht
    · exact h.idle t ht
    · rw [mem_singleton.1 ht, hidle]
  · intro t ht
    change q.mCurrentTask = some t at ht
    rw [hnone] at ht
    cases ht

end SchedulerQueue
/-! ## Windows of a periodic sequence -/

section Windows

variable {ids : List TaskId} {x y : TaskId}

lemma countP_range' (p : Nat → Prop) [DecidablePred p] (start n : Nat) :
    (range' start n).countP (fun j => decide (p j)) + count p start =
      count p (start + n) := by
  induction n with
  | zero => simp
  | succ n ih =>
    rw [range'_1_concat, countP_append, add_succ, count_succ, ← ih]
    by_cases hp : p (start + n) <;> simp [hp]; omega

lemma count_window_le (hnodup : ids.Nodup) (hx : x ∈ ids) (hy : y ∈ ids) (start n : Nat) :
    ((range' start n).map fun j => ids[j % ids.length]?).count (some x) ≤
      ((range' start n).map fun j => ids[j % ids.length]?).count (some y) + 1 := by
  have hlen : 0 < ids.length := length_pos_of_mem hx
  have hcount : ∀ z ∈ ids, ∃ v < ids.length,
      ((range' start n).map fun j => ids[j % ids.length]?).count (some z) +
        (start / ids.length + if v < start % ids.length then 1 else 0) =
          (start + n) / ids.length + if v < (start + n) % ids.length then 1 else 0 := by
    intro z hz
    obtain ⟨v, hv, rfl⟩ := mem_iff_getElem.1 hz
    refine ⟨v, hv, ?_⟩
    have hiff : ∀ j, ids[j % ids.length]? = some ids[v] ↔ j ≡ v [MOD ids.length] := by
      intro j
      have hj : j % ids.length < ids.length := mod_lt _ hlen
      rw [getElem?_eq_getElem hj, Option.some.injEq, hnodup.getElem_inj_iff, Nat.ModEq,
        mod_eq_of_lt hv]
    have hsum := countP_range' (· ≡ v [MOD ids.length]) start n
    rw [count_modEq_card _ hlen, count_modEq_card _ hlen, mod_eq_of_lt hv] at hsum
    rw [count_eq_countP, countP_map, ← hsum]
    congr 1
    refine countP_congr fun j _ => ?_
    simp [hiff]
  obtain ⟨v, -, hv⟩ := hcount x hx
  obtain ⟨w, -, hw⟩ := hcount y hy
  split at hv <;> split at hv <;> split at hw <;> split at hw <;> omega

end Windows

/-! ## The queue over its ring -/

namespace task
namespace SchedulerQueue

variable {S : Type} {t : SchedulerQueue S} {order : List TaskId}

def enqueueAll : List (TaskId × S) → SchedulerQueue S →
    Except Fault (List OsStatus × SchedulerQueue S)
  | [], t => .ok ([], t)
  | (task, state) :: tasks, t => do
    let (status, t) ← t.enqueue state task
    let (statuses, t) ← enqueueAll tasks t
    pure (status :: statuses, t)

/-- Reschedules one after the other: their results, and the task each of them left current. -/
def rescheduleAll : List S → SchedulerQueue S →
    Except Fault (List (ScheduleResult × Option TaskId) × SchedulerQueue S)
  | [], t => .ok ([], t)
  | state :: states, t => do
    let (result, _, t) ← t.reschedule state
    let (chosen, t') ← rescheduleAll states t
    pure ((result, t.mCurrentTask) :: chosen, t')

def InTurn (t : SchedulerQueue S) (order : List TaskId) : Prop :=
  ∃ q, t.Models q ∧ q.InTurn order

lemma rescheduleAll_inTurn (states : List S) (hne : order ≠ []) (h : t.InTurn order) :
    ∃ t', rescheduleAll states t =
        .ok ((range states.length).map fun j => (.resume, order[j % order.length]?), t') ∧
      ∃ k, t'.InTurn (order.rotate k) := by
  induction states generalizing t order with
  | nil => exact ⟨t, rfl, 0, by simpa using h⟩
  | cons state states ih =>
    obtain ⟨task, rest, rfl⟩ := exists_cons_of_ne_nil hne
    obtain ⟨q, hmodels, hturn⟩ := h
    obtain ⟨stored, q', hq', hturn', hcurrent⟩ := hturn.reschedule state
    have hlift := hmodels.reschedule state
    rw [hq'] at hlift
    obtain ⟨⟨result, stored', t1⟩, ht1, hresult, -, hmodels'⟩ := hlift.exists_ok
    obtain rfl : result = .resume := hresult
    have hcurrent' : t1.mCurrentTask = some task := hmodels'.current.trans hcurrent
    obtain ⟨t', hrun, k, hk⟩ := ih (by simp) ⟨q', hmodels', hturn'⟩
    have hrotate : rest ++ [task] = (task :: rest).rotate 1 := by simp
    refine ⟨t', ?_, 1 + k, ?_⟩
    · rw [rescheduleAll, ht1]
      simp only [bind, Except.bind, hrun, pure, Except.pure, hcurrent']
      congr 2
      rw [length_cons (a := state), range_succ_eq_map, map_cons, map_map]
      -- the second task of the order is the first one after the turn
      have hturned : ∀ j, (rest ++ [task])[j % (rest ++ [task]).length]? =
          (task :: rest)[(j + 1) % (task :: rest).length]? := by
        intro j
        have hlen : (rest ++ [task]).length = (task :: rest).length := by simp
        have hlt : j % (task :: rest).length < (task :: rest).length := mod_lt _ (by simp)
        rw [hlen, hrotate, getElem?_rotate hlt, mod_add_mod]
      simp only [hturned, Function.comp_def]
      rfl
    · rw [hrotate, rotate_rotate] at hk
      exact hk

lemma enqueueAll_inTurn (tasks : List (TaskId × S)) {q : BezOS.SchedulerQueue S}
    (hmodels : t.Models q) (h : q.InTurn order) (hnone : q.mCurrentTask = none)
    (hnodup : (order ++ tasks.map Prod.fst).Nodup)
    (hidle : ∀ task ∈ tasks, q.status task.1 = .idle)
    (hroom : (order ++ tasks.map Prod.fst).length ≤ q.capacity) :
    ∃ t', enqueueAll tasks t = .ok (tasks.map fun _ => .success, t') ∧
      t'.InTurn (order ++ tasks.map Prod.fst) := by
  induction tasks generalizing t q order with
  | nil => exact ⟨t, rfl, q, hmodels, by simpa using h⟩
  | cons task tasks ih =>
    have hsplit : order ++ (task :: tasks).map Prod.fst =
        (order ++ [task.1]) ++ tasks.map Prod.fst := by simp
    rw [hsplit] at hnodup hroom ⊢
    have hfresh : task.1 ∉ order := by
      have hsub := nodup_append.1 (nodup_append.1 hnodup).1
      exact fun hmem => hsub.2.2 _ hmem task.1 (by simp) rfl
    have hlt : order.length < q.capacity := by
      simp only [length_append, length_singleton] at hroom
      omega
    obtain ⟨q', hq', hturn, hnone', hcapacity, hstatus⟩ :=
      h.enqueue hnone hfresh (hidle task (mem_cons_self ..)) hlt task.2
    have hlift := hmodels.enqueue task.2 task.1
    rw [hq'] at hlift
    obtain ⟨⟨status, t1⟩, ht1, rfl, hmodels'⟩ := hlift.exists_ok
    obtain ⟨t', hrun, hturn'⟩ := ih hmodels' hturn hnone' hnodup
      (fun other hother => (hstatus other.1).trans (hidle other (mem_cons_of_mem _ hother)))
      (by rw [hcapacity]; exact hroom)
    refine ⟨t', ?_, hturn'⟩
    rw [enqueueAll, ht1]
    simp [bind, Except.bind, hrun, pure, Except.pure]

/-- From a queue that is created and given these tasks, however often and with whatever states it
is rescheduled: every enqueue succeeds, the tasks are resumed cyclically in the order in which
they were enqueued, in any window of the reschedules two tasks are chosen equally often up to one,
and the current task is running. -/
def RoundRobin (capacity : Nat) (storage : Nat → TaskId) (entries : TaskId → SchedulerEntry S)
    (tasks : List (TaskId × S)) : Prop :=
  ∃ t0 t1, create capacity (some storage) entries = .ok t0 ∧
    enqueueAll tasks t0 = .ok (tasks.map fun _ => .success, t1) ∧
    ∀ states : List S, ∃ chosen t2, rescheduleAll states t1 = .ok (chosen, t2) ∧
      chosen = ((range states.length).map fun j =>
        (.resume, (tasks.map Prod.fst)[j % tasks.length]?)) ∧
      (∀ x ∈ tasks.map Prod.fst, ∀ y ∈ tasks.map Prod.fst, ∀ start n,
        ((chosen.drop start).take n).count (.resume, some x) ≤
          ((chosen.drop start).take n).count (.resume, some y) + 1) ∧
      ∀ task ∈ t2.mCurrentTask, t2.status task = .running

lemma enqueueAll_of_wrapped {storage : Nat → TaskId} {entries : TaskId → SchedulerEntry S}
    {tasks : List (TaskId × S)} (hne : tasks ≠ [])
    (hidle : ∀ task ∈ tasks, (entries task.1).mStatus = .idle) :
    create (2 ^ 32 - 1) (some storage) entries =
        .ok ⟨.reset storage (2 ^ 32 - 1), none, none, entries⟩ ∧
      enqueueAll tasks ⟨.reset storage (2 ^ 32 - 1), none, none, entries⟩ = .error .badAccess := by
  obtain ⟨⟨task, state⟩, rest, rfl⟩ := exists_cons_of_ne_nil hne
  refine ⟨rfl, ?_⟩
  have hsize : (AtomicRingQueue.reset storage (2 ^ 32 - 1)).mCapacity = 0 := rfl
  have hfirst : (entries task).mStatus = .idle := hidle (task, state) (mem_cons_self ..)
  rw [enqueueAll, enqueue, if_neg (by simpa [status] using hfirst)]
  simp only [bind, Except.bind, pure, Except.pure, if_true, tryPush, setState, setEntry,
    AtomicRingQueue.tryPush, hsize, Except.map]

lemma take_drop_map_range {α : Type} (f : Nat → α) (m start n : Nat) :
    (((range m).map f).drop start).take n = (range' start (min n (m - start))).map f := by
  rw [← map_drop, ← map_take, range_eq_range', drop_range']
  congr 1
  rcases Nat.le_total (m - start) n with hle | hge
  · rw [take_range'_of_length_le hle, Nat.min_eq_right hle]
    simp
  · rw [take_range'_of_length_ge hge, Nat.min_eq_left hge]
    simp

/-- Distinct idle tasks, up to the capacity, take turns exactly when the ring's size, one more than
the capacity, is a 32-bit number. -/
theorem roundRobin_iff {capacity : Nat} (hpos : 0 < capacity) (hcapacity : capacity < 2 ^ 32)
    (storage : Nat → TaskId) {entries : TaskId → SchedulerEntry S} {tasks : List (TaskId × S)}
    (hne : tasks ≠ []) (hlen : tasks.length ≤ capacity) (hnodup : (tasks.map Prod.fst).Nodup)
    (hidle : ∀ task ∈ tasks, (entries task.1).mStatus = .idle) :
    RoundRobin capacity storage entries tasks ↔ capacity + 1 < 2 ^ 32 := by
  constructor
  · rintro ⟨t0, t1, hcreate, henqueue, -⟩
    by_contra hwrap
    obtain rfl : capacity = 2 ^ 32 - 1 := by omega
    obtain ⟨hcreate', hfault⟩ := @enqueueAll_of_wrapped S storage entries tasks hne hidle
    rw [hcreate', Except.ok.injEq] at hcreate
    subst hcreate
    rw [hfault] at henqueue
    cases henqueue
  · intro hword
    obtain ⟨t0, hcreate, hmodels⟩ := create_models storage entries hpos hword
    have hempty : (BezOS.SchedulerQueue.create capacity entries).InTurn [] :=
      ⟨nodup_nil, Nat.zero_le _, rfl, rfl, by simp [BezOS.SchedulerQueue.create],
        by simp [BezOS.SchedulerQueue.create]⟩
    obtain ⟨t1, henqueue, hturn⟩ := enqueueAll_inTurn tasks hmodels hempty rfl (by simpa using hnodup)
      hidle (by rw [nil_append, length_map]; exact hlen)
    refine ⟨t0, t1, hcreate, henqueue, fun states => ?_⟩
    have hids : tasks.map Prod.fst ≠ [] := by simpa using hne
    obtain ⟨t2, hrun, k, q, hmodels2, hturn2⟩ := rescheduleAll_inTurn states hids hturn
    rw [length_map] at hrun
    refine ⟨_, t2, hrun, rfl, fun x hx y hy start n => ?_, fun task htask => ?_⟩
    · have hwindow := count_window_le hnodup hx hy start (min n (states.length - start))
      have hpair : ∀ z, (((range' start (min n (states.length - start))).map fun j =>
          ((ScheduleResult.resume, (tasks.map Prod.fst)[j % tasks.length]?) :
            ScheduleResult × Option TaskId)).count (.resume, some z)) =
          ((range' start (min n (states.length - start))).map fun j =>
            (tasks.map Prod.fst)[j % (tasks.map Prod.fst).length]?).count (some z) := by
        intro z
        rw [count_eq_countP, count_eq_countP, countP_map, countP_map]
        refine countP_congr fun j _ => ?_
        simp
      rw [take_drop_map_range, hpair, hpair]
      exact hwindow
    · rw [hmodels2.status]
      exact hturn2.running task (hmodels2.current ▸ htask)

/-- Three tasks in a ring for exactly three. -/
theorem roundRobin_of_three :
    RoundRobin 3 (fun _ => 0) (fun _ => ⟨.idle, instantMin, 0⟩) [(7, 0), (8, 1), (9, 2)] :=
  (roundRobin_iff (by decide) (by decide) (fun _ => 0) (by decide) (by decide) (by decide)
    (by decide)).2 (by decide)

/-- A queue for as many tasks as a 32-bit number can count has a ring of size zero. -/
theorem not_roundRobin_of_wrapped :
    ¬ RoundRobin (2 ^ 32 - 1) (fun _ => 0) (fun _ => ⟨.idle, instantMin, 0⟩) [(7, 0)] := by
  rintro ⟨t0, t1, hcreate, henqueue, -⟩
  obtain ⟨hcreate', hfault⟩ := @enqueueAll_of_wrapped Nat (fun _ => 0)
    (fun _ => ⟨.idle, instantMin, 0⟩) [(7, 0)] (by simp) (by simp)
  rw [hcreate', Except.ok.injEq] at hcreate
  subst hcreate
  cases henqueue

end SchedulerQueue
end task
end BezOS
