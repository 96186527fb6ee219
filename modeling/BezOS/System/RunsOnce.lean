import Mathlib.Data.List.Nodup
import Mathlib.Order.Nat
import BezOS.Lib.OrderedList
import BezOS.System.GlobalSchedule

/-!
# Threads run once

The places of a thread are the processors it is current on and its positions in their queues.
Rescheduling and suspending never add a place; scheduling adds one. A thread therefore has at most
one place in every state that a run leads to, as long as a thread is only scheduled when it has
none: a suspended thread that is still current or queued must not be resumed.
-/

namespace BezOS

open Lib List Option

namespace CpuLocalSchedule

def places (cpu : CpuLocalSchedule) : List ThreadId := cpu.mCurrent.toList ++ cpu.mTaskQueue

end CpuLocalSchedule

namespace GlobalSchedule

variable {g h : GlobalSchedule} {t u : ThreadId} {i : Nat} {queue : List ThreadId}

def places (g : GlobalSchedule) : List ThreadId := g.mCpuLocal.flatMap fun entry => entry.2.places

/-- A thread is current on at most one processor, is in at most one queue and there once, and is
not both. -/
structure RunsOnce (g : GlobalSchedule) : Prop where
  current : ∀ (i j : Nat) (a b : Nat × CpuLocalSchedule) (t : ThreadId), g.mCpuLocal[i]? = some a →
    g.mCpuLocal[j]? = some b → a.2.mCurrent = some t → b.2.mCurrent = some t → i = j
  queued : ∀ (i j : Nat) (a b : Nat × CpuLocalSchedule) (t : ThreadId), g.mCpuLocal[i]? = some a →
    g.mCpuLocal[j]? = some b → t ∈ a.2.mTaskQueue → t ∈ b.2.mTaskQueue → i = j
  once : ∀ a ∈ g.mCpuLocal, a.2.mTaskQueue.Nodup
  apart : ∀ a ∈ g.mCpuLocal, ∀ b ∈ g.mCpuLocal, ∀ t, a.2.mCurrent = some t → t ∉ b.2.mTaskQueue

/-! ## Places -/

lemma count_places_setCpu {id : Nat} {old : CpuLocalSchedule} (new : CpuLocalSchedule)
    (hi : g.mCpuLocal[i]? = some (id, old)) (t : ThreadId) :
    (g.setCpu i new).places.count t + old.places.count t =
      g.places.count t + new.places.count t := by
  obtain ⟨pre, x, post, hcpus, hlen⟩ := exists_append_cons (List.getElem?_eq_some_iff.1 hi).1
  obtain rfl : x = (id, old) := by
    rw [hcpus, ← hlen] at hi
    simpa using hi
  have hset : (g.setCpu i new).mCpuLocal = pre ++ (id, new) :: post := by
    change g.mCpuLocal.modify i _ = _
    rw [hcpus, ← hlen, modify_append_cons]
  rw [places, places, hset, hcpus]
  simp only [flatMap_append, flatMap_cons, count_append]
  omega

@[simp] lemma mCpuLocal_setState (state : OsThreadState) :
    (g.setState t state).mCpuLocal = g.mCpuLocal := rfl

@[simp] lemma mCpuLocal_startThread : (g.startThread t).2.mCpuLocal = g.mCpuLocal := by
  rw [startThread]
  split <;> rfl

@[simp] lemma mCpuLocal_stopThread : (g.stopThread t).2.mCpuLocal = g.mCpuLocal := by
  rw [stopThread]
  split <;> rfl

lemma places_congr (hcpus : h.mCpuLocal = g.mCpuLocal) : h.places = g.places := by
  rw [places, places, hcpus]

/-! ## Rescheduling -/

lemma pushTask_places {cpu cpu' : CpuLocalSchedule} (hpush : pushTask cpu u = .ok cpu')
    (t : ThreadId) :
    cpu'.mCurrent = cpu.mCurrent ∧
      cpu'.mTaskQueue.count t = cpu.mTaskQueue.count t + [u].count t := by
  rw [pushTask] at hpush
  split at hpush
  · cases hpush
    exact ⟨rfl, count_append ..⟩
  · cases hpush

lemma rescheduleLoop_places {cpu cpu' : CpuLocalSchedule}
    (hloop : rescheduleLoop queue cpu g = .ok (cpu', h)) (t : ThreadId) :
    h.mCpuLocal = g.mCpuLocal ∧
      cpu'.places.count t ≤ (cpu.mCurrent.toList ++ queue).count t := by
  induction queue generalizing g with
  | nil =>
    cases hloop
    exact ⟨rfl, le_refl _⟩
  | cons u rest ih =>
    have hdrop : (cpu.mCurrent.toList ++ rest).count t ≤ (cpu.mCurrent.toList ++ u :: rest).count t :=
      Sublist.count_le t (Sublist.append_left (sublist_cons_self u rest) _)
    rw [rescheduleLoop] at hloop
    by_cases halive : g.alive u = true
    · rw [if_pos halive] at hloop
      cases hstart : g.startThread u with
      | mk started g1 =>
        have hcpus : g1.mCpuLocal = g.mCpuLocal := by
          have hkeep := mCpuLocal_startThread (g := g) (t := u)
          rwa [hstart] at hkeep
        rw [hstart] at hloop
        cases started with
        | false =>
          obtain ⟨heq, hle⟩ := ih hloop
          exact ⟨heq.trans hcpus, hle.trans hdrop⟩
        | true =>
          cases hcurrent : cpu.mCurrent with
          | none =>
            simp only [hcurrent] at hloop
            cases hloop
            exact ⟨hcpus, le_refl _⟩
          | some current =>
            simp only [hcurrent, bind_eq_ok] at hloop
            obtain ⟨cpu1, hpush, hloop⟩ := hloop
            cases hloop
            obtain ⟨-, hcount⟩ := pushTask_places hpush t
            refine ⟨by rw [mCpuLocal_stopThread, hcpus], ?_⟩
            simp only [CpuLocalSchedule.places, toList_some, count_append, hcount,
              count_cons, count_nil]
            omega
    · rw [if_neg halive] at hloop
      obtain ⟨heq, hle⟩ := ih hloop
      exact ⟨heq, hle.trans hdrop⟩

lemma rescheduleCpu_places {cpu cpu' : CpuLocalSchedule}
    (hres : rescheduleCpu cpu g = .ok (cpu', h)) (t : ThreadId) :
    h.mCpuLocal = g.mCpuLocal ∧ cpu'.places.count t ≤ cpu.places.count t := by
  rw [rescheduleCpu, bind_eq_ok] at hres
  obtain ⟨⟨cpu1, g1⟩, hloop, hres⟩ := hres
  obtain ⟨hcpus, hle⟩ := rescheduleLoop_places hloop t
  cases hcurrent : cpu1.mCurrent with
  | none =>
    simp only [hcurrent] at hres
    cases hres
    exact ⟨hcpus, hle⟩
  | some current =>
    simp only [hcurrent] at hres
    cases hstart : g1.startThread current with
    | mk started g2 =>
      have hcpus2 : g2.mCpuLocal = g1.mCpuLocal := by
        have hkeep := mCpuLocal_startThread (g := g1) (t := current)
        rwa [hstart] at hkeep
      rw [hstart] at hres
      cases started with
      | true =>
        cases hres
        exact ⟨hcpus2.trans hcpus, hle⟩
      | false =>
        simp only [bind_eq_ok] at hres
        obtain ⟨cpu2, hpush, hres⟩ := hres
        cases hres
        obtain ⟨-, hcount⟩ := pushTask_places hpush t
        refine ⟨by rw [mCpuLocal_stopThread, hcpus2, hcpus], ?_⟩
        refine le_trans (le_of_eq ?_) hle
        simp only [CpuLocalSchedule.places, hcurrent, toList_some, toList_none,
          count_append, hcount, count_nil]
        omega

lemma reschedule_places (hres : g.reschedule i = .ok h) (t : ThreadId) :
    h.places.count t ≤ g.places.count t := by
  rw [reschedule] at hres
  cases hi : g.mCpuLocal[i]? with
  | none =>
    rw [hi] at hres
    cases hres
  | some entry =>
    simp only [hi, bind_eq_ok] at hres
    obtain ⟨⟨cpu', g1⟩, hcpu, hres⟩ := hres
    cases hres
    obtain ⟨hcpus, hle⟩ := rescheduleCpu_places hcpu t
    have hi1 : g1.mCpuLocal[i]? = some (entry.1, entry.2) := by rw [hcpus, hi]
    have hcount := count_places_setCpu cpu' hi1 t
    rw [places_congr hcpus] at hcount
    change (g1.setCpu i cpu').places.count t ≤ _
    omega

/-! ## Scheduling -/

/-- Everything but the queues. -/
structure SameThreads (g h : GlobalSchedule) : Prop where
  suspend : h.mSuspendSet = g.mSuspendSet
  state : h.state = g.state
  alive : h.alive = g.alive
  sleep : h.mSleepQueue = g.mSleepQueue
  timeout : h.mTimeoutQueue = g.mTimeoutQueue

lemma SameThreads.refl (g : GlobalSchedule) : SameThreads g g := ⟨rfl, rfl, rfl, rfl, rfl⟩

lemma addThreadTo_places (hadd : g.addThreadTo t i = some h) :
    SameThreads g h ∧ ∀ u, h.places.count u = g.places.count u + [t].count u := by
  rw [addThreadTo] at hadd
  cases hi : g.mCpuLocal[i]? with
  | none =>
    rw [hi] at hadd
    cases hadd
  | some entry =>
    simp only [hi, ite_none_right_eq_some, some_inj] at hadd
    obtain ⟨-, rfl⟩ := hadd
    refine ⟨⟨rfl, rfl, rfl, rfl, rfl⟩, fun u => ?_⟩
    have hcount := count_places_setCpu
      ⟨entry.2.capacity, entry.2.mTaskQueue ++ [t], entry.2.mCurrent⟩ hi u
    simp only [CpuLocalSchedule.places, count_append] at hcount
    omega

lemma scheduleThread_places :
    SameThreads g (g.scheduleThread t).2 ∧
      ∀ u, (g.scheduleThread t).2.places.count u ≤ g.places.count u + [t].count u := by
  have hstay : SameThreads g g ∧ ∀ u, g.places.count u ≤ g.places.count u + [t].count u :=
    ⟨SameThreads.refl g, fun u => Nat.le_add_right ..⟩
  rw [scheduleThread]
  split
  · exact hstay
  · cases hadd : g.addThreadTo t g.leastLoaded with
    | some h =>
      obtain ⟨hsame, hcount⟩ := addThreadTo_places hadd
      exact ⟨hsame, fun u => (hcount u).le⟩
    | none =>
      cases hfind : (range g.mCpuLocal.length).findSome? (g.addThreadTo t) with
      | none => simpa only [hfind] using hstay
      | some h =>
        obtain ⟨i, -, hadd⟩ := exists_of_findSome?_eq_some hfind
        obtain ⟨hsame, hcount⟩ := addThreadTo_places hadd
        exact ⟨hsame, fun u => (hcount u).le⟩

/-! ## The invariant -/

/-- No thread has two places, no thread is suspended twice, and nothing waits for a timeout. -/
structure Invariant (g : GlobalSchedule) : Prop where
  once : g.places.Nodup
  suspend : g.mSuspendSet.Nodup
  timeout : g.mTimeoutQueue = []

lemma nodup_places_of_le (hg : g.places.Nodup) (hle : ∀ t, h.places.count t ≤ g.places.count t) :
    h.places.Nodup :=
  nodup_iff_count_le_one.2 fun t => (hle t).trans (nodup_iff_count_le_one.1 hg t)

lemma nodup_places_scheduleThread (hg : g.places.Nodup) (ht : t ∉ g.places) :
    (g.scheduleThread t).2.places.Nodup := by
  refine nodup_iff_count_le_one.2 fun u => ?_
  have hle := (scheduleThread_places (g := g) (t := t)).2 u
  have hone := nodup_iff_count_le_one.1 hg u
  by_cases hut : u = t
  · subst hut
    rw [count_eq_zero.2 ht, count_singleton_self] at hle
    exact hle
  · rw [count_eq_zero.2 (show u ∉ [t] by simpa using hut)] at hle
    omega

lemma not_mem_places_scheduleThread (hu : u ∉ g.places) (hut : u ≠ t) :
    u ∉ (g.scheduleThread t).2.places := by
  have hle := (scheduleThread_places (g := g) (t := t)).2 u
  rw [count_eq_zero.2 hu, count_eq_zero.2 (show u ∉ [t] by simpa using hut)] at hle
  exact count_eq_zero.1 (Nat.le_zero.1 hle)

lemma resumeUnlocked_cases :
    (g.resumeUnlocked t).2 = g ∨
      (g.state t = .suspended ∧ t ∉ g.mSuspendSet ∧
        (g.resumeUnlocked t).2 = g.setState t .running) ∨
      (g.state t = .suspended ∧ t ∈ g.mSuspendSet ∧
        (g.resumeUnlocked t).2 = ({ g.setState t .running with
          mSuspendSet := g.mSuspendSet.erase t }.scheduleThread t).2) := by
  rw [resumeUnlocked]
  split
  · rename_i hstate
    rw [doResumeUnlocked]
    by_cases hmem : t ∈ g.mSuspendSet
    · exact .inr (.inr ⟨hstate, hmem, if_pos hmem⟩)
    · exact .inr (.inl ⟨hstate, hmem, if_neg hmem⟩)
  all_goals exact .inl rfl

lemma Invariant.resumeUnlocked (hg : g.Invariant)
    (hidle : g.state t = .suspended → t ∈ g.mSuspendSet → t ∉ g.places) :
    (g.resumeUnlocked t).2.Invariant := by
  rcases resumeUnlocked_cases with heq | ⟨-, -, heq⟩ | ⟨hstate, hmem, heq⟩
  · rwa [heq]
  · rw [heq]
    exact ⟨hg.once, hg.suspend, hg.timeout⟩
  · rw [heq]
    obtain ⟨hsame, -⟩ := scheduleThread_places
      (g := { g.setState t .running with mSuspendSet := g.mSuspendSet.erase t })
    refine ⟨nodup_places_scheduleThread hg.once (hidle hstate hmem), ?_, ?_⟩
    · rw [hsame.suspend]
      exact hg.suspend.erase t
    · rw [hsame.timeout]
      exact hg.timeout

/-! ## Ticks -/

/-- The threads a tick may schedule have no place. -/
def WakesIdle (g : GlobalSchedule) : Prop :=
  ∀ t ∈ g.mSuspendSet, g.alive t = true →
    (g.state t = .suspended ∧ ∃ e ∈ g.mSleepQueue, e.thread = t) ∨ g.state t = .queued →
      t ∉ g.places
  deriving Decidable

lemma WakesIdle.resumeUnlocked (hg : g.WakesIdle)
    (hidle : g.state t = .suspended → t ∈ g.mSuspendSet → t ∉ g.places) :
    (g.resumeUnlocked t).2.WakesIdle := by
  rcases resumeUnlocked_cases with heq | ⟨-, -, heq⟩ | ⟨-, -, heq⟩
  · rwa [heq]
  · rw [heq]
    intro u hu halive hwakes
    -- the thread itself runs now
    by_cases hut : u = t
    · subst hut
      simp [setState] at hwakes
    · refine hg u hu halive ?_
      simpa [setState, hut] using hwakes
  · rw [heq]
    obtain ⟨hsame, -⟩ := scheduleThread_places
      (g := { g.setState t .running with mSuspendSet := g.mSuspendSet.erase t })
    intro u hu halive hwakes
    rw [hsame.suspend] at hu
    rw [hsame.alive] at halive
    rw [hsame.state, hsame.sleep] at hwakes
    by_cases hut : u = t
    · subst hut
      simp [setState] at hwakes
    · refine not_mem_places_scheduleThread (hg u (mem_of_mem_erase hu) halive ?_) hut
      simpa [setState, hut] using hwakes

lemma queueTop_eq_none {α : Type} {key : α → Nat} {l : List α} (htop : queueTop key l = none) :
    l = [] := by
  cases l with
  | nil => rfl
  | cons a l =>
    rw [queueTop] at htop
    split at htop
    · cases htop
    · split at htop <;> cases htop

lemma queueTop_spec {α : Type} {key : α → Nat} {l : List α} {a : α} (htop : queueTop key l = some a) :
    a ∈ l ∧ ∀ b ∈ l, key b ≤ key a := by
  induction l generalizing a with
  | nil => cases htop
  | cons c l ih =>
    rw [queueTop] at htop
    cases hrest : queueTop key l with
    | none =>
      obtain rfl := queueTop_eq_none hrest
      cases htop
      simp
    | some b =>
      obtain ⟨hmem, hmax⟩ := ih hrest
      simp only [hrest] at htop
      split at htop
      · cases htop
        rename_i hle
        exact ⟨by simp, forall_mem_cons.2 ⟨le_refl _, fun d hd => (hmax d hd).trans hle⟩⟩
      · cases htop
        rename_i hlt
        exact ⟨by simp [hmem], forall_mem_cons.2 ⟨by omega, hmax⟩⟩

lemma resumeSleepQueue_spec (now fuel : Nat) (hg : g.Invariant) (hwakes : g.WakesIdle) :
    (resumeSleepQueue now fuel g).Invariant ∧ (resumeSleepQueue now fuel g).WakesIdle := by
  induction fuel generalizing g with
  | zero => exact ⟨hg, hwakes⟩
  | succ fuel ih =>
    rw [resumeSleepQueue]
    split
    · exact ⟨hg, hwakes⟩
    · rename_i entry htop
      split
      · exact ⟨hg, hwakes⟩
      · dsimp only
        -- one entry leaves the queue, and its thread is resumed if it lives
        have hpop : Invariant { g with mSleepQueue := g.mSleepQueue.erase entry } :=
          ⟨hg.once, hg.suspend, hg.timeout⟩
        have hwakes' : WakesIdle { g with mSleepQueue := g.mSleepQueue.erase entry } := by
          intro t ht halive hstate
          refine hwakes t ht halive (hstate.imp_left fun ⟨hs, e, he, het⟩ => ?_)
          exact ⟨hs, e, mem_of_mem_erase he, het⟩
        split
        · rename_i halive
          have hidle : g.state entry.thread = .suspended → entry.thread ∈ g.mSuspendSet →
              entry.thread ∉ g.places := fun hs hmem =>
            hwakes _ hmem halive (.inl ⟨hs, entry, (queueTop_spec htop).1, rfl⟩)
          exact ih (hpop.resumeUnlocked hidle) (hwakes'.resumeUnlocked hidle)
        · exact ih hpop hwakes'

lemma resumeSleepQueue_of_late {now fuel : Nat} (hlate : ∃ e ∈ g.mSleepQueue, now < e.wake) :
    resumeSleepQueue now fuel g = g := by
  cases fuel with
  | zero => rfl
  | succ fuel =>
    rw [resumeSleepQueue]
    split
    · rfl
    · rename_i entry htop
      obtain ⟨e, he, hlt⟩ := hlate
      have hmax := (queueTop_spec htop).2 e he
      rw [if_pos (by omega)]

lemma resumeWaitQueue_of_empty {now fuel : Nat} (hempty : g.mTimeoutQueue = []) :
    resumeWaitQueue now fuel g = g := by
  cases fuel with
  | zero => rfl
  | succ fuel =>
    rw [resumeWaitQueue, hempty]
    rfl

lemma scheduleQueued_spec {list : List ThreadId} (hg : g.Invariant) (hlist : list.Nodup)
    (hidle : ∀ t ∈ list, g.alive t = true → g.state t = .queued → t ∉ g.places) :
    (list.foldl (fun g t =>
      if g.alive t ∧ g.state t = .queued then (g.scheduleThread t).2 else g) g).Invariant := by
  induction list generalizing g with
  | nil => exact hg
  | cons t list ih =>
    obtain ⟨hnot, hlist⟩ := nodup_cons.1 hlist
    rw [foldl_cons]
    by_cases hqueued : g.alive t = true ∧ g.state t = .queued
    · rw [if_pos hqueued]
      obtain ⟨hsame, -⟩ := scheduleThread_places
      refine ih ⟨?_, by rw [hsame.suspend]; exact hg.suspend, by rw [hsame.timeout]; exact hg.timeout⟩
        hlist ?_
      · exact nodup_places_scheduleThread hg.once (hidle t (by simp) hqueued.1 hqueued.2)
      · intro u hu halive hstate
        rw [hsame.alive] at halive
        rw [hsame.state] at hstate
        refine not_mem_places_scheduleThread (hidle u (by simp [hu]) halive hstate) ?_
        rintro rfl
        exact hnot hu
    · rw [if_neg hqueued]
      exact ih hg hlist fun u hu => hidle u (by simp [hu])

lemma Invariant.tick {now : Nat} (hg : g.Invariant)
    (hsleep : (∀ e ∈ g.mSleepQueue, e.wake ≤ now) → g.WakesIdle)
    (hqueued : ∀ t ∈ g.mSuspendSet, g.alive t = true → g.state t = .queued → t ∉ g.places) :
    (g.tick now).Invariant := by
  have hresumed : (resumeSleepQueue now g.mSleepQueue.length g).Invariant ∧
      ∀ t ∈ (resumeSleepQueue now g.mSleepQueue.length g).mSuspendSet,
        (resumeSleepQueue now g.mSleepQueue.length g).alive t = true →
        (resumeSleepQueue now g.mSleepQueue.length g).state t = .queued →
        t ∉ (resumeSleepQueue now g.mSleepQueue.length g).places := by
    by_cases hall : ∀ e ∈ g.mSleepQueue, e.wake ≤ now
    · obtain ⟨hinv, hwakes⟩ :=
        resumeSleepQueue_spec now g.mSleepQueue.length hg (hsleep hall)
      exact ⟨hinv, fun t ht halive hstate => hwakes t ht halive (.inr hstate)⟩
    · rw [resumeSleepQueue_of_late (by simpa using hall)]
      exact ⟨hg, hqueued⟩
  rw [GlobalSchedule.tick]
  simp only [resumeWaitQueue_of_empty hresumed.1.timeout]
  have hscheduled := scheduleQueued_spec hresumed.1 hresumed.1.suspend hresumed.2
  exact ⟨hscheduled.once, hscheduled.suspend.filter _, hscheduled.timeout⟩

/-! ## Runs -/

/-- What the environment may do: processors that exist reschedule, a thread is destroyed for one
of two reasons, a current thread is kept alive by its processor, and tables keep their entries. -/
def Legal (g : GlobalSchedule) : ScheduleCall → Prop
  | .reschedule i => i < g.mCpuLocal.length
  | .threadDestroy _ reason => reason = .finished ∨ reason = .orphaned
  | .drop t => ∀ entry ∈ g.mCpuLocal, entry.2.mCurrent ≠ some t
  | .reorder cpus suspended sleeping =>
      cpus.Perm g.mCpuLocal ∧ suspended.Perm g.mSuspendSet ∧ sleeping.Perm g.mSleepQueue
  | _ => True

/-- A thread is only scheduled when it is neither current nor queued. -/
def Careful (g : GlobalSchedule) : ScheduleCall → Prop
  | .addThread t => t ∉ g.places
  | .resume t => g.state t = .suspended → t ∈ g.mSuspendSet → t ∉ g.places
  | .tick now =>
      ((∀ e ∈ g.mSleepQueue, e.wake ≤ now) → g.WakesIdle) ∧
        ∀ t ∈ g.mSuspendSet, g.alive t = true → g.state t = .queued → t ∉ g.places
  | _ => True

def LegalStep (g : GlobalSchedule) (call : ScheduleCall) (h : GlobalSchedule) : Prop :=
  g.Legal call ∧ g.step call = .ok h

def CarefulStep (g : GlobalSchedule) (call : ScheduleCall) (h : GlobalSchedule) : Prop :=
  g.Careful call ∧ LegalStep g call h

structure Fresh (g : GlobalSchedule) : Prop where
  cpus : g.mCpuLocal = []
  suspend : g.mSuspendSet = []
  sleep : g.mSleepQueue = []
  wait : g.mWaitQueue = []
  timeout : g.mTimeoutQueue = []

lemma Invariant.of_fresh (hg : g.Fresh) : g.Invariant where
  once := by
    rw [places, hg.cpus]
    exact nodup_nil
  suspend := by
    rw [hg.suspend]
    exact nodup_nil
  timeout := hg.timeout

/-- A property of the schedule that neither the states of the threads nor the set of the suspended
ones can break. -/
structure KeptByStates (P : GlobalSchedule → Prop) : Prop where
  setState : ∀ g t state, P g → P (g.setState t state)
  doSuspendUnlocked : ∀ g t, P g → P (g.doSuspendUnlocked t)

namespace KeptByStates

variable {P : GlobalSchedule → Prop}

section

variable (hP : KeptByStates P)

include hP

lemma startThread (hg : P g) (t : ThreadId) : P (g.startThread t).2 := by
  rw [GlobalSchedule.startThread]
  split
  · exact hP.setState _ _ _ hg
  · exact hP.doSuspendUnlocked _ _ hg
  all_goals exact hg

lemma stopThread (hg : P g) (t : ThreadId) : P (g.stopThread t).2 := by
  rw [GlobalSchedule.stopThread]
  split
  · exact hP.setState _ _ _ hg
  all_goals exact hg

lemma suspendUnlocked (hg : P g) (t : ThreadId) :
    P (g.suspendUnlocked t).2 := by
  rw [GlobalSchedule.suspendUnlocked]
  split
  all_goals first
    | exact hg
    | exact hP.doSuspendUnlocked _ _ hg
    | exact hP.doSuspendUnlocked _ _ (hP.setState _ _ _ hg)

lemma threadSuspend (hg : P g) (t : ThreadId) : P (g.threadSuspend t) := by
  rw [GlobalSchedule.threadSuspend]
  split
  all_goals first
    | exact hg
    | exact hP.setState _ _ _ hg

lemma threadResume (hg : P g) (t : ThreadId) : P (g.threadResume t) := by
  rw [GlobalSchedule.threadResume]
  split
  · exact hP.setState _ _ _ hg
  · exact hg

lemma rescheduleLoop {cpu cpu' : CpuLocalSchedule} (hg : P g)
    (hloop : GlobalSchedule.rescheduleLoop queue cpu g = .ok (cpu', h)) : P h := by
  induction queue generalizing g with
  | nil =>
    cases hloop
    exact hg
  | cons u rest ih =>
    rw [GlobalSchedule.rescheduleLoop] at hloop
    by_cases halive : g.alive u = true
    · rw [if_pos halive] at hloop
      have hg1 := hP.startThread hg u
      cases hstart : g.startThread u with
      | mk started g1 =>
        rw [hstart] at hloop hg1
        cases started with
        | false => exact ih hg1 hloop
        | true =>
          cases hcurrent : cpu.mCurrent with
          | none =>
            simp only [hcurrent] at hloop
            cases hloop
            exact hg1
          | some current =>
            simp only [hcurrent, bind_eq_ok] at hloop
            obtain ⟨cpu1, -, hloop⟩ := hloop
            cases hloop
            exact hP.stopThread hg1 current
    · rw [if_neg halive] at hloop
      exact ih hg hloop

lemma rescheduleCpu {cpu cpu' : CpuLocalSchedule} (hg : P g)
    (hres : GlobalSchedule.rescheduleCpu cpu g = .ok (cpu', h)) : P h := by
  rw [GlobalSchedule.rescheduleCpu, bind_eq_ok] at hres
  obtain ⟨⟨cpu1, g1⟩, hloop, hres⟩ := hres
  have hg1 := hP.rescheduleLoop hg hloop
  cases hcurrent : cpu1.mCurrent with
  | none =>
    simp only [hcurrent] at hres
    cases hres
    exact hg1
  | some current =>
    simp only [hcurrent] at hres
    have hg2 := hP.startThread hg1 current
    cases hstart : g1.startThread current with
    | mk started g2 =>
      rw [hstart] at hres hg2
      cases started with
      | true =>
        cases hres
        exact hg2
      | false =>
        simp only [bind_eq_ok] at hres
        obtain ⟨cpu2, -, hres⟩ := hres
        cases hres
        exact hP.stopThread hg2 current

end

end KeptByStates

lemma Invariant.kept : KeptByStates Invariant where
  setState _ _ _ hg := ⟨hg.once, hg.suspend, hg.timeout⟩
  doSuspendUnlocked _ _ hg := ⟨hg.once, hg.suspend.insert, hg.timeout⟩

section

variable (hg : g.Invariant)

include hg

lemma Invariant.reschedule (hres : g.reschedule i = .ok h) : h.Invariant := by
  have honce := nodup_places_of_le hg.once (reschedule_places hres)
  rw [GlobalSchedule.reschedule] at hres
  cases hi : g.mCpuLocal[i]? with
  | none =>
    rw [hi] at hres
    cases hres
  | some entry =>
    simp only [hi, bind_eq_ok] at hres
    obtain ⟨⟨cpu', g1⟩, hcpu, hres⟩ := hres
    have hg1 := Invariant.kept.rescheduleCpu hg hcpu
    cases hres
    exact ⟨honce, hg1.suspend, hg1.timeout⟩

lemma Invariant.initCpuSchedule (cpu tasks : Nat) :
    (g.initCpuSchedule cpu tasks).Invariant := by
  rw [GlobalSchedule.initCpuSchedule]
  split
  · exact hg
  · refine ⟨?_, hg.suspend, hg.timeout⟩
    -- the new processor has no thread
    simpa [places, CpuLocalSchedule.places] using hg.once

lemma Invariant.addThread (ht : t ∉ g.places) :
    (g.scheduleThread t).2.Invariant := by
  obtain ⟨hsame, -⟩ := scheduleThread_places
  refine ⟨nodup_places_scheduleThread hg.once ht, ?_, ?_⟩
  · rw [hsame.suspend]
    exact hg.suspend
  · rw [hsame.timeout]
    exact hg.timeout

lemma Invariant.sleep (t : ThreadId) (wake : Nat) :
    (g.sleep t wake).2.Invariant := by
  have hsuspend := Invariant.kept.suspendUnlocked hg t
  rw [GlobalSchedule.sleep]
  split
  all_goals
    rename_i heq
    rw [heq] at hsuspend
  · exact ⟨hsuspend.once, hsuspend.suspend, hsuspend.timeout⟩
  · exact hsuspend

lemma Invariant.wait (t : ThreadId) (object : ObjectId) (timeout : Nat) :
    (g.wait t object timeout).2.Invariant := by
  have hsuspend := Invariant.kept.suspendUnlocked hg t
  rw [GlobalSchedule.wait]
  split
  all_goals
    rename_i heq
    rw [heq] at hsuspend
  · exact ⟨hsuspend.once, hsuspend.suspend, hsuspend.timeout⟩
  · exact hsuspend

lemma Invariant.signal {object : ObjectId} (hsignal : (g.signal object).map (·.2) = .ok h) :
    h.Invariant := by
  rw [GlobalSchedule.signal] at hsignal
  split at hsignal
  · cases hsignal
    exact hg
  · split at hsignal
    · cases hsignal
    · cases hsignal
      exact ⟨hg.once, hg.suspend, hg.timeout⟩

lemma Invariant.step {call : ScheduleCall} (hstep : CarefulStep g call h) :
    h.Invariant := by
  obtain ⟨hcareful, hlegal, hstep⟩ := hstep
  cases call with
  | reschedule i => exact hg.reschedule hstep
  | signal object => exact hg.signal hstep
  | reorder cpus suspended sleeping =>
    cases hstep
    obtain ⟨hcpus, hsuspended, -⟩ := hlegal
    exact ⟨(hcpus.flatMap_right _).nodup_iff.2 hg.once, hsuspended.nodup_iff.2 hg.suspend, hg.timeout⟩
  | drop t =>
    cases hstep
    exact ⟨hg.once, hg.suspend, hg.timeout⟩
  | initCpuSchedule cpu tasks =>
    cases hstep
    exact hg.initCpuSchedule cpu tasks
  | addThread t =>
    cases hstep
    exact hg.addThread hcareful
  | startThread t =>
    cases hstep
    exact Invariant.kept.startThread hg t
  | stopThread t =>
    cases hstep
    exact Invariant.kept.stopThread hg t
  | suspend t =>
    cases hstep
    exact Invariant.kept.suspendUnlocked hg t
  | resume t =>
    cases hstep
    exact hg.resumeUnlocked hcareful
  | sleep t wake =>
    cases hstep
    exact hg.sleep t wake
  | wait t object timeout =>
    cases hstep
    exact hg.wait t object timeout
  | tick now =>
    cases hstep
    exact hg.tick hcareful.1 hcareful.2
  | threadSuspend t =>
    cases hstep
    exact Invariant.kept.threadSuspend hg t
  | threadResume t =>
    cases hstep
    exact Invariant.kept.threadResume hg t
  | threadDestroy t reason =>
    cases hstep
    exact Invariant.kept.setState _ _ _ hg

end

/-! ## One place for each thread -/

lemma eq_index_of_nodup_flatMap {α β : Type} {f : α → List β} {l : List α}
    (hl : (l.flatMap f).Nodup) {i j : Nat} {a b : α} {t : β} (hi : l[i]? = some a)
    (hj : l[j]? = some b) (ha : t ∈ f a) (hb : t ∈ f b) : i = j := by
  obtain ⟨hilt, rfl⟩ := List.getElem?_eq_some_iff.1 hi
  obtain ⟨hjlt, rfl⟩ := List.getElem?_eq_some_iff.1 hj
  have hdisjoint := pairwise_iff_getElem.1 (nodup_flatMap.1 hl).2
  rcases Nat.lt_trichotomy i j with hlt | heq | hlt
  · exact absurd hb (hdisjoint i j hilt hjlt hlt ha)
  · exact heq
  · exact absurd ha (hdisjoint j i hjlt hilt hlt hb)

lemma Invariant.runsOnce (hg : g.Invariant) : g.RunsOnce := by
  have hcpu : ∀ a ∈ g.mCpuLocal, a.2.places.Nodup := (nodup_flatMap.1 hg.once).1
  have hcurrent : ∀ (a : Nat × CpuLocalSchedule) t, a.2.mCurrent = some t → t ∈ a.2.places := by
    intro a t ha
    simp [CpuLocalSchedule.places, ha]
  have hqueued : ∀ (a : Nat × CpuLocalSchedule), ∀ t ∈ a.2.mTaskQueue, t ∈ a.2.places :=
    fun a t ht => mem_append_right _ ht
  refine ⟨?_, ?_, ?_, ?_⟩
  · intro i j a b t hi hj ha hb
    exact eq_index_of_nodup_flatMap hg.once hi hj (hcurrent a t ha) (hcurrent b t hb)
  · intro i j a b t hi hj ha hb
    exact eq_index_of_nodup_flatMap hg.once hi hj (hqueued a t ha) (hqueued b t hb)
  · intro a ha
    exact (hcpu a ha).of_append_right
  · intro a ha b hb t hcur hmem
    obtain ⟨i, hi⟩ := mem_iff_getElem?.1 ha
    obtain ⟨j, hj⟩ := mem_iff_getElem?.1 hb
    have hij := eq_index_of_nodup_flatMap hg.once hi hj (hcurrent a t hcur) (hqueued b t hmem)
    obtain rfl : a = b := some_inj.1 (by rw [← hi, ← hj, hij])
    have hnodup := hcpu a ha
    rw [CpuLocalSchedule.places, hcur] at hnodup
    exact (nodup_cons.1 hnodup).1 hmem

/-- In a run that schedules no thread that still has a place, a thread runs at most once in every
state. -/
theorem runsOnce_of_run {start : GlobalSchedule} {calls : List ScheduleCall} (hstart : start.Fresh)
    (hrun : Run CarefulStep start calls g) : g.RunsOnce := by
  have hinv : g.Invariant := by
    refine hrun.invariant ?_ (Invariant.of_fresh hstart)
    intro g call h hg hstep
    exact hg.step hstep
  exact hinv.runsOnce

instance (g : GlobalSchedule) : DecidablePred g.Legal := by
  intro call
  cases call <;> dsimp only [Legal] <;> infer_instance

instance (g : GlobalSchedule) : DecidablePred g.Careful := by
  intro call
  cases call <;> dsimp only [Careful] <;> infer_instance

def fresh : GlobalSchedule where
  mCpuLocal := []
  mWaitQueue := []
  mTimeoutQueue := []
  mSleepQueue := []
  mSuspendSet := []
  state := fun _ => .queued
  alive := fun _ => true

/-- Thread 7 gives the processor to thread 8, is suspended in the queue, is skipped there and then
resumed; the tick finds nothing to wake. -/
theorem runsOnce_of_skipped_thread :
    ∃ g, Run CarefulStep fresh
      [.initCpuSchedule 0 4, .addThread 7, .reschedule 0, .addThread 8, .reschedule 0, .suspend 7,
        .reschedule 0, .resume 7, .tick 5] g ∧ g.places = [8, 7] ∧ g.RunsOnce := by
  have hplaces : (runGuarded (fun g call => g.Careful call ∧ g.Legal call) step fresh
      [.initCpuSchedule 0 4, .addThread 7, .reschedule 0, .addThread 8, .reschedule 0, .suspend 7,
        .reschedule 0, .resume 7, .tick 5]).map places = some [8, 7] := by decide +kernel
  obtain ⟨g, hg, hplaces⟩ := map_eq_some_iff.1 hplaces
  have hrun := (Run.of_runGuarded hg).mono (S := CarefulStep) fun _ _ _ ⟨⟨hcareful, hlegal⟩, hstep⟩ =>
    ⟨hcareful, hlegal, hstep⟩
  exact ⟨g, hrun, hplaces, runsOnce_of_run ⟨rfl, rfl, rfl, rfl, rfl⟩ hrun⟩

/-- A thread that is resumed while it is still current is queued as well. -/
theorem not_runsOnce_of_resume_current :
    ¬∀ (start : GlobalSchedule) (calls : List ScheduleCall) (g : GlobalSchedule), start.Fresh →
      Run LegalStep start calls g → g.RunsOnce := by
  intro hall
  have hcpus : (runGuarded (fun g call => g.Legal call) step fresh
      [.initCpuSchedule 0 4, .addThread 7, .reschedule 0, .suspend 7, .resume 7]).map mCpuLocal =
        some [(0, ⟨4, [7], some 7⟩)] := by decide +kernel
  obtain ⟨g, hg, hcpus⟩ := map_eq_some_iff.1 hcpus
  have honce := hall fresh _ g ⟨rfl, rfl, rfl, rfl, rfl⟩ (Run.of_runGuarded hg)
  refine honce.apart (0, ⟨4, [7], some 7⟩) ?_ (0, ⟨4, [7], some 7⟩) ?_ 7 rfl (by simp)
  · simp [hcpus]
  · simp [hcpus]

end GlobalSchedule
end BezOS
