import Mathlib.Data.List.Count
import Mathlib.Data.List.Induction
import BezOS.Std.Rcu

/-!
# Grace periods

The argument is in the word `mState`: its low bits count the guards that are alive, so the
exchange of the generations finds none. A generation that is not current therefore has no guard,
nothing is appended to it, and the objects on it were retired under guards that are gone.
-/

namespace BezOS

open Lib List Nat RcuLists

variable {O F : Type} [DecidableEq O] {generation : Bool} {lists : RcuLists O} {object : O}

/-! ## The state word -/

/-- The generation bit of `mState`. -/
def topBit (current : Bool) : Nat := if current then 2 ^ 31 else 0

lemma and_kCurrentGeneration {readers : Nat} (h : readers < 2 ^ 31) (current : Bool) :
    (readers + topBit current) &&& kCurrentGeneration = topBit current := by
  apply eq_of_testBit_eq
  intro i
  rw [testBit_and, kCurrentGeneration, testBit_two_pow]
  by_cases hi : 31 = i
  · subst hi
    cases current with
    | false => simp [topBit, testBit_lt_two_pow h]
    | true =>
      rw [topBit, if_pos rfl, Nat.add_comm, testBit_two_pow_add_eq, testBit_lt_two_pow h,
        testBit_two_pow_self]
      rfl
  · have hbit := testBit_two_pow_of_ne hi
    cases current with
    | false => simp [topBit, hi]
    | true =>
      rw [topBit, if_pos rfl, hbit]
      simp [hi]

lemma selectGeneration_eq {readers : Nat} (h : readers < 2 ^ 31) (current : Bool) :
    selectGeneration (readers + topBit current) = current := by
  rw [selectGeneration, and_kCurrentGeneration h]
  cases current <;> decide

lemma topBit_xor (current : Bool) : topBit current ^^^ kCurrentGeneration = topBit (!current) := by
  cases current <;> decide

lemma topBit_ne_zero (current : Bool) : decide (topBit current ≠ 0) = current := by
  cases current <;> decide

/-! ## Writes -/

namespace RcuDomain

variable (d : RcuDomain O F) (generation i : Bool)

omit [DecidableEq O] in
lemma lock_mHead : ((d.lock generation).mGenerations i).mHead = (d.mGenerations i).mHead := by
  by_cases h : i = generation <;> simp [lock, setGeneration, h]

omit [DecidableEq O] in
lemma unlock_mHead : ((d.unlock generation).mGenerations i).mHead = (d.mGenerations i).mHead := by
  by_cases h : i = generation <;> simp [unlock, setGeneration, h]

end RcuDomain

/-! ## Histories -/

section Events

variable (trace : List (RcuEvent O)) (object o : O) (guard : Nat)

@[simp] lemma pending_entered :
    pending (trace ++ [.entered guard]) object = pending trace object := by
  simp [pending]

@[simp] lemma pending_left : pending (trace ++ [.left guard]) object = pending trace object := by
  simp [pending]

@[simp] lemma pending_retired :
    pending (trace ++ [.retired o]) object = (if o = object then true else pending trace object) := by
  simp [pending]

@[simp] lemma pending_ran :
    pending (trace ++ [.ran o]) object = (if o = object then false else pending trace object) := by
  simp [pending]

variable {trace object}

lemma pending_cut (h : pending trace object = true) :
    ∃ before after, trace = before ++ .retired object :: after ∧ .ran object ∉ after := by
  induction trace using reverseRecOn with
  | nil => simp [pending] at h
  | append_singleton trace e ih =>
    -- an event of another kind, or about another object, comes after the cut
    have hlater : pending trace object = true → e ≠ .ran object →
        ∃ before after, trace ++ [e] = before ++ .retired object :: after ∧
          .ran object ∉ after := by
      intro hpending hne
      obtain ⟨before, after, rfl, hran⟩ := ih hpending
      refine ⟨before, after ++ [e], by simp, ?_⟩
      simpa [hran] using hne.symm
    cases e with
    | entered guard => exact hlater (by simpa using h) (by simp)
    | left guard => exact hlater (by simpa using h) (by simp)
    | retired o =>
      by_cases ho : o = object
      · subst ho
        exact ⟨trace, [], rfl, by simp⟩
      · exact hlater (by simpa [ho] using h) (by simp)
    | ran o =>
      by_cases ho : o = object
      · simp [ho] at h
      · exact hlater (by simpa [ho] using h) (by simpa using ho)

omit [DecidableEq O] in
lemma RcuEvent.allowed_snoc {e : RcuEvent O} (h : (RcuEvent.ran object).allowed trace)
    (hne : e ≠ .ran object) : (RcuEvent.ran object).allowed (trace ++ [e]) := by
  obtain ⟨before, after, rfl, hran, hleft⟩ := h
  refine ⟨before, after ++ [e], by simp, ?_, ?_⟩
  · simpa [hran] using hne.symm
  · exact fun guard hguard => mem_append_left _ (hleft guard hguard)

end Events

/-! ## The invariant -/

namespace RcuGuard

/-- The guard is counted in the `mGuard` of its generation. -/
def locked : RcuGuard → Bool
  | .held _ | .release _ | .unlock _ => true
  | _ => false

def generation? : RcuGuard → Option Bool
  | .lock generation | .held generation | .release generation | .unlock generation =>
      some generation
  | _ => none

lemma alive_of_locked (g : RcuGuard) (h : g.locked = true) : g.alive = true := by
  cases g <;> simp_all [locked, alive]

end RcuGuard

def RcuRetire.Ready (d : RcuDomain O F) : RcuRetire O F → Prop
  | .setFn _ _ | .done => True
  | .ready object | .checkGuard object _ _ | .checkFn object _ _ | .loadHead object _ _
  | .storeNext object _ _ _ => (d.objects object).rcuRetireFn.isSome
  | .exchange object _ _ head =>
      (d.objects object).rcuRetireFn.isSome ∧ (d.objects object).rcuNextObject = head

omit [DecidableEq O] in
lemma RcuRetire.Ready.congr {d d' : RcuDomain O F} {r : RcuRetire O F} (h : r.Ready d)
    (heq : ∀ object, r.object? = some object → d'.objects object = d.objects object) :
    r.Ready d' := by
  cases r with
  | setFn object fn => trivial
  | done => trivial
  | _ => simpa only [Ready, heq _ rfl] using h

/-- What `synchronize()` knows of the current generation. -/
def RcuSynchronize.Knows (current : Bool) : RcuSynchronize O → Prop
  | .exchange state => state = topBit current
  | .wait generation | .checkGuard generation | .takeHead generation => generation = !current
  | _ => True

omit [DecidableEq O] in
lemma RcuLists.mem_listed (h : object ∈ lists.listed generation) :
    object ∈ lists.all := by
  cases generation <;> simp [all, h]

omit [DecidableEq O] in
lemma RcuLists.mem_rest (h : object ∈ lists.rest) :
    object ∈ lists.all := by
  simp [all, h]

omit [DecidableEq O] in
lemma RcuSynchronize.Rest.congr {d d' : RcuDomain O F} {y : RcuSynchronize O} {l : List O}
    (h : y.Rest d l)
    (hnext : ∀ o ∈ l, (d'.objects o).rcuNextObject = (d.objects o).rcuNextObject) :
    y.Rest d' l := by
  cases y with
  | loadNext count head => exact Chain.congr h hnext
  | callback count head next =>
    obtain ⟨l', rfl, hchain⟩ := h
    exact ⟨l', rfl, hchain.congr fun o ho => hnext o (mem_cons_of_mem _ ho)⟩
  | running count next => exact Chain.congr h hnext
  | _ => exact h

namespace RcuSystem

variable (s : RcuSystem O F) (current : Bool)

structure GuardsInv : Prop where
  state : s.domain.mState = s.guards.countP RcuGuard.alive + topBit current
  few : s.guards.countP RcuGuard.alive < 2 ^ 31
  generation : ∀ g ∈ s.guards, ∀ generation, g.generation? = some generation →
    generation = current
  guarded : (s.domain.mGenerations current).mGuard = s.guards.countP RcuGuard.locked
  unguarded : (s.domain.mGenerations (!current)).mGuard = 0
  alive : ∀ guard, .entered guard ∈ s.trace → .left guard ∈ s.trace ∨
    ∃ g, s.guards[guard]? = some g ∧ g.alive = true

structure RetiresInv : Prop where
  attached : ∀ r ∈ s.retires, ∀ guard generation, r.guard? = some (guard, generation) →
    s.guards[guard]? = some (.held generation)
  ready : ∀ r ∈ s.retires, r.Ready s.domain
  distinct : ∀ {i j : Nat} {r r' : RcuRetire O F} {object : O}, s.retires[i]? = some r →
    s.retires[j]? = some r' → r.object? = some object → r'.object? = some object → i = j
  fresh : ∀ r ∈ s.retires, ∀ object, r.object? = some object → pending s.trace object = false

structure ListsInv (lists : RcuLists O) : Prop where
  has : s.HasLists lists
  count : ∀ object, lists.all.count object = if pending s.trace object then 1 else 0
  callback : ∀ object, pending s.trace object = true →
    (s.domain.objects object).rcuRetireFn.isSome
  expired : ∀ object, object ∈ lists.listed (!current) ∨ object ∈ lists.rest →
    (RcuEvent.ran object).allowed s.trace

structure Invariant (lists : RcuLists O) : Prop where
  guards : s.GuardsInv current
  retires : s.RetiresInv
  lists : s.ListsInv current lists
  knows : s.sync.Knows current
  history : Justified RcuEvent.allowed s.trace

variable {s current}

omit [DecidableEq O] in
lemma GuardsInv.selectGeneration_eq (h : s.GuardsInv current) :
    selectGeneration s.domain.mState = current := by
  rw [h.state, BezOS.selectGeneration_eq h.few]

omit [DecidableEq O] in
lemma GuardsInv.locked_lt (h : s.GuardsInv current) :
    s.guards.countP RcuGuard.locked < 2 ^ 31 :=
  Nat.lt_of_le_of_lt (countP_mono_left fun g _ => RcuGuard.alive_of_locked g) h.few

lemma ListsInv.not_mem (h : s.ListsInv current lists) (hpending : pending s.trace object = false) :
    object ∉ lists.all := by
  have hcount := h.count object
  rw [hpending] at hcount
  exact count_eq_zero.1 hcount

lemma ListsInv.pending_of_mem (h : s.ListsInv current lists) (hmem : object ∈ lists.all) :
    pending s.trace object = true := by
  by_contra hpending
  exact h.not_mem (Bool.eq_false_iff.2 hpending) hmem

variable {t : RcuSystem O F} {lists : RcuLists O}

lemma ListsInv.congr (h : s.ListsInv current lists)
    (hheads : ∀ generation, (t.domain.mGenerations generation).mHead =
      (s.domain.mGenerations generation).mHead)
    (hobjects : ∀ object, pending s.trace object = true →
      t.domain.objects object = s.domain.objects object)
    (hsync : t.sync = s.sync)
    (hpending : ∀ object, pending t.trace object = pending s.trace object)
    (hallowed : ∀ object, (RcuEvent.ran object).allowed s.trace →
      (RcuEvent.ran object).allowed t.trace) : t.ListsInv current lists := by
  have hnext : ∀ object ∈ lists.all, (t.domain.objects object).rcuNextObject =
      (s.domain.objects object).rcuNextObject := by
    intro object hmem
    rw [hobjects object (h.pending_of_mem hmem)]
  refine ⟨⟨?_, ?_⟩, ?_, ?_, ?_⟩
  · intro generation
    rw [hheads]
    exact (h.has.listed generation).congr fun o ho => hnext o (mem_listed ho)
  · rw [hsync]
    exact h.has.rest.congr fun o ho => hnext o (mem_rest ho)
  · intro object
    rw [hpending, h.count]
  · intro object hobject
    rw [hpending] at hobject
    rw [hobjects object hobject]
    exact h.callback object hobject
  · exact fun object hobject => hallowed object (h.expired object hobject)

lemma RetiresInv.congr (h : s.RetiresInv) (hretires : t.retires = s.retires)
    (hobjects : ∀ r ∈ s.retires, ∀ object, r.object? = some object →
      t.domain.objects object = s.domain.objects object)
    (hpending : ∀ object, pending t.trace object = pending s.trace object)
    (hheld : ∀ r ∈ s.retires, ∀ guard generation, r.guard? = some (guard, generation) →
      s.guards[guard]? = some (.held generation) → t.guards[guard]? = some (.held generation)) :
    t.RetiresInv where
  attached := by
    intro r hr guard generation hguard
    rw [hretires] at hr
    exact hheld r hr guard generation hguard (h.attached r hr guard generation hguard)
  ready := by
    intro r hr
    rw [hretires] at hr
    exact (h.ready r hr).congr (hobjects r hr)
  distinct := by
    intro i j r r' object hi hj
    rw [hretires] at hi hj
    exact h.distinct hi hj
  fresh := by
    intro r hr object hobject
    rw [hretires] at hr
    rw [hpending]
    exact h.fresh r hr object hobject

/-! ## Steps of a guard -/

section Guard

omit [DecidableEq O]

variable {guard : Nat} {g g' : RcuGuard}

lemma held_of_set {i : Nat} (hg : s.guards[guard]? = some g)
    (hne : ∀ generation, g ≠ .held generation) (hi : s.guards[i]? = some (.held generation)) :
    (s.guards.set guard g')[i]? = some (.held generation) := by
  have hguard : guard ≠ i := by
    rintro rfl
    rw [hg] at hi
    exact hne generation (Option.some.inj hi)
  rwa [List.getElem?_set_ne hguard]

lemma forall_mem_set {P : RcuGuard → Prop} (h : ∀ g ∈ s.guards, P g) (hg : P g') :
    ∀ g ∈ s.guards.set guard g', P g := by
  intro g hmem
  rcases mem_or_eq_of_mem_set hmem with hmem | rfl
  · exact h g hmem
  · exact hg

lemma GuardsInv.alive_set (h : s.GuardsInv current) (hg : s.guards[guard]? = some g)
    (halive : g.alive = true → g'.alive = true) :
    ∀ i, .entered i ∈ s.trace → .left i ∈ s.trace ∨
      ∃ g, (s.guards.set guard g')[i]? = some g ∧ g.alive = true := by
  intro i hi
  refine (h.alive i hi).imp_right ?_
  rintro ⟨g1, hg1, halive1⟩
  by_cases hguard : guard = i
  · subst hguard
    rw [hg] at hg1
    cases hg1
    exact ⟨g', getElem?_set_same hg, halive halive1⟩
  · exact ⟨g1, by rwa [List.getElem?_set_ne hguard], halive1⟩

end Guard

def GuardEvents (events : List (RcuEvent O)) : Prop :=
  events = [] ∨ ∃ guard, events = [.entered guard] ∨ events = [.left guard]

section Guard

variable {guard : Nat} {g g' : RcuGuard} {d : RcuDomain O F} {events trace : List (RcuEvent O)}

lemma GuardEvents.pending_eq (h : GuardEvents events) (trace : List (RcuEvent O)) (object : O) :
    pending (trace ++ events) object = pending trace object := by
  obtain rfl | ⟨guard, rfl | rfl⟩ := h <;> simp

omit [DecidableEq O] in
lemma GuardEvents.allowed (h : GuardEvents events) (hobject : (RcuEvent.ran object).allowed trace) :
    (RcuEvent.ran object).allowed (trace ++ events) := by
  obtain rfl | ⟨guard, rfl | rfl⟩ := h
  · rwa [append_nil]
  · exact RcuEvent.allowed_snoc hobject (by simp)
  · exact RcuEvent.allowed_snoc hobject (by simp)

omit [DecidableEq O] in
lemma GuardEvents.justified (h : GuardEvents events) (htrace : Justified RcuEvent.allowed trace) :
    Justified RcuEvent.allowed (trace ++ events) := by
  obtain rfl | ⟨guard, rfl | rfl⟩ := h
  · rwa [append_nil]
  · exact htrace.snoc trivial
  · exact htrace.snoc trivial

lemma Invariant.of_guard (h : s.Invariant current lists) (hg : s.guards[guard]? = some g)
    (hne : ∀ generation, g ≠ .held generation) (hobjects : d.objects = s.domain.objects)
    (hheads : ∀ generation, (d.mGenerations generation).mHead =
      (s.domain.mGenerations generation).mHead) (hevents : GuardEvents events)
    (hguards : GuardsInv { s with
      domain := d, guards := s.guards.set guard g', trace := s.trace ++ events } current) :
    Invariant { s with
      domain := d, guards := s.guards.set guard g', trace := s.trace ++ events } current lists where
  guards := hguards
  retires := by
    refine h.retires.congr rfl ?_ (hevents.pending_eq s.trace) ?_
    · exact fun r _ object _ => congrFun hobjects object
    · exact fun r _ i generation _ hi => held_of_set hg hne hi
  lists :=
    h.lists.congr hheads (fun object _ => congrFun hobjects object) rfl
      (hevents.pending_eq s.trace) (fun object => hevents.allowed)
  knows := h.knows
  history := hevents.justified h.history

section

variable (h : s.GuardsInv current)

include h

omit [DecidableEq O] in
lemma GuardsInv.acquire (hg : s.guards[guard]? = some .acquire)
    (hfew : s.guards.countP RcuGuard.alive + 1 < 2 ^ 31) :
    GuardsInv { s with
      domain := { s.domain with mState := wrapAdd (2 ^ 32) s.domain.mState 1 }
      guards := s.guards.set guard (.lock (selectGeneration s.domain.mState))
      trace := s.trace ++ [.entered guard] } current := by
  have hselect := h.selectGeneration_eq
  have halive := countP_set_add RcuGuard.alive (u := .lock (selectGeneration s.domain.mState)) hg
  have hlocked := countP_set_add RcuGuard.locked (u := .lock (selectGeneration s.domain.mState)) hg
  simp only [RcuGuard.alive, RcuGuard.locked, Bool.false_eq_true, if_true, if_false,
    Nat.add_zero] at halive hlocked
  refine ⟨?_, ?_, ?_, ?_, h.unguarded, ?_⟩
  · have hbit : topBit current ≤ 2 ^ 31 := by cases current <;> simp [topBit]
    have hstate := h.state
    simp only [halive, wrapAdd]
    rw [mod_eq_of_lt (by omega)]
    omega
  · simp only [halive]
    exact hfew
  · exact forall_mem_set h.generation fun generation heq => by
      rw [← hselect]
      exact (Option.some.inj heq).symm
  · simp only [hlocked]
    exact h.guarded
  · intro i hi
    simp only [mem_append, mem_singleton, RcuEvent.entered.injEq, reduceCtorEq,
      or_false] at hi ⊢
    rcases hi with hi | rfl
    · exact h.alive_set hg (by simp [RcuGuard.alive]) i hi
    · exact .inr ⟨_, getElem?_set_same hg, rfl⟩

omit [DecidableEq O] in
lemma GuardsInv.of_set {generations : Bool → RcuGeneration O} (hg : s.guards[guard]? = some g)
    (halive : g'.alive = g.alive)
    (hgeneration : g'.generation? = g.generation? ∨ g'.generation? = none)
    (hguarded : (generations current).mGuard = (s.guards.set guard g').countP RcuGuard.locked)
    (hunguarded : (generations (!current)).mGuard = 0) :
    GuardsInv { s with
      domain := { s.domain with mGenerations := generations }
      guards := s.guards.set guard g' } current := by
  have hcount := countP_set_add RcuGuard.alive (u := g') hg
  rw [halive, Nat.add_right_cancel_iff] at hcount
  refine ⟨?_, ?_, ?_, hguarded, hunguarded, ?_⟩
  · simp only [hcount]
    exact h.state
  · simp only [hcount]
    exact h.few
  · refine forall_mem_set h.generation fun generation heq => ?_
    rcases hgeneration with hgeneration | hgeneration
    · exact h.generation g (mem_of_getElem? hg) generation (hgeneration ▸ heq)
    · rw [hgeneration] at heq
      cases heq
  · exact h.alive_set hg fun hg => halive.trans hg

omit [DecidableEq O] in
lemma GuardsInv.lock (hg : s.guards[guard]? = some (.lock generation)) :
    GuardsInv { s with
      domain := s.domain.lock generation
      guards := s.guards.set guard (.held generation) } current := by
  obtain rfl := h.generation _ (mem_of_getElem? hg) generation rfl
  have hlocked := countP_set_add RcuGuard.locked (u := .held generation) hg
  simp only [RcuGuard.locked, Bool.false_eq_true, if_true, if_false, Nat.add_zero] at hlocked
  have hlt := h.locked_lt
  refine h.of_set hg rfl (.inl rfl) ?_ ?_
  · simp only [hlocked, Function.update_self, wrapAdd, h.guarded]
    exact mod_eq_of_lt (by omega)
  · simpa using h.unguarded

omit [DecidableEq O] in
lemma GuardsInv.unlock (hg : s.guards[guard]? = some (.unlock generation)) :
    GuardsInv { s with
      domain := s.domain.unlock generation
      guards := s.guards.set guard .leave } current := by
  obtain rfl := h.generation _ (mem_of_getElem? hg) generation rfl
  have hlocked := countP_set_add RcuGuard.locked (u := .leave) hg
  simp only [RcuGuard.locked, Bool.false_eq_true, if_true, if_false, Nat.add_zero] at hlocked
  have hlt := h.locked_lt
  refine h.of_set hg rfl (.inr rfl) ?_ ?_
  · simp only [Function.update_self, h.guarded]
    rcases wrapSub_cases (w := 2 ^ 32) (a := s.guards.countP RcuGuard.locked) (b := 1) (by omega)
      (by omega) with hsub | hsub <;> omega
  · simpa using h.unguarded

omit [DecidableEq O] in
lemma GuardsInv.leave (hg : s.guards[guard]? = some .leave) :
    GuardsInv { s with
      domain := { s.domain with mState := wrapSub (2 ^ 32) s.domain.mState 1 }
      guards := s.guards.set guard .gone
      trace := s.trace ++ [.left guard] } current := by
  have halive := countP_set_add RcuGuard.alive (u := .gone) hg
  have hlocked := countP_set_add RcuGuard.locked (u := .gone) hg
  simp only [RcuGuard.alive, RcuGuard.locked, Bool.false_eq_true, if_true, if_false,
    Nat.add_zero] at halive hlocked
  have hfew := h.few
  refine ⟨?_, ?_, ?_, ?_, h.unguarded, ?_⟩
  · have hbit : topBit current ≤ 2 ^ 31 := by cases current <;> simp [topBit]
    have hstate := h.state
    simp only
    rcases wrapSub_cases (w := 2 ^ 32) (a := s.domain.mState) (b := 1) (by omega)
      (by omega) with hsub | hsub <;> omega
  · simp only
    omega
  · exact forall_mem_set h.generation fun generation heq => by cases heq
  · simp only [hlocked]
    exact h.guarded
  · intro i hi
    simp only [mem_append, mem_singleton, RcuEvent.left.injEq, reduceCtorEq,
      or_false] at hi ⊢
    by_cases hguard : i = guard
    · exact .inl (.inr hguard)
    · refine (h.alive i hi).imp .inl ?_
      rintro ⟨g, hg, halive⟩
      exact ⟨g, by rwa [List.getElem?_set_ne fun heq => hguard heq.symm], halive⟩

end

lemma step_guardStep (hg : s.guards[guard]? = some g)
    (hstep : g.step s.domain guard = .ok (d, g', events)) :
    s.step (.guardStep guard) = .ok { s with
      domain := d, guards := s.guards.set guard g', trace := s.trace ++ events } := by
  simp only [step, hg, hstep]
  rfl

section

variable (h : s.Invariant current lists)

include h

lemma Invariant.guardStep (hl : s.Lawful (.guardStep guard)) :
    ∃ t, s.step (.guardStep guard) = .ok t ∧ t.Invariant current lists := by
  cases hg : s.guards[guard]? with
  | none => exact ⟨s, by simp only [step, hg], h⟩
  | some g =>
    cases g with
    | acquire =>
      refine ⟨_, step_guardStep hg rfl,
        h.of_guard hg (by simp) rfl (fun _ => rfl) (.inr ⟨guard, .inl rfl⟩) ?_⟩
      exact h.guards.acquire hg (hl hg)
    | lock generation =>
      refine ⟨_, step_guardStep hg rfl, h.of_guard hg (by simp) rfl ?_ (.inl rfl) ?_⟩
      · exact fun i => RcuDomain.lock_mHead ..
      · simp only [append_nil]
        exact h.guards.lock hg
    | held generation =>
      refine ⟨_, step_guardStep hg rfl, ?_⟩
      simpa only [set_of_getElem? hg, append_nil] using h
    | release generation =>
      have hgeneration := h.guards.generation _ (mem_of_getElem? hg) generation rfl
      have hstep : (RcuGuard.release generation).step s.domain guard =
          .ok (s.domain, .unlock generation, []) := by
        simp only [RcuGuard.step, h.guards.selectGeneration_eq, if_pos hgeneration]
      refine ⟨_, step_guardStep hg hstep, h.of_guard hg (by simp) rfl (fun _ => rfl) (.inl rfl) ?_⟩
      simp only [append_nil]
      have hlocked := countP_set_add RcuGuard.locked (u := .unlock generation) hg
      refine h.guards.of_set hg rfl (.inl rfl) ?_ h.guards.unguarded
      exact h.guards.guarded.trans (Nat.add_right_cancel hlocked).symm
    | unlock generation =>
      refine ⟨_, step_guardStep hg rfl, h.of_guard hg (by simp) rfl ?_ (.inl rfl) ?_⟩
      · exact fun i => RcuDomain.unlock_mHead ..
      · simp only [append_nil]
        exact h.guards.unlock hg
    | leave =>
      refine ⟨_, step_guardStep hg rfl,
        h.of_guard hg (by simp) rfl (fun _ => rfl) (.inr ⟨guard, .inr rfl⟩) ?_⟩
      exact h.guards.leave hg
    | gone =>
      refine ⟨_, step_guardStep hg rfl, ?_⟩
      simpa only [set_of_getElem? hg, append_nil] using h

lemma Invariant.release (hl : s.Lawful (.release guard)) :
    ∃ t, s.step (.release guard) = .ok t ∧ t.Invariant current lists := by
  simp only [step]
  split
  · rename_i generation hg
    refine ⟨_, rfl, ⟨?_, ?_, h.lists.congr (fun _ => rfl) (fun _ _ => rfl) rfl (fun _ => rfl)
      (fun _ => id), h.knows, h.history⟩⟩
    · have hlocked := countP_set_add RcuGuard.locked (u := .release generation) hg
      refine h.guards.of_set hg rfl (.inl rfl) ?_ h.guards.unguarded
      exact h.guards.guarded.trans (Nat.add_right_cancel hlocked).symm
    · refine h.retires.congr rfl (fun _ _ _ _ => rfl) (fun _ => rfl) ?_
      intro r hr i generation' hguard hi
      have hne : guard ≠ i := by
        rintro rfl
        exact hl r hr generation' hguard
      rwa [List.getElem?_set_ne hne]
  · exact ⟨s, rfl, h⟩

lemma Invariant.newGuard :
    ∃ t, s.step .guard = .ok t ∧ t.Invariant current lists := by
  refine ⟨_, rfl, ⟨⟨?_, ?_, ?_, ?_, h.guards.unguarded, ?_⟩, ?_,
    h.lists.congr (fun _ => rfl) (fun _ _ => rfl) rfl (fun _ => rfl) (fun _ => id), h.knows,
    h.history⟩⟩
  · simpa [RcuGuard.alive] using h.guards.state
  · simpa [RcuGuard.alive] using h.guards.few
  · intro g hg generation hgeneration
    simp only [mem_append, mem_singleton] at hg
    rcases hg with hg | rfl
    · exact h.guards.generation g hg generation hgeneration
    · cases hgeneration
  · simpa [RcuGuard.locked] using h.guards.guarded
  · intro i hi
    refine (h.guards.alive i hi).imp_right ?_
    rintro ⟨g, hg, halive⟩
    exact ⟨g, getElem?_append_of_some hg _, halive⟩
  · refine h.retires.congr rfl (fun _ _ _ _ => rfl) (fun _ => rfl) ?_
    exact fun r _ i generation _ hi => getElem?_append_of_some hi _

end

end Guard

end RcuSystem

end BezOS
