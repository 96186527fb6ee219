import BezOS.Std.RcuGrace

/-!
# Retirement and reclamation

The steps of the retire calls and of `synchronize()`, and with those of the guards the whole run:
no callback is run early or twice, no retired object is lost, no assertion fails.
-/

namespace BezOS

open Lib RcuDomain RcuGuard RcuLists RcuRetire List Function

lemma RcuSynchronize.rest_visit {O F : Type} {d : RcuDomain O F} {count : Nat}
    {head : Option O} {l : List O}
    (h : Chain (fun o => (d.objects o).rcuNextObject) head l) : (visit count head).Rest d l := by
  cases head with
  | none => exact h.none_inv
  | some head => exact h

namespace RcuSystem

variable {O F : Type} [DecidableEq O] {s : RcuSystem O F} {current : Bool} {lists : RcuLists O}

/-! ## Retire calls -/

section Retire

variable {retire guard : Nat} {r r' : RcuRetire O F} {d : RcuDomain O F}
  {events : List (RcuEvent O)} {object : O} {o : RcuObject O F}

lemma step_retireStep (hr : s.retires[retire]? = some r)
    (hstep : r.step s.domain = .ok (d, r', events)) :
    s.step (.retireStep retire) = .ok { s with
      domain := d, retires := s.retires.set retire r', trace := s.trace ++ events } := by
  simp only [step, hr, hstep]
  rfl

section

variable (h : s.Invariant current lists) (hr : s.retires[retire]? = some r)

include h hr

lemma Invariant.of_write (hobject : r.object? = some object) (hobject' : r'.object? = some object)
    (hattached : ∀ guard generation, r'.guard? = some (guard, generation) →
      s.guards[guard]? = some (.held generation)) (hready : r'.Ready (s.domain.setObject object o))
    :
    Invariant { s with
      domain := s.domain.setObject object o
      retires := s.retires.set retire r' } current lists := by
  have hmem := mem_of_getElem? hr
  have hother : ∀ object', object' ≠ object →
      (s.domain.setObject object o).objects object' = s.domain.objects object' :=
    fun object' hne => update_of_ne hne ..
  refine ⟨?_, ⟨?_, ?_, ?_, ?_⟩, ?_, h.knows, h.history⟩
  · exact ⟨h.guards.state, h.guards.few, h.guards.generation, h.guards.guarded,
      h.guards.unguarded, h.guards.alive⟩
  · intro r1 hr1
    rcases mem_or_eq_of_mem_set hr1 with hr1 | rfl
    · exact h.retires.attached r1 hr1
    · exact hattached
  · intro r1 hr1
    obtain ⟨i, hi⟩ := mem_iff_getElem?.1 hr1
    rcases getElem?_set_eq_some hi with ⟨rfl, rfl⟩ | ⟨hne, hi1⟩
    · exact hready
    · refine (h.retires.ready r1 (mem_of_getElem? hi1)).congr fun object1 hobject1 => ?_
      refine hother object1 ?_
      rintro rfl
      exact hne (h.retires.distinct hr hi1 hobject hobject1)
  · intro i j r1 r2 object1 hi hj h1 h2
    rcases getElem?_set_eq_some hi with ⟨rfl, rfl⟩ | ⟨-, hi1⟩ <;>
      rcases getElem?_set_eq_some hj with ⟨rfl, rfl⟩ | ⟨-, hj1⟩
    · rfl
    · exact h.retires.distinct hr hj1 (hobject.trans (hobject'.symm.trans h1)) h2
    · exact h.retires.distinct hi1 hr h1 (hobject.trans (hobject'.symm.trans h2))
    · exact h.retires.distinct hi1 hj1 h1 h2
  · intro r1 hr1 object1 h1
    rcases mem_or_eq_of_mem_set hr1 with hr1 | rfl
    · exact h.retires.fresh r1 hr1 object1 h1
    · exact h.retires.fresh r hmem object1 (hobject.trans (hobject'.symm.trans h1))
  · refine h.lists.congr (fun _ => rfl) ?_ rfl (fun _ => rfl) (fun _ => id)
    intro object1 hpending
    refine hother object1 ?_
    rintro rfl
    rw [h.retires.fresh r hmem object1 hobject] at hpending
    cases hpending

lemma Invariant.of_read (hobject : r.object? = some object) (hobject' : r'.object? = some object)
    (hattached : ∀ guard generation, r'.guard? = some (guard, generation) →
      s.guards[guard]? = some (.held generation)) (hready : r'.Ready s.domain) :
    Invariant { s with retires := s.retires.set retire r' } current lists := by
  have hself : s.domain.setObject object (s.domain.objects object) = s.domain := by
    simp [setObject]
  have hwrite := h.of_write hr hobject hobject' hattached (hself.symm ▸ hready)
  rwa [hself] at hwrite

lemma Invariant.generation_eq {generation : Bool} (hguard : r.guard? = some (guard, generation)) :
    generation = current := by
  have hheld := h.retires.attached r (mem_of_getElem? hr) guard generation hguard
  exact h.guards.generation _ (mem_of_getElem? hheld) generation rfl

end

/-- An object linked in front of the list of `generation`. -/
def RcuLists.push (lists : RcuLists O) (generation : Bool) (object : O) : RcuLists O :=
  { lists with
    listed := update lists.listed generation (object :: lists.listed generation) }

lemma RcuLists.count_push (lists : RcuLists O) (generation : Bool) (object o : O) :
    (RcuLists.push lists generation object).all.count o =
      lists.all.count o + if object = o then 1 else 0 := by
  cases generation <;>
    simp only [RcuLists.push, RcuLists.all, update_self, count_append,
      count_cons, beq_iff_eq, ne_eq, Bool.false_eq_true, Bool.true_eq_false,
      not_false_eq_true, update_of_ne] <;>
    omega

section

variable (h : s.Invariant current lists)

include h

lemma Invariant.of_link {generation : Bool} {head : Option O}
    (hr : s.retires[retire]? = some (.exchange object guard generation head))
    (hhead : (s.domain.mGenerations generation).mHead = head) :
    Invariant { s with
      domain := s.domain.setHead generation (some object)
      retires := s.retires.set retire .done
      trace := s.trace ++ [.retired object] } current
      (RcuLists.push lists generation object) := by
  have hmem := mem_of_getElem? hr
  obtain rfl := h.generation_eq hr rfl
  obtain ⟨hfn, hnext⟩ := h.retires.ready _ hmem
  have hfresh := h.retires.fresh _ hmem object rfl
  have hother : ∀ {i r1 object1}, s.retires[i]? = some r1 → retire ≠ i →
      r1.object? = some object1 → object ≠ object1 := by
    rintro i r1 object1 hi hne h1 rfl
    exact hne (h.retires.distinct hr hi rfl h1)
  have hguard : ∀ i, ((s.domain.setHead generation (some object)).mGenerations i).mGuard =
      (s.domain.mGenerations i).mGuard := by
    intro i
    by_cases hi : i = generation <;> simp [setHead, setGeneration, hi]
  refine ⟨⟨h.guards.state, h.guards.few, h.guards.generation, ?_, ?_, ?_⟩, ⟨?_, ?_, ?_, ?_⟩,
    ⟨⟨?_, ?_⟩, ?_, ?_, ?_⟩, h.knows, h.history.snoc trivial⟩
  · exact (hguard _).trans h.guards.guarded
  · exact (hguard _).trans h.guards.unguarded
  · intro i hi
    simp only [mem_append, mem_singleton, reduceCtorEq, or_false] at hi ⊢
    exact h.guards.alive i hi
  · intro r1 hr1
    rcases mem_or_eq_of_mem_set hr1 with hr1 | rfl
    · exact h.retires.attached r1 hr1
    · simp [guard?]
  · intro r1 hr1
    rcases mem_or_eq_of_mem_set hr1 with hr1 | rfl
    · exact h.retires.ready r1 hr1
    · trivial
  · intro i j r1 r2 object1 hi hj h1 h2
    rcases getElem?_set_eq_some hi with ⟨rfl, rfl⟩ | ⟨hne, hi⟩
    · simp [object?] at h1
    · rcases getElem?_set_eq_some hj with ⟨rfl, rfl⟩ | ⟨hne', hj⟩
      · simp [object?] at h2
      · exact h.retires.distinct hi hj h1 h2
  · intro r1 hr1 object1 h1
    obtain ⟨i, hi⟩ := mem_iff_getElem?.1 hr1
    rcases getElem?_set_eq_some hi with ⟨rfl, rfl⟩ | ⟨hne, hi⟩
    · simp [object?] at h1
    · simp only [pending_retired, if_neg (hother hi hne h1)]
      exact h.retires.fresh r1 (mem_of_getElem? hi) object1 h1
  · intro i
    by_cases hi : i = generation
    · subst hi
      simp only [setHead, setGeneration, update_self, RcuLists.push]
      refine .cons ?_
      rw [hnext, ← hhead]
      exact h.lists.has.listed i
    · simp only [setHead, setGeneration, RcuLists.push, ne_eq, hi,
        not_false_eq_true, update_of_ne]
      exact h.lists.has.listed i
  · exact h.lists.has.rest.congr fun _ _ => rfl
  · intro o
    rw [RcuLists.count_push, h.lists.count]
    by_cases ho : object = o
    · subst ho
      simp [hfresh]
    · simp [ho]
  · intro o ho
    by_cases heq : object = o
    · exact heq ▸ hfn
    · simp only [pending_retired, if_neg heq] at ho
      exact h.lists.callback o ho
  · intro o ho
    refine RcuEvent.allowed_snoc (h.lists.expired o ?_) (by simp)
    simpa [RcuLists.push] using ho

lemma Invariant.retireStep :
    ∃ t lists', s.step (.retireStep retire) = .ok t ∧ t.Invariant current lists' := by
  cases hr : s.retires[retire]? with
  | none => exact ⟨s, lists, by simp only [step, hr], h⟩
  | some r =>
    have hmem := mem_of_getElem? hr
    have hready := h.retires.ready r hmem
    have hattached := h.retires.attached r hmem
    cases r with
    | setFn object fn =>
      refine ⟨_, lists, step_retireStep hr rfl, ?_⟩
      simp only [append_nil]
      refine h.of_write hr rfl rfl (by simp [guard?]) ?_
      simp [RcuRetire.Ready, setObject]
    | ready object =>
      refine ⟨_, lists, step_retireStep hr rfl, ?_⟩
      simpa only [set_of_getElem? hr, append_nil] using h
    | checkGuard object guard generation =>
      -- the guard that `append` is called on is counted
      have hpos : 0 < (s.domain.mGenerations generation).mGuard := by
        have hheld := hattached guard generation rfl
        rw [h.generation_eq hr rfl, h.guards.guarded]
        exact countP_pos_of_getElem? _ hheld rfl
      have hstep : (RcuRetire.checkGuard object guard generation).step s.domain =
          .ok (s.domain, .checkFn object guard generation, []) := by
        simp only [RcuRetire.step, if_pos hpos]
      refine ⟨_, lists, step_retireStep hr hstep, ?_⟩
      simp only [append_nil]
      exact h.of_read hr rfl rfl hattached hready
    | checkFn object guard generation =>
      have hstep : (RcuRetire.checkFn object guard generation).step s.domain =
          .ok (s.domain, .loadHead object guard generation, []) := by
        simp [RcuRetire.step, if_pos (show (s.domain.objects object).rcuRetireFn.isSome = true from hready)]
      refine ⟨_, lists, step_retireStep hr hstep, ?_⟩
      simp only [append_nil]
      exact h.of_read hr rfl rfl hattached hready
    | loadHead object guard generation =>
      refine ⟨_, lists, step_retireStep hr rfl, ?_⟩
      simp only [append_nil]
      exact h.of_read hr rfl rfl hattached hready
    | storeNext object guard generation head =>
      refine ⟨_, lists, step_retireStep hr rfl, ?_⟩
      simp only [append_nil]
      refine h.of_write hr rfl rfl hattached ?_
      simp only [RcuRetire.Ready, setObject, update_self, and_true]
      exact hready
    | exchange object guard generation head =>
      by_cases hhead : (s.domain.mGenerations generation).mHead = head
      · have hstep : (RcuRetire.exchange object guard generation head).step s.domain =
            .ok (s.domain.setHead generation (some object), .done, [.retired object]) := by
          simp only [RcuRetire.step, if_pos hhead]
        exact ⟨_, _, step_retireStep hr hstep, h.of_link hr hhead⟩
      · have hstep : (RcuRetire.exchange object guard generation head).step s.domain =
            .ok (s.domain, .storeNext object guard generation
              (s.domain.mGenerations generation).mHead, []) := by
          simp only [RcuRetire.step, if_neg hhead]
        refine ⟨_, lists, step_retireStep hr hstep, ?_⟩
        simp only [append_nil]
        exact h.of_read hr rfl rfl hattached hready.1
    | done =>
      refine ⟨_, lists, step_retireStep hr rfl, ?_⟩
      simpa only [set_of_getElem? hr, append_nil] using h

lemma Invariant.of_construct (hl : ¬ s.Outstanding object) (o : RcuObject O F) :
    Invariant { s with domain := s.domain.setObject object o } current lists := by
  have hother : ∀ object', s.Outstanding object' →
      (s.domain.setObject object o).objects object' = s.domain.objects object' := by
    intro object' houtstanding
    refine update_of_ne ?_ ..
    rintro rfl
    exact hl houtstanding
  refine ⟨?_, ?_, ?_, h.knows, h.history⟩
  · exact ⟨h.guards.state, h.guards.few, h.guards.generation, h.guards.guarded,
      h.guards.unguarded, h.guards.alive⟩
  · refine h.retires.congr rfl ?_ (fun _ => rfl) (fun _ _ _ _ _ hi => hi)
    exact fun r hr object' hobject' => hother object' (.inr ⟨r, hr, hobject'⟩)
  · refine h.lists.congr (fun _ => rfl) ?_ rfl (fun _ => rfl) (fun _ => id)
    exact fun object' hpending => hother object' (.inl hpending)

lemma Invariant.of_new (hl : ¬ s.Outstanding object) (hobject : r.object? = some object)
    (hguard : r.guard? = none) (hready : r.Ready s.domain) :
    Invariant { s with retires := s.retires ++ [r] } current lists := by
  have hmem : ∀ r1, r1 ∈ s.retires ++ [r] → r1 ∈ s.retires ∨ r1 = r := by simp
  have hown : ∀ r1 ∈ s.retires, r1.object? ≠ some object :=
    fun r1 hr1 h1 => hl (.inr ⟨r1, hr1, h1⟩)
  refine ⟨?_, ⟨?_, ?_, ?_, ?_⟩, ?_, h.knows, h.history⟩
  · exact ⟨h.guards.state, h.guards.few, h.guards.generation, h.guards.guarded,
      h.guards.unguarded, h.guards.alive⟩
  · intro r1 hr1
    rcases hmem r1 hr1 with hr1 | rfl
    · exact h.retires.attached r1 hr1
    · simp [hguard]
  · intro r1 hr1
    rcases hmem r1 hr1 with hr1 | rfl
    · exact h.retires.ready r1 hr1
    · exact hready
  · intro i j r1 r2 object1 hi hj h1 h2
    rcases getElem?_append_singleton hi with ⟨hi1, rfl⟩ | hi1 <;>
      rcases getElem?_append_singleton hj with ⟨hj1, rfl⟩ | hj1
    · rw [hi1, hj1]
    · rw [hobject] at h1
      exact absurd (h1 ▸ h2) (hown r2 (mem_of_getElem? hj1))
    · rw [hobject] at h2
      exact absurd (h2 ▸ h1) (hown r1 (mem_of_getElem? hi1))
    · exact h.retires.distinct hi1 hj1 h1 h2
  · intro r1 hr1 object1 h1
    rcases hmem r1 hr1 with hr1 | rfl
    · exact h.retires.fresh r1 hr1 object1 h1
    · rw [hobject] at h1
      cases h1
      exact Bool.eq_false_iff.2 fun hpending => hl (.inl hpending)
  · exact h.lists.congr (fun _ => rfl) (fun _ _ => rfl) rfl (fun _ => rfl) (fun _ => id)

lemma Invariant.append :
    ∃ t, s.step (.append retire guard) = .ok t ∧ t.Invariant current lists := by
  simp only [step]
  split
  · rename_i object generation hr hg
    have hready := h.retires.ready _ (mem_of_getElem? hr)
    refine ⟨_, rfl, h.of_read hr rfl rfl ?_ hready⟩
    intro guard' generation' heq
    cases heq
    exact hg
  · exact ⟨s, rfl, h⟩

end

end Retire

/-! ## `synchronize()` -/

section Synchronize

variable {y y' : RcuSynchronize O} {d : RcuDomain O F} {events : List (RcuEvent O)}

lemma step_syncStep (hstep : s.sync.step s.domain = .ok (d, y', events)) :
    s.step .syncStep = .ok { s with domain := d, sync := y', trace := s.trace ++ events } := by
  simp only [step, hstep]
  rfl

section

variable (h : s.Invariant current lists)

include h

lemma Invariant.of_sync (hknows : y'.Knows current) (hrest : y'.Rest s.domain lists.rest) :
    Invariant { s with sync := y' } current lists where
  guards := ⟨h.guards.state, h.guards.few, h.guards.generation, h.guards.guarded,
    h.guards.unguarded, h.guards.alive⟩
  retires := h.retires.congr rfl (fun _ _ _ _ => rfl) (fun _ => rfl) (fun _ _ _ _ _ hi => hi)
  lists := ⟨⟨h.lists.has.listed, hrest⟩, h.lists.count, h.lists.callback, h.lists.expired⟩
  knows := hknows
  history := h.history

lemma Invariant.of_exchange (hsync : s.sync = .exchange (topBit current))
    (hstate : s.domain.mState = topBit current) :
    Invariant { s with
      domain := { s.domain with mState := topBit (!current) }
      sync := .wait current } (!current) lists := by
  have hnone : s.guards.countP alive = 0 := by
    have hstate' := h.guards.state
    omega
  have hdead : ∀ g ∈ s.guards, g.alive = false := by
    simpa [countP_eq_zero] using hnone
  have hunlocked : s.guards.countP locked = 0 := by
    refine countP_eq_zero.2 fun g hg hlocked => ?_
    have halive := alive_of_locked g hlocked
    rw [hdead g hg] at halive
    cases halive
  have hrest := h.lists.has.rest
  simp only [hsync, RcuSynchronize.Rest] at hrest
  refine ⟨⟨?_, ?_, ?_, ?_, ?_, h.guards.alive⟩, ?_, ⟨⟨h.lists.has.listed, hrest⟩, h.lists.count,
    h.lists.callback, ?_⟩, by simp [RcuSynchronize.Knows], h.history⟩
  · simp [hnone]
  · exact h.guards.few
  · intro g hg generation hgeneration
    have hdead := hdead g hg
    cases g <;> simp_all [alive, generation?]
  · simpa [hunlocked] using h.guards.unguarded
  · simpa [hunlocked] using h.guards.guarded
  · exact h.retires.congr rfl (fun _ _ _ _ => rfl) (fun _ => rfl) (fun _ _ _ _ _ hi => hi)
  · intro object hobject
    have hlisted : object ∈ lists.listed current := by simpa [hrest] using hobject
    obtain ⟨before, after, hcut, hran⟩ :=
      pending_cut (h.lists.pending_of_mem (mem_listed hlisted))
    refine ⟨before, after, hcut, hran, ?_⟩
    rintro guard ⟨hentered, hleft⟩
    have hgone : .left guard ∈ s.trace := by
      refine (h.guards.alive guard (hcut ▸ mem_append_left _ hentered)).resolve_right ?_
      rintro ⟨g, hg, halive⟩
      simp [hdead g (mem_of_getElem? hg)] at halive
    rw [hcut] at hgone
    simpa [hleft] using hgone

lemma Invariant.of_takeHead {generation : Bool} (hsync : s.sync = .takeHead generation) :
    Invariant { s with
      domain := s.domain.setHead generation none
      sync := .visit 0 (s.domain.mGenerations generation).mHead } current
      ⟨update lists.listed generation [], lists.listed generation⟩ := by
  obtain rfl : generation = !current := by simpa [hsync, RcuSynchronize.Knows] using h.knows
  have hrest : lists.rest = [] := by simpa [hsync, RcuSynchronize.Rest] using h.lists.has.rest
  have hguard : ∀ i, ((s.domain.setHead (!current) none).mGenerations i).mGuard =
      (s.domain.mGenerations i).mGuard := by
    intro i
    by_cases hi : i = !current <;> simp [setHead, setGeneration, hi]
  refine ⟨⟨h.guards.state, h.guards.few, h.guards.generation, ?_, ?_, h.guards.alive⟩, ?_,
    ⟨⟨?_, ?_⟩, ?_, h.lists.callback, ?_⟩, ?_, h.history⟩
  · exact (hguard _).trans h.guards.guarded
  · exact (hguard _).trans h.guards.unguarded
  · exact h.retires.congr rfl (fun _ _ _ _ => rfl) (fun _ => rfl) (fun _ _ _ _ _ hi => hi)
  · intro i
    by_cases hi : i = !current
    · subst hi
      simp only [setHead, setGeneration, update_self]
      exact .nil
    · simp only [setHead, setGeneration, ne_eq, hi, not_false_eq_true,
        update_of_ne]
      exact h.lists.has.listed i
  · exact RcuSynchronize.rest_visit (h.lists.has.listed (!current))
  · intro object
    rw [← h.lists.count]
    cases current <;> simp [RcuLists.all, hrest]
    omega
  · intro object hobject
    refine h.lists.expired object (.inl ?_)
    simpa using hobject
  · cases (s.domain.mGenerations (!current)).mHead <;> trivial

lemma Invariant.of_callback {count : Nat} {head : O} {next : Option O}
    (hsync : s.sync = .callback count head next) :
    ∃ rest, lists.rest = head :: rest ∧
      Invariant { s with sync := .running count next, trace := s.trace ++ [.ran head] } current
        ⟨lists.listed, rest⟩ := by
  obtain ⟨rest, hrest, hchain⟩ : ∃ rest, lists.rest = head :: rest ∧
      Chain (fun o => (s.domain.objects o).rcuNextObject) next rest := by
    simpa [hsync, RcuSynchronize.Rest] using h.lists.has.rest
  have hpending : pending s.trace head = true :=
    h.lists.pending_of_mem (mem_rest (by simp [hrest]))
  have hcount : ∀ object, lists.all.count object =
      (RcuLists.all ⟨lists.listed, rest⟩).count object + if head = object then 1 else 0 := by
    intro object
    simp only [RcuLists.all, hrest, count_append, count_cons, beq_iff_eq]
    omega
  -- the object at hand is on no other list, nor again on this one
  have honce : head ∉ RcuLists.all ⟨lists.listed, rest⟩ := by
    have hhead := hcount head
    rw [h.lists.count, hpending] at hhead
    refine count_eq_zero.1 ?_
    simp only [if_true] at hhead
    omega
  refine ⟨rest, hrest, ⟨?_, ⟨?_, ?_, ?_, ?_⟩, ⟨⟨h.lists.has.listed, hchain⟩, ?_, ?_, ?_⟩, trivial,
    h.history.snoc (h.lists.expired head (.inr (by simp [hrest])))⟩⟩
  · refine ⟨h.guards.state, h.guards.few, h.guards.generation, h.guards.guarded,
      h.guards.unguarded, ?_⟩
    intro i hi
    simp only [mem_append, mem_singleton, reduceCtorEq, or_false] at hi ⊢
    exact h.guards.alive i hi
  · exact h.retires.attached
  · exact h.retires.ready
  · exact h.retires.distinct
  · intro r hr object hobject
    simp [h.retires.fresh r hr object hobject]
  · intro object
    have hobject := hcount object
    rw [h.lists.count] at hobject
    by_cases heq : head = object
    · subst heq
      rw [count_eq_zero.2 honce]
      simp
    · simpa [heq] using hobject.symm
  · intro object hobject
    by_cases heq : head = object
    · simp [heq] at hobject
    · simp only [pending_ran, if_neg heq] at hobject
      exact h.lists.callback object hobject
  · intro object hobject
    have hmem : object ∈ RcuLists.all ⟨lists.listed, rest⟩ :=
      hobject.elim mem_listed mem_rest
    refine RcuEvent.allowed_snoc (h.lists.expired object ?_) ?_
    · exact hobject.imp_right fun hrest' => by simp_all
    · rintro heq
      cases heq
      exact honce hmem

lemma Invariant.syncStep :
    ∃ t current' lists', s.step .syncStep = .ok t ∧ t.Invariant current' lists' := by
  have hknows := h.knows
  have hrest := h.lists.has.rest
  cases hsync : s.sync with
  | returned count =>
    rw [hsync] at hrest
    refine ⟨_, current, lists, step_syncStep (by rw [hsync]; rfl), ?_⟩
    simp only [append_nil]
    exact h.of_sync trivial hrest
  | loadState =>
    rw [hsync] at hrest
    refine ⟨_, current, lists, step_syncStep (by rw [hsync]; rfl), ?_⟩
    simp only [append_nil]
    refine h.of_sync ?_ hrest
    simp only [RcuSynchronize.Knows]
    rw [h.guards.state, and_kCurrentGeneration h.guards.few]
  | exchange state =>
    rw [hsync] at hknows hrest
    obtain rfl : state = topBit current := hknows
    by_cases hstate : s.domain.mState = topBit current
    · have hstep : s.sync.step s.domain =
          .ok ({ s.domain with mState := topBit (!current) }, .wait current, []) := by
        simp only [hsync, RcuSynchronize.step, if_pos hstate, topBit_xor, topBit_ne_zero]
      refine ⟨_, !current, lists, step_syncStep hstep, ?_⟩
      simp only [append_nil]
      exact h.of_exchange hsync hstate
    · have hstep : s.sync.step s.domain = .ok (s.domain, .exchange (topBit current), []) := by
        simp only [hsync, RcuSynchronize.step, if_neg hstate]
      refine ⟨_, current, lists, step_syncStep hstep, ?_⟩
      simp only [append_nil]
      exact h.of_sync rfl hrest
  | wait generation =>
    rw [hsync] at hknows hrest
    obtain rfl : generation = !current := hknows
    have hstep : s.sync.step s.domain = .ok (s.domain, .checkGuard (!current), []) := by
      simp [hsync, RcuSynchronize.step, h.guards.unguarded]
    refine ⟨_, current, lists, step_syncStep hstep, ?_⟩
    simp only [append_nil]
    exact h.of_sync rfl hrest
  | checkGuard generation =>
    rw [hsync] at hknows hrest
    obtain rfl : generation = !current := hknows
    have hstep : s.sync.step s.domain = .ok (s.domain, .takeHead (!current), []) := by
      simp [hsync, RcuSynchronize.step, h.guards.unguarded]
    refine ⟨_, current, lists, step_syncStep hstep, ?_⟩
    simp only [append_nil]
    exact h.of_sync rfl hrest
  | takeHead generation =>
    refine ⟨_, current, ⟨update lists.listed generation [], lists.listed generation⟩,
      step_syncStep (by rw [hsync]; rfl), ?_⟩
    simp only [append_nil]
    exact h.of_takeHead hsync
  | loadNext count head =>
    rw [hsync] at hrest
    refine ⟨_, current, lists, step_syncStep (by rw [hsync]; rfl), ?_⟩
    simp only [append_nil]
    exact h.of_sync trivial (Chain.some_inv hrest)
  | callback count head next =>
    obtain ⟨rest, hrest, hinv⟩ := h.of_callback hsync
    have hfn := h.lists.callback head (h.lists.pending_of_mem (mem_rest (by simp [hrest])))
    have hstep : s.sync.step s.domain = .ok (s.domain, .running count next, [.ran head]) := by
      simp only [hsync, RcuSynchronize.step, if_pos hfn]
    exact ⟨_, current, _, step_syncStep hstep, hinv⟩
  | running count next =>
    rw [hsync] at hrest
    refine ⟨_, current, lists, step_syncStep (by rw [hsync]; rfl), ?_⟩
    simp only [append_nil]
    refine h.of_sync ?_ (RcuSynchronize.rest_visit hrest)
    cases next <;> trivial

end

end Synchronize

/-! ## Runs -/

def Sound (s : RcuSystem O F) : Prop := ∃ current lists, s.Invariant current lists

lemma Invariant.step {a : RcuAction O F} (h : s.Invariant current lists) (hl : s.Lawful a) :
    ∃ t current' lists', s.step a = .ok t ∧ t.Invariant current' lists' := by
  cases a with
  | construct object => exact ⟨_, current, lists, rfl, h.of_construct hl _⟩
  | guard =>
    obtain ⟨t, ht, hinv⟩ := h.newGuard
    exact ⟨t, current, lists, ht, hinv⟩
  | guardStep guard =>
    obtain ⟨t, ht, hinv⟩ := h.guardStep hl
    exact ⟨t, current, lists, ht, hinv⟩
  | release guard =>
    obtain ⟨t, ht, hinv⟩ := h.release hl
    exact ⟨t, current, lists, ht, hinv⟩
  | enqueue object fn => exact ⟨_, current, lists, rfl, h.of_new hl rfl rfl trivial⟩
  | call object fn =>
    refine ⟨_, current, lists, rfl, (h.of_construct hl ⟨none, some fn⟩).of_new hl rfl rfl ?_⟩
    simp [RcuRetire.Ready, setObject]
  | append retire guard =>
    obtain ⟨t, ht, hinv⟩ := h.append
    exact ⟨t, current, lists, ht, hinv⟩
  | retireStep retire =>
    obtain ⟨t, lists', ht, hinv⟩ := h.retireStep
    exact ⟨t, current, lists', ht, hinv⟩
  | synchronize =>
    simp only [RcuSystem.step]
    split
    · rename_i count hsync
      have hrest := h.lists.has.rest
      rw [hsync] at hrest
      exact ⟨_, current, lists, rfl, h.of_sync trivial hrest⟩
    · exact ⟨s, current, lists, rfl, h⟩
  | syncStep => exact h.syncStep

lemma Invariant.init (objects : O → RcuObject O F) :
    Invariant (init objects) false ⟨fun _ => [], []⟩ where
  guards := by constructor <;> simp [RcuSystem.init, RcuDomain.init, topBit]
  retires := by constructor <;> simp [RcuSystem.init]
  lists :=
    { has := ⟨fun _ => .nil, rfl⟩
      count := by simp [RcuSystem.init, RcuLists.all, pending]
      callback := by simp [RcuSystem.init, pending]
      expired := by simp }
  knows := trivial
  history := .nil

instance : DecidablePred s.Outstanding := fun object =>
  inferInstanceAs (Decidable (pending s.trace object = true ∨
    ∃ r ∈ s.retires, r.object? = some object))

instance : DecidablePred s.Lawful
  | .construct object => inferInstanceAs (Decidable (¬ s.Outstanding object))
  | .enqueue object _ => inferInstanceAs (Decidable (¬ s.Outstanding object))
  | .call object _ => inferInstanceAs (Decidable (¬ s.Outstanding object))
  | .release guard =>
      inferInstanceAs (Decidable (∀ r ∈ s.retires, ∀ generation, r.guard? ≠ some (guard, generation)))
  | .guardStep _ => inferInstanceAs (Decidable (_ → _ < _))
  | .guard | .append _ _ | .retireStep _ | .synchronize | .syncStep => isTrue trivial

/-- In every interleaving of guards, retire calls and `synchronize()`, grace periods are kept, and
no assertion fails: whatever step comes next is taken. -/
theorem grace_of_run (objects : O → RcuObject O F) {as : List (RcuAction O F)} {t : RcuSystem O F}
    (h : Run LawfulSteps (init objects) as t) :
    t.Grace ∧ ∀ a, t.Lawful a → ∃ u, t.step a = .ok u := by
  have hinit : (init objects).Sound := ⟨false, _, .init objects⟩
  obtain ⟨current, lists, hinv⟩ : t.Sound := by
    refine h.invariant ?_ hinit
    rintro s a t ⟨current, lists, hinv⟩ ⟨hl, hstep⟩
    obtain ⟨t', current', lists', hstep', hinv'⟩ := hinv.step hl
    obtain rfl : t' = t := Except.ok.inj (hstep'.symm.trans hstep)
    exact ⟨current', lists', hinv'⟩
  refine ⟨⟨hinv.history, lists, hinv.lists.has, hinv.lists.count⟩, fun a hl => ?_⟩
  obtain ⟨u, -, -, hstep, -⟩ := hinv.step hl
  exact ⟨u, hstep⟩

/-- An object is retired under a guard; the guard goes, the object is reclaimed. -/
def retireAndReclaim : List (RcuAction Nat Unit) :=
  [.guard, .guardStep 0, .guardStep 0, .enqueue 5 (), .retireStep 0, .append 0 0] ++
    replicate 5 (.retireStep 0) ++ [.release 0] ++ replicate 3 (.guardStep 0) ++
    [.synchronize] ++ replicate 8 .syncStep

theorem grace_retireAndReclaim : ∃ t, t.Grace ∧
    t.trace = [.entered 0, .retired 5, .left 0, .ran 5] ∧
    Run LawfulSteps (init fun _ => ⟨none, none⟩) retireAndReclaim t := by
  have hrun : (runGuarded Lawful step (init fun _ => ⟨none, none⟩) retireAndReclaim).map RcuSystem.trace =
      some [.entered 0, .retired 5, .left 0, .ran 5] := by decide
  obtain ⟨t, ht, htrace⟩ := Option.map_eq_some_iff.1 hrun
  have hrun := Run.of_runGuarded ht
  exact ⟨t, (grace_of_run _ hrun).1, htrace, hrun⟩

end RcuSystem

end BezOS
