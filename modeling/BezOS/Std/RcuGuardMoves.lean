import BezOS.Std.RcuGrace

/-!
# Moving guards

`sm::RcuGuard` as an object: its two fields, its constructors and its destructor. Guards of any
number of domains are constructed, moved and destroyed in any order. A guard that holds a
generation is counted in the domain and in the generation, and its destructor takes it out again;
the move constructor takes over the generation, but leaves its own `mDomain` null.
-/

namespace BezOS

open Lib Function List

/-- `sm::RcuGuard`; a pointer to a generation is a domain with the index of the generation. -/
structure GuardObject (D : Type) where
  mDomain : Option D
  mGeneration : Option (D × Bool)
  deriving DecidableEq

namespace RcuDomain

variable {O F : Type} (d : RcuDomain O F)

/-- `RcuDomain::acquireReadLock`, with the generation it returns. -/
def acquireReadLock : Bool × RcuDomain O F :=
  let current := selectGeneration d.mState
  (current, { d with mState := wrapAdd (2 ^ 32) d.mState 1 }.lock current)

lemma acquireReadLock_steps (guard : Nat) : ∃ locking events,
    RcuGuard.step d guard .acquire = .ok (locking, .lock d.acquireReadLock.1, events) ∧
    RcuGuard.step locking guard (.lock d.acquireReadLock.1) =
      .ok (d.acquireReadLock.2, .held d.acquireReadLock.1, []) :=
  ⟨_, _, rfl, rfl⟩

/-- The number of readers in `mState`, below the bit of the generation. -/
def readers : Nat := d.mState % 2 ^ 31

end RcuDomain

/-- The domains, and the guards that were constructed, in order; a destroyed guard leaves `none`.
`releases` pairs the domain of each release with the one whose generation was released. -/
structure GuardObjects (O F D : Type) where
  domains : D → RcuDomain O F
  objects : List (Option (GuardObject D))
  releases : List (D × D)

inductive GuardAction (D : Type)
  | construct (domain : D)
  | move (other : Nat)
  | destroy (guard : Nat)
  deriving DecidableEq

namespace GuardObjects

variable {O F D : Type} [DecidableEq D]

def setDomain (s : GuardObjects O F D) (domain : D) (d : RcuDomain O F) : GuardObjects O F D :=
  { s with domains := update s.domains domain d }

def releaseReadLock (s : GuardObjects O F D) (domain : D) (generation : D × Bool) :
    Except Fault (GuardObjects O F D) :=
  if generation = (domain, selectGeneration (s.domains domain).mState) then
    let unlocked := s.setDomain generation.1 ((s.domains generation.1).unlock generation.2)
    let d := unlocked.domains domain
    .ok { unlocked.setDomain domain { d with mState := wrapSub (2 ^ 32) d.mState 1 } with
      releases := s.releases ++ [(domain, generation.1)] }
  else
    .error .bugCheck

/-- `RcuGuard::~RcuGuard`, on an object that is already out of the list. -/
def destructor (s : GuardObjects O F D) (guard : GuardObject D) :
    Except Fault (GuardObjects O F D) :=
  match guard.mGeneration with
  | none => .ok s
  | some generation =>
    match guard.mDomain with
    -- a call through the null pointer
    | none => .error .badAccess
    | some domain => s.releaseReadLock domain generation

/-- Only an object that lives is moved from or destroyed. -/
def step (s : GuardObjects O F D) : GuardAction D → Except Fault (GuardObjects O F D)
  | .construct domain =>
      let acquired := (s.domains domain).acquireReadLock
      .ok { s.setDomain domain acquired.2 with
        objects := s.objects ++ [some ⟨some domain, some (domain, acquired.1)⟩] }
  | .move other =>
      match s.objects[other]? with
      | some (some guard) =>
          .ok { s with
            objects := s.objects.set other (some { guard with mGeneration := none }) ++
              [some ⟨none, guard.mGeneration⟩] }
      | _ => .ok s
  | .destroy i =>
      match s.objects[i]? with
      | some (some guard) => { s with objects := s.objects.set i none }.destructor guard
      | _ => .ok s

/-! ## What the counts say -/

/-- The object is a guard that holds a generation of `domain`. -/
def holds (domain : D) (object : Option (GuardObject D)) : Bool :=
  (object.bind GuardObject.mGeneration).any fun generation => generation.1 = domain

def holders (s : GuardObjects O F D) (domain : D) : Nat := s.objects.countP (holds domain)

structure Idle (s : GuardObjects O F D) : Prop where
  state : ∀ domain, ∃ current, (s.domains domain).mState = topBit current
  unguarded : ∀ domain generation, ((s.domains domain).mGenerations generation).mGuard = 0
  objects : s.objects = []
  releases : s.releases = []

structure Balanced (s : GuardObjects O F D) : Prop where
  readers : ∀ domain, (s.domains domain).readers = s.holders domain
  guarded : ∀ domain, ((s.domains domain).mGenerations
    (selectGeneration (s.domains domain).mState)).mGuard = s.holders domain
  unguarded : ∀ domain, ((s.domains domain).mGenerations
    (!selectGeneration (s.domains domain).mState)).mGuard = 0
  emptied : (∀ object ∈ s.objects, object = none) → ∀ domain, (s.domains domain).readers = 0 ∧
    ∀ generation, ((s.domains domain).mGenerations generation).mGuard = 0
  released : ∀ release ∈ s.releases, release.1 = release.2

/-- A guard is taken only while the count of readers has room, and a guard that was constructed by
a move is not destroyed while it holds a generation. -/
def Careful (s : GuardObjects O F D) : GuardAction D → Prop
  | .construct domain => s.holders domain + 1 < 2 ^ 31
  | .move _ => True
  | .destroy i => ∀ guard, s.objects[i]? = some (some guard) →
      guard.mGeneration = none ∨ guard.mDomain ≠ none

instance (s : GuardObjects O F D) : DecidablePred s.Careful
  | .construct domain => inferInstanceAs (Decidable (s.holders domain + 1 < 2 ^ 31))
  | .move _ => inferInstanceAs (Decidable True)
  | .destroy i => decidable_of_iff
      ((s.objects[i]?).join.all fun guard => guard.mGeneration = none ∨ guard.mDomain ≠ none) (by
        rcases h : s.objects[i]? with - | - | guard <;> simp [Careful, h])

def CarefulSteps (s : GuardObjects O F D) (a : GuardAction D) (t : GuardObjects O F D) : Prop :=
  s.Careful a ∧ s.step a = .ok t

end GuardObjects

/-! ## The counts of one domain -/

namespace RcuDomain

variable {O F : Type} {d : RcuDomain O F} {n : Nat} {current : Bool}

/-- The counts of a domain that `n` guards hold. -/
structure Counted (d : RcuDomain O F) (n : Nat) (current : Bool) : Prop where
  state : d.mState = n + topBit current
  few : n < 2 ^ 31
  guarded : (d.mGenerations current).mGuard = n
  unguarded : (d.mGenerations (!current)).mGuard = 0

lemma Counted.selects (h : Counted d n current) : selectGeneration d.mState = current := by
  rw [h.state]
  exact selectGeneration_eq h.few current

lemma Counted.readers_eq (h : Counted d n current) : d.readers = n := by
  have hfew := h.few
  rw [readers, h.state]
  cases current with
  | false => exact Nat.mod_eq_of_lt hfew
  | true =>
    rw [topBit, if_pos rfl, Nat.add_mod_right]
    exact Nat.mod_eq_of_lt hfew

lemma topBit_le (current : Bool) : topBit current ≤ 2 ^ 31 := by
  cases current <;> decide

lemma acquireReadLock_state (h : Counted d n current) :
    d.acquireReadLock.2.mState = (n + topBit current + 1) % 2 ^ 32 := by
  simp [acquireReadLock, lock, setGeneration, wrapAdd, h.state]

lemma Counted.acquire (h : Counted d n current) (hroom : n + 1 < 2 ^ 31) :
    d.acquireReadLock.1 = current ∧ Counted d.acquireReadLock.2 (n + 1) current := by
  have hselects := h.selects
  have htop := topBit_le current
  refine ⟨hselects, ?_, hroom, ?_, ?_⟩
  · rw [acquireReadLock_state h, Nat.mod_eq_of_lt (by omega)]
    omega
  · rw [acquireReadLock, hselects]
    simp [lock, setGeneration, wrapAdd, h.guarded]
    omega
  · rw [acquireReadLock, hselects]
    simp [lock, setGeneration, h.unguarded]

lemma Counted.release (h : Counted d (n + 1) current) :
    Counted { d.unlock current with mState := wrapSub (2 ^ 32) d.mState 1 } n current := by
  have hfew := h.few
  have htop := topBit_le current
  refine ⟨?_, by omega, ?_, ?_⟩
  · change wrapSub (2 ^ 32) d.mState 1 = n + topBit current
    rw [h.state, wrapSub_of_le (by omega) (by omega)]
    omega
  · have hsub : wrapSub (2 ^ 32) (n + 1) 1 = n := wrapSub_of_le (by omega) (by omega)
    simpa [unlock, setGeneration, h.guarded] using hsub
  · simp [unlock, setGeneration, h.unguarded]

lemma Counted.readers_overflow (h : Counted d n current) (hfull : ¬n + 1 < 2 ^ 31) :
    d.acquireReadLock.2.readers = 0 := by
  have hfew := h.few
  obtain rfl : n = 2 ^ 31 - 1 := by omega
  rw [readers, acquireReadLock_state h]
  cases current <;> decide

end RcuDomain

/-! ## Steps -/

namespace GuardObjects

variable {O F D : Type} [DecidableEq D] {s t : GuardObjects O F D} {current : D → Bool}
  {guard : GuardObject D} {domain : D}

/-- The counts of every domain, and what a guard that holds a generation knows of its domain. -/
structure Tracked (s : GuardObjects O F D) (current : D → Bool) : Prop where
  counted : ∀ domain, (s.domains domain).Counted (s.holders domain) (current domain)
  held : ∀ guard, some guard ∈ s.objects → ∀ domain generation,
    guard.mGeneration = some (domain, generation) →
      generation = current domain ∧ (guard.mDomain = none ∨ guard.mDomain = some domain)
  released : ∀ release ∈ s.releases, release.1 = release.2

lemma Idle.tracked (h : s.Idle) : ∃ current, s.Tracked current := by
  choose current hstate using h.state
  have hnone : ∀ domain, s.holders domain = 0 := fun domain => by simp [holders, h.objects]
  refine ⟨current, fun domain => ⟨?_, ?_, ?_, h.unguarded domain _⟩, ?_, ?_⟩
  · rw [hstate, hnone, Nat.zero_add]
  · rw [hnone]
    exact Nat.two_pow_pos 31
  · rw [hnone]
    exact h.unguarded domain _
  · simp [h.objects]
  · simp [h.releases]

lemma Tracked.balanced (h : s.Tracked current) : s.Balanced := by
  have hguarded : ∀ domain, ((s.domains domain).mGenerations
      (selectGeneration (s.domains domain).mState)).mGuard = s.holders domain := by
    intro domain
    rw [(h.counted domain).selects]
    exact (h.counted domain).guarded
  have hunguarded : ∀ domain, ((s.domains domain).mGenerations
      (!selectGeneration (s.domains domain).mState)).mGuard = 0 := by
    intro domain
    rw [(h.counted domain).selects]
    exact (h.counted domain).unguarded
  refine ⟨fun domain => (h.counted domain).readers_eq, hguarded, hunguarded, ?_, h.released⟩
  intro hall domain
  have hnone : s.holders domain = 0 := by
    rw [holders, countP_eq_zero]
    intro object hobject
    rw [hall object hobject]
    exact Bool.false_ne_true
  refine ⟨by rw [(h.counted domain).readers_eq, hnone], fun generation => ?_⟩
  by_cases hgeneration : generation = current domain
  · rw [hgeneration, (h.counted domain).guarded, hnone]
  · have hother : generation = !current domain := by
      rwa [Bool.eq_not]
    rw [hother, (h.counted domain).unguarded]

/-! ### Construction -/

lemma holders_construct (domain d : D) (generation : Bool) :
    (s.objects ++ [some (⟨some domain, some (domain, generation)⟩ : GuardObject D)]).countP
      (holds d) = s.holders d + if domain = d then 1 else 0 := by
  simp [holders, holds, countP_append, countP_singleton]

lemma Tracked.construct (h : s.Tracked current) (ht : s.step (.construct domain) = .ok t)
    (hcareful : s.Careful (.construct domain)) : t.Tracked current := by
  obtain ⟨hgeneration, hcounted⟩ := (h.counted domain).acquire hcareful
  obtain rfl := Except.ok.inj ht
  refine ⟨fun d => ?_, ?_, h.released⟩
  · change (update s.domains domain _ d).Counted (countP _ _) _
    rw [holders_construct]
    by_cases hd : domain = d
    · subst hd
      rw [update_self, if_pos rfl]
      exact hcounted
    · rw [update_of_ne (Ne.symm hd), if_neg hd]
      exact h.counted d
  · intro guard hmem d generation heq
    rcases mem_append.1 hmem with hold | hnew
    · exact h.held guard hold d generation heq
    · obtain rfl : guard = ⟨some domain, some (domain, _)⟩ := by simpa using hnew
      obtain ⟨rfl, rfl⟩ := Prod.mk.inj (Option.some.inj heq)
      exact ⟨hgeneration, .inr rfl⟩

lemma Tracked.construct_careful (h : s.Tracked current) (ht : s.step (.construct domain) = .ok t)
    (hbalanced : t.Balanced) :
    s.Careful (.construct domain) := by
  by_contra hfull
  have hreaders := hbalanced.readers domain
  obtain rfl := Except.ok.inj ht
  change (update s.domains domain _ domain).readers = countP _ _ at hreaders
  rw [holders_construct, update_self, if_pos rfl,
    (h.counted domain).readers_overflow hfull] at hreaders
  omega

/-! ### Moves -/

lemma holds_moved (d : D) (guard : GuardObject D) :
    holds d (some ⟨none, guard.mGeneration⟩) = holds d (some guard) := rfl

lemma not_holds_emptied (d : D) (mDomain : Option D) :
    holds d (some ⟨mDomain, none⟩) = false := rfl

lemma holders_move {other : Nat} (hother : s.objects[other]? = some (some guard)) (d : D) :
    (s.objects.set other (some { guard with mGeneration := none }) ++
      [some (⟨none, guard.mGeneration⟩ : GuardObject D)]).countP (holds d) = s.holders d := by
  have hset := countP_set_add (u := some { guard with mGeneration := none }) (holds d) hother
  rw [not_holds_emptied] at hset
  rw [countP_append, countP_singleton, holds_moved, holders]
  simpa using hset

lemma Tracked.move {other : Nat} (h : s.Tracked current)
    (hother : s.objects[other]? = some (some guard)) :
    Tracked { s with
      objects := s.objects.set other (some { guard with mGeneration := none }) ++
        [some ⟨none, guard.mGeneration⟩] } current := by
  refine ⟨fun d => ?_, ?_, h.released⟩
  · change (s.domains d).Counted (countP _ _) _
    rw [holders_move hother]
    exact h.counted d
  · intro g hmem d generation heq
    rcases mem_append.1 hmem with hset | hnew
    · rcases mem_or_eq_of_mem_set hset with hold | hemptied
      · exact h.held g hold d generation heq
      · obtain rfl := Option.some.inj hemptied
        cases heq
    · obtain rfl : g = ⟨none, guard.mGeneration⟩ := by simpa using hnew
      have hheld := h.held guard (mem_of_getElem? hother) d generation heq
      exact ⟨hheld.1, .inl rfl⟩

/-! ### Destruction -/

lemma holders_destroy {i : Nat} (hi : s.objects[i]? = some (some guard)) (d : D) :
    (s.objects.set i none).countP (holds d) + (if holds d (some guard) then 1 else 0) =
      s.holders d := by
  have hset := countP_set_add (u := none) (holds d) hi
  exact hset

omit [DecidableEq D] in
lemma held_of_destroyed {objects : List (Option (GuardObject D))} {i : Nat}
    (hmem : some guard ∈ objects.set i none) : some guard ∈ objects := by
  rcases mem_or_eq_of_mem_set hmem with hold | hnew
  · exact hold
  · cases hnew

lemma releaseReadLock_eq (hselects : selectGeneration (s.domains domain).mState = current domain) :
    s.releaseReadLock domain (domain, current domain) =
      .ok { s with
        domains := update s.domains domain
          { (s.domains domain).unlock (current domain) with
            mState := wrapSub (2 ^ 32) (s.domains domain).mState 1 }
        releases := s.releases ++ [(domain, domain)] } := by
  rw [releaseReadLock, hselects, if_pos rfl]
  simp [setDomain, RcuDomain.unlock, RcuDomain.setGeneration]

lemma Tracked.destroy {i : Nat} (h : s.Tracked current) (hi : s.objects[i]? = some (some guard))
    (hcareful : guard.mGeneration = none ∨ guard.mDomain ≠ none) :
    ∃ t, destructor { s with objects := s.objects.set i none } guard = .ok t ∧
      t.Tracked current := by
  have hmem : some guard ∈ s.objects := mem_of_getElem? hi
  cases hgeneration : guard.mGeneration with
  | none =>
    refine ⟨{ s with objects := s.objects.set i none }, by rw [destructor, hgeneration],
      fun d => ?_, ?_, h.released⟩
    · have hcount := holders_destroy hi d
      have hnone : holds d (some guard) = false := by
        rw [holds, Option.bind_some, hgeneration]
        rfl
      rw [hnone, if_neg Bool.false_ne_true, Nat.add_zero] at hcount
      have hcounted := h.counted d
      rw [← hcount] at hcounted
      exact hcounted
    · exact fun g hg d generation => h.held g (held_of_destroyed hg) d generation
  | some generation =>
    obtain ⟨domain, index⟩ := generation
    obtain ⟨rfl, hnone | hdomain⟩ := h.held guard hmem domain index hgeneration
    · simp [hgeneration, hnone] at hcareful
    · have hselects := (h.counted domain).selects
      refine ⟨_, by rw [destructor, hgeneration, hdomain]; exact releaseReadLock_eq hselects,
        fun d => ?_, ?_, ?_⟩
      · have hcount := holders_destroy hi d
        have hholds : holds d (some guard) = decide (domain = d) := by
          rw [holds, Option.bind_some, hgeneration]
          rfl
        rw [hholds] at hcount
        change (update s.domains domain _ d).Counted (countP _ _) _
        by_cases hd : domain = d
        · subst hd
          rw [update_self]
          have hcounted := h.counted domain
          rw [← hcount] at hcounted
          exact RcuDomain.Counted.release (by simpa using hcounted)
        · rw [update_of_ne (Ne.symm hd)]
          have hcounted := h.counted d
          rw [← hcount] at hcounted
          simpa [hd] using hcounted
      · exact fun g hg d generation => h.held g (held_of_destroyed hg) d generation
      · intro release hrelease
        rcases mem_append.1 hrelease with hold | hnew
        · exact h.released release hold
        · rw [mem_singleton.1 hnew]

/-! ## Runs -/

lemma Tracked.step {a : GuardAction D} (h : s.Tracked current) (hcareful : s.Careful a) :
    ∃ t, s.step a = .ok t ∧ t.Tracked current := by
  cases a with
  | construct domain => exact ⟨_, rfl, h.construct rfl hcareful⟩
  | move other =>
    rw [GuardObjects.step]
    split
    · rename_i guard hother
      exact ⟨_, rfl, h.move hother⟩
    · exact ⟨_, rfl, h⟩
  | destroy i =>
    rw [GuardObjects.step]
    split
    · rename_i guard hi
      exact h.destroy hi (hcareful guard hi)
    · exact ⟨_, rfl, h⟩

lemma Tracked.careful {a : GuardAction D} (h : s.Tracked current) (ht : s.step a = .ok t)
    (hbalanced : t.Balanced) : s.Careful a := by
  cases a with
  | construct domain => exact h.construct_careful ht hbalanced
  | move other => trivial
  | destroy i =>
    intro guard hi
    rw [GuardObjects.step, hi] at ht
    cases hgeneration : guard.mGeneration with
    | none => exact .inl rfl
    | some generation =>
      right
      intro hnone
      simp [destructor, hgeneration, hnone] at ht

lemma Tracked.of_run {as : List (GuardAction D)} (hs : s.Idle) (h : Run CarefulSteps s as t) :
    ∃ current, t.Tracked current := by
  obtain ⟨current, htracked⟩ := hs.tracked
  have hkeeps : ∀ s a t : _, Tracked (O := O) (F := F) s current → CarefulSteps s a t →
      Tracked t current := by
    rintro s a t htracked ⟨hcareful, hstep⟩
    obtain ⟨u, hu, hnext⟩ := htracked.step hcareful
    obtain rfl := Except.ok.inj (hstep.symm.trans hu)
    exact hnext
  exact ⟨current, h.invariant hkeeps htracked⟩

/-- After every run of careful steps the guards are balanced, and a further step keeps them so just
when it is careful. -/
theorem balanced_iff_careful {as : List (GuardAction D)} (hs : s.Idle)
    (h : Run CarefulSteps s as t) :
    t.Balanced ∧ ∀ a, (∃ u, t.step a = .ok u ∧ u.Balanced) ↔ t.Careful a := by
  obtain ⟨current, htracked⟩ := Tracked.of_run hs h
  refine ⟨htracked.balanced, fun a => ⟨?_, fun hcareful => ?_⟩⟩
  · rintro ⟨u, hu, hbalanced⟩
    exact htracked.careful hu hbalanced
  · obtain ⟨u, hu, hnext⟩ := htracked.step hcareful
    exact ⟨u, hu, hnext.balanced⟩

def fresh : GuardObjects Unit Unit Unit := ⟨fun _ => .init fun _ => ⟨none, none⟩, [], []⟩

lemma fresh_idle : fresh.Idle :=
  ⟨fun _ => ⟨false, rfl⟩, fun _ _ => rfl, rfl, rfl⟩

/-- Two guards; one is moved and its old object destroyed, the other is destroyed. -/
def movedGuards : List (GuardAction Unit) :=
  [.construct (), .construct (), .move 0, .destroy 0, .destroy 1, .move 2]

theorem balanced_movedGuards : ∃ t, runGuarded Careful step fresh movedGuards = some t ∧
    t.Balanced ∧ ∀ a, (∃ u, t.step a = .ok u ∧ u.Balanced) ↔ t.Careful a := by
  have hsome : (runGuarded Careful step fresh movedGuards).isSome := by decide
  obtain ⟨t, ht⟩ := Option.isSome_iff_exists.1 hsome
  exact ⟨t, ht, balanced_iff_careful fresh_idle (Run.of_runGuarded ht)⟩

def destroyMoved : List (GuardAction Unit) := [.construct (), .move 0, .destroy 1]

theorem not_balanced_destroyMoved :
    ¬∀ as : List (GuardAction Unit), ∃ t, as.foldlM step fresh = .ok t ∧ t.Balanced := by
  intro hall
  obtain ⟨t, ht, -⟩ := hall destroyMoved
  cases ht

end GuardObjects
end BezOS
