import Mathlib.Algebra.Group.Nat.Defs
import Mathlib.Data.List.Nodup
import BezOS.Fs.Vfs
import BezOS.Lib.OrderedList

/-!
# Iterating over a folder

`FolderMixin::next` of `fs/folder.cpp` between calls of `mknode` and `rmnode`. The children are a map
ordered by name, and an iterator holds a position in it, which every change of the map invalidates;
the generation of the folder tells the iterator of changes, and it finds its place by the name it
returned last. What is to be seen by a caller is said of the history of the calls.
-/

namespace BezOS
namespace Vfs

open Lib List Option Except

abbrev ChildEntry := VfsString × NodeId

def childKey (entry : ChildEntry) : List Int := entry.1.map charValue

/-- The children in the order of their names. `changes` is not in the source: it counts how often
the map was changed, which `mGeneration` does in 32 bits. -/
structure FolderMixin where
  mChildren : List ChildEntry
  mGeneration : Nat
  changes : Nat
  deriving DecidableEq

/-- `FolderMixin::Iterator`; a position is an index, and the length of the list stands for `end()`.
`taken` is not in the source: it is the number of changes the position was taken at. -/
structure FolderIterator where
  name : VfsString
  current : Nat
  generation : Nat
  taken : Nat
  deriving DecidableEq

namespace FolderMixin

variable (f : FolderMixin)

def changeTo (children : List ChildEntry) : FolderMixin :=
  ⟨children, (f.mGeneration + 1) % 2 ^ 32, f.changes + 1⟩

def mknode (name : VfsString) (child : NodeId) : OsStatus × FolderMixin :=
  if name ∈ f.mChildren.map Prod.fst then (.alreadyExists, f)
  else (.success, f.changeTo (insertKey childKey (name, child) f.mChildren))

/-- `rmnode` of a child with the given name. -/
def rmnode (name : VfsString) : OsStatus × FolderMixin :=
  if name ∈ f.mChildren.map Prod.fst then
    (.success, f.changeTo (f.mChildren.filter fun entry => entry.1 ≠ name))
  else (.notFound, f)

/-- The position that `next` moves the iterator to. -/
def advance (iterator : FolderIterator) : Except Fault Nat :=
  if iterator.name = [] then .ok 0
  else if iterator.generation ≠ f.mGeneration then
    .ok (upperBound childKey (iterator.name.map charValue) f.mChildren)
  -- `iterator->current++`, on a position that is still one, and not `end()`
  else if iterator.taken = f.changes ∧ iterator.current < f.mChildren.length then
    .ok (iterator.current + 1)
  else .error .badAccess

/-- `next`, with the child it returns, or none when it reports completion. -/
def next (iterator : FolderIterator) : Except Fault (Option ChildEntry × FolderIterator) := do
  let current ← f.advance iterator
  let moved : FolderIterator := ⟨iterator.name, current, f.mGeneration, f.changes⟩
  match f.mChildren[current]? with
  | none => .ok (none, moved)
  | some entry => .ok (some entry, { moved with name := entry.1 })

end FolderMixin

/-! ## Histories -/

/-- A call of `next` has returned a child, when the folder had the given children, or has reported
completion, when the given children had been there since the first call. -/
inductive IterationEvent
  | returned (entry : ChildEntry) (children : List ChildEntry)
  | completed (steady : List ChildEntry)
  deriving DecidableEq

def returnedEntries (history : List IterationEvent) : List ChildEntry :=
  history.filterMap fun
    | .returned entry _ => some entry
    | .completed _ => none

def IterationEvent.isCompleted : IterationEvent → Bool
  | .returned .. => false
  | .completed _ => true

def Completed (history : List IterationEvent) : Prop :=
  ∃ event ∈ history, event.isCompleted = true
  deriving Decidable

/-- A child is returned while it is there, after no greater one and not after completion; on
completion every child that was there all along has been returned once. -/
def IterationEvent.Allowed (past : List IterationEvent) : IterationEvent → Prop
  | .returned entry children =>
      entry ∈ children ∧ (∀ r ∈ returnedEntries past, textLess r.1 entry.1) ∧ ¬Completed past
  | .completed steady => ∀ entry ∈ steady, (returnedEntries past).count entry = 1

def Stable (history : List IterationEvent) : Prop := Justified IterationEvent.Allowed history

/-! ## Calls -/

/-- One iterator over a folder. `steady` are the children that have been there since the first call
of `next`. -/
structure FolderIteration where
  folder : FolderMixin
  iterator : FolderIterator
  steady : Option (List ChildEntry)
  history : List IterationEvent

inductive FolderCall
  | next
  | mknode (name : VfsString) (child : NodeId)
  | rmnode (name : VfsString)
  deriving DecidableEq

namespace FolderIteration

variable (s : FolderIteration)

def changed (folder : FolderMixin) : FolderIteration :=
  { s with
    folder := folder
    steady := s.steady.map fun entries => entries.filter fun entry => entry ∈ folder.mChildren }

def step : FolderCall → Except Fault FolderIteration
  | .next => do
      let steady := s.steady.getD s.folder.mChildren
      let (result, iterator) ← s.folder.next s.iterator
      let event := match result with
        | some entry => IterationEvent.returned entry s.folder.mChildren
        | none => .completed steady
      .ok ⟨s.folder, iterator, some steady, s.history ++ [event]⟩
  | .mknode name child => .ok (s.changed (s.folder.mknode name child).2)
  | .rmnode name => .ok (s.changed (s.folder.rmnode name).2)

structure Fresh : Prop where
  sorted : s.folder.mChildren.Pairwise fun a b => childKey a < childKey b
  iterator : s.iterator = ⟨[], 0, 0, 0⟩
  steady : s.steady = none
  history : s.history = []

/-- After completion `next` is called only when no child is behind the last name and the folder has
changed since the last call; a child with the empty name is gone when the iterator is called again
after it; and the folder has not changed as often as makes its generation the old one. -/
def Careful : FolderCall → Prop
  | .next => s.history ≠ [] →
      if s.iterator.name = [] then
        if Completed s.history then s.folder.mChildren = []
        else ∀ entry ∈ s.folder.mChildren, entry.1 ≠ []
      else if s.iterator.generation = s.folder.mGeneration then
        s.iterator.taken = s.folder.changes ∧ ¬Completed s.history
      else Completed s.history →
        ∀ entry ∈ s.folder.mChildren, ¬textLess s.iterator.name entry.1
  | .mknode .. => True
  | .rmnode _ => True

def Steps (s : FolderIteration) (call : FolderCall) (t : FolderIteration) : Prop :=
  s.step call = .ok t

def CarefulSteps (s : FolderIteration) (call : FolderCall) (t : FolderIteration) : Prop :=
  s.Careful call ∧ s.Steps call t

end FolderIteration

/-! ## What the history says -/

section History

variable {history : List IterationEvent} {entry : ChildEntry} {children steady : List ChildEntry}

@[simp] lemma returnedEntries_returned :
    returnedEntries (history ++ [.returned entry children]) = returnedEntries history ++ [entry] := by
  simp [returnedEntries]

@[simp] lemma returnedEntries_completed :
    returnedEntries (history ++ [.completed steady]) = returnedEntries history := by
  simp [returnedEntries]

@[simp] lemma completed_returned :
    Completed (history ++ [.returned entry children]) ↔ Completed history := by
  simp [Completed, IterationEvent.isCompleted, or_and_right, exists_or]

@[simp] lemma completed_completed : Completed (history ++ [.completed steady]) :=
  ⟨_, mem_append_right _ (mem_singleton_self _), rfl⟩

end History

namespace FolderIteration

variable {s t : FolderIteration} {current : Nat} {entry : ChildEntry}

def Behind (s : FolderIteration) (entry : ChildEntry) : Prop :=
  ∀ r ∈ returnedEntries s.history, textLess r.1 entry.1

structure Invariant (s : FolderIteration) : Prop where
  sorted : s.folder.mChildren.Pairwise fun a b => childKey a < childKey b
  stable : Stable s.history
  once : (returnedEntries s.history).Nodup
  started : s.steady = none ↔ s.history = []
  /-- The iterator has the name it returned last. -/
  name : s.iterator.name = ((returnedEntries s.history).getLast?.map Prod.fst).getD []
  greatest : ∀ r ∈ returnedEntries s.history, ¬textLess s.iterator.name r.1
  steady : ∀ entries, s.steady = some entries → ∀ e ∈ entries,
    e ∈ s.folder.mChildren ∧ (e ∈ returnedEntries s.history ∨ s.Behind e)
  taken : s.iterator.taken ≤ s.folder.changes
  /-- A position that is still one is that of the last name, or the end. -/
  position : s.iterator.name ≠ [] → s.iterator.taken = s.folder.changes →
    if Completed s.history then s.iterator.current = s.folder.mChildren.length
    else ∃ e, s.folder.mChildren[s.iterator.current]? = some e ∧ e.1 = s.iterator.name

lemma Invariant.of_fresh (h : s.Fresh) : s.Invariant where
  sorted := h.sorted
  stable := by
    rw [h.history]
    exact Justified.nil
  once := by simp [h.history, returnedEntries]
  started := by simp [h.steady, h.history]
  name := by simp [h.iterator, h.history, returnedEntries]
  greatest := by simp [h.history, returnedEntries]
  steady := by simp [h.steady]
  taken := by simp [h.iterator]
  position := by simp [h.iterator]

lemma Invariant.exists_last (h : s.Invariant) (hname : s.iterator.name ≠ []) :
    ∃ r ∈ returnedEntries s.history, r.1 = s.iterator.name := by
  have hlast := h.name
  cases hr : (returnedEntries s.history).getLast? with
  | none =>
    rw [hr] at hlast
    exact absurd hlast hname
  | some r =>
    rw [hr] at hlast
    exact ⟨r, mem_of_getLast? hr, hlast.symm⟩

lemma Invariant.behind (h : s.Invariant) {e : ChildEntry} (he : textLess s.iterator.name e.1) :
    s.Behind e := by
  intro r hr
  exact lt_of_le_of_lt (not_lt.1 (h.greatest r hr)) he

lemma Invariant.not_behind (h : s.Invariant) {e : ChildEntry} (hname : s.iterator.name ≠ [])
    (he : ¬textLess s.iterator.name e.1) : ¬s.Behind e := by
  obtain ⟨r, hr, hlast⟩ := h.exists_last hname
  intro hbehind
  exact he (hlast ▸ hbehind r hr)

/-- The iterator is moved to the first child behind all that was returned. -/
structure Reaches (s : FolderIteration) (current : Nat) : Prop where
  advance : s.folder.advance s.iterator = .ok current
  le : current ≤ s.folder.mChildren.length
  passed : ∀ e ∈ s.folder.mChildren.take current, ¬s.Behind e
  ahead : ∀ e ∈ s.folder.mChildren.drop current, s.Behind e
  completed : Completed s.history → current = s.folder.mChildren.length

lemma Reaches.of_name (h : s.Invariant) (hname : s.iterator.name ≠ [])
    (hadvance : s.folder.advance s.iterator =
      .ok (upperBound childKey (s.iterator.name.map charValue) s.folder.mChildren))
    (hcompleted : Completed s.history →
      ∀ e ∈ s.folder.mChildren, ¬textLess s.iterator.name e.1) :
    ∃ current, s.Reaches current := by
  obtain ⟨htake, hdrop, hle⟩ := upperBound_spec h.sorted (s.iterator.name.map charValue)
  refine ⟨_, hadvance, hle, fun e he => ?_, fun e he => h.behind (hdrop e he), fun hc => ?_⟩
  · exact h.not_behind hname (not_lt.2 (htake e he))
  · have hnil : s.folder.mChildren.drop
        (upperBound childKey (s.iterator.name.map charValue) s.folder.mChildren) = [] :=
      eq_nil_iff_forall_not_mem.2 fun e he =>
        hcompleted hc e (mem_of_mem_drop he) (hdrop e he)
    have hge := drop_eq_nil_iff.1 hnil
    omega

lemma Reaches.of_begin (hname : s.iterator.name = [])
    (hahead : ∀ e ∈ s.folder.mChildren, s.Behind e)
    (hcompleted : Completed s.history → s.folder.mChildren = []) : s.Reaches 0 where
  advance := by rw [FolderMixin.advance, if_pos hname]
  le := Nat.zero_le _
  passed := by simp
  ahead := by simpa using hahead
  completed hc := by rw [hcompleted hc]; rfl

lemma Invariant.reaches (h : s.Invariant) (hcareful : s.Careful .next) :
    ∃ current, s.Reaches current := by
  by_cases hhistory : s.history = []
  · -- the first call
    have hreturned : returnedEntries s.history = [] := by rw [hhistory]; rfl
    have hname : s.iterator.name = [] := by rw [h.name, hreturned]; rfl
    refine ⟨0, Reaches.of_begin hname (fun e _ r hr => ?_) fun hc => ?_⟩
    · rw [hreturned] at hr
      cases hr
    · obtain ⟨event, hevent, -⟩ := hc
      rw [hhistory] at hevent
      cases hevent
  · have hstarted := hcareful hhistory
    by_cases hname : s.iterator.name = []
    · rw [if_pos hname] at hstarted
      by_cases hc : Completed s.history
      · rw [if_pos hc] at hstarted
        refine ⟨0, Reaches.of_begin hname (fun e he => ?_) fun _ => hstarted⟩
        rw [hstarted] at he
        cases he
      · rw [if_neg hc] at hstarted
        refine ⟨0, Reaches.of_begin hname (fun e he => h.behind ?_) fun hc' => absurd hc' hc⟩
        rw [hname]
        exact textLess_of_ne_nil (hstarted e he)
    · rw [if_neg hname] at hstarted
      by_cases hgeneration : s.iterator.generation = s.folder.mGeneration
      · rw [if_pos hgeneration] at hstarted
        obtain ⟨htaken, hc⟩ := hstarted
        have hposition := h.position hname htaken
        rw [if_neg hc] at hposition
        obtain ⟨e, he, hlast⟩ := hposition
        have hbound := upperBound_of_getElem? h.sorted he
        have hlt := (List.getElem?_eq_some_iff.1 he).1
        refine Reaches.of_name h hname ?_ fun hc' => absurd hc' hc
        rw [FolderMixin.advance, if_neg hname, if_neg (not_not.2 hgeneration), if_pos ⟨htaken, hlt⟩,
          ← hbound, childKey, hlast]
      · rw [if_neg hgeneration] at hstarted
        refine Reaches.of_name h hname ?_ hstarted
        rw [FolderMixin.advance, if_neg hname, if_pos hgeneration]

/-! ## Steps -/

lemma Reaches.step_eq (h : s.Reaches current) :
    s.step .next = .ok
      (match s.folder.mChildren[current]? with
      | some entry => ⟨s.folder, ⟨entry.1, current, s.folder.mGeneration, s.folder.changes⟩,
          some (s.steady.getD s.folder.mChildren),
          s.history ++ [.returned entry s.folder.mChildren]⟩
      | none => ⟨s.folder, ⟨s.iterator.name, current, s.folder.mGeneration, s.folder.changes⟩,
          some (s.steady.getD s.folder.mChildren),
          s.history ++ [.completed (s.steady.getD s.folder.mChildren)]⟩) := by
  have hnext : s.folder.next s.iterator = .ok
      (match s.folder.mChildren[current]? with
      | some entry => (some entry, ⟨entry.1, current, s.folder.mGeneration, s.folder.changes⟩)
      | none => (none,
          ⟨s.iterator.name, current, s.folder.mGeneration, s.folder.changes⟩)) := by
    rw [FolderMixin.next, h.advance]
    simp only [bind, Except.bind]
    cases s.folder.mChildren[current]? <;> rfl
  rw [step, hnext]
  cases s.folder.mChildren[current]? <;> rfl

section

variable (h : s.Invariant)

include h

lemma Invariant.steady_getD :
    ∀ e ∈ s.steady.getD s.folder.mChildren,
      e ∈ s.folder.mChildren ∧ (e ∈ returnedEntries s.history ∨ s.Behind e) := by
  cases hsteady : s.steady with
  | some entries => exact h.steady entries hsteady
  | none =>
    intro e he
    refine ⟨he, .inr fun r hr => ?_⟩
    rw [h.started.1 hsteady] at hr
    cases hr

lemma Invariant.returned (hreaches : s.Reaches current)
    (hentry : s.folder.mChildren[current]? = some entry) :
    Invariant ⟨s.folder, ⟨entry.1, current, s.folder.mGeneration, s.folder.changes⟩,
      some (s.steady.getD s.folder.mChildren),
      s.history ++ [.returned entry s.folder.mChildren]⟩ := by
  obtain ⟨hlt, hget⟩ := List.getElem?_eq_some_iff.1 hentry
  have hdrop : s.folder.mChildren.drop current =
      entry :: s.folder.mChildren.drop (current + 1) := by
    rw [drop_eq_getElem_cons hlt, hget]
  have hbehind : s.Behind entry := hreaches.ahead entry (by rw [hdrop]; exact mem_cons_self ..)
  have hnot : ¬Completed s.history := by
    intro hc
    rw [hreaches.completed hc] at hlt
    exact absurd hlt (Nat.lt_irrefl _)
  have hgreater : ∀ e ∈ s.folder.mChildren.drop (current + 1), textLess entry.1 e.1 := by
    have hsorted := h.sorted.drop (i := current)
    rw [hdrop] at hsorted
    exact (pairwise_cons.1 hsorted).1
  refine ⟨h.sorted, h.stable.snoc ⟨mem_of_getElem? hentry, hbehind, hnot⟩, ?_, by simp,
    by simp, ?_, ?_, Nat.le_refl _, fun _ _ => ?_⟩
  · rw [returnedEntries_returned, nodup_append]
    refine ⟨h.once, nodup_singleton _, fun r hr e he => ?_⟩
    rintro rfl
    obtain rfl := mem_singleton.1 he
    exact textLess_irrefl _ (hbehind r hr)
  · intro r hr
    rw [returnedEntries_returned] at hr
    rcases mem_append.1 hr with hold | hnew
    · exact fun hless => textLess_irrefl _ (textLess_trans (hbehind r hold) hless)
    · obtain rfl := mem_singleton.1 hnew
      exact textLess_irrefl _
  · rintro entries heq e he
    obtain rfl := Option.some.inj heq
    obtain ⟨hchild, hreturned | hahead⟩ := h.steady_getD e he
    · exact ⟨hchild, .inl (by simp [hreturned])⟩
    · -- it is not among the children that were passed
      refine ⟨hchild, ?_⟩
      rw [← take_append_drop current s.folder.mChildren] at hchild
      rcases mem_append.1 hchild with hpassed | hnext
      · exact absurd hahead (hreaches.passed e hpassed)
      · rw [hdrop] at hnext
        rcases mem_cons.1 hnext with rfl | hlater
        · exact .inl (by simp)
        · refine .inr fun r hr => ?_
          rw [returnedEntries_returned] at hr
          rcases mem_append.1 hr with hold | hnew
          · exact hahead r hold
          · obtain rfl := mem_singleton.1 hnew
            exact hgreater e hlater
  · rw [if_neg (by simpa using hnot)]
    exact ⟨entry, hentry, rfl⟩

lemma Invariant.completed (hreaches : s.Reaches current)
    (hnone : s.folder.mChildren[current]? = none) :
    Invariant ⟨s.folder, ⟨s.iterator.name, current, s.folder.mGeneration, s.folder.changes⟩,
      some (s.steady.getD s.folder.mChildren),
      s.history ++ [.completed (s.steady.getD s.folder.mChildren)]⟩ := by
  have hend : current = s.folder.mChildren.length :=
    Nat.le_antisymm hreaches.le (List.getElem?_eq_none_iff.1 hnone)
  have hpassed : ∀ e ∈ s.folder.mChildren, ¬s.Behind e := by
    have hall := hreaches.passed
    rwa [hend, take_length] at hall
  have honce : ∀ e ∈ s.steady.getD s.folder.mChildren, (returnedEntries s.history).count e = 1 := by
    intro e he
    obtain ⟨hchild, hplace⟩ := h.steady_getD e he
    exact count_eq_one_of_mem h.once (hplace.resolve_right (hpassed e hchild))
  refine ⟨h.sorted, h.stable.snoc honce, ?_, by simp, ?_, ?_, ?_, Nat.le_refl _, fun _ _ => ?_⟩
  · rw [returnedEntries_completed]
    exact h.once
  · rw [returnedEntries_completed]
    exact h.name
  · rw [returnedEntries_completed]
    exact h.greatest
  · rintro entries heq e he
    obtain rfl := Option.some.inj heq
    obtain ⟨hchild, hplace⟩ := h.steady_getD e he
    refine ⟨hchild, .inl ?_⟩
    rw [returnedEntries_completed]
    exact hplace.resolve_right (hpassed e hchild)
  · rw [if_pos completed_completed]
    exact hend

lemma Invariant.next (hcareful : s.Careful .next) :
    ∃ t, s.step .next = .ok t ∧ t.Invariant := by
  obtain ⟨current, hreaches⟩ := h.reaches hcareful
  rw [hreaches.step_eq]
  refine ⟨_, rfl, ?_⟩
  cases hentry : s.folder.mChildren[current]? with
  | some entry => exact h.returned hreaches hentry
  | none => exact h.completed hreaches hentry

lemma Invariant.steady_changed (folder : FolderMixin) :
    ∀ entries, (s.changed folder).steady = some entries → ∀ e ∈ entries,
      e ∈ folder.mChildren ∧ (e ∈ returnedEntries s.history ∨ s.Behind e) := by
  intro entries heq e he
  obtain ⟨old, hold, rfl⟩ := map_eq_some_iff.1 heq
  obtain ⟨hmem, hchild⟩ := mem_filter.1 he
  exact ⟨of_decide_eq_true hchild, (h.steady old hold e hmem).2⟩

lemma Invariant.changed {children : List ChildEntry}
    (hsorted : children.Pairwise fun a b => childKey a < childKey b) :
    (s.changed (s.folder.changeTo children)).Invariant where
  sorted := hsorted
  stable := h.stable
  once := h.once
  started := map_eq_none_iff.trans h.started
  name := h.name
  greatest := h.greatest
  steady := h.steady_changed _
  taken := Nat.le_succ_of_le h.taken
  position := by
    intro _ htaken
    have hle := h.taken
    change s.iterator.taken = s.folder.changes + 1 at htaken
    omega

lemma Invariant.unchanged : (s.changed s.folder).Invariant where
  sorted := h.sorted
  stable := h.stable
  once := h.once
  started := map_eq_none_iff.trans h.started
  name := h.name
  greatest := h.greatest
  steady := h.steady_changed _
  taken := h.taken
  position := h.position

lemma Invariant.step {call : FolderCall} (hcareful : s.Careful call) :
    ∃ t, s.step call = .ok t ∧ t.Invariant := by
  cases call with
  | next => exact h.next hcareful
  | mknode name child =>
    refine ⟨_, rfl, ?_⟩
    rw [FolderMixin.mknode]
    split
    · exact h.unchanged
    · exact h.changed (insertKey_sorted h.sorted)
  | rmnode name =>
    refine ⟨_, rfl, ?_⟩
    rw [FolderMixin.rmnode]
    split
    · exact h.changed (h.sorted.filter _)
    · exact h.unchanged

end

lemma returned_of_stable (ht : s.step .next = .ok t) (hstable : Stable t.history) :
    ∃ current, s.folder.advance s.iterator = .ok current ∧
      ∀ entry, s.folder.mChildren[current]? = some entry →
        s.Behind entry ∧ ¬Completed s.history := by
  obtain ⟨⟨result, iterator⟩, hnext, ht⟩ := bind_eq_ok.1 ht
  obtain ⟨current, hadvance, hresult⟩ := bind_eq_ok.1 hnext
  refine ⟨current, hadvance, fun entry hentry => ?_⟩
  rw [hentry] at hresult
  obtain ⟨rfl, -⟩ := Prod.mk.inj (ok.inj hresult)
  obtain rfl := ok.inj ht
  exact (hstable s.history _ [] rfl).2

lemma exists_returned (hhistory : s.history ≠ []) (hnot : ¬Completed s.history) :
    ∃ r, r ∈ returnedEntries s.history := by
  obtain ⟨event, hevent⟩ := exists_mem_of_ne_nil _ hhistory
  cases event with
  | returned entry children => exact ⟨entry, mem_filterMap.2 ⟨_, hevent, rfl⟩⟩
  | completed steady => exact absurd ⟨_, hevent, rfl⟩ hnot

lemma Invariant.getElem?_upperBound (h : s.Invariant) {name : VfsString}
    (hentry : entry ∈ s.folder.mChildren) (hless : textLess name entry.1) :
    ∃ first, s.folder.mChildren[upperBound childKey (name.map charValue) s.folder.mChildren]? =
      some first := by
  obtain ⟨htake, -, hle⟩ := upperBound_spec h.sorted (name.map charValue)
  refine ⟨_, getElem?_eq_getElem (lt_of_le_of_ne hle fun heq => ?_)⟩
  rw [heq, take_length] at htake
  exact absurd hless (not_lt.2 (htake entry hentry))

lemma Invariant.first_eq_nil (h : s.Invariant) {first : ChildEntry}
    (hentry : entry ∈ s.folder.mChildren) (hnil : entry.1 = [])
    (hfirst : s.folder.mChildren[0]? = some first) : first.1 = [] := by
  have hsorted := h.sorted
  obtain ⟨rest, hchildren⟩ : ∃ rest, s.folder.mChildren = first :: rest := by
    cases hc : s.folder.mChildren with
    | nil =>
      rw [hc] at hfirst
      cases hfirst
    | cons x rest =>
      rw [hc] at hfirst
      exact ⟨rest, by rw [Option.some.inj hfirst]⟩
  rw [hchildren] at hentry hsorted
  rcases mem_cons.1 hentry with rfl | hrest
  · exact hnil
  · have hless : textLess first.1 entry.1 := (pairwise_cons.1 hsorted).1 entry hrest
    rw [hnil] at hless
    exact absurd hless (textLess_nil _)

lemma Invariant.careful {call : FolderCall} (h : s.Invariant) (ht : s.step call = .ok t)
    (hstable : Stable t.history) : s.Careful call := by
  cases call with
  | mknode name child => trivial
  | rmnode name => trivial
  | next =>
    intro hhistory
    obtain ⟨current, hadvance, hreturned⟩ := returned_of_stable ht hstable
    rw [FolderMixin.advance] at hadvance
    by_cases hname : s.iterator.name = []
    · rw [if_pos hname] at hadvance ⊢
      obtain rfl := ok.inj hadvance
      by_cases hc : Completed s.history
      · rw [if_pos hc]
        by_contra hne
        have hpos := length_pos_iff.2 hne
        exact (hreturned _ (getElem?_eq_getElem hpos)).2 hc
      · rw [if_neg hc]
        intro entry hentry hnil
        obtain ⟨r, hr⟩ := exists_returned hhistory hc
        have hpos := length_pos_of_mem hentry
        have hfirst := getElem?_eq_getElem hpos
        have hless := (hreturned _ hfirst).1 r hr
        rw [h.first_eq_nil hentry hnil hfirst] at hless
        exact textLess_nil _ hless
    · rw [if_neg hname] at hadvance ⊢
      by_cases hgeneration : s.iterator.generation = s.folder.mGeneration
      · rw [if_neg (not_not.2 hgeneration)] at hadvance
        rw [if_pos hgeneration]
        split at hadvance
        · rename_i hvalid
          refine ⟨hvalid.1, fun hc => ?_⟩
          have hend := h.position hname hvalid.1
          rw [if_pos hc] at hend
          omega
        · cases hadvance
      · rw [if_pos hgeneration] at hadvance
        rw [if_neg hgeneration]
        obtain rfl := ok.inj hadvance
        intro hc entry hentry hless
        obtain ⟨first, hfirst⟩ := h.getElem?_upperBound hentry hless
        exact (hreturned first hfirst).2 hc

/-- Every run of careful calls is stable, and a further call keeps it so just when it is careful. -/
theorem stable_iff_careful {calls : List FolderCall} (hs : s.Fresh)
    (hrun : Run CarefulSteps s calls t) :
    Stable t.history ∧
      ∀ call, (∃ u, t.step call = .ok u ∧ Stable u.history) ↔ t.Careful call := by
  have hinv : t.Invariant := by
    refine hrun.invariant ?_ (Invariant.of_fresh hs)
    rintro s call t h ⟨hcareful, hstep⟩
    obtain ⟨u, hu, hnext⟩ := h.step hcareful
    obtain rfl := ok.inj (hstep.symm.trans hu)
    exact hnext
  refine ⟨hinv.stable, fun call => ⟨?_, fun hcareful => ?_⟩⟩
  · rintro ⟨u, hu, hstable⟩
    exact hinv.careful hu hstable
  · obtain ⟨u, hu, hnext⟩ := hinv.step hcareful
    exact ⟨u, hu, hnext.stable⟩

instance (s : FolderIteration) : DecidablePred s.Careful
  | .next => by
      dsimp only [Careful]
      infer_instance
  | .mknode .. => .isTrue trivial
  | .rmnode _ => .isTrue trivial

/-- A new iterator over a folder with the file `b`. -/
def single : FolderIteration := ⟨⟨[([0x62], 1)], 1, 1⟩, ⟨[], 0, 0, 0⟩, none, []⟩

lemma single_fresh : single.Fresh := ⟨pairwise_singleton _ _, rfl, rfl, rfl⟩

/-- The file is returned and removed, with others before and behind it; the one behind it is
returned too. -/
def changing : List FolderCall :=
  [.next, .mknode [0x61] 2, .mknode [0x63] 3, .rmnode [0x62], .next, .next]

theorem stable_changing : ∃ t, runGuarded Careful step single changing = some t ∧
    (returnedEntries t.history = [([0x62], 1), ([0x63], 3)] ∧ Completed t.history) ∧
    Stable t.history ∧ ∀ call, (∃ u, t.step call = .ok u ∧ Stable u.history) ↔ t.Careful call := by
  have hrun : (runGuarded Careful step single changing).map
      (fun t => (returnedEntries t.history, decide (Completed t.history))) =
        some ([([0x62], 1), ([0x63], 3)], true) := by decide +kernel
  obtain ⟨t, ht, hhistory⟩ := map_eq_some_iff.1 hrun
  simp only [Prod.mk.injEq, decide_eq_true_eq] at hhistory
  exact ⟨t, ht, hhistory, stable_iff_careful single_fresh (Run.of_runGuarded ht)⟩

/-- A call after completion, with nothing changed, moves past the end. -/
theorem not_stable_past_end :
    ¬∀ (s : FolderIteration) (calls : List FolderCall), s.Fresh →
      ∃ t, calls.foldlM step s = .ok t ∧ Stable t.history := by
  intro hall
  obtain ⟨t, ht, -⟩ := hall single [.next, .next, .next] single_fresh
  have hfault : ([FolderCall.next, .next, .next].foldlM step single).toOption.isNone := by
    decide +kernel
  rw [ht] at hfault
  cases hfault

end FolderIteration
end Vfs
end BezOS
