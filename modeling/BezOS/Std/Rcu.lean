import BezOS.Lib.Transition
import BezOS.Lib.Chain
import BezOS.Lib.Word
import BezOS.Status

/-!
# Read-copy-update

`sm::RcuDomain`, `sm::RcuGuard` and `sm::detail::RcuGeneration` of `std/rcu.cpp`. Guards, retire
calls and the one `synchronize()` are cut at their atomic operations; the runs of the system are
their interleavings. A retire call is made of the store of `rcuRetireFn` and of `append` on a
guard: the guard it was called on, or the one that `RcuDomain::append` and `RcuDomain::call`
construct for it and destroy after it. A callback is arbitrary code: what it does with the domain
are steps of further guards and retire calls, and `synchronize()` goes on when it returns.
-/

namespace BezOS

open Lib

/-- The intrusive part of an object; `F` is the type of callbacks. -/
structure RcuObject (O F : Type) where
  rcuNextObject : Option O
  rcuRetireFn : Option F

structure RcuGeneration (O : Type) where
  mGuard : Nat
  mHead : Option O

structure RcuDomain (O F : Type) where
  mState : Nat
  mGenerations : Bool → RcuGeneration O
  objects : O → RcuObject O F

/-- A guard, at the operation it makes next; `held` is a guard in use. -/
inductive RcuGuard
  | acquire
  | lock (generation : Bool)
  | held (generation : Bool)
  | release (generation : Bool)
  | unlock (generation : Bool)
  | leave
  | gone
  deriving DecidableEq

/-- A retire call, at the operation it makes next. `append` is called on a guard, here given by
its number, whose generation it works on. -/
inductive RcuRetire (O F : Type)
  | setFn (object : O) (fn : F)
  | ready (object : O)
  | checkGuard (object : O) (guard : Nat) (generation : Bool)
  | checkFn (object : O) (guard : Nat) (generation : Bool)
  | loadHead (object : O) (guard : Nat) (generation : Bool)
  | storeNext (object : O) (guard : Nat) (generation : Bool) (head : Option O)
  | exchange (object : O) (guard : Nat) (generation : Bool) (head : Option O)
  | done

/-- `synchronize()`, at the operation it makes next; `returned` is between calls. -/
inductive RcuSynchronize (O : Type)
  | returned (count : Nat)
  | loadState
  | exchange (current : Nat)
  | wait (generation : Bool)
  | checkGuard (generation : Bool)
  | takeHead (generation : Bool)
  | loadNext (count : Nat) (head : O)
  | callback (count : Nat) (head : O) (next : Option O)
  | running (count : Nat) (next : Option O)

/-- What a run is judged by. A guard is alive from the step that counts it in `mState` to the step
that takes it out again, an object is retired when it is linked. -/
inductive RcuEvent (O : Type)
  | entered (guard : Nat)
  | left (guard : Nat)
  | retired (object : O)
  | ran (object : O)
  deriving DecidableEq

def kCurrentGeneration : Nat := 2 ^ 31

/-- The generation a value of `mState` selects. -/
def selectGeneration (state : Nat) : Bool := state &&& kCurrentGeneration ≠ 0

namespace RcuDomain

variable {O F : Type} [DecidableEq O] (d : RcuDomain O F)

def init (objects : O → RcuObject O F) : RcuDomain O F := ⟨0, fun _ => ⟨0, none⟩, objects⟩

def setGeneration (generation : Bool) (g : RcuGeneration O) : RcuDomain O F :=
  { d with mGenerations := Function.update d.mGenerations generation g }

def setObject (object : O) (o : RcuObject O F) : RcuDomain O F :=
  { d with objects := Function.update d.objects object o }

def lock (generation : Bool) : RcuDomain O F :=
  let g := d.mGenerations generation
  d.setGeneration generation { g with mGuard := wrapAdd (2 ^ 32) g.mGuard 1 }

def unlock (generation : Bool) : RcuDomain O F :=
  let g := d.mGenerations generation
  d.setGeneration generation { g with mGuard := wrapSub (2 ^ 32) g.mGuard 1 }

def setHead (generation : Bool) (head : Option O) : RcuDomain O F :=
  d.setGeneration generation { d.mGenerations generation with mHead := head }

end RcuDomain

section Steps

variable {O F : Type} [DecidableEq O]

/-- The constructor, `acquireReadLock`, and the destructor, `releaseReadLock`, of the guard with
number `guard`. -/
def RcuGuard.step (d : RcuDomain O F) (guard : Nat) :
    RcuGuard → Except Fault (RcuDomain O F × RcuGuard × List (RcuEvent O))
  | .acquire =>
      .ok ({ d with mState := wrapAdd (2 ^ 32) d.mState 1 }, .lock (selectGeneration d.mState),
        [.entered guard])
  | .lock generation => .ok (d.lock generation, .held generation, [])
  | .held generation => .ok (d, .held generation, [])
  | .release generation =>
      if generation = selectGeneration d.mState then .ok (d, .unlock generation, [])
      else .error .bugCheck
  | .unlock generation => .ok (d.unlock generation, .leave, [])
  | .leave => .ok ({ d with mState := wrapSub (2 ^ 32) d.mState 1 }, .gone, [.left guard])
  | .gone => .ok (d, .gone, [])

/-- The store of the callback, then `RcuGeneration::append`. -/
def RcuRetire.step (d : RcuDomain O F) :
    RcuRetire O F → Except Fault (RcuDomain O F × RcuRetire O F × List (RcuEvent O))
  | .setFn object fn =>
      .ok (d.setObject object { d.objects object with rcuRetireFn := some fn }, .ready object, [])
  | .ready object => .ok (d, .ready object, [])
  | .checkGuard object guard generation =>
      if 0 < (d.mGenerations generation).mGuard then .ok (d, .checkFn object guard generation, [])
      else .error .bugCheck
  | .checkFn object guard generation =>
      if (d.objects object).rcuRetireFn.isSome then .ok (d, .loadHead object guard generation, [])
      else .error .bugCheck
  | .loadHead object guard generation =>
      .ok (d, .storeNext object guard generation (d.mGenerations generation).mHead, [])
  | .storeNext object guard generation head =>
      .ok (d.setObject object { d.objects object with rcuNextObject := head },
        .exchange object guard generation head, [])
  | .exchange object guard generation head =>
      if (d.mGenerations generation).mHead = head then
        .ok (d.setHead generation (some object), .done, [.retired object])
      else
        -- a failed exchange leaves the head it saw in `head`
        .ok (d, .storeNext object guard generation (d.mGenerations generation).mHead, [])
  | .done => .ok (d, .done, [])

/-- The loop of `destroy`, at its test. -/
def RcuSynchronize.visit (count : Nat) : Option O → RcuSynchronize O
  | none => .returned count
  | some head => .loadNext count head

/-- `exchange`, the wait of `synchronize`, and `destroy`. -/
def RcuSynchronize.step (d : RcuDomain O F) :
    RcuSynchronize O → Except Fault (RcuDomain O F × RcuSynchronize O × List (RcuEvent O))
  | .returned count => .ok (d, .returned count, [])
  | .loadState => .ok (d, .exchange (d.mState &&& kCurrentGeneration), [])
  | .exchange current =>
      if d.mState = current then
        .ok ({ d with mState := current ^^^ kCurrentGeneration }, .wait (current ≠ 0), [])
      else
        .ok (d, .exchange current, [])
  | .wait generation =>
      if 0 < (d.mGenerations generation).mGuard then .ok (d, .wait generation, [])
      else .ok (d, .checkGuard generation, [])
  | .checkGuard generation =>
      if (d.mGenerations generation).mGuard = 0 then .ok (d, .takeHead generation, [])
      else .error .bugCheck
  | .takeHead generation =>
      .ok (d.setHead generation none, .visit 0 (d.mGenerations generation).mHead, [])
  | .loadNext count head =>
      .ok (d, .callback count head (d.objects head).rcuNextObject, [])
  | .callback count head next =>
      if (d.objects head).rcuRetireFn.isSome then .ok (d, .running count next, [.ran head])
      else .error .badAccess
  | .running count next => .ok (d, .visit (count + 1) next, [])

end Steps

structure RcuSystem (O F : Type) where
  domain : RcuDomain O F
  guards : List RcuGuard
  retires : List (RcuRetire O F)
  sync : RcuSynchronize O
  trace : List (RcuEvent O)

inductive RcuAction (O F : Type)
  /-- An object is constructed. -/
  | construct (object : O)
  /-- A guard is constructed. -/
  | guard
  /-- A guard takes its next step. -/
  | guardStep (guard : Nat)
  /-- The destructor of a guard is called. -/
  | release (guard : Nat)
  /-- `enqueue`, on a guard or on the domain. -/
  | enqueue (object : O) (fn : F)
  /-- `call`, whose object is new and comes with its callback. -/
  | call (object : O) (fn : F)
  /-- A retire call calls `append` on a guard. -/
  | append (retire guard : Nat)
  /-- A retire call takes its next step. -/
  | retireStep (retire : Nat)
  | synchronize
  /-- `synchronize` takes its next step. -/
  | syncStep

namespace RcuSystem

variable {O F : Type} [DecidableEq O]

def init (objects : O → RcuObject O F) : RcuSystem O F := ⟨.init objects, [], [], .returned 0, []⟩

def step (s : RcuSystem O F) : RcuAction O F → Except Fault (RcuSystem O F)
  | .construct object => .ok { s with domain := s.domain.setObject object ⟨none, none⟩ }
  | .guard => .ok { s with guards := s.guards ++ [.acquire] }
  | .guardStep guard =>
      match s.guards[guard]? with
      | none => .ok s
      | some g => do
          let (d, g, events) ← g.step s.domain guard
          pure { s with domain := d, guards := s.guards.set guard g, trace := s.trace ++ events }
  | .release guard =>
      match s.guards[guard]? with
      | some (.held generation) => .ok { s with guards := s.guards.set guard (.release generation) }
      | _ => .ok s
  | .enqueue object fn => .ok { s with retires := s.retires ++ [.setFn object fn] }
  | .call object fn =>
      .ok { s with
        domain := s.domain.setObject object ⟨none, some fn⟩
        retires := s.retires ++ [.ready object] }
  | .append retire guard =>
      match s.retires[retire]?, s.guards[guard]? with
      | some (.ready object), some (.held generation) =>
          .ok { s with retires := s.retires.set retire (.checkGuard object guard generation) }
      | _, _ => .ok s
  | .retireStep retire =>
      match s.retires[retire]? with
      | none => .ok s
      | some r => do
          let (d, r, events) ← r.step s.domain
          pure { s with domain := d, retires := s.retires.set retire r, trace := s.trace ++ events }
  | .synchronize =>
      match s.sync with
      | .returned _ => .ok { s with sync := .loadState }
      | _ => .ok s
  | .syncStep => do
      let (d, y, events) ← s.sync.step s.domain
      pure { s with domain := d, sync := y, trace := s.trace ++ events }

end RcuSystem

/-! ## What the domain is for -/

section History

variable {O F : Type} [DecidableEq O]

/-- Whether the object was retired and its callback has not been run since. -/
def pending (trace : List (RcuEvent O)) (object : O) : Bool :=
  trace.foldl (fun b e =>
    match e with
    | .retired o => if o = object then true else b
    | .ran o => if o = object then false else b
    | _ => b) false

def Alive (trace : List (RcuEvent O)) (guard : Nat) : Prop :=
  .entered guard ∈ trace ∧ .left guard ∉ trace

/-- A callback is run for one retirement of its object, for which none was run yet, and every
guard that was alive at the retirement is gone. -/
def RcuEvent.allowed (past : List (RcuEvent O)) : RcuEvent O → Prop
  | .ran object => ∃ before after, past = before ++ .retired object :: after ∧
      .ran object ∉ after ∧ ∀ guard, Alive before guard → .left guard ∈ after
  | _ => True

/-- The objects that `destroy` has taken off a list and still runs the callbacks of. -/
def RcuSynchronize.Rest (d : RcuDomain O F) : RcuSynchronize O → List O → Prop
  | .loadNext _ head, l => Chain (fun o => (d.objects o).rcuNextObject) (some head) l
  | .callback _ head next, l =>
      ∃ l', l = head :: l' ∧ Chain (fun o => (d.objects o).rcuNextObject) next l'
  | .running _ next, l => Chain (fun o => (d.objects o).rcuNextObject) next l
  | _, l => l = []

/-- The lists of the two generations, and of the one under destruction. -/
structure RcuLists (O : Type) where
  listed : Bool → List O
  rest : List O

def RcuLists.all (lists : RcuLists O) : List O :=
  lists.listed false ++ lists.listed true ++ lists.rest

namespace RcuSystem

variable (s : RcuSystem O F)

structure HasLists (lists : RcuLists O) : Prop where
  listed : ∀ generation, Chain (fun o => (s.domain.objects o).rcuNextObject)
    (s.domain.mGenerations generation).mHead (lists.listed generation)
  rest : s.sync.Rest s.domain lists.rest

/-- Grace periods are kept, and a retired object is on exactly one list until its callback is
run. -/
structure Grace : Prop where
  history : Justified RcuEvent.allowed s.trace
  lists : ∃ lists, s.HasLists lists ∧
    ∀ object, lists.all.count object = if pending s.trace object then 1 else 0

/-! ## The callers' part -/

end RcuSystem

def RcuRetire.object? : RcuRetire O F → Option O
  | .setFn object _ | .ready object | .checkGuard object _ _ | .checkFn object _ _
  | .loadHead object _ _ | .storeNext object _ _ _ | .exchange object _ _ _ => some object
  | .done => none

def RcuRetire.guard? : RcuRetire O F → Option (Nat × Bool)
  | .checkGuard _ guard generation | .checkFn _ guard generation | .loadHead _ guard generation
  | .storeNext _ guard generation _ | .exchange _ guard generation _ => some (guard, generation)
  | .setFn _ _ | .ready _ | .done => none

/-- The guard is counted in `mState`. -/
def RcuGuard.alive : RcuGuard → Bool
  | .acquire | .gone => false
  | _ => true

namespace RcuSystem

/-- The object is retired, or about to be. -/
def Outstanding (s : RcuSystem O F) (object : O) : Prop :=
  pending s.trace object ∨ ∃ r ∈ s.retires, r.object? = some object

/-- What callers see to: an object is constructed, and retired, only when it is not retired
already; a guard is destroyed when no call works with it; fewer than `2 ^ 31` guards are alive. -/
def Lawful (s : RcuSystem O F) : RcuAction O F → Prop
  | .construct object => ¬ s.Outstanding object
  | .enqueue object _ => ¬ s.Outstanding object
  | .call object _ => ¬ s.Outstanding object
  | .release guard => ∀ r ∈ s.retires, ∀ generation, r.guard? ≠ some (guard, generation)
  | .guardStep guard => s.guards[guard]? = some .acquire → s.guards.countP RcuGuard.alive + 1 < 2 ^ 31
  | _ => True

def LawfulSteps (s : RcuSystem O F) (a : RcuAction O F) (t : RcuSystem O F) : Prop :=
  s.Lawful a ∧ s.step a = .ok t

end RcuSystem

end History

end BezOS
