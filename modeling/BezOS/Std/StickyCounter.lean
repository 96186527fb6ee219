import BezOS.Lib.Transition
import BezOS.Lib.Word
import Mathlib.Data.Nat.Bitwise

/-!
# Sticky counters

`sm::detail::StickyCounter` of `std/detail/sticky_counter.hpp`, over an unsigned type of `w` bits. A
call is cut at its atomic operations, of which one step of the system is one, so that the runs are
the interleavings of any number of threads. The trace keeps what the calls return.
-/

namespace BezOS
namespace sm
namespace StickyCounter

open Lib List

def kZeroFlag (w : Nat) : Nat := 2 ^ (w - 1)

def kPendingZeroFlag (w : Nat) : Nat := 2 ^ (w - 2)

/-- A call, at the atomic operation it makes next. -/
inductive Call
  | increment (delta : Nat)
  | decrement (delta : Nat)
  | claimZero
  | exchange
  | load
  | helpZero
  | returned
  deriving DecidableEq

/-- What an operation does for a call. A decrement that finds another count than its own returns
`false` with its subtraction. -/
inductive Event
  | incremented (delta : Nat) (positive : Bool)
  | subtracted (delta : Nat)
  | decremented (zero : Bool)
  | loaded (value : Nat)
  deriving DecidableEq

/-- `(value & kZeroFlag) ? 0 : value`. -/
def visible (w value : Nat) : Nat :=
  if value &&& kZeroFlag w ≠ 0 then 0 else value

def Call.step (w mCount : Nat) : Call → Nat × Call × List Event
  | .increment delta =>
      (wrapAdd (2 ^ w) mCount delta, .returned, [.incremented delta (mCount &&& kZeroFlag w == 0)])
  | .decrement delta =>
      (wrapSub (2 ^ w) mCount delta, if mCount = delta then .claimZero else .returned,
        [.subtracted delta])
  | .claimZero =>
      if mCount = 0 then (kZeroFlag w, .returned, [.decremented true])
      else if mCount &&& kPendingZeroFlag w ≠ 0 then (mCount, .exchange, [])
      else (mCount, .returned, [.decremented false])
  | .exchange => (kZeroFlag w, .returned, [.decremented (mCount &&& kPendingZeroFlag w != 0)])
  | .load =>
      if mCount = 0 then (mCount, .helpZero, [])
      else (mCount, .returned, [.loaded (visible w mCount)])
  | .helpZero =>
      if mCount = 0 then (kZeroFlag w ||| kPendingZeroFlag w, .returned, [.loaded 0])
      else (mCount, .returned, [.loaded (visible w mCount)])
  | .returned => (mCount, .returned, [])

structure CounterSystem where
  mCount : Nat
  calls : List Call
  trace : List Event
  deriving DecidableEq

inductive Action
  | increment (delta : Nat)
  | decrement (delta : Nat)
  | load
  /-- A call that was made takes its next step. -/
  | step (call : Nat)

namespace CounterSystem

/-- The constructor. -/
def init (initial : Nat) : CounterSystem := ⟨initial, [], []⟩

def step (w : Nat) (s : CounterSystem) : Action → CounterSystem
  | .increment delta => { s with calls := s.calls ++ [.increment delta] }
  | .decrement delta => { s with calls := s.calls ++ [.decrement delta] }
  | .load => { s with calls := s.calls ++ [.load] }
  | .step call =>
      match s.calls[call]? with
      | none => s
      | some c =>
          let (mCount, c, events) := c.step w s.mCount
          ⟨mCount, s.calls.set call c, s.trace ++ events⟩

end CounterSystem

/-! ## What the counter is for -/

def Event.gain : Event → Nat
  | .incremented delta true => delta
  | _ => 0

def Event.loss : Event → Nat
  | .subtracted delta => delta
  | _ => 0

/-- The initial count and all successful increments. -/
def granted (initial : Nat) (trace : List Event) : Nat := initial + (trace.map Event.gain).sum

def released (trace : List Event) : Nat := (trace.map Event.loss).sum

def outstanding (initial : Nat) (trace : List Event) : Nat :=
  granted initial trace - released trace

/-- How many decrements have reported that they brought the count to zero. -/
def reports (trace : List Event) : Nat := trace.count (.decremented true)

def Event.allowed (initial : Nat) (past : List Event) : Event → Prop
  | .incremented _ positive => positive = true → reports past = 0
  | .subtracted delta => delta ≤ outstanding initial past
  | .decremented zero => zero = true → outstanding initial past = 0
  | .loaded value => value = outstanding initial past ∧ (reports past ≠ 0 → value = 0)

/-- Zero is sticky: it is reported when nothing is outstanding, once, and once all calls have
returned it was reported if there was something to bring to zero. -/
structure Sticky (initial : Nat) (s : CounterSystem) : Prop where
  justified : Justified (Event.allowed initial) s.trace
  once : reports s.trace ≤ 1
  reported : (∀ c ∈ s.calls, c = .returned) → outstanding initial s.trace = 0 →
    0 < granted initial s.trace → reports s.trace = 1

def Call.decrease : Call → Nat
  | .decrement delta => delta
  | _ => 0

def Call.increase : Call → Nat
  | .increment delta => delta
  | _ => 0

/-- A decrement takes away part of what is outstanding. -/
def Matched (initial : Nat) (s : CounterSystem) : Action → Prop
  | .step call => s.calls[call]?.elim 0 Call.decrease ≤ outstanding initial s.trace
  | _ => True

/-- An increment does not carry into the two flags of the word, whether or not they are set. -/
def LeavesFlags (w : Nat) (s : CounterSystem) : Action → Prop
  | .step call => s.mCount % kPendingZeroFlag w + s.calls[call]?.elim 0 Call.increase <
      kPendingZeroFlag w
  | _ => True

instance (initial : Nat) (s : CounterSystem) : DecidablePred (Matched initial s) := fun a => by
  cases a <;> unfold Matched <;> infer_instance

instance (w : Nat) (s : CounterSystem) : DecidablePred (LeavesFlags w s) := fun a => by
  cases a <;> unfold LeavesFlags <;> infer_instance

def Steps (w initial : Nat) (s : CounterSystem) (a : Action) (t : CounterSystem) : Prop :=
  Matched initial s a ∧ s.step w a = t

def CarefulSteps (w initial : Nat) (s : CounterSystem) (a : Action) (t : CounterSystem) : Prop :=
  LeavesFlags w s a ∧ Steps w initial s a t

/-! ## The flags of a word -/

section Flags

variable {n q k : Nat}

lemma and_two_pow_eq_zero_iff (v i : Nat) : v &&& 2 ^ i = 0 ↔ v / 2 ^ i % 2 = 0 := by
  rw [Nat.and_two_pow, Nat.testBit_eq_decide_div_mod_eq]
  by_cases h : v / 2 ^ i % 2 = 1
  · simp [h]
  · simp [Nat.mod_two_ne_one.1 h]

lemma and_kPendingZeroFlag (hk : k < 2 ^ n) :
    (q * 2 ^ n + k) &&& kPendingZeroFlag (n + 2) = 0 ↔ q % 2 = 0 := by
  rw [kPendingZeroFlag, Nat.add_sub_cancel, and_two_pow_eq_zero_iff, Nat.add_comm,
    Nat.add_mul_div_right _ _ (Nat.two_pow_pos n), Nat.div_eq_of_lt hk, Nat.zero_add]

lemma and_kZeroFlag (hk : k < 2 ^ n) :
    (q * 2 ^ n + k) &&& kZeroFlag (n + 2) = 0 ↔ q / 2 % 2 = 0 := by
  rw [kZeroFlag, show n + 2 - 1 = n + 1 by omega, and_two_pow_eq_zero_iff, Nat.pow_succ,
    ← Nat.div_div_eq_div_mul, Nat.add_comm, Nat.add_mul_div_right _ _ (Nat.two_pow_pos n),
    Nat.div_eq_of_lt hk, Nat.zero_add]

lemma kZeroFlag_eq : kZeroFlag (n + 2) = 2 * 2 ^ n + 0 := by
  rw [kZeroFlag, show n + 2 - 1 = n + 1 by omega, Nat.pow_succ]
  omega

lemma kZeroFlag_or_kPendingZeroFlag :
    kZeroFlag (n + 2) ||| kPendingZeroFlag (n + 2) = 3 * 2 ^ n + 0 := by
  have hlt : 2 ^ n < 2 ^ (n + 1) := Nat.pow_lt_pow_right (by decide) (Nat.lt_succ_self n)
  have hor := Nat.two_pow_add_eq_or_of_lt hlt 1
  rw [Nat.mul_one, Nat.pow_succ] at hor
  rw [kZeroFlag, kPendingZeroFlag, Nat.add_sub_cancel, show n + 2 - 1 = n + 1 by omega,
    Nat.pow_succ, ← hor]
  omega

lemma visible_of_lt {value : Nat} (h : value < 2 ^ n) : visible (n + 2) value = value := by
  have hflag := (@and_kZeroFlag n 0 value h).2 rfl
  rw [Nat.zero_mul, Nat.zero_add] at hflag
  rw [visible, if_neg (not_not.2 hflag)]

lemma visible_of_flag (hk : k < 2 ^ n) (hq : q / 2 % 2 = 1) :
    visible (n + 2) (q * 2 ^ n + k) = 0 :=
  if_pos fun h => by rw [and_kZeroFlag hk, hq] at h; cases h

end Flags

/-! ## What an event adds -/

section Trace

variable {initial : Nat} {trace : List Event} {e : Event}

@[simp] lemma granted_concat :
    granted initial (trace ++ [e]) = granted initial trace + e.gain := by
  simp [granted, Nat.add_assoc]

@[simp] lemma released_concat : released (trace ++ [e]) = released trace + e.loss := by
  simp [released]

@[simp] lemma reports_concat :
    reports (trace ++ [e]) = reports trace + if e = .decremented true then 1 else 0 := by
  simp [reports, count_singleton]

lemma outstanding_concat (hgain : e.gain = 0) (hloss : e.loss = 0) :
    outstanding initial (trace ++ [e]) = outstanding initial trace := by
  simp [outstanding, hgain, hloss]

end Trace

/-! ## The phases of a count -/

/-- What the word stands for: the count; or a zero with the flags `q`, which a load has marked for
the decrement that is about to claim it (3) or which is claimed (2), and failed increments. -/
inductive Phase (n initial mCount : Nat) (calls : List Call) (trace : List Event) : Prop
  | counting (hcount : mCount = outstanding initial trace) (hlt : mCount < 2 ^ n)
      (hreports : reports trace = 0) (hexchange : .exchange ∉ calls)
      (hclaim : mCount = 0 → 0 < granted initial trace → .claimZero ∈ calls)
  | flagged (q more : Nat) (hq : 2 ≤ q ∧ q ≤ 3) (hcount : mCount = q * 2 ^ n + more)
      (hmore : more < 2 ^ n) (hout : outstanding initial trace = 0)
      (hreports : reports trace = 3 - q)
      (hclaim : q = 3 → 0 < granted initial trace → .claimZero ∈ calls ∨ .exchange ∈ calls)

structure Invariant (n initial : Nat) (s : CounterSystem) : Prop where
  matched : released s.trace ≤ granted initial s.trace
  phase : Phase n initial s.mCount s.calls s.trace
  justified : Justified (Event.allowed initial) s.trace

variable {n initial mCount i : Nat} {calls : List Call} {trace trace' : List Event} {t u c : Call}
  {s : CounterSystem} {e : Event}

lemma mem_set (hc : c ∈ calls) (hi : calls[i]? = some t) (hne : c ≠ t) : c ∈ calls.set i u := by
  obtain ⟨j, hj⟩ := mem_iff_getElem?.1 hc
  have hij : i ≠ j := by
    rintro rfl
    exact hne (Option.some.inj (hj.symm.trans hi))
  exact mem_of_getElem? ((getElem?_set_ne hij).trans hj)

lemma mem_set_self (hi : calls[i]? = some t) : u ∈ calls.set i u :=
  mem_of_getElem? (getElem?_set_same hi)

lemma not_mem_set (hc : c ∉ calls) (hne : c ≠ u) : c ∉ calls.set i u := fun hm =>
  (mem_or_eq_of_mem_set hm).elim hc hne

lemma Phase.quiet (h : Phase n initial mCount calls trace) (hi : calls[i]? = some t)
    (hclaim : t ≠ .claimZero) (hexchange : t ≠ .exchange) (hu : u ≠ .exchange)
    (hgranted : granted initial trace' = granted initial trace)
    (hreleased : released trace' = released trace) (hreports : reports trace' = reports trace) :
    Phase n initial mCount (calls.set i u) trace' := by
  have hout : outstanding initial trace' = outstanding initial trace := by
    rw [outstanding, hgranted, hreleased, outstanding]
  cases h with
  | counting hcount hlt hr hex hcl =>
    refine .counting (hcount.trans hout.symm) hlt (hreports.trans hr) (not_mem_set hex hu.symm) ?_
    intro hzero hpos
    exact mem_set (hcl hzero (hgranted ▸ hpos)) hi hclaim.symm
  | flagged q more hq hcount hmore ho hr hcl =>
    refine .flagged q more hq hcount hmore (hout.trans ho) (hreports.trans hr) ?_
    intro hthree hpos
    rcases hcl hthree (hgranted ▸ hpos) with hmem | hmem
    · exact .inl (mem_set hmem hi hclaim.symm)
    · exact .inr (mem_set hmem hi hexchange.symm)

lemma Phase.visible_eq (h : Phase n initial mCount calls trace) :
    visible (n + 2) mCount = outstanding initial trace ∧
      (reports trace ≠ 0 → visible (n + 2) mCount = 0) := by
  cases h with
  | counting hcount hlt hr _ _ =>
    exact ⟨(visible_of_lt hlt).trans hcount, fun hne => absurd hr hne⟩
  | flagged q more hq hcount hmore ho hr _ =>
    rw [hcount, visible_of_flag hmore (by omega)]
    exact ⟨ho.symm, fun _ => rfl⟩

/-! ## The steps of a call -/

/-- The state after a step of the call with number `i`. -/
def CounterSystem.after (s : CounterSystem) (w i : Nat) (c : Call) : CounterSystem :=
  ⟨(c.step w s.mCount).1, s.calls.set i (c.step w s.mCount).2.1,
    s.trace ++ (c.step w s.mCount).2.2⟩

section Calls

variable (h : Invariant n initial s)

include h

lemma Invariant.neutral (hgain : e.gain = 0) (hloss : e.loss = 0)
    (hallowed : e.allowed initial s.trace)
    (hphase : Phase n initial mCount calls (s.trace ++ [e])) :
    Invariant n initial ⟨mCount, calls, s.trace ++ [e]⟩ where
  matched := by simpa [hgain, hloss] using h.matched
  phase := hphase
  justified := h.justified.snoc hallowed

lemma Invariant.quiet (hi : s.calls[i]? = some t) (hclaim : t ≠ .claimZero)
    (hexchange : t ≠ .exchange) (hu : u ≠ .exchange) (hgain : e.gain = 0) (hloss : e.loss = 0)
    (hreport : e ≠ .decremented true) (hallowed : e.allowed initial s.trace) :
    Invariant n initial ⟨s.mCount, s.calls.set i u, s.trace ++ [e]⟩ :=
  h.neutral hgain hloss hallowed (h.phase.quiet hi hclaim hexchange hu (by simp [hgain])
    (by simp [hloss]) (by simp [hreport]))

lemma Invariant.increment {delta : Nat} (hi : s.calls[i]? = some (.increment delta))
    (hleaves : LeavesFlags (n + 2) s (.step i)) :
    Invariant n initial (s.after (n + 2) i (.increment delta)) := by
  have hlt : s.mCount % 2 ^ n + delta < 2 ^ n := by
    simpa [LeavesFlags, hi, Call.increase, kPendingZeroFlag] using hleaves
  have hmatched := h.matched
  have hpow : 2 ^ (n + 2) = 4 * 2 ^ n := by rw [Nat.pow_add, Nat.mul_comm]
  simp only [CounterSystem.after, Call.step, wrapAdd, hpow]
  cases h.phase with
  | counting hcount hsmall hr hex hcl =>
    rw [Nat.mod_eq_of_lt hsmall] at hlt
    have hflag := (@and_kZeroFlag n 0 s.mCount hsmall).2 rfl
    rw [Nat.zero_mul, Nat.zero_add] at hflag
    rw [hflag, Nat.mod_eq_of_lt (by omega), beq_self_eq_true]
    refine ⟨?_, .counting ?_ hlt (by simpa using hr) (not_mem_set hex (by simp)) ?_,
      h.justified.snoc fun _ => hr⟩
    · simp [Event.gain, Event.loss]
      omega
    · simp only [outstanding] at hcount
      simp [outstanding, Event.gain, Event.loss]
      omega
    · intro hzero hpos
      change s.mCount + delta = 0 at hzero
      simp only [granted_concat, Event.gain] at hpos
      exact mem_set (hcl (by omega) (by omega)) hi (by simp)
  | flagged q more hq hcount hmore ho hr hcl =>
    have hset : ¬ s.mCount &&& kZeroFlag (n + 2) = 0 := by
      rw [hcount, and_kZeroFlag hmore]
      omega
    have hword := Nat.mul_le_mul_right (2 ^ n) hq.2
    rw [hcount, Nat.mul_add_mod_of_lt hmore] at hlt
    rw [beq_false_of_ne hset, hcount, Nat.add_assoc, Nat.mod_eq_of_lt (by omega)]
    refine h.neutral rfl rfl (fun hfalse => by cases hfalse) (.flagged q _ hq rfl hlt
      ((outstanding_concat rfl rfl).trans ho) (by simpa using hr) fun hthree hpos => ?_)
    rcases hcl hthree (by simpa [Event.gain] using hpos) with hmem | hmem
    · exact .inl (mem_set hmem hi (by simp))
    · exact .inr (mem_set hmem hi (by simp))

lemma Invariant.decrement {delta : Nat} (hi : s.calls[i]? = some (.decrement delta))
    (hmatched : Matched initial s (.step i)) :
    Invariant n initial (s.after (n + 2) i (.decrement delta)) := by
  have hle : delta ≤ outstanding initial s.trace := by
    simpa [Matched, hi, Call.decrease] using hmatched
  have hreleased := h.matched
  have hpos := Nat.two_pow_pos n
  have hpow : 2 ^ (n + 2) = 4 * 2 ^ n := by rw [Nat.pow_add, Nat.mul_comm]
  cases h.phase with
  | counting hcount hsmall hr hex hcl =>
    have hsub : wrapSub (2 ^ (n + 2)) s.mCount delta = s.mCount - delta :=
      wrapSub_of_le (hcount ▸ hle) (by omega)
    simp only [CounterSystem.after, Call.step, hsub]
    have hjustified := h.justified.snoc (e := Event.subtracted delta) hle
    simp only [outstanding] at hcount hle
    refine ⟨?_, .counting ?_ (Nat.lt_of_le_of_lt (Nat.sub_le _ _) hsmall) (by simpa using hr)
      (not_mem_set hex (by split <;> nofun)) ?_, hjustified⟩
    · simp [Event.gain, Event.loss]
      omega
    · simp [outstanding, Event.gain, Event.loss]
      omega
    · intro hzero _
      change s.mCount - delta = 0 at hzero
      rw [if_pos (by omega)]
      exact mem_set_self hi
  | flagged q more hq hcount hmore ho _ _ =>
    -- nothing is outstanding, so this takes nothing from a word that is not zero
    obtain rfl : delta = 0 := by omega
    have hlow := Nat.mul_le_mul_right (2 ^ n) hq.1
    have hhigh := Nat.mul_le_mul_right (2 ^ n) hq.2
    simp only [CounterSystem.after, Call.step, if_neg (show s.mCount ≠ 0 by omega),
      wrapSub_of_le (Nat.zero_le _) (show s.mCount < 2 ^ (n + 2) by omega), Nat.sub_zero]
    exact h.quiet hi nofun nofun nofun rfl rfl nofun hle

lemma Invariant.claimZero (hi : s.calls[i]? = some .claimZero) :
    Invariant n initial (s.after (n + 2) i .claimZero) := by
  have hpos := Nat.two_pow_pos n
  cases h.phase with
  | counting hcount hsmall hr hex hcl =>
    by_cases hzero : s.mCount = 0
    · have ho := hcount.symm.trans hzero
      simp only [CounterSystem.after, Call.step, if_pos hzero]
      exact h.neutral rfl rfl (fun _ => ho) (.flagged 2 0 (by decide) kZeroFlag_eq hpos
        ((outstanding_concat rfl rfl).trans ho) (by simp [hr]) nofun)
    · have hflag := (@and_kPendingZeroFlag n 0 s.mCount hsmall).2 rfl
      rw [Nat.zero_mul, Nat.zero_add] at hflag
      simp only [CounterSystem.after, Call.step, if_neg hzero, hflag]
      exact h.neutral rfl rfl nofun (.counting (hcount.trans (outstanding_concat rfl rfl).symm)
        hsmall (by simpa using hr) (not_mem_set hex nofun) fun hz => absurd hz hzero)
  | flagged q more hq hcount hmore ho hr hcl =>
    have hlow := Nat.mul_le_mul_right (2 ^ n) hq.1
    have hflag : s.mCount &&& kPendingZeroFlag (n + 2) = 0 ↔ q % 2 = 0 := by
      rw [hcount, and_kPendingZeroFlag hmore]
    simp only [CounterSystem.after, Call.step, if_neg (show s.mCount ≠ 0 by omega)]
    by_cases hthree : q = 3
    · rw [if_pos (by rw [Ne, hflag]; omega), append_nil]
      exact ⟨h.matched, .flagged q more hq hcount hmore ho hr fun _ _ => .inr (mem_set_self hi),
        h.justified⟩
    · rw [if_neg (by rw [not_not, hflag]; omega)]
      exact h.neutral rfl rfl nofun (.flagged q more hq hcount hmore
        ((outstanding_concat rfl rfl).trans ho) (by simpa using hr) fun heq => absurd heq hthree)

lemma Invariant.exchange (hi : s.calls[i]? = some .exchange) :
    Invariant n initial (s.after (n + 2) i .exchange) := by
  cases h.phase with
  | counting _ _ _ hex _ => exact absurd (mem_of_getElem? hi) hex
  | flagged q more hq hcount hmore ho hr hcl =>
    have hflag : (s.mCount &&& kPendingZeroFlag (n + 2) != 0) = decide (q = 3) := by
      rw [Bool.eq_iff_iff, bne_iff_ne, Ne, hcount, and_kPendingZeroFlag hmore, decide_eq_true_iff]
      omega
    simp only [CounterSystem.after, Call.step, hflag]
    refine h.neutral rfl rfl (fun _ => ho) (.flagged 2 0 (by decide) kZeroFlag_eq
      (Nat.two_pow_pos n) ((outstanding_concat rfl rfl).trans ho) ?_ nofun)
    rw [reports_concat, hr]
    by_cases hthree : q = 3
    · simp [hthree]
    · simp [hthree]
      omega

lemma Invariant.helpZero (hi : s.calls[i]? = some .helpZero) :
    Invariant n initial (s.after (n + 2) i .helpZero) := by
  by_cases hzero : s.mCount = 0
  · simp only [CounterSystem.after, Call.step, if_pos hzero]
    cases h.phase with
    | counting hcount hsmall hr hex hcl =>
      have ho := hcount.symm.trans hzero
      refine h.neutral rfl rfl ⟨ho.symm, fun _ => rfl⟩ (.flagged 3 0 (by decide)
        kZeroFlag_or_kPendingZeroFlag (Nat.two_pow_pos n) ((outstanding_concat rfl rfl).trans ho)
        (by simpa using hr) fun _ hpositive => ?_)
      simp only [granted_concat, Event.gain, Nat.add_zero] at hpositive
      exact .inl (mem_set (hcl hzero hpositive) hi nofun)
    | flagged q more hq hcount =>
      have hlow := Nat.mul_le_mul_right (2 ^ n) hq.1
      have hpos := Nat.two_pow_pos n
      omega
  · simp only [CounterSystem.after, Call.step, if_neg hzero]
    exact h.quiet hi nofun nofun nofun rfl rfl nofun h.phase.visible_eq

lemma Invariant.load (hi : s.calls[i]? = some .load) :
    Invariant n initial (s.after (n + 2) i .load) := by
  by_cases hzero : s.mCount = 0
  · simp only [CounterSystem.after, Call.step, if_pos hzero, append_nil]
    exact ⟨h.matched, h.phase.quiet hi nofun nofun nofun rfl rfl rfl, h.justified⟩
  · simp only [CounterSystem.after, Call.step, if_neg hzero]
    exact h.quiet hi nofun nofun nofun rfl rfl nofun h.phase.visible_eq

lemma Invariant.begin (hc : c ≠ .exchange) :
    Invariant n initial { s with calls := s.calls ++ [c] } := by
  refine ⟨h.matched, ?_, h.justified⟩
  cases h.phase with
  | counting hcount hsmall hr hex hcl =>
    refine .counting hcount hsmall hr (fun hm => ?_) fun hz hp => mem_append_left _ (hcl hz hp)
    exact (mem_append.1 hm).elim hex fun hm => hc (mem_singleton.1 hm).symm
  | flagged q more hq hcount hmore ho hr hcl =>
    exact .flagged q more hq hcount hmore ho hr fun hthree hp =>
      (hcl hthree hp).imp (mem_append_left _) (mem_append_left _)

end Calls

lemma Invariant.step {a : Action} {s' : CounterSystem} (h : Invariant n initial s)
    (hstep : CarefulSteps (n + 2) initial s a s') : Invariant n initial s' := by
  obtain ⟨hcareful, hmatched, rfl⟩ := hstep
  cases a with
  | increment delta => exact h.begin nofun
  | decrement delta => exact h.begin nofun
  | load => exact h.begin nofun
  | step call =>
    rw [CounterSystem.step]
    cases hc : s.calls[call]? with
    | none => exact h
    | some c =>
      change Invariant n initial (s.after (n + 2) call c)
      cases c with
      | increment delta => exact h.increment hc hcareful
      | decrement delta => exact h.decrement hc hmatched
      | claimZero => exact h.claimZero hc
      | exchange => exact h.exchange hc
      | load => exact h.load hc
      | helpZero => exact h.helpZero hc
      | returned =>
        rw [CounterSystem.after, Call.step, set_of_getElem? hc, append_nil]
        exact h

lemma Invariant.sticky (h : Invariant n initial s) : Sticky initial s := by
  cases h.phase with
  | counting hcount _ hr _ hcl =>
    exact ⟨h.justified, by omega, fun hreturned ho hpos =>
      nomatch hreturned _ (hcl (hcount.trans ho) hpos)⟩
  | flagged q more hq _ _ _ hr hcl =>
    refine ⟨h.justified, by omega, fun hreturned _ hpos => ?_⟩
    by_cases hthree : q = 3
    · rcases hcl hthree hpos with hm | hm
      · cases hreturned _ hm
      · cases hreturned _ hm
    · omega

/-- Whatever the interleaving, zero is sticky as long as no increment carries into the flags. -/
theorem zero_is_sticky {w : Nat} {as : List Action} (hw : 2 ≤ w)
    (hinitial : initial < kPendingZeroFlag w)
    (hrun : Run (CarefulSteps w initial) (CounterSystem.init initial) as s) : Sticky initial s := by
  obtain ⟨n, rfl⟩ : ∃ n, w = n + 2 := ⟨w - 2, by omega⟩
  rw [kPendingZeroFlag, Nat.add_sub_cancel] at hinitial
  have hinit : Invariant n initial (CounterSystem.init initial) := by
    refine ⟨Nat.zero_le _, .counting rfl hinitial rfl nofun fun hzero hpos => ?_, .nil⟩
    exact absurd hpos (Nat.not_lt.2 (Nat.le_of_eq hzero))
  exact (hrun.invariant (fun _ _ _ h hstep => h.step hstep) hinit).sticky

/-- A count of one goes to zero, a load marks it, an increment fails, the decrement claims it. -/
theorem zero_is_sticky_helped : ∃ s, s.mCount = kZeroFlag 32 ∧
    s.trace = [.subtracted 1, .loaded 0, .incremented 1 false, .decremented true] ∧ Sticky 1 s := by
  obtain ⟨as, hrun⟩ : ∃ as, runGuarded (fun s a => LeavesFlags 32 s a ∧ Matched 1 s a)
      (fun s a => (.ok (s.step 32 a) : Except Unit _)) (CounterSystem.init 1) as =
      some ⟨kZeroFlag 32, [.returned, .returned, .returned],
        [.subtracted 1, .loaded 0, .incremented 1 false, .decremented true]⟩ :=
    ⟨[.decrement 1, .step 0, .load, .step 1, .step 1, .increment 1, .step 2, .step 0, .step 0], rfl⟩
  refine ⟨_, rfl, rfl, zero_is_sticky (by decide) (by decide)
    ((Run.of_runGuarded hrun).mono fun s a t h => ⟨h.1.1, h.1.2, Except.ok.inj h.2⟩)⟩

/-- An increment that fails clears the flag of zero, and the next one succeeds. -/
theorem not_sticky_of_overflow :
    ¬ ∀ as s, Run (Steps 32 1) (CounterSystem.init 1) as s → Sticky 1 s := by
  intro hall
  have hrun : runGuarded (Matched 1) (fun s a => (.ok (s.step 32 a) : Except Unit _))
      (CounterSystem.init 1)
      [.decrement 1, .step 0, .step 0, .increment (2 ^ 31), .step 1, .increment 1, .step 2] =
      some ⟨1, [.returned, .returned, .returned], [.subtracted 1, .decremented true,
        .incremented (2 ^ 31) false, .incremented 1 true]⟩ := rfl
  have hsticky := hall _ _
    ((Run.of_runGuarded hrun).mono fun s a t h => ⟨h.1, Except.ok.inj h.2⟩)
  have hallowed := hsticky.justified
    [.subtracted 1, .decremented true, .incremented (2 ^ 31) false] (.incremented 1 true) [] rfl rfl
  revert hallowed
  decide

end StickyCounter
end sm
end BezOS
