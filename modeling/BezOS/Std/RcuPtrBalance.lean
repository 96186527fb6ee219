import BezOS.Std.RcuPtrCounts

/-!
# Reference balance of the pointers

What every operation on the pointers does to the counts, and from it what every run keeps: each
count is the number of holders, and the object and its control block are retired once and with
their last holder. Four operations lose or invent a reference; a run has to avoid them, and to
keep the counts below the zero flag.
-/

namespace BezOS

open Lib StickyCounter List Option

namespace RcuPtrs

variable {s t : RcuPtrs} {L L' W W' : List Nat} {b i desired expected self : Nat}
  {control : Option Nat} {moved : Bool} {op : PtrOp}

/-! ## What the counters say -/

def strongCount (s : RcuPtrs) (b : Nat) : Nat := (load (s.blocks.getD b .new).mStrongCount).toNat

def weakCount (s : RcuPtrs) (b : Nat) : Nat := (load (s.blocks.getD b .new).mWeakCount).toNat

/-- The counts are the numbers of pointers, and object and block are retired once, with their
last holder. -/
structure Balanced (s : RcuPtrs) : Prop where
  strong : ∀ b < s.blocks.length, s.strongCount b = s.shared.count (some b)
  weak : ∀ b < s.blocks.length,
    s.weakCount b = s.shared.count (some b) + s.weak.count (some b)
  object : ∀ b cb, s.blocks[b]? = some cb →
    cb.objectRetired = if s.shared.count (some b) = 0 then 1 else 0
  block : ∀ b cb, s.blocks[b]? = some cb →
    cb.blockRetired = if s.shared.count (some b) + s.weak.count (some b) = 0 then 1 else 0

lemma Counts.strongCount_eq (h : s.Counts L W) (hb : b < s.blocks.length) :
    s.strongCount b = s.strongHolders L b := by
  have hsmall := h.small b
  rw [strongCount, h.getD_block hb]
  exact load_raw (by omega)

lemma Counts.weakCount_eq (h : s.Counts L W) (hb : b < s.blocks.length) :
    s.weakCount b = s.strongHolders L b + s.weakHolders W b := by
  rw [weakCount, h.getD_block hb]
  exact load_raw (h.small b)

lemma Counts.balanced (h : s.Counts [] []) : s.Balanced := by
  refine ⟨fun b hb => h.strongCount_eq hb, fun b hb => h.weakCount_eq hb, ?_, ?_⟩
  · intro b cb hcb
    have hblock := h.block b (List.getElem?_eq_some_iff.1 hcb).1
    obtain rfl : cb = _ := some_inj.1 (hcb.symm.trans hblock)
    rfl
  · intro b cb hcb
    have hblock := h.block b (List.getElem?_eq_some_iff.1 hcb).1
    obtain rfl : cb = _ := some_inj.1 (hcb.symm.trans hblock)
    rfl

/-! ## Careful operations -/

def Legal (s : RcuPtrs) : PtrOp → Prop
  | .copy src | .move src | .weak src | .weakOfRvalue src => src < s.shared.length
  | .assign dst src | .moveAssign dst src => dst < s.shared.length ∧ src < s.shared.length
  | .copyWeak src | .moveNewWeak src | .lock src => src < s.weak.length
  | .assignWeak dst src | .moveAssignWeak dst src => dst < s.weak.length ∧ src < s.weak.length
  | .exchange self desired | .store self desired =>
      self < s.shared.length ∧ desired < s.shared.length
  | .compareExchangeStrong self expected desired _
  | .compareExchangeWeak self expected desired _ =>
      self < s.shared.length ∧ expected < s.shared.length ∧ desired < s.shared.length
  | .reset self | .resetObject self _ | .destroy self => self < s.shared.length
  | .resetWeak self | .destroyWeak self => self < s.weak.length
  | .construct | .constructObject _ _ | .constructWeak => True

/-- The counts of the block can go up by `n` without reaching the zero flag. -/
def Room (s : RcuPtrs) (n : Nat) (control : Option Nat) : Prop :=
  ∀ b ∈ control, s.weakCount b + n < limit

/-- The pointer `j` once `desired` has been passed by value. -/
def passed (s : RcuPtrs) (desired : Nat) (moved : Bool) (j : Nat) : Option Nat :=
  if moved = true ∧ j = desired then none else s.sharedAt j

/-- Nothing but an empty pointer is exchanged in or turned from an rvalue into a weak pointer, and
only objects that are still alive are locked. -/
def Careful (s : RcuPtrs) : PtrOp → Prop
  | .copy src | .assign _ src | .store _ src | .weak src => s.Room 1 (s.sharedAt src)
  | .copyWeak src | .assignWeak _ src => s.Room 1 (s.weakAt src)
  | .lock src => s.Room 1 (s.weakAt src) ∧ ∀ b ∈ s.weakAt src, 0 < s.strongCount b
  | .weakOfRvalue src => s.sharedAt src = none
  | .exchange _ desired => s.sharedAt desired = none
  | .compareExchangeStrong self expected desired moved =>
      s.Room 2 (s.sharedAt self) ∧ s.Room 1 (s.sharedAt desired) ∧
        (s.passed desired moved self = s.passed desired moved expected →
          s.sharedAt desired = none)
  | .compareExchangeWeak self expected desired spurious =>
      s.Room 1 (s.sharedAt self) ∧
        (s.sharedAt self = s.sharedAt expected → spurious = false → s.sharedAt desired = none)
  | _ => True

def CarefulStep (s : RcuPtrs) (op : PtrOp) (t : RcuPtrs) : Prop :=
  s.Legal op ∧ s.Careful op ∧ s.step op = t

lemma strongHolders_newShared : s.newShared.strongHolders L b = s.strongHolders L b := by
  simp [strongHolders, newShared]

lemma weakHolders_newWeak : s.newWeak.weakHolders W b = s.weakHolders W b := by
  simp [weakHolders, newWeak]

lemma Counts.room (h : s.Counts [] []) {n : Nat} (hroom : s.Room n control)
    (hheld : ∀ b ∈ control, 0 < s.strongHolders [] b + s.weakHolders [] b) :
    ∀ b ∈ control, s.strongHolders [] b + s.weakHolders [] b + n < limit := by
  intro b hb
  rw [← h.weakCount_eq (h.bound b (hheld b hb))]
  exact hroom b hb

lemma strongHolders_pos (h : s.sharedAt i = some b) : 0 < s.strongHolders L b := by
  have hcount := count_pos_of_sharedAt h
  rw [strongHolders]
  omega

lemma weakHolders_pos (h : s.weakAt i = some b) : 0 < s.weakHolders W b := by
  have hcount := count_pos_of_weakAt h
  rw [weakHolders]
  omega

lemma Counts.roomShared (h : s.Counts [] []) {n : Nat} (hroom : s.Room n (s.sharedAt i)) :
    ∀ b ∈ s.sharedAt i, s.strongHolders [] b + s.weakHolders [] b + n < limit :=
  h.room hroom fun _ hb => Nat.add_pos_left (strongHolders_pos hb) _

lemma Counts.shareable (h : s.Counts [] []) (hroom : s.Room 1 (s.sharedAt i)) :
    s.Shareable [] [] (s.sharedAt i) :=
  fun b hb => ⟨strongHolders_pos hb, h.roomShared hroom b hb⟩

lemma Shareable.newShared (h : s.Shareable L W control) : s.newShared.Shareable L W control := by
  intro b hb
  rw [strongHolders_newShared]
  exact h b hb

lemma Counts.copy (h : s.Counts [] []) (hshare : s.Shareable [] [] control) :
    (s.newShared.acquire s.shared.length control).Counts [] [] :=
  h.newShared.acquire (by simp) hshare.newShared

lemma Counts.weakCopy (h : s.Counts [] [])
    (hcontrol : ∀ b ∈ control, 0 < s.strongHolders [] b + s.weakHolders [] b ∧
      s.strongHolders [] b + s.weakHolders [] b + 1 < limit) :
    (s.newWeak.acquireWeak s.weak.length control).Counts [] [] := by
  refine h.newWeak.acquireWeak (by simp) fun b hb => ?_
  rw [weakHolders_newWeak]
  exact hcontrol b hb

/-! ## Compare-exchange -/

lemma shared_replaceControl : (s.replaceControl i control).shared = s.shared.set i control := by
  rw [replaceControl]
  split <;> rfl

lemma Counts.shared_acquire (h : s.Counts L W) (hcontrol : s.Shareable L W control) :
    (s.acquire i control).shared = s.shared.set i control := by
  cases control with
  | none => exact shared_replaceControl
  | some b =>
    obtain ⟨hpos, hroom⟩ := hcontrol b rfl
    obtain ⟨t, ht, hshared, -, -⟩ := h.rcuAcquireStrong hpos hroom
    rw [RcuPtrs.acquire, ht, shared_replaceControl, hshared]

lemma Counts.compareExchange {spurious : Bool} (h : s.Counts L W) (hself : self < s.shared.length)
    (hexpected : expected < s.shared.length) (hshare : s.Shareable L W (s.sharedAt self))
    (hdesired : s.sharedAt self = s.sharedAt expected → spurious = false →
      s.sharedAt desired = none) :
    (s.compareExchange self expected desired spurious).Counts L W := by
  rw [RcuPtrs.compareExchange]
  by_cases hfail : s.sharedAt self ≠ s.sharedAt expected ∨ spurious = true
  · rw [if_pos hfail]
    have htaken := h.newShared.acquire (i := s.shared.length) (by simp) hshare.newShared
    refine htaken.moveShared ?_ ?_
    · rw [length_shared_acquire, length_shared_newShared]
      omega
    · rw [length_shared_acquire, length_shared_newShared]
      omega
  · rw [if_neg hfail]
    obtain ⟨heq, hspurious⟩ := not_or.1 hfail
    rw [hdesired (not_not.1 heq) (by simpa using hspurious)]
    exact h.release hself

/-- `desired` as a parameter of `compare_exchange_strong`. -/
def passDesired (s : RcuPtrs) (desired : Nat) (moved : Bool) : RcuPtrs :=
  if moved then s.newShared.moveShared s.shared.length desired
  else s.newShared.acquire s.shared.length (s.sharedAt desired)

lemma sharedAt_newShared {j : Nat} (hj : j < s.shared.length) :
    s.newShared.sharedAt j = s.sharedAt j := by
  rw [sharedAt, sharedAt, newShared, getElem?_append_left hj]

lemma Counts.passDesired (moved : Bool) (h : s.Counts [] []) (hdesired : desired < s.shared.length)
    (hroom : s.Room 1 (s.sharedAt desired)) :
    (s.passDesired desired moved).Counts [] [] := by
  cases moved with
  | false => exact h.copy (h.shareable hroom)
  | true => exact h.newShared.moveShared (by simp) (by rw [length_shared_newShared]; omega)

lemma Counts.shared_passDesired (moved : Bool) (h : s.Counts [] [])
    (hdesired : desired < s.shared.length) (hroom : s.Room 1 (s.sharedAt desired)) :
    (s.passDesired desired moved).shared =
      (if moved then s.shared.set desired none else s.shared) ++ [s.sharedAt desired] := by
  cases moved with
  | false =>
    have hshare : s.newShared.Shareable [] [] (s.sharedAt desired) := (h.shareable hroom).newShared
    rw [RcuPtrs.passDesired, if_neg (by decide), if_neg (by decide), h.newShared.shared_acquire hshare]
    change (s.shared ++ [none]).set s.shared.length _ = _
    simp
  | true =>
    rw [RcuPtrs.passDesired, if_pos rfl, if_pos rfl, RcuPtrs.moveShared, shared_replaceControl,
      sharedAt_newShared hdesired]
    change ((s.shared ++ [none]).set desired none).set s.shared.length _ = _
    rw [set_append_left _ _ hdesired]
    simp

lemma Counts.length_passDesired (moved : Bool) (h : s.Counts [] [])
    (hdesired : desired < s.shared.length) (hroom : s.Room 1 (s.sharedAt desired)) :
    (s.passDesired desired moved).shared.length = s.shared.length + 1 := by
  rw [h.shared_passDesired _ hdesired hroom]
  cases moved <;> simp

lemma Counts.sharedAt_passDesired (moved : Bool) (h : s.Counts [] [])
    (hdesired : desired < s.shared.length) (hroom : s.Room 1 (s.sharedAt desired)) :
    (∀ j < s.shared.length,
      (s.passDesired desired moved).sharedAt j = s.passed desired moved j) ∧
      (s.passDesired desired moved).sharedAt s.shared.length = s.sharedAt desired := by
  rw [sharedAt, h.shared_passDesired _ hdesired hroom]
  constructor
  · intro j hj
    rw [sharedAt, h.shared_passDesired _ hdesired hroom, passed]
    cases moved with
    | false => simp [sharedAt, getElem?_append_left hj]
    | true =>
      rw [if_pos rfl, getElem?_append_left (by simpa using hj), getElem?_set]
      by_cases hjd : j = desired
      · simp [hjd, hdesired]
      · simp [hjd, Ne.symm hjd, sharedAt]
  · cases moved <;> simp

lemma Counts.count_passDesired (moved : Bool) (h : s.Counts [] [])
    (hdesired : desired < s.shared.length) (hroom : s.Room 1 (s.sharedAt desired)) (b : Nat) :
    (s.passDesired desired moved).shared.count (some b) ≤ s.shared.count (some b) + 1 := by
  rw [h.shared_passDesired _ hdesired hroom, count_append, count_singleton]
  cases moved with
  | false =>
    rw [if_neg (by decide)]
    split <;> omega
  | true =>
    have hset := count_set_slot s.shared hdesired none b
    simp only [toList_none, count_nil, Nat.add_zero] at hset
    rw [if_pos rfl]
    split <;> omega

lemma weak_acquire : (s.acquire i control).weak = s.weak := by
  cases control with
  | none => exact weak_replaceControl
  | some b =>
    rw [acquire]
    split <;> rename_i t h <;>
      rw [weak_replaceControl, ← congrArg (fun p => p.2.weak) h] <;> rfl

lemma weak_passDesired :
    (s.passDesired desired moved).weak = s.weak := by
  cases moved with
  | false => exact weak_acquire
  | true => exact weak_replaceControl

lemma step_compareExchangeStrong :
    s.step (.compareExchangeStrong self expected desired moved) =
      ((s.passDesired desired moved).compareExchange self expected s.shared.length
        false).replaceControl s.shared.length none := rfl

lemma length_compareExchange {spurious : Bool} :
    s.shared.length ≤ (s.compareExchange self expected desired spurious).shared.length := by
  rw [compareExchange]
  split
  · rw [length_shared_moveShared, length_shared_acquire, length_shared_newShared]
    exact Nat.le_succ _
  · split
    · exact (length_set ..).ge
    · exact (length_set ..).ge

lemma Counts.shareable_passDesired (moved : Bool) (h : s.Counts [] [])
    (hself : self < s.shared.length) (hdesired : desired < s.shared.length)
    (hroom : s.Room 2 (s.sharedAt self)) (hroomd : s.Room 1 (s.sharedAt desired)) :
    (s.passDesired desired moved).Shareable [] [] ((s.passDesired desired moved).sharedAt self) := by
  intro b hb
  refine ⟨strongHolders_pos hb, ?_⟩
  rw [(h.sharedAt_passDesired moved hdesired hroomd).1 self hself, passed] at hb
  have hheld : b ∈ s.sharedAt self := by
    split at hb
    · cases hb
    · exact hb
  have hold := h.roomShared hroom b hheld
  have hcount := h.count_passDesired moved hdesired hroomd b
  simp only [strongHolders, weakHolders, weak_passDesired, count_nil, Nat.add_zero] at hold ⊢
  omega

lemma Counts.compareExchangeStrong (h : s.Counts [] []) (hself : self < s.shared.length)
    (hexpected : expected < s.shared.length) (hdesired : desired < s.shared.length)
    (hcare : s.Careful (.compareExchangeStrong self expected desired moved)) :
    (s.step (.compareExchangeStrong self expected desired moved)).Counts [] [] := by
  obtain ⟨hroom, hroomd, hempty⟩ := hcare
  have hpass := h.passDesired moved hdesired hroomd
  have hlen := h.length_passDesired moved hdesired hroomd
  obtain ⟨hat, hatlast⟩ := h.sharedAt_passDesired moved hdesired hroomd
  rw [step_compareExchangeStrong]
  refine Counts.release ?_ (lt_of_lt_of_le (by omega) length_compareExchange)
  refine hpass.compareExchange (by omega) (by omega)
    (h.shareable_passDesired moved hself hdesired hroom hroomd) ?_
  rw [hat self hself, hat expected hexpected, hatlast]
  intro heq _
  exact hempty heq

/-! ## Every step -/

lemma weak_exchangeControl : (s.exchangeControl i control).weak = s.weak.set i control := by
  rw [exchangeControl]
  split <;> rfl

lemma Counts.weak_acquireWeak (h : s.Counts L W)
    (hcontrol : ∀ b ∈ control, 0 < s.strongHolders L b + s.weakHolders W b ∧
      s.strongHolders L b + s.weakHolders W b + 1 < limit) :
    (s.acquireWeak i control).weak = s.weak.set i control ∧
      (s.acquireWeak i control).shared = s.shared := by
  cases control with
  | none => exact ⟨weak_exchangeControl, shared_exchangeControl⟩
  | some b =>
    obtain ⟨hpos, hroom⟩ := hcontrol b rfl
    obtain ⟨t, ht, hshared, hweak, -⟩ := h.rcuAcquireWeak hpos hroom
    rw [RcuPtrs.acquireWeak, ht, weak_exchangeControl, shared_exchangeControl, hweak, hshared]
    exact ⟨rfl, rfl⟩

lemma Counts.initWeak (h : s.Counts [] []) (hi : s.sharedAt i = some b)
    (hroom : s.strongHolders [] b + s.weakHolders [] b + 2 < limit) :
    (s.initWeak i).Counts [] [] := by
  have hpos : 0 < s.strongHolders [] b := strongHolders_pos hi
  have hnew := h.newWeak.newWeak
  have hlen : s.newWeak.newWeak.weak.length = s.weak.length + 2 := by simp
  have hholders : s.newWeak.newWeak.weakHolders [] b = s.weakHolders [] b := by
    rw [weakHolders_newWeak, weakHolders_newWeak]
  -- the argument
  have htake : ∀ c ∈ s.sharedAt i,
      0 < s.newWeak.newWeak.strongHolders [] c + s.newWeak.newWeak.weakHolders [] c ∧
      s.newWeak.newWeak.strongHolders [] c + s.newWeak.newWeak.weakHolders [] c + 1 < limit := by
    intro c hc
    obtain rfl : b = c := some_inj.1 (hi.symm.trans hc)
    rw [hholders]
    exact ⟨Nat.add_pos_left hpos _, Nat.lt_of_succ_lt hroom⟩
  have hargument := hnew.acquireWeak (i := s.weak.length + 1) (by omega) htake
  obtain ⟨hweak, hshared⟩ := hnew.weak_acquireWeak htake
  have hcount := count_set_slot s.newWeak.newWeak.weak (i := s.weak.length + 1) (by omega)
    (s.sharedAt i) b
  rw [← hweak, hi] at hcount
  rw [RcuPtrs.initWeak]
  rw [hi] at hargument hweak hshared ⊢
  -- the copy of it that the object keeps
  refine Counts.releaseWeak (hargument.acquireWeak ?_ ?_) ?_
  · rw [hweak, length_set]
    omega
  · intro c hc
    have hat : (s.newWeak.newWeak.acquireWeak (s.weak.length + 1) (some b)).weakAt
        (s.weak.length + 1) = some b := by
      rw [weakAt, hweak, getElem?_set_self (by omega)]
      rfl
    obtain rfl : b = c := some_inj.1 (hat.symm.trans hc)
    have hone : (some b).toList.count b = 1 := by simp
    have hsum : (s.newWeak.newWeak.acquireWeak (s.weak.length + 1) (some b)).weakHolders [] b ≤
        s.weakHolders [] b + 1 := by
      rw [← hholders, weakHolders, weakHolders, count_nil]
      omega
    have hstrong : (s.newWeak.newWeak.acquireWeak (s.weak.length + 1) (some b)).strongHolders [] b =
        s.strongHolders [] b := by
      rw [strongHolders, hshared]
      rfl
    rw [hstrong]
    exact ⟨Nat.add_pos_left hpos _, by omega⟩
  · rw [length_weak_acquireWeak, hweak, length_set]
    omega

def adoptNewBlock (s : RcuPtrs) : RcuPtrs :=
  s.newShared.newBlock.setShared s.shared.length (some s.blocks.length)

lemma shared_adoptNewBlock : s.adoptNewBlock.shared = s.shared ++ [some s.blocks.length] := by
  change (s.shared ++ [none]).set s.shared.length _ = _
  simp

lemma sharedAt_adoptNewBlock : s.adoptNewBlock.sharedAt s.shared.length = some s.blocks.length := by
  rw [sharedAt, shared_adoptNewBlock]
  simp

lemma Counts.adoptNewBlock (h : s.Counts [] []) : s.adoptNewBlock.Counts [] [] := by
  have hblock : s.newShared.newBlock.Counts ((some s.blocks.length).toList ++ []) [] :=
    h.newShared.newBlock
  have hlen : s.shared.length < s.newShared.newBlock.shared.length := by
    change _ < (s.shared ++ [none]).length
    simp
  have hnone : s.newShared.newBlock.sharedAt s.shared.length = none := by
    change ((s.shared ++ [none])[s.shared.length]?).join = none
    simp
  have hset := hblock.setShared hlen
  rwa [hnone] at hset

lemma Counts.room_adoptNewBlock (h : s.Counts [] []) :
    s.adoptNewBlock.strongHolders [] s.blocks.length +
      s.adoptNewBlock.weakHolders [] s.blocks.length + 2 < limit := by
  have hold : s.strongHolders [] s.blocks.length + s.weakHolders [] s.blocks.length = 0 := by
    by_contra hne
    exact absurd (h.bound _ (Nat.pos_of_ne_zero hne)) (lt_irrefl _)
  have hweak : s.adoptNewBlock.weakHolders [] s.blocks.length = s.weakHolders [] s.blocks.length :=
    rfl
  have hstrong : s.adoptNewBlock.strongHolders [] s.blocks.length =
      s.strongHolders [] s.blocks.length + 1 := by
    simp [strongHolders, shared_adoptNewBlock]
  rw [hweak, hstrong, limit]
  omega

lemma Counts.step (h : s.Counts [] []) (hlegal : s.Legal op) (hcare : s.Careful op) :
    (s.step op).Counts [] [] := by
  cases op with
  | construct => exact h.newShared
  | constructObject allocated intrusive =>
    cases allocated with
    | false => exact h.newShared
    | true =>
      have hnew := h.adoptNewBlock
      cases intrusive with
      | false => exact hnew
      | true => exact hnew.initWeak sharedAt_adoptNewBlock h.room_adoptNewBlock
  | copy src => exact h.copy (h.shareable hcare)
  | move src =>
    have hlt : src < s.shared.length := hlegal
    exact h.newShared.moveShared (by simp) (by rw [length_shared_newShared]; omega)
  | assign dst src => exact h.acquire hlegal.1 (h.shareable hcare)
  | moveAssign dst src => exact h.moveShared hlegal.1 hlegal.2
  | constructWeak => exact h.newWeak
  | weak src =>
    refine h.weakCopy fun b hb => ?_
    exact ⟨Nat.add_pos_left (strongHolders_pos hb) _, h.roomShared hcare b hb⟩
  | weakOfRvalue src =>
    have hempty : s.sharedAt src = none := hcare
    have hlt : src < s.shared.length := hlegal
    have hnone : s.newWeak.Counts ((none : Option Nat).toList ++ []) [] := h.newWeak
    have hset := hnone.setShared hlt
    have hat : s.newWeak.sharedAt src = none := hempty
    rw [hat] at hset
    change ((s.newWeak.setShared src none).exchangeControl s.weak.length (s.sharedAt src)).Counts _ _
    rw [hempty]
    exact Counts.releaseWeak hset (by simp [RcuPtrs.setShared])
  | copyWeak src =>
    refine h.weakCopy fun b hb => ?_
    have hpos : 0 < s.strongHolders [] b + s.weakHolders [] b :=
      Nat.add_pos_right _ (weakHolders_pos hb)
    exact ⟨hpos, h.room hcare (fun c hc => Nat.add_pos_right _ (weakHolders_pos hc)) b hb⟩
  | moveNewWeak src =>
    have hlt : src < s.weak.length := hlegal
    exact h.newWeak.moveWeak (by simp) (by rw [length_weak_newWeak]; omega)
  | assignWeak dst src =>
    refine h.acquireWeak hlegal.1 fun b hb => ?_
    have hpos : 0 < s.strongHolders [] b + s.weakHolders [] b :=
      Nat.add_pos_right _ (weakHolders_pos hb)
    exact ⟨hpos, h.room hcare (fun c hc => Nat.add_pos_right _ (weakHolders_pos hc)) b hb⟩
  | moveAssignWeak dst src => exact h.moveWeak hlegal.1 hlegal.2
  | lock src =>
    refine h.copy fun b hb => ?_
    have hpos : ∀ c ∈ s.weakAt src, 0 < s.strongHolders [] c + s.weakHolders [] c :=
      fun c hc => Nat.add_pos_right _ (weakHolders_pos hc)
    refine ⟨?_, h.room hcare.1 hpos b hb⟩
    rw [← h.strongCount_eq (h.bound b (hpos b hb))]
    exact hcare.2 b hb
  | exchange self desired =>
    have hempty : s.sharedAt desired = none := hcare
    have hlt : self < s.shared.length := hlegal.1
    have hnone : s.newShared.Counts ((none : Option Nat).toList ++ []) [] := h.newShared
    have hset := hnone.setShared (i := self) (by rw [length_shared_newShared]; omega)
    rw [sharedAt_newShared hlt] at hset
    change ((s.newShared.setShared self (s.sharedAt desired)).replaceControl s.shared.length
      (s.sharedAt self)).Counts _ _
    rw [hempty]
    exact hset.replaceControl (by simp [RcuPtrs.setShared])
  | compareExchangeStrong self expected desired moved =>
    exact h.compareExchangeStrong hlegal.1 hlegal.2.1 hlegal.2.2 hcare
  | compareExchangeWeak self expected desired spurious =>
    exact h.compareExchange hlegal.1 hlegal.2.1 (h.shareable hcare.1) hcare.2
  | store self desired => exact h.acquire hlegal.1 (h.shareable hcare)
  | reset self => exact h.release hlegal
  | resetObject self allocated =>
    cases allocated with
    | false => exact h
    | true =>
      have hblock : s.newBlock.Counts ((some s.blocks.length).toList ++ []) [] := h.newBlock
      exact hblock.replaceControl hlegal
  | destroy self => exact h.release hlegal
  | resetWeak self => exact h.releaseWeak hlegal
  | destroyWeak self => exact h.releaseWeak hlegal

/-! ## Failed operations -/

/-- The lock finds no object, or the exchange another pointer than expected. -/
def Fails (s : RcuPtrs) : PtrOp → Prop
  | .lock src => ∀ b ∈ s.weakAt src, (s.rcuAcquireStrong b).1 = false
  | .compareExchangeStrong self expected desired moved =>
      s.passed desired moved self ≠ s.passed desired moved expected
  | .compareExchangeWeak self expected _ spurious =>
      s.sharedAt self ≠ s.sharedAt expected ∨ spurious = true
  | _ => False

/-- A failed exchange lets `expected` go of one block and take the other, and `desired` is gone if
it was passed as an rvalue. -/
def Trades (s : RcuPtrs) (b : Nat) : PtrOp → Prop
  | .compareExchangeStrong self expected desired moved =>
      s.sharedAt self = some b ∨ s.sharedAt expected = some b ∨
        (moved = true ∧ s.sharedAt desired = some b)
  | .compareExchangeWeak self expected _ _ =>
      s.sharedAt self = some b ∨ s.sharedAt expected = some b
  | _ => False

/-- A failed operation leaves the counts of all other blocks alone. -/
def KeepsCounts (s : RcuPtrs) (op : PtrOp) (t : RcuPtrs) : Prop :=
  s.Fails op → ∀ b < s.blocks.length, ¬ s.Trades b op → t.blocks[b]? = s.blocks[b]?

@[simp] lemma length_blocks_replaceControl :
    (s.replaceControl i control).blocks.length = s.blocks.length := by
  rw [replaceControl]
  split
  · rfl
  · exact length_modify ..

@[simp] lemma length_blocks_acquire :
    (s.acquire i control).blocks.length = s.blocks.length := by
  cases control with
  | none => exact length_blocks_replaceControl
  | some b =>
    rw [acquire]
    split <;> rename_i t h <;>
      rw [length_blocks_replaceControl, ← congrArg (fun p => p.2.blocks) h] <;>
      exact length_modify ..

@[simp] lemma length_blocks_moveShared {dst src : Nat} :
    (s.moveShared dst src).blocks.length = s.blocks.length := length_blocks_replaceControl

lemma Counts.block_eq (hs : s.Counts [] []) (ht : t.Counts [] [])
    (hlen : t.blocks.length = s.blocks.length) (hb : b < s.blocks.length)
    (hshared : t.shared.count (some b) = s.shared.count (some b)) (hweak : t.weak = s.weak) :
    t.blocks[b]? = s.blocks[b]? := by
  rw [hs.block b hb, ht.block b (hlen ▸ hb), strongHolders, strongHolders, weakHolders, weakHolders,
    hshared, hweak]

section FailedExchange

variable {self expected desired : Nat} {spurious : Bool}

lemma compareExchange_of_fail (hfail : s.sharedAt self ≠ s.sharedAt expected ∨ spurious = true) :
    s.compareExchange self expected desired spurious =
      (s.newShared.acquire s.shared.length (s.sharedAt self)).moveShared expected
        s.shared.length := by
  rw [compareExchange, if_pos hfail]

lemma Counts.shared_compareExchange (h : s.Counts L W)
    (hshare : s.Shareable L W (s.sharedAt self))
    (hfail : s.sharedAt self ≠ s.sharedAt expected ∨ spurious = true) :
    (s.compareExchange self expected desired spurious).shared =
      (s.shared ++ [none]).set expected (s.sharedAt self) := by
  have hacquire : (s.newShared.acquire s.shared.length (s.sharedAt self)).shared =
      s.shared ++ [s.sharedAt self] := by
    rw [h.newShared.shared_acquire hshare.newShared]
    change (s.shared ++ [none]).set s.shared.length _ = _
    simp
  have hat : (s.newShared.acquire s.shared.length (s.sharedAt self)).sharedAt s.shared.length =
      s.sharedAt self := by
    rw [sharedAt, hacquire]
    simp
  rw [compareExchange_of_fail hfail, RcuPtrs.moveShared, shared_replaceControl, hat]
  change ((s.newShared.acquire s.shared.length (s.sharedAt self)).shared.set s.shared.length
    none).set expected _ = _
  rw [hacquire]
  simp

lemma weak_compareExchange_of_fail
    (hfail : s.sharedAt self ≠ s.sharedAt expected ∨ spurious = true) :
    (s.compareExchange self expected desired spurious).weak = s.weak := by
  rw [compareExchange_of_fail hfail, moveShared, weak_replaceControl]
  exact weak_acquire

lemma length_blocks_compareExchange
    (hfail : s.sharedAt self ≠ s.sharedAt expected ∨ spurious = true) :
    (s.compareExchange self expected desired spurious).blocks.length = s.blocks.length := by
  rw [compareExchange_of_fail hfail, length_blocks_moveShared, length_blocks_acquire]
  rfl

lemma toList_count_of_ne {o : Option Nat} (h : o ≠ some b) : o.toList.count b = 0 := by
  cases o with
  | none => rfl
  | some c =>
    refine count_eq_zero.2 fun hmem => h ?_
    rw [mem_toList.1 hmem]

lemma Counts.count_compareExchange (h : s.Counts L W) (hexpected : expected < s.shared.length)
    (hshare : s.Shareable L W (s.sharedAt self))
    (hfail : s.sharedAt self ≠ s.sharedAt expected ∨ spurious = true)
    (hself : s.sharedAt self ≠ some b) (hold : s.sharedAt expected ≠ some b) :
    (s.compareExchange self expected desired spurious).shared.count (some b) =
      s.shared.count (some b) := by
  have hcount := count_set_slot (s.shared ++ [none]) (i := expected) (by simp; omega)
    (s.sharedAt self) b
  have hat : (s.shared ++ [none])[expected]?.join = s.sharedAt expected := by
    rw [getElem?_append_left hexpected]
    rfl
  rw [hat, toList_count_of_ne hself, toList_count_of_ne hold] at hcount
  rw [h.shared_compareExchange hshare hfail]
  simpa using hcount

end FailedExchange

lemma length_blocks_passDesired :
    (s.passDesired desired moved).blocks.length = s.blocks.length := by
  cases moved with
  | false => exact length_blocks_acquire
  | true => exact length_blocks_moveShared

lemma Counts.count_compareExchangeStrong (h : s.Counts [] []) (hself : self < s.shared.length)
    (hexpected : expected < s.shared.length) (hdesired : desired < s.shared.length)
    (hcare : s.Careful (.compareExchangeStrong self expected desired moved))
    (hfail : s.Fails (.compareExchangeStrong self expected desired moved))
    (htrades : ¬ s.Trades b (.compareExchangeStrong self expected desired moved)) :
    (s.step (.compareExchangeStrong self expected desired moved)).shared.count (some b) =
      s.shared.count (some b) := by
  obtain ⟨hroom, hroomd, -⟩ := hcare
  obtain ⟨hneSelf, hrest⟩ := not_or.1 htrades
  obtain ⟨hneExpected, hneDesired⟩ := not_or.1 hrest
  have hpass := h.passDesired moved hdesired hroomd
  have hlen := h.length_passDesired moved hdesired hroomd
  have hshare := h.shareable_passDesired moved hself hdesired hroom hroomd
  obtain ⟨hat, hatlast⟩ := h.sharedAt_passDesired moved hdesired hroomd
  have hlost : (s.passDesired desired moved).sharedAt self ≠
      (s.passDesired desired moved).sharedAt expected ∨ false = true := by
    rw [hat self hself, hat expected hexpected]
    exact .inl hfail
  have hne : ∀ j < s.shared.length, s.sharedAt j ≠ some b →
      (s.passDesired desired moved).sharedAt j ≠ some b := by
    intro j hj hjb
    rw [hat j hj, passed]
    split
    · exact fun hnone => by cases hnone
    · exact hjb
  have hcount : ((s.passDesired desired moved).compareExchange self expected s.shared.length
      false).shared.count (some b) = _ :=
    hpass.count_compareExchange (by omega) hshare hlost (hne self hself hneSelf)
      (hne expected hexpected hneExpected)
  have hshared : ((s.passDesired desired moved).compareExchange self expected s.shared.length
      false).shared = _ := hpass.shared_compareExchange hshare hlost
  -- the parameter goes
  rw [step_compareExchangeStrong, shared_replaceControl]
  have hgone := count_set_slot ((s.passDesired desired moved).compareExchange self expected
    s.shared.length false).shared (i := s.shared.length)
    (lt_of_lt_of_le (by omega) length_compareExchange) none b
  have hparam : (((s.passDesired desired moved).compareExchange self expected s.shared.length
      false).shared[s.shared.length]?).join = s.sharedAt desired := by
    rw [hshared, getElem?_set_ne (by omega), getElem?_append_left (by omega)]
    exact hatlast
  rw [hparam, hcount, h.shared_passDesired _ hdesired hroomd, count_append] at hgone
  have hlast : [s.sharedAt desired].count (some b) = (s.sharedAt desired).toList.count b := by
    cases s.sharedAt desired <;> simp [count_singleton]
  cases moved with
  | false =>
    simp only [hlast, toList_none, count_nil, Bool.false_eq_true, ↓reduceIte] at hgone
    omega
  | true =>
    have hset := count_set_slot s.shared hdesired none b
    have hzero : (s.sharedAt desired).toList.count b = 0 :=
      toList_count_of_ne fun heq => hneDesired ⟨rfl, heq⟩
    have hslot : (s.shared[desired]?).join = s.sharedAt desired := rfl
    rw [hslot, hzero] at hset
    simp only [hlast, hzero, toList_none, count_nil, ↓reduceIte] at hgone hset
    omega

lemma step_keepsCounts (h : s.Counts [] []) (hlegal : s.Legal op) (hcare : s.Careful op) :
    s.KeepsCounts op (s.step op) := by
  intro hfail b hb htrades
  have ht := h.step hlegal hcare
  cases op with
  | lock src =>
    -- an object that is alive can be locked, so there was none to lock
    have hnone : s.weakAt src = none := by
      rw [eq_none_iff_forall_not_mem]
      intro c hc
      have hheld : 0 < s.weakHolders [] c := weakHolders_pos hc
      have hbound := h.bound c (Nat.add_pos_right _ hheld)
      have halive := hcare.2 c hc
      rw [h.strongCount_eq hbound] at halive
      have hroom := h.room hcare.1 (fun d hd => Nat.add_pos_right _ (weakHolders_pos hd)) c hc
      obtain ⟨u, hu, -⟩ := h.rcuAcquireStrong halive hroom
      have hlost := hfail c hc
      rw [hu] at hlost
      cases hlost
    change (s.newShared.acquire s.shared.length (s.weakAt src)).blocks[b]? = _
    have hslot : s.newShared.sharedAt s.shared.length = none := by
      change ((s.shared ++ [none])[s.shared.length]?).join = none
      simp
    rw [hnone, acquire, replaceControl, hslot]
    rfl
  | compareExchangeWeak self expected desired spurious =>
    obtain ⟨hself, hexpected⟩ := not_or.1 htrades
    refine h.block_eq ht (length_blocks_compareExchange hfail) hb ?_ ?_
    · exact h.count_compareExchange hlegal.2.1 (h.shareable hcare.1) hfail hself hexpected
    · exact weak_compareExchange_of_fail hfail
  | compareExchangeStrong self expected desired moved =>
    obtain ⟨hat, -⟩ := h.sharedAt_passDesired moved hlegal.2.2 hcare.2.1
    have hlost : (s.passDesired desired moved).sharedAt self ≠
        (s.passDesired desired moved).sharedAt expected ∨ false = true := by
      rw [hat self hlegal.1, hat expected hlegal.2.1]
      exact .inl hfail
    refine h.block_eq ht ?_ hb ?_ ?_
    · rw [step_compareExchangeStrong, length_blocks_replaceControl,
        length_blocks_compareExchange hlost, length_blocks_passDesired]
    · exact h.count_compareExchangeStrong hlegal.1 hlegal.2.1 hlegal.2.2 hcare hfail htrades
    · rw [step_compareExchangeStrong, weak_replaceControl, weak_compareExchange_of_fail hlost,
        weak_passDesired]
  | _ => exact absurd hfail id

/-! ## Runs -/

lemma CarefulStep.counts (h : s.Counts [] []) (hstep : CarefulStep s op t) :
    t.Counts [] [] := by
  obtain ⟨hlegal, hcare, rfl⟩ := hstep
  exact h.step hlegal hcare

lemma counts_init : (⟨[], [], []⟩ : RcuPtrs).Counts [] [] where
  block := fun b hb => absurd hb (Nat.not_lt_zero b)
  bound := fun b hb => absurd hb (Nat.lt_irrefl 0)
  small := fun b => by
    change 0 < limit
    decide

instance (s : RcuPtrs) (n : Nat) (control : Option Nat) : Decidable (s.Room n control) :=
  match control with
  | none => isTrue (by simp [Room])
  | some b => decidable_of_iff (s.weakCount b + n < limit) (by simp [Room])

instance (s : RcuPtrs) (op : PtrOp) : Decidable (s.Legal op) :=
  match op with
  | .copy _ | .move _ | .weak _ | .weakOfRvalue _ | .copyWeak _ | .moveNewWeak _ | .lock _
  | .reset _ | .resetObject _ _ | .destroy _ | .resetWeak _ | .destroyWeak _ =>
      inferInstanceAs (Decidable (_ < _))
  | .assign _ _ | .moveAssign _ _ | .assignWeak _ _ | .moveAssignWeak _ _ | .exchange _ _
  | .store _ _ => inferInstanceAs (Decidable (_ < _ ∧ _ < _))
  | .compareExchangeStrong _ _ _ _ | .compareExchangeWeak _ _ _ _ =>
      inferInstanceAs (Decidable (_ < _ ∧ _ < _ ∧ _ < _))
  | .construct | .constructObject _ _ | .constructWeak => isTrue trivial

def LegalStep (s : RcuPtrs) (op : PtrOp) (t : RcuPtrs) : Prop := s.Legal op ∧ s.step op = t

end RcuPtrs
end BezOS
