import Mathlib.Data.Nat.Bitwise
import BezOS.Lib.Transition
import BezOS.Std.RcuPtr

/-!
# Counts with loose references

A reference that an operation has taken but not yet put into a pointer, or has taken out of a
pointer and not yet released, is loose. With the loose references counted as holders, every step of
an operation keeps the counts of all control blocks equal to their holders, and an operation that
ends with no loose reference leaves the counts equal to the pointers alone.
-/

namespace BezOS

open Lib StickyCounter List UInt32

/-! ## Counters of a number of holders -/

namespace StickyCounter

/-- The counter of `n` holders; the last one to go leaves the flag. -/
def raw (n : Nat) : UInt32 := if n = 0 then kZeroFlag else UInt32.ofNat n

/-- One more than the greatest count. -/
def limit : Nat := 2 ^ 31

variable {n : Nat}

lemma raw_of_pos (h : 0 < n) : raw n = UInt32.ofNat n := if_neg (by omega)

lemma toNat_ofNat (h : n < limit) : (UInt32.ofNat n).toNat = n := by
  have hsize : size = 2 ^ 32 := rfl
  rw [limit] at h
  exact toNat_ofNat_of_lt (by omega)

lemma ofNat_and_kZeroFlag (h : n < limit) : UInt32.ofNat n &&& kZeroFlag = 0 := by
  have hflag : kZeroFlag.toNat = 2 ^ 31 := rfl
  refine UInt32.toNat_inj.1 ?_
  rw [UInt32.toNat_and, hflag, Nat.and_two_pow, toNat_ofNat h, Nat.testBit_lt_two_pow h]
  rfl

lemma ofNat_ne_zero (hpos : 0 < n) (h : n < limit) : UInt32.ofNat n ≠ 0 := by
  intro heq
  have hval := congrArg UInt32.toNat heq
  rw [toNat_ofNat h, UInt32.toNat_zero] at hval
  omega

lemma load_raw (h : n < limit) : (load (raw n)).toNat = n := by
  rcases Nat.eq_zero_or_pos n with rfl | hpos
  · rfl
  · rw [raw_of_pos hpos, load, if_neg (ofNat_ne_zero hpos h),
      if_neg (not_not.2 (ofNat_and_kZeroFlag h)), toNat_ofNat h]

lemma increment_raw (hpos : 0 < n) (h : n < limit) :
    increment (raw n) = (true, raw (n + 1)) := by
  have hsucc : 0 < n + 1 := Nat.succ_pos n
  rw [raw_of_pos hpos, raw_of_pos hsucc, increment, ofNat_and_kZeroFlag h, ofNat_add]
  rfl

lemma decrement_raw (h : n + 1 < limit) :
    decrement (raw (n + 1)) = (decide (n = 0), raw n) := by
  rw [raw_of_pos (Nat.succ_pos n), decrement]
  rcases Nat.eq_zero_or_pos n with rfl | hpos
  · rfl
  · have hone : UInt32.ofNat (n + 1) ≠ 1 := by
      intro heq
      have hval := congrArg UInt32.toNat heq
      rw [toNat_ofNat h, toNat_one] at hval
      omega
    have hsub : UInt32.ofNat (n + 1) - 1 = UInt32.ofNat n := by
      rw [ofNat_add]
      exact UInt32.add_sub_cancel ..
    rw [if_neg hone, hsub, raw_of_pos hpos, decide_eq_false (by omega)]

end StickyCounter

namespace ControlBlock

/-- The block that `strong` shared and `weak` weak pointers hold. -/
def held (strong weak : Nat) : ControlBlock :=
  ⟨raw (strong + weak), raw strong, if strong = 0 then 1 else 0, if strong + weak = 0 then 1 else 0⟩

variable {n w : Nat}

lemma strongRetain_held (hpos : 0 < n) (h : n + w < limit) :
    (held n w).strongRetain = (true, held (n + 1) w) := by
  have hstrong : increment (raw n) = (true, raw (n + 1)) := increment_raw hpos (by omega)
  have hweak : increment (raw (n + w)) = (true, raw (n + w + 1)) := increment_raw (by omega) h
  have hsum : n + w + 1 = n + 1 + w := by omega
  simp only [strongRetain, held, hweak, hstrong, hsum, if_neg (show n ≠ 0 by omega),
    if_neg (show n + w ≠ 0 by omega), if_neg (show n + 1 ≠ 0 by omega),
    if_neg (show n + 1 + w ≠ 0 by omega)]

lemma weakRetain_held (hpos : 0 < n + w) (h : n + w < limit) :
    (held n w).weakRetain = (true, held n (w + 1)) := by
  have hweak : increment (raw (n + w)) = (true, raw (n + w + 1)) := increment_raw hpos h
  simp only [weakRetain, held, hweak, Nat.add_assoc, if_neg (show n + w ≠ 0 by omega),
    if_neg (show n + (w + 1) ≠ 0 by omega)]

lemma releaseStrong_held (h : n + 1 + w < limit) : (held (n + 1) w).releaseStrong = held n w := by
  have hstrong : decrement (raw (n + 1)) = (decide (n = 0), raw n) := decrement_raw (by omega)
  have hsum : n + 1 + w = n + w + 1 := by omega
  have hweak : decrement (raw (n + w + 1)) = (decide (n + w = 0), raw (n + w)) :=
    decrement_raw (by omega)
  simp only [releaseStrong, held, hsum, hweak, hstrong, if_neg (show n + 1 ≠ 0 by omega),
    if_neg (show n + w + 1 ≠ 0 by omega), decide_eq_true_eq]
  split_ifs <;> rfl

lemma releaseWeak_held (h : n + (w + 1) < limit) : (held n (w + 1)).releaseWeak = held n w := by
  have hweak : decrement (raw (n + w + 1)) = (decide (n + w = 0), raw (n + w)) :=
    decrement_raw (by omega)
  simp only [releaseWeak, held, ← Nat.add_assoc, hweak, if_neg (show n + w + 1 ≠ 0 by omega),
    decide_eq_true_eq]
  split_ifs <;> rfl

end ControlBlock

/-! ## Counts with loose references -/

namespace RcuPtrs

variable {s t : RcuPtrs} {L L' W W' : List Nat} {b i : Nat} {control : Option Nat}

/-- The shared pointers and loose strong references of a block. -/
def strongHolders (s : RcuPtrs) (L : List Nat) (b : Nat) : Nat :=
  s.shared.count (some b) + L.count b

/-- The weak pointers and loose weak references of a block. -/
def weakHolders (s : RcuPtrs) (W : List Nat) (b : Nat) : Nat := s.weak.count (some b) + W.count b

/-- Every block has the counts of its holders, the loose strong references `L` and the loose weak
references `W` among them. -/
structure Counts (s : RcuPtrs) (L W : List Nat) : Prop where
  block : ∀ b < s.blocks.length,
    s.blocks[b]? = some (.held (s.strongHolders L b) (s.weakHolders W b))
  bound : ∀ b, 0 < s.strongHolders L b + s.weakHolders W b → b < s.blocks.length
  small : ∀ b, s.strongHolders L b + s.weakHolders W b < limit

lemma Counts.of_holders (h : s.Counts L W) (hblocks : t.blocks = s.blocks)
    (hstrong : ∀ b, t.strongHolders L' b = s.strongHolders L b)
    (hweak : ∀ b, t.weakHolders W' b = s.weakHolders W b) : t.Counts L' W' where
  block := fun b hb => by rw [hblocks, hstrong, hweak]; exact h.block b (hblocks ▸ hb)
  bound := fun b hb => by rw [hblocks]; exact h.bound b (by rwa [hstrong, hweak] at hb)
  small := fun b => by rw [hstrong, hweak]; exact h.small b

lemma Counts.modifyBlock (h : s.Counts L W) {f : ControlBlock → ControlBlock}
    (hb : b < s.blocks.length)
    (hother : ∀ c ≠ b, L'.count c = L.count c ∧ W'.count c = W.count c)
    (hself : f (.held (s.strongHolders L b) (s.weakHolders W b)) =
      .held (s.strongHolders L' b) (s.weakHolders W' b))
    (hsmall : s.strongHolders L' b + s.weakHolders W' b < limit) :
    (s.modifyBlock b f).Counts L' W' := by
  have hsame : ∀ c ≠ b, s.strongHolders L' c = s.strongHolders L c ∧
      s.weakHolders W' c = s.weakHolders W c := by
    intro c hc
    rw [strongHolders, strongHolders, weakHolders, weakHolders, (hother c hc).1, (hother c hc).2]
    exact ⟨rfl, rfl⟩
  have hlen : (s.modifyBlock b f).blocks.length = s.blocks.length := length_modify ..
  refine ⟨fun c hc => ?_, fun c hc => ?_, fun c => ?_⟩
  · rw [hlen] at hc
    change (s.blocks.modify b f)[c]? = some (.held (s.strongHolders L' c) (s.weakHolders W' c))
    rw [getElem?_modify, h.block c hc]
    by_cases hcb : c = b
    · subst hcb
      simp [hself]
    · rw [(hsame c hcb).1, (hsame c hcb).2]
      simp [Ne.symm hcb]
  · change 0 < s.strongHolders L' c + s.weakHolders W' c at hc
    rw [hlen]
    by_cases hcb : c = b
    · exact hcb ▸ hb
    · rw [(hsame c hcb).1, (hsame c hcb).2] at hc
      exact h.bound c hc
  · change s.strongHolders L' c + s.weakHolders W' c < limit
    by_cases hcb : c = b
    · exact hcb ▸ hsmall
    · rw [(hsame c hcb).1, (hsame c hcb).2]
      exact h.small c

lemma strongHolders_cons_self : s.strongHolders (b :: L) b = s.strongHolders L b + 1 := by
  rw [strongHolders, strongHolders, count_cons_self]
  omega

lemma weakHolders_cons_self : s.weakHolders (b :: W) b = s.weakHolders W b + 1 := by
  rw [weakHolders, weakHolders, count_cons_self]
  omega

lemma Counts.rcuReleaseStrong (h : s.Counts (b :: L) W) :
    (s.rcuReleaseStrong b).Counts L W := by
  have hsmall := h.small b
  have hbound := h.bound b
  rw [strongHolders_cons_self] at hsmall hbound
  refine h.modifyBlock (hbound (by omega)) (fun c hc => ?_) ?_ (by omega)
  · exact ⟨(count_cons_of_ne (Ne.symm hc)).symm, rfl⟩
  · rw [strongHolders_cons_self]
    exact ControlBlock.releaseStrong_held hsmall

lemma Counts.rcuReleaseWeak (h : s.Counts L (b :: W)) : (s.rcuReleaseWeak b).Counts L W := by
  have hsmall := h.small b
  have hbound := h.bound b
  rw [weakHolders_cons_self] at hsmall hbound
  refine h.modifyBlock (hbound (by omega)) (fun c hc => ?_) ?_ (by omega)
  · exact ⟨rfl, (count_cons_of_ne (Ne.symm hc)).symm⟩
  · rw [weakHolders_cons_self]
    exact ControlBlock.releaseWeak_held hsmall

lemma Counts.getD_block (h : s.Counts L W) (hb : b < s.blocks.length) :
    s.blocks.getD b .new = .held (s.strongHolders L b) (s.weakHolders W b) := by
  rw [getD_eq_getElem?_getD, h.block b hb, Option.getD_some]

lemma Counts.rcuAcquireStrong (h : s.Counts L W) (hpos : 0 < s.strongHolders L b)
    (hroom : s.strongHolders L b + s.weakHolders W b + 1 < limit) :
    ∃ t, s.rcuAcquireStrong b = (true, t) ∧ t.shared = s.shared ∧ t.weak = s.weak ∧
      t.Counts (b :: L) W := by
  have hb := h.bound b (by omega)
  have hretain := ControlBlock.strongRetain_held (w := s.weakHolders W b) hpos (by omega)
  refine ⟨s.modifyBlock b fun cb => cb.strongRetain.2, ?_, rfl, rfl, ?_⟩
  · rw [RcuPtrs.rcuAcquireStrong, h.getD_block hb, hretain]
  · refine h.modifyBlock hb (fun c hc => ?_) ?_ ?_
    · exact ⟨count_cons_of_ne (Ne.symm hc), rfl⟩
    · rw [hretain, strongHolders_cons_self]
    · rw [strongHolders_cons_self]
      omega

lemma Counts.rcuAcquireWeak (h : s.Counts L W)
    (hpos : 0 < s.strongHolders L b + s.weakHolders W b)
    (hroom : s.strongHolders L b + s.weakHolders W b + 1 < limit) :
    ∃ t, s.rcuAcquireWeak b = (true, t) ∧ t.shared = s.shared ∧ t.weak = s.weak ∧
      t.Counts L (b :: W) := by
  have hb := h.bound b hpos
  have hretain := ControlBlock.weakRetain_held
    hpos (by omega)
  refine ⟨s.modifyBlock b fun cb => cb.weakRetain.2, ?_, rfl, rfl, ?_⟩
  · rw [RcuPtrs.rcuAcquireWeak, h.getD_block hb, hretain]
  · refine h.modifyBlock hb (fun c hc => ?_) ?_ ?_
    · exact ⟨rfl, count_cons_of_ne (Ne.symm hc)⟩
    · rw [hretain, weakHolders_cons_self]
    · rw [weakHolders_cons_self]
      omega

/-! ## Slots -/

lemma count_set_slot (slots : List (Option Nat)) (hi : i < slots.length) (control : Option Nat)
    (b : Nat) :
    (slots.set i control).count (some b) + (slots[i]?.join.toList).count b =
      slots.count (some b) + (control.toList).count b := by
  have hsum : (slots.set i control).countP (· == some b) + _ = slots.countP (· == some b) + _ :=
    countP_set_add (· == some b) (getElem?_eq_getElem hi)
  have hone : ∀ o : Option Nat, o.toList.count b = if (o == some b) = true then 1 else 0 := by
    intro o
    cases o <;> simp [count_singleton]
  rw [hone, hone, getElem?_eq_getElem hi]
  exact hsum

lemma Counts.setShared (h : s.Counts (control.toList ++ L) W) (hi : i < s.shared.length) :
    (s.setShared i control).Counts ((s.sharedAt i).toList ++ L) W := by
  refine h.of_holders rfl (fun b => ?_) (fun _ => rfl)
  have hcount := count_set_slot s.shared hi control b
  rw [strongHolders, strongHolders, count_append, count_append]
  rw [← Nat.add_assoc, ← Nat.add_assoc, ← hcount]
  rfl

lemma Counts.setWeak (h : s.Counts L (control.toList ++ W)) (hi : i < s.weak.length) :
    (s.setWeak i control).Counts L ((s.weakAt i).toList ++ W) := by
  refine h.of_holders rfl (fun _ => rfl) (fun b => ?_)
  have hcount := count_set_slot s.weak hi control b
  rw [weakHolders, weakHolders, count_append, count_append]
  rw [← Nat.add_assoc, ← Nat.add_assoc, ← hcount]
  rfl

lemma Counts.newShared (h : s.Counts L W) : s.newShared.Counts L W :=
  h.of_holders rfl (fun b => by simp [strongHolders, RcuPtrs.newShared]) (fun _ => rfl)

lemma Counts.newWeak (h : s.Counts L W) : s.newWeak.Counts L W :=
  h.of_holders rfl (fun _ => rfl) (fun b => by simp [weakHolders, RcuPtrs.newWeak])

lemma Counts.newBlock (h : s.Counts L W) : s.newBlock.Counts (s.blocks.length :: L) W := by
  have hfresh : s.strongHolders L s.blocks.length + s.weakHolders W s.blocks.length = 0 := by
    by_contra hne
    exact absurd (h.bound _ (Nat.pos_of_ne_zero hne)) (lt_irrefl _)
  have hlen : s.newBlock.blocks.length = s.blocks.length + 1 := length_append ..
  have hstrong : ∀ c, s.newBlock.strongHolders (s.blocks.length :: L) c =
      s.strongHolders L c + if c = s.blocks.length then 1 else 0 := by
    intro c
    by_cases hc : c = s.blocks.length
    · rw [hc, if_pos rfl]
      exact strongHolders_cons_self
    · rw [if_neg hc, strongHolders, count_cons_of_ne (Ne.symm hc)]
      rfl
  have hweak : ∀ c, s.newBlock.weakHolders W c = s.weakHolders W c := fun _ => rfl
  refine ⟨fun c hc => ?_, fun c hc => ?_, fun c => ?_⟩
  · rw [hstrong, hweak]
    by_cases heq : c = s.blocks.length
    · subst heq
      have hzero : s.strongHolders L s.blocks.length = 0 := by omega
      have hnone : s.weakHolders W s.blocks.length = 0 := by omega
      rw [if_pos rfl, hzero, hnone]
      exact getElem?_concat_length ..
    · have hlt : c < s.blocks.length := by omega
      rw [if_neg heq, Nat.add_zero, ← h.block c hlt]
      exact getElem?_append_left hlt
  · rw [hstrong, hweak] at hc
    rw [hlen]
    by_cases heq : c = s.blocks.length
    · omega
    · have := h.bound c (by rw [if_neg heq] at hc; omega)
      omega
  · rw [hstrong, hweak]
    have hsmall := h.small c
    by_cases heq : c = s.blocks.length
    · subst heq
      rw [if_pos rfl, limit]
      omega
    · rw [if_neg heq]
      omega

/-! ## Operations on one pointer -/

@[simp] lemma length_shared_replaceControl :
    (s.replaceControl i control).shared.length = s.shared.length := by
  rw [replaceControl]
  split <;> exact length_set ..

@[simp] lemma weak_replaceControl : (s.replaceControl i control).weak = s.weak := by
  rw [replaceControl]
  split <;> rfl

@[simp] lemma length_weak_exchangeControl :
    (s.exchangeControl i control).weak.length = s.weak.length := by
  rw [exchangeControl]
  split <;> exact length_set ..

@[simp] lemma shared_exchangeControl : (s.exchangeControl i control).shared = s.shared := by
  rw [exchangeControl]
  split <;> rfl

lemma Counts.replaceControl (h : s.Counts (control.toList ++ L) W) (hi : i < s.shared.length) :
    (s.replaceControl i control).Counts L W := by
  have hset := h.setShared hi
  rw [RcuPtrs.replaceControl]
  cases hold : s.sharedAt i with
  | none =>
    rw [hold] at hset
    exact hset
  | some old =>
    rw [hold] at hset
    exact hset.rcuReleaseStrong

lemma Counts.exchangeControl (h : s.Counts L (control.toList ++ W)) (hi : i < s.weak.length) :
    (s.exchangeControl i control).Counts L W := by
  have hset := h.setWeak hi
  rw [RcuPtrs.exchangeControl]
  cases hold : s.weakAt i with
  | none =>
    rw [hold] at hset
    exact hset
  | some old =>
    rw [hold] at hset
    exact hset.rcuReleaseWeak

lemma Counts.release (h : s.Counts L W) (hi : i < s.shared.length) :
    (s.replaceControl i none).Counts L W := by
  have hnone : s.Counts ((none : Option Nat).toList ++ L) W := h
  exact hnone.replaceControl hi

lemma Counts.releaseWeak (h : s.Counts L W) (hi : i < s.weak.length) :
    (s.exchangeControl i none).Counts L W := by
  have hnone : s.Counts L ((none : Option Nat).toList ++ W) := h
  exact hnone.exchangeControl hi

/-- There is room for another reference, and a shared pointer to share. -/
def Shareable (s : RcuPtrs) (L W : List Nat) (control : Option Nat) : Prop :=
  ∀ b ∈ control, 0 < s.strongHolders L b ∧ s.strongHolders L b + s.weakHolders W b + 1 < limit

section

variable (h : s.Counts L W)

include h

lemma Counts.acquire (hi : i < s.shared.length) (hcontrol : s.Shareable L W control) :
    (s.acquire i control).Counts L W := by
  cases control with
  | none => exact h.release hi
  | some b =>
    obtain ⟨hpos, hroom⟩ := hcontrol b rfl
    obtain ⟨t, ht, hshared, -, hcounts⟩ := h.rcuAcquireStrong hpos hroom
    have hloose : t.Counts ((some b).toList ++ L) W := hcounts
    rw [RcuPtrs.acquire, ht]
    exact hloose.replaceControl (by rw [hshared]; exact hi)

lemma Counts.acquireWeak (hi : i < s.weak.length)
    (hcontrol : ∀ b ∈ control, 0 < s.strongHolders L b + s.weakHolders W b ∧
      s.strongHolders L b + s.weakHolders W b + 1 < limit) :
    (s.acquireWeak i control).Counts L W := by
  cases control with
  | none => exact h.releaseWeak hi
  | some b =>
    obtain ⟨hpos, hroom⟩ := hcontrol b rfl
    obtain ⟨t, ht, -, hweak, hcounts⟩ := h.rcuAcquireWeak hpos hroom
    have hloose : t.Counts L ((some b).toList ++ W) := hcounts
    rw [RcuPtrs.acquireWeak, ht]
    exact hloose.exchangeControl (by rw [hweak]; exact hi)

lemma Counts.moveShared {dst src : Nat} (hdst : dst < s.shared.length)
    (hsrc : src < s.shared.length) : (s.moveShared dst src).Counts L W := by
  have hnone : s.Counts ((none : Option Nat).toList ++ L) W := h
  refine (hnone.setShared hsrc).replaceControl ?_
  change dst < (s.shared.set src none).length
  rwa [length_set]

lemma Counts.moveWeak {dst src : Nat} (hdst : dst < s.weak.length) (hsrc : src < s.weak.length) :
    (s.moveWeak dst src).Counts L W := by
  have hnone : s.Counts L ((none : Option Nat).toList ++ W) := h
  refine (hnone.setWeak hsrc).exchangeControl ?_
  change dst < (s.weak.set src none).length
  rwa [length_set]

end

lemma count_pos_of_sharedAt (h : s.sharedAt i = some b) : 0 < s.shared.count (some b) :=
  count_pos_iff.2 (mem_of_getElem? (Option.join_eq_some_iff.1 h))

lemma count_pos_of_weakAt (h : s.weakAt i = some b) : 0 < s.weak.count (some b) :=
  count_pos_iff.2 (mem_of_getElem? (Option.join_eq_some_iff.1 h))

@[simp] lemma length_shared_newShared : s.newShared.shared.length = s.shared.length + 1 :=
  length_append ..

@[simp] lemma length_weak_newWeak : s.newWeak.weak.length = s.weak.length + 1 :=
  length_append ..

@[simp] lemma length_shared_acquire :
    (s.acquire i control).shared.length = s.shared.length := by
  cases control with
  | none => exact length_shared_replaceControl
  | some b =>
    rw [acquire]
    split <;> rename_i t h <;>
      rw [length_shared_replaceControl, ← congrArg (fun p => p.2.shared) h] <;> rfl

@[simp] lemma length_weak_acquireWeak :
    (s.acquireWeak i control).weak.length = s.weak.length := by
  cases control with
  | none => exact length_weak_exchangeControl
  | some b =>
    rw [acquireWeak]
    split <;> rename_i t h <;>
      rw [length_weak_exchangeControl, ← congrArg (fun p => p.2.weak) h] <;> rfl

@[simp] lemma length_shared_moveShared {dst src : Nat} :
    (s.moveShared dst src).shared.length = s.shared.length := by
  rw [moveShared, length_shared_replaceControl]
  exact length_set ..

end RcuPtrs
end BezOS
