import Mathlib.Order.Nat
import BezOS.Memory.PageRequests
import BezOS.User.UserMemory

/-!
# User memory checks

The loops test one address in every page, starting from the first byte of the range: the page of
the last byte is tested only if that byte is not nearer to the start of its page than the first
byte is. The calls of `user/user.cpp` never ask for the lower half. A copy is therefore sound
exactly when the last byte it touches is in the lower half and its page was tested, or carries the
flags anyway.
-/

namespace BezOS

open Option PageFlags

namespace PageBuilder

/-! ## The lower half -/

lemma lt_of_lowerHalf (pm : PageBuilder) {a : BitVec 64}
    (hcanonical : pm.isCanonicalAddress a) (hlower : ¬ pm.isHigherHalf a) :
    a.toNat < 2 ^ (pm.mVaddrBits - 1) := by
  have hzero : a &&& pm.highMask = 0 := by
    simp only [isHigherHalf, decide_eq_true_eq] at hlower
    simpa [isCanonicalAddress, hlower] using hcanonical
  refine Nat.lt_pow_two_of_testBit _ fun i hi => ?_
  change a.getLsbD i = false
  by_cases hwidth : i < 64
  · have hbit := congrArg (BitVec.getLsbD · i) hzero
    simpa [BitVec.getLsbD_and, pm.getLsbD_highMask hwidth, hi] using hbit
  · exact BitVec.getLsbD_of_ge a i (Nat.le_of_not_lt hwidth)

end PageBuilder

namespace PageTables

variable {pt : PageTables} {flags : PageFlags} {front back addr : BitVec 64}
  {mapped : BitVec 64 → Bool} {rules : VerifyRules}

/-! ## The loop -/

/-- The addresses that the loop tests all pass, and it meets the end before it wraps around. -/
def Visited (mapped : BitVec 64 → Bool) (front back : Nat) : Prop :=
  (∀ k, front + x64.kPageSize * k < back → mapped (BitVec.ofNat 64 (front + x64.kPageSize * k))) ∧
    (front < back → back ≤ front % x64.kPageSize + (2 ^ 64 - x64.kPageSize))

lemma toNat_next (addr : BitVec 64) :
    (addr + BitVec.ofNat 64 x64.kPageSize).toNat = (addr.toNat + 4096) % 2 ^ 64 := by
  rw [BitVec.toNat_add]
  rfl

lemma visited_of_pagesLoop {fuel : Nat} (hloop : pagesLoop mapped back fuel addr = some true) :
    Visited mapped addr.toNat back.toNat := by
  induction fuel generalizing addr with
  | zero => cases hloop
  | succ fuel ih =>
    rw [pagesLoop] at hloop
    by_cases hlt : addr < back
    · rw [if_pos hlt] at hloop
      have hlt' : addr.toNat < back.toNat := hlt
      by_cases hmapped : mapped addr = true
      · rw [if_pos hmapped] at hloop
        obtain ⟨hpages, hend⟩ := ih hloop
        rw [toNat_next] at hpages hend
        simp only [x64.kPageSize] at hpages hend
        by_cases hwrap : addr.toNat + 4096 < 2 ^ 64
        · rw [Nat.mod_eq_of_lt hwrap] at hpages hend
          refine ⟨fun k hk => ?_, fun _ => ?_⟩
          · cases k with
            | zero => simpa using hmapped
            | succ k =>
              have hnext := hpages k (by simp only [x64.kPageSize] at hk; omega)
              rwa [show addr.toNat + x64.kPageSize * (k + 1) = addr.toNat + 4096 + 4096 * k by
                simp only [x64.kPageSize]; omega]
          · simp only [x64.kPageSize]
            by_cases hnext : addr.toNat + 4096 < back.toNat
            · omega
            · omega
        · -- the address starts over at the bottom, and the end is out of reach
          exfalso
          omega
      · rw [if_neg hmapped] at hloop
        cases hloop
    · have hle : back.toNat ≤ addr.toNat := Nat.le_of_not_lt hlt
      exact ⟨fun k hk => by omega, fun hk => by omega⟩

lemma pagesLoop_of_visited {fuel : Nat} (hvisited : Visited mapped addr.toNat back.toNat)
    (hfuel : back.toNat ≤ addr.toNat + x64.kPageSize * fuel) :
    pagesLoop mapped back (fuel + 1) addr = some true := by
  induction fuel generalizing addr with
  | zero =>
    have hle : ¬ addr < back := by
      rw [BitVec.lt_def]
      omega
    rw [pagesLoop, if_neg hle]
  | succ fuel ih =>
    rw [pagesLoop]
    by_cases hlt : addr < back
    · have hlt' : addr.toNat < back.toNat := hlt
      obtain ⟨hpages, hend⟩ := hvisited
      have hend := hend hlt'
      have hmapped := hpages 0 (by omega)
      rw [Nat.mul_zero, Nat.add_zero, BitVec.ofNat_toNat, BitVec.setWidth_eq] at hmapped
      simp only [x64.kPageSize] at hend hfuel
      rw [if_pos hlt, if_pos hmapped]
      have hnext : (addr + BitVec.ofNat 64 x64.kPageSize).toNat = addr.toNat + 4096 := by
        rw [toNat_next, Nat.mod_eq_of_lt (by omega)]
      refine ih ⟨fun k hk => ?_, fun hk => ?_⟩ ?_
      · rw [hnext] at hk ⊢
        have hpage := hpages (k + 1) (by simp only [x64.kPageSize] at hk ⊢; omega)
        rwa [show addr.toNat + 4096 + x64.kPageSize * k = addr.toNat + x64.kPageSize * (k + 1) by
          simp only [x64.kPageSize]; omega]
      · rw [hnext, show x64.kPageSize = 4096 from rfl, Nat.add_mod_right]
        exact hend
      · rw [hnext, show x64.kPageSize = 4096 from rfl]
        omega
    · rw [if_neg hlt]

lemma pagesMapped_iff :
    pt.pagesMapped front back flags = .ok true ↔
      Visited (pt.isPageMapped flags) front.toNat back.toNat := by
  rw [pagesMapped]
  constructor
  · intro hmapped
    split at hmapped
    · cases hmapped
    · rename_i hloop
      cases hmapped
      exact visited_of_pagesLoop hloop
  · intro hvisited
    rw [pagesLoop_of_visited hvisited (by simp only [x64.kPageSize]; omega)]

/-! ## Verified ranges -/

lemma addOverflow_eq_some {a b back : BitVec 64} (hadd : addOverflow a b = some back) :
    a.toNat + b.toNat = back.toNat ∧ back = a + b := by
  rw [addOverflow] at hadd
  split at hadd
  · rename_i hlt
    cases hadd
    exact ⟨by rw [BitVec.toNat_add, Nat.mod_eq_of_lt hlt], rfl⟩
  · cases hadd

lemma verifyUserRange_success {pm : PageBuilder}
    (hverify : verifyUserRange pm rules front back = .ok .success) :
    front.toNat ≤ back.toNat ∧ back.toNat < 2 ^ (pm.mVaddrBits - 1) := by
  rw [verifyUserRange] at hverify
  split at hverify
  · cases hverify
  · rename_i hle
    have hle : front.toNat ≤ back.toNat := Nat.le_of_not_lt hle
    refine ⟨hle, ?_⟩
    rw [verifyUserPointer] at hverify
    split at hverify
    · cases hverify
    · split at hverify
      · cases hverify
      · split at hverify
        · cases hverify
        · split at hverify
          · cases hverify
          · split at hverify
            · cases hverify
            · rename_i back' hadd
              obtain ⟨-, hback⟩ := addOverflow_eq_some hadd
              have hsame : back' = back := by
                rw [hback, BitVec.add_comm, BitVec.sub_add_cancel]
              subst hsame
              split at hverify
              · cases hverify
              · rename_i hcanonical
                split at hverify
                · cases hverify
                · rename_i hlower
                  simp only [not_or, Bool.not_eq_true] at hcanonical hlower
                  exact pm.lt_of_lowerHalf (by simpa using hcanonical.2) (by simpa using hlower.2)

lemma copyRange_iff {span : UserSpan} :
    pt.copyRange rules flags front back = .ok (.success, some span) ↔
      verifyUserRange pt.mPageManager rules front back = .ok .success ∧
        Visited (pt.isPageMapped flags) front.toNat back.toNat ∧ span = ⟨front, back - front⟩ := by
  rw [← pagesMapped_iff]
  constructor
  · intro hcopy
    obtain ⟨status, hvalid, hcopy⟩ := bind_eq_ok.1 hcopy
    obtain ⟨status1, hverify, hvalid⟩ := bind_eq_ok.1 hvalid
    split at hcopy
    · cases hcopy
    · rename_i hstatus
      have hspan : span = ⟨front, back - front⟩ := by
        cases hcopy
        rfl
      obtain rfl : status = .success := Classical.not_not.1 hstatus
      split at hvalid
      · rename_i hne
        cases hvalid
        contradiction
      · rename_i hstatus1
        obtain rfl : status1 = .success := Classical.not_not.1 hstatus1
        obtain ⟨mapped, hmapped, hvalid⟩ := bind_eq_ok.1 hvalid
        cases mapped with
        | true => exact ⟨hverify, hmapped, hspan⟩
        | false => cases hvalid
  · rintro ⟨hverify, hmapped, rfl⟩
    simp only [copyRange, verifyRangeValid, verifyRangeMapped, hverify, hmapped]
    rfl

/-! ## Ranges tested page by page -/

lemma copyMapped_iff {size : BitVec 64} {span : UserSpan} :
    pt.copyMapped flags front back size = .ok (.success, some span) ↔
      (pt.mPageManager.isCanonicalAddress front ∧ pt.mPageManager.isCanonicalAddress back) ∧
        Visited (pt.isPageMapped flags) front.toNat back.toNat ∧ span = ⟨front, size⟩ := by
  rw [← pagesMapped_iff]
  constructor
  · intro hcopy
    obtain ⟨mapped, hmapped, hcopy⟩ := bind_eq_ok.1 hcopy
    cases mapped with
    | false => cases hcopy
    | true =>
      cases hcopy
      rw [isRangeMapped] at hmapped
      split at hmapped
      · cases hmapped
      · rename_i hcanonical
        simp only [not_or, Classical.not_not] at hcanonical
        exact ⟨hcanonical, hmapped, rfl⟩
  · rintro ⟨⟨hfront, hback⟩, hmapped, rfl⟩
    simp only [copyMapped, isRangeMapped, hfront, hback, hmapped]
    rfl

end PageTables

/-! ## Calls -/

/-- The range that a call checks, and how much of it the call copies. -/
structure CheckedSpan where
  front : BitVec 64
  back : BitVec 64
  size : BitVec 64
  deriving DecidableEq

def CheckedSpan.last (c : CheckedSpan) : Nat := c.front.toNat + c.size.toNat - 1

namespace UserCopy

def flags : UserCopy → PageFlags
  | readUserRange _ _ _ | readUserArray _ _ _ | readUserObject _ _ _ | copyUserMemory _ _
  | readUserMemory _ _ _ => eUser ||| eRead
  | writeUserRange _ _ _ | writeUserObject _ _ _ | writeUserMemory _ _ =>
      eUser ||| eWrite

def rules : UserCopy → Option VerifyRules
  | readUserRange rules _ _ | writeUserRange rules _ _ | readUserArray rules _ _
  | readUserObject rules _ _ | writeUserObject rules _ _ => some rules
  | copyUserMemory _ _ | readUserMemory _ _ _ | writeUserMemory _ _ => none

/-- The range and the size, unless they overflow or contradict each other. -/
def checked : UserCopy → Option CheckedSpan
  | readUserRange _ front back | writeUserRange _ front back | readUserArray _ front back =>
      some ⟨front, back, back - front⟩
  | readUserObject _ address size | writeUserObject _ address size =>
      (PageTables.addOverflow address size).map fun back => ⟨address, back, back - address⟩
  | copyUserMemory address size | writeUserMemory address size =>
      (PageTables.addOverflow address size).map fun back => ⟨address, back, size⟩
  | readUserMemory front back size =>
      if front ≥ back ∨ size > back - front then none else some ⟨front, back, size⟩

end UserCopy

namespace PageTables

variable (pt : PageTables) {call : UserCopy} {c : CheckedSpan}

/-- What is asked of the range before its pages: `VerifyUserRange`, or that both ends are
canonical. -/
def ArgumentsPass (call : UserCopy) (c : CheckedSpan) : Prop :=
  match call.rules with
  | some rules => verifyUserRange pt.mPageManager rules c.front c.back = .ok .success
  | none => pt.mPageManager.isCanonicalAddress c.front ∧ pt.mPageManager.isCanonicalAddress c.back

def Accepts (call : UserCopy) (c : CheckedSpan) : Prop :=
  pt.ArgumentsPass call c ∧ Visited (pt.isPageMapped call.flags) c.front.toNat c.back.toNat

variable {pt}

variable (call c) in
lemma copyRange_accepts {rules : VerifyRules} {span : UserSpan} (hrules : call.rules = some rules)
    (hsize : c.size = c.back - c.front) :
    pt.copyRange rules call.flags c.front c.back = .ok (.success, some span) ↔
      pt.Accepts call c ∧ span = ⟨c.front, c.size⟩ := by
  rw [copyRange_iff, Accepts, ArgumentsPass, hrules, hsize, and_assoc]

variable (call c) in
lemma copyMapped_accepts {span : UserSpan} (hrules : call.rules = none) :
    pt.copyMapped call.flags c.front c.back c.size = .ok (.success, some span) ↔
      pt.Accepts call c ∧ span = ⟨c.front, c.size⟩ := by
  rw [copyMapped_iff, Accepts, ArgumentsPass, hrules]
  exact and_assoc.symm

lemma copy_iff {span : UserSpan} :
    pt.copy call = .ok (.success, some span) ↔
      ∃ c, call.checked = some c ∧ pt.Accepts call c ∧ span = ⟨c.front, c.size⟩ := by
  cases hchecked : call.checked with
  | none =>
    refine iff_of_false ?_ (by simp)
    cases call with
    | readUserRange rules front back => cases hchecked
    | writeUserRange rules front back => cases hchecked
    | readUserArray rules front back => cases hchecked
    | readUserObject rules address size =>
      rw [UserCopy.checked, map_eq_none_iff] at hchecked
      simp [copy, readUserObject, hchecked]
    | writeUserObject rules address size =>
      rw [UserCopy.checked, map_eq_none_iff] at hchecked
      simp [copy, writeUserObject, hchecked]
    | copyUserMemory address size =>
      rw [UserCopy.checked, map_eq_none_iff] at hchecked
      simp [copy, copyUserMemory, hchecked]
    | readUserMemory front back size =>
      simp only [UserCopy.checked, ite_eq_left_iff, reduceCtorEq, imp_false, not_not] at hchecked
      rw [copy, readUserMemory]
      split
      · simp
      · split
        · simp
        · rename_i hfront hsize
          exact absurd hchecked (by simp only [not_or]; exact ⟨hfront, hsize⟩)
    | writeUserMemory dst size =>
      rw [UserCopy.checked, map_eq_none_iff] at hchecked
      simp [copy, writeUserMemory, hchecked]
  | some c =>
    have hiff : pt.copy call = .ok (.success, some span) ↔
        pt.Accepts call c ∧ span = ⟨c.front, c.size⟩ := by
      cases call with
      | readUserRange rules front back =>
        cases hchecked
        exact copyRange_accepts (.readUserRange rules front back) ⟨front, back, _⟩ rfl rfl
      | writeUserRange rules front back =>
        cases hchecked
        exact copyRange_accepts (.writeUserRange rules front back) ⟨front, back, _⟩ rfl rfl
      | readUserArray rules front back =>
        cases hchecked
        exact copyRange_accepts (.readUserArray rules front back) ⟨front, back, _⟩ rfl rfl
      | readUserObject rules address size =>
        obtain ⟨back, hadd, rfl⟩ := map_eq_some_iff.1 hchecked
        rw [copy, readUserObject, hadd]
        exact copyRange_accepts (.readUserObject rules address size) ⟨address, back, _⟩ rfl rfl
      | writeUserObject rules address size =>
        obtain ⟨back, hadd, rfl⟩ := map_eq_some_iff.1 hchecked
        rw [copy, writeUserObject, hadd]
        exact copyRange_accepts (.writeUserObject rules address size) ⟨address, back, _⟩ rfl rfl
      | copyUserMemory address size =>
        obtain ⟨back, hadd, rfl⟩ := map_eq_some_iff.1 hchecked
        rw [copy, copyUserMemory, hadd]
        exact copyMapped_accepts (.copyUserMemory address size) ⟨address, back, size⟩ rfl
      | readUserMemory front back size =>
        rw [UserCopy.checked] at hchecked
        split at hchecked
        · cases hchecked
        · rename_i hrefused
          cases hchecked
          rw [not_or] at hrefused
          rw [copy, readUserMemory, if_neg hrefused.1, if_neg hrefused.2]
          exact copyMapped_accepts (.readUserMemory front back size) ⟨front, back, size⟩ rfl
      | writeUserMemory dst size =>
        obtain ⟨back, hadd, rfl⟩ := map_eq_some_iff.1 hchecked
        rw [copy, writeUserMemory, hadd]
        exact copyMapped_accepts (.writeUserMemory dst size) ⟨dst, back, size⟩ rfl
    rw [hiff]
    simp

/-! ## Soundness -/

variable (pt) in
def UserByte (flags : PageFlags) (a : BitVec 64) : Prop :=
  a.toNat < 2 ^ (pt.mPageManager.mVaddrBits - 1) ∧ pt.isPageMapped flags a

variable (pt) in
/-- A call that reports success has copied user bytes only. -/
def Sound (call : UserCopy) : Prop :=
  ∀ span, pt.copy call = .ok (.success, some span) →
    ∀ i < span.size.toNat, pt.UserByte call.flags (span.front + BitVec.ofNat 64 i)

variable (pt) in
/-- The call copies nothing, or its last byte is in the lower half (which `VerifyUserRange` has
asked for) and on a page that the loop visits or that carries the flags. -/
def LastByteTested (call : UserCopy) (c : CheckedSpan) : Prop :=
  c.size = 0 ∨
    (call.rules = none → c.last < 2 ^ (pt.mPageManager.mVaddrBits - 1)) ∧
      (c.front.toNat % x64.kPageSize + x64.kPageSize * (c.last / x64.kPageSize) < c.back.toNat ∨
        pt.isPageMapped call.flags (BitVec.ofNat 64 c.last))

lemma ArgumentsPass.fits (hc : call.checked = some c) (hpass : pt.ArgumentsPass call c) :
    c.front.toNat + c.size.toNat ≤ c.back.toNat := by
  have hverified : c.front.toNat ≤ c.back.toNat → c.size = c.back - c.front →
      c.front.toNat + c.size.toNat ≤ c.back.toNat := by
    intro hle hsize
    have hnat : (c.back - c.front).toNat = c.back.toNat - c.front.toNat :=
      BitVec.toNat_sub_of_le hle
    rw [hsize, hnat]
    omega
  cases call with
  | readUserRange rules front back =>
    cases hc
    exact hverified (verifyUserRange_success hpass).1 rfl
  | writeUserRange rules front back =>
    cases hc
    exact hverified (verifyUserRange_success hpass).1 rfl
  | readUserArray rules front back =>
    cases hc
    exact hverified (verifyUserRange_success hpass).1 rfl
  | readUserObject rules address size =>
    obtain ⟨back, -, rfl⟩ := map_eq_some_iff.1 hc
    exact hverified (verifyUserRange_success hpass).1 rfl
  | writeUserObject rules address size =>
    obtain ⟨back, -, rfl⟩ := map_eq_some_iff.1 hc
    exact hverified (verifyUserRange_success hpass).1 rfl
  | copyUserMemory address size =>
    obtain ⟨back, hadd, rfl⟩ := map_eq_some_iff.1 hc
    exact (addOverflow_eq_some hadd).1.le
  | readUserMemory front back size =>
    rw [UserCopy.checked] at hc
    split at hc
    · cases hc
    · rename_i hrefused
      cases hc
      simp only [not_or, ge_iff_le, gt_iff_lt, BitVec.not_le, BitVec.not_lt] at hrefused
      have hle : front.toNat < back.toNat := hrefused.1
      have hsize : size.toNat ≤ (back - front).toNat := hrefused.2
      rw [BitVec.toNat_sub_of_le (BitVec.le_of_lt hrefused.1)] at hsize
      dsimp only
      omega
  | writeUserMemory dst size =>
    obtain ⟨back, hadd, rfl⟩ := map_eq_some_iff.1 hc
    exact (addOverflow_eq_some hadd).1.le

lemma isPageMapped_congr {a b : Nat} (ha : a < 2 ^ 64) (hb : b < 2 ^ 64)
    (hpage : a / x64.kPageSize = b / x64.kPageSize) :
    pt.isPageMapped flags (BitVec.ofNat 64 a) = pt.isPageMapped flags (BitVec.ofNat 64 b) := by
  have hshift : BitVec.ofNat 64 a >>> 12 = BitVec.ofNat 64 b >>> 12 := by
    refine BitVec.eq_of_toNat_eq ?_
    rw [BitVec.toNat_ushiftRight, BitVec.toNat_ushiftRight, BitVec.toNat_ofNat, BitVec.toNat_ofNat,
      Nat.mod_eq_of_lt ha, Nat.mod_eq_of_lt hb, Nat.shiftRight_eq_div_pow,
      Nat.shiftRight_eq_div_pow]
    exact hpage
  rw [isPageMapped, isPageMapped, pt.getMemoryFlags_eq_of_page hshift]

lemma Visited.isPageMapped {front back a : Nat} (hvisited : Visited (pt.isPageMapped flags) front back)
    (hback : back < 2 ^ 64) (hfront : front ≤ a) (ha : a < 2 ^ 64)
    (hreached : front % x64.kPageSize + x64.kPageSize * (a / x64.kPageSize) < back) :
    pt.isPageMapped flags (BitVec.ofNat 64 a) = true := by
  have hdiv : front / x64.kPageSize ≤ a / x64.kPageSize := Nat.div_le_div_right hfront
  have haddr : front + x64.kPageSize * (a / x64.kPageSize - front / x64.kPageSize) =
      front % x64.kPageSize + x64.kPageSize * (a / x64.kPageSize) := by
    rw [Nat.mul_sub]
    have hsplit := Nat.mod_add_div front x64.kPageSize
    have hmono := Nat.mul_le_mul_left x64.kPageSize hdiv
    omega
  have hmapped := hvisited.1 (a / x64.kPageSize - front / x64.kPageSize) (by rw [haddr]; exact hreached)
  rw [haddr] at hmapped
  rw [← hmapped]
  refine isPageMapped_congr ha (hreached.trans hback) ?_
  rw [Nat.add_mul_div_left _ _ (by decide), Nat.div_eq_of_lt (Nat.mod_lt _ (by decide)), Nat.zero_add]

lemma ArgumentsPass.lower (hpass : pt.ArgumentsPass call c) (hrules : call.rules ≠ none) :
    c.back.toNat < 2 ^ (pt.mPageManager.mVaddrBits - 1) := by
  rw [ArgumentsPass] at hpass
  cases hcall : call.rules with
  | none => exact absurd hcall hrules
  | some rules =>
    rw [hcall] at hpass
    exact (verifyUserRange_success hpass).2

lemma LastByteTested.userByte (hc : call.checked = some c) (haccepts : pt.Accepts call c)
    (htested : pt.LastByteTested call c) {i : Nat} (hi : i < c.size.toNat) :
    pt.UserByte call.flags (c.front + BitVec.ofNat 64 i) := by
  obtain ⟨hpass, hvisited⟩ := haccepts
  have hfits := hpass.fits hc
  have hback := c.back.isLt
  have hlast : c.last + 1 = c.front.toNat + c.size.toNat := by
    rw [CheckedSpan.last]
    omega
  obtain hzero | ⟨hlower, hpage⟩ := htested
  · rw [hzero] at hi
    exact absurd hi (Nat.not_lt_zero i)
  · have hbyte : c.front + BitVec.ofNat 64 i = BitVec.ofNat 64 (c.front.toNat + i) := by
      rw [BitVec.ofNat_add, BitVec.ofNat_toNat, BitVec.setWidth_eq]
    have hnat : (BitVec.ofNat 64 (c.front.toNat + i)).toNat = c.front.toNat + i := by
      rw [BitVec.toNat_ofNat, Nat.mod_eq_of_lt (by omega)]
    rw [hbyte]
    refine ⟨?_, ?_⟩
    · rw [hnat]
      by_cases hrules : call.rules = none
      · have := hlower hrules
        omega
      · have := hpass.lower hrules
        omega
    · -- a page before the last one is always visited
      have hdiv : (c.front.toNat + i) / x64.kPageSize ≤ c.last / x64.kPageSize :=
        Nat.div_le_div_right (by omega)
      rcases Nat.lt_or_eq_of_le hdiv with hlt | heq
      · refine hvisited.isPageMapped hback (by omega) (by omega) ?_
        simp only [x64.kPageSize] at hlt ⊢
        omega
      · rcases hpage with hreached | hmapped
        · refine hvisited.isPageMapped hback (by omega) (by omega) ?_
          rw [heq]
          exact hreached
        · rw [isPageMapped_congr (by omega) (by omega) heq]
          exact hmapped

/-- Copies are sound exactly for the ranges whose last byte is tested, if they are accepted. -/
theorem sound_iff (pt : PageTables) (call : UserCopy) :
    pt.Sound call ↔
      ∀ c, call.checked = some c → pt.Accepts call c → pt.LastByteTested call c := by
  constructor
  · intro hsound c hc haccepts
    by_cases hzero : c.size = 0
    · exact .inl hzero
    · have hpos : 0 < c.size.toNat := by
        rw [Nat.pos_iff_ne_zero]
        exact fun h => hzero (BitVec.eq_of_toNat_eq h)
      have hcopy := copy_iff.2 ⟨c, hc, haccepts, rfl⟩
      have hbyte := hsound _ hcopy (c.size.toNat - 1) (by dsimp only; omega)
      have hfits := haccepts.1.fits hc
      have hlast : c.front + BitVec.ofNat 64 (c.size.toNat - 1) = BitVec.ofNat 64 c.last := by
        rw [CheckedSpan.last, Nat.add_sub_assoc hpos, BitVec.ofNat_add, BitVec.ofNat_toNat,
          BitVec.setWidth_eq]
      rw [hlast] at hbyte
      obtain ⟨hlower, hmapped⟩ := hbyte
      rw [BitVec.toNat_ofNat, Nat.mod_eq_of_lt (by rw [CheckedSpan.last]; omega)] at hlower
      exact .inr ⟨fun _ => hlower, .inr hmapped⟩
  · intro htested span hcopy i hi
    obtain ⟨c, hc, haccepts, rfl⟩ := copy_iff.1 hcopy
    exact (htested c hc haccepts).userByte hc haccepts hi

def firstPage : PageTables where
  mPageManager := ⟨0x0000fffffffff000, 48, km.PageBuilder.of48.vaddrBits_pos, km.PageBuilder.of48.vaddrBits_le⟩
  root := 0x1000
  memory := fun table index =>
    if table = 0x5000 ∨ index ≠ 0 then 0 else (table + 0x1000) ||| 7

def straddle : UserCopy := .readUserRange ⟨1, 0, -1, 1⟩ 0xfff 0x1001

/-- The loop steps from the first byte over the end of the range. -/
theorem not_sound_of_straddle :
    firstPage.copy straddle = .ok (.success, some ⟨0xfff, 2⟩) ∧ ¬ firstPage.Sound straddle := by
  have hcopy : firstPage.copy straddle = .ok (.success, some ⟨0xfff, 2⟩) :=
    eq_ok_of_toOption (by decide +kernel)
  refine ⟨hcopy, fun hsound => ?_⟩
  have hbyte := (hsound _ hcopy 1 (by decide)).2
  exact absurd hbyte (by decide +kernel)

end PageTables
end BezOS
