import BezOS.Memory.TlsfFind

/-!
# The search through the bitmaps

`findFreeBlock` goes from a size to the first list, from the one of that size on, that is not
empty. Two levels of bitmaps take it there: the map of the size's own class from its step on, then
the first class above it that has a block, and the first step of that one.
-/

namespace BezOS
namespace Tlsf

open Lib List

variable {h h' : TlsfHeap} {base : Nat} {rs l t : List Region} {r : Region}
  {lists : Nat → List BlockPtr} {spare : List BlockPtr} {size : Nat} {m : BitVec 32}

lemma bitScanTrailing_spec (hm : m ≠ 0) :
    bitScanTrailing m < 32 ∧ m.getLsbD (bitScanTrailing m) = true ∧
      ∀ j < bitScanTrailing m, m.getLsbD j = false := by
  obtain ⟨j, hj, hbit⟩ := bitVec_ne_zero_iff.1 hm
  have hlt : (range 32).findIdx m.getLsbD < (range 32).length :=
    findIdx_lt_length_of_exists ⟨j, mem_range.2 hj, hbit⟩
  have hscan : bitScanTrailing m = (range 32).findIdx m.getLsbD := if_neg hm
  rw [hscan]
  refine ⟨by simpa using hlt, ?_, fun j hj => ?_⟩
  · have hget := findIdx_getElem (w := hlt)
    simpa using hget
  · have hnot := not_of_lt_findIdx hj
    simpa using hnot

lemma getLsbD_above {n j : Nat} (hj : j < 32) :
    (m &&& (BitVec.allOnes 32 <<< n)).getLsbD j = (m.getLsbD j && decide (n ≤ j)) := by
  rw [BitVec.getLsbD_and, BitVec.getLsbD_shiftLeft, BitVec.getLsbD_allOnes]
  by_cases hn : n ≤ j
  · simp [hj, hn, show j - n < 32 by omega, show ¬ j < n by omega]
  · simp [hn, show j < n by omega]

lemma bitScanTrailing_above {n : Nat} (hm : m &&& (BitVec.allOnes 32 <<< n) ≠ 0) :
    let s := bitScanTrailing (m &&& (BitVec.allOnes 32 <<< n))
    s < 32 ∧ n ≤ s ∧ m.getLsbD s = true ∧ ∀ j < s, n ≤ j → m.getLsbD j = false := by
  obtain ⟨hlt, hbit, hbelow⟩ := bitScanTrailing_spec hm
  rw [getLsbD_above hlt, Bool.and_eq_true, decide_eq_true_eq] at hbit
  refine ⟨hlt, hbit.2, hbit.1, fun j hj hn => ?_⟩
  have hnot := hbelow j hj
  rw [getLsbD_above (hj.trans hlt)] at hnot
  simpa [hn] using hnot

lemma above_eq_zero {n : Nat} (hm : m &&& (BitVec.allOnes 32 <<< n) = 0) {j : Nat} (hj : j < 32)
    (hn : n ≤ j) : m.getLsbD j = false := by
  have hbit := congrArg (fun b => b.getLsbD j) hm
  simp only [getLsbD_above hj] at hbit
  simpa [hn] using hbit

/-- The first list from the one of `size` on that is not empty. -/
structure FirstList (lists : Nat → List BlockPtr) (size i : Nat) : Prop where
  from_size : getListIndex size ≤ i
  nonempty : lists i ≠ []
  first : ∀ j, getListIndex size ≤ j → j < i → lists j = []

lemma Headed.inner_false (hh : Headed h lists) {c s : Nat} (hs : s < 32)
    (hbit : (h.mInnerFreeMap c).getLsbD s = false) : lists (32 * c + s) = [] := by
  by_contra hne
  rw [(hh.inner c s hs).2 hne] at hbit
  cases hbit

lemma index_split (i : Nat) : ∃ c s, s < 32 ∧ i = 32 * c + s :=
  ⟨i / 32, i % 32, Nat.mod_lt _ (by decide), by omega⟩

section

variable (hf : Formed h base rs lists spare)

include hf

lemma findFreeBlock_run (hpos : 0 < size) (hsize : size < 2 ^ 38) :
    ((∀ i, getListIndex size ≤ i → lists i = []) ∧
      findFreeBlock size h = .ok ((none, 0), h)) ∨
    ∃ i, FirstList lists size i ∧ findFreeBlock size h = .ok (((lists i).head?, i), h) := by
  have hheaded := hf.repr.listed.headed
  have hclass := memoryClass_lt_of_lt hsize
  have hsecond := secondIndex_lt size
  have hindex := getListIndex_eq size
  have hinner : sizeToMemoryClass size < kMaxMemoryClass := by
    rw [show kMaxMemoryClass = 57 from rfl]
    omega
  have hget : ∀ c s, s < 32 → (h.mInnerFreeMap c).getLsbD s = true →
      getFreeList (getListIndexOf c s) h = .ok ((lists (32 * c + s)).head?, h) := by
    intro c s hs hbit
    have hlt := (hf.list_lt ((hheaded.inner c s hs).1 hbit)).1
    rw [getListIndexOf_eq, getFreeList_run hlt, hheaded.head _]
  have hstep : sizeToSecondIndex size (sizeToMemoryClass size) = secondIndex size := rfl
  rw [findFreeBlock, bind_run (check_run (decide_eq_true hpos)),
    if_neg (by rw [show kBitMapDigits = 32 from rfl]; omega), bind_run (getInner_run hinner), hstep,
    bind_run (shiftLeft_run _ hsecond)]
  by_cases hown : h.mInnerFreeMap (sizeToMemoryClass size) &&&
      (BitVec.allOnes 32 <<< secondIndex size) = 0
  · -- Nothing in the class of the size: the classes above it.
    have hempty : ∀ s < 32, secondIndex size ≤ s → lists (32 * sizeToMemoryClass size + s) = [] :=
      fun s hs hle => hheaded.inner_false hs (above_eq_zero hown hs hle)
    rw [if_pos hown, bind_run (shiftLeft_run _ (by rw [show kBitMapDigits = 32 from rfl]; omega)), bind_run get_run]
    by_cases htop : h.mTopLevelFreeMap &&& (BitVec.allOnes 32 <<< (sizeToMemoryClass size + 1)) = 0
    · rw [if_pos htop]
      refine .inl ⟨fun i hi => ?_, rfl⟩
      by_contra hne
      obtain ⟨c, s, hs, rfl⟩ := index_split i
      have hlt := (hf.list_lt hne).2
      have hc : sizeToMemoryClass size + 1 ≤ c := by
        by_contra hc
        obtain rfl : c = sizeToMemoryClass size := by omega
        exact hne (hempty s hs (by omega))
      have hbit := above_eq_zero htop (by omega) hc
      have hzero : h.mInnerFreeMap c ≠ 0 :=
        bitVec_ne_zero_iff.2 ⟨s, hs, (hheaded.inner c s hs).2 hne⟩
      rw [(hheaded.top c (by omega)).2 hzero] at hbit
      cases hbit
    · rw [if_neg htop]
      obtain ⟨hlt, hle, hbit, hbelow⟩ := bitScanTrailing_above htop
      generalize bitScanTrailing (h.mTopLevelFreeMap &&&
        (BitVec.allOnes 32 <<< (sizeToMemoryClass size + 1))) = c at hlt hle hbit hbelow ⊢
      have hzero : h.mInnerFreeMap c ≠ 0 := (hheaded.top c hlt).1 hbit
      obtain ⟨hs, hset, hunset⟩ := bitScanTrailing_spec hzero
      generalize hscan : bitScanTrailing (h.mInnerFreeMap c) = s at hs hset hunset
      refine .inr ⟨32 * c + s, ⟨by omega, (hheaded.inner c s hs).1 hset, fun j hj hjlt => ?_⟩, ?_⟩
      · obtain ⟨c', s', hs', rfl⟩ := index_split j
        by_cases hc' : c' = c
        · subst hc'
          exact hheaded.inner_false hs' (hunset s' (by omega))
        · by_cases hown' : c' = sizeToMemoryClass size
          · subst hown'
            exact hempty s' hs' (by omega)
          · by_contra hne
            have htrue : h.mTopLevelFreeMap.getLsbD c' = true := (hheaded.top c' (by omega)).2
              (bitVec_ne_zero_iff.2 ⟨s', hs', (hheaded.inner c' s' hs').2 hne⟩)
            rw [hbelow c' (by omega) (by omega)] at htrue
            cases htrue
      · have hcheck : (h.mInnerFreeMap c != 0) = true := by simpa using hzero
        rw [bind_run (getInner_run (by rw [show kMaxMemoryClass = 57 from rfl]; omega)),
          bind_run (check_run hcheck), hscan, bind_run (hget c s hs hset), getListIndexOf_eq]
        rfl
  · rw [if_neg hown]
    obtain ⟨hs, hle, hbit, hbelow⟩ := bitScanTrailing_above hown
    generalize bitScanTrailing (h.mInnerFreeMap (sizeToMemoryClass size) &&&
        (BitVec.allOnes 32 <<< secondIndex size)) = s at hs hle hbit hbelow ⊢
    refine .inr ⟨32 * sizeToMemoryClass size + s, ⟨by omega, (hheaded.inner _ s hs).1 hbit,
      fun j hj hjlt => ?_⟩, ?_⟩
    · obtain ⟨c', s', hs', rfl⟩ := index_split j
      obtain rfl : c' = sizeToMemoryClass size := by omega
      exact hheaded.inner_false hs' (hbelow s' (by omega) (by omega))
    · rw [bind_run (hget _ s hs hbit), getListIndexOf_eq]
      rfl

lemma Formed.inner_zero {c : Nat} (hc : 31 ≤ c) :
    h.mInnerFreeMap c = 0 := by
  by_contra hne
  obtain ⟨s, hs, hbit⟩ := bitVec_ne_zero_iff.1 hne
  have hlt := (hf.list_lt ((hf.repr.listed.headed.inner c s hs).1 hbit)).2
  omega

lemma findFreeBlock_large (hsize : 2 ^ 38 ≤ size) :
    (RequestIndicesSafe size → findFreeBlock size h = .ok ((none, 0), h)) ∧
    (¬ RequestIndicesSafe size → findFreeBlock size h = .error .badAccess) := by
  have hclass : ¬ sizeToMemoryClass size < 31 := by
    rw [memoryClass_lt_iff (by decide)]
    omega
  rw [findFreeBlock, bind_run (check_run (decide_eq_true (by omega)))]
  by_cases habove : kBitMapDigits < sizeToMemoryClass size
  · rw [if_pos habove]
    refine ⟨fun _ => rfl, fun hbeyond => absurd ⟨?_, ?_, ?_⟩ hbeyond⟩ <;>
      exact fun hle => absurd hle (Nat.not_le.2 habove)
  · have hdigits : kBitMapDigits = 32 := rfl
    have hinner : sizeToMemoryClass size < kMaxMemoryClass := by
      rw [show kMaxMemoryClass = 57 from rfl]
      omega
    rw [if_neg habove]
    constructor
    · intro hsafe
      have hshift := hsafe.topShift (by omega)
      omega
    · intro _
      have hsecond : sizeToSecondIndex size (sizeToMemoryClass size) < kBitMapDigits :=
        secondIndex_lt size
      rw [bind_run (getInner_run hinner), bind_run (shiftLeft_run _ hsecond),
        hf.inner_zero (by omega), if_pos (by simp)]
      refine bind_error ?_
      rw [shiftLeft, if_neg (by omega)]
      rfl

end

/-! ## The list that is found -/

/-- The blocks of the first list from the one of `size` on that is not empty. -/
def TlsfHeap.listFrom (h : TlsfHeap) (size : Nat) : List BlockPtr :=
  match (range h.mFreeListCount).find? fun i =>
      decide (getListIndex size ≤ i) && (h.mFreeList i).isSome with
  | some i => h.freeListOf i
  | none => []

section

variable (hf : Formed h base rs lists spare)

include hf

lemma Formed.head_isSome (i : Nat) :
    (h.mFreeList i).isSome = true ↔ lists i ≠ [] := by
  rw [hf.repr.listed.headed.head i, isSome_head?]

lemma Formed.listFrom_of_first {i : Nat} (hi : FirstList lists size i) :
    h.listFrom size = lists i := by
  have hlt := (hf.list_lt hi.nonempty).1
  have hfind : (range h.mFreeListCount).find? (fun i =>
      decide (getListIndex size ≤ i) && (h.mFreeList i).isSome) = some i := by
    rw [find?_range_eq_some]
    refine ⟨?_, mem_range.2 hlt, fun j hj => ?_⟩
    · rw [(hf.head_isSome i).2 hi.nonempty, decide_eq_true hi.from_size]
      rfl
    · rw [Bool.not_eq_true', Bool.and_eq_false_iff, decide_eq_false_iff_not]
      by_cases hle : getListIndex size ≤ j
      · right
        rw [← Bool.not_eq_true, hf.head_isSome, not_not]
        exact hi.first j hle hj
      · exact .inl hle
  rw [TlsfHeap.listFrom, hfind]
  exact hf.repr.freeListOf_eq i

lemma Formed.listFrom_of_none (hnone : ∀ i, getListIndex size ≤ i → lists i = []) :
    h.listFrom size = [] := by
  have hfind : (range h.mFreeListCount).find? (fun i =>
      decide (getListIndex size ≤ i) && (h.mFreeList i).isSome) = none := by
    rw [find?_eq_none]
    intro i _
    rw [Bool.and_eq_true, decide_eq_true_eq, hf.head_isSome]
    exact fun hc => hc.2 (hnone i hc.1)
  rw [TlsfHeap.listFrom, hfind]

lemma Formed.findFreeBlock (hpos : 0 < size) (hsafe : RequestIndicesSafe size) :
    ∃ i, findFreeBlock size h = .ok (((h.listFrom size).head?, i), h) ∧
      (h.listFrom size = [] ∨ h.listFrom size = lists i ∧ FirstList lists size i) := by
  by_cases hsize : size < 2 ^ 38
  · rcases findFreeBlock_run hf hpos hsize with ⟨hnone, hrun⟩ | ⟨i, hfirst, hrun⟩
    · exact ⟨0, by rw [hrun, hf.listFrom_of_none hnone]; rfl, .inl (hf.listFrom_of_none hnone)⟩
    · have hlist := hf.listFrom_of_first hfirst
      exact ⟨i, by rw [hrun, hlist], .inr ⟨hlist, hfirst⟩⟩
  · have hnone : ∀ i, getListIndex size ≤ i → lists i = [] := by
      intro i hi
      by_contra hne
      have hlt := (hf.list_lt hne).2
      have hclass : ¬ sizeToMemoryClass size < 31 := by
        rw [memoryClass_lt_iff (by decide)]
        omega
      rw [getListIndex_eq] at hi
      omega
    refine ⟨0, ?_, .inl (hf.listFrom_of_none hnone)⟩
    rw [(findFreeBlock_large hf (by omega)).1 hsafe, hf.listFrom_of_none hnone]
    rfl

lemma Formed.findFreeBlock_unsafe (hbeyond : ¬ RequestIndicesSafe size) :
    Tlsf.findFreeBlock size h = .error .badAccess := by
  refine (findFreeBlock_large hf ?_).2 hbeyond
  by_contra hsize
  exact hbeyond (requestIndicesSafe (by omega))

end

end Tlsf
end BezOS
