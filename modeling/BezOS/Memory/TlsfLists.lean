import BezOS.Lib.Threaded
import BezOS.Memory.TlsfHeap

/-!
# The free lists

What the list operations of the heap do, seen on the lists as such: `Listed h lists` says that the
links and heads of `h` thread the lists `lists` and that a bit of the bitmaps is set exactly for a
list with a block. Taking a block out of its list, putting one at the front of its list and moving
one to the front change these lists and leave offsets, sizes and neighbours of all blocks alone.
-/

namespace BezOS
namespace Tlsf

open Lib Function List Option Threaded

variable {α β : Type} {h h' : TlsfHeap} {b : BlockPtr} {k : TlsfBlock} {p : Option BlockPtr}
  {f : TlsfBlock → TlsfBlock} {m : BitVec 32} {g : α → HeapM β}

/-! ## Running a call -/

lemma bind_run {m : HeapM α} {a : α} (hm : m h = .ok (a, h')) :
    (m >>= g) h = g a h' := by
  show (m h >>= fun x => g x.1 x.2) = _
  rw [hm]
  rfl

lemma bind_error {m : HeapM α} {e : Fault} (hm : m h = .error e) :
    (m >>= g) h = .error e := by
  show (m h >>= fun x => g x.1 x.2) = _
  rw [hm]
  rfl

lemma get_run : (get : HeapM TlsfHeap) h = .ok (h, h) := rfl

lemma pure_run (a : α) : (pure a : HeapM α) h = .ok (a, h) := rfl

lemma modify_run (g : TlsfHeap → TlsfHeap) : (modify g : HeapM Unit) h = .ok ((), g h) := rfl

lemma check_run {c : Bool} (hc : c = true) : check c h = .ok ((), h) := by
  rw [check, if_pos hc]
  rfl

lemma check_error {c : Bool} (hc : c = false) : check c h = .error .bugCheck := by
  rw [check, if_neg (by simp [hc])]
  rfl

lemma deref_run (hb : h.blocks b = some k) : deref b h = .ok (k, h) := by
  rw [deref, hb]

lemma deref_error (hb : h.blocks b = none) : deref b h = .error .badAccess := by
  rw [deref, hb]

lemma nonNull_run : nonNull (some b) h = .ok (b, h) := rfl

lemma assumePositive_run {size : Nat} (hs : 0 < size) : assumePositive size h = .ok ((), h) := by
  rw [assumePositive, if_pos hs]
  rfl

lemma shiftLeft_run {n : Nat} (x : BitVec 32) (hn : n < kBitMapDigits) :
    shiftLeft x n h = .ok (x <<< n, h) := by
  rw [shiftLeft, if_pos hn]
  rfl

lemma getFreeList_run {i : Nat} (hi : i < h.mFreeListCount) :
    getFreeList i h = .ok (h.mFreeList i, h) := by
  rw [getFreeList, if_pos hi]

lemma setFreeList_run {i : Nat} (hi : i < h.mFreeListCount) :
    setFreeList i p h = .ok ((), { h with mFreeList := update h.mFreeList i p }) := by
  rw [setFreeList, if_pos hi]

lemma getInner_run {c : Nat} (hc : c < kMaxMemoryClass) :
    getInner c h = .ok (h.mInnerFreeMap c, h) := by
  rw [getInner, if_pos hc]

lemma setInner_run {c : Nat} (hc : c < kMaxMemoryClass) :
    setInner c m h = .ok ((), { h with mInnerFreeMap := update h.mInnerFreeMap c m }) := by
  rw [setInner, if_pos hc]

/-! ## Fields -/

namespace TlsfHeap

variable (h)

def nextOf (b : BlockPtr) : Option BlockPtr := (h.blocks b).bind TlsfBlock.next
def prevOf (b : BlockPtr) : Option BlockPtr := (h.blocks b).bind TlsfBlock.prev
def nextFreeOf (b : BlockPtr) : Option BlockPtr := (h.blocks b).bind TlsfBlock.nextFree
def prevFreeOf (b : BlockPtr) : Option BlockPtr := (h.blocks b).bind TlsfBlock.prevFree

/-- The heap after assignments to fields of the block at `p`, if there is one. -/
def edit (p : Option BlockPtr) (f : TlsfBlock → TlsfBlock) : TlsfHeap :=
  { h with blocks := fun a => if p = some a then (h.blocks a).map f else h.blocks a }

end TlsfHeap

lemma blocks_edit (a : BlockPtr) :
    (h.edit p f).blocks a = if p = some a then (h.blocks a).map f else h.blocks a := rfl

lemma edit_none : h.edit none f = h := by
  simp [TlsfHeap.edit]

lemma write_run (hb : (h.blocks b).isSome) : write b f h = .ok ((), h.edit (some b) f) := by
  obtain ⟨k, hk⟩ := isSome_iff_exists.1 hb
  have hedit : h.setBlock b (some (f k)) = h.edit (some b) f := by
    simp only [TlsfHeap.setBlock, TlsfHeap.edit, TlsfHeap.mk.injEq, true_and, and_true]
    funext a
    by_cases ha : a = b
    · subst ha
      simp [hk]
    · simp [update_of_ne ha, Ne.symm ha]
  rw [write, hk]
  exact congrArg (fun h' => Except.ok ((), h')) hedit

lemma writeIf_run (hp : ∀ b, p = some b → (h.blocks b).isSome) :
    writeIf p f h = .ok ((), h.edit p f) := by
  cases p with
  | none =>
    rw [edit_none]
    rfl
  | some b => exact write_run (hp b rfl)

@[simp] lemma isSome_edit (a : BlockPtr) :
    ((h.edit p f).blocks a).isSome = (h.blocks a).isSome := by
  rw [blocks_edit]
  split <;> simp

/-- The fields of a block that the list operations leave alone. -/
structure Core where
  offset : Nat
  size : Nat
  prev : Option BlockPtr
  next : Option BlockPtr

def TlsfBlock.core (k : TlsfBlock) : Core := ⟨k.offset, k.size, k.prev, k.next⟩

/-- The fields of a heap that the list operations leave alone. -/
structure Header where
  mSize : Nat
  mReserved : Nat
  mMallocCount : Nat
  mFreeCount : Nat
  mBlockPool : PoolAllocator
  mNullBlock : BlockPtr
  mFreeListCount : Nat

def TlsfHeap.header (h : TlsfHeap) : Header :=
  ⟨h.mSize, h.mReserved, h.mMallocCount, h.mFreeCount, h.mBlockPool, h.mNullBlock, h.mFreeListCount⟩

@[simp] lemma header_edit : (h.edit p f).header = h.header := rfl

@[simp] lemma mBlockPool_edit : (h.edit p f).mBlockPool = h.mBlockPool := rfl

/-- `h'` differs from `h` in its lists and bitmaps only. -/
structure SameCore (h h' : TlsfHeap) : Prop where
  core : ∀ a, (h'.blocks a).map TlsfBlock.core = (h.blocks a).map TlsfBlock.core
  header : h'.header = h.header

namespace SameCore

lemma refl (h : TlsfHeap) : SameCore h h := ⟨fun _ => rfl, rfl⟩

lemma trans {h'' : TlsfHeap} (h1 : SameCore h h') (h2 : SameCore h' h'') : SameCore h h'' :=
  ⟨fun a => (h2.core a).trans (h1.core a), h2.header.trans h1.header⟩

lemma edit (hf : ∀ k, (f k).core = k.core) : SameCore h (h.edit p f) := by
  refine ⟨fun a => ?_, rfl⟩
  rw [blocks_edit]
  split
  · cases h.blocks a <;> simp [hf]
  · rfl

section

variable (hs : SameCore h h')

include hs

lemma isSome (a : BlockPtr) :
    (h'.blocks a).isSome = (h.blocks a).isSome := by
  have hcore := congrArg Option.isSome (hs.core a)
  simpa using hcore

lemma mNullBlock : h'.mNullBlock = h.mNullBlock :=
  congrArg Header.mNullBlock hs.header

lemma mFreeListCount : h'.mFreeListCount = h.mFreeListCount :=
  congrArg Header.mFreeListCount hs.header

lemma mBlockPool : h'.mBlockPool = h.mBlockPool :=
  congrArg Header.mBlockPool hs.header

end

end SameCore

/-! ## The lists of a heap -/

structure Headed (h : TlsfHeap) (lists : Nat → List BlockPtr) : Prop where
  head : ∀ i, h.mFreeList i = (lists i).head?
  inner : ∀ c s, s < 32 → ((h.mInnerFreeMap c).getLsbD s = true ↔ lists (32 * c + s) ≠ [])
  top : ∀ c < 32, (h.mTopLevelFreeMap.getLsbD c = true ↔ h.mInnerFreeMap c ≠ 0)

structure Listed (h : TlsfHeap) (lists : Nat → List BlockPtr) : Prop where
  thread : ∀ i, Threaded h.nextFreeOf h.prevFreeOf none (lists i) none
  nodup : ∀ i, (lists i).Nodup
  disjoint : ∀ i j a, a ∈ lists i → a ∈ lists j → i = j
  object : ∀ i, ∀ a ∈ lists i, (h.blocks a).isSome
  headed : Headed h lists

variable {lists : Nat → List BlockPtr} {i : Nat} {x y l : List BlockPtr}

lemma nextFreeOf_eq (hk : h.blocks b = some k) : h.nextFreeOf b = k.nextFree := by
  rw [TlsfHeap.nextFreeOf, hk]
  rfl

lemma prevFreeOf_eq (hk : h.blocks b = some k) : h.prevFreeOf b = k.prevFree := by
  rw [TlsfHeap.prevFreeOf, hk]
  rfl

lemma Listed.neighbours (hl : Listed h lists) (hi : lists i = x ++ b :: y)
    (hk : h.blocks b = some k) : k.prevFree = x.getLast? ∧ k.nextFree = y.head? := by
  have hthread := hl.thread i
  rw [hi, middle_iff, nextFreeOf_eq hk, prevFreeOf_eq hk] at hthread
  exact ⟨by simpa using hthread.2.1, by simpa using hthread.2.2.1⟩

lemma Listed.isFree (hl : Listed h lists) (hb : b ∈ lists i) (hk : h.blocks b = some k) :
    k.isFree b = true := by
  obtain ⟨x, y, hi⟩ := append_of_mem hb
  have hnodup := hl.nodup i
  rw [hi] at hnodup
  have hnot : b ∉ x := fun hx => (nodup_append.1 hnodup).2.2 b hx b (by simp) rfl
  rw [TlsfBlock.isFree, (hl.neighbours hi hk).1, bne_iff_ne]
  exact fun hlast => hnot (mem_of_getLast? hlast)

/-! ## Bits -/

/-- `1u << n`. -/
abbrev bit32 (n : Nat) : BitVec 32 := (1 : BitVec 32) <<< n

lemma getLsbD_clear (m : BitVec 32) {s j : Nat} (hj : j < 32) :
    (m &&& ~~~ bit32 s).getLsbD j = (m.getLsbD j && decide (j ≠ s)) := by
  grind

lemma getLsbD_set (m : BitVec 32) {s j : Nat} (hj : j < 32) :
    (m ||| bit32 s).getLsbD j = (m.getLsbD j || decide (j = s)) := by
  simp only [bit32, BitVec.ofNat_eq_ofNat, BitVec.getLsbD_or, hj, decide_true,
    BitVec.getLsbD_shiftLeft, BitVec.getLsbD_one, Bool.true_and]
  grind

lemma bitVec_ne_zero_iff : m ≠ 0 ↔ ∃ j < 32, m.getLsbD j = true := by
  constructor
  · intro hm
    by_contra hnone
    refine hm (BitVec.eq_of_getLsbD_eq fun j hj => ?_)
    rw [not_exists] at hnone
    have hj' := hnone j
    simp only [hj, true_and, Bool.not_eq_true] at hj'
    simpa using hj'
  · rintro ⟨j, hj, hbit⟩ rfl
    simp at hbit

/-- The bitmaps of `h'` are those of `h` but for one bit of the inner one and what follows from it
for the top one. -/
structure BitEdit (h h' : TlsfHeap) (c s : Nat) (v : Bool) : Prop where
  blocks : h'.blocks = h.blocks
  header : h'.header = h.header
  mFreeList : h'.mFreeList = h.mFreeList
  inner : ∀ c' s', s' < 32 → (h'.mInnerFreeMap c').getLsbD s' =
    if c' = c ∧ s' = s then v else (h.mInnerFreeMap c').getLsbD s'
  top : (∀ c < 32, (h.mTopLevelFreeMap.getLsbD c = true ↔ h.mInnerFreeMap c ≠ 0)) →
    ∀ c < 32, (h'.mTopLevelFreeMap.getLsbD c = true ↔ h'.mInnerFreeMap c ≠ 0)

lemma inner_update {c s : Nat} {v : Bool}
    (hm : ∀ s' < 32, m.getLsbD s' = if s' = s then v else (h.mInnerFreeMap c).getLsbD s')
    (c' s' : Nat) (hs' : s' < 32) : (update h.mInnerFreeMap c m c').getLsbD s' =
      if c' = c ∧ s' = s then v else (h.mInnerFreeMap c').getLsbD s' := by
  by_cases hc : c' = c
  · subst hc
    rw [update_self, hm s' hs']
    simp
  · rw [update_of_ne hc]
    simp [hc]

lemma clearBits_run {c s : Nat} (hc : c < kMaxMemoryClass) (hs : s < 32) (hc' : c < 32) :
    ∃ h', clearBits c s h = .ok ((), h') ∧ BitEdit h h' c s false := by
  have hrun : clearBits c s h = (do
      setInner c (h.mInnerFreeMap c &&& ~~~ bit32 s)
      if h.mInnerFreeMap c &&& ~~~ bit32 s = 0 then
        let bit ← shiftLeft 1 c
        modify fun h => { h with mTopLevelFreeMap := h.mTopLevelFreeMap &&& ~~~ bit }
      else pure () : HeapM Unit) h := by
    rw [clearBits, bind_run (getInner_run hc), bind_run (shiftLeft_run 1 hs)]
  have hbits : ∀ s' < 32, (h.mInnerFreeMap c &&& ~~~ bit32 s).getLsbD s' =
      if s' = s then false else (h.mInnerFreeMap c).getLsbD s' := by
    intro s' hs'
    rw [getLsbD_clear _ hs']
    by_cases heq : s' = s <;> simp [heq]
  have hkeep : h.mInnerFreeMap c = 0 → h.mInnerFreeMap c &&& ~~~ bit32 s = 0 := by
    intro hzero
    rw [hzero]
    exact BitVec.zero_and
  generalize h.mInnerFreeMap c &&& ~~~ bit32 s = m at hrun hbits hkeep
  rw [bind_run (setInner_run hc)] at hrun
  by_cases hzero : m = 0
  · rw [if_pos hzero, bind_run (shiftLeft_run 1 hc')] at hrun
    refine ⟨_, hrun, rfl, rfl, rfl, inner_update hbits, ?_⟩
    intro hold d hd
    show (h.mTopLevelFreeMap &&& ~~~ bit32 c).getLsbD d = true ↔
      update h.mInnerFreeMap c m d ≠ 0
    rw [getLsbD_clear _ hd]
    by_cases hdc : d = c
    · subst hdc
      rw [update_self]
      simpa using hzero
    · rw [update_of_ne hdc, ← hold d hd]
      simp [hdc]
  · rw [if_neg hzero] at hrun
    refine ⟨_, hrun, rfl, rfl, rfl, inner_update hbits, ?_⟩
    intro hold d hd
    show h.mTopLevelFreeMap.getLsbD d = true ↔ update h.mInnerFreeMap c m d ≠ 0
    by_cases hdc : d = c
    · subst hdc
      rw [hold d hd, update_self]
      exact ⟨fun _ => hzero, fun _ => mt hkeep hzero⟩
    · rw [update_of_ne hdc, ← hold d hd]

lemma setBits_run {c s : Nat} (hc : c < kMaxMemoryClass) (hs : s < 32) (hc' : c < 32) :
    ∃ h', setBits c s h = .ok ((), h') ∧ BitEdit h h' c s true := by
  have hrun : setBits c s h = (do
      setInner c (h.mInnerFreeMap c ||| bit32 s)
      let bit ← shiftLeft 1 c
      modify fun h => { h with mTopLevelFreeMap := h.mTopLevelFreeMap ||| bit } : HeapM Unit) h := by
    rw [setBits, bind_run (getInner_run hc), bind_run (shiftLeft_run 1 hs)]
  have hbits : ∀ s' < 32, (h.mInnerFreeMap c ||| bit32 s).getLsbD s' =
      if s' = s then true else (h.mInnerFreeMap c).getLsbD s' := by
    intro s' hs'
    rw [getLsbD_set _ hs']
    by_cases heq : s' = s <;> simp [heq]
  generalize h.mInnerFreeMap c ||| bit32 s = m at hrun hbits
  rw [bind_run (setInner_run hc), bind_run (shiftLeft_run 1 hc')] at hrun
  refine ⟨_, hrun, rfl, rfl, rfl, inner_update hbits, ?_⟩
  intro hold d hd
  show (h.mTopLevelFreeMap ||| bit32 c).getLsbD d = true ↔
    update h.mInnerFreeMap c m d ≠ 0
  rw [getLsbD_set _ hd]
  by_cases hdc : d = c
  · subst hdc
    rw [update_self, bitVec_ne_zero_iff]
    simp only [decide_true, Bool.or_true, true_iff]
    exact ⟨s, hs, by rw [hbits s hs, if_pos rfl]⟩
  · rw [update_of_ne hdc, ← hold d hd]
    simp [hdc]

/-! ## Taking a block out of its list -/

/-- The links of `h'` are those of `h` with `b` cut out between `x` and `y`. -/
structure Unlinked (h h' : TlsfHeap) (b : BlockPtr) (x y : List BlockPtr) : Prop where
  nextFree : ∀ a, h'.nextFreeOf a = if x.getLast? = some a then y.head? else h.nextFreeOf a
  prevFree : ∀ a, a ≠ b →
    h'.prevFreeOf a = if y.head? = some a then x.getLast? else h.prevFreeOf a

/-- A list operation on `b` that leaves the lists `lists'`: only blocks of `touched` and `b` itself
change, and of the marks only that of `b`. -/
structure Relists (h h' : TlsfHeap) (lists' : Nat → List BlockPtr) (b : BlockPtr)
    (touched : List BlockPtr) (taken : Prop) : Prop where
  core : SameCore h h'
  listed : Listed h' lists'
  mark : h'.prevFreeOf b = some b ↔ taken
  marks : ∀ a, a ≠ b → (h'.prevFreeOf a = some a ↔ h.prevFreeOf a = some a)
  frame : ∀ a, a ≠ b → a ∉ touched → h'.blocks a = h.blocks a

section

variable (hl : Listed h lists) (hi : lists i = x ++ b :: y)

include hl hi

lemma Listed.split_nodup :
    b ∉ x ∧ b ∉ y ∧ x.Nodup ∧ y.Nodup ∧ ∀ a ∈ x, a ∉ y := by
  have hnodup := hl.nodup i
  rw [hi] at hnodup
  obtain ⟨hx, hby, hne⟩ := nodup_append.1 hnodup
  obtain ⟨hb, hy⟩ := nodup_cons.1 hby
  exact ⟨fun hbx => hne b hbx b (by simp) rfl, hb, hx, hy,
    fun a ha hay => hne a ha a (mem_cons_of_mem _ hay) rfl⟩

lemma Listed.thread_unlinked (hu : Unlinked h h' b x y) (j : Nat) :
    Threaded h'.nextFreeOf h'.prevFreeOf none (update lists i (x ++ y) j) none := by
  obtain ⟨hbx, hby, hx, hy, hxy⟩ := hl.split_nodup hi
  by_cases hj : j = i
  · subst hj
    rw [update_self]
    have hthread := hl.thread j
    rw [hi, middle_iff] at hthread
    obtain ⟨hthx, -, -, hthy⟩ := hthread
    refine append_iff.2 ⟨?_, ?_⟩
    · refine hthx.turn_last hx (fun a ha => ?_) (fun a _ hlast => ?_) (fun a hlast => ?_)
      · have hab : a ≠ b := fun heq => hbx (heq ▸ ha)
        have hhead : y.head? ≠ some a := fun hhead => hxy a ha (mem_of_mem_head? hhead)
        rw [hu.prevFree a hab, if_neg hhead]
      · rw [hu.nextFree, if_neg hlast]
      · rw [hu.nextFree, if_pos hlast]
        simp
    · refine hthy.turn_first hy (fun a ha => ?_) (fun a ha hfirst => ?_) (fun a hfirst => ?_)
      · have hlast : x.getLast? ≠ some a := fun hlast => hxy a (mem_of_getLast? hlast) ha
        rw [hu.nextFree, if_neg hlast]
      · have hab : a ≠ b := fun heq => hby (heq ▸ ha)
        rw [hu.prevFree a hab, if_neg hfirst]
      · have hab : a ≠ b := fun heq => hby (heq ▸ mem_of_mem_head? hfirst)
        rw [hu.prevFree a hab, if_pos hfirst]
        simp
  · rw [update_of_ne hj]
    have hother : ∀ a ∈ lists j, a ∉ lists i := fun a ha hai => hj (hl.disjoint j i a ha hai)
    rw [hi] at hother
    refine (hl.thread j).congr (fun a ha => ?_) (fun a ha => ?_)
    · have hlast : x.getLast? ≠ some a := fun hlast =>
        hother a ha (mem_append_left _ (mem_of_getLast? hlast))
      rw [hu.nextFree, if_neg hlast]
    · have hab : a ≠ b := fun heq => hother a ha (by simp [heq])
      have hhead : y.head? ≠ some a := fun hhead =>
        hother a ha (mem_append_right _ (mem_cons_of_mem _ (mem_of_mem_head? hhead)))
      rw [hu.prevFree a hab, if_neg hhead]

lemma Listed.marks_unlinked (hu : Unlinked h h' b x y) {a : BlockPtr} (hab : a ≠ b) :
    h'.prevFreeOf a = some a ↔ h.prevFreeOf a = some a := by
  obtain ⟨-, hby, -, -, hxy⟩ := hl.split_nodup hi
  rw [hu.prevFree a hab]
  split
  case isFalse => rfl
  case isTrue hhead =>
    have hthread := hl.thread i
    rw [hi, middle_iff] at hthread
    have hprev := hthread.2.2.2.prev_head hhead
    have hay := mem_of_mem_head? hhead
    constructor
    · exact fun hlast => absurd hay (hxy a (mem_of_getLast? hlast))
    · intro hself
      rw [hprev] at hself
      exact absurd (Option.some.inj hself).symm hab

end

lemma Listed.sublist (hl : Listed h lists) (hsub : l.Sublist (lists i)) :
    (∀ j, (update lists i l j).Nodup) ∧
    (∀ j, update lists i l j ⊆ lists j) := by
  constructor
  · intro j
    by_cases hj : j = i
    · subst hj
      rw [update_self]
      exact (hl.nodup j).sublist hsub
    · rw [update_of_ne hj]
      exact hl.nodup j
  · intro j
    by_cases hj : j = i
    · subst hj
      rw [update_self]
      exact hsub.subset
    · rw [update_of_ne hj]
      exact Subset.refl _

lemma edit_prevFree (v : Option BlockPtr) (hp : ∀ a, p = some a → (h.blocks a).isSome) :
    ((h.edit p fun n => { n with prevFree := v }).nextFreeOf = h.nextFreeOf) ∧
    ∀ a, (h.edit p fun n => { n with prevFree := v }).prevFreeOf a =
      if p = some a then v else h.prevFreeOf a := by
  constructor
  · funext a
    simp only [TlsfHeap.nextFreeOf, blocks_edit]
    split <;> cases h.blocks a <;> rfl
  · intro a
    simp only [TlsfHeap.prevFreeOf, blocks_edit]
    split
    case isTrue hpa =>
      obtain ⟨k, hk⟩ := isSome_iff_exists.1 (hp a hpa)
      rw [hk]
      rfl
    case isFalse => rfl

lemma edit_nextFree (v : Option BlockPtr) (hp : ∀ a, p = some a → (h.blocks a).isSome) :
    ((h.edit p fun n => { n with nextFree := v }).prevFreeOf = h.prevFreeOf) ∧
    ∀ a, (h.edit p fun n => { n with nextFree := v }).nextFreeOf a =
      if p = some a then v else h.nextFreeOf a := by
  constructor
  · funext a
    simp only [TlsfHeap.prevFreeOf, blocks_edit]
    split <;> cases h.blocks a <;> rfl
  · intro a
    simp only [TlsfHeap.nextFreeOf, blocks_edit]
    split
    case isTrue hpa =>
      obtain ⟨k, hk⟩ := isSome_iff_exists.1 (hp a hpa)
      rw [hk]
      rfl
    case isFalse => rfl

lemma Headed.exchange (hl : Headed h lists) (l : List BlockPtr)
    (hhead : ∀ j, h'.mFreeList j = if j = i then l.head? else h.mFreeList j)
    (hinner : ∀ c s, s < 32 → ((h'.mInnerFreeMap c).getLsbD s = true ↔
      if 32 * c + s = i then l ≠ [] else (h.mInnerFreeMap c).getLsbD s = true))
    (htop : ∀ c < 32, (h'.mTopLevelFreeMap.getLsbD c = true ↔ h'.mInnerFreeMap c ≠ 0)) :
    Headed h' (update lists i l) := by
  refine ⟨fun j => ?_, fun c s hs => ?_, htop⟩
  · rw [hhead]
    by_cases hji : j = i
    · subst hji
      rw [if_pos rfl, update_self]
    · rw [if_neg hji, update_of_ne hji]
      exact hl.head j
  · rw [hinner c s hs]
    by_cases hji : 32 * c + s = i
    · subst hji
      rw [if_pos rfl, update_self]
    · rw [if_neg hji, update_of_ne hji]
      exact hl.inner c s hs

lemma Headed.exchange_nonempty (hl : Headed h lists) (hold : lists i ≠ []) (hnew : l ≠ [])
    (hmap : h'.mInnerFreeMap = h.mInnerFreeMap) (htopMap : h'.mTopLevelFreeMap = h.mTopLevelFreeMap)
    (hhead : ∀ j, h'.mFreeList j = if j = i then l.head? else h.mFreeList j) :
    Headed h' (update lists i l) := by
  refine hl.exchange l hhead (fun c s hs => ?_) ?_
  · rw [hmap]
    split
    case isTrue hi =>
      rw [hl.inner c s hs, hi]
      exact ⟨fun _ => hnew, fun _ => hold⟩
    case isFalse => rfl
  · rw [hmap, htopMap]
    exact hl.top

lemma getListIndex_bit {c s size : Nat} (hs : s < 32) :
    32 * c + s = getListIndex size ↔ c = sizeToMemoryClass size ∧ s = secondIndex size := by
  have hlt := secondIndex_lt size
  rw [getListIndex_eq]
  omega

lemma unlinkBefore_run (hl : Listed h lists) (hi : lists i = x ++ b :: y)
    (hk : h.blocks b = some k) (hsize : getListIndex k.size = i) (hpos : 0 < k.size)
    (hsafe : BlockIndicesSafe h.mFreeListCount k.size)
    {h1 : TlsfHeap} (hsame : SameCore h h1) (hfree : h1.mFreeList = h.mFreeList)
    (hinner : h1.mInnerFreeMap = h.mInnerFreeMap)
    (htop : h1.mTopLevelFreeMap = h.mTopLevelFreeMap)
    (hp : ∀ p kp, k.prevFree = some p → h1.blocks p = some kp → kp.isFree p = true) :
    ∃ h', unlinkBefore k h1 = .ok ((), h') ∧ h'.header = h1.header ∧
      h'.blocks = (h1.edit k.prevFree fun p => { p with nextFree := k.nextFree }).blocks ∧
      Headed h' (update lists i (x ++ y)) := by
  obtain ⟨hprev, hnext⟩ := hl.neighbours hi hk
  have hcount := hsame.mFreeListCount
  have hlist : getListIndexOf (sizeToMemoryClass k.size)
      (sizeToSecondIndex k.size (sizeToMemoryClass k.size)) = i := hsize
  have hlt : i < h1.mFreeListCount := by
    rw [hcount, ← hsize]
    exact hsafe.list
  rcases eq_nil_or_concat x with rfl | ⟨x', p, rfl⟩
  · -- The block is the first of its list: the head goes on to the next one.
    have hnone : k.prevFree = none := by simpa using hprev
    rw [nil_append]
    by_cases hy : y = []
    · have hnextNone : k.nextFree = none := by rw [hnext, hy]; rfl
      obtain ⟨h', hrun, hbit⟩ := clearBits_run
        (h := { h1 with mFreeList := update h1.mFreeList i k.nextFree })
        hsafe.inner (secondIndex_lt k.size) hsafe.topBit
      refine ⟨h', ?_, hbit.header, ?_, ?_⟩
      · rw [unlinkBefore, hnone]
        simp only
        rw [bind_run (assumePositive_run hpos), hlist, bind_run (setFreeList_run hlt),
          if_pos hnextNone]
        exact hrun
      · rw [hbit.blocks, hnone, edit_none]
      · refine hl.headed.exchange y (fun j => ?_) (fun c s hs => ?_) (hbit.top ?_)
        · rw [hbit.mFreeList, ← hfree, ← hnext]
          exact update_apply ..
        · rw [hbit.inner c s hs]
          simp only [← hsize, getListIndex_bit hs, hy, hinner, secondIndex]
          split <;> simp
        · rw [hinner, htop]
          exact hl.headed.top
    · have hnextSome : k.nextFree ≠ none := by
        rw [hnext]
        simpa using hy
      refine ⟨{ h1 with mFreeList := update h1.mFreeList i k.nextFree }, ?_, rfl, ?_, ?_⟩
      · rw [unlinkBefore, hnone]
        simp only
        rw [bind_run (assumePositive_run hpos), hlist, bind_run (setFreeList_run hlt),
          if_neg hnextSome]
        rfl
      · rw [hnone, edit_none]
      · refine hl.headed.exchange_nonempty (by simp [hi]) hy hinner htop (fun j => ?_)
        rw [← hfree, ← hnext]
        exact update_apply ..
  · have hsome : k.prevFree = some p := by simpa using hprev
    have hmem : p ∈ lists i := by simp [hi]
    obtain ⟨kp, hkp⟩ := isSome_iff_exists.1 ((hsame.isSome p).trans (hl.object i p hmem))
    refine ⟨h1.edit k.prevFree fun p => { p with nextFree := k.nextFree }, ?_, rfl, rfl, ?_⟩
    · rw [unlinkBefore, hsome]
      simp only
      rw [bind_run (deref_run hkp), bind_run (check_run (hp p kp hsome hkp))]
      exact write_run (by simp [hkp])
    · refine hl.headed.exchange_nonempty (by simp [hi]) (by simp) hinner htop (fun j => ?_)
      show h1.mFreeList j = _
      split
      case isTrue hj =>
        subst hj
        rw [hfree, hl.headed.head j, hi]
        cases x' <;> simp
      case isFalse => rw [hfree]

lemma takeBlockFromFreeList_run (hl : Listed h lists) (hi : lists i = x ++ b :: y)
    (hk : h.blocks b = some k) (hsize : getListIndex k.size = i) (hpos : 0 < k.size)
    (hsafe : BlockIndicesSafe h.mFreeListCount k.size) (hnull : b ≠ h.mNullBlock) :
    ∃ h', takeBlockFromFreeList b h = .ok ((), h') ∧
      Relists h h' (update lists i (x ++ y)) b (lists i) True := by
  obtain ⟨hprev, hnext⟩ := hl.neighbours hi hk
  obtain ⟨hbx, hby, -, -, hxy⟩ := hl.split_nodup hi
  have hmem : ∀ a, a ∈ lists i → (h.blocks a).isSome := hl.object i
  have hnextMem : ∀ a, k.nextFree = some a → a ∈ lists i := by
    intro a ha
    rw [hnext] at ha
    simp [hi, mem_of_mem_head? ha]
  have hprevMem : ∀ a, k.prevFree = some a → a ∈ lists i := by
    intro a ha
    rw [hprev] at ha
    simp [hi, mem_of_getLast? ha]
  -- First the back link of the next block, then the link that leads to `b`, then the mark of `b`.
  have hwrite := writeIf_run (f := fun n => { n with prevFree := k.prevFree })
    fun a ha => hmem a (hnextMem a ha)
  obtain ⟨hnf1, hpf1⟩ := edit_prevFree k.prevFree
    fun a ha => hmem a (hnextMem a ha)
  have hsame1 : SameCore h (h.edit k.nextFree fun n => { n with prevFree := k.prevFree }) :=
    SameCore.edit fun _ => rfl
  generalize hh1 : (h.edit k.nextFree fun n => { n with prevFree := k.prevFree }) = h1
    at hwrite hnf1 hpf1 hsame1
  obtain ⟨h2, hunlink, hheader2, hblocks2, hheaded2⟩ :=
    unlinkBefore_run hl hi hk hsize hpos hsafe hsame1 (by rw [← hh1]; rfl) (by rw [← hh1]; rfl)
      (by rw [← hh1]; rfl) (by
        intro p kp hp hkp
        have hpx : p ∈ x := mem_of_getLast? (hprev.symm.trans hp)
        have hpnext : k.nextFree ≠ some p := by
          rw [hnext]
          exact fun hhead => hxy p hpx (mem_of_mem_head? hhead)
        have hkp' : h.blocks p = some kp := by
          rw [← hkp, ← hh1, blocks_edit, if_neg hpnext]
        exact hl.isFree (hprevMem p hp) hkp')
  have hsome1 : ∀ a, (h1.blocks a).isSome = (h.blocks a).isSome := hsame1.isSome
  obtain ⟨hpf2, hnf2⟩ := edit_nextFree k.nextFree
    fun a ha => (hsome1 a).trans (hmem a (hprevMem a ha))
  have hsame2 : SameCore h1 h2 :=
    have hedit := SameCore.edit
      (f := fun p => { p with nextFree := k.nextFree }) fun _ => rfl
    ⟨fun a => by rw [hblocks2]; exact hedit.core a, hheader2⟩
  have hsome2 : ∀ a, (h2.blocks a).isSome = (h1.blocks a).isSome := hsame2.isSome
  have hbsome : (h2.blocks b).isSome := by rw [hsome2, hsome1, hk]; rfl
  obtain ⟨hnf3, hpf3⟩ := edit_prevFree (p := some b) (some b)
    fun a ha => by cases ha; exact hbsome
  have hsame3 : SameCore h2 (h2.edit (some b) fun n => { n with prevFree := some b }) :=
    SameCore.edit fun _ => rfl
  have hfields : h2.nextFreeOf = (h1.edit k.prevFree fun p => { p with nextFree := k.nextFree }).nextFreeOf
      ∧ h2.prevFreeOf = (h1.edit k.prevFree fun p => { p with nextFree := k.nextFree }).prevFreeOf := by
    constructor <;> funext a <;> simp only [TlsfHeap.nextFreeOf, TlsfHeap.prevFreeOf, hblocks2]
  have hu : Unlinked h (h2.edit (some b) fun n => { n with prevFree := some b }) b x y := by
    constructor
    · intro a
      rw [hnf3, hfields.1, hnf2, hnf1, hprev, hnext]
    · intro a hab
      rw [hpf3, if_neg (by simpa using Ne.symm hab), hfields.2, hpf2, hpf1, hprev, hnext]
  have hsame := (hsame1.trans hsame2).trans hsame3
  refine ⟨h2.edit (some b) fun n => { n with prevFree := some b }, ?_, ?_⟩
  · have hfree : k.isFree b = true := hl.isFree (i := i) (by simp [hi]) hk
    rw [takeBlockFromFreeList, bind_run get_run, bind_run (check_run (bne_iff_ne.2 hnull)),
      bind_run (deref_run hk), bind_run (check_run hfree), bind_run hwrite, bind_run hunlink]
    exact write_run hbsome
  · obtain ⟨hnodup, hsub⟩ := hl.sublist (l := x ++ y) (by
      rw [hi]
      exact Sublist.append_left (sublist_cons_self ..) x)
    refine ⟨hsame, ⟨hl.thread_unlinked hi hu, hnodup, ?_, ?_, ?_⟩, ?_, ?_, ?_⟩
    · exact fun j j' a ha ha' => hl.disjoint j j' a (hsub j ha) (hsub j' ha')
    · exact fun j a ha => (hsame.isSome a).trans (hl.object j a (hsub j ha))
    · exact ⟨hheaded2.head, hheaded2.inner, hheaded2.top⟩
    · rw [hpf3, if_pos rfl]
      simp
    · exact fun a hab => hl.marks_unlinked hi hu hab
    · intro a hab hat
      rw [blocks_edit, if_neg (by simpa using Ne.symm hab), hblocks2, blocks_edit,
        if_neg fun hp => hat (hprevMem a hp), ← hh1, blocks_edit,
        if_neg fun hn => hat (hnextMem a hn)]

/-! ## Putting a block at the front of a list -/

/-- The links of `h'` are those of `h` with `b` put before `l`. -/
structure Pushed (h h' : TlsfHeap) (b : BlockPtr) (l : List BlockPtr) : Prop where
  nextFree : ∀ a, h'.nextFreeOf a = if a = b then l.head? else h.nextFreeOf a
  prevFree : ∀ a, h'.prevFreeOf a =
    if a = b then none else if l.head? = some a then some b else h.prevFreeOf a

lemma Listed.push (hl : Listed h lists) (hb : ∀ j, b ∉ lists j) (hsome : (h.blocks b).isSome)
    (hsame : SameCore h h') (hpush : Pushed h h' b (lists i))
    (hheaded : Headed h' (update lists i (b :: lists i))) :
    Listed h' (update lists i (b :: lists i)) := by
  have hcases : ∀ j a, a ∈ update lists i (b :: lists i) j → (a = b ∧ j = i) ∨ a ∈ lists j := by
    intro j a ha
    by_cases hj : j = i
    · subst hj
      rw [update_self] at ha
      exact (List.mem_cons.1 ha).imp (fun hab => ⟨hab, rfl⟩) id
    · rw [update_of_ne hj] at ha
      exact .inr ha
  have hne : ∀ j, ∀ a ∈ lists j, a ≠ b := fun j a ha heq => hb j (heq ▸ ha)
  have hnext : ∀ j, ∀ a ∈ lists j, h'.nextFreeOf a = h.nextFreeOf a := fun j a ha => by
    rw [hpush.nextFree, if_neg (hne j a ha)]
  refine ⟨fun j => ?_, fun j => ?_, ?_, fun j a ha => ?_, hheaded⟩
  · by_cases hj : j = i
    · subst hj
      rw [update_self]
      refine ⟨?_, ?_, ?_⟩
      · rw [hpush.prevFree, if_pos rfl]
      · rw [hpush.nextFree, if_pos rfl]
        simp
      · refine (hl.thread j).turn_first (hl.nodup j) (hnext j) (fun a ha hfirst => ?_)
          (fun a hfirst => ?_)
        · rw [hpush.prevFree, if_neg (hne j a ha), if_neg hfirst]
        · rw [hpush.prevFree, if_neg (hne j a (mem_of_mem_head? hfirst)), if_pos hfirst]
    · rw [update_of_ne hj]
      refine (hl.thread j).congr (hnext j) (fun a ha => ?_)
      rw [hpush.prevFree, if_neg (hne j a ha), if_neg]
      exact fun hhead => hj (hl.disjoint j i a ha (mem_of_mem_head? hhead))
  · by_cases hj : j = i
    · subst hj
      rw [update_self]
      exact nodup_cons.2 ⟨hb j, hl.nodup j⟩
    · rw [update_of_ne hj]
      exact hl.nodup j
  · intro j j' a ha ha'
    rcases hcases j a ha with ⟨rfl, rfl⟩ | haj
    · rcases hcases j' a ha' with ⟨-, rfl⟩ | haj'
      · rfl
      · exact absurd haj' (hb j')
    · rcases hcases j' a ha' with ⟨rfl, rfl⟩ | haj'
      · exact absurd haj (hb j)
      · exact hl.disjoint j j' a haj haj'
  · rw [hsame.isSome]
    rcases hcases j a ha with ⟨rfl, -⟩ | haj
    · exact hsome
    · exact hl.object j a haj

lemma Listed.marks_pushed (hl : Listed h lists)
    (hpush : Pushed h h' b (lists i)) {a : BlockPtr} (hab : a ≠ b) :
    h'.prevFreeOf a = some a ↔ h.prevFreeOf a = some a := by
  rw [hpush.prevFree, if_neg hab]
  split
  case isFalse => rfl
  case isTrue hhead =>
    have hprev := (hl.thread i).prev_head hhead
    constructor
    · exact fun hself => absurd (Option.some.inj hself).symm hab
    · intro hself
      rw [hprev] at hself
      cases hself

lemma pushed_edit (hsome : (h.blocks b).isSome) (l : List BlockPtr)
    (hl : ∀ a, l.head? = some a → (h.blocks a).isSome ∧ a ≠ b) :
    Pushed h ((h.edit (some b) fun n => { n with prevFree := none, nextFree := l.head? }).edit
      l.head? fun n => { n with prevFree := some b }) b l := by
  obtain ⟨k, hk⟩ := isSome_iff_exists.1 hsome
  constructor
  · intro a
    simp only [TlsfHeap.nextFreeOf, blocks_edit]
    by_cases hab : a = b
    · subst hab
      have hne : l.head? ≠ some a := fun hhead => (hl a hhead).2 rfl
      simp [hne, hk]
    · simp only [hab, Option.some.injEq, Ne.symm hab, if_false]
      split <;> cases h.blocks a <;> rfl
  · intro a
    simp only [TlsfHeap.prevFreeOf, blocks_edit]
    by_cases hab : a = b
    · subst hab
      have hne : l.head? ≠ some a := fun hhead => (hl a hhead).2 rfl
      simp [hne, hk]
    · simp only [hab, Option.some.injEq, Ne.symm hab, if_false]
      split
      case isTrue hhead =>
        obtain ⟨ka, hka⟩ := isSome_iff_exists.1 (hl a hhead).1
        rw [hka]
        rfl
      case isFalse => rfl

lemma Pushed.of_blocks {h'' : TlsfHeap} (hpush : Pushed h h' b l) (heq : h''.blocks = h'.blocks) :
    Pushed h h'' b l := by
  constructor
  · intro a
    rw [← hpush.nextFree a, TlsfHeap.nextFreeOf, heq]
    rfl
  · intro a
    rw [← hpush.prevFree a, TlsfHeap.prevFreeOf, heq]
    rfl

lemma Listed.relists_push (hl : Listed h lists) (hb : ∀ j, b ∉ lists j)
    (hsome : (h.blocks b).isSome) (hheader : h'.header = h.header)
    (hblocks : h'.blocks =
      ((h.edit (some b) fun n => { n with prevFree := none, nextFree := (lists i).head? }).edit
        (lists i).head? fun n => { n with prevFree := some b }).blocks)
    (hheaded : Headed h' (update lists i (b :: lists i))) :
    Relists h h' (update lists i (b :: lists i)) b (lists i) False := by
  have hhead : ∀ a, (lists i).head? = some a → (h.blocks a).isSome ∧ a ≠ b := by
    intro a ha
    have hmem := mem_of_mem_head? ha
    exact ⟨hl.object i a hmem, fun heq => hb i (heq ▸ hmem)⟩
  have hpush := (pushed_edit hsome (lists i) hhead).of_blocks hblocks
  have hsame : SameCore h h' := by
    refine ⟨fun a => ?_, hheader⟩
    rw [hblocks]
    have h1 := SameCore.edit (h := h) (p := some b)
      (f := fun n => { n with prevFree := none, nextFree := (lists i).head? }) fun _ => rfl
    exact (h1.trans (SameCore.edit
      (f := fun n => { n with prevFree := some b }) fun _ => rfl)).core a
  refine ⟨hsame, hl.push hb hsome hsame hpush hheaded, ?_, ?_, ?_⟩
  · rw [hpush.prevFree, if_pos rfl]
    simp
  · exact fun a hab => hl.marks_pushed hpush hab
  · intro a hab hat
    have hnot : ¬ (lists i).head? = some a := fun hh => hat (mem_of_mem_head? hh)
    rw [hblocks, blocks_edit, if_neg hnot, blocks_edit, if_neg (by simpa using Ne.symm hab)]

lemma releaseBlockToFreeList_run (hl : Listed h lists) (hb : ∀ j, b ∉ lists j)
    (hk : h.blocks b = some k) (hmark : k.prevFree = some b) (hsize : getListIndex k.size = i)
    (hpos : 0 < k.size) (hsafe : BlockIndicesSafe h.mFreeListCount k.size)
    (hnull : b ≠ h.mNullBlock) :
    ∃ h', releaseBlockToFreeList b h = .ok ((), h') ∧
      Relists h h' (update lists i (b :: lists i)) b (lists i) False := by
  have hlist : getListIndexOf (sizeToMemoryClass k.size)
      (sizeToSecondIndex k.size (sizeToMemoryClass k.size)) = i := hsize
  have hlt : i < h.mFreeListCount := by
    rw [← hsize]
    exact hsafe.list
  have hsome : (h.blocks b).isSome := by rw [hk]; rfl
  have hused : (!k.isFree b) = true := by simp [TlsfBlock.isFree, hmark]
  have hhead : h.mFreeList i = (lists i).head? := hl.headed.head i
  have hheads : ∀ j, update h.mFreeList i (some b) j =
      if j = i then (b :: lists i).head? else h.mFreeList j :=
    fun j => update_apply ..
  obtain ⟨h1, hh1⟩ : ∃ h1, h1 =
      h.edit (some b) fun n => { n with prevFree := none, nextFree := (lists i).head? } := ⟨_, rfl⟩
  obtain ⟨h2, hh2⟩ : ∃ h2 : TlsfHeap, h2 =
      { h1 with mFreeList := update h1.mFreeList i (some b) } := ⟨_, rfl⟩
  have hlt1 : i < h1.mFreeListCount := by rw [hh1]; exact hlt
  -- The block is written and becomes the head of the list.
  have hstart : releaseBlockToFreeList b h = (lists i).head?.elim
      (setBits (sizeToMemoryClass k.size) (sizeToSecondIndex k.size (sizeToMemoryClass k.size)))
      (fun n => write n fun n => { n with prevFree := some b }) h2 := by
    rw [releaseBlockToFreeList, bind_run get_run, bind_run (check_run (bne_iff_ne.2 hnull)),
      bind_run (deref_run hk), bind_run (check_run hused), bind_run (assumePositive_run hpos), hlist,
      bind_run (getFreeList_run hlt), hhead, bind_run (write_run hsome), ← hh1,
      bind_run (setFreeList_run hlt1)]
    subst hh2
    cases (lists i).head? <;> rfl
  rcases hempty : (lists i).head? with _ | n
  · obtain ⟨h', hbits, hbit⟩ := setBits_run hsafe.inner (secondIndex_lt k.size)
      hsafe.topBit
    rw [hempty] at hstart
    refine ⟨h', hstart.trans hbits, hl.relists_push hb hsome ?_ ?_ ?_⟩
    · rw [hbit.header, hh2, hh1]
      rfl
    · rw [hbit.blocks, hempty, edit_none, hh2, hh1, hempty]
    · refine hl.headed.exchange _ (fun j => ?_) (fun c s hs => ?_) (hbit.top ?_)
      · rw [hbit.mFreeList, hh2, hh1]
        exact hheads j
      · rw [hbit.inner c s hs, hh2, hh1]
        simp only [← hsize, getListIndex_bit hs, secondIndex]
        split
        · simp
        · rfl
      · rw [hh2, hh1]
        exact hl.headed.top
  · have hmem : n ∈ lists i := mem_of_mem_head? hempty
    have hnsome : (h2.blocks n).isSome := by
      rw [hh2, hh1]
      exact (isSome_edit n).trans (hl.object i n hmem)
    rw [hempty] at hstart
    refine ⟨_, hstart.trans (write_run hnsome), hl.relists_push hb hsome ?_ ?_ ?_⟩
    · rw [hh2, hh1]
      rfl
    · rw [hh2, hh1, hempty]
      rfl
    · refine hl.headed.exchange_nonempty (ne_nil_of_mem hmem) (by simp) ?_ ?_ ?_ <;>
        rw [hh2, hh1]
      · rfl
      · rfl
      · exact hheads

/-! ## Moving a block to the front of its list -/

lemma detachBlock_first (hk : h.blocks b = some k) (hfirst : k.prevFree = none) (i : Nat) :
    detachBlock b i h = .ok ((), h) := by
  rw [detachBlock, bind_run get_run, bind_run (deref_run hk)]
  split
  · rw [hfirst]
    rfl
  · rfl

lemma detachBlock_run (hl : Listed h lists) (hi : lists i = x ++ b :: y)
    (hk : h.blocks b = some k) (hlt : i < h.mFreeListCount) :
    ∃ h', detachBlock b i h = .ok ((), h') ∧
      Relists h h' (update lists i (b :: (x ++ y))) b (lists i) False := by
  obtain ⟨hprev, hnext⟩ := hl.neighbours hi hk
  obtain ⟨hbx, hby, -, -, hxy⟩ := hl.split_nodup hi
  have hfree : k.isFree b = true := hl.isFree (i := i) (by simp [hi]) hk
  rcases eq_nil_or_concat x with rfl | ⟨x', p, rfl⟩
  · have hsame : update lists i (b :: ([] ++ y)) = lists := by
      rw [nil_append, ← nil_append (b :: y), ← hi, update_eq_self]
    refine ⟨h, detachBlock_first hk (by simpa using hprev) i, ?_⟩
    rw [hsame]
    refine ⟨.refl h, hl, ?_, fun _ _ => Iff.rfl, fun _ _ _ => rfl⟩
    rw [prevFreeOf_eq hk, hprev]
    simp
  · rw [concat_eq_append] at *
    have hpi : p ∈ lists i := by simp [hi]
    obtain ⟨kp, hkp⟩ := isSome_iff_exists.1 (hl.object i p hpi)
    have hsome : k.prevFree = some p := by simpa using hprev
    have hnextMem : ∀ a, k.nextFree = some a → a ∈ lists i := by
      intro a ha
      rw [hnext] at ha
      simp [hi, mem_of_mem_head? ha]
    -- The block leaves its place, without a mark.
    obtain ⟨h1, hh1⟩ : ∃ h1, h1 = h.edit (some p) fun p => { p with nextFree := k.nextFree } :=
      ⟨_, rfl⟩
    obtain ⟨h2, hh2⟩ : ∃ h2, h2 = h1.edit k.nextFree fun n => { n with prevFree := some p } :=
      ⟨_, rfl⟩
    have hsome1 : ∀ a, (h1.blocks a).isSome = (h.blocks a).isSome := by
      intro a
      rw [hh1, isSome_edit]
    obtain ⟨hpf1, hnf1⟩ := edit_nextFree (p := some p) k.nextFree
      fun a ha => by cases ha; exact hl.object i p hpi
    obtain ⟨hnf2, hpf2⟩ := edit_prevFree (some p)
      fun a ha => (hsome1 a).trans (hl.object i a (hnextMem a ha))
    rw [← hh1] at hpf1 hnf1
    rw [← hh2] at hpf2 hnf2
    have hsame2 : SameCore h h2 := by
      rw [hh2, hh1]
      exact (SameCore.edit (f := fun p => { p with nextFree := k.nextFree })
        fun _ => rfl).trans (SameCore.edit fun _ => rfl)
    have hu : Unlinked h h2 b (x' ++ [p]) y := by
      constructor
      · intro a
        rw [hnf2, hnf1, hnext]
        simp
      · intro a _
        rw [hpf2, hpf1, hnext]
        simp
    obtain ⟨hnodup, hsub⟩ := hl.sublist (l := x' ++ [p] ++ y) (by
      rw [hi]
      exact Sublist.append_left (sublist_cons_self ..) _)
    have hheaded2 : Headed h2 (update lists i (x' ++ [p] ++ y)) := by
      refine hl.headed.exchange_nonempty (by simp [hi]) (by simp) ?_ ?_ ?_
      · rw [hh2, hh1]
        rfl
      · rw [hh2, hh1]
        rfl
      · intro j
        have hmFreeList : h2.mFreeList = h.mFreeList := by
          rw [hh2, hh1]
          rfl
        rw [hmFreeList]
        split
        case isTrue hj =>
          subst hj
          rw [hl.headed.head j, hi]
          cases x' <;> simp
        case isFalse => rfl
    have hl2 : Listed h2 (update lists i (x' ++ [p] ++ y)) :=
      ⟨hl.thread_unlinked hi hu, hnodup,
        fun j j' a ha ha' => hl.disjoint j j' a (hsub j ha) (hsub j' ha'),
        fun j a ha => (hsame2.isSome a).trans (hl.object j a (hsub j ha)), hheaded2⟩
    -- It comes back in front of the list.
    have hb2 : ∀ j, b ∉ update lists i (x' ++ [p] ++ y) j := by
      intro j hbj
      by_cases hj : j = i
      · subst hj
        rw [update_self] at hbj
        rcases List.mem_append.1 hbj with hbj | hbj
        · exact hbx hbj
        · exact hby hbj
      · rw [update_of_ne hj] at hbj
        exact hj (hl.disjoint j i b hbj (by simp [hi]))
    have hsome2 : (h2.blocks b).isSome := by rw [hsame2.isSome, hk]; rfl
    have hlt2 : i < h2.mFreeListCount := by rw [hsame2.mFreeListCount]; exact hlt
    have hlist2 : update lists i (x' ++ [p] ++ y) i = x' ++ [p] ++ y :=
      update_self ..
    have hhead2 : h2.mFreeList i = (x' ++ [p] ++ y).head? := by
      rw [hheaded2.head i, hlist2]
    obtain ⟨h3, hh3⟩ : ∃ h3, h3 = h2.edit (some b)
      fun n => { n with prevFree := none, nextFree := (x' ++ [p] ++ y).head? } := ⟨_, rfl⟩
    obtain ⟨h4, hh4⟩ : ∃ h4 : TlsfHeap, h4 =
      { h3 with mFreeList := update h3.mFreeList i (some b) } := ⟨_, rfl⟩
    have hlt3 : i < h3.mFreeListCount := by rw [hh3]; exact hlt2
    have hwrite4 : writeIf (x' ++ [p] ++ y).head? (fun n => { n with prevFree := some b }) h4 =
        .ok ((), h4.edit (x' ++ [p] ++ y).head? fun n => { n with prevFree := some b }) := by
      refine writeIf_run fun a ha => ?_
      have hmem : a ∈ update lists i (x' ++ [p] ++ y) i := by
        rw [hlist2]
        exact mem_of_mem_head? ha
      rw [hh4, hh3]
      exact (isSome_edit a).trans (hl2.object i a hmem)
    have hpush : Relists h2 (h4.edit (x' ++ [p] ++ y).head? fun n => { n with prevFree := some b })
        _ b _ False := hl2.relists_push hb2 hsome2 (by rw [hh4, hh3]; rfl)
      (by rw [hh4, hh3, hlist2]; rfl) (by
        refine hl2.headed.exchange_nonempty (by simp) (by simp) ?_ ?_ ?_ <;>
          rw [hh4, hh3]
        · rfl
        · rfl
        · exact fun j => update_apply ..)
    rw [hlist2, update_idem] at hpush
    refine ⟨_, ?_, hsame2.trans hpush.core, hpush.listed, hpush.mark, ?_, ?_⟩
    · have hne : i ≠ h.mFreeListCount := Nat.ne_of_lt hlt
      rw [detachBlock, bind_run get_run, bind_run (deref_run hk), if_pos hne, hsome]
      simp only
      rw [bind_run (deref_run hkp), bind_run (check_run (hl.isFree hpi hkp)),
        bind_run (check_run hfree), bind_run (write_run (hl.object i p hpi)), ← hh1,
        bind_run (writeIf_run fun a ha => (hsome1 a).trans (hl.object i a (hnextMem a ha))), ← hh2,
        bind_run (getFreeList_run hlt2), hhead2, bind_run (write_run hsome2), ← hh3,
        bind_run (setFreeList_run hlt3), ← hh4]
      exact hwrite4
    · exact fun a hab => (hpush.marks a hab).trans (hl.marks_unlinked hi hu hab)
    · intro a hab hat
      have hnot : a ∉ x' ++ [p] ++ y := by
        rw [hi] at hat
        simp only [List.mem_append, List.mem_cons, not_or] at hat ⊢
        exact ⟨hat.1, hat.2.2⟩
      have hnext' : ¬ k.nextFree = some a := fun ha => hat (hnextMem a ha)
      have hap : ¬ some p = some a := fun ha => hat (by cases ha; exact hpi)
      rw [hpush.frame a hab hnot, hh2, blocks_edit, if_neg hnext', hh1, blocks_edit, if_neg hap]

end Tlsf
end BezOS
