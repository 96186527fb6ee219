import BezOS.Memory.TlsfLists

/-!
# The chain of blocks

The blocks of a heap follow each other in memory, linked both ways; the last one is the null
block. `Represents h rs lists spare` says that this chain is `rs`, that the free blocks of it are
those of `lists`, and that the pool holds these blocks, the ones in `spare` and no others. It does
not say that the blocks tile anything: in the middle of a call they may not.

Each operation on blocks is a step from one such chain to another.
-/

namespace BezOS
namespace Tlsf

open Lib Function List PoolAllocator TlsfHeap

structure Region where
  block : BlockPtr
  offset : Nat
  size : Nat
  used : Bool
  deriving DecidableEq

def blocksOf (rs : List Region) : List BlockPtr := rs.map Region.block

@[simp] lemma blocksOf_nil : blocksOf [] = [] := rfl

@[simp] lemma blocksOf_cons (r : Region) (rs : List Region) :
    blocksOf (r :: rs) = r.block :: blocksOf rs := rfl

@[simp] lemma blocksOf_append (x y : List Region) :
    blocksOf (x ++ y) = blocksOf x ++ blocksOf y := map_append

variable {rs : List Region} {lists : Nat → List BlockPtr}

@[simp] lemma blocksOf_eq_nil : blocksOf rs = [] ↔ rs = [] := map_eq_nil_iff

lemma mem_blocksOf {a : BlockPtr} :
    a ∈ blocksOf rs ↔ ∃ r ∈ rs, r.block = a := mem_map

lemma block_mem {r : Region} (hr : r ∈ rs) : r.block ∈ blocksOf rs :=
  mem_map_of_mem hr

def TlsfHeap.coreOf (h : TlsfHeap) (a : BlockPtr) : Option Core :=
  (h.blocks a).map TlsfBlock.core

/-- The regions `rs` follow each other: `p` is the block before the first one, `e` the one after
the last one. -/
def Laid (core : BlockPtr → Option Core) : Option BlockPtr → List Region → Option BlockPtr → Prop
  | _, [], _ => True
  | p, r :: rs, e => core r.block = some ⟨r.offset, r.size, p, (blocksOf rs).head?.or e⟩ ∧
      Laid core (some r.block) rs e

namespace Laid

variable {core core' : BlockPtr → Option Core} {p e p' e' : Option BlockPtr} {r : Region}
  {rs x y : List Region}

lemma cons_iff : Laid core p (r :: rs) e ↔
    core r.block = some ⟨r.offset, r.size, p, (blocksOf rs).head?.or e⟩ ∧
      Laid core (some r.block) rs e := Iff.rfl

lemma congr (h : Laid core p rs e) (hcore : ∀ a ∈ blocksOf rs, core' a = core a) :
    Laid core' p rs e := by
  induction rs generalizing p with
  | nil => trivial
  | cons r rs ih =>
    obtain ⟨h1, h2⟩ := h
    refine ⟨by rw [hcore r.block (by simp), h1], ih h2 fun a ha => hcore a ?_⟩
    exact mem_cons_of_mem _ ha

lemma append_iff : Laid core p (x ++ y) e ↔
    Laid core p x ((blocksOf y).head?.or e) ∧ Laid core ((blocksOf x).getLast?.or p) y e := by
  induction x generalizing p with
  | nil => simp [Laid]
  | cons r x ih =>
    rw [cons_append, cons_iff, ih, cons_iff, and_assoc]
    have hhead : (blocksOf (x ++ y)).head?.or e = (blocksOf x).head?.or ((blocksOf y).head?.or e) := by
      cases x <;> simp
    have hlast : (blocksOf (r :: x)).getLast?.or p = (blocksOf x).getLast?.or (some r.block) := by
      rw [blocksOf_cons, getLast?_cons]
      cases (blocksOf x).getLast? <;> rfl
    rw [hhead, hlast]

lemma middle_iff : Laid core p (x ++ r :: y) e ↔
    Laid core p x (some r.block) ∧
      core r.block = some ⟨r.offset, r.size, (blocksOf x).getLast?.or p, (blocksOf y).head?.or e⟩ ∧
      Laid core (some r.block) y e := by
  rw [append_iff, cons_iff]
  simp

lemma turn_last (h : Laid core p rs e) (hrs : (blocksOf rs).Nodup)
    (hcore : ∀ a ∈ blocksOf rs, core' a =
      if (blocksOf rs).getLast? = some a then (core a).map fun k => { k with next := e' }
      else core a) : Laid core' p rs e' := by
  rcases eq_nil_or_concat rs with rfl | ⟨x, z, rfl⟩
  · trivial
  · rw [concat_eq_append] at *
    have hz : (blocksOf (x ++ [z])).getLast? = some z.block := by simp
    obtain ⟨h1, h2, -⟩ := middle_iff.1 h
    refine middle_iff.2 ⟨h1.congr fun a ha => ?_, ?_, trivial⟩
    · rw [hcore a (by simp [ha]), hz, if_neg]
      rintro heq
      cases heq
      rw [blocksOf_append] at hrs
      exact (nodup_append.1 hrs).2.2 _ ha _ (by simp) rfl
    · rw [hcore z.block (by simp), hz, if_pos rfl, h2]
      simp

lemma turn_first (h : Laid core p rs e) (hrs : (blocksOf rs).Nodup)
    (hcore : ∀ a ∈ blocksOf rs, core' a =
      if (blocksOf rs).head? = some a then (core a).map fun k => { k with prev := p' }
      else core a) : Laid core' p' rs e := by
  cases rs with
  | nil => trivial
  | cons z rs =>
    obtain ⟨h1, h2⟩ := h
    refine ⟨?_, h2.congr fun a ha => ?_⟩
    · rw [hcore z.block (by simp), if_pos (by simp), h1]
      rfl
    · rw [hcore a (mem_cons_of_mem _ ha), if_neg]
      intro heq
      obtain rfl : z.block = a := by simpa using heq
      exact (nodup_cons.1 hrs).1 ha

lemma insert {c : BlockPtr} {o s z : Nat} {u : Bool} (h : Laid core p (x ++ r :: y) e)
    (hrs : (blocksOf (x ++ r :: y)).Nodup)
    (hnew : core' c = some ⟨o, s, some r.block, (blocksOf y).head?.or e⟩)
    (hr : core' r.block = some ⟨r.offset, z, (blocksOf x).getLast?.or p, some c⟩)
    (hother : ∀ a ∈ blocksOf (x ++ y), core' a =
      if (blocksOf y).head? = some a then (core a).map fun k => { k with prev := some c }
      else core a) :
    Laid core' p (x ++ { r with size := z } :: ⟨c, o, s, u⟩ :: y) e := by
  obtain ⟨h1, -, h3⟩ := middle_iff.1 h
  rw [blocksOf_append, blocksOf_cons] at hrs
  obtain ⟨-, hry, hxy⟩ := nodup_append.1 hrs
  refine middle_iff.2 ⟨h1.congr fun a ha => ?_, ?_, ?_⟩
  · have hnot : ¬ (blocksOf y).head? = some a := fun hhead =>
      hxy a ha a (mem_cons_of_mem _ (mem_of_mem_head? hhead)) rfl
    rw [hother a (by simp [ha]), if_neg hnot]
  · simpa using hr
  · refine ⟨hnew, h3.turn_first (nodup_cons.1 hry).2 fun a ha => ?_⟩
    exact hother a (by simp [ha])

end Laid

/-! ## Heaps and their chains -/

structure Represents (h : TlsfHeap) (rs : List Region) (lists : Nat → List BlockPtr)
    (spare : List BlockPtr) : Prop where
  laid : Laid h.coreOf none rs none
  nodup : (blocksOf rs ++ spare).Nodup
  objects : ∀ a, (h.blocks a).isSome = true ↔ a ∈ blocksOf rs ∨ a ∈ spare
  marks : ∀ r ∈ rs, (h.prevFreeOf r.block = some r.block ↔ r.used = true)
  null : (blocksOf rs).getLast? = some h.mNullBlock
  nullFree : h.prevFreeOf h.mNullBlock = none
  nullLink : h.nextFreeOf h.mNullBlock = none
  listed : Listed h lists
  member : ∀ r ∈ rs, ∀ i, r.block ∈ lists i ↔
    r.used = false ∧ r.block ≠ h.mNullBlock ∧ getListIndex r.size = i
  only : ∀ i, ∀ a ∈ lists i, a ∈ blocksOf rs
  pool : h.mBlockPool.Valid
  occupied : ∀ a, h.mBlockPool.Occupied a ↔ (h.blocks a).isSome = true

namespace Represents

variable {h h' : TlsfHeap} {rs l t : List Region} {r : Region} {lists lists' : Nat → List BlockPtr}
  {spare : List BlockPtr} {i : Nat}

structure Stores (h : TlsfHeap) (l : List Region) (r : Region) (t : List Region) (k : TlsfBlock) :
    Prop where
  block : h.blocks r.block = some k
  offset : k.offset = r.offset
  size : k.size = r.size
  prev : k.prev = (blocksOf l).getLast?
  next : k.next = (blocksOf t).head?
  free : k.isFree r.block = !r.used

lemma stores (hr : Represents h (l ++ r :: t) lists spare) : ∃ k, Stores h l r t k := by
  have hcore := (Laid.middle_iff.1 hr.laid).2.1
  simp only [coreOf, Option.map_eq_some_iff] at hcore
  obtain ⟨k, hk, hcore⟩ := hcore
  simp only [TlsfBlock.core, Core.mk.injEq, Option.or_none] at hcore
  obtain ⟨hoffset, hsize, hprev, hnext⟩ := hcore
  have hmark := hr.marks r (by simp)
  rw [prevFreeOf_eq hk] at hmark
  refine ⟨k, hk, hoffset, hsize, hprev, hnext, ?_⟩
  rw [TlsfBlock.isFree]
  cases hused : r.used
  · simpa [hused] using hmark
  · simpa [hused] using hmark

lemma blocks_nodup (hr : Represents h rs lists spare) : (blocksOf rs).Nodup :=
  (nodup_append.1 hr.nodup).1

lemma other_ne (hr : Represents h (l ++ r :: t) lists spare) {q : Region} (hq : q ∈ l ++ t) :
    q.block ≠ r.block := by
  have hnodup := hr.blocks_nodup
  rw [blocksOf_append, blocksOf_cons] at hnodup
  obtain ⟨-, hrt, hne⟩ := nodup_append.1 hnodup
  rcases mem_append.1 hq with hq | hq
  · exact hne _ (block_mem hq) _ (by simp)
  · rintro heq
    exact (nodup_cons.1 hrt).1 (heq ▸ block_mem hq)

lemma null_iff (hr : Represents h (l ++ r :: t) lists spare) :
    r.block = h.mNullBlock ↔ t = [] := by
  have hnull := hr.null
  constructor
  · intro heq
    by_contra ht
    obtain ⟨t', z, rfl⟩ : ∃ t' z, t = t' ++ [z] :=
      ⟨t.dropLast, t.getLast ht, (dropLast_append_getLast ht).symm⟩
    have hz : z.block = h.mNullBlock := by
      simpa [getLast?_append, getLast?_cons] using hnull
    exact hr.other_ne (by simp) (hz.trans heq.symm)
  · rintro rfl
    simpa using hnull

lemma null_used (hr : Represents h (l ++ [r]) lists spare) : r.used = false := by
  have hnull : r.block = h.mNullBlock := hr.null_iff.2 rfl
  have hmark := hr.marks r (by simp)
  rw [hnull, hr.nullFree] at hmark
  simpa using hmark

lemma null_not_listed (hr : Represents h rs lists spare) : h.mNullBlock ∉ lists i := by
  intro hmem
  obtain ⟨r, hmem', heq⟩ := mem_blocksOf.1 (hr.only i _ hmem)
  rw [← heq] at hmem
  exact ((hr.member r hmem' i).1 hmem).2.1 heq

lemma used_not_listed (hr : Represents h (l ++ r :: t) lists spare) (hused : r.used = true) (j : Nat) :
    r.block ∉ lists j := by
  intro hmem
  have hfree := ((hr.member r (by simp) j).1 hmem).1
  rw [hused] at hfree
  cases hfree

/-! ## Lists -/

lemma relist (hr : Represents h (l ++ r :: t) lists spare) (hnull : r.block ≠ h.mNullBlock)
    {v : Bool} (hrel : Relists h h' lists' r.block (lists i) (v = true))
    (hother : ∀ a, a ≠ r.block → ∀ j, a ∈ lists' j ↔ a ∈ lists j)
    (hself : ∀ j, r.block ∈ lists' j ↔ v = false ∧ getListIndex r.size = j) :
    Represents h' (l ++ { r with used := v } :: t) lists' spare := by
  have hblocks : blocksOf (l ++ { r with used := v } :: t) = blocksOf (l ++ r :: t) := by simp
  have hmNull := hrel.core.mNullBlock
  have hcases : ∀ q ∈ l ++ { r with used := v } :: t, q = { r with used := v } ∨
      (q ∈ l ++ r :: t ∧ q.block ≠ r.block) := by
    intro q hq
    rw [mem_append, mem_cons] at hq
    rcases hq with hq | hq | hq
    · exact .inr ⟨by simp [hq], hr.other_ne (by simp [hq])⟩
    · exact .inl hq
    · exact .inr ⟨by simp [hq], hr.other_ne (by simp [hq])⟩
  constructor
  · have hcore : h'.coreOf = h.coreOf := funext hrel.core.core
    rw [hcore, Laid.middle_iff]
    exact (Laid.middle_iff (r := r)).1 hr.laid
  · rw [hblocks]
    exact hr.nodup
  · intro a
    rw [hrel.core.isSome, hblocks]
    exact hr.objects a
  · intro q hq
    rcases hcases q hq with rfl | ⟨hq, hne⟩
    · exact hrel.mark
    · rw [hrel.marks _ hne]
      exact hr.marks q hq
  · rw [hblocks, hmNull]
    exact hr.null
  · rw [hmNull, prevFreeOf, hrel.frame _ (Ne.symm hnull) hr.null_not_listed]
    exact hr.nullFree
  · rw [hmNull, nextFreeOf, hrel.frame _ (Ne.symm hnull) hr.null_not_listed]
    exact hr.nullLink
  · exact hrel.listed
  · intro q hq j
    rw [hmNull]
    rcases hcases q hq with rfl | ⟨hq, hne⟩
    · rw [hself]
      simp [hnull]
    · rw [hother _ hne]
      exact hr.member q hq j
  · intro j a ha
    rw [hblocks]
    by_cases hab : a = r.block
    · rw [hab]
      simp
    · exact hr.only j a ((hother a hab j).1 ha)
  · rw [hrel.core.mBlockPool]
    exact hr.pool
  · intro a
    rw [hrel.core.mBlockPool, hrel.core.isSome]
    exact hr.occupied a

end Represents

/-- The lists once the free region `r` has left its list. -/
def unlist (lists : Nat → List BlockPtr) (r : Region) : Nat → List BlockPtr :=
  update lists (getListIndex r.size) ((lists (getListIndex r.size)).erase r.block)

/-- The lists once `r` stands at the front of its list. -/
def enlist (lists : Nat → List BlockPtr) (r : Region) : Nat → List BlockPtr :=
  update lists (getListIndex r.size) (r.block :: lists (getListIndex r.size))

lemma mem_enlist {r : Region} {a : BlockPtr} {j : Nat} :
    a ∈ enlist lists r j ↔ (a = r.block ∧ j = getListIndex r.size) ∨ a ∈ lists j := by
  rw [enlist]
  by_cases hj : j = getListIndex r.size
  · subst hj
    rw [update_self]
    simp
  · rw [update_of_ne hj]
    simp [hj]

namespace Represents

variable {h h' : TlsfHeap} {rs l t : List Region} {r q : Region}
  {lists lists' : Nat → List BlockPtr} {spare : List BlockPtr} {i : Nat}

lemma take (hr : Represents h (l ++ r :: t) lists spare) (hfree : r.used = false)
    (hnull : r.block ≠ h.mNullBlock) (hpos : 0 < r.size)
    (hsafe : BlockIndicesSafe h.mFreeListCount r.size) :
    ∃ h', takeBlockFromFreeList r.block h = .ok ((), h') ∧ h'.header = h.header ∧
      Represents h' (l ++ { r with used := true } :: t) (unlist lists r) spare := by
  obtain ⟨k, hk⟩ := hr.stores
  have hmem : r.block ∈ lists (getListIndex r.size) :=
    (hr.member r (by simp) _).2 ⟨hfree, hnull, rfl⟩
  obtain ⟨x, y, hi⟩ := append_of_mem hmem
  obtain ⟨hbx, hby, -⟩ := hr.listed.split_nodup hi
  obtain ⟨h', hrun, hrel⟩ := takeBlockFromFreeList_run hr.listed hi hk.block (by rw [hk.size])
    (by rw [hk.size]; exact hpos) (by rw [hk.size]; exact hsafe) hnull
  have herase : (lists (getListIndex r.size)).erase r.block = x ++ y := by
    rw [hi, erase_append_right _ hbx, erase_cons_head]
  have hlists : unlist lists r = update lists (getListIndex r.size) (x ++ y) := by
    rw [unlist, herase]
  rw [← hlists] at hrel
  refine ⟨h', hrun, hrel.core.header, hr.relist hnull (v := true) (by simpa using hrel) ?_ ?_⟩
  · intro a ha j
    rw [unlist]
    by_cases hj : j = getListIndex r.size
    · subst hj
      rw [update_self, mem_erase_of_ne ha]
    · rw [update_of_ne hj]
  · intro j
    simp only [Bool.true_eq_false, false_and, iff_false]
    rw [hlists]
    by_cases hj : j = getListIndex r.size
    · subst hj
      rw [update_self]
      simp [hbx, hby]
    · rw [update_of_ne hj]
      exact fun hmem' => hj (hr.listed.disjoint j _ r.block hmem' hmem)

lemma release (hr : Represents h (l ++ r :: t) lists spare) (hused : r.used = true)
    (hnull : r.block ≠ h.mNullBlock) (hpos : 0 < r.size)
    (hsafe : BlockIndicesSafe h.mFreeListCount r.size) :
    ∃ h', releaseBlockToFreeList r.block h = .ok ((), h') ∧ h'.header = h.header ∧
      Represents h' (l ++ { r with used := false } :: t) (enlist lists r) spare := by
  obtain ⟨k, hk⟩ := hr.stores
  have hnot := hr.used_not_listed hused
  have hmark : k.prevFree = some r.block := by
    rw [← prevFreeOf_eq hk.block]
    exact (hr.marks r (by simp)).2 hused
  obtain ⟨h', hrun, hrel⟩ := releaseBlockToFreeList_run hr.listed hnot hk.block hmark
    (by rw [hk.size]) (by rw [hk.size]; exact hpos)
    (by rw [hk.size]; exact hsafe) hnull
  rw [← enlist] at hrel
  refine ⟨h', hrun, hrel.core.header, hr.relist hnull (by simpa using hrel) ?_ ?_⟩
  · intro a ha j
    rw [mem_enlist]
    simp [ha]
  · intro j
    rw [mem_enlist]
    simp [hnot j, eq_comm]

/-! ## Links of the chain -/

/-- A region of the new chain that the old one does not have: its mark and its list membership
are stated on their own. -/
structure Placed (h : TlsfHeap) (lists : Nat → List BlockPtr) (q : Region) : Prop where
  mark : h.prevFreeOf q.block = some q.block ↔ q.used = true
  member : ∀ i, q.block ∈ lists i ↔
    q.used = false ∧ q.block ≠ h.mNullBlock ∧ getListIndex q.size = i

lemma rechain {rs' : List Region} {spare' : List BlockPtr} (hr : Represents h rs lists spare)
    (hlaid : Laid h'.coreOf none rs' none)
    (hperm : (blocksOf rs' ++ spare').Perm (blocksOf rs ++ spare))
    (hsome : ∀ a, (h'.blocks a).isSome = (h.blocks a).isSome)
    (hlinks : ∀ i, ∀ a ∈ lists i,
      h'.nextFreeOf a = h.nextFreeOf a ∧ h'.prevFreeOf a = h.prevFreeOf a)
    (hheaded : Headed h' lists) (hpool : h'.mBlockPool = h.mBlockPool)
    (hregions : ∀ q ∈ rs', Placed h' lists q)
    (hnull : (blocksOf rs').getLast? = some h'.mNullBlock)
    (hnullFree : h'.prevFreeOf h'.mNullBlock = none)
    (hnullLink : h'.nextFreeOf h'.mNullBlock = none)
    (honly : ∀ i, ∀ a ∈ lists i, a ∈ blocksOf rs') : Represents h' rs' lists spare' := by
  constructor
  · exact hlaid
  · exact hperm.nodup_iff.2 hr.nodup
  · intro a
    rw [hsome, hr.objects, ← mem_append, ← mem_append, hperm.mem_iff]
  · exact fun q hq => (hregions q hq).mark
  · exact hnull
  · exact hnullFree
  · exact hnullLink
  · refine ⟨fun j => ?_, hr.listed.nodup, hr.listed.disjoint, fun j a ha => ?_, hheaded⟩
    · exact (hr.listed.thread j).congr (fun a ha => (hlinks j a ha).1) fun a ha => (hlinks j a ha).2
    · rw [hsome]
      exact hr.listed.object j a ha
  · exact fun q hq => (hregions q hq).member
  · exact honly
  · rw [hpool]
    exact hr.pool
  · intro a
    rw [hpool, hsome]
    exact hr.occupied a

lemma placed (hr : Represents h rs lists spare) (hq : q ∈ rs) : Placed h lists q :=
  ⟨hr.marks q hq, hr.member q hq⟩

lemma Placed.congr (hq : Placed h lists q) (hmark : h'.prevFreeOf q.block = h.prevFreeOf q.block)
    (hnull : q.block = h'.mNullBlock ↔ q.block = h.mNullBlock) : Placed h' lists q :=
  ⟨by rw [hmark]; exact hq.mark, fun i => by rw [hq.member i, ne_eq, ne_eq, hnull]⟩

lemma placed_used (hused : q.used = true) (hmark : h.prevFreeOf q.block = some q.block)
    (hnot : ∀ i, q.block ∉ lists i) : Placed h lists q :=
  ⟨by simp [hmark, hused], fun i => by simp [hnot i, hused]⟩

lemma placed_null (hnull : q.block = h.mNullBlock) (hused : q.used = false)
    (hmark : h.prevFreeOf q.block = none) (hnot : ∀ i, q.block ∉ lists i) : Placed h lists q :=
  ⟨by simp [hmark, hused], fun i =>
    ⟨fun hmem => absurd hmem (hnot i), fun hq => absurd hnull hq.2.1⟩⟩

end Represents

/-! ## Edits of single fields -/

section Edits

variable {h : TlsfHeap} {p : Option BlockPtr} {f : TlsfBlock → TlsfBlock}

lemma coreOf_edit {g : Core → Core} (hf : ∀ k, (f k).core = g k.core) (a : BlockPtr) :
    (h.edit p f).coreOf a = if p = some a then (h.coreOf a).map g else h.coreOf a := by
  simp only [coreOf, blocks_edit]
  split
  · cases h.blocks a <;> simp [hf]
  · rfl

lemma Headed.edit (hh : Headed h lists) (p : Option BlockPtr) (f : TlsfBlock → TlsfBlock) :
    Headed (h.edit p f) lists :=
  ⟨hh.head, hh.inner, hh.top⟩

lemma links_edit (hf : ∀ k, (f k).nextFree = k.nextFree ∧ (f k).prevFree = k.prevFree) :
    (h.edit p f).nextFreeOf = h.nextFreeOf ∧ (h.edit p f).prevFreeOf = h.prevFreeOf := by
  constructor <;> funext a <;>
    simp only [nextFreeOf, prevFreeOf, blocks_edit] <;> split <;>
    cases h.blocks a <;> simp [hf]

end Edits

/-! ## The pool -/

/-- The fields of a heap that only the operation as a whole changes. -/
structure Keeps (h h' : TlsfHeap) : Prop where
  mSize : h'.mSize = h.mSize
  mReserved : h'.mReserved = h.mReserved
  mMallocCount : h'.mMallocCount = h.mMallocCount
  mFreeCount : h'.mFreeCount = h.mFreeCount
  mFreeListCount : h'.mFreeListCount = h.mFreeListCount

namespace Keeps

variable {h h' h'' : TlsfHeap}

lemma refl (h : TlsfHeap) : Keeps h h := ⟨rfl, rfl, rfl, rfl, rfl⟩

lemma trans (h1 : Keeps h h') (h2 : Keeps h' h'') : Keeps h h'' :=
  ⟨h2.mSize.trans h1.mSize, h2.mReserved.trans h1.mReserved,
    h2.mMallocCount.trans h1.mMallocCount, h2.mFreeCount.trans h1.mFreeCount,
    h2.mFreeListCount.trans h1.mFreeListCount⟩

lemma of_header (heq : h'.header = h.header) : Keeps h h' :=
  ⟨congrArg Header.mSize heq, congrArg Header.mReserved heq, congrArg Header.mMallocCount heq,
    congrArg Header.mFreeCount heq, congrArg Header.mFreeListCount heq⟩

end Keeps

namespace Represents

variable {h h' : TlsfHeap} {rs l t : List Region} {r : Region} {lists lists' : Nat → List BlockPtr}
  {spare : List BlockPtr} {c : BlockPtr} {pool : PoolAllocator}

section

variable (hr : Represents h rs lists spare)

include hr

lemma repool (hvalid : pool.Valid) (hoccupied : ∀ a, pool.Occupied a ↔ h.mBlockPool.Occupied a) :
    Represents { h with mBlockPool := pool } rs lists spare :=
  ⟨hr.laid, hr.nodup, hr.objects, hr.marks, hr.null, hr.nullFree, hr.nullLink,
    ⟨hr.listed.thread, hr.listed.nodup, hr.listed.disjoint, hr.listed.object,
      ⟨hr.listed.headed.head, hr.listed.headed.inner, hr.listed.headed.top⟩⟩,
    hr.member, hr.only, hvalid, fun a => (hoccupied a).trans (hr.occupied a)⟩

lemma respare {blocks : BlockPtr → Option TlsfBlock} {spare' : List BlockPtr}
    (hchain : ∀ a ∈ blocksOf rs, blocks a = h.blocks a) (hnodup : (blocksOf rs ++ spare').Nodup)
    (hobjects : ∀ a, (blocks a).isSome = true ↔ a ∈ blocksOf rs ∨ a ∈ spare') (hvalid : pool.Valid)
    (hoccupied : ∀ a, pool.Occupied a ↔ (blocks a).isSome = true) :
    Represents { h with blocks := blocks, mBlockPool := pool } rs lists spare' := by
  have hnullMem : h.mNullBlock ∈ blocksOf rs := mem_of_getLast? hr.null
  constructor
  · refine hr.laid.congr fun a ha => ?_
    simp only [coreOf, hchain a ha]
  · exact hnodup
  · exact hobjects
  · intro q hq
    rw [prevFreeOf]
    simp only [hchain q.block (block_mem hq)]
    exact hr.marks q hq
  · exact hr.null
  · rw [prevFreeOf]
    simp only [hchain _ hnullMem]
    exact hr.nullFree
  · rw [nextFreeOf]
    simp only [hchain _ hnullMem]
    exact hr.nullLink
  · refine ⟨fun j => ?_, hr.listed.nodup, hr.listed.disjoint, fun j a ha => ?_,
      ⟨hr.listed.headed.head, hr.listed.headed.inner, hr.listed.headed.top⟩⟩
    · refine (hr.listed.thread j).congr (fun a ha => ?_) (fun a ha => ?_) <;>
        simp only [nextFreeOf, prevFreeOf, hchain a (hr.only j a ha)]
    · simp only [hchain a (hr.only j a ha)]
      exact hr.listed.object j a ha
  · exact hr.member
  · exact hr.only
  · exact hvalid
  · exact hoccupied

lemma construct_some (init : TlsfBlock) (ha : h.mBlockPool.allocate = (some c, pool)) :
    ∃ h', construct init h = .ok (some c, h') ∧ Represents h' rs lists (c :: spare) ∧
      h'.blocks c = some init ∧ h'.mNullBlock = h.mNullBlock ∧ h'.mBlockPool = pool ∧
      Keeps h h' := by
  obtain ⟨hvalid, hfree, hoccupied⟩ := allocate_hands hr.pool ha
  have hnone : ¬ (c ∈ blocksOf rs ∨ c ∈ spare) := by
    rw [← hr.objects, ← hr.occupied]
    exact hfree
  rw [not_or] at hnone
  refine ⟨{ h with blocks := update h.blocks c (some init), mBlockPool := pool },
    by rw [construct, ha]; rfl, ?_, ?_, rfl, rfl, ⟨rfl, rfl, rfl, rfl, rfl⟩⟩
  · refine hr.respare (fun a hmem => ?_) ?_ (fun a => ?_) hvalid fun a => ?_
    · have hac : a ≠ c := by
        rintro rfl
        exact hnone.1 hmem
      exact update_of_ne hac ..
    · have hcons : (blocksOf rs ++ c :: spare).Perm (c :: (blocksOf rs ++ spare)) :=
        perm_middle
      rw [hcons.nodup_iff, nodup_cons, mem_append, not_or]
      exact ⟨hnone, hr.nodup⟩
    · by_cases hac : a = c
      · subst hac
        simp
      · show (update h.blocks c (some init) a).isSome = true ↔ _
        rw [update_of_ne hac, hr.objects]
        simp [hac]
    · rw [hoccupied]
      by_cases hac : a = c
      · subst hac
        simp
      · show _ ↔ (update h.blocks c (some init) a).isSome = true
        rw [update_of_ne hac, hr.occupied]
        simp [hac]
  · exact update_self ..

lemma construct_none (init : TlsfBlock) (ha : h.mBlockPool.allocate = (none, pool)) :
    construct init h = .ok (none, { h with mBlockPool := pool }) ∧
      Represents { h with mBlockPool := pool } rs lists spare := by
  obtain ⟨-, rfl⟩ := allocate_none hr.pool ha
  exact ⟨by rw [construct, ha], hr.repool (hr.pool.ask _) fun _ => Iff.rfl⟩

end

lemma destroy_spare (hr : Represents h rs lists (c :: spare)) :
    ∃ h', destroy c h = .ok ((), h') ∧ Represents h' rs lists spare ∧
      h'.mNullBlock = h.mNullBlock ∧ h'.mBlockPool.grants = h.mBlockPool.grants ∧ Keeps h h' := by
  have hcons : (blocksOf rs ++ c :: spare).Perm (c :: (blocksOf rs ++ spare)) := perm_middle
  have hnodup := hcons.nodup_iff.1 hr.nodup
  obtain ⟨hnot, hnodup'⟩ := nodup_cons.1 hnodup
  rw [mem_append, not_or] at hnot
  have hobject : (h.blocks c).isSome = true := (hr.objects c).2 (.inr (by simp))
  obtain ⟨pool, hrelease, hvalid, hgrants, hoccupied⟩ :=
    release_of_occupied hr.pool ((hr.occupied c).2 hobject)
  have hblocks : ∀ a, ((update h.blocks c none) a).isSome = true ↔
      a ≠ c ∧ (h.blocks a).isSome = true := by
    intro a
    by_cases hac : a = c
    · subst hac
      simp
    · rw [update_of_ne hac]
      simp [hac]
  refine ⟨{ h with blocks := update h.blocks c none, mBlockPool := pool },
    by rw [destroy, hrelease]; rfl, ?_, rfl, hgrants, ⟨rfl, rfl, rfl, rfl, rfl⟩⟩
  refine hr.respare (fun a hmem => ?_) hnodup' (fun a => ?_) hvalid fun a => ?_
  · have hac : a ≠ c := by
      rintro rfl
      exact hnot.1 hmem
    exact update_of_ne hac ..
  · rw [hblocks, hr.objects, mem_cons]
    constructor
    · rintro ⟨hac, hmem | hmem | hmem⟩
      · exact .inl hmem
      · exact absurd hmem hac
      · exact .inr hmem
    · rintro (hmem | hmem)
      · exact ⟨fun heq => hnot.1 (heq ▸ hmem), .inl hmem⟩
      · exact ⟨fun heq => hnot.2 (heq ▸ hmem), .inr (.inr hmem)⟩
  · rw [hoccupied, hblocks, hr.occupied]

end Represents

end Tlsf
end BezOS
