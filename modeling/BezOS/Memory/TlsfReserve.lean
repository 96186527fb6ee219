import BezOS.Memory.TlsfCarve
import BezOS.Memory.TlsfFind

/-!
# Reserving a range

`reserve` looks from the null block down for the block that holds a range, and stops at the first
one that overlaps it. For `overlaps` a block that starts where the range ends does, so a range at the
end of a free block is not found. The first block of the heap is split in front of the range before
it is cut; the split is not taken back when the cut then fails.
-/

namespace BezOS
namespace Tlsf

open Lib List PoolAllocator

def Region.range (r : Region) : AnyRange := ⟨r.offset, r.offset + r.size⟩

variable {h h' : TlsfHeap} {base n : Nat} {rs l t : List Region} {r : Region}
  {lists : Nat → List BlockPtr} {spare : List BlockPtr} {c : BlockPtr} {range : AnyRange}

/-! ## Compacting -/

lemma compactLoop_run {x y : List Region} (hw : Wellformed h base (x ++ r :: y) lists spare)
    (hn : x.length < n) :
    compactLoop n r.block h = .ok ((), h) := by
  induction n generalizing x r y with
  | zero => cases hn
  | succ n ih =>
    obtain ⟨k, hk⟩ := hw.repr.stores
    rw [compactLoop, bind_run (deref_run hk.block), hk.prev]
    rcases eq_nil_or_concat x with rfl | ⟨x, p, rfl⟩
    · rfl
    · rw [concat_eq_append] at *
      have hw' : Wellformed h base (x ++ p :: r :: y) lists spare := by simpa using hw
      obtain ⟨kp, hkp⟩ := hw'.repr.stores
      -- One of two neighbours is used.
      have hused : (k.isFree r.block && kp.isFree p.block) = false := by
        have hcoalesced := hw'.coalesced
        rw [pieces_append, pieces_cons, pieces_cons, coalesced_middle] at hcoalesced
        have hpair : p.used = true ∨ r.used = true := hcoalesced.2.2.2 r.piece (by simp)
        rw [hk.free, hkp.free]
        rcases hpair with hp | hr <;> simp [*]
      rw [show (blocksOf (x ++ [p])).getLast? = some p.block by simp]
      show (deref p.block >>= _) h = _
      rw [bind_run (deref_run hkp.block), hused, if_neg (by simp)]
      exact ih hw' (by simpa using hn)

/-- The heap with its pool compacted. -/
def TlsfHeap.compacted (h : TlsfHeap) : TlsfHeap := { h with mBlockPool := h.mBlockPool.compact }

lemma compact_run (hw : Wellformed h base rs lists spare) :
    compact h = .ok ((), h.compacted) ∧ Unchanged h h.compacted ∧
      Wellformed h.compacted base rs lists spare := by
  have hoccupied : ∀ a, h.mBlockPool.compact.Occupied a ↔ h.mBlockPool.Occupied a := fun a =>
    PoolAllocator.compact_occupied hw.repr.pool
  have hr' := hw.repr.repool (PoolAllocator.compact_valid hw.repr.pool) hoccupied
  refine ⟨?_, ⟨rfl, hoccupied⟩,
    ⟨hw.toFormed.of_represents hr' ⟨rfl, rfl, rfl, rfl, rfl⟩ hw.tiling, hw.coalesced⟩⟩
  obtain ⟨init, n, rfl⟩ : ∃ init n, rs = init ++ [n] := by
    rcases eq_nil_or_concat rs with rfl | ⟨init, n, rfl⟩
    · exact absurd hw.repr.null (by simp)
    · exact ⟨init, n, by simp⟩
  have hnull : n.block = h.mNullBlock := hw.repr.null_iff.2 rfl
  have hlength := hw.repr.length_le
  rw [length_append, length_singleton] at hlength
  have hloop : compactLoop (h.mBlockPool.objectCount + 1) h.mNullBlock h = .ok ((), h) := by
    rw [← hnull]
    exact compactLoop_run hw (by omega)
  rw [compact, bind_run get_run, bind_run hloop]
  rfl

/-! ## The split of the first block -/

lemma splitBlockForAllocationIfRequired_same {o : Nat}
    (hr : Represents h (l ++ r :: t) lists spare) (ho : o = r.offset ∨ l ≠ []) :
    splitBlockForAllocationIfRequired r.block o h = .ok (.success, h) := by
  obtain ⟨k, hk⟩ := hr.stores
  rw [splitBlockForAllocationIfRequired, bind_run (deref_run hk.block), if_neg]
  · rfl
  · rintro ⟨hne, hprev⟩
    rw [hk.offset] at hne
    rw [hk.prev, getLast?_eq_none_iff, blocksOf_eq_nil] at hprev
    exact ho.elim hne fun hl => hl hprev

lemma splitFirst_run {o : Nat} (hf : Formed h base (r :: t) lists spare)
    (ho : r.offset < o) (hend : o < r.offset + r.size)
    (hkeep : r.block = h.mNullBlock ∨
      getListIndex (r.offset + r.size - o) = getListIndex r.size) :
    (h.mBlockPool.allocate.1 = none ∧ ∃ h',
      splitBlockForAllocationIfRequired r.block o h = .ok (.outOfMemory, h') ∧ Unchanged h h' ∧
      Formed h' base (r :: t) lists spare) ∨
    (∃ c h', h.mBlockPool.allocate = (some c, h'.mBlockPool) ∧
      splitBlockForAllocationIfRequired r.block o h = .ok (.success, h') ∧ Keeps h h' ∧
      h'.mNullBlock = h.mNullBlock ∧
      Formed h' base (⟨c, r.offset, o - r.offset, false⟩ ::
        { r with offset := o, size := r.offset + r.size - o } :: t)
        (enlist lists ⟨c, r.offset, o - r.offset, true⟩) spare) := by
  have hf0 : Formed h base ([] ++ r :: t) lists spare := hf
  have hword := hf.back_lt (r := r) (by simp)
  have hsize := hf.size_le (r := r) (by simp)
  obtain ⟨k, hk⟩ := hf0.repr.stores
  have hm : wrapSub wordCount o r.offset = o - r.offset := wrapSub_of_le (by omega) (by omega)
  rw [splitBlockForAllocationIfRequired, bind_run (deref_run hk.block), hk.offset, hk.prev,
    if_pos ⟨by omega, rfl⟩]
  simp only [hm]
  rcases ha : h.mBlockPool.allocate with ⟨_ | c, pool⟩
  · obtain ⟨h1, hrun1, hr1, hb1, -⟩ := hf.repr.construct_refused (.refl h)
      ⟨r.offset, o - r.offset, none, some r.block, none, none⟩ ha
    refine .inl ⟨rfl, h1, ?_, hb1.unchanged hf.repr hr1, hb1.formed hf hr1⟩
    rw [bind_run hrun1]
    rfl
  · obtain ⟨h1, hrun1, hr1, hb1, hpool1, hc1⟩ := hf.repr.construct_borrow (.refl h)
      ⟨r.offset, o - r.offset, none, some r.block, none, none⟩ ha
    have hr1' : Represents h1 ([] ++ r :: t) lists (c :: spare) := hr1
    obtain ⟨k1, hk1⟩ := hr1'.stores
    obtain ⟨hnot, -, -, hcnull⟩ := hr1.spare_fresh
    have hrc : r.block ≠ c := fun heq => hnot (by simp [heq])
    have hrest : wrapSub wordCount k1.size (o - r.offset) = r.offset + r.size - o := by
      rw [hk1.size, wrapSub_of_le (by omega) (by omega)]
      omega
    obtain ⟨h2, hh2⟩ : ∃ h2, h2 = (h1.edit (some r.block) fun b =>
        { b with prev := some c, offset := o, size := wrapSub wordCount b.size (o - r.offset) }).edit
        (some c) fun n => { n with prevFree := some c } := ⟨_, rfl⟩
    have hstays2 : Stays h1 h2 := by
      rw [hh2]
      exact (Stays.edit _ _ _).trans (.edit _ _ _)
    have hkeep1 : r.used = true ∨ r.block = h1.mNullBlock ∨
        getListIndex (r.offset + r.size - o) = getListIndex r.size := by
      rw [hb1.mNullBlock]
      exact .inr hkeep
    have hr2 : Represents h2 ([] ++ ⟨c, r.offset, o - r.offset, true⟩ ::
        { r with offset := o, size := r.offset + r.size - o } :: t) lists spare := by
      rw [hh2]
      refine hr1.insertFirst r.offset (o - r.offset) o (r.offset + r.size - o) hkeep1 hk1.block ?_ ?_ ?_
      · simp [blocks_edit, hrc, hc1]
      · simp [blocks_edit, Ne.symm hrc, hk1.block, hrest]
      · intro a hac har
        simp [blocks_edit, Ne.symm hac, Ne.symm har]
    have hkeeps2 := hb1.keeps.trans hstays2.toKeeps
    obtain ⟨h3, hrun3, hheader3, hr3⟩ := hr2.release rfl
      (by rw [hstays2.mNullBlock]; exact hcnull) (Nat.sub_pos_of_lt ho)
      ((hf.limits.keeps hkeeps2).safe (by rw [hkeeps2.mSize]; show o - r.offset ≤ h.mSize; omega))
    have hstays3 := Stays.of_header hheader3
    have hkeeps3 := hkeeps2.trans hstays3.toKeeps
    refine .inr ⟨c, h3, ?_, ?_, hkeeps3, ?_, hf.of_represents hr3 hkeeps3 ?_⟩
    · have hpool3 : h3.mBlockPool = h2.mBlockPool := congrArg Header.mBlockPool hheader3
      rw [hpool3, hh2, mBlockPool_edit, mBlockPool_edit, hpool1]
    · rw [bind_run hrun1]
      show (write r.block _ >>= _) h1 = _
      rw [bind_run (write_run (by rw [hk1.block]; rfl)), bind_run (write_run (by simp [hc1])), ← hh2,
        bind_run hrun3]
      rfl
    · rw [hstays3.mNullBlock, hstays2.mNullBlock, hb1.mNullBlock]
    · have htiling : Tiling base h.mSize (pieces ([] ++ r :: t)) := hf.tiling
      rw [pieces_append, pieces_cons] at htiling
      have hcut : Tiling base h.mSize (pieces [] ++ ⟨r.offset, o - r.offset, false⟩ ::
          ⟨o, r.offset + r.size - o, r.used⟩ :: pieces t) := by
        refine htiling.cut rfl ?_ ?_ ?_ fun _ => ?_ <;> simp only [Region.piece] <;> omega
      exact hcut

/-! ## The search -/

def Region.Holds (r : Region) (range : AnyRange) : Prop :=
  r.range.containsRange range ∨ r.range = range
  deriving Decidable

/-- The search goes on below the block. -/
def Region.Passed (r : Region) (range : AnyRange) : Prop :=
  ¬ r.Holds range ∧ ¬ r.range.overlaps range
  deriving Decidable

/-- What `reserve` does with the free block that holds the range. -/
def reserveIn (range : AnyRange) (block : BlockPtr) : HeapM (OsStatus × Option BlockPtr) := do
  match ← splitBlockForAllocationIfRequired block range.front with
  | .success =>
    let b ← deref block
    assumePositive b.size
    match ← reserveBlock block (wrapSub wordCount range.back range.front) range.front
        (getListIndex b.size) with
    | some result => return (.success, some result)
    | none => return (.outOfMemory, none)
  | status => return (status, none)

/-- What `reserve` does with the first block, from above, that it does not pass. -/
def reserveAt (range : AnyRange) (r : Region) : HeapM (OsStatus × Option BlockPtr) :=
  if r.Holds range ∧ r.used = false then reserveIn range r.block else return (.notAvailable, none)

lemma reserveLoop_run (range : AnyRange) {x y : List Region}
    (hr : Represents h (x ++ y) lists spare) (hn : x.length ≤ n) :
    ((∀ q ∈ x, q.Passed range) ∧
      reserveLoop range n (blocksOf x).getLast? h = .ok ((.notFound, none), h)) ∨
    ∃ l r t, x = l ++ r :: t ∧ (∀ q ∈ t, q.Passed range) ∧ ¬ r.Passed range ∧
      reserveLoop range n (blocksOf x).getLast? h = reserveAt range r h := by
  induction n generalizing x y with
  | zero =>
    obtain rfl : x = [] := length_eq_zero_iff.1 (Nat.le_zero.1 hn)
    exact .inl ⟨by simp, rfl⟩
  | succ n ih =>
    rcases eq_nil_or_concat x with rfl | ⟨x, r, rfl⟩
    · exact .inl ⟨by simp, rfl⟩
    rw [concat_eq_append] at *
    have hr' : Represents h (x ++ r :: y) lists spare := by simpa using hr
    obtain ⟨k, hk⟩ := hr'.stores
    have hrange : (⟨k.offset, k.offset + k.size⟩ : AnyRange) = r.range := by
      rw [hk.offset, hk.size]
      rfl
    rw [show (blocksOf (x ++ [r])).getLast? = some r.block by simp, reserveLoop,
      bind_run (deref_run hk.block)]
    simp only [hrange]
    by_cases hholds : r.range.containsRange range ∨ r.range = range
    · refine .inr ⟨x, r, [], rfl, by simp, fun hpassed => hpassed.1 hholds, ?_⟩
      rw [if_pos hholds, hk.free, reserveAt]
      cases hused : r.used with
      | true => rw [if_pos (show (!true) = false from rfl), if_neg (by simp)]
      | false =>
        rw [if_neg (by simp), if_pos ⟨hholds, rfl⟩]
        rfl
    · by_cases hover : r.range.overlaps range
      · refine .inr ⟨x, r, [], rfl, by simp, fun hpassed => hpassed.2 hover, ?_⟩
        rw [if_neg hholds, if_pos hover, reserveAt, if_neg fun hc => hholds hc.1]
      · have hpassed : r.Passed range := ⟨hholds, hover⟩
        rw [if_neg hholds, if_neg hover, hk.prev]
        rcases ih hr' (by simpa using hn) with ⟨hall, hrun⟩ | ⟨l, r', t, rfl, ht, hstop, hrun⟩
        · refine .inl ⟨fun q hq => ?_, hrun⟩
          rcases mem_append.1 hq with hq | hq
          · exact hall q hq
          · rw [mem_singleton.1 hq]
            exact hpassed
        · refine .inr ⟨l, r', t ++ [r], by simp, fun q hq => ?_, hstop, hrun⟩
          rcases mem_append.1 hq with hq | hq
          · exact ht q hq
          · rw [mem_singleton.1 hq]
            exact hpassed

/-- The free block in which the search finds the range: the range ends inside of it, or it is the
null block. -/
structure Finds (rs l : List Region) (r : Region) (t : List Region) (range : AnyRange) : Prop where
  chain : rs = l ++ r :: t
  free : r.used = false
  front : r.offset ≤ range.front
  back : range.back ≤ r.offset + r.size
  inside : range.back < r.offset + r.size ∨ t = []

lemma Finds.holds (hf : Finds rs l r t range) : r.Holds range := .inl ⟨hf.front, hf.back⟩

lemma holds_iff : r.Holds range ↔ r.offset ≤ range.front ∧ range.back ≤ r.offset + r.size := by
  constructor
  · rintro (hc | heq)
    · exact hc
    · rw [← heq]
      exact ⟨le_rfl, le_rfl⟩
  · exact .inl

lemma Formed.behind (hf : Formed h base (l ++ r :: t) lists spare) {q : Region} (hq : q ∈ t) :
    r.offset + r.size ≤ q.offset := by
  have hpairs := hf.tiling.tiles.pairwise
  rw [pieces_append, pieces_cons, pairwise_append] at hpairs
  exact (pairwise_cons.1 hpairs.2.1).1 q.piece (piece_mem hq)

lemma Formed.apart {q : Region} (hf : Formed h base rs lists spare) (hr : r ∈ rs) (hq : q ∈ rs)
    (hne : r ≠ q) : r.offset + r.size ≤ q.offset ∨ q.offset + q.size ≤ r.offset := by
  obtain ⟨l, t, rfl⟩ := append_of_mem hr
  rcases mem_append.1 hq with hl | ht
  · obtain ⟨l1, l2, rfl⟩ := append_of_mem hl
    have hf' : Formed h base (l1 ++ q :: (l2 ++ r :: t)) lists spare := by simpa using hf
    exact .inr (hf'.behind (by simp))
  · exact .inl (hf.behind ((mem_cons.1 ht).resolve_left (Ne.symm hne)))

lemma passed_of_lt (hrange : range.front < range.back) (hlt : range.back < r.offset) :
    r.Passed range := by
  simp only [Region.Passed, holds_iff, AnyRange.overlaps, AnyRange.contains, Region.range]
  omega

lemma not_passed_of_eq (hrange : range.front < range.back) (heq : r.offset = range.back)
    (hpos : 0 < r.size) : ¬ r.Passed range := by
  simp only [Region.Passed, holds_iff, AnyRange.overlaps, AnyRange.contains, Region.range]
  omega

lemma reserveLoop_finds (hw : Wellformed h base rs lists spare) (hrange : range.front < range.back)
    (hn : rs.length ≤ n) :
    (∃ l r t, Finds rs l r t range ∧
      reserveLoop range n (some h.mNullBlock) h = reserveIn range r.block h) ∨
    ((∀ l r t, ¬ Finds rs l r t range) ∧ ∃ status, status ≠ .success ∧
      reserveLoop range n (some h.mNullBlock) h = .ok ((status, none), h)) := by
  have hr : Represents h (rs ++ []) lists spare := by simpa using hw.repr
  have hloop := reserveLoop_run range hr hn
  rw [hw.repr.null] at hloop
  rcases hloop with ⟨hall, hrun⟩ | ⟨l, r, t, hrs, ht, hstop, hrun⟩
  · refine .inr ⟨fun l r t hfinds => ?_, .notFound, by decide, hrun⟩
    have hpassed := hall r (by rw [hfinds.chain]; simp)
    exact hpassed.1 hfinds.holds
  · subst hrs
    by_cases hfound : r.Holds range ∧ r.used = false
    · -- The block above a free one is used, so the range does not end where it starts.
      rw [reserveAt, if_pos hfound] at hrun
      have hholds := holds_iff.1 hfound.1
      refine .inl ⟨l, r, t, ⟨rfl, hfound.2, hholds.1, hholds.2, ?_⟩, hrun⟩
      cases t with
      | nil => exact .inr rfl
      | cons q t =>
        left
        by_contra hend
        have hcoalesced := hw.coalesced
        rw [pieces_append, pieces_cons, coalesced_middle] at hcoalesced
        have hused : q.used = true :=
          (hcoalesced.2.2.2 q.piece (by simp)).resolve_left (by simp [Region.piece, hfound.2])
        have hw' : Wellformed h base ((l ++ [r]) ++ q :: t) lists spare := by simpa using hw
        have hpos := hw'.toFormed.positive (hw'.toFormed.used_ne_null hused)
        have htiling := hw.tiling.tiles
        rw [pieces_append, pieces_cons, pieces_cons, tiles_middle] at htiling
        have hseam : q.offset = r.offset + r.size := by
          obtain ⟨-, hoffset, hnext, -⟩ := htiling
          simp only [Region.piece] at hoffset hnext
          omega
        exact not_passed_of_eq hrange (by omega) hpos (ht q (by simp))
    · rw [reserveAt, if_neg hfound] at hrun
      refine .inr ⟨fun l0 r0 t0 hfinds => ?_, .notAvailable, by decide, hrun⟩
      have hnot : r0 ∉ t := fun hmem => (ht r0 hmem).1 hfinds.holds
      have hmem : r0 ∈ l ++ r :: t := by rw [hfinds.chain]; simp
      have hne : r0 ≠ r := fun heq => hfound ⟨heq ▸ hfinds.holds, heq ▸ hfinds.free⟩
      -- The block found lies below the one the search stopped at, which is then above it.
      have hl : r0 ∈ l := by
        simp only [mem_append, mem_cons, hnot, hne, or_false] at hmem
        exact hmem
      obtain ⟨l1, l2, rfl⟩ := append_of_mem hl
      have hw' : Wellformed h base (l1 ++ r0 :: (l2 ++ r :: t)) lists spare := by simpa using hw
      rcases hfinds.inside with hinside | rfl
      · have hbehind := hw'.toFormed.behind (q := r) (by simp)
        exact hstop (passed_of_lt hrange (by omega))
      · have hr0 : Represents h (l0 ++ [r0]) lists spare := by
          rw [← hfinds.chain]
          exact hw.repr
        have hnil := hw'.repr.null_iff.1 (hr0.null_iff.2 rfl)
        simp at hnil

/-! ## The cut -/

/-- A first block that is split in front of the range is in no list, or stays in its list. -/
def SplitKeeps (h : TlsfHeap) (l : List Region) (r : Region) (range : AnyRange) : Prop :=
  l = [] → r.offset ≠ range.front → r.block = h.mNullBlock ∨
    getListIndex (r.offset + r.size - range.front) = getListIndex r.size

/-- The number of control blocks for a range in the free block `r`. -/
def blocksForRange (h : TlsfHeap) (l : List Region) (r : Region) (range : AnyRange) : Nat :=
  if range.front = r.offset ∨ l ≠ [] then blocksFor h r range.front (range.back - range.front)
  else 2

lemma blocksForRange_le (h : TlsfHeap) (l : List Region) (r : Region) (range : AnyRange) :
    blocksForRange h l r range ≤ 2 := by
  rw [blocksForRange]
  split
  · exact blocksFor_le ..
  · exact le_rfl

/-- The outcomes of `reserveIn`. -/
inductive ReserveInOutcome (h : TlsfHeap) (base : Nat) (l : List Region) (r : Region)
    (t : List Region) (lists : Nat → List BlockPtr) (spare : List BlockPtr) (range : AnyRange) :
    Except Fault ((OsStatus × Option BlockPtr) × TlsfHeap) → Prop where
  | reserved {h' : TlsfHeap} {rs' : List Region} {lists' : Nat → List BlockPtr}
      (hpool : supplies (blocksForRange h l r range) h.mBlockPool = true)
      (hkeeps : Keeps h h') (hw : Wellformed h' base rs' lists' spare)
      (hlive : usedRegions rs' = usedRegions l ++
        ⟨r.block, range.front, range.back - range.front, true⟩ :: usedRegions t) :
      ReserveInOutcome h base l r t lists spare range (.ok ((.success, some r.block), h'))
  | exhausted {h' : TlsfHeap}
      (hpool : supplies (blocksForRange h l r range) h.mBlockPool = false)
      (hsame : Unchanged h h') (hw : Wellformed h' base (l ++ r :: t) lists spare) :
      ReserveInOutcome h base l r t lists spare range (.ok ((.outOfMemory, none), h'))
  | halfway {h' : TlsfHeap} {c : BlockPtr} {lists' : Nat → List BlockPtr} (hl : l = [])
      (hsplit : r.offset < range.front) (hone : supplies 1 h.mBlockPool = true)
      (hpool : supplies 2 h.mBlockPool = false) (hkeeps : Keeps h h')
      (hf : Formed h' base (⟨c, r.offset, range.front - r.offset, false⟩ ::
        { r with offset := range.front, size := r.offset + r.size - range.front } :: t)
        lists' spare) :
      ReserveInOutcome h base l r t lists spare range (.ok ((.outOfMemory, none), h'))

lemma reserveIn_here (hw : Wellformed h base (l ++ r :: t) lists spare)
    (hfinds : Finds (l ++ r :: t) l r t range) (hrange : range.front < range.back)
    (hhere : range.front = r.offset ∨ l ≠ []) :
    ReserveInOutcome h base l r t lists spare range (reserveIn range r.block h) := by
  have hword := hw.toFormed.back_lt (r := r) (by simp)
  have hfront := hfinds.front
  have hback := hfinds.back
  obtain ⟨k, hk⟩ := hw.repr.stores
  have hsize : wrapSub wordCount range.back range.front = range.back - range.front :=
    wrapSub_of_le (by omega) (by omega)
  rw [reserveIn, bind_run (splitBlockForAllocationIfRequired_same hw.repr hhere)]
  show ReserveInOutcome _ _ _ _ _ _ _ _ ((deref r.block >>= _) h)
  rw [bind_run (deref_run hk.block), hk.size, bind_run (assumePositive_run (by omega)), hsize]
  have hout := reserveBlock_run hw hfinds.free hfront (Nat.sub_pos_of_lt hrange) (by omega) hhere
    (.inr rfl)
  generalize hblock : reserveBlock r.block (range.back - range.front) range.front
    (getListIndex r.size) h = result at hout
  cases hout with
  | refused hpool hafter hsame hw' =>
    rw [bind_run hblock]
    exact .exhausted (by rwa [blocksForRange, if_pos hhere]) hsame hw'
  | carved hpool hkeeps hw' hlive =>
    rw [bind_run hblock]
    exact .reserved (by rwa [blocksForRange, if_pos hhere]) hkeeps hw' hlive

lemma reserveIn_first (hw : Wellformed h base (r :: t) lists spare)
    (hfinds : Finds (r :: t) [] r t range) (hrange : range.front < range.back)
    (hsplit : r.offset < range.front) (hkeep : r.block = h.mNullBlock ∨
      getListIndex (r.offset + r.size - range.front) = getListIndex r.size) :
    ReserveInOutcome h base [] r t lists spare range (reserveIn range r.block h) := by
  have hword := hw.toFormed.back_lt (r := r) (by simp)
  have hback := hfinds.back
  have hsize : wrapSub wordCount range.back range.front = range.back - range.front :=
    wrapSub_of_le (by omega) (by omega)
  have htwo : blocksForRange h [] r range = 2 := by
    rw [blocksForRange, if_neg]
    rintro (heq | hne)
    · omega
    · exact hne rfl
  rw [reserveIn]
  rcases splitFirst_run hw.toFormed hsplit (by omega) hkeep with
    ⟨hnone, h1, hrun1, hsame1, hf1⟩ | ⟨c, h1, ha, hrun1, hkeeps1, hnull1, hf1⟩
  · rw [bind_run hrun1]
    refine .exhausted ?_ hsame1 ⟨hf1, hw.coalesced⟩
    rw [htwo, supplies]
    split
    · next heq =>
      rw [heq] at hnone
      cases hnone
    · rfl
  · have hf1' : Formed h1 base ([⟨c, r.offset, range.front - r.offset, false⟩] ++
        { r with offset := range.front, size := r.offset + r.size - range.front } :: t)
        (enlist lists ⟨c, r.offset, range.front - r.offset, true⟩) spare := hf1
    obtain ⟨k, hk⟩ := hf1'.repr.stores
    rw [bind_run hrun1]
    show ReserveInOutcome _ _ _ _ _ _ _ _ ((deref r.block >>= _) h1)
    rw [bind_run (deref_run hk.block), hk.size, bind_run (assumePositive_run (by
      show 0 < r.offset + r.size - range.front
      omega)), hsize]
    have hone : supplies 2 h.mBlockPool = supplies 1 h1.mBlockPool := by
      rw [supplies, ha]
    -- The cut takes one block more: it leaves bytes behind, or it is in the null block.
    have hcut : blocksFor h1 { r with offset := range.front, size := r.offset + r.size - range.front }
        range.front (range.back - range.front) = 1 := by
      rw [blocksFor, if_neg (by simp), Nat.zero_add, if_neg]
      rintro ⟨hsize, hnull⟩
      rcases hfinds.inside with hinside | rfl
      · simp only at hsize
        omega
      · exact hnull (hf1'.repr.null_iff.2 rfl)
    rcases reserveBlock_formed hf1' hfinds.free le_rfl (Nat.sub_pos_of_lt hrange)
      (show range.front + (range.back - range.front) ≤
        range.front + (r.offset + r.size - range.front) by omega) (.inl rfl) (.inr rfl) with
      ⟨hpool, h2, hrun2, -, hsame2, hf2⟩ |
      ⟨hpool, h2, pads, tails, lists2, hrun2, hkeeps2, hf2, hpads, htails⟩
    · rw [bind_run hrun2]
      rw [hcut, ← hone] at hpool
      refine .halfway rfl hsplit ?_ hpool (hkeeps1.trans hsame2.keeps) hf2
      rw [supplies, ha]
      rfl
    · rw [bind_run hrun2]
      obtain rfl : pads = [] := by
        rw [padding, if_pos rfl] at hpads
        exact pieces_eq_nil.1 hpads
      rw [show range.front + (r.offset + r.size - range.front) = r.offset + r.size by omega]
        at htails
      refine .reserved (by rw [htwo, hone, ← hcut]; exact hpool) (hkeeps1.trans hkeeps2)
        ⟨hf2, ?_⟩ ?_
      · have hcoalesced : Coalesced (pieces ([] ++ r :: t)) := hw.coalesced
        rw [pieces_append, pieces_cons] at hcoalesced
        have hcarve : Coalesced (pieces [] ++ padding r.offset range.front ++
            ⟨range.front, range.back - range.front, true⟩ ::
              (remainder (range.front + (range.back - range.front)) (r.offset + r.size)
                (decide (pieces t = [])) ++ pieces t)) := hcoalesced.carve hfinds.free
        rw [padding, if_neg (by omega), ← htails, ← pieces_append] at hcarve
        rw [append_nil]
        exact hcarve
      · rw [usedRegions_carved (r := ⟨c, range.front, 0, true⟩) (by simp [padding]) htails,
          usedRegions_free rfl]

lemma reserveIn_run (hw : Wellformed h base rs lists spare) (hfinds : Finds rs l r t range)
    (hrange : range.front < range.back) (hkeep : SplitKeeps h l r range) :
    ReserveInOutcome h base l r t lists spare range (reserveIn range r.block h) := by
  obtain rfl := hfinds.chain
  by_cases hhere : range.front = r.offset ∨ l ≠ []
  · exact reserveIn_here hw hfinds hrange hhere
  · rw [not_or, not_not] at hhere
    obtain ⟨hne, rfl⟩ := hhere
    have hfront := hfinds.front
    exact reserveIn_first hw hfinds hrange (by omega) (hkeep rfl (Ne.symm hne))

/-! ## The whole call -/

/-- The outcomes of `reserve`, which compacts the pool and then searches. -/
inductive RangeOutcome (h : TlsfHeap) (base : Nat) (rs : List Region) (lists : Nat → List BlockPtr)
    (spare : List BlockPtr) (range : AnyRange) :
    Except Fault ((OsStatus × Option BlockPtr) × TlsfHeap) → Prop where
  | reserved {l t rs' : List Region} {r : Region} {h' : TlsfHeap} {lists' : Nat → List BlockPtr}
      (hfinds : Finds rs l r t range)
      (hpool : supplies (blocksForRange h l r range) h.compacted.mBlockPool = true)
      (hkeeps : Keeps h h') (hw : Wellformed h' base rs' lists' spare)
      (hlive : usedRegions rs' = usedRegions l ++
        ⟨r.block, range.front, range.back - range.front, true⟩ :: usedRegions t) :
      RangeOutcome h base rs lists spare range (.ok ((.success, some r.block), h'))
  | exhausted {l t : List Region} {r : Region} {h' : TlsfHeap} (hfinds : Finds rs l r t range)
      (hpool : supplies (blocksForRange h l r range) h.compacted.mBlockPool = false)
      (hsame : Unchanged h h') (hw : Wellformed h' base rs lists spare) :
      RangeOutcome h base rs lists spare range (.ok ((.outOfMemory, none), h'))
  | halfway {t : List Region} {r : Region} {h' : TlsfHeap} {c : BlockPtr}
      {lists' : Nat → List BlockPtr} (hfinds : Finds rs [] r t range)
      (hsplit : r.offset < range.front)
      (hone : supplies 1 h.compacted.mBlockPool = true)
      (hpool : supplies 2 h.compacted.mBlockPool = false) (hkeeps : Keeps h h')
      (hf : Formed h' base (⟨c, r.offset, range.front - r.offset, false⟩ ::
        { r with offset := range.front, size := r.offset + r.size - range.front } :: t)
        lists' spare) :
      RangeOutcome h base rs lists spare range (.ok ((.outOfMemory, none), h'))
  | missed {status : OsStatus} {h' : TlsfHeap} (hnone : ∀ l r t, ¬ Finds rs l r t range)
      (hstatus : status ≠ .success) (hsame : Unchanged h h')
      (hw : Wellformed h' base rs lists spare) :
      RangeOutcome h base rs lists spare range (.ok ((status, none), h'))

lemma reserve_run (hw : Wellformed h base rs lists spare) (hrange : range.front < range.back)
    (hkeep : ∀ l r t, Finds rs l r t range → SplitKeeps h l r range) :
    RangeOutcome h base rs lists spare range (reserve range h) := by
  obtain ⟨hrun, hsame, hw1⟩ := compact_run hw
  rw [reserve, bind_run hrun, bind_run get_run]
  rcases reserveLoop_finds hw1 hrange (Nat.le_succ_of_le hw1.repr.length_le) with
    ⟨l, r, t, hfinds, hloop⟩ | ⟨hnone, status, hstatus, hloop⟩
  · rw [hloop]
    have hout := reserveIn_run hw1 hfinds hrange (hkeep l r t hfinds)
    generalize reserveIn range r.block h.compacted = result at hout
    cases hout with
    | reserved hpool hkeeps hw' hlive =>
      exact .reserved hfinds hpool (hsame.keeps.trans hkeeps) hw' hlive
    | exhausted hpool hsame' hw' =>
      rw [← hfinds.chain] at hw'
      exact .exhausted hfinds hpool (hsame.trans hsame') hw'
    | halfway hl hsplit hone hpool hkeeps hf =>
      subst hl
      exact .halfway hfinds hsplit hone hpool (hsame.keeps.trans hkeeps) hf
  · rw [hloop]
    exact .missed hnone hstatus hsame hw1

lemma RangeOutcome.result {status : OsStatus} {b : Option BlockPtr}
    (hout : RangeOutcome h base rs lists spare range (.ok ((status, b), h'))) :
    b = none ∨ status = .success := by
  cases hout with
  | reserved => exact .inr rfl
  | exhausted => exact .inl rfl
  | halfway => exact .inl rfl
  | missed => exact .inl rfl

lemma allocateAt_run {address size : Nat} (hw : Wellformed h base rs lists spare)
    (hword : address + size < wordCount) (hkeep : ∀ l r t,
      Finds rs l r t ⟨address, address + size⟩ → SplitKeeps h l r ⟨address, address + size⟩) :
    ((address % kMaxAlign ≠ 0 ∨ size = 0) ∧ allocateAt address size h = .ok (none, h)) ∨
    (address % kMaxAlign = 0 ∧ 0 < size ∧ ∃ status b h',
      RangeOutcome h base rs lists spare ⟨address, address + size⟩ (.ok ((status, b), h')) ∧
      allocateAt address size h = .ok (b, h')) := by
  rw [allocateAt]
  by_cases halign : address % kMaxAlign = 0
  case neg => exact .inl ⟨.inl halign, by rw [if_pos halign]; rfl⟩
  by_cases hsize : size = 0
  case pos => exact .inl ⟨.inr hsize, by rw [if_neg (not_not.2 halign), if_pos hsize]; rfl⟩
  have hpos : 0 < size := Nat.pos_of_ne_zero hsize
  rw [if_neg (not_not.2 halign), if_neg hsize, wrapAdd_of_lt hword]
  have hout : RangeOutcome h base rs lists spare ⟨address, address + size⟩
      (reserve ⟨address, address + size⟩ h) :=
    reserve_run hw (show address < address + size by omega) hkeep
  obtain ⟨⟨⟨status, b⟩, h'⟩, hrun⟩ :
      ∃ result, reserve ⟨address, address + size⟩ h = .ok result := by
    generalize reserve ⟨address, address + size⟩ h = result at hout
    cases hout <;> exact ⟨_, rfl⟩
  rw [hrun] at hout
  refine .inr ⟨halign, hpos, status, b, h', hout, ?_⟩
  rw [bind_run hrun]
  rcases hout.result with rfl | rfl
  · cases status <;> rfl
  · rfl

end Tlsf
end BezOS
