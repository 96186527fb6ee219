import BezOS.Memory.TlsfBorrow

/-!
# Cutting a block out of a free one

`reserveBlock` makes an allocation of a part of a free block. What lies in front of the part goes
to a new free block, and so does what lies behind it; the null block keeps what lies behind even
if that is nothing. The new blocks are taken from the pool first, so a call that cannot have them
changes nothing.
-/

namespace BezOS
namespace Tlsf

open Lib Function List PoolAllocator

variable {h h' : TlsfHeap} {base listIndex s : Nat} {rs l t : List Region} {p r : Region}
  {lists : Nat → List BlockPtr} {spare buffer : List BlockPtr} {c : BlockPtr}

/-! ## Taking the block out of its list -/

lemma Formed.detach (hf : Formed h base (l ++ r :: t) lists spare) (hfree : r.used = false)
    (hnull : r.block ≠ h.mNullBlock) :
    ∃ h' lists', detachBlock r.block (getListIndex r.size) h = .ok ((), h') ∧
      h'.header = h.header ∧ Formed h' base (l ++ r :: t) lists' spare ∧
      unlist lists' r = unlist lists r := by
  obtain ⟨k, hk⟩ := hf.repr.stores
  have hmem : r.block ∈ lists (getListIndex r.size) :=
    (hf.repr.member r (by simp) _).2 ⟨hfree, hnull, rfl⟩
  obtain ⟨x, y, hi⟩ := append_of_mem hmem
  obtain ⟨hbx, hby, -⟩ := hf.repr.listed.split_nodup hi
  obtain ⟨h', hrun, hrel⟩ := detachBlock_run hf.repr.listed hi hk.block (hf.safe (by simp)).list
  have herase : (lists (getListIndex r.size)).erase r.block = x ++ y := by
    rw [hi, erase_append_right _ hbx, erase_cons_head]
  refine ⟨h', update lists (getListIndex r.size) (r.block :: (x ++ y)), hrun,
    hrel.core.header, ?_, ?_⟩
  · have hr' := hf.repr.relist hnull (v := false) (by simpa using hrel) ?_ ?_
    · rw [← hfree] at hr'
      exact hf.of_represents hr' (.of_header hrel.core.header) hf.tiling
    · intro a ha j
      by_cases hj : j = getListIndex r.size
      · subst hj
        rw [update_self, hi]
        simp [ha]
      · rw [update_of_ne hj]
    · intro j
      by_cases hj : j = getListIndex r.size
      · subst hj
        rw [update_self]
        simp
      · rw [update_of_ne hj]
        simp only [true_and, Ne.symm hj, iff_false]
        exact fun hmem' => hj (hf.repr.listed.disjoint j _ r.block hmem' hmem)
  · rw [unlist, unlist, update_self, erase_cons_head, herase, update_idem]

lemma Formed.takeListed (hf : Formed h base (l ++ r :: t) lists spare) (hfree : r.used = false)
    (hnull : r.block ≠ h.mNullBlock) (hindex : listIndex = getListIndex r.size) :
    ∃ h1 h', detachBlock r.block listIndex h = .ok ((), h1) ∧
      takeIfListed r.block h1 = .ok ((), h') ∧ h'.header = h.header ∧
      Formed h' base (l ++ { r with used := true } :: t) (unlist lists r) spare := by
  subst hindex
  obtain ⟨h1, lists1, hrun1, hheader1, hf1, hlists⟩ := hf.detach hfree hnull
  have hnull1 : r.block ≠ h1.mNullBlock := by
    rw [(Stays.of_header hheader1).mNullBlock]
    exact hnull
  obtain ⟨h2, hrun2, hheader2, hf2⟩ := hf1.take hfree hnull1
  rw [hlists] at hf2
  refine ⟨h1, h2, hrun1, ?_, hheader2.trans hheader1, hf2⟩
  rw [takeIfListed, bind_run get_run, if_pos hnull1]
  exact hrun2

lemma Represents.takeNull (hr : Represents h (l ++ [r]) lists spare) (listIndex : Nat) :
    detachBlock r.block listIndex h = .ok ((), h) ∧ takeIfListed r.block h = .ok ((), h) := by
  obtain ⟨k, hk⟩ := hr.stores
  have hnull : r.block = h.mNullBlock := hr.null_iff.2 rfl
  have hfirst : k.prevFree = none := by
    rw [← prevFreeOf_eq hk.block, hnull]
    exact hr.nullFree
  refine ⟨detachBlock_first hk.block hfirst listIndex, ?_⟩
  rw [takeIfListed, bind_run get_run, if_neg (not_not.2 hnull)]
  rfl

/-! ## The bytes in front -/

lemma takeBuffer_run {init : TlsfBlock} (hc : (h.blocks c).isSome) :
    takeBuffer init (c :: buffer) h = .ok ((c, buffer), h.edit (some c) fun _ => init) := by
  rw [takeBuffer, bind_run (write_run hc)]
  rfl

lemma padBlock_run {m : Nat} (buffer : List BlockPtr)
    (hr : Represents h (l ++ p :: r :: t) lists (c :: spare))
    (hp : p.used = true) (hunlisted : r.used = true ∨ r.block = h.mNullBlock) (hm : 0 < m)
    (hmr : m ≤ r.size) (hword : r.offset + r.size < wordCount)
    (hsafe : BlockIndicesSafe h.mFreeListCount m) :
    ∃ h', padBlock r.block m (c :: buffer) h = .ok (buffer, h') ∧ Stays h h' ∧
      Represents h' (l ++ p :: ⟨c, r.offset, m, false⟩ ::
        { r with offset := r.offset + m, size := r.size - m } :: t)
        (enlist lists ⟨c, r.offset, m, true⟩) spare := by
  have hr' : Represents h ((l ++ [p]) ++ r :: t) lists (c :: spare) := by simpa using hr
  obtain ⟨kp, hkp⟩ := hr.stores
  obtain ⟨kr, hkr⟩ := hr'.stores
  obtain ⟨hnot, hcsome, -, hcnull⟩ := hr.spare_fresh
  have hpr : p.block ≠ r.block := hr'.other_ne (by simp)
  have hinsert := hr.insertAfter hp r.offset m p.size
    fun k hk => by
      obtain rfl : kp = k := Option.some.inj (hkp.block.symm.trans hk)
      rw [← hkp.size]
  rw [show (blocksOf (r :: t)).head? = some r.block by simp, edit_comm hpr] at hinsert
  -- The new block is put into its list, then `r` is moved.
  obtain ⟨h2, hh2⟩ : ∃ h2, h2 = (((h.edit (some c) fun _ =>
      ⟨r.offset, m, some p.block, some r.block, none, none⟩).edit (some r.block)
        fun n => { n with prev := some c }).edit (some p.block)
        fun p => { p with next := some c }).edit (some c)
        fun n => { n with prevFree := some c } := ⟨_, rfl⟩
  have hstays2 : Stays h h2 := by
    rw [hh2]
    exact (((Stays.edit _ _ _).trans (.edit _ _ _)).trans (.edit _ _ _)).trans (.edit _ _ _)
  rw [← hh2] at hinsert
  have hr2 : Represents h2 ((l ++ [p]) ++ ⟨c, r.offset, m, true⟩ :: r :: t) lists spare := by
    simpa using hinsert
  obtain ⟨h3, hrun3, hheader3, hr3⟩ := hr2.release rfl
    (by rw [hstays2.mNullBlock]; exact hcnull) hm (by rw [hstays2.mFreeListCount]; exact hsafe)
  have hstays3 := hstays2.trans (.of_header hheader3)
  have hr3' : Represents h3 ((l ++ [p, ⟨c, r.offset, m, false⟩]) ++ r :: t)
      (enlist lists ⟨c, r.offset, m, true⟩) spare := by
    simpa using hr3
  obtain ⟨kr3, hkr3⟩ := hr3'.stores
  have hunlisted3 : r.used = true ∨ r.block = h3.mNullBlock ∨
      getListIndex (r.size - m) = getListIndex r.size := by
    rw [hstays3.mNullBlock]
    exact hunlisted.imp_right .inl
  have hmoved := hr3'.rebound (r.offset + m) (r.size - m) hunlisted3 (g := fun b => { b with
      size := wrapSub wordCount b.size m, offset := wrapAdd wordCount b.offset m }) fun k hk => by
    obtain rfl : kr3 = k := Option.some.inj (hkr3.block.symm.trans hk)
    rw [hkr3.size, hkr3.offset, wrapSub_of_le hmr (by omega), wrapAdd_of_lt (by omega)]
  refine ⟨_, ?_, hstays3.trans (.edit _ _ _), by simpa using hmoved⟩
  have hprev : kr.prev = some p.block := by rw [hkr.prev]; simp
  have hused : kp.isFree p.block = false := by rw [hkp.free, hp]; rfl
  have hbefore : padBefore r.block p.block kr.offset m (c :: buffer) h = .ok (buffer, h3) := by
    rw [padBefore, bind_run (deref_run hkp.block), hused, hkr.offset]
    show ((takeBuffer _ (c :: buffer)) >>= _) h = _
    rw [bind_run (takeBuffer_run hcsome)]
    show (write r.block _ >>= _) _ = _
    rw [bind_run (write_run (by simp [hkr.block])), bind_run (write_run (by simp [hkp.block])),
      bind_run (write_run (by simpa using hcsome)), ← hh2, bind_run hrun3]
    rfl
  rw [padBlock, if_pos hm, bind_run (deref_run hkr.block), hprev]
  show (padBefore r.block p.block kr.offset m (c :: buffer) >>= _) h = _
  rw [bind_run hbefore, bind_run (write_run (by rw [hkr3.block]; rfl))]
  rfl

/-! ## The bytes behind -/

lemma cutTail_exact (hr : Represents h (l ++ r :: t) lists spare)
    (hnull : r.block ≠ h.mNullBlock) :
    cutTail r.block r.size buffer h = .ok (buffer, h) := by
  obtain ⟨k, hk⟩ := hr.stores
  rw [cutTail, bind_run (deref_run hk.block), bind_run get_run, if_pos hk.size, if_neg hnull]
  rfl

lemma cutTail_used (buffer : List BlockPtr) (hr : Represents h (l ++ r :: t) lists (c :: spare))
    (hused : r.used = true) (hs : s < r.size) (hword : r.offset + r.size < wordCount)
    (hsafe : BlockIndicesSafe h.mFreeListCount (r.size - s)) :
    ∃ h', cutTail r.block s (c :: buffer) h = .ok (buffer, h') ∧ Stays h h' ∧
      Represents h' (l ++ { r with size := s } :: ⟨c, r.offset + s, r.size - s, false⟩ :: t)
        (enlist lists ⟨c, r.offset + s, r.size - s, true⟩) spare := by
  obtain ⟨k, hk⟩ := hr.stores
  obtain ⟨hnot, hcsome, -, hcnull⟩ := hr.spare_fresh
  have ht : t ≠ [] := by
    rintro rfl
    exact absurd hused (by rw [hr.null_used]; simp)
  have hnull : r.block ≠ h.mNullBlock := fun heq => ht (hr.null_iff.1 heq)
  obtain ⟨n, t, rfl⟩ := exists_cons_of_ne_nil ht
  have hnext : k.next = some n.block := by rw [hk.next]; simp
  have hn : (h.blocks n.block).isSome := (hr.objects _).2 (.inl (by simp))
  have hinsert := hr.insertAfter hused (r.offset + s) (r.size - s) s
    fun _ _ => rfl
  rw [show (blocksOf (n :: t)).head? = some n.block by simp] at hinsert
  obtain ⟨h2, hh2⟩ : ∃ h2, h2 = (((h.edit (some c) fun _ =>
      ⟨r.offset + s, r.size - s, some r.block, some n.block, none, none⟩).edit (some r.block)
        fun b => { b with next := some c, size := s }).edit (some n.block)
        fun n => { n with prev := some c }).edit (some c)
        fun n => { n with prevFree := some c } := ⟨_, rfl⟩
  have hstays2 : Stays h h2 := by
    rw [hh2]
    exact (((Stays.edit _ _ _).trans (.edit _ _ _)).trans (.edit _ _ _)).trans (.edit _ _ _)
  rw [← hh2] at hinsert
  have hr2 : Represents h2 ((l ++ [{ r with size := s }]) ++
      ⟨c, r.offset + s, r.size - s, true⟩ :: n :: t) lists spare := by
    simpa using hinsert
  obtain ⟨h3, hrun3, hheader3, hr3⟩ := hr2.release rfl
    (by rw [hstays2.mNullBlock]; exact hcnull) (Nat.sub_pos_of_lt hs)
    (by rw [hstays2.mFreeListCount]; exact hsafe)
  refine ⟨h3, ?_, hstays2.trans (.of_header hheader3), by simpa using hr3⟩
  have hcheck : decide (s < k.size) = true := by
    rw [hk.size]
    exact decide_eq_true hs
  rw [cutTail, bind_run (deref_run hk.block), bind_run get_run, if_neg (by rw [hk.size]; omega),
    bind_run (check_run hcheck), hk.offset, hk.size, wrapAdd_of_lt (by omega), hnext,
    bind_run (takeBuffer_run hcsome)]
  show (write r.block _ >>= _) _ = _
  rw [bind_run (write_run (by simp [hk.block])), if_neg hnull, bind_run nonNull_run,
    bind_run (write_run (by simpa using hn)), bind_run (write_run (by simpa using hcsome)), ← hh2,
    bind_run hrun3]
  rfl

lemma cutTail_null (buffer : List BlockPtr) (hr : Represents h (l ++ [r]) lists (c :: spare))
    (hs : s ≤ r.size) (hword : r.offset + r.size < wordCount) :
    ∃ h', cutTail r.block s (c :: buffer) h = .ok (buffer, h') ∧ Keeps h h' ∧
      Represents h' (l ++ [{ r with size := s, used := true }, ⟨c, r.offset + s, r.size - s, false⟩])
        lists spare := by
  obtain ⟨k, hk⟩ := hr.stores
  obtain ⟨hnot, hcsome, -, hcnull⟩ := hr.spare_fresh
  have hnull : r.block = h.mNullBlock := hr.null_iff.2 rfl
  have hrc : r.block ≠ c := fun heq => hnot (by simp [heq])
  have hnext : k.next = none := by rw [hk.next]; rfl
  obtain ⟨kc, hkc⟩ := Option.isSome_iff_exists.1 hcsome
  rw [cutTail, bind_run (deref_run hk.block), bind_run get_run]
  by_cases heq : k.size = s
  · rw [if_pos heq, if_pos hnull]
    refine ⟨{ (h.edit (some c) fun _ =>
      ⟨r.offset + s, 0, some r.block, none, none, none⟩).edit (some r.block)
        fun b => { b with next := some c, prevFree := some r.block } with mNullBlock := c },
      ?_, ⟨rfl, rfl, rfl, rfl, rfl⟩, ?_⟩
    · rw [hk.offset, wrapAdd_of_lt (by omega), bind_run (takeBuffer_run hcsome)]
      show ((modify _ : HeapM Unit) >>= _) _ = _
      rw [bind_run (modify_run _), bind_run (write_run (by simp [hk.block, TlsfHeap.edit, Ne.symm hrc]))]
      rfl
    rw [hk.size] at heq
    refine hr.insertNull (r.offset + s) (r.size - s) s hk.block ?_ ?_ ?_
    · simp [blocks_edit, hrc, hkc, heq]
    · simp [blocks_edit, Ne.symm hrc, hk.block, ← heq, ← hk.size]
    · intro a hac har
      simp [blocks_edit, Ne.symm hac, Ne.symm har]
  · have hcheck : decide (s < k.size) = true := by
      rw [decide_eq_true_eq, hk.size]
      rw [hk.size] at heq
      omega
    rw [if_neg heq]
    refine ⟨{ ((h.edit (some c) fun _ =>
      ⟨r.offset + s, r.size - s, some r.block, none, none, none⟩).edit (some r.block)
        fun b => { b with next := some c, size := s }).edit (some r.block)
        fun b => { b with prevFree := some r.block } with mNullBlock := c },
      ?_, ⟨rfl, rfl, rfl, rfl, rfl⟩, ?_⟩
    · rw [bind_run (check_run hcheck), hk.offset, hk.size, wrapAdd_of_lt (by omega), hnext,
        bind_run (takeBuffer_run hcsome)]
      show (write r.block _ >>= _) _ = _
      rw [bind_run (write_run (by simp [hk.block])), if_pos hnull]
      rw [bind_run (modify_run _), bind_run (write_run (by simp [hk.block, TlsfHeap.edit, Ne.symm hrc]))]
      rfl
    refine hr.insertNull (r.offset + s) (r.size - s) s hk.block ?_ ?_ ?_
    · simp [blocks_edit, hrc, hkc]
    · simp [blocks_edit, Ne.symm hrc, hk.block]
    · intro a hac har
      simp [blocks_edit, Ne.symm hac, Ne.symm har]

/-! ## The whole cut -/

variable {ds : List BlockPtr} {o : Nat}

lemma Formed.unlink (hf : Formed h base (l ++ r :: t) lists spare) (hfree : r.used = false)
    (hindex : r.block = h.mNullBlock ∨ listIndex = getListIndex r.size) :
    ∃ h1 h' lists' u, detachBlock r.block listIndex h = .ok ((), h1) ∧
      takeIfListed r.block h1 = .ok ((), h') ∧ h'.header = h.header ∧
      Formed h' base (l ++ { r with used := u } :: t) lists' spare ∧
      (u = true ∨ r.block = h.mNullBlock) := by
  by_cases hnull : r.block = h.mNullBlock
  · obtain rfl : t = [] := hf.repr.null_iff.1 hnull
    obtain ⟨hdetach, htake⟩ := hf.repr.takeNull listIndex
    refine ⟨h, h, lists, false, hdetach, htake, rfl, ?_, .inr hnull⟩
    rw [← hfree]
    exact hf
  · obtain ⟨h1, h', hdetach, htake, hheader, hf'⟩ :=
      hf.takeListed hfree hnull (hindex.resolve_left hnull)
    exact ⟨h1, h', _, true, hdetach, htake, hheader, hf', .inl rfl⟩

lemma padBlock_pads {m : Nat} (hf : Formed h base (l ++ r :: t) lists (ds ++ spare))
    (hunlisted : r.used = true ∨ r.block = h.mNullBlock) (hm : m ≤ r.size)
    (hl : m = 0 ∨ ∃ l1 p, l = l1 ++ [p] ∧ p.used = true)
    (hds : (if 0 < m then 1 else 0) ≤ ds.length) :
    ∃ h' pads lists' ds', padBlock r.block m ds h = .ok (ds', h') ∧ Stays h h' ∧
      Represents h' (l ++ pads ++ { r with offset := r.offset + m, size := r.size - m } :: t)
        lists' (ds' ++ spare) ∧
      pieces pads = padding r.offset (r.offset + m) ∧
      (if 0 < m then 1 else 0) + ds'.length = ds.length := by
  have hword := hf.back_lt (r := r) (by simp)
  have hsize := hf.size_le (r := r) (by simp)
  rcases Nat.eq_zero_or_pos m with rfl | hpos
  · refine ⟨h, [], lists, ds, ?_, .refl h, ?_, ?_, by simp⟩
    · rw [padBlock, if_neg (by omega)]
      rfl
    · simpa using hf.repr
    · simp [padding]
  · obtain ⟨l1, p, rfl, hp⟩ := hl.resolve_left (by omega)
    rw [if_pos hpos] at hds ⊢
    obtain ⟨c, ds, rfl⟩ : ∃ c ds', ds = c :: ds' := by
      cases ds with
      | nil => cases hds
      | cons c ds' => exact ⟨c, ds', rfl⟩
    have hr : Represents h (l1 ++ p :: r :: t) lists (c :: (ds ++ spare)) := by
      simpa using hf.repr
    obtain ⟨h', hrun, hstays, hr'⟩ := padBlock_run ds hr hp hunlisted hpos hm hword
      (hf.limits.safe (by omega))
    refine ⟨h', [⟨c, r.offset, m, false⟩], _, ds, hrun, hstays, by simpa using hr', ?_, ?_⟩
    · rw [padding, if_neg (by omega), Nat.add_sub_cancel_left]
      rfl
    · simp [Nat.add_comm]

lemma cutTail_tails (hr : Represents h (l ++ r :: t) lists (ds ++ spare))
    (hunlisted : r.used = true ∨ r.block = h.mNullBlock) (hlimits : Limits h base)
    (hword : r.offset + r.size < wordCount) (hsize : r.size ≤ h.mSize) (hs : s ≤ r.size)
    (hds : (if r.size = s ∧ r.block ≠ h.mNullBlock then 0 else 1) ≤ ds.length) :
    ∃ h' tails lists' ds', cutTail r.block s ds h = .ok (ds', h') ∧ Keeps h h' ∧
      Represents h' (l ++ { r with size := s, used := true } :: (tails ++ t)) lists'
        (ds' ++ spare) ∧
      pieces tails = remainder (r.offset + s) (r.offset + r.size) (decide (t = [])) ∧
      (if r.size = s ∧ r.block ≠ h.mNullBlock then 0 else 1) + ds'.length = ds.length := by
  have hnull := hr.null_iff
  have hcons : ∀ {n : Nat}, n = 1 → n ≤ ds.length → ∃ c ds', ds = c :: ds' := by
    rintro n rfl hn
    cases ds with
    | nil => cases hn
    | cons c ds' => exact ⟨c, ds', rfl⟩
  by_cases ht : t = []
  · -- The null block always leaves a new null block.
    subst ht
    have hif : (if r.size = s ∧ r.block ≠ h.mNullBlock then 0 else 1) = 1 :=
      if_neg fun hc => hc.2 (hnull.2 rfl)
    rw [hif] at hds ⊢
    obtain ⟨c, ds, rfl⟩ := hcons rfl hds
    obtain ⟨h', hrun, hkeeps, hr'⟩ := cutTail_null ds hr hs hword
    refine ⟨h', [⟨c, r.offset + s, r.size - s, false⟩], lists, ds, hrun, hkeeps,
      by simpa using hr', ?_, by simp [Nat.add_comm]⟩
    rw [remainder, if_neg (by simp), Nat.add_sub_add_left]
    rfl
  · have hne : r.block ≠ h.mNullBlock := fun heq => ht (hnull.1 heq)
    have hused := hunlisted.resolve_right hne
    by_cases heq : r.size = s
    · rw [if_pos ⟨heq, hne⟩] at hds ⊢
      subst heq
      refine ⟨h, [], lists, ds, cutTail_exact hr hne, .refl h, ?_, ?_, by simp⟩
      · rw [← hused]
        simpa using hr
      · rw [remainder, if_pos ⟨rfl, by simp [ht]⟩]
        rfl
    · have hif : (if r.size = s ∧ r.block ≠ h.mNullBlock then 0 else 1) = 1 :=
        if_neg fun hc => heq hc.1
      rw [hif] at hds ⊢
      obtain ⟨c, ds, rfl⟩ := hcons rfl hds
      obtain ⟨h', hrun, hstays, hr'⟩ := cutTail_used (s := s) ds hr hused (by omega) hword
        (hlimits.safe (by omega))
      rw [hused] at hr'
      refine ⟨h', [⟨c, r.offset + s, r.size - s, false⟩], _, ds, hrun, hstays.toKeeps,
        by simpa using hr', ?_, by simp [Nat.add_comm]⟩
      rw [remainder, if_neg (by omega), Nat.add_sub_add_left]
      rfl

/-- The number of blocks it takes to cut `s` bytes at `o` out of the free block `r`. -/
def blocksFor (h : TlsfHeap) (r : Region) (o s : Nat) : Nat :=
  (if 0 < o - r.offset then 1 else 0) +
    if r.size - (o - r.offset) = s ∧ r.block ≠ h.mNullBlock then 0 else 1

lemma blocksFor_le (h : TlsfHeap) (r : Region) (o s : Nat) : blocksFor h r o s ≤ 2 := by
  rw [blocksFor]
  split <;> split <;> decide

lemma Wellformed.before (hw : Wellformed h base (l ++ r :: t) lists spare)
    (hfree : r.used = false) : l = [] ∨ ∃ l1 p, l = l1 ++ [p] ∧ p.used = true := by
  rcases eq_nil_or_concat l with rfl | ⟨l1, p, rfl⟩
  · exact .inl rfl
  · refine .inr ⟨l1, p, by simp, ?_⟩
    have hcoalesced := hw.coalesced
    rw [pieces_append, pieces_cons, coalesced_middle] at hcoalesced
    refine (hcoalesced.2.2.1 p.piece ?_).resolve_right (by simp [Region.piece, hfree])
    simp

lemma requiredBlocks_run {k : TlsfBlock} (hr : Represents h (l ++ r :: t) lists spare)
    (hk : Represents.Stores h l r t k) (hword : r.size < wordCount) (ho : o - r.offset ≤ r.size)
    (hl : o - r.offset = 0 ∨ ∃ l1 p, l = l1 ++ [p] ∧ p.used = true) :
    requiredBlocks r.block k s (o - r.offset) h = .ok (blocksFor h r o s, h) := by
  rw [requiredBlocks, bind_run get_run, blocksFor]
  by_cases hm : 0 < o - r.offset
  · obtain ⟨l1, p, rfl, hp⟩ := hl.resolve_left (by omega)
    have hr' : Represents h (l1 ++ p :: r :: t) lists spare := by simpa using hr
    obtain ⟨kp, hkp⟩ := hr'.stores
    have hprev : k.prev = some p.block := by rw [hk.prev]; simp
    have hused : kp.isFree p.block = false := by rw [hkp.free, hp]; rfl
    rw [if_pos hm, if_pos hm, hprev, bind_run nonNull_run, bind_run (deref_run hkp.block), hused,
      hk.size, wrapSub_of_le ho hword]
    rfl
  · rw [if_neg hm, if_neg hm, hk.size, show r.size - (o - r.offset) = r.size by omega]
    simp [pure_run]

/-- The outcomes of `reserveBlock`. -/
inductive ReserveOutcome (h : TlsfHeap) (base : Nat) (l : List Region) (r : Region)
    (t : List Region) (lists : Nat → List BlockPtr) (spare : List BlockPtr) (o s : Nat) :
    Except Fault (Option BlockPtr × TlsfHeap) → Prop where
  | refused {h' : TlsfHeap}
      (hpool : supplies (blocksFor h r o s) h.mBlockPool = false)
      (hafter : h'.mBlockPool = afterRequest [] (blocksFor h r o s) h.mBlockPool)
      (hsame : Unchanged h h') (hw : Wellformed h' base (l ++ r :: t) lists spare) :
      ReserveOutcome h base l r t lists spare o s (.ok (none, h'))
  | carved {h' : TlsfHeap} {rs' : List Region} {lists' : Nat → List BlockPtr}
      (hpool : supplies (blocksFor h r o s) h.mBlockPool = true)
      (hkeeps : Keeps h h') (hw : Wellformed h' base rs' lists' spare)
      (hlive : usedRegions rs' = usedRegions l ++ ⟨r.block, o, s, true⟩ :: usedRegions t) :
      ReserveOutcome h base l r t lists spare o s (.ok (some r.block, h'))

lemma usedRegions_eq_nil {x : List Region} (hx : ∀ q ∈ pieces x, q.used = false) :
    usedRegions x = [] := by
  rw [usedRegions, filter_eq_nil_iff]
  intro q hq
  have hfree := hx q.piece (piece_mem hq)
  simpa [Region.piece] using hfree

/-- What is left of `reserveBlock` once the bytes in front are gone. -/
def finishBlock (block : BlockPtr) (size : Nat) (buffer : List BlockPtr) :
    HeapM (Option BlockPtr) := do
  let buffer ← cutTail block size buffer
  let b ← deref block
  check (!b.isFree block)
  destroyBuffer buffer
  return some block

lemma reserveBlock_front (hf : Formed h base (l ++ r :: t) lists spare) (hfree : r.used = false)
    (ho : r.offset ≤ o) (hend : o ≤ r.offset + r.size)
    (hfirst : o = r.offset ∨ ∃ l1 p, l = l1 ++ [p] ∧ p.used = true)
    (hindex : r.block = h.mNullBlock ∨ listIndex = getListIndex r.size) :
    (supplies (blocksFor h r o s) h.mBlockPool = false ∧ ∃ h',
      reserveBlock r.block s o listIndex h = .ok (none, h') ∧
      h'.mBlockPool = afterRequest [] (blocksFor h r o s) h.mBlockPool ∧
      Unchanged h h' ∧ Formed h' base (l ++ r :: t) lists spare) ∨
    (supplies (blocksFor h r o s) h.mBlockPool = true ∧ ∃ h' pads lists' ds u,
      reserveBlock r.block s o listIndex h = finishBlock r.block s ds h' ∧ Keeps h h' ∧
      h'.mNullBlock = h.mNullBlock ∧
      Represents h' (l ++ pads ++ ⟨r.block, o, r.offset + r.size - o, u⟩ :: t) lists'
        (ds ++ spare) ∧
      (u = true ∨ r.block = h.mNullBlock) ∧ pieces pads = padding r.offset o ∧
      ds.length = if r.offset + r.size - o = s ∧ r.block ≠ h.mNullBlock then 0 else 1) := by
  have hword := hf.back_lt (r := r) (by simp)
  have hrest : r.size - (o - r.offset) = r.offset + r.size - o := by omega
  have hoffset : r.offset + (o - r.offset) = o := by omega
  obtain ⟨k, hk⟩ := hf.repr.stores
  have hm : wrapSub wordCount o k.offset = o - r.offset := by
    rw [hk.offset]
    exact wrapSub_of_le ho (by omega)
  have hl : o - r.offset = 0 ∨ ∃ l1 p, l = l1 ++ [p] ∧ p.used = true :=
    hfirst.imp_left fun heq => by omega
  rw [reserveBlock, bind_run (deref_run hk.block)]
  simp only [hm]
  rw [bind_run (requiredBlocks_run hf.repr hk (by omega) (by omega) hl)]
  have hr0 : Represents h (l ++ r :: t) lists ([] ++ spare) := hf.repr
  rcases reserveBuffer_run (n := blocksFor h r o s) hr0 (.refl h) with
    ⟨hpool, h1, ds, hlen, hrun1, hr1, hb1⟩ | ⟨hpool, h1, hrun1, hr1, hb1, hafter⟩
  · rw [append_nil] at hrun1 hb1
    have hnull1 := hb1.mNullBlock
    obtain ⟨h1', h2, lists2, u, hdetach, htake, hheader2, hf2, hu⟩ :=
      (hb1.formed hf hr1).unlink hfree (by rw [hnull1]; exact hindex)
    have hstays2 := Stays.of_header hheader2
    rw [blocksFor, hrest] at hlen
    obtain ⟨h3, pads, lists3, ds3, hrun3, hstays3, hr3, hpads, hlen3⟩ := padBlock_pads hf2
      (by rw [hstays2.mNullBlock]; exact hu) (show o - r.offset ≤ r.size by omega) hl (by omega)
    simp only [hoffset, hrest] at hr3 hpads
    refine .inr ⟨hpool, h3, pads, lists3, ds3, u, ?_,
      (hb1.keeps.trans hstays2.toKeeps).trans hstays3.toKeeps, ?_, hr3, ?_, hpads, by omega⟩
    · rw [bind_run hrun1]
      show (detachBlock _ _ >>= _) h1 = _
      rw [bind_run hdetach, bind_run htake, bind_run hrun3]
      rfl
    · rw [hstays3.mNullBlock, hstays2.mNullBlock, hnull1]
    · rwa [hnull1] at hu
  · refine .inl ⟨hpool, h1, ?_, hafter, hb1.unchanged hf.repr hr1, hb1.formed hf hr1⟩
    rw [bind_run hrun1]
    rfl

lemma reserveBlock_formed (hf : Formed h base (l ++ r :: t) lists spare) (hfree : r.used = false)
    (ho : r.offset ≤ o) (hs : 0 < s) (hfit : o + s ≤ r.offset + r.size)
    (hfirst : o = r.offset ∨ ∃ l1 p, l = l1 ++ [p] ∧ p.used = true)
    (hindex : r.block = h.mNullBlock ∨ listIndex = getListIndex r.size) :
    (supplies (blocksFor h r o s) h.mBlockPool = false ∧ ∃ h',
      reserveBlock r.block s o listIndex h = .ok (none, h') ∧
      h'.mBlockPool = afterRequest [] (blocksFor h r o s) h.mBlockPool ∧
      Unchanged h h' ∧ Formed h' base (l ++ r :: t) lists spare) ∨
    (supplies (blocksFor h r o s) h.mBlockPool = true ∧ ∃ h' pads tails lists',
      reserveBlock r.block s o listIndex h = .ok (some r.block, h') ∧ Keeps h h' ∧
      Formed h' base (l ++ pads ++ ⟨r.block, o, s, true⟩ :: (tails ++ t)) lists' spare ∧
      pieces pads = padding r.offset o ∧
      pieces tails = remainder (o + s) (r.offset + r.size) (decide (pieces t = []))) := by
  have hword := hf.back_lt (r := r) (by simp)
  have hsize := hf.size_le (r := r) (by simp)
  rcases reserveBlock_front hf hfree ho (by omega) hfirst hindex with
    hrefused | ⟨hpool, h1, pads, lists1, ds, u, hrun, hkeeps1, hnull1, hr1, hu, hpads, hlen⟩
  · exact .inl hrefused
  · have hsize1 : r.offset + r.size - o ≤ h1.mSize := by
      rw [hkeeps1.mSize]
      omega
    obtain ⟨h2, tails, lists2, ds2, hrun2, hkeeps2, hr2, htails, hlen2⟩ :=
      cutTail_tails hr1 (by rw [hnull1]; exact hu) (hf.limits.keeps hkeeps1)
        (show o + (r.offset + r.size - o) < wordCount by omega) hsize1
        (show s ≤ r.offset + r.size - o by omega) (by rw [hnull1, hlen])
    rw [hnull1, hlen] at hlen2
    obtain rfl : ds2 = [] := length_eq_zero_iff.1 (Nat.add_left_cancel (hlen2.trans rfl))
    have hlast : decide (t = []) = decide (pieces t = []) := decide_eq_decide.2 pieces_eq_nil.symm
    rw [show o + (r.offset + r.size - o) = r.offset + r.size by omega, hlast] at htails
    have hr2' : Represents h2 ((l ++ pads) ++ ⟨r.block, o, s, true⟩ :: (tails ++ t)) lists2 spare :=
      hr2
    obtain ⟨k, hk⟩ := hr2'.stores
    have hused : (!k.isFree r.block) = true := by
      rw [hk.free]
      rfl
    have hkeeps := hkeeps1.trans hkeeps2
    refine .inr ⟨hpool, h2, pads, tails, lists2, ?_, hkeeps, hf.of_represents hr2' hkeeps ?_, hpads,
      htails⟩
    · rw [hrun, finishBlock, bind_run hrun2, bind_run (deref_run hk.block),
        bind_run (check_run hused)]
      rfl
    · have htiling := hf.tiling
      rw [pieces_append, pieces_cons] at htiling
      rw [pieces_append, pieces_append, pieces_cons, pieces_append, hpads, htails]
      exact htiling.carve hs ho hfit

lemma usedRegions_carved {pads tails : List Region} {b : BlockPtr} {e back : Nat} {last : Bool}
    (hpads : pieces pads = padding r.offset o) (htails : pieces tails = remainder e back last) :
    usedRegions (l ++ pads ++ ⟨b, o, s, true⟩ :: (tails ++ t)) =
      usedRegions l ++ ⟨b, o, s, true⟩ :: usedRegions t := by
  have hpadsFree : usedRegions pads = [] := usedRegions_eq_nil fun q hq => by
    rw [hpads] at hq
    exact free_of_mem_padding hq
  have htailsFree : usedRegions tails = [] := usedRegions_eq_nil fun q hq => by
    rw [htails] at hq
    exact free_of_mem_remainder hq
  rw [usedRegions_append, usedRegions_append, usedRegions_used rfl, usedRegions_append,
    hpadsFree, htailsFree, append_nil, nil_append]

lemma reserveBlock_run (hw : Wellformed h base (l ++ r :: t) lists spare) (hfree : r.used = false)
    (ho : r.offset ≤ o) (hs : 0 < s) (hfit : o + s ≤ r.offset + r.size)
    (hfirst : o = r.offset ∨ l ≠ [])
    (hindex : r.block = h.mNullBlock ∨ listIndex = getListIndex r.size) :
    ReserveOutcome h base l r t lists spare o s (reserveBlock r.block s o listIndex h) := by
  have hbefore := hfirst.imp_right fun hl => (hw.before hfree).resolve_left hl
  rcases reserveBlock_formed hw.toFormed hfree ho hs hfit hbefore hindex with
    ⟨hpool, h', hrun, hafter, hsame, hf'⟩ |
    ⟨hpool, h', pads, tails, lists', hrun, hkeeps, hf', hpads, htails⟩
  · rw [hrun]
    exact .refused hpool hafter hsame ⟨hf', hw.coalesced⟩
  · rw [hrun]
    refine .carved hpool hkeeps ⟨hf', ?_⟩ (usedRegions_carved hpads htails)
    have hcoalesced := hw.coalesced
    rw [pieces_append, pieces_cons] at hcoalesced
    rw [pieces_append, pieces_append, pieces_cons, pieces_append, hpads, htails]
    exact hcoalesced.carve hfree

lemma reserveBlock_overlong (hw : Wellformed h base (l ++ r :: t) lists spare)
    (hfree : r.used = false) (ho : r.offset ≤ o) (hend : o ≤ r.offset + r.size)
    (hover : r.offset + r.size < o + s) (hfirst : o = r.offset ∨ l ≠ [])
    (hindex : r.block = h.mNullBlock ∨ listIndex = getListIndex r.size) :
    (∃ h', reserveBlock r.block s o listIndex h = .ok (none, h') ∧
      supplies (blocksFor h r o s) h.mBlockPool = false ∧
      h'.mBlockPool = afterRequest [] (blocksFor h r o s) h.mBlockPool ∧
      Unchanged h h' ∧ Wellformed h' base (l ++ r :: t) lists spare) ∨
    reserveBlock r.block s o listIndex h = .error .bugCheck := by
  have hbefore := hfirst.imp_right fun hl => (hw.before hfree).resolve_left hl
  rcases reserveBlock_front hw.toFormed hfree ho hend hbefore hindex with
    ⟨hpool, h', hrun, hafter, hsame, hf'⟩ | ⟨-, h1, pads, lists1, ds, u, hrun, -, -, hr1, -, -, -⟩
  · exact .inl ⟨h', hrun, hpool, hafter, hsame, ⟨hf', hw.coalesced⟩⟩
  · right
    have hr1' : Represents h1 ((l ++ pads) ++ ⟨r.block, o, r.offset + r.size - o, u⟩ :: t) lists1
        (ds ++ spare) := hr1
    obtain ⟨k, hk⟩ := hr1'.stores
    have hne : k.size ≠ s := by
      rw [hk.size]
      show r.offset + r.size - o ≠ s
      omega
    have hcheck : decide (s < k.size) = false := by
      rw [hk.size, decide_eq_false_iff_not]
      show ¬ s < r.offset + r.size - o
      omega
    have htail : cutTail r.block s ds h1 = .error .bugCheck := by
      rw [cutTail, bind_run (deref_run hk.block), bind_run get_run, if_neg hne,
        bind_error (check_error hcheck)]
    rw [hrun, finishBlock, bind_error htail]

end Tlsf
end BezOS
