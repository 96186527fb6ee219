import BezOS.Memory.TlsfBorrow

/-!
# Splitting allocations

`split` cuts an allocation in two at a point inside it, `splitv` in several at a sorted list of
points. The blocks for the new pieces come from the pool before anything is cut. `splitv` keeps
them in the span that the caller has given it for the results.
-/

namespace BezOS
namespace Tlsf

open Lib List PoolAllocator

variable {h h' : TlsfHeap} {base : Nat} {rs l t : List Region} {r : Region}
  {lists : Nat → List BlockPtr} {spare cs ds : List BlockPtr} {c : BlockPtr} {points : List Nat}

lemma coalesced_cut {p q q' : Piece} {x y : List Piece} (hp : p.used = true) (hq : q.used = true)
    (hq' : q'.used = true) (hc : Coalesced (x ++ p :: y)) : Coalesced (x ++ q :: q' :: y) := by
  rw [coalesced_used hp] at hc
  rw [coalesced_used hq]
  exact ⟨hc.1, (coalesced_used hq').2 ⟨.nil, hc.2⟩⟩

lemma splitBlock_run {k : TlsfBlock} {mid : Nat}
    (hf : Formed h base (l ++ r :: t) lists (c :: spare)) (hused : r.used = true)
    (hc : h.blocks c = some k) (hlo : r.offset < mid) (hhi : mid < r.offset + r.size) :
    ∃ h', splitBlock r.block mid c h = .ok ((r.block, c), h') ∧ Stays h h' ∧
      h'.mBlockPool = h.mBlockPool ∧
      Formed h' base (l ++ { r with size := mid - r.offset } ::
        ⟨c, mid, r.offset + r.size - mid, true⟩ :: t) lists spare := by
  have hword := hf.back_lt (r := r) (by simp)
  obtain ⟨kr, hkr⟩ := hf.repr.stores
  obtain ⟨n, t', rfl⟩ : ∃ n t', t = n :: t' := by
    cases t with
    | nil => exact absurd hused (by rw [hf.repr.null_used]; simp)
    | cons n t' => exact ⟨n, t', rfl⟩
  have hsize : wrapSub wordCount mid kr.offset = mid - r.offset := by
    rw [hkr.offset]
    exact wrapSub_of_le (by omega) (by omega)
  have hextra : wrapSub wordCount kr.size (mid - r.offset) = r.offset + r.size - mid := by
    rw [hkr.size, wrapSub_of_le (by omega) (by omega)]
    omega
  have hnext : kr.next = some n.block := by rw [hkr.next]; simp
  have hn : (h.blocks n.block).isSome := (hf.repr.objects _).2 (.inl (by simp))
  have hrepr := hf.repr.insertAfter hused mid (r.offset + r.size - mid) (mid - r.offset)
    fun _ _ => rfl
  have hstays := (((Stays.edit h (some c) fun _ =>
    ⟨mid, r.offset + r.size - mid, some r.block, some n.block, none, none⟩).trans
      (.edit _ (some r.block) fun b => { b with size := mid - r.offset, next := some c })).trans
      (.edit _ (some n.block) fun n => { n with prev := some c })).trans
      (.edit _ (some c) fun n => { n with prevFree := some c })
  refine ⟨_, ?_, hstays, by simp only [mBlockPool_edit], hf.of_represents hrepr hstays.toKeeps ?_⟩
  · have hlo' : decide (0 < mid - r.offset) = true := by simpa using hlo
    have hhi' : decide (0 < r.offset + r.size - mid) = true := by
      rw [decide_eq_true_eq]
      omega
    rw [splitBlock, bind_run (deref_run hkr.block)]
    simp only [hsize, hextra, hnext]
    rw [bind_run (check_run hlo'), bind_run (check_run hhi'),
      bind_run (write_run (by rw [hc]; rfl)), bind_run (write_run (by simp [hkr.block])),
      bind_run nonNull_run, bind_run (write_run (by simpa using hn)),
      bind_run (write_run (by simp [hc]))]
    -- The block is still marked taken.
    obtain ⟨k', hk', hfree⟩ : ∃ k', ((((h.edit (some c) fun _ =>
        ⟨mid, r.offset + r.size - mid, some r.block, some n.block, none, none⟩).edit (some r.block)
          fun b => { b with size := mid - r.offset, next := some c }).edit (some n.block)
          fun n => { n with prev := some c }).edit (some c)
          fun n => { n with prevFree := some c }).blocks r.block = some k' ∧
        (!k'.isFree r.block) = true := by
      obtain ⟨k', hk'⟩ := hrepr.stores
      exact ⟨k', hk'.block, by rw [hk'.free]; simp [hused]⟩
    rw [bind_run (deref_run hk'), bind_run (check_run hfree)]
    rfl
  · have htiling := hf.tiling
    rw [pieces_append, pieces_cons] at htiling
    rw [pieces_append, pieces_cons, pieces_cons]
    refine htiling.cut rfl ?_ ?_ ?_ ?_ <;> simp only [Region.piece]
    · omega
    · omega
    · omega
    · intro _
      omega

lemma Wellformed.splitBlock {k : TlsfBlock} {mid : Nat}
    (hw : Wellformed h base (l ++ r :: t) lists (c :: spare)) (hused : r.used = true)
    (hc : h.blocks c = some k) (hlo : r.offset < mid) (hhi : mid < r.offset + r.size) :
    ∃ h', splitBlock r.block mid c h = .ok ((r.block, c), h') ∧ Stays h h' ∧
      h'.mBlockPool = h.mBlockPool ∧
      Wellformed h' base (l ++ ⟨r.block, r.offset, mid - r.offset, true⟩ ::
        ⟨c, mid, r.offset + r.size - mid, true⟩ :: t) lists spare := by
  obtain ⟨h', hrun, hstays, hpool, hf⟩ := splitBlock_run hw.toFormed hused hc hlo hhi
  rw [hused] at hf
  refine ⟨h', hrun, hstays, hpool, ⟨hf, ?_⟩⟩
  have hcoalesced := hw.coalesced
  rw [pieces_append, pieces_cons] at hcoalesced
  rw [pieces_append, pieces_cons, pieces_cons]
  exact coalesced_cut hused rfl rfl hcoalesced

lemma Borrowed.wellformed (hb : Borrowed h h' cs) (hw : Wellformed h base rs lists spare)
    (hr' : Represents h' rs lists ds) : Wellformed h' base rs lists ds :=
  ⟨hb.formed hw.toFormed hr', hw.coalesced⟩

/-! ## One point -/

/-- The outcomes of `split`. -/
inductive SplitOutcome (h : TlsfHeap) (base : Nat) (l : List Region) (r : Region) (t : List Region)
    (lists : Nat → List BlockPtr) (spare : List BlockPtr) (mid : Nat) :
    Except Fault ((OsStatus × Option (BlockPtr × BlockPtr)) × TlsfHeap) → Prop where
  | outside (hmid : ¬ (r.offset < mid ∧ mid < r.offset + r.size)) :
      SplitOutcome h base l r t lists spare mid (.ok ((.invalidInput, none), h))
  | exhausted {h' : TlsfHeap} (hmid : r.offset < mid ∧ mid < r.offset + r.size)
      (hpool : h.mBlockPool.allocate.1 = none) (hsame : Unchanged h h')
      (hw : Wellformed h' base (l ++ r :: t) lists spare) :
      SplitOutcome h base l r t lists spare mid (.ok ((.outOfMemory, none), h'))
  | cut {h' : TlsfHeap} {c : BlockPtr} (hmid : r.offset < mid ∧ mid < r.offset + r.size)
      (hpool : h.mBlockPool.allocate.1 = some c) (hkeeps : Keeps h h')
      (hw : Wellformed h' base (l ++ ⟨r.block, r.offset, mid - r.offset, true⟩ ::
        ⟨c, mid, r.offset + r.size - mid, true⟩ :: t) lists spare) :
      SplitOutcome h base l r t lists spare mid (.ok ((.success, some (r.block, c)), h'))

lemma split_run (hw : Wellformed h base (l ++ r :: t) lists spare) (hused : r.used = true)
    (mid : Nat) : SplitOutcome h base l r t lists spare mid (split r.block mid h) := by
  obtain ⟨k, hk⟩ := hw.repr.stores
  have hnull : (r.block != h.mNullBlock) = true := by
    rw [bne_iff_ne]
    exact hw.toFormed.used_ne_null hused
  have hfree : (!k.isFree r.block) = true := by rw [hk.free, hused]; rfl
  rw [split, bind_run get_run, bind_run (check_run hnull), bind_run (deref_run hk.block),
    bind_run (check_run hfree), hk.offset, hk.size]
  by_cases hmid : r.offset < mid ∧ mid < r.offset + r.size
  · rw [if_neg (by omega), if_neg (by omega)]
    rcases ha : h.mBlockPool.allocate with ⟨_ | c, pool⟩
    · obtain ⟨h1, hrun1, hr1, hb1, -⟩ := hw.repr.construct_refused (.refl h) default ha
      rw [bind_run hrun1]
      exact .exhausted hmid (by rw [ha]) (hb1.unchanged hw.repr hr1) (hb1.wellformed hw hr1)
    · obtain ⟨h1, hrun1, hr1, hb1, -, hc⟩ := hw.repr.construct_borrow (.refl h) default ha
      obtain ⟨h2, hrun2, hstays, -, hw2⟩ :=
        (hb1.wellformed hw hr1).splitBlock hused hc hmid.1 hmid.2
      rw [bind_run hrun1]
      show SplitOutcome _ _ _ _ _ _ _ _ ((splitBlock r.block mid c >>= _) h1)
      rw [bind_run hrun2]
      exact .cut hmid (by rw [ha]) (hb1.keeps.trans hstays.toKeeps) hw2
  · by_cases hout : mid < r.offset ∨ r.offset + r.size ≤ mid
    · rw [if_pos hout]
      exact .outside hmid
    · rw [if_neg hout, if_pos (by omega)]
      exact .outside hmid

/-! ## Many points -/

/-- The regions that cuts leave of `[front, back)`, the first of them in the block `b`: each cut is
the block of the piece behind it and the point. -/
def cutRegions (b : BlockPtr) (front back : Nat) : List (BlockPtr × Nat) → List Region
  | [] => [⟨b, front, back - front, true⟩]
  | (c, point) :: cuts => ⟨b, front, point - front, true⟩ :: cutRegions c point back cuts

/-- The points lie in order strictly inside `[front, back)`. -/
def CutPoints (front back : Nat) : List Nat → Prop
  | [] => front < back
  | point :: points => front < point ∧ CutPoints point back points

lemma CutPoints.lt {front back : Nat} (hp : CutPoints front back points) :
    front < back := by
  induction points generalizing front with
  | nil => exact hp
  | cons point points ih => exact hp.1.trans (ih hp.2)

lemma rollBack_run {h0 : TlsfHeap} (a : Option BlockPtr) (rest : Results)
    (hr : Represents h rs lists (cs ++ spare)) (hb : Borrowed h0 h cs) :
    ∃ h', rollBack (a :: (cs.map some ++ rest)) (cs.length + 1) h = .ok ((), h') ∧
      Represents h' rs lists spare ∧ Borrowed h0 h' [] := by
  induction cs using reverseRecOn generalizing h rest with
  | nil => exact ⟨h, rfl, hr, hb⟩
  | append_singleton cs c ih =>
    have hperm : (cs ++ [c]).Perm (c :: cs) := perm_append_singleton c cs
    have hr' : Represents h rs lists (c :: (cs ++ spare)) :=
      hr.perm_spare (hperm.append_right spare)
    obtain ⟨h1, hrun1, hr1, hb1, -⟩ := hr'.destroy_borrowed (hb.perm hperm)
    obtain ⟨h2, hrun2, hr2, hb2⟩ := @ih h1 (some c :: rest) hr1 hb1
    refine ⟨h2, ?_, hr2, hb2⟩
    have hget : getResult (a :: ((cs ++ [c]).map some ++ rest)) (cs.length + 1) h = .ok (c, h) := by
      rw [getResult, getElem?_cons_succ]
      simp [nonNull_run]
    have hsame : a :: ((cs ++ [c]).map some ++ rest) = a :: (cs.map some ++ some c :: rest) := by
      simp
    rw [length_append, length_singleton, rollBack, bind_run hget, bind_run hrun1, hsame]
    exact hrun2

/-- The outcomes of the loop that takes the `n` blocks from the pool, with `cs` taken before. -/
inductive StoreOutcome (h0 h : TlsfHeap) (rs : List Region) (lists : Nat → List BlockPtr)
    (spare cs : List BlockPtr) (a : Option BlockPtr) (rest : Results) (n : Nat) :
    Except Fault ((Bool × Results) × TlsfHeap) → Prop where
  | stored {h' : TlsfHeap} {ds : List BlockPtr} (hpool : supplies n h.mBlockPool = true)
      (hroom : n ≤ rest.length) (hlen : ds.length = n)
      (hr : Represents h' rs lists (cs ++ ds ++ spare)) (hb : Borrowed h0 h' (cs ++ ds)) :
      StoreOutcome h0 h rs lists spare cs a rest n
        (.ok ((true, a :: ((cs ++ ds).map some ++ rest.drop n)), h'))
  | exhausted {h' : TlsfHeap} {results : Results}
      (hpool : supplies n h.mBlockPool = false)
      (hr : Represents h' rs lists spare) (hb : Borrowed h0 h' []) :
      StoreOutcome h0 h rs lists spare cs a rest n (.ok ((false, results), h'))
  | pastEnd (hpool : supplies n h.mBlockPool = true) (hroom : n = rest.length + 1) :
      StoreOutcome h0 h rs lists spare cs a rest n (.error .badAccess)

lemma storeBlocks_run {h0 : TlsfHeap} {a : Option BlockPtr} {rest : Results} {n : Nat}
    (hr : Represents h rs lists (cs ++ spare)) (hb : Borrowed h0 h cs)
    (hn : n ≤ rest.length + 1) :
    StoreOutcome h0 h rs lists spare cs a rest n
      (storeBlocks (a :: (cs.map some ++ rest)) (cs.length + 1) n h) := by
  induction n generalizing h cs rest with
  | zero =>
    have hstored : StoreOutcome h0 h rs lists spare cs a rest 0
        (.ok ((true, a :: ((cs ++ []).map some ++ rest.drop 0)), h)) :=
      .stored rfl (Nat.zero_le _) rfl (by simpa using hr) (by simpa using hb)
    simpa [storeBlocks, pure_run] using hstored
  | succ n ih =>
    rw [storeBlocks]
    rcases ha : h.mBlockPool.allocate with ⟨_ | c, pool⟩
    · obtain ⟨h1, hrun1, hr1, hb1, -⟩ := hr.construct_refused hb default ha
      obtain ⟨h2, hrun2, hr2, hb2⟩ := rollBack_run a rest hr1 hb1
      rw [bind_run hrun1]
      show StoreOutcome _ _ _ _ _ _ _ _ _ ((rollBack _ _ >>= _) h1)
      rw [bind_run hrun2]
      exact .exhausted (by rw [supplies, ha]) hr2 hb2
    · obtain ⟨h1, hrun1, hr1, hb1, hpool, -⟩ := hr.construct_borrow hb default ha
      have hsupplies : supplies (n + 1) h.mBlockPool =
          supplies n h1.mBlockPool := by
        rw [supplies, ha, hpool]
      rw [bind_run hrun1]
      cases rest with
      | nil =>
        -- There is no place for the block; it was the last one.
        obtain rfl : n = 0 := by
          simp only [length_nil] at hn
          omega
        have hset : setResult (a :: (cs.map some ++ [])) (cs.length + 1) c h1 =
            .error .badAccess := by
          rw [setResult, if_neg (by simp)]
          rfl
        show StoreOutcome _ _ _ _ _ _ _ _ _ ((setResult _ _ _ >>= _) h1)
        rw [bind_error hset]
        exact .pastEnd hsupplies rfl
      | cons x rest =>
        have hset : setResult (a :: (cs.map some ++ x :: rest)) (cs.length + 1) c h1 =
            .ok (a :: ((cs ++ [c]).map some ++ rest), h1) := by
          rw [setResult, if_pos (by simp)]
          simp [pure_run]
        show StoreOutcome _ _ _ _ _ _ _ _ _ ((setResult _ _ _ >>= _) h1)
        rw [bind_run hset]
        have hperm : (c :: cs).Perm (cs ++ [c]) := (perm_append_singleton c cs).symm
        have hr' : Represents h1 rs lists (cs ++ [c] ++ spare) :=
          hr1.perm_spare (by simpa using hperm.append_right spare)
        have houtcome := @ih h1 (cs ++ [c]) rest hr' (hb1.perm hperm) (by simpa using hn)
        rw [show (cs ++ [c]).length + 1 = cs.length + 1 + 1 by simp] at houtcome
        generalize storeBlocks _ (cs.length + 1 + 1) n h1 = result at houtcome
        cases houtcome with
        | @stored h' ds hp hroom hlen hr' hb' =>
          have hstored : StoreOutcome h0 h rs lists spare cs a (x :: rest) (n + 1)
              (.ok ((true, a :: ((cs ++ c :: ds).map some ++ (x :: rest).drop (n + 1))), h')) :=
            .stored (by rw [hsupplies, hp]) (by simpa using hroom) (by simp [hlen])
              (by simpa using hr') (by simpa using hb')
          simpa using hstored
        | exhausted hp hr' hb' => exact .exhausted (by rw [hsupplies, hp]) hr' hb'
        | pastEnd hp hroom => exact .pastEnd (by rw [hsupplies, hp]) (by simp [hroom])

lemma setResult_middle (done : List BlockPtr) (x : Option BlockPtr) (rest : Results)
    (b : BlockPtr) :
    setResult (done.map some ++ x :: rest) done.length b h =
      .ok ((done ++ [b]).map some ++ rest, h) := by
  rw [setResult, if_pos (by simp)]
  simp [pure_run]

lemma cutBlocks_run (done : List BlockPtr) (x : Option BlockPtr) (rest : Results) {point : Nat}
    (hlen : ds.length = points.length)
    (hw : Wellformed h base (l ++ r :: t) lists (c :: ds ++ spare)) (hused : r.used = true)
    (hpoints : CutPoints r.offset (r.offset + r.size) (point :: points)) :
    ∃ h', cutBlocks (done.map some ++ x :: ((c :: ds).map some ++ rest)) done.length r.block c
        (point :: points) h = .ok ((done ++ r.block :: c :: ds).map some ++ rest, h') ∧
      Stays h h' ∧ h'.mBlockPool = h.mBlockPool ∧
      Wellformed h' base (l ++ cutRegions r.block r.offset (r.offset + r.size)
        ((c :: ds).zip (point :: points)) ++ t) lists spare := by
  obtain ⟨k, hk⟩ := Option.isSome_iff_exists.1 ((hw.repr.objects c).2 (.inr (by simp)))
  obtain ⟨h1, hrun1, hstays1, hpool1, hw1⟩ := hw.splitBlock hused hk hpoints.1 hpoints.2.lt
  induction points generalizing done x l r h h1 c ds point k with
  | nil =>
    obtain rfl : ds = [] := length_eq_zero_iff.1 hlen
    refine ⟨h1, ?_, hstays1, hpool1, ?_⟩
    · have hset : setResult ((done ++ [r.block]).map some ++ some c :: rest) (done.length + 1) c h1 =
          .ok ((done ++ [r.block] ++ [c]).map some ++ rest, h1) := by
        have hset := setResult_middle (h := h1) (done ++ [r.block]) (some c) rest c
        rwa [length_append, length_singleton] at hset
      rw [cutBlocks, bind_run hrun1]
      show (setResult _ _ _ >>= _) h1 = _
      rw [bind_run (setResult_middle _ _ _ r.block)]
      refine hset.trans ?_
      simp
    · simpa [cutRegions] using hw1
  | cons point' points ih =>
    obtain ⟨c', ds, rfl⟩ : ∃ c' ds', ds = c' :: ds' := by
      cases ds with
      | nil => cases hlen
      | cons c' ds' => exact ⟨c', ds', rfl⟩
    -- The piece behind the cut is the one to cut next.
    obtain ⟨r', hr'⟩ : ∃ r' : Region, r' = ⟨c, point, r.offset + r.size - point, true⟩ := ⟨_, rfl⟩
    have hback : r'.offset + r'.size = r.offset + r.size := by
      have hlt := hpoints.2.lt
      rw [hr']
      show point + (r.offset + r.size - point) = _
      omega
    have hw1' : Wellformed h1 base ((l ++ [⟨r.block, r.offset, point - r.offset, true⟩]) ++ r' :: t)
        lists (c' :: ds ++ spare) := by
      simpa [hr'] using hw1
    have hpoints' : CutPoints r'.offset (r'.offset + r'.size) (point' :: points) := by
      rw [hback, hr']
      exact hpoints.2
    obtain ⟨k', hk'⟩ := Option.isSome_iff_exists.1 ((hw1'.repr.objects c').2 (.inr (by simp)))
    obtain ⟨h2, hrun2, hstays2, hpool2, hw2⟩ :=
      hw1'.splitBlock (by rw [hr']) hk' hpoints'.1 hpoints'.2.lt
    obtain ⟨h', hrun, hstays, hpool, hw'⟩ := ih (done ++ [r.block]) (some c)
      (by simpa using hlen) hw1' (by rw [hr']) hpoints' _ hk' _ hrun2 hstays2 hpool2 hw2
    refine ⟨h', ?_, hstays1.trans hstays, hpool.trans hpool1, ?_⟩
    · have hget : getResult (done.map some ++ x :: ((c :: c' :: ds).map some ++ rest))
          (done.length + 2) h1 = .ok (c', h1) := by
        rw [getResult, getElem?_append_right (by simp)]
        simp [nonNull_run]
      rw [cutBlocks, bind_run hrun1]
      · show (getResult _ _ >>= _) h1 = _
        rw [bind_run hget, bind_run (setResult_middle _ _ _ r.block)]
        have hblock : r'.block = c := by rw [hr']
        rw [length_append, length_singleton, hblock] at hrun
        simpa using hrun
      · simp
    · rw [hback] at hw'
      simpa [cutRegions, hr'] using hw'

lemma strictlySorted_iff :
    strictlySorted points = true ↔ points.IsChain (· < ·) := by
  induction points with
  | nil => simp [strictlySorted]
  | cons a points ih =>
    cases points with
    | nil => simp [strictlySorted]
    | cons b points =>
      rw [strictlySorted, Bool.and_eq_true, decide_eq_true_eq, ih, isChain_cons_cons]

lemma cutPoints_iff {front back : Nat} (hne : points ≠ []) :
    CutPoints front back points ↔ strictlySorted points = true ∧
      ∀ point ∈ points, front < point ∧ point < back := by
  rw [strictlySorted_iff]
  induction points generalizing front with
  | nil => exact absurd rfl hne
  | cons a points ih =>
    cases points with
    | nil => simp [CutPoints]
    | cons b points =>
      rw [CutPoints, ih (by simp), isChain_cons_cons]
      constructor
      · rintro ⟨hfront, hchain, hinside⟩
        have hb := hinside b (by simp)
        refine ⟨⟨hb.1, hchain⟩, fun point hpoint => ?_⟩
        rcases mem_cons.1 hpoint with rfl | hpoint
        · exact ⟨hfront, hb.1.trans hb.2⟩
        · exact ⟨hfront.trans (hinside point hpoint).1, (hinside point hpoint).2⟩
      · rintro ⟨⟨hab, hchain⟩, hinside⟩
        refine ⟨(hinside a (by simp)).1, hchain, fun point hpoint => ⟨?_, ?_⟩⟩
        · have hpairs := isChain_iff_pairwise.1 (isChain_cons_cons.2 ⟨hab, hchain⟩)
          exact (pairwise_cons.1 hpairs).1 point hpoint
        · exact (hinside point (mem_cons_of_mem _ hpoint)).2

/-- The outcomes of `splitv`. -/
inductive SplitvOutcome (h : TlsfHeap) (base : Nat) (l : List Region) (r : Region) (t : List Region)
    (lists : Nat → List BlockPtr) (spare : List BlockPtr) (points : List Nat) (results : Results) :
    Except Fault ((OsStatus × Results) × TlsfHeap) → Prop where
  | rejected (hbad : points = [] ∨ results.length < points.length ∨
      ¬ CutPoints r.offset (r.offset + r.size) points) :
      SplitvOutcome h base l r t lists spare points results (.ok ((.invalidInput, results), h))
  | exhausted {h' : TlsfHeap} {results' : Results}
      (hpool : supplies points.length h.mBlockPool = false) (hsame : Unchanged h h')
      (hw : Wellformed h' base (l ++ r :: t) lists spare) :
      SplitvOutcome h base l r t lists spare points results (.ok ((.outOfMemory, results'), h'))
  | cut {h' : TlsfHeap} {ds : List BlockPtr}
      (hpool : supplies points.length h.mBlockPool = true)
      (hroom : points.length < results.length)
      (hpoints : CutPoints r.offset (r.offset + r.size) points) (hlen : ds.length = points.length)
      (hkeeps : Keeps h h')
      (hw : Wellformed h' base (l ++ cutRegions r.block r.offset (r.offset + r.size)
        (ds.zip points) ++ t) lists spare) :
      SplitvOutcome h base l r t lists spare points results
        (.ok ((.success, (r.block :: ds).map some ++ results.drop (points.length + 1)), h'))
  | pastEnd (hpool : supplies points.length h.mBlockPool = true)
      (hroom : results.length = points.length) (hne : points ≠ [])
      (hpoints : CutPoints r.offset (r.offset + r.size) points) :
      SplitvOutcome h base l r t lists spare points results (.error .badAccess)

lemma splitv_run (hw : Wellformed h base (l ++ r :: t) lists spare) (hused : r.used = true)
    (points : List Nat) (results : Results) :
    SplitvOutcome h base l r t lists spare points results (splitv r.block points results h) := by
  obtain ⟨k, hk⟩ := hw.repr.stores
  rw [splitv, bind_run (deref_run hk.block), hk.offset, hk.size]
  by_cases hne : points = []
  · rw [if_pos hne]
    exact .rejected (.inl hne)
  rw [if_neg hne]
  by_cases hroom : results.length + 1 ≤ points.length
  · rw [if_pos hroom]
    exact .rejected (.inr (.inl hroom))
  rw [if_neg hroom]
  by_cases hsorted : strictlySorted points = false
  · rw [if_pos hsorted]
    refine .rejected (.inr (.inr fun hpoints => ?_))
    rw [(cutPoints_iff hne).1 hpoints |>.1] at hsorted
    cases hsorted
  rw [if_neg hsorted, Bool.not_eq_false] at *
  have hany : (points.any fun point => decide (¬ (⟨r.offset, r.offset + r.size⟩ : AnyRange).contains
      point ∨ r.offset = point ∨ r.offset + r.size = point)) = true ↔
        ¬ CutPoints r.offset (r.offset + r.size) points := by
    rw [cutPoints_iff hne, any_eq_true]
    constructor
    · rintro ⟨point, hpoint, hout⟩ ⟨-, hinside⟩
      have hin := hinside point hpoint
      have hout := of_decide_eq_true hout
      simp only [AnyRange.contains] at hout
      omega
    · intro hnot
      by_contra hnone
      refine hnot ⟨hsorted, fun point hpoint => ?_⟩
      by_contra hout
      refine hnone ⟨point, hpoint, decide_eq_true ?_⟩
      simp only [AnyRange.contains]
      omega
  by_cases hpoints : CutPoints r.offset (r.offset + r.size) points
  · rw [if_neg (by rw [hany]; exact not_not.2 hpoints)]
    obtain ⟨point, points, rfl⟩ := exists_cons_of_ne_nil hne
    obtain ⟨a, rest, rfl⟩ : ∃ a rest, results = a :: rest := by
      cases results with
      | nil =>
        simp only [length_nil, length_cons] at hroom
        omega
      | cons a rest => exact ⟨a, rest, rfl⟩
    have hstore : StoreOutcome h h (l ++ r :: t) lists spare [] a rest (point :: points).length
        (storeBlocks (a :: rest) 1 (point :: points).length h) :=
      storeBlocks_run hw.repr (.refl h) (by simp at hroom ⊢; omega)
    generalize hresult : storeBlocks (a :: rest) 1 (point :: points).length h = result at hstore
    cases hstore with
    | exhausted hpool hr hb =>
      rw [bind_run hresult]
      exact .exhausted hpool (hb.unchanged hw.repr hr) (hb.wellformed hw hr)
    | pastEnd hpool hroom' =>
      rw [bind_error hresult]
      exact .pastEnd hpool (by simpa using hroom'.symm) hne hpoints
    | @stored h1 ds hpool hroom' hlen hr hb =>
      obtain ⟨c, ds, rfl⟩ : ∃ c ds', ds = c :: ds' := by
        cases ds with
        | nil => cases hlen
        | cons c ds' => exact ⟨c, ds', rfl⟩
      obtain ⟨h2, hrun2, hstays, -, hw2⟩ := cutBlocks_run [] a
        (rest.drop (point :: points).length) (by simpa using hlen)
        (hb.wellformed hw hr) hused hpoints
      rw [bind_run hresult]
      show SplitvOutcome _ _ _ _ _ _ _ _ _ ((getResult _ 1 >>= _) h1)
      have hget : getResult (a :: (([] ++ c :: ds).map some ++ rest.drop (point :: points).length))
          1 h1 = .ok (c, h1) := rfl
      rw [bind_run hget]
      simp only [map_nil, nil_append, length_nil] at hrun2
      rw [nil_append, bind_run hrun2]
      have hfits : (point :: points).length + 1 ≤ (a :: rest).length := by
        rw [length_cons]
        exact Nat.succ_le_succ hroom'
      exact .cut hpool hfits hpoints hlen (hb.keeps.trans hstays.toKeeps) hw2
  · rw [if_pos (hany.2 hpoints)]
    exact .rejected (.inr (.inr hpoints))

end Tlsf
end BezOS
