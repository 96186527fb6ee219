import BezOS.Memory.TlsfSplit

/-!
# Growing and shrinking

`shrink` splits an allocation and frees what is behind the cut. `grow` takes bytes from the free
block behind the allocation. It does so rightly when that block keeps some bytes and either is the
null block or goes to another list; when it stays in its list its size is left as it was, and when
it is used up its size is counted twice.
-/

namespace BezOS
namespace Tlsf

open Lib

variable {h h' : TlsfHeap} {base : Nat} {rs l t : List Region} {r n : Region}
  {lists : Nat → List BlockPtr} {spare : List BlockPtr} {size : Nat}

lemma resizeBlock_run (size : Nat) (hr : Represents h (l ++ n :: t) lists spare)
    (hfree : n.used = false)
    (hnull : n.block ≠ h.mNullBlock) (hlimits : Limits h base) (hold : n.size ≤ h.mSize)
    (hnew : size ≤ h.mSize) (hpos : 0 < n.size) (hsize : 0 < size)
    (hindex : getListIndex n.size ≠ getListIndex size) :
    ∃ h' lists', resizeBlock n.block size h = .ok ((), h') ∧ Stays h h' ∧
      Represents h' (l ++ { n with size := size } :: t) lists' spare := by
  obtain ⟨k, hk⟩ := hr.stores
  obtain ⟨h1, hrun1, hheader1, hr1⟩ := hr.take hfree hnull hpos (hlimits.safe hold)
  have hstays1 := Stays.of_header hheader1
  obtain ⟨k1, hk1⟩ := hr1.stores
  have hr2 := hr1.rebound n.offset size (.inl rfl)
    fun k hk => by
      obtain rfl : k1 = k := Option.some.inj (hk1.block.symm.trans hk)
      rw [← hk1.offset]
  have hstays2 := hstays1.trans (.edit h1 (some n.block) fun b => { b with size := size })
  obtain ⟨h3, hrun3, hheader3, hr3⟩ := hr2.release rfl (by rw [hstays2.mNullBlock]; exact hnull)
    hsize (by rw [hstays2.mFreeListCount]; exact hlimits.safe hnew)
  rw [← hfree] at hr3
  refine ⟨h3, _, ?_, hstays2.trans (.of_header hheader3), hr3⟩
  have hcheck : (n.block != h.mNullBlock) = true := by simpa using hnull
  rw [resizeBlock, bind_run get_run, bind_run (check_run hcheck), bind_run (deref_run hk.block),
    hk.size, bind_run (assumePositive_run hpos), bind_run (assumePositive_run hsize),
    if_pos hindex, bind_run hrun1, bind_run (write_run (by rw [hk1.block]; rfl))]
  exact hrun3

lemma resizeBlock_same (size : Nat) (hr : Represents h (l ++ n :: t) lists spare)
    (hnull : n.block ≠ h.mNullBlock) (hpos : 0 < n.size) (hsize : 0 < size)
    (hindex : getListIndex n.size = getListIndex size) :
    resizeBlock n.block size h = .ok ((), h) := by
  obtain ⟨k, hk⟩ := hr.stores
  have hcheck : (n.block != h.mNullBlock) = true := by simpa using hnull
  rw [resizeBlock, bind_run get_run, bind_run (check_run hcheck), bind_run (deref_run hk.block),
    hk.size, bind_run (assumePositive_run hpos), bind_run (assumePositive_run hsize),
    if_neg (not_not.2 hindex)]
  rfl

lemma Represents.moveSeam (hr : Represents h (l ++ r :: n :: t) lists spare)
    (hused : r.used = true) (size extra : Nat) :
    Represents ((h.edit (some r.block) fun b => { b with size := size }).edit (some n.block)
        fun n => { n with offset := n.offset + extra })
      (l ++ { r with size := size } :: { n with offset := n.offset + extra } :: t) lists spare := by
  obtain ⟨k, hk⟩ := hr.stores
  have hr1 := hr.rebound r.offset size (.inl hused)
    fun k' hk' => by
      obtain rfl : k = k' := Option.some.inj (hk.block.symm.trans hk')
      rw [← hk.offset]
  have hr1' : Represents (h.edit (some r.block) fun b => { b with size := size })
      ((l ++ [{ r with size := size }]) ++ n :: t) lists spare := by
    simpa using hr1
  obtain ⟨k1, hk1⟩ := hr1'.stores
  have hr2 := hr1'.rebound (n.offset + extra) n.size (.inr (.inr rfl))
    (g := fun n => { n with offset := n.offset + extra }) fun k' hk' => by
      obtain rfl : k1 = k' := Option.some.inj (hk1.block.symm.trans hk')
      rw [hk1.offset, ← hk1.size]
  simpa using hr2

/-- The outcomes of `grow` on an allocation `r` with the block `n` behind it. -/
inductive GrowOutcome (h : TlsfHeap) (base : Nat) (l : List Region) (r n : Region) (t : List Region)
    (lists : Nat → List BlockPtr) (spare : List BlockPtr) (size : Nat) :
    Except Fault ((OsStatus × Option BlockPtr) × TlsfHeap) → Prop where
  | same (hsize : size = r.size) :
      GrowOutcome h base l r n t lists spare size (.ok ((.success, some r.block), h))
  | smaller (hsize : size < r.size) :
      GrowOutcome h base l r n t lists spare size (.ok ((.invalidInput, none), h))
  | blocked (hsize : r.size < size) (hnext : n.used = true ∨ n.size < size - r.size) :
      GrowOutcome h base l r n t lists spare size (.ok ((.outOfMemory, none), h))
  | grown {h' : TlsfHeap} {lists' : Nat → List BlockPtr} (hsize : r.size < size)
      (hfree : n.used = false) (hroom : size - r.size < n.size)
      (hnext : n.block = h.mNullBlock ∨ getListIndex n.size ≠ getListIndex (n.size - (size - r.size)))
      (hkeeps : Keeps h h')
      (hw : Wellformed h' base (l ++ { r with size := size } ::
        ⟨n.block, n.offset + (size - r.size), n.size - (size - r.size), false⟩ :: t) lists' spare) :
      GrowOutcome h base l r n t lists spare size (.ok ((.success, some r.block), h'))
  | stale {h' : TlsfHeap} (hsize : r.size < size) (hfree : n.used = false)
      (hroom : size - r.size < n.size) (hnull : n.block ≠ h.mNullBlock)
      (hindex : getListIndex n.size = getListIndex (n.size - (size - r.size)))
      (hr : Represents h' (l ++ { r with size := size } ::
        { n with offset := n.offset + (size - r.size) } :: t) lists spare) :
      GrowOutcome h base l r n t lists spare size (.ok ((.success, some r.block), h'))
  | doubled {h' : TlsfHeap} {lists' : Nat → List BlockPtr} (hsize : r.size < size)
      (hfree : n.used = false) (hexact : size - r.size = n.size) (hnull : n.block ≠ h.mNullBlock)
      (hr : Represents h' (l ++ ⟨n.block, r.offset, n.size + size, true⟩ :: t) lists' spare) :
      GrowOutcome h base l r n t lists spare size (.ok ((.success, some n.block), h'))
  | panic (hsize : r.size < size) (hfree : n.used = false) (hexact : size - r.size = n.size)
      (hnull : n.block = h.mNullBlock) :
      GrowOutcome h base l r n t lists spare size (.error .bugCheck)

lemma Wellformed.moved (hw : Wellformed h base (l ++ r :: n :: t) lists spare)
    (hused : r.used = true) (hfree : n.used = false) (hsize : r.size < size)
    (hroom : size - r.size < n.size) {lists' : Nat → List BlockPtr} (hkeeps : Keeps h h')
    (hr : Represents h' (l ++ { r with size := size } ::
      ⟨n.block, n.offset + (size - r.size), n.size - (size - r.size), false⟩ :: t) lists' spare) :
    Wellformed h' base (l ++ { r with size := size } ::
      ⟨n.block, n.offset + (size - r.size), n.size - (size - r.size), false⟩ :: t) lists' spare := by
  have htiling := hw.tiling
  rw [pieces_append, pieces_cons, pieces_cons] at htiling
  have hseam : n.offset = r.offset + r.size := by
    obtain ⟨-, hoffset, hnext, -⟩ := tiles_middle.1 htiling.tiles
    simp only [Region.piece] at hoffset hnext
    omega
  refine ⟨hw.toFormed.of_represents hr hkeeps ?_, ?_⟩
  · rw [pieces_append, pieces_cons, pieces_cons]
    have hjoin := htiling.join (r := ⟨r.offset, n.size + r.size, true⟩) rfl rfl
    refine hjoin.cut rfl ?_ ?_ ?_ ?_ <;> simp only [Region.piece]
    · omega
    · omega
    · omega
    · intro _
      omega
  · have hcoalesced := hw.coalesced
    rw [pieces_append, pieces_cons, pieces_cons, coalesced_used hused] at hcoalesced
    rw [pieces_append, pieces_cons, pieces_cons, coalesced_used hused]
    refine ⟨hcoalesced.1, ?_⟩
    have hnext := (coalesced_middle (x := [])).1 hcoalesced.2
    refine (coalesced_middle).2 ⟨.nil, hnext.2.1, by simp, fun q hq => .inr ?_⟩
    exact (hnext.2.2.2 q hq).resolve_left (by simp [Region.piece, hfree])

lemma grow_run (hw : Wellformed h base (l ++ r :: n :: t) lists spare) (hused : r.used = true)
    (size : Nat) : GrowOutcome h base l r n t lists spare size (grow r.block size h) := by
  have hw' : Wellformed h base ((l ++ [r]) ++ n :: t) lists spare := by simpa using hw
  obtain ⟨k, hk⟩ := hw.repr.stores
  obtain ⟨kn, hkn⟩ := hw'.repr.stores
  have hcheck : (!k.isFree r.block) = true := by rw [hk.free, hused]; rfl
  have hnext : k.next = some n.block := by rw [hk.next]; simp
  rw [grow, bind_run (deref_run hk.block), bind_run (check_run hcheck), hk.size, hnext]
  rcases Nat.lt_trichotomy size r.size with hsize | rfl | hsize
  · rw [if_neg (by omega), if_pos hsize]
    exact .smaller hsize
  · rw [if_pos rfl]
    exact .same rfl
  rw [if_neg (by omega), if_neg (by omega)]
  show GrowOutcome _ _ _ _ _ _ _ _ _ ((deref n.block >>= _) h)
  rw [bind_run (deref_run hkn.block), hkn.free, hkn.size]
  cases hfree : n.used with
  | true => exact .blocked hsize (.inl hfree)
  | false =>
    rw [if_neg (by simp)]
    by_cases hle : size - r.size ≤ n.size
    case neg =>
      rw [if_neg hle]
      exact .blocked hsize (.inr (by omega))
    have hseam := hw.repr.moveSeam hused size (size - r.size)
    have hstays : Stays h ((h.edit (some r.block) fun b => { b with size := size }).edit
        (some n.block) fun n => { n with offset := n.offset + (size - r.size) }) :=
      (Stays.edit _ _ _).trans (.edit _ _ _)
    rw [if_pos hle, bind_run get_run, bind_run (write_run (by rw [hk.block]; rfl)),
      bind_run (write_run (by simp [hkn.block]))]
    generalize ((h.edit (some r.block) fun b => { b with size := size }).edit
      (some n.block) fun n => { n with offset := n.offset + (size - r.size) }) = h1 at hseam hstays
    have hseam' : Represents h1 ((l ++ [{ r with size := size }]) ++
        { n with offset := n.offset + (size - r.size) } :: t) lists spare := by
      simpa using hseam
    have hnsize := hw.toFormed.size_le (r := n) (by simp)
    have hlimits := hw.limits.keeps hstays.toKeeps
    have hnsize1 : n.size ≤ h1.mSize := by rw [hstays.mSize]; exact hnsize
    by_cases hnull : n.block = h.mNullBlock
    · by_cases hexact : n.size = size - r.size
      · rw [if_pos hexact, bind_error (check_error (by simp [hnull]))]
        exact .panic hsize hfree hexact.symm hnull
      · -- The null block is in no list, so its size is all there is to change.
        rw [if_neg hexact, if_neg (not_not.2 hnull)]
        obtain ⟨k1, hk1⟩ := hseam'.stores
        have hr2 := hseam'.rebound (n.offset + (size - r.size)) (n.size - (size - r.size))
          (.inr (.inl (by rw [hstays.mNullBlock]; exact hnull)))
          (g := fun n => { n with size := n.size - (size - r.size) }) fun k' hk' => by
            obtain rfl : k1 = k' := Option.some.inj (hk1.block.symm.trans hk')
            rw [hk1.size, hk1.offset]
        have hkeeps : Keeps h (h1.edit (some n.block) fun n =>
            { n with size := n.size - (size - r.size) }) :=
          (hstays.trans (.edit _ _ _)).toKeeps
        have hrun : write n.block (fun n => { n with size := n.size - (size - r.size) }) h1 =
            .ok ((), h1.edit (some n.block) fun n => { n with size := n.size - (size - r.size) }) :=
          write_run (by rw [hk1.block]; rfl)
        rw [bind_run hrun]
        have hr2' : Represents (h1.edit (some n.block) fun n =>
            { n with size := n.size - (size - r.size) }) (l ++ { r with size := size } ::
              ⟨n.block, n.offset + (size - r.size), n.size - (size - r.size), false⟩ :: t)
            lists spare := by
          simpa [hfree] using hr2
        exact .grown hsize hfree (by omega) (.inl hnull) hkeeps
          (hw.moved hused hfree hsize (by omega) hkeeps hr2')
    · have hnull1 : n.block ≠ h1.mNullBlock := by rw [hstays.mNullBlock]; exact hnull
      have hpos : 0 < n.size := hw'.toFormed.positive hnull
      by_cases hexact : n.size = size - r.size
      · -- The size of the block behind counts once in its own size and once in the new one.
        have hcheck' : (n.block != h.mNullBlock) = true := by simpa using hnull
        obtain ⟨h2, hrun2, hheader2, hr2⟩ := hseam'.take hfree hnull1 hpos (hlimits.safe hnsize1)
        have hr2' : Represents h2 (l ++ { r with size := size } ::
            ⟨n.block, n.offset + (size - r.size), n.size, true⟩ :: t) (unlist lists n) spare := by
          simpa [unlist] using hr2
        obtain ⟨h3, hrun3, -, -, -, hr3⟩ := hr2'.merge hused (.inl rfl)
        rw [if_pos hexact, bind_run (check_run hcheck'), bind_run hrun2, bind_run hrun3]
        exact .doubled hsize hfree hexact.symm hnull hr3
      · rw [if_neg hexact, if_pos hnull]
        by_cases hindex : getListIndex n.size = getListIndex (n.size - (size - r.size))
        · have hrun := resizeBlock_same (n.size - (size - r.size)) hseam' hnull1 hpos
            (Nat.sub_pos_of_lt (by omega)) hindex
          rw [bind_run hrun]
          exact .stale hsize hfree (by omega) hnull hindex hseam
        · obtain ⟨h2, lists2, hrun2, hstays2, hr2⟩ := resizeBlock_run (n.size - (size - r.size))
            hseam' hfree hnull1 hlimits hnsize1 (by omega) hpos (Nat.sub_pos_of_lt (by omega)) hindex
          have hkeeps := (hstays.trans hstays2).toKeeps
          rw [bind_run hrun2]
          have hr2' : Represents h2 (l ++ { r with size := size } ::
              ⟨n.block, n.offset + (size - r.size), n.size - (size - r.size), false⟩ :: t)
              lists2 spare := by
            simpa [hfree] using hr2
          exact .grown hsize hfree (by omega) (.inr hindex) hkeeps
            (hw.moved hused hfree hsize (by omega) hkeeps hr2')

/-- The outcomes of `shrink`. -/
inductive ShrinkOutcome (h : TlsfHeap) (base : Nat) (l : List Region) (r : Region) (t : List Region)
    (lists : Nat → List BlockPtr) (spare : List BlockPtr) (size : Nat) :
    Except Fault ((OsStatus × Option BlockPtr) × TlsfHeap) → Prop where
  | same (hsize : size = r.size) :
      ShrinkOutcome h base l r t lists spare size (.ok ((.success, some r.block), h))
  | rejected (hsize : r.size < size ∨ size = 0) :
      ShrinkOutcome h base l r t lists spare size (.ok ((.invalidInput, none), h))
  | exhausted {h' : TlsfHeap} (hsize : 0 < size ∧ size < r.size) (hsame : Unchanged h h')
      (hw : Wellformed h' base (l ++ r :: t) lists spare) :
      ShrinkOutcome h base l r t lists spare size (.ok ((.outOfMemory, none), h'))
  | shrunk {h' : TlsfHeap} {rs' : List Region} {lists' : Nat → List BlockPtr}
      (hsize : 0 < size ∧ size < r.size) (hmSize : h'.mSize = h.mSize)
      (hw : Wellformed h' base rs' lists' spare)
      (hlive : usedRegions rs' =
        usedRegions l ++ ⟨r.block, r.offset, size, true⟩ :: usedRegions t) :
      ShrinkOutcome h base l r t lists spare size (.ok ((.success, some r.block), h'))

lemma shrink_run (hw : Wellformed h base (l ++ r :: t) lists spare) (hused : r.used = true)
    (size : Nat) : ShrinkOutcome h base l r t lists spare size (shrink r.block size h) := by
  obtain ⟨k, hk⟩ := hw.repr.stores
  rw [shrink, bind_run (deref_run hk.block), hk.size, hk.offset]
  rcases Nat.lt_trichotomy size r.size with hsize | rfl | hsize
  · rw [if_neg (by omega), if_neg (by omega)]
    have hout := split_run hw hused (r.offset + size)
    generalize hsplit : split r.block (r.offset + size) h = result at hout
    cases hout with
    | outside hmid =>
      rw [bind_run hsplit]
      exact .rejected (.inr (by omega))
    | exhausted hmid hpool hsame hw' =>
      rw [bind_run hsplit]
      exact .exhausted ⟨by omega, hsize⟩ hsame hw'
    | @cut h1 c hmid hpool hkeeps hw1 =>
      have hw1' : Wellformed h1 base ((l ++ [⟨r.block, r.offset, size, true⟩]) ++
          ⟨c, r.offset + size, r.offset + r.size - (r.offset + size), true⟩ :: t) lists spare := by
        simpa using hw1
      obtain ⟨h2, rs2, lists2, hfree, hw2, hlive, hmSize⟩ := free_run hw1' rfl
      rw [bind_run hsplit]
      show ShrinkOutcome _ _ _ _ _ _ _ _ ((free c >>= _) h1)
      rw [bind_run hfree]
      refine .shrunk ⟨by omega, hsize⟩ (hmSize.trans hkeeps.mSize) hw2 ?_
      rw [hlive, usedRegions_append, usedRegions_used rfl, usedRegions_nil, List.append_assoc]
      rfl
  · rw [if_pos rfl]
    exact .same rfl
  · rw [if_neg (by omega), if_pos hsize]
    exact .rejected (.inl hsize)

end Tlsf
end BezOS
