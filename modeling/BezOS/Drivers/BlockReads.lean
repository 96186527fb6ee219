import BezOS.Drivers.Block

/-!
# Which reads of a block device are exact

A span in the device is cut at the block boundaries: what is stored after each part is the front of
the span, and the rest of the buffer is as it was. The reads that go wrong are those of nothing
between two blocks, whose last sector comes before the first, and those whose end wraps.
-/

namespace BezOS

open Lib List Nat

namespace Block

namespace IBlockDriver

variable {d : IBlockDriver} {block count start n : Nat}

lemma length_span (h : start + count ≤ d.size) : (d.span start count).length = count := by
  have hlength : d.bytes.length = d.size := d.length_bytes
  rw [span, length_take, length_drop, hlength]
  omega

lemma span_append (start a b : Nat) :
    d.span start a ++ d.span (start + a) b = d.span start (a + b) := by
  rw [span, span, span, take_add, drop_drop]

@[simp] lemma span_zero (start : Nat) : d.span start 0 = [] := take_zero

lemma blockCount_lt (hsize : d.blockSize ≠ 0) : d.blockCount < 2 ^ 64 :=
  lt_of_le_of_lt (Nat.le_mul_of_pos_left _ (Nat.pos_of_ne_zero hsize)) d.size_lt

lemma block_le (h : block ≤ d.blockCount) : block * d.blockSize ≤ d.size := by
  rw [size, Nat.mul_comm d.blockSize]
  exact Nat.mul_le_mul_right _ h

lemma read_inside (hsize : d.blockSize ≠ 0) (h : block + count ≤ d.blockCount) :
    d.read block count = .ok none ∨
      d.read block count = .ok (some (d.span (block * d.blockSize) (count * d.blockSize))) := by
  have hwrap : wrapAdd (2 ^ 64) block count = block + count :=
    wrapAdd_of_lt (lt_of_le_of_lt h (blockCount_lt hsize))
  rw [read, hwrap, if_neg (Nat.not_lt.2 h), if_neg (Nat.not_lt.2 h)]
  split
  · exact .inl rfl
  · split
    · exact .inr rfl
    · exact .inl rfl

lemma read_eq_some {bytes : List UInt8} (h : d.read block count = .ok (some bytes)) :
    d.readable = true ∧ block + count ≤ d.blockCount ∧
      bytes = d.span (block * d.blockSize) (count * d.blockSize) := by
  rw [read] at h
  split at h
  · cases h
  rename_i hreadable
  split at h
  · cases h
  split at h
  · cases h
  rename_i hinside
  split at h
  · cases h
    exact ⟨by simpa using hreadable, Nat.not_lt.1 hinside, rfl⟩
  · cases h

lemma read_wrapped (hreadable : d.readable = true)
    (hwrap : wrapAdd (2 ^ 64) block count ≤ d.blockCount) (h : d.blockCount < block + count) :
    d.read block count = .error .badAccess := by
  rw [read, if_neg (by simpa using hreadable), if_neg (Nat.not_lt.2 hwrap), if_pos h]

end IBlockDriver

/-! ## Buffers -/

section Buffers

variable {buffer bytes : List UInt8} {start count : Nat}

lemma store_of_le (h : start + bytes.length ≤ buffer.length) :
    store buffer start bytes =
      .ok (buffer.take start ++ bytes ++ buffer.drop (start + bytes.length)) := if_pos h

lemma store_of_lt (h : buffer.length < start + bytes.length) :
    store buffer start bytes = .error .badAccess := if_neg (Nat.not_le.2 h)

lemma slice_of_lt (h : buffer.length < start + count) :
    slice buffer start count = .error .badAccess := if_neg (Nat.not_le.2 h)

lemma length_store {buffer' : List UInt8} (h : store buffer start bytes = .ok buffer') :
    buffer'.length = buffer.length := by
  rw [store] at h
  split at h
  · cases h
    simp only [length_append, length_take, length_drop]
    omega
  · cases h

end Buffers

namespace BlockDevice

variable {d : BlockDevice} {offset : Nat} {dst buffer bytes : List UInt8}

lemma fill_block {block : Nat} (hbuffer : buffer.length = d.mDevice.size)
    (hblock : block + 1 ≤ d.mDevice.blockCount) :
    ∃ buffer', store buffer 0
        (d.mDevice.span (block * d.mDevice.blockSize) (1 * d.mDevice.blockSize)) = .ok buffer' ∧
      buffer'.length = d.mDevice.size ∧
      ∀ start count, start + count ≤ d.mDevice.blockSize → slice buffer' start count =
        .ok (d.mDevice.span (block * d.mDevice.blockSize + start) count) := by
  have hend := IBlockDriver.block_le hblock
  rw [Nat.add_mul, Nat.one_mul] at hend
  have hlength := IBlockDriver.length_span hend
  rw [Nat.one_mul]
  have hstore := @store_of_le buffer
    (d.mDevice.span (block * d.mDevice.blockSize) d.mDevice.blockSize) 0 (by omega)
  refine ⟨_, hstore, (length_store hstore).trans hbuffer, ?_⟩
  intro start count hle
  rw [slice, if_pos (by rw [length_store hstore]; omega), take_zero, nil_append]
  congr 1
  rw [drop_append_of_le_length (by omega), take_append_of_le_length (by
    rw [length_drop]; omega), IBlockDriver.span, IBlockDriver.span, drop_take,
    take_take, drop_drop, Nat.min_eq_left (by omega)]

lemma store_span {n m : Nat} (hn : offset + (n + m) ≤ d.mDevice.size)
    (hm : n + m ≤ dst.length) :
    store (d.mDevice.span offset n ++ dst.drop n) n (d.mDevice.span (offset + n) m) =
      .ok (d.mDevice.span offset (n + m) ++ dst.drop (n + m)) := by
  have hfront : (d.mDevice.span offset n).length = n := IBlockDriver.length_span (by omega)
  have hpart : (d.mDevice.span (offset + n) m).length = m := IBlockDriver.length_span (by omega)
  rw [store_of_le]
  · rw [hpart, take_left' hfront, IBlockDriver.span_append, drop_append, hfront,
      drop_eq_nil_of_le (by omega), nil_append, drop_drop]
    congr 3
    omega
  · rw [length_append, length_drop, hfront, hpart]
    omega

/-! ## Spans in the device -/

lemma sectorRange_inside {size blockSize : Nat} (hpos : blockSize ≠ 0)
    (hwrap : offset + size < 2 ^ 64) (hsize : 0 < size ∨ offset % blockSize ≠ 0) :
    ∃ last count, sectorRangeForSpan offset size blockSize =
        ⟨offset / blockSize, offset % blockSize, last, count⟩ ∧
      last * blockSize + count = offset + size ∧ count ≤ blockSize ∧ 0 < count ∧
      offset / blockSize ≤ last ∧ last < 2 ^ 64 := by
  have hback := div_add_mod' (offset + size) blockSize
  have hfront := div_add_mod' offset blockSize
  have hmod := mod_lt (offset + size) (Nat.pos_of_ne_zero hpos)
  have hbound := Nat.div_le_self (offset + size) blockSize
  have hmono : offset / blockSize ≤ (offset + size) / blockSize :=
    Nat.div_le_div_right (Nat.le_add_right ..)
  simp only [sectorRangeForSpan, wrapAdd_of_lt hwrap]
  generalize (offset + size) / blockSize = last at hback hbound hmono ⊢
  generalize offset / blockSize = first at hfront hmono ⊢
  have hoffset : offset - first * blockSize = offset % blockSize := by omega
  have hcount : offset + size - last * blockSize = (offset + size) % blockSize := by omega
  rw [hoffset, hcount]
  by_cases hzero : (offset + size) % blockSize = 0
  · -- the end is a block boundary: the last sector is the one before it
    have hlt : first < last := by
      by_contra hge
      have hle := Nat.mul_le_mul_right blockSize (Nat.not_lt.1 hge)
      rcases hsize with hsize | hsize <;> omega
    have hwrapSub : wrapSub (2 ^ 64) last 1 = last - 1 := wrapSub_of_le (by omega) (by omega)
    have hpred : (last - 1) * blockSize + blockSize = last * blockSize := by
      rw [← succ_mul, succ_eq_add_one, Nat.sub_add_cancel (by omega)]
    refine ⟨last - 1, blockSize, ?_, by omega, Nat.le_refl _, Nat.pos_of_ne_zero hpos, by omega,
      by omega⟩
    rw [if_pos hzero, hwrapSub]
  · exact ⟨last, (offset + size) % blockSize, if_neg hzero, hback, by omega,
      Nat.pos_of_ne_zero hzero, hmono, by omega⟩

lemma readLast_spec {last count n : Nat} (hbuffer : buffer.length = d.mDevice.size)
    (hpos : d.mDevice.blockSize ≠ 0) (hlast : last + 1 ≤ d.mDevice.blockCount)
    (hstart : offset + n = last * d.mDevice.blockSize) (hcount : count ≤ d.mDevice.blockSize)
    (hsize : n + count = dst.length) :
    (d.mDevice.read last 1 = .ok none ∧
      d.readLast buffer last count n (d.mDevice.span offset n ++ dst.drop n) =
        .ok (n, d.mDevice.span offset n ++ dst.drop n)) ∨
    d.readLast buffer last count n (d.mDevice.span offset n ++ dst.drop n) =
      .ok (dst.length, d.mDevice.span offset dst.length ++ dst.drop dst.length) := by
  rcases IBlockDriver.read_inside hpos hlast with hread | hread
  · refine .inl ⟨hread, ?_⟩
    rw [readLast, hread]
    rfl
  · have hend := IBlockDriver.block_le hlast
    rw [Nat.add_mul, Nat.one_mul] at hend
    obtain ⟨buffer', hfill, -, hslice⟩ := fill_block hbuffer hlast
    refine .inr ?_
    rw [readLast, hread]
    simp only [bind, Except.bind, hfill, hslice 0 count (by omega)]
    rw [Nat.add_zero, ← hstart, store_span (by omega) (by omega), ← hsize]
    rfl

lemma store_first {n : Nat} (hn : n ≤ dst.length)
    (hrange : offset + n ≤ d.mDevice.size) :
    store dst 0 (d.mDevice.span offset n) = .ok (d.mDevice.span offset n ++ dst.drop n) := by
  have h := @store_span d offset dst 0 n (by omega) (by omega)
  simpa using h

lemma read_first {first front last count one next sectorCount : Nat} {block : List UInt8}
    (hrange : ¬ wrapAdd (2 ^ 64) offset dst.length > d.mDevice.size)
    (hpos : d.mDevice.blockSize ≠ 0)
    (hsectors : sectorRangeForSpan offset dst.length d.mDevice.blockSize =
      ⟨first, front, last, count⟩) (hone : wrapSub (2 ^ 64) count front = one)
    (hnext : wrapAdd (2 ^ 64) first 1 = next)
    (hsectorCount : wrapSub (2 ^ 64) (wrapSub (2 ^ 64) last first) 1 = sectorCount)
    (hread : d.mDevice.read first 1 = .ok (some block))
    (hfill : store d.mBuffer 0 block = .ok buffer)
    (hslice : slice buffer front (d.mDevice.blockSize - front) = .ok bytes) :
    d.read offset dst =
      if first = last then (do
        let bytes ← slice buffer front one
        let dst ← store dst 0 bytes
        pure (one, dst))
      else (do
        let dst ← store dst 0 bytes
        d.readRest buffer next sectorCount last count (d.mDevice.blockSize - front) dst) := by
  rw [read, if_neg hrange, if_neg hpos, hsectors]
  simp only [hone, hnext, hsectorCount, bind, Except.bind, hread, hfill, hslice]

lemma readsExactly_refused (h : d.mDevice.size < wrapAdd (2 ^ 64) offset dst.length ∨
    (d.mDevice.blockSize ≠ 0 ∧ d.mDevice.read (offset / d.mDevice.blockSize) 1 = .ok none)) :
    d.ReadsExactly offset dst := by
  refine ⟨0, Nat.zero_le _, ?_, .inl rfl, .inl rfl⟩
  rw [IBlockDriver.span_zero, nil_append, drop_zero, read]
  split
  · rfl
  · rename_i hrange
    obtain ⟨hpos, hnone⟩ := h.resolve_left hrange
    have hfirst : (sectorRangeForSpan offset dst.length d.mDevice.blockSize).firstSector =
        offset / d.mDevice.blockSize := by
      rw [sectorRangeForSpan]
      split <;> rfl
    rw [if_neg hpos]
    simp only [bind, Except.bind, hfirst, hnone]
    rfl

lemma read_inside (hpos : d.mDevice.blockSize ≠ 0)
    (hrange : offset + dst.length ≤ d.mDevice.size)
    (hsize : 0 < dst.length ∨ offset % d.mDevice.blockSize ≠ 0) :
    d.mDevice.read (offset / d.mDevice.blockSize) 1 = .ok none ∨
      (d.RefusedPartWay offset dst.length ∧ d.ReadsExactly offset dst) ∨
      d.read offset dst = .ok (dst.length, d.mDevice.span offset dst.length) := by
  have hall : d.mDevice.span offset dst.length ++ dst.drop dst.length =
      d.mDevice.span offset dst.length := by
    rw [drop_length, append_nil]
  have hbound : d.mDevice.size < 2 ^ 64 := d.mDevice.size_lt
  have hwrap : offset + dst.length < 2 ^ 64 := lt_of_le_of_lt hrange hbound
  obtain ⟨last, count, hsectors, hlast, hcount, hcountPos, hle, hlastLt⟩ :=
    sectorRange_inside hpos hwrap hsize
  have hfront := div_add_mod' offset d.mDevice.blockSize
  have hmod := mod_lt offset (Nat.pos_of_ne_zero hpos)
  obtain ⟨first, hfirst⟩ : ∃ first, first = offset / d.mDevice.blockSize := ⟨_, rfl⟩
  obtain ⟨front, hfrontEq⟩ : ∃ front, front = offset % d.mDevice.blockSize := ⟨_, rfl⟩
  rw [← hfirst, ← hfrontEq] at hsectors hfront
  rw [← hfirst] at hle
  -- the blocks of the span are blocks of the device
  have hblocks : ∀ block, block * d.mDevice.blockSize < d.mDevice.size →
      block + 1 ≤ d.mDevice.blockCount := by
    intro block hlt
    rw [IBlockDriver.size, Nat.mul_comm] at hlt
    exact Nat.lt_of_mul_lt_mul_left hlt
  have hlastBlock : last + 1 ≤ d.mDevice.blockCount := hblocks last (by omega)
  have hfirstBlock : first + 1 ≤ d.mDevice.blockCount := by omega
  have hread : ¬ wrapAdd (2 ^ 64) offset dst.length > d.mDevice.size := by
    rw [wrapAdd_of_lt hwrap]
    omega
  rcases IBlockDriver.read_inside hpos hfirstBlock with hnone | hsome
  · exact .inl (hfirst ▸ hnone)
  obtain ⟨buffer, hfill, hbuffer, hslice⟩ := fill_block d.length_buffer hfirstBlock
  obtain ⟨n, hn⟩ : ∃ n, n = d.mDevice.blockSize - front := ⟨_, rfl⟩
  have hrun := read_first hread hpos hsectors rfl rfl rfl hsome hfill (hslice front _ (by omega))
  rw [hfront, ← hn] at hrun
  by_cases hone : first = last
  · -- the span lies in one block
    have hreadSize : wrapSub (2 ^ 64) count front = dst.length := by
      subst hone
      rw [wrapSub_of_le (by omega) (by omega)]
      omega
    refine .inr (.inr ?_)
    rw [hrun, if_pos hone, hreadSize, hslice front dst.length (by subst hone; omega), hfront]
    simp only [bind, Except.bind, store_first (Nat.le_refl _) hrange, hall]
    rfl
  · -- the rest of the first block, the blocks between, the front of the last block
    obtain ⟨middle, hmiddle⟩ : ∃ middle, middle = last - first - 1 := ⟨_, rfl⟩
    have hsubSub : wrapSub (2 ^ 64) (wrapSub (2 ^ 64) last first) 1 = middle := by
      rw [wrapSub_of_le hle hlastLt, wrapSub_of_le (by omega) (by omega), hmiddle]
    have hadd : wrapAdd (2 ^ 64) first 1 = first + 1 := wrapAdd_of_lt (by omega)
    have hnext : (first + 1) * d.mDevice.blockSize =
        first * d.mDevice.blockSize + d.mDevice.blockSize := succ_mul ..
    have hlastEq : last * d.mDevice.blockSize =
        (first + 1) * d.mDevice.blockSize + middle * d.mDevice.blockSize := by
      rw [← Nat.add_mul, show first + 1 + middle = last by omega]
    have hsplit : d.read offset dst = d.readRest buffer (first + 1) middle last count n
        (d.mDevice.span offset n ++ dst.drop n) := by
      rw [hrun, if_neg hone, hsubSub, hadd, store_first (by omega) (by omega)]
      rfl
    have hfinish : ∀ m, offset + m = last * d.mDevice.blockSize → m + count = dst.length →
        d.read offset dst =
          d.readLast buffer last count m (d.mDevice.span offset m ++ dst.drop m) →
        (d.RefusedPartWay offset dst.length ∧ d.ReadsExactly offset dst) ∨
          d.read offset dst = .ok (dst.length, d.mDevice.span offset dst.length) := by
      intro m hm htotal hrun
      rcases readLast_spec hbuffer hpos hlastBlock hm hcount htotal with
        ⟨hrefused, hlastRun⟩ | hlastRun
      · have hpart : d.RefusedPartWay offset dst.length :=
          ⟨hrange, last, 1, by omega, by omega, hlastBlock, hrefused⟩
        exact .inl ⟨hpart, m, by omega, hrun.trans hlastRun, .inr (by omega), .inr (.inr hpart)⟩
      · exact .inr (hrun.trans (hall ▸ hlastRun))
    by_cases hzero : middle = 0
    · rw [hzero, zero_mul, Nat.add_zero] at hlastEq
      refine .inr (hfinish n (by omega) (by omega) ?_)
      rw [hsplit, readRest, if_pos hzero]
    · have hinside : first + 1 + middle ≤ d.mDevice.blockCount := by omega
      rcases IBlockDriver.read_inside hpos hinside with hnone | hbytes
      · have hpart : d.RefusedPartWay offset dst.length :=
          ⟨hrange, first + 1, middle, by omega, by omega, hinside, hnone⟩
        refine .inr (.inl ⟨hpart, n, by omega, ?_, .inr (by omega), .inr (.inr hpart)⟩)
        rw [hsplit, readRest, if_neg hzero, hnone]
        rfl
      · refine .inr (hfinish (n + middle * d.mDevice.blockSize) (by omega) (by omega) ?_)
        have hstart : (first + 1) * d.mDevice.blockSize = offset + n := by omega
        rw [hsplit, readRest, if_neg hzero, hbytes, hstart]
        simp only [bind, Except.bind]
        rw [store_span (by omega) (by omega)]

lemma readsExactly_inside (hpos : d.mDevice.blockSize ≠ 0)
    (hrange : offset + dst.length ≤ d.mDevice.size)
    (hsize : 0 < dst.length ∨ offset % d.mDevice.blockSize ≠ 0) : d.ReadsExactly offset dst := by
  rcases read_inside hpos hrange hsize with hrefused | ⟨-, hexact⟩ | hread
  · exact readsExactly_refused (.inr ⟨hpos, hrefused⟩)
  · exact hexact
  · refine ⟨dst.length, Nat.le_refl _, ?_, .inr hrange, .inr (.inl rfl)⟩
    rw [drop_length, append_nil]
    exact hread

/-! ## The other reads -/

lemma read_empty (hpos : d.mDevice.blockSize ≠ 0) (hoffset : offset < 2 ^ 64)
    (hfront : offset % d.mDevice.blockSize = 0)
    (hrange : ¬ wrapAdd (2 ^ 64) offset 0 > d.mDevice.size)
    (hread : d.mDevice.read (offset / d.mDevice.blockSize) 1 = .ok (some bytes)) :
    d.read offset [] = .error .badAccess := by
  obtain ⟨-, hblock, rfl⟩ := IBlockDriver.read_eq_some hread
  have hdiv := div_add_mod' offset d.mDevice.blockSize
  have hlt : offset / d.mDevice.blockSize < 2 ^ 64 :=
    lt_of_le_of_lt (Nat.div_le_self ..) hoffset
  have hlength := IBlockDriver.block_le hblock
  have hadd : wrapAdd (2 ^ 64) offset 0 = offset := mod_eq_of_lt hoffset
  obtain ⟨last, hlast⟩ : ∃ last, last = wrapSub (2 ^ 64) (offset / d.mDevice.blockSize) 1 :=
    ⟨_, rfl⟩
  have hne : ¬ offset / d.mDevice.blockSize = last := by
    have hcases := wrapSub_cases hlt (show 1 ≤ 2 ^ 64 by decide)
    omega
  obtain ⟨front, hzero⟩ : ∃ front, front = 0 := ⟨_, rfl⟩
  have hsectors : sectorRangeForSpan offset 0 d.mDevice.blockSize =
      ⟨offset / d.mDevice.blockSize, front, last, d.mDevice.blockSize⟩ := by
    simp only [sectorRangeForSpan, hadd, show offset -
      offset / d.mDevice.blockSize * d.mDevice.blockSize = 0 by omega, if_true, hlast, hzero]
  obtain ⟨buffer, hfill, -, hslice⟩ := fill_block d.length_buffer hblock
  rw [Nat.add_mul, Nat.one_mul] at hlength
  have hlengthNil : ([] : List UInt8).length = 0 := rfl
  have hrun := read_first (hlengthNil ▸ hrange) hpos (hlengthNil ▸ hsectors) rfl rfl rfl hread hfill
    (hslice front (d.mDevice.blockSize - front) (by omega))
  rw [hrun, if_neg hne, store_of_lt]
  · rfl
  · rw [hzero, Nat.add_zero, Nat.sub_zero, IBlockDriver.length_span hlength, length_nil]
    omega

lemma readLast_wrapped {last count n : Nat} (hlast : last + 1 = 2 ^ 64)
    (hreadable : d.mDevice.readable = true) (hblocks : d.mDevice.blockCount < 2 ^ 64) :
    d.readLast buffer last count n dst = .error .badAccess := by
  have hwrap : wrapAdd (2 ^ 64) last 1 ≤ d.mDevice.blockCount := by
    rw [wrapAdd, hlast, mod_self]
    exact Nat.zero_le _
  rw [readLast, IBlockDriver.read_wrapped hreadable hwrap (hlast ▸ hblocks)]
  rfl

lemma sectorRange_wrapped {size blockSize : Nat} (hpos : blockSize ≠ 0) (hoffset : offset < 2 ^ 64)
    (hsize : size < 2 ^ 64) (hwraps : 2 ^ 64 ≤ offset + size) :
    ∃ last count, sectorRangeForSpan offset size blockSize =
        ⟨offset / blockSize, offset % blockSize, last, count⟩ ∧
      ((last + 1 = 2 ^ 64 ∧ offset + size = 2 ^ 64) ∨
        (last ≤ offset / blockSize ∧ last * blockSize + 2 ^ 64 ≤ offset + size ∧
          (last = offset / blockSize → count < offset % blockSize))) := by
  have hback : wrapAdd (2 ^ 64) offset size + 2 ^ 64 = offset + size := by
    rcases wrapAdd_cases hoffset hsize.le with h | h <;> omega
  simp only [sectorRangeForSpan]
  generalize wrapAdd (2 ^ 64) offset size = back at hback ⊢
  have hdiv := div_add_mod' back blockSize
  have hfront := div_add_mod' offset blockSize
  have hbound := Nat.div_le_self back blockSize
  have hmono : back / blockSize ≤ offset / blockSize := Nat.div_le_div_right (by omega)
  generalize back / blockSize = last at hdiv hbound hmono ⊢
  generalize offset / blockSize = first at hfront hmono ⊢
  have hfrontEq : offset - first * blockSize = offset % blockSize := by omega
  have hcountEq : back - last * blockSize = back % blockSize := by omega
  rw [hfrontEq, hcountEq]
  by_cases hzero : back % blockSize = 0
  · refine ⟨wrapSub (2 ^ 64) last 1, blockSize, if_pos hzero, ?_⟩
    by_cases hlast : last = 0
    · have hback0 : back = 0 := by
        rw [← hdiv, hlast, hzero, zero_mul]
      have hcases := wrapSub_cases (w := 2 ^ 64) (a := last) (b := 1) (by omega) (by decide)
      exact .inl ⟨by omega, by omega⟩
    · rw [wrapSub_of_le (by omega) (by omega)]
      have hpred : (last - 1) * blockSize + blockSize = last * blockSize := by
        rw [← succ_mul, succ_eq_add_one, Nat.sub_add_cancel (by omega)]
      exact .inr ⟨by omega, by omega, by omega⟩
  · refine ⟨last, back % blockSize, if_neg hzero, .inr ⟨hmono, by omega, ?_⟩⟩
    rintro rfl
    omega

lemma not_readsExactly_wrapped (hpos : d.mDevice.blockSize ≠ 0) (hoffset : offset < 2 ^ 64)
    (hsize : dst.length < 2 ^ 64) (hwraps : 2 ^ 64 ≤ offset + dst.length)
    (hrange : ¬ wrapAdd (2 ^ 64) offset dst.length > d.mDevice.size)
    (hread : d.mDevice.read (offset / d.mDevice.blockSize) 1 = .ok (some bytes)) :
    ¬ d.ReadsExactly offset dst := by
  obtain ⟨hreadable, hblock, rfl⟩ := IBlockDriver.read_eq_some hread
  have hsizeLt : d.mDevice.size < 2 ^ 64 := d.mDevice.size_lt
  have hcountLt := IBlockDriver.blockCount_lt hpos
  have hlength := IBlockDriver.block_le hblock
  rw [Nat.add_mul, Nat.one_mul] at hlength
  have hfront := div_add_mod' offset d.mDevice.blockSize
  have hmod := mod_lt offset (Nat.pos_of_ne_zero hpos)
  obtain ⟨last, count, hsectors, hlast⟩ := sectorRange_wrapped hpos hoffset hsize hwraps
  obtain ⟨buffer, hfill, hbuffer, hslice⟩ := fill_block d.length_buffer hblock
  generalize offset / d.mDevice.blockSize = first at *
  generalize offset % d.mDevice.blockSize = front at *
  have hadd : wrapAdd (2 ^ 64) first 1 = first + 1 := wrapAdd_of_lt (by omega)
  generalize hsectorCount : wrapSub (2 ^ 64) (wrapSub (2 ^ 64) last first) 1 = sectorCount
  generalize hone : wrapSub (2 ^ 64) count front = one
  have hrun := read_first hrange hpos hsectors hone hadd hsectorCount hread hfill
    (hslice front (d.mDevice.blockSize - front) (add_sub_of_le hmod.le).le)
  rintro ⟨n, hn, heq, -, hexact⟩
  have hnone : ¬ d.RefusedPartWay offset dst.length := fun h =>
    absurd h.1 (Nat.not_le.2 (lt_of_lt_of_le hsizeLt hwraps))
  rw [hrun] at heq
  by_cases hsame : first = last
  · -- more bytes are asked for than the buffer has
    rcases hlast with ⟨hlast, -⟩ | ⟨-, -, hcount⟩
    · omega
    · have hcases := wrapSub_cases (w := 2 ^ 64) (a := count) (b := front) (by omega) (by omega)
      rw [if_pos hsame, slice_of_lt (by omega)] at heq
      cases heq
  rw [if_neg hsame] at heq
  obtain ⟨dst', -, heq⟩ := bind_eq_ok.1 heq
  rcases hlast with ⟨hlast, htotal⟩ | ⟨hle, -, -⟩
  · -- the end wraps to zero
    have hlastRead : ∀ n dst, d.readLast buffer last count n dst = .error .badAccess :=
      fun n dst => readLast_wrapped hlast hreadable hcountLt
    by_cases hzero : sectorCount = 0
    · rw [readRest, if_pos hzero, hlastRead] at heq
      cases heq
    · rw [readRest, if_neg hzero] at heq
      obtain ⟨answer, -, heq⟩ := bind_eq_ok.1 heq
      cases answer with
      | none =>
        cases heq
        rcases hexact with hnothing | hall | hrefused
        · omega
        · omega
        · exact hnone hrefused
      | some middle =>
        obtain ⟨dst'', -, heq⟩ := bind_eq_ok.1 heq
        rw [hlastRead] at heq
        cases heq
  · -- the last sector comes before the first: the number of those between wraps
    have hcases := wrapSub_cases (w := 2 ^ 64) (a := last) (b := first) (by omega) (by omega)
    have hcases' := wrapSub_cases (a := wrapSub (2 ^ 64) last first) (b := 1)
      (wrapSub_lt (by decide)) (by decide)
    have hwrapped : wrapAdd (2 ^ 64) (first + 1) sectorCount = last := by
      have := wrapAdd_cases (w := 2 ^ 64) (a := first + 1) (b := sectorCount) (by omega) (by omega)
      omega
    have hblocks : d.mDevice.blockCount < first + 1 + sectorCount := by omega
    have hzero : ¬ sectorCount = 0 := by omega
    have hinside : wrapAdd (2 ^ 64) (first + 1) sectorCount ≤ d.mDevice.blockCount := by omega
    rw [readRest, if_neg hzero, IBlockDriver.read_wrapped hreadable hinside hblocks] at heq
    cases heq

/-- A read is exact if and only if it is one of those that are served. -/
theorem readsExactly_iff (hoffset : offset < 2 ^ 64) (hsize : dst.length < 2 ^ 64) :
    d.ReadsExactly offset dst ↔ d.Served offset dst.length := by
  by_cases hrange : wrapAdd (2 ^ 64) offset dst.length > d.mDevice.size
  · exact ⟨fun _ => .inl hrange, fun _ => readsExactly_refused (.inl hrange)⟩
  have hserved : d.Served offset dst.length ↔ d.mDevice.blockSize ≠ 0 ∧
      (d.mDevice.read (offset / d.mDevice.blockSize) 1 = .ok none ∨
        (offset + dst.length < 2 ^ 64 ∧
          (0 < dst.length ∨ offset % d.mDevice.blockSize ≠ 0))) :=
    or_iff_right hrange
  rw [hserved]
  by_cases hpos : d.mDevice.blockSize = 0
  · refine ⟨?_, fun h => absurd hpos h.1⟩
    rintro ⟨n, -, heq, -⟩
    rw [read, if_neg hrange, if_pos hpos] at heq
    cases heq
  constructor
  · intro hexact
    refine ⟨hpos, or_iff_not_imp_left.2 fun hread => ?_⟩
    cases hfirst : d.mDevice.read (offset / d.mDevice.blockSize) 1 with
    | error fault =>
      obtain ⟨n, -, heq, -⟩ := hexact
      have hsector : (sectorRangeForSpan offset dst.length d.mDevice.blockSize).firstSector =
          offset / d.mDevice.blockSize := by
        rw [sectorRangeForSpan]
        split <;> rfl
      rw [read, if_neg hrange, if_neg hpos] at heq
      obtain ⟨answer, hanswer, -⟩ := bind_eq_ok.1 heq
      rw [hsector, hfirst] at hanswer
      cases hanswer
    | ok answer =>
      cases answer with
      | none => exact absurd hfirst hread
      | some bytes =>
        have hwrap : offset + dst.length < 2 ^ 64 := by
          by_contra hwraps
          exact not_readsExactly_wrapped hpos hoffset hsize (Nat.not_lt.1 hwraps) hrange hfirst
            hexact
        refine ⟨hwrap, or_iff_not_imp_left.2 fun hempty hfront => ?_⟩
        obtain rfl : dst = [] := length_eq_zero_iff.1 (by omega)
        obtain ⟨n, -, heq, -⟩ := hexact
        rw [read_empty hpos hoffset hfront hrange hfirst] at heq
        cases heq
  · rintro ⟨-, hread | ⟨hwrap, hsize⟩⟩
    · exact readsExactly_refused (.inr ⟨hpos, hread⟩)
    · rw [wrapAdd_of_lt hwrap] at hrange
      exact readsExactly_inside hpos (Nat.not_lt.1 hrange) hsize

def twoBlocks : BlockDevice where
  mDevice := {
    readable := true
    blockSize := 4
    blockCount := 2
    bytes := [1, 2, 3, 4, 5, 6, 7, 8]
    answers := fun _ _ => true
    blockSize_lt := by decide
    length_bytes := rfl
    size_lt := by decide }
  mBuffer := replicate 8 0
  length_buffer := rfl

theorem readsExactly_twoBlocks : twoBlocks.ReadsExactly 3 [0, 0, 0] :=
  (readsExactly_iff (by decide) (by decide)).2 (.inr ⟨by decide, .inr ⟨by decide, by decide⟩⟩)

/-- Nothing is asked for at the front of the second block, and four bytes are stored. -/
theorem not_readsExactly_twoBlocks : ¬ twoBlocks.ReadsExactly 4 [] := by
  rintro ⟨n, -, heq, -⟩
  cases heq

end BlockDevice

end Block

end BezOS
