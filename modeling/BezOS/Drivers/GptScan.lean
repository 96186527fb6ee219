import BezOS.Drivers.Gpt
import BezOS.Lib.Placed

/-!
# Scanning partition tables

The scan stops at the first entry that is not used: it is complete if the used entries of a table
come first.
-/

namespace BezOS
namespace Gpt

open Block Lib List Nat GptEntry

variable {drive : BlockDevice} {mbr : MasterBootRecord} {header : GptHeader} {i n : Nat}

/-! ## Reads -/

lemma readInto_inside (hpos : drive.mDevice.blockSize ≠ 0) {offset size : Nat} (hsize : 0 < size)
    (hinside : offset + size ≤ drive.mDevice.size) :
    readInto drive offset size = .ok none ∨
      readInto drive offset size = .ok (some (drive.mDevice.span offset size)) := by
  have hzeros : (replicate size (0 : UInt8)).length = size := length_replicate
  obtain ⟨n, hn, hread, -⟩ := BlockDevice.readsExactly_inside hpos
    (by rwa [hzeros])
    (.inl (by rwa [hzeros]))
  rw [readInto, hread]
  by_cases hall : n = size
  · subst hall
    refine .inr ?_
    simp only [bind, Except.bind, ne_eq, not_true_eq_false, if_false]
    rw [drop_of_length_le (Nat.le_of_eq hzeros), append_nil]
    rfl
  · refine .inl ?_
    simp only [bind, Except.bind, ne_eq, hall, not_false_eq_true, if_true]
    rfl

lemma ValidGpt.blockSize_ne_zero (h : ValidGpt drive mbr header) :
    drive.mDevice.blockSize ≠ 0 := by
  intro hzero
  obtain ⟨bytes, hread, -⟩ := h.mbr_read
  have hsize : drive.mDevice.size = 0 := by rw [IBlockDriver.size, hzero, zero_mul]
  have hempty : drive.read 0 (replicate MasterBootRecord.kSize 0) =
      .ok (0, replicate MasterBootRecord.kSize 0) := by
    rw [BlockDevice.read, hsize]
    exact if_pos (by rw [length_replicate]; decide)
  rw [readInto, hempty] at hread
  cases hread

section

variable (hinside : tableOffset drive header i + kSize ≤ drive.mDevice.size)

include hinside

lemma entryOffset_inside :
    entryOffset drive header i = header.lbaPartitionArray * drive.mDevice.blockSize +
      i * header.partitionEntrySize % 2 ^ 32 := by
  have hsize : drive.mDevice.size < 2 ^ 64 := drive.mDevice.size_lt
  rw [tableOffset] at hinside
  rw [entryOffset, mod_eq_of_lt (by omega), wrapAdd_of_lt (by omega)]

lemma entryOffset_add_le :
    entryOffset drive header i + kSize ≤ drive.mDevice.size := by
  rw [entryOffset_inside hinside]
  rw [tableOffset] at hinside
  omega

lemma entryOffset_eq_iff :
    entryOffset drive header i = tableOffset drive header i ↔
      i * header.partitionEntrySize < 2 ^ 32 := by
  rw [entryOffset_inside hinside, tableOffset, Nat.add_left_cancel_iff]
  exact ⟨fun h => h ▸ mod_lt _ (by decide), mod_eq_of_lt⟩

end

/-! ## The loop -/

def GoesOn (drive : BlockDevice) (header : GptHeader) (i : Nat) : Prop :=
  ∃ bytes, readInto drive (entryOffset drive header i) kSize = .ok (some bytes) ∧
    (ofBytes bytes).type ≠ kNullEntry

def entryRead (drive : BlockDevice) (header : GptHeader) (i : Nat) : GptEntry :=
  .ofBytes (drive.mDevice.span (entryOffset drive header i) kSize)

lemma entriesFrom_eq (h : ValidGpt drive mbr header) (rounds : Nat)
    (hrounds : i + rounds = header.partitionCount) :
    ∃ n, i ≤ n ∧ n ≤ header.partitionCount ∧
      entriesFrom drive header rounds i ((range i).map (entryRead drive header)) =
        .ok ((range n).map (entryRead drive header)) ∧
      (∀ j, i ≤ j → j < n → GoesOn drive header j) ∧
      (n < header.partitionCount → ¬ GoesOn drive header n) := by
  induction rounds generalizing i with
  | zero =>
    refine ⟨i, Nat.le_refl _, Nat.le_of_eq hrounds, rfl, fun j hle hlt => ?_, fun hlt => ?_⟩
    · omega
    · omega
  | succ rounds ih =>
    have hin := entryOffset_add_le (h.table_inside i (by omega))
    have hstop : ∀ result, entriesFrom drive header (rounds + 1) i
        ((range i).map (entryRead drive header)) = result →
        result = .ok ((range i).map (entryRead drive header)) → ¬ GoesOn drive header i →
        ∃ n, i ≤ n ∧ n ≤ header.partitionCount ∧
          entriesFrom drive header (rounds + 1) i ((range i).map (entryRead drive header)) =
            .ok ((range n).map (entryRead drive header)) ∧
          (∀ j, i ≤ j → j < n → GoesOn drive header j) ∧
          (n < header.partitionCount → ¬ GoesOn drive header n) := by
      intro result hresult heq hnot
      exact ⟨i, Nat.le_refl _, by omega, hresult.trans heq, fun j hle hlt => by omega,
        fun _ => hnot⟩
    rcases readInto_inside h.blockSize_ne_zero (by decide) hin with hnone | hsome
    · refine hstop _ (by rw [entriesFrom, hnone]; rfl) rfl ?_
      rintro ⟨bytes, hread, -⟩
      rw [hnone] at hread
      cases hread
    · by_cases hnull : (entryRead drive header i).type = kNullEntry
      · refine hstop _ (by rw [entriesFrom, hsome]; exact if_pos hnull) rfl ?_
        rintro ⟨bytes, hread, hused⟩
        rw [hsome] at hread
        cases hread
        exact hused hnull
      · obtain ⟨n, hle, hn, hrun, hgo, hend⟩ := ih (i := i + 1) (by omega)
        have hround : entriesFrom drive header (rounds + 1) i
            ((range i).map (entryRead drive header)) =
            entriesFrom drive header rounds (i + 1)
              ((range (i + 1)).map (entryRead drive header)) := by
          rw [entriesFrom, hsome, range_succ, map_append]
          exact if_neg hnull
        refine ⟨n, by omega, hn, hround.trans hrun, fun j hle hlt => ?_, hend⟩
        rcases Nat.eq_or_lt_of_le hle with rfl | hlater
        · exact ⟨_, hsome, hnull⟩
        · exact hgo j hlater hlt

lemma parsePartitionTable_eq (h : ValidGpt drive mbr header) :
    ∃ n ≤ header.partitionCount, parsePartitionTable drive =
        .ok (.ok { mbr := mbr, gpt := some header,
                   entries := (range n).map (entryRead drive header) }) ∧
      (∀ j < n, GoesOn drive header j) ∧
      (n < header.partitionCount → ¬ GoesOn drive header n) := by
  obtain ⟨mbrBytes, hmbr, rfl⟩ := h.mbr_read
  obtain ⟨headerBytes, hheader, rfl⟩ := h.header_read
  obtain ⟨n, -, hn, hrun, hgo, hend⟩ := entriesFrom_eq h _ (Nat.zero_add _)
  refine ⟨n, hn, ?_, fun j hj => hgo j (Nat.zero_le j) hj, hend⟩
  have hentries : entriesFrom drive (GptHeader.ofBytes headerBytes) _ 0 [] = _ := hrun
  rw [parsePartitionTable, hmbr]
  simp only [bind, Except.bind, h.mbr_signature, h.mbr_isGpt, ne_eq, not_true_eq_false, if_false]
  rw [parseGpt, hheader]
  simp only [bind, Except.bind, h.header_signature, ne_eq, not_true_eq_false, if_false, hentries]
  rfl

/-! ## When the scan is complete -/

lemma goesOn_iff_good (h : ValidGpt drive mbr header) (hi : i < header.partitionCount)
    (hplace : entryOffset drive header i = tableOffset drive header i) :
    GoesOn drive header i ↔ Good drive header i := by
  rw [GoesOn, Good, hplace]
  rcases readInto_inside h.blockSize_ne_zero (by decide) (h.table_inside i hi) with hnone | hsome
  · rw [hnone]
    simp
  · rw [hsome]
    constructor
    · rintro ⟨bytes, hread, hused⟩
      cases hread
      exact ⟨⟨_, rfl⟩, hused⟩
    · rintro ⟨-, hused⟩
      exact ⟨_, rfl, hused⟩

lemma goesOn_iff_of_places (h : ValidGpt drive mbr header) (hn : n ≤ header.partitionCount)
    (hplaces : (∀ i, Reached drive header i →
        entryOffset drive header i = tableOffset drive header i) ∨
      ∀ i < header.partitionCount, (∀ j < i, Good drive header j) →
        entryOffset drive header i = tableOffset drive header i) :
    (∀ j < n, GoesOn drive header j) ↔ ∀ j < n, Good drive header j := by
  induction n with
  | zero =>
    constructor
    · exact fun _ j hj => absurd hj (Nat.not_lt_zero j)
    · exact fun _ j hj => absurd hj (Nat.not_lt_zero j)
  | succ n ih =>
    have hbefore := ih (le_of_succ_le hn)
    -- the next entry is read in its place, from either side
    have hnext : (∀ j < n, GoesOn drive header j) →
        (GoesOn drive header n ↔ Good drive header n) := by
      intro hgo
      refine goesOn_iff_good h hn ?_
      rcases hplaces with hreached | hgood
      · exact hreached n ⟨hn, hgo⟩
      · exact hgood n hn (hbefore.1 hgo)
    constructor
    · intro hgo j hj
      have hfirst : ∀ j < n, GoesOn drive header j := fun j hj => hgo j (lt_succ_of_lt hj)
      rcases Nat.lt_succ_iff_lt_or_eq.1 hj with hlt | rfl
      · exact hbefore.1 hfirst j hlt
      · exact (hnext hfirst).1 (hgo j hj)
    · intro hgood j hj
      have hfirst := hbefore.2 fun j hj => hgood j (lt_succ_of_lt hj)
      rcases Nat.lt_succ_iff_lt_or_eq.1 hj with hlt | rfl
      · exact hfirst j hlt
      · exact (hnext hfirst).2 (hgood j hj)

lemma usedEntries_eq (hn : n ≤ header.partitionCount) (hused : ∀ j < n, Used drive header j)
    (hrest : ∀ j < header.partitionCount, n ≤ j → ¬ Used drive header j) :
    usedEntries drive header = (range n).map (entryAt drive header) := by
  obtain ⟨k, hk⟩ := Nat.exists_eq_add_of_le hn
  have hfront : (range n).filter (fun j => Used drive header j) = range n :=
    filter_eq_self.2 fun j hj => decide_eq_true (hused j (mem_range.1 hj))
  have hback : ((range k).map (n + ·)).filter (fun j => Used drive header j) = [] := by
    refine filter_eq_nil_iff.2 fun j hj => ?_
    obtain ⟨m, hm, rfl⟩ := mem_map.1 hj
    have hlt := mem_range.1 hm
    simpa using hrest (n + m) (by omega) (Nat.le_add_right n m)
  rw [usedEntries, hk, range_add, filter_append, hfront, hback, append_nil]

lemma not_used_of_usedEntries_eq (hn : n ≤ header.partitionCount)
    (hused : ∀ j < n, Used drive header j)
    (heq : usedEntries drive header = (range n).map (entryAt drive header)) :
    ∀ j < header.partitionCount, n ≤ j → ¬ Used drive header j := by
  obtain ⟨k, hk⟩ := Nat.exists_eq_add_of_le hn
  have hfront : (range n).filter (fun j => Used drive header j) = range n :=
    filter_eq_self.2 fun j hj => decide_eq_true (hused j (mem_range.1 hj))
  have hlength := congrArg length heq
  rw [usedEntries, hk, range_add, filter_append, hfront, map_append,
    length_append, length_map, length_map, Nat.add_eq_left,
    length_eq_zero_iff, filter_eq_nil_iff] at hlength
  intro j hj hle
  have hmem : j ∈ (range k).map (n + ·) :=
    mem_map.2 ⟨j - n, mem_range.2 (by omega), by omega⟩
  simpa using hlength j hmem

lemma entryRead_eq (hplace : entryOffset drive header i = tableOffset drive header i) :
    entryRead drive header i = entryAt drive header i := by
  rw [entryRead, hplace, entryAt]

lemma usedFirst_of_complete (h : ValidGpt drive mbr header)
    (hcomplete : Complete drive mbr header) : UsedFirst drive header := by
  obtain ⟨hresult, hreads⟩ := hcomplete
  obtain ⟨n, hn, hparse, hgo, -⟩ := parsePartitionTable_eq h
  have hgood := (goesOn_iff_of_places h hn (.inl hreads)).1 hgo
  have hentries : usedEntries drive header = (range n).map (entryAt drive header) := by
    rw [hparse] at hresult
    simp only [Except.ok.injEq, DrivePartitions.mk.injEq, true_and] at hresult
    rw [← hresult]
    refine map_congr_left fun j hj => entryRead_eq (hreads j ?_)
    have hlt := mem_range.1 hj
    exact ⟨by omega, fun m hm => hgo m (by omega)⟩
  have hrest := not_used_of_usedEntries_eq hn (fun j hj => (hgood j hj).2) hentries
  constructor
  · intro j hj hused i hi
    refine hgood i (Nat.lt_of_le_of_lt hi ?_)
    by_contra hle
    exact hrest j hj (Nat.le_of_not_lt hle) hused
  · intro i hi hbefore
    refine (entryOffset_eq_iff (h.table_inside i hi)).1 (hreads i ⟨hi, ?_⟩)
    exact (goesOn_iff_of_places h (Nat.le_of_lt hi) (.inl hreads)).2 hbefore

lemma complete_of_usedFirst (h : ValidGpt drive mbr header)
    (hfirst : UsedFirst drive header) : Complete drive mbr header := by
  have hplaces : ∀ i < header.partitionCount, (∀ j < i, Good drive header j) →
      entryOffset drive header i = tableOffset drive header i := fun i hi hbefore =>
    (entryOffset_eq_iff (h.table_inside i hi)).2 (hfirst.narrow i hi hbefore)
  have hreads : ∀ i, Reached drive header i →
      entryOffset drive header i = tableOffset drive header i := fun i hreached =>
    hplaces i hreached.1
      ((goesOn_iff_of_places h (Nat.le_of_lt hreached.1) (.inr hplaces)).1 hreached.2)
  obtain ⟨n, hn, hparse, hgo, hend⟩ := parsePartitionTable_eq h
  have hgood := (goesOn_iff_of_places h hn (.inr hplaces)).1 hgo
  have hrest : ∀ j < header.partitionCount, n ≤ j → ¬ Used drive header j := by
    intro j hj hle hused
    have hlt := Nat.lt_of_le_of_lt hle hj
    exact hend hlt ((goesOn_iff_good h hlt (hplaces n hlt hgood)).2 (hfirst.first j hj hused n hle))
  refine ⟨?_, hreads⟩
  rw [hparse, usedEntries_eq hn (fun j hj => (hgood j hj).2) hrest]
  have hsame : (range n).map (entryRead drive header) =
      (range n).map (entryAt drive header) := by
    refine map_congr_left fun j hj => entryRead_eq (hreads j ?_)
    have hlt := mem_range.1 hj
    exact ⟨by omega, fun m hm => hgo m (by omega)⟩
  rw [hsame]

/-- The scan of a device with a header is complete exactly if the used entries come first, the
driver reads them, and 32 bits hold where every entry stands that has to be read. -/
theorem complete_iff_usedFirst (drive : BlockDevice) (mbr : MasterBootRecord) (header : GptHeader)
    (h : ValidGpt drive mbr header) : Complete drive mbr header ↔ UsedFirst drive header :=
  ⟨usedFirst_of_complete h, complete_of_usedFirst h⟩

/-! ## Two small devices -/

lemma readInto_of_answers (hpos : drive.mDevice.blockSize ≠ 0)
    (hreadable : drive.mDevice.readable = true)
    (hanswers : ∀ block count, drive.mDevice.answers block count = true) {offset size : Nat}
    (hsize : 0 < size) (hinside : offset + size ≤ drive.mDevice.size) :
    readInto drive offset size = .ok (some (drive.mDevice.span offset size)) := by
  have hnever : ∀ block count, block + count ≤ drive.mDevice.blockCount →
      drive.mDevice.read block count ≠ .ok none := by
    intro block count hle hnone
    have hlt := IBlockDriver.blockCount_lt hpos
    rw [IBlockDriver.read, wrapAdd_of_lt (by omega)] at hnone
    simp [hreadable, hanswers, Nat.not_lt.2 hle] at hnone
  have hzeros : (replicate size (0 : UInt8)).length = size := length_replicate
  have hblock : offset / drive.mDevice.blockSize + 1 ≤ drive.mDevice.blockCount := by
    refine (Nat.div_lt_iff_lt_mul (Nat.pos_of_ne_zero hpos)).2 ?_
    rw [Nat.mul_comm]
    exact Nat.lt_of_lt_of_le (Nat.lt_add_of_pos_right hsize) hinside
  rcases BlockDevice.read_inside hpos
    (by rwa [hzeros])
    (.inl (by rwa [hzeros])) with hrefused | ⟨⟨-, block, count, -, -, hle, hnone⟩, -⟩ | hread
  · exact absurd hrefused (hnever _ _ hblock)
  · exact absurd hnone (hnever _ _ hle)
  · rw [readInto, hread, hzeros]
    simp only [bind, Except.bind, ne_eq, not_true_eq_false, if_false]
    rfl

def mbrBytes : List UInt8 :=
  replicate 450 0 ++ [0xee] ++ replicate 59 0 ++ MasterBootRecord.kSignature

def headerBytes : List UInt8 :=
  GptHeader.kSignature ++ replicate 64 0 ++ leBytes 8 2 ++ leBytes 4 2 ++ leBytes 4 128 ++
    replicate 4 0

/-- The bytes of a device of three blocks; the types of the entries begin with the given bytes. -/
def gptBytes (first second : UInt8) : List UInt8 :=
  mbrBytes ++ (headerBytes ++ (replicate 420 0 ++ ((first :: replicate 127 0) ++
    (second :: replicate 383 0))))

lemma length_mbrBytes : mbrBytes.length = 512 := by
  simp only [mbrBytes, MasterBootRecord.kSignature, length_append, length_cons,
    length_nil, length_replicate]

lemma length_headerBytes : headerBytes.length = 92 := by
  simp only [headerBytes, GptHeader.kSignature, length_append, length_cons,
    length_nil, length_replicate, length_leBytes]

lemma length_gptBytes (first second : UInt8) : (gptBytes first second).length = 512 * 3 := by
  simp only [gptBytes, length_mbrBytes, length_headerBytes, length_append, length_cons,
    length_replicate]

def gptDrive (first second : UInt8) : BlockDevice where
  mDevice :=
    { readable := true
      blockSize := 512
      blockCount := 3
      bytes := gptBytes first second
      answers := fun _ _ => true
      blockSize_lt := by decide
      length_bytes := length_gptBytes first second
      size_lt := by decide }
  mBuffer := replicate 1536 0
  length_buffer := length_replicate

def gptMbr : MasterBootRecord :=
  .ofBytes mbrBytes

def gptHeader : GptHeader :=
  .ofBytes headerBytes

lemma readInto_gptDrive (first second : UInt8) {offset size : Nat} (hsize : 0 < size)
    (hinside : offset + size ≤ 1536) :
    readInto (gptDrive first second) offset size =
      .ok (some (((gptBytes first second).drop offset).take size)) :=
  readInto_of_answers (by exact succ_ne_zero 511) rfl (fun _ _ => rfl) hsize hinside

lemma gptDrive_valid (first second : UInt8) :
    ValidGpt (gptDrive first second) gptMbr gptHeader where
  mbr_read := by
    refine ⟨_, readInto_gptDrive first second (by decide) (by decide), ?_⟩
    have hplaced : Placed (gptBytes first second) 0 mbrBytes := (Placed.self _).left
    rw [gptMbr, ← hplaced.slice, length_mbrBytes]
    rfl
  mbr_signature := by decide +kernel
  mbr_isGpt := by decide +kernel
  header_read := by
    refine ⟨_, readInto_gptDrive first second (by decide) (show 512 + 92 ≤ 1536 by decide), ?_⟩
    have hplaced : Placed (gptBytes first second) (0 + mbrBytes.length) headerBytes :=
      (Placed.self _).right.left
    rw [gptHeader, ← hplaced.slice, length_mbrBytes, length_headerBytes]
    rfl
  header_signature := by decide +kernel
  table_inside := by
    have hcount : gptHeader.partitionCount = 2 := by decide +kernel
    have hstart : gptHeader.lbaPartitionArray = 2 := by decide +kernel
    have hentry : gptHeader.partitionEntrySize = 128 := by decide +kernel
    intro i hi
    rw [tableOffset, hstart, hentry]
    change 2 * 512 + i * 128 + 128 ≤ 512 * 3
    omega

/-- A used entry before an unused one is found. -/
theorem gptDrive_complete : Complete (gptDrive 1 0) gptMbr gptHeader := by
  have hcount : gptHeader.partitionCount = 2 := by decide +kernel
  have hentry : gptHeader.partitionEntrySize = 128 := by decide +kernel
  refine (complete_iff_usedFirst _ _ _ (gptDrive_valid 1 0)).2 ⟨?_, ?_⟩
  · intro j hj hused i hi
    have hzero : j = 0 := by
      by_contra hne
      have hone : j = 1 := by omega
      subst hone
      exact hused (by decide +kernel)
    have hfirst : i = 0 := by omega
    subst hfirst
    exact ⟨⟨_, readInto_gptDrive 1 0 (by decide) (by decide +kernel)⟩, by decide +kernel⟩
  · intro i hi _
    rw [hentry]
    omega

/-- A used entry behind an unused one is not found. -/
theorem gptDrive_incomplete : ¬ Complete (gptDrive 0 1) gptMbr gptHeader := by
  intro hcomplete
  have hsecond := (usedFirst_of_complete (gptDrive_valid 0 1) hcomplete).first 1
    (by decide +kernel) (by decide +kernel) 0 (by decide)
  exact absurd hsecond.2 (by decide +kernel)

end Gpt
end BezOS
