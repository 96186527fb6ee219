import BezOS.Elf.Program

/-!
# Bounds of ELF programs

When the checks and ranges of the loaders keep what they read and write inside the file and the
memory. Where they fail to, a sum has wrapped, or a segment has more bytes in the file than in
memory.
-/

namespace BezOS
namespace Elf

open Lib List ProgramHeader

/-! ## What the loaders should keep to -/

def Contains (range : Nat × Nat) (ph : ProgramHeader) : Prop :=
  range.1 ≤ ph.vaddr.toNat ∧ ph.vaddr.toNat + ph.memsz.toNat ≤ range.2

/-- A range is one of pages, and holds all segments. -/
def HoldsLoads (phs : List ProgramHeader) (range : Nat × Nat) : Prop :=
  kPageSize ∣ range.1 ∧ kPageSize ∣ range.2 ∧ ∀ ph ∈ loads phs, Contains range ph

def TlsInBounds (ph : ProgramHeader) : Prop :=
  (rtldTlsInit ph).TlsBssSize + ph.filesz.toNat = ph.memsz.toNat ∧
    ∃ size writes, rtldCreateTls (rtldTlsInit ph) = .ok (size, writes) ∧
      ∀ write ∈ writes, write.Inside size

/-- The user loader keeps to the file and to the memory it allocates. -/
structure InBounds (header : Header) (size : UInt64) (device : Device)
    (phs : List ProgramHeader) : Prop where
  table : validateElfHeader header size = .success →
    header.phoff.toNat + header.phnum.toNat * kSize ≤ size.toNat
  range : ∀ range, rtldGetMemoryRange phs = .ok range → HoldsLoads phs range
  writes : ∀ size writes, rtldMapProgram device phs = .ok (size, writes) →
    ∀ write ∈ writes, write.Inside size
  tls : ∀ ph, findTlsSection phs = some ph → TlsInBounds ph

/-- The range of the kernel's loader holds all segments. -/
def KernelInBounds (phs : List ProgramHeader) : Prop :=
  ∃ result, loadMemorySize phs = .ok result ∧ ∀ range, result = .ok range → HoldsLoads phs range

/-! ## Conditions -/

/-- The segments that are read, with the number of bytes read for each, up to the first one that is
not read in full. -/
def readSegments (device : Device) : List ProgramHeader → List (ProgramHeader × Nat)
  | [] => []
  | ph :: rest =>
      match device ph.offset ph.filesz with
      | none => []
      | some size =>
          if size ≠ ph.filesz.toNat then [(ph, min size ph.filesz.toNat)]
          else (ph, min size ph.filesz.toNat) :: readSegments device rest

/-- The thread-local data is not larger than its memory, and the sizes around it do not wrap, or
wrap so that one page is enough. -/
structure TlsFits (ph : ProgramHeader) : Prop where
  data_le : ph.filesz ≤ ph.memsz
  align_ne_zero : ph.align ≠ 0
  fits : if ph.memsz.toNat + ph.align.toNat ≤ kWord then
      roundUp ph.memsz.toNat ph.align.toNat + 8 + kPageSize ≤ kWord
    else ph.vaddr = 0 ∨ ph.filesz.toNat ≤ kPageSize

structure NothingWraps (header : Header) (size : UInt64) (device : Device)
    (phs : List ProgramHeader) : Prop where
  table : validateElfHeader header size = .success →
    header.phoff.toNat + header.phnum.toNat * kSize < kWord
  ends : ∀ range, rtldGetMemoryRange phs = .ok range →
    ∀ ph ∈ loads phs, ph.vaddr.toNat + ph.memsz.toNat + kPageSize ≤ kWord
  reads : ∀ range, rtldGetMemoryRange phs = .ok range →
    ∀ read ∈ readSegments device (loads phs), read.2 = 0 ∨ ∃ ph ∈ loads phs,
      read.1.vaddr.toNat + read.2 ≤ roundUp (ph.vaddr.toNat + ph.memsz.toNat) kPageSize
  tls : ∀ ph, findTlsSection phs = some ph → TlsFits ph

/-- Where segments end that are laid out one behind the other, at places of their alignments. -/
def layoutEnd : Nat → List ProgramHeader → Nat
  | back, [] => back
  | back, ph :: rest =>
      layoutEnd (roundUp (max ph.vaddr.toNat back) ph.align.toNat + ph.memsz.toNat) rest

/-- All of that is below the last page that words can address. -/
def LayoutFits : Nat → List ProgramHeader → Prop
  | _, [] => True
  | back, ph :: rest =>
      ph.align ≠ 0 ∧ ph.vaddr.toNat + ph.align.toNat ≤ kWord ∧
        (roundUp ph.vaddr.toNat ph.align.toNat < back → back + ph.align.toNat ≤ kWord) ∧
        roundUp (max ph.vaddr.toNat back) ph.align.toNat + ph.memsz.toNat + kPageSize ≤ kWord ∧
        LayoutFits (roundUp (max ph.vaddr.toNat back) ph.align.toNat + ph.memsz.toNat) rest

/-- The layout is empty, or no segment is below the page where the first one is placed. -/
def LowestFirst : List ProgramHeader → Prop
  | [] => True
  | first :: rest =>
      layoutEnd 0 (first :: rest) = roundUp first.vaddr.toNat first.align.toNat ∨
        ∀ ph ∈ first :: rest,
          roundDown (roundUp first.vaddr.toNat first.align.toNat) kPageSize ≤ ph.vaddr.toNat

variable {header : Header} {size : UInt64} {device : Device} {phs : List ProgramHeader}
  {ph : ProgramHeader} {range : Nat × Nat} {back : Nat}

/-! ## The header -/

lemma table_inside_iff : (validateElfHeader header size = .success →
    header.phoff.toNat + header.phnum.toNat * kSize ≤ size.toNat) ↔
    (validateElfHeader header size = .success →
      header.phoff.toNat + header.phnum.toNat * kSize < kWord) := by
  have hsize : size.toNat < kWord := size.toNat_lt
  refine ⟨fun h hok => Nat.lt_of_le_of_lt (h hok) hsize, fun h hok => ?_⟩
  have hlt := h hok
  rw [validateElfHeader] at hok
  simp only [ne_eq, ite_not] at hok
  split at hok
  · split at hok
    · split at hok
      · cases hok
      · split at hok
        · rename_i hentries
          rw [hentries, wrapAdd_of_lt hlt] at hok
          split at hok
          · cases hok
          · exact Nat.le_of_not_lt ‹_›
        · cases hok
    · cases hok
  · cases hok

/-! ## The range of the user loader -/

structure Extended (from_ : Nat × Nat) (segments : List ProgramHeader) (range : Nat × Nat) : Prop where
  front_le : ∀ ph ∈ segments, range.1 ≤ ph.vaddr.toNat
  front_le_from : range.1 ≤ from_.1
  le_back : ∀ ph ∈ segments, wrapAdd kWord ph.vaddr.toNat ph.memsz.toNat ≤ range.2
  from_le_back : from_.2 ≤ range.2
  back_eq : range.2 = from_.2 ∨
    ∃ ph ∈ segments, range.2 = wrapAdd kWord ph.vaddr.toNat ph.memsz.toNat

lemma extend_le (range : Nat × Nat) (ph : ProgramHeader) :
    (extend range ph).1 ≤ range.1 ∧ (extend range ph).1 ≤ ph.vaddr.toNat ∧
      range.2 ≤ (extend range ph).2 ∧
      wrapAdd kWord ph.vaddr.toNat ph.memsz.toNat ≤ (extend range ph).2 ∧
      ((extend range ph).2 = range.2 ∨
        (extend range ph).2 = wrapAdd kWord ph.vaddr.toNat ph.memsz.toNat) := by
  simp only [extend]
  generalize wrapAdd kWord ph.vaddr.toNat ph.memsz.toNat = sum
  refine ⟨?_, ?_, ?_, ?_, ?_⟩ <;> split <;> omega

lemma foldl_extend (from_ : Nat × Nat) (segments : List ProgramHeader) :
    Extended from_ segments (segments.foldl extend from_) := by
  induction segments generalizing from_ with
  | nil =>
    exact ⟨fun _ h => absurd h not_mem_nil, Nat.le_refl _,
      fun _ h => absurd h not_mem_nil, Nat.le_refl _, .inl rfl⟩
  | cons ph rest ih =>
    obtain ⟨hfront, hvaddr, hback, hsum, heq⟩ := extend_le from_ ph
    have hrest := ih (extend from_ ph)
    refine ⟨?_, Nat.le_trans hrest.front_le_from hfront, ?_,
      Nat.le_trans hback hrest.from_le_back, ?_⟩
    · exact forall_mem_cons.2
        ⟨Nat.le_trans hrest.front_le_from hvaddr, hrest.front_le⟩
    · exact forall_mem_cons.2
        ⟨Nat.le_trans hsum hrest.from_le_back, hrest.le_back⟩
    · rcases hrest.back_eq with hsame | ⟨last, hlast, hlastEq⟩
      · rcases heq with hkept | hnew
        · exact .inl (hsame.trans hkept)
        · exact .inr ⟨ph, mem_cons_self, hsame.trans hnew⟩
      · exact .inr ⟨last, mem_cons_of_mem ph hlast, hlastEq⟩

lemma rtldGetMemoryRange_eq_ok (h : rtldGetMemoryRange phs = .ok range) :
    ∃ minAddr maxAddr, range = (roundDown minAddr kPageSize, wrapRoundUp kWord maxAddr kPageSize) ∧
      minAddr < maxAddr ∧ (∀ ph ∈ loads phs, minAddr ≤ ph.vaddr.toNat) ∧
      (∀ ph ∈ loads phs, wrapAdd kWord ph.vaddr.toNat ph.memsz.toNat ≤ maxAddr) ∧
      ∃ ph ∈ loads phs, maxAddr = wrapAdd kWord ph.vaddr.toNat ph.memsz.toNat := by
  have hextended := foldl_extend (kWord - 1, 0) (loads phs)
  rw [rtldGetMemoryRange] at h
  simp only at h
  split at h
  · cases h
  · rename_i hnot
    rw [not_or, not_or] at hnot
    cases h
    exact ⟨_, _, rfl, Nat.lt_of_not_le hnot.2.2, hextended.front_le, hextended.le_back,
      hextended.back_eq.resolve_left hnot.2.1⟩

lemma page_le {n : Nat} (hdvd : kPageSize ∣ n) (hlt : n < kWord) : n + kPageSize ≤ kWord := by
  obtain ⟨k, rfl⟩ := hdvd
  simp only [kPageSize, kWord] at hlt ⊢
  omega

lemma kWord_pos : 0 < kWord := Nat.two_pow_pos 64

lemma range_of_loads (h : rtldGetMemoryRange phs = .ok range)
    (hloads : ∀ ph ∈ loads phs, ph.vaddr.toNat + ph.memsz.toNat + kPageSize ≤ kWord) :
    HoldsLoads phs range ∧ range.1 ≤ range.2 ∧ ∃ last ∈ loads phs,
      range.2 = roundUp (last.vaddr.toNat + last.memsz.toNat) kPageSize ∧
      ∀ ph ∈ loads phs, ph.vaddr.toNat + ph.memsz.toNat ≤ last.vaddr.toNat + last.memsz.toNat := by
  obtain ⟨minAddr, maxAddr, rfl, hlt, hmin, hmax, last, hlast, hlastEq⟩ :=
    rtldGetMemoryRange_eq_ok h
  have hplain : ∀ ph ∈ loads phs, wrapAdd kWord ph.vaddr.toNat ph.memsz.toNat =
      ph.vaddr.toNat + ph.memsz.toNat := by
    intro ph hph
    have hle := hloads ph hph
    refine wrapAdd_of_lt (Nat.lt_of_lt_of_le ?_ hle)
    exact Nat.lt_add_of_pos_right (by decide)
  rw [hplain last hlast] at hlastEq
  have hround : wrapRoundUp kWord maxAddr kPageSize = roundUp maxAddr kPageSize :=
    wrapRoundUp_of_le (hlastEq ▸ hloads last hlast) (by decide)
  have hup := le_roundUp (show 0 < kPageSize by decide) maxAddr
  have hdown := roundDown_le minAddr kPageSize
  refine ⟨⟨dvd_roundDown .., dvd_wrapRoundUp .., fun ph hph => ⟨?_, ?_⟩⟩, ?_, last, hlast, ?_, ?_⟩
  · exact Nat.le_trans hdown (hmin ph hph)
  · rw [← hplain ph hph]
    exact Nat.le_trans (hmax ph hph) (hround ▸ hup)
  · rw [hround]
    exact Nat.le_trans hdown (Nat.le_trans (Nat.le_of_lt hlt) hup)
  · rw [hround, hlastEq]
  · intro ph hph
    rw [← hplain ph hph, ← hlastEq]
    exact hmax ph hph

lemma range_holds_iff (h : rtldGetMemoryRange phs = .ok range) : HoldsLoads phs range ↔
    ∀ ph ∈ loads phs, ph.vaddr.toNat + ph.memsz.toNat + kPageSize ≤ kWord := by
  refine ⟨fun hholds ph hph => ?_, fun hloads => (range_of_loads h hloads).1⟩
  obtain ⟨minAddr, maxAddr, rfl, -⟩ := rtldGetMemoryRange_eq_ok h
  have hin := (hholds.2.2 ph hph).2
  have hpage := page_le hholds.2.1 (wrapRoundUp_lt kWord_pos maxAddr kPageSize)
  omega

/-! ## The writes of the user loader -/

lemma loadSegments_eq (memoryBegin : Nat) (segments : List ProgramHeader) :
    loadSegments device memoryBegin segments = (readSegments device segments).map fun read =>
      { start := wrapSub kWord read.1.vaddr.toNat memoryBegin, count := read.2 } := by
  induction segments with
  | nil => rfl
  | cons ph rest ih =>
    rw [loadSegments, readSegments]
    cases device ph.offset ph.filesz with
    | none => rfl
    | some size =>
      simp only
      split
      · rfl
      · rw [map_cons, ih]

lemma mem_of_mem_readSegments {segments : List ProgramHeader} {read : ProgramHeader × Nat}
    (h : read ∈ readSegments device segments) : read.1 ∈ segments := by
  induction segments with
  | nil => cases h
  | cons ph rest ih =>
    rw [readSegments] at h
    cases hread : device ph.offset ph.filesz with
    | none =>
      rw [hread] at h
      cases h
    | some size =>
      rw [hread] at h
      simp only at h
      split at h
      · rw [mem_singleton.1 h]
        exact mem_cons_self
      · rcases mem_cons.1 h with rfl | hrest
        · exact mem_cons_self
        · exact mem_cons_of_mem ph (ih hrest)

lemma writes_inside_iff (h : rtldGetMemoryRange phs = .ok range)
    (hloads : ∀ ph ∈ loads phs, ph.vaddr.toNat + ph.memsz.toNat + kPageSize ≤ kWord) :
    (∀ write ∈ loadSegments device range.1 (loads phs),
      write.Inside (wrapSub kWord range.2 range.1)) ↔
    ∀ read ∈ readSegments device (loads phs), read.2 = 0 ∨ ∃ ph ∈ loads phs,
      read.1.vaddr.toNat + read.2 ≤ roundUp (ph.vaddr.toNat + ph.memsz.toNat) kPageSize := by
  obtain ⟨hholds, hle, last, hlast, hback, hhighest⟩ := range_of_loads h hloads
  have hlt : range.2 < kWord := by
    obtain ⟨minAddr, maxAddr, rfl, -⟩ := rtldGetMemoryRange_eq_ok h
    exact wrapRoundUp_lt kWord_pos maxAddr kPageSize
  have hsize : wrapSub kWord range.2 range.1 = range.2 - range.1 := wrapSub_of_le hle hlt
  rw [loadSegments_eq, forall_mem_map, hsize]
  refine forall₂_congr fun read hread => ?_
  have hvaddr := (hholds.2.2 read.1 (mem_of_mem_readSegments hread)).1
  have hstart : wrapSub kWord read.1.vaddr.toNat range.1 = read.1.vaddr.toNat - range.1 :=
    wrapSub_of_le hvaddr read.1.vaddr.toNat_lt
  simp only [Write.Inside, hstart]
  refine or_congr_right ⟨fun hin => ⟨last, hlast, ?_⟩, ?_⟩
  · rw [← hback]
    omega
  · rintro ⟨ph, hph, hend⟩
    have hmono := roundUp_mono (hhighest ph hph) kPageSize
    omega

/-! ## Thread-local storage -/

lemma tls_size_eq (ph : ProgramHeader) :
    wrapAdd kWord (rtldTlsInit ph).TlsDataSize (rtldTlsInit ph).TlsBssSize = ph.memsz.toNat := by
  have hdata : ph.filesz.toNat < kWord := ph.filesz.toNat_lt
  have hmem : ph.memsz.toNat < kWord := ph.memsz.toNat_lt
  have hsub := wrapSub_cases hmem (Nat.le_of_lt hdata)
  have hbss := @wrapSub_lt kWord ph.memsz.toNat ph.filesz.toNat kWord_pos
  have hadd := wrapAdd_cases hdata (Nat.le_of_lt hbss)
  change wrapAdd kWord ph.filesz.toNat (wrapSub kWord ph.memsz.toNat ph.filesz.toNat) = _
  omega

lemma bss_eq_iff (ph : ProgramHeader) :
    (rtldTlsInit ph).TlsBssSize + ph.filesz.toNat = ph.memsz.toNat ↔ ph.filesz ≤ ph.memsz := by
  have hdata : ph.filesz.toNat < kWord := ph.filesz.toNat_lt
  have hmem : ph.memsz.toNat < kWord := ph.memsz.toNat_lt
  have hsub := wrapSub_cases hmem (Nat.le_of_lt hdata)
  rw [rtldTlsInit, UInt64.le_iff_toNat_le]
  simp only
  constructor
  · omega
  · omega

lemma rtldCreateTls_eq (halign : ph.align ≠ 0) {tlsSize totalSize : Nat}
    (htls : wrapRoundUp kWord ph.memsz.toNat ph.align.toNat = tlsSize)
    (htotal : wrapRoundUp kWord (wrapAdd kWord tlsSize 8) kPageSize = totalSize) :
    rtldCreateTls (rtldTlsInit ph) = .ok (totalSize,
      (if ph.vaddr.toNat ≠ 0 then [⟨0, ph.filesz.toNat⟩] else []) ++ [⟨tlsSize, 8⟩]) := by
  have hne : (rtldTlsInit ph).TlsAlign ≠ 0 := fun hzero => halign (UInt64.toNat_inj.1 hzero)
  rw [rtldCreateTls, tls_size_eq, roundup, if_neg hne]
  simp only [bind, Except.bind]
  rw [show (rtldTlsInit ph).TlsAlign = ph.align.toNat from rfl, htls, htotal]
  rfl

lemma tls_writes_inside_iff {tlsSize totalSize : Nat} (ph : ProgramHeader) :
    (∀ write ∈ (if ph.vaddr.toNat ≠ 0 then [⟨0, ph.filesz.toNat⟩] else []) ++
        ([⟨tlsSize, 8⟩] : List Write), write.Inside totalSize) ↔
      (ph.vaddr = 0 ∨ ph.filesz.toNat ≤ totalSize) ∧ tlsSize + 8 ≤ totalSize := by
  have hlast : Write.Inside ⟨tlsSize, 8⟩ totalSize ↔ tlsSize + 8 ≤ totalSize :=
    or_iff_right (Nat.succ_ne_zero 7)
  rw [forall_mem_append, forall_mem_singleton, hlast]
  refine and_congr_left fun _ => ?_
  by_cases hzero : ph.vaddr = 0
  · simp [hzero]
  · have hne : ph.vaddr.toNat ≠ 0 := fun h => hzero (UInt64.toNat_inj.1 h)
    rw [if_pos hne, forall_mem_singleton, Write.Inside, or_iff_right hzero]
    simp only
    omega

lemma tlsInBounds_iff (ph : ProgramHeader) : TlsInBounds ph ↔ TlsFits ph := by
  have hmem : ph.memsz.toNat < kWord := ph.memsz.toNat_lt
  have halignLt : ph.align.toNat < kWord := ph.align.toNat_lt
  rw [TlsInBounds, bss_eq_iff]
  by_cases halign : ph.align = 0
  · -- a division by zero
    refine iff_of_false ?_ fun h => h.align_ne_zero halign
    rintro ⟨-, size, writes, hcreate, -⟩
    have hzero : (rtldTlsInit ph).TlsAlign = 0 := by
      rw [rtldTlsInit, halign]
      rfl
    rw [rtldCreateTls, roundup, if_pos hzero] at hcreate
    cases hcreate
  have hpos : 0 < ph.align.toNat := Nat.pos_of_ne_zero fun h => halign (UInt64.toNat_inj.1 h)
  have hinside : ∀ {tlsSize totalSize : Nat},
      wrapRoundUp kWord ph.memsz.toNat ph.align.toNat = tlsSize →
      wrapRoundUp kWord (wrapAdd kWord tlsSize 8) kPageSize = totalSize →
      ((∃ size writes, rtldCreateTls (rtldTlsInit ph) = .ok (size, writes) ∧
        ∀ write ∈ writes, write.Inside size) ↔
        (ph.vaddr = 0 ∨ ph.filesz.toNat ≤ totalSize) ∧ tlsSize + 8 ≤ totalSize) := by
    intro tlsSize totalSize htls htotal
    rw [← tls_writes_inside_iff ph, rtldCreateTls_eq halign htls htotal]
    constructor
    · rintro ⟨size, writes, heq, hall⟩
      cases heq
      exact hall
    · exact fun hall => ⟨_, _, rfl, hall⟩
  by_cases hplain : ph.memsz.toNat + ph.align.toNat ≤ kWord
  · have hround := wrapRoundUp_of_le hplain hpos
    have hle := le_roundUp hpos ph.memsz.toNat
    rw [hinside hround rfl]
    by_cases hfits : roundUp ph.memsz.toNat ph.align.toNat + 8 + kPageSize ≤ kWord
    · -- nothing wraps: the data is below the pointer, and the pointer below the end
      have hlt : roundUp ph.memsz.toNat ph.align.toNat + 8 < kWord :=
        Nat.lt_of_lt_of_le (Nat.lt_add_of_pos_right (by decide)) hfits
      rw [wrapAdd_of_lt hlt, wrapRoundUp_of_le hfits (by decide)]
      have hup := le_roundUp (show 0 < kPageSize by decide)
        (roundUp ph.memsz.toNat ph.align.toNat + 8)
      constructor
      · rintro ⟨hdata, -⟩
        exact ⟨hdata, halign, by rwa [if_pos hplain]⟩
      · intro h
        have hdata := UInt64.le_iff_toNat_le.1 h.data_le
        exact ⟨h.data_le, .inr (by omega), hup⟩
    · refine iff_of_false ?_ fun h => hfits (by simpa only [if_pos hplain] using h.fits)
      rintro ⟨-, -, hpointer⟩
      have hpage := page_le (dvd_wrapRoundUp kWord
        (wrapAdd kWord (roundUp ph.memsz.toNat ph.align.toNat) 8) kPageSize)
        (wrapRoundUp_lt kWord_pos _ _)
      omega
  · -- the size wraps to zero: one page is allocated
    have hround := wrapRoundUp_of_lt (Nat.lt_of_not_le hplain) hmem (Nat.le_of_lt halignLt)
    have htotal : wrapRoundUp kWord (wrapAdd kWord 0 8) kPageSize = kPageSize := by decide
    rw [hinside hround htotal]
    constructor
    · rintro ⟨hdata, hpage, -⟩
      exact ⟨hdata, halign, by rwa [if_neg hplain]⟩
    · intro h
      exact ⟨h.data_le, by simpa only [if_neg hplain] using h.fits, by decide⟩

/-! ## The user loader -/

lemma inBounds_iff (header : Header) (size : UInt64) (device : Device)
    (phs : List ProgramHeader) :
    InBounds header size device phs ↔ NothingWraps header size device phs := by
  constructor
  · intro h
    have hends : ∀ range, rtldGetMemoryRange phs = .ok range →
        ∀ ph ∈ loads phs, ph.vaddr.toNat + ph.memsz.toNat + kPageSize ≤ kWord :=
      fun range hrange => (range_holds_iff hrange).1 (h.range range hrange)
    refine ⟨table_inside_iff.1 h.table, hends, fun range hrange => ?_,
      fun ph hph => (tlsInBounds_iff ph).1 (h.tls ph hph)⟩
    refine (writes_inside_iff hrange (hends range hrange)).1 (h.writes _ _ ?_)
    rw [rtldMapProgram, hrange]
    rfl
  · intro h
    refine ⟨table_inside_iff.2 h.table, fun range hrange => (range_holds_iff hrange).2
      (h.ends range hrange), fun size writes hmap => ?_,
      fun ph hph => (tlsInBounds_iff ph).2 (h.tls ph hph)⟩
    rw [rtldMapProgram] at hmap
    cases hrange : rtldGetMemoryRange phs with
    | error status =>
      rw [hrange] at hmap
      cases hmap
    | ok range =>
      rw [hrange] at hmap
      cases hmap
      exact (writes_inside_iff hrange (h.ends range hrange)).2 (h.reads range hrange)

/-! ## The range of the kernel's loader -/

lemma place_eq (halign : ph.align ≠ 0) (hvaddr : ph.vaddr.toNat + ph.align.toNat ≤ kWord)
    (hback : roundUp ph.vaddr.toNat ph.align.toNat < back → back + ph.align.toNat ≤ kWord) :
    place back ph = .ok (roundUp (max ph.vaddr.toNat back) ph.align.toNat) := by
  have hne : ph.align.toNat ≠ 0 := fun h => halign (UInt64.toNat_inj.1 h)
  have hpos := Nat.pos_of_ne_zero hne
  have hle := le_roundUp hpos ph.vaddr.toNat
  rw [place, roundup, if_neg hne, wrapRoundUp_of_le hvaddr hpos]
  simp only [bind, Except.bind]
  by_cases hbelow : roundUp ph.vaddr.toNat ph.align.toNat < back
  · rw [if_pos hbelow, roundup, if_neg hne, wrapRoundUp_of_le (hback hbelow) hpos,
      Nat.max_eq_right (by omega)]
  · rw [if_neg hbelow]
    refine congrArg Except.ok ?_
    rcases Nat.le_total ph.vaddr.toNat back with hless | hless
    · -- the place of the segment is also the first one not below the back
      rw [Nat.max_eq_right hless]
      exact Nat.le_antisymm (roundUp_mono hless _)
        (roundUp_least hpos (Nat.le_of_not_lt hbelow) (dvd_roundUp ..))
    · rw [Nat.max_eq_left hless]

lemma le_layoutEnd (segments : List ProgramHeader) (hfits : LayoutFits back segments) :
    back ≤ layoutEnd back segments ∧
      ∀ ph ∈ segments, ph.vaddr.toNat + ph.memsz.toNat ≤ layoutEnd back segments := by
  induction segments generalizing back with
  | nil => exact ⟨Nat.le_refl _, fun _ h => absurd h not_mem_nil⟩
  | cons ph rest ih =>
    obtain ⟨halign, -, -, -, hrest⟩ := hfits
    have hpos : 0 < ph.align.toNat := Nat.pos_of_ne_zero fun h => halign (UInt64.toNat_inj.1 h)
    obtain ⟨hback, hall⟩ := ih hrest
    have hplace := le_roundUp hpos (max ph.vaddr.toNat back)
    rw [layoutEnd]
    refine ⟨by omega, forall_mem_cons.2 ⟨by omega, hall⟩⟩

lemma layoutEnd_le (segments : List ProgramHeader) (hfits : LayoutFits back segments)
    (hback : back + kPageSize ≤ kWord) : layoutEnd back segments + kPageSize ≤ kWord := by
  induction segments generalizing back with
  | nil => exact hback
  | cons ph rest ih =>
    obtain ⟨-, -, -, hend, hrest⟩ := hfits
    exact ih hrest hend

lemma foldlM_layOut (segments : List ProgramHeader) {front : Nat} (hfront : front ≤ back)
    (hfits : LayoutFits back segments) :
    segments.foldlM layOut (front, back) = .ok (front, layoutEnd back segments) := by
  induction segments generalizing back with
  | nil => rfl
  | cons ph rest ih =>
    obtain ⟨halign, hvaddr, hround, hend, hrest⟩ := hfits
    have hpos : 0 < ph.align.toNat := Nat.pos_of_ne_zero fun h => halign (UInt64.toNat_inj.1 h)
    have hplace := le_roundUp hpos (max ph.vaddr.toNat back)
    have hlt : roundUp (max ph.vaddr.toNat back) ph.align.toNat + ph.memsz.toNat < kWord :=
      Nat.lt_of_lt_of_le (Nat.lt_add_of_pos_right (by decide)) hend
    have hstep : layOut (front, back) ph = .ok (front,
        roundUp (max ph.vaddr.toNat back) ph.align.toNat + ph.memsz.toNat) := by
      rw [layOut, place_eq halign hvaddr hround]
      simp only [bind, Except.bind]
      rw [wrapAdd_of_lt hlt, Nat.min_eq_left (by omega), Nat.max_eq_right (by omega)]
      rfl
    rw [foldlM_cons, hstep]
    exact ih (by omega) hrest

lemma loadMemorySize_eq {first : ProgramHeader} {rest : List ProgramHeader}
    (hloads : loads phs = first :: rest) (hfits : LayoutFits 0 (first :: rest)) :
    loadMemorySize phs = .ok
      (if layoutEnd 0 (first :: rest) = roundUp first.vaddr.toNat first.align.toNat then
        .error .invalidData
      else .ok (roundDown (roundUp first.vaddr.toNat first.align.toNat) kPageSize,
        roundUp (layoutEnd 0 (first :: rest)) kPageSize)) := by
  have hfitsAll := hfits
  obtain ⟨halign, hvaddr, hround, hend, hrest⟩ := hfits
  rw [Nat.max_eq_left (Nat.zero_le _)] at hend hrest
  have hlt : roundUp first.vaddr.toNat first.align.toNat + first.memsz.toNat < kWord :=
    Nat.lt_of_lt_of_le (Nat.lt_add_of_pos_right (by decide)) hend
  have hstep : layOut (kWord - 1, 0) first = .ok
      (roundUp first.vaddr.toNat first.align.toNat,
        roundUp first.vaddr.toNat first.align.toNat + first.memsz.toNat) := by
    rw [layOut, place_eq halign hvaddr hround]
    simp only [bind, Except.bind]
    rw [Nat.max_eq_left (Nat.zero_le _), wrapAdd_of_lt hlt, Nat.min_eq_right (by omega),
      Nat.max_eq_right (Nat.zero_le _)]
    rfl
  have hback : layoutEnd 0 (first :: rest) = layoutEnd
      (roundUp first.vaddr.toNat first.align.toNat + first.memsz.toNat) rest := by
    rw [layoutEnd, Nat.max_eq_left (Nat.zero_le _)]
  have hle := (le_layoutEnd rest hrest).1
  have hpage := layoutEnd_le (first :: rest) hfitsAll (by decide)
  rw [hback] at hpage ⊢
  rw [loadMemorySize, hloads, foldlM_cons, hstep]
  simp only [bind, Except.bind]
  rw [foldlM_layOut rest (Nat.le_add_right ..) hrest]
  simp only
  by_cases hempty : layoutEnd (roundUp first.vaddr.toNat first.align.toNat + first.memsz.toNat)
      rest = roundUp first.vaddr.toNat first.align.toNat
  · rw [if_pos hempty, if_pos (.inr hempty.symm)]
    rfl
  · rw [if_neg hempty, if_neg, wrapRoundUp_of_le hpage (by decide)]
    · rfl
    · rintro (hinvalid | hsame)
      · omega
      · exact hempty hsame.symm

lemma kernelInBounds_iff (phs : List ProgramHeader) (hfits : LayoutFits 0 (loads phs)) :
    KernelInBounds phs ↔ LowestFirst (loads phs) := by
  cases hloads : loads phs with
  | nil =>
    refine iff_of_true ⟨.error .invalidData, ?_, fun range h => by cases h⟩ trivial
    rw [loadMemorySize, hloads]
    rfl
  | cons first rest =>
    rw [hloads] at hfits
    have hrun := loadMemorySize_eq hloads hfits
    obtain ⟨-, hends⟩ := le_layoutEnd (first :: rest) hfits
    have hup := le_roundUp (show 0 < kPageSize by decide) (layoutEnd 0 (first :: rest))
    rw [KernelInBounds, hrun, LowestFirst]
    by_cases hempty : layoutEnd 0 (first :: rest) = roundUp first.vaddr.toNat first.align.toNat
    · rw [if_pos hempty]
      exact iff_of_true ⟨_, rfl, fun range h => by cases h⟩ (.inl hempty)
    · rw [if_neg hempty, or_iff_right hempty]
      constructor
      · rintro ⟨result, hresult, hholds⟩
        cases hresult
        have hall := (hholds _ rfl).2.2
        rw [hloads] at hall
        exact fun ph hph => (hall ph hph).1
      · intro hlowest
        refine ⟨_, rfl, fun range hrange => ?_⟩
        cases hrange
        refine ⟨dvd_roundDown .., dvd_roundUp .., ?_⟩
        rw [hloads]
        exact fun ph hph => ⟨hlowest ph hph, Nat.le_trans (hends ph hph) hup⟩

def headerOf (phoff : UInt64) : Header where
  ident := [0x7f, 0x45, 0x4c, 0x46, 2, 1, 1]
  type := 2
  entry := 0x1000
  phoff := phoff
  phentsize := 56
  phnum := 1

def pageSegment : ProgramHeader where
  type := .eLoad
  offset := 0
  vaddr := 0x1000
  filesz := 0x1000
  memsz := 0x1000
  align := 0x1000

/-- A segment that spills into the page of the next one moves it. -/
example : loadMemorySize [{ pageSegment with memsz := 0x1020 },
    { pageSegment with vaddr := 0x2000, memsz := 0x1e00 },
    { pageSegment with vaddr := 0x1f00, memsz := 0x4000 }] = .ok (.ok (0x1000, 0x9000)) := by
  decide

end Elf
end BezOS
