import BezOS.Fs.TarScan

/-!
# Safety of the parser

A round either runs out of the checksum's field, or ends the loop, or goes on to a later offset
with an entry inside the device, as long as no offset wraps. The run follows from what one round
does; that it ends, from the offsets it comes to.
-/

namespace BezOS
namespace Vfs
namespace TarScan

open Block Lib BezOS.BlockDevice IBlockDriver List Nat Option Prod TarPosixHeader

/-! ## Numbers -/

lemma not_isOctal_iff {c : UInt8} : ¬ isOctal c ↔ c < 0x30 ∨ 0x37 < c := by
  rw [isOctal, not_and_or, UInt8.not_le, UInt8.not_le]

lemma octal_digit_lt {c : UInt8} (h : isOctal c) : c.toNat - 0x30 < 8 := by
  have hle : c.toNat ≤ 0x37 := UInt8.le_iff_toNat_le.1 h.2
  omega

lemma tarNumberFrom_ok {count value : Nat} {text : List UInt8}
    (h : count ≤ text.length ∨ ∃ c ∈ text, ¬ isOctal c) :
    ∃ n, tarNumberFrom count text value = .ok n ∧ n < (value + 1) * 8 ^ count := by
  induction count generalizing text value with
  | zero => exact ⟨value, by rw [tarNumberFrom], by omega⟩
  | succ count ih =>
    cases text with
    | nil =>
      rcases h with h | ⟨c, hc, -⟩
      · exact absurd h (not_succ_le_zero count)
      · cases hc
    | cons c text =>
      rw [tarNumberFrom]
      by_cases hc : isOctal c
      · have hrest : count ≤ text.length ∨ ∃ c ∈ text, ¬ isOctal c := by
          rcases h with h | ⟨other, hmem, hother⟩
          · exact .inl (le_of_succ_le_succ h)
          · rcases mem_cons.1 hmem with rfl | hmem
            · exact absurd hc hother
            · exact .inr ⟨other, hmem, hother⟩
        obtain ⟨n, hn, hlt⟩ := @ih (value * 8 + (c.toNat - 0x30)) text hrest
        refine ⟨n, ?_, lt_of_lt_of_le hlt ?_⟩
        · rw [if_neg (fun hend => not_isOctal_iff.2 hend hc), hn]
        · have hdigit := octal_digit_lt hc
          calc (value * 8 + (c.toNat - 0x30) + 1) * 8 ^ count
              ≤ ((value + 1) * 8) * 8 ^ count := Nat.mul_le_mul_right _ (by omega)
            _ = (value + 1) * 8 ^ (count + 1) := by rw [Nat.mul_assoc, Nat.pow_succ']
      · refine ⟨value, if_pos (not_isOctal_iff.1 hc), ?_⟩
        calc value < value + 1 := lt_succ_self value
          _ ≤ (value + 1) * 8 ^ (count + 1) := Nat.le_mul_of_pos_right _ (Nat.pow_pos (by decide))

variable {header : TarPosixHeader} {entries : TarMap} {options : TarParseOptions}

lemma getSize_ok (h : header.size.length = 12) :
    ∃ n, header.getSize = .ok n ∧ n < 2 ^ 36 := by
  obtain ⟨n, hn, hlt⟩ := @tarNumberFrom_ok 12 0 header.size (.inl (Nat.le_of_eq h.symm))
  exact ⟨n, hn, lt_of_lt_of_le hlt (by decide)⟩

lemma checksumPasses_ok (h : options.ignoreChecksum = true ∨ ∃ c ∈ header.checksum, ¬ isOctal c) :
    ∃ passes, checksumPasses options header = .ok passes := by
  rw [checksumPasses]
  by_cases hignore : options.ignoreChecksum = true
  · exact ⟨true, if_pos hignore⟩
  · obtain ⟨n, hn, -⟩ := @tarNumberFrom_ok 12 0 header.checksum (.inr (h.resolve_left hignore))
    refine ⟨decide (n = header.actualChecksum), ?_⟩
    rw [if_neg hignore, show header.reportedChecksum = .ok n from hn]
    rfl

lemma checksumPasses_error (hlength : header.checksum.length = 8)
    (h : ¬ (options.ignoreChecksum = true ∨ ∃ c ∈ header.checksum, ¬ isOctal c)) :
    checksumPasses options header = .error .badAccess := by
  rw [not_or] at h
  have hdigits : ∀ c ∈ header.checksum, isOctal c := by
    intro c hc
    by_contra hnot
    exact h.2 ⟨c, hc, hnot⟩
  rw [checksumPasses, if_neg h.1, reportedChecksum,
    tarNumber_of_full (by omega) hdigits]
  rfl

/-! ## One round -/

section Round

variable {d : BlockDevice} {options : TarParseOptions} {offset next mediaSize size : Nat}
  {header : TarPosixHeader} {out : Outcome}

namespace Outcome

def next? : Outcome → Option Nat
  | stop _ => none
  | skip next => some next
  | entry _ _ next => some next

end Outcome

/-- What a round that goes on has found: a size that is in range, as far as words tell. -/
structure Member (mediaSize offset : Nat) (out : Outcome) (next size : Nat) : Prop where
  size_lt : size < 2 ^ 36
  range : wrapAdd (2 ^ 64) size (wrapAdd (2 ^ 64) offset 512) ≤ mediaSize
  next : next = wrapAdd (2 ^ 64) (wrapAdd (2 ^ 64) offset 512) (roundup size 512)
  entry : ∀ path entry n, out = .entry path entry n →
    entry.offset = wrapAdd (2 ^ 64) offset 512 ∧ entry.header.getSize = .ok size

lemma afterMagic_next (hlength : header.size.length = 12)
    (h : afterMagic mediaSize options offset header = .ok out) (hnext : out.next? = some next) :
    ∃ size, Member mediaSize offset out next size := by
  obtain ⟨size, hsize, hlt⟩ := getSize_ok hlength
  obtain ⟨passes, -, h⟩ := bind_eq_ok.1 h
  simp only [hsize, bind, Except.bind, pure, Except.pure] at h
  split at h
  · cases h
    cases hnext
  split at h
  · cases h
    cases hnext
  rename_i hrange
  have hmember : ∀ out, (∀ path entry n, out = .entry path entry n →
      entry = ⟨header, wrapAdd (2 ^ 64) offset kTarBlockSize⟩) →
      next = wrapAdd (2 ^ 64) (wrapAdd (2 ^ 64) offset kTarBlockSize) (roundup size kTarBlockSize) →
      Member mediaSize offset out next size := by
    intro out hentry hnext
    refine ⟨hlt, Nat.not_lt.1 hrange, hnext, ?_⟩
    intro path entry n heq
    rw [hentry path entry n heq]
    exact ⟨rfl, hsize⟩
  refine ⟨size, ?_⟩
  split at h
  · cases h
    cases hnext
    exact hmember _ (by intro path entry n heq; cases heq) rfl
  split at h
  · cases h
    cases hnext
    exact hmember _ (by intro path entry n heq; cases heq) rfl
  split at h
  · cases h
    cases hnext
  · cases h
    cases hnext
    exact hmember _ (by intro path entry n heq; cases heq; rfl) rfl

lemma length_fields {bytes : List UInt8} (h : bytes.length = 500) :
    (ofBytes bytes).size.length = 12 ∧
      (ofBytes bytes).checksum.length = 8 := by
  simp only [ofBytes, length_take, length_drop, h]
  decide

lemma afterMagic_ok (hlength : header.size.length = 12)
    (h : options.ignoreChecksum = true ∨ ∃ c ∈ header.checksum, ¬ isOctal c) :
    ∃ out, afterMagic mediaSize options offset header = .ok out := by
  obtain ⟨passes, hpasses⟩ := checksumPasses_ok h
  obtain ⟨size, hsize, -⟩ := getSize_ok hlength
  rw [afterMagic, hpasses]
  simp only [bind, Except.bind, hsize]
  repeat' split
  all_goals exact ⟨_, rfl⟩

lemma afterMagic_error (hlength : header.checksum.length = 8)
    (h : ¬ (options.ignoreChecksum = true ∨ ∃ c ∈ header.checksum, ¬ isOctal c)) :
    afterMagic mediaSize options offset header = .error .badAccess := by
  rw [afterMagic, checksumPasses_error hlength h]
  rfl

lemma read_header_ok (halign : 512 ∣ offset) (hlt : offset < d.mDevice.size) :
    ∃ n bytes, d.read offset (replicate kSize 0) = .ok (n, bytes) ∧
      bytes.length = 500 := by
  have hsize : d.mDevice.size < 2 ^ 64 := d.mDevice.size_lt
  have hlength : (replicate kSize (0 : UInt8)).length = 500 :=
    length_replicate
  have hpos : d.mDevice.blockSize ≠ 0 := by
    intro hzero
    rw [IBlockDriver.size, hzero, zero_mul] at hlt
    exact Nat.not_lt_zero _ hlt
  have hexact : d.ReadsExactly offset (replicate kSize 0) := by
    by_cases hrange : offset + 500 ≤ d.mDevice.size
    · exact BlockDevice.readsExactly_inside hpos (hlength ▸ hrange) (.inl (by omega))
    · refine BlockDevice.readsExactly_refused (.inl ?_)
      rw [hlength, wrapAdd_of_lt (by omega)]
      exact Nat.not_le.1 hrange
  obtain ⟨n, hn, hread, hrange, -⟩ := hexact
  refine ⟨n, _, hread, ?_⟩
  have hspan : (d.mDevice.span offset n).length = n := by
    rcases hrange with rfl | hrange
    · rw [span_zero, length_nil]
    · exact length_span hrange
  rw [length_append, length_drop, hspan, hlength]
  omega

lemma member_of_header (h : headerAt d offset = some header) :
    member d options offset = afterMagic d.mDevice.size options offset header := by
  unfold headerAt at h
  cases hread : d.read offset (replicate kSize 0) with
  | error fault =>
    rw [hread] at h
    cases h
  | ok result =>
    rw [hread] at h
    simp only at h
    split at h
    · rename_i hchecks
      cases h
      rw [member, hread]
      simp only [bind, Except.bind]
      rw [if_neg (not_not_intro hchecks.1), if_neg hchecks.2.1, if_neg (not_not_intro hchecks.2.2)]
    · cases h

section

variable (halign : 512 ∣ offset) (hlt : offset < d.mDevice.size)

include halign hlt

lemma member_of_no_header (h : headerAt d offset = none) :
    ∃ status, member d options offset = .ok (.stop status) := by
  obtain ⟨n, bytes, hread, -⟩ := read_header_ok halign hlt
  unfold headerAt at h
  rw [hread] at h
  simp only at h
  split at h
  · cases h
  rename_i hchecks
  rw [member, hread]
  simp only [bind, Except.bind]
  by_cases hn : n = kSize
  · by_cases hname : (ofBytes bytes).name.head? = some 0
    · exact ⟨.success, by rw [if_neg (not_not_intro hn), if_pos hname]; rfl⟩
    · have hmagic : (ofBytes bytes).magic ≠ kMagic :=
        fun hmagic => hchecks ⟨hn, hname, hmagic⟩
      exact ⟨.success, by rw [if_neg (not_not_intro hn), if_neg hname, if_pos hmagic]; rfl⟩
  · exact ⟨.invalidInput, by rw [if_pos hn]; rfl⟩

lemma headerAt_fields (h : headerAt d offset = some header) :
    header.size.length = 12 ∧ header.checksum.length = 8 := by
  obtain ⟨n, bytes, hread, hbytes⟩ := read_header_ok halign hlt
  unfold headerAt at h
  rw [hread] at h
  simp only at h
  split at h
  · cases h
    exact length_fields hbytes
  · cases h

lemma member_next (h : member d options offset = .ok out) (hnext : out.next? = some next) :
    ∃ size, Member d.mDevice.size offset out next size := by
  cases hheader : headerAt d offset with
  | none =>
    obtain ⟨status, hstop⟩ := @member_of_no_header d options offset halign hlt hheader
    rw [hstop] at h
    cases h
    cases hnext
  | some header =>
    rw [member_of_header hheader] at h
    exact afterMagic_next (headerAt_fields halign hlt hheader).1 h hnext

end

lemma Member.aligned (h : Member mediaSize offset out next size) (halign : 512 ∣ offset) :
    512 ∣ next ∧ next < 2 ^ 64 := by
  have hword : 512 ∣ 2 ^ 64 := by decide
  have hdata : 512 ∣ wrapAdd (2 ^ 64) offset 512 :=
    (dvd_mod_iff hword).2 (Nat.dvd_add halign (Nat.dvd_refl 512))
  rw [h.next]
  exact ⟨(dvd_mod_iff hword).2 (Nat.dvd_add hdata (Nat.dvd_mul_left ..)),
    wrapAdd_lt (by decide)⟩

lemma plain_offsets {mediaSize offset : Nat} (hlt : offset < mediaSize)
    (hplain : mediaSize ≤ kLargestPlain) (hsize : size < 2 ^ 36) :
    wrapAdd (2 ^ 64) offset kTarBlockSize = offset + kTarBlockSize ∧
      wrapAdd (2 ^ 64) size (offset + kTarBlockSize) = size + (offset + kTarBlockSize) ∧
      wrapAdd (2 ^ 64) (offset + kTarBlockSize) (roundup size kTarBlockSize) =
        offset + kTarBlockSize + roundup size kTarBlockSize := by
  have hround : roundup size 512 ≤ size + 511 := by
    rw [roundup]
    omega
  rw [kLargestPlain] at hplain
  rw [kTarBlockSize]
  exact ⟨wrapAdd_of_lt (by omega), wrapAdd_of_lt (by omega), wrapAdd_of_lt (by omega)⟩

lemma Member.forward (h : Member mediaSize offset out next size) (hlt : offset < mediaSize)
    (hplain : mediaSize ≤ kLargestPlain) :
    offset < next ∧ wrapAdd (2 ^ 64) offset 512 + size < 2 ^ 64 := by
  have hsize := h.size_lt
  have hnext := h.next
  obtain ⟨hdata, -, hforward⟩ := plain_offsets hlt hplain hsize
  rw [kTarBlockSize] at hdata hforward
  rw [kLargestPlain] at hplain
  rw [hdata] at hnext ⊢
  omega

lemma Member.inside {path : VfsString} {entry : TarEntry} {n : Nat}
    (h : Member mediaSize offset out next size) (hout : out = .entry path entry n)
    (hfits : ∀ size, entry.header.getSize = .ok size → entry.offset + size < 2 ^ 64) :
    Inside mediaSize entry := by
  obtain ⟨hoffset, hsize⟩ := h.entry path entry n hout
  have hrange := h.range
  have hlt := hfits size hsize
  rw [← hoffset, wrapAdd_of_lt (by omega)] at hrange
  exact ⟨size, hsize, by omega⟩

end Round

/-! ## The entries -/

lemma insertEntry_of_mem {path : VfsString} {entry : TarEntry} (hsorted : Sorted entries)
    (h : path ∈ entries.map fst) :
    insertEntry path entry entries = entries := by
  induction entries with
  | nil => cases h
  | cons item rest ih =>
    obtain ⟨other, e⟩ := item
    obtain ⟨hother, hrest⟩ := pairwise_cons.1 hsorted
    rw [insertEntry]
    by_cases heq : path = other
    · rw [heq, if_neg (textLess_irrefl other), if_pos rfl]
    · have hmem : path ∈ rest.map fst := (mem_cons.1 h).resolve_left heq
      have hless : ¬ textLess path other :=
        fun hless => textLess_irrefl path (textLess_trans hless (hother path hmem))
      rw [if_neg hless, if_neg heq, ih hrest hmem]

lemma subset_insertEntry {path : VfsString} {entry : TarEntry} (hsorted : Sorted entries) :
    entries ⊆ insertEntry path entry entries := by
  intro item hitem
  by_cases h : path ∈ entries.map fst
  · rwa [insertEntry_of_mem hsorted h]
  · exact (insertEntry_perm h).mem_iff.2 (mem_cons_of_mem _ hitem)

/-! ## Rounds of the loop -/

section Run

variable {d : BlockDevice} {options : TarParseOptions} {s t : State} {rounds fuel : Nat}

namespace Outcome

def insert : Outcome → TarMap → TarMap
  | .entry path e _, result => insertEntry path e result
  | _, result => result

end Outcome

lemma advance_eq_some :
    advance d options s = some t ↔ s.1 < d.mDevice.size ∧
      ∃ out, member d options s.1 = .ok out ∧ out.next? = some t.1 ∧ t.2 = out.insert s.2 := by
  rw [advance]
  obtain ⟨next, entries⟩ := t
  by_cases hlt : s.1 < d.mDevice.size
  · rw [if_pos hlt, and_iff_right hlt]
    cases member d options s.1 with
    | error fault =>
      constructor
      · intro h
        cases h
      · rintro ⟨out, hout, -⟩
        cases hout
    | ok out =>
      cases out <;> simp [Outcome.next?, Outcome.insert, eq_comm]
  · rw [if_neg hlt]
    constructor
    · intro h
      cases h
    · exact fun h => absurd h.1 hlt

lemma parseFrom_advance (h : advance d options s = some t) :
    parseFrom d options (fuel + 1) s.1 s.2 = parseFrom d options fuel t.1 t.2 := by
  obtain ⟨hlt, out, hout, hnext, hinsert⟩ := advance_eq_some.1 h
  rw [parseFrom, if_pos hlt, hout]
  cases out with
  | stop status => cases hnext
  | skip next =>
    cases hnext
    rw [hinsert]
    rfl
  | entry path entry next =>
    cases hnext
    rw [hinsert]
    rfl

lemma parseFrom_last (h : advance d options s = none) :
    (∃ status, ∀ fuel, parseFrom d options (fuel + 1) s.1 s.2 = .ok (status, s.2)) ∨
      (s.1 < d.mDevice.size ∧ ∃ fault, member d options s.1 = .error fault) := by
  by_cases hlt : s.1 < d.mDevice.size
  · cases hout : member d options s.1 with
    | error fault => exact .inr ⟨hlt, fault, rfl⟩
    | ok out =>
      rw [advance, if_pos hlt, hout] at h
      cases out with
      | skip next => cases h
      | entry path entry next => cases h
      | stop status =>
        refine .inl ⟨status, fun fuel => ?_⟩
        rw [parseFrom, if_pos hlt, hout]
        rfl
  · exact .inl ⟨.success, fun fuel => by rw [parseFrom, if_neg hlt]⟩

lemma parseFrom_stateAfter (h : stateAfter d options rounds = some s) (fuel : Nat) :
    parseFrom d options (rounds + fuel) 0 [] = parseFrom d options fuel s.1 s.2 := by
  induction rounds generalizing s fuel with
  | zero =>
    cases h
    rw [Nat.zero_add]
  | succ rounds ih =>
    obtain ⟨before, hbefore, hstep⟩ := bind_eq_some_iff.1 h
    rw [succ_add_eq_add_succ, ih hbefore, parseFrom_advance hstep]

lemma exists_last_state {result : OsStatus × TarMap}
    (h : parseFrom d options fuel 0 [] = .ok result) :
    ∃ n s, n < fuel ∧ stateAfter d options n = some s ∧ advance d options s = none := by
  by_contra hnot
  have hstates : ∀ n, n ≤ fuel → ∃ s, stateAfter d options n = some s := by
    intro n
    induction n with
    | zero => exact fun _ => ⟨_, rfl⟩
    | succ n ih =>
      intro hle
      obtain ⟨s, hs⟩ := ih (le_of_succ_le hle)
      cases hstep : advance d options s with
      | none => exact absurd ⟨n, s, hle, hs, hstep⟩ hnot
      | some t => exact ⟨t, bind_eq_some_iff.2 ⟨s, hs, hstep⟩⟩
  obtain ⟨s, hs⟩ := hstates fuel (Nat.le_refl fuel)
  have hzero := parseFrom_stateAfter hs 0
  rw [Nat.add_zero, h, parseFrom] at hzero
  cases hzero

structure Placed (s : State) : Prop where
  aligned : 512 ∣ s.1
  offset_lt : s.1 < 2 ^ 64
  sorted : Sorted s.2

lemma placed_stateAfter (h : stateAfter d options rounds = some s) : Placed s := by
  have hstart : Placed (0, []) := ⟨Nat.dvd_zero 512, by decide, List.Pairwise.nil⟩
  refine orbit_invariant hstart ?_ h
  rintro - s t - hs hstep
  obtain ⟨hlt, out, hout, hnext, hinsert⟩ := advance_eq_some.1 hstep
  obtain ⟨size, hmember⟩ := member_next hs.aligned hlt hout hnext
  obtain ⟨haligned, hoffset⟩ := hmember.aligned hs.aligned
  refine ⟨haligned, hoffset, ?_⟩
  rw [hinsert]
  cases out with
  | stop status => exact hs.sorted
  | skip next => exact hs.sorted
  | entry path entry next => exact insertEntry_sorted hs.sorted

lemma advance_place (s t : State) (h : s.1 = t.1) :
    (advance d options s).map fst = (advance d options t).map fst := by
  rw [advance, advance, h]
  split
  · cases member d options t.1 with
    | error fault => rfl
    | ok out => cases out <;> rfl
  · rfl

lemma not_lt_last {last : State} {n : Nat} (hlast : stateAfter d options n = some last)
    (hend : advance d options last = none) (h : stateAfter d options rounds = some s) :
    rounds ≤ n := by
  by_contra hlt
  have hnone : stateAfter d options (n + 1) = none := bind_eq_none_iff.2 fun t ht => by
    rw [show orbit (advance d options) n (0, []) = some last from hlast] at ht
    cases ht
    exact hend
  have hlater : stateAfter d options rounds = none :=
    orbit_eq_none_of_le (Nat.not_le.1 hlt) hnone
  rw [hlater] at h
  cases h

lemma stateAfter_succ (h : stateAfter d options rounds = some s) :
    stateAfter d options (rounds + 1) = advance d options s := by
  rw [stateAfter, orbit, show orbit (advance d options) rounds (0, []) = some s from h]
  rfl

lemma parse_spec {status : OsStatus} (h : parseFrom d options fuel 0 [] = .ok (status, entries)) :
    ∃ n last, stateAfter d options n = some last ∧ advance d options last = none ∧
      last.2 = entries ∧ ∀ rounds s fault, stateAfter d options rounds = some s →
        s.1 < d.mDevice.size → member d options s.1 ≠ .error fault := by
  obtain ⟨n, last, hn, hlast, hend⟩ := exists_last_state h
  obtain ⟨rest, rfl⟩ := Nat.exists_eq_add_of_lt hn
  rw [Nat.add_assoc, parseFrom_stateAfter hlast] at h
  have hfine : ∀ fault, last.1 < d.mDevice.size → member d options last.1 ≠ .error fault := by
    intro fault hlt hfault
    rw [parseFrom, if_pos hlt, hfault] at h
    cases h
  refine ⟨n, last, hlast, hend, ?_, ?_⟩
  · rcases parseFrom_last hend with ⟨status', hlastRound⟩ | ⟨hlt, fault, hfault⟩
    · rw [hlastRound] at h
      cases h
      rfl
    · exact absurd hfault (hfine fault hlt)
  · intro rounds s fault hs hlt hfault
    rcases Nat.lt_or_eq_of_le (not_lt_last hlast hend hs) with hless | rfl
    · -- the loop went on from here
      have hstop : advance d options s = none := by
        rw [advance, if_pos hlt, hfault]
      have hback := not_lt_last hs hstop hlast
      omega
    · rw [hs] at hlast
      cases hlast
      exact hfine fault hlt hfault

lemma subset_later {n : Nat} (hs : stateAfter d options rounds = some s)
    (ht : stateAfter d options (rounds + n) = some t) : s.2 ⊆ t.2 := by
  rw [stateAfter, orbit_add, show orbit (advance d options) rounds (0, []) = some s from hs] at ht
  have hstart : s.2 ⊆ s.2 ∧ Sorted s.2 := ⟨Subset.refl _, (placed_stateAfter hs).sorted⟩
  have hkept : s.2 ⊆ t.2 ∧ Sorted t.2 := by
    refine @orbit_invariant _ _ _ _ _ (fun u => s.2 ⊆ u.2 ∧ Sorted u.2) hstart ?_ ht
    rintro - a b - ⟨hsubset, hsorted⟩ hstep
    obtain ⟨-, out, -, -, hinsert⟩ := advance_eq_some.1 hstep
    rw [hinsert]
    cases out with
    | stop status => exact ⟨hsubset, hsorted⟩
    | skip next => exact ⟨hsubset, hsorted⟩
    | entry path entry next =>
      exact ⟨Subset.trans hsubset (subset_insertEntry hsorted), insertEntry_sorted hsorted⟩
  exact hkept.1

end Run

/-! ## Safety -/

section Safety

variable {d : BlockDevice} {options : TarParseOptions}

lemma Inside.span {mediaSize offset length start count : Nat} {entry : TarEntry}
    (h : Inside mediaSize entry) (hsize : mediaSize < 2 ^ 64)
    (hspan : fileSpan entry offset length = .ok (some (start, count))) :
    start + count ≤ mediaSize := by
  obtain ⟨size, hgetSize, hrange⟩ := h
  rw [fileSpan, hgetSize] at hspan
  simp only [bind, Except.bind] at hspan
  split at hspan
  · cases hspan
  · rename_i hoffset
    cases hspan
    rw [wrapAdd_of_lt (by omega)]
    omega

lemma forward_of_plain (hplain : d.mDevice.size ≤ kLargestPlain) {i n : Nat} {s t : State}
    (hs : stateAfter d options i = some s) (ht : stateAfter d options (i + (n + 1)) = some t) :
    s.1 < t.1 := by
  have hstep : ∀ k a b, stateAfter d options k = some a → advance d options a = some b →
      a.1 < b.1 := by
    intro k a b ha hab
    obtain ⟨hlt, out, hout, hnext, -⟩ := advance_eq_some.1 hab
    obtain ⟨size, hmember⟩ := member_next (placed_stateAfter ha).aligned hlt hout hnext
    exact (hmember.forward hlt hplain).1
  induction n generalizing t with
  | zero =>
    rw [Nat.zero_add, stateAfter_succ hs] at ht
    exact hstep i s t hs ht
  | succ n ih =>
    obtain ⟨before, hbefore, hlast⟩ := bind_eq_some_iff.1 ht
    exact (ih hbefore).trans (hstep _ before t hbefore hlast)

lemma plain_spec (hplain : d.mDevice.size ≤ kLargestPlain) :
    RangesFit d options ∧ NeverReturns d options := by
  constructor
  · intro rounds s path entry next size hs hlt hentry hnew hsize
    obtain ⟨n, hmember⟩ := member_next (placed_stateAfter hs).aligned hlt hentry rfl
    obtain ⟨hoffset, hgetSize⟩ := hmember.entry path entry next rfl
    rw [hgetSize] at hsize
    cases hsize
    rw [hoffset]
    exact (hmember.forward hlt hplain).2
  · intro i j s t hij hs ht heq
    obtain ⟨n, rfl⟩ := Nat.exists_eq_add_of_lt hij
    exact absurd heq (forward_of_plain hplain hs ht).ne

lemma inside_stateAfter (hranges : RangesFit d options) {rounds : Nat} {s : State}
    (h : stateAfter d options rounds = some s) :
    ∀ item ∈ s.2, Inside d.mDevice.size item.2 := by
  have hstart : ∀ item ∈ ((0, []) : State).2, Inside d.mDevice.size item.2 := by
    intro item hitem
    cases hitem
  refine @orbit_invariant _ _ _ _ _ (fun u => ∀ item ∈ u.2, Inside d.mDevice.size item.2)
    hstart ?_ h
  intro k a b ha hall hstep item hitem
  obtain ⟨hlt, out, hout, hnext, hinsert⟩ := advance_eq_some.1 hstep
  rw [hinsert] at hitem
  cases out with
  | stop status => exact hall item hitem
  | skip next => exact hall item hitem
  | entry path entry next =>
    have hplaced := placed_stateAfter ha
    by_cases hmem : path ∈ a.2.map fst
    · rw [Outcome.insert, insertEntry_of_mem hplaced.sorted hmem] at hitem
      exact hall item hitem
    · rcases mem_cons.1 ((insertEntry_perm hmem).mem_iff.1 hitem) with rfl | hitem
      · obtain ⟨size, hmember⟩ := member_next hplaced.aligned hlt hout hnext
        exact hmember.inside rfl fun size => hranges k a path entry next size ha hlt hout hmem
      · exact hall item hitem

lemma member_ne_error (hchecksums : ChecksumsEnd d options) {rounds : Nat} {s : State}
    (hs : stateAfter d options rounds = some s) (hlt : s.1 < d.mDevice.size) (fault : Fault) :
    member d options s.1 ≠ .error fault := by
  have haligned := (placed_stateAfter hs).aligned
  intro hfault
  cases hheader : headerAt d s.1 with
  | none =>
    obtain ⟨status, hstop⟩ := @member_of_no_header d options s.1 haligned hlt hheader
    rw [hstop] at hfault
    cases hfault
  | some header =>
    obtain ⟨out, hout⟩ := @afterMagic_ok options s.1 d.mDevice.size header
      (headerAt_fields haligned hlt hheader).1 (hchecksums rounds s header hs hlt hheader)
    rw [member_of_header hheader, hout] at hfault
    cases hfault

lemma Clean.safe (h : Clean d options) : Safe d options := by
  obtain ⟨hranges, hnever⟩ : RangesFit d options ∧ NeverReturns d options :=
    h.large.elim plain_spec id
  have hbound : ∀ k s, stateAfter d options k = some s → s.1 < 2 ^ 64 :=
    fun k s hs => (placed_stateAfter hs).offset_lt
  obtain ⟨n, hn⟩ := exists_orbit_eq_none hbound hnever
  obtain ⟨k, last, hlast, hend⟩ := exists_last hn
  rcases parseFrom_last hend with ⟨status, hreturn⟩ | ⟨hlt, fault, hfault⟩
  · refine ⟨k + 1, status, last.2, ?_, fun item hitem => ?_⟩
    · rw [parseFrom_stateAfter hlast, hreturn 0]
    · have hinside := inside_stateAfter hranges hlast item hitem
      refine ⟨hinside, fun offset length start count hspan => ?_⟩
      exact hinside.span d.mDevice.size_lt hspan
  · exact absurd hfault (member_ne_error h.checksums hlast hlt fault)

lemma Safe.clean (h : Safe d options) : Clean d options := by
  obtain ⟨fuel, status, entries, hparse, hinside⟩ := h
  obtain ⟨n, last, hlast, hend, rfl, hfine⟩ := parse_spec hparse
  refine ⟨?_, .inr ⟨?_, ?_⟩⟩
  · intro rounds s header hs hlt hheader
    by_contra hfull
    refine hfine rounds s .badAccess hs hlt ?_
    rw [member_of_header hheader]
    exact afterMagic_error (headerAt_fields (placed_stateAfter hs).aligned hlt hheader).2 hfull
  · intro rounds s path entry next size hs hlt hentry hnew hsize
    have hstep : advance d options s = some (next, insertEntry path entry s.2) :=
      advance_eq_some.2 ⟨hlt, _, hentry, rfl, rfl⟩
    have hnext := stateAfter_succ hs
    rw [hstep] at hnext
    obtain ⟨rest, rfl⟩ := Nat.exists_eq_add_of_le (not_lt_last hlast hend hnext)
    -- the entry is among those reported
    have hmem : (path, entry) ∈ last.2 :=
      subset_later hnext hlast ((insertEntry_perm hnew).mem_iff.2 (mem_cons_self ..))
    obtain ⟨size', hsize', hrange⟩ := (hinside _ hmem).1
    rw [hsize] at hsize'
    cases hsize'
    exact lt_of_le_of_lt hrange d.mDevice.size_lt
  · intro i j s t hij hs ht heq
    have hnone := (stateAfter_succ hlast).trans hend
    exact orbit_ne_none_of_return advance_place hij hs ht heq (n + 1) hnone

/-- The parser is safe on a medium exactly if no checksum that is looked at fills its field with
digits; on a medium near the end of the range of words, also no entry wraps and the walk does not
come back. -/
theorem safe_iff_clean (d : BlockDevice) (options : TarParseOptions) :
    Safe d options ↔ Clean d options :=
  ⟨Safe.clean, Clean.safe⟩

end Safety

/-- An archive of one header whose checksum is eight digits, without a zero behind them. -/
def fullHeader : TarPosixHeader where
  name := 0x61 :: replicate 99 0
  mode := replicate 8 0
  uid := replicate 8 0
  gid := replicate 8 0
  size := replicate 12 0x30
  mtime := replicate 12 0
  checksum := replicate 8 0x30
  typeflag := 0x30
  linkname := replicate 100 0
  magic := kMagic
  version := [0x20, 0]
  uname := replicate 32 0
  gname := replicate 32 0
  devmajor := replicate 8 0
  devminor := replicate 8 0
  prefixText := replicate 155 0

lemma sectorSize_lt : 512 < 2 ^ 32 := by decide

def fullArchive : BlockDevice where
  mDevice := {
    readable := true
    blockSize := 512
    blockCount := 1
    bytes := fullHeader.bytes ++ replicate 12 0
    answers := fun _ _ => true
    blockSize_lt := sectorSize_lt
    length_bytes := by decide +kernel
    size_lt := by decide }
  mBuffer := replicate 512 0
  length_buffer := by decide +kernel

theorem not_safe_fullArchive : ¬ Safe fullArchive {} := by
  intro h
  have hheader : headerAt fullArchive 0 = some fullHeader := by decide +kernel
  have hends := h.clean.checksums 0 (0, []) fullHeader rfl (by decide) hheader
  revert hends
  decide

/-! ## Devices in memory -/

section Memory

variable {media : MemoryBlk} {options : TarParseOptions}

def ofMemory (media : MemoryBlk) (hlength : media.mMemory.length < 2 ^ 64) : BlockDevice where
  mDevice := {
    readable := true
    blockSize := MemoryBlk.kBlockSize
    blockCount := media.blockCount
    bytes := media.mMemory.take media.size
    answers := fun _ _ => true
    blockSize_lt := by decide
    length_bytes := length_take_of_le (mul_div_le ..)
    size_lt := lt_of_le_of_lt (mul_div_le ..) hlength }
  mBuffer := replicate media.size 0
  length_buffer := length_replicate

variable (hlength : media.mMemory.length < 2 ^ 64)

lemma driver_answers {block count : Nat} (h : block + count ≤ media.blockCount) :
    (ofMemory media hlength).mDevice.read block count ≠ .ok none := by
  have hpos : (ofMemory media hlength).mDevice.blockSize ≠ 0 := fun h => by cases h
  have hwrap : wrapAdd (2 ^ 64) block count = block + count :=
    wrapAdd_of_lt (lt_of_le_of_lt h (blockCount_lt hpos))
  have hreadable : (ofMemory media hlength).mDevice.readable = true := rfl
  have hanswers : (ofMemory media hlength).mDevice.answers block count = true := rfl
  have hinside : ¬ (ofMemory media hlength).mDevice.blockCount < block + count := Nat.not_lt.2 h
  intro hnone
  rw [IBlockDriver.read, hwrap, if_neg (not_not_intro hreadable), if_neg hinside, if_neg hinside,
    if_pos hanswers] at hnone
  cases hnone

lemma read_ofMemory {offset : Nat} (halign : 512 ∣ offset) (hlt : offset < media.size) :
    (∃ bytes, bytes.length = kSize ∧
      (ofMemory media hlength).read offset (replicate kSize 0) =
        .ok (kSize, bytes) ∧
      read media offset kSize = .ok bytes) ∨
    ((ofMemory media hlength).read offset (replicate kSize 0) =
        .ok (0, replicate kSize 0) ∧
      read media offset kSize = .ok []) := by
  have hzeros : (replicate kSize (0 : UInt8)).length = 500 :=
    length_replicate
  have hsize : media.size ≤ media.mMemory.length := mul_div_le ..
  by_cases hrange : offset + 500 ≤ media.size
  · have hbytes := @read_eq media offset 500 hlength (by decide) hrange
    have hspan : (ofMemory media hlength).mDevice.span offset 500 =
        (media.mMemory.drop offset).take 500 := by
      change ((media.mMemory.take media.size).drop offset).take 500 = _
      rw [drop_take, take_take, Nat.min_eq_left (by omega)]
    have hpos : (ofMemory media hlength).mDevice.blockSize ≠ 0 := fun h => by cases h
    have hread := @BlockDevice.read_inside (ofMemory media hlength) offset
      (replicate kSize 0) hpos (hzeros ▸ hrange) (.inl (by omega))
    rcases hread with hrefused | ⟨⟨-, block, count, -, -, hblocks, hrefused⟩, -⟩ | hread
    · refine absurd hrefused (driver_answers hlength ?_)
      change offset / 512 + 1 ≤ media.blockCount
      rw [MemoryBlk.size, MemoryBlk.kBlockSize] at hlt
      omega
    · exact absurd hrefused (driver_answers hlength hblocks)
    · rw [hzeros, hspan] at hread
      refine .inl ⟨_, ?_, hread, hbytes⟩
      rw [length_take, length_drop]
      exact Nat.min_eq_left (by omega)
  · refine .inr ⟨?_, if_pos (Nat.not_le.1 hrange)⟩
    have hwrap : wrapAdd (2 ^ 64) offset 500 = offset + 500 := wrapAdd_of_lt (by omega)
    rw [Block.BlockDevice.read, hzeros, hwrap]
    exact if_pos (Nat.not_le.1 hrange)

lemma parseFrom_ofMemory (hplain : media.size ≤ kLargestPlain) {offset : Nat}
    (halign : 512 ∣ offset) (fuel : Nat) (result : TarMap) :
    parseFrom (ofMemory media hlength) options fuel offset result =
      parseTarFrom media options fuel offset result := by
  have hsize : (ofMemory media hlength).mDevice.size = media.size := rfl
  induction fuel generalizing offset result with
  | zero => rw [parseFrom, parseTarFrom]
  | succ fuel ih =>
    rw [parseFrom, parseTarFrom, hsize]
    by_cases hlt : offset < media.size
    · rw [if_pos hlt, if_pos hlt, member]
      rcases read_ofMemory hlength halign hlt with
        ⟨bytes, hbytes, hread, hmemory⟩ | ⟨hread, hmemory⟩
      · rw [hread, hmemory, hsize]
        simp only [bind, Except.bind, hbytes, ne_eq, not_true_eq_false, if_false]
        by_cases hname : (ofBytes bytes).name.head? = some 0
        · rw [if_pos hname, if_pos hname]
          rfl
        rw [if_neg hname, if_neg hname]
        by_cases hmagic : ¬ (ofBytes bytes).magic = kMagic
        · rw [if_pos hmagic, if_pos hmagic]
          rfl
        rw [if_neg hmagic, if_neg hmagic, afterMagic]
        cases checksumPasses options (ofBytes bytes) with
        | error fault => rfl
        | ok passes =>
          cases passes with
          | false => rfl
          | true =>
            obtain ⟨size, hgetSize, hsizeLt⟩ := getSize_ok (length_fields hbytes).1
            have hrest := fun result => @ih (offset + kTarBlockSize + roundup size kTarBlockSize)
              (Nat.dvd_add (Nat.dvd_add halign (Nat.dvd_refl 512)) (Nat.dvd_mul_left ..)) result
            obtain ⟨hdata, hend, hnext⟩ := plain_offsets hlt hplain hsizeLt
            simp only [bind, Except.bind, hgetSize, hdata, hend, hnext, not_true_eq_false, if_false]
            by_cases hrange : size + (offset + kTarBlockSize) > media.size
            · rw [if_pos hrange, if_pos hrange]
              rfl
            rw [if_neg hrange, if_neg hrange]
            by_cases hkind : (ofBytes bytes).getType ≠ .file ∧
                (ofBytes bytes).getType ≠ .folder
            · rw [if_pos hkind, if_pos hkind]
              exact hrest result
            rw [if_neg hkind, if_neg hkind]
            by_cases hdot : (ofBytes bytes).name.take 3 = [0x2e, 0x2f, 0]
            · rw [if_pos hdot, if_pos hdot]
              exact hrest result
            rw [if_neg hdot, if_neg hdot]
            cases convertTarPath (ofBytes bytes).name with
            | error status => rfl
            | ok path => exact hrest _
      · rw [hread, hmemory]
        rfl
    · rw [if_neg hlt, if_neg hlt]

end Memory

end TarScan
end Vfs
end BezOS
