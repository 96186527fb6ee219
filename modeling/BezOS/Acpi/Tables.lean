import BezOS.Lib.Bytes
import BezOS.Lib.Word

/-!
# ACPI tables

`acpi/madt.hpp`, `acpi/mcfg.hpp` and the walks over them in `acpi/acpi.cpp` and `apic.cpp`. A table
is what its header claims of the memory behind its address; pointers are distances from there.
-/

namespace BezOS
namespace Acpi

open Lib

inductive Fault
  | outside (offset : Nat)
  | endless
  deriving DecidableEq

@[simp] lemma ok_bind {α β : Type} (a : α) (f : α → Except Fault β) :
    (Except.ok a >>= f) = f a := rfl

structure RsdtHeader where
  length : UInt32

structure Table where
  header : RsdtHeader
  memory : Nat → UInt8

def Table.length (table : Table) : Nat :=
  table.header.length.toNat

def Table.load (table : Table) (offset : Nat) : Except Fault UInt8 :=
  if offset < table.length then .ok (table.memory offset) else .error (.outside offset)

lemma Table.load_eq {table : Table} {offset : Nat} (h : offset < table.length) :
    table.load offset = .ok (table.memory offset) :=
  if_pos h

lemma Table.lt_of_load {table : Table} {offset : Nat} {byte : UInt8}
    (h : table.load offset = .ok byte) :
    offset < table.length ∧ byte = table.memory offset := by
  rw [Table.load] at h
  split at h
  · cases h
    exact ⟨‹_›, rfl⟩
  · cases h

lemma Table.length_lt (table : Table) : table.length < 2 ^ 32 :=
  table.header.length.toNat_lt

/-! ## The MADT -/

/-- A `uint8_t` that has names for some of its values. -/
abbrev MadtEntryType := UInt8

def MadtEntryType.eLocalApic : MadtEntryType := 0
def MadtEntryType.eIoApic : MadtEntryType := 1
def MadtEntryType.eInterruptSourceOverride : MadtEntryType := 2

abbrev Madt := Table

namespace Madt

/-- `sizeof(Madt)`: the entries begin here. -/
def kSize : Nat := 44

/-- Where a `MadtIterator` stands at the beginning. -/
def begin' : Nat := kSize

/-- `entries + header.length - sizeof(Madt)` -/
def end' (madt : Madt) : Nat :=
  kSize + madt.length - kSize

/-- `entry->type` -/
def entryType (madt : Madt) (entry : Nat) : Except Fault MadtEntryType :=
  madt.load entry

/-- `entry->length` -/
def entryLength (madt : Madt) (entry : Nat) : Except Fault UInt8 :=
  madt.load (entry + 1)

/-- `MadtIterator::operator++` -/
def advance (madt : Madt) (current : Nat) : Except Fault Nat := do
  pure (current + (← madt.entryLength current).toNat)

variable {β : Type}

/-- The loop over the entries, `operator!=` being a comparison by order. -/
def forEntries (madt : Madt) (body : Nat → β → Except Fault (ForInStep β)) :
    Nat → Nat → β → Except Fault β
  | 0, _, _ => .error .endless
  | fuel + 1, current, result =>
      if current < madt.end' then do
        match ← body current result with
        | .done result => pure result
        | .yield result => forEntries madt body fuel (← madt.advance current) result
      else pure result

/-- `std::count_if` for the entries of a type, whose result is taken as a `uint32_t`. -/
def countIf (madt : Madt) (type : MadtEntryType) (fuel : Nat) : Except Fault Nat := do
  let count ← madt.forEntries (fun entry count => do
    pure (.yield (if (← madt.entryType entry) = type then count + 1 else count))) fuel begin' 0
  pure (count % 2 ^ 32)

def ioApicCount (madt : Madt) : Nat → Except Fault Nat :=
  madt.countIf .eIoApic

def lapicCount (madt : Madt) : Nat → Except Fault Nat :=
  madt.countIf .eLocalApic

/-- `AcpiTables::mapIoApic`: the entry that is mapped. -/
def mapIoApic (madt : Madt) (index : Nat) (fuel : Nat) : Except Fault (Option Nat) := do
  let (_, mapped) ← madt.forEntries (fun entry (index, _) => do
    if (← madt.entryType entry) = .eIoApic then
      if index = 0 then pure (.done (index, some entry)) else pure (.yield (index - 1, none))
    else pure (.yield (index, none))) fuel begin' (index, (none : Option Nat))
  pure mapped

/-- `IoApicSet::IoApicSet`: the entries whose I/O APICs are set up, in their order. -/
def ioApicSet (madt : Madt) (fuel : Nat) : Except Fault (List Nat) :=
  madt.forEntries (fun entry ioApics => do
    if (← madt.entryType entry) ≠ .eIoApic then pure (.yield ioApics)
    else pure (.yield (ioApics ++ [entry]))) fuel begin' []

end Madt

/-! ## The MCFG -/

abbrev Mcfg := Table

namespace Mcfg

/-- `sizeof(Mcfg)` -/
def kSize : Nat := 44

/-- `sizeof(McfgAllocation)` -/
def kAllocationSize : Nat := 16

/-- `(header.length - sizeof(Mcfg)) / sizeof(McfgAllocation)` -/
def allocationCount (mcfg : Mcfg) : Nat :=
  wrapSub (2 ^ 64) mcfg.length kSize / kAllocationSize

/-- `&allocations[i]` -/
def allocation (i : Nat) : Nat :=
  kSize + kAllocationSize * i

def containsBus (mcfg : Mcfg) (allocation : Nat) (bus : UInt8) : Except Fault Bool := do
  let startBusNumber ← mcfg.load (allocation + 10)
  if startBusNumber ≤ bus then pure (decide ((← mcfg.load (allocation + 11)) ≥ bus))
  else pure false

/-- `allocation->segment == segment && allocation->containsBus(bus)` -/
def isAt (mcfg : Mcfg) (allocation : Nat) (segment : UInt16) (bus : UInt8) :
    Except Fault Bool := do
  let low ← mcfg.load (allocation + 8)
  let high ← mcfg.load (allocation + 9)
  if leValue [low, high] = segment.toNat then mcfg.containsBus allocation bus
  else pure false

/-- The loop of `Mcfg::find`, with the rounds that are left of it. -/
def findFrom (mcfg : Mcfg) (segment : UInt16) (bus : UInt8) :
    Nat → Nat → Except Fault (Option Nat)
  | 0, _ => .ok none
  | rounds + 1, i => do
      if ← mcfg.isAt (allocation i) segment bus then pure (some (allocation i))
      else findFrom mcfg segment bus rounds (i + 1)

def find (mcfg : Mcfg) (segment : UInt16) (bus : UInt8) : Except Fault (Option Nat) :=
  mcfg.findFrom segment bus mcfg.allocationCount 0

end Mcfg
end Acpi
end BezOS

/-!
## Walks over ACPI tables

The entries of a MADT are a chain, each saying with its length byte where the next one stands. A
walk stays inside the table if the chain ends exactly at the table's end.
-/

namespace BezOS
namespace Acpi

open Lib Except List Nat Table

namespace Madt

/-! ## Chains of entries -/

inductive EntriesFrom (madt : Madt) : Nat → List Nat → Prop
  | last {offset : Nat} (hend : madt.length ≤ offset) : EntriesFrom madt offset []
  | entry {offset : Nat} {rest : List Nat} (hheader : offset + 1 < madt.length)
      (hlength : madt.memory (offset + 1) ≠ 0)
      (hinside : offset + (madt.memory (offset + 1)).toNat ≤ madt.length)
      (hrest : EntriesFrom madt (offset + (madt.memory (offset + 1)).toNat) rest) :
      EntriesFrom madt offset (offset :: rest)

def WellFormed (madt : Madt) : Prop :=
  ∃ entries, EntriesFrom madt kSize entries

def yielded (madt : Madt) (fuel : Nat) : Except Fault (List Nat) :=
  madt.forEntries (fun entry seen => pure (.yield (seen ++ [entry]))) fuel begin' []

def EntryInside (madt : Madt) (entry : Nat) : Prop :=
  ∃ length, madt.entryLength entry = .ok length ∧ kSize ≤ entry ∧
    entry + length.toNat ≤ madt.length

def ofType (madt : Madt) (type : MadtEntryType) (entries : List Nat) : List Nat :=
  entries.filter (fun entry => madt.memory entry = type)

/-- The walks end, yield entries inside the table only, and find those of a type. -/
def WalksInside (madt : Madt) : Prop :=
  ∃ fuel entries, madt.yielded fuel = .ok entries ∧ (∀ entry ∈ entries, madt.EntryInside entry) ∧
    madt.ioApicCount fuel = .ok (madt.ofType .eIoApic entries).length ∧
    madt.lapicCount fuel = .ok (madt.ofType .eLocalApic entries).length ∧
    madt.ioApicSet fuel = .ok (madt.ofType .eIoApic entries) ∧
    ∀ index, madt.mapIoApic index fuel = .ok (madt.ofType .eIoApic entries)[index]?

variable {madt : Madt} {β : Type} {offset fuel : Nat} {entries : List Nat}

lemma end_eq (madt : Madt) : madt.end' = madt.length :=
  Nat.add_sub_cancel_left ..

lemma advance_eq (h : offset + 1 < madt.length) :
    madt.advance offset = .ok (offset + (madt.memory (offset + 1)).toNat) := by
  rw [advance, entryLength, load_eq h]
  rfl

namespace EntriesFrom

section

variable (h : EntriesFrom madt offset entries)

include h

lemma offsets_inside :
    ∀ entry ∈ entries, offset ≤ entry ∧ entry + 1 < madt.length ∧
      entry + (madt.memory (entry + 1)).toNat ≤ madt.length := by
  induction h with
  | last hend => exact fun entry hentry => absurd hentry not_mem_nil
  | entry hheader hlength hinside hrest ih =>
    intro entry hentry
    rcases mem_cons.1 hentry with rfl | hmem
    · exact ⟨Nat.le_refl _, hheader, hinside⟩
    · obtain ⟨hle, hin⟩ := ih entry hmem
      exact ⟨Nat.le_trans (Nat.le_add_right ..) hle, hin⟩

lemma length_le (hoffset : offset ≤ madt.length) :
    offset + entries.length ≤ madt.length := by
  induction h with
  | last hend => exact hoffset
  | entry hheader hlength hinside hrest ih =>
    have hpos := Nat.pos_of_ne_zero fun hzero => hlength (UInt8.toNat_inj.1 hzero)
    rw [length_cons]
    omega

lemma length_lt : entries.length < 2 ^ 32 := by
  have hlength := madt.length_lt
  by_cases hoffset : offset ≤ madt.length
  · have hle := h.length_le hoffset
    omega
  · cases h with
    | last hend => exact Nat.two_pow_pos 32
    | entry hheader hlength hinside hrest => omega

lemma forEntries_eq (hfuel : entries.length < fuel) (body : Nat → β → Except Fault (ForInStep β))
    (result : β) :
    madt.forEntries body fuel offset result = forIn entries result body := by
  induction h generalizing fuel result with
  | last hend =>
    obtain ⟨fuel, rfl⟩ := exists_eq_succ_of_ne_zero (Nat.ne_of_gt hfuel)
    rw [forEntries, end_eq, if_neg (Nat.not_lt.2 hend), forIn_nil]
  | @entry offset rest hheader hlength hinside hrest ih =>
    obtain ⟨fuel, rfl⟩ := exists_eq_succ_of_ne_zero (Nat.ne_zero_of_lt hfuel)
    rw [forEntries, end_eq, if_pos (lt_of_succ_lt hheader), forIn_cons]
    refine congrArg _ (funext fun step => ?_)
    cases step with
    | done result => rfl
    | yield result =>
      rw [advance_eq hheader]
      exact ih (lt_of_succ_lt_succ hfuel) result

lemma entryType_eq {entry : Nat} (hmem : entry ∈ entries) :
    madt.entryType entry = .ok (madt.memory entry) :=
  load_eq (lt_of_succ_lt (h.offsets_inside entry hmem).2.1)

end

end EntriesFrom

/-! ## What the walks find -/

lemma ofType_cons (type : MadtEntryType) (entry : Nat) (entries : List Nat) :
    madt.ofType type (entry :: entries) =
      if madt.memory entry = type then entry :: madt.ofType type entries
      else madt.ofType type entries := by
  rw [ofType, filter_cons]
  simp only [decide_eq_true_eq]
  rfl

lemma forIn_yielded (entries seen : List Nat) :
    forIn (m := Except Fault) entries seen (fun entry seen => pure (.yield (seen ++ [entry]))) =
      .ok (seen ++ entries) := by
  induction entries generalizing seen with
  | nil => rw [forIn_nil, List.append_nil]; rfl
  | cons entry entries ih =>
    rw [forIn_cons, pure_bind]
    exact (ih _).trans (congrArg ok (append_assoc ..))

lemma forIn_countIf (type : MadtEntryType)
    (h : ∀ entry ∈ entries, madt.entryType entry = .ok (madt.memory entry)) (count : Nat) :
    forIn (m := Except Fault) entries count (fun entry count => do
      pure (.yield (if (← madt.entryType entry) = type then count + 1 else count))) =
      .ok (count + (madt.ofType type entries).length) := by
  induction entries generalizing count with
  | nil => rfl
  | cons entry entries ih =>
    have hrest := ih fun e he => h e (mem_cons_of_mem entry he)
    rw [forIn_cons, h entry mem_cons_self, ofType_cons]
    refine (hrest _).trans (congrArg ok ?_)
    split
    · rw [length_cons]
      omega
    · rfl

lemma forIn_ioApicSet
    (h : ∀ entry ∈ entries, madt.entryType entry = .ok (madt.memory entry)) (seen : List Nat) :
    forIn (m := Except Fault) entries seen (fun entry ioApics => do
      if (← madt.entryType entry) ≠ .eIoApic then pure (.yield ioApics)
      else pure (.yield (ioApics ++ [entry]))) =
      .ok (seen ++ madt.ofType .eIoApic entries) := by
  induction entries generalizing seen with
  | nil => exact congrArg ok (List.append_nil seen).symm
  | cons entry entries ih =>
    have hrest := ih fun e he => h e (mem_cons_of_mem entry he)
    rw [forIn_cons, h entry mem_cons_self, ofType_cons]
    by_cases htype : madt.memory entry = MadtEntryType.eIoApic
    · simp only [htype, ok_bind, ne_eq, not_true_eq_false, if_false, if_true]
      exact (hrest _).trans (congrArg ok (append_assoc ..))
    · simp only [htype, ok_bind, ne_eq, not_false_eq_true, if_false, if_true]
      exact hrest _

lemma forIn_mapIoApic
    (h : ∀ entry ∈ entries, madt.entryType entry = .ok (madt.memory entry)) (index : Nat) :
    Prod.snd <$> forIn (m := Except Fault) entries (index, (none : Option Nat))
      (fun entry (index, _) => do
        if (← madt.entryType entry) = .eIoApic then
          if index = 0 then pure (.done (index, some entry)) else pure (.yield (index - 1, none))
        else pure (.yield (index, none))) =
      .ok (madt.ofType .eIoApic entries)[index]? := by
  induction entries generalizing index with
  | nil => rfl
  | cons entry entries ih =>
    have hrest := ih fun e he => h e (mem_cons_of_mem entry he)
    rw [forIn_cons, h entry mem_cons_self, ofType_cons]
    by_cases htype : madt.memory entry = MadtEntryType.eIoApic
    · cases index with
      | zero =>
        simp only [htype, ok_bind, if_true]
        rfl
      | succ index =>
        simp only [htype, ok_bind, if_true, succ_ne_zero, if_false]
        exact hrest index
    · simp only [htype, ok_bind, if_false]
      exact hrest index

lemma walksInside_of_wellFormed (h : madt.WellFormed) : madt.WalksInside := by
  obtain ⟨entries, hentries⟩ := h
  have htypes : ∀ entry ∈ entries, madt.entryType entry = .ok (madt.memory entry) :=
    fun entry hmem => hentries.entryType_eq hmem
  -- a count of entries fits the word it is returned in
  have hcount : ∀ type, madt.countIf type (entries.length + 1) =
      .ok (madt.ofType type entries).length := by
    intro type
    rw [countIf, begin', hentries.forEntries_eq (lt_succ_self _), forIn_countIf type htypes,
      ok_bind, Nat.zero_add, mod_eq_of_lt]
    · rfl
    · exact Nat.lt_of_le_of_lt (length_filter_le ..) hentries.length_lt
  refine ⟨entries.length + 1, entries, ?_, ?_, hcount _, hcount _, ?_, ?_⟩
  · rw [yielded, begin', hentries.forEntries_eq (lt_succ_self _)]
    exact forIn_yielded entries []
  · intro entry hmem
    obtain ⟨hfirst, hheader, hinside⟩ := hentries.offsets_inside entry hmem
    exact ⟨_, load_eq hheader, hfirst, hinside⟩
  · rw [ioApicSet, begin', hentries.forEntries_eq (lt_succ_self _)]
    exact forIn_ioApicSet htypes []
  · intro index
    have hmap := forIn_mapIoApic htypes index
    rw [mapIoApic, begin', hentries.forEntries_eq (lt_succ_self _)]
    exact hmap

/-! ## Corrupted entries -/

lemma forEntries_of_length_zero (hoffset : offset + 1 < madt.length)
    (hzero : madt.memory (offset + 1) = 0) (fuel : Nat) (seen : List Nat) :
    madt.forEntries (fun entry seen => pure (.yield (seen ++ [entry]))) fuel offset seen =
      .error .endless := by
  induction fuel generalizing seen with
  | zero => rfl
  | succ fuel ih =>
    rw [forEntries, end_eq, if_pos (lt_of_succ_lt hoffset), pure_bind]
    change (madt.advance offset >>= _) = _
    rw [advance_eq hoffset, hzero, ok_bind]
    exact ih _

lemma exists_entriesFrom (seen result : List Nat)
    (hwalk : madt.forEntries (fun entry seen => pure (.yield (seen ++ [entry]))) fuel offset seen =
      .ok result) (hinside : ∀ entry ∈ result, madt.EntryInside entry) :
    ∃ entries, EntriesFrom madt offset entries ∧ result = seen ++ entries := by
  induction fuel generalizing offset seen with
  | zero => cases hwalk
  | succ fuel ih =>
    by_cases hoffset : offset < madt.length
    · by_cases hheader : offset + 1 < madt.length
      · by_cases hzero : madt.memory (offset + 1) = 0
        · rw [forEntries_of_length_zero hheader hzero] at hwalk
          cases hwalk
        · rw [forEntries, end_eq, if_pos hoffset, pure_bind] at hwalk
          change (madt.advance offset >>= _) = _ at hwalk
          rw [advance_eq hheader, ok_bind] at hwalk
          obtain ⟨entries, hentries, rfl⟩ := ih _ hwalk
          obtain ⟨length, hlength, hfirst, hin⟩ := hinside offset (by simp)
          rw [(lt_of_load hlength).2] at hin
          refine ⟨offset :: entries, .entry hheader hzero hin hentries, ?_⟩
          rw [append_assoc, singleton_append]
      · -- the length byte of the last entry is behind the table
        have hload : madt.advance offset = .error (.outside (offset + 1)) := by
          rw [advance, entryLength, Table.load, if_neg hheader]
          rfl
        rw [forEntries, end_eq, if_pos hoffset, pure_bind] at hwalk
        rw [hload] at hwalk
        cases hwalk
    · rw [forEntries, end_eq, if_neg hoffset] at hwalk
      cases hwalk
      exact ⟨[], .last (Nat.le_of_not_lt hoffset), (List.append_nil _).symm⟩

lemma walksInside_iff (madt : Madt) : madt.WalksInside ↔ madt.WellFormed := by
  constructor
  · rintro ⟨fuel, entries, hyielded, hinside, -⟩
    obtain ⟨entries, hentries, -⟩ := exists_entriesFrom [] entries hyielded hinside
    exact ⟨entries, hentries⟩
  · exact walksInside_of_wellFormed

end Madt

/-! ## Looking into the MCFG -/

namespace Mcfg

/-- The lookups read inside the table only, and the allocations that are counted lie there. -/
def LooksInside (mcfg : Mcfg) : Prop :=
  (∀ segment bus, ∃ found, mcfg.find segment bus = .ok found) ∧
    ∀ i < mcfg.allocationCount, allocation i + kAllocationSize ≤ mcfg.length

variable {mcfg : Mcfg}

lemma exists_isAt {start : Nat} (h : start + kAllocationSize ≤ mcfg.length) (segment : UInt16)
    (bus : UInt8) : ∃ found, mcfg.isAt start segment bus = .ok found := by
  have hload : ∀ i < kAllocationSize,
      mcfg.load (start + i) = .ok (mcfg.memory (start + i)) := by
    intro i hi
    exact load_eq (Nat.lt_of_lt_of_le (Nat.add_lt_add_left hi start) h)
  rw [isAt, hload 8 (by decide), hload 9 (by decide), ok_bind, ok_bind]
  split
  · rw [containsBus, hload 10 (by decide), hload 11 (by decide), ok_bind]
    split
    · exact ⟨_, rfl⟩
    · exact ⟨_, rfl⟩
  · exact ⟨_, rfl⟩

lemma exists_findFrom (segment : UInt16) (bus : UInt8) (rounds i : Nat)
    (h : ∀ j < i + rounds, allocation j + kAllocationSize ≤ mcfg.length) :
    ∃ found, mcfg.findFrom segment bus rounds i = .ok found := by
  induction rounds generalizing i with
  | zero => exact ⟨none, rfl⟩
  | succ rounds ih =>
    obtain ⟨isHere, hhere⟩ := exists_isAt (h i (by omega)) segment bus
    obtain ⟨found, hfound⟩ := ih (i + 1) fun j hj => h j (by omega)
    rw [findFrom, hhere, ok_bind]
    split
    · exact ⟨_, rfl⟩
    · exact ⟨found, hfound⟩

lemma allocation_inside (h : kSize ≤ mcfg.length) {i : Nat} (hi : i < mcfg.allocationCount) :
    allocation i + kAllocationSize ≤ mcfg.length := by
  have hlength := mcfg.length_lt
  rw [allocationCount, wrapSub_of_le h (by omega), Nat.lt_div_iff_mul_lt (by decide)] at hi
  rw [allocation]
  simp only [kSize, kAllocationSize] at h hi ⊢
  omega

lemma allocationCount_pos (h : mcfg.length < kSize) : 0 < mcfg.allocationCount := by
  have hcases := @wrapSub_cases (2 ^ 64) mcfg.length kSize (by simp only [kSize] at h; omega)
    (by decide)
  rw [allocationCount]
  refine Nat.div_pos ?_ (by decide)
  simp only [kSize, kAllocationSize] at h hcases ⊢
  omega

lemma looksInside_iff (mcfg : Mcfg) : mcfg.LooksInside ↔ kSize ≤ mcfg.length := by
  constructor
  · rintro ⟨-, hall⟩
    by_contra hshort
    have hfirst := hall 0 (allocationCount_pos (Nat.lt_of_not_le hshort))
    rw [allocation] at hfirst
    omega
  · intro h
    refine ⟨fun segment bus => ?_, fun i hi => allocation_inside h hi⟩
    exact exists_findFrom segment bus _ 0 fun j hj => allocation_inside h (by omega)

end Mcfg

/-- The walks over the two tables stay inside them exactly if the entries of the MADT fill it and
the MCFG is not shorter than its fixed part. -/
theorem walks_inside_iff_well_formed (madt : Madt) (mcfg : Mcfg) :
    madt.WalksInside ∧ mcfg.LooksInside ↔ madt.WellFormed ∧ Mcfg.kSize ≤ mcfg.length := by
  rw [Madt.walksInside_iff, Mcfg.looksInside_iff]

def zeroLengthMadt : Madt :=
  ⟨⟨52⟩, fun _ => 0⟩

def headerMcfg : Mcfg :=
  ⟨⟨36⟩, fun _ => 0⟩

/-- A walk over the one ends after no number of rounds, and a lookup in the other reads behind it. -/
theorem corrupted_tables_left :
    ¬ zeroLengthMadt.WalksInside ∧ headerMcfg.find 0 0 = .error (.outside 52) := by
  constructor
  · rintro ⟨fuel, entries, hyielded, -⟩
    rw [Madt.yielded, Madt.begin', Madt.forEntries_of_length_zero (by decide) rfl] at hyielded
    cases hyielded
  · rfl

end Acpi
end BezOS
