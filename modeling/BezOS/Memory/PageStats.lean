import Mathlib.Algebra.BigOperators.Group.List.Basic
import Mathlib.Tactic.Ring
import BezOS.Memory.PageRequests

/-!
# What the statistics of page tables count

`PageTables::stats` walks over the entries of the root, and finds the table of every loop below by
the entry of the root. So the loops over page directories and page tables go over the table one
level below the root once more: what they count is a product.
-/

namespace BezOS
namespace km
namespace PageTables

open List

variable {s : PageTables} {table : Nat} {stats : PageTableStats} {l : List (BitVec 9)}

/-! ## What there is to count -/

def presentEntries (s : PageTables) (table : Nat) : List (BitVec 9) :=
  indices.filter fun i => (s.tables table i).present

def tableEntries (s : PageTables) (table : Nat) : List (BitVec 9) :=
  (s.presentEntries table).filter fun i => !(s.tables table i).isLarge

def pdpts (s : PageTables) : List Nat :=
  (s.presentEntries s.pml4).filterMap fun i => s.asVirtual (s.address (s.tables s.pml4 i))

def tablesBelow (s : PageTables) (tables : List Nat) : List Nat :=
  tables.flatMap fun t =>
    (s.tableEntries t).filterMap fun i => s.asVirtual (s.address (s.tables t i))

def entriesOf (s : PageTables) (tables : List Nat) : Nat :=
  (tables.map fun t => (s.presentEntries t).length).sum

def reachableEntries (s : PageTables) : PageTableStats where
  pml4Entries := (s.presentEntries s.pml4).length
  pdptEntries := s.entriesOf s.pdpts
  pdEntries := s.entriesOf (s.tablesBelow s.pdpts)
  ptEntries := s.entriesOf (s.tablesBelow (s.tablesBelow s.pdpts))

def StatsCount (s : PageTables) : Prop := s.stats = some s.reachableEntries
  deriving Decidable

/-- The entries of the root lead to tables, and those tables, taken for the tables of the levels
below as well, have as many entries as these. -/
structure CountedAlike (s : PageTables) : Prop where
  resolve : ∀ i ∈ s.presentEntries s.pml4,
    (s.asVirtual (s.address (s.tables s.pml4 i))).isSome
  pdEntries : s.entriesOf (s.tablesBelow s.pdpts) =
    (s.pdpts.map fun t => (s.tableEntries t).length * (s.presentEntries t).length).sum
  ptEntries : s.entriesOf (s.tablesBelow (s.tablesBelow s.pdpts)) =
    (s.pdpts.map fun t =>
      (s.tableEntries t).length * ((s.tableEntries t).length * (s.presentEntries t).length)).sum

/-! ## What is counted -/

def PageTableStats.add (stats more : PageTableStats) : PageTableStats where
  pml4Entries := stats.pml4Entries + more.pml4Entries
  pdptEntries := stats.pdptEntries + more.pdptEntries
  pdEntries := stats.pdEntries + more.pdEntries
  ptEntries := stats.ptEntries + more.ptEntries

def PageTableStats.times (n : Nat) (stats : PageTableStats) : PageTableStats where
  pml4Entries := n * stats.pml4Entries
  pdptEntries := n * stats.pdptEntries
  pdEntries := n * stats.pdEntries
  ptEntries := n * stats.ptEntries

lemma foldlM_entries {step : PageTableStats → BitVec 9 → Option PageTableStats}
    (s : PageTables) (table : Nat) (each below : PageTableStats)
    (hstep : ∀ stats i, step stats i = some
      (if ¬ (s.tables table i).present then stats
        else if (s.tables table i).isLarge then stats.add each else (stats.add each).add below))
    (stats : PageTableStats) :
    indices.foldlM step stats = some
      ((stats.add (each.times (s.presentEntries table).length)).add
        (below.times (s.tableEntries table).length)) := by
  rw [tableEntries, presentEntries]
  generalize indices = l
  induction l generalizing stats with
  | nil => simp [PageTableStats.add, PageTableStats.times]
  | cons i l ih =>
    rw [foldlM_cons, hstep, Option.bind_eq_bind, Option.bind_some, ih, Option.some.injEq]
    by_cases hp : (s.tables table i).present
    · rw [if_neg (not_not.2 hp),
        filter_cons_of_pos (p := fun i => (s.tables table i).present) hp]
      by_cases hl : (s.tables table i).isLarge
      · rw [if_pos hl, filter_cons_of_neg (by simp [hl])]
        simp only [PageTableStats.add, PageTableStats.times, length_cons,
          PageTableStats.mk.injEq]
        refine ⟨?_, ?_, ?_, ?_⟩ <;> ring
      · rw [if_neg hl, filter_cons_of_pos (by simp [hl])]
        simp only [PageTableStats.add, PageTableStats.times, length_cons,
          PageTableStats.mk.injEq]
        refine ⟨?_, ?_, ?_, ?_⟩ <;> ring
    · rw [if_pos hp, filter_cons_of_neg (p := fun i => (s.tables table i).present) hp]

/-- What the loops of an entry of the root count, when the entry leads to `t`. -/
def countedFor (s : PageTables) (t : Nat) : PageTableStats where
  pml4Entries := 1
  pdptEntries := (s.presentEntries t).length
  pdEntries := (s.tableEntries t).length * (s.presentEntries t).length
  ptEntries :=
    (s.tableEntries t).length * ((s.tableEntries t).length * (s.presentEntries t).length)

def countEntry (s : PageTables) (stats : PageTableStats) (i : BitVec 9) : Option PageTableStats :=
  let e := s.tables s.pml4 i
  if ¬ e.present then some stats
  else (s.asVirtual (s.address e)).map fun t => stats.add (s.countedFor t)

lemma indices_eq_cons : ∃ l, indices = 0#9 :: l :=
  ⟨_, by rw [indices, range_succ_eq_map, map_cons]⟩

lemma stats_eq : s.stats = indices.foldlM s.countEntry ⟨0, 0, 0, 0⟩ := by
  rw [stats]
  refine congrArg (fun step => foldlM step (⟨0, 0, 0, 0⟩ : PageTableStats) indices)
    (funext₂ fun stats i => ?_)
  rw [countEntry]
  by_cases hp : (s.tables s.pml4 i).present
  case neg => simp [hp]
  simp only [hp, not_true, if_false]
  cases ht : s.asVirtual (s.address (s.tables s.pml4 i)) with
  | none =>
    -- the first round of the loop below stops
    obtain ⟨l, hl⟩ := indices_eq_cons
    rw [hl, foldlM_cons]
    rfl
  | some t =>
    -- every loop below is about the entries of `t`
    simp only [Option.bind_eq_bind, Option.bind_some]
    rw [foldlM_entries s t ⟨0, 1, 0, 0⟩
      ⟨0, 0, (s.presentEntries t).length, (s.tableEntries t).length * (s.presentEntries t).length⟩]
    · simp [PageTableStats.add, PageTableStats.times, countedFor]
    intro stats j
    by_cases hj : (s.tables t j).present
    case neg => simp [hj]
    by_cases hlj : (s.tables t j).isLarge
    case pos => simp [hj, hlj, PageTableStats.add]
    simp only [hj, hlj, not_true, if_false, Bool.false_eq_true]
    rw [foldlM_entries s t ⟨0, 0, 1, 0⟩ ⟨0, 0, 0, (s.presentEntries t).length⟩]
    · simp [PageTableStats.add, PageTableStats.times]
    intro stats k
    by_cases hk : (s.tables t k).present
    case neg => simp [hk]
    by_cases hlk : (s.tables t k).isLarge
    case pos => simp [hk, hlk, PageTableStats.add]
    simp only [hk, hlk, not_true, if_false, Bool.false_eq_true]
    rw [foldlM_entries s t ⟨0, 0, 0, 1⟩ ⟨0, 0, 0, 0⟩]
    · simp [PageTableStats.add, PageTableStats.times]
    intro stats l
    by_cases hl : (s.tables t l).present <;> simp [hl, PageTableStats.add]

lemma isSome_of_foldlM {stats result : PageTableStats}
    (h : l.foldlM s.countEntry stats = some result) :
    ∀ i ∈ l, (s.tables s.pml4 i).present →
      (s.asVirtual (s.address (s.tables s.pml4 i))).isSome := by
  induction l generalizing stats with
  | nil => simp
  | cons i l ih =>
    obtain ⟨next, hstep, hrest⟩ := Option.bind_eq_some_iff.1 h
    intro j hj hp
    rcases mem_cons.1 hj with rfl | hj
    · rw [countEntry, if_neg (not_not.2 hp)] at hstep
      obtain ⟨t, ht, -⟩ := Option.map_eq_some_iff.1 hstep
      rw [ht]
      rfl
    · exact ih hrest j hj hp

/-- The tables that the entries `l` of the root lead to. -/
def pdptsOf (s : PageTables) (l : List (BitVec 9)) : List Nat :=
  (l.filter fun i => (s.tables s.pml4 i).present).filterMap
    fun i => s.asVirtual (s.address (s.tables s.pml4 i))

lemma foldlM_countEntry (stats : PageTableStats) (h : ∀ i ∈ l, (s.tables s.pml4 i).present →
      (s.asVirtual (s.address (s.tables s.pml4 i))).isSome) :
    l.foldlM s.countEntry stats = some (stats.add
      { pml4Entries := (l.filter fun i => (s.tables s.pml4 i).present).length
        pdptEntries := s.entriesOf (s.pdptsOf l)
        pdEntries := ((s.pdptsOf l).map fun t =>
          (s.tableEntries t).length * (s.presentEntries t).length).sum
        ptEntries := ((s.pdptsOf l).map fun t => (s.tableEntries t).length *
          ((s.tableEntries t).length * (s.presentEntries t).length)).sum }) := by
  induction l generalizing stats with
  | nil => rfl
  | cons i l ih =>
    have hrest := fun stats => ih stats fun j hj => h j (mem_cons_of_mem _ hj)
    rw [foldlM_cons, countEntry]
    by_cases hp : (s.tables s.pml4 i).present
    · obtain ⟨t, ht⟩ := Option.isSome_iff_exists.1 (h i mem_cons_self hp)
      have hfilter : ((i :: l).filter fun i => (s.tables s.pml4 i).present) =
          i :: l.filter fun i => (s.tables s.pml4 i).present :=
        filter_cons_of_pos hp
      have hpdpts : s.pdptsOf (i :: l) = t :: s.pdptsOf l := by
        rw [pdptsOf, hfilter]
        exact filterMap_cons_some ht
      rw [if_neg (not_not.2 hp), ht, Option.map_some, Option.bind_eq_bind, Option.bind_some, hrest,
        hpdpts, hfilter]
      simp only [PageTableStats.add, countedFor, entriesOf, map_cons, sum_cons,
        length_cons, Option.some.injEq, PageTableStats.mk.injEq]
      refine ⟨?_, ?_, ?_, ?_⟩ <;> ring
    · have hfilter : ((i :: l).filter fun i => (s.tables s.pml4 i).present) =
          l.filter fun i => (s.tables s.pml4 i).present :=
        filter_cons_of_neg hp
      have hpdpts : s.pdptsOf (i :: l) = s.pdptsOf l := by
        rw [pdptsOf, hfilter, pdptsOf]
      rw [if_pos hp, Option.bind_eq_bind, Option.bind_some, hrest, hpdpts, hfilter]

lemma mem_indices (i : BitVec 9) : i ∈ indices := by
  rw [indices, mem_map]
  exact ⟨i.toNat, mem_range.2 i.isLt, BitVec.ofNat_toNat ..⟩

/-- The statistics are right for the tables where what they take for the entries of lower levels
is as many as there are. -/
theorem statsCount_iff : s.StatsCount ↔ s.CountedAlike := by
  rw [StatsCount, stats_eq]
  constructor
  · intro h
    have hresolve := isSome_of_foldlM h
    rw [foldlM_countEntry _ hresolve, Option.some.injEq] at h
    have hpd := congrArg PageTableStats.pdEntries h
    have hpt := congrArg PageTableStats.ptEntries h
    simp only [PageTableStats.add, reachableEntries, Nat.zero_add] at hpd hpt
    exact ⟨fun i hi => hresolve i (mem_indices i) (mem_filter.1 hi).2, hpd.symm, hpt.symm⟩
  · rintro ⟨hresolve, hpd, hpt⟩
    rw [foldlM_countEntry _ fun i hi hp => hresolve i (mem_filter.2 ⟨hi, hp⟩)]
    simp only [PageTableStats.add, reachableEntries, Nat.zero_add, hpd, hpt]
    rfl

/-- Two pages in one page table: the statistics count one entry at each level. -/
theorem not_statsCount_of_two_pages : ∃ s, Reachable s ∧ ¬ s.StatsCount :=
  exists_reachable 0x100000 0x100000 16 [.mapData 0x400000 0x400000 0x2000] (by decide +kernel)

end PageTables
end km
end BezOS
