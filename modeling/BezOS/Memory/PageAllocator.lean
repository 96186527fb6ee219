import BezOS.Memory.StackMappings
import BezOS.Memory.TlsfGaps

/-!
# The page allocator

`memory/page_allocator.cpp`, over the memory map of `boot.hpp`: a heap over the usable memory above
the first megabyte. A page allocator is its `mMemoryHeap`; every call has the lock while it runs.
-/

namespace BezOS

namespace boot

inductive MemoryRegionType
  | eUsable
  | eReserved
  | eAcpiReclaimable
  | eAcpiNvs
  | eBadMemory
  | eBootloaderReclaimable
  | eKernel
  | eFrameBuffer
  | eKernelRuntimeData
  | eKernelStack
  deriving DecidableEq

structure MemoryRegion where
  mType : MemoryRegionType
  mRange : AnyRange

def MemoryRegion.isUsable (region : MemoryRegion) : Bool :=
  match region.mType with
  | .eUsable | .eAcpiReclaimable | .eBootloaderReclaimable => true
  | _ => false

end boot

namespace Tlsf

open Lib List

def freeAddress (address : Nat) : HeapM Unit := do
  match ← findAllocation address with
  | some allocation => free allocation
  | none => fault .bugCheck

/-- A heap with one allocation, which can make another one. -/
lemma exists_one_allocation : ∃ h h' : TlsfHeap, Reachable [⟨0x1000, 0x2000⟩] h ∧
    ⟨⟨0, 0⟩, 0x1000, 64, true⟩ ∈ usedRegions h.regions ∧ AllocCareful h 16 64 ∧
    (HeapCall.alignedAlloc 16 64).run h = .ok h' := by
  have hany : (replayOver .ample [⟨0x1000, 0x2000⟩] (fun h call => call.isCareful [] h)
      [.malloc 64]).any (fun h => decide (⟨⟨0, 0⟩, 0x1000, 64, true⟩ ∈ usedRegions h.regions ∧
        AllocCareful h 16 64 ∧ ((HeapCall.alignedAlloc 16 64).run h).toOption.isSome)) = true := by
    decide +kernel
  obtain ⟨h, hreplay, hr, hcareful, hsome⟩ := exists_of_any _ hany
  obtain ⟨h', hrun⟩ := Option.isSome_iff_exists.1 hsome
  have hreachable := reachable_of_replay hreplay (by decide) (by decide) (by decide)
  exact ⟨h, h', hreachable, hr, hcareful, eq_ok_of_toOption hrun⟩

end Tlsf

namespace km

open boot Lib List Tlsf

def kLowMemory : Nat := 0x100000

/-- What `create` takes from a region of the map: `split` cuts what lies below `kLowMemory`. -/
def highMemory (region : MemoryRegion) : Option AnyRange :=
  if region.isUsable = false then none
  else if kLowMemory ≤ region.mRange.front then some region.mRange
  else if region.mRange.contains kLowMemory then some ⟨kLowMemory, region.mRange.back⟩
  else none

namespace PageAllocator

/-- `memory.add` with its assertion. The vector has sixteen places inline, and asks the allocator for
a buffer from the sixteenth element on. -/
def add (grows : Nat → Bool) (memory : List AnyRange) (range : AnyRange) :
    Except Fault (List AnyRange) :=
  if memory.length + 1 < 16 ∨ grows memory.length then .ok (memory ++ [range]) else .error .bugCheck

/-- The loop of `create`. -/
def gather (grows : Nat → Bool) : List MemoryRegion → List AnyRange → Except Fault (List AnyRange)
  | [], memory => .ok memory
  | region :: memmap, memory =>
    match highMemory region with
    | none => gather grows memmap memory
    | some range => do gather grows memmap (← add grows memory range)

def create (grows : Nat → Bool) (system : SystemMemory) (memmap : List MemoryRegion) :
    Except Fault (OsStatus × Option TlsfHeap) := do
  createMany system (← gather grows memmap [])

def pageAlloc (count : Nat) : HeapM (Option BlockPtr) :=
  Tlsf.alignedAlloc kPageSize (count * kPageSize % wordCount)

def reserve (range : AnyRange) : HeapM (OsStatus × Option BlockPtr) :=
  if range.isEmpty ∨ range ≠ range.alignedOut kPageSize then return (.invalidInput, none)
  else Tlsf.reserve range

/-- Only writes to the log: the call of `freeAddress` is commented out. -/
def release (_range : AnyRange) : HeapM Unit := return ()

end PageAllocator

/-- The calls of a page allocator. Those that are not named here are those of the heap. -/
inductive PageCall where
  | pageAlloc (count : Nat)
  | alignedAlloc (align size : Nat)
  | splitv (ptr : BlockPtr) (points : List Nat) (results : Results)
  | split (allocation : BlockPtr) (midpoint : Nat)
  | free (allocation : BlockPtr)
  | reserve (range : AnyRange)
  | release (range : AnyRange)

namespace PageCall

def run (h : TlsfHeap) : PageCall → Except Fault TlsfHeap
  | pageAlloc count => (PageAllocator.pageAlloc count h).map Prod.snd
  | alignedAlloc align size => (Tlsf.alignedAlloc align size h).map Prod.snd
  | splitv ptr points results => (Tlsf.splitv ptr points results h).map Prod.snd
  | split allocation midpoint => (Tlsf.split allocation midpoint h).map Prod.snd
  | free allocation => (Tlsf.free allocation h).map Prod.snd
  | reserve range => (PageAllocator.reserve range h).map Prod.snd
  | release range => (PageAllocator.release range h).map Prod.snd

/-- The call of the heap it makes. -/
def heapCall? : PageCall → Option HeapCall
  | pageAlloc count => some (.alignedAlloc kPageSize (count * kPageSize % wordCount))
  | alignedAlloc align size => some (.alignedAlloc align size)
  | splitv ptr points results => some (.splitv ptr points results)
  | split allocation midpoint => some (.split allocation midpoint)
  | free allocation => some (.free allocation)
  | reserve range =>
    if range.isEmpty ∨ range ≠ range.alignedOut kPageSize then none else some (.reserve range)
  | release _ => none

/-- A call of a user, who has the handles of all live allocations but those of the holes. -/
structure Step (kept : List BlockPtr) (h : TlsfHeap) (call : PageCall) (h' : TlsfHeap) : Prop where
  live : ∀ c ∈ call.heapCall?, ∀ b ∈ c.handle?, Live h b ∧ b ∉ kept
  careful : ∀ c ∈ call.heapCall?, c.Careful h
  run : call.run h = .ok h'

variable {h h' : TlsfHeap} {kept : List BlockPtr} {call : PageCall} {range : AnyRange}

lemma run_eq (h : TlsfHeap) (call : PageCall) :
    call.run h = call.heapCall?.elim (.ok h) (HeapCall.run h) := by
  cases call with
  | reserve range =>
    rw [run, heapCall?, PageAllocator.reserve]
    split <;> rfl
  | _ => rfl

lemma Step.keeps (hstep : Step kept h call h') (hw : WellformedOver range h) :
    WellformedOver range h' ∧ ∀ r ∈ usedRegions h.regions,
      (r.block ∈ kept ∨ ∀ c ∈ call.heapCall?, c.handle? ≠ some r.block) →
        r ∈ usedRegions h'.regions := by
  obtain ⟨hlive, hcareful, hrun⟩ := hstep
  rw [run_eq] at hrun
  cases hcall : call.heapCall? with
  | none =>
    rw [hcall] at hrun
    cases hrun
    exact ⟨hw, fun r hr _ => hr⟩
  | some c =>
    rw [hcall] at hrun
    have hstep : HeapCall.Step kept h c h' := ⟨⟨hlive c hcall, hrun⟩, hcareful c hcall⟩
    refine ⟨hstep.wellformedOver hw, fun r hr hother => ?_⟩
    rcases hother with hblock | hhandle
    · exact hstep.kept hw hr hblock
    · obtain ⟨⟨lists, hw⟩, -⟩ := hw
      obtain ⟨rs', lists', hw', -, hused⟩ := hstep.effect hw
      rw [hw'.repr.regions_eq]
      exact hused r hr (hhandle c rfl)

end PageCall

/-! ## The memory that is handed out -/

section

variable {memmap : List MemoryRegion} {grows : Nat → Bool} {memory : List AnyRange}
  {region : MemoryRegion} {range : AnyRange} {a : Nat} {h h0 : TlsfHeap}

/-- What is taken of a usable region is what of it is not low memory. -/
structure Taken (region : MemoryRegion) (range : AnyRange) : Prop where
  usable : region.isUsable = true
  high : kLowMemory ≤ range.front
  front_le : region.mRange.front ≤ range.front
  front_eq : range.front = kLowMemory ∨ range.front = region.mRange.front
  back_eq : range.back = region.mRange.back

lemma taken_of_highMemory (hrange : highMemory region = some range) : Taken region range := by
  simp only [highMemory, AnyRange.contains] at hrange
  constructor <;> grind

lemma exists_highMemory : (∃ range ∈ memmap.filterMap highMemory, range.contains a) ↔
    kLowMemory ≤ a ∧ ∃ region ∈ memmap, region.isUsable = true ∧ region.mRange.contains a := by
  simp only [mem_filterMap, AnyRange.contains]
  constructor
  · rintro ⟨range, ⟨region, hregion, hrange⟩, ha⟩
    obtain ⟨husable, hhigh, hfront, -, hback⟩ := taken_of_highMemory hrange
    exact ⟨by omega, region, hregion, husable, by omega⟩
  · rintro ⟨hlow, region, hregion, husable, ha⟩
    cases hrange : highMemory region with
    | some range =>
      obtain ⟨-, -, -, hfront, hback⟩ := taken_of_highMemory hrange
      exact ⟨range, ⟨region, hregion, hrange⟩, by omega⟩
    | none =>
      -- a usable region that is left out ends before the first megabyte does
      simp only [highMemory, AnyRange.contains] at hrange
      grind

/-- What firmware promises of a memory map: its usable regions come in order, and apart. -/
structure UsableApart (memmap : List MemoryRegion) : Prop where
  positive : ∀ region ∈ memmap, region.isUsable = true → region.mRange.front < region.mRange.back
  apart : memmap.Pairwise fun a b => a.isUsable = true → b.isUsable = true →
    a.mRange.back ≤ b.mRange.front

lemma UsableApart.ranges (hmap : UsableApart memmap) :
    Ordered (memmap.filterMap highMemory) ∧ Tlsf.Disjoint (memmap.filterMap highMemory) := by
  have hpositive : ∀ range ∈ memmap.filterMap highMemory, range.front < range.back := by
    intro range hmem
    obtain ⟨region, hregion, hrange⟩ := mem_filterMap.1 hmem
    have hpos := hmap.positive region hregion (taken_of_highMemory hrange).usable
    simp only [highMemory, AnyRange.contains] at hrange
    grind
  have hapart : (memmap.filterMap highMemory).Pairwise fun a b => a.back ≤ b.front := by
    refine hmap.apart.filterMap highMemory fun a b hab x hx y hy => ?_
    have ha := taken_of_highMemory hx
    have hb := taken_of_highMemory hy
    calc x.back = a.mRange.back := ha.back_eq
      _ ≤ b.mRange.front := hab ha.usable hb.usable
      _ ≤ y.front := hb.front_le
  constructor
  · refine ⟨Pairwise.isChain (hapart.imp_of_mem fun ha _ hab => ?_), hpositive⟩
    exact Nat.le_trans (Nat.le_of_lt (hpositive _ ha)) hab
  · exact hapart.imp fun hab (hmeets : AnyRange.Meets _ _) => Nat.not_lt.2 hab hmeets.2

lemma gather_eq {ranges : List AnyRange}
    (hgather : PageAllocator.gather grows memmap memory = .ok ranges) :
    ranges = memory ++ memmap.filterMap highMemory := by
  induction memmap generalizing memory with
  | nil =>
    cases hgather
    exact (append_nil _).symm
  | cons region memmap ih =>
    rw [PageAllocator.gather] at hgather
    rw [filterMap_cons]
    cases hrange : highMemory region with
    | none =>
      rw [hrange] at hgather
      exact ih hgather
    | some range =>
      rw [hrange] at hgather
      obtain ⟨more, hadd, hgather⟩ := bind_eq_ok.1 hgather
      rw [PageAllocator.add] at hadd
      split at hadd
      · cases hadd
        simpa using ih hgather
      · cases hadd

/-- A block that holds the byte, and none of those that `create` keeps for the holes. -/
def Served (h0 h : TlsfHeap) (a : Nat) (r : Region) : Prop :=
  r ∈ h.regions ∧ r.block ∉ gapBlocks h0 ∧ r.offset ≤ a ∧ a < r.offset + r.size

lemma existsUnique_served {ranges : List AnyRange} (hb : Built ranges h0)
    (hd : Tlsf.Disjoint ranges) (hw : WellformedOver (combinedInterval ranges) h)
    (hkept : ∀ r ∈ usedRegions h0.regions, r ∈ usedRegions h.regions) :
    (∃! r, Served h0 h a r) ↔ ∃ range ∈ ranges, range.contains a := by
  have hgaps : GapsKept ranges (gapBlocks h0) h := by
    refine hw.clear fun hole hmem => ?_
    obtain ⟨r, hr, hbounds⟩ := hb.held hole hmem
    exact ⟨r, hkept r hr, block_mem hr, hbounds⟩
  obtain ⟨⟨lists, hw⟩, hsize⟩ := hw
  obtain ⟨rs, lists0, hw0, -, hlive⟩ := hb.wellformed
  rw [← hw0.repr.regions_eq] at hlive
  obtain ⟨range, ranges, rfl⟩ := exists_cons_of_ne_nil hb.nonempty
  have hfront := (combinedInterval_bounds hb.ordered.front_le).1
  have hback := (combinedInterval_bounds hb.ordered.front_le).2 range (by simp)
  have hpos := hb.ordered.positive range (by simp)
  have hend : (combinedInterval (range :: ranges)).front + h.mSize =
      (combinedInterval (range :: ranges)).back := by
    rw [hsize, AnyRange.size]
    omega
  rw [mem_ranges_iff hb.ordered hd, ← hfront]
  constructor
  · rintro ⟨r, ⟨hr, hblock, hbounds⟩, -⟩
    have hin := hw.tiling.bounds (piece_mem hr)
    simp only [Region.piece] at hin
    refine ⟨by omega, by omega, fun hole hmem hhole => ?_⟩
    have hclear := hgaps.clear r hr hblock hole hmem
    simp only [AnyRange.contains] at hhole
    omega
  · rintro ⟨hlow, hhigh, hholes⟩
    obtain ⟨p, hp, hbounds⟩ := hw.tiling.tiles.exists_at hlow
      (by rw [hw.tiling.extent, hend]; exact hhigh)
    obtain ⟨r, hr, rfl⟩ := mem_map.1 hp
    simp only [Region.piece] at hbounds
    refine ⟨r, ⟨hr, fun hgap => ?_, hbounds⟩, fun q hq => ?_⟩
    · -- a block of a hole is where the hole is, which does not contain the byte
      obtain ⟨g, hg, hblock⟩ := mem_map.1 hgap
      obtain rfl : g = r :=
        inj_on_of_nodup_map hw.repr.blocks_nodup (mem_filter.1 (hkept g hg)).1 hr hblock
      have hpiece := piece_mem hg
      rw [hlive] at hpiece
      obtain ⟨hole, hmem, heq⟩ := mem_map.1 hpiece
      simp only [Region.piece, usedPiece, Piece.mk.injEq] at heq
      exact hholes hole hmem ⟨by omega, by omega⟩
    · by_contra hne
      have hapart := hw.toFormed.apart hq.1 hr hne
      have hbounds' := hq.2.2
      omega

end

/-- A region across the first megabyte, the kernel, and memory behind it. -/
def bootMap : List MemoryRegion :=
  [⟨.eUsable, 0xF0000, 0x110000⟩, ⟨.eKernel, 0x110000, 0x120000⟩,
    ⟨.eAcpiReclaimable, 0x120000, 0x140000⟩]

end km
end BezOS
