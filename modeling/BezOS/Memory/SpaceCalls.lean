import BezOS.Memory.AddressSpace

/-!
# Calls on an address space

An address space is made with an unlocked lock and an empty heap, and is then called, one call
after another. Every call that returns leaves the lock free and is, for the heap, a run of its own
calls with live handles; so the heap of an address space is a reachable one as long as the calls
stay off the paths on which the heap itself goes wrong.
-/

namespace BezOS
namespace km

open Lib Tlsf HeapCall

inductive SpaceCall
  | reserve (range : AnyRange)
  | map (memory : AnyRange) (flags : PageFlags) (type : MemoryType)
  | mapStack (memory : AnyRange) (flags : PageFlags)
  | unmap (range : AnyRange)
  | unmapAllocation (allocation : BlockPtr)
  | unmapStack (mapping : StackMapping)

namespace AddressSpace

variable {τ α β : Type} {pt : PageTableCalls τ} {s s' : AddressSpace τ} {h h' : TlsfHeap}
  {b : BlockPtr} {range : AnyRange} {g : α → SpaceM τ β} {body m : SpaceM τ α} {call : HeapM α}
  {found : Option BlockPtr} {a : α} {results : Results}

/-! ## Calls in steps -/

lemma bind_run (hm : m s = .ok (a, s')) :
    (m >>= g) s = g a s' := by
  show (m s >>= fun x => g x.1 x.2) = _
  rw [hm]
  rfl

lemma bind_error {e : Fault} (hm : m s = .error e) :
    (m >>= g) s = .error e := by
  show (m s >>= fun x => g x.1 x.2) = _
  rw [hm]
  rfl

lemma bind_ok {y : β × AddressSpace τ} (hrun : (m >>= g) s = .ok y) :
    ∃ a s1, m s = .ok (a, s1) ∧ g a s1 = .ok y := by
  cases hm : m s with
  | error e =>
    rw [bind_error hm] at hrun
    cases hrun
  | ok x =>
    rw [bind_run hm] at hrun
    exact ⟨x.1, x.2, rfl, hrun⟩

lemma heap_run (hcall : call s.mVmemHeap = .ok (a, h)) :
    heap call s = .ok (a, { s with mVmemHeap := h }) := by
  rw [heap, hcall]

lemma heap_error {e : Fault} (hcall : call s.mVmemHeap = .error e) :
    heap call s = .error e := by
  rw [heap, hcall]

lemma heap_ok (hrun : heap call s = .ok (a, s')) :
    ∃ h, call s.mVmemHeap = .ok (a, h) ∧ s' = { s with mVmemHeap := h } := by
  cases hcall : call s.mVmemHeap with
  | error e =>
    rw [heap_error hcall] at hrun
    cases hrun
  | ok x =>
    rw [heap_run hcall] at hrun
    cases hrun
    exact ⟨x.2, rfl, rfl⟩

lemma tables_run (call : τ → OsStatus × τ) : tables call s =
    .ok ((call s.mTables).1, { s with mTables := (call s.mTables).2 }) := rfl

lemma blockRange_run {k : TlsfBlock} (hb : h.blocks b = some k) :
    blockRange b h = .ok (⟨k.offset, wrapAdd wordCount k.offset k.size⟩, h) := by
  rw [blockRange, Tlsf.bind_run (deref_run hb)]
  rfl

lemma blockRange_ok (hrun : heap (blockRange b) s = .ok (range, s')) : s = s' := by
  obtain ⟨h, hcall, rfl⟩ := heap_ok hrun
  cases hb : s.mVmemHeap.blocks b with
  | none =>
    rw [blockRange, Tlsf.bind_error (deref_error hb)] at hcall
    cases hcall
  | some k =>
    rw [blockRange_run hb] at hcall
    cases hcall
    rfl

lemma getResult_ok {i : Nat} (hrun : heap (getResult results i) s = .ok (b, s')) : s = s' := by
  obtain ⟨h, hcall, rfl⟩ := heap_ok hrun
  unfold getResult at hcall
  generalize results[i]? = o at hcall
  rcases o with _ | _ | c
  · cases hcall
  · cases hcall
  · cases hcall
    rfl

lemma lock_run (hlock : s.mLock = false) : lock s = .ok ((), { s with mLock := true }) :=
  if_neg (by simp [hlock])

lemma lock_error (hlock : s.mLock = true) : lock s = .error .deadlock := if_pos hlock

lemma locked_run (hlock : s.mLock = false) : locked body s =
    (body { s with mLock := true }).map fun x => (x.1, { x.2 with mLock := false }) := by
  rw [locked, bind_run (lock_run hlock)]
  cases hbody : body { s with mLock := true } with
  | error e =>
    rw [bind_error hbody]
    rfl
  | ok x =>
    rw [bind_run hbody]
    rfl

lemma locked_ok (hrun : locked body s = .ok (a, s')) (hlock : s.mLock = false) :
    ∃ s1, body { s with mLock := true } = .ok (a, s1) ∧ s' = { s1 with mLock := false } := by
  rw [locked_run hlock, map_eq_ok] at hrun
  obtain ⟨⟨a', s1⟩, hbody, heq⟩ := hrun
  cases heq
  exact ⟨s1, hbody, rfl⟩

lemma locked_error (hlock : s.mLock = true) :
    locked body s = .error .deadlock := by
  rw [locked, bind_error (lock_error hlock)]

lemma dropStack_error (pt : PageTableCalls τ) (hlock : s.mLock = true) (b : BlockPtr) :
    ∃ e, dropStack pt b s = .error e := by
  rw [dropStack]
  cases hrange : heap (blockRange b) s with
  | error e =>
    exact ⟨e, bind_error (by rw [unmapAllocation, bind_error hrange])⟩
  | ok x =>
    obtain ⟨range, s1⟩ := x
    rw [← blockRange_ok hrange] at hrange
    by_cases hstatus : (pt.unmap range s.mTables).1 = .success
    · refine ⟨.deadlock, bind_error ?_⟩
      rw [unmapAllocation, bind_run hrange, bind_run (tables_run _), if_neg (not_not.2 hstatus)]
      exact bind_error (locked_error hlock)
    · have hunmap : unmapAllocation pt b s = .ok ((pt.unmap range s.mTables).1,
          { s with mTables := (pt.unmap range s.mTables).2 }) := by
        rw [unmapAllocation, bind_run hrange, bind_run (tables_run _), if_pos hstatus]
        rfl
      refine ⟨.bugCheck, ?_⟩
      rw [bind_run hunmap, assertSuccess]
      exact heap_error (check_error (by simpa using hstatus))

/-! ## Calls of the heap -/

def Calls (h h' : TlsfHeap) : Prop := ∃ calls, Run (HeapCall.Step []) h calls h'

namespace Calls

variable {h'' : TlsfHeap} {found : Option BlockPtr} {align size : Nat}

lemma refl (h : TlsfHeap) : Calls h h := ⟨[], .nil h⟩

lemma trans (h1 : Calls h h') (h2 : Calls h' h'') : Calls h h'' := by
  obtain ⟨calls1, hrun1⟩ := h1
  obtain ⟨calls2, hrun2⟩ := h2
  exact ⟨calls1 ++ calls2, hrun1.append hrun2⟩

lemma wellformed (hc : Calls h h') (hw : WellformedOver range h) : WellformedOver range h' := by
  obtain ⟨calls, hrun⟩ := hc
  exact hrun.invariant (fun _ _ _ hw hstep => hstep.wellformedOver hw) hw

lemma alloc (hcareful : AllocCareful h align size)
    (hrun : alignedAlloc align size h = .ok (found, h')) : Calls h h' := by
  refine ⟨[.alignedAlloc align size], .single ⟨⟨by simp [handle?], ?_⟩, hcareful⟩⟩
  rw [HeapCall.run, hrun]
  rfl

lemma reserve {a : OsStatus × Option BlockPtr} (hcareful : ReserveCareful h range)
    (hrun : Tlsf.reserve range h = .ok (a, h')) : Calls h h' := by
  refine ⟨[.reserve range], .single ⟨⟨by simp [handle?], ?_⟩, hcareful⟩⟩
  rw [HeapCall.run, hrun]
  rfl

lemma splitv {a : OsStatus × Results} {points : List Nat} (hlive : Live h b)
    (hrun : Tlsf.splitv b points results h = .ok (a, h')) : Calls h h' := by
  refine ⟨[.splitv b points results], .single ⟨⟨by simpa [handle?] using hlive, ?_⟩,
    trivial⟩⟩
  rw [HeapCall.run, hrun]
  rfl

lemma free (hw : WellformedOver range h) (hrun : Tlsf.free b h = .ok ((), h')) : Calls h h' := by
  have hlive : Live h b := by
    obtain ⟨⟨lists, hw⟩, -⟩ := hw
    by_contra hnot
    obtain ⟨e, herror⟩ := free_not_live hw.repr fun r hr hused heq => hnot ⟨r, hr, hused, heq⟩
    rw [hrun] at herror
    cases herror
  refine ⟨[.free b], .single ⟨⟨by simpa [handle?] using hlive, ?_⟩, trivial⟩⟩
  rw [HeapCall.run, hrun]
  rfl

lemma freeAll {blocks : List BlockPtr} (hw : WellformedOver range h)
    (hrun : Tlsf.freeAll blocks h = .ok ((), h')) : Calls h h' := by
  induction blocks generalizing h with
  | nil =>
    cases hrun
    exact .refl _
  | cons block blocks ih =>
    obtain ⟨⟨⟩, h1, hfree, hrun⟩ := Tlsf.bind_ok hrun
    have hcalls := Calls.free hw hfree
    exact hcalls.trans (ih (hcalls.wellformed hw) hrun)

end Calls

lemma region_of_alloc {align size : Nat} (hw : WellformedOver range h)
    (hcareful : AllocCareful h align size)
    (hrun : alignedAlloc align size h = .ok (some b, h')) :
    ∃ r ∈ h'.regions, r.block = b ∧ r.used = true ∧ r.size = size := by
  obtain ⟨⟨lists, hw⟩, -⟩ := hw
  rcases alignedAlloc_run hw hcareful hrun with ⟨hnone, -⟩ | ⟨b', h1, hsome, rfl, hserved⟩
  · cases hnone
  · cases hsome
    obtain ⟨l, r, t, rs', lists', -, -, -, -, -, hw', hlive⟩ := hserved.cut
    have hmem : (⟨b, Tlsf.roundup r.offset align, size, true⟩ : Region) ∈ usedRegions rs' := by
      rw [hlive]
      simp
    obtain ⟨hmem, hused⟩ := List.mem_filter.1 hmem
    have hf := hw'.toFormed.recount h1.mReserved (h1.mMallocCount + 1) h1.mFreeCount
    rw [← hf.repr.regions_eq] at hmem
    exact ⟨_, hmem, rfl, hused, rfl⟩

lemma live_of_alloc {align size : Nat} (hw : WellformedOver range h)
    (hcareful : AllocCareful h align size)
    (hrun : alignedAlloc align size h = .ok (some b, h')) : Live h' b := by
  obtain ⟨r, hr, hblock, hused, -⟩ := region_of_alloc hw hcareful hrun
  exact ⟨r, hr, hused, hblock⟩

lemma dropStack_stops {g : Unit → SpaceM τ α} {y : α × AddressSpace τ} (hlock : s.mLock = true) :
    (dropStack pt b >>= g) s ≠ .ok y := by
  intro hrun
  obtain ⟨⟨⟩, s1, hdrop, -⟩ := bind_ok hrun
  obtain ⟨e, herror⟩ := dropStack_error pt hlock b
  rw [hdrop] at herror
  cases herror

lemma findAllocation_ok {address : Nat} (hw : WellformedOver range h)
    (hrun : findAllocation address h = .ok (found, h')) : h' = h := by
  obtain ⟨⟨lists, hw⟩, -⟩ := hw
  have hfind := findAllocation_run hw.repr address
  rw [hrun] at hfind
  cases hfind <;> rfl

lemma find_ok {address : Nat} (hrun : heap (findAllocation address) s = .ok (found, s'))
    (hw : WellformedOver range s.mVmemHeap) : s = s' := by
  obtain ⟨h, hfind, rfl⟩ := heap_ok hrun
  rw [findAllocation_ok hw hfind]

lemma unmapParts_ok {blocks : List BlockPtr} (hrun : unmapParts pt blocks s = .ok ((), s')) :
    s'.mVmemHeap = s.mVmemHeap := by
  induction blocks generalizing s with
  | nil =>
    cases hrun
    rfl
  | cons block blocks ih =>
    obtain ⟨given, s1, hgiven, hrun⟩ := bind_ok hrun
    obtain rfl := blockRange_ok hgiven
    obtain ⟨status, s2, htables, hrun⟩ := bind_ok hrun
    cases htables
    obtain ⟨⟨⟩, s3, hassert, hrun⟩ := bind_ok hrun
    obtain ⟨h, hcheck, rfl⟩ := heap_ok hassert
    rw [ih hrun]
    rw [check] at hcheck
    split at hcheck
    · cases hcheck
      rfl
    · cases hcheck

/-! ## What a call does -/

/-- The lock is free and the heap is that of careful calls. -/
structure Serves (s s' : AddressSpace τ) : Prop where
  unlocked : s'.mLock = false
  calls : Calls s.mVmemHeap s'.mVmemHeap

section

variable (hlock : s.mLock = false) (hw : WellformedOver range s.mVmemHeap)
  {a : OsStatus × Option BlockPtr}

include hlock

lemma reserve_serves {asked : AnyRange} (hcareful : ReserveCareful s.mVmemHeap asked)
    (hrun : reserve asked s = .ok (a, s')) :
    Serves s s' := by
  unfold reserve at hrun
  split at hrun
  · obtain ⟨s1, hbody, rfl⟩ := locked_ok hrun hlock
    obtain ⟨h, hcall, rfl⟩ := heap_ok hbody
    exact ⟨rfl, .reserve hcareful hcall⟩
  · cases hrun
    exact ⟨hlock, .refl _⟩

include hw

lemma map_serves {memory : AnyRange} {flags : PageFlags} {type : MemoryType}
    (hcareful : AllocCareful s.mVmemHeap kPageSize memory.bytes)
    (hrun : map pt memory flags type s = .ok (a, s')) : Serves s s' := by
  unfold map at hrun
  split at hrun
  · obtain ⟨s1, hbody, rfl⟩ := locked_ok hrun hlock
    refine ⟨rfl, ?_⟩
    obtain ⟨found, s2, hfound, hbody⟩ := bind_ok hbody
    obtain ⟨h, halloc, rfl⟩ := heap_ok hfound
    have hcalls : Calls s.mVmemHeap h := .alloc hcareful halloc
    cases found with
    | none =>
      cases hbody
      exact hcalls
    | some vmem =>
      obtain ⟨given, s3, hgiven, hbody⟩ := bind_ok hbody
      obtain rfl := blockRange_ok hgiven
      obtain ⟨status, s4, htables, hbody⟩ := bind_ok hbody
      cases htables
      split at hbody
      · obtain ⟨⟨⟩, s5, hfree, hbody⟩ := bind_ok hbody
        obtain ⟨h2, hfree', rfl⟩ := heap_ok hfree
        cases hbody
        exact hcalls.trans (.free (hcalls.wellformed hw) hfree')
      · cases hbody
        exact hcalls
  · cases hrun
    exact ⟨hlock, .refl _⟩

variable {a : OsStatus}

lemma unmap_serves {asked : AnyRange} (hrun : unmap pt asked s = .ok (a, s')) :
    Serves s s' := by
  unfold unmap at hrun
  split at hrun
  · obtain ⟨s1, hbody, rfl⟩ := locked_ok hrun hlock
    refine ⟨rfl, ?_⟩
    obtain ⟨found, s2, hfound, hbody⟩ := bind_ok hbody
    obtain ⟨h, hfind, rfl⟩ := heap_ok hfound
    obtain rfl := findAllocation_ok hw hfind
    cases found with
    | none =>
      cases hbody
      exact .refl _
    | some allocation =>
      obtain ⟨status, s3, htables, hbody⟩ := bind_ok hbody
      cases htables
      split at hbody
      · cases hbody
        exact .refl _
      · obtain ⟨⟨⟩, s4, hfreed, hbody⟩ := bind_ok hbody
        obtain ⟨h1, hfree, rfl⟩ := heap_ok hfreed
        cases hbody
        exact .free hw hfree
  · cases hrun
    exact ⟨hlock, .refl _⟩

lemma unmapAllocation_serves (hrun : unmapAllocation pt b s = .ok (a, s')) :
    Serves s s' := by
  obtain ⟨given, s1, hgiven, hrun⟩ := bind_ok hrun
  obtain rfl := blockRange_ok hgiven
  obtain ⟨status, s2, htables, hrun⟩ := bind_ok hrun
  cases htables
  split at hrun
  · cases hrun
    exact ⟨hlock, .refl _⟩
  · obtain ⟨⟨⟩, s3, hlocked, hrun⟩ := bind_ok hrun
    obtain ⟨s4, hbody, rfl⟩ := locked_ok hlocked hlock
    obtain ⟨h1, hfree, rfl⟩ := heap_ok hbody
    cases hrun
    exact ⟨rfl, .free hw hfree⟩

lemma mapStack_serves {memory : AnyRange} {flags : PageFlags} {a : OsStatus × Results}
    (hcareful : AllocCareful s.mVmemHeap kPageSize (guardedSize memory))
    (hrun : mapStack pt memory flags s = .ok (a, s')) : Serves s s' := by
  obtain ⟨s1, hbody, rfl⟩ := locked_ok hrun hlock
  refine ⟨rfl, ?_⟩
  obtain ⟨found, s2, hfound, hbody⟩ := bind_ok hbody
  obtain ⟨h, halloc, rfl⟩ := heap_ok hfound
  have hcalls : Calls s.mVmemHeap h := .alloc hcareful halloc
  cases found with
  | none =>
    cases hbody
    exact hcalls
  | some vmem =>
    obtain ⟨given, s3, hgiven, hbody⟩ := bind_ok hbody
    obtain rfl := blockRange_ok hgiven
    obtain ⟨⟨status, results⟩, s4, hparts, hbody⟩ := bind_ok hbody
    obtain ⟨h2, hsplit, rfl⟩ := heap_ok hparts
    have hcalls := hcalls.trans (.splitv (live_of_alloc hw hcareful halloc) hsplit)
    dsimp only at hbody
    split at hbody
    · exact absurd hbody (dropStack_stops rfl)
    · obtain ⟨stack, s5, hstack, hbody⟩ := bind_ok hbody
      obtain rfl := getResult_ok hstack
      obtain ⟨mapped, s6, hmapped, hbody⟩ := bind_ok hbody
      obtain rfl := blockRange_ok hmapped
      obtain ⟨status, s7, htables, hbody⟩ := bind_ok hbody
      cases htables
      split at hbody
      · exact absurd hbody (dropStack_stops rfl)
      · cases hbody
        exact hcalls

lemma unmapStack_serves {mapping : StackMapping} (hrun : unmapStack pt mapping s = .ok (a, s')) :
    Serves s s' := by
  obtain ⟨s1, hbody, rfl⟩ := locked_ok hrun hlock
  refine ⟨rfl, ?_⟩
  obtain ⟨head, s2, hhead, hbody⟩ := bind_ok hbody
  obtain rfl := find_ok hhead hw
  cases head with
  | none =>
    cases hbody
    exact .refl _
  | some head =>
  obtain ⟨stack, s3, hstack, hbody⟩ := bind_ok hbody
  obtain rfl := find_ok hstack hw
  cases stack with
  | none =>
    cases hbody
    exact .refl _
  | some stack =>
  obtain ⟨tail, s4, htail, hbody⟩ := bind_ok hbody
  obtain rfl := find_ok htail hw
  cases tail with
  | none =>
    cases hbody
    exact .refl _
  | some tail =>
  obtain ⟨⟨⟩, s5, hparts, hbody⟩ := bind_ok hbody
  obtain ⟨⟨⟩, s6, hfreed, hbody⟩ := bind_ok hbody
  obtain ⟨h, hfree, rfl⟩ := heap_ok hfreed
  cases hbody
  rw [unmapParts_ok hparts] at hfree
  exact .freeAll hw hfree

end

/-! ## Runs -/

end AddressSpace

namespace SpaceCall

open AddressSpace

variable {τ : Type} {pt : PageTableCalls τ} {s s' : AddressSpace τ} {range : AnyRange}

def run (pt : PageTableCalls τ) : SpaceCall → SpaceM τ OsStatus
  | reserve range => do return (← AddressSpace.reserve range).1
  | map memory flags type => do return (← AddressSpace.map pt memory flags type).1
  | mapStack memory flags => do return (← AddressSpace.mapStack pt memory flags).1
  | unmap range => AddressSpace.unmap pt range
  | unmapAllocation allocation => AddressSpace.unmapAllocation pt allocation
  | unmapStack mapping => AddressSpace.unmapStack pt mapping

/-- The calls of the heap stay off the paths on which the heap goes wrong. -/
def Careful (s : AddressSpace τ) : SpaceCall → Prop
  | reserve range => ReserveCareful s.mVmemHeap range
  | map memory _ _ => AllocCareful s.mVmemHeap kPageSize memory.bytes
  | mapStack memory _ => AllocCareful s.mVmemHeap kPageSize (guardedSize memory)
  | unmap _ | unmapAllocation _ | unmapStack _ => True

instance (s : AddressSpace τ) (call : SpaceCall) : Decidable (call.Careful s) :=
  match call with
  | reserve range => inferInstanceAs (Decidable (ReserveCareful s.mVmemHeap range))
  | map memory _ _ => inferInstanceAs (Decidable (AllocCareful s.mVmemHeap kPageSize memory.bytes))
  | mapStack memory _ =>
      inferInstanceAs (Decidable (AllocCareful s.mVmemHeap kPageSize (guardedSize memory)))
  | unmap _ | unmapAllocation _ | unmapStack _ => inferInstanceAs (Decidable True)

structure Step (pt : PageTableCalls τ) (s : AddressSpace τ) (call : SpaceCall)
    (s' : AddressSpace τ) : Prop where
  careful : call.Careful s
  run : ∃ status, call.run pt s = .ok (status, s')

lemma map_fst_ok {α : Type} {m : SpaceM τ (OsStatus × α)} {status : OsStatus}
    (hrun : (do return (← m).1 : SpaceM τ OsStatus) s = .ok (status, s')) :
    ∃ a, m s = .ok ((status, a), s') := by
  obtain ⟨⟨status, a⟩, s1, hm, hrun⟩ := bind_ok hrun
  cases hrun
  exact ⟨a, hm⟩

lemma Step.serves {call : SpaceCall} (hstep : Step pt s call s') (hlock : s.mLock = false)
    (hw : WellformedOver range s.mVmemHeap) : Serves s s' := by
  obtain ⟨hcareful, status, hrun⟩ := hstep
  cases call with
  | reserve asked =>
    obtain ⟨a, hrun⟩ := map_fst_ok hrun
    exact reserve_serves hlock hcareful hrun
  | map memory flags type =>
    obtain ⟨a, hrun⟩ := map_fst_ok hrun
    exact map_serves hlock hw hcareful hrun
  | mapStack memory flags =>
    obtain ⟨a, hrun⟩ := map_fst_ok hrun
    exact mapStack_serves hlock hw hcareful hrun
  | unmap asked => exact unmap_serves hlock hw hrun
  | unmapAllocation allocation => exact unmapAllocation_serves hlock hw hrun
  | unmapStack mapping => exact unmapStack_serves hlock hw hrun

end SpaceCall

namespace AddressSpace

variable {τ : Type} {pt : PageTableCalls τ} {s : AddressSpace τ} {range : AnyRange}

def Reachable (pt : PageTableCalls τ) (range : AnyRange) (s : AddressSpace τ) : Prop :=
  ∃ s0 calls, s0.mLock = false ∧ Built [range] s0.mVmemHeap ∧ Run (SpaceCall.Step pt) s0 calls s

structure Ready (range : AnyRange) (s : AddressSpace τ) : Prop where
  unlocked : s.mLock = false
  heap : Tlsf.Reachable [range] s.mVmemHeap

lemma Ready.step {call : SpaceCall} {s' : AddressSpace τ} (hready : Ready range s)
    (hstep : SpaceCall.Step pt s call s') : Ready range s' := by
  obtain ⟨hlock, h0, calls, hb, hrun⟩ := hready
  have hw := Tlsf.Reachable.wellformedOver ⟨h0, calls, hb, hrun⟩
  obtain ⟨hunlocked, calls', hrun'⟩ := hstep.serves hlock hw
  exact ⟨hunlocked, h0, calls ++ calls', hb, hrun.append hrun'⟩

lemma Reachable.ready (hr : Reachable pt range s) : Ready range s := by
  obtain ⟨s0, calls, hlock, hb, hrun⟩ := hr
  exact hrun.invariant (fun _ _ _ hready hstep => hready.step hstep)
    ⟨hlock, s0.mVmemHeap, [], hb, .nil _⟩

lemma Ready.wellformed (hready : Ready range s) : WellformedOver range s.mVmemHeap :=
  hready.heap.wellformedOver

end AddressSpace
end km
end BezOS
