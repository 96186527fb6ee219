import BezOS.Memory.SpaceCalls
import BezOS.Memory.TlsfAllocating

/-!
# Stacks and ranges, mapped and unmapped

What `mapStack`, `unmap` and `unmapStack` leave of the heap of virtual ranges. A failed `mapStack`
gives back what it took only when it took nothing. The two unmapping calls find blocks by where
they start and free them whole, so they free what they were asked to when these blocks end where
the range does.
-/

namespace BezOS

open Lib List MemoryType PageFlags

/-! ## Freed addresses -/

namespace Tlsf

variable {h h' h'' : TlsfHeap} {S T : Nat → Prop} {range : AnyRange} {q r : Region}

/-- The addresses of `S` were in use and are free now; all others are as they were. -/
structure Frees (h : TlsfHeap) (S : Nat → Prop) (h' : TlsfHeap) : Prop where
  used : ∀ a, S a → UsedAt (pieces h.regions) a
  rest : ∀ a, UsedAt (pieces h'.regions) a ↔ UsedAt (pieces h.regions) a ∧ ¬ S a

namespace Frees

lemma trans (h1 : Frees h S h') (h2 : Frees h' T h'') : Frees h (fun a => S a ∨ T a) h'' := by
  refine ⟨fun a ha => ?_, fun a => ?_⟩
  · rcases ha with ha | ha
    · exact h1.used a ha
    · exact ((h1.rest a).1 (h2.used a ha)).1
  · rw [h2.rest, h1.rest, not_or, and_assoc]

lemma iff_of_iff (h1 : Frees h S h') : Frees h T h' ↔ ∀ a, T a ↔ S a := by
  constructor
  · intro h2 a
    have hused1 := h1.used a
    have hused2 := h2.used a
    have hrest1 := h1.rest a
    have hrest2 := h2.rest a
    tauto
  · intro hsame
    obtain rfl : T = S := funext fun a => propext (hsame a)
    exact h1

end Frees

section

variable (hw : WellformedOver range h)

include hw

lemma WellformedOver.apart (hq : q ∈ h.regions) (hr : r ∈ h.regions) (hne : q ≠ r) :
    q.offset + q.size ≤ r.offset ∨ r.offset + r.size ≤ q.offset := by
  obtain ⟨⟨lists, hw⟩, -⟩ := hw
  obtain ⟨l, t, hrs⟩ := append_of_mem hr
  have hpairs := hw.tiling.tiles.pairwise
  rw [hrs, pieces_append, pieces_cons, pairwise_append, pairwise_cons] at hpairs
  rw [hrs] at hq
  rcases mem_append.1 hq with hq | hq
  · exact .inl (hpairs.2.2 q.piece (piece_mem hq) r.piece (by simp))
  · exact .inr (hpairs.2.1.1 q.piece (piece_mem ((mem_cons.1 hq).resolve_left hne)))

lemma WellformedOver.size_pos (hr : r ∈ h.regions) (hused : r.used = true) : 0 < r.size := by
  obtain ⟨⟨lists, hw⟩, -⟩ := hw
  refine hw.packed.live_positive (p := r.piece) ?_
  rw [live_pieces]
  exact piece_mem (mem_filter.2 ⟨hr, hused⟩)

lemma WellformedOver.back_lt (hr : r ∈ h.regions) :
    r.offset + r.size < wordCount := by
  obtain ⟨⟨lists, hw⟩, -⟩ := hw
  exact hw.toFormed.back_lt hr

lemma WellformedOver.eq_of_block (hq : q ∈ h.regions) (hr : r ∈ h.regions)
    (hblock : q.block = r.block) : q = r := by
  obtain ⟨⟨lists, hw⟩, -⟩ := hw
  exact inj_on_of_nodup_map hw.repr.blocks_nodup hq hr hblock

lemma WellformedOver.eq_of_offset (hq : q ∈ h.regions) (hr : r ∈ h.regions)
    (hoffset : q.offset = r.offset) : q = r := by
  obtain ⟨⟨lists, hw⟩, -⟩ := hw
  exact hw.toFormed.eq_of_offset hr hq hoffset

lemma free_frees (hr : r ∈ h.regions) (hused : r.used = true) :
    ∃ h', free r.block h = .ok ((), h') ∧ WellformedOver range h' ∧
      Frees h r.range.contains h' ∧
      ∀ q, q ∈ usedRegions h'.regions ↔ q ∈ usedRegions h.regions ∧ q ≠ r := by
  obtain ⟨⟨lists, hwf⟩, hsize⟩ := id hw
  obtain ⟨l, t, hrs⟩ := append_of_mem hr
  rw [hrs] at hwf
  obtain ⟨h', rs', lists', hrun, hw', hlive, hsize'⟩ := free_run hwf hused
  have hregions := hw'.repr.regions_eq
  have hmem : ∀ q, q ∈ usedRegions h'.regions ↔ q ∈ usedRegions h.regions ∧ q ≠ r := by
    intro q
    rw [hregions, hlive, hrs, usedRegions_append, usedRegions_used hused]
    have hother : ∀ q ∈ l ++ t, q ≠ r := fun q hq heq => hwf.repr.other_ne hq (by rw [heq])
    simp only [mem_append, mem_cons]
    constructor
    · rintro (hq | hq)
      · exact ⟨.inl hq, hother q (by simp [(mem_filter.1 hq).1])⟩
      · exact ⟨.inr (.inr hq), hother q (by simp [(mem_filter.1 hq).1])⟩
    · rintro ⟨hq | rfl | hq, hne⟩
      · exact .inl hq
      · exact absurd rfl hne
      · exact .inr hq
  have hr' : r ∈ usedRegions h.regions := mem_filter.2 ⟨hr, hused⟩
  refine ⟨h', hrun, wellformedOver_of hw' (hsize'.trans hsize), ⟨?_, ?_⟩, hmem⟩
  · intro a ha
    exact usedAt_iff.2 ⟨r, hr', ha⟩
  · intro a
    rw [usedAt_iff, usedAt_iff]
    constructor
    · rintro ⟨q, hq, hbounds⟩
      obtain ⟨hq, hne⟩ := (hmem q).1 hq
      refine ⟨⟨q, hq, hbounds⟩, fun ha => ?_⟩
      have hapart := hw.apart (mem_filter.1 hq).1 hr hne
      simp only [Region.range, AnyRange.contains] at ha
      omega
    · rintro ⟨⟨q, hq, hbounds⟩, hnot⟩
      refine ⟨q, (hmem q).2 ⟨hq, ?_⟩, hbounds⟩
      rintro rfl
      exact hnot hbounds

lemma freeAll_gone {bs : List BlockPtr} {b : BlockPtr} (hb : b ∈ bs)
    (hgone : ∀ r ∈ usedRegions h.regions, r.block ≠ b) :
    ∃ e, freeAll bs h = .error e := by
  induction bs generalizing h with
  | nil => cases hb
  | cons c bs ih =>
    rw [freeAll]
    by_cases hlive : ∃ r ∈ usedRegions h.regions, r.block = c
    · obtain ⟨r, hr, rfl⟩ := hlive
      obtain ⟨hmem, hused⟩ := mem_filter.1 hr
      obtain ⟨h', hfree, hw', -, hrest⟩ := free_frees hw hmem hused
      have hb' := (mem_cons.1 hb).resolve_left fun heq => hgone r hr heq.symm
      obtain ⟨e, herror⟩ := ih hw' hb' fun q hq => hgone q ((hrest q).1 hq).1
      exact ⟨e, by rw [bind_run hfree, herror]⟩
    · obtain ⟨⟨lists, hw⟩, -⟩ := hw
      obtain ⟨e, herror⟩ := free_not_live hw.repr fun r hr hused heq =>
        hlive ⟨r, mem_filter.2 ⟨hr, hused⟩, heq⟩
      exact ⟨e, bind_error herror⟩

lemma freeAll_frees {parts : List Region} (hparts : ∀ r ∈ parts, r ∈ usedRegions h.regions) :
    (parts.Nodup ∧ ∃ h', freeAll (blocksOf parts) h = .ok ((), h') ∧
      Frees h (fun a => ∃ r ∈ parts, r.range.contains a) h') ∨
    (¬ parts.Nodup ∧ ∃ e, freeAll (blocksOf parts) h = .error e) := by
  induction parts generalizing h with
  | nil => exact .inl ⟨.nil, h, rfl, by constructor <;> simp⟩
  | cons r parts ih =>
    obtain ⟨hmem, hused⟩ := mem_filter.1 (hparts r (by simp))
    obtain ⟨h1, hfree, hw1, hfrees, hrest⟩ := free_frees hw hmem hused
    rw [blocksOf_cons, freeAll, bind_run hfree, nodup_cons]
    by_cases hr : r ∈ parts
    · refine .inr ⟨fun hnodup => hnodup.1 hr, ?_⟩
      refine freeAll_gone hw1 (block_mem hr) fun q hq heq => ?_
      obtain ⟨hq, hne⟩ := (hrest q).1 hq
      exact hne (hw.eq_of_block (mem_filter.1 hq).1 hmem heq)
    · have hparts' : ∀ q ∈ parts, q ∈ usedRegions h1.regions := fun q hq =>
        (hrest q).2 ⟨hparts q (by simp [hq]), fun heq => hr (heq ▸ hq)⟩
      simp only [hr, not_false_eq_true, true_and]
      rcases ih hw1 hparts' with ⟨hnodup, h2, hrun, hfrees2⟩ | hdup
      · refine .inl ⟨hnodup, h2, hrun, ?_⟩
        simpa [exists_mem_cons] using hfrees.trans hfrees2
      · exact .inr hdup

end

end Tlsf

namespace km
namespace AddressSpace

open Tlsf

variable {τ α : Type} {pt : PageTableCalls τ} {s s' : AddressSpace τ} {h : TlsfHeap}
  {range asked : AnyRange} {r : Region} {P : Region → Prop}

/-- The state in which the scope of a lock starts. -/
abbrev taken (s : AddressSpace τ) : AddressSpace τ := { s with mLock := true }

lemma heap_read {call : HeapM α} {a : α} (hcall : call s.mVmemHeap = .ok (a, s.mVmemHeap)) :
    heap call s = .ok (a, s) :=
  heap_run hcall

lemma locked_taken {body : SpaceM τ α} (hlock : s.mLock = false) : locked body s =
    (body s.taken).map fun x => (x.1, { x.2 with mLock := false }) := locked_run hlock

def SameRanges (s s' : AddressSpace τ) : Prop :=
  pieces s'.mVmemHeap.regions = pieces s.mVmemHeap.regions

/-- A call comes back, and has changed no range when it reports an error. -/
def Restores {α : Type} (s : AddressSpace τ)
    (outcome : Except Fault ((OsStatus × α) × AddressSpace τ)) : Prop :=
  ∃ status a s', outcome = .ok ((status, a), s') ∧ (status ≠ .success → SameRanges s s')

/-- A call comes back; it has freed exactly the range, or reports an error and has freed nothing. -/
def FreesExactly (s : AddressSpace τ) (range : AnyRange)
    (outcome : Except Fault (OsStatus × AddressSpace τ)) : Prop :=
  ∃ status s', outcome = .ok (status, s') ∧
    (status = .success → Frees s.mVmemHeap range.contains s'.mVmemHeap) ∧
    (status ≠ .success → SameRanges s s')

lemma not_restores {e : Fault} :
    ¬ Restores s (.error e : Except Fault ((OsStatus × α) × AddressSpace τ)) := by
  rintro ⟨status, a, s', heq, -⟩
  cases heq

lemma not_freesExactly {e : Fault} : ¬ FreesExactly s range (.error e) := by
  rintro ⟨status, s', heq, -⟩
  cases heq

lemma freesExactly_of_error {status : OsStatus} (hstatus : status ≠ .success)
    (hsame : SameRanges s s') : FreesExactly s range (.ok (status, s')) :=
  ⟨status, s', rfl, fun heq => absurd heq hstatus, fun _ => hsame⟩

lemma freesExactly_iff : FreesExactly s range (.ok (.success, s')) ↔
    Frees s.mVmemHeap range.contains s'.mVmemHeap := by
  constructor
  · rintro ⟨status, s1, heq, hfrees, -⟩
    cases heq
    exact hfrees rfl
  · intro hfrees
    exact ⟨.success, s', rfl, fun _ => hfrees, fun hne => absurd rfl hne⟩

lemma forall_block_iff {a : Nat} (hw : WellformedOver range h) (hr : r ∈ h.regions)
    (hoffset : r.offset = a) :
    (∀ q ∈ h.regions, q.offset = a → P q) ↔ P r := by
  constructor
  · exact fun hall => hall r hr hoffset
  · intro hP q hq hq'
    obtain rfl := hw.eq_of_offset hq hr (hq'.trans hoffset.symm)
    exact hP

lemma find_iff {g : Option BlockPtr → SpaceM τ α} {a : Nat}
    {Q : Except Fault (α × AddressSpace τ) → Prop} (hw : WellformedOver range s.mVmemHeap)
    (herror : ∀ e, ¬ Q (.error e)) (hmissed : Q (g none s))
    (hfound : ∀ r ∈ usedRegions s.mVmemHeap.regions, r.offset = a →
      (Q (g (some r.block) s) ↔ P r)) :
    Q ((heap (findAllocation a) >>= g) s) ↔
      ∀ r ∈ s.mVmemHeap.regions, r.offset = a → r.used = true ∧ P r := by
  obtain ⟨⟨lists, hwf⟩, -⟩ := id hw
  have hfind := findAllocation_run hwf.repr a
  generalize hresult : findAllocation a s.mVmemHeap = result at hfind
  cases hfind with
  | missed hall =>
    rw [bind_run (heap_read hresult)]
    exact iff_of_true hmissed fun r hr hoffset => absurd hoffset (hall r hr)
  | panic hr hoffset hfree =>
    rw [bind_error (heap_error hresult)]
    refine iff_of_false (herror _) fun hone => ?_
    rw [(hone _ hr hoffset).1] at hfree
    cases hfree
  | @found r hr hoffset hused =>
    rw [bind_run (heap_read hresult), forall_block_iff hw hr hoffset,
      hfound r (mem_filter.2 ⟨hr, hused⟩) hoffset]
    simp [hused]

/-! ## A range -/

/-- The block that starts where the range does is in use, and is the range unless the page tables
do not unmap it. -/
def OneBlock (pt : PageTableCalls τ) (s : AddressSpace τ) (range : AnyRange) : Prop :=
  ∀ r ∈ s.mVmemHeap.regions, r.offset = range.front → r.used = true ∧
    ((pt.unmap range s.mTables).1 = .success → r.offset + r.size = range.back)

lemma range_iff (hpos : 0 < r.size) (hoffset : r.offset = asked.front) :
    (∀ a, asked.contains a ↔ r.range.contains a) ↔ r.offset + r.size = asked.back := by
  simp only [AnyRange.contains, Region.range]
  constructor
  · intro hall
    have hlast := hall (r.offset + r.size - 1)
    have hend := hall (r.offset + r.size)
    omega
  · intro hback a
    omega

lemma unmap_freesExactly_iff (hready : Ready range s) :
    FreesExactly s asked (unmap pt asked s) ↔ (isPageRange asked → OneBlock pt s asked) := by
  have hw := hready.wellformed
  unfold unmap
  by_cases hasked : isPageRange asked
  swap
  · rw [if_neg hasked]
    exact iff_of_true (freesExactly_of_error (by decide) rfl) fun hpage => absurd hpage hasked
  rw [if_pos hasked, locked_taken hready.unlocked]
  simp only [hasked, forall_const]
  let Q : Except Fault (OsStatus × AddressSpace τ) → Prop := fun outcome =>
    FreesExactly s asked (outcome.map fun x => (x.1, { x.2 with mLock := false }))
  have hmissed : Q (.ok (.notFound, s.taken)) := freesExactly_of_error OsStatus.noConfusion rfl
  refine find_iff (Q := Q) hw (fun e => not_freesExactly) hmissed fun r hr hoffset => ?_
  obtain ⟨hr, hused⟩ := mem_filter.1 hr
  show Q ((tables (pt.unmap asked) >>= _) s.taken) ↔ _
  rw [bind_run (tables_run _)]
  by_cases hstatus : (pt.unmap asked s.mTables).1 = .success
  · obtain ⟨h', hfree, -, hfrees, -⟩ := free_frees hw hr hused
    have hfreed := heap_run (s := ⟨true, (pt.unmap asked s.mTables).2, s.mVmemHeap⟩) hfree
    rw [if_neg (not_not.2 hstatus), bind_run hfreed]
    simp only [hstatus, forall_const]
    refine freesExactly_iff.trans (hfrees.iff_of_iff.trans ?_)
    exact range_iff (hw.size_pos hr hused) hoffset
  · rw [if_pos hstatus]
    refine iff_of_true ?_ fun heq => absurd heq hstatus
    exact freesExactly_of_error hstatus rfl

/-! ## Mapping a stack -/

lemma cutPoints_guardPoints {o n : Nat} (hword : o + n < wordCount) :
    CutPoints o (o + n) (guardPoints ⟨o, o + n⟩) ↔ 2 * kPageSize < n := by
  have hfront := wrapAdd_cases (w := wordCount) (a := o) (b := 4096) (by omega) (by decide)
  have hback := wrapSub_cases (b := 4096) hword (by decide)
  simp only [guardPoints, CutPoints, kPageSize, wordCount] at *
  omega

/-- The heap refuses the range of the stack, or nothing is refused. -/
def StackGranted (pt : PageTableCalls τ) (s : AddressSpace τ) (memory : AnyRange)
    (flags : PageFlags) : Prop :=
  ∃ found h, alignedAlloc kPageSize (guardedSize memory) s.mVmemHeap = .ok (found, h) ∧
    ∀ vmem ∈ found, 2 * kPageSize < guardedSize memory ∧
      PoolAllocator.supplies 2 h.mBlockPool = true ∧
      ∀ k ∈ h.blocks vmem, (pt.map ⟨k.offset + kPageSize, memory.front, memory.bytes⟩ flags
        eWriteBack s.mTables).1 = .success

lemma alloc_refused {size : Nat} (hw : WellformedOver range s.mVmemHeap)
    (hcareful : AllocCareful s.mVmemHeap kPageSize size)
    (hrun : alignedAlloc kPageSize size s.mVmemHeap = .ok (none, h)) :
    h.regions = s.mVmemHeap.regions := by
  obtain ⟨⟨lists, hw⟩, -⟩ := hw
  rcases alignedAlloc_run hw hcareful hrun with ⟨-, hnone⟩ | ⟨b', h1, hsome, -, -⟩
  · exact hnone.wellformed.repr.regions_eq
  · cases hsome

lemma second_part {b c d : BlockPtr} {front back p q : Nat} {l t : List Region}
    {lists : Nat → List BlockPtr} {spare : List BlockPtr}
    (hr : Represents h (l ++ cutRegions b front back ([c, d].zip [p, q]) ++ t) lists spare) :
    ∃ k, h.blocks c = some k ∧ k.offset = p := by
  have hr' : Represents h ((l ++ [⟨b, front, p - front, true⟩]) ++ ⟨c, p, q - p, true⟩ ::
      (⟨d, q, back - q, true⟩ :: t)) lists spare := by
    simpa [cutRegions] using hr
  obtain ⟨k, hk⟩ := hr'.stores
  exact ⟨k, hk.block, hk.offset⟩

lemma mapStack_restores_iff {memory : AnyRange} {flags : PageFlags} (hready : Ready range s)
    (hcareful : AllocCareful s.mVmemHeap kPageSize (guardedSize memory)) :
    Restores s (mapStack pt memory flags s) ↔ StackGranted pt s memory flags := by
  have hw := hready.wellformed
  rw [mapStack, locked_taken hready.unlocked]
  cases halloc : alignedAlloc kPageSize (guardedSize memory) s.mVmemHeap with
  | error e =>
    rw [bind_error (heap_error (s := s.taken) halloc)]
    refine iff_of_false not_restores ?_
    rintro ⟨found, h, hok, -⟩
    rw [halloc] at hok
    cases hok
  | ok x =>
  obtain ⟨found, h⟩ := x
  have hgranted : StackGranted pt s memory flags ↔ ∀ vmem ∈ found,
      2 * kPageSize < guardedSize memory ∧ PoolAllocator.supplies 2 h.mBlockPool = true ∧
        ∀ k ∈ h.blocks vmem, (pt.map ⟨k.offset + kPageSize, memory.front, memory.bytes⟩ flags
          eWriteBack s.mTables).1 = .success := by
    constructor
    · rintro ⟨found', h', hok, hall⟩
      rw [halloc] at hok
      cases hok
      exact hall
    · exact fun hall => ⟨found, h, halloc, hall⟩
  rw [hgranted, bind_run (heap_run (s := s.taken) halloc)]
  cases found with
  | none =>
    refine iff_of_true ⟨.outOfMemory, [], _, rfl, fun _ => ?_⟩ (by simp)
    exact congrArg pieces (alloc_refused hw hcareful halloc)
  | some vmem =>
    obtain ⟨r, hr, rfl, hused, hsize⟩ := region_of_alloc hw hcareful halloc
    have hw1 := (Calls.alloc hcareful halloc).wellformed hw
    obtain ⟨⟨lists, hwf⟩, -⟩ := id hw1
    obtain ⟨l, t, hrs⟩ := append_of_mem hr
    rw [hrs] at hwf
    obtain ⟨k, hk⟩ := hwf.repr.stores
    have hpoints := cutPoints_guardPoints (hw1.back_lt hr)
    have hwrap : wrapAdd wordCount r.offset r.size = r.offset + r.size :=
      wrapAdd_of_lt (hw1.back_lt hr)
    have hread : blockRange r.block h = .ok (⟨r.offset, r.offset + r.size⟩, h) := by
      rw [blockRange_run hk.block, hk.offset, hk.size, hwrap]
    have hrange := heap_read (s := ⟨true, s.mTables, h⟩) hread
    simp only [Option.mem_def, Option.some.injEq, forall_eq', hk.block, ← hsize]
    rw [bind_run hrange]
    have hout := splitv_run hwf hused (guardPoints ⟨r.offset, r.offset + r.size⟩)
      [none, none, none]
    generalize hsplit : splitv r.block (guardPoints ⟨r.offset, r.offset + r.size⟩)
      [none, none, none] h = result at hout
    cases hout with
    | rejected hbad =>
      obtain ⟨e, herror⟩ := dropStack_error pt (s := ⟨true, s.mTables, h⟩) rfl r.block
      rw [bind_run (heap_read hsplit)]
      rw [if_pos (by decide), bind_error herror]
      refine iff_of_false not_restores fun hgiven => ?_
      rcases hbad with hbad | hbad | hbad
      · cases hbad
      · simp [guardPoints] at hbad
      · exact hbad (hpoints.2 hgiven.1)
    | @exhausted h' results' hpool hsame hw' =>
      obtain ⟨e, herror⟩ := dropStack_error pt (s := ⟨true, s.mTables, h'⟩) rfl r.block
      rw [bind_run (heap_run hsplit)]
      dsimp only
      rw [if_pos (by decide), bind_error herror]
      refine iff_of_false not_restores fun hgiven => ?_
      rw [show (guardPoints _).length = 2 from rfl, hgiven.2.1] at hpool
      cases hpool
    | @cut h' ds hpool hroom hcut hlen hkeeps hw' =>
      obtain ⟨c, d, rfl⟩ := length_eq_two.1 hlen
      -- the stack starts behind the first guard page
      have hfront : wrapAdd wordCount r.offset kPageSize = r.offset + kPageSize :=
        wrapAdd_of_lt (by have hlt := hpoints.1 hcut; have hword := hw1.back_lt hr; omega)
      have hpool : PoolAllocator.supplies 2 h.mBlockPool = true := hpool
      obtain ⟨k', hk', hoffset⟩ := second_part hw'.repr
      have hread' := heap_read (s := ⟨true, s.mTables, h'⟩) (blockRange_run hk')
      rw [bind_run (heap_run hsplit)]
      dsimp only
      rw [if_neg (by decide), bind_run (heap_read rfl),
        bind_run hread', bind_run (tables_run _)]
      simp only [hoffset, hfront, hk.offset, hpoints.1 hcut, hpool, true_and]
      generalize hanswer : pt.map _ flags eWriteBack s.mTables = answer
      obtain ⟨status, mTables⟩ := answer
      by_cases hstatus : status = .success
      · rw [if_neg (not_not.2 hstatus)]
        exact iff_of_true ⟨.success, _, _, rfl, fun hne => absurd rfl hne⟩ hstatus
      · obtain ⟨e, herror⟩ := dropStack_error pt (s := ⟨true, mTables, h'⟩) rfl r.block
        rw [if_pos hstatus, bind_error herror]
        exact iff_of_false not_restores hstatus
    | pastEnd hpool hroom => simp [guardPoints] at hroom

/-! ## Unmapping a stack -/

def UnmapsAll (pt : PageTableCalls τ) : τ → List AnyRange → Prop
  | _, [] => True
  | t, range :: ranges => (pt.unmap range t).1 = .success ∧ UnmapsAll pt (pt.unmap range t).2 ranges

/-- The blocks follow each other up to the end of the range. -/
def Tiled (range : AnyRange) (head stack tail : Region) : Prop :=
  (head.offset + head.size = stack.offset ∧ stack.offset + stack.size = tail.offset ∧
    tail.offset + tail.size = range.back) ∨
  (head.offset + head.size = tail.offset ∧ tail.offset + tail.size = stack.offset ∧
    stack.offset + stack.size = range.back)

/-- If there are blocks where the three parts of the stack start, they are in use, the page tables
unmap them, and together they are the range. -/
def ThreeBlocks (pt : PageTableCalls τ) (s : AddressSpace τ) (mapping : StackMapping) : Prop :=
  ∀ head ∈ s.mVmemHeap.regions, head.offset = mapping.total.front → head.used = true ∧
    ∀ stack ∈ s.mVmemHeap.regions, stack.offset = mapping.stack.vaddr → stack.used = true ∧
      ∀ tail ∈ s.mVmemHeap.regions,
        tail.offset = wrapSub wordCount mapping.total.back kPageSize → tail.used = true ∧
          UnmapsAll pt s.mTables [head.range, stack.range, tail.range] ∧
            Tiled mapping.total head stack tail

lemma tiled_iff {head stack tail : Region} (hw : WellformedOver range h)
    (hhead : head ∈ usedRegions h.regions) (hstack : stack ∈ usedRegions h.regions)
    (htail : tail ∈ usedRegions h.regions) (hfront : head.offset = asked.front) :
    ([head, stack, tail].Nodup ∧ ∀ a, asked.contains a ↔
      ∃ r ∈ [head, stack, tail], r.range.contains a) ↔ Tiled asked head stack tail := by
  obtain ⟨hhead, hused0⟩ := mem_filter.1 hhead
  obtain ⟨hstack, hused1⟩ := mem_filter.1 hstack
  obtain ⟨htail, hused2⟩ := mem_filter.1 htail
  have hpos1 := hw.size_pos hstack hused1
  have hpos2 := hw.size_pos htail hused2
  simp only [Tiled, mem_cons, not_mem_nil, or_false, exists_eq_or_imp, exists_eq_left,
    AnyRange.contains, Region.range]
  constructor
  · rintro ⟨hnodup, hall⟩
    simp only [nodup_cons, mem_cons, not_mem_nil, or_false, not_or] at hnodup
    obtain ⟨⟨hne1, hne2⟩, hne3, -⟩ := hnodup
    have hapart1 := hw.apart hhead hstack hne1
    have hapart2 := hw.apart hhead htail hne2
    have hapart3 := hw.apart hstack htail hne3
    -- every block lies in the range, behind the first one
    have hstart1 := (hall stack.offset).2 (.inr (.inl (by omega)))
    have hlast1 := (hall (stack.offset + stack.size - 1)).2 (.inr (.inl (by omega)))
    have hstart2 := (hall tail.offset).2 (.inr (.inr (by omega)))
    have hlast2 := (hall (tail.offset + tail.size - 1)).2 (.inr (.inr (by omega)))
    have hbehind1 : head.offset + head.size ≤ stack.offset := by omega
    -- and none ends short of the next one
    have hend0 := (hall (head.offset + head.size)).1
    have hend1 := (hall (stack.offset + stack.size)).1
    have hend2 := (hall (tail.offset + tail.size)).1
    rcases hapart3 with hapart | hapart
    · exact .inl ⟨by omega, by omega, by omega⟩
    · exact .inr ⟨by omega, by omega, by omega⟩
  · intro htiled
    refine ⟨?_, fun a => by omega⟩
    simp only [nodup_cons, mem_cons, not_mem_nil, or_false, not_or]
    refine ⟨⟨?_, ?_⟩, ?_, by simp⟩ <;> rintro rfl <;> omega

lemma unmapParts_run (pt : PageTableCalls τ) {parts : List Region}
    (hw : WellformedOver range s.mVmemHeap) (hparts : ∀ r ∈ parts, r ∈ s.mVmemHeap.regions) :
    (UnmapsAll pt s.mTables (parts.map Region.range) ∧
      ∃ mTables, unmapParts pt (blocksOf parts) s = .ok ((), { s with mTables })) ∨
    (¬ UnmapsAll pt s.mTables (parts.map Region.range) ∧
      unmapParts pt (blocksOf parts) s = .error .bugCheck) := by
  induction parts generalizing s with
  | nil => exact .inl ⟨trivial, s.mTables, rfl⟩
  | cons r parts ih =>
    have hr := hparts r (by simp)
    have hread : blockRange r.block s.mVmemHeap = .ok (r.range, s.mVmemHeap) := by
      obtain ⟨⟨lists, hwf⟩, -⟩ := id hw
      obtain ⟨l, t, hrs⟩ := append_of_mem hr
      rw [hrs] at hwf
      obtain ⟨k, hk⟩ := hwf.repr.stores
      have hwrap : wrapAdd wordCount r.offset r.size = r.offset + r.size :=
        wrapAdd_of_lt (hw.back_lt hr)
      rw [blockRange_run hk.block, hk.offset, hk.size, hwrap]
      rfl
    rw [blocksOf_cons, unmapParts, bind_run (heap_read hread), bind_run (tables_run _),
      map_cons, UnmapsAll]
    by_cases hstatus : (pt.unmap r.range s.mTables).1 = .success
    · have hassert : assertSuccess (pt.unmap r.range s.mTables).1
          { s with mTables := (pt.unmap r.range s.mTables).2 } =
          .ok ((), { s with mTables := (pt.unmap r.range s.mTables).2 }) :=
        heap_read (check_run (by simpa using hstatus))
      rw [bind_run hassert]
      simp only [hstatus, true_and]
      exact ih (s := ⟨s.mLock, (pt.unmap r.range s.mTables).2, s.mVmemHeap⟩) hw
        fun q hq => hparts q (by simp [hq])
    · refine .inr ⟨fun hall => hstatus hall.1, bind_error (heap_error (check_error ?_))⟩
      simpa using hstatus

lemma unmapStack_freesExactly_iff {mapping : StackMapping} (hready : Ready range s) :
    FreesExactly s mapping.total (unmapStack pt mapping s) ↔ ThreeBlocks pt s mapping := by
  have hw := hready.wellformed
  rw [unmapStack, locked_taken hready.unlocked]
  let Q : Except Fault (OsStatus × AddressSpace τ) → Prop := fun outcome =>
    FreesExactly s mapping.total (outcome.map fun x => (x.1, { x.2 with mLock := false }))
  have herror : ∀ e, ¬ Q (.error e) := fun e => not_freesExactly
  have hmissed : Q (.ok (.notFound, s.taken)) := freesExactly_of_error OsStatus.noConfusion rfl
  refine find_iff (Q := Q) hw herror hmissed fun head hhead hfront => ?_
  refine find_iff hw herror hmissed fun stack hstack _ => ?_
  refine find_iff hw herror hmissed fun tail htail _ => ?_
  have hparts : ∀ r ∈ [head, stack, tail], r ∈ usedRegions s.mVmemHeap.regions := by
    simpa using ⟨hhead, hstack, htail⟩
  have hunmap := unmapParts_run pt (s := s.taken) hw fun r hr =>
    (mem_filter.1 (hparts r hr)).1
  rw [← tiled_iff hw hhead hstack htail hfront]
  rcases hunmap with ⟨hall, mTables, hrun⟩ | ⟨hnot, hrun⟩
  · simp only [map_cons, map_nil] at hall
    simp only [hall, true_and]
    show Q ((unmapParts pt (blocksOf [head, stack, tail]) >>= _) s.taken) ↔ _
    rw [bind_run hrun]
    show Q ((heap (freeAll (blocksOf [head, stack, tail])) >>= _) ⟨true, mTables, s.mVmemHeap⟩) ↔ _
    rcases freeAll_frees hw hparts with ⟨hnodup, h', hfree, hfrees⟩ | ⟨hdup, e, hfree⟩
    · rw [bind_run (heap_run (s := ⟨true, mTables, s.mVmemHeap⟩) hfree)]
      simp only [hnodup, true_and]
      exact freesExactly_iff.trans hfrees.iff_of_iff
    · rw [bind_error (heap_error (s := ⟨true, mTables, s.mVmemHeap⟩) hfree)]
      exact iff_of_false (herror e) fun hboth => hdup hboth.1
  · refine iff_of_false ?_ fun hboth => hnot hboth.1
    show ¬ Q ((unmapParts pt (blocksOf [head, stack, tail]) >>= _) s.taken)
    rw [bind_error hrun]
    exact herror _

/-! ## All calls -/

/-- The heap of free ranges is what it was when a stack is not mapped, and has exactly the range
more when one is unmapped. -/
def KeepsHeap (pt : PageTableCalls τ) (s : AddressSpace τ) : SpaceCall → Prop
  | .mapStack memory flags => Restores s (mapStack pt memory flags s)
  | .unmap range => FreesExactly s range (unmap pt range s)
  | .unmapStack mapping => FreesExactly s mapping.total (unmapStack pt mapping s)
  | .reserve _ | .map _ _ _ | .unmapAllocation _ => True

def Fitting (pt : PageTableCalls τ) (s : AddressSpace τ) : SpaceCall → Prop
  | .mapStack memory flags => StackGranted pt s memory flags
  | .unmap range => isPageRange range → OneBlock pt s range
  | .unmapStack mapping => ThreeBlocks pt s mapping
  | .reserve _ | .map _ _ _ | .unmapAllocation _ => True

def answering (status : OsStatus) : PageTableCalls Unit where
  map _ _ _ t := (status, t)
  unmap _ t := (.success, t)

def replay (pt : PageTableCalls Unit) (range : AnyRange) (calls : List SpaceCall) :
    Option (AddressSpace Unit) :=
  match createMany .ample [range] with
  | .ok (.success, some h) => calls.foldlM (fun s call =>
      if call.Careful s then (call.run pt s).toOption.map Prod.snd else none) ⟨false, (), h⟩
  | _ => none

lemma reachable_of_replay {pt : PageTableCalls Unit} {s : AddressSpace Unit}
    {calls : List SpaceCall} (hreplay : replay pt range calls = some s) (hs : Ordered [range])
    (hspan : Spans range) : Reachable pt range s := by
  rw [replay] at hreplay
  split at hreplay
  · next h hcreated =>
    refine ⟨⟨false, (), h⟩, calls, rfl, ⟨by simp, hs, hspan, .ample, hcreated⟩, ?_⟩
    generalize (⟨false, (), h⟩ : AddressSpace Unit) = s0 at hreplay
    induction calls generalizing s0 with
    | nil =>
      cases hreplay
      exact .nil _
    | cons call calls ih =>
      rw [foldlM_cons] at hreplay
      obtain ⟨s1, hstep, hrest⟩ := Option.bind_eq_some_iff.1 hreplay
      split at hstep
      · next hcareful =>
        obtain ⟨⟨status, s2⟩, hrun, rfl⟩ := Option.map_eq_some_iff.1 hstep
        exact .cons ⟨hcareful, status, eq_ok_of_toOption hrun⟩ (ih s2 hrest)
      · cases hstep
  · cases hreplay

end AddressSpace
end km
end BezOS
