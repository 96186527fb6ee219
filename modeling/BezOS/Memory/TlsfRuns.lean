import BezOS.Lib.Transition
import BezOS.Memory.TlsfAlloc
import BezOS.Memory.TlsfCreate
import BezOS.Memory.TlsfResize

/-!
# Runs of a heap

A heap is created over some ranges and is then called, one call after another,
with handles of live allocations. A call is careful when it stays off the paths on which the heap
goes wrong; after careful calls it is well formed.
-/

namespace BezOS
namespace Tlsf

open Lib List PoolAllocator Prod

variable {h h' : TlsfHeap} {base : Nat} {rs l t : List Region} {r n : Region}
  {lists : Nat → List BlockPtr} {spare kept : List BlockPtr} {b : BlockPtr} {size align : Nat}
  {range : AnyRange} {y : Option BlockPtr × TlsfHeap} {α : Type}

/-! ## Resizing -/

lemma resize_run (hw : Wellformed h base (l ++ r :: t) lists spare) (hused : r.used = true)
    (size : Nat) : resize r.block size h =
      if size = 0 then .ok ((.invalidInput, none), h)
      else if size < r.size then shrink r.block size h else grow r.block size h := by
  obtain ⟨k, hk⟩ := hw.repr.stores
  have hcheck : (!k.isFree r.block) = true := by rw [hk.free, hused]; rfl
  rw [resize]
  by_cases hzero : size = 0
  · rw [if_pos hzero, if_pos hzero]
    rfl
  rw [if_neg hzero, if_neg hzero, bind_run (deref_run hk.block), hk.size]
  rcases Nat.lt_trichotomy size r.size with hlt | rfl | hlt
  · rw [if_neg (by omega), if_pos hlt, if_pos hlt]
  · rw [if_pos rfl, if_neg (Nat.lt_irrefl _), grow, bind_run (deref_run hk.block),
      bind_run (check_run hcheck), hk.size, if_pos rfl]
  · rw [if_neg (by omega), if_neg (by omega), if_neg (by omega)]

/-! ## Calls -/

inductive HeapCall where
  | alignedAlloc (align size : Nat)
  | malloc (size : Nat)
  | allocateAt (address size : Nat)
  | reserve (range : AnyRange)
  | free (block : BlockPtr)
  | split (block : BlockPtr) (midpoint : Nat)
  | splitv (block : BlockPtr) (points : List Nat) (results : Results)
  | grow (block : BlockPtr) (size : Nat)
  | shrink (block : BlockPtr) (size : Nat)
  | resize (block : BlockPtr) (size : Nat)
  | compact

def Live (h : TlsfHeap) (b : BlockPtr) : Prop := ∃ r ∈ h.regions, r.used = true ∧ r.block = b
  deriving Decidable

/-- `reserve` finds the range in the free block `r`, behind its start. -/
def SplitsBlock (h : TlsfHeap) (r : Region) (range : AnyRange) : Prop :=
  r.used = false ∧ r.offset < range.front ∧ (range.back < r.offset + r.size ∨
    (range.back = r.offset + r.size ∧ r.block = h.mNullBlock))
  deriving Decidable

/-- When `reserve` splits the first block of the heap, this block is in no list or stays in its
list, and the pool has a block for the cut too. -/
def ReserveCareful (h : TlsfHeap) (range : AnyRange) : Prop :=
  range.front < range.back ∧ ∀ r ∈ h.regions.head?, SplitsBlock h r range →
    (r.block = h.mNullBlock ∨
      getListIndex (r.offset + r.size - range.front) = getListIndex r.size) ∧
    (supplies 1 h.compacted.mBlockPool = true →
      supplies 2 h.compacted.mBlockPool = true)
  deriving Decidable

/-- A free block from which `grow` takes bytes keeps some, and is in no list or goes to another. -/
def GrowCareful (h : TlsfHeap) (block : BlockPtr) (size : Nat) : Prop :=
  ∀ b ∈ h.blocks block, ∀ next ∈ b.next, ∀ n ∈ h.blocks next, b.size < size →
    n.isFree next = true → size - b.size ≤ n.size → size - b.size < n.size ∧
      (next = h.mNullBlock ∨ getListIndex n.size ≠ getListIndex (n.size - (size - b.size)))
  deriving Decidable

instance (align : Nat) (r : Region) (prev : Option BlockPtr) : Decidable (Paddable align r prev) :=
  inferInstanceAs (Decidable (_ ∧ _))

instance (h : TlsfHeap) (align size : Nat) : Decidable (AllocCareful h align size) :=
  inferInstanceAs (Decidable (∀ b ∈ h.tried align size, ∀ k ∈ h.blocks b, Paddable _ _ _))

namespace HeapCall

def run (h : TlsfHeap) : HeapCall → Except Fault TlsfHeap
  | alignedAlloc align size => (Tlsf.alignedAlloc align size h).map snd
  | malloc size => (Tlsf.malloc size h).map snd
  | allocateAt address size => (Tlsf.allocateAt address size h).map snd
  | reserve range => (Tlsf.reserve range h).map snd
  | free block => (Tlsf.free block h).map snd
  | split block midpoint => (Tlsf.split block midpoint h).map snd
  | splitv block points results => (Tlsf.splitv block points results h).map snd
  | grow block size => (Tlsf.grow block size h).map snd
  | shrink block size => (Tlsf.shrink block size h).map snd
  | resize block size => (Tlsf.resize block size h).map snd
  | compact => (Tlsf.compact h).map snd

def handle? : HeapCall → Option BlockPtr
  | free block | split block _ | splitv block _ _ | grow block _ | shrink block _
  | resize block _ => some block
  | _ => none

def Careful (h : TlsfHeap) : HeapCall → Prop
  | alignedAlloc align size => AllocCareful h align size
  | malloc size => AllocCareful h kMaxAlign size
  | allocateAt address size => address % kMaxAlign = 0 → 0 < size →
      address + size < wordCount ∧ ReserveCareful h ⟨address, address + size⟩
  | reserve range => ReserveCareful h range
  | grow block size | resize block size => GrowCareful h block size
  | _ => True

instance (h : TlsfHeap) (call : HeapCall) : Decidable (call.Careful h) :=
  match call with
  | alignedAlloc _ _ | malloc _ => inferInstanceAs (Decidable (AllocCareful h _ _))
  | allocateAt _ _ => inferInstanceAs (Decidable (_ = _ → _ < _ → _ ∧ ReserveCareful h _))
  | reserve range => inferInstanceAs (Decidable (ReserveCareful h range))
  | grow _ _ | resize _ _ => inferInstanceAs (Decidable (GrowCareful h _ _))
  | free _ | split _ _ | splitv _ _ _ | shrink _ _ | compact => inferInstanceAs (Decidable True)

/-- A call of a user, who has the handles of all live allocations but those in `kept`. -/
structure Call (kept : List BlockPtr) (h : TlsfHeap) (call : HeapCall) (h' : TlsfHeap) : Prop where
  live : ∀ b ∈ call.handle?, Live h b ∧ b ∉ kept
  run : call.run h = .ok h'

structure Step (kept : List BlockPtr) (h : TlsfHeap) (call : HeapCall) (h' : TlsfHeap) : Prop
    extends Call kept h call h' where
  careful : call.Careful h

end HeapCall

/-! ## What a call does -/

/-- The heap is well formed after a call, and every allocation but the one of the handle is the
same. -/
def Effect (h : TlsfHeap) (base : Nat) (rs : List Region) (spare : List BlockPtr)
    (handle : Option BlockPtr) (h' : TlsfHeap) : Prop :=
  ∃ rs' lists', Wellformed h' base rs' lists' spare ∧ h'.mSize = h.mSize ∧
    ∀ q ∈ usedRegions rs, handle ≠ some q.block → q ∈ usedRegions rs'

namespace Effect

variable {handle : Option BlockPtr}

lemma same (hw : Wellformed h' base rs lists spare) (hsize : h'.mSize = h.mSize) :
    Effect h base rs spare handle h' := ⟨rs, lists, hw, hsize, fun _ hq _ => hq⟩

lemma replace {rs' : List Region} (us : List Region) (hw : Wellformed h' base rs' lists spare)
    (hsize : h'.mSize = h.mSize) (hr : r.used = false ∨ handle = some r.block)
    (hlive : usedRegions rs' = usedRegions l ++ us ++ usedRegions t) :
    Effect h base (l ++ r :: t) spare handle h' := by
  refine ⟨rs', lists, hw, hsize, fun q hq hhandle => ?_⟩
  rw [usedRegions_append, mem_append] at hq
  rw [hlive, mem_append, mem_append]
  rcases hq with hq | hq
  · exact .inl (.inl hq)
  · obtain ⟨hmem, hused⟩ := mem_filter.1 hq
    rcases mem_cons.1 hmem with rfl | hmem
    · rcases hr with hfree | hblock
      · rw [hfree] at hused
        cases hused
      · exact absurd hblock hhandle
    · exact .inr (mem_filter.2 ⟨hmem, hused⟩)

lemma exchange {rs' : List Region} {q : Region} (hw : Wellformed h' base rs' lists spare)
    (hsize : h'.mSize = h.mSize) (hr : r.used = false ∨ handle = some r.block)
    (hlive : usedRegions rs' = usedRegions l ++ q :: usedRegions t) :
    Effect h base (l ++ r :: t) spare handle h' := by
  refine .replace [q] hw hsize hr ?_
  rw [hlive, append_assoc, singleton_append]

end Effect

lemma bind_ok {β : Type} {m : HeapM α} {g : α → HeapM β} {y : β × TlsfHeap}
    (hrun : (m >>= g) h = .ok y) : ∃ a h1, m h = .ok (a, h1) ∧ g a h1 = .ok y := by
  cases hm : m h with
  | error e =>
    rw [bind_error hm] at hrun
    cases hrun
  | ok x =>
    obtain ⟨a, h1⟩ := x
    rw [bind_run hm] at hrun
    exact ⟨a, h1, rfl, hrun⟩

lemma checkBlock_align_zero {i : Nat} :
    checkBlock b i size 0 h ≠ .ok y := by
  intro hrun
  obtain ⟨_, _, -, hrun⟩ := bind_ok hrun
  obtain ⟨_, _, -, hrun⟩ := bind_ok hrun
  obtain ⟨_, _, hassume, -⟩ := bind_ok hrun
  cases hassume

lemma searchList_align_zero {i fuel : Nat} {p : Option BlockPtr}
    (hrun : searchList i size 0 fuel p h = .ok y) :
    y = (none, h) := by
  cases p with
  | none =>
    rw [searchList] at hrun
    cases hrun
    rfl
  | some b =>
    cases fuel with
    | zero => cases hrun
    | succ fuel =>
      obtain ⟨_, _, hcheck, -⟩ := bind_ok hrun
      exact absurd hcheck checkBlock_align_zero

lemma allocBestFit_positive (hrun : allocBestFit align size h = .ok y) :
    0 < align ∧ 0 < size := by
  refine ⟨Nat.pos_of_ne_zero ?_, Nat.pos_of_ne_zero ?_⟩
  · rintro rfl
    obtain ⟨_, _, -, hrun⟩ := bind_ok hrun
    obtain ⟨⟨first, i⟩, h1, -, hrun⟩ := bind_ok hrun
    obtain ⟨found, h2, hsearch, hrun⟩ := bind_ok hrun
    obtain rfl : found = none := congrArg fst (searchList_align_zero hsearch)
    -- The null block is checked next.
    obtain ⟨_, _, -, hrun⟩ := bind_ok hrun
    obtain ⟨_, _, hcheck, -⟩ := bind_ok hrun
    exact checkBlock_align_zero hcheck
  · rintro rfl
    obtain ⟨_, _, -, hrun⟩ := bind_ok hrun
    obtain ⟨_, _, hfind, -⟩ := bind_ok hrun
    cases hfind

lemma alignedAlloc_run {found : Option BlockPtr} (hw : Wellformed h base rs lists spare)
    (hcareful : AllocCareful h align size) (hrun : alignedAlloc align size h = .ok (found, h')) :
    (found = none ∧ Fruitless h base rs lists spare align size (h.candidates size) h') ∨
    ∃ b h1, found = some b ∧ h' = { h1 with mMallocCount := h1.mMallocCount + 1 } ∧
      Served h base rs spare align size b h1 := by
  obtain ⟨result, h1, halloc, hrun⟩ := bind_ok hrun
  obtain ⟨halign, hsize⟩ := allocBestFit_positive halloc
  have hout := allocBestFit_run hw halign hsize hcareful
  rw [halloc] at hout
  cases hout with
  | served hserved =>
    cases hrun
    exact .inr ⟨_, h1, rfl, rfl, hserved⟩
  | none hnone =>
    cases hrun
    exact .inl ⟨rfl, hnone⟩

lemma map_snd_ok {result : Except Fault (α × TlsfHeap)} (hrun : result.map snd = .ok h') :
    ∃ a, result = .ok (a, h') := by
  cases result with
  | error e => cases hrun
  | ok x =>
    cases hrun
    exact ⟨x.1, rfl⟩

section

variable (hw : Wellformed h base rs lists spare)

include hw

lemma alignedAlloc_effect (hcareful : AllocCareful h align size)
    (hrun : (alignedAlloc align size h).map snd = .ok h') :
    Effect h base rs spare none h' := by
  obtain ⟨found, hrun⟩ := map_snd_ok hrun
  rcases alignedAlloc_run hw hcareful hrun with ⟨-, hnone⟩ | ⟨b, h1, -, rfl, hserved⟩
  · exact .same hnone.wellformed hnone.same.keeps.mSize
  · obtain ⟨l, r, t, rs', lists', rfl, -, hfree, -, -, hw', hlive⟩ := hserved.cut
    have hw2 : Wellformed { h1 with mMallocCount := h1.mMallocCount + 1 } base rs' lists' spare :=
      ⟨hw'.toFormed.recount h1.mReserved (h1.mMallocCount + 1) h1.mFreeCount, hw'.coalesced⟩
    exact .exchange hw2 hserved.keeps.mSize (.inl hfree) hlive

section

variable (hcareful : ReserveCareful h range)

include hcareful

lemma ReserveCareful.keeps (l t : List Region) (r : Region) (hfinds : Finds rs l r t range) :
    SplitKeeps h l r range ∧ (l = [] → r.offset < range.front →
      supplies 1 h.compacted.mBlockPool = true →
      supplies 2 h.compacted.mBlockPool = true) := by
  have hsplits : l = [] → r.offset < range.front →
      r ∈ h.regions.head? ∧ SplitsBlock h r range := by
    rintro rfl hlt
    have hchain : rs = r :: t := hfinds.chain
    have hback := hfinds.back
    rw [hw.repr.regions_eq, hchain]
    refine ⟨rfl, hfinds.free, hlt, ?_⟩
    rcases hfinds.inside with hinside | rfl
    · exact .inl hinside
    · have hr : Represents h ([] ++ [r]) lists spare := by
        rw [nil_append, ← hchain]
        exact hw.repr
      have hnull := hr.null_iff.2 rfl
      rcases Nat.lt_or_eq_of_le hback with hlt | heq
      · exact .inl hlt
      · exact .inr ⟨heq, hnull⟩
  have hfront := hfinds.front
  refine ⟨fun hl hne => ?_, fun hl hlt => ?_⟩
  · obtain ⟨hhead, hsplit⟩ := hsplits hl (by omega)
    exact (hcareful.2 r hhead hsplit).1
  · obtain ⟨hhead, hsplit⟩ := hsplits hl hlt
    exact (hcareful.2 r hhead hsplit).2

lemma RangeOutcome.effect {a : OsStatus × Option BlockPtr}
    (hout : RangeOutcome h base rs lists spare range (.ok (a, h'))) :
    Effect h base rs spare none h' := by
  cases hout with
  | reserved hfinds _ hkeeps hw' hlive =>
    rw [hfinds.chain]
    exact .exchange hw' hkeeps.mSize (.inl hfinds.free) hlive
  | exhausted _ _ hsame hw' => exact .same hw' hsame.keeps.mSize
  | halfway hfinds hsplit hone hpool =>
    rw [(hcareful.keeps hw _ _ _ hfinds).2 rfl hsplit hone] at hpool
    cases hpool
  | missed _ _ hsame hw' => exact .same hw' hsame.keeps.mSize

lemma reserve_effect (hrun : (reserve range h).map snd = .ok h') :
    Effect h base rs spare none h' := by
  obtain ⟨a, hrun⟩ := map_snd_ok hrun
  have hout := reserve_run hw hcareful.1 fun l r t hfinds => (hcareful.keeps hw l t r hfinds).1
  rw [hrun] at hout
  exact hout.effect hw hcareful

end

lemma allocateAt_effect {address : Nat} (hcareful : address % kMaxAlign = 0 → 0 < size →
      address + size < wordCount ∧ ReserveCareful h ⟨address, address + size⟩)
    (hrun : (allocateAt address size h).map snd = .ok h') :
    Effect h base rs spare none h' := by
  obtain ⟨found, hrun⟩ := map_snd_ok hrun
  by_cases hask : address % kMaxAlign = 0 ∧ 0 < size
  · obtain ⟨hword, hcareful⟩ := hcareful hask.1 hask.2
    rcases allocateAt_run hw hword fun l r t hfinds => (hcareful.keeps hw l t r hfinds).1 with
      ⟨-, hnone⟩ | ⟨-, -, status, b, h1, hout, hsome⟩
    · rw [hrun] at hnone
      cases hnone
      exact .same hw rfl
    · rw [hrun] at hsome
      cases hsome
      exact hout.effect hw hcareful
  · have hnone : allocateAt address size h = .ok (none, h) := by
      rw [allocateAt]
      by_cases halign : address % kMaxAlign = 0
      · rw [if_neg (not_not.2 halign), if_pos (by omega)]
        rfl
      · rw [if_pos halign]
        rfl
    rw [hrun] at hnone
    cases hnone
    exact .same hw rfl

end

lemma Live.split (hr : Represents h rs lists spare) (hlive : Live h b) :
    ∃ l r n t, rs = l ++ r :: n :: t ∧ r.used = true ∧ r.block = b := by
  obtain ⟨r, hmem, hused, rfl⟩ := hlive
  rw [hr.regions_eq] at hmem
  obtain ⟨l, t, rfl⟩ := append_of_mem hmem
  cases t with
  | nil =>
    rw [hr.null_used] at hused
    cases hused
  | cons n t => exact ⟨l, r, n, t, rfl, hused, rfl⟩

lemma free_effect (hw : Wellformed h base rs lists spare) (hlive : Live h b)
    (hrun : (free b h).map snd = .ok h') : Effect h base rs spare (some b) h' := by
  obtain ⟨l, r, n, t, rfl, hused, rfl⟩ := hlive.split hw.repr
  obtain ⟨h1, rs', lists', hfree, hw', hlive', hsize⟩ := free_run hw hused
  rw [hfree] at hrun
  cases hrun
  refine .replace [] hw' hsize (.inr rfl) ?_
  rw [hlive', append_nil]

lemma split_effect {midpoint : Nat} (hw : Wellformed h base rs lists spare) (hlive : Live h b)
    (hrun : (split b midpoint h).map snd = .ok h') : Effect h base rs spare (some b) h' := by
  obtain ⟨l, r, n, t, rfl, hused, rfl⟩ := hlive.split hw.repr
  obtain ⟨a, hrun⟩ := map_snd_ok hrun
  have hout := split_run hw hused midpoint
  rw [hrun] at hout
  cases hout with
  | outside => exact .same hw rfl
  | exhausted _ _ hsame hw' => exact .same hw' hsame.keeps.mSize
  | @cut _ c _ _ hkeeps hw' =>
    refine .replace [⟨r.block, r.offset, midpoint - r.offset, true⟩,
      ⟨c, midpoint, r.offset + r.size - midpoint, true⟩] hw' hkeeps.mSize (.inr rfl) ?_
    rw [usedRegions_append, usedRegions_used rfl, usedRegions_used rfl, append_assoc]
    rfl

lemma usedRegions_cutRegions (b : BlockPtr) (front back : Nat) (cuts : List (BlockPtr × Nat)) :
    usedRegions (cutRegions b front back cuts) = cutRegions b front back cuts := by
  induction cuts generalizing b front with
  | nil => rfl
  | cons cut cuts ih =>
    rw [cutRegions, usedRegions_used rfl, ih]

lemma splitv_effect {points : List Nat} {results : Results}
    (hw : Wellformed h base rs lists spare) (hlive : Live h b)
    (hrun : (splitv b points results h).map snd = .ok h') :
    Effect h base rs spare (some b) h' := by
  obtain ⟨l, r, n, t, rfl, hused, rfl⟩ := hlive.split hw.repr
  obtain ⟨a, hrun⟩ := map_snd_ok hrun
  have hout := splitv_run hw hused points results
  rw [hrun] at hout
  cases hout with
  | rejected => exact .same hw rfl
  | exhausted _ hsame hw' => exact .same hw' hsame.keeps.mSize
  | @cut _ ds _ _ _ _ hkeeps hw' =>
    refine .replace (cutRegions r.block r.offset (r.offset + r.size) (ds.zip points)) hw'
      hkeeps.mSize (.inr rfl) ?_
    rw [usedRegions_append, usedRegions_append, usedRegions_cutRegions]

lemma growCareful_iff (hw : Wellformed h base (l ++ r :: n :: t) lists spare) :
    GrowCareful h r.block size ↔ (r.size < size → n.used = false → size - r.size ≤ n.size →
      size - r.size < n.size ∧
        (n.block = h.mNullBlock ∨ getListIndex n.size ≠ getListIndex (n.size - (size - r.size)))) := by
  have hw' : Wellformed h base ((l ++ [r]) ++ n :: t) lists spare := by simpa using hw
  obtain ⟨k, hk⟩ := hw.repr.stores
  obtain ⟨kn, hkn⟩ := hw'.repr.stores
  have hnext : k.next = some n.block := by rw [hk.next]; simp
  have hfree : kn.isFree n.block = true ↔ n.used = false := by
    rw [hkn.free]
    simp
  rw [GrowCareful, hk.block]
  simp only [Option.mem_def, Option.some.injEq, forall_eq', hnext, hkn.block, hk.size, hkn.size,
    hfree]

section

variable (hw : Wellformed h base rs lists spare)

include hw

lemma grow_effect (hlive : Live h b) (hcareful : GrowCareful h b size)
    (hrun : (grow b size h).map snd = .ok h') :
    Effect h base rs spare (some b) h' := by
  obtain ⟨l, r, n, t, rfl, hused, rfl⟩ := hlive.split hw.repr
  rw [growCareful_iff hw] at hcareful
  obtain ⟨a, hrun⟩ := map_snd_ok hrun
  have hout := grow_run hw hused size
  rw [hrun] at hout
  cases hout with
  | same => exact .same hw rfl
  | smaller => exact .same hw rfl
  | blocked => exact .same hw rfl
  | grown hsize hfree hroom hnext hkeeps hw' =>
    refine .exchange (q := { r with size := size }) hw' hkeeps.mSize (.inr rfl) ?_
    rw [usedRegions_append, usedRegions_used (r := { r with size := size }) hused,
      usedRegions_free rfl, usedRegions_free hfree]
  | stale hsize hfree hroom hnull hindex =>
    exact absurd hindex ((hcareful hsize hfree (by omega)).2.resolve_left hnull)
  | doubled hsize hfree hexact =>
    have hlt := (hcareful hsize hfree (by omega)).1
    omega

lemma shrink_effect (hlive : Live h b) (hrun : (shrink b size h).map snd = .ok h') :
    Effect h base rs spare (some b) h' := by
  obtain ⟨l, r, n, t, rfl, hused, rfl⟩ := hlive.split hw.repr
  obtain ⟨a, hrun⟩ := map_snd_ok hrun
  have hout := shrink_run hw hused size
  rw [hrun] at hout
  cases hout with
  | same => exact .same hw rfl
  | rejected => exact .same hw rfl
  | exhausted _ hsame hw' => exact .same hw' hsame.keeps.mSize
  | shrunk _ hsize hw' hlive' => exact .exchange hw' hsize (.inr rfl) hlive'

lemma resize_effect (hlive : Live h b) (hcareful : GrowCareful h b size)
    (hrun : (resize b size h).map snd = .ok h') :
    Effect h base rs spare (some b) h' := by
  obtain ⟨l, r, n, t, hrs, hused, rfl⟩ := hlive.split hw.repr
  rw [hrs] at hw
  rw [resize_run hw hused] at hrun
  rw [← hrs] at hw
  split at hrun
  · cases hrun
    exact .same hw rfl
  · split at hrun
    · exact shrink_effect hw hlive hrun
    · exact grow_effect hw hlive hcareful hrun

lemma compact_effect (hrun : (compact h).map snd = .ok h') : Effect h base rs spare none h' := by
  obtain ⟨hcompact, hsame, hw'⟩ := compact_run hw
  rw [hcompact] at hrun
  cases hrun
  exact .same hw' hsame.keeps.mSize

lemma HeapCall.Step.effect {call : HeapCall} (hstep : HeapCall.Step kept h call h') :
    Effect h base rs spare call.handle? h' := by
  obtain ⟨⟨hlive, hrun⟩, hcareful⟩ := hstep
  cases call with
  | alignedAlloc align size => exact alignedAlloc_effect hw hcareful hrun
  | malloc size => exact alignedAlloc_effect hw hcareful hrun
  | allocateAt address size => exact allocateAt_effect hw hcareful hrun
  | reserve range => exact reserve_effect hw hcareful hrun
  | free block => exact free_effect hw (hlive block rfl).1 hrun
  | split block midpoint => exact split_effect hw (hlive block rfl).1 hrun
  | splitv block points results => exact splitv_effect hw (hlive block rfl).1 hrun
  | grow block size => exact grow_effect hw (hlive block rfl).1 hcareful hrun
  | shrink block size => exact shrink_effect hw (hlive block rfl).1 hrun
  | resize block size => exact resize_effect hw (hlive block rfl).1 hcareful hrun
  | compact => exact compact_effect hw hrun

end

/-! ## Reachable heaps -/

structure Built (ranges : List AnyRange) (h : TlsfHeap) : Prop where
  nonempty : ranges ≠ []
  ordered : Ordered ranges
  spans : Spans (combinedInterval ranges)
  created : ∃ memory, createMany memory ranges = .ok (.success, some h)

def Reachable (ranges : List AnyRange) (h : TlsfHeap) : Prop :=
  ∃ h0 calls, Built ranges h0 ∧ Run (HeapCall.Step []) h0 calls h

variable {ranges : List AnyRange} {calls : List HeapCall} {allowed : TlsfHeap → HeapCall → Bool}
  {memory : SystemMemory}

lemma Built.wellformed (hb : Built ranges h) : ∃ rs lists,
    Wellformed h (combinedInterval ranges).front rs lists [] ∧
      h.mSize = (combinedInterval ranges).size ∧
      pieces (usedRegions rs) = (holesOf ranges).map usedPiece := by
  obtain ⟨hne, hs, hspan, memory, hcreated⟩ := hb
  obtain ⟨range, ranges, rfl⟩ := exists_cons_of_ne_nil hne
  have hfront := (combinedInterval_bounds hs.front_le).1
  rcases createMany_run memory hs hspan with ⟨h1, hnone⟩ | ⟨h1, rs, lists, hrun, hsize, hw, hlive⟩
  · rw [hcreated] at hnone
    cases hnone
  · rw [hcreated] at hrun
    cases hrun
    rw [hfront]
    exact ⟨rs, lists, hw, hsize, hlive⟩

def WellformedOver (range : AnyRange) (h : TlsfHeap) : Prop :=
  (∃ lists, Wellformed h range.front h.regions lists []) ∧ h.mSize = range.size

lemma wellformedOver_of (hw : Wellformed h range.front rs lists []) (hsize : h.mSize = range.size) :
    WellformedOver range h := by
  refine ⟨⟨lists, ?_⟩, hsize⟩
  rw [hw.repr.regions_eq]
  exact hw

lemma HeapCall.Step.wellformedOver {call : HeapCall} (hstep : HeapCall.Step kept h call h')
    (hw : WellformedOver range h) :
    WellformedOver range h' := by
  obtain ⟨⟨lists, hw⟩, hsize⟩ := hw
  obtain ⟨rs', lists', hw', hsize', -⟩ := hstep.effect hw
  exact wellformedOver_of hw' (hsize'.trans hsize)

lemma Reachable.wellformedOver (hr : Reachable ranges h) :
    WellformedOver (combinedInterval ranges) h := by
  obtain ⟨h0, calls, hb, hrun⟩ := hr
  refine hrun.invariant (fun h call h' hw hstep => hstep.wellformedOver hw) ?_
  obtain ⟨rs, lists, hw, hsize, -⟩ := hb.wellformed
  exact wellformedOver_of hw hsize

/-! ## Runs that can be evaluated -/

def replay (allowed : TlsfHeap → HeapCall → Bool) (h : TlsfHeap) : List HeapCall → Option TlsfHeap
  | [] => some h
  | call :: calls =>
    match allowed h call, call.run h with
    | true, .ok h' => replay allowed h' calls
    | _, _ => none

def HeapCall.isLive (kept : List BlockPtr) (h : TlsfHeap) (call : HeapCall) : Bool :=
  decide (∀ b ∈ call.handle?, Live h b ∧ b ∉ kept)

def HeapCall.isCareful (kept : List BlockPtr) (h : TlsfHeap) (call : HeapCall) : Bool :=
  call.isLive kept h && decide (call.Careful h)

lemma replay_run (hreplay : replay allowed h calls = some h') :
    Run (fun h call h' => allowed h call = true ∧ call.run h = .ok h') h calls h' := by
  induction calls generalizing h with
  | nil =>
    cases hreplay
    exact .nil _
  | cons call calls ih =>
    rw [replay] at hreplay
    split at hreplay
    · next hallowed hrun => exact .cons ⟨hallowed, hrun⟩ (ih hreplay)
    · cases hreplay

lemma replay_calls (hreplay : replay (fun h call => call.isLive kept h) h calls = some h') :
    Run (HeapCall.Call kept) h calls h' :=
  (replay_run hreplay).mono fun _ _ _ hstep => ⟨of_decide_eq_true hstep.1, hstep.2⟩

lemma replay_steps (hreplay : replay (fun h call => call.isCareful kept h) h calls = some h') :
    Run (HeapCall.Step kept) h calls h' := by
  refine (replay_run hreplay).mono fun _ _ _ hstep => ?_
  obtain ⟨hlive, hcareful⟩ := Bool.and_eq_true_iff.1 hstep.1
  exact ⟨⟨of_decide_eq_true hlive, hstep.2⟩, of_decide_eq_true hcareful⟩

def SystemMemory.ample : SystemMemory := ⟨fun _ => true, true⟩

/-- The heap over some ranges after some calls, each of which is let through. -/
def replayOver (memory : SystemMemory) (ranges : List AnyRange)
    (allowed : TlsfHeap → HeapCall → Bool) (calls : List HeapCall) : Option TlsfHeap :=
  match createMany memory ranges with
  | .ok (.success, some h) => replay allowed h calls
  | _ => none

instance (ranges : List AnyRange) : Decidable (Ordered ranges) :=
  decidable_of_iff (ranges.IsChain (fun a b => a.front ≤ b.front) ∧ ∀ a ∈ ranges, a.front < a.back)
    ⟨fun h => ⟨h.1, h.2⟩, fun h => ⟨h.1, h.2⟩⟩

instance (range : AnyRange) : Decidable (Spans range) :=
  decidable_of_iff (256 < range.size ∧ range.size < 2 ^ 38 ∧ range.back < wordCount)
    ⟨fun h => ⟨h.1, h.2.1, h.2.2⟩, fun h => ⟨h.1, h.2, h.3⟩⟩

lemma exists_of_any {o : Option α} (p : α → Prop) [DecidablePred p]
    (hany : o.any (fun x => decide (p x)) = true) : ∃ x, o = some x ∧ p x := by
  obtain ⟨x, hx, hp⟩ := (Option.any_eq_true _ _).1 hany
  exact ⟨x, hx, of_decide_eq_true hp⟩

def faultOf {α : Type} : Except Fault α → Option Fault
  | .ok _ => none
  | .error e => some e

lemma faultOf_eq_some {result : Except Fault α} {e : Fault} (hfault : faultOf result = some e) :
    result = .error e := by
  cases result with
  | ok x => cases hfault
  | error e' =>
    cases hfault
    rfl

lemma replayOver_built (hreplay : replayOver memory ranges allowed calls = some h)
    (hne : ranges ≠ []) (hs : Ordered ranges) (hspan : Spans (combinedInterval ranges)) :
    ∃ h0, Built ranges h0 ∧ replay allowed h0 calls = some h := by
  rw [replayOver] at hreplay
  split at hreplay
  · next h0 hcreated => exact ⟨h0, ⟨hne, hs, hspan, memory, hcreated⟩, hreplay⟩
  · cases hreplay

lemma reachable_of_replay
    (hreplay : replayOver memory ranges (fun h call => call.isCareful [] h) calls = some h)
    (hne : ranges ≠ []) (hs : Ordered ranges) (hspan : Spans (combinedInterval ranges)) :
    Reachable ranges h := by
  obtain ⟨h0, hb, hreplay⟩ := replayOver_built hreplay hne hs hspan
  exact ⟨h0, calls, hb, replay_steps hreplay⟩

def gapCalls : List HeapCall := [.malloc 64, .malloc 64, .malloc 64, .free ⟨0, 1⟩]

end Tlsf
end BezOS
