import BezOS.Memory.TlsfAllocating

/-!
# Reservations

`reserve` on a reachable heap, as bytes: a range inside one free block is reserved exactly, unless
it ends where the block ends and the block is not the null block.
-/

namespace BezOS
namespace Tlsf

open Lib PoolAllocator

variable {h h' : TlsfHeap} {base : Nat} {rs l t : List Region} {r q : Region}
  {lists : Nat → List BlockPtr} {spare : List BlockPtr} {range : AnyRange} {ranges : List AnyRange}

/-- Some free block holds the range. -/
def HoldsFree (h : TlsfHeap) (range : AnyRange) : Prop :=
  ∃ r ∈ h.regions, r.used = false ∧ r.offset ≤ range.front ∧ range.back ≤ r.offset + r.size

/-- The range lies at the end of a free block that is not the null block. -/
def EndsFree (h : TlsfHeap) (range : AnyRange) : Prop :=
  ∃ r ∈ h.regions, r.used = false ∧ r.block ≠ h.mNullBlock ∧ r.offset ≤ range.front ∧
    range.back = r.offset + r.size
  deriving Decidable

/-- What `reserve` promises: the range is reserved iff some free block holds it, and otherwise
nothing changes. -/
def ReserveExact (h : TlsfHeap) (range : AnyRange) :
    Except Fault ((OsStatus × Option BlockPtr) × TlsfHeap) → Prop
  | .ok ((.success, some b), h') => HoldsFree h range ∧
      Occupies h ⟨b, range.front, range.back - range.front, true⟩ h'
  | .ok ((status, none), h') => status ≠ .success ∧ ¬ HoldsFree h range ∧ Unchanged h h'
  | _ => False

lemma reserveExact_none {status : OsStatus} : ReserveExact h range (.ok ((status, none), h')) ↔
    status ≠ .success ∧ ¬ HoldsFree h range ∧ Unchanged h h' := by
  cases status <;> exact Iff.rfl

lemma Finds.holdsFree (hfinds : Finds h.regions l r t range) : HoldsFree h range := by
  refine ⟨r, ?_, hfinds.free, hfinds.front, hfinds.back⟩
  rw [hfinds.chain]
  simp

lemma holdsFree_cases (hw : Wellformed h base h.regions lists spare)
    (hholds : HoldsFree h range) : EndsFree h range ∨ ∃ l r t, Finds h.regions l r t range := by
  obtain ⟨r, hmem, hfree, hfront, hback⟩ := hholds
  obtain ⟨l, t, hchain⟩ := List.append_of_mem hmem
  by_cases hnull : r.block = h.mNullBlock
  · have hr := hw.repr
    rw [hchain] at hr
    exact .inr ⟨l, r, t, hchain, hfree, hfront, hback, .inr (hr.null_iff.1 hnull)⟩
  · rcases Nat.lt_or_eq_of_le hback with hlt | heq
    · exact .inr ⟨l, r, t, hchain, hfree, hfront, hback, .inl hlt⟩
    · exact .inl ⟨r, hmem, hfree, hnull, hfront, heq⟩

lemma not_finds_of_endsFree (hw : Wellformed h base h.regions lists spare)
    (hrange : range.front < range.back) (hends : EndsFree h range) :
    ¬ ∃ l r t, Finds h.regions l r t range := by
  rintro ⟨l, r, t, hfinds⟩
  obtain ⟨r', hmem, hfree, hnull, hfront, hback⟩ := hends
  have hr := hw.repr
  have hf := hw.toFormed
  rw [hfinds.chain] at hmem hr hf
  have hfront' := hfinds.front
  have hback' := hfinds.back
  -- Two blocks that hold the range are one.
  rcases List.mem_append.1 hmem with hl | ht
  · obtain ⟨l1, l2, rfl⟩ := List.append_of_mem hl
    have hf' : Formed h base (l1 ++ r' :: (l2 ++ r :: t)) lists spare := by simpa using hf
    have hbehind := hf'.behind (q := r) (by simp)
    omega
  · rcases List.mem_cons.1 ht with rfl | ht
    · rcases hfinds.inside with hinside | rfl
      · omega
      · exact hnull (hr.null_iff.2 rfl)
    · have hbehind := hf.behind ht
      omega

end Tlsf
end BezOS

/-!
## Exhaustion

What the calls do when the pool of control blocks refuses one. `split`, `splitv`, `reserve` and
`allocateAt` fail and give back what they got. `aligned_alloc` goes on to the next block, which may
take fewer control blocks; when it fails, all is as before.
-/

namespace BezOS
namespace Tlsf

open Lib PoolAllocator

variable {h h' : TlsfHeap} {base : Nat} {rs l l' t t' : List Region} {r r' : Region}
  {lists : Nat → List BlockPtr} {spare : List BlockPtr} {range : AnyRange} {ranges : List AnyRange}

lemma Finds.unique (hf : Formed h base rs lists spare) (hrange : range.front < range.back)
    (hfinds : Finds rs l r t range) (hfinds' : Finds rs l' r' t' range) :
    l = l' ∧ r = r' ∧ t = t' := by
  -- Of two blocks one would lie behind the other.
  have hbehind : ∀ {l1 r1 t1 r2}, rs = l1 ++ r1 :: t1 → r2 ∈ t1 → r1.offset ≤ range.front →
      range.back ≤ r1.offset + r1.size → ¬ r2.offset ≤ range.front := by
    rintro l1 r1 t1 r2 rfl hmem hfront hback hfront'
    have hle := hf.behind hmem
    omega
  have hchain := hfinds.chain.symm.trans hfinds'.chain
  rcases List.append_eq_append_iff.1 hchain with ⟨m, rfl, hm⟩ | ⟨m, rfl, hm⟩
  · cases m with
    | nil =>
      obtain ⟨rfl, rfl⟩ := List.cons.inj hm
      exact ⟨by simp, rfl, rfl⟩
    | cons x m =>
      obtain ⟨rfl, rfl⟩ := List.cons.inj hm
      exact absurd hfinds'.front (hbehind hfinds.chain (by simp) hfinds.front hfinds.back)
  · cases m with
    | nil =>
      obtain ⟨rfl, rfl⟩ := List.cons.inj hm
      exact ⟨by simp, rfl, rfl⟩
    | cons x m =>
      obtain ⟨rfl, rfl⟩ := List.cons.inj hm
      exact absurd hfinds.front (hbehind hfinds'.chain (by simp) hfinds'.front hfinds'.back)

/-- The pool refuses a block for the range, which is found in a free one. -/
def RangeExhausted (h : TlsfHeap) (range : AnyRange) : Prop :=
  ∃ l r t, Finds h.regions l r t range ∧
    supplies (blocksForRange h l r range) h.compacted.mBlockPool = false

/-- The pool refuses a block for the first of the blocks that are tried. -/
def AllocExhausted (h : TlsfHeap) (align size : Nat) : Prop :=
  ∃ b ∈ (h.tried align size).head?, ∃ k, h.blocks b = some k ∧ supplies
    (blocksFor h (k.region b) (roundup k.offset align) size) h.mBlockPool = false

structure ExhaustionSafe (h : TlsfHeap) : Prop where
  split : ∀ r ∈ h.regions, r.used = true → ∀ mid, r.offset < mid → mid < r.offset + r.size →
    supplies 1 h.mBlockPool = false →
    ∃ h', split r.block mid h = .ok ((.outOfMemory, none), h') ∧ Unchanged h h'
  splitv : ∀ r ∈ h.regions, r.used = true → ∀ points results, points ≠ [] →
    points.length ≤ results.length → CutPoints r.offset (r.offset + r.size) points →
    supplies points.length h.mBlockPool = false →
    ∃ results' h', splitv r.block points results h = .ok ((.outOfMemory, results'), h') ∧
      Unchanged h h'
  reserve : ∀ range, ReserveCareful h range → RangeExhausted h range →
    ∃ h', reserve range h = .ok ((.outOfMemory, none), h') ∧ Unchanged h h'
  allocateAt : ∀ address size, address % kMaxAlign = 0 → 0 < size → address + size < wordCount →
    ReserveCareful h ⟨address, address + size⟩ → RangeExhausted h ⟨address, address + size⟩ →
    ∃ h', allocateAt address size h = .ok (none, h') ∧ Unchanged h h'
  alignedAlloc : ∀ align size, 0 < align → 0 < size → AllocCareful h align size →
    AllocExhausted h align size → SoundResult h align size (alignedAlloc align size h)

lemma reserve_exhausted (hw : Wellformed h base h.regions lists [])
    (hcareful : ReserveCareful h range) (hexhausted : RangeExhausted h range) :
    ∃ h', reserve range h = .ok ((.outOfMemory, none), h') ∧ Unchanged h h' := by
  obtain ⟨l, r, t, hfinds, hrefused⟩ := hexhausted
  have hout := reserve_run hw hcareful.1 fun l r t hfinds => (hcareful.keeps hw l t r hfinds).1
  generalize reserve range h = result at hout
  cases hout with
  | reserved hfinds' hpool =>
    obtain ⟨rfl, rfl, rfl⟩ := hfinds.unique hw.toFormed hcareful.1 hfinds'
    rw [hpool] at hrefused
    cases hrefused
  | exhausted _ _ hsame => exact ⟨_, rfl, hsame⟩
  | halfway hfinds' hsplit hone hpool =>
    rw [(hcareful.keeps hw _ _ _ hfinds').2 rfl hsplit hone] at hpool
    cases hpool
  | missed hnone => exact absurd hfinds (hnone l r t)

lemma allocateAt_exhausted {address size : Nat} (hw : Wellformed h base h.regions lists [])
    (halign : address % kMaxAlign = 0) (hsize : 0 < size) (hword : address + size < wordCount)
    (hcareful : ReserveCareful h ⟨address, address + size⟩)
    (hexhausted : RangeExhausted h ⟨address, address + size⟩) :
    ∃ h', allocateAt address size h = .ok (none, h') ∧ Unchanged h h' := by
  obtain ⟨h', hrun, hsame⟩ := reserve_exhausted hw hcareful hexhausted
  refine ⟨h', ?_, hsame⟩
  rw [allocateAt, if_neg (not_not.2 halign), if_neg (Nat.ne_of_gt hsize), wrapAdd_of_lt hword,
    bind_run hrun]
  rfl

instance (h : TlsfHeap) (align size : Nat) : Decidable (AllocExhausted h align size) :=
  decidable_of_iff (∃ b ∈ (h.tried align size).head?, ∃ k ∈ h.blocks b, supplies
    (blocksFor h (k.region b) (roundup k.offset align) size) h.mBlockPool = false) Iff.rfl

end Tlsf
end BezOS
