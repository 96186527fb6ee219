import BezOS.Memory.TlsfFormed

/-!
# Blocks on loan

Before a call edits the chain it takes the blocks it may need from the pool. `Borrowed h h' cs`
says that `h'` is `h` with the blocks `cs` on loan; once they are given back nothing but the pool's
magazines can differ. A call that cannot get all its blocks gives back those it got.
-/

namespace BezOS
namespace Tlsf

open Lib Function List

/-- The pool hands out `n` slots in a row. -/
def PoolAllocator.supplies : Nat → PoolAllocator → Bool
  | 0, _ => true
  | n + 1, p =>
    match p.allocate with
    | (some _, p) => supplies n p
    | (none, _) => false

lemma PoolAllocator.supplies_of_le {m n : Nat} {p : PoolAllocator} (h : m ≤ n)
    (hn : supplies n p = true) : supplies m p = true := by
  induction n generalizing m p with
  | zero =>
    obtain rfl := Nat.le_zero.1 h
    exact hn
  | succ n ih =>
    cases m with
    | zero => rfl
    | succ m =>
      rw [supplies] at hn ⊢
      split
      · next heq =>
        rw [heq] at hn
        exact ih (by omega) hn
      · next heq =>
        rw [heq] at hn
        cases hn

def PoolAllocator.giveBack (p : PoolAllocator) : List BlockPtr → PoolAllocator
  | [] => p
  | b :: buffer =>
    match (giveBack p buffer).release b with
    | .ok p => p
    | .error _ => p

/-- What a request for `n` more blocks does to the pool, with those of `buffer` on loan. -/
def PoolAllocator.afterRequest (buffer : List BlockPtr) : Nat → PoolAllocator → PoolAllocator
  | 0, p => p
  | n + 1, p =>
    match p.allocate with
    | (some b, p) => afterRequest (b :: buffer) n p
    | (none, p) => PoolAllocator.giveBack p buffer

/-- The blocks, the lists and all else are as before; the pool holds the same objects, though it
may have got a magazine or have asked for one in vain. -/
structure Unchanged (h h' : TlsfHeap) : Prop where
  rest : h' = { h with mBlockPool := h'.mBlockPool }
  occupied : ∀ a, h'.mBlockPool.Occupied a ↔ h.mBlockPool.Occupied a

/-- The blocks `cs` are on loan from the pool; all else is as before. -/
structure Borrowed (h h' : TlsfHeap) (cs : List BlockPtr) : Prop where
  rest : h' = { h with mBlockPool := h'.mBlockPool, blocks := h'.blocks }
  others : ∀ a, a ∉ cs → h'.blocks a = h.blocks a
  absent : ∀ a ∈ cs, h.blocks a = none

variable {h h' h0 : TlsfHeap} {base : Nat} {rs l t : List Region} {r : Region}
  {lists : Nat → List BlockPtr} {spare cs ds : List BlockPtr} {c : BlockPtr} {pool : PoolAllocator}

namespace Unchanged

lemma refl (h : TlsfHeap) : Unchanged h h := ⟨rfl, fun _ => Iff.rfl⟩

lemma trans {h'' : TlsfHeap} (h1 : Unchanged h h') (h2 : Unchanged h' h'') : Unchanged h h'' :=
  ⟨by rw [h2.rest, h1.rest], fun a => (h2.occupied a).trans (h1.occupied a)⟩

lemma blocks (hu : Unchanged h h') : h'.blocks = h.blocks := by rw [hu.rest]

lemma mNullBlock (hu : Unchanged h h') : h'.mNullBlock = h.mNullBlock := by rw [hu.rest]

lemma keeps (hu : Unchanged h h') : Keeps h h' := by
  rw [hu.rest]
  exact ⟨rfl, rfl, rfl, rfl, rfl⟩

end Unchanged

namespace Borrowed

lemma refl (h : TlsfHeap) : Borrowed h h [] := ⟨rfl, fun _ _ => rfl, by simp⟩

lemma keeps (hb : Borrowed h h' cs) : Keeps h h' := by
  rw [hb.rest]
  exact ⟨rfl, rfl, rfl, rfl, rfl⟩

lemma mNullBlock (hb : Borrowed h h' cs) : h'.mNullBlock = h.mNullBlock := by
  rw [hb.rest]

lemma perm (hb : Borrowed h h' cs) (hp : cs.Perm ds) : Borrowed h h' ds :=
  ⟨hb.rest, fun a ha => hb.others a (by rwa [hp.mem_iff]),
    fun a ha => hb.absent a (by rwa [hp.mem_iff])⟩

lemma unchanged (hb : Borrowed h h' []) (hr : Represents h rs lists spare)
    (hr' : Represents h' rs lists spare) : Unchanged h h' := by
  have hblocks : h'.blocks = h.blocks := funext fun a => hb.others a (by simp)
  refine ⟨?_, fun a => ?_⟩
  · have hrest := hb.rest
    rwa [hblocks] at hrest
  · rw [hr'.occupied, hr.occupied, hblocks]

lemma formed (hb : Borrowed h h' cs) (hf : Formed h base rs lists spare)
    (hr' : Represents h' rs lists ds) : Formed h' base rs lists ds :=
  hf.of_represents hr' hb.keeps hf.tiling

end Borrowed

namespace Represents

section

variable (hr : Represents h rs lists spare)

include hr

lemma perm_spare (hp : spare.Perm cs) :
    Represents h rs lists cs :=
  ⟨hr.laid, (Perm.append_left _ hp).nodup_iff.1 hr.nodup,
    fun a => by rw [hr.objects, hp.mem_iff], hr.marks, hr.null, hr.nullFree, hr.nullLink, hr.listed, hr.member,
    hr.only, hr.pool, hr.occupied⟩

lemma construct_borrow (hb : Borrowed h0 h cs) (init : TlsfBlock)
    (ha : h.mBlockPool.allocate = (some c, pool)) :
    ∃ h', construct init h = .ok (some c, h') ∧ Represents h' rs lists (c :: spare) ∧
      Borrowed h0 h' (c :: cs) ∧ h'.mBlockPool = pool ∧ h'.blocks c = some init := by
  obtain ⟨h', hrun, hr', hc, -, hpool, -⟩ := hr.construct_some init ha
  have heq : h' = { h with blocks := update h.blocks c (some init), mBlockPool := pool } := by
    rw [construct, ha] at hrun
    cases hrun
    rfl
  have hfresh : h.blocks c = none := by
    have hfree := (PoolAllocator.allocate_hands hr.pool ha).free
    rw [hr.occupied] at hfree
    simpa using hfree
  refine ⟨h', hrun, hr', ⟨?_, fun a ha' => ?_, fun a ha' => ?_⟩, hpool, hc⟩
  · rw [heq, hb.rest]
  · rw [mem_cons, not_or] at ha'
    rw [heq, ← hb.others a ha'.2]
    exact update_of_ne ha'.1 ..
  · rcases mem_cons.1 ha' with rfl | ha'
    · by_cases hac : a ∈ cs
      · exact hb.absent a hac
      · rw [← hb.others a hac, hfresh]
    · exact hb.absent a ha'

lemma construct_refused (hb : Borrowed h0 h cs) (init : TlsfBlock)
    (ha : h.mBlockPool.allocate = (none, pool)) :
    ∃ h', construct init h = .ok (none, h') ∧ Represents h' rs lists spare ∧ Borrowed h0 h' cs ∧
      h'.mBlockPool = pool := by
  obtain ⟨hrun, hr'⟩ := hr.construct_none init ha
  refine ⟨_, hrun, hr', ⟨?_, hb.others, hb.absent⟩, rfl⟩
  rw [hb.rest]

end

lemma destroy_borrowed (hr : Represents h rs lists (c :: spare)) (hb : Borrowed h0 h (c :: cs)) :
    ∃ h', destroy c h = .ok ((), h') ∧ Represents h' rs lists spare ∧ Borrowed h0 h' cs ∧
      h.mBlockPool.release c = .ok h'.mBlockPool := by
  obtain ⟨h', hrun, hr', -, -, -⟩ := hr.destroy_spare
  obtain ⟨pool, hpool⟩ : ∃ pool, h.mBlockPool.release c = .ok pool := by
    rw [destroy] at hrun
    cases hrelease : h.mBlockPool.release c with
    | ok pool => exact ⟨pool, rfl⟩
    | error e =>
      rw [hrelease] at hrun
      cases hrun
  have heq : h' = { h with blocks := update h.blocks c none, mBlockPool := pool } := by
    rw [destroy, hpool] at hrun
    cases hrun
    rfl
  refine ⟨h', hrun, hr', ⟨?_, fun a ha => ?_, fun a ha => hb.absent a (by simp [ha])⟩, ?_⟩
  · rw [heq, hb.rest]
  · rw [heq]
    by_cases hac : a = c
    · subst hac
      rw [hb.absent a (by simp)]
      exact update_self ..
    · rw [← hb.others a (by simp [hac, ha])]
      exact update_of_ne hac ..
  · rw [hpool, heq]

end Represents

/-! ## Buffers of blocks -/

lemma destroyBuffer_run {h0 : TlsfHeap} (hr : Represents h rs lists (cs ++ spare))
    (hb : Borrowed h0 h (cs ++ ds)) :
    ∃ h', destroyBuffer cs h = .ok ((), h') ∧ Represents h' rs lists spare ∧ Borrowed h0 h' ds ∧
      h'.mBlockPool = PoolAllocator.giveBack h.mBlockPool cs := by
  induction cs generalizing h spare ds with
  | nil => exact ⟨h, rfl, hr, hb, rfl⟩
  | cons c cs ih =>
    -- The first block of the buffer is the last one to go back.
    have hr' : Represents h rs lists (cs ++ c :: spare) := hr.perm_spare perm_middle.symm
    have hb' : Borrowed h0 h (cs ++ c :: ds) := hb.perm perm_middle.symm
    obtain ⟨h1, hrun1, hr1, hb1, hpool1⟩ := ih hr' hb'
    obtain ⟨h2, hrun2, hr2, hb2, hpool2⟩ := hr1.destroy_borrowed hb1
    refine ⟨h2, ?_, hr2, hb2, ?_⟩
    · rw [destroyBuffer, bind_run hrun1]
      exact hrun2
    · rw [PoolAllocator.giveBack, ← hpool1, hpool2]

lemma reserveBuffer_run {h0 : TlsfHeap} {n : Nat} (hr : Represents h rs lists (cs ++ spare))
    (hb : Borrowed h0 h cs) :
    (PoolAllocator.supplies n h.mBlockPool = true ∧ ∃ h' ds, ds.length = n ∧
      reserveBuffer cs n h = .ok (some (ds ++ cs), h') ∧
      Represents h' rs lists (ds ++ (cs ++ spare)) ∧ Borrowed h0 h' (ds ++ cs)) ∨
    (PoolAllocator.supplies n h.mBlockPool = false ∧ ∃ h',
      reserveBuffer cs n h = .ok (none, h') ∧ Represents h' rs lists spare ∧
      Borrowed h0 h' [] ∧ h'.mBlockPool = PoolAllocator.afterRequest cs n h.mBlockPool) := by
  induction n generalizing h cs with
  | zero => exact .inl ⟨rfl, h, [], rfl, rfl, hr, hb⟩
  | succ n ih =>
    rw [PoolAllocator.supplies, PoolAllocator.afterRequest, reserveBuffer]
    rcases ha : h.mBlockPool.allocate with ⟨_ | c, pool⟩
    · obtain ⟨h1, hrun1, hr1, hb1, hpool1⟩ := hr.construct_refused hb default ha
      have hb1' : Borrowed h0 h1 (cs ++ []) := by simpa using hb1
      obtain ⟨h2, hrun2, hr2, hb2, hpool2⟩ := destroyBuffer_run hr1 hb1'
      refine .inr ⟨rfl, h2, ?_, hr2, hb2, by rw [hpool2, hpool1]⟩
      rw [bind_run hrun1]
      show (destroyBuffer cs >>= fun _ => pure none) h1 = _
      rw [bind_run hrun2]
      rfl
    · obtain ⟨h1, hrun1, hr1, hb1, hpool, -⟩ := hr.construct_borrow hb default ha
      rw [bind_run hrun1]
      have hr1' : Represents h1 rs lists (c :: cs ++ spare) := hr1
      rcases ih hr1' hb1 with ⟨hs, h', ds, hlen, hrun, hr', hb'⟩ | ⟨hs, h', hrun, hr', hb', hp'⟩
      · refine .inl ⟨by rwa [hpool] at hs, h', ds ++ [c], by simp [hlen], ?_, ?_, ?_⟩
        · simpa using hrun
        · simpa using hr'
        · simpa using hb'
      · exact .inr ⟨by rwa [hpool] at hs, h', hrun, hr', hb', by rw [hp', hpool]⟩

end Tlsf
end BezOS
