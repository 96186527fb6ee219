import BezOS.Memory.TlsfRuns

/-!
# Allocations

What `aligned_alloc` returns on a reachable heap, as bytes. As long as every block it tries can be
padded, an allocation is aligned, lies in one free block and changes the bytes asked for only. But
it tries few blocks: those of one list, the null block, and those of the list of a smaller size; a
block with room in another list goes unseen.
-/

namespace BezOS
namespace Tlsf

open Lib PoolAllocator

variable {h h' : TlsfHeap} {base : Nat} {rs l t : List Region} {r q : Region}
  {lists : Nat → List BlockPtr} {spare : List BlockPtr} {b : BlockPtr} {align size o k : Nat}
  {ranges : List AnyRange}

/-! ## Soundness -/

/-- The bytes of `q` are used, and all others are as before. -/
structure Occupies (h : TlsfHeap) (q : Region) (h' : TlsfHeap) : Prop where
  mem : q ∈ usedRegions h'.regions
  bytes : ∀ a, UsedAt (pieces h'.regions) a ↔
    UsedAt (pieces h.regions) a ∨ (q.offset ≤ a ∧ a < q.offset + q.size)

lemma usedAt_iff {rs : List Region} {a : Nat} : UsedAt (pieces rs) a ↔
    ∃ r ∈ usedRegions rs, r.offset ≤ a ∧ a < r.offset + r.size := by
  rw [UsedAt, live_pieces]
  constructor
  · rintro ⟨p, hp, hbounds⟩
    obtain ⟨r, hr, rfl⟩ := List.mem_map.1 hp
    exact ⟨r, hr, hbounds⟩
  · rintro ⟨r, hr, hbounds⟩
    exact ⟨r.piece, piece_mem hr, hbounds⟩

lemma occupies_of_exchange (hfree : r.used = false) (hchain : h.regions = l ++ r :: t)
    (hlive : usedRegions h'.regions = usedRegions l ++ q :: usedRegions t) : Occupies h q h' := by
  refine ⟨by rw [hlive]; simp, fun a => ?_⟩
  rw [usedAt_iff, usedAt_iff, hlive, hchain, usedRegions_append, usedRegions_free hfree]
  simp only [List.mem_append, List.mem_cons]
  constructor
  · rintro ⟨u, (hu | rfl | hu), hbounds⟩
    · exact .inl ⟨u, .inl hu, hbounds⟩
    · exact .inr hbounds
    · exact .inl ⟨u, .inr hu, hbounds⟩
  · rintro (⟨u, (hu | hu), hbounds⟩ | hbounds)
    · exact ⟨u, .inl hu, hbounds⟩
    · exact ⟨u, .inr (.inr hu), hbounds⟩
    · exact ⟨q, .inr (.inl rfl), hbounds⟩

/-- The block `r` has an aligned place for `size` bytes at `o`. -/
structure HasPlace (align size : Nat) (r : Region) (o : Nat) : Prop where
  aligned : align ∣ o
  front : r.offset ≤ o
  back : o + size ≤ r.offset + r.size

/-- What may come out of `aligned_alloc`: an allocation in one free block, nothing, a shift by the
width of the bitmap for a size no heap has, or a failed check when a sum of sizes wraps. -/
def SoundResult (h : TlsfHeap) (align size : Nat) :
    Except Fault (Option BlockPtr × TlsfHeap) → Prop
  | .ok (some b, h') => ∃ r ∈ h.regions, r.used = false ∧ ∃ o, HasPlace align size r o ∧
      Occupies h ⟨b, o, size, true⟩ h'
  | .ok (none, h') => Unchanged h h'
  | .error e =>
    (e = .badAccess ∧ ¬ (RequestIndicesSafe size ∧ RequestIndicesSafe (getNextBlockSize size))) ∨
      (e = .bugCheck ∧ Overlong h.regions align size)

lemma alignedAlloc_soundResult (hw : Wellformed h base h.regions lists spare) (halign : 0 < align)
    (hsize : 0 < size) (hcareful : AllocCareful h align size) :
    SoundResult h align size (alignedAlloc align size h) := by
  have hout := allocBestFit_run hw halign hsize hcareful
  rw [alignedAlloc]
  generalize halloc : allocBestFit align size h = result at hout
  cases hout with
  | @served b h1 hserved =>
    rw [bind_run halloc]
    obtain ⟨l, r, t, rs', lists', hchain, rfl, hfree, hfront, hback, hw', hlive⟩ := hserved.cut
    have hf' := hw'.toFormed.recount h1.mReserved (h1.mMallocCount + 1) h1.mFreeCount
    refine ⟨r, by rw [hchain]; simp, hfree, roundup r.offset align,
      ⟨Nat.dvd_mul_left _ _, hfront, hback⟩, occupies_of_exchange hfree hchain ?_⟩
    rw [hf'.repr.regions_eq, hlive]
  | none hnone =>
    rw [bind_run halloc]
    exact hnone.same
  | panic hover =>
    rw [bind_error halloc]
    exact .inr ⟨rfl, hover⟩
  | shift hbeyond =>
    rw [bind_error halloc]
    exact .inl ⟨rfl, hbeyond⟩

lemma roundup_eq (hlt : o + (2 ^ k - 1) < wordCount) :
    2 ^ k ∣ roundup o (2 ^ k) ∧ o ≤ roundup o (2 ^ k) ∧ roundup o (2 ^ k) < o + 2 ^ k ∧
      ∀ a, 2 ^ k ∣ a → o ≤ a → roundup o (2 ^ k) ≤ a := by
  have hpos : 0 < 2 ^ k := Nat.two_pow_pos k
  rw [roundup, wrapAdd_of_lt hlt]
  have hdiv := Nat.div_add_mod (o + (2 ^ k - 1)) (2 ^ k)
  rw [Nat.mul_comm] at hdiv
  refine ⟨Nat.dvd_mul_left _ _, by omega, by omega, ?_⟩
  rintro a ⟨c, rfl⟩ hle
  have hquot : (o + (2 ^ k - 1)) / 2 ^ k < c + 1 := by
    rw [Nat.div_lt_iff_lt_mul hpos, Nat.add_mul, Nat.mul_comm c]
    omega
  rw [Nat.mul_comm (2 ^ k)]
  exact Nat.mul_le_mul_right _ (Nat.le_of_lt_succ hquot)

lemma roundup_wraps (hk : k < 64) (ho : o < wordCount) (hle : wordCount ≤ o + (2 ^ k - 1)) :
    roundup o (2 ^ k) = 0 ∧ ∀ a, 2 ^ k ∣ a → o ≤ a → wordCount ≤ a := by
  have hword : wordCount = 2 ^ k * 2 ^ (64 - k) := by
    rw [← Nat.pow_add, Nat.add_sub_cancel' (Nat.le_of_lt hk)]
  have hpow : 2 ^ k ≤ wordCount := by
    rw [hword]
    exact Nat.le_mul_of_pos_right _ (Nat.two_pow_pos _)
  constructor
  · have hwrap : wrapAdd wordCount o (2 ^ k - 1) < 2 ^ k := by
      have hcases := wrapAdd_cases (b := 2 ^ k - 1) ho (by omega)
      omega
    rw [roundup, Nat.div_eq_of_lt hwrap, Nat.zero_mul]
  · rintro a ⟨c, rfl⟩ hle'
    have hlt : 2 ^ k * (2 ^ (64 - k) - 1) < 2 ^ k * c := by
      rw [Nat.mul_sub, ← hword]
      omega
    have hc : 2 ^ (64 - k) - 1 < c := Nat.lt_of_mul_lt_mul_left hlt
    rw [hword]
    exact Nat.mul_le_mul_left _ (by omega)

lemma fits_iff (hk : k < 64) (hsize : size < 2 ^ 38) (hword : r.offset + r.size < wordCount) :
    Fits (2 ^ k) size r ↔ ∃ o, HasPlace (2 ^ k) size r o := by
  have hpow : 2 ^ k ≤ 2 ^ 63 := Nat.pow_le_pow_right (by decide) (by omega)
  have hcount : wordCount = 2 ^ 64 := rfl
  rw [Fits]
  rcases Nat.lt_or_ge (r.offset + (2 ^ k - 1)) wordCount with hlt | hge
  · obtain ⟨hdvd, hfront, hback, hleast⟩ := roundup_eq hlt
    have hneed : wrapSub wordCount (wrapAdd wordCount size (roundup r.offset (2 ^ k))) r.offset =
        size + (roundup r.offset (2 ^ k) - r.offset) := by
      have hadd := wrapAdd_cases (w := wordCount) (a := size) (b := roundup r.offset (2 ^ k))
        (by omega) (by omega)
      have hsub := wrapSub_cases (w := wordCount) (b := r.offset)
        (wrapAdd_lt (a := size) (b := roundup r.offset (2 ^ k)) (by decide)) (by omega)
      omega
    rw [hneed]
    constructor
    · intro hfit
      exact ⟨roundup r.offset (2 ^ k), hdvd, hfront, by omega⟩
    · rintro ⟨o, hplace⟩
      have hle := hleast o hplace.aligned hplace.front
      have hend := hplace.back
      omega
  · obtain ⟨hzero, hbeyond⟩ := roundup_wraps hk (by omega) hge
    have hneed : wrapSub wordCount (wrapAdd wordCount size 0) r.offset =
        size + (wordCount - r.offset) := by
      have hsub := wrapSub_cases (w := wordCount) (a := size) (b := r.offset) (by omega) (by omega)
      rw [wrapAdd_of_lt (by omega), Nat.add_zero]
      omega
    rw [hzero, hneed]
    constructor
    · omega
    · rintro ⟨o, hplace⟩
      have hle := hbeyond o hplace.aligned hplace.front
      have hend := hplace.back
      omega

/-- The pool has the control blocks to cut `size` aligned bytes out of any free block that has a
place for them. -/
def PoolSupplies (h : TlsfHeap) (align size : Nat) : Prop :=
  ∀ r ∈ h.regions, r.used = false → (∃ o, HasPlace align size r o) →
    supplies (blocksFor h r (roundup r.offset align) size) h.mBlockPool = true

lemma poolSupplies_of_two (hpool : supplies 2 h.mBlockPool = true) :
    PoolSupplies h align size := fun _ _ _ _ =>
  supplies_of_le (blocksFor_le ..) hpool

/-- If some free block has a place, one that is looked at has. -/
def Looked (h : TlsfHeap) (align size : Nat) : Prop :=
  (∃ r ∈ h.regions, r.used = false ∧ ∃ o, HasPlace align size r o) →
    ∃ r ∈ h.regions, r.block ∈ h.candidates size ∧ ∃ o, HasPlace align size r o

end Tlsf
end BezOS
