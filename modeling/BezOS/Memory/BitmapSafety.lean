import BezOS.Lib.Transition
import BezOS.Memory.BitmapAllocator

/-!
# Safety of the bitmap allocator

A client of the allocator holds the blocks it was given and gives back only what it holds. A bit
of the bitmap is set exactly when some live block covers its unit, and from that follow over every
run the alignment, the bounds and the separation of the live blocks, and that giving all of them
back leaves the bitmap as it was made. A run must keep to calls whose scan skips nothing in front
of the run of units it finds, which must end before the region does.
-/

namespace BezOS

open Lib List Nat

structure BitmapBlock where
  ptr : Nat
  size : Nat
  align : Nat
  deriving DecidableEq

namespace BitmapBlock

def covers (b : BitmapBlock) (address : Nat) : Prop := b.ptr ≤ address ∧ address < b.ptr + b.size

end BitmapBlock

namespace BitmapAllocator

def units (a : BitmapAllocator) (size : Nat) : Nat := roundup size a.mUnit / a.mUnit

def firstUnit (a : BitmapAllocator) (b : BitmapBlock) : Nat := (b.ptr - a.memoryFront) / a.mUnit

def holds (a : BitmapAllocator) (b : BitmapBlock) (unit : Nat) : Prop :=
  a.firstUnit b ≤ unit ∧ unit < a.firstUnit b + a.units b.size

/-- `deallocate` of one block after another. -/
def deallocateAll (a : BitmapAllocator) (blocks : List BitmapBlock) : BitmapAllocator :=
  blocks.foldl (fun a b => a.deallocate b.ptr b.size) a

end BitmapAllocator

structure BitmapSystem where
  alloc : BitmapAllocator
  live : List BitmapBlock
  deriving DecidableEq

inductive BitmapCall
  | allocateAligned (size align : Nat)
  | deallocate (block : BitmapBlock)
  deriving DecidableEq

namespace BitmapSystem

def step (s : BitmapSystem) : BitmapCall → BitmapSystem
  | .allocateAligned size align =>
      match s.alloc.allocateAligned size align with
      | (none, alloc) => { s with alloc }
      | (some ptr, alloc) => ⟨alloc, ⟨ptr, size, align⟩ :: s.live⟩
  | .deallocate b => ⟨s.alloc.deallocate b.ptr b.size, s.live.erase b⟩

/-- What a client may ask for: any size, a power of two as alignment, a live block back. -/
def Legal (s : BitmapSystem) : BitmapCall → Prop
  | .allocateAligned size align => size < wordCount ∧ align < wordCount ∧ ∃ k, align = 2 ^ k
  | .deallocate b => b ∈ s.live

/-- The units the scan reports are the free ones it counted, and lie in the region. -/
def Lands (a : BitmapAllocator) (size align : Nat) : Prop :=
  let count := roundup size a.mUnit / a.mUnit
  let stride := roundup align a.mUnit / a.mUnit
  (count = 0 → testBit a.bits 0 = true → stride = 1) ∧
    ∀ j, 0 < count → FirstFit a.bits count stride j →
      Flush a.bits stride j ∧ a.memoryFront + (j + count) * a.mUnit ≤ a.mBack

/-- The alignment is one the allocator can give: rounding up to whole units does not overflow and
keeps it, and the first unit has it. -/
def Alignable (a : BitmapAllocator) (size align : Nat) : Prop :=
  size + a.mUnit ≤ wordCount ∧ align + a.mUnit ≤ wordCount ∧
    align ∣ roundup align a.mUnit ∧ align ∣ a.memoryFront
  deriving Decidable

def Careful (s : BitmapSystem) : BitmapCall → Prop
  | .allocateAligned size align => Alignable s.alloc size align ∧ Lands s.alloc size align
  | .deallocate _ => True

instance (a : BitmapAllocator) (size align : Nat) : Decidable (Lands a size align) :=
  let count := roundup size a.mUnit / a.mUnit
  let stride := roundup align a.mUnit / a.mUnit
  decidable_of_iff ((count = 0 → testBit a.bits 0 = true → stride = 1) ∧
      ∀ j < 8 * a.bits.length + 1, 0 < count → FirstFit a.bits count stride j →
        Flush a.bits stride j ∧ a.memoryFront + (j + count) * a.mUnit ≤ a.mBack)
    (and_congr_right fun _ => forall_congr' fun _ =>
      ⟨fun h hcount hfit => h (by have := hfit.bound; omega) hcount hfit, fun h _ => h⟩)

instance (s : BitmapSystem) (call : BitmapCall) : Decidable (s.Careful call) :=
  match call with
  | .allocateAligned _ _ => inferInstanceAs (Decidable (_ ∧ _))
  | .deallocate _ => isTrue trivial

/-- What the blocks of a client may rely on. -/
structure Safe (s : BitmapSystem) : Prop where
  aligned : ∀ b ∈ s.live, b.align ∣ b.ptr
  inside : ∀ b ∈ s.live, s.alloc.memoryFront ≤ b.ptr ∧ b.ptr + b.size ≤ s.alloc.memoryBack
  apart : s.live.Pairwise fun b c => ∀ address, ¬ (b.covers address ∧ c.covers address)
  offBitmap : ∀ b ∈ s.live, ∀ address,
    ¬ (b.covers address ∧ s.alloc.mFront ≤ address ∧ address < s.alloc.mFront + s.alloc.bits.length)
  restored : s.alloc.deallocateAll s.live =
    BitmapAllocator.init s.alloc.mFront s.alloc.mBack s.alloc.mUnit

end BitmapSystem

/-! ## Rounding -/

section Rounding

variable {value multiple : Nat}

section

variable (h : value + multiple ≤ wordCount) (hpos : 0 < multiple)

include h hpos

lemma roundup_eq :
    roundup value multiple = (value + multiple - 1) / multiple * multiple := by
  rw [roundup, mod_eq_of_lt (by omega)]

lemma le_roundup :
    value ≤ roundup value multiple := by
  rw [roundup_eq h hpos]
  have hdiv := div_add_mod (value + multiple - 1) multiple
  have hmod := mod_lt (value + multiple - 1) hpos
  rw [Nat.mul_comm] at hdiv
  omega

lemma roundup_lt :
    roundup value multiple < value + multiple := by
  rw [roundup_eq h hpos]
  have hle := div_mul_le_self (value + multiple - 1) multiple
  omega

end

lemma roundup_div_mul (value multiple : Nat) :
    roundup value multiple / multiple * multiple = roundup value multiple :=
  Nat.div_mul_cancel (Dvd.intro_left _ rfl)

end Rounding

namespace BitmapAllocator

variable {a : BitmapAllocator} {b c : BitmapBlock} {live : List BitmapBlock}

/-- The region is one, and the bitmap has a byte for every eight units of it. -/
structure Region (a : BitmapAllocator) : Prop where
  front_le : a.mFront ≤ a.mBack
  back_lt : a.mBack < wordCount
  unit_pos : 0 < a.mUnit
  length_bits : a.bits.length = a.bitmapWordCount

lemma Region.size_eq (h : a.Region) : a.mFront + a.size = a.mBack := by
  have hfront := h.front_le
  have hback := h.back_lt
  rcases wrapSub_cases (b := a.mFront) hback (by omega) with ⟨-, heq⟩ | ⟨hlt, -⟩
  · rw [size]
    omega
  · omega

lemma Region.words_le (h : a.Region) : 8 * a.bits.length * a.mUnit ≤ a.size := by
  have hwords : a.bitmapWordCount * 8 ≤ a.bitmapBitCount := div_mul_le_self ..
  have hbits : a.bitmapBitCount * a.mUnit ≤ a.size := div_mul_le_self ..
  rw [h.length_bits, Nat.mul_comm 8]
  exact (Nat.mul_le_mul_right _ hwords).trans hbits

lemma Region.bitmap_le (h : a.Region) :
    a.bits.length ≤ roundup a.bitmapWordCount a.mUnit ∧
      roundup a.bitmapWordCount a.mUnit ≤ a.bits.length * a.mUnit := by
  have hpos := h.unit_pos
  have hwords := h.words_le
  have hsize := h.size_eq
  have hback := h.back_lt
  have hlen := h.length_bits
  rcases Nat.eq_zero_or_pos a.bits.length with hzero | hbits
  · have hround : roundup a.bitmapWordCount a.mUnit = 0 := by
      rw [← hlen, hzero, roundup, Nat.zero_add]
      have hlt : (a.mUnit - 1) % wordCount < a.mUnit := (mod_le _ _).trans_lt (by omega)
      rw [div_eq_of_lt hlt, zero_mul]
    rw [hround, hzero]
    simp
  · have hunit : a.mUnit ≤ a.bits.length * a.mUnit := Nat.le_mul_of_pos_left _ hbits
    have hword : a.bits.length ≤ a.bits.length * a.mUnit := Nat.le_mul_of_pos_right _ hpos
    have hfits : a.bitmapWordCount + a.mUnit ≤ wordCount := by
      rw [Nat.mul_assoc] at hwords
      omega
    refine ⟨by rw [hlen]; exact le_roundup hfits hpos, ?_⟩
    -- a multiple of the unit below `words + unit` is at most `words * unit`
    have hlt := roundup_lt hfits hpos
    have hmul := roundup_div_mul a.bitmapWordCount a.mUnit
    rw [← hmul] at hlt ⊢
    refine Nat.mul_le_mul_right _ ?_
    by_contra hgt
    have hmore := Nat.mul_le_mul_right a.mUnit (succ_le_of_lt (not_le.1 hgt))
    rw [succ_mul] at hmore
    omega

lemma Region.memoryFront_eq (h : a.Region) :
    a.memoryFront = a.mFront + roundup a.bitmapWordCount a.mUnit := by
  have hbitmap := h.bitmap_le
  have hwords := h.words_le
  have hsize := h.size_eq
  have hback := h.back_lt
  rw [Nat.mul_assoc] at hwords
  exact mod_eq_of_lt (by omega)


lemma memoryFront_bits (a : BitmapAllocator) (bits : List UInt8) :
    { a with bits }.memoryFront = a.memoryFront := rfl

/-- A block is where its first unit says, has its alignment, and ends inside the region. -/
structure Placed (a : BitmapAllocator) (b : BitmapBlock) : Prop where
  ptr_eq : b.ptr = a.memoryFront + a.firstUnit b * a.mUnit
  aligned : b.align ∣ b.ptr
  covered : b.size ≤ a.units b.size * a.mUnit
  bound : a.firstUnit b + a.units b.size ≤ 8 * a.bits.length
  inside : a.memoryFront + (a.firstUnit b + a.units b.size) * a.mUnit ≤ a.mBack

/-- The bits of the bitmap and the live blocks say the same, and no unit has two blocks. -/
structure Tracks (a : BitmapAllocator) (live : List BitmapBlock) : Prop where
  region : a.Region
  placed : ∀ b ∈ live, a.Placed b
  apart : live.Pairwise fun b c => ∀ unit, ¬ (a.holds b unit ∧ a.holds c unit)
  bit_iff : ∀ unit, testBit a.bits unit = true ↔ ∃ b ∈ live, a.holds b unit

lemma Tracks.free_of_bit (h : a.Tracks live) {unit : Nat} (hbit : testBit a.bits unit = false)
    (hb : b ∈ live) : ¬ a.holds b unit := by
  intro hholds
  rw [(h.bit_iff unit).2 ⟨b, hb, hholds⟩] at hbit
  cases hbit

lemma Placed.unit_of_covers (h : a.Placed b) (hunit : 0 < a.mUnit) {address : Nat}
    (hcov : b.covers address) : a.holds b ((address - a.memoryFront) / a.mUnit) := by
  obtain ⟨hle, hlt⟩ := hcov
  have hptr := h.ptr_eq
  have hcovered := h.covered
  refine ⟨(Nat.le_div_iff_mul_le hunit).2 (by omega), ?_⟩
  rw [Nat.div_lt_iff_lt_mul hunit, Nat.add_mul]
  omega

lemma Placed.ptr_add_size_le (h : a.Placed b) : b.ptr + b.size ≤ a.mBack := by
  have hptr := h.ptr_eq
  have hcovered := h.covered
  have hinside := h.inside
  rw [Nat.add_mul] at hinside
  omega

/-! ## Deallocate -/

lemma deallocate_eq (h : a.Placed b) (hunit : 0 < a.mUnit) :
    a.deallocate b.ptr b.size =
      { a with bits := clearBitRange a.bits (a.firstUnit b) (a.units b.size) } := by
  rw [deallocate]
  by_cases hout : b.ptr < a.memoryFront ∨ b.ptr ≥ a.memoryBack
  · -- only a block without units starts at the end of the region
    have hptr := h.ptr_eq
    have hinside := h.inside
    have hnone : a.units b.size = 0 := by
      by_contra hne
      have hone := Nat.mul_le_mul_right a.mUnit (Nat.pos_of_ne_zero hne)
      rw [Nat.add_mul] at hinside
      rw [memoryBack] at hout
      omega
    rw [if_pos hout, hnone]
    rfl
  · rw [if_neg hout]
    rfl

lemma Tracks.deallocate (h : a.Tracks (b :: live)) :
    (a.deallocate b.ptr b.size).Tracks live := by
  have hplaced := h.placed b (by simp)
  obtain ⟨hapart, hlive⟩ := pairwise_cons.1 h.apart
  rw [deallocate_eq hplaced h.region.unit_pos]
  refine ⟨⟨h.region.front_le, h.region.back_lt, h.region.unit_pos, ?_⟩, ?_, hlive, ?_⟩
  · rw [length_clearBitRange]
    exact h.region.length_bits
  · intro c hc
    have hc := h.placed c (by simp [hc])
    exact ⟨hc.ptr_eq, hc.aligned, hc.covered, by rw [length_clearBitRange]; exact hc.bound, hc.inside⟩
  · intro unit
    rw [testBit_clearBitRange hplaced.bound, Bool.and_eq_true, decide_eq_true_eq, h.bit_iff]
    constructor
    · rintro ⟨⟨c, hc, hholds⟩, hout⟩
      rcases mem_cons.1 hc with rfl | hc
      · exact absurd hholds hout
      · exact ⟨c, hc, hholds⟩
    · rintro ⟨c, hc, hholds⟩
      exact ⟨⟨c, by simp [hc], hholds⟩, fun hb => hapart c hc unit ⟨hb, hholds⟩⟩

lemma Tracks.perm {live' : List BitmapBlock} (h : a.Tracks live) (hperm : live.Perm live') :
    a.Tracks live' where
  region := h.region
  placed := fun b hb => h.placed b (hperm.mem_iff.2 hb)
  apart := (hperm.pairwise_iff fun hne unit hboth => hne unit hboth.symm).1 h.apart
  bit_iff := fun unit => by simp only [h.bit_iff, hperm.mem_iff]

lemma Tracks.eq_init (h : a.Tracks []) : a = init a.mFront a.mBack a.mUnit := by
  have hbits : a.bits = replicate a.bits.length 0 := by
    refine eq_replicate_of_testBit fun i _ => ?_
    have hiff := h.bit_iff i
    simpa using hiff
  rw [h.region.length_bits] at hbits
  cases a
  rw [init]
  congr 1

lemma Tracks.deallocateAll (h : a.Tracks live) :
    a.deallocateAll live = init a.mFront a.mBack a.mUnit := by
  induction live generalizing a with
  | nil => exact h.eq_init
  | cons b live ih =>
    have hfirst := h.deallocate
    have hrest := ih hfirst
    rw [BitmapAllocator.deallocateAll, foldl_cons]
    rw [deallocate_eq (h.placed b (by simp)) h.region.unit_pos] at hrest ⊢
    exact hrest

/-! ## Allocate -/

lemma Tracks.insert (h : a.Tracks live) (hb : a.Placed b)
    (hfree : ∀ unit, a.holds b unit → testBit a.bits unit = false) :
    { a with bits := setBitRange a.bits (a.firstUnit b) (a.units b.size) }.Tracks (b :: live) := by
  refine ⟨⟨h.region.front_le, h.region.back_lt, h.region.unit_pos, ?_⟩, ?_, ?_, ?_⟩
  · rw [length_setBitRange]
    exact h.region.length_bits
  · intro c hc
    have hc : a.Placed c := by
      rcases mem_cons.1 hc with rfl | hc
      · exact hb
      · exact h.placed c hc
    exact ⟨hc.ptr_eq, hc.aligned, hc.covered, by rw [length_setBitRange]; exact hc.bound, hc.inside⟩
  · refine pairwise_cons.2 ⟨fun c hc unit hboth => ?_, h.apart⟩
    exact h.free_of_bit (hfree unit hboth.1) hc hboth.2
  · intro unit
    rw [testBit_setBitRange hb.bound, Bool.or_eq_true, decide_eq_true_eq, h.bit_iff]
    constructor
    · rintro (⟨c, hc, hholds⟩ | hnew)
      · exact ⟨c, by simp [hc], hholds⟩
      · exact ⟨b, by simp, hnew⟩
    · rintro ⟨c, hc, hholds⟩
      rcases mem_cons.1 hc with rfl | hc
      · exact .inr hholds
      · exact .inl ⟨c, hc, hholds⟩

lemma Region.placed (h : a.Region) {size align start : Nat} (hsize : size + a.mUnit ≤ wordCount)
    (hbound : start + a.units size ≤ 8 * a.bits.length)
    (hinside : a.memoryFront + (start + a.units size) * a.mUnit ≤ a.mBack)
    (hfront : align ∣ a.memoryFront) (hstart : align ∣ start * a.mUnit) :
    ∃ b : BitmapBlock, b = ⟨wrapAdd wordCount a.memoryFront (start * a.mUnit), size, align⟩ ∧
      a.firstUnit b = start ∧ a.Placed b := by
  have hback := h.back_lt
  have hptr : wrapAdd wordCount a.memoryFront (start * a.mUnit) =
      a.memoryFront + start * a.mUnit := by
    rw [Nat.add_mul] at hinside
    exact mod_eq_of_lt (by omega)
  rw [hptr]
  have hfirst : a.firstUnit ⟨a.memoryFront + start * a.mUnit, size, align⟩ = start := by
    rw [firstUnit, Nat.add_sub_cancel_left, Nat.mul_div_cancel _ h.unit_pos]
  refine ⟨_, rfl, hfirst, ?_⟩
  constructor
  · rw [hfirst]
  · exact Nat.dvd_add hfront hstart
  · rw [units, roundup_div_mul]
    exact le_roundup hsize h.unit_pos
  · rw [hfirst]
    exact hbound
  · rw [hfirst]
    exact hinside

lemma Region.start_spec (h : a.Region) {size align start : Nat}
    (hcan : BitmapSystem.Alignable a size align) (hlands : BitmapSystem.Lands a size align)
    (hscan : scanBitsForwards a.bits (a.units size) (roundup align a.mUnit / a.mUnit) = some start) :
    start + a.units size ≤ 8 * a.bits.length ∧
      a.memoryFront + (start + a.units size) * a.mUnit ≤ a.mBack ∧ align ∣ start * a.mUnit ∧
      ∀ unit, start ≤ unit → unit < start + a.units size → testBit a.bits unit = false := by
  obtain ⟨-, -, halign, -⟩ := hcan
  obtain ⟨hempty, hfit⟩ := hlands
  rcases Nat.eq_zero_or_pos (a.units size) with hzero | hpos
  · -- an empty block is put on the first or the second unit
    rw [hzero, scanBitsForwards_zero, Option.some_inj] at hscan
    have hfront := h.memoryFront_eq
    have hbitmap := h.bitmap_le
    have hwords := h.words_le
    have hsize := h.size_eq
    rw [Nat.mul_assoc] at hwords
    rw [hzero, Nat.add_zero]
    by_cases hbit : testBit a.bits 0 = true
    · rw [if_pos hbit] at hscan
      subst hscan
      have hlen : 0 < a.bits.length := by
        refine Nat.pos_of_ne_zero fun hnil => ?_
        rw [testBit_of_ge (by omega)] at hbit
        cases hbit
      have hunit : a.mUnit ≤ a.bits.length * a.mUnit := Nat.le_mul_of_pos_left _ hlen
      have hstride := roundup_div_mul align a.mUnit
      rw [hempty hzero hbit] at hstride
      refine ⟨by omega, by omega, ?_, by omega⟩
      rw [hstride]
      exact halign
    · rw [if_neg hbit] at hscan
      subst hscan
      exact ⟨by omega, by omega, by simp, by omega⟩
  · obtain ⟨j, hfirst, hflush⟩ := scanBitsForwards_spec hpos hscan
    obtain ⟨hj, hinside⟩ := hfit j hpos hfirst
    obtain rfl := hflush hj
    refine ⟨hfirst.bound, hinside, ?_, hfirst.free⟩
    obtain ⟨q, hq⟩ := dvd_of_mod_eq_zero hfirst.aligned
    calc align ∣ roundup align a.mUnit * q := Dvd.dvd.mul_right halign q
      _ = roundup align a.mUnit / a.mUnit * a.mUnit * q := by rw [roundup_div_mul]
      _ = start * a.mUnit := by
        rw [hq, Nat.mul_assoc, Nat.mul_comm a.mUnit, ← Nat.mul_assoc]

end BitmapAllocator

namespace BitmapSystem

open BitmapAllocator

variable {s t : BitmapSystem}

lemma step_allocateAligned (h : s.alloc.Tracks s.live) {size align : Nat}
    (hcare : s.Careful (.allocateAligned size align)) :
    (s.step (.allocateAligned size align)).alloc.Tracks
      (s.step (.allocateAligned size align)).live := by
  obtain ⟨hcan, hlands⟩ := hcare
  rw [step, allocateAligned, allocateBitmapSpace]
  cases hscan : scanBitsForwards s.alloc.bits (s.alloc.units size)
      (roundup align s.alloc.mUnit / s.alloc.mUnit) with
  | none =>
    rw [units] at hscan
    simpa only [hscan] using h
  | some start =>
    obtain ⟨hbound, hinside, hstart, hfree⟩ := h.region.start_spec hcan hlands hscan
    obtain ⟨b, hb, hfirst, hplaced⟩ := h.region.placed hcan.1 hbound hinside hcan.2.2.2 hstart
    have hnew := h.insert hplaced fun unit hunit => by
      obtain ⟨hle, hlt⟩ := hunit
      rw [hfirst] at hle hlt
      exact hfree unit hle (by rw [hb] at hlt; exact hlt)
    rw [hfirst, hb] at hnew
    rw [units] at hscan
    simp only [hscan, memoryFront_bits]
    exact hnew

lemma step_deallocate (h : s.alloc.Tracks s.live) {b : BitmapBlock} (hb : b ∈ s.live) :
    (s.step (.deallocate b)).alloc.Tracks (s.step (.deallocate b)).live :=
  (h.perm (perm_cons_erase hb)).deallocate

/-- A step whose call is legal and meets the condition. -/
def CarefulStep (s : BitmapSystem) (call : BitmapCall) (t : BitmapSystem) : Prop :=
  s.Legal call ∧ s.Careful call ∧ s.step call = t

lemma CarefulStep.tracks {call : BitmapCall} (h : s.alloc.Tracks s.live)
    (hstep : CarefulStep s call t) : t.alloc.Tracks t.live := by
  obtain ⟨hlegal, hcare, rfl⟩ := hstep
  cases call with
  | allocateAligned size align => exact step_allocateAligned h hcare
  | deallocate b => exact step_deallocate h hlegal

lemma tracks_init {front back unit : Nat} (hfront : front ≤ back) (hback : back < wordCount)
    (hunit : 0 < unit) : (init front back unit).Tracks [] where
  region := ⟨hfront, hback, hunit, length_replicate ..⟩
  placed := by simp
  apart := List.Pairwise.nil
  bit_iff := fun i => by simp [init, testBit_replicate_zero]

lemma safe_of_tracks (h : s.alloc.Tracks s.live) : s.Safe where
  aligned := fun b hb => (h.placed b hb).aligned
  inside := fun b hb => by
    have hptr := (h.placed b hb).ptr_eq
    exact ⟨by omega, (h.placed b hb).ptr_add_size_le⟩
  apart := by
    refine h.apart.imp_of_mem ?_
    rintro b c hb hc hunits address ⟨hbc, hcc⟩
    have hpos := h.region.unit_pos
    exact hunits _ ⟨(h.placed b hb).unit_of_covers hpos hbc, (h.placed c hc).unit_of_covers hpos hcc⟩
  offBitmap := by
    rintro b hb address ⟨⟨hle, -⟩, -, hlt⟩
    have hptr := (h.placed b hb).ptr_eq
    have hfront := h.region.memoryFront_eq
    have hbitmap := h.region.bitmap_le
    omega
  restored := h.deallocateAll

/-- In every state that careful calls lead to, the live blocks are aligned, inside the region,
apart from each other and from the bitmap, and giving them all back restores the bitmap. -/
theorem safe_of_run {front back unit : Nat} (hfront : front ≤ back) (hback : back < wordCount)
    (hunit : 0 < unit) {calls : List BitmapCall}
    (hrun : Run CarefulStep ⟨init front back unit, []⟩ calls s) : s.Safe := by
  have htracks : s.alloc.Tracks s.live :=
    hrun.invariant (fun _ _ _ h hstep => CarefulStep.tracks h hstep)
      (tracks_init hfront hback hunit)
  exact safe_of_tracks htracks

/-- Eight units, of which the bitmap takes the first: two blocks, the first given back. -/
theorem safe_of_two_blocks :
    ∃ s, Run CarefulStep ⟨init 0x1000 0x1080 16, []⟩
        [.allocateAligned 16 16, .allocateAligned 40 8, .deallocate ⟨0x1010, 16, 16⟩] s ∧
      s.live = [⟨0x1020, 40, 8⟩] ∧ s.Safe := by
  have hrun : Run CarefulStep ⟨init 0x1000 0x1080 16, []⟩
      [.allocateAligned 16 16, .allocateAligned 40 8, .deallocate ⟨0x1010, 16, 16⟩]
      ⟨⟨0x1000, 0x1080, 16, [14]⟩, [⟨0x1020, 40, 8⟩]⟩ :=
    .cons (t := ⟨⟨0x1000, 0x1080, 16, [1]⟩, [⟨0x1010, 16, 16⟩]⟩)
      ⟨⟨by decide, by decide, 4, rfl⟩, by decide +kernel, by decide +kernel⟩ <|
    .cons (t := ⟨⟨0x1000, 0x1080, 16, [15]⟩, [⟨0x1020, 40, 8⟩, ⟨0x1010, 16, 16⟩]⟩)
      ⟨⟨by decide, by decide, 3, rfl⟩, by decide +kernel, by decide +kernel⟩ <|
    .cons ⟨by simp [Legal], trivial, by decide +kernel⟩ (.nil _)
  exact ⟨_, hrun, rfl, safe_of_run (by decide) (by decide) (by decide) hrun⟩

def LegalStep (s : BitmapSystem) (call : BitmapCall) (t : BitmapSystem) : Prop :=
  s.Legal call ∧ s.step call = t

/-- Two single units taken, a third block aligned to two of them is given the second again. -/
theorem not_safe_of_skipped_units :
    ∃ s, Run LegalStep ⟨init 0x1000 0x1080 16, []⟩
        [.allocateAligned 16 16, .allocateAligned 16 16, .allocateAligned 16 32] s ∧ ¬ s.Safe := by
  have hrun : Run LegalStep ⟨init 0x1000 0x1080 16, []⟩
      [.allocateAligned 16 16, .allocateAligned 16 16, .allocateAligned 16 32]
      ⟨⟨0x1000, 0x1080, 16, [3]⟩, [⟨0x1020, 16, 32⟩, ⟨0x1020, 16, 16⟩, ⟨0x1010, 16, 16⟩]⟩ :=
    .cons (t := ⟨⟨0x1000, 0x1080, 16, [1]⟩, [⟨0x1010, 16, 16⟩]⟩)
      ⟨⟨by decide, by decide, 4, rfl⟩, by decide +kernel⟩ <|
    .cons (t := ⟨⟨0x1000, 0x1080, 16, [3]⟩, [⟨0x1020, 16, 16⟩, ⟨0x1010, 16, 16⟩]⟩)
      ⟨⟨by decide, by decide, 4, rfl⟩, by decide +kernel⟩ <|
    .cons ⟨⟨by decide, by decide, 5, rfl⟩, by decide +kernel⟩ (.nil _)
  refine ⟨_, hrun, fun hsafe => ?_⟩
  have hfirst := (pairwise_cons.1 hsafe.apart).1 ⟨0x1020, 16, 16⟩ (by simp) 0x1020
  exact hfirst ⟨⟨by decide, by decide⟩, ⟨by decide, by decide⟩⟩

end BitmapSystem
end BezOS
