import Mathlib.Algebra.GroupWithZero.Nat
import Mathlib.Data.List.Basic
import Mathlib.Data.List.Nodup
import Mathlib.Data.List.Perm.Subperm
import Mathlib.Order.Basic
import BezOS.Status

/-!
# The pool allocator

`PoolAllocator` of `memory/detail/pool.hpp`: objects of one size, handed out from magazines that
are asked from the system allocator one at a time. A magazine links its free slots through the
slots themselves; here the links are the list of the free slots, in their order. What the system
allocator answers to the next requests for a magazine is given in advance.
-/

namespace BezOS

open List Nat

/-- The address of a slot: its magazine and its place in there. -/
structure PoolSlot where
  magazine : Nat
  index : Nat
  deriving DecidableEq

/-- `detail::PoolBlock`: `free` are the slots reached from `firstFreeIndex`. -/
structure PoolBlock where
  address : Nat
  count : Nat
  free : List Nat
  deriving DecidableEq

namespace PoolBlock

def take (m : PoolBlock) : Option (PoolSlot × PoolBlock) :=
  match m.free with
  | [] => none
  | i :: free => some (⟨m.address, i⟩, { m with free := free })

def give (m : PoolBlock) (slot : PoolSlot) : PoolBlock := { m with free := slot.index :: m.free }

def contains (m : PoolBlock) (slot : PoolSlot) : Prop :=
  slot.magazine = m.address ∧ slot.index < m.count
  deriving Decidable

def isEmpty (m : PoolBlock) : Bool := m.free.length == m.count

/-- `init`. -/
def fresh (address count : Nat) : PoolBlock := ⟨address, count, range count⟩

end PoolBlock

structure PoolAllocator where
  /-- The magazines, the last one first: the order in which they are searched. -/
  mBlocks : List PoolBlock
  /-- No magazine has been placed at this address or a later one. -/
  nextAddress : Nat
  /-- Whether the system allocator grants the next requests for a magazine. -/
  grants : Nat → Bool

namespace PoolAllocator

def nextBlockCapacity (p : PoolAllocator) : Nat :=
  match p.mBlocks with
  | [] => 16
  | m :: _ => m.count * 3 / 2

/-- `newBlock`. It fails when the memory or the room in `mBlocks` is not granted, and gives back
in the second case what it got in the first. The magazine keeps 32 bits of its size. -/
def newBlock (p : PoolAllocator) : Option PoolAllocator × PoolAllocator :=
  let asked := { p with grants := fun n => p.grants (n + 1) }
  if p.grants 0 then
    (some { asked with
              mBlocks := .fresh p.nextAddress (p.nextBlockCapacity % 2 ^ 32) :: p.mBlocks,
              nextAddress := p.nextAddress + 1 }, asked)
  else (none, asked)

def takeFrom : List PoolBlock → Option (PoolSlot × List PoolBlock)
  | [] => none
  | m :: ms =>
    match m.take with
    | some (slot, m) => some (slot, m :: ms)
    | none => (takeFrom ms).map fun (slot, ms) => (slot, m :: ms)

/-- The slot `allocate` finds in the magazines there are. -/
def allocateSlot (p : PoolAllocator) : Option (PoolSlot × PoolAllocator) :=
  (takeFrom p.mBlocks).map fun (slot, ms) => (slot, { p with mBlocks := ms })

def allocate (p : PoolAllocator) : Option PoolSlot × PoolAllocator :=
  match p.allocateSlot with
  | some (slot, p) => (some slot, p)
  | none =>
    match p.newBlock with
    | (none, p) => (none, p)
    | (some p, _) =>
      match p.allocateSlot with
      | some (slot, p) => (some slot, p)
      | none => (none, p)

def giveTo (slot : PoolSlot) : List PoolBlock → Option (List PoolBlock)
  | [] => none
  | m :: ms =>
    if m.contains slot then some (m.give slot :: ms) else (giveTo slot ms).map (m :: ·)

/-- `release`: a slot of no magazine is `std::unreachable`. -/
def release (p : PoolAllocator) (slot : PoolSlot) : Except Fault PoolAllocator :=
  match giveTo slot p.mBlocks with
  | some ms => .ok { p with mBlocks := ms }
  | none => .error .badAccess

/-- `compact`: the magazines without an object are given back. -/
def compact (p : PoolAllocator) : PoolAllocator :=
  { p with mBlocks := p.mBlocks.filter fun m => !m.isEmpty }

def objectCount (p : PoolAllocator) : Nat := (p.mBlocks.map fun m => m.count - m.free.length).sum

/-! ## The sizes of magazines -/

/-- The sizes that growing by half, in 32 bits, leads to zero. -/
def vanishing : List Nat :=
  [0, 2863311531, 1908874354, 1272582903, 848388602, 3711700133, 3428903932, 2285935955]

/-- A size the magazines of a pool can have: no later one is zero. -/
def Capacity (n : Nat) : Prop := n < 2 ^ 32 ∧ n ∉ vanishing

lemma capacity_first : Capacity 16 := by
  simp [Capacity, vanishing]

lemma Capacity.next {n : Nat} (h : Capacity n) : Capacity (n * 3 / 2 % 2 ^ 32) := by
  obtain ⟨hlt, hno⟩ := h
  refine ⟨mod_lt _ (by decide), fun hmem => hno ?_⟩
  simp only [vanishing, mem_cons, not_mem_nil, or_false] at hmem ⊢
  rcases Nat.lt_or_ge (n * 3 / 2) (2 ^ 32) with hsmall | hlarge
  · rw [mod_eq_of_lt hsmall] at hmem
    omega
  · -- the product passes the word once at most
    rw [mod_eq_sub_mod hlarge, mod_eq_of_lt (by omega)] at hmem
    omega

lemma Capacity.pos {n : Nat} (h : Capacity n) : 0 < n := by
  rcases Nat.eq_zero_or_pos n with rfl | hpos
  · exact absurd (by simp [vanishing]) h.2
  · exact hpos

/-! ## Occupied slots -/

def Occupied (p : PoolAllocator) (slot : PoolSlot) : Prop :=
  ∃ m ∈ p.mBlocks, m.contains slot ∧ slot.index ∉ m.free

structure Valid (p : PoolAllocator) : Prop where
  nodup : (p.mBlocks.map PoolBlock.address).Nodup
  placed : ∀ m ∈ p.mBlocks, m.address < p.nextAddress
  count : ∀ m ∈ p.mBlocks, Capacity m.count
  free_nodup : ∀ m ∈ p.mBlocks, m.free.Nodup
  free_lt : ∀ m ∈ p.mBlocks, ∀ i ∈ m.free, i < m.count

variable {p p' asked : PoolAllocator} {m m' : PoolBlock} {l t ms ms' : List PoolBlock}
  {slot slot' : PoolSlot}

lemma Valid.eq_of_address (h : p.Valid) (hm : m ∈ p.mBlocks) (hm' : m' ∈ p.mBlocks)
    (heq : m.address = m'.address) : m = m' :=
  inj_on_of_nodup_map h.nodup hm hm' heq

lemma Valid.occupied_iff (h : p.Valid) (hm : m ∈ p.mBlocks) (hslot : m.contains slot) :
    p.Occupied slot ↔ slot.index ∉ m.free := by
  constructor
  · rintro ⟨m', hm', hslot', hfree⟩
    rwa [h.eq_of_address hm hm' (hslot.1.symm.trans hslot'.1)]
  · exact fun hfree => ⟨m, hm, hslot, hfree⟩

lemma Valid.exchange (h : p.Valid) (m' : PoolBlock) (hp : p.mBlocks = l ++ m :: t)
    (haddress : m'.address = m.address) (hcount : m'.count = m.count) (hnodup : m'.free.Nodup)
    (hlt : ∀ i ∈ m'.free, i < m'.count) : ({ p with mBlocks := l ++ m' :: t } : PoolAllocator).Valid := by
  have hmem : m ∈ p.mBlocks := by simp [hp]
  have hother : ∀ n ∈ l ++ m' :: t, n = m' ∨ n ∈ p.mBlocks := by
    intro n hn
    rw [hp]
    simp only [mem_append, mem_cons] at hn ⊢
    tauto
  constructor
  · have hmap := h.nodup
    rw [hp] at hmap
    simpa [haddress] using hmap
  · intro n hn
    rcases hother n hn with rfl | hn
    · exact haddress ▸ h.placed m hmem
    · exact h.placed n hn
  · intro n hn
    rcases hother n hn with rfl | hn
    · exact hcount ▸ h.count m hmem
    · exact h.count n hn
  · intro n hn
    rcases hother n hn with rfl | hn
    · exact hnodup
    · exact h.free_nodup n hn
  · intro n hn
    rcases hother n hn with rfl | hn
    · exact hlt
    · exact h.free_lt n hn

lemma occupied_exchange (m' : PoolBlock) (hp : p.mBlocks = l ++ m :: t)
    (haddress : m'.address = m.address) (hcount : m'.count = m.count)
    (hm : m.contains slot) (hfree : ∀ i, i ≠ slot.index → (i ∈ m'.free ↔ i ∈ m.free))
    (hne : slot' ≠ slot) :
    ({ p with mBlocks := l ++ m' :: t } : PoolAllocator).Occupied slot' ↔ p.Occupied slot' := by
  have hcontains : m'.contains slot' ↔ m.contains slot' := by
    simp only [PoolBlock.contains, haddress, hcount]
  have hindex : m.contains slot' → slot'.index ≠ slot.index := by
    intro hm' heq
    have haddr : slot'.magazine = slot.magazine := hm'.1.trans hm.1.symm
    cases slot
    cases slot'
    exact hne (by simp_all)
  constructor
  · rintro ⟨n, hn, hslot, hnfree⟩
    simp only [mem_append, mem_cons] at hn
    rcases hn with hn | rfl | hn
    · exact ⟨n, by simp [hp, hn], hslot, hnfree⟩
    · have hslot' := hcontains.1 hslot
      exact ⟨m, by simp [hp], hslot', fun hi => hnfree ((hfree _ (hindex hslot')).2 hi)⟩
    · exact ⟨n, by simp [hp, hn], hslot, hnfree⟩
  · rintro ⟨n, hn, hslot, hnfree⟩
    rw [hp] at hn
    simp only [mem_append, mem_cons] at hn
    rcases hn with hn | rfl | hn
    · exact ⟨n, by simp [hn], hslot, hnfree⟩
    · exact ⟨m', by simp, hcontains.2 hslot, fun hi => hnfree ((hfree _ (hindex hslot)).1 hi)⟩
    · exact ⟨n, by simp [hn], hslot, hnfree⟩

/-! ## Taking a slot -/

lemma takeFrom_some (h : takeFrom ms = some (slot, ms')) :
    ∃ l m t i free, ms = l ++ m :: t ∧ m.free = i :: free ∧ slot = ⟨m.address, i⟩ ∧
      ms' = l ++ { m with free := free } :: t := by
  induction ms generalizing ms' with
  | nil => cases h
  | cons m ms ih =>
    rw [takeFrom, PoolBlock.take] at h
    rcases hfree : m.free with _ | ⟨i, free⟩
    · simp only [hfree, Option.map_eq_some_iff, Prod.mk.injEq, Prod.exists] at h
      obtain ⟨slot', ms'', htake, rfl, rfl⟩ := h
      obtain ⟨l, m', t, i, free, rfl, hm', hslot, rfl⟩ := ih htake
      exact ⟨m :: l, m', t, i, free, rfl, hm', hslot, rfl⟩
    · simp only [hfree, Option.some.injEq, Prod.mk.injEq] at h
      obtain ⟨rfl, rfl⟩ := h
      exact ⟨[], m, ms, i, free, rfl, hfree, rfl, rfl⟩

/-- A pool that hands out `slot`: it was free, it is occupied now, and nothing else changes. -/
structure Hands (p : PoolAllocator) (slot : PoolSlot) (p' : PoolAllocator) : Prop where
  valid : p'.Valid
  free : ¬ p.Occupied slot
  occupied : ∀ slot', p'.Occupied slot' ↔ slot' = slot ∨ p.Occupied slot'

lemma allocateSlot_hands (h : p.Valid) (ha : p.allocateSlot = some (slot, p')) :
    Hands p slot p' := by
  rw [allocateSlot, Option.map_eq_some_iff] at ha
  obtain ⟨⟨slot0, ms⟩, htake, heq⟩ := ha
  obtain ⟨rfl, rfl⟩ := heq
  obtain ⟨l, m, t, i, free, hp, hfree, rfl, rfl⟩ := takeFrom_some htake
  have hmem : m ∈ p.mBlocks := by simp [hp]
  have hnodup := h.free_nodup m hmem
  have hlt := h.free_lt m hmem
  rw [hfree] at hnodup hlt
  have hcontains : m.contains ⟨m.address, i⟩ := ⟨rfl, hlt i (mem_cons_self ..)⟩
  have hvalid := h.exchange { m with free := free } hp rfl rfl hnodup.of_cons
    fun j hj => hlt j (mem_cons_of_mem _ hj)
  refine ⟨hvalid, ?_, ?_⟩
  · rw [h.occupied_iff hmem hcontains, hfree]
    simp
  · intro slot'
    by_cases hne : slot' = ⟨m.address, i⟩
    · subst hne
      simp only [true_or, iff_true]
      refine ⟨{ m with free := free }, by simp, hcontains, ?_⟩
      exact (nodup_cons.1 hnodup).1
    · rw [occupied_exchange { m with free := free } hp rfl rfl hcontains ?_ hne]
      · simp [hne]
      · intro j hj
        simp [hfree, hj]

lemma Valid.nextBlockCapacity (h : p.Valid) : Capacity (p.nextBlockCapacity % 2 ^ 32) := by
  rw [PoolAllocator.nextBlockCapacity]
  rcases hms : p.mBlocks with _ | ⟨m, ms⟩
  · exact capacity_first
  · exact (h.count m (by simp [hms])).next

lemma newBlock_valid (h : p.Valid) (hnew : p.newBlock = (some p', asked)) :
    p'.Valid ∧ ∀ slot, p'.Occupied slot ↔ p.Occupied slot := by
  rw [newBlock] at hnew
  split at hnew
  case isFalse => cases hnew
  case isTrue =>
    obtain ⟨rfl, -⟩ := hnew
    have hempty : ∀ slot,
        (PoolBlock.fresh p.nextAddress (p.nextBlockCapacity % 2 ^ 32)).contains slot →
        slot.index ∈ (PoolBlock.fresh p.nextAddress (p.nextBlockCapacity % 2 ^ 32)).free :=
      fun slot hslot => mem_range.2 hslot.2
    refine ⟨⟨?_, ?_, ?_, ?_, ?_⟩, ?_⟩
    · refine nodup_cons.2 ⟨?_, h.nodup⟩
      rintro hmem
      obtain ⟨m, hm, heq⟩ := mem_map.1 hmem
      have hplaced := h.placed m hm
      rw [show m.address = p.nextAddress from heq] at hplaced
      exact Nat.lt_irrefl _ hplaced
    · rintro m (_ | ⟨_, hm⟩)
      · exact lt_succ_self _
      · exact lt_succ_of_lt (h.placed m hm)
    · rintro m (_ | ⟨_, hm⟩)
      · exact h.nextBlockCapacity
      · exact h.count m hm
    · rintro m (_ | ⟨_, hm⟩)
      · exact nodup_range
      · exact h.free_nodup m hm
    · rintro m (_ | ⟨_, hm⟩)
      · exact fun i hi => mem_range.1 hi
      · exact h.free_lt m hm
    · intro slot
      constructor
      · rintro ⟨m, _ | ⟨_, hm⟩, hslot, hfree⟩
        · exact absurd (hempty slot hslot) hfree
        · exact ⟨m, hm, hslot, hfree⟩
      · rintro ⟨m, hm, hslot, hfree⟩
        exact ⟨m, mem_cons_of_mem _ hm, hslot, hfree⟩

lemma newBlock_asked (p : PoolAllocator) :
    p.newBlock.2 = { p with grants := fun n => p.grants (n + 1) } := by
  rw [newBlock]
  split <;> rfl

lemma allocate_hands (h : p.Valid) (ha : p.allocate = (some slot, p')) :
    Hands p slot p' := by
  rw [allocate] at ha
  split at ha
  case h_1 slot1 p1 hslot =>
    cases ha
    exact allocateSlot_hands h hslot
  case h_2 =>
    split at ha
    case h_1 => cases ha
    case h_2 p1 asked hnew =>
      obtain ⟨hvalid, hsame⟩ := newBlock_valid h hnew
      split at ha
      case h_2 => cases ha
      case h_1 slot1 p2 hslot =>
        cases ha
        obtain ⟨hvalid', hfree, hoccupied⟩ := allocateSlot_hands hvalid hslot
        refine ⟨hvalid', ?_, ?_⟩
        · rwa [← hsame]
        · intro slot'
          rw [hoccupied, hsame]

lemma allocateSlot_newBlock (h : p.Valid) (hnew : p.newBlock = (some p', asked)) :
    p'.allocateSlot ≠ none := by
  obtain ⟨hvalid, -⟩ := newBlock_valid h hnew
  rw [newBlock] at hnew
  split at hnew
  case isFalse => cases hnew
  case isTrue =>
    obtain ⟨rfl, -⟩ := hnew
    have hcount : Capacity (p.nextBlockCapacity % 2 ^ 32) :=
      hvalid.count _ (mem_cons_self ..)
    obtain ⟨n, hn⟩ : ∃ n, p.nextBlockCapacity % 2 ^ 32 = n + 1 :=
      exists_eq_succ_of_ne_zero (Nat.pos_iff_ne_zero.1 hcount.pos)
    rw [hn]
    simp [allocateSlot, takeFrom, PoolBlock.take, PoolBlock.fresh, range_succ_eq_map]

lemma allocate_none (h : p.Valid) (ha : p.allocate = (none, p')) :
    p.grants 0 = false ∧ p' = { p with grants := fun n => p.grants (n + 1) } := by
  rw [allocate] at ha
  split at ha
  case h_1 => cases ha
  case h_2 =>
    split at ha
    case h_2 p1 asked hnew =>
      split at ha
      case h_1 => cases ha
      case h_2 hslot => exact absurd hslot (allocateSlot_newBlock h hnew)
    case h_1 p1 hnew =>
      cases ha
      refine ⟨?_, ?_⟩
      · by_contra hgrant
        rw [newBlock, if_pos (by simpa using hgrant)] at hnew
        cases hnew
      · have hasked := newBlock_asked p
        rwa [hnew] at hasked

lemma Valid.ask (h : p.Valid) (grants : Nat → Bool) : ({ p with grants := grants } : PoolAllocator).Valid :=
  ⟨h.nodup, h.placed, h.count, h.free_nodup, h.free_lt⟩

/-! ## Giving a slot back -/

lemma giveTo_some (h : giveTo slot ms = some ms') :
    ∃ l m t, ms = l ++ m :: t ∧ m.contains slot ∧ ms' = l ++ m.give slot :: t := by
  induction ms generalizing ms' with
  | nil => cases h
  | cons m ms ih =>
    rw [giveTo] at h
    split at h
    case isTrue hm =>
      cases h
      exact ⟨[], m, ms, rfl, hm, rfl⟩
    case isFalse =>
      obtain ⟨ms'', hgive, rfl⟩ := Option.map_eq_some_iff.1 h
      obtain ⟨l, m', t, rfl, hm', rfl⟩ := ih hgive
      exact ⟨m :: l, m', t, rfl, hm', rfl⟩

lemma giveTo_of_mem (hm : m ∈ ms) (hslot : m.contains slot) : ∃ ms', giveTo slot ms = some ms' := by
  induction ms with
  | nil => cases hm
  | cons n ms ih =>
    rw [giveTo]
    split
    case isTrue => exact ⟨_, rfl⟩
    case isFalse hn =>
      have hne : m ∈ ms := by
        rcases mem_cons.1 hm with rfl | hm
        · exact absurd hslot hn
        · exact hm
      obtain ⟨ms', hgive⟩ := ih hne
      exact ⟨n :: ms', by rw [hgive]; rfl⟩

lemma release_of_occupied (h : p.Valid) (hslot : p.Occupied slot) :
    ∃ p', p.release slot = .ok p' ∧ p'.Valid ∧ p'.grants = p.grants ∧
      ∀ slot', p'.Occupied slot' ↔ slot' ≠ slot ∧ p.Occupied slot' := by
  obtain ⟨m0, hm0, hcontains0, hfree0⟩ := hslot
  obtain ⟨ms, hgive⟩ := giveTo_of_mem hm0 hcontains0
  obtain ⟨l, m, t, hp, hcontains, rfl⟩ := giveTo_some hgive
  have hmem : m ∈ p.mBlocks := by simp [hp]
  obtain rfl : m0 = m := h.eq_of_address hm0 hmem (hcontains0.1.symm.trans hcontains.1)
  have hvalid := h.exchange (m0.give slot) hp rfl rfl
    (nodup_cons.2 ⟨hfree0, h.free_nodup m0 hmem⟩) (by
      rintro i (_ | ⟨_, hi⟩)
      · exact hcontains.2
      · exact h.free_lt m0 hmem i hi)
  refine ⟨{ p with mBlocks := l ++ m0.give slot :: t }, by rw [release, hgive], hvalid, rfl, ?_⟩
  intro slot'
  by_cases hne : slot' = slot
  · subst hne
    have hin : m0.give slot' ∈ l ++ m0.give slot' :: t := by simp
    rw [hvalid.occupied_iff hin hcontains]
    simp [PoolBlock.give]
  · rw [occupied_exchange (m0.give slot) hp rfl rfl hcontains ?_ hne]
    · simp [hne]
    · intro j hj
      simp [PoolBlock.give, hj]

/-! ## Compacting -/

lemma compact_valid (h : p.Valid) : p.compact.Valid :=
  ⟨h.nodup.sublist (Sublist.map _ filter_sublist),
    fun m hm => h.placed m (mem_of_mem_filter hm),
    fun m hm => h.count m (mem_of_mem_filter hm),
    fun m hm => h.free_nodup m (mem_of_mem_filter hm),
    fun m hm => h.free_lt m (mem_of_mem_filter hm)⟩

lemma Valid.mem_free_of_isEmpty (h : p.Valid) (hm : m ∈ p.mBlocks) (hempty : m.isEmpty)
    {i : Nat} (hi : i < m.count) : i ∈ m.free := by
  rw [PoolBlock.isEmpty, beq_iff_eq] at hempty
  have hsub : m.free ⊆ range m.count := fun j hj => mem_range.2 (h.free_lt m hm j hj)
  have hperm : m.free.Subperm (range m.count) :=
    subperm_of_subset (h.free_nodup m hm) hsub
  have hperm' := hperm.perm_of_length_le (by simp [hempty])
  exact hperm'.mem_iff.2 (mem_range.2 hi)

lemma Valid.length_free_le (h : p.Valid) (hm : m ∈ p.mBlocks) : m.free.length ≤ m.count := by
  have hsub : m.free ⊆ range m.count := fun j hj => mem_range.2 (h.free_lt m hm j hj)
  have hle := (subperm_of_subset (h.free_nodup m hm) hsub).length_le
  rwa [length_range] at hle

lemma compact_occupied (h : p.Valid) : p.compact.Occupied slot ↔ p.Occupied slot := by
  constructor
  · rintro ⟨m, hm, hslot, hfree⟩
    exact ⟨m, mem_of_mem_filter hm, hslot, hfree⟩
  · rintro ⟨m, hm, hslot, hfree⟩
    refine ⟨m, mem_filter.2 ⟨hm, ?_⟩, hslot, hfree⟩
    rw [Bool.not_eq_true', Bool.eq_false_iff]
    exact fun hempty => hfree (h.mem_free_of_isEmpty hm hempty hslot.2)

/-! ## Counting objects -/

def occupiedSlots (m : PoolBlock) : List PoolSlot :=
  ((range m.count).filter (· ∉ m.free)).map fun i => ⟨m.address, i⟩

lemma length_occupiedSlots (hnodup : m.free.Nodup) (hlt : ∀ i ∈ m.free, i < m.count) :
    (occupiedSlots m).length = m.count - m.free.length := by
  have hfree : ((range m.count).filter (· ∈ m.free)).Perm m.free := by
    rw [perm_ext_iff_of_nodup (nodup_range.filter _) hnodup]
    intro i
    simp only [mem_filter, mem_range, decide_eq_true_eq]
    exact ⟨fun hi => hi.2, fun hi => ⟨hlt i hi, hi⟩⟩
  have hsplit := length_eq_length_filter_add (l := range m.count) (· ∈ m.free)
  rw [hfree.length_eq, length_range] at hsplit
  rw [occupiedSlots, length_map]
  simp only [decide_not]
  omega

lemma Valid.length_le_objectCount (h : p.Valid) {slots : List PoolSlot} (hnodup : slots.Nodup)
    (hslots : ∀ slot ∈ slots, p.Occupied slot) : slots.length ≤ p.objectCount := by
  have hsub : slots ⊆ p.mBlocks.flatMap occupiedSlots := by
    intro slot hslot
    obtain ⟨m, hm, ⟨haddress, hcount⟩, hfree⟩ := hslots slot hslot
    refine mem_flatMap.2 ⟨m, hm, mem_map.2 ⟨slot.index, ?_, ?_⟩⟩
    · simp [hcount, hfree]
    · rw [← haddress]
  have hlength : (p.mBlocks.flatMap occupiedSlots).length = p.objectCount := by
    rw [length_flatMap, objectCount]
    congr 1
    refine map_congr_left fun m hm => ?_
    exact length_occupiedSlots (h.free_nodup m hm) (h.free_lt m hm)
  rw [← hlength]
  exact (subperm_of_subset hnodup hsub).length_le

end PoolAllocator

end BezOS
