import Mathlib.Data.List.Forall2
import Mathlib.Logic.Function.Basic
import BezOS.Memory.PoolAllocator

/-!
# The items of a pool

`PoolAllocator` of `memory/detail/pool.hpp` with the words its free slots are linked through. An
item of a magazine is either the index of the next free one or the bytes of an object, so whoever
owns an object overwrites the link. A pool of items stands for a pool whose magazines list their
free slots.
-/

namespace BezOS
namespace km
namespace detail

/-- `detail::PoolBlock`: `items` is the first word of every item, a link or part of an object. -/
structure PoolBlock where
  address : Nat
  count : Nat
  firstFreeIndex : Nat
  items : Nat → Nat

namespace PoolBlock

def take (m : PoolBlock) : Option PoolSlot × PoolBlock :=
  if m.firstFreeIndex < m.count then
    (some ⟨m.address, m.firstFreeIndex⟩, { m with firstFreeIndex := m.items m.firstFreeIndex })
  else (none, m)

def give (m : PoolBlock) (item : PoolSlot) : PoolBlock :=
  { m with items := Function.update m.items item.index m.firstFreeIndex,
           firstFreeIndex := item.index }

def contains (m : PoolBlock) (item : PoolSlot) : Prop :=
  item.magazine = m.address ∧ item.index < m.count
  deriving Decidable

def reclaim (m : PoolBlock) (ptr : PoolSlot) : Bool × PoolBlock :=
  if m.contains ptr then (true, m.give ptr) else (false, m)

/-- The loop of `countFreeSlots`. Past `count` rounds it has seen an item twice. -/
def countFrom (m : PoolBlock) : Nat → Nat → Except Fault Nat
  | 0, _ => .error .diverges
  | fuel + 1, index =>
      if index < m.count then (m.countFrom fuel (m.items index)).map (· + 1) else .ok 0

def countFreeSlots (m : PoolBlock) : Except Fault Nat := m.countFrom (m.count + 1) m.firstFreeIndex

def capacity (m : PoolBlock) : Nat := m.count

def isEmpty (m : PoolBlock) : Except Fault Bool := m.countFreeSlots.map (· == m.capacity)

/-- `init`: with no item to write, the loop bound wraps and the last link has no place. -/
def init (address blockCount : Nat) : Except Fault PoolBlock :=
  if blockCount = 0 then .error .badAccess
  else
    .ok { address := address
          count := blockCount % 2 ^ 32
          firstFreeIndex := 0
          items := fun i => if i < blockCount - 1 then (i + 1) % 2 ^ 32 else 2 ^ 32 - 1 }

def write (m : PoolBlock) (item : PoolSlot) (word : Nat) : PoolBlock :=
  { m with items := Function.update m.items item.index word }

end PoolBlock
end detail

structure PoolCompactStats where
  magazines : Nat
  slots : Nat
  deriving DecidableEq

structure PoolAllocatorStats where
  magazines : Nat
  freeSlots : Nat
  totalSlots : Nat
  controlMemory : Nat
  deriving DecidableEq

/-- The magazines stand with the last one first, as in the pool of free lists. -/
structure PoolAllocator where
  mBlocks : List detail.PoolBlock
  nextAddress : Nat
  grants : Nat → Bool

namespace PoolAllocator

def nextBlockCapacity (p : PoolAllocator) : Nat :=
  match p.mBlocks with
  | [] => 16
  | block :: _ => block.capacity * 3 / 2

/-- `newBlock`: the pool after it, and whether it got a magazine. -/
def newBlock (p : PoolAllocator) : Except Fault (Bool × PoolAllocator) :=
  let asked := { p with grants := fun n => p.grants (n + 1) }
  if p.grants 0 then
    (detail.PoolBlock.init p.nextAddress p.nextBlockCapacity).map fun block =>
      (true, { asked with mBlocks := block :: p.mBlocks, nextAddress := p.nextAddress + 1 })
  else .ok (false, asked)

/-- The loop of `allocate`. -/
def takeFrom : List detail.PoolBlock → Option PoolSlot × List detail.PoolBlock
  | [] => (none, [])
  | block :: blocks =>
    match block.take with
    | (some ptr, block) => (some ptr, block :: blocks)
    | (none, block) =>
      let (ptr, blocks) := takeFrom blocks
      (ptr, block :: blocks)

def allocate (p : PoolAllocator) : Except Fault (Option PoolSlot × PoolAllocator) :=
  match takeFrom p.mBlocks with
  | (some ptr, blocks) => .ok (some ptr, { p with mBlocks := blocks })
  | (none, _) =>
    match p.newBlock with
    | .error e => .error e
    | .ok (false, p) => .ok (none, p)
    | .ok (true, p) =>
      match p.mBlocks with
      | [] => .error .badAccess
      | block :: blocks =>
        let (ptr, block) := block.take
        .ok (ptr, { p with mBlocks := block :: blocks })

/-- The loop of `release`. -/
def reclaimFrom (ptr : PoolSlot) : List detail.PoolBlock → Bool × List detail.PoolBlock
  | [] => (false, [])
  | block :: blocks =>
    match block.reclaim ptr with
    | (true, block) => (true, block :: blocks)
    | (false, block) =>
      let (done, blocks) := reclaimFrom ptr blocks
      (done, block :: blocks)

def release (p : PoolAllocator) (ptr : PoolSlot) : Except Fault PoolAllocator :=
  match reclaimFrom ptr p.mBlocks with
  | (true, blocks) => .ok { p with mBlocks := blocks }
  | (false, _) => .error .badAccess

def write (p : PoolAllocator) (ptr : PoolSlot) (word : Nat) : PoolAllocator :=
  { p with mBlocks := p.mBlocks.map fun block =>
      if block.address = ptr.magazine then block.write ptr word else block }

/-- `construct`: the constructor leaves a word in the item. -/
def construct (p : PoolAllocator) (word : Nat) : Except Fault (Option PoolSlot × PoolAllocator) :=
  match p.allocate with
  | .error e => .error e
  | .ok (none, p) => .ok (none, p)
  | .ok (some ptr, p) => .ok (some ptr, p.write ptr word)

/-- `destroy`: the destructor leaves a word in the item before it is released. -/
def destroy (p : PoolAllocator) (ptr : Option PoolSlot) (word : Nat) : Except Fault PoolAllocator :=
  match ptr with
  | none => .ok p
  | some ptr => (p.write ptr word).release ptr

/-- The loop of `compact`. -/
def compactFrom : List detail.PoolBlock → Except Fault (PoolCompactStats × List detail.PoolBlock)
  | [] => .ok (⟨0, 0⟩, [])
  | block :: blocks => do
    let empty ← block.isEmpty
    let (stats, blocks) ← compactFrom blocks
    if empty then pure (⟨stats.magazines + 1, stats.slots + block.capacity⟩, blocks)
    else pure (stats, block :: blocks)

def compact (p : PoolAllocator) : Except Fault (PoolCompactStats × PoolAllocator) := do
  let (stats, blocks) ← compactFrom p.mBlocks
  pure (stats, { p with mBlocks := blocks })

/-- The loop of `stats`, with the sizes of a block header and of an item. -/
def statsFrom (sizeofBlock sizeofItem : Nat) : List detail.PoolBlock → Except Fault PoolAllocatorStats
  | [] => .ok ⟨0, 0, 0, 0⟩
  | block :: blocks => do
    let freeBlocks ← block.countFreeSlots
    let stats ← statsFrom sizeofBlock sizeofItem blocks
    pure ⟨stats.magazines, stats.freeSlots + freeBlocks, stats.totalSlots + block.count,
      stats.controlMemory + (sizeofBlock + sizeofItem * freeBlocks)⟩

/-- `stats`: a pointer to a magazine takes eight bytes. -/
def stats (p : PoolAllocator) (sizeofBlock sizeofItem : Nat) : Except Fault PoolAllocatorStats := do
  let stats ← statsFrom sizeofBlock sizeofItem p.mBlocks
  pure { stats with magazines := p.mBlocks.length,
                    controlMemory := stats.controlMemory + p.mBlocks.length * 8 }

end PoolAllocator

/-! ## Links and free lists -/

section Linked

variable {items items' : Nat → Nat} {count i : Nat} {free : List Nat}

/-- The links from an index visit the free items in order and then leave the magazine. -/
def Linked (items : Nat → Nat) (count : Nat) : Nat → List Nat → Prop
  | i, [] => count ≤ i
  | i, j :: free => i = j ∧ j < count ∧ Linked items count (items j) free

lemma Linked.congr (h : Linked items count i free) (heq : ∀ j ∈ free, items' j = items j) :
    Linked items' count i free := by
  induction free generalizing i with
  | nil => exact h
  | cons j free ih =>
    obtain ⟨hi, hj, hrest⟩ := h
    refine ⟨hi, hj, ?_⟩
    rw [heq j (List.mem_cons_self ..)]
    exact ih hrest fun k hk => heq k (List.mem_cons_of_mem _ hk)

lemma Linked.update (h : Linked items count i free) {k word : Nat} (hk : k ∉ free) :
    Linked (Function.update items k word) count i free :=
  h.congr fun _ hj => Function.update_of_ne (ne_of_mem_of_not_mem hj hk) _ _

lemma linked_init {k n : Nat} (hk : i + k = n) (hitems : ∀ j, j + 1 < n → items j = j + 1)
    (hlast : n ≤ items (n - 1)) : Linked items n i (List.range' i k) := by
  induction k generalizing i with
  | zero => exact Nat.le_of_eq hk.symm
  | succ k ih =>
    rw [List.range'_succ]
    refine ⟨rfl, by omega, ?_⟩
    rcases Nat.eq_zero_or_pos k with rfl | hpos
    · have hi : i = n - 1 := by omega
      rw [hi]
      exact hlast
    · rw [hitems i (by omega)]
      exact ih (by omega)

end Linked

namespace detail

variable {b : PoolBlock} {m : BezOS.PoolBlock} {slot : PoolSlot}

/-- A magazine of items stands for a magazine with the list of its free slots. -/
structure PoolBlock.Models (b : PoolBlock) (m : BezOS.PoolBlock) : Prop where
  address : b.address = m.address
  count : b.count = m.count
  linked : Linked b.items b.count b.firstFreeIndex m.free

namespace PoolBlock

section

variable (h : b.Models m)

include h

lemma Models.contains_iff : b.contains slot ↔ m.contains slot := by
  simp only [contains, BezOS.PoolBlock.contains, h.address, h.count]

lemma Models.take_none (hfree : m.free = []) : b.take = (none, b) := by
  have hlinked := h.linked
  rw [hfree] at hlinked
  exact if_neg (Nat.not_lt.2 hlinked)

lemma Models.take_some {i : Nat} {free : List Nat} (hfree : m.free = i :: free) :
    b.take = (some ⟨m.address, i⟩, { b with firstFreeIndex := b.items i }) ∧
      Models { b with firstFreeIndex := b.items i } { m with free := free } := by
  have hlinked := h.linked
  rw [hfree] at hlinked
  obtain ⟨hi, hlt, hrest⟩ := hlinked
  refine ⟨?_, h.address, h.count, hrest⟩
  rw [take, hi, if_pos hlt, h.address]

lemma Models.give (hslot : m.contains slot) (hfree : slot.index ∉ m.free) :
    (b.give slot).Models (m.give slot) := by
  refine ⟨h.address, h.count, rfl, h.count ▸ hslot.2, ?_⟩
  have hword : (b.give slot).items slot.index = b.firstFreeIndex := Function.update_self _ _ _
  rw [hword]
  exact h.linked.update hfree

lemma Models.write (hfree : slot.index ∉ m.free) (word : Nat) :
    (b.write slot word).Models m :=
  ⟨h.address, h.count, h.linked.update hfree⟩

end

lemma countFrom_eq (b : PoolBlock) {i : Nat} {free : List Nat}
    (h : Linked b.items b.count i free) {fuel : Nat} (hfuel : free.length < fuel) :
    b.countFrom fuel i = .ok free.length := by
  induction free generalizing i fuel with
  | nil =>
    obtain ⟨fuel, rfl⟩ : ∃ k, fuel = k + 1 := ⟨fuel - 1, by simp at hfuel; omega⟩
    exact if_neg (Nat.not_lt.2 h)
  | cons j free ih =>
    obtain ⟨rfl, hlt, hrest⟩ := h
    simp only [List.length_cons] at hfuel
    obtain ⟨fuel, rfl⟩ : ∃ k, fuel = k + 1 := ⟨fuel - 1, by omega⟩
    rw [countFrom, if_pos hlt, ih hrest (by omega)]
    rfl

lemma Models.countFreeSlots (h : b.Models m) (hle : m.free.length ≤ m.count) :
    b.countFreeSlots = .ok m.free.length :=
  b.countFrom_eq h.linked (by rw [h.count]; omega)

lemma Models.isEmpty (h : b.Models m) (hle : m.free.length ≤ m.count) :
    b.isEmpty = .ok m.isEmpty := by
  rw [PoolBlock.isEmpty, h.countFreeSlots hle, capacity, h.count]
  rfl

lemma init_models {address n : Nat} (hn : 0 < n % 2 ^ 32) :
    ∃ b, init address n = .ok b ∧ b.Models (.fresh address (n % 2 ^ 32)) := by
  have hne : n ≠ 0 := by
    rintro rfl
    simp at hn
  have hlt : n % 2 ^ 32 < 2 ^ 32 := Nat.mod_lt _ (by decide)
  have hle : n % 2 ^ 32 ≤ n := Nat.mod_le _ _
  refine ⟨_, if_neg hne, rfl, rfl, ?_⟩
  rw [BezOS.PoolBlock.fresh, List.range_eq_range']
  generalize n % 2 ^ 32 = count at hn hlt hle
  change Linked _ count 0 (List.range' 0 count)
  refine linked_init (Nat.zero_add _) (fun j hj => ?_) ?_
  · have hlink : j < n - 1 := by omega
    have hword : j + 1 < 2 ^ 32 := by omega
    simp only [if_pos hlink, Nat.mod_eq_of_lt hword]
  · simp only
    split
    · -- the size passed the word: the last link names the first index past the magazine
      exact Nat.le_of_eq (by rw [Nat.sub_add_cancel hn, Nat.mod_eq_of_lt hlt])
    · exact Nat.le_sub_one_of_lt hlt

end PoolBlock
end detail

/-! ## Pools of items and pools of free lists -/

namespace PoolAllocator

variable {p : PoolAllocator} {q : BezOS.PoolAllocator} {slot : PoolSlot}
  {bs : List detail.PoolBlock} {ms : List BezOS.PoolBlock}

/-- A pool of items stands for a pool whose magazines list their free slots. -/
structure Models (p : PoolAllocator) (q : BezOS.PoolAllocator) : Prop where
  blocks : List.Forall₂ detail.PoolBlock.Models p.mBlocks q.mBlocks
  nextAddress : p.nextAddress = q.nextAddress
  grants : p.grants = q.grants

lemma Models.nextBlockCapacity (h : p.Models q) :
    p.nextBlockCapacity = q.nextBlockCapacity := by
  have hblocks := h.blocks
  rw [PoolAllocator.nextBlockCapacity, BezOS.PoolAllocator.nextBlockCapacity]
  revert hblocks
  cases p.mBlocks <;> cases q.mBlocks <;> intro hblocks
  · rfl
  · cases hblocks
  · cases hblocks
  · simp only [detail.PoolBlock.capacity, (List.forall₂_cons.1 hblocks).1.count]

lemma takeFrom_models (h : List.Forall₂ detail.PoolBlock.Models bs ms) :
    (takeFrom bs = (none, bs) ∧ BezOS.PoolAllocator.takeFrom ms = none) ∨
      ∃ slot bs' ms', takeFrom bs = (some slot, bs') ∧
        BezOS.PoolAllocator.takeFrom ms = some (slot, ms') ∧
          List.Forall₂ detail.PoolBlock.Models bs' ms' := by
  induction h with
  | nil => exact .inl ⟨rfl, rfl⟩
  | @cons b m bs ms hb hrest ih =>
    rw [takeFrom, BezOS.PoolAllocator.takeFrom, BezOS.PoolBlock.take]
    rcases hfree : m.free with _ | ⟨i, free⟩
    · rw [hb.take_none hfree]
      rcases ih with ⟨htake, hnone⟩ | ⟨slot, bs', ms', htake, hsome, hnew⟩
      · exact .inl ⟨by simp only [htake], by simp only [hnone, Option.map_none]⟩
      · exact .inr ⟨slot, b :: bs', m :: ms', by simp only [htake],
          by simp only [hsome, Option.map_some], .cons hb hnew⟩
    · obtain ⟨htake, hnew⟩ := hb.take_some hfree
      exact .inr ⟨_, _, _, by simp only [htake], rfl, .cons hnew hrest⟩

lemma Models.newBlock (h : p.Models q) (hq : q.Valid) :
    (∃ p' q' asked, p.newBlock = .ok (true, p') ∧ q.newBlock = (some q', asked) ∧
      p'.Models q') ∨
    ∃ p' asked, p.newBlock = .ok (false, p') ∧ q.newBlock = (none, asked) ∧ p'.Models asked := by
  rw [PoolAllocator.newBlock, BezOS.PoolAllocator.newBlock, h.nextBlockCapacity, h.nextAddress,
    h.grants]
  by_cases hgrant : q.grants 0
  · obtain ⟨b, hinit, hb⟩ := detail.PoolBlock.init_models hq.nextBlockCapacity.pos
    refine .inl ⟨⟨b :: p.mBlocks, q.nextAddress + 1, fun n => q.grants (n + 1)⟩, _, _, ?_,
      if_pos hgrant, .cons hb h.blocks, rfl, rfl⟩
    rw [if_pos hgrant, hinit]
    rfl
  · exact .inr ⟨_, _, if_neg hgrant, if_neg hgrant, h.blocks, rfl, rfl⟩

lemma Models.allocate (h : p.Models q) (hq : q.Valid) :
    ∃ ptr p' q', p.allocate = .ok (ptr, p') ∧ q.allocate = (ptr, q') ∧ p'.Models q' := by
  rw [PoolAllocator.allocate, BezOS.PoolAllocator.allocate, BezOS.PoolAllocator.allocateSlot]
  rcases takeFrom_models h.blocks with ⟨htake, hnone⟩ | ⟨slot, bs, ms, htake, hsome, hnew⟩
  · rw [htake, hnone]
    rcases h.newBlock hq with ⟨p', q', asked, hp, hq', hmodels⟩ | ⟨p', asked, hp, hq', hmodels⟩
    · rw [hp, hq']
      simp only [BezOS.PoolAllocator.allocateSlot]
      -- the new magazine is the first one that is searched
      have hblocks := hmodels.blocks
      have hgrown := (BezOS.PoolAllocator.newBlock_valid hq hq').1
      have hfirst : ∃ m ms, q'.mBlocks = m :: ms ∧ 0 < m.free.length := by
        rw [BezOS.PoolAllocator.newBlock] at hq'
        split at hq'
        case isFalse => cases hq'
        case isTrue =>
          obtain ⟨rfl, -⟩ := hq'
          refine ⟨_, _, rfl, ?_⟩
          rw [BezOS.PoolBlock.fresh, List.length_range]
          exact (hgrown.count _ (List.mem_cons_self ..)).pos
      obtain ⟨m, ms, hms, hpos⟩ := hfirst
      obtain ⟨i, free, hfree⟩ := List.exists_cons_of_length_pos hpos
      rw [hms] at hblocks
      obtain ⟨b, bs, hb, hrest, hbs⟩ := List.forall₂_cons_right_iff.1 hblocks
      obtain ⟨htake', hnew⟩ := hb.take_some hfree
      simp only [hbs, htake', hms, BezOS.PoolAllocator.takeFrom, BezOS.PoolBlock.take, hfree,
        Option.map_some]
      exact ⟨_, _, _, rfl, rfl, .cons hnew hrest, hmodels.nextAddress, hmodels.grants⟩
    · rw [hp, hq']
      exact ⟨none, p', asked, rfl, rfl, hmodels⟩
  · rw [htake, hsome]
    exact ⟨some slot, _, _, rfl, rfl, hnew, h.nextAddress, h.grants⟩

lemma write_models (h : List.Forall₂ detail.PoolBlock.Models bs ms)
    (hfree : ∀ m ∈ ms, m.address = slot.magazine → slot.index ∉ m.free) (word : Nat) :
    List.Forall₂ detail.PoolBlock.Models
      (bs.map fun block => if block.address = slot.magazine then block.write slot word else block)
      ms := by
  induction h with
  | nil => exact .nil
  | @cons b m bs ms hb _ ih =>
    refine .cons ?_ (ih fun n hn => hfree n (List.mem_cons_of_mem _ hn))
    by_cases haddress : b.address = slot.magazine
    · simp only [if_pos haddress]
      exact hb.write (hfree m (List.mem_cons_self ..) (hb.address.symm.trans haddress)) word
    · simpa only [if_neg haddress] using hb

lemma Models.write (h : p.Models q) (hq : q.Valid) (hslot : q.Occupied slot) (word : Nat) :
    (p.write slot word).Models q := by
  refine ⟨write_models h.blocks (fun m hm haddress => ?_) word, h.nextAddress, h.grants⟩
  obtain ⟨m', hm', hcontains, hfree⟩ := hslot
  rwa [hq.eq_of_address hm hm' (haddress.trans hcontains.1)]

lemma reclaimFrom_models (h : List.Forall₂ detail.PoolBlock.Models bs ms)
    (hfree : ∀ m ∈ ms, m.contains slot → slot.index ∉ m.free) {ms' : List BezOS.PoolBlock}
    (hgive : BezOS.PoolAllocator.giveTo slot ms = some ms') :
    ∃ bs', reclaimFrom slot bs = (true, bs') ∧ List.Forall₂ detail.PoolBlock.Models bs' ms' := by
  induction h generalizing ms' with
  | nil => cases hgive
  | @cons b m bs ms hb hrest ih =>
    rw [BezOS.PoolAllocator.giveTo] at hgive
    rw [reclaimFrom, detail.PoolBlock.reclaim]
    by_cases hslot : m.contains slot
    · rw [if_pos hslot, Option.some.injEq] at hgive
      subst hgive
      rw [if_pos (hb.contains_iff.2 hslot)]
      exact ⟨_, rfl, .cons (hb.give hslot (hfree m (List.mem_cons_self ..) hslot)) hrest⟩
    · rw [if_neg hslot, Option.map_eq_some_iff] at hgive
      obtain ⟨ms'', hgive, rfl⟩ := hgive
      rw [if_neg (mt hb.contains_iff.1 hslot)]
      obtain ⟨bs', hdone, hnew⟩ := ih (fun n hn => hfree n (List.mem_cons_of_mem _ hn)) hgive
      exact ⟨b :: bs', by simp only [hdone], .cons hb hnew⟩

lemma Models.release (h : p.Models q) (hq : q.Valid) (hslot : q.Occupied slot) :
    ∃ p' q', p.release slot = .ok p' ∧ q.release slot = .ok q' ∧ p'.Models q' := by
  obtain ⟨q', hrelease, -, -, -⟩ := BezOS.PoolAllocator.release_of_occupied hq hslot
  have hfree : ∀ m ∈ q.mBlocks, m.contains slot → slot.index ∉ m.free :=
    fun m hm hcontains => (hq.occupied_iff hm hcontains).1 hslot
  rw [BezOS.PoolAllocator.release] at hrelease
  split at hrelease
  case h_2 => cases hrelease
  case h_1 ms hgive =>
    obtain ⟨bs, hdone, hnew⟩ := reclaimFrom_models h.blocks hfree hgive
    refine ⟨{ p with mBlocks := bs }, { q with mBlocks := ms }, ?_, ?_, hnew, h.nextAddress,
      h.grants⟩
    · rw [PoolAllocator.release, hdone]
    · rw [BezOS.PoolAllocator.release, hgive]

/-! ### Counting -/

/-- What `compact` reports about the magazines it gives back. -/
def compactStats (ms : List BezOS.PoolBlock) : PoolCompactStats :=
  let empty := ms.filter BezOS.PoolBlock.isEmpty
  ⟨empty.length, (empty.map BezOS.PoolBlock.count).sum⟩

lemma compactFrom_models (h : List.Forall₂ detail.PoolBlock.Models bs ms)
    (hle : ∀ m ∈ ms, m.free.length ≤ m.count) :
    ∃ bs', compactFrom bs = .ok (compactStats ms, bs') ∧
      List.Forall₂ detail.PoolBlock.Models bs' (ms.filter fun m => !m.isEmpty) ∧
      (∀ b ∈ bs', b ∈ bs ∧ ∃ m ∈ ms, b.Models m ∧ m.isEmpty = false) ∧
      ∀ b ∈ bs, b ∈ bs' ∨ ∃ m ∈ ms, b.Models m ∧ m.isEmpty = true := by
  induction h with
  | nil => exact ⟨[], rfl, .nil, by simp, by simp⟩
  | @cons b m bs ms hb hrest ih =>
    obtain ⟨bs', hrun, hnew, hkept, hall⟩ := ih fun n hn => hle n (List.mem_cons_of_mem _ hn)
    have hempty := hb.isEmpty (hle m (List.mem_cons_self ..))
    have hkept' : ∀ c ∈ bs', c ∈ b :: bs ∧ ∃ n ∈ m :: ms, c.Models n ∧ n.isEmpty = false := by
      intro c hc
      obtain ⟨hcb, n, hn, hcn⟩ := hkept c hc
      exact ⟨List.mem_cons_of_mem _ hcb, n, List.mem_cons_of_mem _ hn, hcn⟩
    rw [compactFrom, hempty, hrun]
    cases hm : m.isEmpty with
    | true =>
      refine ⟨bs', ?_, by simpa [hm] using hnew, hkept', fun c hc => ?_⟩
      · simp [bind, Except.bind, compactStats, hm, detail.PoolBlock.capacity, hb.count, pure,
          Except.pure, Nat.add_comm]
      · rcases List.mem_cons.1 hc with rfl | hc
        · exact .inr ⟨m, List.mem_cons_self .., hb, hm⟩
        · exact (hall c hc).imp_right fun ⟨n, hn, hcn⟩ => ⟨n, List.mem_cons_of_mem _ hn, hcn⟩
    | false =>
      refine ⟨b :: bs', ?_, ?_, fun c hc => ?_, fun c hc => ?_⟩
      · simp [bind, Except.bind, compactStats, hm, pure, Except.pure]
      · simpa [hm] using List.Forall₂.cons hb hnew
      · rcases List.mem_cons.1 hc with rfl | hc
        · exact ⟨List.mem_cons_self .., m, List.mem_cons_self .., hb, hm⟩
        · exact hkept' c hc
      · rcases List.mem_cons.1 hc with rfl | hc
        · exact .inl (List.mem_cons_self ..)
        · exact (hall c hc).imp (List.mem_cons_of_mem _) fun ⟨n, hn, hcn⟩ =>
            ⟨n, List.mem_cons_of_mem _ hn, hcn⟩

lemma statsFrom_models (h : List.Forall₂ detail.PoolBlock.Models bs ms)
    (hle : ∀ m ∈ ms, m.free.length ≤ m.count) (sizeofBlock sizeofItem : Nat) :
    ∃ st, statsFrom sizeofBlock sizeofItem bs = .ok st ∧
      st.freeSlots = (ms.map fun m => m.free.length).sum ∧
        st.totalSlots = (ms.map BezOS.PoolBlock.count).sum := by
  induction h with
  | nil => exact ⟨_, rfl, rfl, rfl⟩
  | @cons b m bs ms hb hrest ih =>
    obtain ⟨st, hrun, hfree, htotal⟩ := ih fun n hn => hle n (List.mem_cons_of_mem _ hn)
    rw [statsFrom, hb.countFreeSlots (hle m (List.mem_cons_self ..)), hrun]
    refine ⟨_, rfl, ?_, ?_⟩
    · simp [hfree, Nat.add_comm]
    · simp [htotal, hb.count, Nat.add_comm]

end PoolAllocator

end km
end BezOS
