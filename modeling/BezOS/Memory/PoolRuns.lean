import BezOS.Lib.Transition
import BezOS.Memory.PoolItems

/-!
# Runs of a pool

Whatever the calls of a pool's clients are, as long as they destroy and write to live objects
only: a slot is handed out when no object is in it, a slot without an object is handed out again,
compacting gives back the magazines without an object, and the reported counts are the true ones.
-/

namespace BezOS

open Lib BezOS.PoolAllocator Except PoolBlock List

namespace PoolAllocator

variable {p : PoolAllocator} {ms : List PoolBlock} {slot : PoolSlot} {rest : List PoolSlot}

/-! ## The slots in the order they are handed out -/

def freeSlotsOf (m : PoolBlock) : List PoolSlot := m.free.map (PoolSlot.mk m.address)

lemma takeFrom_flatMap (h : ms.flatMap freeSlotsOf = slot :: rest) :
    ∃ ms', takeFrom ms = some (slot, ms') ∧ ms'.flatMap freeSlotsOf = rest := by
  induction ms with
  | nil => cases h
  | cons m ms ih =>
    rw [takeFrom, PoolBlock.take]
    rcases hfree : m.free with _ | ⟨i, free⟩
    · have hnil : freeSlotsOf m = [] := by rw [freeSlotsOf, hfree, map_nil]
      rw [flatMap_cons, hnil, nil_append] at h
      obtain ⟨ms', htake, hrest⟩ := ih h
      refine ⟨m :: ms', by simp only [htake, Option.map_some], ?_⟩
      rw [flatMap_cons, hnil, nil_append, hrest]
    · rw [flatMap_cons, freeSlotsOf, hfree, map_cons, cons_append,
        List.cons.injEq] at h
      obtain ⟨rfl, rfl⟩ := h
      exact ⟨_, rfl, by rw [flatMap_cons]; rfl⟩

lemma allocate_flatMap (h : p.mBlocks.flatMap freeSlotsOf = slot :: rest) :
    ∃ p', p.allocate = (some slot, p') ∧ p'.mBlocks.flatMap freeSlotsOf = rest := by
  obtain ⟨ms, htake, hrest⟩ := takeFrom_flatMap h
  exact ⟨{ p with mBlocks := ms }, by rw [allocate, allocateSlot, htake]; rfl, hrest⟩

lemma allocate_valid (h : p.Valid) : p.allocate.2.Valid := by
  rcases hp : p.allocate with ⟨_ | slot, p'⟩
  · rw [(allocate_none h hp).2]
    exact h.ask _
  · exact (allocate_hands h hp).valid

lemma mem_flatMap_freeSlotsOf (h : p.Valid) (hm : ∃ m ∈ p.mBlocks, m.contains slot)
    (hfree : ¬ p.Occupied slot) : slot ∈ p.mBlocks.flatMap freeSlotsOf := by
  obtain ⟨m, hm, hslot⟩ := hm
  rw [h.occupied_iff hm hslot, not_not] at hfree
  refine mem_flatMap.2 ⟨m, hm, mem_map.2 ⟨slot.index, hfree, ?_⟩⟩
  rw [← hslot.1]

end PoolAllocator

namespace km
namespace PoolAllocator

variable {p p' : PoolAllocator} {q : BezOS.PoolAllocator} {slot other : PoolSlot} {word new : Nat}
  {bs bs' : List detail.PoolBlock} {ptr : Option PoolSlot}

/-! ## The words of objects -/

/-- The word stands in the item of the slot, in one of the magazines. -/
def HoldsIn (bs : List detail.PoolBlock) (slot : PoolSlot) (word : Nat) : Prop :=
  ∃ b ∈ bs, b.contains slot ∧ b.items slot.index = word

def Holds (p : PoolAllocator) (slot : PoolSlot) (word : Nat) : Prop := HoldsIn p.mBlocks slot word

def slots (p : PoolAllocator) : List PoolSlot :=
  p.mBlocks.flatMap fun b => (range b.count).map (PoolSlot.mk b.address)

lemma mem_slots : slot ∈ p.slots ↔ ∃ b ∈ p.mBlocks, b.contains slot := by
  simp only [slots, mem_flatMap, mem_map, mem_range]
  constructor
  · rintro ⟨b, hb, i, hi, rfl⟩
    exact ⟨b, hb, rfl, hi⟩
  · rintro ⟨b, hb, haddress, hi⟩
    exact ⟨b, hb, slot.index, hi, by rw [← haddress]⟩

lemma HoldsIn.cons (b : detail.PoolBlock) (h : HoldsIn bs slot word) :
    HoldsIn (b :: bs) slot word := by
  obtain ⟨c, hc, hslot, hword⟩ := h
  exact ⟨c, mem_cons_of_mem _ hc, hslot, hword⟩

lemma ne_index (hmagazine : other.magazine = slot.magazine) (hne : other ≠ slot) :
    other.index ≠ slot.index := by
  intro heq
  cases other
  cases slot
  exact hne (by simp_all)

lemma write_items_of_ne (b : detail.PoolBlock) (h : other.index ≠ slot.index) :
    (b.write slot word).items other.index = b.items other.index :=
  Function.update_of_ne h _ _

lemma write_items_self (b : detail.PoolBlock) : (b.write slot word).items slot.index = word :=
  Function.update_self _ _ _

lemma give_items_of_ne (b : detail.PoolBlock) (h : other.index ≠ slot.index) :
    (b.give slot).items other.index = b.items other.index :=
  Function.update_of_ne h _ _

lemma take_keeps (b : detail.PoolBlock) :
    b.take.2.address = b.address ∧ b.take.2.count = b.count ∧ b.take.2.items = b.items := by
  rw [detail.PoolBlock.take]
  split <;> exact ⟨rfl, rfl, rfl⟩

lemma takeFrom_holds (h : takeFrom bs = (ptr, bs')) (hold : HoldsIn bs slot word) :
    HoldsIn bs' slot word := by
  induction bs generalizing ptr bs' with
  | nil =>
    obtain ⟨b, hb, -⟩ := hold
    cases hb
  | cons b bs ih =>
    obtain ⟨c, hc, hslot, hword⟩ := hold
    rw [takeFrom, detail.PoolBlock.take] at h
    by_cases hfree : b.firstFreeIndex < b.count
    · rw [if_pos hfree, Prod.mk.injEq] at h
      obtain ⟨-, rfl⟩ := h
      rcases mem_cons.1 hc with rfl | hc
      · exact ⟨_, mem_cons_self .., hslot, hword⟩
      · exact HoldsIn.cons _ ⟨c, hc, hslot, hword⟩
    · rw [if_neg hfree, Prod.mk.injEq] at h
      obtain ⟨-, rfl⟩ := h
      rcases mem_cons.1 hc with rfl | hc
      · exact ⟨c, mem_cons_self .., hslot, hword⟩
      · exact (ih rfl ⟨c, hc, hslot, hword⟩).cons b

lemma newBlock_holds {granted : Bool} (h : p.newBlock = .ok (granted, p'))
    (hold : p.Holds slot word) : p'.Holds slot word := by
  rw [newBlock] at h
  split at h
  case isFalse =>
    cases h
    exact hold
  case isTrue =>
    obtain ⟨b, -, hp'⟩ := map_eq_ok.1 h
    obtain ⟨-, rfl⟩ := hp'
    exact HoldsIn.cons b hold

lemma allocate_holds (h : p.allocate = .ok (ptr, p')) (hold : p.Holds slot word) :
    p'.Holds slot word := by
  rw [allocate] at h
  split at h
  case h_1 htake =>
    cases h
    exact takeFrom_holds htake hold
  case h_2 =>
    split at h
    case h_1 => cases h
    case h_2 p1 hnew =>
      cases h
      exact newBlock_holds hnew hold
    case h_3 p1 hnew =>
      have hold1 := newBlock_holds hnew hold
      split at h
      case h_1 => cases h
      case h_2 b bs hblocks =>
        cases h
        obtain ⟨c, hc, hslot, hword⟩ := hold1
        rw [hblocks] at hc
        rcases mem_cons.1 hc with rfl | hc
        · obtain ⟨haddress, hcount, hitems⟩ := take_keeps c
          refine ⟨c.take.2, mem_cons_self .., ⟨?_, ?_⟩, ?_⟩
          · rw [haddress, hslot.1]
          · rw [hcount]
            exact hslot.2
          · rw [hitems, hword]
        · exact HoldsIn.cons _ ⟨c, hc, hslot, hword⟩

lemma write_holds_of_ne (hne : other ≠ slot) (hold : p.Holds other word) :
    (p.write slot new).Holds other word := by
  obtain ⟨b, hb, hother, hword⟩ := hold
  refine ⟨_, mem_map_of_mem hb, ?_⟩
  by_cases haddress : b.address = slot.magazine
  · have hindex := ne_index (hother.1.trans haddress) hne
    rw [if_pos haddress]
    exact ⟨hother, (write_items_of_ne b hindex).trans hword⟩
  · rw [if_neg haddress]
    exact ⟨hother, hword⟩

lemma write_holds_self (hmem : ∃ b ∈ p.mBlocks, b.contains slot) :
    (p.write slot word).Holds slot word := by
  obtain ⟨b, hb, hslot⟩ := hmem
  refine ⟨_, mem_map_of_mem hb, ?_⟩
  rw [if_pos hslot.1.symm]
  exact ⟨hslot, write_items_self b⟩

lemma reclaimFrom_holds {done : Bool} (h : reclaimFrom slot bs = (done, bs'))
    (hne : other ≠ slot) (hold : HoldsIn bs other word) : HoldsIn bs' other word := by
  induction bs generalizing done bs' with
  | nil =>
    obtain ⟨b, hb, -⟩ := hold
    cases hb
  | cons b bs ih =>
    obtain ⟨c, hc, hother, hword⟩ := hold
    rw [reclaimFrom, detail.PoolBlock.reclaim] at h
    by_cases hslot : b.contains slot
    · rw [if_pos hslot, Prod.mk.injEq] at h
      obtain ⟨-, rfl⟩ := h
      rcases mem_cons.1 hc with rfl | hc
      · have hindex := ne_index (hother.1.trans hslot.1.symm) hne
        exact ⟨_, mem_cons_self .., hother, (give_items_of_ne c hindex).trans hword⟩
      · exact HoldsIn.cons _ ⟨c, hc, hother, hword⟩
    · rw [if_neg hslot, Prod.mk.injEq] at h
      obtain ⟨-, rfl⟩ := h
      rcases mem_cons.1 hc with rfl | hc
      · exact ⟨c, mem_cons_self .., hother, hword⟩
      · exact (ih rfl ⟨c, hc, hother, hword⟩).cons b

lemma release_holds (h : p.release slot = .ok p') (hne : other ≠ slot)
    (hold : p.Holds other word) : p'.Holds other word := by
  rw [release] at h
  split at h
  case h_1 hdone =>
    cases h
    exact reclaimFrom_holds hdone hne hold
  case h_2 => cases h

/-! ## One call -/

lemma Models.exists_contains (h : p.Models q) :
    (∃ b ∈ p.mBlocks, b.contains slot) ↔ ∃ m ∈ q.mBlocks, m.contains slot := by
  have hblocks := h.blocks
  generalize p.mBlocks = bs at hblocks
  generalize q.mBlocks = ms at hblocks
  induction hblocks with
  | nil => simp
  | cons hb _ ih => simp [hb.contains_iff, ih]

lemma Models.construct (h : p.Models q) (hq : q.Valid) (word : Nat) :
    ∃ p', p.construct word = .ok (q.allocate.1, p') ∧ p'.Models q.allocate.2 ∧
      (∀ slot w, p.Holds slot w → q.allocate.1 ≠ some slot → p'.Holds slot w) ∧
      ∀ slot, q.allocate.1 = some slot → p'.Holds slot word := by
  obtain ⟨ptr, p', q', hp, hq', hmodels⟩ := h.allocate hq
  have hvalid := BezOS.PoolAllocator.allocate_valid hq
  rw [hq'] at hvalid ⊢
  cases ptr with
  | none =>
    refine ⟨p', ?_, hmodels, fun slot w hold _ => allocate_holds hp hold, fun slot hslot => ?_⟩
    · rw [PoolAllocator.construct, hp]
    · cases hslot
  | some slot =>
    have hoccupied := ((BezOS.PoolAllocator.allocate_hands hq hq').occupied slot).2 (.inl rfl)
    refine ⟨p'.write slot word, ?_, hmodels.write hvalid hoccupied word, ?_, ?_⟩
    · rw [PoolAllocator.construct, hp]
    · intro other w hold hne
      refine write_holds_of_ne (fun heq => hne ?_) (allocate_holds hp hold)
      rw [heq]
    · intro other hother
      obtain rfl : slot = other := Option.some.inj hother
      obtain ⟨m, hm, hcontains, -⟩ := hoccupied
      exact write_holds_self (hmodels.exists_contains.2 ⟨m, hm, hcontains⟩)

lemma Models.destroy (h : p.Models q) (hq : q.Valid) (hslot : q.Occupied slot) (word : Nat) :
    ∃ p' q', p.destroy (some slot) word = .ok p' ∧ p'.Models q' ∧ q'.Valid ∧
      (∀ other, q'.Occupied other ↔ other ≠ slot ∧ q.Occupied other) ∧
      (∀ other w, p.Holds other w → other ≠ slot → p'.Holds other w) ∧
      ∃ b ∈ p'.mBlocks, b.contains slot := by
  obtain ⟨p', q', hp, hq', hmodels⟩ := (h.write hq hslot word).release hq hslot
  obtain ⟨q'', hq'', hvalid, -, hoccupied⟩ := release_of_occupied hq hslot
  obtain rfl : q' = q'' := ok.inj (hq'.symm.trans hq'')
  refine ⟨p', q', hp, hmodels, hvalid, hoccupied, fun other w hold hne => ?_, ?_⟩
  · exact release_holds hp hne (write_holds_of_ne hne hold)
  · rw [hmodels.exists_contains]
    rw [BezOS.PoolAllocator.release] at hq'
    split at hq'
    case h_2 => cases hq'
    case h_1 ms hgive =>
      cases hq'
      obtain ⟨l, n, t, -, hn, rfl⟩ := giveTo_some hgive
      exact ⟨n.give slot, by simp, hn⟩

def constructMany : List Nat → PoolAllocator →
    Except Fault (List (Option PoolSlot) × PoolAllocator)
  | [], p => .ok ([], p)
  | word :: words, p =>
    match p.construct word with
    | .error e => .error e
    | .ok (ptr, p) => (constructMany words p).map fun (ptrs, p) => (ptr :: ptrs, p)

lemma Models.constructMany (h : p.Models q) (hq : q.Valid) (words : List Nat) :
    ∃ ptrs p', constructMany words p = .ok (ptrs, p') ∧
      ∀ slot ∈ q.mBlocks.flatMap BezOS.PoolAllocator.freeSlotsOf,
        (q.mBlocks.flatMap BezOS.PoolAllocator.freeSlotsOf).length ≤ words.length →
          some slot ∈ ptrs := by
  induction words generalizing p q with
  | nil =>
    refine ⟨[], p, rfl, fun slot hslot hle => ?_⟩
    have := length_pos_of_mem hslot
    simp only [length_nil] at hle
    omega
  | cons word words ih =>
    obtain ⟨p1, hp, hmodels, -⟩ := h.construct hq word
    obtain ⟨ptrs, p', hrun, hall⟩ := ih hmodels (BezOS.PoolAllocator.allocate_valid hq)
    refine ⟨q.allocate.1 :: ptrs, p', ?_, fun slot hslot hle => ?_⟩
    · rw [PoolAllocator.constructMany, hp]
      simp only [hrun, Except.map]
    · obtain ⟨first, rest, hfree⟩ := exists_cons_of_ne_nil (ne_nil_of_mem hslot)
      obtain ⟨q', hq', hrest⟩ := BezOS.PoolAllocator.allocate_flatMap hfree
      rw [hq'] at hall ⊢
      rw [hfree] at hslot hle
      rcases mem_cons.1 hslot with rfl | hslot
      · exact mem_cons_self ..
      · refine mem_cons_of_mem _ (hall slot (by rwa [hrest]) ?_)
        rw [hrest]
        exact Nat.le_of_succ_le_succ hle

end PoolAllocator
end km

/-! ## Runs -/

/-- A pool with its live objects and the word each of them was last given. -/
structure PoolRun where
  pool : km.PoolAllocator
  objects : List (PoolSlot × Nat)

inductive PoolCall
  | construct (word : Nat)
  | destroy (slot : PoolSlot) (word : Nat)
  /-- The owner of an object writes to it. -/
  | write (slot : PoolSlot) (word : Nat)
  | compact
  deriving DecidableEq

namespace PoolRun

variable {s s' : PoolRun}

def live (s : PoolRun) : List PoolSlot := s.objects.map Prod.fst

/-- Only live objects are destroyed and written to. -/
def Allowed (s : PoolRun) : PoolCall → Prop
  | .destroy slot _ => slot ∈ s.live
  | .write slot _ => slot ∈ s.live
  | _ => True

instance (s : PoolRun) (c : PoolCall) : Decidable (s.Allowed c) := by
  cases c <;> simp only [Allowed] <;> infer_instance

def serve (s : PoolRun) : PoolCall → Except Fault PoolRun
  | .construct word => (s.pool.construct word).map fun (ptr, pool) =>
      match ptr with
      | none => ⟨pool, s.objects⟩
      | some slot => ⟨pool, (slot, word) :: s.objects⟩
  | .destroy slot word => (s.pool.destroy (some slot) word).map fun pool =>
      ⟨pool, s.objects.filter fun o => decide (o.1 ≠ slot)⟩
  | .write slot word =>
      .ok ⟨s.pool.write slot word, s.objects.map fun o => if o.1 = slot then (slot, word) else o⟩
  | .compact => s.pool.compact.map fun (_, pool) => ⟨pool, s.objects⟩

inductive Step : PoolRun → PoolCall → PoolRun → Prop
  | serve {s s' : PoolRun} {c : PoolCall} (hallowed : s.Allowed c) (h : s.serve c = .ok s') :
      Step s c s'

/-- The states of a pool that started without magazines, whatever the system grants. -/
def Reachable (s : PoolRun) : Prop :=
  Lib.Reachable Step (fun s => s.pool.mBlocks = [] ∧ s.objects = []) s

/-- The pool stands for one whose occupied slots are the live objects, each with its word. -/
structure Stands (s : PoolRun) (q : BezOS.PoolAllocator) : Prop where
  models : s.pool.Models q
  valid : q.Valid
  occupied : ∀ slot, q.Occupied slot ↔ slot ∈ s.live
  nodup : s.live.Nodup
  holds : ∀ o ∈ s.objects, s.pool.Holds o.1 o.2

variable {q : BezOS.PoolAllocator} {slot : PoolSlot}

lemma stands_of_empty (h : s.pool.mBlocks = [] ∧ s.objects = []) :
    Stands s ⟨[], s.pool.nextAddress, s.pool.grants⟩ := by
  obtain ⟨hblocks, hobjects⟩ := h
  refine ⟨⟨?_, rfl, rfl⟩, ⟨?_, ?_, ?_, ?_, ?_⟩, ?_, ?_, ?_⟩
  · rw [hblocks]
    exact .nil
  all_goals simp [BezOS.PoolAllocator.Occupied, live, hobjects]

lemma mem_live {o : PoolSlot × Nat} (ho : o ∈ s.objects) : o.1 ∈ s.live :=
  mem_map_of_mem ho

namespace Stands

section

variable (h : s.Stands q)

include h

lemma construct (word : Nat) :
    ∃ p' s', s.pool.construct word = .ok (q.allocate.1, p') ∧
      s.serve (.construct word) = .ok s' ∧ s'.Stands q.allocate.2 ∧
      ∀ slot, q.allocate.1 = some slot → slot ∉ s.live := by
  obtain ⟨p', hp, hmodels, hkeep, hnew⟩ := h.models.construct h.valid word
  have hvalid := BezOS.PoolAllocator.allocate_valid h.valid
  rcases hq : q.allocate with ⟨_ | slot, q'⟩
  · rw [hq] at hp hmodels hkeep hnew hvalid
    obtain ⟨-, rfl⟩ := BezOS.PoolAllocator.allocate_none h.valid hq
    refine ⟨p', ⟨p', s.objects⟩, hp, ?_, ⟨hmodels, hvalid, h.occupied, h.nodup, ?_⟩, by simp⟩
    · rw [serve, hp]
      rfl
    · exact fun o ho => hkeep _ _ (h.holds o ho) (by simp)
  · obtain ⟨-, hfree, hoccupied⟩ := BezOS.PoolAllocator.allocate_hands h.valid hq
    rw [hq] at hp hmodels hkeep hnew hvalid
    rw [h.occupied] at hfree
    refine ⟨p', ⟨p', (slot, word) :: s.objects⟩, hp, ?_, ⟨hmodels, hvalid, ?_, ?_, ?_⟩, ?_⟩
    · rw [serve, hp]
      rfl
    · intro other
      rw [hoccupied, h.occupied]
      simp [live]
    · exact nodup_cons.2 ⟨hfree, h.nodup⟩
    · intro o ho
      rcases mem_cons.1 ho with rfl | ho
      · exact hnew slot rfl
      · refine hkeep _ _ (h.holds o ho) fun heq => hfree ?_
        rw [Option.some.inj heq]
        exact mem_live ho
    · intro other hother
      rwa [← Option.some.inj hother]

lemma destroy (hslot : slot ∈ s.live) (word : Nat) :
    ∃ p' s' q', s.pool.destroy (some slot) word = .ok p' ∧
      s.serve (.destroy slot word) = .ok s' ∧ s'.pool = p' ∧ s'.Stands q' ∧
      slot ∉ s'.live ∧ ∃ b ∈ p'.mBlocks, b.contains slot := by
  obtain ⟨p', q', hp, hmodels, hvalid, hoccupied, hkeep, hmem⟩ :=
    h.models.destroy h.valid ((h.occupied slot).2 hslot) word
  have hlive : ∀ other, other ∈ (s.objects.filter fun o => decide (o.1 ≠ slot)).map Prod.fst ↔
      other ≠ slot ∧ other ∈ s.live := by
    intro other
    simp only [live, mem_map, mem_filter, decide_eq_true_eq]
    constructor
    · rintro ⟨o, ⟨ho, hne⟩, rfl⟩
      exact ⟨hne, o, ho, rfl⟩
    · rintro ⟨hne, o, ho, rfl⟩
      exact ⟨o, ⟨ho, hne⟩, rfl⟩
  refine ⟨p', ⟨p', s.objects.filter fun o => decide (o.1 ≠ slot)⟩, q', hp, ?_, rfl,
    ⟨hmodels, hvalid, ?_, ?_, ?_⟩, ?_, hmem⟩
  · rw [serve, hp]
    rfl
  · intro other
    rw [hoccupied, h.occupied]
    exact (hlive other).symm
  · exact h.nodup.sublist (filter_sublist.map _)
  · intro o ho
    have ho' := mem_filter.1 ho
    exact hkeep _ _ (h.holds o ho'.1) (by simpa using ho'.2)
  · exact fun hmem => ((hlive slot).1 hmem).1 rfl

lemma write (hslot : slot ∈ s.live) (word : Nat) :
    ∃ s', s.serve (.write slot word) = .ok s' ∧ s'.Stands q := by
  have hoccupied := (h.occupied slot).2 hslot
  have hlive : (s.objects.map fun o => if o.1 = slot then (slot, word) else o).map Prod.fst =
      s.live := by
    rw [map_map, live]
    refine map_congr_left fun o _ => ?_
    by_cases heq : o.1 = slot <;> simp [heq]
  refine ⟨_, rfl, ⟨h.models.write h.valid hoccupied word, h.valid, ?_, ?_, ?_⟩⟩
  · intro other
    rw [h.occupied, live, live, hlive, live]
  · rw [live, hlive]
    exact h.nodup
  · intro o ho
    obtain ⟨o', ho', rfl⟩ := mem_map.1 ho
    by_cases heq : o'.1 = slot
    · rw [if_pos heq]
      obtain ⟨m, hm, hcontains, -⟩ := hoccupied
      exact km.PoolAllocator.write_holds_self (h.models.exists_contains.2 ⟨m, hm, hcontains⟩)
    · rw [if_neg heq]
      exact km.PoolAllocator.write_holds_of_ne heq (h.holds o' ho')

lemma isEmpty_iff {m : PoolBlock} (hm : m ∈ q.mBlocks) :
    m.isEmpty = true ↔ ∀ slot ∈ s.live, ¬ m.contains slot := by
  constructor
  · intro hempty slot hslot hcontains
    rw [← h.occupied, h.valid.occupied_iff hm hcontains] at hslot
    exact hslot (h.valid.mem_free_of_isEmpty hm hempty hcontains.2)
  · intro hnone
    have hall : range m.count ⊆ m.free := by
      intro i hi
      by_contra hfree
      have hcontains : m.contains ⟨m.address, i⟩ := ⟨rfl, mem_range.1 hi⟩
      exact hnone _ ((h.occupied _).1 ((h.valid.occupied_iff hm hcontains).2 hfree)) hcontains
    have hle := (subperm_of_subset nodup_range hall).length_le
    rw [length_range] at hle
    rw [PoolBlock.isEmpty, beq_iff_eq]
    exact Nat.le_antisymm (h.valid.length_free_le hm) hle

lemma compact :
    ∃ p', s.pool.compact = .ok (km.PoolAllocator.compactStats q.mBlocks, p') ∧
      s.serve .compact = .ok ⟨p', s.objects⟩ ∧
      Stands ⟨p', s.objects⟩ q.compact ∧
      ∀ b ∈ s.pool.mBlocks, b ∈ p'.mBlocks ↔ ∃ slot ∈ s.live, b.contains slot := by
  obtain ⟨bs', hrun, hnew, hkept, hall⟩ := km.PoolAllocator.compactFrom_models h.models.blocks
    fun m hm => h.valid.length_free_le hm
  have hcompact : s.pool.compact =
      .ok (km.PoolAllocator.compactStats q.mBlocks, { s.pool with mBlocks := bs' }) := by
    rw [km.PoolAllocator.compact, hrun]
    rfl
  have hiff : ∀ b ∈ s.pool.mBlocks, b ∈ bs' ↔ ∃ slot ∈ s.live, b.contains slot := by
    intro b hb
    constructor
    · intro hkeep
      obtain ⟨-, m, hm, hbm, hempty⟩ := hkept b hkeep
      by_contra hnone
      refine absurd ((h.isEmpty_iff hm).2 fun slot hslot hcontains => hnone ?_) (by simp [hempty])
      exact ⟨slot, hslot, hbm.contains_iff.2 hcontains⟩
    · rintro ⟨slot, hslot, hcontains⟩
      refine (hall b hb).resolve_right ?_
      rintro ⟨m, hm, hbm, hempty⟩
      exact (h.isEmpty_iff hm).1 hempty slot hslot (hbm.contains_iff.1 hcontains)
  refine ⟨_, hcompact, ?_, ⟨⟨hnew, h.models.nextAddress, h.models.grants⟩,
    compact_valid h.valid, ?_, h.nodup, ?_⟩, hiff⟩
  · rw [serve, hcompact]
    rfl
  · exact fun slot => (compact_occupied h.valid).trans (h.occupied slot)
  · intro o ho
    obtain ⟨b, hb, hslot, hword⟩ := h.holds o ho
    exact ⟨b, (hiff b hb).2 ⟨o.1, mem_live ho, hslot⟩, hslot, hword⟩

lemma step {c : PoolCall} (hstep : Step s c s') : ∃ q', s'.Stands q' := by
  obtain ⟨hallowed, hs'⟩ := hstep
  cases c with
  | construct word =>
    obtain ⟨-, s1, -, hserve, hnew, -⟩ := h.construct word
    obtain rfl := ok.inj (hserve.symm.trans hs')
    exact ⟨_, hnew⟩
  | destroy slot word =>
    obtain ⟨-, s1, q', -, hserve, -, hnew, -⟩ := h.destroy hallowed word
    obtain rfl := ok.inj (hserve.symm.trans hs')
    exact ⟨q', hnew⟩
  | write slot word =>
    obtain ⟨s1, hserve, hnew⟩ := h.write hallowed word
    obtain rfl := ok.inj (hserve.symm.trans hs')
    exact ⟨q, hnew⟩
  | compact =>
    obtain ⟨p', -, hserve, hnew, -⟩ := h.compact
    obtain rfl := ok.inj (hserve.symm.trans hs')
    exact ⟨_, hnew⟩

end

end Stands

def Sound (s : PoolRun) : Prop := ∃ q, s.Stands q

lemma Reachable.sound (hs : s.Reachable) : s.Sound :=
  hs.induction (fun _ h => ⟨_, stands_of_empty h⟩) fun _ _ _ ⟨_, h⟩ hstep => h.step hstep

lemma Reachable.step {c : PoolCall} (hs : s.Reachable) (hallowed : s.Allowed c)
    (h : s.serve c = .ok s') : s'.Reachable := by
  obtain ⟨t, as, ht, hrun⟩ := hs
  exact ⟨t, as ++ [c], ht, hrun.append (.single ⟨hallowed, h⟩)⟩

/-! ## Slot safety -/

/-- As many objects as the pool reports free slots, constructed one after the other, take the
slot, whatever else they take. -/
def Available (p : km.PoolAllocator) (slot : PoolSlot) : Prop :=
  ∀ sizeofBlock sizeofItem st, p.stats sizeofBlock sizeofItem = .ok st →
    ∀ words : List Nat, st.freeSlots ≤ words.length →
      ∃ ptrs p', km.PoolAllocator.constructMany words p = .ok (ptrs, p') ∧ some slot ∈ ptrs

/-- What the pool promises in a state: every call returns, and
* `construct` hands out a slot that is not live, in a magazine of the pool;
* a destroyed slot, and every other slot without an object, is available;
* the magazines `compact` gives back are those without a live slot;
* every live object has the word it was last given, also after a `compact`;
* `stats` counts the slots without an object and, as the rest, those with one. -/
structure SlotSafe (s : PoolRun) : Prop where
  nodup : s.live.Nodup
  inside : ∀ slot ∈ s.live, slot ∈ s.pool.slots
  holds : ∀ o ∈ s.objects, s.pool.Holds o.1 o.2
  construct : ∀ word, ∃ ptr p', s.pool.construct word = .ok (ptr, p') ∧
    ∀ slot, ptr = some slot → slot ∉ s.live ∧ slot ∈ p'.slots
  destroy : ∀ slot ∈ s.live, ∀ word, ∃ p', s.pool.destroy (some slot) word = .ok p' ∧
    Available p' slot
  available : ∀ slot ∈ s.pool.slots, slot ∉ s.live → Available s.pool slot
  compact : ∃ st p', s.pool.compact = .ok (st, p') ∧
    st.slots + p'.slots.length = s.pool.slots.length ∧
    (∀ b ∈ s.pool.mBlocks, b ∈ p'.mBlocks ↔ ∃ slot ∈ s.live, b.contains slot) ∧
    ∀ o ∈ s.objects, p'.Holds o.1 o.2
  stats : ∀ sizeofBlock sizeofItem, ∃ st, s.pool.stats sizeofBlock sizeofItem = .ok st ∧
    st.totalSlots = s.pool.slots.length ∧
    st.freeSlots = (s.pool.slots.filter fun slot => decide (slot ∉ s.live)).length ∧
    st.totalSlots - st.freeSlots = s.live.length

namespace Stands

lemma mem_slots (h : s.Stands q) : slot ∈ s.pool.slots ↔ ∃ m ∈ q.mBlocks, m.contains slot :=
  km.PoolAllocator.mem_slots.trans h.models.exists_contains

lemma length_freeSlots (ms : List PoolBlock) :
    (ms.flatMap BezOS.PoolAllocator.freeSlotsOf).length =
      (ms.map fun m => m.free.length).sum := by
  rw [length_flatMap]
  simp [BezOS.PoolAllocator.freeSlotsOf]

lemma length_slots (h : s.Stands q) :
    s.pool.slots.length = (q.mBlocks.map count).sum := by
  have hblocks := h.models.blocks
  rw [km.PoolAllocator.slots]
  generalize s.pool.mBlocks = bs at hblocks
  generalize q.mBlocks = ms at hblocks
  induction hblocks with
  | nil => rfl
  | cons hb _ ih => simp [hb.count, ih]

lemma slots_compactStats (ms : List PoolBlock) :
    (km.PoolAllocator.compactStats ms).slots +
      ((ms.filter fun m => !m.isEmpty).map count).sum = (ms.map count).sum := by
  simp only [km.PoolAllocator.compactStats]
  induction ms with
  | nil => rfl
  | cons m ms ih =>
    cases hm : m.isEmpty <;> simp only [filter_cons, hm, map_cons, sum_cons] <;>
      simp <;> omega

section

variable (h : s.Stands q)

include h

lemma nodup_slots : s.pool.slots.Nodup := by
  have haddresses : (s.pool.mBlocks.map km.detail.PoolBlock.address).Nodup := by
    have hnodup := h.valid.nodup
    have hblocks := h.models.blocks
    generalize s.pool.mBlocks = bs at hblocks ⊢
    generalize q.mBlocks = ms at hblocks hnodup
    have heq : bs.map km.detail.PoolBlock.address = ms.map address := by
      clear hnodup
      induction hblocks with
      | nil => rfl
      | cons hb _ ih => simp [hb.address, ih]
    rwa [heq]
  refine nodup_flatMap.2 ⟨fun b _ => ?_, ?_⟩
  · exact nodup_range.map fun i j hij => (PoolSlot.mk.inj hij).2
  · refine (pairwise_map.1 haddresses).imp fun hne => ?_
    refine disjoint_left.2 fun slot hslot hslot' => hne ?_
    obtain ⟨i, -, rfl⟩ := mem_map.1 hslot
    obtain ⟨j, -, heq⟩ := mem_map.1 hslot'
    exact (PoolSlot.mk.inj heq).1.symm

lemma stats (sizeofBlock sizeofItem : Nat) :
    ∃ st, s.pool.stats sizeofBlock sizeofItem = .ok st ∧
      st.totalSlots = s.pool.slots.length ∧
      st.freeSlots = (q.mBlocks.flatMap BezOS.PoolAllocator.freeSlotsOf).length := by
  obtain ⟨st, hrun, hfree, htotal⟩ := km.PoolAllocator.statsFrom_models h.models.blocks
    (fun m hm => h.valid.length_free_le hm) sizeofBlock sizeofItem
  refine ⟨{ st with magazines := s.pool.mBlocks.length,
                    controlMemory := st.controlMemory + s.pool.mBlocks.length * 8 }, ?_,
    htotal.trans h.length_slots.symm, hfree.trans (length_freeSlots _).symm⟩
  rw [km.PoolAllocator.stats, hrun]
  rfl

lemma perm_freeSlots :
    (q.mBlocks.flatMap BezOS.PoolAllocator.freeSlotsOf).Perm
      (s.pool.slots.filter fun slot => decide (slot ∉ s.live)) := by
  have hnodup : (q.mBlocks.flatMap BezOS.PoolAllocator.freeSlotsOf).Nodup := by
    refine nodup_flatMap.2 ⟨fun m hm => ?_, ?_⟩
    · exact (h.valid.free_nodup m hm).map fun i j hij => (PoolSlot.mk.inj hij).2
    · refine (pairwise_map.1 h.valid.nodup).imp fun hne => ?_
      refine disjoint_left.2 fun slot hslot hslot' => hne ?_
      obtain ⟨i, -, rfl⟩ := mem_map.1 hslot
      obtain ⟨j, -, heq⟩ := mem_map.1 hslot'
      exact (PoolSlot.mk.inj heq).1.symm
  rw [perm_ext_iff_of_nodup hnodup (h.nodup_slots.filter _)]
  intro slot
  rw [mem_filter, decide_eq_true_eq, h.mem_slots, ← h.occupied]
  constructor
  · intro hmem
    obtain ⟨m, hm, hslot⟩ := mem_flatMap.1 hmem
    obtain ⟨i, hi, rfl⟩ := mem_map.1 hslot
    have hcontains : m.contains ⟨m.address, i⟩ := ⟨rfl, h.valid.free_lt m hm i hi⟩
    refine ⟨⟨m, hm, hcontains⟩, fun hoccupied => ?_⟩
    exact (h.valid.occupied_iff hm hcontains).1 hoccupied hi
  · rintro ⟨hmem, hfree⟩
    exact BezOS.PoolAllocator.mem_flatMap_freeSlotsOf h.valid hmem hfree

lemma available (hslot : slot ∈ s.pool.slots) (hfree : slot ∉ s.live) :
    Available s.pool slot := by
  intro sizeofBlock sizeofItem st hst words hle
  obtain ⟨st', hst', -, hcount⟩ := h.stats sizeofBlock sizeofItem
  obtain rfl := ok.inj (hst.symm.trans hst')
  obtain ⟨ptrs, p', hrun, hall⟩ := h.models.constructMany h.valid words
  refine ⟨ptrs, p', hrun, hall slot ?_ (by rwa [← hcount])⟩
  rw [h.perm_freeSlots.mem_iff, mem_filter]
  exact ⟨hslot, by simpa using hfree⟩

lemma slotSafe : SlotSafe s := by
  have hinside : ∀ slot ∈ s.live, slot ∈ s.pool.slots := by
    intro slot hslot
    obtain ⟨m, hm, hcontains, -⟩ := (h.occupied slot).2 hslot
    exact h.mem_slots.2 ⟨m, hm, hcontains⟩
  refine ⟨h.nodup, hinside, h.holds, fun word => ?_, fun slot hslot word => ?_,
    fun slot hslot hfree => h.available hslot hfree, ?_, fun sizeofBlock sizeofItem => ?_⟩
  · obtain ⟨p', s', hp, hserve, hnew, hfresh⟩ := h.construct word
    refine ⟨_, p', hp, fun slot hslot => ⟨hfresh slot hslot, ?_⟩⟩
    have hs' : s' = ⟨p', (slot, word) :: s.objects⟩ := by
      rw [serve, hp, hslot] at hserve
      exact (ok.inj hserve).symm
    rw [hs'] at hnew
    obtain ⟨b, hb, hcontains, -⟩ := hnew.holds (slot, word) (mem_cons_self ..)
    exact km.PoolAllocator.mem_slots.2 ⟨b, hb, hcontains⟩
  · obtain ⟨p', s', q', hp, -, rfl, hnew, hfree, hmem⟩ := h.destroy hslot word
    exact ⟨_, hp, hnew.available (km.PoolAllocator.mem_slots.2 hmem) hfree⟩
  · obtain ⟨p', hp, -, hnew, hiff⟩ := h.compact
    refine ⟨_, p', hp, ?_, hiff, hnew.holds⟩
    have hslots := hnew.length_slots
    rw [hslots, h.length_slots]
    exact slots_compactStats q.mBlocks
  · obtain ⟨st, hst, htotal, hfree⟩ := h.stats sizeofBlock sizeofItem
    rw [h.perm_freeSlots.length_eq] at hfree
    refine ⟨st, hst, htotal, hfree, ?_⟩
    -- the slots with an object are the live ones
    have hlive : (s.pool.slots.filter fun slot => decide (slot ∈ s.live)).Perm s.live := by
      rw [perm_ext_iff_of_nodup (h.nodup_slots.filter _) h.nodup]
      intro slot
      simp only [mem_filter, decide_eq_true_eq]
      exact ⟨fun hmem => hmem.2, fun hmem => ⟨hinside slot hmem, hmem⟩⟩
    have hsplit := length_eq_length_filter_add (l := s.pool.slots) (· ∈ s.live)
    rw [hlive.length_eq] at hsplit
    simp only [decide_not] at hfree
    omega

end

end Stands

/-- The pool is slot safe in every state of every run. -/
theorem slot_safety (hs : s.Reachable) : SlotSafe s := by
  obtain ⟨q, h⟩ := hs.sound
  exact h.slotSafe

/-- A pool that constructed two objects and destroyed the first one. -/
theorem slot_safety_reused : ∃ s : PoolRun, s.live = [⟨0, 1⟩] ∧ SlotSafe s := by
  let empty : PoolRun := ⟨⟨[], 0, fun _ => true⟩, []⟩
  have hempty : empty.Reachable := ⟨empty, [], ⟨rfl, rfl⟩, .nil _⟩
  have hfirst := hempty.step (c := .construct 7) trivial rfl
  have hsecond := hfirst.step (c := .construct 8) trivial rfl
  have hlast := hsecond.step (c := .destroy ⟨0, 0⟩ 0) (by decide) rfl
  exact ⟨_, by decide, slot_safety hlast⟩

end PoolRun
end BezOS
