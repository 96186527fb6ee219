import Mathlib.Data.List.TakeWhile
import BezOS.Lib.Transition
import BezOS.Memory.PageTables

/-!
# Looking up mappings

`detail::MappingLookupTable` of `memory/detail/mapping_lookup_table.cpp`. What `find` answers for
each address next to the mappings that were added, and what the reference counts say next to the
retains and releases of addresses inside each mapping.
-/

namespace BezOS
namespace km

open Lib List MappingLookupTable

namespace AddressMapping

variable {m : AddressMapping} {a : Nat}

def Covers (m : AddressMapping) (a : Nat) : Prop := m.paddr ≤ a ∧ a < m.paddr + m.size
  deriving Decidable

def pages (m : AddressMapping) : Nat := m.size / kPageSize % 2 ^ 32

/-- A mapping of at least one byte, inside both address spaces. -/
structure Proper (m : AddressMapping) : Prop where
  pos : 0 < m.size
  physical : m.paddr + m.size ≤ wordCount
  virtual : m.vaddr < wordCount

/-- No physical address is in both. -/
def Apart (m n : AddressMapping) : Prop := ∀ a, ¬ (m.Covers a ∧ n.Covers a)

instance : Std.Symm Apart := ⟨fun _ _ h a ha => h a ⟨ha.2, ha.1⟩⟩

lemma Apart.le_of_lt {n : AddressMapping} (h : m.Apart n) (hn : 0 < n.size)
    (hlt : m.paddr < n.paddr) : m.paddr + m.size ≤ n.paddr := by
  by_contra hno
  exact h n.paddr ⟨⟨hlt.le, by omega⟩, le_refl _, by omega⟩

lemma pages_le (m : AddressMapping) : m.pages * kPageSize ≤ m.size :=
  (Nat.mul_le_mul_right _ (Nat.mod_le _ _)).trans (Nat.div_mul_le_self _ _)

end AddressMapping

namespace MappingLookupTable

variable {t : MappingLookupTable} {pre post : List (Nat × MapEntry)} {key paddr : Nat}
  {e : MapEntry} {mappings : List AddressMapping}

/-! ## Entries by their keys -/

def Sorted (t : MappingLookupTable) : Prop := t.entries.Pairwise fun a b => a.1 < b.1

section

variable (h : t.Sorted) (ht : t.entries = pre ++ (key, e) :: post)

include h ht

lemma Sorted.at_cons :
    (∀ a ∈ pre, a.1 < key) ∧ ∀ a ∈ post, key < a.1 := by
  rw [Sorted, ht, pairwise_append, pairwise_cons] at h
  exact ⟨fun a ha => h.2.2 a ha (key, e) (by simp), h.2.1.1⟩

lemma lowerBound_of_key :
    t.lowerBound key = pre.length := by
  obtain ⟨hpre, hpost⟩ := h.at_cons ht
  rw [lowerBound, ht]
  refine lowerBound_append hpre fun a ha => ?_
  rcases mem_cons.1 ha with rfl | ha
  · exact le_refl _
  · exact (hpost a ha).le

lemma findEntry_of_key :
    t.findEntry key = some (pre.length, e) := by
  rw [findEntry, lowerBound_of_key h ht, ht, getElem?_append_cons]
  simp

end

lemma findEntry_eq_none (h : ∀ a ∈ t.entries, a.1 ≠ key) : t.findEntry key = none := by
  rw [findEntry]
  cases hget : t.entries[t.lowerBound key]? with
  | none => rfl
  | some a => exact if_neg (h a (mem_of_getElem? hget))

lemma Sorted.exists_cut (h : t.Sorted) (a : Nat) :
    ∃ pre post, t.entries = pre ++ post ∧ (∀ x ∈ pre, x.1 < a) ∧ (∀ x ∈ post, a ≤ x.1) ∧
      t.lowerBound a = pre.length := by
  let below : Nat × MapEntry → Bool := fun x => decide (x.1 < a)
  have hpre : ∀ x ∈ t.entries.takeWhile below, x.1 < a := by
    intro x hx
    simpa [below] using mem_takeWhile_imp hx
  have hpost : ∀ x ∈ t.entries.dropWhile below, a ≤ x.1 := by
    have hstop : ∀ x ∈ t.entries.dropWhile below, below x = false := by
      refine not_of_mem_dropWhile (h.imp_of_mem ?_)
      intro x y _ _ hxy
      simp only [below, decide_eq_true_eq]
      omega
    intro x hx
    simpa [below] using hstop x hx
  refine ⟨_, _, (takeWhile_append_dropWhile).symm, hpre, hpost, ?_⟩
  have hsplit : t.entries = t.entries.takeWhile below ++ t.entries.dropWhile below :=
    (takeWhile_append_dropWhile).symm
  rw [lowerBound]
  conv_lhs => rw [hsplit]
  exact lowerBound_append hpre hpost

/-! ## What a table stands for -/

def shape (x : Nat × MapEntry) : Nat × Nat × Nat := (x.1, x.2.vaddr, x.2.count)

def shapeOf (m : AddressMapping) : Nat × Nat × Nat := (m.paddr, m.vaddr, m.pages)

structure Tracks (t : MappingLookupTable) (mappings : List AddressMapping) : Prop where
  sorted : t.Sorted
  entries : (t.entries.map shape).Perm (mappings.map shapeOf)
  proper : ∀ m ∈ mappings, m.Proper
  apart : mappings.Pairwise AddressMapping.Apart

section Tracks

variable {mappings : List AddressMapping} {m n : AddressMapping} {a : Nat} {x : Nat × MapEntry}

section

variable (h : t.Tracks mappings)

include h

lemma Tracks.exists_mapping (hx : x ∈ t.entries) :
    ∃ m ∈ mappings, x.1 = m.paddr ∧ x.2.vaddr = m.vaddr ∧ x.2.count = m.pages := by
  have hmem := h.entries.mem_iff.1 (mem_map_of_mem hx)
  obtain ⟨m, hm, heq⟩ := mem_map.1 hmem
  simp only [shape, shapeOf, Prod.mk.injEq] at heq
  exact ⟨m, hm, heq.1.symm, heq.2.1.symm, heq.2.2.symm⟩

lemma Tracks.exists_entry (hm : m ∈ mappings) :
    ∃ pre e post, t.entries = pre ++ (m.paddr, e) :: post ∧ e.vaddr = m.vaddr ∧
      e.count = m.pages := by
  have hmem := h.entries.mem_iff.2 (mem_map_of_mem hm)
  obtain ⟨⟨key, e⟩, hx, heq⟩ := mem_map.1 hmem
  simp only [shape, shapeOf, Prod.mk.injEq] at heq
  obtain ⟨rfl, hvaddr, hcount⟩ := heq
  obtain ⟨pre, post, ht⟩ := append_of_mem hx
  exact ⟨pre, e, post, ht, hvaddr, hcount⟩

lemma Tracks.eq_of_covers (hm : m ∈ mappings) (hn : n ∈ mappings) (hma : m.Covers a)
    (hna : n.Covers a) : m = n := by
  by_contra hne
  exact h.apart.forall hm hn hne a ⟨hma, hna⟩

lemma Tracks.le_of_lt (hm : m ∈ mappings) (hn : n ∈ mappings) (hlt : m.paddr < n.paddr) :
    m.paddr + m.size ≤ n.paddr := by
  have hne : m ≠ n := by
    rintro rfl
    exact Nat.lt_irrefl _ hlt
  exact (h.apart.forall hm hn hne).le_of_lt (h.proper n hn).pos hlt

lemma Tracks.covers_of_key (hx : x ∈ t.entries) :
    ∃ m ∈ mappings, m.Covers x.1 ∧ x.1 = m.paddr := by
  obtain ⟨m, hm, hkey, -⟩ := h.exists_mapping hx
  have := (h.proper m hm).pos
  exact ⟨m, hm, ⟨hkey.ge, by omega⟩, hkey⟩

end

end Tracks

/-! ## Finding an address -/

section Find

variable {mappings : List AddressMapping} {m : AddressMapping} {a : Nat}

/-- `find` answers with the address the mapping gives to `a`, and nothing where no mapping
contains `a`. -/
def FindsMapping (t : MappingLookupTable) (mappings : List AddressMapping) (a : Nat) : Prop :=
  (∀ m ∈ mappings, m.Covers a → t.find a = some (wrapAdd wordCount m.vaddr (a - m.paddr))) ∧
    ((∀ m ∈ mappings, ¬ m.Covers a) → t.find a = none)

/-- The address is not the first of a mapping above another one, and it is below the end of the
pages its mapping is counted with, in 64 bits. -/
def Findable (mappings : List AddressMapping) (a : Nat) : Prop :=
  ∀ m ∈ mappings, m.Covers a →
    (a = m.paddr → ∀ n ∈ mappings, m.paddr ≤ n.paddr) ∧
      a < wrapAdd wordCount m.paddr (m.pages * kPageSize)
  deriving Decidable

lemma find_eq {key : Nat} {e : MapEntry}
    (hit : t.entries[if t.lowerBound a ≠ 0 then t.lowerBound a - 1 else t.lowerBound a]? =
      some (key, e)) :
    t.find a = if key > a ∨ wrapAdd wordCount key (e.count * kPageSize) ≤ a then none
      else some (wrapSub wordCount a (wrapSub wordCount key e.vaddr)) := by
  simp only [find, hit]

lemma wrapSub_slide {key vaddr : Nat} (hle : key ≤ a) (ha : a < wordCount)
    (hv : vaddr < wordCount) :
    wrapSub wordCount a (wrapSub wordCount key vaddr) = wrapAdd wordCount vaddr (a - key) := by
  have hlt : wrapSub wordCount key vaddr < wordCount := wrapSub_lt (by omega)
  rcases wrapSub_cases (show key < wordCount by omega) hv.le with hs | hs <;>
    rcases wrapSub_cases ha hlt.le with hd | hd <;>
    rcases wrapAdd_cases (b := a - key) hv (by omega) with hp | hp <;> omega

lemma wrapped_end_le (hm : m.Proper) :
    wrapAdd wordCount m.paddr (m.pages * kPageSize) ≤ m.paddr + m.size := by
  have hle := m.pages_le
  have hend := hm.physical
  have hpos := hm.pos
  rcases wrapAdd_cases (b := m.pages * kPageSize) (show m.paddr < wordCount by omega)
    (by omega) with h | h <;> omega

section

variable (h : t.Tracks mappings)

include h

lemma find_other {x : Nat × MapEntry} (hx : x ∈ t.entries)
    (hit : t.entries[if t.lowerBound a ≠ 0 then t.lowerBound a - 1 else t.lowerBound a]? = some x)
    (hno : ∀ n ∈ mappings, x.1 = n.paddr → ¬ n.Covers a) : t.find a = none := by
  obtain ⟨n, hn, hkey, -, hcount⟩ := h.exists_mapping hx
  have hend := wrapped_end_le (h.proper n hn)
  have hcov := hno n hn hkey
  rw [find_eq hit, if_pos]
  rw [hkey, hcount]
  simp only [AddressMapping.Covers] at hcov
  omega

lemma hit_of_lt (hm : m ∈ mappings) (ha : m.Covers a) (hlt : m.paddr < a) :
    ∃ e, t.entries[if t.lowerBound a ≠ 0 then t.lowerBound a - 1 else t.lowerBound a]? =
      some (m.paddr, e) ∧ e.vaddr = m.vaddr ∧ e.count = m.pages := by
  obtain ⟨pre, e, post, ht, hvaddr, hcount⟩ := h.exists_entry hm
  obtain ⟨hpre, hpost⟩ := h.sorted.at_cons ht
  have hlower : t.lowerBound a = pre.length + 1 := by
    have hsplit : t.entries = (pre ++ [(m.paddr, e)]) ++ post := by simp [ht]
    rw [lowerBound, hsplit, lowerBound_append, length_append]
    · rfl
    · intro x hx
      rcases mem_append.1 hx with hx | hx
      · exact (hpre x hx).trans hlt
      · rw [mem_singleton.1 hx]
        exact hlt
    · -- the mapping of a later entry starts past the end of this one
      intro x hx
      obtain ⟨n, hn, hkey, -⟩ := h.exists_mapping (x := x) (by simp [ht, hx])
      have hgt := hpost x hx
      have hle := h.le_of_lt hm hn (by omega)
      simp only [AddressMapping.Covers] at ha
      omega
  refine ⟨e, ?_, hvaddr, hcount⟩
  rw [hlower, if_pos (Nat.succ_ne_zero _), Nat.add_sub_cancel, ht, getElem?_append_cons]

lemma hit_of_first (hm : m ∈ mappings) :
    ∃ x ∈ t.entries,
      t.entries[if t.lowerBound m.paddr ≠ 0 then t.lowerBound m.paddr - 1
        else t.lowerBound m.paddr]? = some x ∧
      ((x.1 = m.paddr ∧ x.2.vaddr = m.vaddr ∧ x.2.count = m.pages ∧
        ∀ n ∈ mappings, m.paddr ≤ n.paddr) ∨ x.1 < m.paddr) := by
  obtain ⟨pre, e, post, ht, hvaddr, hcount⟩ := h.exists_entry hm
  obtain ⟨hpre, hpost⟩ := h.sorted.at_cons ht
  rw [lowerBound_of_key h.sorted ht]
  rcases eq_nil_or_concat pre with rfl | ⟨init, x, hinit⟩
  · refine ⟨(m.paddr, e), by simp [ht], by simp [ht], .inl ⟨rfl, hvaddr, hcount, fun n hn => ?_⟩⟩
    obtain ⟨pre', e', post', ht', -⟩ := h.exists_entry hn
    have hmem : (n.paddr, e') ∈ t.entries := by simp [ht']
    rw [ht, nil_append] at hmem
    rcases mem_cons.1 hmem with heq | hmem
    · rw [(Prod.mk.inj heq).1]
    · exact (hpost _ hmem).le
  · rw [concat_eq_append] at hinit
    subst hinit
    have hx : x.1 < m.paddr := hpre x (by simp)
    refine ⟨x, by simp [ht], ?_, .inr hx⟩
    have hne : (init ++ [x]).length ≠ 0 := by simp
    rw [if_pos hne, ht]
    simp

lemma findsMapping_iff :
    FindsMapping t mappings a ↔ Findable mappings a := by
  by_cases hcov : ∃ m ∈ mappings, m.Covers a
  · obtain ⟨m, hm, ha⟩ := hcov
    have hproper := h.proper m hm
    have hword : a < wordCount := by
      have := hproper.physical
      simp only [AddressMapping.Covers] at ha
      omega
    have honly : ∀ n ∈ mappings, n.Covers a → n = m := fun n hn hna => h.eq_of_covers hn hm hna ha
    have hfinds : FindsMapping t mappings a ↔
        t.find a = some (wrapAdd wordCount m.vaddr (a - m.paddr)) := by
      constructor
      · exact fun hf => hf.1 m hm ha
      · intro hf
        refine ⟨fun n hn hna => ?_, fun hno => absurd ha (hno m hm)⟩
        rw [honly n hn hna, hf]
    have hable : Findable mappings a ↔ (a = m.paddr → ∀ n ∈ mappings, m.paddr ≤ n.paddr) ∧
        a < wrapAdd wordCount m.paddr (m.pages * kPageSize) := by
      constructor
      · exact fun hf => hf m hm ha
      · intro hf n hn hna
        rw [honly n hn hna]
        exact hf
    -- what `find` answers when it looks at the mapping's own entry
    have hown : ∀ e : MapEntry,
        t.entries[if t.lowerBound a ≠ 0 then t.lowerBound a - 1 else t.lowerBound a]? =
          some (m.paddr, e) → e.vaddr = m.vaddr → e.count = m.pages →
        (t.find a = some (wrapAdd wordCount m.vaddr (a - m.paddr)) ↔
          a < wrapAdd wordCount m.paddr (m.pages * kPageSize)) := by
      intro e hit hvaddr hcount
      rw [find_eq hit, hvaddr, hcount, wrapSub_slide ha.1 hword hproper.virtual]
      have hnot : ¬ m.paddr > a := Nat.not_lt.2 ha.1
      split
      · exact iff_of_false (by simp) (by omega)
      · exact iff_of_true rfl (by omega)
    rw [hfinds, hable]
    rcases Nat.lt_or_ge m.paddr a with hlt | hge
    · obtain ⟨e, hit, hvaddr, hcount⟩ := hit_of_lt h hm ha hlt
      rw [hown e hit hvaddr hcount]
      exact ⟨fun hend => ⟨fun heq => absurd heq (by omega), hend⟩, fun hf => hf.2⟩
    · obtain rfl : a = m.paddr := Nat.le_antisymm hge ha.1
      obtain ⟨x, hx, hit, ⟨hkey, hvaddr, hcount, hfirst⟩ | hbelow⟩ := hit_of_first h hm
      · obtain ⟨key, e⟩ := x
        subst hkey
        rw [hown e hit hvaddr hcount]
        exact ⟨fun hend => ⟨fun _ => hfirst, hend⟩, fun hf => hf.2⟩
      · refine iff_of_false ?_ fun hf => ?_
        · rw [find_other h hx hit]
          · simp
          · rintro n hn hkey hna
            rw [honly n hn hna] at hkey
            omega
        · obtain ⟨n, hn, hkey, -⟩ := h.exists_mapping hx
          have := hf.1 rfl n hn
          omega
  · have hno : ∀ m ∈ mappings, ¬ m.Covers a := fun m hm ha => hcov ⟨m, hm, ha⟩
    refine iff_of_true ⟨fun m hm ha => absurd ha (hno m hm), fun _ => ?_⟩ fun m hm ha =>
      absurd ha (hno m hm)
    cases hget :
        t.entries[if t.lowerBound a ≠ 0 then t.lowerBound a - 1 else t.lowerBound a]? with
    | none =>
      simp only [find, hget]
    | some x =>
      exact find_other h (mem_of_getElem? hget) hget fun n hn _ => hno n hn

end

end Find

/-! ## Counting references -/

/-- The entry with exactly this key gets another count. -/
def touch (t : MappingLookupTable) (paddr : Nat) (f : Nat → Nat) : MappingLookupTable :=
  { t with entries := t.entries.map fun x =>
      if x.1 = paddr then (x.1, { x.2 with refs := f x.2.refs }) else x }

lemma touch_of_cut (h : t.Sorted) (ht : t.entries = pre ++ (key, e) :: post) (f : Nat → Nat) :
    (t.touch key f).entries = pre ++ (key, { e with refs := f e.refs }) :: post := by
  obtain ⟨hpre, hpost⟩ := h.at_cons ht
  have hsame : ∀ l : List (Nat × MapEntry), (∀ x ∈ l, x.1 ≠ key) →
      (l.map fun x => if x.1 = key then (x.1, { x.2 with refs := f x.2.refs }) else x) = l := by
    intro l hl
    calc (l.map fun x => if x.1 = key then (x.1, { x.2 with refs := f x.2.refs }) else x)
        = l.map id := map_congr_left fun x hx => if_neg (hl x hx)
      _ = l := map_id l
  simp only [touch, ht, map_append, map_cons, if_true]
  rw [hsame pre fun x hx => (hpre x hx).ne, hsame post fun x hx => (hpost x hx).ne']

lemma touch_of_no_key (h : ∀ x ∈ t.entries, x.1 ≠ key) (f : Nat → Nat) : t.touch key f = t := by
  have hsame : (t.touch key f).entries = t.entries := by
    calc (t.touch key f).entries
        = t.entries.map id := map_congr_left fun x hx => if_neg (h x hx)
      _ = t.entries := map_id _
  cases t
  simpa [touch] using hsame

lemma exists_cut_or_no_key (t : MappingLookupTable) (key : Nat) :
    (∃ pre e post, t.entries = pre ++ (key, e) :: post) ∨ ∀ x ∈ t.entries, x.1 ≠ key := by
  by_cases hex : ∃ x ∈ t.entries, x.1 = key
  · obtain ⟨⟨_, e⟩, hx, rfl⟩ := hex
    obtain ⟨pre, post, ht⟩ := append_of_mem hx
    exact .inl ⟨pre, e, post, ht⟩
  · exact .inr fun x hx heq => hex ⟨x, hx, heq⟩

lemma retain_eq_touch (h : t.Sorted) (paddr : Nat) :
    t.retain paddr = t.touch paddr fun refs => (refs + 1) % 2 ^ 32 := by
  rcases t.exists_cut_or_no_key paddr with ⟨pre, e, post, ht⟩ | hno
  · have htouch := touch_of_cut h ht fun refs => (refs + 1) % 2 ^ 32
    rw [retain, findEntry_of_key h ht]
    simp only [ht, set_append_right _ _ (Nat.le_refl _), Nat.sub_self, set_cons_zero]
    rw [← htouch]
    rfl
  · rw [touch_of_no_key hno, retain, findEntry_eq_none hno]

lemma release_eq_touch (h : t.Sorted) (paddr : Nat) :
    t.release paddr = t.touch paddr fun refs => refs - 1 := by
  rcases t.exists_cut_or_no_key paddr with ⟨pre, e, post, ht⟩ | hno
  · have htouch := touch_of_cut h ht fun refs => refs - 1
    rw [release, findEntry_of_key h ht]
    simp only
    split
    · simp only [ht, set_append_right _ _ (Nat.le_refl _), Nat.sub_self, set_cons_zero]
      rw [← htouch]
      rfl
    · -- a count of zero stays
      have hzero : e.refs - 1 = e.refs := by omega
      rw [hzero] at htouch
      have hsame : (t.touch paddr fun refs => refs - 1).entries = t.entries := htouch.trans ht.symm
      calc t = { t with entries := (t.touch paddr fun refs => refs - 1).entries } := by rw [hsame]
        _ = t.touch paddr fun refs => refs - 1 := rfl
  · rw [touch_of_no_key hno, release, findEntry_eq_none hno]

lemma Tracks.touch (h : t.Tracks mappings) (paddr : Nat) (f : Nat → Nat) :
    (t.touch paddr f).Tracks mappings := by
  refine ⟨?_, ?_, h.proper, h.apart⟩
  · refine pairwise_map.2 (h.sorted.imp fun hab => ?_)
    split <;> split <;> exact hab
  · have hshape : (t.touch paddr f).entries.map shape = t.entries.map shape := by
      simp only [MappingLookupTable.touch, map_map]
      refine map_congr_left fun x _ => ?_
      simp only [Function.comp_apply]
      split <;> rfl
    rw [hshape]
    exact h.entries

/-! ## Adding and reclaiming -/

lemma Tracks.addMemory {m : AddressMapping} (h : t.Tracks mappings) (hm : m.Proper)
    (hapart : ∀ n ∈ mappings, m.Apart n) (hroom : mappings.length < t.mCapacity) :
    ∃ t', t.addMemory m = (.success, t') ∧ t'.mCapacity = t.mCapacity ∧
      t'.Tracks (m :: mappings) ∧
      ∀ x, x ∈ t'.entries ↔ x = (m.paddr, ⟨m.vaddr, m.pages, 0⟩) ∨ x ∈ t.entries := by
  have hno : ∀ x ∈ t.entries, x.1 ≠ m.paddr := by
    intro x hx heq
    obtain ⟨n, hn, hcov, -⟩ := h.covers_of_key hx
    have hpos := hm.pos
    exact hapart n hn x.1 ⟨⟨heq.ge, by omega⟩, hcov⟩
  obtain ⟨pre, post, ht, hpre, hpost, hlower⟩ := h.sorted.exists_cut m.paddr
  have hlen : t.entries.length ≠ t.mCapacity := by
    have := h.entries.length_eq
    simp only [length_map] at this
    omega
  have hinsert : t.entries.insertIdx (t.lowerBound m.paddr) (m.paddr, ⟨m.vaddr, m.pages, 0⟩) =
      pre ++ (m.paddr, ⟨m.vaddr, m.pages, 0⟩) :: post := by
    rw [hlower, ht, insertIdx_append]
  refine ⟨{ t with entries := pre ++ (m.paddr, ⟨m.vaddr, m.pages, 0⟩) :: post }, ?_, rfl,
    ⟨?_, ?_, ?_, ?_⟩, fun x => ?_⟩
  · rw [MappingLookupTable.addMemory, insert, if_neg hlen, findEntry_eq_none hno]
    simp only [← AddressMapping.pages.eq_1, hinsert]
  · have hsorted := h.sorted
    rw [Sorted, ht, pairwise_append] at hsorted
    refine pairwise_append.2 ⟨hsorted.1, pairwise_cons.2 ⟨fun x hx => ?_, hsorted.2.1⟩,
      fun x hx y hy => ?_⟩
    · exact lt_of_le_of_ne (hpost x hx) (hno x (by simp [ht, hx])).symm
    · rcases mem_cons.1 hy with rfl | hy
      · exact hpre x hx
      · exact hsorted.2.2 x hx y hy
  · have hentries := h.entries
    rw [ht] at hentries
    simp only [map_append, map_cons] at hentries ⊢
    exact (perm_middle).trans (hentries.cons _)
  · intro n hn
    rcases mem_cons.1 hn with rfl | hn
    · exact hm
    · exact h.proper n hn
  · exact pairwise_cons.2 ⟨hapart, h.apart⟩
  · simp only [ht, mem_append, mem_cons]
    tauto

lemma Tracks.reclaimMemory {m : AddressMapping} {t' : MappingLookupTable} (h : t.Tracks mappings)
    (hr : t.reclaimMemory = some (m, t')) :
    t'.mCapacity = t.mCapacity ∧
      t'.Tracks (mappings.filter fun n => decide (n.paddr ≠ m.paddr)) ∧
      ∀ x ∈ t'.entries, x ∈ t.entries := by
  rw [MappingLookupTable.reclaimMemory] at hr
  split at hr
  · cases hr
  · rename_i key e hfind
    cases hr
    refine ⟨rfl, ⟨h.sorted.filter _, ?_, ?_, h.apart.filter _⟩, fun x hx => mem_of_mem_filter hx⟩
    · have hfilter := h.entries.filter fun x => decide (x.1 ≠ key)
      rw [filter_map, filter_map] at hfilter
      exact hfilter
    · exact fun n hn => h.proper n (mem_of_mem_filter hn)

end MappingLookupTable

/-! ## Runs -/

/-- A table with the mappings in it, each with the retains of its addresses since it was added less
the releases. -/
structure LookupRun where
  table : MappingLookupTable
  mappings : List (AddressMapping × Int)

inductive LookupCall
  | addMemory (mapping : AddressMapping)
  | reclaimMemory
  | retain (paddr : Nat)
  | release (paddr : Nat)
  deriving DecidableEq

namespace LookupRun

variable {s s' : LookupRun} {a size : Nat} {c : LookupCall}

/-- A retain or release of an address counts for the mapping it is in. -/
def counted (mappings : List (AddressMapping × Int)) (a : Nat) (d : Int) :
    List (AddressMapping × Int) :=
  mappings.map fun x => if x.1.Covers a then (x.1, x.2 + d) else x

def serve (s : LookupRun) : LookupCall → LookupRun
  | .addMemory mapping => ⟨(s.table.addMemory mapping).2, (mapping, 0) :: s.mappings⟩
  | .reclaimMemory =>
    match s.table.reclaimMemory with
    | none => s
    | some (mapping, table) =>
      ⟨table, s.mappings.filter fun x => decide (x.1.paddr ≠ mapping.paddr)⟩
  | .retain paddr => ⟨s.table.retain paddr, counted s.mappings paddr 1⟩
  | .release paddr => ⟨s.table.release paddr, counted s.mappings paddr (-1)⟩

/-- Mappings that share no address, as many as there is room for. -/
def Allowed (s : LookupRun) : LookupCall → Prop
  | .addMemory mapping => mapping.Proper ∧ (∀ x ∈ s.mappings, mapping.Apart x.1) ∧
      s.mappings.length < s.table.mCapacity
  | _ => True

def Step (s : LookupRun) (c : LookupCall) (s' : LookupRun) : Prop := s.Allowed c ∧ s.serve c = s'

def Reachable (size : Nat) (s : LookupRun) : Prop :=
  Lib.Reachable Step (fun s => s = ⟨.ofStorage size, []⟩) s

def Sound (s : LookupRun) : Prop := s.table.Tracks (s.mappings.map Prod.fst)

lemma map_fst_counted (mappings : List (AddressMapping × Int)) (a : Nat) (d : Int) :
    (counted mappings a d).map Prod.fst = mappings.map Prod.fst := by
  rw [counted, map_map]
  refine map_congr_left fun x _ => ?_
  simp only [Function.comp_apply]
  split <;> rfl

lemma Sound.step (h : s.Sound) (hstep : Step s c s') : s'.Sound := by
  obtain ⟨hallowed, rfl⟩ := hstep
  cases c with
  | addMemory m =>
    obtain ⟨hm, hapart, hroom⟩ := hallowed
    obtain ⟨t', hadd, -, htracks, -⟩ := MappingLookupTable.Tracks.addMemory h hm
      (by simpa using hapart) (by simpa using hroom)
    rw [Sound, serve, hadd]
    exact htracks
  | reclaimMemory =>
    rw [serve]
    split
    · exact h
    · rename_i m t' hr
      have htracks := (MappingLookupTable.Tracks.reclaimMemory h hr).2.1
      rw [Sound]
      rwa [filter_map] at htracks
  | retain paddr =>
    change (s.table.retain paddr).Tracks ((counted s.mappings paddr 1).map Prod.fst)
    rw [map_fst_counted, MappingLookupTable.retain_eq_touch h.sorted]
    exact MappingLookupTable.Tracks.touch h paddr _
  | release paddr =>
    change (s.table.release paddr).Tracks ((counted s.mappings paddr (-1)).map Prod.fst)
    rw [map_fst_counted, MappingLookupTable.release_eq_touch h.sorted]
    exact MappingLookupTable.Tracks.touch h paddr _

lemma sound_of_empty : Sound ⟨.ofStorage size, []⟩ :=
  ⟨List.Pairwise.nil, Perm.nil, by simp, List.Pairwise.nil⟩

lemma Reachable.sound (h : s.Reachable size) : s.Sound :=
  h.induction (fun _ hs => hs ▸ sound_of_empty) fun _ _ _ hs hstep => hs.step hstep

/-! ### Counts -/

/-- Every mapping's reference count is the number of retains of its addresses less that of the
releases. -/
def Counted (s : LookupRun) : Prop :=
  ∀ x ∈ s.mappings, ∀ e, (x.1.paddr, e) ∈ s.table.entries → (e.refs : Int) = x.2

/-- Inside a mapping only its first address is retained or released; no release comes without a
retain before it, and the retains fit the count. -/
def Careful (s : LookupRun) : LookupCall → Prop
  | .retain paddr => ∀ x ∈ s.mappings, x.1.Covers paddr → paddr = x.1.paddr ∧ x.2 + 1 < 2 ^ 32
  | .release paddr => ∀ x ∈ s.mappings, x.1.Covers paddr → paddr = x.1.paddr ∧ 0 < x.2
  | _ => True

instance (s : LookupRun) (c : LookupCall) : Decidable (s.Careful c) := by
  cases c <;> simp only [Careful] <;> infer_instance

lemma counted_touch_iff (h : s.Sound) (hcount : s.Counted) (f : Nat → Nat) {d : Int}
    (hd : d ≠ 0) :
    Counted ⟨s.table.touch a f, counted s.mappings a d⟩ ↔
      ∀ x ∈ s.mappings, x.1.Covers a → a = x.1.paddr ∧ (f x.2.toNat : Int) = x.2 + d := by
  constructor
  · intro hnew x hx hcov
    obtain ⟨pre, e, post, ht, -⟩ := MappingLookupTable.Tracks.exists_entry h
      (mem_map_of_mem hx)
    have hmem : (x.1.paddr, e) ∈ s.table.entries := by simp [ht]
    have hold := hcount x hx e hmem
    have hx' : (x.1, x.2 + d) ∈ counted s.mappings a d :=
      mem_map.2 ⟨x, hx, if_pos hcov⟩
    have hget := hnew _ hx'
    by_cases heq : a = x.1.paddr
    · refine ⟨heq, ?_⟩
      have hnewmem : (x.1.paddr, { e with refs := f e.refs }) ∈ (s.table.touch a f).entries :=
        mem_map.2 ⟨_, hmem, if_pos heq.symm⟩
      have hrefs := hget _ hnewmem
      rw [← hold, Int.toNat_natCast]
      rw [← hold] at hrefs
      exact hrefs
    · have hnewmem : (x.1.paddr, e) ∈ (s.table.touch a f).entries :=
        mem_map.2 ⟨_, hmem, if_neg (Ne.symm heq)⟩
      have hrefs := hget _ hnewmem
      omega
  · intro hall y hy e' he'
    obtain ⟨x, hx, rfl⟩ := mem_map.1 hy
    obtain ⟨⟨key, e⟩, hmem, heq⟩ := mem_map.1 he'
    have hproper := h.proper x.1 (mem_map_of_mem hx)
    by_cases hkey : key = a
    · subst hkey
      rw [if_pos rfl] at heq
      have hpaddr : key = x.1.paddr := by
        have := (Prod.mk.inj heq).1
        split at this <;> exact this
      have hcov : x.1.Covers key := ⟨hpaddr.ge, by have := hproper.pos; omega⟩
      have hold := hcount x hx e (hpaddr ▸ hmem)
      rw [if_pos hcov] at heq ⊢
      have he : e' = { e with refs := f e.refs } := (Prod.mk.inj heq).2.symm
      have hf := (hall x hx hcov).2
      rw [← hold, Int.toNat_natCast] at hf
      rw [he, ← hold]
      exact hf
    · rw [if_neg hkey] at heq
      have hpaddr : key = x.1.paddr := by
        have := (Prod.mk.inj heq).1
        split at this <;> exact this
      have hcov : ¬ x.1.Covers a := by
        intro hcov
        exact hkey ((hall x hx hcov).1.trans hpaddr.symm).symm
      rw [if_neg hcov] at heq ⊢
      obtain ⟨rfl, rfl⟩ := Prod.mk.inj heq
      exact hcount x hx e hmem

lemma counted_step_iff (h : s.Sound) (hcount : s.Counted) (hstep : Step s c s') :
    s'.Counted ↔ s.Careful c := by
  have hnonneg : ∀ x ∈ s.mappings, 0 ≤ x.2 := by
    intro x hx
    obtain ⟨pre, e, post, ht, -⟩ := MappingLookupTable.Tracks.exists_entry h
      (mem_map_of_mem hx)
    have hold := hcount x hx e (by simp [ht])
    omega
  obtain ⟨hallowed, rfl⟩ := hstep
  cases c with
  | addMemory m =>
    obtain ⟨hm, hapart, hroom⟩ := hallowed
    obtain ⟨t', hadd, -, -, hentries⟩ := MappingLookupTable.Tracks.addMemory h hm
      (by simpa using hapart) (by simpa using hroom)
    refine iff_of_true ?_ trivial
    rw [serve, hadd]
    have hpos := hm.pos
    intro x hx e he
    rcases (hentries _).1 he with heq | he
    · obtain ⟨hpaddr, rfl⟩ := Prod.mk.inj heq
      rcases mem_cons.1 hx with rfl | hx
      · rfl
      · have hxpos := (h.proper x.1 (mem_map_of_mem hx)).pos
        exact absurd ⟨⟨hpaddr.ge, by omega⟩, le_refl _, by omega⟩ (hapart x hx x.1.paddr)
    · rcases mem_cons.1 hx with rfl | hx
      · obtain ⟨n, hn, hcov, -⟩ := MappingLookupTable.Tracks.covers_of_key h he
        obtain ⟨y, hy, rfl⟩ := mem_map.1 hn
        exact absurd ⟨⟨le_refl _, by omega⟩, hcov⟩ (hapart y hy m.paddr)
      · exact hcount x hx e he
  | reclaimMemory =>
    refine iff_of_true ?_ trivial
    rw [serve]
    split
    · exact hcount
    · rename_i m t' hr
      have hsub := (MappingLookupTable.Tracks.reclaimMemory h hr).2.2
      exact fun x hx e he => hcount x (mem_of_mem_filter hx) e (hsub _ he)
  | retain paddr =>
    rw [serve, MappingLookupTable.retain_eq_touch h.sorted,
      counted_touch_iff h hcount _ (by decide)]
    refine forall₂_congr fun x hx => forall_congr' fun _ => and_congr_right fun _ => ?_
    have := hnonneg x hx
    omega
  | release paddr =>
    rw [serve, MappingLookupTable.release_eq_touch h.sorted,
      counted_touch_iff h hcount _ (by decide)]
    refine forall₂_congr fun x hx => forall_congr' fun _ => and_congr_right fun _ => ?_
    omega

def CarefulReachable (size : Nat) (s : LookupRun) : Prop :=
  Lib.Reachable (fun s c s' => Step s c s' ∧ s.Careful c) (fun s => s = ⟨.ofStorage size, []⟩) s

/-- The table is that of the mappings, with the right counts. -/
def Right (s : LookupRun) : Prop := s.Sound ∧ s.Counted

lemma CarefulReachable.right (h : s.CarefulReachable size) : s.Right := by
  refine Lib.Reachable.induction (fun s hs => ?_) (fun s c s' hright hstep => ?_) h
  · rw [hs]
    exact ⟨sound_of_empty, fun x hx => by cases hx⟩
  · obtain ⟨hsound, hcount⟩ := hright
    exact ⟨hsound.step hstep.1, (counted_step_iff hsound hcount hstep.1).2 hstep.2⟩

/-- `find` is right about exactly the addresses that are not the first of a mapping above another
one and lie in the pages their mapping is counted with; the reference counts are right in every
state of every run of careful calls, and a call that is not careful makes them wrong. -/
theorem lookup_iff (size : Nat) (s : LookupRun) :
    (Reachable size s → ∀ a,
      (s.table.FindsMapping (s.mappings.map Prod.fst) a ↔
        MappingLookupTable.Findable (s.mappings.map Prod.fst) a)) ∧
    (CarefulReachable size s → s.Counted) ∧
    ∀ c s', Reachable size s → s.Counted → Step s c s' → (s'.Counted ↔ s.Careful c) :=
  ⟨fun hs _ => MappingLookupTable.findsMapping_iff hs.sound,
    fun hs => hs.right.2,
    fun _ _ hs hcount hstep => counted_step_iff hs.sound hcount hstep⟩

def twoPages : LookupRun :=
  ⟨⟨4, [(0x1000, ⟨0x8000, 1, 1⟩), (0x2000, ⟨0x9000, 1, 0⟩)]⟩,
    [(⟨0x9000, 0x2000, 0x1000⟩, 0), (⟨0x8000, 0x1000, 0x1000⟩, 1)]⟩

def twoPagesCalls : List LookupCall :=
  [.addMemory ⟨0x8000, 0x1000, 0x1000⟩, .addMemory ⟨0x9000, 0x2000, 0x1000⟩, .retain 0x1000]

lemma carefulReachable_twoPages : twoPages.CarefulReachable 96 := by
  refine ⟨_, twoPagesCalls, rfl, .cons ⟨⟨⟨?_, by simp, by decide⟩, rfl⟩, trivial⟩
    (.cons ⟨⟨⟨?_, ?_, by decide⟩, rfl⟩, trivial⟩ (.cons ⟨⟨trivial, rfl⟩, ?_⟩ (.nil _)))⟩
  · exact ⟨by decide, by decide, by decide⟩
  · exact ⟨by decide, by decide, by decide⟩
  · intro x hx a ha
    obtain rfl := mem_singleton.1 hx
    simp only [AddressMapping.Covers] at ha
    omega
  · decide

lemma CarefulReachable.reachable (h : s.CarefulReachable size) : s.Reachable size := by
  obtain ⟨t, as, ht, hrun⟩ := h
  exact ⟨t, as, ht, hrun.mono fun _ _ _ hstep => hstep.1⟩

theorem lookup_of_twoPages :
    (twoPages.table.FindsMapping (twoPages.mappings.map Prod.fst) 0x2fff ↔
      MappingLookupTable.Findable (twoPages.mappings.map Prod.fst) 0x2fff) ∧ twoPages.Counted :=
  ⟨(lookup_iff 96 twoPages).1 carefulReachable_twoPages.reachable 0x2fff,
    (lookup_iff 96 twoPages).2.1 carefulReachable_twoPages⟩

/-- The first address of the second page is not found, and a retain of the second byte of a page
does not count. -/
theorem not_findsMapping_of_twoPages : twoPages.Reachable 96 ∧
    ¬ twoPages.table.FindsMapping (twoPages.mappings.map Prod.fst) 0x2000 ∧
    ¬ (twoPages.serve (.retain 0x1001)).Counted := by
  refine ⟨carefulReachable_twoPages.reachable, fun h => ?_, fun h => ?_⟩
  · have hfind := h.1 ⟨0x9000, 0x2000, 0x1000⟩ (by decide) (by decide)
    revert hfind
    decide
  · have hcount := h (⟨0x8000, 0x1000, 0x1000⟩, 2) (by decide) ⟨0x8000, 1, 1⟩ (by decide)
    revert hcount
    decide

end LookupRun
end km
end BezOS
