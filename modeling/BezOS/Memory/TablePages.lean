import BezOS.Memory.FreeBlocks

/-!
# The pages of a table list

`list.Holds m pages`: the pages of the list, in the order it gives them out. Its operations write
the links of the pages they move and nothing else.
-/

namespace BezOS

open Lib BlockMemory Nat PageTableList

def link (a : Nat) : Option Nat := if a = 0 then none else some a

@[simp] lemma link_zero : link 0 = none := rfl

lemma link_of_ne {a : Nat} (ha : a ≠ 0) : link a = some a := if_neg ha

/-- The pages a run of `count` pages from `a` on has for `PageTableAllocation::offset`. -/
def pageRun (a count : Nat) : List Nat := (List.range count).map fun i => a + i * kPageSize

lemma pageRun_succ {a count : Nat} : pageRun a (count + 1) = pageRun a count ++ [a + count * kPageSize] := by
  simp [pageRun, List.range_succ]

lemma pageRun_cons {a count : Nat} : pageRun a (count + 1) = a :: pageRun (a + kPageSize) count := by
  rw [pageRun, List.range_succ_eq_map, List.map_cons, List.map_map, zero_mul, Nat.add_zero, pageRun]
  refine congrArg _ (List.map_congr_left fun i _ => ?_)
  simp only [Function.comp_apply, succ_eq_add_one, Nat.add_mul, Nat.one_mul]
  omega

lemma not_mem_pageRun {a count : Nat} : a + count * kPageSize ∉ pageRun a count := by
  intro hmem
  obtain ⟨i, hi, heq⟩ := List.mem_map.1 hmem
  have hi := List.mem_range.1 hi
  have hmul := eq_of_mul_eq_mul_right (by decide) (Nat.add_left_cancel heq)
  omega

lemma pageRun_eq_blockPages {bs a count : Nat} (hbs : 0 < bs) (h : bs = kPageSize ∨ count ≤ 1) :
    pageRun a count = blockPages bs a (count * bs) := by
  rw [pageRun, blockPages, Nat.mul_div_cancel _ hbs]
  refine List.map_congr_left ?_
  intro i hi
  rcases h with rfl | hcount
  · rfl
  · obtain rfl : i = 0 := by
      have := List.mem_range.1 hi
      omega
    simp

namespace PageTableList

open PageTableAllocation

variable {m m' : BlockMemory} {list : PageTableList} {pages more P : List Nat} {a slide count : Nat}

def Holds (list : PageTableList) (m : BlockMemory) (pages : List Nat) : Prop :=
  Chain (fun a => link (m.next a)) (link list.mTable.mBlock) pages

lemma Holds.congr (h : list.Holds m pages) (hm : ∀ a ∈ pages, m'.next a = m.next a) :
    list.Holds m' pages :=
  Chain.congr h fun a ha => congrArg link (hm a ha)

lemma Holds.relinks (h : list.Holds m pages) (hm : Relinks P m m') (hP : ∀ a ∈ pages, a ∉ P) :
    list.Holds m' pages :=
  h.congr fun a ha => hm.next a (hP a ha)

lemma Holds.untouched (h : list.Holds m pages) (hm : Untouched P m m')
    (hP : ∀ a ∈ pages, a ∉ P) : list.Holds m' pages :=
  h.congr fun _ ha => hm.next (hP _ ha)

lemma setNext_relinks {allocation next : PageTableAllocation} (ha : allocation.mBlock ∈ P) :
    Relinks P m (allocation.setNext next m) :=
  ((Relinks.refl _ m).setNext ha _).setPrev ha _

lemma setNext_next_self {allocation next : PageTableAllocation} :
    (allocation.setNext next m).next allocation.mBlock = next.mBlock := Function.update_self ..

lemma setNext_next_of_ne {allocation next : PageTableAllocation} (ha : a ≠ allocation.mBlock) :
    (allocation.setNext next m).next a = m.next a := Function.update_of_ne ha _ _

lemma Holds.push (slide : Nat) (h : list.Holds m pages) (ha : a ≠ 0) (hfresh : a ∉ pages) :
    (list.push ⟨a, slide⟩ m).2.Holds (list.push ⟨a, slide⟩ m).1 (a :: pages) ∧
      Relinks [a] m (list.push ⟨a, slide⟩ m).1 := by
  refine ⟨?_, setNext_relinks (by simp)⟩
  have htail : list.Holds (list.push ⟨a, slide⟩ m).1 pages := by
    refine h.relinks (setNext_relinks (P := [a]) (by simp)) ?_
    rintro b hb hmem
    obtain rfl : b = a := by simpa using hmem
    exact hfresh hb
  show Chain _ (link a) (a :: pages)
  rw [link_of_ne ha]
  refine .cons ?_
  have hnext : (list.push ⟨a, slide⟩ m).1.next a = list.mTable.mBlock :=
    @setNext_next_self _ ⟨a, slide⟩ _
  rw [hnext]
  exact htail

lemma offset_eq (i : Nat) (hbound : a + i * kPageSize < wordCount) :
    (⟨a, slide⟩ : PageTableAllocation).offset i = ⟨a + i * kPageSize, slide⟩ := by
  rw [offset, wrapAdd, mod_eq_of_lt hbound]

lemma Holds.pushPages (a count slide : Nat) (h : list.Holds m pages) (hne : ∀ p ∈ pageRun a count, p ≠ 0)
    (hbound : ∀ p ∈ pageRun a count, p < wordCount) (hfresh : ∀ p ∈ pageRun a count, p ∉ pages) :
    (list.pushPages ⟨a, slide⟩ count m).2.Holds (list.pushPages ⟨a, slide⟩ count m).1
        ((pageRun a count).reverse ++ pages) ∧
      Relinks (pageRun a count) m (list.pushPages ⟨a, slide⟩ count m).1 := by
  induction count with
  | zero => exact ⟨h, Relinks.refl _ m⟩
  | succ count ih =>
    rw [pageRun_succ] at hne hbound hfresh ⊢
    obtain ⟨hholds, hlinks⟩ := ih (fun p hp => hne p (List.mem_append_left _ hp))
      (fun p hp => hbound p (List.mem_append_left _ hp))
      (fun p hp => hfresh p (List.mem_append_left _ hp))
    have hpush : list.pushPages ⟨a, slide⟩ (count + 1) m =
        (list.pushPages ⟨a, slide⟩ count m).2.push ⟨a + count * kPageSize, slide⟩
          (list.pushPages ⟨a, slide⟩ count m).1 := by
      rw [PageTableList.pushPages, List.range_succ, List.foldl_concat,
        ← offset_eq count (hbound _ (by simp))]
      rfl
    have hlast : a + count * kPageSize ∉ (pageRun a count).reverse ++ pages := by
      rw [List.mem_append, not_or, List.mem_reverse]
      exact ⟨not_mem_pageRun, hfresh _ (by simp)⟩
    obtain ⟨hholds', hlinks'⟩ := hholds.push slide (hne _ (by simp)) hlast
    rw [hpush, List.reverse_append]
    refine ⟨hholds', ?_⟩
    exact (hlinks.mono (List.subset_append_left ..)).trans
      (hlinks'.mono (List.subset_append_right ..))

lemma linkRun (slide : Nat) (hbound : ∀ p ∈ pageRun a (count + 1), p < wordCount) :
    (∀ i < count, ((List.range count).foldl (fun m i =>
        ((⟨a, slide⟩ : PageTableAllocation).offset i).setNext
          ((⟨a, slide⟩ : PageTableAllocation).offset (i + 1)) m) m).next (a + i * kPageSize) =
        a + (i + 1) * kPageSize) ∧
      Relinks (pageRun a count) m ((List.range count).foldl (fun m i =>
        ((⟨a, slide⟩ : PageTableAllocation).offset i).setNext
          ((⟨a, slide⟩ : PageTableAllocation).offset (i + 1)) m) m) := by
  induction count with
  | zero => exact ⟨by simp, Relinks.refl _ m⟩
  | succ count ih =>
    have hk : 0 < kPageSize := by decide
    rw [pageRun_succ] at hbound
    obtain ⟨hnext, hlinks⟩ := ih (fun p hp => hbound p (List.mem_append_left _ hp))
    rw [List.range_succ, List.foldl_concat, offset_eq (count + 1) (hbound _ (by simp)),
      offset_eq count (hbound _ (by simp [pageRun_succ])), pageRun_succ]
    refine ⟨?_, ?_⟩
    · intro i hi
      by_cases hlast : i = count
      · subst hlast
        exact setNext_next_self
      · have hne : a + i * kPageSize ≠ a + count * kPageSize := by
          intro heq
          exact hlast (eq_of_mul_eq_mul_right hk (Nat.add_left_cancel heq))
        exact (setNext_next_of_ne hne).trans (hnext i (by omega))
    · exact (hlinks.mono (List.subset_append_left ..)).trans (setNext_relinks (by simp))

lemma chain_of_run (hne : ∀ p ∈ pageRun a (count + 1), p ≠ 0)
    (hnext : ∀ i < count, m.next (a + i * kPageSize) = a + (i + 1) * kPageSize)
    (hlast : m.next (a + count * kPageSize) = 0) :
    Chain (fun a => link (m.next a)) (link a) (pageRun a (count + 1)) := by
  induction count generalizing a with
  | zero =>
    rw [pageRun_cons] at hne ⊢
    rw [link_of_ne (hne a (by simp))]
    refine .cons ?_
    have h0 : m.next a = 0 := by simpa using hlast
    rw [h0]
    exact .nil
  | succ count ih =>
    rw [pageRun_cons] at hne ⊢
    rw [link_of_ne (hne a (by simp))]
    refine .cons ?_
    have h0 : m.next a = a + kPageSize := by simpa using hnext 0 (by omega)
    rw [h0]
    apply ih
    · exact fun p hp => hne p (List.mem_cons_of_mem _ hp)
    · intro i hi
      have hi' := hnext (i + 1) (by omega)
      rw [Nat.add_mul, Nat.one_mul] at hi'
      rw [show a + kPageSize + i * kPageSize = a + (i * kPageSize + kPageSize) by omega, hi']
      simp only [Nat.add_mul, Nat.one_mul]
      omega
    · rw [← hlast]
      congr 1
      simp only [Nat.add_mul, Nat.one_mul]
      omega

lemma ofPages_holds (m : BlockMemory) (slide : Nat) (hne : ∀ p ∈ pageRun a (count + 1), p ≠ 0)
    (hbound : ∀ p ∈ pageRun a (count + 1), p < wordCount) :
    (ofPages ⟨a, slide⟩ (count + 1) m).2.Holds (ofPages ⟨a, slide⟩ (count + 1) m).1
        (pageRun a (count + 1)) ∧
      Relinks (pageRun a (count + 1)) m (ofPages ⟨a, slide⟩ (count + 1) m).1 := by
  have hk : 0 < kPageSize := by decide
  obtain ⟨hnext, hlinks⟩ := linkRun slide hbound
  rw [ofPages, Nat.add_sub_cancel, offset_eq count (hbound _ (by simp [pageRun_succ]))]
  refine ⟨chain_of_run hne ?_ setNext_next_self, ?_⟩
  · intro i hi
    have hne : a + i * kPageSize ≠ a + count * kPageSize := by
      intro heq
      have := eq_of_mul_eq_mul_right hk (Nat.add_left_cancel heq)
      omega
    exact (setNext_next_of_ne hne).trans (hnext i hi)
  · rw [pageRun_succ]
    exact (hlinks.mono (List.subset_append_left ..)).trans (setNext_relinks (by simp))

/-! ## Taking pages off -/

lemma Holds.drain_cons (h : list.Holds m (a :: pages)) :
    list.mTable.mBlock = a ∧ a ≠ 0 ∧ list.drain m = (list.mTable, ⟨list.mTable.getNext m⟩) ∧
      (⟨list.mTable.getNext m⟩ : PageTableList).Holds m pages := by
  by_cases hzero : list.mTable.mBlock = 0
  · rw [Holds, hzero] at h
    cases h
  · rw [Holds, link_of_ne hzero] at h
    obtain ⟨l', heq, htail⟩ := h.some_inv
    obtain ⟨rfl, rfl⟩ := List.cons.inj heq
    exact ⟨rfl, hzero, if_pos hzero, htail⟩

lemma Holds.not_present (h : list.Holds m []) : ¬ list.mTable.isPresent := by
  intro hne
  rw [Holds, link_of_ne hne] at h
  cases h

lemma Holds.drain_nil (h : list.Holds m []) : list.drain m = (null, list) :=
  if_neg h.not_present

lemma Holds.append {fuel : Nat} {more : PageTableList} {pages2 : List Nat}
    (h : list.Holds m pages) (h2 : more.Holds m pages2) (hnodup : (pages2 ++ pages).Nodup)
    (hfuel : pages2.length < fuel) :
    ∃ m' list', append fuel m list more = some (m', list') ∧
      list'.Holds m' (pages2.reverse ++ pages) ∧ Relinks pages2 m m' := by
  induction pages2 generalizing fuel m list more pages with
  | nil =>
    obtain ⟨fuel, rfl⟩ : ∃ k, fuel = k + 1 := ⟨fuel - 1, by omega⟩
    refine ⟨m, list, ?_, h, Relinks.refl _ m⟩
    rw [append, h2.drain_nil]
    rfl
  | cons a pages2 ih =>
    obtain ⟨fuel, rfl⟩ : ∃ k, fuel = k + 1 := ⟨fuel - 1, by omega⟩
    obtain ⟨hblock, ha, hdrain, htail⟩ := h2.drain_cons
    simp only [List.cons_append, List.nodup_cons, List.mem_append, not_or] at hnodup
    obtain ⟨⟨ha2, hapages⟩, hnodup⟩ := hnodup
    obtain ⟨hpush, hlinks⟩ := h.push more.mTable.mSlide ha hapages
    have hmore : (⟨more.mTable.getNext m⟩ : PageTableList).Holds
        (list.push ⟨a, more.mTable.mSlide⟩ m).1 pages2 := by
      refine htail.relinks hlinks ?_
      rintro b hb hmem
      obtain rfl : b = a := by simpa using hmem
      exact ha2 hb
    have hnodup' : (pages2 ++ a :: pages).Nodup :=
      List.perm_middle.nodup_iff.2 (List.nodup_cons.2 ⟨by simp [ha2, hapages], hnodup⟩)
    obtain ⟨m', list', hrun, hholds, hrel⟩ := ih hpush hmore hnodup' (by simpa using hfuel)
    refine ⟨m', list', ?_, by simpa using hholds, ?_⟩
    · have htable : more.mTable = ⟨a, more.mTable.mSlide⟩ := by
        rw [← hblock]
      have hpresent : more.mTable.isPresent := by
        rw [isPresent, hblock]
        exact ha
      rw [append, hdrain]
      simp only [if_pos hpresent]
      rw [htable] at hrun ⊢
      exact hrun
    · exact (hlinks.mono (by simp)).trans (hrel.mono (List.subset_cons_self ..))

end PageTableList

end BezOS
