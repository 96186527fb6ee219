import BezOS.Memory.TlsfRuns

/-!
# Freeing in any order

A free block lies between two used ones, so the used blocks of a heap determine its whole
partition. Freeing takes one used block away, and the order does not show.
-/

namespace BezOS
namespace Tlsf

open Lib List

/-- `free` of several allocations. -/
def freeAll : List BlockPtr → HeapM Unit
  | [] => pure ()
  | b :: bs => do
    free b
    freeAll bs

variable {h h' : TlsfHeap} {base : Nat} {rs l t : List Region} {r : Region}
  {lists : Nat → List BlockPtr} {spare bs bs' : List BlockPtr} {b : BlockPtr}
  {ranges : List AnyRange} {range : AnyRange}

/-- The used blocks but those of `bs`. -/
def without (bs : List BlockPtr) (rs : List Region) : List Region :=
  (usedRegions rs).filter fun r => r.block ∉ bs

@[simp] lemma without_nil (rs : List Region) : without [] rs = usedRegions rs := by
  simp [without]

lemma filter_other {x : List Region} (hx : ∀ q ∈ x, q.block ≠ b) :
    (usedRegions x).filter (fun q => q.block ≠ b) = usedRegions x := by
  refine filter_eq_self.2 fun q hq => ?_
  simpa using hx q (mem_filter.1 hq).1

lemma without_cons {rs' : List Region} (hr : Represents h (l ++ r :: t) lists spare)
    (hused : r.used = true) (hlive : usedRegions rs' = usedRegions l ++ usedRegions t) :
    without (r.block :: bs) (l ++ r :: t) = without bs rs' := by
  have hone : usedRegions rs' =
      (usedRegions (l ++ r :: t)).filter fun q => q.block ≠ r.block := by
    rw [hlive, usedRegions_append, usedRegions_used hused, filter_append,
      filter_cons_of_neg (by simp), filter_other fun q hq => hr.other_ne (by simp [hq]),
      filter_other fun q hq => hr.other_ne (by simp [hq])]
  rw [without, without, hone, filter_filter]
  refine filter_congr fun q _ => ?_
  simp [Bool.and_comm]

lemma freeAll_run (hw : Wellformed h base rs lists spare) (hnodup : bs.Nodup)
    (hlive : ∀ b ∈ bs, ∃ r ∈ usedRegions rs, r.block = b) :
    ∃ h' rs' lists', freeAll bs h = .ok ((), h') ∧ Wellformed h' base rs' lists' spare ∧
      usedRegions rs' = without bs rs ∧ h'.mSize = h.mSize := by
  induction bs generalizing h rs lists with
  | nil => exact ⟨h, rs, lists, rfl, hw, by simp, rfl⟩
  | cons b bs ih =>
    obtain ⟨hb, hrest⟩ := nodup_cons.1 hnodup
    obtain ⟨r, hmem, rfl⟩ := hlive b (by simp)
    obtain ⟨hmem, hused⟩ := mem_filter.1 hmem
    obtain ⟨l, t, rfl⟩ := append_of_mem hmem
    obtain ⟨h1, rs1, lists1, hrun1, hw1, hlive1, hsize1⟩ := free_run hw hused
    have hlive' : ∀ b ∈ bs, ∃ q ∈ usedRegions rs1, q.block = b := by
      intro b hb'
      obtain ⟨q, hq, rfl⟩ := hlive b (.tail _ hb')
      refine ⟨q, ?_, rfl⟩
      rw [usedRegions_append, usedRegions_used hused] at hq
      rw [hlive1]
      simp only [mem_append, mem_cons] at hq ⊢
      rcases hq with hq | rfl | hq
      · exact .inl hq
      · exact absurd hb' hb
      · exact .inr hq
    obtain ⟨h2, rs2, lists2, hrun2, hw2, hlive2, hsize2⟩ := ih hw1 hrest hlive'
    refine ⟨h2, rs2, lists2, ?_, hw2, ?_, hsize2.trans hsize1⟩
    · rw [freeAll, bind_run hrun1]
      exact hrun2
    · exact hlive2.trans (without_cons hw.repr hused hlive1).symm

lemma without_perm (hperm : bs.Perm bs') (rs : List Region) : without bs rs = without bs' rs := by
  refine filter_congr fun q _ => ?_
  simp [hperm.mem_iff]

lemma Wellformed.pieces_eq {rs' : List Region} {lists' : Nat → List BlockPtr}
    (hw : Wellformed h base rs lists spare) (hw' : Wellformed h' base rs' lists' spare)
    (hsize : h'.mSize = h.mSize) (hlive : usedRegions rs' = usedRegions rs) :
    pieces rs' = pieces rs := by
  have hpacked := hw'.packed
  rw [hsize] at hpacked
  refine hpacked.unique hw.packed ?_
  rw [live_pieces, live_pieces, hlive]

lemma Wellformed.pieces_of_unused (hw : Wellformed h base rs lists spare)
    (hlive : usedRegions rs = []) : pieces rs = [⟨base, h.mSize, false⟩] := by
  have hone : Packed base h.mSize [⟨base, h.mSize, false⟩] :=
    ⟨⟨⟨rfl, trivial⟩, by simp, by simp⟩, isChain_singleton _, _, rfl, rfl⟩
  refine hw.packed.unique hone ?_
  rw [live_pieces, hlive]
  rfl

/-- What freeing the allocations `bs` in two orders leads to. -/
structure OrderIndependent (range : AnyRange) (h : TlsfHeap) (bs bs' : List BlockPtr) : Prop where
  same : ∃ h1 h2, freeAll bs h = .ok ((), h1) ∧ freeAll bs' h = .ok ((), h2) ∧
    pieces h1.regions = pieces h2.regions
  whole : (∀ b, Live h b → b ∈ bs) → ∃ h1, freeAll bs h = .ok ((), h1) ∧
    pieces h1.regions = [⟨range.front, range.size, false⟩]

end Tlsf
end BezOS
