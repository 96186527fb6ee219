import BezOS.Memory.TlsfRuns

/-!
# Gaps

A heap over many ranges has the bytes of the ranges, and the holes between them are blocks that are
never given back. As long as nobody has their handles they stay where they are, and no other block
of the chain, used or free, meets them.
-/

namespace BezOS
namespace Tlsf

open Lib List

variable {h h' h0 : TlsfHeap} {base : Nat} {rs : List Region} {lists : Nat → List BlockPtr}
  {spare : List BlockPtr} {range next : AnyRange} {ranges : List AnyRange} {a : Nat}

/-- The byte `a` is in a free block. -/
def FreeAt (h : TlsfHeap) (a : Nat) : Prop :=
  ∃ r ∈ h.regions, r.used = false ∧ r.offset ≤ a ∧ a < r.offset + r.size

def Disjoint (ranges : List AnyRange) : Prop := ranges.Pairwise fun a b => ¬ AnyRange.Meets a b

/-! ## The bytes of the ranges -/

lemma Ordered.back_le (hs : Ordered (range :: ranges)) (hd : Disjoint (range :: ranges)) :
    ∀ b ∈ ranges, range.back ≤ b.front := by
  intro b hb
  have hle := hs.front_le b hb
  have hpos := hs.positive b (mem_cons_of_mem _ hb)
  have hnot : ¬ AnyRange.Meets range b := (pairwise_cons.1 hd).1 b hb
  rw [AnyRange.Meets] at hnot
  omega

lemma holesOf_front (hs : Ordered (range :: ranges)) :
    ∀ hole ∈ holesOf (range :: ranges), range.front < hole.front := by
  induction ranges generalizing range with
  | nil => simp [holesOf]
  | cons next ranges ih =>
    have hpos := hs.positive range (by simp)
    have hle := hs.front_le next (by simp)
    intro hole hmem
    rw [holesOf] at hmem
    split at hmem
    · rcases mem_cons.1 hmem with rfl | hmem
      · exact hpos
      · exact Nat.lt_of_le_of_lt hle (ih hs.tail hole hmem)
    · exact Nat.lt_of_le_of_lt hle (ih hs.tail hole hmem)

lemma combinedInterval_cons (hs : Ordered (range :: next :: ranges))
    (hd : Disjoint (range :: next :: ranges)) :
    (combinedInterval (range :: next :: ranges)).back =
      (combinedInterval (next :: ranges)).back := by
  have hle : range.back ≤ next.back := by
    have hfront := hs.back_le hd next (by simp)
    have hpos := hs.positive next (by simp)
    omega
  have hfold : ∀ (l : List AnyRange) (x y : AnyRange), x.back = y.back →
      (l.foldl mergeRanges x).back = (l.foldl mergeRanges y).back := by
    intro l
    induction l with
    | nil => exact fun _ _ heq => heq
    | cons z l ih => exact fun x y heq => ih _ _ (congrArg (max · z.back) heq)
  exact hfold ranges _ _ (Nat.max_eq_right hle)

lemma mem_ranges_iff (hs : Ordered (range :: ranges)) (hd : Disjoint (range :: ranges)) :
    (∃ b ∈ range :: ranges, b.contains a) ↔ range.front ≤ a ∧
      a < (combinedInterval (range :: ranges)).back ∧
      ∀ hole ∈ holesOf (range :: ranges), ¬ hole.contains a := by
  induction ranges generalizing range with
  | nil => simp [holesOf, combinedInterval, AnyRange.contains]
  | cons next ranges ih =>
    have hpos := hs.positive range (by simp)
    have hle := hs.back_le hd next (by simp)
    have hposNext := hs.positive next (by simp)
    have hd' : Disjoint (next :: ranges) := (pairwise_cons.1 hd).2
    have hfronts := holesOf_front hs.tail
    have hback := (combinedInterval_bounds hs.tail.front_le).2 next (by simp)
    have hrest : (∃ b ∈ range :: next :: ranges, b.contains a) ↔
        range.contains a ∨ ∃ b ∈ next :: ranges, b.contains a := by
      simp only [mem_cons]
      constructor
      · rintro ⟨b, rfl | hb, ha⟩
        · exact .inl ha
        · exact .inr ⟨b, hb, ha⟩
      · rintro (ha | ⟨b, hb, ha⟩)
        · exact ⟨range, .inl rfl, ha⟩
        · exact ⟨b, .inr hb, ha⟩
    have hholes : (∀ hole ∈ holesOf (range :: next :: ranges), ¬ hole.contains a) ↔
        ¬ (range.back ≤ a ∧ a < next.front) ∧
          ∀ hole ∈ holesOf (next :: ranges), ¬ hole.contains a := by
      rw [holesOf]
      split
      · simp [AnyRange.contains]
      · simp only [iff_and_self]
        omega
    rw [hrest, ih hs.tail hd', combinedInterval_cons hs hd, hholes]
    simp only [AnyRange.contains] at hfronts ⊢
    constructor
    · rintro (ha | ⟨hfront, hlt, hnot⟩)
      · refine ⟨ha.1, by omega, by omega, fun hole hmem => ?_⟩
        have hlt := hfronts hole hmem
        omega
      · exact ⟨by omega, hlt, by omega, hnot⟩
    · rintro ⟨hfront, hlt, hfirst, hnot⟩
      by_cases ha : a < range.back
      · exact .inl ⟨hfront, ha⟩
      · exact .inr ⟨by omega, hlt, hnot⟩

lemma Formed.freeAt_iff (hf : Formed h base h.regions lists spare) :
    FreeAt h a ↔ base ≤ a ∧ a < base + h.mSize ∧
      ∀ r ∈ usedRegions h.regions, ¬ (r.offset ≤ a ∧ a < r.offset + r.size) := by
  constructor
  · rintro ⟨r, hr, hfree, hbounds⟩
    have hin := hf.tiling.bounds (piece_mem hr)
    simp only [Region.piece] at hin
    refine ⟨by omega, by omega, fun q hq hbounds' => ?_⟩
    obtain ⟨hmem, hused⟩ := mem_filter.1 hq
    have hne : r ≠ q := by
      rintro rfl
      rw [hfree] at hused
      cases hused
    have hapart := hf.apart hr hmem hne
    omega
  · rintro ⟨hfront, hback, hnot⟩
    obtain ⟨p, hp, hbounds⟩ := hf.tiling.tiles.exists_at hfront (by rw [hf.tiling.extent]; exact hback)
    obtain ⟨r, hr, rfl⟩ := mem_map.1 hp
    refine ⟨r, hr, ?_, hbounds⟩
    cases hused : r.used with
    | false => rfl
    | true => exact absurd hbounds (hnot r (mem_filter.2 ⟨hr, hused⟩))

/-! ## Runs -/

/-- The blocks that `create` keeps to itself. -/
def gapBlocks (h : TlsfHeap) : List BlockPtr := blocksOf (usedRegions h.regions)

structure GapsKept (ranges : List AnyRange) (gaps : List BlockPtr) (h : TlsfHeap) : Prop where
  /-- Each hole is a used block of its own. -/
  held : ∀ hole ∈ holesOf ranges, ∃ r ∈ usedRegions h.regions, r.block ∈ gaps ∧
    r.offset = hole.front ∧ r.offset + r.size = hole.back
  /-- No other block, used or free, meets a hole. -/
  clear : ∀ r ∈ h.regions, r.block ∉ gaps → ∀ hole ∈ holesOf ranges,
    r.offset + r.size ≤ hole.front ∨ hole.back ≤ r.offset

lemma holesOf_lt (ranges : List AnyRange) : ∀ hole ∈ holesOf ranges, hole.front < hole.back := by
  induction ranges with
  | nil => simp [holesOf]
  | cons range ranges ih =>
    cases ranges with
    | nil => simp [holesOf]
    | cons next ranges =>
      intro hole hmem
      rw [holesOf] at hmem
      split at hmem
      · next hlt =>
        rcases mem_cons.1 hmem with rfl | hmem
        · exact hlt
        · exact ih hole hmem
      · exact ih hole hmem

lemma Built.held (hb : Built ranges h) : ∀ hole ∈ holesOf ranges,
    ∃ r ∈ usedRegions h.regions, r.offset = hole.front ∧ r.offset + r.size = hole.back := by
  obtain ⟨rs, lists, hw, -, hlive⟩ := hb.wellformed
  rw [← hw.repr.regions_eq] at hlive
  intro hole hmem
  have hlt := holesOf_lt ranges hole hmem
  have hpiece : usedPiece hole ∈ pieces (usedRegions h.regions) := by
    rw [hlive]
    exact mem_map_of_mem hmem
  obtain ⟨r, hr, heq⟩ := mem_map.1 hpiece
  simp only [Region.piece, usedPiece, Piece.mk.injEq] at heq
  exact ⟨r, hr, heq.1, by omega⟩

lemma Built.freeAt_iff (hb : Built ranges h) (hd : Disjoint ranges) :
    FreeAt h a ↔ ∃ range ∈ ranges, range.contains a := by
  obtain ⟨rs, lists, hw, hsize, hlive⟩ := hb.wellformed
  obtain ⟨range, ranges, rfl⟩ := exists_cons_of_ne_nil hb.nonempty
  have hfront := (combinedInterval_bounds hb.ordered.front_le).1
  have hback := (combinedInterval_bounds hb.ordered.front_le).2 range (by simp)
  have hpos := hb.ordered.positive range (by simp)
  rw [← hw.repr.regions_eq] at hlive hw
  have hused : (∀ r ∈ usedRegions h.regions, ¬ (r.offset ≤ a ∧ a < r.offset + r.size)) ↔
      ∀ hole ∈ holesOf (range :: ranges), ¬ hole.contains a := by
    constructor
    · intro hnot hole hmem hin
      obtain ⟨r, hr, hoffset, hend⟩ := hb.held hole hmem
      rw [AnyRange.contains, ← hoffset, ← hend] at hin
      exact hnot r hr hin
    · intro hnot r hr hin
      have hpiece := piece_mem hr
      rw [hlive] at hpiece
      obtain ⟨hole, hmem, heq⟩ := mem_map.1 hpiece
      simp only [Region.piece, usedPiece, Piece.mk.injEq] at heq
      exact hnot hole hmem ⟨by omega, by omega⟩
  rw [mem_ranges_iff hb.ordered hd, hw.toFormed.freeAt_iff, hused, hsize, hfront, AnyRange.size,
    hfront]
  have hend : range.front + ((combinedInterval (range :: ranges)).back - range.front) =
      (combinedInterval (range :: ranges)).back := by omega
  rw [hend]

lemma HeapCall.Step.kept {kept : List BlockPtr} {call : HeapCall} {r : Region}
    (hstep : HeapCall.Step kept h call h') (hw : WellformedOver range h)
    (hr : r ∈ usedRegions h.regions) (hblock : r.block ∈ kept) : r ∈ usedRegions h'.regions := by
  obtain ⟨⟨lists, hw⟩, -⟩ := hw
  obtain ⟨rs', lists', hw', -, hlive⟩ := hstep.effect hw
  rw [hw'.repr.regions_eq]
  refine hlive r hr fun hhandle => ?_
  exact (hstep.live r.block hhandle).2 hblock

lemma WellformedOver.clear {gaps : List BlockPtr} (hw : WellformedOver range h)
    (hheld : ∀ hole ∈ holesOf ranges, ∃ r ∈ usedRegions h.regions, r.block ∈ gaps ∧
      r.offset = hole.front ∧ r.offset + r.size = hole.back) : GapsKept ranges gaps h := by
  obtain ⟨⟨lists, hw⟩, -⟩ := hw
  refine ⟨hheld, fun r hr hblock hole hmem => ?_⟩
  obtain ⟨g, hg, hgap, hoffset, hend⟩ := hheld hole hmem
  have hne : r ≠ g := by
    rintro rfl
    exact hblock hgap
  have hapart := hw.toFormed.apart hr (mem_filter.1 hg).1 hne
  omega

lemma gapsKept_of_run {calls : List HeapCall} (hb : Built ranges h0)
    (hrun : Run (HeapCall.Step (gapBlocks h0)) h0 calls h) :
    GapsKept ranges (gapBlocks h0) h := by
  have hinv : WellformedOver (combinedInterval ranges) h ∧
      ∀ r ∈ usedRegions h0.regions, r ∈ usedRegions h.regions := by
    refine @Run.invariant _ _ _ (fun h => WellformedOver (combinedInterval ranges) h ∧
      ∀ r ∈ usedRegions h0.regions, r ∈ usedRegions h.regions) ?_ _ _ _ hrun ?_
    · rintro h call h' ⟨hw, hkept⟩ hstep
      refine ⟨hstep.wellformedOver hw, fun r hr => ?_⟩
      exact hstep.kept hw (hkept r hr) (block_mem hr)
    · obtain ⟨rs, lists, hw, hsize, -⟩ := hb.wellformed
      exact ⟨wellformedOver_of hw hsize, fun r hr => hr⟩
  refine hinv.1.clear fun hole hmem => ?_
  obtain ⟨r, hr, hbounds⟩ := hb.held hole hmem
  exact ⟨r, hinv.2 r hr, block_mem hr, hbounds⟩

/-- What `create` over many ranges promises, of the runs of a kind: the free bytes are those of the
ranges, and the holes are kept for ever. It may also run out of memory. -/
inductive GapsSafe (step : List BlockPtr → TlsfHeap → HeapCall → TlsfHeap → Prop)
    (ranges : List AnyRange) : Except Fault (OsStatus × Option TlsfHeap) → Prop where
  | made {h0 : TlsfHeap} (hfree : ∀ a, FreeAt h0 a ↔ ∃ range ∈ ranges, range.contains a)
      (hkept : ∀ calls h, Run (step (gapBlocks h0)) h0 calls h →
        GapsKept ranges (gapBlocks h0) h) :
      GapsSafe step ranges (.ok (.success, some h0))
  | refused {h : Option TlsfHeap} : GapsSafe step ranges (.ok (.outOfMemory, h))

theorem createMany_gapsSafe (memory : SystemMemory) (hne : ranges ≠ []) (hs : Ordered ranges)
    (hd : Disjoint ranges) (hspan : Spans (combinedInterval ranges)) :
    GapsSafe HeapCall.Step ranges (createMany memory ranges) := by
  obtain ⟨range, ranges, rfl⟩ := exists_cons_of_ne_nil hne
  rcases createMany_run memory hs hspan with ⟨h, hrun⟩ | ⟨h0, rs, lists, hrun, -⟩
  · rw [hrun]
    exact .refused
  · have hb : Built (range :: ranges) h0 := ⟨hne, hs, hspan, memory, hrun⟩
    rw [hrun]
    exact .made (fun a => hb.freeAt_iff hd) fun calls h hrun => gapsKept_of_run hb hrun

theorem createMany_gapsSafe_three : ∃ ranges : List AnyRange,
    ranges = [⟨0x1000, 0x1800⟩, ⟨0x1800, 0x2000⟩, ⟨0x3000, 0x4000⟩] ∧
    GapsSafe HeapCall.Step ranges (createMany .ample ranges) := by
  have hs : Ordered [⟨0x1000, 0x1800⟩, ⟨0x1800, 0x2000⟩, ⟨0x3000, 0x4000⟩] := by decide
  have hd : Disjoint [⟨0x1000, 0x1800⟩, ⟨0x1800, 0x2000⟩, ⟨0x3000, 0x4000⟩] := by
    unfold Disjoint
    decide
  have hspan : Spans (combinedInterval
    [⟨0x1000, 0x1800⟩, ⟨0x1800, 0x2000⟩, ⟨0x3000, 0x4000⟩]) := by decide
  exact ⟨_, rfl, createMany_gapsSafe .ample (cons_ne_nil _ _) hs hd hspan⟩

/-- Two ranges of sixteen bytes: there is no list for the bytes between them. -/
theorem createMany_not_gapsSafe : ¬ ∀ memory ranges, ranges ≠ [] → Ordered ranges →
    Disjoint ranges → GapsSafe HeapCall.Call ranges (createMany memory ranges) := by
  intro hall
  have hsafe := hall .ample [⟨0x1000, 0x1010⟩, ⟨0x1020, 0x1030⟩] (by decide) (by decide)
    (by unfold Disjoint; decide)
  cases hsafe

end Tlsf
end BezOS
