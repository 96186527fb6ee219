import BezOS.Memory.TableRelease

/-!
# What releasing memory leaves

When `releaseMemory` takes the pages of a range off the free list and no others. What is left of
a block that reaches over an edge of the range has the size of the wrong part, and past the last
block the list is lost, so that this depends on how the blocks lie to the range.
-/

namespace BezOS

open Lib BlockMemory Ascending List Span Option

namespace PageTableAllocator

variable {bs p : Nat} {range : AnyRange} {S kept rest : List (Span Nat)} {b : Span Nat}

/-! ## Stretches -/

/-- What is left of a block has the right place: the part that is kept of a block over the end
of the range goes a whole number of times into the part that is not, and of a block over the
start as much is kept as is not, and it is the last one the range meets. -/
structure CutsWell (range : AnyRange) (S : List (Span Nat)) (b : Span Nat) : Prop where
  overEnd : range.front ≤ b.front → b.front < range.back → range.back < b.back →
    b.back - range.back ∣ range.back - b.front
  overStart : b.front < range.front → range.front < b.back → b.back ≤ range.back →
    b.back - range.front = range.front - b.front ∧
      ∀ c ∈ S, b.back ≤ c.front → range.back ≤ c.front
  overBoth : b.front < range.front → range.front < range.back → range.back < b.back →
    range.front - b.front = b.back - range.back

/-- Every block is cut well, and the walk stops at a block unless there is nothing to keep. -/
structure Releasable (range : AnyRange) (S : List (Span Nat)) : Prop where
  cuts : ∀ b ∈ S, CutsWell range S b
  stops : (∀ b ∈ S, range.front ≤ b.front ∧ b.back ≤ range.back) ∨
    ∃ b ∈ S, range.back ≤ b.front ∨ range.front < range.back ∧ range.back < b.back

instance : Decidable (CutsWell range S b) :=
  decidable_of_iff (_ ∧ _ ∧ _) ⟨fun h => ⟨h.1, h.2.1, h.2.2⟩, fun h => ⟨h.1, h.2, h.3⟩⟩

instance : Decidable (Releasable range S) :=
  decidable_of_iff (_ ∧ _) ⟨fun h => ⟨h.1, h.2⟩, fun h => ⟨h.1, h.2⟩⟩

/-- The pages are those before, without the ones in the range. -/
def TakesOut (bs : Nat) (range : AnyRange) (before after : List (Span Nat)) : Prop :=
  ∀ p, bs ∣ p → (Covered after p ↔ Covered before p ∧ ¬ range.contains p)

/-- A block the loop has passed: it starts before the end of the range and has nothing of it. -/
def Passed (range : AnyRange) (b : Span Nat) : Prop :=
  b.front < range.back ∧ (b.back ≤ range.front ∨ range.back ≤ range.front)

lemma cutsWell_of_apart
    (h : b.back ≤ range.front ∨ range.back ≤ b.front ∨ range.back ≤ range.front) :
    CutsWell range S b := by
  refine ⟨fun _ _ _ => ?_, fun _ _ _ => ?_, fun _ _ _ => ?_⟩ <;> exfalso <;>
    simp only [back] at * <;> omega

lemma Passed.cutsWell (h : Passed range b) : CutsWell range S b :=
  cutsWell_of_apart (h.2.imp id .inr)

lemma Passed.not_contains (h : Passed range b) (hp : b.front ≤ p ∧ p < b.back) :
    ¬ range.contains p := by
  rintro ⟨hfront, hback⟩
  have := h.2
  omega

lemma takesOut_behind (h : Stretches bs (kept ++ b :: rest)) (hkept : ∀ c ∈ kept, Passed range c)
    (hbehind : range.back ≤ b.front) :
    TakesOut bs range (kept ++ b :: rest) (kept ++ b :: rest) ∧
      Releasable range (kept ++ b :: rest) := by
  refine ⟨fun p _ => ⟨fun hp => ⟨hp, ?_⟩, And.left⟩, fun c hc => ?_, ?_⟩
  · obtain ⟨c, hc, hp⟩ := hp
    obtain ⟨hpos, ⟨hc, -⟩ | rfl | ⟨hc, hle⟩⟩ := h.cut hc
    · exact (hkept c hc).not_contains hp
    · exact fun hin => by
        have := hin.2
        omega
    · exact fun hin => by
        have := hin.2
        simp only [back] at *
        omega
  · obtain ⟨hpos, ⟨hc, -⟩ | rfl | ⟨hc, hle⟩⟩ := h.cut hc
    · exact (hkept c hc).cutsWell
    · exact cutsWell_of_apart (.inr (.inl hbehind))
    · refine cutsWell_of_apart (.inr (.inl ?_))
      simp only [back] at hle
      omega
  · exact .inr ⟨b, by simp, .inl hbehind⟩

lemma takesOut_nil (h : Stretches bs kept) (hkept : ∀ c ∈ kept, Passed range c) :
    TakesOut bs range kept [] ↔ Releasable range kept := by
  have hlost : kept ≠ [] → ¬ TakesOut bs range kept [] ∧ ¬ Releasable range kept := by
    intro hne
    obtain ⟨c, rest, rfl⟩ := exists_cons_of_ne_nil hne
    have hpos := h.ascending.positive c (by simp)
    have hc : c.front ≤ c.front ∧ c.front < c.back := by
      simp only [back]
      omega
    refine ⟨fun hout => ?_, fun hrel => ?_⟩
    · have hcovered := (hout c.front (h.dvd c (by simp)).1).2
        ⟨⟨c, by simp, hc⟩, (hkept c (by simp)).not_contains hc⟩
      exact covered_nil hcovered
    · rcases hrel.stops with hall | ⟨b, hb, hstop⟩
      · have hin := hall c (by simp)
        have hpassed := hkept c (by simp)
        simp only [Passed] at hpassed
        omega
      · have hpassed := hkept b hb
        simp only [Passed] at hpassed
        omega
  by_cases hnil : kept = []
  · subst hnil
    exact iff_of_true (fun p _ => by simp) ⟨by simp, .inl (by simp)⟩
  · exact iff_of_false (hlost hnil).1 (hlost hnil).2

lemma rest_eq_iff {o d : Nat} (ho : 0 < o) (hd : 0 < d) : (o - 1) % d + 1 = d ↔ d ∣ o := by
  constructor
  · intro h
    have hmod := Nat.div_add_mod (o - 1) d
    refine ⟨(o - 1) / d + 1, ?_⟩
    rw [Nat.mul_add, Nat.mul_one]
    omega
  · rintro ⟨k, rfl⟩
    obtain ⟨j, rfl⟩ : ∃ j, k = j + 1 := ⟨k - 1, by
      have : k ≠ 0 := by
        rintro rfl
        simp at ho
      omega⟩
    have hsplit : d * (j + 1) - 1 = d - 1 + d * j := by
      rw [Nat.mul_add, Nat.mul_one]
      omega
    rw [hsplit, Nat.add_mul_mod_self_left, Nat.mod_eq_of_lt (by omega)]
    omega

section

variable (h : Stretches bs (kept ++ b :: rest))

include h

lemma takesOut_iff_pieces {pieces : List (Span Nat)} (hkept : ∀ c ∈ kept, Passed range c)
    (hrest : ∀ c ∈ rest, range.back ≤ c.front)
    (hpieces : ∀ p, Covered pieces p → b.front ≤ p ∧ p < b.back) :
    TakesOut bs range (kept ++ b :: rest) (kept ++ (pieces ++ rest)) ↔
      ∀ p, bs ∣ p → b.front ≤ p → p < b.back → (Covered pieces p ↔ ¬ range.contains p) := by
  -- Where no other block is.
  have hothers : ∀ p, b.front ≤ p → p < b.back → ¬ Covered kept p ∧ ¬ Covered rest p := by
    intro p hfront hback
    obtain ⟨-, hbrest, hapart⟩ := append_iff.1 h.ascending
    refine ⟨?_, ?_⟩ <;> rintro ⟨c, hc, hp⟩
    · have := hapart c hc b (by simp)
      omega
    · have := hbrest.behind c hc
      omega
  have hclear : ∀ p, Covered kept p ∨ Covered rest p → ¬ range.contains p := by
    rintro p (⟨c, hc, hp⟩ | ⟨c, hc, hp⟩)
    · exact (hkept c hc).not_contains hp
    · have := hrest c hc
      exact fun hin => by
        have := hin.2
        omega
  unfold TakesOut
  simp only [covered_append, covered_cons]
  constructor
  · intro hout p hdvd hfront hback
    have hiff := hout p hdvd
    simp only [hothers p hfront hback, hfront, hback, and_self, or_true, false_or, or_false,
      true_and] at hiff
    exact hiff
  · intro hout p hdvd
    by_cases hp : b.front ≤ p ∧ p < b.back
    · simp only [hothers p hp.1 hp.2, hp, and_self, or_true, false_or, or_false, true_and]
      exact hout p hdvd hp.1 hp.2
    · have hnone : ¬ Covered pieces p := fun hpieces' => hp (hpieces p hpieces')
      simp only [hnone, hp, false_or]
      exact ⟨fun hcovered => ⟨hcovered, hclear p hcovered⟩, And.left⟩

lemma releasable_iff_cutsWell (hkept : ∀ c ∈ kept, Passed range c)
    (hrest : ∀ c ∈ rest, range.back ≤ c.front)
    (hstop : range.front < range.back ∧ range.back < b.back ∨ rest ≠ []) :
    Releasable range (kept ++ b :: rest) ↔ CutsWell range (kept ++ b :: rest) b := by
  refine ⟨fun hrel => hrel.cuts b (by simp), fun hcut => ⟨fun c hc => ?_, .inr ?_⟩⟩
  · obtain ⟨-, ⟨hc, -⟩ | rfl | ⟨hc, -⟩⟩ := h.cut hc
    · exact (hkept c hc).cutsWell
    · exact hcut
    · exact cutsWell_of_apart (.inr (.inl (hrest c hc)))
  · rcases hstop with hstop | hne
    · exact ⟨b, by simp, .inr hstop⟩
    · obtain ⟨c, rest, rfl⟩ := exists_cons_of_ne_nil hne
      exact ⟨c, by simp, .inl (hrest c (by simp))⟩

lemma behind_of_back_le (hback : range.back ≤ b.back) :
    ∀ c ∈ rest, range.back ≤ c.front := by
  intro c hc
  obtain ⟨-, hbrest, -⟩ := append_iff.1 h.ascending
  exact hback.trans (hbrest.behind c hc)

section

variable (hkept : ∀ c ∈ kept, Passed range c)

include hkept

lemma takesOut_front (hdvd : bs ∣ range.back) (hfront : range.front ≤ b.front)
    (hlt : b.front < range.back) (hback : range.back < b.back) {size : Nat}
    (hsize : size = (range.back - b.front - 1) % (b.back - range.back) + 1) :
    TakesOut bs range (kept ++ b :: rest) (kept ++ ⟨b.back - size, size, b.tag⟩ :: rest) ↔
      Releasable range (kept ++ b :: rest) := by
  have hrest := behind_of_back_le h hback.le
  have hle : size ≤ b.back - range.back := by
    rw [hsize]
    exact Nat.mod_lt _ (by omega)
  have hpiece : ∀ p, Covered [(⟨b.back - size, size, b.tag⟩ : Span Nat)] p ↔
      b.back - size ≤ p ∧ p < b.back := by
    intro p
    have hend : b.back - size + size = b.back := by omega
    simp only [covered_cons, covered_nil, or_false, back] at hend ⊢
    rw [hend]
  have hcut : CutsWell range (kept ++ b :: rest) b ↔ size = b.back - range.back := by
    rw [hsize, rest_eq_iff (by omega) (by omega)]
    refine ⟨fun hcut => hcut.overEnd hfront hlt hback, fun hdiv => ⟨fun _ _ _ => hdiv, ?_, ?_⟩⟩
    · intro hover
      omega
    · intro hover
      omega
  have hlist : kept ++ (⟨b.back - size, size, b.tag⟩ : Span Nat) :: rest =
      kept ++ ([⟨b.back - size, size, b.tag⟩] ++ rest) := rfl
  rw [releasable_iff_cutsWell h hkept hrest (.inl ⟨by omega, hback⟩), hcut, hlist,
    takesOut_iff_pieces h hkept hrest (fun p hp => by
      have := (hpiece p).1 hp
      omega)]
  simp only [hpiece, AnyRange.contains]
  constructor
  · intro hout
    -- The first page behind the range is kept.
    have hiff := hout range.back hdvd hlt.le hback
    omega
  · intro hall p _ hp hp'
    omega

lemma takesOut_end (hdvd : bs ∣ range.front) (hfront : b.front < range.front)
    (hlt : range.front < b.back) (hback : b.back ≤ range.back) :
    TakesOut bs range (kept ++ b :: rest)
        (if rest = [] then [] else kept ++ ⟨b.front, b.back - range.front, b.tag⟩ :: rest) ↔
      Releasable range (kept ++ b :: rest) := by
  obtain ⟨hbdvd, hbdvd'⟩ := h.dvd b (by simp)
  have hbackDvd : bs ∣ b.back := Nat.dvd_add hbdvd hbdvd'
  have hself : Covered (kept ++ b :: rest) b.front := ⟨b, by simp, Nat.le_refl _, by omega⟩
  obtain ⟨-, hbrest, -⟩ := append_iff.1 h.ascending
  by_cases hnil : rest = []
  · -- The walk goes past the end of the list, and what is left of the block is lost.
    subst hnil
    rw [if_pos rfl]
    refine iff_of_false (fun hout => ?_) fun hrel => ?_
    · refine covered_nil ((hout b.front hbdvd).2 ⟨hself, fun hin => ?_⟩)
      have := hin.1
      omega
    · rcases hrel.stops with hall | ⟨c, hc, hstop⟩
      · have := hall b (by simp)
        omega
      · obtain ⟨hpos, ⟨hc, -⟩ | rfl | ⟨hc, -⟩⟩ := h.cut hc
        · have hpassed := hkept c hc
          simp only [Passed] at hpassed
          omega
        · omega
        · simp at hc
  rw [if_neg hnil]
  by_cases hrest : ∀ c ∈ rest, range.back ≤ c.front
  · have hcut : CutsWell range (kept ++ b :: rest) b ↔
        b.back - range.front = range.front - b.front := by
      refine ⟨fun hcut => (hcut.overStart hfront hlt hback).1, fun heq => ⟨?_, ?_, ?_⟩⟩
      · intro hover
        omega
      · refine fun _ _ _ => ⟨heq, fun c hc hbehind => ?_⟩
        obtain ⟨hpos, ⟨-, hle⟩ | rfl | ⟨hc, -⟩⟩ := h.cut hc
        · simp only [back] at *
          omega
        · omega
        · exact hrest c hc
      · intro _ _ hover
        omega
    have hpiece : ∀ p, Covered [(⟨b.front, b.back - range.front, b.tag⟩ : Span Nat)] p ↔
        b.front ≤ p ∧ p < b.front + (b.back - range.front) := by
      intro p
      simp [back]
    have hlist : kept ++ (⟨b.front, b.back - range.front, b.tag⟩ : Span Nat) :: rest =
        kept ++ ([⟨b.front, b.back - range.front, b.tag⟩] ++ rest) := rfl
    rw [releasable_iff_cutsWell h hkept hrest (.inr hnil), hcut, hlist,
      takesOut_iff_pieces h hkept hrest (fun p hp => by
        have := (hpiece p).1 hp
        omega)]
    simp only [hpiece, AnyRange.contains]
    constructor
    · intro hout
      have hin := hout range.front hdvd hfront.le hlt
      by_cases hshort : b.front + (b.back - range.front) < range.front
      · have hlost := hout (b.front + (b.back - range.front))
          (Nat.dvd_add hbdvd (Nat.dvd_sub hbackDvd hdvd)) (by omega) (by omega)
        omega
      · omega
    · intro heq p _ hp hp'
      omega
  · -- A later block that starts in the range is not looked at.
    push Not at hrest
    obtain ⟨c, hc, hin⟩ := hrest
    have hbehind := hbrest.behind c hc
    have hpos := h.ascending.positive c (by simp [hc])
    refine iff_of_false (fun hout => ?_) fun hrel => ?_
    · have hcovered : Covered (kept ++ ⟨b.front, b.back - range.front, b.tag⟩ :: rest) c.front := by
        refine ⟨c, by simp [hc], Nat.le_refl _, ?_⟩
        simp only [back]
        omega
      exact ((hout c.front (h.dvd c (by simp [hc])).1).1 hcovered).2 ⟨by omega, hin⟩
    · have hlate := ((hrel.cuts b (by simp)).overStart hfront hlt hback).2 c (by simp [hc]) hbehind
      omega

lemma takesOut_inside (hdvd : bs ∣ range.front ∧ bs ∣ range.back) (hfront : b.front < range.front)
    (hlt : range.front < range.back) (hback : range.back < b.back) :
    TakesOut bs range (kept ++ b :: rest) (kept ++ ⟨b.front, b.back - range.back, b.tag⟩ ::
        ⟨b.back - (range.front - b.front), range.front - b.front, b.tag⟩ :: rest) ↔
      Releasable range (kept ++ b :: rest) := by
  have hrest := behind_of_back_le h hback.le
  obtain ⟨hbdvd, hbdvd'⟩ := h.dvd b (by simp)
  have hcut : CutsWell range (kept ++ b :: rest) b ↔
      range.front - b.front = b.back - range.back := by
    refine ⟨fun hcut => hcut.overBoth hfront hlt hback, fun heq => ⟨?_, ?_, fun _ _ _ => heq⟩⟩
    · intro hover
      omega
    · intro _ _ hover
      omega
  have hpieces : ∀ p, Covered [(⟨b.front, b.back - range.back, b.tag⟩ : Span Nat),
        ⟨b.back - (range.front - b.front), range.front - b.front, b.tag⟩] p ↔
      (b.front ≤ p ∧ p < b.front + (b.back - range.back)) ∨
        (b.back - (range.front - b.front) ≤ p ∧ p < b.back) := by
    intro p
    have hend : b.back - (range.front - b.front) + (range.front - b.front) = b.back := by omega
    simp only [covered_cons, covered_nil, or_false, back] at hend ⊢
    rw [hend]
  have hlist : kept ++ (⟨b.front, b.back - range.back, b.tag⟩ : Span Nat) ::
      ⟨b.back - (range.front - b.front), range.front - b.front, b.tag⟩ :: rest =
      kept ++ ([⟨b.front, b.back - range.back, b.tag⟩,
        ⟨b.back - (range.front - b.front), range.front - b.front, b.tag⟩] ++ rest) := rfl
  rw [releasable_iff_cutsWell h hkept hrest (.inl ⟨hlt, hback⟩), hcut, hlist,
    takesOut_iff_pieces h hkept hrest (fun p hp => by
      have := (hpieces p).1 hp
      omega)]
  simp only [hpieces, AnyRange.contains]
  constructor
  · intro hout
    have hin := hout range.front hdvd.1 hfront.le (by omega)
    have hbackDvd : bs ∣ b.back := Nat.dvd_add hbdvd hbdvd'
    have hout' := hout (b.front + (b.back - range.back))
      (Nat.dvd_add hbdvd (Nat.dvd_sub hbackDvd hdvd.2)) (by omega) (by omega)
    omega
  · intro heq p _ hp hp'
    omega

end

end

lemma takesOut_within (after : List (Span Nat)) (hfront : range.front ≤ b.front)
    (hback : b.back ≤ range.back) :
    TakesOut bs range (kept ++ b :: rest) after ↔ TakesOut bs range (kept ++ rest) after := by
  refine forall_congr' fun p => imp_congr_right fun _ => ?_
  have hbefore : Covered (kept ++ b :: rest) p ∧ ¬ range.contains p ↔
      Covered (kept ++ rest) p ∧ ¬ range.contains p := by
    refine and_congr_left fun hnot => ?_
    have hb : ¬ (b.front ≤ p ∧ p < b.back) := fun hp => hnot ⟨by omega, by omega⟩
    rw [covered_append, covered_cons, covered_append, or_iff_right hb]
  rw [hbefore]

lemma releasable_within (h : Stretches bs (kept ++ b :: rest))
    (hkept : ∀ c ∈ kept, Passed range c) (hfront : range.front ≤ b.front)
    (hback : b.back ≤ range.back) :
    Releasable range (kept ++ b :: rest) ↔ Releasable range (kept ++ rest) := by
  have hpos := h.ascending.positive b (by simp)
  have hb : b.front < b.back := by
    simp only [back]
    omega
  have hsub : ∀ c ∈ kept ++ rest, c ∈ kept ++ b :: rest := by
    intro c hc
    rcases mem_append.1 hc with hc | hc <;> simp [hc]
  constructor
  · intro hrel
    refine ⟨fun c hc => ?_, hrel.stops.imp (fun hall c hc => hall c (hsub c hc)) ?_⟩
    · have hcut := hrel.cuts c (hsub c hc)
      refine ⟨hcut.overEnd, fun h1 h2 h3 => ?_, hcut.overBoth⟩
      exact ⟨(hcut.overStart h1 h2 h3).1, fun d hd => (hcut.overStart h1 h2 h3).2 d (hsub d hd)⟩
    · rintro ⟨c, hc, hstop⟩
      obtain ⟨-, ⟨hc, -⟩ | rfl | ⟨hc, -⟩⟩ := h.cut hc
      · exact ⟨c, by simp [hc], hstop⟩
      · omega
      · exact ⟨c, by simp [hc], hstop⟩
  · intro hrel
    refine ⟨fun c hc => ?_, hrel.stops.imp (fun hall c hc => ?_) ?_⟩
    · obtain ⟨-, ⟨hc, -⟩ | rfl | ⟨hc, hle⟩⟩ := h.cut hc
      · exact (hkept c hc).cutsWell
      · exact ⟨fun _ _ _ => by omega, fun _ _ _ => by omega, fun _ _ _ => by omega⟩
      · have hcut := hrel.cuts c (by simp [hc])
        exact ⟨hcut.overEnd, fun _ _ _ => by omega, hcut.overBoth⟩
    · obtain ⟨-, ⟨hc, -⟩ | rfl | ⟨hc, -⟩⟩ := h.cut hc
      · exact hall c (by simp [hc])
      · exact ⟨hfront, hback⟩
      · exact hall c (by simp [hc])
    · rintro ⟨c, hc, hstop⟩
      exact ⟨c, hsub c hc, hstop⟩

lemma takesOut_iff (h : Stretches bs (kept ++ rest)) (hdvd : bs ∣ range.front ∧ bs ∣ range.back)
    (hkept : ∀ c ∈ kept, Passed range c) :
    TakesOut bs range (kept ++ rest) (releaseSpans range kept rest) ↔
      Releasable range (kept ++ rest) := by
  induction rest generalizing kept with
  | nil =>
    rw [append_nil] at h ⊢
    exact takesOut_nil h hkept
  | cons b rest ih =>
    by_cases hbehind : range.back ≤ b.front
    · rw [releaseSpans_behind hbehind]
      exact iff_of_true (takesOut_behind h hkept hbehind).1 (takesOut_behind h hkept hbehind).2
    rw [not_le] at hbehind
    by_cases hapart : b.back ≤ range.front ∨ range.back ≤ range.front
    · have hlist : kept ++ b :: rest = (kept ++ [b]) ++ rest := by simp
      rw [releaseSpans_apart hbehind hapart, hlist]
      refine ih (hlist ▸ h) fun c hc => ?_
      rcases mem_append.1 hc with hc | hc
      · exact hkept c hc
      · obtain rfl := mem_singleton.1 hc
        exact ⟨hbehind, hapart⟩
    rw [not_or, not_le, not_le] at hapart
    rw [releaseSpans_meets hbehind hapart.1 hapart.2]
    by_cases hfront : range.front ≤ b.front
    · rw [if_pos hfront]
      by_cases hback : b.back ≤ range.back
      · rw [if_pos hback, takesOut_within _ hfront hback, releasable_within h hkept hfront hback]
        exact ih (h.sublist (by simp)) hkept
      · rw [if_neg hback]
        exact takesOut_front h hkept hdvd.2 hfront hbehind (not_le.1 hback) rfl
    · rw [if_neg hfront]
      by_cases hback : b.back ≤ range.back
      · rw [if_pos hback]
        exact takesOut_end h hkept hdvd.1 (not_le.1 hfront) hapart.1 hback
      · rw [if_neg hback]
        exact takesOut_inside h hkept hdvd (not_le.1 hfront) hapart.2 (not_le.1 hback)

/-! ## The whole call -/

variable {s s' : PageTableAllocator} {l l' : List Nat}

lemma mem_blockPages_iff {a size : Nat} (hbs : 0 < bs) (ha : bs ∣ a) (hsize : bs ∣ size) :
    p ∈ blockPages bs a size ↔ bs ∣ p ∧ a ≤ p ∧ p < a + size := by
  obtain ⟨j, rfl⟩ := ha
  obtain ⟨k, rfl⟩ := hsize
  rw [mem_blockPages, Nat.mul_div_cancel_left _ hbs, ← Nat.mul_add]
  constructor
  · rintro ⟨i, hi, rfl⟩
    rw [Nat.mul_comm i, ← Nat.mul_add]
    exact ⟨Nat.dvd_mul_right .., Nat.mul_le_mul_left _ (Nat.le_add_right ..),
      Nat.mul_lt_mul_of_pos_left (by omega) hbs⟩
  · rintro ⟨⟨i, rfl⟩, hle, hlt⟩
    have hji : j ≤ i := Nat.le_of_mul_le_mul_left hle hbs
    have hik : i < j + k := Nat.lt_of_mul_lt_mul_left hlt
    refine ⟨i - j, by omega, ?_⟩
    rw [Nat.mul_comm (i - j), ← Nat.mul_add]
    congr 1
    omega

lemma mem_freePages_iff {m : BlockMemory} (hbs : 0 < bs) (h : Stretches bs (m.spans l)) :
    p ∈ freePages bs m l ↔ bs ∣ p ∧ Covered (m.spans l) p := by
  have hblock : ∀ a ∈ l, p ∈ blockPages bs a (m.size a) ↔ bs ∣ p ∧ a ≤ p ∧ p < a + m.size a := by
    intro a ha
    have hdvd := h.dvd _ (Laid.span_mem ha)
    exact mem_blockPages_iff hbs hdvd.1 hdvd.2
  simp only [freePages, mem_flatMap, Covered, spans, List.mem_map, exists_exists_and_eq_and]
  constructor
  · rintro ⟨a, ha, hp⟩
    obtain ⟨hdvd, hin⟩ := (hblock a ha).1 hp
    exact ⟨hdvd, a, ha, hin⟩
  · rintro ⟨hdvd, a, ha, hin⟩
    exact ⟨a, ha, (hblock a ha).2 ⟨hdvd, hin⟩⟩

lemma laid_of_merges (h : s.Free l) (hbs : 0 < s.mBlockSize)
    (haligned : ∀ p ∈ s.pages l, s.mBlockSize ∣ p ∧ p + s.mBlockSize < wordCount)
    (hserves : Serves s l s' l' []) (hmerges : Merges s.mem l s'.mem l') :
    Laid s.mBlockSize (s.pages l) s.mem s'.mem l' := by
  have hbs' := hserves.blockSize
  have hperm : (s'.pages l').Perm (s.pages l) := by simpa using hserves.perm
  have hfree := hserves.free
  obtain ⟨sorted, hsortedPerm, hsorted, hspans⟩ := hmerges
  have hin : ∀ a ∈ l', a ∈ s.pages l := by
    intro a ha
    exact hperm.subset (hfree.subset_freePages (hbs' ▸ hbs) ha)
  have hbefore : Stretches s.mBlockSize (s.mem.spans sorted) := by
    refine stretches_of_free h hbs (fun a ha => ?_) hsortedPerm hsorted
    exact (haligned a (h.subset_freePages hbs ha)).1
  have hafter : Stretches s.mBlockSize (s'.mem.spans l') := by
    refine ⟨?_, ?_, ?_⟩
    · rw [hspans]
      exact ascending_coalesce hbefore.ascending
    · intro c hc
      obtain ⟨a, ha, rfl⟩ := List.mem_map.1 hc
      exact ⟨(haligned a (hin a ha)).1, hbs' ▸ (hfree.blocks a ha).dvd⟩
    · intro c hc
      obtain ⟨a, ha, rfl⟩ := List.mem_map.1 hc
      exact ⟨Nat.pos_of_ne_zero (hfree.blocks a ha).ne_zero, (hfree.blocks a ha).bound⟩
  refine ⟨hfree.linked, hfree.first, hafter, fun p hp hcovered => ?_, hserves.same⟩
  refine hperm.subset ?_
  show p ∈ freePages s'.mBlockSize s'.mem l'
  rw [hbs']
  exact (mem_freePages_iff hbs hafter).2 ⟨hp, hcovered⟩

lemma setHead_of_laid {P : List Nat} {m0 m : BlockMemory} (h : Laid bs P m0 m l)
    (blockSize : Nat) : (⟨blockSize, s.mHead, m⟩ : PageTableAllocator).setHead (l.headD 0) =
      ⟨blockSize, l.headD 0, m⟩ := by
  rw [setHead]
  congr 1
  split
  · cases l with
    | nil => rename_i hne; exact absurd rfl hne
    | cons a l =>
      have hprev := h.first a (by simp)
      rw [headD_cons, BlockMemory.setPrev, ← hprev, Function.update_eq_self]
  · rfl

lemma releaseMemory_spec (h : s.Free l) (hbs : 0 < s.mBlockSize)
    (haligned : ∀ p ∈ s.pages l, s.mBlockSize ∣ p ∧ p + s.mBlockSize < wordCount)
    (hdvd : s.mBlockSize ∣ range.front ∧ s.mBlockSize ∣ range.back) :
    ∃ s' l', s.releaseMemory range = some s' ∧ s'.mBlockSize = s.mBlockSize ∧
      s'.mHead = l'.headD 0 ∧ Laid s.mBlockSize (s.pages l) s.mem s'.mem l' ∧
      s'.mem.spans l' = releaseSpans range [] s.coalesced := by
  obtain ⟨s1, l1, hdefragment, hserves, hmerges⟩ := serves_defragment h hbs
  have hbs1 := hserves.blockSize
  have hspans1 := spans_of_merges h hbs hmerges
  have hlaid1 := laid_of_merges h hbs haligned hserves hmerges
  have hfuel : (l1.map s1.mem.size).sum < walkLimit := by
    have hlength : (s1.pages l1).length = (s.pages l).length := by
      simpa using hserves.perm.length_eq
    have htotal := freeBytes_lt h hbs haligned
    rw [freeBytes_eq h hbs, supply_eq h hbs, ← hlength, ← hbs1,
      length_pages hserves.free.blocks] at htotal
    exact htotal.trans (by decide)
  obtain ⟨m, stop, hrun, l', hlaid, hspans, hstop⟩ :=
    releaseLoop_spec (x := []) hlaid1 hdvd hfuel
  have hhead : stop = 0 ∧ l' = [] ∨ stop ≠ 0 ∧ m.head walkLimit stop = some (l'.headD 0) := by
    refine hstop.symm.imp id fun hmem => ⟨fun heq => hlaid.zero_not_mem (heq ▸ hmem), ?_⟩
    obtain ⟨u, v, rfl⟩ := append_of_mem hmem
    have hlength := (freeList_of_laid hlaid hbs).length_lt hbs
    rw [length_append] at hlength
    exact head_spec hlaid.linked hlaid.zero_not_mem hlaid.first (by omega)
  refine ⟨⟨s.mBlockSize, l'.headD 0, m⟩, l', ?_, rfl, rfl, hlaid, ?_⟩
  · have hset := fun head => setHead_of_laid (s := ⟨s1.mBlockSize, head, s1.mem⟩) hlaid s1.mBlockSize
    rw [releaseMemory, hdefragment]
    simp only [bind_eq_bind, bind_some]
    rw [hserves.free.head_eq, hrun, ← hbs1]
    simp only [bind_some]
    rcases hhead with ⟨rfl, rfl⟩ | ⟨hne, hfound⟩
    · rw [if_pos rfl]
      exact congrArg some (hset _)
    · rw [if_neg hne, hfound]
      exact congrArg some (hset _)
  · rw [hspans, hspans1]
    rfl

/-- `releaseMemory` returns, and the free pages are those before without the ones in the range. -/
def ReleasesExactly (s : PageTableAllocator) (range : AnyRange) : Prop :=
  ∃ s', s.releaseMemory range = some s' ∧
    s'.supply.Perm (s.supply.filter fun p => ¬ range.contains p)

section

variable (h : s.Free l) (hbs : 0 < s.mBlockSize)
  (haligned : ∀ p ∈ s.pages l, s.mBlockSize ∣ p ∧ p + s.mBlockSize < wordCount)

include h hbs haligned

lemma mem_supply_iff :
    p ∈ s.supply ↔ s.mBlockSize ∣ p ∧ Covered s.coalesced p := by
  obtain ⟨s1, l1, -, hserves, hmerges⟩ := serves_defragment h hbs
  have hlaid := laid_of_merges h hbs haligned hserves hmerges
  have hperm : (s1.pages l1).Perm (s.pages l) := by simpa using hserves.perm
  rw [supply_eq h hbs, ← hperm.mem_iff, pages, hserves.blockSize,
    mem_freePages_iff hbs hlaid.stretches, spans_of_merges h hbs hmerges]

lemma stretches_coalesced :
    Stretches s.mBlockSize s.coalesced := by
  obtain ⟨s1, l1, -, hserves, hmerges⟩ := serves_defragment h hbs
  rw [← spans_of_merges h hbs hmerges]
  exact (laid_of_merges h hbs haligned hserves hmerges).stretches

lemma releasesExactly_iff (hdvd : s.mBlockSize ∣ range.front ∧ s.mBlockSize ∣ range.back) :
    s.ReleasesExactly range ↔ Releasable range s.coalesced := by
  obtain ⟨s', l', hrun, hbs', hhead, hlaid, hspans⟩ := releaseMemory_spec h hbs haligned hdvd
  have hstretches := stretches_coalesced h hbs haligned
  have hiff : TakesOut s.mBlockSize range ([] ++ s.coalesced) (releaseSpans range [] s.coalesced) ↔
      Releasable range ([] ++ s.coalesced) := takesOut_iff hstretches hdvd (by simp)
  rw [nil_append, ← hspans] at hiff
  rw [← hiff]
  have hfree : s'.Free l' := by
    rw [Free, hbs', hhead]
    exact freeList_of_laid hlaid hbs
  have hmem : ∀ p, p ∈ s'.supply ↔ s.mBlockSize ∣ p ∧ Covered (s'.mem.spans l') p := by
    intro p
    rw [supply_eq hfree (hbs' ▸ hbs), pages, hbs', mem_freePages_iff hbs hlaid.stretches]
  have hnodup : s.supply.Nodup := by
    rw [supply_eq h hbs]
    exact h.nodup
  have hnodup' : s'.supply.Nodup := by
    rw [supply_eq hfree (hbs' ▸ hbs)]
    exact hfree.nodup
  have hexact : s.ReleasesExactly range ↔
      ∀ p, p ∈ s'.supply ↔ p ∈ s.supply.filter fun p => ¬ range.contains p := by
    rw [← perm_ext_iff_of_nodup hnodup' (hnodup.filter _)]
    constructor
    · rintro ⟨s'', hrun', hperm⟩
      obtain rfl : s' = s'' := Option.some.inj (hrun.symm.trans hrun')
      exact hperm
    · exact fun hperm => ⟨s', hrun, hperm⟩
  rw [hexact]
  refine forall_congr' fun p => ?_
  rw [hmem, mem_filter, mem_supply_iff h hbs haligned, decide_eq_true_iff]
  tauto

end

end PageTableAllocator

namespace TableSystem

open PageTableAllocator

/-! ## Runs -/

/-- What the owner of the allocator does: calls of clients, and ranges of it are released. -/
inductive OwnerCall
  | client (call : TableCall)
  | releaseMemory (range : AnyRange)

/-- One call, within the bounds of `Fits`; a range that is released is made of whole blocks.
The pages a release takes off the free list, whichever they are, are not supplied any more. -/
inductive OwnerStep : TableSystem → OwnerCall → TableSystem → Prop
  | client {s t : TableSystem} {call : TableCall} (h : LegalStep s call t) :
    OwnerStep s (.client call) t
  | releaseMemory {s : TableSystem} {range : AnyRange} {alloc : PageTableAllocator}
      (hdvd : s.alloc.mBlockSize ∣ range.front ∧ s.alloc.mBlockSize ∣ range.back)
      (hrun : s.alloc.releaseMemory range = some alloc) :
    OwnerStep s (.releaseMemory range)
      { s with alloc, supplied := alloc.supply ++ s.supplied.filter (· ∉ s.alloc.supply) }

variable {s t : TableSystem} {free : List Nat} {held : List (List Nat)}

lemma Balanced.aligned (h : Balanced s free held) : ∀ p ∈ s.alloc.pages free,
    s.alloc.mBlockSize ∣ p ∧ p + s.alloc.mBlockSize < wordCount :=
  fun p hp => (h.page p (h.free_supplied hp)).2

lemma balanced_releaseMemory {range : AnyRange} {alloc : PageTableAllocator}
    (h : Balanced s free held)
    (hdvd : s.alloc.mBlockSize ∣ range.front ∧ s.alloc.mBlockSize ∣ range.back)
    (hrun : s.alloc.releaseMemory range = some alloc) :
    ∃ free', Balanced
      { s with alloc, supplied := alloc.supply ++ s.supplied.filter (· ∉ s.alloc.supply) }
      free' held := by
  have hbs := h.blockSize
  obtain ⟨alloc', free', hrun', hbs', hhead, hlaid, -⟩ :=
    releaseMemory_spec h.freeList hbs h.aligned hdvd
  obtain rfl : alloc' = alloc := Option.some.inj (hrun'.symm.trans hrun)
  have hfree : alloc'.Free free' := by
    rw [Free, hbs', hhead]
    exact freeList_of_laid hlaid hbs
  have hsupply := supply_eq h.freeList hbs
  have hsupply' := supply_eq hfree (hbs' ▸ hbs)
  have hsub : ∀ p ∈ alloc'.supply, p ∈ s.alloc.pages free := by
    intro p hp
    rw [hsupply', pages, hbs', mem_freePages_iff hbs hlaid.stretches] at hp
    exact hlaid.inside p hp.1 hp.2
  refine ⟨free', hbs' ▸ hbs, hfree, ?_, ?_, ?_, ?_⟩
  · exact h.holds.untouched hlaid.same fun p hp => (h.held_apart hp).1
  · -- The clients hold what was supplied and is not free.
    refine Perm.append ?_ ?_
    · rw [hsupply']
    · have hfilter : (s.alloc.pages free ++ (s.loose ++ held.flatten)).filter
          (· ∉ s.alloc.supply) = s.loose ++ held.flatten := by
        rw [filter_append, filter_eq_nil_iff.2, filter_eq_self.2, nil_append]
        · intro p hp
          rw [decide_eq_true_iff, hsupply]
          rcases mem_append.1 hp with hp | hp
          · exact h.loose_apart hp
          · exact (h.held_apart hp).1
        · intro p hp
          rw [decide_eq_true_iff, hsupply]
          exact not_not.2 hp
      rw [← hfilter]
      exact h.perm.filter _
  · refine nodup_append.2 ⟨hsupply' ▸ hfree.nodup, h.nodup.filter _, ?_⟩
    rintro p hp q hq rfl
    rw [mem_filter, decide_eq_true_iff, hsupply] at hq
    exact hq.2 (hsub p hp)
  · intro p hp
    rw [hbs']
    rcases mem_append.1 hp with hp | hp
    · exact h.page p (h.free_supplied (hsub p hp))
    · exact h.page p (mem_filter.1 hp).1

lemma balanced_of_ownerRun {memory : AnyRange} {slide blockSize : Nat} {m : BlockMemory}
    {calls : List OwnerCall} (hcreate : create memory slide blockSize m = .ok s)
    (hmemory : memory.front ≠ 0 ∧ memory.back < wordCount) (hblock : controlBlockSize ≤ blockSize)
    (hrun : Run OwnerStep s calls t) : ∃ free held, Balanced t free held := by
  have hstep : ∀ s call t, (∃ free held, Balanced s free held) → OwnerStep s call t →
      ∃ free held, Balanced t free held := by
    rintro s _ t ⟨free, held, h⟩ (⟨⟨hlegal, hfits⟩, hstep⟩ | ⟨hdvd, hrun⟩)
    · obtain ⟨t', free', held', hstep', h'⟩ := h.step_legal hlegal hfits
      obtain rfl : t' = t := Option.some.inj (hstep'.symm.trans hstep)
      exact ⟨free', held', h'⟩
    · obtain ⟨free', h'⟩ := balanced_releaseMemory h hdvd hrun
      exact ⟨free', held, h'⟩
  exact hrun.invariant hstep (balanced_of_create hcreate hmemory hblock)

/-- In every state of every run, a release takes exactly the pages of its range off the free list
when the merged blocks lie well to the range, and only then. -/
theorem releasesExactly_of_run {memory range : AnyRange} {slide blockSize : Nat} {m : BlockMemory}
    {calls : List OwnerCall} (hcreate : create memory slide blockSize m = .ok s)
    (hmemory : memory.front ≠ 0 ∧ memory.back < wordCount) (hblock : controlBlockSize ≤ blockSize)
    (hrun : Run OwnerStep s calls t)
    (hdvd : t.alloc.mBlockSize ∣ range.front ∧ t.alloc.mBlockSize ∣ range.back) :
    t.alloc.ReleasesExactly range ↔ Releasable range t.alloc.coalesced := by
  obtain ⟨free, held, h⟩ := balanced_of_ownerRun hcreate hmemory hblock hrun
  exact releasesExactly_iff h.freeList h.blockSize h.aligned hdvd

lemma ownerRun_of_clients {calls : List TableCall} (h : Run LegalStep s calls t) :
    Run OwnerStep s (calls.map .client) t := by
  induction h with
  | nil s => exact .nil s
  | cons hstep _ ih => exact .cons (.client hstep) ih

def fragmented : Option TableSystem :=
  (create ⟨0x1000, 0x2000⟩ 0 kPageSize zeroMemory).toOption.bind fun s =>
    runGuarded (fun s call => s.Legal call ∧ s.Fits call) stepOrStop s
      [.addMemory ⟨0x3000, 0x5000⟩]

lemma run_of_fragmented (h : fragmented = some t) : ∃ s,
    create ⟨0x1000, 0x2000⟩ 0 kPageSize zeroMemory = .ok s ∧
      Run OwnerStep s [.client (.addMemory ⟨0x3000, 0x5000⟩)] t := by
  obtain ⟨s, hs, hguarded⟩ := bind_eq_some_iff.1 h
  refine ⟨s, eq_ok_of_toOption hs, ?_⟩
  exact ownerRun_of_clients
    ((Run.of_runGuarded hguarded).mono fun _ _ _ h => legalStep_of_guarded h)

/-- The first half of the block of two pages. -/
theorem releasesExactly_of_half : ∃ s t, create ⟨0x1000, 0x2000⟩ 0 kPageSize zeroMemory = .ok s ∧
    Run OwnerStep s [.client (.addMemory ⟨0x3000, 0x5000⟩)] t ∧
    t.alloc.ReleasesExactly ⟨0x3000, 0x4000⟩ := by
  have hsome : (fragmented.bind fun t =>
      if t.alloc.mBlockSize = kPageSize ∧ Releasable ⟨0x3000, 0x4000⟩ t.alloc.coalesced then some ()
      else none).isSome = true := by
    decide +kernel
  obtain ⟨u, hu⟩ := isSome_iff_exists.1 hsome
  obtain ⟨t, ht, hu⟩ := bind_eq_some_iff.1 hu
  obtain ⟨hpage, hreleasable⟩ :
      t.alloc.mBlockSize = kPageSize ∧ Releasable ⟨0x3000, 0x4000⟩ t.alloc.coalesced := by
    by_contra hnot
    rw [if_neg hnot] at hu
    cases hu
  obtain ⟨s, hcreate, hrun⟩ := run_of_fragmented ht
  refine ⟨s, t, hcreate, hrun, ?_⟩
  refine (releasesExactly_of_run hcreate (by decide) (by decide) hrun ?_).2 hreleasable
  rw [hpage]
  decide

/-- The first page of a block of five: only the last one is left. -/
theorem not_releasesExactly_of_five : ∃ s,
    create ⟨0x1000, 0x6000⟩ 0 kPageSize zeroMemory = .ok s ∧
      ¬ s.alloc.ReleasesExactly ⟨0x1000, 0x2000⟩ := by
  have hsome : ((create ⟨0x1000, 0x6000⟩ 0 kPageSize zeroMemory).toOption.bind fun s =>
      (s.alloc.releaseMemory ⟨0x1000, 0x2000⟩).bind fun alloc =>
        if alloc.supply = [0x5000] ∧ s.alloc.supply = [0x1000, 0x2000, 0x3000, 0x4000, 0x5000]
        then some () else none).isSome = true := by
    decide +kernel
  obtain ⟨u, hu⟩ := isSome_iff_exists.1 hsome
  obtain ⟨s, hs, hu⟩ := bind_eq_some_iff.1 hu
  obtain ⟨alloc, hrun, hu⟩ := bind_eq_some_iff.1 hu
  obtain ⟨hafter, hbefore⟩ : alloc.supply = [0x5000] ∧
      s.alloc.supply = [0x1000, 0x2000, 0x3000, 0x4000, 0x5000] := by
    by_contra hnot
    rw [if_neg hnot] at hu
    cases hu
  refine ⟨s, eq_ok_of_toOption hs, ?_⟩
  rintro ⟨alloc', hrun', hperm⟩
  obtain rfl : alloc = alloc' := Option.some.inj (hrun.symm.trans hrun')
  have hlength := hperm.length_eq
  rw [hafter, hbefore] at hlength
  revert hlength
  decide

end TableSystem
end BezOS
