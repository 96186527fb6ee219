import BezOS.Memory.TableSupply

/-!
# Releasing memory of the page table allocator

`releaseMemory` walks over the merged list and takes a range out of it, block by block. What is
left of the blocks that reach over an edge of the range has the right size or the right place,
but not both.
-/

namespace BezOS

open Lib Ascending Function AnyRange

namespace BlockMemory

variable {m0 m m' : BlockMemory} {bs a size : Nat} {P l x y : List Nat}

/-! ## Blocks in the middle of a list -/

/-- The words `SplitBlock` writes. -/
structure SplitAt (m : BlockMemory) (a b size : Nat) (m' : BlockMemory) : Prop where
  next : ∀ c, m'.next c = if c = a then b else if c = b then m.next a else m.next c
  prev : ∀ c, m'.prev c =
    if c = b then a else if m.next a ≠ 0 ∧ c = m.next a then b else m.prev c
  size : ∀ c, m'.size c = if c = b then size else if c = a then m.size a - size else m.size c
  slide : ∀ c, m'.slide c = if c = b then m.slide a else m.slide c

lemma span_removeBlock : (m.removeBlock a).span = m.span := by
  funext c
  rw [span, span, removeBlock_size, removeBlock_slide]

lemma spans_removeBlock : (m.removeBlock a).spans l = m.spans l := by
  rw [spans, spans, span_removeBlock]

lemma splitBlock_eq {b : Nat} (hlt : size < m.size a) (hb : a + (m.size a - size) = b)
    (hbound : b < wordCount) :
    ∃ m', m.splitBlock a size = some (m', b) ∧ SplitAt m a b size m' := by
  have hwrap : wrapAdd wordCount a (m.size a - size) = b := by
    rw [wrapAdd, hb]
    exact Nat.mod_eq_of_lt hbound
  refine ⟨_, by rw [splitBlock, if_pos hlt, hwrap], ?_, ?_, ?_, ?_⟩
  · intro c
    by_cases hnext : m.next a = 0 <;> simp [hnext, update_apply]
  · intro c
    by_cases hnext : m.next a = 0 <;> simp [hnext, update_apply]
  · intro c
    by_cases hnext : m.next a = 0 <;> simp [hnext, update_apply]
  · intro c
    by_cases hnext : m.next a = 0 <;> simp [hnext, update_apply]

/-- Stretches of whole pages, in ascending order and apart. -/
structure Stretches (bs : Nat) (S : List (Span Nat)) : Prop where
  ascending : Ascending S
  dvd : ∀ b ∈ S, bs ∣ b.front ∧ bs ∣ b.size
  bound : ∀ b ∈ S, 0 < b.front ∧ b.back < wordCount

lemma Stretches.sublist {S T : List (Span Nat)} (h : Stretches bs S) (hT : T.Sublist S) :
    Stretches bs T where
  ascending := ⟨fun b hb => h.ascending.positive b (hT.subset hb), h.ascending.pairwise.sublist hT⟩
  dvd b hb := h.dvd b (hT.subset hb)
  bound b hb := h.bound b (hT.subset hb)

lemma Stretches.cut {kept rest : List (Span Nat)} {b c : Span Nat}
    (h : Stretches bs (kept ++ b :: rest)) (hc : c ∈ kept ++ b :: rest) :
    0 < c.size ∧ ((c ∈ kept ∧ c.back ≤ b.front) ∨ c = b ∨ (c ∈ rest ∧ b.back ≤ c.front)) := by
  refine ⟨h.ascending.positive c hc, ?_⟩
  obtain ⟨-, hbrest, hapart⟩ := append_iff.1 h.ascending
  rcases List.mem_append.1 hc with hc | hc
  · exact .inl ⟨hc, hapart c hc b (by simp)⟩
  rcases List.mem_cons.1 hc with rfl | hc
  · exact .inr (.inl rfl)
  · exact .inr (.inr ⟨hc, hbrest.behind c hc⟩)

lemma Stretches.split {S T : List (Span Nat)} {b : Span Nat} {k : Nat}
    (h : Stretches bs (S ++ b :: T)) (hlt : k < b.size) (hpos : 0 < k) (hdvd : bs ∣ k) :
    Stretches bs (S ++ ⟨b.front, b.size - k, b.tag⟩ ::
      ⟨b.front + (b.size - k), k, b.tag⟩ :: T) := by
  obtain ⟨hS, hbT, hSbT⟩ := append_iff.1 h.ascending
  have hb := h.dvd b (by simp)
  have hbound := h.bound b (by simp)
  have hbehind := hbT.behind
  refine ⟨append_iff.2 ⟨hS, ⟨?_, ?_⟩, ?_⟩, ?_, ?_⟩
  · intro c hc
    rcases List.mem_cons.1 hc with rfl | hc
    · exact Nat.sub_pos_of_lt hlt
    · rcases List.mem_cons.1 hc with rfl | hc
      · exact hpos
      · exact hbT.tail.positive c hc
  · refine List.pairwise_cons.2 ⟨fun c hc => ?_, List.pairwise_cons.2 ⟨fun c hc => ?_,
      hbT.tail.pairwise⟩⟩
    · rcases List.mem_cons.1 hc with rfl | hc
      · exact Nat.le_refl _
      · have hle := hbehind c hc
        simp only [Span.back] at hle ⊢
        omega
    · have hle := hbehind c hc
      simp only [Span.back] at hle ⊢
      omega
  · intro c hc d hd
    have hle := hSbT c hc b (by simp)
    rcases List.mem_cons.1 hd with rfl | hd
    · exact hle
    · rcases List.mem_cons.1 hd with rfl | hd
      · exact hle.trans (Nat.le_add_right ..)
      · exact hSbT c hc d (by simp [hd])
  · intro c hc
    have hrest := Nat.dvd_sub hb.2 hdvd
    rcases List.mem_append.1 hc with hc | hc
    · exact h.dvd c (by simp [hc])
    rcases List.mem_cons.1 hc with rfl | hc
    · exact ⟨hb.1, hrest⟩
    rcases List.mem_cons.1 hc with rfl | hc
    · exact ⟨Nat.dvd_add hb.1 hrest, hdvd⟩
    · exact h.dvd c (by simp [hc])
  · intro c hc
    rcases List.mem_append.1 hc with hc | hc
    · exact h.bound c (by simp [hc])
    rcases List.mem_cons.1 hc with rfl | hc
    · simp only [Span.back] at hbound ⊢
      omega
    rcases List.mem_cons.1 hc with rfl | hc
    · simp only [Span.back] at hbound ⊢
      omega
    · exact h.bound c (by simp [hc])

/-- The blocks of `l` are linked in both directions, from the first to the last. They lie in the
pages `P`, and only there is the memory not `m0` any more. -/
structure Laid (bs : Nat) (P : List Nat) (m0 m : BlockMemory) (l : List Nat) : Prop where
  linked : Linked m.next m.prev 0 l
  first : ∀ a ∈ l.head?, m.prev a = 0
  stretches : Stretches bs (m.spans l)
  inside : ∀ p, bs ∣ p → Covered (m.spans l) p → p ∈ P
  same : Untouched P m0 m

namespace Laid

lemma span_mem (ha : a ∈ l) : m.span a ∈ m.spans l := List.mem_map_of_mem ha

section

variable (h : Laid bs P m0 m l)

include h

lemma nodup : l.Nodup := by
  have hpair := List.pairwise_map.1 h.stretches.ascending.pairwise
  refine hpair.imp_of_mem ?_
  intro a b ha _ hle heq
  have hpos := h.stretches.ascending.positive _ (span_mem ha)
  simp only [Span.back, span] at hle hpos
  omega

lemma zero_not_mem : 0 ∉ l :=
  fun hmem => Nat.lt_irrefl 0 (h.stretches.bound _ (span_mem hmem)).1

lemma mem_pages (ha : a ∈ l) : a ∈ P := by
  have hspan := span_mem (m := m) ha
  have hpos := h.stretches.ascending.positive _ hspan
  exact h.inside a (h.stretches.dvd _ hspan).1 ⟨m.span a, hspan, Nat.le_refl _, Nat.lt_add_of_pos_right hpos⟩

lemma lost : Laid bs P m0 m [] where
  linked := Linked.nil
  first := by simp
  stretches := ⟨Ascending.nil, by simp, by simp⟩
  inside := by simp
  same := h.same

end

section

variable (h : Laid bs P m0 m (x ++ a :: y))

include h

lemma next_eq : m.next a = y.headD 0 :=
  (Linked.append_iff.1 h.linked).2.2.next_head

lemma prev_eq : m.prev a = x.getLastD 0 := by
  rcases List.eq_nil_or_concat x with rfl | ⟨init, z, rfl⟩
  · exact h.first a (by simp)
  · have hseam := (Linked.append_iff.1 h.linked).2.1 z (by simp) a (by simp)
    simpa using hseam

lemma prev_ne_self : m.prev a ≠ a := by
  rw [h.prev_eq]
  rcases List.eq_nil_or_concat x with rfl | ⟨init, z, rfl⟩
  · rintro rfl
    exact h.zero_not_mem (by simp)
  · simpa using (List.nodup_append.1 h.nodup).2.2 z (by simp) a (by simp)

lemma remove_next (c : Nat) :
    (m.removeBlock a).next c = if c ∈ x.getLast? then y.headD 0 else m.next c := by
  have hzero := h.zero_not_mem
  rw [removeBlock_next, h.prev_eq, h.next_eq]
  rcases List.eq_nil_or_concat x with rfl | ⟨init, z, rfl⟩
  · simp
  · have hz : z ≠ 0 := by
      rintro rfl
      exact hzero (by simp)
    simp [hz, update_apply, eq_comm]

lemma remove_prev (c : Nat) :
    (m.removeBlock a).prev c = if c ∈ y.head? then x.getLastD 0 else m.prev c := by
  have hzero := h.zero_not_mem
  rw [removeBlock_prev h.prev_ne_self, h.prev_eq, h.next_eq]
  cases y with
  | nil => simp
  | cons d y =>
    have hd : d ≠ 0 := by
      rintro rfl
      exact hzero (by simp)
    simp [hd, update_apply, eq_comm]

lemma remove :
    Laid bs P m0 (m.removeBlock a) (x ++ y) ∧ (m.removeBlock a).next a = y.headD 0 := by
  have hnodup := h.nodup
  have hlast : ∀ b ∈ x.getLast?, x.getLastD 0 = b := by
    intro b hb
    rw [List.getLastD_eq_getLast?, Option.mem_def.1 hb, Option.getD_some]
  refine ⟨⟨h.linked.unlink hnodup ?_ ?_ ?_ ?_, ?_, ?_, ?_, ?_⟩, ?_⟩
  · intro b hb
    rw [h.remove_next, if_pos hb]
  · intro b hb c hc
    rw [h.remove_prev, if_pos hc, hlast b hb]
  · intro b _ hb
    rw [h.remove_next, if_neg hb]
  · intro b _ hb
    rw [h.remove_prev, if_neg hb]
  · intro b hb
    rw [h.remove_prev]
    cases x with
    | nil => rw [if_pos (by simpa using hb), List.getLastD_nil]
    | cons c x =>
      obtain rfl : c = b := by simpa using hb
      rw [if_neg fun hy => ?_, h.first c (by simp)]
      exact (List.nodup_cons.1 hnodup).1 (by simp [List.mem_of_mem_head? hy])
  · rw [spans_removeBlock]
    exact h.stretches.sublist (by simp [spans])
  · intro p hp hcovered
    rw [spans_removeBlock, spans_append, covered_append] at hcovered
    refine h.inside p hp ?_
    rw [spans_append, spans_cons, covered_append, covered_cons]
    exact hcovered.imp id .inr
  · refine h.same.trans (removeBlock_relinks h.prev_ne_self ?_ ?_).untouched
    · rw [h.prev_eq]
      rcases List.eq_nil_or_concat x with rfl | ⟨init, z, rfl⟩
      · exact .inl rfl
      · exact .inr (h.mem_pages (by simp))
    · rw [h.next_eq]
      cases y with
      | nil => exact .inl rfl
      | cons d y => exact .inr (h.mem_pages (by simp))
  · rw [h.remove_next, h.next_eq, ite_self]

lemma fresh {b : Nat} (hlt : a < b) (hb : b < a + m.size a) :
    b ∉ x ++ a :: y := by
  intro hmem
  have heq := h.stretches.ascending.eq_of_mem (span_mem hmem) (span_mem (by simp))
    ⟨Nat.le_refl _, ?_⟩ ⟨hlt.le, hb⟩
  · have := congrArg Span.front heq
    simp only [span] at this
    omega
  · have hpos := h.stretches.ascending.positive _ (span_mem hmem)
    simp only [Span.back, span] at hpos ⊢
    omega

lemma split (size : Nat) (hlt : size < m.size a) (hpos : 0 < size) (hdvd : bs ∣ size) :
    ∃ m', m.splitBlock a size = some (m', a + (m.size a - size)) ∧
      Laid bs P m0 m' (x ++ a :: (a + (m.size a - size)) :: y) ∧
      (m'.spans x = m.spans x ∧ m'.spans y = m.spans y) ∧
      m'.span a = ⟨a, m.size a - size, m.slide a⟩ ∧
      m'.span (a + (m.size a - size)) = ⟨a + (m.size a - size), size, m.slide a⟩ := by
  have hnodup := h.nodup
  have hzero := h.zero_not_mem
  have hbound := (h.stretches.bound _ (span_mem (a := a) (by simp))).2
  simp only [Span.back, span] at hbound
  have hfresh := h.fresh (b := a + (m.size a - size)) (by omega) (by omega)
  have hstretches := h.stretches
  rw [spans_append, spans_cons] at hstretches
  replace hstretches := hstretches.split (k := size) hlt hpos hdvd
  simp only [span] at hstretches
  have hab : a ≠ a + (m.size a - size) := by omega
  obtain ⟨m', hrun, hm'⟩ := splitBlock_eq hlt rfl (by omega)
  refine ⟨m', hrun, ?_⟩
  generalize hb : a + (m.size a - size) = b at *
  have hnexta := h.next_eq
  have hother : ∀ c ∈ x ++ y, m'.size c = m.size c ∧ m'.slide c = m.slide c := by
    intro c hc
    have hcb : c ≠ b := by
      rintro rfl
      exact hfresh (by grind)
    have hca : c ≠ a := by
      rintro rfl
      grind
    rw [hm'.size, hm'.slide, if_neg hcb, if_neg hca, if_neg hcb]
    exact ⟨rfl, rfl⟩
  have hspansx : m'.spans x = m.spans x :=
    spans_congr (fun c hc => (hother c (by simp [hc])).1) fun c hc => (hother c (by simp [hc])).2
  have hspansy : m'.spans y = m.spans y :=
    spans_congr (fun c hc => (hother c (by simp [hc])).1) fun c hc => (hother c (by simp [hc])).2
  have hspana : m'.span a = ⟨a, m.size a - size, m.slide a⟩ := by
    simp [span, hm'.size, hm'.slide, hab]
  have hspanb : m'.span b = ⟨b, size, m.slide a⟩ := by simp [span, hm'.size, hm'.slide]
  have hhead : ∀ c ∈ y.head?, m.next a ≠ 0 ∧ c = m.next a := by
    intro c hc
    rw [hnexta, List.headD_eq_head?_getD, Option.mem_def.1 hc, Option.getD_some]
    refine ⟨fun heq => hzero ?_, rfl⟩
    exact heq ▸ List.mem_append_right _ (List.mem_cons_of_mem _ (List.mem_of_mem_head? hc))
  have hcover : ∀ p, Covered (m'.spans (x ++ a :: b :: y)) p ↔ Covered (m.spans (x ++ a :: y)) p := by
    intro p
    rw [spans_append, spans_cons, spans_cons, hspansx, hspansy, hspana, hspanb, spans_append,
      spans_cons]
    have hmid : (a ≤ p ∧ p < a + (m.size a - size)) ∨ (b ≤ p ∧ p < b + size) ↔
        a ≤ p ∧ p < a + m.size a := by omega
    simp only [covered_append, covered_cons, Span.back, span, ← hmid, or_assoc]
  have hdvdb := (hstretches.dvd ⟨b, size, m.slide a⟩ (by simp)).1
  have hbP : b ∈ P := by
    refine h.inside b hdvdb ⟨m.span a, span_mem (by simp), ?_⟩
    simp only [Span.back, span]
    omega
  refine ⟨⟨h.linked.insertAfter hnodup hfresh ?_ ?_ ?_ ?_ ?_ ?_, ?_, ?_, ?_, ?_⟩,
    ⟨hspansx, hspansy⟩, hspana, hspanb⟩
  · rw [hm'.next, if_pos rfl]
  · rw [hm'.next, if_neg hab.symm, if_pos rfl, hnexta]
  · rw [hm'.prev, if_pos rfl]
  · intro c hc
    rw [hm'.prev, if_neg ?_, if_pos (hhead c hc)]
    rintro rfl
    exact hfresh (by simp [List.mem_of_mem_head? hc])
  · intro c hc
    rw [hm'.next, if_neg, if_neg]
    · rintro rfl
      exact hfresh (by grind)
    · rintro rfl
      grind
  · intro c hc hy
    rw [hm'.prev, if_neg, if_neg]
    · rintro ⟨hne, rfl⟩
      cases y <;> simp_all
    · rintro rfl
      exact hfresh hc
  · intro c hc
    have hcx : c ∈ (x ++ a :: y).head? := by
      cases x <;> simpa using hc
    rw [hm'.prev, if_neg, if_neg, h.first c hcx]
    · rintro ⟨hne, rfl⟩
      -- The block behind `a` is not the first one.
      rw [hnexta] at hcx hne
      cases y with
      | nil => exact hne rfl
      | cons d y =>
        have hd : (x ++ a :: d :: y).head? = (x ++ [a]).head? := by cases x <;> simp
        grind
    · rintro rfl
      exact hfresh (List.mem_of_mem_head? hcx)
  · rw [spans_append, spans_cons, spans_cons, hspansx, hspansy, hspana, hspanb]
    exact hstretches
  · exact fun p hp hcovered => h.inside p hp ((hcover p).1 hcovered)
  · refine h.same.trans fun c hc => ?_
    have haP := h.mem_pages (a := a) (by simp)
    have hca : c ≠ a := fun heq => hc (heq ▸ haP)
    have hcb : c ≠ b := fun heq => hc (heq ▸ hbP)
    have hcnext : ¬ (m.next a ≠ 0 ∧ c = m.next a) := by
      rintro ⟨hne, rfl⟩
      rw [hnexta] at hne hc
      cases y with
      | nil => exact hne rfl
      | cons d y => exact hc (h.mem_pages (by simp))
    rw [words, words, hm'.next, hm'.prev, hm'.size, hm'.slide, if_neg hca, if_neg hcb, if_neg hcb,
      if_neg hcnext, if_neg hcb, if_neg hca, if_neg hcb]

end

end Laid
end BlockMemory

namespace PageTableAllocator

open BlockMemory

/-! ## The loop -/

/-- The stretches that are left: the ones passed already, and what becomes of the others. -/
def releaseSpans (range : AnyRange) : List (Span Nat) → List (Span Nat) → List (Span Nat)
  | _, [] => []
  | kept, b :: l =>
    if range.back ≤ b.front then kept ++ b :: l
    else if b.back ≤ range.front ∨ range.back ≤ range.front then releaseSpans range (kept ++ [b]) l
    else if range.front ≤ b.front then
      if b.back ≤ range.back then releaseSpans range kept l
      else
        -- halved until the front is behind the range
        let rest := (range.back - b.front - 1) % (b.back - range.back) + 1
        kept ++ ⟨b.back - rest, rest, b.tag⟩ :: l
    else if b.back ≤ range.back then
      if l = [] then [] else kept ++ ⟨b.front, b.back - range.front, b.tag⟩ :: l
    else
      kept ++ ⟨b.front, b.back - range.back, b.tag⟩ ::
        ⟨b.back - (range.front - b.front), range.front - b.front, b.tag⟩ :: l

variable {m0 m m' : BlockMemory} {bs a fuel stop : Nat} {P l x y : List Nat} {range : AnyRange}
  {S kept rest : List (Span Nat)} {b : Span Nat}

lemma releaseSpans_behind (h : range.back ≤ b.front) :
    releaseSpans range kept (b :: rest) = kept ++ b :: rest := if_pos h

lemma releaseSpans_apart (h : b.front < range.back)
    (hapart : b.back ≤ range.front ∨ range.back ≤ range.front) :
    releaseSpans range kept (b :: rest) = releaseSpans range (kept ++ [b]) rest := by
  rw [releaseSpans, if_neg (not_le.2 h), if_pos hapart]

lemma releaseSpans_meets (h : b.front < range.back) (hmeets : range.front < b.back)
    (hrange : range.front < range.back) :
    releaseSpans range kept (b :: rest) =
      if range.front ≤ b.front then
        if b.back ≤ range.back then releaseSpans range kept rest
        else
          kept ++ ⟨b.back - ((range.back - b.front - 1) % (b.back - range.back) + 1),
            (range.back - b.front - 1) % (b.back - range.back) + 1, b.tag⟩ :: rest
      else if b.back ≤ range.back then
        if rest = [] then [] else kept ++ ⟨b.front, b.back - range.front, b.tag⟩ :: rest
      else
        kept ++ ⟨b.front, b.back - range.back, b.tag⟩ ::
          ⟨b.back - (range.front - b.front), range.front - b.front, b.tag⟩ :: rest := by
  rw [releaseSpans, if_neg (not_le.2 h),
    if_neg fun hor => hor.elim (not_le.2 hmeets) (not_le.2 hrange)]

/-- The loop has stopped at a block of the list that is left, or past its end with nothing. -/
def Stops (bs : Nat) (P : List Nat) (m0 m : BlockMemory) (stop : Nat) (S : List (Span Nat)) :
    Prop :=
  ∃ l, Laid bs P m0 m l ∧ m.spans l = S ∧ (stop ∈ l ∨ stop = 0 ∧ l = [])

lemma range_eq (h : Laid bs P m0 m (x ++ a :: y)) : m.range a = ⟨a, a + m.size a⟩ := by
  have hbound := (h.stretches.bound _ (Laid.span_mem (a := a) (by simp))).2
  simp only [Span.back, span] at hbound
  rw [BlockMemory.range, wrapAdd, Nat.mod_eq_of_lt hbound]

lemma intersection_eq {r s : AnyRange} (h : max r.front s.front < min r.back s.back) :
    r.intersection s = ⟨max r.front s.front, min r.back s.back⟩ := if_neg (not_le.2 h)

lemma bytes_eq_sub {front back : Nat} (hle : front ≤ back) (hback : back < wordCount) :
    bytes ⟨front, back⟩ = back - front := wrapSub_of_le hle hback

section

variable (h : Laid bs P m0 m (x ++ a :: y))

include h

lemma releaseLoop_front (hdvd : bs ∣ range.back) (hfront : range.front ≤ a) (hback : a < range.back)
    (hover : range.back < a + m.size a) (hfuel : m.size a < fuel) :
    ∃ m' stop, releaseLoop range fuel m a = some (m', stop) ∧
      Stops bs P m0 m' stop (m.spans x ++
        ⟨a + m.size a - ((range.back - a - 1) % (a + m.size a - range.back) + 1),
          (range.back - a - 1) % (a + m.size a - range.back) + 1, m.slide a⟩ :: m.spans y) := by
  induction fuel generalizing m a with
  | zero => omega
  | succ fuel ih =>
    have hbound := (h.stretches.bound _ (Laid.span_mem (a := a) (by simp))).2
    have hfrontDvd := (h.stretches.dvd _ (Laid.span_mem (a := a) (by simp))).1
    have ha0 : a ≠ 0 := by
      rintro rfl
      exact h.zero_not_mem (by simp)
    have hoverlap : (⟨a, a + m.size a⟩ : AnyRange).intersection range = ⟨a, range.back⟩ := by
      have hlt : max a range.front < min (a + m.size a) range.back := by omega
      rw [intersection_eq hlt, max_eq_left hfront, min_eq_right hover.le]
    have hbytes : bytes ⟨a, range.back⟩ = range.back - a :=
      bytes_eq_sub hback.le (hover.trans hbound)
    obtain ⟨m1, hsplit, hlaid1, ⟨hspansx, hspansy⟩, -, hspanb⟩ :=
      h.split (range.back - a) (by omega) (by omega) (Nat.dvd_sub hdvd hfrontDvd)
    obtain ⟨hlaid2, -⟩ := hlaid1.remove
    rw [releaseLoop, if_neg ha0, range_eq h, if_neg (not_le.2 hback)]
    simp only [hoverlap]
    have hempty : ¬ (⟨a, range.back⟩ : AnyRange).isEmpty := by
      simp only [isEmpty]
      omega
    have hne : (⟨a, a + m.size a⟩ : AnyRange) ≠ ⟨a, range.back⟩ := by
      intro heq
      have := congrArg AnyRange.back heq
      simp only at this
      omega
    have hstarts : (⟨a, a + m.size a⟩ : AnyRange).startsWith ⟨a, range.back⟩ := ⟨rfl, hover.le⟩
    rw [if_neg hempty, if_neg hne, if_pos hstarts, hbytes, hsplit]
    simp only [Option.bind_eq_bind, Option.bind_some]
    rw [← spans_removeBlock] at hspansx hspansy
    rw [← span_removeBlock] at hspanb
    generalize m1.removeBlock a = m2 at *
    have hb : a + (m.size a - (range.back - a)) = a + (a + m.size a - range.back) := by omega
    rw [hb] at hlaid2 hspanb ⊢
    have hsize : m2.size (a + (a + m.size a - range.back)) = range.back - a :=
      congrArg Span.size hspanb
    have hslide : m2.slide (a + (a + m.size a - range.back)) = m.slide a :=
      congrArg Span.tag hspanb
    obtain ⟨fuel, rfl⟩ : ∃ k, fuel = k + 1 := ⟨fuel - 1, by omega⟩
    by_cases hnear : range.back ≤ a + (a + m.size a - range.back)
    · -- Nothing of the range is left in the block.
      have hmod : (range.back - a - 1) % (a + m.size a - range.back) = range.back - a - 1 :=
        Nat.mod_eq_of_lt (by omega)
      refine ⟨m2, a + (a + m.size a - range.back), ?_, _, hlaid2, ?_, .inl (by simp)⟩
      · rw [releaseLoop, if_neg (by omega)]
        exact if_pos hnear
      · rw [spans_append, spans_cons, hspansx, hspansy, hspanb, hmod]
        have hrest : range.back - a - 1 + 1 = range.back - a := by omega
        have hstart : a + m.size a - (range.back - a) = a + (a + m.size a - range.back) := by omega
        rw [hrest, hstart]
    · have hrun := ih hlaid2 (by omega) (by omega) (by omega) (by omega)
      rw [hsize, hslide, hspansx, hspansy] at hrun
      -- The remainder is the same one.
      have hend : a + (a + m.size a - range.back) + (range.back - a) = a + m.size a := by omega
      have hmod : (range.back - (a + (a + m.size a - range.back)) - 1) %
          (a + m.size a - range.back) = (range.back - a - 1) % (a + m.size a - range.back) := by
        rw [Nat.mod_eq_sub_mod (a := range.back - a - 1) (by omega)]
        congr 1
        omega
      rw [hend, hmod] at hrun
      exact hrun

lemma releaseLoop_end (hdvd : bs ∣ range.front) (hfront : a < range.front)
    (hlt : range.front < a + m.size a) (hback : a + m.size a ≤ range.back) :
    ∃ m' stop, releaseLoop range (fuel + 1) m a = some (m', stop) ∧
      Stops bs P m0 m' stop (if m.spans y = [] then [] else
        m.spans x ++ ⟨a, a + m.size a - range.front, m.slide a⟩ :: m.spans y) := by
  have hbound := (h.stretches.bound _ (Laid.span_mem (a := a) (by simp))).2
  have hfrontDvd := (h.stretches.dvd _ (Laid.span_mem (a := a) (by simp))).1
  simp only [Span.back, span] at hbound hfrontDvd
  have ha0 : a ≠ 0 := by
    rintro rfl
    exact h.zero_not_mem (by simp)
  have hoverlap : (⟨a, a + m.size a⟩ : AnyRange).intersection range =
      ⟨range.front, a + m.size a⟩ := by
    have hmeet : max a range.front < min (a + m.size a) range.back := by omega
    rw [intersection_eq hmeet, max_eq_right hfront.le, min_eq_left hback]
  have hempty : ¬ (⟨range.front, a + m.size a⟩ : AnyRange).isEmpty := by
    simp only [isEmpty]
    omega
  have hne : (⟨a, a + m.size a⟩ : AnyRange) ≠ ⟨range.front, a + m.size a⟩ := by
    intro heq
    exact hfront.ne (congrArg AnyRange.front heq)
  have hstarts : ¬ (⟨a, a + m.size a⟩ : AnyRange).startsWith ⟨range.front, a + m.size a⟩ :=
    fun hstarts => hfront.ne hstarts.1
  have hends : (⟨a, a + m.size a⟩ : AnyRange).endsWith ⟨range.front, a + m.size a⟩ :=
    ⟨rfl, hfront.le⟩
  have hsize : bytes ⟨a, a + m.size a⟩ - bytes ⟨range.front, a + m.size a⟩ =
      range.front - a := by
    rw [bytes_eq_sub (by omega) hbound, bytes_eq_sub hlt.le hbound]
    omega
  obtain ⟨m1, hsplit, hlaid1, ⟨hspansx, hspansy⟩, hspana, -⟩ :=
    h.split (range.front - a) (by omega) (by omega) (Nat.dvd_sub hdvd hfrontDvd)
  have hnext := hlaid1.next_eq
  rw [List.headD_cons] at hnext
  -- The new block is the one that goes.
  have hlaid2 : Laid bs P m0 m1 ((x ++ [a]) ++ (a + (m.size a - (range.front - a))) :: y) := by
    simpa using hlaid1
  obtain ⟨hlaid3, -⟩ := hlaid2.remove
  rw [List.append_assoc, List.singleton_append] at hlaid3
  have hrun : releaseLoop range (fuel + 1) m a =
      some (m1.removeBlock (m1.next a), (m1.removeBlock (m1.next a)).next a) := by
    rw [releaseLoop, if_neg ha0, range_eq h, if_neg (by simp only; omega)]
    simp only [hoverlap]
    rw [if_neg hempty, if_neg hne, if_neg hstarts, if_pos hends, hsize, hsplit]
    rfl
  rw [hnext, hlaid3.next_eq] at hrun
  refine ⟨_, _, hrun, ?_⟩
  cases y with
  | nil =>
    rw [spans_nil, if_pos rfl]
    exact ⟨[], hlaid3.lost, rfl, .inr ⟨rfl, rfl⟩⟩
  | cons c y =>
    rw [spans_cons, if_neg (by simp), ← spans_cons]
    refine ⟨_, hlaid3, ?_, .inl (by simp)⟩
    have hleft : m.size a - (range.front - a) = a + m.size a - range.front := by omega
    rw [spans_removeBlock, spans_append, spans_cons, hspansx, hspansy, hspana, hleft]

lemma releaseLoop_inside (hdvd : bs ∣ range.front ∧ bs ∣ range.back) (hfront : a < range.front)
    (hlt : range.front < range.back) (hback : range.back < a + m.size a) :
    ∃ m' stop, releaseLoop range (fuel + 1) m a = some (m', stop) ∧
      Stops bs P m0 m' stop (m.spans x ++ ⟨a, a + m.size a - range.back, m.slide a⟩ ::
        ⟨a + m.size a - (range.front - a), range.front - a, m.slide a⟩ :: m.spans y) := by
  have hbound := (h.stretches.bound _ (Laid.span_mem (a := a) (by simp))).2
  have hfrontDvd := (h.stretches.dvd _ (Laid.span_mem (a := a) (by simp))).1
  have ha0 : a ≠ 0 := by
    rintro rfl
    exact h.zero_not_mem (by simp)
  have hoverlap : (⟨a, a + m.size a⟩ : AnyRange).intersection range =
      ⟨range.front, range.back⟩ := by
    have hmeet : max a range.front < min (a + m.size a) range.back := by omega
    rw [intersection_eq hmeet, max_eq_right hfront.le, min_eq_right hback.le]
  have hempty : ¬ (⟨range.front, range.back⟩ : AnyRange).isEmpty := hlt.ne
  have hne : (⟨a, a + m.size a⟩ : AnyRange) ≠ ⟨range.front, range.back⟩ := by
    intro heq
    exact hfront.ne (congrArg AnyRange.front heq)
  have hstarts : ¬ (⟨a, a + m.size a⟩ : AnyRange).startsWith ⟨range.front, range.back⟩ :=
    fun hstarts => hfront.ne hstarts.1
  have hends : ¬ (⟨a, a + m.size a⟩ : AnyRange).endsWith ⟨range.front, range.back⟩ :=
    fun hends => hback.ne' hends.1
  have hcontains : (⟨a, a + m.size a⟩ : AnyRange).containsRange ⟨range.front, range.back⟩ :=
    ⟨hfront.le, hback.le⟩
  have hbytes : bytes ⟨range.front, range.back⟩ = range.back - range.front :=
    bytes_eq_sub hlt.le (hback.trans hbound)
  obtain ⟨m1, hsplit1, hlaid1, ⟨hspansx1, hspansy1⟩, hspana1, hspanb1⟩ :=
    h.split (range.front - a) (by omega) (by omega) (Nat.dvd_sub hdvd.1 hfrontDvd)
  have hsize1 : m1.size a = m.size a - (range.front - a) := congrArg Span.size hspana1
  have hslide1 : m1.slide a = m.slide a := congrArg Span.tag hspana1
  obtain ⟨m2, hsplit2, hlaid2, ⟨hspansx2, hspansy2⟩, hspana2, -⟩ :=
    hlaid1.split (range.back - range.front) (by omega) (by omega)
      (Nat.dvd_sub hdvd.2 hdvd.1)
  have hlaid3 : Laid bs P m0 m2 ((x ++ [a]) ++ (a + (m1.size a - (range.back - range.front))) ::
      (a + (m.size a - (range.front - a))) :: y) := by
    simpa using hlaid2
  obtain ⟨hlaid4, -⟩ := hlaid3.remove
  rw [List.append_assoc, List.singleton_append] at hlaid4
  refine ⟨m2.removeBlock (a + (m1.size a - (range.back - range.front))),
    a + (m.size a - (range.front - a)), ?_, _, hlaid4, ?_, .inl (by simp)⟩
  · rw [releaseLoop, if_neg ha0, range_eq h, if_neg (by simp only; omega)]
    simp only [hoverlap]
    rw [if_neg hempty, if_neg hne, if_neg hstarts, if_neg hends, if_pos hcontains, hsplit1]
    simp only [Option.bind_eq_bind, Option.bind_some, hbytes, hsplit2]
    rfl
  · rw [spans_cons] at hspansy2
    have hleft : m1.size a - (range.back - range.front) = a + m.size a - range.back := by omega
    have hright : a + (m.size a - (range.front - a)) = a + m.size a - (range.front - a) := by omega
    rw [spans_removeBlock, spans_append, spans_cons, spans_cons, hspansx2, hspansx1, hspana2,
      hspansy2, spans_cons, hspanb1, hspansy1, hslide1, hleft, hright]

end

lemma releaseLoop_spec (h : Laid bs P m0 m (x ++ y)) (hdvd : bs ∣ range.front ∧ bs ∣ range.back)
    (hfuel : (y.map m.size).sum < fuel) :
    ∃ m' stop, releaseLoop range fuel m (y.headD 0) = some (m', stop) ∧
      Stops bs P m0 m' stop (releaseSpans range (m.spans x) (m.spans y)) := by
  induction y generalizing x m fuel with
  | nil =>
    obtain ⟨fuel, rfl⟩ : ∃ k, fuel = k + 1 := ⟨fuel - 1, by omega⟩
    exact ⟨m, 0, rfl, [], h.lost, rfl, .inr ⟨rfl, rfl⟩⟩
  | cons a y ih =>
    obtain ⟨fuel, rfl⟩ : ∃ k, fuel = k + 1 := ⟨fuel - 1, by omega⟩
    rw [List.map_cons, List.sum_cons] at hfuel
    have hpos := h.stretches.ascending.positive _ (Laid.span_mem (a := a) (by simp))
    simp only [span] at hpos
    have ha0 : a ≠ 0 := by
      rintro rfl
      exact h.zero_not_mem (by simp)
    rw [List.headD_cons, spans_cons]
    by_cases hafter : range.back ≤ a
    · refine ⟨m, a, ?_, x ++ a :: y, h, ?_, .inl (by simp)⟩
      · rw [releaseLoop, if_neg ha0]
        exact if_pos hafter
      · rw [releaseSpans_behind (by exact hafter), spans_append, spans_cons]
    by_cases hapart : a + m.size a ≤ range.front ∨ range.back ≤ range.front
    · have hnone : (⟨a, a + m.size a⟩ : AnyRange).intersection range = ⟨0, 0⟩ := by
        have hle : min (a + m.size a) range.back ≤ max a range.front := by omega
        exact if_pos hle
      have hempty : (⟨0, 0⟩ : AnyRange).isEmpty := rfl
      have h' : Laid bs P m0 m ((x ++ [a]) ++ y) := by simpa using h
      have hrest : (y.map m.size).sum < fuel := by omega
      obtain ⟨m', stop, hrun, hstops⟩ := ih h' hrest
      refine ⟨m', stop, ?_, ?_⟩
      · rw [releaseLoop, if_neg ha0, range_eq h, if_neg hafter]
        simp only [hnone]
        rw [if_pos hempty, h.next_eq, hrun]
      · rw [releaseSpans_apart (by exact not_le.1 hafter) (by exact hapart)]
        rw [spans_append, spans_cons, spans_nil] at hstops
        exact hstops
    push Not at hafter hapart
    rw [releaseSpans_meets (by exact hafter) (by exact hapart.1) hapart.2]
    by_cases hfront : range.front ≤ a
    · rw [if_pos (by exact hfront)]
      by_cases hback : a + m.size a ≤ range.back
      · -- The whole block is in the range.
        have hsame : (⟨a, a + m.size a⟩ : AnyRange).intersection range = ⟨a, a + m.size a⟩ := by
          have hlt : max a range.front < min (a + m.size a) range.back := by omega
          rw [intersection_eq hlt, max_eq_left hfront, min_eq_left hback]
        have hfull : ¬ (⟨a, a + m.size a⟩ : AnyRange).isEmpty := by
          simp only [isEmpty]
          omega
        obtain ⟨h', hnext⟩ := h.remove
        have hrest : (y.map (m.removeBlock a).size).sum < fuel := by
          rw [removeBlock_size]
          omega
        obtain ⟨m', stop, hrun, hstops⟩ := ih h' hrest
        refine ⟨m', stop, ?_, ?_⟩
        · rw [releaseLoop, if_neg ha0, range_eq h, if_neg (not_le.2 hafter)]
          simp only [hsame]
          rw [if_neg hfull, if_pos trivial, hnext, hrun]
        · rw [if_pos (by exact hback)]
          rw [spans_removeBlock, spans_removeBlock] at hstops
          exact hstops
      · rw [if_neg (by exact hback)]
        exact releaseLoop_front h hdvd.2 hfront hafter (not_le.1 hback) (by omega)
    · rw [if_neg (by exact hfront)]
      by_cases hback : a + m.size a ≤ range.back
      · rw [if_pos (by exact hback)]
        exact releaseLoop_end h hdvd.1 (not_le.1 hfront) hapart.1 hback
      · rw [if_neg (by exact hback)]
        exact releaseLoop_inside h hdvd (not_le.1 hfront) hapart.2 (not_le.1 hback)

/-! ## The whole call -/

lemma freeList_of_laid (h : Laid bs P m0 m l) (hbs : 0 < bs) : FreeList bs m (l.headD 0) l where
  head_eq := rfl
  linked := h.linked
  first := h.first
  blocks a ha := by
    have hspan := Laid.span_mem (m := m) ha
    have hbound := h.stretches.bound _ hspan
    exact ⟨hbound.1.ne', (h.stretches.dvd _ hspan).2, h.stretches.ascending.positive _ hspan,
      hbound.2⟩
  nodup := by
    refine List.nodup_flatMap.2 ⟨fun a _ => nodup_blockPages hbs, ?_⟩
    have hpair := List.pairwise_map.1 h.stretches.ascending.pairwise
    refine hpair.imp fun {a b} hle p hp hp' => ?_
    have hlt := blockPages_lt hp
    have hge := blockPages_lt hp'
    simp only [Span.back, span] at hle
    omega

lemma stretches_of_free {s : PageTableAllocator} (h : s.Free l) (hbs : 0 < s.mBlockSize)
    (haligned : ∀ a ∈ l, s.mBlockSize ∣ a) {sorted : List Nat} (hperm : sorted.Perm l)
    (hsorted : sorted.Pairwise (· < ·)) : Stretches s.mBlockSize (s.mem.spans sorted) := by
  have hblock : ∀ a ∈ sorted, FreeBlock s.mBlockSize s.mem a :=
    fun a ha => h.blocks a (hperm.subset ha)
  have hnodup : (freePages s.mBlockSize s.mem sorted).Nodup :=
    (hperm.flatMap_right _).nodup_iff.2 h.nodup
  refine ⟨⟨?_, ?_⟩, ?_, ?_⟩
  · intro c hc
    obtain ⟨a, ha, rfl⟩ := List.mem_map.1 hc
    exact (hblock a ha).pos
  · refine List.pairwise_map.2 ((hsorted.and (List.nodup_flatMap.1 hnodup).2).imp_of_mem ?_)
    rintro a b ha hb ⟨hlt, hdisjoint⟩
    have hA := hblock a ha
    have hB := hblock b hb
    rcases TableSystem.apart_of_pages hbs (haligned a (hperm.subset ha))
      (haligned b (hperm.subset hb)) hA.dvd hB.dvd hA.pos hB.pos
      fun p hp hp' => hdisjoint hp hp' with hle | hle
    · exact hle
    · omega
  · intro c hc
    obtain ⟨a, ha, rfl⟩ := List.mem_map.1 hc
    exact ⟨haligned a (hperm.subset ha), (hblock a ha).dvd⟩
  · intro c hc
    obtain ⟨a, ha, rfl⟩ := List.mem_map.1 hc
    exact ⟨Nat.pos_of_ne_zero (hblock a ha).ne_zero, (hblock a ha).bound⟩

end PageTableAllocator
end BezOS
