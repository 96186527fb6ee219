import BezOS.Memory.PageMapping

/-!
# Splitting a mapping at large pages

The head, the body and the tail of a mapping follow on one another and map every address of it as
it does, to the same physical address, also where the addresses wrap. The body is made of large
pages; the ends are smaller than one.
-/

namespace BezOS
namespace km
namespace detail

open Lib x64 Nat

variable {m part : AddressMapping} {v p q start a b : Nat}

structure Fits (m : AddressMapping) : Prop where
  vaddr : m.vaddr < wordCount
  paddr : m.paddr < wordCount
  size : m.size < wordCount

def Maps (m : AddressMapping) (v p : Nat) : Prop :=
  ∃ i < m.size, v = wrapAdd wordCount m.vaddr i ∧ p = wrapAdd wordCount m.paddr i

/-! ## Offsets -/

lemma wrapAdd_wrapAdd (a b c : Nat) :
    wrapAdd wordCount (wrapAdd wordCount a b) c = wrapAdd wordCount a (b + c) := by
  rw [wrapAdd, wrapAdd, wrapAdd, mod_add_mod, Nat.add_assoc]

lemma wrapSub_wrapAdd (ha : a < wordCount) (hb : b < wordCount) :
    wrapSub wordCount (wrapAdd wordCount a b) a = b := by
  have hadd := wrapAdd_cases ha (Nat.le_of_lt hb)
  have hlt := wrapAdd_lt (w := wordCount) (a := a) (b := b) (by decide)
  have hsub := wrapSub_cases hlt (Nat.le_of_lt ha)
  omega

lemma wrapAdd_wrapSub {c : Nat} (ha : a < wordCount) (hb : b < wordCount) (hc : c ≤ b) :
    wrapSub wordCount (wrapAdd wordCount a b) c = wrapAdd wordCount a (b - c) := by
  have hadd := wrapAdd_cases ha (Nat.le_of_lt hb)
  have hadd' := wrapAdd_cases (b := b - c) ha (Nat.le_of_lt (Nat.lt_of_le_of_lt (sub_le ..) hb))
  have hlt := wrapAdd_lt (w := wordCount) (a := a) (b := b) (by decide)
  have hsub := wrapSub_cases hlt (Nat.le_of_lt (Nat.lt_of_le_of_lt hc hb))
  omega

lemma offset_unique {i j : Nat} (hi : i < wordCount) (hj : j < wordCount)
    (heq : wrapAdd wordCount a i = wrapAdd wordCount a j) : i = j := by
  have h := eq_of_mod_eq_of_window a (Nat.le_add_right a i) (Nat.add_lt_add_left hi a)
    (Nat.le_add_right a j) (Nat.add_lt_add_left hj a) heq
  omega

/-! ## Rounding -/

def toLarge (a : Nat) : Nat := (kLargePageSize - a % kLargePageSize) % kLargePageSize

def fromLarge (a : Nat) : Nat := a % kLargePageSize

lemma toLarge_lt (a : Nat) : toLarge a < kLargePageSize := mod_lt _ (by decide)

lemma fromLarge_lt (a : Nat) : fromLarge a < kLargePageSize := mod_lt _ (by decide)

lemma toLarge_congr (h : a % kLargePageSize = b % kLargePageSize) :
    toLarge a = toLarge b := by
  rw [toLarge, toLarge, h]

lemma dvd_add_toLarge (a : Nat) : kLargePageSize ∣ a + toLarge a := by
  simp only [toLarge, kLargePageSize]
  omega

lemma dvd_word : kLargePageSize ∣ wordCount := by decide

lemma dvd_wrapAdd (h : kLargePageSize ∣ a + b) :
    kLargePageSize ∣ wrapAdd wordCount a b :=
  (dvd_mod_iff dvd_word).2 h

lemma roundup_large (ha : a < wordCount) :
    roundup a kLargePageSize = wrapAdd wordCount a (toLarge a) := by
  simp only [roundup, toLarge, wrapAdd, wordCount, kLargePageSize] at *
  omega

lemma rounddown_large (a : Nat) : rounddown a kLargePageSize + fromLarge a = a :=
  div_add_mod' a kLargePageSize

lemma fromLarge_wrapAdd (a b : Nat) : fromLarge (wrapAdd wordCount a b) = fromLarge (a + b) :=
  mod_mod_of_dvd _ dvd_word

section

variable (ha : a < wordCount)

include ha

lemma next_large_cases :
    (a + toLarge a < wordCount ∧ wrapAdd wordCount a (toLarge a) = a + toLarge a) ∨
      (a + toLarge a = wordCount ∧ wrapAdd wordCount a (toLarge a) = 0) := by
  have hdvd := dvd_add_toLarge a
  have hlt := toLarge_lt a
  have hle : toLarge a ≤ wordCount := Nat.le_of_lt (hlt.trans (by decide))
  have hcases := wrapAdd_cases ha hle
  simp only [wordCount, kLargePageSize] at *
  omega

lemma rounddown_wrapAdd (hb : b < wordCount) (h : fromLarge (a + b) ≤ b) :
    rounddown (wrapAdd wordCount a b) kLargePageSize =
      wrapAdd wordCount a (b - fromLarge (a + b)) := by
  have hback := rounddown_large (wrapAdd wordCount a b)
  rw [fromLarge_wrapAdd] at hback
  have hadd := wrapAdd_cases ha (Nat.le_of_lt hb)
  have hadd' := wrapAdd_cases (b := b - fromLarge (a + b)) ha
    (Nat.le_of_lt (Nat.lt_of_le_of_lt (sub_le b _) hb))
  omega

lemma ends_lt_of_rounded (hb : b < wordCount) (hle : kLargePageSize ≤ b)
    (h : roundup a kLargePageSize < rounddown (wrapAdd wordCount a b) kLargePageSize) :
    toLarge a + fromLarge (a + b) < b := by
  have hback := rounddown_large (wrapAdd wordCount a b)
  rw [roundup_large ha] at h
  rw [fromLarge_wrapAdd] at hback
  have hadd := wrapAdd_cases ha (Nat.le_of_lt hb)
  have hnext := next_large_cases ha
  have hlt := toLarge_lt a
  omega

lemma next_large_eq_zero_iff :
    wrapAdd wordCount a (toLarge a) = 0 ↔ a = 0 ∨ wordCount - kLargePageSize < a := by
  have hnext := next_large_cases ha
  simp only [toLarge, wordCount, kLargePageSize] at *
  omega

end

/-! ## The parts -/

section

variable (hm : Fits m)

include hm

lemma ends_lt_size (h : isLargePageEligible m) :
    toLarge m.vaddr + fromLarge (m.vaddr + m.size) < m.size := by
  obtain ⟨hsize, hsame, hrounded⟩ := h
  have hback : fromLarge (m.paddr + m.size) = fromLarge (m.vaddr + m.size) :=
    ModEq.add_right m.size hsame
  rw [← toLarge_congr hsame, ← hback]
  exact ends_lt_of_rounded hm.paddr hm.size hsize hrounded

lemma head_size : (alignLargeRangeHead m).size = toLarge m.vaddr := by
  rw [alignLargeRangeHead, roundup_large hm.vaddr]
  exact wrapSub_wrapAdd hm.vaddr ((toLarge_lt _).trans (by decide))

lemma body_vaddr :
    (alignLargeRangeBody m).vaddr = wrapAdd wordCount m.vaddr (toLarge m.vaddr) :=
  roundup_large hm.vaddr

lemma body_paddr :
    (alignLargeRangeBody m).paddr = wrapAdd wordCount m.paddr (toLarge m.vaddr) := by
  rw [alignLargeRangeBody, roundup_large hm.vaddr]
  rw [wrapSub_wrapAdd hm.vaddr ((toLarge_lt _).trans (by decide))]

lemma body_size (h : isLargePageEligible m) :
    (alignLargeRangeBody m).size =
      m.size - toLarge m.vaddr - fromLarge (m.vaddr + m.size) := by
  have hends := ends_lt_size hm h
  have hs := hm.size
  -- The last large page is that many bytes behind the first one.
  have hlast : wrapAdd wordCount m.vaddr (m.size - fromLarge (m.vaddr + m.size)) =
      wrapAdd wordCount (wrapAdd wordCount m.vaddr (toLarge m.vaddr))
        (m.size - toLarge m.vaddr - fromLarge (m.vaddr + m.size)) := by
    rw [wrapAdd_wrapAdd]
    congr 1
    omega
  rw [alignLargeRangeBody, roundup_large hm.vaddr,
    rounddown_wrapAdd hm.vaddr hs (by omega), hlast]
  exact wrapSub_wrapAdd (wrapAdd_lt (by decide)) (by omega)

lemma tail_vaddr (h : isLargePageEligible m) : (alignLargeRangeTail m).vaddr =
    wrapAdd wordCount m.vaddr (m.size - fromLarge (m.vaddr + m.size)) := by
  have hends := ends_lt_size hm h
  exact rounddown_wrapAdd hm.vaddr hm.size (by omega)

end

lemma tail_size : (alignLargeRangeTail m).size = fromLarge (m.vaddr + m.size) := by
  have hback := rounddown_large (wrapAdd wordCount m.vaddr m.size)
  have hlt := wrapAdd_lt (w := wordCount) (a := m.vaddr) (b := m.size) (by decide)
  rw [fromLarge_wrapAdd] at hback
  rw [alignLargeRangeTail]
  dsimp only
  rw [wrapSub_of_le (by omega) hlt]
  omega

lemma tail_paddr (hm : Fits m) (h : isLargePageEligible m) : (alignLargeRangeTail m).paddr =
    wrapAdd wordCount m.paddr (m.size - fromLarge (m.vaddr + m.size)) := by
  have hends := ends_lt_size hm h
  have hsize := tail_size (m := m)
  rw [alignLargeRangeTail] at hsize ⊢
  dsimp only at hsize ⊢
  rw [hsize]
  exact wrapAdd_wrapSub hm.paddr hm.size (by omega)

structure PartAt (m : AddressMapping) (start : Nat) (part : AddressMapping) : Prop where
  vaddr : part.vaddr = wrapAdd wordCount m.vaddr start
  paddr : part.paddr = wrapAdd wordCount m.paddr start

lemma head_front (m : AddressMapping) : (alignLargeRangeHead m).vaddr = m.vaddr ∧
    (alignLargeRangeHead m).paddr = m.paddr := by
  rw [alignLargeRangeHead]
  exact ⟨rfl, rfl⟩

lemma head_part (hm : Fits m) : PartAt m 0 (alignLargeRangeHead m) := by
  rw [alignLargeRangeHead]
  constructor
  · rw [wrapAdd, Nat.add_zero, mod_eq_of_lt hm.vaddr]
  · rw [wrapAdd, Nat.add_zero, mod_eq_of_lt hm.paddr]

lemma body_part (hm : Fits m) : PartAt m (toLarge m.vaddr) (alignLargeRangeBody m) :=
  ⟨body_vaddr hm, body_paddr hm⟩

lemma tail_part (hm : Fits m) (h : isLargePageEligible m) :
    PartAt m (toLarge m.vaddr + (alignLargeRangeBody m).size) (alignLargeRangeTail m) := by
  have hends := ends_lt_size hm h
  have hstart : toLarge m.vaddr + (alignLargeRangeBody m).size =
      m.size - fromLarge (m.vaddr + m.size) := by
    rw [body_size hm h]
    omega
  rw [hstart]
  exact ⟨tail_vaddr hm h, tail_paddr hm h⟩

/-! ## What the parts map -/

lemma PartAt.maps_iff (hpart : PartAt m start part) : Maps part v p ↔
    ∃ i, start ≤ i ∧ i < start + part.size ∧ v = wrapAdd wordCount m.vaddr i ∧
      p = wrapAdd wordCount m.paddr i := by
  rw [Maps, hpart.vaddr, hpart.paddr]
  constructor
  · rintro ⟨i, hi, hv, hp⟩
    rw [wrapAdd_wrapAdd] at hv hp
    exact ⟨start + i, Nat.le_add_right _ _, Nat.add_lt_add_left hi start, hv, hp⟩
  · rintro ⟨i, hle, hlt, hv, hp⟩
    obtain ⟨j, rfl⟩ := Nat.exists_eq_add_of_le hle
    refine ⟨j, by omega, ?_, ?_⟩
    · rw [wrapAdd_wrapAdd, hv]
    · rw [wrapAdd_wrapAdd, hp]

lemma PartAt.apart {first second : AddressMapping} {i j : Nat} (hfirst : PartAt m i first)
    (hm : Fits m) (hsecond : PartAt m j second) (hle : i + first.size ≤ j)
    (hlast : j + second.size ≤ m.size) : ¬ (Maps first v p ∧ Maps second v q) := by
  have hword := hm.size
  rw [hfirst.maps_iff, hsecond.maps_iff]
  rintro ⟨⟨k, hk, hk', hv, -⟩, l, hl, hl', hv', -⟩
  have heq := offset_unique (by omega) (by omega) (hv.symm.trans hv')
  omega

structure Splits (m head body tail : AddressMapping) : Prop where
  head_front : head.vaddr = m.vaddr ∧ head.paddr = m.paddr
  body_next : body.vaddr = wrapAdd wordCount head.vaddr head.size ∧
    body.paddr = wrapAdd wordCount head.paddr head.size
  tail_next : tail.vaddr = wrapAdd wordCount body.vaddr body.size ∧
    tail.paddr = wrapAdd wordCount body.paddr body.size
  sizes : head.size + body.size + tail.size = m.size
  cover : ∀ v p, Maps m v p ↔ Maps head v p ∨ Maps body v p ∨ Maps tail v p
  apart : ∀ v p q, ¬ (Maps head v p ∧ Maps body v q) ∧ ¬ (Maps body v p ∧ Maps tail v q) ∧
    ¬ (Maps head v p ∧ Maps tail v q)
  aligned : kLargePageSize ∣ body.vaddr ∧ kLargePageSize ∣ body.paddr ∧ kLargePageSize ∣ body.size
  body_size : body.size ≠ 0
  body_vaddr : body.vaddr = 0 ↔ m.vaddr = 0 ∨ wordCount - kLargePageSize < m.vaddr
  body_paddr : body.paddr = 0 ↔ m.paddr = 0 ∨ wordCount - kLargePageSize < m.paddr
  ends : head.size < kLargePageSize ∧ tail.size < kLargePageSize

section

variable (hm : Fits m) (h : isLargePageEligible m)

include hm h

lemma parts_sizes :
    (alignLargeRangeHead m).size + (alignLargeRangeBody m).size + (alignLargeRangeTail m).size =
      m.size := by
  have hends := ends_lt_size hm h
  rw [head_size hm, body_size hm h, tail_size]
  omega

lemma body_aligned :
    kLargePageSize ∣ (alignLargeRangeBody m).vaddr ∧
      kLargePageSize ∣ (alignLargeRangeBody m).paddr ∧
      kLargePageSize ∣ (alignLargeRangeBody m).size := by
  have hends := ends_lt_size hm h
  have hfront := dvd_add_toLarge m.vaddr
  rw [body_vaddr hm, body_paddr hm, body_size hm h]
  refine ⟨dvd_wrapAdd hfront, dvd_wrapAdd ?_, ?_⟩
  · rw [← toLarge_congr h.2.1]
    exact dvd_add_toLarge m.paddr
  · have hback := div_add_mod (m.vaddr + m.size) kLargePageSize
    have hsum : m.vaddr + toLarge m.vaddr +
        (m.size - toLarge m.vaddr - fromLarge (m.vaddr + m.size)) =
          kLargePageSize * ((m.vaddr + m.size) / kLargePageSize) := by
      rw [fromLarge] at *
      omega
    exact (Nat.dvd_add_right hfront).1 (hsum ▸ Nat.dvd_mul_right ..)

lemma parts_cover : Maps m v p ↔
    Maps (alignLargeRangeHead m) v p ∨ Maps (alignLargeRangeBody m) v p ∨
      Maps (alignLargeRangeTail m) v p := by
  have hsizes := parts_sizes hm h
  rw [(head_part hm).maps_iff, (body_part hm).maps_iff, (tail_part hm h).maps_iff]
  rw [head_size hm] at hsizes ⊢
  constructor
  · rintro ⟨i, hi, hv, hp⟩
    by_cases h1 : i < toLarge m.vaddr
    · exact .inl ⟨i, Nat.zero_le i, by omega, hv, hp⟩
    · by_cases h2 : i < toLarge m.vaddr + (alignLargeRangeBody m).size
      · exact .inr (.inl ⟨i, by omega, h2, hv, hp⟩)
      · exact .inr (.inr ⟨i, by omega, by omega, hv, hp⟩)
  · rintro (⟨i, hi, hi', hv, hp⟩ | ⟨i, hi, hi', hv, hp⟩ | ⟨i, hi, hi', hv, hp⟩) <;>
      exact ⟨i, by omega, hv, hp⟩

lemma parts_apart :
    ¬ (Maps (alignLargeRangeHead m) v p ∧ Maps (alignLargeRangeBody m) v q) ∧
      ¬ (Maps (alignLargeRangeBody m) v p ∧ Maps (alignLargeRangeTail m) v q) ∧
        ¬ (Maps (alignLargeRangeHead m) v p ∧ Maps (alignLargeRangeTail m) v q) := by
  have hsizes := parts_sizes hm h
  have hhead := head_size hm
  refine ⟨?_, ?_, ?_⟩
  · exact (head_part hm).apart hm (body_part hm) (by omega) (by omega)
  · exact (body_part hm).apart hm (tail_part hm h) (Nat.le_refl _) (by omega)
  · exact (head_part hm).apart hm (tail_part hm h) (by omega) (by omega)

end

/-- A mapping that is eligible is split into head, body and tail. -/
theorem large_range_splits (hm : Fits m) (h : isLargePageEligible m) :
    Splits m (alignLargeRangeHead m) (alignLargeRangeBody m) (alignLargeRangeTail m) := by
  have hends := ends_lt_size hm h
  have hhead := head_size hm
  have hbody := body_size hm h
  refine ⟨head_front m, ?_, ?_, parts_sizes hm h, fun v p => parts_cover hm h,
    fun v p q => parts_apart hm h, body_aligned hm h, by omega, ?_, ?_, ?_⟩
  · rw [hhead, (head_front m).1, (head_front m).2]
    exact ⟨body_vaddr hm, body_paddr hm⟩
  · rw [(tail_part hm h).vaddr, (tail_part hm h).paddr, (body_part hm).vaddr, (body_part hm).paddr,
      wrapAdd_wrapAdd, wrapAdd_wrapAdd]
    exact ⟨rfl, rfl⟩
  · rw [body_vaddr hm]
    exact next_large_eq_zero_iff hm.vaddr
  · rw [body_paddr hm, ← toLarge_congr h.2.1]
    exact next_large_eq_zero_iff hm.paddr
  · rw [hhead, tail_size]
    exact ⟨toLarge_lt _, fromLarge_lt _⟩

def straddling : AddressMapping := ⟨0x3FF000, 0x1FF000, 0x402000⟩

theorem large_range_splits_straddling : Fits straddling ∧ isLargePageEligible straddling ∧
    Splits straddling (alignLargeRangeHead straddling) (alignLargeRangeBody straddling)
      (alignLargeRangeTail straddling) := by
  have hfits : Fits straddling := ⟨by decide, by decide, by decide⟩
  have heligible : isLargePageEligible straddling := by decide
  exact ⟨hfits, heligible, large_range_splits hfits heligible⟩

/-- The first large page of physical memory is at the address 0. -/
theorem first_large_page_at_zero : isLargePageEligible ⟨0x200000, 0, 0x200000⟩ ∧
    (alignLargeRangeBody ⟨0x200000, 0, 0x200000⟩).paddr = 0 := by
  constructor <;> decide

end detail
end km
end BezOS
