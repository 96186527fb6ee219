import Mathlib.Data.List.Induction
import Mathlib.Data.List.Pairwise
import BezOS.Memory.ControlBlock

/-!
# The sort of the free list

`QuicksortInner` works on the links alone. Its pieces are lists whose first back link may be
stale, so every statement here is about `Linked` lists. The one place where a second stale link
comes in is the list `addMemory` hands over, whose old head does not point back at the new block;
`Partition` reads that link before anything was put in front of it, and it is null there.
-/

namespace BezOS
namespace BlockMemory

open Lib Function Linked List Option

variable {m m' m'' : BlockMemory} {P Q : List Nat} {a p b g : Nat} {l : List Nat}

/-- `m'` is `m` with other links in the blocks of `P`. -/
structure Relinks (P : List Nat) (m m' : BlockMemory) : Prop where
  size : m'.size = m.size
  slide : m'.slide = m.slide
  next : ∀ a ∉ P, m'.next a = m.next a
  prev : ∀ a ∉ P, m'.prev a = m.prev a

namespace Relinks

lemma refl (P : List Nat) (m : BlockMemory) : Relinks P m m :=
  ⟨rfl, rfl, fun _ _ => rfl, fun _ _ => rfl⟩

section

variable (h : Relinks P m m')

include h

lemma mono (hPQ : P ⊆ Q) : Relinks Q m m' where
  size := h.size
  slide := h.slide
  next a ha := h.next a fun hP => ha (hPQ hP)
  prev a ha := h.prev a fun hP => ha (hPQ hP)

lemma trans (h' : Relinks P m' m'') : Relinks P m m'' where
  size := h'.size.trans h.size
  slide := h'.slide.trans h.slide
  next a ha := (h'.next a ha).trans (h.next a ha)
  prev a ha := (h'.prev a ha).trans (h.prev a ha)

lemma setNext (ha : a ∈ P) (x : Nat) : Relinks P m (m'.setNext a x) where
  size := h.size
  slide := h.slide
  next b hb := by
    have hne : b ≠ a := fun heq => hb (heq ▸ ha)
    simpa [update_of_ne hne] using h.next b hb
  prev := h.prev

lemma setPrev (ha : a ∈ P) (x : Nat) : Relinks P m (m'.setPrev a x) where
  size := h.size
  slide := h.slide
  next := h.next
  prev b hb := by
    have hne : b ≠ a := fun heq => hb (heq ▸ ha)
    simpa [update_of_ne hne] using h.prev b hb

lemma linked (hl : Linked m.next m.prev p l) (hP : ∀ a ∈ l, a ∉ P) :
    Linked m'.next m'.prev p l :=
  hl.congr (fun a ha => h.next a (hP a ha)) fun a ha => h.prev a (hP a (mem_of_mem_tail ha))

end

end Relinks

/-! ## Partition -/

lemma removeBlock_next :
    (m.removeBlock b).next =
      if m.prev b ≠ 0 then update m.next (m.prev b) (m.next b) else m.next := by
  simp only [removeBlock]
  split <;> split <;> rfl

lemma removeBlock_prev (hb : m.prev b ≠ b) :
    (m.removeBlock b).prev =
      if m.next b ≠ 0 then update m.prev (m.next b) (m.prev b) else m.prev := by
  have hnext : ∀ x, update m.next (m.prev b) x b = m.next b :=
    fun x => update_of_ne (Ne.symm hb) _ _
  unfold removeBlock
  by_cases hprev : m.prev b ≠ 0
  · simp only [if_pos hprev, setNext_next, setNext_prev, hnext]
    split <;> rfl
  · simp only [if_neg hprev]
    split <;> rfl

lemma removeBlock_size : (m.removeBlock b).size = m.size := by
  simp only [removeBlock]
  split <;> split <;> rfl

lemma removeBlock_slide : (m.removeBlock b).slide = m.slide := by
  simp only [removeBlock]
  split <;> split <;> rfl

lemma removeBlock_relinks (hb : m.prev b ≠ b) (hprev : m.prev b = 0 ∨ m.prev b ∈ P)
    (hnext : m.next b = 0 ∨ m.next b ∈ P) : Relinks P m (m.removeBlock b) where
  size := removeBlock_size
  slide := removeBlock_slide
  next a ha := by
    rw [removeBlock_next]
    split
    · rename_i h
      rw [update_of_ne]
      rintro rfl
      exact ha (hprev.resolve_left h)
    · rfl
  prev a ha := by
    rw [removeBlock_prev hb]
    split
    · rename_i h
      rw [update_of_ne]
      rintro rfl
      exact ha (hnext.resolve_left h)
    · rfl

lemma moveGreater_relinks (h : Relinks P m (m.removeBlock b)) (hb : b ∈ P) (hg : g = 0 ∨ g ∈ P) :
    Relinks P m (m.moveGreater b g) := by
  simp only [moveGreater]
  split
  · exact (h.setNext hb 0).setPrev hb 0
  · rename_i hne
    exact ((h.setNext hb g).setPrev (hg.resolve_left hne) b).setPrev hb 0

lemma moveGreater_next :
    (m.moveGreater b g).next = update (m.removeBlock b).next b g := by
  by_cases hg : g = 0 <;> simp [moveGreater, hg]

lemma moveGreater_prev :
    (m.moveGreater b g).prev =
      update (if g = 0 then (m.removeBlock b).prev
        else update (m.removeBlock b).prev g b) b 0 := by
  by_cases hg : g = 0 <;> simp [moveGreater, hg]

lemma moveGreater_next_of_ne (ha : a ≠ b) (hprev : a ≠ m.prev b) :
    (m.moveGreater b g).next a = m.next a := by
  rw [moveGreater_next, update_of_ne ha, removeBlock_next]
  split
  · exact update_of_ne hprev _ _
  · rfl

lemma moveGreater_prev_of_ne (hb : m.prev b ≠ b) (ha : a ≠ b) (hnext : a ≠ m.next b) (hg : a ≠ g) :
    (m.moveGreater b g).prev a = m.prev a := by
  have hremove : (m.removeBlock b).prev a = m.prev a := by
    rw [removeBlock_prev hb]
    split
    · exact update_of_ne hnext _ _
    · rfl
  rw [moveGreater_prev, update_of_ne ha]
  split
  · exact hremove
  · rw [update_of_ne hg, hremove]

/-- Between two rounds of the loop: `ls` is gathered in `lte`, `gs` in `result` and `rest` is to
come. -/
structure Partitioning (m : BlockMemory) (p : Nat) (ls rest gs : List Nat) : Prop where
  nodup : (p :: (ls ++ rest ++ gs)).Nodup
  ne_zero : 0 ∉ p :: (ls ++ rest ++ gs)
  /-- The next block points back at the last one kept, or at the pivot, or nowhere. -/
  back : ∀ b ∈ rest.head?, m.prev b = ls.getLastD p ∨ (ls = [] ∧ m.prev b = 0)
  linkedLte : Linked m.next m.prev (rest.headD 0) ls
  linkedRest : Linked m.next m.prev 0 rest
  linkedGt : Linked m.next m.prev 0 gs

namespace Partitioning

variable {b : Nat} {ls r gs : List Nat}

section

variable (h : Partitioning m p ls (b :: r) gs)

include h

lemma keep : Partitioning m p (ls ++ [b]) r gs where
  nodup := by simpa using h.nodup
  ne_zero := by simpa using h.ne_zero
  back := by
    intro c hc
    left
    simpa using h.linkedRest.2.1 c hc
  linkedLte := by
    rw [append_iff]
    refine ⟨by simpa using h.linkedLte, ?_, by simpa using h.linkedRest.next_head⟩
    intro a ha b' hb'
    obtain rfl : b = b' := by simpa using hb'
    rcases h.back b (by simp) with hprev | ⟨rfl, -⟩
    · rw [hprev, getLastD_eq_getLast?, ha, getD_some]
    · cases ha
  linkedRest := h.linkedRest.tail
  linkedGt := h.linkedGt

lemma prev_mem :
    m.prev b = 0 ∨ m.prev b ∈ p :: ls := by
  rcases h.back b (by simp) with hprev | ⟨-, hprev⟩
  · right
    rw [hprev]
    cases ls with
    | nil => simp
    | cons c ls =>
      rw [getLastD_cons]
      exact mem_cons_of_mem _ (getLastD_mem_cons ..)
  · exact .inl hprev

lemma prev_ne : m.prev b ≠ b := by
  have hnodup := h.nodup
  have hzero := h.ne_zero
  rcases h.prev_mem with hprev | hprev
  · rw [hprev]
    rintro rfl
    simp at hzero
  · intro heq
    simp [nodup_append] at hnodup hprev
    grind

lemma apart :
    (p ∉ ls ∧ p ≠ b ∧ p ∉ r ∧ p ∉ gs) ∧ (ls.Nodup ∧ r.Nodup ∧ gs.Nodup) ∧
      (b ∉ ls ∧ b ∉ r ∧ b ∉ gs) ∧
      (∀ a ∈ ls, a ∉ r) ∧ (∀ a ∈ ls, a ∉ gs) ∧ ∀ a ∈ r, a ∉ gs := by
  have hnodup := h.nodup
  simp only [nodup_cons, nodup_append, mem_append, mem_cons] at hnodup
  grind

lemma nonzero :
    p ≠ 0 ∧ b ≠ 0 ∧ (∀ a ∈ ls, a ≠ 0) ∧ (∀ a ∈ r, a ≠ 0) ∧ ∀ a ∈ gs, a ≠ 0 := by
  have hzero := h.ne_zero
  grind

lemma move_next (hb : a ≠ b) (ha : a ≠ 0) (hmem : a ∉ p :: ls) :
    (m.moveGreater b (gs.headD 0)).next a = m.next a := by
  apply moveGreater_next_of_ne hb
  rintro rfl
  exact h.prev_mem.elim ha hmem

end

lemma ne_headD {l : List Nat} (ha : a ≠ 0) (hl : a ∉ l) : a ≠ l.headD 0 := by
  cases l <;> simp_all

section

variable (h : Partitioning m p ls (b :: r) gs)

include h

lemma move_prev (hb : a ≠ b) (ha : a ≠ 0) (hr : a ∉ r.head?) (hgs : a ∉ gs.head?) :
    (m.moveGreater b (gs.headD 0)).prev a = m.prev a := by
  apply moveGreater_prev_of_ne h.prev_ne hb
  · rw [h.linkedRest.next_head]
    cases r <;> simp_all [Ne.symm]
  · cases gs <;> simp_all [Ne.symm]

lemma move_lte :
    Linked (m.moveGreater b (gs.headD 0)).next (m.moveGreater b (gs.headD 0)).prev
      (r.headD 0) ls := by
  obtain ⟨⟨hpls, -, -, -⟩, ⟨hls, -, -⟩, ⟨hbls, -, -⟩, hlsr, hlsgs, -⟩ := h.apart
  obtain ⟨-, hb0, hls0, -, -⟩ := h.nonzero
  have hprev : ∀ a ∈ ls, (m.moveGreater b (gs.headD 0)).prev a = m.prev a := by
    intro a ha
    apply h.move_prev (by grind) (hls0 a ha)
    · exact fun hr => hlsr a ha (mem_of_mem_head? hr)
    · exact fun hgs => hlsgs a ha (mem_of_mem_head? hgs)
  rcases eq_nil_or_concat ls with rfl | ⟨init, z, rfl⟩
  · trivial
  · -- `z` is the block before `b`, and now points behind it
    have hz : m.prev b = z := by
      rcases h.back b (by simp) with hback | ⟨hnil, -⟩
      · simpa using hback
      · simp at hnil
    have hz0 : z ≠ 0 := hls0 z (by simp)
    have hnextz : (m.moveGreater b (gs.headD 0)).next z = r.headD 0 := by
      have hzb : z ≠ b := by grind
      rw [moveGreater_next, update_of_ne hzb, removeBlock_next, hz, if_pos hz0,
        update_self, h.linkedRest.next_head]
    have hlte := h.linkedLte
    rw [concat_eq_append] at hlte hprev ⊢
    obtain ⟨hinit, hseam, -⟩ := append_iff.1 hlte
    refine append_iff.2 ⟨?_, ?_, by simpa using hnextz⟩
    · refine hinit.congr ?_ ?_
      · intro a ha
        have hne : a ≠ z := by
          rintro rfl
          simp [nodup_append] at hls
          exact hls.2 _ ha rfl
        apply moveGreater_next_of_ne (by grind)
        rwa [hz]
      · exact fun a ha => hprev a (mem_append_left _ (mem_of_mem_tail ha))
    · intro a ha c hc
      obtain rfl : z = c := by simpa using hc
      rw [hprev z (by simp)]
      exact hseam a ha z (by simp)

lemma move_rest :
    Linked (m.moveGreater b (gs.headD 0)).next (m.moveGreater b (gs.headD 0)).prev 0 r := by
  obtain ⟨⟨-, -, hpr, -⟩, ⟨-, hr, -⟩, ⟨-, hbr, -⟩, hlsr, -, hrgs⟩ := h.apart
  obtain ⟨-, -, -, hr0, -⟩ := h.nonzero
  refine h.linkedRest.tail.congr ?_ ?_
  · intro a ha
    exact h.move_next (by grind) (hr0 a ha) (by grind)
  · intro a ha
    have har : a ∈ r := mem_of_mem_tail ha
    apply h.move_prev (by grind) (hr0 a har)
    · cases r <;> grind
    · exact fun hgs => hrgs a har (mem_of_mem_head? hgs)

lemma move_gt :
    Linked (m.moveGreater b (gs.headD 0)).next (m.moveGreater b (gs.headD 0)).prev 0
      (b :: gs) := by
  obtain ⟨⟨-, -, -, hpgs⟩, ⟨-, -, hgs⟩, ⟨-, -, hbgs⟩, -, hlsgs, hrgs⟩ := h.apart
  obtain ⟨-, -, -, -, hgs0⟩ := h.nonzero
  refine ⟨?_, ?_, ?_⟩
  · rw [moveGreater_next, update_self]
  · intro c hc
    have hcgs : c ∈ gs := mem_of_mem_head? hc
    have hhead : gs.headD 0 = c := by
      rw [headD_eq_head?_getD, hc, getD_some]
    have hcb : c ≠ b := by grind
    rw [hhead, moveGreater_prev, if_neg (hgs0 c hcgs), update_of_ne hcb,
      update_self]
  · refine h.linkedGt.congr ?_ ?_
    · intro a ha
      exact h.move_next (by grind) (hgs0 a ha) (by grind)
    · intro a ha
      have hags : a ∈ gs := mem_of_mem_tail ha
      apply h.move_prev (by grind) (hgs0 a hags)
      · exact fun hr => hrgs a (mem_of_mem_head? hr) hags
      · cases gs <;> grind

lemma move_back {c : Nat} (hc : c ∈ r.head?) :
    (m.moveGreater b (gs.headD 0)).prev c = m.prev b := by
  obtain ⟨-, -, ⟨-, hbr, -⟩, -, -, hrgs⟩ := h.apart
  obtain ⟨-, -, -, hr0, -⟩ := h.nonzero
  have hcr : c ∈ r := mem_of_mem_head? hc
  have hnext : m.next b = c := by
    rw [h.linkedRest.next_head, headD_eq_head?_getD, hc, getD_some]
  have hremove : (m.removeBlock b).prev c = m.prev b := by
    rw [removeBlock_prev h.prev_ne, hnext, if_pos (hr0 c hcr), update_self]
  have hcb : c ≠ b := by grind
  rw [moveGreater_prev, update_of_ne hcb]
  split
  · exact hremove
  · rw [update_of_ne (ne_headD (hr0 c hcr) (hrgs c hcr)), hremove]

lemma move :
    Partitioning (m.moveGreater b (gs.headD 0)) p ls r (b :: gs) := by
  have hperm : (p :: (ls ++ r ++ b :: gs)).Perm (p :: (ls ++ b :: r ++ gs)) := by
    refine Perm.cons _ ?_
    rw [append_assoc, append_assoc]
    exact Perm.append_left _ perm_middle
  refine ⟨hperm.nodup_iff.2 h.nodup, fun hmem => h.ne_zero (hperm.mem_iff.1 hmem), ?_,
    h.move_lte, h.move_rest, h.move_gt⟩
  intro c hc
  rw [h.move_back hc]
  exact h.back b (by simp)

lemma move_relinks :
    Relinks (p :: (ls ++ b :: r ++ gs)) m (m.moveGreater b (gs.headD 0)) := by
  apply moveGreater_relinks
  · apply removeBlock_relinks h.prev_ne
    · have hmem := h.prev_mem
      simp only [mem_cons, mem_append] at hmem ⊢
      tauto
    · rw [h.linkedRest.next_head]
      cases r <;> simp
  · simp
  · cases gs <;> simp

end

lemma loop {fuel : Nat} {rest : List Nat} (h : Partitioning m p ls rest gs)
    (hfuel : rest.length < fuel) :
    ∃ m', partitionLoop p fuel m (rest.headD 0) (ls.headD 0) (gs.headD 0) =
        some (m', (ls ++ rest.filter (· ≤ p)).headD 0,
          ((rest.filter (p < ·)).reverse ++ gs).headD 0) ∧
      Partitioning m' p (ls ++ rest.filter (· ≤ p)) [] ((rest.filter (p < ·)).reverse ++ gs) ∧
      Relinks (p :: (ls ++ rest ++ gs)) m m' := by
  induction rest generalizing fuel m ls gs with
  | nil =>
    obtain ⟨fuel, rfl⟩ : ∃ k, fuel = k + 1 := ⟨fuel - 1, by omega⟩
    exact ⟨m, by simp [partitionLoop], by simpa using h, Relinks.refl _ _⟩
  | cons b r ih =>
    obtain ⟨fuel, rfl⟩ : ∃ k, fuel = k + 1 := ⟨fuel - 1, by omega⟩
    have hlength : r.length < fuel := by simpa using hfuel
    have hb0 : b ≠ 0 := h.nonzero.2.1
    have hnext : m.next b = r.headD 0 := h.linkedRest.next_head
    by_cases hb : p < b
    · obtain ⟨m', hrun, hdone, hlinks⟩ := ih h.move hlength
      have hle : ¬ b ≤ p := by omega
      refine ⟨m', ?_, ?_, h.move_relinks.trans (hlinks.mono ?_)⟩
      · simp only [headD_cons, partitionLoop, if_neg hb0, if_pos hb, hnext]
        simpa [hb, hle] using hrun
      · simpa [hb, hle] using hdone
      · intro a
        simp only [mem_cons, mem_append]
        tauto
    · obtain ⟨m', hrun, hdone, hlinks⟩ := ih h.keep hlength
      have hle : b ≤ p := by omega
      have hlte : (if ls.headD 0 = 0 then b else ls.headD 0) = (ls ++ [b]).headD 0 := by
        cases ls with
        | nil => simp
        | cons c ls => simp [h.nonzero.2.2.1 c]
      refine ⟨m', ?_, ?_, hlinks.mono ?_⟩
      · simp only [headD_cons, partitionLoop, if_neg hb0, if_neg hb, hnext, hlte]
        simpa [hb, hle] using hrun
      · simpa [hb, hle] using hdone
      · intro a
        simp only [mem_cons, mem_append]
        tauto

end Partitioning

/-! ## Joining -/

lemma joinGreater {mid : Nat} {gs : List Nat} (hnodup : (mid :: gs).Nodup)
    (hzero : 0 ∉ mid :: gs) (hgs : Linked m.next m.prev 0 gs) :
    ∃ m', (if gs.headD 0 = 0 then ((m.setNext mid 0).setPrev mid 0, mid)
        else (((m.setNext mid (gs.headD 0)).setPrev mid 0).setPrev (gs.headD 0) mid,
          gs.getLastD 0)) = (m', (mid :: gs).getLastD 0) ∧
      Linked m'.next m'.prev 0 (mid :: gs) ∧ Relinks (mid :: gs) m m' := by
  cases gs with
  | nil =>
    refine ⟨(m.setNext mid 0).setPrev mid 0, by simp, by simp, ?_⟩
    exact ((Relinks.refl _ m).setNext (by simp) 0).setPrev (by simp) 0
  | cons g gs =>
    simp only [mem_cons, nodup_cons, not_or] at hnodup hzero
    obtain ⟨⟨hmg, hmgs⟩, hggs, -⟩ := hnodup
    have hg0 : g ≠ 0 := Ne.symm hzero.2.1
    refine ⟨((m.setNext mid g).setPrev mid 0).setPrev g mid, by simp [hg0], ?_, ?_⟩
    · rw [cons_cons_iff]
      refine ⟨by simp, by simp, ?_⟩
      apply update_prev
      · apply update_prev
        · exact hgs.update_next (by simp [hmg, hmgs]) g
        · simpa using hmgs
      · simpa using hggs
    · exact (((Relinks.refl _ m).setNext (by simp) g).setPrev (by simp) 0).setPrev (by simp) mid

lemma joinSorted_spec {mid : Nat} {ls gs : List Nat} (hnodup : (ls ++ mid :: gs).Nodup)
    (hzero : 0 ∉ ls ++ mid :: gs) (hls : Linked m.next m.prev 0 ls)
    (hgs : Linked m.next m.prev 0 gs) :
    ∃ m', m.joinSorted (ls.headD 0) (ls.getLastD 0) mid (gs.headD 0) (gs.getLastD 0) =
        (m', (ls ++ mid :: gs).headD 0, (ls ++ mid :: gs).getLastD 0) ∧
      Linked m'.next m'.prev 0 (ls ++ mid :: gs) ∧ Relinks (ls ++ mid :: gs) m m' := by
  obtain ⟨hlsNodup, hmidNodup, hapart⟩ := nodup_append.1 hnodup
  simp only [mem_append, not_or] at hzero
  obtain ⟨m1, hjoin, hlinked, hrel⟩ := joinGreater hmidNodup hzero.2 hgs
  have hlinks : Relinks (ls ++ mid :: gs) m m1 := hrel.mono (subset_append_right ..)
  have hls1 : Linked m1.next m1.prev 0 ls := by
    refine hrel.linked hls ?_
    intro a ha hmem
    exact hapart a ha a hmem rfl
  unfold joinSorted
  rw [hjoin]
  rcases eq_nil_or_concat ls with rfl | ⟨init, z, rfl⟩
  · exact ⟨m1, by simp, hlinked, hlinks⟩
  · rw [concat_eq_append] at *
    have hhead : (init ++ [z]).headD 0 ≠ 0 := by
      intro h
      apply hzero.1
      cases init <;> simp_all
    have hlast : (init ++ [z]).getLastD 0 = z := getLastD_concat
    have hlast' : (init ++ [z] ++ mid :: gs).getLastD 0 = (mid :: gs).getLastD 0 := by
      simp [getLast?_append, getLast?_cons]
    have hhead' : (init ++ [z] ++ mid :: gs).headD 0 = (init ++ [z]).headD 0 := by
      cases init <;> simp
    refine ⟨(m1.setNext z mid).setPrev mid z, ?_, ?_, ?_⟩
    · simp only [if_neg hhead, hlast, hlast', hhead']
    · have hz : z ∉ mid :: gs := fun hmem => hapart z (by simp) z hmem rfl
      have hmid : mid ∉ init ++ [z] := fun hmem => hapart mid hmem mid (by simp) rfl
      refine append_iff.2 ⟨?_, by simp, ?_⟩
      · -- the last block of `ls` points at `mid` now, the others are as they were
        apply update_prev _ (fun hmem => hmid (mem_of_mem_tail hmem))
        obtain ⟨hinit, hseam, -⟩ := append_iff.1 hls1
        refine append_iff.2 ⟨hinit.update_next ?_ mid, hseam, by simp⟩
        intro hmem
        exact (nodup_append.1 hlsNodup).2.2 z hmem z (by simp) rfl
      · apply update_prev _ (by simpa using (nodup_cons.1 hmidNodup).1)
        exact hlinked.update_next hz mid
    · exact (hlinks.setNext (by simp) mid).setPrev (by simp) z

/-! ## Quicksort -/

/-- A list whose first back link is open and whose second may be null. -/
def AlmostLinked (m : BlockMemory) : List Nat → Prop
  | [] => True
  | p :: rest => m.next p = rest.headD 0 ∧ Partitioning m p [] rest []

lemma AlmostLinked.of_linked {l : List Nat} (h : Linked m.next m.prev 0 l) (hnodup : l.Nodup)
    (hzero : 0 ∉ l) : AlmostLinked m l := by
  cases l with
  | nil => trivial
  | cons p rest =>
    refine ⟨h.next_head, by simpa using hnodup, by simpa using hzero, ?_, trivial, h.tail, trivial⟩
    intro b hb
    left
    simpa using h.2.1 b hb

lemma quicksortInner_spec {fuel : Nat} {l : List Nat} (h : AlmostLinked m l)
    (hfuel : l.length < fuel) :
    ∃ m' l', quicksortInner fuel m (l.headD 0) = some (m', l'.headD 0, l'.getLastD 0) ∧
      l'.Perm l ∧ l'.Pairwise (· < ·) ∧ Linked m'.next m'.prev 0 l' ∧ Relinks l m m' := by
  induction fuel generalizing m l with
  | zero => omega
  | succ fuel ih =>
    match l, h with
    | [], _ =>
      exact ⟨m, [], by simp [quicksortInner], Perm.refl _, List.Pairwise.nil, trivial,
        Relinks.refl _ _⟩
    | [p], h =>
      have hp : p ≠ 0 := by simpa [eq_comm] using h.2.ne_zero
      have hnext : m.next p = 0 := by simpa using h.1
      exact ⟨m, [p], by simp [quicksortInner, hp, hnext], Perm.refl _, by simp, by simp [hnext],
        Relinks.refl _ _⟩
    | p :: q :: rest, h =>
      obtain ⟨hnext, hpart⟩ := h
      have hlength : (q :: rest).length < fuel := by simpa using hfuel
      obtain ⟨m1, hrun, hdone, hrel1⟩ := hpart.loop (Nat.lt_succ_of_lt hlength)
      generalize hls : (q :: rest).filter (· ≤ p) = ls at hrun hdone
      generalize hgs : ((q :: rest).filter (p < ·)).reverse = gs at hrun hdone
      have hlsLength : ls.length < fuel := by
        rw [← hls]
        exact lt_of_le_of_lt (length_filter_le ..) hlength
      have hgsLength : gs.length < fuel := by
        rw [← hgs, length_reverse]
        exact lt_of_le_of_lt (length_filter_le ..) hlength
      have hcut : (ls ++ p :: gs).Perm (p :: q :: rest) := by
        refine perm_middle.trans (Perm.cons p ?_)
        have hfilter : (q :: rest).filter (p < ·) = (q :: rest).filter (fun a => ! (a ≤ p : Bool)) :=
          filter_congr fun a _ => by
            rw [← decide_not]
            exact decide_eq_decide.2 not_le.symm
        rw [← hls, ← hgs]
        refine (Perm.append_left _ (reverse_perm _)).trans ?_
        rw [hfilter]
        exact filter_append_perm _ _
      have hnodup : (ls ++ p :: gs).Nodup := by
        rw [perm_middle.nodup_iff]
        simpa using hdone.nodup
      have hzero : 0 ∉ ls ++ p :: gs := by
        have hzero := hdone.ne_zero
        simp only [mem_cons, mem_append] at hzero ⊢
        tauto
      obtain ⟨hlsNodup, hgsNodup, hapart⟩ := nodup_append.1 hnodup
      -- the two halves share no block, so that sorting one leaves the other as it is
      obtain ⟨m2, ls', hsort2, hperm2, hsorted2, hlinked2, hrel2⟩ :=
        ih (AlmostLinked.of_linked (by simpa using hdone.linkedLte) hlsNodup
          (fun hmem => hzero (mem_append_left _ hmem))) hlsLength
      have hgs2 : Linked m2.next m2.prev 0 gs := by
        refine hrel2.linked (by simpa using hdone.linkedGt) ?_
        intro a ha hmem
        exact hapart a hmem a (mem_cons_of_mem _ ha) rfl
      obtain ⟨m3, gs', hsort3, hperm3, hsorted3, hlinked3, hrel3⟩ :=
        ih (AlmostLinked.of_linked hgs2 (nodup_cons.1 hgsNodup).2
          (fun hmem => hzero (mem_append_right _ (mem_cons_of_mem _ hmem)))) hgsLength
      have hls3 : Linked m3.next m3.prev 0 ls' := by
        refine hrel3.linked hlinked2 ?_
        intro a ha hmem
        exact hapart a (hperm2.mem_iff.1 ha) a (mem_cons_of_mem _ hmem) rfl
      have hperm : (ls' ++ p :: gs').Perm (ls ++ p :: gs) := hperm2.append (hperm3.cons p)
      obtain ⟨m4, hjoin, hlinked, hrel4⟩ :=
        joinSorted_spec (hperm.nodup_iff.2 hnodup) (fun hmem => hzero (hperm.mem_iff.1 hmem))
          hls3 hlinked3
      have hlte : ∀ a ∈ ls', a < p := by
        intro a ha
        have hmem : a ∈ ls := hperm2.mem_iff.1 ha
        have hne : a ≠ p := fun heq => hapart a hmem p (by simp) heq
        rw [← hls, mem_filter] at hmem
        exact lt_of_le_of_ne (by simpa using hmem.2) hne
      have hgt : ∀ a ∈ gs', p < a := by
        intro a ha
        have hmem : a ∈ gs := hperm3.mem_iff.1 ha
        rw [← hgs, mem_reverse, mem_filter] at hmem
        simpa using hmem.2
      have hlsSub : ls ⊆ p :: q :: rest := fun a ha => hcut.subset (mem_append_left _ ha)
      have hgsSub : gs ⊆ p :: q :: rest :=
        fun a ha => hcut.subset (mem_append_right _ (mem_cons_of_mem _ ha))
      refine ⟨m4, ls' ++ p :: gs', ?_, hperm.trans hcut, ?_, hlinked, ?_⟩
      · have hp : p ≠ 0 := fun heq => hzero (by simp [heq])
        have hq : q ≠ 0 := hpart.nonzero.2.1
        have hpq : m.next p = q := by simpa using hnext
        have hpartition : m.partition (fuel + 1) p = some (m1, ls.headD 0, gs.headD 0) := by
          rw [partition, if_neg hp, hnext]
          simpa using hrun
        simp only [quicksortInner, headD_cons, if_neg hp, hpq, if_neg hq, hpartition,
          bind_eq_bind, bind_some, hsort2, hsort3, hjoin]
        rfl
      · rw [pairwise_append]
        refine ⟨hsorted2, pairwise_cons.2 ⟨hgt, hsorted3⟩, ?_⟩
        intro a ha b hb
        rcases mem_cons.1 hb with rfl | hb
        · exact hlte a ha
        · exact (hlte a ha).trans (hgt b hb)
      · have hrel : Relinks (p :: q :: rest) m m1 := by simpa using hrel1
        apply hrel.trans
        apply (hrel2.mono hlsSub).trans
        exact (hrel3.mono hgsSub).trans (hrel4.mono (hperm.trans hcut).subset)

lemma quicksort_spec {fuel : Nat} {l : List Nat} (h : AlmostLinked m l) (hzero : 0 ∉ l)
    (hfuel : l.length < fuel) :
    ∃ m' l', m.quicksort fuel (l.headD 0) = some m' ∧ l'.Perm l ∧ l'.Pairwise (· < ·) ∧
      Linked m'.next m'.prev 0 l' ∧ (∀ a ∈ l'.head?, m'.prev a = 0) ∧ Relinks l m m' := by
  obtain ⟨m1, l', hsort, hperm, hsorted, hlinked, hrel⟩ := quicksortInner_spec h hfuel
  cases l' with
  | nil =>
    refine ⟨m1, [], ?_, hperm, hsorted, trivial, by simp, hrel⟩
    rw [quicksort, hsort]
    simp
  | cons b l' =>
    have hmem : ∀ a ∈ b :: l', a ∈ l := fun a ha => hperm.mem_iff.1 ha
    have hne : ∀ a ∈ b :: l', a ≠ 0 := fun a ha heq => hzero (heq ▸ hmem a ha)
    obtain ⟨z, hz⟩ : ∃ z, (b :: l').getLast? = some z := ⟨_, getLast?_cons⟩
    have hzmem : z ∈ b :: l' := mem_of_getLast? hz
    refine ⟨(m1.setPrev b 0).setNext z 0, b :: l', ?_, hperm, hsorted, ?_, by simp, ?_⟩
    · rw [quicksort, hsort]
      simp [hne b (by simp), hz, hne z hzmem]
    · -- the last forward link is null already
      have hlast : update m1.next z 0 = m1.next :=
        update_eq_self_iff.2 (hlinked.next_last hz).symm
      simp only [setNext_next, setNext_prev, setPrev_next, setPrev_prev, hlast]
      apply hlinked.update_prev
      intro hb
      exact lt_irrefl b ((pairwise_cons.1 hsorted).1 b hb)
    · exact (hrel.setPrev (hmem b (by simp)) 0).setNext (hmem z hzmem) 0

lemma head_of_prev_eq_zero {fuel : Nat} (hprev : m.prev a = 0) (hfuel : 0 < fuel) :
    m.head fuel a = some a := by
  obtain ⟨fuel, rfl⟩ : ∃ k, fuel = k + 1 := ⟨fuel - 1, by omega⟩
  simp [head, hprev]

lemma head_spec {fuel : Nat} {x y : List Nat} (h : Linked m.next m.prev 0 (x ++ a :: y))
    (hzero : 0 ∉ x ++ a :: y) (hfirst : ∀ b ∈ (x ++ a :: y).head?, m.prev b = 0)
    (hfuel : x.length < fuel) : m.head fuel a = some ((x ++ a :: y).headD 0) := by
  induction x using reverseRecOn generalizing a y fuel with
  | nil => exact head_of_prev_eq_zero (hfirst a (by simp)) (by omega)
  | append_singleton x z ih =>
    obtain ⟨fuel, rfl⟩ : ∃ k, fuel = k + 1 := ⟨fuel - 1, by omega⟩
    have hprev : m.prev a = z := (append_iff.1 h).2.1 z (by simp) a (by simp)
    have hz : z ≠ 0 := by
      rintro rfl
      simp at hzero
    rw [append_assoc, singleton_append] at h hzero hfirst ⊢
    rw [head, hprev, if_pos hz]
    exact ih h hzero hfirst (by simpa using hfuel)

end BlockMemory
end BezOS
