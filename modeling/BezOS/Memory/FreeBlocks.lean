import Mathlib.Data.List.Nodup
import Mathlib.Data.List.Perm.Subperm
import BezOS.Lib.Spans
import BezOS.Memory.BlockSort
import BezOS.Memory.TableAllocator

/-!
# The free list

`FreeList bs m head l`: the blocks reached from `head` are those of `l`, linked both ways, and
no two of them share a page. Each edit of the list is given by what it does to the pages, and by
the blocks whose words it leaves as they were.
-/

namespace BezOS

open Lib Function Linked List Nat

/-- The pages of `size` bytes from the address `a` on. -/
def blockPages (bs a size : Nat) : List Nat := (List.range (size / bs)).map fun i => a + i * bs

namespace BlockMemory

variable {m m' m'' : BlockMemory} {P Q l : List Nat} {a b bs head : Nat}

def words (m : BlockMemory) (a : Nat) : Nat × Nat × Nat × Nat :=
  (m.next a, m.prev a, m.size a, m.slide a)

/-- Only the blocks of `P` have other words in `m'`. -/
def Untouched (P : List Nat) (m m' : BlockMemory) : Prop := ∀ a ∉ P, m'.words a = m.words a

namespace Untouched

lemma refl (P : List Nat) (m : BlockMemory) : Untouched P m m := fun _ _ => rfl

section

variable (h : Untouched P m m')

include h

lemma trans (h' : Untouched P m' m'') : Untouched P m m'' :=
  fun a ha => (h' a ha).trans (h a ha)

lemma mono (hPQ : P ⊆ Q) : Untouched Q m m' :=
  fun a ha => h a fun hP => ha (hPQ hP)

lemma next (ha : a ∉ P) : m'.next a = m.next a :=
  congrArg Prod.fst (h a ha)

lemma prev (ha : a ∉ P) : m'.prev a = m.prev a :=
  congrArg (·.2.1) (h a ha)

lemma size (ha : a ∉ P) : m'.size a = m.size a :=
  congrArg (·.2.2.1) (h a ha)

lemma slide (ha : a ∉ P) : m'.slide a = m.slide a :=
  congrArg (·.2.2.2) (h a ha)

section

variable (ha : a ∈ P)

include ha

lemma setNext (x : Nat) :
    Untouched P m (m'.setNext a x) := by
  intro b hb
  have hne : b ≠ a := fun heq => hb (heq ▸ ha)
  rw [← h b hb, words, words, setNext_next, update_of_ne hne]
  rfl

lemma setPrev (x : Nat) :
    Untouched P m (m'.setPrev a x) := by
  intro b hb
  have hne : b ≠ a := fun heq => hb (heq ▸ ha)
  rw [← h b hb, words, words, setPrev_prev, update_of_ne hne]
  rfl

lemma setSize (x : Nat) :
    Untouched P m (m'.setSize a x) := by
  intro b hb
  have hne : b ≠ a := fun heq => hb (heq ▸ ha)
  rw [← h b hb, words, words, setSize_size, update_of_ne hne]
  rfl

lemma setSlide (x : Nat) :
    Untouched P m (m'.setSlide a x) := by
  intro b hb
  have hne : b ≠ a := fun heq => hb (heq ▸ ha)
  rw [← h b hb, words, words, setSlide_slide, update_of_ne hne]
  rfl

lemma setBlock (next prev size slide : Nat) :
    Untouched P m (m'.setBlock a next prev size slide) :=
  (((h.setNext ha next).setPrev ha prev).setSize ha size).setSlide ha slide

end

end

end Untouched

lemma Relinks.untouched (h : Relinks P m m') : Untouched P m m' := by
  intro a ha
  rw [words, words, h.next a ha, h.prev a ha, h.size, h.slide]

/-- The pages of the blocks of `l`. -/
def freePages (bs : Nat) (m : BlockMemory) (l : List Nat) : List Nat :=
  l.flatMap fun a => blockPages bs a (m.size a)

def span (m : BlockMemory) (a : Nat) : Span Nat := ⟨a, m.size a, m.slide a⟩

def spans (m : BlockMemory) (l : List Nat) : List (Span Nat) := l.map m.span

@[simp] lemma spans_nil (m : BlockMemory) : m.spans [] = [] := rfl

@[simp] lemma spans_cons (m : BlockMemory) (a : Nat) (l : List Nat) :
    m.spans (a :: l) = m.span a :: m.spans l := rfl

@[simp] lemma spans_append (m : BlockMemory) (x y : List Nat) :
    m.spans (x ++ y) = m.spans x ++ m.spans y := map_append

/-- A block of whole pages that ends inside the address space. -/
structure FreeBlock (bs : Nat) (m : BlockMemory) (a : Nat) : Prop where
  ne_zero : a ≠ 0
  dvd : bs ∣ m.size a
  pos : 0 < m.size a
  bound : a + m.size a < wordCount

structure FreeList (bs : Nat) (m : BlockMemory) (head : Nat) (l : List Nat) : Prop where
  head_eq : head = l.headD 0
  linked : Linked m.next m.prev 0 l
  first : ∀ a ∈ l.head?, m.prev a = 0
  blocks : ∀ a ∈ l, FreeBlock bs m a
  nodup : (freePages bs m l).Nodup

end BlockMemory

/-! ## Pages -/

section Pages

variable {bs a b s t p : Nat}

lemma mem_blockPages : p ∈ blockPages bs a s ↔ ∃ i < s / bs, a + i * bs = p := by
  simp [blockPages]

@[simp] lemma length_blockPages : (blockPages bs a s).length = s / bs := by
  simp [blockPages]

lemma self_mem_blockPages (hbs : 0 < bs) (hdvd : bs ∣ s) (hs : 0 < s) :
    a ∈ blockPages bs a s :=
  mem_blockPages.2 ⟨0, Nat.div_pos (le_of_dvd hs hdvd) hbs, by simp⟩

lemma nodup_blockPages (hbs : 0 < bs) : (blockPages bs a s).Nodup := by
  refine nodup_range.map ?_
  intro i j hij
  exact eq_of_mul_eq_mul_right hbs (Nat.add_left_cancel hij)

lemma blockPages_add (hbs : 0 < bs) (hdvd : bs ∣ s) :
    blockPages bs a (s + t) = blockPages bs a s ++ blockPages bs (a + s) t := by
  obtain ⟨k, rfl⟩ := hdvd
  rw [blockPages, mul_add_div hbs, range_add, map_append, blockPages, blockPages,
    Nat.mul_div_cancel_left _ hbs, map_map]
  refine congrArg _ (map_congr_left fun i _ => ?_)
  simp only [comp_apply, Nat.add_mul, Nat.mul_comm bs k]
  omega

lemma blockPages_lt (hp : p ∈ blockPages bs a s) : a ≤ p ∧ p + bs ≤ a + s := by
  obtain ⟨i, hi, rfl⟩ := mem_blockPages.1 hp
  have hmul : (i + 1) * bs ≤ s := by
    calc (i + 1) * bs ≤ s / bs * bs := Nat.mul_le_mul_right _ hi
      _ ≤ s := div_mul_le_self s bs
  rw [Nat.add_mul, Nat.one_mul] at hmul
  omega

end Pages

namespace BlockMemory

variable {m m' : BlockMemory} {P l : List Nat} {a b bs head size : Nat}

lemma freePages_cons : freePages bs m (a :: l) = blockPages bs a (m.size a) ++ freePages bs m l :=
  rfl

lemma freePages_congr (h : ∀ a ∈ l, m'.size a = m.size a) :
    freePages bs m' l = freePages bs m l := by
  refine flatMap_congr ?_
  intro a ha
  rw [h a ha]

lemma spans_congr (hsize : ∀ a ∈ l, m'.size a = m.size a)
    (hslide : ∀ a ∈ l, m'.slide a = m.slide a) : spans m' l = spans m l := by
  refine map_congr_left fun a ha => ?_
  rw [span, span, hsize a ha, hslide a ha]

lemma mem_freePages (hbs : 0 < bs) (hblock : FreeBlock bs m a) (ha : a ∈ l) :
    a ∈ freePages bs m l :=
  mem_flatMap.2 ⟨a, ha, self_mem_blockPages hbs hblock.dvd hblock.pos⟩

lemma nodup_of_freePages (hbs : 0 < bs) (hblocks : ∀ a ∈ l, FreeBlock bs m a)
    (hnodup : (freePages bs m l).Nodup) : l.Nodup := by
  refine (nodup_flatMap.1 hnodup).2.imp_of_mem ?_
  rintro a b ha - hapart rfl
  have hself : a ∈ blockPages bs a (m.size a) :=
    self_mem_blockPages hbs (hblocks a ha).dvd (hblocks a ha).pos
  exact hapart hself hself

lemma FreeBlock.congr (h : FreeBlock bs m a) (hsize : m'.size a = m.size a) :
    FreeBlock bs m' a where
  ne_zero := h.ne_zero
  dvd := hsize ▸ h.dvd
  pos := hsize ▸ h.pos
  bound := hsize ▸ h.bound

namespace FreeList

section

variable (h : FreeList bs m head l)

include h

lemma zero_not_mem : 0 ∉ l := fun hmem => (h.blocks 0 hmem).ne_zero rfl

lemma subset_freePages (hbs : 0 < bs) : l ⊆ freePages bs m l :=
  fun a ha => mem_freePages hbs (h.blocks a ha) ha

lemma nodup_blocks (hbs : 0 < bs) : l.Nodup :=
  nodup_of_freePages hbs h.blocks h.nodup

end

lemma head_apart {p : Nat} (h : FreeList bs m head (a :: l)) (hp : p ∈ blockPages bs a (m.size a)) :
    p ∉ freePages bs m l := fun hmem => (nodup_append.1 h.nodup).2.2 p hp p hmem rfl

lemma length_lt_walkLimit {l : List Nat} (hnodup : l.Nodup) (hl : ∀ a ∈ l, a < wordCount) :
    l.length + 1 < walkLimit := by
  have hsub : l ⊆ List.range wordCount := fun a ha => List.mem_range.2 (hl a ha)
  have hle := (Nodup.subperm hnodup hsub).length_le
  rw [length_range] at hle
  exact Nat.add_lt_add_of_le_of_lt hle (by decide)

lemma length_lt (h : FreeList bs m head l) (hbs : 0 < bs) : l.length + 1 < walkLimit := by
  apply length_lt_walkLimit (h.nodup_blocks hbs)
  intro a ha
  have hbound := (h.blocks a ha).bound
  omega

lemma of_size (hblocks : ∀ a ∈ l, FreeBlock bs m a) (hnodup : (freePages bs m l).Nodup)
    (hsize : ∀ a ∈ l, m'.size a = m.size a) (hlinked : Linked m'.next m'.prev 0 l)
    (hfirst : ∀ a ∈ l.head?, m'.prev a = 0) : FreeList bs m' (l.headD 0) l where
  head_eq := rfl
  linked := hlinked
  first := hfirst
  blocks a ha := (hblocks a ha).congr (hsize a ha)
  nodup := by rwa [freePages_congr hsize]

lemma untouched (h : FreeList bs m head l) (hbs : 0 < bs) (hm : Untouched P m m')
    (hP : ∀ a ∈ freePages bs m l, a ∉ P) : FreeList bs m' head l := by
  have hl : ∀ a ∈ l, a ∉ P := fun a ha => hP a (h.subset_freePages hbs ha)
  rw [h.head_eq]
  refine of_size h.blocks h.nodup (fun a ha => hm.size (hl a ha)) ?_ ?_
  · refine h.linked.congr (fun a ha => hm.next (hl a ha)) ?_
    exact fun a ha => hm.prev (hl a (mem_of_mem_tail ha))
  · intro a ha
    rw [hm.prev (hl a (mem_of_mem_head? ha))]
    exact h.first a ha

end FreeList

/-! ## The head -/

lemma FreeList.dropHead (h : FreeList bs m head (a :: l)) (hbs : 0 < bs) :
    FreeList bs (if m.next a ≠ 0 then m.setPrev (m.next a) 0 else m) (m.next a) l ∧
      Relinks l m (if m.next a ≠ 0 then m.setPrev (m.next a) 0 else m) := by
  have hnext : m.next a = l.headD 0 := h.linked.next_head
  have hblocks : ∀ b ∈ l, FreeBlock bs m b := fun b hb => h.blocks b (mem_cons_of_mem _ hb)
  have hnodup : (freePages bs m l).Nodup := (nodup_append.1 h.nodup).2.1
  rw [hnext]
  cases l with
  | nil => exact ⟨of_size hblocks hnodup (by simp) trivial (by simp), Relinks.refl _ _⟩
  | cons b l =>
    have hb : b ≠ 0 := (hblocks b (by simp)).ne_zero
    have hapart : b ∉ l := (nodup_cons.1 (nodup_cons.1 (h.nodup_blocks hbs)).2).1
    rw [headD_cons, if_pos hb]
    refine ⟨of_size hblocks hnodup (fun _ _ => rfl) ?_ (by simp), ?_⟩
    · exact h.linked.tail.update_prev (by simpa using hapart) 0
    · exact (Relinks.refl _ m).setPrev (mem_cons_self ..) 0

/-- `m'` is `m` with a block of its own at `a` whose forward link is the head of the list `l`. -/
structure NewHead (bs : Nat) (m m' : BlockMemory) (a size : Nat) (l : List Nat) : Prop where
  blocks : ∀ b ∈ a :: l, FreeBlock bs m' b
  pages : freePages bs m' (a :: l) = blockPages bs a size ++ freePages bs m l
  nodup : (freePages bs m' (a :: l)).Nodup
  next : m'.next a = l.headD 0
  prev : m'.prev a = 0
  linked : Linked m'.next m'.prev 0 l
  first : ∀ b ∈ l.head?, m'.prev b = 0
  same : Untouched [a] m m'

lemma FreeList.newHead (slide : Nat) (h : FreeList bs m head l) (hbs : 0 < bs)
    (hblock : a ≠ 0 ∧ bs ∣ size ∧ 0 < size ∧ a + size < wordCount)
    (hfresh : ∀ p ∈ blockPages bs a size, p ∉ freePages bs m l) :
    NewHead bs m (m.setBlock a head 0 size slide) a size l := by
  obtain ⟨ha0, hdvd, hpos, hbound⟩ := hblock
  have hself : a ∈ blockPages bs a size := self_mem_blockPages hbs hdvd hpos
  have hsame : Untouched [a] m (m.setBlock a head 0 size slide) :=
    (Untouched.refl _ m).setBlock (by simp) _ _ _ _
  have hsize : (m.setBlock a head 0 size slide).size a = size := by simp [setBlock]
  have hold : FreeList bs (m.setBlock a head 0 size slide) head l := by
    refine h.untouched hbs hsame ?_
    intro p hp hmem
    obtain rfl : p = a := by simpa using hmem
    exact hfresh p hself hp
  have hpages : freePages bs (m.setBlock a head 0 size slide) (a :: l) =
      blockPages bs a size ++ freePages bs m l := by
    rw [freePages_cons, hsize]
    congr 1
    refine freePages_congr ?_
    intro b hb
    refine hsame.size ?_
    rw [mem_singleton]
    rintro rfl
    exact hfresh b hself (h.subset_freePages hbs hb)
  refine ⟨?_, hpages, ?_, ?_, by simp [setBlock], hold.linked, hold.first, hsame⟩
  · intro b hb
    rcases mem_cons.1 hb with rfl | hb
    · refine ⟨ha0, ?_, ?_, ?_⟩ <;> rwa [hsize]
    · exact hold.blocks b hb
  · rw [hpages, nodup_append]
    refine ⟨nodup_blockPages hbs, h.nodup, ?_⟩
    rintro p hp q hq rfl
    exact hfresh p hp hq
  · rw [← h.head_eq]
    simp [setBlock]

lemma FreeList.pushHead (slide : Nat) (h : FreeList bs m head l) (hbs : 0 < bs)
    (hblock : a ≠ 0 ∧ bs ∣ size ∧ 0 < size ∧ a + size < wordCount)
    (hfresh : ∀ p ∈ blockPages bs a size, p ∉ freePages bs m l) :
    ∃ m', (if head ≠ 0 then (m.setBlock a head 0 size slide).setPrev head a
        else m.setBlock a head 0 size slide) = m' ∧
      FreeList bs m' a (a :: l) ∧
      freePages bs m' (a :: l) = blockPages bs a size ++ freePages bs m l ∧
      Untouched (a :: l) m m' := by
  have hnew := h.newHead slide hbs hblock hfresh
  generalize m.setBlock a head 0 size slide = m1 at hnew ⊢
  have hnodup := nodup_of_freePages hbs hnew.blocks hnew.nodup
  have hsame : Untouched (a :: l) m m1 := hnew.same.mono (by simp)
  refine ⟨_, rfl, ?_⟩
  cases l with
  | nil =>
    obtain rfl : head = 0 := h.head_eq
    refine ⟨⟨rfl, ?_, ?_, hnew.blocks, hnew.nodup⟩, hnew.pages, hsame⟩
    · simpa using hnew.next
    · simpa using hnew.prev
  | cons b l =>
    obtain rfl : head = b := h.head_eq
    have hb : head ≠ 0 := (h.blocks head (mem_cons_self ..)).ne_zero
    have hba : a ≠ head := fun heq => (nodup_cons.1 hnodup).1 (by simp [heq])
    have hbl : head ∉ l := (nodup_cons.1 (nodup_cons.1 hnodup).2).1
    rw [if_pos hb]
    refine ⟨FreeList.of_size hnew.blocks hnew.nodup (fun _ _ => rfl) ?_ ?_, hnew.pages,
      hsame.setPrev (by simp) a⟩
    · refine cons_cons_iff.2 ⟨hnew.next, by simp, ?_⟩
      exact hnew.linked.update_prev (by simpa using hbl) a
    · simpa [update_of_ne hba] using hnew.prev

/-! ## Taking the end of the head block -/

lemma split_remove (h : FreeList bs m head (a :: l)) (hbs : 0 < bs) (hlt : size < m.size a)
    (hnew : a + (m.size a - size) ∉ 0 :: a :: l) :
    ∃ m1, m.splitBlock a size = some (m1, a + (m.size a - size)) ∧
      m1.removeBlock (a + (m.size a - size)) =
        ((((m.setSize a (m.size a - size)).setNext (a + (m.size a - size)) (m.next a)).setPrev
          (a + (m.size a - size)) a).setSize (a + (m.size a - size)) size).setSlide
            (a + (m.size a - size)) (m.slide a) := by
  have hbound := (h.blocks a (mem_cons_self ..)).bound
  have hwrap : wrapAdd wordCount a (m.size a - size) = a + (m.size a - size) :=
    mod_eq_of_lt (by omega)
  have hnext : m.next a = l.headD 0 := h.linked.next_head
  have ha0 : a ≠ 0 := (h.blocks a (mem_cons_self ..)).ne_zero
  generalize hb : a + (m.size a - size) = b at *
  obtain ⟨hb0, hba, hbl⟩ : b ≠ 0 ∧ b ≠ a ∧ b ∉ l := by simpa using hnew
  refine ⟨_, by rw [splitBlock, if_pos hlt, hwrap], ?_⟩
  cases l with
  | nil =>
    have hna : m.next a = 0 := by simpa using hnext
    ext x <;> simp [removeBlock, hna, ha0, hba, update_apply]
    grind
  | cons c l =>
    have hna : m.next a = c := by simpa using hnext
    have hc0 : c ≠ 0 := (h.blocks c (by simp)).ne_zero
    have hprev : m.prev c = a := by simpa using h.linked.2.1 c
    ext x <;> simp [removeBlock, hna, hc0, ha0, hba, update_apply] <;> grind

lemma FreeList.takeTail (h : FreeList bs m head (a :: l)) (hbs : 0 < bs)
    (hlt : size < m.size a) (hdvd : bs ∣ size) (hpos : 0 < size) :
    ∃ m1 b, m.splitBlock a size = some (m1, b) ∧ FreeList bs (m1.removeBlock b) head (a :: l) ∧
      (b ≠ 0 ∧ b + size < wordCount) ∧ Untouched [a, b] m (m1.removeBlock b) ∧
      (freePages bs (m1.removeBlock b) (a :: l) ++ blockPages bs b size).Perm
        (freePages bs m (a :: l)) := by
  have hblock := h.blocks a (mem_cons_self ..)
  have hrest : bs ∣ m.size a - size := Nat.dvd_sub hblock.dvd hdvd
  have hcut : blockPages bs a (m.size a) =
      blockPages bs a (m.size a - size) ++ blockPages bs (a + (m.size a - size)) size := by
    rw [← blockPages_add hbs hrest, Nat.sub_add_cancel hlt.le]
  have hbpage : a + (m.size a - size) ∈ blockPages bs (a + (m.size a - size)) size :=
    self_mem_blockPages hbs hdvd hpos
  have hbl : a + (m.size a - size) ∉ l := by
    intro hmem
    have hb := h.blocks _ (mem_cons_of_mem _ hmem)
    refine h.head_apart ?_ (mem_freePages hbs hb hmem)
    rw [hcut]
    exact mem_append_right _ hbpage
  have hbound := hblock.bound
  have ha0 := hblock.ne_zero
  obtain ⟨m1, hsplit, hremove⟩ := split_remove h hbs hlt (by
    simp only [mem_cons, not_or]
    exact ⟨by omega, by omega, hbl⟩)
  refine ⟨m1, a + (m.size a - size), hsplit, ?_⟩
  generalize hb : a + (m.size a - size) = b at *
  have hba : b ≠ a := by omega
  rw [hremove]
  generalize hm' : ((((m.setSize a (m.size a - size)).setNext b (m.next a)).setPrev b a).setSize b
    size).setSlide b (m.slide a) = m'
  have hsizeA : m'.size a = m.size a - size := by
    simp [← hm', hba.symm]
  have hsizes : ∀ c ∈ l, m'.size c = m.size c := by
    intro c hc
    have hcb : c ≠ b := fun heq => hbl (heq ▸ hc)
    have hca : c ≠ a := fun heq => (nodup_cons.1 (h.nodup_blocks hbs)).1 (heq ▸ hc)
    simp [← hm', hcb, hca]
  have hpages : freePages bs m' (a :: l) = blockPages bs a (m.size a - size) ++ freePages bs m l := by
    rw [freePages_cons, hsizeA, freePages_congr hsizes]
  have hperm : (freePages bs m' (a :: l) ++ blockPages bs b size).Perm (freePages bs m (a :: l)) := by
    rw [hpages, freePages_cons, hcut, append_assoc, append_assoc]
    exact Perm.append_left _ perm_append_comm
  refine ⟨⟨h.head_eq, ?_, ?_, ?_, ?_⟩, ⟨by omega, by omega⟩, ?_, hperm⟩
  · rw [← hm']
    refine update_prev (h.linked.update_next ?_ _) ?_ _
    · simp [hba, hbl]
    · simpa using hbl
  · intro c hc
    obtain rfl : a = c := by simpa using hc
    simpa [← hm', hba.symm] using h.first a (by simp)
  · intro c hc
    rcases mem_cons.1 hc with rfl | hc
    · refine ⟨ha0, ?_, ?_, ?_⟩ <;> rw [hsizeA]
      · exact hrest
      · omega
      · omega
    · exact (h.blocks c (mem_cons_of_mem _ hc)).congr (hsizes c hc)
  · exact (nodup_append.1 (hperm.nodup_iff.2 h.nodup)).1
  · rw [← hm']
    refine Untouched.setSlide ?_ (by simp) _
    refine Untouched.setSize ?_ (by simp) _
    refine Untouched.setPrev ?_ (by simp) _
    refine Untouched.setNext ?_ (by simp) _
    exact (Untouched.refl _ m).setSize (by simp) _

/-! ## Merging -/

/-- A block that ends inside the address space or where it ends. -/
structure Fits (m : BlockMemory) (a : Nat) : Prop where
  ne_zero : a ≠ 0
  pos : 0 < m.size a
  bound : a + m.size a ≤ wordCount

lemma FreeBlock.fits (h : FreeBlock bs m a) : Fits m a := ⟨h.ne_zero, h.pos, h.bound.le⟩

lemma Fits.congr (h : Fits m a) (hsize : m'.size a = m.size a) : Fits m' a where
  ne_zero := h.ne_zero
  pos := hsize ▸ h.pos
  bound := hsize ▸ h.bound

lemma Fits.wrapAdd_eq_iff (ha : Fits m a) (hb : Fits m b) :
    wrapAdd wordCount a (m.size a) = b ↔ a + m.size a = b := by
  have hbound := hb.bound
  have hpos := hb.pos
  rcases ha.bound.lt_or_eq with hlt | heq
  · rw [wrapAdd_of_lt hlt]
  · rw [wrapAdd, heq, mod_self]
    constructor
    · exact fun h => absurd h.symm hb.ne_zero
    · intro h
      omega

lemma mergeNext_eq (hab : a ≠ b) : m.mergeNext a b =
    if m.next b ≠ 0 then ((m.setSize a (wrapAdd wordCount (m.size a) (m.size b))).setNext a
      (m.next b)).setPrev (m.next b) a
    else (m.setSize a (wrapAdd wordCount (m.size a) (m.size b))).setNext a (m.next b) := by
  have hnext : update m.next a (m.next b) b = m.next b :=
    update_of_ne hab.symm _ _
  simp [mergeNext, hnext]

lemma mergeNext_spec (hlinked : Linked m.next m.prev 0 (a :: b :: l))
    (hfits : ∀ c ∈ a :: b :: l, Fits m c) (hnodup : (a :: b :: l).Nodup)
    (hadj : a + m.size a = b) :
    Linked (m.mergeNext a b).next (m.mergeNext a b).prev 0 (a :: l) ∧
      (m.mergeNext a b).prev a = m.prev a ∧ (∀ c ∈ a :: l, Fits (m.mergeNext a b) c) ∧
      spans (m.mergeNext a b) (a :: l) = (m.span a).join (m.span b) :: spans m l ∧
      Untouched (a :: b :: l) m (m.mergeNext a b) := by
  have ha := hfits a (by simp)
  have hb := hfits b (by simp)
  have hbbound := hb.bound
  have ha0 := ha.ne_zero
  have hwrap : wrapAdd wordCount (m.size a) (m.size b) = m.size a + m.size b :=
    mod_eq_of_lt (by omega)
  have hnextb : m.next b = l.headD 0 := hlinked.tail.next_head
  simp only [nodup_cons, mem_cons, not_or] at hnodup
  obtain ⟨⟨hab, hal⟩, hbl, hl⟩ := hnodup
  have hsize : (m.mergeNext a b).size = update m.size a (m.size a + m.size b) := by
    rw [mergeNext_eq hab, hwrap]
    split <;> rfl
  have hsizeA : (m.mergeNext a b).size a = m.size a + m.size b := by
    rw [hsize, update_self]
  have hsizes : ∀ c ∈ l, (m.mergeNext a b).size c = m.size c := by
    intro c hc
    have hca : c ≠ a := fun heq => hal (heq ▸ hc)
    rw [hsize, update_of_ne hca]
  have hslide : (m.mergeNext a b).slide = m.slide := by
    rw [mergeNext_eq hab]
    split <;> rfl
  have hspans : spans (m.mergeNext a b) (a :: l) = (m.span a).join (m.span b) :: spans m l := by
    rw [spans_cons, spans_congr hsizes fun c _ => by rw [hslide], span, hsizeA, hslide]
    rfl
  have hlinkedL : Linked (update m.next a (l.headD 0)) m.prev 0 l :=
    hlinked.tail.tail.update_next hal _
  have hfits' : ∀ c ∈ a :: l, Fits (m.mergeNext a b) c := by
    intro c hc
    rcases mem_cons.1 hc with rfl | hc
    · refine ⟨ha.ne_zero, ?_, ?_⟩ <;> rw [hsizeA]
      · exact Nat.add_pos_left ha.pos _
      · omega
    · exact (hfits c (by simp [hc])).congr (hsizes c hc)
  have hsame : Untouched (a :: b :: l) m ((m.setSize a (wrapAdd wordCount (m.size a)
      (m.size b))).setNext a (m.next b)) :=
    ((Untouched.refl _ m).setSize (by simp) _).setNext (by simp) _
  have hlinks : Linked (m.mergeNext a b).next (m.mergeNext a b).prev 0 (a :: l) ∧
      (m.mergeNext a b).prev a = m.prev a ∧ Untouched (a :: b :: l) m (m.mergeNext a b) := by
    rw [mergeNext_eq hab]
    cases l with
    | nil =>
      rw [hnextb, headD_nil] at hsame ⊢
      exact ⟨by simp, by simp, by simpa using hsame⟩
    | cons c l =>
      have hc : c ≠ 0 := (hfits c (by simp)).ne_zero
      have hca : a ≠ c := fun heq => hal (by simp [heq])
      rw [hnextb, headD_cons] at hsame ⊢
      rw [if_pos hc]
      refine ⟨cons_cons_iff.2 ⟨by simp, by simp, ?_⟩, by simp [hca], hsame.setPrev (by simp) a⟩
      exact hlinkedL.update_prev (by simpa using (nodup_cons.1 hl).1) a
  exact ⟨hlinks.1, hlinks.2.1, hfits', hspans, hlinks.2.2⟩

lemma mergeAdjacentBlocks_run {fuel : Nat} (hlinked : Linked m.next m.prev 0 (a :: l))
    (hfits : ∀ c ∈ a :: l, Fits m c) (hnodup : (a :: l).Nodup) (hfuel : (a :: l).length < fuel) :
    ∃ m' l', mergeAdjacentBlocks fuel m a = some m' ∧ Linked m'.next m'.prev 0 (a :: l') ∧
      m'.prev a = m.prev a ∧ spans m' (a :: l') = coalesceFrom (m.span a) (spans m l) ∧
      Untouched (a :: l) m m' := by
  induction fuel generalizing m a l with
  | zero => omega
  | succ fuel ih =>
    have hnext : m.next a = l.headD 0 := hlinked.next_head
    have ha := hfits a (by simp)
    cases l with
    | nil =>
      refine ⟨m, [], ?_, hlinked, rfl, rfl, Untouched.refl _ _⟩
      simp [mergeAdjacentBlocks, ha.ne_zero, hnext]
    | cons b l =>
      have hb := hfits b (by simp)
      have hnextb : m.next a = b := hnext
      have hlength : (b :: l).length < fuel := by simpa using hfuel
      have hab : a ∉ b :: l := (nodup_cons.1 hnodup).1
      by_cases hmerge : a + m.size a = b ∧ m.slide b = m.slide a
      · obtain ⟨hlinked1, hprev1, hfits1, hspans1, hsame1⟩ :=
          mergeNext_spec hlinked hfits hnodup hmerge.1
        have hnodup1 : (a :: l).Nodup := hnodup.sublist (by simp)
        obtain ⟨m', l', hrun, hlinked', hprev', hspans', hsame'⟩ :=
          ih hlinked1 hfits1 hnodup1 (by simpa using hlength)
        refine ⟨m', l', ?_, hlinked', hprev'.trans hprev1, ?_, ?_⟩
        · rw [mergeAdjacentBlocks, if_neg ha.ne_zero]
          simp only [hnextb, if_neg hb.ne_zero, ha.wrapAdd_eq_iff hb, if_pos hmerge]
          exact hrun
        · rw [spans_cons] at hspans1
          obtain ⟨hself, hrest⟩ := List.cons.inj hspans1
          have htouch : (m.span a).Touches (m.span b) := ⟨hmerge.1, hmerge.2.symm⟩
          rw [hspans', hself, hrest, spans_cons, coalesceFrom, if_pos htouch]
        · exact hsame1.trans (hsame'.mono (by simp))
      · -- `a` is done, and the walk goes on from `b` without touching it
        obtain ⟨m', l', hrun, hlinked', hprev', hspans', hsame⟩ :=
          ih hlinked.tail (fun c hc => hfits c (mem_cons_of_mem _ hc))
            (nodup_cons.1 hnodup).2 hlength
        refine ⟨m', b :: l', ?_, ?_, hsame.prev hab, ?_, ?_⟩
        · rw [mergeAdjacentBlocks, if_neg ha.ne_zero]
          simp only [hnextb, if_neg hb.ne_zero, ha.wrapAdd_eq_iff hb, if_neg hmerge]
          exact hrun
        · refine cons_cons_iff.2 ⟨(hsame.next hab).trans hnextb, ?_, hlinked'⟩
          exact hprev'.trans (hlinked.2.1 b (by simp))
        · have htouch : ¬ (m.span a).Touches (m.span b) := fun h => hmerge ⟨h.1, h.2.symm⟩
          have hself : m'.span a = m.span a := by
            rw [span, span, hsame.size hab, hsame.slide hab]
          rw [spans_cons, hself, hspans', spans_cons, coalesceFrom, if_neg htouch]
        · exact hsame.mono (subset_cons_self ..)

lemma freePages_eq_spans :
    freePages bs m l = (spans m l).flatMap fun s => blockPages bs s.front s.size := by
  rw [freePages, spans, flatMap_map]
  rfl

def Whole (bs : Nat) (s : Span Nat) : Prop :=
  s.front ≠ 0 ∧ bs ∣ s.size ∧ 0 < s.size ∧ s.back < wordCount

lemma whole_span : Whole bs (m.span a) ↔ FreeBlock bs m a :=
  ⟨fun ⟨hzero, hdvd, hpos, hbound⟩ => ⟨hzero, hdvd, hpos, hbound⟩,
    fun h => ⟨h.ne_zero, h.dvd, h.pos, h.bound⟩⟩

lemma Whole.join {s t : Span Nat} (hs : Whole bs s) (ht : Whole bs t) (h : s.Touches t) :
    Whole bs (s.join t) := by
  refine ⟨hs.1, Nat.dvd_add hs.2.1 ht.2.1, Nat.add_pos_left hs.2.2.1 _, ?_⟩
  rw [Span.join_back h]
  exact ht.2.2.2

lemma mergeAdjacentBlocks_spec {fuel : Nat} (hbs : 0 < bs)
    (hlinked : Linked m.next m.prev 0 (a :: l)) (hblocks : ∀ c ∈ a :: l, FreeBlock bs m c)
    (hnodup : (freePages bs m (a :: l)).Nodup) (hfuel : (a :: l).length < fuel) :
    ∃ m' l', mergeAdjacentBlocks fuel m a = some m' ∧ Linked m'.next m'.prev 0 (a :: l') ∧
      m'.prev a = m.prev a ∧ (∀ c ∈ a :: l', FreeBlock bs m' c) ∧
      freePages bs m' (a :: l') = freePages bs m (a :: l) ∧
      spans m' (a :: l') = coalesceFrom (m.span a) (spans m l) ∧ Untouched (a :: l) m m' := by
  obtain ⟨m', l', hrun, hlinked', hprev', hspans', hsame⟩ :=
    mergeAdjacentBlocks_run hlinked (fun c hc => (hblocks c hc).fits)
      (nodup_of_freePages hbs hblocks hnodup) hfuel
  have hjoin : ∀ s t, Whole bs s → Whole bs t → s.Touches t → Whole bs (s.join t) :=
    fun s t => Whole.join
  have hwhole : ∀ s ∈ m.span a :: spans m l, Whole bs s :=
    forall_mem_map.2 fun c hc => whole_span.2 (hblocks c hc)
  refine ⟨m', l', hrun, hlinked', hprev', ?_, ?_, hspans', hsame⟩
  · intro c hc
    have hmem : m'.span c ∈ coalesceFrom (m.span a) (spans m l) :=
      hspans' ▸ mem_map_of_mem hc
    exact whole_span.1 (forall_coalesceFrom hjoin hwhole _ hmem)
  · rw [freePages_eq_spans, hspans', flatMap_coalesceFrom hjoin ?_ hwhole, freePages_eq_spans,
      spans_cons]
    intro s t hs htouch
    have hback : t.front = s.front + s.size := htouch.1.symm
    rw [hback]
    exact blockPages_add hbs hs.2.1

/-! ## Defragmentation -/

def Merges (m : BlockMemory) (l : List Nat) (m' : BlockMemory) (l' : List Nat) : Prop :=
  ∃ sorted, sorted.Perm l ∧ sorted.Pairwise (· < ·) ∧ spans m' l' = coalesce (spans m sorted)

lemma defragment_spec (hbs : 0 < bs) (halmost : AlmostLinked m (a :: b :: l))
    (hfirst : m.prev a = 0) (hblocks : ∀ c ∈ a :: b :: l, FreeBlock bs m c)
    (hnodup : (freePages bs m (a :: b :: l)).Nodup) :
    ∃ m' l', PageTableAllocator.defragment ⟨bs, a, m⟩ = some ⟨bs, l'.headD 0, m'⟩ ∧
      FreeList bs m' (l'.headD 0) l' ∧ (freePages bs m' l').Perm (freePages bs m (a :: b :: l)) ∧
      Untouched (a :: b :: l) m m' ∧ Merges m (a :: b :: l) m' l' := by
  have hzero : 0 ∉ a :: b :: l := fun hmem => (hblocks 0 hmem).ne_zero rfl
  have hlength : (a :: b :: l).length < walkLimit := by
    apply lt_of_succ_lt
    apply FreeList.length_lt_walkLimit (nodup_of_freePages hbs hblocks hnodup)
    intro c hc
    have hbound := (hblocks c hc).bound
    omega
  obtain ⟨m1, l1, hsort, hperm, hsorted, hlinked1, hfirst1, hrel1⟩ :=
    quicksort_spec halmost hzero hlength
  have hmem : a ∈ l1 := hperm.mem_iff.2 (by simp)
  have hsizes : ∀ c ∈ l1, m1.size c = m.size c := fun c _ => by rw [hrel1.size]
  have hpages1 : (freePages bs m1 l1).Perm (freePages bs m (a :: b :: l)) := by
    rw [freePages_congr hsizes]
    exact hperm.flatMap_right _
  have hblocks1 : ∀ c ∈ l1, FreeBlock bs m1 c :=
    fun c hc => (hblocks c (hperm.mem_iff.1 hc)).congr (hsizes c hc)
  obtain ⟨x, y, rfl⟩ := append_of_mem hmem
  have hhead : m1.head walkLimit a = some ((x ++ a :: y).headD 0) := by
    apply head_spec hlinked1 (fun hmem => hzero (hperm.mem_iff.1 hmem)) hfirst1
    have := hperm.length_eq
    simp only [length_append, length_cons] at this hlength
    omega
  obtain ⟨c, l2, hl2⟩ : ∃ c l2, x ++ a :: y = c :: l2 := by
    cases x <;> exact ⟨_, _, rfl⟩
  rw [hl2] at hhead hlinked1 hfirst1 hpages1 hblocks1 hperm
  obtain ⟨m', l', hmerge, hlinked', hprev', hblocks', hpages', hspans', hsame'⟩ :=
    mergeAdjacentBlocks_spec hbs hlinked1 hblocks1 (hpages1.nodup_iff.2 hnodup)
      (hperm.length_eq ▸ hlength)
  refine ⟨m', c :: l', ?_, ?_, ?_, ?_, c :: l2, hperm, hl2 ▸ hsorted, ?_⟩
  · have hstart : ¬ (a = 0 ∨ m.next a = 0) := by
      rw [halmost.1, not_or]
      exact ⟨(hblocks a (by simp)).ne_zero, (hblocks b (by simp)).ne_zero⟩
    have hsortBlocks : m.sortBlocks walkLimit a = some m1 := by
      rw [sortBlocks, head_of_prev_eq_zero hfirst (zero_lt_of_lt hlength)]
      exact hsort
    rw [PageTableAllocator.defragment, if_neg hstart, if_neg (not_not.2 hfirst), hsortBlocks]
    simp only [Option.bind_eq_bind, Option.bind_some, hhead, headD_cons, hmerge]
    rfl
  · refine ⟨rfl, hlinked', ?_, hblocks', ?_⟩
    · intro d hd
      obtain rfl : c = d := by simpa using hd
      rw [hprev']
      exact hfirst1 c (by simp)
    · rw [hpages']
      exact hpages1.nodup_iff.2 hnodup
  · rw [hpages']
    exact hpages1
  · exact hrel1.untouched.trans (hsame'.mono hperm.subset)
  · have hspans1 : spans m1 (c :: l2) = spans m (c :: l2) :=
      spans_congr (fun d _ => by rw [hrel1.size]) fun d _ => by rw [hrel1.slide]
    rw [hspans', ← hspans1]
    rfl

end BlockMemory

end BezOS
