import BezOS.Memory.TablePages

/-!
# Requests of the page table allocator

What each request takes from the free list and gives to its caller. `Serves s l s' l' given`:
between the states `s` and `s'` the pages `given` left the free list `l`, and only words of its
pages changed.
-/

namespace BezOS
namespace PageTableAllocator

open Lib BlockMemory List PageTableList

variable {s s' s'' : PageTableAllocator} {l l' l'' given given' : List Nat}
  {a size remaining blocks fuel : Nat} {list : PageTableList}

abbrev Free (s : PageTableAllocator) (l : List Nat) : Prop :=
  FreeList s.mBlockSize s.mem s.mHead l

abbrev pages (s : PageTableAllocator) (l : List Nat) : List Nat := freePages s.mBlockSize s.mem l

structure Serves (s : PageTableAllocator) (l : List Nat) (s' : PageTableAllocator) (l' : List Nat)
    (given : List Nat) : Prop where
  blockSize : s'.mBlockSize = s.mBlockSize
  free : s'.Free l'
  perm : (s'.pages l' ++ given).Perm (s.pages l)
  same : Untouched (s.pages l) s.mem s'.mem

namespace Serves

lemma refl (h : s.Free l) : Serves s l s l [] where
  blockSize := rfl
  free := h
  perm := by rw [append_nil]
  same := Untouched.refl _ _

section

variable (h : Serves s l s' l' given)

include h

lemma trans (h' : Serves s' l' s'' l'' given') :
    Serves s l s'' l'' (given' ++ given) where
  blockSize := h'.blockSize.trans h.blockSize
  free := h'.free
  perm := by
    rw [← append_assoc]
    exact (h'.perm.append_right given).trans h.perm
  same := by
    refine h.same.trans (h'.same.mono ?_)
    exact fun p hp => h.perm.subset (mem_append_left _ hp)

lemma given_mem {p : Nat} (hp : p ∈ given) : p ∈ s.pages l :=
  h.perm.subset (mem_append_right _ hp)

lemma given_apart (hl : s.Free l) {p : Nat} (hp : p ∈ given) :
    p ∉ s'.pages l' := by
  intro hmem
  exact (nodup_append.1 (h.perm.nodup_iff.2 hl.nodup)).2.2 p hmem p hp rfl

lemma relink {m' : BlockMemory} (hl : s.Free l) (hbs : 0 < s.mBlockSize)
    (hm : Relinks given s'.mem m') :
    Serves s l { s' with mem := m' } l' given := by
  have hsize : ∀ b ∈ l', m'.size b = s'.mem.size b := fun b _ => by rw [hm.size]
  refine ⟨h.blockSize, ?_, ?_, ?_⟩
  · refine h.free.untouched (h.blockSize ▸ hbs) hm.untouched ?_
    exact fun p hp hmem => h.given_apart hl hmem hp
  · have hpages : freePages s'.mBlockSize m' l' = s'.pages l' := freePages_congr hsize
    show (freePages s'.mBlockSize m' l' ++ given).Perm _
    rw [hpages]
    exact h.perm
  · exact h.same.trans (hm.untouched.mono fun p hp => h.given_mem hp)

end

end Serves

/-! ## From the head block -/

lemma setHead_size (b : Nat) : (s.setHead b).mem.size = s.mem.size := by
  simp only [setHead]
  split <;> rfl

section

variable (h : s.Free (a :: l)) (hbs : 0 < s.mBlockSize)

include h hbs

lemma serves_setHead :
    Serves s (a :: l) (s.setHead (s.mem.next a)) l (blockPages s.mBlockSize a (s.mem.size a)) := by
  obtain ⟨hfree, hlinks⟩ := h.dropHead hbs
  refine ⟨rfl, hfree, ?_, ?_⟩
  · have hpages : (s.setHead (s.mem.next a)).pages l = s.pages l :=
      freePages_congr fun b _ => by rw [setHead_size]
    rw [hpages]
    exact perm_append_comm
  · refine hlinks.untouched.mono ?_
    exact fun b hb => h.subset_freePages hbs (mem_cons_of_mem _ hb)

lemma removeBlock_setHead :
    (s.setHead (s.mem.next a)).mem.removeBlock a = (s.setHead (s.mem.next a)).mem := by
  have hnext : s.mem.next a = l.headD 0 := h.linked.next_head
  have hprev : s.mem.prev a = 0 := h.first a (by simp)
  cases l with
  | nil =>
    have hnil : s.mem.next a = 0 := hnext
    simp [setHead, removeBlock, hprev, hnil]
  | cons b l =>
    have hb : s.mem.next a = b := hnext
    have hb0 : b ≠ 0 := (h.blocks b (by simp)).ne_zero
    have hab : a ≠ b := fun heq => (nodup_cons.1 (h.nodup_blocks hbs)).1 (by simp [heq])
    simp [setHead, removeBlock, hprev, hb, hb0, hab, setPrev]

lemma serves_split (hlt : size < s.mem.size a) (hdvd : s.mBlockSize ∣ size) (hpos : 0 < size) :
    ∃ m1 b, s.mem.splitBlock a size = some (m1, b) ∧ b ≠ 0 ∧ b + size < wordCount ∧
      Serves s (a :: l) { s with mem := m1.removeBlock b } (a :: l)
        (blockPages s.mBlockSize b size) := by
  obtain ⟨m1, b, hsplit, hfree, ⟨hb, hbound⟩, hsame, hperm⟩ := h.takeTail hbs hlt hdvd hpos
  refine ⟨m1, b, hsplit, hb, hbound, rfl, hfree, hperm, hsame.mono ?_⟩
  intro p hp
  rcases mem_pair.1 hp with rfl | rfl
  · exact h.subset_freePages hbs (by simp)
  · exact hperm.subset (mem_append_right _ (self_mem_blockPages hbs hdvd hpos))

end

lemma allocateBlock_refused (h : s.Free l)
    (hsmall : size = 0 ∨ ∀ a ∈ l.head?, s.mem.size a < size) :
    s.allocateBlock size = some (s, 0) := by
  by_cases hzero : size = 0
  · exact if_pos hzero
  replace hsmall := hsmall.resolve_left hzero
  cases l with
  | nil =>
    have hhead : s.mHead = 0 := h.head_eq
    rw [allocateBlock, if_neg hzero, if_pos hhead]
  | cons a l =>
    have hhead : s.mHead = a := h.head_eq
    have hprev : s.mem.prev a = 0 := h.first a (by simp)
    rw [allocateBlock, if_neg hzero, hhead, if_neg (h.blocks a (mem_cons_self ..)).ne_zero,
      if_neg (not_not.2 hprev), if_pos (hsmall a rfl)]

lemma allocateBlock_served (h : s.Free (a :: l)) (hbs : 0 < s.mBlockSize)
    (hdvd : s.mBlockSize ∣ size) (hpos : 0 < size) (hle : size ≤ s.mem.size a) :
    ∃ s' b l', s.allocateBlock size = some (s', b) ∧ b ≠ 0 ∧ b + size < wordCount ∧
      Serves s (a :: l) s' l' (blockPages s.mBlockSize b size) := by
  have hblock := h.blocks a (mem_cons_self ..)
  have hhead : s.mHead = a := h.head_eq
  have hprev : s.mem.prev a = 0 := h.first a (by simp)
  rw [allocateBlock, if_neg hpos.ne', hhead, if_neg hblock.ne_zero, if_neg (not_not.2 hprev),
    if_neg (not_lt.2 hle)]
  by_cases heq : s.mem.size a = size
  · refine ⟨s.setHead (s.mem.next a), a, l, if_pos heq, hblock.ne_zero, heq ▸ hblock.bound, ?_⟩
    exact heq ▸ serves_setHead h hbs
  · obtain ⟨m1, b, hsplit, hb, hbound, hserves⟩ := serves_split h hbs (by omega) hdvd hpos
    refine ⟨_, b, a :: l, ?_, hb, hbound, hserves⟩
    rw [if_neg heq, hsplit]
    simp [hhead]

lemma allocateBlock_spec (h : s.Free l) (hbs : 0 < s.mBlockSize) (hdvd : s.mBlockSize ∣ size) :
    s.allocateBlock size = some (s, 0) ∨
      ∃ s' b l', s.allocateBlock size = some (s', b) ∧ b ≠ 0 ∧ 0 < size ∧ b + size < wordCount ∧
        Serves s l s' l' (blockPages s.mBlockSize b size) := by
  by_cases hsmall : size = 0 ∨ ∀ a ∈ l.head?, s.mem.size a < size
  · exact .inl (allocateBlock_refused h hsmall)
  right
  push Not at hsmall
  obtain ⟨hzero, a, ha, hle⟩ := hsmall
  obtain ⟨l, rfl⟩ := head?_eq_some_iff.1 ha
  have hpos : 0 < size := Nat.pos_of_ne_zero hzero
  obtain ⟨s', b, l', hrun, hb, hbound, hserves⟩ := allocateBlock_served h hbs hdvd hpos hle
  exact ⟨s', b, l', hrun, hb, hpos, hbound, hserves⟩

lemma serves_defragment (h : s.Free l) (hbs : 0 < s.mBlockSize) :
    ∃ s' l', s.defragment = some s' ∧ Serves s l s' l' [] ∧ Merges s.mem l s'.mem l' := by
  match l, h with
  | [], h =>
    exact ⟨s, [], if_pos (.inl h.head_eq), .refl h, [], .refl _, .nil, rfl⟩
  | [a], h =>
    have hhead : s.mHead = a := h.head_eq
    have hnext : s.mem.next s.mHead = 0 := by
      rw [hhead]
      exact h.linked.next_head
    exact ⟨s, [a], if_pos (.inr hnext), .refl h, [a], .refl _, pairwise_singleton _ _, rfl⟩
  | a :: b :: l, h =>
    obtain ⟨m', l', hrun, hfree, hperm, hsame, hmerges⟩ :=
      defragment_spec hbs (AlmostLinked.of_linked h.linked (h.nodup_blocks hbs) h.zero_not_mem)
        (h.first a (by simp)) h.blocks h.nodup
    have hhead : s.mHead = a := h.head_eq
    rw [← hhead] at hrun
    refine ⟨⟨s.mBlockSize, l'.headD 0, m'⟩, l', hrun, ⟨rfl, hfree, ?_, ?_⟩, hmerges⟩
    · rw [append_nil]
      exact hperm
    · exact hsame.mono (h.subset_freePages hbs)

lemma bytesOf_eq (h : blocks * s.mBlockSize < wordCount) :
    s.bytesOf blocks = blocks * s.mBlockSize := Nat.mod_eq_of_lt h

lemma allocate_spec (h : s.Free l) (hbs : 0 < s.mBlockSize)
    (hblocks : blocks * s.mBlockSize < wordCount) :
    ∃ s' result l', s.allocate blocks = some (s', result) ∧
      ((result = .null ∧ Serves s l s' l' []) ∨
        result.mBlock ≠ 0 ∧ result.mBlock + blocks * s.mBlockSize < wordCount ∧
          Serves s l s' l' (blockPages s.mBlockSize result.mBlock (blocks * s.mBlockSize))) := by
  have hdvd : s.mBlockSize ∣ blocks * s.mBlockSize := Nat.dvd_mul_left ..
  have hbytes := bytesOf_eq hblocks
  rcases allocateBlock_spec h hbs hdvd with hnone | ⟨s', b, l', hrun, hb, -, hbound, hserves⟩
  · -- the head is too small, so that the request is made again on the merged list
    obtain ⟨s1, l1, hdefragment, hserves1, -⟩ := serves_defragment h hbs
    have hbs1 : s1.mBlockSize = s.mBlockSize := hserves1.blockSize
    have hbytes1 : s1.bytesOf blocks = blocks * s.mBlockSize := by
      rw [bytesOf, hbs1]
      exact hbytes
    have hagain := allocateBlock_spec hserves1.free (hbs1 ▸ hbs) (hbs1.symm ▸ hdvd)
    rw [hbs1] at hagain
    rcases hagain with hnone1 | ⟨s', b, l', hrun, hb, -, hbound, hserves⟩
    · refine ⟨s1, .null, l1, ?_, .inl ⟨rfl, hserves1⟩⟩
      simp [allocate, hbytes, hnone, hdefragment, hbytes1, hnone1]
    · refine ⟨s', ⟨b, s'.mem.slide b⟩, l', ?_, .inr ⟨hb, hbound, ?_⟩⟩
      · simp [allocate, hbytes, hnone, hdefragment, hbytes1, hrun, hb]
      · have hall := hserves1.trans hserves
        rw [append_nil] at hall
        exact hall
  · refine ⟨s', ⟨b, s'.mem.slide b⟩, l', ?_, .inr ⟨hb, hbound, hserves⟩⟩
    simp [allocate, hbytes, hrun, hb]

/-! ## Lists of pages -/

lemma length_pages (h : ∀ a ∈ l, FreeBlock s.mBlockSize s.mem a) :
    (s.pages l).length * s.mBlockSize = (l.map s.mem.size).sum := by
  induction l with
  | nil => simp [pages, freePages]
  | cons a l ih =>
    rw [pages, freePages_cons, length_append, Nat.add_mul, length_blockPages,
      Nat.div_mul_cancel (h a (by simp)).dvd, map_cons, sum_cons,
      ← ih fun b hb => h b (mem_cons_of_mem _ hb)]

lemma canAllocateBlocks_spec {m : BlockMemory} {need : Nat} (hlinked : Linked m.next m.prev 0 l)
    (hzero : 0 ∉ l) (hneed : 0 < need) (hfuel : l.length < fuel) :
    canAllocateBlocks m fuel (l.headD 0) need = some (decide (need ≤ (l.map m.size).sum)) := by
  induction l generalizing fuel need with
  | nil =>
    obtain ⟨fuel, rfl⟩ : ∃ k, fuel = k + 1 := ⟨fuel - 1, by omega⟩
    simp [canAllocateBlocks, hneed.ne']
  | cons a l ih =>
    obtain ⟨fuel, rfl⟩ : ∃ k, fuel = k + 1 := ⟨fuel - 1, by omega⟩
    have ha : a ≠ 0 := fun heq => hzero (by simp [heq])
    rw [headD_cons, canAllocateBlocks, if_neg ha, map_cons, sum_cons]
    by_cases hle : need ≤ m.size a
    · rw [if_pos hle, decide_eq_true (by omega)]
    · rw [if_neg hle, hlinked.next_head,
        ih hlinked.tail (fun hmem => hzero (by simp [hmem])) (by omega) (by simpa using hfuel)]
      congr 2
      exact propext (by omega)

structure Stretch (bs b count : Nat) : Prop where
  fits : bs = kPageSize ∨ count ≤ 1
  ne_zero : b ≠ 0
  bound : b + count * bs < wordCount

namespace Stretch

variable {bs b count : Nat}

lemma run_eq (h : Stretch bs b count) (hbs : 0 < bs) :
    pageRun b count = blockPages bs b (count * bs) := pageRun_eq_blockPages hbs h.fits

lemma page_ne_zero (h : Stretch bs b count) {p : Nat} (hp : p ∈ blockPages bs b (count * bs)) :
    p ≠ 0 := by
  have := blockPages_lt hp
  have := h.ne_zero
  omega

lemma page_bound (h : Stretch bs b count) {p : Nat} (hp : p ∈ blockPages bs b (count * bs)) :
    p < wordCount := by
  have := blockPages_lt hp
  have := h.bound
  omega

end Stretch

lemma Serves.ofPages {b count : Nat} (slide : Nat) (hl : s.Free l) (hbs : 0 < s.mBlockSize)
    (hrun : Stretch s.mBlockSize b (count + 1))
    (h : Serves s l s' l' (blockPages s.mBlockSize b ((count + 1) * s.mBlockSize))) :
    (ofPages ⟨b, slide⟩ (count + 1) s'.mem).2.Holds
        (ofPages ⟨b, slide⟩ (count + 1) s'.mem).1
        (blockPages s.mBlockSize b ((count + 1) * s.mBlockSize)) ∧
      Serves s l { s' with mem := (ofPages ⟨b, slide⟩ (count + 1) s'.mem).1 } l'
        (blockPages s.mBlockSize b ((count + 1) * s.mBlockSize)) := by
  have heq := hrun.run_eq hbs
  obtain ⟨hholds, hlinks⟩ := ofPages_holds s'.mem slide
    (fun p hp => hrun.page_ne_zero (heq ▸ hp)) (fun p hp => hrun.page_bound (heq ▸ hp))
  rw [heq] at hholds hlinks
  exact ⟨hholds, h.relink hl hbs hlinks⟩

lemma Serves.pushPages {b count : Nat} {held : List Nat} (slide : Nat) (hl : s.Free l)
    (hbs : 0 < s.mBlockSize) (hrun : Stretch s.mBlockSize b count)
    (h : Serves s l s' l' (blockPages s.mBlockSize b (count * s.mBlockSize)))
    (hheld : list.Holds s'.mem held) (hapart : ∀ p ∈ held, p ∉ s.pages l) :
    (list.pushPages ⟨b, slide⟩ count s'.mem).2.Holds (list.pushPages ⟨b, slide⟩ count s'.mem).1
        ((blockPages s.mBlockSize b (count * s.mBlockSize)).reverse ++ held) ∧
      (list.pushPages ⟨b, slide⟩ count s'.mem).1.size = s'.mem.size ∧
      Serves s l { s' with mem := (list.pushPages ⟨b, slide⟩ count s'.mem).1 } l'
        (blockPages s.mBlockSize b (count * s.mBlockSize)).reverse := by
  have heq := hrun.run_eq hbs
  obtain ⟨hholds, hlinks⟩ := hheld.pushPages b count slide
    (fun p hp => hrun.page_ne_zero (heq ▸ hp)) (fun p hp => hrun.page_bound (heq ▸ hp))
    (fun p hp hmem => hapart p hmem (h.given_mem (heq ▸ hp)))
  rw [heq] at hholds hlinks
  have hserves := h.relink hl hbs hlinks
  refine ⟨hholds, hlinks.size, hserves.blockSize, hserves.free, ?_, hserves.same⟩
  exact (Perm.append_left _ (reverse_perm _)).trans hserves.perm

/-- What is needed to serve a list request: enough pages, a size the machine can compute, and
blocks of the size of a page unless one block is enough. -/
structure CanServe (s : PageTableAllocator) (l : List Nat) (blocks : Nat) : Prop where
  enough : blocks ≤ (s.pages l).length
  bytes : blocks * s.mBlockSize < wordCount
  fits : s.mBlockSize = kPageSize ∨ blocks ≤ 1

lemma CanServe.rest (h : CanServe s l blocks) (h' : Serves s l s' l' given)
    (hle : given.length ≤ blocks) : CanServe s' l' (blocks - given.length) := by
  have hlength := h'.perm.length_eq
  rw [length_append] at hlength
  have henough := h.enough
  refine ⟨by omega, ?_, ?_⟩
  · rw [h'.blockSize]
    exact lt_of_le_of_lt (Nat.mul_le_mul_right _ (Nat.sub_le ..)) h.bytes
  · rw [h'.blockSize]
    exact h.fits.imp id fun h => by omega

lemma CanServe.ne_nil (h : CanServe s l remaining) (hpos : 0 < remaining) : l ≠ [] := by
  rintro rfl
  have henough := h.enough
  simp only [pages, freePages, flatMap_nil, length_nil] at henough
  omega

lemma allocateListLoop_zero :
    allocateListLoop (fuel + 1) s list 0 = some (s, list) := by
  rw [allocateListLoop, if_pos rfl]

section

variable (hl : s.Free l) (hbs : 0 < s.mBlockSize)

include hl hbs

lemma allocateListLoop_spec {held : List Nat} (hcan : CanServe s l remaining)
    (hheld : list.Holds s.mem held) (hapart : ∀ p ∈ held, p ∉ s.pages l)
    (hfuel : l.length + 1 < fuel) :
    ∃ s' list' l' given, allocateListLoop fuel s list remaining = some (s', list') ∧
      list'.Holds s'.mem (given ++ held) ∧ given.length = remaining ∧ Serves s l s' l' given := by
  induction fuel generalizing s l list held remaining with
  | zero => omega
  | succ fuel ih =>
    by_cases hzero : remaining = 0
    · subst hzero
      exact ⟨s, list, l, [], allocateListLoop_zero, hheld, rfl, .refl hl⟩
    obtain ⟨fuel, rfl⟩ : ∃ k, fuel = k + 1 := ⟨fuel - 1, by omega⟩
    have hremaining : 0 < remaining := Nat.pos_of_ne_zero hzero
    obtain ⟨a, l, rfl⟩ := exists_cons_of_ne_nil (hcan.ne_nil hremaining)
    have hblock := hl.blocks a (mem_cons_self ..)
    have hhead : s.mHead = a := hl.head_eq
    have hbytes := bytesOf_eq hcan.bytes
    have hdvd : s.mBlockSize ∣ remaining * s.mBlockSize := Nat.dvd_mul_left ..
    rw [allocateListLoop]
    simp only [if_neg hzero, hhead, if_neg hblock.ne_zero, hbytes]
    by_cases hlt : remaining * s.mBlockSize < s.mem.size a
    · -- the end of the block is enough
      obtain ⟨m1, b, hsplit, hb, hbound, hserves⟩ :=
        serves_split hl hbs hlt hdvd (Nat.mul_pos hremaining hbs)
      have hheld1 : list.Holds (m1.removeBlock b) held := hheld.untouched hserves.same hapart
      obtain ⟨hholds, -, hserves'⟩ := hserves.pushPages
        ((m1.removeBlock b).slide b) hl hbs ⟨hcan.fits, hb, hbound⟩ hheld1 hapart
      refine ⟨_, _, a :: l, _, ?_, hholds, by simp [Nat.mul_div_cancel _ hbs], hserves'⟩
      simp [if_pos hlt, hsplit, Option.bind_some, allocateListLoop_zero, hhead]
    have hserves := serves_setHead hl hbs
    have hremove := removeBlock_setHead hl hbs
    have hheld1 : list.Holds (s.setHead (s.mem.next a)).mem held :=
      hheld.untouched hserves.same hapart
    by_cases heq : s.mem.size a = remaining * s.mBlockSize
    · -- the block is what remains
      rw [heq] at hserves
      obtain ⟨hholds, -, hserves'⟩ := hserves.pushPages
        ((s.setHead (s.mem.next a)).mem.slide a) hl hbs
        ⟨hcan.fits, hblock.ne_zero, heq ▸ hblock.bound⟩ hheld1 hapart
      refine ⟨_, _, l, _, ?_, hholds, by simp [Nat.mul_div_cancel _ hbs], hserves'⟩
      simp only [if_neg hlt, if_pos heq, hremove]
      exact allocateListLoop_zero
    · -- the whole block, and more from the next one
      obtain ⟨k, hk⟩ := hblock.dvd
      rw [Nat.mul_comm] at hk
      have hdiv : s.mem.size a / s.mBlockSize = k := by
        rw [hk, Nat.mul_div_cancel _ hbs]
      have hklt : k < remaining := by
        exact Nat.lt_of_mul_lt_mul_right (a := s.mBlockSize) (by omega)
      rw [hk] at hserves
      obtain ⟨hholds, hsize, hserves1⟩ := hserves.pushPages
        ((s.setHead (s.mem.next a)).mem.slide a) hl hbs
        ⟨hcan.fits.imp id (by omega), hblock.ne_zero, hk ▸ hblock.bound⟩ hheld1 hapart
      have hgiven : (blockPages s.mBlockSize a (k * s.mBlockSize)).reverse.length = k := by
        rw [length_reverse, length_blockPages, Nat.mul_div_cancel _ hbs]
      have hcan1 := hcan.rest hserves1 (by omega)
      rw [hgiven] at hcan1
      have hapart1 : ∀ p ∈ (blockPages s.mBlockSize a (k * s.mBlockSize)).reverse ++ held,
          p ∉ freePages s.mBlockSize (list.pushPages ⟨a, (s.setHead (s.mem.next a)).mem.slide a⟩ k
            (s.setHead (s.mem.next a)).mem).1 l := by
        intro p hp hmem
        rcases mem_append.1 hp with hp | hp
        · exact hserves1.given_apart hl hp hmem
        · exact hapart p hp (hserves1.perm.subset (mem_append_left _ hmem))
      obtain ⟨s', list', l', given, hrun, hholds', hlength', hserves'⟩ :=
        ih hserves1.free hbs hcan1 hholds hapart1 (by simpa using hfuel)
      refine ⟨s', list', l', given ++ (blockPages s.mBlockSize a (k * s.mBlockSize)).reverse, ?_,
        by simpa using hholds', by rw [length_append]; omega, hserves1.trans hserves'⟩
      have hbs' : (s.setHead (s.mem.next a)).mBlockSize = s.mBlockSize := rfl
      simp only [if_neg hlt, if_neg heq, hremove, setHead_size, hbs', hdiv, hsize]
      exact hrun

lemma allocateHead_spec (hcan : CanServe s l remaining) (hremaining : 0 < remaining) :
    ∃ s' list l' given, s.allocateHead remaining = some (s', list, remaining - given.length) ∧
      list.Holds s'.mem given ∧ given.length ≤ remaining ∧ Serves s l s' l' given := by
  obtain ⟨a, l, rfl⟩ := exists_cons_of_ne_nil (hcan.ne_nil hremaining)
  have hblock := hl.blocks a (mem_cons_self ..)
  have hhead : s.mHead = a := hl.head_eq
  have hprev : s.mem.prev a = 0 := hl.first a (by simp)
  have hbytes := bytesOf_eq hcan.bytes
  have hdvd : s.mBlockSize ∣ remaining * s.mBlockSize := Nat.dvd_mul_left ..
  have hlength : ∀ b count, (blockPages s.mBlockSize b (count * s.mBlockSize)).length = count := by
    intro b count
    rw [length_blockPages, Nat.mul_div_cancel _ hbs]
  have hdiv : ∀ count, count * s.mBlockSize / s.mBlockSize = count :=
    fun count => Nat.mul_div_cancel _ hbs
  have hstart : ¬ (a = 0 ∨ s.mem.prev a ≠ 0) := by
    rw [hprev]
    exact not_or.2 ⟨hblock.ne_zero, by simp⟩
  rw [allocateHead]
  simp only [hhead, hbytes, if_neg hstart]
  by_cases hlt : remaining * s.mBlockSize < s.mem.size a
  · obtain ⟨m1, b, hsplit, hb, hbound, hserves⟩ :=
      serves_split hl hbs hlt hdvd (Nat.mul_pos hremaining hbs)
    obtain ⟨count, rfl⟩ : ∃ k, remaining = k + 1 := ⟨remaining - 1, by omega⟩
    obtain ⟨hholds, hserves'⟩ := hserves.ofPages ((m1.removeBlock b).slide b) hl hbs
      ⟨hcan.fits, hb, hbound⟩
    refine ⟨_, _, a :: l, _, ?_, hholds, (hlength ..).le, hserves'⟩
    simp only [if_pos hlt, hsplit, Option.bind_eq_bind, Option.bind_some, hdiv, hhead, hlength,
      Nat.sub_self]
    rfl
  have hserves := serves_setHead hl hbs
  -- the block as a number of pages, all of them asked for
  obtain ⟨k, hk⟩ := hblock.dvd
  rw [Nat.mul_comm] at hk
  have hkpos : 0 < k := by
    have hpos := hblock.pos
    rw [hk] at hpos
    exact Nat.pos_of_ne_zero (by rintro rfl; simp at hpos)
  have hkle : k ≤ remaining := by
    exact Nat.le_of_mul_le_mul_right (by omega) hbs
  rw [hk] at hserves
  obtain ⟨count, rfl⟩ : ∃ n, k = n + 1 := ⟨k - 1, by omega⟩
  obtain ⟨hholds, hserves'⟩ := hserves.ofPages
    ((s.setHead (s.mem.next a)).mem.slide a) hl hbs
    ⟨hcan.fits.imp id (by omega), hblock.ne_zero, hk ▸ hblock.bound⟩
  refine ⟨_, _, l, _, ?_, hholds, by rw [hlength]; exact hkle, hserves'⟩
  have hbs' : (s.setHead (s.mem.next a)).mBlockSize = s.mBlockSize := rfl
  rw [if_neg hlt]
  by_cases heq : s.mem.size a = remaining * s.mBlockSize
  · obtain rfl : remaining = count + 1 := by
      rw [hk] at heq
      exact (Nat.eq_of_mul_eq_mul_right hbs heq).symm
    simp only [if_pos heq, hbs', hdiv, hlength, Nat.sub_self]
  · rw [if_neg heq]
    simp [hk, hbs', hdiv]

lemma allocateList_spec (hblocks : 0 < blocks) (hbytes : blocks * s.mBlockSize < wordCount)
    (hfits : s.mBlockSize = kPageSize ∨ blocks ≤ 1) :
    s.allocateList blocks = some (s, none) ∨
      ∃ s' list l' given, s.allocateList blocks = some (s', some list) ∧
        list.Holds s'.mem given ∧ given.length = blocks ∧ Serves s l s' l' given := by
  have hcheck : canAllocateBlocks s.mem walkLimit s.mHead (s.bytesOf blocks) =
      some (decide (blocks * s.mBlockSize ≤ (s.pages l).length * s.mBlockSize)) := by
    rw [bytesOf_eq hbytes, length_pages hl.blocks, hl.head_eq]
    exact canAllocateBlocks_spec hl.linked hl.zero_not_mem (Nat.mul_pos hblocks hbs)
      (Nat.lt_of_succ_lt (hl.length_lt hbs))
  by_cases henough : blocks ≤ (s.pages l).length
  · right
    have hcan : CanServe s l blocks := ⟨henough, hbytes, hfits⟩
    obtain ⟨s1, list1, l1, given1, hhead, hholds1, hle, hserves1⟩ :=
      allocateHead_spec hl hbs hcan hblocks
    have hbs1 : 0 < s1.mBlockSize := hserves1.blockSize ▸ hbs
    obtain ⟨s', list, l', given, hloop, hholds, hlength, hserves⟩ :=
      allocateListLoop_spec hserves1.free hbs1 (hcan.rest hserves1 hle) hholds1
        (fun p hp => hserves1.given_apart hl hp) (hserves1.free.length_lt hbs1)
    refine ⟨s', list, l', given ++ given1, ?_, hholds, ?_, hserves1.trans hserves⟩
    · rw [allocateList, hcheck, decide_eq_true (Nat.mul_le_mul_right _ henough)]
      simp [hhead, hloop]
    · rw [length_append]
      omega
  · left
    have hlt : ¬ blocks * s.mBlockSize ≤ (s.pages l).length * s.mBlockSize := by
      intro hle
      exact henough (Nat.le_of_mul_le_mul_right hle hbs)
    rw [allocateList, hcheck, decide_eq_false hlt]
    rfl

end

end PageTableAllocator
end BezOS
