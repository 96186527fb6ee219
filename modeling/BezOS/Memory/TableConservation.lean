import Mathlib.Data.List.Forall2
import BezOS.Lib.Transition
import BezOS.Memory.TableReturns

/-!
# Conservation of page table memory

A page table allocator and its clients. The clients hold pages one by one (`loose`) or in lists,
may write what they like into the pages they hold one by one, and give pages back in any order
and in any pieces. Every page supplied is on the free list or with a client, and never both.

The request sizes are multiplied in 64 bits and `PageTableAllocation::offset` counts in pages
whatever the block size is, so that this holds as long as the products fit and lists are only cut
from blocks of the size of a page.
-/

namespace BezOS

open Lib BlockMemory PageTableAllocator

/-- The blocks reached from `a` by forward links. -/
def BlockMemory.walk (m : BlockMemory) : Nat → Nat → Option (List Nat)
  | 0, _ => none
  | fuel + 1, a => if a = 0 then some [] else (walk m fuel (m.next a)).map (a :: ·)

/-- The ranges of `s` bytes at `a` and of `t` bytes at `b` have no byte in common. -/
def Apart (a s b t : Nat) : Prop := a + s ≤ b ∨ b + t ≤ a

structure TableSystem where
  alloc : PageTableAllocator
  /-- The pages clients hold outside of lists. -/
  loose : List Nat
  /-- The lists clients hold. -/
  lists : List PageTableList
  /-- The pages of the memory given to `create` and `addMemory`. -/
  supplied : List Nat

inductive TableCall
  | allocate (blocks : Nat)
  | allocateList (blocks : Nat)
  | allocateExtra (blocks list : Nat)
  | deallocate (ptr blocks slide : Nat)
  | deallocateList (list : Nat)
  | defragment
  | addMemory (range : AnyRange)
  /-- `PageTableList::next` on a list of a client. -/
  | next (list : Nat)
  /-- A client writes into a page it holds. -/
  | store (page next prev size slide : Nat)

namespace TableSystem

/-- The pages of `blocks` blocks. -/
def run (s : TableSystem) (ptr blocks : Nat) : List Nat :=
  blockPages s.alloc.mBlockSize ptr (blocks * s.alloc.mBlockSize)

def create (memory : AnyRange) (slide blockSize : Nat) (m : BlockMemory) :
    Except OsStatus TableSystem := do
  let alloc ← PageTableAllocator.create memory slide blockSize m
  return ⟨alloc, [], [], blockPages blockSize memory.front memory.bytes⟩

def step (s : TableSystem) : TableCall → Option TableSystem
  | .allocate blocks => do
    let (alloc, result) ← s.alloc.allocate blocks
    if result.isPresent then
      return { s with alloc, loose := s.run result.mBlock blocks ++ s.loose }
    else
      return { s with alloc }
  | .allocateList blocks => do
    match ← s.alloc.allocateList blocks with
    | (alloc, some list) => return { s with alloc, lists := list :: s.lists }
    | (alloc, none) => return { s with alloc }
  | .allocateExtra blocks i => do
    let list ← s.lists[i]?
    match ← s.alloc.allocateExtra blocks list with
    | (alloc, some list) => return { s with alloc, lists := s.lists.set i list }
    | (alloc, none) => return { s with alloc }
  | .deallocate ptr blocks slide => do
    let alloc ← s.alloc.deallocate ptr blocks slide
    return { s with alloc, loose := s.loose.filter (· ∉ s.run ptr blocks) }
  | .deallocateList i => do
    let list ← s.lists[i]?
    let alloc ← s.alloc.deallocateList walkLimit list
    return { s with alloc, lists := s.lists.eraseIdx i }
  | .defragment => do
    let alloc ← s.alloc.defragment
    return { s with alloc }
  | .addMemory range => do
    let alloc ← s.alloc.addMemory range
    return { s with
      alloc, supplied := blockPages s.alloc.mBlockSize range.front range.bytes ++ s.supplied }
  | .next i => do
    let list ← s.lists[i]?
    let (mem, page, list) ← list.next s.alloc.mem
    return { s with
      alloc := { s.alloc with mem }, loose := page.mBlock :: s.loose, lists := s.lists.set i list }
  | .store page next prev size slide =>
    some { s with alloc := { s.alloc with mem := s.alloc.mem.setBlock page next prev size slide } }

/-- What the allocator asks of its clients: counts are positive, a page is given back by its
holder, an exhausted list is not asked for a page, and memory is added once, in whole blocks. -/
def Legal (s : TableSystem) : TableCall → Prop
  | .allocate _ => True
  | .allocateList blocks => 0 < blocks
  | .allocateExtra blocks i => 0 < blocks ∧ i < s.lists.length
  | .deallocate ptr blocks _ => 0 < blocks ∧ ∀ p ∈ s.run ptr blocks, p ∈ s.loose
  | .deallocateList i => i < s.lists.length
  | .defragment => True
  | .addMemory range => PageTableAllocator.Addable s.alloc.mBlockSize range ∧
      ∀ p ∈ blockPages s.alloc.mBlockSize range.front range.bytes, p ∉ s.supplied
  | .next i => ∃ list ∈ s.lists[i]?, list.mTable.isPresent
  | .store page _ _ _ _ => page ∈ s.loose

/-- Where the code is right: the size of a request is less than `2 ^ 64` bytes, and a list is cut
from blocks of the size of a page. -/
def Fits (s : TableSystem) : TableCall → Prop
  | .allocate blocks => blocks * s.alloc.mBlockSize < wordCount
  | .allocateList blocks | .allocateExtra blocks _ =>
    blocks * s.alloc.mBlockSize < wordCount ∧ (s.alloc.mBlockSize = kPageSize ∨ blocks ≤ 1)
  | .next _ => kPageSize ≤ s.alloc.mBlockSize
  | _ => True

instance (s : TableSystem) : DecidablePred s.Legal := fun call =>
  match call with
  | .allocate _ | .defragment => inferInstanceAs (Decidable True)
  | .allocateList _ | .deallocateList _ => inferInstanceAs (Decidable (_ < _))
  | .allocateExtra .. | .deallocate .. => inferInstanceAs (Decidable (_ ∧ _))
  | .addMemory _ => inferInstanceAs (Decidable (_ ∧ _))
  | .next i => inferInstanceAs (Decidable (∃ list ∈ s.lists[i]?, list.mTable.isPresent))
  | .store .. => inferInstanceAs (Decidable (_ ∈ _))

instance (s : TableSystem) : DecidablePred s.Fits := fun call =>
  match call with
  | .allocate _ => inferInstanceAs (Decidable (_ < _))
  | .allocateList _ | .allocateExtra .. => inferInstanceAs (Decidable (_ ∧ _))
  | .next _ => inferInstanceAs (Decidable (_ ≤ _))
  | .deallocate .. | .deallocateList _ | .defragment | .addMemory _ | .store .. =>
    inferInstanceAs (Decidable True)

/-- The free blocks and the pages of the lists are those the links lead to; free blocks are
disjoint from each other and from what clients hold; together they are the supplied pages. -/
def Conserved (s : TableSystem) : Prop :=
  ∃ free held, s.alloc.mem.walk walkLimit s.alloc.mHead = some free ∧
    List.Forall₂ (fun list pages => s.alloc.mem.walk walkLimit list.mTable.mBlock = some pages)
      s.lists held ∧
    free.Pairwise (fun a b => Apart a (s.alloc.mem.size a) b (s.alloc.mem.size b)) ∧
    (∀ a ∈ free, ∀ p ∈ s.loose ++ held.flatten,
      Apart a (s.alloc.mem.size a) p s.alloc.mBlockSize) ∧
    (s.alloc.pages free ++ (s.loose ++ held.flatten)).Perm s.supplied ∧ s.supplied.Nodup

/-! ## The invariant -/

abbrev Hold (m : BlockMemory) (lists : List PageTableList) (held : List (List Nat)) : Prop :=
  List.Forall₂ (fun list pages => list.Holds m pages) lists held

/-- The state with its free blocks and the pages of its lists. -/
structure Balanced (s : TableSystem) (free : List Nat) (held : List (List Nat)) : Prop where
  blockSize : 0 < s.alloc.mBlockSize
  freeList : s.alloc.Free free
  holds : Hold s.alloc.mem s.lists held
  perm : (s.alloc.pages free ++ (s.loose ++ held.flatten)).Perm s.supplied
  nodup : s.supplied.Nodup
  page : ∀ p ∈ s.supplied, p ≠ 0 ∧ s.alloc.mBlockSize ∣ p ∧ p + s.alloc.mBlockSize < wordCount

variable {s : TableSystem} {free free' given P loose : List Nat} {held held' : List (List Nat)}
  {alloc : PageTableAllocator} {lists : List PageTableList} {m m' : BlockMemory} {memory : AnyRange}
  {p blocks i : Nat}

lemma Hold.untouched (h : Hold m lists held) (hm : Untouched P m m')
    (hP : ∀ p ∈ held.flatten, p ∉ P) :
    Hold m' lists held := by
  induction h with
  | nil => exact .nil
  | cons hlist _ ih =>
    refine .cons (hlist.untouched hm fun p hp => hP p (List.mem_append_left _ hp)) ?_
    exact ih fun p hp => hP p (List.mem_append_right _ hp)

lemma Hold.cut {list : PageTableList} (h : Hold m lists held) (hi : lists[i]? = some list) :
    ∃ before after pages u v, lists = before ++ list :: after ∧ before.length = i ∧
      held = u ++ pages :: v ∧ Hold m before u ∧ list.Holds m pages ∧ Hold m after v := by
  induction h generalizing i with
  | nil => simp at hi
  | @cons list' pages' lists' held' hlist hrest ih =>
    cases i with
    | zero =>
      obtain rfl : list' = list := by simpa using hi
      exact ⟨[], lists', pages', [], held', rfl, rfl, rfl, .nil, hlist, hrest⟩
    | succ i =>
      obtain ⟨before, after, pages, u, v, rfl, hlength, rfl, hbefore, hholds, hafter⟩ :=
        ih (by simpa using hi)
      exact ⟨list' :: before, after, pages, pages' :: u, v, rfl, by simp [hlength], rfl,
        .cons hlist hbefore, hholds, hafter⟩

lemma flatten_cut_perm (u v : List (List Nat)) (pages : List Nat) :
    (u ++ pages :: v).flatten.Perm (pages ++ (u ++ v).flatten) := by
  rw [List.perm_iff_count]
  intro p
  simp only [List.flatten_append, List.flatten_cons, List.count_append]
  omega

namespace Balanced

section

variable (h : Balanced s free held)

include h

lemma held_apart (hp : p ∈ held.flatten) :
    p ∉ s.alloc.pages free ∧ p ∉ s.loose := by
  have hnodup := h.perm.nodup_iff.2 h.nodup
  rw [List.nodup_append, List.nodup_append] at hnodup
  obtain ⟨-, ⟨-, -, hloose⟩, hfree⟩ := hnodup
  refine ⟨fun hmem => hfree p hmem p (List.mem_append_right _ hp) rfl, ?_⟩
  exact fun hmem => hloose p hmem p hp rfl

lemma loose_apart (hp : p ∈ s.loose) :
    p ∉ s.alloc.pages free := by
  intro hmem
  have hnodup := h.perm.nodup_iff.2 h.nodup
  exact (List.nodup_append.1 hnodup).2.2 p hmem p (List.mem_append_left _ hp) rfl

lemma free_supplied (hp : p ∈ s.alloc.pages free) :
    p ∈ s.supplied := h.perm.subset (List.mem_append_left _ hp)

lemma loose_supplied (hp : p ∈ s.loose) :
    p ∈ s.supplied := h.perm.subset (List.mem_append_right _ (List.mem_append_left _ hp))

lemma held_supplied (hp : p ∈ held.flatten) :
    p ∈ s.supplied := h.perm.subset (List.mem_append_right _ (List.mem_append_right _ hp))

lemma nodup_loose : s.loose.Nodup := by
  have hnodup := h.perm.nodup_iff.2 h.nodup
  rw [List.nodup_append, List.nodup_append] at hnodup
  exact hnodup.2.1.1

lemma nodup_flatten : held.flatten.Nodup := by
  have hnodup := h.perm.nodup_iff.2 h.nodup
  rw [List.nodup_append, List.nodup_append] at hnodup
  exact hnodup.2.1.2.1

lemma nodup_held {pages : List Nat} (hpages : pages ∈ held) :
    pages.Nodup := (List.nodup_flatten.1 h.nodup_flatten).1 pages hpages

lemma holds_serves (hserves : s.alloc.Serves free alloc free' given) :
    Hold alloc.mem s.lists held :=
  h.holds.untouched hserves.same fun _ hp => (h.held_apart hp).1

lemma serve (hserves : s.alloc.Serves free alloc free' given) (hholds : Hold alloc.mem lists held')
    (hperm : (loose ++ held'.flatten).Perm (given ++ (s.loose ++ held.flatten))) :
    Balanced { s with alloc, loose, lists } free' held' where
  blockSize := hserves.blockSize ▸ h.blockSize
  freeList := hserves.free
  holds := hholds
  perm := by
    refine ((List.Perm.append_left _ hperm).trans ?_).trans h.perm
    rw [← List.append_assoc]
    exact hserves.perm.append_right _
  nodup := h.nodup
  page := by
    rw [hserves.blockSize]
    exact h.page

lemma giveBack {taken : List Nat} (hreturns : s.alloc.Returns free alloc free' taken)
    (hholds : Hold alloc.mem lists held')
    (hperm : (taken ++ (loose ++ held'.flatten)).Perm (s.loose ++ held.flatten)) :
    Balanced { s with alloc, loose, lists } free' held' where
  blockSize := hreturns.blockSize ▸ h.blockSize
  freeList := hreturns.free
  holds := hholds
  perm := by
    refine List.Perm.trans ?_ ((List.Perm.append_left _ hperm).trans h.perm)
    refine (hreturns.perm.append_right _).trans ?_
    rw [← List.append_assoc (s.alloc.pages free)]
    exact List.perm_append_comm.append_right _
  nodup := h.nodup
  page := by
    rw [hreturns.blockSize]
    exact h.page

lemma write (hm : Untouched P s.alloc.mem m) (hP : ∀ p ∈ P, p ∉ s.alloc.pages free)
    (hholds : Hold m lists held') (hperm : (loose ++ held'.flatten).Perm (s.loose ++ held.flatten))
    :
    Balanced { s with alloc := { s.alloc with mem := m }, loose, lists } free held' := by
  have hfree : FreeList s.alloc.mBlockSize m s.alloc.mHead free :=
    h.freeList.untouched h.blockSize hm fun p hp hmem => hP p hmem hp
  have hpages : freePages s.alloc.mBlockSize m free = s.alloc.pages free := by
    refine freePages_congr ?_
    exact fun a ha => hm.size fun hmem => hP a hmem (h.freeList.subset_freePages h.blockSize ha)
  refine ⟨h.blockSize, hfree, hholds, ?_, h.nodup, h.page⟩
  show (freePages s.alloc.mBlockSize m free ++ _).Perm _
  rw [hpages]
  exact (List.Perm.append_left _ hperm).trans h.perm

end

/-! ## One call -/

section

variable (h : Balanced s free held)

include h

lemma step_allocate (hfits : s.Fits (.allocate blocks)) :
    ∃ t free' held', s.step (.allocate blocks) = some t ∧ Balanced t free' held' := by
  obtain ⟨alloc, result, free', hrun, hcases⟩ :=
    PageTableAllocator.allocate_spec h.freeList h.blockSize hfits
  rcases hcases with ⟨rfl, hserves⟩ | ⟨hne, -, hserves⟩
  · refine ⟨{ s with alloc }, free', held, ?_, h.serve hserves (h.holds_serves hserves) (by simp)⟩
    simp [step, hrun, PageTableAllocation.isPresent, PageTableAllocation.null]
  · refine ⟨{ s with alloc, loose := s.run result.mBlock blocks ++ s.loose }, free', held, ?_,
      h.serve hserves (h.holds_serves hserves) ?_⟩
    · simp [step, hrun, PageTableAllocation.isPresent, hne]
    · rw [List.append_assoc]
      exact List.Perm.refl _

lemma step_allocateList (hlegal : s.Legal (.allocateList blocks))
    (hfits : s.Fits (.allocateList blocks)) :
    ∃ t free' held', s.step (.allocateList blocks) = some t ∧ Balanced t free' held' := by
  rcases PageTableAllocator.allocateList_spec h.freeList h.blockSize hlegal hfits.1 hfits.2 with
    hnone | ⟨alloc, list, free', given, hrun, hholds, -, hserves⟩
  · exact ⟨s, free, held, by simp [step, hnone], h⟩
  · refine ⟨{ s with alloc, lists := list :: s.lists }, free', given :: held, by simp [step, hrun],
      h.serve hserves (.cons hholds (h.holds_serves hserves)) ?_⟩
    rw [List.flatten_cons, ← List.append_assoc, ← List.append_assoc]
    exact List.perm_append_comm.append_right _

lemma step_defragment :
    ∃ t free' held', s.step .defragment = some t ∧ Balanced t free' held' := by
  obtain ⟨alloc, free', hrun, hserves, -⟩ :=
    PageTableAllocator.serves_defragment h.freeList h.blockSize
  refine ⟨{ s with alloc }, free', held, by simp [step, hrun], ?_⟩
  exact h.serve hserves (h.holds_serves hserves) (by simp)

lemma given_lt (hserves : s.alloc.Serves free alloc free' given) :
    given.length + 1 < walkLimit := by
  apply FreeList.length_lt_walkLimit
  · exact (List.nodup_append.1 (hserves.perm.nodup_iff.2 h.freeList.nodup)).2.1
  · intro p hp
    have := (h.page p (h.free_supplied (hserves.given_mem hp))).2.2
    omega

lemma step_allocateExtra (hlegal : s.Legal (.allocateExtra blocks i))
    (hfits : s.Fits (.allocateExtra blocks i)) :
    ∃ t free' held', s.step (.allocateExtra blocks i) = some t ∧ Balanced t free' held' := by
  obtain ⟨hblocks, hi⟩ := hlegal
  have hlist : s.lists[i]? = some s.lists[i] := List.getElem?_eq_getElem hi
  generalize s.lists[i] = list at hlist
  rcases PageTableAllocator.allocateList_spec h.freeList h.blockSize hblocks hfits.1 hfits.2 with
    hnone | ⟨alloc, extra, free', given, hrun, hextra, -, hserves⟩
  · refine ⟨s, free, held, ?_, h⟩
    simp [step, hlist, PageTableAllocator.allocateExtra, hnone]
  · obtain ⟨before, after, pages, u, v, hlists, rfl, rfl, hbefore, hpages, hafter⟩ :=
      Hold.cut (h.holds_serves hserves) hlist
    have hapart : ∀ p ∈ (u ++ pages :: v).flatten, p ∉ given :=
      fun p hp hmem => (h.held_apart hp).1 (hserves.given_mem hmem)
    have hnodup : (given ++ pages).Nodup := by
      refine List.nodup_append.2 ⟨?_, h.nodup_held (by simp), ?_⟩
      · exact (List.nodup_append.1 (hserves.perm.nodup_iff.2 h.freeList.nodup)).2.1
      · rintro p hp q hq rfl
        exact hapart p (List.mem_flatten.2 ⟨pages, by simp, hq⟩) hp
    obtain ⟨m', list', happend, hlist', hlinks⟩ :=
      hpages.append hextra hnodup (Nat.lt_of_succ_lt (h.given_lt hserves))
    have hserves' := hserves.relink h.freeList h.blockSize hlinks
    refine ⟨{ s with alloc := { alloc with mem := m' }, lists := before ++ list' :: after }, free',
      u ++ (given.reverse ++ pages) :: v, ?_, h.serve hserves' ?_ ?_⟩
    · simp [step, hlists, PageTableAllocator.allocateExtra, hrun, happend]
    · refine List.rel_append (hbefore.untouched hlinks.untouched ?_)
        (.cons hlist' (hafter.untouched hlinks.untouched ?_))
      · exact fun p hp => hapart p (by simp [hp])
      · exact fun p hp => hapart p (by simp [hp])
    · rw [List.perm_iff_count]
      intro p
      simp only [List.flatten_append, List.flatten_cons, List.count_append, List.count_reverse]
      omega

lemma holds_returns {taken : List Nat} (hreturns : s.alloc.Returns free alloc free' taken)
    (hlists : Hold s.alloc.mem lists held')
    (hsub : ∀ p ∈ held'.flatten, p ∈ held.flatten ∧ p ∉ taken) :
    Hold alloc.mem lists held' := by
  refine hlists.untouched hreturns.same ?_
  intro p hp hmem
  rcases List.mem_append.1 hmem with hmem | hmem
  · exact (hsub p hp).2 hmem
  · exact (h.held_apart (hsub p hp).1).1 hmem

lemma step_deallocate {ptr slide : Nat} (hlegal : s.Legal (.deallocate ptr blocks slide)) :
    ∃ t free' held', s.step (.deallocate ptr blocks slide) = some t ∧ Balanced t free' held' := by
  obtain ⟨hblocks, hloose⟩ := hlegal
  have hbs := h.blockSize
  have hself : ptr ∈ s.run ptr blocks :=
    self_mem_blockPages hbs (Nat.dvd_mul_left ..) (Nat.mul_pos hblocks hbs)
  have hbound : ptr + blocks * s.alloc.mBlockSize < wordCount := by
    -- the last page of the run is a page that was supplied
    have hlast : ptr + (blocks - 1) * s.alloc.mBlockSize ∈ s.run ptr blocks := by
      refine mem_blockPages.2 ⟨blocks - 1, ?_, rfl⟩
      rw [Nat.mul_div_cancel _ hbs]
      omega
    have hpage := (h.page _ (h.loose_supplied (hloose _ hlast))).2.2
    have hmul : (blocks - 1) * s.alloc.mBlockSize + s.alloc.mBlockSize =
        blocks * s.alloc.mBlockSize := by
      rw [← Nat.succ_mul, Nat.succ_eq_add_one, Nat.sub_add_cancel hblocks]
    omega
  obtain ⟨alloc, hrun, hreturns⟩ := deallocate_spec slide h.freeList hbs
    hblocks (h.page ptr (h.loose_supplied (hloose ptr hself))).1 hbound
    (fun p hp => h.loose_apart (hloose p hp))
  refine ⟨{ s with alloc, loose := s.loose.filter (· ∉ s.run ptr blocks) }, ptr :: free, held,
    by simp [step, hrun], h.giveBack hreturns (h.holds_returns hreturns h.holds ?_) ?_⟩
  · exact fun p hp => ⟨hp, fun hmem => (h.held_apart hp).2 (hloose p hmem)⟩
  · rw [← List.append_assoc]
    refine List.Perm.append_right _ ?_
    have hnodup : (s.run ptr blocks ++ s.loose.filter (· ∉ s.run ptr blocks)).Nodup := by
      refine List.nodup_append.2 ⟨nodup_blockPages hbs, h.nodup_loose.filter _, ?_⟩
      rintro p hp q hq rfl
      simpa [hp] using (List.mem_filter.1 hq).2
    refine (List.perm_ext_iff_of_nodup hnodup h.nodup_loose).2 ?_
    intro p
    rw [List.mem_append, List.mem_filter]
    by_cases hp : p ∈ s.run ptr blocks
    · simp [hp, hloose p hp]
    · simp [hp]

lemma step_deallocateList (hlegal : s.Legal (.deallocateList i)) :
    ∃ t free' held', s.step (.deallocateList i) = some t ∧ Balanced t free' held' := by
  have hlist : s.lists[i]? = some s.lists[i] := List.getElem?_eq_getElem hlegal
  generalize s.lists[i] = list at hlist
  obtain ⟨before, after, pages, u, v, hlists, rfl, rfl, hbefore, hpages, hafter⟩ :=
    Hold.cut h.holds hlist
  have hmem : ∀ p ∈ pages, p ∈ (u ++ pages :: v).flatten :=
    fun p hp => List.mem_flatten.2 ⟨pages, by simp, hp⟩
  have hpage : ∀ p ∈ pages, p + s.alloc.mBlockSize < wordCount :=
    fun p hp => (h.page p (h.held_supplied (hmem p hp))).2.2
  have hnodup : (pages ++ s.alloc.pages free).Nodup := by
    refine List.nodup_append.2 ⟨h.nodup_held (by simp), h.freeList.nodup, ?_⟩
    rintro p hp q hq rfl
    exact (h.held_apart (hmem p hp)).1 hq
  have hlength : pages.length < walkLimit := by
    apply Nat.lt_of_succ_lt
    apply FreeList.length_lt_walkLimit (h.nodup_held (by simp))
    intro p hp
    have := hpage p hp
    omega
  obtain ⟨alloc, free', hrun, hreturns⟩ :=
    deallocateList_spec h.freeList h.blockSize hpages hnodup hpage hlength
  refine ⟨{ s with alloc, lists := before ++ after }, free', u ++ v, ?_, h.giveBack hreturns
    (h.holds_returns hreturns (List.rel_append hbefore hafter) ?_) ?_⟩
  · have herase : (before ++ list :: after).eraseIdx before.length = before ++ after := by
      rw [List.eraseIdx_append_of_length_le le_rfl, Nat.sub_self, List.eraseIdx_cons_zero]
    simp [step, hlists, hrun, herase]
  · have hcut : (pages ++ (u ++ v).flatten).Nodup :=
      (flatten_cut_perm u v pages).nodup_iff.1 h.nodup_flatten
    intro p hp
    refine ⟨(flatten_cut_perm u v pages).symm.subset (List.mem_append_right _ hp), ?_⟩
    exact fun hmem => (List.nodup_append.1 hcut).2.2 p hmem p hp rfl
  · refine List.Perm.symm ((List.Perm.append_left _ (flatten_cut_perm u v pages)).trans ?_)
    rw [← List.append_assoc, ← List.append_assoc]
    exact List.perm_append_comm.append_right _

lemma step_addMemory {range : AnyRange} (hlegal : s.Legal (.addMemory range)) :
    ∃ t free' held', s.step (.addMemory range) = some t ∧ Balanced t free' held' := by
  obtain ⟨hrange, hfresh⟩ := hlegal
  obtain ⟨alloc, free', hrun, hreturns⟩ := addMemory_spec h.freeList h.blockSize
    hrange fun p hp hmem => hfresh p hp (h.free_supplied hmem)
  have hholds : Hold alloc.mem s.lists held :=
    h.holds_returns hreturns h.holds fun p hp => ⟨hp, fun hmem => hfresh p hmem (h.held_supplied hp)⟩
  refine ⟨{ s with
      alloc, supplied := blockPages s.alloc.mBlockSize range.front range.bytes ++ s.supplied },
    free', held, by simp [step, hrun], ?_⟩
  have hbs := hreturns.blockSize
  refine ⟨hbs ▸ h.blockSize, hreturns.free, hholds, ?_, ?_, ?_⟩
  · refine (hreturns.perm.append_right _).trans ?_
    rw [List.append_assoc]
    exact List.Perm.append_left _ h.perm
  · refine List.nodup_append.2 ⟨nodup_blockPages h.blockSize, h.nodup, ?_⟩
    rintro p hp q hq rfl
    exact hfresh p hp hq
  · intro p hp
    rw [hbs]
    rcases List.mem_append.1 hp with hp | hp
    · exact hrange.page hp
    · exact h.page p hp

lemma step_next (hlegal : s.Legal (.next i)) :
    ∃ t free' held', s.step (.next i) = some t ∧ Balanced t free' held' := by
  obtain ⟨list, hlist, hpresent⟩ := hlegal
  obtain ⟨before, after, pages, u, v, hlists, rfl, rfl, hbefore, hpages, hafter⟩ :=
    Hold.cut h.holds hlist
  obtain ⟨a, pages, rfl⟩ : ∃ a rest, pages = a :: rest := by
    cases pages with
    | nil => exact absurd hpresent hpages.not_present
    | cons a rest => exact ⟨a, rest, rfl⟩
  obtain ⟨rfl, -, -, htail⟩ := hpages.drain_cons
  generalize ha : list.mTable.mBlock = a at *
  have hmem : a ∈ (u ++ (a :: pages) :: v).flatten := by simp
  have hsame : Untouched [a] s.alloc.mem (s.alloc.mem.setBlock a 0 0 0 0) :=
    (Untouched.refl _ _).setBlock (by simp) _ _ _ _
  have hcut := (flatten_cut_perm u v (a :: pages)).nodup_iff.1 h.nodup_flatten
  rw [List.cons_append, List.nodup_cons, List.flatten_append] at hcut
  refine ⟨{ s with
      alloc := { s.alloc with mem := s.alloc.mem.setBlock a 0 0 0 0 }, loose := a :: s.loose,
      lists := before ++ ⟨list.mTable.getNext s.alloc.mem⟩ :: after },
    free, u ++ pages :: v, ?_, h.write hsame ?_ ?_ ?_⟩
  · simp [step, hlists, PageTableList.next, hpresent, ha]
  · intro p hp
    obtain rfl : p = a := by simpa using hp
    exact (h.held_apart hmem).1
  · refine List.rel_append (hbefore.untouched hsame ?_)
      (.cons (htail.untouched hsame ?_) (hafter.untouched hsame ?_))
    all_goals
      rintro p hp hmem
      obtain rfl : p = a := by simpa using hmem
      exact hcut.1 (by simp [hp])
  · rw [List.perm_iff_count]
    intro p
    simp only [List.flatten_append, List.flatten_cons, List.count_append, List.cons_append,
      List.count_cons]
    omega

lemma step_store {page next prev size slide : Nat}
    (hlegal : s.Legal (.store page next prev size slide)) :
    ∃ t free' held', s.step (.store page next prev size slide) = some t ∧
      Balanced t free' held' := by
  have hsame : Untouched [page] s.alloc.mem (s.alloc.mem.setBlock page next prev size slide) :=
    (Untouched.refl _ _).setBlock (by simp) _ _ _ _
  refine ⟨_, free, held, rfl, h.write hsame ?_ (h.holds.untouched hsame ?_) (List.Perm.refl _)⟩
  · intro p hp
    obtain rfl : p = page := by simpa using hp
    exact h.loose_apart hlegal
  · intro p hp hmem
    obtain rfl : p = page := by simpa using hmem
    exact (h.held_apart hp).2 hlegal

lemma step_legal {call : TableCall} (hlegal : s.Legal call) (hfits : s.Fits call) :
    ∃ t free' held', s.step call = some t ∧ Balanced t free' held' := by
  cases call with
  | allocate blocks => exact h.step_allocate hfits
  | allocateList blocks => exact h.step_allocateList hlegal hfits
  | allocateExtra blocks i => exact h.step_allocateExtra hlegal hfits
  | deallocate ptr blocks slide => exact h.step_deallocate hlegal
  | deallocateList i => exact h.step_deallocateList hlegal
  | defragment => exact h.step_defragment
  | addMemory range => exact h.step_addMemory hlegal
  | next i => exact h.step_next hlegal
  | store page next prev size slide => exact h.step_store hlegal

end

end Balanced

/-! ## What the invariant says -/

lemma walk_of_chain {fuel a : Nat} {l : List Nat} (h : Chain (fun a => link (m.next a)) (link a) l)
    (hfuel : l.length < fuel) :
    m.walk fuel a = some l := by
  induction l generalizing fuel a with
  | nil =>
    obtain ⟨fuel, rfl⟩ : ∃ k, fuel = k + 1 := ⟨fuel - 1, by omega⟩
    by_cases ha : a = 0
    · simp [walk, ha]
    · rw [link_of_ne ha] at h
      cases h
  | cons b l ih =>
    obtain ⟨fuel, rfl⟩ : ∃ k, fuel = k + 1 := ⟨fuel - 1, by omega⟩
    by_cases ha : a = 0
    · rw [ha] at h
      cases h
    · rw [link_of_ne ha] at h
      obtain ⟨l', heq, htail⟩ := h.some_inv
      obtain ⟨rfl, rfl⟩ := List.cons.inj heq
      rw [walk, if_neg ha, ih htail (by simpa using hfuel)]
      rfl

lemma chain_of_linked {l : List Nat} (h : Linked m.next m.prev 0 l) (hzero : 0 ∉ l) :
    Chain (fun a => link (m.next a)) (link (l.headD 0)) l := by
  induction l with
  | nil => exact .nil
  | cons a l ih =>
    rw [List.headD_cons, link_of_ne fun heq => hzero (by simp [heq])]
    refine .cons ?_
    rw [h.next_head]
    exact ih h.tail fun hmem => hzero (List.mem_cons_of_mem _ hmem)

lemma Hold.walk (h : Hold m lists held) (hheld : ∀ pages ∈ held, pages.length + 1 < walkLimit) :
    List.Forall₂ (fun list pages => m.walk walkLimit list.mTable.mBlock = some pages) lists held := by
  induction h with
  | nil => exact .nil
  | cons hlist _ ih =>
    refine .cons (walk_of_chain hlist (Nat.lt_of_succ_lt (hheld _ (by simp)))) ?_
    exact ih fun pages hpages => hheld pages (List.mem_cons_of_mem _ hpages)

lemma apart_of_pages {bs a s b t : Nat} (hbs : 0 < bs) (ha : bs ∣ a) (hb : bs ∣ b) (hs : bs ∣ s)
    (ht : bs ∣ t) (hs0 : 0 < s) (ht0 : 0 < t)
    (hpages : ∀ p ∈ blockPages bs a s, p ∉ blockPages bs b t) : Apart a s b t := by
  by_contra hmeet
  rw [Apart, not_or, not_le, not_le] at hmeet
  -- the block that starts later starts on a page of the other
  have hstart : ∀ {a b s : Nat}, bs ∣ a → bs ∣ b → bs ∣ s → a ≤ b → b < a + s →
      b ∈ blockPages bs a s := by
    rintro a b s ⟨i, rfl⟩ ⟨j, rfl⟩ ⟨k, rfl⟩ hle hlt
    rw [← Nat.mul_add] at hlt
    have hij : i ≤ j := Nat.le_of_mul_le_mul_left hle hbs
    have hjk : j < i + k := Nat.lt_of_mul_lt_mul_left hlt
    refine mem_blockPages.2 ⟨j - i, ?_, ?_⟩
    · rw [Nat.mul_div_cancel_left _ hbs]
      omega
    · rw [Nat.mul_comm (j - i), ← Nat.mul_add, Nat.add_sub_cancel' hij]
  rcases le_total a b with hab | hba
  · exact hpages b (hstart ha hb hs hab hmeet.1) (self_mem_blockPages hbs ht ht0)
  · exact hpages a (self_mem_blockPages hbs hs hs0) (hstart hb ha ht hba hmeet.2)

lemma Balanced.conserved (h : Balanced s free held) : s.Conserved := by
  have hbs := h.blockSize
  have hfree := h.freeList
  have hdvd : ∀ a ∈ free, s.alloc.mBlockSize ∣ a :=
    fun a ha => (h.page a (h.free_supplied (hfree.subset_freePages hbs ha))).2.1
  refine ⟨free, held, ?_, ?_, ?_, ?_, h.perm, h.nodup⟩
  · rw [hfree.head_eq]
    exact walk_of_chain (chain_of_linked hfree.linked hfree.zero_not_mem)
      (Nat.lt_of_succ_lt (hfree.length_lt hbs))
  · refine h.holds.walk ?_
    intro pages hpages
    apply FreeList.length_lt_walkLimit (h.nodup_held hpages)
    intro p hp
    have := (h.page p (h.held_supplied (List.mem_flatten.2 ⟨pages, hpages, hp⟩))).2.2
    omega
  · have hpair := (List.nodup_flatMap.1 hfree.nodup).2
    refine hpair.imp_of_mem ?_
    intro a b ha hb hdisj
    have hA := hfree.blocks a ha
    have hB := hfree.blocks b hb
    exact apart_of_pages hbs (hdvd a ha) (hdvd b hb) hA.dvd hB.dvd hA.pos hB.pos
      fun p hp hp' => hdisj hp hp'
  · intro a ha p hp
    have hA := hfree.blocks a ha
    have hp' : p ∈ s.supplied := h.perm.subset (List.mem_append_right _ hp)
    have hapart : p ∉ s.alloc.pages free := by
      rcases List.mem_append.1 hp with hp | hp
      · exact h.loose_apart hp
      · exact (h.held_apart hp).1
    refine apart_of_pages hbs (hdvd a ha) (h.page p hp').2.1 hA.dvd (Nat.dvd_refl _) hA.pos hbs ?_
    intro q hq hq'
    obtain ⟨i, hi, rfl⟩ := mem_blockPages.1 hq'
    rw [Nat.div_self hbs] at hi
    obtain rfl : i = 0 := by omega
    rw [zero_mul, Nat.add_zero] at hq
    exact hapart (List.mem_flatMap.2 ⟨a, ha, hq⟩)

/-! ## From `create` on -/

/-- `sizeof(ControlBlock)`: smaller blocks do not hold their own control block. -/
def controlBlockSize : Nat := 32

lemma aligned_eq_self {bs : Nat} (hbs : 0 < bs) (hsize : bs ≤ memory.bytes)
    (h : memory.aligned bs = memory) :
    memory.front < memory.back ∧ bs ∣ memory.front ∧ bs ∣ memory.back := by
  unfold AnyRange.aligned at h
  simp only at h
  split at h
  · rw [← h] at hsize
    simp [AnyRange.bytes, wrapSub] at hsize
    omega
  · rename_i hlt
    have hfront : roundup memory.front bs = memory.front := congrArg AnyRange.front h
    have hback : rounddown memory.back bs = memory.back := congrArg AnyRange.back h
    refine ⟨by omega, ?_, ?_⟩
    · rw [← hfront]
      exact Nat.dvd_mul_left ..
    · rw [← hback]
      exact Nat.dvd_mul_left ..

lemma balanced_of_create {slide blockSize : Nat} (hcreate : create memory slide blockSize m = .ok s)
    (hmemory : memory.front ≠ 0 ∧ memory.back < wordCount) (hblock : controlBlockSize ≤ blockSize) :
    ∃ free held, Balanced s free held := by
  obtain ⟨hfront, hback⟩ := hmemory
  have hbs : 0 < blockSize := lt_of_lt_of_le (by decide) hblock
  unfold create PageTableAllocator.create at hcreate
  split at hcreate
  · rename_i hvalid
    obtain ⟨-, hsize, haligned⟩ := hvalid
    obtain ⟨hlt, hdvdFront, hdvdBack⟩ := aligned_eq_self hbs hsize haligned
    have hbytes := bytes_eq hlt hback
    have hdvd : blockSize ∣ memory.bytes := hbytes ▸ Nat.dvd_sub hdvdBack hdvdFront
    cases hcreate
    have hpages : freePages blockSize (m.setBlock memory.front 0 0 memory.bytes slide)
        [memory.front] = blockPages blockSize memory.front memory.bytes := by
      simp [freePages, setBlock]
    refine ⟨[memory.front], [], hbs, ⟨rfl, by simp [setBlock], by simp [setBlock], ?_, ?_⟩, .nil, ?_,
      nodup_blockPages hbs, ?_⟩
    · intro a ha
      obtain rfl : a = memory.front := by simpa using ha
      refine ⟨hfront, ?_, ?_, ?_⟩ <;> simp [setBlock]
      · exact hdvd
      · omega
      · omega
    · rw [hpages]
      exact nodup_blockPages hbs
    · show (freePages blockSize (m.setBlock memory.front 0 0 memory.bytes slide)
        [memory.front] ++ []).Perm _
      rw [hpages, List.append_nil]
    · intro p hp
      have hpage := blockPages_lt hp
      refine ⟨by omega, ?_, ?_⟩
      · obtain ⟨i, -, rfl⟩ := mem_blockPages.1 hp
        exact Nat.dvd_add hdvdFront (Nat.dvd_mul_left ..)
      · show p + blockSize < wordCount
        omega
  · cases hcreate

/-- One call of a client, within the bounds of `Fits`. -/
def LegalStep (s : TableSystem) (call : TableCall) (t : TableSystem) : Prop :=
  (s.Legal call ∧ s.Fits call) ∧ s.step call = some t

lemma poolBalanced_of_run {slide blockSize : Nat} {t : TableSystem} {calls : List TableCall}
    (hcreate : create memory slide blockSize m = .ok s)
    (hmemory : memory.front ≠ 0 ∧ memory.back < wordCount) (hblock : controlBlockSize ≤ blockSize)
    (hrun : Run LegalStep s calls t) : ∃ free held, Balanced t free held := by
  have hstep : ∀ s call t, (∃ free held, Balanced s free held) → LegalStep s call t →
      ∃ free held, Balanced t free held := by
    rintro s call t ⟨free, held, h⟩ ⟨⟨hlegal, hfits⟩, hstep⟩
    obtain ⟨t', free', held', hstep', h'⟩ := h.step_legal hlegal hfits
    obtain rfl : t' = t := Option.some.inj (hstep'.symm.trans hstep)
    exact ⟨free', held', h'⟩
  exact hrun.invariant hstep (balanced_of_create hcreate hmemory hblock)

/-- No page is lost and none is handed out twice, in every state of every run; and no call of a
client stops the machine. -/
theorem conserved_of_run {memory : AnyRange} {slide blockSize : Nat} {m : BlockMemory}
    {t : TableSystem} {calls : List TableCall}
    (hcreate : create memory slide blockSize m = .ok s)
    (hmemory : memory.front ≠ 0 ∧ memory.back < wordCount) (hblock : controlBlockSize ≤ blockSize)
    (hrun : Run LegalStep s calls t) :
    t.Conserved ∧ ∀ call, t.Legal call → t.Fits call → ∃ u, t.step call = some u := by
  obtain ⟨free, held, h⟩ := poolBalanced_of_run hcreate hmemory hblock hrun
  refine ⟨h.conserved, ?_⟩
  intro call hlegal hfits
  obtain ⟨u, -, -, hu, -⟩ := h.step_legal hlegal hfits
  exact ⟨u, hu⟩

def zeroMemory : BlockMemory := ⟨fun _ => 0, fun _ => 0, fun _ => 0, fun _ => 0⟩

/-- `step` for `runGuarded`. -/
def stepOrStop (s : TableSystem) (call : TableCall) : Except Unit TableSystem :=
  (s.step call).elim (.error ()) .ok

lemma legalStep_of_guarded {t : TableSystem} {call : TableCall}
    (h : (s.Legal call ∧ s.Fits call) ∧ s.stepOrStop call = .ok t) : LegalStep s call t := by
  refine ⟨h.1, ?_⟩
  have hstep := h.2
  unfold stepOrStop at hstep
  cases hs : s.step call with
  | none => simp [hs] at hstep
  | some u => simpa [hs] using hstep

/-- Four pages, two more, requests of every kind, a list cut from two blocks, and every page
back. -/
theorem conserved_of_tour : ∃ s t, create ⟨4096, 20480⟩ 0 kPageSize zeroMemory = .ok s ∧
    Run LegalStep s [.allocate 1, .allocateList 2, .deallocate 16384 1 0,
      .addMemory ⟨40960, 49152⟩, .allocateExtra 2 0, .next 0, .deallocateList 0, .defragment] t ∧
    t.Conserved := by
  have hsome : ((create ⟨4096, 20480⟩ 0 kPageSize zeroMemory).toOption.bind fun s =>
      runGuarded (fun s call => s.Legal call ∧ s.Fits call) stepOrStop s
        [.allocate 1, .allocateList 2, .deallocate 16384 1 0, .addMemory ⟨40960, 49152⟩,
          .allocateExtra 2 0, .next 0, .deallocateList 0, .defragment]).isSome = true := by
    decide +kernel
  obtain ⟨t, ht⟩ := Option.isSome_iff_exists.1 hsome
  obtain ⟨s, hs, ht⟩ := Option.bind_eq_some_iff.1 ht
  have hcreate := eq_ok_of_toOption hs
  have hrun := (Run.of_runGuarded ht).mono fun _ _ _ h => legalStep_of_guarded h
  exact ⟨s, t, hcreate, hrun, (conserved_of_run hcreate (by decide) (by decide) hrun).1⟩

lemma step_of_allocate {blocks : Nat} {result : PageTableAllocation}
    (h : s.alloc.allocate blocks = some (alloc, result)) (hresult : result.isPresent) :
    s.step (.allocate blocks) =
      some { s with alloc, loose := s.run result.mBlock blocks ++ s.loose } := by
  simp [step, h, hresult]

/-- `2 ^ 52 + 1` blocks of 4096 bytes are 4096 bytes in 64 bits, so that a request for more
blocks than there are gets one. -/
theorem not_conserved_of_overflow : ∃ s t, create ⟨4096, 20480⟩ 0 kPageSize zeroMemory = .ok s ∧
    Run (fun s call t => s.Legal call ∧ s.step call = some t) s [.allocate (2 ^ 52 + 1)] t ∧
    ¬ t.Conserved := by
  have hsome : ((create ⟨4096, 20480⟩ 0 kPageSize zeroMemory).toOption.bind fun s =>
      (s.alloc.allocate (2 ^ 52 + 1)).bind fun r =>
        if r.2.isPresent ∧ s.alloc.mBlockSize = kPageSize ∧ s.supplied.length = 4 then some ()
        else none).isSome = true := by
    decide +kernel
  obtain ⟨u, ht⟩ := Option.isSome_iff_exists.1 hsome
  obtain ⟨s, hs, ht⟩ := Option.bind_eq_some_iff.1 ht
  obtain ⟨⟨alloc, result⟩, hallocate, hu⟩ := Option.bind_eq_some_iff.1 ht
  obtain ⟨hresult, hbs, hsupplied⟩ :
      result.isPresent ∧ s.alloc.mBlockSize = kPageSize ∧ s.supplied.length = 4 := by
    by_contra hnot
    rw [if_neg hnot] at hu
    cases hu
  have hcreate := eq_ok_of_toOption hs
  refine ⟨s, _, hcreate, Run.single ⟨trivial, step_of_allocate hallocate hresult⟩, ?_⟩
  -- more pages are held than there are
  rintro ⟨free, held, -, -, -, -, hperm, -⟩
  have hlength := hperm.length_eq
  simp only [List.length_append, run, length_blockPages, hbs, hsupplied] at hlength
  rw [Nat.mul_div_cancel _ (by decide)] at hlength
  omega

end TableSystem

end BezOS
