import BezOS.Memory.TlsfChain

/-!
# Edits of the chain

What the heap does to neighbouring blocks: two blocks become one, a block from the pool goes
between two others, and a block that is in no list gets another offset and size. Each edit is given
by the writes the source makes, in their order.
-/

namespace BezOS
namespace Tlsf

open Lib Laid List TlsfHeap TlsfBlock

namespace Represents

variable {h h' : TlsfHeap} {rs l t : List Region} {r : Region} {lists : Nat → List BlockPtr}
  {spare : List BlockPtr} {c : BlockPtr} {blocks : BlockPtr → Option TlsfBlock}
  {g : TlsfBlock → TlsfBlock}

/-! ## Merging two blocks -/

lemma merge {p b : Region} (hr : Represents h (l ++ p :: b :: t) lists spare)
    (hp : p.used = true) (hb : b.used = true ∨ b.block = h.mNullBlock) :
    ∃ h', mergeBlock b.block p.block h = .ok ((), h') ∧ h'.mNullBlock = h.mNullBlock ∧
      h'.mBlockPool.grants = h.mBlockPool.grants ∧ Keeps h h' ∧
      Represents h' (l ++ ⟨b.block, p.offset, b.size + p.size, b.used⟩ :: t) lists spare := by
  have hr' : Represents h ((l ++ [p]) ++ b :: t) lists spare := by simpa using hr
  obtain ⟨kp, hkp⟩ := hr.stores
  obtain ⟨kb, hkb⟩ := hr'.stores
  have hlne : ∀ q ∈ l, q.block ≠ b.block ∧ q.block ≠ p.block := fun q hq =>
    ⟨hr'.other_ne (by simp [hq]), hr.other_ne (by simp [hq])⟩
  have htne : ∀ q ∈ t, q.block ≠ b.block := fun q hq => hr'.other_ne (by simp [hq])
  have hlast : ∀ a, (blocksOf l).getLast? = some a → a ∈ blocksOf l :=
    fun a ha => mem_of_getLast? ha
  have hlsome : ∀ a ∈ blocksOf l, (h.blocks a).isSome := fun a ha =>
    (hr.objects a).2 (.inl (by simp [ha]))
  have hnodup := hr.blocks_nodup
  rw [blocksOf_append] at hnodup
  have hdisjoint := (nodup_append.1 hnodup).2.2
  obtain ⟨h1, hh1⟩ : ∃ h1, h1 = h.edit (some b.block) fun b =>
    { b with offset := kp.offset, size := b.size + kp.size, prev := kp.prev } := ⟨_, rfl⟩
  obtain ⟨h2, hh2⟩ : ∃ h2, h2 = h1.edit (blocksOf l).getLast?
    fun x => { x with next := some b.block } := ⟨_, rfl⟩
  have hsome1 : ∀ a, (h1.blocks a).isSome = (h.blocks a).isSome := by
    intro a
    rw [hh1, isSome_edit]
  have hsome2 : ∀ a, (h2.blocks a).isSome = (h.blocks a).isSome := by
    intro a
    rw [hh2, isSome_edit, hsome1]
  have hcore1 : ∀ a, h1.coreOf a = if some b.block = some a then (h.coreOf a).map (fun k =>
      { k with offset := kp.offset, size := k.size + kp.size, prev := kp.prev }) else h.coreOf a := by
    intro a
    rw [hh1]
    exact coreOf_edit (fun _ => rfl) a
  have hcore2 : ∀ a, h2.coreOf a = if (blocksOf l).getLast? = some a then
      (h1.coreOf a).map (fun k => { k with next := some b.block }) else h1.coreOf a := by
    intro a
    rw [hh2]
    exact coreOf_edit (fun _ => rfl) a
  have hlinks : h2.nextFreeOf = h.nextFreeOf ∧ h2.prevFreeOf = h.prevFreeOf := by
    have hl1 := links_edit (h := h) (p := some b.block) (f := fun b =>
      { b with offset := kp.offset, size := b.size + kp.size, prev := kp.prev })
      fun _ => ⟨rfl, rfl⟩
    have hl2 := links_edit (h := h1) (p := (blocksOf l).getLast?)
      (f := fun x => { x with next := some b.block }) fun _ => ⟨rfl, rfl⟩
    rw [← hh1] at hl1
    rw [← hh2] at hl2
    exact ⟨hl2.1.trans hl1.1, hl2.2.trans hl1.2⟩
  have hnull2 : h2.mNullBlock = h.mNullBlock := by rw [hh2, hh1]; rfl
  have hlaid := append_iff.1 hr.laid
  obtain ⟨hlaidl, hcorep, hcoreb, hlaidt⟩ := hlaid
  have hr2 : Represents h2 (l ++ ⟨b.block, p.offset, b.size + p.size, b.used⟩ :: t) lists
      (p.block :: spare) := by
    refine hr.rechain ?_ ?_ hsome2 (fun i a _ => by rw [hlinks.1, hlinks.2]; exact ⟨rfl, rfl⟩) ?_ ?_
      ?_ ?_ ?_ ?_ ?_
    · refine middle_iff.2 ⟨hlaidl.turn_last (nodup_append.1 hnodup).1 fun a ha => ?_, ?_,
        hlaidt.congr fun a ha => ?_⟩
      · obtain ⟨q, hq, rfl⟩ := mem_blocksOf.1 ha
        have hnot : ¬ some b.block = some q.block := by simpa using Ne.symm (hlne q hq).1
        rw [hcore2, hcore1, if_neg hnot]
      · have hnot : ¬ (blocksOf l).getLast? = some b.block := by
          intro hmem
          exact hdisjoint _ (hlast _ hmem) b.block (by simp) rfl
        rw [hcore2, if_neg hnot, hcore1, if_pos rfl, hcoreb]
        simp [hkp.offset, hkp.size, hkp.prev]
      · obtain ⟨q, hq, rfl⟩ := mem_blocksOf.1 ha
        have hnot : ¬ (blocksOf l).getLast? = some q.block := by
          intro hmem
          exact hdisjoint _ (hlast _ hmem) q.block (by simp [block_mem hq]) rfl
        rw [hcore2, if_neg hnot, hcore1, if_neg (by simpa using Ne.symm (htne q hq))]
    · have hperm1 : (blocksOf (l ++ p :: b :: t) ++ spare).Perm
          (p.block :: (blocksOf l ++ (b.block :: blocksOf t) ++ spare)) := by
        simp
      have hperm2 : (blocksOf (l ++ ⟨b.block, p.offset, b.size + p.size, b.used⟩ :: t) ++
          p.block :: spare).Perm (p.block :: (blocksOf l ++ (b.block :: blocksOf t) ++ spare)) := by
        rw [blocksOf_append, blocksOf_cons]
        exact perm_middle
      exact hperm2.trans hperm1.symm
    · rw [hh2, hh1]
      exact (hr.listed.headed.edit _ _).edit _ _
    · rw [hh2, hh1]
      rfl
    · intro q hq
      rw [mem_append, mem_cons] at hq
      have hold : ∀ q, q ∈ l ++ p :: b :: t → Placed h2 lists q := fun q hq =>
        (hr.placed hq).congr (by rw [hlinks.2]) (by rw [hnull2])
      rcases hq with hq | rfl | hq
      · exact hold q (by simp [hq])
      · have hplaced := hold b (by simp)
        rcases hb with hused | hnull
        · exact placed_used hused ((hplaced.mark).2 hused) (hr'.used_not_listed hused)
        · have hused : b.used = false := by
            cases hu : b.used
            · rfl
            · have hmark := (hr'.marks b (by simp)).2 hu
              rw [hnull, hr.nullFree] at hmark
              cases hmark
          refine placed_null (hnull.trans hnull2.symm) hused ?_ fun i => ?_
          · show h2.prevFreeOf b.block = none
            rw [hlinks.2, hnull, hr.nullFree]
          · show b.block ∉ lists i
            rw [hnull]
            exact hr.null_not_listed
      · exact hold q (by simp [hq])
    · have hnull := hr.null
      rw [hnull2]
      simpa [getLast?_append, getLast?_cons] using hnull
    · rw [hlinks.2, hnull2]
      exact hr.nullFree
    · rw [hlinks.1, hnull2]
      exact hr.nullLink
    · intro i a ha
      have hmem := hr.only i a ha
      simp only [blocksOf_append, blocksOf_cons, mem_append, mem_cons] at hmem ⊢
      have hap : a ≠ p.block := by
        rintro rfl
        exact hr.used_not_listed hp i ha
      tauto
  obtain ⟨h', hdestroy, hr3, hnull3, hgrants, hkeeps⟩ := hr2.destroy_spare
  refine ⟨h', ?_, hnull3.trans hnull2, ?_, ?_, hr3⟩
  · have hcheck : (kb.prev == some p.block) = true := by
      rw [hkb.prev]
      simp
    have hused : (!kp.isFree p.block) = true := by rw [hkp.free, hp]; rfl
    have hpsome : ∀ a, kp.prev = some a → (h1.blocks a).isSome := by
      intro a ha
      rw [hsome1]
      exact hlsome a (hlast a (hkp.prev ▸ ha))
    rw [mergeBlock, bind_run (deref_run hkb.block), bind_run (check_run hcheck),
      bind_run (deref_run hkp.block), bind_run (check_run hused),
      bind_run (write_run (by rw [hkb.block]; rfl)), ← hh1, bind_run (writeIf_run hpsome), hkp.prev,
      ← hh2]
    exact hdestroy
  · rw [hgrants, hh2, hh1]
    rfl
  · refine Keeps.trans ?_ hkeeps
    rw [hh2, hh1]
    exact ⟨rfl, rfl, rfl, rfl, rfl⟩

/-! ## Putting a block into the chain -/

lemma spare_fresh (hr : Represents h rs lists (c :: spare)) :
    c ∉ blocksOf rs ∧ (h.blocks c).isSome ∧ (∀ i, c ∉ lists i) ∧ c ≠ h.mNullBlock := by
  have hnot : c ∉ blocksOf rs := fun hmem =>
    (nodup_append.1 hr.nodup).2.2 c hmem c (by simp) rfl
  refine ⟨hnot, (hr.objects c).2 (.inr (by simp)), fun i hmem => hnot (hr.only i c hmem), ?_⟩
  rintro rfl
  exact hnot (mem_of_getLast? hr.null)

lemma insertAfter (hr : Represents h (l ++ r :: t) lists (c :: spare)) (hused : r.used = true)
    (o s z : Nat) (hg : ∀ k, h.blocks r.block = some k → g k = { k with size := z, next := some c })
    :
    Represents ((((h.edit (some c) fun _ =>
      ⟨o, s, some r.block, (blocksOf t).head?, none, none⟩).edit (some r.block) g).edit
        (blocksOf t).head? fun n => { n with prev := some c }).edit (some c)
          fun n => { n with prevFree := some c })
      (l ++ { r with size := z } :: ⟨c, o, s, true⟩ :: t) lists spare := by
  obtain ⟨hnot, hcsome, hclists, hcnull⟩ := hr.spare_fresh
  obtain ⟨k, hk⟩ := hr.stores
  have htnull : t ≠ [] := by
    rintro rfl
    exact absurd hused (by rw [hr.null_used]; simp)
  obtain ⟨kc, hkc⟩ := Option.isSome_iff_exists.1 hcsome
  have hrc : r.block ≠ c := fun heq => hnot (by simp [heq])
  have hnodup := hr.blocks_nodup
  have hrt : ¬ (blocksOf t).head? = some r.block := by
    intro hhead
    obtain ⟨q, hq, heq⟩ := mem_blocksOf.1 (mem_of_mem_head? hhead)
    exact hr.other_ne (by simp [hq]) heq
  have hct : ¬ (blocksOf t).head? = some c := fun hhead =>
    hnot (by simp [mem_of_mem_head? hhead])
  obtain ⟨h', hh'⟩ : ∃ h', h' = (((h.edit (some c) fun _ =>
      ⟨o, s, some r.block, (blocksOf t).head?, none, none⟩).edit (some r.block) g).edit
        (blocksOf t).head? fun n => { n with prev := some c }).edit (some c)
          fun n => { n with prevFree := some c } := ⟨_, rfl⟩
  rw [← hh']
  have hblockc : h'.blocks c =
      some ⟨o, s, some r.block, (blocksOf t).head?, none, some c⟩ := by
    rw [hh']
    simp [blocks_edit, hct, hrc, hkc]
  have hblockr : h'.blocks r.block = some { k with size := z, next := some c } := by
    rw [hh']
    simp [blocks_edit, hrt, Ne.symm hrc, hk.block, hg k hk.block]
  have hother : ∀ a, a ≠ c → a ≠ r.block → h'.blocks a =
      if (blocksOf t).head? = some a then (h.blocks a).map fun n => { n with prev := some c }
      else h.blocks a := by
    intro a hac har
    rw [hh']
    simp [blocks_edit, Ne.symm hac, Ne.symm har]
  have hlinks : ∀ a, a ≠ c → h'.nextFreeOf a = h.nextFreeOf a ∧ h'.prevFreeOf a = h.prevFreeOf a := by
    intro a hac
    by_cases har : a = r.block
    · subst har
      simp [nextFreeOf, prevFreeOf, hblockr, hk.block]
    · simp only [nextFreeOf, prevFreeOf, hother a hac har]
      split <;> cases h.blocks a <;> exact ⟨rfl, rfl⟩
  have hmNull : h'.mNullBlock = h.mNullBlock := by rw [hh']; rfl
  refine hr.rechain ?_ ?_ ?_ (fun i a ha => hlinks a fun heq => hclists i (heq ▸ ha)) ?_ ?_ ?_ ?_ ?_ ?_
    ?_
  · refine hr.laid.insert hnodup ?_ ?_ ?_
    · simp [coreOf, hblockc, core]
    · simp [coreOf, hblockr, core, hk.offset, hk.prev]
    · intro a ha
      obtain ⟨q, hq, rfl⟩ := mem_blocksOf.1 ha
      have hqc : q.block ≠ c := fun heq => hnot (by
        rw [← heq]
        rw [mem_append] at hq
        rcases hq with hq | hq <;> simp [block_mem hq])
      simp only [coreOf, hother q.block hqc (hr.other_ne hq)]
      split <;> cases h.blocks q.block <;> rfl
  · simp only [blocksOf_append, blocksOf_cons]
    have hperm : (blocksOf l ++ r.block :: c :: blocksOf t ++ spare).Perm
        (blocksOf l ++ r.block :: blocksOf t ++ c :: spare) := by
      rw [append_assoc, append_assoc]
      refine Perm.append_left _ (Perm.cons _ ?_)
      exact perm_middle.symm
    exact hperm
  · intro a
    rw [hh']
    simp
  · rw [hh']
    exact (((hr.listed.headed.edit _ _).edit _ _).edit _ _).edit _ _
  · rw [hh']
    rfl
  · intro q hq
    have hold : ∀ q ∈ l ++ r :: t, Placed h' lists q := by
      intro q hq
      refine (hr.placed hq).congr (hlinks q.block ?_).2 (by rw [hmNull])
      exact fun heq => hnot (heq ▸ block_mem hq)
    simp only [mem_append, mem_cons] at hq
    rcases hq with hq | rfl | rfl | hq
    · exact hold q (by simp [hq])
    · exact placed_used hused ((hold r (by simp)).mark.2 hused) (hr.used_not_listed hused)
    · exact placed_used rfl (by rw [prevFreeOf_eq hblockc]) hclists
    · exact hold q (by simp [hq])
  · have hnull := hr.null
    rw [hmNull]
    obtain ⟨t', z', rfl⟩ : ∃ t' z', t = t' ++ [z'] :=
      ⟨t.dropLast, t.getLast htnull, (dropLast_append_getLast htnull).symm⟩
    simpa [getLast?_append, getLast?_cons] using hnull
  · rw [hmNull, (hlinks _ (Ne.symm hcnull)).2]
    exact hr.nullFree
  · rw [hmNull, (hlinks _ (Ne.symm hcnull)).1]
    exact hr.nullLink
  · intro i a ha
    have hmem := hr.only i a ha
    simp only [blocksOf_append, blocksOf_cons, mem_append, mem_cons] at hmem ⊢
    tauto

lemma insertNull {k : TlsfBlock} (hr : Represents h (l ++ [r]) lists (c :: spare)) (o s z : Nat)
    (hk : h.blocks r.block = some k)
    (hblockc : blocks c = some ⟨o, s, some r.block, none, none, none⟩) (hblockr : blocks r.block =
      some { k with size := z, next := some c, prevFree := some r.block })
    (hother : ∀ a, a ≠ c → a ≠ r.block → blocks a = h.blocks a) :
    Represents { h with blocks := blocks, mNullBlock := c }
      (l ++ [{ r with size := z, used := true }, ⟨c, o, s, false⟩]) lists spare := by
  obtain ⟨hnot, hcsome, hclists, hcnull⟩ := hr.spare_fresh
  obtain ⟨k', hk'⟩ := hr.stores
  obtain rfl : k = k' := Option.some.inj (hk.symm.trans hk'.block)
  have hrnull : r.block = h.mNullBlock := hr.null_iff.2 rfl
  have hrlists : ∀ i, r.block ∉ lists i := fun i => by
    rw [hrnull]
    exact hr.null_not_listed
  have hl : ∀ q ∈ l, q.block ≠ c ∧ q.block ≠ r.block := fun q hq =>
    ⟨fun heq => hnot (by simp [← heq, block_mem hq]), hr.other_ne (by simp [hq])⟩
  refine hr.rechain ?_ ?_ ?_ ?_ ⟨hr.listed.headed.head, hr.listed.headed.inner,
    hr.listed.headed.top⟩ rfl ?_ ?_ ?_ ?_ ?_
  · obtain ⟨hlaid, -, -⟩ := middle_iff.1 hr.laid
    refine middle_iff.2 ⟨hlaid.congr fun a ha => ?_, ?_, ?_, trivial⟩
    · obtain ⟨q, hq, rfl⟩ := mem_blocksOf.1 ha
      simp only [coreOf, hother q.block (hl q hq).1 (hl q hq).2]
    · simp [coreOf, hblockr, core, hk'.offset, hk'.prev]
    · simp [coreOf, hblockc, core]
  · simp
  · intro a
    by_cases hac : a = c
    · subst hac
      simp [hblockc, hcsome]
    · by_cases har : a = r.block
      · subst har
        simp [hblockr, hk]
      · simp [hother a hac har]
  · intro i a ha
    have hac : a ≠ c := fun heq => hclists i (heq ▸ ha)
    have har : a ≠ r.block := fun heq => hrlists i (heq ▸ ha)
    simp [nextFreeOf, prevFreeOf, hother a hac har]
  · intro q hq
    simp only [mem_append, mem_cons, not_mem_nil, or_false] at hq
    rcases hq with hq | rfl | rfl
    · refine (hr.placed (by simp [hq])).congr ?_ ?_
      · simp only [prevFreeOf, hother q.block (hl q hq).1 (hl q hq).2]
      · rw [← hrnull]
        exact ⟨fun heq => absurd heq (hl q hq).1, fun heq => absurd heq (hl q hq).2⟩
    · refine placed_used rfl ?_ hrlists
      simp [prevFreeOf, hblockr]
    · refine placed_null rfl rfl ?_ hclists
      simp [prevFreeOf, hblockc]
  · simp [getLast?_append, getLast?_cons]
  · simp [prevFreeOf, hblockc]
  · simp [nextFreeOf, hblockc]
  · intro i a ha
    have hmem := hr.only i a ha
    simp only [blocksOf_append, blocksOf_cons, blocksOf_nil, mem_append, mem_cons,
      not_mem_nil, or_false] at hmem ⊢
    tauto

lemma insertFirst {k : TlsfBlock} (hr : Represents h (r :: t) lists (c :: spare)) (o s o' z : Nat)
    (hkeep : r.used = true ∨ r.block = h.mNullBlock ∨ getListIndex z = getListIndex r.size)
    (hk : h.blocks r.block = some k)
    (hblockc : blocks c = some ⟨o, s, none, some r.block, none, some c⟩)
    (hblockr : blocks r.block = some { k with prev := some c, offset := o', size := z })
    (hother : ∀ a, a ≠ c → a ≠ r.block → blocks a = h.blocks a) :
    Represents { h with blocks := blocks }
      (⟨c, o, s, true⟩ :: { r with offset := o', size := z } :: t) lists spare := by
  have hr' : Represents h ([] ++ r :: t) lists (c :: spare) := hr
  obtain ⟨hnot, hcsome, hclists, hcnull⟩ := hr.spare_fresh
  obtain ⟨k', hk'⟩ := hr'.stores
  obtain rfl : k = k' := Option.some.inj (hk.symm.trans hk'.block)
  have hrc : r.block ≠ c := fun heq => hnot (by simp [heq])
  have ht : ∀ q ∈ t, q.block ≠ c ∧ q.block ≠ r.block := fun q hq =>
    ⟨fun heq => hnot (by simp [← heq, block_mem hq]), hr'.other_ne (by simp [hq])⟩
  have hlinks : ∀ a, a ≠ c →
      nextFreeOf { h with blocks := blocks } a = h.nextFreeOf a ∧
      prevFreeOf { h with blocks := blocks } a = h.prevFreeOf a := by
    intro a hac
    by_cases har : a = r.block
    · subst har
      simp [nextFreeOf, prevFreeOf, hblockr, hk]
    · simp [nextFreeOf, prevFreeOf, hother a hac har]
  refine hr.rechain ?_ ?_ ?_ (fun i a ha => hlinks a fun heq => hclists i (heq ▸ ha))
    ⟨hr.listed.headed.head, hr.listed.headed.inner, hr.listed.headed.top⟩ rfl ?_ ?_ ?_ ?_ ?_
  · refine ⟨?_, ?_, hr.laid.2.congr fun a ha => ?_⟩
    · simp [coreOf, hblockc, core]
    · simp [coreOf, hblockr, core, hk'.next]
    · obtain ⟨q, hq, rfl⟩ := mem_blocksOf.1 ha
      simp only [coreOf, hother q.block (ht q hq).1 (ht q hq).2]
  · have hperm : (c :: (r.block :: blocksOf t ++ spare)).Perm
        ((r.block :: blocksOf t) ++ c :: spare) := perm_middle.symm
    simpa using hperm
  · intro a
    by_cases hac : a = c
    · subst hac
      simp [hblockc, hcsome]
    · by_cases har : a = r.block
      · subst har
        simp [hblockr, hk]
      · simp [hother a hac har]
  · intro q hq
    have hold : ∀ q ∈ r :: t, Placed { h with blocks := blocks } lists q := by
      intro q hq
      refine (hr.placed hq).congr (hlinks q.block ?_).2 Iff.rfl
      exact fun heq => hnot (heq ▸ block_mem hq)
    simp only [mem_cons] at hq
    rcases hq with rfl | rfl | hq
    · refine placed_used rfl ?_ hclists
      simp [prevFreeOf, hblockc]
    · have hplaced := hold r (by simp)
      rcases hkeep with hused | hnull | hindex
      · exact placed_used hused (hplaced.mark.2 hused) (hr'.used_not_listed hused)
      · refine placed_null hnull ?_ ?_ fun i => ?_
        · obtain rfl : t = [] := hr'.null_iff.1 hnull
          exact hr'.null_used
        · rw [(hlinks _ hrc).2]
          show h.prevFreeOf r.block = none
          rw [hnull]
          exact hr.nullFree
        · show r.block ∉ lists i
          rw [hnull]
          exact hr.null_not_listed
      · exact ⟨hplaced.mark, fun i => by rw [hindex]; exact hplaced.member i⟩
    · exact hold q (by simp [hq])
  · have hnull := hr.null
    simpa [getLast?_cons] using hnull
  · rw [(hlinks _ (Ne.symm hcnull)).2]
    exact hr.nullFree
  · rw [(hlinks _ (Ne.symm hcnull)).1]
    exact hr.nullLink
  · intro i a ha
    have hmem := hr.only i a ha
    simp only [blocksOf_cons, mem_cons] at hmem ⊢
    exact .inr hmem

/-! ## Moving the bounds of a block -/

lemma rebound (hr : Represents h (l ++ r :: t) lists spare) (o z : Nat)
    (hunlisted : r.used = true ∨ r.block = h.mNullBlock ∨ getListIndex z = getListIndex r.size)
    (hg : ∀ k, h.blocks r.block = some k → g k = { k with offset := o, size := z }) :
    Represents (h.edit (some r.block) g) (l ++ { r with offset := o, size := z } :: t) lists
      spare := by
  obtain ⟨k, hk⟩ := hr.stores
  have hblockr : (h.edit (some r.block) g).blocks r.block =
      some { k with offset := o, size := z } := by
    simp [blocks_edit, hk.block, hg k hk.block]
  have hother : ∀ a, a ≠ r.block → (h.edit (some r.block) g).blocks a = h.blocks a := by
    intro a har
    simp [blocks_edit, Ne.symm har]
  have hlinks : (h.edit (some r.block) g).nextFreeOf = h.nextFreeOf ∧
      (h.edit (some r.block) g).prevFreeOf = h.prevFreeOf := by
    constructor <;> funext a <;> by_cases har : a = r.block
    · subst har
      simp [nextFreeOf, hblockr, hk.block]
    · simp [nextFreeOf, hother a har]
    · subst har
      simp [prevFreeOf, hblockr, hk.block]
    · simp [prevFreeOf, hother a har]
  have hblocks : blocksOf (l ++ { r with offset := o, size := z } :: t) = blocksOf (l ++ r :: t) := by
    simp
  refine hr.rechain ?_ (by rw [hblocks]) (fun a => isSome_edit a) (fun i a _ => ?_)
    (hr.listed.headed.edit _ _) rfl ?_ (by rw [hblocks]; exact hr.null) ?_ ?_ ?_
  · obtain ⟨hl, -, ht⟩ := middle_iff.1 hr.laid
    refine middle_iff.2 ⟨hl.congr fun a ha => ?_, ?_, ht.congr fun a ha => ?_⟩
    · obtain ⟨q, hq, rfl⟩ := mem_blocksOf.1 ha
      simp only [coreOf, hother q.block (hr.other_ne (by simp [hq]))]
    · simp [coreOf, hblockr, core, hk.prev, hk.next]
    · obtain ⟨q, hq, rfl⟩ := mem_blocksOf.1 ha
      simp only [coreOf, hother q.block (hr.other_ne (by simp [hq]))]
  · rw [hlinks.1, hlinks.2]
    exact ⟨rfl, rfl⟩
  · intro q hq
    have hold : ∀ q ∈ l ++ r :: t, Placed (h.edit (some r.block) g) lists q := fun q hq =>
      (hr.placed hq).congr (by rw [hlinks.2]) Iff.rfl
    simp only [mem_append, mem_cons] at hq
    rcases hq with hq | rfl | hq
    · exact hold q (by simp [hq])
    · have hplaced := hold r (by simp)
      rcases hunlisted with hused | hnull | hindex
      · exact placed_used hused (hplaced.mark.2 hused) (hr.used_not_listed hused)
      · obtain rfl : t = [] := hr.null_iff.1 hnull
        refine placed_null hnull hr.null_used ?_ fun i => ?_
        · show (h.edit (some r.block) g).prevFreeOf r.block = none
          rw [hlinks.2, hnull, hr.nullFree]
        · show r.block ∉ lists i
          rw [hnull]
          exact hr.null_not_listed
      · exact ⟨hplaced.mark, fun i => by rw [hindex]; exact hplaced.member i⟩
    · exact hold q (by simp [hq])
  · rw [hlinks.2]
    exact hr.nullFree
  · rw [hlinks.1]
    exact hr.nullLink
  · intro i a ha
    rw [hblocks]
    exact hr.only i a ha

end Represents

lemma edit_comm {h : TlsfHeap} {a b : BlockPtr} (hab : a ≠ b) (f g : TlsfBlock → TlsfBlock) :
    (h.edit (some a) f).edit (some b) g = (h.edit (some b) g).edit (some a) f := by
  simp only [TlsfHeap.edit, TlsfHeap.mk.injEq, true_and, and_true]
  funext c
  by_cases hca : a = c
  · subst hca
    simp [Ne.symm hab]
  · simp [hca]

end Tlsf
end BezOS
