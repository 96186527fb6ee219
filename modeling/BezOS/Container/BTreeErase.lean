import BezOS.Container.BTreeRebalance

/-!
# Erasing

A leaf that lost an entry is rebalanced with a neighbour, and so are the nodes above it as long as
merging takes an entry from them; a root without entries gives way to its only child.
-/

namespace BezOS
namespace BTree

open Lib BTreeMap Frame List Tree

variable {K V : Type} [LinearOrder K] {capacity h : Nat} {m m' : BTreeMap K V}
  {fs : List (Frame K V)} {f : Frame K V} {i j : NodeId} {es es1 es2 : List (K × V)}
  {cs cs1 cs2 : List (Tree K V)} {l r t : Tree K V} {sep : K × V} {p : Option NodeId}

/-- Two neighbours that together lack at most one entry, below a filled parent. -/
structure Lacking (capacity h : Nat) (fs : List (Frame K V)) (f : Frame K V) (l r : Tree K V) :
    Prop where
  cut : f.Cut
  least : leastBelow capacity fs ≤ f.entriesL.length + f.entriesR.length + 1
  most : f.entriesL.length + f.entriesR.length + 1 ≤ capacity
  others : ∀ c ∈ f.childrenL ++ f.childrenR, c.Filled capacity (minCapacity capacity) h
  left : l.Filled capacity (minCapacity capacity - 1) h
  right : r.Filled capacity (minCapacity capacity - 1) h
  lack : 2 * minCapacity capacity ≤ l.entries.length + r.entries.length + 1

/-- The result of settling a pair: the parent stands where it stood and lists the same, and may
now lack an entry itself. -/
def Settles (capacity h : Nat) (fs : List (Frame K V)) (f : Frame K V) (list : List (K × V))
    (result : Except Fault (BTreeMap K V)) : Prop :=
  ∃ m' t, result = .ok m' ∧ At capacity m' (h + 1) fs t ∧ t.id = f.id ∧
    t.Filled capacity (leastBelow capacity fs - 1) (h + 1) ∧ t.toList (h + 1) = list

omit [LinearOrder K] in
lemma Joins.release (hm : Joins m m' h p f i j es cs) (hj : j ≠ f.id) (hij : i ≠ j)
    (hfresh : j ∉ cs.map Tree.id) {m'' : BTreeMap K V}
    (hkeep : ∀ k, k ≠ j → m''.nodes k = m'.nodes k) (hroot : m''.rootNode = m'.rootNode)
    (hnext : m''.next = m'.next) : Joins m m'' h p f i j es cs := by
  refine ⟨by rw [hkeep _ hj.symm, hm.parent], by rw [hkeep _ hij, hm.left], fun k hk => ?_,
    fun k hkf hki hkj hk => by rw [hkeep k hkj, hm.same k hkf hki hkj hk], hroot.trans hm.root,
    hnext.trans hm.next⟩
  rw [hkeep k fun hkj => hfresh (hkj ▸ hk)]
  exact hm.moves k hk

omit [LinearOrder K] in
lemma deleteNode_leaf {fuel : Nat} {ids : List NodeId} (hn : m.nodes i = some ⟨true, p, es, ids⟩) :
    m.deleteNode (fuel + 1) i = m.releaseNodeMemory i := by
  simp [deleteNode, deref_eq hn]

/-! ## Settling a pair -/

lemma settles_filled (ha : At capacity m (h + 1) fs (f.fill₂ l sep r))
    (hlack : Lacking capacity h fs f l r) (hl : minCapacity capacity ≤ l.entries.length)
    (hr : minCapacity capacity ≤ r.entries.length) :
    Settles capacity h fs f ((f.fill₂ l sep r).toList (h + 1)) (.ok m) := by
  have hleast := hlack.least
  refine ⟨m, _, rfl, ha, rfl, ?_, rfl⟩
  exact filled_fill₂ hlack.cut ⟨by omega, hlack.most⟩ (hlack.left.mono hl)
    (hlack.right.mono hr) hlack.others

omit [LinearOrder K] in
lemma filled_children {least : Nat} (ht : (Tree.mk i es cs).Filled capacity least h) :
    (h ≠ 0 → cs.length = es.length + 1) ∧
      ∀ h', h = h' + 1 → ∀ c ∈ cs, c.Filled capacity (minCapacity capacity) h' := by
  cases h with
  | zero => simp
  | succ h =>
    refine ⟨fun _ => ht.2.1, fun h' hh c hc => ?_⟩
    obtain rfl : h = h' := by omega
    exact ht.2.2 c hc

omit [LinearOrder K] in
lemma filled_mk {least : Nat} (hleast : least ≤ es.length) (hmost : es.length ≤ capacity)
    (hlen : h ≠ 0 → cs.length = es.length + 1)
    (hcs : ∀ h', h = h' + 1 → ∀ c ∈ cs, c.Filled capacity (minCapacity capacity) h') :
    (Tree.mk i es cs).Filled capacity least h := by
  cases h with
  | zero => exact ⟨hleast, hmost⟩
  | succ h => exact ⟨⟨hleast, hmost⟩, hlen (by simp), hcs h rfl⟩

lemma settles_regroup {es1' es2' : List (K × V)} {cs1' cs2' : List (Tree K V)} {sep' : K × V}
    (ha : At capacity m (h + 1) fs (f.fill₂ (.mk i es1 cs1) sep (.mk j es2 cs2)))
    (hlack : Lacking capacity h fs f (.mk i es1 cs1) (.mk j es2 cs2))
    (hm : Regroups m m' h (parentOf fs) f i j es1' cs1' sep' es2' cs2')
    (hes : es1' ++ sep' :: es2' = es1 ++ sep :: es2) (hcs : cs1' ++ cs2' = cs1 ++ cs2)
    (hlen : h ≠ 0 → cs1'.length = es1'.length + 1)
    (hl : minCapacity capacity ≤ es1'.length ∧ es1'.length ≤ capacity)
    (hr : minCapacity capacity ≤ es2'.length ∧ es2'.length ≤ capacity) :
    Settles capacity h fs f ((f.fill₂ (.mk i es1 cs1) sep (.mk j es2 cs2)).toList (h + 1))
      (.ok m') := by
  obtain ⟨hlenL, hfillL⟩ := filled_children hlack.left
  obtain ⟨hlenR, hfillR⟩ := filled_children hlack.right
  obtain ⟨hat, hlist⟩ := ha.regroup hlack.cut hm hes hcs fun h0 => ⟨hlenL h0, hlen h0⟩
  have hfill : ∀ h', h = h' + 1 → ∀ c ∈ cs1' ++ cs2',
      c.Filled capacity (minCapacity capacity) h' := by
    intro h' hh c hc
    rw [hcs, mem_append] at hc
    exact hc.elim (hfillL h' hh c) (hfillR h' hh c)
  have hlenR' : h ≠ 0 → cs2'.length = es2'.length + 1 := by
    intro h0
    have hsum := congrArg length hes
    have hsum' := congrArg length hcs
    simp only [length_append, length_cons] at hsum hsum'
    omega
  have hleast := hlack.least
  refine ⟨m', _, rfl, hat, rfl, ?_, hlist⟩
  refine filled_fill₂ hlack.cut ⟨by omega, hlack.most⟩ ?_ ?_ hlack.others
  · exact filled_mk hl.1 hl.2 hlen fun h' hh c hc => hfill h' hh c (mem_append_left _ hc)
  · exact filled_mk hr.1 hr.2 hlenR' fun h' hh c hc => hfill h' hh c (mem_append_right _ hc)

lemma settles_join
    (ha : At capacity m (h + 1) fs (f.fill₂ (.mk i es1 cs1) sep (.mk j es2 cs2)))
    (hlack : Lacking capacity h fs f (.mk i es1 cs1) (.mk j es2 cs2))
    (hm : Joins m m' h (parentOf fs) f i j (es1 ++ sep :: es2) (cs1 ++ cs2))
    (hroom : es1.length + es2.length + 1 ≤ capacity)
    (hmin : minCapacity capacity ≤ es1.length + es2.length + 1) :
    Settles capacity h fs f ((f.fill₂ (.mk i es1 cs1) sep (.mk j es2 cs2)).toList (h + 1))
      (.ok m') := by
  obtain ⟨hlenL, hfillL⟩ := filled_children hlack.left
  obtain ⟨hlenR, hfillR⟩ := filled_children hlack.right
  obtain ⟨hat, hlist⟩ := ha.join hlack.cut hm hlenL
  have hleast := hlack.least
  have hmost := hlack.most
  have hsum : (es1 ++ sep :: es2).length = es1.length + es2.length + 1 := by
    rw [length_append, length_cons]
    omega
  refine ⟨m', _, rfl, hat, rfl, ?_, hlist⟩
  refine filled_fill hlack.cut ⟨by omega, by omega⟩ ?_ hlack.others
  refine filled_mk (by omega) (by omega) (fun h0 => ?_) fun h' hh c hc => ?_
  · rw [hsum, length_append]
    omega
  · exact (mem_append.1 hc).elim (hfillL h' hh c) (hfillR h' hh c)

lemma rebalanceOrMergeLeaf_spec (hcap : 3 ≤ capacity)
    (ha : At capacity m 1 fs (f.fill₂ l sep r)) (hlack : Lacking capacity 0 fs f l r) :
    Settles capacity 0 fs f ((f.fill₂ l sep r).toList 1)
      (m.rebalanceOrMergeLeaf capacity l.id r.id) := by
  obtain ⟨i, es1, cs1⟩ := l
  obtain ⟨j, es2, cs2⟩ := r
  have hp := ha.pair hlack.cut
  obtain rfl : cs1 = [] := (ha.rep.2 (.mk i es1 cs1) (by simp [fill₂])).2
  obtain rfl : cs2 = [] := (ha.rep.2 (.mk j es2 cs2) (by simp [fill₂])).2
  obtain ⟨hmin, -, -, htwo, -, -⟩ := minCapacity_le_half hcap
  have hleft := hp.left
  have hright := hp.right
  have hl := hlack.left.bounds
  have hr := hlack.right.bounds
  have hsum := hlack.lack
  simp only [entries_mk] at hl hr hsum
  simp only [rebalanceOrMergeLeaf, id_mk, deref_eq hleft, deref_eq hright, ok_bind,
    kmAssert_true, and_self]
  by_cases hfull : ¬ es1.length < minCapacity capacity ∧ ¬ es2.length < minCapacity capacity
  · rw [if_pos hfull]
    exact settles_filled ha hlack (not_lt.1 hfull.1) (not_lt.1 hfull.2)
  have hge : es1.length + es2.length ≥ minCapacity capacity := by omega
  simp only [if_neg hfull, follow, ok_bind, kmAssert_true, hge]
  by_cases hborrow : es1.length + es2.length ≥ minCapacity capacity * 2
  · simp only [if_pos hborrow, rebalanceLeafNodes, deref_eq hleft, deref_eq hright,
      ok_bind, kmAssert_true, and_self]
    by_cases hside : es1.length < es2.length
    · -- the left neighbour lacks the entry
      obtain ⟨e, es2, rfl⟩ := exists_cons_of_ne_nil (l := es2) (by rintro rfl; simp at hside)
      obtain ⟨m', hrun, hm⟩ := rebalanceIntoLowerLeafNode_spec hp hlack.cut hcap (by omega)
      rw [length_cons] at hborrow hr
      rw [if_pos hside, hrun]
      refine settles_regroup ha hlack hm (by simp) rfl (by simp) ?_ ⟨by omega, by omega⟩
      rw [length_append, length_singleton]
      omega
    · -- the right neighbour lacks the entry
      have hne : es1 ≠ [] := ne_nil_of_length_pos (by omega)
      obtain ⟨es1, e, rfl⟩ := (eq_nil_or_concat es1).resolve_left hne
      simp only [concat_eq_append] at *
      have hlen : (es1 ++ [e]).length = es1.length + 1 := by simp
      obtain ⟨m', hrun, hm⟩ := rebalanceIntoUpperLeafNode_spec hp hlack.cut hcap (by omega)
      rw [if_neg hside, hrun]
      refine settles_regroup ha hlack hm (by simp) rfl (by simp) ⟨by omega, by omega⟩ ?_
      rw [length_cons]
      omega
  · have hroom : es1.length + es2.length < capacity := by omega
    obtain ⟨m', hrun, hm, hj⟩ := mergeLeafNodes_spec hp hlack.cut hroom
    obtain ⟨m'', hrelease, hkeep, -, hroot, hnext⟩ := releaseNodeMemory_spec hj
    simp only [if_neg hborrow, hrun, ok_bind, deleteNode_leaf hj, hrelease]
    exact settles_join ha hlack (hm.release hp.right_ne hp.ne (by simp) hkeep hroot hnext)
      (by omega) (by omega)

lemma rebalanceOrMergeInternal_spec (hcap : 3 ≤ capacity)
    (ha : At capacity m (h + 2) fs (f.fill₂ l sep r)) (hlack : Lacking capacity (h + 1) fs f l r) :
    Settles capacity (h + 1) fs f ((f.fill₂ l sep r).toList (h + 2))
      (m.rebalanceOrMergeInternal capacity l.id r.id) := by
  obtain ⟨i, es1, cs1⟩ := l
  obtain ⟨j, es2, cs2⟩ := r
  have hp := ha.pair hlack.cut
  obtain ⟨hmin, -, -, htwo, -, -⟩ := minCapacity_le_half hcap
  have hleft := hp.left
  have hright := hp.right
  have hl := hlack.left.bounds
  have hr := hlack.right.bounds
  have hsum := hlack.lack
  simp only [entries_mk] at hl hr hsum
  have hlenL : cs1.length = es1.length + 1 := hlack.left.2.1
  have hlenR : cs2.length = es2.length + 1 := hlack.right.2.1
  simp only [rebalanceOrMergeInternal, id_mk, deref_eq hleft, deref_eq hright,
    ok_bind, kmAssert_true, and_self]
  by_cases hfull : ¬ es1.length < minCapacity capacity ∧ ¬ es2.length < minCapacity capacity
  · rw [if_pos hfull]
    exact settles_filled ha hlack (not_lt.1 hfull.1) (not_lt.1 hfull.2)
  simp only [if_neg hfull, follow, ok_bind]
  by_cases hborrow : es1.length + es2.length ≥ minCapacity capacity * 2
  · simp only [rebalanceInternalNodes, deref_eq hleft, deref_eq hright,
      deref_eq hp.parent, ok_bind, kmAssert_true, and_self, indexOfChild_left hp hlack.cut, hborrow]
    by_cases hside : es1.length < es2.length
    · -- the left neighbour lacks the entry
      obtain ⟨e, es2, rfl⟩ := exists_cons_of_ne_nil (l := es2) (by rintro rfl; simp at hside)
      obtain ⟨c, cs2, rfl⟩ := exists_cons_of_ne_nil (l := cs2) (by rintro rfl; simp at hlenR)
      obtain ⟨m', hrun, hm⟩ := rebalanceIntoLowerInternalNode_spec hp hcap (by omega)
      rw [length_cons] at hborrow hr
      rw [if_pos hside, hrun]
      refine settles_regroup ha hlack hm (by simp) (by simp) (by simp [hlenL]) ?_
        ⟨by omega, by omega⟩
      rw [length_append, length_singleton]
      omega
    · -- the right neighbour lacks the entry
      have hne : es1 ≠ [] := ne_nil_of_length_pos (by omega)
      have hne' : cs1 ≠ [] := ne_nil_of_length_pos (by omega)
      obtain ⟨es1, e, rfl⟩ := (eq_nil_or_concat es1).resolve_left hne
      obtain ⟨cs1, c, rfl⟩ := (eq_nil_or_concat cs1).resolve_left hne'
      simp only [concat_eq_append] at *
      have hlen : (es1 ++ [e]).length = es1.length + 1 := by simp
      have hlen' : cs1.length = es1.length + 1 := by simpa using hlenL
      obtain ⟨m', hrun, hm⟩ := rebalanceIntoUpperInternalNode_spec hp hcap (by omega) hlen'
      rw [if_neg hside, hrun]
      refine settles_regroup ha hlack hm (by simp) (by simp) (fun _ => hlen')
        ⟨by omega, by omega⟩ ?_
      rw [length_cons]
      omega
  · have hroom : es1.length + es2.length + 1 ≤ capacity := by omega
    obtain ⟨m', hrun, hm⟩ := mergeInternalNodes_spec hp hlack.cut hroom (by omega)
    simp only [if_neg hborrow, hrun]
    exact settles_join ha hlack hm (by omega) (by omega)

/-! ## The neighbour of a node -/

section

variable (hcap : 3 ≤ capacity)

include hcap

omit [LinearOrder K] in
lemma one_le_leastBelow : 1 ≤ leastBelow capacity fs := by
  have hmin := (minCapacity_le_half hcap).1
  rw [leastBelow]
  split <;> omega

lemma adjacentPair_spec (ha : At capacity m h (f :: fs) t)
    (ht : t.Filled capacity (minCapacity capacity - 1) h) :
    ∃ g l sep r, f.fill t = g.fill₂ l sep r ∧ g.id = f.id ∧
      m.adjacentPair t.id = .ok (l.id, r.id) ∧ Lacking capacity h fs g l r := by
  obtain ⟨hcut, ⟨hleast, hmost⟩, hothers, -⟩ := ha.filled
  obtain ⟨hcutL, hcutR⟩ := hcut
  have hone : 1 ≤ leastBelow capacity fs := one_le_leastBelow hcap
  have hbounds := ht.bounds
  have hfresh : t.id ∉ f.childrenL.map Tree.id := by
    intro hmem
    obtain ⟨c, hc, hid⟩ := mem_map.1 hmem
    refine (nodup_append.1 ha.nodup).2.2 t.id (Tree.id_mem_ids h t) c.id ?_ hid.symm
    refine mem_append_left _ (mem_cons_of_mem _ ?_)
    exact mem_flatMap.2 ⟨c, by simp [hc], Tree.id_mem_ids h c⟩
  have hindex := indexOfChild_eq (b := false) (p := parentOf fs) (e := f.entriesL ++ f.entriesR)
    (r := f.childrenR.map Tree.id) hfresh
  have hderef := deref_eq ha.rep.node
  have hparent := deref_eq ha.ctx.1
  rcases eq_nil_or_concat f.childrenL with hnil | ⟨cL, l, hcL⟩
  · -- the first child goes with the second
    have heL : f.entriesL = [] := length_eq_zero_iff.1 (by rw [← hcutL, hnil]; rfl)
    rw [heL, length_nil] at hleast hmost
    obtain ⟨sep, eR, heR⟩ := exists_cons_of_ne_nil
      (ne_nil_of_length_pos (l := f.entriesR) (by omega))
    rw [heR, length_cons] at hcutR hleast hmost
    obtain ⟨r, cR, hcR⟩ := exists_cons_of_ne_nil
      (ne_nil_of_length_pos (l := f.childrenR) (by omega))
    rw [hcR, length_cons] at hcutR
    have hr : r.Filled capacity (minCapacity capacity) h := hothers r (by simp [hcR])
    have hrb := hr.bounds
    refine ⟨⟨f.id, [], [], eR, cR⟩, t, sep, r, ?_, rfl, ?_, ⟨⟨rfl, ?_⟩, ?_, ?_, fun c hc => ?_, ht,
      hr.mono (by omega), by omega⟩⟩
    · simp [fill, fill₂, hnil, heL, heR, hcR]
    · simp only [adjacentPair, hderef, parentOf_cons, follow, ok_bind, hparent,
        hindex]
      simp [getLeaf, follow, hnil, hcR]
    · dsimp only
      omega
    · simpa [Nat.add_comm] using hleast
    · simpa [Nat.add_comm] using hmost
    · refine hothers c ?_
      simp only [nil_append] at hc
      simp [hcR, hc]
  · -- every other child goes with the one before it
    have hlenL : f.entriesL ≠ [] := by
      intro heL
      rw [hcL, heL] at hcutL
      simp at hcutL
    obtain ⟨eL, sep, heL⟩ := (eq_nil_or_concat f.entriesL).resolve_left hlenL
    rw [concat_eq_append] at heL
    have hcut' : cL.length = eL.length := by simpa [hcL, heL] using hcutL
    have hl : l.Filled capacity (minCapacity capacity) h := hothers l (by simp [hcL])
    have hlb := hl.bounds
    rw [heL, length_append, length_singleton] at hleast hmost
    refine ⟨⟨f.id, eL, cL, f.entriesR, f.childrenR⟩, l, sep, t, ?_, rfl, ?_, ⟨⟨hcut', hcutR⟩, ?_, ?_,
      fun c hc => ?_, hl.mono (by omega), ht, by omega⟩⟩
    · simp [fill, fill₂, hcL, heL]
    · have hne : f.childrenL.length ≠ 0 := by simp [hcL]
      simp only [adjacentPair, hderef, parentOf_cons, follow, ok_bind, hparent,
        hindex, if_neg hne]
      simp [getLeaf, follow, hcL]
    · dsimp only
      omega
    · dsimp only
      omega
    · refine hothers c ?_
      rcases mem_append.1 hc with hc | hc
      · simp [hcL, show c ∈ cL from hc]
      · exact mem_append_right _ hc

lemma rebalanceInnerLeafNode_spec (ha : At capacity m 0 (f :: fs) t)
    (ht : t.Filled capacity (minCapacity capacity - 1) 0) :
    Settles capacity 0 fs f ((f.fill t).toList 1) (m.rebalanceInnerLeafNode capacity t.id) := by
  obtain ⟨g, l, sep, r, hfill, hid, hpair, hlack⟩ := adjacentPair_spec hcap ha ht
  have hat := ha.up
  rw [hfill] at hat ⊢
  obtain ⟨m', t', hrun, hat', hid', hrest⟩ := rebalanceOrMergeLeaf_spec hcap hat hlack
  refine ⟨m', t', ?_, hat', hid'.trans hid, hrest⟩
  simp [rebalanceInnerLeafNode, hpair, hrun]

lemma rebalanceInnerInternalNode_spec (ha : At capacity m (h + 1) (f :: fs) t)
    (ht : t.Filled capacity (minCapacity capacity - 1) (h + 1)) :
    Settles capacity (h + 1) fs f ((f.fill t).toList (h + 2))
      (m.rebalanceInnerInternalNode capacity t.id) := by
  obtain ⟨g, l, sep, r, hfill, hid, hpair, hlack⟩ := adjacentPair_spec hcap ha ht
  have hat := ha.up
  rw [hfill] at hat ⊢
  obtain ⟨m', t', hrun, hat', hid', hrest⟩ := rebalanceOrMergeInternal_spec hcap hat hlack
  refine ⟨m', t', ?_, hat', hid'.trans hid, hrest⟩
  simp [rebalanceInnerInternalNode, hpair, hrun]

end

/-! ## The root -/

lemma promoteRoot_spec {c : Tree K V} (ha : At capacity m (h + 1) [] (.mk i [] [c])) :
    ∃ m', m.promoteRoot i c.id = .ok m' ∧ At capacity m' h [] c ∧
      ∀ k, k ≠ i → k ≠ c.id → m'.nodes k = m.nodes k := by
  have hids : (Tree.mk i [] [c]).ids (h + 1) = i :: c.ids h := by simp [Tree.ids]
  have hnodup := ha.nodup
  simp only [ctxIds, append_nil, hids, nodup_cons] at hnodup
  have hc := ha.rep.2 c (by simp)
  have hne : i ≠ c.id := fun hic => hnodup.1 (hic ▸ Tree.id_mem_ids h c)
  have hreparent : ∀ k, k ≠ c.id → reparent m.nodes [c.id] none k = m.nodes k :=
    fun k hk => reparent_not_mem (by simpa using hk)
  obtain ⟨m', hrelease, hkeep, -, hroot, hnext⟩ := releaseNodeMemory_spec
    (m := { m with nodes := reparent m.nodes [c.id] none, rootNode := some c.id })
    ((hreparent i hne).trans ha.rep.node)
  have hsame : ∀ k, k ≠ i → k ≠ c.id → m'.nodes k = m.nodes k := by
    intro k hki hkc
    rw [hkeep k hki]
    exact hreparent k hkc
  refine ⟨m', ?_, ⟨hroot, trivial, ?_, by simpa [ctxIds] using hnodup.2, fun k hk => ?_, trivial, ?_⟩,
    hsame⟩
  · simp [BTreeMap.promoteRoot, setParent_eq hc.node, hrelease]
  · refine hc.reparent ?_ (fun k hk hkc => hsame k ?_ hkc) hnodup.2
    · rw [hkeep _ hne.symm]
      exact reparent_mem (by simp)
    · rintro rfl
      exact hnodup.1 hk
  · rw [hnext]
    refine ha.bound k ?_
    rw [hids]
    exact mem_cons_of_mem _ hk
  · have hsorted := ha.sorted
    simpa [before, after, toList] using hsorted

lemma mergeRoot_empty (hcap : 3 ≤ capacity) (ha : At capacity m (h + 1) [] t)
    (ht : t.Filled capacity 0 (h + 1)) (hempty : t.entries = []) :
    ∃ m', m.mergeRootNodeIfNeeded capacity t.id = .ok m' ∧ Holds capacity m' (t.toList (h + 1)) := by
  obtain ⟨i, es, cs⟩ := t
  obtain rfl : es = [] := hempty
  obtain ⟨c, rfl⟩ : ∃ c, cs = [c] := length_eq_one_iff.1 ht.2.1
  obtain ⟨m', hrun, hat, -⟩ := promoteRoot_spec ha
  have hfill := ht.2.2 c (by simp)
  have hmin := (minCapacity_le_half hcap).1
  have hbounds := hfill.bounds
  refine ⟨m', ?_, .inr ⟨h, c, hat, hfill.mono (by omega), by simp [toList]⟩⟩
  have hderef : m.deref i = .ok ⟨false, none, [], [c.id]⟩ := deref_eq ha.rep.node
  simp [mergeRootNodeIfNeeded, hderef, getLeaf, follow, hrun]

omit [LinearOrder K] in
lemma root_cut : (mk i [] [] [] [] : Frame K V).Cut := ⟨rfl, rfl⟩

lemma mergeRoot_leaves (ha : At capacity m 1 [] ((mk i [] [] [] []).fill₂ l sep r))
    (hroot : ((mk i [] [] [] []).fill₂ l sep r).Filled capacity 1 1) :
    ∃ m', m.mergeRootNodeIfNeeded capacity i = .ok m' ∧
      Holds capacity m' (((mk i [] [] [] []).fill₂ l sep r).toList 1) := by
  obtain ⟨a, es1, cs1⟩ := l
  obtain ⟨b, es2, cs2⟩ := r
  have hp := ha.pair root_cut
  obtain rfl : cs1 = [] := (ha.rep.2 (.mk a es1 cs1) (by simp [fill₂])).2
  obtain rfl : cs2 = [] := (ha.rep.2 (.mk b es2 cs2) (by simp [fill₂])).2
  have hparent := deref_eq hp.parent
  have hleft := deref_eq hp.left
  have hright := deref_eq hp.right
  simp only [map_nil, nil_append] at hparent
  simp only [mergeRootNodeIfNeeded, hparent, ok_bind, length_singleton,
    Nat.one_ne_zero, if_false, and_self, if_true, getLeaf, getElem?_cons_zero,
    getElem?_cons_succ, follow, hleft, hright, kmAssert_true, decide_true]
  by_cases hfit : es1.length + es2.length < capacity
  · obtain ⟨m1, hmerge, hjoin, hb⟩ := mergeLeafNodes_spec hp root_cut hfit
    obtain ⟨hat1, hlist⟩ := ha.join root_cut hjoin (by simp)
    obtain ⟨m2, hpromote, hat2, hsame⟩ := promoteRoot_spec hat1
    have hb2 := (hsame b hp.right_ne hp.ne.symm).trans hb
    obtain ⟨m3, hrelease, hkeep, -, hroot3, hnext3⟩ := releaseNodeMemory_spec hb2
    have hpromote' : m1.promoteRoot i a = .ok m2 := hpromote
    have hlen : (es1 ++ sep :: es2).length = es1.length + es2.length + 1 := by
      rw [length_append, length_cons]
      omega
    refine ⟨m3, by simp only [if_pos hfit, hmerge, ok_bind, hpromote', hrelease],
      .inr ⟨0, _, hat2.congr (fun k hk => hkeep k ?_) hroot3 hnext3.ge, filled_mk (by omega)
        (by omega) (by simp) (by simp), ?_⟩⟩
    · obtain rfl : k = a := by simpa [ctxIds, Tree.ids] using hk
      exact hp.ne
    · rw [← hlist]
      simp [fill, toList]
  · exact ⟨m, by rw [if_neg hfit, pure_eq_ok], .inr ⟨1, _, ha, hroot, rfl⟩⟩

lemma mergeRoot_internals
    (ha : At capacity m (h + 2) [] ((mk i [] [] [] []).fill₂ l sep r))
    (hroot : ((mk i [] [] [] []).fill₂ l sep r).Filled capacity 1 (h + 2)) :
    ∃ m', m.mergeRootNodeIfNeeded capacity i = .ok m' ∧
      Holds capacity m' (((mk i [] [] [] []).fill₂ l sep r).toList (h + 2)) := by
  have hl := hroot.2.2 l (by simp [fill₂])
  have hr := hroot.2.2 r (by simp [fill₂])
  obtain ⟨a, es1, cs1⟩ := l
  obtain ⟨b, es2, cs2⟩ := r
  have hp := ha.pair root_cut
  have hparent := deref_eq hp.parent
  have hleft := deref_eq hp.left
  have hright := deref_eq hp.right
  have hlb := hl.bounds
  simp only [entries_mk] at hlb
  simp only [map_nil, nil_append] at hparent
  simp only [mergeRootNodeIfNeeded, hparent, ok_bind, length_singleton,
    if_false, and_self, if_true, getLeaf, getElem?_cons_zero,
    getElem?_cons_succ, follow, hleft, hright, kmAssert_true, Nat.succ_ne_zero,
    decide_false, Bool.false_eq_true]
  by_cases hfit : es1.length + 1 + (es2.length + 1) ≤ capacity + 1
  · have hroom : es1.length + es2.length + 1 ≤ capacity := by omega
    obtain ⟨m1, hmerge, hjoin⟩ := mergeInternalNodes_spec hp root_cut hroom (by omega)
    obtain ⟨hat1, hlist⟩ := ha.join root_cut hjoin fun _ => hl.2.1
    obtain ⟨m2, hpromote, hat2, -⟩ := promoteRoot_spec hat1
    have hpromote' : m1.promoteRoot i a = .ok m2 := hpromote
    have hlen : (es1 ++ sep :: es2).length = es1.length + es2.length + 1 := by
      rw [length_append, length_cons]
      omega
    refine ⟨m2, by simp only [if_pos hfit, hmerge, ok_bind, hpromote'],
      .inr ⟨h + 1, _, hat2, filled_mk (by omega) (by omega) (fun _ => ?_) fun h' hh c hc => ?_, ?_⟩⟩
    · have hlenL : cs1.length = es1.length + 1 := hl.2.1
      have hlenR : cs2.length = es2.length + 1 := hr.2.1
      rw [hlen, length_append]
      omega
    · exact (mem_append.1 hc).elim ((filled_children hl).2 h' hh c)
        ((filled_children hr).2 h' hh c)
    · rw [← hlist]
      simp [fill, toList]
  · exact ⟨m, by rw [if_neg hfit, pure_eq_ok], .inr ⟨h + 2, _, ha, hroot, rfl⟩⟩

lemma mergeRoot_spec (hcap : 3 ≤ capacity) (ha : At capacity m (h + 1) [] t)
    (ht : t.Filled capacity 0 (h + 1)) :
    ∃ m', m.mergeRootNodeIfNeeded capacity t.id = .ok m' ∧ Holds capacity m' (t.toList (h + 1)) := by
  by_cases hempty : t.entries = []
  · exact mergeRoot_empty hcap ha ht hempty
  have hfill : t.Filled capacity 1 (h + 1) := ht.mono (length_pos_iff.2 hempty)
  by_cases hone : t.entries.length = 1
  · obtain ⟨i, es, cs⟩ := t
    obtain ⟨sep, rfl⟩ : ∃ sep, es = [sep] := length_eq_one_iff.1 hone
    obtain ⟨l, r, rfl⟩ : ∃ l r, cs = [l, r] := length_eq_two.1 ht.2.1
    cases h with
    | zero => exact mergeRoot_leaves ha hfill
    | succ h => exact mergeRoot_internals ha hfill
  · refine ⟨m, ?_, .inr ⟨h + 1, t, ha, hfill, rfl⟩⟩
    simp [mergeRootNodeIfNeeded, deref_eq ha.rep.node, hempty, hone]

lemma mergeRecursive_spec (hcap : 3 ≤ capacity) {fuel : Nat} (hfuel : fs.length < fuel)
    (ha : At capacity m (h + 1) fs t) (ht : t.Filled capacity (leastBelow capacity fs - 1) (h + 1))
    :
    ∃ m', m.mergeRecursive capacity fuel (some t.id) = .ok m' ∧
      Holds capacity m' (before (h + 1) fs ++ (t.toList (h + 1) ++ after (h + 1) fs)) := by
  induction fs generalizing m h t fuel with
  | nil =>
    obtain ⟨fuel, rfl⟩ : ∃ n, fuel = n + 1 := ⟨fuel - 1, by omega⟩
    have hmin := (minCapacity_le_half hcap).1
    have hderef : m.deref t.id = .ok ⟨false, none, t.entries, t.children.map Tree.id⟩ :=
      deref_eq ha.rep.1
    by_cases hfull : ¬ t.entries.length < minCapacity capacity
    · refine ⟨m, ?_, ha.holds (ht.mono ?_)⟩
      · cases fuel <;>
          simp [mergeRecursive, mergeInnerNodeIfNeeded, hderef, not_lt.1 hfull]
      · rw [leastBelow, isEmpty_nil, if_pos rfl]
        omega
    · obtain ⟨m', hrun, hholds⟩ := mergeRoot_spec hcap ha (by simpa [leastBelow] using ht)
      refine ⟨m', ?_, by simpa [before, after] using hholds⟩
      simp only [mergeRecursive, mergeInnerNodeIfNeeded, hderef, ok_bind,
        if_neg hfull, if_true, hrun, pure_eq_ok]
  | cons f fs ih =>
    obtain ⟨fuel, rfl⟩ : ∃ n, fuel = n + 1 := ⟨fuel - 1, by omega⟩
    have hfuel' : fs.length < fuel := by simpa using hfuel
    have hderef : m.deref t.id = .ok ⟨false, some f.id, t.entries, t.children.map Tree.id⟩ :=
      deref_eq ha.rep.1
    rw [list_cons ha.filled.1]
    by_cases hfull : ¬ t.entries.length < minCapacity capacity
    · -- nothing to do here, and the nodes above are filled
      have hfill := ha.fill_filled (ht.mono (not_lt.1 hfull))
      obtain ⟨m', hrun, hholds⟩ := ih hfuel' ha.up
        (hfill.mono ((Nat.sub_le _ _).trans hfill.bounds.1))
      refine ⟨m', ?_, hholds⟩
      simp only [mergeRecursive, mergeInnerNodeIfNeeded, hderef, ok_bind,
        if_pos hfull, pure_eq_ok]
      exact hrun
    · obtain ⟨m1, t1, hsettle, hat, hid, hfill, hlist⟩ := rebalanceInnerInternalNode_spec hcap ha ht
      obtain ⟨m', hrun, hholds⟩ := ih hfuel' hat hfill
      rw [hlist] at hholds
      refine ⟨m', ?_, hholds⟩
      simp only [mergeRecursive, mergeInnerNodeIfNeeded, hderef, ok_bind,
        if_neg hfull, reduceCtorEq, if_false, hsettle, pure_eq_ok]
      rw [← hid]
      exact hrun

end BTree
end BezOS
