import BezOS.Container.BTreeSplit

/-!
# Borrowing and merging

Two neighbours of which one lacks an entry: an entry moves over through the separator, or the two
become one node. In both cases the parent lists what it listed.
-/

namespace BezOS
namespace BTree

open Lib BTreeMap List Option Tree

section Nodes

variable {K V : Type} [LinearOrder K] {capacity h : Nat} {m m' : BTreeMap K V}
  {fs : List (Frame K V)} {f : Frame K V} {i j : NodeId} {es1 es2 es1' es2' : List (K × V)}
  {cs1 cs2 cs1' cs2' : List (Tree K V)} {sep sep' : K × V}

structure PairNodes (m : BTreeMap K V) (h : Nat) (p : Option NodeId) (f : Frame K V)
    (i j : NodeId) (es1 : List (K × V)) (cs1 : List (Tree K V)) (sep : K × V)
    (es2 : List (K × V)) (cs2 : List (Tree K V)) : Prop where
  parent : m.nodes f.id = some ⟨false, p, f.entriesL ++ sep :: f.entriesR,
    f.childrenL.map Tree.id ++ i :: j :: f.childrenR.map Tree.id⟩
  left : m.nodes i = some ⟨decide (h = 0), some f.id, es1, cs1.map Tree.id⟩
  right : m.nodes j = some ⟨decide (h = 0), some f.id, es2, cs2.map Tree.id⟩
  left_ne : i ≠ f.id
  right_ne : j ≠ f.id
  ne : i ≠ j
  left_fresh : i ∉ f.childrenL.map Tree.id
  right_fresh : j ∉ f.childrenL.map Tree.id
  childL : ∀ k ∈ cs1.map Tree.id, k ≠ f.id ∧ k ≠ i ∧ k ≠ j ∧ ∃ n, m.nodes k = some n ∧
    n.parent = some i
  childR : ∀ k ∈ cs2.map Tree.id, k ≠ f.id ∧ k ≠ i ∧ k ≠ j ∧ ∃ n, m.nodes k = some n ∧
    n.parent = some j
  children_ne : (cs1.map Tree.id ++ cs2.map Tree.id).Nodup
  entries_lt : ∀ e ∈ es1, e.1 < sep.1
  lt_entries : ∀ e ∈ es2, sep.1 < e.1

lemma At.pair (ha : At capacity m (h + 1) fs (f.fill₂ (.mk i es1 cs1) sep (.mk j es2 cs2)))
    (hf : f.Cut) : PairNodes m h (parentOf fs) f i j es1 cs1 sep es2 cs2 := by
  obtain ⟨hpair, hthis, hothers⟩ := ha.pair_nodup
  obtain ⟨hnl, hnr, hdisj⟩ := List.nodup_append.1 hpair
  rw [mem_append, not_or] at hthis
  have hl := ha.rep.2 (.mk i es1 cs1) (by simp [Frame.fill₂])
  have hr := ha.rep.2 (.mk j es2 cs2) (by simp [Frame.fill₂])
  have hi := id_mem_ids h (.mk i es1 cs1)
  have hj := id_mem_ids h (.mk j es2 cs2)
  -- roots of the other children are not in the pair
  have hfresh : ∀ k ∈ f.childrenL.map Tree.id,
      k ∉ (Tree.mk i es1 cs1).ids h ++ (Tree.mk j es2 cs2).ids h := by
    intro k hk
    obtain ⟨c, hc, rfl⟩ := mem_map.1 hk
    exact (hothers c (by simp [hc]) c.id (id_mem_ids h c)).2
  have hsorted := ha.sorted.right.left
  rw [Frame.toList_fill₂ hf] at hsorted
  have haround := hsorted.right.left.around
  refine ⟨by simpa [Frame.fill₂] using ha.rep.1, hl.node, hr.node, ?_, ?_, hdisj i hi j hj,
    fun hk => hfresh i hk (mem_append_left _ hi),
    fun hk => hfresh j hk (mem_append_right _ hj), fun k hk => ?_, fun k hk => ?_,
    ?_, fun e he => haround.1 e (entries_subset h (.mk i es1 cs1) e he),
    fun e he => haround.2 e (entries_subset h (.mk j es2 cs2) e he)⟩
  · rintro rfl
    exact hthis.1 hi
  · rintro rfl
    exact hthis.2 hj
  · have hmem := roots_subset i es1 hl.children.1 k hk
    refine ⟨fun hkf => hthis.1 (hkf ▸ hmem), ?_, fun hkj => hdisj k hmem j hj hkj, ?_⟩
    all_goals
      cases h with
      | zero => simp [hl.children.1 rfl] at hk
      | succ h =>
        obtain ⟨c, hc, rfl⟩ := mem_map.1 hk
        first
        | exact ⟨_, (hl.2 c hc).node, rfl⟩
        | exact fun hki => (nodup_cons.1 hnl).1
            (mem_flatMap.2 ⟨c, hc, hki ▸ id_mem_ids h c⟩)
  · have hmem := roots_subset j es2 hr.children.1 k hk
    refine ⟨fun hkf => hthis.2 (hkf ▸ hmem), fun hki => hdisj i hi k hmem hki.symm, ?_, ?_⟩
    all_goals
      cases h with
      | zero => simp [hr.children.1 rfl] at hk
      | succ h =>
        obtain ⟨c, hc, rfl⟩ := mem_map.1 hk
        first
        | exact ⟨_, (hr.2 c hc).node, rfl⟩
        | exact fun hkj => (nodup_cons.1 hnr).1
            (mem_flatMap.2 ⟨c, hc, hkj ▸ id_mem_ids h c⟩)
  · refine List.nodup_append.2 ⟨hl.roots_nodup hnl, hr.roots_nodup hnr, fun k hk k' hk' => ?_⟩
    exact hdisj k (roots_subset i es1 hl.children.1 k hk) k'
      (roots_subset j es2 hr.children.1 k' hk')

variable {p : Option NodeId} {e : K × V}

lemma indexOfChild_left (hp : PairNodes m h p f i j es1 cs1 sep es2 cs2) (hf : f.Cut) :
    indexOfChild (⟨false, p, f.entriesL ++ sep :: f.entriesR,
      f.childrenL.map Tree.id ++ i :: j :: f.childrenR.map Tree.id⟩ : TreeNode K V) i =
        .ok f.entriesL.length := by
  rw [indexOfChild_eq hp.left_fresh, length_map, hf.1]

lemma indexOfChild_right (hp : PairNodes m h p f i j es1 cs1 sep es2 cs2) (hf : f.Cut) :
    indexOfChild (⟨false, p, f.entriesL ++ sep :: f.entriesR,
      f.childrenL.map Tree.id ++ i :: j :: f.childrenR.map Tree.id⟩ : TreeNode K V) j =
        .ok (f.entriesL.length + 1) := by
  have hfresh : j ∉ f.childrenL.map Tree.id ++ [i] := by
    rw [mem_append, mem_singleton, not_or]
    exact ⟨hp.right_fresh, hp.ne.symm⟩
  have hindex := indexOfChild_eq (b := false) (p := p) (e := f.entriesL ++ sep :: f.entriesR)
    (r := f.childrenR.map Tree.id) hfresh
  rw [append_assoc, length_append, length_map, hf.1] at hindex
  exact hindex

/-! ## Leaves -/

lemma mergeLeafNodes_spec (hp : PairNodes m 0 p f i j es1 [] sep es2 []) (hf : f.Cut)
    (hroom : es1.length + es2.length < capacity) :
    ∃ m', m.mergeLeafNodes capacity f.id i j = .ok m' ∧
      Joins m m' 0 p f i j (es1 ++ sep :: es2) [] ∧ m'.nodes j = some ⟨true, some f.id, [], []⟩ := by
  have hinsert : insertEntry capacity sep es1 = some (es1 ++ [sep]) := by
    have hroom' : (es1 ++ []).length < capacity := by simp; omega
    have hgap := insertEntry_gap (v := sep.2) hp.entries_lt (by simp) hroom'
    simpa using hgap
  have hfit : (es1 ++ [sep]).length + es2.length ≤ capacity := by
    simp
    omega
  -- the parent loses the separator and the right neighbour
  have hparent : m.mergeLeafNodes capacity f.id i j =
      .ok (((m.set i ⟨true, some f.id, es1 ++ sep :: es2, []⟩).set j ⟨true, some f.id, [], []⟩).set
        f.id ⟨false, p, f.entriesL ++ f.entriesR,
          f.childrenL.map Tree.id ++ i :: f.childrenR.map Tree.id⟩) := by
    have hleft := hp.left
    have hright := hp.right
    simp only [mergeLeafNodes, deref_eq hleft, deref_eq hright, deref_eq hp.parent,
      ok_bind, kmAssert_true, and_self, indexOfChild_left hp hf, entryAt_eq rfl,
      insertMiddle, hinsert, getD_some, pure_eq_ok, claim, deref_set_self,
      deref_set_ne hp.ne.symm, hfit, set_set, append_assoc, singleton_append]
    cases hright : f.entriesR with
    | nil =>
      have hchildren : f.childrenR = [] := length_eq_zero_iff.1 (by rw [hf.2, hright]; rfl)
      have htake : (f.childrenL.map Tree.id ++ [i, j]).take (f.entriesL.length + 1) =
          f.childrenL.map Tree.id ++ [i] := by
        rw [← hf.1, take_append]
        simp
      simp [hchildren, htake]
    | cons e rest =>
      have hentries : (f.entriesL ++ e :: e :: rest).eraseIdx (f.entriesL.length + 1) =
          f.entriesL ++ e :: rest := by
        rw [eraseIdx_append_of_length_le (by simp)]
        simp
      have hchildren : (f.childrenL.map Tree.id ++ i :: j :: f.childrenR.map Tree.id).eraseIdx
          (f.entriesL.length + 1) = f.childrenL.map Tree.id ++ i :: f.childrenR.map Tree.id := by
        rw [← hf.1, eraseIdx_append_of_length_le (by simp)]
        simp
      simp [entryAt, hentries, hchildren]
  have hj : j ≠ f.id := hp.right_ne
  have hi : i ≠ f.id := hp.left_ne
  refine ⟨_, hparent, ⟨by simp, by simp [hi, hp.ne], by simp [Moves], fun k hk hki hkj _ => ?_, rfl,
    rfl⟩, by simp [hj]⟩
  simp [hk, hki, hkj]

lemma rebalanceIntoLowerLeafNode_spec (hp : PairNodes m 0 p f i j es1 [] sep (e :: es2) [])
    (hf : f.Cut) (hcap : 3 ≤ capacity) (hlack : es1.length + 1 = minCapacity capacity) :
    ∃ m', m.rebalanceIntoLowerLeafNode capacity f.id i j = .ok m' ∧
      Regroups m m' 0 p f i j (es1 ++ [sep]) [] e es2 [] := by
  have hmin := minCapacity_le_half hcap
  have hinsert : insertEntry capacity sep es1 = some (es1 ++ [sep]) := by
    have hroom' : (es1 ++ []).length < capacity := by simp; omega
    have hgap := insertEntry_gap (v := sep.2) hp.entries_lt (by simp) hroom'
    simpa using hgap
  have hmove : minCapacity capacity - es1.length = 1 := by omega
  have hlt : es1.length < minCapacity capacity := by omega
  have hfit : (es1 ++ [sep]).length + 1 ≤ capacity := by
    simp
    omega
  have hleft := hp.left
  have hright := hp.right
  have hrun : m.rebalanceIntoLowerLeafNode capacity f.id i j =
      .ok (((m.set i ⟨true, some f.id, es1 ++ [sep], []⟩).set j ⟨true, some f.id, es2, []⟩).set
        f.id ⟨false, p, f.entriesL ++ e :: f.entriesR,
          f.childrenL.map Tree.id ++ i :: j :: f.childrenR.map Tree.id⟩) := by
    simp only [rebalanceIntoLowerLeafNode, deref_eq hleft, deref_eq hright,
      deref_eq hp.parent, ok_bind, kmAssert_true, and_self, indexOfChild_left hp hf, entryAt_eq rfl,
      hlt, hmove, hinsert, getD_some, hfit, pure_eq_ok]
    have hpop : popBack (es1 ++ [sep, e]) = .ok (e, es1 ++ [sep]) := by
      simpa using popBack_concat (x := es1 ++ [sep]) e
    simp [hpop]
  have hj : j ≠ f.id := hp.right_ne
  have hi : i ≠ f.id := hp.left_ne
  refine ⟨_, hrun, ⟨by simp, by simp [hi, hp.ne], by simp [hj], by simp [Moves], by simp [Moves],
    fun k hk hki hkj _ => ?_, rfl, rfl⟩⟩
  simp [hk, hki, hkj]

lemma rebalanceIntoUpperLeafNode_spec (hp : PairNodes m 0 p f i j (es1 ++ [e]) [] sep es2 [])
    (hf : f.Cut) (hcap : 3 ≤ capacity) (hlack : es2.length + 1 = minCapacity capacity) :
    ∃ m', m.rebalanceIntoUpperLeafNode capacity f.id i j = .ok m' ∧
      Regroups m m' 0 p f i j es1 [] e (sep :: es2) [] := by
  have hmin := minCapacity_le_half hcap
  have hinsert : insertEntry capacity sep es2 = some (sep :: es2) := by
    have hroom : ([] ++ es2).length < capacity := by simp; omega
    have hgap := insertEntry_gap (v := sep.2) (by simp) hp.lt_entries hroom
    simpa using hgap
  have hmove : minCapacity capacity - es2.length = 1 := by omega
  have hle : es2.length ≤ minCapacity capacity := by omega
  have hfit : (sep :: es2).length + 1 ≤ capacity := by
    simp
    omega
  have hleft := hp.left
  have hright := hp.right
  have hrun : m.rebalanceIntoUpperLeafNode capacity f.id i j =
      .ok (((m.set j ⟨true, some f.id, sep :: es2, []⟩).set i ⟨true, some f.id, es1, []⟩).set
        f.id ⟨false, p, f.entriesL ++ e :: f.entriesR,
          f.childrenL.map Tree.id ++ i :: j :: f.childrenR.map Tree.id⟩) := by
    simp only [rebalanceIntoUpperLeafNode, deref_eq hleft, deref_eq hright,
      deref_eq hp.parent, ok_bind, kmAssert_true, and_self, indexOfChild_right hp hf,
      Nat.add_sub_cancel, Nat.succ_ne_zero, if_false, entryAt_eq rfl, hle, hmove, hinsert,
      getD_some, hfit, pure_eq_ok]
    simp [popFront]
  have hj : j ≠ f.id := hp.right_ne
  have hi : i ≠ f.id := hp.left_ne
  refine ⟨_, hrun, ⟨by simp, by simp [hi], by simp [hj, hp.ne.symm], by simp [Moves],
    by simp [Moves], fun k hk hki hkj _ => ?_, rfl, rfl⟩⟩
  simp [hk, hki, hkj]

/-! ## Internal nodes -/

lemma PairNodes.keepsL (hp : PairNodes m h p f i j es1 cs1 sep es2 cs2) :
    Moves m.nodes m.nodes (cs1.map Tree.id) i := by
  intro k hk
  obtain ⟨-, -, -, n, hn, hpar⟩ := hp.childL k hk
  rw [hn, map_some, ← hpar]

lemma PairNodes.keepsR (hp : PairNodes m h p f i j es1 cs1 sep es2 cs2) :
    Moves m.nodes m.nodes (cs2.map Tree.id) j := by
  intro k hk
  obtain ⟨-, -, -, n, hn, hpar⟩ := hp.childR k hk
  rw [hn, map_some, ← hpar]

lemma rebalanceIntoLowerInternalNode_spec {c : Tree K V}
    (hp : PairNodes m (h + 1) p f i j es1 cs1 sep (e :: es2) (c :: cs2)) (hcap : 3 ≤ capacity)
    (hlack : es1.length + 1 = minCapacity capacity) :
    ∃ m', m.rebalanceIntoLowerInternalNode capacity f.id i j f.entriesL.length = .ok m' ∧
      Regroups m m' (h + 1) p f i j (es1 ++ [sep]) (cs1 ++ [c]) e es2 cs2 := by
  have hmin := minCapacity_le_half hcap
  have hmove : minCapacity capacity - es1.length = 1 := by omega
  have hlt : es1.length < minCapacity capacity := by omega
  have hfit : es1.length + 1 ≤ capacity := by omega
  have hleft := hp.left
  have hright := hp.right
  simp only [Nat.succ_ne_zero, decide_false, map_cons] at hleft hright
  obtain ⟨hcf, hci, hcj, n, hn, -⟩ := hp.childR c.id (by simp)
  have hj : j ≠ f.id := hp.right_ne
  have hi : i ≠ f.id := hp.left_ne
  have hnodup := hp.children_ne
  rw [map_cons, nodup_middle, nodup_cons, mem_append, not_or] at hnodup
  obtain ⟨m1, hset, hnodes, hroot, hnext⟩ := setParents_spec [c.id] (some i) (m := m.set i
    ⟨false, some f.id, es1 ++ [sep], cs1.map Tree.id ++ [c.id]⟩) (by simp [hci, hn])
  refine ⟨(m1.set j ⟨false, some f.id, es2, cs2.map Tree.id⟩).set f.id ⟨false, p,
    f.entriesL ++ e :: f.entriesR, f.childrenL.map Tree.id ++ i :: j :: f.childrenR.map Tree.id⟩,
    ?_, ⟨by simp, ?_, by simp [hj], fun k hk => ?_, fun k hk => ?_, fun k hkf hki hkj hk => ?_,
      hroot, hnext⟩⟩
  · simp only [rebalanceIntoLowerInternalNode, deref_eq hleft, deref_eq hright,
      deref_eq hp.parent, ok_bind, kmAssert_true, entryAt_eq rfl, hlt, hmove, hfit, Nat.sub_self,
      take_zero, nil_append, take_succ_cons, drop_succ_cons, drop_zero,
      hset, length_cons, pure_eq_ok]
    simp [entryAt]
  · simp [hi, hp.ne, hnodes, reparent, hci.symm]
  · rw [map_append, mem_append] at hk
    rcases hk with hk | hk
    · obtain ⟨hkf, hki, hkj, -⟩ := hp.childL k hk
      have hkc : k ≠ c.id := fun hkc => hnodup.1.1 (hkc ▸ hk)
      rw [set_nodes_ne hkf, set_nodes_ne hkj, hnodes, reparent_not_mem (by simpa using hkc),
        set_nodes_ne hki]
      exact hp.keepsL k hk
    · obtain rfl : k = c.id := by simpa using hk
      rw [set_nodes_ne hcf, set_nodes_ne hcj, hnodes, reparent_mem (by simp), set_nodes_ne hci]
  · obtain ⟨hkf, hki, hkj, -⟩ := hp.childR k (mem_cons_of_mem _ hk)
    have hkc : k ≠ c.id := fun hkc => hnodup.1.2 (hkc ▸ hk)
    rw [set_nodes_ne hkf, set_nodes_ne hkj, hnodes, reparent_not_mem (by simpa using hkc),
      set_nodes_ne hki]
    exact hp.keepsR k (mem_cons_of_mem _ hk)
  · have hkc : k ∉ [c.id] := fun hkc => hk (by simp [mem_singleton.1 hkc])
    rw [set_nodes_ne hkf, set_nodes_ne hkj, hnodes, reparent_not_mem hkc, set_nodes_ne hki]

lemma rebalanceIntoUpperInternalNode_spec {c : Tree K V}
    (hp : PairNodes m (h + 1) p f i j (es1 ++ [e]) (cs1 ++ [c]) sep es2 cs2) (hcap : 3 ≤ capacity)
    (hlack : es2.length + 1 = minCapacity capacity) (hlen : cs1.length = es1.length + 1) :
    ∃ m', m.rebalanceIntoUpperInternalNode capacity f.id i j f.entriesL.length = .ok m' ∧
      Regroups m m' (h + 1) p f i j es1 cs1 e (sep :: es2) (c :: cs2) := by
  have hmin := minCapacity_le_half hcap
  have hmove : minCapacity capacity - es2.length = 1 := by omega
  have hlt : es2.length < minCapacity capacity := by omega
  have hfit : es2.length + 1 ≤ capacity := by omega
  have hleft := hp.left
  have hright := hp.right
  simp only [Nat.succ_ne_zero, decide_false, map_append, map_cons, map_nil]
    at hleft hright
  obtain ⟨hcf, hci, hcj, n, hn, -⟩ := hp.childL c.id (by simp)
  have hj : j ≠ f.id := hp.right_ne
  have hi : i ≠ f.id := hp.left_ne
  have hnodup := hp.children_ne
  rw [map_append, append_assoc, map_cons, map_nil, singleton_append,
    nodup_middle, nodup_cons, mem_append, not_or] at hnodup
  obtain ⟨m1, hset, hnodes, hroot, hnext⟩ := setParents_spec [c.id] (some j) (m := m.set j
    ⟨false, some f.id, sep :: es2, c.id :: cs2.map Tree.id⟩) (by simp [hcj, hn])
  refine ⟨(m1.set i ⟨false, some f.id, es1, cs1.map Tree.id⟩).set f.id ⟨false, p,
    f.entriesL ++ e :: f.entriesR, f.childrenL.map Tree.id ++ i :: j :: f.childrenR.map Tree.id⟩,
    ?_, ⟨by simp, by simp [hi], ?_, fun k hk => ?_, fun k hk => ?_, fun k hkf hki hkj hk => ?_,
      hroot, hnext⟩⟩
  · have hdrop : (cs1.map Tree.id ++ [c.id]).drop ((cs1.map Tree.id ++ [c.id]).length - 1) =
        [c.id] := by simp
    have htake : (cs1.map Tree.id ++ [c.id]).take ((es1 ++ [e]).length - 1 + 1) =
        cs1.map Tree.id := by
      rw [take_left']
      simpa using hlen
    have hlast : entryAt (es1 ++ [e]) ((es1 ++ [e]).length - 1) = .ok e := entryAt_eq (by simp)
    have hge : ¬ (es1 ++ [e]).length < 1 := by simp
    simp only [rebalanceIntoUpperInternalNode, deref_eq hleft, deref_eq hright,
      deref_eq hp.parent, ok_bind, kmAssert_true, entryAt_eq rfl, hlt, hmove, hfit, Nat.sub_self,
      Nat.sub_zero, drop_length, nil_append, hdrop, htake, hlast, if_neg hge,
      singleton_append, hset, pure_eq_ok]
    simp
  · simp [hj, hp.ne.symm, hnodes, reparent, hcj.symm]
  · obtain ⟨hkf, hki, hkj, -⟩ := hp.childL k (by rw [map_append]; exact mem_append_left _ hk)
    have hkc : k ≠ c.id := fun hkc => hnodup.1.1 (hkc ▸ hk)
    rw [set_nodes_ne hkf, set_nodes_ne hki, hnodes, reparent_not_mem (by simpa using hkc),
      set_nodes_ne hkj]
    exact hp.keepsL k (by rw [map_append]; exact mem_append_left _ hk)
  · rw [map_cons, mem_cons] at hk
    rcases hk with rfl | hk
    · rw [set_nodes_ne hcf, set_nodes_ne hci, hnodes, reparent_mem (by simp), set_nodes_ne hcj]
    · obtain ⟨hkf, hki, hkj, -⟩ := hp.childR k hk
      have hkc : k ≠ c.id := fun hkc => hnodup.1.2 (hkc ▸ hk)
      rw [set_nodes_ne hkf, set_nodes_ne hki, hnodes, reparent_not_mem (by simpa using hkc),
        set_nodes_ne hkj]
      exact hp.keepsR k hk
  · have hkc : k ∉ [c.id] := fun hkc => hk (by simp [mem_singleton.1 hkc])
    rw [set_nodes_ne hkf, set_nodes_ne hki, hnodes, reparent_not_mem hkc, set_nodes_ne hkj]

lemma mergeInternalNodes_spec (hp : PairNodes m (h + 1) p f i j es1 cs1 sep es2 cs2)
    (hf : f.Cut) (hroom : es1.length + es2.length + 1 ≤ capacity)
    (hmin : es1.length + es2.length ≥ minCapacity capacity) :
    ∃ m', m.mergeInternalNodes capacity f.id i j = .ok m' ∧
      Joins m m' (h + 1) p f i j (es1 ++ sep :: es2) (cs1 ++ cs2) := by
  have hleft := hp.left
  have hright := hp.right
  simp only [Nat.succ_ne_zero, decide_false] at hleft hright
  have hj : j ≠ f.id := hp.right_ne
  have hi : i ≠ f.id := hp.left_ne
  have hnodup := List.nodup_append.1 hp.children_ne
  obtain ⟨m1, hset, hnodes, hroot, hnext⟩ := setParents_spec (cs2.map Tree.id) (some i)
    (m := (m.set i ⟨false, some f.id, es1 ++ sep :: es2, cs1.map Tree.id ++ cs2.map Tree.id⟩).set j
      ⟨false, some f.id, [], (cs2.map Tree.id).take 1⟩) (by
    intro k hk
    obtain ⟨-, hki, hkj, n, hn, -⟩ := hp.childR k hk
    exact ⟨n, by rw [set_nodes_ne hkj, set_nodes_ne hki, hn]⟩)
  have hjfresh : j ∉ cs2.map Tree.id := fun hmem => (hp.childR j hmem).2.2.1 rfl
  have hright' : m1.nodes j = some ⟨false, some f.id, [], (cs2.map Tree.id).take 1⟩ := by
    rw [hnodes, reparent_not_mem hjfresh, set_nodes_self]
  obtain ⟨m2, hrelease, hkeep, -, hroot', hnext'⟩ := releaseNodeMemory_spec
    (m := m1.set f.id ⟨false, p, f.entriesL ++ f.entriesR,
      f.childrenL.map Tree.id ++ i :: f.childrenR.map Tree.id⟩) ((set_nodes_ne hj).trans hright')
  refine ⟨m2, ?_, ⟨?_, ?_, fun k hk => ?_, fun k hkf hki hkj hk => ?_, hroot'.trans hroot,
    hnext'.trans hnext⟩⟩
  · have hentries : (f.entriesL ++ sep :: f.entriesR).eraseIdx f.entriesL.length =
        f.entriesL ++ f.entriesR := eraseIdx_append_cons
    have hchildren : (f.childrenL.map Tree.id ++ i :: j :: f.childrenR.map Tree.id).eraseIdx
        (f.entriesL.length + 1) = f.childrenL.map Tree.id ++ i :: f.childrenR.map Tree.id := by
      rw [← hf.1, eraseIdx_append_of_length_le (by simp)]
      simp
    simp only [mergeInternalNodes, deref_eq hleft, deref_eq hright, deref_eq hp.parent, ok_bind,
      kmAssert_true, and_self, indexOfChild_left hp hf, hmin, entryAt_eq rfl, claimInternal, hroom,
      hset, hentries, hchildren, hrelease]
  · rw [hkeep _ hj.symm]
    exact set_nodes_self
  · have hifresh : i ∉ cs2.map Tree.id := fun hmem => (hp.childR i hmem).2.1 rfl
    rw [hkeep _ hp.ne, set_nodes_ne hi, hnodes, reparent_not_mem hifresh,
      set_nodes_ne hp.ne, set_nodes_self]
    simp
  · rw [map_append, mem_append] at hk
    rcases hk with hk | hk
    · obtain ⟨hkf, hki, hkj, -⟩ := hp.childL k hk
      rw [hkeep _ hkj, set_nodes_ne hkf, hnodes,
        reparent_not_mem fun hk' => hnodup.2.2 k hk k hk' rfl, set_nodes_ne hkj, set_nodes_ne hki]
      exact hp.keepsL k hk
    · obtain ⟨hkf, hki, hkj, -⟩ := hp.childR k hk
      rw [hkeep _ hkj, set_nodes_ne hkf, hnodes, reparent_mem hk, set_nodes_ne hkj,
        set_nodes_ne hki]
  · have hk' : k ∉ cs2.map Tree.id := fun hmem => hk (by
      rw [map_append]
      exact mem_append_right _ hmem)
    rw [hkeep _ hkj, set_nodes_ne hkf, hnodes, reparent_not_mem hk',
      set_nodes_ne hkj, set_nodes_ne hki]

end Nodes

end BTree
end BezOS
