import BezOS.Container.BTreePair

/-!
# Splitting full nodes

An entry put into a leaf, a full leaf split for one more entry, and a full internal node split for
one more child: the two halves and the midpoint list what the node and the newcomer listed.
-/

namespace BezOS
namespace BTree

open Lib BTreeMap List

variable {K V : Type} [LinearOrder K] {capacity : Nat} {k : K} {v w : V}
  {x y z : List (K × V)}

/-! ## Entries -/

section Entries

variable (hx : ∀ e ∈ x, e.1 < k) (hz : ∀ e ∈ z, k < e.1)

include hx hz

lemma lowerBound_gap : lowerBound k (x ++ z) = x.length :=
  lowerBound_append hx fun e he => (hz e he).le

lemma lowerBound_hit : lowerBound k (x ++ (k, w) :: z) = x.length := by
  refine lowerBound_append hx fun e he => ?_
  rcases mem_cons.1 he with rfl | he
  · exact le_rfl
  · exact (hz e he).le

lemma insertEntry_hit :
    insertEntry capacity (k, v) (x ++ (k, w) :: z) = some (x ++ (k, v) :: z) := by
  simp [insertEntry, lowerBound_hit hx hz]

lemma insertEntry_full (hfull : capacity ≤ (x ++ z).length) :
    insertEntry capacity (k, v) (x ++ z) = none := by
  rw [insertEntry, lowerBound_gap hx hz]
  cases z with
  | nil => simpa using hfull
  | cons e z =>
    have hne : e.1 ≠ k := (hz e (by simp)).ne'
    have hle : (x ++ e :: z).length ≥ capacity := hfull
    simp only [getElem?_append_right le_rfl, Nat.sub_self, getElem?_cons_zero, hne,
      if_false, if_pos hle]

lemma insertEntry_gap (hroom : (x ++ z).length < capacity) :
    insertEntry capacity (k, v) (x ++ z) = some (x ++ (k, v) :: z) := by
  rw [insertEntry, lowerBound_gap hx hz]
  cases z with
  | nil =>
    have hlt : ¬ x.length ≥ capacity := by simpa using hroom
    simp [hlt]
  | cons e z =>
    have hne : e.1 ≠ k := (hz e (by simp)).ne'
    have hlt : ¬ (x ++ e :: z).length ≥ capacity := not_le.2 hroom
    simp only [getElem?_append_right le_rfl, Nat.sub_self, getElem?_cons_zero, hne,
      if_false, if_neg hlt, insertIdx_append]

end Entries

lemma insertEntry_first (e : K × V) :
    insertEntry capacity e (e :: z) = some (e :: z) := by
  simp [insertEntry, lowerBound, Lib.lowerBound, findIdx_cons]

omit [LinearOrder K] in
lemma popBack_concat (e : K × V) : popBack (x ++ [e]) = .ok (e, x) := by
  simp [popBack]

lemma minCapacity_le_half (hcap : 3 ≤ capacity) :
    1 ≤ minCapacity capacity ∧ minCapacity capacity ≤ capacity / 2 ∧
      minCapacity capacity ≤ capacity - capacity / 2 ∧ 2 * minCapacity capacity < capacity + 1 ∧
        1 ≤ capacity / 2 ∧ capacity / 2 < capacity := by
  rw [minCapacity]
  omega

lemma splitInto_spec (hcap : 3 ≤ capacity) (hlen : (x ++ z).length = capacity)
    (hx : ∀ e ∈ x, e.1 < k) (hz : ∀ e ∈ z, k < e.1) :
    ∃ lo hi mid, splitInto capacity (x ++ z) [] (k, v) = .ok (lo, hi, mid) ∧
      lo ++ mid :: hi = x ++ (k, v) :: z ∧
      (minCapacity capacity ≤ lo.length ∧ lo.length ≤ capacity) ∧
        (minCapacity capacity ≤ hi.length ∧ hi.length ≤ capacity) := by
  obtain ⟨hmin, hlow, hhigh, -, hhalf, hhalf'⟩ := minCapacity_le_half hcap
  have hnone : indexOf k (x ++ z) = none := by
    refine indexOf_eq_none fun e he => ?_
    rcases mem_append.1 he with he | he
    · exact (hx e he).ne
    · exact (hz e he).ne'
  have hsum : x.length + z.length = capacity := by rw [← hlen, length_append]
  by_cases hside : x.length ≤ capacity / 2
  · -- the entry belongs to the lower half, whose last entry is the midpoint
    obtain ⟨z1, middle, z2, rfl, hz1⟩ :=
      exists_append_cons (l := z) (n := capacity / 2 - x.length) (by omega)
    have hhead : (x ++ z1).length = capacity / 2 := by
      rw [length_append]
      omega
    have hrest : (middle :: z2).length = capacity - capacity / 2 := by
      rw [length_append] at hsum
      omega
    have hlt : k < middle.1 := hz middle (by simp)
    have hlower : insertEntry capacity (k, v) (x ++ z1) = some (x ++ (k, v) :: z1) :=
      insertEntry_gap hx (fun e he => hz e (by simp [he])) (by omega)
    obtain ⟨lo, mid, hlo⟩ : ∃ lo mid, x ++ (k, v) :: z1 = lo ++ [mid] := by
      rcases eq_nil_or_concat (x ++ (k, v) :: z1) with hnil | ⟨lo, mid, hlo⟩
      · simp at hnil
      · exact ⟨lo, mid, by simpa using hlo⟩
    have hlolen : lo.length = capacity / 2 := by
      have := congrArg length hlo
      simp only [length_append, length_cons, length_nil] at this hhead
      omega
    have hcut : x ++ (z1 ++ middle :: z2) = (x ++ z1) ++ middle :: z2 := by simp
    refine ⟨lo, middle :: z2, mid, ?_, ?_, by omega, by omega⟩
    · have hm : ¬ (middle :: z2).length < minCapacity capacity := by omega
      have hl : ¬ lo.length < minCapacity capacity := by omega
      rw [hcut] at hlen hnone ⊢
      simp only [splitInto, length_nil, kmAssert_true, hlen, hnone, ok_bind,
        entryAt_eq hhead, take_left' hhead, drop_left' hhead, if_pos hlt, hlower,
        insertEntry_first, Option.getD_some, hlo, popBack_concat, pure_eq_ok, hm, hl,
        not_false_eq_true]
    · calc lo ++ mid :: middle :: z2 = (lo ++ [mid]) ++ middle :: z2 := by simp
        _ = x ++ (k, v) :: (z1 ++ middle :: z2) := by rw [← hlo]; simp
  · -- the entry belongs to the upper half, whose first entry is the midpoint
    obtain ⟨x1, middle, x2, rfl, hx1⟩ :=
      exists_append_cons (l := x) (n := capacity / 2) (by omega)
    have hlt : ¬ k < middle.1 := not_lt.2 (hx middle (by simp)).le
    have hupper : insertEntry capacity (k, v) ((middle :: x2) ++ z) =
        some ((middle :: x2) ++ (k, v) :: z) := by
      refine insertEntry_gap (fun e he => hx e (by simp_all)) hz ?_
      simp only [length_append, length_cons] at hsum ⊢
      omega
    have hhi : (x2 ++ (k, v) :: z).length = capacity - capacity / 2 := by
      simp only [length_append, length_cons] at hsum ⊢
      omega
    have hcut : (x1 ++ middle :: x2) ++ z = x1 ++ middle :: (x2 ++ z) := by simp
    refine ⟨x1, x2 ++ (k, v) :: z, middle, ?_, by simp, by omega, by omega⟩
    have hm : ¬ (x2 ++ (k, v) :: z).length < minCapacity capacity := by omega
    have hl : ¬ x1.length < minCapacity capacity := by omega
    rw [hcut] at hlen hnone ⊢
    simp only [cons_append] at hupper
    simp only [splitInto, length_nil, kmAssert_true, hlen, hnone, ok_bind,
      entryAt_eq hx1, take_left' hx1, drop_left' hx1, if_neg hlt, hupper,
      Option.getD_some, popFront, pure_eq_ok, hm, hl, not_false_eq_true]

/-! ## Internal nodes -/

section Internal

variable {m : BTreeMap K V} {this other leaf : NodeId} {p q : Option NodeId} {b : Bool}
  {eL eR : List (K × V)} {ids idsL idsR u w : List NodeId} {mid pivot : K × V}
  {nl : TreeNode K V}

lemma insertChild_spec (hthis : m.nodes this = some ⟨b, p, eL ++ eR, idsL ++ idsR⟩)
    (hlen : idsL.length = eL.length + 1) (hleaf : m.nodes leaf = some nl) (hne : leaf ≠ this)
    (hL : ∀ e ∈ eL, e.1 < mid.1) (hR : ∀ e ∈ eR, mid.1 < e.1)
    (hroom : (eL ++ eR).length < capacity) :
    ∃ m', m.insertChild capacity this mid leaf = .ok (true, m') ∧
      m'.nodes this = some ⟨b, p, eL ++ mid :: eR, idsL ++ leaf :: idsR⟩ ∧
      m'.nodes leaf = some { nl with parent := some this } ∧
      (∀ k, k ≠ this → k ≠ leaf → m'.nodes k = m.nodes k) ∧
      m'.rootNode = m.rootNode ∧ m'.next = m.next := by
  have hfull : ¬ (eL ++ eR).length ≥ capacity := not_le.2 hroom
  have hbound : lowerBound mid.1 (eL ++ eR) = eL.length := lowerBound_gap hL hR
  obtain ⟨m', hset, hmoved, hkeep, hroot, hnext⟩ := setParent_spec (p := some this) ((set_nodes_ne hne).trans hleaf)
  refine ⟨m', ?_, by rw [hkeep _ hne.symm, set_nodes_self], hmoved,
    fun k hk hkl => by rw [hkeep k hkl, set_nodes_ne hk], hroot, hnext⟩
  simp only [insertChild, deref_eq hthis, ok_bind, if_neg hfull, hbound, insertIdx_append,
    ← hlen, hset, pure_eq_ok]
  -- the separator is not there yet
  cases eR with
  | nil => simp
  | cons e eR =>
    have hne : e.1 ≠ mid.1 := (hR e (by simp)).ne'
    simp [hne]

lemma transferInto_spec {x y : List (K × V)} {o : TreeNode K V}
    (hthis : m.nodes this = some ⟨b, p, x ++ pivot :: y, u ++ w⟩)
    (hother : m.nodes other = some o) (hne : other ≠ this) (hx : x.length = capacity / 2)
    (hu : u.length = capacity / 2 + 1) (hy : ∀ e ∈ y, pivot.1 < e.1)
    (hw : ∀ k ∈ w, k ≠ this ∧ k ≠ other ∧ ∃ n, m.nodes k = some n) :
    ∃ m', m.transferInto capacity this other = .ok (pivot, m') ∧
      m'.nodes this = some ⟨b, p, x, u⟩ ∧
      m'.nodes other = some { o with entries := y, children := w } ∧
      Moves m.nodes m'.nodes w other ∧
      (∀ k, k ≠ this → k ≠ other → k ∉ w → m'.nodes k = m.nodes k) ∧
      m'.rootNode = m.rootNode ∧ m'.next = m.next := by
  obtain ⟨m', hset, hnodes, hroot, hnext⟩ := setParents_spec w (some other)
    (m := m.set other { o with entries := y, children := w }) (by
    intro k hk
    obtain ⟨-, hko, n, hn⟩ := hw k hk
    exact ⟨n, by rw [set_nodes_ne hko, hn]⟩)
  have hother' : other ∉ w := fun hmem => (hw other hmem).2.1 rfl
  refine ⟨m'.set this ⟨b, p, x, u⟩, ?_, set_nodes_self, ?_, fun k hk => ?_, fun k hk hko hkw => ?_,
    hroot, hnext⟩
  · have hdrop : (x ++ pivot :: y).drop (capacity / 2 + 1) = y := by
      rw [← hx, drop_append]
      simp
    have habsent : containsInNode pivot.1 y = false := by
      rw [containsInNode, any_eq_false]
      intro e he
      simpa using (hy e he).ne'
    simp [transferInto, deref_eq hthis, deref_eq hother, entryAt_eq hx, hdrop, drop_left' hu, take_left' hu, take_left' hx, hset, kmAssert_true, habsent, pure_eq_ok]
  · rw [set_nodes_ne hne, hnodes, reparent_not_mem hother', set_nodes_self]
  · obtain ⟨hkt, hko, -⟩ := hw k hk
    rw [set_nodes_ne hkt, hnodes, reparent_mem hk, set_nodes_ne hko]
  · rw [set_nodes_ne hk, hnodes, reparent_not_mem hkw, set_nodes_ne hko]

/-- The memory around a full node that is to be split for one more child. -/
structure SplitNodes (m : BTreeMap K V) (this other leaf : NodeId) (p q : Option NodeId)
    (eL eR : List (K × V)) (idsL idsR : List NodeId) : Prop where
  node : m.nodes this = some ⟨false, p, eL ++ eR, idsL ++ idsR⟩
  newNode : m.nodes other = some ⟨false, q, [], []⟩
  newLeaf : ∃ n, m.nodes leaf = some n
  other_ne : other ≠ this
  leaf_ne : leaf ≠ this ∧ leaf ≠ other
  child : ∀ k ∈ idsL ++ idsR, k ≠ this ∧ k ≠ other ∧ k ≠ leaf ∧
    ∃ n, m.nodes k = some n ∧ n.parent = some this
  nodup : (idsL ++ idsR).Nodup
  lenL : idsL.length = eL.length + 1
  lenR : idsR.length = eR.length

/-- The memory after the split: the node and the new one share the entries and the children. -/
structure SplitResult (m m' : BTreeMap K V) (this other : NodeId) (p q : Option NodeId)
    (es1 es2 : List (K × V)) (ids1 ids2 : List NodeId) : Prop where
  node : m'.nodes this = some ⟨false, p, es1, ids1⟩
  newNode : m'.nodes other = some ⟨false, q, es2, ids2⟩
  movesL : Moves m.nodes m'.nodes ids1 this
  movesR : Moves m.nodes m'.nodes ids2 other
  same : ∀ k, k ≠ this → k ≠ other → k ∉ ids1 ++ ids2 → m'.nodes k = m.nodes k
  root : m'.rootNode = m.rootNode
  next : m'.next = m.next

omit [LinearOrder K] in
lemma SplitNodes.keeps (hs : SplitNodes m this other leaf p q eL eR idsL idsR) :
    Moves m.nodes m.nodes (idsL ++ idsR) this := by
  intro k hk
  obtain ⟨-, -, -, n, hn, hpar⟩ := hs.child k hk
  rw [hn, Option.map_some, ← hpar]

lemma splitInternal_upper (hcap : 3 ≤ capacity) {x eM : List (K × V)}
    (hs : SplitNodes m this other leaf p q (x ++ pivot :: eM) eR idsL idsR)
    (hlen : x.length = capacity / 2) (hfull : ((x ++ pivot :: eM) ++ eR).length = capacity)
    (hsorted : KeySorted ((x ++ pivot :: eM) ++ mid :: eR)) :
    ∃ m' u w, m.splitInternal capacity this other leaf mid = .ok (pivot, m') ∧
      idsL = u ++ w ∧ u.length = x.length + 1 ∧
      SplitResult m m' this other p q x (eM ++ mid :: eR) u (w ++ leaf :: idsR) := by
  have hlenL := hs.lenL
  rw [length_append, length_cons] at hlenL
  obtain ⟨u, w, rfl, hu⟩ : ∃ u w, idsL = u ++ w ∧ u.length = capacity / 2 + 1 :=
    ⟨idsL.take (capacity / 2 + 1), idsL.drop (capacity / 2 + 1), by simp, by simp; omega⟩
  have hw : w.length = eM.length + 1 := by
    rw [length_append] at hlenL
    omega
  rw [length_append, length_append, length_cons] at hfull
  -- the order of the entries
  have hpivot : ∀ e ∈ eM ++ mid :: eR, pivot.1 < e.1 := by
    have := hsorted
    rw [append_assoc, cons_append] at this
    exact this.around.2
  have hmid : (∀ e ∈ eM, e.1 < mid.1) ∧ ∀ e ∈ eR, mid.1 < e.1 := by
    have := hsorted
    rw [append_assoc, cons_append] at this
    exact (KeySorted.cons_iff.1 this.right).2.around
  have hthis := hs.node
  rw [append_assoc, cons_append, append_assoc] at hthis
  obtain ⟨nl, hnl⟩ := hs.newLeaf
  obtain ⟨m1, htransfer, hthis1, hother1, hmoves1, hsame1, hroot1, hnext1⟩ :=
    transferInto_spec hthis hs.newNode hs.other_ne hlen hu (fun e he => hpivot e (by simp_all; tauto))
      (fun k hk => by
        obtain ⟨hkt, hko, -, n, hn, -⟩ := hs.child k (by simp_all)
        exact ⟨hkt, hko, n, hn⟩)
  have hleaf_fresh : leaf ∉ w ++ idsR := by
    intro hmem
    exact (hs.child leaf (by simp_all)).2.2.1 rfl
  have hnl1 : m1.nodes leaf = some nl := by
    rw [hsame1 leaf hs.leaf_ne.1 hs.leaf_ne.2 hleaf_fresh, hnl]
  have hroom : (eM ++ eR).length < capacity := by
    rw [length_append]
    omega
  obtain ⟨m2, hinsert, hother2, hleaf2, hsame2, hroot2, hnext2⟩ := insertChild_spec hother1 hw hnl1
    hs.leaf_ne.2 hmid.1 hmid.2 hroom
  have hthis2 : m2.nodes this = some ⟨false, p, x, u⟩ := by
    rw [hsame2 this hs.other_ne.symm hs.leaf_ne.1.symm, hthis1]
  refine ⟨m2, u, w, ?_, rfl, by omega, hthis2, hother2, fun k hk => ?_, fun k hk => ?_,
    fun k hk hko hkw => ?_, hroot2.trans hroot1, hnext2.trans hnext1⟩
  · have hlt : pivot.1 < mid.1 := hpivot mid (by simp)
    have hnlen : (x ++ pivot :: (eM ++ eR)).length = capacity := by
      rw [length_append, length_cons, length_append]
      omega
    have hge : x.length ≥ capacity / 2 - 1 := by omega
    have hge' : (eM ++ mid :: eR).length ≥ capacity / 2 - 1 := by
      rw [length_append, length_cons]
      omega
    simp only [splitInternal, deref_eq hthis, deref_eq hs.newNode, ok_bind, length_nil,
      kmAssert_true, hnlen, entryAt_eq hlen, htransfer, if_pos hlt, hinsert, deref_eq hthis2,
      deref_eq hother2, hge, hge', pure_eq_ok]
  · obtain ⟨hkt, hko, hkl, -⟩ := hs.child k (by simp [hk])
    have hkw : k ∉ w ++ idsR := by
      have := hs.nodup
      rw [append_assoc] at this
      exact fun hmem => (nodup_append.1 this).2.2 k hk k hmem rfl
    rw [hsame2 k hko hkl, hsame1 k hkt hko hkw]
    exact hs.keeps k (by simp [hk])
  · by_cases hkl : k = leaf
    · subst hkl
      rw [hleaf2, hnl]
      rfl
    · have hkw : k ∈ w ++ idsR := by
        simpa [hkl] using hk
      obtain ⟨-, hko, -⟩ := hs.child k (by simp_all)
      rw [hsame2 k hko hkl]
      exact hmoves1 k hkw
  · have hkl : k ≠ leaf := by
      rintro rfl
      simp at hkw
    have hkw' : k ∉ w ++ idsR := by
      intro hmem
      simp_all
    rw [hsame2 k hko hkl, hsame1 k hk hko hkw']

lemma splitInternal_lower (hcap : 3 ≤ capacity) {eM y : List (K × V)}
    (hs : SplitNodes m this other leaf p q eL (eM ++ pivot :: y) idsL idsR)
    (hlen : (eL ++ eM).length = capacity / 2)
    (hfull : (eL ++ (eM ++ pivot :: y)).length = capacity)
    (hsorted : KeySorted (eL ++ mid :: (eM ++ pivot :: y))) :
    ∃ m' u w, m.splitInternal capacity this other leaf mid = .ok (pivot, m') ∧
      idsR = u ++ w ∧ u.length = eM.length ∧
      SplitResult m m' this other p q (eL ++ mid :: eM) y (idsL ++ leaf :: u) w := by
  have hlenL := hs.lenL
  have hlenR := hs.lenR
  rw [length_append, length_cons] at hlenR
  rw [length_append] at hlen
  obtain ⟨u, w, rfl, hu⟩ : ∃ u w, idsR = u ++ w ∧ u.length = eM.length :=
    ⟨idsR.take eM.length, idsR.drop eM.length, by simp, by simp; omega⟩
  -- the order of the entries
  have hpivot : ∀ e ∈ y, pivot.1 < e.1 := by
    have := hsorted
    rw [← cons_append, ← append_assoc] at this
    exact this.around.2
  have hmid := hsorted.around
  have hthis := hs.node
  rw [← append_assoc, ← append_assoc] at hthis
  obtain ⟨nl, hnl⟩ := hs.newLeaf
  obtain ⟨m1, htransfer, hthis1, hother1, hmoves1, hsame1, hroot1, hnext1⟩ :=
    transferInto_spec hthis hs.newNode hs.other_ne (by rw [length_append, hlen])
      (by rw [length_append]; omega) hpivot (fun k hk => by
        obtain ⟨hkt, hko, -, n, hn, -⟩ := hs.child k (by simp [hk])
        exact ⟨hkt, hko, n, hn⟩)
  have hleaf_fresh : leaf ∉ w := fun hmem => (hs.child leaf (by simp [hmem])).2.2.1 rfl
  have hnl1 : m1.nodes leaf = some nl := by
    rw [hsame1 leaf hs.leaf_ne.1 hs.leaf_ne.2 hleaf_fresh, hnl]
  have hroom : (eL ++ eM).length < capacity := by
    rw [length_append]
    omega
  obtain ⟨m2, hinsert, hthis2, hleaf2, hsame2, hroot2, hnext2⟩ := insertChild_spec hthis1 hlenL hnl1
    hs.leaf_ne.1 hmid.1 (fun e he => hmid.2 e (by simp [he])) hroom
  have hother2 : m2.nodes other = some ⟨false, q, y, w⟩ := by
    rw [hsame2 other hs.other_ne hs.leaf_ne.2.symm, hother1]
  rw [length_append, length_append, length_cons] at hfull
  refine ⟨m2, u, w, ?_, rfl, hu, hthis2, hother2, fun k hk => ?_, fun k hk => ?_,
    fun k hk hko hkw => ?_, hroot2.trans hroot1, hnext2.trans hnext1⟩
  · have hlt : ¬ pivot.1 < mid.1 := not_lt.2 (hmid.2 pivot (by simp)).le
    have hnlen : (eL ++ eM ++ pivot :: y).length = capacity := by
      rw [length_append, length_append, length_cons]
      omega
    have hge : (eL ++ mid :: eM).length ≥ capacity / 2 - 1 := by
      rw [length_append, length_cons]
      omega
    have hge' : y.length ≥ capacity / 2 - 1 := by omega
    have hhead : (eL ++ eM).length = capacity / 2 := by rw [length_append, hlen]
    simp only [splitInternal, deref_eq hthis, deref_eq hs.newNode, ok_bind,
      length_nil, kmAssert_true, hnlen, entryAt_eq hhead, htransfer, if_neg hlt, hinsert,
      deref_eq hthis2, deref_eq hother2, hge, hge', pure_eq_ok]
  · by_cases hkl : k = leaf
    · subst hkl
      rw [hleaf2, hnl]
      rfl
    · have hku : k ∈ idsL ++ u := by
        simpa [hkl] using hk
      have hkw : k ∉ w := by
        have := hs.nodup
        rw [← append_assoc] at this
        exact fun hmem => (nodup_append.1 this).2.2 k hku k hmem rfl
      have hmem : k ∈ idsL ++ (u ++ w) := by
        rw [← append_assoc]
        exact mem_append_left _ hku
      obtain ⟨hkt, hko, -⟩ := hs.child k hmem
      rw [hsame2 k hkt hkl, hsame1 k hkt hko hkw]
      exact hs.keeps k hmem
  · obtain ⟨hkt, hko, hkl, -⟩ := hs.child k (by simp [hk])
    rw [hsame2 k hkt hkl]
    exact hmoves1 k hk
  · have hkl : k ≠ leaf := by
      rintro rfl
      simp at hkw
    have hkw' : k ∉ w := fun hmem => hkw (by simp [hmem])
    rw [hsame2 k hk hkl, hsame1 k hk hko hkw']

lemma splitInternal_spec (hcap : 3 ≤ capacity)
    (hs : SplitNodes m this other leaf p q eL eR idsL idsR)
    (hfull : (eL ++ eR).length = capacity) (hsorted : KeySorted (eL ++ mid :: eR)) :
    ∃ m' es1 pivot es2 ids1 ids2,
      m.splitInternal capacity this other leaf mid = .ok (pivot, m') ∧
      es1 ++ pivot :: es2 = eL ++ mid :: eR ∧ ids1 ++ ids2 = idsL ++ leaf :: idsR ∧
      ids1.length = es1.length + 1 ∧
      (minCapacity capacity ≤ es1.length ∧ es1.length ≤ capacity) ∧
      (minCapacity capacity ≤ es2.length ∧ es2.length ≤ capacity) ∧
      SplitResult m m' this other p q es1 es2 ids1 ids2 := by
  have hlenL := hs.lenL
  have htop : minCapacity capacity ≤ capacity - capacity / 2 - 1 := by
    rw [minCapacity]
    omega
  by_cases hside : capacity / 2 < eL.length
  · obtain ⟨x, pivot, eM, rfl, hx⟩ := exists_append_cons hside
    obtain ⟨m', u, w, hrun, rfl, hu, hres⟩ := splitInternal_upper hcap hs hx hfull hsorted
    rw [length_append, length_append, length_cons] at hfull
    refine ⟨m', x, pivot, eM ++ mid :: eR, u, w ++ leaf :: idsR, hrun, by simp, by simp, hu,
      ⟨by omega, by omega⟩, ⟨?_, ?_⟩, hres⟩
    · rw [length_append, length_cons]
      omega
    · rw [length_append, length_cons]
      omega
  · have hsum := hfull
    rw [length_append] at hsum
    obtain ⟨eM, pivot, y, rfl, hx⟩ := exists_append_cons (l := eR) (n := capacity / 2 - eL.length)
      (by omega)
    have hhead : (eL ++ eM).length = capacity / 2 := by
      rw [length_append]
      omega
    obtain ⟨m', u, w, hrun, rfl, hu, hres⟩ := splitInternal_lower hcap hs hhead hfull hsorted
    rw [length_append, length_append, length_cons] at hfull
    refine ⟨m', eL ++ mid :: eM, pivot, y, idsL ++ leaf :: u, w, hrun, by simp, by simp, ?_,
      ⟨?_, ?_⟩, ⟨by omega, by omega⟩, hres⟩
    · rw [length_append, length_append, length_cons, length_cons]
      omega
    · rw [length_append, length_cons]
      omega
    · rw [length_append, length_cons]
      omega

end Internal

end BTree
end BezOS
