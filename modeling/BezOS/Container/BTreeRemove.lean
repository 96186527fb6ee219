import BezOS.Container.BTreeErase

/-!
# Removing a key

The entry of the key is erased from its leaf, or its place in an internal node is taken by the
largest entry before it, which comes from a leaf. Either way a leaf is one entry short, and the
tree is settled from there.
-/

namespace BezOS

open BTreeMap Frame Function List Tree

def Frame.withSeparator {K V : Type} (f : Frame K V) (e : K × V) (eR : List (K × V)) : Frame K V :=
  { f with entriesR := e :: eR }

namespace BTree

open Lib

variable {K V : Type} [LinearOrder K] {capacity h fuel : Nat} {m : BTreeMap K V}
  {fs fsI : List (Frame K V)} {f f' : Frame K V} {t : Tree K V} {k k : K} {v : V}

/-- Frames between a node of height `h` and the last leaf below it. -/
structure LastBelow (h : Nat) (fsI : List (Frame K V)) (list : List (K × V)) : Prop where
  after : ∀ gs, after 0 (fsI ++ gs) = after h gs
  before : ∀ gs, before 0 (fsI ++ gs) = before h gs ++ list

lemma promoteBack_spec (hcap : 3 ≤ capacity) (hfuel : h < fuel) (ha : At capacity m h fs t)
    (ht : t.Filled capacity (leastBelow capacity fs) h) :
    ∃ fsI leaf x e B,
      m.promoteBack fuel t.id =
        .ok (e, leaf.id, m.set leaf.id ⟨true, parentOf (fsI ++ fs), x, []⟩) ∧
      At capacity m 0 (fsI ++ fs) leaf ∧ leaf.Filled capacity (leastBelow capacity (fsI ++ fs)) 0 ∧
      leaf.entries = x ++ [e] ∧ LastBelow h fsI B ∧ t.toList h = B ++ leaf.entries := by
  induction h generalizing fuel fs t with
  | zero =>
    obtain ⟨fuel, rfl⟩ : ∃ n, fuel = n + 1 := ⟨fuel - 1, by omega⟩
    have hone : 1 ≤ leastBelow capacity fs := one_le_leastBelow hcap
    have hpos : 0 < t.entries.length := by
      have := ht.bounds
      omega
    obtain ⟨x, e, hx⟩ := (eq_nil_or_concat t.entries).resolve_left (length_pos_iff.1 hpos)
    rw [concat_eq_append] at hx
    refine ⟨[], t, x, e, [], ?_, ha, ht, hx, ⟨by simp, by simp⟩, rfl⟩
    have hchildren : t.children = [] := ha.rep.2
    have hderef := deref_eq ha.rep.node
    rw [hx] at hpos
    simp [promoteBack, hderef, kmAssert_true, gt_iff_lt, decide_true, if_true, hx, hpos, popBack_concat, pure_eq_ok, hchildren, map_nil, nil_append]
  | succ h ih =>
    obtain ⟨fuel, rfl⟩ : ∃ n, fuel = n + 1 := ⟨fuel - 1, by omega⟩
    have hone : 1 ≤ leastBelow capacity fs := one_le_leastBelow hcap
    have hpos : 0 < t.entries.length := by
      have := ht.bounds
      omega
    obtain ⟨i, es, cs⟩ := t
    rw [entries_mk] at hpos
    have hlen : cs.length = es.length + 1 := ht.2.1
    have hne : cs ≠ [] := ne_nil_of_length_pos (by omega)
    obtain ⟨cs, c, rfl⟩ := (eq_nil_or_concat cs).resolve_left hne
    simp only [concat_eq_append, length_append, length_singleton] at *
    -- the last child is entered, so nothing of the node stands after it
    have hcut : (mk i es cs [] []).Cut := ⟨by dsimp only; omega, rfl⟩
    have hfill : Tree.mk i es (cs ++ [c]) = (mk i es cs [] []).fill c := by
      rw [fill, append_nil]
    have hget : getLeaf (⟨false, parentOf fs, es, (cs ++ [c]).map Tree.id⟩ :
        TreeNode K V) es.length = .ok c.id := by
      rw [map_append]
      exact getLeaf_eq (by rw [length_map]; omega)
    have hderef : m.deref i = .ok ⟨false, parentOf fs, es, (cs ++ [c]).map Tree.id⟩ :=
      deref_eq ha.rep.1
    have hstep : m.promoteBack (fuel + 1) i = m.promoteBack fuel c.id := by
      simp only [promoteBack, hderef, ok_bind, kmAssert_true, gt_iff_lt, hpos,
        Bool.false_eq_true, if_false, hget]
    rw [hfill] at ha ht
    obtain ⟨hac, hfc⟩ := ha.child hcut ht
    obtain ⟨fsI, leaf, x, e, B, hrun, hat, hleaf, hx, hlast, hlist⟩ :=
      ih (Nat.lt_of_succ_lt_succ hfuel) hac hfc
    refine ⟨fsI ++ [mk i es cs [] []], leaf, x, e, (mk i es cs [] []).before h ++ B,
      ?_, ?_, ?_, hx, ⟨fun gs => ?_, fun gs => ?_⟩, ?_⟩
    · rw [id_mk, hstep, hrun]
      simp
    · simpa using hat
    · simpa using hleaf
    · rw [append_assoc, singleton_append, hlast.after]
      simp [after, Frame.after]
    · rw [append_assoc, singleton_append, hlast.before]
      simp [before]
    · rw [hfill, toList_fill h hcut, hlist]
      simp [Frame.after]

/-! ## A new separator -/

section Separator

variable {nodes nodes' : NodeId → Option (TreeNode K V)} {e e0 : K × V} {eR : List (K × V)}

omit [LinearOrder K] in
lemma ctxIds_separator (h : Nat) (fsI fs : List (Frame K V)) (f : Frame K V) :
    ctxIds h (fsI ++ f.withSeparator e eR :: fs) = ctxIds h (fsI ++ f :: fs) := by
  induction fsI generalizing h with
  | nil => rfl
  | cons g fsI ih => simp [ctxIds, ih]

omit [LinearOrder K] in
lemma plug_separator (fsI fs : List (Frame K V)) (f : Frame K V) (t : Tree K V) :
    (plug (fsI ++ f.withSeparator e eR :: fs) t).id = (plug (fsI ++ f :: fs) t).id := by
  induction fsI generalizing t with
  | nil =>
    have hid : ((f.withSeparator e eR).fill t).id = (f.fill t).id := rfl
    exact plug_id (.inl hid)
  | cons g fsI ih => exact ih _

omit [LinearOrder K] in
lemma parentOf_separator (fsI fs : List (Frame K V)) (f : Frame K V) :
    parentOf (fsI ++ f.withSeparator e eR :: fs) = parentOf (fsI ++ f :: fs) := by
  cases fsI <;> rfl

omit [LinearOrder K] in
lemma filledCtx_separator (hf : FilledCtx capacity h (fsI ++ f :: fs))
    (hR : f.entriesR = e0 :: eR) :
    FilledCtx capacity h (fsI ++ f.withSeparator e eR :: fs) := by
  induction fsI generalizing h with
  | nil =>
    obtain ⟨hcut, hcount, hrest⟩ := hf
    refine ⟨⟨hcut.1, ?_⟩, ?_, hrest⟩
    · simpa [withSeparator, hR] using hcut.2
    · simpa [withSeparator, hR] using hcount
  | cons g fsI ih =>
    rw [cons_append, FilledCtx] at hf ⊢
    obtain ⟨hcut, hcount, hothers, hrest⟩ := hf
    refine ⟨hcut, ?_, hothers, ih hrest⟩
    have hleast : leastBelow capacity (fsI ++ f.withSeparator e eR :: fs) =
        leastBelow capacity (fsI ++ f :: fs) := by
      cases fsI <;> rfl
    rw [hleast]
    exact hcount

omit [LinearOrder K] in
lemma repCtx_separator {x : NodeId} (hctx : RepCtx nodes h (fsI ++ f :: fs) x)
    (hnodup : (ctxIds h (fsI ++ f :: fs)).Nodup) (hR : f.entriesR = e0 :: eR) :
    ∃ ids, nodes f.id = some ⟨false, parentOf fs, f.entriesL ++ e0 :: eR, ids⟩ ∧
      RepCtx (update nodes f.id (some ⟨false, parentOf fs, f.entriesL ++ e :: eR, ids⟩)) h
        (fsI ++ f.withSeparator e eR :: fs) x := by
  induction fsI generalizing h x with
  | nil =>
    obtain ⟨hnode, hothers, hrest⟩ := hctx
    rw [hR] at hnode
    simp only [nil_append, ctxIds, nodup_append, Frame.ids, nodup_cons] at hnodup
    refine ⟨_, hnode, ?_, fun c hc => ?_, ?_⟩
    · exact update_self f.id _ nodes
    · refine (hothers c hc).congr fun i hi => update_of_ne ?_ _ _
      rintro rfl
      exact hnodup.1.1 (mem_flatMap.2 ⟨c, hc, hi⟩)
    · refine hrest.congr fun i hi => update_of_ne ?_ _ _
      rintro rfl
      exact hnodup.2.2 _ mem_cons_self _ hi rfl
  | cons g fsI ih =>
    rw [cons_append, RepCtx] at hctx
    obtain ⟨hnode, hothers, hrest⟩ := hctx
    rw [cons_append, ctxIds, nodup_append] at hnodup
    obtain ⟨ids, hf, hctx'⟩ := ih hrest hnodup.2.1
    have hmem : f.id ∈ ctxIds (h + 1) (fsI ++ f :: fs) := frame_mem_ctxIds (by simp)
    refine ⟨ids, hf, ?_, fun c hc => ?_, hctx'⟩
    · have hparent : parentOf (fsI ++ f.withSeparator e eR :: fs) = parentOf (fsI ++ f :: fs) :=
        parentOf_separator fsI fs f
      have hne : g.id ≠ f.id := hnodup.2.2 g.id mem_cons_self f.id hmem
      refine (update_of_ne hne _ _).trans (hnode.trans ?_)
      rw [← hparent]
      rfl
    · refine (hothers c hc).congr fun i hi => update_of_ne ?_ _ _
      exact hnodup.2.2 i (mem_cons_of_mem _ (mem_flatMap.2 ⟨c, hc, hi⟩)) f.id hmem

lemma At.separator (ha : At capacity m h (fsI ++ f :: fs) t) (hR : f.entriesR = e0 :: eR)
    (hsorted : KeySorted (before h (fsI ++ f.withSeparator e eR :: fs) ++
      (t.toList h ++ after h (fsI ++ f.withSeparator e eR :: fs)))) :
    ∃ ids, m.nodes f.id = some ⟨false, parentOf fs, f.entriesL ++ e0 :: eR, ids⟩ ∧
      At capacity (m.set f.id ⟨false, parentOf fs, f.entriesL ++ e :: eR, ids⟩) h
        (fsI ++ f.withSeparator e eR :: fs) t := by
  obtain ⟨-, hnodup, hdisj⟩ := nodup_append.1 ha.nodup
  obtain ⟨ids, hnode, hctx⟩ := repCtx_separator ha.ctx hnodup hR
  have hmem : f.id ∈ ctxIds h (fsI ++ f :: fs) := frame_mem_ctxIds (by simp)
  refine ⟨ids, hnode, ⟨?_, hctx, ?_, ?_, ?_, filledCtx_separator ha.filled hR, hsorted⟩⟩
  · rw [set_rootNode, ha.root, plug_separator]
  · rw [parentOf_separator]
    exact ha.rep.congr fun i hi => set_nodes_ne (hdisj i hi f.id hmem)
  · rw [ctxIds_separator]
    exact ha.nodup
  · rw [ctxIds_separator]
    exact ha.bound

end Separator

/-! ## Erasing an entry -/

lemma eraseFromInternalNode_spec (hcap : 3 ≤ capacity) {c : Tree K V} {eR : List (K × V)}
    {isRoot : Bool} (ha : At capacity m (h + 1) fs (f.fill c)) (hf : f.Cut)
    (ht : (f.fill c).Filled capacity (leastBelow capacity fs) (h + 1))
    (hR : f.entriesR = (k, v) :: eR) (hroot : (parentOf fs).isNone = isRoot) :
    ∃ m' fs' leaf X Y, m.eraseFromInternalNode isRoot (f.id, f.entriesL.length) =
        .ok (leaf.id, m') ∧
      At capacity m' 0 fs' leaf ∧ leaf.Filled capacity (leastBelow capacity fs' - 1) 0 ∧
      before (h + 1) fs ++ ((f.fill c).toList (h + 1) ++ after (h + 1) fs) = X ++ (k, v) :: Y ∧
      before 0 fs' ++ (leaf.toList 0 ++ after 0 fs') = X ++ Y := by
  obtain ⟨hac, hfc⟩ := ha.child hf ht
  have hfuel : h < m.next + 1 := by
    have := ha.lt_next ht
    omega
  obtain ⟨fsI, leaf, x, e, B, hrun, hat, hleaf, hx, hlast, hlist⟩ :=
    promoteBack_spec hcap hfuel hac hfc
  obtain ⟨i, es, cs⟩ := leaf
  obtain rfl : es = x ++ [e] := hx
  obtain rfl : cs = [] := hat.rep.2
  have hrun' : m.promoteBack (m.next + 1) c.id =
      .ok (e, i, m.set i ⟨true, parentOf (fsI ++ f :: fs), x, []⟩) := hrun
  -- the entries around the one that is erased
  have hafter : ∀ e', after h (f.withSeparator e' eR :: fs) =
      e' :: (weave (f.childrenR.map (Tree.toList h)) eR ++ after (h + 1) fs) := by
    intro e'
    simp [after, Frame.after, withSeparator, weave_cons_cons]
  have hbefore : ∀ e', before h (f.withSeparator e' eR :: fs) = before h (f :: fs) := fun e' => rfl
  have hself : f.withSeparator (k, v) eR = f := by
    rw [withSeparator, ← hR]
  have hsorted := hat.sorted
  rw [hlast.before, hlast.after, ← hself, hafter, hself] at hsorted
  simp only [Tree.toList, entries_mk] at hsorted
  generalize hQ : weave (f.childrenR.map (Tree.toList h)) eR ++ after (h + 1) fs = Q at hsorted hafter
  generalize hP : before h (f :: fs) ++ B = P at hsorted
  have hpopped : KeySorted (P ++ x ++ (k, v) :: Q) := by
    refine KeySorted.delete (e := e) ?_
    simpa using hsorted
  have herased : KeySorted (P ++ (x ++ e :: Q)) := by
    have hdel : KeySorted (P ++ (x ++ [e]) ++ Q) := by
      refine KeySorted.delete (e := (k, v)) ?_
      simpa using hsorted
    simpa using hdel
  -- first the leaf is popped, then the separator is replaced
  have hat1 : At capacity (m.set i ⟨true, parentOf (fsI ++ f :: fs), x, []⟩) 0 (fsI ++ f :: fs)
      (.mk i x []) := by
    refine hat.setEntries ?_
    rw [hlast.before, hlast.after, hP, ← hself, hafter]
    simpa [Tree.toList] using hpopped
  obtain ⟨ids, hnode, hat2⟩ := hat1.separator hR (by
    rw [hlast.before, hlast.after, hafter, hbefore, hP]
    exact herased)
  refine ⟨_, _, _, P ++ (x ++ [e]), Q, ?_, hat2, ?_, ?_, ?_⟩
  · have hthis : m.deref f.id = .ok ⟨false, parentOf fs, f.entriesL ++ f.entriesR,
        f.childrenL.map Tree.id ++ c.id :: f.childrenR.map Tree.id⟩ := by
      refine deref_eq (ha.rep.1.trans ?_)
      simp [fill]
    have hget : getLeaf (⟨false, parentOf fs, f.entriesL ++ f.entriesR,
        f.childrenL.map Tree.id ++ c.id :: f.childrenR.map Tree.id⟩ : TreeNode K V)
          f.entriesL.length = .ok c.id := getLeaf_eq (by rw [length_map, hf.1])
    simp only [eraseFromInternalNode, hthis, ok_bind, kmAssert_true, hroot, and_self, hget,
      hrun', deref_eq hnode, pure_eq_ok, id_mk]
    simp
  · have hbounds := hleaf.bounds
    refine filled_mk ?_ ?_ (by simp) (by simp)
    · have hleast : leastBelow capacity (fsI ++ f.withSeparator e eR :: fs) =
          leastBelow capacity (fsI ++ f :: fs) := by
        cases fsI <;> rfl
      rw [entries_mk, length_append, length_singleton] at hbounds
      rw [hleast]
      omega
    · rw [entries_mk, length_append, length_singleton] at hbounds
      omega
  · have hlist' : after h (f :: fs) = (k, v) :: Q := by
      rw [← hafter, hself]
    rw [← list_cons hf, hlist, hlist', ← hP]
    simp
  · rw [hlast.before, hlast.after, hafter, hbefore, hP]
    simp [Tree.toList]

lemma eraseFromLeafNode_spec {i : NodeId} {x y : List (K × V)} {isRoot : Bool}
    (ha : At capacity m 0 fs (.mk i (x ++ (k, v) :: y) []))
    (ht : (Tree.mk i (x ++ (k, v) :: y) []).Filled capacity (leastBelow capacity fs) 0)
    (hroot : (parentOf fs).isNone = isRoot) :
    ∃ m', m.eraseFromLeafNode isRoot (i, x.length) = .ok (i, m') ∧
      At capacity m' 0 fs (.mk i (x ++ y) []) ∧
      (Tree.mk i (x ++ y) []).Filled capacity (leastBelow capacity fs - 1) 0 ∧
      before 0 fs ++ ((Tree.mk i (x ++ (k, v) :: y) []).toList 0 ++ after 0 fs) =
        (before 0 fs ++ x) ++ (k, v) :: (y ++ after 0 fs) ∧
      before 0 fs ++ ((Tree.mk i (x ++ y) []).toList 0 ++ after 0 fs) =
        (before 0 fs ++ x) ++ (y ++ after 0 fs) := by
  have hsorted : KeySorted ((before 0 fs ++ x) ++ (k, v) :: (y ++ after 0 fs)) := by
    simpa [Tree.toList] using ha.sorted
  have hbounds := ht.bounds
  rw [entries_mk, length_append, length_cons] at hbounds
  refine ⟨m.set i ⟨true, parentOf fs, x ++ y, []⟩, ?_, ?_, filled_mk ?_ ?_ (by simp) (by simp), ?_, ?_⟩
  · have hthis : m.deref i = .ok ⟨true, parentOf fs, x ++ (k, v) :: y, []⟩ := deref_eq ha.rep.1
    simp [eraseFromLeafNode, hthis, kmAssert_true, hroot, and_self, eraseIdx_append_cons, pure_eq_ok]
  · refine ha.setEntries ?_
    simpa [Tree.toList] using hsorted.delete
  · rw [length_append]
    omega
  · rw [length_append]
    omega
  · simp [Tree.toList]
  · simp [Tree.toList]

lemma eraseNodeElement_spec (hcap : 3 ≤ capacity) {idx : Nat} (ha : At capacity m h fs t)
    (ht : t.Filled capacity (leastBelow capacity fs) h) (hidx : t.entries[idx]? = some (k, v)) :
    ∃ m' fs' leaf X Y, m.eraseNodeElement (t.id, idx) = .ok (leaf.id, m') ∧
      At capacity m' 0 fs' leaf ∧ leaf.Filled capacity (leastBelow capacity fs' - 1) 0 ∧
      before h fs ++ (t.toList h ++ after h fs) = X ++ (k, v) :: Y ∧
      before 0 fs' ++ (leaf.toList 0 ++ after 0 fs') = X ++ Y := by
  obtain ⟨i, es, cs⟩ := t
  obtain ⟨hlt, hget⟩ := List.getElem?_eq_some_iff.1 hidx
  obtain ⟨x, e, y, rfl, rfl⟩ := exists_append_cons hlt
  obtain rfl : e = (k, v) := by simpa using hget
  cases h with
  | zero =>
    obtain rfl : cs = [] := ha.rep.2
    obtain ⟨m', hrun, hat, hfill, hX, hY⟩ := eraseFromLeafNode_spec ha ht rfl
    refine ⟨m', fs, _, _, _, ?_, hat, hfill, hX, hY⟩
    have hthis : m.deref i = .ok ⟨true, parentOf fs, x ++ (k, v) :: y, []⟩ := deref_eq ha.rep.1
    refine Eq.trans ?_ hrun
    cases hpar : parentOf fs <;>
      simp [eraseNodeElement, hthis, hpar, eraseFromRootLeafNode,
        eraseFromInnerLeafNode]
  | succ h =>
    have hlen : cs.length = (x ++ (k, v) :: y).length + 1 := ht.2.1
    rw [length_append, length_cons] at hlen
    obtain ⟨cL, c, cR, rfl, hcL⟩ := exists_append_cons (l := cs) (n := x.length) (by omega)
    have hcut : (mk i x cL ((k, v) :: y) cR).Cut := by
      refine ⟨hcL, ?_⟩
      rw [length_append, length_cons] at hlen
      dsimp only [length_cons]
      omega
    obtain ⟨m', fs', leaf, X, Y, hrun, hrest⟩ := eraseFromInternalNode_spec hcap
      ha hcut ht rfl rfl
    refine ⟨m', fs', leaf, X, Y, ?_, hrest⟩
    have hthis : m.deref i = .ok ⟨false, parentOf fs, x ++ (k, v) :: y,
        (cL ++ c :: cR).map Tree.id⟩ := deref_eq ha.rep.1
    refine Eq.trans ?_ hrun
    cases hpar : parentOf fs <;>
      simp [eraseNodeElement, hthis, hpar, eraseFromRootInternalNode,
        eraseFromInnerInternalNode]

lemma mergeRoot_leaf (ha : At capacity m 0 [] t) (ht : t.Filled capacity 0 0) :
    ∃ m', m.mergeRootNodeIfNeeded capacity t.id = .ok m' ∧ Holds capacity m' (t.toList 0) := by
  have hthis : m.deref t.id = .ok ⟨true, none, t.entries, []⟩ := deref_eq ha.rep.1
  by_cases hempty : t.entries = []
  · obtain ⟨m', hrelease, -, -, hroot, -⟩ := releaseNodeMemory_spec
      (m := { m with rootNode := none }) ha.rep.1
    refine ⟨m', ?_, .inl ⟨hroot, hempty⟩⟩
    have hself : m.rootNode = some t.id := ha.root
    simp [mergeRootNodeIfNeeded, hthis, hempty, length_nil, if_true, kmAssert_true, hself, hrelease]
  · refine ⟨m, ?_, .inr ⟨0, t, ha, ht.mono (length_pos_iff.2 hempty), rfl⟩⟩
    simp [mergeRootNodeIfNeeded, hthis, hempty]

lemma eraseFromNode_spec (hcap : 3 ≤ capacity) {idx : Nat} (ha : At capacity m h fs t)
    (ht : t.Filled capacity (leastBelow capacity fs) h) (hidx : t.entries[idx]? = some (k, v)) :
    ∃ m' X Y, m.eraseFromNode capacity (t.id, idx) = .ok m' ∧
      before h fs ++ (t.toList h ++ after h fs) = X ++ (k, v) :: Y ∧
      Holds capacity m' (X ++ Y) := by
  obtain ⟨m1, fs1, leaf, X, Y, hrun, hat, hfill, hX, hY⟩ := eraseNodeElement_spec hcap ha ht hidx
  have hleaf : m1.deref leaf.id = .ok ⟨true, parentOf fs1, leaf.entries, []⟩ := deref_eq hat.rep.1
  cases fs1 with
  | nil =>
    obtain ⟨m2, hmerge, hholds⟩ := mergeRoot_leaf hat (by simpa [leastBelow] using hfill)
    refine ⟨m2, X, Y, ?_, hX, ?_⟩
    · simp only [eraseFromNode, hrun, ok_bind, hleaf, kmAssert_true]
      exact hmerge
    · rw [← hY]
      simpa [before, after] using hholds
  | cons f fs1 =>
    obtain ⟨m2, t2, hsettle, hat2, hid, hfill2, hlist⟩ :=
      rebalanceInnerLeafNode_spec hcap hat hfill
    have hfuel : fs1.length < m2.next + 1 := by
      have := hat2.lt_next hfill2
      omega
    obtain ⟨m3, hmerge, hholds⟩ := mergeRecursive_spec hcap hfuel hat2 hfill2
    refine ⟨m3, X, Y, ?_, hX, ?_⟩
    · simp only [eraseFromNode, hrun, ok_bind, hleaf, kmAssert_true, parentOf_cons,
        hsettle]
      rw [← hid]
      exact hmerge
    · rw [hlist, ← list_cons hat.filled.1, hY] at hholds
      exact hholds

lemma remove_spec (hcap : 3 ≤ capacity) {list : List (K × V)} (hm : Holds capacity m list) (k : K) :
    ∃ m', m.remove capacity k = .ok m' ∧
      ((∀ e ∈ list, e.1 ≠ k) ∧ m' = m ∨
        ∃ v X Y, list = X ++ (k, v) :: Y ∧ Holds capacity m' (X ++ Y)) := by
  rcases hm with ⟨hroot, rfl⟩ | ⟨h, t, ha, ht, rfl⟩
  · refine ⟨m, ?_, .inl ⟨by simp, rfl⟩⟩
    simp [remove, find, hroot, erase]
  · have hroot : m.rootNode = some t.id := ha.root
    have hfill : t.Filled capacity (leastBelow capacity ([] : List (Frame K V))) h := ht
    have hfuel : h < m.next + 1 := by
      have := ha.lt_next ht
      omega
    rcases findInNode_spec hfuel ha hfill (Seeks.nil) with
      ⟨hfind, hne⟩ | ⟨h', fs', t', i, v, hfind, hat, hft, hi, hlist⟩
    · refine ⟨m, ?_, .inl ⟨hne, rfl⟩⟩
      simp [remove, find, hroot, hfind, erase]
    · obtain ⟨m', X, Y, hrun, hX, hholds⟩ := eraseFromNode_spec hcap hat hft hi
      refine ⟨m', ?_, .inr ⟨v, X, Y, ?_, hholds⟩⟩
      · simp [remove, find, hroot, hfind, erase, hrun]
      · rw [← hX, hlist]
        simp [before, after]

end BTree
end BezOS
