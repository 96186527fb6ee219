import BezOS.Container.BTreeSearch

/-!
# Two adjacent children

Splitting, borrowing and merging all work on two neighbours below one parent and the separator
between them. What they do is said here once: the entries and children of the two are cut anew,
and everything else in memory stays.
-/

namespace BezOS

open Lib BTree List

namespace Tree

variable {K V : Type} {nodes nodes' : NodeId → Option (TreeNode K V)} {h : Nat}
  {cs : List (Tree K V)} {es : List (K × V)} {p : Option NodeId} {i : NodeId}

lemma Rep.moves {q : NodeId} (hrep : ∀ c ∈ cs, ∃ p, c.Rep nodes h p)
    (hmoves : Moves nodes nodes' (cs.map id) q) (hnodup : (cs.flatMap (ids h)).Nodup)
    (hsame : ∀ i ∈ cs.flatMap (ids h), i ∉ cs.map id → nodes' i = nodes i) :
    ∀ c ∈ cs, c.Rep nodes' h (some q) := by
  intro c hc
  obtain ⟨p, hp⟩ := hrep c hc
  rw [nodup_flatMap] at hnodup
  refine hp.reparent (hmoves c.id (mem_map_of_mem hc)) (fun i hi hne => ?_) (hnodup.1 c hc)
  refine hsame i (mem_flatMap.2 ⟨c, hc, hi⟩) fun hmem => ?_
  -- the only root among the trees that is a node of `c` is that of `c`
  obtain ⟨d, hd, rfl⟩ := mem_map.1 hmem
  have hsymm : Std.Symm (Function.onFun List.Disjoint (ids (K := K) (V := V) h)) :=
    ⟨fun a b hab => hab.symm⟩
  have hcd : c ≠ d := fun hcd => hne (by rw [hcd])
  exact hnodup.2.forall hc hd hcd hi (id_mem_ids h d)

lemma toList_regroup (i j i' j' : NodeId) {es1 es2 es1' es2' : List (K × V)}
    {cs1 cs2 cs1' cs2' : List (Tree K V)} {e e' : K × V}
    (hes : es1' ++ e' :: es2' = es1 ++ e :: es2) (hcs : cs1' ++ cs2' = cs1 ++ cs2)
    (hlen : h ≠ 0 → cs1.length = es1.length + 1 ∧ cs1'.length = es1'.length + 1) :
    (mk i' es1' cs1').toList h ++ e' :: (mk j' es2' cs2').toList h =
      (mk i es1 cs1).toList h ++ e :: (mk j es2 cs2).toList h := by
  cases h with
  | zero => exact hes
  | succ h =>
    obtain ⟨hlen1, hlen1'⟩ := hlen (by simp)
    simp only [toList, children_mk, entries_mk]
    rw [← weave_split (by rw [length_map]; exact hlen1'),
      ← weave_split (by rw [length_map]; exact hlen1), ← map_append, ← map_append,
      hcs, hes]

lemma ids_regroup {j : NodeId} {es1 es2 es1' es2' : List (K × V)}
    {cs1 cs2 cs1' cs2' : List (Tree K V)} (hcs : cs1' ++ cs2' = cs1 ++ cs2) :
    ((mk i es1' cs1').ids h ++ (mk j es2' cs2').ids h).Perm
      ((mk i es1 cs1).ids h ++ (mk j es2 cs2).ids h) := by
  cases h with
  | zero => exact Perm.refl _
  | succ h =>
    have hflat : cs1'.flatMap (ids h) ++ cs2'.flatMap (ids h) =
        cs1.flatMap (ids h) ++ cs2.flatMap (ids h) := by
      rw [← flatMap_append, hcs, flatMap_append]
    simp only [ids, id_mk, children_mk, cons_append]
    refine Perm.cons _ (perm_middle.trans ?_)
    rw [hflat]
    exact perm_middle.symm

lemma ids_join {j : NodeId} {es1 es2 : List (K × V)} {cs1 cs2 : List (Tree K V)} :
    (j :: (mk i es (cs1 ++ cs2)).ids h).Perm ((mk i es1 cs1).ids h ++ (mk j es2 cs2).ids h) := by
  cases h with
  | zero => exact Perm.swap _ _ _
  | succ h =>
    simp only [ids, id_mk, children_mk, flatMap_append, cons_append]
    refine (Perm.swap _ _ _).trans (Perm.cons _ ?_)
    exact perm_middle.symm

lemma toList_join (i j : NodeId) (es2 : List (K × V)) (cs2 : List (Tree K V)) (e : K × V)
    {es1 : List (K × V)} {cs1 : List (Tree K V)}
    (hlen : h ≠ 0 → cs1.length = es1.length + 1) :
    (mk i (es1 ++ e :: es2) (cs1 ++ cs2)).toList h =
      (mk i es1 cs1).toList h ++ e :: (mk j es2 cs2).toList h := by
  cases h with
  | zero => rfl
  | succ h =>
    simp only [toList, children_mk, entries_mk, map_append]
    exact weave_split (by rw [length_map]; exact hlen (by simp))

lemma Rep.children (ht : (mk i es cs).Rep nodes h p) :
    (h = 0 → cs = []) ∧ ∀ h', h = h' + 1 → ∀ c ∈ cs, ∃ p, c.Rep nodes h' p := by
  cases h with
  | zero => exact ⟨fun _ => ht.2, by simp⟩
  | succ h =>
    refine ⟨by simp, fun h' hh c hc => ?_⟩
    obtain rfl : h = h' := by omega
    exact ⟨_, ht.2 c hc⟩

lemma roots_subset (i : NodeId) (es : List (K × V)) (hcs : h = 0 → cs = []) :
    ∀ k ∈ cs.map id, k ∈ (mk i es cs).ids h := by
  intro k hk
  cases h with
  | zero => simp [hcs rfl] at hk
  | succ h =>
    obtain ⟨c, hc, rfl⟩ := mem_map.1 hk
    exact mem_cons_of_mem _ (mem_flatMap.2 ⟨c, hc, id_mem_ids h c⟩)

lemma Rep.roots_nodup (ht : (mk i es cs).Rep nodes h p) (hnodup : ((mk i es cs).ids h).Nodup) :
    (cs.map id).Nodup := by
  cases h with
  | zero =>
    obtain rfl := ht.2
    exact nodup_nil
  | succ h =>
    have hflat := nodup_flatMap.1 (nodup_cons.1 hnodup).2
    refine pairwise_map.2 (hflat.2.imp fun {a b} hab heq => ?_)
    exact hab (id_mem_ids h a) (heq ▸ id_mem_ids h b)

lemma Rep.over (nodes : NodeId → Option (TreeNode K V))
    (hnode : nodes' i = some ⟨decide (h = 0), p, es, cs.map id⟩)
    (hcs : (h = 0 → cs = []) ∧ ∀ h', h = h' + 1 → ∀ c ∈ cs, ∃ p, c.Rep nodes h' p)
    (hmoves : Moves nodes nodes' (cs.map id) i) (hnodup : ((mk i es cs).ids h).Nodup)
    (hsame : ∀ j ∈ (mk i es cs).ids h, j ≠ i → j ∉ cs.map id → nodes' j = nodes j) :
    (mk i es cs).Rep nodes' h p := by
  cases h with
  | zero =>
    obtain rfl := hcs.1 rfl
    exact ⟨by simpa using hnode, rfl⟩
  | succ h =>
    refine ⟨by simpa using hnode, Rep.moves (hcs.2 h rfl) hmoves (nodup_cons.1 hnodup).2 ?_⟩
    intro j hj hnot
    refine hsame j (mem_cons_of_mem _ hj) ?_ hnot
    rintro rfl
    exact (nodup_cons.1 hnodup).1 hj

end Tree

namespace Frame

variable {K V : Type} {f : Frame K V} {l r l' r' : Tree K V} {sep : K × V} {h : Nat}
  {nodes : NodeId → Option (TreeNode K V)} {p : Option NodeId}

/-- Two children and the separator between them in the place of one child. -/
def fill₂ (f : Frame K V) (l : Tree K V) (sep : K × V) (r : Tree K V) : Tree K V :=
  .mk f.id (f.entriesL ++ sep :: f.entriesR) (f.childrenL ++ l :: r :: f.childrenR)

@[simp] lemma fill₂_id : (f.fill₂ l sep r).id = f.id := rfl
@[simp] lemma fill_id : (f.fill l).id = f.id := rfl

lemma toList_fill₂ (hf : f.Cut) :
    (f.fill₂ l sep r).toList (h + 1) =
      f.before h ++ ((l.toList h ++ sep :: r.toList h) ++ f.after h) := by
  simp only [fill₂, Tree.toList, Tree.children_mk, Tree.entries_mk, map_append, map_cons]
  rw [weave_hole (by rw [length_map]; exact hf.1), weave_cons_cons, weave_cons]
  simp [before, after]

lemma ids_fill₂ :
    ((f.fill₂ l sep r).ids (h + 1)).Perm (l.ids h ++ r.ids h ++ f.ids h) := by
  have hmid : (f.childrenL ++ l :: r :: f.childrenR).Perm
      (l :: r :: (f.childrenL ++ f.childrenR)) := by
    refine perm_middle.trans (Perm.cons _ ?_)
    exact perm_middle
  have hflat : ((f.childrenL ++ l :: r :: f.childrenR).flatMap (Tree.ids h)).Perm
      (l.ids h ++ r.ids h ++ (f.childrenL ++ f.childrenR).flatMap (Tree.ids h)) := by
    simpa using hmid.flatMap_right (Tree.ids h)
  exact (hflat.cons f.id).trans perm_middle.symm

lemma rep_fill (hthis : nodes f.id = some ⟨false, p, f.entriesL ++ f.entriesR,
      f.childrenL.map Tree.id ++ l.id :: f.childrenR.map Tree.id⟩) (hl : l.Rep nodes h (some f.id))
    (hothers : ∀ c ∈ f.childrenL ++ f.childrenR, c.Rep nodes h (some f.id)) :
    (f.fill l).Rep nodes (h + 1) p := by
  refine ⟨by simpa [fill] using hthis, fun c hc => ?_⟩
  simp only [fill, Tree.children_mk, mem_append, mem_cons] at hc
  rcases hc with hc | rfl | hc
  · exact hothers c (by simp [hc])
  · exact hl
  · exact hothers c (by simp [hc])

lemma rep_fill₂ (hthis : nodes f.id = some ⟨false, p, f.entriesL ++ sep :: f.entriesR,
      f.childrenL.map Tree.id ++ l.id :: r.id :: f.childrenR.map Tree.id⟩)
    (hl : l.Rep nodes h (some f.id)) (hr : r.Rep nodes h (some f.id))
    (hothers : ∀ c ∈ f.childrenL ++ f.childrenR, c.Rep nodes h (some f.id)) :
    (f.fill₂ l sep r).Rep nodes (h + 1) p := by
  refine ⟨by simpa [fill₂] using hthis, fun c hc => ?_⟩
  simp only [fill₂, Tree.children_mk, mem_append, mem_cons] at hc
  rcases hc with hc | rfl | rfl | hc
  · exact hothers c (by simp [hc])
  · exact hl
  · exact hr
  · exact hothers c (by simp [hc])

lemma filled_fill₂ {capacity least : Nat} (hf : f.Cut)
    (hcount : least ≤ f.entriesL.length + f.entriesR.length + 1 ∧
      f.entriesL.length + f.entriesR.length + 1 ≤ capacity)
    (hl : l.Filled capacity (minCapacity capacity) h)
    (hr : r.Filled capacity (minCapacity capacity) h)
    (hothers : ∀ c ∈ f.childrenL ++ f.childrenR, c.Filled capacity (minCapacity capacity) h) :
    (f.fill₂ l sep r).Filled capacity least (h + 1) := by
  obtain ⟨hfl, hfr⟩ := hf
  refine ⟨?_, ?_, fun c hc => ?_⟩
  · simp only [fill₂, Tree.entries_mk, length_append, length_cons]
    omega
  · simp only [fill₂, Tree.entries_mk, Tree.children_mk, length_append, length_cons]
    omega
  · simp only [fill₂, Tree.children_mk, mem_append, mem_cons] at hc
    rcases hc with hc | rfl | rfl | hc
    · exact hothers c (by simp [hc])
    · exact hl
    · exact hr
    · exact hothers c (by simp [hc])

lemma filled_fill {capacity least : Nat} (hf : f.Cut)
    (hcount : least ≤ f.entriesL.length + f.entriesR.length ∧
      f.entriesL.length + f.entriesR.length ≤ capacity)
    (hl : l.Filled capacity (minCapacity capacity) h)
    (hothers : ∀ c ∈ f.childrenL ++ f.childrenR, c.Filled capacity (minCapacity capacity) h) :
    (f.fill l).Filled capacity least (h + 1) := by
  obtain ⟨hfl, hfr⟩ := hf
  refine ⟨?_, ?_, fun c hc => ?_⟩
  · simpa only [fill, Tree.entries_mk, length_append] using hcount
  · simp only [fill, Tree.entries_mk, Tree.children_mk, length_append, length_cons]
    omega
  · simp only [fill, Tree.children_mk, mem_append, mem_cons] at hc
    rcases hc with hc | rfl | hc
    · exact hothers c (by simp [hc])
    · exact hl
    · exact hothers c (by simp [hc])

end Frame

namespace BTree

section Pair

variable {K V : Type} {capacity h : Nat} {m m' : BTreeMap K V} {fs : List (Frame K V)}
  {f : Frame K V} {i j : NodeId} {es1 es2 es1' es2' : List (K × V)}
  {cs1 cs2 cs1' cs2' : List (Tree K V)} {sep sep' : K × V}

/-- The memory in which the neighbours `i` and `j` below `f` got new entries and children. -/
structure Regroups (m m' : BTreeMap K V) (h : Nat) (p : Option NodeId) (f : Frame K V)
    (i j : NodeId) (es1 : List (K × V)) (cs1 : List (Tree K V)) (sep : K × V)
    (es2 : List (K × V)) (cs2 : List (Tree K V)) : Prop where
  parent : m'.nodes f.id = some ⟨false, p, f.entriesL ++ sep :: f.entriesR,
    f.childrenL.map Tree.id ++ i :: j :: f.childrenR.map Tree.id⟩
  left : m'.nodes i = some ⟨decide (h = 0), some f.id, es1, cs1.map Tree.id⟩
  right : m'.nodes j = some ⟨decide (h = 0), some f.id, es2, cs2.map Tree.id⟩
  movesL : Moves m.nodes m'.nodes (cs1.map Tree.id) i
  movesR : Moves m.nodes m'.nodes (cs2.map Tree.id) j
  same : ∀ k, k ≠ f.id → k ≠ i → k ≠ j → k ∉ (cs1 ++ cs2).map Tree.id → m'.nodes k = m.nodes k
  root : m'.rootNode = m.rootNode
  next : m'.next = m.next

/-- The memory in which the neighbours `i` and `j` below `f` became one node. -/
structure Joins (m m' : BTreeMap K V) (h : Nat) (p : Option NodeId) (f : Frame K V)
    (i j : NodeId) (es : List (K × V)) (cs : List (Tree K V)) : Prop where
  parent : m'.nodes f.id = some ⟨false, p, f.entriesL ++ f.entriesR,
    f.childrenL.map Tree.id ++ i :: f.childrenR.map Tree.id⟩
  left : m'.nodes i = some ⟨decide (h = 0), some f.id, es, cs.map Tree.id⟩
  moves : Moves m.nodes m'.nodes (cs.map Tree.id) i
  same : ∀ k, k ≠ f.id → k ≠ i → k ≠ j → k ∉ cs.map Tree.id → m'.nodes k = m.nodes k
  root : m'.rootNode = m.rootNode
  next : m'.next = m.next

variable [LinearOrder K]

lemma At.pair_nodup {l r : Tree K V} (ha : At capacity m (h + 1) fs (f.fill₂ l sep r)) :
    (l.ids h ++ r.ids h).Nodup ∧ f.id ∉ l.ids h ++ r.ids h ∧
      ∀ c ∈ f.childrenL ++ f.childrenR, ∀ k ∈ c.ids h, k ≠ f.id ∧ k ∉ l.ids h ++ r.ids h := by
  have hall := Frame.ids_fill₂.nodup_iff.1 (nodup_append.1 ha.nodup).1
  obtain ⟨hpair, hframe, hdisj⟩ := nodup_append.1 hall
  refine ⟨hpair, fun hmem => hdisj f.id hmem f.id mem_cons_self rfl, fun c hc k hk => ?_⟩
  have hflat : k ∈ (f.childrenL ++ f.childrenR).flatMap (Tree.ids h) :=
    mem_flatMap.2 ⟨c, hc, hk⟩
  refine ⟨?_, fun hmem => hdisj k hmem k (mem_cons_of_mem _ hflat) rfl⟩
  rintro rfl
  exact (nodup_cons.1 hframe).1 hflat

lemma At.regroup (ha : At capacity m (h + 1) fs (f.fill₂ (.mk i es1 cs1) sep (.mk j es2 cs2)))
    (hf : f.Cut) (hm : Regroups m m' h (parentOf fs) f i j es1' cs1' sep' es2' cs2')
    (hes : es1' ++ sep' :: es2' = es1 ++ sep :: es2) (hcs : cs1' ++ cs2' = cs1 ++ cs2)
    (hlen : h ≠ 0 → cs1.length = es1.length + 1 ∧ cs1'.length = es1'.length + 1) :
    At capacity m' (h + 1) fs (f.fill₂ (.mk i es1' cs1') sep' (.mk j es2' cs2')) ∧
      (f.fill₂ (.mk i es1' cs1') sep' (.mk j es2' cs2')).toList (h + 1) =
        (f.fill₂ (.mk i es1 cs1) sep (.mk j es2 cs2)).toList (h + 1) := by
  obtain ⟨hpair, hthis, hothers⟩ := ha.pair_nodup
  have hperm : ((Tree.mk i es1' cs1').ids h ++ (Tree.mk j es2' cs2').ids h).Perm
      ((Tree.mk i es1 cs1).ids h ++ (Tree.mk j es2 cs2).ids h) := Tree.ids_regroup hcs
  obtain ⟨hnl, hnr, hdisj⟩ := nodup_append.1 (hperm.nodup_iff.2 hpair)
  have hmem : ∀ c ∈ cs1' ++ cs2', c ∈ cs1 ∨ c ∈ cs2 := by
    intro c hc
    rwa [hcs, mem_append] at hc
  -- the children are the former ones
  have hl := (ha.rep.2 (.mk i es1 cs1) (by simp [Frame.fill₂])).children
  have hr := (ha.rep.2 (.mk j es2 cs2) (by simp [Frame.fill₂])).children
  have hzero : h = 0 → cs1' = [] ∧ cs2' = [] := by
    intro h0
    rwa [hl.1 h0, hr.1 h0, append_nil, append_eq_nil_iff] at hcs
  have hreps : ∀ h', h = h' + 1 → ∀ c ∈ cs1' ++ cs2', ∃ p, c.Rep m.nodes h' p := by
    intro h' hh c hc
    rcases hmem c hc with hc | hc
    · exact hl.2 h' hh c hc
    · exact hr.2 h' hh c hc
  have hrootsL := Tree.roots_subset i es1' fun h0 => (hzero h0).1
  have hrootsR := Tree.roots_subset j es2' fun h0 => (hzero h0).2
  have hthis' : f.id ∉ (Tree.mk i es1' cs1').ids h ++ (Tree.mk j es2' cs2').ids h :=
    fun hk => hthis (hperm.subset hk)
  rw [mem_append, not_or] at hthis'
  have hrepL : (Tree.mk i es1' cs1').Rep m'.nodes h (some f.id) := by
    refine Tree.Rep.over m.nodes hm.left ⟨fun h0 => (hzero h0).1, fun h' hh c hc =>
      hreps h' hh c (by simp [hc])⟩ hm.movesL hnl fun k hk hne hnot => ?_
    refine hm.same k (fun hkf => hthis'.1 (hkf ▸ hk)) hne
      (hdisj k hk j (Tree.id_mem_ids h (Tree.mk j es2' cs2'))) fun hroot => ?_
    rw [map_append, mem_append] at hroot
    exact hroot.elim hnot fun hroot => hdisj k hk k (hrootsR k hroot) rfl
  have hrepR : (Tree.mk j es2' cs2').Rep m'.nodes h (some f.id) := by
    refine Tree.Rep.over m.nodes hm.right ⟨fun h0 => (hzero h0).2, fun h' hh c hc =>
      hreps h' hh c (by simp [hc])⟩ hm.movesR hnr fun k hk hne hnot => ?_
    refine hm.same k (fun hkf => hthis'.2 (hkf ▸ hk))
      (hdisj i (Tree.id_mem_ids h (Tree.mk i es1' cs1')) k hk).symm hne fun hroot => ?_
    rw [map_append, mem_append] at hroot
    exact hroot.elim (fun hroot => hdisj k (hrootsL k hroot) k hk rfl) hnot
  -- outside the pair and its parent the memory is as it was
  have hframe : ∀ k, k ≠ f.id → k ∉ (Tree.mk i es1 cs1).ids h ++ (Tree.mk j es2 cs2).ids h →
      m'.nodes k = m.nodes k := by
    intro k hkf hk
    have hk' : k ∉ (Tree.mk i es1' cs1').ids h ++ (Tree.mk j es2' cs2').ids h :=
      fun hmem => hk (hperm.subset hmem)
    rw [mem_append, not_or] at hk'
    refine hm.same k hkf ?_ ?_ fun hroot => ?_
    · rintro rfl
      exact hk'.1 (Tree.id_mem_ids h (Tree.mk k es1' cs1'))
    · rintro rfl
      exact hk'.2 (Tree.id_mem_ids h (Tree.mk k es2' cs2'))
    · rw [map_append, mem_append] at hroot
      exact hroot.elim (fun hroot => hk'.1 (hrootsL k hroot)) fun hroot => hk'.2 (hrootsR k hroot)
  have hlist : (f.fill₂ (.mk i es1' cs1') sep' (.mk j es2' cs2')).toList (h + 1) =
      (f.fill₂ (.mk i es1 cs1) sep (.mk j es2 cs2)).toList (h + 1) := by
    have hgroup := Tree.toList_regroup i j i j hes hcs hlen
    rw [Frame.toList_fill₂ hf, Frame.toList_fill₂ hf, hgroup]
  refine ⟨ha.replace ⟨rfl, fun k hk => ?_, ?_, fun k hk => ?_, hm.root, hm.next⟩
    (Frame.rep_fill₂ hm.parent hrepL hrepR fun c hc => ?_) (by rw [hlist]; exact ha.sorted), hlist⟩
  · have hsub := (hperm.append_right (f.ids h)).subset (Frame.ids_fill₂.subset hk)
    exact Frame.ids_fill₂.symm.subset hsub
  · refine Frame.ids_fill₂.nodup_iff.2 ((hperm.append_right (f.ids h)).nodup_iff.2 ?_)
    exact Frame.ids_fill₂.nodup_iff.1 (nodup_append.1 ha.nodup).1
  · have hk' : k ∉ (Tree.mk i es1 cs1).ids h ++ (Tree.mk j es2 cs2).ids h ++ f.ids h :=
      fun hmem => hk (Frame.ids_fill₂.symm.subset hmem)
    rw [mem_append, not_or] at hk'
    refine hframe k ?_ hk'.1
    rintro rfl
    exact hk'.2 mem_cons_self
  · refine (ha.rep.2 c ?_).congr fun k hk => hframe k (hothers c hc k hk).1 (hothers c hc k hk).2
    rcases mem_append.1 hc with hc | hc <;> simp [Frame.fill₂, hc]

lemma At.join (ha : At capacity m (h + 1) fs (f.fill₂ (.mk i es1 cs1) sep (.mk j es2 cs2)))
    (hf : f.Cut) (hm : Joins m m' h (parentOf fs) f i j (es1 ++ sep :: es2) (cs1 ++ cs2))
    (hlen : h ≠ 0 → cs1.length = es1.length + 1) :
    At capacity m' (h + 1) fs (f.fill (.mk i (es1 ++ sep :: es2) (cs1 ++ cs2))) ∧
      (f.fill (.mk i (es1 ++ sep :: es2) (cs1 ++ cs2))).toList (h + 1) =
        (f.fill₂ (.mk i es1 cs1) sep (.mk j es2 cs2)).toList (h + 1) := by
  obtain ⟨hpair, hthis, hothers⟩ := ha.pair_nodup
  have hperm : (j :: (Tree.mk i (es1 ++ sep :: es2) (cs1 ++ cs2)).ids h).Perm
      ((Tree.mk i es1 cs1).ids h ++ (Tree.mk j es2 cs2).ids h) := Tree.ids_join
  obtain ⟨hj, hnodup⟩ := nodup_cons.1 (hperm.nodup_iff.2 hpair)
  have hsub : ∀ k ∈ (Tree.mk i (es1 ++ sep :: es2) (cs1 ++ cs2)).ids h,
      k ∈ (Tree.mk i es1 cs1).ids h ++ (Tree.mk j es2 cs2).ids h :=
    fun k hk => hperm.subset (mem_cons_of_mem _ hk)
  have hl := (ha.rep.2 (.mk i es1 cs1) (by simp [Frame.fill₂])).children
  have hr := (ha.rep.2 (.mk j es2 cs2) (by simp [Frame.fill₂])).children
  have hzero : h = 0 → cs1 ++ cs2 = [] := by
    intro h0
    rw [hl.1 h0, hr.1 h0, append_nil]
  have hroots := Tree.roots_subset i (es1 ++ sep :: es2) hzero
  have hrep : (Tree.mk i (es1 ++ sep :: es2) (cs1 ++ cs2)).Rep m'.nodes h (some f.id) := by
    refine Tree.Rep.over m.nodes hm.left ⟨hzero, fun h' hh c hc => ?_⟩ hm.moves hnodup
      fun k hk hne hnot => hm.same k ?_ hne ?_ hnot
    · rcases mem_append.1 hc with hc | hc
      · exact hl.2 h' hh c hc
      · exact hr.2 h' hh c hc
    · rintro rfl
      exact hthis (hsub _ hk)
    · rintro rfl
      exact hj hk
  -- outside the pair and its parent the memory is as it was
  have hframe : ∀ k, k ≠ f.id → k ∉ (Tree.mk i es1 cs1).ids h ++ (Tree.mk j es2 cs2).ids h →
      m'.nodes k = m.nodes k := by
    intro k hkf hk
    refine hm.same k hkf ?_ ?_ fun hroot => hk (hsub k (hroots k hroot))
    · rintro rfl
      exact hk (mem_append_left _ (Tree.id_mem_ids h (Tree.mk k es1 cs1)))
    · rintro rfl
      exact hk (mem_append_right _ (Tree.id_mem_ids h (Tree.mk k es2 cs2)))
  have hlist : (f.fill (.mk i (es1 ++ sep :: es2) (cs1 ++ cs2))).toList (h + 1) =
      (f.fill₂ (.mk i es1 cs1) sep (.mk j es2 cs2)).toList (h + 1) := by
    have hgroup := Tree.toList_join i j es2 cs2 sep hlen
    rw [Frame.toList_fill h hf, Frame.toList_fill₂ hf, hgroup]
  have hall := Frame.ids_fill₂.nodup_iff.1 (nodup_append.1 ha.nodup).1
  refine ⟨ha.replace ⟨rfl, fun k hk => ?_, ?_, fun k hk => ?_, hm.root, hm.next⟩
    (Frame.rep_fill hm.parent hrep fun c hc => ?_) (by rw [hlist]; exact ha.sorted), hlist⟩
  · refine Frame.ids_fill₂.symm.subset ?_
    rcases mem_append.1 ((f.ids_fill h _).subset hk) with hk | hk
    · exact mem_append_left _ (hsub k hk)
    · exact mem_append_right _ hk
  · refine (f.ids_fill h _).nodup_iff.2 ?_
    exact (nodup_cons.1 ((hperm.append_right (f.ids h)).nodup_iff.2 hall)).2
  · have hk' : k ∉ (Tree.mk i es1 cs1).ids h ++ (Tree.mk j es2 cs2).ids h ++ f.ids h :=
      fun hmem => hk (Frame.ids_fill₂.symm.subset hmem)
    rw [mem_append, not_or] at hk'
    refine hframe k ?_ hk'.1
    rintro rfl
    exact hk'.2 mem_cons_self
  · refine (ha.rep.2 c ?_).congr fun k hk => hframe k (hothers c hc k hk).1 (hothers c hc k hk).2
    rcases mem_append.1 hc with hc | hc <;> simp [Frame.fill₂, hc]

end Pair

end BTree

end BezOS
