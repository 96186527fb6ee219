import Mathlib.Data.List.NodupEquivFin
import BezOS.Container.BTreeShape

/-!
# Searching

The way down to a key: at every internal node the key is the separator before the child that is
entered, or it can only be below that child. Lookup, membership and counting are read off the
listing of the tree.
-/

namespace BezOS
namespace BTree

open Lib BTreeMap Frame List Tree

variable {K V : Type} [LinearOrder K] {capacity h fuel least : Nat} {m : BTreeMap K V}
  {fs : List (Frame K V)} {t : Tree K V} {k : K} {f : Frame K V}

structure Seeks (k : K) (h : Nat) (fs : List (Frame K V)) : Prop where
  before : ∀ e ∈ before h fs, e.1 < k
  after : ∀ e ∈ after h fs, k < e.1

lemma Seeks.nil : Seeks k h ([] : List (Frame K V)) :=
  ⟨by simp [BTree.before], by simp [BTree.after]⟩

lemma At.entries_sorted (ha : At capacity m h fs t) : KeySorted t.entries := by
  have hlist := ha.sorted.right.left
  cases h with
  | zero => exact hlist
  | succ h => exact hlist.sublist sublist_weave

lemma indexOf_eq_none {es : List (K × V)} (hk : ∀ e ∈ es, e.1 ≠ k) : indexOf k es = none := by
  simp only [indexOf]
  split
  · rfl
  · rename_i e hget
    rw [if_neg (hk e (mem_of_getElem? hget))]

lemma before_lt (hf : f.Cut) (hsorted : KeySorted (f.before h)) (hk : ∀ e ∈ f.entriesL, e.1 < k) :
    ∀ e ∈ f.before h, e.1 < k := by
  rcases eq_nil_or_concat f.entriesL with hnil | ⟨x, e0, hx⟩
  · have hc : f.childrenL = [] := length_eq_zero_iff.1 (by rw [hf.1, hnil]; rfl)
    simp [Frame.before, hnil, hc]
  · have hlen : f.childrenL.length = x.length + 1 := by simp [hf.1, hx]
    rcases eq_nil_or_concat f.childrenL with hnil | ⟨cs, c0, hc⟩
    · simp [hnil] at hlen
    · have hlen' : (cs.map (toList h)).length = x.length := by
        simpa [hc] using hlen
      have hbefore : f.before h = weave (cs.map (toList h)) x ++ c0.toList h ++ [e0] := by
        simp only [Frame.before, hx, hc, concat_eq_append, map_append, map_cons,
          map_nil]
        rw [weave_append hlen']
        simp [weave_cons_cons]
      have hlast : e0.1 < k := hk e0 (by simp [hx])
      rw [hbefore] at hsorted ⊢
      intro e he
      rcases mem_append.1 he with he | he
      · exact (hsorted.around.1 e he).trans hlast
      · obtain rfl := mem_singleton.1 he
        exact hlast

lemma after_gt (hf : f.Cut) (hsorted : KeySorted (f.after h)) (hk : ∀ e ∈ f.entriesR, k < e.1) :
    ∀ e ∈ f.after h, k < e.1 := by
  cases hx : f.entriesR with
  | nil =>
    have hc : f.childrenR = [] := length_eq_zero_iff.1 (by rw [hf.2, hx]; rfl)
    simp [Frame.after, hx, hc]
  | cons e0 y =>
    have hafter : f.after h = e0 :: weave (f.childrenR.map (toList h)) y := by
      simp [Frame.after, hx, weave_cons_cons]
    have hfirst : k < e0.1 := hk e0 (by simp [hx])
    rw [hafter] at hsorted ⊢
    intro e he
    rcases mem_cons.1 he with rfl | he
    · exact hfirst
    · exact hfirst.trans ((KeySorted.cons_iff.1 hsorted).1 e he)

lemma seek (ha : At capacity m (h + 1) fs t)
    (hfill : t.Filled capacity (leastBelow capacity fs) (h + 1)) (hk : Seeks k (h + 1) fs) :
    (separatorIs k t.entries (upperBound k t.entries) ∧
        ∃ v, t.entries[upperBound k t.entries - 1]? = some (k, v)) ∨
      ¬ separatorIs k t.entries (upperBound k t.entries) ∧ indexOf k t.entries = none ∧
        ∃ f c, t = f.fill c ∧ f.Cut ∧
          (t.children.map Tree.id)[upperBound k t.entries]? = some c.id ∧ Seeks k h (f :: fs) := by
  obtain ⟨x, y, hxy, hx, hy⟩ := ha.entries_sorted.exists_cut k
  have hub : upperBound k t.entries = x.length := by
    rw [upperBound, hxy]
    exact upperBound_append hx hy
  rw [hub]
  by_cases hsep : separatorIs k t.entries x.length
  · obtain ⟨⟨j, v⟩, he, rfl⟩ := Option.map_eq_some_iff.1 hsep.2
    exact .inl ⟨hsep, v, he⟩
  -- the last entry before the child is not the key, so all of them are below it
  have hx' : ∀ e ∈ x, e.1 < k := by
    rcases eq_nil_or_concat x with rfl | ⟨x, e0, rfl⟩
    · simp
    · have hlast : e0.1 < k := by
        refine lt_of_le_of_ne (hx e0 (by simp)) fun heq => hsep ⟨by simp, ?_⟩
        simp [hxy, heq]
      have hsorted := ha.entries_sorted
      rw [hxy, concat_eq_append, append_assoc] at hsorted
      intro e he
      simp only [concat_eq_append, mem_append, mem_singleton] at he
      rcases he with he | rfl
      · exact (hsorted.around.1 e he).trans hlast
      · exact hlast
  have hnone : ∀ e ∈ t.entries, e.1 ≠ k := by
    intro e he
    rw [hxy, mem_append] at he
    rcases he with he | he
    · exact (hx' e he).ne
    · exact (hy e he).ne'
  have hcount : t.children.length = x.length + y.length + 1 := by
    rw [hfill.2.1, hxy, length_append]
  obtain ⟨cL, c, cR, hc, hlen⟩ := exists_append_cons (l := t.children) (n := x.length) (by omega)
  have hf : (mk t.id x cL y cR).Cut := by
    refine ⟨hlen, ?_⟩
    rw [hc, length_append, length_cons] at hcount
    dsimp only
    omega
  have hfill' : t = (mk t.id x cL y cR).fill c := by
    rw [fill, ← hxy, ← hc, eta]
  refine .inr ⟨hsep, indexOf_eq_none hnone, _, c, hfill', hf, ?_, ?_⟩
  · rw [hc, ← hlen]
    simp
  · have hsorted := ha.sorted
    rw [hfill', toList_fill h hf] at hsorted
    have hlist := hsorted.right.left
    refine ⟨fun e he => ?_, fun e he => ?_⟩
    · rcases mem_append.1 he with he | he
      · exact hk.before e he
      · exact before_lt hf hlist.left hx' e he
    · rcases mem_append.1 he with he | he
      · exact after_gt hf hlist.right.right hy e he
      · exact hk.after e he

lemma seek_leaf {es : List (K × V)} (hsorted : KeySorted es) (k : K) :
    ∃ x y z, es = x ++ y ++ z ∧ (∀ e ∈ x, e.1 < k) ∧ (∀ e ∈ z, k < e.1) ∧
      (y = [] ∧ indexOf k es = none ∨ ∃ v, y = [(k, v)] ∧ indexOf k es = some x.length) ∧
        lowerBound k es = x.length := by
  obtain ⟨x, z, rfl, hx, hz⟩ := hsorted.exists_cut k
  -- only the last entry of the lower part can be the key
  have hcases : (∀ e ∈ x, e.1 < k) ∨ ∃ x' v, x = x' ++ [(k, v)] ∧ ∀ e ∈ x', e.1 < k := by
    rcases eq_nil_or_concat x with rfl | ⟨x, ⟨j, v⟩, rfl⟩
    · exact .inl (by simp)
    · rw [concat_eq_append, append_assoc] at hsorted
      have hlt := hsorted.around.1
      rcases (hx (j, v) (by simp)).lt_or_eq with hj | rfl
      · left
        intro e he
        simp only [concat_eq_append, mem_append, mem_singleton] at he
        rcases he with he | rfl
        · exact (hlt e he).trans hj
        · exact hj
      · exact .inr ⟨x, v, by simp, hlt⟩
  rcases hcases with hx' | ⟨x', v, rfl, hx'⟩
  · refine ⟨x, [], z, by simp, hx', hz, .inl ⟨rfl, indexOf_eq_none fun e he => ?_⟩, ?_⟩
    · rcases mem_append.1 he with he | he
      · exact (hx' e he).ne
      · exact (hz e he).ne'
    · exact lowerBound_append hx' fun e he => (hz e he).le
  · have hlower : lowerBound k (x' ++ [(k, v)] ++ z) = x'.length := by
      rw [append_assoc]
      refine lowerBound_append hx' fun e he => ?_
      rcases mem_append.1 he with he | he
      · rw [mem_singleton.1 he]
      · exact (hz e he).le
    refine ⟨x', [(k, v)], z, rfl, hx', hz, .inr ⟨v, rfl, ?_⟩, hlower⟩
    rw [indexOf, hlower]
    simp

/-! ## Bounds on the walks -/

omit [LinearOrder K] in
lemma lt_length_ids (hfill : t.Filled capacity least h) :
    h < (t.ids h).length := by
  induction h generalizing t least with
  | zero => simp [Tree.ids]
  | succ h ih =>
    obtain ⟨-, hlen, hchildren⟩ := hfill
    obtain ⟨c, cs, hc⟩ := exists_cons_of_ne_nil
      (ne_nil_of_length_pos (l := t.children) (by omega))
    have hlt := ih (hchildren c (by simp [hc]))
    simp only [Tree.ids, hc, flatMap_cons, length_cons, length_append]
    omega

omit [LinearOrder K] in
lemma length_le_ctxIds : fs.length ≤ (ctxIds h fs).length := by
  induction fs generalizing h with
  | nil => simp
  | cons f fs ih =>
    have hrest : fs.length ≤ (ctxIds (h + 1) fs).length := ih
    simp only [ctxIds, Frame.ids, length_append, length_cons]
    omega

lemma At.lt_next (ha : At capacity m h fs t) (hfill : t.Filled capacity least h) :
    h + fs.length < m.next := by
  have hle : (t.ids h ++ ctxIds h fs).length ≤ m.next := by
    have hsub : (t.ids h ++ ctxIds h fs).Subperm (range m.next) :=
      subperm_of_subset ha.nodup fun i hi => mem_range.2 (ha.bound i hi)
    simpa using hsub.length_le
  have h1 := lt_length_ids hfill
  have h2 : fs.length ≤ (ctxIds h fs).length := length_le_ctxIds
  rw [length_append] at hle
  omega

/-! ## Lookup -/

lemma At.child {c : Tree K V} (ha : At capacity m (h + 1) fs (f.fill c)) (hf : f.Cut)
    (hfill : (f.fill c).Filled capacity (leastBelow capacity fs) (h + 1)) :
    At capacity m h (f :: fs) c ∧ c.Filled capacity (leastBelow capacity (f :: fs)) h :=
  ⟨ha.down hf hfill, hfill.2.2 c (by simp [fill])⟩

lemma findInNode_spec (hfuel : h < fuel) (ha : At capacity m h fs t)
    (hfill : t.Filled capacity (leastBelow capacity fs) h) (hk : Seeks k h fs) :
    (m.findInNode fuel t.id k = .ok none ∧ ∀ e ∈ t.toList h, e.1 ≠ k) ∨
      ∃ h' fs' t' i v, m.findInNode fuel t.id k = .ok (some (t'.id, i)) ∧
        At capacity m h' fs' t' ∧ t'.Filled capacity (leastBelow capacity fs') h' ∧
        t'.entries[i]? = some (k, v) ∧
        before h' fs' ++ (t'.toList h' ++ after h' fs') =
          before h fs ++ (t.toList h ++ after h fs) := by
  induction h generalizing fuel fs t with
  | zero =>
    obtain ⟨fuel, rfl⟩ : ∃ n, fuel = n + 1 := ⟨fuel - 1, by omega⟩
    have hderef := deref_eq ha.rep.node
    obtain ⟨x, y, z, hes, hx, hz, hcase, -⟩ := seek_leaf ha.entries_sorted k
    rcases hcase with ⟨rfl, hindex⟩ | ⟨v, rfl, hindex⟩
    · refine .inl ⟨by simp [findInNode, hderef, hindex], fun e he => ?_⟩
      simp only [toList, hes, append_nil, mem_append] at he
      rcases he with he | he
      · exact (hx e he).ne
      · exact (hz e he).ne'
    · refine .inr ⟨0, fs, t, x.length, v, by simp [findInNode, hderef, hindex], ha, hfill,
        ?_, rfl⟩
      rw [hes]
      simp
  | succ h ih =>
    obtain ⟨fuel, rfl⟩ : ∃ n, fuel = n + 1 := ⟨fuel - 1, by omega⟩
    have hderef := deref_eq ha.rep.node
    rcases seek ha hfill hk with ⟨hsep, v, he⟩ | ⟨hsep, -, f, c, rfl, hf, hget, hk'⟩
    · exact .inr ⟨h + 1, fs, t, _, v, by simp [findInNode, hderef, hsep], ha, hfill, he,
        rfl⟩
    · obtain ⟨hac, hfc⟩ := ha.child hf hfill
      have hstep : m.findInNode (fuel + 1) (f.fill c).id k = m.findInNode fuel c.id k := by
        simp [findInNode, hderef, hsep, getLeaf, hget, follow]
      rw [hstep]
      rcases ih (Nat.lt_of_succ_lt_succ hfuel) hac hfc hk' with ⟨hres, hne⟩ | ⟨h', fs', t', i, v, hres, hat, hft, hi, hl⟩
      · refine .inl ⟨hres, fun e he => ?_⟩
        rw [toList_fill h hf, mem_append, mem_append] at he
        rcases he with he | he | he
        · exact (hk'.before e (mem_append_right _ he)).ne
        · exact hne e he
        · exact (hk'.after e (mem_append_left _ he)).ne'
      · exact .inr ⟨h', fs', t', i, v, hres, hat, hft, hi, hl.trans (list_cons hf)⟩

lemma nodeContains_eq (node : NodeId) (k : K) :
    m.nodeContains fuel node k = (m.findInNode fuel node k).map Option.isSome := by
  induction fuel generalizing node with
  | zero => rfl
  | succ fuel ih =>
    simp only [nodeContains, findInNode]
    cases m.deref node with
    | error e => rfl
    | ok n =>
      simp only [ok_bind]
      split
      · simp [Except.map]
      · split
        · rfl
        · cases getLeaf n (upperBound k n.entries) with
          | error e => rfl
          | ok child => exact ih child

lemma foldlM_children {α σ : Type} (ids : List α) (step : σ → α → Except Fault σ) (s : σ)
    {g : σ → Nat → Except Fault σ}
    (hg : ∀ s i a, ids[i]? = some a → g s i = step s a) :
    (range ids.length).foldlM g s = ids.foldlM step s := by
  induction ids using reverseRecOn generalizing s with
  | nil => rfl
  | append_singleton ids a ih =>
    rw [length_append, length_singleton, range_succ, foldlM_append,
      foldlM_append, ih s fun s i b hb => ?_]
    · refine congrArg _ (funext fun s => ?_)
      simp [hg s ids.length a (by simp)]
    · refine hg s i b ?_
      rw [getElem?_append_left]
      · exact hb
      · exact (List.getElem?_eq_some_iff.1 hb).1

omit [LinearOrder K] in
lemma countNode_spec {p : Option NodeId} (hfuel : h < fuel) (hrep : t.Rep m.nodes h p)
    (hfill : t.Filled capacity least h) :
    m.countNode fuel t.id = .ok (t.toList h).length := by
  induction h generalizing fuel t p least with
  | zero =>
    obtain ⟨fuel, rfl⟩ : ∃ n, fuel = n + 1 := ⟨fuel - 1, by omega⟩
    simp [countNode, deref_eq hrep.node, toList]
  | succ h ih =>
    obtain ⟨fuel, rfl⟩ : ∃ n, fuel = n + 1 := ⟨fuel - 1, by omega⟩
    -- the fold adds the sizes of the children one by one
    have hsum : ∀ (cs : List (Tree K V)) (n : Nat), (∀ c ∈ cs, c ∈ t.children) →
        cs.foldlM (fun n c => (m.countNode fuel c.id).map (n + ·)) n =
          .ok (n + (cs.map fun c => (c.toList h).length).sum) := by
      intro cs
      induction cs with
      | nil => intro n _; rfl
      | cons c cs ihc =>
        intro n hcs
        have hc := hcs c (by simp)
        have hcount := ih (Nat.lt_of_succ_lt_succ hfuel) (hrep.2 c hc) (hfill.2.2 c hc)
        have hrest := ihc (n + (c.toList h).length) fun d hd => hcs d (by simp [hd])
        have hstep : (m.countNode fuel c.id).map (n + ·) = .ok (n + (c.toList h).length) := by
          rw [hcount]
          rfl
        rw [foldlM_cons, hstep, ok_bind, hrest, map_cons, sum_cons, Nat.add_assoc]
    have hfold := foldlM_children t.children
      (fun n c => (m.countNode fuel c.id).map (n + ·)) t.entries.length
      (g := fun count i => do
        let child ← getLeaf ⟨false, p, t.entries, t.children.map Tree.id⟩ i
        let below ← m.countNode fuel child
        pure (count + below)) ?_
    · rw [hfill.2.1, hsum t.children _ fun c hc => hc] at hfold
      rw [length_toList, Nat.add_comm _ t.entries.length]
      simpa [countNode, deref_eq hrep.1] using hfold
    · intro n i c hc
      have hget : getLeaf (⟨false, p, t.entries, t.children.map Tree.id⟩ : TreeNode K V) i =
          .ok c.id := by
        simp [getLeaf, hc, follow]
      simp only [hget, ok_bind]
      cases m.countNode fuel c.id <;> rfl

end BTree
end BezOS
