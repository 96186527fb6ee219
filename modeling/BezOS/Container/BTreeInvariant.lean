import BezOS.Container.BTreeRefinement

/-!
# The shape of the tree

The structure of a B-tree map read off its memory: every node that can be reached from the root is
there, filled, in order and below the parent it names, and all leaves are equally deep.
-/

namespace BezOS

open List Option

namespace BTreeMap

variable {K V : Type} {m : BTreeMap K V}

/-- From one node another is reached `d` levels below, along the pointers to children. -/
inductive Reaches (m : BTreeMap K V) : NodeId → Nat → NodeId → Prop
  | self (i : NodeId) : Reaches m i 0 i
  | child {i j c : NodeId} {d : Nat} {n : TreeNode K V} : m.nodes i = some n → c ∈ n.children →
      Reaches m c d j → Reaches m i (d + 1) j

def KeyBelow (m : BTreeMap K V) (i : NodeId) (k : K) : Prop :=
  ∃ d j n, Reaches m i d j ∧ m.nodes j = some n ∧ ∃ e ∈ n.entries, e.1 = k

variable [LinearOrder K]

structure WellFormedNode (capacity : Nat) (m : BTreeMap K V) (i : NodeId) (n : TreeNode K V) :
    Prop where
  most : n.entries.length ≤ capacity
  least : m.rootNode ≠ some i → BTree.minCapacity capacity ≤ n.entries.length
  increasing : n.entries.Pairwise fun x y => x.1 < y.1
  children : if n.isLeaf then n.children = [] else n.children.length = n.entries.length + 1
  parent : ∀ c ∈ n.children, ∃ n', m.nodes c = some n' ∧ n'.parent = some i
  above : ∀ (x : Nat) (c : NodeId), n.children[x + 1]? = some c → ∀ k, KeyBelow m c k →
    ∃ e, n.entries[x]? = some e ∧ e.1 < k
  below : ∀ (x : Nat) (c : NodeId) (e : K × V), n.children[x]? = some c → n.entries[x]? = some e →
    ∀ k, KeyBelow m c k → k < e.1

structure WellFormed (capacity : Nat) (m : BTreeMap K V) : Prop where
  node : ∀ r d i, m.rootNode = some r → Reaches m r d i →
    ∃ n, m.nodes i = some n ∧ WellFormedNode capacity m i n
  leaves : ∃ depth, ∀ r d i n, m.rootNode = some r → Reaches m r d i → m.nodes i = some n →
    (n.isLeaf = true ↔ d = depth)
  root : ∀ r n, m.rootNode = some r → m.nodes r = some n → n.parent = none

end BTreeMap

namespace BTree

open Lib

variable {K V : Type} [LinearOrder K] {capacity h d : Nat} {m : BTreeMap K V}
  {fs : List (Frame K V)} {t : Tree K V} {i j : NodeId} {k : K} {n : TreeNode K V}

lemma At.frame_of_child (ha : At capacity m (h + 1) fs t)
    (ht : t.Filled capacity (leastBelow capacity fs) (h + 1)) {x : Nat} {c : NodeId}
    (hc : (t.children.map Tree.id)[x]? = some c) :
    ∃ (f : Frame K V) (ct : Tree K V), t = f.fill ct ∧ f.Cut ∧ f.entriesL.length = x ∧ ct.id = c := by
  obtain ⟨ct, hct, rfl⟩ := by simpa using hc
  obtain ⟨hlt, hget⟩ := List.getElem?_eq_some_iff.1 hct
  obtain ⟨i, es, cs⟩ := t
  obtain ⟨cL, ct', cR, rfl, rfl⟩ := exists_append_cons hlt
  obtain rfl : ct' = ct := by simpa using hct
  have hlen : (cL ++ ct' :: cR).length = es.length + 1 := ht.2.1
  rw [length_append, length_cons] at hlen
  refine ⟨⟨i, es.take cL.length, cL, es.drop cL.length, cR⟩, ct', ?_, ⟨?_, ?_⟩, ?_, rfl⟩
  · simp [Frame.fill]
  · simp only [length_take]
    omega
  · simp only [length_drop]
    omega
  · simp only [length_take]
    omega

section

variable (ha : At capacity m h fs t) (ht : t.Filled capacity (leastBelow capacity fs) h)

include ha ht

lemma At.reaches (hr : m.Reaches t.id d j) :
    ∃ h' fs' t', At capacity m h' fs' t' ∧ t'.Filled capacity (leastBelow capacity fs') h' ∧
      t'.id = j ∧ h' + d = h ∧ ∀ e ∈ t'.toList h', e ∈ t.toList h := by
  induction d generalizing h fs t with
  | zero =>
    cases hr
    exact ⟨h, fs, t, ha, ht, rfl, rfl, fun e he => he⟩
  | succ d ih =>
    cases hr with
    | child hn hc hrest =>
      rw [ha.rep.node] at hn
      obtain rfl := (some_inj.1 hn).symm
      cases h with
      | zero => simp [show t.children = [] from ha.rep.2] at hc
      | succ h =>
        obtain ⟨x, hx⟩ := mem_iff_getElem?.1 hc
        obtain ⟨f, ct, rfl, hf, -, rfl⟩ := ha.frame_of_child ht hx
        obtain ⟨hac, hfc⟩ := ha.child hf ht
        obtain ⟨h', fs', t', hat, hft, hid, hdepth, hsub⟩ := ih hac hfc hrest
        refine ⟨h', fs', t', hat, hft, hid, by omega, fun e he => ?_⟩
        rw [Frame.toList_fill h hf]
        exact mem_append_right _ (mem_append_left _ (hsub e he))

lemma At.keyBelow (hk : m.KeyBelow t.id k) :
    ∃ e ∈ t.toList h, e.1 = k := by
  obtain ⟨d, j, n, hr, hn, e, he, hek⟩ := hk
  obtain ⟨h', fs', t', hat, -, rfl, -, hsub⟩ := ha.reaches ht hr
  rw [hat.rep.node] at hn
  obtain rfl := (some_inj.1 hn).symm
  exact ⟨e, hsub e (Tree.entries_subset h' t' e he), hek⟩

lemma At.wellFormedNode :
    m.WellFormedNode capacity t.id ⟨decide (h = 0), parentOf fs, t.entries, t.children.map Tree.id⟩ := by
  have hbounds := ht.bounds
  refine ⟨hbounds.2, fun hroot => ?_, ha.entries_sorted, ?_, fun c hc => ?_, fun x c hc k hk => ?_,
    fun x c e hc he k hk => ?_⟩
  · have hne : fs ≠ [] := fun hfs => hroot (ha.root_iff.2 hfs).symm
    have hleast : leastBelow capacity fs = minCapacity capacity := by
      cases fs with
      | nil => exact absurd rfl hne
      | cons f fs => rfl
    rw [← hleast]
    exact hbounds.1
  · cases h with
    | zero => simp [show t.children = [] from ha.rep.2]
    | succ h => simpa using ht.2.1
  · cases h with
    | zero => simp [show t.children = [] from ha.rep.2] at hc
    | succ h =>
      obtain ⟨ct, hct, rfl⟩ := mem_map.1 hc
      exact ⟨_, (ha.rep.2 ct hct).node, rfl⟩
  all_goals
    cases h with
    | zero => simp [show t.children = [] from ha.rep.2] at hc
    | succ h => ?_
  · -- the separator before a child ends what stands before it
    obtain ⟨f, ct, rfl, hf, hlen, rfl⟩ := ha.frame_of_child ht hc
    obtain ⟨hac, hfc⟩ := ha.child hf ht
    obtain ⟨e', he', rfl⟩ := hac.keyBelow hfc hk
    have hlt : x < f.entriesL.length := by omega
    refine ⟨f.entriesL[x], ?_, ?_⟩
    · simp [Frame.fill, getElem?_append_left hlt]
    · have hmem : f.entriesL[x] ∈ before h (f :: fs) := by
        refine mem_append_right _ (mem_weave.2 (.inr ?_))
        exact getElem_mem hlt
      exact (KeySorted.append_iff.1 hac.sorted).2.2 _ hmem e' (mem_append_left _ he')
  · -- the separator after a child starts what stands after it
    obtain ⟨f, ct, rfl, hf, hlen, rfl⟩ := ha.frame_of_child ht hc
    obtain ⟨hac, hfc⟩ := ha.child hf ht
    obtain ⟨e', he', rfl⟩ := hac.keyBelow hfc hk
    have hmem : e ∈ f.entriesR := by
      simp only [Frame.fill, Tree.entries_mk] at he
      rw [getElem?_append_right hlen.le] at he
      exact mem_of_getElem? he
    have hafter : e ∈ after h (f :: fs) := mem_append_left _ (mem_weave.2 (.inr hmem))
    exact (KeySorted.append_iff.1 hac.sorted.right).2.2 e' he' e hafter

end

lemma Holds.wellFormed {list : List (K × V)} (hm : Holds capacity m list) :
    m.WellFormed capacity := by
  rcases hm with ⟨hroot, -⟩ | ⟨h, t, ha, ht, -⟩
  · exact ⟨by simp [hroot], ⟨0, by simp [hroot]⟩, by simp [hroot]⟩
  · have hroot : m.rootNode = some t.id := ha.root
    have hfill : t.Filled capacity (leastBelow capacity ([] : List (Frame K V))) h := ht
    refine ⟨fun r d i hr hreach => ?_, ⟨h, fun r d i n hr hreach hn => ?_⟩, fun r n hr hn => ?_⟩
    · obtain rfl : t.id = r := by simpa [hroot] using hr
      obtain ⟨h', fs', t', hat, hft, rfl, -⟩ := ha.reaches hfill hreach
      exact ⟨_, hat.rep.node, hat.wellFormedNode hft⟩
    · obtain rfl : t.id = r := by simpa [hroot] using hr
      obtain ⟨h', fs', t', hat, -, rfl, hdepth, -⟩ := ha.reaches hfill hreach
      rw [hat.rep.node] at hn
      obtain rfl := (some_inj.1 hn).symm
      rw [decide_eq_true_iff]
      omega
    · obtain rfl : t.id = r := by simpa [hroot] using hr
      rw [ha.rep.node] at hn
      obtain rfl := (some_inj.1 hn).symm
      rfl

/-- After every sequence of calls that returns, whatever the allocator granted, the tree is well
formed. -/
theorem serveAll_wellFormed (hcap : 3 ≤ capacity) (grants : NodeId → Bool)
    (rs : List (MapRequest K V)) (replies : List (MapReply K V)) (m : BTreeMap K V)
    (hrun : BTreeMap.empty.serveAll capacity grants rs = .ok (replies, m)) :
    m.WellFormed capacity := by
  rcases serveAll_spec grants hcap (represents_empty) rs with
    ⟨replies', m', f, hrun', -, list, hlist, -⟩ | ⟨-, hfail⟩
  · rw [hrun] at hrun'
    obtain ⟨-, rfl⟩ := Prod.mk.inj (Except.ok.inj hrun')
    exact hlist.wellFormed
  · rw [hrun] at hfail
    cases hfail

/-- Four keys make a map of node order three split its root. -/
theorem serveAll_wellFormed_four_keys :
    ∃ m : BTreeMap Nat Nat,
      BTreeMap.empty.serveAll 3 (fun _ => true)
          [.insert 2 20, .insert 1 10, .insert 4 40, .insert 3 30] =
        .ok ([.status .success, .status .success, .status .success, .status .success], m) ∧
      m.rootNode = some 1 ∧ m.WellFormed 3 :=
  ⟨_, rfl, rfl, serveAll_wellFormed (by decide) (fun _ => true)
    [.insert 2 20, .insert 1 10, .insert 4 40, .insert 3 30]
    [.status .success, .status .success, .status .success, .status .success] _ rfl⟩

end BTree
end BezOS
