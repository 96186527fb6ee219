import BezOS.Container.BTree

/-!
# The memory of a B-tree

How the steps of the map's code run on a memory whose nodes are known.
-/

namespace BezOS
namespace BTree

open BTreeMap

variable {K V α : Type} {m : BTreeMap K V} {i j : NodeId} {n n' : TreeNode K V} {p : Option NodeId}
  {nodes : NodeId → Option (TreeNode K V)} {ids : List NodeId}

@[simp] lemma ok_bind {β : Type} (a : α) (f : α → Except Fault β) :
    (Except.ok a >>= f) = f a := rfl

@[simp] lemma pure_eq_ok (a : α) : (pure a : Except Fault α) = .ok a := rfl

@[simp] lemma kmAssert_true {p : Prop} [Decidable p] (hp : p) : kmAssert p = .ok () :=
  if_pos hp

lemma deref_eq (hn : m.nodes i = some n) : m.deref i = .ok n := by
  rw [deref, hn]

@[simp] lemma set_nodes_self : (m.set i n).nodes i = some n := by
  simp [BTreeMap.set]

@[simp] lemma set_nodes_ne (h : j ≠ i) : (m.set i n).nodes j = m.nodes j := by
  simp [BTreeMap.set, h]

@[simp] lemma deref_set_self : (m.set i n).deref i = .ok n := deref_eq set_nodes_self

@[simp] lemma deref_set_ne (h : j ≠ i) : (m.set i n).deref j = m.deref j := by
  rw [deref, set_nodes_ne h, deref]

@[simp] lemma set_rootNode : (m.set i n).rootNode = m.rootNode := rfl
@[simp] lemma set_next : (m.set i n).next = m.next := rfl

@[simp] lemma set_set : (m.set i n).set i n' = m.set i n' := by
  simp [BTreeMap.set]

/-- The nodes with the given ones moved below another parent. -/
def reparent (nodes : NodeId → Option (TreeNode K V)) (ids : List NodeId) (p : Option NodeId) :
    NodeId → Option (TreeNode K V) :=
  fun i => if i ∈ ids then (nodes i).map fun n => { n with parent := p } else nodes i

lemma reparent_mem (h : i ∈ ids) :
    reparent nodes ids p i = (nodes i).map fun n => { n with parent := p } := if_pos h

lemma reparent_not_mem (h : i ∉ ids) :
    reparent nodes ids p i = nodes i := if_neg h

/-- The given nodes are now below `q`, and otherwise as they were. -/
def Moves (nodes nodes' : NodeId → Option (TreeNode K V)) (ids : List NodeId) (q : NodeId) : Prop :=
  ∀ i ∈ ids, nodes' i = (nodes i).map fun n => { n with parent := some q }

lemma setParent_eq (hn : m.nodes i = some n) :
    m.setParent i p = .ok { m with nodes := reparent m.nodes [i] p } := by
  simp only [BTreeMap.setParent, deref_eq hn, ok_bind, pure_eq_ok, BTreeMap.set, Except.ok.injEq,
    BTreeMap.mk.injEq, and_true]
  funext j
  by_cases hj : j = i
  · subst hj
    simp [reparent, hn]
  · simp [reparent, hj]

lemma setParent_spec (hn : m.nodes i = some n) :
    ∃ m', m.setParent i p = .ok m' ∧ m'.nodes i = some { n with parent := p } ∧
      (∀ k, k ≠ i → m'.nodes k = m.nodes k) ∧ m'.rootNode = m.rootNode ∧ m'.next = m.next := by
  refine ⟨_, setParent_eq hn, ?_, fun k hk => reparent_not_mem (by simpa using hk), rfl, rfl⟩
  refine (reparent_mem (by simp)).trans ?_
  rw [hn]
  rfl

lemma setParents_eq (hn : ∀ i ∈ ids, (m.nodes i).isSome) :
    m.setParents ids p = .ok { m with nodes := reparent m.nodes ids p } := by
  induction ids generalizing m with
  | nil =>
    have hsame : reparent m.nodes [] p = m.nodes := funext fun j => reparent_not_mem (by simp)
    simp [setParents, hsame]
  | cons i ids ih =>
    obtain ⟨n, hi⟩ := Option.isSome_iff_exists.1 (hn i (by simp))
    have hrest : ∀ j ∈ ids, (reparent m.nodes [i] p j).isSome := by
      intro j hj
      have := hn j (by simp [hj])
      simp only [reparent]
      split <;> simpa using this
    have htail := ih (m := { m with nodes := reparent m.nodes [i] p }) hrest
    simp only [setParents, List.foldlM_cons, setParent_eq hi, ok_bind] at htail ⊢
    rw [htail]
    simp only [Except.ok.injEq, BTreeMap.mk.injEq, and_true]
    funext j
    by_cases hj : j = i
    · subst hj
      by_cases hmem : j ∈ ids <;> simp [reparent, hmem, hi]
    · by_cases hmem : j ∈ ids <;> simp [reparent, hj, hmem]

lemma setParents_spec (ids : List NodeId) (p : Option NodeId)
    (hn : ∀ i ∈ ids, ∃ n, m.nodes i = some n) :
    ∃ m', m.setParents ids p = .ok m' ∧ m'.nodes = reparent m.nodes ids p ∧
      m'.rootNode = m.rootNode ∧ m'.next = m.next :=
  ⟨_, setParents_eq fun i hi => Option.isSome_iff_exists.2 (hn i hi), rfl, rfl, rfl⟩

lemma releaseNodeMemory_eq (hn : m.nodes i = some n) :
    m.releaseNodeMemory i = .ok { m with nodes := Function.update m.nodes i none } := by
  simp [releaseNodeMemory, deref_eq hn]

lemma releaseNodeMemory_spec (hn : m.nodes i = some n) :
    ∃ m', m.releaseNodeMemory i = .ok m' ∧ (∀ k, k ≠ i → m'.nodes k = m.nodes k) ∧
      m'.nodes i = none ∧ m'.rootNode = m.rootNode ∧ m'.next = m.next :=
  ⟨_, releaseNodeMemory_eq hn, fun _ hk => Function.update_of_ne hk _ _, Function.update_self .., rfl,
    rfl⟩

/-! ## Children -/

lemma indexOfChild_eq {l r : List NodeId} {e : List (K × V)} {b : Bool} (h : i ∉ l) :
    indexOfChild (⟨b, p, e, l ++ i :: r⟩ : TreeNode K V) i = .ok l.length := by
  have hfind : (l ++ i :: r).findIdx (· = i) = l.length := by
    refine Lib.findIdx_append_of_split (fun a ha => ?_) (by simp)
    rw [decide_eq_false_iff_not]
    rintro rfl
    exact h ha
  have hne : l.length ≠ (l ++ i :: r).length := by simp
  simp [indexOfChild, hfind]

lemma getLeaf_eq {l r : List NodeId} {e : List (K × V)} {b : Bool} {k : Nat} (h : l.length = k) :
    getLeaf (⟨b, p, e, l ++ i :: r⟩ : TreeNode K V) k = .ok i := by
  simp [getLeaf, follow, ← h]

lemma entryAt_eq {x y : List (K × V)} {e : K × V} {k : Nat} (h : x.length = k) :
    entryAt (x ++ e :: y) k = .ok e := by
  simp [entryAt, ← h]

end BTree
end BezOS
