import BezOS.Container.BTreeNoted

/-!
# Insertions that run out of memory

When a request is refused the map is left as it was, and everything granted on the way is given
back. One case is missed: with a new root but no new leaf, the root is deleted by way of a child
that it does not have.
-/

namespace BezOS
namespace BTree

open Lib AllocatorCall BTreeMap List Nat

variable {K V : Type} [LinearOrder K] {capacity h fuel : Nat} {m m' : BTreeMap K V}
  {fs : List (Frame K V)} {t : Tree K V} {k : K} {v : V} {grants : NodeId → Bool}
  {list : List (K × V)} {i : NodeId}

/-- What a refused insertion leaves behind: the map has the same nodes and contents as before, and
no memory is lost. -/
structure RolledBack (capacity : Nat) (m : BTreeMap K V) (status : OsStatus) (m' : BTreeMap K V)
    (calls : List AllocatorCall) : Prop where
  status : status = .outOfMemory
  root : m'.rootNode = m.rootNode
  nodes : ∀ i < m.next, m'.nodes i = m.nodes i
  contents : ∀ f, Represents capacity m f → Represents capacity m' f
  balanced : Balanced calls

/-- A result is reached, and if a request was refused on the way all is undone. -/
def AllOrNothing (capacity : Nat) (m : BTreeMap K V)
    (result : Except Fault (OsStatus × BTreeMap K V × List AllocatorCall)) : Prop :=
  ∃ status m' calls, result = .ok (status, m', calls) ∧
    (refused ∈ calls → RolledBack capacity m status m' calls)

/-- `insert` of a key at a map, with an allocator that answers as given. -/
def InsertAtomic (capacity : Nat) (grants : NodeId → Bool) (m : BTreeMap K V) (k : K) (v : V) :
    Prop :=
  AllOrNothing capacity m (m.insertNoted capacity grants k v)

/-- The root is a full leaf that does not have the key, and of the two nodes needed to split it
only the first is granted. -/
def RefusesNewLeaf (capacity : Nat) (grants : NodeId → Bool) (m : BTreeMap K V) (k : K) : Prop :=
  ∃ root n, m.rootNode = some root ∧ m.nodes root = some n ∧ n.isLeaf = true ∧
    n.entries.length = capacity ∧ (∀ e ∈ n.entries, e.1 ≠ k) ∧ grants m.next = true ∧
    grants (m.next + 1) = false

/-! ## Nothing changed -/

lemma Holds.unchanged (hm : Holds capacity m list) (hroot : m'.rootNode = m.rootNode)
    (hnodes : ∀ i < m.next, m'.nodes i = m.nodes i) (hnext : m.next ≤ m'.next) :
    Holds capacity m' list := by
  rcases hm with ⟨hnone, rfl⟩ | ⟨h, t, ha, ht, rfl⟩
  · exact .inl ⟨hroot.trans hnone, rfl⟩
  · exact .inr ⟨h, t, ha.congr (fun i hi => hnodes i (ha.bound i hi)) hroot hnext, ht, rfl⟩

lemma rolledBack_of_unchanged {calls : List AllocatorCall} (hroot : m'.rootNode = m.rootNode)
    (hnodes : ∀ i < m.next, m'.nodes i = m.nodes i) (hnext : m.next ≤ m'.next)
    (hcalls : Balanced calls) : RolledBack capacity m .outOfMemory m' calls where
  status := rfl
  root := hroot
  nodes := hnodes
  contents := fun _ ⟨list, hm, hf⟩ => ⟨list, hm.unchanged hroot hnodes hnext, hf⟩
  balanced := hcalls

lemma AllOrNothing.of_served (status : OsStatus) (m' : BTreeMap K V)
    (calls : List AllocatorCall)
    {result : Except Fault (OsStatus × BTreeMap K V × List AllocatorCall)}
    (hrun : result = .ok (status, m', calls)) (hcalls : refused ∉ calls) :
    AllOrNothing capacity m result :=
  ⟨status, m', calls, hrun, fun hmem => absurd hmem hcalls⟩

/-! ## Memory set aside -/

open BTreeMap.InsertMemoryTracker in
omit [LinearOrder K] in
lemma allocateNoted_cases (grants : NodeId → Bool) (n : Nat) (pool : List NodeId)
    (m : BTreeMap K V) :
    ∃ (new : List NodeId) (m' : BTreeMap K V), new.Nodup ∧
      (∀ i ∈ new, m.next ≤ i ∧ i < m'.next) ∧ m'.nodes = m.nodes ∧ m'.rootNode = m.rootNode ∧
      m.next ≤ m'.next ∧
      (new.length = n ∧
          allocateNoted grants n pool m = (some (new.reverse ++ pool), m', new.map granted) ∨
        allocateNoted grants n pool m =
          (none, m', new.map granted ++ refused :: releaseRemaining (new.reverse ++ pool))) := by
  induction n generalizing m pool with
  | zero =>
    refine ⟨[], m, nodup_nil, by simp, rfl, rfl, le_rfl, .inl ⟨rfl, rfl⟩⟩
  | succ n ih =>
    cases hg : grants m.next with
    | false =>
      refine ⟨[], { m with next := m.next + 1 }, nodup_nil, by simp, rfl, rfl,
        le_succ _, .inr ?_⟩
      simp [allocateNoted, allocateMemory, hg]
    | true =>
      obtain ⟨new, m', hnodup, hbound, hnodes, hroot, hnext, hcase⟩ :=
        ih (m.next :: pool) { m with next := m.next + 1 }
      have hfresh : m.next ∉ new := fun hmem => Nat.lt_irrefl _ (hbound _ hmem).1
      refine ⟨m.next :: new, m', nodup_cons.2 ⟨hfresh, hnodup⟩, fun i hi => ?_, hnodes, hroot,
        (le_succ _).trans hnext, ?_⟩
      · rcases mem_cons.1 hi with rfl | hi
        · exact ⟨le_rfl, hnext⟩
        · exact ⟨(le_succ _).trans (hbound i hi).1, (hbound i hi).2⟩
      · simp only [allocateNoted, allocateMemory, hg, if_true]
        rcases hcase with ⟨hlen, hrun⟩ | hrun
        · exact .inl ⟨by rw [length_cons, hlen], by simp [hrun]⟩
        · exact .inr (by simp [hrun])

lemma grantedNode?_granted (nodes : List NodeId) :
    (nodes.map granted).filterMap grantedNode? = nodes := by
  induction nodes with
  | nil => rfl
  | cons n nodes ih => simpa [grantedNode?] using ih

lemma releasedNode?_granted (nodes : List NodeId) :
    (nodes.map granted).filterMap releasedNode? = [] := by
  simp [releasedNode?]

lemma grantedNode?_released (nodes : List NodeId) :
    (nodes.map released).filterMap grantedNode? = [] := by
  simp [grantedNode?]

lemma releasedNode?_released (nodes : List NodeId) :
    (nodes.map released).filterMap releasedNode? = nodes := by
  induction nodes with
  | nil => rfl
  | cons n nodes ih => simpa [releasedNode?] using ih

lemma balanced_refusal {new : List NodeId} (hnew : new.Nodup) :
    Balanced (new.map granted ++
      refused :: BTreeMap.InsertMemoryTracker.releaseRemaining new.reverse) := by
  have hgranted : (new.map granted ++ refused ::
      BTreeMap.InsertMemoryTracker.releaseRemaining new.reverse).filterMap grantedNode? = new := by
    rw [BTreeMap.InsertMemoryTracker.releaseRemaining, filterMap_append,
      grantedNode?_granted, filterMap_cons_none rfl, grantedNode?_released, append_nil]
  have hreleased : (new.map granted ++ refused ::
      BTreeMap.InsertMemoryTracker.releaseRemaining new.reverse).filterMap releasedNode? =
      new.reverse := by
    rw [BTreeMap.InsertMemoryTracker.releaseRemaining, filterMap_append,
      releasedNode?_granted, filterMap_cons_none rfl, releasedNode?_released, nil_append]
  refine ⟨by rwa [hgranted], ?_⟩
  rw [hgranted, hreleased]
  exact reverse_perm new

/-! ## A full leaf -/

lemma splitLeafNodeNoted_spec (hcap : 3 ≤ capacity) {f : Frame K V} {x z : List (K × V)}
    (ha : At capacity m 0 (f :: fs) (.mk i (x ++ z) [])) (hfull : (x ++ z).length = capacity)
    (hk : Seeks k 0 (f :: fs)) (hx : ∀ e ∈ x, e.1 < k) (hz : ∀ e ∈ z, k < e.1) :
    AllOrNothing capacity m
      (m.splitLeafNodeNoted capacity grants i (k, v) ⟨needed capacity (f :: fs), []⟩) := by
  have hi : m.deref i = .ok ⟨true, some f.id, x ++ z, []⟩ := deref_eq ha.rep.1
  obtain ⟨new, m1, hnew, hbound, hnodes1, hroot1, hnext1, ⟨hlen, hrun⟩ | hrun⟩ :=
    allocateNoted_cases grants (needed capacity (f :: fs)) [] m
  · rw [append_nil] at hrun
    rcases allocateNode_cases (m := m1) grants true (some f.id) with
      ⟨m2, hleaf, hm2⟩ | ⟨hleaf, -⟩
    · have hnext2 : m2.next = m1.next + 1 := by rw [hm2]; rfl
      have hat1 : At capacity m1 0 (f :: fs) (.mk i (x ++ z) []) :=
        ha.congr (fun n _ => by rw [hnodes1]) hroot1 hnext1
      have hat2 : At capacity m2 0 (f :: fs) (.mk i (x ++ z) []) := by
        refine hat1.congr (fun n hn => ?_) (by rw [hm2]; rfl) (by rw [hnext2]; exact le_succ _)
        rw [hm2, set_nodes_ne (Nat.ne_of_lt (hat1.bound n hn))]
      -- the new leaf and the memory set aside are not in the map
      have hfresh : ∀ n ∈ m1.next :: new.reverse, n ∉ i :: ctxIds 0 (f :: fs) ∧ n < m2.next := by
        intro n hn
        rw [hnext2]
        rcases mem_cons.1 hn with rfl | hn
        · exact ⟨fun hmem => Nat.lt_irrefl _ (hat1.bound m1.next hmem), lt_succ_self _⟩
        · have hn' := hbound n (mem_reverse.1 hn)
          refine ⟨fun hmem => ?_, lt_succ_of_lt hn'.2⟩
          exact Nat.lt_irrefl _ ((ha.bound n hmem).trans_le hn'.1)
      have hnodup : (m1.next :: new.reverse).Nodup := by
        refine nodup_cons.2 ⟨fun hmem => ?_, nodup_reverse.2 hnew⟩
        exact Nat.lt_irrefl _ (hbound _ (mem_reverse.1 hmem)).2
      obtain ⟨mid, m3, tracker, m4, list', hsplit, hinsert, -, -⟩ := splitLeaf_fits (v := v) hcap
        hat2 hfull hk hx hz (by rw [hm2, set_nodes_self]) hnodup hfresh
        (by rw [length_reverse, hlen])
      refine .of_served .success m4 (new.map granted ++
        granted m1.next :: BTreeMap.InsertMemoryTracker.releaseRemaining tracker.nodes) ?_ ?_
      · simp [splitLeafNodeNoted, hi, hrun, hleaf, hsplit, follow, hinsert, pure_eq_ok]
      · simp [BTreeMap.InsertMemoryTracker.releaseRemaining]
    · refine ⟨.outOfMemory, { m1 with next := m1.next + 1 }, _, ?_, fun _ =>
        rolledBack_of_unchanged hroot1 (fun n _ => by rw [hnodes1])
          (hnext1.trans (le_succ _)) (balanced_refusal hnew)⟩
      simp [splitLeafNodeNoted, hi, hrun, hleaf, pure_eq_ok]
  · rw [append_nil] at hrun
    refine ⟨.outOfMemory, m1, _, ?_, fun _ => rolledBack_of_unchanged hroot1
      (fun n _ => by rw [hnodes1]) hnext1 (balanced_refusal hnew)⟩
    simp [splitLeafNodeNoted, hi, hrun, pure_eq_ok]

lemma splitRootNodeNoted_spec (hcap : 3 ≤ capacity) {x z : List (K × V)}
    (ha : At capacity m 0 [] (.mk i (x ++ z) [])) (hfull : (x ++ z).length = capacity)
    (hx : ∀ e ∈ x, e.1 < k) (hz : ∀ e ∈ z, k < e.1)
    (hgrants : grants m.next = true → grants (m.next + 1) = true) :
    AllOrNothing capacity m (m.splitRootNodeNoted capacity grants i (k, v)) := by
  have hi : m.deref i = .ok ⟨true, none, x ++ z, []⟩ := deref_eq ha.rep.1
  rcases allocateNode_cases (m := m) grants false none with ⟨m1, hroot, hm1⟩ | ⟨hroot, hg1⟩
  · have hnext1 : m1.next = m.next + 1 := by rw [hm1]; rfl
    rcases allocateNode_cases grants true (some m.next) with
      ⟨m2, hleaf, hm2⟩ | ⟨-, hg2⟩
    · -- both were granted
      obtain ⟨mid, m3, m4, list', hsplit, hinit, -, -⟩ := splitRoot_fits (v := v) hcap ha hfull hx
        hz hm1 hm2
      refine .of_served .success { m4 with rootNode := some m.next }
        [granted m.next, granted m1.next] ?_ (by simp)
      simp only [splitRootNodeNoted, hi, ok_bind, hroot, hleaf, hsplit, hinit, pure_eq_ok,
        allocation]
    · have hg1 : grants m.next = true := by
        by_contra hg
        simp [allocateNode, allocateMemory, hg] at hroot
      rw [hnext1, hgrants hg1] at hg2
      cases hg2
  · rcases allocateNode_cases (m := { m with next := m.next + 1 }) grants true none with
      ⟨m2, hleaf, hm2⟩ | ⟨hleaf, -⟩
    · -- the new leaf is given back
      have hnode : m2.nodes (m.next + 1) = some ⟨true, none, [], []⟩ := by
        rw [hm2, set_nodes_self]
      obtain ⟨m3, hrelease, hsame, -, hroot3, hnext3⟩ := releaseNodeMemory_spec hnode
      have hdelete : m2.deleteNodeNoted (m2.next + 1) (m.next + 1) =
          .ok (m3, [released (m.next + 1)]) := by
        simp [deleteNodeNoted, deref_eq hnode, ok_bind, pure_eq_ok, hrelease, nil_append]
      refine ⟨.outOfMemory, m3, [refused, granted (m.next + 1), released (m.next + 1)], ?_,
        fun _ => rolledBack_of_unchanged ?_ (fun n hn => ?_) ?_ ?_⟩
      · simp only [splitRootNodeNoted, hi, ok_bind, hroot, hleaf, pure_eq_ok, hdelete,
          allocation]
        rfl
      · rw [hroot3, hm2]
        rfl
      · have hne : n ≠ m.next + 1 := Nat.ne_of_lt (lt_succ_of_lt hn)
        rw [hsame n hne, hm2, set_nodes_ne hne]
      · rw [hnext3, hm2]
        exact (le_succ _).trans (le_succ _)
      · exact ⟨nodup_singleton (m.next + 1), Perm.refl _⟩
    · refine ⟨.outOfMemory, { m with next := m.next + 1 + 1 }, [refused, refused], ?_,
        fun _ => rolledBack_of_unchanged rfl (fun n _ => rfl)
          ((le_succ _).trans (le_succ _)) ?_⟩
      · simp [splitRootNodeNoted, hi, hroot, hleaf, pure_eq_ok, allocation]
      · exact ⟨nodup_nil, Perm.refl _⟩

lemma splitRootNodeNoted_fault {n : TreeNode K V} (hi : m.nodes i = some n)
    (hroot : grants m.next = true) (hleaf : grants (m.next + 1) = false) (e : K × V) :
    m.splitRootNodeNoted capacity grants i e = .error .badAccess := by
  have hnode : ({ { m with next := m.next + 1 }.set m.next ⟨false, none, [], []⟩ with
      next := m.next + 1 + 1 } : BTreeMap K V).deref m.next = .ok ⟨false, none, [], []⟩ :=
    deref_eq set_nodes_self
  simp only [splitRootNodeNoted, deref_eq hi, ok_bind, allocateNode,
    allocateMemory, hroot, if_true, set_next, hleaf, Bool.false_eq_true, if_false,
    deleteNodeNoted, hnode]
  rfl

/-! ## The way down -/

lemma insertIntoNoted_spec (hcap : 3 ≤ capacity) (hfuel : h < fuel) (ha : At capacity m h fs t)
    (hmost : t.entries.length ≤ capacity)
    (ht : 0 < h → t.Filled capacity (leastBelow capacity fs) h) (hk : Seeks k h fs)
    (hgrants : ¬ RefusesNewLeaf capacity grants m k) :
    AllOrNothing capacity m
      (m.insertIntoNoted capacity grants fuel t.id (k, v) ⟨needed capacity fs, []⟩) := by
  induction h generalizing fuel fs t with
  | zero =>
    obtain ⟨fuel, rfl⟩ : ∃ n, fuel = n + 1 := ⟨fuel - 1, by omega⟩
    obtain ⟨i, es, cs⟩ := t
    obtain rfl : cs = [] := ha.rep.2
    have hi : m.deref i = .ok ⟨true, parentOf fs, es, []⟩ := deref_eq ha.rep.1
    cases hins : insertEntry capacity (k, v) es with
    | some entries =>
      refine .of_served .success (m.set i ⟨true, parentOf fs, entries, []⟩) [] ?_ (by simp)
      simp [insertIntoNoted, hi, ok_bind, if_true, hins, pure_eq_ok]
    | none =>
      -- no room, and the key is not there: the leaf is split
      obtain ⟨x, y, z, hes, hx, hz, hcase, -⟩ := seek_leaf ha.entries_sorted k
      rw [Tree.entries_mk] at hes
      rcases hcase with ⟨rfl, -⟩ | ⟨w, rfl, -⟩
      · rw [append_nil] at hes
        subst hes
        have hfull : (x ++ z).length = capacity := by
          refine le_antisymm hmost (not_lt.1 fun hroom => ?_)
          rw [insertEntry_gap hx hz hroom] at hins
          cases hins
        have hstep : m.insertIntoNoted capacity grants (fuel + 1) i (k, v)
            ⟨needed capacity fs, []⟩ =
            m.splitNodeNoted capacity grants i (k, v) ⟨needed capacity fs, []⟩ := by
          simp [insertIntoNoted, hi, if_true, hins]
        have hroot := ha.root_iff
        simp only [Tree.id_mk] at hroot ⊢
        rw [hstep, splitNodeNoted]
        cases fs with
        | nil =>
          rw [if_pos (hroot.2 rfl)]
          refine splitRootNodeNoted_spec hcap ha hfull hx hz fun hg => ?_
          by_contra hleaf
          refine hgrants ⟨i, _, (hroot.2 rfl).symm, ha.rep.1, rfl, hfull, fun e he => ?_, hg,
            by simpa using hleaf⟩
          rcases mem_append.1 he with he | he
          · exact (hx e he).ne
          · exact (hz e he).ne'
        | cons f fs =>
          rw [if_neg fun h => by simpa using hroot.1 h]
          exact splitLeafNodeNoted_spec hcap ha hfull hk hx hz
      · rw [hes, append_assoc, singleton_append, insertEntry_hit hx hz] at hins
        cases hins
  | succ h ih =>
    obtain ⟨fuel, rfl⟩ : ∃ n, fuel = n + 1 := ⟨fuel - 1, by omega⟩
    have ht := ht (succ_pos h)
    have hnode := deref_eq ha.rep.node
    rcases seek ha ht hk with ⟨hsep, -⟩ | ⟨hsep, hnone, f, c, rfl, hf, hget, hk'⟩
    · refine .of_served .success (m.set t.id ⟨false, parentOf fs,
        t.entries.modify (upperBound k t.entries - 1) fun e => (e.1, v), t.children.map Tree.id⟩)
        [] ?_ (by simp)
      simp [insertIntoNoted, hnode, succ_ne_zero, decide_false, Bool.false_eq_true, if_false, if_pos hsep, pure_eq_ok]
    · obtain ⟨hac, hfc⟩ := ha.child hf ht
      have hstep : m.insertIntoNoted capacity grants (fuel + 1) (f.fill c).id (k, v)
          ⟨needed capacity fs, []⟩ =
          m.insertIntoNoted capacity grants fuel c.id (k, v) ⟨needed capacity (f :: fs), []⟩ := by
        simp only [insertIntoNoted, hnode, ok_bind, succ_ne_zero, decide_false,
          Bool.false_eq_true, if_false, if_neg hsep, kmAssert_true, hnone, getLeaf, hget,
          follow, track_needed]
      rw [hstep]
      exact ih (lt_of_succ_lt_succ hfuel) hac hfc.bounds.2 (fun _ => hfc) hk'

lemma insertAtomic_iff (hcap : 3 ≤ capacity) (hm : Holds capacity m list) :
    InsertAtomic capacity grants m k v ↔ ¬ RefusesNewLeaf capacity grants m k := by
  constructor
  · rintro ⟨status, m', calls, hrun, -⟩ ⟨root, n, hroot, hn, hleaf, hfull, habsent, hg1, hg2⟩
    rcases hm with ⟨hnone, rfl⟩ | ⟨h, t, ha, ht, rfl⟩
    · rw [hnone] at hroot
      cases hroot
    · obtain rfl : t.id = root := Option.some_inj.1 (ha.root.symm.trans hroot)
      obtain rfl := Option.some_inj.1 (ha.rep.node.symm.trans hn)
      obtain rfl : h = 0 := by simpa using hleaf
      obtain ⟨x, y, z, hes, hx, hz, hcase, -⟩ := seek_leaf ha.entries_sorted k
      rcases hcase with ⟨rfl, -⟩ | ⟨w, rfl, -⟩
      · -- the leaf has to be split
        rw [append_nil] at hes
        have hins : insertEntry capacity (k, v) t.entries = none := by
          rw [hes]
          exact insertEntry_full hx hz (by rw [← hes]; exact hfull.ge)
        have hfault : m.insertNoted capacity grants k v = .error .badAccess := by
          simp only [insertNoted, hroot, insertIntoNoted, deref_eq ha.rep.node,
            ok_bind, decide_true, if_true, hins, splitNodeNoted,
            splitRootNodeNoted_fault ha.rep.node hg1 hg2]
          rfl
        rw [hfault] at hrun
        cases hrun
      · exact habsent (k, w) (by rw [hes]; simp) rfl
  · intro hgrants
    rcases hm with ⟨hroot, rfl⟩ | ⟨h, t, ha, ht, rfl⟩
    · -- the first key gets a new root
      rcases allocateNode_cases grants true none with ⟨m1, hleaf, hm1⟩ | ⟨hleaf, -⟩
      · have hnode : ({ m1 with rootNode := some m.next } : BTreeMap K V).deref m.next =
            .ok ⟨true, none, [], []⟩ := by
          refine deref_eq ?_
          rw [hm1, set_nodes_self]
        have hins : insertEntry capacity (k, v) ([] : List (K × V)) = some [(k, v)] :=
          insertEntry_gap (x := []) (by simp) (by simp) (by simp; omega)
        refine .of_served .success (({ m1 with rootNode := some m.next } :
          BTreeMap K V).set m.next ⟨true, none, [(k, v)], []⟩) [granted m.next] ?_ (by simp)
        simp [insertNoted, hroot, hleaf, insertIntoNoted, hnode, if_true, hins, pure_eq_ok, allocation, append_nil]
      · refine ⟨.outOfMemory, { m with next := m.next + 1 }, [refused], ?_, fun _ =>
          rolledBack_of_unchanged rfl (fun n _ => rfl) (le_succ _)
            ⟨nodup_nil, Perm.refl _⟩⟩
        simp [insertNoted, hroot, hleaf, allocation]
    · have hroot : m.rootNode = some t.id := ha.root
      have hfuel : h < m.next + 1 := by
        have := ha.lt_next ht
        omega
      have hfill : t.Filled capacity (leastBelow capacity ([] : List (Frame K V))) h := ht
      obtain ⟨status, m', calls, hrun, hback⟩ := insertIntoNoted_spec (v := v) hcap hfuel ha
        ht.bounds.2 (fun _ => hfill) Seeks.nil hgrants
      refine ⟨status, m', calls, ?_, hback⟩
      rw [needed] at hrun
      simp [insertNoted, hroot, hrun, pure_eq_ok, nil_append]

/-! ## Reachable maps -/

/-- On every map that calls can make, whatever memory was granted to them, the insertion of every
key is atomic under every answer of the allocator, unless the root is a full leaf and the new leaf
alone is refused. -/
theorem insertAtomic_of_run (fit : Nat) (grants : NodeId → Bool) (rs : List (MapRequest K V))
    (replies : List (MapReply K V)) (m : BTreeMap K V)
    (hrun : empty.serveAll (kOrder fit) grants rs = .ok (replies, m))
    (grants' : NodeId → Bool) (k : K) (v : V) :
    InsertAtomic (kOrder fit) grants' m k v ↔ ¬ RefusesNewLeaf (kOrder fit) grants' m k := by
  have hcap : 3 ≤ kOrder fit := le_max_left 3 fit
  rcases serveAll_spec grants hcap (represents_empty) rs with
    ⟨replies', m', f, hrun', -, list, hlist, -⟩ | ⟨-, hfail⟩
  · obtain ⟨-, rfl⟩ := Prod.mk.inj (Except.ok.inj (hrun'.symm.trans hrun))
    exact insertAtomic_iff hcap hlist
  · exact absurd (hrun.symm.trans hfail) (by simp)

/-- Four keys make a map of node order three split its root, which is no leaf from then on. -/
theorem insertAtomic_of_four_keys :
    ∃ m : BTreeMap Nat Nat,
      empty.serveAll (kOrder 3) (fun _ => true)
          [.insert 2 20, .insert 1 10, .insert 4 40, .insert 3 30] =
        .ok ([.status .success, .status .success, .status .success, .status .success], m) ∧
      ∀ grants' k v,
        InsertAtomic (kOrder 3) grants' m k v ↔ ¬ RefusesNewLeaf (kOrder 3) grants' m k :=
  ⟨_, rfl, insertAtomic_of_run 3 (fun _ => true)
    [.insert 2 20, .insert 1 10, .insert 4 40, .insert 3 30]
    [.status .success, .status .success, .status .success, .status .success] _ rfl⟩

/-- Three keys fill the root of a map of node order three. For the fourth the allocator grants the
new root and refuses the new leaf. -/
theorem not_insertAtomic_of_three_keys :
    ∃ m : BTreeMap Nat Nat,
      empty.serveAll (kOrder 3) (fun _ => true)
          [.insert 1 10, .insert 2 20, .insert 3 30] =
        .ok ([.status .success, .status .success, .status .success], m) ∧
      ¬ InsertAtomic (kOrder 3) (fun i => decide (i = 1)) m 4 40 := by
  refine ⟨_, rfl, ?_⟩
  rintro ⟨status, m', calls, hrun, -⟩
  have hfault : ∀ {r : OsStatus × BTreeMap Nat Nat × List AllocatorCall},
      (Except.error .badAccess : Except Fault _) ≠ .ok r := by simp
  exact hfault hrun

end BTree
end BezOS
