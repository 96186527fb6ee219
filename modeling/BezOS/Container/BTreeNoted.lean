import BezOS.Container.BTreeRefinement

/-!
# Insertion, with its calls to the allocator

`insert` once more, with the calls it makes to the allocator written down one after another.
Without these notes it is `insert`.
-/

namespace BezOS

inductive AllocatorCall
  | granted (node : NodeId)
  | refused
  | released (node : NodeId)

namespace AllocatorCall

/-- `allocateAligned`, of what it returns. -/
def allocation : Option NodeId → AllocatorCall
  | some node => granted node
  | none => refused

def grantedNode? : AllocatorCall → Option NodeId
  | granted node => some node
  | _ => none

def releasedNode? : AllocatorCall → Option NodeId
  | released node => some node
  | _ => none

/-- Every node that was granted is released, once. -/
def Balanced (calls : List AllocatorCall) : Prop :=
  (calls.filterMap grantedNode?).Nodup ∧
    (calls.filterMap releasedNode?).Perm (calls.filterMap grantedNode?)

end AllocatorCall

namespace BTreeMap

open BTree AllocatorCall

variable {K V : Type} [LinearOrder K]

/-! ## The calls to the allocator -/

namespace InsertMemoryTracker

def releaseRemaining (nodes : List NodeId) : List AllocatorCall := nodes.map released

/-- `allocateMemory`, with `releaseRemaining` when a request is refused. -/
def allocateNoted (grants : NodeId → Bool) : Nat → List NodeId → BTreeMap K V →
    Option (List NodeId) × BTreeMap K V × List AllocatorCall
  | 0, nodes, m => (some nodes, m, [])
  | n + 1, nodes, m =>
      match m.allocateMemory grants with
      | (none, m) => (none, m, refused :: releaseRemaining nodes)
      | (some id, m) =>
          let (nodes, m, calls) := allocateNoted grants n (id :: nodes) m
          (nodes, m, granted id :: calls)

end InsertMemoryTracker

open InsertMemoryTracker

def deleteNodeNoted : Nat → BTreeMap K V → NodeId →
    Except Fault (BTreeMap K V × List AllocatorCall)
  | 0, _, _ => .error .outOfFuel
  | fuel + 1, m, id => do
      let n ← m.deref id
      let (m, calls) ←
        if n.isLeaf then pure (m, [])
        else
          (List.range (n.entries.length + 1)).foldlM (fun (m, calls) i => do
            let child ← follow n.children[i]?
            let (m, below) ← deleteNodeNoted fuel m child
            pure (m, calls ++ below)) (m, [])
      let m ← m.releaseNodeMemory id
      pure (m, calls ++ [released id])

def splitRootNodeNoted (capacity : Nat) (grants : NodeId → Bool) (m : BTreeMap K V)
    (leaf : NodeId) (entry : K × V) :
    Except Fault (OsStatus × BTreeMap K V × List AllocatorCall) := do
  let n ← m.deref leaf
  let (newRoot, m) := m.allocateNode grants false none
  let (newLeaf, m) := m.allocateNode grants n.isLeaf newRoot
  let calls := [allocation newRoot, allocation newLeaf]
  match newRoot, newLeaf with
  | some newRoot, some newLeaf => do
      let (midpoint, m) ← m.splitEntries capacity leaf newLeaf entry
      let m ← m.initAsRoot newRoot leaf newLeaf midpoint
      pure (.success, { m with rootNode := some newRoot }, calls)
  | newRoot, newLeaf => do
      let (m, calls) ← match newRoot with
        | some id => do
            let (m, below) ← m.deleteNodeNoted (m.next + 1) id
            pure (m, calls ++ below)
        | none => pure (m, calls)
      let (m, calls) ← match newLeaf with
        | some id => do
            let (m, below) ← m.deleteNodeNoted (m.next + 1) id
            pure (m, calls ++ below)
        | none => pure (m, calls)
      pure (.outOfMemory, m, calls)

def splitLeafNodeNoted (capacity : Nat) (grants : NodeId → Bool) (m : BTreeMap K V)
    (leaf : NodeId) (entry : K × V) (tracker : InsertMemoryTracker) :
    Except Fault (OsStatus × BTreeMap K V × List AllocatorCall) := do
  let n ← m.deref leaf
  match allocateNoted grants tracker.fullInternalNodes tracker.nodes m with
  | (none, m, calls) => pure (.outOfMemory, m, calls)
  | (some nodes, m, calls) =>
      match m.allocateNode grants n.isLeaf n.parent with
      | (none, m) => pure (.outOfMemory, m, calls ++ refused :: releaseRemaining nodes)
      | (some newLeaf, m) => do
          let (midpoint, m) ← m.splitEntries capacity leaf newLeaf entry
          let parent ← follow n.parent
          let (tracker, m) ← m.insertNewLeaf capacity (m.next + 1) { tracker with nodes := nodes }
            parent newLeaf midpoint
          pure (.success, m, calls ++ granted newLeaf :: releaseRemaining tracker.nodes)

def splitNodeNoted (capacity : Nat) (grants : NodeId → Bool) (m : BTreeMap K V) (leaf : NodeId)
    (entry : K × V) (tracker : InsertMemoryTracker) :
    Except Fault (OsStatus × BTreeMap K V × List AllocatorCall) :=
  if some leaf = m.rootNode then m.splitRootNodeNoted capacity grants leaf entry
  else m.splitLeafNodeNoted capacity grants leaf entry tracker

def insertIntoNoted (capacity : Nat) (grants : NodeId → Bool) : Nat → BTreeMap K V → NodeId →
    K × V → InsertMemoryTracker →
    Except Fault (OsStatus × BTreeMap K V × List AllocatorCall)
  | 0, _, _, _, _ => .error .outOfFuel
  | fuel + 1, m, node, entry, tracker => do
      let n ← m.deref node
      if n.isLeaf then
        match insertEntry capacity entry n.entries with
        | some entries => pure (.success, m.set node { n with entries := entries }, [])
        | none => m.splitNodeNoted capacity grants node entry tracker
      else
        let index := upperBound entry.1 n.entries
        if separatorIs entry.1 n.entries index then
          pure (.success, m.set node { n with
            entries := n.entries.modify (index - 1) fun e => (e.1, entry.2) }, [])
        else do
          let tracker := tracker.track capacity n
          kmAssert (indexOf entry.1 n.entries = none)
          let child ← getLeaf n index
          insertIntoNoted capacity grants fuel m child entry tracker

def insertNoted (capacity : Nat) (grants : NodeId → Bool) (m : BTreeMap K V) (key : K)
    (value : V) : Except Fault (OsStatus × BTreeMap K V × List AllocatorCall) :=
  let (m, calls) :=
    match m.rootNode with
    | some _ => (m, [])
    | none =>
        let (root, m) := m.allocateNode grants true none
        ({ m with rootNode := root }, [allocation root])
  match m.rootNode with
  | none => .ok (.outOfMemory, m, calls)
  | some root => do
      let (s, m, below) ← m.insertIntoNoted capacity grants (m.next + 1) root (key, value) ⟨0, []⟩
      pure (s, m, calls ++ below)

/-! ## Leaving out the notes -/

def withoutNotes (r : OsStatus × BTreeMap K V × List AllocatorCall) : OsStatus × BTreeMap K V :=
  (r.1, r.2.1)

variable {capacity : Nat} {grants : NodeId → Bool}

omit [LinearOrder K] in
lemma allocateNoted_erase (n : Nat) (nodes : List NodeId) (m : BTreeMap K V) :
    InsertMemoryTracker.allocate grants n nodes m =
      ((allocateNoted grants n nodes m).1, (allocateNoted grants n nodes m).2.1) := by
  induction n generalizing nodes m with
  | zero => rfl
  | succ n ih =>
    simp only [InsertMemoryTracker.allocate, allocateNoted]
    cases hmem : m.allocateMemory grants with
    | mk id m1 =>
      cases id with
      | none => rfl
      | some id => exact ih (id :: nodes) m1

omit [LinearOrder K] in
lemma deleteNodeNoted_erase (fuel : Nat) (m : BTreeMap K V) (id : NodeId) :
    (m.deleteNodeNoted fuel id).map Prod.fst = m.deleteNode fuel id := by
  induction fuel generalizing m id with
  | zero => rfl
  | succ fuel ih =>
    -- the loop over the children
    have hloop : ∀ (n : TreeNode K V) (is : List Nat) (s : BTreeMap K V × List AllocatorCall),
        (is.foldlM (fun (s : BTreeMap K V × List AllocatorCall) i => do
          let child ← follow n.children[i]?
          let (m, below) ← deleteNodeNoted fuel s.1 child
          pure (m, s.2 ++ below)) s).map Prod.fst =
        is.foldlM (fun m i => do
          let child ← follow n.children[i]?
          deleteNode fuel m child) s.1 := by
      intro n is
      induction is with
      | nil => exact fun s => rfl
      | cons i is ihs =>
        intro s
        simp only [List.foldlM_cons]
        cases follow n.children[i]? with
        | error e => rfl
        | ok child =>
          simp only [ok_bind]
          rw [← ih s.1 child]
          cases deleteNodeNoted fuel s.1 child with
          | error e => rfl
          | ok r => exact ihs (r.1, s.2 ++ r.2)
    simp only [deleteNodeNoted, deleteNode]
    cases m.deref id with
    | error e => rfl
    | ok n =>
      simp only [ok_bind]
      cases n.isLeaf with
      | true =>
        simp only [if_true, pure_eq_ok, ok_bind]
        cases m.releaseNodeMemory id <;> rfl
      | false =>
        simp only [Bool.false_eq_true, if_false, ← hloop n _ (m, [])]
        cases (List.range (n.entries.length + 1)).foldlM (fun (s : BTreeMap K V ×
            List AllocatorCall) i => do
          let child ← follow n.children[i]?
          let (m, below) ← deleteNodeNoted fuel s.1 child
          pure (m, s.2 ++ below)) (m, []) with
        | error e => rfl
        | ok r =>
          simp only [ok_bind, Except.map]
          cases r.1.releaseNodeMemory id <;> rfl

lemma splitRootNodeNoted_erase (m : BTreeMap K V) (leaf : NodeId) (entry : K × V) :
    (m.splitRootNodeNoted capacity grants leaf entry).map withoutNotes =
      m.splitRootNode capacity grants leaf entry := by
  simp only [splitRootNodeNoted, splitRootNode]
  cases m.deref leaf with
  | error e => rfl
  | ok n =>
    simp only [ok_bind]
    cases hroot : m.allocateNode grants false none with
    | mk newRoot m1 =>
      cases hleaf : m1.allocateNode grants n.isLeaf newRoot with
      | mk newLeaf m2 =>
        cases newRoot with
        | none =>
          cases newLeaf with
          | none => rfl
          | some newLeaf =>
            simp only [pure_eq_ok, ok_bind, ← deleteNodeNoted_erase]
            cases m2.deleteNodeNoted (m2.next + 1) newLeaf <;> rfl
        | some newRoot =>
          cases newLeaf with
          | none =>
            simp only [pure_eq_ok, ← deleteNodeNoted_erase]
            cases m2.deleteNodeNoted (m2.next + 1) newRoot <;> rfl
          | some newLeaf =>
            simp only
            cases m2.splitEntries capacity leaf newLeaf entry with
            | error e => rfl
            | ok r =>
              simp only [ok_bind]
              cases r.2.initAsRoot newRoot leaf newLeaf r.1 <;> rfl

lemma splitLeafNodeNoted_erase (m : BTreeMap K V) (leaf : NodeId) (entry : K × V)
    (tracker : InsertMemoryTracker) :
    (m.splitLeafNodeNoted capacity grants leaf entry tracker).map withoutNotes =
      m.splitLeafNode capacity grants leaf entry tracker := by
  simp only [splitLeafNodeNoted, splitLeafNode, allocateNoted_erase]
  cases m.deref leaf with
  | error e => rfl
  | ok n =>
    simp only [ok_bind]
    cases allocateNoted grants tracker.fullInternalNodes tracker.nodes m with
    | mk nodes r =>
      cases nodes with
      | none => rfl
      | some nodes =>
        simp only
        cases r.1.allocateNode grants n.isLeaf n.parent with
        | mk newLeaf m2 =>
          cases newLeaf with
          | none => rfl
          | some newLeaf =>
            simp only
            cases m2.splitEntries capacity leaf newLeaf entry with
            | error e => rfl
            | ok s =>
              cases follow n.parent with
              | error e => rfl
              | ok parent =>
                simp only [ok_bind]
                cases s.2.insertNewLeaf capacity (s.2.next + 1) { tracker with nodes := nodes }
                  parent newLeaf s.1 <;> rfl

lemma insertIntoNoted_erase (fuel : Nat) (m : BTreeMap K V) (node : NodeId) (entry : K × V)
    (tracker : InsertMemoryTracker) :
    (m.insertIntoNoted capacity grants fuel node entry tracker).map withoutNotes =
      m.insertInto capacity grants fuel node entry tracker := by
  induction fuel generalizing node tracker with
  | zero => rfl
  | succ fuel ih =>
    simp only [insertIntoNoted, insertInto]
    cases m.deref node with
    | error e => rfl
    | ok n =>
      simp only [ok_bind]
      cases n.isLeaf with
      | true =>
        simp only [if_true]
        cases insertEntry capacity entry n.entries with
        | some entries => rfl
        | none =>
          simp only [splitNodeNoted, splitNode]
          split
          · exact splitRootNodeNoted_erase m node entry
          · exact splitLeafNodeNoted_erase m node entry tracker
      | false =>
        simp only [Bool.false_eq_true, if_false]
        split
        · rfl
        · cases kmAssert (indexOf entry.1 n.entries = none) with
          | error e => rfl
          | ok _ =>
            cases getLeaf n (upperBound entry.1 n.entries) with
            | error e => rfl
            | ok child => exact ih child (tracker.track capacity n)

lemma insertNoted_erase (m : BTreeMap K V) (key : K) (value : V) :
    (m.insertNoted capacity grants key value).map withoutNotes =
      m.insert capacity grants key value := by
  have hinto : ∀ (m : BTreeMap K V) (root : NodeId) (calls : List AllocatorCall),
      (do
        let (s, m, below) ←
          m.insertIntoNoted capacity grants (m.next + 1) root (key, value) ⟨0, []⟩
        pure (s, m, calls ++ below) : Except Fault _).map withoutNotes =
      m.insertInto capacity grants (m.next + 1) root (key, value) ⟨0, []⟩ := by
    intro m root calls
    rw [← insertIntoNoted_erase]
    cases m.insertIntoNoted capacity grants (m.next + 1) root (key, value) ⟨0, []⟩ <;> rfl
  simp only [insertNoted, insert]
  cases hroot : m.rootNode with
  | some root =>
    simp only [hroot]
    exact hinto m root []
  | none =>
    cases m.allocateNode grants true none with
    | mk root m1 =>
      cases root with
      | none => rfl
      | some root => exact hinto _ root [allocation (some root)]

end BTreeMap
end BezOS
