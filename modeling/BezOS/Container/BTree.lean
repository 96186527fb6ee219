import Mathlib.Logic.Function.Basic
import BezOS.Status
import BezOS.Lib.OrderedList

/-!
# The B-tree map

`sm::BTreeMap` of `std/container/btree.hpp`. Nodes live in memory and know their parent; a node is
held with the live part of its arrays, so its count is the number of its entries. Memory comes
from an allocator that answers each request as it likes: request `i` is granted if `grants i`, and
the node it yields is node `i`. Loops that walk the tree carry a bound on their steps.
-/

namespace BezOS

abbrev NodeId := Nat

/-- `Leaf` and, with children, `Internal`. -/
structure TreeNode (K V : Type) where
  isLeaf : Bool
  parent : Option NodeId
  entries : List (K × V)
  children : List NodeId

structure BTreeMap (K V : Type) where
  nodes : NodeId → Option (TreeNode K V)
  rootNode : Option NodeId
  next : NodeId

/-- `KM_ASSERT` and `KM_CHECK`. -/
def kmAssert (p : Prop) [Decidable p] : Except Fault Unit :=
  if p then .ok () else .error .bugCheck

namespace BTree

open Lib

variable {K V : Type} [LinearOrder K]

/-- `Leaf::kOrder`, of the number of entries that fit the target node size. -/
def kOrder (fit : Nat) : Nat := max 3 fit

def minCapacity (capacity : Nat) : Nat := max 1 (capacity / 2 - 1)

/-! ## Entries of one node -/

def lowerBound (k : K) (entries : List (K × V)) : Nat := Lib.lowerBound Prod.fst k entries

def upperBound (k : K) (entries : List (K × V)) : Nat := Lib.upperBound Prod.fst k entries

/-- `Leaf::insertViaLowerBound`; `none` is `InsertResult::eFull`. -/
def insertEntry (capacity : Nat) (entry : K × V) (entries : List (K × V)) :
    Option (List (K × V)) :=
  let index := lowerBound entry.1 entries
  match entries[index]? with
  | none => if entries.length ≥ capacity then none else some (entries ++ [entry])
  | some e =>
      if e.1 = entry.1 then some (entries.set index (e.1, entry.2))
      else if entries.length ≥ capacity then none
      else some (entries.insertIdx index entry)

def indexOf (k : K) (entries : List (K × V)) : Option Nat :=
  let index := lowerBound k entries
  match entries[index]? with
  | none => none
  | some e => if e.1 = k then some index else none

def containsInNode (k : K) (entries : List (K × V)) : Bool :=
  entries.any fun e => decide (e.1 = k)

/-- The test of an internal node on the way down: the separator before the child is the key. -/
def separatorIs (k : K) (entries : List (K × V)) (index : Nat) : Prop :=
  index ≠ 0 ∧ entries[index - 1]?.map Prod.fst = some k

instance (k : K) (entries : List (K × V)) (index : Nat) : Decidable (separatorIs k entries index) :=
  inferInstanceAs (Decidable (_ ∧ _))

def popBack (entries : List (K × V)) : Except Fault ((K × V) × List (K × V)) :=
  match entries.getLast? with
  | none => .error .bugCheck
  | some e => .ok (e, entries.dropLast)

def popFront (entries : List (K × V)) : Except Fault ((K × V) × List (K × V)) :=
  match entries with
  | [] => .error .bugCheck
  | e :: rest => .ok (e, rest)

/-- Reading `key(index)` and `value(index)`. -/
def entryAt (entries : List (K × V)) (index : Nat) : Except Fault (K × V) :=
  match entries[index]? with
  | none => .error .badAccess
  | some e => .ok e

/-- `Leaf::splitInto`, on the entries of both nodes; the results are those of this node, those of
the other and the midpoint. -/
def splitInto (capacity : Nat) (this other : List (K × V)) (entry : K × V) :
    Except Fault (List (K × V) × List (K × V) × (K × V)) := do
  kmAssert (other.length = 0)
  kmAssert (this.length = capacity)
  kmAssert (indexOf entry.1 this = none)
  let half := capacity / 2
  let middle ← entryAt this half
  let lower := this.take half
  let upper := this.drop half
  let (this, other, midpoint) ←
    if entry.1 < middle.1 then do
      let this := (insertEntry capacity entry lower).getD lower
      let other := (insertEntry capacity middle upper).getD upper
      let (midpoint, this) ← popBack this
      pure (this, other, midpoint)
    else do
      let other := (insertEntry capacity entry upper).getD upper
      let (midpoint, other) ← popFront other
      pure (lower, other, midpoint)
  kmAssert (¬ other.length < minCapacity capacity)
  kmAssert (¬ this.length < minCapacity capacity)
  pure (this, other, midpoint)

end BTree

namespace BTreeMap

open BTree

variable {K V : Type} [LinearOrder K]

/-! ## Memory -/

def deref (m : BTreeMap K V) (id : NodeId) : Except Fault (TreeNode K V) :=
  match m.nodes id with
  | some n => .ok n
  | none => .error .badAccess

def follow (ptr : Option NodeId) : Except Fault NodeId :=
  match ptr with
  | some id => .ok id
  | none => .error .badAccess

def set (m : BTreeMap K V) (id : NodeId) (n : TreeNode K V) : BTreeMap K V :=
  { m with nodes := Function.update m.nodes id (some n) }

def setParent (m : BTreeMap K V) (id : NodeId) (parent : Option NodeId) :
    Except Fault (BTreeMap K V) := do
  let n ← m.deref id
  pure (m.set id { n with parent := parent })

def setParents (m : BTreeMap K V) (ids : List NodeId) (parent : Option NodeId) :
    Except Fault (BTreeMap K V) :=
  ids.foldlM (fun m id => m.setParent id parent) m

/-- `allocateAligned`: a granted request yields the memory of a new node. -/
def allocateMemory (grants : NodeId → Bool) (m : BTreeMap K V) : Option NodeId × BTreeMap K V :=
  (if grants m.next then some m.next else none, { m with next := m.next + 1 })

def allocateNode (grants : NodeId → Bool) (m : BTreeMap K V) (isLeaf : Bool)
    (parent : Option NodeId) : Option NodeId × BTreeMap K V :=
  match m.allocateMemory grants with
  | (some id, m) => (some id, m.set id ⟨isLeaf, parent, [], []⟩)
  | (none, m) => (none, m)

def releaseNodeMemory (m : BTreeMap K V) (id : NodeId) : Except Fault (BTreeMap K V) := do
  let _ ← m.deref id
  pure { m with nodes := Function.update m.nodes id none }

/-- `deleteNode` with `destroyChildren`. -/
def deleteNode : Nat → BTreeMap K V → NodeId → Except Fault (BTreeMap K V)
  | 0, _, _ => .error .outOfFuel
  | fuel + 1, m, id => do
      let n ← m.deref id
      let m ←
        if n.isLeaf then pure m
        else
          (List.range (n.entries.length + 1)).foldlM (fun m i => do
            let child ← follow n.children[i]?
            deleteNode fuel m child) m
      m.releaseNodeMemory id

/-! ## Internal nodes -/

def indexOfChild (n : TreeNode K V) (child : NodeId) : Except Fault Nat :=
  let index := n.children.findIdx (· = child)
  if index = n.children.length then .error .bugCheck else .ok index

/-- `Internal::getLeaf` and `Internal::child`. -/
def getLeaf (n : TreeNode K V) (index : Nat) : Except Fault NodeId := follow n.children[index]?

/-- `Internal::insertChildViaLowerBound`; `false` is `InsertResult::eFull`. -/
def insertChild (capacity : Nat) (m : BTreeMap K V) (this : NodeId) (entry : K × V)
    (leaf : NodeId) : Except Fault (Bool × BTreeMap K V) := do
  let n ← m.deref this
  if n.entries.length ≥ capacity then pure (false, m)
  else do
    let index := lowerBound entry.1 n.entries
    match n.entries[index]? with
    | none => pure ()
    | some e => kmAssert (e.1 ≠ entry.1)
    let m := m.set this { n with
      entries := n.entries.insertIdx index entry
      children := n.children.insertIdx (index + 1) leaf }
    let m ← m.setParent leaf (some this)
    pure (true, m)

/-- `Internal::transferInto`; returns the midpoint. -/
def transferInto (capacity : Nat) (m : BTreeMap K V) (this other : NodeId) :
    Except Fault ((K × V) × BTreeMap K V) := do
  let n ← m.deref this
  let o ← m.deref other
  let half := capacity / 2
  let middle ← entryAt n.entries half
  let m := m.set other { o with
    entries := n.entries.drop (half + 1)
    children := n.children.drop (half + 1) }
  let m ← m.setParents (n.children.drop (half + 1)) (some other)
  let m := m.set this { n with
    entries := n.entries.take half
    children := n.children.take (half + 1) }
  kmAssert (containsInNode middle.1 (n.entries.drop (half + 1)) = false)
  pure (middle, m)

/-- `Internal::splitInternalNode` with `splitIntoUpperHalf` and `splitIntoLowerHalf`. -/
def splitInternal (capacity : Nat) (m : BTreeMap K V) (this other leaf : NodeId) (entry : K × V) :
    Except Fault ((K × V) × BTreeMap K V) := do
  let n ← m.deref this
  let o ← m.deref other
  kmAssert (o.entries.length = 0)
  kmAssert (n.entries.length = capacity)
  kmAssert (n.isLeaf = false)
  kmAssert (o.isLeaf = false)
  let pivot ← entryAt n.entries (capacity / 2)
  let (midpoint, m) ← m.transferInto capacity this other
  let (_, m) ← m.insertChild capacity (if pivot.1 < entry.1 then other else this) entry leaf
  let n ← m.deref this
  let o ← m.deref other
  kmAssert (n.entries.length ≥ capacity / 2 - 1)
  kmAssert (o.entries.length ≥ capacity / 2 - 1)
  pure (midpoint, m)

/-- `Internal::initAsRoot`, on a new node. -/
def initAsRoot (m : BTreeMap K V) (this lhs rhs : NodeId) (entry : K × V) :
    Except Fault (BTreeMap K V) := do
  let n ← m.deref this
  let m := m.set this { n with entries := [entry], children := [lhs, rhs] }
  let m ← m.setParent lhs (some this)
  m.setParent rhs (some this)

/-! ## Insertion -/

/-- `InsertMemoryTracker`: the full internal nodes on the way down and the memory set aside for
splitting them. -/
structure InsertMemoryTracker where
  fullInternalNodes : Nat
  nodes : List NodeId

namespace InsertMemoryTracker

def track (capacity : Nat) (t : InsertMemoryTracker) (n : TreeNode K V) : InsertMemoryTracker :=
  if n.entries.length = capacity then
    if n.parent = none then { t with fullInternalNodes := t.fullInternalNodes + 2 }
    else { t with fullInternalNodes := t.fullInternalNodes + 1 }
  else t

/-- The loop of `allocateMemory`; a refusal gives back what was granted. -/
def allocate (grants : NodeId → Bool) : Nat → List NodeId → BTreeMap K V →
    Option (List NodeId) × BTreeMap K V
  | 0, nodes, m => (some nodes, m)
  | n + 1, nodes, m =>
      match m.allocateMemory grants with
      | (none, m) => (none, m)
      | (some id, m) => allocate grants n (id :: nodes) m

/-- `takeNode`: the memory becomes an internal node with the given parent. -/
def takeNode (t : InsertMemoryTracker) (m : BTreeMap K V) (parent : Option NodeId) :
    Except Fault (NodeId × InsertMemoryTracker × BTreeMap K V) :=
  match t.nodes with
  | [] => .error .bugCheck
  | id :: rest => .ok (id, { t with nodes := rest }, m.set id ⟨false, parent, [], []⟩)

end InsertMemoryTracker

/-- `Common::splitNode`. -/
def splitEntries (capacity : Nat) (m : BTreeMap K V) (node newNode : NodeId) (entry : K × V) :
    Except Fault ((K × V) × BTreeMap K V) := do
  let n ← m.deref node
  let o ← m.deref newNode
  kmAssert (n.isLeaf = o.isLeaf)
  let (this, other, midpoint) ← splitInto capacity n.entries o.entries entry
  pure (midpoint, (m.set node { n with entries := this }).set newNode { o with entries := other })

def splitRootNode (capacity : Nat) (grants : NodeId → Bool) (m : BTreeMap K V) (leaf : NodeId)
    (entry : K × V) : Except Fault (OsStatus × BTreeMap K V) := do
  let n ← m.deref leaf
  let (newRoot, m) := m.allocateNode grants false none
  let (newLeaf, m) := m.allocateNode grants n.isLeaf newRoot
  match newRoot, newLeaf with
  | some newRoot, some newLeaf => do
      let (midpoint, m) ← m.splitEntries capacity leaf newLeaf entry
      let m ← m.initAsRoot newRoot leaf newLeaf midpoint
      pure (.success, { m with rootNode := some newRoot })
  | newRoot, newLeaf => do
      let m ← match newRoot with
        | some id => m.deleteNode (m.next + 1) id
        | none => pure m
      let m ← match newLeaf with
        | some id => m.deleteNode (m.next + 1) id
        | none => pure m
      pure (.outOfMemory, m)

/-- `insertNewLeaf` with `splitInternalNode`, which call each other on the way up. -/
def insertNewLeaf (capacity : Nat) : Nat → BTreeMap K V → InsertMemoryTracker → NodeId → NodeId →
    K × V → Except Fault (InsertMemoryTracker × BTreeMap K V)
  | 0, _, _, _, _, _ => .error .outOfFuel
  | fuel + 1, m, tracker, parent, newLeaf, midpoint => do
      let (inserted, m) ← m.insertChild capacity parent midpoint newLeaf
      if inserted then pure (tracker, m)
      else do
        let p ← m.deref parent
        let (newNode, tracker, m) ← tracker.takeNode m p.parent
        let (midpoint, m) ← m.splitInternal capacity parent newNode newLeaf midpoint
        if some parent = m.rootNode then do
          let (newRoot, tracker, m) ← tracker.takeNode m none
          let m ← m.initAsRoot newRoot parent newNode midpoint
          pure (tracker, { m with rootNode := some newRoot })
        else do
          let p ← m.deref parent
          let grandparent ← follow p.parent
          insertNewLeaf capacity fuel m tracker grandparent newNode midpoint

def splitLeafNode (capacity : Nat) (grants : NodeId → Bool) (m : BTreeMap K V) (leaf : NodeId)
    (entry : K × V) (tracker : InsertMemoryTracker) : Except Fault (OsStatus × BTreeMap K V) := do
  let n ← m.deref leaf
  match InsertMemoryTracker.allocate grants tracker.fullInternalNodes tracker.nodes m with
  | (none, m) => pure (.outOfMemory, m)
  | (some nodes, m) =>
      match m.allocateNode grants n.isLeaf n.parent with
      | (none, m) => pure (.outOfMemory, m)
      | (some newLeaf, m) => do
          let (midpoint, m) ← m.splitEntries capacity leaf newLeaf entry
          let parent ← follow n.parent
          let (_, m) ← m.insertNewLeaf capacity (m.next + 1) { tracker with nodes := nodes } parent
            newLeaf midpoint
          pure (.success, m)

def splitNode (capacity : Nat) (grants : NodeId → Bool) (m : BTreeMap K V) (leaf : NodeId)
    (entry : K × V) (tracker : InsertMemoryTracker) : Except Fault (OsStatus × BTreeMap K V) :=
  if some leaf = m.rootNode then m.splitRootNode capacity grants leaf entry
  else m.splitLeafNode capacity grants leaf entry tracker

def insertInto (capacity : Nat) (grants : NodeId → Bool) : Nat → BTreeMap K V → NodeId → K × V →
    InsertMemoryTracker → Except Fault (OsStatus × BTreeMap K V)
  | 0, _, _, _, _ => .error .outOfFuel
  | fuel + 1, m, node, entry, tracker => do
      let n ← m.deref node
      if n.isLeaf then
        match insertEntry capacity entry n.entries with
        | some entries => pure (.success, m.set node { n with entries := entries })
        | none => m.splitNode capacity grants node entry tracker
      else
        let index := upperBound entry.1 n.entries
        if separatorIs entry.1 n.entries index then
          pure (.success, m.set node { n with
            entries := n.entries.modify (index - 1) fun e => (e.1, entry.2) })
        else do
          let tracker := tracker.track capacity n
          kmAssert (indexOf entry.1 n.entries = none)
          let child ← getLeaf n index
          insertInto capacity grants fuel m child entry tracker

def insert (capacity : Nat) (grants : NodeId → Bool) (m : BTreeMap K V) (key : K) (value : V) :
    Except Fault (OsStatus × BTreeMap K V) :=
  let m :=
    match m.rootNode with
    | some _ => m
    | none =>
        let (root, m) := m.allocateNode grants true none
        { m with rootNode := root }
  match m.rootNode with
  | none => .ok (.outOfMemory, m)
  | some root => m.insertInto capacity grants (m.next + 1) root (key, value) ⟨0, []⟩

/-! ## Lookup -/

/-- `findInNode`: the node that holds the key and its position there. -/
def findInNode : Nat → BTreeMap K V → NodeId → K → Except Fault (Option (NodeId × Nat))
  | 0, _, _, _ => .error .outOfFuel
  | fuel + 1, m, current, key => do
      let n ← m.deref current
      if n.isLeaf then pure ((indexOf key n.entries).map fun index => (current, index))
      else
        let index := upperBound key n.entries
        if separatorIs key n.entries index then pure (some (current, index - 1))
        else do
          let child ← getLeaf n index
          findInNode fuel m child key

/-- `find`; `none` is `end()`. -/
def find (m : BTreeMap K V) (key : K) : Except Fault (Option (NodeId × Nat)) :=
  match m.rootNode with
  | none => .ok none
  | some root => m.findInNode (m.next + 1) root key

/-- `operator*` of an iterator. -/
def entryOf (m : BTreeMap K V) (it : NodeId × Nat) : Except Fault (K × V) := do
  let n ← m.deref it.1
  entryAt n.entries it.2

def nodeContains : Nat → BTreeMap K V → NodeId → K → Except Fault Bool
  | 0, _, _, _ => .error .outOfFuel
  | fuel + 1, m, node, key => do
      let n ← m.deref node
      if n.isLeaf then pure (indexOf key n.entries).isSome
      else
        let index := upperBound key n.entries
        if separatorIs key n.entries index then pure true
        else do
          let child ← getLeaf n index
          nodeContains fuel m child key

def contains (m : BTreeMap K V) (key : K) : Except Fault Bool :=
  match m.rootNode with
  | none => .ok false
  | some root => m.nodeContains (m.next + 1) root key

/-- `countElements`. -/
def countNode : Nat → BTreeMap K V → NodeId → Except Fault Nat
  | 0, _, _ => .error .outOfFuel
  | fuel + 1, m, node => do
      let n ← m.deref node
      if n.isLeaf then pure n.entries.length
      else
        (List.range (n.entries.length + 1)).foldlM (fun count i => do
          let child ← getLeaf n i
          let below ← countNode fuel m child
          pure (count + below)) n.entries.length

def count (m : BTreeMap K V) : Except Fault Nat :=
  match m.rootNode with
  | none => .ok 0
  | some root => m.countNode (m.next + 1) root

def clear (m : BTreeMap K V) : Except Fault (BTreeMap K V) :=
  match m.rootNode with
  | none => .ok m
  | some root => do
      let m ← m.deleteNode (m.next + 1) root
      pure { m with rootNode := none }

/-! ## Rebalancing -/

section Rebalance

variable (capacity : Nat)

def claim (m : BTreeMap K V) (this other : NodeId) : Except Fault (BTreeMap K V) := do
  let n ← m.deref this
  let o ← m.deref other
  kmAssert (o.isLeaf = true)
  kmAssert (o.parent = n.parent)
  kmAssert (n.entries.length + o.entries.length ≤ capacity)
  pure ((m.set this { n with entries := n.entries ++ o.entries }).set other { o with entries := [] })

/-- The result of `Leaf::insert` is discarded. -/
def insertMiddle (m : BTreeMap K V) (this : NodeId) (entry : K × V) :
    Except Fault (BTreeMap K V) := do
  let n ← m.deref this
  pure (m.set this { n with entries := (insertEntry capacity entry n.entries).getD n.entries })

def mergeLeafNodes (m : BTreeMap K V) (this lhs rhs : NodeId) : Except Fault (BTreeMap K V) := do
  let l ← m.deref lhs
  let r ← m.deref rhs
  kmAssert (l.isLeaf = true ∧ r.isLeaf = true)
  kmAssert (l.parent = some this)
  kmAssert (r.parent = some this)
  let n ← m.deref this
  let lhsIndex ← indexOfChild n lhs
  let rhsIndex := lhsIndex + 1
  let middle ← entryAt n.entries lhsIndex
  let m ← m.insertMiddle capacity lhs middle
  let m ← m.claim capacity lhs rhs
  if rhsIndex = n.entries.length then
    pure (m.set this { n with
      entries := n.entries.take (n.entries.length - 1)
      children := n.children.take n.entries.length })
  else do
    let e ← entryAt n.entries rhsIndex
    kmAssert (rhsIndex < n.entries.length)
    pure (m.set this { n with
      entries := (n.entries.set lhsIndex e).eraseIdx rhsIndex
      children := n.children.eraseIdx rhsIndex })

def rebalanceIntoLowerLeafNode (m : BTreeMap K V) (this lhs rhs : NodeId) :
    Except Fault (BTreeMap K V) := do
  let l ← m.deref lhs
  let r ← m.deref rhs
  let n ← m.deref this
  kmAssert (l.isLeaf = true ∧ r.isLeaf = true)
  let lhsIndex ← indexOfChild n lhs
  let middle ← entryAt n.entries lhsIndex
  kmAssert (l.entries.length < minCapacity capacity)
  let itemsToMove := minCapacity capacity - l.entries.length
  let lower := (insertEntry capacity middle l.entries).getD l.entries
  kmAssert (lower.length + itemsToMove ≤ capacity)
  if r.entries.length < itemsToMove then .error .badAccess
  else do
    let (newMiddle, lower) ← popBack (lower ++ r.entries.take itemsToMove)
    let m := m.set lhs { l with entries := lower }
    let m := m.set rhs { r with entries := r.entries.drop itemsToMove }
    pure (m.set this { n with entries := n.entries.set lhsIndex newMiddle })

def rebalanceIntoUpperLeafNode (m : BTreeMap K V) (this lhs rhs : NodeId) :
    Except Fault (BTreeMap K V) := do
  let l ← m.deref lhs
  let r ← m.deref rhs
  let n ← m.deref this
  kmAssert (l.isLeaf = true ∧ r.isLeaf = true)
  let rhsIndex ← indexOfChild n rhs
  if rhsIndex = 0 then .error .badAccess
  else do
    let middle ← entryAt n.entries (rhsIndex - 1)
    -- the subtraction wraps, and `setCount` then fails
    kmAssert (r.entries.length ≤ minCapacity capacity)
    let itemsToMove := minCapacity capacity - r.entries.length
    let upper := (insertEntry capacity middle r.entries).getD r.entries
    kmAssert (upper.length + itemsToMove ≤ capacity)
    if l.entries.length < itemsToMove then .error .badAccess
    else do
      let keep := l.entries.length - itemsToMove
      let (newMiddle, upper) ← popFront (l.entries.drop keep ++ upper)
      let m := m.set rhs { r with entries := upper }
      let m := m.set lhs { l with entries := l.entries.take keep }
      pure (m.set this { n with entries := n.entries.set (rhsIndex - 1) newMiddle })

def rebalanceLeafNodes (m : BTreeMap K V) (this lhs rhs : NodeId) :
    Except Fault (BTreeMap K V) := do
  let l ← m.deref lhs
  let r ← m.deref rhs
  kmAssert (l.isLeaf = true ∧ r.isLeaf = true)
  if l.entries.length < r.entries.length then m.rebalanceIntoLowerLeafNode capacity this lhs rhs
  else m.rebalanceIntoUpperLeafNode capacity this lhs rhs

def claimInternal (m : BTreeMap K V) (this other : NodeId) (entry : K × V) :
    Except Fault (BTreeMap K V) := do
  let n ← m.deref this
  let o ← m.deref other
  kmAssert (o.isLeaf = false)
  kmAssert (o.parent = n.parent)
  kmAssert (n.entries.length + o.entries.length + 1 ≤ capacity)
  let m := m.set this { n with
    entries := n.entries ++ entry :: o.entries
    children := n.children ++ o.children }
  let m := m.set other { o with entries := [], children := o.children.take 1 }
  m.setParents o.children (some this)

def mergeInternalNodes (m : BTreeMap K V) (this lhs rhs : NodeId) :
    Except Fault (BTreeMap K V) := do
  let l ← m.deref lhs
  let r ← m.deref rhs
  kmAssert (l.isLeaf = false ∧ r.isLeaf = false)
  let n ← m.deref this
  let lhsIndex ← indexOfChild n lhs
  kmAssert (l.entries.length + r.entries.length ≥ minCapacity capacity)
  let middle ← entryAt n.entries lhsIndex
  let m ← m.claimInternal capacity lhs rhs middle
  let m := m.set this { n with
    entries := n.entries.eraseIdx lhsIndex
    children := n.children.eraseIdx (lhsIndex + 1) }
  m.releaseNodeMemory rhs

def rebalanceIntoLowerInternalNode (m : BTreeMap K V) (this lhs rhs : NodeId) (midpoint : Nat) :
    Except Fault (BTreeMap K V) := do
  let n ← m.deref this
  let l ← m.deref lhs
  let r ← m.deref rhs
  let middle ← entryAt n.entries midpoint
  -- the subtraction wraps, and `setCount` then fails
  kmAssert (l.entries.length < minCapacity capacity)
  let itemsToMove := minCapacity capacity - l.entries.length
  kmAssert (l.entries.length + itemsToMove ≤ capacity)
  if r.entries.length < itemsToMove then .error .badAccess
  else do
    let newMiddle ← entryAt r.entries 0
    let m := m.set lhs { l with
      entries := l.entries ++ (r.entries.take (itemsToMove - 1) ++ [middle])
      children := l.children ++ r.children.take itemsToMove }
    let m ← m.setParents (r.children.take itemsToMove) (some lhs)
    let m := m.set rhs { r with
      entries := r.entries.drop itemsToMove
      children := r.children.drop itemsToMove }
    pure (m.set this { n with entries := n.entries.set midpoint newMiddle })

def rebalanceIntoUpperInternalNode (m : BTreeMap K V) (this lhs rhs : NodeId) (midpoint : Nat) :
    Except Fault (BTreeMap K V) := do
  let n ← m.deref this
  let l ← m.deref lhs
  let r ← m.deref rhs
  let middle ← entryAt n.entries midpoint
  kmAssert (r.entries.length < minCapacity capacity)
  let itemsToMove := minCapacity capacity - r.entries.length
  kmAssert (r.entries.length + itemsToMove ≤ capacity)
  if l.entries.length < itemsToMove then .error .badAccess
  else do
    let remaining := itemsToMove - 1
    let keep := l.entries.length - itemsToMove
    let newMiddle ← entryAt l.entries (l.entries.length - 1)
    let m := m.set rhs { r with
      entries := l.entries.drop (l.entries.length - remaining) ++ middle :: r.entries
      children := l.children.drop (l.children.length - itemsToMove) ++ r.children }
    let m ← m.setParents (l.children.drop (l.children.length - itemsToMove)) (some rhs)
    let m := m.set lhs { l with
      entries := l.entries.take keep
      children := l.children.take (keep + 1) }
    pure (m.set this { n with entries := n.entries.set midpoint newMiddle })

def rebalanceInternalNodes (m : BTreeMap K V) (this lhs rhs : NodeId) :
    Except Fault (BTreeMap K V) := do
  let l ← m.deref lhs
  let r ← m.deref rhs
  kmAssert (l.isLeaf = false ∧ r.isLeaf = false)
  let n ← m.deref this
  let lhsIndex ← indexOfChild n lhs
  kmAssert (l.entries.length + r.entries.length ≥ minCapacity capacity * 2)
  if l.entries.length < r.entries.length then
    m.rebalanceIntoLowerInternalNode capacity this lhs rhs lhsIndex
  else m.rebalanceIntoUpperInternalNode capacity this lhs rhs lhsIndex

def rebalanceOrMergeInternal (m : BTreeMap K V) (lhs rhs : NodeId) :
    Except Fault (BTreeMap K V) := do
  let l ← m.deref lhs
  let r ← m.deref rhs
  kmAssert (l.isLeaf = false ∧ r.isLeaf = false)
  kmAssert (l.parent = r.parent)
  if ¬ l.entries.length < minCapacity capacity ∧ ¬ r.entries.length < minCapacity capacity then
    pure m
  else do
    let parent ← follow l.parent
    if l.entries.length + r.entries.length ≥ minCapacity capacity * 2 then
      m.rebalanceInternalNodes capacity parent lhs rhs
    else m.mergeInternalNodes capacity parent lhs rhs

def rebalanceOrMergeLeaf (m : BTreeMap K V) (lhs rhs : NodeId) : Except Fault (BTreeMap K V) := do
  let l ← m.deref lhs
  let r ← m.deref rhs
  kmAssert (l.isLeaf = true ∧ r.isLeaf = true)
  kmAssert (l.parent = r.parent)
  if ¬ l.entries.length < minCapacity capacity ∧ ¬ r.entries.length < minCapacity capacity then
    pure m
  else do
    let parent ← follow l.parent
    kmAssert (l.entries.length + r.entries.length ≥ minCapacity capacity)
    if l.entries.length + r.entries.length ≥ minCapacity capacity * 2 then
      m.rebalanceLeafNodes capacity parent lhs rhs
    else do
      let m ← m.mergeLeafNodes capacity parent lhs rhs
      m.deleteNode (m.next + 1) rhs

/-- The sibling a node is rebalanced with: the one before it, or the next for the first child. -/
def adjacentPair (m : BTreeMap K V) (node : NodeId) : Except Fault (NodeId × NodeId) := do
  let c ← m.deref node
  let parent ← follow c.parent
  let n ← m.deref parent
  let index ← indexOfChild n node
  if index = 0 then do
    let adjacent ← getLeaf n 1
    pure (node, adjacent)
  else do
    let adjacent ← getLeaf n (index - 1)
    pure (adjacent, node)

def rebalanceInnerLeafNode (m : BTreeMap K V) (node : NodeId) : Except Fault (BTreeMap K V) := do
  let (lhs, rhs) ← m.adjacentPair node
  m.rebalanceOrMergeLeaf capacity lhs rhs

def rebalanceInnerInternalNode (m : BTreeMap K V) (node : NodeId) :
    Except Fault (BTreeMap K V) := do
  let (lhs, rhs) ← m.adjacentPair node
  m.rebalanceOrMergeInternal capacity lhs rhs

/-- The tail of `mergeRootNodeIfNeeded`: the left child takes the place of the root. -/
def promoteRoot (m : BTreeMap K V) (root child : NodeId) : Except Fault (BTreeMap K V) := do
  let m ← m.setParent child none
  let m := { m with rootNode := some child }
  m.releaseNodeMemory root

def mergeRootNodeIfNeeded (m : BTreeMap K V) (node : NodeId) : Except Fault (BTreeMap K V) := do
  let n ← m.deref node
  if n.entries.length = 0 then
    if n.isLeaf then do
      kmAssert (m.rootNode = some node)
      { m with rootNode := none }.releaseNodeMemory node
    else do
      let child ← getLeaf n 0
      m.promoteRoot node child
  else if n.entries.length = 1 ∧ n.isLeaf = false then do
    let lhs ← getLeaf n 0
    let rhs ← getLeaf n 1
    let l ← m.deref lhs
    let r ← m.deref rhs
    kmAssert (l.isLeaf = r.isLeaf)
    if l.isLeaf then
      if l.entries.length + r.entries.length < capacity then do
        let m ← m.mergeLeafNodes capacity node lhs rhs
        let m ← m.promoteRoot node lhs
        m.releaseNodeMemory rhs
      else pure m
    else
      if (l.entries.length + 1) + (r.entries.length + 1) ≤ capacity + 1 then do
        let m ← m.mergeInternalNodes capacity node lhs rhs
        m.promoteRoot node lhs
      else pure m
  else pure m

/-- `mergeInnerNodeIfNeeded`; returns the node to go on with. -/
def mergeInnerNodeIfNeeded (m : BTreeMap K V) (node : NodeId) :
    Except Fault (Option NodeId × BTreeMap K V) := do
  let n ← m.deref node
  if ¬ n.entries.length < minCapacity capacity then pure (n.parent, m)
  else if n.parent = none then do
    let m ← m.mergeRootNodeIfNeeded capacity node
    pure (none, m)
  else do
    let m ← m.rebalanceInnerInternalNode capacity node
    pure (n.parent, m)

def mergeRecursive : Nat → BTreeMap K V → Option NodeId → Except Fault (BTreeMap K V)
  | _, m, none => .ok m
  | 0, _, some _ => .error .outOfFuel
  | fuel + 1, m, some parent => do
      let (parent, m) ← m.mergeInnerNodeIfNeeded capacity parent
      mergeRecursive fuel m parent

end Rebalance

/-! ## Erasing -/

/-- `promoteBack`: the largest entry below a node, and the leaf it came from. -/
def promoteBack : Nat → BTreeMap K V → NodeId → Except Fault ((K × V) × NodeId × BTreeMap K V)
  | 0, _, _ => .error .outOfFuel
  | fuel + 1, m, node => do
      let n ← m.deref node
      kmAssert (n.entries.length > 0)
      if n.isLeaf then do
        let (entry, entries) ← popBack n.entries
        pure (entry, node, m.set node { n with entries := entries })
      else do
        let child ← getLeaf n n.entries.length
        promoteBack fuel m child

/-- `eraseFromRootLeafNode` and `eraseFromInnerLeafNode`. -/
def eraseFromLeafNode (isRoot : Bool) (m : BTreeMap K V) (it : NodeId × Nat) :
    Except Fault (NodeId × BTreeMap K V) := do
  let n ← m.deref it.1
  kmAssert (n.parent.isNone = isRoot ∧ n.isLeaf = true)
  pure (it.1, m.set it.1 { n with entries := n.entries.eraseIdx it.2 })

/-- `eraseFromRootInternalNode` and `eraseFromInnerInternalNode`. -/
def eraseFromInternalNode (isRoot : Bool) (m : BTreeMap K V) (it : NodeId × Nat) :
    Except Fault (NodeId × BTreeMap K V) := do
  let n ← m.deref it.1
  kmAssert (n.parent.isNone = isRoot ∧ n.isLeaf = false)
  let child ← getLeaf n it.2
  let (entry, leaf, m) ← m.promoteBack (m.next + 1) child
  let n ← m.deref it.1
  pure (leaf, m.set it.1 { n with entries := n.entries.set it.2 entry })

def eraseFromRootLeafNode (m : BTreeMap K V) (it : NodeId × Nat) := m.eraseFromLeafNode true it
def eraseFromInnerLeafNode (m : BTreeMap K V) (it : NodeId × Nat) := m.eraseFromLeafNode false it
def eraseFromRootInternalNode (m : BTreeMap K V) (it : NodeId × Nat) :=
  m.eraseFromInternalNode true it
def eraseFromInnerInternalNode (m : BTreeMap K V) (it : NodeId × Nat) :=
  m.eraseFromInternalNode false it

/-- `eraseNodeElement` with `eraseFromRootNode` and `eraseFromInnerNode`; returns the leaf that
lost an entry. -/
def eraseNodeElement (m : BTreeMap K V) (it : NodeId × Nat) :
    Except Fault (NodeId × BTreeMap K V) := do
  let n ← m.deref it.1
  if n.parent = none then
    if n.isLeaf then m.eraseFromRootLeafNode it else m.eraseFromRootInternalNode it
  else
    if n.isLeaf then m.eraseFromInnerLeafNode it else m.eraseFromInnerInternalNode it

def eraseFromNode (capacity : Nat) (m : BTreeMap K V) (it : NodeId × Nat) :
    Except Fault (BTreeMap K V) := do
  let (node, m) ← m.eraseNodeElement it
  let n ← m.deref node
  kmAssert (n.isLeaf = true)
  match n.parent with
  | some parent => do
      let m ← m.rebalanceInnerLeafNode capacity node
      m.mergeRecursive capacity (m.next + 1) (some parent)
  | none => m.mergeRootNodeIfNeeded capacity node

/-- `erase`; `none` is `end()`. -/
def erase (capacity : Nat) (m : BTreeMap K V) (it : Option (NodeId × Nat)) :
    Except Fault (BTreeMap K V) :=
  match it with
  | none => .ok m
  | some it => m.eraseFromNode capacity it

def remove (capacity : Nat) (m : BTreeMap K V) (key : K) : Except Fault (BTreeMap K V) := do
  let it ← m.find key
  m.erase capacity it

end BTreeMap
end BezOS
