import Mathlib.Logic.Function.Basic
import BezOS.Fs.Path
import BezOS.Status
import BezOS.Lib.Transition

/-!
# The virtual file system

`vfs::VfsRoot` of `fs/vfs.cpp` over the nodes of `fs/ramfs.cpp` and `fs/folder.cpp`, as its calls
run one after the other. Nodes are known by their identity; a node that no folder holds stays in
the store, where nothing finds it. Memory does not run out.
-/

namespace BezOS
namespace Vfs

abbrev NodeId := Nat

inductive NodeKind
  | file
  | folder
  deriving DecidableEq

inductive Interface
  | identify
  | file
  | folder
  | iterator
  | other (uuid : Nat)
  deriving DecidableEq

structure INode (D : Type) where
  kind : NodeKind
  data : D
  mParent : Option NodeId
  mName : VfsString
  mChildren : List (VfsString × NodeId)

/-- `kFileInterfaceList` and `kFolderInterfaceList`. -/
def interfaceList : NodeKind → List Interface
  | .file => [.identify, .file]
  | .folder => [.identify, .folder, .iterator]

/-- `ServiceQuery` over the interfaces of the node. -/
def INode.query {D : Type} (node : INode D) (uuid : Interface) : OsStatus :=
  if uuid ∈ interfaceList node.kind then .success else .interfaceNotSupported

/-! ## Folders -/

structure NodeStore (D : Type) where
  nodes : NodeId → INode D
  next : NodeId

namespace NodeStore

variable {D : Type} (s : NodeStore D)

/-- `OpenFolderInterface`, and `queryFolder`. -/
def openFolder (node : NodeId) : Except OsStatus Unit :=
  match (s.nodes node).query .folder with
  | .success => .ok ()
  | status => .error status

def lookup (folder : NodeId) (name : VfsString) : Except OsStatus NodeId :=
  match (s.nodes folder).mChildren.lookup name with
  | some child => .ok child
  | none => .error .notFound

def setNode (id : NodeId) (node : INode D) : NodeStore D :=
  { s with nodes := Function.update s.nodes id node }

/-- `FolderMixin::mknode` of a node just made: it gets its name and its parent, and the folder gets
the node. -/
def mknode (folder : NodeId) (name : VfsString) (child : INode D) :
    Except OsStatus (NodeId × NodeStore D) :=
  match (s.nodes folder).mChildren.lookup name with
  | some _ => .error .alreadyExists
  | none =>
      let s1 := s.setNode s.next { child with mParent := some folder, mName := name }
      let s2 := s1.setNode folder
        { s.nodes folder with mChildren := (name, s.next) :: (s.nodes folder).mChildren }
      .ok (s.next, { s2 with next := s.next + 1 })

/-- `FolderMixin::rmnode`: the child is found by the name it has. -/
def rmnode (folder child : NodeId) : OsStatus × NodeStore D :=
  let name := (s.nodes child).mName
  match (s.nodes folder).mChildren.lookup name with
  | none => (.notFound, s)
  | some _ => (.success, s.setNode folder
      { s.nodes folder with mChildren := (s.nodes folder).mChildren.filter fun c => c.1 ≠ name })

/-- The loop of `lookupUnlocked`. -/
def lookupFrom (s : NodeStore D) : NodeId → List VfsString → Except OsStatus NodeId
  | current, [] => .ok current
  | current, segment :: rest =>
      match (s.nodes current).query .folder with
      | .success => do
          let child ← s.lookup current segment
          lookupFrom s child rest
      | .notSupported => .error .traverseNonFolder
      | status => .error status

/-- `RamFsMount::mkdir` and `RamFsMount::create`. -/
def make [Inhabited D] (kind : NodeKind) (parent : NodeId) (name : VfsString) :
    Except OsStatus (NodeId × NodeStore D) := do
  s.openFolder parent
  s.mknode parent name ⟨kind, default, some parent, name, []⟩

/-- The loop of `mkpath`. -/
def mkpathFrom [Inhabited D] (s : NodeStore D) (current : NodeId) :
    List VfsString → Except OsStatus NodeId × NodeStore D
  | [] => (.ok current, s)
  | segment :: rest =>
      match (s.nodes current).query .folder with
      | .success =>
          match s.lookup current segment with
          | .ok child => mkpathFrom s child rest
          | .error .notFound =>
              match s.make .folder current segment with
              | .ok (child, s) => mkpathFrom s child rest
              | .error status => (.error status, s)
          | .error status => (.error status, s)
      | .interfaceNotSupported => (.error .traverseNonFolder, s)
      | status => (.error status, s)

end NodeStore

/-! ## The root -/

structure VfsRoot where
  store : NodeStore Unit
  mRootNode : NodeId

/-- What a call hands back: a status, or success and a node. -/
abbrev Reply := Except OsStatus (Option NodeId)

namespace VfsRoot

def empty : VfsRoot := ⟨⟨fun _ => ⟨.folder, (), none, [], []⟩, 1⟩, 0⟩

variable (v : VfsRoot)

def lookupUnlocked (path : VfsString) : Except OsStatus NodeId :=
  v.store.lookupFrom v.mRootNode (segments path)

def walk (path : VfsString) : Except OsStatus NodeId :=
  if segmentCount path = 1 then .ok v.mRootNode
  else v.lookupUnlocked (parent path)

def create (path : VfsString) : Except OsStatus (NodeId × VfsRoot) := do
  let parent ← v.walk path
  let (child, store) ← v.store.make .file parent (name path)
  pure (child, { v with store := store })

def mkdir (path : VfsString) : Except OsStatus (NodeId × VfsRoot) := do
  let parent ← v.walk path
  v.store.openFolder parent
  let (child, store) ← v.store.make .folder parent (name path)
  pure (child, { v with store := store })

def mkpath (path : VfsString) : Except OsStatus NodeId × VfsRoot :=
  let (result, store) := v.store.mkpathFrom v.mRootNode (segments path)
  (result, { v with store := store })

/-- `remove` and `rmdir`, which differ in the interface they ask for. -/
def removeOf (interface : Interface) (node : NodeId) : Except Fault (OsStatus × VfsRoot) :=
  match (v.store.nodes node).mParent with
  | none => .error .bugCheck
  | some parent =>
      if (v.store.nodes node).query interface ≠ .success then .ok (.invalidType, v)
      else match v.store.openFolder parent with
        | .error status => .ok (status, v)
        | .ok () =>
            let (status, store) := v.store.rmnode parent node
            .ok (status, { v with store := store })

def remove (node : NodeId) : Except Fault (OsStatus × VfsRoot) := v.removeOf .file node

def rmdir (node : NodeId) : Except Fault (OsStatus × VfsRoot) := v.removeOf .folder node

/-- The node whose handle is handed back. -/
def device (path : VfsString) (interface : Interface) : Except OsStatus NodeId :=
  let query node : Except OsStatus NodeId :=
    match (v.store.nodes node).query interface with
    | .success => .ok node
    | status => .error status
  if segmentCount path = 0 then query v.mRootNode
  else do
    let parent ← v.walk path
    v.store.openFolder parent
    let device ← v.store.lookup parent (name path)
    query device

end VfsRoot

/-! ## Calls by path -/

inductive VfsCall
  | create (path : VfsPath)
  | mkdir (path : VfsPath)
  | mkpath (path : VfsPath)
  | remove (path : VfsPath)
  | rmdir (path : VfsPath)
  | lookup (path : VfsPath)
  | device (path : VfsPath) (interface : Interface)

namespace VfsRoot

variable (v : VfsRoot)

/-- `create` or `mkdir`, which leave the tree as it is if they fail. -/
def replyMade : Except OsStatus (NodeId × VfsRoot) → Reply × VfsRoot
  | .ok (node, v') => (.ok (some node), v')
  | .error status => (.error status, v)

/-- `remove` or `rmdir` of the node found at a path. -/
def removeAt (removal : NodeId → Except Fault (OsStatus × VfsRoot)) (path : VfsPath) :
    Except Fault (Reply × VfsRoot) :=
  match v.lookupUnlocked path.text with
  | .error status => .ok (.error status, v)
  | .ok node => do
      let (status, v) ← removal node
      pure (if status = .success then .ok none else .error status, v)

def serve : VfsCall → Except Fault (Reply × VfsRoot)
  | .create path => .ok (v.replyMade (v.create path.text))
  | .mkdir path => .ok (v.replyMade (v.mkdir path.text))
  | .mkpath path =>
      let (result, v) := v.mkpath path.text
      .ok (result.map some, v)
  | .remove path => v.removeAt v.remove path
  | .rmdir path => v.removeAt v.rmdir path
  | .lookup path => .ok ((v.lookupUnlocked path.text).map some, v)
  | .device path interface => .ok ((v.device path.text interface).map some, v)

end VfsRoot

end Vfs
end BezOS

/-!
## The tree behind the file system

What the file system is for: a tree of named folders and files, given by what is at each path. The
nodes of the store are such a tree, and the calls of `VfsRoot` are calls on it, as long as no path
runs through a file (whose status `lookupUnlocked` and the other walks do not translate) and none
of the calls that make or remove a node is given the root.
-/

namespace BezOS
namespace Vfs

open Lib List Option

/-! ## The plain tree -/

structure FsTree where
  entries : List VfsString → Option (NodeKind × NodeId)
  next : NodeId

namespace FsTree

def empty : FsTree := ⟨fun path => if path = [] then some (.folder, 0) else none, 1⟩

variable (t : FsTree)

def resolveFrom (t : FsTree) (front : List VfsString) :
    List VfsString → Except OsStatus (NodeKind × NodeId)
  | [] =>
      match t.entries front with
      | none => .error .notFound
      | some entry => .ok entry
  | name :: rest =>
      match t.entries front with
      | none => .error .notFound
      | some (.file, _) => .error .traverseNonFolder
      | some (.folder, _) => resolveFrom t (front ++ [name]) rest

def resolve (path : List VfsString) : Except OsStatus (NodeKind × NodeId) := t.resolveFrom [] path

def insert (kind : NodeKind) (path : List VfsString) : FsTree :=
  ⟨Function.update t.entries path (some (kind, t.next)), t.next + 1⟩

def prune (path : List VfsString) : FsTree :=
  { t with entries := fun q => if path <+: q then none else t.entries q }

def make (kind : NodeKind) (path : List VfsString) : Reply × FsTree :=
  if path = [] then (.error .alreadyExists, t)
  else match t.resolve path.dropLast with
    | .error status => (.error status, t)
    | .ok (.file, _) => (.error .traverseNonFolder, t)
    | .ok (.folder, _) =>
        match t.entries path with
        | some _ => (.error .alreadyExists, t)
        | none => (.ok (some t.next), t.insert kind path)

def ensure (path : List VfsString) : FsTree :=
  match t.entries path with
  | some _ => t
  | none => t.insert .folder path

def mkpathFrom (t : FsTree) (front : List VfsString) : List VfsString → Reply × FsTree
  | [] =>
      match t.entries front with
      | none => (.error .notFound, t)
      | some (_, node) => (.ok (some node), t)
  | name :: rest =>
      match t.entries front with
      | none => (.error .notFound, t)
      | some (.file, _) => (.error .traverseNonFolder, t)
      | some (.folder, _) => mkpathFrom (t.ensure (front ++ [name])) (front ++ [name]) rest

def remove (kind : NodeKind) (path : List VfsString) : Reply × FsTree :=
  match t.resolve path with
  | .error status => (.error status, t)
  | .ok (found, _) =>
      if found ≠ kind then (.error .invalidType, t)
      else if path = [] then (.error .invalidInput, t)
      else (.ok none, t.prune path)

def device (path : List VfsString) (interface : Interface) : Reply :=
  match t.resolve path with
  | .error status => .error status
  | .ok (kind, node) =>
      if interface ∈ interfaceList kind then .ok (some node) else .error .interfaceNotSupported

def serve : VfsCall → Reply × FsTree
  | .create path => t.make .file path.names
  | .mkdir path => t.make .folder path.names
  | .mkpath path => t.mkpathFrom [] path.names
  | .remove path => t.remove .file path.names
  | .rmdir path => t.remove .folder path.names
  | .lookup path => ((t.resolve path.names).map fun entry => some entry.2, t)
  | .device path interface => (t.device path.names interface, t)

/-- No folder is missing on the way but a file stands there: the path does not run through one. -/
def Clear (path : List VfsString) : Prop :=
  ∀ i < path.length, (t.entries (path.take i)).map Prod.fst ≠ some .file

instance (path : List VfsString) : Decidable (t.Clear path) :=
  inferInstanceAs (Decidable (∀ i < path.length, _))

lemma resolveFrom_ok {t : FsTree} {front path : List VfsString} {entry : NodeKind × NodeId}
    (h : t.resolveFrom front path = .ok entry) : t.entries (front ++ path) = some entry := by
  induction path generalizing front with
  | nil =>
    rw [resolveFrom] at h
    rw [append_nil]
    split at h
    · cases h
    · rename_i heq
      rw [heq, Except.ok.inj h]
  | cons name rest ih =>
    rw [resolveFrom] at h
    split at h
    · cases h
    · cases h
    · have := ih h
      rwa [append_assoc] at this

lemma resolveFrom_concat (t : FsTree) (front rest : List VfsString) (name : VfsString) :
    t.resolveFrom front (rest ++ [name]) =
      match t.resolveFrom front rest with
      | .error status => .error status
      | .ok (.file, _) => .error .traverseNonFolder
      | .ok (.folder, _) => t.resolveFrom (front ++ rest ++ [name]) [] := by
  induction rest generalizing front with
  | nil =>
    simp only [nil_append, append_nil, resolveFrom]
    rcases t.entries front with - | ⟨kind, n⟩
    · rfl
    · cases kind <;> rfl
  | cons a rest ih =>
    rw [cons_append]
    simp only [resolveFrom] at ih ⊢
    rcases t.entries front with - | ⟨kind, n⟩
    · rfl
    · cases kind with
      | file => rfl
      | folder =>
        simp [ih (front ++ [a])]

end FsTree

/-! ## The tree of the nodes -/

namespace NodeStore

variable {D : Type} (s : NodeStore D)

def child (node : NodeId) (name : VfsString) : Option NodeId := (s.nodes node).mChildren.lookup name

def descend (s : NodeStore D) : NodeId → List VfsString → Option NodeId
  | node, [] => some node
  | node, name :: rest => (s.child node name).bind fun child => s.descend child rest

lemma descend_append (node : NodeId) (front rest : List VfsString) :
    s.descend node (front ++ rest) = (s.descend node front).bind fun n => s.descend n rest := by
  induction front generalizing node with
  | nil => rfl
  | cons name front ih =>
    rw [cons_append, descend, descend]
    cases s.child node name with
    | none => rfl
    | some child => exact ih child

lemma descend_concat (node : NodeId) (front : List VfsString) (name : VfsString) :
    s.descend node (front ++ [name]) = (s.descend node front).bind fun n => s.child n name := by
  rw [descend_append]
  congr 1
  funext n
  rw [descend]
  cases s.child n name <;> rfl

/-- The nodes form a tree: a child knows its folder and the name it has there. -/
structure WellFormed (root : NodeId) : Prop where
  root_parent : (s.nodes root).mParent = none
  root_folder : (s.nodes root).kind = .folder
  root_lt : root < s.next
  child_parent : ∀ n a c, s.child n a = some c → (s.nodes c).mParent = some n
  child_name : ∀ n a c, s.child n a = some c → (s.nodes c).mName = a
  child_lt : ∀ n a c, s.child n a = some c → c < s.next
  file_leaf : ∀ n a, (s.nodes n).kind = .file → s.child n a = none

variable {s} {root : NodeId}

namespace WellFormed

lemma lt_next (h : s.WellFormed root) {path : List VfsString} {n : NodeId}
    (hn : s.descend root path = some n) : n < s.next := by
  rcases eq_nil_or_concat path with rfl | ⟨front, a, rfl⟩
  · obtain rfl := Option.some.inj hn
    exact h.root_lt
  · rw [concat_eq_append, descend_concat] at hn
    obtain ⟨m, -, hm⟩ := bind_eq_some_iff.1 hn
    exact h.child_lt m a n hm

lemma path_unique (h : s.WellFormed root) {p q : List VfsString} {n : NodeId}
    (hp : s.descend root p = some n) (hq : s.descend root q = some n) : p = q := by
  induction p using reverseRecOn generalizing q n with
  | nil =>
    obtain rfl := Option.some.inj hp
    rcases eq_nil_or_concat q with rfl | ⟨front, a, rfl⟩
    · rfl
    · -- the root has no parent, so it is no child
      rw [concat_eq_append, descend_concat] at hq
      obtain ⟨m, -, hm⟩ := bind_eq_some_iff.1 hq
      have := h.child_parent m a root hm
      rw [h.root_parent] at this
      cases this
  | append_singleton p a ih =>
    rw [descend_concat] at hp
    obtain ⟨m, hm, hn⟩ := bind_eq_some_iff.1 hp
    rcases eq_nil_or_concat q with rfl | ⟨front, b, rfl⟩
    · obtain rfl := Option.some.inj hq
      have := h.child_parent m a root hn
      rw [h.root_parent] at this
      cases this
    · rw [concat_eq_append, descend_concat] at hq
      obtain ⟨m', hm', hn'⟩ := bind_eq_some_iff.1 hq
      have hname : a = b := (h.child_name m a n hn).symm.trans (h.child_name m' b n hn')
      have hparent : some m = some m' :=
        (h.child_parent m a n hn).symm.trans (h.child_parent m' b n hn')
      obtain rfl := Option.some.inj hparent
      rw [concat_eq_append, ih hm hm', hname]

end WellFormed

end NodeStore

end Vfs
end BezOS
