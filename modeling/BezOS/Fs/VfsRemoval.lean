import BezOS.Fs.VfsRefinement

/-!
# Removal by reference

`remove` and `rmdir` are given a node, not a path: a reference to it may outlive its entry in the
folder, and the folder itself. The parent of a node is a weak pointer, which locks while the parent
is alive; the parent then forgets the name of the node, whatever node has that name by now.
-/

namespace BezOS
namespace Vfs

open Lib NodeStore VfsSession

namespace VfsRoot

variable (v : VfsRoot) (alive : NodeId → Bool) (interface : Interface) (node : NodeId)

/-- `nInfo.parent.lock()`. -/
def lockParent : Option NodeId := (v.store.nodes node).mParent.filter alive

/-- `remove`, which asks for the file interface, and `rmdir`, which asks for the folder interface,
when the nodes given by `alive` are alive. -/
def removeNode : Except Fault (OsStatus × VfsRoot) :=
  match v.lockParent alive node with
  -- `KM_CHECK(parent != nullptr)`
  | none => .error .bugCheck
  | some parent =>
      if (v.store.nodes node).query interface ≠ .success then .ok (.invalidType, v)
      else match v.store.openFolder parent with
        | .error status => .ok (status, v)
        | .ok () =>
            let (status, store) := v.store.rmnode parent node
            .ok (status, { v with store := store })

/-- The node leaves its folder and every other entry stays, or a status tells that the tree is as it
was. -/
def RemovesExactly : Prop :=
  ∃ status v', v.removeNode alive interface node = .ok (status, v') ∧
    if status = .success then
      v'.mRootNode = v.mRootNode ∧ ∃ parent, (v.store.nodes node).mParent = some parent ∧
        v.store.child parent (v.store.nodes node).mName = some node ∧
        v.store.Removed parent (v.store.nodes node).mName v'.store
    else v' = v

/-- The parent is alive, and if the node has the right type and the parent is a folder, then no
other node has the name of the node there. -/
def Removable : Prop :=
  ∃ parent, (v.store.nodes node).mParent = some parent ∧ alive parent = true ∧
    ((v.store.nodes node).query interface = .success → (v.store.nodes parent).kind = .folder →
      ∀ other, v.store.child parent (v.store.nodes node).mName = some other → other = node)

variable {v alive interface node} {parent : NodeId}

lemma lockParent_eq_some :
    v.lockParent alive node = some parent ↔
      (v.store.nodes node).mParent = some parent ∧ alive parent = true := by
  rw [lockParent, Option.filter_eq_some_iff]

lemma removeNode_of_lock (hlock : v.lockParent alive node = some parent) :
    v.removeNode alive interface node =
      if (v.store.nodes node).query interface ≠ .success then .ok (.invalidType, v)
      else if (v.store.nodes parent).kind = .folder then
        .ok ((v.store.rmnode parent node).1, { v with store := (v.store.rmnode parent node).2 })
      else .ok (.interfaceNotSupported, v) := by
  simp only [removeNode, hlock]
  by_cases hquery : (v.store.nodes node).query interface ≠ .success
  · rw [if_pos hquery, if_pos hquery]
  · rw [if_neg hquery, if_neg hquery]
    cases hkind : (v.store.nodes parent).kind with
    | folder =>
      rw [openFolder_folder hkind]
      rfl
    | file =>
      have hopen : v.store.openFolder parent = .error .interfaceNotSupported := by
        rw [openFolder, INode.query, hkind]
        rfl
      rw [hopen]
      rfl

lemma rmnode_of_none (hchild : v.store.child parent (v.store.nodes node).mName = none) :
    v.store.rmnode parent node = (.notFound, v.store) := by
  rw [child] at hchild
  rw [rmnode, hchild]

lemma rmnode_of_some {other : NodeId}
    (hchild : v.store.child parent (v.store.nodes node).mName = some other) :
    (v.store.rmnode parent node).1 = .success := by
  rw [child] at hchild
  rw [rmnode, hchild]

lemma removesExactly_of_removable (h : v.Removable alive interface node) :
    v.RemovesExactly alive interface node := by
  obtain ⟨parent, hparent, halive, hsame⟩ := h
  have hremove := @removeNode_of_lock v alive interface node parent
    (lockParent_eq_some.2 ⟨hparent, halive⟩)
  by_cases hquery : (v.store.nodes node).query interface = .success
  · by_cases hfolder : (v.store.nodes parent).kind = .folder
    · rw [if_neg (not_not.2 hquery), if_pos hfolder] at hremove
      cases hchild : v.store.child parent (v.store.nodes node).mName with
      | none =>
        rw [rmnode_of_none hchild] at hremove
        exact ⟨_, _, hremove, rfl⟩
      | some other =>
        obtain rfl := hsame hquery hfolder other hchild
        obtain ⟨store, hrm, hremoved⟩ := removed_rmnode rfl hchild
        rw [hrm] at hremove
        exact ⟨_, _, hremove, rfl, parent, hparent, hchild, hremoved⟩
    · rw [if_neg (not_not.2 hquery), if_neg hfolder] at hremove
      exact ⟨_, _, hremove, rfl⟩
  · rw [if_pos hquery] at hremove
    exact ⟨_, _, hremove, rfl⟩

lemma removable_of_removesExactly (h : v.RemovesExactly alive interface node) :
    v.Removable alive interface node := by
  obtain ⟨status, v', hremove, hexact⟩ := h
  cases hlock : v.lockParent alive node with
  | none =>
    rw [removeNode, hlock] at hremove
    cases hremove
  | some parent =>
    obtain ⟨hparent, halive⟩ := lockParent_eq_some.1 hlock
    refine ⟨parent, hparent, halive, fun hquery hfolder other hchild => ?_⟩
    rw [removeNode_of_lock hlock, if_neg (not_not.2 hquery), if_pos hfolder,
      rmnode_of_some hchild] at hremove
    obtain ⟨rfl, -⟩ := Prod.mk.inj (Except.ok.inj hremove)
    obtain ⟨-, parent', hparent', hnode, -⟩ := hexact
    obtain rfl := Option.some.inj (hparent.symm.trans hparent')
    exact Option.some.inj (hchild.symm.trans hnode)

/-- A removal acts on the node it was given, on no other and without a panic, just when the parent
of the node is alive and no other node has taken its name. -/
theorem removesExactly_iff (v : VfsRoot) (alive : NodeId → Bool) (interface : Interface)
    (node : NodeId) : v.RemovesExactly alive interface node ↔ v.Removable alive interface node :=
  ⟨removable_of_removesExactly, removesExactly_of_removable⟩

end VfsRoot

def replaced : List VfsCall := [.create pathA, .remove pathA,
  .create pathA]

/-- The reference to the first file removes the second one. -/
theorem not_removesExactly_replaced :
    ¬∀ (calls : List VfsCall) (r : VfsSession), Run VfsSession.Steps .init calls r →
      ∀ node, r.root.RemovesExactly (fun _ => true) .file node := by
  intro hall
  have hrun : (replaced.foldlM step .init).toOption.map
      (fun r => ((r.root.store.nodes 1).mParent, r.root.store.child 0 (r.root.store.nodes 1).mName,
        (r.root.store.nodes 1).kind, (r.root.store.nodes 0).kind)) =
      some (some 0, some 2, .file, .folder) := by
    decide +kernel
  obtain ⟨r, hr, hnodes⟩ := Option.map_eq_some_iff.1 hrun
  simp only [Prod.mk.injEq] at hnodes
  obtain ⟨hparent, hchild, hfile, hfolder⟩ := hnodes
  obtain ⟨parent, hparent', -, hsame⟩ :=
    VfsRoot.removable_of_removesExactly (hall _ r (Run.of_foldlM hr) 1)
  obtain rfl := Option.some.inj (hparent.symm.trans hparent')
  have hquery : (r.root.store.nodes 1).query .file = .success := by
    rw [INode.query, hfile]
    rfl
  exact absurd (hsame hquery hfolder 2 hchild) (by decide)

end Vfs
end BezOS
