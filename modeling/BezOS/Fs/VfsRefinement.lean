import BezOS.Fs.Vfs

/-!
# The file system refines the tree

What `mknode` and `rmnode` do to the tree of the nodes, and that every call of `VfsRoot` answers as
the same call on the tree does.
-/

namespace BezOS
namespace Vfs

open Lib FsTree List Nat Option Prod

namespace NodeStore

variable {D : Type} {s s' : NodeStore D} {root folder n : NodeId} {name : VfsString}
  {front path : List VfsString} {kind : NodeKind}

lemma lookup_cons_of_ne {a b : VfsString} {l : List (VfsString × NodeId)} (h : a ≠ b) :
    ((b, n) :: l).lookup a = l.lookup a := by
  simp [lookup_cons, beq_false_of_ne h]

/-! ## A new node -/

/-- The store `s'` is `s` with a new node in a folder. -/
structure Added (s : NodeStore D) (folder : NodeId) (name : VfsString) (kind : NodeKind)
    (s' : NodeStore D) : Prop where
  next : s'.next = s.next + 1
  child : ∀ m a, s'.child m a =
    if m = folder ∧ a = name then some s.next else if m = s.next then none else s.child m a
  same : ∀ m, m ≠ s.next → (s'.nodes m).kind = (s.nodes m).kind ∧
    (s'.nodes m).mParent = (s.nodes m).mParent ∧ (s'.nodes m).mName = (s.nodes m).mName
  kind : (s'.nodes s.next).kind = kind
  parent : (s'.nodes s.next).mParent = some folder
  name : (s'.nodes s.next).mName = name

lemma added_mknode (node : INode D) (hleaf : node.mChildren = []) (hlt : folder < s.next)
    (hnew : s.child folder name = none) :
    ∃ s', s.mknode folder name node = .ok (s.next, s') ∧ s.Added folder name node.kind s' := by
  have hne : s.next ≠ folder := Nat.ne_of_gt hlt
  unfold child at hnew
  rw [mknode, hnew]
  refine ⟨_, rfl, ⟨rfl, ?_, ?_, ?_, ?_, ?_⟩⟩
  · intro m a
    by_cases hm : m = folder
    · subst hm
      by_cases ha : a = name
      · simp [NodeStore.child, setNode, ha]
      · simp [NodeStore.child, setNode, ha, hne.symm, lookup_cons_of_ne ha]
    · by_cases hm' : m = s.next
      · subst hm'
        simp [NodeStore.child, setNode, hne, hleaf]
      · simp [NodeStore.child, setNode, hm, hm']
  · intro m hm
    by_cases hm' : m = folder
    · subst hm'
      simp [setNode]
    · simp [setNode, hm, hm']
  all_goals simp [setNode, hne]

lemma WellFormed.added (h : s.WellFormed root) (hfolder : (s.nodes folder).kind = .folder)
    (hlt : folder < s.next) (hadd : s.Added folder name kind s') : s'.WellFormed root := by
  have hroot : root ≠ s.next := Nat.ne_of_lt h.root_lt
  have hcases : ∀ m a c, s'.child m a = some c →
      (m = folder ∧ a = name ∧ c = s.next) ∨ (c ≠ s.next ∧ s.child m a = some c) := by
    intro m a c hc
    rw [hadd.child] at hc
    split at hc
    · rename_i heq
      exact .inl ⟨heq.1, heq.2, (Option.some.inj hc).symm⟩
    · split at hc
      · cases hc
      · exact .inr ⟨Nat.ne_of_lt (h.child_lt m a c hc), hc⟩
  refine ⟨?_, ?_, ?_, ?_, ?_, ?_, ?_⟩
  · rw [(hadd.same root hroot).2.1, h.root_parent]
  · rw [(hadd.same root hroot).1, h.root_folder]
  · rw [hadd.next]
    exact lt_succ_of_lt h.root_lt
  · intro m a c hc
    rcases hcases m a c hc with ⟨rfl, rfl, rfl⟩ | ⟨hne, hc⟩
    · exact hadd.parent
    · rw [(hadd.same c hne).2.1]
      exact h.child_parent m a c hc
  · intro m a c hc
    rcases hcases m a c hc with ⟨rfl, rfl, rfl⟩ | ⟨hne, hc⟩
    · exact hadd.name
    · rw [(hadd.same c hne).2.2]
      exact h.child_name m a c hc
  · intro m a c hc
    rw [hadd.next]
    rcases hcases m a c hc with ⟨-, -, rfl⟩ | ⟨-, hc⟩
    · exact lt_succ_self _
    · exact lt_succ_of_lt (h.child_lt m a c hc)
  · intro m a hfile
    rw [hadd.child]
    by_cases hm : m = s.next
    · subst hm
      rw [if_neg fun heq => absurd heq.1.symm (Nat.ne_of_lt hlt), if_pos rfl]
    · rw [(hadd.same m hm).1] at hfile
      rw [if_neg, if_neg hm]
      · exact h.file_leaf m a hfile
      · rintro ⟨rfl, -⟩
        rw [hfolder] at hfile
        cases hfile

lemma Added.descend (hadd : s.Added folder name kind s') (h : s.WellFormed root)
    (hfront : s.descend root front = some folder) (hnew : s.child folder name = none)
    (path : List VfsString) :
    s'.descend root path =
      if path = front ++ [name] then some s.next else s.descend root path := by
  induction path using reverseRecOn with
  | nil => simp [NodeStore.descend]
  | append_singleton path a ih =>
    rw [descend_concat, ih]
    by_cases hpath : path = front ++ [name]
    · -- below the new node there is nothing
      have hbelow : s.descend root (path ++ [a]) = none := by
        rw [hpath, descend_concat, descend_concat, hfront]
        simp [hnew]
      rw [if_pos hpath, if_neg, hbelow, bind_some, hadd.child, if_neg, if_pos rfl]
      · rintro ⟨heq, -⟩
        exact absurd heq.symm (Nat.ne_of_lt (h.lt_next hfront))
      · intro heq
        have hlength := congrArg length heq
        simp [hpath] at hlength
    · rw [if_neg hpath, descend_concat]
      cases hm : s.descend root path with
      | none =>
        rw [if_neg]
        · rfl
        · intro heq
          obtain ⟨rfl, -⟩ := append_inj heq (by simpa using congrArg length heq)
          rw [hfront] at hm
          cases hm
      | some m =>
        have hne : m ≠ s.next := Nat.ne_of_lt (h.lt_next hm)
        rw [bind_some, bind_some, hadd.child, if_neg hne]
        by_cases heq : m = folder ∧ a = name
        · obtain ⟨rfl, rfl⟩ := heq
          rw [if_pos ⟨rfl, rfl⟩, if_pos]
          rw [h.path_unique hm hfront]
        · rw [if_neg heq, if_neg]
          intro hconcat
          obtain ⟨rfl, ha⟩ := append_inj hconcat (by simpa using congrArg length hconcat)
          rw [hfront] at hm
          exact heq ⟨(Option.some.inj hm).symm, singleton_inj.1 ha⟩

/-! ## A removed node -/

/-- The store `s'` is `s` without a name in a folder. -/
structure Removed (s : NodeStore D) (folder : NodeId) (name : VfsString) (s' : NodeStore D) :
    Prop where
  next : s'.next = s.next
  child : ∀ m a, s'.child m a = if m = folder ∧ a = name then none else s.child m a
  same : ∀ m, (s'.nodes m).kind = (s.nodes m).kind ∧ (s'.nodes m).mParent = (s.nodes m).mParent ∧
    (s'.nodes m).mName = (s.nodes m).mName

lemma lookup_filter_ne (l : List (VfsString × NodeId)) (name a : VfsString) :
    (l.filter fun c => c.1 ≠ name).lookup a = if a = name then none else l.lookup a := by
  induction l with
  | nil => simp
  | cons c l ih =>
    obtain ⟨b, n⟩ := c
    by_cases hb : b = name
    · rw [filter_cons_of_neg (by simpa using hb), ih]
      by_cases ha : a = name
      · rw [if_pos ha, if_pos ha]
      · rw [if_neg ha, if_neg ha, lookup_cons_of_ne (hb ▸ ha)]
    · rw [filter_cons_of_pos (by simpa using hb)]
      by_cases hab : a = b
      · subst hab
        rw [if_neg hb, lookup_cons_self, lookup_cons_self]
      · rw [lookup_cons_of_ne hab, ih, lookup_cons_of_ne hab]

lemma removed_rmnode {node : NodeId} (hname : (s.nodes node).mName = name)
    (hchild : s.child folder name = some node) :
    ∃ s', s.rmnode folder node = (.success, s') ∧ s.Removed folder name s' := by
  unfold child at hchild
  rw [rmnode, hname, hchild]
  refine ⟨_, rfl, rfl, ?_, ?_⟩
  · intro m a
    by_cases hm : m = folder
    · subst hm
      simp only [NodeStore.child, setNode, Function.update_self, true_and]
      exact lookup_filter_ne _ name a
    · simp [NodeStore.child, setNode, hm]
  · intro m
    by_cases hm : m = folder
    · subst hm
      simp [setNode]
    · simp [setNode, hm]

lemma WellFormed.removed (h : s.WellFormed root) (hrem : s.Removed folder name s') :
    s'.WellFormed root := by
  have hchild : ∀ m a c, s'.child m a = some c → s.child m a = some c := by
    intro m a c hc
    rw [hrem.child] at hc
    split at hc
    · cases hc
    · exact hc
  refine ⟨?_, ?_, ?_, ?_, ?_, ?_, ?_⟩
  · rw [(hrem.same root).2.1, h.root_parent]
  · rw [(hrem.same root).1, h.root_folder]
  · rw [hrem.next]
    exact h.root_lt
  · intro m a c hc
    rw [(hrem.same c).2.1]
    exact h.child_parent m a c (hchild m a c hc)
  · intro m a c hc
    rw [(hrem.same c).2.2]
    exact h.child_name m a c (hchild m a c hc)
  · intro m a c hc
    rw [hrem.next]
    exact h.child_lt m a c (hchild m a c hc)
  · intro m a hfile
    rw [(hrem.same m).1] at hfile
    rw [hrem.child, h.file_leaf m a hfile]
    exact ite_self none

lemma Removed.descend (hrem : s.Removed folder name s') (h : s.WellFormed root)
    (hfront : s.descend root front = some folder) (path : List VfsString) :
    s'.descend root path =
      if front ++ [name] <+: path then none else s.descend root path := by
  induction path using reverseRecOn with
  | nil => simp [NodeStore.descend]
  | append_singleton path a ih =>
    rw [descend_concat, ih]
    by_cases hpath : front ++ [name] <+: path
    · rw [if_pos hpath, if_pos (prefix_concat_iff.2 (.inr hpath)), bind_none]
    · rw [if_neg hpath, descend_concat]
      cases hm : s.descend root path with
      | none => simp
      | some m =>
        rw [bind_some, bind_some, hrem.child]
        by_cases heq : m = folder ∧ a = name
        · obtain ⟨rfl, rfl⟩ := heq
          rw [if_pos ⟨rfl, rfl⟩, if_pos]
          rw [h.path_unique hm hfront]
        · rw [if_neg heq, if_neg]
          intro hconcat
          rcases prefix_concat_iff.1 hconcat with hconcat | hconcat
          · obtain ⟨rfl, ha⟩ :=
              append_inj hconcat (by simpa using congrArg length hconcat)
            rw [hfront] at hm
            exact heq ⟨(Option.some.inj hm).symm, (singleton_inj.1 ha).symm⟩
          · exact hpath hconcat

/-! ## The tree of a store -/

def tree (s : NodeStore D) (root : NodeId) : FsTree where
  entries path := (s.descend root path).map fun n => ((s.nodes n).kind, n)
  next := s.next

lemma tree_entries (h : s.descend root path = some n) :
    (s.tree root).entries path = some ((s.nodes n).kind, n) := by
  simp [tree, h]

lemma tree_entries_none (h : s.descend root path = none) :
    (s.tree root).entries path = none := by
  simp [tree, h]

lemma descend_of_entries (h : (s.tree root).entries path = some (kind, n)) :
    s.descend root path = some n ∧ (s.nodes n).kind = kind := by
  obtain ⟨m, hm, heq⟩ := map_eq_some_iff.1 h
  obtain ⟨hkind, rfl⟩ := Prod.mk.inj heq
  exact ⟨hm, hkind⟩

lemma Added.tree (hadd : s.Added folder name kind s') (h : s.WellFormed root)
    (hfront : s.descend root front = some folder) (hnew : s.child folder name = none) :
    s'.tree root = (s.tree root).insert kind (front ++ [name]) := by
  unfold NodeStore.tree FsTree.insert
  rw [hadd.next, FsTree.mk.injEq]
  refine ⟨funext fun path => ?_, rfl⟩
  rw [hadd.descend h hfront hnew, Function.update_apply]
  split
  · rw [map_some, hadd.kind]
  · cases hm : s.descend root path with
    | none => exact (tree_entries_none hm).symm
    | some m =>
      rw [map_some, (hadd.same m (Nat.ne_of_lt (h.lt_next hm))).1]
      exact (tree_entries hm).symm

lemma Removed.tree (hrem : s.Removed folder name s') (h : s.WellFormed root)
    (hfront : s.descend root front = some folder) :
    s'.tree root = (s.tree root).prune (front ++ [name]) := by
  unfold NodeStore.tree prune
  rw [hrem.next, FsTree.mk.injEq]
  refine ⟨funext fun path => ?_, rfl⟩
  rw [hrem.descend h hfront]
  split
  · rfl
  · cases hm : s.descend root path with
    | none => exact (tree_entries_none hm).symm
    | some m =>
      rw [map_some, (hrem.same m).1]
      exact (tree_entries hm).symm

/-! ## The loops -/

lemma query_folder (h : (s.nodes n).kind = .folder) :
    (s.nodes n).query .folder = .success := by
  simp [INode.query, h, interfaceList]

lemma query_file (h : (s.nodes n).kind = .file) :
    (s.nodes n).query .folder = .interfaceNotSupported := by
  simp [INode.query, h, interfaceList]

lemma openFolder_folder (h : (s.nodes n).kind = .folder) :
    s.openFolder n = .ok () := by
  simp [openFolder, query_folder h]

lemma resolveFrom_none {t : FsTree} (h : t.entries front = none) (rest : List VfsString) :
    t.resolveFrom front rest = .error .notFound := by
  cases rest <;> simp [resolveFrom, h]

lemma lookupFrom_eq (front : List VfsString) {rest : List VfsString}
    (hn : s.descend root front = some n) (hclear : ∀ i < rest.length,
      ((s.tree root).entries (front ++ rest.take i)).map fst ≠ some .file) :
    s.lookupFrom n rest = ((s.tree root).resolveFrom front rest).map snd := by
  induction rest generalizing front n with
  | nil =>
    rw [lookupFrom, resolveFrom, tree_entries hn]
    rfl
  | cons a rest ih =>
    have hfolder : (s.nodes n).kind = .folder := by
      have := hclear 0 (zero_lt_succ _)
      rw [take_zero, append_nil, tree_entries hn] at this
      cases hkind : (s.nodes n).kind with
      | file => exact absurd (by simp [hkind]) this
      | folder => rfl
    rw [lookupFrom, query_folder hfolder, resolveFrom, tree_entries hn, hfolder]
    simp only [NodeStore.lookup]
    have hnext : s.descend root (front ++ [a]) = s.child n a := by
      rw [descend_concat, hn, bind_some]
    unfold child at hnext
    cases hchild : (s.nodes n).mChildren.lookup a with
    | none =>
      rw [hchild] at hnext
      rw [resolveFrom_none (tree_entries_none hnext)]
      rfl
    | some c =>
      rw [hchild] at hnext
      refine ih _ hnext fun i hi => ?_
      have := hclear (i + 1) (succ_lt_succ hi)
      rwa [take_succ_cons, append_cons] at this

lemma make_effect [Inhabited D] (kind : NodeKind) (name : VfsString) (h : s.WellFormed root)
    (hn : s.descend root front = some n) (hfolder : (s.nodes n).kind = .folder) :
    (s.make kind n name = .error .alreadyExists ∧ (s.tree root).entries (front ++ [name]) ≠ none) ∨
      ∃ s', s.make kind n name = .ok (s.next, s') ∧ s'.WellFormed root ∧
        (s.tree root).entries (front ++ [name]) = none ∧
        s'.tree root = (s.tree root).insert kind (front ++ [name]) ∧
        s'.descend root (front ++ [name]) = some s.next := by
  have hnext : s.descend root (front ++ [name]) = s.child n name := by
    rw [descend_concat, hn, bind_some]
  have hlt := h.lt_next hn
  rw [make, openFolder_folder hfolder]
  change ((s.mknode n name _ = _ ∧ _) ∨ ∃ s', s.mknode n name _ = _ ∧ _)
  cases hchild : s.child n name with
  | some c =>
    refine .inl ⟨?_, ?_⟩
    · unfold child at hchild
      rw [mknode, hchild]
    · rw [tree_entries (hnext.trans hchild)]
      simp
  | none =>
    obtain ⟨s', hmake, hadd⟩ := added_mknode ⟨kind, default, some n, name, []⟩ rfl hlt hchild
    refine .inr ⟨s', hmake, h.added hfolder hlt hadd, tree_entries_none (hnext.trans hchild),
      hadd.tree h hn hchild, ?_⟩
    rw [hadd.descend h hn hchild, if_pos rfl]

lemma mkpathFrom_eq [Inhabited D] (front rest : List VfsString) (h : s.WellFormed root)
    (hn : s.descend root front = some n) :
    (s.mkpathFrom n rest).2.WellFormed root ∧
      (((s.mkpathFrom n rest).1.map some, (s.mkpathFrom n rest).2.tree root) : Reply × FsTree) =
        (s.tree root).mkpathFrom front rest := by
  induction rest generalizing s front n with
  | nil =>
    refine ⟨h, ?_⟩
    rw [mkpathFrom, FsTree.mkpathFrom, tree_entries hn]
    rfl
  | cons a rest ih =>
    rw [mkpathFrom, FsTree.mkpathFrom, tree_entries hn]
    cases hkind : (s.nodes n).kind with
    | file =>
      rw [query_file hkind]
      exact ⟨h, rfl⟩
    | folder =>
      rw [query_folder hkind]
      have hnext : s.descend root (front ++ [a]) = s.child n a := by
        rw [descend_concat, hn, bind_some]
      simp only [NodeStore.lookup, ensure]
      rcases make_effect .folder a h hn hkind with
        ⟨-, hsome⟩ | ⟨s', hmake, hwf, hnone, htree, hdescend⟩
      · obtain ⟨entry, hentry⟩ := ne_none_iff_exists'.1 hsome
        obtain ⟨kind, c⟩ := entry
        obtain ⟨hc, -⟩ := descend_of_entries hentry
        have hchild : (s.nodes n).mChildren.lookup a = some c := hnext.symm.trans hc
        rw [hchild, hentry]
        exact ih _ h hc
      · have hchild : (s.nodes n).mChildren.lookup a = none := by
          cases hc : s.child n a with
          | none => exact hc
          | some c =>
            rw [tree_entries (hnext.trans hc)] at hnone
            cases hnone
        rw [hchild, hnone, hmake]
        rw [← htree]
        exact ih _ hwf hdescend

end NodeStore

/-! ## The calls -/

namespace VfsRoot

variable (v : VfsRoot)

def tree : FsTree := v.store.tree v.mRootNode

def WellFormed : Prop := v.store.WellFormed v.mRootNode

/-- The calls that answer as the tree does: the path does not run through a file, which only
`mkpath` reports as such, and a node is neither made nor removed at the root. -/
def Plain : VfsCall → Prop
  | .create path => path.names ≠ [] ∧ v.tree.Clear path.names
  | .mkdir path => path.names ≠ [] ∧ v.tree.Clear path.names
  | .mkpath _ => True
  | .remove path => path.names ≠ [] ∧ v.tree.Clear path.names
  | .rmdir path => path.names ≠ [] ∧ v.tree.Clear path.names
  | .lookup path => v.tree.Clear path.names
  | .device path _ => v.tree.Clear path.names

instance : DecidablePred v.Plain
  | .create _ | .mkdir _ | .remove _ | .rmdir _ => inferInstanceAs (Decidable (_ ∧ _))
  | .lookup path | .device path _ => inferInstanceAs (Decidable (v.tree.Clear path.names))
  | .mkpath _ => isTrue trivial

variable {v} {path : VfsPath}

lemma wellFormed_empty : empty.WellFormed :=
  ⟨rfl, rfl, Nat.zero_lt_one, by simp [NodeStore.child, empty], by simp [NodeStore.child, empty],
    by simp [NodeStore.child, empty], by simp [NodeStore.child, empty]⟩

lemma tree_empty : empty.tree = FsTree.empty := by
  rw [FsTree.mk.injEq]
  refine ⟨funext fun path => ?_, rfl⟩
  cases path <;> rfl

lemma lookup_eq (hclear : v.tree.Clear path.names) :
    v.lookupUnlocked path.text = (v.tree.resolve path.names).map snd := by
  rw [lookupUnlocked, path.segments_eq]
  exact NodeStore.lookupFrom_eq [] rfl hclear

lemma walk_eq (hne : path.names ≠ []) (hclear : v.tree.Clear path.names) :
    ∃ front, path.names = front ++ [name path.text] ∧
      v.walk path.text = (v.tree.resolve front).map snd ∧
      (v.tree.entries front).map fst ≠ some .file := by
  have htext : path.text ≠ [] := fun htext => hne (path.names_eq_nil.2 htext)
  have hfrom : ∀ front, path.names = front ++ [name path.text] →
      v.store.lookupFrom v.mRootNode front = (v.tree.resolve front).map snd ∧
        (v.tree.entries front).map fst ≠ some .file := by
    intro front hnames
    rw [FsTree.Clear, hnames] at hclear
    refine ⟨NodeStore.lookupFrom_eq [] rfl fun i hi => ?_, ?_⟩
    · have := hclear i (by simp; omega)
      rwa [take_append_of_le_length (Nat.le_of_lt hi)] at this
    · have := hclear front.length (by simp)
      rwa [take_left' rfl] at this
  rcases path.single_or_parent htext with ⟨hcount, hnames⟩ | ⟨hcount, hnames⟩
  · refine ⟨[], hnames, ?_, (hfrom [] hnames).2⟩
    rw [walk, if_pos hcount, ← (hfrom [] hnames).1]
    rfl
  · refine ⟨_, hnames, ?_, (hfrom _ hnames).2⟩
    rw [walk, if_neg hcount, lookupUnlocked]
    exact (hfrom _ hnames).1

lemma walk_cases (hne : path.names ≠ []) (hclear : v.tree.Clear path.names) :
    ∃ front, path.names = front ++ [name path.text] ∧
      ((∃ status, v.walk path.text = .error status ∧ v.tree.resolve front = .error status) ∨
        ∃ n, v.walk path.text = .ok n ∧ v.tree.resolve front = .ok (.folder, n) ∧
          v.store.descend v.mRootNode front = some n ∧ (v.store.nodes n).kind = .folder) := by
  obtain ⟨front, hnames, hwalk, hfile⟩ := walk_eq hne hclear
  refine ⟨front, hnames, ?_⟩
  cases hresolve : v.tree.resolve front with
  | error status =>
    rw [hresolve] at hwalk
    exact .inl ⟨status, hwalk, rfl⟩
  | ok entry =>
    obtain ⟨kind, n⟩ := entry
    rw [hresolve] at hwalk
    have hentry : v.tree.entries front = some (kind, n) := resolveFrom_ok hresolve
    obtain ⟨hdescend, hkind⟩ := NodeStore.descend_of_entries hentry
    cases kind with
    | file => exact absurd (by rw [hentry]; rfl) hfile
    | folder => exact .inr ⟨n, hwalk, rfl, hdescend, hkind⟩

section

variable (h : v.WellFormed) (hne : path.names ≠ []) (hclear : v.tree.Clear path.names)

include h hne hclear

lemma make_sim {kind : NodeKind} {result : Except OsStatus (NodeId × VfsRoot)}
    (herror : ∀ status, v.walk path.text = .error status → result = .error status)
    (hmake : ∀ n, v.walk path.text = .ok n → (v.store.nodes n).kind = .folder →
      result = (v.store.make kind n (name path.text)).map fun r => (r.1, ⟨r.2, v.mRootNode⟩)) :
    (v.replyMade result).2.WellFormed ∧
      ((v.replyMade result).1, (v.replyMade result).2.tree) = v.tree.make kind path.names := by
  obtain ⟨front, hnames, hcases⟩ := walk_cases hne hclear
  have hlast : path.names.dropLast = front := by rw [hnames, dropLast_concat]
  rw [FsTree.make, if_neg hne, hlast]
  rcases hcases with ⟨status, hwalk, hresolve⟩ | ⟨n, hwalk, hresolve, hdescend, hfolder⟩
  · rw [herror status hwalk, hresolve]
    exact ⟨h, rfl⟩
  · rw [hmake n hwalk hfolder, hresolve, hnames]
    rcases NodeStore.make_effect kind (name path.text) h hdescend hfolder with
      ⟨hexists, hsome⟩ | ⟨s', hmade, hwf, hnone, htree, -⟩
    · obtain ⟨entry, hentry⟩ := ne_none_iff_exists'.1 hsome
      have hentry : v.tree.entries (front ++ [name path.text]) = some entry := hentry
      rw [hexists, hentry]
      exact ⟨h, rfl⟩
    · have hnone : v.tree.entries (front ++ [name path.text]) = none := hnone
      rw [hmade, hnone]
      refine ⟨hwf, ?_⟩
      change (_, NodeStore.tree s' v.mRootNode) = _
      rw [htree]
      rfl

lemma create_sim :
    (v.replyMade (v.create path.text)).2.WellFormed ∧
      ((v.replyMade (v.create path.text)).1, (v.replyMade (v.create path.text)).2.tree) =
        v.tree.make .file path.names := by
  refine make_sim h hne hclear ?_ ?_
  · intro status hwalk
    rw [create, hwalk]
    rfl
  · intro n hwalk _
    rw [create, hwalk]
    cases hmake : v.store.make .file n (name path.text) <;> simp [bind, Except.bind, hmake] <;> rfl

lemma mkdir_sim :
    (v.replyMade (v.mkdir path.text)).2.WellFormed ∧
      ((v.replyMade (v.mkdir path.text)).1, (v.replyMade (v.mkdir path.text)).2.tree) =
        v.tree.make .folder path.names := by
  refine make_sim h hne hclear ?_ ?_
  · intro status hwalk
    rw [mkdir, hwalk]
    rfl
  · intro n hwalk hfolder
    rw [mkdir, hwalk]
    cases hmake : v.store.make .folder n (name path.text) <;>
      simp [bind, Except.bind, hmake, NodeStore.openFolder_folder hfolder] <;> rfl

end

lemma remove_sim (kind : NodeKind) (interface : Interface)
    (hinterface : ∀ found, interface ∈ interfaceList found ↔ found = kind) (h : v.WellFormed)
    (hne : path.names ≠ []) (hclear : v.tree.Clear path.names) :
    ∃ reply v', v.removeAt (v.removeOf interface) path = .ok (reply, v') ∧ v'.WellFormed ∧
      (reply, v'.tree) = v.tree.remove kind path.names := by
  rw [removeAt, lookup_eq hclear, FsTree.remove]
  cases hresolve : v.tree.resolve path.names with
  | error status => exact ⟨.error status, v, rfl, h, rfl⟩
  | ok entry =>
    obtain ⟨found, n⟩ := entry
    have hentry : v.tree.entries path.names = some (found, n) := resolveFrom_ok hresolve
    obtain ⟨hdescend, hkind⟩ := NodeStore.descend_of_entries hentry
    obtain ⟨front, a, hnames⟩ := (eq_nil_or_concat path.names).resolve_left hne
    rw [concat_eq_append] at hnames
    rw [hnames, NodeStore.descend_concat] at hdescend
    obtain ⟨m, hm, hchild⟩ := bind_eq_some_iff.1 hdescend
    have hfolder : (v.store.nodes m).kind = .folder := by
      cases hfile : (v.store.nodes m).kind with
      | folder => rfl
      | file =>
        rw [h.file_leaf m a hfile] at hchild
        cases hchild
    have hremove : v.removeOf interface n =
        if (v.store.nodes n).query interface ≠ .success then .ok (.invalidType, v)
        else .ok ((v.store.rmnode m n).1, { v with store := (v.store.rmnode m n).2 }) := by
      rw [removeOf, h.child_parent m a n hchild]
      simp only [NodeStore.openFolder_folder hfolder]
    have hquery : (v.store.nodes n).query interface = .success ↔ found = kind := by
      rw [INode.query, hkind, ← hinterface found]
      split <;> simp_all
    simp only [Except.map, hremove]
    by_cases hsame : found = kind
    · obtain ⟨s', hrm, hremoved⟩ := NodeStore.removed_rmnode (h.child_name m a n hchild) hchild
      rw [if_neg (not_not.2 (hquery.2 hsame)), hrm, if_neg (not_not.2 hsame), if_neg hne]
      refine ⟨.ok none, ⟨s', v.mRootNode⟩, rfl, h.removed hremoved, ?_⟩
      rw [hnames, tree, hremoved.tree h hm]
      rfl
    · rw [if_pos fun hsuccess => hsame (hquery.1 hsuccess), if_pos hsame]
      exact ⟨.error .invalidType, v, rfl, h, rfl⟩

lemma query_map {interface : Interface} (n : NodeId) (kind : NodeKind)
    (hkind : (v.store.nodes n).kind = kind) :
    (match (v.store.nodes n).query interface with
      | .success => .ok n
      | status => .error status : Except OsStatus NodeId).map some =
    if interface ∈ interfaceList kind then .ok (some n) else .error .interfaceNotSupported := by
  subst hkind
  unfold INode.query
  split <;> rename_i heq <;> split at heq <;> simp_all [Except.map]

lemma device_sim {interface : Interface} (h : v.WellFormed) (hclear : v.tree.Clear path.names) :
    (v.device path.text interface).map some = v.tree.device path.names interface := by
  by_cases hne : path.names = []
  · have htext := path.names_eq_nil.1 hne
    have hresolve : v.tree.resolve [] = .ok (.folder, v.mRootNode) := by
      have hroot : v.tree.entries [] = some ((v.store.nodes v.mRootNode).kind, v.mRootNode) :=
        NodeStore.tree_entries rfl
      rw [h.root_folder] at hroot
      simp [resolve, resolveFrom, hroot]
    rw [device, htext, hne, FsTree.device, hresolve]
    exact query_map v.mRootNode .folder h.root_folder
  · obtain ⟨front, hnames, hcases⟩ := walk_cases hne hclear
    have hcount : segmentCount path.text ≠ 0 := by
      rw [segmentCount, if_neg fun htext => hne (path.names_eq_nil.2 htext)]
      exact succ_ne_zero _
    rw [device, if_neg hcount, FsTree.device, hnames, resolve, resolveFrom_concat]
    rcases hcases with ⟨status, hwalk, hresolve⟩ | ⟨n, hwalk, hresolve, hdescend, hfolder⟩
    · rw [resolve] at hresolve
      rw [hwalk, hresolve]
      rfl
    · rw [resolve] at hresolve
      have hnext : v.store.descend v.mRootNode (front ++ [name path.text]) =
          v.store.child n (name path.text) := by
        rw [NodeStore.descend_concat, hdescend, bind_some]
      rw [hwalk, hresolve]
      simp only [bind, Except.bind, NodeStore.openFolder_folder hfolder, NodeStore.lookup,
        resolveFrom, nil_append]
      cases hchild : v.store.child n (name path.text) with
      | none =>
        have hnone : v.tree.entries (front ++ [name path.text]) = none :=
          NodeStore.tree_entries_none (hnext.trans hchild)
        unfold NodeStore.child at hchild
        rw [hchild, hnone]
        rfl
      | some c =>
        have hsome : v.tree.entries (front ++ [name path.text]) =
            some ((v.store.nodes c).kind, c) := NodeStore.tree_entries (hnext.trans hchild)
        unfold NodeStore.child at hchild
        rw [hchild, hsome]
        exact query_map c _ rfl

lemma serve_sim {call : VfsCall} (h : v.WellFormed) (hplain : v.Plain call) :
    ∃ reply v', v.serve call = .ok (reply, v') ∧ v'.WellFormed ∧
      v.tree.serve call = (reply, v'.tree) := by
  cases call with
  | create path =>
    obtain ⟨hwf, heq⟩ := create_sim h hplain.1 hplain.2
    exact ⟨_, _, rfl, hwf, heq.symm⟩
  | mkdir path =>
    obtain ⟨hwf, heq⟩ := mkdir_sim h hplain.1 hplain.2
    exact ⟨_, _, rfl, hwf, heq.symm⟩
  | mkpath path =>
    obtain ⟨hwf, heq⟩ := NodeStore.mkpathFrom_eq [] path.names h rfl
    rw [← path.segments_eq] at hwf heq
    exact ⟨_, _, rfl, hwf, by rw [FsTree.serve, ← path.segments_eq]; exact heq.symm⟩
  | remove path =>
    obtain ⟨reply, v', hserve, hwf, heq⟩ := remove_sim .file .file
      (by rintro (_ | _) <;> decide) h hplain.1 hplain.2
    exact ⟨reply, v', hserve, hwf, heq.symm⟩
  | rmdir path =>
    obtain ⟨reply, v', hserve, hwf, heq⟩ := remove_sim .folder .folder
      (by rintro (_ | _) <;> decide) h hplain.1 hplain.2
    exact ⟨reply, v', hserve, hwf, heq.symm⟩
  | lookup path =>
    refine ⟨_, v, rfl, h, ?_⟩
    rw [FsTree.serve, lookup_eq hplain]
    cases v.tree.resolve path.names <;> rfl
  | device path interface =>
    refine ⟨_, v, rfl, h, ?_⟩
    rw [FsTree.serve, device_sim h hplain]

end VfsRoot

/-! ## Runs -/

structure VfsSession where
  root : VfsRoot
  replies : List Reply

structure TreeSession where
  tree : FsTree
  replies : List Reply

namespace TreeSession

def init : TreeSession := ⟨.empty, []⟩

def step (t : TreeSession) (call : VfsCall) : TreeSession :=
  let (reply, tree) := t.tree.serve call
  ⟨tree, t.replies ++ [reply]⟩

end TreeSession

namespace VfsSession

def init : VfsSession := ⟨.empty, []⟩

def step (r : VfsSession) (call : VfsCall) : Except Fault VfsSession := do
  let (reply, root) ← r.root.serve call
  pure ⟨root, r.replies ++ [reply]⟩

def Steps (r : VfsSession) (call : VfsCall) (r' : VfsSession) : Prop := r.step call = .ok r'

def PlainSteps (r : VfsSession) (call : VfsCall) (r' : VfsSession) : Prop :=
  r.root.Plain call ∧ r.Steps call r'

def tree (r : VfsSession) : TreeSession := ⟨r.root.tree, r.replies⟩

variable {r r' : VfsSession}

lemma step_sim {call : VfsCall} (h : r.root.WellFormed) (hstep : r.PlainSteps call r') :
    r'.root.WellFormed ∧ r.tree.step call = r'.tree := by
  obtain ⟨hplain, hstep⟩ := hstep
  obtain ⟨reply, root, hserve, hwf, htree⟩ := VfsRoot.serve_sim h hplain
  rw [Steps, step, hserve] at hstep
  obtain rfl := Except.ok.inj hstep
  refine ⟨hwf, ?_⟩
  rw [TreeSession.step, tree, tree, htree]

lemma run_sim {calls : List VfsCall} (hrun : Run PlainSteps r calls r')
    (h : r.root.WellFormed) : r'.root.WellFormed ∧ calls.foldl TreeSession.step r.tree = r'.tree := by
  induction hrun with
  | nil r => exact ⟨h, rfl⟩
  | cons hstep _ ih =>
    obtain ⟨hwf, htree⟩ := step_sim h hstep
    rw [foldl_cons, htree]
    exact ih hwf

/-- After every run of plain calls the nodes are the tree that the calls make, every call has
answered as on the tree, and every plain call returns. -/
theorem refines_of_plain {calls : List VfsCall} (hrun : Run PlainSteps init calls r) :
    calls.foldl TreeSession.step .init = ⟨r.root.tree, r.replies⟩ ∧
      ∀ call, r.root.Plain call → ∃ r', r.Steps call r' := by
  obtain ⟨hwf, htree⟩ := run_sim hrun VfsRoot.wellFormed_empty
  refine ⟨?_, fun call hplain => ?_⟩
  · rw [tree, init, VfsRoot.tree_empty] at htree
    exact htree
  · obtain ⟨reply, root, hserve, -⟩ := VfsRoot.serve_sim hwf hplain
    refine ⟨⟨root, r.replies ++ [reply]⟩, ?_⟩
    rw [Steps, step, hserve]
    rfl

/-- The paths `a`, `a/b` and `a/b/c`. -/
def pathA : VfsPath := ⟨[0x61], by decide⟩
def pathB : VfsPath := ⟨[0x61, 0, 0x62], by decide⟩
def pathC : VfsPath := ⟨[0x61, 0, 0x62, 0, 0x63], by decide⟩

def makeAndRemove : List VfsCall :=
  [.create pathB, .mkpath pathB, .create pathC, .mkdir pathC,
    .mkpath ⟨pathC.text ++ [0, 0x64], by decide⟩, .rmdir pathC, .remove pathC, .lookup pathC,
    .device pathA .iterator]

theorem refines_makeAndRemove : ∃ r : VfsSession,
    makeAndRemove.foldl TreeSession.step .init = ⟨r.root.tree, r.replies⟩ ∧
    r.replies = [.error .notFound, .ok (some 2), .ok (some 3), .error .alreadyExists,
      .error .traverseNonFolder, .error .invalidType, .ok none, .error .notFound, .ok (some 1)] ∧
    Run PlainSteps init makeAndRemove r := by
  have hrun : (runGuarded (fun r => VfsRoot.Plain r.root) step init makeAndRemove).map
      (fun r => r.replies) = some [.error .notFound, .ok (some 2), .ok (some 3),
        .error .alreadyExists, .error .traverseNonFolder, .error .invalidType, .ok none,
        .error .notFound, .ok (some 1)] := by
    decide +kernel
  obtain ⟨r, hr, hreplies⟩ := map_eq_some_iff.1 hrun
  have hrun := Run.of_runGuarded hr
  exact ⟨r, (refines_of_plain hrun).1, hreplies, hrun⟩

/-- A lookup through a file. -/
theorem not_refines_of_file :
    ¬ ∀ (calls : List VfsCall) (r : VfsSession), Run Steps init calls r →
      calls.foldl TreeSession.step .init = ⟨r.root.tree, r.replies⟩ := by
  intro hall
  have hrun : ([.create pathA, .lookup pathB].foldlM step init).toOption.map
      (fun r => r.replies) = some [.ok (some 1), .error .interfaceNotSupported] := by
    decide +kernel
  obtain ⟨r, hr, hreplies⟩ := map_eq_some_iff.1 hrun
  have htree : ([.create pathA, .lookup pathB].foldl TreeSession.step .init).replies =
      [.ok (some 1), .error .interfaceNotSupported] :=
    (congrArg TreeSession.replies (hall _ r (Run.of_foldlM hr))).trans hreplies
  exact absurd htree (by decide +kernel)

end VfsSession

end Vfs
end BezOS
