import BezOS.Container.BTreeMemory
import BezOS.Lib.Association
import BezOS.Lib.Weave

/-!
# Trees in memory

The tree a B-tree map holds in memory, with every node under its own address; all leaves are at
the same depth, so trees are read by their height. A position in a tree is a node together with
the frames above it, innermost first. The listing of a tree is what the frames list before and
after the node, with the listing of the node between.
-/

namespace BezOS

open Lib BTree List

inductive Tree (K V : Type) where
  | mk (id : NodeId) (entries : List (K × V)) (children : List (Tree K V))

namespace Tree

variable {K V : Type} {t : Tree K V} {h : Nat} {p : Option NodeId}

def id : Tree K V → NodeId
  | mk id _ _ => id

def entries : Tree K V → List (K × V)
  | mk _ entries _ => entries

def children : Tree K V → List (Tree K V)
  | mk _ _ children => children

@[simp] lemma id_mk (i : NodeId) (es : List (K × V)) (cs : List (Tree K V)) :
    (mk i es cs).id = i := rfl
@[simp] lemma entries_mk (i : NodeId) (es : List (K × V)) (cs : List (Tree K V)) :
    (mk i es cs).entries = es := rfl
@[simp] lemma children_mk (i : NodeId) (es : List (K × V)) (cs : List (Tree K V)) :
    (mk i es cs).children = cs := rfl

lemma eta (t : Tree K V) : mk t.id t.entries t.children = t := by
  cases t
  rfl

def ids : Nat → Tree K V → List NodeId
  | 0, t => [t.id]
  | h + 1, t => t.id :: t.children.flatMap (ids h)

def toList : Nat → Tree K V → List (K × V)
  | 0, t => t.entries
  | h + 1, t => weave (t.children.map (toList h)) t.entries

def Rep (nodes : NodeId → Option (TreeNode K V)) : Nat → Option NodeId → Tree K V → Prop
  | 0, parent, t => nodes t.id = some ⟨true, parent, t.entries, []⟩ ∧ t.children = []
  | h + 1, parent, t =>
      nodes t.id = some ⟨false, parent, t.entries, t.children.map id⟩ ∧
        ∀ c ∈ t.children, Rep nodes h (some t.id) c

/-- Nodes are filled as they have to be: the root with at least `least` entries, all others with
at least the minimum, none above the capacity. -/
def Filled (capacity : Nat) (least : Nat) : Nat → Tree K V → Prop
  | 0, t => least ≤ t.entries.length ∧ t.entries.length ≤ capacity
  | h + 1, t =>
      (least ≤ t.entries.length ∧ t.entries.length ≤ capacity) ∧
        t.children.length = t.entries.length + 1 ∧
          ∀ c ∈ t.children, Filled capacity (minCapacity capacity) h c

lemma id_mem_ids (h : Nat) (t : Tree K V) : t.id ∈ t.ids h := by
  cases h <;> simp [ids]

lemma Filled.bounds {capacity least : Nat} (ht : t.Filled capacity least h) :
    least ≤ t.entries.length ∧ t.entries.length ≤ capacity := by
  cases h with
  | zero => exact ht
  | succ h => exact ht.1

lemma Filled.mono {capacity least least' : Nat} (ht : t.Filled capacity least h)
    (hle : least' ≤ t.entries.length) :
    t.Filled capacity least' h := by
  cases h with
  | zero => exact ⟨hle, ht.2⟩
  | succ h => exact ⟨⟨hle, ht.1.2⟩, ht.2⟩

lemma Rep.node {nodes : NodeId → Option (TreeNode K V)} (ht : t.Rep nodes h p) :
    nodes t.id = some ⟨decide (h = 0), p, t.entries, t.children.map id⟩ := by
  cases h with
  | zero => simpa [ht.2] using ht.1
  | succ h => simpa using ht.1

lemma Rep.congr {nodes nodes' : NodeId → Option (TreeNode K V)} (ht : t.Rep nodes h p)
    (hsame : ∀ i ∈ t.ids h, nodes' i = nodes i) :
    t.Rep nodes' h p := by
  induction h generalizing t p with
  | zero => exact ⟨by rw [hsame _ (id_mem_ids 0 t)]; exact ht.1, ht.2⟩
  | succ h ih =>
    refine ⟨by rw [hsame _ (id_mem_ids _ t)]; exact ht.1, fun c hc => ih (ht.2 c hc) fun i hi => ?_⟩
    exact hsame i (mem_cons_of_mem _ (mem_flatMap.2 ⟨c, hc, hi⟩))

lemma Rep.reparent {nodes nodes' : NodeId → Option (TreeNode K V)} {q : Option NodeId}
    (ht : t.Rep nodes h p) (hroot : nodes' t.id = (nodes t.id).map fun n => { n with parent := q })
    (hsame : ∀ i ∈ t.ids h, i ≠ t.id → nodes' i = nodes i) (hnodup : (t.ids h).Nodup) :
    t.Rep nodes' h q := by
  cases h with
  | zero => exact ⟨by rw [hroot, ht.1]; rfl, ht.2⟩
  | succ h =>
    refine ⟨by rw [hroot, ht.1]; rfl, fun c hc => (ht.2 c hc).congr fun i hi => ?_⟩
    have hmem : i ∈ t.children.flatMap (ids h) := mem_flatMap.2 ⟨c, hc, hi⟩
    refine hsame i (mem_cons_of_mem _ hmem) ?_
    rintro rfl
    exact (nodup_cons.1 hnodup).1 hmem

lemma length_toList (h : Nat) (t : Tree K V) :
    (t.toList (h + 1)).length =
      (t.children.map fun c => (c.toList h).length).sum + t.entries.length := by
  rw [toList, length_weave, map_map]
  rfl

lemma entries_subset (h : Nat) (t : Tree K V) : ∀ e ∈ t.entries, e ∈ t.toList h := by
  intro e he
  cases h with
  | zero => exact he
  | succ h => exact mem_weave.2 (.inr he)

end Tree

/-! ## Frames -/

structure Frame (K V : Type) where
  id : NodeId
  entriesL : List (K × V)
  childrenL : List (Tree K V)
  entriesR : List (K × V)
  childrenR : List (Tree K V)

namespace Frame

variable {K V : Type}

def fill (f : Frame K V) (t : Tree K V) : Tree K V :=
  .mk f.id (f.entriesL ++ f.entriesR) (f.childrenL ++ t :: f.childrenR)

def ids (h : Nat) (f : Frame K V) : List NodeId :=
  f.id :: (f.childrenL ++ f.childrenR).flatMap (Tree.ids h)

def before (h : Nat) (f : Frame K V) : List (K × V) :=
  weave (f.childrenL.map (Tree.toList h)) f.entriesL

def after (h : Nat) (f : Frame K V) : List (K × V) :=
  weave ([] :: f.childrenR.map (Tree.toList h)) f.entriesR

def Cut (f : Frame K V) : Prop :=
  f.childrenL.length = f.entriesL.length ∧ f.childrenR.length = f.entriesR.length

lemma ids_fill (h : Nat) (f : Frame K V) (t : Tree K V) :
    ((f.fill t).ids (h + 1)).Perm (t.ids h ++ f.ids h) := by
  have hmid : (f.id :: (f.childrenL ++ t :: f.childrenR).flatMap (Tree.ids h)).Perm
      (f.id :: (t.ids h ++ (f.childrenL ++ f.childrenR).flatMap (Tree.ids h))) := by
    refine Perm.cons _ ?_
    have hperm : (f.childrenL ++ t :: f.childrenR).Perm (t :: (f.childrenL ++ f.childrenR)) :=
      perm_middle
    simpa using hperm.flatMap_right (Tree.ids h)
  exact hmid.trans perm_middle.symm

lemma toList_fill (h : Nat) {f : Frame K V} (hf : f.Cut) (t : Tree K V) :
    (f.fill t).toList (h + 1) = f.before h ++ (t.toList h ++ f.after h) := by
  simp only [fill, Tree.toList, Tree.children_mk, Tree.entries_mk, map_append, map_cons]
  rw [weave_hole (by rw [length_map]; exact hf.1)]
  rfl

end Frame

namespace BTree

variable {K V : Type} {fs : List (Frame K V)}

def parentOf (fs : List (Frame K V)) : Option NodeId := fs.head?.map Frame.id

lemma parentOf_cons (f : Frame K V) (fs : List (Frame K V)) : parentOf (f :: fs) = some f.id := rfl

def plug : List (Frame K V) → Tree K V → Tree K V
  | [], t => t
  | f :: fs, t => plug fs (f.fill t)

def ctxIds : Nat → List (Frame K V) → List NodeId
  | _, [] => []
  | h, f :: fs => f.ids h ++ ctxIds (h + 1) fs

def before : Nat → List (Frame K V) → List (K × V)
  | _, [] => []
  | h, f :: fs => before (h + 1) fs ++ f.before h

def after : Nat → List (Frame K V) → List (K × V)
  | _, [] => []
  | h, f :: fs => f.after h ++ after (h + 1) fs

lemma frame_mem_ctxIds {h : Nat} {f : Frame K V} (hf : f ∈ fs) :
    f.id ∈ ctxIds h fs := by
  induction fs generalizing h with
  | nil => simp at hf
  | cons g fs ih =>
    rcases mem_cons.1 hf with rfl | hf
    · exact mem_append_left _ mem_cons_self
    · exact mem_append_right _ (ih hf)

/-- The memory holds the frames above node `x`. -/
def RepCtx (nodes : NodeId → Option (TreeNode K V)) : Nat → List (Frame K V) → NodeId → Prop
  | _, [], _ => True
  | h, f :: fs, x =>
      nodes f.id = some ⟨false, parentOf fs, f.entriesL ++ f.entriesR,
          f.childrenL.map Tree.id ++ x :: f.childrenR.map Tree.id⟩ ∧
        (∀ c ∈ f.childrenL ++ f.childrenR, c.Rep nodes h (some f.id)) ∧ RepCtx nodes (h + 1) fs f.id

/-- The least number of entries of a node below the given frames. -/
def leastBelow (capacity : Nat) (fs : List (Frame K V)) : Nat :=
  if fs.isEmpty then 1 else minCapacity capacity

def FilledCtx (capacity : Nat) : Nat → List (Frame K V) → Prop
  | _, [] => True
  | h, f :: fs =>
      f.Cut ∧
        (leastBelow capacity fs ≤ f.entriesL.length + f.entriesR.length ∧
          f.entriesL.length + f.entriesR.length ≤ capacity) ∧
        (∀ c ∈ f.childrenL ++ f.childrenR, c.Filled capacity (minCapacity capacity) h) ∧
          FilledCtx capacity (h + 1) fs

lemma RepCtx.congr {nodes nodes' : NodeId → Option (TreeNode K V)} {h : Nat} {x : NodeId}
    (hfs : RepCtx nodes h fs x) (hsame : ∀ i ∈ ctxIds h fs, nodes' i = nodes i) :
    RepCtx nodes' h fs x := by
  induction fs generalizing h x with
  | nil => trivial
  | cons f fs ih =>
    have hmem : ∀ i ∈ f.ids h, i ∈ ctxIds h (f :: fs) := fun i hi => mem_append_left _ hi
    refine ⟨?_, fun c hc => (hfs.2.1 c hc).congr fun i hi => hsame i (hmem i ?_), ih hfs.2.2
      fun i hi => hsame i (mem_append_right _ hi)⟩
    · rw [hsame f.id (hmem f.id mem_cons_self)]
      exact hfs.1
    · exact mem_cons_of_mem _ (mem_flatMap.2 ⟨c, hc, hi⟩)

lemma plug_id {t t' : Tree K V} (h : t'.id = t.id ∨ fs ≠ []) :
    (plug fs t').id = (plug fs t).id := by
  induction fs generalizing t t' with
  | nil => simpa [plug] using h
  | cons f fs ih => exact ih (.inl rfl)

/-! ## Positions -/

/-- The map stands at node `t`, of height `h`, below the frames `fs`. All nodes outside `t` are
filled, and the entries are in key order. -/
structure At [LinearOrder K] (capacity : Nat) (m : BTreeMap K V) (h : Nat) (fs : List (Frame K V))
    (t : Tree K V) : Prop where
  root : m.rootNode = some (plug fs t).id
  ctx : RepCtx m.nodes h fs t.id
  rep : t.Rep m.nodes h (parentOf fs)
  nodup : (t.ids h ++ ctxIds h fs).Nodup
  bound : ∀ i ∈ t.ids h ++ ctxIds h fs, i < m.next
  filled : FilledCtx capacity h fs
  sorted : KeySorted (before h fs ++ (t.toList h ++ after h fs))

section At

variable [LinearOrder K] {capacity h : Nat} {m m' : BTreeMap K V} {fs : List (Frame K V)}
  {f : Frame K V} {t t' : Tree K V}

lemma At.up (ha : At capacity m h (f :: fs) t) : At capacity m (h + 1) fs (f.fill t) := by
  have hperm : ((f.fill t).ids (h + 1) ++ ctxIds (h + 1) fs).Perm
      (t.ids h ++ ctxIds h (f :: fs)) := by
    rw [ctxIds, ← append_assoc]
    exact (f.ids_fill h t).append_right _
  refine ⟨ha.root, ha.ctx.2.2, ⟨?_, fun c hc => ?_⟩, hperm.nodup_iff.2 ha.nodup,
    fun i hi => ha.bound i (hperm.subset hi), ha.filled.2.2.2, ?_⟩
  · simpa [Frame.fill] using ha.ctx.1
  · simp only [Frame.fill, Tree.children_mk, mem_append, mem_cons] at hc
    rcases hc with hc | rfl | hc
    · exact ha.ctx.2.1 c (by simp [hc])
    · exact ha.rep
    · exact ha.ctx.2.1 c (by simp [hc])
  · rw [f.toList_fill h ha.filled.1]
    simpa [before, after] using ha.sorted

lemma At.down (ha : At capacity m (h + 1) fs (f.fill t)) (hf : f.Cut)
    (hfill : (f.fill t).Filled capacity (leastBelow capacity fs) (h + 1)) :
    At capacity m h (f :: fs) t := by
  have hperm : ((f.fill t).ids (h + 1) ++ ctxIds (h + 1) fs).Perm
      (t.ids h ++ ctxIds h (f :: fs)) := by
    rw [ctxIds, ← append_assoc]
    exact (f.ids_fill h t).append_right _
  obtain ⟨hcount, -, hchildren⟩ := hfill
  have hmem : ∀ c ∈ f.childrenL ++ f.childrenR, c ∈ (f.fill t).children := by
    intro c hc
    rcases mem_append.1 hc with hc | hc <;> simp [Frame.fill, hc]
  refine ⟨ha.root, ⟨?_, fun c hc => ha.rep.2 c (hmem c hc), ha.ctx⟩,
    ha.rep.2 t (by simp [Frame.fill]), hperm.nodup_iff.1 ha.nodup,
    fun i hi => ha.bound i (hperm.symm.subset hi),
    ⟨hf, by simpa [Frame.fill] using hcount, fun c hc => hchildren c (hmem c hc), ha.filled⟩, ?_⟩
  · simpa [Frame.fill] using ha.rep.1
  · have hsorted := ha.sorted
    rw [f.toList_fill h hf] at hsorted
    simpa [before, after] using hsorted

structure Local (m m' : BTreeMap K V) (h : Nat) (t t' : Tree K V) : Prop where
  id : t'.id = t.id
  ids : ∀ i ∈ t'.ids h, i ∈ t.ids h
  nodup : (t'.ids h).Nodup
  frame : ∀ i, i ∉ t.ids h → m'.nodes i = m.nodes i
  root : m'.rootNode = m.rootNode
  next : m'.next = m.next

lemma At.replace (ha : At capacity m h fs t) (hl : Local m m' h t t')
    (hrep : t'.Rep m'.nodes h (parentOf fs))
    (hsorted : KeySorted (before h fs ++ (t'.toList h ++ after h fs))) :
    At capacity m' h fs t' := by
  have hdisj := nodup_append.1 ha.nodup
  refine ⟨?_, ?_, hrep, nodup_append.2 ⟨hl.nodup, hdisj.2.1, ?_⟩, ?_, ha.filled, hsorted⟩
  · rw [hl.root, ha.root, plug_id (.inl hl.id)]
  · rw [hl.id]
    refine ha.ctx.congr fun i hi => hl.frame i fun hmem => ?_
    exact hdisj.2.2 i hmem i hi rfl
  · intro i hi j hj
    exact hdisj.2.2 i (hl.ids i hi) j hj
  · intro i hi
    rw [hl.next]
    refine ha.bound i ?_
    rcases mem_append.1 hi with hi | hi
    · exact mem_append_left _ (hl.ids i hi)
    · exact mem_append_right _ hi

lemma At.setEntries {i : NodeId} {es es' : List (K × V)} {cs : List (Tree K V)}
    (ha : At capacity m h fs (.mk i es cs))
    (hsorted : KeySorted (before h fs ++ ((Tree.mk i es' cs).toList h ++ after h fs))) :
    At capacity (m.set i ⟨decide (h = 0), parentOf fs, es', cs.map Tree.id⟩) h fs (.mk i es' cs) := by
  have hids : (Tree.mk i es' cs).ids h = (Tree.mk i es cs).ids h := by cases h <;> rfl
  have hnodup := (nodup_append.1 ha.nodup).1
  refine ha.replace ⟨rfl, fun k hk => hids ▸ hk, hids ▸ hnodup, fun k hk => set_nodes_ne ?_, rfl,
    rfl⟩ ?_ hsorted
  · rintro rfl
    exact hk (Tree.id_mem_ids h (.mk k es cs))
  · cases h with
    | zero =>
      obtain rfl : cs = [] := ha.rep.2
      exact ⟨by simp, rfl⟩
    | succ h =>
      refine ⟨by simp, fun c hc => (ha.rep.2 c hc).congr fun k hk => set_nodes_ne ?_⟩
      rintro rfl
      exact (nodup_cons.1 hnodup).1 (mem_flatMap.2 ⟨c, hc, hk⟩)

lemma At.congr (ha : At capacity m h fs t)
    (hsame : ∀ i ∈ t.ids h ++ ctxIds h fs, m'.nodes i = m.nodes i)
    (hroot : m'.rootNode = m.rootNode) (hnext : m.next ≤ m'.next) : At capacity m' h fs t :=
  ⟨hroot.trans ha.root, ha.ctx.congr fun i hi => hsame i (mem_append_right _ hi),
    ha.rep.congr fun i hi => hsame i (mem_append_left _ hi), ha.nodup,
    fun i hi => (ha.bound i hi).trans_le hnext, ha.filled, ha.sorted⟩

def Holds (capacity : Nat) (m : BTreeMap K V) (list : List (K × V)) : Prop :=
  (m.rootNode = none ∧ list = []) ∨
    ∃ h t, At capacity m h [] t ∧ t.Filled capacity 1 h ∧ t.toList h = list

lemma At.fill_filled (ha : At capacity m h (f :: fs) t)
    (ht : t.Filled capacity (minCapacity capacity) h) :
    (f.fill t).Filled capacity (leastBelow capacity fs) (h + 1) := by
  obtain ⟨⟨hcutL, hcutR⟩, hcount, hothers, -⟩ := ha.filled
  refine ⟨by simpa [Frame.fill] using hcount, ?_, fun c hc => ?_⟩
  · simp only [Frame.fill, Tree.children_mk, Tree.entries_mk, length_append, length_cons]
    omega
  · simp only [Frame.fill, Tree.children_mk, mem_append, mem_cons] at hc
    rcases hc with hc | rfl | hc
    · exact hothers c (by simp [hc])
    · exact ht
    · exact hothers c (by simp [hc])

omit [LinearOrder K] in
lemma list_cons {c : Tree K V} (hf : f.Cut) :
    before h (f :: fs) ++ (c.toList h ++ after h (f :: fs)) =
      before (h + 1) fs ++ ((f.fill c).toList (h + 1) ++ after (h + 1) fs) := by
  rw [Frame.toList_fill h hf]
  simp [before, after]

lemma At.holds (ha : At capacity m h fs t)
    (ht : t.Filled capacity (leastBelow capacity fs) h) :
    Holds capacity m (before h fs ++ (t.toList h ++ after h fs)) := by
  induction fs generalizing h t with
  | nil =>
    refine .inr ⟨h, t, ha, by simpa [leastBelow] using ht, ?_⟩
    simp [before, after]
  | cons f fs ih =>
    rw [list_cons ha.filled.1]
    exact ih ha.up (ha.fill_filled (by simpa [leastBelow] using ht))

end At

end BTree
end BezOS
