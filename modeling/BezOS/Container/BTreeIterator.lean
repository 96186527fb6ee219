import BezOS.Container.BTreeRefinement

/-!
# Iteration

`BTreeMapIterator` holds a node and a position there; it has no stack and climbs by the parents
and the position of a child below its parent. An iterator points at the rest of the listing: the
entry under it comes first, and a step takes it to the iterator that points at what follows.
-/

namespace BezOS
namespace BTreeMap

open BTree

variable {K V : Type}

/-- The loop of `increment` that climbs past exhausted nodes. -/
def ascend : Nat → BTreeMap K V → NodeId → Nat → Except Fault (NodeId × Nat)
  | 0, _, _, _ => .error .outOfFuel
  | fuel + 1, m, node, index => do
      let n ← m.deref node
      match n.parent with
      | none => pure (node, index)
      | some parent =>
          if index = n.entries.length then do
            let p ← m.deref parent
            let newIndex ← indexOfChild p node
            ascend fuel m parent newIndex
          else pure (node, index)

/-- The loops of `begin` and `increment` that go down to the first leaf. -/
def firstLeaf : Nat → BTreeMap K V → NodeId → Except Fault NodeId
  | 0, _, _ => .error .outOfFuel
  | fuel + 1, m, node => do
      let n ← m.deref node
      if n.isLeaf then pure node
      else do
        let child ← getLeaf n 0
        firstLeaf fuel m child

/-- `increment`; `none` is `end()`. -/
def increment (m : BTreeMap K V) (node : NodeId) (index : Nat) :
    Except Fault (Option (NodeId × Nat)) := do
  let n ← m.deref node
  if n.isLeaf then do
    let (node, index) ← m.ascend (m.next + 1) node index
    let n ← m.deref node
    if n.parent = none ∧ index + 1 > n.entries.length then pure none
    else pure (some (node, index))
  else do
    let child ← getLeaf n (index + 1)
    let leaf ← m.firstLeaf (m.next + 1) child
    pure (some (leaf, 0))

/-- `operator++`; the position in a leaf is moved by the test. -/
def advance (m : BTreeMap K V) (it : NodeId × Nat) : Except Fault (Option (NodeId × Nat)) := do
  let n ← m.deref it.1
  if n.isLeaf then
    if it.2 + 1 < n.entries.length then pure (some (it.1, it.2 + 1))
    else m.increment it.1 (it.2 + 1)
  else m.increment it.1 it.2

def begin (m : BTreeMap K V) : Except Fault (Option (NodeId × Nat)) :=
  match m.rootNode with
  | none => .ok none
  | some root => do
      let leaf ← m.firstLeaf (m.next + 1) root
      pure (some (leaf, 0))

/-- The entries read in a loop from an iterator to `end()`. -/
def iterateFrom : Nat → BTreeMap K V → Option (NodeId × Nat) → Except Fault (List (K × V))
  | _, _, none => .ok []
  | 0, _, some _ => .error .outOfFuel
  | steps + 1, m, some it => do
      let e ← m.entryOf it
      let next ← m.advance it
      let rest ← iterateFrom steps m next
      pure (e :: rest)

/-- The loop from `begin()` to `end()`, left after the given number of steps. -/
def iterate (steps : Nat) (m : BTreeMap K V) : Except Fault (List (K × V)) := do
  let it ← m.begin
  iterateFrom steps m it

end BTreeMap

namespace BTree

open Lib

variable {K V : Type} [LinearOrder K] {capacity h fuel : Nat} {m : BTreeMap K V}
  {fs : List (Frame K V)} {f : Frame K V} {t : Tree K V} {list rest : List (K × V)}
  {cs : List (Tree K V)}

/-- An iterator and the entries from it to the end: in a leaf the rest of the leaf, in an internal
node what follows the child before the position. -/
inductive Points (capacity : Nat) (m : BTreeMap K V) : Option (NodeId × Nat) → List (K × V) → Prop
  | finish : Points capacity m none []
  | leaf {fs : List (Frame K V)} {t : Tree K V} {i : Nat} : At capacity m 0 fs t →
      t.Filled capacity (leastBelow capacity fs) 0 → i < t.entries.length →
      Points capacity m (some (t.id, i)) (t.entries.drop i ++ after 0 fs)
  | internal {h : Nat} {f : Frame K V} {fs : List (Frame K V)} {t : Tree K V} :
      At capacity m h (f :: fs) t → t.Filled capacity (leastBelow capacity (f :: fs)) h →
      f.entriesR ≠ [] → Points capacity m (some (f.id, f.entriesL.length)) (after h (f :: fs))

/-! ## Down to the first leaf -/

omit [LinearOrder K] in
lemma exists_first_child (ht : t.Filled capacity (leastBelow capacity fs) (h + 1)) :
    ∃ f c, t = Frame.fill f c ∧ f.Cut ∧ f.entriesL = [] ∧ f.childrenL = [] := by
  obtain ⟨i, es, cs⟩ := t
  have hlen : cs.length = es.length + 1 := ht.2.1
  cases cs with
  | nil => simp at hlen
  | cons c cs =>
    have hcs : cs.length = es.length := by simpa using hlen
    exact ⟨⟨i, [], [], es, cs⟩, c, rfl, ⟨rfl, hcs⟩, rfl, rfl⟩

omit [LinearOrder K] in
lemma leastBelow_pos (capacity : Nat) (fs : List (Frame K V)) : 0 < leastBelow capacity fs := by
  unfold leastBelow minCapacity
  split <;> omega

lemma firstLeaf_spec (hfuel : h < fuel) (ha : At capacity m h fs t)
    (ht : t.Filled capacity (leastBelow capacity fs) h) :
    ∃ leaf, m.firstLeaf fuel t.id = .ok leaf ∧
      Points capacity m (some (leaf, 0)) (t.toList h ++ after h fs) := by
  induction h generalizing fuel fs t with
  | zero =>
    obtain ⟨fuel, rfl⟩ : ∃ n, fuel = n + 1 := ⟨fuel - 1, by omega⟩
    refine ⟨t.id, by simp [BTreeMap.firstLeaf, deref_eq ha.rep.node], ?_⟩
    have hpos : 0 < t.entries.length := (leastBelow_pos capacity fs).trans_le ht.1
    exact .leaf ha ht hpos
  | succ h ih =>
    obtain ⟨fuel, rfl⟩ : ∃ n, fuel = n + 1 := ⟨fuel - 1, by omega⟩
    have hderef := deref_eq ha.rep.node
    obtain ⟨f, c, rfl, hf, hes, hcs⟩ := exists_first_child ht
    obtain ⟨hac, htc⟩ := ha.child hf ht
    obtain ⟨leaf, hrun, hpoints⟩ := ih (Nat.lt_of_succ_lt_succ hfuel) hac htc
    have hchild : ((f.fill c).children.map Tree.id)[0]? = some c.id := by simp [Frame.fill, hcs]
    refine ⟨leaf, ?_, ?_⟩
    · simp only [BTreeMap.firstLeaf, hderef, ok_bind, Nat.succ_ne_zero, decide_false,
        Bool.false_eq_true, if_false, BTreeMap.getLeaf, hchild, BTreeMap.follow, hrun]
    · -- nothing of the node stands before its first child
      have hbefore : f.before h = [] := by simp [Frame.before, hes, hcs]
      rw [Frame.toList_fill h hf, hbefore, List.nil_append, List.append_assoc]
      exact hpoints

/-! ## Up past exhausted nodes -/

omit [LinearOrder K] in
lemma Frame.after_nil {f : Frame K V} (hf : f.Cut) (hes : f.entriesR = []) : f.after h = [] := by
  have hcs : f.childrenR = [] := by
    rw [← List.length_eq_zero_iff, hf.2, hes, List.length_nil]
  simp [Frame.after, hes, hcs]

lemma ascend_spec (hfuel : fs.length < fuel) (ha : At capacity m h fs t)
    (ht : t.Filled capacity (leastBelow capacity fs) h) :
    ∃ node index n next, m.ascend fuel t.id t.entries.length = .ok (node, index) ∧
      m.deref node = .ok n ∧
      next = (if n.parent = none ∧ index + 1 > n.entries.length then none else some (node, index)) ∧
      Points capacity m next (after h fs) := by
  induction fs generalizing fuel h t with
  | nil =>
    obtain ⟨fuel, rfl⟩ : ∃ n, fuel = n + 1 := ⟨fuel - 1, by simp at hfuel; omega⟩
    have hderef := deref_eq ha.rep.node
    refine ⟨t.id, t.entries.length, _, none, by simp [BTreeMap.ascend, hderef, parentOf], hderef,
      ?_, .finish⟩
    rw [if_pos ⟨rfl, Nat.lt_succ_self _⟩]
  | cons f fs ih =>
    obtain ⟨fuel, rfl⟩ : ∃ n, fuel = n + 1 := ⟨fuel - 1, by simp at hfuel; omega⟩
    have hfuel' : fs.length < fuel := by simpa using hfuel
    have hderef := deref_eq ha.rep.node
    have hcut : f.Cut := ha.filled.1
    have hparent : m.deref f.id = .ok ⟨false, parentOf fs, f.entriesL ++ f.entriesR,
        f.childrenL.map Tree.id ++ t.id :: f.childrenR.map Tree.id⟩ := deref_eq ha.ctx.1
    -- the node is where its parent holds it
    have hfresh : t.id ∉ f.childrenL.map Tree.id := by
      intro hmem
      obtain ⟨c, hc, hid⟩ := List.mem_map.1 hmem
      have hctx : c.id ∈ ctxIds h (f :: fs) := by
        refine List.mem_append_left _ (List.mem_cons_of_mem _ (List.mem_flatMap.2 ⟨c, ?_, ?_⟩))
        · exact List.mem_append_left _ hc
        · exact Tree.id_mem_ids h c
      exact (List.nodup_append.1 ha.nodup).2.2 t.id (Tree.id_mem_ids h t) c.id hctx hid.symm
    have hindex := indexOfChild_eq (b := false) (p := parentOf fs)
      (e := f.entriesL ++ f.entriesR) (r := f.childrenR.map Tree.id) hfresh
    rw [List.length_map, hcut.1] at hindex
    have hclimb : m.ascend (fuel + 1) t.id t.entries.length =
        m.ascend fuel f.id f.entriesL.length := by
      simp [BTreeMap.ascend, hderef, parentOf_cons, if_true, hparent, hindex]
    rw [hclimb]
    by_cases hes : f.entriesR = []
    · -- the parent is exhausted as well
      have hlast : f.entriesL.length = (f.fill t).entries.length := by simp [Frame.fill, hes]
      have hrest : after h (f :: fs) = after (h + 1) fs := by
        rw [after, Frame.after_nil hcut hes, List.nil_append]
      rw [hlast, hrest]
      have htf : t.Filled capacity (minCapacity capacity) h := by simpa [leastBelow] using ht
      exact ih hfuel' ha.up (ha.fill_filled htf)
    · obtain ⟨fuel, rfl⟩ : ∃ n, fuel = n + 1 := ⟨fuel - 1, by omega⟩
      have hpos : 0 < f.entriesR.length := List.length_pos_iff.2 hes
      have hroom : f.entriesL.length < (f.entriesL ++ f.entriesR).length := by
        rw [List.length_append]
        omega
      refine ⟨f.id, f.entriesL.length, _, some (f.id, f.entriesL.length), ?_, hparent, ?_,
        .internal ha ht hes⟩
      · simp only [BTreeMap.ascend, hparent, ok_bind, if_neg hroom.ne, pure_eq_ok]
        cases parentOf fs <;> rfl
      · have hstay : ¬ f.entriesL.length + 1 > (f.entriesL ++ f.entriesR).length := by omega
        rw [if_neg fun hboth => hstay hboth.2]

/-! ## Steps -/

omit [LinearOrder K] in
lemma after_cons {e : K × V} {es : List (K × V)} {c : Tree K V} (hes : f.entriesR = e :: es)
    (hcs : f.childrenR = c :: cs) :
    after h (f :: fs) =
      e :: (c.toList h ++ after h
        (⟨f.id, f.entriesL ++ [e], f.childrenL ++ [t], es, cs⟩ :: fs)) := by
  simp only [after, Frame.after, hes, hcs, List.map_cons, weave_cons_cons, List.nil_append]
  rw [weave_cons]
  simp

lemma At.sibling {e : K × V} {es : List (K × V)} {c : Tree K V} (ha : At capacity m h (f :: fs) t)
    (ht : t.Filled capacity (leastBelow capacity (f :: fs)) h) (hes : f.entriesR = e :: es)
    (hcs : f.childrenR = c :: cs) :
    At capacity m h (⟨f.id, f.entriesL ++ [e], f.childrenL ++ [t], es, cs⟩ :: fs) c ∧
      c.Filled capacity
        (leastBelow capacity
          ((⟨f.id, f.entriesL ++ [e], f.childrenL ++ [t], es, cs⟩ : Frame K V) :: fs)) h := by
  have hcut : f.Cut := ha.filled.1
  have hfill : f.fill t =
      Frame.fill ⟨f.id, f.entriesL ++ [e], f.childrenL ++ [t], es, cs⟩ c := by
    simp [Frame.fill, hes, hcs]
  have hup := ha.up
  have htf := ha.fill_filled (by simpa [leastBelow] using ht)
  rw [hfill] at hup htf
  refine hup.child ⟨?_, ?_⟩ htf
  · simpa using hcut.1
  · have := hcut.2
    rw [hes, hcs] at this
    simpa using this

lemma Points.step {it : NodeId × Nat} (hp : Points capacity m (some it) list) :
    ∃ e rest next, list = e :: rest ∧ m.entryOf it = .ok e ∧ m.advance it = .ok next ∧
      Points capacity m next rest := by
  cases hp with
  | @leaf fs t i ha ht hi =>
    have hderef := deref_eq ha.rep.node
    have hread : m.entryOf (t.id, i) = .ok t.entries[i] := by
      simp [BTreeMap.entryOf, hderef, entryAt, List.getElem?_eq_getElem hi]
    have hdrop : t.entries.drop i ++ after 0 fs =
        t.entries[i] :: (t.entries.drop (i + 1) ++ after 0 fs) := by
      rw [List.drop_eq_getElem_cons hi, List.cons_append]
    by_cases hnext : i + 1 < t.entries.length
    · refine ⟨_, _, some (t.id, i + 1), hdrop, hread, ?_, .leaf ha ht hnext⟩
      simp [BTreeMap.advance, hderef, hnext]
    · -- the leaf is exhausted
      have hlast : i + 1 = t.entries.length := by omega
      have hfuel : fs.length < m.next + 1 := by
        have := ha.lt_next ht
        omega
      obtain ⟨node, index, n, next, hclimb, hnode, rfl, hpoints⟩ := ascend_spec hfuel ha ht
      have hrest : t.entries.drop (i + 1) ++ after 0 fs = after 0 fs := by
        rw [hlast, List.drop_length, List.nil_append]
      refine ⟨_, _, _, hdrop, hread, ?_, hrest ▸ hpoints⟩
      have hstep : m.advance (t.id, i) = m.increment t.id t.entries.length := by
        simp [BTreeMap.advance, hderef, hlast]
      rw [hstep]
      simp only [BTreeMap.increment, hderef, ok_bind, decide_true, if_true, hclimb, hnode,
        pure_eq_ok]
      split <;> rfl
  | @internal h f fs t ha ht hes =>
    have hcut : f.Cut := ha.filled.1
    obtain ⟨e, es, hes⟩ := List.exists_cons_of_ne_nil hes
    obtain ⟨c, cs, hcs⟩ : ∃ c cs, f.childrenR = c :: cs := by
      refine List.exists_cons_of_ne_nil fun hnil => ?_
      have := hcut.2
      rw [hes, hnil] at this
      simp at this
    have hderef : m.deref f.id = .ok ⟨false, parentOf fs, f.entriesL ++ f.entriesR,
        f.childrenL.map Tree.id ++ t.id :: f.childrenR.map Tree.id⟩ := deref_eq ha.ctx.1
    obtain ⟨hac, htc⟩ := ha.sibling ht hes hcs
    have hfuel : h < m.next + 1 := by
      have := hac.lt_next htc
      omega
    obtain ⟨leaf, hdown, hpoints⟩ := firstLeaf_spec hfuel hac htc
    refine ⟨e, _, some (leaf, 0), after_cons hes hcs, ?_, ?_, hpoints⟩
    · simp [BTreeMap.entryOf, hderef, entryAt, hes]
    · have hchild : (f.childrenL.map Tree.id ++ t.id :: f.childrenR.map Tree.id)[
          f.entriesL.length + 1]? = some c.id := by
        rw [List.getElem?_append_right (by simp [hcut.1]), List.length_map, hcut.1, hcs]
        simp
      simp [BTreeMap.advance, BTreeMap.increment, hderef, BTreeMap.getLeaf, BTreeMap.follow,
        hchild, hdown]

/-! ## The whole loop -/

lemma Points.iterateFrom {it : Option (NodeId × Nat)} (hp : Points capacity m it list)
    {steps : Nat} (hsteps : list.length ≤ steps) :
    BTreeMap.iterateFrom steps m it = .ok list := by
  induction steps generalizing it list with
  | zero =>
    cases it with
    | none =>
      cases hp
      rfl
    | some it =>
      obtain ⟨e, rest, next, rfl, -⟩ := hp.step
      simp at hsteps
  | succ steps ih =>
    cases it with
    | none =>
      cases hp
      rfl
    | some it =>
      obtain ⟨e, rest, next, rfl, hread, hnext, hpoints⟩ := hp.step
      have hrest := ih hpoints (by simpa using hsteps)
      simp [BTreeMap.iterateFrom, hread, hnext, hrest, pure_eq_ok]

lemma iterate_spec (hm : Holds capacity m list) {steps : Nat} (hsteps : list.length ≤ steps) :
    m.iterate steps = .ok list := by
  rcases hm with ⟨hroot, rfl⟩ | ⟨h, t, ha, ht, rfl⟩
  · cases steps <;> simp [BTreeMap.iterate, BTreeMap.begin, hroot, BTreeMap.iterateFrom]
  · have hroot : m.rootNode = some t.id := ha.root
    have hfuel : h < m.next + 1 := by
      have := ha.lt_next ht
      omega
    obtain ⟨leaf, hdown, hpoints⟩ := firstLeaf_spec hfuel ha ht
    rw [after, List.append_nil] at hpoints
    simp only [BTreeMap.iterate, BTreeMap.begin, hroot, hdown, ok_bind, pure_eq_ok]
    exact hpoints.iterateFrom hsteps

/-- After every sequence of calls that returns, the loop from `begin()` to `end()` comes to an end
and reads each key of the finite map once, in increasing order and with its value. -/
theorem iterate_of_run (fit : Nat) (grants : NodeId → Bool) (rs : List (MapRequest K V))
    (replies : List (MapReply K V)) (m : BTreeMap K V)
    (hrun : BTreeMap.empty.serveAll (kOrder fit) grants rs = .ok (replies, m)) :
    ∃ f list, AnswersAll (∃ i, grants i = false) ∅ rs replies f ∧
      (∀ steps, list.length ≤ steps → m.iterate steps = .ok list) ∧
      list.Pairwise (fun x y => x.1 < y.1) ∧ (∀ k v, (k, v) ∈ list ↔ f.lookup k = some v) ∧
      m.count = .ok list.length := by
  rcases serveAll_spec grants (le_max_left 3 fit) (represents_empty) rs with
    ⟨replies', m', f, hrun', hans, list, hlist, hf⟩ | ⟨-, hfail⟩
  · obtain ⟨rfl, rfl⟩ := Prod.mk.inj (Except.ok.inj (hrun'.symm.trans hrun))
    exact ⟨f, list, hans, fun steps hsteps => iterate_spec hlist hsteps, hf.sorted, hf.mem,
      count_spec hlist⟩
  · exact absurd (hrun.symm.trans hfail) (by simp)

/-- Four keys make a map of node order three split its root; the loop climbs out of both leaves. -/
theorem iterate_of_four_keys :
    ∃ m : BTreeMap Nat Nat,
      BTreeMap.empty.serveAll (kOrder 3) (fun _ => true)
          [.insert 2 20, .insert 1 10, .insert 4 40, .insert 3 30] =
        .ok ([.status .success, .status .success, .status .success, .status .success], m) ∧
      m.iterate 4 = .ok [(1, 10), (2, 20), (3, 30), (4, 40)] ∧
      ∃ f list, AnswersAll (∃ i : NodeId, (fun _ => true) i = false) ∅
          [.insert 2 20, .insert 1 10, .insert 4 40, .insert 3 30]
          [.status .success, .status .success, .status .success, .status .success] f ∧
        (∀ steps, list.length ≤ steps → m.iterate steps = .ok list) ∧
        list.Pairwise (fun x y => x.1 < y.1) ∧ (∀ k v, (k, v) ∈ list ↔ f.lookup k = some v) ∧
        m.count = .ok list.length :=
  ⟨_, rfl, rfl, iterate_of_run 3 (fun _ => true)
    [.insert 2 20, .insert 1 10, .insert 4 40, .insert 3 30]
    [.status .success, .status .success, .status .success, .status .success] _ rfl⟩

end BTree
end BezOS
