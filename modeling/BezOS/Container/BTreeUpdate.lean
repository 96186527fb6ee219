import BezOS.Container.BTreeInsert

/-!
# Insertion and memory

`insert` as a whole: the way down to the key, the memory set aside for splitting, and what happens
when the allocator refuses a request. The map is only changed once all memory has been granted.
-/

namespace BezOS
namespace BTree

open Lib BTreeMap BTreeMap.InsertMemoryTracker List Nat Tree

variable {K V : Type} [LinearOrder K] {capacity h fuel : Nat} {m : BTreeMap K V}
  {fs : List (Frame K V)} {t : Tree K V} {k : K} {v : V} (grants : NodeId → Bool)
  {list list' : List (K × V)} {i : NodeId}

def Inserted (k : K) (v : V) (list list' : List (K × V)) : Prop :=
  ∃ x y z, list = x ++ y ++ z ∧ list' = x ++ (k, v) :: z ∧ (∀ e ∈ y, e.1 = k) ∧
    (∀ e ∈ x, e.1 < k) ∧ ∀ e ∈ z, k < e.1

/-- What a call of `insert` on a map with the given listing ends with. -/
def InsertOutcome (capacity : Nat) (grants : NodeId → Bool) (k : K) (v : V) (list : List (K × V))
    (result : Except Fault (OsStatus × BTreeMap K V)) : Prop :=
  (∃ m' list', result = .ok (.success, m') ∧ Inserted k v list list' ∧ Holds capacity m' list') ∨
    (∃ i, grants i = false) ∧
      ((∃ m', result = .ok (.outOfMemory, m') ∧ Holds capacity m' list) ∨
        result = .error .badAccess)

/-! ## The allocator -/

omit [LinearOrder K] in
lemma allocateNode_cases (b : Bool) (p : Option NodeId) :
    (∃ m', m.allocateNode grants b p = (some m.next, m') ∧
      m' = { m with next := m.next + 1 }.set m.next ⟨b, p, [], []⟩) ∨
    m.allocateNode grants b p = (none, { m with next := m.next + 1 }) ∧ grants m.next = false := by
  cases hg : grants m.next with
  | true => exact .inl ⟨_, by simp [allocateNode, allocateMemory, hg], rfl⟩
  | false => exact .inr ⟨by simp [allocateNode, allocateMemory, hg], rfl⟩

omit [LinearOrder K] in
lemma allocate_cases (n : Nat) (pool : List NodeId) :
    ∃ pool' m', allocate grants n pool m = (pool', m') ∧
      m'.nodes = m.nodes ∧ m'.rootNode = m.rootNode ∧ m.next ≤ m'.next ∧
      (pool' = none ∧ (∃ i, grants i = false) ∨
        ∃ new, pool' = some (new ++ pool) ∧ new.length = n ∧ new.Nodup ∧
          ∀ i ∈ new, m.next ≤ i ∧ i < m'.next) := by
  induction n generalizing m pool with
  | zero => exact ⟨_, _, rfl, rfl, rfl, le_rfl, .inr ⟨[], rfl, rfl, nodup_nil, by simp⟩⟩
  | succ n ih =>
    cases hg : grants m.next with
    | false =>
      refine ⟨none, { m with next := m.next + 1 }, ?_, rfl, rfl, le_succ _,
        .inl ⟨rfl, m.next, hg⟩⟩
      simp [allocate, allocateMemory, hg]
    | true =>
      obtain ⟨pool', m', hrun, hnodes, hroot, hnext, hcase⟩ :=
        ih (m := { m with next := m.next + 1 }) (m.next :: pool)
      refine ⟨pool', m', ?_, hnodes, hroot, (le_succ _).trans hnext, ?_⟩
      · simp only [allocate, allocateMemory, hg, if_true]
        exact hrun
      · rcases hcase with hnone | ⟨new, hpool, hlen, hnodup, hbound⟩
        · exact .inl hnone
        · refine .inr ⟨new ++ [m.next], by simp [hpool], by simp [hlen], ?_, ?_⟩
          · refine nodup_append.2 ⟨hnodup, by simp, fun i hi j hj => ?_⟩
            rw [mem_singleton.1 hj]
            exact Nat.ne_of_gt (lt_of_succ_le (hbound i hi).1)
          · intro i hi
            rcases mem_append.1 hi with hi | hi
            · have := hbound i hi
              exact ⟨(le_succ _).trans this.1, this.2⟩
            · rw [mem_singleton.1 hi]
              exact ⟨le_rfl, hnext⟩

/-! ## A full leaf -/

section

variable (hcap : 3 ≤ capacity)

include hcap

lemma splitEntries_spec {j : NodeId} {x z : List (K × V)} {q : Option NodeId} {pool : List NodeId}
    (ha : At capacity m 0 fs (.mk i (x ++ z) [])) (hfull : (x ++ z).length = capacity)
    (hk : Seeks k 0 fs) (hx : ∀ e ∈ x, e.1 < k) (hz : ∀ e ∈ z, k < e.1)
    (hj : m.nodes j = some ⟨true, q, [], []⟩) (hnew : (j :: pool).Nodup)
    (hfresh : ∀ n ∈ j :: pool, n ∉ i :: ctxIds 0 fs ∧ n < m.next) :
    ∃ m' lo mid hi, m.splitEntries capacity i j (k, v) = .ok (mid, m') ∧
      lo ++ mid :: hi = x ++ (k, v) :: z ∧
      (∀ n, n ≠ i → n ≠ j → m'.nodes n = m.nodes n) ∧
      Pending capacity m' 0 fs (.mk i lo []) mid (.mk j hi []) pool := by
  obtain ⟨lo, hi, mid, hsplit, hlist, hlo, hhi⟩ := splitInto_spec hcap hfull hx hz
  have hsorted : KeySorted (before 0 fs ++ ((lo ++ mid :: hi) ++ after 0 fs)) := by
    have hold := ha.sorted
    simp only [toList, entries_mk] at hold
    have hgap : KeySorted ((before 0 fs ++ x) ++ (k, v) :: (z ++ after 0 fs)) := by
      refine KeySorted.insert (by simpa using hold) (fun e he => ?_) fun e he => ?_
      · exact (mem_append.1 he).elim (hk.before e) (hx e)
      · exact (mem_append.1 he).elim (hz e) (hk.after e)
    rw [hlist]
    simpa using hgap
  have hat : At capacity (m.set i ⟨true, parentOf fs, lo, []⟩) 0 fs (.mk i lo []) := by
    refine ha.setEntries (hsorted.sublist ?_)
    refine Sublist.append_left (Sublist.append_right ?_ _) _
    exact sublist_append_left _ _
  refine ⟨(m.set i ⟨true, parentOf fs, lo, []⟩).set j ⟨true, q, hi, []⟩, lo, mid, hi, ?_, hlist, ?_,
    ⟨hat.congr (fun n hn => set_nodes_ne ?_) rfl le_rfl, ⟨q, by simp, rfl⟩, hlo, hhi, ?_, ?_,
      hsorted⟩⟩
  · have hi : m.deref i = .ok ⟨true, parentOf fs, x ++ z, []⟩ := deref_eq ha.rep.1
    simp [splitEntries, hi, deref_eq hj, kmAssert_true, hsplit, pure_eq_ok]
  · intro n hni hnj
    rw [set_nodes_ne hnj, set_nodes_ne hni]
  · rintro rfl
    exact (hfresh n mem_cons_self).1 hn
  · refine nodup_append.2 ⟨hnew, ha.nodup, fun n hn n' hn' heq => ?_⟩
    exact (hfresh n hn).1 (heq ▸ hn')
  · exact fun n hn => (hfresh n hn).2

lemma splitRoot_fits {m1 m2 : BTreeMap K V} {x z : List (K × V)}
    (ha : At capacity m 0 [] (.mk i (x ++ z) [])) (hfull : (x ++ z).length = capacity)
    (hx : ∀ e ∈ x, e.1 < k) (hz : ∀ e ∈ z, k < e.1)
    (hm1 : m1 = { m with next := m.next + 1 }.set m.next ⟨false, none, [], []⟩)
    (hm2 : m2 = { m1 with next := m1.next + 1 }.set m1.next ⟨true, some m.next, [], []⟩) :
    ∃ mid m3 m4 list', m2.splitEntries capacity i m1.next (k, v) = .ok (mid, m3) ∧
      m3.initAsRoot m.next i m1.next mid = .ok m4 ∧ Inserted k v (x ++ z) list' ∧
      Holds capacity { m4 with rootNode := some m.next } list' := by
  have hlt : i < m.next := ha.bound i (by simp [ids])
  have hnext1 : m1.next = m.next + 1 := by rw [hm1]; rfl
  have hnext2 : m2.next = m.next + 2 := by rw [hm2, hm1]; rfl
  have hne : m.next ≠ m1.next := by
    rw [hnext1]
    exact Nat.ne_of_lt (lt_succ_self _)
  have hnodes2 : ∀ n, n < m.next → m2.nodes n = m.nodes n := by
    intro n hn
    have h1 : n ≠ m1.next := by rw [hnext1]; exact Nat.ne_of_lt (lt_succ_of_lt hn)
    have h2 : n ≠ m.next := Nat.ne_of_lt hn
    rw [hm2, set_nodes_ne h1]
    rw [hm1, set_nodes_ne h2]
  have hat : At capacity m2 0 [] (.mk i (x ++ z) []) := by
    refine ha.congr (fun n hn => hnodes2 n (ha.bound n hn)) ?_ ?_
    · rw [hm2, hm1]; rfl
    · rw [hnext2]
      exact Nat.le_add_right _ _
  have hnewroot : m2.nodes m.next = some ⟨false, none, [], []⟩ := by
    rw [hm2, set_nodes_ne hne]
    rw [hm1, set_nodes_self]
  have hnewleaf : m2.nodes m1.next = some ⟨true, some m.next, [], []⟩ := by
    rw [hm2, set_nodes_self]
  -- neither of the new nodes is in the map
  have hfresh : ∀ n ∈ [m1.next, m.next], n ∉ i :: ctxIds 0 ([] : List (Frame K V)) ∧
      n < m2.next := by
    intro n hn
    simp only [mem_cons, not_mem_nil, or_false, ctxIds] at hn ⊢
    rw [hnext2]
    rcases hn with rfl | rfl
    · rw [hnext1]
      exact ⟨Nat.ne_of_gt (lt_succ_of_lt hlt), lt_succ_self _⟩
    · exact ⟨Nat.ne_of_gt hlt, lt_succ_of_lt (lt_succ_self _)⟩
  obtain ⟨m3, lo, mid, hi, hsplit, hlist, hsame, hp⟩ := splitEntries_spec hcap hat hfull
    Seeks.nil hx hz hnewleaf (by simp [hnext1]) hfresh
  obtain ⟨m4, hinit, hholds⟩ := hp.grow hcap ((hsame _ (Nat.ne_of_gt hlt) hne).trans hnewroot)
  exact ⟨mid, m3, m4, lo ++ mid :: hi, hsplit, hinit, ⟨x, [], z, by simp, hlist, by simp, hx, hz⟩,
    hholds⟩

lemma splitRootNode_spec {x z : List (K × V)} (ha : At capacity m 0 [] (.mk i (x ++ z) []))
    (hfull : (x ++ z).length = capacity) (hx : ∀ e ∈ x, e.1 < k) (hz : ∀ e ∈ z, k < e.1) :
    InsertOutcome capacity grants k v (x ++ z) (m.splitRootNode capacity grants i (k, v)) := by
  have hi : m.deref i = .ok ⟨true, none, x ++ z, []⟩ := deref_eq ha.rep.1
  have hfill : (mk i (x ++ z) []).Filled capacity 1 0 := ⟨by rw [entries_mk]; omega,
    by rw [entries_mk]; omega⟩
  -- memory that was never part of the map
  have hkeep : ∀ m' : BTreeMap K V, (∀ n, n < m.next → m'.nodes n = m.nodes n) →
      m'.rootNode = m.rootNode → m.next ≤ m'.next → Holds capacity m' (x ++ z) := by
    intro m' hnodes hroot hnext
    exact .inr ⟨0, _, ha.congr (fun n hn => hnodes n (ha.bound n hn)) hroot hnext, hfill, rfl⟩
  rcases allocateNode_cases grants false none with ⟨m1, hroot, hm1⟩ | ⟨hroot, hg1⟩
  · rcases allocateNode_cases grants true (some m.next) with
      ⟨m2, hleaf, hm2⟩ | ⟨hleaf, hg2⟩
    · -- both were granted
      obtain ⟨mid, m3, m4, list', hsplit, hinit, hins, hholds⟩ := splitRoot_fits hcap ha
        hfull hx hz hm1 hm2
      refine .inl ⟨{ m4 with rootNode := some m.next }, list', ?_, hins, hholds⟩
      simp [splitRootNode, hi, hroot, hleaf, hsplit, hinit, pure_eq_ok]
    · -- the new root is given back through a child it does not have
      refine .inr ⟨⟨_, hg2⟩, .inr ?_⟩
      have hnode : ({ m1 with next := m1.next + 1 } : BTreeMap K V).deref m.next =
          .ok ⟨false, none, [], []⟩ := by
        refine deref_eq ?_
        rw [hm1, set_nodes_self]
      simp only [splitRootNode, hi, ok_bind, hroot, hleaf, deleteNode, hnode]
      rfl
  · refine .inr ⟨⟨_, hg1⟩, .inl ?_⟩
    rcases allocateNode_cases (m := { m with next := m.next + 1 }) grants true none with
      ⟨m2, hleaf, hm2⟩ | ⟨hleaf, -⟩
    · have hnode : m2.nodes (m.next + 1) = some ⟨true, none, [], []⟩ := by
        rw [hm2, set_nodes_self]
      obtain ⟨m3, hrelease, hsame, -, hroot3, hnext3⟩ := releaseNodeMemory_spec hnode
      have hdelete : m2.deleteNode (m2.next + 1) (m.next + 1) = .ok m3 := by
        simp [deleteNode, deref_eq hnode, if_true, pure_eq_ok, hrelease]
      refine ⟨m3, ?_, hkeep m3 (fun n hn => ?_) ?_ ?_⟩
      · simp [splitRootNode, hi, hroot, hleaf, pure_eq_ok, hdelete]
      · have hne : n ≠ m.next + 1 := Nat.ne_of_lt (lt_succ_of_lt hn)
        rw [hsame n hne, hm2, set_nodes_ne hne]
      · rw [hroot3, hm2]
        rfl
      · rw [hnext3, hm2]
        exact (le_succ _).trans (le_succ _)
    · refine ⟨{ m with next := m.next + 1 + 1 }, ?_,
        hkeep _ (fun n _ => rfl) rfl ((le_succ _).trans (le_succ _))⟩
      simp [splitRootNode, hi, hroot, hleaf, pure_eq_ok]

lemma splitLeaf_fits {f : Frame K V} {j : NodeId} {x z : List (K × V)} {q : Option NodeId}
    {pool : List NodeId} (ha : At capacity m 0 (f :: fs) (.mk i (x ++ z) []))
    (hfull : (x ++ z).length = capacity) (hk : Seeks k 0 (f :: fs)) (hx : ∀ e ∈ x, e.1 < k)
    (hz : ∀ e ∈ z, k < e.1) (hj : m.nodes j = some ⟨true, q, [], []⟩) (hnew : (j :: pool).Nodup)
    (hfresh : ∀ n ∈ j :: pool, n ∉ i :: ctxIds 0 (f :: fs) ∧ n < m.next)
    (hpool : needed capacity (f :: fs) ≤ pool.length) :
    ∃ mid m1 tracker m2 list', m.splitEntries capacity i j (k, v) = .ok (mid, m1) ∧
      m1.insertNewLeaf capacity (m1.next + 1) ⟨needed capacity (f :: fs), pool⟩ f.id j mid =
        .ok (tracker, m2) ∧
      Inserted k v (before 0 (f :: fs) ++ ((x ++ z) ++ after 0 (f :: fs))) list' ∧
      Holds capacity m2 list' := by
  obtain ⟨m1, lo, mid, hi, hsplit, hlist, -, hp⟩ := splitEntries_spec hcap ha hfull hk
    hx hz hj hnew hfresh
  have hfuel : fs.length < m1.next + 1 := by
    have := hp.stands.lt_next hp.filledL
    rw [length_cons] at this
    omega
  obtain ⟨tracker, m2, hinsert, hholds⟩ := insertNewLeaf_spec hcap
    hp hpool hfuel
  refine ⟨mid, m1, tracker, m2, _, hsplit, by simpa only [id_mk] using hinsert,
    ⟨before 0 (f :: fs) ++ x, [], z ++ after 0 (f :: fs), by simp, ?_, by simp, fun e he => ?_,
      fun e he => ?_⟩, hholds⟩
  · simp only [toList, entries_mk, hlist]
    simp
  · exact (mem_append.1 he).elim (hk.before e) (hx e)
  · exact (mem_append.1 he).elim (hz e) (hk.after e)

lemma splitLeafNode_spec {f : Frame K V} {x z : List (K × V)}
    (ha : At capacity m 0 (f :: fs) (.mk i (x ++ z) []))
    (hfill : (mk i (x ++ z) []).Filled capacity (minCapacity capacity) 0)
    (hfull : (x ++ z).length = capacity) (hk : Seeks k 0 (f :: fs)) (hx : ∀ e ∈ x, e.1 < k)
    (hz : ∀ e ∈ z, k < e.1) :
    InsertOutcome capacity grants k v (before 0 (f :: fs) ++ ((x ++ z) ++ after 0 (f :: fs)))
      (m.splitLeafNode capacity grants i (k, v) ⟨needed capacity (f :: fs), []⟩) := by
  have hi : m.deref i = .ok ⟨true, some f.id, x ++ z, []⟩ := deref_eq ha.rep.1
  obtain ⟨pool', m1, halloc, hnodes1, hroot1, hnext1, hcase⟩ :=
    allocate_cases grants (needed capacity (f :: fs)) []
  have hat1 : At capacity m1 0 (f :: fs) (.mk i (x ++ z) []) :=
    ha.congr (fun n _ => by rw [hnodes1]) hroot1 hnext1
  rcases hcase with ⟨rfl, hrefused⟩ | ⟨pool, rfl, hlen, hnodup, hbound⟩
  · refine .inr ⟨hrefused, .inl ⟨m1, ?_, hat1.holds hfill⟩⟩
    simp [splitLeafNode, hi, halloc, pure_eq_ok]
  rw [append_nil] at halloc
  rcases allocateNode_cases (m := m1) grants true (some f.id) with
    ⟨m2, hleaf, hm2⟩ | ⟨hleaf, hg⟩
  · have hnext2 : m2.next = m1.next + 1 := by rw [hm2]; rfl
    have hat2 : At capacity m2 0 (f :: fs) (.mk i (x ++ z) []) := by
      refine hat1.congr (fun n hn => ?_) (by rw [hm2]; rfl) (by rw [hnext2]; exact le_succ _)
      rw [hm2, set_nodes_ne (Nat.ne_of_lt (hat1.bound n hn))]
    -- the new leaf and the memory set aside are not in the map
    have hfresh : ∀ n ∈ m1.next :: pool, n ∉ i :: ctxIds 0 (f :: fs) ∧ n < m2.next := by
      intro n hn
      rw [hnext2]
      rcases mem_cons.1 hn with rfl | hn
      · exact ⟨fun hmem => Nat.lt_irrefl _ (hat1.bound m1.next hmem), lt_succ_self _⟩
      · refine ⟨fun hmem => ?_, lt_succ_of_lt (hbound n hn).2⟩
        exact Nat.lt_irrefl _ ((ha.bound n hmem).trans_le (hbound n hn).1)
    have hnew : (m1.next :: pool).Nodup :=
      nodup_cons.2 ⟨fun hmem => Nat.lt_irrefl _ (hbound _ hmem).2, hnodup⟩
    obtain ⟨mid, m3, tracker, m4, list', hsplit, hinsert, hins, hholds⟩ := splitLeaf_fits
      hcap hat2 hfull hk hx hz (by rw [hm2, set_nodes_self]) hnew hfresh hlen.ge
    refine .inl ⟨m4, list', ?_, hins, hholds⟩
    simp [splitLeafNode, hi, halloc, hleaf, hsplit, follow, hinsert, pure_eq_ok]
  · refine .inr ⟨⟨_, hg⟩, .inl ⟨{ m1 with next := m1.next + 1 }, ?_, ?_⟩⟩
    · simp [splitLeafNode, hi, halloc, hleaf, pure_eq_ok]
    · have hat : At capacity { m1 with next := m1.next + 1 } 0 (f :: fs) (.mk i (x ++ z) []) :=
        hat1.congr (fun n _ => rfl) rfl (le_succ _)
      exact hat.holds hfill

end

/-! ## The way down -/

lemma insertLeaf_spec (fuel : Nat) (hcap : 3 ≤ capacity) (ha : At capacity m 0 fs t)
    (hmost : t.entries.length ≤ capacity)
    (hleast : fs = [] ∨ minCapacity capacity ≤ t.entries.length) (hk : Seeks k 0 fs) :
    InsertOutcome capacity grants k v (before 0 fs ++ (t.toList 0 ++ after 0 fs))
      (m.insertInto capacity grants (fuel + 1) t.id (k, v) ⟨needed capacity fs, []⟩) := by
  obtain ⟨i, es, cs⟩ := t
  obtain rfl : cs = [] := ha.rep.2
  simp only [entries_mk] at hmost hleast
  have hi : m.deref i = .ok ⟨true, parentOf fs, es, []⟩ := deref_eq ha.rep.1
  have hsorted := ha.sorted
  simp only [toList, entries_mk] at hsorted
  -- an entry at its place keeps the map, however the entries grow
  have hplace : ∀ x y z, es = x ++ y ++ z → (∀ e ∈ y, e.1 = k) → (∀ e ∈ x, e.1 < k) →
      (∀ e ∈ z, k < e.1) → y.length ≤ 1 → (x ++ (k, v) :: z).length ≤ capacity →
      insertEntry capacity (k, v) es = some (x ++ (k, v) :: z) →
      InsertOutcome capacity grants k v (before 0 fs ++ (es ++ after 0 fs))
        (m.insertInto capacity grants (fuel + 1) i (k, v) ⟨needed capacity fs, []⟩) := by
    intro x y z hes hy hx hz hlen hcount hins
    have hX : ∀ e ∈ before 0 fs ++ x, e.1 < k :=
      fun e he => (mem_append.1 he).elim (hk.before e) (hx e)
    have hZ : ∀ e ∈ z ++ after 0 fs, k < e.1 :=
      fun e he => (mem_append.1 he).elim (hz e) (hk.after e)
    have hnew : KeySorted ((before 0 fs ++ x) ++ (k, v) :: (z ++ after 0 fs)) := by
      refine KeySorted.insert ?_ hX hZ
      refine hsorted.sublist ?_
      rw [hes]
      simp only [append_assoc]
      exact Sublist.append_left (Sublist.append_left
        (sublist_append_right y _) _) _
    have hnew' : KeySorted (before 0 fs ++ ((mk i (x ++ (k, v) :: z) []).toList 0 ++
        after 0 fs)) := by
      simpa [toList] using hnew
    have hat := ha.setEntries hnew'
    have hgrow : es.length ≤ (x ++ (k, v) :: z).length := by
      rw [hes]
      simp only [length_append, length_cons]
      omega
    have hfill : (mk i (x ++ (k, v) :: z) []).Filled capacity (leastBelow capacity fs) 0 := by
      have hone : 1 ≤ (x ++ (k, v) :: z).length := by
        rw [length_append, length_cons]
        omega
      refine ⟨?_, hcount⟩
      rw [entries_mk, leastBelow]
      rcases hleast with rfl | hleast
      · exact hone
      · split <;> omega
    refine .inl ⟨m.set i ⟨true, parentOf fs, x ++ (k, v) :: z, []⟩, _, ?_,
      ⟨before 0 fs ++ x, y, z ++ after 0 fs, ?_, ?_, hy, hX, hZ⟩, hat.holds hfill⟩
    · simp [insertInto, hi, if_true, hins, pure_eq_ok]
    · rw [hes]
      simp
    · simp [toList]
  obtain ⟨x, y, z, hes, hx, hz, hcase, -⟩ := seek_leaf ha.entries_sorted k
  rw [entries_mk] at hes
  rcases hcase with ⟨rfl, -⟩ | ⟨w, rfl, -⟩
  · rw [append_nil] at hes
    by_cases hroom : es.length < capacity
    · refine hplace x [] z (by simpa using hes) (by simp) hx hz (by simp) ?_ ?_
      · rw [hes, length_append] at hroom
        rw [length_append, length_cons]
        omega
      · rw [hes]
        exact insertEntry_gap hx hz (by rwa [← hes])
    · -- no room: the leaf is split
      have hfull : (x ++ z).length = capacity := by
        rw [← hes]
        omega
      have hnone : insertEntry capacity (k, v) es = none := by
        rw [hes]
        exact insertEntry_full hx hz hfull.ge
      have hstep : m.insertInto capacity grants (fuel + 1) i (k, v) ⟨needed capacity fs, []⟩ =
          m.splitNode capacity grants i (k, v) ⟨needed capacity fs, []⟩ := by
        simp [insertInto, hi, if_true, hnone]
      have hroot := ha.root_iff
      simp only [id_mk, toList, entries_mk] at hroot ⊢
      subst hes
      rw [hstep, splitNode]
      cases fs with
      | nil =>
        rw [if_pos (hroot.2 rfl)]
        simpa [before, after] using splitRootNode_spec grants hcap ha hfull hx hz
      | cons f fs =>
        rw [if_neg fun h => by simpa using hroot.1 h]
        have hmin : minCapacity capacity ≤ (x ++ z).length := by simpa using hleast
        exact splitLeafNode_spec grants hcap ha ⟨hmin, hmost⟩ hfull hk hx hz
  · refine hplace x [(k, w)] z hes (by simp) hx hz (by simp) ?_ ?_
    · rw [hes] at hmost
      simpa using hmost
    · rw [hes, append_assoc, singleton_append]
      exact insertEntry_hit hx hz

lemma insertSeparator_spec {tracker : BTreeMap.InsertMemoryTracker}
    (ha : At capacity m (h + 1) fs t) (ht : t.Filled capacity (leastBelow capacity fs) (h + 1))
    (hsep : separatorIs k t.entries (upperBound k t.entries)) {w : V}
    (hw : t.entries[upperBound k t.entries - 1]? = some (k, w)) :
    InsertOutcome capacity grants k v
      (before (h + 1) fs ++ (t.toList (h + 1) ++ after (h + 1) fs))
      (m.insertInto capacity grants (fuel + 1) t.id (k, v) tracker) := by
  obtain ⟨i, es, cs⟩ := t
  simp only [entries_mk] at hsep hw
  obtain ⟨hlt, -⟩ := List.getElem?_eq_some_iff.1 hw
  obtain ⟨x, e, y, hes, hx⟩ := exists_append_cons hlt
  obtain rfl : e = (k, w) := by
    rw [← hx, hes] at hw
    simpa using hw
  have hlen : cs.length = es.length + 1 := ht.2.1
  obtain ⟨cL, cR, rfl, hcL⟩ : ∃ cL cR, cs = cL ++ cR ∧ cL.length = x.length + 1 :=
    ⟨cs.take (x.length + 1), cs.drop (x.length + 1), by simp, by simp; omega⟩
  have hcut : ∀ u, (mk i (x ++ (k, u) :: y) (cL ++ cR)).toList (h + 1) =
      weave (cL.map (toList h)) x ++ (k, u) :: weave (cR.map (toList h)) y := by
    intro u
    simp only [toList, children_mk, entries_mk, map_append]
    exact weave_split (by rw [length_map]; exact hcL)
  have hi : m.deref i = .ok ⟨false, parentOf fs, es, (cL ++ cR).map Tree.id⟩ := deref_eq ha.rep.1
  have hmodify : es.modify (upperBound k es - 1) (fun e => (e.1, v)) = x ++ (k, v) :: y := by
    rw [← hx]
    conv_lhs => rw [hes]
    exact modify_append_cons
  -- the keys are the same, so the order is
  have hold : KeySorted ((before (h + 1) fs ++ weave (cL.map (toList h)) x) ++
      (k, w) :: (weave (cR.map (toList h)) y ++ after (h + 1) fs)) := by
    have := ha.sorted
    rw [hes, hcut] at this
    simpa using this
  have hnew := hold.delete.insert (e := (k, v)) hold.around.1 hold.around.2
  have hnew' : KeySorted (before (h + 1) fs ++
      ((mk i (x ++ (k, v) :: y) (cL ++ cR)).toList (h + 1) ++ after (h + 1) fs)) := by
    rw [hcut]
    simpa using hnew
  have hat := ha.setEntries hnew'
  have hfill : (mk i (x ++ (k, v) :: y) (cL ++ cR)).Filled capacity (leastBelow capacity fs)
      (h + 1) := by
    obtain ⟨hcount, hchildren, hrest⟩ := ht
    rw [hes] at hcount hchildren
    exact ⟨by simpa using hcount, by simpa using hchildren, hrest⟩
  have hholds := hat.holds hfill
  rw [hcut] at hholds
  refine .inl ⟨m.set i ⟨false, parentOf fs, x ++ (k, v) :: y, (cL ++ cR).map Tree.id⟩, _, ?_,
    ⟨before (h + 1) fs ++ weave (cL.map (toList h)) x, [(k, w)],
      weave (cR.map (toList h)) y ++ after (h + 1) fs, ?_, ?_, by simp, hold.around.1,
      hold.around.2⟩, hholds⟩
  · simp [insertInto, hi, ok_bind, Bool.false_eq_true, if_false, if_pos hsep, hmodify, pure_eq_ok]
  · rw [hes, hcut]
    simp
  · simp

omit [LinearOrder K] in
lemma track_needed (f : Frame K V) (fs : List (Frame K V)) (c : Tree K V) :
    track capacity ⟨needed capacity fs, []⟩
        (⟨false, parentOf fs, (f.fill c).entries, (f.fill c).children.map Tree.id⟩ :
          TreeNode K V) = ⟨needed capacity (f :: fs), []⟩ := by
  simp only [track, Frame.fill, entries_mk, needed]
  by_cases hfull : (f.entriesL ++ f.entriesR).length = capacity
  · cases fs with
    | nil => simp [hfull, parentOf, needed, -length_append]
    | cons g fs => simp [hfull, parentOf, Nat.add_comm, -length_append]
  · simp [hfull, -length_append]

lemma insertInto_spec (hcap : 3 ≤ capacity) (hfuel : h < fuel) (ha : At capacity m h fs t)
    (ht : t.Filled capacity (leastBelow capacity fs) h) (hk : Seeks k h fs) :
    InsertOutcome capacity grants k v (before h fs ++ (t.toList h ++ after h fs))
      (m.insertInto capacity grants fuel t.id (k, v) ⟨needed capacity fs, []⟩) := by
  induction h generalizing fuel fs t with
  | zero =>
    obtain ⟨fuel, rfl⟩ : ∃ n, fuel = n + 1 := ⟨fuel - 1, by omega⟩
    refine insertLeaf_spec grants fuel hcap ha ht.2 ?_ hk
    cases fs with
    | nil => exact .inl rfl
    | cons f fs => exact .inr ht.1
  | succ h ih =>
    obtain ⟨fuel, rfl⟩ : ∃ n, fuel = n + 1 := ⟨fuel - 1, by omega⟩
    rcases seek ha ht hk with ⟨hsep, w, hw⟩ | ⟨hsep, hnone, f, c, rfl, hf, hget, hk'⟩
    · exact insertSeparator_spec grants ha ht hsep hw
    · obtain ⟨hac, hfc⟩ := ha.child hf ht
      have hnode : m.deref (f.fill c).id = .ok ⟨false, parentOf fs, (f.fill c).entries,
          (f.fill c).children.map Tree.id⟩ := deref_eq ha.rep.1
      have hstep : m.insertInto capacity grants (fuel + 1) (f.fill c).id (k, v)
          ⟨needed capacity fs, []⟩ =
          m.insertInto capacity grants fuel c.id (k, v) ⟨needed capacity (f :: fs), []⟩ := by
        simp only [insertInto, hnode, ok_bind, Bool.false_eq_true, if_false, if_neg hsep,
          kmAssert_true, hnone, getLeaf, hget, follow, track_needed]
      rw [hstep, ← list_cons hf]
      exact ih (lt_of_succ_lt_succ hfuel) hac hfc hk'

lemma insert_spec (hcap : 3 ≤ capacity) (hm : Holds capacity m list) (k : K) (v : V) :
    InsertOutcome capacity grants k v list (m.insert capacity grants k v) := by
  rcases hm with ⟨hroot, rfl⟩ | ⟨h, t, ha, ht, rfl⟩
  · -- the first key gets a new root
    rcases allocateNode_cases (m := m) grants true none with ⟨m1, hleaf, hm1⟩ | ⟨hleaf, hg⟩
    · have hat : At capacity { m1 with rootNode := some m.next } 0 [] (.mk m.next [] []) := by
        refine ⟨rfl, trivial, ⟨?_, rfl⟩, by simp [ids, ctxIds], fun i hi => ?_, trivial, ?_⟩
        · change m1.nodes m.next = _
          rw [hm1, set_nodes_self]
          rfl
        · obtain rfl : i = m.next := by simpa [ids, ctxIds] using hi
          rw [hm1]
          exact lt_succ_self _
        · simp [before, after, toList, KeySorted]
      have hout := insertLeaf_spec (v := v) grants m1.next hcap hat
        (Nat.zero_le _) (.inl rfl) (Seeks.nil (k := k))
      simp only [BTreeMap.insert, hroot, hleaf]
      simpa [before, after, toList, needed] using hout
    · refine .inr ⟨⟨_, hg⟩, .inl ⟨{ m with next := m.next + 1 }, ?_, .inl ⟨hroot, rfl⟩⟩⟩
      simp [BTreeMap.insert, hroot, hleaf]
  · have hroot : m.rootNode = some t.id := ha.root
    have hfuel : h < m.next + 1 := by
      have := ha.lt_next ht
      omega
    have hout := insertInto_spec (v := v) grants hcap hfuel ha ht (Seeks.nil (k := k))
    simp only [BTreeMap.insert, hroot]
    simpa [before, after, needed] using hout

end BTree
end BezOS
