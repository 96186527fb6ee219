import BezOS.Container.BTreeRemove
import BezOS.Container.BTreeUpdate

/-!
# The map as a finite map

Whatever requests a B-tree map is given, it answers as the finite map does to which the same
updates were applied. The allocator may refuse memory at any time; an insertion that reports this
is none.
-/

namespace BezOS

open BTreeMap List

inductive MapRequest (K V : Type)
  | insert (key : K) (value : V)
  | remove (key : K)
  | find (key : K)
  | contains (key : K)
  | count
  | clear

inductive MapReply (K V : Type)
  | status (s : OsStatus)
  | none
  | found (entry : Option (K × V))
  | answer (b : Bool)
  | number (n : Nat)

namespace BTreeMap

variable {K V : Type} [LinearOrder K]

def empty : BTreeMap K V := ⟨fun _ => none, none, 0⟩

def serve (capacity : Nat) (grants : NodeId → Bool) (m : BTreeMap K V) :
    MapRequest K V → Except Fault (MapReply K V × BTreeMap K V)
  | .insert key value => do
      let (s, m) ← m.insert capacity grants key value
      pure (.status s, m)
  | .remove key => do
      let m ← m.remove capacity key
      pure (.none, m)
  | .find key => do
      match ← m.find key with
      | none => pure (.found none, m)
      | some it => do
          let e ← m.entryOf it
          pure (.found (some e), m)
  | .contains key => do
      let b ← m.contains key
      pure (.answer b, m)
  | .count => do
      let n ← m.count
      pure (.number n, m)
  | .clear => do
      let m ← m.clear
      pure (.none, m)

def serveAll (capacity : Nat) (grants : NodeId → Bool) (m : BTreeMap K V) :
    List (MapRequest K V) → Except Fault (List (MapReply K V) × BTreeMap K V)
  | [] => pure ([], m)
  | r :: rs => do
      let (reply, m) ← m.serve capacity grants r
      let (replies, m) ← m.serveAll capacity grants rs
      pure (reply :: replies, m)

end BTreeMap

namespace BTree

open Lib

variable {K V : Type} [LinearOrder K] {capacity h fuel : Nat} {m : BTreeMap K V} {t : Tree K V}
  {k : K} {v : V} (grants : NodeId → Bool) {list : List (K × V)} {f : Finmap fun _ : K => V}

/-! ## The abstract map -/

noncomputable def answer (f : Finmap fun _ : K => V) :
    MapRequest K V → MapReply K V × Finmap fun _ : K => V
  | .insert key value => (.status .success, f.insert key value)
  | .remove key => (.none, f.erase key)
  | .find key => (.found ((f.lookup key).map fun v => (key, v)), f)
  | .contains key => (.answer (f.lookup key).isSome, f)
  | .count => (.number f.keys.card, f)
  | .clear => (.none, ∅)

/-- A reply to a request: that of the finite map or, if memory can be refused, the report that an
insertion did not take place. -/
inductive Answers (refused : Prop) : (Finmap fun _ : K => V) → MapRequest K V → MapReply K V →
    (Finmap fun _ : K => V) → Prop
  | same (f : Finmap fun _ : K => V) (r : MapRequest K V) :
      Answers refused f r (answer f r).1 (answer f r).2
  | outOfMemory (f : Finmap fun _ : K => V) (k : K) (v : V) : refused →
      Answers refused f (.insert k v) (.status .outOfMemory) f

inductive AnswersAll (refused : Prop) : (Finmap fun _ : K => V) → List (MapRequest K V) →
    List (MapReply K V) → (Finmap fun _ : K => V) → Prop
  | nil (f : Finmap fun _ : K => V) : AnswersAll refused f [] [] f
  | cons {f f' f'' : Finmap fun _ : K => V} {r : MapRequest K V} {reply : MapReply K V}
      {rs : List (MapRequest K V)} {replies : List (MapReply K V)} : Answers refused f r reply f' →
      AnswersAll refused f' rs replies f'' → AnswersAll refused f (r :: rs) (reply :: replies) f''

/-! ## Clearing -/

omit [LinearOrder K] in
lemma deleteNode_spec {least : Nat} {p : Option NodeId} (hfuel : h < fuel)
    (hrep : t.Rep m.nodes h p) (hfill : t.Filled capacity least h) (hnodup : (t.ids h).Nodup) :
    ∃ m', m.deleteNode fuel t.id = .ok m' ∧ (∀ k, k ∉ t.ids h → m'.nodes k = m.nodes k) ∧
      m'.rootNode = m.rootNode ∧ m'.next = m.next := by
  induction h generalizing m fuel t p least with
  | zero =>
    obtain ⟨fuel, rfl⟩ : ∃ n, fuel = n + 1 := ⟨fuel - 1, by omega⟩
    obtain ⟨m', hrelease, hkeep, -, hroot, hnext⟩ := releaseNodeMemory_spec hrep.1
    refine ⟨m', ?_, fun k hk => hkeep k (by simpa [Tree.ids] using hk), hroot, hnext⟩
    simp [deleteNode, deref_eq hrep.1, if_true, pure_eq_ok, hrelease]
  | succ h ih =>
    obtain ⟨fuel, rfl⟩ : ∃ n, fuel = n + 1 := ⟨fuel - 1, by omega⟩
    obtain ⟨hself, hflat⟩ := nodup_cons.1 hnodup
    -- the children are deleted one after another
    have hfold : ∀ (cs : List (Tree K V)) (m : BTreeMap K V), (∀ c ∈ cs, c.Rep m.nodes h (some t.id)) →
        (∀ c ∈ cs, c.Filled capacity (minCapacity capacity) h) → (cs.flatMap (Tree.ids h)).Nodup →
        ∃ m', cs.foldlM (fun m c => m.deleteNode fuel c.id) m = .ok m' ∧
          (∀ k, k ∉ cs.flatMap (Tree.ids h) → m'.nodes k = m.nodes k) ∧
          m'.rootNode = m.rootNode ∧ m'.next = m.next := by
      intro cs
      induction cs with
      | nil => exact fun m _ _ _ => ⟨m, rfl, fun _ _ => rfl, rfl, rfl⟩
      | cons c cs ihc =>
        intro m hreps hfills hnd
        obtain ⟨hc, hcs, hdisj⟩ := nodup_append.1 hnd
        obtain ⟨m1, hrun, hkeep, hroot, hnext⟩ := ih (Nat.lt_of_succ_lt_succ hfuel)
          (hreps c (by simp)) (hfills c (by simp)) hc
        obtain ⟨m2, hrun', hkeep', hroot', hnext'⟩ := ihc m1 (fun d hd => by
          refine (hreps d (by simp [hd])).congr fun k hk => hkeep k fun hk' => ?_
          exact hdisj k hk' k (mem_flatMap.2 ⟨d, hd, hk⟩) rfl)
          (fun d hd => hfills d (by simp [hd])) hcs
        refine ⟨m2, ?_, fun k hk => ?_, hroot'.trans hroot, hnext'.trans hnext⟩
        · rw [foldlM_cons, hrun, ok_bind, hrun']
        · rw [flatMap_cons, mem_append, not_or] at hk
          rw [hkeep' k hk.2, hkeep k hk.1]
    obtain ⟨m1, hrun, hkeep, hroot, hnext⟩ := hfold t.children m hrep.2 hfill.2.2 hflat
    have hnode : m1.nodes t.id = some ⟨false, p, t.entries, t.children.map Tree.id⟩ := by
      rw [hkeep t.id hself, hrep.1]
    obtain ⟨m2, hrelease, hkeep2, -, hroot2, hnext2⟩ := releaseNodeMemory_spec hnode
    have hwalk := foldlM_children t.children (fun (m : BTreeMap K V) c => m.deleteNode fuel c.id) m
      (g := fun m i => do
        let child ← follow (t.children.map Tree.id)[i]?
        m.deleteNode fuel child) (by
      intro m i c hc
      simp [hc, follow])
    refine ⟨m2, ?_, fun k hk => ?_, hroot2.trans hroot, hnext2.trans hnext⟩
    · rw [hfill.2.1, hrun] at hwalk
      simp only [deleteNode, deref_eq hrep.1, ok_bind, Bool.false_eq_true, if_false, hwalk,
        hrelease]
    · have hne : k ≠ t.id := by
        rintro rfl
        exact hk mem_cons_self
      rw [hkeep2 k hne, hkeep k fun hmem => hk (mem_cons_of_mem _ hmem)]

lemma clear_spec (hm : Holds capacity m list) :
    ∃ m', m.clear = .ok m' ∧ Holds capacity m' [] := by
  rcases hm with ⟨hroot, -⟩ | ⟨h, t, ha, ht, -⟩
  · exact ⟨m, by simp [BTreeMap.clear, hroot], .inl ⟨hroot, rfl⟩⟩
  · have hroot : m.rootNode = some t.id := ha.root
    have hfuel : h < m.next + 1 := by
      have := ha.lt_next ht
      omega
    obtain ⟨m', hrun, -⟩ := deleteNode_spec hfuel ha.rep ht (nodup_append.1 ha.nodup).1
    exact ⟨{ m' with rootNode := none }, by simp [BTreeMap.clear, hroot, hrun], .inl ⟨rfl, rfl⟩⟩

/-! ## Looking up -/

lemma find_spec (hm : Holds capacity m list) (k : K) :
    (m.find k = .ok none ∧ ∀ e ∈ list, e.1 ≠ k) ∨
      ∃ it v, m.find k = .ok (some it) ∧ m.entryOf it = .ok (k, v) ∧ (k, v) ∈ list := by
  rcases hm with ⟨hroot, rfl⟩ | ⟨h, t, ha, ht, rfl⟩
  · exact .inl ⟨by simp [BTreeMap.find, hroot], by simp⟩
  · have hroot : m.rootNode = some t.id := ha.root
    have hfuel : h < m.next + 1 := by
      have := ha.lt_next ht
      omega
    rcases findInNode_spec hfuel ha ht (Seeks.nil) with
      ⟨hfind, hne⟩ | ⟨h', fs', t', i, v, hfind, hat, -, hi, hlist⟩
    · exact .inl ⟨by simp [BTreeMap.find, hroot, hfind], hne⟩
    · refine .inr ⟨(t'.id, i), v, by simp [BTreeMap.find, hroot, hfind], ?_, ?_⟩
      · simp [entryOf, deref_eq hat.rep.node, entryAt, hi]
      · have hmem : (k, v) ∈ before h' fs' ++ (t'.toList h' ++ after h' fs') :=
          mem_append_right _ (mem_append_left _
            (Tree.entries_subset h' t' _ (mem_of_getElem? hi)))
        rw [hlist] at hmem
        simpa [before, after] using hmem

lemma contains_eq (m : BTreeMap K V) (k : K) : m.contains k = (m.find k).map Option.isSome := by
  cases hroot : m.rootNode with
  | none => simp [BTreeMap.contains, BTreeMap.find, hroot, Except.map]
  | some root => simp [BTreeMap.contains, BTreeMap.find, hroot, nodeContains_eq]

lemma count_spec (hm : Holds capacity m list) : m.count = .ok list.length := by
  rcases hm with ⟨hroot, rfl⟩ | ⟨h, t, ha, ht, rfl⟩
  · simp [BTreeMap.count, hroot]
  · have hroot : m.rootNode = some t.id := ha.root
    have hfuel : h < m.next + 1 := by
      have := ha.lt_next ht
      omega
    simp [BTreeMap.count, hroot, countNode_spec hfuel ha.rep ht]

/-! ## Refinement -/

def Represents (capacity : Nat) (m : BTreeMap K V) (f : Finmap fun _ : K => V) : Prop :=
  ∃ list, Holds capacity m list ∧ Lists list f

lemma represents_empty : Represents capacity (BTreeMap.empty : BTreeMap K V) ∅ :=
  ⟨[], .inl ⟨rfl, rfl⟩, Lists.nil⟩

section

variable (hcap : 3 ≤ capacity) (hm : Represents capacity m f)

include hcap hm

lemma serve_spec (r : MapRequest K V) :
    (∃ reply m' f', m.serve capacity grants r = .ok (reply, m') ∧
      Answers (∃ i, grants i = false) f r reply f' ∧ Represents capacity m' f') ∨
      (∃ i, grants i = false) ∧ m.serve capacity grants r = .error .badAccess := by
  obtain ⟨list, hm, hf⟩ := hm
  cases r with
  | insert k v =>
    rcases insert_spec grants hcap hm k v with
      ⟨m', list', hrun, ⟨x, y, z, rfl, rfl, hy, hx, hz⟩, hm'⟩ | ⟨hrefused, ⟨m', hrun, hm'⟩ | hrun⟩
    · exact .inl ⟨.status .success, m', _, by simp [BTreeMap.serve, hrun], .same f (.insert k v), _, hm',
        hf.insert hy hx hz⟩
    · exact .inl ⟨.status .outOfMemory, m', f, by simp [BTreeMap.serve, hrun],
        .outOfMemory f k v hrefused, list, hm', hf⟩
    · refine .inr ⟨hrefused, ?_⟩
      simp only [BTreeMap.serve, hrun]
      rfl
  | remove k =>
    left
    obtain ⟨m', hrun, ⟨hne, rfl⟩ | ⟨v, X, Y, rfl, hm'⟩⟩ := remove_spec hcap hm k
    · refine ⟨.none, m', _, by simp [BTreeMap.serve, hrun], .same f (.remove k), list, hm, ?_⟩
      rw [answer, hf.erase_absent hne]
      exact hf
    · exact ⟨.none, m', _, by simp [BTreeMap.serve, hrun], .same f (.remove k), X ++ Y, hm',
        hf.erase⟩
  | find k =>
    left
    refine ⟨_, m, f, ?_, .same f (.find k), list, hm, hf⟩
    rcases find_spec hm k with ⟨hrun, hne⟩ | ⟨it, v, hrun, hread, hmem⟩
    · simp [BTreeMap.serve, hrun, answer, hf.lookup_eq_none hne]
    · simp [BTreeMap.serve, hrun, hread, answer, (hf.mem k v).1 hmem]
  | contains k =>
    left
    refine ⟨_, m, f, ?_, .same f (.contains k), list, hm, hf⟩
    rcases find_spec hm k with ⟨hrun, hne⟩ | ⟨it, v, hrun, -, hmem⟩
    · simp [BTreeMap.serve, contains_eq, hrun, Except.map, answer, hf.lookup_eq_none hne]
    · simp [BTreeMap.serve, contains_eq, hrun, Except.map, answer, (hf.mem k v).1 hmem]
  | count =>
    left
    refine ⟨_, m, f, ?_, .same f .count, list, hm, hf⟩
    simp [BTreeMap.serve, count_spec hm, answer, hf.card_keys]
  | clear =>
    left
    obtain ⟨m', hrun, hm'⟩ := clear_spec hm
    exact ⟨.none, m', _, by simp [BTreeMap.serve, hrun], .same f .clear, [], hm', Lists.nil⟩

lemma serveAll_spec (rs : List (MapRequest K V)) :
    (∃ replies m' f', m.serveAll capacity grants rs = .ok (replies, m') ∧
      AnswersAll (∃ i, grants i = false) f rs replies f' ∧ Represents capacity m' f') ∨
      (∃ i, grants i = false) ∧ m.serveAll capacity grants rs = .error .badAccess := by
  induction rs generalizing m f with
  | nil => exact .inl ⟨[], m, f, rfl, .nil f, hm⟩
  | cons r rs ih =>
    rcases serve_spec grants hcap hm r with
      ⟨reply, m1, f1, hrun, hans, hm1⟩ | ⟨hrefused, hrun⟩
    · rcases ih hm1 with ⟨replies, m2, f2, hrun', hans', hm2⟩ | ⟨hrefused, hrun'⟩
      · exact .inl ⟨reply :: replies, m2, f2, by simp [BTreeMap.serveAll, hrun, hrun'],
          .cons hans hans', hm2⟩
      · refine .inr ⟨hrefused, ?_⟩
        simp only [BTreeMap.serveAll, hrun, ok_bind, hrun']
        rfl
    · refine .inr ⟨hrefused, ?_⟩
      simp only [BTreeMap.serveAll, hrun]
      rfl

lemma remove_absent (hk : f.lookup k = none) :
    m.remove capacity k = .ok m := by
  obtain ⟨list, hm, hf⟩ := hm
  obtain ⟨m', hrun, ⟨-, rfl⟩ | ⟨v, X, Y, rfl, -⟩⟩ := remove_spec hcap hm k
  · exact hrun
  · have hv := (hf.mem k v).1 (by simp)
    simp [hk] at hv

end

/-- `BTreeMap` refines the finite map: a sequence of calls is answered as the finite map to which
the same updates were applied answers it, and removing an absent key changes nothing. Only an
allocator that refuses memory can make an insertion report it, or a call fail. -/
theorem map_refines_finmap (fit : Nat) (rs : List (MapRequest K V)) :
    (∃ replies m f,
      BTreeMap.empty.serveAll (kOrder fit) grants rs = .ok (replies, m) ∧
      AnswersAll (∃ i, grants i = false) ∅ rs replies f ∧
      (∀ k, m.find k = .ok none ↔ f.lookup k = none) ∧
      (∀ k v, (∃ it, m.find k = .ok (some it) ∧ m.entryOf it = .ok (k, v)) ↔
        f.lookup k = some v) ∧
      (∀ k, m.contains k = .ok (f.lookup k).isSome) ∧ m.count = .ok f.keys.card ∧
      ∀ k, f.lookup k = none → m.remove (kOrder fit) k = .ok m) ∨
      (∃ i, grants i = false) ∧
        BTreeMap.empty.serveAll (kOrder fit) grants rs = .error .badAccess := by
  have hcap : 3 ≤ kOrder fit := le_max_left 3 fit
  rcases serveAll_spec grants hcap (represents_empty) rs with
    ⟨replies, m, f, hrun, hans, hm⟩ | hfail
  · obtain ⟨list, hlist, hf⟩ := hm
    refine .inl ⟨replies, m, f, hrun, hans, fun k => ?_, fun k v => ?_, fun k => ?_, ?_,
      fun k hk => remove_absent hcap ⟨list, hlist, hf⟩ hk⟩
    · rcases find_spec hlist k with ⟨hfind, hne⟩ | ⟨it, v, hfind, -, hmem⟩
      · simp [hfind, hf.lookup_eq_none hne]
      · simp [hfind, (hf.mem k v).1 hmem]
    · rcases find_spec hlist k with ⟨hfind, hne⟩ | ⟨it, w, hfind, hread, hmem⟩
      · simp [hfind, hf.lookup_eq_none hne]
      · simp [hfind, hread, (hf.mem k w).1 hmem]
    · rcases find_spec hlist k with ⟨hfind, hne⟩ | ⟨it, v, hfind, -, hmem⟩
      · simp [contains_eq, hfind, Except.map, hf.lookup_eq_none hne]
      · simp [contains_eq, hfind, Except.map, (hf.mem k v).1 hmem]
    · rw [count_spec hlist, hf.card_keys]
  · exact .inr hfail

end BTree
end BezOS
