import BezOS.Container.BTreeSplit

/-!
# Inserting a key

A full leaf is split, and its upper half waits for a place next to the lower one. A parent with
room takes it; a full parent is split in turn, with memory that was set aside on the way down. At
the top a new root takes both halves.
-/

namespace BezOS
namespace BTree

open Lib BTreeMap BTreeMap.InsertMemoryTracker Frame List Tree

variable {K V : Type} [LinearOrder K] {capacity h fuel : Nat} {m m' : BTreeMap K V}
  {fs : List (Frame K V)} {f : Frame K V} {a b t : Tree K V} {mid : K × V} {pool : List NodeId}
  {i : NodeId}

/-- Node `a` was split: `b` with the entries above `mid` has no parent that knows it yet. The
memory in the pool is not in use. -/
structure Pending (capacity : Nat) (m : BTreeMap K V) (h : Nat) (fs : List (Frame K V))
    (a : Tree K V) (mid : K × V) (b : Tree K V) (pool : List NodeId) : Prop where
  stands : At capacity m h fs a
  rep : ∃ p, b.Rep m.nodes h p
  filledL : a.Filled capacity (minCapacity capacity) h
  filledR : b.Filled capacity (minCapacity capacity) h
  nodup : ((b.ids h ++ pool) ++ (a.ids h ++ ctxIds h fs)).Nodup
  bound : ∀ i ∈ b.ids h ++ pool, i < m.next
  sorted : KeySorted (before h fs ++ ((a.toList h ++ mid :: b.toList h) ++ after h fs))

lemma Pending.set_pool (hp : Pending capacity m h fs a mid b pool) (hi : i ∈ pool)
    (n : TreeNode K V) : Pending capacity (m.set i n) h fs a mid b pool := by
  obtain ⟨hnew, -, hdisj⟩ := nodup_append.1 hp.nodup
  obtain ⟨p, hrep⟩ := hp.rep
  have hout : ∀ k ∈ a.ids h ++ ctxIds h fs, k ≠ i :=
    fun k hk hki => hdisj i (mem_append_right _ hi) k hk hki.symm
  refine ⟨hp.stands.congr (fun k hk => set_nodes_ne (hout k hk)) rfl le_rfl,
    ⟨p, hrep.congr fun k hk => set_nodes_ne ?_⟩, hp.filledL, hp.filledR, hp.nodup, hp.bound,
    hp.sorted⟩
  rintro rfl
  exact (nodup_append.1 hnew).2.2 k hk k hi rfl

section

variable (hp : Pending capacity m h (f :: fs) a mid b pool)

include hp

lemma Pending.mid_lt :
    (∀ e ∈ f.entriesL, e.1 < mid.1) ∧ ∀ e ∈ f.entriesR, mid.1 < e.1 := by
  have hsorted : KeySorted ((before h (f :: fs) ++ a.toList h) ++
      mid :: (b.toList h ++ after h (f :: fs))) := by
    simpa using hp.sorted
  obtain ⟨hlow, hhigh⟩ := hsorted.around
  refine ⟨fun e he => hlow e ?_, fun e he => hhigh e ?_⟩
  · have hmem : e ∈ f.before h := mem_weave.2 (.inr he)
    simp [before, hmem]
  · have hmem : e ∈ f.after h := mem_weave.2 (.inr he)
    simp [after, hmem]

lemma Pending.attach
    (hthis : m'.nodes f.id = some ⟨false, parentOf fs, f.entriesL ++ mid :: f.entriesR,
      f.childrenL.map Tree.id ++ a.id :: b.id :: f.childrenR.map Tree.id⟩)
    (hb : m'.nodes b.id = (m.nodes b.id).map fun n => { n with parent := some f.id })
    (hsame : ∀ k, k ≠ f.id → k ≠ b.id → m'.nodes k = m.nodes k) (hroot : m'.rootNode = m.rootNode)
    (hnext : m'.next = m.next) :
    At capacity m' (h + 1) fs (f.fill₂ a mid b) := by
  obtain ⟨hnew, hold, hdisj⟩ := nodup_append.1 hp.nodup
  obtain ⟨hbids, -, hbpool⟩ := nodup_append.1 hnew
  obtain ⟨p, hrep⟩ := hp.rep
  have hup := hp.stands.up
  have hbid : b.id ∈ b.ids h ++ pool := mem_append_left _ (id_mem_ids h b)
  have hold' : (a.ids h ++ (f.ids h ++ ctxIds (h + 1) fs)).Nodup := hold
  obtain ⟨ha, hctx, hadisj⟩ := nodup_append.1 hold'
  obtain ⟨hf, -, hfdisj⟩ := nodup_append.1 hctx
  -- a node that is neither the parent nor the new half is as it was
  have hkeep : ∀ k ∈ a.ids h ++ (f.ids h ++ ctxIds (h + 1) fs), k ≠ f.id →
      m'.nodes k = m.nodes k :=
    fun k hk hkf => hsame k hkf fun hkb => hdisj b.id hbid k hk hkb.symm
  have hperm : ((f.fill₂ a mid b).ids (h + 1) ++ ctxIds (h + 1) fs).Perm
      (b.ids h ++ (a.ids h ++ (f.ids h ++ ctxIds (h + 1) fs))) := by
    have hfill : ((f.fill₂ a mid b).ids (h + 1)).Perm (a.ids h ++ b.ids h ++ f.ids h) :=
      ids_fill₂
    refine (hfill.append_right _).trans ?_
    have hswap : (a.ids h ++ b.ids h).Perm (b.ids h ++ a.ids h) := perm_append_comm
    simpa [append_assoc] using hswap.append_right (f.ids h ++ ctxIds (h + 1) fs)
  have hall : (b.ids h ++ (a.ids h ++ (f.ids h ++ ctxIds (h + 1) fs))).Nodup :=
    nodup_append.2 ⟨hbids, hold', fun k hk j hj => hdisj k (mem_append_left _ hk) j hj⟩
  refine ⟨?_, ?_, Frame.rep_fill₂ hthis ?_ ?_ fun c hc => ?_, hperm.nodup_iff.2 hall, fun k hk => ?_,
    hup.filled, ?_⟩
  · rw [hroot, hup.root]
    exact congrArg some (plug_id (.inl rfl))
  · refine hup.ctx.congr fun k hk => hkeep k (by simp [hk]) ?_
    rintro rfl
    exact hfdisj _ mem_cons_self _ hk rfl
  · refine hp.stands.rep.congr fun k hk => hkeep k (by simp [hk]) ?_
    rintro rfl
    exact hadisj _ hk _ (mem_append_left _ mem_cons_self) rfl
  · refine hrep.reparent hb (fun k hk hkb => hsame k ?_ hkb) hbids
    rintro rfl
    exact hdisj _ (mem_append_left _ hk) _
      (mem_append_right _ (mem_append_left _ mem_cons_self)) rfl
  · have hflat : ∀ k ∈ c.ids h, k ∈ (f.childrenL ++ f.childrenR).flatMap (Tree.ids h) :=
      fun k hk => mem_flatMap.2 ⟨c, hc, hk⟩
    refine (hp.stands.ctx.2.1 c hc).congr fun k hk => hkeep k ?_ ?_
    · exact mem_append_right _ (mem_append_left _ (mem_cons_of_mem _ (hflat k hk)))
    · rintro rfl
      exact (nodup_cons.1 hf).1 (hflat _ hk)
  · rw [hnext]
    rcases mem_append.1 (hperm.subset hk) with hk | hk
    · exact hp.bound k (mem_append_left _ hk)
    · exact hp.stands.bound k hk
  · rw [toList_fill₂ hp.stands.filled.1]
    simpa [before, after] using hp.sorted

lemma Pending.half :
    b.id ≠ f.id ∧ ∃ n, m.nodes b.id = some n := by
  obtain ⟨p, hrep⟩ := hp.rep
  refine ⟨fun hbf => ?_, _, hrep.node⟩
  refine (nodup_append.1 hp.nodup).2.2 b.id
    (mem_append_left _ (id_mem_ids h b)) f.id ?_ hbf
  exact mem_append_right _ (mem_append_left _ mem_cons_self)

lemma Pending.insert (hroom : (f.entriesL ++ f.entriesR).length < capacity) :
    ∃ m', m.insertChild capacity f.id mid b.id = .ok (true, m') ∧
      Holds capacity m' (before h (f :: fs) ++
        ((a.toList h ++ mid :: b.toList h) ++ after h (f :: fs))) := by
  obtain ⟨hcut, ⟨hleast, -⟩, hothers, -⟩ := hp.stands.filled
  obtain ⟨hbf, n, hn⟩ := hp.half
  have hthis := hp.stands.ctx.1
  have hsplit : f.childrenL.map Tree.id ++ a.id :: f.childrenR.map Tree.id =
      (f.childrenL.map Tree.id ++ [a.id]) ++ f.childrenR.map Tree.id := by simp
  rw [hsplit] at hthis
  obtain ⟨m', hrun, hthis', hb', hsame, hroot, hnext⟩ := insertChild_spec hthis
    (by simp [hcut.1]) hn hbf hp.mid_lt.1 hp.mid_lt.2 hroom
  have hat := hp.attach (by simpa using hthis') (by rw [hb', hn]; rfl) hsame hroot hnext
  rw [length_append] at hroom
  have hholds := hat.holds (Frame.filled_fill₂ hcut ⟨by omega, by omega⟩ hp.filledL hp.filledR
    hothers)
  refine ⟨m', hrun, ?_⟩
  rw [toList_fill₂ hcut] at hholds
  simpa [before, after] using hholds

end

lemma Pending.grow (hp : Pending capacity m h [] a mid b (i :: pool)) (hcap : 3 ≤ capacity)
    (hi : m.nodes i = some ⟨false, none, [], []⟩) :
    ∃ m', m.initAsRoot i a.id b.id mid = .ok m' ∧
      Holds capacity { m' with rootNode := some i } (a.toList h ++ mid :: b.toList h) := by
  obtain ⟨hnew, hold, hdisj⟩ := nodup_append.1 hp.nodup
  obtain ⟨hbids, hpool, hbpool⟩ := nodup_append.1 hnew
  obtain ⟨p, hrep⟩ := hp.rep
  simp only [ctxIds, append_nil] at hold hdisj
  have hbi : ∀ k ∈ b.ids h, k ≠ i := fun k hk => hbpool k hk i mem_cons_self
  have hai : ∀ k ∈ a.ids h, k ≠ i :=
    fun k hk hki => hdisj i (mem_append_right _ mem_cons_self) k hk hki.symm
  have hab : ∀ k ∈ a.ids h, ∀ j ∈ b.ids h, k ≠ j :=
    fun k hk j hj hkj => hdisj j (mem_append_left _ hj) k hk hkj.symm
  have ha_id := id_mem_ids h a
  have hb_id := id_mem_ids h b
  obtain ⟨m1, hset1, hmoved1, hkeep1, -, hnext1⟩ := setParent_spec
    (m := m.set i ⟨false, none, [mid], [a.id, b.id]⟩)
    ((set_nodes_ne (hai _ ha_id)).trans hp.stands.rep.node)
  obtain ⟨m2, hset2, hmoved2, hkeep2, -, hnext2⟩ := setParent_spec
    ((hkeep1 _ (hab _ ha_id _ hb_id).symm).trans ((set_nodes_ne (hbi _ hb_id)).trans hrep.node))
  have hsame : ∀ k, k ≠ i → k ≠ a.id → k ≠ b.id → m2.nodes k = m.nodes k :=
    fun k hki hka hkb => by rw [hkeep2 k hkb, hkeep1 k hka, set_nodes_ne hki]
  have hrepa : a.Rep m2.nodes h (some i) := by
    refine hp.stands.rep.reparent ?_
      (fun k hk hka => hsame k (hai k hk) hka (hab k hk _ hb_id)) hold
    rw [hkeep2 _ (hab _ ha_id _ hb_id), hmoved1, hp.stands.rep.node]
    rfl
  have hrepb : b.Rep m2.nodes h (some i) := by
    refine hrep.reparent ?_
      (fun k hk hkb => hsame k (hbi k hk) (hab _ ha_id k hk).symm hkb) hbids
    rw [hmoved2, hrep.node]
    rfl
  have hroot : m2.nodes i = some ⟨false, none, [mid], [a.id, b.id]⟩ := by
    rw [hkeep2 i (hbi _ hb_id).symm, hkeep1 i (hai _ ha_id).symm, set_nodes_self]
  have hperm : (((Frame.mk i [] [] [] []).fill₂ a mid b).ids (h + 1)).Perm
      (a.ids h ++ b.ids h ++ [i]) := ids_fill₂
  refine ⟨m2, ?_, .inr ⟨h + 1, (Frame.mk i [] [] [] []).fill₂ a mid b,
    ⟨rfl, trivial, Frame.rep_fill₂ hroot hrepa hrepb (by simp), ?_, fun k hk => ?_, trivial, ?_⟩,
    Frame.filled_fill₂ ⟨rfl, rfl⟩ ⟨by simp, by simp; omega⟩ hp.filledL hp.filledR (by simp), ?_⟩⟩
  · simp [initAsRoot, deref_eq hi, hset1, hset2]
  · rw [ctxIds, append_nil]
    refine hperm.nodup_iff.2 (nodup_append.2 ⟨nodup_append.2 ⟨hold, hbids, hab⟩, by simp,
      fun k hk j hj => ?_⟩)
    rw [mem_singleton.1 hj]
    exact (mem_append.1 hk).elim (hai k) (hbi k)
  · rw [ctxIds, append_nil] at hk
    have hlt : k < m.next := by
      have hk' := hperm.subset hk
      simp only [mem_append, mem_singleton] at hk'
      rcases hk' with (hk' | hk') | rfl
      · exact hp.stands.bound k (mem_append_left _ hk')
      · exact hp.bound k (mem_append_left _ hk')
      · exact hp.bound k (mem_append_right _ mem_cons_self)
    calc k < m.next := hlt
      _ = m2.next := (hnext2.trans hnext1).symm
  · rw [toList_fill₂ ⟨rfl, rfl⟩]
    simpa [before, after, Frame.before, Frame.after] using hp.sorted
  · rw [toList_fill₂ ⟨rfl, rfl⟩]
    simp [Frame.before, Frame.after]

lemma Pending.splitNodes (hp : Pending capacity m h (f :: fs) a mid b (i :: pool))
    (hi : m.nodes i = some ⟨false, parentOf fs, [], []⟩) :
    SplitNodes m f.id i b.id (parentOf fs) (parentOf fs) f.entriesL f.entriesR
      (f.childrenL.map Tree.id ++ [a.id]) (f.childrenR.map Tree.id) := by
  obtain ⟨hnew, hold, hdisj⟩ := nodup_append.1 hp.nodup
  obtain ⟨hcut, -⟩ := hp.stands.filled
  obtain ⟨hbf, hb⟩ := hp.half
  have hall := (ids_fill h f a).nodup_iff.2 (nodup_append.1 (by
    rw [ctxIds, ← append_assoc] at hold
    exact hold)).1
  have hchildren : (f.childrenL.map Tree.id ++ [a.id]) ++ f.childrenR.map Tree.id =
      (f.fill a).children.map Tree.id := by
    simp [fill]
  have hup := hp.stands.up
  have hthis : f.id ∈ a.ids h ++ ctxIds h (f :: fs) :=
    mem_append_right _ (mem_append_left _ mem_cons_self)
  have hi_mem : i ∈ b.ids h ++ i :: pool := mem_append_right _ mem_cons_self
  have hb_mem : b.id ∈ b.ids h ++ i :: pool := mem_append_left _ (id_mem_ids h b)
  refine ⟨?_, hi, hb, hdisj i hi_mem f.id hthis, ⟨hbf, ?_⟩, fun k hk => ?_, ?_, ?_, ?_⟩
  · rw [hchildren]
    simpa [fill] using hup.rep.1
  · exact (nodup_append.1 hnew).2.2 b.id (id_mem_ids h b) i mem_cons_self
  · rw [hchildren] at hk
    obtain ⟨c, hc, rfl⟩ := mem_map.1 hk
    have hflat : c.id ∈ (f.fill a).children.flatMap (Tree.ids h) :=
      mem_flatMap.2 ⟨c, hc, id_mem_ids h c⟩
    have hmem : c.id ∈ a.ids h ++ ctxIds h (f :: fs) := by
      rw [ctxIds, ← append_assoc]
      exact mem_append_left _ ((ids_fill h f a).subset (mem_cons_of_mem _ hflat))
    refine ⟨?_, (hdisj i hi_mem c.id hmem).symm, (hdisj b.id hb_mem c.id hmem).symm, _,
      (hup.rep.2 c hc).node, rfl⟩
    intro hcf
    rw [hcf] at hflat
    exact (nodup_cons.1 hall).1 hflat
  · rw [hchildren]
    exact hup.rep.roots_nodup hall
  · simp [hcut.1]
  · simp [hcut.2]

lemma Pending.split (hp : Pending capacity m h (f :: fs) a mid b (i :: pool)) (hcap : 3 ≤ capacity)
    (hi : m.nodes i = some ⟨false, parentOf fs, [], []⟩)
    (hfull : (f.entriesL ++ f.entriesR).length = capacity) :
    ∃ m' a' mid' b', m.splitInternal capacity f.id i b.id mid = .ok (mid', m') ∧
      a'.id = f.id ∧ b'.id = i ∧ Pending capacity m' (h + 1) fs a' mid' b' pool ∧
      m'.nodes f.id = some ⟨false, parentOf fs, a'.entries, a'.children.map Tree.id⟩ ∧
      before (h + 1) fs ++ ((a'.toList (h + 1) ++ mid' :: b'.toList (h + 1)) ++ after (h + 1) fs) =
        before h (f :: fs) ++ ((a.toList h ++ mid :: b.toList h) ++ after h (f :: fs)) := by
  obtain ⟨hcut, -, hothers, -⟩ := hp.stands.filled
  have hup := hp.stands.up
  obtain ⟨p, hrepb⟩ := hp.rep
  have hsep : KeySorted (f.entriesL ++ mid :: f.entriesR) := by
    have hlist := hp.sorted
    have hmid : KeySorted (f.before h ++ ((a.toList h ++ mid :: b.toList h) ++ f.after h)) := by
      have : KeySorted (before (h + 1) fs ++ ((f.before h ++ ((a.toList h ++ mid :: b.toList h) ++
          f.after h)) ++ after (h + 1) fs)) := by
        simpa [before, after] using hlist
      exact this.right.left
    rw [← toList_fill₂ hcut] at hmid
    exact hmid.sublist sublist_weave
  obtain ⟨m', es1, pivot, es2, ids1, ids2, hrun, hes, hids, hlen1, hb1, hb2, hres⟩ :=
    splitInternal_spec hcap (hp.splitNodes hi) hfull hsep
  have hids' : (f.childrenL ++ a :: b :: f.childrenR).map Tree.id = ids1 ++ ids2 := by
    rw [hids]
    simp
  obtain ⟨cs1, cs2, hcs, rfl, rfl⟩ := map_eq_append_iff.1 hids'
  rw [length_map] at hlen1
  -- every child is there, is filled and has its nodes in the count below
  have hreps : ∀ c ∈ cs1 ++ cs2, ∃ p, c.Rep m.nodes h p := by
    intro c hc
    rw [← hcs] at hc
    simp only [mem_append, mem_cons] at hc
    rcases hc with hc | rfl | rfl | hc
    · exact ⟨_, hp.stands.ctx.2.1 c (by simp [hc])⟩
    · exact ⟨_, hp.stands.rep⟩
    · exact ⟨_, hrepb⟩
    · exact ⟨_, hp.stands.ctx.2.1 c (by simp [hc])⟩
  have hfills : ∀ c ∈ cs1 ++ cs2, c.Filled capacity (minCapacity capacity) h := by
    intro c hc
    rw [← hcs] at hc
    simp only [mem_append, mem_cons] at hc
    rcases hc with hc | rfl | rfl | hc
    · exact hothers c (by simp [hc])
    · exact hp.filledL
    · exact hp.filledR
    · exact hothers c (by simp [hc])
  have hlen2 : cs2.length = es2.length + 1 := by
    have h1 := congrArg length hcs
    have h2 := congrArg length hes
    have h3 := hcut.1
    have h4 := hcut.2
    simp only [length_append, length_cons] at h1 h2
    omega
  have hperm : (((Tree.mk i es2 cs2).ids (h + 1) ++ pool) ++
      ((Tree.mk f.id es1 cs1).ids (h + 1) ++ ctxIds (h + 1) fs)).Perm
      ((b.ids h ++ i :: pool) ++ (a.ids h ++ ctxIds h (f :: fs))) := by
    refine perm_iff_count.2 fun x => ?_
    have hflat := congrArg (fun l => count x (l.flatMap (Tree.ids h))) hcs
    simp only [flatMap_append, flatMap_cons, count_append] at hflat
    simp only [Tree.ids, id_mk, children_mk, ctxIds, Frame.ids, flatMap_append,
      cons_append, count_append, count_cons]
    omega
  have hall := hperm.nodup_iff.2 hp.nodup
  obtain ⟨hnew, hold, hdisj⟩ := nodup_append.1 hall
  obtain ⟨hbids, -, -⟩ := nodup_append.1 hnew
  obtain ⟨haids, -, hctx⟩ := nodup_append.1 hold
  have hrootsL : ∀ k ∈ cs1.map Tree.id, k ∈ (Tree.mk f.id es1 cs1).ids (h + 1) :=
    Tree.roots_subset f.id es1 (by simp)
  have hrootsR : ∀ k ∈ cs2.map Tree.id, k ∈ (Tree.mk i es2 cs2).ids (h + 1) :=
    Tree.roots_subset i es2 (by simp)
  have hia := id_mem_ids (h + 1) (Tree.mk f.id es1 cs1)
  have hib := id_mem_ids (h + 1) (Tree.mk i es2 cs2)
  have hba : ∀ k ∈ (Tree.mk i es2 cs2).ids (h + 1), ∀ j ∈ (Tree.mk f.id es1 cs1).ids (h + 1),
      k ≠ j := fun k hk j hj => hdisj k (mem_append_left _ hk) j (mem_append_left _ hj)
  have hrepL : (Tree.mk f.id es1 cs1).Rep m'.nodes (h + 1) (parentOf fs) := by
    refine Tree.Rep.over m.nodes (by simpa using hres.node) ⟨by simp, fun h' hh c hc => ?_⟩
      hres.movesL haids fun k hk hkf hnot => hres.same k hkf (hba i hib k hk).symm fun hmem => ?_
    · obtain rfl : h = h' := by omega
      exact hreps c (mem_append_left _ hc)
    · exact (mem_append.1 hmem).elim hnot fun hk' => hba k (hrootsR k hk') k hk rfl
  have hrepR : (Tree.mk i es2 cs2).Rep m'.nodes (h + 1) (parentOf fs) := by
    refine Tree.Rep.over m.nodes (by simpa using hres.newNode)
      ⟨by simp, fun h' hh c hc => ?_⟩ hres.movesR hbids
      fun k hk hki hnot => hres.same k (hba k hk f.id hia) hki fun hmem => ?_
    · obtain rfl : h = h' := by omega
      exact hreps c (mem_append_right _ hc)
    · exact (mem_append.1 hmem).elim (fun hk' => hba k hk k (hrootsL k hk') rfl) hnot
  have hlist : before (h + 1) fs ++ (((Tree.mk f.id es1 cs1).toList (h + 1) ++
      pivot :: (Tree.mk i es2 cs2).toList (h + 1)) ++ after (h + 1) fs) =
      before h (f :: fs) ++ ((a.toList h ++ mid :: b.toList h) ++ after h (f :: fs)) := by
    have hwhole : (Tree.mk f.id es1 cs1).toList (h + 1) ++
        pivot :: (Tree.mk i es2 cs2).toList (h + 1) = (f.fill₂ a mid b).toList (h + 1) := by
      simp only [toList, children_mk, entries_mk, fill₂]
      rw [← weave_split (by rw [length_map]; exact hlen1), ← map_append, hcs, hes]
    rw [hwhole, toList_fill₂ hcut]
    simp [before, after]
  have hsorted := hp.sorted
  rw [← hlist] at hsorted
  refine ⟨m', .mk f.id es1 cs1, pivot, .mk i es2 cs2, hrun, rfl, rfl, ⟨⟨?_, ?_, hrepL, hold, ?_,
    hup.filled, ?_⟩, ⟨_, hrepR⟩, ⟨hb1, hlen1, fun c hc => hfills c (mem_append_left _ hc)⟩,
    ⟨hb2, hlen2, fun c hc => hfills c (mem_append_right _ hc)⟩, hall, ?_, hsorted⟩,
    hres.node, hlist⟩
  · rw [hres.root, hup.root]
    exact congrArg some (plug_id (.inl rfl))
  · refine hup.ctx.congr fun k hk => hres.same k ?_ ?_ fun hmem => ?_
    · exact fun hkf => hctx f.id hia k hk hkf.symm
    · exact fun hki => hdisj i (mem_append_left _ hib) k (mem_append_right _ hk) hki.symm
    · rcases mem_append.1 hmem with hmem | hmem
      · exact hctx k (hrootsL k hmem) k hk rfl
      · exact hdisj k (mem_append_left _ (hrootsR k hmem)) k (mem_append_right _ hk) rfl
  · intro k hk
    rw [hres.next]
    have hk' := hperm.subset (mem_append_right _ hk)
    exact (mem_append.1 hk').elim (hp.bound k) (hp.stands.bound k)
  · refine hsorted.sublist ?_
    refine Sublist.append_left (Sublist.append_right ?_ _) _
    exact sublist_append_left _ _
  · intro k hk
    rw [hres.next]
    have hk' := hperm.subset (mem_append_left _ hk)
    exact (mem_append.1 hk').elim (hp.bound k) (hp.stands.bound k)

/-! ## The way up -/

/-- The memory that splitting the full nodes among the frames can take. -/
def needed (capacity : Nat) : List (Frame K V) → Nat
  | [] => 0
  | f :: fs =>
      (if (f.entriesL ++ f.entriesR).length = capacity then if fs.isEmpty then 2 else 1 else 0) +
        needed capacity fs

omit [LinearOrder K] in
lemma plug_id_mem (h : Nat) (fs : List (Frame K V)) (f : Frame K V) (t : Tree K V) :
    (plug (f :: fs) t).id ∈ ctxIds h (f :: fs) := by
  induction fs generalizing h f t with
  | nil => exact mem_append_left _ mem_cons_self
  | cons g fs ih => exact mem_append_right _ (ih (h + 1) g (f.fill t))

lemma At.root_iff (ha : At capacity m h fs t) : some t.id = m.rootNode ↔ fs = [] := by
  rw [ha.root, Option.some_inj]
  cases fs with
  | nil => exact ⟨fun _ => rfl, fun _ => rfl⟩
  | cons f fs =>
    refine ⟨fun heq => absurd heq ?_, by simp⟩
    exact (nodup_append.1 ha.nodup).2.2 _ (id_mem_ids h t) _ (plug_id_mem h fs f t)

lemma insertNewLeaf_spec (hcap : 3 ≤ capacity) {n : Nat}
    (hp : Pending capacity m h (f :: fs) a mid b pool)
    (hpool : needed capacity (f :: fs) ≤ pool.length) (hfuel : fs.length < fuel) :
    ∃ tracker m', m.insertNewLeaf capacity fuel ⟨n, pool⟩ f.id b.id mid = .ok (tracker, m') ∧
      Holds capacity m' (before h (f :: fs) ++
        ((a.toList h ++ mid :: b.toList h) ++ after h (f :: fs))) := by
  induction fs generalizing m h f a mid b pool fuel with
  | nil =>
    obtain ⟨fuel, rfl⟩ : ∃ k, fuel = k + 1 := ⟨fuel - 1, by omega⟩
    by_cases hfull : (f.entriesL ++ f.entriesR).length = capacity
    · -- the root is full: it is split and a new root takes the halves
      simp only [needed, hfull, if_true, isEmpty_nil] at hpool
      obtain ⟨i, pool, rfl⟩ := exists_cons_of_ne_nil
        (ne_nil_of_length_pos (l := pool) (by omega))
      rw [length_cons] at hpool
      obtain ⟨j, pool, rfl⟩ := exists_cons_of_ne_nil
        (ne_nil_of_length_pos (l := pool) (by omega))
      have hp1 := hp.set_pool mem_cons_self ⟨false, none, [], []⟩
      obtain ⟨m2, a', mid', b', hsplit, haid, hbid, hp2, hnode, hlist⟩ :=
        hp1.split hcap set_nodes_self hfull
      have hp3 := hp2.set_pool mem_cons_self ⟨false, none, [], []⟩
      obtain ⟨m4, hinit, hholds⟩ := hp3.grow hcap set_nodes_self
      have hroot : some f.id = m2.rootNode := haid ▸ hp2.stands.root_iff.2 rfl
      rw [haid, hbid] at hinit
      have hparent : m.deref f.id = .ok _ := deref_eq hp.stands.ctx.1
      refine ⟨⟨n, pool⟩, { m4 with rootNode := some j }, ?_, ?_⟩
      · have hinsert : m.insertChild capacity f.id mid b.id = .ok (false, m) := by
          simp [insertChild, hparent, -length_append, hfull]
        simp [insertNewLeaf, hinsert, Bool.false_eq_true, if_false, hparent, takeNode, parentOf, head?_nil, Option.map_none, hsplit, if_pos hroot, hinit, pure_eq_ok]
      · rw [← hlist]
        simpa [before, after] using hholds
    · obtain ⟨-, ⟨-, hmost⟩, -⟩ := hp.stands.filled
      rw [← length_append] at hmost
      obtain ⟨m', hrun, hholds⟩ := hp.insert (by omega)
      exact ⟨⟨n, pool⟩, m', by simp [insertNewLeaf, hrun], hholds⟩
  | cons g fs ih =>
    obtain ⟨fuel, rfl⟩ : ∃ k, fuel = k + 1 := ⟨fuel - 1, by omega⟩
    have hfuel' : fs.length < fuel := by simpa using hfuel
    by_cases hfull : (f.entriesL ++ f.entriesR).length = capacity
    · -- the parent is full: it is split, and its upper half goes to the node above
      rw [needed, if_pos hfull, isEmpty_cons, if_neg (by simp)] at hpool
      obtain ⟨i, pool, rfl⟩ := exists_cons_of_ne_nil
        (ne_nil_of_length_pos (l := pool) (by omega))
      rw [length_cons] at hpool
      have hp1 := hp.set_pool mem_cons_self ⟨false, some g.id, [], []⟩
      obtain ⟨m2, a', mid', b', hsplit, haid, hbid, hp2, hnode, hlist⟩ :=
        hp1.split hcap set_nodes_self hfull
      obtain ⟨tracker, m3, hrec, hholds⟩ := ih hp2 (by omega) hfuel'
      have hroot : ¬ some f.id = m2.rootNode := by
        rw [← haid, hp2.stands.root_iff]
        simp
      have hparent : m.deref f.id = .ok _ := deref_eq hp.stands.ctx.1
      refine ⟨tracker, m3, ?_, ?_⟩
      · have hinsert : m.insertChild capacity f.id mid b.id = .ok (false, m) := by
          simp [insertChild, hparent, -length_append, hfull]
        rw [hbid] at hrec
        simp only [insertNewLeaf, hinsert, ok_bind, Bool.false_eq_true, if_false, hparent,
          takeNode, parentOf_cons, hsplit, if_neg hroot,
          deref_eq hnode, follow]
        exact hrec
      · rw [← hlist]
        exact hholds
    · obtain ⟨-, ⟨-, hmost⟩, -⟩ := hp.stands.filled
      rw [← length_append] at hmost
      obtain ⟨m', hrun, hholds⟩ := hp.insert (by omega)
      exact ⟨⟨n, pool⟩, m', by simp [insertNewLeaf, hrun], hholds⟩

end BTree
end BezOS
