import BezOS.Fs.TarParse
import BezOS.Fs.VfsRefinement

/-!
# Mounted archives

The constructor of `TarFsMount` adds the entries in the order of their paths, so that the folder of
an entry is there before the entry. What the mount then finds and reads are the members of the
archive.
-/

namespace BezOS
namespace Vfs

open List TarFsMount

/-! ## Walks in a store -/

namespace NodeStore

variable {D : Type} {s s' : NodeStore D} {root node n folder : NodeId} {name : VfsString}
  {rest : List VfsString}

lemma WellFormed.folder_of_child (h : s.WellFormed root) (hchild : s.child node name = some n) :
    (s.nodes node).kind = .folder := by
  cases hkind : (s.nodes node).kind with
  | file =>
    rw [h.file_leaf node name hkind] at hchild
    cases hchild
  | folder => rfl

lemma lookup_of_child (hchild : s.child node name = some n) :
    s.lookup node name = .ok n := by
  unfold child at hchild
  rw [lookup, hchild]

lemma WellFormed.lookupFrom_descend (h : s.WellFormed root) (hn : s.descend node rest = some n) :
    s.lookupFrom node rest = .ok n := by
  induction rest generalizing node with
  | nil => rw [lookupFrom, Option.some.inj hn]
  | cons name rest ih =>
    obtain ⟨c, hc, hrest⟩ := Option.bind_eq_some_iff.1 hn
    rw [lookupFrom, query_folder (h.folder_of_child hc), lookup_of_child hc]
    exact ih hrest

lemma WellFormed.walkFrom_descend {s : NodeStore TarEntry} (h : s.WellFormed root)
    (hn : s.descend node rest = some n) :
    walkFrom s node rest = .ok n := by
  induction rest generalizing node with
  | nil => rw [walkFrom, Option.some.inj hn]
  | cons name rest ih =>
    obtain ⟨c, hc, hrest⟩ := Option.bind_eq_some_iff.1 hn
    rw [walkFrom, openFolder_folder (h.folder_of_child hc), lookup_of_child hc]
    exact ih hrest

lemma data_mknode {new : INode D} {id : NodeId} (hlt : folder < s.next)
    (hmake : s.mknode folder name new = .ok (id, s')) (m : NodeId) :
    (s'.nodes m).data = if m = s.next then new.data else (s.nodes m).data := by
  have hne : folder ≠ s.next := Nat.ne_of_lt hlt
  rw [mknode] at hmake
  split at hmake
  · cases hmake
  · obtain ⟨-, rfl⟩ := Prod.mk.inj (Except.ok.inj hmake)
    by_cases hm : m = folder
    · subst hm
      simp [setNode, hne]
    · by_cases hnew : m = s.next
      · subst hnew
        simp [setNode, hne.symm]
      · simp [setNode, hm, hnew]

end NodeStore

/-! ## Entries with a place -/

lemma nodeType_injective {kind kind' : NodeKind} (h : nodeType kind = nodeType kind') :
    kind = kind' := by
  cases kind <;> cases kind' <;> first | rfl | cases h

lemma pathText_concat {front : List VfsString} (hne : front ≠ []) (name : VfsString) :
    pathText (front ++ [name]) = pathText front ++ kPathSeparator :: name := by
  induction front with
  | nil => exact absurd rfl hne
  | cons a front ih =>
    cases front with
    | nil => simp [pathText]
    | cons b front =>
      have hrest := ih (cons_ne_nil b front)
      unfold pathText at hrest ⊢
      rw [cons_append, cons_append, intercalate_cons_cons, ← cons_append,
        hrest, intercalate_cons_cons]
      simp

namespace TarFsMount

structure Sound (item : VfsString × TarEntry) : Prop where
  text : item.1 = pathText (names item.1)
  names_ne : names item.1 ≠ []
  legal : ∀ name ∈ names item.1, LegalName name
  type : ∃ kind, item.2.header.getType = nodeType kind

/-- Some entries are in the store, and nothing else is. -/
structure Mounted (s : NodeStore TarEntry) (items : TarMap) : Prop where
  wellFormed : s.WellFormed 0
  present : ∀ item ∈ items, ∃ n, s.descend 0 (names item.1) = some n ∧
    (s.nodes n).data = item.2 ∧ item.2.header.getType = nodeType (s.nodes n).kind
  only : ∀ path n, path ≠ [] → s.descend 0 path = some n → ∃ item ∈ items, names item.1 = path

lemma mounted_emptyStore : Mounted emptyStore [] := by
  have hchild : ∀ n name, emptyStore.child n name = none := fun _ _ => rfl
  refine ⟨⟨rfl, rfl, Nat.zero_lt_one, ?_, ?_, ?_, ?_⟩, ?_, ?_⟩
  · intro n name c hc
    cases hc
  · intro n name c hc
    cases hc
  · intro n name c hc
    cases hc
  · intro n name _
    exact hchild n name
  · intro item hitem
    cases hitem
  · intro path n hne hn
    cases path with
    | nil => exact absurd rfl hne
    | cons name rest =>
      cases hn

variable {s : NodeStore TarEntry} {items : TarMap} {item : VfsString × TarEntry}

lemma Mounted.walk (h : Mounted s items) (hitem : Sound item)
    (hparent : (names item.1).dropLast = [] ∨ ∃ d ∈ items,
      names d.1 = (names item.1).dropLast ∧ d.2.header.getType = .folder) :
    ∃ n, s.descend 0 (names item.1).dropLast = some n ∧ (s.nodes n).kind = .folder ∧
      walk s 0 item.1 = .ok n ∧
      names item.1 = (names item.1).dropLast ++ [Vfs.name item.1] := by
  have htext : item.1 ≠ [] := by
    intro hempty
    exact hitem.names_ne (by rw [hempty]; rfl)
  have hverify : verifyPathText item.1 = true := by
    rw [hitem.text]
    exact verifyPathText_pathText hitem.names_ne hitem.legal
  have hpath : VfsPath.names ⟨item.1, hverify⟩ = names item.1 := rfl
  -- the node of the folder, found by its path
  obtain ⟨n, hn, hfolder⟩ : ∃ n, s.descend 0 (names item.1).dropLast = some n ∧
      (s.nodes n).kind = .folder := by
    rcases hparent with hroot | ⟨d, hd, hnames, htype⟩
    · exact ⟨0, by rw [hroot]; rfl, h.wellFormed.root_folder⟩
    · obtain ⟨n, hn, -, hkind⟩ := h.present d hd
      refine ⟨n, hnames ▸ hn, ?_⟩
      rw [htype] at hkind
      cases hk : (s.nodes n).kind with
      | file =>
        rw [hk] at hkind
        cases hkind
      | folder => rfl
  refine ⟨n, hn, hfolder, ?_⟩
  rcases VfsPath.single_or_parent ⟨item.1, hverify⟩ htext with ⟨hcount, hnames⟩ | ⟨hcount, hnames⟩
  · rw [hpath] at hnames
    rw [hnames] at hn ⊢
    rw [TarFsMount.walk, if_pos hcount, Option.some.inj hn]
    exact ⟨rfl, rfl⟩
  · rw [hpath] at hnames
    rw [hnames, dropLast_concat] at hn ⊢
    rw [TarFsMount.walk, if_neg hcount]
    exact ⟨h.wellFormed.walkFrom_descend hn, rfl⟩

lemma Mounted.addEntry (h : Mounted s items) (hitem : Sound item)
    (hitems : ∀ d ∈ items, Sound d) (hnew : item.1 ∉ items.map Prod.fst)
    (hparent : (names item.1).dropLast = [] ∨ ∃ d ∈ items,
      names d.1 = (names item.1).dropLast ∧ d.2.header.getType = .folder) :
    Mounted (addEntry 0 s item) (items ++ [item]) := by
  obtain ⟨n, hn, hfolder, hwalk, hnames⟩ := h.walk hitem hparent
  obtain ⟨kind, htype⟩ := hitem.type
  have hlt := h.wellFormed.lt_next hn
  -- an entry at the same path would have the same text
  have hfree : s.child n (Vfs.name item.1) = none := by
    cases hchild : s.child n (Vfs.name item.1) with
    | none => rfl
    | some c =>
      have hc : s.descend 0 (names item.1) = some c := by
        rw [hnames, NodeStore.descend_concat, hn, Option.bind_some, hchild]
      obtain ⟨d, hd, hsame⟩ := h.only _ c hitem.names_ne hc
      refine absurd (mem_map.2 ⟨d, hd, ?_⟩) hnew
      rw [(hitems d hd).text, hsame, ← hitem.text]
  obtain ⟨s', hmake, hadd⟩ := NodeStore.added_mknode
    (⟨kind, item.2, some n, [], []⟩ : INode TarEntry) rfl hlt hfree
  have heq : TarFsMount.addEntry 0 s item = s' := by
    obtain ⟨path, entry⟩ := item
    rw [TarFsMount.addEntry]
    simp only [hwalk, htype, NodeStore.openFolder_folder hfolder]
    cases kind <;> simp only [nodeType, hmake]
  have hdescend := hadd.descend h.wellFormed hn hfree
  have hdata := NodeStore.data_mknode hlt hmake
  rw [heq]
  refine ⟨h.wellFormed.added hfolder hlt hadd, ?_, ?_⟩
  · intro d hd
    rcases mem_append.1 hd with hd | hd
    · obtain ⟨m, hm, hm_data, hm_type⟩ := h.present d hd
      have hold : m ≠ s.next := Nat.ne_of_lt (h.wellFormed.lt_next hm)
      have hpath : names d.1 ≠ (names item.1).dropLast ++ [Vfs.name item.1] := by
        intro hsame
        refine hnew (mem_map.2 ⟨d, hd, ?_⟩)
        rw [(hitems d hd).text, hsame, ← hnames, ← hitem.text]
      refine ⟨m, ?_, ?_, ?_⟩
      · rw [hdescend, if_neg hpath, hm]
      · rw [hdata, if_neg hold, hm_data]
      · rw [(hadd.same m hold).1, hm_type]
    · obtain rfl := mem_singleton.1 hd
      refine ⟨s.next, ?_, ?_, ?_⟩
      · rw [hdescend, if_pos hnames]
      · rw [hdata, if_pos rfl]
      · rw [hadd.kind, htype]
  · intro path m hne hm
    rw [hdescend] at hm
    split at hm
    · rename_i hpath
      exact ⟨item, by simp, hnames.trans hpath.symm⟩
    · obtain ⟨d, hd, hsame⟩ := h.only path m hne hm
      exact ⟨d, mem_append_left _ hd, hsame⟩

lemma textLess_of_parent {d : VfsString × TarEntry} (hd : Sound d) (hitem : Sound item)
    (hparent : names d.1 = (names item.1).dropLast) : textLess d.1 item.1 := by
  have hsplit := dropLast_concat_getLast hitem.names_ne
  have hne : (names item.1).dropLast ≠ [] := by
    rw [← hparent]
    exact hd.names_ne
  have htext : item.1 = d.1 ++ kPathSeparator :: (names item.1).getLast hitem.names_ne := by
    rw [hd.text, hparent, ← pathText_concat hne, hsplit, ← hitem.text]
  rw [htext]
  exact textLess_append ..

lemma mounted_foldl {todo : TarMap} (h : Mounted s items) (hsorted : Sorted (items ++ todo))
    (hsound : ∀ item ∈ items ++ todo, Sound item)
    (hparents : ∀ item ∈ todo, (names item.1).dropLast = [] ∨ ∃ d ∈ items ++ todo,
      names d.1 = (names item.1).dropLast ∧ d.2.header.getType = .folder) :
    Mounted (todo.foldl (TarFsMount.addEntry 0) s) (items ++ todo) := by
  induction todo generalizing s items with
  | nil => rwa [append_nil]
  | cons item todo ih =>
    have hitem := hsound item (mem_append_right _ (mem_cons_self ..))
    rw [Sorted, map_append, map_cons] at hsorted
    obtain ⟨-, hlater, hearlier⟩ := pairwise_append.1 hsorted
    have hnew : item.1 ∉ items.map Prod.fst := by
      intro hmem
      exact textLess_irrefl _ (hearlier _ hmem _ (mem_cons_self ..))
    have hparent : (names item.1).dropLast = [] ∨ ∃ d ∈ items,
        names d.1 = (names item.1).dropLast ∧ d.2.header.getType = .folder := by
      refine (hparents item (mem_cons_self ..)).imp_right ?_
      rintro ⟨d, hd, hnames, htype⟩
      have hless := textLess_of_parent (hsound d hd) hitem hnames
      refine ⟨d, ?_, hnames, htype⟩
      rcases mem_append.1 hd with hd | hd
      · exact hd
      · rcases mem_cons.1 hd with rfl | hd
        · exact absurd hless (textLess_irrefl _)
        · have hbehind := (pairwise_cons.1 hlater).1 d.1 (mem_map_of_mem hd)
          exact absurd (textLess_trans hless hbehind) (textLess_irrefl _)
    have hstep := h.addEntry hitem (fun d hd => hsound d (mem_append_left _ hd)) hnew hparent
    have hlist : items ++ item :: todo = (items ++ [item]) ++ todo := by simp
    rw [hlist] at hsound hparents ⊢
    refine ih hstep ?_ hsound fun d hd => hparents d (mem_cons_of_mem _ hd)
    rw [Sorted, map_append, map_append]
    simpa using hsorted

end TarFsMount

/-! ## The data of the members -/

/-- What a member needs to be read: its data is at its offset, the front of a block. -/
structure DataAt (memory : List UInt8) (item : TarMember × Nat) : Prop where
  block : item.2 % 512 = 0
  range : item.2 + item.1.content.length ≤ memory.length
  data : (memory.drop item.2).take item.1.content.length = item.1.content

lemma dataAt_placedFrom {members : List TarMember} (hlegal : ∀ m ∈ members, m.Legal)
    {front back : List UInt8} (hfront : front.length % 512 = 0) {item : TarMember × Nat}
    (hitem : item ∈ placedFrom front.length members) :
    DataAt (front ++ (members.flatMap TarMember.bytes ++ back)) item := by
  induction members generalizing front with
  | nil => cases hitem
  | cons m members ih =>
    have hm := hlegal m (mem_cons_self ..)
    have hlength := hm.length_bytes
    have hblock : kTarBlockSize = 512 := rfl
    have hround : roundup m.content.length kTarBlockSize % 512 = 0 := Nat.mul_mod_left ..
    rw [flatMap_cons, append_assoc]
    rcases mem_cons.1 hitem with rfl | hitem
    · have hpad := le_roundup m.content.length
      refine ⟨?_, ?_, ?_⟩
      · omega
      · change front.length + kTarBlockSize + m.content.length ≤ _
        rw [length_append, length_append]
        omega
      · -- the header and its padding are a block
        have hhead : (m.header.bytes ++ replicate 12 0).length = kTarBlockSize := by
          rw [length_append, hm.widths.length_bytes, length_replicate, kTarBlockSize]
        have hsplit : ∀ rest, m.bytes ++ rest = (m.header.bytes ++ replicate 12 0) ++
            (m.content ++ (replicate (roundup m.content.length kTarBlockSize -
              m.content.length) 0 ++ rest)) := by
          intro rest
          simp [TarMember.bytes]
        rw [← drop_drop, drop_left, hsplit, drop_left' hhead, take_left]
    · rw [← append_assoc]
      refine ih (fun m hm => hlegal m (mem_cons_of_mem _ hm)) ?_ ?_
      · rw [length_append]
        omega
      · rwa [length_append]

namespace TarArchive

variable (a : TarArchive) {item : TarMember × Nat}

lemma dataAt (hitem : item ∈ a.placed) : DataAt a.bytes item :=
  @dataAt_placedFrom a.members a.legal [] _ rfl item hitem

lemma mem_of_placed (hitem : item ∈ a.placed) :
    item.1 ∈ a.members := by
  rw [← map_placedFrom 0 a.members]
  exact mem_map_of_mem hitem

lemma exists_placed {m : TarMember} (hm : m ∈ a.members) : ∃ offset, (m, offset) ∈ a.placed := by
  rw [← map_placedFrom 0 a.members] at hm
  obtain ⟨⟨m', offset⟩, hitem, rfl⟩ := mem_map.1 hm
  exact ⟨offset, hitem⟩

lemma sound_entryOf (hitem : item ∈ a.placed) :
    TarFsMount.Sound (entryOf item) := by
  have hm := a.legal item.1 (a.mem_of_placed hitem)
  have hnames : names (entryOf item).1 = item.1.path := names_pathText hm.path_ne hm.names
  refine ⟨?_, ?_, ?_, item.1.kind, hm.getType⟩
  · rw [hnames]
    rfl
  · rw [hnames]
    exact hm.path_ne
  · rw [hnames]
    exact hm.names

lemma parent_entryOf (hitem : item ∈ a.placed) :
    (names (entryOf item).1).dropLast = [] ∨ ∃ d ∈ a.placed,
      names (entryOf d).1 = (names (entryOf item).1).dropLast ∧
        (entryOf d).2.header.getType = .folder := by
  have hmem := a.mem_of_placed hitem
  have hm := a.legal item.1 hmem
  have hnames : names (entryOf item).1 = item.1.path := names_pathText hm.path_ne hm.names
  rw [hnames]
  by_cases hroot : item.1.path.dropLast = []
  · exact .inl hroot
  · obtain ⟨before, after, hmembers⟩ := append_of_mem hmem
    obtain ⟨folder, hfolder, hpath, hkind⟩ := a.parents before item.1 after hmembers
      item.1.path.dropLast _ [] (dropLast_concat_getLast hm.path_ne).symm hroot
    have hfolder' : folder ∈ a.members := by
      rw [hmembers]
      exact mem_append_left _ hfolder
    obtain ⟨offset, hplaced⟩ := a.exists_placed hfolder'
    have hlegal := a.legal folder hfolder'
    refine .inr ⟨(folder, offset), hplaced, ?_, ?_⟩
    · exact (names_pathText hlegal.path_ne hlegal.names).trans hpath
    · exact hlegal.getType.trans (congrArg nodeType hkind)

/-! ## The archive read back -/

/-- What an archive is for, for reads of a given offset and length: it is accepted, every member is
reported with its path, its kind, its size and the offset of its data, and in the mount every path
leads to a node of its kind, whose bytes are those of the member, up to its size. -/
structure ReadsBackAt (offset length : Nat) : Prop where
  parses : ∃ headers, parseTar a.media {} = .ok (.success, headers) ∧
    headers.Perm (a.placed.map entryOf)
  kinds : ∀ m ∈ a.members, m.header.getType = nodeType m.kind
  sizes : ∀ m ∈ a.members, m.header.getSize = .ok m.content.length
  data : ∀ item ∈ a.placed,
    (a.bytes.drop item.2).take item.1.content.length = item.1.content
  mounts : ∃ mount, create a.media = .ok mount ∧
    ∀ m ∈ a.members, ∃ node, mount.lookup (pathText m.path) = .ok node ∧
      (mount.store.nodes node).kind = m.kind ∧
      (m.kind = .file → mount.read node offset length =
        .ok (if m.content.length ≤ offset then .endOfFile else .success,
          (m.content.drop offset).take length))

/-- The reads that go right: not those of no bytes at the front of a block. -/
def Readable (offset length : Nat) : Prop :=
  length ≠ 0 ∨ offset % 512 ≠ 0 ∨ ∀ m ∈ a.members, m.kind = .file → m.content.length ≤ offset

lemma create_plain (hplain : ∀ m ∈ a.members, m.Plain) :
    ∃ mount, create a.media = .ok mount ∧ mount.mMedia = a.media ∧
      ∀ item ∈ a.placed, ∃ node, mount.lookup (pathText item.1.path) = .ok node ∧
        (mount.store.nodes node).kind = item.1.kind ∧
        (mount.store.nodes node).data = ⟨item.1.header, item.2⟩ := by
  obtain ⟨hperm, hsorted⟩ := a.insertAll_placed
  have hmem : ∀ entry, entry ∈ insertAll a.placed [] ↔ ∃ item ∈ a.placed, entryOf item = entry := by
    intro entry
    rw [hperm.mem_iff, mem_map]
  have hmounted : TarFsMount.Mounted
      ((insertAll a.placed []).foldl (TarFsMount.addEntry 0) TarFsMount.emptyStore)
      (insertAll a.placed []) := by
    refine TarFsMount.mounted_foldl TarFsMount.mounted_emptyStore hsorted ?_ ?_
    · intro entry hentry
      obtain ⟨item, hitem, rfl⟩ := (hmem entry).1 hentry
      exact a.sound_entryOf hitem
    · intro entry hentry
      obtain ⟨item, hitem, rfl⟩ := (hmem entry).1 hentry
      refine (a.parent_entryOf hitem).imp_right ?_
      rintro ⟨d, hd, hparent⟩
      exact ⟨entryOf d, (hmem _).2 ⟨d, hd, rfl⟩, hparent⟩
  refine ⟨_, by rw [create, a.parseTar_plain hplain]; rfl, rfl, ?_⟩
  intro item hitem
  have hm := a.legal item.1 (a.mem_of_placed hitem)
  obtain ⟨node, hnode, hdata, hkind⟩ := hmounted.present _ ((hmem _).2 ⟨item, hitem, rfl⟩)
  have hnames : names (entryOf item).1 = item.1.path := names_pathText hm.path_ne hm.names
  have hsegments : segments (pathText item.1.path) = item.1.path := by
    have hverified := verifyPathText_pathText hm.path_ne hm.names
    exact (VfsPath.segments_eq ⟨_, hverified⟩).trans (names_pathText hm.path_ne hm.names)
  refine ⟨node, ?_, ?_, hdata⟩
  · rw [hnames] at hnode
    rw [TarFsMount.lookup, hsegments]
    exact hmounted.wellFormed.lookupFrom_descend hnode
  · exact (nodeType_injective (hm.getType.symm.trans hkind)).symm

lemma read_eq {mount : TarFsMount} {node : NodeId} {offset length : Nat} (hitem : item ∈ a.placed)
    (hmedia : mount.mMedia = a.media)
    (hdata : (mount.store.nodes node).data = ⟨item.1.header, item.2⟩)
    (hread : length ≠ 0 ∨ offset % 512 ≠ 0 ∨ item.1.content.length ≤ offset) :
    mount.read node offset length =
      .ok (if item.1.content.length ≤ offset then .endOfFile else .success,
        (item.1.content.drop offset).take length) := by
  obtain ⟨hblock, hrange, hbytes⟩ := a.dataAt hitem
  have hsize := (a.legal item.1 (a.mem_of_placed hitem)).getSize
  rw [TarFsMount.read, hdata, hmedia]
  simp only [hsize, bind, Except.bind]
  by_cases hend : item.1.content.length ≤ offset
  · rw [if_pos hend, if_pos hend, drop_eq_nil_of_le hend, take_nil]
    rfl
  · rw [if_neg hend, if_neg hend]
    have hcontent : (item.1.content.drop offset).take length =
        (a.bytes.drop (item.2 + offset)).take (min (item.1.content.length - offset) length) := by
      rw [← hbytes, drop_take, drop_drop, take_take, hbytes, Nat.min_comm]
    have hmedium : a.media.size = a.bytes.length := a.media_size
    rw [hcontent]
    by_cases hzero : length = 0
    · have hinside : (item.2 + offset) % 512 ≠ 0 := by
        omega
      rw [hzero, Nat.min_zero, take_zero,
        BlockDevice.read_zero_inside a.media_length hinside (by omega)]
      rfl
    · rw [BlockDevice.read_eq a.media_length (by omega) (by omega)]
      rfl

lemma read_empty {mount : TarFsMount} {node : NodeId} {offset : Nat} (hitem : item ∈ a.placed)
    (hmedia : mount.mMedia = a.media)
    (hdata : (mount.store.nodes node).data = ⟨item.1.header, item.2⟩) (hfront : offset % 512 = 0)
    (hinside : offset < item.1.content.length) :
    mount.read node offset 0 = .error .badAccess := by
  obtain ⟨hblock, hrange, -⟩ := a.dataAt hitem
  have hsize := (a.legal item.1 (a.mem_of_placed hitem)).getSize
  have hmedium : a.media.size = a.bytes.length := a.media_size
  rw [TarFsMount.read, hdata, hmedia]
  simp only [hsize, bind, Except.bind]
  rw [if_neg (Nat.not_le.2 hinside), Nat.min_zero,
    BlockDevice.read_zero_front a.media_length (by omega) (by omega)]

/-- An archive reads back if the code gets the checksum of every header right and the read is not
one of no bytes at the front of a block. -/
theorem readsBackAt_iff (offset length : Nat) :
    a.ReadsBackAt offset length ↔ (∀ m ∈ a.members, m.Plain) ∧ a.Readable offset length := by
  constructor
  · rintro ⟨⟨headers, hparse, -⟩, -, -, -, mount, hcreate, hmount⟩
    have hplain : ∀ m ∈ a.members, m.Plain := by
      intro m hm
      by_contra hbad
      exact a.parseTar_not_plain ⟨m, hm, hbad⟩ headers hparse
    refine ⟨hplain, ?_⟩
    by_contra hbad
    simp only [Readable, not_or, not_not, not_forall, Nat.not_le] at hbad
    obtain ⟨hzero, hfront, m, hm, hfile, hinside⟩ := hbad
    obtain ⟨mount', hcreate', hmedia, hitems⟩ := a.create_plain hplain
    obtain rfl : mount = mount' := Except.ok.inj (hcreate.symm.trans hcreate')
    obtain ⟨place, hplaced⟩ := a.exists_placed hm
    obtain ⟨node, hlookup, -, hread⟩ := hmount m hm
    obtain ⟨node', hlookup', -, hdata⟩ := hitems _ hplaced
    obtain rfl : node = node' := Except.ok.inj (hlookup.symm.trans hlookup')
    have hok := hread hfile
    rw [hzero, a.read_empty hplaced hmedia hdata hfront hinside] at hok
    cases hok
  · rintro ⟨hplain, hreadable⟩
    obtain ⟨mount, hcreate, hmedia, hitems⟩ := a.create_plain hplain
    refine ⟨⟨_, a.parseTar_plain hplain, a.insertAll_placed.1⟩, fun m hm => (a.legal m hm).getType,
      fun m hm => (a.legal m hm).getSize, fun item hitem => (a.dataAt hitem).data, mount, hcreate,
      fun m hm => ?_⟩
    obtain ⟨place, hplaced⟩ := a.exists_placed hm
    obtain ⟨node, hlookup, hkind, hdata⟩ := hitems _ hplaced
    refine ⟨node, hlookup, hkind, fun hfile => ?_⟩
    exact a.read_eq hplaced hmedia hdata
      (hreadable.imp_right fun h => h.imp_right fun h => h m hm hfile)

def accentHeader : TarPosixHeader where
  name := [0xc3, 0xa9] ++ replicate 98 0
  mode := replicate 7 0x30 ++ [0]
  uid := replicate 7 0x30 ++ [0]
  gid := replicate 7 0x30 ++ [0]
  size := replicate 10 0x30 ++ [0x33, 0]
  mtime := replicate 11 0x30 ++ [0]
  checksum := [0x30, 0x30, 0x36, 0x34, 0x33, 0x36, 0, 0x20]
  typeflag := 0x30
  linkname := replicate 100 0
  magic := TarPosixHeader.kMagic
  version := [0x20, 0]
  uname := replicate 32 0
  gname := replicate 32 0
  devmajor := replicate 8 0
  devminor := replicate 8 0
  prefixText := replicate 155 0

def accentMember : TarMember := ⟨accentHeader, .file, [[0xc3, 0xa9]], [0x61, 0x62, 0x63]⟩

lemma legal_accentMember : accentMember.Legal where
  widths := by constructor <;> rfl
  path_ne := by decide
  names := by
    intro name hname
    obtain rfl := mem_singleton.1 hname
    exact ⟨by decide, by decide, by decide +kernel⟩
  name := ⟨0, false, by decide, by decide +kernel, rfl⟩
  magic := rfl
  type := by decide
  size := ⟨rfl, replicate 10 0x30 ++ [0x33], [0], rfl, by decide +kernel, rfl,
    by decide +kernel⟩
  checksum := ⟨rfl, [0x30, 0x30, 0x36, 0x34, 0x33, 0x36], [0, 0x20], rfl, by decide +kernel,
    by decide +kernel, by decide +kernel⟩

def accentArchive : TarArchive where
  members := [accentMember]
  trailer := 2
  legal := by
    intro m hm
    obtain rfl := mem_singleton.1 hm
    exact legal_accentMember
  distinct := by decide
  parents := by
    intro before m after hmembers front name rest hpath hne
    -- the only path is of one name
    have hm : m ∈ [accentMember] := by
      rw [hmembers]
      exact mem_append_right _ (mem_cons_self ..)
    have hlength := congrArg List.length hpath
    rw [mem_singleton.1 hm, length_append, length_cons] at hlength
    have hfront := length_pos_of_ne_nil hne
    change 1 = _ at hlength
    omega
  fits := by decide +kernel

/-- The checksum of the file "é" is refused. -/
theorem accentArchive_refused : ¬ accentArchive.ReadsBackAt 0 3 := by
  rintro ⟨⟨headers, hparse, -⟩, -⟩
  refine accentArchive.parseTar_not_plain ⟨accentMember, mem_singleton_self _, ?_⟩ headers
    hparse
  rintro ⟨hsigned, -⟩
  exact absurd (hsigned 0xc3 (by decide +kernel)) (by decide)

end TarArchive

end Vfs
end BezOS
