import Mathlib.Data.List.Nodup
import BezOS.Fs.TarNames

/-!
# Parsing archives

The loop of `ParseTar` takes one member after the other, by an induction over the members that are
still ahead. It stops at the first member whose checksum does not pass.
-/

namespace BezOS
namespace Vfs

open BlockDevice TarPosixHeader List

/-! ## One member -/

lemma le_roundup (size : Nat) : size ≤ roundup size kTarBlockSize := by
  rw [roundup, kTarBlockSize]
  omega

def nodeType : NodeKind → VfsNodeType
  | .file => .file
  | .folder => .folder

namespace TarMember

variable {m : TarMember}

lemma Legal.length_bytes (hm : m.Legal) :
    m.bytes.length = kTarBlockSize + roundup m.content.length kTarBlockSize := by
  have hpad := le_roundup m.content.length
  have hblock : kTarBlockSize = 500 + 12 := rfl
  simp only [bytes, length_append, length_replicate, hm.widths.length_bytes]
  omega

lemma Legal.getType (hm : m.Legal) : m.header.getType = nodeType m.kind := by
  have htype := hm.type
  rw [TarPosixHeader.getType]
  cases hkind : m.kind with
  | file =>
    rw [hkind, typeflags, mem_pair] at htype
    exact if_pos htype
  | folder =>
    rw [hkind, typeflags, mem_singleton] at htype
    rw [htype]
    rfl

lemma Legal.getSize (hm : m.Legal) : m.header.getSize = .ok m.content.length :=
  tarNumber_of_field hm.size (Nat.le_refl 12) (.inl rfl)

end TarMember

section Step

variable {media : MemoryBlk} {front back : List UInt8} {m : TarMember} {fuel : Nat}
  {result : TarMap}

lemma read_header (hlength : media.mMemory.length < 2 ^ 64)
    (hsize : media.size = media.mMemory.length)
    (hmedia : media.mMemory = front ++ (m.bytes ++ back)) (hm : m.Legal) :
    read media front.length kSize = .ok m.header.bytes := by
  have hbytes : m.header.bytes.length = kSize := hm.widths.length_bytes
  rw [read_eq hlength (by decide)]
  · rw [hmedia, drop_left, TarMember.bytes, append_assoc, take_left' hbytes]
  · have hmember := hm.length_bytes
    have hblock : kTarBlockSize = 512 := rfl
    have hheader : kSize = 500 := rfl
    rw [hsize, hmedia, length_append, length_append]
    omega

lemma parseTarFrom_member (hlength : media.mMemory.length < 2 ^ 64)
    (hsize : media.size = media.mMemory.length)
    (hmedia : media.mMemory = front ++ (m.bytes ++ back)) (hm : m.Legal) :
    parseTarFrom media {} (fuel + 1) front.length result = (do
      let passes ← checksumPasses {} m.header
      if passes then
        parseTarFrom media {} fuel (front.length + m.bytes.length)
          (insertEntry (pathText m.path) ⟨m.header, front.length + kTarBlockSize⟩ result)
      else pure (.invalidInput, result)) := by
  have hblock : kTarBlockSize = 512 := rfl
  have hbytes : m.header.bytes.length = kSize := hm.widths.length_bytes
  have htotal : media.size = front.length + (m.bytes.length + back.length) := by
    rw [hsize, hmedia, length_append, length_append]
  have hmember := hm.length_bytes
  have hpad := le_roundup m.content.length
  have hnext : front.length + kTarBlockSize + roundup m.content.length kTarBlockSize =
      front.length + m.bytes.length := by omega
  have htype : ¬ (m.header.getType ≠ .file ∧ m.header.getType ≠ .folder) := by
    rintro ⟨hfile, hfolder⟩
    rw [hm.getType] at hfile hfolder
    cases hkind : m.kind with
    | file => exact hfile (by rw [hkind]; rfl)
    | folder => exact hfolder (by rw [hkind]; rfl)
  rw [parseTarFrom, if_pos (by omega), read_header hlength hsize hmedia hm]
  simp only [bind, Except.bind, ofBytes_bytes hm.widths]
  rw [if_neg (not_not_intro hbytes), if_neg hm.name_head,
    if_neg (not_not_intro hm.magic)]
  cases checksumPasses {} m.header with
  | error fault => rfl
  | ok passes =>
    cases passes with
    | false => rfl
    | true =>
      simp only [not_true_eq_false, if_false, if_true, hm.getSize, hm.convertTarPath, hnext]
      rw [if_neg (by omega), if_neg htype, if_neg hm.name_ne_root]

end Step

/-! ## All members -/

def insertAll (items : List (TarMember × Nat)) (result : TarMap) : TarMap :=
  items.foldl (fun result item =>
    insertEntry (TarArchive.entryOf item).1 (TarArchive.entryOf item).2 result) result

section Run

variable {media : MemoryBlk} {trailer : Nat} {members : List TarMember}

lemma parseTarFrom_trailer {front : List UInt8} (hlength : media.mMemory.length < 2 ^ 64)
    (hsize : media.size = media.mMemory.length)
    (hmedia : media.mMemory = front ++ replicate (trailer * 512) 0) (fuel : Nat)
    (result : TarMap) :
    parseTarFrom media {} (fuel + 1) front.length result = .ok (.success, result) := by
  have htotal : media.size = front.length + trailer * 512 := by
    rw [hsize, hmedia, length_append, length_replicate]
  have hheader : kSize = 500 := rfl
  rw [parseTarFrom]
  by_cases hend : front.length < media.size
  · have hzeros : read media front.length kSize =
        .ok (replicate kSize 0) := by
      rw [read_eq hlength (by decide) (by omega), hmedia, drop_left,
        take_replicate, Nat.min_eq_left (by omega)]
    have hname : (ofBytes (replicate kSize 0)).name.head? =
        some 0 := rfl
    rw [if_pos hend, hzeros]
    simp only [bind, Except.bind, length_replicate, ne_eq, not_true_eq_false, if_false, hname,
      if_true]
    rfl
  · rw [if_neg hend]

lemma parseTarFrom_plain {front : List UInt8} {fuel : Nat} {result : TarMap}
    (hlength : media.mMemory.length < 2 ^ 64) (hsize : media.size = media.mMemory.length)
    (hmedia : media.mMemory =
      front ++ (members.flatMap TarMember.bytes ++ replicate (trailer * 512) 0))
    (hlegal : ∀ m ∈ members, m.Legal) (hplain : ∀ m ∈ members, m.Plain)
    (hfuel : members.length < fuel) :
    parseTarFrom media {} fuel front.length result =
      .ok (.success, insertAll (placedFrom front.length members) result) := by
  induction members generalizing front fuel result with
  | nil =>
    obtain ⟨fuel, rfl⟩ : ∃ n, fuel = n + 1 := ⟨fuel - 1, by omega⟩
    exact parseTarFrom_trailer hlength hsize hmedia fuel result
  | cons m members ih =>
    obtain ⟨fuel, rfl⟩ : ∃ n, fuel = n + 1 := ⟨fuel - 1, by omega⟩
    have hm := hlegal m (mem_cons_self ..)
    rw [flatMap_cons, append_assoc] at hmedia
    rw [parseTarFrom_member hlength hsize hmedia hm,
      (checksumPasses_iff hm).2 (hplain m (mem_cons_self ..))]
    rw [← append_assoc] at hmedia
    have hrest := fun result => @ih (front ++ m.bytes) fuel result hmedia (fun m hm => hlegal m (mem_cons_of_mem _ hm))
      (fun m hm => hplain m (mem_cons_of_mem _ hm)) (by simpa using hfuel)
    simp only [length_append] at hrest
    exact hrest _

lemma parseTarFrom_not_plain {front back : List UInt8} {fuel : Nat} {result : TarMap}
    (hlength : media.mMemory.length < 2 ^ 64) (hsize : media.size = media.mMemory.length)
    (hmedia : media.mMemory = front ++ (members.flatMap TarMember.bytes ++ back))
    (hlegal : ∀ m ∈ members, m.Legal) (hbad : ∃ m ∈ members, ¬ m.Plain) (headers : TarMap) :
    parseTarFrom media {} fuel front.length result ≠ .ok (.success, headers) := by
  induction members generalizing front fuel result with
  | nil =>
    obtain ⟨m, hm, -⟩ := hbad
    cases hm
  | cons m members ih =>
    cases fuel with
    | zero =>
      intro h
      cases h
    | succ fuel =>
      have hm := hlegal m (mem_cons_self ..)
      rw [flatMap_cons, append_assoc] at hmedia
      rw [parseTarFrom_member hlength hsize hmedia hm]
      by_cases hplain : m.Plain
      · rw [(checksumPasses_iff hm).2 hplain]
        rw [← append_assoc] at hmedia
        have hlater : ∃ m ∈ members, ¬ m.Plain := by
          obtain ⟨bad, hmem, hnot⟩ := hbad
          rcases mem_cons.1 hmem with rfl | hmem
          · exact absurd hplain hnot
          · exact ⟨bad, hmem, hnot⟩
        have hrest := fun result => @ih (front ++ m.bytes) fuel result hmedia
          (fun m hm => hlegal m (mem_cons_of_mem _ hm)) hlater
        simp only [length_append] at hrest
        exact hrest _
      · intro hok
        cases hpass : checksumPasses {} m.header with
        | error fault =>
          rw [hpass] at hok
          cases hok
        | ok passes =>
          rw [hpass] at hok
          cases passes with
          | true => exact hplain ((checksumPasses_iff hm).1 hpass)
          | false => cases hok

end Run

/-! ## The order of the entries -/

def Sorted (entries : TarMap) : Prop := (entries.map Prod.fst).Pairwise textLess

variable {entry : TarEntry} {entries : TarMap} {path : VfsString}

lemma insertEntry_perm (hnew : path ∉ entries.map Prod.fst) :
    (insertEntry path entry entries).Perm ((path, entry) :: entries) := by
  induction entries with
  | nil => exact .refl _
  | cons item rest ih =>
    rw [map_cons, mem_cons, not_or] at hnew
    rw [insertEntry]
    split
    · exact .refl _
    · rw [if_neg hnew.1]
      exact ((ih hnew.2).cons _).trans (.swap ..)

lemma keys_insertEntry {key : VfsString} (h : key ∈ (insertEntry path entry entries).map Prod.fst) :
    key = path ∨ key ∈ entries.map Prod.fst := by
  induction entries with
  | nil => exact .inl (mem_singleton.1 h)
  | cons item rest ih =>
    rw [insertEntry] at h
    split at h
    · exact mem_cons.1 h
    · split at h
      · exact .inr h
      · rcases mem_cons.1 h with rfl | h
        · exact .inr (mem_cons_self ..)
        · exact (ih h).imp_right (mem_cons_of_mem _)

lemma insertEntry_sorted (hsorted : Sorted entries) :
    Sorted (insertEntry path entry entries) := by
  induction entries with
  | nil => exact pairwise_singleton _ _
  | cons item rest ih =>
    obtain ⟨hother, hrest⟩ := pairwise_cons.1 hsorted
    rw [insertEntry]
    split
    · rename_i hless
      refine pairwise_cons.2 ⟨fun key hkey => ?_, hsorted⟩
      rcases mem_cons.1 hkey with rfl | hkey
      · exact hless
      · exact textLess_trans hless (hother key hkey)
    · rename_i hless
      split
      · exact hsorted
      · rename_i hne
        refine pairwise_cons.2 ⟨fun key hkey => ?_, ih hrest⟩
        rcases keys_insertEntry hkey with rfl | hkey
        · exact textLess_of_not hless hne
        · exact hother key hkey

lemma insertAll_spec {items : List (TarMember × Nat)} {result : TarMap}
    (hdistinct : (items.map fun item => pathText item.1.path).Nodup)
    (hnew : ∀ item ∈ items, pathText item.1.path ∉ result.map Prod.fst)
    (hsorted : Sorted result) :
    (insertAll items result).Perm (items.map TarArchive.entryOf ++ result) ∧
      Sorted (insertAll items result) := by
  induction items generalizing result with
  | nil => exact ⟨.refl _, hsorted⟩
  | cons item items ih =>
    obtain ⟨hitem, hitems⟩ := nodup_cons.1 hdistinct
    have hperm : (insertEntry (TarArchive.entryOf item).1 (TarArchive.entryOf item).2 result).Perm
        (TarArchive.entryOf item :: result) :=
      insertEntry_perm (hnew item (mem_cons_self ..))
    have hnext : ∀ later ∈ items, pathText later.1.path ∉
        (insertEntry (TarArchive.entryOf item).1 (TarArchive.entryOf item).2 result).map
          Prod.fst := by
      intro later hlater hmem
      rw [(hperm.map _).mem_iff, map_cons, mem_cons] at hmem
      rcases hmem with heq | hmem
      · exact hitem (mem_map.2 ⟨later, hlater, heq⟩)
      · exact hnew later (mem_cons_of_mem _ hlater) hmem
    obtain ⟨hall, hsorted'⟩ := ih hitems hnext (insertEntry_sorted hsorted)
    refine ⟨hall.trans ?_, hsorted'⟩
    exact (hperm.append_left _).trans perm_middle

/-! ## Archives -/

namespace TarArchive

variable (a : TarArchive)

lemma length_members {members : List TarMember} (hlegal : ∀ m ∈ members, m.Legal) :
    512 ∣ (members.flatMap TarMember.bytes).length ∧
      members.length ≤ (members.flatMap TarMember.bytes).length := by
  induction members with
  | nil => exact ⟨Nat.dvd_zero _, Nat.le_refl _⟩
  | cons m members ih =>
    obtain ⟨hdvd, hle⟩ := ih fun m hm => hlegal m (mem_cons_of_mem _ hm)
    have hm := (hlegal m (mem_cons_self ..)).length_bytes
    rw [flatMap_cons, length_append, hm, length_cons, kTarBlockSize, roundup]
    constructor
    · exact Nat.dvd_add (Nat.dvd_add (Nat.dvd_refl _) (Nat.dvd_mul_left ..)) hdvd
    · omega

lemma length_bytes :
    a.bytes.length = (a.members.flatMap TarMember.bytes).length + a.trailer * 512 := by
  rw [bytes, length_append, length_replicate]

lemma media_size : a.media.size = a.bytes.length := by
  have hdvd : 512 ∣ a.bytes.length := by
    rw [length_bytes]
    exact Nat.dvd_add (length_members a.legal).1 (Nat.dvd_mul_left ..)
  exact Nat.mul_div_cancel' hdvd

lemma media_length : a.media.mMemory.length < 2 ^ 64 :=
  lt_of_eq_of_lt a.length_bytes a.fits

lemma parseTar_plain (hplain : ∀ m ∈ a.members, m.Plain) :
    parseTar a.media {} = .ok (.success, insertAll a.placed []) := by
  have hfuel : a.members.length < a.media.size + 1 := by
    have hle := (length_members a.legal).2
    rw [media_size, length_bytes]
    omega
  exact @parseTarFrom_plain a.media a.trailer a.members [] _ [] a.media_length a.media_size rfl
    a.legal hplain hfuel

lemma map_placedFrom (offset : Nat) (members : List TarMember) :
    (placedFrom offset members).map Prod.fst = members := by
  induction members generalizing offset with
  | nil => rfl
  | cons m members ih => rw [placedFrom, map_cons, ih]

lemma distinct_texts : (a.placed.map fun item => pathText item.1.path).Nodup := by
  have hmap : (a.placed.map fun item => pathText item.1.path) =
      (a.members.map TarMember.path).map pathText := by
    have hmembers : a.placed.map Prod.fst = a.members := map_placedFrom 0 a.members
    rw [← hmembers, map_map, map_map]
    rfl
  rw [hmap]
  refine Nodup.map_on ?_ a.distinct
  -- the names of a path are those of its text
  intro p hp q hq heq
  obtain ⟨m, hm, rfl⟩ := mem_map.1 hp
  obtain ⟨m', hm', rfl⟩ := mem_map.1 hq
  rw [← names_pathText (a.legal m hm).path_ne (a.legal m hm).names, heq,
    names_pathText (a.legal m' hm').path_ne (a.legal m' hm').names]

lemma insertAll_placed :
    (insertAll a.placed []).Perm (a.placed.map entryOf) ∧ Sorted (insertAll a.placed []) := by
  have hempty : Sorted [] := List.Pairwise.nil
  have h := insertAll_spec a.distinct_texts (fun _ _ => by simp) hempty
  rwa [append_nil] at h

lemma parseTar_not_plain (hbad : ∃ m ∈ a.members, ¬ m.Plain) (headers : TarMap) :
    parseTar a.media {} ≠ .ok (.success, headers) :=
  @parseTarFrom_not_plain a.media a.members [] (replicate (a.trailer * 512) 0) _ []
    a.media_length a.media_size rfl a.legal hbad headers

end TarArchive

end Vfs
end BezOS
