import BezOS.Fs.TarFormat

/-!
# Names in archives

The text of a path of legal names passes the check of paths, and `ConvertTarPath` makes it of every
name the path can have in an archive.
-/

namespace BezOS
namespace Vfs

open List

variable {path : List VfsString}

/-! ## Texts of paths -/

lemma separator_not_mem (hlegal : ∀ name ∈ path, LegalName name) :
    ∀ name ∈ path, kPathSeparator ∉ name :=
  fun name hname hmem => ((hlegal name hname).chars _ hmem).1 rfl

section

variable (hne : path ≠ []) (hlegal : ∀ name ∈ path, LegalName name)

include hne hlegal

lemma splitOn_pathText :
    (pathText path).splitOn kPathSeparator = path :=
  splitOn_intercalate _ (separator_not_mem hlegal) hne

lemma pathText_ne_nil :
    pathText path ≠ [] := by
  intro hempty
  have hsplit := splitOn_pathText hne hlegal
  rw [hempty, splitOn_nil] at hsplit
  have hmem : [] ∈ path := by simp [← hsplit]
  exact (hlegal [] hmem).nonempty rfl

lemma names_pathText :
    names (pathText path) = path := by
  rw [names_of_ne_nil (pathText_ne_nil hne hlegal), splitOn_pathText hne hlegal]

end

lemma mem_intercalate {c separator : UInt8} (h : c ∈ [separator].intercalate path) :
    c = separator ∨ ∃ name ∈ path, c ∈ name := by
  induction path with
  | nil => cases h
  | cons name rest ih =>
    cases rest with
    | nil => exact .inr ⟨name, by simp, by simpa using h⟩
    | cons next rest =>
      rw [intercalate_cons_cons, append_assoc, mem_append, mem_append] at h
      rcases h with h | h | h
      · exact .inr ⟨name, by simp, h⟩
      · exact .inl (mem_singleton.1 h)
      · rcases ih h with h | ⟨name', hname', h⟩
        · exact .inl h
        · exact .inr ⟨name', mem_cons_of_mem _ hname', h⟩

section Split

variable {name : VfsString} (hne : path ≠ []) (hlegal : ∀ name ∈ path, LegalName name)
include hne hlegal

lemma legal_of_mem_splitOn (h : name ∈ (pathText path).splitOn kPathSeparator) :
    LegalName name := by
  rw [splitOn_pathText hne hlegal] at h
  exact hlegal name h

lemma legal_front (ys : VfsString) (hname : kPathSeparator ∉ name)
    (h : pathText path = name ++ kPathSeparator :: ys) : LegalName name := by
  refine legal_of_mem_splitOn hne hlegal ?_
  simp [h, splitOn_append_cons_self, splitOn_eq_singleton hname]

lemma legal_back (xs : VfsString) (hname : kPathSeparator ∉ name)
    (h : pathText path = xs ++ kPathSeparator :: name) : LegalName name := by
  refine legal_of_mem_splitOn hne hlegal ?_
  simp [h, splitOn_append_cons_self, splitOn_eq_singleton hname]

lemma legal_middle (xs ys : VfsString) (hname : kPathSeparator ∉ name)
    (h : pathText path = xs ++ kPathSeparator :: (name ++ kPathSeparator :: ys)) :
    LegalName name := by
  refine legal_of_mem_splitOn hne hlegal ?_
  simp [h, splitOn_append_cons_self, splitOn_eq_singleton hname]

lemma hasEmptySegment_pathText : hasEmptySegment (pathText path) = false := by
  rw [hasEmptySegment, any_eq_false]
  intro i hi hboth
  rw [decide_eq_true_eq] at hboth
  obtain ⟨hlt, hfirst⟩ := List.getElem?_eq_some_iff.1 hboth.1
  obtain ⟨hlt', hsecond⟩ := List.getElem?_eq_some_iff.1 hboth.2
  have hrest : (pathText path).drop i =
      kPathSeparator :: kPathSeparator :: (pathText path).drop (i + 2) := by
    rw [drop_eq_getElem_cons hlt, hfirst, drop_eq_getElem_cons hlt', hsecond]
  have htext : pathText path = (pathText path).take i ++
      kPathSeparator :: ([] ++ kPathSeparator :: (pathText path).drop (i + 2)) := by
    rw [nil_append, ← hrest, take_append_drop]
  exact (legal_middle hne hlegal _ _ (by simp) htext).nonempty rfl

lemma verifyPathText_pathText : verifyPathText (pathText path) = true := by
  have hdot : ¬ LegalName [0x2e] := fun h => h.not_dot rfl
  have hnil : ¬ LegalName [] := fun h => h.nonempty rfl
  have hchar : kPathSeparator ∉ [(0x2e : UInt8)] := by decide
  rw [verifyPathText, if_neg (pathText_ne_nil hne hlegal), if_neg, if_neg, if_neg, if_neg]
  · rw [all_eq_true]
    intro c hc
    rcases mem_intercalate hc with rfl | ⟨name, hname, hc⟩
    · decide
    · have hchars := (hlegal name hname).chars c hc
      simp [kPathInvalidChars, hchars.2.1, hchars.2.2]
  · rintro ⟨xs, ys, htext⟩
    refine hdot (legal_middle hne hlegal xs ys hchar ?_)
    rw [← htext]
    simp
  · rintro (hstart | hend)
    · obtain ⟨ys, htext⟩ := isPrefixOf_iff_prefix.1 hstart
      exact hdot (legal_front hne hlegal ys hchar htext.symm)
    · obtain ⟨xs, htext⟩ := isSuffixOf_iff_suffix.1 hend
      exact hdot (legal_back hne hlegal xs hchar htext.symm)
  · rw [hasEmptySegment_pathText hne hlegal]
    decide
  · rintro (hhead | hlast)
    · obtain ⟨ys, htext⟩ := head?_eq_some_iff.1 hhead
      exact hnil (legal_front hne hlegal ys (by simp) htext)
    · obtain ⟨xs, htext⟩ := getLast?_eq_some_iff.1 hlast
      exact hnil (legal_back hne hlegal xs (by simp) htext)

end Split

/-! ## Names -/

def convertChar (c : UInt8) : UInt8 := if c = 0x2f then kPathSeparator else c

lemma map_convertChar_name {name : VfsString} (h : LegalName name) :
    name.map convertChar = name := by
  refine (map_congr_left fun c hc => ?_).trans (map_id name)
  exact if_neg (h.chars c hc).2.1

lemma map_convertChar_path (hlegal : ∀ name ∈ path, LegalName name) :
    ([0x2f].intercalate path).map convertChar = pathText path := by
  induction path with
  | nil => rfl
  | cons name rest ih =>
    have hname := map_convertChar_name (hlegal name (mem_cons_self ..))
    have hrest := ih fun name hname => hlegal name (mem_cons_of_mem _ hname)
    cases rest with
    | nil => simpa [pathText] using hname
    | cons next rest =>
      rw [pathText, intercalate_cons_cons, intercalate_cons_cons, map_append,
        map_append, hname, hrest]
      rfl

lemma map_convertChar_dots (dots : Nat) :
    (replicate dots [(0x2e : UInt8), 0x2f]).flatten.map convertChar =
      (replicate dots [(0x2e : UInt8), kPathSeparator]).flatten := by
  rw [map_flatten, map_replicate]
  rfl

lemma stripDots_dots (dots : Nat) (text : VfsString) :
    stripDots ((replicate dots [(0x2e : UInt8), kPathSeparator]).flatten ++ text) =
      stripDots text := by
  induction dots with
  | zero => rfl
  | succ dots ih =>
    rw [replicate_succ, flatten_cons, append_assoc]
    change stripDots (0x2e :: kPathSeparator :: _) = _
    rw [stripDots, if_pos ⟨rfl, rfl⟩]
    exact ih

lemma stripDots_pathText (hne : path ≠ []) (hlegal : ∀ name ∈ path, LegalName name) :
    stripDots (pathText path) = pathText path := by
  unfold stripDots
  split
  · rename_i a b rest htext
    rw [if_neg, htext]
    rintro ⟨rfl, rfl⟩
    exact (legal_front hne hlegal rest (by decide) htext).not_dot rfl
  · rfl

/-- What `ConvertTarPath` does to the text of a name. -/
def convertText (text : List UInt8) : VfsString :=
  stripDots (if (text.map convertChar).getLast? = some kPathSeparator then
    (text.map convertChar).dropLast else text.map convertChar)

lemma convertText_tarName (dots : Nat) (slash : Bool) (hne : path ≠ [])
    (hlegal : ∀ name ∈ path, LegalName name) :
    convertText (tarName dots path slash) = pathText path := by
  have hmap : ∀ slash, (tarName dots path slash).map convertChar =
      (replicate dots [(0x2e : UInt8), kPathSeparator]).flatten ++ pathText path ++
        if slash then [kPathSeparator] else [] := by
    intro slash
    rw [tarName, map_append, map_append, map_convertChar_dots,
      map_convertChar_path hlegal]
    cases slash <;> rfl
  rw [convertText, hmap]
  cases slash with
  | true =>
    rw [if_pos rfl, if_pos (by simp), dropLast_concat, stripDots_dots,
      stripDots_pathText hne hlegal]
  | false =>
    have hlast : ∀ xs, pathText path ≠ xs ++ [kPathSeparator] := by
      intro xs htext
      exact (legal_back hne hlegal xs (by simp) htext).nonempty rfl
    rw [if_neg Bool.false_ne_true, append_nil, if_neg, stripDots_dots,
      stripDots_pathText hne hlegal]
    rw [getLast?_append_of_ne_nil _ (pathText_ne_nil hne hlegal)]
    intro hsome
    obtain ⟨xs, htext⟩ := getLast?_eq_some_iff.1 hsome
    exact hlast xs htext

lemma mem_tarName {c : UInt8} {dots : Nat} {slash : Bool} (h : c ∈ tarName dots path slash) :
    c = 0x2e ∨ c = 0x2f ∨ ∃ name ∈ path, c ∈ name := by
  rw [tarName, mem_append, mem_append] at h
  rcases h with (h | h) | h
  · obtain ⟨piece, hpiece, hc⟩ := mem_flatten.1 h
    rw [eq_of_mem_replicate hpiece] at hc
    rcases mem_pair.1 hc with rfl | rfl
    · exact .inl rfl
    · exact .inr (.inl rfl)
  · exact .inr (mem_intercalate h)
  · cases slash with
    | true => exact .inr (.inl (mem_singleton.1 h))
    | false => cases h

lemma zero_not_mem_tarName (dots : Nat) (slash : Bool)
    (hlegal : ∀ name ∈ path, LegalName name) : 0 ∉ tarName dots path slash := by
  intro h
  rcases mem_tarName h with h | h | ⟨name, hname, h⟩
  · exact absurd h (by decide)
  · exact absurd h (by decide)
  · exact ((hlegal name hname).chars 0 h).1 rfl

/-! ## The name field -/

lemma takeWhile_padded {text : List UInt8} (h : 0 ∉ text) (pad : Nat) :
    (text ++ replicate pad 0).takeWhile (· ≠ 0) = text := by
  rw [takeWhile_append_of_pos]
  · cases pad with
    | zero => simp
    | succ pad => simp [replicate_succ]
  · intro c hc
    have hne : c ≠ 0 := fun heq => h (heq ▸ hc)
    simpa using hne

namespace TarMember

variable {m : TarMember}

lemma Legal.convertTarPath (hm : m.Legal) :
    Vfs.convertTarPath m.header.name = .ok (pathText m.path) := by
  obtain ⟨dots, slash, -, -, hname⟩ := hm.name
  have hwidth : m.header.name.length ≤ kTarNameSize := Nat.le_of_eq hm.widths.name
  have hzero := zero_not_mem_tarName dots slash hm.names
  have hview := convertText_tarName dots slash hm.path_ne hm.names
  rw [Vfs.convertTarPath, take_of_length_le hwidth, hname, takeWhile_padded hzero]
  change (if verifyPathText (convertText (tarName dots m.path slash)) then
    .ok (convertText (tarName dots m.path slash)) else Except.error OsStatus.invalidPath) = _
  rw [hview, if_pos (verifyPathText_pathText hm.path_ne hm.names)]

lemma Legal.name_head (hm : m.Legal) : m.header.name.head? ≠ some 0 := by
  obtain ⟨dots, slash, -, -, hname⟩ := hm.name
  have hzero := zero_not_mem_tarName dots slash hm.names
  have hview := convertText_tarName dots slash hm.path_ne hm.names
  rw [hname]
  intro hhead
  cases htext : tarName dots m.path slash with
  | nil =>
    rw [htext] at hview
    exact pathText_ne_nil hm.path_ne hm.names hview.symm
  | cons c text =>
    rw [htext] at hhead hzero
    rw [cons_append, head?_cons, Option.some.injEq] at hhead
    exact hzero (hhead ▸ mem_cons_self ..)

lemma Legal.name_ne_root (hm : m.Legal) : m.header.name.take 3 ≠ [0x2e, 0x2f, 0] := by
  intro hroot
  have hpath := hm.convertTarPath
  have htext : m.header.name = [0x2e, 0x2f, 0] ++ m.header.name.drop 3 := by
    rw [← hroot, take_append_drop]
  have hdot : ([0x2e] : VfsString) ≠ pathText m.path := by
    intro hdot
    have hnames := names_pathText hm.path_ne hm.names
    rw [← hdot] at hnames
    have hmem : ([0x2e] : VfsString) ∈ m.path := by
      rw [← hnames]
      decide
    exact (hm.names _ hmem).not_dot rfl
  have hview : Vfs.convertTarPath ([0x2e, 0x2f, 0] ++ m.header.name.drop 3) = .ok [0x2e] := by
    rw [Vfs.convertTarPath]
    rfl
  rw [htext, hview] at hpath
  exact hdot (Except.ok.inj hpath)

end TarMember

end Vfs
end BezOS
