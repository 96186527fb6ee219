import Mathlib.Data.List.Infix
import Mathlib.Data.List.TakeWhile
import Mathlib.Tactic.Common
import Mathlib.Data.Int.Order.Basic
import Mathlib.Data.List.Lex

/-!
# Paths

`vfs::VfsPath` of `fs/path.cpp`: a text of bytes with the byte zero between its segments. The empty
text is the root. `VerifyPathText` is the check a text goes through before it is used as a path.
-/

namespace BezOS
namespace Vfs

open List

abbrev VfsString := List UInt8

/-- `OS_PATH_SEPARATOR`. -/
def kPathSeparator : UInt8 := 0

def kPathInvalidChars : List UInt8 := [0x2f, 0x5c]

/-! ## Iteration over the segments -/

/-- `VfsPathConstIterator::segment` of the text from the iterator on. -/
def segment (iter : VfsString) : VfsString := iter.takeWhile (· ≠ kPathSeparator)

/-- `operator++`: past the segment, and past the separator behind it. -/
def nextSegment (iter : VfsString) : VfsString := (iter.dropWhile (· ≠ kPathSeparator)).drop 1

/-- The segments a loop over a path visits; every step takes at least one byte. -/
def segmentsFrom : Nat → VfsString → List VfsString
  | 0, _ => []
  | fuel + 1, iter => if iter = [] then [] else segment iter :: segmentsFrom fuel (nextSegment iter)

def segments (path : VfsString) : List VfsString := segmentsFrom path.length path

def segmentCount (path : VfsString) : Nat :=
  if path = [] then 0 else path.count kPathSeparator + 1

/-- The text before the last separator; a text without one is its own parent. -/
def parent (path : VfsString) : VfsString :=
  match path.reverse.dropWhile (· ≠ kPathSeparator) with
  | [] => path
  | _ :: front => front.reverse

def name (path : VfsString) : VfsString :=
  (path.reverse.takeWhile (· ≠ kPathSeparator)).reverse

/-! ## The check -/

def startsWith (text search : VfsString) : Bool := search.isPrefixOf text

def endsWith (text search : VfsString) : Bool := search.isSuffixOf text

/-- The loop over neighbours: no segment between two separators is empty. -/
def hasEmptySegment (text : VfsString) : Bool :=
  (range (text.length - 1)).any fun i =>
    text[i]? = some kPathSeparator ∧ text[i + 1]? = some kPathSeparator

def verifyPathText (text : VfsString) : Bool :=
  if text = [] then true
  else if text.head? = some kPathSeparator ∨ text.getLast? = some kPathSeparator then false
  else if hasEmptySegment text then false
  -- a segment "." at the front, at the end or between two separators
  else if startsWith text [0x2e, kPathSeparator] ∨ endsWith text [kPathSeparator, 0x2e] then false
  else if [kPathSeparator, 0x2e, kPathSeparator] <:+: text then false
  else text.all fun c => c = kPathSeparator ∨ c ∉ kPathInvalidChars

structure VfsPath where
  text : VfsString
  verified : verifyPathText text = true

def names (text : VfsString) : List VfsString :=
  if text = [] then [] else text.splitOn kPathSeparator

namespace VfsPath

def names (path : VfsPath) : List VfsString := Vfs.names path.text

end VfsPath

/-! ## What the functions make of a text that passed the check -/

variable {text xs ys : VfsString}

@[simp] lemma names_nil : names [] = [] := rfl

lemma names_of_ne_nil (h : text ≠ []) : names text = text.splitOn kPathSeparator := if_neg h

lemma takeWhile_append_separator (h : kPathSeparator ∉ xs) :
    (xs ++ kPathSeparator :: ys).takeWhile (· ≠ kPathSeparator) = xs := by
  rw [takeWhile_append_of_pos]
  · simp
  · intro c hc
    have : c ≠ kPathSeparator := fun heq => h (heq ▸ hc)
    simpa using this

lemma dropWhile_append_separator (h : kPathSeparator ∉ xs) :
    (xs ++ kPathSeparator :: ys).dropWhile (· ≠ kPathSeparator) = kPathSeparator :: ys := by
  rw [dropWhile_append_of_pos]
  · simp
  · intro c hc
    have : c ≠ kPathSeparator := fun heq => h (heq ▸ hc)
    simpa using this

lemma takeWhile_of_not_mem (h : kPathSeparator ∉ text) :
    text.takeWhile (· ≠ kPathSeparator) = text := by
  refine takeWhile_eq_self_iff.2 fun c hc => ?_
  have : c ≠ kPathSeparator := fun heq => h (heq ▸ hc)
  simpa using this

lemma dropWhile_of_not_mem (h : kPathSeparator ∉ text) :
    text.dropWhile (· ≠ kPathSeparator) = [] := by
  refine dropWhile_eq_nil_iff.2 fun c hc => ?_
  have : c ≠ kPathSeparator := fun heq => h (heq ▸ hc)
  simpa using this

lemma segmentsFrom_eq_splitOn {fuel : Nat} (hfuel : text.length ≤ fuel) (hne : text ≠ [])
    (hlast : text.getLast? ≠ some kPathSeparator) :
    segmentsFrom fuel text = text.splitOn kPathSeparator := by
  induction fuel generalizing text with
  | zero => exact absurd (length_eq_zero_iff.1 (Nat.le_zero.1 hfuel)) hne
  | succ fuel ih =>
    rw [segmentsFrom, if_neg hne]
    by_cases hmem : kPathSeparator ∈ text
    · obtain ⟨xs, ys, rfl, hxs⟩ := eq_append_cons_of_mem hmem
      have hys : ys ≠ [] := by
        rintro rfl
        simp at hlast
      rw [segment, nextSegment, takeWhile_append_separator hxs, dropWhile_append_separator hxs,
        splitOn_append_cons_self_of_not_mem hxs, drop_one, tail_cons, ih _ hys]
      · rwa [getLast?_append, getLast?_cons_of_ne_nil hys,
          Option.or_of_isSome (by simpa using hys)] at hlast
      · simp only [length_append, length_cons] at hfuel
        omega
    · rw [segment, nextSegment, takeWhile_of_not_mem hmem, dropWhile_of_not_mem hmem,
        splitOn_eq_singleton hmem]
      cases fuel <;> rfl

lemma segments_eq_names (hlast : text.getLast? ≠ some kPathSeparator) :
    segments text = names text := by
  by_cases hne : text = []
  · subst hne
    rfl
  · rw [segments, names_of_ne_nil hne, segmentsFrom_eq_splitOn (Nat.le_refl _) hne hlast]

lemma exists_last_separator (h : kPathSeparator ∈ text) :
    ∃ xs ys, text = xs ++ kPathSeparator :: ys ∧ kPathSeparator ∉ ys := by
  obtain ⟨ys, xs, heq, hys⟩ := eq_append_cons_of_mem (mem_reverse.2 h)
  refine ⟨xs.reverse, ys.reverse, ?_, by simpa using hys⟩
  rw [← reverse_reverse text, heq]
  simp

lemma parent_append_separator (h : kPathSeparator ∉ ys) :
    parent (xs ++ kPathSeparator :: ys) = xs := by
  have hreverse : (xs ++ kPathSeparator :: ys).reverse =
      ys.reverse ++ kPathSeparator :: xs.reverse := by
    simp
  rw [parent, hreverse, dropWhile_append_separator (by simpa using h)]
  exact reverse_reverse xs

lemma name_append_separator (h : kPathSeparator ∉ ys) :
    name (xs ++ kPathSeparator :: ys) = ys := by
  have hreverse : (xs ++ kPathSeparator :: ys).reverse =
      ys.reverse ++ kPathSeparator :: xs.reverse := by
    simp
  rw [name, hreverse, takeWhile_append_separator (by simpa using h), reverse_reverse]

lemma name_of_not_mem (h : kPathSeparator ∉ text) : name text = text := by
  rw [name, takeWhile_of_not_mem (by simpa using h), reverse_reverse]

lemma splitOn_append_separator (h : kPathSeparator ∉ ys) :
    (xs ++ kPathSeparator :: ys).splitOn kPathSeparator = xs.splitOn kPathSeparator ++ [ys] := by
  rw [splitOn_append_cons_self, splitOn_eq_singleton h]

lemma not_hasEmptySegment (h : hasEmptySegment text = false) :
    ¬ [kPathSeparator, kPathSeparator] <:+: text := by
  rintro ⟨xs, ys, rfl⟩
  rw [hasEmptySegment, any_eq_false] at h
  refine h xs.length ?_ ?_
  · simp only [mem_range, length_append, length_cons, length_nil]
    omega
  · simp

namespace VfsPath

variable (path : VfsPath)

lemma separators (hne : path.text ≠ []) :
    path.text.head? ≠ some kPathSeparator ∧ path.text.getLast? ≠ some kPathSeparator ∧
      ¬ [kPathSeparator, kPathSeparator] <:+: path.text := by
  have h := path.verified
  rw [verifyPathText, if_neg hne] at h
  split at h
  · cases h
  · rename_i hends
    rw [not_or] at hends
    split at h
    · cases h
    · rename_i hempty
      exact ⟨hends.1, hends.2, not_hasEmptySegment (by simpa using hempty)⟩

lemma segments_eq : segments path.text = path.names := by
  refine segments_eq_names ?_
  by_cases hne : path.text = []
  · simp [hne]
  · exact (path.separators hne).2.1

lemma names_eq_nil : path.names = [] ↔ path.text = [] := by
  rw [names, Vfs.names]
  split <;> simp_all

lemma single_or_parent (hne : path.text ≠ []) :
    (segmentCount path.text = 1 ∧ path.names = [name path.text]) ∨
      (segmentCount path.text ≠ 1 ∧
        path.names = segments (parent path.text) ++ [name path.text]) := by
  obtain ⟨hfront, -, hdouble⟩ := path.separators hne
  have hnames : path.names = path.text.splitOn kPathSeparator := names_of_ne_nil hne
  have hcount : segmentCount path.text = path.text.count kPathSeparator + 1 := if_neg hne
  rw [hnames, hcount]
  by_cases hmem : kPathSeparator ∈ path.text
  · refine .inr ⟨?_, ?_⟩
    · have := count_pos_iff.2 hmem
      omega
    · obtain ⟨xs, ys, heq, hys⟩ := exists_last_separator hmem
      rw [heq] at hfront hdouble ⊢
      have hxs : xs ≠ [] := by
        rintro rfl
        simp at hfront
      have hlast : xs.getLast? ≠ some kPathSeparator := by
        intro hlast
        obtain ⟨zs, rfl⟩ := getLast?_eq_some_iff.1 hlast
        exact hdouble ⟨zs, ys, by simp⟩
      rw [splitOn_append_separator hys, parent_append_separator hys, name_append_separator hys,
        segments_eq_names hlast, names_of_ne_nil hxs]
  · refine .inl ⟨?_, ?_⟩
    · rw [count_eq_zero.2 hmem]
    · rw [splitOn_eq_singleton hmem, name_of_not_mem hmem]

end VfsPath

end Vfs
end BezOS

/-!
## The order of texts

`operator<=>` of `std/string.hpp`, which the maps of the file systems are ordered by: two texts are
compared character by character, and characters are signed bytes.
-/

namespace BezOS
namespace Vfs

open List

/-- The value of a `char`. -/
def charValue (c : UInt8) : Int := if c < 128 then c.toNat else c.toNat - 256

/-- `operator<=>` of two texts. -/
def textLess (a b : VfsString) : Prop := a.map charValue < b.map charValue
  deriving Decidable

lemma charValue_injective : Function.Injective charValue := by
  intro a b h
  have ha := a.toNat_lt
  have hb := b.toNat_lt
  unfold charValue at h
  apply UInt8.toNat_inj.1
  split at h <;> split at h <;> omega

lemma textLess_trans {a b c : VfsString} (hab : textLess a b) (hbc : textLess b c) :
    textLess a c :=
  lt_trans hab hbc

lemma textLess_irrefl (a : VfsString) : ¬ textLess a a := lt_irrefl _

lemma textLess_of_not {a b : VfsString} (hnot : ¬ textLess a b) (hne : a ≠ b) :
    textLess b a := by
  refine lt_of_le_of_ne (not_lt.1 hnot) fun heq => hne ?_
  exact (map_injective_iff.2 charValue_injective heq).symm

lemma textLess_append (front : VfsString) (c : UInt8) (rest : VfsString) :
    textLess front (front ++ c :: rest) := by
  induction front with
  | nil => exact nil_lt_cons _ _
  | cons a front ih => exact cons_lt_cons_self.2 ih

lemma textLess_nil (a : VfsString) : ¬ textLess a [] := not_lt_nil _

lemma textLess_of_ne_nil {a : VfsString} (h : a ≠ []) : textLess [] a := by
  cases a with
  | nil => exact absurd rfl h
  | cons c a => exact nil_lt_cons _ _

end Vfs
end BezOS
