import BezOS.Fs.Path

/-!
# The grammar of paths

A path text is empty or made of names with single separators between them. `VerifyPathText` is
compared with this grammar, and `segmentCount`, `name` and `parent` with the names of a text. All
of them look for separators: the tests of `VerifyPathText` are about pieces of the text with
separators around them, so that each of them is a question about one possible segment.
-/

namespace BezOS
namespace Vfs

open List

def dot : VfsString := [0x2e]

structure IsName (segment : VfsString) : Prop where
  nonempty : segment ≠ []
  ne_dot : segment ≠ dot
  no_separator : kPathSeparator ∉ segment
  valid : ∀ c ∈ segment, c ∉ kPathInvalidChars

/-- Segments with single separators between them. -/
def joined (segments : List VfsString) : VfsString := [kPathSeparator].intercalate segments

def IsPathText (text : VfsString) : Prop :=
  ∃ segments : List VfsString, (∀ s ∈ segments, IsName s) ∧ text = joined segments

def buildPathText (args : List VfsString) : VfsString :=
  args.foldl (fun path segment => (if path = [] then path else path ++ [kPathSeparator]) ++ segment)
    []

/-- The functions of a path agree with its names. -/
structure Decomposes (text : VfsString) : Prop where
  iteration : segments text = names text
  count : segmentCount text = (names text).length
  last : ∀ front last, names text = front ++ [last] → name text = last
  front : ∀ front last, names text = front ++ [last] → parent text = joined front
  rebuilt : buildPathText [parent text, name text] = text

/-- The check accepts the grammar and nothing else, and an accepted text comes apart at its
separators. -/
structure PathExact (text : VfsString) : Prop where
  accepts : verifyPathText text = true ↔ IsPathText text
  decomposes : verifyPathText text = true → Decomposes text

section Segments

variable {text p xs ys : VfsString}

def enclosed (text : VfsString) : VfsString := kPathSeparator :: (text ++ [kPathSeparator])

lemma enclosed_append : enclosed (xs ++ kPathSeparator :: ys) =
    (kPathSeparator :: xs) ++ enclosed ys := by
  simp [enclosed]

@[elab_as_elim]
lemma splitOn_induction {P : VfsString → Prop} (single : ∀ text, kPathSeparator ∉ text → P text)
    (cons : ∀ xs ys, kPathSeparator ∉ xs → P ys → P (xs ++ kPathSeparator :: ys))
    (text : VfsString) : P text := by
  induction hn : text.length using Nat.strong_induction_on generalizing text with
  | _ n ih =>
    by_cases hmem : kPathSeparator ∈ text
    · obtain ⟨xs, ys, rfl, hxs⟩ := eq_append_cons_of_mem hmem
      refine cons xs ys hxs (ih ys.length ?_ ys rfl)
      rw [← hn, length_append, length_cons]
      omega
    · exact single text hmem

section

variable (hp : kPathSeparator ∉ p)

include hp

lemma enclosed_infix_append (hxs : kPathSeparator ∉ xs) :
    enclosed p <:+: enclosed (xs ++ kPathSeparator :: ys) ↔
      p = xs ∨ enclosed p <:+: enclosed ys := by
  constructor
  · rintro ⟨u, v, heq⟩
    rw [enclosed_append] at heq
    cases u with
    | nil =>
      have htail : p ++ kPathSeparator :: v = xs ++ enclosed ys := by
        simpa [enclosed] using heq
      have hfront := congrArg (takeWhile (· ≠ kPathSeparator)) htail
      rw [takeWhile_append_separator hp, enclosed, takeWhile_append_separator hxs] at hfront
      exact .inl hfront
    | cons a u =>
      obtain ⟨rfl, htail⟩ := List.cons.inj (by simpa using heq)
      refine .inr ?_
      rcases append_eq_append_iff.1 (by         simpa using htail) with ⟨w, hxs', hw⟩ | ⟨w, hu, hw⟩
      · -- the piece would start inside the first segment
        cases w with
        | nil => exact ⟨[], v, by simpa using hw⟩
        | cons b w =>
          refine absurd ?_ hxs
          have hb : b = kPathSeparator := by
            have := congrArg head? hw
            simpa [enclosed] using this.symm
          rw [hxs', hb]
          simp
      · exact ⟨w, v, by simpa using hw.symm⟩
  · rintro (rfl | h)
    · exact ⟨[], ys ++ [kPathSeparator], by simp [enclosed]⟩
    · rw [enclosed_append]
      exact h.trans (suffix_append ..).isInfix

lemma enclosed_infix_single (htext : kPathSeparator ∉ text) :
    enclosed p <:+: enclosed text ↔ p = text := by
  constructor
  · rintro ⟨u, v, heq⟩
    cases u with
    | nil =>
      have htail : p ++ kPathSeparator :: v = text ++ kPathSeparator :: [] := by
        simpa [enclosed] using heq
      have hfront := congrArg (takeWhile (· ≠ kPathSeparator)) htail
      rwa [takeWhile_append_separator hp, takeWhile_append_separator htext] at hfront
    | cons a u =>
      -- two separators behind the first character are one too many
      have htail : List.count kPathSeparator (u ++ enclosed p ++ v) = 1 := by
        have hinj : u ++ enclosed p ++ v = text ++ [kPathSeparator] := by
          simpa [enclosed] using (List.cons.inj heq).2
        rw [hinj, count_append, count_eq_zero.2 htext]
        rfl
      simp only [count_append, enclosed, count_cons_self, count_nil] at htail
      omega
  · rintro rfl
    exact infix_rfl

lemma mem_splitOn_iff :
    p ∈ text.splitOn kPathSeparator ↔ enclosed p <:+: enclosed text := by
  induction text using splitOn_induction with
  | single text hmem =>
    rw [splitOn_eq_singleton hmem, mem_singleton, enclosed_infix_single hp hmem]
  | cons xs ys hxs ih =>
    rw [splitOn_append_cons_self_of_not_mem hxs, mem_cons, ih, enclosed_infix_append hp hxs]

end

lemma enclosed_infix_iff : enclosed p <:+: enclosed text ↔
    text = p ∨ p ++ [kPathSeparator] <+: text ∨ kPathSeparator :: p <:+ text ∨
      enclosed p <:+: text := by
  constructor
  · rintro ⟨u, v, heq⟩
    rcases eq_nil_or_concat v with rfl | ⟨v, b, rfl⟩
    · cases u with
      | nil => exact .inl (by simpa [enclosed] using heq.symm)
      | cons a u =>
        refine .inr (.inr (.inl ⟨u, ?_⟩))
        have htail : u ++ (kPathSeparator :: p) ++ [kPathSeparator] = text ++ [kPathSeparator] := by
          simpa [enclosed] using (List.cons.inj heq).2
        exact append_cancel_right htail
    · cases u with
      | nil =>
        refine .inr (.inl ⟨v, ?_⟩)
        have htail : (p ++ [kPathSeparator] ++ v) ++ [b] = text ++ [kPathSeparator] := by
          simpa [enclosed] using heq
        exact (append_inj' htail rfl).1
      | cons a u =>
        refine .inr (.inr (.inr ⟨u, v, ?_⟩))
        have htail : (u ++ enclosed p ++ v) ++ [b] = text ++ [kPathSeparator] := by
          simpa [enclosed] using (List.cons.inj heq).2
        exact (append_inj' htail rfl).1
  · rintro (rfl | ⟨v, rfl⟩ | ⟨u, rfl⟩ | ⟨u, v, rfl⟩)
    · exact infix_rfl
    · exact ⟨[], v ++ [kPathSeparator], by simp [enclosed]⟩
    · exact ⟨kPathSeparator :: u, [], by simp [enclosed]⟩
    · exact ⟨kPathSeparator :: u, v ++ [kPathSeparator], by simp [enclosed]⟩

end Segments

/-! ## What the check accepts -/

section Check

variable {text : VfsString}

lemma hasEmptySegment_iff :
    hasEmptySegment text = true ↔ [kPathSeparator, kPathSeparator] <:+: text := by
  constructor
  · intro h
    simp only [hasEmptySegment, any_eq_true, mem_range, decide_eq_true_eq] at h
    obtain ⟨i, -, hfirst, hsecond⟩ := h
    refine ⟨text.take i, text.drop (i + 2), ?_⟩
    obtain ⟨hi, hfirst⟩ := List.getElem?_eq_some_iff.1 hfirst
    obtain ⟨hi', hsecond⟩ := List.getElem?_eq_some_iff.1 hsecond
    calc text.take i ++ [kPathSeparator, kPathSeparator] ++ text.drop (i + 2)
        = text.take i ++ (text[i] :: text[i + 1] :: text.drop (i + 1 + 1)) := by
          rw [hfirst, hsecond, append_assoc]
          rfl
      _ = text.take i ++ text.drop i := by
          rw [getElem_cons_drop hi', getElem_cons_drop hi]
      _ = text := take_append_drop ..
  · intro h
    by_contra hnone
    exact not_hasEmptySegment (by simpa using hnone) h

lemma head_separator_iff : text.head? = some kPathSeparator ↔ [kPathSeparator] <+: text := by
  cases text with
  | nil => simp
  | cons a text => simp [cons_prefix_cons, eq_comm]

lemma last_separator_iff : text.getLast? = some kPathSeparator ↔ [kPathSeparator] <:+ text := by
  rw [getLast?_eq_some_iff]
  exact ⟨fun ⟨front, h⟩ => ⟨front, h.symm⟩, fun ⟨front, h⟩ => ⟨front, h.symm⟩⟩

lemma segments_nonempty_iff (hne : text ≠ []) :
    [] ∉ text.splitOn kPathSeparator ↔
      ¬ (text.head? = some kPathSeparator ∨ text.getLast? = some kPathSeparator) ∧
        hasEmptySegment text = false := by
  rw [mem_splitOn_iff (not_mem_nil), enclosed_infix_iff, head_separator_iff,
    last_separator_iff, ← Bool.not_eq_true, hasEmptySegment_iff]
  simp [enclosed, hne, false_or, not_or, and_assoc]

lemma segments_ne_dot_iff (hdot : text ≠ dot) :
    dot ∉ text.splitOn kPathSeparator ↔
      ¬ (startsWith text [0x2e, kPathSeparator] = true ∨
        endsWith text [kPathSeparator, 0x2e] = true) ∧
          ¬ [kPathSeparator, 0x2e, kPathSeparator] <:+: text := by
  rw [mem_splitOn_iff (by decide), enclosed_infix_iff, startsWith, endsWith,
    isPrefixOf_iff_prefix, isSuffixOf_iff_suffix]
  simp only [hdot, false_or, not_or, and_assoc]
  rfl

lemma joined_splitOn (text : VfsString) : joined (text.splitOn kPathSeparator) = text :=
  intercalate_splitOn ..

lemma not_mem_of_mem_splitOn {s : VfsString} (h : s ∈ text.splitOn kPathSeparator) :
    kPathSeparator ∉ s := by
  induction text using splitOn_induction with
  | single text hmem =>
    rw [splitOn_eq_singleton hmem, mem_singleton] at h
    exact h ▸ hmem
  | cons xs ys hxs ih =>
    rw [splitOn_append_cons_self_of_not_mem hxs, mem_cons] at h
    rcases h with rfl | h
    · exact hxs
    · exact ih h

lemma mem_segment_iff {c : UInt8} (hc : c ≠ kPathSeparator) :
    (∃ s ∈ text.splitOn kPathSeparator, c ∈ s) ↔ c ∈ text := by
  induction text using splitOn_induction with
  | single text hmem =>
    rw [splitOn_eq_singleton hmem]
    simp
  | cons xs ys hxs ih =>
    rw [splitOn_append_cons_self_of_not_mem hxs, mem_append, mem_cons, ← ih]
    simp [hc]

lemma isPathText_iff (hne : text ≠ []) :
    IsPathText text ↔ ∀ s ∈ text.splitOn kPathSeparator, IsName s := by
  constructor
  · rintro ⟨segments, hnames, rfl⟩
    have hsegments : segments ≠ [] := by
      rintro rfl
      exact hne rfl
    rwa [joined, splitOn_intercalate _ (fun s hs => (hnames s hs).no_separator) hsegments]
  · intro hnames
    exact ⟨_, hnames, (joined_splitOn text).symm⟩

lemma verifyPathText_iff : verifyPathText text = true ↔ IsPathText text ∨ text = dot := by
  by_cases hne : text = []
  · subst hne
    exact ⟨fun _ => .inl ⟨[], by simp, rfl⟩, fun _ => rfl⟩
  by_cases hdot : text = dot
  · subst hdot
    exact ⟨fun _ => .inr rfl, fun _ => by decide⟩
  have hnames : (∀ s ∈ text.splitOn kPathSeparator, IsName s) ↔
      [] ∉ text.splitOn kPathSeparator ∧ dot ∉ text.splitOn kPathSeparator ∧
        ∀ c ∈ text, c = kPathSeparator ∨ c ∉ kPathInvalidChars := by
    constructor
    · intro h
      refine ⟨fun hmem => (h _ hmem).nonempty rfl, fun hmem => (h _ hmem).ne_dot rfl, ?_⟩
      intro c hc
      by_cases hsep : c = kPathSeparator
      · exact .inl hsep
      · obtain ⟨s, hs, hcs⟩ := (mem_segment_iff hsep).2 hc
        exact .inr ((h s hs).valid c hcs)
    · rintro ⟨hempty, hdots, hvalid⟩ s hs
      have hsep := not_mem_of_mem_splitOn hs
      refine ⟨fun heq => hempty (heq ▸ hs), fun heq => hdots (heq ▸ hs), hsep, ?_⟩
      intro c hc
      have hne' : c ≠ kPathSeparator := fun heq => hsep (heq ▸ hc)
      exact (hvalid c ((mem_segment_iff hne').1 ⟨s, hs, hc⟩)).resolve_left hne'
  rw [isPathText_iff hne, or_iff_left hdot, hnames, segments_nonempty_iff hne,
    segments_ne_dot_iff hdot, verifyPathText, if_neg hne]
  by_cases hends : text.head? = some kPathSeparator ∨ text.getLast? = some kPathSeparator
  · simp [hends]
  by_cases hempty : hasEmptySegment text = true
  · simp [hends, hempty]
  by_cases hdots : startsWith text [0x2e, kPathSeparator] = true ∨
      endsWith text [kPathSeparator, 0x2e] = true
  · simp [hends, hempty, hdots]
  by_cases hmiddle : [kPathSeparator, 0x2e, kPathSeparator] <:+: text
  · simp [hends, hempty, hdots, hmiddle]
  · rw [if_neg hends, if_neg hempty, if_neg hdots, if_neg hmiddle, all_eq_true]
    simp [hends, hempty, hdots, hmiddle, true_and, decide_eq_true_eq]

end Check

/-! ## How an accepted text comes apart -/

section Decompose

variable {text : VfsString}

lemma length_splitOn (text : VfsString) :
    (text.splitOn kPathSeparator).length = text.count kPathSeparator + 1 := by
  induction text using splitOn_induction with
  | single text hmem =>
    rw [splitOn_eq_singleton hmem, count_eq_zero.2 hmem]
    rfl
  | cons xs ys hxs ih =>
    rw [splitOn_append_cons_self_of_not_mem hxs, length_cons, ih, count_append, count_cons_self,
      count_eq_zero.2 hxs, Nat.zero_add]

lemma segmentCount_eq (text : VfsString) : segmentCount text = (names text).length := by
  by_cases hne : text = []
  · subst hne
    rfl
  · rw [segmentCount, if_neg hne, names_of_ne_nil hne, length_splitOn]

lemma IsPathText.last_ne (h : IsPathText text) : text.getLast? ≠ some kPathSeparator := by
  by_cases hne : text = []
  · simp [hne]
  · intro hlast
    have hempty : [] ∉ text.splitOn kPathSeparator := fun hmem =>
      ((isPathText_iff hne).1 h [] hmem).nonempty rfl
    exact ((segments_nonempty_iff hne).1 hempty).1 (.inr hlast)

lemma decomposes_of_mem (hmem : kPathSeparator ∈ text) (h : IsPathText text) :
    Decomposes text := by
  have hne : text ≠ [] := ne_nil_of_mem hmem
  obtain ⟨xs, ys, heq, hys⟩ := exists_last_separator hmem
  have hname : name text = ys := heq ▸ name_append_separator hys
  have hparent : parent text = xs := heq ▸ parent_append_separator hys
  have hsplit : names text = xs.splitOn kPathSeparator ++ [ys] := by
    rw [names_of_ne_nil hne, heq, splitOn_append_separator hys]
  refine ⟨segments_eq_names h.last_ne, segmentCount_eq text, ?_, ?_, ?_⟩
  · intro front last hnames
    have hlast := (append_inj' (hsplit.symm.trans hnames) rfl).2
    rw [hname]
    exact singleton_inj.1 hlast
  · intro front last hnames
    have hfront := (append_inj' (hsplit.symm.trans hnames) rfl).1
    rw [hparent, ← hfront, joined_splitOn]
  · have hxs : xs ≠ [] := by
      rintro rfl
      have hempty : [] ∉ text.splitOn kPathSeparator := fun hmem =>
        ((isPathText_iff hne).1 h [] hmem).nonempty rfl
      refine ((segments_nonempty_iff hne).1 hempty).1 (.inl ?_)
      rw [heq]
      rfl
    rw [hparent, hname, buildPathText]
    simp only [foldl_cons, foldl_nil, if_true, nil_append, if_neg hxs]
    rw [heq, append_assoc]
    rfl

lemma decomposes_nil : Decomposes [] := by
  refine ⟨rfl, rfl, ?_, ?_, rfl⟩ <;>
  · intro front last hnames
    simp at hnames

lemma not_decomposes (hne : text ≠ []) (hsep : kPathSeparator ∉ text) : ¬ Decomposes text := by
  intro h
  have hnames : names text = [] ++ [text] := by
    rw [names_of_ne_nil hne, splitOn_eq_singleton hsep]
    rfl
  have hparent : parent text = text := by
    rw [parent, dropWhile_of_not_mem (by simpa using hsep)]
  have hroot : parent text = [] := h.front [] text hnames
  exact hne (hparent.symm.trans hroot)

/-- The check and the functions of a path do what the grammar says for every text but those that
would be a single name. -/
theorem pathExact_iff (text : VfsString) : PathExact text ↔
    text = [] ∨ kPathSeparator ∈ text ∨ ∃ c ∈ text, c ∈ kPathInvalidChars := by
  constructor
  · intro h
    by_contra hcond
    obtain ⟨hne, hsep, hvalid⟩ : text ≠ [] ∧ kPathSeparator ∉ text ∧
        ∀ c ∈ text, c ∉ kPathInvalidChars := by simpa using hcond
    have haccept : verifyPathText text = true := by
      refine verifyPathText_iff.2 ?_
      by_cases hdot : text = dot
      · exact .inr hdot
      · refine .inl ((isPathText_iff hne).2 ?_)
        rw [splitOn_eq_singleton hsep]
        intro s hs
        obtain rfl := mem_singleton.1 hs
        exact ⟨hne, hdot, hsep, hvalid⟩
    exact not_decomposes hne hsep (h.decomposes haccept)
  · rintro (rfl | hsep | ⟨c, hc, hinvalid⟩)
    · exact ⟨⟨fun _ => ⟨[], by simp, rfl⟩, fun _ => rfl⟩, fun _ => decomposes_nil⟩
    · have hdot : text ≠ dot := by
        rintro rfl
        exact absurd hsep (by decide)
      have haccepts : verifyPathText text = true ↔ IsPathText text := by
        rw [verifyPathText_iff, or_iff_left hdot]
      exact ⟨haccepts, fun h => decomposes_of_mem hsep (haccepts.1 h)⟩
    · -- a separator is no invalid character, so the check finds this one
      have hnot : verifyPathText text ≠ true := by
        intro haccept
        rcases verifyPathText_iff.1 haccept with h | rfl
        · have hne : text ≠ [] := ne_nil_of_mem hc
          have hcsep : c ≠ kPathSeparator := by
            rintro rfl
            exact absurd hinvalid (by decide)
          obtain ⟨s, hs, hcs⟩ := (mem_segment_iff hcsep).2 hc
          exact ((isPathText_iff hne).1 h s hs).valid c hcs hinvalid
        · obtain rfl := mem_singleton.1 hc
          exact absurd hinvalid (by decide)
      refine ⟨⟨fun h => absurd h hnot, fun h => ?_⟩, fun h => absurd h hnot⟩
      exact absurd (verifyPathText_iff.2 (.inl h)) hnot

/-- The text "." is accepted and is no path, and "a" is its own parent. -/
theorem not_pathExact_dot : ¬ PathExact dot ∧ verifyPathText dot = true ∧
    ¬ PathExact [0x61] ∧ parent [0x61] = [0x61] := by
  refine ⟨fun h => ?_, by decide, fun h => ?_, by decide⟩
  · have hnone := @not_decomposes dot (by decide) (by decide)
    exact hnone (h.decomposes (by decide))
  · have hnone := @not_decomposes [0x61] (by decide) (by decide)
    exact hnone (h.decomposes (by decide))

end Decompose

end Vfs
end BezOS
