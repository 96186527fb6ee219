import BezOS.Acpi.AmlSound

/-!
# Parsing is confined to the grammar

The parser ends, without reading outside its span and without standing behind the end of a package,
for exactly the tables of the grammar.
-/

namespace BezOS
namespace Aml

open Lib AmlState Follows List Prod

variable {α : Type} {s t : AmlState} {b b2 : List UInt8} {e : Bool} {terms : List AmlAnyId}
  {header : List Symbol} {type : AmlTermType} {m : AmlM AmlValue}

def Reaches (m : AmlM α) (s : AmlState) (b : List UInt8) (e : Bool) : Prop :=
  ∃ v t, m s = .ok (v, t) ∧ Follows s t ∧ t.rest = b ∧ t.nodes.mError = e

lemma Moves.reaches {m : AmlM α} {g : List UInt8 → List UInt8 × Bool} (hm : Moves m g)
    (hs : s.Valid) : Reaches m s (g s.rest).1 (s.nodes.mError || (g s.rest).2) := by
  obtain ⟨hsuffix, v, heq⟩ := hm s hs
  exact ⟨v, _, heq, .moved hs hsuffix, rest_moved hsuffix, rfl⟩

lemma reaches_add {fields : List AmlValue} (hrun : m s = add type fields t) (hfollows : Follows s t)
    :
    Reaches m s t.rest t.nodes.mError := by
  obtain ⟨u, hadd, hplace⟩ := add_run type fields t
  exact ⟨_, u, hrun.trans hadd, hfollows.trans (hplace.follows hfollows.valid), hplace.rest,
    hplace.err⟩

/-- What the form stands for is gone through, whatever the loops have already. -/
def Ends (form : Form) (run : Goal → AmlM AmlValue) (s : AmlState) (b : List UInt8) (e : Bool) :
    Prop :=
  match form with
  | .symbol x => Reaches (symbol run x) s b e
  | .symbols list => Reaches (symbols run list) s b e
  | .production p => Reaches (production run p) s b e
  | .termList => ∀ terms, Reaches (run (.termList terms)) s b e
  | .elements => ∀ terms, Reaches (run (.elements terms)) s b e

lemma fill_run (count : Nat) {i space fuel : Nat} {data : List UInt8} (hs : s.Valid)
    (hcount : i + count = space) (hspace : space < 2 ^ 32) (hfuel : count < fuel) :
    ∃ v, run fuel (.fill i space data) s = .ok (v, s.moved (s.rest.drop count) false) := by
  induction count generalizing i fuel data s with
  | zero =>
    obtain ⟨fuel, rfl⟩ : ∃ k, fuel = k + 1 := ⟨fuel - 1, by omega⟩
    refine ⟨.text data, ?_⟩
    rw [run, step, if_neg (by omega), drop_zero, hs.moved_rest]
    rfl
  | succ count ih =>
    obtain ⟨fuel, rfl⟩ : ∃ k, fuel = k + 1 := ⟨fuel - 1, by omega⟩
    obtain ⟨hsuffix, hread⟩ := reads_read s hs
    have hmod : (i + 1) % 2 ^ 32 = i + 1 := Nat.mod_eq_of_lt (by omega)
    obtain ⟨v, hv⟩ := @ih (s.moved s.rest.tail false) (i + 1) fuel (data ++ [s.rest.headD 0])
      hs.moved (by omega) (by omega)
    refine ⟨v, ?_⟩
    rw [run, step, if_pos (by omega), bind_run hread, hmod, hv, moved_moved,
      rest_moved hsuffix, drop_tail]
    rfl

lemma subspan_run {count : Nat} {body : AmlM AmlValue} (hs : s.Valid)
    (hcount : count ≤ s.rest.length)
    (hbody : ∀ t, t.Valid → t.rest = s.rest.take count → t.nodes.mError = s.nodes.mError →
      ∃ b, Reaches body t b e) :
    Reaches (subspan count body) s (s.rest.drop count) e := by
  have hoffset := hs.offset
  rw [length_rest] at hcount
  have hfits : s.mOffset + count ≤ s.mCode.length := by omega
  have hsub : AmlState.Valid
      { s with mOffset := 0, mCode := (s.mCode.drop s.mOffset).take count } := by
    refine ⟨Nat.zero_le _, ?_, hs.inside⟩
    have hshort := hs.short
    have hle := length_take_le count (s.mCode.drop s.mOffset)
    change ((s.mCode.drop s.mOffset).take count).length + 1 < 2 ^ 32
    omega
  obtain ⟨b, v, t, hrun, hfollows, -, herr⟩ := hbody _ hsub drop_zero rfl
  have hrest : s.mCode.drop (s.mOffset + count) = s.rest.drop count := by
    rw [AmlState.rest, drop_drop]
  refine ⟨v, { t with mOffset := s.mOffset + count, mCode := s.mCode }, ?_, ?_, hrest, herr⟩
  · rw [subspan, if_pos hfits, hrun]
    rfl
  · refine ⟨rfl, ⟨hfits, hs.short, hfollows.valid.inside⟩, ?_⟩
    change s.mCode.drop (s.mOffset + count) <:+ _
    rw [hrest]
    exact drop_suffix _ _

lemma package_sub {length : Nat} (hs : s.Valid) (hfollows : Follows s t) (hlength : length < 2 ^ 28)
    (hcovers : taken s.rest t.rest ≤ length) {w : Nat} (hw : 2 ^ 32 ≤ w) :
    packageSpace w length s.mOffset t.mOffset = length - taken s.rest t.rest := by
  have hoffset := hfollows.offset hs
  have hsub : t.mOffset - s.mOffset = taken s.rest t.rest := by omega
  have hend := hfollows.valid.offset
  have hshort := hfollows.valid.short
  rw [packageSpace_of_le (by omega) (by omega), hsub]
  have hcases := wrapSub_cases (show length < w by omega) (show taken s.rest t.rest ≤ w by omega)
  omega

lemma package_fits {length : Nat} (hfollows : Follows s t) (hcovers : taken s.rest t.rest ≤ length)
    (hinside : length ≤ s.rest.length) :
    length - taken s.rest t.rest ≤ t.rest.length := by
  unfold taken at hcovers ⊢
  omega

lemma header_run {fuel : Nat} {e2 : Bool} (hs : s.Valid)
    (hheader : Reaches (symbols (run fuel) header) (s.moved (lengthOf s.rest).2 false) b2 e2) :
    ∃ fields u, symbols (run fuel) header (s.moved (lengthOf s.rest).2 false) = .ok (fields, u) ∧
      Follows s u ∧ u.rest = b2 ∧ u.nodes.mError = e2 := by
  obtain ⟨fields, u, hu, hfollows, hrest, herr⟩ := hheader
  exact ⟨fields, u, hu, (moved hs (reads_pkgLength s hs).1).trans hfollows, hrest, herr⟩

lemma bufferData_run {fuel : Nat} {e2 : Bool} (hs : s.Valid)
    (hsize : Reaches (run fuel (.nonterminal .termArg)) (s.moved (lengthOf s.rest).2 false) b2 e2)
    (hcovers : taken s.rest b2 ≤ (lengthOf s.rest).1) (hfuel : 2 ^ 28 ≤ fuel) :
    Reaches (bufferData (run fuel)) s (b2.drop ((lengthOf s.rest).1 - taken s.rest b2)) e2 := by
  obtain ⟨size, u, hu, hfollows, rfl, rfl⟩ := hsize
  have hsuffix := (reads_pkgLength s hs).1
  have hlt := lengthOf_lt s.rest
  have hall := (moved hs hsuffix).trans hfollows
  have hsub := package_sub hs hall hlt hcovers (show 2 ^ 32 ≤ 2 ^ 64 by decide)
  obtain ⟨v, hv⟩ := @fill_run u ((lengthOf s.rest).1 - taken s.rest u.rest) 0
    ((lengthOf s.rest).1 - taken s.rest u.rest) fuel [] hall.valid (Nat.zero_add _) (by omega)
    (by omega)
  have hdrop : u.rest.drop ((lengthOf s.rest).1 - taken s.rest u.rest) <:+ u.rest :=
    drop_suffix _ _
  refine ⟨.buffer size.toId v.toText, _, ?_, hall.trans (.moved hall.valid hdrop),
    rest_moved hdrop, Bool.or_false _⟩
  rw [bufferData, bind_run rfl,
    bind_run (reads_pkgLength s hs).2, bind_run hu,
    bind_run rfl]
  simp only [hsub]
  rw [bind_run hv]
  rfl

lemma defPackage_run {fuel : Nat} {e2 : Bool} (hs : s.Valid)
    (hcovers : taken s.rest ((lengthOf s.rest).2.drop 1) ≤ (lengthOf s.rest).1)
    (hinside : (lengthOf s.rest).1 ≤ s.rest.length) (hne : (lengthOf s.rest).1 ≠ 0)
    (hbody : ∀ t, t.Valid → t.rest = ((lengthOf s.rest).2.drop 1).take
        ((lengthOf s.rest).1 - taken s.rest ((lengthOf s.rest).2.drop 1)) →
      t.nodes.mError = s.nodes.mError → ∃ b, Reaches (run fuel (.elements [])) t b e2) :
    Reaches (defPackage (run fuel)) s (s.rest.drop (lengthOf s.rest).1) e2 := by
  obtain ⟨hsuffix, hlength⟩ := reads_pkgLength s hs
  obtain ⟨hsuffix', count, hcount⟩ := moves_dataBytes 1 _
    hs.moved
  rw [rest_moved hsuffix] at hsuffix' hcount
  rw [moved_moved] at hcount
  have hheader : (lengthOf s.rest).2.drop 1 <:+ s.rest := hsuffix'.trans hsuffix
  have hfollows := @moved s _ (false || false) hs hheader
  have hrest := @rest_moved s _ (false || false) hheader
  have herr : (s.moved ((lengthOf s.rest).2.drop 1) (false || false)).nodes.mError =
      s.nodes.mError := Bool.or_false _
  rw [← hrest] at hcovers
  have hsub := package_sub hs hfollows (lengthOf_lt _) hcovers (Nat.le_refl _)
  have hfits := package_fits hfollows hcovers hinside
  obtain ⟨terms, u, hu, hfollows', hdrop, rfl⟩ := subspan_run hfollows.valid hfits (by
    intro t ht hrest' herr'
    refine hbody t ht ?_ (herr'.trans herr)
    rw [hrest', hrest])
  rw [drop_package hfollows.suffix hcovers] at hdrop
  have hrun : defPackage (run fuel) s = add .package [.number count, terms] u := by
    rw [defPackage, bind_run rfl, bind_run hlength,
      bind_run hcount, bind_run rfl]
    simp only [ne_eq, hne, not_false_eq_true, if_true, hsub]
    rw [bind_run hu]
  rw [← hdrop]
  exact reaches_add hrun (hfollows.trans hfollows')

lemma emptyPackage_run {fuel : Nat} (hs : s.Valid) (hzero : (lengthOf s.rest).1 = 0) :
    Reaches (defPackage (run fuel)) s ((lengthOf s.rest).2.drop 1) s.nodes.mError := by
  obtain ⟨hsuffix, hlength⟩ := reads_pkgLength s hs
  obtain ⟨hsuffix', count, hcount⟩ := moves_dataBytes 1 _
    hs.moved
  rw [rest_moved hsuffix] at hsuffix' hcount
  rw [moved_moved] at hcount
  have hheader : (lengthOf s.rest).2.drop 1 <:+ s.rest := hsuffix'.trans hsuffix
  have hrun : defPackage (run fuel) s = add .package [.number count, .terms []]
      (s.moved ((lengthOf s.rest).2.drop 1) (false || false)) := by
    rw [defPackage, bind_run rfl, bind_run hlength,
      bind_run hcount, bind_run rfl]
    simp [hzero]
  have hreaches := reaches_add hrun (moved hs hheader)
  have herr : (s.moved ((lengthOf s.rest).2.drop 1) (false || false)).nodes.mError =
      s.nodes.mError := Bool.or_false _
  rwa [rest_moved hheader, herr] at hreaches

lemma terms_run {fuel : Nat} {e2 e3 : Bool} (hs : s.Valid)
    (hheader : Reaches (symbols (run fuel) header) (s.moved (lengthOf s.rest).2 false) b2 e2)
    (hcovers : taken s.rest b2 ≤ (lengthOf s.rest).1)
    (hinside : (lengthOf s.rest).1 ≤ s.rest.length)
    (hbody : ∀ t, t.Valid → t.rest = b2.take ((lengthOf s.rest).1 - taken s.rest b2) →
      t.nodes.mError = e2 → ∃ b, Reaches (run fuel (.termList [])) t b e3) :
    Reaches (production (run fuel) (.package type header .termList)) s
      (s.rest.drop (lengthOf s.rest).1) e3 := by
  obtain ⟨fields, u, hu, hfollows, rfl, rfl⟩ := header_run hs hheader
  have hsub := package_sub hs hfollows (lengthOf_lt _) hcovers (Nat.le_refl _)
  have hfits := package_fits hfollows hcovers hinside
  obtain ⟨terms, w, hw, hfollows', hdrop, rfl⟩ := subspan_run hfollows.valid hfits hbody
  rw [drop_package hfollows.suffix hcovers] at hdrop
  have hrun : production (run fuel) (.package type header .termList) s =
      add type (fields ++ [terms]) w := by
    rw [production, bind_run rfl,
      bind_run (reads_pkgLength s hs).2, bind_run hu,
      bind_run rfl]
    simp only [hsub]
    rw [bind_run hw]
  rw [← hdrop]
  exact reaches_add hrun (hfollows.trans hfollows')

lemma skipped_run {fuel : Nat} {e2 : Bool} (hs : s.Valid)
    (hheader : Reaches (symbols (run fuel) header) (s.moved (lengthOf s.rest).2 false) b2 e2)
    (hcovers : taken s.rest b2 ≤ (lengthOf s.rest).1)
    (hinside : (lengthOf s.rest).1 ≤ s.rest.length) :
    Reaches (production (run fuel) (.package type header .skip)) s
      (s.rest.drop (lengthOf s.rest).1) e2 := by
  obtain ⟨fields, u, hu, hfollows, rfl, rfl⟩ := header_run hs hheader
  obtain ⟨hsuffix, hskip⟩ := skipPackage_run hs hfollows (lengthOf_lt _) hcovers hinside
  have hrun : production (run fuel) (.package type header .skip) s =
      add type fields (u.moved (s.rest.drop (lengthOf s.rest).1) false) := by
    rw [production, bind_run rfl,
      bind_run (reads_pkgLength s hs).2, bind_run hu, bind_run hskip]
  have hreaches := reaches_add hrun (hfollows.trans (.moved hfollows.valid hsuffix))
  have herr : (u.moved (s.rest.drop (lengthOf s.rest).1) false).nodes.mError = u.nodes.mError :=
    Bool.or_false _
  rwa [rest_moved hsuffix, herr] at hreaches

/-! ## Choices and loops -/

lemma nonterminal_run (fuel : Nat) {n : Nonterminal}
    (hgoes : n = .term → s.nodes.mError = false) :
    run (fuel + 1) (.nonterminal n) s = nonterminal (run fuel) n s := by
  cases n with
  | term =>
    rw [run, step, term, bind_run rfl, hgoes rfl]
    rfl
  | _ => rfl

lemma chosen_run {fuel : Nat} {n : Nonterminal} {p : Production} {b1 : List UInt8} (hs : s.Valid)
    (hgoes : n = .term → s.nodes.mError = false)
    (hselect : select (choices n) s.rest = some (p, b1)) :
    b1 <:+ s.rest ∧ run (fuel + 1) (.nonterminal n) s =
      production (run fuel) p (s.moved b1 false) := by
  obtain ⟨hsuffix, hchoose⟩ := reads_choose (choices n) s hs
  simp only [hselect] at hsuffix hchoose
  refine ⟨hsuffix, ?_⟩
  rw [nonterminal_run fuel hgoes, nonterminal, bind_run hchoose]

lemma fallback_run {fuel : Nat} {n : Nonterminal} (hs : s.Valid)
    (hgoes : n = .term → s.nodes.mError = false) (hselect : select (choices n) s.rest = none) :
    run (fuel + 1) (.nonterminal n) s = fallback n s := by
  obtain ⟨-, hchoose⟩ := reads_choose (choices n) s hs
  simp only [hselect, hs.moved_rest] at hchoose
  rw [nonterminal_run fuel hgoes, nonterminal, bind_run hchoose]

lemma not_done {s : AmlState} (hne : s.rest ≠ []) : done s = .ok (false, s) := by
  have hend : ¬ s.mCode.length ≤ s.mOffset := fun hend => hne (rest_eq_nil.2 hend)
  change Except.ok (decide (s.mCode.length ≤ s.mOffset), s) = _
  rw [decide_eq_false hend]

lemma is_done {s : AmlState} (hnil : s.rest = []) : done s = .ok (true, s) := by
  change Except.ok (decide (s.mCode.length ≤ s.mOffset), s) = _
  rw [decide_eq_true (rest_eq_nil.1 hnil)]

lemma reaches_finish (hrun : m s = finishTerms terms t) (hfollows : Follows s t) :
    Reaches m s t.rest t.nodes.mError := by
  have hplace := finishTerms_place (show finishTerms terms t = .ok (_, _) from rfl)
  exact ⟨_, _, hrun, hfollows.trans (hplace.follows hfollows.valid), hplace.rest, hplace.err⟩

/-! ## Derivations are runs -/

lemma fallback_ends {n : Nonterminal} {g : List UInt8 → List UInt8 × Bool} {fuel : Nat}
    (hmoves : Moves (fallback n) g) (hs : s.Valid) (hgoes : n = .term → s.nodes.mError = false)
    (hselect : select (choices n) s.rest = none) :
    Ends (.symbol (.nonterminal n)) (run (fuel + 1)) s (g s.rest).1
      (s.nodes.mError || (g s.rest).2) := by
  obtain ⟨v, t, hv, hplace⟩ := hmoves.reaches hs
  exact ⟨v, t, (fallback_run hs hgoes hselect).trans hv, hplace⟩

lemma listStop_run {fuel : Nat} (hne : s.rest ≠ [])
    (hterm : Reaches (run fuel (.nonterminal .term)) s b true) :
    Reaches (run (fuel + 1) (.termList terms)) s b true := by
  obtain ⟨v, t, hv, hfollows, rfl, herr⟩ := hterm
  have hrun : run (fuel + 1) (.termList terms) s = finishTerms terms t := by
    rw [run, step, bind_run (not_done hne)]
    simp only [Bool.false_eq_true, if_false]
    rw [bind_run hv, bind_run rfl, if_pos (.inl herr)]
  have hreaches := reaches_finish hrun hfollows
  rwa [herr] at hreaches

lemma listNext_run {fuel : Nat} {b1 : List UInt8} (hs : s.Valid) (hne : s.rest ≠ [])
    (hterm : Reaches (run fuel (.nonterminal .term)) s b1 false)
    (hrest : ∀ t, t.Valid → t.rest = b1 → t.nodes.mError = false →
      ∀ terms, Reaches (run fuel (.termList terms)) t b e) :
    Reaches (run (fuel + 1) (.termList terms)) s b e := by
  obtain ⟨v, t, hv, hfollows, rfl, herr⟩ := hterm
  have hnode := (runSound_run fuel).node s v t hs hv herr
  have hgoes : ¬ (t.nodes.mError = true ∨ v.toId = .kInvalid) := by
    rw [herr]
    exact not_or.2 ⟨Bool.false_ne_true, hnode⟩
  obtain ⟨w, u, hw, hfollows', hplace⟩ := hrest t hfollows.valid rfl herr (terms ++ [v.toId])
  refine ⟨w, u, ?_, hfollows.trans hfollows', hplace⟩
  rw [run, step, bind_run (not_done hne)]
  simp only [Bool.false_eq_true, if_false]
  rw [bind_run hv, bind_run rfl, if_neg hgoes, hw]

lemma elementsNext_run {fuel : Nat} {b1 : List UInt8} {e1 : Bool} (hne : s.rest ≠ [])
    (helement : Reaches (run fuel (.nonterminal .dataRefObject)) s b1 e1)
    (hrest : ∀ t, t.Valid → t.rest = b1 → t.nodes.mError = e1 →
      ∀ terms, Reaches (run fuel (.elements terms)) t b e) :
    Reaches (run (fuel + 1) (.elements terms)) s b e := by
  obtain ⟨v, t, hv, hfollows, rfl, rfl⟩ := helement
  obtain ⟨w, u, hw, hfollows', hplace⟩ := hrest t hfollows.valid rfl rfl (terms ++ [v.toId])
  refine ⟨w, u, ?_, hfollows.trans hfollows', hplace⟩
  rw [run, step, bind_run (not_done hne)]
  simp only [Bool.false_eq_true, if_false]
  rw [bind_run hv, hw]

lemma ends_of_derives {form : Form} {b b' : List UInt8} {e e' : Bool}
    (h : Derives form b e b' e') :
    ∃ N, ∀ n ≥ N, ∀ s : AmlState, s.Valid → s.rest = b → s.nodes.mError = e →
      Ends form (run n) s b' e' := by
  induction h with
  | @constant v b e =>
    refine ⟨0, fun n _ s hs hb he => ?_⟩
    exact ⟨v, s, rfl, ⟨rfl, hs, suffix_refl _⟩, hb, he⟩
  | name =>
    refine ⟨0, fun n _ s hs hb he => ?_⟩
    subst hb he
    exact moves_nameString.reaches hs
  | @data count b e =>
    refine ⟨0, fun n _ s hs hb he => ?_⟩
    subst hb he
    have hmoves := (moves_dataBytes count).bind fun value => moves_pure (AmlValue.number value)
    have hreaches := hmoves.reaches hs
    simp only [Bool.or_false] at hreaches
    exact hreaches
  | @string b e rest hend =>
    refine ⟨0, fun n _ s hs hb he => ?_⟩
    subst hb he
    rcases stringData_run hs with ⟨-, -, -, -, hnil⟩ | ⟨v, rest', hcons, hsuffix, hrun⟩
    · rw [hend] at hnil
      cases hnil
    · obtain ⟨-, rfl⟩ := List.cons.inj (hend.symm.trans hcons)
      exact ⟨v, _, hrun, .moved hs hsuffix, rest_moved hsuffix, Bool.or_false _⟩
  | @buffer b e length b1 b2 e2 hlength _ hcovers ih =>
    obtain ⟨N, hN⟩ := ih
    refine ⟨max N (2 ^ 28), fun n hn s hs hb he => ?_⟩
    subst hb he
    obtain ⟨rfl, rfl⟩ := mk.inj hlength
    refine bufferData_run hs ?_ hcovers (le_of_max_le_right hn)
    exact hN n (le_of_max_le_left hn) _ hs.moved (rest_moved (reads_pkgLength s hs).1)
      (Bool.or_false _)
  | @emptyPackage b e b1 hlength =>
    refine ⟨0, fun n _ s hs hb he => ?_⟩
    subst hb he
    have hreaches := @emptyPackage_run s n hs (congrArg fst hlength)
    rwa [hlength] at hreaches
  | @package b e length b1 rest e2 hlength hne hcovers hinside _ ih =>
    obtain ⟨N, hN⟩ := ih
    refine ⟨N, fun n hn s hs hb he => ?_⟩
    subst hb he
    obtain ⟨rfl, rfl⟩ := mk.inj hlength
    refine defPackage_run hs hcovers hinside hne fun t ht hrest herr => ?_
    exact ⟨rest, hN n hn t ht hrest herr []⟩
  | @nullTarget b e =>
    refine ⟨0, fun n _ s hs hb he => ?_⟩
    subst he
    rcases consume_zero hs with ⟨hnil, -⟩ | ⟨rest, hrest, hrun⟩ | ⟨-, hzero, -⟩
    · rw [hb] at hnil
      cases hnil
    · obtain ⟨-, rfl⟩ := List.cons.inj (hb.symm.trans hrest)
      have hsuffix : b <:+ s.rest := by
        rw [hb]
        exact suffix_cons _ _
      refine ⟨.nullName, _, ?_, .moved hs hsuffix, rest_moved hsuffix, Bool.or_false _⟩
      rw [symbol, target, bind_run hrun]
      rfl
    · rw [hb] at hzero
      exact absurd rfl hzero
  | @target b e b2 e2 hne hzero _ ih =>
    obtain ⟨N, hN⟩ := ih
    refine ⟨N, fun n hn s hs hb he => ?_⟩
    obtain ⟨v, t, hv, hplace⟩ := hN n hn s hs hb he
    subst hb he
    rcases consume_zero hs with ⟨hnil, -⟩ | ⟨rest, hrest, -⟩ | ⟨-, -, hrun⟩
    · exact absurd hnil hne
    · rw [hrest] at hzero
      exact absurd rfl hzero
    · refine ⟨v, t, ?_, hplace⟩
      rw [symbol, target, bind_run hrun]
      exact hv
  | @stopped b =>
    refine ⟨1, fun n hn s hs hb he => ?_⟩
    obtain ⟨k, rfl⟩ : ∃ k, n = k + 1 := ⟨n - 1, by omega⟩
    refine ⟨.id .kInvalid, s, ?_, ⟨rfl, hs, suffix_refl _⟩, hb, he⟩
    rw [symbol, run, step, term, bind_run rfl, he]
    rfl
  | @chosen n b e p b1 b2 e2 hgoes hselect _ ih =>
    obtain ⟨N, hN⟩ := ih
    refine ⟨N + 1, fun k hk s hs hb he => ?_⟩
    subst hb he
    obtain ⟨k, rfl⟩ : ∃ m, k = m + 1 := ⟨k - 1, by omega⟩
    obtain ⟨hsuffix, hrun⟩ := @chosen_run s k n p b1 hs hgoes hselect
    obtain ⟨v, t, hv, hfollows, hrest, herr⟩ := hN k (by omega) (s.moved b1 false) hs.moved
      (rest_moved hsuffix) (Bool.or_false _)
    exact ⟨v, t, hrun.trans hv, (moved hs hsuffix).trans hfollows, hrest, herr⟩
  | @unknownTerm b hselect =>
    refine ⟨1, fun n hn s hs hb he => ?_⟩
    subst hb
    obtain ⟨k, rfl⟩ : ∃ k, n = k + 1 := ⟨n - 1, by omega⟩
    have hends := @fallback_ends s .term _ k moves_fallback_term hs (fun _ => he) hselect
    rwa [Bool.or_true] at hends
  | @unknownArg b e hselect =>
    refine ⟨1, fun n hn s hs hb he => ?_⟩
    subst hb he
    obtain ⟨k, rfl⟩ : ∃ k, n = k + 1 := ⟨n - 1, by omega⟩
    have hends := @fallback_ends s .termArg _ k moves_reportError hs (by simp) hselect
    rwa [Bool.or_true] at hends
  | @unknownData b e hselect =>
    refine ⟨1, fun n hn s hs hb he => ?_⟩
    subst hb he
    obtain ⟨k, rfl⟩ : ∃ k, n = k + 1 := ⟨n - 1, by omega⟩
    have hends := @fallback_ends s .dataRefObject _ k moves_reportError hs (by simp) hselect
    rwa [Bool.or_true] at hends
  | @simpleName b e hselect =>
    refine ⟨1, fun n hn s hs hb he => ?_⟩
    subst hb he
    obtain ⟨k, rfl⟩ : ∃ k, n = k + 1 := ⟨n - 1, by omega⟩
    exact @fallback_ends s .superName _ k moves_nameString hs (by simp) hselect
  | nil =>
    refine ⟨0, fun n _ s hs hb he => ?_⟩
    exact ⟨[], s, rfl, ⟨rfl, hs, suffix_refl _⟩, hb, he⟩
  | @cons x list b e b1 e1 b2 e2 _ _ ihx ihlist =>
    obtain ⟨N, hN⟩ := ihx
    obtain ⟨N', hN'⟩ := ihlist
    refine ⟨max N N', fun n hn s hs hb he => ?_⟩
    obtain ⟨v, t, hv, hfollows, hrest, herr⟩ := hN n (le_of_max_le_left hn) s hs hb he
    obtain ⟨values, u, hu, hfollows', hplace⟩ :=
      hN' n (le_of_max_le_right hn) t hfollows.valid hrest herr
    refine ⟨v :: values, u, ?_, hfollows.trans hfollows', hplace⟩
    rw [symbols, bind_run hv, bind_run hu]
    rfl
  | @plain type list b e b2 e2 _ ih =>
    obtain ⟨N, hN⟩ := ih
    refine ⟨N, fun n hn s hs hb he => ?_⟩
    obtain ⟨fields, t, hv, hfollows, rfl, rfl⟩ := hN n hn s hs hb he
    have hrun : production (run n) (.plain type list) s = add type fields t := by
      rw [production, bind_run hv]
    exact reaches_add hrun hfollows
  | @terms type header b e length b1 b2 e2 rest e3 hlength _ hcovers hinside _ ihheader ihbody =>
    obtain ⟨N, hN⟩ := ihheader
    obtain ⟨N', hN'⟩ := ihbody
    refine ⟨max N N', fun n hn s hs hb he => ?_⟩
    subst hb he
    obtain ⟨rfl, rfl⟩ := mk.inj hlength
    have hheader := hN n (le_of_max_le_left hn) _ hs.moved
      (rest_moved (reads_pkgLength s hs).1) (Bool.or_false _)
    refine terms_run hs hheader hcovers hinside fun t ht hrest herr => ?_
    exact ⟨rest, hN' n (le_of_max_le_right hn) t ht hrest herr []⟩
  | @skipped type header b e length b1 b2 e2 hlength _ hcovers hinside ihheader =>
    obtain ⟨N, hN⟩ := ihheader
    refine ⟨N, fun n hn s hs hb he => ?_⟩
    subst hb he
    obtain ⟨rfl, rfl⟩ := mk.inj hlength
    have hheader := hN n hn _ hs.moved (rest_moved (reads_pkgLength s hs).1)
      (Bool.or_false _)
    exact skipped_run hs hheader hcovers hinside
  | value _ ih => exact ih
  | ones =>
    refine ⟨0, fun n _ s hs hb he => ?_⟩
    subst hb he
    exact reaches_add rfl ⟨rfl, hs, suffix_refl _⟩
  | listDone =>
    refine ⟨1, fun n hn s hs hb he terms => ?_⟩
    obtain ⟨k, rfl⟩ : ∃ k, n = k + 1 := ⟨n - 1, by omega⟩
    have hrun : run (k + 1) (.termList terms) s = finishTerms terms s := by
      rw [run, step, bind_run (is_done hb)]
      rfl
    have hreaches := reaches_finish hrun ⟨rfl, hs, suffix_refl _⟩
    rwa [hb, he] at hreaches
  | @listStop b e b2 hne _ ih =>
    obtain ⟨N, hN⟩ := ih
    refine ⟨N + 1, fun n hn s hs hb he terms => ?_⟩
    obtain ⟨k, rfl⟩ : ∃ k, n = k + 1 := ⟨n - 1, by omega⟩
    exact listStop_run (hb ▸ hne) (hN k (by omega) s hs hb he)
  | @listNext b e b1 b2 e2 hne _ _ ihterm ihrest =>
    obtain ⟨N, hN⟩ := ihterm
    obtain ⟨N', hN'⟩ := ihrest
    refine ⟨max N N' + 1, fun n hn s hs hb he terms => ?_⟩
    obtain ⟨k, rfl⟩ : ∃ k, n = k + 1 := ⟨n - 1, by omega⟩
    exact listNext_run hs (hb ▸ hne) (hN k (by omega) s hs hb he)
      fun t ht hrest herr => hN' k (by omega) t ht hrest herr
  | elementsDone =>
    refine ⟨1, fun n hn s hs hb he terms => ?_⟩
    obtain ⟨k, rfl⟩ : ∃ k, n = k + 1 := ⟨n - 1, by omega⟩
    refine ⟨.terms terms, s, ?_, ⟨rfl, hs, suffix_refl _⟩, hb, he⟩
    rw [run, step, bind_run (is_done hb)]
    rfl
  | @elementsNext b e b1 e1 b2 e2 hne _ _ ihelement ihrest =>
    obtain ⟨N, hN⟩ := ihelement
    obtain ⟨N', hN'⟩ := ihrest
    refine ⟨max N N' + 1, fun n hn s hs hb he terms => ?_⟩
    obtain ⟨k, rfl⟩ : ∃ k, n = k + 1 := ⟨n - 1, by omega⟩
    exact elementsNext_run (hb ▸ hne) (hN k (by omega) s hs hb he)
      fun t ht hrest herr => hN' k (by omega) t ht hrest herr

/-! ## Tables -/

namespace AmlTable

variable (t : AmlTable)

/-- The walk over the table ends, it reads nothing outside the table, and no parser stands behind
the end of its package. -/
def Confined : Prop :=
  ∃ fuel v s, walkAml t fuel = .ok (v, s) ∧ s.overran = false

lemma valid_init : t.init.Valid := by
  refine ⟨Nat.zero_le _, ?_, rfl⟩
  have hshort := t.short
  change t.code.length + 1 < 2 ^ 32
  omega

theorem confined_iff : t.Confined ↔ ∃ rest failed, Derives .termList t.code false rest failed := by
  have hinit : t.init.rest = t.code := drop_zero
  constructor
  · rintro ⟨fuel, v, s, hrun, hover⟩
    obtain ⟨-, hderives⟩ := (runSound_run fuel).termList [] t.init v s t.valid_init hrun hover
    exact ⟨_, _, hderives⟩
  · rintro ⟨rest, failed, hderives⟩
    obtain ⟨N, hN⟩ := ends_of_derives hderives
    obtain ⟨v, s, hrun, hfollows, -⟩ := hN N (Nat.le_refl N) t.init t.valid_init hinit rfl []
    exact ⟨N, v, s, hrun, hfollows.valid.inside⟩

def longScope : AmlTable := ⟨[0x10, 0x3f, 0x41, 0x42, 0x43, 0x44], 2, by decide⟩

theorem longScope_not_confined : ¬ longScope.Confined := by
  rintro ⟨fuel, v, s, hrun, -⟩
  match fuel with
  | 0 => cases hrun
  | 1 => cases hrun
  | fuel + 2 =>
    -- the span asks for bytes behind the table
    cases hrun

end AmlTable

end Aml
end BezOS
