import BezOS.Acpi.AmlSticky

/-!
# Runs without an overrun

Whatever the parser gets through without standing behind the end of a span is in the grammar.
-/

namespace BezOS
namespace Aml

open Lib AmlState Except List Prod

variable {α : Type} {v : AmlValue} {fields : List AmlValue} {type : AmlTermType}
  {g : List UInt8 → List UInt8 × Bool} {m : AmlM α} {form : Form}

structure Follows (s t : AmlState) : Prop where
  code : t.mCode = s.mCode
  valid : t.Valid
  suffix : t.rest <:+ s.rest

namespace Follows

variable {s t u : AmlState}

lemma trans (h : Follows s t) (h' : Follows t u) : Follows s u :=
  ⟨h'.code.trans h.code, h'.valid, h'.suffix.trans h.suffix⟩

lemma moved {b : List UInt8} {bad : Bool} (hs : s.Valid) (hb : b <:+ s.rest) :
    Follows s (s.moved b bad) := by
  refine ⟨rfl, hs.moved, ?_⟩
  rwa [rest_moved hb]

lemma offset (h : Follows s t) (hs : s.Valid) : t.mOffset = s.mOffset + taken s.rest t.rest := by
  have hle := h.suffix.length_le
  have hoffset := hs.offset
  have hoffset' := h.valid.offset
  rw [h.code] at hoffset'
  rw [length_rest, length_rest, h.code] at hle
  rw [taken, length_rest, length_rest, h.code]
  omega

end Follows

def Sound (form : Form) (m : AmlM α) : Prop :=
  ∀ s v t, s.Valid → m s = .ok (v, t) → t.overran = false →
    Follows s t ∧ Derives form s.rest s.nodes.mError t.rest t.nodes.mError

lemma Moves.ends (hm : Moves m g) {s t : AmlState} {v : α} (hs : s.Valid) (hrun : m s = .ok (v, t))
    :
    Follows s t ∧ t.rest = (g s.rest).1 ∧ t.nodes.mError = (s.nodes.mError || (g s.rest).2) := by
  obtain ⟨hsuffix, w, heq⟩ := hm s hs
  rw [heq] at hrun
  obtain ⟨-, rfl⟩ := mk.inj (ok.inj hrun)
  exact ⟨.moved hs hsuffix, rest_moved hsuffix, rfl⟩

lemma Moves.sound (hm : Moves m g) (hform : ∀ b e, Derives form b e (g b).1 (e || (g b).2)) :
    Sound form m := by
  intro s v t hs hrun _
  obtain ⟨hfollows, hrest, herr⟩ := hm.ends hs hrun
  rw [hrest, herr]
  exact ⟨hfollows, hform _ _⟩

lemma moves_fallback_term :
    Moves (fallback .term) fun b => (if b.headD 0 = 0x5b then b.tail else b, true) := by
  refine (reads_setInvalid.bind fun _ => (reads_consume (by decide)).bind
    fun _ => reads_reportError.bind fun _ => reads_pure (AmlValue.id .kInvalid)).moves.congr ?_
  intro b
  rfl

lemma moves_reportError : Moves (do
    reportError
    pure (AmlValue.id .kInvalid)) fun b => (b, true) :=
  (reads_reportError.bind fun _ => reads_pure (AmlValue.id .kInvalid)).moves

/-- Two states that differ in their nodes only. -/
structure SamePlace (s t : AmlState) : Prop where
  follows : s.Valid → Follows s t
  rest : t.rest = s.rest
  err : t.nodes.mError = s.nodes.mError
  overran : t.overran = s.overran

lemma add_run (type : AmlTermType) (fields : List AmlValue) (s : AmlState) :
    ∃ t, add type fields s = .ok (.id (.node s.nodes.mNodes.length), t) ∧ SamePlace s t := by
  refine ⟨_, rfl, ?_, rfl, rfl, rfl⟩
  intro hs
  exact ⟨rfl, ⟨hs.offset, hs.short, hs.inside⟩, suffix_refl _⟩

lemma add_place {s t : AmlState} (hrun : add type fields s = .ok (v, t)) :
    SamePlace s t := by
  obtain ⟨t', hrun', hplace⟩ := add_run type fields s
  rw [hrun] at hrun'
  obtain ⟨-, rfl⟩ := mk.inj (ok.inj hrun')
  exact hplace

lemma finishTerms_place {terms : List AmlAnyId} {s t : AmlState}
    (hrun : finishTerms terms s = .ok (v, t)) : SamePlace s t := by
  obtain ⟨-, rfl⟩ := mk.inj (ok.inj hrun)
  refine ⟨fun hs => ?_, rfl, rfl, rfl⟩
  exact ⟨rfl, ⟨hs.offset, hs.short, hs.inside⟩, suffix_refl _⟩

lemma Sound.add {form' : Form} {fields : α → List AmlValue} (hm : Sound form m)
    (hform : ∀ {b e b' e'}, Derives form b e b' e' → Derives form' b e b' e') :
    Sound form' (do
      let v ← m
      add type (fields v)) := by
  intro s v t hs hrun ht
  obtain ⟨a, u, hu, hadd⟩ := bind_run_eq_ok.1 hrun
  have hplace := add_place hadd
  obtain ⟨hfollows, hderives⟩ := hm s a u hs hu (hplace.overran ▸ ht)
  refine ⟨hfollows.trans (hplace.follows hfollows.valid), ?_⟩
  rw [hplace.rest, hplace.err]
  exact hform hderives

structure RunSound (run : Goal → AmlM AmlValue) : Prop where
  sticky : ∀ goal, Sticky (run goal)
  nonterminal : ∀ n, Sound (.symbol (.nonterminal n)) (run (.nonterminal n))
  termList : ∀ terms, Sound .termList (run (.termList terms))
  elements : ∀ terms, Sound .elements (run (.elements terms))
  /-- The loop of a buffer ends only if its counter can reach the bound. -/
  fill : ∀ i space data s v t, s.Valid → i < 2 ^ 32 →
    run (.fill i space data) s = .ok (v, t) →
      space < 2 ^ 32 ∧ t = s.moved (s.rest.drop (space - i)) false
  /-- A term that was read has a node. -/
  node : ∀ s v t, s.Valid → run (.nonterminal .term) s = .ok (v, t) →
    t.nodes.mError = false → v.toId ≠ .kInvalid

/-! ## Symbols -/

lemma packageSpace_of_le {w length front back : Nat} (hback : front ≤ back) (hlt : back < w) :
    packageSpace w length front back = wrapSub w length (back - front) := by
  rw [packageSpace, wrapSub_of_le hback hlt]

lemma package_count {s t : AmlState} {length : Nat} (hs : s.Valid) (hfollows : Follows s t)
    (hlength : length < 2 ^ 28)
    (hinside : t.mOffset + packageSpace (2 ^ 32) length s.mOffset t.mOffset ≤ t.mCode.length) :
    taken s.rest t.rest ≤ length ∧ length ≤ s.rest.length ∧
      packageSpace (2 ^ 32) length s.mOffset t.mOffset = length - taken s.rest t.rest := by
  have hoffset := hfollows.offset hs
  have hshort := hs.short
  have hle := hs.offset
  have hrest := @length_rest s
  have htaken : taken s.rest t.rest ≤ s.rest.length := Nat.sub_le _ _
  have hsub : t.mOffset - s.mOffset = taken s.rest t.rest := by omega
  rw [packageSpace_of_le (by omega) (by omega), hsub] at hinside ⊢
  rw [hfollows.code] at hinside
  have hcases := wrapSub_cases (show length < 2 ^ 32 by omega)
    (show taken s.rest t.rest ≤ 2 ^ 32 by omega)
  omega

lemma drop_package {b rest : List UInt8} {length : Nat} (hrest : rest <:+ b)
    (hcovers : taken b rest ≤ length) : rest.drop (length - taken b rest) = b.drop length := by
  obtain ⟨header, rfl⟩ := hrest
  have htaken : taken (header ++ rest) rest = header.length := by
    rw [taken, length_append, Nat.add_sub_cancel]
  rw [htaken] at hcovers ⊢
  rw [drop_append, drop_eq_nil_of_le hcovers, nil_append]

lemma skipPackage_run {s u : AmlState} {length : Nat} (hs : s.Valid) (hfollows : Follows s u)
    (hlength : length < 2 ^ 28) (hcovers : taken s.rest u.rest ≤ length)
    (hinside : length ≤ s.rest.length) :
    s.rest.drop length <:+ u.rest ∧
      skipPackage s.mOffset length u = .ok ((), u.moved (s.rest.drop length) false) := by
  have hoffset := hfollows.offset hs
  have hcode := congrArg List.length hfollows.code
  have hrest := @length_rest s
  have hshort := hs.short
  have hle := hs.offset
  have hsub : u.mOffset - s.mOffset = taken s.rest u.rest := by omega
  have hcases := wrapSub_cases (show length < 2 ^ 32 by omega)
    (show taken s.rest u.rest ≤ 2 ^ 32 by omega)
  have hend : (u.mOffset + packageSpace (2 ^ 32) length s.mOffset u.mOffset) % 2 ^ 32 =
      s.mOffset + length := by
    rw [packageSpace_of_le (by omega) (by omega), hsub, Nat.mod_eq_of_lt (by omega)]
    omega
  have hmoved : u.mCode.length - (s.rest.drop length).length = s.mOffset + length := by
    rw [length_drop]
    omega
  refine ⟨?_, ?_⟩
  · rw [← drop_package hfollows.suffix hcovers]
    exact drop_suffix _ _
  · change ok ((), _) = ok ((), _)
    rw [AmlState.moved, hmoved]
    simp only [hend, Bool.or_false]
    congr 2
    rw [hfollows.valid.inside, decide_eq_false (by omega)]
    rfl

lemma subspan_sound {count : Nat} {body : AmlM AmlValue} (hbody : Sound form body) {s t : AmlState}
    (hs : s.Valid) (hrun : subspan count body s = .ok (v, t)) (ht : t.overran = false) :
    s.mOffset + count ≤ s.mCode.length ∧ Follows s t ∧ t.rest = s.rest.drop count ∧
      ∃ rest, Derives form (s.rest.take count) s.nodes.mError rest t.nodes.mError := by
  unfold subspan at hrun
  split at hrun
  · rename_i hfits
    obtain ⟨⟨value, u⟩, hu, hpure⟩ := bind_eq_ok.1 hrun
    obtain ⟨-, rfl⟩ := mk.inj (ok.inj hpure)
    have hsub : AmlState.Valid
        { s with mOffset := 0, mCode := (s.mCode.drop s.mOffset).take count } := by
      refine ⟨Nat.zero_le _, ?_, hs.inside⟩
      have hshort := hs.short
      have hle := length_take_le' count (s.mCode.drop s.mOffset)
      have hle' := @length_drop _ s.mOffset s.mCode
      change ((s.mCode.drop s.mOffset).take count).length + 1 < 2 ^ 32
      omega
    obtain ⟨-, hderives⟩ := hbody _ value u hsub hu ht
    have hrest : s.mCode.drop (s.mOffset + count) = s.rest.drop count := by
      rw [AmlState.rest, drop_drop]
    refine ⟨hfits, ⟨rfl, ⟨hfits, hs.short, ht⟩, ?_⟩, hrest, u.rest, ?_⟩
    · change s.mCode.drop (s.mOffset + count) <:+ _
      rw [hrest]
      exact drop_suffix _ _
    · have hstart : AmlState.rest
          { s with mOffset := 0, mCode := (s.mCode.drop s.mOffset).take count } =
            s.rest.take count := drop_zero
      rwa [hstart] at hderives
  · cases hrun

section Step

variable {run : Goal → AmlM AmlValue} (hr : RunSound run)
include hr

lemma sound_bufferData : Sound (.symbol .bufferData) (bufferData run) := by
  intro s v t hs hrun ht
  unfold bufferData at hrun
  rw [bind_run rfl] at hrun
  obtain ⟨hsuffix, hlength⟩ := reads_pkgLength s hs
  rw [bind_run hlength] at hrun
  obtain ⟨size, u, hu, hrun⟩ := bind_run_eq_ok.1 hrun
  rw [bind_run rfl] at hrun
  obtain ⟨data, w, hw, hrun⟩ := bind_run_eq_ok.1 hrun
  obtain ⟨-, rfl⟩ := mk.inj (ok.inj hrun)
  have hu_inside := (hr.sticky _).inside hw ht
  obtain ⟨hfollows, hderives⟩ := hr.nonterminal .termArg _ size u hs.moved hu hu_inside
  have hfollows' := (Follows.moved hs hsuffix).trans hfollows
  obtain ⟨hspace, rfl⟩ := hr.fill _ _ _ u data _ hfollows'.valid (by decide) hw
  -- a bound that wrapped would not be reached
  have hoffset := hfollows'.offset hs
  have hsub : u.mOffset - s.mOffset = taken s.rest u.rest := by omega
  have htaken : taken s.rest u.rest ≤ s.rest.length := Nat.sub_le _ _
  have hshort := hs.short
  have hrest := @length_rest s
  have hlt := lengthOf_lt s.rest
  have hcases := wrapSub_cases (show (lengthOf s.rest).1 < 2 ^ 64 by omega)
    (show taken s.rest u.rest ≤ 2 ^ 64 by omega)
  have hle := hs.offset
  have hpackage := @packageSpace_of_le (2 ^ 64) (lengthOf s.rest).1 s.mOffset u.mOffset (by omega)
    (by omega)
  rw [hsub] at hpackage
  simp only [hpackage, Nat.sub_zero] at hspace ht ⊢
  have hcovers : taken s.rest u.rest ≤ (lengthOf s.rest).1 := by omega
  have hcount : wrapSub (2 ^ 64) (lengthOf s.rest).1 (taken s.rest u.rest) =
      (lengthOf s.rest).1 - taken s.rest u.rest := by omega
  rw [hcount]
  have hdrop : u.rest.drop ((lengthOf s.rest).1 - taken s.rest u.rest) <:+ u.rest :=
    drop_suffix _ _
  refine ⟨hfollows'.trans (.moved hfollows'.valid hdrop), ?_⟩
  rw [rest_moved hsuffix] at hderives
  rw [rest_moved hdrop]
  have herr : (u.moved (u.rest.drop ((lengthOf s.rest).1 - taken s.rest u.rest)) false).nodes.mError =
      u.nodes.mError := Bool.or_false _
  have herr' : (s.moved (lengthOf s.rest).2 false).nodes.mError = s.nodes.mError := Bool.or_false _
  rw [herr]
  simp only [herr'] at hderives
  exact .buffer rfl hderives hcovers

lemma sound_defPackage : Sound (.symbol .defPackage) (defPackage run) := by
  intro s v t hs hrun ht
  unfold defPackage at hrun
  rw [bind_run rfl] at hrun
  obtain ⟨hsuffix, hlength⟩ := reads_pkgLength s hs
  rw [bind_run hlength] at hrun
  obtain ⟨hsuffix', count, hcount⟩ := moves_dataBytes 1 _
    hs.moved
  rw [rest_moved hsuffix, moved_moved] at hcount
  rw [rest_moved hsuffix] at hsuffix'
  rw [bind_run hcount] at hrun
  have hheader : (lengthOf s.rest).2.drop 1 <:+ s.rest := hsuffix'.trans hsuffix
  have hfollows := @Follows.moved s _ (false || false) hs hheader
  have hrest := @rest_moved s _ (false || false) hheader
  rw [bind_run rfl] at hrun
  have herr : (s.moved ((lengthOf s.rest).2.drop 1) (false || false)).nodes.mError =
      s.nodes.mError := Bool.or_false _
  by_cases hzero : (lengthOf s.rest).1 = 0
  · simp only [hzero, ne_eq, not_true_eq_false, if_false] at hrun
    have hplace := add_place hrun
    refine ⟨hfollows.trans (hplace.follows hfollows.valid), ?_⟩
    rw [hplace.rest, hplace.err, hrest, herr]
    exact .emptyPackage (Prod.ext hzero rfl)
  · simp only [ne_eq, hzero, not_false_eq_true, if_true] at hrun
    obtain ⟨terms, u, hu, hadd⟩ := bind_run_eq_ok.1 hrun
    have hplace := add_place hadd
    obtain ⟨hfits, hfollows', hdrop, rest, hderives⟩ :=
      subspan_sound (hr.elements []) hfollows.valid hu (hplace.overran ▸ ht)
    obtain ⟨hcovers, hinside, hwrap⟩ := package_count hs hfollows (lengthOf_lt _) hfits
    refine ⟨(hfollows.trans hfollows').trans (hplace.follows hfollows'.valid), ?_⟩
    rw [hwrap] at hdrop hderives
    rw [hplace.rest, hplace.err, hdrop, drop_package hfollows.suffix hcovers]
    rw [hrest] at hcovers hderives
    rw [herr] at hderives
    exact .package rfl hzero hcovers hinside hderives

lemma sound_target : Sound (.symbol .target) (target run) := by
  intro s v t hs hrun ht
  unfold target at hrun
  rcases consume_zero hs with ⟨-, u, hu, hover⟩ | ⟨rest, hrest, hu⟩ | ⟨hne, hzero, hu⟩
  · -- the end of the span is no target
    rw [bind_run hu] at hrun
    obtain ⟨-, rfl⟩ := mk.inj (ok.inj hrun)
    rw [hover] at ht
    cases ht
  · rw [bind_run hu] at hrun
    obtain ⟨-, rfl⟩ := mk.inj (ok.inj hrun)
    have hsuffix : rest <:+ s.rest := by
      rw [hrest]
      exact suffix_cons _ _
    refine ⟨.moved hs hsuffix, ?_⟩
    have herr : (s.moved rest false).nodes.mError = s.nodes.mError := Bool.or_false _
    rw [rest_moved hsuffix, hrest, herr]
    exact .nullTarget
  · rw [bind_run hu] at hrun
    obtain ⟨hfollows, hderives⟩ := hr.nonterminal .superName s v t hs hrun ht
    exact ⟨hfollows, .target hne hzero hderives⟩

lemma sound_symbol (x : Symbol) : Sound (.symbol x) (symbol run x) := by
  cases x with
  | constant value =>
    refine (moves_pure value).sound fun b e => ?_
    rw [Bool.or_false]
    exact .constant
  | nameString => exact moves_nameString.sound fun b e => .name
  | data count =>
    refine ((moves_dataBytes count).bind fun value => moves_pure (AmlValue.number value)).sound
      fun b e => ?_
    rw [Bool.or_false, Bool.or_false]
    exact .data
  | stringData =>
    intro s v t hs hrun ht
    rcases stringData_run hs with ⟨w, u, hu, hover, -⟩ | ⟨w, rest, hend, hsuffix, hu⟩
    · rw [symbol, hu] at hrun
      obtain ⟨-, rfl⟩ := mk.inj (ok.inj hrun)
      rw [hover] at ht
      cases ht
    · rw [symbol, hu] at hrun
      obtain ⟨-, rfl⟩ := mk.inj (ok.inj hrun)
      refine ⟨.moved hs hsuffix, ?_⟩
      have herr : (s.moved rest false).nodes.mError = s.nodes.mError := Bool.or_false _
      rw [rest_moved hsuffix, herr]
      exact .string hend
  | bufferData => exact sound_bufferData hr
  | defPackage => exact sound_defPackage hr
  | target => exact sound_target hr
  | nonterminal n => exact hr.nonterminal n

lemma sound_symbols (list : List Symbol) : Sound (.symbols list) (symbols run list) := by
  have := hr.sticky
  induction list with
  | nil =>
    refine (moves_pure []).sound fun b e => ?_
    rw [Bool.or_false]
    exact .nil
  | cons x list ih =>
    intro s v t hs hrun ht
    obtain ⟨value, u, hu, hrun⟩ := bind_run_eq_ok.1 hrun
    obtain ⟨values, w, hw, hrun⟩ := bind_run_eq_ok.1 hrun
    obtain ⟨-, rfl⟩ := mk.inj (ok.inj hrun)
    have hsticky : Sticky (symbols run list) := inferInstance
    have hinside := hsticky.inside hw ht
    obtain ⟨hfollows, hderives⟩ := sound_symbol hr x s value u hs hu hinside
    obtain ⟨hfollows', hderives'⟩ := ih u values w hfollows.valid hw ht
    exact ⟨hfollows.trans hfollows', .cons hderives hderives'⟩

/-! ## Productions -/

lemma sound_header {header : List Symbol} {s u : AmlState} (hs : s.Valid)
    (hu : symbols run header (s.moved (lengthOf s.rest).2 false) = .ok (fields, u))
    (hinside : u.overran = false) :
    Follows s u ∧
      Derives (.symbols header) (lengthOf s.rest).2 s.nodes.mError u.rest u.nodes.mError := by
  obtain ⟨hsuffix, -⟩ := reads_pkgLength s hs
  obtain ⟨hfollows, hderives⟩ := sound_symbols hr header _ fields u hs.moved hu hinside
  have herr : (s.moved (lengthOf s.rest).2 false).nodes.mError = s.nodes.mError := Bool.or_false _
  rw [rest_moved hsuffix, herr] at hderives
  exact ⟨(Follows.moved hs hsuffix).trans hfollows, hderives⟩

lemma sound_terms (type : AmlTermType) (header : List Symbol) :
    Sound (.production (.package type header .termList))
      (production run (.package type header .termList)) := by
  intro s v t hs hrun ht
  have := hr.sticky
  rw [production, bind_run rfl,
    bind_run (reads_pkgLength s hs).2] at hrun
  obtain ⟨fields, u, hu, hrun⟩ := bind_run_eq_ok.1 hrun
  rw [bind_run rfl] at hrun
  obtain ⟨terms, w, hw, hadd⟩ := bind_run_eq_ok.1 hrun
  have hplace := add_place hadd
  have hw_inside : w.overran = false := hplace.overran ▸ ht
  have hsub : Sticky (subspan (packageSpace (2 ^ 32) (lengthOf s.rest).1 s.mOffset u.mOffset)
    (run (.termList []))) := inferInstance
  obtain ⟨hfollows, hheader⟩ := sound_header hr hs hu (hsub.inside hw hw_inside)
  obtain ⟨hfits, hfollows', hdrop, rest, hbody⟩ :=
    subspan_sound (hr.termList []) hfollows.valid hw hw_inside
  obtain ⟨hcovers, hinside, hwrap⟩ := package_count hs hfollows (lengthOf_lt _) hfits
  refine ⟨(hfollows.trans hfollows').trans (hplace.follows hfollows'.valid), ?_⟩
  rw [hwrap] at hdrop hbody
  rw [hplace.rest, hplace.err, hdrop, drop_package hfollows.suffix hcovers]
  exact .terms rfl hheader hcovers hinside hbody

lemma sound_skipped (type : AmlTermType) (header : List Symbol) :
    Sound (.production (.package type header .skip))
      (production run (.package type header .skip)) := by
  intro s v t hs hrun ht
  rw [production, bind_run rfl,
    bind_run (reads_pkgLength s hs).2] at hrun
  obtain ⟨fields, u, hu, hrun⟩ := bind_run_eq_ok.1 hrun
  have hplace := add_place hrun
  rw [hplace.overran] at ht
  obtain ⟨hu_inside, hends⟩ := Bool.or_eq_false_iff.1 ht
  obtain ⟨hfollows, hheader⟩ := sound_header hr hs hu hu_inside
  have hoffset := hfollows.offset hs
  have hcode := congrArg List.length hfollows.code
  have hlength := @length_rest s
  simp only [decide_eq_false_iff_not, not_or, Nat.not_lt] at hends
  have hcovers : taken s.rest u.rest ≤ (lengthOf s.rest).1 := by omega
  have hinside : (lengthOf s.rest).1 ≤ s.rest.length := by omega
  obtain ⟨hsuffix, hskip⟩ := skipPackage_run hs hfollows (lengthOf_lt _) hcovers hinside
  obtain ⟨-, hstate⟩ := mk.inj (ok.inj hskip)
  rw [hstate] at hplace
  have hfollows' := @Follows.moved u _ false hfollows.valid hsuffix
  refine ⟨(hfollows.trans hfollows').trans (hplace.follows hfollows'.valid), ?_⟩
  have herr : (u.moved (s.rest.drop (lengthOf s.rest).1) false).nodes.mError = u.nodes.mError :=
    Bool.or_false _
  rw [hplace.rest, hplace.err, rest_moved hsuffix, herr]
  exact .skipped rfl hheader hcovers hinside

lemma sound_production (p : Production) : Sound (.production p) (production run p) := by
  cases p with
  | plain type list => exact (sound_symbols hr list).add .plain
  | package type header body =>
    cases body with
    | termList => exact sound_terms hr type header
    | skip => exact sound_skipped hr type header
  | value x =>
    intro s v t hs hrun ht
    obtain ⟨hfollows, hderives⟩ := sound_symbol hr x s v t hs hrun ht
    exact ⟨hfollows, .value hderives⟩
  | ones =>
    intro s v t hs hrun ht
    have hplace := add_place hrun
    refine ⟨hplace.follows hs, ?_⟩
    rw [hplace.rest, hplace.err]
    exact .ones

/-! ## Choices -/

lemma sound_nonterminal (n : Nonterminal) {s t : AmlState} (hs : s.Valid)
    (hgoes : n = .term → s.nodes.mError = false) (hrun : Aml.nonterminal run n s = .ok (v, t))
    (ht : t.overran = false) :
    Follows s t ∧
      Derives (.symbol (.nonterminal n)) s.rest s.nodes.mError t.rest t.nodes.mError := by
  obtain ⟨hsuffix, hchoose⟩ := reads_choose (choices n) s hs
  rw [Aml.nonterminal, bind_run hchoose] at hrun
  cases hselect : select (choices n) s.rest with
  | some chosen =>
    obtain ⟨p, rest⟩ := chosen
    simp only [hselect] at hrun hsuffix
    obtain ⟨hfollows, hderives⟩ := sound_production hr p _ v t hs.moved hrun ht
    have herr : (s.moved rest false).nodes.mError = s.nodes.mError := Bool.or_false _
    rw [rest_moved hsuffix, herr] at hderives
    exact ⟨(Follows.moved hs hsuffix).trans hfollows, .chosen hgoes hselect hderives⟩
  | none =>
    simp only [hselect, hs.moved_rest] at hrun
    cases n with
    | term =>
      obtain ⟨hfollows, hrest, herr⟩ := moves_fallback_term.ends hs hrun
      rw [hrest, herr, hgoes rfl]
      exact ⟨hfollows, .unknownTerm hselect⟩
    | termArg =>
      obtain ⟨hfollows, hrest, herr⟩ := moves_reportError.ends hs hrun
      rw [hrest, herr, Bool.or_true]
      exact ⟨hfollows, .unknownArg hselect⟩
    | dataRefObject =>
      obtain ⟨hfollows, hrest, herr⟩ := moves_reportError.ends hs hrun
      rw [hrest, herr, Bool.or_true]
      exact ⟨hfollows, .unknownData hselect⟩
    | superName =>
      obtain ⟨hfollows, hrest, herr⟩ := moves_nameString.ends hs hrun
      rw [hrest, herr]
      exact ⟨hfollows, .simpleName hselect⟩

lemma sound_term : Sound (.symbol (.nonterminal .term)) (term run) := by
  intro s v t hs hrun ht
  rw [term, bind_run rfl] at hrun
  cases herr : s.nodes.mError with
  | true =>
    simp only [herr, if_true] at hrun
    obtain ⟨-, rfl⟩ := mk.inj (ok.inj hrun)
    refine ⟨⟨rfl, hs, suffix_refl _⟩, ?_⟩
    rw [herr]
    exact .stopped
  | false =>
    simp only [herr, Bool.false_eq_true, if_false] at hrun
    rw [← herr]
    exact sound_nonterminal hr .term hs (fun _ => herr) hrun ht

/-! ## Loops -/

lemma sound_termList (terms : List AmlAnyId) : Sound .termList (step run (.termList terms)) := by
  intro s v t hs hrun ht
  rw [step, bind_run rfl] at hrun
  by_cases hend : s.mCode.length ≤ s.mOffset
  · simp only [hend, decide_true, if_true] at hrun
    have hplace := finishTerms_place hrun
    refine ⟨hplace.follows hs, ?_⟩
    rw [hplace.rest, hplace.err, rest_eq_nil.2 hend]
    exact .listDone
  · have hne : s.rest ≠ [] := fun hnil => hend (rest_eq_nil.1 hnil)
    simp only [hend, decide_false, Bool.false_eq_true, if_false] at hrun
    obtain ⟨value, u, hu, hrun⟩ := bind_run_eq_ok.1 hrun
    rw [bind_run rfl] at hrun
    by_cases hstop : u.nodes.mError = true ∨ value.toId = .kInvalid
    · rw [if_pos hstop] at hrun
      have hplace := finishTerms_place hrun
      have herr : u.nodes.mError = true := by
        rcases hstop with herr | hinvalid
        · exact herr
        · by_contra hnot
          exact hr.node s value u hs hu (by simpa using hnot) hinvalid
      obtain ⟨hfollows, hderives⟩ := hr.nonterminal .term s value u hs hu (hplace.overran ▸ ht)
      rw [herr] at hderives
      refine ⟨hfollows.trans (hplace.follows hfollows.valid), ?_⟩
      rw [hplace.rest, hplace.err, herr]
      exact .listStop hne hderives
    · rw [if_neg hstop] at hrun
      have hinside := (hr.sticky _).inside hrun ht
      obtain ⟨hfollows, hderives⟩ := hr.nonterminal .term s value u hs hu hinside
      obtain ⟨hfollows', hderives'⟩ := hr.termList _ u v t hfollows.valid hrun ht
      rw [not_or, Bool.not_eq_true] at hstop
      rw [hstop.1] at hderives hderives'
      exact ⟨hfollows.trans hfollows', .listNext hne hderives hderives'⟩

lemma sound_elements (terms : List AmlAnyId) : Sound .elements (step run (.elements terms)) := by
  intro s v t hs hrun ht
  rw [step, bind_run rfl] at hrun
  by_cases hend : s.mCode.length ≤ s.mOffset
  · simp only [hend, decide_true, if_true] at hrun
    obtain ⟨-, rfl⟩ := mk.inj (ok.inj hrun)
    refine ⟨⟨rfl, hs, suffix_refl _⟩, ?_⟩
    rw [rest_eq_nil.2 hend]
    exact .elementsDone
  · have hne : s.rest ≠ [] := fun hnil => hend (rest_eq_nil.1 hnil)
    simp only [hend, decide_false, Bool.false_eq_true, if_false] at hrun
    obtain ⟨value, u, hu, hrun⟩ := bind_run_eq_ok.1 hrun
    have hinside := (hr.sticky _).inside hrun ht
    obtain ⟨hfollows, hderives⟩ := hr.nonterminal .dataRefObject s value u hs hu hinside
    obtain ⟨hfollows', hderives'⟩ := hr.elements _ u v t hfollows.valid hrun ht
    exact ⟨hfollows.trans hfollows', .elementsNext hne hderives hderives'⟩

lemma fill_ends {i space : Nat} {data : List UInt8} {s t : AmlState} (hs : s.Valid)
    (hi : i < 2 ^ 32) (hrun : step run (.fill i space data) s = .ok (v, t)) :
    space < 2 ^ 32 ∧ t = s.moved (s.rest.drop (space - i)) false := by
  rw [step] at hrun
  by_cases hlt : i < space
  · rw [if_pos hlt] at hrun
    obtain ⟨hsuffix, hread⟩ := reads_read s hs
    rw [bind_run hread] at hrun
    have hnext := hr.fill _ _ _ _ v t hs.moved (Nat.mod_lt _ (by decide)) hrun
    obtain ⟨hspace, heq⟩ := hnext
    have hmod : (i + 1) % 2 ^ 32 = i + 1 := Nat.mod_eq_of_lt (by omega)
    have hsub : space - i = 1 + (space - (i + 1)) := by omega
    refine ⟨hspace, ?_⟩
    rw [heq, moved_moved, rest_moved hsuffix, hmod, hsub, ← drop_drop,
      drop_one]
    rfl
  · rw [if_neg hlt] at hrun
    obtain ⟨-, rfl⟩ := mk.inj (ok.inj hrun)
    have hzero : space - i = 0 := by omega
    refine ⟨by omega, ?_⟩
    rw [hzero, drop_zero, hs.moved_rest]

end Step

/-! ## Nodes of terms -/

lemma add_value {s t : AmlState} (hrun : add type fields s = .ok (v, t)) :
    v.toId ≠ .kInvalid := by
  obtain ⟨t', hrun', -⟩ := add_run type fields s
  rw [hrun] at hrun'
  obtain ⟨rfl, -⟩ := mk.inj (ok.inj hrun')
  exact AmlAnyId.noConfusion

def Choice.production : Choice → Production
  | .op _ p | .name p => p

def Production.addsNode : Production → Bool
  | .value _ => false
  | _ => true

lemma select_mem {list : List Choice} {b rest : List UInt8} {p : Production}
    (h : select list b = some (p, rest)) : (∃ seq, .op seq p ∈ list) ∨ .name p ∈ list := by
  induction list with
  | nil => cases h
  | cons choice list ih =>
    cases choice with
    | op seq q =>
      rw [select] at h
      split at h
      · obtain ⟨rfl, -⟩ := mk.inj (Option.some.inj h)
        exact .inl ⟨seq, mem_cons_self ..⟩
      · exact (ih h).imp (.imp fun _ => mem_cons_of_mem _) (mem_cons_of_mem _)
    | name q =>
      rw [select] at h
      split at h
      · obtain ⟨rfl, -⟩ := mk.inj (Option.some.inj h)
        exact .inr (mem_cons_self ..)
      · exact (ih h).imp (.imp fun _ => mem_cons_of_mem _) (mem_cons_of_mem _)

lemma production_value {run : Goal → AmlM AmlValue} {p : Production} (hp : p.addsNode = true)
    {s t : AmlState} (hrun : production run p s = .ok (v, t)) :
    v.toId ≠ .kInvalid := by
  cases p with
  | plain type list =>
    obtain ⟨_, _, -, hrun⟩ := bind_run_eq_ok.1 hrun
    exact add_value hrun
  | package type header body =>
    cases body with
    | termList =>
      obtain ⟨_, _, -, hrun⟩ := bind_run_eq_ok.1 hrun
      obtain ⟨_, _, -, hrun⟩ := bind_run_eq_ok.1 hrun
      obtain ⟨_, _, -, hrun⟩ := bind_run_eq_ok.1 hrun
      obtain ⟨_, _, -, hrun⟩ := bind_run_eq_ok.1 hrun
      obtain ⟨_, _, -, hrun⟩ := bind_run_eq_ok.1 hrun
      exact add_value hrun
    | skip =>
      obtain ⟨_, _, -, hrun⟩ := bind_run_eq_ok.1 hrun
      obtain ⟨_, _, -, hrun⟩ := bind_run_eq_ok.1 hrun
      obtain ⟨_, _, -, hrun⟩ := bind_run_eq_ok.1 hrun
      obtain ⟨_, _, -, hrun⟩ := bind_run_eq_ok.1 hrun
      exact add_value hrun
  | value x => cases hp
  | ones =>
    obtain ⟨_, _, -, hrun⟩ := bind_run_eq_ok.1 hrun
    exact add_value hrun

lemma term_value {run : Goal → AmlM AmlValue} {s t : AmlState} (hs : s.Valid)
    (hrun : term run s = .ok (v, t)) (ht : t.nodes.mError = false) : v.toId ≠ .kInvalid := by
  rw [term, bind_run rfl] at hrun
  cases herr : s.nodes.mError with
  | true =>
    simp only [herr, if_true] at hrun
    obtain ⟨-, rfl⟩ := mk.inj (ok.inj hrun)
    rw [herr] at ht
    cases ht
  | false =>
    simp only [herr, Bool.false_eq_true, if_false] at hrun
    obtain ⟨hsuffix, hchoose⟩ := reads_choose (choices .term) s hs
    rw [nonterminal, bind_run hchoose] at hrun
    cases hselect : select (choices .term) s.rest with
    | some chosen =>
      simp only [hselect] at hrun
      refine production_value ?_ hrun
      have hall : ∀ choice ∈ choices .term, choice.production.addsNode = true := by decide
      rcases select_mem hselect with ⟨seq, hmem⟩ | hmem
      · exact hall _ hmem
      · exact hall _ hmem
    | none =>
      simp only [hselect, hs.moved_rest] at hrun
      obtain ⟨-, -, herr'⟩ := moves_fallback_term.ends hs hrun
      rw [herr', Bool.or_true] at ht
      cases ht

/-! ## Whole runs -/

lemma RunSound.step {run : Goal → AmlM AmlValue} (hr : RunSound run) :
    RunSound (Aml.step run) where
  sticky goal := by
    have := hr.sticky
    infer_instance
  nonterminal n := by
    cases n with
    | term => exact sound_term hr
    | _ =>
      intro s v t hs hrun ht
      exact sound_nonterminal hr _ hs nofun hrun ht
  termList := sound_termList hr
  elements := sound_elements hr
  fill i space data s v t hs hi hrun := fill_ends hr hs hi hrun
  node s v t hs hrun ht := term_value hs hrun ht

lemma runSound_run (fuel : Nat) : RunSound (run fuel) := by
  induction fuel with
  | zero =>
    have hnever : ∀ goal s v t, run 0 goal s ≠ .ok (v, t) := fun _ _ _ _ h => by cases h
    exact ⟨inferInstance, fun _ s v t _ h => absurd h (hnever _ s v t),
      fun _ s v t _ h => absurd h (hnever _ s v t), fun _ s v t _ h => absurd h (hnever _ s v t),
      fun _ _ _ s v t _ _ h => absurd h (hnever _ s v t),
      fun s v t _ h => absurd h (hnever _ s v t)⟩
  | succ fuel ih => exact ih.step

end Aml
end BezOS
