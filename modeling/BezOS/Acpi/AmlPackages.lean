import BezOS.Acpi.AmlOnward
import BezOS.Acpi.AmlConfined

/-!
# Where a package leaves the parser

Every function with a length reads it, then a header, and then makes a parser of its own for the
rest of the package, skips it, or reads it. Nothing compares the length with the header in front of
it or with the span around it, and a package of length zero is left behind its header.
-/

namespace BezOS
namespace Aml

open Lib AmlState Except

variable {α β : Type}

inductive Packaged
  | function (type : AmlTermType) (header : List Symbol) (body : PackageBody)
  | bufferData
  | defPackage
  deriving DecidableEq

namespace Packaged

section Run

variable (q : Packaged) (run : Goal → AmlM AmlValue)

def parse : AmlM AmlValue :=
  match q with
  | .function type header body => production run (.package type header body)
  | .bufferData => Aml.bufferData run
  | .defPackage => Aml.defPackage run

def header : List Symbol :=
  match q with
  | .function _ header _ => header
  | .bufferData => [.termArg]
  | .defPackage => [.byteData]

def front : AmlM (List AmlValue) := do
  let _ ← pkgLength
  symbols run q.header

end Run

end Packaged

def AmlState.part (s : AmlState) (count : Nat) : AmlState :=
  { s with mOffset := 0, mCode := (s.mCode.drop s.mOffset).take count }

/-- The body of a package, that much behind its front, comes back. -/
def Packaged.BodyEnds (q : Packaged) (run : Goal → AmlM AmlValue) (u : AmlState) (count : Nat) :
    Prop :=
  match q with
  | .function _ _ .termList => ∃ r, run (.termList []) (u.part count) = .ok r
  | .function _ _ .skip => True
  | .bufferData => ∃ r, run (.fill 0 count []) u = .ok r
  | .defPackage => ∃ r, run (.elements []) (u.part count) = .ok r

/-! ## Parsers in their span -/

/-- What is asked of a parser, whether or not another one was behind the end of its span before. -/
structure AmlState.InSpan (s : AmlState) : Prop where
  offset : s.mOffset ≤ s.mCode.length
  short : s.mCode.length + 1 < 2 ^ 32

/-- A parser of which it may be known that one was behind the end of its span. -/
def AmlState.flag (s : AmlState) (o : Bool) : AmlState := { s with overran := s.overran || o }

/-- The action does not look at that. -/
def Blind (m : AmlM α) : Prop :=
  ∀ o s v t, m s = .ok (v, t) → m (s.flag o) = .ok (v, t.flag o)

lemma blind_pure (a : α) : Blind (pure a) := by
  intro o s v t h
  cases h
  rfl

lemma Blind.bind {m : AmlM α} {f : α → AmlM β} (hm : Blind m) (hf : ∀ a, Blind (f a)) :
    Blind (m >>= f) := by
  intro o s v t h
  obtain ⟨a, u, hu, ht⟩ := bind_run_eq_ok.1 h
  rw [bind_run (hm o s a u hu)]
  exact hf a o u v t ht

lemma blind_skip (count : Nat) : Blind (skip count) := by
  intro o s v t h
  obtain ⟨-, rfl⟩ := Prod.mk.inj (ok.inj h)
  refine congrArg (fun overran => ok ((),
    { s with mOffset := (s.mOffset + count) % 2 ^ 32, overran := overran })) ?_
  exact Bool.or_right_comm _ _ _

lemma blind_read : Blind read := by
  intro o s v t h
  rw [read, bind_run rfl] at h
  rw [read, bind_run rfl]
  by_cases hend : s.mCode.length ≤ s.mOffset
  · rw [if_pos hend] at h
    rw [if_pos (show (s.flag o).mCode.length ≤ (s.flag o).mOffset from hend)]
    exact blind_pure _ o s v t h
  · rw [if_neg hend] at h
    rw [if_neg (show ¬ (s.flag o).mCode.length ≤ (s.flag o).mOffset from hend)]
    exact (blind_skip 1).bind (fun _ => blind_pure _) o s v t h

lemma blind_pkgLengthFrom (count i value : Nat) : Blind (pkgLengthFrom count i value) := by
  induction count generalizing i value with
  | zero => exact blind_pure _
  | succ count ih => exact blind_read.bind fun _ => ih _ _

lemma blind_pkgLength : Blind pkgLength := by
  refine blind_read.bind fun lead => ?_
  dsimp only
  split
  · exact blind_pkgLengthFrom _ _ _
  · exact blind_pure _

lemma pkgLength_run {s : AmlState} (hs : s.InSpan) :
    (lengthOf s.rest).2 <:+ s.rest ∧
      pkgLength s = .ok ((lengthOf s.rest).1, s.moved (lengthOf s.rest).2 false) := by
  have hclear : AmlState.Valid { s with overran := false } := ⟨hs.offset, hs.short, rfl⟩
  obtain ⟨hsuffix, hlength⟩ := reads_pkgLength _ hclear
  refine ⟨hsuffix, ?_⟩
  have hrun := blind_pkgLength s.overran _ _ _ hlength
  have hflag : flag { s with overran := false } s.overran = s := by
    rw [flag, Bool.false_or]
  rw [hflag] at hrun
  rw [hrun]
  rfl

/-! ## Reading the rest of a buffer -/

lemma read_run {s : AmlState} (hshort : s.mCode.length < 2 ^ 32) :
    ∃ c t, read s = .ok (c, t) ∧ t.mCode = s.mCode ∧ t.nodes = s.nodes ∧
      t.mOffset = if s.mOffset < s.mCode.length then s.mOffset + 1 else s.mOffset := by
  rw [read, bind_run rfl]
  by_cases hend : s.mCode.length ≤ s.mOffset
  · refine ⟨0, s, ?_, rfl, rfl, (if_neg (by omega)).symm⟩
    rw [if_pos hend]
    rfl
  · obtain ⟨⟨c, t⟩, hskip⟩ : ∃ r, skip 1 s = .ok r := ⟨_, rfl⟩
    rw [if_neg hend, bind_run hskip]
    obtain ⟨-, rfl⟩ := Prod.mk.inj (ok.inj hskip)
    refine ⟨s.mCode.getD s.mOffset 0, _, rfl, rfl, rfl, ?_⟩
    rw [if_pos (by omega)]
    exact Nat.mod_eq_of_lt (by omega)

lemma fill_offset {fuel i space : Nat} {data : List UInt8} {s t : AmlState} {v : AmlValue}
    (hshort : s.mCode.length < 2 ^ 32) (hi : i < 2 ^ 32)
    (hrun : run fuel (.fill i space data) s = .ok (v, t)) :
    space < 2 ^ 32 ∧ t.mCode = s.mCode ∧ t.nodes = s.nodes ∧
      t.mOffset = max s.mOffset (min s.mCode.length (s.mOffset + (space - i))) := by
  induction fuel generalizing i data s with
  | zero => cases hrun
  | succ fuel ih =>
    rw [run, step] at hrun
    split at hrun
    · rename_i hlt
      obtain ⟨c, u, hread, hcode, hnodes, hoffset⟩ := read_run hshort
      rw [bind_run hread] at hrun
      obtain ⟨hspace, hcode', hnodes', hoffset'⟩ :=
        ih (hcode ▸ hshort) (Nat.mod_lt _ (by decide)) hrun
      have hnext : (i + 1) % 2 ^ 32 = i + 1 := Nat.mod_eq_of_lt (by omega)
      rw [hnext, hcode, hoffset] at hoffset'
      refine ⟨hspace, hcode'.trans hcode, hnodes'.trans hnodes, ?_⟩
      split at hoffset' <;> omega
    · obtain ⟨-, rfl⟩ := Prod.mk.inj (ok.inj hrun)
      exact ⟨by omega, rfl, rfl, by omega⟩

/-! ## What is asked of a package -/

namespace Packaged

abbrev length (s : AmlState) : Nat := (lengthOf s.rest).1

/-- The end of the package is in the span. -/
def Inside (s : AmlState) : Prop := length s ≤ s.rest.length

/-- The parser stands at the end of the package, where it goes on with what is there, whatever the
body was. -/
structure Behind (s t : AmlState) : Prop where
  offset : t.mOffset = s.mOffset + length s
  code : t.mCode = s.mCode
  rest : t.rest = s.rest.drop (length s)
  next : t.overran = false → ∀ b e,
    Derives .termList (s.rest.drop (length s)) t.nodes.mError b e →
      ∃ N, ∀ n ≥ N, Ends .termList (run n) t b e

/-- The function comes back behind its package, or with an error if that is not in the span. -/
def Respected (q : Packaged) (fuel : Nat) (s : AmlState) : Prop :=
  ∃ v t, q.parse (run fuel) s = .ok (v, t) ∧
    (Inside s → Behind s t) ∧ (¬ Inside s → t.nodes.mError = true)

/-- The front ends in the package. -/
def Covers (s u : AmlState) : Prop := u.mOffset ≤ s.mOffset + length s

/-- What the function gets right, by where its front ends. -/
def Fits (q : Packaged) (s u : AmlState) : Prop :=
  match q with
  | .function _ _ .termList | .defPackage => Covers s u ∧ Inside s
  | .function _ _ .skip => Inside s ∨ u.nodes.mError = true
  | .bufferData => Covers s u ∧ (Inside s ∨ u.nodes.mError = true)

/-! ## The end of a package -/

variable {s t u : AmlState} {type : AmlTermType} {fields : List AmlValue}

lemma behind_of_offset (hs : s.InSpan) (hinside : Inside s)
    (hoffset : t.mOffset = s.mOffset + length s) (hcode : t.mCode = s.mCode) : Behind s t := by
  have hrest : t.rest = s.rest.drop (length s) := by
    rw [AmlState.rest, AmlState.rest, List.drop_drop, hoffset, hcode]
  refine ⟨hoffset, hcode, hrest, fun hover b e hderives => ?_⟩
  have hvalid : t.Valid := by
    refine ⟨?_, hcode ▸ hs.short, hover⟩
    have hle : length s ≤ s.rest.length := hinside
    have hlength := @length_rest s
    have hfront := hs.offset
    rw [hcode]
    omega
  obtain ⟨N, hN⟩ := ends_of_derives hderives
  exact ⟨N, fun n hn => hN n hn t hvalid hrest rfl⟩

lemma packageSpace_cases {w length front back : Nat} (hfront : front < w) (hback : back < w)
    (hlength : length < w) (hword : front + length < back + w) :
    (back ≤ front + length ∧ back + packageSpace w length front back = front + length) ∨
      (front + length < back ∧ back + packageSpace w length front back = front + length + w) := by
  have htaken := wrapSub_cases hback hfront.le
  have hspace := wrapSub_cases hlength (wrapSub_lt (by omega) : wrapSub w back front < w).le
  unfold packageSpace
  omega

lemma front_run {q : Packaged} {fuel : Nat} (hs : s.InSpan)
    (hfront : q.front (run fuel) s = .ok (fields, u)) :
    symbols (run fuel) q.header (s.moved (lengthOf s.rest).2 false) = .ok (fields, u) ∧
      u.mCode = s.mCode ∧ u.mOffset < 2 ^ 32 := by
  have hforward : Forward 0 (q.front (run fuel)) := by
    unfold front
    infer_instance
  have honward := hforward.onward s _ u hfront
  have hshort := hs.short
  have hoffset := hs.offset
  rw [front, bind_run (pkgLength_run hs).2] at hfront
  exact ⟨hfront, honward.code, honward.offset (by omega) (by omega)⟩

lemma part_fits (hs : s.InSpan) (hword : s.mOffset + length s < u.mOffset + 2 ^ 32)
    (hlt : u.mOffset < 2 ^ 32) :
    u.mOffset + packageSpace (2 ^ 32) (length s) s.mOffset u.mOffset ≤ s.mCode.length ↔
      Covers s u ∧ Inside s := by
  have hlength : length s < 2 ^ 28 := lengthOf_lt s.rest
  have hrest := @length_rest s
  have hshort := hs.short
  have hoffset := hs.offset
  have hcases := packageSpace_cases (by omega) hlt
    (by omega) hword
  unfold Covers Inside
  omega

lemma subspan_add_iff {fields : AmlValue → List AmlValue} {body : AmlM AmlValue} (hs : s.InSpan)
    (hcode : u.mCode = s.mCode) (hword : s.mOffset + length s < u.mOffset + 2 ^ 32)
    (hlt : u.mOffset < 2 ^ 32)
    (hbody : ∃ r, body (u.part (s.mOffset + length s - u.mOffset)) = .ok r) :
    (∃ v t, (do
        let terms ← subspan (packageSpace (2 ^ 32) (length s) s.mOffset u.mOffset) body
        add type (fields terms) : AmlM AmlValue) u = .ok (v, t) ∧
      (Inside s → Behind s t) ∧ (¬ Inside s → t.nodes.mError = true)) ↔
    Covers s u ∧ Inside s := by
  have hfits := part_fits hs hword hlt
  rw [← hcode] at hfits
  constructor
  · rintro ⟨v, t, hrun, -⟩
    obtain ⟨terms, w, hsub, -⟩ := bind_run_eq_ok.1 hrun
    unfold subspan at hsub
    split at hsub
    · rename_i hle
      exact hfits.1 hle
    · cases hsub
  · intro h
    have hle := hfits.2 h
    obtain ⟨hcovers, hinside⟩ := h
    have hlength : length s < 2 ^ 28 := lengthOf_lt s.rest
    have hshort := hs.short
    have hoffset := hs.offset
    have hcases := packageSpace_cases (by omega) hlt
      (by omega) hword
    unfold Covers at hcovers
    have hspace : packageSpace (2 ^ 32) (length s) s.mOffset u.mOffset =
        s.mOffset + length s - u.mOffset := by omega
    obtain ⟨⟨terms, w⟩, hw⟩ := hbody
    have hsub : subspan (packageSpace (2 ^ 32) (length s) s.mOffset u.mOffset) body u =
        .ok (terms, { w with
          mOffset := u.mOffset + packageSpace (2 ^ 32) (length s) s.mOffset u.mOffset
          mCode := u.mCode }) := by
      rw [← hspace] at hw
      rw [subspan, if_pos hle]
      change body (u.part _) >>= _ = _
      rw [hw]
      rfl
    refine ⟨_, _, bind_run hsub, fun _ => ?_, fun hnot => absurd hinside hnot⟩
    refine behind_of_offset hs hinside ?_ hcode
    change u.mOffset + packageSpace (2 ^ 32) (length s) s.mOffset u.mOffset = _
    omega

lemma offset_of_add {v : AmlValue} (hadd : add type fields u = .ok (v, t)) :
    t.mOffset = u.mOffset ∧ t.mCode = u.mCode := by
  obtain ⟨-, rfl⟩ := Prod.mk.inj (ok.inj hadd)
  exact ⟨rfl, rfl⟩

section Parse

variable {fuel : Nat} {fields : List AmlValue} {header : List Symbol}

lemma parse_termList (hs : s.InSpan)
    (hheader : symbols (run fuel) header (s.moved (lengthOf s.rest).2 false) = .ok (fields, u)) :
    (Packaged.function type header .termList).parse (run fuel) s = (do
      let terms ← subspan (packageSpace (2 ^ 32) (length s) s.mOffset u.mOffset)
        (run fuel (.termList []))
      add type (fields ++ [terms]) : AmlM AmlValue) u := by
  change production (run fuel) (.package type header .termList) s = _
  rw [production, bind_run rfl,
    bind_run (pkgLength_run hs).2, bind_run hheader,
    bind_run rfl]

lemma parse_skip (hs : s.InSpan)
    (hheader : symbols (run fuel) header (s.moved (lengthOf s.rest).2 false) = .ok (fields, u)) :
    (Packaged.function type header .skip).parse (run fuel) s = (do
      skipPackage s.mOffset (length s)
      add type fields : AmlM AmlValue) u := by
  change production (run fuel) (.package type header .skip) s = _
  rw [production, bind_run rfl,
    bind_run (pkgLength_run hs).2, bind_run hheader]

lemma parse_bufferData (hs : s.InSpan)
    (hheader : symbols (run fuel) [.termArg] (s.moved (lengthOf s.rest).2 false) =
      .ok (fields, u)) :
    ∃ size : AmlValue, Packaged.bufferData.parse (run fuel) s = (do
      let data ← run fuel (.fill 0 (packageSpace (2 ^ 64) (length s) s.mOffset u.mOffset) [])
      pure (.buffer size.toId data.toText) : AmlM AmlValue) u := by
  obtain ⟨size, u', hsize, hrest⟩ := bind_run_eq_ok.1 hheader
  cases hrest
  change run fuel (.nonterminal .termArg) _ = _ at hsize
  refine ⟨size, ?_⟩
  change Aml.bufferData (run fuel) s = _
  rw [Aml.bufferData, bind_run rfl,
    bind_run (pkgLength_run hs).2, bind_run hsize,
    bind_run rfl]

lemma parse_defPackage (hs : s.InSpan)
    (hheader : symbols (run fuel) [.byteData] (s.moved (lengthOf s.rest).2 false) =
      .ok (fields, u)) :
    s.mOffset ≤ u.mOffset ∧
      ∃ count, Packaged.defPackage.parse (run fuel) s = (if length s ≠ 0 then do
        let terms ← subspan (packageSpace (2 ^ 32) (length s) s.mOffset u.mOffset)
          (run fuel (.elements []))
        add .package [.number count, terms]
      else add .package [.number count, .terms []] : AmlM AmlValue) u := by
  obtain ⟨value, u', hvalue, hrest⟩ := bind_run_eq_ok.1 hheader
  cases hrest
  obtain ⟨count, u', hcount, hrest⟩ := bind_run_eq_ok.1 hvalue
  cases hrest
  refine ⟨?_, count, ?_⟩
  · -- neither the length nor the count moves the parser back
    obtain ⟨c, w, hread, -, -, hoffset⟩ := @read_run (s.moved (lengthOf s.rest).2 false)
      (Nat.lt_of_succ_lt hs.short)
    rw [dataBytes, bind_run hread] at hcount
    cases hcount
    have hle := (pkgLength_run hs).1.length_le
    have hlength := @length_rest s
    have hspan := hs.offset
    have hmoved : (s.moved (lengthOf s.rest).2 false).mOffset =
      s.mCode.length - (lengthOf s.rest).2.length := rfl
    split at hoffset <;> omega
  change Aml.defPackage (run fuel) s = _
  rw [Aml.defPackage, bind_run rfl,
    bind_run (pkgLength_run hs).2, bind_run hcount,
    bind_run rfl]

end Parse

/-! ## Which packages are respected -/

variable {fuel : Nat} {fields : List AmlValue}

lemma respected_skip_iff {header : List Symbol} (hs : s.InSpan)
    (hfront : (Packaged.function type header .skip).front (run fuel) s = .ok (fields, u))
    (hword : s.mOffset + length s < u.mOffset + 2 ^ 32) :
    (Packaged.function type header .skip).Respected fuel s ↔
      Inside s ∨ u.nodes.mError = true := by
  obtain ⟨hheader, hcode, hlt⟩ := front_run hs hfront
  have hlength : length s < 2 ^ 28 := lengthOf_lt s.rest
  have hrest := @length_rest s
  have hshort := hs.short
  have hoffset := hs.offset
  have hcases := packageSpace_cases (by omega) hlt
    (by omega) hword
  obtain ⟨v, t, hrun, hend, hcode', herr⟩ : ∃ v t,
      (Packaged.function type header .skip).parse (run fuel) s = .ok (v, t) ∧
        t.mOffset = (u.mOffset + packageSpace (2 ^ 32) (length s) s.mOffset u.mOffset) % 2 ^ 32 ∧
          t.mCode = u.mCode ∧ t.nodes.mError = u.nodes.mError := by
    rw [parse_skip hs (show symbols (run fuel) header _ = _ from hheader)]
    exact ⟨_, _, rfl, rfl, rfl, rfl⟩
  have hplace : Inside s → t.mOffset = s.mOffset + length s := by
    intro hinside
    unfold Inside at hinside
    omega
  constructor
  · rintro ⟨v', t', hrun', -, hout⟩
    rw [hrun] at hrun'
    cases hrun'
    by_cases hinside : Inside s
    · exact .inl hinside
    · exact .inr (herr ▸ hout hinside)
  · intro h
    refine ⟨v, t, hrun, fun hinside => behind_of_offset hs hinside (hplace hinside)
      (hcode'.trans hcode), fun hnot => ?_⟩
    rw [herr]
    exact h.resolve_left hnot

lemma respected_bufferData_iff (hs : s.InSpan)
    (hfront : Packaged.bufferData.front (run fuel) s = .ok (fields, u))
    (hword : s.mOffset + length s < u.mOffset + 2 ^ 32)
    (hbody : ∃ r, run fuel (.fill 0 (s.mOffset + length s - u.mOffset) []) u = .ok r) :
    Packaged.bufferData.Respected fuel s ↔
      Covers s u ∧ (Inside s ∨ u.nodes.mError = true) := by
  obtain ⟨hheader, hcode, hlt⟩ := front_run hs hfront
  obtain ⟨size, hparse⟩ := parse_bufferData hs hheader
  have hrest := @length_rest s
  have hshort := hs.short
  have hoffset := hs.offset
  have hcases := @packageSpace_cases (2 ^ 64) (length s) s.mOffset u.mOffset (by omega) (by omega)
    (by omega) (by omega)
  have hshort' : u.mCode.length < 2 ^ 32 := by
    rw [hcode]
    omega
  -- where the bytes of the buffer end
  have hplace : Inside s → Covers s u → ∀ t : AmlState,
      t.mOffset = max u.mOffset (min u.mCode.length
        (u.mOffset + (packageSpace (2 ^ 64) (length s) s.mOffset u.mOffset - 0))) →
      t.mOffset = s.mOffset + length s := by
    intro hinside hcovers t ht
    rw [hcode] at ht
    unfold Inside at hinside
    unfold Covers at hcovers
    omega
  constructor
  · rintro ⟨v, t, hrun, -, hout⟩
    rw [hparse] at hrun
    obtain ⟨data, w, hw, hpure⟩ := bind_run_eq_ok.1 hrun
    cases hpure
    obtain ⟨hspace, -, hnodes, -⟩ := fill_offset hshort' (by decide) hw
    refine ⟨?_, ?_⟩
    · unfold Covers
      omega
    · by_cases hinside : Inside s
      · exact .inl hinside
      · exact .inr (hnodes ▸ hout hinside)
  · rintro ⟨hcovers, hgood⟩
    obtain ⟨⟨data, w⟩, hw⟩ := hbody
    have hspace : s.mOffset + length s - u.mOffset =
        packageSpace (2 ^ 64) (length s) s.mOffset u.mOffset := by
      unfold Covers at hcovers
      omega
    rw [hspace] at hw
    obtain ⟨-, hcode', hnodes, hend⟩ := fill_offset hshort' (by decide) hw
    refine ⟨_, w, hparse.trans (bind_run hw), fun hinside => ?_, fun hnot => ?_⟩
    · exact behind_of_offset hs hinside (hplace hinside hcovers w hend) (hcode'.trans hcode)
    · rw [hnodes]
      exact hgood.resolve_left hnot

lemma respected_defPackage_iff (hs : s.InSpan)
    (hfront : Packaged.defPackage.front (run fuel) s = .ok (fields, u))
    (hword : s.mOffset + length s < u.mOffset + 2 ^ 32)
    (hbody : ∃ r, run fuel (.elements []) (u.part (s.mOffset + length s - u.mOffset)) = .ok r) :
    Packaged.defPackage.Respected fuel s ↔ Covers s u ∧ Inside s := by
  obtain ⟨hheader, hcode, hlt⟩ := front_run hs hfront
  obtain ⟨hback, count, hparse⟩ := parse_defPackage hs hheader
  unfold Respected
  rw [hparse]
  by_cases hzero : length s = 0
  · rw [if_neg (not_not.2 hzero)]
    have hinside : Inside s := by
      unfold Inside
      omega
    constructor
    · rintro ⟨v, t, hadd, hbehind, -⟩
      obtain ⟨hend, -⟩ := offset_of_add hadd
      have hend' := (hbehind hinside).offset
      refine ⟨?_, hinside⟩
      unfold Covers
      omega
    · rintro ⟨hcovers, -⟩
      obtain ⟨⟨v, t⟩, hadd⟩ : ∃ r, add .package [.number count, .terms []] u = .ok r := ⟨_, rfl⟩
      obtain ⟨hend, hcode'⟩ := offset_of_add hadd
      refine ⟨v, t, hadd, fun _ => ?_, fun hnot => absurd hinside hnot⟩
      unfold Covers at hcovers
      exact behind_of_offset hs hinside (by omega) (hcode'.trans hcode)
  · rw [if_pos hzero]
    exact subspan_add_iff hs hcode hword hlt hbody

def behindOp (t : AmlTable) (opcode : Nat) : AmlState := { t.init with mOffset := opcode }

def emptyScope : AmlTable := ⟨[0x10, 0x05, 0x41, 0x42, 0x43, 0x44], 2, by decide⟩

def longField : AmlTable := ⟨[0x5b, 0x81, 0x3f, 0x41, 0x42, 0x43, 0x44, 0x00], 2, by decide⟩

end Packaged

end Aml
end BezOS
