import BezOS.Acpi.AmlGrammar

/-!
# What the parser reads

A parser inside its span is described by what is left of the span. The functions that read without
calling each other move it to a rest that depends on nothing else.
-/

namespace BezOS
namespace Aml

open Lib Except List Nat

variable {α β : Type} {m : AmlM α} {k : α → AmlM β} {f : List UInt8 → α × List UInt8 × Bool}
  {s t : AmlState}

lemma bind_run {a : α} (h : m s = .ok (a, t)) :
    (m >>= k) s = k a t := by
  change m s >>= (fun (p : α × AmlState) => k p.1 p.2) = _
  rw [h]
  rfl

lemma bind_run_eq_ok {r : β × AmlState} :
    (m >>= k) s = .ok r ↔ ∃ a t, m s = .ok (a, t) ∧ k a t = .ok r := by
  change m s >>= (fun (p : α × AmlState) => k p.1 p.2) = _ ↔ _
  rw [bind_eq_ok]
  exact Prod.exists

namespace AmlState

variable (s : AmlState)

def rest : List UInt8 := s.mCode.drop s.mOffset

structure Valid : Prop where
  offset : s.mOffset ≤ s.mCode.length
  short : s.mCode.length + 1 < 2 ^ 32
  inside : s.overran = false

/-- The parser with some bytes left, and perhaps an error reported. -/
def moved (b : List UInt8) (bad : Bool) : AmlState :=
  { s with
    mOffset := s.mCode.length - b.length
    nodes := { s.nodes with mError := s.nodes.mError || bad } }

variable {s} {b b' : List UInt8} {bad bad' : Bool}

lemma length_rest : s.rest.length = s.mCode.length - s.mOffset := length_drop

lemma rest_moved (hb : b <:+ s.rest) : (s.moved b bad).rest = b := by
  obtain ⟨front, hfront⟩ := hb.trans (drop_suffix _ _)
  change s.mCode.drop (s.mCode.length - b.length) = b
  rw [← hfront, length_append, Nat.add_sub_cancel, drop_left]

lemma Valid.moved (hs : s.Valid) : (s.moved b bad).Valid :=
  ⟨sub_le _ _, hs.short, hs.inside⟩

lemma moved_moved : (s.moved b bad).moved b' bad' = s.moved b' (bad || bad') := by
  simp [AmlState.moved, Bool.or_assoc]

lemma Valid.moved_rest (hs : s.Valid) : s.moved s.rest false = s := by
  have hoffset : s.mCode.length - s.rest.length = s.mOffset := by
    have := hs.offset
    rw [length_rest]
    omega
  simp [AmlState.moved, hoffset]

lemma getD_rest : s.mCode.getD s.mOffset 0 = s.rest.headD 0 := by
  rw [rest, headD_eq_head?_getD, head?_drop, getD_eq_getElem?_getD]

lemma rest_eq_nil : s.rest = [] ↔ s.mCode.length ≤ s.mOffset :=
  drop_eq_nil_iff

end AmlState

/-! ## Actions that read -/

/-- The action gives a value and leaves a rest that both depend on what is left only. -/
def Reads (m : AmlM α) (f : List UInt8 → α × List UInt8 × Bool) : Prop :=
  ∀ s, s.Valid → (f s.rest).2.1 <:+ s.rest ∧
    m s = .ok ((f s.rest).1, s.moved (f s.rest).2.1 (f s.rest).2.2)

def Moves (m : AmlM α) (g : List UInt8 → List UInt8 × Bool) : Prop :=
  ∀ s, s.Valid → (g s.rest).1 <:+ s.rest ∧
    ∃ v, m s = .ok (v, s.moved (g s.rest).1 (g s.rest).2)

lemma Reads.moves (h : Reads m f) :
    Moves m fun b => (f b).2 := by
  intro s hs
  obtain ⟨hsuffix, heq⟩ := h s hs
  exact ⟨hsuffix, _, heq⟩

lemma reads_pure (a : α) : Reads (pure a) fun b => (a, b, false) := by
  intro s hs
  refine ⟨suffix_refl _, ?_⟩
  rw [hs.moved_rest]
  rfl

lemma moves_pure (a : α) : Moves (pure a) fun b => (b, false) := (reads_pure a).moves

lemma Reads.bind {g : α → List UInt8 → β × List UInt8 × Bool} (hm : Reads m f)
    (hk : ∀ a, Reads (k a) (g a)) :
    Reads (m >>= k) fun b =>
      ((g (f b).1 (f b).2.1).1, (g (f b).1 (f b).2.1).2.1,
        (f b).2.2 || (g (f b).1 (f b).2.1).2.2) := by
  intro s hs
  obtain ⟨hsuffix, heq⟩ := hm s hs
  obtain ⟨hsuffix', heq'⟩ := hk (f s.rest).1 _ (hs.moved)
  rw [AmlState.rest_moved hsuffix] at hsuffix' heq'
  refine ⟨hsuffix'.trans hsuffix, ?_⟩
  rw [bind_run heq, heq', AmlState.moved_moved]

lemma Reads.bind_moves {g : α → List UInt8 → List UInt8 × Bool} (hm : Reads m f)
    (hk : ∀ a, Moves (k a) (g a)) :
    Moves (m >>= k) fun b =>
      ((g (f b).1 (f b).2.1).1, (f b).2.2 || (g (f b).1 (f b).2.1).2) := by
  intro s hs
  obtain ⟨hsuffix, heq⟩ := hm s hs
  obtain ⟨hsuffix', v, heq'⟩ := hk (f s.rest).1 _ (hs.moved)
  rw [AmlState.rest_moved hsuffix] at hsuffix' heq'
  refine ⟨hsuffix'.trans hsuffix, v, ?_⟩
  rw [bind_run heq, heq', AmlState.moved_moved]

lemma Moves.bind {f g : List UInt8 → List UInt8 × Bool} (hm : Moves m f) (hk : ∀ a, Moves (k a) g) :
    Moves (m >>= k) fun b => ((g (f b).1).1, (f b).2 || (g (f b).1).2) := by
  intro s hs
  obtain ⟨hsuffix, v, heq⟩ := hm s hs
  obtain ⟨hsuffix', w, heq'⟩ := hk v _ (hs.moved)
  rw [AmlState.rest_moved hsuffix] at hsuffix' heq'
  refine ⟨hsuffix'.trans hsuffix, w, ?_⟩
  rw [bind_run heq, heq', AmlState.moved_moved]

lemma Moves.congr {f g : List UInt8 → List UInt8 × Bool} (hm : Moves m f) (h : ∀ b, f b = g b) :
    Moves m g := by
  obtain rfl : f = g := funext h
  exact hm

lemma Reads.congr {g : List UInt8 → α × List UInt8 × Bool} (hm : Reads m f) (h : ∀ b, f b = g b) :
    Reads m g := by
  obtain rfl : f = g := funext h
  exact hm

/-! ## The parser's own functions -/

lemma reads_peek : Reads peek fun b => (b.headD 0, b, false) := by
  intro s hs
  refine ⟨suffix_refl _, ?_⟩
  simp only [hs.moved_rest, ← AmlState.getD_rest]
  rfl

lemma skip_run {count : Nat} (hs : s.Valid) (hcount : count ≤ s.rest.length) :
    skip count s = .ok ((), s.moved (s.rest.drop count) false) := by
  have hoffset := hs.offset
  have hshort := hs.short
  rw [AmlState.length_rest] at hcount
  have hmod : (s.mOffset + count) % 2 ^ 32 = s.mOffset + count := mod_eq_of_lt (by omega)
  have hlength : s.mCode.length - (s.rest.drop count).length = s.mOffset + count := by
    rw [length_drop, AmlState.length_rest]
    omega
  change ok ((), _) = ok ((), _)
  rw [AmlState.moved, hlength]
  simp only [hmod, Bool.or_false]
  congr 2
  rw [hs.inside, decide_eq_false (by omega)]
  rfl

lemma reads_read : Reads read fun b => (b.headD 0, b.tail, false) := by
  intro s hs
  refine ⟨tail_suffix _, ?_⟩
  have hget : (get : AmlM AmlState) s = .ok (s, s) := rfl
  rw [read, bind_run hget]
  by_cases hend : s.mCode.length ≤ s.mOffset
  · have hnil := AmlState.rest_eq_nil.2 hend
    have hsame : s.moved s.rest.tail false = s := by
      rw [hnil, tail_nil, ← hnil, hs.moved_rest]
    rw [if_pos hend, hsame, hnil]
    rfl
  · have hne : 1 ≤ s.rest.length := by
      rw [AmlState.length_rest]
      omega
    rw [if_neg hend, bind_run (skip_run hs hne), drop_one, AmlState.getD_rest]
    rfl

lemma reads_setInvalid : Reads setInvalid fun b => ((), b, true) := by
  intro s hs
  refine ⟨suffix_refl _, ?_⟩
  have hoffset : s.mCode.length - s.rest.length = s.mOffset := by
    have := hs.offset
    rw [AmlState.length_rest]
    omega
  change ok ((), _) = ok ((), _)
  rw [AmlState.moved, hoffset, Bool.or_true]

lemma reads_reportError : Reads reportError fun b => ((), b, true) := reads_setInvalid

lemma reads_consume {v : UInt8} (hv : v ≠ 0) :
    Reads (consume v) fun b =>
      (decide (b.headD 0 = v), if b.headD 0 = v then b.tail else b, false) := by
  intro s hs
  rw [consume, bind_run (reads_peek s hs).2]
  by_cases hc : s.rest.headD 0 = v
  · have hne : 1 ≤ s.rest.length := by
      cases hrest : s.rest with
      | nil =>
        rw [hrest] at hc
        exact absurd hc.symm hv
      | cons c rest => simp
    simp only [hc, if_true, hs.moved_rest, decide_true]
    refine ⟨tail_suffix _, ?_⟩
    rw [bind_run (skip_run hs hne), drop_one]
    rfl
  · simp only [hc, if_false, decide_false, hs.moved_rest]
    exact ⟨suffix_refl _, rfl⟩

lemma consume_zero (hs : s.Valid) :
    (s.rest = [] ∧ ∃ t, consume 0 s = .ok (true, t) ∧ t.overran = true) ∨
      (∃ rest, s.rest = 0 :: rest ∧ consume 0 s = .ok (true, s.moved rest false)) ∨
      (s.rest ≠ [] ∧ s.rest.headD 0 ≠ 0 ∧ consume 0 s = .ok (false, s)) := by
  have hoffset := hs.offset
  have hshort := hs.short
  have hrun : consume 0 s =
      (if s.rest.headD 0 = 0 then (do skip 1; pure true : AmlM Bool) else pure false) s := by
    rw [consume, bind_run (reads_peek s hs).2, hs.moved_rest]
  rw [hrun]
  cases hrest : s.rest with
  | nil =>
    have hend := AmlState.rest_eq_nil.1 hrest
    have hmod : (s.mOffset + 1) % 2 ^ 32 = s.mOffset + 1 := mod_eq_of_lt (by omega)
    refine .inl ⟨rfl, _, rfl, ?_⟩
    change (s.overran || decide (s.mCode.length < (s.mOffset + 1) % 2 ^ 32)) = true
    rw [hmod, decide_eq_true (by omega), Bool.or_true]
  | cons c rest =>
    have hone : 1 ≤ s.rest.length := by simp [hrest]
    by_cases hc : c = 0
    · subst hc
      refine .inr (.inl ⟨rest, rfl, ?_⟩)
      rw [headD_cons, if_pos rfl, bind_run (skip_run hs hone), hrest]
      rfl
    · refine .inr (.inr ⟨cons_ne_nil _ _, hc, ?_⟩)
      rw [headD_cons, if_neg hc]
      rfl

lemma reads_consumeSeq (seq : List UInt8) :
    Reads (consumeSeq seq) fun b =>
      (seq.isPrefixOf b, if seq.isPrefixOf b then b.drop seq.length else b, false) := by
  intro s hs
  have hoffset := hs.offset
  have hget : (get : AmlM AmlState) s = .ok (s, s) := rfl
  rw [consumeSeq, bind_run hget]
  by_cases hfits : s.mCode.length < s.mOffset + seq.length
  · have hnot : seq.isPrefixOf s.rest = false := by
      rw [Bool.eq_false_iff]
      intro hp
      have hle := ( isPrefixOf_iff_prefix.1 hp).length_le
      rw [AmlState.length_rest] at hle
      omega
    simp only [hnot, Bool.false_eq_true, if_false, if_pos hfits, hs.moved_rest]
    exact ⟨suffix_refl _, rfl⟩
  · have hstarts : (s.mCode.drop s.mOffset).take seq.length = seq ↔ seq.isPrefixOf s.rest = true := by
      rw [ isPrefixOf_iff_prefix, prefix_iff_eq_take, eq_comm]
      rfl
    rw [if_neg hfits]
    by_cases hseq : seq.isPrefixOf s.rest = true
    · simp only [hseq, if_true, if_pos (hstarts.2 hseq)]
      refine ⟨drop_suffix _ _, ?_⟩
      rw [bind_run (skip_run hs ( isPrefixOf_iff_prefix.1 hseq).length_le)]
      rfl
    · have hfalse : seq.isPrefixOf s.rest = false := Bool.eq_false_iff.2 hseq
      simp only [hfalse, Bool.false_eq_true, if_false, hs.moved_rest,
        if_neg fun h => hseq (hstarts.1 h)]
      exact ⟨suffix_refl _, rfl⟩

/-! ## Names -/

lemma moves_getNameChar : Moves getNameChar (afterChars 1) := by
  have hafter : ∀ c, Moves (do
      if ¬ isNameChar c then reportError
      pure c) fun b => (b, !isNameChar c) := by
    intro c
    cases hc : isNameChar c with
    | true => exact moves_pure c
    | false => exact (reads_reportError.bind fun _ => reads_pure c).moves
  refine (reads_read.bind_moves hafter).congr fun b => ?_
  cases b with
  | nil => rfl
  | cons c b => simp [afterChars]

lemma afterChars_add (m n : Nat) (b : List UInt8) :
    ((afterChars n (afterChars m b).1).1, (afterChars m b).2 || (afterChars n (afterChars m b).1).2) =
      afterChars (m + n) b := by
  rw [afterChars, afterChars, afterChars, drop_drop, take_add, any_append]
  refine Prod.ext rfl ?_
  by_cases hm : b.length < m
  · have hmn : b.length < m + n := by omega
    simp [hm, hmn]
  · have hn : (b.length - m < n) = (b.length < m + n) := by
      rw [eq_iff_iff]
      omega
    simp only [length_drop, hm, hn, decide_false, Bool.false_or]
    cases decide (b.length < m + n) <;> simp

lemma moves_chars (n : Nat) {k : UInt8 → AmlM α} (hk : ∀ c, Moves (k c) (afterChars n)) :
    Moves (getNameChar >>= k) (afterChars (n + 1)) := by
  refine (moves_getNameChar.bind hk).congr fun b => ?_
  rw [afterChars_add, Nat.add_comm]

lemma moves_pure_chars (a : α) : Moves (pure a) (afterChars 0) :=
  (moves_pure a).congr fun b => by simp [afterChars]

lemma moves_nameSegBody (dst : AmlName) (lead : UInt8) :
    Moves (nameSegBody dst lead) (afterSeg lead) := by
  have hthree : Moves (do
      let a ← getNameChar
      let b ← getNameChar
      let c ← getNameChar
      pure (dst.add [lead, a, b, c])) (afterChars 3) :=
    moves_chars 2 fun _ => moves_chars 1 fun _ => moves_chars 0 fun _ => moves_pure_chars _
  rw [nameSegBody]
  by_cases hlead : lead = kRootChar
  · rw [if_neg (not_not_intro hlead)]
    refine Moves.congr ?_ fun b => by rw [afterSeg, if_pos hlead]
    exact moves_chars 3 fun _ => moves_chars 2 fun _ => moves_chars 1 fun _ => moves_chars 0 fun _ =>
      moves_pure_chars _
  · rw [if_pos hlead]
    cases hchar : isLeadNameChar lead with
    | true =>
      refine Moves.congr hthree fun b => ?_
      simp [afterSeg, hlead, hchar]
    | false =>
      refine (reads_reportError.bind_moves fun _ => hthree).congr fun b => ?_
      simp [afterSeg, hlead, hchar]

lemma moves_nameSegs (count : Nat) (dst : AmlName) :
    Moves (nameSegs count dst) (afterSegs count) := by
  induction count generalizing dst with
  | zero => exact moves_pure dst
  | succ count ih =>
    have hseg : Moves (nameSeg dst) fun b => afterSeg (b.headD 0) b.tail :=
      (reads_read.bind_moves fun lead => moves_nameSegBody dst lead).congr fun b => by simp
    exact hseg.bind fun dst => ih dst

lemma moves_namePath (dst : AmlName) : Moves (namePath dst) afterPath := by
  have hcases : ∀ it, Moves (if it = kMultiNamePrefix then do
        let count ← read
        nameSegs count.toNat dst
      else if it = kDualNamePrefix then nameSegs 2 dst
      else if it = kNullName then pure dst
      else nameSegBody dst it) fun b =>
        if it = kMultiNamePrefix then afterSegs (b.headD 0).toNat b.tail
        else if it = kDualNamePrefix then afterSegs 2 b
        else if it = kNullName then (b, false)
        else afterSeg it b := by
    intro it
    split
    · exact (reads_read.bind_moves fun count => moves_nameSegs count.toNat dst).congr fun b => by simp
    · split
      · exact moves_nameSegs 2 dst
      · split
        · exact moves_pure dst
        · exact moves_nameSegBody dst it
  exact (reads_read.bind_moves hcases).congr fun b => by simp [afterPath]

lemma dropWhile_prefixes (b : List UInt8) :
    b.dropWhile (· = kPrefixChar) =
      if b.headD 0 = kPrefixChar then b.tail.dropWhile (· = kPrefixChar) else b := by
  cases b with
  | nil => rfl
  | cons c b =>
    rw [dropWhile_cons]
    simp

lemma prefixPathFrom_run (fuel : Nat) (name : AmlName) (hs : s.Valid) (hfuel : s.rest.length ≤ fuel)
    :
    ∃ v, prefixPathFrom fuel name s =
      .ok (v, s.moved (s.rest.dropWhile (· = kPrefixChar)) false) := by
  induction fuel generalizing name s with
  | zero =>
    have hnil : s.rest = [] := length_eq_zero_iff.1 (le_zero.1 hfuel)
    refine ⟨name, ?_⟩
    rw [hnil, dropWhile_nil, ← hnil, hs.moved_rest]
    rfl
  | succ fuel ih =>
    obtain ⟨hsuffix, hrun⟩ := reads_consume (show kPrefixChar ≠ 0 by decide) s hs
    rw [prefixPathFrom, bind_run hrun]
    by_cases hc : s.rest.headD 0 = kPrefixChar
    · simp only [hc, if_true, decide_true] at hsuffix ⊢
      have hlength : s.rest.tail.length ≤ fuel := by
        rw [length_tail]
        omega
      have hrest := @AmlState.rest_moved s _ false hsuffix
      obtain ⟨v, hv⟩ := ih { name with prefixCount := (name.prefixCount + 1) % 2 ^ 8 }
        hs.moved (by rwa [hrest])
      refine ⟨v, ?_⟩
      rw [hv, hrest, AmlState.moved_moved, dropWhile_prefixes s.rest, if_pos hc]
      rfl
    · refine ⟨name, ?_⟩
      rw [dropWhile_prefixes, if_neg hc]
      simp only [hc, if_false, decide_false]
      rfl

lemma moves_prefixPath (name : AmlName) :
    Moves (prefixPath name) fun b => (b.dropWhile (· = kPrefixChar), false) := by
  intro s hs
  have hget : (get : AmlM AmlState) s = .ok (s, s) := rfl
  refine ⟨dropWhile_suffix _, ?_⟩
  rw [prefixPath, bind_run hget]
  exact prefixPathFrom_run _ _ hs (by rw [AmlState.length_rest]; omega)

lemma moves_nameString : Moves nameString afterName := by
  intro s hs
  rw [nameString, bind_run (reads_peek s hs).2, hs.moved_rest, afterName]
  by_cases hroot : s.rest.headD 0 = kRootChar
  · have hne : 1 ≤ s.rest.length := by
      cases hrest : s.rest with
      | nil =>
        rw [hrest] at hroot
        exact absurd hroot (by decide)
      | cons c rest => simp
    have htail : (s.moved s.rest.tail false).rest = s.rest.tail :=
      AmlState.rest_moved (tail_suffix _)
    simp only [hroot, if_true]
    rw [bind_run (skip_run hs hne), drop_one]
    obtain ⟨hsuffix, v, hv⟩ := (moves_namePath { useroot := true }).bind
      (fun name => moves_pure (AmlValue.name name)) (s.moved s.rest.tail false) hs.moved
    rw [htail] at hsuffix hv
    refine ⟨hsuffix.trans (tail_suffix _), v, ?_⟩
    simpa [AmlState.moved_moved] using hv
  · have hrest : Moves (do
        let name ← prefixPath {}
        let name ← namePath name
        pure (AmlValue.name name) : AmlM AmlValue) fun b =>
          afterPath (b.dropWhile (· = kPrefixChar)) :=
      ((moves_prefixPath {}).bind fun name => (moves_namePath name).bind fun name =>
        moves_pure (AmlValue.name name)).congr fun b => by simp
    simp only [hroot, if_false]
    exact hrest s hs

/-! ## Data -/

lemma moves_dataBytes (count : Nat) : Moves (dataBytes count) fun b => (b.drop count, false) := by
  induction count with
  | zero => exact moves_pure 0
  | succ count ih =>
    refine (reads_read.bind_moves fun c => ih.bind fun rest =>
      moves_pure (c.toNat + 256 * rest)).congr fun b => ?_
    simp

lemma reads_pkgLengthFrom (count i value : Nat) :
    Reads (pkgLengthFrom count i value) fun b =>
      ((lengthFrom count i value b).1, (lengthFrom count i value b).2, false) := by
  induction count generalizing i value with
  | zero => exact reads_pure value
  | succ count ih =>
    exact (reads_read.bind fun c => ih (i + 1) (value ||| c.toNat <<< ((i + 1) * 8 - 4))).congr
      fun b => by simp [lengthFrom]

lemma reads_pkgLength :
    Reads pkgLength fun b => ((lengthOf b).1, (lengthOf b).2, false) := by
  have hcases : ∀ lead : UInt8, Reads (if (lead &&& 0b11000000) >>> 6 ≠ 0 then
        pkgLengthFrom ((lead &&& 0b11000000) >>> 6).toNat 0 (lead &&& 0b00001111).toNat
      else pure (lead &&& 0b00111111).toNat) fun b =>
        if (lead &&& 0b11000000) >>> 6 ≠ 0 then
          ((lengthFrom ((lead &&& 0b11000000) >>> 6).toNat 0 (lead &&& 0b00001111).toNat b).1,
            (lengthFrom ((lead &&& 0b11000000) >>> 6).toNat 0 (lead &&& 0b00001111).toNat b).2,
            false)
        else ((lead &&& 0b00111111).toNat, b, false) := by
    intro lead
    split
    · exact reads_pkgLengthFrom _ _ _
    · exact reads_pure _
  refine (reads_read.bind hcases).congr fun b => ?_
  rw [lengthOf]
  split <;> rfl

lemma lengthFrom_lt (count i value : Nat) (b : List UInt8) (hvalue : value < 2 ^ (4 + i * 8)) :
    (lengthFrom count i value b).1 < 2 ^ (4 + (i + count) * 8) := by
  induction count generalizing i value b with
  | zero => simpa [lengthFrom] using hvalue
  | succ count ih =>
    have hbyte : (b.headD 0).toNat <<< ((i + 1) * 8 - 4) < 2 ^ (4 + (i + 1) * 8) := by
      have hc := (b.headD 0).toNat_lt
      have hshift : (i + 1) * 8 - 4 + 8 = 4 + (i + 1) * 8 := by omega
      rw [shiftLeft_eq, ← hshift, Nat.pow_add, Nat.mul_comm]
      exact Nat.mul_lt_mul_of_pos_left hc (Nat.two_pow_pos _)
    have hold : value < 2 ^ (4 + (i + 1) * 8) :=
      Nat.lt_of_lt_of_le hvalue (Nat.pow_le_pow_right (by decide) (by omega))
    have hnext := ih (i + 1) _ b.tail (or_lt_two_pow hold hbyte)
    rwa [Nat.add_assoc, Nat.add_comm 1 count] at hnext

lemma lengthOf_lt (b : List UInt8) : (lengthOf b).1 < 2 ^ 28 := by
  have hmask : ∀ mask : UInt8, (b.headD 0 &&& mask).toNat ≤ mask.toNat := by
    intro mask
    rw [UInt8.toNat_and]
    exact and_le_right
  rw [lengthOf]
  split
  · have hcount : ((b.headD 0 &&& 0b11000000) >>> 6).toNat ≤ 3 := by
      have hhigh := hmask 0b11000000
      have hvalue : (0b11000000 : UInt8).toNat = 192 := rfl
      have hshift : (6 : UInt8).toNat % 8 = 6 := rfl
      rw [UInt8.toNat_shiftRight, hshift, shiftRight_eq_div_pow]
      omega
    have hlead : (b.headD 0 &&& 0b00001111).toNat < 2 ^ (4 + 0 * 8) :=
      Nat.lt_succ_of_le (hmask 0b00001111)
    refine Nat.lt_of_lt_of_le (lengthFrom_lt _ _ _ _ hlead) (Nat.pow_le_pow_right (by decide) ?_)
    omega
  · have hsmall : (b.headD 0 &&& 0b00111111).toNat ≤ 63 := hmask 0b00111111
    exact Nat.lt_of_le_of_lt hsmall (by decide)

lemma dropWhile_text (b : List UInt8) :
    b.dropWhile (· ≠ 0) = if b.headD 0 ≠ 0 then b.tail.dropWhile (· ≠ 0) else b := by
  cases b with
  | nil => rfl
  | cons c b =>
    rw [dropWhile_cons]
    simp

lemma stringFrom_run (fuel : Nat) (hs : s.Valid) (hfuel : s.rest.length ≤ fuel) :
    stringFrom fuel s = .ok ((), s.moved (s.rest.dropWhile (· ≠ 0)) false) := by
  induction fuel generalizing s with
  | zero =>
    have hnil : s.rest = [] := length_eq_zero_iff.1 (le_zero.1 hfuel)
    rw [hnil, dropWhile_nil, ← hnil, hs.moved_rest]
    rfl
  | succ fuel ih =>
    rw [stringFrom, bind_run (reads_peek s hs).2, hs.moved_rest, dropWhile_text]
    by_cases hc : s.rest.headD 0 = 0
    · simp only [hc, ne_eq, not_true_eq_false, if_false, hs.moved_rest]
      rfl
    · have hne : 1 ≤ s.rest.length := by
        cases hrest : s.rest with
        | nil =>
          rw [hrest] at hc
          exact absurd rfl hc
        | cons c rest => simp
      have htail : (s.moved s.rest.tail false).rest = s.rest.tail :=
        AmlState.rest_moved (tail_suffix _)
      simp only [hc, ne_eq, not_false_eq_true, if_true]
      rw [bind_run (skip_run hs hne), drop_one, ih hs.moved, htail, AmlState.moved_moved]
      · rfl
      · rw [htail, length_tail]
        omega

lemma stringData_run (hs : s.Valid) :
    (∃ v t, stringData s = .ok (v, t) ∧ t.overran = true ∧ s.rest.dropWhile (· ≠ 0) = []) ∨
      ∃ v rest, s.rest.dropWhile (· ≠ 0) = 0 :: rest ∧ rest <:+ s.rest ∧
        stringData s = .ok (v, s.moved rest false) := by
  have hget : (get : AmlM AmlState) s = .ok (s, s) := rfl
  have hloop := stringFrom_run s.mCode.length hs (by rw [AmlState.length_rest]; omega)
  have hsuffix : s.rest.dropWhile (· ≠ 0) <:+ s.rest := dropWhile_suffix _
  have hrest := @AmlState.rest_moved s _ false hsuffix
  have hoffset : ∀ t, offset t = .ok (t.mOffset, t) := fun _ => rfl
  rw [stringData, bind_run hget, bind_run hloop, bind_run (hoffset _)]
  rcases consume_zero hs.moved with
    ⟨hnil, t, hrun, hover⟩ | ⟨rest, hcons, hrun⟩ | ⟨hne, hzero, -⟩
  · rw [hrest] at hnil
    rw [bind_run hrun]
    exact .inl ⟨_, t, rfl, hover, hnil⟩
  · rw [hrest] at hcons
    rw [bind_run hrun, AmlState.moved_moved]
    have htail : rest <:+ s.rest := by
      refine IsSuffix.trans ?_ hsuffix
      rw [hcons]
      exact suffix_cons _ _
    exact .inr ⟨_, rest, hcons, htail, rfl⟩
  · -- the loop stops at a zero or at the end
    rw [hrest] at hne hzero
    have hhead := head?_dropWhile_not (fun c : UInt8 => decide (c ≠ 0)) s.rest
    cases hdrop : s.rest.dropWhile (· ≠ 0) with
    | nil => exact absurd hdrop hne
    | cons c rest =>
      rw [hdrop] at hhead hzero
      exact absurd (by simpa using hhead) hzero

/-! ## Choices -/

lemma reads_choose (list : List Choice) :
    Reads (choose list) fun b => match select list b with
      | some (p, rest) => (some p, rest, false)
      | none => (none, b, false) := by
  induction list with
  | nil => exact reads_pure none
  | cons choice list ih =>
    cases choice with
    | op seq p =>
      have hcases : ∀ fits : Bool, Reads (if fits then pure (some p) else choose list) fun b =>
          if fits then (some p, b, false) else match select list b with
            | some (p, rest) => (some p, rest, false)
            | none => (none, b, false) := by
        intro fits
        cases fits with
        | true => exact reads_pure (some p)
        | false => exact ih
      refine ((reads_consumeSeq seq).bind hcases).congr fun b => ?_
      rw [select]
      by_cases hseq : seq.isPrefixOf b = true
      · simp [hseq]
      · simp [hseq]
    | name p =>
      have hcases : ∀ c : UInt8, Reads (if isNameStart c then pure (some p) else choose list)
          fun b => if isNameStart c then (some p, b, false) else match select list b with
            | some (p, rest) => (some p, rest, false)
            | none => (none, b, false) := by
        intro c
        split
        · exact reads_pure (some p)
        · exact ih
      refine (reads_peek.bind hcases).congr fun b => ?_
      rw [select]
      by_cases hstart : isNameStart (b.headD 0) = true
      · simp only [hstart, if_true, Bool.or_false]
      · simp only [if_neg hstart, Bool.false_or]

end Aml
end BezOS
