import Mathlib.Data.UInt
import Mathlib.Logic.Function.Basic
import Mathlib.Tactic.Common
import Mathlib.Tactic.IntervalCases

/-!
# Texts of UUIDs

The encoder and the parsers of `uuid.cpp`. A text is a buffer with a character at every offset; how
much of it a function looks at is up to the function.
-/

namespace BezOS

open Function Nat

@[ext] structure Uuid where
  octets : Fin 16 → UInt8

namespace Uuid

/-- `uuid::nil`, and room behind it that no parser writes to. -/
def nil : Nat → UInt8 := fun _ => 0

/-- `result = tmp`. -/
def ofTmp (tmp : Nat → UInt8) : Uuid := ⟨fun k => tmp k⟩

/-- The table `kHex` of `strfuid`. -/
def kHex (n : Nat) : UInt8 :=
  [48, 49, 50, 51, 52, 53, 54, 55, 56, 57, 97, 98, 99, 100, 101, 102].getD n 0

/-- `writeOctets`: the loop from `i` on, for the octets left. -/
def writeOctets (u : Uuid) (o : Nat) : Nat → Nat → (Nat → UInt8) → Nat → UInt8
  | 0, _, dst => dst
  | left + 1, i, dst =>
      let octet := if h : i < 16 then u.octets ⟨i, h⟩ else 0
      let dst := update dst (i * 2 + o + 0) (kHex (octet.toNat >>> 4))
      let dst := update dst (i * 2 + o + 1) (kHex (octet.toNat &&& 0x0F))
      writeOctets u o left (i + 1) dst

def strfuid (dst : Nat → UInt8) (u : Uuid) : Nat → UInt8 :=
  let dst := writeOctets u 0 4 0 dst
  let dst := update dst 8 45
  let dst := writeOctets u 1 2 4 dst
  let dst := update dst 13 45
  let dst := writeOctets u 2 2 6 dst
  let dst := update dst 18 45
  let dst := writeOctets u 3 2 8 dst
  let dst := update dst 23 45
  writeOctets u 4 6 10 dst

def isHex (c : UInt8) : Bool :=
  (c ≥ 48 && c ≤ 57) || (c ≥ 97 && c ≤ 102) || (c ≥ 65 && c ≤ 70)

def fromHex (c : UInt8) : Nat :=
  if c ≥ 48 ∧ c ≤ 57 then c.toNat - 48
  else if c ≥ 97 ∧ c ≤ 102 then c.toNat - 97 + 10
  else if c ≥ 65 ∧ c ≤ 70 then c.toNat - 65 + 10
  else 0

/-- `readOctets(str + s, n, tmp.octets + d)`: the loop from `i` on, for the octets left. -/
def readOctets (str : Nat → UInt8) (s d : Nat) : Nat → Nat → (Nat → UInt8) → Option (Nat → UInt8)
  | 0, _, tmp => some tmp
  | left + 1, i, tmp =>
      let c0 := str (s + (i * 2 + 0))
      let c1 := str (s + (i * 2 + 1))
      if !isHex c0 || !isHex c1 then none
      else
        let octet := UInt8.ofNat (fromHex c0 <<< 4 ||| fromHex c1)
        readOctets str s d left (i + 1) (update tmp (d + i) octet)

/-- What `parse` reads before it sets the result. -/
def parseTmp (str : Nat → UInt8) : Option (Nat → UInt8) := do
  let tmp ← readOctets str 0 0 4 0 nil
  if str 8 ≠ 45 then none else
  let tmp ← readOctets str 9 4 2 0 tmp
  if str 13 ≠ 45 then none else
  let tmp ← readOctets str 14 6 2 0 tmp
  if str 18 ≠ 45 then none else
  let tmp ← readOctets str 19 8 2 0 tmp
  if str 23 ≠ 45 then none else
  readOctets str 24 10 6 0 tmp

/-- The result of a parser that has failed, or has read the octets. -/
def setResult (result : Uuid) : Option (Nat → UInt8) → Bool × Uuid
  | none => (false, result)
  | some tmp => (true, ofTmp tmp)

def parse (str : Nat → UInt8) (result : Uuid) : Bool × Uuid := setResult result (parseTmp str)

def parseMicrosoft (str : Nat → UInt8) (result : Uuid) : Bool × Uuid :=
  if str 0 ≠ 123 then (false, result)
  else if str 37 ≠ 125 then (false, result)
  else parse (fun p => str (p + 1)) result

def parseHex (str : Nat → UInt8) (result : Uuid) : Bool × Uuid :=
  setResult result (readOctets str 0 0 16 0 nil)

def parseAny (str : Nat → UInt8) (result : Uuid) : Bool × Uuid :=
  if str 0 = 123 ∧ str 37 = 125 then parseMicrosoft str result
  else if str 8 = 45 then parse str result
  else parseHex str result

/-!
## UUIDs and their texts

The encoder and the parsers place the digits alike: a text that is written is read as the UUID it
was written for, and a text that is read is written again in lower case. The three formats exclude
each other, so that `parseAny` has one parser to choose.
-/

variable {u r : Uuid} {str dst tmp tmp' : Nat → UInt8} {pos : Nat → Nat} {c c0 c1 : UInt8}
  {s d n i k p left : Nat}

/-! ## Digits -/

def lower (c : UInt8) : UInt8 := if c ≥ 65 ∧ c ≤ 90 then c + 32 else c

lemma isHex_kHex (h : n < 16) : isHex (kHex n) = true := by
  revert n
  decide

lemma fromHex_kHex (h : n < 16) : fromHex (kHex n) = n := by
  revert n
  decide

lemma kHex_fromHex (h : isHex c = true) : kHex (fromHex c) = lower c := by
  have hall : ∀ n < 256, isHex (UInt8.ofNat n) = true →
      kHex (fromHex (UInt8.ofNat n)) = lower (UInt8.ofNat n) := by
    decide +kernel
  have hc := hall c.toNat c.toNat_lt
  rw [UInt8.ofNat_toNat] at hc
  exact hc h

lemma fromHex_lt (c : UInt8) : fromHex c < 16 := by
  have hall : ∀ n < 256, fromHex (UInt8.ofNat n) < 16 := by decide +kernel
  have hc := hall c.toNat c.toNat_lt
  rwa [UInt8.ofNat_toNat] at hc

lemma not_isHex_hyphen : isHex 45 = false := by decide

lemma not_isHex_brace : isHex 123 = false := by decide

def octet (c0 c1 : UInt8) : UInt8 := UInt8.ofNat (fromHex c0 <<< 4 ||| fromHex c1)

lemma toNat_octet (c0 c1 : UInt8) : (octet c0 c1).toNat = fromHex c0 * 16 + fromHex c1 := by
  have h0 := fromHex_lt c0
  have h1 := fromHex_lt c1
  rw [octet, ← shiftLeft_add_eq_or_of_lt h1, shiftLeft_eq, UInt8.toNat_ofNat']
  omega

lemma octet_high (c0 c1 : UInt8) : (octet c0 c1).toNat >>> 4 = fromHex c0 := by
  have h1 := fromHex_lt c1
  rw [toNat_octet, shiftRight_eq_div_pow]
  omega

lemma octet_low (c0 c1 : UInt8) : (octet c0 c1).toNat &&& 0x0F = fromHex c1 := by
  have h1 := fromHex_lt c1
  have hmask : ∀ n : Nat, n &&& 0x0F = n % 16 := fun n => Nat.and_two_pow_sub_one_eq_mod n 4
  rw [hmask, toNat_octet]
  omega

lemma octet_digits (o : UInt8) : octet (kHex (o.toNat >>> 4)) (kHex (o.toNat &&& 0x0F)) = o := by
  have ho := o.toNat_lt
  have hmask : o.toNat &&& 0x0F = o.toNat % 16 := Nat.and_two_pow_sub_one_eq_mod o.toNat 4
  have hhigh : o.toNat >>> 4 = o.toNat / 16 := shiftRight_eq_div_pow _ _
  rw [← UInt8.toNat_inj, toNat_octet, hmask, hhigh, fromHex_kHex (by omega),
    fromHex_kHex (by omega)]
  omega

/-! ## Where the digits stand -/

def place (k : Nat) : Nat :=
  2 * k + if k < 4 then 0 else if k < 6 then 1 else if k < 8 then 2 else if k < 10 then 3 else 4

def IsHyphen (p : Nat) : Prop := p = 8 ∨ p = 13 ∨ p = 18 ∨ p = 23
  deriving Decidable

lemma place_or_hyphen : ∀ p < 36, IsHyphen p ∨ ∃ k < 16, p = place k ∨ p = place k + 1 := by
  decide

lemma place_lt : ∀ k < 16, place k + 1 < 36 ∧ ¬ IsHyphen (place k) ∧ ¬ IsHyphen (place k + 1) := by
  decide

/-- Hyphens where they belong, and hexadecimal digits elsewhere. -/
def Hyphenated (str : Nat → UInt8) : Prop :=
  ∀ p < 36, if IsHyphen p then str p = 45 else isHex (str p) = true

def RawHex (str : Nat → UInt8) : Prop := ∀ p < 32, isHex (str p) = true

lemma hyphenated_iff : Hyphenated str ↔
    (str 8 = 45 ∧ str 13 = 45 ∧ str 18 = 45 ∧ str 23 = 45) ∧
      ∀ k < 16, isHex (str (place k)) = true ∧ isHex (str (place k + 1)) = true := by
  constructor
  · intro h
    refine ⟨⟨h 8 (by decide), h 13 (by decide), h 18 (by decide), h 23 (by decide)⟩, fun k hk => ?_⟩
    obtain ⟨hlt, hfirst, hsecond⟩ := place_lt k hk
    have h0 := h (place k) (by omega)
    have h1 := h (place k + 1) hlt
    rw [if_neg hfirst] at h0
    rw [if_neg hsecond] at h1
    exact ⟨h0, h1⟩
  · rintro ⟨⟨h8, h13, h18, h23⟩, hdigits⟩ p hp
    split
    · rename_i hhyphen
      rcases hhyphen with rfl | rfl | rfl | rfl
      · exact h8
      · exact h13
      · exact h18
      · exact h23
    · rename_i hdigit
      rcases place_or_hyphen p hp with h | ⟨k, hk, rfl | rfl⟩
      · exact absurd h hdigit
      · exact (hdigits k hk).1
      · exact (hdigits k hk).2

lemma strfuid_place (dst : Nat → UInt8) (u : Uuid) (k : Nat) (h : k < 16) :
    strfuid dst u (place k) = kHex ((u.octets ⟨k, h⟩).toNat >>> 4) := by
  interval_cases k <;> rfl

lemma strfuid_place_succ (dst : Nat → UInt8) (u : Uuid) (k : Nat) (h : k < 16) :
    strfuid dst u (place k + 1) = kHex ((u.octets ⟨k, h⟩).toNat &&& 0x0F) := by
  interval_cases k <;> rfl

lemma strfuid_hyphen (dst : Nat → UInt8) (u : Uuid) (h : IsHyphen p) : strfuid dst u p = 45 := by
  rcases h with rfl | rfl | rfl | rfl <;> rfl

/-! ## Reading octets -/

lemma readOctets_cons (str : Nat → UInt8) (s d left i : Nat) (tmp : Nat → UInt8) :
    readOctets str s d (left + 1) i tmp =
      if isHex (str (s + i * 2)) = true ∧ isHex (str (s + i * 2 + 1)) = true then
        readOctets str s d left (i + 1)
          (update tmp (d + i) (octet (str (s + i * 2)) (str (s + i * 2 + 1))))
      else none := by
  rw [readOctets]
  cases isHex (str (s + i * 2)) <;> cases isHex (str (s + i * 2 + 1)) <;> rfl

lemma readOctets_eq_some_iff (str : Nat → UInt8) (s d left : Nat) : ∀ (i : Nat)
    (tmp tmp' : Nat → UInt8), readOctets str s d left i tmp = some tmp' ↔
      (∀ j, i ≤ j → j < i + left →
        isHex (str (s + j * 2)) = true ∧ isHex (str (s + j * 2 + 1)) = true ∧
          tmp' (d + j) = octet (str (s + j * 2)) (str (s + j * 2 + 1))) ∧
      ∀ p, (p < d + i ∨ d + i + left ≤ p) → tmp' p = tmp p := by
  induction left with
  | zero =>
    intro i tmp tmp'
    rw [readOctets, Option.some.injEq]
    constructor
    · rintro rfl
      exact ⟨fun j hj hj' => by omega, fun p _ => rfl⟩
    · rintro ⟨-, hkeep⟩
      exact funext fun p => (hkeep p (by omega)).symm
  | succ left ih =>
    intro i tmp tmp'
    rw [readOctets_cons]
    by_cases hhex : isHex (str (s + i * 2)) = true ∧ isHex (str (s + i * 2 + 1)) = true
    · rw [if_pos hhex, ih]
      constructor
      · rintro ⟨hread, hkeep⟩
        refine ⟨fun j hj hj' => ?_, fun p hp => ?_⟩
        · rcases Nat.eq_or_lt_of_le hj with rfl | hlt
          · refine ⟨hhex.1, hhex.2, ?_⟩
            rw [hkeep _ (.inl (by omega)), update_self]
          · exact hread j hlt (by omega)
        · rw [hkeep p (by omega), update_of_ne (by omega)]
      · rintro ⟨hread, hkeep⟩
        refine ⟨fun j hj hj' => hread j (by omega) (by omega), fun p hp => ?_⟩
        by_cases heq : p = d + i
        · rw [heq, update_self]
          exact (hread i (Nat.le_refl i) (by omega)).2.2
        · rw [update_of_ne heq, hkeep p (by omega)]
    · rw [if_neg hhex]
      refine iff_of_false nofun fun h => hhex ?_
      obtain ⟨h0, h1, -⟩ := h.1 i (Nat.le_refl i) (by omega)
      exact ⟨h0, h1⟩

/-- The octets in front of `n` have been read from where they stand. -/
def ReadTo (str : Nat → UInt8) (pos : Nat → Nat) (n : Nat) (tmp : Nat → UInt8) : Prop :=
  ∀ k < n, isHex (str (pos k)) = true ∧ isHex (str (pos k + 1)) = true ∧
    tmp k = octet (str (pos k)) (str (pos k + 1))

lemma readTo_of_readOctets (hpos : ∀ j < n, pos (d + j) = s + j * 2)
    (h : readOctets str s d n 0 tmp = some tmp') (hread : ReadTo str pos d tmp) :
    ReadTo str pos (d + n) tmp' := by
  obtain ⟨hoctets, hkeep⟩ := (readOctets_eq_some_iff str s d n 0 tmp tmp').1 h
  intro k hk
  rcases Nat.lt_or_ge k d with hlt | hge
  · obtain ⟨h0, h1, hvalue⟩ := hread k hlt
    exact ⟨h0, h1, (hkeep k (.inl (by omega))).trans hvalue⟩
  · obtain ⟨j, rfl⟩ := Nat.exists_eq_add_of_le hge
    rw [hpos j (by omega)]
    exact hoctets j (Nat.zero_le j) (by omega)

lemma exists_readOctets (hpos : ∀ j < n, pos (d + j) = s + j * 2)
    (hhex : ∀ k < d + n, isHex (str (pos k)) = true ∧ isHex (str (pos k + 1)) = true)
    (tmp : Nat → UInt8) : ∃ tmp', readOctets str s d n 0 tmp = some tmp' := by
  refine ⟨fun p => if d ≤ p ∧ p < d + n then
    octet (str (s + (p - d) * 2)) (str (s + (p - d) * 2 + 1)) else tmp p,
    (readOctets_eq_some_iff str s d n 0 tmp _).2 ⟨fun j _ hj => ?_, fun p hp => ?_⟩⟩
  · obtain ⟨h0, h1⟩ := hhex (d + j) (by omega)
    rw [hpos j (by omega)] at h0 h1
    refine ⟨h0, h1, ?_⟩
    rw [if_pos (by omega), Nat.add_sub_cancel_left]
  · rw [if_neg (by omega)]

/-! ## The parsers -/

def atPlaces (str : Nat → UInt8) (pos : Nat → Nat) : Uuid :=
  ⟨fun k => octet (str (pos k)) (str (pos k + 1))⟩

lemma ofTmp_of_readTo (h : ReadTo str pos 16 tmp) : ofTmp tmp = atPlaces str pos :=
  Uuid.ext (funext fun k => (h k k.isLt).2.2)

lemma parseTmp_eq_some_iff : parseTmp str = some tmp ↔
    ∃ t1, readOctets str 0 0 4 0 nil = some t1 ∧ str 8 = 45 ∧
      ∃ t2, readOctets str 9 4 2 0 t1 = some t2 ∧ str 13 = 45 ∧
      ∃ t3, readOctets str 14 6 2 0 t2 = some t3 ∧ str 18 = 45 ∧
      ∃ t4, readOctets str 19 8 2 0 t3 = some t4 ∧ str 23 = 45 ∧
        readOctets str 24 10 6 0 t4 = some tmp := by
  have hguard : ∀ (q : Nat) (rest : Option (Nat → UInt8)),
      (if str q ≠ 45 then none else rest) = some tmp ↔ str q = 45 ∧ rest = some tmp := by
    intro q rest
    by_cases hq : str q = 45
    · rw [if_neg (not_not.2 hq)]
      exact (and_iff_right hq).symm
    · rw [if_pos hq]
      exact iff_of_false nofun fun h => hq h.1
  rw [parseTmp]
  simp only [Option.bind_eq_bind, Option.bind_eq_some_iff, hguard]

lemma readTo_zero (str : Nat → UInt8) (pos : Nat → Nat) (tmp : Nat → UInt8) :
    ReadTo str pos 0 tmp := fun k hk => absurd hk (Nat.not_lt_zero k)

/-- What a parser does with a text of its shape, and with any other. -/
def Outcome (shape : Prop) (v r : Uuid) (result : Bool × Uuid) : Prop :=
  (shape ∧ result = (true, v)) ∨ (¬ shape ∧ result = (false, r))

namespace Outcome

variable {shape : Prop} {v w : Uuid} {result : Bool × Uuid}

section

variable (h : Outcome shape v r result)

include h

lemma accepts_iff : result.1 = true ↔ shape := by
  rcases h with ⟨hshape, rfl⟩ | ⟨hshape, rfl⟩
  · exact iff_of_true rfl hshape
  · exact iff_of_false nofun hshape

lemma unchanged (hfail : result.1 = false) : result.2 = r := by
  rcases h with ⟨-, rfl⟩ | ⟨-, rfl⟩
  · exact absurd hfail nofun
  · rfl

lemma value (hshape : shape) : result = (true, v) :=
  h.elim And.right fun hnot => absurd hshape hnot.1

lemma shape_of_eq (heq : result = (true, w)) : shape :=
  h.accepts_iff.1 (congrArg Prod.fst heq)

end

end Outcome

lemma parse_outcome (str : Nat → UInt8) (r : Uuid) :
    Outcome (Hyphenated str) (atPlaces str place) r (parse str r) := by
  have hpos1 : ∀ j < 4, place (0 + j) = 0 + j * 2 := by decide
  have hpos2 : ∀ j < 2, place (4 + j) = 9 + j * 2 := by decide
  have hpos3 : ∀ j < 2, place (6 + j) = 14 + j * 2 := by decide
  have hpos4 : ∀ j < 2, place (8 + j) = 19 + j * 2 := by decide
  have hpos5 : ∀ j < 6, place (10 + j) = 24 + j * 2 := by decide
  have hread : ∀ tmp, parseTmp str = some tmp → ReadTo str place 16 tmp ∧
      (str 8 = 45 ∧ str 13 = 45 ∧ str 18 = 45 ∧ str 23 = 45) := by
    intro tmp htmp
    obtain ⟨t1, h₁, h8, t2, h₂, h13, t3, h₃, h18, t4, h4, h23, h5⟩ := parseTmp_eq_some_iff.1 htmp
    have hread1 := readTo_of_readOctets hpos1 h₁ (readTo_zero str place nil)
    have hread2 := readTo_of_readOctets hpos2 h₂ hread1
    have hread3 := readTo_of_readOctets hpos3 h₃ hread2
    have hread4 := readTo_of_readOctets hpos4 h4 hread3
    exact ⟨readTo_of_readOctets hpos5 h5 hread4, h8, h13, h18, h23⟩
  by_cases hshape : Hyphenated str
  · refine .inl ⟨hshape, ?_⟩
    obtain ⟨⟨h8, h13, h18, h23⟩, hhex⟩ := hyphenated_iff.1 hshape
    obtain ⟨t1, h₁⟩ := exists_readOctets hpos1 (fun k hk => hhex k (by omega)) nil
    obtain ⟨t2, h₂⟩ := exists_readOctets hpos2 (fun k hk => hhex k (by omega)) t1
    obtain ⟨t3, h₃⟩ := exists_readOctets hpos3 (fun k hk => hhex k (by omega)) t2
    obtain ⟨t4, h4⟩ := exists_readOctets hpos4 (fun k hk => hhex k (by omega)) t3
    obtain ⟨t5, h5⟩ := exists_readOctets hpos5 (fun k hk => hhex k (by omega)) t4
    have htmp : parseTmp str = some t5 := parseTmp_eq_some_iff.2
      ⟨t1, h₁, h8, t2, h₂, h13, t3, h₃, h18, t4, h4, h23, h5⟩
    rw [parse, htmp, setResult, ofTmp_of_readTo (hread t5 htmp).1]
  · refine .inr ⟨hshape, ?_⟩
    rw [parse]
    cases htmp : parseTmp str with
    | none => rfl
    | some tmp =>
      obtain ⟨hoctets, hhyphens⟩ := hread tmp htmp
      exact absurd (hyphenated_iff.2 ⟨hhyphens, fun k hk =>
        ⟨(hoctets k hk).1, (hoctets k hk).2.1⟩⟩) hshape

lemma rawHex_iff : RawHex str ↔
    ∀ k < 16, isHex (str (k * 2)) = true ∧ isHex (str (k * 2 + 1)) = true := by
  constructor
  · exact fun h k hk => ⟨h _ (by omega), h _ (by omega)⟩
  · intro h p hp
    obtain ⟨h0, h1⟩ := h (p / 2) (by omega)
    rcases mod_two_eq_zero_or_one p with hmod | hmod
    · have heven : p / 2 * 2 = p := by omega
      rwa [heven] at h0
    · have hodd : p / 2 * 2 + 1 = p := by omega
      rwa [hodd] at h1

lemma parseHex_outcome (str : Nat → UInt8) (r : Uuid) :
    Outcome (RawHex str) (atPlaces str fun k => k * 2) r (parseHex str r) := by
  have hpos : ∀ j < 16, (fun k => k * 2) (0 + j) = 0 + j * 2 := by decide
  have hread : ∀ tmp, readOctets str 0 0 16 0 nil = some tmp →
      ReadTo str (fun k => k * 2) 16 tmp := fun tmp htmp =>
    readTo_of_readOctets hpos htmp (readTo_zero str _ nil)
  by_cases hshape : RawHex str
  · refine .inl ⟨hshape, ?_⟩
    obtain ⟨tmp, htmp⟩ := exists_readOctets hpos
      (fun k hk => rawHex_iff.1 hshape k (by omega)) nil
    rw [parseHex, htmp, setResult, ofTmp_of_readTo (hread tmp htmp)]
  · refine .inr ⟨hshape, ?_⟩
    rw [parseHex]
    cases htmp : readOctets str 0 0 16 0 nil with
    | none => rfl
    | some tmp =>
      have hoctets := hread tmp htmp
      exact absurd (rawHex_iff.2 fun k hk => ⟨(hoctets k hk).1, (hoctets k hk).2.1⟩) hshape

def Braced (str : Nat → UInt8) : Prop :=
  str 0 = 123 ∧ str 37 = 125 ∧ Hyphenated fun p => str (p + 1)

lemma parseMicrosoft_outcome (str : Nat → UInt8) (r : Uuid) :
    Outcome (Braced str) (atPlaces (fun p => str (p + 1)) place) r (parseMicrosoft str r) := by
  by_cases h0 : str 0 = 123
  · by_cases h37 : str 37 = 125
    · have heq : parseMicrosoft str r = parse (fun p => str (p + 1)) r := by
        rw [parseMicrosoft, if_neg (not_not.2 h0), if_neg (not_not.2 h37)]
      rw [heq]
      rcases parse_outcome (fun p => str (p + 1)) r with ⟨hshape, hparse⟩ | ⟨hshape, hparse⟩
      · exact .inl ⟨⟨h0, h37, hshape⟩, hparse⟩
      · exact .inr ⟨fun h => hshape h.2.2, hparse⟩
    · refine .inr ⟨fun h => h37 h.2.1, ?_⟩
      rw [parseMicrosoft, if_neg (not_not.2 h0), if_pos h37]
  · exact .inr ⟨fun h => h0 h.1, if_pos h0⟩

/-! ## The formats exclude each other -/

lemma Hyphenated.not_rawHex (h : Hyphenated str) : ¬ RawHex str := by
  intro hraw
  have h8 : str 8 = 45 := h 8 (by decide)
  have hhex := hraw 8 (by decide)
  rw [h8, not_isHex_hyphen] at hhex
  exact absurd hhex nofun

lemma Braced.not_hyphenated (h : Braced str) : ¬ Hyphenated str := by
  intro hhyphenated
  have hhex : isHex (str 0) = true := hhyphenated 0 (by decide)
  rw [h.1, not_isHex_brace] at hhex
  exact absurd hhex nofun

lemma Braced.not_rawHex (h : Braced str) : ¬ RawHex str := by
  intro hraw
  have hhex := hraw 0 (by decide)
  rw [h.1, not_isHex_brace] at hhex
  exact absurd hhex nofun

lemma parseAny_eq (str : Nat → UInt8) (r : Uuid) :
    (Braced str ∧ parseAny str r = parseMicrosoft str r) ∨
      (Hyphenated str ∧ parseAny str r = parse str r) ∨
      (RawHex str ∧ parseAny str r = parseHex str r) ∨
      (¬ Braced str ∧ ¬ Hyphenated str ∧ ¬ RawHex str ∧ parseAny str r = (false, r)) := by
  by_cases hbraces : str 0 = 123 ∧ str 37 = 125
  · have hany : parseAny str r = parseMicrosoft str r := if_pos hbraces
    rcases parseMicrosoft_outcome str r with ⟨hshape, -⟩ | ⟨hshape, hfail⟩
    · exact .inl ⟨hshape, hany⟩
    · have hnot : isHex (str 0) = false := by rw [hbraces.1, not_isHex_brace]
      refine .inr (.inr (.inr ⟨hshape, fun h => ?_, fun h => ?_, hany.trans hfail⟩))
      · exact absurd ((h 0 (by decide)).symm.trans hnot) nofun
      · exact absurd ((h 0 (by decide)).symm.trans hnot) nofun
  · have hshape : ¬ Braced str := fun h => hbraces ⟨h.1, h.2.1⟩
    by_cases h8 : str 8 = 45
    · have hany : parseAny str r = parse str r := by rw [parseAny, if_neg hbraces, if_pos h8]
      rcases parse_outcome str r with ⟨hshape', -⟩ | ⟨hshape', hfail⟩
      · exact .inr (.inl ⟨hshape', hany⟩)
      · refine .inr (.inr (.inr ⟨hshape, hshape', fun h => ?_, hany.trans hfail⟩))
        have hhex := h 8 (by decide)
        rw [h8, not_isHex_hyphen] at hhex
        exact absurd hhex nofun
    · have hany : parseAny str r = parseHex str r := by rw [parseAny, if_neg hbraces, if_neg h8]
      rcases parseHex_outcome str r with ⟨hshape', -⟩ | ⟨hshape', hfail⟩
      · exact .inr (.inr (.inl ⟨hshape', hany⟩))
      · exact .inr (.inr (.inr ⟨hshape, fun h => h8 (h 8 (by decide)), hshape',
          hany.trans hfail⟩))

/-! ## Round trips -/

lemma reads_back (htext : ∀ p < 36, str p = strfuid dst u p) :
    Hyphenated str ∧ atPlaces str place = u := by
  have hdigits : ∀ k (hk : k < 16), str (place k) = kHex ((u.octets ⟨k, hk⟩).toNat >>> 4) ∧
      str (place k + 1) = kHex ((u.octets ⟨k, hk⟩).toNat &&& 0x0F) := by
    intro k hk
    obtain ⟨hlt, -⟩ := place_lt k hk
    exact ⟨(htext _ (by omega)).trans (strfuid_place dst u k hk),
      (htext _ hlt).trans (strfuid_place_succ dst u k hk)⟩
  have hhyphen : ∀ p, IsHyphen p → str p = 45 := fun p hp =>
    (htext p (by rcases hp with rfl | rfl | rfl | rfl <;> decide)).trans (strfuid_hyphen dst u hp)
  refine ⟨hyphenated_iff.2 ⟨⟨hhyphen 8 (by decide), hhyphen 13 (by decide), hhyphen 18 (by decide),
    hhyphen 23 (by decide)⟩, fun k hk => ?_⟩, Uuid.ext (funext fun k => ?_)⟩
  · obtain ⟨h0, h1⟩ := hdigits k hk
    have hoctet := (u.octets ⟨k, hk⟩).toNat_lt
    have hmask := Nat.and_two_pow_sub_one_eq_mod (u.octets ⟨k, hk⟩).toNat 4
    rw [h0, h1]
    exact ⟨isHex_kHex (by omega), isHex_kHex (hmask.trans_lt (mod_lt _ (by decide)))⟩
  · obtain ⟨h0, h1⟩ := hdigits k k.isLt
    have hoctet : (atPlaces str place).octets k = octet (str (place k)) (str (place k + 1)) := rfl
    rw [hoctet, h0, h1]
    exact octet_digits _

lemma writes_lower (hshape : Hyphenated str) (dst : Nat → UInt8) (p : Nat) (hp : p < 36) :
    strfuid dst (atPlaces str place) p = lower (str p) := by
  obtain ⟨-, hhex⟩ := hyphenated_iff.1 hshape
  have hocte : ∀ k (hk : k < 16), (atPlaces str place).octets ⟨k, hk⟩ =
      octet (str (place k)) (str (place k + 1)) := fun k hk => rfl
  by_cases hhyphen : IsHyphen p
  · have hchar := hshape p hp
    rw [if_pos hhyphen] at hchar
    rw [strfuid_hyphen dst _ hhyphen, hchar]
    decide
  · rcases place_or_hyphen p hp with h | ⟨k, hk, rfl | rfl⟩
    · exact absurd h hhyphen
    · rw [strfuid_place dst _ k hk, hocte, octet_high, kHex_fromHex (hhex k hk).1]
    · rw [strfuid_place_succ dst _ k hk, hocte, octet_low, kHex_fromHex (hhex k hk).2]

def braced (str : Nat → UInt8) (p : Nat) : UInt8 :=
  if p = 0 then 123 else if p = 37 then 125 else str (p - 1)

lemma braced_reads_back (dst : Nat → UInt8) (u : Uuid) :
    Braced (braced (strfuid dst u)) ∧
      atPlaces (fun p => braced (strfuid dst u) (p + 1)) place = u := by
  have htext : ∀ p < 36, braced (strfuid dst u) (p + 1) = strfuid dst u p := by
    intro p hp
    have hinside : p + 1 ≠ 37 := by omega
    rw [braced, if_neg (succ_ne_zero p), if_neg hinside]
    rfl
  obtain ⟨hshape, hplaces⟩ := reads_back htext
  exact ⟨⟨rfl, rfl, hshape⟩, hplaces⟩

/-- What is written for a UUID is read as it, plain or in braces; the hyphenated texts are those
that `parse` reads, and they are written again in lower case; a parser that fails leaves the result
alone; and `parseAny` reads what one of the three parsers reads, which is never two of them. -/
theorem uuid_text_round_trip (u r : Uuid) (str dst : Nat → UInt8) :
    parse (strfuid dst u) r = (true, u) ∧
    (parseMicrosoft (braced (strfuid dst u)) r = (true, u) ∧
      parseAny (braced (strfuid dst u)) r = (true, u)) ∧
    ((parse str r).1 = true ↔
      ∀ p < 36, if p = 8 ∨ p = 13 ∨ p = 18 ∨ p = 23 then str p = 45 else isHex (str p) = true) ∧
    ((parse str r).1 = true → ∀ p < 36, strfuid dst (parse str r).2 p = lower (str p)) ∧
    (∀ f ∈ [parse, parseMicrosoft, parseHex, parseAny], (f str r).1 = false → (f str r).2 = r) ∧
    (∀ v, parseAny str r = (true, v) ↔ parseMicrosoft str r = (true, v) ∨
      parse str r = (true, v) ∨ parseHex str r = (true, v)) ∧
    ¬ ((parse str r).1 = true ∧ (parseHex str r).1 = true) ∧
    ¬ ((parseMicrosoft str r).1 = true ∧ ((parse str r).1 = true ∨ (parseHex str r).1 = true)) := by
  have hparse := parse_outcome str r
  have hmicrosoft := parseMicrosoft_outcome str r
  have hhex := parseHex_outcome str r
  have hany := parseAny_eq str r
  refine ⟨?_, ?_, hparse.accepts_iff, fun hok => ?_, fun f hf hfail => ?_, fun v => ?_, ?_, ?_⟩
  · obtain ⟨hshape, hplaces⟩ := reads_back fun p _ => rfl
    rw [(parse_outcome _ r).value hshape, hplaces]
  · obtain ⟨hshape, hplaces⟩ := braced_reads_back dst u
    have heq : parseMicrosoft (braced (strfuid dst u)) r = (true, u) := by
      rw [(parseMicrosoft_outcome _ r).value hshape, hplaces]
    exact ⟨heq, heq⟩
  · have hshape := hparse.accepts_iff.1 hok
    rw [hparse.value hshape]
    exact writes_lower hshape dst
  · simp only [List.mem_cons, List.not_mem_nil, or_false] at hf
    rcases hf with rfl | rfl | rfl | rfl
    · exact hparse.unchanged hfail
    · exact hmicrosoft.unchanged hfail
    · exact hhex.unchanged hfail
    · rcases hany with ⟨-, heq⟩ | ⟨-, heq⟩ | ⟨-, heq⟩ | ⟨-, -, -, heq⟩
      · rw [heq] at hfail ⊢
        exact hmicrosoft.unchanged hfail
      · rw [heq] at hfail ⊢
        exact hparse.unchanged hfail
      · rw [heq] at hfail ⊢
        exact hhex.unchanged hfail
      · rw [heq]
  · rcases hany with ⟨hshape, heq⟩ | ⟨hshape, heq⟩ | ⟨hshape, heq⟩ | ⟨h1, h2, h3, heq⟩
    · rw [heq]
      refine ⟨.inl, fun h => h.elim id fun h => h.elim (fun h => ?_) fun h => ?_⟩
      · exact absurd (hparse.shape_of_eq h) hshape.not_hyphenated
      · exact absurd (hhex.shape_of_eq h) hshape.not_rawHex
    · rw [heq]
      refine ⟨fun h => .inr (.inl h), fun h => h.elim (fun h => ?_) fun h => h.elim id fun h => ?_⟩
      · exact absurd hshape (hmicrosoft.shape_of_eq h).not_hyphenated
      · exact absurd (hhex.shape_of_eq h) hshape.not_rawHex
    · rw [heq]
      refine ⟨fun h => .inr (.inr h), fun h => h.elim (fun h => ?_) fun h => h.elim (fun h => ?_) id⟩
      · exact absurd hshape (hmicrosoft.shape_of_eq h).not_rawHex
      · exact absurd hshape (hparse.shape_of_eq h).not_rawHex
    · rw [heq]
      refine iff_of_false nofun ?_
      rintro (h | h | h)
      · exact h1 (hmicrosoft.shape_of_eq h)
      · exact h2 (hparse.shape_of_eq h)
      · exact h3 (hhex.shape_of_eq h)
  · rintro ⟨h, h'⟩
    exact (hparse.accepts_iff.1 h).not_rawHex (hhex.accepts_iff.1 h')
  · rintro ⟨h, h' | h'⟩
    · exact (hmicrosoft.accepts_iff.1 h).not_hyphenated (hparse.accepts_iff.1 h')
    · exact (hmicrosoft.accepts_iff.1 h).not_rawHex (hhex.accepts_iff.1 h')

end Uuid
end BezOS
