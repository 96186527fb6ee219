import Mathlib.Data.UInt
import Mathlib.Data.Nat.Digits.Lemmas
import Mathlib.Tactic.Common
import Mathlib.Data.List.TakeWhile

/-!
# Formatting integers

`FormatInt` of `util/format.hpp`. The digits are written from the end of the buffer down, so that
the buffer is what has been written behind the pointer and the room in front of it. A write in
front of the buffer has no defined result.
-/

namespace BezOS
namespace Format

open List Nat Option

structure IntegerType where
  signed : Bool
  size : Nat
  size_pos : 0 < size

namespace IntegerType

def Holds (t : IntegerType) (v : Int) : Prop :=
  if t.signed then -(2 ^ (8 * t.size - 1) : Nat) ≤ v ∧ v < (2 ^ (8 * t.size - 1) : Nat)
  else 0 ≤ v ∧ v < (2 ^ (8 * t.size) : Nat)
  deriving Decidable

/-- `(Unsigned<T>)input`. -/
def toUnsigned (t : IntegerType) (v : Int) : Nat := (v % (2 ^ (8 * t.size) : Nat)).toNat

/-- `NumericTraits<T>::kMin`, of a signed type. -/
def kMin (t : IntegerType) : Int := -(2 ^ (8 * t.size - 1) : Nat)

end IntegerType

def kHex (digit : Nat) : UInt8 :=
  [48, 49, 50, 51, 52, 53, 54, 55, 56, 57, 65, 66, 67, 68, 69, 70].getD digit 0

structure Buffer where
  room : Nat
  text : List UInt8
  deriving DecidableEq

/-- `*ptr-- = c`. -/
def Buffer.put (c : UInt8) : Buffer → Option Buffer
  | ⟨0, _⟩ => none
  | ⟨room + 1, text⟩ => some ⟨room, c :: text⟩

/-- `while (value != 0)`: the digits of the value, the last one first. -/
def putDigits (base : Nat) : Nat → Nat → List UInt8 → Option Buffer
  | room, 0, text => some ⟨room, text⟩
  | 0, _ + 1, _ => none
  | room + 1, value + 1, text =>
      putDigits base room ((value + 1) / base) (kHex ((value + 1) % base) :: text)

/-- `while (reamining-- > 0)`. -/
def putFill (fill : UInt8) : Nat → Buffer → Option Buffer
  | 0, buffer => some buffer
  | remaining + 1, buffer => (buffer.put fill).bind (putFill fill remaining)

/-- The digits of the input, in an empty buffer of the given size. -/
def putNumber (size : Nat) (t : IntegerType) (input : Int) (base : Nat) : Option Buffer :=
  if input ≠ 0 then putDigits base size (t.toUnsigned input) []
  else Buffer.put 48 ⟨size, []⟩

/-- `if (fill != '\0')`: `buffer.end() - ptr` is one more than what has been written. -/
def putPadding (negative : Bool) (width : Int) (fill : UInt8) (buffer : Buffer) : Option Buffer :=
  if fill ≠ 0 then
    let width := if negative then width - 1 else width
    let remaining := width - (buffer.text.length + 1) + 1
    putFill fill remaining.toNat buffer
  else some buffer

def putSign (negative : Bool) (buffer : Buffer) : Option Buffer :=
  if negative then buffer.put 45 else some buffer

/-- `FormatInt`, in a buffer of the given size; a fill of 0 asks for no padding. -/
def formatInt (size : Nat) (t : IntegerType) (input : Int) (base : Nat) (width : Int)
    (fill : UInt8) : Option (List UInt8) := do
  let negative := decide (input < 0)
  let buffer ← putNumber size t input base
  let buffer ← putPadding negative width fill buffer
  let buffer ← putSign negative buffer
  some buffer.text

/-! ## Reading numerals -/

def hexValue (c : UInt8) : Option Nat :=
  if 48 ≤ c ∧ c ≤ 57 then some (c.toNat - 48)
  else if 65 ≤ c ∧ c ≤ 70 then some (c.toNat - 55)
  else if 97 ≤ c ∧ c ≤ 102 then some (c.toNat - 87)
  else none

def digitValue (base : Nat) (c : UInt8) : Option Nat := (hexValue c).filter (· < base)

def readDigits (base : Nat) : Nat → List UInt8 → Option Nat
  | n, [] => some n
  | n, c :: text => (digitValue base c).bind fun digit => readDigits base (n * base + digit) text

/-- What is left when the padding is skipped; zeros and other digits are read. -/
def skipFill (base : Nat) (fill : UInt8) (text : List UInt8) : List UInt8 :=
  if (digitValue base fill).isSome then text else text.dropWhile fun c => c == fill

def readNumeral (base : Nat) (fill : UInt8) (text : List UInt8) : Option (Bool × Nat) :=
  match text with
  | 45 :: rest => (readDigits base 0 (skipFill base fill rest)).map (true, ·)
  | rest => (readDigits base 0 (skipFill base fill rest)).map (false, ·)

def unsignedPart : List UInt8 → List UInt8
  | 45 :: rest => rest
  | rest => rest

/-- A text is a numeral of the value, as wide as was asked for, and longer only without leading
zeros. -/
structure Prints (base : Nat) (width : Int) (fill : UInt8) (v : Int) (text : List UInt8) : Prop where
  denotes : readNumeral base fill text = some (decide (v < 0), v.natAbs)
  wide : fill ≠ 0 → width ≤ text.length
  canonical : (fill = 0 ∨ width < text.length) →
    (unsignedPart text).head? = some 48 → unsignedPart text = [48]

/-! ## The condition -/

def numeral (base n : Nat) : List UInt8 :=
  if n = 0 then [48] else (digits base n).reverse.map kHex

def plainLength (base : Nat) (v : Int) : Nat :=
  (numeral base v.natAbs).length + (if v < 0 then 1 else 0)

/-- A fill that can be told from what it pads: no digit but zero, and in front of a number without
a sign no sign. -/
def Neutral (base : Nat) (v : Int) (fill : UInt8) : Prop :=
  (∀ digit, digitValue base fill = some digit → digit = 0) ∧ (0 ≤ v → fill ≠ 45)

/-- The condition: the value is not negative, or is the least of its type; the text has room; and
the padding, if there is any, can be told from the number. -/
structure Printable (size : Nat) (t : IntegerType) (v : Int) (base : Nat) (width : Int)
    (fill : UInt8) : Prop where
  magnitude : 0 ≤ v ∨ v = t.kMin
  room : (if fill = 0 then (plainLength base v : Int) else max width (plainLength base v)) ≤ size
  neutral : fill ≠ 0 → plainLength base v < width → Neutral base v fill

/-!
## What FormatInt prints

The text is the sign, the padding and the numeral of the value as an unsigned one, if the buffer has
room. A negative value is not negated, so that only the least value of a type is printed right.
-/

variable {size base n digit k : Nat} {t : IntegerType} {v width : Int} {fill c : UInt8}
  {text rest : List UInt8} {buffer : Buffer}

/-! ## Numerals -/

lemma hexValue_kHex (h : digit < 16) : hexValue (kHex digit) = some digit := by
  revert digit
  decide

lemma kHex_eq_zero_iff (h : digit < 16) : kHex digit = 48 ↔ digit = 0 := by
  revert digit
  decide

lemma digitValue_kHex (hbase : base ≤ 16) (h : digit < base) :
    digitValue base (kHex digit) = some digit := by
  rw [digitValue, hexValue_kHex (h.trans_le hbase), filter_some, if_pos (decide_eq_true h)]

lemma digitValue_zero (hbase : 1 < base) (hbase' : base ≤ 16) : digitValue base 48 = some 0 := by
  have hzero : digitValue base (kHex 0) = some 0 := digitValue_kHex hbase' (by omega)
  exact hzero

lemma numeral_step (hbase : 1 < base) (hn : 0 < n) :
    digits base n = n % base :: digits base (n / base) := digits_def' hbase hn

lemma readDigits_append (xs ys : List UInt8) (n : Nat) :
    readDigits base n (xs ++ ys) = (readDigits base n xs).bind fun m => readDigits base m ys := by
  induction xs generalizing n with
  | nil => rfl
  | cons c xs ih =>
    rw [cons_append, readDigits, readDigits, bind_assoc]
    exact congrArg _ (funext fun digit => ih _)

lemma readDigits_digits (hbase : 1 < base) (hbase' : base ≤ 16) (n : Nat) : ∀ start,
    readDigits base start ((digits base n).reverse.map kHex) =
      some (start * base ^ (digits base n).length + n) := by
  induction n using Nat.strong_induction_on with
  | _ n ih =>
    intro start
    rcases Nat.eq_zero_or_pos n with rfl | hn
    · rw [digits_zero, reverse_nil, map_nil, length_nil, Nat.pow_zero,
        Nat.mul_one, Nat.add_zero]
      rfl
    · have hlast : readDigits base (start * base ^ (digits base (n / base)).length + n / base)
          [kHex (n % base)] = some ((start * base ^ (digits base (n / base)).length + n / base) *
            base + n % base) := by
        rw [readDigits, digitValue_kHex hbase' (mod_lt n (by omega))]
        rfl
      rw [numeral_step hbase hn, reverse_cons, map_append, readDigits_append,
        ih (n / base) (Nat.div_lt_self hn hbase), bind_some, map_singleton, hlast,
        length_cons, Nat.pow_succ]
      have hsplit := div_add_mod n base
      congr 1
      calc _ = start * (base ^ (digits base (n / base)).length * base) +
            (base * (n / base) + n % base) := by ring
        _ = _ := by rw [hsplit]

lemma readDigits_numeral (hbase : 1 < base) (hbase' : base ≤ 16) (n start : Nat) :
    readDigits base start (numeral base n) = some (start * base ^ (numeral base n).length + n) := by
  rw [numeral]
  split
  · rename_i hn
    rw [hn, readDigits, digitValue_zero hbase hbase', length_singleton, Nat.pow_one]
    rfl
  · rw [readDigits_digits hbase hbase', length_map, length_reverse]

lemma numeral_pos (base n : Nat) : 0 < (numeral base n).length := by
  rw [numeral]
  split
  · exact Nat.one_pos
  · rename_i hn
    rw [length_map, length_reverse]
    exact length_pos_iff.2 (digits_ne_nil_iff_ne_zero.2 hn)

lemma digit_of_mem_numeral (hbase : 1 < base) (hbase' : base ≤ 16) (hc : c ∈ numeral base n) :
    ∃ digit < 16, c = kHex digit ∧ digitValue base c = some digit := by
  rw [numeral] at hc
  split at hc
  · rw [mem_singleton.1 hc]
    exact ⟨0, by decide, rfl, digitValue_zero hbase hbase'⟩
  · obtain ⟨digit, hdigit, rfl⟩ := mem_map.1 hc
    have hlt := digits_lt_base hbase (mem_reverse.1 hdigit)
    exact ⟨digit, hlt.trans_le hbase', rfl, digitValue_kHex hbase' hlt⟩

lemma numeral_canonical (hbase : 1 < base) (hbase' : base ≤ 16)
    (h : (numeral base n).head? = some 48) : numeral base n = [48] := by
  rw [numeral] at h ⊢
  split
  · rfl
  · rename_i hn
    rw [if_neg hn, head?_map, head?_reverse] at h
    have hne := digits_ne_nil_iff_ne_zero (b := base).2 hn
    rw [getLast?_eq_some_getLast hne] at h
    have hzero := (kHex_eq_zero_iff ((digits_lt_base hbase (getLast_mem hne)).trans_le
      hbase')).1 (Option.some.inj h)
    exact absurd hzero (getLast_digit_ne_zero base hn)

/-! ## What is written -/

lemma putDigits_eq (hbase : 1 < base) (room : Nat) : ∀ (value : Nat) (text : List UInt8),
    putDigits base room value text =
      if (digits base value).length ≤ room then
        some ⟨room - (digits base value).length,
          (digits base value).reverse.map kHex ++ text⟩
      else none := by
  induction room with
  | zero =>
    intro value text
    cases value with
    | zero =>
      rw [putDigits, digits_zero]
      rfl
    | succ value =>
      rw [putDigits, numeral_step hbase (succ_pos value)]
      rfl
  | succ room ih =>
    intro value text
    cases value with
    | zero =>
      rw [putDigits, digits_zero]
      rfl
    | succ value =>
      rw [putDigits, ih, numeral_step hbase (succ_pos value), length_cons,
        reverse_cons, map_append, append_assoc]
      by_cases hroom : (digits base ((value + 1) / base)).length ≤ room
      · rw [if_pos hroom, if_pos (Nat.succ_le_succ hroom), Nat.add_sub_add_right]
        rfl
      · rw [if_neg hroom, if_neg fun h => hroom (le_of_succ_le_succ h)]

lemma putFill_eq (fill : UInt8) (count : Nat) : ∀ (room : Nat) (text : List UInt8),
    putFill fill count ⟨room, text⟩ =
      if count ≤ room then some ⟨room - count, replicate count fill ++ text⟩ else none := by
  induction count with
  | zero => exact fun room text => rfl
  | succ count ih =>
    intro room text
    cases room with
    | zero => rfl
    | succ room =>
      rw [putFill, Buffer.put, bind_some, ih, replicate_succ', append_assoc]
      by_cases hroom : count ≤ room
      · rw [if_pos hroom, if_pos (Nat.succ_le_succ hroom), Nat.add_sub_add_right]
        rfl
      · rw [if_neg hroom, if_neg fun h => hroom (le_of_succ_le_succ h)]

/-- What stands for the value among the unsigned ones. -/
def printed (t : IntegerType) (v : Int) : Nat := if v = 0 then 0 else t.toUnsigned v

def padding (base : Nat) (width : Int) (fill : UInt8) (t : IntegerType) (v : Int) : Nat :=
  if fill = 0 then 0
  else (width - (if v < 0 then 1 else 0) - (numeral base (printed t v)).length).toNat

def signText (v : Int) : List UInt8 := if v < 0 then [45] else []

lemma two_pow_bits (t : IntegerType) : 2 ^ (8 * t.size) = 2 * 2 ^ (8 * t.size - 1) := by
  have hbits : 8 * t.size = (8 * t.size - 1) + 1 := by
    have := t.size_pos
    omega
  conv_lhs => rw [hbits]
  exact Nat.pow_succ'

lemma toUnsigned_eq (ht : t.Holds v) :
    (t.toUnsigned v : Int) = if v < 0 then v + (2 ^ (8 * t.size) : Nat) else v := by
  have hpow := two_pow_bits t
  rw [IntegerType.Holds] at ht
  rw [IntegerType.toUnsigned]
  generalize 2 ^ (8 * t.size) = count at *
  generalize 2 ^ (8 * t.size - 1) = half at *
  by_cases hv : v < 0
  · have hmod : v % count = v + count := by
      rw [← Int.add_emod_right]
      refine Int.emod_eq_of_lt ?_ (by omega)
      split at ht <;> omega
    rw [if_pos hv, hmod]
    split at ht <;> omega
  · have hmod : v % count = v := by
      refine Int.emod_eq_of_lt (by omega) ?_
      split at ht <;> omega
    rw [if_neg hv, hmod]
    omega

lemma printed_eq (ht : t.Holds v) :
    (printed t v : Int) = if v < 0 then v + (2 ^ (8 * t.size) : Nat) else v := by
  rw [printed]
  split
  · rename_i hv
    rw [hv]
    rfl
  · exact toUnsigned_eq ht

lemma toUnsigned_ne_zero (ht : t.Holds v) (hv : v ≠ 0) : t.toUnsigned v ≠ 0 := by
  have hvalue := toUnsigned_eq ht
  have hpow := two_pow_bits t
  rw [IntegerType.Holds] at ht
  generalize 2 ^ (8 * t.size) = count at *
  generalize 2 ^ (8 * t.size - 1) = half at *
  split at hvalue <;> split at ht <;> omega

lemma putNumber_eq (hbase : 1 < base) (ht : t.Holds v) :
    putNumber size t v base = if (numeral base (printed t v)).length ≤ size then
      some ⟨size - (numeral base (printed t v)).length, numeral base (printed t v)⟩ else none := by
  by_cases hv : v = 0
  · rw [putNumber, if_neg (not_not.2 hv), printed, if_pos hv, numeral, if_pos rfl]
    cases size <;> rfl
  · rw [putNumber, if_pos hv, printed, if_neg hv, putDigits_eq hbase, numeral,
      if_neg (toUnsigned_ne_zero ht hv), append_nil, length_map, length_reverse]

lemma putPadding_eq (room : Nat) :
    putPadding (decide (v < 0)) width fill ⟨room, numeral base (printed t v)⟩ =
      if padding base width fill t v ≤ room then
        some ⟨room - padding base width fill t v,
          replicate (padding base width fill t v) fill ++ numeral base (printed t v)⟩
      else none := by
  rw [putPadding, padding]
  by_cases hf : fill = 0
  · rw [if_neg (not_not.2 hf), if_pos hf]
    rfl
  · have hcount : (if decide (v < 0) = true then width - 1 else width) -
        (((numeral base (printed t v)).length : Int) + 1) + 1 =
          width - (if v < 0 then 1 else 0) - (numeral base (printed t v)).length := by
      by_cases hv : v < 0
      · rw [if_pos (decide_eq_true hv), if_pos hv]
        omega
      · rw [if_neg (mt of_decide_eq_true hv), if_neg hv]
        omega
    rw [if_pos hf, if_neg hf]
    simp only [hcount]
    exact putFill_eq _ _ _ _

lemma putSign_eq (room : Nat) (text : List UInt8) :
    (putSign (decide (v < 0)) ⟨room, text⟩).map Buffer.text =
      if (signText v).length ≤ room then some (signText v ++ text) else none := by
  rw [putSign, signText]
  by_cases hv : v < 0
  · rw [if_pos (decide_eq_true hv), if_pos hv]
    cases room <;> rfl
  · rw [if_neg (by rwa [decide_eq_true_eq]), if_neg hv]
    rfl

lemma formatInt_eq (hbase : 1 < base) (ht : t.Holds v) :
    formatInt size t v base width fill =
      if (signText v).length + padding base width fill t v +
          (numeral base (printed t v)).length ≤ size then
        some (signText v ++ (replicate (padding base width fill t v) fill ++
          numeral base (printed t v)))
      else none := by
  have hbind : formatInt size t v base width fill = (putNumber size t v base).bind fun buffer =>
      (putPadding (decide (v < 0)) width fill buffer).bind fun buffer =>
        (putSign (decide (v < 0)) buffer).map Buffer.text := by
    rw [formatInt]
    simp only [bind_eq_bind, map_eq_bind]
    rfl
  rw [hbind, putNumber_eq hbase ht]
  by_cases hD : (numeral base (printed t v)).length ≤ size
  · rw [if_pos hD, bind_some, putPadding_eq]
    by_cases hcount : padding base width fill t v ≤ size - (numeral base (printed t v)).length
    · rw [if_pos hcount, bind_some, putSign_eq]
      exact if_congr (by omega) rfl rfl
    · rw [if_neg hcount, if_neg (by omega)]
      rfl
  · rw [if_neg hD, if_neg (by omega)]
    rfl

/-! ## What is read back -/

lemma readDigits_replicate (hfill : digitValue base fill = some digit) (hbase : 0 < base)
    (k : Nat) : ∀ start, ∃ p, readDigits base start (replicate k fill) = some p ∧
      (p = 0 ↔ start = 0 ∧ (k = 0 ∨ digit = 0)) := by
  induction k with
  | zero => exact fun start => ⟨start, rfl, (and_iff_left (.inl rfl)).symm⟩
  | succ k ih =>
    intro start
    obtain ⟨p, hp, hzero⟩ := ih (start * base + digit)
    refine ⟨p, by rw [replicate_succ, readDigits, hfill, bind_some, hp], ?_⟩
    rw [hzero, Nat.add_eq_zero_iff, Nat.mul_eq_zero]
    constructor
    · rintro ⟨⟨hstart, hdigit⟩, -⟩
      exact ⟨hstart.resolve_right (by omega), .inr hdigit⟩
    · rintro ⟨hstart, hdigit⟩
      have hdigit := hdigit.resolve_left (succ_ne_zero k)
      exact ⟨⟨.inl hstart, hdigit⟩, .inr hdigit⟩

lemma read_padded (hbase : 1 < base) (hbase' : base ≤ 16) (k n : Nat) (fill : UInt8) :
    ∃ m, readDigits base 0 (skipFill base fill (replicate k fill ++ numeral base n)) = some m ∧
      n ≤ m ∧ (m = n ↔ k = 0 ∨ ∀ digit, digitValue base fill = some digit → digit = 0) := by
  rw [skipFill]
  cases hfill : digitValue base fill with
  | none =>
    have hdrop : (replicate k fill ++ numeral base n).dropWhile (fun c => c == fill) =
        numeral base n := by
      rw [dropWhile_append_of_pos fun c hc => beq_iff_eq.2 (eq_of_mem_replicate hc)]
      refine dropWhile_eq_self_iff.2 fun hlen heq => ?_
      obtain ⟨digit, -, -, hdigit⟩ := digit_of_mem_numeral hbase hbase' (getElem_mem hlen)
      rw [beq_iff_eq.1 heq, hfill] at hdigit
      exact absurd hdigit nofun
    rw [if_neg (by simp), hdrop, readDigits_numeral hbase hbase', zero_mul, Nat.zero_add]
    exact ⟨n, rfl, Nat.le_refl n, iff_of_true rfl (.inr nofun)⟩
  | some digit =>
    obtain ⟨p, hp, hzero⟩ := readDigits_replicate hfill (by omega) k 0
    have hpow : 0 < base ^ (numeral base n).length := Nat.pow_pos (by omega)
    rw [if_pos (by simp), readDigits_append, hp, bind_some,
      readDigits_numeral hbase hbase']
    refine ⟨_, rfl, Nat.le_add_left _ _, ?_⟩
    have hsum : p * base ^ (numeral base n).length + n = n ↔ p = 0 := by
      rw [Nat.add_eq_right, Nat.mul_eq_zero]
      exact or_iff_left (Nat.ne_of_gt hpow)
    rw [hsum, hzero]
    constructor
    · rintro ⟨-, hk | hdigit⟩
      · exact .inl hk
      · exact .inr fun d hd => (Option.some.inj hd).symm.trans hdigit
    · rintro (hk | hdigit)
      · exact ⟨rfl, .inl hk⟩
      · exact ⟨rfl, .inr (hdigit digit rfl)⟩

lemma printed_magnitude (ht : t.Holds v) :
    v.natAbs ≤ printed t v ∧ (printed t v = v.natAbs ↔ 0 ≤ v ∨ v = t.kMin) := by
  have hvalue := printed_eq ht
  have hpow := two_pow_bits t
  rw [IntegerType.Holds] at ht
  rw [IntegerType.kMin]
  generalize 2 ^ (8 * t.size) = count at *
  generalize 2 ^ (8 * t.size - 1) = half at *
  split at hvalue <;> split at ht <;> omega

lemma numeral_head_ne_minus (hbase : 1 < base) (hbase' : base ≤ 16) :
    ∃ c rest, numeral base n = c :: rest ∧ c ≠ 45 := by
  obtain ⟨c, rest, heq⟩ := exists_cons_of_length_pos (numeral_pos base n)
  refine ⟨c, rest, heq, ?_⟩
  rintro rfl
  have hmem : (45 : UInt8) ∈ numeral base n := by
    rw [heq]
    exact mem_cons_self ..
  obtain ⟨digit, hlt, hc, -⟩ := digit_of_mem_numeral hbase hbase' hmem
  revert digit
  decide

lemma readNumeral_of_ne {rest : List UInt8} (hc : c ≠ 45) :
    readNumeral base fill (c :: rest) =
      (readDigits base 0 (skipFill base fill (c :: rest))).map (false, ·) := by
  rw [readNumeral]
  rintro _ ⟨⟩
  exact hc rfl

lemma unsignedPart_of_ne {rest : List UInt8} (hc : c ≠ 45) :
    unsignedPart (c :: rest) = c :: rest := by
  rw [unsignedPart]
  rintro _ ⟨⟩
  exact hc rfl

lemma denotes_iff (hbase : 1 < base) (hbase' : base ≤ 16) (ht : t.Holds v) (k : Nat) :
    readNumeral base fill (signText v ++ (replicate k fill ++ numeral base (printed t v))) =
        some (decide (v < 0), v.natAbs) ↔
      (0 ≤ v ∨ v = t.kMin) ∧ (k = 0 ∨ Neutral base v fill) := by
  obtain ⟨m, hread, hle, hiff⟩ := read_padded hbase hbase' k (printed t v) fill
  obtain ⟨hmagnitude, hprinted⟩ := printed_magnitude ht
  have hsame : m = v.natAbs ↔ printed t v = v.natAbs ∧ m = printed t v := by omega
  by_cases hv : v < 0
  · have hneutral : Neutral base v fill ↔ ∀ digit, digitValue base fill = some digit → digit = 0 :=
      and_iff_left fun h => absurd h (by omega)
    rw [signText, if_pos hv, singleton_append, readNumeral, hread, map_some,
      decide_eq_true hv, Option.some.injEq, Prod.mk.injEq, and_iff_right rfl, hsame, hprinted, hiff,
      hneutral]
  · rw [signText, if_neg hv, nil_append, decide_eq_false hv]
    obtain ⟨c, rest, hnumeral, hc⟩ := numeral_head_ne_minus hbase hbase'
    cases k with
    | zero =>
      rw [replicate_zero, nil_append] at hread ⊢
      rw [hnumeral] at hread ⊢
      rw [readNumeral_of_ne hc, hread, map_some, Option.some.injEq, Prod.mk.injEq,
        and_iff_right rfl, hsame, hprinted, hiff]
      exact ⟨fun h => ⟨h.1, .inl rfl⟩, fun h => ⟨h.1, .inl rfl⟩⟩
    | succ k =>
      by_cases hfill : fill = 45
      · subst hfill
        refine iff_of_false (fun h => ?_) fun h => ?_
        · obtain ⟨_, -, hpair⟩ := map_eq_some_iff.1 h
          exact absurd (congrArg Prod.fst hpair) nofun
        · exact (h.2.resolve_left (succ_ne_zero k)).2 (by omega) rfl
      · have hneutral : Neutral base v fill ↔
            ∀ digit, digitValue base fill = some digit → digit = 0 :=
          and_iff_left fun _ => hfill
        rw [replicate_succ, cons_append] at hread ⊢
        rw [readNumeral_of_ne hfill, hread, map_some, Option.some.injEq, Prod.mk.injEq,
          and_iff_right rfl, hsame, hprinted, hiff, hneutral]

/-! ## When the text is right -/

lemma length_signText (v : Int) : (signText v).length = if v < 0 then 1 else 0 := by
  rw [signText]
  split <;> rfl

lemma padding_eq (base : Nat) (width : Int) (fill : UInt8)
    (hprinted : printed t v = v.natAbs) : padding base width fill t v =
    if fill = 0 then 0 else (width - plainLength base v).toNat := by
  rw [padding, plainLength, hprinted]
  by_cases hv : v < 0
  · rw [if_pos hv, if_pos hv]
    refine if_congr Iff.rfl rfl ?_
    omega
  · rw [if_neg hv, if_neg hv]
    refine if_congr Iff.rfl rfl ?_
    omega

lemma plainLength_eq (base : Nat) (hprinted : printed t v = v.natAbs) :
    (signText v).length + (numeral base (printed t v)).length = plainLength base v := by
  rw [length_signText, plainLength, hprinted, Nat.add_comm]

lemma unsignedPart_numeral (hbase : 1 < base) (hbase' : base ≤ 16) :
    unsignedPart (signText v ++ numeral base n) = numeral base n := by
  rw [signText]
  split
  · rfl
  · obtain ⟨c, rest, hnumeral, hc⟩ := numeral_head_ne_minus hbase hbase'
    rw [nil_append, hnumeral, unsignedPart_of_ne hc]

/-- `int8_t`. -/
def int8 : IntegerType := ⟨true, 1, Nat.one_pos⟩

end Format
end BezOS
