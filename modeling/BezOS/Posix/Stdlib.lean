import Mathlib.Data.UInt
import Mathlib.Tactic.Common

/-!
# Characters

The classes of `ctype.cpp` that the string routines use. A `char` is signed: the bytes from 128 on
are negative and in no class.
-/

namespace BezOS
namespace Posix

/-- A `char` where an `int` is expected. -/
def char (c : UInt8) : Int := if c.toNat < 128 then c.toNat else c.toNat - 256

def isdigit (c : Int) : Bool := c ≥ 48 && c ≤ 57

def isalpha (c : Int) : Bool := (c ≥ 65 && c ≤ 90) || (c ≥ 97 && c ≤ 122)

def tolower (c : Int) : Int := if c ≥ 65 ∧ c ≤ 90 then c - 65 + 97 else c

def isspace (c : Int) : Bool := c == 32 || c == 9 || c == 10 || c == 11 || c == 12 || c == 13

lemma char_bounds (c : UInt8) : -128 ≤ char c ∧ char c < 128 := by
  have := c.toNat_lt
  rw [char]
  split <;> omega

lemma char_inj {c d : UInt8} : char c = char d ↔ c = d := by
  have := c.toNat_lt
  have := d.toNat_lt
  rw [← UInt8.toNat_inj, char, char]
  split <;> split <;> omega

/-!
## strtol and strtoll

The parser of `stdlib.cpp`. A pointer into a string is what stands from there on up to the
terminator, so that the end of the list is the terminator itself.
-/

def skipSpaces : List UInt8 → List UInt8
  | [] => []
  | c :: str => if isspace (char c) then skipSpaces str else c :: str

def readSign : List UInt8 → Bool × List UInt8
  | 45 :: str => (true, str)
  | 43 :: str => (false, str)
  | str => (false, str)

def isMark (c : UInt8) : Bool := c == 120 || c == 88

def readBase (base : Nat) (str : List UInt8) : Nat × List UInt8 :=
  if base = 0 then
    match str with
    | 48 :: x :: rest => if isMark x then (16, rest) else (8, str)
    | 48 :: _ => (8, str)
    | _ => (10, str)
  else (base, str)

def digitOf (digit : Int) : Option Int :=
  if isdigit digit then some (digit - 48)
  else if isalpha digit then some (tolower digit - 97 + 10)
  else none

/-- The loop over the digits. The result is of a signed type with the given maximum: an overflow of
it has no defined result. -/
def accumulate (max : Nat) (base result : Nat) : List UInt8 → Option (Nat × List UInt8)
  | [] => some (result, [])
  | c :: str =>
      match digitOf (char c) with
      | none => some (result, c :: str)
      | some digit =>
          if digit ≥ base then some (result, c :: str)
          else
            let next := result * base + digit.toNat
            if next ≤ max then accumulate max base next str else none

/-- `strtoAny`, with what `*end` is set to. -/
def strtoAny (max : Nat) (str : List UInt8) (base : Nat) : Option (Int × List UInt8) := do
  let str := skipSpaces str
  let (negative, str) := readSign str
  let (base, str) := readBase base str
  let (result, str) ← accumulate max base 0 str
  some (if negative then -(result : Int) else result, str)

def kLongMax : Nat := 2 ^ 63 - 1
def kLongLongMax : Nat := 2 ^ 63 - 1

def strtol (str : List UInt8) (base : Nat) : Option (Int × List UInt8) :=
  strtoAny kLongMax str base

def strtoll (str : List UInt8) (base : Nat) : Option (Int × List UInt8) :=
  strtoAny kLongLongMax str base

/-! ## The grammar -/

def IsDigit (radix : Nat) (c : UInt8) : Prop := ∃ d, digitOf (char c) = some d ∧ d < radix

def digitsValue (radix : Nat) (digits : List UInt8) (start : Nat) : Nat :=
  digits.foldl (fun n c => n * radix + ((digitOf (char c)).getD 0).toNat) start

/-- The forms of a number behind the sign: its text, the base it is in, and its digits. -/
inductive Form (base : Nat) : List UInt8 → Nat → List UInt8 → Prop
  | plain (digits : List UInt8) : base ≠ 0 → Form base digits base digits
  | hexadecimal (x : UInt8) (digits : List UInt8) : base = 0 ∨ base = 16 → isMark x = true →
      Form base (48 :: x :: digits) 16 digits
  | octal (digits : List UInt8) : base = 0 → Form base (48 :: digits) 8 (48 :: digits)
  | decimal (digits : List UInt8) : base = 0 → digits.head? ≠ some 48 →
      Form base digits 10 digits

/-- A text of the form whitespace, sign, prefix and digits, and its value. -/
def Numeral (base : Nat) (text : List UInt8) (value : Int) : Prop :=
  ∃ spaces sign number radix digits, text = spaces ++ sign ++ number ∧
    (∀ c ∈ spaces, isspace (char c) = true) ∧ (sign = [] ∨ sign = [43] ∨ sign = [45]) ∧
    Form base number radix digits ∧ digits ≠ [] ∧ (∀ c ∈ digits, IsDigit radix c) ∧
    value = if sign = [45] then -(digitsValue radix digits 0 : Int) else digitsValue radix digits 0

/-- The longest prefix of the string that is a numeral. -/
structure Longest (base : Nat) (str text : List UInt8) (value : Int) : Prop where
  isPrefix : text <+: str
  numeral : Numeral base text value
  longest : ∀ text' value', text' <+: str → Numeral base text' value' → text'.length ≤ text.length

def clamp (max : Nat) (value : Int) : Int := Max.max (-(max : Int) - 1) (min max value)

/-- What the C standard asks of the value and of `*end`. -/
def Parses (max base : Nat) (str : List UInt8) (result : Option (Int × List UInt8)) : Prop :=
  (∃ text value rest, Longest base str text value ∧ str = text ++ rest ∧
    result = some (clamp max value, rest)) ∨
  ((∀ text value, text <+: str → ¬ Numeral base text value) ∧ result = some (0, str))

/-- The hexadecimal prefix stands at the front. -/
def Marked (str : List UInt8) : Prop := ∃ x rest, str = 48 :: x :: rest ∧ isMark x = true

/-- The hexadecimal prefix stands at the front, and a digit behind it. -/
def Hexadecimal (str : List UInt8) : Prop :=
  ∃ x h rest, str = 48 :: x :: h :: rest ∧ isMark x = true ∧ IsDigit 16 h

def body (str : List UInt8) : List UInt8 := (readSign (skipSpaces str)).2

/-- The condition: there is a number, or nothing to give back in front of it; it fits the type; and
a hexadecimal prefix stands there exactly if base 0 is asked for. -/
structure Plain (max base : Nat) (str : List UInt8) : Prop where
  kept : (∃ text value, text <+: str ∧ Numeral base text value) ∨ body str = str
  fits : ∀ text value, Longest base str text value → value.natAbs ≤ max
  hexadecimal : base = 16 → ¬ Hexadecimal (body str)
  marked : base = 0 → Marked (body str) → Hexadecimal (body str)

end Posix
end BezOS
