import Mathlib.Data.List.TakeWhile
import BezOS.Posix.Stdlib

/-!
# What strtol reads

Which prefix of a string is the longest numeral, and when `strtoAny` comes to the same end. It does
unless a hexadecimal prefix stands where it is not expected or not where it is, or whitespace or a
sign would have to be given back, or the value has no room in the type.
-/

namespace BezOS
namespace Posix

open List

variable {max base radix : Nat} {c x : UInt8} {str text number digits rest mark b : List UInt8}
  {value : Int}

/-! ## Characters -/

instance (radix : Nat) (c : UInt8) : Decidable (IsDigit radix c) :=
  decidable_of_iff ((digitOf (char c)).any fun d => decide (d < (radix : Int))) (by
    rw [IsDigit]
    cases digitOf (char c) <;> simp)

lemma not_space_of_digit (h : IsDigit radix c) : isspace (char c) = false := by
  obtain ⟨d, hd, -⟩ := h
  rw [Bool.eq_false_iff]
  intro hspace
  simp only [isspace, Bool.or_eq_true, beq_iff_eq] at hspace
  have hnone : digitOf (char c) = none := by
    rcases hspace with ((((h | h) | h) | h) | h) | h <;> rw [h] <;> decide
  rw [hnone] at hd
  exact absurd hd nofun

lemma not_sign_of_digit (h : IsDigit radix c) : c ≠ 45 ∧ c ≠ 43 := by
  obtain ⟨d, hd, -⟩ := h
  constructor <;> rintro rfl <;> exact absurd hd nofun

lemma not_digit_of_mark (hx : isMark x = true) (hradix : radix ≤ 16) : ¬ IsDigit radix x := by
  rintro ⟨d, hd, hlt⟩
  have hvalue : digitOf (char x) = some 33 := by
    rw [isMark, Bool.or_eq_true, beq_iff_eq, beq_iff_eq] at hx
    rcases hx with rfl | rfl <;> decide
  rw [hvalue] at hd
  have := Option.some.inj hd
  omega

/-! ## Whitespace and sign -/

lemma skipSpaces_append {spaces : List UInt8} (h : ∀ c ∈ spaces, isspace (char c) = true)
    (str : List UInt8) : skipSpaces (spaces ++ str) = skipSpaces str := by
  induction spaces with
  | nil => rfl
  | cons c spaces ih =>
    rw [cons_append, skipSpaces, if_pos (h c (mem_cons_self ..))]
    exact ih fun d hd => h d (mem_cons_of_mem _ hd)

lemma skipSpaces_split (str : List UInt8) :
    ∃ spaces, str = spaces ++ skipSpaces str ∧ ∀ c ∈ spaces, isspace (char c) = true := by
  induction str with
  | nil => exact ⟨[], rfl, nofun⟩
  | cons c str ih =>
    obtain ⟨spaces, hsplit, hspaces⟩ := ih
    rw [skipSpaces]
    split
    · rename_i hc
      refine ⟨c :: spaces, by rw [cons_append, ← hsplit], fun d hd => ?_⟩
      rcases mem_cons.1 hd with rfl | hd
      · exact hc
      · exact hspaces d hd
    · exact ⟨[], rfl, nofun⟩

lemma readSign_split (str : List UInt8) :
    ∃ sign, str = sign ++ (readSign str).2 ∧ (sign = [] ∨ sign = [43] ∨ sign = [45]) ∧
      (readSign str).1 = decide (sign = [45]) := by
  fun_cases readSign str with
  | case1 str => exact ⟨[45], rfl, .inr (.inr rfl), rfl⟩
  | case2 str => exact ⟨[43], rfl, .inr (.inl rfl), rfl⟩
  | case3 str h h' => exact ⟨[], rfl, .inl rfl, rfl⟩

lemma read_sign {sign : List UInt8} (hsign : sign = [] ∨ sign = [43] ∨ sign = [45])
    (hc : IsDigit radix c) (rest : List UInt8) :
    skipSpaces (sign ++ c :: rest) = sign ++ c :: rest ∧
      readSign (sign ++ c :: rest) = (decide (sign = [45]), c :: rest) := by
  rcases hsign with rfl | rfl | rfl
  · obtain ⟨hminus, hplus⟩ := not_sign_of_digit hc
    refine ⟨?_, ?_⟩
    · rw [nil_append, skipSpaces, not_space_of_digit hc]
      rfl
    · rw [nil_append, readSign]
      · rfl
      · rintro _ ⟨⟩
        exact hminus rfl
      · rintro _ ⟨⟩
        exact hplus rfl
  · exact ⟨rfl, rfl⟩
  · exact ⟨rfl, rfl⟩

lemma Form.head_digit (hform : Form base number radix digits) (hne : digits ≠ [])
    (hdigits : ∀ c ∈ digits, IsDigit radix c) :
    ∃ c rest radix', number = c :: rest ∧ IsDigit radix' c := by
  have hhead : ∃ c rest, digits = c :: rest := exists_cons_of_ne_nil hne
  cases hform with
  | plain | decimal =>
    obtain ⟨c, rest, rfl⟩ := hhead
    exact ⟨c, rest, _, rfl, hdigits c (mem_cons_self ..)⟩
  | hexadecimal x _ _ _ => exact ⟨48, x :: digits, 16, rfl, by decide⟩
  | octal rest _ => exact ⟨48, rest, 8, rfl, by decide⟩

def negative (str : List UInt8) : Bool := (readSign (skipSpaces str)).1

def signed (negative : Bool) (n : Nat) : Int := if negative then -(n : Int) else n

lemma numeral_prefix_iff (str : List UInt8) :
    ∃ lead, str = lead ++ body str ∧ ∀ base text value, (text <+: str ∧ Numeral base text value) ↔
      ∃ number radix digits, text = lead ++ number ∧ number <+: body str ∧
        Form base number radix digits ∧ digits ≠ [] ∧ (∀ c ∈ digits, IsDigit radix c) ∧
        value = signed (negative str) (digitsValue radix digits 0) := by
  obtain ⟨spaces, hspaces, hall⟩ := skipSpaces_split str
  obtain ⟨sign, hsign, hkind, hnegative⟩ := readSign_split (skipSpaces str)
  have hlead : str = (spaces ++ sign) ++ body str := by
    rw [append_assoc, body, ← hsign, ← hspaces]
  refine ⟨spaces ++ sign, hlead, fun base text value => ⟨?_, ?_⟩⟩
  · rintro ⟨⟨rest, hrest⟩, spaces', sign', number, radix, digits, rfl, hall', hkind', hform, hne,
      hdigits, rfl⟩
    obtain ⟨c, number', radix', rfl, hc⟩ := hform.head_digit hne hdigits
    have hstr : str = spaces' ++ (sign' ++ c :: (number' ++ rest)) := by
      rw [← hrest]
      simp
    obtain ⟨hskip, hread⟩ := read_sign hkind' hc (number' ++ rest)
    have hskipped : skipSpaces str = sign' ++ c :: (number' ++ rest) := by
      rw [hstr, skipSpaces_append hall', hskip]
    have hbody : body str = c :: number' ++ rest := by
      rw [body, hskipped, hread]
      rfl
    have hsame : spaces ++ sign = spaces' ++ sign' := by
      refine (append_left_inj (body str)).1 ?_
      rw [← hlead, hbody, hstr]
      simp
    refine ⟨c :: number', radix, digits, by rw [hsame], ⟨rest, hbody.symm⟩, hform, hne, hdigits, ?_⟩
    rw [negative, hskipped, hread, signed]
    simp
  · rintro ⟨number, radix, digits, rfl, ⟨rest, hrest⟩, hform, hne, hdigits, rfl⟩
    refine ⟨⟨rest, ?_⟩, spaces, sign, number, radix, digits, rfl, hall, hkind, hform, hne, hdigits,
      ?_⟩
    · rw [append_assoc, hrest, ← hlead]
    · rw [negative, hnegative, signed]
      simp

/-! ## Digits -/

def digitsOf (radix : Nat) (str : List UInt8) : List UInt8 :=
  str.takeWhile fun c => decide (IsDigit radix c)

lemma digitsOf_prefix (radix : Nat) (str : List UInt8) : digitsOf radix str <+: str :=
  takeWhile_prefix _

lemma digit_of_mem_digitsOf (h : c ∈ digitsOf radix str) : IsDigit radix c :=
  of_decide_eq_true (mem_takeWhile_imp (p := fun c => decide (IsDigit radix c)) h)

lemma prefix_digitsOf ( hprefix : digits <+: str) (hdigits : ∀ c ∈ digits, IsDigit radix c) :
    digits <+: digitsOf radix str := by
  obtain ⟨rest, rfl⟩ := hprefix
  rw [digitsOf, takeWhile_append_of_pos fun c hc => decide_eq_true (hdigits c hc)]
  exact prefix_append _ _

lemma le_digitsValue (hradix : 0 < radix) (digits : List UInt8) :
    ∀ start, start ≤ digitsValue radix digits start := by
  induction digits with
  | nil => exact fun start => Nat.le_refl start
  | cons c digits ih =>
    intro start
    have hstart : start ≤ start * radix := Nat.le_mul_of_pos_right start hradix
    exact hstart.trans ((Nat.le_add_right _ _).trans (ih _))

lemma accumulate_eq (hradix : 0 < radix) (str : List UInt8) : ∀ {start}, start ≤ max →
    accumulate max radix start str =
      if digitsValue radix (digitsOf radix str) start ≤ max then
        some (digitsValue radix (digitsOf radix str) start,
          str.drop (digitsOf radix str).length)
      else none := by
  induction str with
  | nil => exact fun hstart => (if_pos hstart).symm
  | cons c str ih =>
    intro start hstart
    have hstop : ¬ IsDigit radix c → digitsOf radix (c :: str) = [] := fun h => by
      rw [digitsOf, takeWhile_cons, decide_eq_false h]
      rfl
    rw [accumulate]
    split
    · rename_i hnone
      rw [hstop fun ⟨d, hd, _⟩ => by rw [hnone] at hd; exact absurd hd nofun]
      exact (if_pos hstart).symm
    · rename_i digit hdigit
      split
      · rename_i hge
        rw [hstop fun ⟨d, hd, hlt⟩ => by
          rw [hdigit] at hd
          have := Option.some.inj hd
          omega]
        exact (if_pos hstart).symm
      · rename_i hlt
        have hc : IsDigit radix c := ⟨digit, hdigit, by omega⟩
        have hdigits : digitsOf radix (c :: str) = c :: digitsOf radix str := by
          rw [digitsOf, takeWhile_cons, decide_eq_true hc]
          rfl
        have hvalue : digitsValue radix (c :: digitsOf radix str) start =
            digitsValue radix (digitsOf radix str) (start * radix + digit.toNat) := by
          rw [digitsValue, foldl_cons, hdigit]
          rfl
        rw [hdigits, hvalue]
        by_cases hroom : start * radix + digit.toNat ≤ max
        · exact (if_pos hroom).trans (ih hroom)
        · rw [if_neg fun h => hroom ((le_digitsValue hradix _ _).trans h)]
          exact if_neg hroom

/-! ## Forms -/

/-- How the standard reads a body: behind a mark, digits of one base; every other number is no
longer than the mark, and shorter than one with a digit behind it. -/
structure Reading (base : Nat) (b : List UInt8) (radix : Nat) (mark rest : List UInt8) : Prop where
  split : b = mark ++ rest
  radix_pos : 0 < radix
  form : ∀ digits, digits ≠ [] → digits <+: rest → Form base (mark ++ digits) radix digits
  only : ∀ number radix' digits, number <+: b → Form base number radix' digits → digits ≠ [] →
    (∀ c ∈ digits, IsDigit radix' c) →
    (radix' = radix ∧ number = mark ++ digits ∧ digits <+: rest) ∨
      (number.length ≤ mark.length ∧ digitsOf radix rest ≠ [])

lemma digit_zero (hradix : 0 < radix) : IsDigit radix 48 :=
  ⟨0, by decide, by omega⟩

lemma digitsOf_cons (hc : IsDigit radix c) (rest : List UInt8) :
    digitsOf radix (c :: rest) = c :: digitsOf radix rest := by
  rw [digitsOf, takeWhile_cons, decide_eq_true hc]
  rfl

lemma digitsOf_stop (hc : ¬ IsDigit radix c) (rest : List UInt8) :
    digitsOf radix (c :: rest) = [] := by
  rw [digitsOf, takeWhile_cons, decide_eq_false hc]
  rfl

lemma eq_zero_of_marked (hx : isMark x = true) (hradix : radix ≤ 16)
    ( hprefix : digits <+: 48 :: x :: rest) (hne : digits ≠ [])
    (hdigits : ∀ c ∈ digits, IsDigit radix c) : digits = [48] := by
  cases digits with
  | nil => exact absurd rfl hne
  | cons c digits =>
    obtain ⟨rfl, hbehind⟩ := cons_prefix_cons.1 hprefix
    cases digits with
    | nil => rfl
    | cons y digits =>
      obtain ⟨rfl, -⟩ := cons_prefix_cons.1 hbehind
      exact absurd (hdigits y (mem_cons_of_mem _ (mem_cons_self ..)))
        (not_digit_of_mark hx hradix)

lemma reading_hexadecimal (hbase : base = 0 ∨ base = 16) {h : UInt8} (hx : isMark x = true)
    (hh : IsDigit 16 h) (rest : List UInt8) :
    Reading base (48 :: x :: h :: rest) 16 [48, x] (h :: rest) where
  split := rfl
  radix_pos := by decide
  form digits _ _ := .hexadecimal x digits hbase hx
  only number radix' digits hprefix hform hne hdigits := by
    have hdigit : digitsOf 16 (h :: rest) ≠ [] := by
      rw [digitsOf_cons hh]
      exact cons_ne_nil _ _
    cases hform with
    | plain digits hnonzero =>
      have hradix : base ≤ 16 := by omega
      rw [eq_zero_of_marked hx hradix hprefix hne hdigits]
      exact .inr ⟨Nat.le_succ 1, hdigit⟩
    | hexadecimal x' digits _ _ =>
      obtain ⟨-, hbehind⟩ := cons_prefix_cons.1 hprefix
      obtain ⟨rfl, hdigits'⟩ := cons_prefix_cons.1 hbehind
      exact .inl ⟨rfl, rfl, hdigits'⟩
    | octal digits _ =>
      rw [eq_zero_of_marked hx (by decide) hprefix hne hdigits]
      exact .inr ⟨Nat.le_succ 1, hdigit⟩
    | decimal digits _ hhead =>
      obtain ⟨c, digits', rfl⟩ := exists_cons_of_ne_nil hne
      obtain ⟨rfl, -⟩ := cons_prefix_cons.1 hprefix
      exact absurd rfl hhead

/-- The base in which the digits are read where no mark stands. -/
def plainRadix (base : Nat) (b : List UInt8) : Nat :=
  if base ≠ 0 then base else if b.head? = some 48 then 8 else 10

lemma reading_plain (h : ¬ ((base = 0 ∨ base = 16) ∧ Hexadecimal b)) :
    Reading base b (plainRadix base b) [] b where
  split := rfl
  radix_pos := by
    rw [plainRadix]
    split_ifs <;> omega
  form digits hne hprefix := by
    obtain ⟨c, digits, rfl⟩ := exists_cons_of_ne_nil hne
    obtain ⟨more, hmore⟩ := hprefix
    have hhead : b.head? = some c := by rw [← hmore]; rfl
    rw [plainRadix, hhead]
    split_ifs with hbase hzero
    · exact .plain _ hbase
    · rw [Option.some.inj hzero]
      exact .octal _ (Decidable.not_not.1 hbase)
    · exact .decimal _ (Decidable.not_not.1 hbase) hzero
  only number radix' digits hprefix hform hne hdigits := by
    cases hform with
    | plain digits hnonzero => exact .inl ⟨(if_pos hnonzero).symm, rfl, hprefix⟩
    | hexadecimal x digits hbase hx =>
      obtain ⟨c, digits', rfl⟩ := exists_cons_of_ne_nil hne
      obtain ⟨more, hmore⟩ := hprefix
      exact absurd ⟨hbase, x, c, digits' ++ more, hmore.symm, hx,
        hdigits c (mem_cons_self ..)⟩ h
    | octal digits hbase =>
      obtain ⟨more, hmore⟩ := hprefix
      have hhead : b.head? = some 48 := by rw [← hmore]; rfl
      refine .inl ⟨?_, rfl, more, hmore⟩
      rw [plainRadix, if_neg (not_not.2 hbase), if_pos hhead]
    | decimal digits hbase hhead' =>
      obtain ⟨c, digits', rfl⟩ := exists_cons_of_ne_nil hne
      obtain ⟨more, hmore⟩ := hprefix
      have hhead : b.head? = some c := by rw [← hmore]; rfl
      refine .inl ⟨?_, rfl, more, hmore⟩
      rw [plainRadix, if_neg (not_not.2 hbase), if_neg]
      rwa [hhead]

namespace Reading

variable (hr : Reading base (body str) radix mark rest)

include hr

lemma longest_iff (hne : digitsOf radix rest ≠ []) :
    ∃ lead, str = lead ++ body str ∧ ∀ text value, Longest base str text value ↔
      text = lead ++ (mark ++ digitsOf radix rest) ∧
        value = signed (negative str) (digitsValue radix (digitsOf radix rest) 0) := by
  obtain ⟨lead, hlead, hiff⟩ := numeral_prefix_iff str
  refine ⟨lead, hlead, ?_⟩
  have hsize : ∀ text value, text <+: str → Numeral base text value →
      text.length ≤ (lead ++ (mark ++ digitsOf radix rest)).length ∧
      (text.length = (lead ++ (mark ++ digitsOf radix rest)).length →
        text = lead ++ (mark ++ digitsOf radix rest) ∧
        value = signed (negative str) (digitsValue radix (digitsOf radix rest) 0)) := by
    intro text value hprefix hnumeral
    obtain ⟨number, radix', digits, rfl, hnumber, hform, hne', hdigits, rfl⟩ :=
      (hiff base text value).1 ⟨ hprefix, hnumeral⟩
    rcases hr.only number radix' digits hnumber hform hne' hdigits with
      ⟨rfl, rfl, hrest⟩ | ⟨hshort, -⟩
    · have hall := prefix_digitsOf hrest hdigits
      have hle := hall.length_le
      simp only [length_append]
      refine ⟨by omega, fun heq => ?_⟩
      have hsame := hall.eq_of_length (by omega)
      rw [hsame]
      exact ⟨rfl, rfl⟩
    · have hpos : 0 < (digitsOf radix rest).length := length_pos_iff.2 hne
      simp only [length_append]
      exact ⟨by omega, fun heq => by omega⟩
  have hself : lead ++ (mark ++ digitsOf radix rest) <+: str ∧
      Numeral base (lead ++ (mark ++ digitsOf radix rest))
        (signed (negative str) (digitsValue radix (digitsOf radix rest) 0)) := by
    have hdigits := digitsOf_prefix radix rest
    refine (hiff base _ _).2 ⟨mark ++ digitsOf radix rest, radix, digitsOf radix rest, rfl, ?_,
      hr.form _ hne hdigits, hne, fun c hc => digit_of_mem_digitsOf hc, rfl⟩
    rw [hr.split]
    exact (prefix_append_right_inj _).2 hdigits
  intro text value
  constructor
  · intro hlongest
    obtain ⟨hle, heq⟩ := hsize text value hlongest.isPrefix hlongest.numeral
    exact heq (Nat.le_antisymm hle (hlongest.longest _ _ hself.1 hself.2))
  · rintro ⟨rfl, rfl⟩
    exact ⟨hself.1, hself.2, fun text' value' hprefix hnumeral =>
      (hsize text' value' hprefix hnumeral).1⟩

lemma no_numeral (hnone : digitsOf radix rest = []) (text : List UInt8) (value : Int)
    ( hprefix : text <+: str) : ¬ Numeral base text value := by
  intro hnumeral
  obtain ⟨lead, -, hiff⟩ := numeral_prefix_iff str
  obtain ⟨number, radix', digits, -, hnumber, hform, hne, hdigits, -⟩ :=
    (hiff base text value).1 ⟨ hprefix, hnumeral⟩
  rcases hr.only number radix' digits hnumber hform hne hdigits with
    ⟨rfl, -, hrest⟩ | ⟨-, hsome⟩
  · have hempty := prefix_digitsOf hrest hdigits
    rw [hnone] at hempty
    exact hne (prefix_nil.1 hempty)
  · exact hsome hnone

end Reading

/-! ## The parser -/

lemma strtoAny_eq (max : Nat) (str : List UInt8) (base : Nat) :
    strtoAny max str base = (accumulate max (readBase base (body str)).1 0
      (readBase base (body str)).2).map fun result =>
        (signed (negative str) result.1, result.2) := by
  have hbind : strtoAny max str base = (accumulate max (readBase base (body str)).1 0
      (readBase base (body str)).2).bind fun result =>
        some (signed (negative str) result.1, result.2) := rfl
  rw [hbind, Option.map_eq_bind]
  rfl

lemma clamp_signed {n : Nat} (h : n ≤ max) (negative : Bool) :
    clamp max (signed negative n) = signed negative n := by
  rw [clamp, signed]
  split <;> omega

lemma natAbs_signed (negative : Bool) (n : Nat) : (signed negative n).natAbs = n := by
  rw [signed]
  split <;> omega

lemma parses_iff_of_reading (hr : Reading base (body str) radix mark rest)
    (hsame : readBase base (body str) = (radix, rest))
    (hhex : base = 16 → ¬ Hexadecimal (body str))
    (hmarked : base = 0 → Marked (body str) → Hexadecimal (body str))
    (hmark : digitsOf radix rest = [] → mark = []) :
    Parses max base str (strtoAny max str base) ↔ Plain max base str := by
  rw [strtoAny_eq, hsame, accumulate_eq hr.radix_pos rest (Nat.zero_le max)]
  by_cases hne : digitsOf radix rest = []
  · have hno := hr.no_numeral hne
    have hrest : rest = body str := by
      rw [hr.split, hmark hne]
      rfl
    have hvalue : digitsValue radix ([] : List UInt8) 0 = 0 := rfl
    rw [hne, hvalue, if_pos (Nat.zero_le max), Option.map_some]
    constructor
    · rintro (⟨text, value, rest', hlongest, -, -⟩ | ⟨-, hresult⟩)
      · exact absurd hlongest.numeral (hno text value hlongest.isPrefix)
      · have hkept : rest = str := congrArg Prod.snd (Option.some.inj hresult)
        exact ⟨.inr (hrest.symm.trans hkept), fun text value hlongest =>
          absurd hlongest.numeral (hno text value hlongest.isPrefix), hhex, hmarked⟩
    · intro hplain
      have hkept : body str = str := by
        rcases hplain.kept with ⟨text, value, hprefix, hnumeral⟩ | hkept
        · exact absurd hnumeral (hno text value hprefix)
        · exact hkept
      refine .inr ⟨hno, ?_⟩
      have hzero : signed (negative str) 0 = 0 := by
        rw [signed]
        split <;> rfl
      rw [hzero, hrest, hkept]
      rfl
  · obtain ⟨lead, hlead, hiff⟩ := hr.longest_iff hne
    have hlongest := (hiff _ _).2 ⟨rfl, rfl⟩
    have hsplit : str = (lead ++ (mark ++ digitsOf radix rest)) ++
        rest.drop (digitsOf radix rest).length := by
      have hrest : digitsOf radix rest ++ rest.drop (digitsOf radix rest).length = rest :=
        (prefix_iff_eq_append.1 ( digitsOf_prefix radix rest))
      rw [append_assoc, append_assoc, hrest, ← hr.split, ← hlead]
    by_cases hroom : digitsValue radix (digitsOf radix rest) 0 ≤ max
    · rw [if_pos hroom, Option.map_some]
      refine iff_of_true (.inl ⟨_, _, _, hlongest, hsplit, ?_⟩) ⟨.inl ⟨_, _, hlongest.isPrefix,
        hlongest.numeral⟩, fun text value h => ?_, hhex, hmarked⟩
      · rw [clamp_signed hroom]
      · rw [((hiff text value).1 h).2, natAbs_signed]
        exact hroom
    · rw [if_neg hroom]
      refine iff_of_false ?_ fun hplain => hroom ?_
      · rintro (⟨_, _, _, -, -, hresult⟩ | ⟨-, hresult⟩) <;> exact absurd hresult nofun
      · have hfits := hplain.fits _ _ hlongest
        rwa [natAbs_signed] at hfits

lemma not_parses_of_length {result : Int} (hlongest : Longest base str text value)
    (hend : text.length + rest.length ≠ str.length) :
    ¬ Parses max base str (some (result, rest)) := by
  rintro (⟨text', value', rest', hlongest', hsplit, hresult⟩ | ⟨hno, -⟩)
  · have hrest : rest = rest' := congrArg Prod.snd (Option.some.inj hresult)
    have hle := hlongest.longest text' value' hlongest'.isPrefix hlongest'.numeral
    have hge := hlongest'.longest text value hlongest.isPrefix hlongest.numeral
    have hlength : str.length = text'.length + rest'.length := by
      rw [hsplit, length_append]
    rw [hrest] at hend
    omega
  · exact hno text value hlongest.isPrefix hlongest.numeral

lemma not_parses_of_hexadecimal (hhex : Hexadecimal (body str)) :
    ¬ Parses max 16 str (strtoAny max str 16) := by
  obtain ⟨x, h, rest, hbody, hx, hh⟩ := hhex
  have hr : Reading 16 (body str) 16 [48, x] (h :: rest) := by
    rw [hbody]
    exact reading_hexadecimal (.inr rfl) hx hh rest
  have hread : readBase 16 (body str) = (16, 48 :: x :: h :: rest) := by rw [hbody]; rfl
  have hdigits : digitsOf 16 (48 :: x :: h :: rest) = [48] := by
    rw [digitsOf_cons (digit_zero (by decide)), digitsOf_stop (not_digit_of_mark hx (by decide))]
  have hvalue : digitsValue 16 [48] 0 = 0 := by decide
  obtain ⟨lead, hlead, hiff⟩ := hr.longest_iff (by rw [digitsOf_cons hh]; exact cons_ne_nil _ _)
  rw [strtoAny_eq, hread, accumulate_eq (Nat.succ_pos 15) _ (Nat.zero_le max), hdigits, hvalue,
    if_pos (Nat.zero_le max)]
  refine not_parses_of_length ((hiff _ _).2 ⟨rfl, rfl⟩) ?_
  have hlength : str.length = lead.length + (3 + rest.length) := by
    conv_lhs => rw [hlead, hbody]
    simp only [length_append, length_cons]
    omega
  rw [hlength, digitsOf_cons hh]
  simp only [length_append, length_cons, length_nil, drop_succ_cons,
    drop_zero]
  omega

lemma not_parses_of_marked (hmarked : Marked (body str)) (hhex : ¬ Hexadecimal (body str)) :
    ¬ Parses max 0 str (strtoAny max str 0) := by
  obtain ⟨x, rest, hbody, hx⟩ := hmarked
  have hr : Reading 0 (body str) (plainRadix 0 (body str)) [] (body str) :=
    reading_plain fun h => hhex h.2
  have hradix : plainRadix 0 (body str) = 8 := by rw [hbody]; rfl
  have hread : readBase 0 (body str) = (16, rest) := by
    rw [hbody, readBase, if_pos rfl]
    exact if_pos hx
  have hzero : digitsOf 8 (body str) = [48] := by
    rw [hbody, digitsOf_cons (digit_zero (by decide)),
      digitsOf_stop (not_digit_of_mark hx (by decide))]
  have hnone : digitsOf 16 rest = [] := by
    cases rest with
    | nil => rfl
    | cons h rest => exact digitsOf_stop (fun hh => hhex ⟨x, h, rest, hbody, hx, hh⟩) rest
  have hvalue : digitsValue 16 [] 0 = 0 := rfl
  rw [hradix] at hr
  obtain ⟨lead, hlead, hiff⟩ := hr.longest_iff (by rw [hzero]; exact cons_ne_nil _ _)
  rw [strtoAny_eq, hread, accumulate_eq (Nat.succ_pos 15) _ (Nat.zero_le max), hnone, hvalue,
    if_pos (Nat.zero_le max)]
  refine not_parses_of_length ((hiff _ _).2 ⟨rfl, rfl⟩) ?_
  have hlength : str.length = lead.length + (2 + rest.length) := by
    conv_lhs => rw [hlead, hbody]
    simp only [length_append, length_cons]
    omega
  rw [hlength, hzero]
  simp only [length_append, length_cons, length_nil, drop_zero]
  omega

lemma readBase_unmarked (h : base = 0 → ¬ Marked b) :
    readBase base b = (plainRadix base b, b) := by
  by_cases hhead : b.head? = some 48
  · obtain ⟨rest, rfl⟩ : ∃ rest, b = 48 :: rest := by
      cases b with
      | nil => exact absurd hhead nofun
      | cons c rest => exact ⟨rest, by rw [Option.some.inj hhead]⟩
    rw [plainRadix, if_pos hhead]
    by_cases hbase : base = 0
    · subst hbase
      cases rest with
      | nil => rfl
      | cons x rest => exact if_neg fun hx => h rfl ⟨x, rest, rfl, hx⟩
    · rw [if_pos hbase]
      exact if_neg hbase
  · rw [readBase, plainRadix, if_neg hhead]
    · by_cases hbase : base = 0
      · rw [if_pos hbase, if_neg (not_not.2 hbase)]
      · rw [if_neg hbase, if_pos hbase]
    · rintro x rest rfl
      exact hhead rfl
    · rintro rest rfl
      exact hhead rfl

lemma strtoAny_parses_iff (max base : Nat) (str : List UInt8) :
    Parses max base str (strtoAny max str base) ↔ Plain max base str := by
  by_cases hhex : base = 16 ∧ Hexadecimal (body str)
  · obtain ⟨rfl, hhex⟩ := hhex
    exact iff_of_false (not_parses_of_hexadecimal hhex) fun h => h.hexadecimal rfl hhex
  by_cases hmark : base = 0 ∧ Marked (body str) ∧ ¬ Hexadecimal (body str)
  · obtain ⟨rfl, hmarked, hno⟩ := hmark
    exact iff_of_false (not_parses_of_marked hmarked hno) fun h => hno (h.marked rfl hmarked)
  have hhex' : base = 16 → ¬ Hexadecimal (body str) := fun hbase h => hhex ⟨hbase, h⟩
  have hmark' : base = 0 → Marked (body str) → Hexadecimal (body str) := fun hbase h =>
    Classical.byContradiction fun hno => hmark ⟨hbase, h, hno⟩
  by_cases hauto : base = 0 ∧ Hexadecimal (body str)
  · obtain ⟨rfl, x, h, rest, hbody, hx, hh⟩ := hauto
    have hr : Reading 0 (body str) 16 [48, x] (h :: rest) := by
      rw [hbody]
      exact reading_hexadecimal (.inl rfl) hx hh rest
    have hread : readBase 0 (body str) = (16, h :: rest) := by
      rw [hbody, readBase, if_pos rfl]
      exact if_pos hx
    refine parses_iff_of_reading hr hread hhex' hmark' fun hnone => ?_
    rw [digitsOf_cons hh] at hnone
    exact absurd hnone (cons_ne_nil _ _)
  · refine parses_iff_of_reading (reading_plain ?_) (readBase_unmarked ?_) hhex' hmark' fun _ => rfl
    · rintro ⟨rfl | rfl, h⟩
      · exact hauto ⟨rfl, h⟩
      · exact hhex' rfl h
    · exact fun hbase h => hauto ⟨hbase, hmark' hbase h⟩

/-- `strtol` and `strtoll` read the longest numeral of a string exactly if it fits the type, there
is one or nothing in front of where it would be, and its hexadecimal prefix is one of base 0. -/
theorem strtol_parses_iff (base : Nat) (str : List UInt8) :
    (Parses kLongMax base str (strtol str base) ↔ Plain kLongMax base str) ∧
      (Parses kLongLongMax base str (strtoll str base) ↔ Plain kLongLongMax base str) :=
  ⟨strtoAny_parses_iff _ _ _, strtoAny_parses_iff _ _ _⟩

/-- Of "0x1F", base 16 reads the zero. -/
theorem strtol_hexadecimal_prefix :
    strtol [48, 120, 49, 70] 16 = some (0, [120, 49, 70]) ∧
      ¬ Parses kLongMax 16 [48, 120, 49, 70] (strtol [48, 120, 49, 70] 16) := by
  refine ⟨by decide, fun h => ?_⟩
  exact ((strtoAny_parses_iff _ _ _).1 h).hexadecimal rfl
    ⟨120, 49, [70], by decide, by decide, by decide⟩

end Posix
end BezOS
