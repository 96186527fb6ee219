import BezOS.Acpi.Aml

/-!
# The grammar of AML

The byte strings the parser stays inside of, given by what stands in front of what, without
offsets: lengths that cover the header of their package and end in the enclosing one, strings and
targets that end in their package, packages of data objects. What the parser does not know it
reports, and then stops.
-/

namespace BezOS
namespace Aml

/-! ## Names and lengths -/

/-- Some characters of a name: what is behind them, and whether one of them is wrong or missing. -/
def afterChars (count : Nat) (b : List UInt8) : List UInt8 × Bool :=
  (b.drop count, decide (b.length < count) || (b.take count).any fun c => !isNameChar c)

def afterSeg (lead : UInt8) (b : List UInt8) : List UInt8 × Bool :=
  if lead = kRootChar then afterChars 4 b
  else ((afterChars 3 b).1, !isLeadNameChar lead || (afterChars 3 b).2)

def afterSegs : Nat → List UInt8 → List UInt8 × Bool
  | 0, b => (b, false)
  | count + 1, b =>
      let seg := afterSeg (b.headD 0) b.tail
      let rest := afterSegs count seg.1
      (rest.1, seg.2 || rest.2)

def afterPath (b : List UInt8) : List UInt8 × Bool :=
  let it := b.headD 0
  if it = kMultiNamePrefix then afterSegs (b.tail.headD 0).toNat b.tail.tail
  else if it = kDualNamePrefix then afterSegs 2 b.tail
  else if it = kNullName then (b.tail, false)
  else afterSeg it b.tail

def afterName (b : List UInt8) : List UInt8 × Bool :=
  if b.headD 0 = kRootChar then afterPath b.tail
  else afterPath (b.dropWhile (· = kPrefixChar))

def lengthFrom : Nat → Nat → Nat → List UInt8 → Nat × List UInt8
  | 0, _, value, b => (value, b)
  | count + 1, i, value, b =>
      lengthFrom count (i + 1) (value ||| (b.headD 0).toNat <<< ((i + 1) * 8 - 4)) b.tail

def lengthOf (b : List UInt8) : Nat × List UInt8 :=
  let lead := b.headD 0
  let count := (lead &&& 0b11000000) >>> 6
  if count ≠ 0 then lengthFrom count.toNat 0 (lead &&& 0b00001111).toNat b.tail
  else ((lead &&& 0b00111111).toNat, b.tail)

def select : List Choice → List UInt8 → Option (Production × List UInt8)
  | [], _ => none
  | .op seq p :: rest, b =>
      if seq.isPrefixOf b then some (p, b.drop seq.length) else select rest b
  | .name p :: rest, b => if isNameStart (b.headD 0) then some (p, b) else select rest b

/-! ## Derivations -/

inductive Form
  | symbol (x : Symbol)
  | symbols (list : List Symbol)
  | production (p : Production)
  | termList
  | elements

/-- How many bytes of a package its header takes. -/
abbrev taken (b rest : List UInt8) : Nat := b.length - rest.length

/-- The bytes are what the form stands for, up to a rest; the flags say whether an error was
reported before and after. -/
inductive Derives : Form → List UInt8 → Bool → List UInt8 → Bool → Prop
  | constant {v b e} : Derives (.symbol (.constant v)) b e b e
  | name {b e} : Derives (.symbol .nameString) b e (afterName b).1 (e || (afterName b).2)
  | data {n b e} : Derives (.symbol (.data n)) b e (b.drop n) e
  | string {b e rest} (hend : b.dropWhile (· ≠ 0) = 0 :: rest) :
      Derives (.symbol .stringData) b e rest e
  -- a buffer that is longer than what is left is cut
  | buffer {b e length b1 b2 e2} (hlength : lengthOf b = (length, b1))
      (hsize : Derives (.symbol .termArg) b1 e b2 e2) (hcovers : taken b b2 ≤ length) :
      Derives (.symbol .bufferData) b e (b2.drop (length - taken b b2)) e2
  | emptyPackage {b e b1} (hlength : lengthOf b = (0, b1)) :
      Derives (.symbol .defPackage) b e (b1.drop 1) e
  | package {b e length b1 rest e2} (hlength : lengthOf b = (length, b1)) (hne : length ≠ 0)
      (hcovers : taken b (b1.drop 1) ≤ length) (hinside : length ≤ b.length)
      (hbody : Derives .elements ((b1.drop 1).take (length - taken b (b1.drop 1))) e rest e2) :
      Derives (.symbol .defPackage) b e (b.drop length) e2
  | nullTarget {b e} : Derives (.symbol .target) (0 :: b) e b e
  | target {b e b2 e2} (hne : b ≠ []) (hzero : b.headD 0 ≠ 0)
      (hname : Derives (.symbol .superName) b e b2 e2) : Derives (.symbol .target) b e b2 e2
  -- nothing is read after an error
  | stopped {b} : Derives (.symbol (.nonterminal .term)) b true b true
  | chosen {n b e p b1 b2 e2} (hgoes : n = .term → e = false)
      (hselect : select (choices n) b = some (p, b1)) (hp : Derives (.production p) b1 e b2 e2) :
      Derives (.symbol (.nonterminal n)) b e b2 e2
  | unknownTerm {b} (hselect : select (choices .term) b = none) :
      Derives (.symbol (.nonterminal .term)) b false (if b.headD 0 = 0x5b then b.tail else b) true
  | unknownArg {b e} (hselect : select (choices .termArg) b = none) :
      Derives (.symbol (.nonterminal .termArg)) b e b true
  | unknownData {b e} (hselect : select (choices .dataRefObject) b = none) :
      Derives (.symbol (.nonterminal .dataRefObject)) b e b true
  | simpleName {b e} (hselect : select (choices .superName) b = none) :
      Derives (.symbol (.nonterminal .superName)) b e (afterName b).1 (e || (afterName b).2)
  | nil {b e} : Derives (.symbols []) b e b e
  | cons {x list b e b1 e1 b2 e2} (hx : Derives (.symbol x) b e b1 e1)
      (hlist : Derives (.symbols list) b1 e1 b2 e2) : Derives (.symbols (x :: list)) b e b2 e2
  | plain {type list b e b2 e2} (hlist : Derives (.symbols list) b e b2 e2) :
      Derives (.production (.plain type list)) b e b2 e2
  | terms {type header b e length b1 b2 e2 rest e3} (hlength : lengthOf b = (length, b1))
      (hheader : Derives (.symbols header) b1 e b2 e2) (hcovers : taken b b2 ≤ length)
      (hinside : length ≤ b.length)
      (hbody : Derives .termList (b2.take (length - taken b b2)) e2 rest e3) :
      Derives (.production (.package type header .termList)) b e (b.drop length) e3
  | skipped {type header b e length b1 b2 e2} (hlength : lengthOf b = (length, b1))
      (hheader : Derives (.symbols header) b1 e b2 e2) (hcovers : taken b b2 ≤ length)
      (hinside : length ≤ b.length) :
      Derives (.production (.package type header .skip)) b e (b.drop length) e2
  | value {x b e b2 e2} (hx : Derives (.symbol x) b e b2 e2) :
      Derives (.production (.value x)) b e b2 e2
  | ones {b e} : Derives (.production .ones) b e b e
  | listDone {e} : Derives .termList [] e [] e
  | listStop {b e b2} (hne : b ≠ []) (hterm : Derives (.symbol (.nonterminal .term)) b e b2 true) :
      Derives .termList b e b2 true
  | listNext {b e b1 b2 e2} (hne : b ≠ [])
      (hterm : Derives (.symbol (.nonterminal .term)) b e b1 false)
      (hrest : Derives .termList b1 false b2 e2) : Derives .termList b e b2 e2
  | elementsDone {e} : Derives .elements [] e [] e
  | elementsNext {b e b1 e1 b2 e2} (hne : b ≠ [])
      (helement : Derives (.symbol .dataRefObject) b e b1 e1)
      (hrest : Derives .elements b1 e1 b2 e2) : Derives .elements b e b2 e2

end Aml
end BezOS
