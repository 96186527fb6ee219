import BezOS.Lib.Word
import BezOS.Status

/-!
# The AML parser

`acpi/aml.cpp`: the parser over a span of bytes, and the terms it builds. Most functions read a list
of symbols behind an opcode and add a node of what they read; they are given here by these lists.
Node numbers do not run out: a node takes a byte of the table.
-/

namespace BezOS
namespace Aml

open Lib

/-! ## Nodes -/

inductive AmlAnyId
  | node (index : Nat)
  | kInvalid
  deriving DecidableEq

structure AmlName where
  prefixCount : Nat := 0
  useroot : Bool := false
  segments : List (List UInt8) := []
  deriving DecidableEq

inductive AmlDataType
  | byte | word | dword | qword | string | buffer | package | arg | local
  deriving DecidableEq

inductive AmlUnary
  | not | derefOf
  deriving DecidableEq

inductive AmlExpression
  | increment | decrement
  deriving DecidableEq

inductive AmlStatement
  | «continue» | «break» | breakPoint
  deriving DecidableEq

inductive AmlBinary
  | equal | less | greater | or | and
  deriving DecidableEq

inductive AmlBinaryTac
  | sub | add | mul | index | and | or | shiftLeft | shiftRight
  deriving DecidableEq

inductive AmlUnaryTac
  | findSetLeftBit | findSetRightBit | toHexString | toBuffer | toInteger
  deriving DecidableEq

inductive AmlWait
  | stall | sleep
  deriving DecidableEq

/-- `AmlTermType`, with the type inside the terms that have one. -/
inductive AmlTermType
  | name | method | package | data (type : AmlDataType) | store | opRegion | mutex | scope | alias
  | device | processor | ifElse | else | while | return | condRefOf | sizeOf | field | methodInvoke
  | indexField | external | powerRes | thermalZone | createByteField | createWordField
  | createDwordField | createQwordField | unary (type : AmlUnary)
  | expression (type : AmlExpression) | binary (type : AmlBinary)
  | binaryTac (type : AmlBinaryTac) | unaryTac (type : AmlUnaryTac) | toString
  | statement (type : AmlStatement) | fatal | divide | wait (type : AmlWait) | acquire | release
  | notify
  deriving DecidableEq

inductive AmlValue
  | id (id : AmlAnyId)
  | name (name : AmlName)
  | number (value : Nat)
  | text (bytes : List UInt8)
  | buffer (size : AmlAnyId) (data : List UInt8)
  | arg (object : UInt8)
  | local (object : UInt8)
  | nullName
  | debugObject
  | terms (terms : List AmlAnyId)
  deriving DecidableEq

/-- A term; only branches use `otherwise`, which the code leaves zero. -/
structure AmlNode where
  type : AmlTermType
  fields : List AmlValue
  otherwise : AmlAnyId := .node 0
  deriving DecidableEq

structure AmlNodeBuffer where
  mNodes : List AmlNode
  mOnes : AmlDataType × Nat
  mError : Bool
  deriving DecidableEq

/-! ## The parser -/

/-- A parser over a span, the nodes, and whether a parser ever stood behind the end of its span or
of the package it skips. -/
structure AmlState where
  mOffset : Nat
  mCode : List UInt8
  nodes : AmlNodeBuffer
  overran : Bool
  deriving DecidableEq

abbrev AmlM := StateT AmlState (Except Fault)

def skip (count : Nat) : AmlM Unit := modify fun s =>
  let offset := (s.mOffset + count) % 2 ^ 32
  { s with mOffset := offset, overran := s.overran || decide (s.mCode.length < offset) }

def peek : AmlM UInt8 := do
  let s ← get
  pure (s.mCode.getD s.mOffset 0)

def read : AmlM UInt8 := do
  let s ← get
  if s.mCode.length ≤ s.mOffset then pure 0
  else do
    skip 1
    pure (s.mCode.getD s.mOffset 0)

def consume (v : UInt8) : AmlM Bool := do
  let c ← peek
  if c = v then do
    skip 1
    pure true
  else pure false

def consumeSeq (seq : List UInt8) : AmlM Bool := do
  let s ← get
  if s.mCode.length < s.mOffset + seq.length then pure false
  else if (s.mCode.drop s.mOffset).take seq.length = seq then do
    skip seq.length
    pure true
  else pure false

def done : AmlM Bool := do
  let s ← get
  pure (decide (s.mCode.length ≤ s.mOffset))

def offset : AmlM Nat := do
  let s ← get
  pure s.mOffset

/-- A parser over a part of the span: `std::span::subspan` asks for a part in range. -/
def subspan (count : Nat) (body : AmlM AmlValue) : AmlM AmlValue := fun s =>
  if s.mOffset + count ≤ s.mCode.length then do
    let (value, t) ← body
      { s with mOffset := 0, mCode := (s.mCode.drop s.mOffset).take count }
    pure (value, { t with mOffset := s.mOffset + count, mCode := s.mCode })
  else .error .badAccess

def setInvalid : AmlM Unit := modify fun s =>
  { s with nodes := { s.nodes with mError := true } }

def error : AmlM Bool := do
  let s ← get
  pure s.nodes.mError

/-- `ReportError`, less its messages. -/
def reportError : AmlM Unit := setInvalid

/-- `code.add`. -/
def add (type : AmlTermType) (fields : List AmlValue) : AmlM AmlValue := do
  let s ← get
  let nodes := s.nodes.mNodes ++ [{ type := type, fields := fields }]
  modify fun s => { s with nodes := { s.nodes with mNodes := nodes } }
  pure (.id (.node s.nodes.mNodes.length))

/-! ## Names -/

def isLeadNameChar (c : UInt8) : Bool := (0x41 ≤ c && c ≤ 0x5a) || c == 0x5f

def isNameChar (c : UInt8) : Bool :=
  (0x41 ≤ c && c ≤ 0x5a) || (0x30 ≤ c && c ≤ 0x39) || c == 0x5f

def kPrefixChar : UInt8 := 0x5e
def kRootChar : UInt8 := 0x5c
def kDualNamePrefix : UInt8 := 0x2e
def kMultiNamePrefix : UInt8 := 0x2f
def kNullName : UInt8 := 0x00

def getNameChar : AmlM UInt8 := do
  let next ← read
  if ¬ isNameChar next then reportError
  pure next

/-- `segments.add`: there is room for eight. -/
def AmlName.add (name : AmlName) (segment : List UInt8) : AmlName :=
  if name.segments.length < 8 then { name with segments := name.segments ++ [segment] } else name

def nameSegBody (dst : AmlName) (lead : UInt8) : AmlM AmlName := do
  if lead ≠ kRootChar then do
    if ¬ isLeadNameChar lead then reportError
    let a ← getNameChar
    let b ← getNameChar
    let c ← getNameChar
    pure (dst.add [lead, a, b, c])
  else do
    let a ← getNameChar
    let b ← getNameChar
    let c ← getNameChar
    let _ ← getNameChar
    pure (dst.add [lead, a, b, c])

def nameSeg (dst : AmlName) : AmlM AmlName := do
  let lead ← read
  nameSegBody dst lead

def nameSegs : Nat → AmlName → AmlM AmlName
  | 0, dst => pure dst
  | count + 1, dst => do
      let dst ← nameSeg dst
      nameSegs count dst

def namePath (dst : AmlName) : AmlM AmlName := do
  let it ← read
  if it = kMultiNamePrefix then do
    let count ← read
    nameSegs count.toNat dst
  else if it = kDualNamePrefix then nameSegs 2 dst
  else if it = kNullName then pure dst
  else nameSegBody dst it

/-- The loop of `PrefixPath`, which takes a byte each time. -/
def prefixPathFrom : Nat → AmlName → AmlM AmlName
  | 0, name => pure name
  | fuel + 1, name => do
      if ← consume kPrefixChar then
        prefixPathFrom fuel { name with prefixCount := (name.prefixCount + 1) % 2 ^ 8 }
      else pure name

def prefixPath (name : AmlName) : AmlM AmlName := do
  let s ← get
  prefixPathFrom s.mCode.length name

def nameString : AmlM AmlValue := do
  let letter ← peek
  if letter = kRootChar then do
    skip 1
    let name ← namePath { useroot := true }
    pure (.name name)
  else do
    let name ← prefixPath {}
    let name ← namePath name
    pure (.name name)

/-! ## Data -/

/-- The bytes of a number, the lowest first: `ByteData`, `WordData`, `DwordData` and `QwordData`. -/
def dataBytes : Nat → AmlM Nat
  | 0 => pure 0
  | count + 1 => do
      let c ← read
      let rest ← dataBytes count
      pure (c.toNat + 256 * rest)

/-- The loop of `StringData`, which takes a byte each time. -/
def stringFrom : Nat → AmlM Unit
  | 0 => pure ()
  | fuel + 1 => do
      let c ← peek
      if c ≠ 0 then do
        skip 1
        stringFrom fuel

def stringData : AmlM AmlValue := do
  let s ← get
  stringFrom s.mCode.length
  let last ← offset
  let _ ← consume 0
  pure (.text ((s.mCode.drop s.mOffset).take (last - s.mOffset)))

def pkgLengthFrom : Nat → Nat → Nat → AmlM Nat
  | 0, _, value => pure value
  | count + 1, i, value => do
      let c ← read
      pkgLengthFrom count (i + 1) (value ||| c.toNat <<< ((i + 1) * 8 - 4))

def pkgLength : AmlM Nat := do
  let lead ← read
  let count := (lead &&& 0b11000000) >>> 6
  if count ≠ 0 then pkgLengthFrom count.toNat 0 (lead &&& 0b00001111).toNat
  else pure (lead &&& 0b00111111).toNat

/-! ## The grammar of the functions -/

inductive Nonterminal
  | term
  | termArg
  | dataRefObject
  | superName
  deriving DecidableEq

inductive Symbol
  | constant (value : AmlValue)
  | nameString
  | data (count : Nat)
  | stringData
  | bufferData
  | defPackage
  | target
  | nonterminal (n : Nonterminal)
  deriving DecidableEq

namespace Symbol

abbrev byteData : Symbol := .data 1
abbrev wordData : Symbol := .data 2
abbrev dwordData : Symbol := .data 4
abbrev qwordData : Symbol := .data 8
abbrev termArg : Symbol := .nonterminal .termArg
abbrev superName : Symbol := .nonterminal .superName
abbrev dataRefObject : Symbol := .nonterminal .dataRefObject

end Symbol

inductive PackageBody
  | termList
  | skip
  deriving DecidableEq

/-- A function that adds a node of the symbols it reads, without or with a package, or that hands
back the one symbol it reads; and `code.ones`. -/
inductive Production
  | plain (type : AmlTermType) (symbols : List Symbol)
  | package (type : AmlTermType) (header : List Symbol) (body : PackageBody)
  | value (symbol : Symbol)
  | ones
  deriving DecidableEq

section Tables

open Symbol Production

def nameTerm : Production := plain .name [.nameString, dataRefObject]
def aliasTerm : Production := plain .alias [.nameString, .nameString]
def scopeTerm : Production := package .scope [.nameString] .termList
def methodTerm : Production := package .method [.nameString, byteData] .termList
def deviceTerm : Production := package .device [.nameString] .termList
def processorTerm : Production :=
  package .processor [.nameString, byteData, dwordData, byteData] .termList
def defIfElse : Production := package .ifElse [termArg] .termList
def defElse : Production := package .else [] .termList
def defReturn : Production := plain .return [termArg]
def defWhile : Production := package .while [termArg] .termList
def defMethodInvoke : Production := plain .methodInvoke [.nameString, .constant (.terms [])]
def confRefOf : Production := plain .condRefOf [superName, .target]
def defOpRegion : Production := plain .opRegion [.nameString, byteData, termArg, termArg]
def defMutex : Production := plain .mutex [.nameString, byteData]
def defField : Production := package .field [.nameString, byteData] .skip
def defThermalZone : Production := package .thermalZone [.nameString] .termList
def defIndexField : Production := package .indexField [.nameString, .nameString, byteData] .skip
def defPowerRes : Production := package .powerRes [.nameString, byteData, wordData] .termList
def defExternal : Production := plain .external [.nameString, byteData, byteData]
def defStore : Production := plain .store [termArg, superName]
def defCreateByteField : Production := plain .createByteField [termArg, termArg, .nameString]
def defCreateWordField : Production := plain .createWordField [termArg, termArg, .nameString]
def defCreateDwordField : Production := plain .createDwordField [termArg, termArg, .nameString]
def defCreateQwordField : Production := plain .createQwordField [termArg, termArg, .nameString]
def defLNot : Production := plain (.unary .not) [termArg]
def defLEqual : Production := plain (.binary .equal) [termArg, termArg]
def defLGreater : Production := plain (.binary .greater) [termArg, termArg]
def defLOr : Production := plain (.binary .or) [termArg, termArg]
def defLAnd : Production := plain (.binary .and) [termArg, termArg]
def defAdd : Production := plain (.binaryTac .add) [termArg, termArg, .target]
def defMultiply : Production := plain (.binaryTac .mul) [termArg, termArg, .target]
def defLLess : Production := plain (.binary .less) [termArg, termArg]
def defSizeOf : Production := plain .sizeOf [superName]
def defToHexString : Production := plain (.unaryTac .toHexString) [termArg, .target]
def defToBuffer : Production := plain (.unaryTac .toBuffer) [termArg, .target]
def defToInteger : Production := plain (.unaryTac .toInteger) [termArg, .target]
def defToString : Production := plain .toString [termArg, termArg, .target]
def defDecrement : Production := plain (.expression .decrement) [superName]
def defIncrement : Production := plain (.expression .increment) [superName]
def defDerefOf : Production := plain (.unary .derefOf) [termArg]
def defSubtract : Production := plain (.binaryTac .sub) [termArg, termArg, .target]
def defIndex : Production := plain (.binaryTac .index) [termArg, termArg, .target]
def defAnd : Production := plain (.binaryTac .and) [termArg, termArg, .target]
def defOr : Production := plain (.binaryTac .or) [termArg, termArg, .target]
def defShiftLeft : Production := plain (.binaryTac .shiftLeft) [termArg, termArg, .target]
def defShiftRight : Production := plain (.binaryTac .shiftRight) [termArg, termArg, .target]
def defAcquire : Production := plain .acquire [superName, wordData]
def defRelease : Production := plain .release [superName]
def defFindSetLeftBit : Production := plain (.unaryTac .findSetLeftBit) [termArg, .target]
def defFindSetRightBit : Production := plain (.unaryTac .findSetRightBit) [termArg, .target]
def defNotify : Production := plain .notify [superName, termArg]
def defContinue : Production := plain (.statement .continue) []
def defBreak : Production := plain (.statement .break) []
def defBreakPoint : Production := plain (.statement .breakPoint) []
def defFatal : Production := plain .fatal [byteData, dwordData, termArg]
def defDivide : Production := plain .divide [termArg, termArg, .target, .target]
def defSleep : Production := plain (.wait .sleep) [termArg]
def defStall : Production := plain (.wait .stall) [termArg]

/-- One of the checks a function goes through: for an opcode, which is taken, or for the front of a
name, which is not. -/
inductive Choice
  | op (seq : List UInt8) (production : Production)
  | name (production : Production)
  deriving DecidableEq

def kArgOps : List UInt8 := [0x68, 0x69, 0x6a, 0x6b, 0x6c, 0x6d, 0x6e]
def kLocalOps : List UInt8 := [0x60, 0x61, 0x62, 0x63, 0x64, 0x65, 0x66, 0x67]

/-- `ArgObject` and `LocalObject`, for a term or for a name. -/
def argObject (make : AmlValue → Production) : List Choice :=
  kArgOps.map fun op => .op [op] (make (.arg op))

def localObject (make : AmlValue → Production) : List Choice :=
  kLocalOps.map fun op => .op [op] (make (.local op))

def addTerm (type : AmlDataType) (value : AmlValue) : Production :=
  plain (.data type) [.constant value]

def statementOpcode : List Choice :=
  [.op [0xa5] defBreak, .op [0xcc] defBreakPoint, .op [0x9f] defContinue, .op [0x9c] defToString,
    .op [0x5b, 0x32] defFatal, .op [0xa0] defIfElse, .op [0xa1] defElse, .op [0xa4] defReturn,
    .op [0xa2] defWhile, .op [0x5b, 0x27] defRelease, .op [0x86] defNotify,
    .op [0x5b, 0x21] defStall, .op [0x5b, 0x22] defSleep]

def expressionOpcode : List Choice :=
  [.op [0x00] (addTerm .byte (.number 0)), .op [0x01] (addTerm .byte (.number 1)),
    .op [0x77] defMultiply, .op [0x92] defLNot, .op [0x91] defLOr, .op [0x90] defLAnd,
    .op [0x93] defLEqual, .op [0x78] defDivide, .op [0x95] defLLess, .op [0x94] defLGreater,
    .op [0x87] defSizeOf, .op [0x5b, 0x12] confRefOf, .op [0x72] defAdd,
    .op [0x98] defToHexString, .op [0x96] defToBuffer, .op [0x75] defIncrement,
    .op [0x76] defDecrement, .op [0x83] defDerefOf, .op [0x74] defSubtract, .op [0x88] defIndex,
    .op [0x7b] defAnd, .op [0x7d] defOr, .op [0x5b, 0x23] defAcquire, .op [0x79] defShiftLeft,
    .op [0x7a] defShiftRight, .op [0x81] defFindSetLeftBit, .op [0x82] defFindSetRightBit,
    .op [0x99] defToInteger]

def computationalData : List Choice :=
  [.op [0x0a] (plain (.data .byte) [byteData]), .op [0x0b] (plain (.data .word) [wordData]),
    .op [0x0c] (plain (.data .dword) [dwordData]), .op [0x0e] (plain (.data .qword) [qwordData]),
    .op [0x0d] (plain (.data .string) [.stringData]),
    .op [0x11] (plain (.data .buffer) [.bufferData]),
    .op [0x12] (plain (.data .package) [.defPackage]),
    .op [0xff] ones]

def referenceType : List Choice := [.op [0x83] defDerefOf, .op [0x88] defIndex]

def dataRefObjectChoices : List Choice :=
  [.op [0x00] (addTerm .byte (.number 0)), .op [0x01] (addTerm .byte (.number 1))] ++
    computationalData ++ [.name defMethodInvoke] ++ argObject (addTerm .arg) ++
    localObject (addTerm .local)

def choices : Nonterminal → List Choice
  | .dataRefObject => dataRefObjectChoices
  -- what is nothing else is left to `DataRefObject`
  | .termArg =>
      argObject (addTerm .arg) ++ localObject (addTerm .local) ++ expressionOpcode ++
        dataRefObjectChoices
  | .superName =>
      [.op [0x5b, 0x31] (value (.constant .debugObject))] ++ referenceType ++
        localObject (fun object => value (.constant object)) ++
        argObject (fun object => value (.constant object))
  | .term =>
      [.op [0x08] nameTerm, .op [0x06] aliasTerm, .op [0x10] scopeTerm, .op [0x14] methodTerm,
        .op [0x15] defExternal, .op [0xa0] defIfElse, .op [0xa1] defElse, .op [0x70] defStore,
        .op [0x8c] defCreateByteField, .op [0x8b] defCreateWordField,
        .op [0x8a] defCreateDwordField, .op [0x8f] defCreateQwordField, .op [0x5b, 0x81] defField,
        .op [0x5b, 0x82] deviceTerm, .op [0x5b, 0x83] processorTerm,
        .op [0x5b, 0x86] defIndexField, .op [0x5b, 0x84] defPowerRes,
        .op [0x5b, 0x85] defThermalZone, .op [0x5b, 0x80] defOpRegion, .op [0x5b, 0x01] defMutex] ++
        computationalData ++ [.name defMethodInvoke] ++ statementOpcode ++ expressionOpcode ++
        localObject (addTerm .local) ++ argObject (addTerm .arg)

end Tables

/-! ## Running it -/

inductive Goal
  | nonterminal (n : Nonterminal)
  /-- The loop of `TermList` with the terms it has. -/
  | termList (terms : List AmlAnyId)
  /-- The loop of `DefPackage` with the terms it has. -/
  | elements (terms : List AmlAnyId)
  /-- The loop of `BufferData`: the counter, its bound, the bytes it has. -/
  | fill (i space : Nat) (data : List UInt8)
  deriving DecidableEq

def AmlValue.toId : AmlValue → AmlAnyId
  | .id node => node
  | _ => .kInvalid

def AmlValue.toTerms : AmlValue → List AmlAnyId
  | .terms list => list
  | _ => []

def AmlValue.toText : AmlValue → List UInt8
  | .text bytes => bytes
  | _ => []

/-- `length - (back - front)`: what the length of a package leaves behind its header. -/
def packageSpace (w length front back : Nat) : Nat := wrapSub w length (wrapSub w back front)

section Step

variable (run : Goal → AmlM AmlValue)

def bufferData : AmlM AmlValue := do
  let front ← offset
  let length ← pkgLength
  let size ← run (.nonterminal .termArg)
  let back ← offset
  let space := packageSpace (2 ^ 64) length front back
  let data ← run (.fill 0 space [])
  pure (.buffer size.toId data.toText)

def defPackage : AmlM AmlValue := do
  let front ← offset
  let length ← pkgLength
  let count ← dataBytes 1
  let back ← offset
  if length ≠ 0 then do
    let terms ← subspan (packageSpace (2 ^ 32) length front back) (run (.elements []))
    add .package [.number count, terms]
  else add .package [.number count, .terms []]

def target : AmlM AmlValue := do
  if ← consume 0 then pure .nullName
  else run (.nonterminal .superName)

def symbol : Symbol → AmlM AmlValue
  | .constant value => pure value
  | .nameString => Aml.nameString
  | .data count => do
      let value ← dataBytes count
      pure (.number value)
  | .stringData => Aml.stringData
  | .bufferData => bufferData run
  | .defPackage => defPackage run
  | .target => target run
  | .nonterminal n => run (.nonterminal n)

def symbols : List Symbol → AmlM (List AmlValue)
  | [] => pure []
  | x :: rest => do
      let value ← symbol run x
      let values ← symbols rest
      pure (value :: values)

/-- `parser.skip(length - (back - front))`; the end of the package may be behind that of the span,
or in front of what was read of the package. -/
def skipPackage (front length : Nat) : AmlM Unit := modify fun s =>
  { s with
    mOffset := (s.mOffset + packageSpace (2 ^ 32) length front s.mOffset) % 2 ^ 32
    overran := s.overran || decide (s.mCode.length < front + length ∨ front + length < s.mOffset) }

def production : Production → AmlM AmlValue
  | .plain type list => do
      let fields ← symbols run list
      add type fields
  | .package type header .termList => do
      let front ← offset
      let length ← pkgLength
      let fields ← symbols run header
      let back ← offset
      let terms ← subspan (packageSpace (2 ^ 32) length front back) (run (.termList []))
      add type (fields ++ [terms])
  | .package type header .skip => do
      let front ← offset
      let length ← pkgLength
      let fields ← symbols run header
      skipPackage front length
      add type fields
  | .value x => symbol run x
  | .ones => do
      let s ← get
      add (.data s.nodes.mOnes.1) [.number s.nodes.mOnes.2]

def isNameStart (c : UInt8) : Bool := isLeadNameChar c || c == kRootChar

def choose : List Choice → AmlM (Option Production)
  | [] => pure none
  | .op seq p :: rest => do
      if ← consumeSeq seq then pure (some p) else choose rest
  | .name p :: rest => do
      let c ← peek
      if isNameStart c then pure (some p) else choose rest

def fallback : Nonterminal → AmlM AmlValue
  | .term => do
      setInvalid
      let _ ← consume 0x5b
      reportError
      pure (.id .kInvalid)
  | .termArg | .dataRefObject => do
      reportError
      pure (.id .kInvalid)
  | .superName => Aml.nameString

def nonterminal (n : Nonterminal) : AmlM AmlValue := do
  match ← choose (choices n) with
  | some p => production run p
  | none => fallback n

/-- `Term` does nothing after an error. -/
def term : AmlM AmlValue := do
  if ← error then pure (.id .kInvalid)
  else nonterminal run .term

def mergeElse (nodes : List AmlNode) : List AmlAnyId → List AmlNode × List AmlAnyId
  | .node i :: .node j :: rest =>
      if (nodes[i]?.map AmlNode.type) = some .ifElse ∧ (nodes[j]?.map AmlNode.type) = some .else then
        let nodes := nodes.modify i fun node => { node with otherwise := .node j }
        let (nodes, merged) := mergeElse nodes rest
        (nodes, .node i :: merged)
      else
        let (nodes, merged) := mergeElse nodes (.node j :: rest)
        (nodes, .node i :: merged)
  | x :: rest =>
      let (nodes, merged) := mergeElse nodes rest
      (nodes, x :: merged)
  | [] => (nodes, [])

def finishTerms (terms : List AmlAnyId) : AmlM AmlValue := do
  let s ← get
  let (nodes, merged) := mergeElse s.nodes.mNodes terms
  modify fun s => { s with nodes := { s.nodes with mNodes := nodes } }
  pure (.terms merged)

def step : Goal → AmlM AmlValue
  | .nonterminal .term => term run
  | .nonterminal n => nonterminal run n
  | .termList terms => do
      if ← done then finishTerms terms
      else do
        let value ← run (.nonterminal .term)
        let failed ← error
        if failed ∨ value.toId = .kInvalid then finishTerms terms
        else run (.termList (terms ++ [value.toId]))
  | .elements terms => do
      if ← done then pure (.terms terms)
      else do
        let value ← run (.nonterminal .dataRefObject)
        run (.elements (terms ++ [value.toId]))
  | .fill i space data =>
      if i < space then do
        let c ← read
        run (.fill ((i + 1) % 2 ^ 32) space (data ++ [c]))
      else pure (.text data)

end Step

def run : Nat → Goal → AmlM AmlValue
  | 0 => fun _ _ => .error .outOfFuel
  | fuel + 1 => step (run fuel)

/-! ## Tables -/

/-- The code of a table: the length in its header is of 32 bits and includes the header. -/
structure AmlTable where
  code : List UInt8
  revision : Nat
  short : code.length + 36 < 2 ^ 32

def AmlTable.init (t : AmlTable) : AmlState where
  mOffset := 0
  mCode := t.code
  nodes :=
    { mNodes := [{ type := .scope, fields := [.name {}, .terms []] }]
      mOnes := if t.revision = 0 then (.dword, 0xFFFFFFFF) else (.qword, 0xFFFFFFFFFFFFFFFF)
      mError := false }
  overran := false

def walkAml (t : AmlTable) (fuel : Nat) : Except Fault (AmlValue × AmlState) :=
  run fuel (.termList []) t.init

end Aml
end BezOS
