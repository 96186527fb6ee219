import Mathlib.Algebra.Group.Nat.Defs
import BezOS.Lib.Collect
import BezOS.Lib.Orbit

/-!
# Probing the PCI configuration space

`pci/pci.cpp` and the reads of `pci/config.cpp`, over configuration spaces of any contents. The walk
is given by the functions it comes to, in their order.
-/

namespace BezOS
namespace Pci

open Lib

/-! ## The configuration space -/

/-- What `read32` of a bus, a slot, a function and an offset returns. -/
structure IConfigSpace where
  read32 : UInt8 → Nat → Nat → Nat → UInt32

namespace IConfigSpace

variable (config : IConfigSpace) (bus : UInt8) (slot function offset : Nat)

def read16 : Nat :=
  let data := config.read32 bus slot function (offset / 4 * 4)
  (data.toNat >>> ((offset &&& 2) * 8)) % 2 ^ 16

def read8 : UInt8 :=
  let data := config.read32 bus slot function (offset / 4 * 4)
  UInt8.ofNat (data.toNat >>> (offset % 4 * 8))

end IConfigSpace

structure Capability where
  id : Nat
  next : Nat
  control : Nat
  deriving DecidableEq

structure ConfigHeader where
  deviceId : Nat
  vendorId : Nat
  command : Nat := 0
  status : Nat := 0
  cls : UInt8 := 0
  subclass : UInt8 := 0
  programmable : UInt8 := 0
  revision : UInt8 := 0
  type : UInt8 := 0
  deriving DecidableEq

namespace ConfigHeader

/-- `DeviceId::eInvalid` and `VendorId::eInvalid` -/
def kInvalid : Nat := 0xffff

variable (header : ConfigHeader)

def isValid : Bool := header.deviceId ≠ kInvalid

def isMultiFunction : Bool := header.type &&& 0x80 ≠ 0

def hasCapabilityList : Bool := header.status &&& 0x10 ≠ 0

def isPciBridge : Bool := header.cls = 0x6 ∧ header.subclass = 0x4

def capabilityOffset : Nat := if header.type &&& 0x7f = 2 then 0x14 else 0x34

end ConfigHeader

structure BridgeConfig where
  bar0 : Nat
  bar1 : Nat
  primaryBus : UInt8
  secondaryBus : UInt8
  subordinateBus : UInt8
  deriving DecidableEq

/-- `acpi::McfgAllocation`, of which the walk looks at the buses. -/
structure McfgAllocation where
  startBusNumber : UInt8
  endBusNumber : UInt8
  deriving DecidableEq

abbrev Function := UInt8 × Nat × Nat

variable (config : IConfigSpace)

/-! ## The walk -/

def readCapability (bus : UInt8) (slot function offset : Nat) : Capability :=
  let data := (config.read32 bus slot function offset).toNat
  { id := data % 2 ^ 8
    next := (data >>> 8) % 2 ^ 8
    control := (data >>> 16) % 2 ^ 16 }

/-- The loop of `ReadCapabilityList`. -/
def capabilitiesFrom (bus : UInt8) (slot function : Nat) : Nat → Nat → Option (List Capability)
  | 0, _ => none
  | fuel + 1, offset => do
      let capability := readCapability config bus slot function offset
      if capability.next = 0 then some [capability]
      else do
        let rest ← capabilitiesFrom bus slot function fuel capability.next
        some (capability :: rest)

def firstCapability (bus : UInt8) (slot function : Nat) (header : ConfigHeader) : Nat :=
  (config.read8 bus slot function header.capabilityOffset).toNat / 4 * 4

def readCapabilityList (fuel : Nat) (bus : UInt8) (slot function : Nat) (header : ConfigHeader) :
    Option (List Capability) :=
  capabilitiesFrom config bus slot function fuel (firstCapability config bus slot function header)

def queryHeader (bus : UInt8) (slot function : Nat) : ConfigHeader :=
  let vendor := config.read16 bus slot function 0x0
  if vendor = 0xffff then
    { deviceId := ConfigHeader.kInvalid, vendorId := ConfigHeader.kInvalid }
  else
    { deviceId := config.read16 bus slot function 0x2
      vendorId := vendor
      command := config.read16 bus slot function 0x4
      status := config.read16 bus slot function 0x6
      cls := config.read8 bus slot function (0x8 + 3)
      subclass := config.read8 bus slot function (0x8 + 2)
      programmable := config.read8 bus slot function (0x8 + 1)
      revision := config.read8 bus slot function (0x8 + 0)
      type := config.read8 bus slot function (0xc + 2) }

def queryBridge (bus : UInt8) (slot function : Nat) : BridgeConfig where
  bar0 := config.read16 bus slot function 0x10
  bar1 := config.read16 bus slot function 0x14
  subordinateBus := config.read8 bus slot function 0x19
  secondaryBus := config.read8 bus slot function 0x1a
  primaryBus := config.read8 bus slot function 0x1b

section Probe

variable (fuel : Nat) (probePciBus : UInt8 → Option (List Function)) (bus : UInt8) (slot : Nat)

/-- `probePciFunction`, which calls `probePciBus` for the bus behind a bridge: the header, and the
functions that the walk comes to. -/
def probePciFunction (function : Nat) : Option (ConfigHeader × List Function) := do
  let header := queryHeader config bus slot function
  if ¬ header.isValid then some (header, [])
  else do
    if header.hasCapabilityList then
      let _ ← readCapabilityList config fuel bus slot function header
    let behind ←
      if header.isPciBridge then probePciBus (queryBridge config bus slot function).secondaryBus
      else some []
    some (header, (bus, slot, function) :: behind)

def probePciDevice : Option (List Function) := do
  let (header, found) ← probePciFunction config fuel probePciBus bus slot 0
  if ¬ header.isValid then some found
  else if header.isMultiFunction then do
    let rest ← collect (fun function =>
      (probePciFunction config fuel probePciBus bus slot function).map Prod.snd) (List.range' 1 7)
    some (found ++ rest)
  else some found

end Probe

def probePciBus : Nat → UInt8 → Option (List Function)
  | 0, _ => none
  | fuel + 1, bus =>
      collect (probePciDevice config fuel (probePciBus fuel) bus) (List.range 32)

/-- The values of `bus` in `for (bus = first; bus < last; bus++)`. -/
def busRange (first last : UInt8) : List UInt8 :=
  (List.range' first.toNat (last.toNat - first.toNat)).map UInt8.ofNat

def probeBusRange (fuel : Nat) (first last : UInt8) : Option (List Function) :=
  collect (probePciBus config fuel) (busRange first last)

/-- The table is none where the source has a null pointer, else its allocations. -/
def probeConfigSpace (fuel : Nat) (mcfg : Option (List McfgAllocation)) : Option (List Function) :=
  match mcfg with
  | none => probeBusRange config fuel 0 255
  | some allocations =>
      collect (fun allocation => probeBusRange config fuel allocation.startBusNumber
        allocation.endBusNumber) allocations

/-! ## What is there to find -/

/-- A function is present: its header is valid, and those behind the first one of a slot are those
of a device with many functions. -/
def Present (f : Function) : Prop :=
  f.2.1 < 32 ∧ f.2.2 < 8 ∧ (queryHeader config f.1 f.2.1 f.2.2).isValid = true ∧
    (f.2.2 = 0 ∨ (queryHeader config f.1 f.2.1 0).isValid = true ∧
      (queryHeader config f.1 f.2.1 0).isMultiFunction = true)

def header (f : Function) : ConfigHeader :=
  queryHeader config f.1 f.2.1 f.2.2

def secondaryBus (f : Function) : UInt8 :=
  config.read8 f.1 f.2.1 f.2.2 0x19

/-- The walk ends, and comes to every function that is present on a bus of an allocation, its last
bus included, or on the secondary bus of a bridge it comes to. -/
def ProbesAll (mcfg : Option (List McfgAllocation)) : Prop :=
  ∃ fuel found, probeConfigSpace config fuel mcfg = some found ∧
    (∀ allocation ∈ mcfg.getD [], ∀ f, Present config f → allocation.startBusNumber ≤ f.1 →
      f.1 ≤ allocation.endBusNumber → f ∈ found) ∧
    ∀ bridge ∈ found, (header config bridge).isPciBridge = true →
      ∀ f, Present config f → f.1 = secondaryBus config bridge → f ∈ found

/-! ## When all of it is found -/

def nextCapability (f : Function) (offset : Nat) : Option Nat :=
  let next := (readCapability config f.1 f.2.1 f.2.2 offset).next
  if next = 0 then none else some next

/-- The list of capabilities of a function, if there is one, comes to no offset twice. -/
def CapabilitiesEnd (f : Function) : Prop :=
  (header config f).hasCapabilityList = true →
    ∀ i j a b, i < j →
      orbit (nextCapability config f) i
        (firstCapability config f.1 f.2.1 f.2.2 (header config f)) = some a →
      orbit (nextCapability config f) j
        (firstCapability config f.1 f.2.1 f.2.2 (header config f)) = some b → a ≠ b

/-- The byte at offset 0x1a of a bridge on the one bus names the other one. -/
def Bridges (bus next : UInt8) : Prop :=
  ∃ f, Present config f ∧ f.1 = bus ∧ (header config f).isPciBridge = true ∧
    next = config.read8 f.1 f.2.1 f.2.2 0x1a

def Started (mcfg : Option (List McfgAllocation)) (bus : UInt8) : Prop :=
  match mcfg with
  | none => bus < 255
  | some allocations => ∃ allocation ∈ allocations,
      allocation.startBusNumber ≤ bus ∧ bus < allocation.endBusNumber

def Reached (mcfg : Option (List McfgAllocation)) (bus : UInt8) : Prop :=
  ∃ start, Started mcfg start ∧ Relation.ReflTransGen (Bridges config) start bus

/-- A bus that needs no visit: it is reached, or has no function. -/
def Covered (mcfg : Option (List McfgAllocation)) (bus : UInt8) : Prop :=
  Reached config mcfg bus ∨ ∀ f, Present config f → f.1 ≠ bus

structure Enumerable (mcfg : Option (List McfgAllocation)) : Prop where
  capabilities : ∀ f, Present config f → Reached config mcfg f.1 → CapabilitiesEnd config f
  acyclic : ∀ bus, Reached config mcfg bus → ¬ Relation.TransGen (Bridges config) bus bus
  last_bus : ∀ allocation ∈ mcfg.getD [],
    allocation.startBusNumber ≤ allocation.endBusNumber →
      Covered config mcfg allocation.endBusNumber
  secondary : ∀ f, Present config f → Reached config mcfg f.1 →
    (header config f).isPciBridge = true → Covered config mcfg (secondaryBus config f)

end Pci
end BezOS
