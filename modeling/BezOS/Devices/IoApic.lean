import Mathlib.Algebra.GroupWithZero.Nat
import Mathlib.Logic.Function.Basic
import Mathlib.Tactic.Common
import Mathlib.Data.List.Forall2

/-!
# I/O APICs

The interrupt routing of `apic.cpp`. An I/O APIC shows its registers through a window, one at a
time: `ioregsel` selects the register that `iowin` stands for. From register `0x10` on, every
input has a redirection entry of two registers. The inputs are numbered from the base of the
I/O APIC, and the overrides of the MADT say which of these numbers a legacy interrupt has.
-/

namespace BezOS

namespace apic

inductive Polarity
  | eActiveHigh
  | eActiveLow
  deriving DecidableEq

inductive Trigger
  | eEdge
  | eLevel
  deriving DecidableEq

/-- `apic::IvtConfig`, without the timer mode, which no redirection entry has. -/
structure IvtConfig where
  vector : BitVec 8
  polarity : Polarity
  trigger : Trigger
  enabled : Bool
  deriving DecidableEq

end apic

/-- `km::IoApic`, with the registers of the device behind its window. -/
structure IoApic where
  mIsrBase : BitVec 32
  ioregsel : BitVec 32
  registers : BitVec 32 → BitVec 32

namespace IoApic

def kIoApicVersion : BitVec 32 := 0x1

def kActiveLow : BitVec 64 := 1 <<< 13
def kLevel : BitVec 64 := 1 <<< 15
def kMasked : BitVec 64 := 1 <<< 16

def select (a : IoApic) (field : BitVec 32) : IoApic := { a with ioregsel := field }

/-- What `iowin` shows, and the device with the register selected. -/
def read (a : IoApic) (field : BitVec 32) : BitVec 32 × IoApic :=
  let a := a.select field
  (a.registers a.ioregsel, a)

def write (a : IoApic) (field value : BitVec 32) : IoApic :=
  let a := a.select field
  { a with registers := Function.update a.registers a.ioregsel value }

def inputCount (a : IoApic) : BitVec 32 × IoApic :=
  let (version, a) := a.read kIoApicVersion
  (((version >>> 16) &&& 0xFF) + 1, a)

/-- `ioredirect`: the first register of an entry. -/
def redirectRegister (a : IoApic) (redirect : BitVec 32) : BitVec 32 :=
  (redirect - a.mIsrBase) * 2 + 0x10

/-- The entry `setRedirect` writes; `target` is the id of the local APIC. -/
def redirectEntry (config : apic.IvtConfig) (target : BitVec 32) : BitVec 64 :=
  let entry := config.vector.setWidth 64 ||| target.setWidth 64 <<< 56
  let entry := if config.polarity = .eActiveLow then entry ||| kActiveLow else entry
  let entry := if config.trigger = .eLevel then entry ||| kLevel else entry
  if config.enabled then entry else entry ||| kMasked

def setRedirect (config : apic.IvtConfig) (redirect target : BitVec 32) (a : IoApic) : IoApic :=
  let entry := redirectEntry config target
  let ioredirect := a.redirectRegister redirect
  let a := a.write (ioredirect + 0) (entry.setWidth 32)
  a.write (ioredirect + 1) ((entry >>> 32).setWidth 32)

def clearRedirect (redirect : BitVec 32) (a : IoApic) : IoApic :=
  let ioredirect := a.redirectRegister redirect
  let (low, a) := a.read (ioredirect + 0)
  a.write (ioredirect + 0) (low ||| kMasked.setWidth 32)

end IoApic

def ioApicContainsGsi (ioApic : IoApic) (gsi : BitVec 32) : Bool × IoApic :=
  let first := ioApic.mIsrBase
  let (inputs, ioApic) := ioApic.inputCount
  let last := first + inputs - 1
  (first ≤ gsi && gsi ≤ last, ioApic)

/-! ## The MADT -/

structure InterruptSourceOverride where
  bus : BitVec 8
  source : BitVec 8
  interrupt : BitVec 32
  flags : BitVec 16
  deriving DecidableEq

inductive MadtEntry
  | eInterruptSourceOverride (iso : InterruptSourceOverride)
  | other
  deriving DecidableEq

def getIsoTriggerMode (iso : InterruptSourceOverride) : apic.Trigger :=
  let mode := iso.flags &&& 0b1100
  if mode = 0b0000 ∨ mode = 0b0100 then .eEdge
  else if mode = 0b1100 then .eLevel
  else .eEdge

def getIsoPolarity (iso : InterruptSourceOverride) : apic.Polarity :=
  let mode := iso.flags &&& 0b11
  if mode = 0b00 ∨ mode = 0b11 then .eActiveLow
  else if mode = 0b01 then .eActiveHigh
  else .eActiveLow

/-- The loop over the MADT that both legacy calls make: the first override of the interrupt. -/
def findOverride (redirect : BitVec 32) : List MadtEntry → Option InterruptSourceOverride
  | [] => none
  | .eInterruptSourceOverride iso :: madt =>
      if iso.source.setWidth 32 = redirect then some iso else findOverride redirect madt
  | .other :: madt => findOverride redirect madt

/-! ## The set -/

structure IoApicSet where
  mMadt : List MadtEntry
  mIoApics : List IoApic

namespace IoApicSet

/-- The search that `setRedirect` and `clearRedirect` each make for themselves: `f` is done to the
first I/O APIC that has the input. -/
def atGsi (gsi : BitVec 32) (f : IoApic → IoApic) : List IoApic → List IoApic
  | [] => []
  | ioApic :: rest =>
      match ioApicContainsGsi ioApic gsi with
      | (true, ioApic) => f ioApic :: rest
      | (false, ioApic) => ioApic :: atGsi gsi f rest

def setRedirect (config : apic.IvtConfig) (redirect target : BitVec 32) (s : IoApicSet) :
    IoApicSet :=
  { s with mIoApics := atGsi redirect (IoApic.setRedirect config redirect target) s.mIoApics }

def clearRedirect (redirect : BitVec 32) (s : IoApicSet) : IoApicSet :=
  { s with mIoApics := atGsi redirect (IoApic.clearRedirect redirect) s.mIoApics }

def setLegacyRedirect (config : apic.IvtConfig) (redirect target : BitVec 32) (s : IoApicSet) :
    IoApicSet :=
  match findOverride redirect s.mMadt with
  | some iso =>
      let fixup : apic.IvtConfig := ⟨config.vector, getIsoPolarity iso, getIsoTriggerMode iso, true⟩
      s.setRedirect fixup iso.interrupt target
  | none => s.setRedirect config redirect target

def clearLegacyRedirect (redirect : BitVec 32) (s : IoApicSet) : IoApicSet :=
  match findOverride redirect s.mMadt with
  | some iso => s.clearRedirect iso.interrupt
  | none => s.clearRedirect redirect

end IoApicSet

end BezOS

/-!
## Legacy interrupts and their entries

A call on a set of I/O APICs reaches the redirection entry of the input it names and nothing else,
in every run of calls. What it writes there is what was asked for, with one exception: a legacy
interrupt that the MADT overrides is always unmasked, also when it was to be disabled.
-/

namespace BezOS
namespace IoApic

open BitVec Function

variable {a b : IoApic} {g h r : BitVec 32} {P : BitVec 64 → BitVec 64 → Prop}

def inputs (a : IoApic) : Nat := a.inputCount.1.toNat

def Contains (a : IoApic) (g : BitVec 32) : Prop :=
  a.mIsrBase.toNat ≤ g.toNat ∧ g.toNat < a.mIsrBase.toNat + a.inputs
  deriving Decidable

def entry (a : IoApic) (g : BitVec 32) : BitVec 64 :=
  a.registers (a.redirectRegister g + 1) ++ a.registers (a.redirectRegister g)

/-- The inputs are all interrupts that can be named. -/
def Fits (a : IoApic) : Prop := a.mIsrBase.toNat + a.inputs ≤ 2 ^ 32

/-! ## Registers -/

@[simp] lemma select_mIsrBase (a : IoApic) (r : BitVec 32) :
    (a.select r).mIsrBase = a.mIsrBase := rfl
@[simp] lemma select_registers (a : IoApic) (r : BitVec 32) :
    (a.select r).registers = a.registers := rfl
@[simp] lemma select_ioregsel (a : IoApic) (r : BitVec 32) : (a.select r).ioregsel = r := rfl
@[simp] lemma write_mIsrBase (a : IoApic) (r v : BitVec 32) :
    (a.write r v).mIsrBase = a.mIsrBase := rfl
@[simp] lemma write_registers (a : IoApic) (r v : BitVec 32) :
    (a.write r v).registers = update a.registers r v := rfl

lemma low_register (r : BitVec 32) : r + 0 = r := BitVec.add_zero r

lemma inputs_eq (a : IoApic) :
    a.inputs = (((a.registers kIoApicVersion) >>> 16) &&& 0xFF).toNat + 1 := by
  have hmask : (((a.registers kIoApicVersion) >>> 16) &&& 0xFF).toNat ≤ 255 := by
    rw [toNat_and]
    exact Nat.and_le_right
  have hcount : a.inputs = ((((a.registers kIoApicVersion) >>> 16) &&& 0xFF) + 1).toNat := rfl
  rw [hcount]
  generalize ((a.registers kIoApicVersion) >>> 16) &&& 0xFF = count at hmask ⊢
  bv_omega

lemma inputs_pos (a : IoApic) : 0 < a.inputs := by
  rw [inputs_eq]
  omega

lemma inputs_le (a : IoApic) : a.inputs ≤ 256 := by
  rw [inputs_eq]
  have hmask : (((a.registers kIoApicVersion) >>> 16) &&& 0xFF).toNat ≤ 255 := by
    rw [toNat_and]
    exact Nat.and_le_right
  omega

lemma inputs_congr (h : b.registers kIoApicVersion = a.registers kIoApicVersion) :
    b.inputs = a.inputs := by
  rw [inputs_eq, inputs_eq, h]

lemma redirectRegister_congr (h : b.mIsrBase = a.mIsrBase) :
    b.redirectRegister g = a.redirectRegister g := by
  rw [redirectRegister, redirectRegister, h]

lemma containsGsi_eq (hfits : a.Fits) (g : BitVec 32) :
    ioApicContainsGsi a g = (decide (a.Contains g), a.select kIoApicVersion) := by
  have hpos := inputs_pos a
  have hlast : (a.mIsrBase + a.inputCount.1 - 1).toNat = a.mIsrBase.toNat + a.inputs - 1 := by
    simp only [Fits, inputs] at hfits hpos ⊢
    generalize a.inputCount.1 = count at *
    bv_omega
  have hiff : (a.mIsrBase ≤ g ∧ g ≤ a.mIsrBase + a.inputCount.1 - 1) ↔ a.Contains g := by
    rw [le_def, le_def, hlast, Contains]
    omega
  refine Prod.ext ?_ rfl
  have hfirst : (ioApicContainsGsi a g).1 = decide (a.mIsrBase ≤ g ∧
      g ≤ a.mIsrBase + a.inputCount.1 - 1) := (Bool.decide_and _ _).symm
  rw [hfirst]
  exact decide_eq_decide.2 hiff

section

variable (hg : a.Contains g)

include hg

lemma redirectRegister_toNat :
    (a.redirectRegister g).toNat = (g.toNat - a.mIsrBase.toNat) * 2 + 16 := by
  have hle := inputs_le a
  have hlt : g.toNat - a.mIsrBase.toNat < 256 := by
    have := hg.2
    omega
  have hsub : (g - a.mIsrBase).toNat = g.toNat - a.mIsrBase.toNat := by
    have := hg.1
    bv_omega
  rw [redirectRegister]
  generalize g - a.mIsrBase = input at hsub ⊢
  bv_omega

lemma high_toNat :
    (a.redirectRegister g + 1).toNat = (g.toNat - a.mIsrBase.toNat) * 2 + 17 := by
  have hlow := redirectRegister_toNat hg
  generalize a.redirectRegister g = low at hlow ⊢
  bv_omega

lemma version_ne :
    kIoApicVersion ≠ a.redirectRegister g ∧ kIoApicVersion ≠ a.redirectRegister g + 1 := by
  have hlow := redirectRegister_toNat hg
  have hhigh := high_toNat hg
  have hversion : kIoApicVersion.toNat = 1 := rfl
  constructor
  · intro heq
    rw [← heq] at hlow
    omega
  · intro heq
    rw [← heq] at hhigh
    omega

lemma entries_apart (hh : a.Contains h) (hne : h ≠ g) :
    a.redirectRegister h ≠ a.redirectRegister g ∧
      a.redirectRegister h ≠ a.redirectRegister g + 1 ∧
      a.redirectRegister h + 1 ≠ a.redirectRegister g ∧
      a.redirectRegister h + 1 ≠ a.redirectRegister g + 1 := by
  have hlow := redirectRegister_toNat hg
  have hhigh := high_toNat hg
  have hlow' := redirectRegister_toNat hh
  have hhigh' := high_toNat hh
  have hne' : h.toNat ≠ g.toNat := fun heq => hne (eq_of_toNat_eq heq)
  have h1 := hg.1
  have h2 := hh.1
  refine ⟨?_, ?_, ?_, ?_⟩ <;> intro heq
  · rw [heq] at hlow'
    omega
  · rw [heq] at hlow'
    omega
  · rw [heq] at hhigh'
    omega
  · rw [heq] at hhigh'
    omega

end

/-! ## Effects on one device -/

/-- `b` is `a` after an edit of the entry of `g`, if `a` has that input, and nothing else; `P` says
what the edit does to the entry. -/
structure Edited (g : BitVec 32) (P : BitVec 64 → BitVec 64 → Prop) (a b : IoApic) : Prop where
  base : b.mIsrBase = a.mIsrBase
  registers : ∀ r, ¬ (a.Contains g ∧ (r = a.redirectRegister g ∨ r = a.redirectRegister g + 1)) →
    b.registers r = a.registers r
  entry : a.Contains g → P (a.entry g) (b.entry g)

namespace Edited

variable {P Q : BitVec 64 → BitVec 64 → Prop}

section

variable (hab : Edited g P a b)

include hab

lemma inputs_eq : b.inputs = a.inputs := by
  refine inputs_congr (hab.registers _ ?_)
  rintro ⟨hg, heq | heq⟩
  · exact (version_ne hg).1 heq
  · exact (version_ne hg).2 heq

lemma contains_iff (h : BitVec 32) : b.Contains h ↔ a.Contains h := by
  rw [Contains, Contains, hab.base, hab.inputs_eq]

lemma fits (ha : a.Fits) : b.Fits := by
  rwa [Fits, hab.base, hab.inputs_eq]

lemma other_entry (hh : a.Contains h) (hne : h ≠ g) :
    b.entry h = a.entry h := by
  rw [IoApic.entry, IoApic.entry, redirectRegister_congr hab.base]
  have hkeep : ∀ r, (r = a.redirectRegister h ∨ r = a.redirectRegister h + 1) →
      b.registers r = a.registers r := by
    intro r hr
    refine hab.registers r ?_
    rintro ⟨hg, heq⟩
    obtain ⟨h1, h2, h3, h4⟩ := entries_apart hg hh hne
    rcases hr with rfl | rfl <;> rcases heq with heq | heq
    · exact h1 heq
    · exact h2 heq
    · exact h3 heq
    · exact h4 heq
  rw [hkeep _ (.inr rfl), hkeep _ (.inl rfl)]

end

lemma of_select (hg : ¬ a.Contains g) (r : BitVec 32) : Edited g P a (a.select r) :=
  ⟨rfl, fun _ _ => rfl, fun h => absurd h hg⟩

end Edited

lemma append_halves (e : BitVec 64) : (e >>> 32).setWidth 32 ++ e.setWidth 32 = e := by
  refine eq_of_getLsbD_eq fun i hi => ?_
  rw [getLsbD_append]
  by_cases hlow : i < 32
  · simp [hlow]
  · have hsum : 32 + (i - 32) = i := by omega
    have hlt : i - 32 < 32 := by omega
    simp [hlow, hlt, hsum]

lemma setRedirect_edited (config : apic.IvtConfig) (target : BitVec 32) (hg : a.Contains g) :
    Edited g (fun _ e => e = redirectEntry config target) a (setRedirect config g target a) := by
  refine ⟨rfl, fun r hr => ?_, fun _ => ?_⟩
  · have hlow : r ≠ a.redirectRegister g := fun heq => hr ⟨hg, .inl heq⟩
    have hhigh : r ≠ a.redirectRegister g + 1 := fun heq => hr ⟨hg, .inr heq⟩
    simp only [setRedirect, write_registers, low_register]
    rw [update_of_ne hhigh, update_of_ne hlow]
  · have hne : a.redirectRegister g ≠ a.redirectRegister g + 1 := by
      have hlow := redirectRegister_toNat hg
      have hhigh := high_toNat hg
      intro heq
      rw [← heq] at hhigh
      omega
    have hsame : (setRedirect config g target a).redirectRegister g = a.redirectRegister g := rfl
    rw [IoApic.entry, hsame]
    simp only [setRedirect, write_registers, low_register, update_self]
    rw [update_of_ne hne, update_self, append_halves]

lemma clearRedirect_edited (hg : a.Contains g) :
    Edited g (fun e e' => e' = e ||| kMasked) a (clearRedirect g a) := by
  refine ⟨rfl, fun r hr => ?_, fun _ => ?_⟩
  · have hlow : r ≠ a.redirectRegister g := fun heq => hr ⟨hg, .inl heq⟩
    simp only [clearRedirect, write_registers, low_register]
    rw [update_of_ne hlow]
    rfl
  · have hne : a.redirectRegister g + 1 ≠ a.redirectRegister g := by
      have hlow := redirectRegister_toNat hg
      have hhigh := high_toNat hg
      intro heq
      rw [heq] at hhigh
      omega
    have hsame : (clearRedirect g a).redirectRegister g = a.redirectRegister g := rfl
    have hmask : kMasked = (0#32) ++ kMasked.setWidth 32 := by decide
    rw [IoApic.entry, hsame, IoApic.entry]
    simp only [clearRedirect, read, write_registers, select_registers, select_ioregsel,
      low_register, update_self]
    rw [update_of_ne hne, hmask, or_append, or_zero]
    rfl

lemma Edited.of_selected (hab : Edited g P (a.select r) b) :
    Edited g P a b :=
  ⟨hab.base, hab.registers, hab.entry⟩

lemma Edited.untouched (hg : ¬ a.Contains g) :
    Edited g P a a :=
  ⟨rfl, fun _ _ => rfl, fun h => absurd h hg⟩

/-! ## The entry that is written -/

section Entry

variable (config : apic.IvtConfig) (target : BitVec 32)

lemma redirectEntry_vector : (redirectEntry config target).setWidth 8 = config.vector := by
  have hlow : kActiveLow.setWidth 8 = 0#8 := by decide
  have hlevel : kLevel.setWidth 8 = 0#8 := by decide
  have hmasked : kMasked.setWidth 8 = 0#8 := by decide
  have htarget : (target.setWidth 64 <<< 56).setWidth 8 = 0#8 := by
    refine eq_of_getLsbD_eq fun i hi => ?_
    simp
  simp only [redirectEntry]
  split_ifs <;> simp [setWidth_or, hlow, hlevel, hmasked, htarget]

lemma redirectEntry_target :
    (redirectEntry config target >>> 56).toNat = target.toNat % 256 := by
  have hlow : kActiveLow >>> 56 = 0#64 := by decide
  have hlevel : kLevel >>> 56 = 0#64 := by decide
  have hmasked : kMasked >>> 56 = 0#64 := by decide
  have hvector : config.vector.setWidth 64 >>> 56 = 0#64 := by
    refine eq_of_toNat_eq ?_
    simp only [toNat_ushiftRight, toNat_setWidth, Nat.shiftRight_eq_div_pow,
      toNat_ofNat]
    omega
  have htarget : (target.setWidth 64 <<< 56 >>> 56).toNat = target.toNat % 256 := by
    simp only [toNat_ushiftRight, toNat_shiftLeft, toNat_setWidth,
      Nat.shiftRight_eq_div_pow, Nat.shiftLeft_eq]
    omega
  simp only [redirectEntry]
  split_ifs <;>
    simp [ushiftRight_or_distrib, hlow, hlevel, hmasked, hvector, zero_or, htarget]

lemma redirectEntry_masked :
    (redirectEntry config target).getLsbD 16 = true ↔ config.enabled = false := by
  have hlow : kActiveLow.getLsbD 16 = false := by decide
  have hlevel : kLevel.getLsbD 16 = false := by decide
  have hmasked : kMasked.getLsbD 16 = true := by decide
  simp only [redirectEntry]
  split_ifs <;> simp_all

end Entry

end IoApic

/-! ## Calls on the set -/

namespace IoApicSet

open IoApic

variable {s : IoApicSet} {g : BitVec 32} {l : List IoApic}

/-- Every range of inputs fits, and no two of them meet. -/
structure Disjoint (l : List IoApic) : Prop where
  fits : ∀ a ∈ l, a.Fits
  apart : l.Pairwise fun a b => ∀ g, ¬ (a.Contains g ∧ b.Contains g)

inductive Call
  | setRedirect (config : apic.IvtConfig) (redirect target : BitVec 32)
  | setLegacyRedirect (config : apic.IvtConfig) (redirect target : BitVec 32)
  | clearRedirect (redirect : BitVec 32)
  | clearLegacyRedirect (redirect : BitVec 32)
  deriving DecidableEq

def call (s : IoApicSet) : Call → IoApicSet
  | .setRedirect config redirect target => s.setRedirect config redirect target
  | .setLegacyRedirect config redirect target => s.setLegacyRedirect config redirect target
  | .clearRedirect redirect => s.clearRedirect redirect
  | .clearLegacyRedirect redirect => s.clearLegacyRedirect redirect

def calls (s : IoApicSet) (cs : List Call) : IoApicSet := cs.foldl call s

/-- The input a legacy interrupt is wired to: that of its first override, or its own number. -/
def gsiOf (madt : List MadtEntry) (redirect : BitVec 32) : BitVec 32 :=
  ((findOverride redirect madt).map InterruptSourceOverride.interrupt).getD redirect

def Call.gsi (madt : List MadtEntry) : Call → BitVec 32
  | .setRedirect _ redirect _ | .clearRedirect redirect => redirect
  | .setLegacyRedirect _ redirect _ | .clearLegacyRedirect redirect => gsiOf madt redirect

/-- What a call asks for: a legacy interrupt gets its vector and its target, and is masked if it is
disabled; clearing masks an entry and keeps its other bits. -/
def Call.Wants : Call → BitVec 64 → BitVec 64 → Prop
  | .setRedirect _ _ _, _, _ => True
  | .setLegacyRedirect config _ target, _, e =>
      e.setWidth 8 = config.vector ∧ (e >>> 56).toNat = target.toNat ∧
        (e.getLsbD 16 = true ↔ config.enabled = false)
  | .clearRedirect _, e, e' | .clearLegacyRedirect _, e, e' => e' = e ||| kMasked

/-- The call does what it asks for to the entry it names, in the I/O APIC that has the input, and
changes no other register and no other entry of any. -/
def Routed (s : IoApicSet) (c : Call) : Prop :=
  (s.call c).mMadt = s.mMadt ∧
    List.Forall₂ (fun a b => Edited (c.gsi s.mMadt) c.Wants a b ∧
      ∀ h, h ≠ c.gsi s.mMadt → a.Contains h → b.entry h = a.entry h)
      s.mIoApics (s.call c).mIoApics

/-- The condition: a legacy interrupt that reaches an input has a target with an id of eight bits,
and if it is to be disabled, no override. -/
def Honours (s : IoApicSet) : Call → Prop
  | .setLegacyRedirect config redirect target =>
      (∃ a ∈ s.mIoApics, a.Contains (gsiOf s.mMadt redirect)) →
        target.toNat < 256 ∧ (config.enabled = true ∨ findOverride redirect s.mMadt = none)
  | _ => True

lemma exists_partner {α β : Type*} {R : α → β → Prop} {l : List α} {l' : List β}
    (h : List.Forall₂ R l l') {a : α} (ha : a ∈ l) : ∃ b ∈ l', R a b := by
  induction h with
  | nil => exact absurd ha List.not_mem_nil
  | @cons c d l l' hcd _ ih =>
    rcases List.mem_cons.1 ha with rfl | ha
    · exact ⟨d, List.mem_cons_self .., hcd⟩
    · obtain ⟨b, hb, hab⟩ := ih ha
      exact ⟨b, List.mem_cons_of_mem _ hb, hab⟩

section AtGsi

variable {f : IoApic → IoApic} {P : BitVec 64 → BitVec 64 → Prop}

lemma atGsi_edited (hl : Disjoint l) (hf : ∀ a, a.Contains g → Edited g P a (f a)) :
    List.Forall₂ (Edited g P) l (atGsi g f l) := by
  induction l with
  | nil => exact .nil
  | cons a l ih =>
    obtain ⟨hapart, hrest⟩ := List.pairwise_cons.1 hl.apart
    have hfits : ∀ b ∈ l, b.Fits := fun b hb => hl.fits b (List.mem_cons_of_mem _ hb)
    by_cases ha : a.Contains g
    · rw [atGsi, containsGsi_eq (hl.fits a (List.mem_cons_self ..)), decide_eq_true ha]
      refine .cons (Edited.of_selected (hf _ ha)) (List.forall₂_same.2 fun b hb => ?_)
      exact Edited.untouched fun hb' => hapart b hb g ⟨ha, hb'⟩
    · rw [atGsi, containsGsi_eq (hl.fits a (List.mem_cons_self ..)), decide_eq_false ha]
      exact .cons (Edited.of_select ha _) (ih ⟨hfits, hrest⟩)

lemma disjoint_of_edited {l' : List IoApic} (hl : Disjoint l)
    (hedit : List.Forall₂ (Edited g P) l l') : Disjoint l' := by
  induction hedit with
  | nil => exact hl
  | @cons a b l l' hab hrest ih =>
    obtain ⟨hapart, hpairs⟩ := List.pairwise_cons.1 hl.apart
    have hl' := ih ⟨fun c hc => hl.fits c (List.mem_cons_of_mem _ hc), hpairs⟩
    refine ⟨fun c hc => ?_, List.pairwise_cons.2 ⟨fun c hc h => ?_, hl'.apart⟩⟩
    · rcases List.mem_cons.1 hc with rfl | hc
      · exact hab.fits (hl.fits a (List.mem_cons_self ..))
      · exact hl'.fits c hc
    · obtain ⟨d, hd, hdc⟩ := exists_partner hrest.flip hc
      rw [hab.contains_iff, Edited.contains_iff hdc]
      exact hapart d hd h

end AtGsi

/-! ## One call -/

/-- What `setLegacyRedirect` asks of `setRedirect`. -/
def fixupOf (madt : List MadtEntry) (config : apic.IvtConfig) (redirect : BitVec 32) :
    apic.IvtConfig :=
  match findOverride redirect madt with
  | some iso => ⟨config.vector, getIsoPolarity iso, getIsoTriggerMode iso, true⟩
  | none => config

def Call.Does (madt : List MadtEntry) : Call → BitVec 64 → BitVec 64 → Prop
  | .setRedirect config _ target, _, e => e = redirectEntry config target
  | .setLegacyRedirect config redirect target, _, e =>
      e = redirectEntry (fixupOf madt config redirect) target
  | .clearRedirect _, e, e' | .clearLegacyRedirect _, e, e' => e' = e ||| kMasked

lemma setLegacyRedirect_eq (config : apic.IvtConfig) (redirect target : BitVec 32)
    (s : IoApicSet) : s.setLegacyRedirect config redirect target =
      s.setRedirect (fixupOf s.mMadt config redirect) (gsiOf s.mMadt redirect) target := by
  rw [setLegacyRedirect, fixupOf, gsiOf]
  cases findOverride redirect s.mMadt <;> rfl

lemma clearLegacyRedirect_eq (redirect : BitVec 32) (s : IoApicSet) :
    s.clearLegacyRedirect redirect = s.clearRedirect (gsiOf s.mMadt redirect) := by
  rw [clearLegacyRedirect, gsiOf]
  cases findOverride redirect s.mMadt <;> rfl

lemma call_mMadt (s : IoApicSet) (c : Call) : (s.call c).mMadt = s.mMadt := by
  cases c with
  | setRedirect | clearRedirect => rfl
  | setLegacyRedirect config redirect target => rw [call, setLegacyRedirect_eq]; rfl
  | clearLegacyRedirect redirect => rw [call, clearLegacyRedirect_eq]; rfl

lemma call_edited (hs : Disjoint s.mIoApics) (c : Call) :
    List.Forall₂ (Edited (c.gsi s.mMadt) (c.Does s.mMadt)) s.mIoApics (s.call c).mIoApics := by
  cases c with
  | setRedirect config redirect target =>
    exact atGsi_edited hs fun a ha => setRedirect_edited config target ha
  | setLegacyRedirect config redirect target =>
    rw [call, setLegacyRedirect_eq]
    exact atGsi_edited hs fun a ha => setRedirect_edited _ target ha
  | clearRedirect redirect => exact atGsi_edited hs fun a ha => clearRedirect_edited ha
  | clearLegacyRedirect redirect =>
    rw [call, clearLegacyRedirect_eq]
    exact atGsi_edited hs fun a ha => clearRedirect_edited ha

lemma fixupOf_vector (madt : List MadtEntry) (config : apic.IvtConfig) (redirect : BitVec 32) :
    (fixupOf madt config redirect).vector = config.vector := by
  rw [fixupOf]
  cases findOverride redirect madt <;> rfl

lemma fixupOf_enabled (madt : List MadtEntry) (config : apic.IvtConfig)
    (redirect : BitVec 32) : (fixupOf madt config redirect).enabled = config.enabled ↔
      config.enabled = true ∨ findOverride redirect madt = none := by
  rw [fixupOf]
  cases findOverride redirect madt with
  | none => exact iff_of_true rfl (.inr rfl)
  | some iso => exact ⟨fun h => .inl h.symm, fun h => (h.resolve_right nofun).symm⟩

lemma wants_setLegacyRedirect_iff (madt : List MadtEntry) (config : apic.IvtConfig)
    (redirect target : BitVec 32) (e : BitVec 64) :
    (Call.setLegacyRedirect config redirect target).Wants e
        (redirectEntry (fixupOf madt config redirect) target) ↔
      target.toNat < 256 ∧ (config.enabled = true ∨ findOverride redirect madt = none) := by
  have hfixup := fixupOf_enabled madt config redirect
  rw [Call.Wants, redirectEntry_vector, fixupOf_vector, redirectEntry_target,
    redirectEntry_masked, ← hfixup]
  have htarget : target.toNat % 256 = target.toNat ↔ target.toNat < 256 := by omega
  have hmasked : ((fixupOf madt config redirect).enabled = false ↔ config.enabled = false) ↔
      (fixupOf madt config redirect).enabled = config.enabled := by
    cases (fixupOf madt config redirect).enabled <;> cases config.enabled <;> decide
  rw [htarget, hmasked]
  exact and_iff_right rfl

lemma wants_of_does {c : Call} (hc : ∀ config redirect target,
    c ≠ .setLegacyRedirect config redirect target) {e e' : BitVec 64}
    (h : c.Does s.mMadt e e') : c.Wants e e' := by
  cases c with
  | setRedirect => trivial
  | setLegacyRedirect config redirect target => exact absurd rfl (hc config redirect target)
  | clearRedirect | clearLegacyRedirect => exact h

lemma routed_of_wants (hs : Disjoint s.mIoApics) (c : Call)
    (hwants : ∀ a ∈ s.mIoApics, a.Contains (c.gsi s.mMadt) →
      ∀ e e', c.Does s.mMadt e e' → c.Wants e e') : s.Routed c := by
  refine ⟨call_mMadt s c, ?_⟩
  have hall := (List.forall₂_and_left _ _).2 ⟨fun a ha => ha, call_edited hs c⟩
  refine hall.imp fun a b ⟨ha, hab⟩ => ⟨⟨hab.base, hab.registers, fun hg => ?_⟩, ?_⟩
  · exact hwants a ha hg _ _ (hab.entry hg)
  · exact fun h hne hh => hab.other_entry hh hne

lemma routed_iff (hs : Disjoint s.mIoApics) (c : Call) : s.Routed c ↔ s.Honours c := by
  by_cases hlegacy : ∃ config redirect target, c = .setLegacyRedirect config redirect target
  · obtain ⟨config, redirect, target, rfl⟩ := hlegacy
    constructor
    · rintro hrouted ⟨a, ha, hg⟩
      obtain ⟨b, -, hwants, hdoes⟩ := exists_partner
        (hrouted.2.mp (fun _ _ hwants hdoes => And.intro hwants hdoes) (call_edited hs _)) ha
      have he := hdoes.entry hg
      have hw := hwants.1.entry hg
      rw [he] at hw
      exact (wants_setLegacyRedirect_iff s.mMadt config redirect target _).1 hw
    · intro hhonours
      refine routed_of_wants hs _ fun a ha hg e e' he => ?_
      rw [he]
      exact (wants_setLegacyRedirect_iff s.mMadt config redirect target _).2 (hhonours ⟨a, ha, hg⟩)
  · have hother : ∀ config redirect target, c ≠ .setLegacyRedirect config redirect target :=
      fun config redirect target heq => hlegacy ⟨config, redirect, target, heq⟩
    refine iff_of_true (routed_of_wants hs c fun _ _ _ _ _ => wants_of_does hother) ?_
    cases c with
    | setLegacyRedirect config redirect target => exact absurd rfl (hother config redirect target)
    | setRedirect | clearRedirect | clearLegacyRedirect => trivial

/-! ## Runs -/

lemma call_disjoint (hs : Disjoint s.mIoApics) (c : Call) : Disjoint (s.call c).mIoApics :=
  disjoint_of_edited hs (call_edited hs c)

lemma calls_disjoint (cs : List Call) : ∀ {s : IoApicSet}, Disjoint s.mIoApics →
    Disjoint (s.calls cs).mIoApics := by
  induction cs with
  | nil => exact fun hs => hs
  | cons c cs ih => exact fun hs => ih (call_disjoint hs c)

lemma call_honours_iff (hs : Disjoint s.mIoApics) (c d : Call) :
    (s.call c).Honours d ↔ s.Honours d := by
  have hreached : ∀ g, (∃ b ∈ (s.call c).mIoApics, b.Contains g) ↔
      ∃ a ∈ s.mIoApics, a.Contains g := by
    intro g
    constructor
    · rintro ⟨b, hb, hg⟩
      obtain ⟨a, ha, hab⟩ := exists_partner (call_edited hs c).flip hb
      exact ⟨a, ha, (Edited.contains_iff hab g).1 hg⟩
    · rintro ⟨a, ha, hg⟩
      obtain ⟨b, hb, hab⟩ := exists_partner (call_edited hs c) ha
      exact ⟨b, hb, (hab.contains_iff g).2 hg⟩
  cases d with
  | setLegacyRedirect config redirect target =>
    rw [Honours, Honours, hreached, call_mMadt]
  | setRedirect | clearRedirect | clearLegacyRedirect => exact Iff.rfl

lemma calls_honours_iff (cs : List Call) (d : Call) : ∀ {s : IoApicSet},
    Disjoint s.mIoApics → ((s.calls cs).Honours d ↔ s.Honours d) := by
  induction cs with
  | nil => exact fun _ => Iff.rfl
  | cons c cs ih => exact fun hs => (ih (call_disjoint hs c)).trans (call_honours_iff hs c d)

/-- In a run of calls, every one changes the entry of its input and no other, and does to it what
was asked for, exactly if none of them gives a target that an entry has no room for, or disables a
legacy interrupt that is overridden. -/
theorem legacy_interrupts_routed_iff (hs : Disjoint s.mIoApics) (cs : List Call) :
    (∀ pre c post, cs = pre ++ c :: post → (s.calls pre).Routed c) ↔ ∀ c ∈ cs, s.Honours c := by
  have hcall : ∀ pre c, (s.calls pre).Routed c ↔ s.Honours c := fun pre c =>
    (routed_iff (calls_disjoint pre hs) c).trans (calls_honours_iff pre c hs)
  constructor
  · intro hrun c hc
    obtain ⟨pre, post, hcs⟩ := List.append_of_mem hc
    exact (hcall pre c).1 (hrun pre c post hcs)
  · intro hhonours pre c post hcs
    have hc : c ∈ cs := by
      rw [hcs]
      exact List.mem_append_right _ (List.mem_cons_self ..)
    exact (hcall pre c).2 (hhonours c hc)

/-- One I/O APIC with 24 inputs, and the timer on input 2. -/
def pcSet : IoApicSet where
  mMadt := [.other, .eInterruptSourceOverride ⟨0, 0, 2, 0⟩]
  mIoApics := [{ mIsrBase := 0, ioregsel := 0, registers := fun r => if r = 1 then 0x170020 else 0 }]

lemma pcSet_disjoint : Disjoint pcSet.mIoApics := by
  refine ⟨fun a ha => ?_, List.pairwise_singleton _ _⟩
  rw [List.mem_singleton.1 ha, Fits]
  decide

theorem legacy_interrupts_routed_iff_pcSet :
    Disjoint pcSet.mIoApics ∧
      ((∀ pre c post, [Call.setLegacyRedirect ⟨32, .eActiveHigh, .eEdge, true⟩ 0 1,
          .clearLegacyRedirect 0] = pre ++ c :: post → (pcSet.calls pre).Routed c) ↔
        ∀ c ∈ [Call.setLegacyRedirect ⟨32, .eActiveHigh, .eEdge, true⟩ 0 1,
          .clearLegacyRedirect 0], pcSet.Honours c) :=
  ⟨pcSet_disjoint, legacy_interrupts_routed_iff pcSet_disjoint _⟩

/-- The timer, disabled, is left unmasked. -/
theorem not_routed_of_disabled : Disjoint pcSet.mIoApics ∧
    ¬ pcSet.Routed (.setLegacyRedirect ⟨32, .eActiveHigh, .eEdge, false⟩ 0 1) ∧
    ((pcSet.setLegacyRedirect ⟨32, .eActiveHigh, .eEdge, false⟩ 0 1).mIoApics.map
      fun a => (a.entry 2).getLsbD 16) = [false] := by
  refine ⟨pcSet_disjoint, fun hrouted => ?_, by decide⟩
  have hhonours := (routed_iff pcSet_disjoint _).1 hrouted ⟨_, List.mem_singleton_self _, by decide⟩
  exact hhonours.2.elim nofun (by decide)

end IoApicSet
end BezOS
