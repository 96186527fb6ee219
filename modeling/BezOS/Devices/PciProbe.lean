import Mathlib.Data.List.ProdSigma
import BezOS.Devices.Pci

/-!
# What the PCI probe finds

The walk descends from a bus to those behind its bridges. It ends if it comes to no cycle, of buses
or of capabilities, and it then finds what is present on the buses it reaches.
-/

namespace BezOS
namespace Pci

open Lib Relation List ReflTransGen Option

variable {config : IConfigSpace} {fuel : Nat} {bus : UInt8} {slot function : Nat}
  {next : UInt8 → Option (List Function)} {found : List Function} {f : Function}

/-! ## One function -/

lemma capabilitiesFrom_isSome (offset : Nat) :
    (capabilitiesFrom config f.1 f.2.1 f.2.2 fuel offset).isSome ↔
      orbit (nextCapability config f) fuel offset = none := by
  induction fuel generalizing offset with
  | zero => simp [capabilitiesFrom, orbit]
  | succ fuel ih =>
    rw [capabilitiesFrom, Nat.add_comm, orbit_add]
    have hone : orbit (nextCapability config f) 1 offset = nextCapability config f offset := rfl
    rw [hone, nextCapability]
    by_cases hnext : (readCapability config f.1 f.2.1 f.2.2 offset).next = 0
    · simp [hnext]
    · have hrest := ih (readCapability config f.1 f.2.1 f.2.2 offset).next
      simp only [hnext, if_false, bind_some]
      rw [← hrest]
      cases capabilitiesFrom config f.1 f.2.1 f.2.2 fuel
          (readCapability config f.1 f.2.1 f.2.2 offset).next with
      | none => simp
      | some rest => simp

/-- The list of capabilities of a function, if there is one, is read to its end. -/
def CapabilitiesRead (config : IConfigSpace) (fuel : Nat) (f : Function) : Prop :=
  (header config f).hasCapabilityList = true →
    (readCapabilityList config fuel f.1 f.2.1 f.2.2 (header config f)).isSome

lemma CapabilitiesRead.mono {more : Nat} (hle : fuel ≤ more)
    (h : CapabilitiesRead config fuel f) : CapabilitiesRead config more f := by
  intro hlist
  exact (capabilitiesFrom_isSome _).2
    (orbit_eq_none_of_le hle ((capabilitiesFrom_isSome _).1 (h hlist)))

lemma exists_capabilitiesRead : (∃ fuel, CapabilitiesRead config fuel f) ↔
    CapabilitiesEnd config f := by
  constructor
  · rintro ⟨fuel, hread⟩ hlist i j a b hij ha hb hab
    have hend := (capabilitiesFrom_isSome _).1 (hread hlist)
    refine @orbit_ne_none_of_return _ (nextCapability config f) _ id ?_ i j a b hij ha hb hab
      fuel hend
    rintro c d rfl
    rfl
  · intro honce
    by_cases hlist : (header config f).hasCapabilityList = true
    · -- offsets are bytes
      have hbytes : ∀ k a, orbit (nextCapability config f) k
          (firstCapability config f.1 f.2.1 f.2.2 (header config f)) = some a → a < 256 := by
        intro k a ha
        refine @orbit_invariant _ _ _ _ _ (fun a => a < 256) ?_ ?_ ha
        · have hbyte := (config.read8 f.1 f.2.1 f.2.2 (header config f).capabilityOffset).toNat_lt
          rw [firstCapability]
          omega
        · intro k c d _ _ hstep
          rw [nextCapability] at hstep
          split at hstep
          · cases hstep
          · cases hstep
            exact Nat.mod_lt _ (by decide)
      obtain ⟨fuel, hend⟩ := exists_orbit_eq_none hbytes (honce hlist)
      exact ⟨fuel, fun _ => (capabilitiesFrom_isSome _).2 hend⟩
    · exact ⟨0, fun h => absurd h hlist⟩

def probed (config : IConfigSpace) (fuel : Nat) (next : UInt8 → Option (List Function))
    (bus : UInt8) (slot function : Nat) : Option (List Function) :=
  (probePciFunction config fuel next bus slot function).map Prod.snd

def behind (config : IConfigSpace) (next : UInt8 → Option (List Function)) (f : Function) :
    Option (List Function) :=
  if (header config f).isPciBridge then next (queryBridge config f.1 f.2.1 f.2.2).secondaryBus
  else some []

lemma probePciFunction_invalid (h : (header config f).isValid = false) :
    probePciFunction config fuel next f.1 f.2.1 f.2.2 = some (header config f, []) := by
  rw [probePciFunction]
  exact if_pos fun hvalid => Bool.false_ne_true (h.symm.trans hvalid)

lemma probePciFunction_valid (h : (header config f).isValid = true)
    (hread : CapabilitiesRead config fuel f) :
    probePciFunction config fuel next f.1 f.2.1 f.2.2 =
      (behind config next f).map fun found => (header config f, f :: found) := by
  have hvalid : (queryHeader config f.1 f.2.1 f.2.2).isValid = true := h
  have htail : (do
      let behind ←
        if (queryHeader config f.1 f.2.1 f.2.2).isPciBridge then
          next (queryBridge config f.1 f.2.1 f.2.2).secondaryBus
        else some []
      some (queryHeader config f.1 f.2.1 f.2.2, f :: behind)) =
      (behind config next f).map fun found => (header config f, f :: found) := by
    rw [behind, header]
    split
    · cases next (queryBridge config f.1 f.2.1 f.2.2).secondaryBus with
      | none => rfl
      | some found => rfl
    · rfl
  rw [← htail, probePciFunction]
  simp only [hvalid, not_true_eq_false, if_false]
  by_cases hlist : (queryHeader config f.1 f.2.1 f.2.2).hasCapabilityList = true
  · obtain ⟨capabilities, hcapabilities⟩ := isSome_iff_exists.1 (hread hlist)
    rw [header] at hcapabilities
    simp only [hlist, if_true, hcapabilities]
    rfl
  · simp [hlist]

lemma probePciFunction_unread (h : (header config f).isValid = true)
    (hread : ¬ CapabilitiesRead config fuel f) :
    probePciFunction config fuel next f.1 f.2.1 f.2.2 = none := by
  have hvalid : (queryHeader config f.1 f.2.1 f.2.2).isValid = true := h
  rw [CapabilitiesRead, Classical.not_imp, header] at hread
  obtain ⟨hlist, hnone⟩ := hread
  rw [probePciFunction]
  simp only [hvalid, not_true_eq_false, if_false, hlist, if_true,
    not_isSome_iff_eq_none.1 hnone]
  rfl

lemma probed_isSome : (probed config fuel next f.1 f.2.1 f.2.2).isSome ↔
    ((header config f).isValid = true →
      CapabilitiesRead config fuel f ∧ (behind config next f).isSome) := by
  rw [probed, isSome_map]
  by_cases hvalid : (header config f).isValid = true
  · by_cases hread : CapabilitiesRead config fuel f
    · rw [probePciFunction_valid hvalid hread, isSome_map]
      simp [hvalid, hread]
    · rw [probePciFunction_unread hvalid hread]
      simp [hvalid, hread]
  · rw [probePciFunction_invalid (by simpa using hvalid)]
    simp [hvalid]

lemma mem_probed (h : probed config fuel next f.1 f.2.1 f.2.2 = some found) (g : Function) :
    g ∈ found ↔ (header config f).isValid = true ∧
      (g = f ∨ ∃ rest, behind config next f = some rest ∧ g ∈ rest) := by
  by_cases hvalid : (header config f).isValid = true
  · have hsome := probed_isSome.1 (isSome_of_eq_some h) hvalid
    obtain ⟨rest, hrest⟩ := isSome_iff_exists.1 hsome.2
    rw [probed, probePciFunction_valid hvalid hsome.1, hrest] at h
    cases h
    simp [hvalid, hrest]
  · rw [probed, probePciFunction_invalid (by simpa using hvalid)] at h
    cases h
    simp [hvalid]

/-! ## One bus -/

def functionsOf (config : IConfigSpace) (bus : UInt8) (slot : Nat) : List Nat :=
  if (header config (bus, slot, 0)).isValid ∧ (header config (bus, slot, 0)).isMultiFunction then
    0 :: range' 1 7
  else [0]

lemma probePciDevice_eq : probePciDevice config fuel next bus slot =
    collect (probed config fuel next bus slot) (functionsOf config bus slot) := by
  rw [probePciDevice, functionsOf]
  by_cases hvalid : (header config (bus, slot, 0)).isValid = true
  · have hfirst : ∀ result, probePciFunction config fuel next bus slot 0 = some result →
        result.1 = header config (bus, slot, 0) := by
      intro result hresult
      by_cases hread : CapabilitiesRead config fuel (bus, slot, 0)
      · rw [show probePciFunction config fuel next bus slot 0 = _ from
          probePciFunction_valid hvalid hread] at hresult
        obtain ⟨rest, -, rfl⟩ := map_eq_some_iff.1 hresult
        rfl
      · rw [show probePciFunction config fuel next bus slot 0 = _ from
          probePciFunction_unread hvalid hread] at hresult
        cases hresult
    cases hresult : probePciFunction config fuel next bus slot 0 with
    | none =>
      have hprobed : probed config fuel next bus slot 0 = none := by
        rw [probed, hresult]
        rfl
      split
      · simp [collect, hprobed]
      · simp [collect, hprobed]
    | some result =>
      have hheader := hfirst result hresult
      have hprobed : probed config fuel next bus slot 0 = some result.2 := by
        rw [probed, hresult]
        rfl
      by_cases hmulti : (header config (bus, slot, 0)).isMultiFunction = true
      · rw [if_pos ⟨hvalid, hmulti⟩, collect, hprobed]
        simp only [bind_eq_bind, bind_some, hheader, hvalid, hmulti,
          not_true_eq_false, if_false, if_true]
        change (collect (probed config fuel next bus slot) (range' 1 7)).bind _ = _
        cases collect (probed config fuel next bus slot) (range' 1 7) with
        | none => rfl
        | some rest => rfl
      · rw [if_neg (fun h => hmulti h.2), collect, hprobed]
        simp [bind_some, hheader, hvalid, hmulti, not_true_eq_false, if_false, Bool.false_eq_true, collect, append_nil]
  · have hinvalid : probePciFunction config fuel next bus slot 0 = _ :=
      probePciFunction_invalid (f := (bus, slot, 0)) (by simpa using hvalid)
    have hprobed : probed config fuel next bus slot 0 = some [] := by
      rw [probed, hinvalid]
      rfl
    rw [if_neg (fun h => hvalid h.1), collect, hprobed, hinvalid]
    simp [hvalid, collect]

lemma present_iff : Present config f ↔ f.2.1 ∈ List.range 32 ∧
    f.2.2 ∈ functionsOf config f.1 f.2.1 ∧ (header config f).isValid = true := by
  rw [Present, functionsOf, mem_range]
  by_cases hmulti : (header config (f.1, f.2.1, 0)).isValid ∧
      (header config (f.1, f.2.1, 0)).isMultiFunction
  · rw [if_pos hmulti, mem_cons, mem_range'_1]
    constructor
    · rintro ⟨hslot, hfunction, hvalid, -⟩
      exact ⟨hslot, by omega, hvalid⟩
    · rintro ⟨hslot, hfunction, hvalid⟩
      exact ⟨hslot, by omega, hvalid, .inr hmulti⟩
  · rw [if_neg hmulti, mem_singleton]
    constructor
    · rintro ⟨hslot, -, hvalid, hzero⟩
      exact ⟨hslot, hzero.resolve_right hmulti, hvalid⟩
    · rintro ⟨hslot, hzero, hvalid⟩
      exact ⟨hslot, by omega, hvalid, .inl hzero⟩

lemma probePciBus_isSome : (probePciBus config (fuel + 1) bus).isSome ↔
    ∀ f, Present config f → f.1 = bus →
      CapabilitiesRead config fuel f ∧ (behind config (probePciBus config fuel) f).isSome := by
  rw [probePciBus, collect_isSome]
  simp only [probePciDevice_eq, collect_isSome]
  constructor
  · rintro hall f hpresent rfl
    obtain ⟨hslot, hfunction, hvalid⟩ := present_iff.1 hpresent
    exact probed_isSome.1 (hall _ hslot _ hfunction) hvalid
  · intro hall slot hslot function hfunction
    refine (@probed_isSome config fuel (probePciBus config fuel) (bus, slot, function)).2 ?_
    exact fun hvalid => hall _ (present_iff.2 ⟨hslot, hfunction, hvalid⟩) rfl

lemma mem_probePciBus (h : probePciBus config (fuel + 1) bus = some found) (g : Function) :
    g ∈ found ↔ ∃ f, Present config f ∧ f.1 = bus ∧
      (g = f ∨ ∃ rest, behind config (probePciBus config fuel) f = some rest ∧ g ∈ rest) := by
  have hsome := isSome_of_eq_some h
  rw [probePciBus, collect_isSome] at hsome
  rw [mem_collect h]
  constructor
  · rintro ⟨slot, hslot, device, hdevice, hg⟩
    rw [probePciDevice_eq] at hdevice
    obtain ⟨function, hfunction, result, hresult, hmem⟩ := (mem_collect hdevice).1 hg
    obtain ⟨hvalid, hcases⟩ := (@mem_probed config fuel _ result (bus, slot, function) hresult g).1
      hmem
    exact ⟨(bus, slot, function), present_iff.2 ⟨hslot, hfunction, hvalid⟩, rfl, hcases⟩
  · rintro ⟨f, hpresent, rfl, hcases⟩
    obtain ⟨hslot, hfunction, hvalid⟩ := present_iff.1 hpresent
    obtain ⟨device, hdevice⟩ := isSome_iff_exists.1 (hsome _ hslot)
    refine ⟨f.2.1, hslot, device, hdevice, ?_⟩
    rw [probePciDevice_eq] at hdevice
    have hdone := collect_isSome.1 (isSome_of_eq_some hdevice) _ hfunction
    obtain ⟨result, hresult⟩ := isSome_iff_exists.1 hdone
    exact (mem_collect hdevice).2 ⟨_, hfunction, result, hresult,
      (mem_probed hresult g).2 ⟨hvalid, hcases⟩⟩

/-! ## Behind the bridges -/

lemma behind_isSome : (behind config next f).isSome ↔
    ((header config f).isPciBridge = true → (next (config.read8 f.1 f.2.1 f.2.2 0x1a)).isSome) := by
  rw [behind]
  split
  · rename_i hbridge
    exact ⟨fun h _ => h, fun h => h hbridge⟩
  · rename_i hbridge
    exact ⟨fun _ h => absurd h hbridge, fun _ => rfl⟩

lemma mem_behind {g : Function} : (∃ rest, behind config next f = some rest ∧ g ∈ rest) ↔
    (header config f).isPciBridge = true ∧
      ∃ rest, next (config.read8 f.1 f.2.1 f.2.2 0x1a) = some rest ∧ g ∈ rest := by
  rw [behind]
  split
  · rename_i hbridge
    exact ⟨fun h => ⟨hbridge, h⟩, And.right⟩
  · rename_i hbridge
    constructor
    · rintro ⟨rest, hrest, hg⟩
      cases hrest
      cases hg
    · exact fun h => absurd h.1 hbridge

lemma mem_probePciBus_iff (h : probePciBus config fuel bus = some found) (g : Function) :
    g ∈ found ↔ Present config g ∧ ReflTransGen (Bridges config) bus g.1 := by
  induction fuel generalizing bus found with
  | zero => cases h
  | succ fuel ih =>
    have hsome := probePciBus_isSome.1 (isSome_of_eq_some h)
    rw [mem_probePciBus h]
    simp only [mem_behind]
    constructor
    · rintro ⟨f, hpresent, rfl, rfl | ⟨hbridge, rest, hrest, hg⟩⟩
      · exact ⟨hpresent, .refl⟩
      · obtain ⟨hgpresent, hreach⟩ := (ih hrest).1 hg
        exact ⟨hgpresent, .head ⟨f, hpresent, rfl, hbridge, rfl⟩ hreach⟩
    · rintro ⟨hpresent, hreach⟩
      rcases cases_head hreach with heq | ⟨c, ⟨f, hf, hbus, hbridge, rfl⟩, hrest⟩
      · exact ⟨g, hpresent, heq.symm, .inl rfl⟩
      · obtain ⟨rest, hfound⟩ := isSome_iff_exists.1
          (behind_isSome.1 (hsome f hf hbus).2 hbridge)
        exact ⟨f, hf, hbus, .inr ⟨hbridge, rest, hfound, (ih hfound).2 ⟨hpresent, hrest⟩⟩⟩

lemma probePciBus_mono {more : Nat} (hle : fuel ≤ more)
    (h : (probePciBus config fuel bus).isSome) : (probePciBus config more bus).isSome := by
  induction fuel generalizing more bus with
  | zero => cases h
  | succ fuel ih =>
    obtain ⟨more, rfl⟩ := Nat.exists_eq_succ_of_ne_zero (Nat.ne_zero_of_lt hle)
    have hless := Nat.le_of_succ_le_succ hle
    refine probePciBus_isSome.2 fun f hpresent hbus => ?_
    obtain ⟨hread, hbehind⟩ := probePciBus_isSome.1 h f hpresent hbus
    refine ⟨hread.mono hless, behind_isSome.2 fun hbridge => ?_⟩
    exact ih hless (behind_isSome.1 hbehind hbridge)

lemma acc_of_isSome (h : (probePciBus config fuel bus).isSome) :
    Acc (fun c b => Bridges config b c) bus ∧
      ∀ f, Present config f → ReflTransGen (Bridges config) bus f.1 → CapabilitiesEnd config f := by
  induction fuel generalizing bus with
  | zero => cases h
  | succ fuel ih =>
    have hsome := probePciBus_isSome.1 h
    have hnext : ∀ c, Bridges config bus c → (probePciBus config fuel c).isSome := by
      rintro c ⟨f, hpresent, hbus, hbridge, rfl⟩
      exact behind_isSome.1 (hsome f hpresent hbus).2 hbridge
    refine ⟨⟨bus, fun c hc => (ih (hnext c hc)).1⟩, fun f hpresent hreach => ?_⟩
    rcases cases_head hreach with heq | ⟨c, hc, hrest⟩
    · exact exists_capabilitiesRead.1 ⟨fuel, (hsome f hpresent heq.symm).1⟩
    · exact (ih (hnext c hc)).2 f hpresent hrest

lemma exists_isSome_of_acc (h : Acc (fun c b => Bridges config b c) bus)
    (hread : ∀ f, Present config f → ReflTransGen (Bridges config) bus f.1 →
      CapabilitiesEnd config f) : ∃ fuel, (probePciBus config fuel bus).isSome := by
  induction h with
  | intro bus _ ih =>
    -- one function at a time, then a fuel for all of them
    have hone : ∀ g ∈ (List.range 32).product (List.range 8), ∃ fuel,
        Present config (bus, g) → CapabilitiesRead config fuel (bus, g) ∧
          (behind config (probePciBus config fuel) (bus, g)).isSome := by
      intro g _
      by_cases hpresent : Present config (bus, g)
      · obtain ⟨listFuel, hlist⟩ := exists_capabilitiesRead.2 (hread _ hpresent .refl)
        by_cases hbridge : (header config (bus, g)).isPciBridge = true
        · have hstep : Bridges config bus _ := ⟨_, hpresent, rfl, hbridge, rfl⟩
          obtain ⟨busFuel, hbus⟩ := ih _ hstep fun f hf hreach => hread f hf (.head hstep hreach)
          refine ⟨max listFuel busFuel, fun _ => ⟨hlist.mono (Nat.le_max_left ..), ?_⟩⟩
          exact behind_isSome.2 fun _ => probePciBus_mono (Nat.le_max_right ..) hbus
        · exact ⟨listFuel, fun _ => ⟨hlist, behind_isSome.2 fun h => absurd h hbridge⟩⟩
      · exact ⟨0, fun h => absurd h hpresent⟩
    obtain ⟨fuel, hall⟩ := exists_common_bound (fun g m n hle hg hpresent => by
      obtain ⟨hlist, hbehind⟩ := hg hpresent
      refine ⟨hlist.mono hle, behind_isSome.2 fun hbridge => ?_⟩
      exact probePciBus_mono hle (behind_isSome.1 hbehind hbridge)) hone
    refine ⟨fuel + 1, probePciBus_isSome.2 ?_⟩
    rintro ⟨_, slot, function⟩ hpresent rfl
    refine hall (slot, function) ?_ hpresent
    exact mem_product.2 ⟨mem_range.2 hpresent.1, mem_range.2 hpresent.2.1⟩

/-! ## The ranges -/

lemma mem_busRange {first last : UInt8} : bus ∈ busRange first last ↔ first ≤ bus ∧ bus < last := by
  have hlast : last.toNat < 256 := last.toNat_lt
  rw [busRange, List.mem_map, UInt8.le_iff_toNat_le, UInt8.lt_iff_toNat_lt]
  constructor
  · rintro ⟨n, hn, rfl⟩
    rw [mem_range'_1] at hn
    rw [UInt8.toNat_ofNat_of_lt' (by simp only [UInt8.size]; omega)]
    omega
  · rintro ⟨hfirst, hbus⟩
    exact ⟨bus.toNat, mem_range'_1.2 (by omega), UInt8.ofNat_toNat⟩

variable {mcfg : Option (List McfgAllocation)}

lemma probeConfigSpace_isSome : (probeConfigSpace config fuel mcfg).isSome ↔
    ∀ bus, Started mcfg bus → (probePciBus config fuel bus).isSome := by
  cases mcfg with
  | none =>
    rw [probeConfigSpace, probeBusRange, collect_isSome]
    simp only [mem_busRange]
    exact ⟨fun h bus hbus => h bus ⟨UInt8.zero_le, hbus⟩, fun h bus hbus => h bus hbus.2⟩
  | some allocations =>
    rw [probeConfigSpace, collect_isSome]
    simp only [probeBusRange, collect_isSome, mem_busRange]
    constructor
    · rintro h bus ⟨allocation, hmem, hbus⟩
      exact h allocation hmem bus hbus
    · intro h allocation hmem bus hbus
      exact h bus ⟨allocation, hmem, hbus⟩

lemma mem_probeConfigSpace (h : probeConfigSpace config fuel mcfg = some found) (g : Function) :
    g ∈ found ↔ Present config g ∧ Reached config mcfg g.1 := by
  have hsome := probeConfigSpace_isSome.1 (isSome_of_eq_some h)
  have hbuses : g ∈ found ↔ ∃ bus, Started mcfg bus ∧
      ∃ rest, probePciBus config fuel bus = some rest ∧ g ∈ rest := by
    cases mcfg with
    | none =>
      rw [mem_collect h]
      simp only [mem_busRange]
      constructor
      · rintro ⟨bus, hbus, hrest⟩
        exact ⟨bus, hbus.2, hrest⟩
      · rintro ⟨bus, hbus, hrest⟩
        exact ⟨bus, ⟨UInt8.zero_le, hbus⟩, hrest⟩
    | some allocations =>
      rw [mem_collect h]
      have hranges := collect_isSome.1 (isSome_of_eq_some h)
      constructor
      · rintro ⟨allocation, hmem, range, hrange, hg⟩
        obtain ⟨bus, hbus, hrest⟩ := (mem_collect hrange).1 hg
        exact ⟨bus, ⟨allocation, hmem, mem_busRange.1 hbus⟩, hrest⟩
      · rintro ⟨bus, ⟨allocation, hmem, hbus⟩, hrest⟩
        obtain ⟨range, hrange⟩ := isSome_iff_exists.1 (hranges allocation hmem)
        exact ⟨allocation, hmem, range, hrange,
          (mem_collect hrange).2 ⟨bus, mem_busRange.2 hbus, hrest⟩⟩
  rw [hbuses]
  constructor
  · rintro ⟨bus, hstarted, rest, hrest, hg⟩
    obtain ⟨hpresent, hreach⟩ := (mem_probePciBus_iff hrest g).1 hg
    exact ⟨hpresent, bus, hstarted, hreach⟩
  · rintro ⟨hpresent, bus, hstarted, hreach⟩
    obtain ⟨rest, hrest⟩ := isSome_iff_exists.1 (hsome bus hstarted)
    exact ⟨bus, hstarted, rest, hrest, (mem_probePciBus_iff hrest g).2 ⟨hpresent, hreach⟩⟩

/-! ## When all of it is found -/

lemma finite_uInt8 : Finite UInt8 :=
  Finite.of_injective UInt8.toFin fun _ _ h => UInt8.toFin_inj.1 h

lemma exists_probe_iff : (∃ fuel, (probeConfigSpace config fuel mcfg).isSome) ↔
    (∀ f, Present config f → Reached config mcfg f.1 → CapabilitiesEnd config f) ∧
      ∀ bus, Reached config mcfg bus → ¬ TransGen (Bridges config) bus bus := by
  have hfinite := finite_uInt8
  constructor
  · rintro ⟨fuel, hsome⟩
    rw [probeConfigSpace_isSome] at hsome
    constructor
    · rintro f hpresent ⟨start, hstarted, hreach⟩
      exact (acc_of_isSome (hsome start hstarted)).2 f hpresent hreach
    · rintro bus ⟨start, hstarted, hreach⟩
      exact acc_iff_acyclic.1 (acc_of_isSome (hsome start hstarted)).1 bus hreach
  · rintro ⟨hread, hacyclic⟩
    have hone : ∀ bus ∈ busRange 0 255 ++ [255], ∃ fuel,
        Started mcfg bus → (probePciBus config fuel bus).isSome := by
      intro bus _
      by_cases hstarted : Started mcfg bus
      · have hacc := acc_iff_acyclic.2 fun c hreach => hacyclic c ⟨bus, hstarted, hreach⟩
        obtain ⟨fuel, hsome⟩ := exists_isSome_of_acc hacc
          fun f hpresent hreach => hread f hpresent ⟨bus, hstarted, hreach⟩
        exact ⟨fuel, fun _ => hsome⟩
      · exact ⟨0, fun h => absurd h hstarted⟩
    obtain ⟨fuel, hall⟩ := exists_common_bound
      (fun bus m n hle hbus hstarted => probePciBus_mono hle (hbus hstarted)) hone
    refine ⟨fuel, probeConfigSpace_isSome.2 fun bus hstarted => hall bus ?_ hstarted⟩
    have hbus : bus.toNat < 256 := bus.toNat_lt
    rw [mem_append, mem_busRange, mem_singleton]
    by_cases hlast : bus = 255
    · exact .inr hlast
    · refine .inl ⟨UInt8.zero_le, UInt8.lt_iff_toNat_lt.2 ?_⟩
      have hne : bus.toNat ≠ 255 := fun h => hlast (UInt8.toNat_inj.1 h)
      change bus.toNat < 255
      omega

lemma enumerable_of_probesAll (h : ProbesAll config mcfg) : Enumerable config mcfg := by
  obtain ⟨fuel, found, hprobe, hranges, hbridges⟩ := h
  obtain ⟨hread, hacyclic⟩ := exists_probe_iff.1 ⟨fuel, isSome_of_eq_some hprobe⟩
  have hmem := mem_probeConfigSpace hprobe
  -- a bus all functions of which are found is reached, or has none
  have hcovered : ∀ bus, (∀ f, Present config f → f.1 = bus → f ∈ found) →
      Covered config mcfg bus := by
    intro bus hall
    by_cases hnone : ∀ f, Present config f → f.1 ≠ bus
    · exact .inr hnone
    · push Not at hnone
      obtain ⟨f, hpresent, rfl⟩ := hnone
      exact .inl ((hmem f).1 (hall f hpresent rfl)).2
  refine ⟨hread, hacyclic, fun allocation hallocation hle => hcovered _ ?_,
    fun f hpresent hreached hbridge => hcovered _ ?_⟩
  · intro f hpresent hbus
    exact hranges allocation hallocation f hpresent (hbus ▸ hle) (hbus ▸ UInt8.le_refl _)
  · exact hbridges f ((hmem f).2 ⟨hpresent, hreached⟩) hbridge

lemma probesAll_of_enumerable (h : Enumerable config mcfg) : ProbesAll config mcfg := by
  obtain ⟨fuel, hsome⟩ := exists_probe_iff.2 ⟨h.capabilities, h.acyclic⟩
  obtain ⟨found, hprobe⟩ := isSome_iff_exists.1 hsome
  have hmem := mem_probeConfigSpace hprobe
  have hfound : ∀ f, Present config f → Covered config mcfg f.1 → f ∈ found := by
    rintro f hpresent (hreached | hnone)
    · exact (hmem f).2 ⟨hpresent, hreached⟩
    · exact absurd rfl (hnone f hpresent)
  refine ⟨fuel, found, hprobe, ?_, ?_⟩
  · intro allocation hallocation f hpresent hfirst hlast
    rcases UInt8.lt_or_eq_of_le hlast with hlt | heq
    · -- a bus of the range before its last one is where a walk is started
      refine hfound f hpresent (.inl ⟨f.1, ?_, .refl⟩)
      cases mcfg with
      | none => cases hallocation
      | some allocations => exact ⟨allocation, hallocation, hfirst, hlt⟩
    · exact hfound f hpresent (heq ▸ h.last_bus allocation hallocation (heq ▸ hfirst))
  · intro bridge hbridge hisBridge f hpresent hbus
    obtain ⟨hthere, hreached⟩ := (hmem bridge).1 hbridge
    exact hfound f hpresent (hbus ▸ h.secondary bridge hthere hreached hisBridge)

/-- The probe ends and finds all it should exactly if it comes to no cycle of buses or capabilities,
and the buses it does not start at, the last ones of the ranges and the secondary ones of the
bridges, are empty or reached all the same. -/
theorem probesAll_iff_enumerable (config : IConfigSpace) (mcfg : Option (List McfgAllocation)) :
    ProbesAll config mcfg ↔ Enumerable config mcfg :=
  ⟨enumerable_of_probesAll, probesAll_of_enumerable⟩

def lastBusDevice : IConfigSpace where
  read32 bus slot function offset :=
    if bus = 1 ∧ slot = 0 ∧ function = 0 then
      if offset = 0 then 0x00010001 else 0
    else 0xffffffff

lemma lastBusDevice_present : Present lastBusDevice (1, 0, 0) := by
  refine ⟨by decide, by decide, by decide, .inl rfl⟩

/-- It is not found in a range of the buses 0 and 1. -/
theorem lastBusDevice_missed : ¬ ProbesAll lastBusDevice (some [⟨0, 1⟩]) := by
  intro hall
  have hlast := (enumerable_of_probesAll hall).last_bus ⟨0, 1⟩ mem_cons_self (by decide)
  rcases hlast with ⟨start, ⟨allocation, hmem, hstarted⟩, hreach⟩ | hnone
  · -- the walk is started at bus 0 only, which has no function
    rw [mem_singleton.1 hmem] at hstarted
    have hzero : start = 0 := by
      refine UInt8.toNat_inj.1 ?_
      have hlt := UInt8.lt_iff_toNat_lt.1 hstarted.2
      exact Nat.lt_one_iff.1 hlt
    subst hzero
    rcases cases_head hreach with heq | ⟨c, ⟨⟨_, slot, function⟩, hpresent, rfl, -⟩, -⟩
    · exact absurd heq (by decide)
    · have hnot : ¬ ((0 : UInt8) = 1 ∧ slot = 0 ∧ function = 0) := fun h => absurd h.1 (by decide)
      have hempty : ∀ offset, lastBusDevice.read32 0 slot function offset = 0xffffffff := by
        intro offset
        simp [lastBusDevice]
      have hvendor : lastBusDevice.read16 0 slot function 0 = 0xffff := by
        rw [IConfigSpace.read16, hempty]
        decide
      have hvalid := hpresent.2.2.1
      rw [queryHeader, if_pos hvendor] at hvalid
      exact absurd hvalid (by decide)
  · exact hnone _ lastBusDevice_present rfl

end Pci
end BezOS
