import BezOS.Lib.Word
import BezOS.Status

/-!
# Partitions of block devices

`IBlockDriver::read` and `write` and `km::PartitionBlockDevice` of `drivers/block/driver.cpp`, over
any device and nested to any depth. Block numbers and counts are 64-bit words.
-/

namespace BezOS
namespace Partition

open Lib List

inductive Protection
  | eNone | eRead | eWrite | eReadWrite
  deriving DecidableEq

inductive BlockDeviceStatus
  | eOk | eReadOnly | eInternalError | eOutOfRange | eInvalidBlock
  deriving DecidableEq

inductive Access
  | read | write
  deriving DecidableEq

/-- `bool(protection & Protection::eRead)` and the same for `eWrite`. -/
def Protection.allows : Protection → Access → Bool
  | .eNone, _ => false
  | .eRead, access => access = .read
  | .eWrite, access => access = .write
  | .eReadWrite, _ => true

structure BlockDeviceCapability where
  protection : Protection
  blockSize : Nat
  blockCount : Nat
  deriving DecidableEq

inductive IBlockDriver
  | disk (capability : BlockDeviceCapability)
  | partition (mDevice : IBlockDriver) (mFront mBack : Nat)
  deriving DecidableEq

/-- The capability of a `MemoryBlk`. -/
def memoryBlk (mSize : Nat) (mProtection : Protection) : IBlockDriver :=
  .disk { protection := mProtection, blockSize := 512, blockCount := mSize / 512 }

namespace IBlockDriver

/-! ## Calls -/

def capability : IBlockDriver → BlockDeviceCapability
  | disk capability => capability
  | partition mDevice mFront mBack =>
      { mDevice.capability with blockCount := wrapSub (2 ^ 64) mBack mFront }

/-- `IBlockDriver::read` and `write` up to the call of `readImpl` or `writeImpl`. -/
def accept (cap : BlockDeviceCapability) (access : Access) (block count : Nat) :
    Except BlockDeviceStatus Unit :=
  if ¬ cap.protection.allows access then .error .eReadOnly
  else if wrapAdd (2 ^ 64) block count > cap.blockCount then .error .eOutOfRange
  else .ok ()

/-- `PartitionBlockDevice::readImpl` and `writeImpl` up to the call of the parent. -/
def relocate (mFront mBack block count : Nat) : Except BlockDeviceStatus Nat :=
  let block := wrapAdd (2 ^ 64) block mFront
  if wrapAdd (2 ^ 64) block count > mBack then .error .eOutOfRange else .ok block

def forwarded (access : Access) (mDevice : IBlockDriver) (mFront mBack block count : Nat) :
    Except BlockDeviceStatus Nat := do
  accept (partition mDevice mFront mBack).capability access block count
  relocate mFront mBack block count

def request (access : Access) : IBlockDriver → Nat → Nat → Except BlockDeviceStatus (Nat × Nat)
  | disk capability, block, count => do
      accept capability access block count
      pure (block, count)
  | partition mDevice mFront mBack, block, count => do
      let block ← forwarded access mDevice mFront mBack block count
      request access mDevice block count

/-! ## Where partitions lie -/

/-- Every partition lies inside its parent. -/
def WellNested : IBlockDriver → Prop
  | disk capability => capability.blockCount < 2 ^ 64
  | partition mDevice mFront mBack =>
      mFront ≤ mBack ∧ mBack ≤ mDevice.capability.blockCount ∧ mDevice.WellNested

def root : IBlockDriver → BlockDeviceCapability
  | disk capability => capability
  | partition mDevice _ _ => mDevice.root

def base : IBlockDriver → Nat
  | disk _ => 0
  | partition mDevice mFront _ => mDevice.base + mFront

/-- A call touches blocks `block` to `block + count` of the partition only, and the call of the
parent that it comes to does so of the parent. -/
def Isolated (access : Access) : IBlockDriver → Nat → Nat → Prop
  | disk _, _, _ => True
  | partition mDevice mFront mBack, block, count =>
      ∀ first, forwarded access mDevice mFront mBack block count = .ok first →
        first = mFront + block ∧ mFront ≤ first ∧ first + count ≤ mBack ∧
          Isolated access mDevice first count

/-- A call whose end is a block number, or which is refused all the same. -/
def Careful (access : Access) (d : IBlockDriver) (block count : Nat) : Prop :=
  d.capability.protection.allows access = false ∨ block + count < 2 ^ 64 ∨
    d.capability.blockCount < wrapAdd (2 ^ 64) block count

variable {d mDevice : IBlockDriver} {access : Access} {block count mFront mBack first : Nat}
  {status : BlockDeviceStatus} {cap : BlockDeviceCapability}

lemma WellNested.blockCount_lt (h : d.WellNested) : d.capability.blockCount < 2 ^ 64 := by
  cases d with
  | disk capability => exact h
  | partition mDevice mFront mBack => exact wrapSub_lt (Nat.two_pow_pos 64)

lemma WellNested.back_lt (h : (partition mDevice mFront mBack).WellNested) : mBack < 2 ^ 64 :=
  Nat.lt_of_le_of_lt h.2.1 h.2.2.blockCount_lt

lemma WellNested.blockCount_eq (h : (partition mDevice mFront mBack).WellNested) :
    (partition mDevice mFront mBack).capability.blockCount = mBack - mFront :=
  wrapSub_of_le h.1 h.back_lt

lemma WellNested.base_add_le (h : d.WellNested) :
    d.base + d.capability.blockCount ≤ d.root.blockCount := by
  induction d with
  | disk capability => exact Nat.le_of_eq (Nat.zero_add _)
  | partition mDevice mFront mBack ih =>
    have hparent := ih h.2.2
    have hfront := h.1
    have hback := h.2.1
    rw [h.blockCount_eq, base, root]
    omega

lemma accept_eq_ok (h : accept cap access block count = .ok ()) :
    cap.protection.allows access = true ∧ wrapAdd (2 ^ 64) block count ≤ cap.blockCount := by
  rw [accept] at h
  split at h
  · cases h
  · split at h
    · cases h
    · exact ⟨by simpa using ‹¬ ¬ _›, Nat.le_of_not_lt ‹_›⟩

lemma accept_of_le (hallows : cap.protection.allows access = true)
    (h : wrapAdd (2 ^ 64) block count ≤ cap.blockCount) :
    accept cap access block count = .ok () := by
  rw [accept, if_neg (by simpa using hallows), if_neg (Nat.not_lt.2 h)]

lemma careful_of_lt (h : block + count < 2 ^ 64) : Careful access d block count :=
  .inr (.inl h)

lemma Careful.le_of_accept (hcareful : Careful access d block count)
    (h : accept d.capability access block count = .ok ()) :
    block + count ≤ d.capability.blockCount := by
  obtain ⟨hallows, hle⟩ := accept_eq_ok h
  rcases hcareful with hnot | hlt | hwrapped
  · rw [hallows] at hnot
    cases hnot
  · rwa [wrapAdd, Nat.mod_eq_of_lt hlt] at hle
  · exact absurd hle (Nat.not_le.2 hwrapped)

lemma Careful.forwarded_eq (h : (partition mDevice mFront mBack).WellNested)
    (hcareful : Careful access (partition mDevice mFront mBack) block count)
    (hforwarded : forwarded access mDevice mFront mBack block count = .ok first) :
    first = mFront + block ∧ block + count ≤ mBack - mFront ∧ first + count ≤ mBack := by
  rw [forwarded] at hforwarded
  cases haccept : accept (partition mDevice mFront mBack).capability access block count with
  | error status =>
    rw [haccept] at hforwarded
    cases hforwarded
  | ok admitted =>
    have hle := hcareful.le_of_accept haccept
    have hfront := h.1
    have hback := h.back_lt
    rw [h.blockCount_eq] at hle
    rw [haccept] at hforwarded
    have hplain : wrapAdd (2 ^ 64) block mFront = block + mFront := Nat.mod_eq_of_lt (by omega)
    simp only [relocate, hplain] at hforwarded
    split at hforwarded
    · cases hforwarded
    · cases hforwarded
      exact ⟨Nat.add_comm .., hle, by omega⟩

lemma isolated_of_careful (h : d.WellNested) (hcareful : Careful access d block count) :
    Isolated access d block count := by
  induction d generalizing block with
  | disk capability => exact trivial
  | partition mDevice mFront mBack ih =>
    intro first hforwarded
    obtain ⟨hfirst, hle, hend⟩ := hcareful.forwarded_eq h hforwarded
    have hback := h.back_lt
    exact ⟨hfirst, by omega, hend, ih h.2.2 (careful_of_lt (by omega))⟩

lemma forwarded_of_wrapped (h : (partition mDevice mFront mBack).WellNested)
    (hnot : ¬ Careful access (partition mDevice mFront mBack) block count) :
    forwarded access mDevice mFront mBack block count = .ok (wrapAdd (2 ^ 64) block mFront) := by
  rw [Careful, not_or, not_or] at hnot
  obtain ⟨hallows, hlarge, hle⟩ := hnot
  have hfront := h.1
  have haccept := accept_of_le (by simpa using hallows) (Nat.le_of_not_lt hle)
  have hsum : wrapAdd (2 ^ 64) (wrapAdd (2 ^ 64) block mFront) count ≤ mBack := by
    rw [h.blockCount_eq, wrapAdd] at hle
    rw [wrapAdd, wrapAdd, Nat.mod_add_mod]
    omega
  rw [forwarded, haccept]
  rw [relocate]
  exact if_neg (Nat.not_lt.2 hsum)

lemma isolated_iff_careful (h : (partition mDevice mFront mBack).WellNested) :
    Isolated access (partition mDevice mFront mBack) block count ↔
      Careful access (partition mDevice mFront mBack) block count := by
  constructor
  · intro hisolated
    by_contra hnot
    obtain ⟨hfirst, -, hend, -⟩ := hisolated _ (forwarded_of_wrapped h hnot)
    have hback := h.back_lt
    exact hnot (careful_of_lt (by omega))
  · exact isolated_of_careful h

lemma accept_ne_eOk (h : accept cap access block count = .error status) : status ≠ .eOk := by
  rw [accept] at h
  split at h
  · cases h
    exact nofun
  · split at h
    · cases h
      exact nofun
    · cases h

lemma forwarded_ne_eOk (h : forwarded access mDevice mFront mBack block count = .error status) :
    status ≠ .eOk := by
  rw [forwarded] at h
  cases haccept : accept (partition mDevice mFront mBack).capability access block count with
  | error refused =>
    rw [haccept] at h
    cases h
    exact accept_ne_eOk haccept
  | ok admitted =>
    rw [haccept] at h
    rw [relocate] at h
    split at h
    · cases h
      exact nofun
    · cases h

lemma request_ne_eOk (h : request access d block count = .error status) : status ≠ .eOk := by
  induction d generalizing block with
  | disk capability =>
    rw [request] at h
    cases haccept : accept capability access block count with
    | error refused =>
      rw [haccept] at h
      cases h
      exact accept_ne_eOk haccept
    | ok admitted =>
      rw [haccept] at h
      cases h
  | partition mDevice mFront mBack ih =>
    rw [request] at h
    cases hforwarded : forwarded access mDevice mFront mBack block count with
    | error refused =>
      rw [hforwarded] at h
      cases h
      exact forwarded_ne_eOk hforwarded
    | ok first =>
      rw [hforwarded] at h
      exact ih h

lemma Careful.request_eq (h : d.WellNested) (hcareful : Careful access d block count)
    {span : Nat × Nat} (hrequest : request access d block count = .ok span) :
    span = (d.base + block, count) ∧ block + count ≤ d.capability.blockCount := by
  induction d generalizing block with
  | disk capability =>
    rw [request] at hrequest
    cases haccept : accept capability access block count with
    | error status =>
      rw [haccept] at hrequest
      cases hrequest
    | ok admitted =>
      rw [haccept] at hrequest
      cases hrequest
      rw [base, Nat.zero_add]
      exact ⟨rfl, hcareful.le_of_accept haccept⟩
  | partition mDevice mFront mBack ih =>
    rw [request] at hrequest
    cases hforwarded : forwarded access mDevice mFront mBack block count with
    | error status =>
      rw [hforwarded] at hrequest
      cases hrequest
    | ok first =>
      rw [hforwarded] at hrequest
      obtain ⟨hfirst, hle, hend⟩ := hcareful.forwarded_eq h hforwarded
      have hback := h.back_lt
      obtain ⟨hspan, -⟩ := ih h.2.2 (careful_of_lt (by omega)) hrequest
      rw [h.blockCount_eq, hspan, hfirst, base, Nat.add_assoc]
      exact ⟨rfl, hle⟩

end IBlockDriver

/-! ## Runs -/

abbrev Block := List UInt8

abbrev Contents := Nat → Block

inductive Transfer
  | read (count : Nat)
  | write (data : List Block)

def Transfer.access : Transfer → Access
  | .read _ => .read
  | .write _ => .write

def Transfer.count : Transfer → Nat
  | .read count => count
  | .write data => data.length

/-- A call of `read` or `write`, and what the disk answers if it is asked. -/
structure Call where
  driver : IBlockDriver
  block : Nat
  transfer : Transfer
  answer : BlockDeviceStatus

def readBlocks (contents : Contents) (first count : Nat) : List Block :=
  (range count).map fun i => contents (first + i)

def writeBlocks (contents : Contents) (first : Nat) (data : List Block) : Contents := fun i =>
  if first ≤ i then (data[i - first]?).getD (contents i) else contents i

def serve (contents : Contents) (transfer : Transfer) (answer : BlockDeviceStatus)
    (span : Nat × Nat) : Contents × BlockDeviceStatus × List Block :=
  if answer ≠ .eOk then (contents, answer, [])
  else match transfer with
    | .read _ => (contents, .eOk, readBlocks contents span.1 span.2)
    | .write data => (writeBlocks contents span.1 data, .eOk, [])

/-- A call: what the disk holds afterwards, the status, and the blocks that were read. -/
def perform (contents : Contents) (call : Call) :
    Except Fault (Contents × BlockDeviceStatus × List Block) :=
  match call.driver.request call.transfer.access call.block call.transfer.count with
  | .error status => .ok (contents, status, [])
  | .ok span =>
      if call.driver.root.blockCount < span.1 + span.2 then .error .badAccess
      else .ok (serve contents call.transfer call.answer span)

inductive Run (initial : Contents) : List (Call × BlockDeviceStatus) → Contents → Prop
  | start : Run initial [] initial
  | call {events : List (Call × BlockDeviceStatus)} {contents contents' : Contents} {call : Call}
      {status : BlockDeviceStatus} {blocks : List Block} (hrun : Run initial events contents)
      (hcall : perform contents call = .ok (contents', status, blocks)) :
      Run initial ((call, status) :: events) contents'

def stored (d : IBlockDriver) (event : Call × BlockDeviceStatus) (block : Nat) : Option Block :=
  if event.1.driver = d ∧ event.2 = .eOk ∧ event.1.block ≤ block then
    match event.1.transfer with
    | .read _ => none
    | .write data => data[block - event.1.block]?
  else none

def lastStored (d : IBlockDriver) (events : List (Call × BlockDeviceStatus)) (block : Nat) :
    Option Block :=
  events.findSome? fun event => stored d event block

/-- A careful call through a device, or through another one that shares no block with it. -/
structure Beside (d : IBlockDriver) (call : Call) : Prop where
  nested : call.driver.WellNested
  root_eq : call.driver.root = d.root
  careful : call.driver.Careful call.transfer.access call.block call.transfer.count
  apart : call.driver = d ∨
    call.driver.base + call.driver.capability.blockCount ≤ d.base ∨
    d.base + d.capability.blockCount ≤ call.driver.base

variable {d : IBlockDriver} {initial contents contents' : Contents} {call : Call}
  {status : BlockDeviceStatus} {blocks : List Block}
  {events : List (Call × BlockDeviceStatus)}

lemma serve_of_ne (h : call.answer ≠ .eOk) (span : Nat × Nat) :
    serve contents call.transfer call.answer span = (contents, call.answer, []) := by
  exact if_pos h

lemma perform_cases (h : call.driver.WellNested)
    (hcareful : call.driver.Careful call.transfer.access call.block call.transfer.count)
    (contents : Contents) :
    (∃ status ≠ .eOk, perform contents call = .ok (contents, status, [])) ∨
      (call.block + call.transfer.count ≤ call.driver.capability.blockCount ∧
        perform contents call = .ok (serve contents call.transfer call.answer
          (call.driver.base + call.block, call.transfer.count))) := by
  cases hrequest : call.driver.request call.transfer.access call.block call.transfer.count with
  | error status =>
    refine .inl ⟨status, ?_, by rw [perform, hrequest]⟩
    exact IBlockDriver.request_ne_eOk hrequest
  | ok span =>
    obtain ⟨rfl, hle⟩ := hcareful.request_eq h hrequest
    have hroot := h.base_add_le
    refine .inr ⟨hle, ?_⟩
    rw [perform, hrequest]
    exact if_neg (by omega)

lemma perform_block (hbeside : Beside d call)
    (hcall : perform contents call = .ok (contents', status, blocks)) {block : Nat}
    (hblock : block < d.capability.blockCount) :
    contents' (d.base + block) =
      (stored d (call, status) block).getD (contents (d.base + block)) := by
  rcases perform_cases hbeside.nested hbeside.careful contents with
    ⟨refused, hrefused, hperform⟩ | ⟨hle, hperform⟩
  · rw [hperform] at hcall
    cases hcall
    rw [stored, if_neg (fun h => hrefused h.2.1)]
    rfl
  · rw [hperform] at hcall
    by_cases hanswer : call.answer ≠ .eOk
    · rw [serve_of_ne hanswer] at hcall
      cases hcall
      rw [stored, if_neg (fun h => hanswer h.2.1)]
      rfl
    · rw [not_not.1 hanswer] at hcall
      cases htransfer : call.transfer with
      | read count =>
        rw [htransfer] at hcall
        cases hcall
        simp [stored, htransfer]
      | write data =>
        rw [htransfer] at hcall hle
        cases hcall
        have hcount : call.block + data.length ≤ call.driver.capability.blockCount := hle
        rcases hbeside.apart with hsame | hapart
        · by_cases hfrom : call.block ≤ block
          · rw [writeBlocks, stored, if_pos (by rw [hsame]; omega), if_pos ⟨hsame, rfl, hfrom⟩,
              htransfer, hsame, show d.base + block - (d.base + call.block) = block - call.block by
                omega]
          · rw [writeBlocks, stored, if_neg (by rw [hsame]; omega), if_neg fun h => hfrom h.2.2]
            rfl
        · have hnot : call.driver ≠ d := by
            rintro hsame
            rw [hsame] at hapart hcount
            omega
          rw [stored, if_neg fun h => hnot h.1, writeBlocks]
          split
          · rw [getElem?_eq_none (by omega)]
          · rfl

lemma Run.block_eq (hrun : Run initial events contents)
    (hbeside : ∀ event ∈ events, Beside d event.1) {block : Nat}
    (hblock : block < d.capability.blockCount) :
    contents (d.base + block) = (lastStored d events block).getD (initial (d.base + block)) := by
  induction hrun with
  | start => rfl
  | @call events contents contents' call status blocks hrun hcall ih =>
    have hlast := perform_block (hbeside _ mem_cons_self) hcall hblock
    have hbefore := ih fun event hevent => hbeside event (mem_cons_of_mem _ hevent)
    rw [hlast, hbefore]
    unfold lastStored
    rw [findSome?_cons]
    cases stored d (call, status) block with
    | none => rfl
    | some data => rfl

def Read (d : IBlockDriver) (call : Call) (count : Nat) : Prop :=
  call.driver = d ∧ call.transfer = .read count

open IBlockDriver in
/-- A call of a partition is isolated exactly if its end does not wrap to a block of the partition.
In runs of such calls, by the partition and by devices beside it, what is read through the partition
is what was stored last through it, or what the disk held at first. -/
theorem partition_isolated (mDevice : IBlockDriver) (mFront mBack : Nat)
    (h : (partition mDevice mFront mBack).WellNested) :
    (∀ access block count, (partition mDevice mFront mBack).Isolated access block count ↔
      (partition mDevice mFront mBack).Careful access block count) ∧
    ∀ initial events contents, Run initial events contents →
      (∀ event ∈ events, Beside (partition mDevice mFront mBack) event.1) →
      ∀ call, Beside (partition mDevice mFront mBack) call →
        (∃ result, perform contents call = .ok result) ∧
        ∀ count contents' blocks, Read (partition mDevice mFront mBack) call count →
          perform contents call = .ok (contents', .eOk, blocks) →
          blocks = (range count).map fun i =>
            (lastStored (partition mDevice mFront mBack) events (call.block + i)).getD
              (initial ((partition mDevice mFront mBack).base + (call.block + i))) := by
  refine ⟨fun access block count => isolated_iff_careful h, ?_⟩
  intro initial events contents hrun hbeside call hcall
  refine ⟨?_, ?_⟩
  · rcases perform_cases hcall.nested hcall.careful contents with ⟨_, _, hperform⟩ | ⟨_, hperform⟩
    · exact ⟨_, hperform⟩
    · exact ⟨_, hperform⟩
  · rintro count contents' blocks ⟨hdriver, htransfer⟩ hread
    rcases perform_cases hcall.nested hcall.careful contents with
      ⟨status, hstatus, hperform⟩ | ⟨hle, hperform⟩
    · rw [hperform] at hread
      cases hread
      exact absurd rfl hstatus
    · rw [hperform] at hread
      by_cases hanswer : call.answer ≠ .eOk
      · rw [serve_of_ne hanswer] at hread
        simp only [Except.ok.injEq, Prod.mk.injEq] at hread
        exact absurd hread.2.1 hanswer
      · rw [not_not.1 hanswer, htransfer] at hread
        cases hread
        rw [htransfer, hdriver] at hle
        refine map_congr_left fun i hi => ?_
        have hi := mem_range.1 hi
        rw [hdriver, Nat.add_assoc]
        exact hrun.block_eq hbeside (by omega)

/-! ## A small partition -/

def middleBlock : IBlockDriver :=
  .partition (memoryBlk 1536 .eReadWrite) 1 2

def storeSeven : Call :=
  ⟨middleBlock, 0, .write [[7]], .eOk⟩

def loadFirst : Call :=
  ⟨middleBlock, 0, .read 1, .eOk⟩

/-- What is stored in the partition is read from it again. -/
theorem middleBlock_isolated :
    (∀ access block count, middleBlock.Isolated access block count ↔
      middleBlock.Careful access block count) ∧
    ∃ contents, Run (fun _ => []) [(storeSeven, .eOk)] contents ∧
      ∀ contents' blocks, perform contents loadFirst = .ok (contents', .eOk, blocks) →
        blocks = [[7]] := by
  have h : middleBlock.WellNested := by
    refine ⟨by decide, by decide, ?_⟩
    change 1536 / 512 < 2 ^ 64
    decide
  have hmain := partition_isolated _ 1 2 h
  have hstore : Beside middleBlock storeSeven := ⟨h, rfl, .inr (.inl (by decide)), .inl rfl⟩
  have hload : Beside middleBlock loadFirst := ⟨h, rfl, .inr (.inl (by decide)), .inl rfl⟩
  have hrun : Run (fun _ => []) [(storeSeven, .eOk)] (writeBlocks (fun _ => []) 1 [[7]]) :=
    @Run.call _ _ _ _ storeSeven _ [] .start rfl
  refine ⟨hmain.1, _, hrun, fun contents' blocks hread => ?_⟩
  have hevents : ∀ event ∈ [(storeSeven, BlockDeviceStatus.eOk)], Beside middleBlock event.1 := by
    intro event hevent
    rw [mem_singleton.1 hevent]
    exact hstore
  exact (hmain.2 _ _ _ hrun hevents _ hload).2 1 contents' blocks ⟨rfl, rfl⟩ hread

/-- The last block number and a count of one come to the first block of the disk. -/
theorem middleBlock_wrapped :
    middleBlock.request .read (2 ^ 64 - 1) 1 = .ok (0, 1) ∧
      ¬ middleBlock.Isolated .read (2 ^ 64 - 1) 1 := by
  have hforwarded : IBlockDriver.forwarded .read (memoryBlk 1536 .eReadWrite) 1 2 (2 ^ 64 - 1) 1 =
      .ok 0 := by decide
  refine ⟨by decide, fun hisolated => ?_⟩
  obtain ⟨hfirst, -⟩ := hisolated 0 hforwarded
  exact absurd hfirst (by decide)

end Partition
end BezOS
