import Mathlib.Algebra.GroupWithZero.Nat
import Mathlib.Data.List.Nodup
import Mathlib.Order.Nat
import BezOS.System.Handles

/-!
# Handles keep their identity

As long as no identifier allocator has run into the byte of the type, a new handle differs from
every handle that is still open: of another type because of the top byte, of the same type because
of the counter. What a caller was given and has not closed is then exactly what the table holds.
-/

namespace BezOS

open Lib HandleTable BitVec List Function

/-! ## Packing -/

section Packing

variable {type other : OsHandleType} {id : OsHandle}

lemma toNat_osHandleNew (hid : id.toNat < 2 ^ 56) :
    (osHandleNew type id).toNat = type.toNat * 2 ^ 56 + id.toNat := by
  have htype := type.toNat_lt
  have hsmall : type.toNat <<< 56 < 2 ^ 64 := by
    rw [Nat.shiftLeft_eq]
    omega
  rw [osHandleNew, toNat_or, toNat_shiftLeft, toNat_ofNat,
    Nat.mod_eq_of_lt (by omega : type.toNat < 2 ^ 64), Nat.mod_eq_of_lt hsmall,
    ← Nat.shiftLeft_add_eq_or_of_lt hid, Nat.shiftLeft_eq]

lemma osHandleType_osHandleNew (hid : id.toNat < 2 ^ 56) :
    osHandleType (osHandleNew type id) = type.toNat := by
  rw [osHandleType, toNat_ushiftRight, Nat.shiftRight_eq_div_pow, toNat_osHandleNew hid]
  omega

lemma osHandleNew_inj {id' : OsHandle} (hid : id.toNat < 2 ^ 56) (hid' : id'.toNat < 2 ^ 56)
    (h : osHandleNew type id = osHandleNew other id') : type = other ∧ id = id' := by
  have htype : type.toNat = other.toNat := by
    rw [← osHandleType_osHandleNew hid, h, osHandleType_osHandleNew hid']
  have hnat := congrArg BitVec.toNat h
  rw [toNat_osHandleNew hid, toNat_osHandleNew hid'] at hnat
  exact ⟨OsHandleType.toNat_injective htype, eq_of_toNat_eq (by omega)⟩

end Packing

namespace HandleTable

variable {t t' : HandleTable} {type : OsHandleType} {h : IHandle} {handle : OsHandle}

/-! ## Tables whose handles were issued by their allocators -/

/-- The allocator of a type has not reached the byte of the type. -/
def InRange (t : HandleTable) (type : OsHandleType) : Prop :=
  (t.mIdAllocators type).toNat < 2 ^ 56
  deriving Decidable

structure Issued (t : HandleTable) : Prop where
  positive : ∀ type, 0 < (t.mIdAllocators type).toNat
  distinct : (t.mHandles.map IHandle.handle).Nodup
  issued : ∀ h ∈ t.mHandles, ∃ id : OsHandle, 0 < id.toNat ∧ id.toNat < 2 ^ 56 ∧
    id.toNat < (t.mIdAllocators h.object.type).toNat ∧ h.handle = osHandleNew h.object.type id

lemma Issued.empty : empty.Issued where
  positive := fun _ => Nat.one_pos
  distinct := nodup_nil
  issued := fun _ hmem => by cases hmem

lemma getHandle_mem (hget : t.getHandle handle = some h) : h ∈ t.mHandles ∧ h.handle = handle := by
  exact ⟨mem_of_find?_eq_some hget, by simpa using find?_some hget⟩

lemma Issued.getHandle_of_mem (ht : t.Issued) (hmem : h ∈ t.mHandles) :
    t.getHandle h.handle = some h := by
  cases hget : t.getHandle h.handle with
  | none =>
    rw [HandleTable.getHandle, find?_eq_none] at hget
    exact absurd BEq.rfl (hget h hmem)
  | some h' =>
    obtain ⟨hmem', heq⟩ := getHandle_mem hget
    rw [inj_on_of_nodup_map ht.distinct hmem' hmem heq]

lemma getHandle_eq_none (hfresh : ∀ h ∈ t.mHandles, h.handle ≠ handle) :
    t.getHandle handle = none := by
  rw [getHandle, find?_eq_none]
  simpa using hfresh

section

variable (ht : t.Issued) (hmem : h ∈ t.mHandles)

include ht hmem

lemma Issued.osHandleType :
    osHandleType h.handle = h.object.type.toNat := by
  obtain ⟨id, -, hid, -, heq⟩ := ht.issued h hmem
  rw [heq, osHandleType_osHandleNew hid]

lemma Issued.ne_invalid : h.handle ≠ osHandleInvalid := by
  obtain ⟨id, hpos, hid, -, heq⟩ := ht.issued h hmem
  intro hzero
  have hnat := congrArg BitVec.toNat (heq.symm.trans hzero)
  rw [toNat_osHandleNew hid] at hnat
  have hinvalid : osHandleInvalid.toNat = 0 := rfl
  omega

lemma Issued.sysFindHandle (type : OsHandleType) :
    t.sysFindHandle h.handle type =
      if type = h.object.type then .ok h else .error .invalidHandle := by
  rw [HandleTable.sysFindHandle, if_neg (ht.ne_invalid hmem), findHandle, ht.osHandleType hmem,
    ht.getHandle_of_mem hmem]
  by_cases htype : type = h.object.type
  · rw [if_pos htype, if_neg (by simp [htype])]
  · rw [if_neg htype, if_pos (fun heq => htype (OsHandleType.toNat_injective heq.symm))]

end

/-! ## New handles -/

@[simp] lemma mHandles_newHandleId : (t.newHandleId type).2.mHandles = t.mHandles := rfl

lemma toNat_next (hin : t.InRange type) :
    (t.mIdAllocators type + 1).toNat = (t.mIdAllocators type).toNat + 1 := by
  rw [InRange] at hin
  have hone : BitVec.toNat (1 : BitVec 64) = 1 := rfl
  rw [toNat_add, hone]
  omega

lemma Issued.newHandleId (ht : t.Issued) (hin : t.InRange type) : (t.newHandleId type).2.Issued := by
  -- the counter only grows
  have hle : ∀ other, (t.mIdAllocators other).toNat ≤
      ((t.newHandleId type).2.mIdAllocators other).toNat := by
    intro other
    by_cases hother : other = type
    · subst hother
      simp only [HandleTable.newHandleId, update_self, toNat_next hin]
      omega
    · simp [HandleTable.newHandleId, hother]
  refine ⟨fun other => lt_of_lt_of_le (ht.positive other) (hle other), ht.distinct, ?_⟩
  intro h hmem
  obtain ⟨id, hpos, hid, hlt, heq⟩ := ht.issued h hmem
  exact ⟨id, hpos, hid, lt_of_lt_of_le hlt (hle _), heq⟩

lemma Issued.newHandleId_fresh (ht : t.Issued) (hin : t.InRange type) :
    ∀ h ∈ t.mHandles, h.handle ≠ (t.newHandleId type).1 := by
  intro h hmem heq
  obtain ⟨id, -, hid, hlt, hissued⟩ := ht.issued h hmem
  obtain ⟨rfl, rfl⟩ := osHandleNew_inj hid hin (hissued.symm.trans heq)
  exact lt_irrefl _ hlt

lemma Issued.addHandle (ht : t.Issued) {object : ObjectRef} (access : OsHandleAccess)
    (hin : t.InRange object.type) :
    ∃ t', (t.newHandleId object.type).2.addHandle
        ⟨object, (t.newHandleId object.type).1, access⟩ = .ok t' ∧
      t'.mHandles = ⟨object, (t.newHandleId object.type).1, access⟩ :: t.mHandles ∧ t'.Issued := by
  have hfresh := ht.newHandleId_fresh hin
  have hnew := ht.newHandleId hin
  refine ⟨{ (t.newHandleId object.type).2 with
    mHandles := ⟨object, (t.newHandleId object.type).1, access⟩ :: t.mHandles }, ?_, rfl, ?_⟩
  · have hnone : (t.newHandleId object.type).2.getHandle (t.newHandleId object.type).1 = none :=
      getHandle_eq_none hfresh
    rw [HandleTable.addHandle]
    simp only [hnone]
    rfl
  · refine ⟨hnew.positive, ?_, ?_⟩
    · refine nodup_cons.2 ⟨?_, ht.distinct⟩
      intro hmem
      obtain ⟨h, hmem, heq⟩ := mem_map.1 hmem
      exact hfresh h hmem heq
    · intro h hmem
      rcases mem_cons.1 hmem with rfl | hmem
      · refine ⟨t.mIdAllocators object.type, ht.positive _, hin, ?_, rfl⟩
        simp only [HandleTable.newHandleId, update_self, toNat_next hin]
        omega
      · exact hnew.issued h hmem

/-! ## Results -/

/-- The call returned; it handed out the one handle it put into the table, or none. -/
def Keeps (t : HandleTable) (r : Result) : Prop :=
  ∃ status new t', r = .ok (status, new, t') ∧ t'.mHandles = new.toList ++ t.mHandles ∧ t'.Issued

lemma Issued.refused (ht : t.Issued) (status : OsStatus) : t.Keeps (.ok (status, none, t)) :=
  ⟨status, none, t, rfl, rfl, ht⟩

lemma Issued.install (ht : t.Issued) (object : ObjectRef) (access : OsHandleAccess)
    (prepare finish : OsStatus) (hin : t.InRange object.type) :
    t.Keeps (t.install object access prepare finish) := by
  rw [HandleTable.install]
  by_cases hprepare : prepare = .success
  · rw [if_neg (by simpa using hprepare)]
    dsimp only
    by_cases hfinish : finish = .success
    · rw [if_neg (by simpa using hfinish)]
      obtain ⟨t', hadd, hmem, ht'⟩ := ht.addHandle access hin
      rw [hadd]
      exact ⟨_, _, t', rfl, hmem, ht'⟩
    · rw [if_pos hfinish]
      exact ⟨_, none, _, rfl, rfl, ht.newHandleId hin⟩
  · rw [if_pos hprepare]
    exact ht.refused prepare

lemma Issued.openObject (ht : t.Issued) (object : ObjectRef) (access : OsHandleAccess)
    (memory : Bool) (hin : object.type = .process → t.InRange .process) :
    t.Keeps (t.openObject object access memory) := by
  rw [HandleTable.openObject]
  split
  · rename_i hprocess
    exact ht.install ⟨.process, object.id⟩ access _ _ (hin hprocess)
  · exact ht.refused _

lemma Issued.nodeQuery (ht : t.Issued) (node : OsHandle) (id : Nat) (prepare : OsStatus)
    (memory : Bool) (hin : t.InRange .device) : t.Keeps (t.nodeQuery node id prepare memory) := by
  rw [HandleTable.nodeQuery]
  split
  · exact ht.refused _
  · split
    · exact ht.refused _
    · exact ht.install ⟨.device, id⟩ _ _ _ hin

lemma clone_eq_ok {access : OsHandleAccess} {id : OsHandle} {memory : Bool} {result : IHandle}
    (hclone : h.clone access id memory = .ok result) :
    h.hasAccess access ∧ result = ⟨h.object, id, access⟩ := by
  rw [IHandle.clone] at hclone
  split at hclone
  · split at hclone
    · cases hclone
    · rename_i haccess
      split at hclone
      · cases hclone
        exact ⟨by simpa using haccess, rfl⟩
      · cases hclone
  · cases hclone

lemma Issued.handleClone (ht : t.Issued) (source : OsHandle) (access : OsHandleAccess)
    (memory : Bool) (hin : ∀ h, t.getHandle source = some h → t.InRange h.object.type) :
    ∃ status new t', t.handleClone source access memory = .ok (status, new, t') ∧
      t'.mHandles = new.toList ++ t.mHandles ∧ t'.Issued ∧
      ∀ h ∈ new, ∃ from', t.getHandle source = some from' ∧ h.access &&& from'.access = h.access := by
  rw [HandleTable.handleClone]
  cases hget : t.getHandle source with
  | none => exact ⟨_, none, t, rfl, rfl, ht, by simp⟩
  | some h =>
    have hmem := (getHandle_mem hget).1
    have hrange := hin h hget
    simp only [ht.osHandleType hmem, OsHandleType.ofNat?_toNat]
    cases hclone : h.clone access (t.newHandleId h.object.type).1 memory with
    | error status => exact ⟨_, none, _, rfl, rfl, ht.newHandleId hrange, by simp⟩
    | ok result =>
      obtain ⟨haccess, rfl⟩ := clone_eq_ok hclone
      obtain ⟨t', hadd, hkeep, ht'⟩ := ht.addHandle access hrange
      dsimp only
      rw [hadd]
      refine ⟨_, _, t', rfl, hkeep, ht', ?_⟩
      intro new hnew
      obtain rfl := Option.mem_some_iff.1 hnew
      refine ⟨h, rfl, ?_⟩
      rw [BitVec.and_comm]
      exact haccess

lemma Issued.removeHandle (ht : t.Issued) (handle : OsHandle) :
    (t.removeHandle handle).2.Issued ∧
      (t.removeHandle handle).2.mHandles = (if (t.removeHandle handle).1 = .success then
        t.mHandles.filter (·.handle ≠ handle) else t.mHandles) := by
  rw [HandleTable.removeHandle]
  split
  · refine ⟨⟨ht.positive, ?_, fun h hmem => ht.issued h (mem_of_mem_filter hmem)⟩, rfl⟩
    exact ht.distinct.sublist (filter_sublist.map _)
  · exact ⟨ht, rfl⟩

lemma sysFindHandle_cases (t : HandleTable) (handle : OsHandle) (type : OsHandleType) :
    t.sysFindHandle handle type = .error .invalidHandle ∨
      ∃ h, t.sysFindHandle handle type = .ok h ∧ h ∈ t.mHandles ∧ h.handle = handle := by
  rw [HandleTable.sysFindHandle, findHandle]
  split
  · exact .inl rfl
  · split
    · exact .inl rfl
    · split
      · rename_i h hget
        exact .inr ⟨h, rfl, getHandle_mem hget⟩
      · exact .inl rfl

lemma Issued.closeTyped (ht : t.Issued) (type : OsHandleType) (handle : OsHandle) :
    (t.closeTyped type handle).2.Issued ∧
      (t.closeTyped type handle).2.mHandles = (if (t.closeTyped type handle).1 = .success then
        t.mHandles.filter (·.handle ≠ handle) else t.mHandles) := by
  rw [HandleTable.closeTyped]
  rcases sysFindHandle_cases t handle type with hfind | ⟨h, hfind, -, hhandle⟩
  · rw [hfind]
    exact ⟨ht, rfl⟩
  · rw [hfind]
    dsimp only
    split
    · exact ⟨ht, rfl⟩
    · rw [hhandle]
      exact ht.removeHandle handle

end HandleTable

/-! ## Sessions -/

/-- A handle that was handed out, and the access of the handle it was cloned from. -/
structure LiveHandle where
  handle : IHandle
  source : Option OsHandleAccess
  deriving DecidableEq

/-- A process with the handles that were handed out and not closed since. -/
structure HandleSession where
  table : HandleTable
  live : List LiveHandle

namespace HandleSession

variable {s s' : HandleSession}

def start : HandleSession := ⟨.empty, []⟩

def receive (s : HandleSession) (source : Option OsHandleAccess) (r : HandleTable.Result) :
    Except Fault HandleSession :=
  match r with
  | .error e => .error e
  | .ok (_, new, t) => .ok ⟨t, new.toList.map (⟨·, source⟩) ++ s.live⟩

def forget (s : HandleSession) (handle : OsHandle) (r : OsStatus × HandleTable) : HandleSession :=
  if r.1 = .success then ⟨r.2, s.live.filter (·.handle.handle ≠ handle)⟩ else ⟨r.2, s.live⟩

def step (s : HandleSession) : HandleCall → Except Fault HandleSession
  | .openObject object access memory => s.receive none (s.table.openObject object access memory)
  | .processCreate id prepare finish => s.receive none (s.table.processCreate id prepare finish)
  | .threadCreate id prepare finish => s.receive none (s.table.threadCreate id prepare finish)
  | .nodeCreate id prepare memory => s.receive none (s.table.nodeCreate id prepare memory)
  | .nodeQuery node id prepare memory => s.receive none (s.table.nodeQuery node id prepare memory)
  | .deviceOpen id prepare memory => s.receive none (s.table.deviceOpen id prepare memory)
  | .txCreate id prepare memory => s.receive none (s.table.txCreate id prepare memory)
  | .handleClone source access memory =>
      s.receive ((s.table.getHandle source).map IHandle.access)
        (s.table.handleClone source access memory)
  | .findHandle _ _ => .ok s
  | .handleClose handle => .ok (s.forget handle (s.table.handleClose handle))
  | .nodeClose handle => .ok (s.forget handle (s.table.nodeClose handle))
  | .deviceClose handle => .ok (s.forget handle (s.table.deviceClose handle))

def Steps (s : HandleSession) (call : HandleCall) (s' : HandleSession) : Prop := s.step call = .ok s'

/-- Open handles differ; each is found under the type of its object, which is the type it encodes,
and under no other; and a clone has no access that its source lacked. -/
structure Identity (s : HandleSession) : Prop where
  distinct : (s.live.map (·.handle.handle)).Nodup
  found : ∀ e ∈ s.live, ∀ type, s.table.sysFindHandle e.handle.handle type =
    if type = e.handle.object.type then .ok e.handle else .error .invalidHandle
  encoded : ∀ e ∈ s.live, osHandleType e.handle.handle = e.handle.object.type.toNat
  cloned : ∀ e ∈ s.live, ∀ access ∈ e.source, e.handle.access &&& access = e.handle.access

/-- The allocator that the call takes an identifier from has not reached the byte of the type. -/
def Bounded (s : HandleSession) : HandleCall → Prop
  | .openObject object _ _ => object.type = .process → s.table.InRange .process
  | .processCreate _ _ _ => s.table.InRange .process
  | .threadCreate _ _ _ => s.table.InRange .thread
  | .nodeCreate _ _ _ => s.table.InRange .node
  | .nodeQuery _ _ _ _ => s.table.InRange .device
  | .deviceOpen _ _ _ => s.table.InRange .device
  | .txCreate _ _ _ => s.table.InRange .tx
  | .handleClone source _ _ => ∀ h ∈ s.table.getHandle source, s.table.InRange h.object.type
  | _ => True

def BoundedSteps (s : HandleSession) (call : HandleCall) (s' : HandleSession) : Prop :=
  s.Bounded call ∧ s.Steps call s'

structure Invariant (s : HandleSession) : Prop where
  issued : s.table.Issued
  live : s.table.mHandles = s.live.map LiveHandle.handle
  cloned : ∀ e ∈ s.live, ∀ access ∈ e.source, e.handle.access &&& access = e.handle.access

lemma Invariant.start : start.Invariant := ⟨.empty, rfl, by simp [HandleSession.start]⟩

section

variable (hs : s.Invariant)

include hs

lemma Invariant.receive {source : Option OsHandleAccess} {status : OsStatus} {new : Option IHandle}
    {t : HandleTable} (ht : t.Issued) (hkeep : t.mHandles = new.toList ++ s.table.mHandles)
    (hcloned : ∀ h ∈ new, ∀ access ∈ source, h.access &&& access = h.access) :
    ∃ s', s.receive source (.ok (status, new, t)) = .ok s' ∧ s'.Invariant := by
  refine ⟨_, rfl, ht, ?_, ?_⟩
  · cases new <;> simp [hkeep, hs.live]
  · intro e he access haccess
    rcases mem_append.1 he with he | he
    · cases new with
      | none => simp at he
      | some h =>
        obtain rfl : e = ⟨h, source⟩ := by simpa using he
        exact hcloned h rfl access haccess
    · exact hs.cloned e he access haccess

lemma Invariant.keeps {r : HandleTable.Result} (hr : s.table.Keeps r) :
    ∃ s', s.receive none r = .ok s' ∧ s'.Invariant := by
  obtain ⟨status, new, t, rfl, hkeep, ht⟩ := hr
  exact hs.receive ht hkeep (by simp)

lemma Invariant.forget (handle : OsHandle) {r : OsStatus × HandleTable} (ht : r.2.Issued)
    (hkeep : r.2.mHandles = (if r.1 = .success then
      s.table.mHandles.filter (·.handle ≠ handle) else s.table.mHandles)) :
    (s.forget handle r).Invariant := by
  rw [HandleSession.forget]
  split
  · rename_i hsuccess
    rw [if_pos hsuccess, hs.live, filter_map] at hkeep
    exact ⟨ht, hkeep, fun e he => hs.cloned e (mem_of_mem_filter he)⟩
  · rename_i hfailed
    rw [if_neg hfailed, hs.live] at hkeep
    exact ⟨ht, hkeep, hs.cloned⟩

lemma Invariant.step {call : HandleCall} (hcall : s.Bounded call) :
    ∃ s', s.step call = .ok s' ∧ s'.Invariant := by
  have ht := hs.issued
  cases call with
  | openObject object access memory => exact hs.keeps (ht.openObject object access memory hcall)
  | processCreate id prepare finish =>
    exact hs.keeps (ht.install ⟨.process, id⟩ _ prepare finish hcall)
  | threadCreate id prepare finish =>
    exact hs.keeps (ht.install ⟨.thread, id⟩ _ prepare finish hcall)
  | nodeCreate id prepare memory =>
    exact hs.keeps (ht.install ⟨.node, id⟩ _ prepare _ hcall)
  | nodeQuery node id prepare memory => exact hs.keeps (ht.nodeQuery node id prepare memory hcall)
  | deviceOpen id prepare memory =>
    exact hs.keeps (ht.install ⟨.device, id⟩ _ prepare _ hcall)
  | txCreate id prepare memory =>
    exact hs.keeps (ht.install ⟨.tx, id⟩ _ prepare _ hcall)
  | handleClone source access memory =>
    obtain ⟨status, new, t, hclone, hkeep, ht', haccess⟩ :=
      ht.handleClone source access memory hcall
    rw [HandleSession.step, hclone]
    refine hs.receive ht' hkeep ?_
    intro h hmem a ha
    obtain ⟨from', hget, hsub⟩ := haccess h hmem
    rw [hget] at ha
    obtain rfl : from'.access = a := by simpa using ha
    exact hsub
  | findHandle handle type => exact ⟨s, rfl, hs⟩
  | handleClose handle =>
    obtain ⟨hissued, hkeep⟩ := ht.removeHandle handle
    exact ⟨_, rfl, hs.forget handle hissued hkeep⟩
  | nodeClose handle =>
    obtain ⟨hissued, hkeep⟩ := ht.closeTyped .node handle
    exact ⟨_, rfl, hs.forget handle hissued hkeep⟩
  | deviceClose handle =>
    obtain ⟨hissued, hkeep⟩ := ht.closeTyped .device handle
    exact ⟨_, rfl, hs.forget handle hissued hkeep⟩

lemma Invariant.identity : s.Identity := by
  have hmem : ∀ e ∈ s.live, e.handle ∈ s.table.mHandles := by
    intro e he
    rw [hs.live]
    exact mem_map_of_mem he
  refine ⟨?_, ?_, ?_, hs.cloned⟩
  · have hdistinct := hs.issued.distinct
    rw [hs.live, map_map] at hdistinct
    exact hdistinct
  · intro e he type
    exact hs.issued.sysFindHandle (hmem e he) type
  · intro e he
    exact hs.issued.osHandleType (hmem e he)

end

/-- Handles keep their identity, and no call faults, in every run in which the allocators stay
below the byte of the type. -/
theorem identity_of_bounded {calls : List HandleCall} (hrun : Run BoundedSteps start calls s) :
    s.Identity ∧ ∀ call, s.Bounded call → ∃ s', s.step call = .ok s' := by
  have hinv : s.Invariant := by
    refine hrun.invariant ?_ Invariant.start
    rintro s call s' hs ⟨hcall, hstep⟩
    obtain ⟨s'', hstep', hs''⟩ := hs.step hcall
    obtain rfl : s'' = s' := Except.ok.inj (hstep'.symm.trans hstep)
    exact hs''
  refine ⟨hinv.identity, fun call hcall => ?_⟩
  obtain ⟨s', hstep, -⟩ := hinv.step hcall
  exact ⟨s', hstep⟩

instance (s : HandleSession) : DecidablePred s.Bounded := by
  intro call
  cases call <;> dsimp only [Bounded] <;> infer_instance

/-- A node is opened, cloned for reading and closed again. -/
theorem identity_of_clone_and_close : ∃ s, s.Identity ∧
    s.live = [⟨⟨⟨.node, 3⟩, osHandleNew .node 2, eOsAccessRead⟩, some (accessAll .node)⟩] ∧
    Run BoundedSteps start [.nodeCreate 3 .success true,
      .handleClone (osHandleNew .node 1) eOsAccessRead true, .nodeClose (osHandleNew .node 1)] s := by
  have hlive : (runGuarded Bounded step start [.nodeCreate 3 .success true,
      .handleClone (osHandleNew .node 1) eOsAccessRead true,
      .nodeClose (osHandleNew .node 1)]).map live =
        some [⟨⟨⟨.node, 3⟩, osHandleNew .node 2, eOsAccessRead⟩, some (accessAll .node)⟩] := by
    decide +kernel
  obtain ⟨s, hs, hlive⟩ := Option.map_eq_some_iff.1 hlive
  have hrun : Run BoundedSteps start _ s := Run.of_runGuarded hs
  exact ⟨s, (identity_of_bounded hrun).1, hlive, hrun⟩

/-! ## When an allocator overflows -/

/-- Nothing is open, and the next device identifier is `id`. -/
def devices (id : OsHandle) : HandleSession :=
  ⟨⟨update (fun _ => osHandleInvalid + 1) .device id, []⟩, []⟩

/-- One device is open, with the identifier `id`. -/
def opened (id : OsHandle) (device : Nat) : HandleSession :=
  let h : IHandle := ⟨⟨.device, device⟩, osHandleNew .device id, accessAll .device⟩
  ⟨⟨(devices (id + 1)).table.mIdAllocators, [h]⟩, [⟨h, none⟩]⟩

lemma deviceOpen_devices (id : OsHandle) (device : Nat) :
    (devices id).step (.deviceOpen device .success true) = .ok (opened id device) := by
  have hid : (devices id).table.mIdAllocators .device = id := by simp [devices]
  have hnext : update (devices id).table.mIdAllocators .device (id + 1) =
      (devices (id + 1)).table.mIdAllocators := by simp [devices]
  rw [step, HandleTable.deviceOpen, HandleTable.install, if_neg (by decide)]
  simp only [HandleTable.newHandleId, newStatus, hid, hnext]
  exact congrArg (receive _ none) rfl

lemma handleClose_opened (id : OsHandle) (device : Nat) :
    (opened id device).step (.handleClose (osHandleNew .device id)) = .ok (devices (id + 1)) := by
  simp [step, HandleTable.handleClose, HandleTable.removeHandle, HandleTable.getHandle, forget,
    opened, devices]

lemma run_devices (n : Nat) : ∃ calls, Run Steps start calls (devices (BitVec.ofNat 64 (n + 1))) := by
  induction n with
  | zero =>
    have hstart : start = devices (BitVec.ofNat 64 (0 + 1)) := by
      rw [start, devices, empty]
      congr 2
      exact (update_eq_self _ _).symm
    exact ⟨[], hstart ▸ .nil start⟩
  | succ n ih =>
    obtain ⟨calls, hrun⟩ := ih
    have hopen := deviceOpen_devices (BitVec.ofNat 64 (n + 1)) 0
    have hclose := handleClose_opened (BitVec.ofNat 64 (n + 1)) 0
    rw [show BitVec.ofNat 64 (n + 1) + 1 = BitVec.ofNat 64 (n + 1 + 1) from
      (ofNat_add ..).symm] at hclose
    exact ⟨_, hrun.append (.cons hopen (.cons hclose (.nil _)))⟩

/-- The device opened after `2 ^ 56 - 1` others has the handle of a mutex. -/
theorem not_identity_of_overflow :
    ¬∀ (calls : List HandleCall) (s : HandleSession), Run Steps start calls s → s.Identity := by
  intro hall
  obtain ⟨calls, hrun⟩ := run_devices (2 ^ 56 - 1)
  have hopen := deviceOpen_devices (BitVec.ofNat 64 (2 ^ 56 - 1 + 1)) 0
  have hidentity := hall _ _ (hrun.append (.single hopen))
  have hencoded := hidentity.encoded _ (mem_singleton_self _)
  exact absurd hencoded (by decide +kernel)

end HandleSession
end BezOS
