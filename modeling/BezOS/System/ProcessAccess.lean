import BezOS.System.HandleIdentity
import BezOS.System.VmemCalls

/-!
# Access to processes

A process handle carries an access mask, but the sanitizers and `SysProcessCreate` resolve it
without looking at the mask: nothing on these paths ever answers that access is denied. A call on a
process named by a handle is therefore guarded exactly when the handle happens to carry the bit.
-/

namespace BezOS

open Lib

/-! ## Statuses -/

namespace HeapView

lemma split_ne_accessDenied {h h' : HeapView} {ptr : AnyRange} {midpoint : Nat} {status : OsStatus}
    (hsplit : h.split ptr midpoint = (.error status, h')) : status ≠ .accessDenied := by
  rw [split] at hsplit
  split at hsplit
  · cases hsplit
    decide
  · split at hsplit
    · cases hsplit
      decide
    · split at hsplit
      · cases hsplit
        decide
      · cases hsplit

lemma splitv_ne_accessDenied {h h' : HeapView} {ptr : AnyRange} {points : List Nat} {results : Nat}
    {status : OsStatus} (hsplit : h.splitv ptr points results = (.error status, h')) :
    status ≠ .accessDenied := by
  rw [splitv] at hsplit
  repeat' split at hsplit
  all_goals
    cases hsplit
    try decide

end HeapView

namespace AddressSpaceManager

variable {m m' : AddressSpaceManager} {status : OsStatus} {range : AnyRange} {it : Nat}

lemma splitSegment_ne_accessDenied {midpoint : Nat} {side : ReleaseSide}
    (hsplit : m.splitSegment it midpoint side = .ok (status, m')) : status ≠ .accessDenied := by
  rw [splitSegment] at hsplit
  split at hsplit
  · cases hsplit
  · split at hsplit
    · rename_i hheap
      cases hsplit
      exact HeapView.split_ne_accessDenied hheap
    · split at hsplit
      all_goals
        obtain ⟨m1, -, hsplit⟩ := bind_eq_ok.1 hsplit
        cases hsplit
        decide

lemma unmapInner_ne_accessDenied {s : AddressSegment}
    (hunmap : m.unmapInner it s range = .ok (status, m')) : status ≠ .accessDenied := by
  rw [unmapInner] at hunmap
  split at hunmap
  · cases hunmap
  · split at hunmap
    · rename_i hheap
      cases hunmap
      exact HeapView.splitv_ne_accessDenied hheap
    · obtain ⟨m1, -, hunmap⟩ := bind_eq_ok.1 hunmap
      obtain ⟨m2, -, hunmap⟩ := bind_eq_ok.1 hunmap
      cases hunmap
      decide
    · cases hunmap

lemma unmapOne_ne_accessDenied (hunmap : m.unmapOne it range = .ok (status, m')) :
    status ≠ .accessDenied := by
  rw [unmapOne] at hunmap
  split at hunmap
  · cases hunmap
  · dsimp only at hunmap
    split at hunmap
    · obtain ⟨m1, -, hunmap⟩ := bind_eq_ok.1 hunmap
      cases hunmap
      decide
    · split at hunmap
      · exact splitSegment_ne_accessDenied hunmap
      · split at hunmap
        · exact splitSegment_ne_accessDenied hunmap
        · split at hunmap
          · exact unmapInner_ne_accessDenied hunmap
          · split at hunmap
            · exact splitSegment_ne_accessDenied hunmap
            · split at hunmap
              · exact splitSegment_ne_accessDenied hunmap
              · cases hunmap

lemma unmapBetween_ne_accessDenied {lhs rhs : AnyRange}
    (hunmap : m.unmapBetween lhs rhs = .ok (status, m')) : status ≠ .accessDenied := by
  obtain ⟨m1, -, hunmap⟩ := bind_eq_ok.1 hunmap
  obtain ⟨m2, -, hunmap⟩ := bind_eq_ok.1 hunmap
  obtain ⟨m3, -, hunmap⟩ := bind_eq_ok.1 hunmap
  cases hunmap
  decide

lemma unmapMany_ne_accessDenied {begin : Nat} {lhs rhs : AnyRange}
    (hunmap : m.unmapMany begin lhs rhs range = .ok (status, m')) : status ≠ .accessDenied := by
  rw [unmapMany] at hunmap
  split at hunmap
  · exact unmapBetween_ne_accessDenied hunmap
  · split at hunmap
    · exact unmapBetween_ne_accessDenied hunmap
    · split at hunmap
      · exact unmapBetween_ne_accessDenied hunmap
      · split at hunmap
        · obtain ⟨x1, -, hunmap⟩ := bind_eq_ok.1 hunmap
          obtain ⟨x2, -, hunmap⟩ := bind_eq_ok.1 hunmap
          obtain ⟨x3, -, hunmap⟩ := bind_eq_ok.1 hunmap
          cases hunmap
          decide
        · split at hunmap
          · obtain ⟨x1, -, hunmap⟩ := bind_eq_ok.1 hunmap
            obtain ⟨x2, -, hunmap⟩ := bind_eq_ok.1 hunmap
            obtain ⟨x3, -, hunmap⟩ := bind_eq_ok.1 hunmap
            cases hunmap
            decide
          · cases hunmap

lemma unmapSegment_ne_accessDenied {remaining remaining' : AnyRange}
    (hunmap : m.unmapSegment it range remaining = .ok (status, remaining', m')) :
    status ≠ .accessDenied := by
  rw [unmapSegment] at hunmap
  split at hunmap
  · cases hunmap
  · dsimp only at hunmap
    split at hunmap
    · cases hunmap
      decide
    · split at hunmap
      · obtain ⟨m1, -, hunmap⟩ := bind_eq_ok.1 hunmap
        obtain ⟨m2, -, hunmap⟩ := bind_eq_ok.1 hunmap
        cases hunmap
        decide
      · split at hunmap
        · split at hunmap
          · cases hunmap
          · cases hunmap
            decide
          · rename_i hsplit
            cases hunmap
            exact splitSegment_ne_accessDenied hsplit
        · split at hunmap
          · cases hunmap
          · split at hunmap
            · cases hunmap
            · rename_i hsplit
              cases hunmap
              exact splitSegment_ne_accessDenied hsplit

lemma unmapLoop_ne_accessDenied {fuel end' : Nat} {remaining : AnyRange}
    (hunmap : unmapLoop range fuel m remaining it end' = .ok (status, m')) :
    status ≠ .accessDenied := by
  induction fuel generalizing m remaining it end' with
  | zero => cases hunmap
  | succ fuel ih =>
    rw [unmapLoop] at hunmap
    split at hunmap
    · cases hunmap
      decide
    · split at hunmap
      · cases hunmap
      · cases hunmap
        decide
      · exact ih hunmap
      · rename_i hsegment
        cases hunmap
        exact unmapSegment_ne_accessDenied hsegment

lemma unmap_ne_accessDenied (hunmap : m.unmap range = .ok (status, m')) : status ≠ .accessDenied := by
  rw [unmap] at hunmap
  split at hunmap
  · cases hunmap
  · split at hunmap
    · cases hunmap
    · rename_i hbody
      split at hunmap
      · cases hunmap
        rw [unmapBody] at hbody
        dsimp only at hbody
        split at hbody
        · cases hbody
          decide
        · split at hbody
          · exact unmapOne_ne_accessDenied hbody
          · split at hbody
            · exact unmapMany_ne_accessDenied hbody
            · exact unmapLoop_ne_accessDenied hbody
      · cases hunmap

variable {address : Option Nat} {memory : AnyRange} {a : SpaceAnswers}

lemma mapAllocation_ne_accessDenied (m : AddressSpaceManager) (memory allocation : AnyRange)
    (tables : ServiceStatus) : (m.mapAllocation memory allocation tables).1 ≠ .accessDenied := by
  rw [mapAllocation]
  split
  · exact tables.ne_accessDenied
  · dsimp only
    decide

lemma allocateVirtual_ne_accessDenied {base size : Nat} {addressIsHint : Bool}
    (hmap : m.allocateVirtual memory base size addressIsHint a = .ok (status, address, m')) :
    status ≠ .accessDenied := by
  have hallocation : ∀ allocation, m.mapAllocation memory allocation a.tables =
      (status, address, m') → status ≠ .accessDenied := by
    intro allocation heq
    have hne := mapAllocation_ne_accessDenied m memory allocation a.tables
    rwa [heq] at hne
  rw [allocateVirtual] at hmap
  split at hmap
  · split at hmap
    · cases hmap
    · split at hmap
      · cases hmap
        decide
      · exact hallocation _ (Except.ok.inj hmap)
  · split at hmap
    · split at hmap
      · cases hmap
        exact a.reserve.ne_accessDenied
      · exact hallocation _ (Except.ok.inj hmap)
    · split at hmap
      · cases hmap
        decide
      · exact hallocation _ (Except.ok.inj hmap)

lemma mapMemory_ne_accessDenied (hmap : m.mapMemory memory a = .ok (status, address, m')) :
    status ≠ .accessDenied := by
  rw [mapMemory] at hmap
  split at hmap
  · cases hmap
    decide
  · rename_i allocation hsome
    split at hmap
    · obtain ⟨m1, -, hmap⟩ := bind_eq_ok.1 hmap
      cases hmap
      exact a.tables.ne_accessDenied
    · have hne := mapAllocation_ne_accessDenied m memory allocation a.tables
      rwa [Except.ok.inj hmap] at hne

lemma mapAt_ne_accessDenied {base : Nat} (hmap : m.mapAt base memory a = .ok (status, address, m')) :
    status ≠ .accessDenied := by
  obtain ⟨⟨status1, m1⟩, hunmap, hmap⟩ := bind_eq_ok.1 hmap
  dsimp only at hmap
  split at hmap
  · cases hmap
    exact unmap_ne_accessDenied hunmap
  · split at hmap
    · cases hmap
      exact a.reserve.ne_accessDenied
    · split at hmap
      · cases hmap
      · cases hmap
        decide

lemma mapRemote_ne_accessDenied {other : AddressSpaceManager}
    (hmap : m.mapRemote other range a = .ok (status, address, m')) : status ≠ .accessDenied := by
  rw [mapRemote] at hmap
  dsimp only at hmap
  split at hmap
  · cases hmap
    decide
  · split at hmap
    · cases hmap
      decide
    · split at hmap
      · cases hmap
      · split at hmap
        · cases hmap
        · split at hmap
          · cases hmap
          · split at hmap
            · cases hmap
            · split at hmap
              · cases hmap
              · cases hmap
                decide

end AddressSpaceManager

/-! ## Sanitizing -/

section Sanitize

variable {t : HandleTable} {self : ProcessId} {status : OsStatus} {handle : OsHandle}
  {isFile : Nat → Bool}

lemma sysFindHandle_ne_accessDenied {type : OsHandleType}
    (hfind : t.sysFindHandle handle type = .error status) : status ≠ .accessDenied := by
  rcases HandleTable.sysFindHandle_cases t handle type with heq | ⟨h, heq, -⟩
  · rw [heq] at hfind
    cases hfind
    decide
  · rw [heq] at hfind
    cases hfind

lemma resolveProcess_ne_accessDenied (hresolve : resolveProcess t self handle = .error status) :
    status ≠ .accessDenied := by
  rw [resolveProcess] at hresolve
  split at hresolve
  · cases hresolve
  · split at hresolve
    · rename_i hfind
      cases hresolve
      exact sysFindHandle_ne_accessDenied hfind
    · cases hresolve

lemma resolveSource_ne_accessDenied {source : OsHandle}
    (hresolve : resolveSource t source isFile = .error status) : status ≠ .accessDenied := by
  rw [resolveSource] at hresolve
  split at hresolve
  · cases hresolve
    decide
  · split at hresolve
    · split at hresolve
      · rename_i hfind
        cases hresolve
        exact sysFindHandle_ne_accessDenied hfind
      · cases hresolve
    · split at hresolve
      · split at hresolve
        · rename_i hfind
          cases hresolve
          exact sysFindHandle_ne_accessDenied hfind
        · split at hresolve
          · cases hresolve
          · cases hresolve
            decide
      · cases hresolve
        decide

lemma sanitizeVmemCreate_ne_accessDenied {info : OsVmemCreateInfo}
    (hsan : sanitizeVmemCreate t self info = .error status) : status ≠ .accessDenied := by
  rw [sanitizeVmemCreate] at hsan
  dsimp only at hsan
  repeat' split at hsan
  all_goals first
    | exact resolveProcess_ne_accessDenied (by rename_i hresolve; cases hsan; exact hresolve)
    | cases hsan; try decide

lemma sanitizeVmemMap_ne_accessDenied {info : OsVmemMapInfo}
    (hsan : sanitizeVmemMap t self isFile info = .error status) : status ≠ .accessDenied := by
  rw [sanitizeVmemMap] at hsan
  repeat' split at hsan
  all_goals first
    | exact resolveProcess_ne_accessDenied (by rename_i hresolve; cases hsan; exact hresolve)
    | exact resolveSource_ne_accessDenied (by rename_i hresolve; cases hsan; exact hresolve)
    | cases hsan; try decide

end Sanitize

/-! ## Operations -/

namespace Process

variable {p p' : Process} {status : OsStatus} {address : Option Nat} {a : VmemAnswers}

lemma withSpace_eq_ok {r : AddressSpaceManager.MapResult}
    (hspace : p.withSpace r = .ok (status, address, p')) :
    ∃ space, r = .ok (status, address, space) := by
  rw [withSpace, map_eq_ok] at hspace
  obtain ⟨⟨status1, address1, space⟩, rfl, heq⟩ := hspace
  cases heq
  exact ⟨space, rfl⟩

lemma releaseAsserted_eq_ok {result result' : OsStatus × Option Nat × Process}
    (hrelease : releaseAsserted a result = .ok result') : result' = result := by
  rw [releaseAsserted] at hrelease
  split at hrelease
  · cases hrelease
    rfl
  · cases hrelease

lemma vmemCreate_ne_accessDenied {info : VmemCreateInfo}
    (hcreate : p.vmemCreate info a = .ok (status, address, p')) : status ≠ .accessDenied := by
  rw [vmemCreate] at hcreate
  split at hcreate
  · cases hcreate
    decide
  · split at hcreate
    · cases hcreate
      decide
    · obtain ⟨⟨status1, address1, p1⟩, hspace, hcreate⟩ := bind_eq_ok.1 hcreate
      obtain ⟨space, hmap⟩ := withSpace_eq_ok hspace
      dsimp only at hcreate
      split at hcreate
      · cases releaseAsserted_eq_ok hcreate
        exact AddressSpaceManager.allocateVirtual_ne_accessDenied hmap
      · split at hcreate
        · cases hcreate
        · cases hcreate
          decide

lemma mapFileToMemory_ne_accessDenied (hfile : mapFileToMemory a = .ok (.error status)) :
    status ≠ .accessDenied := by
  rw [mapFileToMemory] at hfile
  split at hfile
  · cases hfile
    decide
  · split at hfile
    · split at hfile
      · cases hfile
        exact a.kernel.ne_accessDenied
      · cases hfile
    · split at hfile
      · split at hfile
        · cases hfile
          exact a.read.ne_accessDenied
        · cases hfile
      · split at hfile
        · cases hfile
        · cases hfile

lemma vmemMapFile_ne_accessDenied {info : VmemMapInfo}
    (hfile : p.vmemMapFile info a = .ok (status, address, p')) : status ≠ .accessDenied := by
  obtain ⟨memory, hmemory, hfile⟩ := bind_eq_ok.1 hfile
  cases memory with
  | error status1 =>
    cases hfile
    exact mapFileToMemory_ne_accessDenied hmemory
  | ok memory =>
    obtain ⟨⟨status1, address1, p1⟩, hspace, hfile⟩ := bind_eq_ok.1 hfile
    obtain ⟨space, hmap⟩ := withSpace_eq_ok hspace
    dsimp only at hfile
    split at hfile
    · cases releaseAsserted_eq_ok hfile
      split at hmap
      · exact AddressSpaceManager.mapMemory_ne_accessDenied hmap
      · exact AddressSpaceManager.mapAt_ne_accessDenied hmap
    · cases hfile
      decide

lemma vmemMapProcess_ne_accessDenied {info : VmemMapInfo} {source : Process}
    (hmap : p.vmemMapProcess info source a = .ok (status, address, p')) :
    status ≠ .accessDenied := by
  obtain ⟨space, hmap⟩ := withSpace_eq_ok hmap
  exact AddressSpaceManager.mapRemote_ne_accessDenied hmap

end Process

inductive ProcessCall
  | vmemCreate (info : OsVmemCreateInfo) (a : VmemAnswers)
  | vmemMap (info : OsVmemMapInfo) (a : VmemAnswers)
  | processCreate (info : OsProcessCreateInfo) (child : ProcessId) (image : Process)
      (inner : Except Fault ServiceStatus)

namespace ProcessCall

def handle : ProcessCall → OsHandle
  | vmemCreate info _ => info.Process
  | vmemMap info _ => info.Process
  | processCreate info _ _ _ => info.Parent

def access : ProcessCall → OsHandleAccess
  | vmemCreate _ _ => eOsProcessAccessVmControl
  | vmemMap _ _ => eOsProcessAccessVmControl
  | processCreate _ _ _ _ => eOsProcessAccessProcessControl

end ProcessCall

namespace System

variable {s s' : System} {context : InvokeContext} {call : ProcessCall} {status : OsStatus}

def run (s : System) (context : InvokeContext) : ProcessCall → Except Fault (OsStatus × System)
  | .vmemCreate info a => s.sysVmemCreate context info a
  | .vmemMap info a => s.sysVmemMap context info a
  | .processCreate info child image inner => s.sysProcessCreate context info child image inner

/-- The process handle of the caller that the call names, if it names one. -/
def namedHandle (s : System) (context : InvokeContext) (call : ProcessCall) : Option IHandle :=
  ((s.process context.process).handles.sysFindHandle call.handle .process).toOption

/-- The call succeeds only when the handle it names carries the access, and is otherwise denied
with the process that the handle names unchanged. -/
def Guarded (s : System) (context : InvokeContext) (call : ProcessCall) : Prop :=
  ∀ h ∈ s.namedHandle context call,
    (∀ s', s.run context call = .ok (.success, s') → h.hasAccess call.access) ∧
    (¬ h.hasAccess call.access → ∃ s', s.run context call = .ok (.accessDenied, s') ∧
      s'.process h.object.id = s.process h.object.id)

lemma commit_eq_ok {id : ProcessId} {r : VmemResult} (hcommit : s.commit id r = .ok (status, s')) :
    ∃ address p, r = .ok (status, address, p) := by
  rw [commit, map_eq_ok] at hcommit
  obtain ⟨⟨status1, address, p⟩, rfl, heq⟩ := hcommit
  cases heq
  exact ⟨address, p, rfl⟩

lemma sysVmemCreate_ne_accessDenied {info : OsVmemCreateInfo} {a : VmemAnswers}
    (hcall : s.sysVmemCreate context info a = .ok (status, s')) : status ≠ .accessDenied := by
  rw [sysVmemCreate] at hcall
  split at hcall
  · rename_i hsan
    cases hcall
    exact sanitizeVmemCreate_ne_accessDenied hsan
  · obtain ⟨address, p, hcreate⟩ := commit_eq_ok hcall
    exact Process.vmemCreate_ne_accessDenied hcreate

lemma sysVmemMap_ne_accessDenied {info : OsVmemMapInfo} {a : VmemAnswers}
    (hcall : s.sysVmemMap context info a = .ok (status, s')) : status ≠ .accessDenied := by
  rw [sysVmemMap] at hcall
  split at hcall
  · rename_i hsan
    cases hcall
    exact sanitizeVmemMap_ne_accessDenied hsan
  · split at hcall
    · split at hcall
      · cases hcall
      · obtain ⟨address, p, hmap⟩ := commit_eq_ok hcall
        exact Process.vmemMapProcess_ne_accessDenied hmap
    · obtain ⟨address, p, hmap⟩ := commit_eq_ok hcall
      exact Process.vmemMapFile_ne_accessDenied hmap
    · cases hcall

lemma sysProcessCreate_ne_accessDenied {info : OsProcessCreateInfo} {child : ProcessId} {image : Process}
    {inner : Except Fault ServiceStatus}
    (hcall : s.sysProcessCreate context info child image inner = .ok (status, s')) :
    status ≠ .accessDenied := by
  rw [sysProcessCreate] at hcall
  split at hcall
  · rename_i hresolve
    cases hcall
    exact resolveProcess_ne_accessDenied hresolve
  · split at hcall
    · rename_i htx
      cases hcall
      split at htx
      · cases htx
      · cases hfind : (s.process context.process).handles.sysFindHandle context.tx .tx with
        | error status1 =>
          rw [hfind] at htx
          cases htx
          exact sysFindHandle_ne_accessDenied hfind
        | ok h =>
          rw [hfind] at htx
          cases htx
    · obtain ⟨inner, -, hcall⟩ := bind_eq_ok.1 hcall
      split at hcall
      · cases hcall
        exact inner.ne_accessDenied
      · obtain ⟨handles, -, hcall⟩ := bind_eq_ok.1 hcall
        cases hcall
        decide

lemma run_ne_accessDenied (hcall : s.run context call = .ok (status, s')) : status ≠ .accessDenied := by
  cases call with
  | vmemCreate info a => exact sysVmemCreate_ne_accessDenied hcall
  | vmemMap info a => exact sysVmemMap_ne_accessDenied hcall
  | processCreate info child image inner => exact sysProcessCreate_ne_accessDenied hcall

/-- A call is guarded exactly when the handle it names, if it names one, carries the access. -/
theorem guarded_iff (s : System) (context : InvokeContext) (call : ProcessCall) :
    s.Guarded context call ↔
      ∀ h ∈ s.namedHandle context call, h.hasAccess call.access := by
  constructor
  · intro hguarded h hnamed
    by_contra hlacks
    obtain ⟨s', hdenied, -⟩ := (hguarded h hnamed).2 hlacks
    exact run_ne_accessDenied hdenied rfl
  · intro hcarries h hnamed
    exact ⟨fun _ _ => hcarries h hnamed, fun hlacks => absurd (hcarries h hnamed) hlacks⟩

/-- Process 0 has a handle to process 1 that may only be asked for its statistics. -/
def observer : System where
  process := fun id =>
    { handles := ⟨fun _ => 2, if id = 0 then
        [⟨⟨.process, 1⟩, osHandleNew .process 1, eOsAccessStat⟩] else []⟩
      mChildren := []
      mAddressSpace := ⟨[], ⟨[], []⟩, [], []⟩ }
  isFile := fun _ => false

def createPage : ProcessCall :=
  .vmemCreate ⟨0, 4096, 0, eOsMemoryRead ||| eOsMemoryCommit, osHandleNew .process 1⟩
    { memory := some ⟨0x10000, 0x11000⟩
      released := true
      space := ⟨some ⟨0x20000, 0x21000⟩, .success, .success, true⟩
      kernel := .success
      read := .success
      complete := true }

/-- The handle is enough to put memory into process 1. -/
theorem not_guarded_of_stat_handle :
    ¬ observer.Guarded ⟨0, osHandleInvalid⟩ createPage ∧
      (observer.run ⟨0, osHandleInvalid⟩ createPage).toOption.map
        (fun r => (r.1, (r.2.process 1).mAddressSpace.table)) =
          some (.success, [⟨⟨0x10000, 0x11000⟩, ⟨0x20000, 0x21000⟩⟩]) := by
  refine ⟨?_, by decide +kernel⟩
  intro hguarded
  have hnamed : observer.namedHandle ⟨0, osHandleInvalid⟩ createPage =
      some ⟨⟨.process, 1⟩, osHandleNew .process 1, eOsAccessStat⟩ := by decide +kernel
  obtain ⟨s', hdenied, -⟩ := (hguarded _ hnamed).2 (by decide +kernel)
  exact run_ne_accessDenied hdenied rfl

end System
end BezOS
