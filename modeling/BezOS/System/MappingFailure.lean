import BezOS.System.ReferenceCounts
import BezOS.System.UnmapExact

/-!
# Mappings that fail

The functions of `system/vmm.cpp` that map memory, with all they edit: the segment table and the
virtual heap of the address space, the translations of its page tables and the owner counts of the
physical memory. The heaps, the page tables and the insertion into the segment table answer
through the arguments of a call; a refused insertion has no node to write to.
-/

namespace BezOS

open Lib AddressSpaceManager List RangeTable MemoryManager

structure MappingState where
  space : AddressSpaceManager
  manager : MemoryManager
  translations : Nat → Option Nat

structure MappingAnswers where
  /-- `alignedAlloc` or `allocateWithHint` of the virtual heap. -/
  allocation : Option AnyRange
  /-- `reserve` of the virtual heap. -/
  reserve : OsStatus
  /-- `aligned_alloc` of the page heap. -/
  memory : Option AnyRange
  /-- `mPageTables.map`. -/
  tables : OsStatus
  /-- There is memory for the node of the segment table. -/
  inserted : Bool

namespace MappingState

abbrev Outcome := Except Fault (OsStatus × Option Nat × MappingState)

variable (s : MappingState) (a : MappingAnswers)

def take (allocation : AnyRange) : MappingState := { s with space := s.space.take allocation }

def free (allocation : AnyRange) : MappingState := { s with space := s.space.free allocation }

/-- `mPageTables.map`. -/
def mapTables (range : AnyRange) (paddr : Nat) : OsStatus × MappingState :=
  if a.tables ≠ .success then (a.tables, s)
  else
    let translations := fun vaddr =>
      if range.contains vaddr then some (paddr + (vaddr - range.front)) else s.translations vaddr
    (.success, { s with translations })

def addSegment (segment : AddressSegment) : Except Fault MappingState :=
  if a.inserted then .ok { s with space := s.space.addSegment segment } else .error .badAccess

/-- `manager->release` of which success is asserted. -/
def releaseAsserted (memory : AnyRange) : Except Fault MappingState :=
  match s.manager.release memory with
  | .ok (.success, manager) => .ok { s with manager }
  | .ok _ => .error .bugCheck
  | .error e => .error e

/-- `manager->retain` of which success is asserted. -/
def retainAsserted (memory : AnyRange) : Except Fault MappingState :=
  match s.manager.retain memory with
  | .ok (.success, manager) => .ok { s with manager }
  | .ok _ => .error .bugCheck
  | .error e => .error e

/-- `map(MemoryManager*, size_t, size_t, ...)`. -/
def mapNew (size : Nat) : Outcome :=
  match a.allocation with
  | none => .ok (.outOfMemory, none, s)
  | some allocation =>
      let s := s.take allocation
      let (status, manager) := s.manager.allocate a.memory
      let s := { s with manager }
      match a.memory with
      | none => .ok (status, none, s.free allocation)
      | some range =>
          match s.mapTables a ⟨allocation.front, allocation.front + size⟩ range.front with
          | (.success, s) => do
              let s ← s.addSegment a ⟨range, allocation⟩
              return (.success, some allocation.front, s)
          | (status, s) => do
              let s ← (s.free allocation).releaseAsserted range
              return (status, none, s)

/-- `map(MemoryManager*, MemoryRange, ...)`. -/
def mapMemory (range : AnyRange) : Outcome :=
  match a.allocation with
  | none => .ok (.outOfMemory, none, s)
  | some allocation =>
      let s := s.take allocation
      match s.mapTables a ⟨allocation.front, allocation.front + range.size⟩ range.front with
      | (.success, s) => do
          let s ← s.addSegment a ⟨range, allocation⟩
          return (.success, some allocation.front, s)
      | (status, s) => do
          let s ← (s.free allocation).releaseAsserted range
          return (status, none, s)

/-- One call `unmap` has made: a release is asserted to succeed. -/
def serve (s : MappingState) : ServiceCall → Except Fault MappingState
  | .release memory => s.releaseAsserted memory
  | .unmap range =>
      let translations := fun vaddr =>
        if range.contains vaddr then none else s.translations vaddr
      .ok { s with translations }

/-- `unmap`, with the effects of the calls it makes. -/
def unmap (range : AnyRange) : Except Fault (OsStatus × MappingState) := do
  let (status, space) ← s.space.unmap range
  let s ← (space.log.drop s.space.log.length).foldlM serve { s with space }
  return (status, s)

/-- `map(MemoryManager*, VirtualAddress, MemoryRange, ...)`. -/
def mapAt (address : Nat) (memory : AnyRange) : Outcome := do
  let range : AnyRange := ⟨address, wrapAdd (2 ^ 64) address memory.size⟩
  let (status, s) ← s.unmap range
  if status ≠ .success ∧ status ≠ .notFound then return (status, none, s)
  else if a.reserve ≠ .success then return (a.reserve, none, s)
  else
    match (s.take range).mapTables a range memory.front with
    | (.success, s) => do
        let s ← s.addSegment a ⟨memory, range⟩
        return (.success, some address, s)
    | (_, _) => .error .bugCheck

/-- The address of a null allocation is asserted not to be asked for. -/
def mapExternal (memory : AnyRange) : Outcome :=
  match a.allocation with
  | none => .error .bugCheck
  | some allocation =>
      match (s.take allocation).mapTables a ⟨allocation.front, allocation.front + memory.size⟩
          memory.front with
      | (.success, s) => do
          let s ← s.addSegment a ⟨⟨0, 0⟩, allocation⟩
          return (.success, some allocation.front, s)
      | (_, _) => .error .bugCheck

/-- The first half of `allocateVirtual`: the range the virtual heap answers with, or its status. -/
def allocateRange (address size : Nat) (addressIsHint : Bool) : Except OsStatus AnyRange :=
  if addressIsHint = false ∧ address ≠ 0 then
    if a.reserve ≠ .success then .error a.reserve
    else .ok ⟨address, wrapAdd (2 ^ 64) address size⟩
  else
    match a.allocation with
    | none => .error .outOfMemory
    | some allocation => .ok allocation

def allocateVirtual (memory : AnyRange) (address size : Nat) (addressIsHint : Bool) : Outcome :=
  if addressIsHint = true ∧ address = 0 then .error .bugCheck
  else
    match allocateRange a address size addressIsHint with
    | .error status => .ok (status, none, s)
    | .ok allocation =>
        match (s.take allocation).mapTables a ⟨allocation.front, allocation.front + size⟩
            memory.front with
        | (.success, s) => do
            let s ← s.addSegment a ⟨memory, allocation⟩
            return (.success, some allocation.front, s)
        | (status, s) => .ok (status, none, s.free allocation)

/-- The segment of the other address space that the range is found in, if there is only one. -/
def remoteSegment (other : AddressSpaceManager) (range : AnyRange) : Option AddressSegment :=
  let (begin, end') := find AddressSegment.range other.table range
  if begin = end' then other.table[begin]? else none

/-- `map(MemoryManager*, AddressSpaceManager*, ...)`. -/
def mapRemote (other : AddressSpaceManager) (range : AnyRange) : Outcome :=
  if (find AddressSegment.range other.table range).1 = other.table.length then
    .ok (.notFound, none, s)
  else
    match a.allocation with
    | none => .ok (.outOfMemory, none, s)
    | some allocation =>
        -- several segments, and the part of one that is not its high end, are not supported
        match (remoteSegment other range).bind fun segment =>
            remoteMemory segment range with
        | none => .error .bugCheck
        | some memory => do
            let s ← (s.take allocation).retainAsserted memory
            match s.mapTables a ⟨allocation.front, allocation.front + memory.size⟩ memory.front with
            | (.success, s) => do
                let s ← s.addSegment a ⟨memory, allocation⟩
                return (.success, some allocation.front, s)
            | (_, _) => .error .bugCheck

end MappingState

inductive MappingCall
  | mapNew (size : Nat)
  | mapMemory (range : AnyRange)
  | mapAt (address : Nat) (memory : AnyRange)
  | mapExternal (memory : AnyRange)
  | allocateVirtual (memory : AnyRange) (address size : Nat) (addressIsHint : Bool)
  | mapRemote (other : AddressSpaceManager) (range : AnyRange)

namespace MappingState

variable (s : MappingState) (a : MappingAnswers)

def run : MappingCall → Outcome
  | .mapNew size => s.mapNew a size
  | .mapMemory range => s.mapMemory a range
  | .mapAt address memory => s.mapAt a address memory
  | .mapExternal memory => s.mapExternal a memory
  | .allocateVirtual memory address size addressIsHint =>
      s.allocateVirtual a memory address size addressIsHint
  | .mapRemote other range => s.mapRemote a other range

def Refused : MappingCall → Prop
  | .mapNew _ =>
      a.allocation = none ∨ a.memory = none ∨ a.tables ≠ .success ∨ a.inserted = false
  | .mapMemory _ => a.allocation = none ∨ a.tables ≠ .success ∨ a.inserted = false
  | .mapAt _ _ => a.reserve ≠ .success ∨ a.tables ≠ .success ∨ a.inserted = false
  | .mapExternal _ => a.allocation = none ∨ a.tables ≠ .success ∨ a.inserted = false
  | .allocateVirtual _ address size addressIsHint =>
      (∃ status, allocateRange a address size addressIsHint = .error status) ∨
        a.tables ≠ .success ∨ a.inserted = false
  | .mapRemote other range =>
      a.allocation = none ∨ a.tables ≠ .success ∨ a.inserted = false ∨
        ∃ segment ∈ remoteSegment other range,
          ∃ memory ∈ remoteMemory segment range,
            ∀ manager, s.manager.retain memory ≠ .ok (.success, manager)

/-- The segments, the live ranges of the virtual heap, the translations and the owner counts are
as they were. -/
structure Unchanged (s s' : MappingState) : Prop where
  table : s'.space.table = s.space.table
  used : s'.space.heap.used = s.space.heap.used
  translations : s'.translations = s.translations
  owners : ∀ page, ownersAt s'.manager.table page =
    ownersAt s.manager.table page

/-- The call reports an error and changes nothing. -/
def FailsCleanly (outcome : Outcome) : Prop :=
  ∃ status s', outcome = .ok (status, none, s') ∧ status ≠ .success ∧ s.Unchanged s'

/-- What the callers and the page heap vouch for: ranges are not empty, and a new block of memory
shares no page with one in use. -/
def Proper : MappingCall → Prop
  | .mapNew _ => ∀ r ∈ a.memory, r.front < r.back ∧
      ∀ u ∈ s.manager.heap.used, ¬ AnyRange.Meets r u
  | .mapMemory range => range.front < range.back
  | .mapAt address memory => address < wrapAdd (2 ^ 64) address memory.size
  | .mapExternal _ => True
  | .allocateVirtual _ _ _ _ => True
  | .mapRemote _ _ => True

/-- The refusals that a call undoes. -/
def Undone : MappingCall → Prop
  | .mapNew _ => a.allocation = none ∨ a.memory = none ∨ a.tables ≠ .success
  | .mapMemory _ => a.allocation = none
  | .mapAt address memory =>
      s.space.touched ⟨address, wrapAdd (2 ^ 64) address memory.size⟩ = [] ∧ a.reserve ≠ .success
  | .mapExternal _ => False
  | .allocateVirtual _ address size addressIsHint =>
      ¬ (addressIsHint = true ∧ address = 0) ∧
        ((∃ status, allocateRange a address size addressIsHint = .error status) ∨
          a.tables ≠ .success)
  | .mapRemote other range =>
      (find AddressSegment.range other.table range).1 = other.table.length ∨
        a.allocation = none

variable {s : MappingState} {a : MappingAnswers} {s' : MappingState} {range memory r : AnyRange}
  {undo : OsStatus → MappingState → Outcome} {status : OsStatus} {done : MappingState → Outcome}
  {address paddr size : Nat} {addressIsHint : Bool}

/-! ## The owner counts -/

lemma release_allocated {m : MemoryManager} {others : List AnyRange}
    (hm : MemoryManager.Tracks others m) (hr : r.front < r.back)
    (hnew : ∀ u ∈ m.heap.used, ¬ AnyRange.Meets r u) :
    ∃ m', (m.allocate (some r)).2.release r = .ok (.success, m') ∧ m'.table = m.table := by
  obtain ⟨htracks, pre, post, ht, ht'⟩ := allocate_tracks hm hr hnew
  generalize (m.allocate (some r)).2 = m1 at htracks ht'
  have hwf := ht' ▸ htracks.wf
  obtain ⟨-, hcons, hpre⟩ := wellFormed_append.1 hwf
  obtain ⟨-, -, hpost⟩ := wellFormed_cons.1 hcons
  have haround : RangeTable.Around MemorySegment.range m1.table r pre [⟨1, r⟩] post :=
    ⟨ht', fun u hu => hpre u hu ⟨1, r⟩ (by simp), by simpa using hr, hpost⟩
  have hrelease : m1.release r =
      .ok (.success, ⟨pre ++ ([] ++ post), freedOne m1.heap ⟨1, r⟩⟩) := by
    rw [release_one htracks.wf hr haround]
    simp [releaseOne, get_eq ht', releaseEntry_eq ht',
      releasedOne]
  exact ⟨_, hrelease, ht.symm⟩

lemma ownersAt_ne_of_release {m m' : MemoryManager}
    (hwf : RangeTable.WellFormed MemorySegment.range m.table) (hr : r.front < r.back)
    (h : m.release r = .ok (.success, m')) :
    ∃ page, ownersAt m'.table page ≠ ownersAt m.table page := by
  obtain ⟨pre, mid, post, haround⟩ := hwf.exists_around r
  have hmid : mid ≠ [] := by
    rintro rfl
    rw [release_none hwf hr haround] at h
    cases h
  obtain ⟨hgranted, hrefused⟩ := release_iff hwf hr haround hmid
  have hsafe : m.splits r ≤ granted m.heap ∧ m.loopShape r := by
    by_contra hno
    exact hrefused hno m' h
  obtain ⟨heap, hres⟩ := hgranted hsafe
  obtain ⟨-, rfl⟩ := eq_of_ok_eq (h.symm.trans hres)
  obtain ⟨x, mid, rfl⟩ := exists_cons_of_ne_nil hmid
  have htouched : x ∈ m.touched r := by
    rw [MemoryManager.touched_eq haround]
    exact mem_cons_self
  obtain ⟨page, hpage, hx⟩ := exists_shared hwf hr htouched
  refine ⟨page, ?_⟩
  have hcount := ownersAt_of_mem hwf (mem_touched.1 htouched).1 hx
  rw [ownersAt_released hwf haround, updateAt_eq, if_pos hpage, hcount,
    Option.bind_some]
  split
  · simp
  · simp only [ne_eq, Option.some.injEq]
    omega

/-! ## Refused calls -/

lemma unchanged_take_free (allocation : AnyRange) (manager : MemoryManager)
    (howners : ∀ page, ownersAt manager.table page =
      ownersAt s.manager.table page) :
    s.Unchanged { (s.take allocation).free allocation with manager } :=
  ⟨rfl, erase_cons_head .., rfl, howners⟩

@[simp] lemma not_failsCleanly_error {e : Fault} : ¬ s.FailsCleanly (.error e) := by
  rintro ⟨status, s', h, -⟩
  cases h

lemma mapTables_refused (htables : a.tables ≠ .success) :
    (match s.mapTables a r paddr with
      | (.success, s) => done s
      | (status, s) => undo status s) = undo a.tables s := by
  rw [mapTables, if_pos htables]
  split
  · next heq => exact absurd (congrArg Prod.fst heq) htables
  · next heq =>
    obtain ⟨rfl, rfl⟩ := Prod.mk.inj heq
    rfl

lemma not_failsCleanly_insert {t : MappingState} (htables : a.tables = .success)
    (hinserted : a.inserted = false) {segment : AddressSegment} :
    ¬ s.FailsCleanly (match t.mapTables a r paddr with
      | (.success, s) => do
          let s ← s.addSegment a segment
          return (.success, some address, s)
      | (status, s) => undo status s) := by
  rw [mapTables, if_neg (not_not.2 htables)]
  simp only [addSegment, hinserted, Bool.false_eq_true, if_false]
  exact not_failsCleanly_error

lemma failsCleanly_of_eq {outcome : Outcome} {s' : MappingState}
    (h : outcome = .ok (status, none, s')) (hstatus : status ≠ .success) (hsame : s.Unchanged s') :
    s.FailsCleanly outcome := ⟨status, s', h, hstatus, hsame⟩

lemma Unchanged.refl (s : MappingState) : s.Unchanged s := ⟨rfl, rfl, rfl, fun _ => rfl⟩

lemma not_failsCleanly_stop {t : MappingState} (htables : a.tables ≠ .success) :
    ¬ s.FailsCleanly (match t.mapTables a r paddr with
      | (.success, s) => done s
      | (_, _) => .error .bugCheck) := by
  rw [mapTables, if_pos htables]
  split
  · next heq => exact absurd (congrArg Prod.fst heq) htables
  · exact not_failsCleanly_error

lemma mapNew_failsCleanly_iff (hmanager : s.manager.Reachable) (hproper : s.Proper a (.mapNew size))
    (hrefused : s.Refused a (.mapNew size)) :
    s.FailsCleanly (s.mapNew a size) ↔ s.Undone a (.mapNew size) := by
  obtain ⟨others, hm⟩ := hmanager.tracks
  unfold mapNew
  cases hallocation : a.allocation with
  | none =>
    simp only [Undone, hallocation, true_or, iff_true]
    exact failsCleanly_of_eq rfl (by decide) (.refl s)
  | some allocation =>
    cases hmemory : a.memory with
    | none =>
      simp only [Undone, hmemory, true_or, or_true, iff_true]
      have hstatus : OsStatus.outOfMemory ≠ .success := by decide
      exact failsCleanly_of_eq rfl hstatus
        (unchanged_take_free allocation s.manager fun _ => rfl)
    | some r =>
      obtain ⟨hr, hnew⟩ := hproper r hmemory
      by_cases htables : a.tables = .success
      · have hinserted : a.inserted = false := by
          simpa [Refused, hallocation, hmemory, htables] using hrefused
        simp only [Undone, hallocation, hmemory, htables, reduceCtorEq, ne_eq, not_true_eq_false,
          or_self, iff_false]
        exact not_failsCleanly_insert htables hinserted
      · obtain ⟨manager, hrelease, htable⟩ := release_allocated hm hr hnew
        simp only [Undone, htables, ne_eq, not_false_eq_true, or_true, iff_true]
        refine failsCleanly_of_eq ?_ htables
          (unchanged_take_free allocation manager fun page => by rw [htable])
        refine (mapTables_refused htables).trans ?_
        simp only [releaseAsserted, free, take, hrelease]
        rfl

lemma mapMemory_failsCleanly_iff (hmanager : s.manager.Reachable)
    (hproper : s.Proper a (.mapMemory range)) (hrefused : s.Refused a (.mapMemory range)) :
    s.FailsCleanly (s.mapMemory a range) ↔ s.Undone a (.mapMemory range) := by
  obtain ⟨others, hm⟩ := hmanager.tracks
  unfold mapMemory
  cases hallocation : a.allocation with
  | none =>
    simp only [Undone, hallocation, iff_true]
    exact failsCleanly_of_eq rfl (by decide) (.refl s)
  | some allocation =>
    simp only [Undone, hallocation, reduceCtorEq, iff_false]
    by_cases htables : a.tables = .success
    · have hinserted : a.inserted = false := by
        simpa [Refused, hallocation, htables] using hrefused
      exact not_failsCleanly_insert htables hinserted
    · rintro ⟨status, s', h, -, hsame⟩
      rw [mapTables_refused htables] at h
      simp only [releaseAsserted] at h
      split at h
      · next manager hrelease =>
        cases h
        obtain ⟨page, hpage⟩ := ownersAt_ne_of_release hm.wf hproper hrelease
        exact hpage (hsame.owners page)
      · cases h
      · cases h

lemma unmap_of_untouched (hspace : s.space.Reachable) (hrange : range.front < range.back)
    (htouched : s.space.touched range = []) : s.unmap range = .ok (.notFound, s) := by
  have hwf := hspace.sound.wf
  obtain ⟨pre, mid, post, haround⟩ := hwf.exists_around range
  obtain rfl : mid = [] := by rw [← touched_eq haround, htouched]
  have hclear : ∀ u ∈ s.space.table, ¬ range.Meets u.range := by
    intro u hu hmeets
    have hmem : u ∈ s.space.touched range := by
      simpa [AddressSpaceManager.touched] using ⟨hu, hmeets⟩
    rw [htouched] at hmem
    cases hmem
  have hunmap : s.space.unmap range = .ok (.notFound, s.space) :=
    (unmap_eq_ok hrange).2
      ⟨unmapBody_none hwf hrange haround,
        unmapDeferred_of_clear hclear hwf.nonempty hrange⟩
  simp only [unmap, hunmap, bind, Except.bind, drop_length]
  rfl

lemma foldlM_serve_space {calls : List ServiceCall} {t t' : MappingState}
    (h : calls.foldlM serve t = .ok t') : t'.space = t.space := by
  induction calls generalizing t with
  | nil =>
    cases h
    rfl
  | cons call calls ih =>
    rw [foldlM_cons] at h
    cases hserve : t.serve call with
    | error e =>
      rw [hserve] at h
      cases h
    | ok u =>
      rw [hserve] at h
      rw [ih h]
      cases call with
      | release memory =>
        simp only [serve, releaseAsserted] at hserve
        split at hserve <;> cases hserve
        rfl
      | unmap range =>
        cases hserve
        rfl

lemma table_ne_of_unmap (hspace : s.space.Reachable) (hrange : range.front < range.back)
    (htouched : s.space.touched range ≠ []) (h : s.unmap range = .ok (status, s')) :
    s'.space.table ≠ s.space.table := by
  cases hunmap : s.space.unmap range with
  | error e => simp [unmap, hunmap, bind, Except.bind] at h
  | ok result =>
    obtain ⟨status1, space⟩ := result
    simp only [unmap, hunmap, bind, Except.bind] at h
    cases hserve : (space.log.drop s.space.log.length).foldlM serve { s with space } with
    | error e => simp [hserve] at h
    | ok t =>
      simp only [hserve] at h
      obtain ⟨rfl, rfl⟩ := Prod.mk.inj (Except.ok.inj h)
      rw [foldlM_serve_space hserve]
      intro hsame
      obtain ⟨u, hu⟩ := exists_mem_of_ne_nil _ htouched
      simp only [AddressSpaceManager.touched, List.mem_filter, decide_eq_true_eq] at hu
      obtain ⟨-, hdeferred⟩ := (unmap_eq_ok hrange).1 hunmap
      have hwf : RangeTable.WellFormed AddressSegment.range space.table := hsame ▸ hspace.sound.wf
      -- a segment that still shares an address with the range is found when `unmap` leaves
      exact not_unmapDeferred hwf hrange (hsame ▸ hu.1) hu.2 hdeferred

lemma mapAt_failsCleanly_iff (hspace : s.space.Reachable)
    (hproper : s.Proper a (.mapAt address memory)) (hrefused : s.Refused a (.mapAt address memory))
    :
    s.FailsCleanly (s.mapAt a address memory) ↔ s.Undone a (.mapAt address memory) := by
  simp only [Undone, mapAt]
  generalize hr : AnyRange.mk address (wrapAdd (2 ^ 64) address memory.size) = r
  have hrange : r.front < r.back := by
    rw [← hr]
    exact hproper
  by_cases htouched : s.space.touched r = []
  · rw [unmap_of_untouched hspace hrange htouched]
    by_cases hreserve : a.reserve = .success
    · simp only [bind, Except.bind, hreserve, htouched, ne_eq, not_true_eq_false, and_false,
        if_false, iff_false]
      by_cases htables : a.tables = .success
      · have hinserted : a.inserted = false := by
          simpa [Refused, hreserve, htables] using hrefused
        exact not_failsCleanly_insert htables hinserted
      · exact not_failsCleanly_stop htables
    · simp only [htouched, ne_eq, hreserve, not_false_eq_true, and_self, iff_true]
      exact failsCleanly_of_eq (by simp [bind, Except.bind, pure, Except.pure]) hreserve (.refl s)
  · simp only [htouched, false_and, iff_false]
    rintro ⟨status, s', h, -, hsame⟩
    cases hunmap : s.unmap r with
    | error e => simp [hunmap, bind, Except.bind] at h
    | ok result =>
      have hne := table_ne_of_unmap hspace hrange htouched hunmap
      simp only [hunmap, bind, Except.bind] at h
      split at h
      · cases h
        exact hne hsame.table
      · split at h
        · cases h
          exact hne hsame.table
        · split at h
          · next t hmap =>
            -- a call that gets here reports success, with an address
            cases hadd : t.addSegment a ⟨memory, r⟩ with
            | error e => simp [hadd] at h
            | ok u => simp [hadd, pure, Except.pure] at h
          · cases h

lemma mapExternal_not_failsCleanly (hrefused : s.Refused a (.mapExternal memory)) :
    ¬ s.FailsCleanly (s.mapExternal a memory) := by
  unfold mapExternal
  cases hallocation : a.allocation with
  | none => exact not_failsCleanly_error
  | some allocation =>
    by_cases htables : a.tables = .success
    · have hinserted : a.inserted = false := by
        simpa [Refused, hallocation, htables] using hrefused
      exact not_failsCleanly_insert htables hinserted
    · exact not_failsCleanly_stop htables

lemma allocateRange_ne_success (h : allocateRange a address size addressIsHint = .error status) :
    status ≠ .success := by
  unfold allocateRange at h
  split at h
  · split at h <;> cases h
    assumption
  · split at h <;> cases h
    decide

lemma allocateVirtual_failsCleanly_iff
    (hrefused : s.Refused a (.allocateVirtual memory address size addressIsHint)) :
    s.FailsCleanly (s.allocateVirtual a memory address size addressIsHint) ↔
      s.Undone a (.allocateVirtual memory address size addressIsHint) := by
  simp only [Refused, Undone] at hrefused ⊢
  unfold allocateVirtual
  by_cases hnull : addressIsHint = true ∧ address = 0
  · rw [if_pos hnull]
    simp [hnull]
  rw [if_neg hnull]
  cases hrange : allocateRange a address size addressIsHint with
  | error status =>
    simp only [hnull, not_false_eq_true, Except.error.injEq, exists_eq', true_or, and_self,
      iff_true]
    exact failsCleanly_of_eq rfl (allocateRange_ne_success hrange) (.refl s)
  | ok allocation =>
    simp only [hrange, reduceCtorEq, exists_false, false_or] at hrefused
    simp only [hnull, not_false_eq_true, reduceCtorEq, exists_false, false_or, true_and]
    by_cases htables : a.tables = .success
    · have hinserted : a.inserted = false := by simpa [htables] using hrefused
      simp only [htables, ne_eq, not_true_eq_false, iff_false]
      exact not_failsCleanly_insert htables hinserted
    · simp only [ne_eq, htables, not_false_eq_true, iff_true]
      exact failsCleanly_of_eq (mapTables_refused htables) htables
        (unchanged_take_free allocation s.manager fun _ => rfl)

lemma mapRemote_failsCleanly_iff {other : AddressSpaceManager}
    (hrefused : s.Refused a (.mapRemote other range)) :
    s.FailsCleanly (s.mapRemote a other range) ↔ s.Undone a (.mapRemote other range) := by
  simp only [Refused, Undone] at hrefused ⊢
  unfold mapRemote
  by_cases hfound : (find AddressSegment.range other.table range).1 = other.table.length
  · simp only [hfound, if_true, true_or, iff_true]
    exact failsCleanly_of_eq rfl (by decide) (.refl s)
  rw [if_neg hfound]
  cases hallocation : a.allocation with
  | none =>
    simp only [or_true, iff_true]
    exact failsCleanly_of_eq rfl (by decide) (.refl s)
  | some allocation =>
    simp only [hfound, reduceCtorEq, or_self, iff_false]
    cases hsegment : remoteSegment other range with
    | none => exact not_failsCleanly_error
    | some segment =>
      cases hmemory : remoteMemory segment range with
      | none => simp [hmemory]
      | some memory =>
        simp only [Option.bind_some, hmemory, retainAsserted]
        split
        · next manager hretain =>
          have hrest : a.tables ≠ .success ∨ a.inserted = false := by
            have hnot : ¬ ∀ manager, s.manager.retain memory ≠ .ok (.success, manager) :=
              fun hall => hall manager hretain
            simpa [hallocation, hsegment, hmemory, hnot] using hrefused
          by_cases htables : a.tables = .success
          · exact not_failsCleanly_insert htables (by simpa [htables] using hrest)
          · exact not_failsCleanly_stop htables
        · exact not_failsCleanly_error
        · exact not_failsCleanly_error

/-- In every state, whatever a call is refused: it reports the error and leaves everything as it
was exactly when the refusal is one it undoes. -/
theorem failsCleanly_iff (hspace : s.space.Reachable) (hmanager : s.manager.Reachable)
    (call : MappingCall) (hproper : s.Proper a call) (hrefused : s.Refused a call) :
    s.FailsCleanly (s.run a call) ↔ s.Undone a call := by
  cases call with
  | mapNew size => exact mapNew_failsCleanly_iff hmanager hproper hrefused
  | mapMemory range => exact mapMemory_failsCleanly_iff hmanager hproper hrefused
  | mapAt address memory => exact mapAt_failsCleanly_iff hspace hproper hrefused
  | mapExternal memory =>
    exact iff_of_false (mapExternal_not_failsCleanly hrefused) id
  | allocateVirtual memory address size addressIsHint =>
    exact allocateVirtual_failsCleanly_iff hrefused
  | mapRemote other range => exact mapRemote_failsCleanly_iff hrefused

def onePage : MappingState where
  space := ⟨[], ⟨[], []⟩, [], []⟩
  manager := (allocate ⟨[], ⟨[], []⟩⟩ (some ⟨0x10000, 0x11000⟩)).2
  translations _ := none

def noTables : MappingAnswers where
  allocation := some ⟨0x1000, 0x2000⟩
  reserve := .success
  memory := some ⟨0x20000, 0x21000⟩
  tables := .outOfMemory
  inserted := true

lemma reachable_onePage : onePage.space.Reachable ∧ onePage.manager.Reachable := by
  refine ⟨⟨_, [], rfl, .nil _⟩, ?_⟩
  have hempty : MemoryManager.Reachable ⟨[], ⟨[], []⟩⟩ := ⟨_, [], rfl, .nil _⟩
  exact hempty.step (.allocate (some ⟨0x10000, 0x11000⟩) (by simp))

theorem failsCleanly_mapNew_noTables : onePage.Undone noTables (.mapNew 0x1000) ∧
    onePage.FailsCleanly (onePage.run noTables (.mapNew 0x1000)) := by
  have hundone : onePage.Undone noTables (.mapNew 0x1000) := .inr (.inr (by decide))
  refine ⟨hundone, (failsCleanly_iff reachable_onePage.1 reachable_onePage.2 _ ?_ ?_).2 hundone⟩
  · rintro r hr
    obtain rfl : (⟨0x20000, 0x21000⟩ : AnyRange) = r := Option.some.inj hr
    exact ⟨by decide, by decide⟩
  · exact .inr (.inr (.inl (by decide)))

/-- The page of the caller loses its owner when it cannot be mapped. -/
theorem mapMemory_noTables_not_clean : onePage.space.Reachable ∧ onePage.manager.Reachable ∧
    onePage.Proper noTables (.mapMemory ⟨0x10000, 0x11000⟩) ∧
    onePage.Refused noTables (.mapMemory ⟨0x10000, 0x11000⟩) ∧
    ¬ onePage.FailsCleanly (onePage.run noTables (.mapMemory ⟨0x10000, 0x11000⟩)) := by
  have hpage : (0x10000 : Nat) < 0x11000 := by decide
  refine ⟨reachable_onePage.1, reachable_onePage.2, hpage, .inr (.inl (by decide)), ?_⟩
  rintro ⟨status, s', h, -, hsame⟩
  have hrun : (onePage.run noTables (.mapMemory ⟨0x10000, 0x11000⟩)).toOption.map
      (fun result => result.2.2.manager.table) = some [] := by decide
  rw [h] at hrun
  have hempty : s'.manager.table = [] := by simpa [Except.toOption] using hrun
  have howner := hsame.owners 0x10000
  rw [hempty] at howner
  exact absurd howner (by decide)

end MappingState
end BezOS
