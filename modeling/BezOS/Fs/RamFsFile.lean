import BezOS.Lib.Growable
import BezOS.Lib.Transition
import BezOS.Lib.Word
import BezOS.Status

/-!
# Files of the ram file system

`RamFsFile::read` and `RamFsFile::write` of `fs/ramfs.cpp`, over the parts of `stdx::Vector2` of
`std/vector.hpp` they use. Memory comes from the allocator with whatever is in it, and growing a
vector of bytes leaves that there. Against it stands a growable array, whose writes fill with zeros.
-/

namespace BezOS
namespace RamFs

open Lib List Except

/-- An answer of the allocator to every size: no memory, or memory with its contents. -/
abbrev Allocator := (size : Nat) → Option { memory : List UInt8 // memory.length = size }

/-- `stdx::Vector2<std::byte>`: the memory from `mFront` to `mCapacity`, or null, and the number of
bytes to `mBack`. -/
structure Vector2 where
  memory : Option (List UInt8)
  count : Nat
  deriving DecidableEq

namespace Vector2

variable (v : Vector2) (allocate : Allocator)

def empty : Vector2 := ⟨none, 0⟩

def bytes : List UInt8 := v.memory.getD []

def capacity : Nat := v.bytes.length

def reserveExact (size : Nat) : Except Fault (OsStatus × Vector2) :=
  if size < v.capacity then
    .ok (.success, v)
  else
    match v.memory, allocate size with
    | _, none => .ok (.outOfMemory, v)
    | none, some memory => .ok (.success, ⟨some memory, 0⟩)
    | some old, some memory =>
        -- `std::uninitialized_move`
        if v.count ≤ old.length then
          .ok (.success, ⟨some (splice memory.val 0 (old.take v.count)), v.count⟩)
        else
          .error .badAccess

def ensureExtra (extra : Nat) : Except Fault (OsStatus × Vector2) :=
  if v.capacity ≤ wrapAdd (2 ^ 64) v.count extra then
    v.reserveExact allocate (wrapAdd (2 ^ 64) v.capacity extra)
  else
    .ok (.success, v)

/-- `std::uninitialized_default_construct` does nothing to bytes. -/
def resize (size : Nat) : Except Fault (OsStatus × Vector2) :=
  if size < v.count then
    .ok (.success, { v with count := size })
  else if v.count < size then do
    let (status, reserved) ← v.ensureExtra allocate (size - v.count)
    if status ≠ .success then
      .ok (status, reserved)
    else
      .ok (.success, { reserved with count := size })
  else
    .ok (.success, v)

/-- `memcpy` out of the vector's memory. -/
def load (offset size : Nat) : Except Fault (List UInt8) :=
  if size = 0 then .ok []
  else if offset + size ≤ v.capacity then .ok (readAt v.bytes offset size)
  else .error .badAccess

/-- `memcpy` into the vector's memory. -/
def store (offset : Nat) (data : List UInt8) : Except Fault Vector2 :=
  if data = [] then .ok v
  else if offset + data.length ≤ v.capacity then
    .ok { v with memory := some (splice v.bytes offset data) }
  else .error .badAccess

end Vector2

/-- `RamFsFile`, without its lock. -/
structure RamFsFile where
  mData : Vector2
  deriving DecidableEq

/-- A read is given the size of its buffer, a write the bytes in its buffer. -/
inductive FileRequest
  | read (offset size : Nat)
  | write (offset : Nat) (data : List UInt8) (allocate : Allocator)

/-- The status, `ReadResult::read` or `WriteResult::write`, and what a read put into its buffer. -/
structure FileAnswer where
  status : OsStatus
  count : Nat
  data : List UInt8
  deriving DecidableEq

namespace RamFsFile

variable (f : RamFsFile)

def read (offset range : Nat) : Except Fault FileAnswer := do
  let size := min range (wrapSub (2 ^ 64) f.mData.count offset)
  let data ← f.mData.load offset size
  .ok ⟨.success, size, data⟩

/-- The first half of `write`. The status of `resize` is dropped. -/
def grow (allocate : Allocator) (size : Nat) : Except Fault Vector2 :=
  if f.mData.count < size then (f.mData.resize allocate size).map Prod.snd else .ok f.mData

def write (offset : Nat) (data : List UInt8) (allocate : Allocator) :
    Except Fault (FileAnswer × RamFsFile) := do
  let resized ← f.grow allocate (wrapAdd (2 ^ 64) offset data.length)
  let stored ← resized.store offset data
  .ok (⟨.success, data.length, []⟩, ⟨stored⟩)

def step : FileRequest → Except Fault (FileAnswer × RamFsFile)
  | .read offset size => (f.read offset size).map fun answer => (answer, f)
  | .write offset data allocate => f.write offset data allocate

end RamFsFile

/-! ## The growable array -/

def FileRequest.Legal : FileRequest → Prop
  | .read offset size => offset < 2 ^ 64 ∧ size < 2 ^ 64
  | .write offset data _ => offset < 2 ^ 64 ∧ data.length < 2 ^ 64

/-- The answer that a growable array gives to the request, and the array after it. -/
def FileRequest.Answered (a : List UInt8) : FileRequest → FileAnswer → List UInt8 → Prop
  | .read offset size, answer, b =>
      b = a ∧ answer = ⟨.success, (readAt a offset size).length, readAt a offset size⟩
  | .write offset data _, answer, b =>
      if offset + data.length < 2 ^ 64 then
        answer = ⟨.success, data.length, []⟩ ∧ b = writeAt 0 a offset data
      else
        answer.status ≠ .success ∧ b = a

namespace RamFsFile

variable (f : RamFsFile)

structure Keeps (a : List UInt8) : Prop where
  inside : f.mData.count ≤ f.mData.capacity
  capacity : f.mData.capacity < 2 ^ 64
  array : f.mData.bytes.take f.mData.count = a

/-- What the memory holds when the file has grown to `size`: the file's own memory while it is
larger than that, else the memory the allocator gives. -/
def grown (allocate : Allocator) (size : Nat) : Option (List UInt8) :=
  let v := f.mData
  if size < v.capacity ∨ 2 ^ 64 ≤ v.capacity + (size - v.count) then v.memory
  else (allocate (v.capacity + (size - v.count))).map Subtype.val

/-- A read that is not empty starts in the file or at its end. The end of a write is a 64-bit value,
and where the file grows, there is memory up to that end, with zeros between the end of the file and
the offset. -/
def Careful : FileRequest → Prop
  | .read offset size => size = 0 ∨ offset ≤ f.mData.count
  | .write offset data allocate =>
      offset + data.length < 2 ^ 64 ∧ (f.mData.count < offset + data.length →
        ∃ memory, f.grown allocate (offset + data.length) = some memory ∧
          offset + data.length ≤ memory.length ∧
          readAt memory f.mData.count (offset - f.mData.count) =
            replicate (offset - f.mData.count) 0)

end RamFsFile

/-! ## The memory -/

namespace Vector2

variable {v v' : Vector2} {allocate : Allocator} {offset size : Nat} {data : List UInt8}

lemma store_of_le (h : offset + data.length ≤ v.capacity) :
    ∃ stored, v.store offset data = .ok stored ∧ stored.count = v.count ∧
      stored.bytes = splice v.bytes offset data := by
  rw [store]
  split
  · rename_i hempty
    subst hempty
    exact ⟨v, rfl, rfl, splice_nil.symm⟩
  · exact ⟨_, rfl, rfl, rfl⟩

lemma count_of_store (h : v.store offset data = .ok v') : v'.count = v.count := by
  rw [store] at h
  split at h
  · rw [← ok.inj h]
  · split at h
    · rw [← ok.inj h]
    · cases h

lemma capacity_of_store (h : v.store offset data = .ok v') : v'.capacity = v.capacity := by
  rw [store] at h
  split at h
  · rw [← ok.inj h]
  · split at h
    · rename_i hle
      rw [← ok.inj h]
      exact length_splice hle
    · cases h

lemma reserveExact_some {memory : { memory : List UInt8 // memory.length = size }}
    (hsize : v.capacity ≤ size) (hinside : v.count ≤ v.capacity)
    (hmemory : allocate size = some memory) :
    ∃ count, v.reserveExact allocate size =
      .ok (.success, ⟨some (splice memory.val 0 (v.bytes.take v.count)), count⟩) := by
  obtain ⟨_ | old, count⟩ := v
  · have hempty : (⟨none, count⟩ : Vector2).bytes.take count = [] := by simp [bytes]
    rw [reserveExact, if_neg (by omega), hmemory, hempty, splice_nil]
    exact ⟨0, rfl⟩
  · have hmoved : count ≤ old.length := hinside
    rw [reserveExact, if_neg (by omega), hmemory]
    exact ⟨count, by simp only [if_pos hmoved]; rfl⟩

lemma reserveExact_none (hsize : v.capacity ≤ size) (hmemory : allocate size = none) :
    v.reserveExact allocate size = .ok (.outOfMemory, v) := by
  rw [reserveExact, if_neg (by omega), hmemory]

end Vector2

namespace RamFsFile

variable {f u : RamFsFile} {a b : List UInt8} {allocate : Allocator} {offset size range : Nat}
  {data memory : List UInt8} {answer : FileAnswer}

lemma Keeps.length_eq (h : f.Keeps a) : a.length = f.mData.count := by
  have hinside := h.inside
  rw [← h.array, length_take]
  exact Nat.min_eq_left hinside

lemma wrapAdd_extra {count : Nat} (hgrow : count < size) (hsize : size < 2 ^ 64) :
    wrapAdd (2 ^ 64) count (size - count) = size := by
  rw [wrapAdd_of_lt (by omega)]
  omega

lemma Keeps.ensureExtra_kept (h : f.Keeps a) (hgrow : f.mData.count < size)
    (hsize : size < 2 ^ 64)
    (hkept : size < f.mData.capacity ∨ 2 ^ 64 ≤ f.mData.capacity + (size - f.mData.count)) :
    f.mData.ensureExtra allocate (size - f.mData.count) = .ok (.success, f.mData) := by
  have hcapacity := h.capacity
  rw [Vector2.ensureExtra, wrapAdd_extra hgrow hsize]
  split
  · rename_i hroom
    have hcases := wrapAdd_cases (b := size - f.mData.count) hcapacity (by omega)
    rw [Vector2.reserveExact, if_pos (by omega)]
  · rfl

lemma ensureExtra_moved (hgrow : f.mData.count < size)
    (hsize : size < 2 ^ 64)
    (hmoved : ¬(size < f.mData.capacity ∨ 2 ^ 64 ≤ f.mData.capacity + (size - f.mData.count))) :
    f.mData.ensureExtra allocate (size - f.mData.count) =
      f.mData.reserveExact allocate (f.mData.capacity + (size - f.mData.count)) := by
  rw [Vector2.ensureExtra, wrapAdd_extra hgrow hsize, if_pos (by omega),
    wrapAdd_of_lt (by omega)]

lemma Keeps.resize_some (h : f.Keeps a) (hgrow : f.mData.count < size) (hsize : size < 2 ^ 64)
    (hgrown : f.grown allocate size = some memory) :
    ∃ memory', f.mData.resize allocate size = .ok (.success, ⟨some memory', size⟩) ∧
      memory'.length = memory.length ∧ memory'.length < 2 ^ 64 ∧
      memory'.take f.mData.count = a ∧
      memory'.drop f.mData.count = memory.drop f.mData.count := by
  have hinside := h.inside
  have hcapacity := h.capacity
  have harray := h.array
  have hlength := h.length_eq
  rw [Vector2.resize, if_neg (by omega), if_pos hgrow]
  simp only [grown] at hgrown
  split at hgrown
  · rename_i hkept
    have hbytes : f.mData.bytes = memory := by rw [Vector2.bytes, hgrown]; rfl
    rw [h.ensureExtra_kept hgrow hsize hkept]
    refine ⟨memory, ?_, rfl, ?_, ?_, rfl⟩
    · rw [← hgrown]
      rfl
    · rwa [← hbytes]
    · rwa [← hbytes]
  · rename_i hmoved
    obtain ⟨given, hgiven, rfl⟩ := Option.map_eq_some_iff.1 hgrown
    obtain ⟨count, hreserve⟩ := Vector2.reserveExact_some (by omega) hinside hgiven
    rw [harray] at hreserve
    rw [ensureExtra_moved hgrow hsize hmoved, hreserve]
    have hspliced : (splice given.val 0 a).length = given.val.length :=
      length_splice (by omega)
    have htake := take_splice_zero given.val a
    have hdrop := drop_splice_zero given.val a
    rw [hlength] at htake hdrop
    exact ⟨splice given.val 0 a, rfl, hspliced, by omega, htake, hdrop⟩

lemma Keeps.resize_none (h : f.Keeps a) (hgrow : f.mData.count < size) (hsize : size < 2 ^ 64)
    (hgrown : f.grown allocate size = none) :
    ∃ status, f.mData.resize allocate size = .ok (status, f.mData) ∧ status ≠ .success := by
  rw [Vector2.resize, if_neg (by omega), if_pos hgrow]
  simp only [grown] at hgrown
  split at hgrown
  · rename_i hkept
    have hzero : f.mData.capacity = 0 := by rw [Vector2.capacity, Vector2.bytes, hgrown]; rfl
    omega
  · rename_i hmoved
    rw [ensureExtra_moved hgrow hsize hmoved,
      Vector2.reserveExact_none (by omega) (by simpa using hgrown)]
    exact ⟨_, rfl, by decide⟩

/-! ## Reads -/

lemma Keeps.read_careful (h : f.Keeps a) (hcareful : range = 0 ∨ offset ≤ f.mData.count) :
    f.read offset range =
      .ok ⟨.success, (readAt a offset range).length, readAt a offset range⟩ := by
  have hinside := h.inside
  have hcapacity := h.capacity
  have hclip : (readAt a offset range).length = min range (f.mData.count - offset) := by
    rw [length_readAt, h.length_eq]
  have hcount : min range (wrapSub (2 ^ 64) f.mData.count offset) =
      min range (f.mData.count - offset) := by
    rcases hcareful with rfl | hle
    · rw [Nat.zero_min, Nat.zero_min]
    · rw [wrapSub_of_le hle (by omega)]
  have hload : f.mData.load offset (min range (f.mData.count - offset)) =
      .ok (readAt a offset range) := by
    rw [Vector2.load]
    split
    · rename_i hzero
      rw [length_eq_zero_iff.1 (hclip.trans hzero)]
    · rw [if_pos (by omega), ← readAt_clip (a := a), h.length_eq, ← h.array, readAt_take (by omega)]
  rw [read, hcount, hload, hclip]
  rfl

lemma read_beyond (hbeyond : f.mData.count < offset) (hoffset : offset < 2 ^ 64)
    (hrange : range ≠ 0) (hread : f.read offset range = .ok answer) : answer.count ≠ 0 := by
  obtain ⟨bytes, -, hanswer⟩ := bind_eq_ok.1 hread
  rw [← ok.inj hanswer]
  have hcases := @wrapSub_cases (2 ^ 64) f.mData.count offset (by omega) (by omega)
  change min range (wrapSub (2 ^ 64) f.mData.count offset) ≠ 0
  generalize wrapSub (2 ^ 64) f.mData.count offset = space at hcases ⊢
  omega

lemma Keeps.read_iff (h : f.Keeps a) (hlegal : offset < 2 ^ 64) :
    f.read offset range =
        .ok ⟨.success, (readAt a offset range).length, readAt a offset range⟩ ↔
      range = 0 ∨ offset ≤ f.mData.count := by
  refine ⟨fun hread => ?_, h.read_careful⟩
  by_contra hcareless
  have hcount : (readAt a offset range).length ≠ 0 :=
    read_beyond (by omega) hlegal (by omega) hread
  rw [length_readAt, h.length_eq] at hcount
  omega

/-! ## Writes -/

lemma write_answer (hwrite : f.write offset data allocate = .ok (answer, u)) :
    answer = ⟨.success, data.length, []⟩ := by
  obtain ⟨resized, -, hstore⟩ := bind_eq_ok.1 hwrite
  obtain ⟨stored, -, heq⟩ := bind_eq_ok.1 hstore
  exact (Prod.mk.inj (ok.inj heq)).1.symm

lemma keeps_store {v : Vector2} {count : Nat} (hcount : count ≤ v.capacity)
    (hcapacity : v.capacity < 2 ^ 64) (hroom : offset + data.length ≤ v.capacity)
    (hsize : v.count = max count (offset + data.length)) (hkept : v.bytes.take count = a) :
    ∃ stored, v.store offset data = .ok stored ∧
      (Keeps ⟨stored⟩ (writeAt 0 a offset data) ↔
        readAt v.bytes count (offset - count) = replicate (offset - count) 0) := by
  obtain ⟨stored, hstore, hstored, hbytes⟩ := Vector2.store_of_le hroom
  have hsame := Vector2.capacity_of_store hstore
  refine ⟨stored, hstore, ?_⟩
  rw [← hkept, readAt, ← take_splice_iff hcount hroom, ← hbytes, ← hsize, ← hstored]
  have hinside : stored.count ≤ stored.capacity := by omega
  have hbound : stored.capacity < 2 ^ 64 := by omega
  exact ⟨Keeps.array, fun harray => ⟨hinside, hbound, harray⟩⟩

lemma Keeps.write_inside (h : f.Keeps a) (hend : offset + data.length ≤ f.mData.count) :
    ∃ u, f.write offset data allocate = .ok (⟨.success, data.length, []⟩, u) ∧
      u.Keeps (writeAt 0 a offset data) := by
  have hinside := h.inside
  have hcapacity := h.capacity
  obtain ⟨stored, hstore, hkeeps⟩ : ∃ stored, f.mData.store offset data = .ok stored ∧
      (Keeps ⟨stored⟩ (writeAt 0 a offset data) ↔ readAt f.mData.bytes f.mData.count
        (offset - f.mData.count) = replicate (offset - f.mData.count) 0) :=
    keeps_store hinside hcapacity (by omega) (by omega) h.array
  refine ⟨⟨stored⟩, ?_, hkeeps.2 ?_⟩
  · rw [write, wrapAdd_of_lt (by omega), grow, if_neg (by omega)]
    exact bind_eq_ok.2 ⟨_, rfl, bind_eq_ok.2 ⟨_, hstore, rfl⟩⟩
  · rw [Nat.sub_eq_zero_of_le (by omega)]
    rfl

lemma Keeps.write_grown (h : f.Keeps a) (hgrow : f.mData.count < offset + data.length)
    (hend : offset + data.length < 2 ^ 64)
    (hgrown : f.grown allocate (offset + data.length) = some memory) :
    (∃ u, f.write offset data allocate = .ok (⟨.success, data.length, []⟩, u) ∧
      u.Keeps (writeAt 0 a offset data)) ↔
      offset + data.length ≤ memory.length ∧
        readAt memory f.mData.count (offset - f.mData.count) =
          replicate (offset - f.mData.count) 0 := by
  obtain ⟨memory', hresize, hlength, hlimit, hkept, hrest⟩ := h.resize_some hgrow hend hgrown
  have hwrite : f.write offset data allocate =
      (Vector2.store ⟨some memory', offset + data.length⟩ offset data >>= fun stored =>
        .ok (⟨.success, data.length, []⟩, ⟨stored⟩)) := by
    rw [write, wrapAdd_of_lt hend, grow, if_pos hgrow, hresize]
    rfl
  have hzeros : readAt memory f.mData.count (offset - f.mData.count) =
      readAt memory' f.mData.count (offset - f.mData.count) := by
    rw [readAt, readAt, hrest]
  have hstore := fun hroom : offset + data.length ≤ memory'.length =>
    @keeps_store a offset data ⟨some memory', offset + data.length⟩ f.mData.count
      (Nat.le_of_lt (Nat.lt_of_lt_of_le hgrow hroom)) hlimit hroom (by simp; omega) hkept
  rw [hwrite, hzeros]
  constructor
  · rintro ⟨u, hstored, hkeeps⟩
    obtain ⟨stored, hok, hu⟩ := bind_eq_ok.1 hstored
    obtain rfl := (Prod.mk.inj (ok.inj hu)).2
    have hroom : offset + data.length ≤ memory'.length := by
      have hinside := hkeeps.inside
      rw [Vector2.count_of_store hok, Vector2.capacity_of_store hok] at hinside
      exact hinside
    obtain ⟨stored', hok', hiff⟩ := hstore hroom
    obtain rfl := ok.inj (hok.symm.trans hok')
    exact ⟨by omega, hiff.1 hkeeps⟩
  · rintro ⟨hroom, hgap⟩
    obtain ⟨stored, hok, hiff⟩ := hstore (by omega)
    exact ⟨⟨stored⟩, bind_eq_ok.2 ⟨stored, hok, rfl⟩, hiff.2 hgap⟩

lemma Keeps.write_refused (h : f.Keeps a) (hgrow : f.mData.count < offset + data.length)
    (hend : offset + data.length < 2 ^ 64)
    (hgrown : f.grown allocate (offset + data.length) = none)
    (hwrite : f.write offset data allocate = .ok (answer, u)) :
    ¬u.Keeps (writeAt 0 a offset data) := by
  intro hkeeps
  obtain ⟨status, hresize, -⟩ := h.resize_none hgrow hend hgrown
  rw [write, wrapAdd_of_lt hend, grow, if_pos hgrow, hresize] at hwrite
  obtain ⟨resized, hresized, hcopy⟩ := bind_eq_ok.1 hwrite
  obtain rfl := ok.inj hresized
  obtain ⟨stored, hstore, hu⟩ := bind_eq_ok.1 hcopy
  obtain rfl := (Prod.mk.inj (ok.inj hu)).2
  have hlength := hkeeps.length_eq
  rw [length_writeAt, h.length_eq, Vector2.count_of_store hstore] at hlength
  change max f.mData.count _ = f.mData.count at hlength
  omega

lemma Keeps.write_iff (h : f.Keeps a) (hend : offset + data.length < 2 ^ 64) :
    (∃ u, f.write offset data allocate = .ok (⟨.success, data.length, []⟩, u) ∧
      u.Keeps (writeAt 0 a offset data)) ↔ f.Careful (.write offset data allocate) := by
  by_cases hgrow : f.mData.count < offset + data.length
  · cases hgrown : f.grown allocate (offset + data.length) with
    | none =>
      constructor
      · rintro ⟨u, hwrite, hkeeps⟩
        exact absurd hkeeps (h.write_refused hgrow hend hgrown hwrite)
      · rintro ⟨-, hroom⟩
        obtain ⟨memory, hmemory, -⟩ := hroom hgrow
        rw [hgrown] at hmemory
        cases hmemory
    | some memory =>
      rw [h.write_grown hgrow hend hgrown]
      constructor
      · rintro ⟨hroom, hzeros⟩
        exact ⟨hend, fun _ => ⟨memory, hgrown, hroom, hzeros⟩⟩
      · rintro ⟨-, hroom⟩
        obtain ⟨memory', hmemory, hroom', hzeros⟩ := hroom hgrow
        obtain rfl := Option.some.inj (hgrown.symm.trans hmemory)
        exact ⟨hroom', hzeros⟩
  · refine ⟨fun _ => ⟨hend, fun hlt => absurd hlt hgrow⟩, fun _ => ?_⟩
    exact h.write_inside (by omega)

/-! ## Runs -/

/-- The file takes the step as the growable array does. -/
def Follows (f : RamFsFile) (a : List UInt8) (request : FileRequest) : Prop :=
  ∃ answer u b, f.step request = .ok (answer, u) ∧ request.Answered a answer b ∧ u.Keeps b

lemma Keeps.follows_iff (h : f.Keeps a) {request : FileRequest} (hlegal : request.Legal) :
    f.Follows a request ↔ f.Careful request := by
  cases request with
  | read offset range =>
    refine Iff.trans ⟨?_, fun hread => ?_⟩ (h.read_iff hlegal.1)
    · rintro ⟨answer, u, b, hstep, ⟨-, hanswer⟩, -⟩
      obtain ⟨answer', hread, heq⟩ := map_eq_ok.1 hstep
      obtain rfl : answer' = answer := (Prod.mk.inj heq).1
      rw [hread, hanswer]
    · exact ⟨_, f, a, map_eq_ok.2 ⟨_, hread, rfl⟩, ⟨rfl, rfl⟩, h⟩
  | write offset data allocate =>
    by_cases hend : offset + data.length < 2 ^ 64
    · rw [← h.write_iff hend]
      constructor
      · rintro ⟨answer, u, b, hstep, hanswered, hkeeps⟩
        rw [FileRequest.Answered, if_pos hend] at hanswered
        obtain ⟨rfl, rfl⟩ := hanswered
        exact ⟨u, hstep, hkeeps⟩
      · rintro ⟨u, hwrite, hkeeps⟩
        refine ⟨_, u, _, hwrite, ?_, hkeeps⟩
        rw [FileRequest.Answered, if_pos hend]
        exact ⟨rfl, rfl⟩
    · refine ⟨?_, fun hcareful => absurd hcareful.1 hend⟩
      rintro ⟨answer, u, b, hstep, hanswered, -⟩
      rw [FileRequest.Answered, if_neg hend, write_answer hstep] at hanswered
      exact absurd rfl hanswered.1

end RamFsFile

def FileSteps (f : RamFsFile) (label : FileRequest × FileAnswer) (u : RamFsFile) : Prop :=
  label.1.Legal ∧ f.step label.1 = .ok (label.2, u)

def CarefulSteps (f : RamFsFile) (label : FileRequest × FileAnswer) (u : RamFsFile) : Prop :=
  f.Careful label.1 ∧ FileSteps f label u

def ArraySteps (a : List UInt8) (label : FileRequest × FileAnswer) (b : List UInt8) : Prop :=
  label.1.Answered a label.2 b

def RamFsFile.empty : RamFsFile := ⟨.empty⟩

lemma RamFsFile.keeps_empty : RamFsFile.empty.Keeps [] :=
  ⟨Nat.le_refl _, Nat.two_pow_pos 64, rfl⟩

lemma keeps_of_run {f u : RamFsFile} {a : List UInt8}
    {labels : List (FileRequest × FileAnswer)} (h : Run CarefulSteps f labels u)
    (hkeeps : f.Keeps a) : ∃ b, Run ArraySteps a labels b ∧ u.Keeps b := by
  induction h generalizing a with
  | nil f => exact ⟨a, .nil a, hkeeps⟩
  | cons hstep _ ih =>
    obtain ⟨hcareful, hlegal, hok⟩ := hstep
    obtain ⟨answer, u, b, hok', hanswered, hnext⟩ := (hkeeps.follows_iff hlegal).2 hcareful
    obtain ⟨rfl, rfl⟩ := Prod.mk.inj (ok.inj (hok.symm.trans hok'))
    obtain ⟨c, hrun, hlast⟩ := ih hnext
    exact ⟨c, .cons hanswered hrun, hlast⟩

/-- Every run of careful requests on an empty file is a run of the growable array, and a further
request is answered as by the array just when it is careful. -/
theorem refines_growable {u : RamFsFile} {labels : List (FileRequest × FileAnswer)}
    (h : Run CarefulSteps .empty labels u) :
    ∃ a, Run ArraySteps [] labels a ∧ u.Keeps a ∧
      ∀ request, request.Legal → (u.Follows a request ↔ u.Careful request) := by
  obtain ⟨a, hrun, hkeeps⟩ := keeps_of_run h RamFsFile.keeps_empty
  exact ⟨a, hrun, hkeeps, fun request hlegal => hkeeps.follows_iff hlegal⟩

def zeroed : Allocator := fun size => some ⟨replicate size 0, length_replicate⟩

def writeThenRead : List (FileRequest × FileAnswer) :=
  [(.write 2 [1, 2] zeroed, ⟨.success, 2, []⟩), (.read 1 8, ⟨.success, 3, [0, 1, 2]⟩)]

theorem refines_writeThenRead : ∃ u, Run CarefulSteps .empty writeThenRead u ∧
    ∃ a, Run ArraySteps [] writeThenRead a ∧ u.Keeps a ∧
      ∀ request, request.Legal → (u.Follows a request ↔ u.Careful request) := by
  have hwrite : CarefulSteps .empty (.write 2 [1, 2] zeroed, ⟨.success, 2, []⟩)
      ⟨some [0, 0, 1, 2], 4⟩ :=
    ⟨⟨by simp, fun _ => ⟨[0, 0, 0, 0], rfl, by decide, rfl⟩⟩, ⟨by simp, by simp⟩, rfl⟩
  have hread : CarefulSteps ⟨some [0, 0, 1, 2], 4⟩ (.read 1 8, ⟨.success, 3, [0, 1, 2]⟩)
      ⟨some [0, 0, 1, 2], 4⟩ :=
    ⟨.inr (by decide), ⟨by simp, by simp⟩, rfl⟩
  have hrun := Run.cons hwrite (Run.cons hread (Run.nil _))
  exact ⟨_, hrun, refines_growable hrun⟩

/-- A read behind the end of an empty file. -/
theorem not_refines_read_beyond :
    ¬∀ requests : List FileRequest, (∀ request ∈ requests, request.Legal) →
      ∃ labels u a, labels.map Prod.fst = requests ∧ Run FileSteps .empty labels u ∧
        Run ArraySteps [] labels a := by
  intro hall
  have hlegal : ∀ request ∈ [FileRequest.read 1 1], request.Legal := by
    simp [FileRequest.Legal]
  obtain ⟨labels, u, -, hrequests, hrun, -⟩ := hall [.read 1 1] hlegal
  cases hrun with
  | nil => cases hrequests
  | @cons _ _ _ label _ hstep _ =>
    obtain ⟨hrequest, -⟩ := List.cons.inj hrequests
    have hfault : (RamFsFile.empty.step (.read 1 1)).toOption = none := by decide +kernel
    have hok := hstep.2
    rw [hrequest] at hok
    rw [hok] at hfault
    cases hfault

end RamFs
end BezOS
