import BezOS.Lib.Transition
import BezOS.Std.FixedDeque

/-!
# Stream devices

`dev::StreamDevice` of `devices/stream.cpp`: a pipe of bytes over a deque that is filled at its back
and emptied at its front. A call holds the lock of the device from its start to its end, so calls
come one after the other.
-/

namespace BezOS
namespace dev

open Lib stdx List

/-- The bytes that `new` returns, whatever they hold. An array takes up less than half of the
address space. -/
structure Buffer where
  bytes : List UInt8
  length_lt : bytes.length < 2 ^ 63

structure StreamDevice where
  mQueue : FixedSizeDeque UInt8

inductive Call
  | read (length : Nat)
  | write (data : List UInt8)

/-- A call that has returned, with the count it reports and the bytes it stored. -/
inductive Event
  | read (length count : Nat) (bytes : List UInt8)
  | write (data : List UInt8) (count : Nat)

def Event.call : Event → Call
  | read length _ _ => .read length
  | write data _ => .write data

namespace StreamDevice

def create (mBuffer : Buffer) : StreamDevice := ⟨.create mBuffer.bytes mBuffer.bytes.length⟩

/-- The loop of `read`. -/
def pollBytes : Nat → FixedSizeDeque UInt8 → Except Fault (List UInt8 × FixedSizeDeque UInt8)
  | 0, queue => .ok ([], queue)
  | count + 1, queue => do
      let (byte, queue) ← queue.pollFront
      let (bytes, queue) ← pollBytes count queue
      pure (byte :: bytes, queue)

/-- The loop of `write`. -/
def addBytes : List UInt8 → FixedSizeDeque UInt8 → Except Fault (FixedSizeDeque UInt8)
  | [], queue => .ok queue
  | byte :: bytes, queue => do
      let (_, queue) ← queue.addBack byte
      addBytes bytes queue

variable (d : StreamDevice)

def read (length : Nat) : Except Fault (Event × StreamDevice) := do
  let count := min length d.mQueue.count
  let (bytes, queue) ← pollBytes count d.mQueue
  pure (.read length count bytes, ⟨queue⟩)

def write (data : List UInt8) : Except Fault (Event × StreamDevice) := do
  let count := min data.length (wrapSub (2 ^ 64) d.mQueue.capacity d.mQueue.count)
  let queue ← addBytes (data.take count) d.mQueue
  pure (.write data count, ⟨queue⟩)

def step : Call → Except Fault (Event × StreamDevice)
  | .read length => d.read length
  | .write data => d.write data

def run : List Call → StreamDevice → Except Fault (List Event × StreamDevice)
  | [], d => .ok ([], d)
  | call :: calls, d => do
      let (event, d) ← d.step call
      let (history, d) ← run calls d
      pure (event :: history, d)

/-! ## A pipe -/

def accepted (history : List Event) : List UInt8 :=
  history.flatMap fun
    | .write data count => data.take count
    | .read .. => []

def delivered (history : List Event) : List UInt8 :=
  history.flatMap fun
    | .read _ _ bytes => bytes
    | .write .. => []

def queued (history : List Event) : Nat := (accepted history).length - (delivered history).length

/-- A read returns all it is asked for, as far as there is any, and a write accepts all it is given,
as far as there is space. -/
def Serves (size : Nat) (past : List Event) : Event → Prop
  | .read length count bytes => count = min length (queued past) ∧ bytes.length = count
  | .write data count => count = min data.length (size - queued past)

/-- A history of a bounded pipe that loses nothing and keeps the order. -/
structure Lossless (size : Nat) (history : List Event) : Prop where
  serves : Justified (Serves size) history
  delivered : delivered history <+: accepted history

/-! ## One call -/

variable {d} {queue : FixedSizeDeque UInt8} {past : List Event} {xs bytes : List UInt8} {size : Nat}

lemma pollBytes_spec (h : queue.Holds (xs ++ bytes.reverse)) :
    ∃ queue', pollBytes bytes.length queue = .ok (bytes, queue') ∧ queue'.Holds xs ∧
      queue'.mCapacity = queue.mCapacity := by
  induction bytes generalizing queue with
  | nil => exact ⟨queue, rfl, by simpa using h, rfl⟩
  | cons byte bytes ih =>
    rw [reverse_cons, ← append_assoc] at h
    obtain ⟨rest, hpoll, hrest, hcapacity⟩ := h.pollFront
    obtain ⟨queue', hloop, hxs, hsame⟩ := ih hrest
    refine ⟨queue', ?_, hxs, hsame.trans hcapacity⟩
    rw [length_cons, pollBytes]
    exact bind_eq_ok.2 ⟨_, hpoll, bind_eq_ok.2 ⟨_, hloop, rfl⟩⟩

lemma addBytes_spec (h : queue.Holds xs) (hspace : xs.length + bytes.length ≤ queue.mCapacity) :
    ∃ queue', addBytes bytes queue = .ok queue' ∧ queue'.Holds (bytes.reverse ++ xs) ∧
      queue'.mCapacity = queue.mCapacity := by
  induction bytes generalizing queue xs with
  | nil => exact ⟨queue, rfl, h, rfl⟩
  | cons byte bytes ih =>
    rw [length_cons] at hspace
    obtain ⟨next, hadd, hnext, hcapacity⟩ := h.addBack byte (by omega)
    obtain ⟨queue', hloop, hall, hsame⟩ := ih hnext (by rw [length_cons]; omega)
    refine ⟨queue', ?_, ?_, hsame.trans hcapacity⟩
    · rw [addBytes]
      exact bind_eq_ok.2 ⟨_, hadd, hloop⟩
    · rwa [reverse_cons, append_assoc, singleton_append]

/-- What a device keeps after a history: the bytes accepted and not yet delivered, the last of them
at the back. -/
structure Keeps (size : Nat) (past : List Event) (d : StreamDevice) : Prop where
  capacity : d.mQueue.mCapacity = size
  holds : ∃ xs, d.mQueue.Holds xs ∧ accepted past = delivered past ++ xs.reverse

lemma queued_of_split (h : accepted past = delivered past ++ xs.reverse) :
    queued past = xs.length := by
  rw [queued, h, length_append, length_reverse]
  omega

lemma Keeps.read (h : Keeps size past d) (length : Nat) :
    ∃ event d', d.read length = .ok (event, d') ∧ event.call = .read length ∧
      Serves size past event ∧ Keeps size (past ++ [event]) d' := by
  obtain ⟨hcapacity, xs, hholds, hsplit⟩ := h
  have hqueued := queued_of_split hsplit
  obtain ⟨count, hcount⟩ : ∃ count, count = min length xs.length := ⟨_, rfl⟩
  -- the bytes that were accepted first are at the front
  have hcut : xs = xs.take (xs.length - count) ++ (xs.reverse.take count).reverse := by
    rw [take_reverse, reverse_reverse, take_append_drop]
  have hlength : (xs.reverse.take count).length = count := by
    rw [length_take, length_reverse]
    omega
  rw [hcut] at hholds
  obtain ⟨queue', hloop, hrest, hsame⟩ := pollBytes_spec hholds
  have hread : d.read length = .ok (.read length count (xs.reverse.take count), ⟨queue'⟩) := by
    rw [← hcut] at hholds
    rw [StreamDevice.read, FixedSizeDeque.count, hholds.count, ← hcount]
    rw [hlength] at hloop
    exact bind_eq_ok.2 ⟨_, hloop, rfl⟩
  refine ⟨_, _, hread, rfl, ?_, hsame.trans hcapacity, _, hrest, ?_⟩
  · exact ⟨by rw [hqueued]; exact hcount, hlength⟩
  · simp only [accepted, delivered, flatMap_append, flatMap_singleton, append_nil]
      at hsplit ⊢
    rw [hsplit, append_assoc]
    congr 1
    rw [← drop_reverse, take_append_drop]

lemma Keeps.write (h : Keeps size past d) (data : List UInt8) :
    ∃ event d', d.write data = .ok (event, d') ∧ event.call = .write data ∧
      Serves size past event ∧ Keeps size (past ++ [event]) d' := by
  obtain ⟨rfl, xs, hholds, hsplit⟩ := h
  have hqueued := queued_of_split hsplit
  have hlt := hholds.capacity_lt
  have hle := hholds.count_le
  obtain ⟨count, hcount⟩ : ∃ count, count = min data.length (d.mQueue.mCapacity - xs.length) :=
    ⟨_, rfl⟩
  have hlength : (data.take count).length = count := by
    rw [length_take]
    omega
  have hfree : wrapSub (2 ^ 64) d.mQueue.capacity d.mQueue.count =
      d.mQueue.mCapacity - xs.length := by
    rw [FixedSizeDeque.capacity, FixedSizeDeque.count, hholds.count, wrapSub_of_le hle (by omega)]
  obtain ⟨queue', hloop, hall, hsame⟩ := @addBytes_spec d.mQueue xs (data.take count) hholds (by omega)
  have hwrite : d.write data = .ok (.write data count, ⟨queue'⟩) := by
    rw [StreamDevice.write, hfree, ← hcount]
    exact bind_eq_ok.2 ⟨_, hloop, rfl⟩
  refine ⟨_, _, hwrite, rfl, ?_, hsame, _, hall, ?_⟩
  · rw [Serves, hqueued]
    exact hcount
  · simp only [accepted, delivered, flatMap_append, flatMap_singleton, append_nil]
      at hsplit ⊢
    rw [hsplit, reverse_append, reverse_reverse, append_assoc]

lemma Keeps.step (h : Keeps size past d) (call : Call) :
    ∃ event d', d.step call = .ok (event, d') ∧ event.call = call ∧ Serves size past event ∧
      Keeps size (past ++ [event]) d' := by
  cases call with
  | read length => exact h.read length
  | write data => exact h.write data

/-! ## Runs -/

lemma keeps_create {mBuffer : Buffer} (hsize : 1 ≤ mBuffer.bytes.length) :
    Keeps mBuffer.bytes.length [] (create mBuffer) :=
  ⟨rfl, [], FixedSizeDeque.holds_create rfl hsize mBuffer.length_lt, rfl⟩

lemma Keeps.run (h : Keeps size past d) (hpast : Justified (Serves size) past)
    (calls : List Call) :
    ∃ history d', StreamDevice.run calls d = .ok (history, d') ∧ history.map Event.call = calls ∧
      Justified (Serves size) (past ++ history) ∧ Keeps size (past ++ history) d' := by
  induction calls generalizing past d with
  | nil => exact ⟨[], d, rfl, rfl, by rwa [append_nil], by rwa [append_nil]⟩
  | cons call calls ih =>
    obtain ⟨event, next, hstep, hcall, hserves, hkeeps⟩ := h.step call
    obtain ⟨history, d', hrun, hcalls, hjustified, hlast⟩ := ih hkeeps (hpast.snoc hserves)
    refine ⟨event :: history, d', ?_, ?_, ?_, ?_⟩
    · rw [StreamDevice.run]
      exact bind_eq_ok.2 ⟨_, hstep, bind_eq_ok.2 ⟨_, hrun, rfl⟩⟩
    · rw [map_cons, hcall, hcalls]
    · rwa [append_assoc, singleton_append] at hjustified
    · rwa [append_assoc, singleton_append] at hlast

lemma Keeps.delivered (h : Keeps size past d) :
    StreamDevice.delivered past <+: StreamDevice.accepted past := by
  obtain ⟨-, xs, -, hsplit⟩ := h
  exact ⟨xs.reverse, hsplit.symm⟩

/-- Whatever calls are made, a device is a bounded pipe that loses nothing. -/
theorem lossless_of_run (mBuffer : Buffer) (hsize : 1 ≤ mBuffer.bytes.length)
    (calls : List Call) :
    ∃ history d, run calls (create mBuffer) = .ok (history, d) ∧ history.map Event.call = calls ∧
      Lossless mBuffer.bytes.length history := by
  obtain ⟨history, d, hrun, hcalls, hserves, hkeeps⟩ :=
    (keeps_create hsize).run Justified.nil calls
  exact ⟨history, d, hrun, hcalls, hserves, hkeeps.delivered⟩

def threeBytes : Buffer := ⟨[0, 0, 0], by decide⟩

/-- A write that does not fit, and a read that goes around the end of the array. -/
theorem lossless_threeBytes :
    ∃ history d, run [.write [1, 2], .read 1, .write [3, 4, 5], .read 9] (create threeBytes) =
        .ok (history, d) ∧
      history.map Event.call = [.write [1, 2], .read 1, .write [3, 4, 5], .read 9] ∧
      Lossless 3 history :=
  lossless_of_run threeBytes (by decide) _

end StreamDevice
end dev
end BezOS
