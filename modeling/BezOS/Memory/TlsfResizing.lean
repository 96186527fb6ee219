import BezOS.Memory.TlsfRuns

/-!
# Resizing exactly

An allocation that is grown, shrunk or resized keeps its offset and gets the size asked for; the
other allocations stay and the free bytes change by the difference. `shrink` always does this.
`grow` does when it leaves some bytes of the block behind, and that block is the null block or goes
to another list.
-/

namespace BezOS
namespace Tlsf

open Lib

def freeBytes (rs : List Region) : Nat := ((rs.filter fun r => !r.used).map Region.size).sum

variable {h h' : TlsfHeap} {base : Nat} {rs l t rs' : List Region} {r n q : Region}
  {lists lists' : Nat → List BlockPtr} {spare : List BlockPtr} {size : Nat} {ranges : List AnyRange}

@[simp] lemma freeBytes_nil : freeBytes [] = 0 := rfl

@[simp] lemma freeBytes_append (x y : List Region) :
    freeBytes (x ++ y) = freeBytes x + freeBytes y := by
  simp [freeBytes]

lemma freeBytes_used (hr : r.used = true) : freeBytes (r :: rs) = freeBytes rs := by
  simp [freeBytes, hr]

lemma freeBytes_free (hr : r.used = false) : freeBytes (r :: rs) = r.size + freeBytes rs := by
  simp [freeBytes, hr]

lemma freeBytes_add_used (rs : List Region) :
    freeBytes rs + extent (pieces (usedRegions rs)) = extent (pieces rs) := by
  induction rs with
  | nil => rfl
  | cons r rs ih =>
    have hpiece : r.piece.size = r.size := rfl
    cases hr : r.used with
    | true =>
      rw [freeBytes_used hr, usedRegions_used hr, pieces_cons, pieces_cons, extent_cons, extent_cons]
      omega
    | false =>
      rw [freeBytes_free hr, usedRegions_free hr, pieces_cons, extent_cons, hpiece]
      omega

lemma Wellformed.freeBytes_exchange (hw : Wellformed h base (l ++ r :: t) lists spare)
    (hused : r.used = true) (hw' : Wellformed h' base rs' lists' spare) (hsize : h'.mSize = h.mSize)
    (hlive : usedRegions rs' = usedRegions l ++ q :: usedRegions t) :
    freeBytes rs' + q.size = freeBytes (l ++ r :: t) + r.size := by
  have hbytes := freeBytes_add_used (l ++ r :: t)
  have hbytes' := freeBytes_add_used rs'
  have hextent := hw.tiling.extent
  have hextent' := hw'.tiling.extent
  rw [usedRegions_append, usedRegions_used hused, pieces_append, pieces_cons, extent_append,
    extent_cons] at hbytes
  rw [hlive, pieces_append, pieces_cons, extent_append, extent_cons] at hbytes'
  have hr : r.piece.size = r.size := rfl
  have hq : q.piece.size = q.size := rfl
  omega

/-- The allocation `r` has become `size` bytes at `b`. -/
structure Resized (h : TlsfHeap) (l : List Region) (r : Region) (t : List Region) (size : Nat)
    (b : BlockPtr) (h' : TlsfHeap) : Prop where
  live : usedRegions h'.regions = usedRegions l ++ ⟨b, r.offset, size, true⟩ :: usedRegions t
  free : freeBytes h'.regions + size = freeBytes h.regions + r.size

/-- On success the allocation is resized, on failure the heap is unchanged. -/
def ExactResult (h : TlsfHeap) (l : List Region) (r : Region) (t : List Region) (size : Nat) :
    Except Fault ((OsStatus × Option BlockPtr) × TlsfHeap) → Prop
  | .ok ((.success, some b), h') => Resized h l r t size b h'
  | .ok ((status, none), h') => status ≠ .success ∧ Unchanged h h'
  | _ => False

/-- The three calls are exact on the allocation `r`, behind which the block `n` lies. -/
structure ResizesExactly (h : TlsfHeap) (l : List Region) (r n : Region) (t : List Region)
    (size : Nat) : Prop where
  grow : ExactResult h l r (n :: t) size (grow r.block size h)
  room : (∃ b h', Tlsf.grow r.block size h = .ok ((.success, some b), h')) ↔
    size = r.size ∨ (r.size < size ∧ n.used = false ∧ size - r.size ≤ n.size)
  shrink : ExactResult h l r (n :: t) size (shrink r.block size h)
  resize : ExactResult h l r (n :: t) size (resize r.block size h)

lemma Resized.same (hr : Represents h (l ++ r :: t) lists spare) (hused : r.used = true) :
    Resized h l r t r.size r.block h := by
  refine ⟨?_, rfl⟩
  rw [hr.regions_eq, usedRegions_append, usedRegions_used hused, ← hused]

lemma Resized.of_exchange (hw : Wellformed h base (l ++ r :: t) lists spare) (hused : r.used = true)
    (hw' : Wellformed h' base rs' lists' spare) (hsize : h'.mSize = h.mSize)
    (hlive : usedRegions rs' =
      usedRegions l ++ ⟨r.block, r.offset, size, true⟩ :: usedRegions t) :
    Resized h l r t size r.block h' := by
  have hfree := hw.freeBytes_exchange hused hw' hsize hlive
  refine ⟨?_, ?_⟩
  · rw [hw'.repr.regions_eq, hlive]
  · rw [hw'.repr.regions_eq, hw.repr.regions_eq]
    exact hfree

lemma shrink_exact (hw : Wellformed h base (l ++ r :: t) lists spare) (hused : r.used = true)
    (size : Nat) : ExactResult h l r t size (shrink r.block size h) := by
  have hout := shrink_run hw hused size
  generalize shrink r.block size h = result at hout
  cases hout with
  | same hsize =>
    rw [hsize]
    exact .same hw.repr hused
  | rejected => exact ⟨by decide, .refl h⟩
  | exhausted _ hsame => exact ⟨by decide, hsame⟩
  | shrunk _ hmSize hw' hlive => exact .of_exchange hw hused hw' hmSize hlive

section

variable (hw : Wellformed h base (l ++ r :: n :: t) lists spare) (hused : r.used = true)

include hw hused

lemma grow_exact (hcareful : GrowCareful h r.block size) :
    ExactResult h l r (n :: t) size (grow r.block size h) := by
  rw [growCareful_iff hw] at hcareful
  have hout := grow_run hw hused size
  generalize grow r.block size h = result at hout
  cases hout with
  | same hsize =>
    rw [hsize]
    exact .same hw.repr hused
  | smaller => exact ⟨by decide, .refl h⟩
  | blocked => exact ⟨by decide, .refl h⟩
  | grown hsize hfree hroom hnext hkeeps hw' =>
    refine .of_exchange hw hused hw' hkeeps.mSize ?_
    rw [usedRegions_append, usedRegions_used (r := { r with size := size }) hused,
      usedRegions_free rfl, usedRegions_free hfree, ← hused]
  | stale hsize hfree hroom hnull hindex =>
    exact absurd hindex ((hcareful hsize hfree (by omega)).2.resolve_left hnull)
  | doubled hsize hfree hexact =>
    have hlt := (hcareful hsize hfree (by omega)).1
    omega
  | panic hsize hfree hexact =>
    have hlt := (hcareful hsize hfree (by omega)).1
    omega

lemma grow_room (hcareful : GrowCareful h r.block size) :
    (∃ b h', grow r.block size h = .ok ((.success, some b), h')) ↔
      size = r.size ∨ (r.size < size ∧ n.used = false ∧ size - r.size ≤ n.size) := by
  rw [growCareful_iff hw] at hcareful
  have hout := grow_run hw hused size
  generalize grow r.block size h = result at hout
  cases hout with
  | same hsize => exact ⟨fun _ => .inl hsize, fun _ => ⟨_, _, rfl⟩⟩
  | smaller hsize =>
    constructor
    · rintro ⟨b, h', heq⟩
      cases heq
    · omega
  | blocked hsize hnext =>
    constructor
    · rintro ⟨b, h', heq⟩
      cases heq
    · rintro (heq | ⟨-, hfree, hroom⟩)
      · omega
      · rcases hnext with hn | hn
        · rw [hfree] at hn
          cases hn
        · omega
  | grown hsize hfree hroom => exact ⟨fun _ => .inr ⟨hsize, hfree, by omega⟩, fun _ => ⟨_, _, rfl⟩⟩
  | stale hsize hfree hroom => exact ⟨fun _ => .inr ⟨hsize, hfree, by omega⟩, fun _ => ⟨_, _, rfl⟩⟩
  | doubled hsize hfree hexact =>
    exact ⟨fun _ => .inr ⟨hsize, hfree, by omega⟩, fun _ => ⟨_, _, rfl⟩⟩
  | panic hsize hfree hexact =>
    have hlt := (hcareful hsize hfree (by omega)).1
    omega

lemma growCareful_of_exact (hexact : ExactResult h l r (n :: t) size (grow r.block size h)) :
    GrowCareful h r.block size := by
  rw [growCareful_iff hw]
  intro hsize hfree hroom
  have hout := grow_run hw hused size
  generalize grow r.block size h = result at hout hexact
  cases hout with
  | same => omega
  | smaller => omega
  | blocked _ hnext =>
    rcases hnext with hn | hn
    · rw [hfree] at hn
      cases hn
    · omega
  | grown _ _ hroom' hnext => exact ⟨hroom', hnext⟩
  | stale _ _ _ _ _ hr =>
    -- The free block keeps its size, so no free byte is gone.
    exfalso
    have hbytes := hexact.free
    rw [hr.regions_eq, hw.repr.regions_eq, freeBytes_append, freeBytes_append,
      freeBytes_used (r := { r with size := size }) hused, freeBytes_used hused,
      freeBytes_free (r := { n with offset := n.offset + (size - r.size) }) hfree,
      freeBytes_free hfree] at hbytes
    simp only at hbytes
    omega
  | doubled _ _ _ hnull hr =>
    -- The allocation has the bytes of the block behind it twice.
    exfalso
    have hlive := hexact.live
    rw [hr.regions_eq, usedRegions_append, usedRegions_used rfl] at hlive
    have hhead := List.append_cancel_left hlive
    simp only [List.cons.injEq, Region.mk.injEq] at hhead
    omega
  | panic => exact hexact.elim

end

end Tlsf
end BezOS
