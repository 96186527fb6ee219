import Mathlib.Data.List.TakeDrop
import Mathlib.Tactic.Common

/-!
# Growable arrays

Reads are clipped at the end of the array and writes grow it, with a fill element up to where they
begin. `splice` is the write to a memory of fixed length; the last theorem says when the elements of
a memory follow the array it keeps.
-/

namespace BezOS
namespace Lib

open List

variable {α : Type*}

/-- The elements of `a` in `[offset, offset + count)`, as far as there are any. -/
def readAt (a : List α) (offset count : Nat) : List α := (a.drop offset).take count

/-- `a` with `xs` from `offset` on, after `fill` up to there. -/
def writeAt (fill : α) (a : List α) (offset : Nat) (xs : List α) : List α :=
  a.take offset ++ replicate (offset - a.length) fill ++ xs ++ a.drop (offset + xs.length)

/-- The memory with `xs` in place of what was at `offset`. -/
def splice (memory : List α) (offset : Nat) (xs : List α) : List α :=
  memory.take offset ++ xs ++ memory.drop (offset + xs.length)

variable {fill : α} {a xs memory : List α} {offset count : Nat}

lemma length_readAt : (readAt a offset count).length = min count (a.length - offset) := by
  rw [readAt, length_take, length_drop]

lemma readAt_clip : readAt a offset (min count (a.length - offset)) = readAt a offset count := by
  rw [readAt, readAt, ← length_drop, ← take_take, take_length]

lemma length_writeAt :
    (writeAt fill a offset xs).length = max a.length (offset + xs.length) := by
  simp only [writeAt, length_append, length_take, length_replicate,
    length_drop]
  omega

lemma length_splice (h : offset + xs.length ≤ memory.length) :
    (splice memory offset xs).length = memory.length := by
  simp only [splice, length_append, length_take, length_drop]
  omega

lemma splice_nil : splice memory offset [] = memory := by
  simp [splice]

lemma take_splice_zero (memory xs : List α) : (splice memory 0 xs).take xs.length = xs := by
  rw [splice, take_zero, nil_append, take_left]

lemma drop_splice_zero (memory xs : List α) :
    (splice memory 0 xs).drop xs.length = memory.drop xs.length := by
  rw [splice, take_zero, nil_append, drop_left, Nat.zero_add]

lemma readAt_take {size : Nat} (h : offset + size ≤ count) :
    readAt (memory.take count) offset size = readAt memory offset size := by
  rw [readAt, readAt, drop_take, take_take, Nat.min_eq_left (by omega)]

lemma take_eq_append (memory : List α) (count offset : Nat) :
    memory.take offset =
      (memory.take count).take offset ++ (memory.drop count).take (offset - count) := by
  rcases Nat.le_total offset count with hle | hle
  · rw [Nat.sub_eq_zero_of_le hle, take_zero, append_nil, take_take,
      Nat.min_eq_left hle]
  · obtain ⟨extra, rfl⟩ := Nat.exists_eq_add_of_le hle
    rw [take_take, Nat.min_eq_right hle, Nat.add_sub_cancel_left, take_add]

lemma take_splice_iff (hcount : count ≤ memory.length)
    (hroom : offset + xs.length ≤ memory.length) :
    (splice memory offset xs).take (max count (offset + xs.length)) =
        writeAt fill (memory.take count) offset xs ↔
      (memory.drop count).take (offset - count) = replicate (offset - count) fill := by
  have hlength : (memory.take offset ++ xs).length = offset + xs.length := by
    rw [length_append, length_take, Nat.min_eq_left (by omega)]
  have hrest : max count (offset + xs.length) - (offset + xs.length) =
      count - (offset + xs.length) := by omega
  have hkept : (splice memory offset xs).take (max count (offset + xs.length)) =
      memory.take offset ++ xs ++ (memory.take count).drop (offset + xs.length) := by
    rw [splice, take_append, hlength, hrest, drop_take, take_of_length_le]
    omega
  rw [hkept, writeAt, length_take, Nat.min_eq_left hcount, take_eq_append memory count offset]
  simp

end Lib
end BezOS
