import BezOS.Memory.TlsfRuns

/-!
# Splitting at many points

`splitv` cuts an allocation at the given points, into blocks it writes to the results, or changes
nothing. Only a span of results that is one too short is not found out: the check compares it with
the number of points, and the last block is written behind its end.
-/

namespace BezOS
namespace Tlsf

open Lib List

variable {h h' : TlsfHeap} {l t : List Region} {r : Region} {points : List Nat} {results : Results}
  {ranges : List AnyRange} {ds : List BlockPtr}

/-- The bytes from `front` to `back`, cut at the points. -/
def cutPieces (front back : Nat) : List Nat → List Piece
  | [] => [⟨front, back - front, true⟩]
  | point :: points => ⟨front, point - front, true⟩ :: cutPieces point back points

lemma pieces_cutRegions (b : BlockPtr) (front back : Nat) (hlen : ds.length = points.length) :
    pieces (cutRegions b front back (ds.zip points)) = cutPieces front back points := by
  induction points generalizing b front ds with
  | nil =>
    obtain rfl : ds = [] := length_eq_zero_iff.1 hlen
    rfl
  | cons point points ih =>
    obtain ⟨d, ds, rfl⟩ := exists_cons_of_length_eq_add_one hlen
    rw [zip_cons_cons, cutRegions, pieces_cons, cutPieces, ih d point (by simpa using hlen)]
    rfl

lemma blocksOf_cutRegions (b : BlockPtr) (front back : Nat) (hlen : ds.length = points.length) :
    blocksOf (cutRegions b front back (ds.zip points)) = b :: ds := by
  induction points generalizing b front ds with
  | nil =>
    obtain rfl : ds = [] := length_eq_zero_iff.1 hlen
    rfl
  | cons point points ih =>
    obtain ⟨d, ds, rfl⟩ := exists_cons_of_length_eq_add_one hlen
    rw [zip_cons_cons, cutRegions, blocksOf_cons, ih d point (by simpa using hlen)]

/-- On success the points and the span are right, the results are the blocks into which the
allocation was cut, and the rest of the heap is as it was; on failure the heap is unchanged. -/
def SplitvExact (h : TlsfHeap) (l : List Region) (r : Region) (t : List Region)
    (points : List Nat) (results : Results) :
    Except Fault ((OsStatus × Results) × TlsfHeap) → Prop
  | .ok ((.success, results'), h') =>
    CutPoints r.offset (r.offset + r.size) points ∧ points.length + 1 ≤ results.length ∧
      ∃ parts, h'.regions = l ++ parts ++ t ∧
        pieces parts = cutPieces r.offset (r.offset + r.size) points ∧
        results' = (blocksOf parts).map some ++ results.drop (points.length + 1)
  | .ok (_, h') => Unchanged h h'
  | .error _ => False

end Tlsf
end BezOS
