import Mathlib.Tactic.Common

/-!
# Address ranges

`AnyRange` of `memory/range.hpp`: a half-open range `[front, back)` of addresses. The source
instantiates it at pointer-sized address types and, in the functions below, only compares
addresses, so an address is its numeric value.
-/

namespace BezOS

structure AnyRange where
  front : Nat
  back : Nat
  deriving DecidableEq

namespace AnyRange

def size (r : AnyRange) : Nat := r.back - r.front

def isEmpty (r : AnyRange) : Prop := r.front = r.back
  deriving Decidable

def isValid (r : AnyRange) : Prop := r.front ≤ r.back
  deriving Decidable

/-- `contains(ValueType addr)`. -/
def contains (r : AnyRange) (addr : Nat) : Prop := r.front ≤ addr ∧ addr < r.back
  deriving Decidable

/-- `contains(AnyRange range)`. -/
def containsRange (r range : AnyRange) : Prop := r.front ≤ range.front ∧ range.back ≤ r.back
  deriving Decidable

lemma containsRange_iff {r s : AnyRange} :
    r.containsRange s ↔ r.front ≤ s.front ∧ s.back ≤ r.back := Iff.rfl

/-- The two early returns of the source, then `contains(front) ^ contains(back)`. -/
def overlaps (r range : AnyRange) : Prop :=
  (range.front = r.front ∧ range.back ≤ r.back) ∨ (range.back = r.back ∧ r.front ≤ range.front) ∨
    ¬ (r.contains range.front ↔ r.contains range.back)
  deriving Decidable

def intersects (r range : AnyRange) : Prop :=
  ¬ (range.front = r.back ∨ range.back = r.front) ∧
    (r.containsRange range ∨ r.contains range.front ∨ r.contains range.back ∨
      range.back = r.back)
  deriving Decidable

def intersection (a b : AnyRange) : AnyRange :=
  let front := max a.front b.front
  let back := min a.back b.back
  if back ≤ front then ⟨0, 0⟩ else ⟨front, back⟩

def outerAdjacent (a b : AnyRange) : Prop := a.back = b.front ∨ b.back = a.front
  deriving Decidable

def innerAdjacent (a b : AnyRange) : Prop := a.front = b.front ∨ a.back = b.back
  deriving Decidable

def interval (a b : AnyRange) : Prop :=
  outerAdjacent a b ∨ a.overlaps b ∨ a.containsRange b ∨ b.containsRange a
  deriving Decidable

/-! ## Set meaning -/

def Meets (a b : AnyRange) : Prop := a.front < b.back ∧ b.front < a.back
  deriving Decidable

lemma meets_iff_exists {a b : AnyRange} (ha : a.front < a.back) (hb : b.front < b.back) :
    Meets a b ↔ ∃ x, a.contains x ∧ b.contains x := by
  constructor
  · rintro ⟨h1, h2⟩
    refine ⟨max a.front b.front, ?_, ?_⟩ <;> simp only [contains] <;> omega
  · rintro ⟨x, hax, hbx⟩
    simp only [contains] at hax hbx
    exact ⟨by omega, by omega⟩

lemma intersects_iff_meets {r s : AnyRange} (hr : r.front < r.back) (hs : s.front < s.back)
    (h : ¬ (s.front < r.front ∧ r.back < s.back)) : r.intersects s ↔ Meets r s := by
  simp only [intersects, Meets, contains, containsRange]
  omega

end AnyRange
end BezOS
