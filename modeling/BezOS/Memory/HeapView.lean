import Mathlib.Data.List.Perm.Basic
import BezOS.Status
import BezOS.Memory.Range

/-!
# What a client sees of a tlsf heap

The managers of `system/` hold allocations of a `GenericTlsfHeap` and only ever read their
ranges. `HeapView` is the heap at that level: the ranges handed out and the answers its
control-block pool will give to the next requests (a request past the last answer is refused).
A live allocation is identified with its range, which no two live allocations share.
-/

namespace BezOS

structure HeapView where
  used : List AnyRange
  answers : List Bool
  deriving DecidableEq

namespace HeapView

/-- `PoolAllocator::construct`. -/
def request (h : HeapView) : Bool × HeapView :=
  match h.answers with
  | [] => (false, h)
  | granted :: rest => (granted, { h with answers := rest })

/-- The effect of `TlsfHeap::splitBlock` on the live ranges. -/
def cut (h : HeapView) (ptr : AnyRange) (midpoint : Nat) : AnyRange × AnyRange × HeapView :=
  let lo : AnyRange := ⟨ptr.front, midpoint⟩
  let hi : AnyRange := ⟨midpoint, ptr.back⟩
  (lo, hi, { h with used := lo :: hi :: h.used.erase ptr })

def split (h : HeapView) (ptr : AnyRange) (midpoint : Nat) :
    Except OsStatus (AnyRange × AnyRange) × HeapView :=
  if midpoint < ptr.front ∨ ptr.back ≤ midpoint then (.error .invalidInput, h)
  else if midpoint - ptr.front = 0 then (.error .invalidInput, h)
  else
    match h.request with
    | (false, h) => (.error .outOfMemory, h)
    | (true, h) =>
        let (lo, hi, h) := h.cut ptr midpoint
        (.ok (lo, hi), h)

/-- The block requests of `TlsfHeap::splitv`; a refusal gives back what was granted. -/
def requestMany : Nat → HeapView → Bool × HeapView
  | 0, h => (true, h)
  | n + 1, h =>
      match h.request with
      | (false, h) => (false, h)
      | (true, h) => requestMany n h

/-- The splits of `TlsfHeap::splitv`, from the lowest point up. -/
def cutMany (h : HeapView) (ptr : AnyRange) : List Nat → List AnyRange × HeapView
  | [] => ([ptr], h)
  | p :: ps =>
      let (lo, hi, h) := h.cut ptr p
      let (rest, h) := cutMany h hi ps
      (lo :: rest, h)

/-- `TlsfHeap::splitv` with a results span of `results` elements. -/
def splitv (h : HeapView) (ptr : AnyRange) (points : List Nat) (results : Nat) :
    Except OsStatus (List AnyRange) × HeapView :=
  if points = [] then (.error .invalidInput, h)
  else if points.length ≥ results + 1 then (.error .invalidInput, h)
  else if ¬ points.IsChain (· ≤ ·) then (.error .invalidInput, h)
  else if ¬ points.IsChain (· ≠ ·) then (.error .invalidInput, h)
  else if ¬ ∀ p ∈ points, ptr.contains p ∧ ptr.front ≠ p ∧ ptr.back ≠ p then (.error .invalidInput, h)
  else
    match h.requestMany points.length with
    | (false, h) => (.error .outOfMemory, h)
    | (true, h) =>
        let (parts, h) := h.cutMany ptr points
        (.ok parts, h)

/-- `TlsfHeap::commitSplitBlock` with a block reserved earlier; `splitBlock` asserts that both
parts are non-empty. -/
def commitSplit (h : HeapView) (ptr : AnyRange) (midpoint : Nat) :
    Except Fault (AnyRange × AnyRange × HeapView) :=
  if ptr.front < midpoint ∧ midpoint < ptr.back then .ok (h.cut ptr midpoint)
  else .error .bugCheck

def free (h : HeapView) (ptr : AnyRange) : HeapView := { h with used := h.used.erase ptr }

end HeapView
end BezOS

/-!
## Splitting allocations as a client

What a client of the heap learns from a split: how many block requests the pool still grants, and
which live ranges were exchanged for which.
-/

namespace BezOS

open List

/-- Of the live ranges, `x` were replaced by `y`; all others are still there. -/
def Exchanges (h h' : HeapView) (x y : List AnyRange) : Prop :=
  ∀ l, h.used.Perm (x ++ l) → h'.used.Perm (y ++ l)

namespace Exchanges

variable {h h' h'' : HeapView} {x y z : List AnyRange}

lemma refl (h : HeapView) (x : List AnyRange) : Exchanges h h x x := fun _ hp => hp

lemma trans (h1 : Exchanges h h' x y) (h2 : Exchanges h' h'' y z) : Exchanges h h'' x z :=
  fun l hp => h2 l (h1 l hp)

lemma frame_right (h1 : Exchanges h h' x y) (z : List AnyRange) :
    Exchanges h h' (x ++ z) (y ++ z) := by
  intro l hp
  rw [append_assoc] at hp ⊢
  exact h1 (z ++ l) hp

lemma frame_left (h1 : Exchanges h h' x y) (z : List AnyRange) :
    Exchanges h h' (z ++ x) (z ++ y) := by
  intro l hp
  have hx : h.used.Perm (x ++ (z ++ l)) := by
    refine hp.trans ?_
    rw [← append_assoc]
    exact perm_append_comm.append_right l
  refine (h1 (z ++ l) hx).trans ?_
  rw [← append_assoc]
  exact perm_append_comm.append_right l

lemma perm {x' y' : List AnyRange} (hx : x'.Perm x) (hy : y.Perm y') (h1 : Exchanges h h' x y) :
    Exchanges h h' x' y' :=
  fun l hp => (h1 l (hp.trans (hx.append_right l))).trans (hy.append_right l)

lemma between {l r m l' r' m' : List AnyRange} (h1 : Exchanges h h' (l ++ r) (l' ++ r'))
    (h2 : Exchanges h' h'' m m') : Exchanges h h'' (l ++ (m ++ r)) (l' ++ (m' ++ r')) := by
  have hcomm : ∀ a b c : List AnyRange, (a ++ (b ++ c)).Perm ((a ++ c) ++ b) := by
    intro a b c
    rw [append_assoc]
    have hbc : (b ++ c).Perm (c ++ b) := perm_append_comm
    exact hbc.append_left a
  exact ((h1.frame_right m).trans (h2.frame_left _)).perm (hcomm l m r) (hcomm l' m' r').symm

lemma of_used_eq (heq : h'.used = h.used) (x : List AnyRange) : Exchanges h h' x x := by
  intro l hp
  rwa [heq]

lemma cut (h : HeapView) (x : AnyRange) (mid : Nat) :
    Exchanges h (h.cut x mid).2.2 [x] [⟨x.front, mid⟩, ⟨mid, x.back⟩] := by
  intro l hp
  have herase : (h.used.erase x).Perm l := by
    simpa using hp.erase x
  simpa [HeapView.cut] using herase

end Exchanges

/-- The number of block requests the pool grants before it refuses one. -/
def granted (h : HeapView) : Nat := (h.answers.takeWhile id).length

lemma request_of_granted {h : HeapView} (hg : 0 < granted h) :
    ∃ h', h.request = (true, h') ∧ h'.used = h.used ∧ granted h' + 1 = granted h := by
  rcases h with ⟨used, _ | ⟨_ | _, answers⟩⟩
  · simp [granted] at hg
  · simp [granted] at hg
  · exact ⟨⟨used, answers⟩, by simp [HeapView.request], rfl, by simp [granted]⟩

lemma request_of_refused {h : HeapView} (hg : granted h = 0) :
    ∃ h', h.request = (false, h') ∧ h'.used = h.used := by
  rcases h with ⟨used, _ | ⟨_ | _, answers⟩⟩
  · exact ⟨⟨used, []⟩, by simp [HeapView.request], rfl⟩
  · exact ⟨⟨used, answers⟩, by simp [HeapView.request], rfl⟩
  · simp [granted] at hg

section Split

variable {h : HeapView} {x : AnyRange} {p q : Nat}

lemma split_of_granted (hp : x.front < p ∧ p < x.back) (hg : 0 < granted h) :
    ∃ h', h.split x p = (.ok (⟨x.front, p⟩, ⟨p, x.back⟩), h') ∧ granted h' + 1 = granted h ∧
      Exchanges h h' [x] [⟨x.front, p⟩, ⟨p, x.back⟩] := by
  obtain ⟨h1, hreq, hused, hgr⟩ := request_of_granted hg
  refine ⟨(h1.cut x p).2.2, ?_, hgr, (Exchanges.of_used_eq hused _).trans (.cut h1 x p)⟩
  have h1 : ¬ (p < x.front ∨ x.back ≤ p) := by omega
  have h2 : ¬ p - x.front = 0 := by omega
  simp only [HeapView.split, if_neg h1, if_neg h2, hreq]
  rfl

lemma split_of_refused (hp : x.front < p ∧ p < x.back) (hg : granted h = 0) :
    ∃ h', h.split x p = (.error .outOfMemory, h') ∧ h'.used = h.used := by
  obtain ⟨h1, hreq, hused⟩ := request_of_refused hg
  refine ⟨h1, ?_, hused⟩
  have h1 : ¬ (p < x.front ∨ x.back ≤ p) := by omega
  have h2 : ¬ p - x.front = 0 := by omega
  simp only [HeapView.split, if_neg h1, if_neg h2, hreq]

lemma split_of_outside (hp : p ≤ x.front ∨ x.back ≤ p) :
    h.split x p = (.error .invalidInput, h) := by
  by_cases h1 : p < x.front ∨ x.back ≤ p
  · simp only [HeapView.split, if_pos h1]
  · have h2 : p - x.front = 0 := by omega
    simp [HeapView.split, if_pos h2]

section

variable (hp : x.front < p ∧ p < q ∧ q < x.back)

include hp

private lemma splitv_checks :
    h.splitv x [p, q] 3 =
      match h.requestMany 2 with
      | (false, h) => (.error .outOfMemory, h)
      | (true, h) => (.ok (h.cutMany x [p, q]).1, (h.cutMany x [p, q]).2) := by
  have h1 : ¬ ¬ [p, q].IsChain (· ≤ ·) := by simp; omega
  have h2 : ¬ ¬ [p, q].IsChain (· ≠ ·) := by simp; omega
  have h3 : ¬ ¬ ∀ y ∈ [p, q], x.contains y ∧ x.front ≠ y ∧ x.back ≠ y := by
    simp only [mem_cons, not_mem_nil, or_false, forall_eq_or_imp, forall_eq,
      AnyRange.contains]
    omega
  simp only [HeapView.splitv, length_cons, length_nil, reduceCtorEq, if_false, if_neg h1,
    if_neg h2, if_neg h3]
  rfl

lemma splitv_of_granted (hg : 2 ≤ granted h) :
    ∃ h', h.splitv x [p, q] 3 = (.ok [⟨x.front, p⟩, ⟨p, q⟩, ⟨q, x.back⟩], h') ∧
      Exchanges h h' [x] [⟨x.front, p⟩, ⟨p, q⟩, ⟨q, x.back⟩] := by
  obtain ⟨h1, hreq1, hused1, hgr⟩ := request_of_granted (h := h) (by omega)
  obtain ⟨h2, hreq2, hused2, -⟩ := request_of_granted (h := h1) (by omega)
  refine ⟨(h2.cutMany x [p, q]).2, ?_, ?_⟩
  · rw [splitv_checks hp]
    simp only [HeapView.requestMany, hreq1, hreq2]
    rfl
  · have hcut1 := Exchanges.cut h2 x p
    have hcut2 := (Exchanges.cut (h2.cut x p).2.2 ⟨p, x.back⟩ q).frame_left [⟨x.front, p⟩]
    exact (Exchanges.of_used_eq (hused2.trans hused1) _).trans (hcut1.trans hcut2)

lemma splitv_of_refused (hg : granted h < 2) :
    ∃ h', h.splitv x [p, q] 3 = (.error .outOfMemory, h') ∧ h'.used = h.used := by
  rw [splitv_checks hp]
  by_cases h0 : granted h = 0
  · obtain ⟨h1, hreq, hused⟩ := request_of_refused h0
    exact ⟨h1, by simp only [HeapView.requestMany, hreq], hused⟩
  · obtain ⟨h1, hreq1, hused1, hgr⟩ := request_of_granted (h := h) (by omega)
    obtain ⟨h2, hreq2, hused2⟩ := request_of_refused (h := h1) (by omega)
    exact ⟨h2, by simp only [HeapView.requestMany, hreq1, hreq2], hused2.trans hused1⟩

end

end Split

end BezOS
