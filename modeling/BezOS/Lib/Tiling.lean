import Mathlib.Algebra.GroupWithZero.Nat
import Mathlib.Data.List.Basic
import Mathlib.Data.List.Chain
import Mathlib.Data.List.Perm.Basic
import Mathlib.Data.List.Sort
import Mathlib.Tactic.Common

/-!
# Tilings of an interval

An interval cut into pieces that follow each other without a gap, each free or used. The last
piece is free and may be empty; no other one is empty. When no two neighbours are free, the used
pieces determine the rest: the free ones are what lies between them.
-/

namespace BezOS
namespace Lib

open List

structure Piece where
  offset : Nat
  size : Nat
  used : Bool
  deriving DecidableEq

/-- The pieces follow each other from `o` on. -/
def Tiles : Nat → List Piece → Prop
  | _, [] => True
  | o, p :: ps => p.offset = o ∧ Tiles (o + p.size) ps

def extent (ps : List Piece) : Nat := (ps.map Piece.size).sum

def live (ps : List Piece) : List Piece := ps.filter Piece.used

/-- Some used piece holds the place `a`. -/
def UsedAt (ps : List Piece) (a : Nat) : Prop :=
  ∃ p ∈ live ps, p.offset ≤ a ∧ a < p.offset + p.size

variable {o base size : Nat} {p q : Piece} {ps x y : List Piece}

@[simp] lemma extent_nil : extent [] = 0 := rfl

@[simp] lemma extent_cons : extent (p :: ps) = p.size + extent ps := rfl

@[simp] lemma extent_append : extent (x ++ y) = extent x + extent y := by
  simp [extent]

@[simp] lemma live_nil : live [] = [] := rfl

@[simp] lemma live_append : live (x ++ y) = live x ++ live y := filter_append ..

lemma live_cons_used (h : p.used = true) : live (p :: ps) = p :: live ps :=
  filter_cons_of_pos h

lemma live_cons_free (h : p.used = false) : live (p :: ps) = live ps :=
  filter_cons_of_neg (by simp [h])

lemma tiles_append : Tiles o (x ++ y) ↔ Tiles o x ∧ Tiles (o + extent x) y := by
  induction x generalizing o with
  | nil => simp [Tiles]
  | cons p x ih => simp [Tiles, ih, and_assoc, Nat.add_assoc]

lemma tiles_middle : Tiles o (x ++ p :: y) ↔
    Tiles o x ∧ p.offset = o + extent x ∧ Tiles (o + extent x + p.size) y := by
  rw [tiles_append]
  rfl

lemma Tiles.bounds (h : Tiles o ps) (hp : p ∈ ps) :
    o ≤ p.offset ∧ p.offset + p.size ≤ o + extent ps := by
  obtain ⟨x, y, rfl⟩ := append_of_mem hp
  obtain ⟨-, hoffset, -⟩ := tiles_middle.1 h
  simp only [extent_append, extent_cons]
  omega

lemma Tiles.exists_at {a : Nat} (h : Tiles o ps) (ha : o ≤ a) (ha' : a < o + extent ps) :
    ∃ p ∈ ps, p.offset ≤ a ∧ a < p.offset + p.size := by
  induction ps generalizing o with
  | nil =>
    rw [extent_nil] at ha'
    omega
  | cons p ps ih =>
    obtain ⟨hoffset, h⟩ := h
    rw [extent_cons] at ha'
    by_cases hp : a < o + p.size
    · exact ⟨p, by simp, by omega, by omega⟩
    · obtain ⟨q, hq, hbounds⟩ := ih h (by omega) (by omega)
      exact ⟨q, mem_cons_of_mem _ hq, hbounds⟩

lemma Tiles.pairwise (h : Tiles o ps) :
    ps.Pairwise fun p q => p.offset + p.size ≤ q.offset := by
  induction ps generalizing o with
  | nil => exact .nil
  | cons p ps ih =>
    obtain ⟨hoffset, h⟩ := h
    refine pairwise_cons.2 ⟨fun q hq => ?_, ih h⟩
    have hbounds := h.bounds hq
    omega

/-- The pieces fill `size` places from `base` on, and only the last one may be empty. -/
structure Tiling (base size : Nat) (ps : List Piece) : Prop where
  tiles : Tiles base ps
  extent : extent ps = size
  positive : ∀ p ∈ ps.dropLast, 0 < p.size

/-- No two neighbours are free. -/
def Coalesced (ps : List Piece) : Prop := ps.IsChain fun p q => p.used = true ∨ q.used = true

/-- A tiling without free neighbours whose last piece is free. -/
structure Packed (base size : Nat) (ps : List Piece) : Prop extends Tiling base size ps where
  coalesced : Coalesced ps
  last : ∃ p, ps.getLast? = some p ∧ p.used = false

namespace Tiling

lemma bounds (h : Tiling base size ps) (hp : p ∈ ps) :
    base ≤ p.offset ∧ p.offset + p.size ≤ base + size := by
  rw [← h.extent]
  exact h.tiles.bounds hp

lemma positive_of_append (h : Tiling base size (x ++ y)) (hy : y ≠ []) (hp : p ∈ x) :
    0 < p.size := by
  refine h.positive p ?_
  rw [dropLast_append_of_ne_nil hy]
  exact mem_append_left _ hp

lemma congr (h : Tiling base size (x ++ p :: y)) (hoffset : q.offset = p.offset)
    (hsize : q.size = p.size) : Tiling base size (x ++ q :: y) := by
  obtain ⟨htiles, hextent, hpositive⟩ := h
  refine ⟨?_, ?_, ?_⟩
  · rw [tiles_middle] at htiles ⊢
    rwa [hoffset, hsize]
  · simpa [hsize] using hextent
  · intro r hr
    cases y with
    | nil =>
      refine hpositive r ?_
      simpa using hr
    | cons z y =>
      rw [dropLast_append_of_ne_nil (by simp)] at hr hpositive
      rcases mem_append.1 hr with hr | hr
      · exact hpositive r (by simp [hr])
      · rcases mem_cons.1 hr with rfl | hr
        · rw [hsize]
          exact hpositive p (by simp)
        · exact hpositive r (by simp [hr])

lemma join {r : Piece} (h : Tiling base size (x ++ p :: q :: y)) (hoffset : r.offset = p.offset)
    (hsize : r.size = q.size + p.size) : Tiling base size (x ++ r :: y) := by
  have hpos : 0 < p.size := by
    have h' : Tiling base size ((x ++ [p]) ++ q :: y) := by simpa using h
    exact h'.positive_of_append (by simp) (by simp)
  obtain ⟨htiles, hextent, hpositive⟩ := h
  refine ⟨?_, ?_, ?_⟩
  · rw [tiles_middle] at htiles ⊢
    obtain ⟨hx, hp, -, hy⟩ := htiles
    refine ⟨hx, hoffset.trans hp, ?_⟩
    rwa [hsize, Nat.add_comm q.size, ← Nat.add_assoc]
  · simp only [extent_append, extent_cons] at hextent ⊢
    omega
  · intro s hs
    cases y with
    | nil =>
      refine hpositive s ?_
      rw [dropLast_append_of_ne_nil (by simp)]
      simp only [dropLast_concat] at hs
      simp [hs]
    | cons z y =>
      rw [dropLast_append_of_ne_nil (by simp)] at hs hpositive
      simp only [dropLast_cons_cons, mem_append, mem_cons] at hs hpositive
      rcases hs with hs | rfl | hs
      · exact hpositive s (.inl hs)
      · omega
      · exact hpositive s (.inr (.inr (.inr hs)))

lemma cut {r : Piece} (h : Tiling base size (x ++ p :: y)) (hp : q.offset = p.offset)
    (hr : r.offset = p.offset + q.size) (hsize : q.size + r.size = p.size) (hq : 0 < q.size)
    (hpos : y ≠ [] → 0 < r.size) : Tiling base size (x ++ q :: r :: y) := by
  obtain ⟨htiles, hextent, hpositive⟩ := h
  refine ⟨?_, ?_, ?_⟩
  · rw [tiles_middle] at htiles ⊢
    obtain ⟨hx, hpo, hy⟩ := htiles
    refine ⟨hx, hp.trans hpo, ?_, ?_⟩
    · omega
    · rwa [Nat.add_assoc, hsize]
  · simp only [extent_append, extent_cons] at hextent ⊢
    omega
  · intro s hs
    rw [dropLast_append_of_ne_nil (by simp), dropLast_cons_cons] at hs
    rcases mem_append.1 hs with hs | hs
    · exact hpositive s (by simp [hs])
    · rcases mem_cons.1 hs with rfl | hs
      · exact hq
      · cases y with
        | nil => cases hs
        | cons z y =>
          rcases mem_cons.1 hs with rfl | hs
          · exact hpos (by simp)
          · exact hpositive s (by simp [hs])

end Tiling

/-- What is left in front of a piece cut out at `o` of one that starts at `front`. -/
def padding (front o : Nat) : List Piece := if o = front then [] else [⟨front, o - front, false⟩]

/-- What is left behind a piece cut out up to `e` of one that ends at `back`; the last piece of a
tiling leaves one even if it has no places. -/
def remainder (e back : Nat) (last : Bool) : List Piece :=
  if e = back ∧ last = false then [] else [⟨e, back - e, false⟩]

lemma free_of_mem_padding {front : Nat} (hp : p ∈ padding front o) : p.used = false := by
  rw [padding] at hp
  split at hp
  · cases hp
  · rw [mem_singleton.1 hp]

lemma free_of_mem_remainder {e back : Nat} {last : Bool} (hp : p ∈ remainder e back last) :
    p.used = false := by
  rw [remainder] at hp
  split at hp
  · cases hp
  · rw [mem_singleton.1 hp]

lemma Tiling.carve {o s : Nat} (h : Tiling base size (x ++ p :: y)) (hs : 0 < s)
    (ho : p.offset ≤ o) (he : o + s ≤ p.offset + p.size) :
    Tiling base size (x ++ padding p.offset o ++
      ⟨o, s, true⟩ :: (remainder (o + s) (p.offset + p.size) (decide (y = [])) ++ y)) := by
  -- First the places behind the new piece go, then those in front of it.
  have htail : Tiling base size (x ++ ⟨p.offset, o - p.offset + s, true⟩ ::
      (remainder (o + s) (p.offset + p.size) (decide (y = [])) ++ y)) := by
    rw [remainder]
    split
    case isTrue hend => exact h.congr rfl (by show o - p.offset + s = p.size; omega)
    case isFalse hend =>
      refine h.cut rfl ?_ ?_ ?_ ?_
      · show o + s = p.offset + (o - p.offset + s)
        omega
      · show o - p.offset + s + (p.offset + p.size - (o + s)) = p.size
        omega
      · show 0 < o - p.offset + s
        omega
      · intro hy
        show 0 < p.offset + p.size - (o + s)
        simp only [hy, decide_false, and_true] at hend
        omega
  rw [padding]
  split
  case isTrue hfront =>
    rw [append_nil]
    exact htail.congr hfront (by show s = o - p.offset + s; omega)
  case isFalse hfront =>
    rw [append_assoc]
    refine htail.cut rfl ?_ rfl ?_ fun _ => hs
    · show o = p.offset + (o - p.offset)
      omega
    · show 0 < o - p.offset
      omega

lemma coalesced_middle : Coalesced (x ++ p :: y) ↔ Coalesced x ∧ Coalesced y ∧
    (∀ a ∈ x.getLast?, a.used = true ∨ p.used = true) ∧
    (∀ b ∈ y.head?, p.used = true ∨ b.used = true) := by
  rw [Coalesced, isChain_append, isChain_cons]
  simp only [Coalesced, head?_cons, Option.mem_def, Option.some.injEq, forall_eq']
  tauto

lemma coalesced_used (hp : p.used = true) :
    Coalesced (x ++ p :: y) ↔ Coalesced x ∧ Coalesced y := by
  simp [coalesced_middle, hp]

lemma Coalesced.carve {o s back : Nat} {last : Bool} (h : Coalesced (x ++ p :: y))
    (hp : p.used = false) : Coalesced (x ++ padding p.offset o ++
      ⟨o, s, true⟩ :: (remainder (o + s) back last ++ y)) := by
  obtain ⟨hx, hy, hlast, hhead⟩ := coalesced_middle.1 h
  rw [coalesced_used rfl]
  constructor
  · rw [padding]
    split
    case isTrue => simpa using hx
    case isFalse =>
      refine coalesced_middle.2 ⟨hx, .nil, fun a ha => .inl ?_, by simp⟩
      exact (hlast a ha).resolve_right (by simp [hp])
  · rw [remainder]
    split
    case isTrue => exact hy
    case isFalse =>
      refine (coalesced_middle).2 ⟨.nil, hy, by simp, fun b hb => .inr ?_⟩
      exact (hhead b hb).resolve_left (by simp [hp])

namespace Packed

lemma live_positive (h : Packed base size ps) (hp : p ∈ live ps) : 0 < p.size := by
  obtain ⟨hmem, hused⟩ := mem_filter.1 hp
  obtain ⟨q, hlast, hfree⟩ := h.last
  obtain ⟨init, rfl⟩ : ∃ init, ps = init ++ [q] := by
    rcases eq_nil_or_concat ps with rfl | ⟨init, z, rfl⟩
    · cases hlast
    · refine ⟨init, ?_⟩
      simpa using hlast
  refine h.positive p ?_
  rw [dropLast_concat]
  rcases mem_append.1 hmem with hmem | hmem
  · exact hmem
  · rw [mem_singleton] at hmem
    rw [hmem, hfree] at hused
    cases hused

lemma tail (h : Packed base size (p :: ps)) (hps : ps ≠ []) :
    Packed (base + p.size) (size - p.size) ps := by
  obtain ⟨⟨htiles, hextent, hpositive⟩, hcoalesced, hlast⟩ := h
  rw [extent_cons] at hextent
  refine ⟨⟨htiles.2, by omega, fun q hq => hpositive q ?_⟩, hcoalesced.tail, ?_⟩
  · rw [dropLast_cons_of_ne_nil hps]
    exact mem_cons_of_mem _ hq
  · rwa [getLast?_cons_of_ne_nil hps] at hlast

lemma live_of_free (h : Packed base size (p :: ps)) (hp : p.used = false) :
    (ps = [] ∧ p.size = size) ∨
      ∃ q rest, ps = q :: rest ∧ q.used = true ∧ 0 < p.size ∧ q.offset = base + p.size := by
  cases ps with
  | nil =>
    left
    have hextent := h.extent
    simp only [extent_cons, extent_nil] at hextent
    exact ⟨rfl, by omega⟩
  | cons q rest =>
    right
    have hchain := h.coalesced
    rw [Coalesced, isChain_cons_cons, hp] at hchain
    refine ⟨q, rest, rfl, by simpa using hchain.1, ?_, h.tiles.2.1⟩
    exact h.positive p (by simp)

lemma unique (hx : Packed base size x) (hy : Packed base size y) (hlive : live x = live y) :
    x = y := by
  induction x generalizing base size y with
  | nil =>
    obtain ⟨p, hlast, -⟩ := hx.last
    cases hlast
  | cons p x ih =>
    cases y with
    | nil =>
      obtain ⟨q, hlast, -⟩ := hy.last
      cases hlast
    | cons q y =>
      have hpo : p.offset = base := hx.tiles.1
      have hqo : q.offset = base := hy.tiles.1
      have hlastUsed : ∀ {p : Piece} {ps : List Piece}, Packed base size (p :: ps) →
          p.used = true → ps ≠ [] := by
        rintro p _ hps hused rfl
        obtain ⟨r, hlast, hfree⟩ := hps.last
        simp only [getLast?_singleton, Option.some.injEq] at hlast
        rw [hlast, hfree] at hused
        cases hused
      cases hp : p.used with
      | true =>
        cases hq : q.used with
        | true =>
          rw [live_cons_used hp, live_cons_used hq, List.cons.injEq] at hlive
          obtain ⟨rfl, hlive⟩ := hlive
          rw [ih (hx.tail (hlastUsed hx hp)) (hy.tail (hlastUsed hy hq)) hlive]
        | false =>
          rw [live_cons_used hp, live_cons_free hq] at hlive
          rcases hy.live_of_free hq with ⟨rfl, -⟩ | ⟨r, rest, rfl, hr, hpos, hoffset⟩
          · cases hlive
          · rw [live_cons_used hr, List.cons.injEq] at hlive
            rw [← hlive.1] at hoffset
            omega
      | false =>
        cases hq : q.used with
        | true =>
          rw [live_cons_used hq, live_cons_free hp] at hlive
          rcases hx.live_of_free hp with ⟨rfl, -⟩ | ⟨r, rest, rfl, hr, hpos, hoffset⟩
          · cases hlive
          · rw [live_cons_used hr, List.cons.injEq] at hlive
            rw [hlive.1] at hoffset
            omega
        | false =>
          -- Both start with a free piece: its end is where the first used piece starts.
          rw [live_cons_free hp, live_cons_free hq] at hlive
          have hpq : ∀ (hsize : p.size = q.size), p = q := fun hsize => by
            cases p
            cases q
            simp_all
          rcases hx.live_of_free hp with ⟨rfl, hps⟩ | ⟨r, rest, rfl, hr, -, hroffset⟩
          · rcases hy.live_of_free hq with ⟨rfl, hqs⟩ | ⟨r, rest, rfl, hr, -, -⟩
            · rw [hpq (by omega)]
            · rw [live_cons_used hr] at hlive
              cases hlive
          · rcases hy.live_of_free hq with ⟨rfl, -⟩ | ⟨r', rest', rfl, hr', -, hroffset'⟩
            · rw [live_cons_used hr] at hlive
              cases hlive
            · have hhead : r = r' := by
                rw [live_cons_used hr, live_cons_used hr', List.cons.injEq] at hlive
                exact hlive.1
              obtain rfl := hpq (by rw [hhead] at hroffset; omega)
              rw [ih (hx.tail (by simp)) (hy.tail (by simp)) hlive]

end Packed

end Lib
end BezOS
