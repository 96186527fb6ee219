import BezOS.Posix.String

/-!
# What the string routines leave in memory

The strings of a memory, and what the copying loops make of it. `memmove`, `strcat` and `strncat`
do what the C standard asks. `strcpy` and `strncpy` return the end of the copy instead of its start;
the one writes no terminator and the other no padding.
-/

namespace BezOS
namespace Posix

open Lib Function List Nat

variable {m m' : Nat → UInt8} {p dst src n fuel : Nat} {c : UInt8} {s t d : List UInt8}

/-! ## Strings -/

/-- The string stands at the address, with its terminator. -/
def Str (m : Nat → UInt8) : Nat → List UInt8 → Prop
  | p, [] => m p = 0
  | p, c :: s => m p = c ∧ c ≠ 0 ∧ Str m (p + 1) s

instance Str.decidable (m : Nat → UInt8) : (p : Nat) → (s : List UInt8) → Decidable (Str m p s)
  | p, [] => inferInstanceAs (Decidable (m p = 0))
  | p, c :: s =>
      have := Str.decidable m (p + 1) s
      inferInstanceAs (Decidable (m p = c ∧ c ≠ 0 ∧ Str m (p + 1) s))

def Apart (p n q k : Nat) : Prop := p + n ≤ q ∨ q + k ≤ p
  deriving Decidable

namespace Str

section

variable (h : Str m p s)

include h

lemma congr (hsame : ∀ a, p ≤ a → a ≤ p + s.length → m' a = m a) :
    Str m' p s := by
  induction s generalizing p with
  | nil => exact (hsame p (Nat.le_refl p) (Nat.le_add_right _ _)).trans h
  | cons c s ih =>
    obtain ⟨hc, hne, hs⟩ := h
    refine ⟨(hsame p (Nat.le_refl p) (Nat.le_add_right _ _)).trans hc, hne, ih hs fun a ha ha' => ?_⟩
    rw [length_cons] at hsame
    exact hsame a (by omega) (by omega)

lemma update {a : Nat} (ha : a < p ∨ p + s.length < a) (c : UInt8) :
    Str (Function.update m a c) p s :=
  h.congr fun b hb hb' => update_of_ne (by omega) _ _

lemma ne_zero (hc : c ∈ s) : c ≠ 0 := by
  induction s generalizing p with
  | nil => exact absurd hc not_mem_nil
  | cons d s ih =>
    rcases mem_cons.1 hc with rfl | hc
    · exact h.2.1
    · exact ih h.2.2 hc

lemma at_offset (hn : n ≤ s.length) : m (p + n) = (s[n]?).getD 0 := by
  induction s generalizing p n with
  | nil =>
    rw [length_nil, le_zero] at hn
    rw [hn]
    exact h
  | cons c s ih =>
    cases n with
    | zero => exact h.1
    | succ n =>
      have hstep := ih h.2.2 (le_of_succ_le_succ hn)
      rw [getElem?_cons_succ, ← hstep]
      congr 1
      omega

lemma drop (hn : n ≤ s.length) : Str m (p + n) (s.drop n) := by
  induction s generalizing p n with
  | nil =>
    rw [length_nil, le_zero] at hn
    rw [hn]
    exact h
  | cons c s ih =>
    cases n with
    | zero => exact h
    | succ n =>
      have hstep := ih h.2.2 (le_of_succ_le_succ hn)
      rw [drop_succ_cons]
      have haddr : p + (n + 1) = p + 1 + n := by omega
      rwa [haddr]

end

end Str

lemma strlen_eq (h : Str m p s) (hfuel : s.length < fuel) : strlen p m fuel = some s.length := by
  induction s generalizing p fuel with
  | nil =>
    obtain ⟨fuel, rfl⟩ := exists_eq_succ_of_ne_zero (Nat.ne_zero_of_lt hfuel)
    exact if_neg (not_not.2 h)
  | cons c s ih =>
    obtain ⟨fuel, rfl⟩ := exists_eq_succ_of_ne_zero (Nat.ne_zero_of_lt hfuel)
    obtain ⟨hc, hne, hs⟩ := h
    rw [strlen, if_pos (by rwa [hc]), ih hs (lt_of_succ_lt_succ hfuel)]
    rfl

lemma skipWhile_eq (h : Str m p s) (hfuel : s.length < fuel) :
    skipWhile p m fuel = some (p + s.length) := by
  induction s generalizing p fuel with
  | nil =>
    obtain ⟨fuel, rfl⟩ := exists_eq_succ_of_ne_zero (Nat.ne_zero_of_lt hfuel)
    exact if_neg (not_not.2 h)
  | cons c s ih =>
    obtain ⟨fuel, rfl⟩ := exists_eq_succ_of_ne_zero (Nat.ne_zero_of_lt hfuel)
    obtain ⟨hc, hne, hs⟩ := h
    rw [skipWhile, if_pos (by rwa [hc]), ih hs (lt_of_succ_lt_succ hfuel), length_cons]
    congr 1
    omega

lemma copyWhile_eq (h : Str m src s) (hapart : Apart dst s.length src (s.length + 1))
    (hfuel : s.length < fuel) :
    copyWhile dst src m fuel = some (dst + s.length, store m dst s) := by
  induction s generalizing dst src m fuel with
  | nil =>
    obtain ⟨fuel, rfl⟩ := exists_eq_succ_of_ne_zero (Nat.ne_zero_of_lt hfuel)
    have hzero : m src = 0 := h
    rw [copyWhile, if_neg (not_not.2 hzero), store_nil]
    rfl
  | cons c s ih =>
    obtain ⟨fuel, rfl⟩ := exists_eq_succ_of_ne_zero (Nat.ne_zero_of_lt hfuel)
    obtain ⟨hc, hne, hs⟩ := h
    rw [Apart, length_cons] at hapart
    have hs' : Str (Function.update m dst c) (src + 1) s := hs.update (by omega) c
    have hapart' : Apart (dst + 1) s.length (src + 1) (s.length + 1) := by
      rw [Apart]
      omega
    have hrest := ih hs' hapart' (lt_of_succ_lt_succ hfuel)
    rw [copyWhile, if_pos (by rwa [hc]), hc, hrest, store_cons, length_cons]
    congr 2
    omega

/-! ## memmove -/

lemma moveForward_eq (hlt : dst < src) : ∀ (left i : Nat) (m : Nat → UInt8),
    moveForward dst src left i m = store m (dst + i) (load m (src + i) left) := by
  intro left
  induction left with
  | zero => exact fun i m => (store_nil m _).symm
  | succ left ih =>
    intro i m
    have hread : load (Function.update m (dst + i) (m (src + i))) (src + (i + 1)) left =
        load m (src + i + 1) left :=
      load_congr fun j _ => update_of_ne (by omega) _ _
    rw [moveForward, ih, hread, load_cons, store_cons]
    rfl

lemma moveBackward_eq (hle : src ≤ dst) (size : Nat) : ∀ m : Nat → UInt8,
    moveBackward dst src size m = store m dst (load m src size) := by
  induction size with
  | zero => exact fun m => (store_nil m _).symm
  | succ i ih =>
    intro m
    have hread : load (Function.update m (dst + i) (m (src + i))) src i = load m src i :=
      load_congr fun j hj => update_of_ne (by omega) _ _
    have hend := store_update_end m dst (load m src i) (m (src + i))
    rw [length_load] at hend
    rw [moveBackward, ih, hread, hend, load_concat]

lemma memmove_eq (dst src size : Nat) (m : Nat → UInt8) :
    memmove dst src size m = (dst, store m dst (load m src size)) := by
  rw [memmove]
  split
  · rename_i hlt
    rw [moveForward_eq hlt]
    rfl
  · rename_i hle
    rw [moveBackward_eq (Nat.le_of_not_lt hle)]

/-! ## strcpy and strcat -/

lemma strcpy_eq (h : Str m src s) (hapart : Apart dst (s.length + 1) src (s.length + 1))
    (hfuel : s.length < fuel) :
    strcpy fuel dst src m = some (dst + s.length, store m dst s) :=
  copyWhile_eq h (by rw [Apart] at hapart ⊢; omega) hfuel

lemma strcpy_iff (h : Str m src s) (hapart : Apart dst (s.length + 1) src (s.length + 1)) :
    (∀ fuel, s.length < fuel → strcpy fuel dst src m = some (dst, store m dst (s ++ [0]))) ↔
      s = [] ∧ m dst = 0 := by
  constructor
  · intro hall
    have heq := (strcpy_eq h hapart (lt_succ_self _)).symm.trans (hall _ (lt_succ_self _))
    have hpair := Prod.mk.inj (Option.some.inj heq)
    have hempty : s = [] := length_eq_zero_iff.1 (by have := hpair.1; omega)
    subst hempty
    have hbyte := congrFun hpair.2 dst
    rw [store_nil, nil_append, store_cons, store_nil, update_self] at hbyte
    exact ⟨rfl, hbyte⟩
  · rintro ⟨rfl, hzero⟩ fuel hfuel
    rw [strcpy_eq h hapart hfuel, store_nil, nil_append, store_cons, store_nil, ← hzero,
      update_eq_self]
    rfl

lemma strcat_eq (hd : Str m dst d) (hs : Str m src s)
    (hapart : Apart dst (d.length + s.length + 1) src (s.length + 1))
    (hfuel : d.length < fuel) (hfuel' : s.length < fuel) :
    strcat fuel dst src m = some (dst, store m (dst + d.length) (s ++ [0])) := by
  have hcopy : copyWhile (dst + d.length) src m fuel =
      some (dst + d.length + s.length, store m (dst + d.length) s) :=
    copyWhile_eq hs (by rw [Apart] at hapart ⊢; omega) hfuel'
  rw [strcat, skipWhile_eq hd hfuel]
  simp [hcopy, store_concat]

/-! ## strncpy and strncat -/

/-- Up to a count of bytes, the string stands at the address. -/
def Upto (m : Nat → UInt8) : Nat → Nat → List UInt8 → Prop
  | _, 0, _ => True
  | p, _ + 1, [] => m p = 0
  | p, n + 1, c :: s => m p = c ∧ c ≠ 0 ∧ Upto m (p + 1) n s

lemma Str.upto (h : Str m p s) (n : Nat) : Upto m p n s := by
  induction n generalizing p s with
  | zero => exact trivial
  | succ n ih =>
    cases s with
    | nil => exact h
    | cons c s => exact ⟨h.1, h.2.1, ih h.2.2⟩

lemma Upto.congr (h : Upto m p n s)
    (hsame : ∀ a, p ≤ a → a < p + min n (s.length + 1) → m' a = m a) : Upto m' p n s := by
  induction n generalizing p s with
  | zero => exact trivial
  | succ n ih =>
    cases s with
    | nil => exact (hsame p (Nat.le_refl p) (by omega)).trans h
    | cons c s =>
      rw [length_cons] at hsame
      exact ⟨(hsame p (Nat.le_refl p) (by omega)).trans h.1, h.2.1,
        ih h.2.2 fun a ha ha' => hsame a (by omega) (by omega)⟩

lemma strncpyFrom_eq (left : Nat) : ∀ {i : Nat} {m : Nat → UInt8} {s : List UInt8},
    Upto m (src + i) left s → Apart (dst + i) left (src + i) (min left (s.length + 1)) →
    strncpyFrom dst src left i m =
      (dst + i + min left s.length, store m (dst + i) ((s ++ [0]).take left)) := by
  induction left with
  | zero =>
    intro i m s _ _
    rw [strncpyFrom, take_zero, store_nil, Nat.zero_min]
    rfl
  | succ left ih =>
    intro i m s hs hapart
    rw [Apart] at hapart
    have hne : src + i ≠ dst + i := by omega
    have hread : Function.update m (dst + i) (m (src + i)) (src + i) = m (src + i) :=
      update_of_ne hne _ _
    rw [strncpyFrom]
    simp only [hread]
    cases s with
    | nil =>
      have hzero : m (src + i) = 0 := hs
      have htake : ([] ++ [(0 : UInt8)]).take (left + 1) = [0] := by
        rw [nil_append, take_succ_cons, take_nil]
      rw [if_pos hzero, hzero, htake, store_cons, store_nil]
      rfl
    | cons c s =>
      obtain ⟨hc, hnonzero, hs⟩ := hs
      rw [length_cons] at hapart
      have hs' : Upto (Function.update m (dst + i) c) (src + (i + 1)) left s :=
        hs.congr fun a ha ha' => update_of_ne (by omega) _ _
      have hapart' : Apart (dst + (i + 1)) left (src + (i + 1)) (min left (s.length + 1)) := by
        rw [Apart]
        omega
      rw [hc, if_neg hnonzero, ih hs' hapart', cons_append, take_succ_cons, store_cons,
        length_cons]
      refine Prod.ext ?_ rfl
      show dst + (i + 1) + min left s.length = dst + i + min (left + 1) (s.length + 1)
      omega

lemma strncpy_eq (hs : Str m src s) (hapart : Apart dst n src (min n (s.length + 1))) :
    strncpy dst src n m = (dst + min n s.length, store m dst ((s ++ [0]).take n)) :=
  strncpyFrom_eq n (hs.upto n) hapart

/-- What `strncpy` is to leave: the string with zeros behind it, as long as the count. -/
def padded (n : Nat) (s : List UInt8) : List UInt8 := s.take n ++ replicate (n - s.length) 0

lemma padded_nil (n : Nat) : padded n [] = replicate n 0 := by
  rw [padded, take_nil, nil_append]
  rfl

lemma strncpy_iff (hs : Str m src s) (hapart : Apart dst n src (min n (s.length + 1))) :
    strncpy dst src n m = (dst, store m dst (padded n s)) ↔
      n = 0 ∨ (s = [] ∧ ∀ i, 0 < i → i < n → m (dst + i) = 0) := by
  rw [strncpy_eq hs hapart, Prod.mk.injEq]
  constructor
  · rintro ⟨hresult, hstore⟩
    rcases Nat.eq_zero_or_pos n with hn | hn
    · exact .inl hn
    · have hempty : s = [] := length_eq_zero_iff.1 (by omega)
      subst hempty
      refine .inr ⟨rfl, fun i hi hin => ?_⟩
      have hbyte := congrFun hstore (dst + i)
      have hlength : i < (replicate n (0 : UInt8)).length := by rwa [length_replicate]
      rw [padded_nil, store_outside, store_inside m dst hlength] at hbyte
      · rw [hbyte]
        exact getElem_replicate _
      · refine .inr ?_
        rw [length_take]
        exact Nat.add_le_add_left ((Nat.min_le_right _ _).trans hi) _
  · rintro (rfl | ⟨rfl, hzero⟩)
    · refine ⟨by rw [Nat.zero_min]; rfl, ?_⟩
      rw [take_zero, padded, take_zero, Nat.zero_sub]
      rfl
    · refine ⟨by rw [length_nil, Nat.min_zero]; rfl, ?_⟩
      cases n with
      | zero => rfl
      | succ n =>
        rw [padded_nil, replicate_succ, nil_append, take_succ_cons, take_nil,
          store_cons, store_cons, store_nil]
        refine (store_self fun i hi => ?_).symm
        rw [length_replicate] at hi
        have hbyte := hzero (i + 1) (succ_pos i) (succ_lt_succ hi)
        have haddr : dst + 1 + i = dst + (i + 1) := by omega
        rw [haddr, update_of_ne (by omega), hbyte, getElem_replicate]

lemma strncatFrom_eq (left : Nat) : ∀ {i dst : Nat} {m : Nat → UInt8} {s : List UInt8},
    Upto m (src + i) left s →
    Apart dst (min left s.length + 1) (src + i) (min left (s.length + 1)) →
    strncatFrom src left i dst m = store m dst (s.take left ++ [0]) := by
  induction left with
  | zero =>
    intro i dst m s _ _
    rw [strncatFrom, take_zero, nil_append, store_cons, store_nil]
  | succ left ih =>
    intro i dst m s hs hapart
    rw [Apart] at hapart
    have hne : src + i ≠ dst := by omega
    have hread : Function.update m dst (m (src + i)) (src + i) = m (src + i) :=
      update_of_ne hne _ _
    rw [strncatFrom]
    simp only [hread]
    cases s with
    | nil =>
      have hzero : m (src + i) = 0 := hs
      rw [if_pos hzero, hzero, take_nil, nil_append, store_cons, store_nil]
    | cons c s =>
      obtain ⟨hc, hnonzero, hs⟩ := hs
      rw [length_cons] at hapart
      have hs' : Upto (Function.update m dst c) (src + (i + 1)) left s :=
        hs.congr fun a ha ha' => update_of_ne (by omega) _ _
      have hapart' :
          Apart (dst + 1) (min left s.length + 1) (src + (i + 1)) (min left (s.length + 1)) := by
        rw [Apart]
        omega
      rw [hc, if_neg hnonzero, ih hs' hapart', take_succ_cons, cons_append, store_cons]

lemma strncat_eq (hd : Str m dst d) (hs : Str m src s)
    (hapart : Apart dst (d.length + min n s.length + 1) src (min n (s.length + 1)))
    (hfuel : d.length < fuel) :
    strncat fuel dst src n m = some (dst, store m (dst + d.length) (s.take n ++ [0])) := by
  have hcopy : strncatFrom src n 0 (dst + d.length) m =
      store m (dst + d.length) (s.take n ++ [0]) :=
    strncatFrom_eq n (hs.upto n) (by rw [Apart] at hapart ⊢; omega)
  rw [strncat, skipWhile_eq hd hfuel]
  simp [hcopy]

end Posix
end BezOS
