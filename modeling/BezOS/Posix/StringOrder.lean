import BezOS.Posix.StringMoves

/-!
# How the string routines compare and search

`memcmp` compares bytes. `strcmp` and `strncmp` compare signed characters, which order two strings
as their bytes do if the first characters that differ are on one side of 128. `strchr` and
`strrchr` never find the terminator, and `strstr` finds nothing in an empty string.
-/

namespace BezOS
namespace Posix

open Lib List Nat

variable {m : Nat → UInt8} {p q n fuel : Nat} {a b : UInt8} {c : Int} {s t h d : List UInt8}
  {r : Int} {Other : Nat → Nat → Prop}

/-! ## The order -/

/-- The sign of a comparison is the order of two strings of bytes. -/
structure Orders (r : Int) (s t : List UInt8) : Prop where
  neg_iff : r < 0 ↔ s < t
  pos_iff : 0 < r ↔ t < s

/-- What holds of the first two bytes that differ, with a terminator behind either string. -/
def AtDifference (P : UInt8 → UInt8 → Prop) : List UInt8 → List UInt8 → Prop
  | [], [] => True
  | [], b :: _ => P 0 b
  | a :: _, [] => P a 0
  | a :: s, b :: t => (a = b → AtDifference P s t) ∧ (a ≠ b → P a b)

def SameSide (a b : UInt8) : Prop := a.toNat < 128 ↔ b.toNat < 128

def difference (value : UInt8 → Int) : List UInt8 → List UInt8 → Int
  | [], [] => 0
  | [], b :: _ => value 0 - value b
  | a :: _, [] => value a - value 0
  | a :: s, b :: t => if a = b then difference value s t else value a - value b

lemma char_lt_iff (hne : a ≠ b) : ((char a < char b ↔ a < b) ∧ (char b < char a ↔ b < a)) ↔
    SameSide a b := by
  have ha := a.toNat_lt
  have hb := b.toNat_lt
  rw [SameSide, UInt8.lt_iff_toNat_lt, UInt8.lt_iff_toNat_lt, char, char]
  split <;> split <;> omega

lemma orders_head_iff (value : UInt8 → Int) (hne : a ≠ b) :
    Orders (value a - value b) (a :: s) (b :: t) ↔
      (value a < value b ↔ a < b) ∧ (value b < value a ↔ b < a) := by
  have hlt : a :: s < b :: t ↔ a < b := by
    rw [cons_lt_cons_iff]
    exact ⟨fun h => h.elim id fun h => absurd h.1 hne, .inl⟩
  have hgt : b :: t < a :: s ↔ b < a := by
    rw [cons_lt_cons_iff]
    exact ⟨fun h => h.elim id fun h => absurd h.1.symm hne, .inl⟩
  have hneg : value a - value b < 0 ↔ value a < value b := by omega
  have hpos : 0 < value a - value b ↔ value b < value a := by omega
  exact ⟨fun h => ⟨hneg.symm.trans (h.neg_iff.trans hlt), hpos.symm.trans (h.pos_iff.trans hgt)⟩,
    fun h => ⟨hneg.trans (h.1.trans hlt.symm), hpos.trans (h.2.trans hgt.symm)⟩⟩

lemma orders_cons_iff : Orders r (a :: s) (a :: t) ↔ Orders r s t := by
  have hcons : ∀ u v : List UInt8, a :: u < a :: v ↔ u < v := fun u v => cons_lt_cons_self
  exact ⟨fun h => ⟨h.neg_iff.trans (hcons _ _), h.pos_iff.trans (hcons _ _)⟩,
    fun h => ⟨h.neg_iff.trans (hcons _ _).symm, h.pos_iff.trans (hcons _ _).symm⟩⟩

lemma orders_nil : Orders 0 [] [] :=
  ⟨iff_of_false (lt_irrefl 0) (not_lt_nil _), iff_of_false (lt_irrefl 0) (not_lt_nil _)⟩

lemma orders_nil_left_iff (hb : b ≠ 0) :
    Orders (char 0 - char b) [] (b :: t) ↔ SameSide 0 b := by
  have hbytes : (0 : UInt8) < b := by
    have hpos : b.toNat ≠ 0 := fun h => hb (UInt8.toNat_inj.1 h)
    exact UInt8.lt_iff_toNat_lt.2 (Nat.pos_of_ne_zero hpos)
  have hneg : char 0 - char b < 0 ↔ char 0 < char b := by omega
  have hpos : 0 < char 0 - char b ↔ char b < char 0 := by omega
  have hlists : [] < b :: t ↔ 0 < b := iff_of_true (nil_lt_cons _ _) hbytes
  have hlists' : b :: t < [] ↔ b < 0 :=
    iff_of_false (not_lt_nil _) fun h => Nat.not_lt_zero _ (UInt8.lt_iff_toNat_lt.1 h)
  rw [← char_lt_iff fun h => hb h.symm]
  exact ⟨fun h => ⟨hneg.symm.trans (h.neg_iff.trans hlists),
      hpos.symm.trans (h.pos_iff.trans hlists')⟩,
    fun h => ⟨hneg.trans (h.1.trans hlists.symm), hpos.trans (h.2.trans hlists'.symm)⟩⟩

lemma Orders.symm (h : Orders r s t) : Orders (-r) t s :=
  ⟨by rw [← h.pos_iff]; omega, by rw [← h.neg_iff]; omega⟩

lemma orders_neg_iff : Orders (-r) t s ↔ Orders r s t :=
  ⟨fun h => by simpa using h.symm, Orders.symm⟩

lemma sameSide_comm : SameSide a b ↔ SameSide b a := iff_comm

lemma orders_difference_iff : ∀ {s t : List UInt8}, (∀ c ∈ s, c ≠ 0) → (∀ c ∈ t, c ≠ 0) →
    (Orders (difference char s t) s t ↔ AtDifference SameSide s t) := by
  intro s
  induction s with
  | nil =>
    intro t _ ht
    cases t with
    | nil => exact iff_of_true orders_nil trivial
    | cons b t => exact orders_nil_left_iff (ht b (mem_cons_self ..))
  | cons a s ih =>
    intro t hs ht
    cases t with
    | nil =>
      have hneg : difference char (a :: s) [] = -(char 0 - char a) := (Int.neg_sub _ _).symm
      rw [hneg, orders_neg_iff, orders_nil_left_iff (hs a (mem_cons_self ..))]
      exact sameSide_comm
    | cons b t =>
      have hs' : ∀ c ∈ s, c ≠ 0 := fun c hc => hs c (mem_cons_of_mem _ hc)
      have ht' : ∀ c ∈ t, c ≠ 0 := fun c hc => ht c (mem_cons_of_mem _ hc)
      by_cases hab : a = b
      · subst hab
        rw [difference, if_pos rfl, orders_cons_iff, ih hs' ht', AtDifference]
        exact ⟨fun h => ⟨fun _ => h, fun h => absurd rfl h⟩, fun h => h.1 rfl⟩
      · rw [difference, if_neg hab, orders_head_iff char hab, char_lt_iff hab, AtDifference]
        exact ⟨fun h => ⟨fun heq => absurd heq hab, fun _ => h⟩, fun h => h.2 hab⟩

lemma orders_difference_toNat : ∀ {s t : List UInt8}, s.length = t.length →
    Orders (difference (fun c => c.toNat) s t) s t := by
  intro s
  induction s with
  | nil =>
    intro t hlen
    rw [length_eq_zero_iff.1 hlen.symm]
    exact orders_nil
  | cons a s ih =>
    intro t hlen
    cases t with
    | nil => exact absurd hlen nofun
    | cons b t =>
      by_cases hab : a = b
      · subst hab
        rw [difference, if_pos rfl, orders_cons_iff]
        exact ih (Nat.succ.inj hlen)
      · rw [difference, if_neg hab]
        refine (orders_head_iff (fun c => (c.toNat : Int)) hab).2 ?_
        rw [UInt8.lt_iff_toNat_lt, UInt8.lt_iff_toNat_lt]
        omega

/-! ## Comparing -/

lemma strcmp_eq : ∀ {s t : List UInt8} {p q fuel : Nat}, Str m p s → Str m q t →
    s.length < fuel → strcmp p q m fuel = some (difference char s t) := by
  intro s
  induction s with
  | nil =>
    intro t p q fuel hs ht hfuel
    obtain ⟨fuel, rfl⟩ := exists_eq_succ_of_ne_zero (Nat.ne_zero_of_lt hfuel)
    have hzero : m p = 0 := hs
    rw [strcmp, if_neg fun h => h.1 hzero, hzero]
    cases t with
    | nil =>
      have hzero' : m q = 0 := ht
      rw [hzero']
      rfl
    | cons b t =>
      rw [ht.1]
      rfl
  | cons a s ih =>
    intro t p q fuel hs ht hfuel
    obtain ⟨fuel, rfl⟩ := exists_eq_succ_of_ne_zero (Nat.ne_zero_of_lt hfuel)
    obtain ⟨ha, hne, hs⟩ := hs
    cases t with
    | nil =>
      have hzero : m q = 0 := ht
      rw [strcmp, if_neg fun h => h.2.1 hzero, hzero, ha]
      rfl
    | cons b t =>
      obtain ⟨hb, hne', ht⟩ := ht
      rw [strcmp, ha, hb, difference]
      by_cases hab : a = b
      · rw [if_pos ⟨hne, hne', hab⟩, if_pos hab, ih hs ht (lt_of_succ_lt_succ hfuel)]
      · rw [if_neg fun h => hab h.2.2, if_neg hab]

lemma strncmpFrom_eq (left : Nat) : ∀ {i : Nat} {s t : List UInt8}, Upto m (p + i) left s →
    Upto m (q + i) left t →
    strncmpFrom p q m left i = difference char (s.take left) (t.take left) := by
  induction left with
  | zero =>
    intro i s t _ _
    rw [take_zero, take_zero]
    rfl
  | succ left ih =>
    intro i s t hs ht
    rw [strncmpFrom]
    cases s with
    | nil =>
      have hzero : m (p + i) = 0 := hs
      cases t with
      | nil =>
        have hzero' : m (q + i) = 0 := ht
        simp only [hzero, hzero', take_nil]
        rfl
      | cons b t =>
        simp only [hzero, ht.1, ne_eq, ht.2.1.symm, not_false_eq_true, if_true, take_nil,
          take_succ_cons]
        rfl
    | cons a s =>
      obtain ⟨ha, hne, hs⟩ := hs
      cases t with
      | nil =>
        have hzero : m (q + i) = 0 := ht
        simp only [ha, hzero, ne_eq, hne, not_false_eq_true, if_true, take_nil,
          take_succ_cons]
        rfl
      | cons b t =>
        obtain ⟨hb, hne', ht⟩ := ht
        simp only [ha, hb, take_succ_cons, difference]
        by_cases hab : a = b
        · rw [if_neg (not_not.2 hab), if_neg (by rw [not_or]; exact ⟨hne, hne'⟩), if_pos hab]
          exact ih hs ht
        · rw [if_pos hab, if_neg hab]

lemma memcmpFrom_eq (left : Nat) : ∀ i : Nat, memcmpFrom p q m left i =
    difference (fun c => c.toNat) (load m (p + i) left) (load m (q + i) left) := by
  induction left with
  | zero => exact fun i => rfl
  | succ left ih =>
    intro i
    rw [memcmpFrom, load_cons, load_cons, difference, ih]
    by_cases heq : m (p + i) = m (q + i)
    · rw [if_neg (not_not.2 heq), if_pos heq]
      rfl
    · rw [if_pos heq, if_neg heq]

section

variable (hs : Str m p s) (ht : Str m q t)

include hs ht

lemma strcmp_iff :
    (∀ fuel, s.length < fuel → ∃ r, strcmp p q m fuel = some r ∧ Orders r s t) ↔
      AtDifference SameSide s t := by
  rw [← orders_difference_iff (fun c => hs.ne_zero) fun c => ht.ne_zero]
  constructor
  · intro hall
    obtain ⟨r, hr, horders⟩ := hall _ (lt_succ_self _)
    rw [strcmp_eq hs ht (lt_succ_self _)] at hr
    rwa [← Option.some.inj hr] at horders
  · exact fun horders fuel hfuel => ⟨_, strcmp_eq hs ht hfuel, horders⟩

lemma strncmp_eq (n : Nat) :
    strncmp p q n m = difference char (s.take n) (t.take n) :=
  strncmpFrom_eq n (hs.upto n) (ht.upto n)

lemma strncmp_iff (n : Nat) :
    Orders (strncmp p q n m) (s.take n) (t.take n) ↔
      AtDifference SameSide (s.take n) (t.take n) := by
  rw [strncmp_eq hs ht]
  exact orders_difference_iff (fun c hc => hs.ne_zero (mem_of_mem_take hc))
    fun c hc => ht.ne_zero (mem_of_mem_take hc)

end

lemma memcmp_orders (p q n : Nat) (m : Nat → UInt8) :
    Orders (memcmp p q n m) (load m p n) (load m q n) := by
  have hlen : (load m p n).length = (load m q n).length := by rw [length_load, length_load]
  rw [memcmp, memcmpFrom_eq]
  exact orders_difference_toNat hlen

/-! ## Searching for a character -/

/-- Where a character occurs for which a test holds, and no earlier one, or no later one. -/
def Occurs (Other : Nat → Nat → Prop) (P : UInt8 → Prop) (s : List UInt8) : Option Nat → Prop
  | none => ∀ a ∈ s, ¬ P a
  | some i => (∃ a, s[i]? = some a ∧ P a) ∧ ∀ j a, Other j i → s[j]? = some a → ¬ P a

abbrev First : (UInt8 → Prop) → List UInt8 → Option Nat → Prop := Occurs fun j i => j < i

abbrev Last : (UInt8 → Prop) → List UInt8 → Option Nat → Prop := Occurs fun j i => i < j

/-- `(char)c`, as a byte. -/
def byteOf (c : Int) : UInt8 := UInt8.ofNat (c % 256).toNat

lemma byteOf_eq_iff (hc : -128 ≤ c ∧ c < 128) : char a = c ↔ a = byteOf c := by
  have ha := a.toNat_lt
  rw [← UInt8.toNat_inj, byteOf, UInt8.toNat_ofNat', char]
  split <;> omega

lemma occurs_terminated_iff {found : Option Nat} (hs : ∀ a ∈ s, a ≠ 0)
    (hfound : Occurs Other (fun a => char a = c) s found) :
    Occurs Other (fun a => a = byteOf c) (s ++ [0]) found ↔
      byteOf c ≠ 0 ∧ ((-128 ≤ c ∧ c < 128) ∨ byteOf c ∉ s) := by
  have hin : ∀ a ∈ s, char a = c → -128 ≤ c ∧ c < 128 := by
    rintro a - rfl
    exact char_bounds a
  constructor
  · intro hspec
    cases found with
    | none =>
      have hno : ∀ a ∈ s ++ [0], a ≠ byteOf c := hspec
      exact ⟨fun heq => hno 0 (mem_append_right _ (mem_singleton_self 0)) heq.symm,
        .inr fun hmem => hno _ (mem_append_left _ hmem) rfl⟩
    | some i =>
      obtain ⟨⟨a, ha, hchar⟩, -⟩ := hfound
      have hmem := mem_of_getElem? ha
      have hbounds := hin a hmem hchar
      have hbyte := (byteOf_eq_iff hbounds).1 hchar
      exact ⟨fun heq => hs a hmem (hbyte.trans heq), .inl hbounds⟩
  · rintro ⟨hne, hgiven⟩
    have hzero : (0 : UInt8) ≠ byteOf c := fun heq => hne heq.symm
    have hiff : ∀ a ∈ s, char a = c ↔ a = byteOf c := by
      intro a ha
      rcases hgiven with hbounds | hnot
      · exact byteOf_eq_iff hbounds
      · refine iff_of_false (fun hchar => hnot ?_) fun heq => hnot (heq ▸ ha)
        rwa [← (byteOf_eq_iff (hin a ha hchar)).1 hchar]
    have hat : ∀ (j : Nat) (a : UInt8), (s ++ [0])[j]? = some a → a = byteOf c → s[j]? = some a := by
      rintro j a hj rfl
      rcases Nat.lt_or_ge j s.length with hlt | hge
      · rwa [getElem?_append_left hlt] at hj
      · have hmem := mem_of_getElem? ((getElem?_append_right hge).symm.trans hj)
        exact absurd (mem_singleton.1 hmem).symm hzero
    cases found with
    | none =>
      intro a ha heq
      rcases mem_append.1 ha with ha | ha
      · exact hfound a ha ((hiff a ha).2 heq)
      · exact hzero ((mem_singleton.1 ha).symm.trans heq)
    | some i =>
      obtain ⟨⟨a, ha, hchar⟩, hother⟩ := hfound
      have hmem := mem_of_getElem? ha
      have hlt : i < s.length := (List.getElem?_eq_some_iff.1 ha).1
      refine ⟨⟨a, ?_, (hiff a hmem).1 hchar⟩, fun j d hji hj heq => ?_⟩
      · rwa [getElem?_append_left hlt]
      · have hj' := hat j d hj heq
        exact hother j d hji hj' ((hiff d (mem_of_getElem? hj')).2 heq)

lemma strchrFrom_eq : ∀ {s : List UInt8} {i fuel : Nat}, Str m (p + i) s → s.length < fuel →
    ∃ found, strchrFrom p c m fuel i = some (found.map (p + i + ·)) ∧
      First (fun a => char a = c) s found := by
  intro s
  induction s with
  | nil =>
    intro i fuel hs hfuel
    obtain ⟨fuel, rfl⟩ := exists_eq_succ_of_ne_zero (Nat.ne_zero_of_lt hfuel)
    have hzero : m (p + i) = 0 := hs
    exact ⟨none, if_pos hzero, nofun⟩
  | cons a s ih =>
    intro i fuel hs hfuel
    obtain ⟨fuel, rfl⟩ := exists_eq_succ_of_ne_zero (Nat.ne_zero_of_lt hfuel)
    obtain ⟨ha, hne, hs⟩ := hs
    rw [strchrFrom, ha, if_neg hne]
    by_cases hchar : char a = c
    · exact ⟨some 0, if_pos hchar, ⟨a, rfl, hchar⟩, fun j d hj => absurd hj (Nat.not_lt_zero j)⟩
    · obtain ⟨found, heq, hfound⟩ := ih (i := i + 1) hs (lt_of_succ_lt_succ hfuel)
      rw [if_neg hchar, heq]
      refine ⟨found.map (· + 1), ?_, ?_⟩
      · cases found with
        | none => rfl
        | some j =>
          have haddr : p + (i + 1) + j = p + i + (j + 1) := by omega
          exact congrArg (fun k => some (some k)) haddr
      · cases found with
        | none =>
          intro d hd
          rcases mem_cons.1 hd with rfl | hd
          · exact hchar
          · exact hfound d hd
        | some j =>
          refine ⟨hfound.1, fun k d hk hd => ?_⟩
          cases k with
          | zero =>
            rw [← Option.some.inj hd]
            exact hchar
          | succ k => exact hfound.2 k d (lt_of_succ_lt_succ hk) hd

lemma strrchrFrom_eq : ∀ {s : List UInt8} {i fuel : Nat} {last : Option Nat},
    Str m (p + i) s → s.length < fuel →
    ∃ found, strrchrFrom p c m fuel i last = some ((found.map (p + i + ·)).or last) ∧
      Last (fun a => char a = c) s found := by
  intro s
  induction s with
  | nil =>
    intro i fuel last hs hfuel
    obtain ⟨fuel, rfl⟩ := exists_eq_succ_of_ne_zero (Nat.ne_zero_of_lt hfuel)
    have hzero : m (p + i) = 0 := hs
    exact ⟨none, if_pos hzero, nofun⟩
  | cons a s ih =>
    intro i fuel last hs hfuel
    obtain ⟨fuel, rfl⟩ := exists_eq_succ_of_ne_zero (Nat.ne_zero_of_lt hfuel)
    obtain ⟨ha, hne, hs⟩ := hs
    rw [strrchrFrom, ha, if_neg hne]
    obtain ⟨found, heq, hfound⟩ := ih (i := i + 1) hs (lt_of_succ_lt_succ hfuel)
    rw [heq]
    cases found with
    | some j =>
      have haddr : p + (i + 1) + j = p + i + (j + 1) := by omega
      refine ⟨some (j + 1), congrArg (fun k => some (some k)) haddr, hfound.1,
        fun k d hk hd => ?_⟩
      cases k with
      | zero => exact absurd hk (Nat.not_lt_zero _)
      | succ k => exact hfound.2 k d (lt_of_succ_lt_succ hk) hd
    | none =>
      by_cases hchar : char a = c
      · refine ⟨some 0, by rw [if_pos hchar]; rfl, ⟨a, rfl, hchar⟩, fun k d hk hd => ?_⟩
        cases k with
        | zero => exact absurd hk (Nat.lt_irrefl 0)
        | succ k => exact hfound d (mem_of_getElem? hd)
      · refine ⟨none, by rw [if_neg hchar]; rfl, fun d hd => ?_⟩
        rcases mem_cons.1 hd with rfl | hd
        · exact hchar
        · exact hfound d hd

lemma search_iff {search : Nat → Option (Option Nat)} (hs : ∀ a ∈ s, a ≠ 0)
    (hsearch : ∀ fuel, s.length < fuel → ∃ found,
      search fuel = some (found.map (p + ·)) ∧ Occurs Other (fun a => char a = c) s found) :
    (∀ fuel, s.length < fuel → ∃ found, search fuel = some (found.map (p + ·)) ∧
      Occurs Other (fun a => a = byteOf c) (s ++ [0]) found) ↔
    byteOf c ≠ 0 ∧ ((-128 ≤ c ∧ c < 128) ∨ byteOf c ∉ s) := by
  constructor
  · intro hall
    obtain ⟨found, heq, hspec⟩ := hall _ (lt_succ_self _)
    obtain ⟨found', heq', hfound⟩ := hsearch _ (lt_succ_self _)
    have hsame : found.map (p + ·) = found'.map (p + ·) :=
      Option.some.inj (heq.symm.trans heq')
    have hinj : Function.Injective (p + ·) := fun i j h => Nat.add_left_cancel h
    rw [Option.map_injective hinj hsame] at hspec
    exact (occurs_terminated_iff hs hfound).1 hspec
  · intro hcond fuel hfuel
    obtain ⟨found, heq, hfound⟩ := hsearch fuel hfuel
    exact ⟨found, heq, (occurs_terminated_iff hs hfound).2 hcond⟩

lemma strchr_iff (hs : Str m p s) (c : Int) :
    (∀ fuel, s.length < fuel → ∃ found, strchr fuel p c m = some (found.map (p + ·)) ∧
      First (fun a => a = byteOf c) (s ++ [0]) found) ↔
    byteOf c ≠ 0 ∧ ((-128 ≤ c ∧ c < 128) ∨ byteOf c ∉ s) :=
  search_iff (fun _ => hs.ne_zero) fun _ hfuel => strchrFrom_eq hs hfuel

lemma strrchr_iff (hs : Str m p s) (c : Int) :
    (∀ fuel, s.length < fuel → ∃ found, strrchr fuel p c m = some (found.map (p + ·)) ∧
      Last (fun a => a = byteOf c) (s ++ [0]) found) ↔
    byteOf c ≠ 0 ∧ ((-128 ≤ c ∧ c < 128) ∨ byteOf c ∉ s) := by
  refine search_iff (fun a => hs.ne_zero) fun fuel hfuel => ?_
  obtain ⟨found, heq, hfound⟩ := strrchrFrom_eq (i := 0) hs hfuel
  exact ⟨found, heq.trans (congrArg some Option.or_none), hfound⟩

/-! ## Searching for a string -/

/-- Where a string occurs first in another. -/
def FirstMatch (h d : List UInt8) : Option Nat → Prop
  | none => ∀ i ≤ h.length, ¬ d <+: h.drop i
  | some i => i ≤ h.length ∧ d <+: h.drop i ∧ ∀ j < i, ¬ d <+: h.drop j

lemma difference_eq_zero_iff : ∀ {s t : List UInt8}, (∀ c ∈ s, c ≠ 0) → (∀ c ∈ t, c ≠ 0) →
    (difference char s t = 0 ↔ s = t) := by
  have hchar : ∀ {a b : UInt8}, a ≠ b → char a - char b ≠ 0 := fun hne heq =>
    hne (char_inj.1 (by omega))
  intro s
  induction s with
  | nil =>
    intro t _ ht
    cases t with
    | nil => exact iff_of_true rfl rfl
    | cons b t =>
      exact iff_of_false (hchar (ht b (mem_cons_self ..)).symm) nofun
  | cons a s ih =>
    intro t hs ht
    cases t with
    | nil => exact iff_of_false (hchar (hs a (mem_cons_self ..))) nofun
    | cons b t =>
      have hs' : ∀ c ∈ s, c ≠ 0 := fun c hc => hs c (mem_cons_of_mem _ hc)
      have ht' : ∀ c ∈ t, c ≠ 0 := fun c hc => ht c (mem_cons_of_mem _ hc)
      by_cases hab : a = b
      · subst hab
        rw [difference, if_pos rfl, ih hs' ht', cons_inj_right]
      · rw [difference, if_neg hab]
        exact iff_of_false (hchar hab) fun heq => hab (List.cons.inj heq).1

lemma strncmp_eq_zero_iff (hs : Str m p s) (ht : Str m q t) :
    strncmp p q t.length m = 0 ↔ t <+: s := by
  rw [strncmp_eq hs ht, take_length, difference_eq_zero_iff
    (fun c hc => hs.ne_zero (mem_of_mem_take hc)) (fun c => ht.ne_zero),
    prefix_iff_eq_take]
  exact eq_comm

lemma strstrFrom_eq (hh : Str m p h) (hd : Str m q d) (left : Nat) : ∀ {i fuel : Nat},
    i + left = h.length → left < fuel → (∀ j < i, ¬ d <+: h.drop j) →
    ∃ found, strstrFrom p q d.length m fuel i = some (found.map (p + ·)) ∧
      match found with
      | none => ∀ j < h.length, ¬ d <+: h.drop j
      | some k => k < h.length ∧ d <+: h.drop k ∧ ∀ j < k, ¬ d <+: h.drop j := by
  induction left with
  | zero =>
    intro i fuel hi hfuel hbefore
    obtain ⟨fuel, rfl⟩ := exists_eq_succ_of_ne_zero (Nat.ne_zero_of_lt hfuel)
    have hend : m (p + i) = 0 := by
      rw [hh.at_offset (by omega), getElem?_eq_none (by omega)]
      rfl
    exact ⟨none, if_pos hend, fun j hj => hbefore j (by omega)⟩
  | succ left ih =>
    intro i fuel hi hfuel hbefore
    obtain ⟨fuel, rfl⟩ := exists_eq_succ_of_ne_zero (Nat.ne_zero_of_lt hfuel)
    have hlt : i < h.length := by omega
    have hbyte : m (p + i) ≠ 0 := by
      rw [hh.at_offset hlt.le, getElem?_eq_getElem hlt]
      exact hh.ne_zero (getElem_mem hlt)
    rw [strstrFrom, if_neg hbyte]
    by_cases hmatch : d <+: h.drop i
    · rw [if_pos ((strncmp_eq_zero_iff (hh.drop hlt.le) hd).2 hmatch)]
      exact ⟨some i, rfl, hlt, hmatch, hbefore⟩
    · rw [if_neg fun heq => hmatch ((strncmp_eq_zero_iff (hh.drop hlt.le) hd).1 heq)]
      refine ih (by omega) (lt_of_succ_lt_succ hfuel) fun j hj => ?_
      rcases Nat.lt_succ_iff_lt_or_eq.1 hj with hj | rfl
      · exact hbefore j hj
      · exact hmatch

lemma strstr_iff (hh : Str m p h) (hd : Str m q d) :
    (∀ fuel, h.length < fuel → d.length < fuel →
      ∃ found, strstr fuel p q m = some (found.map (p + ·)) ∧ FirstMatch h d found) ↔
    h ≠ [] ∨ d ≠ [] := by
  have hloop : ∀ fuel, h.length < fuel → d.length < fuel →
      ∃ found, strstr fuel p q m = some (found.map (p + ·)) ∧
        match found with
        | none => ∀ j < h.length, ¬ d <+: h.drop j
        | some k => k < h.length ∧ d <+: h.drop k ∧ ∀ j < k, ¬ d <+: h.drop j := by
    intro fuel hfuel hfuel'
    rw [strstr, strlen_eq hd hfuel']
    exact strstrFrom_eq hh hd h.length (Nat.zero_add _) hfuel fun j hj => absurd hj (Nat.not_lt_zero j)
  constructor
  · intro hall
    by_contra hempty
    obtain ⟨rfl, rfl⟩ : h = [] ∧ d = [] := by
      rwa [not_or, not_not, not_not] at hempty
    obtain ⟨found, heq, hspec⟩ := hall 1 Nat.one_pos Nat.one_pos
    obtain ⟨found', heq', hfound⟩ := hloop 1 Nat.one_pos Nat.one_pos
    cases found' with
    | some k => exact absurd hfound.1 (Nat.not_lt_zero _)
    | none =>
      have hnone : found.map (p + ·) = none := Option.some.inj (heq.symm.trans heq')
      rw [Option.map_eq_none_iff.1 hnone] at hspec
      exact hspec 0 (Nat.le_refl 0) nil_prefix
  · intro hsome fuel hfuel hfuel'
    obtain ⟨found, heq, hfound⟩ := hloop fuel hfuel hfuel'
    refine ⟨found, heq, ?_⟩
    cases found with
    | some k => exact ⟨hfound.1.le, hfound.2⟩
    | none =>
      intro j hj hprefix
      rcases hj.lt_or_eq with hlt | rfl
      · exact hfound j hlt hprefix
      · rw [drop_length] at hprefix
        have hd' : d = [] := prefix_nil.1 hprefix
        have hh' : h ≠ [] := hsome.resolve_right fun hne => hne hd'
        refine hfound 0 (length_pos_iff.2 hh') ?_
        rw [hd']
        exact nil_prefix

/-! ## All routines -/

/-- What each routine meets of its definition in C, for all strings, areas and counts. -/
theorem string_routines_iff (m : Nat → UInt8) :
    (∀ dst src s, Str m src s → Apart dst (s.length + 1) src (s.length + 1) →
      ((∀ fuel, s.length < fuel → strcpy fuel dst src m = some (dst, store m dst (s ++ [0]))) ↔
        s = [] ∧ m dst = 0)) ∧
    (∀ dst src n s, Str m src s → Apart dst n src (min n (s.length + 1)) →
      (strncpy dst src n m = (dst, store m dst (padded n s)) ↔
        n = 0 ∨ (s = [] ∧ ∀ i, 0 < i → i < n → m (dst + i) = 0))) ∧
    (∀ dst src d s fuel, Str m dst d → Str m src s →
      Apart dst (d.length + s.length + 1) src (s.length + 1) →
      d.length < fuel → s.length < fuel →
      strcat fuel dst src m = some (dst, store m (dst + d.length) (s ++ [0]))) ∧
    (∀ dst src n d s fuel, Str m dst d → Str m src s →
      Apart dst (d.length + min n s.length + 1) src (min n (s.length + 1)) → d.length < fuel →
      strncat fuel dst src n m = some (dst, store m (dst + d.length) (s.take n ++ [0]))) ∧
    (∀ lhs rhs s t, Str m lhs s → Str m rhs t →
      ((∀ fuel, s.length < fuel → ∃ r, strcmp lhs rhs m fuel = some r ∧ Orders r s t) ↔
        AtDifference SameSide s t)) ∧
    (∀ lhs rhs n s t, Str m lhs s → Str m rhs t →
      (Orders (strncmp lhs rhs n m) (s.take n) (t.take n) ↔
        AtDifference SameSide (s.take n) (t.take n))) ∧
    (∀ lhs rhs n, Orders (memcmp lhs rhs n m) (load m lhs n) (load m rhs n)) ∧
    (∀ str s c, Str m str s →
      ((∀ fuel, s.length < fuel → ∃ found, strchr fuel str c m = some (found.map (str + ·)) ∧
        First (fun a => a = byteOf c) (s ++ [0]) found) ↔
      byteOf c ≠ 0 ∧ ((-128 ≤ c ∧ c < 128) ∨ byteOf c ∉ s))) ∧
    (∀ str s c, Str m str s →
      ((∀ fuel, s.length < fuel → ∃ found, strrchr fuel str c m = some (found.map (str + ·)) ∧
        Last (fun a => a = byteOf c) (s ++ [0]) found) ↔
      byteOf c ≠ 0 ∧ ((-128 ≤ c ∧ c < 128) ∨ byteOf c ∉ s))) ∧
    (∀ haystack needle h d, Str m haystack h → Str m needle d →
      ((∀ fuel, h.length < fuel → d.length < fuel →
        ∃ found, strstr fuel haystack needle m = some (found.map (haystack + ·)) ∧
          FirstMatch h d found) ↔
      h ≠ [] ∨ d ≠ [])) ∧
    (∀ dst src size, memmove dst src size m = (dst, store m dst (load m src size))) :=
  ⟨fun _ _ _ => strcpy_iff, fun _ _ _ _ => strncpy_iff,
    fun _ _ _ _ _ => strcat_eq, fun _ _ _ _ _ _ => strncat_eq,
    fun _ _ _ _ => strcmp_iff, fun _ _ n _ _ hs ht => strncmp_iff hs ht n,
    fun lhs rhs n => memcmp_orders lhs rhs n m,
    fun _ _ c hs => strchr_iff hs c, fun _ _ c hs => strrchr_iff hs c,
    fun _ _ _ _ => strstr_iff, fun dst src size => memmove_eq dst src size m⟩

def abMemory : Nat → UInt8 := store (fun _ => 7) 0x10 [97, 98, 0]

/-- The copy has no terminator, and its end is returned. -/
theorem strcpy_unterminated : Str abMemory 0x10 [97, 98] ∧ Apart 0x20 3 0x10 3 ∧
    ((strcpy 3 0x20 0x10 abMemory).map fun result => (result.1, result.2 0x22)) = some (0x22, 7) ∧
    ¬ ∀ fuel, 2 < fuel → strcpy fuel 0x20 0x10 abMemory =
      some (0x20, store abMemory 0x20 [97, 98, 0]) := by
  refine ⟨by decide, by decide, by decide, fun hall => ?_⟩
  have hempty := (strcpy_iff (s := [97, 98]) (by decide) (by decide)).1 hall
  exact absurd hempty.1 nofun

end Posix
end BezOS
