import BezOS.System.ReferenceCounts
import BezOS.System.UnmapExact

/-!
# The run of segments a range meets

`RangeTable::find(Range)` answers with two iterators. Read as positions they bound the run of
the segments that share an address with the range, whatever the table and the range are.
-/

namespace BezOS
namespace RangeTable

open Lib List

variable {S : Type*} (range : S → AnyRange)

/-- What the ordered map of a table holds: the ends of its segments in increasing order, no empty
segment, and no two segments with an address in common. -/
structure Keyed (t : List S) : Prop where
  ordered : t.Pairwise fun a b => back range a < back range b
  nonempty : ∀ s ∈ t, (range s).front < (range s).back
  disjoint : t.Pairwise fun a b => ∀ x, ¬ ((range a).contains x ∧ (range b).contains x)

def Shares (r : AnyRange) (s : S) : Prop := ∃ x, r.contains x ∧ (range s).contains x

variable {range} {t : List S}

lemma Keyed.wellFormed (h : Keyed range t) : WellFormed range t := by
  refine ⟨h.nonempty, (h.ordered.and h.disjoint).imp_of_mem ?_⟩
  intro a b ha hb hab
  -- were the later segment to start below the earlier end, its start or that end would be shared
  by_contra hlt
  have hna := h.nonempty a ha
  have hnb := h.nonempty b hb
  have hord : (range a).back < (range b).back := hab.1
  have hmeet : AnyRange.Meets (range a) (range b) := ⟨by omega, by omega⟩
  obtain ⟨x, hx⟩ := (AnyRange.meets_iff_exists hna hnb).1 hmeet
  exact hab.2 x hx

lemma WellFormed.keyed (h : WellFormed range t) : Keyed range t := by
  refine ⟨h.disjoint.imp_of_mem ?_, h.nonempty, h.disjoint.imp ?_⟩
  · intro a b _ hb hab
    have := h.nonempty b hb
    simp only [back]
    omega
  · intro a b hab x hx
    simp only [AnyRange.contains] at hx
    omega

namespace Around

variable {t pre mid post : List S} {r : AnyRange}

lemma shares_iff (hwf : WellFormed range t) (hr : r.front < r.back)
    (h : Around range t r pre mid post) {k : Nat} (hk : k < t.length) :
    Shares range r t[k] ↔ pre.length ≤ k ∧ k < pre.length + mid.length := by
  have hne : (range t[k]).front < (range t[k]).back := hwf.nonempty _ (getElem_mem hk)
  rw [Shares, ← AnyRange.meets_iff_exists hr hne, AnyRange.Meets]
  rcases Nat.lt_or_ge k pre.length with hpre | hpre
  · have hget : t[k] ∈ pre := by
      simp [h.eq, getElem_append_left hpre]
    have := h.before _ hget
    omega
  · rcases Nat.lt_or_ge k (pre.length + mid.length) with hmid | hmid
    · have hlt : k - pre.length < mid.length := by omega
      have hget : t[k] ∈ mid := by
        simp [h.eq, getElem_append_right hpre, getElem_append_left hlt]
      have := h.meets _ hget
      omega
    · have hge : mid.length ≤ k - pre.length := by omega
      have hget : t[k] ∈ post := by
        simp [h.eq, getElem_append_right hpre, getElem_append_right hge]
      have := h.after _ hget
      omega

end Around

/-- `find(Range)` bounds the run of the segments that share an address with the range, and is
`end()` twice exactly when there is none. -/
theorem find_bounds_run {t : List S} (h : Keyed range t) {r : AnyRange} (hr : r.front < r.back) :
    (find range t r = (t.length, t.length) ↔ ∀ s ∈ t, ¬ Shares range r s) ∧
      ((∃ s ∈ t, Shares range r s) →
        (find range t r).1 ≤ (find range t r).2 ∧ (find range t r).2 < t.length ∧
          ∀ (k : Nat) (hk : k < t.length),
            ((find range t r).1 ≤ k ∧ k ≤ (find range t r).2 ↔ Shares range r t[k])) := by
  have hwf := h.wellFormed
  obtain ⟨pre, mid, post, hcut⟩ := hwf.exists_around r
  rcases eq_nil_or_concat mid with rfl | ⟨init, last, hmid⟩
  · have hnone : ∀ s ∈ t, ¬ Shares range r s := by
      intro s hs hshare
      obtain ⟨k, hk, rfl⟩ := mem_iff_getElem.1 hs
      have := (hcut.shares_iff hwf hr hk).1 hshare
      simp only [length_nil] at this
      omega
    refine ⟨⟨fun _ => hnone, fun _ => hcut.find_nil hwf hr⟩, ?_⟩
    rintro ⟨s, hs, hshare⟩
    exact absurd hshare (hnone s hs)
  · rw [concat_eq_append] at hmid
    subst hmid
    have hfind : find range t r = (pre.length, pre.length + init.length) :=
      hcut.find_concat hwf hr
    have hlen : pre.length + init.length < t.length := by
      simp only [hcut.eq, length_append, length_singleton]
      omega
    have hrun : ∀ (k : Nat) (hk : k < t.length),
        (pre.length ≤ k ∧ k ≤ pre.length + init.length ↔ Shares range r t[k]) := by
      intro k hk
      rw [hcut.shares_iff hwf hr hk, length_append, length_singleton]
      omega
    rw [hfind]
    refine ⟨⟨fun heq => ?_, fun hnone => ?_⟩, fun _ => ⟨by simp, hlen, hrun⟩⟩
    · have := (Prod.mk.inj heq).2
      omega
    · exact absurd ((hrun _ hlen).1 ⟨by omega, Nat.le_refl _⟩) (hnone _ (getElem_mem hlen))

/-- Three segments, the last two of which touch; the range ends where the third starts. -/
theorem find_bounds_run_touching :
    (find id [⟨1, 3⟩, ⟨5, 8⟩, ⟨8, 9⟩] ⟨2, 8⟩ = (3, 3) ↔
        ∀ s ∈ ([⟨1, 3⟩, ⟨5, 8⟩, ⟨8, 9⟩] : List AnyRange), ¬ Shares id ⟨2, 8⟩ s) ∧
      find id [⟨1, 3⟩, ⟨5, 8⟩, ⟨8, 9⟩] ⟨2, 8⟩ = (0, 1) :=
  ⟨(find_bounds_run (WellFormed.keyed ⟨by decide, by decide⟩) (by decide)).1, by decide⟩

/-! ## The segment that contains an address -/

section Address

variable {t pre post : List S} {p s : S} {a : Nat}

lemma exists_cut_of_contains (h : WellFormed range t) (hs : s ∈ t) (ha : (range s).contains a) :
    ∃ pre post, t = pre ++ s :: post ∧ (∀ u ∈ pre, back range u ≤ a) ∧
      a < back range s ∧ ∀ u ∈ post, a < back range u := by
  obtain ⟨pre, post, rfl⟩ := append_of_mem hs
  refine ⟨pre, post, rfl, fun u hu => ?_, ha.2, fun u hu => ?_⟩
  · exact ((h.at_cons.2.1 u hu).2).trans ha.1
  · have := h.at_cons.2.2 u hu
    simp only [AnyRange.contains, back] at ha ⊢
    omega

lemma getElem?_upperBound (h : WellFormed range t) (hs : s ∈ t) (ha : (range s).contains a) :
    t[upperBound (back range) a t]? = some s := by
  obtain ⟨pre, post, rfl, hpre, hsa, hpost⟩ := exists_cut_of_contains h hs ha
  have hupper : upperBound (back range) a (pre ++ s :: post) = pre.length := by
    refine upperBound_append hpre fun u hu => ?_
    rcases mem_cons.1 hu with rfl | hu
    · exact hsa
    · exact hpost u hu
  rw [hupper, getElem?_append_cons]

lemma eq_of_contains (h : WellFormed range t) {u : S} (hs : s ∈ t) (hu : u ∈ t)
    (hsa : (range s).contains a) (hua : (range u).contains a) : s = u := by
  have hget := getElem?_upperBound h hs hsa
  rw [getElem?_upperBound h hu hua] at hget
  exact (Option.some.inj hget).symm

lemma getElem_contains_iff (h : WellFormed range (pre ++ s :: post)) (ha : (range s).contains a)
    {k : Nat} (hk : k < (pre ++ s :: post).length) :
    (range (pre ++ s :: post)[k]).contains a ↔ k = pre.length := by
  constructor
  · intro hka
    have hat := h.at_cons
    simp only [AnyRange.contains] at ha hka
    rcases Nat.lt_trichotomy k pre.length with hlt | heq | hgt
    · rw [getElem_append_left hlt] at hka
      have := hat.2.1 _ (getElem_mem hlt)
      omega
    · exact heq
    · rw [getElem_append_right (by omega)] at hka
      obtain ⟨j, hj⟩ : ∃ j, k - pre.length = j + 1 := ⟨k - pre.length - 1, by omega⟩
      simp only [hj, getElem_cons_succ] at hka
      have := hat.2.2 _ (getElem_mem (by simp at hk; omega : j < post.length))
      omega
  · rintro rfl
    simpa using ha

variable (range) in
/-- The address is the end of one segment and the start of another. -/
def Seam (t : List S) (a : Nat) : Prop := ∃ p ∈ t, ∃ s ∈ t, (range p).back = a ∧ (range s).front = a

variable (range) in
/-- `find(Address)` is the position of the one segment that contains the address, and `end()`
exactly when no segment does. -/
def FindsAddress (t : List S) (a : Nat) : Prop :=
  (∀ (k : Nat) (hk : k < t.length), findAddress range t a = k ↔ (range t[k]).contains a) ∧
    (findAddress range t a = t.length ↔ ∀ s ∈ t, ¬ (range s).contains a)

lemma findAddress_of_not_contains (h : ∀ s ∈ t, ¬ (range s).contains a) :
    findAddress range t a = t.length := by
  simp only [findAddress]
  cases hget : t[lowerBound (back range) a t]? with
  | none => rfl
  | some u => exact if_neg (h u (mem_of_getElem? hget))

lemma findsAddress_of_not_contains (h : ∀ s ∈ t, ¬ (range s).contains a) :
    FindsAddress range t a := by
  have hend := findAddress_of_not_contains h
  refine ⟨fun k hk => iff_of_false ?_ (h _ (getElem_mem hk)), iff_of_true hend h⟩
  omega

lemma findAddress_of_seam (h : WellFormed range t) (hp : p ∈ t) (hpa : (range p).back = a) :
    findAddress range t a = t.length := by
  obtain ⟨pre, post, rfl⟩ := append_of_mem hp
  have hat := h.at_cons
  have hlower : lowerBound (back range) a (pre ++ p :: post) = pre.length := by
    refine lowerBound_append (fun u hu => ?_) fun u hu => ?_
    · have := hat.2.1 u hu
      simp only [back]
      omega
    · rcases mem_cons.1 hu with rfl | hu
      · exact hpa.ge
      · have := hat.2.2 u hu
        simp only [back]
        omega
  have hno : ¬ (range p).contains a := by
    simp only [AnyRange.contains]
    omega
  simp only [findAddress, hlower, getElem?_append_cons, if_neg hno]

lemma findAddress_of_contains (h : WellFormed range (pre ++ s :: post))
    (ha : (range s).contains a) (hseam : ¬ Seam range (pre ++ s :: post) a) :
    findAddress range (pre ++ s :: post) a = pre.length := by
  have hat := h.at_cons
  have hlower : lowerBound (back range) a (pre ++ s :: post) = pre.length := by
    refine lowerBound_append (fun u hu => ?_) fun u hu => ?_
    · -- an earlier segment that ends at the address would end where `s` starts
      have hle := (hat.2.1 u hu).2
      have hfront := ha.1
      have hne : (range u).back ≠ a := fun heq =>
        hseam ⟨u, by simp [hu], s, by simp, heq, by omega⟩
      simp only [back]
      omega
    · rcases mem_cons.1 hu with rfl | hu
      · exact ha.2.le
      · have := hat.2.2 u hu
        simp only [AnyRange.contains, back] at ha ⊢
        omega
  simp only [findAddress, hlower, getElem?_append_cons, if_pos ha]

lemma findsAddress_iff (h : WellFormed range t) : FindsAddress range t a ↔ ¬ Seam range t a := by
  constructor
  · rintro ⟨-, hnone⟩ ⟨p, hp, s, hs, hpa, hsa⟩
    have := h.nonempty s hs
    exact hnone.1 (findAddress_of_seam h hp hpa) s hs ⟨hsa.le, by omega⟩
  · intro hseam
    by_cases hex : ∃ s ∈ t, (range s).contains a
    · obtain ⟨s, hs, ha⟩ := hex
      obtain ⟨pre, post, rfl⟩ := append_of_mem hs
      have hfind := findAddress_of_contains h ha hseam
      refine ⟨fun k hk => ?_, iff_of_false ?_ fun hnone => hnone s hs ha⟩
      · rw [hfind, getElem_contains_iff h ha hk]
        exact eq_comm
      · simp [hfind]
    · exact findsAddress_of_not_contains fun s hs ha => hex ⟨s, hs, ha⟩

end Address

end RangeTable
end BezOS

/-!
## Queries for the segment at an address

`querySegment` of the two memory managers next to the address lookup of their table. The queries
go through `upper_bound`, the lookup through `lower_bound`: the two differ where one segment ends
and the next one starts.
-/

namespace BezOS

open Lib MemorySegment MemoryManager

structure MemorySegmentStats where
  range : AnyRange
  owners : UInt8
  deriving DecidableEq

def MemorySegment.stats (s : MemorySegment) : MemorySegmentStats := ⟨s.allocation, s.owners⟩

def MemoryManager.querySegment (m : MemoryManager) (address : Nat) :
    Except OsStatus MemorySegmentStats :=
  match m.table[m.upper address]? with
  | none => .error .notFound
  | some segment =>
      let result := segment.stats
      if segment.allocation.contains address then .ok result else .error .notFound

def AddressSpaceManager.querySegment (m : AddressSpaceManager) (address : Nat) :
    Except OsStatus AddressSegment :=
  match m.table[m.upper address]? with
  | none => .error .notFound
  | some segment => if segment.range.contains address then .ok segment else .error .notFound

/-- A query answers with the segment of the table that contains the address, and with not-found
exactly when none does. -/
def QueryAgrees {S R : Type*} (range : S → AnyRange) (t : List S) (report : S → R) (a : Nat)
    (answer : Except OsStatus R) : Prop :=
  (∀ result, answer = .ok result ↔ ∃ s ∈ t, (range s).contains a ∧ result = report s) ∧
    (answer = .error .notFound ↔ ∀ s ∈ t, ¬ (range s).contains a)

lemma queryAgrees_of_upperBound {S R : Type*} {range : S → AnyRange} {t : List S}
    {report : S → R} {a : Nat} {answer : Except OsStatus R} (h : RangeTable.WellFormed range t)
    (hok : ∀ s, t[upperBound (RangeTable.back range) a t]? = some s → (range s).contains a →
      answer = .ok (report s))
    (herr : (∀ s, t[upperBound (RangeTable.back range) a t]? = some s → ¬ (range s).contains a) →
      answer = .error .notFound) : QueryAgrees range t report a answer := by
  by_cases hex : ∃ s ∈ t, (range s).contains a
  · obtain ⟨s, hs, hsa⟩ := hex
    have hans := hok s (RangeTable.getElem?_upperBound h hs hsa) hsa
    refine ⟨fun result => ?_, ?_⟩
    · rw [hans, Except.ok.injEq]
      constructor
      · rintro rfl
        exact ⟨s, hs, hsa, rfl⟩
      · rintro ⟨u, hu, hua, rfl⟩
        rw [RangeTable.eq_of_contains h hs hu hsa hua]
    · rw [hans]
      exact iff_of_false (by simp) fun hno => hno s hs hsa
  · have hno : ∀ s ∈ t, ¬ (range s).contains a := fun s hs hsa => hex ⟨s, hs, hsa⟩
    have hans := herr fun s hget => hno s (List.mem_of_getElem? hget)
    refine ⟨fun result => ?_, iff_of_true hans hno⟩
    rw [hans]
    refine iff_of_false (by simp) ?_
    rintro ⟨u, hu, hua, -⟩
    exact hno u hu hua

lemma MemoryManager.querySegment_agrees {m : MemoryManager}
    (h : RangeTable.WellFormed MemorySegment.range m.table) (a : Nat) :
    QueryAgrees MemorySegment.range m.table stats a (m.querySegment a) := by
  refine queryAgrees_of_upperBound h (fun s hget hsa => ?_) fun hno => ?_
  · have hsa' : s.allocation.contains a := hsa
    simp only [querySegment, upper, hget, if_pos hsa']
  · simp only [querySegment, upper]
    split
    · rfl
    · rename_i s hget
      exact if_neg (hno s hget)

lemma AddressSpaceManager.querySegment_agrees {m : AddressSpaceManager}
    (h : RangeTable.WellFormed AddressSegment.range m.table) (a : Nat) :
    QueryAgrees AddressSegment.range m.table id a (m.querySegment a) := by
  refine queryAgrees_of_upperBound h (fun s hget hsa => ?_) fun hno => ?_
  · simp [querySegment, upper, hget, if_pos hsa]
  · simp only [querySegment, upper]
    split
    · rfl
    · rename_i s hget
      exact if_neg (hno s hget)

/-- The table's lookup is right about an address exactly when it is no seam of the table; the two
managers' queries are right about every address in every reachable state. -/
theorem address_lookup_iff {S : Type*} {range : S → AnyRange} :
    (∀ (t : List S), RangeTable.Keyed range t → ∀ a,
      (RangeTable.FindsAddress range t a ↔ ¬ RangeTable.Seam range t a)) ∧
    (∀ (m : MemoryManager), m.Reachable → ∀ a,
      QueryAgrees MemorySegment.range m.table stats a (m.querySegment a)) ∧
    ∀ (m : AddressSpaceManager), m.Reachable → ∀ a,
      QueryAgrees AddressSegment.range m.table id a (m.querySegment a) := by
  refine ⟨fun t ht a => RangeTable.findsAddress_iff ht.wellFormed, fun m hm a => ?_,
    fun m hm a => ?_⟩
  · obtain ⟨others, htr⟩ := hm.tracks
    exact m.querySegment_agrees htr.wf a
  · exact m.querySegment_agrees hm.sound.wf a

/-- The first two pages of three touch: the query at the seam finds the second one. -/
theorem address_lookup_at_seam :
    (RangeTable.FindsAddress MemorySegment.range threePages.table 0x1800 ↔
      ¬ RangeTable.Seam MemorySegment.range threePages.table 0x1800) ∧
    QueryAgrees MemorySegment.range threePages.table stats 0x2000
      (threePages.querySegment 0x2000) ∧
    QueryAgrees AddressSegment.range AddressSpaceManager.threePages.table id 0x2000
      (AddressSpaceManager.threePages.querySegment 0x2000) :=
  ⟨address_lookup_iff.1 _ (RangeTable.WellFormed.keyed ⟨by decide, by decide⟩) _,
    (@address_lookup_iff AnyRange id).2.1 _ reachable_threePages _,
    (@address_lookup_iff AnyRange id).2.2 _ AddressSpaceManager.reachable_threePages _⟩

/-- The address where the first page of three ends and the second one starts is not found. -/
theorem not_findsAddress_at_seam :
    threePages.Reachable ∧
      ¬ RangeTable.FindsAddress MemorySegment.range threePages.table 0x2000 := by
  refine ⟨reachable_threePages, fun h => ?_⟩
  have hend := h.2.1 (by decide) ⟨1, ⟨0x2000, 0x3000⟩⟩ (by decide)
  exact hend (by decide)

end BezOS
