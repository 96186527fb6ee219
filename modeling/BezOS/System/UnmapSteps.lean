import BezOS.System.AddressSpaceManager

/-!
# The steps of an unmap

What the helpers of `AddressSpaceManager::unmap` do to a table cut at the segment they edit, how
many answers of the memory manager and the page tables they use up, and that every one of them
keeps the table well formed, whatever it returns.
-/

namespace BezOS
namespace AddressSpaceManager

open Lib AddressSegment List RangeTable

variable {m m' : AddressSpaceManager} {pre post mid : List AddressSegment} {s : AddressSegment}
  {r : AnyRange} {c : ServiceCall}

/-! ## Answers -/

def served (m : AddressSpaceManager) : Nat := (m.answers.takeWhile id).length

def callsOf (s : AddressSegment) : Nat := if s.hasBackingMemory then 2 else 1

lemma call_served (h : 0 < m.served) :
    ∃ m', m.call c = .ok m' ∧ m'.table = m.table ∧ m'.heap = m.heap ∧
      m'.served + 1 = m.served := by
  rcases m with ⟨table, heap, _ | ⟨_ | _, answers⟩, log⟩
  · simp [served] at h
  · simp [served] at h
  · exact ⟨_, rfl, rfl, rfl, by simp [served]⟩

lemma call_unserved (h : m.served = 0) : m.call c = .error .bugCheck := by
  rcases m with ⟨table, heap, _ | ⟨_ | _, answers⟩, log⟩
  · rfl
  · rfl
  · simp [served] at h

/-- A step from `m` to `m'` that left this table and took so many blocks and answers. -/
structure Takes (m m' : AddressSpaceManager) (table : List AddressSegment) (blocks calls : Nat) :
    Prop where
  table : m'.table = table
  blocks : granted m'.heap + blocks = granted m.heap
  calls : m'.served + calls = m.served

lemma call_takes (h : m.call c = .ok m') : Takes m m' m.table 0 1 := by
  by_cases h0 : m.served = 0
  · simp [call_unserved h0] at h
  · obtain ⟨m1, h1, ht, hh, hs⟩ := call_served (m := m) (c := c) (by omega)
    obtain rfl : m1 = m' := by simpa [h1] using h
    exact ⟨ht, by rw [hh]; rfl, hs⟩

lemma Takes.trans {m'' : AddressSpaceManager} {t t' : List AddressSegment} {b b' c c' : Nat}
    (h1 : Takes m m' t b c) (h2 : Takes m' m'' t' b' c') : Takes m m'' t' (b + b') (c + c') :=
  ⟨h2.table, by have := h1.blocks; have := h2.blocks; omega,
    by have := h1.calls; have := h2.calls; omega⟩

lemma deleteSegment_served (h : callsOf s ≤ m.served) : ∃ m', m.deleteSegment s = .ok m' := by
  by_cases hb : s.hasBackingMemory
  · simp only [callsOf, if_pos hb] at h
    obtain ⟨m1, h1, -, -, hs1⟩ := call_served (m := m) (c := .release s.backing) (by omega)
    obtain ⟨m2, h2, -, -, -⟩ := call_served (m := m1) (c := .unmap s.range) (by omega)
    exact ⟨m2.free s.allocation, by simp [deleteSegment, hb, h1, h2, bind, Except.bind, pure,
      Except.pure]⟩
  · simp only [callsOf, if_neg hb] at h
    obtain ⟨m1, h1, -, -, -⟩ := call_served (m := m) (c := .unmap s.range) (by omega)
    exact ⟨m1.free s.allocation, by simp [deleteSegment, hb, h1, bind, Except.bind, pure,
      Except.pure]⟩

lemma deleteSegment_takes (h : m.deleteSegment s = .ok m') :
    Takes m m' m.table 0 (callsOf s) := by
  simp only [deleteSegment, bind, Except.bind, pure, Except.pure] at h
  by_cases hb : s.hasBackingMemory
  · simp only [hb, if_true] at h
    cases h1 : m.call (.release s.backing) with
    | error e => simp [h1] at h
    | ok m1 =>
      cases h2 : m1.call (.unmap s.range) with
      | error e => simp [h1, h2] at h
      | ok m2 =>
        obtain rfl : m2.free s.allocation = m' := by simpa [h1, h2] using h
        have ht1 := call_takes h1
        have ht := ht1.trans (call_takes h2)
        exact ⟨ht.table.trans ht1.table, ht.blocks, by rw [callsOf, if_pos hb]; exact ht.calls⟩
  · simp only [hb, if_false] at h
    cases h1 : m.call (.unmap s.range) with
    | error e => simp [h1] at h
    | ok m1 =>
      obtain rfl : m1.free s.allocation = m' := by simpa [h1] using h
      have ht := call_takes h1
      exact ⟨ht.table, ht.blocks, by rw [callsOf, if_neg hb]; exact ht.calls⟩

/-! ## Erasing -/

section Erase

section

variable (ht : m.table = pre ++ s :: post)

include ht

lemma eraseSegmentAt_eq :
    m.eraseSegmentAt pre.length = (m.deleteSegment s).map fun m => m.erase pre.length := by
  have hget : m.table[pre.length]? = some s := by rw [ht, getElem?_append_cons]
  simp only [eraseSegmentAt, hget]
  cases m.deleteSegment s <;> rfl

lemma eraseSegmentAt_served (h : callsOf s ≤ m.served) :
    ∃ m', m.eraseSegmentAt pre.length = .ok m' := by
  obtain ⟨m1, h1⟩ := deleteSegment_served h
  exact ⟨m1.erase pre.length, by rw [eraseSegmentAt_eq ht, h1]; rfl⟩

lemma eraseSegmentAt_takes (h : m.eraseSegmentAt pre.length = .ok m') :
    Takes m m' (pre ++ post) 0 (callsOf s) := by
  rw [eraseSegmentAt_eq ht] at h
  cases hdel : m.deleteSegment s with
  | error e => simp [hdel, Except.map] at h
  | ok m1 =>
    obtain rfl : m1.erase pre.length = m' := by simpa [hdel, Except.map] using h
    have h1 := deleteSegment_takes hdel
    exact ⟨by rw [erase, h1.table, ht, eraseIdx_append_cons], h1.blocks, h1.calls⟩

end

lemma cut_at {it : Nat} (h : m.table[it]? = some s) :
    ∃ pre post, m.table = pre ++ s :: post ∧ pre.length = it := by
  obtain ⟨hlt, hval⟩ := List.getElem?_eq_some_iff.1 h
  refine ⟨m.table.take it, m.table.drop (it + 1), ?_, ?_⟩
  · rw [← hval]
    simp
  · rw [length_take]
    omega

lemma eraseSegment_takes (h : m.eraseSegment r = .ok m') :
    ∃ pre s post, m.table = pre ++ s :: post ∧ s.range.back = r.back ∧
      Takes m m' (pre ++ post) 0 (callsOf s) := by
  simp only [eraseSegment] at h
  split at h
  · simp at h
  · rename_i hne
    have hfind : findKey (back range) r.back m.table < m.table.length :=
      lt_of_le_of_ne findIdx_le_length hne
    have hkey := findIdx_getElem (w := hfind)
    rw [decide_eq_true_eq] at hkey
    obtain ⟨pre, post, ht, hlen⟩ := cut_at (getElem?_eq_getElem hfind)
    rw [← hlen] at h
    exact ⟨pre, _, post, ht, hkey, eraseSegmentAt_takes ht h⟩

lemma eraseSegment_eq (ht : m.table = pre ++ s :: post)
    (hwf : RangeTable.WellFormed range m.table) (hr : r.back = s.range.back) :
    m.eraseSegment r = m.eraseSegmentAt pre.length := by
  have hkey : findKey (back range) r.back m.table = pre.length := by
    rw [hr, ht]
    exact findKey_eq (ht ▸ hwf)
  have hne : pre.length ≠ m.table.length := by simp [ht]
  simp only [eraseSegment, hkey, if_neg hne]

def callsOfAll (l : List AddressSegment) : Nat := (l.map callsOf).sum

lemma upper_eq {a : Nat} (ht : m.table = pre ++ post) (hpre : ∀ s ∈ pre, s.range.back ≤ a)
    (hpost : ∀ s ∈ post, a < s.range.back) : m.upper a = pre.length := by
  rw [upper, ht]
  exact upperBound_append hpre hpost

section Many

variable (hpost : ∀ s ∈ post, r.back < s.range.back) {inner : List AddressSegment}

include hpost

lemma eraseManyLoop_takes (hpre : ∀ s ∈ pre, s.range.back ≤ r.back) {fuel : Nat}
    (ht : m.table = pre ++ (inner ++ post)) (hinner : ∀ s ∈ inner, s.range.back ≤ r.back)
    (h : eraseManyLoop r fuel m pre.length (pre.length + inner.length) = .ok m') :
    Takes m m' (pre ++ post) 0 (callsOfAll inner) := by
  induction inner generalizing m fuel with
  | nil =>
    cases fuel with
    | zero => simp [eraseManyLoop] at h
    | succ fuel =>
      obtain rfl : m = m' := by simpa [eraseManyLoop] using h
      exact ⟨ht, rfl, rfl⟩
  | cons s inner ih =>
    cases fuel with
    | zero => simp [eraseManyLoop] at h
    | succ fuel =>
      have ht' : m.table = pre ++ s :: (inner ++ post) := by simp [ht]
      have hget : m.table[pre.length]? = some s := by rw [ht', getElem?_append_cons]
      have hne : pre.length ≠ pre.length + (s :: inner).length := by simp
      simp only [eraseManyLoop, if_neg hne, hget] at h
      split at h
      · simp at h
      · cases he : m.eraseSegmentAt pre.length with
        | error e => simp [he] at h
        | ok m1 =>
          have h1 := eraseSegmentAt_takes ht' he
          -- the end is looked up again and lies one position lower
          have hend : m1.upper r.back = pre.length + inner.length := by
            have hcut : m1.table = (pre ++ inner) ++ post := by rw [h1.table, append_assoc]
            rw [upper_eq hcut (fun u hu => ?_) hpost, length_append]
            rcases mem_append.1 hu with hu | hu
            · exact hpre u hu
            · exact hinner u (by simp [hu])
          simp only [he, hend] at h
          have h2 := ih h1.table (fun u hu => hinner u (by simp [hu])) h
          simpa [callsOfAll] using h1.trans h2

lemma eraseManyLoop_served (hpre : ∀ s ∈ pre, s.range.back ≤ r.back) {fuel : Nat}
    (ht : m.table = pre ++ (inner ++ post)) (hinner : ∀ s ∈ inner, r.containsRange s.range)
    (hfuel : inner.length < fuel) (hcalls : callsOfAll inner ≤ m.served) :
    ∃ m', eraseManyLoop r fuel m pre.length (pre.length + inner.length) = .ok m' := by
  induction inner generalizing m fuel with
  | nil =>
    obtain ⟨fuel, rfl⟩ : ∃ n, fuel = n + 1 := ⟨fuel - 1, by simp at hfuel; omega⟩
    exact ⟨m, by simp [eraseManyLoop]⟩
  | cons s inner ih =>
    obtain ⟨fuel, rfl⟩ : ∃ n, fuel = n + 1 := ⟨fuel - 1, by simp at hfuel; omega⟩
    simp only [callsOfAll, map_cons, sum_cons] at hcalls
    have ht' : m.table = pre ++ s :: (inner ++ post) := by simp [ht]
    have hget : m.table[pre.length]? = some s := by rw [ht', getElem?_append_cons]
    obtain ⟨m1, he⟩ := eraseSegmentAt_served ht' (by omega)
    have h1 := eraseSegmentAt_takes ht' he
    have hend : m1.upper r.back = pre.length + inner.length := by
      have hcut : m1.table = (pre ++ inner) ++ post := by rw [h1.table, append_assoc]
      rw [upper_eq hcut (fun u hu => ?_) hpost, length_append]
      rcases mem_append.1 hu with hu | hu
      · exact hpre u hu
      · exact (hinner u (by simp [hu])).2
    obtain ⟨m', hm'⟩ := ih h1.table (fun u hu => hinner u (by simp [hu]))
      (by simp at hfuel; omega) (by have := h1.calls; simp only [callsOfAll]; omega)
    have hne : pre.length ≠ pre.length + (s :: inner).length := by simp
    refine ⟨m', ?_⟩
    simp [eraseManyLoop, hget, hinner s (by simp), not_true_eq_false, if_false, he, hend, hm']

section

variable (hpre : ∀ s ∈ pre, s.range.back ≤ r.front) (hr : r.front ≤ r.back)
  (ht : m.table = pre ++ (inner ++ post))

include hpre hr ht

lemma eraseMany_eq (hinner : ∀ s ∈ inner, r.front < s.range.back ∧ s.range.back ≤ r.back) :
    m.eraseMany r = eraseManyLoop r (m.table.length + 1) m pre.length (pre.length + inner.length) := by
  have hbegin : m.upper r.front = pre.length := by
    refine upper_eq ht hpre fun u hu => ?_
    rcases mem_append.1 hu with hu | hu
    · exact (hinner u hu).1
    · exact lt_of_le_of_lt hr (hpost u hu)
  have hend : m.upper r.back = pre.length + inner.length := by
    have hcut : m.table = (pre ++ inner) ++ post := by rw [ht, append_assoc]
    rw [upper_eq hcut (fun u hu => ?_) hpost, length_append]
    rcases mem_append.1 hu with hu | hu
    · exact (hpre u hu).trans hr
    · exact (hinner u hu).2
  rw [eraseMany, hbegin, hend]

lemma eraseMany_takes (hinner : ∀ s ∈ inner, r.front < s.range.back ∧ s.range.back ≤ r.back)
    (h : m.eraseMany r = .ok m') : Takes m m' (pre ++ post) 0 (callsOfAll inner) := by
  rw [eraseMany_eq hpost hpre hr ht hinner] at h
  exact eraseManyLoop_takes hpost (fun s hs => (hpre s hs).trans hr) ht
    (fun s hs => (hinner s hs).2) h

lemma eraseMany_served (hinner : ∀ s ∈ inner, r.front < s.range.back ∧ r.containsRange s.range)
    (hcalls : callsOfAll inner ≤ m.served) : ∃ m', m.eraseMany r = .ok m' := by
  rw [eraseMany_eq hpost hpre hr ht fun s hs => ⟨(hinner s hs).1, (hinner s hs).2.2⟩]
  refine eraseManyLoop_served hpost (fun s hs => (hpre s hs).trans hr) ht
    (fun s hs => (hinner s hs).2) ?_ hcalls
  rw [ht, length_append, length_append]
  omega

end

end Many

end Erase

/-! ## Splitting -/

def lowPart (s : AddressSegment) (p : Nat) : AddressSegment :=
  ⟨s.backingFirst (p - s.range.front), ⟨s.range.front, p⟩⟩

def highPart (s : AddressSegment) (p : Nat) : AddressSegment :=
  ⟨s.backingLast (s.range.back - p), ⟨p, s.range.back⟩⟩

def keptPart (s : AddressSegment) (p : Nat) : ReleaseSide → AddressSegment
  | .low => highPart s p
  | .high => lowPart s p

def gonePart (s : AddressSegment) (p : Nat) : ReleaseSide → AddressSegment
  | .low => lowPart s p
  | .high => highPart s p

@[simp] lemma lowPart_range (s : AddressSegment) (p : Nat) :
    (lowPart s p).range = ⟨s.range.front, p⟩ := rfl

@[simp] lemma highPart_range (s : AddressSegment) (p : Nat) :
    (highPart s p).range = ⟨p, s.range.back⟩ := rfl

section Split

variable {p : Nat} {side : ReleaseSide} {status : OsStatus} (ht : m.table = pre ++ s :: post)

include ht

lemma splitSegment_outside (hp : p ≤ s.range.front ∨ s.range.back ≤ p) :
    m.splitSegment pre.length p side = .ok (.invalidInput, m) := by
  have hget : m.table[pre.length]? = some s := by rw [ht, getElem?_append_cons]
  simp [splitSegment, hget, split_of_outside hp]

lemma splitSegment_refused (side : ReleaseSide) (hp : s.range.front < p ∧ p < s.range.back)
    (hg : granted m.heap = 0) :
    ∃ h, m.splitSegment pre.length p side = .ok (.outOfMemory, { m with heap := h }) := by
  have hget : m.table[pre.length]? = some s := by rw [ht, getElem?_append_cons]
  obtain ⟨h, hsplit, -⟩ := split_of_refused hp hg
  exact ⟨h, by simp only [splitSegment, hget, allocation_eq_range, hsplit]⟩

lemma splitSegment_granted (side : ReleaseSide)
    (hwf : RangeTable.WellFormed range m.table)
    (hp : s.range.front < p ∧ p < s.range.back) (hg : 0 < granted m.heap) :
    ∃ m1, Takes m m1 (pre ++ keptPart s p side :: post) 1 0 ∧
      m.splitSegment pre.length p side =
        (m1.deleteSegment (gonePart s p side)).map fun m => (.success, m) := by
  have hget : m.table[pre.length]? = some s := by rw [ht, getElem?_append_cons]
  obtain ⟨h, hsplit, hgr, -⟩ := split_of_granted hp hg
  have hinsert : ∀ q : AddressSegment, s.range.front < q.range.back →
      q.range.back ≤ s.range.back →
      (({ m with heap := h }.erase pre.length).addSegment q).table = pre ++ q :: post := by
    intro q hlow hhigh
    simp only [addSegment, erase]
    rw [ht, eraseIdx_append_cons]
    exact insert_inside (ht ▸ hwf) hlow hhigh
  cases side with
  | low =>
    have hback : (highPart s p).range.back = s.range.back := by rw [highPart_range]
    refine ⟨({ m with heap := h }.erase pre.length).addSegment (highPart s p),
      ⟨hinsert (highPart s p) (by omega) (by omega), hgr, rfl⟩, ?_⟩
    simp only [splitSegment, hget, allocation_eq_range, hsplit, gonePart, lowPart,
      highPart]
    generalize deleteSegment _ _ = d
    cases d <;> rfl
  | high =>
    have hback : (lowPart s p).range.back = p := by rw [lowPart_range]
    refine ⟨({ m with heap := h }.erase pre.length).addSegment (lowPart s p),
      ⟨hinsert (lowPart s p) (by omega) (by omega), hgr, rfl⟩, ?_⟩
    simp only [splitSegment, hget, allocation_eq_range, hsplit, gonePart, lowPart,
      highPart]
    generalize deleteSegment _ _ = d
    cases d <;> rfl

lemma splitSegment_served (side : ReleaseSide)
    (hwf : RangeTable.WellFormed range m.table)
    (hp : s.range.front < p ∧ p < s.range.back) (hg : 0 < granted m.heap)
    (hc : callsOf (gonePart s p side) ≤ m.served) :
    ∃ m', m.splitSegment pre.length p side = .ok (.success, m') := by
  obtain ⟨m1, h1, heq⟩ := splitSegment_granted ht side hwf hp hg
  obtain ⟨m2, h2⟩ := deleteSegment_served (m := m1) (s := gonePart s p side)
    (by have := h1.calls; omega)
  exact ⟨m2, by rw [heq, h2]; rfl⟩

lemma splitSegment_takes (hwf : RangeTable.WellFormed range m.table)
    (h : m.splitSegment pre.length p side = .ok (status, m')) :
    (status = .success ∧ (s.range.front < p ∧ p < s.range.back) ∧
        Takes m m' (pre ++ keptPart s p side :: post) 1 (callsOf (gonePart s p side))) ∨
      (status ≠ .success ∧ m'.table = m.table) := by
  by_cases hp : s.range.front < p ∧ p < s.range.back
  · by_cases hg : granted m.heap = 0
    · obtain ⟨h', heq⟩ := splitSegment_refused ht side hp hg
      rw [heq] at h
      cases h
      exact .inr ⟨by decide, rfl⟩
    · obtain ⟨m1, h1, heq⟩ := splitSegment_granted ht side hwf hp (by omega)
      rw [heq] at h
      cases hdel : m1.deleteSegment (gonePart s p side) with
      | error e => simp [hdel, Except.map] at h
      | ok m2 =>
        simp only [hdel, Except.map, Except.ok.injEq, Prod.mk.injEq] at h
        obtain ⟨rfl, rfl⟩ := h
        have h2 := h1.trans (deleteSegment_takes hdel)
        refine .inl ⟨rfl, hp, ?_, h2.blocks, by have := h2.calls; omega⟩
        rw [h2.table, h1.table]
  · rw [splitSegment_outside ht (by omega)] at h
    cases h
    exact .inr ⟨by decide, rfl⟩

end Split

/-! ## What stays -/

section Stays

variable {p : Nat} {side : ReleaseSide} {status : OsStatus} {x : AddressSegment}

lemma eq_of_contains (hwf : RangeTable.WellFormed range m.table) (hs : s ∈ m.table)
    (hx : x ∈ m.table) {a : Nat} (hsa : s.range.contains a) (hxa : x.range.contains a) : s = x := by
  obtain ⟨pre, post, ht⟩ := append_of_mem hs
  have hat := (ht ▸ hwf).at_cons
  simp only [AnyRange.contains] at hsa hxa
  simp only [ht, mem_append, mem_cons] at hx
  rcases hx with hx | hx | hx
  · have := hat.2.1 x hx
    omega
  · exact hx.symm
  · have := hat.2.2 x hx
    omega

lemma eraseSegment_mem (h : m.eraseSegment r = .ok m') (hs : s ∈ m.table)
    (hne : s.range.back ≠ r.back) : s ∈ m'.table := by
  obtain ⟨pre, u, post, ht, hu, htakes⟩ := eraseSegment_takes h
  rw [htakes.table]
  simp only [ht, mem_append, mem_cons] at hs ⊢
  rcases hs with hs | rfl | hs
  · exact .inl hs
  · exact absurd hu hne
  · exact .inr hs

lemma eraseSegment_sublist (h : m.eraseSegment r = .ok m') : m'.table.Sublist m.table := by
  obtain ⟨pre, u, post, ht, -, htakes⟩ := eraseSegment_takes h
  rw [htakes.table, ht]
  exact (sublist_cons_self u post).append_left pre

section

variable (hwf : RangeTable.WellFormed range m.table)

include hwf

lemma eraseMany_keeps (hr : r.front ≤ r.back) (h : m.eraseMany r = .ok m') :
    m'.table.Sublist m.table ∧
      ∀ s, s ∈ m'.table ↔ s ∈ m.table ∧ (s.range.back ≤ r.front ∨ r.back < s.range.back) := by
  -- ends increase along the table, so the erased segments are consecutive
  have hmono : m.table.Pairwise fun a b => a.range.back < b.range.back := by
    refine hwf.disjoint.imp_of_mem fun {a b} _ hb hab => ?_
    have := hwf.nonempty b hb
    omega
  let before : AddressSegment → Bool := fun s => decide (s.range.back ≤ r.front)
  let within : AddressSegment → Bool := fun s => decide (s.range.back ≤ r.back)
  let rest := m.table.dropWhile before
  have hrest : ∀ s ∈ rest, before s = false := by
    refine not_of_mem_dropWhile (hmono.imp fun {a b} hab => ?_)
    simp only [before, decide_eq_true_eq]
    omega
  have hafter : ∀ s ∈ rest.dropWhile within, within s = false := by
    refine not_of_mem_dropWhile ((hmono.sublist (dropWhile_sublist _)).imp fun {a b} hab => ?_)
    simp only [within, decide_eq_true_eq]
    omega
  have ht : m.table = m.table.takeWhile before ++ (rest.takeWhile within ++ rest.dropWhile within) := by
    rw [takeWhile_append_dropWhile, takeWhile_append_dropWhile]
  have hpre : ∀ s ∈ m.table.takeWhile before, s.range.back ≤ r.front := by
    intro s hs
    simpa [before] using mem_takeWhile_imp hs
  have hinner : ∀ s ∈ rest.takeWhile within, r.front < s.range.back ∧ s.range.back ≤ r.back := by
    intro s hs
    have h1 := hrest s ((takeWhile_sublist _).subset hs)
    have h2 := mem_takeWhile_imp hs
    simp only [before, within, decide_eq_false_iff_not, decide_eq_true_eq] at h1 h2
    omega
  have hpost : ∀ s ∈ rest.dropWhile within, r.back < s.range.back := by
    intro s hs
    have := hafter s hs
    simp only [within, decide_eq_false_iff_not] at this
    omega
  have htakes := eraseMany_takes hpost hpre hr ht hinner h
  generalize m.table.takeWhile before = pre at *
  generalize rest.takeWhile within = inner at *
  generalize rest.dropWhile within = post at *
  rw [htakes.table, ht]
  refine ⟨(sublist_append_right inner post).append_left pre, fun s => ?_⟩
  simp only [mem_append]
  constructor
  · rintro (hs | hs)
    · exact ⟨.inl hs, .inl (hpre s hs)⟩
    · exact ⟨.inr (.inr hs), .inr (hpost s hs)⟩
  · rintro ⟨hs | hs | hs, hout⟩
    · exact .inl hs
    · have := hinner s hs
      omega
    · exact .inr hs

lemma splitAddress_takes (h : m.splitSegment (findAddress range m.table p) p side =
      .ok (status, m')) :
    ∃ pre s post, m.table = pre ++ s :: post ∧ s.range.contains p ∧
      ((status = .success ∧ (s.range.front < p ∧ p < s.range.back) ∧
          Takes m m' (pre ++ keptPart s p side :: post) 1 (callsOf (gonePart s p side))) ∨
        (status ≠ .success ∧ m'.table = m.table)) := by
  have hend : ∀ {it : Nat}, m.splitSegment it p side = .ok (status, m') → it ≠ m.table.length := by
    rintro it hit rfl
    simp [splitSegment] at hit
  have hne := hend h
  simp only [findAddress] at h hne
  split at h
  · rename_i s hget
    simp only [hget] at hne
    by_cases hcon : s.range.contains p
    · rw [if_pos hcon] at h
      obtain ⟨pre, post, ht, hlen⟩ := cut_at hget
      rw [← hlen] at h
      exact ⟨pre, s, post, ht, hcon, splitSegment_takes ht hwf h⟩
    · simp [hcon] at hne
  · rename_i hget
    simp [hget] at hne

lemma splitAddress_mem (h : m.splitSegment (findAddress range m.table p) p side =
      .ok (status, m')) (hs : s ∈ m.table) (hp : ¬ s.range.contains p) : s ∈ m'.table := by
  obtain ⟨pre, u, post, ht, hu, ⟨-, -, htakes⟩ | ⟨-, hsame⟩⟩ := splitAddress_takes hwf h
  · rw [htakes.table]
    simp only [ht, mem_append, mem_cons] at hs ⊢
    rcases hs with hs | rfl | hs
    · exact .inl hs
    · exact absurd hu hp
    · exact .inr (.inr hs)
  · rwa [hsame]

lemma not_unmapDeferred (hr : r.front < r.back) (hs : s ∈ m.table) (hmeet : r.Meets s.range) :
    ¬ unmapDeferred r m := by
  obtain ⟨pre, mid, post, ha⟩ := hwf.exists_around r
  have hmid : s ∈ mid := by
    rw [← ha.filter_meets, mem_filter]
    exact ⟨hs, by simpa using hmeet⟩
  obtain ⟨x, mid, rfl⟩ := exists_cons_of_ne_nil (ne_nil_of_mem hmid)
  have hget : m.table[m.upper r.front]? = some x := by
    rw [upper, ha.upperBound_front hwf hr, ha.eq]
    simp
  intro hdef
  have hempty := hdef x (by rw [hget]; rfl)
  have hx := ha.meets x (by simp)
  have hxne := hwf.nonempty x (by simp [ha.eq])
  have hover : ¬ min r.back x.range.back ≤ max r.front x.range.front := by omega
  simp only [AnyRange.intersection, AnyRange.isEmpty, if_neg hover] at hempty
  omega

end

end Stays

end AddressSpaceManager
end BezOS
