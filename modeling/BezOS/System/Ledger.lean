import BezOS.System.ReferenceCounts

/-!
# Owner counts against the history of calls

A ledger keeps, next to the manager, how many successful retains and releases have covered each
address since it was last allocated, and how often a retain raised its count but failed. Along
every run whose calls neither push a count past its maximum nor stop a release half way, the
counts agree with the ledger, and so a page is freed only when its retains have been released.
-/

namespace BezOS
namespace MemoryManager

open Lib

variable {m m' : MemoryManager} {others : List AnyRange} {pre post mid : List MemorySegment}
  {s : MemorySegment} {r : AnyRange} {a : Nat}

/-! ## Calls that keep the counts honest -/

/-- The segments a retain raises, whether or not it then reports success. -/
def raised (m : MemoryManager) (r : AnyRange) : List MemorySegment :=
  if m.splits r ≤ granted m.heap then m.touched r
  else if m.startsInGap r then (m.touched r).dropLast
  else []

/-- No count passes its maximum, and no release stops after it has lowered some counts. -/
def Careful (m : MemoryManager) : Call → Prop
  | .retain r => ∀ s ∈ m.raised r, s.owners ≠ 255
  | .release r =>
      m.touched r = [] ∨ (m.splits r ≤ granted m.heap ∧ m.loopShape r) ∨
        (granted m.heap < m.splits r ∧ ¬ (2 ≤ (m.touched r).length ∧ m.startsInGap r))
  | _ => True

lemma ownersAt_map_retained (t : List MemorySegment) (a : Nat) :
    ownersAt (t.map MemorySegment.retained) a = (ownersAt t a).map fun n => (n + 1) % 256 := by
  induction t with
  | nil => rfl
  | cons s t ih =>
    rw [List.map_cons, ownersAt_cons, ownersAt_cons, MemorySegment.range_retained, ih]
    split
    · simp [UInt8.toNat_add]
    · rfl

lemma retain_effect (hwf : RangeTable.WellFormed MemorySegment.range m.table)
    (hr : r.front < r.back) (hcare : m.Careful (.retain r)) {st : OsStatus}
    (h : m.retain r = .ok (st, m')) (a : Nat) :
    (ownersAt m'.table a = ownersAt m.table a ∧
      (st = .success → ¬ r.contains a ∨ ownersAt m.table a = none)) ∨
    ∃ n, ownersAt m.table a = some n ∧ ownersAt m'.table a = some (n + 1) ∧
      (st = .success → r.contains a) := by
  obtain ⟨pre, mid, post, har⟩ := hwf.exists_around r
  by_cases hmid : mid = []
  · subst hmid
    obtain ⟨rfl, rfl⟩ := eq_of_ok_eq ((retain_none hwf hr har).symm.trans h)
    exact .inl ⟨rfl, by simp⟩
  · by_cases hg : m.splits r ≤ granted m.heap
    · obtain ⟨h', hres⟩ := retain_granted hwf hr har hmid hg
      obtain ⟨-, rfl⟩ := eq_of_ok_eq (hres.symm.trans h)
      have hcount := ownersAt_retained hwf har a
      rw [hcount, updateAt_eq]
      by_cases hra : r.contains a
      · rw [if_pos hra]
        cases hown : ownersAt m.table a with
        | none => exact .inl ⟨rfl, fun _ => .inr rfl⟩
        | some n =>
          obtain ⟨s, hs, hsa, rfl⟩ := exists_of_ownersAt hown
          have hmem : s ∈ m.raised r := by
            rw [raised, if_pos hg]
            exact mem_touched_of_contains hs hsa hra
          have hlt := s.owners.toNat_lt
          have hne : s.owners.toNat ≠ 255 := fun heq => hcare s hmem (UInt8.toNat_inj.1 heq)
          refine .inr ⟨_, rfl, ?_, fun _ => hra⟩
          rw [Option.bind_some, Nat.mod_eq_of_lt (by omega)]
      · rw [if_neg hra]
        exact .inl ⟨rfl, fun _ => .inl hra⟩
    · have hlt : granted m.heap < m.splits r := by omega
      by_cases hgap : 2 ≤ mid.length ∧ m.startsInGap r
      · obtain ⟨h', init, last, rfl, -, hres⟩ := retain_late hwf hr har hlt hgap
        obtain ⟨rfl, rfl⟩ := eq_of_ok_eq (hres.symm.trans h)
        have ht : m.table = pre ++ (init ++ last :: post) := by simp [har.eq]
        have hraised : m.raised r = init := by
          rw [raised, if_neg hg, if_pos hgap.2, touched_eq har]
          simp
        rw [ht]
        simp only [ownersAt_append, ownersAt_map_retained]
        cases hpre : ownersAt pre a with
        | some n => exact .inl ⟨rfl, by simp⟩
        | none =>
          cases hinit : ownersAt init a with
          | none => exact .inl ⟨rfl, by simp⟩
          | some n =>
            obtain ⟨s, hs, -, rfl⟩ := exists_of_ownersAt hinit
            have hlt := s.owners.toNat_lt
            have hne : s.owners.toNat ≠ 255 := fun heq =>
              hcare s (by rwa [hraised]) (UInt8.toNat_inj.1 heq)
            refine .inr ⟨s.owners.toNat, rfl, ?_, by simp⟩
            rw [Option.map_some, Nat.mod_eq_of_lt (by omega)]
            rfl
      · obtain ⟨h', hres⟩ := retain_refused hwf hr har hlt hgap
        obtain ⟨rfl, rfl⟩ := eq_of_ok_eq (hres.symm.trans h)
        exact .inl ⟨rfl, by simp⟩

lemma release_effect (hwf : RangeTable.WellFormed MemorySegment.range m.table)
    (hr : r.front < r.back) (hcare : m.Careful (.release r)) {st : OsStatus}
    (h : m.release r = .ok (st, m')) (a : Nat) :
    (ownersAt m'.table a = ownersAt m.table a ∧
      (st = .success → ¬ r.contains a ∨ ownersAt m.table a = none)) ∨
    ∃ n, ownersAt m.table a = some n ∧ st = .success ∧ r.contains a ∧
      ownersAt m'.table a = if n = 1 then none else some ((n + 255) % 256) := by
  obtain ⟨pre, mid, post, har⟩ := hwf.exists_around r
  by_cases hmid : mid = []
  · subst hmid
    obtain ⟨rfl, rfl⟩ := eq_of_ok_eq ((release_none hwf hr har).symm.trans h)
    exact .inl ⟨rfl, by simp⟩
  · rcases hcare with hnone | hok | ⟨hlt, hgap⟩
    · rw [touched_eq har] at hnone
      exact absurd hnone hmid
    · obtain ⟨h', hres⟩ := (release_iff hwf hr har hmid).1 hok
      obtain ⟨rfl, rfl⟩ := eq_of_ok_eq (hres.symm.trans h)
      have hcount := ownersAt_released hwf har a
      rw [hcount, updateAt_eq]
      by_cases hra : r.contains a
      · rw [if_pos hra]
        cases hown : ownersAt m.table a with
        | none => exact .inl ⟨rfl, fun _ => .inr rfl⟩
        | some n => exact .inr ⟨n, rfl, rfl, hra, rfl⟩
      · rw [if_neg hra]
        exact .inl ⟨rfl, fun _ => .inl hra⟩
    · rw [touched_eq har] at hgap
      obtain ⟨h', hres⟩ := release_refused hwf hr har hlt hgap
      obtain ⟨rfl, rfl⟩ := eq_of_ok_eq (hres.symm.trans h)
      exact .inl ⟨rfl, by simp⟩

lemma allocate_effect (hm : Tracks others m) (hr : r.front < r.back)
    (hnew : ∀ u ∈ m.heap.used, ¬ AnyRange.Meets r u) (a : Nat) :
    ownersAt (m.allocate (some r)).2.table a =
      if r.contains a then some 1 else ownersAt m.table a := by
  obtain ⟨htr, pre, post, ht, ht'⟩ := allocate_tracks hm hr hnew
  by_cases hra : r.contains a
  · rw [if_pos hra]
    exact ownersAt_of_mem (s := ⟨1, r⟩) htr.wf (by simp [ht']) hra
  · rw [if_neg hra, ht', ht, ownersAt_append, ownersAt_append, ownersAt_cons,
      MemorySegment.range_mk, if_neg hra]

end MemoryManager

/-! ## The ledger -/

structure Ledger where
  manager : MemoryManager
  /-- Successful retains that covered the address since it was allocated. -/
  retained : Nat → Nat
  /-- Successful releases that covered the address since it was allocated. -/
  released : Nat → Nat
  /-- Failed retains that nevertheless raised the count of the address. -/
  stray : Nat → Nat

namespace Ledger

open Lib MemoryManager

def record (l : Ledger) (m' : MemoryManager) : Call × OsStatus → Ledger
  | (.allocate (some r), _) =>
      { manager := m'
        retained := fun a => if r.contains a then 0 else l.retained a
        released := fun a => if r.contains a then 0 else l.released a
        stray := fun a => if r.contains a then 0 else l.stray a }
  | (.retain r, .success) =>
      { l with manager := m'
               retained := fun a => if r.contains a then l.retained a + 1 else l.retained a }
  | (.retain _, _) =>
      { l with manager := m'
               stray := fun a =>
                if ownersAt m'.table a = ownersAt l.manager.table a then l.stray a
                else l.stray a + 1 }
  | (.release r, .success) =>
      { l with manager := m'
               released := fun a => if r.contains a then l.released a + 1 else l.released a }
  | _ => { l with manager := m' }

inductive Step : Ledger → Call × OsStatus → Ledger → Prop
  | call {l : Ledger} {label : Call × OsStatus} {m' : MemoryManager}
      (hcare : l.manager.Careful label.1) (hstep : MemoryManager.Step l.manager label m') :
      Step l label (l.record m' label)

/-- Every segment has an owner, and its count is what the ledger says. -/
def Balanced (l : Ledger) : Prop :=
  ∀ a n, ownersAt l.manager.table a = some n →
    n ≠ 0 ∧ n + l.released a = 1 + l.retained a + l.stray a

variable {l l' : Ledger} {a : Nat} {label : Call × OsStatus}

lemma record_manager (m' : MemoryManager) (label : Call × OsStatus) :
    (l.record m' label).manager = m' := by
  unfold record
  split <;> rfl

lemma balanced_retain (hl : l.Balanced)
    (hwf : RangeTable.WellFormed MemorySegment.range l.manager.table) {r : AnyRange}
    {st : OsStatus} {m' : MemoryManager} (hr : r.front < r.back)
    (hcare : l.manager.Careful (.retain r)) (h : l.manager.retain r = .ok (st, m')) :
    (l.record m' (.retain r, st)).Balanced := by
  intro a n hown
  rw [record_manager] at hown
  have heff := retain_effect hwf hr hcare h a
  by_cases hst : st = .success
  · subst hst
    simp only [record]
    rcases heff with ⟨hsame, hout⟩ | ⟨k, hk, hk', hin⟩
    · rw [hsame] at hown
      have hra : ¬ r.contains a := (hout rfl).resolve_right (by simp [hown])
      rw [if_neg hra]
      exact hl a n hown
    · have hbal := hl a k hk
      rw [hk', Option.some_inj] at hown
      rw [if_pos (hin rfl)]
      omega
  · have hrec : l.record m' (.retain r, st) =
        { l with manager := m'
                 stray := fun a =>
                  if ownersAt m'.table a = ownersAt l.manager.table a then l.stray a
                  else l.stray a + 1 } := by
      cases st <;> first | rfl | exact absurd rfl hst
    rw [hrec]
    rcases heff with ⟨hsame, -⟩ | ⟨k, hk, hk', -⟩
    · rw [hsame] at hown
      simpa [hsame] using hl a n hown
    · have hbal := hl a k hk
      rw [hk', Option.some_inj] at hown
      have hne : ¬ ownersAt m'.table a = ownersAt l.manager.table a := by
        rw [hk, hk']
        simp
      simp only [if_neg hne]
      omega

lemma balanced_release (hl : l.Balanced)
    (hwf : RangeTable.WellFormed MemorySegment.range l.manager.table) {r : AnyRange}
    {st : OsStatus} {m' : MemoryManager} (hr : r.front < r.back)
    (hcare : l.manager.Careful (.release r)) (h : l.manager.release r = .ok (st, m')) :
    (l.record m' (.release r, st)).Balanced := by
  intro a n hown
  rw [record_manager] at hown
  rcases release_effect hwf hr hcare h a with ⟨hsame, hout⟩ | ⟨k, hk, rfl, hra, hk'⟩
  · rw [hsame] at hown
    have hbal := hl a n hown
    by_cases hst : st = .success
    · subst hst
      have hra : ¬ r.contains a := (hout rfl).resolve_right (by simp [hown])
      simpa [record, hra] using hbal
    · have hrec : l.record m' (.release r, st) = { l with manager := m' } := by
        cases st <;> first | rfl | exact absurd rfl hst
      rwa [hrec]
  · have hbal := hl a k hk
    obtain ⟨s, -, -, hks⟩ := exists_of_ownersAt hk
    have hlt := s.owners.toNat_lt
    simp only [record, if_pos hra]
    rw [hk'] at hown
    by_cases hone : k = 1
    · simp [hone] at hown
    · rw [if_neg hone, Option.some_inj] at hown
      omega

def Inv (l : Ledger) : Prop := (∃ others, Tracks others l.manager) ∧ l.Balanced

lemma Step.inv (hl : l.Inv) (h : Step l label l') : l'.Inv := by
  obtain ⟨⟨others, htr⟩, hbal⟩ := hl
  obtain ⟨hcare, hstep⟩ := h
  refine ⟨by rw [record_manager]; exact hstep.tracks ⟨others, htr⟩, ?_⟩
  cases hstep with
  | allocate block hnew =>
    cases block with
    | none => exact hbal
    | some r =>
      obtain ⟨hr, hdis⟩ := hnew r rfl
      intro a n hown
      rw [record_manager, allocate_effect htr hr hdis] at hown
      by_cases hra : r.contains a
      · rw [if_pos hra, Option.some_inj] at hown
        simp [record, hra, ← hown]
      · rw [if_neg hra] at hown
        simpa [record, hra] using hbal a n hown
  | retain hr h => exact balanced_retain hbal htr.wf hr hcare h
  | release hr h => exact balanced_release hbal htr.wf hr hcare h
  | others h => exact hbal

lemma Step.freed (hl : l.Inv) (h : Step l label l') {n : Nat}
    (hown : ownersAt l.manager.table a = some n) (hgone : ownersAt l'.manager.table a = none) :
    n = 1 ∧ l'.retained a = l.retained a ∧ l'.stray a = l.stray a ∧
      l'.released a = l.released a + 1 := by
  obtain ⟨⟨others, htr⟩, hbal⟩ := hl
  obtain ⟨hcare, hstep⟩ := h
  rw [record_manager] at hgone
  cases hstep with
  | allocate block hnew =>
    cases block with
    | none => exact absurd (hown.symm.trans hgone) (by simp)
    | some r =>
      obtain ⟨hr, hdis⟩ := hnew r rfl
      rw [allocate_effect htr hr hdis, hown] at hgone
      split at hgone <;> simp at hgone
  | retain hr h =>
    rcases retain_effect htr.wf hr hcare h a with ⟨hsame, -⟩ | ⟨k, -, hk, -⟩
    · exact absurd (hown.symm.trans (hsame.symm.trans hgone)) (by simp)
    · simp [hk] at hgone
  | release hr h =>
    rcases release_effect htr.wf hr hcare h a with ⟨hsame, -⟩ | ⟨k, hk, rfl, hra, hk'⟩
    · exact absurd (hown.symm.trans (hsame.symm.trans hgone)) (by simp)
    · obtain rfl : n = k := by simpa [hown] using hk
      rw [hk'] at hgone
      have hone : n = 1 := by
        by_contra hne
        simp [hne] at hgone
      simp [record, hra, hone]
  | others h => exact absurd (hown.symm.trans hgone) (by simp)

/-- Along every run of careful calls, an address that a segment covers goes back to the heap only
with the release that balances its retains: at least one more release than successful retains,
and exactly one more unless a failed retain had raised its count. -/
theorem freed_only_when_balanced {start : Ledger} {labels : List (Call × OsStatus)}
    {label : Call × OsStatus} (hstart : start.manager.table = [])
    (hrun : Run Step start labels l) (hstep : Step l label l')
    (hheld : ownersAt l.manager.table a ≠ none) (hfree : ¬ inUse l'.manager.heap a) :
    1 + l'.retained a ≤ l'.released a ∧
      (l'.stray a = 0 → l'.released a = 1 + l'.retained a) := by
  have hinit : start.Inv :=
    ⟨⟨_, tracks_of_empty hstart⟩, fun a n h => by simp [hstart, ownersAt_nil] at h⟩
  have hl : l.Inv := hrun.invariant (fun _ _ _ hs h => h.inv hs) hinit
  obtain ⟨others', htr'⟩ := (hstep.inv hl).1
  obtain ⟨n, hown⟩ := Option.ne_none_iff_exists'.1 hheld
  have hgone : ownersAt l'.manager.table a = none := by
    by_contra hne
    exact hfree ((htr'.inUse_iff).1.2 (.inl hne))
  obtain ⟨rfl, hret, hstray, hrel⟩ := hstep.freed hl hown hgone
  have hbal := (hl.2 a 1 hown).2
  omega

/-- One page, allocated and released again. -/
theorem page_freed_by_its_release :
    ∃ l l' : Ledger, ¬ inUse l'.manager.heap 0x1000 ∧ 1 + l'.retained 0x1000 ≤ l'.released 0x1000 ∧
      ownersAt l.manager.table 0x1000 = some 1 := by
  let start : Ledger := ⟨⟨[], ⟨[], []⟩⟩, fun _ => 0, fun _ => 0, fun _ => 0⟩
  let held : Ledger := start.record (start.manager.allocate (some ⟨0x1000, 0x2000⟩)).2
    (.allocate (some ⟨0x1000, 0x2000⟩), .success)
  have halloc : Step start (.allocate (some ⟨0x1000, 0x2000⟩), .success) held :=
    .call trivial (.allocate _ (by decide))
  have hrel : Step held (.release ⟨0x1000, 0x2000⟩, .success)
      (held.record ⟨[], ⟨[], []⟩⟩ (.release ⟨0x1000, 0x2000⟩, .success)) :=
    .call (.inr (.inl (by decide))) (.release (by decide) (by decide))
  have hfree : ¬ inUse (⟨[], []⟩ : HeapView) 0x1000 := by decide
  exact ⟨held, _, hfree, (freed_only_when_balanced rfl (.single halloc) hrel (by decide) hfree).1,
    by decide⟩

end Ledger

namespace MemoryManager

open Lib

lemma run_retains (page : AnyRange) (hpage : page.front < page.back) (h : HeapView) (n : Nat) :
    ∀ k : UInt8, Run Step ⟨[⟨k, page⟩], h⟩ (List.replicate n (.retain page, .success))
      ⟨[⟨k + UInt8.ofNat n, page⟩], h⟩ := by
  induction n with
  | zero =>
    intro k
    simpa using Run.nil _
  | succ n ih =>
    intro k
    have hone : retain ⟨[⟨k, page⟩], h⟩ page = .ok (.success, ⟨[⟨k + 1, page⟩], h⟩) := by
      have hself : page.containsRange page := ⟨le_refl _, le_refl _⟩
      have hwf : RangeTable.WellFormed MemorySegment.range [(⟨k, page⟩ : MemorySegment)] :=
        ⟨by simpa using hpage, by simp⟩
      have har : RangeTable.Around MemorySegment.range [(⟨k, page⟩ : MemorySegment)] page []
          [⟨k, page⟩] [] := ⟨rfl, by simp, by simpa using hpage, by simp⟩
      rw [retain_one hwf hpage har]
      simp [retainOne, hself, retainEntry, MemorySegment.retained]
    have hrest := ih (k + 1)
    have hsum : k + 1 + UInt8.ofNat n = k + UInt8.ofNat (n + 1) := by
      rw [UInt8.add_assoc, UInt8.add_comm 1, UInt8.ofNat_add]
      rfl
    rw [hsum] at hrest
    rw [List.replicate_succ]
    exact .cons (.retain hpage hone) hrest

/-- A page allocated once and retained 256 times is freed by its first release. -/
theorem page_freed_after_counter_wraps :
    ∃ m0 m1 m2 : MemoryManager, m0.table = [] ∧
      Run Step m0 ((.allocate (some ⟨0x1000, 0x2000⟩), .success) ::
        List.replicate 256 (.retain ⟨0x1000, 0x2000⟩, .success)) m1 ∧
      Step m1 (.release ⟨0x1000, 0x2000⟩, .success) m2 ∧
      inUse m1.heap 0x1000 ∧ ¬ inUse m2.heap 0x1000 := by
  have halloc : Step ⟨[], ⟨[], []⟩⟩ (.allocate (some ⟨0x1000, 0x2000⟩), .success)
      ⟨[⟨1, ⟨0x1000, 0x2000⟩⟩], ⟨[⟨0x1000, 0x2000⟩], []⟩⟩ := .allocate _ (by decide)
  have hret := run_retains ⟨0x1000, 0x2000⟩ (by decide) ⟨[⟨0x1000, 0x2000⟩], []⟩ 256 1
  exact ⟨_, _, ⟨[], ⟨[], []⟩⟩, rfl, .cons halloc hret, .release (by decide) (by decide), by decide,
    by decide⟩

end MemoryManager
end BezOS
