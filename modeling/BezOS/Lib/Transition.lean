import Mathlib.Tactic.Common
import Mathlib.Data.List.Basic

/-!
# Transition systems

A labelled transition relation, its runs, and the two rules every run result of the
development goes through: an invariant that one step keeps holds after every run, and a run
of a guarded relation is a run of the relation whose every step met the guard.
-/

namespace BezOS
namespace Lib

variable {σ α : Type*}

/-- `Run R s as s'`: the labels `as` lead from `s` to `s'`. -/
inductive Run (R : σ → α → σ → Prop) : σ → List α → σ → Prop where
  | nil (s : σ) : Run R s [] s
  | cons {s t u : σ} {a : α} {as : List α} : R s a t → Run R t as u → Run R s (a :: as) u

namespace Run

variable {R S : σ → α → σ → Prop}

lemma invariant {Inv : σ → Prop} (hstep : ∀ s a t, Inv s → R s a t → Inv t)
    {s t : σ} {as : List α} (h : Run R s as t) : Inv s → Inv t := by
  induction h with
  | nil s => exact id
  | cons hst _ ih => exact fun hs => ih (hstep _ _ _ hs hst)

lemma mono (hRS : ∀ s a t, R s a t → S s a t) {s t : σ} {as : List α} (h : Run R s as t) :
    Run S s as t := by
  induction h with
  | nil s => exact .nil s
  | cons hst _ ih => exact .cons (hRS _ _ _ hst) ih

lemma append {s t u : σ} {as bs : List α} (h : Run R s as t) (k : Run R t bs u) :
    Run R s (as ++ bs) u := by
  induction h with
  | nil s => exact k
  | cons hst _ ih => exact .cons hst (ih k)

lemma single {s t : σ} {a : α} (h : R s a t) : Run R s [a] t :=
  .cons h (.nil t)

lemma of_foldl (f : σ → α → σ) (s : σ) (as : List α) :
    Run (fun s a t => f s a = t) s as (as.foldl f s) := by
  induction as generalizing s with
  | nil => exact .nil s
  | cons a as ih => exact .cons rfl (ih (f s a))

lemma of_foldlM {ε : Type*} {f : σ → α → Except ε σ} {as : List α} {s t : σ}
    (h : (as.foldlM f s).toOption = some t) : Run (fun s a t => f s a = .ok t) s as t := by
  induction as generalizing s with
  | nil =>
    cases h
    exact .nil _
  | cons a as ih =>
    rw [List.foldlM_cons] at h
    cases hstep : f s a with
    | error e =>
      rw [hstep] at h
      cases h
    | ok u =>
      rw [hstep] at h
      exact .cons hstep (ih h)

end Run

/-- The state after the given actions, if the guard lets every one of them pass. -/
def runGuarded {ε : Type*} (G : σ → α → Prop) [∀ s, DecidablePred (G s)]
    (f : σ → α → Except ε σ) (s : σ) : List α → Option σ
  | [] => some s
  | a :: as => if G s a then (f s a).toOption.bind fun t => runGuarded G f t as else none

lemma Run.of_runGuarded {ε : Type*} {G : σ → α → Prop} [∀ s, DecidablePred (G s)]
    {f : σ → α → Except ε σ} {as : List α} {s t : σ} (h : runGuarded G f s as = some t) :
    Run (fun s a t => G s a ∧ f s a = .ok t) s as t := by
  induction as generalizing s with
  | nil =>
    cases h
    exact .nil _
  | cons a as ih =>
    simp only [runGuarded] at h
    split at h
    · rename_i hguard
      cases hstep : f s a with
      | error e => simp [hstep, Except.toOption] at h
      | ok u => exact .cons ⟨hguard, hstep⟩ (ih (by simpa [hstep, Except.toOption] using h))
    · cases h

/-- The states some run leads to from `init`. -/
def Reachable (R : σ → α → σ → Prop) (init : σ → Prop) (t : σ) : Prop :=
  ∃ s as, init s ∧ Run R s as t

lemma Reachable.induction {R : σ → α → σ → Prop} {init Inv : σ → Prop}
    (hinit : ∀ s, init s → Inv s) (hstep : ∀ s a t, Inv s → R s a t → Inv t) {t : σ}
    (h : Reachable R init t) : Inv t := by
  obtain ⟨s, as, hs, hrun⟩ := h
  exact hrun.invariant hstep (hinit s hs)

end Lib
end BezOS

/-!
## Calls in flight

Concurrent calls are kept in a list, each at the atomic step it takes next; a step of one call
replaces one entry. The lemmas say what is left of a fact about all entries, and of a count of
them, when one is replaced. `Justified` is for histories: every event was allowed by what had
happened before it.
-/

namespace BezOS
namespace Lib

open List

variable {τ ε : Type*} {calls : List τ} {i j : Nat} {t u v : τ}

lemma getElem?_set_eq_some (h : (calls.set i u)[j]? = some v) :
    (i = j ∧ v = u) ∨ (i ≠ j ∧ calls[j]? = some v) := by
  rw [getElem?_set] at h
  split at h
  · split at h
    · exact .inl ⟨‹_›, (Option.some.inj h).symm⟩
    · cases h
  · exact .inr ⟨‹_›, h⟩

lemma getElem?_set_same (h : calls[i]? = some t) : (calls.set i u)[i]? = some u :=
  getElem?_set_self (List.getElem?_eq_some_iff.1 h).1

lemma set_of_getElem? (h : calls[i]? = some t) : calls.set i t = calls := by
  obtain ⟨hlt, rfl⟩ := List.getElem?_eq_some_iff.1 h
  exact set_getElem_self hlt

lemma getElem?_append_singleton (h : (calls ++ [u])[j]? = some v) :
    (j = calls.length ∧ v = u) ∨ calls[j]? = some v := by
  rcases Nat.lt_trichotomy j calls.length with hlt | rfl | hgt
  · exact .inr (by rwa [getElem?_append_left hlt] at h)
  · exact .inl ⟨rfl, by simpa using h.symm⟩
  · rw [getElem?_eq_none (by simp; omega)] at h
    cases h

lemma getElem?_append_of_some (h : calls[i]? = some t) (more : List τ) :
    (calls ++ more)[i]? = some t := by
  rw [getElem?_append_left (List.getElem?_eq_some_iff.1 h).1, h]

lemma exists_split (h : calls[i]? = some t) :
    ∃ x y, calls = x ++ t :: y ∧ ∀ u, calls.set i u = x ++ u :: y := by
  obtain ⟨hlt, rfl⟩ := List.getElem?_eq_some_iff.1 h
  refine ⟨calls.take i, calls.drop (i + 1), ?_, fun u => ?_⟩
  · rw [← drop_eq_getElem_cons hlt, take_append_drop]
  · rw [set_eq_take_append_cons_drop, if_pos hlt]

lemma countP_set_add (p : τ → Bool) (h : calls[i]? = some t) :
    (calls.set i u).countP p + (if p t then 1 else 0) =
      calls.countP p + (if p u then 1 else 0) := by
  obtain ⟨hlt, rfl⟩ := List.getElem?_eq_some_iff.1 h
  rw [countP_set hlt]
  have hle : (if p calls[i] then 1 else 0) ≤ calls.countP p := by
    split
    · exact countP_pos_iff.2 ⟨_, getElem_mem hlt, ‹_›⟩
    · exact Nat.zero_le _
  omega

lemma countP_pos_of_getElem? (p : τ → Bool) (h : calls[i]? = some t) (ht : p t = true) :
    0 < calls.countP p :=
  countP_pos_iff.2 ⟨t, mem_of_getElem? h, ht⟩

/-- Every event of the history was allowed by the events before it. -/
def Justified (allowed : List ε → ε → Prop) (history : List ε) : Prop :=
  ∀ past e later, history = past ++ e :: later → allowed past e

namespace Justified

variable {allowed : List ε → ε → Prop} {history : List ε} {e : ε}

lemma nil : Justified allowed [] := by
  intro past e later h
  simp at h

lemma snoc (h : Justified allowed history) (he : allowed history e) :
    Justified allowed (history ++ [e]) := by
  intro past x later hcut
  rcases eq_nil_or_concat later with rfl | ⟨later, y, rfl⟩
  · obtain ⟨rfl, hx⟩ := append_inj' hcut rfl
    cases hx
    exact he
  · rw [concat_eq_append, ← cons_append, ← append_assoc] at hcut
    obtain ⟨hcut, -⟩ := append_inj' hcut rfl
    exact h past x later hcut

end Justified

end Lib
end BezOS
