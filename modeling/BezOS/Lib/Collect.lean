import Mathlib.Data.Fintype.Card
import Mathlib.Data.Fintype.EquivFin
import Mathlib.Logic.Relation
import Mathlib.Tactic.Common

/-!
# Walks that may fail

What a call for every element of a list yields, in their order, if none of the calls fails; and
recursions along a relation of finitely many things, which end if they come to no cycle.
-/

namespace BezOS
namespace Lib

open List

section Collect

variable {α β : Type*} {f : α → Option (List β)} {as : List α}

def collect (f : α → Option (List β)) : List α → Option (List β)
  | [] => some []
  | a :: as =>
      match f a, collect f as with
      | some found, some rest => some (found ++ rest)
      | _, _ => none

lemma collect_cons_eq_some {a : α} {result : List β} :
    collect f (a :: as) = some result ↔
      ∃ found rest, f a = some found ∧ collect f as = some rest ∧ result = found ++ rest := by
  rw [collect]
  cases f a with
  | none => simp
  | some found =>
    cases collect f as with
    | none => simp
    | some rest => simp [eq_comm]

lemma collect_isSome :
    (collect f as).isSome ↔ ∀ a ∈ as, (f a).isSome := by
  induction as with
  | nil => simp [collect]
  | cons a as ih =>
    rw [forall_mem_cons, ← ih, collect]
    cases f a with
    | none => simp
    | some found =>
      cases collect f as with
      | none => simp
      | some rest => simp

lemma mem_collect {result : List β} (h : collect f as = some result) {b : β} :
    b ∈ result ↔ ∃ a ∈ as, ∃ found, f a = some found ∧ b ∈ found := by
  induction as generalizing result with
  | nil =>
    cases h
    simp
  | cons a as ih =>
    obtain ⟨found, rest, hfound, hrest, rfl⟩ := collect_cons_eq_some.1 h
    rw [mem_append, ih hrest, exists_mem_cons_iff, hfound]
    simp

lemma exists_common_bound {P : Nat → α → Prop} (hmono : ∀ a m n, m ≤ n → P m a → P n a)
    (h : ∀ a ∈ as, ∃ n, P n a) : ∃ n, ∀ a ∈ as, P n a := by
  induction as with
  | nil => exact ⟨0, fun a ha => absurd ha not_mem_nil⟩
  | cons a as ih =>
    obtain ⟨m, hm⟩ := h a mem_cons_self
    obtain ⟨n, hn⟩ := ih fun b hb => h b (mem_cons_of_mem a hb)
    refine ⟨max m n, forall_mem_cons.2 ⟨hmono a m _ (Nat.le_max_left m n) hm, ?_⟩⟩
    exact fun b hb => hmono b n _ (Nat.le_max_right m n) (hn b hb)

end Collect

section Descent

open Relation

variable {α : Type*} {next : α → α → Prop} {a b : α}

lemma not_transGen_self (h : Acc (fun c b => next b c) a) : ¬ TransGen next a a := by
  induction h with
  | intro a _ ih =>
    intro hcycle
    obtain ⟨c, hstep, hback⟩ := TransGen.head'_iff.1 hcycle
    -- the cycle goes through the next one, too
    exact ih c hstep (TransGen.tail' hback hstep)

lemma acc_of_reflTransGen (h : Acc (fun c b => next b c) a) (hreach : ReflTransGen next a b) :
    Acc (fun c b => next b c) b := by
  induction hreach with
  | refl => exact h
  | tail _ hstep ih => exact ih.inv hstep

lemma acc_iff_acyclic [Finite α] :
    Acc (fun c b => next b c) a ↔ ∀ b, ReflTransGen next a b → ¬ TransGen next b b := by
  constructor
  · exact fun h b hreach => not_transGen_self (acc_of_reflTransGen h hreach)
  · intro hacyclic
    -- the descent stays among the things it reaches, where the relation is well-founded
    let Reach := {b // ReflTransGen next a b}
    let below : Reach → Reach → Prop := fun c b => TransGen next b.1 c.1
    have hirrefl : Std.Irrefl below := ⟨fun b => hacyclic b.1 b.2⟩
    have hwf : WellFounded below := Finite.wellFounded_of_trans_of_irrefl below
    suffices h : ∀ b : Reach, Acc (fun c b => next b c) b.1 from h ⟨a, .refl⟩
    intro b
    induction b using hwf.induction with
    | h b ih =>
      exact ⟨b.1, fun c hstep => ih ⟨c, b.2.tail hstep⟩ (.single hstep)⟩

end Descent

end Lib
end BezOS
