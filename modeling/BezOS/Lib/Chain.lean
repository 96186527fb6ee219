import Mathlib.Logic.Function.Basic
import Mathlib.Tactic.Common

/-!
# Linked chains

A singly linked list in memory: `next` gives the link of each cell, and `Chain next head l` says
that the cells reached from `head` are those of `l`, in this order.
-/

namespace BezOS
namespace Lib

variable {O : Type*} {next next' : O → Option O} {head : Option O} {o : O} {l l' : List O}

inductive Chain (next : O → Option O) : Option O → List O → Prop where
  | nil : Chain next none []
  | cons {o : O} {l : List O} : Chain next (next o) l → Chain next (some o) (o :: l)

namespace Chain

lemma congr (h : Chain next head l) (heq : ∀ o ∈ l, next' o = next o) :
    Chain next' head l := by
  induction h with
  | nil => exact .nil
  | @cons o l _ ih =>
    refine .cons ?_
    rw [heq o (List.mem_cons_self ..)]
    exact ih fun o ho => heq o (List.mem_cons_of_mem _ ho)

lemma some_inv (h : Chain next (some o) l) : ∃ l', l = o :: l' ∧ Chain next (next o) l' := by
  cases h with
  | cons h => exact ⟨_, rfl, h⟩

lemma none_inv (h : Chain next none l) : l = [] := by
  cases h
  rfl

end Chain

end Lib
end BezOS
