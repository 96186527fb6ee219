import BezOS.Acpi.AmlReading

/-!
# Overruns stay known

No function forgets that a parser stood behind its end, so that a run that ends without an overrun
had none on the way.
-/

namespace BezOS
namespace Aml

variable {α β : Type}

class Sticky (m : AmlM α) : Prop where
  keeps : ∀ s v t, m s = .ok (v, t) → s.overran = true → t.overran = true

lemma Sticky.inside {m : AmlM α} (h : Sticky m) {s t : AmlState} {v : α} (hrun : m s = .ok (v, t))
    (ht : t.overran = false) : s.overran = false := by
  cases hs : s.overran with
  | false => rfl
  | true =>
    rw [h.keeps s v t hrun hs] at ht
    cases ht

instance (a : α) : Sticky (pure a : AmlM α) where
  keeps s v t h hs := by
    cases h
    exact hs

instance : Sticky (get : AmlM AmlState) where
  keeps s v t h hs := by
    cases h
    exact hs

instance (m : AmlM α) (k : α → AmlM β) [hm : Sticky m] [hk : ∀ a, Sticky (k a)] :
    Sticky (m >>= k) where
  keeps s v t h hs := by
    obtain ⟨a, u, hu, ht⟩ := bind_run_eq_ok.1 h
    exact (hk a).keeps u v t ht (hm.keeps s a u hu hs)

instance (c : Prop) [Decidable c] (m m' : AmlM α) [hm : Sticky m] [hm' : Sticky m'] :
    Sticky (if c then m else m') := by
  split
  · exact hm
  · exact hm'

lemma sticky_modify {f : AmlState → AmlState}
    (hf : ∀ s, s.overran = true → (f s).overran = true) : Sticky (modify f : AmlM Unit) where
  keeps s v t h hs := by
    cases h
    exact hf s hs

instance (count : Nat) : Sticky (skip count) := sticky_modify fun s hs => by simp [hs]

instance : Sticky setInvalid := sticky_modify fun _ hs => hs

instance : Sticky reportError := inferInstanceAs (Sticky setInvalid)

instance (front length : Nat) : Sticky (skipPackage front length) :=
  sticky_modify fun s hs => by simp [hs]

instance : Sticky peek := by unfold peek; infer_instance

instance : Sticky read := by unfold read; infer_instance

instance (v : UInt8) : Sticky (consume v) := by unfold consume; infer_instance

instance (seq : List UInt8) : Sticky (consumeSeq seq) := by unfold consumeSeq; infer_instance

instance : Sticky done := by unfold done; infer_instance

instance : Sticky offset := by unfold offset; infer_instance

instance : Sticky error := by unfold error; infer_instance

instance (type : AmlTermType) (fields : List AmlValue) : Sticky (add type fields) := by
  have hmodify : ∀ nodes : List AmlNode, Sticky (modify fun s : AmlState =>
      { s with nodes := { s.nodes with mNodes := nodes } } : AmlM Unit) :=
    fun nodes => sticky_modify fun _ hs => hs
  unfold add
  infer_instance

instance : Sticky getNameChar := by unfold getNameChar; infer_instance

instance (dst : AmlName) (lead : UInt8) : Sticky (nameSegBody dst lead) := by
  unfold nameSegBody; infer_instance

instance (dst : AmlName) : Sticky (nameSeg dst) := by unfold nameSeg; infer_instance

instance (count : Nat) (dst : AmlName) : Sticky (nameSegs count dst) := by
  induction count generalizing dst with
  | zero => unfold nameSegs; infer_instance
  | succ count ih => unfold nameSegs; infer_instance

instance (dst : AmlName) : Sticky (namePath dst) := by unfold namePath; infer_instance

instance (fuel : Nat) (name : AmlName) : Sticky (prefixPathFrom fuel name) := by
  induction fuel generalizing name with
  | zero => unfold prefixPathFrom; infer_instance
  | succ fuel ih => unfold prefixPathFrom; infer_instance

instance (name : AmlName) : Sticky (prefixPath name) := by unfold prefixPath; infer_instance

instance : Sticky nameString := by unfold nameString; infer_instance

instance (count : Nat) : Sticky (dataBytes count) := by
  induction count with
  | zero => unfold dataBytes; infer_instance
  | succ count ih => unfold dataBytes; infer_instance

instance (fuel : Nat) : Sticky (stringFrom fuel) := by
  induction fuel with
  | zero => unfold stringFrom; infer_instance
  | succ fuel ih => unfold stringFrom; infer_instance

instance : Sticky stringData := by unfold stringData; infer_instance

instance (count i value : Nat) : Sticky (pkgLengthFrom count i value) := by
  induction count generalizing i value with
  | zero => unfold pkgLengthFrom; infer_instance
  | succ count ih => unfold pkgLengthFrom; infer_instance

instance : Sticky pkgLength := by unfold pkgLength; infer_instance

instance (list : List Choice) : Sticky (choose list) := by
  induction list with
  | nil => unfold choose; infer_instance
  | cons choice list ih => cases choice <;> unfold choose <;> infer_instance

instance (n : Nonterminal) : Sticky (fallback n) := by cases n <;> unfold fallback <;> infer_instance

instance (count : Nat) (body : AmlM AmlValue) [hbody : Sticky body] :
    Sticky (subspan count body) where
  keeps s v t h hs := by
    unfold subspan at h
    split at h
    · obtain ⟨⟨value, u⟩, hu, ht⟩ := bind_eq_ok.1 h
      obtain ⟨-, rfl⟩ := Prod.mk.inj (Except.ok.inj ht)
      exact hbody.keeps _ value u hu hs
    · cases h

section Run

variable (run : Goal → AmlM AmlValue) [hrun : ∀ goal, Sticky (run goal)]

instance : Sticky (bufferData run) := by unfold bufferData; infer_instance

instance : Sticky (defPackage run) := by unfold defPackage; infer_instance

instance : Sticky (target run) := by unfold target; infer_instance

instance (x : Symbol) : Sticky (symbol run x) := by cases x <;> unfold symbol <;> infer_instance

instance (list : List Symbol) : Sticky (symbols run list) := by
  induction list with
  | nil => unfold symbols; infer_instance
  | cons x list ih => unfold symbols; infer_instance

instance (p : Production) : Sticky (production run p) := by
  cases p with
  | package type header body => cases body <;> unfold production <;> infer_instance
  | _ => unfold production; infer_instance

instance (n : Nonterminal) : Sticky (nonterminal run n) := by
  have hafter : ∀ p : Option Production, Sticky (match p with
      | some p => production run p
      | none => fallback n) := by
    intro p
    cases p <;> infer_instance
  unfold nonterminal
  infer_instance

instance : Sticky (term run) := by unfold term; infer_instance

instance (terms : List AmlAnyId) : Sticky (finishTerms terms) := by
  have hmodify : ∀ nodes : List AmlNode, Sticky (modify fun s : AmlState =>
      { s with nodes := { s.nodes with mNodes := nodes } } : AmlM Unit) :=
    fun nodes => sticky_modify fun _ hs => hs
  unfold finishTerms
  infer_instance

instance (goal : Goal) : Sticky (step run goal) := by
  cases goal with
  | nonterminal n => cases n <;> unfold step <;> infer_instance
  | _ => unfold step; infer_instance

end Run

instance (fuel : Nat) (goal : Goal) : Sticky (run fuel goal) := by
  induction fuel generalizing goal with
  | zero => exact ⟨fun s v t h => by cases h⟩
  | succ fuel ih => unfold run; infer_instance

end Aml
end BezOS
