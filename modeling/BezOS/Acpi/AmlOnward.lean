import BezOS.Acpi.AmlSound

/-!
# What the parser leaves alone

Every function hands the parser back over the span it got it over, with an offset of 32 bits. It
adds nodes behind those that are there, and changes no other: only a list finishes its own
branches.
-/

namespace BezOS
namespace Aml

open Except List Prod

variable {α β : Type} {k : Nat} {p : Production} {terms : List AmlAnyId}

/-- The nodes below `k` are kept. -/
structure Onward (k : Nat) (s t : AmlState) : Prop where
  code : t.mCode = s.mCode
  offset : s.mCode.length < 2 ^ 32 → s.mOffset < 2 ^ 32 → t.mOffset < 2 ^ 32
  grows : s.nodes.mNodes.length ≤ t.nodes.mNodes.length
  below : k ≤ s.nodes.mNodes.length → t.nodes.mNodes.take k = s.nodes.mNodes.take k

namespace Onward

variable {s t u : AmlState}

lemma refl (s : AmlState) : Onward k s s := ⟨rfl, fun _ h => h, Nat.le_refl _, fun _ => rfl⟩

lemma trans (h : Onward k s t) (h' : Onward k t u) : Onward k s u where
  code := h'.code.trans h.code
  offset hshort hoffset := h'.offset (h.code ▸ hshort) (h.offset hshort hoffset)
  grows := h.grows.trans h'.grows
  below hk := (h'.below (hk.trans h.grows)).trans (h.below hk)

lemma of_nodes (hcode : t.mCode = s.mCode) (hoffset : s.mOffset < 2 ^ 32 → t.mOffset < 2 ^ 32)
    (hnodes : t.nodes.mNodes = s.nodes.mNodes) : Onward k s t where
  code := hcode
  offset _ h := hoffset h
  grows := by rw [hnodes]
  below _ := by rw [hnodes]

lemma getElem? (h : Onward k s t) (hk : k ≤ s.nodes.mNodes.length) {i : Nat} (hi : i < k) :
    t.nodes.mNodes[i]? = s.nodes.mNodes[i]? := by
  have heq := congrArg (·[i]?) (h.below hk)
  simpa only [getElem?_take, hi, if_true] using heq

end Onward

class Forward (k : Nat) (m : AmlM α) : Prop where
  onward : ∀ s v t, m s = .ok (v, t) → Onward k s t

instance (a : α) : Forward k (pure a : AmlM α) where
  onward s v t h := by
    cases h
    exact .refl s

instance : Forward k (get : AmlM AmlState) where
  onward s v t h := by
    cases h
    exact .refl s

instance (m : AmlM α) (f : α → AmlM β) [hm : Forward k m] [hf : ∀ a, Forward k (f a)] :
    Forward k (m >>= f) where
  onward s v t h := by
    obtain ⟨a, u, hu, ht⟩ := bind_run_eq_ok.1 h
    exact (hm.onward s a u hu).trans ((hf a).onward u v t ht)

instance (c : Prop) [Decidable c] (m m' : AmlM α) [hm : Forward k m] [hm' : Forward k m'] :
    Forward k (if c then m else m') := by
  split
  · exact hm
  · exact hm'

lemma forward_modify {f : AmlState → AmlState} (hf : ∀ s, Onward k s (f s)) :
    Forward k (modify f : AmlM Unit) where
  onward s v t h := by
    cases h
    exact hf s

instance (count : Nat) : Forward k (skip count) :=
  forward_modify fun _ => .of_nodes rfl (fun _ => Nat.mod_lt _ (by decide)) rfl

instance : Forward k setInvalid := forward_modify fun _ => .of_nodes rfl id rfl

instance : Forward k reportError := inferInstanceAs (Forward k setInvalid)

instance (front length : Nat) : Forward k (skipPackage front length) :=
  forward_modify fun _ => .of_nodes rfl (fun _ => Nat.mod_lt _ (by decide)) rfl

instance : Forward k peek := by unfold peek; infer_instance

instance : Forward k read := by unfold read; infer_instance

instance (v : UInt8) : Forward k (consume v) := by unfold consume; infer_instance

instance (seq : List UInt8) : Forward k (consumeSeq seq) := by unfold consumeSeq; infer_instance

instance : Forward k done := by unfold done; infer_instance

instance : Forward k offset := by unfold offset; infer_instance

instance : Forward k error := by unfold error; infer_instance

/-- A node is added behind those that are there. -/
instance (type : AmlTermType) (fields : List AmlValue) : Forward k (add type fields) where
  onward s v t h := by
    obtain ⟨-, rfl⟩ := mk.inj (ok.inj h)
    refine ⟨rfl, fun _ h => h, ?_, fun hk => ?_⟩
    · change _ ≤ (s.nodes.mNodes ++ _).length
      rw [length_append]
      exact Nat.le_add_right _ _
    · exact take_append_of_le_length hk

instance : Forward k getNameChar := by unfold getNameChar; infer_instance

instance (dst : AmlName) (lead : UInt8) : Forward k (nameSegBody dst lead) := by
  unfold nameSegBody; infer_instance

instance (dst : AmlName) : Forward k (nameSeg dst) := by unfold nameSeg; infer_instance

instance (count : Nat) (dst : AmlName) : Forward k (nameSegs count dst) := by
  induction count generalizing dst with
  | zero => unfold nameSegs; infer_instance
  | succ count ih => unfold nameSegs; infer_instance

instance (dst : AmlName) : Forward k (namePath dst) := by unfold namePath; infer_instance

instance (fuel : Nat) (name : AmlName) : Forward k (prefixPathFrom fuel name) := by
  induction fuel generalizing name with
  | zero => unfold prefixPathFrom; infer_instance
  | succ fuel ih => unfold prefixPathFrom; infer_instance

instance (name : AmlName) : Forward k (prefixPath name) := by unfold prefixPath; infer_instance

instance : Forward k nameString := by unfold nameString; infer_instance

instance (count : Nat) : Forward k (dataBytes count) := by
  induction count with
  | zero => unfold dataBytes; infer_instance
  | succ count ih => unfold dataBytes; infer_instance

instance (fuel : Nat) : Forward k (stringFrom fuel) := by
  induction fuel with
  | zero => unfold stringFrom; infer_instance
  | succ fuel ih => unfold stringFrom; infer_instance

instance : Forward k stringData := by unfold stringData; infer_instance

instance (count i value : Nat) : Forward k (pkgLengthFrom count i value) := by
  induction count generalizing i value with
  | zero => unfold pkgLengthFrom; infer_instance
  | succ count ih => unfold pkgLengthFrom; infer_instance

instance : Forward k pkgLength := by unfold pkgLength; infer_instance

instance (list : List Choice) : Forward k (choose list) := by
  induction list with
  | nil => unfold choose; infer_instance
  | cons choice list ih => cases choice <;> unfold choose <;> infer_instance

instance (n : Nonterminal) : Forward k (fallback n) := by
  cases n <;> unfold fallback <;> infer_instance

/-- The outer parser goes on behind the part that the inner one was over. -/
instance (count : Nat) (body : AmlM AmlValue) [hbody : Forward k body] :
    Forward k (subspan count body) where
  onward s v t h := by
    unfold subspan at h
    split at h
    · rename_i hfits
      obtain ⟨⟨value, u⟩, hu, ht⟩ := bind_eq_ok.1 h
      obtain ⟨-, rfl⟩ := mk.inj (ok.inj ht)
      have hinner := hbody.onward _ value u hu
      exact ⟨rfl, fun hshort _ => Nat.lt_of_le_of_lt hfits hshort, hinner.grows, hinner.below⟩
    · cases h

/-! ## The functions that call each other -/

/-- What is known of the recursive functions; a list may change the nodes that are its terms. -/
class ForwardRun (k : Nat) (run : Goal → AmlM AmlValue) : Prop where
  nonterminal : ∀ n, Forward k (run (.nonterminal n))
  elements : ∀ terms, Forward k (run (.elements terms))
  fill : ∀ i space data, Forward k (run (.fill i space data))
  termList : ∀ terms, (∀ i, AmlAnyId.node i ∈ terms → k ≤ i) → Forward k (run (.termList terms))
  /-- The node of a term is new. -/
  fresh : ∀ s v t i, run (.nonterminal .term) s = .ok (v, t) → v.toId = .node i →
    s.nodes.mNodes.length ≤ i

section Run

variable (run : Goal → AmlM AmlValue) [hrun : ForwardRun k run]

instance (n : Nonterminal) : Forward k (run (.nonterminal n)) := hrun.nonterminal n

instance (terms : List AmlAnyId) : Forward k (run (.elements terms)) := hrun.elements terms

instance (i space : Nat) (data : List UInt8) : Forward k (run (.fill i space data)) :=
  hrun.fill i space data

instance : Forward k (run (.termList [])) := hrun.termList [] fun _ => nofun

instance : Forward k (bufferData run) := by unfold bufferData; infer_instance

instance : Forward k (defPackage run) := by unfold defPackage; infer_instance

instance : Forward k (target run) := by unfold target; infer_instance

instance (x : Symbol) : Forward k (symbol run x) := by
  cases x <;> unfold symbol <;> infer_instance

instance (list : List Symbol) : Forward k (symbols run list) := by
  induction list with
  | nil => unfold symbols; infer_instance
  | cons x list ih => unfold symbols; infer_instance

instance (p : Production) : Forward k (production run p) := by
  cases p with
  | package type header body => cases body <;> unfold production <;> infer_instance
  | _ => unfold production; infer_instance

instance (n : Nonterminal) : Forward k (nonterminal run n) := by
  have hafter : ∀ p : Option Production, Forward k (match p with
      | some p => production run p
      | none => fallback n) := by
    intro p
    cases p <;> infer_instance
  unfold nonterminal
  infer_instance

instance : Forward k (term run) := by unfold term; infer_instance

end Run

/-! ## The node of a term -/

/-- The type of the node that a function adds; that of `code.ones` is in the buffer. -/
def Production.type : Production → Option AmlTermType
  | .plain type _ | .package type _ _ => some type
  | .value _ | .ones => none

structure Added (p : Production) (s t : AmlState) (i : Nat) : Prop where
  behind : s.nodes.mNodes.length ≤ i
  last : t.nodes.mNodes.length = i + 1
  node : ∃ node, t.nodes.mNodes[i]? = some node ∧ node.otherwise = .node 0 ∧
    (p.type = some node.type ∨ p.type = none ∧ ∃ data, node.type = .data data)

def Adds (p : Production) (m : AmlM AmlValue) : Prop :=
  ∀ s v t, m s = .ok (v, t) → ∃ i, v.toId = .node i ∧ Added p s t i

lemma adds_add {type : AmlTermType} {fields : List AmlValue}
    (htype : p.type = some type ∨ p.type = none ∧ ∃ data, type = .data data) :
    Adds p (add type fields) := by
  intro s v t hrun
  obtain ⟨rfl, rfl⟩ := mk.inj (ok.inj hrun)
  refine ⟨s.nodes.mNodes.length, rfl, Nat.le_refl _, ?_, { type := type, fields := fields }, ?_,
    rfl, htype⟩
  · rw [length_append, length_singleton]
  · exact getElem?_concat_length

lemma adds_bind {m : AmlM α} {f : α → AmlM AmlValue} [hm : Forward 0 m] (hf : ∀ a, Adds p (f a)) :
    Adds p (m >>= f) := by
  intro s v t hrun
  obtain ⟨a, u, hu, ht⟩ := bind_run_eq_ok.1 hrun
  obtain ⟨i, hi, hadded⟩ := hf a u v t ht
  exact ⟨i, hi, (hm.onward s a u hu).grows.trans hadded.behind, hadded.last, hadded.node⟩

section Run

variable {run : Goal → AmlM AmlValue} [hrun : ForwardRun 0 run]

lemma production_adds (hp : p.addsNode = true) : Adds p (production run p) := by
  cases p with
  | plain type list => exact adds_bind fun _ => adds_add (.inl rfl)
  | package type header body =>
    cases body with
    | termList =>
      exact adds_bind fun _ => adds_bind fun _ => adds_bind fun _ => adds_bind fun _ =>
        adds_bind fun _ => adds_add (.inl rfl)
    | skip =>
      exact adds_bind fun _ => adds_bind fun _ => adds_bind fun _ => adds_bind fun _ =>
        adds_add (.inl rfl)
  | value x => cases hp
  | ones => exact adds_bind fun s => adds_add (.inr ⟨rfl, s.nodes.mOnes.1, rfl⟩)

/-! ## Choices -/

lemma consumeSeq_value {seq : List UInt8} {s t : AmlState} {fits : Bool}
    (h : consumeSeq seq s = .ok (fits, t)) :
    (fits = true → seq <+: s.rest ∧ t.mCode = s.mCode ∧ t.mOffset ≤ s.mCode.length) ∧
      (fits = false → t = s) := by
  rw [consumeSeq, bind_run rfl] at h
  split at h
  · obtain ⟨rfl, rfl⟩ := mk.inj (ok.inj h)
    exact ⟨by simp, fun _ => rfl⟩
  · split at h
    · rename_i htake
      obtain ⟨rfl, rfl⟩ := mk.inj (ok.inj h)
      refine ⟨fun _ => ⟨prefix_iff_eq_take.2 htake.symm, rfl, ?_⟩, by simp⟩
      exact (Nat.mod_le _ _).trans (by omega)
    · obtain ⟨rfl, rfl⟩ := mk.inj (ok.inj h)
      exact ⟨by simp, fun _ => rfl⟩

/-- What stands in front of a production that was chosen. -/
inductive Stands (list : List Choice) (p : Production) (b : List UInt8) : Prop
  | op (seq : List UInt8) (hmem : Choice.op seq p ∈ list) (hfits : seq <+: b)
  | name (hmem : Choice.name p ∈ list) (hstart : isNameStart (b.headD 0) = true)

lemma Stands.cons {list : List Choice} {b : List UInt8} (choice : Choice) (h : Stands list p b) :
    Stands (choice :: list) p b := by
  cases h with
  | op seq hmem hfits => exact .op seq (mem_cons_of_mem _ hmem) hfits
  | name hmem hstart => exact .name (mem_cons_of_mem _ hmem) hstart

lemma choose_stands {list : List Choice} {s t : AmlState} (h : choose list s = .ok (some p, t)) :
    Stands list p s.rest := by
  induction list with
  | nil => cases h
  | cons choice list ih =>
    cases choice with
    | op seq q =>
      obtain ⟨fits, u, hu, h⟩ := bind_run_eq_ok.1 h
      obtain ⟨hfits, hstay⟩ := consumeSeq_value hu
      cases fits with
      | true =>
        obtain ⟨hp, -⟩ := mk.inj (ok.inj h)
        cases hp
        exact .op seq (mem_cons_self ..) (hfits rfl).1
      | false =>
        rw [hstay rfl] at h
        exact (ih h).cons _
    | name q =>
      rw [choose, bind_run rfl,
        AmlState.getD_rest] at h
      split at h
      · rename_i hstart
        obtain ⟨hp, -⟩ := mk.inj (ok.inj h)
        cases hp
        exact .name (mem_cons_self ..) hstart
      · exact (ih h).cons _

lemma term_added {s t : AmlState} {v : AmlValue} (h : term run s = .ok (v, t))
    (hv : v.toId ≠ .kInvalid) :
    ∃ p i, Stands (choices .term) p s.rest ∧ v.toId = .node i ∧ Added p s t i := by
  rw [term, bind_run rfl] at h
  split at h
  · obtain ⟨rfl, -⟩ := mk.inj (ok.inj h)
    exact absurd rfl hv
  · obtain ⟨chosen, u, hu, h⟩ := bind_run_eq_ok.1 h
    cases chosen with
    | none =>
      obtain ⟨_, _, -, h⟩ := bind_run_eq_ok.1 h
      obtain ⟨_, _, -, h⟩ := bind_run_eq_ok.1 h
      obtain ⟨_, _, -, h⟩ := bind_run_eq_ok.1 h
      obtain ⟨rfl, -⟩ := mk.inj (ok.inj h)
      exact absurd rfl hv
    | some p =>
      have hstands := choose_stands hu
      have hadds : p.addsNode = true := by
        have hall : ∀ choice ∈ choices .term, choice.production.addsNode = true := by decide
        cases hstands with
        | op seq hmem _ => exact hall _ hmem
        | name hmem _ => exact hall _ hmem
      obtain ⟨i, hi, hadded⟩ := production_adds hadds u v t h
      have hchoose : Forward 0 (choose (choices .term)) := inferInstance
      exact ⟨p, i, hstands, hi, (hchoose.onward s _ u hu).grows.trans hadded.behind, hadded.last,
        hadded.node⟩

end Run

/-! ## Lists -/

lemma mergeElse_nodes (nodes : List AmlNode) (terms : List AmlAnyId) :
    (mergeElse nodes terms).1.length = nodes.length ∧
      ∀ i, (AmlAnyId.node i ∈ terms → nodes[i]?.map AmlNode.type ≠ some .ifElse) →
        (mergeElse nodes terms).1[i]? = nodes[i]? := by
  fun_induction mergeElse nodes terms with
  | case1 nodes i j rest hpair nodes' finished merged hmerge ih =>
    rw [hmerge] at ih
    refine ⟨ih.1.trans (length_modify ..), fun k hk => ?_⟩
    have hne : i ≠ k := by
      rintro rfl
      exact hk (mem_cons_self ..) hpair.1
    have hsame : nodes'[k]? = nodes[k]? := getElem?_modify_ne _ _ hne
    rw [ih.2 k fun hmem => ?_, hsame]
    rw [hsame]
    exact hk (mem_cons_of_mem _ (mem_cons_of_mem _ hmem))
  | case2 nodes i j rest _ finished merged hmerge ih =>
    rw [hmerge] at ih
    exact ⟨ih.1, fun k hk => ih.2 k fun hmem => hk (mem_cons_of_mem _ hmem)⟩
  | case3 nodes x rest _ finished merged hmerge ih =>
    rw [hmerge] at ih
    exact ⟨ih.1, fun k hk => ih.2 k fun hmem => hk (mem_cons_of_mem _ hmem)⟩
  | case4 nodes => exact ⟨rfl, fun _ _ => rfl⟩

lemma forward_finishTerms (hterms : ∀ i, AmlAnyId.node i ∈ terms → k ≤ i) :
    Forward k (finishTerms terms) where
  onward s v t h := by
    obtain ⟨-, rfl⟩ := mk.inj (ok.inj h)
    obtain ⟨hlength, hnodes⟩ := mergeElse_nodes s.nodes.mNodes terms
    refine ⟨rfl, fun _ h => h, hlength.symm.le, fun _ => ext_getElem? fun i => ?_⟩
    simp only [getElem?_take]
    split
    · rename_i hi
      exact hnodes i fun hmem => absurd (hterms i hmem) (by omega)
    · rfl

/-! ## Whole runs -/

lemma forward_termList {run : Goal → AmlM AmlValue} (hrun : ∀ k, ForwardRun k run)
    (hterms : ∀ i, AmlAnyId.node i ∈ terms → k ≤ i) :
    Forward k (step run (.termList terms)) where
  onward s v t h := by
    obtain ⟨ends, s', hdone, h⟩ := bind_run_eq_ok.1 h
    cases hdone
    have hfinish := forward_finishTerms hterms
    split at h
    · exact hfinish.onward s v t h
    · obtain ⟨value, u, hu, h⟩ := bind_run_eq_ok.1 h
      have hterm := ((hrun k).nonterminal .term).onward s value u hu
      obtain ⟨failed, u', herror, h⟩ := bind_run_eq_ok.1 h
      cases herror
      split at h
      · exact hterm.trans (hfinish.onward u v t h)
      · -- the new node is behind all that were there
        by_cases hk : k ≤ s.nodes.mNodes.length
        · refine hterm.trans (((hrun k).termList _ fun i hi => ?_).onward u v t h)
          rcases mem_append.1 hi with hi | hi
          · exact hterms i hi
          · exact hk.trans ((hrun k).fresh s value u i hu (mem_singleton.1 hi).symm)
        · have hterm' := ((hrun 0).nonterminal .term).onward s value u hu
          have hall := hterm'.trans
            (((hrun 0).termList _ fun i _ => Nat.zero_le i).onward u v t h)
          exact ⟨hall.code, hall.offset, hall.grows, fun h => absurd h hk⟩

lemma ForwardRun.step {run : Goal → AmlM AmlValue} (hrun : ∀ k, ForwardRun k run) (k : Nat) :
    ForwardRun k (Aml.step run) where
  nonterminal n := by
    cases n <;> unfold Aml.step <;> infer_instance
  elements terms := by
    unfold Aml.step
    infer_instance
  fill i space data := by
    unfold Aml.step
    infer_instance
  termList terms hterms := forward_termList hrun hterms
  fresh s v t i h hi := by
    obtain ⟨p, j, -, hj, hadded⟩ := term_added h (by rw [hi]; exact AmlAnyId.noConfusion)
    rw [hi] at hj
    cases hj
    exact hadded.behind

instance forwardRun_run (fuel k : Nat) : ForwardRun k (run fuel) := by
  induction fuel generalizing k with
  | zero =>
    have hnever : ∀ goal s v t, run 0 goal s ≠ .ok (v, t) := fun _ _ _ _ h => by cases h
    exact ⟨fun _ => ⟨fun s v t h => absurd h (hnever _ s v t)⟩,
      fun _ => ⟨fun s v t h => absurd h (hnever _ s v t)⟩,
      fun _ _ _ => ⟨fun s v t h => absurd h (hnever _ s v t)⟩,
      fun _ _ => ⟨fun s v t h => absurd h (hnever _ s v t)⟩,
      fun s v t _ h => absurd h (hnever _ s v t)⟩
  | succ fuel ih => exact .step ih k

end Aml
end BezOS
