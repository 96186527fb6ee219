import Mathlib.Data.List.Induction
import BezOS.Acpi.AmlOnward

/-!
# Branches and their other case

`TermList` reads the terms of a list and then makes each else behind a branch its other case. No
branch is ever told that it has none: its other case keeps the zero it was built with, the id of
the root.
-/

namespace BezOS
namespace Aml

open List

def kIfOp : UInt8 := 0xa0
def kElseOp : UInt8 := 0xa1

/-! ## Reading the list -/

/-- The terms of a list behind the bytes they start with, the byte of the term that it stopped at
for an error, and the parser behind them. -/
structure Listing where
  terms : List (UInt8 × AmlAnyId)
  stopped : Option UInt8
  state : AmlState
  deriving DecidableEq

abbrev Listing.ids (l : Listing) : List AmlAnyId := l.terms.map Prod.snd

abbrev Listing.leads (l : Listing) : List UInt8 := l.terms.map Prod.fst

/-- The loop of `TermList`, up to where the branches are finished. -/
def readTerms : Nat → AmlState → Except Fault Listing
  | 0, _ => .error .outOfFuel
  | fuel + 1, s =>
      if s.mCode.length ≤ s.mOffset then .ok ⟨[], none, s⟩
      else do
        let (value, u) ← run fuel (.nonterminal .term) s
        if u.nodes.mError ∨ value.toId = .kInvalid then .ok ⟨[], some (s.rest.headD 0), u⟩
        else do
          let l ← readTerms fuel u
          pure { l with terms := (s.rest.headD 0, value.toId) :: l.terms }

lemma termList_run (fuel : Nat) (terms : List AmlAnyId) (s : AmlState) :
    run fuel (.termList terms) s =
      readTerms fuel s >>= fun l => finishTerms (terms ++ l.ids) l.state := by
  induction fuel generalizing terms s with
  | zero => rfl
  | succ fuel ih =>
    rw [run, step, bind_run rfl,
      readTerms]
    by_cases hdone : s.mCode.length ≤ s.mOffset
    · simp only [hdone, decide_true, if_true]
      change _ = finishTerms (terms ++ []) s
      rw [append_nil]
    · simp only [hdone, decide_false, Bool.false_eq_true, if_false]
      cases hterm : run fuel (.nonterminal .term) s with
      | error fault =>
        change run fuel (.nonterminal .term) s >>= _ = _
        rw [hterm]
        rfl
      | ok r =>
        obtain ⟨value, u⟩ := r
        rw [bind_run hterm, bind_run rfl]
        change _ = (if u.nodes.mError ∨ value.toId = .kInvalid
          then Except.ok (⟨[], some (s.rest.headD 0), u⟩ : Listing)
          else _) >>= _
        by_cases hstop : u.nodes.mError = true ∨ value.toId = .kInvalid
        · simp only [hstop, if_true]
          change _ = finishTerms (terms ++ []) u
          rw [append_nil]
        · simp only [hstop, if_false]
          rw [ih]
          cases readTerms fuel u with
          | error fault => rfl
          | ok l =>
            change finishTerms (terms ++ [value.toId] ++ l.ids) l.state =
              finishTerms (terms ++ value.toId :: l.ids) l.state
            rw [append_assoc, singleton_append]

/-! ## The nodes of a list -/

/-- The terms have nodes of their own, from `base` on, in the order of the list; no branch has
another case yet. -/
inductive Laid (nodes : List AmlNode) : Nat → List (UInt8 × AmlAnyId) → Prop
  | nil {base} : Laid nodes base []
  | cons {base i lead node terms} (hbase : base ≤ i) (hnode : nodes[i]? = some node)
      (hotherwise : node.otherwise = .node 0) (hif : node.type = .ifElse ↔ lead = kIfOp)
      (helse : node.type = .else ↔ lead = kElseOp) (hterms : Laid nodes (i + 1) terms) :
      Laid nodes base ((lead, .node i) :: terms)

namespace Laid

variable {nodes nodes' : List AmlNode} {base : Nat} {terms : List (UInt8 × AmlAnyId)}

section

variable (h : Laid nodes base terms)

include h

lemma node {lead : UInt8} {id : AmlAnyId} (hmem : (lead, id) ∈ terms) :
    ∃ i node, id = .node i ∧ base ≤ i ∧ nodes[i]? = some node ∧ node.otherwise = .node 0 ∧
      (node.type = .ifElse ↔ lead = kIfOp) ∧ (node.type = .else ↔ lead = kElseOp) := by
  induction h with
  | nil => cases hmem
  | @cons base j lead' node terms hbase hnode hotherwise hif helse _ ih =>
    rcases mem_cons.1 hmem with heq | hmem
    · cases heq
      exact ⟨j, node, rfl, hbase, hnode, hotherwise, hif, helse⟩
    · obtain ⟨i, node, hid, hle, hrest⟩ := ih hmem
      exact ⟨i, node, hid, by omega, hrest⟩

lemma base_le {i : Nat} (hmem : AmlAnyId.node i ∈ terms.map Prod.snd) :
    base ≤ i := by
  obtain ⟨⟨lead, id⟩, hmem, rfl⟩ := mem_map.1 hmem
  obtain ⟨j, node, hj, hle, -⟩ := h.node hmem
  cases hj
  exact hle

lemma congr (hsame : ∀ i, base ≤ i → nodes'[i]? = nodes[i]?) :
    Laid nodes' base terms := by
  induction h with
  | nil => exact .nil
  | cons hbase hnode hotherwise hif helse _ ih =>
    exact .cons hbase ((hsame _ hbase).trans hnode) hotherwise hif helse
      (ih fun i hi => hsame i (by omega))

end

end Laid

/-- The byte of a choice tells whether it is that of an if or an else. -/
def Choice.telling : Choice → Bool
  | .op seq p => seq ≠ [] && (p.type = some .ifElse) = (seq.headD 0 = kIfOp) &&
      (p.type = some .else) = (seq.headD 0 = kElseOp)
  | .name p => p.type ≠ some .ifElse && p.type ≠ some .else

lemma lead_of_stands {p : Production} {b : List UInt8} (h : Stands (choices .term) p b) :
    (p.type = some .ifElse ↔ b.headD 0 = kIfOp) ∧ (p.type = some .else ↔ b.headD 0 = kElseOp) := by
  have hall : ∀ choice ∈ choices .term, choice.telling = true := by decide
  cases h with
  | op seq hmem hfits =>
    have htelling := hall _ hmem
    simp only [Choice.telling, ne_eq, Bool.and_eq_true, decide_eq_true_eq, eq_iff_iff] at htelling
    obtain ⟨⟨hne, hif⟩, helse⟩ := htelling
    have hhead : b.headD 0 = seq.headD 0 := by
      obtain ⟨rest, rfl⟩ := hfits
      cases seq with
      | nil => exact absurd rfl hne
      | cons c seq => rfl
    rw [hhead]
    exact ⟨hif, helse⟩
  | name hmem hstart =>
    have htelling := hall _ hmem
    simp only [Choice.telling, ne_eq, Bool.and_eq_true, decide_eq_true_eq] at htelling
    -- neither byte starts a name
    have hname : ∀ c : UInt8, isNameStart c = true → c ≠ kIfOp ∧ c ≠ kElseOp := by
      rintro c hc
      refine ⟨?_, ?_⟩ <;> rintro rfl <;> exact absurd hc (by decide)
    obtain ⟨hif, helse⟩ := hname _ hstart
    exact ⟨⟨fun h => absurd h htelling.1, fun h => absurd h hif⟩,
      ⟨fun h => absurd h htelling.2, fun h => absurd h helse⟩⟩

lemma laid_of_readTerms {fuel : Nat} {s : AmlState} {l : Listing}
    (h : readTerms fuel s = .ok l) :
    Laid l.state.nodes.mNodes s.nodes.mNodes.length l.terms ∧
      ∀ k, Onward k s l.state := by
  induction fuel generalizing s l with
  | zero => cases h
  | succ fuel ih =>
    rw [readTerms] at h
    split at h
    · cases h
      exact ⟨.nil, fun _ => .refl s⟩
    · obtain ⟨⟨value, u⟩, hu, h⟩ := bind_eq_ok.1 h
      have hterm : ∀ k, Onward k s u := fun k =>
        ((forwardRun_run fuel k).nonterminal .term).onward s value u hu
      dsimp only at h
      split at h
      · cases h
        exact ⟨.nil, hterm⟩
      · rename_i hgoes
        obtain ⟨l', hl', h⟩ := bind_eq_ok.1 h
        cases h
        obtain ⟨hlaid, honward⟩ := ih hl'
        refine ⟨?_, fun k => (hterm k).trans (honward k)⟩
        have hvalue : value.toId ≠ .kInvalid := fun heq => hgoes (.inr heq)
        obtain ⟨fuel, rfl⟩ : ∃ n, fuel = n + 1 := by
          cases fuel with
          | zero => cases hu
          | succ n => exact ⟨n, rfl⟩
        obtain ⟨p, i, hstands, hi, hadded⟩ := @term_added (run fuel) _ _ _ _ hu hvalue
        obtain ⟨hif, helse⟩ := lead_of_stands hstands
        obtain ⟨node, hnode, hotherwise, htype⟩ := hadded.node
        have hkept := (honward (i + 1)).getElem? (Nat.le_of_eq hadded.last.symm)
          (Nat.lt_succ_self i)
        have hlast : u.nodes.mNodes.length = i + 1 := hadded.last
        rw [hlast] at hlaid
        rw [hi]
        refine .cons hadded.behind (hkept.trans hnode) hotherwise ?_ ?_ hlaid
        · rw [← hif]
          rcases htype with htype | ⟨htype, data, hdata⟩
          · rw [htype, Option.some.injEq]
          · rw [htype, hdata]
            exact ⟨nofun, nofun⟩
        · rw [← helse]
          rcases htype with htype | ⟨htype, data, hdata⟩
          · rw [htype, Option.some.injEq]
          · rw [htype, hdata]
            exact ⟨nofun, nofun⟩

end Aml
end BezOS

/-!
## Which lists pair every else

A list that is finished has every branch told of its else, or that it has none, exactly if it is
made of pairs and of other terms.
-/

namespace BezOS
namespace Aml

open AmlNode List Option Prod

/-! ## Merging -/

section Merge

variable {nodes : List AmlNode} {base i j : Nat} {lead : UInt8} {node : AmlNode}
  {terms : List (UInt8 × AmlAnyId)}

lemma mergeElse_pair {rest : List AmlAnyId} (hif : nodes[i]?.map type = some .ifElse)
    (helse : nodes[j]?.map type = some .else) :
    mergeElse nodes (.node i :: .node j :: rest) =
      ((mergeElse (nodes.modify i fun node => { node with otherwise := .node j }) rest).1,
        .node i :: (mergeElse (nodes.modify i fun node => { node with otherwise := .node j })
          rest).2) := by
  rw [mergeElse, if_pos ⟨hif, helse⟩]

lemma mergeElse_other {x : AmlAnyId} {rest : List AmlAnyId}
    (hother : ∀ i j rest', x = .node i → rest = .node j :: rest' →
      ¬ (nodes[i]?.map type = some .ifElse ∧ nodes[j]?.map type = some .else)) :
    mergeElse nodes (x :: rest) = ((mergeElse nodes rest).1, x :: (mergeElse nodes rest).2) := by
  match x, rest with
  | .node i, .node j :: rest => rw [mergeElse, if_neg (hother i j rest rfl rfl)]
  | .node i, .kInvalid :: rest => rw [mergeElse]; exact nofun
  | .node i, [] => rw [mergeElse]; exact nofun
  | .kInvalid, rest => rw [mergeElse]; exact nofun

lemma type_of_lead (hnode : nodes[i]? = some node) (hif : node.type = .ifElse ↔ lead = kIfOp) :
    nodes[i]?.map type = some .ifElse ↔ lead = kIfOp := by
  rw [hnode, map_some, Option.some.injEq, hif]

lemma Laid.modify (h : Laid nodes base terms) (hi : i < base) (f : AmlNode → AmlNode) :
    Laid (nodes.modify i f) base terms :=
  h.congr fun k hk => getElem?_modify_ne _ _ (by omega)

end Merge

/-! ## What is asked of a list -/

def follower (terms : List (UInt8 × AmlAnyId)) (k : Nat) : AmlAnyId :=
  match terms[k + 1]? with
  | some (lead, id) => if lead = kElseOp then id else .kInvalid
  | none => .kInvalid

/-- Every branch has the else behind it as its other case, or is told that there is none. -/
def BranchesTold (terms : List (UInt8 × AmlAnyId)) (nodes : List AmlNode) : Prop :=
  ∀ k i, terms[k]? = some (kIfOp, .node i) →
    ∃ node, nodes[i]? = some node ∧ node.otherwise = follower terms k

/-- Every else is the other case of a branch of the list. -/
def ElsesAttached (terms : List (UInt8 × AmlAnyId)) (nodes : List AmlNode) : Prop :=
  ∀ id, (kElseOp, id) ∈ terms →
    ∃ i node, (kIfOp, .node i) ∈ terms ∧ nodes[i]? = some node ∧ node.otherwise = id

def siblings (terms : List (UInt8 × AmlAnyId)) : List AmlAnyId :=
  (terms.filter (·.1 ≠ kElseOp)).map snd

/-- A list that was read, the parser with its branches finished, and what became of the list. -/
structure ElsesPaired (l : Listing) (t : AmlState) (merged : List AmlAnyId) : Prop where
  told : BranchesTold l.terms t.nodes.mNodes
  attached : ElsesAttached l.terms t.nodes.mNodes
  siblings : merged = Aml.siblings l.terms
  /-- Nothing else is made the other case of anything. -/
  elsewhere : ∀ i, (kIfOp, .node i) ∉ l.terms → t.nodes.mNodes[i]? = l.state.nodes.mNodes[i]?
  /-- The list does not lose an else. -/
  complete : l.stopped ≠ some kElseOp

/-- Pairs of an if and an else, and other terms. -/
inductive Paired : List UInt8 → Prop
  | nil : Paired []
  | pair {leads} (h : Paired leads) : Paired (kIfOp :: kElseOp :: leads)
  | other {lead leads} (hif : lead ≠ kIfOp) (helse : lead ≠ kElseOp) (h : Paired leads) :
      Paired (lead :: leads)

/-! ## Lists of pairs -/

variable {terms : List (UInt8 × AmlAnyId)} {nodes : List AmlNode} {lead : UInt8}

lemma branchesTold_cons {id : AmlAnyId} :
    BranchesTold ((lead, id) :: terms) nodes ↔
      (∀ i, lead = kIfOp → id = .node i →
        ∃ node, nodes[i]? = some node ∧ node.otherwise = follower ((lead, id) :: terms) 0) ∧
      BranchesTold terms nodes := by
  constructor
  · intro h
    refine ⟨?_, fun k i hk => h (k + 1) i hk⟩
    rintro i rfl rfl
    exact h 0 i rfl
  · rintro ⟨hfirst, hrest⟩ k i hk
    cases k with
    | zero =>
      cases hk
      exact hfirst i rfl rfl
    | succ k => exact hrest k i hk

lemma merged_of_paired {leads : List UInt8} (hpaired : Paired leads) {base : Nat}
    (hlaid : Laid nodes base terms) (hleads : terms.map fst = leads) :
    BranchesTold terms (mergeElse nodes (terms.map snd)).1 ∧
      ElsesAttached terms (mergeElse nodes (terms.map snd)).1 ∧
        (mergeElse nodes (terms.map snd)).2 = siblings terms := by
  induction hpaired generalizing nodes base terms with
  | nil =>
    cases map_eq_nil_iff.1 hleads
    exact ⟨nofun, nofun, rfl⟩
  | other hnif hnelse _ ih =>
    cases hlaid with
    | nil => cases hleads
    | @cons _ i _ node rest hbase hnode _ hif helse hrest =>
      simp only [map_cons, List.cons.injEq] at hleads
      obtain ⟨rfl, hleads⟩ := hleads
      obtain ⟨htold, hattached, hsiblings⟩ := ih hrest hleads
      have hmerge := @mergeElse_other nodes (.node i) (rest.map snd) fun i' _ _ hi _ hpair => by
        cases hi
        exact hnif ((type_of_lead hnode hif).1 hpair.1)
      rw [map_cons, hmerge]
      refine ⟨branchesTold_cons.2 ⟨fun _ heq => absurd heq hnif, htold⟩, fun id hmem => ?_, ?_⟩
      · rcases mem_cons.1 hmem with heq | hmem
        · exact absurd (congrArg fst heq).symm hnelse
        · obtain ⟨i', node', hmem', hrest⟩ := hattached id hmem
          exact ⟨i', node', mem_cons_of_mem _ hmem', hrest⟩
      · rw [siblings, filter_cons_of_pos (by simpa using hnelse), map_cons, hsiblings]
        rfl
  | pair _ ih =>
    cases hlaid with
    | nil => cases hleads
    | @cons _ i _ node rest hbase hnode _ hif helse hrest =>
      cases hrest with
      | nil => cases hleads
      | @cons _ j _ node' rest hbase' hnode' _ hif' helse' hrest =>
        simp only [map_cons, List.cons.injEq] at hleads
        obtain ⟨rfl, rfl, hleads⟩ := hleads
        have hlaid' := hrest.modify (show i < j + 1 by omega)
          fun node => { node with otherwise := .node j }
        obtain ⟨htold, hattached, hsiblings⟩ := ih hlaid' hleads
        have hmerge := @mergeElse_pair nodes i j (rest.map snd)
          ((type_of_lead hnode hif).2 rfl)
          (by rw [hnode', map_some, helse'.2 rfl])
        rw [map_cons, map_cons, hmerge]
        -- the branch is not one of those behind it
        have hbranch : (mergeElse (nodes.modify i fun node => { node with otherwise := .node j })
            (rest.map snd)).1[i]? = some { node with otherwise := .node j } := by
          rw [(mergeElse_nodes _ _).2 i fun hmem => absurd (hlaid'.base_le hmem) (by omega),
            getElem?_modify_eq, hnode]
          rfl
        refine ⟨branchesTold_cons.2 ⟨fun i' _ hi' => ?_, branchesTold_cons.2
          ⟨fun _ heq => absurd heq (by decide), htold⟩⟩, fun id hmem => ?_, ?_⟩
        · cases hi'
          exact ⟨_, hbranch, rfl⟩
        · rcases mem_cons.1 hmem with heq | hmem
          · exact absurd (congrArg fst heq) (show kElseOp ≠ kIfOp by decide)
          · rcases mem_cons.1 hmem with heq | hmem
            · cases heq
              exact ⟨i, _, mem_cons_self .., hbranch, rfl⟩
            · obtain ⟨i', node', hmem', hrest⟩ := hattached id hmem
              exact ⟨i', node', mem_cons_of_mem _ (mem_cons_of_mem _ hmem'), hrest⟩
        · rw [hsiblings]
          rfl

lemma front_of_unmerged {base i : Nat} (hlaid : Laid nodes base ((lead, .node i) :: terms))
    (hmerge : mergeElse nodes (.node i :: terms.map snd) =
      ((mergeElse nodes (terms.map snd)).1, .node i :: (mergeElse nodes (terms.map snd)).2))
    (hnext : lead = kIfOp → follower ((lead, .node i) :: terms) 0 = .kInvalid)
    (htold : BranchesTold ((lead, .node i) :: terms)
      (mergeElse nodes (.node i :: terms.map snd)).1)
    (hsiblings : (mergeElse nodes (.node i :: terms.map snd)).2 =
      siblings ((lead, .node i) :: terms)) :
    lead ≠ kIfOp ∧ lead ≠ kElseOp ∧
      BranchesTold terms (mergeElse nodes (terms.map snd)).1 ∧
        (mergeElse nodes (terms.map snd)).2 = siblings terms := by
  cases hlaid with
  | @cons _ _ _ node _ hbase hnode hotherwise hif helse hrest =>
    have hbehind : AmlAnyId.node i ∉ terms.map snd := fun hmem =>
      absurd (hrest.base_le hmem) (by omega)
    rw [hmerge] at htold hsiblings
    obtain ⟨hfirst, htold⟩ := branchesTold_cons.1 htold
    have hnif : lead ≠ kIfOp := by
      intro hlead
      obtain ⟨node', hnode', hnone⟩ := hfirst i hlead rfl
      -- the branch has its zero still
      rw [(mergeElse_nodes _ _).2 i fun hmem => absurd hmem hbehind, hnode] at hnode'
      cases hnode'
      rw [hotherwise, hnext hlead] at hnone
      cases hnone
    have hnelse : lead ≠ kElseOp := by
      rintro rfl
      have hmem : AmlAnyId.node i ∈ siblings terms := by
        change _ = siblings terms at hsiblings
        rw [← hsiblings]
        exact mem_cons_self ..
      obtain ⟨x, hx, hi⟩ := mem_map.1 hmem
      exact hbehind (mem_map.2 ⟨x, (mem_filter.1 hx).1, hi⟩)
    refine ⟨hnif, hnelse, htold, ?_⟩
    rw [siblings, filter_cons_of_pos (by simpa using hnelse), map_cons] at hsiblings
    exact (List.cons.inj hsiblings).2

lemma paired_of_merged {base : Nat} (hlaid : Laid nodes base terms)
    (htold : BranchesTold terms (mergeElse nodes (terms.map snd)).1)
    (hsiblings : (mergeElse nodes (terms.map snd)).2 = siblings terms) :
    Paired (terms.map fst) := by
  induction terms using twoStepInduction generalizing nodes base with
  | nil => exact .nil
  | singleton x =>
    cases hlaid with
    | cons hbase hnode hotherwise hif helse hrest =>
      obtain ⟨hnif, hnelse, -⟩ := front_of_unmerged (.cons hbase hnode hotherwise hif helse hrest)
        (mergeElse_other nofun) (fun _ => rfl) htold hsiblings
      exact .other hnif hnelse .nil
  | cons_cons x y rest ih1 ih2 =>
    cases hlaid with
    | @cons _ i lead node _ hbase hnode hotherwise hif helse hrest =>
      cases hrest with
      | @cons _ j lead' node' _ hbase' hnode' hotherwise' hif' helse' hrest =>
        by_cases hpair : lead = kIfOp ∧ lead' = kElseOp
        · obtain ⟨rfl, rfl⟩ := hpair
          have hmerge := @mergeElse_pair nodes i j (rest.map snd)
            ((type_of_lead hnode hif).2 rfl)
            (by rw [hnode', map_some, helse'.2 rfl])
          rw [map_cons, map_cons, hmerge] at htold hsiblings
          have hlaid' := hrest.modify (show i < j + 1 by omega)
            fun node => { node with otherwise := .node j }
          refine .pair (ih1 hlaid' (branchesTold_cons.1 (branchesTold_cons.1 htold).2).2 ?_)
          exact (List.cons.inj hsiblings).2
        · have hlaid' := Laid.cons hbase' hnode' hotherwise' hif' helse' hrest
          have hmerge := @mergeElse_other nodes (.node i) (.node j :: rest.map snd) (by
            intro i' j' rest' hi hj htypes
            cases hi
            cases hj
            rw [hnode', map_some, Option.some.injEq, helse'] at htypes
            exact hpair ⟨(type_of_lead hnode hif).1 htypes.1, htypes.2⟩)
          obtain ⟨hnif, hnelse, htold, hsiblings⟩ := front_of_unmerged
            (.cons hbase hnode hotherwise hif helse hlaid') hmerge
            (fun hlead => if_neg fun helse => hpair ⟨hlead, helse⟩) htold hsiblings
          exact .other hnif hnelse (ih2 _ hlaid' htold hsiblings)

/-! ## Whole lists -/

lemma readTerms_finish {fuel : Nat} {s t : AmlState} {l : Listing} {v : AmlValue}
    (hread : readTerms fuel s = .ok l) (hrun : run fuel (.termList []) s = .ok (v, t)) :
    v = .terms (mergeElse l.state.nodes.mNodes l.ids).2 ∧
      t.nodes.mNodes = (mergeElse l.state.nodes.mNodes l.ids).1 := by
  rw [termList_run, hread] at hrun
  obtain ⟨rfl, rfl⟩ := mk.inj (Except.ok.inj hrun)
  exact ⟨rfl, rfl⟩

def ifElseTable : AmlTable := ⟨[0xa0, 0x02, 0x01, 0xa1, 0x01], 2, by decide⟩

def loneIfTable : AmlTable := ⟨[0xa0, 0x02, 0x01], 2, by decide⟩

end Aml
end BezOS
