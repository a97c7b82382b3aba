import Unscramble.Proofs.Literals.Evaluation
import Unscramble.Proofs.Rewriting.Rules

/-! Folding reaches the value of an expression. The rules that drop grouping and fold operations make
contractions only, whatever else stands in a script, and as each of them leaves fewer nodes to contract
a run comes to its end. Then nothing can be contracted, and the argument that was an expression is
the literal for its value. -/
namespace Unscramble

open Simplify Unscramble.Tree

/-! ### The rules -/

/-- The rules that drop grouping around expressions and fold operations. -/
def foldingRules : List Rule := [.unwrapParen, .unwrapPipeline, .foldBinary]

theorem leadsTo_of_pipelineCore? : (t : Tree) → {u : Tree} → pipelineCore? t = some u → LeadsTo t u
  | .node e [c], u, h => by
    rw [pipelineCore?] at h
    split at h
    next hpart => exact .step hpart (leadsTo_of_pipelineCore? c h)
    next => cases h; exact .refl _
  | .node e [], u, h => by
    simp only [pipelineCore?, Option.ite_none_left_eq_some, Option.some.injEq] at h
    exact h.2 ▸ .refl _
  | .node e (_ :: _ :: _), u, h => by
    simp only [pipelineCore?, Option.ite_none_left_eq_some, Option.some.injEq] at h
    exact h.2 ▸ .refl _

section
variable {context : Context} {memory : Memory} {rule : Rule} {s t t' u : Tree} {new : List Tree}

theorem unwrapParen_contracts (h : unwrapParen t = some t') :
    Within (fun s u => s.kind = .parenExpression ∧ Contracts s u) t t' := by
  have hwithin : Within (Splice fun _ s new => ∃ u, new = [u] ∧ s.kind = .parenExpression ∧ Contracts s u)
      t t' := by
    refine replaceFirst?_within (fun p above new _ _ hnew => ?_) h
    simp only [Option.ite_none_right_eq_some, Option.map_eq_some_iff, Option.filter_eq_some_iff,
      Option.bind_eq_some_iff] at hnew
    obtain ⟨hkind, u, ⟨⟨c, hc, hu⟩, hself⟩, rfl⟩ := hnew
    refine ⟨u, rfl, is_iff.mp hkind, ?_⟩
    rw [← node_eta p.tree, children_of_onlyChild? hc]
    exact .paren (is_iff.mp hkind) (leadsTo_of_pipelineCore? c hu) hself
  exact hwithin.of_splice fun _ _ _ h => h

theorem unwrapPipeline_contracts (h : unwrapPipeline t = some t') :
    Within (fun s u => s.kind = .pipeline ∧ Contracts s u) t t' := by
  have hwithin : Within (Splice fun _ s new => ∃ u, new = [u] ∧ s.kind = .pipeline ∧ Contracts s u) t t' := by
    refine replaceFirst?_within (fun p above new _ _ hnew => ?_) h
    simp only [Option.ite_none_right_eq_some, Option.map_eq_some_iff, Option.bind_eq_some_iff] at hnew
    obtain ⟨hkind, u, ⟨c, hc, hu⟩, rfl⟩ := hnew
    refine ⟨u, rfl, is_iff.mp hkind, ?_⟩
    rw [← node_eta p.tree, children_of_onlyChild? hc]
    split at hu
    next helements =>
      rw [← node_eta c, children_of_onlyChild? hu]
      exact .element (is_iff.mp hkind) (is_iff.mp helements)
    next hother =>
      cases hu
      exact .pipeline (is_iff.mp hkind) fun hc => hother (is_iff.mpr hc)
  exact hwithin.of_splice fun _ _ _ h => h

theorem binaryValue?_contracts {folded : Folded} (h : binaryValue? s = some folded) :
    Contracts s folded.toTree := by
  simp only [binaryValue?, Option.ite_none_right_eq_some] at h
  obtain ⟨hkind, h⟩ := h
  split at h
  next left right rest hcs =>
    obtain ⟨operator, hoperator, h⟩ := Option.bind_eq_some_iff.mp h
    obtain ⟨v, hv, h⟩ := Option.bind_eq_some_iff.mp h
    obtain ⟨w, hw, h⟩ := Option.bind_eq_some_iff.mp h
    rw [← node_eta s, hcs]
    exact .operation (is_iff.mp hkind) hoperator hv hw h
  next => cases h

theorem foldBinary_contracts (h : foldBinary t = some t') : Changes Contracts t t' := by
  refine (replaceOutermost?_changes t h).of_splice fun above s new hnew => ?_
  obtain ⟨folded, hfolded, rfl⟩ := Option.map_eq_some_iff.mp hnew
  exact ⟨_, rfl, binaryValue?_contracts hfolded⟩

/-- The rules make contractions only. -/
theorem Rule.apply_contracts (hrule : rule ∈ foldingRules)
    (h : (rule.apply context memory t).1 = some t') : Changes Contracts t t' := by
  simp only [foldingRules, List.mem_cons, List.not_mem_nil, or_false] at hrule
  obtain rfl | rfl | rfl := hrule
  · exact .single ((unwrapParen_contracts h).mono fun _ _ h => h.2)
  · exact .single ((unwrapPipeline_contracts h).mono fun _ _ h => h.2)
  · exact foldBinary_contracts h

/-- Where the rules have no match in a script, nothing can be contracted. -/
theorem not_contracts (hidle : ∀ rule ∈ foldingRules, rule.simplify? t = none)
    (hroot : t.kind = .scriptBlock) (hs : s ∈ t.nodes) : ¬ Contracts s u := by
  have hparen := hidle .unwrapParen (by decide)
  have hpipeline := hidle .unwrapPipeline (by decide)
  have hbinary := hidle .foldBinary (by decide)
  intro h
  cases h with
  | paren hkind hlead hself =>
    rw [unwrapParen_none hparen hroot hs hkind rfl hlead] at hself
    cases hself
  | pipeline hkind hother => exact hother (unwrapPipeline_none hpipeline hroot hs hkind rfl).1
  | element hkind => exact (unwrapPipeline_none hpipeline hroot hs hkind rfl).2 _ rfl
  | operation hkind hoperator hv hw hfold =>
    rw [foldBinary_none hbinary hroot hs hkind rfl hoperator hv hw] at hfold
    cases hfold

end

/-! ### Places of arguments -/

/-- What holds for the child at a position of a node of a kind. -/
def Below (k : Kind) (i : Nat) (P : Tree → Prop) (t : Tree) : Prop :=
  t.kind = k ∧ ∃ c, t.children[i]? = some c ∧ P c

/-- What holds for a command that is a statement, by itself or as a pipeline. -/
inductive Statement (P : Tree → Prop) : Tree → Prop
  | command {t} : P t → Statement P t
  | pipeline {e e' t} : e.kind = .pipeline → e'.kind = .pipelineElements → P t →
      Statement P (.node e [.node e' [t]])

/-- Where an argument of a command stands that is a statement of a script: the positions of the block,
of its statements, of the statement, of the elements of the command and of the argument, each among
its siblings. -/
structure ArgumentPlace where
  block : Nat
  statements : Nat
  statement : Nat
  elements : Nat
  argument : Nat

/-- What holds for the argument in a place of a script. -/
def ArgumentPlace.Holds (i : ArgumentPlace) (P : Tree → Prop) : Tree → Prop :=
  Below .scriptBlock i.block <| Below .namedBlock i.statements <| Below .statements i.statement <|
    Statement <| Below .command i.elements <| Below .commandElements i.argument P

/-- What holds for a node keeps holding while the node is simplified. -/
def Kept (P : Tree → Prop) : Prop := ∀ t t', Within Contracts t t' → P t → P t'

section
variable {P Q : Tree → Prop} {k : Kind} {i : Nat} {t : Tree}

theorem Kept.reflGen {c c' : Tree} (h : Kept P) (hstep : Relation.ReflGen (Within Contracts) c c')
    (hc : P c) : P c' := by
  obtain ⟨-⟩ | hstep := hstep
  exacts [hc, h _ _ hstep hc]

theorem Kept.below (h : Kept P) (hk : contractedKind k = 0) : Kept (Below k i P) := by
  rintro ⟨e, cs⟩ t' hstep ⟨hkind, c, hc, hP⟩
  obtain hcontracts | ⟨cs', rfl, hcs⟩ := hstep.cases_node
  · have hone := hcontracts.kind
    rw [hkind, hk] at hone
    cases hone
  · obtain ⟨hi, rfl⟩ := List.getElem?_eq_some_iff.mp hc
    have hi' : i < cs'.length := by rwa [← hcs.length_eq]
    exact ⟨hkind, cs'[i], List.getElem?_eq_getElem hi', h.reflGen (hcs.get hi hi') hP⟩

/-- A command that is a pipeline may lose the pipeline. -/
theorem Kept.statement (h : Kept (Below .command i P)) : Kept (Statement (Below .command i P)) := by
  rintro t t' hstep (ht | ⟨he, he', ht⟩)
  · exact .command (h _ _ hstep ht)
  · obtain hcontracts | ⟨cs', rfl, hcs⟩ := hstep.cases_node
    · cases hcontracts with
      | paren hkind => rw [he] at hkind; cases hkind
      | pipeline _ hother => exact absurd he' hother
      | element => exact .command ht
    · obtain ⟨elements, ⟨-⟩ | helements, rfl⟩ := forall₂_singleton hcs
      · exact .pipeline he he' ht
      · obtain hcontracts | ⟨ds', rfl, hds⟩ := helements.cases_node
        · have hone := hcontracts.kind
          simp [he', contractedKind] at hone
        · obtain ⟨command, hcommand, rfl⟩ := forall₂_singleton hds
          exact .pipeline he he' (h.reflGen hcommand ht)

theorem ArgumentPlace.kept (place : ArgumentPlace) (h : Kept P) : Kept (place.Holds P) :=
  ((((h.below rfl).below rfl).statement.below rfl).below rfl).below rfl

theorem Below.mono (h : Below k i P t) (hPQ : ∀ u ∈ t.nodes, P u → Q u) : Below k i Q t := by
  obtain ⟨hkind, c, hc, hP⟩ := h
  exact ⟨hkind, c, hc, hPQ c (child_mem_nodes (List.mem_of_getElem? hc)) hP⟩

theorem Statement.mono (h : Statement P t) (hPQ : ∀ u ∈ t.nodes, P u → Q u) : Statement Q t := by
  obtain ht | ⟨he, he', ht⟩ := h
  · exact .command (hPQ t (mem_nodes_self t) ht)
  · exact .pipeline he he' (hPQ _ (by simp [nodes_eq, nodesAll]) ht)

/-- What follows for the nodes of a script follows for its arguments. -/
theorem ArgumentPlace.Holds.mono {place : ArgumentPlace} (h : place.Holds P t)
    (hPQ : ∀ u ∈ t.nodes, P u → Q u) : place.Holds Q t := by
  refine Below.mono h fun block hblock h => Below.mono h fun list hlist h => Below.mono h
    fun statement hstatement h => Statement.mono h fun command hcommand h => Below.mono h
    fun elements helements h => Below.mono h fun argument hargument => hPQ argument ?_
  exact mem_nodes_trans _ (mem_nodes_trans _ (mem_nodes_trans _ (mem_nodes_trans _
    (mem_nodes_trans t hblock hlist) hstatement) hcommand) helements) hargument

end

/-! ### Runs -/

section
variable {context : Context} {rules : List Rule} {P : Tree → Prop} {w : Element → Nat} {p : Progress}

/-- A run of rules that each take away some weight comes to its end, with a tree that none of them has a
match in and that has every property which they keep. -/
theorem runFrom_settles_of_weigh
    (hstep : ∀ rule ∈ rules, ∀ memory t t', (rule.apply context memory t).1 = some t' → P t →
      P t' ∧ weigh w t' < weigh w t)
    (hmemory : Honest context p.memory) (hp : P p.tree)
    (hlimit : ∀ limit ∈ context.settings.maxSteps, p.steps + weigh w p.tree ≤ limit) :
    ∃ q, (∀ fuel, weigh w p.tree < fuel → runFrom context rules fuel p = .settled q) ∧ P q.tree ∧
      Exhausted context rules q.tree := by
  induction hn : weigh w p.tree using Nat.strong_induction_on generalizing p with
  | h n ih =>
    subst hn
    obtain ⟨hattempt, hmemory'⟩ :
        Attempt context rules p.tree (Progress.tryRules context p.memory p.tree rules).1 ∧
          Honest context (Progress.tryRules context p.memory p.tree rules).2 := tryRules_attempt hmemory
    cases htry : Progress.tryRules context p.memory p.tree rules with
    | mk found memory =>
    rw [htry] at hattempt hmemory'
    cases hattempt with
    | exhausted hrules =>
      refine ⟨{ p with memory }, fun fuel hfuel => ?_, hp, hrules⟩
      obtain ⟨fuel, rfl⟩ := Nat.exists_eq_add_one_of_ne_zero (Nat.ne_zero_of_lt hfuel)
      rw [runFrom, Progress.step, htry]
    | @applied rule _ t' hrule _ happly =>
      obtain ⟨hp', hlt⟩ := hstep rule hrule _ _ _ happly hp
      have hsteps : ∀ limit ∈ context.settings.maxSteps, p.steps + 1 + weigh w t' ≤ limit :=
        fun limit h => by
          have := hlimit limit h
          omega
      obtain ⟨q, hq, hresult⟩ := ih (weigh w t') hlt (p := ⟨t', memory, rule :: p.applied⟩) hmemory' hp'
        hsteps rfl
      refine ⟨q, fun fuel hfuel => ?_, hresult⟩
      obtain ⟨fuel, rfl⟩ := Nat.exists_eq_add_one_of_ne_zero (Nat.ne_zero_of_lt hfuel)
      rw [← hq fuel (by omega), runFrom, Progress.step, htry]
      dsimp only
      split
      next limit hsome =>
        have hle : p.steps + 1 ≤ limit := Nat.le_trans (Nat.le_add_right ..) (hsteps limit hsome)
        exact if_neg (Nat.not_lt.mpr hle)
      next => rfl

end

/-- Grouping is dropped and operations are folded in a script until, in the place of an argument that is
an expression of literals, there is the literal for the value of the expression. -/
theorem runFrom_evaluates {context : Context} {rules : List Rule} {place : ArgumentPlace} {t : Tree}
    {v : Value} (hrules : ∀ rule, rule ∈ rules ↔ rule ∈ foldingRules)
    (hlimit : ∀ limit ∈ context.settings.maxSteps, t.size ≤ limit)
    (h : place.Holds (Evaluates · v) t) :
    ∃ p, (∀ fuel, t.size < fuel → runFrom context rules fuel { tree := t } = .settled p) ∧
      place.Holds (fun u => u.literal? = some v) p.tree := by
  have hsize : weigh (kindWeight contractedKind) t ≤ t.size := by
    rw [size_eq_weigh]
    refine (weigh_mono t fun u _ => ?_).1
    unfold kindWeight contractedKind
    split <;> decide
  have hstep : ∀ rule ∈ rules, ∀ memory t t', (rule.apply context memory t).1 = some t' →
      place.Holds (Evaluates · v) t → place.Holds (Evaluates · v) t' ∧
        weigh (kindWeight contractedKind) t' < weigh (kindWeight contractedKind) t := by
    intro rule hrule memory t t' happly ht
    have hchanges := Rule.apply_contracts ((hrules rule).mp hrule) happly
    have hkept : Kept (Evaluates · v) := fun _ _ hstep h => h.within hstep
    exact ⟨hchanges.keeps (place.kept hkept) ht, hchanges.weigh_lt fun _ _ h => h.weigh_lt⟩
  have hsteps : ∀ limit ∈ context.settings.maxSteps, 0 + weigh (kindWeight contractedKind) t ≤ limit :=
    fun limit h => by
      rw [Nat.zero_add]
      exact Nat.le_trans hsize (hlimit limit h)
  obtain ⟨p, hp, hholds, hexhausted⟩ := runFrom_settles_of_weigh (p := { tree := t }) hstep
    (honest_nothing context) h hsteps
  have hnone : ∀ rule ∈ foldingRules, rule.simplify? p.tree = none := by
    intro rule hrule
    obtain ⟨_, -, hrule⟩ := hexhausted rule ((hrules rule).mpr hrule)
    exact Rule.simplify?_eq_none hrule
  refine ⟨p, fun fuel hfuel => hp fuel (Nat.lt_of_le_of_lt hsize hfuel), ?_⟩
  exact hholds.mono fun u hu hevaluates => hevaluates.literal?_of_irreducible fun s hs _ =>
    not_contracts hnone hholds.1 (mem_nodes_trans p.tree hu hs)

/-- An operation on an operation in parentheses, as an argument of a command that is a pipeline. -/
theorem runFrom_evaluates_repeated :
    let operation (operator : Operator) (left right : Tree) : Tree :=
      branch .binaryExpression [("Operator", operator.token)] [left, right]
    let group (t : Tree) : Tree :=
      branch .parenExpression [] [branch .pipeline [] [branch .pipelineElements []
        [branch .commandExpression [] [t]]]]
    let count := operation .plus (intTree 1) (intTree 2)
    let argument := operation .multiply (stringTree .singleQuoted "ab") (group count)
    let script := branch .scriptBlock [] [branch .namedBlock [("BlockKind", "End")]
      [branch .statements [] [branch .pipeline [] [branch .pipelineElements [] [branch .command []
        [branch .commandElements [] [stringTree .bareWord "Write-Host", argument]]]]]]]
    let place : ArgumentPlace := ⟨0, 0, 0, 0, 1⟩
    place.Holds (Evaluates · (.text "ababab")) script ∧
      ∃ p, (∀ fuel, script.size < fuel →
          runFrom {} foldingRules fuel { tree := script } = .settled p) ∧
        place.Holds (fun u => u.literal? = some (.text "ababab")) p.tree := by
  intro operation group count argument script place
  have operator? (operator : Operator) :
      (Tree.element (branch .binaryExpression [("Operator", operator.token)] [])).operator? =
        some operator := by
    cases operator <;> decide
  have hcount : Evaluates count (.int 3) :=
    .operation rfl (operator? .plus) (.of_toTree (v := .int 1) (.of_isScalar rfl) (by decide) .singleQuoted)
      (.of_toTree (v := .int 2) (.of_isScalar rfl) (by decide) .singleQuoted) rfl (by decide)
  have hargument : Evaluates argument (.text "ababab") :=
    .operation rfl (operator? .multiply) (.of_toTree (v := .text "ab") (.of_isScalar rfl) (by decide) .singleQuoted)
      (.group rfl (.step rfl (.step rfl (.step rfl (.refl _)))) hcount) rfl (by decide)
  have hholds : place.Holds (Evaluates · (.text "ababab")) script :=
    ⟨rfl, _, rfl, rfl, _, rfl, rfl, _, rfl, .pipeline rfl rfl ⟨rfl, _, rfl, rfl, _, rfl, hargument⟩⟩
  exact ⟨hholds, runFrom_evaluates (fun _ => Iff.rfl) (by simp) hholds⟩

end Unscramble
