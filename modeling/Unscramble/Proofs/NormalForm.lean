import Unscramble.Proofs.FixedPoint
import Unscramble.Proofs.Rewriting.Complete

/-! What a run ends with is in normal form for all rules at once. A scan that found nothing looked at
every node, and what a rule could do in one place it would have done: only the root has no place that
something else could be put into, and the root of a script stays a script. -/
namespace Unscramble

open Simplify Unscramble.Tree Vocabulary

/-- A node at the end of a chain of pipeline parts with one child each. -/
inductive LeadsTo : Tree → Tree → Prop
  | refl (t) : LeadsTo t t
  | step {e c t} : isPipelinePart e.kind = true → LeadsTo c t → LeadsTo (.node e [c]) t

/-- A tree that has nothing left to simplify. -/
structure NormalForm (t : Tree) : Prop where
  list : ∀ s ∈ t.nodes, isOptionalList s.kind = true → s.children ≠ []
  pipeline : ∀ s ∈ t.nodes, s.kind = .pipeline → ∀ c, s.children = [c] →
    c.kind = .pipelineElements ∧ ∀ d, c.children ≠ [d]
  paren : ∀ s ∈ t.nodes, s.kind = .parenExpression → ∀ c u, s.children = [c] → LeadsTo c u →
    isSelfDelimited u.kind = false
  join : ∀ s ∈ t.nodes, s.kind = .unaryExpression → s.token? = some .join → s.children.length ≠ 1
  binary : ∀ s ∈ t.nodes, s.kind = .binaryExpression → ∀ left right rest operator v w,
    s.children = left :: right :: rest → s.operator? = some operator → left.literal? = some v →
    right.literal? = some w → fold? operator v w = none
  invocation : ∀ s ∈ t.nodes, invocationValue? s = none ∧ propertyValue? s = none
  conversion : ∀ s ∈ t.nodes, castOf? s = none
  index : ∀ s ∈ t.nodes, indexValue? s = none
  decided : ∀ s ∈ t.nodes, s.kind = .statements → ∀ c ∈ s.children, decide? c = none
  command : ∀ s ∈ t.nodes, s.kind = .commandElements → ∀ c ∈ s.children.head?, c.isBareword = true →
    aliasTarget? c.payload = none
  bareword : ∀ s ∈ t.nodes, s.isBareword = true → canonicalCase s.payload = s.payload
  type : ∀ s ∈ t.nodes, s.kind = .typeConstraint ∨ s.kind = .typeExpression →
    ∀ name ∈ s.attr? "TypeName", canonicalCase name = name
  assignment : t.hasDynamicVariables = false → ∀ s ∈ t.nodes, s.kind = .statements →
    ∀ c ∈ s.children, c.isPlainAssignment = true → ∀ target value rest path,
      c.children = target :: value :: rest → target.variablePath? = some path →
      isAmbient path = false → isPure value = true → Text.lower path ∈ t.reads

/-! ### The root -/

section
variable {context : Context} {rule : Rule} {memory : Memory} {t t' : Tree}

theorem LocalStep.root_kind {r : Rule} (h : LocalStep r t t') (ht : t.kind = .scriptBlock) :
    t'.kind = .scriptBlock := by
  cases h with
  | exchange h => obtain ⟨-⟩ := h; exact ht
  | update h =>
    cases h with
    | arms hkind | join hkind | reversed hkind | value hkind => simp_all

theorem Within.root_kind {U : Tree → Tree → Prop} (h : Within U t t')
    (hU : ∀ s s', U s s' → s.kind = .scriptBlock → s'.kind = .scriptBlock)
    (ht : t.kind = .scriptBlock) : t'.kind = .scriptBlock := by
  cases h with
  | here h => exact hU _ _ h ht
  | inside => exact ht

/-- A script stays a script. -/
theorem Rule.apply_root_kind (h : (rule.apply context memory t).1 = some t')
    (ht : t.kind = .scriptBlock) : t'.kind = .scriptBlock := by
  cases rule.apply_application h with
  | steps h => exact h.keeps (fun _ _ h => h.root_kind fun _ _ h => h.root_kind) ht
  | spelling h =>
    refine h.keeps (fun _ _ h => h.root_kind fun s s' hs hkind => ?_) ht
    obtain ⟨halike⟩ := hs.reworded
    exact halike.kind.trans hkind
  | graft _ _ h => exact h.root_kind (fun _ _ ⟨_⟩ hkind => hkind) ht

/-! ### Single rules -/

theorem Rule.simplify?_eq_none (h : (rule.apply context memory t).1 = none) :
    rule.simplify? t = none := by
  cases rule with
  | inlineInvokeExpression | renameLongNames => rfl
  | _ => exact h

/-- What a rule without a match would replace in a node that is not the root is nowhere. -/
theorem not_found_outermost {f : Tree → Option (List Tree)} (h : t.replaceOutermost? f = none)
    (hroot : f t = none) : ∀ s ∈ t.nodes, f s = none := by
  intro s hs
  rw [nodes_eq, List.mem_cons] at hs
  rcases hs with rfl | hs
  · exact hroot
  · exact replaceOutermost?_eq_none t h s hs

theorem not_part_of_isSelfDelimited {k : Kind} (h : isSelfDelimited k = true) :
    isPipelinePart k = false := by
  cases k <;> simp_all [isSelfDelimited, isPipelinePart]

theorem pipelineCore?_of_leadsTo {c u : Tree} (h : LeadsTo c u) (hu : isPipelinePart u.kind = false) :
    pipelineCore? c = some u := by
  induction h with
  | refl u =>
    unfold pipelineCore?
    split <;> simp_all
  | step hpart _ ih => rw [pipelineCore?, if_pos hpart, ih hu]

theorem unwrapPipeline_none (h : unwrapPipeline t = none) (hroot : t.kind = .scriptBlock) {s c : Tree}
    (hs : s ∈ t.nodes) (hkind : s.kind = .pipeline) (hc : s.children = [c]) :
    c.kind = .pipelineElements ∧ ∀ d, c.children ≠ [d] := by
  obtain ⟨_, hplace⟩ := exists_place [] s hs
  have hnone := replaceFirst?_eq_none (by simp [Tree.is, hroot]) h _ hplace
  dsimp only at hnone
  have honly : s.onlyChild? = some c := by rw [onlyChild?, hc]
  rw [if_pos (is_iff.mpr hkind), honly, Option.bind_some] at hnone
  split at hnone
  next helements =>
    refine ⟨is_iff.mp helements, fun d hd => ?_⟩
    rw [onlyChild?, hd] at hnone
    cases hnone
  next => cases hnone

theorem unwrapParen_none (h : unwrapParen t = none) (hroot : t.kind = .scriptBlock) {s c u : Tree}
    (hs : s ∈ t.nodes) (hkind : s.kind = .parenExpression) (hc : s.children = [c]) (hu : LeadsTo c u) :
    isSelfDelimited u.kind = false := by
  obtain ⟨_, hplace⟩ := exists_place [] s hs
  have hnone := replaceFirst?_eq_none (by simp [Tree.is, hroot]) h _ hplace
  dsimp only at hnone
  by_contra hself
  rw [Bool.not_eq_false] at hself
  have honly : s.onlyChild? = some c := by rw [onlyChild?, hc]
  rw [if_pos (is_iff.mpr hkind), honly, Option.bind_some,
    pipelineCore?_of_leadsTo hu (not_part_of_isSelfDelimited hself), Option.filter_some, if_pos hself] at hnone
  cases hnone

theorem unaryJoin_none (h : unaryJoin t = none) {s : Tree} (hs : s ∈ t.nodes)
    (hkind : s.kind = .unaryExpression) (htoken : s.token? = some .join) : s.children.length ≠ 1 := by
  intro hlength
  have hnone := updateEvery?_eq_none t h s hs
  rw [binaryJoin?, if_pos (by simp [Tree.is, hkind, htoken, hlength])] at hnone
  cases hnone

theorem foldBinary_none (h : foldBinary t = none) (hroot : t.kind = .scriptBlock) {s left right : Tree}
    {rest : List Tree} {operator : Operator} {v w : Value} (hs : s ∈ t.nodes)
    (hkind : s.kind = .binaryExpression) (hcs : s.children = left :: right :: rest)
    (hoperator : s.operator? = some operator) (hv : left.literal? = some v)
    (hw : right.literal? = some w) : fold? operator v w = none := by
  have hnone := not_found_outermost h (by simp [binaryValue?, Tree.is, hroot]) s hs
  rw [Option.map_eq_none_iff, binaryValue?, if_pos (is_iff.mpr hkind), hcs] at hnone
  simpa [hoperator, hv, hw] using hnone

theorem deadBranches_none (h : deadBranches t = none) {s c : Tree} (hs : s ∈ t.nodes)
    (hkind : s.kind = .statements) (hc : c ∈ s.children) : decide? c = none := by
  obtain ⟨i, hi⟩ := List.getElem?_of_mem hc
  obtain ⟨above, hplace⟩ := exists_placesFrom [] s hs hi
  have hnone := List.findSome?_eq_none_iff.mp h _ hplace
  have hparent : Place.parentIs ⟨(s, i) :: above, c⟩ .statements = true := is_iff.mpr hkind
  by_contra hsome
  obtain ⟨outcome, houtcome⟩ := Option.ne_none_iff_exists'.mp hsome
  rw [decideAt?, houtcome, Option.bind_some] at hnone
  cases outcome with
  | retain children => cases hnone
  | splice statements =>
    dsimp only at hnone
    rw [if_pos hparent] at hnone
    cases hnone

theorem aliasToCmdlet_none (h : aliasToCmdlet t = none) {s c : Tree} (hs : s ∈ t.nodes)
    (hkind : s.kind = .commandElements) (hc : c ∈ s.children.head?) (hbare : c.isBareword = true) :
    aliasTarget? c.payload = none := by
  have hnone := respellFrom?_child h s hs (i := 0) (List.head?_eq_getElem? .. ▸ hc)
  rwa [aliasToCmdletOf, if_pos (by simp [isCommandName, Tree.is, hkind, hbare]),
    Option.map_eq_none_iff] at hnone

theorem changed?_eq_none {old new : String} : changed? old new = none ↔ new = old := by
  simp [changed?]

theorem barewordCase_none (h : barewordCase t = none) {s : Tree} (hs : s ∈ t.nodes)
    (hbare : s.isBareword = true) : canonicalCase s.payload = s.payload := by
  obtain ⟨_, hnone⟩ := respellFrom?_eq_none h s hs
  rwa [barewordCaseOf, if_pos hbare, Option.map_eq_none_iff, changed?_eq_none] at hnone

theorem typeNameCase_none (h : typeNameCase t = none) {s : Tree} {name : String} (hs : s ∈ t.nodes)
    (hkind : s.kind = .typeConstraint ∨ s.kind = .typeExpression) (hname : s.attr? "TypeName" = some name) :
    canonicalCase name = name := by
  obtain ⟨_, hnone⟩ := respellFrom?_eq_none h s hs
  rwa [typeNameCaseOf, if_pos (by simpa [Tree.is] using hkind), Option.map_eq_none_iff, hname,
    Option.bind_some, changed?_eq_none] at hnone

theorem removeUnusedVariable_none (h : removeUnusedVariable t = none) (hnames : t.hasDynamicVariables = false)
    {s c target value : Tree} {rest : List Tree} {path : String} (hs : s ∈ t.nodes)
    (hkind : s.kind = .statements) (hc : c ∈ s.children) (hplain : c.isPlainAssignment = true)
    (hcs : c.children = target :: value :: rest) (hpath : target.variablePath? = some path)
    (hambient : isAmbient path = false) (hpure : isPure value = true) : Text.lower path ∈ t.reads := by
  rw [removeUnusedVariable, if_neg (by rw [hnames]; exact Bool.false_ne_true)] at h
  obtain ⟨i, hi⟩ := List.getElem?_of_mem hc
  obtain ⟨above, hplace⟩ := exists_placesFrom [] s hs hi
  have hroot : (if isDeadAssignment t.reads ⟨[], t⟩ then some ([] : List Tree) else none) = none := by
    simp [isDeadAssignment, Place.parentIs, Place.parent?]
  have hnone := replaceFirst?_eq_none hroot h _ hplace
  have hparent : Place.parentIs ⟨(s, i) :: above, c⟩ .statements = true := is_iff.mpr hkind
  by_contra hread
  have hdead : isDeadAssignment t.reads ⟨(s, i) :: above, c⟩ = true := by
    simp [isDeadAssignment, hplain, hparent, hcs, hpath, hambient, hread, hpure]
  rw [if_pos hdead] at hnone
  cases hnone

end

/-! ### All rules -/

theorem NormalForm.of_exhausted {context : Context} {t : Tree} (h : Exhausted context Rule.catalog t)
    (hroot : t.kind = .scriptBlock) : NormalForm t := by
  have hnone (rule : Rule) : rule.simplify? t = none := by
    obtain ⟨_, -, hrule⟩ := h rule (by cases rule <;> decide)
    exact Rule.simplify?_eq_none hrule
  exact {
    list := fun s hs hkind hempty => by
      have hlist := not_found_outermost (hnone .removeEmptyContainers)
        (by simp [isEmptyOptional, hroot, isOptionalList]) s hs
      simp [isEmptyOptional, hkind, hempty] at hlist
    pipeline := fun s hs hkind c hc => unwrapPipeline_none (hnone .unwrapPipeline) hroot hs hkind hc
    paren := fun s hs hkind c u hc hu => unwrapParen_none (hnone .unwrapParen) hroot hs hkind hc hu
    join := fun s hs hkind htoken => unaryJoin_none (hnone .unaryJoin) hs hkind htoken
    binary := fun s hs hkind _ _ _ _ _ _ hcs hoperator hv hw =>
      foldBinary_none (hnone .foldBinary) hroot hs hkind hcs hoperator hv hw
    invocation := fun s hs => by
      simpa using not_found_outermost (hnone .foldInvokeMember)
        (by simp [invocationValue?, invocation?, propertyValue?, Tree.is, hroot]) s hs
    conversion := fun s hs => by
      simpa using not_found_outermost (hnone .foldConversions)
        (by simp [castOf?, conversion?, Tree.is, hroot]) s hs
    index := fun s hs => by
      simpa using not_found_outermost (hnone .foldIndex) (by simp [indexValue?, Tree.is, hroot]) s hs
    decided := fun s hs hkind c hc => deadBranches_none (hnone .deadBranches) hs hkind hc
    command := fun s hs hkind c hc => aliasToCmdlet_none (hnone .aliasToCmdlet) hs hkind hc
    bareword := fun s hs => barewordCase_none (hnone .barewordCase) hs
    type := fun s hs hkind _ hname => typeNameCase_none (hnone .typeNameCase) hs hkind hname
    assignment := fun hnames s hs hkind c hc hplain _ _ _ _ hcs hpath hambient hpure =>
      removeUnusedVariable_none (hnone .removeUnusedVariable) hnames hs hkind hc hplain hcs hpath
        hambient hpure }

/-- The tree that a run on a script comes to a fixed point with is in normal form. -/
theorem optimize_normalForm {context : Context} {fuel : Nat} {t : Tree} {p : Progress}
    (ht : t.kind = .scriptBlock) (h : optimize context fuel t = .settled p) : NormalForm p.tree := by
  obtain ⟨hroot, hrules⟩ := exhausted_of_settled (P := fun t => t.kind = .scriptBlock)
    (fun ht happly => Rule.apply_root_kind happly ht) (honest_nothing context) ht h
  exact .of_exhausted hrules hroot

theorem optimize_normalForm_sum :
    let script (value : Tree) := branch .scriptBlock [] [branch .namedBlock []
      [branch .statements [] [branch .commandExpression [] [value]]]]
    let sum := branch .binaryExpression [("Operator", "Plus")] [intTree 1, intTree 2]
    let run := optimize {} 3 (script (branch .parenExpression [] [sum]))
    (script (branch .parenExpression [] [sum])).kind = .scriptBlock ∧
      run = .settled ⟨script (intTree 3), {}, [.unwrapParen, .foldBinary]⟩ ∧
      NormalForm (script (intTree 3)) := by
  intro script sum run
  have hrun : run = .settled ⟨script (intTree 3), {}, [.unwrapParen, .foldBinary]⟩ := by
    decide +kernel
  exact ⟨rfl, hrun, optimize_normalForm rfl hrun⟩

end Unscramble
