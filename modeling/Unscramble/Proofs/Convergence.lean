import Mathlib.Order.WellFounded
import Unscramble.Proofs.ChangeFlag
import Unscramble.Proofs.Spelling.SameNames
import Unscramble.Proofs.Spelling.Settled

/-! The rules about spelling converge. They keep the outline of a tree, they come to an end in whatever
order they are applied, and they always come to the same end: the tree that has the settled element of
every node after long names were replaced. None of the rules changes what that tree is, and where none of
them has a match it is the tree itself. -/
namespace Unscramble

open Simplify Unscramble.Tree

/-- The rules about spelling. -/
def spellingRules : List Rule :=
  [.prefixCase, .barewordCase, .memberCase, .commandBareword, .aliasToCmdlet, .specialVariableCase,
    .typeConstraintFromConvert, .typeNameCase, .renameLongNames]

/-- All rules about spelling but for the one that renames are respellings, and they remember nothing. -/
structure Recasing (threshold : Nat) (rule : Rule) (f : Respelling) : Prop where
  mem : f ∈ recasings
  spells : SpellsBy threshold rule f
  keeps : rule ≠ .renameLongNames
  apply : ∀ context memory t, rule.apply context memory t = (t.respell? f, memory)

theorem recasing_or_renaming (threshold : Nat) {rule : Rule} (h : rule ∈ spellingRules) :
    (∃ f, Recasing threshold rule f) ∨ rule = .renameLongNames := by
  simp only [spellingRules, List.mem_cons, List.not_mem_nil, or_false] at h
  rcases h with rfl | rfl | rfl | rfl | rfl | rfl | rfl | rfl | rfl
  · exact .inl ⟨_, by simp [recasings], prefixCaseOf_spells _, by decide, fun _ _ _ => rfl⟩
  · exact .inl ⟨_, by simp [recasings], barewordCaseOf_spells _, by decide, fun _ _ _ => rfl⟩
  · exact .inl ⟨_, by simp [recasings], memberCaseOf_spells _, by decide, fun _ _ _ => rfl⟩
  · exact .inl ⟨_, by simp [recasings], commandBarewordOf_spells _, by decide, fun _ _ _ => rfl⟩
  · exact .inl ⟨_, by simp [recasings], aliasToCmdletOf_spells _, by decide, fun _ _ _ => rfl⟩
  · exact .inl ⟨_, by simp [recasings], specialVariableCaseOf_spells _, by decide, fun _ _ _ => rfl⟩
  · exact .inl ⟨_, by simp [recasings], typeConstraintOf_spells _, by decide, fun _ _ _ => rfl⟩
  · exact .inl ⟨_, by simp [recasings], typeNameCaseOf_spells _, by decide, fun _ _ _ => rfl⟩
  · exact .inr rfl

/-! ### Outlines -/

mutual

/-- The kinds of the nodes of a tree, each with those of its children. -/
def Tree.outline : Tree → Tree
  | .node e cs => .node { kind := e.kind } (outlineAll cs)

def Tree.outlineAll : List Tree → List Tree
  | [] => []
  | t :: ts => t.outline :: outlineAll ts

end

theorem Tree.outlineAll_eq_map (ts : List Tree) : outlineAll ts = ts.map outline := by
  induction ts with
  | nil => rfl
  | cons t ts ih => rw [outlineAll, ih, List.map_cons]

section
variable {threshold : Nat} {r : Rule} {f : Respelling}

theorem SpellsBy.alike (hf : SpellsBy threshold r f) (above : Option (Tree × Nat)) (t : Tree) :
    Alike t.element ((f above t).getD t.element) := by
  cases h : f above t with
  | none => exact ⟨rfl, fun _ _ => rfl⟩
  | some e' => exact (hf above t e' h).alike

theorem SpellsBy.outline (hf : SpellsBy threshold r f) (t : Tree) :
    ∀ above, (respelled f above t).outline = t.outline := by
  induction t using children_induction with
  | h e cs ih =>
    intro above
    have hkind := (hf.alike above (.node e cs)).kind
    rw [element_node] at hkind
    rw [respelled_node, Tree.outline, Tree.outline, hkind, outlineAll_eq_map, outlineAll_eq_map]
    congr 1
    refine List.ext_getElem (by simp) fun i hi _ => ?_
    rw [List.getElem_map, List.getElem_map, List.getElem_mapIdx]
    exact ih _ (List.getElem_mem _) _

end

/-! ### Respellings that look at the meaning of places -/

/-- Gives every node the element that its element and the meaning of its place call for. -/
def spelledBy (h : Standing → Element → Element) : Respelling := fun above t =>
  some (h (standing above) t.element)

section
variable {threshold : Nat} {r : Rule} {f : Respelling} {h k : Standing → Element → Element}

theorem SpellsBy.static (hf : SpellsBy threshold r f) (above : Option (Tree × Nat)) (t : Tree) :
    ((f above t).getD t.element).attr? "StaticType" = t.element.attr? "StaticType" := by
  cases hsome : f above t with
  | none => rfl
  | some e' =>
    have hspells := hf above t e' hsome
    rw [Option.getD_some]
    by_cases hr : r = .typeConstraintFromConvert
    · subst hr
      cases hspells
      simp
    · exact (hspells.akin hr).static

theorem SpellsBy.standing (hf : SpellsBy threshold r f) (above : Option (Tree × Nat)) (e : Element)
    (cs : List Tree) (i : Nat) :
    standing (some (.node ((f above (.node e cs)).getD e)
      (cs.mapIdx fun i c => respelled f (some (.node e cs, i)) c), i)) =
        standing (some (.node e cs, i)) := by
  refine standing_congr (hf.alike above (.node e cs)).kind (hf.static above (.node e cs)) ?_
  refine sameKinds_mapIdx cs fun j c => ?_
  obtain ⟨e', cs'⟩ := c
  rw [respelled_node]
  exact (hf.alike _ (.node e' cs')).kind

theorem placed_child {e : Element} {cs : List Tree} {i : Nat} (hi : i < cs.length) :
    Placed (some (.node e cs, i)) cs[i] := by
  rintro p j ⟨⟩
  exact List.getElem?_eq_getElem hi

/-- A rule in front of a respelling that looks at nothing but the meaning of places is part of one that
does the same. -/
theorem respelled_spelledBy (hf : SpellsBy threshold r f)
    (hk : ∀ above t, Placed above t →
      h (standing above) ((f above t).getD t.element) = k (standing above) t.element) (t : Tree) :
    ∀ above above', standing above' = standing above → Placed above t →
      respelled (spelledBy h) above' (respelled f above t) = respelled (spelledBy k) above t := by
  induction t using children_induction with
  | h e cs ih =>
    intro above above' hstanding hplaced
    rw [respelled_node f, respelled_node, respelled_node, List.mapIdx_mapIdx]
    congr 1
    · simpa [spelledBy, hstanding] using hk above (.node e cs) hplaced
    · refine List.mapIdx_eq_mapIdx_iff.mpr fun i hi => ?_
      exact ih _ (List.getElem_mem hi) _ _ (hf.standing above e cs i) (placed_child hi)

theorem placed_root (t : Tree) : Placed none t := by
  rintro p i ⟨⟩

/-- A respelling that gives every node the element it has leaves a tree alone. -/
theorem respelled_settled {t : Tree} {above : Option (Tree × Nat)}
    (hnone : ∀ f ∈ recasings, t.respellFrom? f above = none) :
    respelled (spelledBy settled) above t = t := by
  induction t using children_induction generalizing above with
  | h e cs ih =>
    have hboth := fun f hf => respellFrom?_eq_none_iff.mp (hnone f hf)
    rw [respelled_node]
    congr 1
    · exact settled_eq_self fun f hf => (hboth f hf).1
    · refine List.mapIdx_eq_iff.mpr fun i => ?_
      cases hc : cs[i]? with
      | none => rfl
      | some c =>
        rw [Option.map_some, ih c (List.mem_of_getElem? hc) fun f hf => (hboth f hf).2 i c hc]

theorem respelled_congr {f g : Respelling} {t : Tree} {above : Option (Tree × Nat)}
    (hfg : ∀ s ∈ t.nodes, ∀ above, f above s = g above s) : respelled f above t = respelled g above t := by
  rw [respelled, respelled, respellFrom?_congr t hfg]

end

/-! ### The common end -/

/-- An element with a short name. -/
def renamedElement (threshold : Nat) (memory : Memory) (e : Element) : Element :=
  (renamedElement? threshold memory e).getD e

theorem renamedElement_short {threshold : Nat} {memory : Memory} {e : Element}
    (h : longWeight threshold e = 0) : renamedElement threshold memory e = e := by
  rw [renamedElement, renamedElement?_eq_none.mpr h, Option.getD_none]

/-- The tree that the rules about spelling lead to. -/
def converged (threshold : Nat) (memory : Memory) (t : Tree) : Tree :=
  respelled (spelledBy fun σ e =>
    settled σ (renamedElement threshold (renameLongNames threshold memory t).2 e)) none t

section
variable {threshold : Nat} {rule : Rule} {memory : Memory} {t t' : Tree} {f : Respelling}

theorem converged_short (hshort : weigh (longWeight threshold) t = 0) :
    converged threshold memory t = respelled (spelledBy settled) none t := by
  refine respelled_congr fun s hs above => ?_
  have helement : longWeight threshold s.element = 0 :=
    Nat.le_zero.mp (hshort ▸ element_le_weigh (w := longWeight threshold) hs)
  rw [spelledBy, spelledBy, renamedElement_short helement]

/-- Renaming commutes with what the other rules do, as these leave long names alone and make no others. -/
theorem Recasing.settled (hf : Recasing threshold rule f) (hthreshold : 30 ≤ threshold) (memory : Memory)
    (above : Option (Tree × Nat)) (t : Tree) (hplaced : Placed above t) :
    settled (standing above) (renamedElement threshold memory ((f above t).getD t.element)) =
      settled (standing above) (renamedElement threshold memory t.element) := by
  cases h : f above t with
  | none => rw [Option.getD_none]
  | some e' =>
    obtain ⟨hsettled, hshort⟩ := recasings_settle hthreshold f hf.mem hplaced h
    have hshort' : longWeight threshold e' = 0 :=
      Nat.le_zero.mp (hshort ▸ (hf.spells above t e' h).long_le hthreshold hf.keeps)
    rw [Option.getD_some, renamedElement_short hshort, renamedElement_short hshort', hsettled]

theorem Recasing.converged (hf : Recasing threshold rule f) (hthreshold : 30 ≤ threshold) (memory : Memory)
    (t : Tree) : converged threshold memory (respelled f none t) = converged threshold memory t := by
  rw [Unscramble.converged, hf.spells.remembers hthreshold hf.keeps]
  exact respelled_spelledBy hf.spells (hf.settled hthreshold _) t none none rfl (placed_root t)

theorem renameLongNames_converged (hthreshold : 30 ≤ threshold) (h : Underway threshold memory t)
    (ht : (renameLongNames threshold memory t).1 = some t') :
    converged threshold (renameLongNames threshold memory t).2 t' = converged threshold memory t := by
  have hshort : weigh (longWeight threshold) t' = 0 := (h.rename hthreshold ht).1
  rw [converged_short hshort, respelled_of_respell? ht]
  exact respelled_spelledBy (renamedElement?_spells threshold _) (fun _ _ _ => rfl) t none none rfl
    (placed_root t)

end

namespace Situation

section
variable {context : Context} {rule : Rule} {s : Situation}

theorem apply_eq (context : Context) (rule : Rule) (s : Situation) : s.apply context rule =
    ⟨(rule.apply context s.memory s.tree).1.getD s.tree, (rule.apply context s.memory s.tree).2⟩ := rfl

/-- The rules about spelling do not consult a parser. -/
theorem apply_unparsed (h : rule ∈ spellingRules) (memory : Memory) (t : Tree) :
    rule.apply context memory t = rule.apply { context with parser := none } memory t := by
  rcases recasing_or_renaming 0 h with ⟨f, hf⟩ | rfl
  · rw [hf.apply, hf.apply]
  · rfl

theorem apply_of_not_reports (hrule : rule ∈ spellingRules) (h : s.reports context rule = false) :
    s.apply context rule = s := by
  have hnone : (rule.apply context s.memory s.tree).1 = none := by simpa [reports] using h
  have hmemory : (rule.apply context s.memory s.tree).2 = s.memory := by
    rw [apply_unparsed hrule] at hnone ⊢
    exact Rule.apply_none rfl hnone
  rw [apply_eq, hnone, hmemory, Option.getD_none]

/-- None of the rules changes the kind of a node or its list of children. -/
theorem outline_apply (hrule : rule ∈ spellingRules) :
    (s.apply context rule).tree.outline = s.tree.outline := by
  rcases recasing_or_renaming 0 hrule with ⟨f, hf⟩ | rfl
  · rw [apply_eq, hf.apply]
    exact hf.spells.outline s.tree none
  · exact (renamedElement?_spells context.settings.renameThreshold _).outline s.tree none

variable (hthreshold : 30 ≤ context.settings.renameThreshold)
include hthreshold

theorem apply_of_reports (hrule : rule ∈ spellingRules)
    (hs : Underway context.settings.renameThreshold s.memory s.tree) (h : s.reports context rule = true) :
    Smaller context.settings.renameThreshold (s.apply context rule).tree s.tree ∧
      Underway context.settings.renameThreshold (s.apply context rule).memory
        (s.apply context rule).tree := by
  obtain ⟨t', ht'⟩ := Option.isSome_iff_exists.mp h
  rw [apply_eq, ht', apply_unparsed hrule]
  rw [apply_unparsed hrule] at ht'
  exact @Rule.apply_smaller rule { context with parser := none } s.memory s.tree t' rfl hthreshold hs ht'

theorem underway_apply (hrule : rule ∈ spellingRules)
    (hs : Underway context.settings.renameThreshold s.memory s.tree) :
    Underway context.settings.renameThreshold (s.apply context rule).memory
      (s.apply context rule).tree := by
  cases h : s.reports context rule with
  | true => exact (apply_of_reports hthreshold hrule hs h).2
  | false => rwa [apply_of_not_reports hrule h]

/-- No rule changes what the rules lead to. -/
theorem converged_apply (hrule : rule ∈ spellingRules)
    (hs : Underway context.settings.renameThreshold s.memory s.tree) :
    converged context.settings.renameThreshold (s.apply context rule).memory (s.apply context rule).tree =
      converged context.settings.renameThreshold s.memory s.tree := by
  rcases recasing_or_renaming context.settings.renameThreshold hrule with ⟨f, hf⟩ | rfl
  · rw [apply_eq, hf.apply]
    exact hf.converged hthreshold s.memory s.tree
  · cases h : s.reports context .renameLongNames with
    | false => rw [apply_of_not_reports hrule h]
    | true =>
      obtain ⟨t', ht'⟩ := Option.isSome_iff_exists.mp h
      rw [apply_eq, ht', Option.getD_some]
      exact renameLongNames_converged hthreshold hs ht'

end

/-! ### Sequences of applications -/

/-- What the rules of an infinite sequence lead to, one after the other. -/
def along (context : Context) (rules : Nat → Rule) (s : Situation) : Nat → Situation
  | 0 => s
  | n + 1 => (along context rules s n).apply context (rules n)

/-- What the rules of a list lead to. -/
def run (context : Context) (rules : List Rule) (s : Situation) : Situation :=
  rules.foldl (fun s rule => s.apply context rule) s

/-- None of the rules about spelling has a match. -/
def Ended (context : Context) (s : Situation) : Prop :=
  ∀ rule ∈ spellingRules, s.reports context rule = false

section
variable {context : Context} {s : Situation}

theorem converged_ended (h : s.Ended context) :
    converged context.settings.renameThreshold s.memory s.tree = s.tree := by
  have hnone (rule : Rule) (hrule : rule ∈ spellingRules) :
      (rule.apply context s.memory s.tree).1 = none := by
    simpa [reports] using h rule hrule
  have hshort : weigh (longWeight context.settings.renameThreshold) s.tree = 0 :=
    renameLongNames_eq_none.mp (hnone .renameLongNames (by simp [spellingRules]))
  have hrecasings : ∀ f ∈ recasings, s.tree.respell? f = none := by
    simp only [recasings, List.forall_mem_cons]
    exact ⟨hnone .prefixCase (by simp [spellingRules]), hnone .barewordCase (by simp [spellingRules]),
      hnone .memberCase (by simp [spellingRules]), hnone .commandBareword (by simp [spellingRules]),
      hnone .aliasToCmdlet (by simp [spellingRules]), hnone .specialVariableCase (by simp [spellingRules]),
      hnone .typeConstraintFromConvert (by simp [spellingRules]),
      hnone .typeNameCase (by simp [spellingRules]), by simp⟩
  rw [converged_short hshort, respelled_settled hrecasings]

variable (hthreshold : 30 ≤ context.settings.renameThreshold)
include hthreshold

theorem underway_along {rules : Nat → Rule} (hrules : ∀ n, rules n ∈ spellingRules)
    (hs : Underway context.settings.renameThreshold s.memory s.tree) (n : Nat) :
    Underway context.settings.renameThreshold (s.along context rules n).memory
      (s.along context rules n).tree := by
  induction n with
  | zero => exact hs
  | succ n ih => exact underway_apply hthreshold (hrules n) ih

/-- Every infinite sequence comes to an end with a tree that is as small as any it goes through. -/
theorem along_settles {rules : Nat → Rule} (hrules : ∀ n, rules n ∈ spellingRules)
    (hs : Underway context.settings.renameThreshold s.memory s.tree) :
    ∃ N, ∀ n ≥ N, (s.along context rules n).reports context (rules n) = false := by
  obtain ⟨_, ⟨N, rfl⟩, hleast⟩ := (wellFounded_smaller context.settings.renameThreshold).has_min
    (Set.range fun n => (s.along context rules n).tree) ⟨_, 0, rfl⟩
  have hunderway := underway_along hthreshold hrules hs
  -- a report would lead from a tree like the least one to one that is smaller
  have hquiet (n : Nat) (htree : (s.along context rules n).tree = (s.along context rules N).tree) :
      (s.along context rules n).reports context (rules n) = false := by
    refine Bool.eq_false_iff.mpr fun hreports => ?_
    have hsmaller := (apply_of_reports hthreshold (hrules n) (hunderway n) hreports).1
    rw [htree] at hsmaller
    exact hleast _ ⟨n + 1, rfl⟩ hsmaller
  have hsame : ∀ n ≥ N, (s.along context rules n).tree = (s.along context rules N).tree := by
    intro n hn
    induction hn with
    | refl => rfl
    | @step n _ ih => rw [along, apply_of_not_reports (hrules n) (hquiet n ih), ih]
  exact ⟨N, fun n hn => hquiet n (hsame n hn)⟩

theorem converged_run {rules : List Rule} (hrules : ∀ rule ∈ rules, rule ∈ spellingRules)
    (hs : Underway context.settings.renameThreshold s.memory s.tree) :
    converged context.settings.renameThreshold (s.run context rules).memory (s.run context rules).tree =
      converged context.settings.renameThreshold s.memory s.tree := by
  induction rules generalizing s with
  | nil => rfl
  | cons rule rules ih =>
    obtain ⟨hrule, hrules⟩ := List.forall_mem_cons.mp hrules
    exact (ih hrules (underway_apply hthreshold hrule hs)).trans (converged_apply hthreshold hrule hs)

end

/-- The rules about spelling never change the kind of a node or its children. In every infinite sequence of
them only finitely many report a change, and all sequences that end where none has a match end in the same
tree. -/
theorem spelling_converges {context : Context} {t : Tree}
    (hthreshold : 30 ≤ context.settings.renameThreshold) (hsize : t.size < 2 ^ 63) :
    (∀ (s : Situation) (rule : Rule), rule ∈ spellingRules →
      (s.apply context rule).tree.outline = s.tree.outline) ∧
    (∀ rules : Nat → Rule, (∀ n, rules n ∈ spellingRules) →
      ∃ N, ∀ n ≥ N, (along context rules { tree := t } n).reports context (rules n) = false) ∧
    ∀ rules rules' : List Rule,
      (∀ rule ∈ rules, rule ∈ spellingRules) → (∀ rule ∈ rules', rule ∈ spellingRules) →
      (run context rules { tree := t }).Ended context → (run context rules' { tree := t }).Ended context →
      (run context rules { tree := t }).tree = (run context rules' { tree := t }).tree := by
  have hstart : Underway context.settings.renameThreshold {} t :=
    ⟨Nat.lt_of_le_of_lt (namedKind_le t) hsize, .inl ⟨rfl, rfl⟩⟩
  refine ⟨fun s rule => outline_apply, fun rules hrules => along_settles hthreshold hrules hstart, ?_⟩
  intro rules rules' hrules hrules' hended hended'
  rw [← converged_ended hended, ← converged_ended hended', converged_run hthreshold hrules hstart,
    converged_run hthreshold hrules' hstart]

def shortNames : Context := { settings := { renameThreshold := 30 } }

def twoNames (first second : String) : Tree :=
  branch .statements []
    [leaf .variableRef [("VariablePath", first)] none, leaf .variableRef [("VariablePath", second)] none]

def untidy : Situation := { tree := twoNames "ENV:x" "name_of_exactly_thirty_letters" }

def tidy : Situation where
  tree := twoNames "env:x" "deob_0"
  memory := { renamed := [("name_of_exactly_thirty_letters", "deob_0")], next := 1 }

/-- A drive is put in lower case before and after a long name was replaced. -/
theorem spelling_converges_twoNames :
    30 ≤ shortNames.settings.renameThreshold ∧ untidy.tree.size < 2 ^ 63 ∧ tidy.Ended shortNames ∧
      run shortNames [.prefixCase, .renameLongNames] untidy = tidy ∧
      run shortNames [.renameLongNames, .typeNameCase, .prefixCase] untidy = tidy ∧
      (run shortNames [.prefixCase, .renameLongNames] untidy).tree =
        (run shortNames [.renameLongNames, .typeNameCase, .prefixCase] untidy).tree := by
  have hthreshold : 30 ≤ shortNames.settings.renameThreshold := by decide
  have hsize : untidy.tree.size < 2 ^ 63 := by decide
  have hended : tidy.Ended shortNames := by unfold Ended; decide +kernel
  have hrun : run shortNames [.prefixCase, .renameLongNames] untidy = tidy := by rfl
  have hrun' : run shortNames [.renameLongNames, .typeNameCase, .prefixCase] untidy = tidy := by rfl
  exact ⟨hthreshold, hsize, hended, hrun, hrun',
    (spelling_converges hthreshold hsize).2.2 _ _ (by decide) (by decide) (hrun ▸ hended) (hrun' ▸ hended)⟩

end Situation
end Unscramble
