import Mathlib.Data.List.Basic
import Unscramble.Proofs.Inlining.Submissions

/-! What is put in the place of a statement that runs a script, and what is lost. The statements of the
script come in their order and as they are, and the rest of the tree stays as it is. What the script holds
beside its statements is lost, and so is what the statement holds beside the invocation, such as a
redirection. -/
namespace Unscramble

open Simplify Unscramble.Tree

/-- A statement that runs a script: the command, or a pipeline of this command. It may have other parts
beside them. -/
inductive Invokes (script : String) : List Tree → Tree → Prop
  | command {e l before name argument after} : e.kind = .command → l.kind = .commandElements →
      isInvokeExpression name = true → argument.quoting?.isSome = true → argument.isBareword = false →
      argument.payload = script →
      Invokes script (before ++ name.children ++ argument.children ++ after)
        (.node e (before ++ .node l [name, argument] :: after))
  | pipeline {e l before command after beside} : e.kind = .pipeline → l.kind = .pipelineElements →
      command.kind = .command → Invokes script beside command →
      Invokes script (before ++ beside ++ after) (.node e (before ++ .node l [command] :: after))

/-- The statements of a part of a script, if it is a block. -/
def statementsOfBlock (part : Tree) : List Tree := if part.is .namedBlock then part.statements else []

/-- What a script holds beside its blocks, and its blocks beside their statements. -/
def leftOut (parsed : Tree) : List Tree :=
  parsed.children.flatMap fun part =>
    if part.is .namedBlock then part.children.eraseP (·.is .statements) else [part]

/-- The statements that a script comes down to. -/
structure Brings (parsed : Tree) (new : List Tree) : Prop where
  inOrder : new = parsed.children.flatMap statementsOfBlock
  blocks : ∀ part ∈ parsed.children, isObstacle part = false ∧
    (part.kind = .namedBlock ∨ part ∈ leftOut parsed)
  lists : ∀ part ∈ parsed.children, part.kind = .namedBlock → ∀ c ∈ part.children,
    (c.kind = .statements ∧ c.children <:+: new) ∨ c ∈ leftOut parsed

section
variable {script : String} {s elements list command parsed t t' : Tree} {parts new : List Tree}
  {p q : Place} {context : Context} {memory : Memory}

/-! ### The statement that is replaced -/

theorem invokes_command (hkind : s.kind = .command) (hmem : elements ∈ s.children)
    (h : literalScript? elements = some script) : ∃ beside, Invokes script beside s := by
  simp only [literalScript?, Option.ite_none_right_eq_some] at h
  obtain ⟨hlist, h⟩ := h
  split at h
  next name argument hchildren =>
    simp only [Option.ite_none_right_eq_some, Option.some.injEq, Bool.and_eq_true,
      Bool.not_eq_true'] at h
    obtain ⟨⟨⟨hname, hquoting⟩, hbare⟩, hpayload⟩ := h
    obtain ⟨before, after, hsplit⟩ := List.append_of_mem hmem
    obtain ⟨e, cs⟩ := s
    obtain ⟨l, ds⟩ := elements
    cases hchildren
    cases hsplit
    exact ⟨_, .command hkind (is_iff.mp hlist) hname hquoting hbare hpayload⟩
  next => cases h

theorem invokes_pipeline (hkind : s.kind = .pipeline) (hmem : list ∈ s.children)
    (hlist : list.kind = .pipelineElements) (honly : list.children = [command])
    (hcommand : command.kind = .command) (h : ∃ beside, Invokes script beside command) :
    ∃ beside, Invokes script beside s := by
  obtain ⟨beside, h⟩ := h
  obtain ⟨before, after, hsplit⟩ := List.append_of_mem hmem
  obtain ⟨e, cs⟩ := s
  obtain ⟨l, ds⟩ := list
  cases honly
  cases hsplit
  exact ⟨_, .pipeline hkind hlist hcommand h⟩

theorem invocationAt?_invokes (hp : p.On t) (h : invocationAt? p = some (q, script)) :
    ∃ beside, Invokes script beside q.tree := by
  simp only [invocationAt?, Option.bind_eq_some_iff, Option.map_eq_some_iff, Prod.mk.injEq] at h
  obtain ⟨_, hscript, _, hq, rfl, rfl⟩ := h
  obtain ⟨command, hcommand, hq⟩ := Option.bind_eq_some_iff.mp hq
  obtain ⟨hup, hkind⟩ := Option.filter_eq_some_iff.mp hcommand
  have hkind := is_iff.mp hkind
  have hinvokes := invokes_command hkind (hp.mem_up hup) hscript
  obtain ⟨above, habove, hq⟩ := Option.bind_eq_some_iff.mp hq
  have hmem := (hp.up hup).mem_up habove
  split at hq
  next =>
    cases hq
    exact hinvokes
  next =>
    simp only [Option.ite_none_right_eq_some, Option.filter_eq_some_iff, Bool.and_eq_true,
      beq_iff_eq] at hq
    obtain ⟨⟨hlist, hlength⟩, hpipeline, hkind', -⟩ := hq
    obtain ⟨only, honly⟩ := List.length_eq_one_iff.mp hlength
    obtain rfl : command.tree = only := by simpa [honly] using hmem
    exact invokes_pipeline (is_iff.mp hkind') (((hp.up hup).up habove).mem_up hpipeline)
      (is_iff.mp hlist) honly hkind hinvokes

/-! ### The statements that are put in its place -/

theorem scriptStatements?_eq_some : scriptStatements? parts = some new ↔
    (∀ part ∈ parts, isObstacle part = false) ∧ parts.flatMap statementsOfBlock = new := by
  induction parts generalizing new with
  | nil => simp [scriptStatements?]
  | cons part parts ih =>
    rw [scriptStatements?, List.forall_mem_cons, List.flatMap_cons, isObstacle, statementsOfBlock]
    cases part.is .paramBlock <;> cases part.is .namedBlock <;>
      cases Text.sameIgnoringCase ((part.attr? "BlockKind").getD "End") "end" <;> simp [ih]

theorem find?_or_mem_eraseP {α : Type} {f : α → Bool} {l : List α} {a : α} (h : a ∈ l) :
    l.find? f = some a ∨ a ∈ l.eraseP f := by
  induction l with
  | nil => cases h
  | cons b l ih =>
    rw [List.find?_cons, List.eraseP_cons]
    cases hb : f b with
    | true =>
      rcases List.mem_cons.mp h with rfl | h
      · exact .inl rfl
      · exact .inr h
    | false =>
      rcases List.mem_cons.mp h with rfl | h
      · exact .inr List.mem_cons_self
      · exact (ih h).imp id (List.mem_cons_of_mem _)

theorem brings_of_scriptStatements? (h : scriptStatements? parsed.children = some new) :
    Brings parsed new := by
  obtain ⟨hobstacles, rfl⟩ := scriptStatements?_eq_some.mp h
  refine ⟨rfl, fun part hpart => ⟨hobstacles part hpart, ?_⟩, fun part hpart hkind c hc => ?_⟩
  · by_cases hkind : part.kind = .namedBlock
    · exact .inl hkind
    · refine .inr (List.mem_flatMap.mpr ⟨part, hpart, ?_⟩)
      rw [if_neg (mt is_iff.mp hkind)]
      exact List.mem_singleton_self part
  · have hblock : part.is .namedBlock = true := is_iff.mpr hkind
    rcases find?_or_mem_eraseP (f := (·.is .statements)) hc with hfound | hrest
    · have hlist : part.childOf? .statements = some c := hfound
      have hchildren : c.children = statementsOfBlock part := by
        rw [statementsOfBlock, if_pos hblock, Tree.statements, listOf, hlist]
        rfl
      exact .inl ⟨(childOf?_mem hlist).2, hchildren ▸ List.infix_flatMap_of_mem hpart _⟩
    · refine .inr (List.mem_flatMap.mpr ⟨part, hpart, ?_⟩)
      rwa [if_pos hblock]

/-- A statement that runs a script is replaced by the statements of the script, and nothing else
changes. All that is lost is what the two hold beside them. -/
theorem inlineInvokeExpression_brings (h : (inlineInvokeExpression context memory t).1 = some t') :
    ∃ parser earlier script parsed beside, context.parser = some parser ∧ parser earlier script = .ok parsed ∧
      Within (Splice fun above s new => above.kind = .statements ∧ Invokes script beside s ∧
        Brings parsed new) t t' := by
  obtain ⟨parser, p, q, earlier, script, parsed, new, hparser, hp, hq, hok, hnew, hput⟩ :=
    inlineInvokeExpression_replaces h
  have hon := Place.on_of_mem hp
  obtain ⟨hplace, hparent, -⟩ := invocationAt?_place hon hq
  obtain ⟨beside, hbeside⟩ := invocationAt?_invokes hon hq
  refine ⟨parser, earlier, script, parsed, beside, hparser, hok, hplace.within_replace (fun above habove => ?_) hput⟩
  exact ⟨hparent above habove, hbeside, brings_of_scriptStatements? hnew⟩

/-- The first script that a tree runs is inlined if it can be. -/
theorem inlineInvokeExpression_first {parser : Parser}
    (hsettings : context.settings.inlineInvokeExpression = true)
    (hparser : context.parser = some parser)
    (hscript : (t.places.filterMap invocationAt?).head?.map (·.2) = some script)
    (hok : parser [] script = .ok parsed) (hnew : scriptStatements? parsed.children = some new) :
    (inlineInvokeExpression context {} t).1 =
      (t.places.filterMap invocationAt?).head?.bind (·.1.replace? new) := by
  obtain ⟨⟨q, found⟩, hhead, hfound⟩ := Option.map_eq_some_iff.mp hscript
  obtain rfl : found = script := hfound
  obtain ⟨rest, hrest⟩ := List.head?_eq_some_iff.mp hhead
  have hall : (t.places.filterMap invocationAt?).filter
      (fun c => !({} : Memory).rejected.contains c.2) = (q, found) :: rest := by
    simp [hrest]
  unfold inlineInvokeExpression
  rw [hsettings, hparser]
  dsimp only
  rw [hall, hhead, inlineFirst]
  dsimp only
  rw [hok]
  simp only [Except.toOption, Option.bind_some, hnew]

theorem scriptStatements?_scriptOf (statements : List Tree) :
    scriptStatements? (scriptOf statements).children = some statements := by
  have hend : Text.sameIgnoringCase "End" "end" = true :=
    Text.sameIgnoringCase_iff.mpr (by simp [Text.SameText])
  have hkind : Tree.attr? (branch .namedBlock [("BlockKind", "End"), ("Unnamed", "True")]
      [branch .statements [] statements]) "BlockKind" = some "End" := rfl
  refine scriptStatements?_eq_some.mpr ⟨List.forall_mem_singleton.mpr ?_, List.append_nil _⟩
  rw [isObstacle, hkind, Option.getD_some, hend]
  rfl

end

def directory : Tree := commandOf [stringTree .bareWord "dir"]

def knowsDirectory : Context := { parser := some (parseKnown [("dir", scriptOf [directory])]) }

theorem inlines_directory {t : Tree}
    (h : (t.places.filterMap invocationAt?).head?.map (·.2) = some "dir") :
    (inlineInvokeExpression knowsDirectory {} t).1 =
      (t.places.filterMap invocationAt?).head?.bind (·.1.replace? [directory]) :=
  inlineInvokeExpression_first rfl rfl h rfl (scriptStatements?_scriptOf [directory])

/-- The script `before; iex 'dir'; after`, with the invocation in a pipeline. -/
theorem inlineInvokeExpression_brings_one :
    let pipeline := branch .pipeline [] [branch .pipelineElements [] [invocation "iex" "dir"]]
    let t := scriptOf [variableNamed "before", pipeline, variableNamed "after"]
    let t' := scriptOf [variableNamed "before", directory, variableNamed "after"]
    (inlineInvokeExpression knowsDirectory {} t).1 = some t' ∧
      ∃ parser earlier script parsed beside, knowsDirectory.parser = some parser ∧ parser earlier script = .ok parsed ∧
        Within (Splice fun above s new => above.kind = .statements ∧ Invokes script beside s ∧
          Brings parsed new) t t' := by
  intro pipeline t t'
  have h : (inlineInvokeExpression knowsDirectory {} t).1 = some t' :=
    (inlines_directory (by decide +kernel)).trans (by decide +kernel)
  exact ⟨h, inlineInvokeExpression_brings h⟩

/-- The script `iex 'dir' > out.txt` becomes `dir`. -/
theorem inlineInvokeExpression_redirected :
    let redirection := branch .fileRedirection [("Append", "False"), ("FromStream", "Output")]
      [stringTree .bareWord "out.txt"]
    let command := branch .command [] [branch .commandElements []
      [stringTree .bareWord "iex", stringTree .singleQuoted "dir"], branch .redirections [] [redirection]]
    Invokes "dir" [branch .redirections [] [redirection]] command ∧
      (inlineInvokeExpression knowsDirectory {} (scriptOf [command])).1 = some (scriptOf [directory]) ∧
      redirection ∉ (scriptOf [directory]).nodes := by
  intro redirection command
  have hinvokes : Invokes "dir" [branch .redirections [] [redirection]] command :=
    @Invokes.command "dir" command.element (branch .commandElements [] []).element []
      (stringTree .bareWord "iex") (stringTree .singleQuoted "dir")
      [branch .redirections [] [redirection]] rfl rfl (by decide +kernel) (by decide +kernel)
      (by decide +kernel) rfl
  have hput : (inlineInvokeExpression knowsDirectory {} (scriptOf [command])).1 =
      some (scriptOf [directory]) :=
    (inlines_directory (by decide +kernel)).trans (by decide +kernel)
  exact ⟨hinvokes, hput, by decide +kernel⟩

end Unscramble
