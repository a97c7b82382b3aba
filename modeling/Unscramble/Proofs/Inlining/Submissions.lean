import Unscramble.Proofs.Inlining.Termination

/-! Which scripts are submitted to the parser, over any number of trees. A script that was refused is
remembered, so that it is not submitted again for another tree. The candidates of one tree are found
before any of them is submitted, so a script that occurs there several times may be submitted as often
as it occurs. -/
namespace Unscramble

open Simplify Unscramble.Tree

/-- Parameters, and blocks that are not run at the end, keep a script from being inlined. -/
def isObstacle (part : Tree) : Bool :=
  part.is .paramBlock ||
    (part.is .namedBlock && !Text.sameIgnoringCase ((part.attr? "BlockKind").getD "End") "end")

/-- Scripts on which the parser fails or finds an obstacle, whatever was submitted to it before. -/
def Refused (parser : Parser) (script : String) : Prop :=
  ∀ earlier, match parser earlier script with
    | .error _ => True
    | .ok parsed => ∃ part ∈ parsed.children, isObstacle part = true

theorem scriptStatements?_eq_none {parts : List Tree} :
    scriptStatements? parts = none ↔ ∃ part ∈ parts, isObstacle part = true := by
  induction parts with
  | nil => simp [scriptStatements?]
  | cons part parts ih =>
    rw [scriptStatements?, List.exists_mem_cons_iff, ← ih, isObstacle]
    cases part.is .paramBlock <;> cases part.is .namedBlock <;>
      cases Text.sameIgnoringCase ((part.attr? "BlockKind").getD "End") "end" <;> simp

theorem refused_iff {parser : Parser} {script : String} :
    Refused parser script ↔ ∀ earlier, inlined? parser earlier script = none := by
  refine forall_congr' fun earlier => ?_
  unfold inlined?
  cases parser earlier script with
  | error => simp [Except.toOption]
  | ok parsed => simp [Except.toOption, scriptStatements?_eq_none]

/-- The scripts that a tree has a statement to run for, once for each of the statements. -/
def scriptsRun (t : Tree) : List String := (t.places.filterMap invocationAt?).map (·.2)

/-- What is remembered after the rule was applied to some trees, one after the other. -/
def afterAllFrom (parser : Parser) (memory : Memory) (applications : List (OptimizerSettings × Tree)) :
    Memory :=
  applications.foldl (fun memory a => (inlineInvokeExpression ⟨a.1, some parser⟩ memory a.2).2) memory

def afterAll (parser : Parser) (applications : List (OptimizerSettings × Tree)) : Memory :=
  afterAllFrom parser {} applications

section
variable {parser : Parser} {memory : Memory} {settings : OptimizerSettings} {t : Tree}
  {script : String} {candidates : List (Place × String)} {n : Nat}

/-- What was refused was remembered. -/
def Remembers (parser : Parser) (memory : Memory) : Prop :=
  ∀ script ∈ memory.submitted, Refused parser script → script ∈ memory.rejected

theorem inlineFirst_remembers (h : Remembers parser memory) :
    Remembers parser (inlineFirst parser memory candidates).2 := by
  induction candidates generalizing memory with
  | nil => exact h
  | cons candidate rest ih =>
    obtain ⟨statement, tried⟩ := candidate
    rw [inlineFirst]
    split
    next statements hstatements =>
      rintro script hscript hrefused
      rcases List.mem_append.mp hscript with hscript | hscript
      · exact h script hscript hrefused
      · obtain rfl := List.mem_singleton.mp hscript
        cases (refused_iff.mp hrefused memory.submitted).symm.trans hstatements
    next =>
      refine ih fun script hscript hrefused => ?_
      rcases List.mem_append.mp hscript with hscript | hscript
      · exact List.mem_cons_of_mem _ (h script hscript hrefused)
      · exact List.mem_singleton.mp hscript ▸ List.mem_cons_self

/-- A script is submitted at most as often as it is among the candidates. -/
theorem inlineFirst_count_le :
    (inlineFirst parser memory candidates).2.submitted.count script ≤
      memory.submitted.count script + (candidates.map (·.2)).count script := by
  induction candidates generalizing memory with
  | nil => exact Nat.le_add_right ..
  | cons candidate rest ih =>
    obtain ⟨statement, tried⟩ := candidate
    rw [inlineFirst, List.map_cons, List.count_cons]
    have hfirst : (memory.submitted ++ [tried]).count script =
        memory.submitted.count script + if tried == script then 1 else 0 := by
      rw [List.count_append, List.count_singleton]
    dsimp only
    split
    next => exact hfirst.le.trans (by omega)
    next =>
      refine ih.trans ?_
      rw [hfirst]
      omega

/-- What is rejected is no candidate any more. -/
theorem count_candidates_le : (((t.places.filterMap invocationAt?).filter
      fun c => !memory.rejected.contains c.2).map (·.2)).count script ≤
    if script ∈ memory.rejected then 0 else (scriptsRun t).count script := by
  split
  next hrejected =>
    rw [Nat.le_zero, List.count_eq_zero]
    intro hscript
    obtain ⟨c, hc, rfl⟩ := List.mem_map.mp hscript
    simp [hrejected] at hc
  next => exact List.Sublist.count_le _ (List.filter_sublist.map _)

theorem inlineInvokeExpression_remembers (h : Remembers parser memory) :
    Remembers parser (inlineInvokeExpression ⟨settings, some parser⟩ memory t).2 := by
  unfold inlineInvokeExpression
  split
  next hparser =>
    cases hparser
    exact inlineFirst_remembers h
  next => exact h

/-- One application: a script that was submitted before is not submitted again, and another one is not
submitted more often than it is run. -/
theorem inlineInvokeExpression_count_le (h : Remembers parser memory) (hrefused : Refused parser script)
    (hrun : (scriptsRun t).count script ≤ n) (hcount : memory.submitted.count script ≤ n) :
    (inlineInvokeExpression ⟨settings, some parser⟩ memory t).2.submitted.count script ≤ n := by
  unfold inlineInvokeExpression
  split
  next hparser =>
    cases hparser
    refine inlineFirst_count_le.trans ((Nat.add_le_add_left count_candidates_le _).trans ?_)
    split
    next => exact hcount
    next hrejected =>
      have hfresh : memory.submitted.count script = 0 :=
        List.count_eq_zero.mpr fun hsubmitted => hrejected (h script hsubmitted hrefused)
      rw [hfresh, Nat.zero_add]
      exact hrun
  next => exact hcount

/-- By induction on the applications: what was refused is remembered, and it was not submitted more often
than one tree runs it. -/
theorem afterAllFrom_count_le {applications : List (OptimizerSettings × Tree)}
    (h : Remembers parser memory) (hrefused : Refused parser script)
    (hrun : ∀ a ∈ applications, (scriptsRun a.2).count script ≤ n)
    (hcount : memory.submitted.count script ≤ n) :
    (afterAllFrom parser memory applications).submitted.count script ≤ n := by
  induction applications generalizing memory with
  | nil => exact hcount
  | cons a applications ih =>
    obtain ⟨ha, hrun⟩ := List.forall_mem_cons.mp hrun
    exact ih (inlineInvokeExpression_remembers h) hrun
      (inlineInvokeExpression_count_le h hrefused ha hcount)

theorem remembers_start : Remembers parser {} := by simp [Remembers]

/-- A refused script is not submitted more often than one tree runs it. -/
theorem afterAll_submitted_count_le {applications : List (OptimizerSettings × Tree)}
    (hrefused : Refused parser script)
    (hrun : ∀ a ∈ applications, (scriptsRun a.2).count script ≤ n) :
    (afterAll parser applications).submitted.count script ≤ n :=
  afterAllFrom_count_le remembers_start hrefused hrun (Nat.zero_le n)

end

/-- Three trees in turn, with a parser that knows no script: each script is submitted once. -/
theorem afterAll_three_trees :
    let parser := parseKnown []
    let t := scriptOf [invocation "iex" "dir (", invocation "iex" "dir"]
    let t' := scriptOf [invocation "iex" "dir )", invocation "iex" "dir ("]
    let applications := [({}, t), ({}, t'), ({}, t)]
    Refused parser "dir (" ∧ (∀ a ∈ applications, (scriptsRun a.2).count "dir (" ≤ 1) ∧
      (afterAll parser applications).submitted = ["dir (", "dir", "dir )"] ∧
      (afterAll parser applications).submitted.count "dir (" ≤ 1 := by
  intro parser t t' applications
  have hrefused : Refused parser "dir (" := fun _ => trivial
  have hrun : ∀ a ∈ applications, (scriptsRun a.2).count "dir (" ≤ 1 := by decide +kernel
  exact ⟨hrefused, hrun, by decide +kernel, afterAll_submitted_count_le hrefused hrun⟩

/-- One tree that runs a script twice has it submitted twice, though it was refused the first time. -/
theorem afterAll_repeated :
    let parser := parseKnown []
    let t := scriptOf [invocation "iex" "dir (", invocation "iex" "dir ("]
    Refused parser "dir (" ∧ (afterAll parser [({}, t)]).submitted = ["dir (", "dir ("] :=
  ⟨fun _ => trivial, by decide +kernel⟩

end Unscramble
