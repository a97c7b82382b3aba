import Mathlib.Tactic.TypeStar
import Unscramble.Proofs.Rewriting.Nodes
import Unscramble.Value.Literal

/-! Runs of scripts. Variables hold values, commands are written to a trace, and every loop is cut
off after some number of rounds. What is computed from values is up to an interpretation. -/
namespace Unscramble.Scripts

open Unscramble.Tree

/-- What the variables hold, by their names in lower case, and the commands run so far, each with the
values it was given. -/
structure State (V : Type*) where
  store : String → V
  trace : List (String × List V)

/-- How a run ends. The exits from a round of a loop refer to the innermost loop. -/
inductive Ending where
  | done | broken | continued | cutOff
  deriving DecidableEq

abbrev Run (V : Type*) := State V → Ending × State V

section
variable {V : Type*}

def State.write (σ : State V) (key : String) (v : V) : State V :=
  { σ with store := fun k => if k = key then v else σ.store k }

def State.call (σ : State V) (name : String) (arguments : List V) : State V :=
  { σ with trace := σ.trace ++ [(name, arguments)] }

@[simp] theorem State.write_same (σ : State V) (key : String) (v : V) :
    (σ.write key v).store key = v := by simp [write]

theorem State.write_other (σ : State V) {key k : String} (v : V) (h : k ≠ key) :
    (σ.write key v).store k = σ.store k := by simp [write, h]

def stop (ending : Ending) : Run V := fun σ => (ending, σ)

def skip : Run V := stop .done

def andThen (m n : Run V) : Run V := fun σ => if (m σ).1 = .done then n (m σ).2 else m σ

def choose (c : State V → Bool) (m n : Run V) : Run V := fun σ => if c σ then m σ else n σ

/-- A round of a loop, and what follows it unless the body leaves the loop. -/
def turn (body next : Run V) : Run V := fun σ =>
  match (body σ).1 with
  | .broken => (.done, (body σ).2)
  | .cutOff => (.cutOff, (body σ).2)
  | .done | .continued => next (body σ).2

/-- A loop that tests its condition before each round, and is cut off after so many rounds. -/
def rounds (c : State V → Bool) (step body : Run V) : Nat → Run V
  | 0 => choose c (stop .cutOff) skip
  | n + 1 => choose c (turn body (andThen step (rounds c step body n))) skip

/-- A loop that does not test its condition before the first round. -/
def atLeastOnce (c : State V → Bool) (body : Run V) : Nat → Run V
  | 0 => stop .cutOff
  | n + 1 => turn body (rounds c skip body n)

@[simp] theorem skip_andThen (m : Run V) : andThen skip m = m := rfl

/-! ### Related runs -/

/-- Runs that start in related states end in the same way, and in related states. -/
def Relates (R : State V → State V → Prop) (m m' : Run V) : Prop :=
  ∀ σ σ', R σ σ' → (m σ).1 = (m' σ').1 ∧ R (m σ).2 (m' σ').2

namespace Relates
variable {R : State V → State V → Prop} {c c' : State V → Bool} {m m' n n' : Run V}

theorem stop (ending : Ending) : Relates R (stop ending) (stop ending) := fun _ _ h => ⟨rfl, h⟩

theorem skip : Relates R skip skip := stop .done

theorem andThen (hm : Relates R m m') (hn : Relates R n n') :
    Relates R (andThen m n) (andThen m' n') := by
  intro σ σ' h
  obtain ⟨hending, hstate⟩ := hm σ σ' h
  simp only [Scripts.andThen, ← hending]
  split
  · exact hn _ _ hstate
  · exact hm σ σ' h

theorem choose (hc : ∀ σ σ', R σ σ' → c σ = c' σ') (hm : Relates R m m') (hn : Relates R n n') :
    Relates R (choose c m n) (choose c' m' n') := by
  intro σ σ' h
  unfold Scripts.choose
  rw [hc σ σ' h]
  split
  · exact hm σ σ' h
  · exact hn σ σ' h

theorem turn (hm : Relates R m m') (hn : Relates R n n') : Relates R (turn m n) (turn m' n') := by
  intro σ σ' h
  obtain ⟨hending, hstate⟩ := hm σ σ' h
  simp only [Scripts.turn, ← hending]
  split
  · exact ⟨rfl, hstate⟩
  · exact ⟨rfl, hstate⟩
  · exact hn _ _ hstate
  · exact hn _ _ hstate

theorem rounds (hc : ∀ σ σ', R σ σ' → c σ = c' σ') (hm : Relates R m m') (hn : Relates R n n') :
    ∀ bound, Relates R (rounds c m n bound) (rounds c' m' n' bound)
  | 0 => .choose hc (.stop _) .skip
  | bound + 1 => .choose hc (.turn hn (.andThen hm (rounds hc hm hn bound))) .skip

theorem atLeastOnce (hc : ∀ σ σ', R σ σ' → c σ = c' σ') (hm : Relates R m m') :
    ∀ bound, Relates R (atLeastOnce c m bound) (atLeastOnce c' m' bound)
  | 0 => .stop _
  | bound + 1 => .turn hm (.rounds hc .skip hm bound)

end Relates

/-- A loop keeps the relations that its condition, what is done between two rounds and its body
keep. -/
def IsLoop (loop : (State V → Bool) → Run V → Run V → Run V) : Prop :=
  ∀ {R : State V → State V → Prop} {c c' : State V → Bool} {m m' n n' : Run V},
    (∀ σ σ', R σ σ' → c σ = c' σ') → Relates R m m' → Relates R n n' →
      Relates R (loop c m n) (loop c' m' n')

theorem isLoop_rounds (bound : Nat) : IsLoop (V := V) fun c step body => rounds c step body bound :=
  fun hc hm hn => .rounds hc hm hn bound

theorem isLoop_atLeastOnce (bound : Nat) : IsLoop (V := V) fun c _ body => atLeastOnce c body bound :=
  fun hc _ hn => .atLeastOnce hc hn bound

end

/-- What literals stand for, and what is computed from values. -/
structure Interpretation (V : Type*) where
  denote : Value → V
  operator : Element → V → V → V
  truth : V → Bool

theorem kind_of_literal? {t : Tree} {v : Value} (h : t.literal? = some v) :
    t.kind = .arrayLiteral ∨ t.kind = .stringConstant ∨ t.kind = .constant := by
  unfold literal? at h
  split at h
  next hkind => exact .inl (is_iff.mp hkind)
  next =>
    unfold scalar? at h
    split at h
    next hkind => exact .inr (.inl hkind)
    next hkind => exact .inr (.inr hkind)
    next => cases h

/-- Kinds of nodes around a single pipeline or expression. -/
def isGrouping : Kind → Bool
  | .parenExpression | .pipeline | .pipelineElements => true
  | _ => false

theorem isGrouping_iff {kind : Kind} : isGrouping kind = true ↔
    kind = .parenExpression ∨ kind = .pipeline ∨ kind = .pipelineElements := by
  cases kind <;> simp [isGrouping]

namespace Interpretation

/-- The value of an expression. Nodes around a single expression have the value of that. -/
def eval {V : Type*} (I : Interpretation V) (σ : State V) : Tree → V
  | .node e cs =>
    match e.kind, cs with
    | .variableRef, cs =>
      match variableKey? (.node e cs) with
      | some key => σ.store key
      | none => I.denote default
    | .binaryExpression, [left, right] => I.operator e (I.eval σ left) (I.eval σ right)
    | .parenExpression, [t] => I.eval σ t
    | .pipeline, [t] => I.eval σ t
    | .pipelineElements, [t] => I.eval σ t
    | .commandExpression, t :: _ => I.eval σ t
    | _, cs => I.denote (((Tree.node e cs).literal?).getD default)

def holds {V : Type*} (I : Interpretation V) (guard : Tree) (σ : State V) : Bool :=
  I.truth (I.eval σ guard)

/-- A condition that is true if it is missing. -/
def holdsAll {V : Type*} (I : Interpretation V) (guards : List Tree) (σ : State V) : Bool :=
  guards.all (I.holds · σ)

mutual

/-- What a statement does if loops are cut off after so many rounds. -/
def run {V : Type*} (I : Interpretation V) (bound : Nat) : Tree → Run V
  | .node e cs =>
    match e.kind, cs with
    | .assignment, [target, value] => fun σ =>
      match target.variableKey? with
      | some key => (.done, σ.write key (I.eval σ value))
      | none => (.done, σ)
    | .command, .node _ (name :: arguments) :: _ => fun σ =>
      (.done, σ.call name.payload (arguments.map (I.eval σ)))
    | .pipeline, [t] => I.run bound t
    | .pipelineElements, [t] => I.run bound t
    | .ifElse, cs => I.arms bound cs
    | .whileLoop, [guard, body] => rounds (I.holds guard) skip (I.block bound body) bound
    | .doWhile, [guard, body] => atLeastOnce (I.holds guard) (I.block bound body) bound
    | .doUntil, [guard, body] => atLeastOnce (fun σ => !I.holds guard σ) (I.block bound body) bound
    | .forLoop, [.node _ first, .node _ test, .node _ step, body] =>
      andThen (I.statements bound first)
        (rounds (I.holdsAll test) (I.statements bound step) (I.block bound body) bound)
    | .breakStatement, _ => stop .broken
    | .continueStatement, _ => stop .continued
    | _, _ => skip

/-- One statement after the other. -/
def statements {V : Type*} (I : Interpretation V) (bound : Nat) : List Tree → Run V
  | [] => skip
  | t :: ts => andThen (I.run bound t) (I.statements bound ts)

def block {V : Type*} (I : Interpretation V) (bound : Nat) : Tree → Run V
  | .node _ [.node _ ts] => I.statements bound ts
  | _ => skip

/-- The guarded blocks of a conditional, and the block that has no guard. -/
def arms {V : Type*} (I : Interpretation V) (bound : Nat) : List Tree → Run V
  | [] => skip
  | [last] => I.block bound last
  | guard :: body :: rest => choose (I.holds guard) (I.block bound body) (I.arms bound rest)

end

/-- What a script does that consists of a single block. -/
def script {V : Type*} (I : Interpretation V) (bound : Nat) : Tree → Run V
  | .node _ [body] => I.block bound body
  | _ => skip

/-! ### Equations -/

variable {V : Type*} {I : Interpretation V} {bound : Nat} {σ : State V} {e l : Element}
  {cs : List Tree}

theorem eval_variable {t : Tree} {key : String} (h : t.variableKey? = some key) :
    I.eval σ t = σ.store key := by
  obtain ⟨e, cs⟩ := t
  have hkind : e.kind = .variableRef := kind_of_variableKey? h
  rw [eval.eq_def]
  simp only [hkind, h]

theorem eval_binary {left right : Tree} (h : e.kind = .binaryExpression) :
    I.eval σ (.node e [left, right]) = I.operator e (I.eval σ left) (I.eval σ right) := by
  obtain ⟨_, _, _⟩ := e
  cases h
  rfl

theorem eval_group {t : Tree} (h : isGrouping e.kind = true) :
    I.eval σ (.node e [t]) = I.eval σ t := by
  obtain ⟨_, _, _⟩ := e
  rcases isGrouping_iff.mp h with h | h | h <;> cases h <;> rfl

theorem eval_statement {t : Tree} (h : e.kind = .commandExpression) :
    I.eval σ (.node e (t :: cs)) = I.eval σ t := by
  obtain ⟨_, _, _⟩ := e
  cases h
  rfl

/-- What stands for itself does not look at the state. -/
theorem eval_constant {t : Tree}
    (h : t.kind = .arrayLiteral ∨ t.kind = .stringConstant ∨ t.kind = .constant) :
    I.eval σ t = I.denote (t.literal?.getD default) := by
  obtain ⟨e, cs⟩ := t
  rw [kind_node] at h
  obtain ⟨_, _, _⟩ := e
  rcases h with h | h | h <;> cases h <;> rfl

theorem eval_literal {t : Tree} {v : Value} (h : t.literal? = some v) : I.eval σ t = I.denote v := by
  rw [eval_constant (kind_of_literal? h), h, Option.getD_some]

theorem holdsAll_eq (guards : List Tree) : I.holdsAll guards σ = (guards.map (I.eval σ)).all I.truth := by
  rw [holdsAll, List.all_map]
  rfl

theorem run_assignment {target value : Tree} {key : String} (h : e.kind = .assignment)
    (hkey : target.variableKey? = some key) :
    I.run bound (.node e [target, value]) = fun σ => (.done, σ.write key (I.eval σ value)) := by
  rw [run.eq_def]
  simp only [h, hkey]

theorem run_command {name : Tree} {arguments : List Tree} (h : e.kind = .command) :
    I.run bound (.node e (.node l (name :: arguments) :: cs)) =
      fun σ => (.done, σ.call name.payload (arguments.map (I.eval σ))) := by
  obtain ⟨_, _, _⟩ := e
  cases h
  rfl

theorem run_pipeline {t : Tree} (h : e.kind = .pipeline ∨ e.kind = .pipelineElements) :
    I.run bound (.node e [t]) = I.run bound t := by
  obtain ⟨_, _, _⟩ := e
  rcases h with h | h <;> cases h <;> rfl

theorem run_ifElse (h : e.kind = .ifElse) : I.run bound (.node e cs) = I.arms bound cs := by
  obtain ⟨_, _, _⟩ := e
  cases h
  rfl

theorem run_while {guard body : Tree} (h : e.kind = .whileLoop) :
    I.run bound (.node e [guard, body]) =
      rounds (I.holds guard) skip (I.block bound body) bound := by
  obtain ⟨_, _, _⟩ := e
  cases h
  rfl

theorem run_doWhile {guard body : Tree} (h : e.kind = .doWhile) :
    I.run bound (.node e [guard, body]) =
      atLeastOnce (I.holds guard) (I.block bound body) bound := by
  obtain ⟨_, _, _⟩ := e
  cases h
  rfl

theorem run_doUntil {guard body : Tree} (h : e.kind = .doUntil) :
    I.run bound (.node e [guard, body]) =
      atLeastOnce (fun σ => !I.holds guard σ) (I.block bound body) bound := by
  obtain ⟨_, _, _⟩ := e
  cases h
  rfl

theorem run_for {first test step body : Tree} (h : e.kind = .forLoop) :
    I.run bound (.node e [first, test, step, body]) = andThen (I.statements bound first.children)
      (rounds (I.holdsAll test.children) (I.statements bound step.children) (I.block bound body)
        bound) := by
  obtain ⟨_, _⟩ := first
  obtain ⟨_, _⟩ := test
  obtain ⟨_, _⟩ := step
  obtain ⟨_, _, _⟩ := e
  cases h
  rfl

theorem run_break (h : e.kind = .breakStatement) : I.run bound (.node e cs) = stop .broken := by
  obtain ⟨_, _, _⟩ := e
  cases h
  rfl

theorem run_continue (h : e.kind = .continueStatement) :
    I.run bound (.node e cs) = stop .continued := by
  obtain ⟨_, _, _⟩ := e
  cases h
  rfl

end Interpretation
end Unscramble.Scripts
