import Unscramble.Simplify.Rule

/-! Simplifying a tree up to a fixed point. Every step tries the rules in order and takes the first
one that has a match; the next step starts with the first rule again, as a change may enable it. -/
namespace Unscramble

open Simplify

/-- A tree on its way to a fixed point, and the rules applied so far, the last one first. -/
structure Progress where
  tree : Tree
  memory : Memory := {}
  applied : List Rule := []
  deriving DecidableEq

namespace Progress

def steps (p : Progress) : Nat := p.applied.length

/-- Tries rules until one has a match: that rule and its result, or no rule, and in any case what
the rules remember. -/
def tryRules (context : Context) (memory : Memory) (t : Tree) :
    List Rule → Option (Rule × Tree) × Memory
  | [] => (none, memory)
  | rule :: rules =>
    match rule.apply context memory t with
    | (some new, memory) => (some (rule, new), memory)
    | (none, memory) => tryRules context memory t rules

/-- One step, and whether there was a rule to apply. -/
def step (context : Context) (rules : List Rule) (p : Progress) : Progress × Bool :=
  match tryRules context p.memory p.tree rules with
  | (some (rule, new), memory) => (⟨new, memory, rule :: p.applied⟩, true)
  | (none, memory) => ({ p with memory }, false)

/-- Whether a step brings the program down. That is what a rule does which is tried because no rule in
front of it has a match. -/
def panics (context : Context) (rules : List Rule) (p : Progress) : Bool :=
  match rules.findIdx? (·.panics p.tree) with
  | none => false
  | some i => (tryRules context p.memory p.tree (rules.take i)).1.isNone

end Progress

/-- How a run ends, with the tree as it stands then. A run that is `unfinished` has used up the
number of steps that it was given to find out. -/
inductive Run where
  | settled (p : Progress)
  | overLimit (limit : Nat) (p : Progress)
  | unfinished (p : Progress)
  deriving DecidableEq

namespace Run

def progress : Run → Progress
  | .settled p | .overLimit _ p | .unfinished p => p

end Run

/-- Steps from a tree on, as long as there is a rule to apply. The limit is looked at after
each step. -/
def runFrom (context : Context) (rules : List Rule) : Nat → Progress → Run
  | 0, p => .unfinished p
  | fuel + 1, p =>
    match p.step context rules with
    | (p, false) => .settled p
    | (p, true) =>
      match context.settings.maxSteps with
      | some limit =>
        if limit < p.steps then .overLimit limit p else runFrom context rules fuel p
      | none => runFrom context rules fuel p

/-- Runs the whole catalog on a tree, for at most `fuel` steps. -/
def optimize (context : Context) (fuel : Nat) (t : Tree) : Run :=
  runFrom context Rule.catalog fuel { tree := t }

/-- What comes of a run: its end, or where it brought the program down. -/
inductive Execution where
  | ended (run : Run)
  | panicked (p : Progress)
  deriving DecidableEq

/-- Steps from a tree on, with an eye on those that bring the program down. -/
def executeFrom (context : Context) (rules : List Rule) : Nat → Progress → Execution
  | 0, p => .ended (.unfinished p)
  | fuel + 1, p =>
    if p.panics context rules then .panicked p
    else
      match p.step context rules with
      | (p, false) => .ended (.settled p)
      | (p, true) =>
        match context.settings.maxSteps with
        | some limit =>
          if limit < p.steps then .ended (.overLimit limit p) else executeFrom context rules fuel p
        | none => executeFrom context rules fuel p

/-- Executes the whole catalog on a tree, for at most `fuel` steps. -/
def execute (context : Context) (fuel : Nat) (t : Tree) : Execution :=
  executeFrom context Rule.catalog fuel { tree := t }

/-- What a run did: the sizes of the trees, and the number of steps of each rule. -/
structure Statistics where
  nodesIn : Nat
  nodesOut : Nat
  steps : Nat
  perRule : List (String × Nat)
  deriving DecidableEq

def Statistics.ofRun (rules : List Rule) (t : Tree) (p : Progress) : Statistics where
  nodesIn := t.size
  nodesOut := p.tree.size
  steps := p.steps
  perRule := (rules.map fun rule => (rule.name, p.applied.count rule)).filter (0 < ·.2)

/-- The statistics of a run that has come to a fixed point. -/
def Run.statistics (t : Tree) : Run → Except Error Statistics
  | .settled p => .ok (.ofRun Rule.catalog t p)
  | .overLimit limit _ => .error (.stepLimit limit)
  | .unfinished p => .error (.unfinished p.steps)

end Unscramble
