import Mathlib.Algebra.Ring.Nat
import Mathlib.Data.List.Nodup
import Unscramble.Optimizer
import Unscramble.Proofs.Rewriting.Nodes

/-! The driver, for any rules. A limit on the number of steps does not change the steps that are made:
a run with a limit follows the run without one until that comes to its end or has made one step more
than the limit. What a run answers about itself is read off the steps that it made. -/
namespace Unscramble

open Simplify

/-- A rule as the driver sees it. It reports whether it changed the tree that it was called with. What
rules keep from one call to the next is a part of the state. -/
structure Rewriter (σ : Type) where
  name : String
  apply : σ → Tree → Bool × Tree × σ

namespace Driver

/-- How far a run has come, and how often it applied each of its rules. -/
structure Stage (σ : Type) where
  tree : Tree
  state : σ
  counts : List Nat
  steps : Nat := 0

inductive Outcome (σ : Type) where
  | settled (g : Stage σ)
  | overLimit (limit : Nat) (g : Stage σ)
  | unfinished (g : Stage σ)

variable {σ : Type}

/-- Calls rules in order until one reports a change, and answers its position. -/
def call : List (Rewriter σ) → Tree → σ → Option Nat × Tree × σ
  | [], t, s => (none, t, s)
  | rule :: rules, t, s =>
    match rule.apply s t with
    | (true, t, s) => (some 0, t, s)
    | (false, t, s) =>
      let (i, t, s) := call rules t s
      (i.map (· + 1), t, s)

/-- One step, and whether a rule reported a change. -/
def step (rules : List (Rewriter σ)) (g : Stage σ) : Stage σ × Bool :=
  match call rules g.tree g.state with
  | (some i, t, s) => (⟨t, s, g.counts.modify i (· + 1), g.steps + 1⟩, true)
  | (none, t, s) => ({ g with tree := t, state := s }, false)

def start (rules : List (Rewriter σ)) (t : Tree) (s : σ) : Stage σ where
  tree := t
  state := s
  counts := List.replicate rules.length 0

/-- Steps as long as there is a change. The limit is looked at after each step. -/
def run (rules : List (Rewriter σ)) (limit : Option Nat) : Nat → Stage σ → Outcome σ
  | 0, g => .unfinished g
  | fuel + 1, g =>
    match step rules g with
    | (g, false) => .settled g
    | (g, true) =>
      match limit with
      | some m => if m < g.steps then .overLimit m g else run rules limit fuel g
      | none => run rules limit fuel g

def Stage.statistics (rules : List (Rewriter σ)) (t : Tree) (g : Stage σ) : Statistics where
  nodesIn := t.size
  nodesOut := g.tree.size
  steps := g.steps
  perRule := ((rules.zip g.counts).filter (0 < ·.2)).map fun (rule, n) => (rule.name, n)

def Outcome.result (rules : List (Rewriter σ)) (t : Tree) : Outcome σ → Except Error Statistics
  | .settled g => .ok (g.statistics rules t)
  | .overLimit limit _ => .error (.stepLimit limit)
  | .unfinished g => .error (.unfinished g.steps)

/-! ### Runs -/

/-- The stage after a number of steps, however many of them changed something. -/
def after (rules : List (Rewriter σ)) : Nat → Stage σ → Stage σ
  | 0, g => g
  | n + 1, g => after rules n (step rules g).1

/-- There is a change in each of a number of steps. -/
def Moves (rules : List (Rewriter σ)) (n : Nat) (g : Stage σ) : Prop :=
  ∀ k < n, (step rules (after rules k g)).2 = true

section
variable {rules : List (Rewriter σ)} {limit : Option Nat} {fuel m n : Nat} {g g' : Stage σ}

theorem after_succ (rules : List (Rewriter σ)) (n : Nat) (g : Stage σ) :
    after rules (n + 1) g = (step rules (after rules n g)).1 := by
  induction n generalizing g with
  | zero => rfl
  | succ n ih => exact ih (step rules g).1

theorem Moves.zero : Moves rules 0 g := fun _ hk => absurd hk (Nat.not_lt_zero _)

theorem moves_succ : Moves rules (n + 1) g ↔ (step rules g).2 = true ∧ Moves rules n (step rules g).1 := by
  refine ⟨fun h => ⟨h 0 (Nat.succ_pos n), fun k hk => h (k + 1) (Nat.succ_lt_succ hk)⟩, ?_⟩
  rintro ⟨hfirst, hrest⟩ (_ | k) hk
  · exact hfirst
  · exact hrest k (Nat.lt_of_succ_lt_succ hk)

theorem Moves.mono (h : Moves rules n g) (hm : m ≤ n) : Moves rules m g :=
  fun k hk => h k (Nat.lt_of_lt_of_le hk hm)

theorem steps_step (h : (step rules g).2 = true) : (step rules g).1.steps = g.steps + 1 := by
  unfold step at h ⊢
  split at h
  · rfl
  · cases h

theorem Moves.steps (h : Moves rules n g) : (after rules n g).steps = g.steps + n := by
  induction n generalizing g with
  | zero => rfl
  | succ n ih =>
    obtain ⟨hfirst, hrest⟩ := moves_succ.mp h
    rw [after, ih hrest, steps_step hfirst]
    omega

theorem run_idle (h : (step rules g).2 = false) :
    run rules limit (fuel + 1) g = .settled (step rules g).1 := by
  rw [run]
  generalize step rules g = result at h
  obtain ⟨g', more⟩ := result
  cases h
  rfl

theorem run_change (h : (step rules g).2 = true) (hlimit : ∀ m ∈ limit, g.steps + 1 ≤ m) :
    run rules limit (fuel + 1) g = run rules limit fuel (step rules g).1 := by
  have hsteps := steps_step h
  rw [run]
  generalize step rules g = result at h hsteps
  obtain ⟨g', more⟩ := result
  cases h
  dsimp only at hsteps ⊢
  cases limit with
  | none => rfl
  | some m =>
    have hm := hlimit m rfl
    exact if_neg (by omega)

theorem run_overLimit (h : (step rules g).2 = true) (hlimit : m < g.steps + 1) :
    run rules (some m) (fuel + 1) g = .overLimit m (step rules g).1 := by
  have hsteps := steps_step h
  rw [run]
  generalize step rules g = result at h hsteps
  obtain ⟨g', more⟩ := result
  cases h
  dsimp only at hsteps ⊢
  exact if_pos (by omega)

/-- A run goes on as long as there are changes and the limit is not passed. -/
theorem Moves.run (h : Moves rules n g) (hlimit : ∀ m ∈ limit, g.steps + n ≤ m) (fuel : Nat) :
    run rules limit (fuel + n) g = run rules limit fuel (after rules n g) := by
  induction n generalizing g with
  | zero => rfl
  | succ n ih =>
    obtain ⟨hfirst, hrest⟩ := moves_succ.mp h
    have hsteps := steps_step hfirst
    have hone : ∀ m ∈ limit, g.steps + 1 ≤ m := fun m hm => by
      have := hlimit m hm
      omega
    have hmore : ∀ m ∈ limit, (step rules g).1.steps + n ≤ m := fun m hm => by
      have := hlimit m hm
      omega
    rw [← Nat.add_assoc, run_change hfirst hone, ih hrest hmore, after]

theorem Moves.settled (h : Moves rules n g) (hlast : (step rules (after rules n g)).2 = false)
    (hlimit : ∀ m ∈ limit, g.steps + n ≤ m) (hfuel : n < fuel) :
    Driver.run rules limit fuel g = .settled (after rules (n + 1) g) := by
  obtain ⟨fuel, rfl⟩ := Nat.exists_eq_add_of_lt hfuel
  rw [show n + fuel + 1 = fuel + 1 + n by omega, h.run hlimit, run_idle hlast, after_succ]

theorem Moves.overLimit (h : Moves rules (m + 1) g) (hg : g.steps = 0) (hfuel : m < fuel) :
    Driver.run rules (some m) fuel g = .overLimit m (after rules (m + 1) g) := by
  obtain ⟨fuel, rfl⟩ := Nat.exists_eq_add_of_lt hfuel
  have hbefore := h.mono (Nat.le_succ m)
  have hsteps := hbefore.steps
  have hlimit : ∀ m' ∈ some m, g.steps + m ≤ m' := by
    rintro _ ⟨⟩
    omega
  rw [show m + fuel + 1 = fuel + 1 + m by omega, hbefore.run hlimit,
    run_overLimit (h m (Nat.lt_succ_self m)) (by omega), after_succ]

/-- A run that settles has made steps with a change, and then one without. -/
theorem settled_moves (h : run rules limit fuel g = .settled g') :
    ∃ n, Moves rules n g ∧ (step rules (after rules n g)).2 = false ∧
      g' = after rules (n + 1) g := by
  induction fuel generalizing g with
  | zero => cases h
  | succ fuel ih =>
    cases hmore : (step rules g).2 with
    | false =>
      rw [run_idle hmore] at h
      cases h
      exact ⟨0, .zero, hmore, rfl⟩
    | true =>
      by_cases hlimit : ∀ m ∈ limit, g.steps + 1 ≤ m
      · rw [run_change hmore hlimit] at h
        obtain ⟨n, hmoves, hlast, rfl⟩ := ih h
        exact ⟨n + 1, moves_succ.mpr ⟨hmore, hmoves⟩, hlast, rfl⟩
      · obtain ⟨m, hm, hover⟩ : ∃ m ∈ limit, m < g.steps + 1 := by simpa using hlimit
        cases hm
        rw [run_overLimit hmore hover] at h
        cases h

theorem unfinished_moves (h : run rules none fuel g = .unfinished g') : Moves rules fuel g := by
  induction fuel generalizing g with
  | zero => exact .zero
  | succ fuel ih =>
    cases hmore : (step rules g).2 with
    | false =>
      rw [run_idle hmore] at h
      cases h
    | true =>
      rw [run_change hmore (by simp)] at h
      exact moves_succ.mpr ⟨hmore, ih h⟩

end

/-! ### Which rule was applied -/

/-- Whether the rule at a position is the first to report a change when all are called in order. -/
def reportsFirst : List (Rewriter σ) → Nat → Tree → σ → Bool
  | [], _, _, _ => false
  | rule :: _, 0, t, s => (rule.apply s t).1
  | rule :: rules, i + 1, t, s =>
    !(rule.apply s t).1 && reportsFirst rules i (rule.apply s t).2.1 (rule.apply s t).2.2

/-- In how many of the first steps a rule was the first to report a change. -/
def tally (rules : List (Rewriter σ)) (n : Nat) (g : Stage σ) (i : Nat) : Nat :=
  (List.range n).countP fun k => reportsFirst rules i (after rules k g).tree (after rules k g).state

section
variable {rules : List (Rewriter σ)} {i n : Nat} {t : Tree} {s : σ} {g : Stage σ}

theorem call_eq_some_iff : (call rules t s).1 = some i ↔ reportsFirst rules i t s = true := by
  induction rules generalizing i t s with
  | nil => simp [call, reportsFirst]
  | cons rule rules ih =>
    rw [call]
    rcases hrule : rule.apply s t with ⟨changed, t', s'⟩
    cases changed with
    | true => cases i <;> simp [reportsFirst, hrule]
    | false =>
      cases i with
      | zero => simp [reportsFirst, hrule]
      | succ i => simpa [reportsFirst, hrule] using ih

theorem lt_of_reportsFirst (h : reportsFirst rules i t s = true) : i < rules.length := by
  induction rules generalizing i t s with
  | nil => cases h
  | cons rule rules ih =>
    cases i with
    | zero => exact Nat.succ_pos _
    | succ i =>
      rw [reportsFirst, Bool.and_eq_true] at h
      exact Nat.succ_lt_succ (ih h.2)

theorem step_eq_false_iff :
    (step rules g).2 = false ↔ ∀ i, reportsFirst rules i g.tree g.state = false := by
  have hnone : (step rules g).2 = false ↔ (call rules g.tree g.state).1 = none := by
    unfold step
    split <;> simp_all
  simp only [hnone, Option.eq_none_iff_forall_ne_some, ne_eq, call_eq_some_iff, Bool.not_eq_true]

/-- A step with a change counts for one rule, the only one that is the first to report a change. -/
theorem counts_step (h : (step rules g).2 = true) : ∃ i < rules.length,
    (∀ j, reportsFirst rules j g.tree g.state = decide (j = i)) ∧
      (step rules g).1.counts = g.counts.modify i (· + 1) := by
  unfold step at h ⊢
  split at h
  next i t s hcall =>
    have hfirst (j : Nat) : reportsFirst rules j g.tree g.state = true ↔ j = i := by
      rw [← call_eq_some_iff, hcall, Option.some.injEq, eq_comm]
    exact ⟨i, lt_of_reportsFirst ((hfirst i).mpr rfl), fun j => by rw [Bool.eq_iff_iff]; simp [hfirst],
      rfl⟩
  next => cases h

theorem tally_succ (rules : List (Rewriter σ)) (n : Nat) (g : Stage σ) (i : Nat) :
    tally rules (n + 1) g i = tally rules n g i +
      (reportsFirst rules i (after rules n g).tree (after rules n g).state).toNat := by
  rw [tally, List.range_succ, List.countP_append, List.countP_singleton, tally]
  cases reportsFirst rules i (after rules n g).tree (after rules n g).state <;> rfl

theorem Moves.counts (h : Moves rules n (start rules t s)) :
    (after rules n (start rules t s)).counts =
      (List.range rules.length).map (tally rules n (start rules t s)) := by
  induction n with
  | zero =>
    refine List.ext_getElem (by simp [after, start]) fun i _ _ => ?_
    simp [after, start, tally]
  | succ n ih =>
    obtain ⟨i, hi, hfirst, hcounts⟩ := counts_step (h n (Nat.lt_succ_self n))
    rw [after_succ, hcounts, ih (h.mono (Nat.le_succ n))]
    refine List.ext_getElem (by simp) fun j hj _ => ?_
    simp only [List.getElem_modify, List.getElem_map, List.getElem_range, tally_succ, hfirst]
    by_cases hij : i = j
    · simp [hij]
    · simp [hij, Ne.symm hij]

theorem sum_modify {l : List Nat} (h : i < l.length) : (l.modify i (· + 1)).sum = l.sum + 1 := by
  induction l generalizing i with
  | nil => simp at h
  | cons n l ih =>
    cases i with
    | zero => simp [Nat.add_right_comm]
    | succ i => simp [ih (Nat.lt_of_succ_lt_succ h), Nat.add_assoc]

theorem Moves.sum_counts (h : Moves rules n (start rules t s)) :
    (after rules n (start rules t s)).counts.sum = n := by
  induction n with
  | zero => simp [after, start]
  | succ n ih =>
    obtain ⟨i, hi, -, hcounts⟩ := counts_step (h n (Nat.lt_succ_self n))
    have hbefore := h.mono (Nat.le_succ n)
    rw [after_succ, hcounts, sum_modify (by simpa [hbefore.counts] using hi), ih hbefore]

theorem sum_filter_pos {α : Type} (l : List (α × Nat)) :
    ((l.filter (0 < ·.2)).map (·.2)).sum = (l.map (·.2)).sum := by
  induction l with
  | nil => rfl
  | cons entry l ih =>
    by_cases hpos : 0 < entry.2
    · simp [hpos, ih]
    · simp [Nat.eq_zero_of_not_pos hpos, ih]

mutual

theorem size_eq_length : (t : Tree) → t.size = t.nodes.length
  | .node _ cs => by rw [Tree.size, Tree.nodes, List.length_cons, sizeAll_eq_length cs]

theorem sizeAll_eq_length : (ts : List Tree) → Tree.sizeAll ts = (Tree.nodesAll ts).length
  | [] => rfl
  | t :: ts => by
    rw [Tree.sizeAll, Tree.nodesAll, List.length_append, size_eq_length t, sizeAll_eq_length ts]

end

/-- What a run that settled says about itself. In every step that counts, a rule was the first to report
a change, and it counts for that rule. In the last step no rule reported one. -/
structure Counted (rules : List (Rewriter σ)) (t : Tree) (s : σ) (g : Stage σ) : Prop where
  moves : ∀ k < g.steps, ∃ i, reportsFirst rules i (after rules k (start rules t s)).tree
    (after rules k (start rules t s)).state = true
  last : ∀ i, reportsFirst rules i (after rules g.steps (start rules t s)).tree
    (after rules g.steps (start rules t s)).state = false
  nodesIn : (g.statistics rules t).nodesIn = t.nodes.length
  nodesOut : (g.statistics rules t).nodesOut = g.tree.nodes.length
  steps : (g.statistics rules t).steps = g.steps
  perRule : (g.statistics rules t).perRule = (rules.zipIdx.map fun (rule, i) =>
    (rule.name, tally rules g.steps (start rules t s) i)).filter (0 < ·.2)
  positive : ∀ entry ∈ (g.statistics rules t).perRule, 0 < entry.2
  sum : ((g.statistics rules t).perRule.map (·.2)).sum = g.steps

theorem idle_step (h : (step rules g).2 = false) :
    (step rules g).1.counts = g.counts ∧ (step rules g).1.steps = g.steps := by
  unfold step at h ⊢
  split at h
  · cases h
  · exact ⟨rfl, rfl⟩

/-- The number of steps of a run that settled says which steps it made. -/
theorem settled_start {limit : Option Nat} {fuel : Nat}
    (h : run rules limit fuel (start rules t s) = .settled g) :
    Moves rules g.steps (start rules t s) ∧
      (step rules (after rules g.steps (start rules t s))).2 = false ∧
      g = after rules (g.steps + 1) (start rules t s) := by
  obtain ⟨n, hmoves, hlast, hg⟩ := settled_moves h
  obtain rfl : g.steps = n := by
    rw [hg, after_succ, (idle_step hlast).2, hmoves.steps]
    exact Nat.zero_add n
  exact ⟨hmoves, hlast, hg⟩

theorem counted_of_settled {limit : Option Nat} {fuel : Nat}
    (h : run rules limit fuel (start rules t s) = .settled g) : Counted rules t s g := by
  obtain ⟨hmoves, hlast, hg⟩ := settled_start h
  have hcounts : g.counts = (after rules g.steps (start rules t s)).counts := by
    rw [← (idle_step hlast).1, ← after_succ, ← hg]
  have hall : rules.zip g.counts =
      rules.zipIdx.map fun (rule, i) => (rule, tally rules g.steps (start rules t s) i) := by
    rw [hcounts, hmoves.counts, List.zip_map_right, List.zipIdx_eq_zip_range', List.range_eq_range']
    rfl
  refine ⟨fun k hk => ?_, step_eq_false_iff.mp hlast, size_eq_length t, size_eq_length _, rfl, ?_,
    fun entry hentry => ?_, ?_⟩
  · obtain ⟨i, -, hfirst, -⟩ := counts_step (hmoves k hk)
    exact ⟨i, by simp [hfirst]⟩
  · rw [Stage.statistics, hall, List.filter_map, List.filter_map, List.map_map]
    rfl
  · obtain ⟨counted, hcounted, rfl⟩ := List.mem_map.mp hentry
    simpa using (List.mem_filter.mp hcounted).2
  · have hsum := sum_filter_pos (rules.zip g.counts)
    rw [List.map_snd_zip (by simp [hcounts, hmoves.counts]), hcounts, hmoves.sum_counts] at hsum
    rw [Stage.statistics, List.map_map, hcounts]
    exact hsum

end

/-- What a limit does to the runs from a tree, and what these say about themselves. -/
structure Transparent (rules : List (Rewriter σ)) (t : Tree) (s : σ) (m : Nat) : Prop where
  within : ∀ fuel g, run rules none fuel (start rules t s) = .settled g → g.steps ≤ m →
    ∀ fuel', g.steps < fuel' → run rules (some m) fuel' (start rules t s) = .settled g
  beyond : ∀ fuel g, run rules none fuel (start rules t s) = .settled g → m < g.steps →
    ∀ fuel', m < fuel' → run rules (some m) fuel' (start rules t s) =
      .overLimit m (after rules (m + 1) (start rules t s))
  endless : (∀ fuel, ∃ g, run rules none fuel (start rules t s) = .unfinished g) →
    ∀ fuel', m < fuel' → run rules (some m) fuel' (start rules t s) =
      .overLimit m (after rules (m + 1) (start rules t s))
  counted : ∀ limit fuel g, run rules limit fuel (start rules t s) = .settled g → Counted rules t s g

theorem transparent (rules : List (Rewriter σ)) (t : Tree) (s : σ) (m : Nat) : Transparent rules t s m where
  within fuel g h hm fuel' hfuel := by
    obtain ⟨hmoves, hlast, hg⟩ := settled_start h
    rw [hmoves.settled hlast ?_ hfuel, ← hg]
    rintro _ ⟨⟩
    simpa [start] using hm
  beyond fuel g h hm fuel' hfuel := ((settled_start h).1.mono hm).overLimit rfl hfuel
  endless h fuel' hfuel := by
    obtain ⟨g, hg⟩ := h (m + 1)
    exact (unfinished_moves hg).overLimit rfl hfuel
  counted _ _ _ h := counted_of_settled h

end Driver

/-! ### The catalog -/

/-- A rule of the catalog for the driver. It is told everything about the context but the limit. -/
def Rule.rewriter (context : Context) (rule : Rule) : Rewriter Memory where
  name := rule.name
  apply memory t :=
    let (new, memory) := rule.apply context memory t
    (new.isSome, new.getD t, memory)

/-- The same context with another limit. -/
def Simplify.Context.limited (context : Context) (limit : Option Nat) : Context :=
  { context with settings := { context.settings with maxSteps := limit } }

def Progress.stage (rules : List Rule) (p : Progress) : Driver.Stage Memory where
  tree := p.tree
  state := p.memory
  counts := rules.map fun rule => p.applied.count rule
  steps := p.steps

def Run.outcome (rules : List Rule) : Run → Driver.Outcome Memory
  | .settled p => .settled (p.stage rules)
  | .overLimit limit p => .overLimit limit (p.stage rules)
  | .unfinished p => .unfinished (p.stage rules)

section
variable {context : Context} {rules : List Rule}

theorem rewriter_limited (context : Context) (limit : Option Nat) :
    Rule.rewriter (context.limited limit) = Rule.rewriter context := by
  funext rule
  cases rule <;> rfl

theorem call_rewriter (context : Context) (memory : Memory) (t : Tree) (rules : List Rule) :
    match Progress.tryRules context memory t rules with
    | (some (rule, t'), memory') => ∃ i, rules[i]? = some rule ∧
        Driver.call (rules.map (Rule.rewriter context)) t memory = (some i, t', memory')
    | (none, memory') => Driver.call (rules.map (Rule.rewriter context)) t memory = (none, t, memory') := by
  induction rules generalizing memory with
  | nil => rfl
  | cons rule rules ih =>
    rw [Progress.tryRules, List.map_cons, Driver.call]
    rcases happly : rule.apply context memory t with ⟨_ | t', memory'⟩
    · have hrest := ih memory'
      simp only [Rule.rewriter, happly, Option.isSome_none, Option.getD_none]
      rcases htry : Progress.tryRules context memory' t rules with ⟨_ | ⟨found, t'⟩, memory''⟩
      · rw [htry] at hrest
        dsimp only at hrest ⊢
        rw [hrest]
        rfl
      · rw [htry] at hrest
        obtain ⟨i, hi, hcall⟩ := hrest
        refine ⟨i + 1, by simpa using hi, ?_⟩
        rw [hcall]
        rfl
    · exact ⟨0, rfl, by simp [Rule.rewriter, happly]⟩

/-- A step of one driver is a step of the other. -/
theorem step_rewriter (hnodup : rules.Nodup) (p : Progress) :
    Driver.step (rules.map (Rule.rewriter context)) (p.stage rules) =
      ((p.step context rules).1.stage rules, (p.step context rules).2) := by
  have hcall := call_rewriter context p.memory p.tree rules
  have htree : (p.stage rules).tree = p.tree := rfl
  have hstate : (p.stage rules).state = p.memory := rfl
  rw [Driver.step, Progress.step, htree, hstate]
  generalize Progress.tryRules context p.memory p.tree rules = found at hcall ⊢
  obtain ⟨_ | ⟨rule, t'⟩, memory'⟩ := found
  · simp only [hcall]
    rfl
  · obtain ⟨i, hi, hcall⟩ := hcall
    obtain ⟨hi, rfl⟩ := List.getElem?_eq_some_iff.mp hi
    have hcounts : (p.stage rules).counts.modify i (· + 1) =
        rules.map fun other => (rules[i] :: p.applied).count other := by
      refine List.ext_getElem (by simp [Progress.stage]) fun j hj _ => ?_
      have hj : j < rules.length := by simpa [Progress.stage] using hj
      simp only [Progress.stage, List.getElem_modify, List.getElem_map, List.count_cons]
      by_cases hij : i = j
      · simp [hij]
      · have hne : rules[i] ≠ rules[j] := fun h => hij (List.Nodup.getElem_inj_iff hnodup |>.mp h)
        simp [hij, hne]
    simp only [hcall, hcounts]
    rfl

/-- The run of the catalog is the run of its rules by the driver. -/
theorem runFrom_rewriter (hnodup : rules.Nodup) (fuel : Nat) (p : Progress) :
    (runFrom context rules fuel p).outcome rules =
      Driver.run (rules.map (Rule.rewriter context)) context.settings.maxSteps fuel (p.stage rules) := by
  induction fuel generalizing p with
  | zero => rfl
  | succ fuel ih =>
    rw [runFrom, Driver.run, step_rewriter hnodup]
    obtain ⟨p', _ | _⟩ := p.step context rules
    · rfl
    · dsimp only
      have hrest := ih p'
      have hsteps : (p'.stage rules).steps = p'.steps := rfl
      rw [hsteps]
      cases hlimit : context.settings.maxSteps with
      | none => rwa [hlimit] at hrest
      | some limit =>
        rw [hlimit] at hrest
        dsimp only
        split
        · rfl
        · exact hrest

theorem statistics_stage (rules : List Rule) (t : Tree) (p : Progress) :
    (p.stage rules).statistics (rules.map (Rule.rewriter context)) t = .ofRun rules t p := by
  have hzip : (rules.map (Rule.rewriter context)).zip (p.stage rules).counts =
      rules.map fun rule => (Rule.rewriter context rule, p.applied.count rule) := by
    exact List.zip_map'
  rw [Driver.Stage.statistics, hzip, List.filter_map, List.map_map, Statistics.ofRun, List.filter_map]
  rfl

end

/-- A limit changes nothing about the steps that the driver makes with any rules, and the driver counts
what it does. The run of the catalog is one of its runs, with rules that are not told the limit. -/
theorem optimize_transparent :
    (∀ {σ : Type} (rules : List (Rewriter σ)) (t : Tree) (s : σ) (m : Nat),
      Driver.Transparent rules t s m) ∧
    ∀ (context : Context) (limit : Option Nat) (fuel : Nat) (t : Tree),
      let rules := Rule.catalog.map (Rule.rewriter context)
      let run := Driver.run rules limit fuel (Driver.start rules t {})
      (optimize (context.limited limit) fuel t).outcome Rule.catalog = run ∧
        (optimize (context.limited limit) fuel t).statistics t = run.result rules t := by
  refine ⟨Driver.transparent, fun context limit fuel t => ?_⟩
  have hnodup : Rule.catalog.Nodup := by decide
  intro rules run
  have hrun : (optimize (context.limited limit) fuel t).outcome Rule.catalog = run := by
    refine (runFrom_rewriter hnodup fuel { tree := t }).trans ?_
    rw [rewriter_limited]
    rfl
  refine ⟨hrun, ?_⟩
  rw [← hrun]
  cases optimize (context.limited limit) fuel t with
  | settled p => exact congrArg Except.ok (statistics_stage Rule.catalog t p).symm
  | overLimit => rfl
  | unfinished => rfl

/-- A rule that drops the last child of the root. -/
def popChild : Rewriter Unit where
  name := "pop_child"
  apply _ t :=
    if t.children.isEmpty then (false, t, ()) else (true, t.withChildren t.children.dropLast, ())

/-- Three children are dropped in three steps, and a run that may take two of them ends after the
third one. -/
theorem optimize_transparent_popChild :
    let tree (cs : List Tree) := Tree.branch .scriptBlock [] cs
    let start := Driver.start [popChild] (tree [intTree 1, intTree 2, intTree 3]) ()
    Driver.run [popChild] none 4 start = .settled ⟨tree [], (), [3], 3⟩ ∧
      Driver.run [popChild] (some 2) 3 start = .overLimit 2 ⟨tree [], (), [3], 3⟩ ∧
      ((⟨tree [], (), [3], 3⟩ : Driver.Stage Unit).statistics [popChild] start.tree).perRule =
        [("pop_child", 3)] := by
  intro tree start
  have hrun : Driver.run [popChild] none 4 start = .settled ⟨tree [], (), [3], 3⟩ := rfl
  have htransparent := optimize_transparent.1 [popChild] start.tree () 2
  have hcounted := (htransparent.counted _ _ _ hrun).perRule
  exact ⟨hrun, htransparent.beyond _ _ hrun (by decide) 3 (by decide), hcounted.trans rfl⟩

end Unscramble
