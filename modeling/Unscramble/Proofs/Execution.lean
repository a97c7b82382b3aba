import Unscramble.Optimizer

/-! An execution is a run, up to a step that brings the program down. -/
namespace Unscramble

open Simplify

/-! ### Steps that bring the program down -/

namespace Progress

section
variable {context : Context} {rules : List Rule} {memory : Memory} {t : Tree} {p q : Progress}

theorem exists_panics (h : p.panics context rules = true) : ∃ rule ∈ rules, rule.panics p.tree = true := by
  rw [panics] at h
  split at h
  next => cases h
  next i hi =>
    obtain ⟨hlt, hpanics, -⟩ := List.findIdx?_eq_some_iff_getElem.mp hi
    exact ⟨rules[i], List.getElem_mem hlt, hpanics⟩

/-- What the first step of an execution can do. -/
inductive First (context : Context) (rules : List Rule) (p : Progress) : Prop
  | panics (h : p.panics context rules = true)
  | last {new} (h : p.panics context rules = false) (hstep : p.step context rules = (new, false))
  | exceeded {new limit} (h : p.panics context rules = false) (hstep : p.step context rules = (new, true))
    (hlimit : context.settings.maxSteps = some limit) (hlt : limit < new.steps)
  | next {new} (h : p.panics context rules = false) (hstep : p.step context rules = (new, true))
    (hlimit : ∀ limit ∈ context.settings.maxSteps, new.steps ≤ limit)

theorem first (context : Context) (rules : List Rule) (p : Progress) : First context rules p := by
  cases hpanics : p.panics context rules with
  | true => exact .panics hpanics
  | false =>
    cases hstep : p.step context rules with
    | mk q more =>
    cases more with
    | false => exact .last hpanics hstep
    | true =>
      by_cases hlimit : ∀ limit ∈ context.settings.maxSteps, q.steps ≤ limit
      · exact .next hpanics hstep hlimit
      · obtain ⟨limit, hlimit, hlt⟩ : ∃ limit, context.settings.maxSteps = some limit ∧ limit < q.steps := by
          simpa using hlimit
        exact .exceeded hpanics hstep hlimit hlt

end
end Progress

/-! ### Executions and runs -/

section
variable {context : Context} {rules : List Rule} {p q : Progress} {limit fuel m n : Nat}

theorem executeFrom_panics (h : p.panics context rules = true) :
    executeFrom context rules (fuel + 1) p = .panicked p := by
  rw [executeFrom, if_pos h]

theorem executeFrom_last (h : p.panics context rules = false) (hstep : p.step context rules = (q, false)) :
    executeFrom context rules (fuel + 1) p = .ended (.settled q) := by
  simp [executeFrom, h, hstep]

theorem executeFrom_over (h : p.panics context rules = false) (hstep : p.step context rules = (q, true))
    (hlimit : context.settings.maxSteps = some limit) (hlt : limit < q.steps) :
    executeFrom context rules (fuel + 1) p = .ended (.overLimit limit q) := by
  simp [executeFrom, h, hstep, hlimit, hlt]

theorem executeFrom_next (h : p.panics context rules = false) (hstep : p.step context rules = (q, true))
    (hlimit : ∀ limit ∈ context.settings.maxSteps, q.steps ≤ limit) :
    executeFrom context rules (fuel + 1) p = executeFrom context rules fuel q := by
  cases hmax : context.settings.maxSteps with
  | none => simp [executeFrom, h, hstep, hmax]
  | some limit => simp [executeFrom, h, hstep, hmax, Nat.not_lt.mpr (hlimit limit hmax)]

theorem runFrom_last (hstep : p.step context rules = (q, false)) :
    runFrom context rules (fuel + 1) p = .settled q := by
  simp [runFrom, hstep]

theorem runFrom_over (hstep : p.step context rules = (q, true))
    (hlimit : context.settings.maxSteps = some limit) (hlt : limit < q.steps) :
    runFrom context rules (fuel + 1) p = .overLimit limit q := by
  simp [runFrom, hstep, hlimit, hlt]

theorem runFrom_next (hstep : p.step context rules = (q, true))
    (hlimit : ∀ limit ∈ context.settings.maxSteps, q.steps ≤ limit) :
    runFrom context rules (fuel + 1) p = runFrom context rules fuel q := by
  cases hmax : context.settings.maxSteps with
  | none => simp [runFrom, hstep, hmax]
  | some limit => simp [runFrom, hstep, hmax, Nat.not_lt.mpr (hlimit limit hmax)]

/-- What an execution ends with is what the run ends with. -/
theorem runFrom_of_executeFrom {run : Run} (h : executeFrom context rules fuel p = .ended run) :
    runFrom context rules fuel p = run := by
  induction fuel generalizing p with
  | zero => cases h; rfl
  | succ fuel ih =>
    cases p.first context rules with
    | panics hpanics => rw [executeFrom_panics hpanics] at h; cases h
    | last hpanics hstep =>
      rw [executeFrom_last hpanics hstep] at h
      cases h
      exact runFrom_last hstep
    | exceeded hpanics hstep hlimit hlt =>
      rw [executeFrom_over hpanics hstep hlimit hlt] at h
      cases h
      exact runFrom_over hstep hlimit hlt
    | next hpanics hstep hlimit =>
      rw [executeFrom_next hpanics hstep hlimit] at h
      rw [runFrom_next hstep hlimit]
      exact ih h

/-- What an execution comes to does not depend on the number of steps that it is given. -/
theorem executeFrom_mono {execution : Execution} (h : executeFrom context rules n p = execution)
    (hfinished : ∀ q, execution ≠ .ended (.unfinished q)) (hle : n ≤ m) :
    executeFrom context rules m p = execution := by
  induction n generalizing p m with
  | zero => exact absurd h.symm (hfinished p)
  | succ n ih =>
    obtain ⟨m, rfl⟩ := Nat.exists_eq_add_one_of_ne_zero (Nat.ne_zero_of_lt hle)
    cases p.first context rules with
    | panics hpanics => rw [← h, executeFrom_panics hpanics, executeFrom_panics hpanics]
    | last hpanics hstep => rw [← h, executeFrom_last hpanics hstep, executeFrom_last hpanics hstep]
    | exceeded hpanics hstep hlimit hlt =>
      rw [← h, executeFrom_over hpanics hstep hlimit hlt, executeFrom_over hpanics hstep hlimit hlt]
    | next hpanics hstep hlimit =>
      rw [executeFrom_next hpanics hstep hlimit] at h ⊢
      exact ih h (Nat.le_of_succ_le_succ hle)

theorem apply_of_step (h : p.step context rules = (q, true)) :
    ∃ (rule : Rule) (memory : Memory), (rule.apply context memory p.tree).1 = some q.tree := by
  have hmatch : ∀ {rules memory found remembered}, Progress.tryRules context memory p.tree rules =
      (some found, remembered) → ∃ memory, (found.1.apply context memory p.tree).1 = some found.2 := by
    intro rules
    induction rules with
    | nil => intro _ _ _ h; cases h
    | cons rule rules ih =>
      intro memory found remembered h
      rw [Progress.tryRules] at h
      split at h
      next happly => cases h; exact ⟨memory, by rw [happly]⟩
      next => exact ih h
  rw [Progress.step] at h
  split at h
  next rule new _ htry =>
    cases h
    exact ⟨rule, hmatch htry⟩
  next => cases h

/-- An execution that does not end comes to a tree with all properties that the rules keep. -/
theorem exists_panics_of_executeFrom {P : Tree → Prop}
    (hP : ∀ {rule : Rule} {memory t t'}, P t → (rule.apply context memory t).1 = some t' → P t') (hp : P p.tree)
    (h : executeFrom context rules fuel p = .panicked q) :
    P q.tree ∧ ∃ rule ∈ rules, rule.panics q.tree = true := by
  induction fuel generalizing p with
  | zero => cases h
  | succ fuel ih =>
    cases p.first context rules with
    | panics hpanics =>
      rw [executeFrom_panics hpanics] at h
      cases h
      exact ⟨hp, Progress.exists_panics hpanics⟩
    | last hpanics hstep => rw [executeFrom_last hpanics hstep] at h; cases h
    | exceeded hpanics hstep hlimit hlt => rw [executeFrom_over hpanics hstep hlimit hlt] at h; cases h
    | next hpanics hstep hlimit =>
      obtain ⟨rule, memory, happly⟩ := apply_of_step hstep
      exact ih (hP hp happly) (executeFrom_next hpanics hstep hlimit ▸ h)

end

end Unscramble
