import Mathlib.Tactic.TypeStar

/-! Meanings of statements: in which states a run from a state can end, and in which way. The
constructs that control the flow are operations on meanings, and their laws are those by which
decided constructs can be simplified. -/
namespace Unscramble.Flow

/-- How a run of a statement ends: at its end, by leaving a loop or going on with its next round,
or by leaving everything. A loop without a label is the innermost one. -/
inductive Ending where
  | done
  | broken (label : Option String)
  | continued (label : Option String)
  | quit
  deriving DecidableEq

namespace Ending

/-- Whether a loop with some label goes on after a run of its body. -/
def goesOn (label : Option String) : Ending → Bool
  | .done | .continued none => true
  | .continued (some target) => label == some target
  | _ => false

/-- How a loop with some label ends if a run of its body ends its last round. -/
def leave (label : Option String) : Ending → Ending
  | .broken none => .done
  | .broken (some target) => if label = some target then .done else .broken (some target)
  | ending => ending

/-- How a construct ends that runs its body once, and that exits refer to. -/
def caught (label : Option String) (ending : Ending) : Ending :=
  if ending.goesOn label then .done else ending.leave label

def isBare : Ending → Bool
  | .broken none | .continued none => true
  | _ => false

def isLabelled : Ending → Bool
  | .broken (some _) | .continued (some _) => true
  | _ => false

/-- An ending that is no exit from a loop. -/
def isQuiet : Ending → Bool
  | .done | .quit => true
  | _ => false

end Ending

abbrev Meaning (S : Type*) := S → Ending → S → Prop

/-- What a condition can answer, and in which states. It may also leave everything. -/
abbrev Test (S : Type*) := S → Option Bool → S → Prop

section
variable {S : Type*}

def skip : Meaning S := fun σ o σ' => o = .done ∧ σ' = σ

/-- One run after another, unless the first one ends early. -/
def andThen (m n : Meaning S) : Meaning S := fun σ o σ' =>
  (∃ τ, m σ .done τ ∧ n τ o σ') ∨ (o ≠ .done ∧ m σ o σ')

/-- A condition that has a value and no effect. -/
def constant (b : Bool) : Test S := fun σ answer σ' => answer = some b ∧ σ' = σ

def negate (c : Test S) : Test S := fun σ answer σ' => c σ (answer.map (!·)) σ'

def choose (c : Test S) (m n : Meaning S) : Meaning S := fun σ o σ' =>
  (∃ τ, c σ (some true) τ ∧ m τ o σ') ∨ (∃ τ, c σ (some false) τ ∧ n τ o σ') ∨
    (o = .quit ∧ c σ none σ')

/-- A body that may be left by exits that refer to the construct. -/
def catching (label : Option String) (m : Meaning S) : Meaning S := fun σ o σ' =>
  ∃ ending, m σ ending σ' ∧ o = ending.caught label

/-- Where a loop stands: before its condition, or before its body. -/
inductive Phase where
  | testing | running

/-- A loop with a condition, what is done between two rounds, and a body. -/
inductive Loop (label : Option String) (c : Test S) (step body : Meaning S) : Phase → Meaning S
  | stop {σ σ'} : c σ (some false) σ' → Loop label c step body .testing σ .done σ'
  | fail {σ σ'} : c σ none σ' → Loop label c step body .testing σ .quit σ'
  | enter {σ τ o σ'} : c σ (some true) τ → Loop label c step body .running τ o σ' →
      Loop label c step body .testing σ o σ'
  | next {σ ending τ υ o σ'} : body σ ending τ → ending.goesOn label = true → step τ .done υ →
      Loop label c step body .testing υ o σ' → Loop label c step body .running σ o σ'
  | halt {σ ending τ o σ'} : body σ ending τ → ending.goesOn label = true → step τ o σ' →
      o ≠ .done → Loop label c step body .running σ o σ'
  | leave {σ ending σ'} : body σ ending σ' → ending.goesOn label = false →
      Loop label c step body .running σ (ending.leave label) σ'

/-- What a `switch` does next. -/
inductive Choice where
  | body (i : Nat) | stop | quit

/-- A `switch` that runs one body after another, as something in charge of it decides, which is told
whether the last body was ended by a `continue`. -/
inductive Select (label : Option String) (decide : Bool → S → Choice → S → Prop)
    (bodies : List (Meaning S)) : Bool → Meaning S
  | stop {moved σ σ'} : decide moved σ .stop σ' → Select label decide bodies moved σ .done σ'
  | fail {moved σ σ'} : decide moved σ .quit σ' → Select label decide bodies moved σ .quit σ'
  | next {moved σ i τ m ending υ o σ'} : decide moved σ (.body i) τ → bodies[i]? = some m →
      m τ ending υ → ending.goesOn label = true →
      Select label decide bodies (ending != .done) υ o σ' → Select label decide bodies moved σ o σ'
  | leave {moved σ i τ m ending σ'} : decide moved σ (.body i) τ → bodies[i]? = some m →
      m τ ending σ' → ending.goesOn label = false →
      Select label decide bodies moved σ (ending.leave label) σ'

/-! ### Laws -/

variable {l m n : Meaning S} {c : Test S} {label : Option String}

@[simp] theorem andThen_skip (m : Meaning S) : andThen m skip = m := by
  funext σ o σ'
  by_cases ho : o = .done <;> simp [andThen, skip, ho]

@[simp] theorem skip_andThen (m : Meaning S) : andThen skip m = m := by
  funext σ o σ'
  simp only [andThen, skip, true_and, exists_eq_left, eq_iff_iff, or_iff_left_iff_imp]
  rintro ⟨hne, rfl, -⟩
  exact absurd rfl hne

theorem andThen_assoc (l m n : Meaning S) : andThen (andThen l m) n = andThen l (andThen m n) := by
  funext σ o σ'
  refine propext ⟨?_, ?_⟩
  · rintro (⟨τ, ⟨υ, hl, hm⟩ | ⟨hne, -⟩, hn⟩ | ⟨hne, ⟨υ, hl, hm⟩ | ⟨-, hl⟩⟩)
    · exact .inl ⟨υ, hl, .inl ⟨τ, hm, hn⟩⟩
    · exact absurd rfl hne
    · exact .inl ⟨υ, hl, .inr ⟨hne, hm⟩⟩
    · exact .inr ⟨hne, hl⟩
  · rintro (⟨υ, hl, ⟨τ, hm, hn⟩ | ⟨hne, hm⟩⟩ | ⟨hne, hl⟩)
    · exact .inl ⟨τ, .inl ⟨υ, hl, hm⟩, hn⟩
    · exact .inr ⟨hne, .inl ⟨υ, hl, hm⟩⟩
    · exact .inr ⟨hne, .inr ⟨hne, hl⟩⟩

@[simp] theorem choose_true (m n : Meaning S) : choose (constant true) m n = m := by
  funext σ o σ'
  simp [choose, constant]

@[simp] theorem choose_false (m n : Meaning S) : choose (constant false) m n = n := by
  funext σ o σ'
  simp [choose, constant]

@[simp] theorem negate_constant (b : Bool) : negate (constant b : Test S) = constant !b := by
  funext σ answer σ'
  cases b <;> rcases answer with _ | _ | _ <;> simp [negate, constant]

/-- A loop whose condition is never true does not start. -/
theorem loop_never (step body : Meaning S) :
    Loop label (constant false) step body .testing = skip := by
  funext σ o σ'
  refine propext ⟨fun h => ?_, ?_⟩
  · cases h with
    | stop h => exact ⟨rfl, h.2⟩
    | fail h | enter h => cases h.1
  · rintro ⟨rfl, rfl⟩
    exact .stop ⟨rfl, rfl⟩

/-- All runs end in certain ways. -/
def Ends (P : Ending → Bool) (m : Meaning S) : Prop := ∀ σ o σ', m σ o σ' → P o = true

/-- No run ends in an exit. -/
abbrev Quiet (m : Meaning S) : Prop := Ends Ending.isQuiet m

/-- No run ends in an exit with a label. -/
abbrev Unlabelled (m : Meaning S) : Prop := Ends (!·.isLabelled) m

namespace Ends
variable {P : Ending → Bool}

theorem skip (hdone : P .done = true) : Ends P (skip : Meaning S) := fun _ _ _ h => h.1 ▸ hdone

theorem andThen (hm : Ends P m) (hn : Ends P n) : Ends P (andThen m n) :=
  fun _ _ _ h => h.elim (fun ⟨_, _, h⟩ => hn _ _ _ h) fun h => hm _ _ _ h.2

theorem choose (hquit : P .quit = true) (hm : Ends P m) (hn : Ends P n) : Ends P (choose c m n) :=
  fun _ _ _ h => h.elim (fun ⟨_, _, h⟩ => hm _ _ _ h) fun h =>
    h.elim (fun ⟨_, _, h⟩ => hn _ _ _ h) fun h => h.1 ▸ hquit

end Ends

theorem isQuiet_iff {o : Ending} : o.isQuiet = true ↔ o = .done ∨ o = .quit := by
  cases o <;> simp [Ending.isQuiet]

theorem isQuiet_of_not {o : Ending} (hbare : o.isBare = false) (hlabelled : o.isLabelled = false) :
    o.isQuiet = true := by
  rcases o with _ | ⟨_ | _⟩ | ⟨_ | _⟩ | _ <;>
    simp_all [Ending.isBare, Ending.isLabelled, Ending.isQuiet]

theorem isQuiet_leave {o : Ending} (hlabelled : (!o.isLabelled) = true)
    (hstops : o.goesOn label = false) : (o.leave label).isQuiet = true := by
  rcases o with _ | ⟨_ | _⟩ | ⟨_ | _⟩ | _ <;>
    simp_all [Ending.isLabelled, Ending.goesOn, Ending.leave, Ending.isQuiet]

namespace Quiet

theorem unlabelled (h : Quiet m) : Unlabelled m := fun _ _ _ hm => by
  rcases isQuiet_iff.mp (h _ _ _ hm) with rfl | rfl <;> rfl

/-- Exits refer to the construct if they have no label. -/
theorem catching (hm : Unlabelled m) : Quiet (catching label m) := by
  rintro σ o σ' ⟨ending, h, rfl⟩
  unfold Ending.caught
  split
  next => rfl
  next hstops => exact isQuiet_leave (hm _ _ _ h) (Bool.not_eq_true _ ▸ hstops)

theorem loop {step body : Meaning S} (hstep : Quiet step) (hbody : Unlabelled body)
    (phase : Phase) : Quiet (Loop label c step body phase) := by
  intro σ o σ' h
  induction h with
  | stop | fail => rfl
  | enter _ _ ih | next _ _ _ _ ih => exact ih
  | halt _ _ h _ => exact hstep _ _ _ h
  | leave h hstops => exact isQuiet_leave (hbody _ _ _ h) hstops

theorem select {decide : Bool → S → Choice → S → Prop} {bodies : List (Meaning S)}
    (hbodies : ∀ m ∈ bodies, Unlabelled m) (moved : Bool) :
    Quiet (Select label decide bodies moved) := by
  intro σ o σ' h
  induction h with
  | stop | fail => rfl
  | next _ _ _ _ _ ih => exact ih
  | leave _ hm h hstops => exact isQuiet_leave (hbodies _ (List.mem_of_getElem? hm) _ _ _ h) hstops

end Quiet

theorem catching_quiet (h : Quiet m) : catching label m = m := by
  funext σ o σ'
  refine propext ⟨?_, fun hm => ⟨o, hm, ?_⟩⟩
  · rintro ⟨ending, hm, rfl⟩
    rcases isQuiet_iff.mp (h _ _ _ hm) with rfl | rfl <;> exact hm
  · rcases isQuiet_iff.mp (h _ _ _ hm) with rfl | rfl <;> rfl

/-- A body without exits runs once if the condition is false at the end of it. -/
theorem loop_once (h : Quiet m) :
    Loop label (constant false) skip m .running = m := by
  funext σ o σ'
  refine propext ⟨fun hloop => ?_, fun hm => ?_⟩
  · cases hloop with
    | next hm hgoes hstep hloop =>
      rw [loop_never] at hloop
      obtain ⟨rfl, rfl⟩ := hloop
      obtain ⟨-, rfl⟩ := hstep
      rcases isQuiet_iff.mp (h _ _ _ hm) with rfl | rfl
      · exact hm
      · cases hgoes
    | halt _ _ hstep hne => exact absurd hstep.1 hne
    | leave hm hstops =>
      rcases isQuiet_iff.mp (h _ _ _ hm) with rfl | rfl
      · cases hstops
      · exact hm
  · rcases isQuiet_iff.mp (h _ _ _ hm) with rfl | rfl
    · exact .next hm rfl ⟨rfl, rfl⟩ (.stop ⟨rfl, rfl⟩)
    · exact .leave hm rfl

/-- An exit without a label from the innermost loop. -/
def leaving : Meaning S := fun σ o σ' => o = .broken none ∧ σ' = σ

/-- A body that ends in the only exit it has runs once. -/
theorem loop_leaving {step : Meaning S} (h : Quiet m) :
    Loop label c step (andThen m leaving) .running = m := by
  funext σ o σ'
  refine propext ⟨fun hloop => ?_, fun hm => ?_⟩
  · have hbody {ending τ} (hm : Flow.andThen m leaving σ ending τ) :
        (ending = .broken none ∧ m σ .done τ) ∨ (ending = .quit ∧ m σ .quit τ) := by
      rcases hm with ⟨τ, hm, rfl, rfl⟩ | ⟨hne, hm⟩
      · exact .inl ⟨rfl, hm⟩
      · rcases isQuiet_iff.mp (h _ _ _ hm) with rfl | rfl
        · exact absurd rfl hne
        · exact .inr ⟨rfl, hm⟩
    cases hloop with
    | next hm hgoes | halt hm hgoes =>
      rcases hbody hm with ⟨rfl, -⟩ | ⟨rfl, -⟩ <;> cases hgoes
    | leave hbroken _ => rcases hbody hbroken with ⟨rfl, hm⟩ | ⟨rfl, hm⟩ <;> exact hm
  · rcases isQuiet_iff.mp (h _ _ _ hm) with rfl | rfl
    · have hbroken : Flow.andThen m leaving σ (.broken none) σ' := .inl ⟨σ', hm, rfl, rfl⟩
      exact Loop.leave hbroken rfl
    · have hquit : Flow.andThen m leaving σ .quit σ' := .inr ⟨by decide, hm⟩
      exact Loop.leave hquit rfl

/-- Before its condition, a loop that never comes back to it is a conditional. -/
theorem loop_testing {step body : Meaning S} :
    Loop label c step body .testing = choose c (Loop label c step body .running) skip := by
  funext σ o σ'
  refine propext ⟨fun h => ?_, ?_⟩
  · cases h with
    | stop h => exact .inr (.inl ⟨_, h, rfl, rfl⟩)
    | fail h => exact .inr (.inr ⟨rfl, h⟩)
    | enter h hloop => exact .inl ⟨_, h, hloop⟩
  · rintro (⟨τ, h, hloop⟩ | ⟨τ, h, rfl, rfl⟩ | ⟨rfl, h⟩)
    · exact .enter h hloop
    · exact .stop h
    · exact .fail h

end
end Unscramble.Flow
