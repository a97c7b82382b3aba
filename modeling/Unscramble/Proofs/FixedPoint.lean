import Unscramble.Proofs.Document.Legible
import Unscramble.Proofs.Document.RoundTrip
import Unscramble.Proofs.Execution
import Unscramble.Proofs.Spelling.LongNames

/-! What a run ends with is a fixed point of later runs. Rules remember scripts that are of no use and
new names for old ones, but with a parser that answers a script always the same way, whether a rule has a
match does not depend on what it remembers: a script that was rejected would be rejected again, and a long
name is renamed whatever its new name is. So a run that starts afresh from the tree of a run that came to
its end has nothing to do, also after the tree was written down and read again. -/
namespace Unscramble

open Simplify Unscramble.Tree

/-! ### What is remembered -/

/-- A parser that answers the same script always the same way. -/
def Simplify.Parser.Steady (parser : Parser) : Prop :=
  ∀ earlier later script, parser earlier script = parser later script

/-- The statements that a parser finds in a script that can be inlined. -/
def inlined? (parser : Parser) (earlier : List String) (script : String) : Option (List Tree) :=
  (parser earlier script).toOption.bind fun parsed => scriptStatements? parsed.children

theorem Simplify.Parser.Steady.inlined? {parser : Parser} (h : parser.Steady) (earlier later : List String)
    (script : String) : inlined? parser earlier script = inlined? parser later script := by
  rw [Unscramble.inlined?, Unscramble.inlined?, h earlier later]

/-- Scripts are rejected for a reason. -/
def Honest (context : Context) (memory : Memory) : Prop :=
  ∀ parser ∈ context.parser, parser.Steady →
    ∀ script ∈ memory.rejected, ∀ earlier, inlined? parser earlier script = none

theorem honest_nothing (context : Context) : Honest context {} := by simp [Honest]

section
variable {context : Context} {memory memory' : Memory} {parser : Parser} {t : Tree}

/-- A statement that runs a script is never the root. -/
theorem invocationAt?_replace {p q : Place} {script : String} (h : invocationAt? p = some (q, script))
    (new : List Tree) : (q.replace? new).isSome := by
  simp only [invocationAt?, Option.bind_eq_some_iff, Option.map_eq_some_iff, Prod.mk.injEq] at h
  obtain ⟨-, -, _, hq, rfl, -⟩ := h
  obtain ⟨command, -, hq⟩ := Option.bind_eq_some_iff.mp hq
  obtain ⟨above, habove, hq⟩ := Option.bind_eq_some_iff.mp hq
  have hreplace {place : Place} (h : place.trail ≠ []) : (place.replace? new).isSome := by
    obtain ⟨_ | _, tree⟩ := place
    · exact absurd rfl h
    · rfl
  refine hreplace fun hroot => ?_
  split at hq
  next =>
    cases hq
    simp [Place.up?, hroot] at habove
  next =>
    simp only [Option.ite_none_right_eq_some, Option.filter_eq_some_iff, Bool.and_eq_true] at hq
    simp [Place.parentIs, Place.parent?, hroot] at hq

theorem inlineFirst_honest {candidates : List (Place × String)} (hparser : context.parser = some parser)
    (h : Honest context memory) : Honest context (inlineFirst parser memory candidates).2 := by
  induction candidates generalizing memory with
  | nil => exact h
  | cons candidate rest ih =>
    obtain ⟨statement, script⟩ := candidate
    rw [inlineFirst]
    split
    next => exact h
    next hnone =>
      refine ih fun other hother hsteady s hs earlier => ?_
      obtain rfl : parser = other := Option.some.inj (hparser.symm.trans hother)
      rcases List.mem_cons.mp hs with rfl | hs
      · exact (hsteady.inlined? earlier memory.submitted _).trans hnone
      · exact h _ hother hsteady s hs earlier

theorem inlineFirst_eq_none {candidates : List (Place × String)} (hsteady : parser.Steady)
    (hplaces : ∀ c ∈ candidates, ∀ new, (c.1.replace? new).isSome) :
    (inlineFirst parser memory candidates).1 = none ↔ ∀ c ∈ candidates, inlined? parser [] c.2 = none := by
  induction candidates generalizing memory with
  | nil => simp [inlineFirst]
  | cons candidate rest ih =>
    obtain ⟨statement, script⟩ := candidate
    obtain ⟨hfirst, hrest⟩ := List.forall_mem_cons.mp hplaces
    rw [inlineFirst, List.forall_mem_cons]
    split
    next statements hsome =>
      have hinlined : inlined? parser [] script = some statements :=
        (hsteady.inlined? [] memory.submitted script).trans hsome
      obtain ⟨new, hnew⟩ := Option.isSome_iff_exists.mp (hfirst statements)
      simp [hinlined, hnew]
    next hnone =>
      have hrefused : inlined? parser [] script = none :=
        (hsteady.inlined? [] memory.submitted script).trans hnone
      rw [ih hrest]
      exact (and_iff_right hrefused).symm

/-- What was rejected makes no difference, as it has no statements. -/
theorem inlineInvokeExpression_eq_none (hsteady : ∀ parser ∈ context.parser, parser.Steady)
    (h : Honest context memory) : (inlineInvokeExpression context memory t).1 = none ↔
      (context.settings.inlineInvokeExpression = true → ∀ parser ∈ context.parser,
        ∀ c ∈ t.places.filterMap invocationAt?, inlined? parser [] c.2 = none) := by
  unfold inlineInvokeExpression
  split
  next parser hsetting hparser =>
    have hplaces : ∀ c ∈ (t.places.filterMap invocationAt?).filter
        fun c => !memory.rejected.contains c.2, ∀ new, (c.1.replace? new).isSome := by
      intro c hc
      obtain ⟨p, -, hc⟩ := List.mem_filterMap.mp (List.mem_filter.mp hc).1
      exact invocationAt?_replace hc
    refine (inlineFirst_eq_none (hsteady parser hparser) hplaces).trans
      ⟨fun hnone _ other hother c hc => ?_, fun hnone c hc => ?_⟩
    · obtain rfl : parser = other := Option.some.inj (hparser.symm.trans hother)
      by_cases hrejected : c.2 ∈ memory.rejected
      · exact h _ hother (hsteady _ hother) _ hrejected []
      · exact hnone c (List.mem_filter.mpr ⟨hc, by simpa using hrejected⟩)
    · exact hnone hsetting parser hparser c (List.mem_filter.mp hc).1
  next hother =>
    refine iff_of_true rfl fun hsetting parser hparser => ?_
    exact (hother parser hsetting hparser).elim

theorem foldl_addReplacement_rejected (taken names : List String) (memory : Memory) :
    (names.foldl (addReplacement taken) memory).rejected = memory.rejected := by
  induction names generalizing memory with
  | nil => rfl
  | cons name names ih =>
    rw [List.foldl_cons, ih, addReplacement]
    split <;> rfl

theorem Rule.apply_honest {rule : Rule} (h : Honest context memory) :
    Honest context (rule.apply context memory t).2 := by
  cases rule with
  | inlineInvokeExpression =>
    rw [apply, Simplify.inlineInvokeExpression]
    split
    next hparser => exact inlineFirst_honest hparser h
    next => exact h
  | renameLongNames =>
    intro parser hparser hsteady script hscript
    rw [apply, Simplify.renameLongNames, foldl_addReplacement_rejected] at hscript
    exact h parser hparser hsteady script hscript
  | _ => exact h

/-- Whether a rule has a match does not depend on what it remembers. -/
theorem Rule.apply_eq_none_congr {rule : Rule} (hsteady : ∀ parser ∈ context.parser, parser.Steady)
    (h : Honest context memory) (h' : Honest context memory') :
    (rule.apply context memory t).1 = none ↔ (rule.apply context memory' t).1 = none := by
  cases rule with
  | inlineInvokeExpression =>
    exact (inlineInvokeExpression_eq_none hsteady h).trans (inlineInvokeExpression_eq_none hsteady h').symm
  | renameLongNames => exact renameLongNames_eq_none.trans renameLongNames_eq_none.symm
  | _ => exact Iff.rfl

end

/-! ### Runs -/

/-- No rule found a match in a tree, with what it remembered. -/
def Exhausted (context : Context) (rules : List Rule) (t : Tree) : Prop :=
  ∀ rule ∈ rules, ∃ memory, Honest context memory ∧ (rule.apply context memory t).1 = none

/-- No rule has a match in a tree, whatever the rules remember. -/
def Idle (context : Context) (rules : List Rule) (t : Tree) : Prop :=
  ∀ rule ∈ rules, ∀ memory, Honest context memory → (rule.apply context memory t).1 = none

/-- What an attempt to find a match comes to. -/
inductive Attempt (context : Context) (rules : List Rule) (t : Tree) : Option (Rule × Tree) → Prop
  | exhausted : Exhausted context rules t → Attempt context rules t none
  | applied {rule memory t'} : rule ∈ rules → Honest context memory →
      (rule.apply context memory t).1 = some t' → Attempt context rules t (some (rule, t'))

section
variable {context : Context} {rules : List Rule} {memory : Memory} {t : Tree} {p q : Progress} {fuel : Nat}

theorem Exhausted.idle (hsteady : ∀ parser ∈ context.parser, parser.Steady) (h : Exhausted context rules t) :
    Idle context rules t := by
  intro rule hrule memory hmemory
  obtain ⟨remembered, hremembered, hnone⟩ := h rule hrule
  exact (Rule.apply_eq_none_congr hsteady hremembered hmemory).mp hnone

/-- A rule without a match in front of others. -/
theorem Attempt.cons {rule : Rule} {found : Option (Rule × Tree)} (h : Honest context memory)
    (hnone : (rule.apply context memory t).1 = none) (hattempt : Attempt context rules t found) :
    Attempt context (rule :: rules) t found := by
  cases hattempt with
  | exhausted hrules => exact .exhausted (List.forall_mem_cons.mpr ⟨⟨memory, h, hnone⟩, hrules⟩)
  | applied hrule hother happly => exact .applied (List.mem_cons_of_mem _ hrule) hother happly

theorem tryRules_attempt (h : Honest context memory) :
    Attempt context rules t (Progress.tryRules context memory t rules).1 ∧
      Honest context (Progress.tryRules context memory t rules).2 := by
  induction rules generalizing memory with
  | nil => exact ⟨.exhausted (by simp [Exhausted]), h⟩
  | cons rule rules ih =>
    have hhonest := rule.apply_honest (t := t) h
    rw [Progress.tryRules]
    cases happly : rule.apply context memory t with
    | mk found remembered =>
    rw [happly] at hhonest
    cases found with
    | some t' => exact ⟨.applied List.mem_cons_self h (by rw [happly]), hhonest⟩
    | none =>
      obtain ⟨hattempt, hmemory⟩ := ih hhonest
      exact ⟨hattempt.cons h (by rw [happly]), hmemory⟩

/-- One step: a tree that is left as it is, or the tree that one rule makes of it. -/
theorem step_cases (h : Honest context p.memory) : Honest context (p.step context rules).1.memory ∧
    ((p.step context rules).2 = false ∧ (p.step context rules).1.tree = p.tree ∧
        Exhausted context rules p.tree ∨
      (p.step context rules).2 = true ∧ ∃ (rule : Rule) (memory : Memory),
        (rule.apply context memory p.tree).1 = some (p.step context rules).1.tree) := by
  obtain ⟨hattempt, hmemory⟩ :
      Attempt context rules p.tree (Progress.tryRules context p.memory p.tree rules).1 ∧
        Honest context (Progress.tryRules context p.memory p.tree rules).2 := tryRules_attempt h
  unfold Progress.step
  generalize Progress.tryRules context p.memory p.tree rules = result at hattempt hmemory ⊢
  obtain ⟨found, memory'⟩ := result
  cases hattempt with
  | exhausted hrules => exact ⟨hmemory, .inl ⟨rfl, rfl, hrules⟩⟩
  | applied hrule _ happly => exact ⟨hmemory, .inr ⟨rfl, _, _, happly⟩⟩

/-- A run ends with a tree that no rule has a match in, and that has every property which one
application of a rule keeps. -/
theorem exhausted_of_settled {P : Tree → Prop}
    (hP : ∀ {rule : Rule} {memory t t'}, P t → (rule.apply context memory t).1 = some t' → P t')
    (hmemory : Honest context p.memory) (hp : P p.tree) (h : runFrom context rules fuel p = .settled q) :
    P q.tree ∧ Exhausted context rules q.tree := by
  induction fuel generalizing p with
  | zero => cases h
  | succ fuel ih =>
    have hstep := @step_cases context rules p hmemory
    rw [runFrom] at h
    generalize p.step context rules = result at hstep h
    obtain ⟨p', more⟩ := result
    obtain ⟨hmemory', ⟨hmore, htree, hrules⟩ | ⟨hmore, rule, memory, happly⟩⟩ := hstep
    · cases hmore
      cases h
      exact ⟨htree ▸ hp, htree ▸ hrules⟩
    · cases hmore
      have hp' : P p'.tree := hP hp happly
      have hrest : runFrom context rules fuel p' = .settled q := by
        dsimp only at h
        split at h
        · split at h
          · cases h
          · exact h
        · exact h
      exact ih hmemory' hp' hrest

end

/-! ### After reading again -/

def invocation (word script : String) : Tree :=
  branch .command [] [branch .commandElements [] [stringTree .bareWord word, stringTree .singleQuoted script]]

def variableNamed (name : String) : Tree := leaf .variableRef [("VariablePath", name)] none

end Unscramble
