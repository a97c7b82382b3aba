import Unscramble.Proofs.FixedPoint
import Unscramble.Proofs.Inlining.Burden
import Unscramble.Proofs.Termination

/-! Simplification with a parser comes to an end if what the parser answers has no more strings than the
script has characters, none of them as long as the script, and no command that is still to be found out
what script it runs. Each inlining takes away more burden than the answer brings in, and no other rule
adds any. Without the last condition a run may not end, as constant propagation turns a variable that an
answer brings in into the script that was inlined. -/
namespace Unscramble

open Simplify Unscramble.Tree

/-- Kinds of node that hold the text of a string. -/
def stringKind : Kind → Nat
  | .stringConstant | .expandableString => 1
  | _ => 0

/-- A parser that answers a script always the same way, and whose answers have fewer strings than the script is
long, all of them shorter than the script. -/
structure Shortens (size : String → Nat) (parser : Parser) : Prop where
  steady : parser.Steady
  strings : ∀ earlier script parsed, parser earlier script = .ok parsed →
    weigh (kindWeight stringKind) parsed < size script
  texts : ∀ earlier script parsed, parser earlier script = .ok parsed → ∀ s ∈ parsed.nodes, stringKind s.kind = 1 →
    size s.payload < size script

/-- A parser whose answers say of every command what script it runs, if any. -/
def Closed (parser : Parser) : Prop :=
  ∀ earlier script parsed, parser earlier script = .ok parsed → ∀ s ∈ parsed.nodes, isOpen s = false

/-- A parser that knows some scripts. -/
def parseKnown (scripts : List (String × Tree)) : Parser := fun _ script =>
  match scripts.find? (·.1 == script) with
  | some known => .ok known.2
  | none => .error (.document (.other "unknown script"))

theorem mem_of_parseKnown {scripts : List (String × Tree)} {earlier : List String} {script : String} {parsed : Tree}
    (h : parseKnown scripts earlier script = .ok parsed) : (script, parsed) ∈ scripts := by
  unfold parseKnown at h
  split at h
  next known hknown =>
    have hscript : known.1 = script := by simpa using List.find?_some hknown
    cases h
    exact hscript ▸ List.mem_of_find?_eq_some hknown
  next => cases h

theorem shortens_parseKnown {size : String → Nat} {scripts : List (String × Tree)}
    (h : ∀ known ∈ scripts, weigh (kindWeight stringKind) known.2 < size known.1 ∧
      ∀ s ∈ known.2.nodes, stringKind s.kind = 1 → size s.payload < size known.1) :
    Shortens size (parseKnown scripts) where
  steady _ _ _ := rfl
  strings _ _ _ hparsed := (h _ (mem_of_parseKnown hparsed)).1
  texts _ _ _ hparsed := (h _ (mem_of_parseKnown hparsed)).2

theorem closed_parseKnown {scripts : List (String × Tree)}
    (h : ∀ known ∈ scripts, ∀ s ∈ known.2.nodes, isOpen s = false) : Closed (parseKnown scripts) :=
  fun _ _ _ hparsed => h _ (mem_of_parseKnown hparsed)

/-! ### Answers -/

section
variable {size : String → Nat} {bound : Nat} {script : String} {parsed above s t t' : Tree}
  {cs new : List Tree}

theorem stringKind_of_quoting? {quoting : Quoting} (h : s.quoting? = some quoting) :
    stringKind s.kind = 1 := by
  rw [(quoting?_eq_some h).1]
  rfl

/-- The burden of a command is that of a script which is one of its elements. -/
theorem burden_le_of_closed (hopen : isOpen t = false)
    (htexts : ∀ s ∈ t.children, stringKind s.kind = 1 → size s.payload ≤ bound) :
    burden size t = 0 ∨
      (∃ s ∈ t.children, stringKind s.kind = 1) ∧ burden size t ≤ toLex (0, bound.factorial) := by
  unfold isOpen at hopen
  unfold burden elementsBurden
  split
  case isFalse => exact .inl rfl
  case isTrue hkind =>
    rw [hkind, Bool.true_and] at hopen
    split at hopen
    case h_1 | h_2 => exact .inl rfl
    case h_4 => exact .inl (if_pos (by simpa using hopen))
    case h_3 name argument hcs =>
      cases hname : isOtherName name with
      | true => exact .inl rfl
      | false =>
        simp only [hname, Bool.not_false, Bool.true_and, Option.isNone_eq_false_iff,
          Option.isSome_iff_exists] at hopen
        obtain ⟨quoting, hquoting⟩ := hopen
        have hstring := stringKind_of_quoting? hquoting
        have hsize := htexts argument (by simp [hcs]) hstring
        refine .inr ⟨⟨argument, by simp [hcs], hstring⟩, ?_⟩
        simp only [argumentBurden, hquoting, Option.isNone_some, Bool.false_eq_true, if_false]
        split
        · exact lex_nonneg _
        · exact Prod.Lex.toLex_le_toLex.mpr (.inr ⟨rfl, Nat.factorial_le hsize⟩)

theorem loadAll_le
    (h : ∀ c ∈ cs, load size c ≤ toLex (0, weighAll (kindWeight stringKind) c.children * bound)) :
    loadAll size cs ≤ toLex (0, weighAll (kindWeight stringKind) (cs.flatMap children) * bound) := by
  induction cs with
  | nil => exact lex_nonneg _
  | cons c cs ih =>
    obtain ⟨hc, hcs⟩ := List.forall_mem_cons.mp h
    rw [loadAll_cons, List.flatMap_cons, weighAll_append, Nat.add_mul]
    exact add_le_add hc (ih hcs)

theorem weighAll_flatMap_children_le {w : Element → Nat} (cs : List Tree) :
    weighAll w (cs.flatMap children) ≤ weighAll w cs ∧
      ∀ s ∈ cs, w s.element + weighAll w (cs.flatMap children) ≤ weighAll w cs := by
  induction cs with
  | nil => exact ⟨le_rfl, by simp⟩
  | cons c cs ih =>
    obtain ⟨hall, hmem⟩ := ih
    rw [List.flatMap_cons, weighAll_append, weighAll_cons, weigh_eq]
    refine ⟨by omega, fun s hs => ?_⟩
    rcases List.mem_cons.mp hs with rfl | hs
    · omega
    · have hs := hmem s hs
      omega

/-- A tree in which all scripts are known is not heavier than its strings would be as scripts. -/
theorem load_le_of_closed (t : Tree) (hopen : ∀ s ∈ t.nodes, isOpen s = false)
    (htexts : ∀ s ∈ t.nodes, stringKind s.kind = 1 → size s.payload ≤ bound) :
    load size t ≤ toLex (0, weighAll (kindWeight stringKind) t.children * bound.factorial) := by
  induction t using children_induction with
  | h e cs ih =>
    have hchildren : loadAll size cs ≤
        toLex (0, weighAll (kindWeight stringKind) (cs.flatMap children) * bound.factorial) :=
      loadAll_le fun c hc => ih c hc (fun s hs => hopen s (mem_nodes_of_child hc hs))
        fun s hs => htexts s (mem_nodes_of_child hc hs)
    obtain ⟨hall, hmem⟩ := weighAll_flatMap_children_le (w := kindWeight stringKind) cs
    rw [load_node, children_node]
    rcases burden_le_of_closed (hopen _ (mem_nodes_self _))
        fun s hs => htexts s (child_mem_nodes hs) with hzero | ⟨⟨s, hs, hstring⟩, hburden⟩
    · rw [hzero, zero_add]
      exact hchildren.trans (Prod.Lex.toLex_le_toLex.mpr (.inr ⟨rfl, Nat.mul_le_mul_right _ hall⟩))
    · refine (add_le_add hburden hchildren).trans (Prod.Lex.toLex_le_toLex.mpr (.inr ⟨rfl, ?_⟩))
      have hone : kindWeight stringKind s.element = 1 := hstring
      have hle := Nat.mul_le_mul_right bound.factorial (hmem s hs)
      rwa [hone, Nat.add_mul, Nat.one_mul] at hle

theorem load_parsed_lt {parser : Parser} (hshortens : Shortens size parser) (hclosed : Closed parser)
    (h : parser earlier script = .ok parsed) : load size parsed < toLex (0, (size script).factorial) := by
  have hcount := hshortens.strings earlier script parsed h
  obtain ⟨bound, hbound⟩ := Nat.exists_eq_add_one_of_ne_zero (Nat.ne_zero_of_lt hcount)
  have htexts : ∀ s ∈ parsed.nodes, stringKind s.kind = 1 → size s.payload ≤ bound := by
    intro s hs hstring
    have hshorter := hshortens.texts earlier script parsed h s hs hstring
    omega
  have hle := load_le_of_closed parsed (hclosed earlier script parsed h) htexts
  refine hle.trans_lt (Prod.Lex.toLex_lt_toLex.mpr (.inr ⟨rfl, ?_⟩))
  rw [hbound, Nat.factorial_succ]
  refine Nat.mul_lt_mul_of_pos_right ?_ bound.factorial_pos
  rw [weigh_eq] at hcount
  omega

/-! ### Inlining -/

theorem burden_of_literalScript? (h : literalScript? t = some script) :
    burden size t = toLex (0, (size script).factorial) := by
  unfold literalScript? at h
  split at h
  next hkind =>
    split at h
    next name argument hcs =>
      simp only [Option.ite_none_right_eq_some, Bool.and_eq_true, Bool.not_eq_true',
        Option.some.injEq] at h
      obtain ⟨⟨⟨hname, hquoting⟩, hbare⟩, rfl⟩ := h
      have hsome : argument.quoting? ≠ none := Option.isSome_iff_ne_none.mp hquoting
      simp [burden, hkind, hcs, elementsBurden, isOtherName_of_isInvokeExpression hname,
        argumentBurden, hsome, hbare]
    next => cases h
  next => cases h

theorem loadAll_grafted_lt {parser : Parser} (hshortens : Shortens size parser)
    (hclosed : Closed parser) (hparsed : parser earlier script = .ok parsed) (h : Grafted script parsed above s new) :
    loadAll size new < load size s := by
  obtain ⟨-, hnew, elements, helements, hscript⟩ := h
  calc loadAll size new ≤ loadAll size parsed.children := (drawn_scriptStatements hnew).load_le
    _ ≤ load size parsed := loadAll_children_le parsed
    _ < toLex (0, (size script).factorial) := load_parsed_lt hshortens hclosed hparsed
    _ = burden size elements := (burden_of_literalScript? hscript).symm
    _ ≤ load size elements := by
      rw [← node_eta elements, load_node]
      exact le_add_of_nonneg_right (lex_nonneg _)
    _ ≤ loadAll size [s] := load_le_of_mem (by simpa [nodesAll] using helements)
    _ = load size s := loadAll_singleton s

/-- A script that is run is heavier than what comes out of it. -/
theorem load_graft_lt {parser : Parser} (hshortens : Shortens size parser) (hclosed : Closed parser)
    (hparsed : parser earlier script = .ok parsed) (h : Within (Splice (Grafted script parsed)) t t') :
    load size t' < load size t := by
  refine (h.load_lt fun s s' hsplice => ?_).2
  obtain @⟨e, before, s, new, after, hgrafted⟩ := hsplice
  have hlt := loadAll_grafted_lt hshortens hclosed hparsed hgrafted
  have hkind : e.kind = .statements := by
    obtain ⟨hkind, -⟩ := hgrafted
    exact hkind
  refine ⟨.of_element e _ _, ?_⟩
  rw [load_node, load_node, burden_of_kind (by simp [hkind]), burden_of_kind (by simp [hkind]),
    loadAll_append, loadAll_append, loadAll_append, loadAll_cons, add_assoc]
  exact add_lt_add_right (add_lt_add_right (add_lt_add_left hlt _) _) _

end

/-! ### One application -/

section
variable {size : String → Nat} {context : Context} {memory : Memory} {rule : Rule} {t t' : Tree}
  (hparser : ∀ parser ∈ context.parser, Shortens size parser ∧ Closed parser)
include hparser

theorem Rule.apply_load_le (h : (rule.apply context memory t).1 = some t') :
    load size t' ≤ load size t := by
  cases Rule.apply_application h with
  | steps hchanges => exact (hchanges.lighter fun _ _ h => h.lighter).load
  | spelling hchanges => exact (hchanges.lighter fun _ _ h => h.lighter).load
  | graft hsome hparsed hwithin =>
    obtain ⟨hshortens, hclosed⟩ := hparser _ hsome
    exact (load_graft_lt hshortens hclosed hparsed hwithin).le

theorem inlineInvokeExpression_load_lt (h : (inlineInvokeExpression context memory t).1 = some t') :
    load size t' < load size t := by
  obtain ⟨parser, earlier, script, parsed, hsome, hparsed, hwithin⟩ := inlineInvokeExpression_within h
  obtain ⟨hshortens, hclosed⟩ := hparser parser hsome
  exact load_graft_lt hshortens hclosed hparsed hwithin

/-- A lighter tree, or one that is as heavy with one of the measures smaller. -/
def Easier (size : String → Nat) (threshold : Nat) (t' t : Tree) : Prop :=
  Prod.Lex (· < ·) (Smaller threshold) (load size t', t') (load size t, t)

omit hparser in
theorem wellFounded_easier (size : String → Nat) (threshold : Nat) :
    WellFounded (Easier size threshold) :=
  InvImage.wf (fun t => (load size t, t)) <|
    WellFounded.prod_lex wellFounded_lt (wellFounded_smaller threshold)

/-- Every rule makes a tree easier, unless there are so many new names that they are long themselves. -/
theorem Rule.apply_easier (hthreshold : 30 ≤ context.settings.renameThreshold)
    (hgenerated : Generated memory) (h : (rule.apply context memory t).1 = some t') :
    Easier size context.settings.renameThreshold t' t ∨
      2 ^ 63 ≤ (rule.apply context memory t).2.next := by
  rcases eq_or_ne rule .inlineInvokeExpression with rfl | hinline
  · exact .inl (.left _ _ (inlineInvokeExpression_load_lt hparser h))
  have hload : load size t' ≤ load size t := Rule.apply_load_le hparser h
  rcases eq_or_ne rule .renameLongNames with rfl | hname
  · refine or_iff_not_imp_right.mpr fun hnext => lex_of_le hload ?_
    have hnext : (Simplify.renameLongNames context.settings.renameThreshold memory t).2.next < 2 ^ 63 :=
      Nat.not_le.mp hnext
    exact .rename (renameLongNames_some hthreshold hgenerated (by omega) h).2 h
  · exact .inl (lex_of_le hload (rule.apply_simpler hinline hname hthreshold h).smaller)

end

/-! ### Runs -/

section
variable {context : Context} {memory : Memory} {rule : Rule} {rules : List Rule} {t : Tree}

theorem inlineFirst_generated {parser : Parser} {candidates : List (Place × String)} (h : Generated memory) :
    Generated (inlineFirst parser memory candidates).2 := by
  induction candidates generalizing memory with
  | nil => exact h
  | cons candidate rest ih =>
    rw [inlineFirst]
    split
    exacts [h, ih h]

theorem Rule.apply_generated (h : Generated memory) : Generated (rule.apply context memory t).2 := by
  rcases eq_or_ne rule .inlineInvokeExpression with rfl | hinline
  · rw [apply, Simplify.inlineInvokeExpression]
    split
    exacts [inlineFirst_generated h, h]
  rcases eq_or_ne rule .renameLongNames with rfl | hname
  · exact h.rename
  · rwa [rule.apply_memory hinline hname]

/-- The rule that is applied in a step starts from what the rules before it remember. -/
theorem tryRules_generated (h : Generated memory) :
    Generated (Progress.tryRules context memory t rules).2 ∧
      ∀ rule t', (Progress.tryRules context memory t rules).1 = some (rule, t') →
        ∃ before, Generated before ∧
          rule.apply context before t = (some t', (Progress.tryRules context memory t rules).2) := by
  induction rules generalizing memory with
  | nil => exact ⟨h, by simp [Progress.tryRules]⟩
  | cons first rules ih =>
    have hfirst : Generated (first.apply context memory t).2 := Rule.apply_generated h
    rw [Progress.tryRules]
    cases happly : first.apply context memory t with
    | mk found remembered =>
    rw [happly] at hfirst
    cases found with
    | none => exact ih hfirst
    | some new =>
      refine ⟨hfirst, fun rule t' heq => ⟨memory, h, ?_⟩⟩
      cases heq
      exact happly

/-- A run ends, or gives so many new names that they are long themselves. -/
theorem runFrom_settles_or {size : String → Nat}
    (hparser : ∀ parser ∈ context.parser, Shortens size parser ∧ Closed parser)
    (hthreshold : 30 ≤ context.settings.renameThreshold) (hlimit : context.settings.maxSteps = none)
    (p : Progress) (h : Generated p.memory) :
    (∃ n q, ∀ fuel, n ≤ fuel → runFrom context rules fuel p = .settled q) ∨
      ∃ fuel, 2 ^ 63 ≤ (runFrom context rules fuel p).progress.memory.next := by
  have hstep : ∀ memory t rule t' remembered, Generated memory →
      Progress.tryRules context memory t rules = (some (rule, t'), remembered) →
        Easier size context.settings.renameThreshold t' t ∧ Generated remembered ∨
          2 ^ 63 ≤ remembered.next := by
    intro memory t rule t' remembered h htry
    obtain ⟨hgenerated, hfound⟩ := @tryRules_generated context memory rules t h
    rw [htry] at hgenerated hfound
    obtain ⟨before, hbefore, happly⟩ := hfound rule t' rfl
    have heasier := Rule.apply_easier hparser hthreshold hbefore (congrArg Prod.fst happly)
    rw [happly] at heasier
    exact heasier.imp_left fun heasier => ⟨heasier, hgenerated⟩
  have hends := runFrom_ends (I := fun memory _ => Generated memory) (Q := fun memory => 2 ^ 63 ≤ memory.next)
    (wellFounded_easier size context.settings.renameThreshold) hlimit hstep p h
  exact hends.imp_left fun ⟨n, q, _, hn, _⟩ => ⟨n, q, hn⟩

/-- With a parser whose answers are short and leave no command open, and without a limit, a run comes to
a tree that no rule has a match in. Only a run that gives `2 ^ 63` new names may go on: it uses up all
numbers of a machine, and longer numbers would make new names long. -/
theorem optimize_settles_of_closed (size : String → Nat)
    (hparser : ∀ parser ∈ context.parser, Shortens size parser ∧ Closed parser)
    (hthreshold : 30 ≤ context.settings.renameThreshold) (hlimit : context.settings.maxSteps = none) :
    (∃ n p, (∀ fuel, n ≤ fuel → optimize context fuel t = .settled p) ∧
        Idle context Rule.catalog p.tree) ∨
      ∃ fuel, 2 ^ 63 ≤ (optimize context fuel t).progress.memory.next := by
  have hstart : Generated ({} : Memory) := by simp [Generated]
  refine (runFrom_settles_or hparser hthreshold hlimit { tree := t } hstart).imp_left ?_
  rintro ⟨n, p, hn⟩
  have hexhausted := exhausted_of_settled (P := fun _ => True) (fun _ _ => trivial) (honest_nothing context)
    trivial (hn n le_rfl)
  exact ⟨n, p, hn, hexhausted.2.idle fun parser hsome => (hparser parser hsome).1.steady⟩

end

def commandOf (elements : List Tree) : Tree := branch .command [] [branch .commandElements [] elements]

/-- A script in a script. -/
theorem optimize_settles_nested :
    let context : Context := { parser := some (parseKnown
      [("iex 'dir x'", scriptOf [commandOf [stringTree .bareWord "iex", stringTree .singleQuoted "dir x"]]),
        ("dir x", scriptOf [commandOf [stringTree .bareWord "dir", stringTree .bareWord "x"]])]) }
    let t := scriptOf [commandOf [stringTree .bareWord "iex", stringTree .singleQuoted "iex 'dir x'"]]
    (∀ parser ∈ context.parser, Shortens String.length parser ∧ Closed parser) ∧
      30 ≤ context.settings.renameThreshold ∧ context.settings.maxSteps = none ∧
      ((∃ n p, (∀ fuel, n ≤ fuel → optimize context fuel t = .settled p) ∧
          Idle context Rule.catalog p.tree) ∨
        ∃ fuel, 2 ^ 63 ≤ (optimize context fuel t).progress.memory.next) := by
  intro context t
  have hparser : ∀ parser ∈ context.parser, Shortens String.length parser ∧ Closed parser := by
    rintro _ ⟨⟩
    exact ⟨shortens_parseKnown (by decide +kernel), closed_parseKnown (by decide +kernel)⟩
  have hthreshold : 30 ≤ context.settings.renameThreshold := by decide
  exact ⟨hparser, hthreshold, rfl, optimize_settles_of_closed String.length hparser hthreshold rfl⟩

/-! ### A run without an end -/

/-- Memory of a run in front of which some scripts were submitted. -/
def Simplify.Memory.after (memory : Memory) (scripts : List String) : Memory :=
  { memory with submitted := scripts ++ memory.submitted }

section
variable {context : Context} {memory : Memory} {rules : List Rule} {t : Tree}

theorem inlineFirst_after {parser : Parser} (hsteady : parser.Steady) (scripts : List String)
    (candidates : List (Place × String)) :
    inlineFirst parser (memory.after scripts) candidates =
      ((inlineFirst parser memory candidates).1,
        (inlineFirst parser memory candidates).2.after scripts) := by
  induction candidates generalizing memory with
  | nil => rfl
  | cons candidate rest ih =>
    have hsubmitted : scripts ++ memory.submitted ++ [candidate.2] =
        scripts ++ (memory.submitted ++ [candidate.2]) := List.append_assoc ..
    rw [inlineFirst, inlineFirst]
    dsimp only [Memory.after]
    rw [hsubmitted, hsteady (scripts ++ memory.submitted) memory.submitted]
    split
    · rfl
    · exact @ih { memory with
        rejected := candidate.2 :: memory.rejected
        submitted := memory.submitted ++ [candidate.2] }

theorem foldl_addReplacement_after (scripts taken names : List String) :
    names.foldl (addReplacement taken) (memory.after scripts) =
      (names.foldl (addReplacement taken) memory).after scripts := by
  induction names generalizing memory with
  | nil => rfl
  | cons name names ih =>
    have hfirst : addReplacement taken (memory.after scripts) name =
        (addReplacement taken memory name).after scripts := by
      unfold addReplacement
      rw [apply_ite (Memory.after · scripts)]
      rfl
    rw [List.foldl_cons, List.foldl_cons, hfirst, ih]

/-- No rule minds what was submitted before. -/
theorem Rule.apply_after (rule : Rule) (hsteady : ∀ parser ∈ context.parser, parser.Steady)
    (scripts : List String) :
    rule.apply context (memory.after scripts) t =
      ((rule.apply context memory t).1, (rule.apply context memory t).2.after scripts) := by
  cases rule with
  | inlineInvokeExpression =>
    rw [apply, apply, Simplify.inlineInvokeExpression, Simplify.inlineInvokeExpression]
    split
    next parser _ hparser => exact inlineFirst_after (hsteady parser hparser) scripts _
    next => rfl
  | renameLongNames =>
    rw [apply, apply, Simplify.renameLongNames, Simplify.renameLongNames]
    dsimp only
    rw [foldl_addReplacement_after]
    rfl
  | _ => rfl

theorem tryRules_after (hsteady : ∀ parser ∈ context.parser, parser.Steady) (scripts : List String) :
    Progress.tryRules context (memory.after scripts) t rules =
      ((Progress.tryRules context memory t rules).1,
        (Progress.tryRules context memory t rules).2.after scripts) := by
  induction rules generalizing memory with
  | nil => rfl
  | cons rule rules ih =>
    rw [Progress.tryRules, Progress.tryRules, rule.apply_after hsteady]
    cases rule.apply context memory t with
    | mk found remembered =>
    cases found with
    | some t' => rfl
    | none => exact ih

/-- A run does not end if there is always a rule to apply that remembers nothing but scripts. -/
theorem runFrom_unfinished {P : Tree → Prop} (hsteady : ∀ parser ∈ context.parser, parser.Steady)
    (hlimit : context.settings.maxSteps = none)
    (hstep : ∀ t, P t → ∃ rule t' scripts, P t' ∧
      Progress.tryRules context {} t rules = (some (rule, t'), Memory.after {} scripts))
    {p : Progress} (hp : P p.tree) {scripts : List String} (hmemory : p.memory = Memory.after {} scripts)
    (fuel : Nat) : ∃ q, runFrom context rules fuel p = .unfinished q := by
  induction fuel generalizing p scripts with
  | zero => exact ⟨p, rfl⟩
  | succ fuel ih =>
    obtain ⟨rule, t', more, ht', htry⟩ := hstep p.tree hp
    have hmore : (Memory.after {} more).after scripts = Memory.after {} (scripts ++ more) :=
      congrArg (fun submitted => { ({} : Memory) with submitted }) (by simp [Memory.after])
    have hnext : Progress.tryRules context p.memory p.tree rules =
        (some (rule, t'), Memory.after {} (scripts ++ more)) := by
      rw [hmemory, tryRules_after hsteady, htry, hmore]
    obtain ⟨q, hq⟩ := ih (p := ⟨t', Memory.after {} (scripts ++ more), rule :: p.applied⟩) ht' rfl
    exact ⟨q, by simpa [runFrom, Progress.step, hnext, hlimit] using hq⟩

end

/-- A script that runs what a variable holds. -/
def scriptOfVariable : String := "Invoke-Expression $x"

/-- A variable is set to that script, a command runs its argument, and the variable is counted up. -/
def runningVariable (argument : Tree) : Tree :=
  scriptOf [
    branch .assignment [("Operator", "Equals")]
      [variableNamed "x", branch .commandExpression [] [stringTree .singleQuoted scriptOfVariable]],
    commandOf [stringTree .bareWord "Invoke-Expression", argument],
    branch .commandExpression []
      [branch .unaryExpression [("TokenKind", "PostfixPlusPlus")] [variableNamed "x"]]]

/-- Two rules undo each other without an end: the variable is replaced by the script, and the script by
a command that runs the variable. -/
theorem optimize_unfinished :
    let parser := parseKnown
      [(scriptOfVariable, scriptOf [commandOf [stringTree .bareWord "Invoke-Expression", variableNamed "x"]])]
    let context : Context := { parser := some parser }
    let t := runningVariable (variableNamed "x")
    t.size < 2 ^ 63 ∧ 30 ≤ context.settings.renameThreshold ∧
      context.settings.inlineInvokeExpression = true ∧ context.settings.maxSteps = none ∧
      Shortens String.length parser ∧ ∀ fuel, ∃ p, optimize context fuel t = .unfinished p := by
  intro parser context t
  let t' := runningVariable (stringTree .doubleQuoted scriptOfVariable)
  have hparser : Shortens String.length parser := shortens_parseKnown (by decide +kernel)
  have hpropagate : Progress.tryRules context {} t Rule.catalog =
      (some (.propagateConstants, t'), Memory.after {} []) := by
    decide +kernel
  have hinline : Progress.tryRules context {} t' Rule.catalog =
      (some (.inlineInvokeExpression, t), Memory.after {} [scriptOfVariable]) := by
    decide +kernel
  have hsteady : ∀ parser ∈ context.parser, parser.Steady := by
    rintro _ ⟨⟩
    exact hparser.steady
  refine ⟨by decide, by decide, rfl, rfl, hparser, fun fuel => ?_⟩
  refine runFrom_unfinished (P := fun s => s = t ∨ s = t') hsteady rfl (fun s hs => ?_) (.inl rfl)
    (show ({ tree := t } : Progress).memory = Memory.after {} [] from rfl) fuel
  rcases hs with rfl | rfl
  · exact ⟨_, _, _, .inr rfl, hpropagate⟩
  · exact ⟨_, _, _, .inl rfl, hinline⟩

end Unscramble
