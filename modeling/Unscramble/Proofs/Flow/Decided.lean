import Unscramble.Proofs.Flow.Exits

/-! A construct that is decided means the same as the statements that take its place, or as the
construct with the children that it keeps. -/
namespace Unscramble.Flow

open Simplify Unscramble.Tree

section
variable {S : Type*} {I : Interpretation S}

theorem truth_of_static {guard : Tree} {b : Bool} (h : staticTruth? guard = some b) :
    I.truth guard = constant b := by rw [Interpretation.truth, h]

/-! ### Conditionals -/

/-- The arms that are left are arms of the conditional, and the last block is one of its blocks. -/
theorem liveArms_subset (last : Option Tree) (pairs : List (Tree × Tree)) :
    (∀ p ∈ (liveArms last pairs).1, p ∈ pairs) ∧
      ∀ b ∈ (liveArms last pairs).2.1, b ∈ pairs.map (·.2) ++ last.toList := by
  induction pairs with
  | nil => simp [liveArms]
  | cons pair pairs ih =>
    obtain ⟨guard, body⟩ := pair
    rw [liveArms]
    split
    next => simp
    next =>
      exact ⟨fun p hp => List.mem_cons_of_mem _ (ih.1 p hp),
        fun b hb => List.mem_cons_of_mem _ (ih.2 b hb)⟩
    next =>
      refine ⟨List.forall_mem_cons.mpr ⟨by simp, fun p hp => List.mem_cons_of_mem _ (ih.1 p hp)⟩,
        fun b hb => List.mem_cons_of_mem _ (ih.2 b hb)⟩

theorem liveArms_meaning (last : Option Tree) (pairs : List (Tree × Tree)) :
    I.arms (ofArms (liveArms last pairs).1 (liveArms last pairs).2.1) =
      I.arms (ofArms pairs last) := by
  induction pairs with
  | nil => rfl
  | cons pair pairs ih =>
    obtain ⟨guard, body⟩ := pair
    rw [liveArms, Interpretation.arms_cons]
    split
    next h => rw [truth_of_static h, choose_true, Interpretation.arms_nil, Option.map_some,
        Option.getD_some]
    next h => rw [truth_of_static h, choose_false, ← ih]
    next => rw [Interpretation.arms_cons, ih]

/-- What is put in the place of a statement. -/
structure Replaces (I : Interpretation S) (s : Tree) (new : List Tree) : Prop where
  statement : ∀ u ∈ new, Statement u
  meaning : I.statements new = I.meaning s

theorem decideIf?_sound {e : Element} {pairs : List (Tree × Tree)} {last : Option Tree}
    (hkind : e.kind = .ifElse)
    (hblocks : ∀ b ∈ pairs.map (·.2) ++ last.toList, isBlock b = true)
    (hbodies : ∀ b ∈ pairs.map (·.2) ++ last.toList, ∀ s ∈ b.statements, Statement s)
    {new : List Tree} (h : decideIf? (.node e (ofArms pairs last)) = some (.splice new)) :
    Replaces I (.node e (ofArms pairs last)) new := by
  have hsubset := liveArms_subset last pairs
  have hmeaning := liveArms_meaning (I := I) last pairs
  obtain ⟨hkept, rfl⟩ := decideIf?_eq_splice (children_node e _) h
  rw [hkept, Interpretation.arms_nil, ← Interpretation.meaning_ifElse hkind] at hmeaning
  cases hlast : (liveArms last pairs).2.1 with
  | none => exact ⟨by simp, by simpa [hlast, Interpretation.statements] using hmeaning⟩
  | some b =>
    have hb := hsubset.2 b hlast
    refine ⟨hbodies b hb, ?_⟩
    rw [← hmeaning, hlast, Option.map_some, Option.getD_some, Option.map_some, Option.getD_some,
      Interpretation.block_eq (hblocks b hb)]

theorem decideIf?_keeps {e : Element} {pairs : List (Tree × Tree)} {last : Option Tree}
    (hkind : e.kind = .ifElse) (hguards : ∀ p ∈ pairs, isFlat p.1 = true)
    (hblocks : ∀ b ∈ pairs.map (·.2) ++ last.toList, isBlock b = true)
    (hbodies : ∀ b ∈ pairs.map (·.2) ++ last.toList, ∀ s ∈ b.statements, Statement s)
    {cs : List Tree} (h : decideIf? (.node e (ofArms pairs last)) = some (.retain cs)) :
    Statement (.node e cs) ∧ I.meaning (.node e cs) = I.meaning (.node e (ofArms pairs last)) := by
  have hsubset := liveArms_subset last pairs
  have hmeaning := liveArms_meaning (I := I) last pairs
  obtain ⟨-, -, rfl⟩ := decideIf?_eq_retain (children_node e _) h
  rw [Interpretation.meaning_ifElse hkind, Interpretation.meaning_ifElse hkind]
  have hmem (b : Tree) (hb : b ∈ (liveArms last pairs).1.map (·.2) ++
      (liveArms last pairs).2.1.toList) : b ∈ pairs.map (·.2) ++ last.toList := by
    rw [List.mem_append, List.mem_map, Option.mem_toList] at hb
    rcases hb with ⟨p, hp, rfl⟩ | hb
    · exact List.mem_append_left _ (List.mem_map_of_mem (hsubset.1 p hp))
    · exact hsubset.2 b hb
  exact ⟨.ifElse hkind (fun p hp => hguards p (hsubset.1 p hp)) (fun b hb => hblocks b (hmem b hb))
    fun b hb => hbodies b (hmem b hb), hmeaning⟩

/-! ### Loops -/

theorem conditional_statement {guard : Tree} {new : List Tree} (hguard : isFlat guard = true)
    (hnew : ∀ s ∈ new, Statement s) : Statement (conditional guard new) := by
  let block := branch .statementBlock [] [branch .statements [] new]
  refine @Statement.ifElse ⟨.ifElse, .ofList [], none⟩ [(guard, block)] none rfl ?_ ?_ ?_
  · simpa using hguard
  · simp [block, isBlock, branch]
  · simpa [block, branch, Tree.statements, listOf, childOf?, Tree.is] using hnew

theorem conditional_meaning (guard : Tree) (new : List Tree) :
    I.meaning (conditional guard new) = choose (I.truth guard) (I.statements new) skip := by
  rw [conditional, branch, Interpretation.meaning_ifElse rfl]
  simp [Interpretation.arms, branch, Interpretation.block]

variable {e : Element} {guard body : Tree} {new : List Tree}

theorem decideWhile?_sound (hkind : e.kind = .whileLoop) (hguard : isFlat guard = true)
    (hblock : isBlock body = true) (hbody : ∀ s ∈ body.statements, Statement s)
    (hcalm : ∀ s ∈ body.statements, I.Calm s)
    (h : decideWhile? (.node e [guard, body]) = some (.splice new)) :
    Replaces I (.node e [guard, body]) new := by
  simp only [decideWhile?, children_node] at h
  split at h
  next hnever =>
    cases h
    refine ⟨by simp, ?_⟩
    rw [Interpretation.meaning_while hkind, truth_of_static (by simpa using hnever), loop_never]
    rfl
  next =>
    obtain ⟨pass, hpass, heq⟩ := Option.map_eq_some_iff.mp h
    cases heq
    obtain ⟨hmem, hquiet, heq⟩ := singlePass?_block hblock hbody hcalm hpass
    refine ⟨?_, ?_⟩
    · simpa using conditional_statement hguard fun s hs => hbody s (hmem s hs)
    · rw [List.nil_append, Interpretation.statements, Interpretation.statements, andThen_skip,
        conditional_meaning, Interpretation.meaning_while hkind, heq, loop_testing,
        loop_leaving hquiet]

/-- The body of a loop that tests its condition at the end, if the condition ends it. -/
theorem decideDo?_sound {stop : Bool} {s : Tree} {c : Test S} {label : Option String}
    (hblock : isBlock body = true) (hbody : ∀ s ∈ body.statements, Statement s)
    (hcalm : ∀ s ∈ body.statements, I.Calm s) (hs : s.children = [guard, body])
    (hmeaning : I.meaning s = Loop label c skip (I.block body) .running)
    (hc : staticTruth? guard = some stop → c = constant false)
    (h : decideDo? stop s = some (.splice new)) : Replaces I s new := by
  have once (h : (singlePass? body).map Outcome.splice = some (.splice new)) :
      Replaces I s new := by
    obtain ⟨pass, hpass, heq⟩ := Option.map_eq_some_iff.mp h
    cases heq
    obtain ⟨hmem, hquiet, heq⟩ := singlePass?_block hblock hbody hcalm hpass
    refine ⟨fun s hs => hbody s (hmem s hs), ?_⟩
    rw [hmeaning, heq, loop_leaving hquiet]
  simp only [decideDo?, hs] at h
  split at h
  next hstop =>
    obtain ⟨n, hn, h⟩ := Option.bind_eq_some_iff.mp h
    split at h
    next hzero =>
      cases h
      rw [(exits?_block hblock).2, beq_iff_eq.mp hzero] at hn
      have hquiet := quiet_statements hbody hcalm hn
      refine ⟨hbody, ?_⟩
      rw [hmeaning, hc (beq_iff_eq.mp hstop), Interpretation.block_eq hblock, loop_once hquiet]
    next => exact once h
  next => exact once h

theorem decideFor?_sound {first test step : Tree} (hkind : e.kind = .forLoop)
    (hfirst : isFlat first = true) (htest : isFlat test = true) (hblock : isBlock body = true)
    (hbody : ∀ s ∈ body.statements, Statement s) (hcalm : ∀ s ∈ body.statements, I.Calm s)
    (h : decideFor? (.node e [first, test, step, body]) = some (.splice new)) :
    Replaces I (.node e [first, test, step, body]) new := by
  have hinit : ∀ s ∈ first.children, Statement s := fun s hs => .flat (isFlat_child hfirst hs)
  simp only [decideFor?, children_node] at h
  split at h
  next hnever =>
    cases h
    refine ⟨hinit, ?_⟩
    obtain ⟨guard, hguard, hfalse⟩ := (Option.any_eq_true _ _).mp hnever
    rw [Interpretation.meaning_for hkind, hguard, Interpretation.truth?, Option.map_some,
      Option.getD_some, truth_of_static (beq_iff_eq.mp hfalse), loop_never, andThen_skip]
  next =>
    obtain ⟨pass, hpass, heq⟩ := Option.map_eq_some_iff.mp h
    obtain ⟨hmem, hquiet, hbodyEq⟩ := singlePass?_block hblock hbody hcalm hpass
    simp only [once, Outcome.splice.injEq] at heq
    subst heq
    have hpassed : ∀ s ∈ pass, Statement s := fun s hs => hbody s (hmem s hs)
    constructor
    · rw [List.forall_mem_append]
      refine ⟨hinit, ?_⟩
      cases hguard : test.children.head? with
      | none => exact hpassed
      | some guard =>
        have hflat := isFlat_child htest (List.mem_of_mem_head? hguard)
        simpa using conditional_statement hflat hpassed
    · rw [Interpretation.statements_append, Interpretation.meaning_for hkind, hbodyEq,
        loop_testing, loop_leaving hquiet]
      congr 1
      cases test.children.head? with
      | none => simp [Interpretation.truth?]
      | some guard => simp [Interpretation.truth?, Interpretation.statements, conditional_meaning]

/-! ### `switch` -/

/-- The statements of the clauses that match are those of the chosen bodies. -/
theorem matchingClauses?_chosen {subject : Value} {clauses : List Tree} {lists : List (List Tree)}
    (hclauses : ∀ clause ∈ clauses, isClause clause = true)
    (h : matchingClauses? subject clauses = some lists) :
    ∃ hits, (tests clauses).mapM (hit? subject) = some hits ∧ hits.any id = !lists.isEmpty ∧
      I.statements lists.flatten = chosen hits ((bodies clauses).map I.block) ∧
      ∀ u ∈ lists.flatten, ∃ b ∈ bodies clauses, u ∈ b.statements := by
  induction clauses generalizing lists with
  | nil =>
    simp only [matchingClauses?, Option.some.injEq] at h
    subst h
    exact ⟨[], by simp [tests], by simp, by simp [Interpretation.statements, chosen], by simp⟩
  | cons clause clauses ih =>
    obtain ⟨hclause, hclauses⟩ := List.forall_mem_cons.mp hclauses
    simp only [matchingClauses?, Option.bind_eq_some_iff, Option.map_eq_some_iff] at h
    obtain ⟨test, htest, scalar, hscalar, hit, hhit, body, hbody, rest, hrest, rfl⟩ := h
    obtain ⟨hits, hhits, hany, hmeaning, hmem⟩ := ih hclauses hrest
    have hfirst : hit? subject clause.children.head? = some hit := by
      simp [hit?, htest, hscalar, hhit]
    refine ⟨hit :: hits, ?_, ?_⟩
    · rw [show tests (clause :: clauses) = clause.children.head? :: tests clauses from rfl,
        List.mapM_cons, hfirst, hhits]
      rfl
    unfold isClause at hclause
    split at hclause
    next c first block =>
      have hcons : bodies (.node c [first, block] :: clauses) = block :: bodies clauses := rfl
      have hrest (u : Tree) (hu : u ∈ rest.flatten) : ∃ b ∈ block :: bodies clauses,
          u ∈ b.statements := (hmem u hu).imp fun b hb => ⟨List.mem_cons_of_mem _ hb.1, hb.2⟩
      rw [hcons, List.map_cons]
      cases hit with
      | false =>
        cases hbody
        exact ⟨hany, hmeaning, hrest⟩
      | true =>
        simp only [if_true, child?, children_node, List.getElem?_cons_succ, List.getElem?_cons_zero,
          Option.map_some, Option.some.injEq] at hbody
        subst hbody
        simp only [Bool.and_eq_true] at hclause
        refine ⟨rfl, ?_, ?_⟩
        · simp [chosen, hmeaning, Interpretation.block_eq hclause.2]
        · intro u hu
          simp only [List.singleton_append, List.flatten_cons, List.mem_append] at hu
          exact hu.elim (fun hu => ⟨block, List.mem_cons_self .., hu⟩) (hrest u)
    next => cases hclause

theorem decideSwitch?_sound {subject : Tree} {c : Element} {clauses : List Tree}
    {other : Option Tree} (hkind : e.kind = .switchStatement) (hnot : subject.kind ≠ .clauses)
    (hnot' : subject.kind ≠ .statementBlock) (hc : c.kind = .clauses)
    (hclauses : ∀ clause ∈ clauses, isClause clause = true)
    (hother : ∀ b ∈ other, isBlock b = true)
    (hbodies : ∀ b ∈ bodies clauses ++ other.toList, ∀ s ∈ b.statements, Statement s)
    (hcalm : ∀ b ∈ bodies clauses ++ other.toList, ∀ s ∈ b.statements, I.Calm s)
    (h : decideSwitch? (.node e (subject :: .node c clauses :: other.toList)) =
      some (.splice new)) :
    Replaces I (.node e (subject :: .node c clauses :: other.toList)) new := by
  have hclausesOf : childOf? (.node e (subject :: .node c clauses :: other.toList)) .clauses =
      some (.node c clauses) := by
    simp [childOf?, Tree.is, hnot, hc]
  have hotherOf : childOf? (.node e (subject :: .node c clauses :: other.toList)) .statementBlock =
      other := by
    cases other with
    | none => simp [childOf?, Tree.is, hnot', hc]
    | some b =>
      obtain ⟨b, _, _, rfl, hb, -⟩ := exists_of_isBlock (hother b rfl)
      simp [childOf?, Tree.is, hnot', hc, hb]
  simp only [decideSwitch?, Option.ite_none_left_eq_some, Option.bind_eq_some_iff,
    Option.map_eq_some_iff, hclausesOf, hotherOf, children_node, List.head?_cons,
    Option.some.injEq, List.any_eq_true, not_exists, not_and, Bool.or_eq_true, not_or] at h
  obtain ⟨hflags, _, rfl, v, hv, _, rfl, hexits, lists, hlists, heq⟩ := h
  cases heq
  obtain ⟨hits, hhits, hany, hmeaning, hmem⟩ := matchingClauses?_chosen (I := I) hclauses hlists
  have hblock (b : Tree) (hb : b ∈ bodies clauses ++ other.toList) : isBlock b = true :=
    (List.mem_append.mp hb).elim (fun hb => (isBlock_of_mem_bodies hclauses hb).1)
      fun hb => hother b (by simpa using hb)
  have hquiet (b : Tree) (hb : b ∈ bodies clauses ++ other.toList) : Quiet (I.block b) := by
    have hnone : loopExits? b = some 0 := by simpa using (hexits b hb).1
    rw [(exits?_block (hblock b hb)).2] at hnone
    rw [Interpretation.block_eq (hblock b hb)]
    exact quiet_statements (hbodies b hb) (hcalm b hb) hnone
  have hdecided : hits? e subject (tests clauses) = some hits := by
    rw [hits?, if_pos (by simpa [Tree.attr?] using hflags), hv, Option.bind_some, hhits]
  rw [List.forall_mem_append] at hquiet hbodies
  constructor
  · intro u hu
    split at hu
    next =>
      cases other with
      | none => simp at hu
      | some b => exact hbodies.2 b (by simp) u hu
    next =>
      obtain ⟨b, hb, hu⟩ := hmem u hu
      exact hbodies.1 b hb u hu
  · rw [Interpretation.meaning_switch hkind, hdecided, Interpretation.clauses_eq hclauses,
      Interpretation.blocks_eq]
    cases hempty : lists.isEmpty with
    | true =>
      simp only [hany, hempty, Bool.not_true, Bool.false_eq_true, if_false, if_true]
      cases other with
      | none => exact (catching_quiet (.skip rfl)).symm
      | some b =>
        have hb := hquiet.2 b (by simp)
        exact (Interpretation.block_eq (hother b rfl)).symm.trans (catching_quiet hb).symm
    | false =>
      simp only [hany, hempty, Bool.not_false, Bool.false_eq_true, if_false, if_true]
      rw [hmeaning, catching_quiet (.chosen rfl ?_)]
      intro m hm
      obtain ⟨b, hb, rfl⟩ := List.mem_map.mp hm
      exact hquiet.1 b hb

/-! ### All constructs -/

theorem decide?_compound {s : Tree} {o : Simplify.Outcome} (h : decide? s = some o) :
    isCompound s.kind = true := by
  unfold decide? at h
  split at h
  case h_7 => cases h
  all_goals simp [isCompound, *]

theorem decide?_retain_kind {s : Tree} {cs : List Tree} (h : decide? s = some (.retain cs)) :
    s.kind = .ifElse := by
  have hupdate := decide?_retain h
  generalize s.withChildren cs = s' at hupdate
  cases hupdate with
  | arms hkind => exact hkind

/-- Whatever takes the place of a construct means the same. -/
theorem Statement.decided {s : Tree} (hs : Statement s) (hcalm : I.Calm s)
    (h : decide? s = some (.splice new)) : Replaces I s new := by
  cases hs with
  | flat hflat =>
    have hcompound := decide?_compound h
    simp only [isFlat, List.all_eq_true, Bool.not_eq_true'] at hflat
    rw [hflat s (mem_nodes_self s)] at hcompound
    cases hcompound
  | @ifElse e pairs last hkind _ hblocks hbodies =>
    simp only [decide?, kind_node, hkind] at h
    exact decideIf?_sound hkind hblocks hbodies h
  | @loop e guard body hkind hguard hblock hbody =>
    have hcalm (s : Tree) (hs : s ∈ body.statements) : I.Calm s :=
      hcalm.of_mem (mem_nodes_of_statements (child_mem_nodes (by simp)) hs)
    rcases hkind with hkind | hkind | hkind <;> simp only [decide?, kind_node, hkind] at h
    · exact decideWhile?_sound hkind hguard hblock hbody hcalm h
    · exact decideDo?_sound hblock hbody hcalm rfl (Interpretation.meaning_doWhile hkind)
        truth_of_static h
    · refine decideDo?_sound hblock hbody hcalm rfl (Interpretation.meaning_doUntil hkind)
        (fun h => ?_) h
      rw [truth_of_static h, negate_constant, Bool.not_true]
  | @forLoop e first test step body hkind _ _ _ hfirst htest _ hblock hbody =>
    have hcalm (s : Tree) (hs : s ∈ body.statements) : I.Calm s :=
      hcalm.of_mem (mem_nodes_of_statements (child_mem_nodes (by simp)) hs)
    simp only [decide?, kind_node, hkind] at h
    exact decideFor?_sound hkind hfirst htest hblock hbody hcalm h
  | @switch e subject c clauses other hkind _ hnot hnot' hc hclauses hother hbodies =>
    simp only [decide?, kind_node, hkind] at h
    refine decideSwitch?_sound hkind hnot hnot' hc hclauses hother hbodies (fun b hb s hs => ?_) h
    refine hcalm.of_mem (mem_nodes_of_statements ?_ hs)
    rcases List.mem_append.mp hb with hb | hb
    · exact mem_nodes_of_clause (isBlock_of_mem_bodies hclauses hb).2
    · exact child_mem_nodes (by simp [hb])

end

end Unscramble.Flow
