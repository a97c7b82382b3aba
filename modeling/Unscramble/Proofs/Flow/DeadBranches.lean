import Unscramble.Proofs.Flow.Decided

/-! Deciding one construct of a program does not change what the program means: all that is around
the construct keeps its meaning, as that is put together from the meanings of the parts. -/
namespace Unscramble.Flow

open Simplify Unscramble.Tree

/-- What deciding a construct does to it, or to the list of statements that it stands in. -/
inductive Decides : Tree → Tree → Prop
  | retain {s cs} : decide? s = some (.retain cs) → Decides s (s.withChildren cs)
  | splice {l before s after new} : l.kind = .statements → decide? s = some (.splice new) →
      Decides (.node l (before ++ s :: after)) (.node l (before ++ new ++ after))

theorem deadBranches_within {t t' : Tree} (h : deadBranches t = some t') :
    Within Decides t t' := by
  obtain h | h := deadBranches_cases h
  · refine h.mono fun s s' => ?_
    rintro ⟨cs, hdecide, rfl⟩
    exact .retain hdecide
  · refine h.mono ?_
    rintro _ _ ⟨hkind, hdecide⟩
    exact .splice hkind hdecide

/-- Two lists of trees that differ in one of them. -/
inductive OneOf (R : Tree → Tree → Prop) : List Tree → List Tree → Prop
  | head {t t' ts} : R t t' → OneOf R (t :: ts) (t' :: ts)
  | tail {t ts ts'} : OneOf R ts ts' → OneOf R (t :: ts) (t :: ts')

theorem OneOf.middle {R : Tree → Tree → Prop} {before after : List Tree} {s s' : Tree} (h : R s s') :
    OneOf R (before ++ s :: after) (before ++ s' :: after) := by
  induction before with
  | nil => exact .head h
  | cons t before ih => exact .tail ih

/-- A change of a node that is no list of statements is one of the node or of one of its children. -/
theorem within_node {e : Element} {cs : List Tree} {t' : Tree} (he : e.kind ≠ .statements)
    (h : Within Decides (.node e cs) t') :
    (∃ cs', t' = .node e cs' ∧ decide? (.node e cs) = some (.retain cs')) ∨
      ∃ cs', t' = .node e cs' ∧ OneOf (Within Decides) cs cs' := by
  generalize ht : Tree.node e cs = t at h
  cases h with
  | here h =>
    cases h with
    | retain h =>
      cases ht
      exact .inl ⟨_, rfl, h⟩
    | splice hl =>
      cases ht
      exact absurd hl he
  | inside h =>
    cases ht
    exact .inr ⟨_, rfl, .middle h⟩

theorem within_child {e : Element} {cs : List Tree} {t' : Tree} (he : e.kind ≠ .statements)
    (hif : e.kind ≠ .ifElse) (h : Within Decides (.node e cs) t') :
    ∃ cs', t' = .node e cs' ∧ OneOf (Within Decides) cs cs' :=
  (within_node he h).resolve_left fun ⟨_, _, hretain⟩ => hif (decide?_retain_kind hretain)

theorem not_within_flat {t t' : Tree} (hflat : isFlat t = true) : ¬Within Decides t t' := by
  intro h
  have hcompound {t u : Tree} {o : Simplify.Outcome} (hflat : isFlat t = true) (hu : u ∈ t.nodes) :
      decide? u ≠ some o := fun h => by
    have hnot := List.all_eq_true.mp hflat u hu
    rw [decide?_compound h] at hnot
    cases hnot
  induction h with
  | here h =>
    cases h with
    | retain h => exact hcompound hflat (mem_nodes_self _) h
    | splice _ h => exact hcompound hflat (child_mem_nodes (by simp)) h
  | inside _ ih => exact ih (isFlat_child hflat (by simp))

theorem oneOf_flat {t : Tree} {ts cs' : List Tree} (hflat : isFlat t = true)
    (h : OneOf (Within Decides) (t :: ts) cs') :
    ∃ ts', cs' = t :: ts' ∧ OneOf (Within Decides) ts ts' := by
  cases h with
  | head h => exact absurd h (not_within_flat hflat)
  | tail h => exact ⟨_, rfl, h⟩

theorem oneOf_singleton {t : Tree} {cs' : List Tree} (h : OneOf (Within Decides) [t] cs') :
    ∃ t', cs' = [t'] ∧ Within Decides t t' := by
  cases h with
  | head h => exact ⟨_, rfl, h⟩
  | tail h => cases h

section
variable {S : Type*} {I : Interpretation S}

/-- A block of statements of a program. -/
def IsBody (b : Tree) : Prop := isBlock b = true ∧ ∀ s ∈ b.statements, Statement s

/-- A change of a block that leaves it a block with the same meaning. -/
def KeepsBlock (I : Interpretation S) (b : Tree) : Prop :=
  ∀ b', Within Decides b b' → IsBody b' ∧ I.block b' = I.block b

/-- A change of a statement that leaves it a statement with the same meaning. -/
def KeepsStatement (I : Interpretation S) (s : Tree) : Prop :=
  ∀ s', Within Decides s s' → Statement s' ∧ I.meaning s' = I.meaning s

theorem oneOf_statements {ts ts' : List Tree} (hts : ∀ s ∈ ts, Statement s)
    (hkeeps : ∀ s ∈ ts, KeepsStatement I s) (h : OneOf (Within Decides) ts ts') :
    (∀ s ∈ ts', Statement s) ∧ I.statements ts' = I.statements ts := by
  induction h with
  | head h =>
    obtain ⟨hs, hmeaning⟩ := hkeeps _ (by simp) _ h
    rw [List.forall_mem_cons] at hts ⊢
    exact ⟨⟨hs, hts.2⟩, by rw [Interpretation.statements, hmeaning, Interpretation.statements]⟩
  | tail _ ih =>
    rw [List.forall_mem_cons] at hts hkeeps ⊢
    obtain ⟨hs, hmeaning⟩ := ih hts.2 hkeeps.2
    exact ⟨⟨hts.1, hs⟩, by rw [Interpretation.statements, hmeaning, Interpretation.statements]⟩

theorem list_within {l : Element} {ts : List Tree} {t' : Tree} (hl : l.kind = .statements)
    (hts : ∀ s ∈ ts, Statement s) (hcalm : ∀ s ∈ ts, I.Calm s)
    (hkeeps : ∀ s ∈ ts, KeepsStatement I s) (h : Within Decides (.node l ts) t') :
    ∃ ts', t' = .node l ts' ∧ (∀ s ∈ ts', Statement s) ∧ I.statements ts' = I.statements ts := by
  generalize ht : Tree.node l ts = t at h
  cases h with
  | here h =>
    cases h with
    | retain h =>
      have hkind := decide?_retain_kind h
      rw [← ht, kind_node, hl] at hkind
      cases hkind
    | @splice _ before s after new _ h =>
      cases ht
      have hreplaces := (hts s (by simp)).decided (hcalm s (by simp)) h
      refine ⟨before ++ new ++ after, rfl, ?_, ?_⟩
      · intro u hu
        simp only [List.mem_append] at hu
        rcases hu with (hu | hu) | hu
        · exact hts u (by simp [hu])
        · exact hreplaces.statement u hu
        · exact hts u (by simp [hu])
      · simp only [Interpretation.statements_append, hreplaces.meaning, Interpretation.statements,
          andThen_assoc]
  | inside h =>
    cases ht
    exact ⟨_, rfl, oneOf_statements hts hkeeps (.middle h)⟩

theorem keepsBlock {b : Tree} (hb : isBlock b = true) (hbody : ∀ s ∈ b.statements, Statement s)
    (hcalm : ∀ s ∈ b.statements, I.Calm s) (hkeeps : ∀ s ∈ b.statements, KeepsStatement I s) :
    KeepsBlock I b := by
  intro b' h
  obtain ⟨be, le, ts, rfl, hbe, hle, hts⟩ := exists_of_isBlock hb
  rw [hts] at hbody hcalm hkeeps
  obtain ⟨cs', rfl, hone⟩ := within_child (by simp [hbe]) (by simp [hbe]) h
  obtain ⟨_, rfl, hlist⟩ := oneOf_singleton hone
  obtain ⟨ts', rfl, hts', hmeaning⟩ := list_within hle hbody hcalm hkeeps hlist
  have hb' : isBlock (.node be [.node le ts']) = true := by simp [isBlock, hbe, hle]
  obtain ⟨_, _, _, heq, -, -, hstatements⟩ := exists_of_isBlock hb'
  cases heq
  refine ⟨⟨hb', ?_⟩, ?_⟩
  · rw [hstatements]
    exact hts'
  · rw [Interpretation.block, hmeaning, Interpretation.block]

/-! ### Constructs -/

theorem oneOf_arms {pairs : List (Tree × Tree)} {last : Option Tree} {cs' : List Tree}
    (hguards : ∀ p ∈ pairs, isFlat p.1 = true)
    (hbodies : ∀ b ∈ pairs.map (·.2) ++ last.toList, IsBody b ∧ KeepsBlock I b)
    (h : OneOf (Within Decides) (ofArms pairs last) cs') :
    ∃ pairs' last', cs' = ofArms pairs' last' ∧ (∀ p ∈ pairs', isFlat p.1 = true) ∧
      (∀ b ∈ pairs'.map (·.2) ++ last'.toList, IsBody b) ∧
      I.arms (ofArms pairs' last') = I.arms (ofArms pairs last) := by
  induction pairs generalizing cs' with
  | nil =>
    cases last with
    | none => cases h
    | some b =>
      obtain ⟨b', rfl, hchanged⟩ := oneOf_singleton h
      obtain ⟨hbody, hmeaning⟩ := (hbodies b (by simp)).2 _ hchanged
      refine ⟨[], some b', rfl, by simp, by simpa using hbody, ?_⟩
      rw [Interpretation.arms_nil, Interpretation.arms_nil, Option.map_some, hmeaning,
        Option.map_some]
  | cons pair pairs ih =>
    obtain ⟨guard, body⟩ := pair
    obtain ⟨hguard, hguards⟩ := List.forall_mem_cons.mp hguards
    obtain ⟨⟨hbody, hkeeps⟩, hrest⟩ := List.forall_mem_cons.mp hbodies
    have h : OneOf (Within Decides) (guard :: body :: ofArms pairs last) cs' := h
    obtain ⟨_, rfl, hone⟩ := oneOf_flat hguard h
    cases hone with
    | @head _ body' _ hchanged =>
      obtain ⟨hbody', hmeaning⟩ := hkeeps _ hchanged
      refine ⟨(guard, body') :: pairs, last, rfl, List.forall_mem_cons.mpr ⟨hguard, hguards⟩,
        List.forall_mem_cons.mpr ⟨hbody', fun b hb => (hrest b hb).1⟩, ?_⟩
      rw [Interpretation.arms_cons, Interpretation.arms_cons, hmeaning]
    | tail hone =>
      obtain ⟨pairs', last', rfl, hguards', hbodies', hmeaning⟩ := ih hguards hrest hone
      refine ⟨(guard, body) :: pairs', last', rfl, List.forall_mem_cons.mpr ⟨hguard, hguards'⟩,
        List.forall_mem_cons.mpr ⟨hbody, hbodies'⟩, ?_⟩
      rw [Interpretation.arms_cons, Interpretation.arms_cons, hmeaning]

theorem oneOf_clauses {clauses clauses' : List Tree}
    (hclauses : ∀ clause ∈ clauses, isClause clause = true)
    (hbodies : ∀ b ∈ bodies clauses, IsBody b ∧ KeepsBlock I b)
    (h : OneOf (Within Decides) clauses clauses') :
    (∀ clause ∈ clauses', isClause clause = true) ∧ (∀ b ∈ bodies clauses', IsBody b) ∧
      tests clauses' = tests clauses ∧ I.clauses clauses' = I.clauses clauses := by
  induction h with
  | @head clause clause' rest h =>
    obtain ⟨hclause, hrest⟩ := List.forall_mem_cons.mp hclauses
    unfold isClause at hclause
    split at hclause
    next c test body =>
      simp only [Bool.and_eq_true, beq_iff_eq] at hclause
      obtain ⟨⟨hc, htest⟩, hblock⟩ := hclause
      obtain ⟨⟨hbody, hkeeps⟩, hothers⟩ := List.forall_mem_cons.mp hbodies
      obtain ⟨cs', rfl, hone⟩ := within_child (by simp [hc]) (by simp [hc]) h
      obtain ⟨_, rfl, hbodies'⟩ := oneOf_flat htest hone
      obtain ⟨body', rfl, hchanged⟩ := oneOf_singleton hbodies'
      obtain ⟨hbody', hmeaning⟩ := hkeeps _ hchanged
      refine ⟨List.forall_mem_cons.mpr ⟨by simp [isClause, hc, htest, hbody'.1], hrest⟩,
        List.forall_mem_cons.mpr ⟨hbody', fun b hb => (hothers b hb).1⟩, rfl, ?_⟩
      rw [Interpretation.clauses, hmeaning, Interpretation.clauses]
    next => cases hclause
  | @tail clause rest rest' _ ih =>
    obtain ⟨hclause, hrest⟩ := List.forall_mem_cons.mp hclauses
    unfold isClause at hclause
    split at hclause
    next c test body =>
      obtain ⟨⟨hbody, -⟩, hothers⟩ := List.forall_mem_cons.mp hbodies
      obtain ⟨hclauses', hbodies', htests, hmeaning⟩ := ih hrest hothers
      refine ⟨List.forall_mem_cons.mpr ⟨by simpa [isClause] using hclause, hclauses'⟩,
        List.forall_mem_cons.mpr ⟨hbody, hbodies'⟩, congrArg (some test :: ·) htests, ?_⟩
      rw [Interpretation.clauses, hmeaning, Interpretation.clauses]
    next => cases hclause

/-- A change in a statement leaves it a statement with the same meaning. -/
theorem Statement.keeps {s : Tree} (hs : Statement s) (hcalm : I.Calm s) : KeepsStatement I s := by
  have body {t b : Tree} (hcalm : I.Calm t) (hb : b ∈ t.nodes) (hblock : isBlock b = true)
      (hbody : ∀ s ∈ b.statements, Statement s)
      (ih : ∀ s ∈ b.statements, I.Calm s → KeepsStatement I s) : IsBody b ∧ KeepsBlock I b := by
    have hcalm (s : Tree) (hs : s ∈ b.statements) : I.Calm s :=
      hcalm.of_mem (mem_nodes_of_statements hb hs)
    exact ⟨⟨hblock, hbody⟩, keepsBlock hblock hbody hcalm fun s hs => ih s hs (hcalm s hs)⟩
  induction hs with
  | flat hflat => exact fun s' h => absurd h (not_within_flat hflat)
  | @ifElse e pairs last hkind hguards hblocks hbodies ih =>
    intro s' h
    have hbodies (b : Tree) (hb : b ∈ pairs.map (·.2) ++ last.toList) :
        IsBody b ∧ KeepsBlock I b :=
      body hcalm (child_mem_nodes (mem_ofArms hb)) (hblocks b hb) (hbodies b hb) (ih b hb)
    rcases within_node (by simp [hkind]) h with ⟨cs', rfl, hretain⟩ | ⟨cs', rfl, hone⟩
    · simp only [decide?, kind_node, hkind] at hretain
      exact decideIf?_keeps hkind hguards hblocks (fun b hb => (hbodies b hb).1.2) hretain
    · obtain ⟨pairs', last', rfl, hguards', hbodies', hmeaning⟩ := oneOf_arms hguards hbodies hone
      refine ⟨.ifElse hkind hguards' (fun b hb => (hbodies' b hb).1) fun b hb => (hbodies' b hb).2,
        ?_⟩
      rw [Interpretation.meaning_ifElse hkind, hmeaning, Interpretation.meaning_ifElse hkind]
  | @loop e guard body' hkind hguard hblock hbody ih =>
    intro s' h
    have hchild : e.kind ≠ .statements ∧ e.kind ≠ .ifElse := by
      rcases hkind with hkind | hkind | hkind <;> simp [hkind]
    obtain ⟨-, hkeeps⟩ := body hcalm (child_mem_nodes (by simp)) hblock hbody ih
    obtain ⟨cs', rfl, hone⟩ := within_child hchild.1 hchild.2 h
    obtain ⟨_, rfl, hrest⟩ := oneOf_flat hguard hone
    obtain ⟨_, rfl, hchanged⟩ := oneOf_singleton hrest
    obtain ⟨hbody', hmeaning⟩ := hkeeps _ hchanged
    refine ⟨.loop hkind hguard hbody'.1 hbody'.2, ?_⟩
    rcases hkind with hkind | hkind | hkind
    · rw [Interpretation.meaning_while hkind, hmeaning, Interpretation.meaning_while hkind]
    · rw [Interpretation.meaning_doWhile hkind, hmeaning, Interpretation.meaning_doWhile hkind]
    · rw [Interpretation.meaning_doUntil hkind, hmeaning, Interpretation.meaning_doUntil hkind]
  | @forLoop e first test step body' hkind hfirst htest hstep h₁ h₂ h₃ hblock hbody ih =>
    intro s' h
    obtain ⟨-, hkeeps⟩ := body hcalm (child_mem_nodes (by simp)) hblock hbody ih
    obtain ⟨cs', rfl, hparts⟩ := within_child (by simp [hkind]) (by simp [hkind]) h
    obtain ⟨_, rfl, htests⟩ := oneOf_flat h₁ hparts
    obtain ⟨_, rfl, hsteps⟩ := oneOf_flat h₂ htests
    obtain ⟨_, rfl, hbodies⟩ := oneOf_flat h₃ hsteps
    obtain ⟨_, rfl, hchanged⟩ := oneOf_singleton hbodies
    obtain ⟨hbody', hmeaning⟩ := hkeeps _ hchanged
    refine ⟨.forLoop hkind hfirst htest hstep h₁ h₂ h₃ hbody'.1 hbody'.2, ?_⟩
    rw [Interpretation.meaning_for hkind, hmeaning, Interpretation.meaning_for hkind]
  | @switch e subject c clauses other hkind hflat hnot hnot' hc hclauses hother hbodies ih =>
    intro s' h
    rw [List.forall_mem_append] at hbodies ih
    have hclause (b : Tree) (hb : b ∈ bodies clauses) : IsBody b ∧ KeepsBlock I b := by
      obtain ⟨hblock, hnode⟩ := isBlock_of_mem_bodies hclauses hb
      exact body hcalm (mem_nodes_of_clause hnode) hblock (hbodies.1 b hb) (ih.1 b hb)
    obtain ⟨cs', rfl, hone⟩ := within_child (by simp [hkind]) (by simp [hkind]) h
    obtain ⟨_, rfl, hparts⟩ := oneOf_flat hflat hone
    cases hparts with
    | head hchanged =>
      obtain ⟨clauses', rfl, hone'⟩ := within_child (by simp [hc]) (by simp [hc]) hchanged
      obtain ⟨hclauses', hbodies', htests, hmeaning⟩ := oneOf_clauses hclauses hclause hone'
      refine ⟨.switch hkind hflat hnot hnot' hc hclauses' hother ?_, ?_⟩
      · rw [List.forall_mem_append]
        exact ⟨fun b hb => (hbodies' b hb).2, hbodies.2⟩
      · rw [Interpretation.meaning_switch hkind, htests, hmeaning,
          Interpretation.meaning_switch hkind]
    | tail hlast =>
      cases other with
      | none => cases hlast
      | some last =>
        obtain ⟨last', rfl, hchanged⟩ := oneOf_singleton hlast
        obtain ⟨-, hkeeps⟩ := body hcalm (child_mem_nodes (by simp)) (hother last rfl)
          (hbodies.2 last (by simp)) (ih.2 last (by simp))
        obtain ⟨hlast, hmeaning⟩ := hkeeps _ hchanged
        refine ⟨@Statement.switch e subject c clauses (some last') hkind hflat hnot hnot' hc
          hclauses (by simpa using hlast.1) ?_, ?_⟩
        · rw [List.forall_mem_append]
          exact ⟨hbodies.1, by simpa using hlast.2⟩
        · rw [Interpretation.meaning_switch hkind, Interpretation.meaning_switch hkind]
          simp [Interpretation.blocks, hmeaning]

/-- Deciding a construct of a program gives a program with the same meaning. -/
theorem deadBranches_meaning {t t' : Tree} (ht : IsProgram t) (hcalm : I.Calm t)
    (h : deadBranches t = some t') :
    IsProgram t' ∧ ∀ σ o σ', I.statements t'.children σ o σ' ↔ I.statements t.children σ o σ' := by
  obtain ⟨l, ts⟩ := t
  have hcalm (s : Tree) (hs : s ∈ ts) : I.Calm s := hcalm.of_mem (child_mem_nodes hs)
  obtain ⟨ts', rfl, hts', hmeaning⟩ := list_within ht.1 ht.2 hcalm
    (fun s hs => (ht.2 s hs).keeps (hcalm s hs)) (deadBranches_within h)
  refine ⟨⟨ht.1, hts'⟩, fun σ o σ' => ?_⟩
  rw [children_node, hmeaning, children_node]

end

/-- A loop that is left at the end of its first round, over states that count the statements run. -/
theorem deadBranches_meaning_counted :
    let say := leaf .command [] none
    let block := fun ts => branch .statementBlock [] [branch .statements [] ts]
    let t := branch .statements []
      [branch .whileLoop [] [boolTree true, block [say, leaf .breakStatement [] none]]]
    let t' := branch .statements [] [branch .ifElse [] [boolTree true, block [say]]]
    let I : Interpretation Nat := {
      atom := fun _ σ o σ' => o = .done ∧ σ' = σ + 1
      condition := fun _ σ answer σ' => answer = some true ∧ σ' = σ
      label := fun _ => none
      target := fun _ _ => ""
      select := fun _ _ _ _ σ choice σ' => choice = .stop ∧ σ' = σ
      bare := fun ⟨ho, _⟩ h => nomatch ho ▸ h
      far := fun ⟨ho, _⟩ h => nomatch ho ▸ h }
    IsProgram t ∧ I.Calm t ∧ deadBranches t = some t' ∧
      IsProgram t' ∧ ∀ σ o σ', I.statements t'.children σ o σ' ↔ I.statements t.children σ o σ' := by
  intro say block t t' I
  have ht : IsProgram t := by
    refine ⟨rfl, List.forall_mem_singleton.mpr (.loop (.inl rfl) (by decide) (by decide) ?_)⟩
    exact List.forall_mem_cons.mpr ⟨.flat (by decide), List.forall_mem_singleton.mpr
      (.flat (by decide))⟩
  have hcalm : I.Calm t := by
    intro u hu hkind
    have hnone : ∀ u ∈ t.nodes, u.kind ≠ .initializer ∧ u.kind ≠ .iterator := by decide
    exact absurd hkind (not_or.mpr (hnone u hu))
  have h : deadBranches t = some t' := by decide +kernel
  exact ⟨ht, hcalm, h, deadBranches_meaning ht hcalm h⟩

end Unscramble.Flow
