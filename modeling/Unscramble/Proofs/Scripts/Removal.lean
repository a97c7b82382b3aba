import Mathlib.Data.List.Forall2
import Unscramble.Proofs.Rewriting.Rules
import Unscramble.Proofs.Scripts.Unread

/-! Removal of an assignment to a variable that is not read. The script without it ends in the same
way, runs the same commands, and leaves the same values in all other variables. -/
namespace Unscramble.Scripts

open Simplify Unscramble.Tree

/-- A statement that assigns to a variable is dropped from a list of statements. -/
def Drops (x : String) (above s : Tree) (new : List Tree) : Prop :=
  above.kind = .statements ∧ new = [] ∧ s.kind = .assignment ∧
    ∃ target value rest, s.children = target :: value :: rest ∧ target.variableKey? = some x

/-- The same tree, or one with such a statement dropped. -/
def Altered (x : String) (t t' : Tree) : Prop := t' = t ∨ Within (Splice (Drops x)) t t'

theorem exists_drops {P : String → Prop} {t t' : Tree}
    (h : Within (Splice fun above s new => ∃ x, P x ∧ Drops x above s new) t t') :
    ∃ x, P x ∧ Within (Splice (Drops x)) t t' := by
  induction h with
  | here h =>
    obtain ⟨x, hx, h⟩ := h
    exact ⟨x, hx, .here (.mk h)⟩
  | inside _ ih =>
    obtain ⟨x, hx, h⟩ := ih
    exact ⟨x, hx, .inside h⟩

/-- The variable is one of the script's own. -/
theorem removeUnusedVariable_drops_own {t t' : Tree} (h : removeUnusedVariable t = some t') :
    t.hasDynamicVariables = false ∧ ∃ x, (x ∉ t.reads ∧ ∃ path, Text.lower path = x ∧
      Vocabulary.isAmbient path = false) ∧ Within (Splice (Drops x)) t t' := by
  simp only [removeUnusedVariable, Option.ite_none_left_eq_some, Bool.not_eq_true] at h
  refine ⟨h.1, exists_drops (replaceFirst?_within (fun p above new _ habove hnew => ?_) h.2)⟩
  simp only [Option.ite_none_right_eq_some, Option.some.injEq, isDeadAssignment,
    Bool.and_eq_true] at hnew
  obtain ⟨⟨⟨hplain, hparent⟩, htarget⟩, rfl⟩ := hnew
  split at htarget
  next target value rest hchildren =>
    obtain ⟨path, hpath, hdead⟩ := (Option.any_eq_true _ _).mp htarget
    simp only [Bool.and_eq_true, Bool.not_eq_true', List.contains_eq_mem, decide_eq_false_iff_not]
      at hdead
    exact ⟨Text.lower path, ⟨hdead.1.2, path, rfl, hdead.1.1⟩, Place.parent_is hparent habove, rfl,
      kind_of_isPlainAssignment hplain, target, value, rest, hchildren, by simp [variableKey?, hpath]⟩
  next => cases htarget

theorem removeUnusedVariable_drops {t t' : Tree} (h : removeUnusedVariable t = some t') :
    t.hasDynamicVariables = false ∧ ∃ x, x ∉ t.reads ∧ Within (Splice (Drops x)) t t' := by
  obtain ⟨hnames, x, ⟨hx, -⟩, hdrops⟩ := removeUnusedVariable_drops_own h
  exact ⟨hnames, x, hx, hdrops⟩

variable {x : String} {e : Element} {t t' : Tree} {cs ts : List Tree}

theorem not_drops (ht : ∀ u ∈ t.nodes, u.kind ≠ .statements) : ¬ Within (Splice (Drops x)) t t' := by
  intro h
  induction h with
  | here h => cases h with | mk h => exact ht _ (mem_nodes_self _) h.1
  | inside _ ih => exact ih fun u hu => ht u (mem_nodes_of_child (by simp) hu)

/-- What contains no list of statements stays as it is. -/
theorem Altered.eq_self (h : Altered x t t') (ht : ∀ u ∈ t.nodes, u.kind ≠ .statements) : t = t' :=
  (h.resolve_right (not_drops ht)).symm

theorem not_statements_node (he : e.kind ≠ .statements)
    (hcs : ∀ c ∈ cs, ∀ u ∈ c.nodes, u.kind ≠ .statements) :
    ∀ u ∈ (Tree.node e cs).nodes, u.kind ≠ .statements := by
  intro u hu
  rcases mem_nodes_iff.mp hu with rfl | ⟨c, hc, hu⟩
  · exact he
  · exact hcs c hc u hu

theorem altered_refl (ts : List Tree) : List.Forall₂ (Altered x) ts ts :=
  List.forall₂_same.mpr fun _ _ => .inl rfl

theorem altered_one {before after : List Tree} (h : Within (Splice (Drops x)) t t') :
    List.Forall₂ (Altered x) (before ++ t :: after) (before ++ t' :: after) :=
  List.rel_append (altered_refl before) (.cons (.inr h) (altered_refl after))

/-- The children of a node that is no list of statements are altered on their own. -/
theorem Altered.node (h : Altered x (.node e cs) t') (he : e.kind ≠ .statements) :
    ∃ cs', t' = .node e cs' ∧ List.Forall₂ (Altered x) cs cs' := by
  rcases h with rfl | h
  · exact ⟨cs, rfl, altered_refl cs⟩
  · cases h with
    | here h => cases h with | mk h => exact absurd h.1 he
    | inside h => exact ⟨_, rfl, altered_one h⟩

/-- A list of statements may lose one of its own. -/
theorem Altered.statements (h : Altered x (.node e cs) t') : ∃ cs', t' = .node e cs' ∧
    (List.Forall₂ (Altered x) cs cs' ∨ ∃ before s after, cs = before ++ s :: after ∧
      cs' = before ++ after ∧ Drops x (.node e cs) s []) := by
  rcases h with rfl | h
  · exact ⟨cs, rfl, .inl (altered_refl cs)⟩
  · cases h with
    | here h =>
      cases h with
      | mk h =>
        obtain rfl := h.2.1
        exact ⟨_, rfl, .inr ⟨_, _, _, rfl, by simp, h⟩⟩
    | inside h => exact ⟨_, rfl, .inl (altered_one h)⟩

/-! ### Runs -/

variable {V : Type*} {I : Interpretation V} {bound : Nat} {σ τ : State V}

theorem Agree.write (h : Agree x σ τ) (key : String) (v : V) : Agree x (σ.write key v) (τ.write key v) where
  store k hk := by
    by_cases hkey : k = key
    · rw [hkey, State.write_same, State.write_same]
    · rw [State.write_other _ _ hkey, State.write_other _ _ hkey, h.store k hk]
  trace := h.trace

theorem Agree.write_left (h : Agree x σ τ) (v : V) : Agree x (σ.write x v) τ where
  store k hk := by rw [State.write_other _ _ hk, h.store k hk]
  trace := h.trace

theorem Agree.call (h : Agree x σ τ) (name : String) (arguments : List V) :
    Agree x (σ.call name arguments) (τ.call name arguments) where
  store := h.store
  trace := by rw [State.call, State.call, h.trace]

/-- A dropped statement does nothing but write to the variable. -/
theorem Drops.relates {above s : Tree} {new : List Tree} (h : Drops x above s new) :
    Relates (Agree x) (I.run bound s) skip := by
  obtain ⟨-, -, hkind, target, value, rest, hchildren, hkey⟩ := h
  obtain ⟨e, cs⟩ := s
  rw [children_node] at hchildren
  rw [kind_node] at hkind
  subst hchildren
  cases rest with
  | nil =>
    rw [Interpretation.run_assignment hkind hkey]
    exact fun σ τ h => ⟨rfl, h.write_left _⟩
  | cons more rest =>
    have hskip : I.run bound (.node e (target :: value :: more :: rest)) = skip := by
      rw [Interpretation.run.eq_def]
      simp only [hkind]
    rw [hskip]
    exact .skip

theorem Simple.not_statements (h : Simple t) : ∀ u ∈ t.nodes, u.kind ≠ .statements := by
  induction h with
  | @assignment e target value he htarget hvalue =>
    have htarget : Inert target := .leaf (by rw [htarget.kind]; rfl) htarget.1
    exact not_statements_node (by simp [kind_of_isPlainAssignment he]) (List.forall_mem_cons.mpr
      ⟨htarget.not_statements, List.forall_mem_singleton.mpr hvalue.inert.not_statements⟩)
  | command he hl hname hchildren harguments hfooter =>
    exact (inert_command he hl hname hchildren harguments hfooter).not_statements
  | pipeline he _ ih => exact not_statements_node (by rcases he with he | he <;> simp [he]) (by simpa)

theorem Simple.relates (h : Simple t) (hx : Unread x t) :
    Relates (Agree x) (I.run bound t) (I.run bound t) := by
  induction h with
  | @assignment e target value he htarget hvalue =>
    obtain ⟨-, key, hkey⟩ := htarget
    have havoids : Avoids x value := (hx.child (by simp)).avoids hvalue.inert fun hkey => by
      simpa using (hx _ (mem_nodes_self _) (i := 1) rfl hkey).2
    rw [Interpretation.run_assignment (kind_of_isPlainAssignment he) hkey]
    refine fun σ τ h => ⟨rfl, ?_⟩
    have hsame : I.eval σ value = I.eval τ value := hvalue.eval_agree havoids h
    dsimp only
    rw [hsame]
    exact h.write key _
  | @command e l name arguments footer he hl _ _ harguments _ =>
    have hlist : Unread x (.node l (name :: arguments)) := hx.child (by simp)
    have havoids : ∀ t ∈ arguments, Avoids x t := fun t ht =>
      hlist.expression (by simp [hl]) (List.mem_cons_of_mem _ ht) (harguments t ht)
    rw [Interpretation.run_command he]
    refine fun σ τ h => ⟨rfl, ?_⟩
    have hsame : arguments.map (I.eval σ) = arguments.map (I.eval τ) :=
      List.map_congr_left fun t ht => (harguments t ht).eval_agree (havoids t ht) h
    dsimp only
    rw [hsame]
    exact h.call _ _
  | pipeline he _ ih =>
    rw [Interpretation.run_pipeline he]
    exact ih (hx.child (by simp))

/-- What is run of a tree is much the same without a statement that is dropped from the tree. -/
def Kept (meaning : Tree → Run V) (x : String) (t : Tree) : Prop :=
  ∀ t', Altered x t t' → Relates (Agree x) (meaning t) (meaning t')

theorem Simple.kept (h : Simple t) (hx : Unread x t) : Kept (I.run bound) x t := fun _ ht => by
  rw [← ht.eq_self h.not_statements]
  exact h.relates hx

/-! ### Statements -/

theorem statements_altered {ts ts' : List Tree} (h : ∀ t ∈ ts, Kept (I.run bound) x t)
    (hts : List.Forall₂ (Altered x) ts ts') :
    Relates (Agree x) (I.statements bound ts) (I.statements bound ts') := by
  induction hts with
  | nil => exact .skip
  | cons ht _ ih =>
    obtain ⟨hfirst, hrest⟩ := List.forall_mem_cons.mp h
    exact .andThen (hfirst _ ht) (ih hrest)

theorem statements_dropped {s above : Tree} {after : List Tree} (hs : Drops x above s []) :
    (before : List Tree) → (∀ t ∈ before ++ s :: after, Kept (I.run bound) x t) →
    Relates (Agree x) (I.statements bound (before ++ s :: after))
      (I.statements bound (before ++ after))
  | [], h => by
    have hafter := statements_altered (fun t ht => h t (by simp [ht])) (altered_refl (x := x) after)
    exact .andThen hs.relates hafter
  | t :: before, h => .andThen (h t (by simp) t (.inl rfl))
      (statements_dropped hs before fun u hu => h u (List.mem_cons_of_mem _ hu))

theorem kept_block {b l : Element} (hb : b.kind ≠ .statements)
    (h : ∀ t ∈ ts, Kept (I.run bound) x t) : Kept (I.block bound) x (.node b [.node l ts]) := by
  intro b' ht
  obtain ⟨_, rfl, _ | ⟨hl, _ | _⟩⟩ := ht.node hb
  obtain ⟨ts', rfl, hts | ⟨before, s, after, rfl, rfl, hs⟩⟩ := hl.statements
  · exact statements_altered h hts
  · exact statements_dropped hs before h

theorem holds_agree {guard : Tree} (h : Expression guard) (hx : Avoids x guard) :
    ∀ σ τ, Agree x σ τ → I.holds guard σ = I.holds guard τ :=
  fun _ _ hστ => congrArg I.truth (h.eval_agree hx hστ)

theorem kept_loops {guard body : Tree}
    (he : e.kind = .whileLoop ∨ e.kind = .doWhile ∨ e.kind = .doUntil) (hguard : Expression guard)
    (hx : Avoids x guard) (hbody : Kept (I.block bound) x body) :
    Kept (I.run bound) x (.node e [guard, body]) := by
  intro t' ht
  obtain ⟨_, rfl, _ | ⟨hg, _ | ⟨hb, _ | _⟩⟩⟩ :=
    ht.node (by rcases he with he | he | he <;> simp [he])
  obtain rfl := hg.eq_self hguard.inert.not_statements
  have hholds := holds_agree (I := I) hguard hx
  rcases he with he | he | he
  · rw [Interpretation.run_while he, Interpretation.run_while he]
    exact .rounds hholds .skip (hbody _ hb) bound
  · rw [Interpretation.run_doWhile he, Interpretation.run_doWhile he]
    exact .atLeastOnce hholds (hbody _ hb) bound
  · rw [Interpretation.run_doUntil he, Interpretation.run_doUntil he]
    exact .atLeastOnce (fun σ τ h => congrArg not (hholds σ τ h)) (hbody _ hb) bound

theorem Header.not_statements {kind : Kind} {P : Tree → Prop} (h : Header kind P t)
    (hkind : kind ≠ .statements) (hP : ∀ s, P s → ∀ u ∈ s.nodes, u.kind ≠ .statements) :
    ∀ u ∈ t.nodes, u.kind ≠ .statements := by
  obtain ⟨e, cs⟩ := t
  obtain ⟨rfl, -, hcs⟩ := h
  exact not_statements_node hkind fun c hc => hP c (hcs c hc)

/-- The part of the head of a loop that is run does the same. -/
theorem Header.relates {kind : Kind} (h : Header kind Simple t) (hx : Unread x t) :
    Relates (Agree x) (I.statements bound t.children) (I.statements bound t.children) :=
  statements_altered (fun s hs => (h.2.2 s hs).kept (hx.child hs)) (altered_refl _)

theorem kept_for {first test step body : Tree} (he : e.kind = .forLoop)
    (hfirst : Header .initializer Simple first) (htest : Header .condition Expression test)
    (hstep : Header .iterator Simple step) (hx : Unread x (.node e [first, test, step, body]))
    (hbody : Kept (I.block bound) x body) :
    Kept (I.run bound) x (.node e [first, test, step, body]) := by
  intro t' ht
  obtain ⟨_, rfl, _ | ⟨hf, _ | ⟨hg, _ | ⟨hs, _ | ⟨hb, _ | _⟩⟩⟩⟩⟩ := ht.node (by simp [he])
  obtain rfl := hf.eq_self (hfirst.not_statements (by decide) fun _ h => h.not_statements)
  obtain rfl := hg.eq_self (htest.not_statements (by decide) fun _ h => h.inert.not_statements)
  obtain rfl := hs.eq_self (hstep.not_statements (by decide) fun _ h => h.not_statements)
  have hholds : ∀ σ τ, Agree x σ τ →
      I.holdsAll test.children σ = I.holdsAll test.children τ := fun σ τ h => by
    have hguards : Unread x test := hx.child (by simp)
    rw [Interpretation.holdsAll_eq, Interpretation.holdsAll_eq, List.map_congr_left fun t ht =>
      (htest.2.2 t ht).eval_agree (hguards.expression (by rw [htest.1]; decide) ht (htest.2.2 t ht)) h]
  rw [Interpretation.run_for he, Interpretation.run_for he]
  exact .andThen (hfirst.relates (hx.child (by simp)))
    (.rounds hholds (hstep.relates (hx.child (by simp))) (hbody _ hb) bound)

mutual

theorem Statement.kept {x : String} : {t : Tree} → Statement t → Unread x t → Kept (I.run bound) x t
  | _, .simple h, hx => h.kept hx
  | .node _ cs, .ifElse he harms, hx => by
    intro t' ht
    obtain ⟨cs', rfl, hcs⟩ := ht.node (by simp [he])
    rw [Interpretation.run_ifElse he, Interpretation.run_ifElse he]
    exact harms.kept hx (by simp [he]) (List.Subset.refl _) hcs
  | _, .loop he hguard hbody, hx =>
    kept_loops he hguard (hx.expression (by rcases he with he | he | he <;> simp [he]) (by simp) hguard)
      (hbody.kept (by decide) (hx.child (by simp)))
  | _, .forLoop he hfirst htest hstep hbody, hx =>
    kept_for he hfirst htest hstep hx (hbody.kept (by decide) (hx.child (by simp)))
  | _, .exit he _, _ => by
    intro t' ht
    obtain ⟨_, rfl, _ | _⟩ := ht.node (by rcases he with he | he <;> simp [he])
    rcases he with he | he
    · rw [Interpretation.run_break he]
      exact .stop _
    · rw [Interpretation.run_continue he]
      exact .stop _

theorem Block.kept {x : String} {kind : Kind} : {b : Tree} → Block kind b → kind ≠ .statements →
    Unread x b → Kept (I.block bound) x b
  | _, @Block.mk _ _ l ts hb _ h, hkind, hx =>
    have hlist : Unread x (.node l ts) := hx.child (by simp)
    kept_block (hb ▸ hkind) fun t ht => (h t ht).kept (hlist.child ht)

theorem Arms.kept {x : String} {s : Tree} : {cs : List Tree} → Arms cs → Unread x s →
    s.kind ≠ .assignment → cs ⊆ s.children → ∀ {cs'}, List.Forall₂ (Altered x) cs cs' →
    Relates (Agree x) (I.arms bound cs) (I.arms bound cs')
  | _, .nil, _, _, _, _, hcs => by
    cases hcs
    exact .skip
  | _, .last hbody, hx, _, hsub, _, hcs => by
    obtain _ | ⟨hb, _ | _⟩ := hcs
    rw [Interpretation.arms, Interpretation.arms]
    exact hbody.kept (by decide) (hx.child (hsub (by simp))) _ hb
  | _, .cons hguard hbody hrest, hx, hs, hsub, _, hcs => by
    obtain _ | ⟨hg, _ | ⟨hb, hcs⟩⟩ := hcs
    obtain rfl := hg.eq_self hguard.inert.not_statements
    rw [Interpretation.arms, Interpretation.arms]
    exact .choose (holds_agree hguard (hx.expression hs (hsub (by simp)) hguard))
      (hbody.kept (by decide) (hx.child (hsub (by simp))) _ hb)
      (hrest.kept hx hs (fun c hc => hsub (by simp [hc])) hcs)

end

/-- What a script does without the assignment that is dropped from it. -/
theorem Script.kept (h : Script t) (hx : Unread x t) (I : Interpretation V) (bound : Nat) :
    Kept (I.script bound) x t := by
  intro t' ht
  obtain ⟨he, hbody⟩ := h
  obtain ⟨_, rfl, _ | ⟨hb, _ | _⟩⟩ := ht.node (by simp [he])
  exact hbody.kept (by decide) (hx.child (by simp)) _ hb

/-- The variable is written where the statement is dropped. -/
theorem mem_writes_of_drops {x : String} {t t' : Tree} (h : Within (Splice (Drops x)) t t') :
    x ∈ t.writes := by
  induction h with
  | here h =>
    obtain ⟨-, -, hkind, target, value, rest, hchildren, hkey⟩ := h
    refine mem_writes (child_mem_nodes (List.mem_append_right _ List.mem_cons_self)) ?_
    rw [ownWrites, hkind, hchildren]
    simp [targetsFirst, targets_of_variableKey? hkey]
  | inside _ ih =>
    rw [writes_node]
    exact List.mem_append_right _ (List.mem_flatMap.mpr ⟨_, by simp, ih⟩)

end Unscramble.Scripts
