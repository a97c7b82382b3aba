import Unscramble.Proofs.Flow.Structure

/-! Exits are counted right: a statement for which no exits are counted, and none with a label,
does not end in one. -/
namespace Unscramble.Flow

open Simplify Unscramble.Tree

/-! ### Counting -/

mutual

theorem exitsOutside_mem {encloses : Kind → Bool} {sort : Tree → Bool} : (t : Tree) →
    exitsOutside encloses sort t = true → ∃ u ∈ t.nodes, isExit u.kind = true ∧ sort u = true
  | .node e cs, h => by
    simp only [exitsOutside, Bool.and_eq_true, Bool.or_eq_true] at h
    rcases h.2 with h | h
    · exact ⟨_, mem_nodes_self _, h⟩
    · obtain ⟨u, hu, h⟩ := exitsOutsideAll_mem cs h
      exact ⟨u, nodes_eq (.node e cs) ▸ List.mem_cons_of_mem _ hu, h⟩

theorem exitsOutsideAll_mem {encloses : Kind → Bool} {sort : Tree → Bool} : (ts : List Tree) →
    exitsOutsideAll encloses sort ts = true →
    ∃ u ∈ nodesAll ts, isExit u.kind = true ∧ sort u = true
  | [], h => by simp [exitsOutsideAll] at h
  | t :: ts, h => by
    rw [exitsOutsideAll, Bool.or_eq_true] at h
    rcases h with h | h
    · obtain ⟨u, hu, h⟩ := exitsOutside_mem t h
      exact ⟨u, by simp [nodesAll, hu], h⟩
    · obtain ⟨u, hu, h⟩ := exitsOutsideAll_mem ts h
      exact ⟨u, by simp [nodesAll, hu], h⟩

end

theorem hasLabelledExit_iff {t : Tree} :
    hasLabelledExit t = true ↔ ∃ u ∈ t.nodes, isExit u.kind = true ∧ hasLabel u = true := by
  simp [hasLabelledExit]

theorem hasLabelledExit_of_mem {t u : Tree} (h : hasLabelledExit t = false) (hu : u ∈ t.nodes) :
    hasLabelledExit u = false := by
  rw [← Bool.not_eq_true, hasLabelledExit_iff] at h ⊢
  rintro ⟨v, hv, hexit⟩
  exact h ⟨v, mem_nodes_trans t hu hv, hexit⟩

theorem hasFarExit_le {t : Tree} (h : hasLabelledExit t = false) : hasFarExit t = false := by
  rw [← Bool.not_eq_true]
  intro hfar
  have hlabelled := hasLabelledExit_iff.mpr (exitsOutside_mem t hfar)
  rw [h] at hlabelled
  cases hlabelled

theorem exitsOutside_of_hasExit {encloses : Kind → Bool} {sort : Tree → Bool} {t : Tree}
    (h : hasExit t = false) : exitsOutside encloses sort t = false := by
  rw [← Bool.not_eq_true]
  intro hout
  obtain ⟨u, hu, hexit, -⟩ := exitsOutside_mem t hout
  rw [hasExit, List.any_eq_false] at h
  exact h u hu hexit

theorem exitsAll?_cons_zero {t : Tree} {ts : List Tree} :
    exitsAll? (t :: ts) = some 0 ↔ exits? t = some 0 ∧ exitsAll? ts = some 0 := by
  rw [exitsAll?]
  cases exits? t <;> cases exitsAll? ts <;> simp

theorem exitsAll?_zero {ts : List Tree} : exitsAll? ts = some 0 ↔ ∀ t ∈ ts, exits? t = some 0 := by
  induction ts with
  | nil => simp [exitsAll?]
  | cons t ts ih => rw [exitsAll?_cons_zero, ih, List.forall_mem_cons]

theorem exitsAll?_append (ss ts : List Tree) :
    exitsAll? (ss ++ ts) = (exitsAll? ss).bind fun m => (exitsAll? ts).map (m + ·) := by
  induction ss with
  | nil => cases h : exitsAll? ts <;> simp [exitsAll?, h]
  | cons s ss ih =>
    rw [List.cons_append, exitsAll?, ih, exitsAll?]
    cases exits? s <;> cases exitsAll? ss <;> cases exitsAll? ts <;> simp [Nat.add_assoc]

theorem isFlat_child {t c : Tree} (h : isFlat t = true) (hc : c ∈ t.children) : isFlat c = true :=
  List.all_eq_true.mpr fun u hu => List.all_eq_true.mp h u (mem_nodes_of_child hc hu)

/-- Of the constructs that own exits only loops over collections can be in a flat tree. -/
theorem forEach_of_flat {t : Tree} (h : isFlat t = true)
    (hloop : t.kind.isLoop = true ∨ t.kind = .switchStatement) : t.kind = .forEach := by
  have hcompound : isCompound t.kind = false := by
    simpa using List.all_eq_true.mp h _ (mem_nodes_self _)
  revert hloop hcompound
  cases t.kind <;> simp [Kind.isLoop, isCompound]

theorem hasBareExit_forEach {t : Tree} (h : t.kind = .forEach) : hasBareExit t = false := by
  obtain ⟨e, cs⟩ := t
  simp [hasBareExit, exitsOutside, show e.kind = .forEach from h]

mutual

theorem hasNoExits : (t : Tree) → isFlat t = true → exits? t = some 0 →
    hasBareExit t = false ∧ hasFarExit t = false
  | .node e cs, hflat, h => by
    rw [exits?] at h
    split at h
    next => split at h <;> cases h
    next hexit =>
    split at h
    next hloop =>
      split at h
      next => cases h
      next hlabelled =>
        have hkind := forEach_of_flat hflat (by simpa using hloop)
        refine ⟨hasBareExit_forEach hkind, hasFarExit_le ?_⟩
        exact Bool.not_eq_true _ ▸ hlabelled
    next =>
    split at h
    next hfunction => simp [hasBareExit, hasFarExit, exitsOutside, hfunction]
    next =>
    split at h
    next =>
      split at h
      next => cases h
      next hnone =>
        exact ⟨exitsOutside_of_hasExit (Bool.not_eq_true _ ▸ hnone),
          exitsOutside_of_hasExit (Bool.not_eq_true _ ▸ hnone)⟩
    next =>
      obtain ⟨hbare, hfar⟩ := haveNoExits cs (fun c hc => isFlat_child hflat hc) h
      have hexit : isExit e.kind = false := Bool.not_eq_true _ ▸ hexit
      simp [hasBareExit, hasFarExit, exitsOutside, hexit, hbare, hfar]

theorem haveNoExits : (ts : List Tree) → (∀ t ∈ ts, isFlat t = true) → exitsAll? ts = some 0 →
    exitsOutsideAll (fun kind => kind == .functionDefinition || kind == .forEach) (!hasLabel ·) ts
        = false ∧
      exitsOutsideAll (· == .functionDefinition) hasLabel ts = false
  | [], _, _ => by simp [exitsOutsideAll]
  | t :: ts, hflat, h => by
    obtain ⟨ht, hts⟩ := exitsAll?_cons_zero.mp h
    obtain ⟨hbare, hfar⟩ := hasNoExits t (hflat t (by simp)) ht
    obtain ⟨hbares, hfars⟩ := haveNoExits ts (fun t ht => hflat t (List.mem_cons_of_mem _ ht)) hts
    rw [hasBareExit] at hbare
    rw [hasFarExit] at hfar
    simp [exitsOutsideAll, hbare, hfar, hbares, hfars]

end

/-! ### Endings -/

section
variable {S : Type*} {I : Interpretation S} {P : Ending → Bool} {t b : Tree}

theorem Ends.statements (hdone : P .done = true) {ts : List Tree}
    (h : ∀ t ∈ ts, Ends P (I.meaning t)) : Ends P (I.statements ts) := by
  induction ts with
  | nil => exact .skip hdone
  | cons t ts ih =>
    obtain ⟨ht, hts⟩ := List.forall_mem_cons.mp h
    exact ht.andThen (ih hts)

theorem Ends.block (hdone : P .done = true) (hb : isBlock b = true)
    (h : ∀ s ∈ b.statements, Ends P (I.meaning s)) : Ends P (I.block b) := by
  rw [Interpretation.block_eq hb]
  exact .statements hdone h

theorem Ends.arms (hdone : P .done = true) (hquit : P .quit = true) {pairs : List (Tree × Tree)}
    {last : Option Tree} (h : ∀ b ∈ pairs.map (·.2) ++ last.toList, Ends P (I.block b)) :
    Ends P (I.arms (ofArms pairs last)) := by
  induction pairs with
  | nil =>
    rw [Interpretation.arms_nil]
    cases last with
    | none => exact .skip hdone
    | some b => exact h b (by simp)
  | cons pair pairs ih =>
    obtain ⟨hbody, hrest⟩ := List.forall_mem_cons.mp h
    rw [Interpretation.arms_cons]
    exact .choose hquit hbody (ih hrest)

theorem Ends.chosen (hdone : P .done = true) {hits : List Bool} {ms : List (Meaning S)}
    (h : ∀ m ∈ ms, Ends P m) : Ends P (chosen hits ms) := by
  fun_induction Flow.chosen hits ms with
  | case1 hits m ms ih => exact (h m (by simp)).andThen (ih fun m hm => h m (by simp [hm]))
  | case2 hits m ms ih => exact ih fun m hm => h m (by simp [hm])
  | case3 => exact .skip hdone

theorem mem_ofArms {pairs : List (Tree × Tree)} {last : Option Tree}
    (h : b ∈ pairs.map (·.2) ++ last.toList) : b ∈ ofArms pairs last := by
  rw [List.mem_append, List.mem_map] at h
  rcases h with ⟨p, hp, rfl⟩ | h
  · exact List.mem_append_left _ (List.mem_flatMap.mpr ⟨p, hp, by simp⟩)
  · exact List.mem_append_right _ h

theorem Unlabelled.exit {ending : Option String → Ending} (h : hasLabel t = false)
    (hnone : (ending none).isLabelled = false) : Unlabelled (I.exit ending t) :=
  fun _ _ _ ⟨ho, _⟩ => by simp [ho, h, hnone]

theorem Unlabelled.flat (hflat : isFlat t = true) (h : hasLabelledExit t = false) :
    Unlabelled (I.meaning t) := by
  cases hexit : isExit t.kind with
  | false =>
    rw [Interpretation.meaning_atom hflat hexit]
    intro σ o σ' hatom
    have hfar := mt (I.far hatom)
    simpa [hasFarExit_le h] using hfar
  | true =>
    obtain ⟨e, cs⟩ := t
    have hlabel : hasLabel (.node e cs) = false := by
      rw [← Bool.not_eq_true] at h ⊢
      exact fun hlabel => h (hasLabelledExit_iff.mpr ⟨_, mem_nodes_self _, hexit, hlabel⟩)
    simp only [isExit, kind_node, Bool.or_eq_true, beq_iff_eq] at hexit
    rcases hexit with hkind | hkind
    · rw [Interpretation.meaning_break hkind]
      exact .exit hlabel rfl
    · rw [Interpretation.meaning_continue hkind]
      exact .exit hlabel rfl

/-- Loops and `switch` statements that exits with a label do not leave do not end in an exit. -/
theorem Statement.unlabelled (ht : Statement t) (hcalm : I.Calm t)
    (h : hasLabelledExit t = false) : Unlabelled (I.meaning t) ∧
      (t.kind.isLoop = true ∨ t.kind = .switchStatement → Quiet (I.meaning t)) := by
  have hblock {t b : Tree} (hcalm : I.Calm t) (h : hasLabelledExit t = false) (hb : b ∈ t.nodes)
      (hblock : isBlock b = true) (ih : ∀ s ∈ b.statements, I.Calm s → hasLabelledExit s = false →
        Unlabelled (I.meaning s) ∧
          (s.kind.isLoop = true ∨ s.kind = .switchStatement → Quiet (I.meaning s))) :
      Unlabelled (I.block b) := .block rfl hblock fun s hs =>
    (ih s hs (hcalm.of_mem (mem_nodes_of_statements hb hs))
      (hasLabelledExit_of_mem h (mem_nodes_of_statements hb hs))).1
  have quiet {t : Tree} (h : Quiet (I.meaning t)) : Unlabelled (I.meaning t) ∧
      (t.kind.isLoop = true ∨ t.kind = .switchStatement → Quiet (I.meaning t)) :=
    ⟨h.unlabelled, fun _ => h⟩
  induction ht with
  | @flat t hflat =>
    refine ⟨.flat hflat h, fun hloop => ?_⟩
    have hkind := forEach_of_flat hflat hloop
    rw [Interpretation.meaning_atom hflat (by simp [isExit, hkind])]
    refine fun σ o σ' hatom => isQuiet_of_not ?_ ?_
    · simpa [hasBareExit_forEach hkind] using mt (I.bare hatom)
    · simpa [hasFarExit_le h] using mt (I.far hatom)
  | @ifElse e pairs last hkind hguards hblocks _ ih =>
    have hbody (b : Tree) (hb : b ∈ pairs.map (·.2) ++ last.toList) : Unlabelled (I.block b) := by
      exact hblock hcalm h (child_mem_nodes (mem_ofArms hb)) (hblocks b hb) (ih b hb)
    rw [Interpretation.meaning_ifElse hkind]
    refine ⟨.arms rfl rfl hbody, fun hloop => ?_⟩
    simp [hkind, Kind.isLoop] at hloop
  | @loop e guard body hkind _ hbody _ ih =>
    have hbody := hblock hcalm h (child_mem_nodes (by simp)) hbody ih
    refine quiet ?_
    rcases hkind with hkind | hkind | hkind
    · rw [Interpretation.meaning_while hkind]
      exact .loop (.skip rfl) hbody _
    · rw [Interpretation.meaning_doWhile hkind]
      exact .loop (.skip rfl) hbody _
    · rw [Interpretation.meaning_doUntil hkind]
      exact .loop (.skip rfl) hbody _
  | @forLoop e first test step body hkind hfirst _ hstep _ _ _ hbody _ ih =>
    have hbody := hblock hcalm h (child_mem_nodes (by simp)) hbody ih
    refine quiet ?_
    rw [Interpretation.meaning_for hkind]
    refine .andThen (.statements rfl ?_) (Quiet.loop (.statements rfl ?_) hbody _)
    · exact hcalm first (child_mem_nodes (by simp)) (.inl hfirst)
    · exact hcalm step (child_mem_nodes (by simp)) (.inr hstep)
  | @switch e subject c clauses other hkind _ _ _ _ hclauses hother _ ih =>
    have hmem (b : Tree) (hb : b ∈ bodies clauses ++ other.toList) : Unlabelled (I.block b) := by
      rcases List.mem_append.mp hb with hclause | hlast
      · obtain ⟨hisBlock, hnode⟩ := isBlock_of_mem_bodies hclauses hclause
        exact hblock hcalm h (mem_nodes_of_clause hnode) hisBlock (ih b hb)
      · refine hblock hcalm h (child_mem_nodes ?_) (hother b (by simpa using hlast)) (ih b hb)
        simp [hlast]
    rw [List.forall_mem_append] at hmem
    refine quiet ?_
    rw [Interpretation.meaning_switch hkind, Interpretation.clauses_eq hclauses,
      Interpretation.blocks_eq]
    split
    next hits _ =>
      refine .catching ?_
      split
      · refine .chosen rfl fun m hm => ?_
        obtain ⟨b, hb, rfl⟩ := List.mem_map.mp hm
        exact hmem.1 b hb
      · cases other with
        | none => exact .skip rfl
        | some b => exact hmem.2 b (by simp)
    next =>
      refine .select (fun m hm => ?_) _
      rw [← List.map_append] at hm
      obtain ⟨b, hb, rfl⟩ := List.mem_map.mp hm
      exact (List.mem_append.mp hb).elim (hmem.1 b) (hmem.2 b)

theorem exits?_ordinary {e : Element} {cs : List Tree}
    (h : e.kind ∈ [.ifElse, .statementBlock, .statements]) :
    exits? (.node e cs) = exitsAll? cs := by
  simp only [List.mem_cons, List.not_mem_nil, or_false] at h
  rcases h with h | h | h <;> simp [exits?, h, isExit, Kind.isLoop]

theorem exits?_owner (hkind : t.kind.isLoop = true ∨ t.kind = .switchStatement)
    (h : exits? t = some 0) : hasLabelledExit t = false := by
  obtain ⟨e, cs⟩ := t
  rw [kind_node] at hkind
  have hexit : isExit e.kind = false := by
    revert hkind
    cases e.kind <;> simp [Kind.isLoop, isExit]
  rw [exits?, if_neg (by simp [hexit]), if_pos (by simpa using hkind)] at h
  split at h
  next => cases h
  next hnone => exact Bool.not_eq_true _ ▸ hnone

theorem exits?_block (h : isBlock b = true) :
    exits? b = exitsAll? b.statements ∧ loopExits? b = exitsAll? b.statements := by
  obtain ⟨b, l, ts, rfl, hb, hl, hts⟩ := exists_of_isBlock h
  have hlist : exits? (.node l ts) = exitsAll? ts := exits?_ordinary (by simp [hl])
  rw [hts, exits?_ordinary (by simp [hb]), loopExits?, children_node, exitsAll?, exitsAll?, hlist]
  cases exitsAll? ts <;> simp

/-- A statement for which no exits are counted does not end in one. -/
theorem Statement.quiet (ht : Statement t) (hcalm : I.Calm t) (h : exits? t = some 0) :
    Quiet (I.meaning t) := by
  have owner {t : Tree} (ht : Statement t) (hcalm : I.Calm t) (h : exits? t = some 0)
      (hkind : t.kind.isLoop = true ∨ t.kind = .switchStatement) : Quiet (I.meaning t) :=
    (ht.unlabelled hcalm (exits?_owner hkind h)).2 hkind
  induction ht with
  | @flat t hflat =>
    have hexit : isExit t.kind = false := by
      obtain ⟨e, cs⟩ := t
      rw [← Bool.not_eq_true, kind_node]
      intro hexit
      rw [exits?, if_pos hexit] at h
      split at h <;> cases h
    obtain ⟨hbare, hfar⟩ := hasNoExits t hflat h
    rw [Interpretation.meaning_atom hflat hexit]
    refine fun σ o σ' hatom => isQuiet_of_not ?_ ?_
    · simpa [hbare] using mt (I.bare hatom)
    · simpa [hfar] using mt (I.far hatom)
  | @ifElse e pairs last hkind _ hblocks _ ih =>
    rw [exits?_ordinary (by simp [hkind]), exitsAll?_zero] at h
    rw [Interpretation.meaning_ifElse hkind]
    refine .arms rfl rfl fun b hb => .block rfl (hblocks b hb) fun s hs => ?_
    have hmem := mem_ofArms hb
    have hcount := h b hmem
    rw [(exits?_block (hblocks b hb)).1, exitsAll?_zero] at hcount
    exact ih b hb s hs (hcalm.of_mem (mem_nodes_of_statements (child_mem_nodes hmem) hs))
      (hcount s hs)
  | @loop e guard body hkind hguard hblock hbody _ =>
    refine owner (.loop hkind hguard hblock hbody) hcalm h (.inl ?_)
    rcases hkind with hkind | hkind | hkind <;> rw [kind_node, hkind] <;> rfl
  | @forLoop e first test step body hkind hfirst htest hstep h₁ h₂ h₃ hblock hbody _ =>
    refine owner (.forLoop hkind hfirst htest hstep h₁ h₂ h₃ hblock hbody) hcalm h (.inl ?_)
    rw [kind_node, hkind]
    rfl
  | @switch e subject c clauses other hkind hflat h₁ h₂ hc hclauses hother hbodies _ =>
    exact owner (.switch hkind hflat h₁ h₂ hc hclauses hother hbodies) hcalm h (.inr hkind)

theorem quiet_statements {ts : List Tree} (hts : ∀ s ∈ ts, Statement s)
    (hcalm : ∀ s ∈ ts, I.Calm s) (h : exitsAll? ts = some 0) : Quiet (I.statements ts) :=
  .statements rfl fun s hs => (hts s hs).quiet (hcalm s hs) (exitsAll?_zero.mp h s hs)

/-- A body that runs once: its statements do not end in an exit, up to the last one, which does. -/
theorem singlePass?_block {new : List Tree} (hb : isBlock b = true)
    (hbody : ∀ s ∈ b.statements, Statement s) (hcalm : ∀ s ∈ b.statements, I.Calm s)
    (h : singlePass? b = some new) :
    (∀ s ∈ new, s ∈ b.statements) ∧ Quiet (I.statements new) ∧
      I.block b = andThen (I.statements new) leaving := by
  unfold singlePass? at h
  split at h
  next => cases h
  next last hlast =>
  simp only [Option.ite_none_right_eq_some, Bool.and_eq_true, Option.some.injEq, beq_iff_eq,
    Bool.not_eq_true'] at h
  obtain ⟨⟨⟨hbreak, hlabel⟩, hexits⟩, rfl⟩ := h
  have hsplit : b.statements = b.statements.dropLast ++ [last] := by
    obtain ⟨front, hfront⟩ := List.getLast?_eq_some_iff.mp hlast
    rw [hfront, List.dropLast_concat]
  have hmem : ∀ s ∈ b.statements.dropLast, s ∈ b.statements := fun s hs =>
    List.dropLast_subset _ hs
  refine ⟨hmem, ?_, ?_⟩
  · refine quiet_statements (fun s hs => hbody s (hmem s hs)) (fun s hs => hcalm s (hmem s hs)) ?_
    have hone : exitsAll? [last] = some 1 := by
      obtain ⟨e, cs⟩ := last
      have hkind : e.kind = .breakStatement := is_iff.mp hbreak
      simp [exitsAll?, exits?, isExit, hkind, hlabel]
    rw [(exits?_block hb).2, hsplit, exitsAll?_append, hone] at hexits
    cases hcount : exitsAll? b.statements.dropLast with
    | none => simp [hcount] at hexits
    | some n => simpa [hcount] using hexits
  · rw [Interpretation.block_eq hb]
    conv => lhs; rw [hsplit]
    rw [Interpretation.statements_append]
    congr 1
    obtain ⟨e, cs⟩ := last
    have hkind : e.kind = .breakStatement := is_iff.mp hbreak
    rw [Interpretation.statements, Interpretation.statements, andThen_skip,
      Interpretation.meaning_break hkind]
    funext σ o σ'
    simp [Interpretation.exit, leaving, hlabel]

end

end Unscramble.Flow
