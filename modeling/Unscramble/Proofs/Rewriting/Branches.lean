import Unscramble.Proofs.Rewriting.Rules

/-! What deciding control flow does in one place: an `if` loses arms, or a construct gives way to
statements that were inside of it. -/
namespace Unscramble.Simplify

/-- The children of a conditional with given arms. -/
def ofArms (pairs : List (Tree × Tree)) (last : Option Tree) : List Tree :=
  pairs.flatMap (fun (guard, body) => [guard, body]) ++ last.toList

theorem ofArms_arms (cs : List Tree) : ofArms (arms cs).1 (arms cs).2 = cs := by
  fun_induction arms cs with
  | case1 => rfl
  | case2 last => rfl
  | case3 guard body rest pairs last h ih => simpa [ofArms, h] using ih

theorem arms_ofArms (pairs : List (Tree × Tree)) (last : Option Tree) :
    arms (ofArms pairs last) = (pairs, last) := by
  induction pairs with
  | nil => cases last <;> rfl
  | cons pair pairs ih =>
    rw [show ofArms (pair :: pairs) last = pair.1 :: pair.2 :: ofArms pairs last from rfl, arms, ih]

theorem liveArms_sublist (last : Option Tree) (pairs : List (Tree × Tree)) :
    (ofArms (liveArms last pairs).1 (liveArms last pairs).2.1).Sublist (ofArms pairs last) ∧
      ((liveArms last pairs).2.2 = true →
        (ofArms (liveArms last pairs).1 (liveArms last pairs).2.1).length <
          (ofArms pairs last).length) := by
  induction pairs with
  | nil => simp [liveArms]
  | cons pair rest ih =>
    obtain ⟨guard, body⟩ := pair
    unfold liveArms
    split
    · simp [ofArms]
    · refine ⟨.cons _ (.cons _ ih.1), fun _ => ?_⟩
      exact Nat.lt_succ_of_le (Nat.le_succ_of_le ih.1.length_le)
    · exact ⟨.cons_cons _ (.cons_cons _ ih.1), fun h => Nat.succ_lt_succ (Nat.succ_lt_succ (ih.2 h))⟩

theorem drawn_of_statements {b : Tree} {new : List Tree} (h : new.Sublist b.statements) :
    Drawn b.children new := by
  cases new with
  | nil => exact .empty _
  | cons u us =>
    obtain ⟨list, hlist, -, hcs, -⟩ := Tree.mem_statements (h.subset (List.mem_cons_self ..))
    exact .of_mem hlist (.of_sublist (hcs ▸ h))

theorem plain_of_mem_statements {s b u : Tree} (hb : b ∈ s.children) (hu : u ∈ b.statements) :
    Plain s u := by
  obtain ⟨list, hlist, hkind, -, hu⟩ := Tree.mem_statements hu
  exact .child (Tree.mem_nodes_of_child hb (Tree.child_mem_nodes hlist)) hu
    (by simp [hkind, holdsLists])

section
variable {s : Tree} {pairs : List (Tree × Tree)} {last : Option Tree}

/-- A conditional gives way to its last block when no arm is left. -/
theorem decideIf?_eq_splice {new : List Tree} (hs : s.children = ofArms pairs last)
    (h : decideIf? s = some (.splice new)) : (liveArms last pairs).1 = [] ∧
      new = ((liveArms last pairs).2.1.map Tree.statements).getD [] := by
  simp only [decideIf?, hs, arms_ofArms, Option.ite_none_left_eq_some] at h
  obtain ⟨-, h⟩ := h
  split at h
  next hkept => exact ⟨List.isEmpty_iff.mp hkept, (Outcome.splice.inj (Option.some.inj h)).symm⟩
  next => cases h

/-- A conditional that stays has an arm left, and fewer than it had. -/
theorem decideIf?_eq_retain {cs : List Tree} (hs : s.children = ofArms pairs last)
    (h : decideIf? s = some (.retain cs)) :
    (liveArms last pairs).2.2 = true ∧ (liveArms last pairs).1 ≠ [] ∧
      cs = ofArms (liveArms last pairs).1 (liveArms last pairs).2.1 := by
  simp only [decideIf?, hs, arms_ofArms, Option.ite_none_left_eq_some] at h
  obtain ⟨hchanged, h⟩ := h
  split at h
  next => cases h
  next hkept =>
    exact ⟨by simpa using hchanged, fun hnil => hkept (List.isEmpty_iff.mpr hnil),
      (Outcome.retain.inj (Option.some.inj h)).symm⟩

theorem decideIf?_splice {new : List Tree} (h : decideIf? s = some (.splice new)) :
    Drawn s.children new ∧ ∀ u ∈ new, Plain s u := by
  have hs := (ofArms_arms s.children).symm
  obtain ⟨-, rfl⟩ := decideIf?_eq_splice hs h
  have hsub := (liveArms_sublist (arms s.children).2 (arms s.children).1).1
  rw [← hs] at hsub
  cases hlast : (liveArms (arms s.children).2 (arms s.children).1).2.1 with
  | none => exact ⟨.empty _, by simp⟩
  | some b =>
    have hb : b ∈ s.children := hsub.subset (by simp [ofArms, hlast])
    exact ⟨.of_mem hb (.statements b), fun u hu => plain_of_mem_statements hb hu⟩

theorem decideIf?_retain {cs : List Tree} (h : decideIf? s = some (.retain cs)) :
    cs.Sublist s.children ∧ 2 ≤ cs.length ∧ cs.length < s.children.length := by
  have hs := (ofArms_arms s.children).symm
  obtain ⟨hchanged, hkept, rfl⟩ := decideIf?_eq_retain hs h
  have hsub := liveArms_sublist (arms s.children).2 (arms s.children).1
  rw [← hs] at hsub
  refine ⟨hsub.1, ?_, hsub.2 hchanged⟩
  cases hpairs : (liveArms (arms s.children).2 (arms s.children).1).1 with
  | nil => exact absurd hpairs hkept
  | cons pair rest => simp [ofArms]

end

theorem matchingClauses?_drawn {subject : Value} {clauses : List Tree} {hits : List (List Tree)}
    (h : matchingClauses? subject clauses = some hits) :
    Drawn clauses hits.flatten ∧
      ∀ u ∈ hits.flatten, ∃ clause ∈ clauses, ∃ b ∈ clause.children, u ∈ b.statements := by
  induction clauses generalizing hits with
  | nil => simp [matchingClauses?] at h; subst h; exact ⟨.nil, by simp⟩
  | cons clause rest ih =>
    simp only [matchingClauses?, Option.bind_eq_some_iff, Option.map_eq_some_iff] at h
    obtain ⟨-, -, -, -, hit, -, body, hbody, hits, hhits, rfl⟩ := h
    obtain ⟨hdrawn, hmem⟩ := ih hhits
    have hrest : ∀ u ∈ hits.flatten, ∃ c ∈ clause :: rest, ∃ b ∈ c.children, u ∈ b.statements :=
      fun u hu => (hmem u hu).imp fun c hc => ⟨List.mem_cons_of_mem _ hc.1, hc.2⟩
    split at hbody
    next =>
      obtain ⟨b, hb, rfl⟩ := Option.map_eq_some_iff.mp hbody
      have hb : b ∈ clause.children := List.mem_of_getElem? hb
      refine ⟨.enter (.of_mem hb (.statements b)) hdrawn, fun u hu => ?_⟩
      simp only [List.singleton_append, List.flatten_cons, List.mem_append] at hu
      exact hu.elim (fun hu => ⟨clause, by simp, b, hb, hu⟩) (hrest u)
    next =>
      cases hbody
      exact ⟨.skip hdrawn, hrest⟩

theorem decideSwitch?_splice {s : Tree} {o : Outcome} (h : decideSwitch? s = some o) :
    ∃ new, o = .splice new ∧ Drawn s.children new ∧ ∀ u ∈ new, Plain s u := by
  simp only [decideSwitch?, Option.ite_none_left_eq_some, Option.bind_eq_some_iff,
    Option.map_eq_some_iff] at h
  obtain ⟨-, -, -, subject, -, clauses, hclauses, -, hits, hhits, rfl⟩ := h
  refine ⟨_, rfl, ?_⟩
  obtain ⟨hmem, -⟩ := Tree.childOf?_mem hclauses
  obtain ⟨hdrawn, hplain⟩ := matchingClauses?_drawn hhits
  split
  next =>
    cases hother : s.childOf? .statementBlock with
    | none => exact ⟨.empty _, by simp⟩
    | some b =>
      have hb := (Tree.childOf?_mem hother).1
      exact ⟨.of_mem hb (.statements b), fun u hu => plain_of_mem_statements hb hu⟩
  next =>
    refine ⟨.of_mem hmem hdrawn, fun u hu => ?_⟩
    obtain ⟨clause, hclause, b, hb, hu⟩ := hplain u hu
    obtain ⟨list, hlist, hkind, -, hu⟩ := Tree.mem_statements hu
    refine .child (v := list) ?_ hu (by simp [hkind, holdsLists])
    exact Tree.mem_nodes_of_child hmem (Tree.mem_nodes_of_child hclause
      (Tree.mem_nodes_of_child hb (Tree.child_mem_nodes hlist)))

/-- A body that runs once is its statements up to a final `break`. -/
theorem singlePass?_statements {body : Tree} {statements : List Tree}
    (h : singlePass? body = some statements) :
    ∃ last list, list ∈ body.children ∧ list.kind = .statements ∧
      list.children = statements ++ [last] ∧ last.kind = .breakStatement ∧
      body.statements = statements ++ [last] := by
  unfold singlePass? at h
  split at h
  next => cases h
  next last hlast =>
    simp only [Option.ite_none_right_eq_some, Bool.and_eq_true, Option.some.injEq] at h
    obtain ⟨⟨⟨hbreak, -⟩, -⟩, rfl⟩ := h
    have hsplit : body.statements = body.statements.dropLast ++ [last] := by
      obtain ⟨front, hfront⟩ := List.getLast?_eq_some_iff.mp hlast
      rw [hfront, List.dropLast_concat]
    obtain ⟨list, hlist, hkind, hcs, -⟩ := Tree.mem_statements (List.mem_of_getLast? hlast)
    exact ⟨last, list, hlist, hkind, hcs.trans hsplit, Tree.is_iff.mp hbreak, hsplit⟩

theorem decideWhile?_splice {s : Tree} {o : Outcome} (h : decideWhile? s = some o) :
    o = .splice [] ∨ ∃ guard body rest new, s.children = guard :: body :: rest ∧
      singlePass? body = some new ∧ o = .splice [conditional guard new] := by
  unfold decideWhile? at h
  split at h
  next guard body rest hcs =>
    split at h
    next => exact .inl (Option.some.inj h).symm
    next =>
      obtain ⟨new, hnew, rfl⟩ := Option.map_eq_some_iff.mp h
      exact .inr ⟨guard, body, rest, new, hcs, hnew, rfl⟩
  next => cases h

theorem decideDo?_splice {stop : Bool} {s : Tree} {o : Outcome} (h : decideDo? stop s = some o) :
    ∃ body ∈ s.children, ∃ new, new.Sublist body.statements ∧ o = .splice new := by
  have hpass : ∀ body, (singlePass? body).map Outcome.splice = some o →
      ∃ new, new.Sublist body.statements ∧ o = .splice new := by
    intro body h
    obtain ⟨new, hnew, rfl⟩ := Option.map_eq_some_iff.mp h
    obtain ⟨last, -, -, -, -, -, hsplit⟩ := singlePass?_statements hnew
    exact ⟨new, hsplit ▸ List.sublist_append_left new [last], rfl⟩
  unfold decideDo? at h
  split at h
  next guard body rest hcs =>
    refine ⟨body, by simp [hcs], ?_⟩
    split at h
    next =>
      obtain ⟨n, -, h⟩ := Option.bind_eq_some_iff.mp h
      split at h
      next => exact ⟨_, List.Sublist.refl _, (Option.some.inj h).symm⟩
      next => exact hpass body h
    next => exact hpass body h
  next => cases h

theorem decideFor?_splice {s : Tree} {o : Outcome} (h : decideFor? s = some o) :
    ∃ first test step body, s.children = [first, test, step, body] ∧
      (o = .splice first.children ∨ ∃ new, singlePass? body = some new ∧
        o = once first.children test.children.head? new) := by
  unfold decideFor? at h
  split at h
  next first test step body hcs =>
    refine ⟨first, test, step, body, hcs, ?_⟩
    simp only at h
    split at h
    next => exact .inl (Option.some.inj h).symm
    next =>
      obtain ⟨new, hnew, rfl⟩ := Option.map_eq_some_iff.mp h
      exact .inr ⟨new, hnew, rfl⟩
  next => cases h

theorem decide?_retain {s : Tree} {cs : List Tree} (h : decide? s = some (.retain cs)) :
    Update .deadBranches s (s.withChildren cs) := by
  unfold decide? at h
  split at h
  case h_1 hkind =>
    obtain ⟨e, cs'⟩ := s
    obtain ⟨hsub, htwo, hless⟩ := decideIf?_retain h
    exact .arms hkind hsub htwo hless
  case h_2 =>
    obtain ⟨new, heq, -⟩ := decideSwitch?_splice h
    cases heq
  case h_3 =>
    obtain heq | ⟨_, _, _, _, _, _, heq⟩ := decideWhile?_splice h <;> cases heq
  case h_4 | h_5 =>
    obtain ⟨_, _, _, _, heq⟩ := decideDo?_splice h
    cases heq
  case h_6 =>
    obtain ⟨_, _, _, _, _, heq | ⟨_, _, heq⟩⟩ := decideFor?_splice h <;> cases heq
  case h_7 => cases h

theorem decide?_splice {above s : Tree} {new : List Tree} (habove : above.kind = .statements)
    (h : decide? s = some (.splice new)) : Exchange .deadBranches above s new := by
  unfold decide? at h
  split at h
  case h_1 =>
    obtain ⟨hdrawn, hplain⟩ := decideIf?_splice h
    exact .decided habove hdrawn hplain
  case h_2 =>
    obtain ⟨new, heq, hdrawn, hplain⟩ := decideSwitch?_splice h
    cases heq
    exact .decided habove hdrawn hplain
  case h_3 hkind =>
    obtain heq | ⟨guard, body, rest, new, hcs, hnew, heq⟩ := decideWhile?_splice h
    · cases heq
      exact .decided habove (.empty _) (by simp)
    · cases heq
      obtain ⟨last, list, hlist, hlkind, hlcs, hlast, -⟩ := singlePass?_statements hnew
      refine @Exchange.once _ s [] guard body list _ last habove (.inl hkind) (.of_sublist ?_) ?_ hlist
        hlkind hlcs hlast
      · simp [hcs]
      · simpa using Plain.child (s := s) (Tree.mem_nodes_self s) (by simp [hcs])
          (by simp [hkind, holdsLists])
  case h_4 | h_5 =>
    obtain ⟨body, hbody, new, hsub, heq⟩ := decideDo?_splice h
    cases heq
    exact .decided habove (.of_mem hbody (drawn_of_statements hsub))
      fun u hu => plain_of_mem_statements hbody (hsub.subset hu)
  case h_6 hkind =>
    obtain ⟨first, test, step, body, hcs, h⟩ := decideFor?_splice h
    have hfirst : ∀ u ∈ first.children, Plain s u := fun u hu =>
      .header (v := first) hkind (by simp [hcs]) hu
    have hheader : Drawn s.children first.children :=
      .of_mem (t := first) (by simp [hcs]) (.of_sublist (List.Sublist.refl _))
    obtain heq | ⟨new, hnew, heq⟩ := h
    · cases heq
      exact .decided habove hheader hfirst
    obtain ⟨last, list, hlist, hlkind, hlcs, hlast, hsplit⟩ := singlePass?_statements hnew
    cases hguard : test.children.head? with
    | none =>
      simp only [once, hguard, Outcome.splice.injEq] at heq
      subst heq
      refine .decided habove ?_ fun u hu => ?_
      · rw [hcs]
        have hnew : Drawn body.children new :=
          drawn_of_statements (hsplit ▸ List.sublist_append_left new [last])
        exact .enter (.of_sublist (List.Sublist.refl _)) (.skip (.skip (.of_mem (by simp) hnew)))
      · rcases List.mem_append.mp hu with hu | hu
        · exact hfirst u hu
        · exact plain_of_mem_statements (b := body) (by simp [hcs]) (by simp [hsplit, hu])
    | some guard =>
      simp only [once, hguard, Outcome.splice.injEq] at heq
      subst heq
      have hg : guard ∈ test.children := List.mem_of_mem_head? hguard
      refine .once habove (.inr hkind) ?_ ?_ hlist hlkind hlcs hlast
      · rw [hcs]
        refine .enter (.of_sublist (List.Sublist.refl _)) ?_
        exact @Drawn.enter _ _ _ [body] (.of_sublist (List.singleton_sublist.mpr hg))
          (.skip (.take .nil))
      · intro u hu
        rcases List.mem_cons.mp hu with rfl | hu
        · exact .header (v := test) hkind (by simp [hcs]) hg
        · exact hfirst u hu
  case h_7 => cases h

/-- A construct that keeps some of its children, or a statement that others take the place of. -/
theorem deadBranches_cases {t t' : Tree} (h : deadBranches t = some t') :
    Within (fun s s' => ∃ cs, decide? s = some (.retain cs) ∧ s' = s.withChildren cs) t t' ∨
      Within (Splice fun above s new => above.kind = .statements ∧
        decide? s = some (.splice new)) t t' := by
  obtain ⟨p, hp, hdecide⟩ := List.exists_of_findSome?_eq_some h
  have hon := Place.on_of_mem hp
  obtain ⟨o, ho, hnew⟩ := Option.bind_eq_some_iff.mp hdecide
  cases o with
  | retain cs =>
    cases hnew
    have hwithin := hon.within_plug (U := fun s s' => ∃ cs, decide? s = some (.retain cs) ∧
      s' = s.withChildren cs) (.here ⟨cs, ho, rfl⟩)
    rw [hon.plug_self] at hwithin
    exact .inl hwithin
  | splice new =>
    simp only [Option.ite_none_right_eq_some] at hnew
    obtain ⟨hparent, hreplace⟩ := hnew
    exact .inr (hon.within_replace (fun above habove => ⟨Place.parent_is hparent habove, ho⟩) hreplace)

theorem deadBranches_changes {t t' : Tree} (h : deadBranches t = some t') :
    Changes (LocalStep .deadBranches) t t' := by
  obtain h | h := deadBranches_cases h
  · refine .single (h.mono fun s s' => ?_)
    rintro ⟨cs, hdecide, rfl⟩
    exact .update (decide?_retain hdecide)
  · exact Within.exchange h fun _ _ _ ⟨habove, hdecide⟩ => decide?_splice habove hdecide

end Unscramble.Simplify
