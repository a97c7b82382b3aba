import Unscramble.Proofs.Scripts.Parts

/-! Constant propagation through statements: the script with literals for variables does what it did
before. -/
namespace Unscramble.Scripts

open Simplify Unscramble.Tree

/-! ### Names of targets -/

theorem lower_of_variableKey? {t : Tree} {k : String} (h : t.variableKey? = some k) :
    Text.lower k = k := by
  obtain ⟨path, -, rfl⟩ := Option.map_eq_some_iff.mp h
  exact Text.lower_lower path

mutual

theorem lower_of_mem_targets {k : String} : (t : Tree) → k ∈ t.targets → Text.lower k = k
  | .node e cs, h => by
    rw [targets] at h
    split at h
    · exact lower_of_variableKey? (Option.mem_toList.mp h)
    · exact lower_of_mem_targetsFirst cs h
    · exact lower_of_mem_targetsFirst cs h
    · exact lower_of_mem_targetsAll true cs h
    · exact lower_of_mem_targetsAll false cs h
    · exact lower_of_mem_targetsAll false cs h
    · cases h

theorem lower_of_mem_targetsFirst {k : String} : (ts : List Tree) → k ∈ targetsFirst ts →
    Text.lower k = k
  | [], h => by cases h
  | t :: _, h => lower_of_mem_targets t h

theorem lower_of_mem_targetsAll {k : String} (cast : Bool) : (ts : List Tree) →
    k ∈ targetsAll cast ts → Text.lower k = k
  | [], h => by cases h
  | t :: ts, h => by
    rw [targetsAll, List.mem_append] at h
    rcases h with h | h
    · split at h
      · cases h
      · exact lower_of_mem_targets t h
    · exact lower_of_mem_targetsAll cast ts h

end

theorem lower_of_mem_writes {t : Tree} {k : String} (h : k ∈ t.writes) : Text.lower k = k := by
  obtain ⟨u, -, h⟩ := List.mem_flatMap.mp h
  unfold ownWrites at h
  split at h
  · exact lower_of_mem_targetsFirst _ h
  · split at h
    · exact lower_of_mem_targetsFirst _ h
    · cases h
  · obtain ⟨v, -, h⟩ := Option.bind_eq_some_iff.mp (Option.mem_toList.mp h)
    exact lower_of_variableKey? h
  · cases h

variable {V : Type*} {I : Interpretation V} {around : Surroundings} {site : Option Site}
  {known : Known} {holder : Holder} {i bound : Nat} {e : Element} {t : Tree} {cs : List Tree}

/-! ### One construct at a time -/

theorem walk_frame (h : flowOf e = .frame) : walk around site known (.node e cs) =
    ((walkAll around (Site.holds site e cs) 0 known.enter cs).1.leave,
      .node e (walkAll around (Site.holds site e cs) 0 known.enter cs).2) := by
  rw [walk.eq_def]
  simp only [h]

theorem walk_arms (h : flowOf e = .arms) : walk around site known (.node e cs) =
    ((walkArms around (Site.holds site e cs) 0 known cs).1,
      .node e (walkArms around (Site.holds site e cs) 0 known cs).2) := by
  rw [walk.eq_def]
  simp only [h]

theorem walk_assignment {target value : Tree} (h : flowOf e = .assignment) :
    walk around site known (.node e [target, value]) =
      let walked := walk around (some ⟨Site.holds site e [target, value], 1⟩) known value
      (assign around (.node e [target, value]) target value walked.1, .node e [target, walked.2]) := by
  rw [walk.eq_def]
  simp only [h]

theorem walk_loop (h : flowOf e = .loop) : walk around site known (.node e cs) =
    let names := (Tree.node e cs).writes
    let walked := walkAll (around.inLoop names) (Site.holds site e cs) 0 (known.forget names) cs
    (walked.1.forget names, .node e walked.2) := by
  rw [walk.eq_def]
  simp only [h]

theorem walk_loopFrom {first : Tree} (h : flowOf e = .loopFrom) :
    walk around site known (.node e (first :: cs)) =
      let names := (Tree.node e (first :: cs)).writes
      let holder := Site.holds site e (first :: cs)
      let once := walk around (some ⟨holder, 0⟩) known first
      let walked := walkAll (around.inLoop names) holder 1 (once.1.forget names) cs
      (walked.1.forget names, .node e (once.2 :: walked.2)) := by
  rw [walk.eq_def]
  simp only [h]

/-- The walk through a tree follows what is run of the tree. -/
def Followed (I : Interpretation V) (meaning : Tree → Run V) (t : Tree) : Prop :=
  ∀ around site known, Walked I around t.writes (meaning t) (meaning (walk around site known t).2)
    known.scope (walk around site known t).1.scope

/-- An assignment makes the known value that of a literal, or drops it. -/
theorem assign_scope {target value : Tree} {key : String} (hkey : target.variableKey? = some key)
    (htargets : target.targets = [key]) : (assign around t target value known).scope =
      known.scope.delete key ∨ ∃ v, value.unwrapStatement.literal? = some v ∧
        around.mayTrack key = true ∧
          (assign around t target value known).scope = known.scope.set key v := by
  unfold assign
  split
  next name hname _ =>
    cases hkey.symm.trans hname
    split
    next v hv htrack => exact .inr ⟨v, hv, htrack, rfl⟩
    next => exact .inl rfl
  next => exact .inl (by rw [htargets]; rfl)

theorem followed_assignment {target value : Tree} (he : e.isPlainAssignment = true)
    (htarget : IsVariable target) (hvalue : Expression value) :
    Followed I (I.run bound) (.node e [target, value]) := by
  intro around site known
  have hkind : e.kind = .assignment := kind_of_isPlainAssignment he
  have htargetWrites : target.writes = [] :=
    Inert.writes (.leaf (by rw [htarget.kind]; rfl) htarget.1)
  obtain ⟨-, key, hkey⟩ := htarget
  have htargets := targets_of_variableKey? hkey
  have hlower := lower_of_variableKey? hkey
  have hnames : (Tree.node e [target, value]).writes = [key] := by
    rw [writes_node]
    simp [ownWrites, hkind, targetsFirst, htargets, htargetWrites, hvalue.inert.writes]
  have hrendered : Rendered I around value := hvalue.rendered
  obtain ⟨hscope, heval⟩ := hrendered (some ⟨Site.holds site e [target, value], 1⟩) known
    (isCalm_holds (by rw [hkind]; rfl))
  rw [walk_assignment (by simp [flowOf, hkind]), hnames, Interpretation.run_assignment hkind hkey,
    Interpretation.run_assignment hkind hkey]
  rcases assign_scope hkey htargets with hdelete | ⟨v, hv, htrack, hset⟩
  · rw [hdelete, hscope]
    exact (Settled.write hlower (heval _)).walked
  · rw [hset, hscope]
    obtain ⟨hreadable, hliteral⟩ := hvalue.literal I hv
    exact .write hlower htrack hreadable hliteral (heval _)

theorem followed_command {l : Element} {name : Tree} {arguments footer : List Tree}
    (he : e.kind = .command) (hl : l.kind = .commandElements) (hname : name.kind = .stringConstant)
    (hchildren : name.children = []) (harguments : ∀ t ∈ arguments, Expression t)
    (hfooter : IsFooter footer) :
    Followed I (I.run bound) (.node e (.node l (name :: arguments) :: footer)) := by
  intro around site known
  have hflow : flowOf name.element = .plain := by
    simp [flowOf, show name.element.kind = .stringConstant from hname]
  rw [(inert_command he hl hname hchildren harguments hfooter).writes,
    walk_plain (by simp [flowOf, he]), walkAll_cons, walk_plain (by simp [flowOf, hl]), walkAll_cons,
    walk_leaf hflow hchildren, walkAll_leaves hfooter.flow, Interpretation.run_command he,
    Interpretation.run_command he]
  have hrendered : ∀ t ∈ arguments, Rendered I around t := fun t ht => (harguments t ht).rendered
  have hcalm : isCalm l.kind = true := by rw [hl]; rfl
  obtain ⟨hscope, hvalues⟩ := walkAll_rendered (Site.holds
    (some ⟨Site.holds site e (.node l (name :: arguments) :: footer), 0⟩) l (name :: arguments))
      1 known hcalm hrendered
  rw [hscope]
  exact .call (hvalues _)

theorem followed_pipeline (he : e.kind = .pipeline ∨ e.kind = .pipelineElements)
    (h : Followed I (I.run bound) t) : Followed I (I.run bound) (.node e [t]) := by
  intro around site known
  have hnames : (Tree.node e [t]).writes = t.writes := by
    rcases he with he | he <;> simp [writes_node, ownWrites, he]
  have hflow : flowOf e = .plain := by rcases he with he | he <;> simp [flowOf, he]
  rw [hnames, walk_plain hflow, walkAll_cons, Interpretation.run_pipeline he, walkAll,
    Interpretation.run_pipeline he]
  exact h _ _ _

theorem Simple.followed (h : Simple t) : Followed I (I.run bound) t := by
  induction h with
  | assignment he htarget hvalue => exact followed_assignment he htarget hvalue
  | command he hl hname hchildren harguments hfooter =>
    exact followed_command he hl hname hchildren harguments hfooter
  | pipeline he _ ih => exact followed_pipeline he ih

/-! ### Statements -/

theorem walkAll_followed {ts : List Tree} (h : ∀ t ∈ ts, Followed I (I.run bound) t) :
    Walked I around (ts.flatMap writes) (I.statements bound ts)
      (I.statements bound (walkAll around holder i known ts).2) known.scope
        (walkAll around holder i known ts).1.scope := by
  induction ts generalizing i known with
  | nil => exact .stop .done
  | cons t ts ih =>
    obtain ⟨ht, hts⟩ := List.forall_mem_cons.mp h
    exact .andThen (ht around (some ⟨holder, i⟩) known) (ih hts)

theorem followed_block {b l : Element} {ts : List Tree} (hb : b.kind = .statementBlock)
    (hl : l.kind = .statements) (h : ∀ t ∈ ts, Followed I (I.run bound) t) :
    Followed I (I.block bound) (.node b [.node l ts]) := by
  intro around site known
  have hnames : (Tree.node b [.node l ts]).writes = ts.flatMap writes := by
    simp [writes_node, ownWrites, hb, hl]
  rw [hnames, walk_frame (by simp [flowOf, hb]), walkAll_cons, walk_plain (by simp [flowOf, hl])]
  exact .block (walkAll_followed h)

/-- A guard among the arms of a conditional, or before the body of a loop. -/
theorem holds_rendered (I : Interpretation V) (around : Surroundings) (holder : Holder) (i : Nat)
    (known : Known) {guard : Tree} (h : Expression guard) (hcalm : isCalm holder.element.kind = true) :
    (walk around (some ⟨holder, i⟩) known guard).1.scope = known.scope ∧
      ∀ {σ}, Sound I known.scope σ →
        I.holds (walk around (some ⟨holder, i⟩) known guard).2 σ = I.holds guard σ := by
  have hrendered : Rendered I around guard := h.rendered
  obtain ⟨hscope, heval⟩ := hrendered (some ⟨holder, i⟩) known (by rintro s ⟨⟩; exact hcalm)
  exact ⟨hscope, fun hσ => by rw [Interpretation.holds, Interpretation.holds, heval _ hσ]⟩

/-- The walk through the arms of a conditional follows them, and leaves no binding for what they
write. -/
def FollowedArms (I : Interpretation V) (bound : Nat) (cs : List Tree) : Prop :=
  ∀ around holder i known, isCalm holder.element.kind = true →
    Settled I (cs.flatMap writes) (I.arms bound cs) (I.arms bound (walkArms around holder i known cs).2)
      known.scope (walkArms around holder i known cs).1.scope

theorem walkArms_block {ts : List Tree} (h : t.kind = .statementBlock) :
    walkArms around holder i known (t :: ts) =
      let walked := walk around (some ⟨holder, i⟩) known t
      let rest := walkArms around holder (i + 1) (walked.1.forget t.writes) ts
      (rest.1, walked.2 :: rest.2) := by
  obtain ⟨e, cs⟩ := t
  rw [kind_node] at h
  simp [walkArms, h]

theorem walkArms_guard {ts : List Tree} (h : isInert t.kind = true) :
    walkArms around holder i known (t :: ts) =
      let walked := walk around (some ⟨holder, i⟩) known t
      let rest := walkArms around holder (i + 1) walked.1 ts
      (rest.1, walked.2 :: rest.2) := by
  obtain ⟨e, cs⟩ := t
  rw [kind_node] at h
  have hclauses : (e.kind == .clauses || e.kind == .catchClauses) = false := by
    cases hkind : e.kind <;> simp_all [isInert]
  have hblock : (e.kind == .statementBlock) = false := by
    cases hkind : e.kind <;> simp_all [isInert]
  simp [walkArms, hclauses, hblock]

theorem followedArms_last {body : Tree} (hkind : body.kind = .statementBlock)
    (hbody : Followed I (I.block bound) body) : FollowedArms I bound [body] := by
  intro around holder i known _
  rw [walkArms_block hkind, List.flatMap_singleton]
  exact (hbody around (some ⟨holder, i⟩) known).forget fun _ => lower_of_mem_writes

theorem followedArms_cons {guard body : Tree} {rest : List Tree} (hguard : Expression guard)
    (hkind : body.kind = .statementBlock) (hbody : Followed I (I.block bound) body)
    (hrest : FollowedArms I bound rest) : FollowedArms I bound (guard :: body :: rest) := by
  intro around holder i known hcalm
  obtain ⟨hscope, hholds⟩ := holds_rendered I around holder i known hguard hcalm
  simp only [walkArms_guard hguard.inert.kind, walkArms_block hkind, List.flatMap_cons,
    hguard.inert.writes, List.nil_append]
  have hthen := (hbody around (some ⟨holder, i + 1⟩)
    (walk around (some ⟨holder, i⟩) known guard).1).forget fun _ => lower_of_mem_writes
  have helse := hrest around holder (i + 2) ((walk around (some ⟨holder, i + 1⟩)
    (walk around (some ⟨holder, i⟩) known guard).1 body).1.forget body.writes) hcalm
  rw [hscope] at hthen
  exact .choose hholds hthen helse

theorem followed_ifElse (he : e.kind = .ifElse) (h : FollowedArms I bound cs) :
    Followed I (I.run bound) (.node e cs) := by
  intro around site known
  have hnames : (Tree.node e cs).writes = cs.flatMap writes := by simp [writes_node, ownWrites, he]
  rw [hnames, walk_arms (by simp [flowOf, he]), Interpretation.run_ifElse he,
    Interpretation.run_ifElse he]
  exact (h around (Site.holds site e cs) 0 known (by rw [Site.holds, he]; rfl)).walked

/-- Nothing is known in a loop about what it writes. -/
theorem not_bound_in_loop {names : List String} {scope : Scope} {k : String} {v : Value}
    (hnames : ∀ k ∈ names, Text.lower k = k) (h : (names.foldl Scope.delete scope).Binds k v) :
    k ∉ names := fun hmem =>
  (Scope.binds_foldl_delete.mp h).2 k hmem (hnames k hmem).symm

/-- The loops whose parts are all run more than once. -/
theorem followed_loop (L : (State V → Bool) → Run V → Run V → Run V) (answer : Bool → Bool)
    {guard body : Tree} (hL : IsLoop L) (hflow : flowOf e = .loop) (hcalm : isCalm e.kind = true)
    (hown : (Tree.node e [guard, body]).ownWrites = [])
    (hrun : ∀ guard body, I.run bound (.node e [guard, body]) =
      L (fun σ => answer (I.holds guard σ)) skip (I.block bound body))
    (hguard : Expression guard) (hbody : Followed I (I.block bound) body) :
    Followed I (I.run bound) (.node e [guard, body]) := by
  intro around site known
  have hnames : (Tree.node e [guard, body]).writes = body.writes := by
    simp [writes_node, hown, hguard.inert.writes]
  rw [walk_loop hflow, hrun, hnames]
  simp only [walkAll, hrun]
  have hclear {k v} : (body.writes.foldl Scope.delete known.scope).Binds k v → k ∉ body.writes :=
    not_bound_in_loop fun _ => lower_of_mem_writes
  obtain ⟨hscope, hholds⟩ := holds_rendered I (around.inLoop body.writes)
    (Site.holds site e [guard, body]) 0 (known.forget body.writes) hguard hcalm
  have hround := hbody (around.inLoop body.writes) (some ⟨Site.holds site e [guard, body], 1⟩)
    (walk (around.inLoop body.writes) (some ⟨Site.holds site e [guard, body], 0⟩)
      (known.forget body.writes) guard).1
  rw [hscope] at hround
  exact (Settled.forget (Walked.loop hL hclear (fun hσ => congrArg answer (hholds hσ)) (List.nil_subset _)
    (List.Subset.refl _) (.stop .done) hround)).walked

theorem followed_loops {guard body : Tree}
    (he : e.kind = .whileLoop ∨ e.kind = .doWhile ∨ e.kind = .doUntil) (hguard : Expression guard)
    (hbody : Followed I (I.block bound) body) : Followed I (I.run bound) (.node e [guard, body]) := by
  rcases he with he | he | he
  · exact followed_loop (fun c step body => rounds c step body bound) id (isLoop_rounds bound)
      (by simp [flowOf, he]) (by simp [isCalm, he]) (by simp [ownWrites, he])
      (fun _ _ => Interpretation.run_while he) hguard hbody
  · exact followed_loop (fun c _ body => atLeastOnce c body bound) id (isLoop_atLeastOnce bound)
      (by simp [flowOf, he]) (by simp [isCalm, he]) (by simp [ownWrites, he])
      (fun _ _ => Interpretation.run_doWhile he) hguard hbody
  · exact followed_loop (fun c _ body => atLeastOnce c body bound) not (isLoop_atLeastOnce bound)
      (by simp [flowOf, he]) (by simp [isCalm, he]) (by simp [ownWrites, he])
      (fun _ _ => Interpretation.run_doUntil he) hguard hbody

/-- A part of the head of a loop that is run. -/
theorem followed_header (ht : t.kind = .initializer ∨ t.kind = .iterator)
    (h : ∀ s ∈ t.children, Followed I (I.run bound) s) :
    Followed I (fun t => I.statements bound t.children) t := by
  intro around site known
  obtain ⟨e, cs⟩ := t
  have he : e.kind = .initializer ∨ e.kind = .iterator := ht
  have hown : (Tree.node e cs).ownWrites = [] := by rcases he with he | he <;> simp [ownWrites, he]
  have hflow : flowOf e = .plain := by rcases he with he | he <;> simp [flowOf, he]
  rw [writes_node, hown, List.nil_append, walk_plain hflow]
  exact walkAll_followed h

theorem followed_for {first test step body : Tree} (he : e.kind = .forLoop)
    (hfirst : Followed I (fun t => I.statements bound t.children) first)
    (htest : test.kind = .condition) (hguards : ∀ t ∈ test.children, Expression t)
    (hstep : Followed I (fun t => I.statements bound t.children) step)
    (hbody : Followed I (I.block bound) body) :
    Followed I (I.run bound) (.node e [first, test, step, body]) := by
  intro around site known
  obtain ⟨c, guards⟩ := test
  rw [kind_node] at htest
  have hcalm : isCalm c.kind = true := by rw [htest]; rfl
  have hflow : flowOf c = .plain := by simp [flowOf, htest]
  have hown : (Tree.node e [first, .node c guards, step, body]).ownWrites = [] := by
    simp [ownWrites, he]
  have hsub {t : Tree} (ht : t ∈ [first, .node c guards, step, body]) :
      t.writes ⊆ (Tree.node e [first, .node c guards, step, body]).writes := by
    rw [writes_node, hown, List.nil_append]
    exact fun k hk => List.mem_flatMap.mpr ⟨t, ht, hk⟩
  have hlower : ∀ k ∈ (Tree.node e [first, .node c guards, step, body]).writes, Text.lower k = k :=
    fun _ => lower_of_mem_writes
  rw [walk_loopFrom (by simp [flowOf, he])]
  simp only [walkAll, walk_plain hflow, Interpretation.run_for he, children_node]
  generalize (Tree.node e [first, .node c guards, step, body]).writes = names at hsub hlower ⊢
  generalize Site.holds site e [first, .node c guards, step, body] = holder
  have honce := hfirst around (some ⟨holder, 0⟩) known
  generalize walk around (some ⟨holder, 0⟩) known first = once at honce ⊢
  have hrendered : ∀ t ∈ guards, Rendered I (around.inLoop names) t := fun t ht =>
    (hguards t ht).rendered
  obtain ⟨hscope, hvalues⟩ := walkAll_rendered (Site.holds (some ⟨holder, 1⟩) c guards) 0
    (once.1.forget names) hcalm hrendered
  generalize walkAll (around.inLoop names) (Site.holds (some ⟨holder, 1⟩) c guards) 0
    (once.1.forget names) guards = tested at hscope hvalues ⊢
  have hholds {σ} (hσ : Sound I (once.1.forget names).scope σ) :
      I.holdsAll tested.2 σ = I.holdsAll guards σ := by
    rw [Interpretation.holdsAll_eq, Interpretation.holdsAll_eq, hvalues σ hσ]
  have hnext := hstep (around.inLoop names) (some ⟨holder, 2⟩) tested.1
  rw [hscope] at hnext
  have hround := hbody (around.inLoop names) (some ⟨holder, 3⟩)
    (walk (around.inLoop names) (some ⟨holder, 2⟩) tested.1 step).1
  have hloop := Walked.loop (isLoop_rounds bound) (not_bound_in_loop hlower) hholds
    (hsub (by simp)) (hsub (by simp)) hnext hround
  exact ((honce.mono (hsub (by simp))).andThen (Settled.forget hloop).walked).mono (by simp)

theorem followed_exit (he : e.kind = .breakStatement ∨ e.kind = .continueStatement) :
    Followed I (I.run bound) (.node e []) := by
  intro around site known
  have hnames : (Tree.node e []).writes = [] := by
    rcases he with he | he <;> simp [writes_node, ownWrites, he]
  have hflow : flowOf e = .plain := by rcases he with he | he <;> simp [flowOf, he]
  rw [hnames, walk_plain hflow, walkAll]
  rcases he with he | he
  · rw [Interpretation.run_break he]
    exact .stop _
  · rw [Interpretation.run_continue he]
    exact .stop _

mutual

/-- What a statement does after the walk. -/
theorem Statement.followed : {t : Tree} → Statement t → Followed I (I.run bound) t
  | _, .simple h => h.followed
  | _, .ifElse he harms => followed_ifElse he harms.followed
  | _, .loop he hguard hbody => followed_loops he hguard hbody.followed
  | _, .forLoop he hfirst htest hstep hbody =>
    followed_for he (followed_header (.inl hfirst.1) fun s hs => (hfirst.2.2 s hs).followed) htest.1
      htest.2.2 (followed_header (.inr hstep.1) fun s hs => (hstep.2.2 s hs).followed) hbody.followed
  | _, .exit he _ => followed_exit he

theorem Block.followed : {b : Tree} → Block .statementBlock b → Followed I (I.block bound) b
  | _, .mk hb hl h => followed_block hb hl fun t ht => (h t ht).followed

theorem Arms.followed : {cs : List Tree} → Arms cs → FollowedArms I bound cs
  | _, .nil => fun _ _ _ _ _ => .skip
  | _, .last hbody => followedArms_last hbody.kind hbody.followed
  | _, .cons hguard hbody hrest =>
    followedArms_cons hguard hbody.kind hbody.followed hrest.followed

end

/-- Nothing is known where a script starts. -/
theorem sound_start (σ : State V) : Sound I (Scope.enter {}) σ :=
  have hnone {k v} (hk : (Scope.enter {}).Binds k v) : False :=
    Scope.not_binds_empty (Scope.binds_enter.mp hk)
  ⟨Scope.apart_enter Scope.apart_empty, fun hk => (hnone hk).elim, fun hk => (hnone hk).elim⟩

theorem Script.propagated {t' : Tree} (h : Script t) (ht : propagateConstants t = some t') :
    I.script bound t' = I.script bound t := by
  simp only [propagateConstants, Option.ite_none_left_eq_some, Option.ite_none_right_eq_some,
    Option.some.injEq] at ht
  obtain ⟨-, -, rfl⟩ := ht
  obtain ⟨he, @⟨_, b, l, ts, hb, hl, hts⟩⟩ := h
  have hblock : flowOf b = .plain := by simp [flowOf, hb]
  have hlist : flowOf l = .plain := by simp [flowOf, hl]
  generalize Surroundings.ofTree _ = around
  rw [walk_frame (by simp [flowOf, he])]
  simp only [walkAll, walk_plain hblock, walk_plain hlist]
  funext σ
  have hstart : Sound I (Known.enter {}).scope σ := sound_start σ
  exact (walkAll_followed fun t ht => (hts t ht).followed).same hstart

end Unscramble.Scripts
