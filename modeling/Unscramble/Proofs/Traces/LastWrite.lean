import Unscramble.Proofs.Traces.Walk

/-! Constant propagation on all runs. Where a literal was put in the place of a variable, every run
that reads the variable there has last written it by the plain assignment of this literal, if the
variable is not written in a part that is not always run and whose writes the walk does not forget.
A variable that is written there may be replaced by a literal it does not have. -/
namespace Unscramble.Traces

open Simplify Unscramble.Tree Scripts

/-- How the walk goes through a node that is run in some way. -/
theorem flowOf_of_formOf (e : Element) :
    match formOf e with
    | .read => flowOf e = .read
    | .assignment => flowOf e = .assignment
    | .increment => flowOf e = .increment
    | .logical | .process => flowOf e = .plain
    | .forEach => flowOf e = .loopOver
    | .forLoop => flowOf e = .loopFrom
    | .loop => flowOf e = .loop
    | .ifElse | .switch | .attempts => flowOf e = .arms
    | .definition => flowOf e = .deferred
    | .inOrder => flowOf e = .plain ∨ flowOf e = .frame := by
  unfold formOf flowOf
  cases e.kind
  case unaryExpression => by_cases h : e.isIncrement = true <;> simp [h]
  case binaryExpression => by_cases h : e.operator? = some .and ∨ e.operator? = some .or <;> simp [h]
  case namedBlock => by_cases h : Text.lower (e.attr "BlockKind") = "process" <;> simp [h]
  all_goals first | rfl | exact .inl rfl | exact .inr rfl

variable {root root' : Tree} {x : String} {place : Address} {e : Element} {cs : List Tree}
  {around : Surroundings} {site : Option Site} {known : Known}

/-- A tree that the walk leaves as it is. -/
theorem readsIn_unchanged {t : Tree} (hroot : root.at? place = some t)
    (hput : root'.at? place = some t) : ReadsIn root root' x (runs place t) known :=
  .of_every ((runs_within place t).imp fun event hevent p hp s _ u hu _ hne => by
    subst hp
    obtain ⟨q, rfl⟩ := hevent
    rw [at?_append, hroot] at hu
    rw [at?_append, hput] at hne
    exact absurd hu hne)

theorem readVariable_eq_or (around : Surroundings) (site : Option Site) (known : Known) (t : Tree) :
    (readVariable around site t known).2 = t ∨
    ∃ name v quoting, t.variableKey? = some name ∧ known.scope.get? name = some v ∧
      (readVariable around site t known).2 = v.toTree quoting := by
  unfold readVariable
  split
  next name site hname =>
    split
    · exact .inl rfl
    · split
      next => exact .inl rfl
      next v hv =>
        split
        · exact .inl rfl
        · split
          next quoting _ => exact .inr ⟨name, v, quoting, hname, hv, rfl⟩
          next => exact .inl rfl
  next => exact .inl rfl

theorem sound_read (hroot : root.at? place = some (.node e cs))
    (hput : root'.at? place = some (readVariable around site (.node e cs) known).2) :
    Sound root root' x (.emits [.read place]) known (readVariable around site (.node e cs) known).1 := by
  have hfits : ∀ s, Fits x known s →
      Fits x (readVariable around site (.node e cs) known).1 s := fun _ =>
    (readVariable_narrows (p := False)).fits id
  rintro s trace ending hs ⟨hfirst, hdone⟩
  have hright : Right root root' x place s := by
    intro _ u hu hx hne
    cases hroot.symm.trans hu
    rcases readVariable_eq_or around site known (.node e cs) with heq | ⟨name, v, quoting, hname, hv, heq⟩
    · exact absurd (heq ▸ hput) hne
    · cases hx.symm.trans hname
      have hbinds := Scope.binds_of_get? hv
      rw [lower_of_variableKey? hx] at hbinds
      exact ⟨v, quoting, heq ▸ hput, hs.holds v hbinds⟩
  refine ⟨fun before p rest h => ?_, fun hend => ?_⟩
  · obtain ⟨w, hw⟩ := hfirst
    subst h
    cases before with
    | nil =>
      obtain ⟨rfl, -⟩ : p = place ∧ rest ++ w = [] := by simpa using hw
      exact hright
    | cons => simp at hw
  · rw [hdone hend]
    exact hfits s hs

/-- Forgotten names may be written. -/
theorem Fits.forget {s : Latest} {trace : List Event} {names : List String} (hlower : Text.lower x = x)
    (hs : Fits x known s) (htrace : ∀ event ∈ trace, event.isWriteOf x → x ∈ names) :
    Fits x (known.forget names) (after x s trace) := by
  have hsettles : Settles x (x ∈ names) known (known.forget names) :=
    (Narrows.refl (p := x ∈ names ∧ False)).forgotten hlower
  exact hsettles.fits_after hs fun hx => after_eq_of_forall fun event hmem hwrite =>
    hx (htrace event hmem hwrite)

theorem forgotten_isWriteOf {names : List String} :
    ∀ event ∈ names.map (Event.write · none), event.isWriteOf x → x ∈ names := by
  intro event hevent hwrite
  obtain ⟨name, hname, rfl⟩ := List.mem_map.mp hevent
  exact hwrite ▸ hname

/-- A plain assignment of a literal makes it known, any other one makes nothing known. -/
theorem assign_fits {target value : Tree} {s : Latest} (hlower : Text.lower x = x) (hs : Fits x known s) :
    Fits x (assign around (.node e cs) target value known) (after x s (assigned e target value)) := by
  have hplain : (Tree.node e cs).isPlainAssignment = e.isPlainAssignment := rfl
  unfold assign assigned
  rw [hplain]
  cases hname : target.variableKey? with
  | none => exact hs.forget hlower forgotten_isWriteOf
  | some name =>
    have hwrite {literal : Option Value} : ∀ event ∈ [Event.write name literal],
        event.isWriteOf x → x ∈ [name] := by
      rintro event hevent hwrite
      obtain rfl := List.mem_singleton.mp hevent
      exact List.mem_singleton.mpr hwrite.symm
    cases hflag : e.isPlainAssignment && !target.isSplatted with
    | false =>
      simp only [targets_of_variableKey? hname]
      exact hs.forget hlower hwrite
    | true =>
      simp only [if_true]
      split
      next v hv _ =>
        refine ⟨Scope.apart_set hs.apart, fun w hw => ?_⟩
        rw [hv]
        rcases Scope.binds_of_set hs.apart hw with ⟨hk, rfl⟩ | ⟨hw, hk⟩
        · rw [lower_of_variableKey? hname] at hk
          exact if_pos hk.symm
        · rw [lower_of_variableKey? hname] at hk
          exact (if_neg fun h => hk h.symm).trans (hs.holds w hw)
      next => exact hs.forget hlower hwrite

theorem not_read_of_mem_assigned {target value : Tree} :
    ∀ event ∈ assigned e target value, ∀ p, event ≠ .read p := by
  rintro event h p rfl
  exact assigned_within (P := fun _ => False) e target value _ h

theorem not_read_of_mem_forgotten {names : List String} :
    ∀ event ∈ names.map (Event.write · none), ∀ p, event ≠ .read p := by
  rintro event h p rfl
  exact forgotten_within (P := fun _ => False) names _ h

/-! ### One construct at a time -/

/-- Before a loop, what it writes is forgotten. -/
theorem not_mem_of_binds_forget {names : List String} {v : Value} (hlower : Text.lower x = x)
    (h : (known.forget names).scope.Binds x v) : x ∉ names := fun hmem =>
  (Scope.binds_foldl_delete.mp h).2 x hmem hlower.symm

section
variable {holder : Holder} {target value operand left item body subject : Tree}
  {right rest more : List Tree}

theorem sound_assignment (hlower : Text.lower x = x) (htarget : x ∉ target.writes)
    (h : Followed root root' x value)
    (hroot : root.at? place = some (.node e (target :: value :: rest)))
    (hput : root'.at? place =
      some (.node e (target :: (walk around (some ⟨holder, 1⟩) known value).2 :: rest))) :
    Sound root root' x
      (.both (runs (place ++ [1]) value) (.both
        (if target.is .variableRef then .nothing else runs (place ++ [0]) target)
        (.emits (assigned e target value)))) known
      (assign around (.node e (target :: value :: rest)) target value
        (walk around (some ⟨holder, 1⟩) known value).1) := by
  have hstand := stand_children hroot
  have hstand' := stand_children hput
  have hreads : ReadsIn root root' x
      (if target.is .variableRef then .nothing else runs (place ++ [0]) target)
      (walk around (some ⟨holder, 1⟩) known value).1 := by
    split
    · exact .nothing
    · exact readsIn_unchanged hstand.head hstand'.head
  have hspares : Spares x
      (if target.is .variableRef then .nothing else runs (place ++ [0]) target) := by
    split
    · exact .nothing
    · exact (runs_within _ target).spares htarget
  exact (h around _ known _ hstand.tail.head hstand'.tail.head).both
    ((Sound.of_spares hreads fun _ _ => hspares).both
      (.emits not_read_of_mem_assigned fun _ => assign_fits hlower))

theorem sound_increment (hlower : Text.lower x = x) (hoperand : x ∉ operand.writes)
    (hroot : root.at? place = some (.node e (operand :: rest)))
    (hput : root'.at? place = some (.node e (operand :: rest))) :
    Sound root root' x
      (.both (runs (place ++ [0]) operand) (.emits (operand.targets.map (.write · none)))) known
      (known.forget operand.targets) :=
  (Sound.of_spares (readsIn_unchanged (stand_children hroot).head (stand_children hput).head)
    fun _ _ => (runs_within _ operand).spares hoperand).both
      (.emits not_read_of_mem_forgotten fun _ hs => hs.forget hlower forgotten_isWriteOf)

/-- The right operand writes nothing of what is known, whether it is run or not. -/
theorem sound_logical (hright : ∀ u ∈ right, x ∉ u.writes)
    (h : ∀ t ∈ left :: right, Followed root root' x t)
    (hroot : root.at? place = some (.node e (left :: right)))
    (hput : root'.at? place =
      some (.node e (walkAll around holder 0 known (left :: right)).2)) :
    Sound root root' x
      (.both (runs (place ++ [0]) left) (.optional (runsInOrder place 1 right))) known
      (walkAll around holder 0 known (left :: right)).1 := by
  have hstand := stand_children hroot
  have hstand' := stand_children hput
  rw [walkAll_cons] at hstand' ⊢
  obtain ⟨hl, hr⟩ := List.forall_mem_cons.mp h
  have hx : ¬ Tracks x around right := fun hx => by
    obtain ⟨u, hu, hx⟩ := List.mem_flatMap.mp hx.1
    exact hright u hu hx
  exact (hl around _ known _ hstand.head hstand'.head).both
    ((walkAll_inOrder hr hstand.tail hstand'.tail).either
      (.nothing fun _ => (walkAll_narrows fun t _ => walk_narrows t).fits hx))

/-- What is known in a loop is not written in it. -/
theorem sound_rounds {a : Runs} {P : Address → Prop} {names : List String} {k k' : Known}
    (hlower : Text.lower x = x) (hwithin : Every (Within P names) a)
    (ha : ReadsIn root root' x a (k.forget names)) (hk : Narrows x False (k.forget names) k') :
    Sound root root' x a.repeated k (k'.forget names) :=
  ((Sound.repeated ha fun _ hv => hwithin.spares (not_mem_of_binds_forget hlower hv)).weaken fun _ =>
    (Narrows.forget (p := False) names).fits id).mono fun _ => (hk.trans (.forget names)).fits id

theorem writes_subset_node {ts : List Tree} (h : ts ⊆ cs) :
    ts.flatMap writes ⊆ (Tree.node e cs).writes := by
  intro k hk
  obtain ⟨t, ht, hk⟩ := List.mem_flatMap.mp hk
  rw [writes_node]
  exact List.mem_append_right _ (List.mem_flatMap.mpr ⟨t, h ht, hk⟩)

theorem not_tracks_inLoop {names : List String} {ts : List Tree} (h : ts.flatMap writes ⊆ names) :
    ¬ Tracks x (around.inLoop names) ts := fun hx => (mayTrack_inLoop hx.2).1 (h hx.1)

/-- Parts of a loop that are run in any order, any number of times. -/
theorem sound_loop {names : List String} {ts : List Tree} {i : Nat} (hlower : Text.lower x = x)
    (hsub : ts.flatMap writes ⊆ names) (h : ∀ t ∈ ts, Followed root root' x t)
    (hroot : Stand root place i ts)
    (hput : Stand root' place i (walkAll (around.inLoop names) holder i (known.forget names) ts).2) :
    Sound root root' x (runsAny place i ts).repeated known
      ((walkAll (around.inLoop names) holder i (known.forget names) ts).1.forget names) :=
  have hwithin : Every (Within (From place i) names) (runsAny place i ts) :=
    (runsAny_within fun t _ => fun _ => runs_within _ t).imp (Within.mono (fun _ => id) hsub)
  sound_rounds hlower hwithin (walkAll_any h hroot hput (not_tracks_inLoop hsub))
    ((walkAll_narrows fun t _ => walk_narrows t).mono (not_tracks_inLoop hsub))

theorem sound_forEach {names : List String} (hlower : Text.lower x = x)
    (hitem : item.variableKey?.toList ⊆ names) (hsub : body.writes ⊆ names)
    (hbody : Followed root root' x body) (hmore : ∀ t ∈ more, Followed root root' x t)
    (hroot : Stand root place 0 (item :: body :: more))
    (hput : Stand root' place 0 (item ::
      (walk (around.inLoop names) (some ⟨holder, 1⟩)
        ((walkFirst around holder 2 known more).1.forget names) body).2 ::
      (walkFirst around holder 2 known more).2)) :
    Sound root root' x
      (.both (runsFirst place 2 more) (.repeated (.both
        (.emits (item.variableKey?.toList.map (.write · none))) (runs (place ++ [1]) body)))) known
      ((walk (around.inLoop names) (some ⟨holder, 1⟩)
        ((walkFirst around holder 2 known more).1.forget names) body).1.forget names) := by
  have hwrite : Every (Within (fun _ => True) names)
      (.emits (item.variableKey?.toList.map (.write · none))) := .emits fun event hevent =>
    (forgotten_within _ event hevent).mono (fun _ => id) hitem event
  have hwithin : Every (Within (fun _ => True) names) (runs (place ++ [1]) body) :=
    (runs_within _ body).imp (Within.mono (fun _ _ => trivial) hsub)
  have hround := (Sound.of_spares (.of_every (.emits fun event hevent p hp =>
    absurd hp (not_read_of_mem_forgotten event hevent p)))
      fun _ hv => hwrite.spares (not_mem_of_binds_forget hlower hv)).both
        (hbody (around.inLoop names) _ _ _ hroot.tail.head hput.tail.head)
  exact (walkFirst_sound hmore hroot.tail.tail hput.tail.tail).both
    (sound_rounds hlower (hwrite.both hwithin) hround.reads ((walk_narrows body _ _ _).mono fun hx =>
      (mayTrack_inLoop hx.2).1 (hsub hx.1)))

/-- Blocks are the only parts among some others that are not doubtful. -/
theorem inBlocks_of_filter {parts us : List Tree} (hsub : parts.filter (!·.is .statementBlock) ⊆ us)
    (h : ∀ u ∈ us, x ∉ u.writes) : InBlocks x parts := fun u hu hblock =>
  h u (hsub (List.mem_filter.mpr ⟨hu, by simp [hblock]⟩))

/-- Reads in the clauses of a `switch` whose clauses write the variable are none of those that are
looked at. -/
theorem readsIn_disturbed {a : Runs} {u : Tree} {names : List String} (hkind : e.kind = .switchStatement)
    (hroot : root.at? place = some (.node e cs)) (hu : u ∈ cs.tail) (hx : x ∈ u.writes)
    (ha : Every (Within (From place 1) names) a) : ReadsIn root root' x a known :=
  .of_every (ha.imp fun event hevent p hp s hcalm => by
    subst hp
    obtain ⟨j, hj, q, rfl⟩ := hevent
    rw [List.append_assoc, List.singleton_append] at hcalm
    exact absurd hx (hcalm.of_switch hroot hkind (by omega) u hu))

theorem sound_switch (hlower : Text.lower x = x) (hkind : e.kind = .switchStatement)
    (hblocks : InBlocks x (rest.flatMap partsOf)) (hlist : isClauseList subject.kind = false)
    (h : ∀ u ∈ nodesAll (subject :: rest), Followed root root' x u)
    (hroot : root.at? place = some (.node e (subject :: rest)))
    (hput : root'.at? place = some (.node e (walkArms around holder 0 known (subject :: rest)).2)) :
    Sound root root' x (.both (runs (place ++ [0]) subject) (.repeated (runsPart place 1 rest))) known
      (walkArms around holder 0 known (subject :: rest)).1 := by
  have hstand := stand_children hroot
  have hstand' := stand_children hput
  simp only [walkArms_cons] at hstand' ⊢
  have hsubject := walkArm_sound (h subject (by simp [nodesAll])) hlist hstand.head hstand'.head
  refine hsubject.both ?_
  generalize (walkArm around _ 0 known subject).1 = k at hstand' ⊢
  have hwithin : WithinList place 1 (rest.flatMap partsOf) (runsPart place 1 rest) :=
    runsPart_within fun u _ => fun _ => runs_within _ u
  have hsettles : Settles x (x ∈ (rest.flatMap partsOf).flatMap writes) k
      (walkArms around holder 1 k rest).1 := walkArms_settles hlower hblocks
  by_cases hx : x ∈ (rest.flatMap partsOf).flatMap writes
  · obtain ⟨u, hu, hxu⟩ := List.mem_flatMap.mp (writes_parts_subset rest hx)
    have hreads : ReadsIn root root' x (runsPart place 1 rest).repeated k :=
      readsIn_disturbed hkind hroot hu hxu hwithin.repeated
    exact fun s trace ending hs hrun => ⟨hreads s trace ending hs hrun,
      fun _ => hsettles.fits_after hs fun hp => absurd hx hp⟩
  · have hreads := walkArms_part hlower (fun u hu => h u (by simp [nodesAll, hu])) hstand.tail
      hstand'.tail hblocks
    exact (Sound.repeated hreads fun _ _ => hwithin.spares hx).mono fun _ => hsettles.fits

/-- The parts of a `process` block are run in their order, any number of times. -/
theorem sound_process (hcs : ∀ u ∈ cs, x ∉ u.writes) (h : ∀ t ∈ cs, Followed root root' x t)
    (hroot : root.at? place = some (.node e cs))
    (hput : root'.at? place = some (.node e (walkAll around holder 0 known cs).2)) :
    Sound root root' x (runsInOrder place 0 cs).repeated known
      (walkAll around holder 0 known cs).1 := by
  have hx : x ∉ cs.flatMap writes := fun hx => by
    obtain ⟨u, hu, hx⟩ := List.mem_flatMap.mp hx
    exact hcs u hu hx
  have hwithin : WithinList place 0 cs (runsInOrder place 0 cs) :=
    runsInOrder_within fun t _ => fun _ => runs_within _ t
  have hreads := (walkAll_inOrder h (stand_children hroot) (stand_children hput)).reads
  exact (Sound.repeated hreads fun _ _ => hwithin.spares hx).mono fun _ =>
    (walkAll_narrows fun t _ => walk_narrows t).fits fun hp => hx hp.1

/-- Nothing is tracked in a part that is run later, and nothing of it is run here. -/
theorem sound_definition : Sound root root' x .nothing known
    (walkAll around.later holder 0 known cs).1 :=
  have hk : Narrows x (Tracks x around.later cs) known (walkAll around.later holder 0 known cs).1 :=
    walkAll_narrows fun t _ => walk_narrows t
  .nothing fun _ => hk.fits fun hp => Bool.false_ne_true (not_mayTrack_later.symm.trans hp.2)

theorem sound_frame (h : ∀ t ∈ cs, Followed root root' x t)
    (hroot : root.at? place = some (.node e cs))
    (hput : root'.at? place = some (.node e (walkAll around holder 0 known.enter cs).2)) :
    Sound root root' x (runsInOrder place 0 cs) known
      (walkAll around holder 0 known.enter cs).1.leave :=
  ((walkAll_inOrder h (stand_children hroot) (stand_children hput)).weaken fun _ =>
    (Narrows.enter (p := False)).fits id).mono fun _ => (Narrows.leave (p := False)).fits id

end

/-- A construct that lacks the parts it needs is not run. -/
theorem sound_forgotten (names : List String) :
    Sound root root' x .nothing known (known.forget names) :=
  .nothing fun _ => (Narrows.forget (p := False) names).fits id

/-- One step of the induction over the tree: a construct whose parts are followed is followed. -/
theorem followed_node (hlower : Text.lower x = x) (hguarded : Guarded x (.node e cs))
    (h : ∀ u ∈ nodesAll cs, Followed root root' x u) : Followed root root' x (.node e cs) := by
  intro around site known place hroot hput
  have hc : ∀ t ∈ cs, Followed root root' x t := fun t ht => h t (child_mem_nodesAll ht)
  have hsure := hguarded.certain _ (mem_nodes_self _)
  have harms := hguarded.arms _ (mem_nodes_self _)
  have hflow := flowOf_of_formOf e
  rw [walk.eq_def] at hput ⊢
  rw [runs.eq_def]
  rw [doubtful, element_node, children_node] at hsure
  rw [plainArms, element_node, children_node] at harms
  cases he : formOf e <;> rw [he] at hflow hsure harms
  case read =>
    simp only [he, hflow] at hput ⊢
    exact sound_read hroot hput
  case assignment =>
    simp only [he, hflow] at hput ⊢
    rcases cs with _ | ⟨target, _ | ⟨value, rest⟩⟩
    · exact .nothing fun _ => id
    · exact .nothing fun _ => id
    · exact sound_assignment hlower (hsure target (by simp)) (hc value (by simp)) hroot hput
  case increment =>
    simp only [he, hflow] at hput ⊢
    rcases cs with _ | ⟨operand, rest⟩
    · exact sound_forgotten _
    · exact sound_increment hlower (hsure operand (by simp)) hroot hput
  case logical =>
    simp only [he, hflow] at hput ⊢
    rcases cs with _ | ⟨left, right⟩
    · exact .nothing fun _ => id
    · exact sound_logical (fun u hu => hsure u (by simp [hu])) hc hroot hput
  case forEach =>
    simp only [he, hflow] at hput ⊢
    rcases cs with _ | ⟨item, _ | ⟨body, more⟩⟩
    · exact sound_forgotten _
    · exact sound_forgotten _
    · have hitem : item.variableKey?.toList ⊆ (Tree.node e (item :: body :: more)).writes := by
        rw [writes_node]
        simp [ownWrites, kind_of_formOf_forEach he]
      have hbody : [body].flatMap writes ⊆ (Tree.node e (item :: body :: more)).writes :=
        writes_subset_node (by simp)
      have hsub : body.writes ⊆ (Tree.node e (item :: body :: more)).writes := by simpa using hbody
      exact sound_forEach hlower hitem hsub (hc body (by simp)) (fun t ht => hc t (by simp [ht]))
        (stand_children hroot) (stand_children hput)
  case forLoop =>
    simp only [he, hflow] at hput ⊢
    rcases cs with _ | ⟨first, rest⟩
    · exact sound_forgotten _
    · have hstand := stand_children hroot
      have hstand' := stand_children hput
      exact (hc first (by simp) around _ known _ hstand.head hstand'.head).both
        (sound_loop hlower (writes_subset_node (by simp)) (fun t ht => hc t (by simp [ht])) hstand.tail
          hstand'.tail)
  case loop =>
    simp only [he, hflow] at hput ⊢
    exact sound_loop hlower (writes_subset_node (List.Subset.refl cs)) hc (stand_children hroot)
      (stand_children hput)
  case ifElse =>
    simp only [he, hflow] at hput ⊢
    exact walkArms_arms hlower around _ 0 known cs hc harms (stand_children hroot)
      (stand_children hput) (inBlocks_of_filter (List.Subset.refl _) hsure)
  case switch =>
    simp only [he, hflow] at hput ⊢
    rcases cs with _ | ⟨subject, rest⟩
    · exact .nothing fun _ => id
    · have hblocks : InBlocks x (rest.flatMap partsOf) :=
        inBlocks_of_filter (List.Subset.refl _) hsure
      exact sound_switch hlower (kind_of_formOf_switch he) hblocks (harms subject (by simp)) h hroot hput
  case attempts =>
    simp only [he, hflow] at hput ⊢
    exact walkArms_attempts hlower h (stand_children hroot) (stand_children hput)
      (inBlocks_of_filter (List.Subset.refl _) hsure)
  case process =>
    simp only [he, hflow] at hput ⊢
    exact sound_process (fun u hu => hsure u (by simp [hu])) hc hroot hput
  case definition =>
    simp only [he, hflow]
    exact sound_definition
  case inOrder =>
    rcases hflow with hflow | hflow
    · simp only [he, hflow] at hput ⊢
      exact walkAll_inOrder hc (stand_children hroot) (stand_children hput)
    · simp only [he, hflow] at hput ⊢
      exact sound_frame hc hroot hput

/-- Every run of a part is followed by the walk through it. -/
theorem followed (hlower : Text.lower x = x) (t : Tree) :
    Guarded x t → Followed root root' x t :=
  nodes_induction (P := fun t => Guarded x t → Followed root root' x t)
    (fun e cs ih hguarded => followed_node hlower hguarded fun u hu =>
      ih u hu (hguarded.node (by simp [nodes, hu]))) t

/-! ### Whole scripts -/

theorem fits_nothing : Fits x {} none :=
  ⟨Scope.apart_empty, fun _ hv => (Scope.not_binds_empty hv).elim⟩

/-- Wherever a literal was put in the place of a variable that is not written in doubtful parts, it is
what the variable was last set to, by a plain assignment, on every run that reads it there. -/
theorem lastWrite_of_propagateConstants {t t' u : Tree} {p : Address} {trace before rest : List Event}
    {ending : Ending} (h : propagateConstants t = some t') (hu : t.at? p = some u)
    (hx : u.variableKey? = some x) (hput : t'.at? p ≠ some u) (hguarded : Guarded x t)
    (hcalm : Undisturbed x t p) (hrun : runs [] t trace ending)
    (htrace : trace = before ++ .read p :: rest) :
    ∃ v quoting, t'.at? p = some (v.toTree quoting) ∧ lastWrite x before = some (some v) := by
  simp only [propagateConstants, Option.ite_none_left_eq_some, Option.ite_none_right_eq_some,
    Option.some.injEq] at h
  obtain ⟨-, -, rfl⟩ := h
  have hfollowed := followed (lower_of_variableKey? hx) t hguarded (.ofTree t) none {} [] rfl rfl
  exact (hfollowed none trace ending fits_nothing hrun).1 before p rest htrace hcalm u hu hx hput

/-! ### A conditional with two guards -/

section
variable {place : Address} {i : Nat} {e : Element} {t : Tree} {ts : List Tree} {u v : List Event}

theorem emits_all (events : List Event) : Runs.emits events events .done :=
  ⟨List.prefix_refl _, fun _ => rfl⟩

theorem both_done {a b : Runs} (ha : a u .done) (hb : b v .done) : a.both b (u ++ v) .done :=
  .inr ⟨u, v, rfl, ha, hb⟩

theorem runsInOrder_one (h : runs (place ++ [i]) t u .done) : runsInOrder place i [t] (u ++ []) .done :=
  both_done h (emits_all [])

theorem runs_inOrder (he : formOf e = .inOrder) (h : runsInOrder place 0 ts u .done) :
    runs place (.node e ts) u .done := by
  rw [runs.eq_def]
  simpa only [he] using h

theorem runs_wrapped (he : formOf e = .inOrder) (h : runs (place ++ [0]) t u .done) :
    runs place (.node e [t]) (u ++ []) .done := runs_inOrder he (runsInOrder_one h)

end

def readOf (name : String) : Tree := leaf .variableRef [("VariablePath", name)] none

/-- `$name = n` -/
def setTo (name : String) (n : Int64) : Tree :=
  branch .assignment [("Operator", "Equals")] [readOf name, branch .commandExpression [] [intTree n]]

def statementOf (expression : Tree) : Tree := branch .pipeline [] [branch .pipelineElements []
  [branch .commandExpression [] [expression]]]

def emptyBlock : Tree := branch .statementBlock [] [branch .statements [] []]

def binaryOf (operator : String) (left right : Tree) : Tree :=
  branch .binaryExpression [("Operator", operator)] [left, right]

/-- The arms of `if ($a) {} elseif (guard -eq $b) {}`. -/
def guardedArms (guard : Tree) : List Tree :=
  [statementOf (readOf "a"), emptyBlock, statementOf (binaryOf "Ieq" guard (readOf "b")), emptyBlock]

/-- The script `$x = 1; if ($a) {} elseif (guard -eq $b) {}; last + 3`. -/
def conditional (guard last : Tree) : Tree :=
  branch .scriptBlock [] [branch .namedBlock [("BlockKind", "End"), ("Unnamed", "True")]
    [branch .statements [] [setTo "x" 1, branch .ifElse [] (guardedArms guard),
      statementOf (binaryOf "Plus" last (intTree 3))]]]

theorem runs_statementOf {place : Address} {t : Tree} {u : List Event}
    (h : runs (place ++ [0] ++ [0] ++ [0]) t u .done) :
    runs place (statementOf t) (u ++ [] ++ [] ++ []) .done :=
  runs_wrapped rfl (runs_wrapped rfl (runs_wrapped rfl h))

theorem runs_setTo {place : Address} {name key : String} {n : Int64}
    (hwrite : assigned (setTo name n).element (readOf name)
      (branch .commandExpression [] [intTree n]) = [.write key (some (.int n))]) :
    runs place (setTo name n) [.write key (some (.int n))] .done := by
  have hvalue : runs (place ++ [1]) (branch .commandExpression [] [intTree n]) [] .done :=
    runs_wrapped (u := []) rfl (runs_inOrder rfl (emits_all []))
  exact both_done (u := []) hvalue (both_done (u := []) (emits_all []) (hwrite ▸ emits_all _))

theorem runs_sum {place : Address} {left right : Tree} {u v : List Event}
    (hleft : runs (place ++ [0] ++ [0] ++ [0] ++ [0]) left u .done)
    (hright : runs (place ++ [0] ++ [0] ++ [0] ++ [1]) right v .done) :
    runs place (statementOf (binaryOf "Plus" left right)) (u ++ v) .done := by
  have hplus : formOf ⟨.binaryExpression, .ofList [("Operator", "Plus")], none⟩ = .inOrder := by
    decide +kernel
  have hoperands : runsInOrder (place ++ [0] ++ [0] ++ [0]) 0 [left, right] (u ++ (v ++ [])) .done :=
    both_done hleft (runsInOrder_one hright)
  have hsum : runs place (statementOf (binaryOf "Plus" left right)) _ .done :=
    runs_statementOf (runs_inOrder hplus hoperands)
  simpa only [List.append_nil] using hsum

/-- A run that goes through the arms in some way. -/
theorem runs_conditional {guard last : Tree} {u v : List Event}
    (harms : runsArms [0, 0, 1] 0 (guardedArms guard) u .done)
    (hlast : runs [0, 0, 2, 0, 0, 0, 0] last v .done) :
    runs [] (conditional guard last) (.write "x" (some (.int 1)) :: (u ++ v)) .done := by
  have hset : runs [0, 0, 0] (setTo "x" 1) [.write "x" (some (.int 1))] .done :=
    runs_setTo (by decide +kernel)
  have hif : runs [0, 0, 1] (branch .ifElse [] (guardedArms guard)) u .done := harms
  have hthree : runs [0, 0, 2, 0, 0, 0, 1] (intTree 3) [] .done := runs_inOrder rfl (emits_all [])
  have hsum : runs [0, 0, 2] (statementOf (binaryOf "Plus" last (intTree 3))) (v ++ []) .done :=
    runs_sum hlast hthree
  have hlist : runsInOrder [0, 0] 0 [setTo "x" 1, branch .ifElse [] (guardedArms guard),
      statementOf (binaryOf "Plus" last (intTree 3))]
        ([.write "x" (some (.int 1))] ++ (u ++ (v ++ [] ++ []))) .done :=
    both_done hset (both_done hif (runsInOrder_one hsum))
  have hblock : formOf ⟨.namedBlock, .ofList [("BlockKind", "End"), ("Unnamed", "True")], none⟩ =
      .inOrder := by decide +kernel
  have hall : runs [] (conditional guard last) _ .done :=
    runs_wrapped rfl (runs_wrapped hblock (runs_inOrder rfl hlist))
  simpa only [List.append_nil, List.singleton_append] using hall

/-- A read in the second guard, on the run on which the first guard answers no. -/
theorem lastWrite_in_second_guard :
    let t := conditional (readOf "x") (readOf "x")
    let place := [0, 0, 1, 2, 0, 0, 0, 0]
    let before := [.write "x" (some (.int 1)), .read [0, 0, 1, 0, 0, 0, 0]]
    ∃ t' rest, propagateConstants t = some t' ∧ Guarded "x" t ∧ Undisturbed "x" t place ∧
      runs [] t (before ++ .read place :: rest) .done ∧
        ∃ v quoting, t'.at? place = some (v.toTree quoting) ∧
          lastWrite "x" before = some (some v) := by
  intro t place before
  have hguarded : Guarded "x" t := ⟨by decide +kernel, by decide +kernel⟩
  have hcalm : Undisturbed "x" t place := by decide +kernel
  have hput : propagateConstants t = some (conditional (intTree 1) (intTree 1)) := by decide +kernel
  have hfirst : runs [0, 0, 1, 0] (statementOf (readOf "a")) [.read [0, 0, 1, 0, 0, 0, 0]] .done :=
    runs_statementOf (u := [.read [0, 0, 1, 0, 0, 0, 0]]) (emits_all _)
  have hequal : formOf ⟨.binaryExpression, .ofList [("Operator", "Ieq")], none⟩ = .inOrder := by
    decide +kernel
  have hright : runs [0, 0, 1, 2, 0, 0, 0, 1] (readOf "b") [.read [0, 0, 1, 2, 0, 0, 0, 1]] .done :=
    emits_all _
  have hoperands : runsInOrder [0, 0, 1, 2, 0, 0, 0] 0 [readOf "x", readOf "b"]
      ([.read place] ++ ([.read [0, 0, 1, 2, 0, 0, 0, 1]] ++ [])) .done :=
    both_done (emits_all [.read place]) (runsInOrder_one hright)
  have hsecond : runs [0, 0, 1, 2] (statementOf (binaryOf "Ieq" (readOf "x") (readOf "b")))
      [.read place, .read [0, 0, 1, 2, 0, 0, 0, 1]] .done :=
    runs_statementOf (u := [.read place, .read [0, 0, 1, 2, 0, 0, 0, 1]]) (runs_inOrder hequal hoperands)
  have hskipped : runsArms [0, 0, 1] 4 [] [] .done := emits_all []
  have harms : runsArms [0, 0, 1] 0 (guardedArms (readOf "x"))
      ([.read [0, 0, 1, 0, 0, 0, 0]] ++ ([.read place, .read [0, 0, 1, 2, 0, 0, 0, 1]] ++ [])) .done :=
    both_done hfirst (.inr (both_done hsecond (.inr hskipped)))
  have hlast : runs [0, 0, 2, 0, 0, 0, 0] (readOf "x") [.read [0, 0, 2, 0, 0, 0, 0]] .done := emits_all _
  have hrun := runs_conditional harms hlast
  exact ⟨_, _, hput, hguarded, hcalm, hrun, lastWrite_of_propagateConstants hput
    (u := readOf "x") (by decide +kernel) (by decide +kernel) (by decide +kernel) hguarded hcalm hrun rfl⟩

/-- The second guard sets the variable if it is evaluated. What follows it reads the literal that was
set there, also on the run on which the first guard answers yes. -/
theorem propagateConstants_skipped_guard :
    let guard := branch .parenExpression [] [setTo "x" 2]
    let t := conditional guard (readOf "x")
    let place := [0, 0, 2, 0, 0, 0, 0]
    ∃ t' before, propagateConstants t = some t' ∧ t.at? place = some (readOf "x") ∧
      t'.at? place = some (intTree 2) ∧ runs [] t (before ++ [.read place]) .done ∧
        lastWrite "x" before = some (some (.int 1)) := by
  intro guard t place
  have harms : runsArms [0, 0, 1] 0 (guardedArms guard) [.read [0, 0, 1, 0, 0, 0, 0]] .done := by
    have hguard : runs [0, 0, 1, 0] (statementOf (readOf "a")) [.read [0, 0, 1, 0, 0, 0, 0]] .done :=
      runs_statementOf (u := [.read [0, 0, 1, 0, 0, 0, 0]]) (emits_all _)
    have hblock : runs [0, 0, 1, 1] emptyBlock [] .done :=
      runs_wrapped (u := []) rfl (runs_inOrder rfl (emits_all []))
    exact both_done hguard (.inl hblock)
  refine ⟨conditional guard (intTree 2), [.write "x" (some (.int 1)), .read [0, 0, 1, 0, 0, 0, 0]],
    by decide +kernel, by decide +kernel, by decide +kernel, ?_, by decide +kernel⟩
  exact runs_conditional harms (emits_all [.read place])

end Unscramble.Traces
