import Unscramble.Proofs.Traces.Runs

/-! What a walk knows about one variable. After a part of the script it knows nothing new, unless
the part writes the variable where it may be tracked; and where the walk forgets what a part writes,
what it knows afterwards holds in whatever way the part was run. -/
namespace Unscramble.Traces

open Simplify Unscramble.Tree Scripts

variable {x : String} {s : Latest} {a b c : Known} {p q : Prop} {around : Surroundings}
  {site : Option Site} {holder : Holder} {known : Known} {i : Nat} {e : Element} {t : Tree}
  {ts : List Tree}

/-- What is known about a variable is the literal that was written last. -/
structure Fits (x : String) (known : Known) (s : Latest) : Prop where
  apart : known.scope.Apart
  holds : ∀ v, known.scope.Binds x v → s = some (some v)

/-- Nothing new is known about a variable unless something is the case. -/
structure Narrows (x : String) (p : Prop) (a b : Known) : Prop where
  apart : a.scope.Apart → b.scope.Apart
  binds : a.scope.Apart → ¬ p → ∀ v, b.scope.Binds x v → a.scope.Binds x v

/-- Nothing new is known about a variable, and nothing at all if something is the case. -/
structure Settles (x : String) (p : Prop) (a b : Known) : Prop where
  apart : a.scope.Apart → b.scope.Apart
  binds : a.scope.Apart → ∀ v, b.scope.Binds x v → a.scope.Binds x v ∧ ¬ p

namespace Narrows

theorem refl : Narrows x p a a := ⟨id, fun _ _ _ => id⟩

theorem mono (h : Narrows x p a b) (hpq : p → q) : Narrows x q a b :=
  ⟨h.apart, fun ha hq => h.binds ha fun hp => hq (hpq hp)⟩

theorem trans (h : Narrows x p a b) (h' : Narrows x p b c) : Narrows x p a c :=
  ⟨fun ha => h'.apart (h.apart ha),
    fun ha hp v hv => h.binds ha hp v (h'.binds (h.apart ha) hp v hv)⟩

theorem fits (h : Narrows x p a b) (hp : ¬ p) (ha : Fits x a s) : Fits x b s :=
  ⟨h.apart ha.apart, fun v hv => ha.holds v (h.binds ha.apart hp v hv)⟩

theorem settles (h : Narrows x p a b) (hp : ¬ p) (hq : ¬ q) : Settles x q a b :=
  ⟨h.apart, fun ha v hv => ⟨h.binds ha hp v hv, hq⟩⟩

/-- The mark for a change does not count. -/
theorem changed (flag : Bool) : Narrows x p a { a with changed := flag } := ⟨id, fun _ _ _ => id⟩

theorem enter : Narrows x p a a.enter :=
  ⟨Scope.apart_enter, fun _ _ _ hv => Scope.binds_enter.mp hv⟩

theorem leave : Narrows x p a a.leave :=
  ⟨Scope.apart_leave, fun _ _ _ hv => Scope.binds_of_leave hv⟩

theorem forget (names : List String) : Narrows x p a (a.forget names) :=
  ⟨Scope.apart_foldl_delete, fun _ _ _ hv => (Scope.binds_foldl_delete.mp hv).1⟩

end Narrows

namespace Settles

theorem refl (hp : ¬ p) : Settles x p a a := Narrows.refl.settles (p := False) id hp

theorem narrows (h : Settles x p a b) : Narrows x q a b :=
  ⟨h.apart, fun ha _ v hv => (h.binds ha v hv).1⟩

theorem mono (h : Settles x p a b) (hqp : q → p) : Settles x q a b :=
  ⟨h.apart, fun ha v hv => ⟨(h.binds ha v hv).1, fun hq => (h.binds ha v hv).2 (hqp hq)⟩⟩

theorem trans (h : Settles x p a b) (h' : Settles x q b c) : Settles x (p ∨ q) a c where
  apart ha := h'.apart (h.apart ha)
  binds ha v hv := by
    obtain ⟨hb, hq⟩ := h'.binds (h.apart ha) v hv
    obtain ⟨hv, hp⟩ := h.binds ha v hb
    exact ⟨hv, not_or.mpr ⟨hp, hq⟩⟩

theorem fits (h : Settles x p a b) (ha : Fits x a s) : Fits x b s :=
  h.narrows.fits (p := False) id ha

/-- What is known after a part holds however much of the part was run. -/
theorem fits_after (h : Settles x p a b) (ha : Fits x a s) {s' : Latest} (hs : ¬ p → s' = s) :
    Fits x b s' :=
  ⟨h.apart ha.apart, fun v hv => by
    obtain ⟨hv, hp⟩ := h.binds ha.apart v hv
    rw [hs hp]
    exact ha.holds v hv⟩

end Settles

/-- Names that are forgotten after a part that writes no others. -/
theorem Narrows.forgotten {names : List String} (hx : Text.lower x = x)
    (h : Narrows x (x ∈ names ∧ p) a b) : Settles x (x ∈ names) a (b.forget names) where
  apart ha := Scope.apart_foldl_delete (h.apart ha)
  binds ha v hv := by
    obtain ⟨hv, hnames⟩ := Scope.binds_foldl_delete.mp hv
    have hmem : x ∉ names := fun hmem => hnames x hmem hx.symm
    exact ⟨h.binds ha (fun hp => hmem hp.1) v hv, hmem⟩

/-! ### The walk -/

/-- A part that writes the variable where it may be tracked. -/
abbrev Tracks (x : String) (around : Surroundings) (ts : List Tree) : Prop :=
  x ∈ ts.flatMap writes ∧ around.mayTrack x = true

theorem Tracks.mono {us : List Tree} (hsub : ts ⊆ us) (h : Tracks x around ts) : Tracks x around us := by
  obtain ⟨t, ht, hx⟩ := List.mem_flatMap.mp h.1
  exact ⟨List.mem_flatMap.mpr ⟨t, hsub ht, hx⟩, h.2⟩

abbrev NarrowedBy (x : String) (t : Tree) : Prop := ∀ around site known,
  Narrows x (x ∈ t.writes ∧ around.mayTrack x = true) known (walk around site known t).1

theorem mayTrack_inLoop {names : List String} (h : (around.inLoop names).mayTrack x = true) :
    x ∉ names ∧ around.mayTrack x = true := by
  simp [Surroundings.mayTrack, Surroundings.inLoop, Surroundings.excludes] at h ⊢
  exact ⟨h.2.2.1, h.1, h.2.1, h.2.2.2⟩

theorem not_mayTrack_later : around.later.mayTrack x = false := by
  simp [Surroundings.mayTrack, Surroundings.later]

theorem walkAll_narrows (h : ∀ t ∈ ts, NarrowedBy x t) :
    Narrows x (Tracks x around ts) known (walkAll around holder i known ts).1 := by
  induction ts generalizing i known with
  | nil => exact .refl
  | cons t ts ih =>
    obtain ⟨ht, hts⟩ := List.forall_mem_cons.mp h
    rw [walkAll_cons]
    exact ((ht around _ known).mono fun hx => ⟨by simp [hx.1], hx.2⟩).trans
      ((ih hts).mono (Tracks.mono (by simp)))

theorem walkFirst_narrows (h : ∀ t ∈ ts, NarrowedBy x t) :
    Narrows x (Tracks x around ts) known (walkFirst around holder i known ts).1 := by
  cases ts with
  | nil => exact .refl
  | cons t ts => exact (h t (by simp) around _ known).mono fun hx => ⟨by simp [hx.1], hx.2⟩

/-- What is known after a part of a conditional: a block does not leave anything about what it
writes. -/
def afterPart (t : Tree) (known : Known) : Known :=
  if t.is .statementBlock then known.forget t.writes else known

theorem afterPart_narrows : Narrows x p known (afterPart t known) := by
  unfold afterPart
  split
  · exact .forget _
  · exact .refl

theorem walkParts_cons : walkParts around holder i known (t :: ts) =
    let walked := walk around (some ⟨holder, i⟩) known t
    let rest := walkParts around holder (i + 1) (afterPart t walked.1) ts
    (rest.1, walked.2 :: rest.2) := rfl

theorem walkParts_narrows (h : ∀ t ∈ ts, NarrowedBy x t) :
    Narrows x (Tracks x around ts) known (walkParts around holder i known ts).1 := by
  induction ts generalizing i known with
  | nil => exact .refl
  | cons t ts ih =>
    obtain ⟨ht, hts⟩ := List.forall_mem_cons.mp h
    rw [walkParts_cons]
    exact (((ht around _ known).mono fun hx => ⟨by simp [hx.1], hx.2⟩).trans afterPart_narrows).trans
      ((ih hts).mono (Tracks.mono (by simp)))

theorem walkClauses_cons {parts : List Tree} : walkClauses around holder i known (.node e parts :: ts) =
    let walked := walkParts around ⟨e, some holder.element, parts.length⟩ 0 known parts
    let rest := walkClauses around holder (i + 1) walked.1 ts
    (rest.1, .node e walked.2 :: rest.2) := rfl

theorem walkClauses_narrows (h : ∀ u ∈ nodesAll ts, NarrowedBy x u) :
    Narrows x (Tracks x around ts) known (walkClauses around holder i known ts).1 := by
  induction ts generalizing i known with
  | nil => exact .refl
  | cons t ts ih =>
    obtain ⟨e, parts⟩ := t
    have hparts : ∀ t ∈ parts, NarrowedBy x t := fun t ht =>
      h t (by simp [nodesAll, nodes, child_mem_nodesAll ht])
    rw [walkClauses_cons]
    refine ((walkParts_narrows hparts).mono fun hx => ⟨?_, hx.2⟩).trans
      ((ih fun u hu => h u (by simp [nodesAll, hu])).mono (Tracks.mono (by simp)))
    rw [List.flatMap_cons, writes_node]
    exact List.mem_append_left _ (List.mem_append_right _ hx.1)

/-- The walk through one arm of a conditional, which may be a list of clauses. -/
def walkArm (around : Surroundings) (holder : Holder) (i : Nat) (known : Known) : Tree → Known × Tree
  | .node e children =>
    if isClauseList e.kind then
      let walked := walkClauses around ⟨e, some holder.element, children.length⟩ 0 known children
      (walked.1, .node e walked.2)
    else
      let walked := walk around (some ⟨holder, i⟩) known (.node e children)
      (afterPart (.node e children) walked.1, walked.2)

theorem walkArms_cons : walkArms around holder i known (t :: ts) =
    let walked := walkArm around holder i known t
    let rest := walkArms around holder (i + 1) walked.1 ts
    (rest.1, walked.2 :: rest.2) := by
  obtain ⟨e, children⟩ := t
  by_cases h : (e.kind == .clauses || e.kind == .catchClauses) = true
  · simp only [walkArms, walkArm, isClauseList, h, if_true]
  · simp only [walkArms, walkArm, isClauseList, h]
    rfl

theorem walkArm_narrows (h : ∀ u ∈ t.nodes, NarrowedBy x u) :
    Narrows x (x ∈ t.writes ∧ around.mayTrack x = true) known (walkArm around holder i known t).1 := by
  obtain ⟨e, children⟩ := t
  rw [walkArm]
  split
  · refine (walkClauses_narrows fun u hu => h u (by simp [nodes, hu])).mono fun hx => ⟨?_, hx.2⟩
    rw [writes_node]
    exact List.mem_append_right _ hx.1
  · exact (h _ (mem_nodes_self _) around _ known).trans afterPart_narrows

theorem walkArms_narrows (h : ∀ u ∈ nodesAll ts, NarrowedBy x u) :
    Narrows x (Tracks x around ts) known (walkArms around holder i known ts).1 := by
  induction ts generalizing i known with
  | nil => exact .refl
  | cons t ts ih =>
    rw [walkArms_cons]
    exact ((walkArm_narrows fun u hu => h u (by simp [nodesAll, hu])).mono
      fun hx => ⟨by simp [hx.1], hx.2⟩).trans
        ((ih fun u hu => h u (by simp [nodesAll, hu])).mono (Tracks.mono (by simp)))

/-- An assignment makes the literal on its right known, or drops what was known. -/
theorem assign_narrows {target value : Tree} : Narrows x (x ∈ target.targets ∧ around.mayTrack x = true)
    known (assign around t target value known) := by
  unfold assign
  split
  next name hname _ =>
    have hlower := lower_of_variableKey? hname
    rw [targets_of_variableKey? hname]
    split
    next v _ htrack =>
      refine ⟨Scope.apart_set, fun ha hp w hw => ?_⟩
      rcases Scope.binds_of_set ha hw with ⟨hk, -⟩ | ⟨hw, -⟩
      · rw [hlower] at hk
        exact absurd ⟨by simp [hk], by rwa [hk]⟩ hp
      · exact hw
    next => exact .forget _
  next => exact .forget _

theorem readVariable_narrows : Narrows x p known (readVariable around site t known).1 := by
  unfold readVariable
  split
  next =>
    split
    · exact .refl
    · split
      · exact .refl
      · split
        · exact .forget _
        · split
          · exact .changed true
          · exact .refl
  · exact .refl

/-- In a loop nothing new is known about what the loop writes, and other names are not written. -/
theorem Narrows.inLoop {names : List String} (hnames : ts.flatMap writes ⊆ names)
    (h : Narrows x (Tracks x (around.inLoop names) ts) a b) : Narrows x p a b :=
  h.mono fun hx => absurd (hnames hx.1) (mayTrack_inLoop hx.2).1

theorem kind_of_flowOf_assignment {e : Element} (h : flowOf e = .assignment) :
    e.kind = .assignment := by
  unfold flowOf at h
  split at h <;> (try split at h) <;> first | assumption | cases h

theorem narrowedBy_node (e : Element) (cs : List Tree) (h : ∀ u ∈ nodesAll cs, NarrowedBy x u) :
    NarrowedBy x (.node e cs) := by
  intro around site known
  have hc : ∀ t ∈ cs, NarrowedBy x t := fun t ht => h t (child_mem_nodesAll ht)
  have hsub : cs.flatMap writes ⊆ (Tree.node e cs).writes := by
    rw [writes_node]
    exact List.subset_append_right ..
  have hnode {a b : Known} (hab : Narrows x (Tracks x around cs) a b) :
      Narrows x (x ∈ (Tree.node e cs).writes ∧ around.mayTrack x = true) a b :=
    hab.mono fun hx => ⟨hsub hx.1, hx.2⟩
  have hone {t : Tree} (ht : t ∈ cs) (around : Surroundings) (site : Option Site) (known : Known) :
      Narrows x (Tracks x around cs) known (walk around site known t).1 :=
    (hc t ht around site known).mono fun hx => ⟨List.mem_flatMap.mpr ⟨t, ht, hx.1⟩, hx.2⟩
  rw [walk.eq_def]
  simp only
  split
  next hflow =>
    split
    next target value rest =>
      have hown : target.targets ⊆ (Tree.node e (target :: value :: rest)).writes := by
        rw [writes_node]
        simp [ownWrites, kind_of_flowOf_assignment hflow, targetsFirst]
      exact (hnode (hone (by simp) around _ known)).trans
        (assign_narrows.mono fun hx => ⟨hown hx.1, hx.2⟩)
    next => exact .refl
  next => exact .forget _
  next =>
    split
    next item body more =>
      have hmore : ∀ t ∈ more, NarrowedBy x t := fun t ht => hc t (by simp [ht])
      exact (((hnode ((walkFirst_narrows hmore).mono (Tracks.mono (by simp)))).trans (.forget _)).trans
        ((hone (by simp) _ _ _).inLoop hsub)).trans (.forget _)
    next => exact .forget _
  next =>
    split
    next => exact .forget _
    next first rest =>
      have hrest : ∀ t ∈ rest, NarrowedBy x t := fun t ht => hc t (by simp [ht])
      exact (((hnode (hone (by simp) _ _ _)).trans (.forget _)).trans
        (((walkAll_narrows hrest).mono (Tracks.mono (by simp))).inLoop hsub)).trans (.forget _)
  next => exact ((Narrows.forget _).trans ((walkAll_narrows hc).inLoop hsub)).trans (.forget _)
  next => exact hnode (walkArms_narrows h)
  next => exact (walkAll_narrows hc).mono fun hx => absurd hx.2 (by simp [not_mayTrack_later])
  next => exact (Narrows.enter.trans (hnode (walkAll_narrows hc))).trans .leave
  next => exact readVariable_narrows
  next => exact hnode (walkAll_narrows hc)

/-- Nothing new is known after a walk about a variable that was not written where it may be
tracked. -/
theorem walk_narrows (t : Tree) : NarrowedBy x t := nodes_induction narrowedBy_node t

/-! ### Parts that settle -/

/-- Nothing but blocks writes the variable in some parts. -/
def InBlocks (x : String) (parts : List Tree) : Prop :=
  ∀ u ∈ parts, u.is .statementBlock = false → x ∉ u.writes

theorem walkPart_settles (hx : Text.lower x = x) (h : InBlocks x [t]) :
    Settles x (x ∈ t.writes) known (afterPart t (walk around site known t).1) := by
  unfold afterPart
  split
  next => exact (walk_narrows t around site known).forgotten hx
  next hblock =>
    have hwrites := h t (by simp) (by simpa using hblock)
    exact (walk_narrows t around site known).settles (fun hp => hwrites hp.1) hwrites

theorem walkParts_settles (hx : Text.lower x = x) (h : InBlocks x ts) :
    Settles x (x ∈ ts.flatMap writes) known (walkParts around holder i known ts).1 := by
  induction ts generalizing i known with
  | nil => exact .refl (by simp)
  | cons t ts ih =>
    have ht : InBlocks x [t] := fun u hu => h u (by simp_all)
    rw [walkParts_cons]
    exact ((walkPart_settles hx ht).trans (ih fun u hu => h u (by simp [hu]))).mono (by simp)

theorem walkClauses_settles (hx : Text.lower x = x) (h : InBlocks x (ts.flatMap children)) :
    Settles x (x ∈ (ts.flatMap children).flatMap writes) known
      (walkClauses around holder i known ts).1 := by
  induction ts generalizing i known with
  | nil => exact .refl (by simp)
  | cons t ts ih =>
    obtain ⟨e, parts⟩ := t
    have hparts : Settles x (x ∈ parts.flatMap writes) known
        (walkParts around ⟨e, some holder.element, parts.length⟩ 0 known parts).1 :=
      walkParts_settles hx fun u hu => h u (by simp [hu])
    exact (hparts.trans (ih fun u hu => h u (by simp [hu]))).mono (by simp)

theorem walkArm_settles (hx : Text.lower x = x) (h : InBlocks x (partsOf t)) :
    Settles x (x ∈ (partsOf t).flatMap writes) known (walkArm around holder i known t).1 := by
  obtain ⟨e, children⟩ := t
  rw [walkArm]
  rw [partsOf, kind_node, children_node] at h ⊢
  split at h
  next hlist =>
    rw [if_pos hlist, if_pos hlist]
    exact walkClauses_settles hx h
  next hlist =>
    rw [if_neg hlist, if_neg hlist, List.flatMap_singleton]
    exact walkPart_settles hx h

theorem walkArms_settles (hx : Text.lower x = x) (h : InBlocks x (ts.flatMap partsOf)) :
    Settles x (x ∈ (ts.flatMap partsOf).flatMap writes) known
      (walkArms around holder i known ts).1 := by
  induction ts generalizing i known with
  | nil => exact .refl (by simp)
  | cons t ts ih =>
    have ht : Settles x (x ∈ (partsOf t).flatMap writes) known (walkArm around holder i known t).1 :=
      walkArm_settles hx fun u hu => h u (by simp [hu])
    rw [walkArms_cons]
    exact (ht.trans (ih fun u hu => h u (by simp [hu]))).mono (by simp)

end Unscramble.Traces
