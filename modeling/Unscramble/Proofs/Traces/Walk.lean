import Unscramble.Proofs.Traces.Known

/-! The walk of constant propagation beside the runs of the script: where the walk puts a literal, a
run that gets there has last written this literal. A run may skip parts and take parts again that
the walk goes through once, so what a part writes must be forgotten after it, or not be written
there at all. -/
namespace Unscramble.Traces

open Simplify Unscramble.Tree Scripts

/-- Parts of a node that are not always run, or run again, and that the walk still takes to be run
once. -/
def doubtful (n : Tree) : List Tree :=
  match formOf n.element with
  | .logical => n.children.tail
  | .ifElse => n.children.tail.filter (!·.is .statementBlock)
  | .switch => (n.children.tail.flatMap partsOf).filter (!·.is .statementBlock)
  | .attempts => (n.children.flatMap partsOf).filter (!·.is .statementBlock)
  | .process => n.children
  | .assignment | .increment => n.children.take 1
  | _ => []

/-- The arms of an `if`, and the subject of a `switch`. -/
def plainArms (n : Tree) : List Tree :=
  match formOf n.element with
  | .ifElse => n.children
  | .switch => n.children.take 1
  | _ => []

/-- A variable is not written in doubtful parts, and clauses are not found among the arms of an `if`
or in the subject of a `switch`. -/
structure Guarded (x : String) (t : Tree) : Prop where
  certain : ∀ n ∈ t.nodes, ∀ u ∈ doubtful n, x ∉ u.writes
  arms : ∀ n ∈ t.nodes, ∀ u ∈ plainArms n, isClauseList u.kind = false

theorem Guarded.node {x : String} {t u : Tree} (h : Guarded x t) (hu : u ∈ t.nodes) : Guarded x u :=
  ⟨fun n hn => h.certain n (mem_nodes_trans t hu hn), fun n hn => h.arms n (mem_nodes_trans t hu hn)⟩

/-- A place that is in no clause of a `switch` whose clauses write a variable. -/
def Undisturbed (x : String) (t : Tree) : Address → Prop
  | [] => True
  | i :: p => (t.kind = .switchStatement → i ≠ 0 → ∀ u ∈ t.children.tail, x ∉ u.writes) ∧
      ∀ c ∈ t.children[i]?, Undisturbed x c p

instance decidableUndisturbed (x : String) : (t : Tree) → (p : Address) → Decidable (Undisturbed x t p)
  | _, [] => inferInstanceAs (Decidable True)
  | t, i :: p =>
    have (c : Tree) : Decidable (Undisturbed x c p) := decidableUndisturbed x c p
    inferInstanceAs (Decidable (_ ∧ ∀ c ∈ t.children[i]?, Undisturbed x c p))

theorem Undisturbed.of_switch {x : String} {n : Tree} {i : Nat} {q : Address} :
    {t : Tree} → {p : Address} → Undisturbed x t (p ++ i :: q) → t.at? p = some n →
      n.kind = .switchStatement → i ≠ 0 → ∀ u ∈ n.children.tail, x ∉ u.writes
  | _, [], h, hn, hkind, hi => by
    cases hn
    exact h.1 hkind hi
  | _, _ :: _, h, hn, hkind, hi => by
    obtain ⟨c, hc, hn⟩ := Option.bind_eq_some_iff.mp hn
    exact Undisturbed.of_switch (h.2 c hc) hn hkind hi

variable (root root' : Tree) (x : String)

/-- If a literal is put in a place where the variable is read, it is the one that was written last. -/
def Right (p : Address) (s : Latest) : Prop :=
  Undisturbed x root p → ∀ u, root.at? p = some u → u.variableKey? = some x →
    root'.at? p ≠ some u → ∃ v quoting, root'.at? p = some (v.toTree quoting) ∧ s = some (some v)

/-- The literals are right in all runs of a part from states that fit what is known before it. -/
def ReadsIn (a : Runs) (k : Known) : Prop := ∀ s trace ending, Fits x k s → a trace ending →
  Reads x (Right root root' x) s trace

/-- Moreover the state fits what is known after the part if its end is reached. -/
def Sound (a : Runs) (k k' : Known) : Prop := ∀ s trace ending, Fits x k s → a trace ending →
  Reads x (Right root root' x) s trace ∧ (ending = .done → Fits x k' (after x s trace))

variable {root root' x} {s : Latest} {a b : Runs} {k k' k'' : Known} {p : Prop}

namespace ReadsIn

theorem mono (h : ReadsIn root root' x a k') (hk : ∀ s, Fits x k s → Fits x k' s) :
    ReadsIn root root' x a k := fun s trace ending hs => h s trace ending (hk s hs)

theorem either (ha : ReadsIn root root' x a k) (hb : ReadsIn root root' x b k) :
    ReadsIn root root' x (a.either b) k
  | s, trace, ending, hs, .inl h => ha s trace ending hs h
  | s, trace, ending, hs, .inr h => hb s trace ending hs h

theorem of_every (h : Every (fun event => ∀ p, event = .read p → ∀ s, Right root root' x p s) a) :
    ReadsIn root root' x a k :=
  fun _ trace ending _ hrun => .of_forall fun p hp => h trace ending hrun _ hp p rfl

theorem nothing : ReadsIn root root' x .nothing k :=
  of_every (Every.nothing)

end ReadsIn

namespace Sound

theorem reads (h : Sound root root' x a k k') : ReadsIn root root' x a k :=
  fun s trace ending hs hrun => (h s trace ending hs hrun).1

theorem mono (h : Sound root root' x a k k') (hk : ∀ s, Fits x k' s → Fits x k'' s) :
    Sound root root' x a k k'' := fun s trace ending hs hrun =>
  (h s trace ending hs hrun).imp_right fun hdone hend => hk _ (hdone hend)

theorem weaken (h : Sound root root' x a k' k'') (hk : ∀ s, Fits x k s → Fits x k' s) :
    Sound root root' x a k k'' := fun s trace ending hs => h s trace ending (hk s hs)

theorem both (ha : Sound root root' x a k k') (hb : Sound root root' x b k' k'') :
    Sound root root' x (a.both b) k k'' := by
  rintro s trace ending hs (⟨h, rfl⟩ | ⟨u, v, rfl, hu, hv⟩)
  · exact ⟨(ha s trace _ hs h).1, nofun⟩
  · obtain ⟨hreads, hfits⟩ := ha s u _ hs hu
    obtain ⟨hreads', hfits'⟩ := hb _ v ending (hfits rfl) hv
    rw [after_append]
    exact ⟨hreads.append hreads', hfits'⟩

theorem either (ha : Sound root root' x a k k') (hb : Sound root root' x b k k') :
    Sound root root' x (a.either b) k k'
  | s, trace, ending, hs, .inl h => ha s trace ending hs h
  | s, trace, ending, hs, .inr h => hb s trace ending hs h

/-- Writes only. -/
theorem emits {events : List Event} (hwrites : ∀ event ∈ events, ∀ p, event ≠ .read p)
    (hk : ∀ s, Fits x k s → Fits x k' (after x s events)) :
    Sound root root' x (.emits events) k k' := by
  rintro s trace ending hs ⟨hfirst, hdone⟩
  refine ⟨.of_forall fun p hp => absurd rfl (hwrites _ (hfirst.subset hp) p), fun hend => ?_⟩
  rw [hdone hend]
  exact hk s hs

theorem nothing (hk : ∀ s, Fits x k s → Fits x k' s) : Sound root root' x .nothing k k' :=
  emits (by simp) hk

/-- A part that writes nothing of what is known may be left at any point. -/
theorem spared (ha : ReadsIn root root' x a k) (hspares : ∀ v, k.scope.Binds x v → Spares x a)
    {trace : List Event} {ending : Ending} (hs : Fits x k s) (hrun : a trace ending) :
    Reads x (Right root root' x) s trace ∧ Fits x k (after x s trace) :=
  ⟨ha s trace ending hs hrun, hs.apart, fun v hv => by
    rw [(hspares v hv).after_eq hrun]
    exact hs.holds v hv⟩

theorem of_spares (ha : ReadsIn root root' x a k) (hspares : ∀ v, k.scope.Binds x v → Spares x a) :
    Sound root root' x a k k := fun _ _ _ hs hrun =>
  ⟨(spared ha hspares hs hrun).1, fun _ => (spared ha hspares hs hrun).2⟩

/-- By induction on the rounds: what is known before a round is known after it, as a round does not
write it. -/
theorem repeated (ha : ReadsIn root root' x a k) (hspares : ∀ v, k.scope.Binds x v → Spares x a) :
    Sound root root' x a.repeated k k := by
  suffices h : ∀ trace ending, a.repeated trace ending → ∀ s, Fits x k s →
      Reads x (Right root root' x) s trace ∧ Fits x k (after x s trace) from
    fun s trace ending hs hrun => (h trace ending hrun s hs).imp_right fun hfits _ => hfits
  intro trace ending hrun
  induction hrun with
  | stop => exact fun s hs => ⟨.of_forall (by simp), hs⟩
  | round hu _ ih =>
    intro s hs
    obtain ⟨hreads, hfits⟩ := spared ha hspares hs hu
    obtain ⟨hreads', hfits'⟩ := ih _ hfits
    rw [after_append]
    exact ⟨hreads.append hreads', hfits'⟩

/-- A part that is abandoned somewhere: its writes are forgotten. -/
theorem attempt (ha : ReadsIn root root' x a k) (hsettles : Settles x p k k')
    (hspares : ¬ p → Spares x a) : Sound root root' x a.attempt k k' := by
  rintro s trace ending hs (rfl | ⟨ending', hrun⟩)
  · exact ⟨.of_forall (by simp), fun _ => hsettles.fits hs⟩
  · exact ⟨ha s trace ending' hs hrun,
      fun _ => hsettles.fits_after hs fun hp => (hspares hp).after_eq hrun⟩

end Sound

/-! ### Lists of parts -/

/-- The trees stand beside one another in a tree, from the child of a node on. -/
def Stand (root : Tree) (place : Address) (i : Nat) (ts : List Tree) : Prop :=
  ∀ j, root.at? (place ++ [i + j]) = ts[j]?

section
variable {place : Address} {i : Nat} {e : Element} {t : Tree} {ts cs : List Tree}
  {around : Surroundings} {holder : Holder} {site : Option Site} {known : Known}

theorem Stand.head (h : Stand root place i (t :: ts)) : root.at? (place ++ [i]) = some t := h 0

theorem Stand.tail (h : Stand root place i (t :: ts)) : Stand root place (i + 1) ts := fun j => by
  rw [show i + 1 + j = i + (j + 1) by omega]
  exact h (j + 1)

theorem stand_children (h : root.at? place = some (.node e cs)) : Stand root place 0 cs := fun j => by
  rw [at?_child, h, Nat.zero_add]
  rfl

/-- The literals that the walk puts below a node are right, wherever it stands in the tree. -/
def Followed (root root' : Tree) (x : String) (t : Tree) : Prop := ∀ around site known place,
  root.at? place = some t → root'.at? place = some (walk around site known t).2 →
    Sound root root' x (runs place t) known (walk around site known t).1

theorem walkAll_inOrder (h : ∀ t ∈ ts, Followed root root' x t) (hroot : Stand root place i ts)
    (hput : Stand root' place i (walkAll around holder i known ts).2) :
    Sound root root' x (runsInOrder place i ts) known (walkAll around holder i known ts).1 := by
  induction ts generalizing i known with
  | nil => exact .nothing fun _ => id
  | cons t ts ih =>
    obtain ⟨ht, hts⟩ := List.forall_mem_cons.mp h
    rw [walkAll_cons] at hput ⊢
    exact (ht around _ known _ hroot.head hput.head).both (ih hts hroot.tail hput.tail)

theorem walkFirst_sound (h : ∀ t ∈ ts, Followed root root' x t) (hroot : Stand root place i ts)
    (hput : Stand root' place i (walkFirst around holder i known ts).2) :
    Sound root root' x (runsFirst place i ts) known (walkFirst around holder i known ts).1 := by
  cases ts with
  | nil => exact .nothing fun _ => id
  | cons t ts => exact h t (by simp) around _ known _ hroot.head hput.head

/-- If the variable is not tracked in the parts, nothing is known at any of them that was not known
before the first one. -/
theorem walkAll_any (h : ∀ t ∈ ts, Followed root root' x t) (hroot : Stand root place i ts)
    (hput : Stand root' place i (walkAll around holder i known ts).2) (hx : ¬ Tracks x around ts) :
    ReadsIn root root' x (runsAny place i ts) known := by
  induction ts generalizing i known with
  | nil => exact .nothing
  | cons t ts ih =>
    obtain ⟨ht, hts⟩ := List.forall_mem_cons.mp h
    rw [walkAll_cons] at hput
    have hfits : ∀ s, Fits x known s → Fits x (walk around (some ⟨holder, i⟩) known t).1 s := fun _ =>
      (walk_narrows t around _ known).fits fun hp => hx ⟨by simp [hp.1], hp.2⟩
    have hrest := ih hts hroot.tail hput.tail fun hp => hx (hp.mono (by simp))
    exact (ht around _ known _ hroot.head hput.head).reads.either (hrest.mono hfits)

theorem walkParts_inOrder (h : ∀ t ∈ ts, Followed root root' x t) (hroot : Stand root place i ts)
    (hput : Stand root' place i (walkParts around holder i known ts).2) :
    Sound root root' x (runsInOrder place i ts) known (walkParts around holder i known ts).1 := by
  induction ts generalizing i known with
  | nil => exact .nothing fun _ => id
  | cons t ts ih =>
    obtain ⟨ht, hts⟩ := List.forall_mem_cons.mp h
    rw [walkParts_cons] at hput ⊢
    have hpart : Sound root root' x (runs (place ++ [i]) t) known
        (afterPart t (walk around (some ⟨holder, i⟩) known t).1) :=
      (ht around _ known _ hroot.head hput.head).mono fun _ => (afterPart_narrows (p := False)).fits id
    exact hpart.both (ih hts hroot.tail hput.tail)

theorem walkParts_any (hlower : Text.lower x = x) (h : ∀ t ∈ ts, Followed root root' x t)
    (hroot : Stand root place i ts) (hput : Stand root' place i (walkParts around holder i known ts).2)
    (hblocks : InBlocks x ts) : ReadsIn root root' x (runsAny place i ts) known := by
  induction ts generalizing i known with
  | nil => exact .nothing
  | cons t ts ih =>
    obtain ⟨ht, hts⟩ := List.forall_mem_cons.mp h
    rw [walkParts_cons] at hput
    have hfits : ∀ s, Fits x known s →
        Fits x (afterPart t (walk around (some ⟨holder, i⟩) known t).1) s := fun _ =>
      (walkPart_settles hlower fun u hu => hblocks u (by simp_all)).fits
    have hrest := ih hts hroot.tail hput.tail fun u hu => hblocks u (by simp [hu])
    exact (ht around _ known _ hroot.head hput.head).reads.either (hrest.mono hfits)

theorem walkClauses_any (hlower : Text.lower x = x) (h : ∀ u ∈ nodesAll ts, Followed root root' x u)
    (hroot : Stand root place i ts) (hput : Stand root' place i (walkClauses around holder i known ts).2)
    (hblocks : InBlocks x (ts.flatMap children)) :
    ReadsIn root root' x (runsClause place i ts) known ∧
      ReadsIn root root' x (runsHandler place i ts) known := by
  induction ts generalizing i known with
  | nil => exact ⟨.nothing, .nothing⟩
  | cons t ts ih =>
    obtain ⟨e, parts⟩ := t
    have hparts : ∀ t ∈ parts, Followed root root' x t := fun t ht =>
      h t (by simp [nodesAll, nodes, child_mem_nodesAll ht])
    have hin : InBlocks x parts := fun u hu => hblocks u (by simp [hu])
    rw [walkClauses_cons] at hput
    have hstand := stand_children hroot.head
    have hstand' := stand_children hput.head
    have hfits : ∀ s, Fits x known s → Fits x
        (walkParts around ⟨e, some holder.element, parts.length⟩ 0 known parts).1 s := fun _ =>
      (walkParts_settles hlower hin).fits
    obtain ⟨hclause, hhandler⟩ := ih (fun u hu => h u (by simp [nodesAll, hu])) hroot.tail hput.tail
      fun u hu => hblocks u (List.mem_flatMap.mpr (by
        obtain ⟨t, ht, hu⟩ := List.mem_flatMap.mp hu
        exact ⟨t, List.mem_cons_of_mem _ ht, hu⟩))
    exact ⟨(walkParts_any hlower hparts hstand hstand' hin).either (hclause.mono hfits),
      (walkParts_inOrder hparts hstand hstand').reads.either (hhandler.mono hfits)⟩

/-- One arm of a conditional, with one part of its clauses or one clause as a whole. -/
theorem walkArm_any (hlower : Text.lower x = x) (h : ∀ u ∈ t.nodes, Followed root root' x u)
    (hroot : root.at? (place ++ [i]) = some t)
    (hput : root'.at? (place ++ [i]) = some (walkArm around holder i known t).2)
    (hblocks : InBlocks x (partsOf t)) :
    ReadsIn root root' x (if isClauseList t.kind then runsClause (place ++ [i]) 0 t.children
      else runs (place ++ [i]) t) known ∧
    ReadsIn root root' x (if isClauseList t.kind then runsHandler (place ++ [i]) 0 t.children
      else runs (place ++ [i]) t) known := by
  obtain ⟨e, children⟩ := t
  rw [walkArm] at hput
  rw [partsOf, kind_node, children_node] at hblocks
  rw [kind_node, children_node]
  split at hblocks
  next hlist =>
    rw [if_pos hlist] at hput
    rw [if_pos hlist, if_pos hlist]
    exact walkClauses_any hlower (fun u hu => h u (by simp [nodes, hu])) (stand_children hroot)
      (stand_children hput) hblocks
  next hlist =>
    rw [if_neg hlist] at hput
    rw [if_neg hlist, if_neg hlist]
    have hsound := h _ (mem_nodes_self _) around _ known _ hroot hput
    exact ⟨hsound.reads, hsound.reads⟩

theorem walkArms_part (hlower : Text.lower x = x) (h : ∀ u ∈ nodesAll ts, Followed root root' x u)
    (hroot : Stand root place i ts) (hput : Stand root' place i (walkArms around holder i known ts).2)
    (hblocks : InBlocks x (ts.flatMap partsOf)) :
    ReadsIn root root' x (runsPart place i ts) known := by
  induction ts generalizing i known with
  | nil => exact .nothing
  | cons t ts ih =>
    obtain ⟨e, children⟩ := t
    rw [walkArms_cons] at hput
    have hin : InBlocks x (partsOf (.node e children)) := fun u hu => hblocks u (by simp [hu])
    have hhere := (walkArm_any hlower (fun u hu => h u (by simp [nodesAll, hu])) hroot.head hput.head
      hin).1
    have hrest := ih (fun u hu => h u (by simp [nodesAll, hu])) hroot.tail hput.tail
      fun u hu => hblocks u (List.mem_append_right _ hu)
    exact hhere.either (hrest.mono fun _ => (walkArm_settles hlower hin).fits)

theorem walkArms_attempts (hlower : Text.lower x = x) (h : ∀ u ∈ nodesAll ts, Followed root root' x u)
    (hroot : Stand root place i ts) (hput : Stand root' place i (walkArms around holder i known ts).2)
    (hblocks : InBlocks x (ts.flatMap partsOf)) :
    Sound root root' x (runsAttempts place i ts) known (walkArms around holder i known ts).1 := by
  induction ts generalizing i known with
  | nil => exact .nothing fun _ => id
  | cons t ts ih =>
    obtain ⟨e, children⟩ := t
    rw [walkArms_cons] at hput ⊢
    have hin : InBlocks x (partsOf (.node e children)) := fun u hu => hblocks u (by simp [hu])
    have hreads := (walkArm_any hlower (fun u hu => h u (by simp [nodesAll, hu])) hroot.head hput.head
      hin).2
    have hclauses : WithinList (place ++ [i]) 0 (children.flatMap Tree.children)
        (runsHandler (place ++ [i]) 0 children) := runsHandler_within fun u _ => fun _ => runs_within _ u
    have hwithin := arm_within hclauses fun _ => runs_within _ (.node e children)
    exact (Sound.attempt hreads (walkArm_settles hlower hin) hwithin.spares).both
      (ih (fun u hu => h u (by simp [nodesAll, hu])) hroot.tail hput.tail
        fun u hu => hblocks u (List.mem_append_right _ hu))

/-- An arm that is no list of clauses. -/
theorem walkArm_sound (h : Followed root root' x t) (hlist : isClauseList t.kind = false)
    (hroot : root.at? (place ++ [i]) = some t)
    (hput : root'.at? (place ++ [i]) = some (walkArm around holder i known t).2) :
    Sound root root' x (runs (place ++ [i]) t) known (walkArm around holder i known t).1 := by
  obtain ⟨e, children⟩ := t
  rw [kind_node] at hlist
  rw [walkArm, if_neg (by simp [hlist])] at hput ⊢
  exact (h around _ known _ hroot hput).mono fun _ => (afterPart_narrows (p := False)).fits id

/-- Every arm after the first guard leaves nothing known about what it writes, so that it makes no
difference which of them were run. -/
theorem walkArms_arms (hlower : Text.lower x = x) (around : Surroundings) (holder : Holder) (i : Nat)
    (known : Known) : (ts : List Tree) → (∀ t ∈ ts, Followed root root' x t) →
    (∀ t ∈ ts, isClauseList t.kind = false) → Stand root place i ts →
    Stand root' place i (walkArms around holder i known ts).2 → InBlocks x (ts.tail) →
    Sound root root' x (runsArms place i ts) known (walkArms around holder i known ts).1
  | [], _, _, _, _, _ => .nothing fun _ => id
  | [last], h, hlist, hroot, hput, _ => by
    rw [walkArms_cons] at hput ⊢
    exact walkArm_sound (h last (by simp)) (hlist last (by simp)) hroot.head hput.head
  | guard :: body :: rest, h, hlist, hroot, hput, hblocks => by
    simp only [walkArms_cons] at hput ⊢
    have hguard := walkArm_sound (h guard (by simp)) (hlist guard (by simp)) hroot.head hput.head
    have hbody := walkArm_sound (h body (by simp)) (hlist body (by simp)) hroot.tail.head hput.tail.head
    have hrest := walkArms_arms hlower around holder (i + 2) _ rest (fun t ht => h t (by simp [ht]))
      (fun t ht => hlist t (by simp [ht])) hroot.tail.tail hput.tail.tail
      fun u hu => hblocks u (List.mem_cons_of_mem _ (List.mem_of_mem_tail hu))
    have hparts {t : Tree} (ht : t ∈ body :: rest) : partsOf t = [t] := by
      rw [partsOf, if_neg (by simp [hlist t (List.mem_cons_of_mem _ ht)])]
    have hsettles {known : Known} : Settles x (x ∈ (partsOf body).flatMap writes) known
        (walkArm around holder (i + 1) known body).1 :=
      walkArm_settles hlower fun u hu => hblocks u (by simp_all)
    have hsettles' {known : Known} : Settles x (x ∈ (rest.flatMap partsOf).flatMap writes) known
        (walkArms around holder (i + 2) known rest).1 := walkArms_settles hlower fun u hu => by
      obtain ⟨t, ht, hu⟩ := List.mem_flatMap.mp hu
      rw [hparts (List.mem_cons_of_mem _ ht), List.mem_singleton] at hu
      exact hblocks u (hu ▸ List.mem_cons_of_mem _ ht)
    exact hguard.both ((hbody.mono fun _ => hsettles'.fits).either (hrest.weaken fun _ => hsettles.fits))

end

end Unscramble.Traces
