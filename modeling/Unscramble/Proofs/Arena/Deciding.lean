import Unscramble.Proofs.Arena.Parts
import Unscramble.Proofs.Arena.Retaining

/-! Control flow that is decided in an arena. What becomes of a construct is made of its own parts, in the order in
which they stood, and looks like what becomes of what the construct looks like. -/
namespace Unscramble

open Simplify

/-- What a verdict comes to. -/
def Verdict.outcome (f : Nat → Element) : Verdict → Simplify.Outcome
  | .splice statements => .splice (Sketch.trees f statements)
  | .retain children => .retain (children.map (IdTree.toTree f))

/-- Parts of a node: statements that are kept in their order, or some of the children. -/
def Verdict.Within (t : IdTree) : Verdict → Prop
  | .splice statements => (IdTree.nodesAll (Sketch.keepsAll statements)).Sublist (IdTree.nodesAll t.children)
  | .retain children => children.Sublist t.children

namespace IdTree

section
variable (f : Nat → Element)

theorem outcome_splice (statements : List IdTree) :
    (splice statements).outcome f = .splice (statements.map (toTree f)) := by
  rw [splice, Verdict.outcome, Sketch.trees_kept]

theorem within_splice {t : IdTree} {statements : List IdTree} :
    (splice statements).Within t ↔ (nodesAll statements).Sublist (nodesAll t.children) := by
  rw [splice, Verdict.Within, Sketch.keepsAll_kept]

/-! ### Conditionals -/

def lookArms (arms : List (IdTree × IdTree)) : List (Tree × Tree) :=
  arms.map fun (guard, body) => (guard.toTree f, body.toTree f)

theorem arms_toTree (ts : List IdTree) :
    Simplify.arms (ts.map (toTree f)) = (lookArms f (arms ts).1, (arms ts).2.map (toTree f)) := by
  induction ts using arms.induct with
  | case1 => rfl
  | case2 last => rfl
  | case3 guard body rest pairs last harms ih =>
    rw [List.map_cons, List.map_cons, Simplify.arms, ih, arms]
    rfl

theorem liveArms_toTree (last : Option IdTree) (pairs : List (IdTree × IdTree)) :
    Simplify.liveArms (last.map (toTree f)) (lookArms f pairs) =
      (lookArms f (liveArms f last pairs).1, (liveArms f last pairs).2.1.map (toTree f),
        (liveArms f last pairs).2.2) := by
  induction pairs with
  | nil => rfl
  | cons pair pairs ih =>
    obtain ⟨guard, body⟩ := pair
    have hcons : lookArms f ((guard, body) :: pairs) = (guard.toTree f, body.toTree f) :: lookArms f pairs := rfl
    rw [hcons]
    simp only [Simplify.liveArms, liveArms, truth?, ih]
    cases staticTruth? (guard.toTree f) with
    | none => rfl
    | some truth => cases truth <;> rfl

/-- The parts of arms, one after the other. -/
def unarmed (pairs : List (IdTree × IdTree)) (last : Option IdTree) : List IdTree :=
  pairs.flatMap (fun (guard, body) => [guard, body]) ++ last.toList

theorem unarmed_arms (ts : List IdTree) : unarmed (arms ts).1 (arms ts).2 = ts := by
  induction ts using arms.induct with
  | case1 => rfl
  | case2 last => rfl
  | case3 guard body rest pairs last harms ih => exact congrArg (guard :: body :: ·) ih

theorem unarmed_liveArms (last : Option IdTree) (pairs : List (IdTree × IdTree)) :
    (unarmed (liveArms f last pairs).1 (liveArms f last pairs).2.1).Sublist (unarmed pairs last) := by
  induction pairs with
  | nil => exact .refl _
  | cons pair pairs ih =>
    obtain ⟨guard, body⟩ := pair
    simp only [liveArms]
    cases guard.truth? f with
    | none => exact (ih.cons_cons body).cons_cons guard
    | some truth =>
      cases truth with
      | true => exact ((List.nil_sublist _).cons_cons body).cons guard
      | false => exact (ih.cons body).cons guard

theorem decideIf?_eq (t : IdTree) :
    t.decideIf? f =
      let live := liveArms f (arms t.children).2 (arms t.children).1
      if !live.2.2 then none
      else if live.1.isEmpty then some (splice ((live.2.1.map (statements f)).getD []))
      else some (.retain (unarmed live.1 live.2.1)) := rfl

theorem decideIf?_toTree (t : IdTree) : Simplify.decideIf? (t.toTree f) = (t.decideIf? f).map (Verdict.outcome f) := by
  simp only [Simplify.decideIf?, children_toTree, arms_toTree, liveArms_toTree, decideIf?_eq]
  generalize liveArms f (arms t.children).2 (arms t.children).1 = live
  obtain ⟨kept, last, changed⟩ := live
  cases changed with
  | false => rfl
  | true =>
    cases kept with
    | nil =>
      cases last with
      | none => rfl
      | some body => simp [lookArms, statements_toTree, outcome_splice]
    | cons arm kept =>
      cases last <;> simp [lookArms, unarmed, Verdict.outcome, List.map_flatMap, List.flatMap_map]

theorem decideIf?_within {t : IdTree} {v : Verdict} (h : t.decideIf? f = some v) : v.Within t := by
  have hlive := unarmed_liveArms f (arms t.children).2 (arms t.children).1
  rw [unarmed_arms] at hlive
  rw [decideIf?_eq] at h
  generalize liveArms f (arms t.children).2 (arms t.children).1 = live at h hlive
  obtain ⟨pairs, last, changed⟩ := live
  dsimp only at h hlive
  split at h
  next => cases h
  next =>
    split at h
    next hempty =>
      cases h
      rw [within_splice]
      cases last with
      | none => exact List.nil_sublist _
      | some body =>
        have hbody : body ∈ t.children := hlive.subset (by simp [unarmed])
        exact (statements_below f body).trans (nodes_sublist_nodesAll hbody)
    next =>
      cases h
      exact hlive

/-! ### Switches -/

theorem matchingClauses?_toTree (subject : Value) (clauses : List IdTree) :
    Simplify.matchingClauses? subject (clauses.map (toTree f)) =
      (matchingClauses? f subject clauses).map (·.map (·.map (toTree f))) := by
  induction clauses with
  | nil => rfl
  | cons clause rest ih =>
    rw [List.map_cons, Simplify.matchingClauses?, ih, matchingClauses?, children_toTree, List.head?_map,
      Option.bind_map, Option.map_bind]
    refine congrArg _ (funext fun test => ?_)
    rw [Function.comp_apply, Function.comp_apply, Option.map_bind]
    refine congrArg _ (funext fun value => ?_)
    rw [Function.comp_apply, Option.map_bind]
    refine congrArg _ (funext fun hit => ?_)
    rw [Function.comp_apply, Tree.child?, children_toTree, List.getElem?_map]
    cases hit with
    | false => cases matchingClauses? f subject rest <;> rfl
    | true =>
      cases clause.children[1]? with
      | none => rfl
      | some block =>
        cases matchingClauses? f subject rest with
        | none => rfl
        | some others => simp [statements_toTree]

theorem matchingClauses?_within {subject : Value} {clauses : List IdTree} {hits : List (List IdTree)}
    (h : matchingClauses? f subject clauses = some hits) : (nodesAll hits.flatten).Sublist (nodesAll clauses) := by
  induction clauses generalizing hits with
  | nil =>
    cases h
    exact List.nil_sublist _
  | cons clause rest ih =>
    rw [matchingClauses?] at h
    obtain ⟨test, -, h⟩ := Option.bind_eq_some_iff.mp h
    obtain ⟨value, -, h⟩ := Option.bind_eq_some_iff.mp h
    obtain ⟨hit, -, h⟩ := Option.bind_eq_some_iff.mp h
    obtain ⟨body, hbody, h⟩ := Option.bind_eq_some_iff.mp h
    obtain ⟨others, hothers, rfl⟩ := Option.map_eq_some_iff.mp h
    rw [List.flatten_append, nodesAll_append, nodesAll]
    refine List.Sublist.append ?_ (ih hothers)
    cases hit with
    | false =>
      cases hbody
      exact List.nil_sublist _
    | true =>
      obtain ⟨block, hblock, rfl⟩ := Option.map_eq_some_iff.mp hbody
      rw [List.flatten_singleton]
      have hmem := List.mem_of_getElem? hblock
      exact (statements_below f block).trans ((nodes_sublist_nodesAll hmem).trans (nodesAll_below_sublist clause))

theorem decideSwitch?_toTree (t : IdTree) :
    Simplify.decideSwitch? (t.toTree f) = (t.decideSwitch? f).map (Verdict.outcome f) := by
  rw [decideSwitch?]
  cases hswitch : Simplify.decideSwitch? (t.toTree f) with
  | none => rfl
  | some outcome =>
    rw [Simplify.decideSwitch?] at hswitch
    split at hswitch
    next => cases hswitch
    obtain ⟨_, hfirst, hvalues⟩ := Option.bind_eq_some_iff.mp hswitch
    rw [children_toTree, List.head?_map] at hfirst
    obtain ⟨subject, hsubject, rfl⟩ := Option.map_eq_some_iff.mp hfirst
    obtain ⟨value, hvalue, hlists⟩ := Option.bind_eq_some_iff.mp hvalues
    obtain ⟨_, hlist, hdecided⟩ := Option.bind_eq_some_iff.mp hlists
    rw [childOf?_toTree] at hlist
    obtain ⟨clauses, hclauses, rfl⟩ := Option.map_eq_some_iff.mp hlist
    dsimp only at hdecided
    split at hdecided
    next => cases hdecided
    rw [children_toTree, matchingClauses?_toTree, Option.map_map] at hdecided
    obtain ⟨hits, hhits, rfl⟩ := Option.map_eq_some_iff.mp hdecided
    rw [Option.bind_some, hsubject, Option.bind_some, hvalue, Option.bind_some, hclauses, Option.bind_some, hhits,
      Option.map_some, Option.map_some, outcome_splice, Function.comp_apply, childOf?_toTree]
    cases hits with
    | nil =>
      cases t.childOf? f .statementBlock with
      | none => rfl
      | some block => simp [statements_toTree]
    | cons hit hits => simp

theorem decideSwitch?_within {t : IdTree} {v : Verdict} (h : t.decideSwitch? f = some v) : v.Within t := by
  obtain ⟨_, -, h⟩ := Option.bind_eq_some_iff.mp h
  obtain ⟨_, -, h⟩ := Option.bind_eq_some_iff.mp h
  obtain ⟨_, -, h⟩ := Option.bind_eq_some_iff.mp h
  obtain ⟨clauses, hclauses, h⟩ := Option.bind_eq_some_iff.mp h
  obtain ⟨hits, hhits, rfl⟩ := Option.map_eq_some_iff.mp h
  rw [within_splice]
  split
  next =>
    cases hblock : t.childOf? f .statementBlock with
    | none => exact List.nil_sublist _
    | some block => exact (statements_below f block).trans (nodes_sublist_nodesAll (childOf?_mem hblock))
  next =>
    exact (matchingClauses?_within f hhits).trans <| (nodesAll_below_sublist clauses).trans <|
      nodes_sublist_nodesAll (childOf?_mem hclauses)

/-! ### Loops -/

theorem singlePass?_toTree (body : IdTree) :
    Simplify.singlePass? (body.toTree f) = (body.singlePass? f).map (·.map (toTree f)) := by
  rw [singlePass?, Option.map_map]
  cases hpass : Simplify.singlePass? (body.toTree f) with
  | none => rfl
  | some statements =>
    have hstatements : statements = (body.toTree f).statements.dropLast := by
      rw [Simplify.singlePass?] at hpass
      split at hpass
      next => cases hpass
      next =>
        split at hpass
        next =>
          cases hpass
          rfl
        next => cases hpass
    rw [hstatements, statements_toTree, ← List.map_dropLast]
    rfl

theorem singlePass?_within {body : IdTree} {statements : List IdTree} (h : body.singlePass? f = some statements) :
    (nodesAll statements).Sublist body.nodes := by
  obtain ⟨_, -, rfl⟩ := Option.map_eq_some_iff.mp h
  exact (nodesAll_sublist (List.dropLast_sublist _)).trans (statements_below f body)

theorem outcome_once (before : List IdTree) (guard : Option IdTree) (body : List IdTree) :
    (once before guard body).outcome f =
      Simplify.once (before.map (toTree f)) (guard.map (toTree f)) (body.map (toTree f)) := by
  have hkept (after : List Sketch) : Sketch.trees f (before.map .kept ++ after) =
      before.map (toTree f) ++ Sketch.trees f after := by
    rw [← Sketch.trees_kept, Sketch.trees_eq_map, Sketch.trees_eq_map, Sketch.trees_eq_map, List.map_append]
  refine congrArg Simplify.Outcome.splice ((hkept _).trans ?_)
  cases guard with
  | none => exact congrArg (_ ++ ·) (Sketch.trees_kept f body)
  | some guard =>
    have hbody : Sketch.trees f [conditional guard body] =
        [Simplify.conditional (guard.toTree f) (Sketch.trees f (body.map .kept))] := rfl
    rw [hbody, Sketch.trees_kept]
    rfl

/-- A loop that runs at most once is made of what runs before it, its guard and its body. -/
theorem within_once {t : IdTree} {before body : List IdTree} {guard : Option IdTree}
    (h : (nodesAll (before ++ guard.toList ++ body)).Sublist (nodesAll t.children)) :
    (once before guard body).Within t := by
  cases guard with
  | none =>
    have hkeeps : Sketch.keepsAll (before.map .kept ++ body.map .kept) = before ++ body := by simp
    rw [Option.toList_none, List.append_nil, ← hkeeps] at h
    exact h
  | some guard =>
    have hkeeps : Sketch.keepsAll (before.map .kept ++ [conditional guard body]) = before ++ [guard] ++ body := by
      simp [conditional, Sketch.keepsAll, Sketch.keeps]
    rw [Option.toList_some, ← hkeeps] at h
    exact h

theorem decideWhile?_toTree (t : IdTree) :
    Simplify.decideWhile? (t.toTree f) = (t.decideWhile? f).map (Verdict.outcome f) := by
  obtain ⟨id, below⟩ := t
  match below with
  | [] | [_] => rfl
  | guard :: body :: rest =>
    have htree : Simplify.decideWhile? ((IdTree.node id (guard :: body :: rest)).toTree f) =
        if staticTruth? (guard.toTree f) == some false then some (.splice [])
        else (Simplify.singlePass? (body.toTree f)).map (Simplify.once [] (some (guard.toTree f))) := rfl
    have hids : (IdTree.node id (guard :: body :: rest)).decideWhile? f =
        if staticTruth? (guard.toTree f) == some false then some (splice [])
        else (body.singlePass? f).map (once [] (some guard)) := rfl
    rw [htree, hids, singlePass?_toTree]
    split
    next => rfl
    next =>
      rw [Option.map_map, Option.map_map]
      exact congrArg (Option.map · _) (funext fun statements => (outcome_once f [] (some guard) statements).symm)

theorem decideWhile?_within {t : IdTree} {v : Verdict} (h : t.decideWhile? f = some v) : v.Within t := by
  rw [decideWhile?] at h
  split at h
  next guard body rest hchildren =>
    split at h
    next =>
      cases h
      exact List.nil_sublist _
    next =>
      obtain ⟨statements, hstatements, rfl⟩ := Option.map_eq_some_iff.mp h
      refine within_once ?_
      rw [hchildren]
      exact (List.Sublist.refl _).append ((singlePass?_within f hstatements).trans (List.sublist_append_left _ _))
  next => cases h

theorem decideDo?_toTree (stop : Bool) (t : IdTree) :
    Simplify.decideDo? stop (t.toTree f) = (t.decideDo? f stop).map (Verdict.outcome f) := by
  obtain ⟨id, below⟩ := t
  match below with
  | [] | [_] => rfl
  | guard :: body :: rest =>
    have htree : Simplify.decideDo? stop ((IdTree.node id (guard :: body :: rest)).toTree f) =
        if staticTruth? (guard.toTree f) == some stop then
          (loopExits? (body.toTree f)).bind fun n =>
            if n == 0 then some (.splice (body.toTree f).statements)
            else (Simplify.singlePass? (body.toTree f)).map .splice
        else (Simplify.singlePass? (body.toTree f)).map .splice := rfl
    have hids : (IdTree.node id (guard :: body :: rest)).decideDo? f stop =
        if staticTruth? (guard.toTree f) == some stop then
          (loopExits? (body.toTree f)).bind fun n =>
            if n == 0 then some (splice (body.statements f)) else (body.singlePass? f).map splice
        else (body.singlePass? f).map splice := rfl
    have hpass : (Simplify.singlePass? (body.toTree f)).map .splice =
        ((body.singlePass? f).map splice).map (Verdict.outcome f) := by
      rw [singlePass?_toTree, Option.map_map, Option.map_map]
      exact congrArg (Option.map · _) (funext fun statements => (outcome_splice f statements).symm)
    rw [htree, hids]
    split
    next =>
      rw [Option.map_bind]
      refine congrArg _ (funext fun n => ?_)
      rw [Function.comp_apply]
      split
      next => rw [Option.map_some, outcome_splice, statements_toTree]
      next => exact hpass
    next => exact hpass

theorem decideDo?_within {stop : Bool} {t : IdTree} {v : Verdict} (h : t.decideDo? f stop = some v) : v.Within t := by
  rw [decideDo?] at h
  split at h
  next guard body rest hchildren =>
    have hbody : body.nodes.Sublist (nodesAll t.children) := nodes_sublist_nodesAll (by simp [hchildren])
    have hpass {u : Verdict} (hu : (body.singlePass? f).map splice = some u) : u.Within t := by
      obtain ⟨statements, hstatements, rfl⟩ := Option.map_eq_some_iff.mp hu
      exact within_splice.mpr ((singlePass?_within f hstatements).trans hbody)
    split at h
    next =>
      obtain ⟨n, -, hn⟩ := Option.bind_eq_some_iff.mp h
      split at hn
      next =>
        cases hn
        exact within_splice.mpr ((statements_below f body).trans hbody)
      next => exact hpass hn
    next => exact hpass h
  next => cases h

theorem decideFor?_toTree (t : IdTree) :
    Simplify.decideFor? (t.toTree f) = (t.decideFor? f).map (Verdict.outcome f) := by
  obtain ⟨id, below⟩ := t
  match below with
  | [] | [_] | [_, _] | [_, _, _] | _ :: _ :: _ :: _ :: _ :: _ => rfl
  | [first, test, step, body] =>
    have htree : Simplify.decideFor? ((IdTree.node id [first, test, step, body]).toTree f) =
        if (test.toTree f).children.head?.any (staticTruth? · == some false) then
          some (.splice (first.toTree f).children)
        else (Simplify.singlePass? (body.toTree f)).map
          (Simplify.once (first.toTree f).children (test.toTree f).children.head?) := rfl
    have hids : (IdTree.node id [first, test, step, body]).decideFor? f =
        if test.children.head?.any fun guard => staticTruth? (guard.toTree f) == some false then
          some (splice first.children)
        else (body.singlePass? f).map (once first.children test.children.head?) := rfl
    rw [htree, hids, children_toTree, children_toTree, List.head?_map, singlePass?_toTree, Option.any_map]
    split
    next => rw [Option.map_some, outcome_splice]
    next =>
      rw [Option.map_map, Option.map_map]
      exact congrArg (Option.map · _) (funext fun statements => (outcome_once f _ _ statements).symm)

theorem decideFor?_within {t : IdTree} {v : Verdict} (h : t.decideFor? f = some v) : v.Within t := by
  rw [decideFor?] at h
  split at h
  next first test step body hchildren =>
    have hfirst : (nodesAll first.children).Sublist first.nodes := nodesAll_below_sublist first
    dsimp only at h
    split at h
    next =>
      cases h
      exact within_splice.mpr (hfirst.trans (nodes_sublist_nodesAll (by simp [hchildren])))
    next =>
      obtain ⟨statements, hstatements, rfl⟩ := Option.map_eq_some_iff.mp h
      have hguard : (nodesAll test.children.head?.toList).Sublist test.nodes :=
        (nodesAll_sublist (by cases test.children <;> simp)).trans (nodesAll_below_sublist test)
      have hbody := (singlePass?_within f hstatements).trans (List.sublist_append_right step.nodes _)
      refine within_once ?_
      rw [hchildren, nodesAll_append, nodesAll_append, nodesAll, nodesAll, nodesAll, nodesAll, nodesAll,
        List.append_nil, List.append_assoc]
      exact hfirst.append (hguard.append hbody)
  next => cases h

/-! ### Constructs -/

theorem decide?_toTree (t : IdTree) : Simplify.decide? (t.toTree f) = (t.decide? f).map (Verdict.outcome f) := by
  rw [Simplify.decide?, kind_toTree, decide?]
  cases t.kind f <;>
    first
    | rfl
    | exact decideIf?_toTree f t
    | exact decideSwitch?_toTree f t
    | exact decideWhile?_toTree f t
    | exact decideDo?_toTree f _ t
    | exact decideFor?_toTree f t

theorem decide?_within {t : IdTree} {v : Verdict} (h : t.decide? f = some v) : v.Within t := by
  rw [decide?] at h
  split at h
  next => exact decideIf?_within f h
  next => exact decideSwitch?_within f h
  next => exact decideWhile?_within f h
  next => exact decideDo?_within f h
  next => exact decideDo?_within f h
  next => exact decideFor?_within f h
  next => cases h

end
end IdTree

/-- Searches agree if they do on every item. -/
theorem rel_findSome? {α β γ : Type} {r : β → γ → Prop} {l : List α} {f : α → Option β}
    {g : α → Option γ} (h : ∀ x ∈ l, Option.Rel r (f x) (g x)) :
    Option.Rel r (l.findSome? f) (l.findSome? g) := by
  induction l with
  | nil => exact .none
  | cons x l ih =>
    obtain ⟨hx, hl⟩ := List.forall_mem_cons.mp h
    rw [List.findSome?_cons, List.findSome?_cons]
    generalize f x = fx at hx
    generalize g x = gx at hx
    cases hx with
    | none => exact ih hl
    | some hxy => exact .some hxy

namespace Arena

section
variable {a : Arena} {t : IdTree}

/-- Wherever a construct is decided, there is a plan that does it. -/
theorem Shape.decideAt?_does (h : a.Shape t) {s : Seat} (hs : s.On t) :
    Option.Rel (fun plan u => plan.Does a (some u)) (a.decideAt? s) (Simplify.decideAt? (s.place a.element)) := by
  rw [decideAt?, Simplify.decideAt?, Seat.tree_place, IdTree.decide?_toTree]
  cases hverdict : s.node.decide? a.element with
  | none => exact .none
  | some v =>
    have hwithin := IdTree.decide?_within a.element hverdict
    cases v with
    | retain kept =>
      refine .some ?_
      exact h.retain_does hs hwithin
    | splice statements =>
      rw [Option.bind_some, Option.map_some, Option.bind_some, Verdict.outcome]
      dsimp only
      split
      next hparent =>
        have hdoes := h.does_one hs (IdTree.owns_of_keeps rfl hwithin)
        obtain ⟨trail, u⟩ := s
        cases trail with
        | nil => cases hparent
        | cons step trail => exact .some hdoes
      next => exact .none

theorem Shape.deadBranches_does (h : a.Shape t) : a.deadBranches.Does a (Simplify.deadBranches a.toTree) := by
  have hfound : Option.Rel (fun plan u => plan.Does a (some u)) (t.seats.findSome? a.decideAt?)
      (t.seats.findSome? fun s => Simplify.decideAt? (s.place a.element)) :=
    rel_findSome? fun s hs => h.decideAt?_does (Seat.on_of_mem hs)
  rw [deadBranches, h.layout_eq, Simplify.deadBranches, h.toTree_eq, ← Seat.map_place_seats, List.findSome?_map]
  generalize t.seats.findSome? a.decideAt? = plan? at hfound
  have hnew : t.seats.findSome? (Simplify.decideAt? ∘ Seat.place a.element) =
      t.seats.findSome? fun s => Simplify.decideAt? (s.place a.element) := rfl
  rw [hnew]
  generalize (t.seats.findSome? fun s => Simplify.decideAt? (s.place a.element)) = new at hfound
  cases hfound with
  | none => exact h.does_nothing rfl
  | some hdoes => exact hdoes

end
end Arena
end Unscramble
