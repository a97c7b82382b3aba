import Unscramble.Proofs.Rewriting.Outermost
import Unscramble.Proofs.Scripts.Propagation
import Unscramble.Proofs.Traces.Basic

/-! The runs of a script, told from its tree alone: statements and operands in their order, the arms
of a conditional by what its guards answer, the right operand of a logical operator if it is needed,
the parts of a loop, of the clauses of a `switch` and of a `process` block any number of times, and
the parts of a `try` up to any point. What calls of functions and of script blocks run is not
followed. -/
namespace Unscramble.Tree

/-- What holds for a node if it holds for everything below it holds for every tree. -/
theorem nodes_induction {P : Tree → Prop} (h : ∀ e cs, (∀ u ∈ nodesAll cs, P u) → P (.node e cs))
    (t : Tree) : P t :=
  have hnodes : ∀ u ∈ t.nodes, P u := children_induction (P := fun t => ∀ u ∈ t.nodes, P u)
    (fun e cs ih => by
      have hbelow : ∀ u ∈ nodesAll cs, P u := fun u hu => by
        obtain ⟨c, hc, hu⟩ := mem_nodesAll.mp hu
        exact ih c hc u hu
      exact List.forall_mem_cons.mpr ⟨h e cs hbelow, hbelow⟩) t
  hnodes t (mem_nodes_self t)

end Unscramble.Tree

namespace Unscramble.Traces

open Unscramble.Tree Scripts

/-- The ways in which a node is run. -/
inductive Form where
  | read | assignment | increment | logical | forEach | forLoop | loop | ifElse | switch | attempts
  | process | definition | inOrder
  deriving DecidableEq

def formOf (e : Element) : Form :=
  match e.kind with
  | .variableRef => .read
  | .assignment => .assignment
  | .unaryExpression => if e.isIncrement then .increment else .inOrder
  | .binaryExpression =>
    if e.operator? = some .and ∨ e.operator? = some .or then .logical else .inOrder
  | .forEach => .forEach
  | .forLoop => .forLoop
  | .whileLoop | .doWhile | .doUntil => .loop
  | .ifElse => .ifElse
  | .switchStatement => .switch
  | .tryCatch => .attempts
  | .namedBlock => if Text.lower (e.attr "BlockKind") = "process" then .process else .inOrder
  | .functionDefinition | .scriptBlockExpression => .definition
  | _ => .inOrder

/-- A list of the clauses of a `switch` or of the handlers of a `try`. -/
def isClauseList (kind : Kind) : Bool := kind == .clauses || kind == .catchClauses

/-- The parts of an arm of a conditional: those of the clauses in it, or the arm itself. -/
def partsOf (t : Tree) : List Tree := if isClauseList t.kind then t.children.flatMap children else [t]

/-- The writes of an assignment. Only `=` with a literal on its right writes a literal. -/
def assigned (e : Element) (target value : Tree) : List Event :=
  match target.variableKey? with
  | some name => [.write name
      (if e.isPlainAssignment && !target.isSplatted then value.unwrapStatement.literal? else none)]
  | none => target.targets.map (.write · none)

mutual

/-- The runs of a node that stands in some place. -/
def runs (place : Address) : Tree → Runs
  | .node e children =>
    match formOf e with
    | .read => .emits [.read place]
    | .assignment =>
      match children with
      | target :: value :: _ =>
        .both (runs (place ++ [1]) value) (.both
          (if target.is .variableRef then .nothing else runs (place ++ [0]) target)
          (.emits (assigned e target value)))
      | _ => .nothing
    | .increment =>
      match children with
      | operand :: _ =>
        .both (runs (place ++ [0]) operand) (.emits (operand.targets.map (.write · none)))
      | [] => .nothing
    | .logical =>
      match children with
      | left :: right => .both (runs (place ++ [0]) left) (.optional (runsInOrder place 1 right))
      | [] => .nothing
    | .forEach =>
      match children with
      | item :: body :: collection =>
        .both (runsFirst place 2 collection) (.repeated (.both
          (.emits (item.variableKey?.toList.map (.write · none))) (runs (place ++ [1]) body)))
      | _ => .nothing
    | .forLoop =>
      match children with
      | first :: rest => .both (runs (place ++ [0]) first) (.repeated (runsAny place 1 rest))
      | [] => .nothing
    | .loop => .repeated (runsAny place 0 children)
    | .ifElse => runsArms place 0 children
    | .switch =>
      match children with
      | subject :: rest => .both (runs (place ++ [0]) subject) (.repeated (runsPart place 1 rest))
      | [] => .nothing
    | .attempts => runsAttempts place 0 children
    | .process => .repeated (runsInOrder place 0 children)
    | .definition => .nothing
    | .inOrder => runsInOrder place 0 children
termination_by structural t => t

def runsInOrder (place : Address) (i : Nat) : List Tree → Runs
  | [] => .nothing
  | t :: ts => .both (runs (place ++ [i]) t) (runsInOrder place (i + 1) ts)
termination_by structural ts => ts

def runsFirst (place : Address) (i : Nat) : List Tree → Runs
  | [] => .nothing
  | t :: _ => runs (place ++ [i]) t
termination_by structural ts => ts

/-- One of the trees is run. -/
def runsAny (place : Address) (i : Nat) : List Tree → Runs
  | [] => .nothing
  | t :: ts => .either (runs (place ++ [i]) t) (runsAny place (i + 1) ts)
termination_by structural ts => ts

/-- Guards and blocks in turn: a guard is only run if those before it answered no, and then either
its block or what follows. The last block may have no guard. -/
def runsArms (place : Address) (i : Nat) : List Tree → Runs
  | [] => .nothing
  | [last] => runs (place ++ [i]) last
  | guard :: body :: rest =>
    .both (runs (place ++ [i]) guard)
      (.either (runs (place ++ [i + 1]) body) (runsArms place (i + 2) rest))
termination_by structural ts => ts

/-- The test or the block of one of the clauses. -/
def runsClause (place : Address) (i : Nat) : List Tree → Runs
  | [] => .nothing
  | .node _ parts :: ts => .either (runsAny (place ++ [i]) 0 parts) (runsClause place (i + 1) ts)
termination_by structural ts => ts

/-- One part of the clauses of a `switch`, or its block for what no clause takes. -/
def runsPart (place : Address) (i : Nat) : List Tree → Runs
  | [] => .nothing
  | .node e children :: ts =>
    .either
      (if isClauseList e.kind then runsClause (place ++ [i]) 0 children
        else runs (place ++ [i]) (.node e children))
      (runsPart place (i + 1) ts)
termination_by structural ts => ts

/-- One handler of a `try`. -/
def runsHandler (place : Address) (i : Nat) : List Tree → Runs
  | [] => .nothing
  | .node _ parts :: ts =>
    .either (runsInOrder (place ++ [i]) 0 parts) (runsHandler place (i + 1) ts)
termination_by structural ts => ts

/-- The block of a `try`, at most one of its handlers, and its last block. -/
def runsAttempts (place : Address) (i : Nat) : List Tree → Runs
  | [] => .nothing
  | .node e children :: ts =>
    .both
      (.attempt (if isClauseList e.kind then runsHandler (place ++ [i]) 0 children
        else runs (place ++ [i]) (.node e children)))
      (runsAttempts place (i + 1) ts)
termination_by structural ts => ts

end

/-! ### Where the reads of a run stand, and what it writes -/

/-- A read in one of some places, or a write of one of some names. -/
def Within (P : Address → Prop) (names : List String) : Event → Prop
  | .read p => P p
  | .write name _ => name ∈ names

theorem Within.mono {P Q : Address → Prop} {names ns : List String} (hP : ∀ p, P p → Q p)
    (hnames : names ⊆ ns) : ∀ event, Within P names event → Within Q ns event
  | .read p => hP p
  | .write _ _ => fun h => hnames h

theorem Every.spares {P : Address → Prop} {names : List String} {a : Runs} {x : String}
    (h : Every (Within P names) a) (hx : x ∉ names) : Spares x a :=
  h.imp fun event hevent hwrite => by
    cases event with
    | read => exact hwrite
    | write name _ => exact hx (hwrite ▸ hevent)

/-- The places of the children of a node from one of them on, and those below them. -/
def From (place : Address) (i : Nat) (p : Address) : Prop := ∃ j, i ≤ j ∧ place ++ [j] <+: p

theorem From.below {place p : Address} {i : Nat} : From place i p → place <+: p := fun ⟨j, _, h⟩ =>
  (List.prefix_append place [j]).trans h

theorem From.of_below {place p : Address} {i j : Nat} (hij : i ≤ j) (h : place ++ [j] <+: p) :
    From place i p := ⟨j, hij, h⟩

theorem From.mono {place p : Address} {i j : Nat} (hij : i ≤ j) : From place j p → From place i p :=
  fun ⟨k, hjk, h⟩ => ⟨k, Nat.le_trans hij hjk, h⟩

abbrev WithinNode (place : Address) (t : Tree) (a : Runs) : Prop :=
  Every (Within (place <+: ·) t.writes) a

abbrev WithinList (place : Address) (i : Nat) (ts : List Tree) (a : Runs) : Prop :=
  Every (Within (From place i) (ts.flatMap writes)) a

section
variable {place : Address} {i j k : Nat} {e : Element} {t : Tree} {ts us : List Tree} {a : Runs}

theorem WithinNode.list (h : WithinNode (place ++ [j]) t a) (hij : i ≤ j) (ht : t ∈ ts) :
    WithinList place i ts a :=
  h.imp (Within.mono (fun _ => From.of_below hij) fun _ hk => List.mem_flatMap.mpr ⟨t, ht, hk⟩)

theorem WithinList.mono (h : WithinList place j us a) (hij : i ≤ j) (hsub : us ⊆ ts) :
    WithinList place i ts a :=
  h.imp (Within.mono (fun _ => From.mono hij) fun k hk => by
    obtain ⟨u, hu, hk⟩ := List.mem_flatMap.mp hk
    exact List.mem_flatMap.mpr ⟨u, hsub hu, hk⟩)

theorem WithinList.node (h : WithinList place i us a) (hsub : us.flatMap writes ⊆ ts.flatMap writes) :
    WithinNode place (.node e ts) a := by
  refine h.imp (Within.mono (fun _ => From.below) fun k hk => ?_)
  rw [writes_node]
  exact List.mem_append_right _ (hsub hk)

/-- A list of trees that stand below one of the children of a node. -/
theorem WithinList.deeper (h : WithinList (place ++ [j]) i us a) (hij : k ≤ j) (hsub : us ⊆ ts) :
    WithinList place k ts a := by
  refine h.imp (Within.mono (fun _ hp => From.of_below hij hp.below) fun n hn => ?_)
  obtain ⟨u, hu, hn⟩ := List.mem_flatMap.mp hn
  exact List.mem_flatMap.mpr ⟨u, hsub hu, hn⟩

theorem writes_children_subset (ts : List Tree) :
    (ts.flatMap children).flatMap writes ⊆ ts.flatMap writes := by
  intro k hk
  obtain ⟨u, hu, hk⟩ := List.mem_flatMap.mp hk
  obtain ⟨⟨e, cs⟩, ht, hu⟩ := List.mem_flatMap.mp hu
  refine List.mem_flatMap.mpr ⟨_, ht, ?_⟩
  rw [writes_node]
  exact List.mem_append_right _ (List.mem_flatMap.mpr ⟨u, hu, hk⟩)

theorem writes_partsOf_subset (t : Tree) : (partsOf t).flatMap writes ⊆ t.writes := by
  unfold partsOf
  split
  · obtain ⟨e, cs⟩ := t
    rw [writes_node]
    exact List.Subset.trans (writes_children_subset cs) (List.subset_append_right ..)
  · simp

theorem writes_parts_subset (ts : List Tree) :
    (ts.flatMap partsOf).flatMap writes ⊆ ts.flatMap writes := by
  rw [List.flatMap_assoc]
  intro k hk
  obtain ⟨t, ht, hk⟩ := List.mem_flatMap.mp hk
  exact List.mem_flatMap.mpr ⟨t, ht, writes_partsOf_subset t hk⟩

/-- The writes of an assignment are those of its target. -/
theorem assigned_within {P : Address → Prop} (e : Element) (target value : Tree) :
    ∀ event ∈ assigned e target value, Within P target.targets event := by
  intro event h
  unfold assigned at h
  split at h
  next name hname =>
    obtain rfl := List.mem_singleton.mp h
    rw [targets_of_variableKey? hname]
    exact List.mem_singleton_self name
  next =>
    obtain ⟨name, hname, rfl⟩ := List.mem_map.mp h
    exact hname

theorem forgotten_within {P : Address → Prop} (names : List String) :
    ∀ event ∈ names.map (Event.write · none), Within P names event := by
  intro event h
  obtain ⟨name, hname, rfl⟩ := List.mem_map.mp h
  exact hname

/-- What a node writes itself it writes. -/
theorem within_own {events : List Event}
    (h : ∀ event ∈ events, Within (place <+: ·) (Tree.node e ts).ownWrites event) :
    WithinNode place (.node e ts) (.emits events) :=
  .emits fun event hevent => (h event hevent).mono (fun _ => id)
    (fun _ => mem_writes (mem_nodes_self _)) event

def Placed (t : Tree) : Prop := ∀ place, WithinNode place t (runs place t)

theorem runsInOrder_within (h : ∀ t ∈ ts, Placed t) : WithinList place i ts (runsInOrder place i ts) := by
  induction ts generalizing i with
  | nil => exact .nothing
  | cons t ts ih =>
    obtain ⟨ht, hts⟩ := List.forall_mem_cons.mp h
    exact .both ((ht _).list (Nat.le_refl i) (by simp)) ((ih hts).mono (Nat.le_succ i) (by simp))

theorem runsFirst_within (h : ∀ t ∈ ts, Placed t) : WithinList place i ts (runsFirst place i ts) := by
  cases ts with
  | nil => exact .nothing
  | cons t ts => exact (h t (by simp) _).list (Nat.le_refl i) (by simp)

theorem runsAny_within (h : ∀ t ∈ ts, Placed t) : WithinList place i ts (runsAny place i ts) := by
  induction ts generalizing i with
  | nil => exact .nothing
  | cons t ts ih =>
    obtain ⟨ht, hts⟩ := List.forall_mem_cons.mp h
    exact .either ((ht _).list (Nat.le_refl i) (by simp)) ((ih hts).mono (Nat.le_succ i) (by simp))

theorem runsArms_within (place : Address) (i : Nat) : (ts : List Tree) → (∀ t ∈ ts, Placed t) →
    WithinList place i ts (runsArms place i ts)
  | [], _ => .nothing
  | [last], h => (h last (by simp) _).list (Nat.le_refl i) (by simp)
  | guard :: body :: rest, h =>
    .both ((h guard (by simp) _).list (Nat.le_refl i) (by simp))
      (.either ((h body (by simp) _).list (Nat.le_succ i) (by simp))
        ((runsArms_within place (i + 2) rest fun t ht => h t (by simp [ht])).mono (Nat.le_add_right i 2)
          (by simp)))

theorem runsClause_within (h : ∀ u ∈ nodesAll ts, Placed u) :
    WithinList place i (ts.flatMap children) (runsClause place i ts) := by
  induction ts generalizing i with
  | nil => exact .nothing
  | cons t ts ih =>
    obtain ⟨e, parts⟩ := t
    have hparts : ∀ t ∈ parts, Placed t := fun t ht => h t (by simp [nodesAll, nodes, child_mem_nodesAll ht])
    exact .either ((runsAny_within hparts).deeper (Nat.le_refl i) (by simp))
      ((ih fun u hu => h u (by simp [nodesAll, hu])).mono (Nat.le_succ i) (by simp))

theorem runsHandler_within (h : ∀ u ∈ nodesAll ts, Placed u) :
    WithinList place i (ts.flatMap children) (runsHandler place i ts) := by
  induction ts generalizing i with
  | nil => exact .nothing
  | cons t ts ih =>
    obtain ⟨e, parts⟩ := t
    have hparts : ∀ t ∈ parts, Placed t := fun t ht => h t (by simp [nodesAll, nodes, child_mem_nodesAll ht])
    exact .either ((runsInOrder_within hparts).deeper (Nat.le_refl i) (by simp))
      ((ih fun u hu => h u (by simp [nodesAll, hu])).mono (Nat.le_succ i) (by simp))

/-- One arm of a conditional, given what is run of a list of clauses. -/
theorem arm_within {children : List Tree}
    (hclauses : WithinList (place ++ [i]) 0 (children.flatMap Tree.children) a)
    (h : Placed (.node e children)) :
    WithinList place i (partsOf (.node e children))
      (if isClauseList e.kind then a else runs (place ++ [i]) (.node e children)) := by
  rw [partsOf, kind_node, children_node]
  split
  · exact hclauses.deeper (Nat.le_refl i) (List.Subset.refl _)
  · exact (h (place ++ [i])).list (Nat.le_refl i) (by simp)

theorem runsPart_within (h : ∀ u ∈ nodesAll ts, Placed u) :
    WithinList place i (ts.flatMap partsOf) (runsPart place i ts) := by
  induction ts generalizing i with
  | nil => exact .nothing
  | cons t ts ih =>
    obtain ⟨e, children⟩ := t
    have hclauses : WithinList (place ++ [i]) 0 (children.flatMap Tree.children)
        (runsClause (place ++ [i]) 0 children) :=
      runsClause_within fun u hu => h u (by simp [nodesAll, nodes, hu])
    have harm := arm_within hclauses (h (.node e children) (by simp [nodesAll]))
    exact .either (harm.mono (Nat.le_refl i) (by simp))
      ((ih fun u hu => h u (by simp [nodesAll, hu])).mono (Nat.le_succ i) (by simp))

theorem runsAttempts_within (h : ∀ u ∈ nodesAll ts, Placed u) :
    WithinList place i (ts.flatMap partsOf) (runsAttempts place i ts) := by
  induction ts generalizing i with
  | nil => exact .nothing
  | cons t ts ih =>
    obtain ⟨e, children⟩ := t
    have hclauses : WithinList (place ++ [i]) 0 (children.flatMap Tree.children)
        (runsHandler (place ++ [i]) 0 children) :=
      runsHandler_within fun u hu => h u (by simp [nodesAll, nodes, hu])
    have harm := arm_within hclauses (h (.node e children) (by simp [nodesAll]))
    exact .both (.attempt (harm.mono (Nat.le_refl i) (by simp)))
      ((ih fun u hu => h u (by simp [nodesAll, hu])).mono (Nat.le_succ i) (by simp))

end

theorem kind_of_formOf_assignment {e : Element} (h : formOf e = .assignment) :
    e.kind = .assignment := by
  unfold formOf at h
  split at h <;> (try split at h) <;> first | assumption | cases h

theorem isIncrement_of_formOf {e : Element} (h : formOf e = .increment) :
    e.kind = .unaryExpression ∧ e.isIncrement = true := by
  unfold formOf at h
  split at h <;> (try split at h) <;> first | exact ⟨‹_›, ‹_›⟩ | cases h

theorem kind_of_formOf_forEach {e : Element} (h : formOf e = .forEach) : e.kind = .forEach := by
  unfold formOf at h
  split at h <;> (try split at h) <;> first | assumption | cases h

theorem kind_of_formOf_switch {e : Element} (h : formOf e = .switch) : e.kind = .switchStatement := by
  unfold formOf at h
  split at h <;> (try split at h) <;> first | assumption | cases h

theorem placed_node (e : Element) (cs : List Tree) (h : ∀ u ∈ nodesAll cs, Placed u) :
    Placed (.node e cs) := by
  intro place
  have hc : ∀ t ∈ cs, Placed t := fun t ht => h t (child_mem_nodesAll ht)
  have hchild {i : Nat} {t : Tree} (ht : t ∈ cs) :
      WithinNode place (.node e cs) (runs (place ++ [i]) t) :=
    ((hc t ht _).list (Nat.zero_le i) ht).node (List.Subset.refl _)
  rw [runs.eq_def]
  simp only
  split
  next => exact .emits (by simp [Within])
  next hform =>
    split
    next target value rest =>
      have hown : (Tree.node e (target :: value :: rest)).ownWrites = target.targets := by
        simp [ownWrites, kind_of_formOf_assignment hform, targetsFirst]
      refine .both (hchild (by simp)) (.both ?_ (within_own (hown ▸ assigned_within e target value)))
      split
      · exact .nothing
      · exact hchild (by simp)
    next => exact .nothing
  next hform =>
    split
    next operand rest =>
      obtain ⟨hkind, hincrement⟩ := isIncrement_of_formOf hform
      have hown : (Tree.node e (operand :: rest)).ownWrites = operand.targets := by
        simp [ownWrites, hkind, isIncrement, hincrement, targetsFirst]
      exact .both (hchild (by simp)) (within_own (hown ▸ forgotten_within operand.targets))
    next => exact .nothing
  next =>
    split
    next left right =>
      have hright : WithinList place 1 right (runsInOrder place 1 right) :=
        runsInOrder_within fun t ht => hc t (by simp [ht])
      exact .both (hchild (by simp)) (hright.node (by simp)).optional
    next => exact .nothing
  next hform =>
    split
    next item body collection =>
      have hcollection : WithinList place 2 collection (runsFirst place 2 collection) :=
        runsFirst_within fun t ht => hc t (by simp [ht])
      have hown : (Tree.node e (item :: body :: collection)).ownWrites = item.variableKey?.toList := by
        simp [ownWrites, kind_of_formOf_forEach hform]
      exact .both (hcollection.node (by simp))
        (.repeated (.both (within_own (hown ▸ forgotten_within _)) (hchild (by simp))))
    next => exact .nothing
  next =>
    split
    next first rest =>
      have hrest : WithinList place 1 rest (runsAny place 1 rest) :=
        runsAny_within fun t ht => hc t (by simp [ht])
      exact .both (hchild (by simp)) (hrest.node (by simp)).repeated
    next => exact .nothing
  next => exact ((runsAny_within hc).node (List.Subset.refl _)).repeated
  next => exact (runsArms_within place 0 cs hc).node (List.Subset.refl _)
  next =>
    split
    next subject rest =>
      have hrest : WithinList place 1 (rest.flatMap partsOf) (runsPart place 1 rest) :=
        runsPart_within fun u hu => h u (by simp [nodesAll, hu])
      exact .both (hchild (by simp)) (hrest.node (List.Subset.trans (writes_parts_subset rest) (by simp))).repeated
    next => exact .nothing
  next => exact (runsAttempts_within h).node (writes_parts_subset cs)
  next => exact ((runsInOrder_within hc).node (List.Subset.refl _)).repeated
  next => exact .nothing
  next => exact (runsInOrder_within hc).node (List.Subset.refl _)

theorem runs_within (place : Address) (t : Tree) : WithinNode place t (runs place t) :=
  nodes_induction placed_node t place

end Unscramble.Traces
