import Unscramble.Syntax.Variables

/-! The nodes of a tree: what is one of them, and which nodes the queries of the rules answer. -/
namespace Unscramble
namespace Tree

@[simp] theorem element_node (e : Element) (cs : List Tree) : (node e cs).element = e := rfl

@[simp] theorem children_node (e : Element) (cs : List Tree) : (node e cs).children = cs := rfl

@[simp] theorem kind_node (e : Element) (cs : List Tree) : (node e cs).kind = e.kind := rfl

theorem node_eta (t : Tree) : node t.element t.children = t := by cases t; rfl

theorem is_iff {t : Tree} {k : Kind} : t.is k = true ↔ t.kind = k := by simp [is]

theorem nodes_eq (t : Tree) : t.nodes = t :: nodesAll t.children := by cases t; rfl

@[simp] theorem mem_nodes_self (t : Tree) : t ∈ t.nodes := by simp [nodes_eq]

theorem nodesAll_eq_flatMap (ts : List Tree) : nodesAll ts = ts.flatMap nodes := by
  induction ts with
  | nil => rfl
  | cons t ts ih => rw [nodesAll, ih, List.flatMap_cons]

@[simp] theorem nodesAll_append (ss ts : List Tree) :
    nodesAll (ss ++ ts) = nodesAll ss ++ nodesAll ts := by
  simp [nodesAll_eq_flatMap]

theorem mem_nodesAll {u : Tree} {ts : List Tree} : u ∈ nodesAll ts ↔ ∃ t ∈ ts, u ∈ t.nodes := by
  simp [nodesAll_eq_flatMap]

theorem mem_nodes_iff {u t : Tree} : u ∈ t.nodes ↔ u = t ∨ ∃ c ∈ t.children, u ∈ c.nodes := by
  rw [nodes_eq, List.mem_cons, mem_nodesAll]

theorem mem_nodes_of_child {u c t : Tree} (hc : c ∈ t.children) (h : u ∈ c.nodes) : u ∈ t.nodes :=
  mem_nodes_iff.mpr (.inr ⟨c, hc, h⟩)

theorem child_mem_nodes {c t : Tree} (h : c ∈ t.children) : c ∈ t.nodes :=
  mem_nodes_of_child h (mem_nodes_self c)

theorem child_mem_nodesAll {c : Tree} {ts : List Tree} (h : c ∈ ts) : c ∈ nodesAll ts :=
  mem_nodesAll.mpr ⟨c, h, mem_nodes_self c⟩

mutual

/-- What holds for a node if it holds for its children holds for every tree. -/
theorem children_induction {P : Tree → Prop} (h : ∀ e cs, (∀ c ∈ cs, P c) → P (.node e cs)) :
    (t : Tree) → P t
  | .node e cs => h e cs (children_inductionAll h cs)

theorem children_inductionAll {P : Tree → Prop} (h : ∀ e cs, (∀ c ∈ cs, P c) → P (.node e cs)) :
    (ts : List Tree) → ∀ t ∈ ts, P t
  | [] => by simp
  | t :: ts => List.forall_mem_cons.mpr ⟨children_induction h t, children_inductionAll h ts⟩

end

mutual

theorem mem_nodes_trans {u v : Tree} : (t : Tree) → u ∈ t.nodes → v ∈ u.nodes → v ∈ t.nodes
  | .node e cs, hu, hv => by
    rw [nodes_eq, List.mem_cons] at hu
    rcases hu with rfl | hu
    · exact hv
    · rw [nodes_eq, List.mem_cons]
      exact .inr (mem_nodesAll_trans cs hu hv)

theorem mem_nodesAll_trans {u v : Tree} : (ts : List Tree) → u ∈ nodesAll ts → v ∈ u.nodes →
    v ∈ nodesAll ts
  | [], hu, _ => by simp [nodesAll] at hu
  | t :: ts, hu, hv => by
    rw [nodesAll, List.mem_append] at hu ⊢
    exact hu.imp (mem_nodes_trans t · hv) (mem_nodesAll_trans ts · hv)

end

theorem kind_of_variableKey? {t : Tree} {name : String} (h : t.variableKey? = some name) :
    t.kind = .variableRef := by
  obtain ⟨path, hpath, -⟩ := Option.map_eq_some_iff.mp h
  simp only [variablePath?, Option.ite_none_right_eq_some] at hpath
  exact is_iff.mp hpath.1

theorem kind_of_isPlainAssignment {e : Element} (h : e.isPlainAssignment = true) :
    e.kind = .assignment := by
  simp only [Element.isPlainAssignment, Bool.and_eq_true, beq_iff_eq] at h
  exact h.1

theorem children_of_onlyChild? {t c : Tree} (h : t.onlyChild? = some c) : t.children = [c] := by
  unfold onlyChild? at h
  split at h
  next only hcs => cases h; exact hcs
  next => cases h

theorem childOf?_mem {t c : Tree} {k : Kind} (h : t.childOf? k = some c) :
    c ∈ t.children ∧ c.kind = k := by
  unfold childOf? at h
  exact ⟨List.mem_of_find?_eq_some h, is_iff.mp (by simpa using List.find?_some h)⟩

theorem mem_statements {t u : Tree} (h : u ∈ t.statements) :
    ∃ list ∈ t.children, list.kind = .statements ∧ list.children = t.statements ∧
      u ∈ list.children := by
  unfold statements listOf at h ⊢
  cases hlist : t.childOf? .statements with
  | none => simp [hlist] at h
  | some list =>
    obtain ⟨hmem, hkind⟩ := childOf?_mem hlist
    exact ⟨list, hmem, hkind, by simp, by simpa [hlist] using h⟩

end Tree

/-- A script that is a list of statements. -/
def scriptOf (statements : List Tree) : Tree :=
  .branch .scriptBlock [] [.branch .namedBlock [("BlockKind", "End"), ("Unnamed", "True")]
    [.branch .statements [] statements]]

end Unscramble
