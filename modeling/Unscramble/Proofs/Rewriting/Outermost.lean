import Unscramble.Proofs.Rewriting.Nodes
import Unscramble.Syntax.Place

/-! Paths in a tree, and where replacements are found afterwards. If every node is replaced by a single
one, the tree keeps its shape above the replaced nodes, and the path that led to one of them leads to
what stands there now. -/
namespace Unscramble.Tree

/-- The node at some place of a tree. -/
def at? (t : Tree) : List Nat → Option Tree
  | [] => some t
  | i :: p => t.children[i]?.bind (·.at? p)

theorem at?_append (t : Tree) (p q : List Nat) : t.at? (p ++ q) = (t.at? p).bind (·.at? q) := by
  induction p generalizing t with
  | nil => rfl
  | cons i p ih => simp only [List.cons_append, at?, ih, Option.bind_assoc]

theorem at?_child (t : Tree) (p : List Nat) (i : Nat) :
    t.at? (p ++ [i]) = (t.at? p).bind fun u => u.children[i]? := by
  simp [at?_append, at?]

/-- A node below the root that a path leads to, past nodes that have no replacement. -/
inductive Exposed (f : Tree → Option Tree) : List Nat → Tree → Tree → Prop
  | child {t s i} : t.children[i]? = some s → Exposed f [i] t s
  | through {t c s i path} : t.children[i]? = some c → f c = none → Exposed f path c s →
      Exposed f (i :: path) t s

/-- A replacement by one node. -/
def single (f : Tree → Option Tree) (t : Tree) : Option (List Tree) := (f t).map ([·])

/-- What becomes of a child. -/
def replaced (f : Tree → Option Tree) (t : Tree) : Option Tree := f t <|> t.replaceOutermost? (single f)

section
variable {f : Tree → Option Tree} {t s s' : Tree} {ts : List Tree} {path : List Nat}

theorem replaceOutermostAll?_single (ts : List Tree) : replaceOutermostAll? (single f) ts =
    if ts.any fun t => (replaced f t).isSome then some (ts.map fun t => (replaced f t).getD t) else none := by
  induction ts with
  | nil => rfl
  | cons t ts ih =>
    have hhere : (single f t <|> (t.replaceOutermost? (single f)).map ([·])) = (replaced f t).map ([·]) := by
      rw [single, replaced]
      cases f t <;> rfl
    -- the rest stays as it is if nothing in it has a replacement
    have hrest : (replaceOutermostAll? (single f) ts).getD ts = ts.map fun t => (replaced f t).getD t := by
      rw [ih]
      split
      next => rfl
      next hnone =>
        refine ((List.map_congr_left fun u hu => ?_).trans (List.map_id' ts)).symm
        have hu : replaced f u = none := by
          rw [List.any_eq_true] at hnone
          exact Option.not_isSome_iff_eq_none.mp fun hsome => hnone ⟨u, hu, hsome⟩
        rw [hu, Option.getD_none]
    have hsome : (replaceOutermostAll? (single f) ts).isSome = ts.any fun t => (replaced f t).isSome := by
      rw [ih]
      split
      next hany => exact hany.symm
      next hnone => exact (Bool.eq_false_iff.mpr hnone).symm
    rw [replaceOutermostAll?, hhere, hrest, hsome, List.any_cons, List.map_cons]
    cases replaced f t <;> rfl

theorem replaceOutermost?_child {c c' : Tree} {i : Nat} (hc : t.children[i]? = some c)
    (hc' : replaced f c = some c') :
    ∃ t', t.replaceOutermost? (single f) = some t' ∧ t'.children[i]? = some c' := by
  obtain ⟨e, cs⟩ := t
  have hany : (cs.any fun t => (replaced f t).isSome) = true :=
    List.any_eq_true.mpr ⟨c, List.mem_of_getElem? hc, by rw [hc', Option.isSome_some]⟩
  refine ⟨.node e (cs.map fun t => (replaced f t).getD t), ?_, ?_⟩
  · rw [replaceOutermost?, replaceOutermostAll?_single, if_pos hany, Option.map_some]
  · rw [children_node, List.getElem?_map, show cs[i]? = some c from hc, Option.map_some, hc', Option.getD_some]

/-- The path to an exposed node leads to its replacement. -/
theorem Exposed.replaced (h : Exposed f path t s) (hs : f s = some s') :
    ∃ t', t.replaceOutermost? (single f) = some t' ∧ t'.at? path = some s' := by
  induction h with
  | child hi =>
    obtain ⟨t', ht', hchild⟩ := replaceOutermost?_child (f := f) hi (by rw [Tree.replaced, hs]; rfl)
    exact ⟨t', ht', by rw [at?, hchild]; rfl⟩
  | through hi hc _ ih =>
    obtain ⟨c', hc', hpath⟩ := ih hs
    obtain ⟨t', ht', hchild⟩ := replaceOutermost?_child (f := f) hi (by rw [Tree.replaced, hc, hc']; rfl)
    exact ⟨t', ht', by rw [at?, hchild, Option.bind_some, hpath]⟩

end
end Unscramble.Tree
