import Mathlib.Tactic.ByContra
import Unscramble.Proofs.Rewriting.Complete
import Unscramble.Proofs.Scripts.Structure

/-! Variables that are not read. They occur as targets of plain assignments only, so that no expression
of a script has another value if they hold something else. -/
namespace Unscramble

namespace Tree

theorem dropDrive_eq_self {name : String} (h : "variable:".toList.isPrefixOf name.toList = false) :
    dropDrive name = name := by
  rw [dropDrive, Text.dropStart?, if_neg (by rw [h]; exact Bool.false_ne_true), Option.getD_none,
    String.ofList_toList]

end Tree

namespace Scripts
open Unscramble.Tree

/-- A variable that occurs as the target of plain assignments only. -/
def Unread (x : String) (t : Tree) : Prop :=
  ∀ s ∈ t.nodes, ∀ {i c}, s.children[i]? = some c → c.variableKey? = some x →
    s.isPlainAssignment = true ∧ i = 0

variable {x : String} {e : Element} {t : Tree} {cs : List Tree}

theorem unread_of_not_mem_reads (hnames : t.hasDynamicVariables = false) (h : x ∉ t.reads) :
    Unread x t := by
  intro s hs i c hc hkey
  by_contra hassigned
  obtain ⟨above, hplace⟩ := exists_placesFrom [] s hs hc
  have hdrive : "variable:".toList.isPrefixOf x.toList = false := by
    have hname := List.any_eq_false.mp hnames c
      (mem_nodes_trans t hs (child_mem_nodes (List.mem_of_getElem? hc)))
    rw [usesVariablesByName, hkey, Option.any_some, Bool.or_eq_true, not_or] at hname
    exact Bool.not_eq_true _ ▸ hname.1
  refine h (List.mem_filterMap.mpr ⟨_, hplace, ?_⟩)
  have hread : ((Place.parent? ⟨(s, i) :: above, c⟩).any isPlainAssignment &&
      Place.position? ⟨(s, i) :: above, c⟩ == some 0) = false := by
    simpa [Place.parent?, Place.position?] using hassigned
  simp only [hread, Bool.false_eq_true, if_false, hkey, Option.map_some, dropDrive_eq_self hdrive]

theorem Unread.child (h : Unread x t) {c : Tree} (hc : c ∈ t.children) : Unread x c :=
  fun s hs => h s (mem_nodes_of_child hc hs)

/-- A tree in which a variable does not occur. -/
def Avoids (x : String) (t : Tree) : Prop := ∀ u ∈ t.nodes, u.variableKey? ≠ some x

theorem Unread.avoids (h : Unread x t) (ht : Inert t) (hroot : t.variableKey? ≠ some x) :
    Avoids x t := by
  induction t using children_induction with
  | h e cs ih =>
    intro u hu
    rcases mem_nodes_iff.mp hu with rfl | ⟨c, hc, hu⟩
    · exact hroot
    · refine ih c hc (h.child hc) (fun v hv => ht v (mem_nodes_of_child hc hv)) (fun hkey => ?_) u hu
      obtain ⟨i, hi⟩ := List.getElem?_of_mem hc
      exact ht.not_assignment (h _ (mem_nodes_self _) hi hkey).1

theorem Avoids.child (h : Avoids x t) {c : Tree} (hc : c ∈ t.children) : Avoids x c :=
  fun u hu => h u (mem_nodes_of_child hc hu)

/-- States that may only differ in what one variable holds. -/
structure Agree {V : Type*} (x : String) (σ τ : State V) : Prop where
  store : ∀ k ≠ x, σ.store k = τ.store k
  trace : σ.trace = τ.trace

theorem Agree.refl {V : Type*} (σ : State V) : Agree x σ σ := ⟨fun _ _ => rfl, rfl⟩

theorem Agree.symm {V : Type*} {σ τ : State V} (h : Agree x σ τ) : Agree x τ σ :=
  ⟨fun k hk => (h.store k hk).symm, h.trace.symm⟩

theorem Expression.eval_agree {V : Type*} {I : Interpretation V} {σ τ : State V} (h : Expression t)
    (hx : Avoids x t) (hστ : Agree x σ τ) : I.eval σ t = I.eval τ t := by
  induction h with
  | scalar h => rw [Interpretation.eval_constant (.inr h.kind), Interpretation.eval_constant (.inr h.kind)]
  | @array e l items he =>
    have hkind : (Tree.node e [.node l items]).kind = .arrayLiteral := he
    rw [Interpretation.eval_constant (.inl hkind), Interpretation.eval_constant (.inl hkind)]
  | var h =>
    obtain ⟨-, key, hkey⟩ := h
    have hne : key ≠ x := fun heq => hx _ (mem_nodes_self _) (heq ▸ hkey)
    rw [Interpretation.eval_variable hkey, Interpretation.eval_variable hkey, hστ.store key hne]
  | binary he _ _ hleft hright =>
    rw [Interpretation.eval_binary he, Interpretation.eval_binary he, hleft (hx.child (by simp)),
      hright (hx.child (by simp))]
  | group he _ ih =>
    rw [Interpretation.eval_group he, Interpretation.eval_group he, ih (hx.child (by simp))]
  | statement he _ _ ih =>
    rw [Interpretation.eval_statement he, Interpretation.eval_statement he,
      ih (hx.child (by simp))]

/-- An expression is read in whatever place it stands, but for the target of an assignment. -/
theorem Unread.expression (h : Unread x t) (ht : t.kind ≠ .assignment) {c : Tree}
    (hc : c ∈ t.children) (hexpr : Expression c) : Avoids x c := by
  refine (h.child hc).avoids hexpr.inert fun hkey => ht ?_
  obtain ⟨i, hi⟩ := List.getElem?_of_mem hc
  exact kind_of_isPlainAssignment (h _ (mem_nodes_self _) hi hkey).1

end Scripts
end Unscramble
