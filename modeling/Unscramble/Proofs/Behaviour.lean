import Unscramble.Proofs.Scripts.Propagation
import Unscramble.Proofs.Scripts.Removal

/-! What structured scripts do once literals stand for variables, or an assignment is gone. -/
namespace Unscramble.Scripts

open Simplify Unscramble.Tree

universe u

/-- A script does the same once known values stand for variables. Without an assignment to a variable
that is not read, it does the same but for what that variable holds. -/
theorem Script.behaviour {t : Tree} (h : Script t) (context : Context) (memory : Memory) :
    (∀ t' ∈ (Rule.apply context memory t .propagateConstants).1,
      ∀ {V : Type u} (I : Interpretation V) bound σ, I.script bound t' σ = I.script bound t σ) ∧
    (∀ t' ∈ (Rule.apply context memory t .removeUnusedVariable).1,
      ∃ x ∈ t.writes, x ∉ t.reads ∧ ∀ {V : Type u} (I : Interpretation V) bound σ,
        (I.script bound t' σ).1 = (I.script bound t σ).1 ∧
          Agree x (I.script bound t' σ).2 (I.script bound t σ).2) := by
  refine ⟨fun t' ht V I bound σ => congrFun (h.propagated ht) σ, fun t' ht => ?_⟩
  obtain ⟨hnames, x, hx, hdrops⟩ := removeUnusedVariable_drops ht
  refine ⟨x, mem_writes_of_drops hdrops, hx, fun I bound σ => ?_⟩
  have hunread := unread_of_not_mem_reads hnames hx
  obtain ⟨hending, hagree⟩ := h.kept hunread I bound t' (.inr hdrops) σ σ (.refl σ)
  exact ⟨hending.symm, hagree.symm⟩

/-- A loop up to a known limit, and a variable that is not read. -/
theorem Script.behaviour_counted :
    let var := fun name => leaf .variableRef [("VariablePath", name)] none
    let operation := fun operator left right =>
      branch .binaryExpression [("Operator", operator)] [left, right]
    let assign := fun name value => branch .assignment [("Operator", "Equals")] [var name, value]
    let script := fun limit unused => branch .scriptBlock [] [branch .namedBlock []
      [branch .statements [] ([assign "n" (intTree 3), branch .whileLoop []
        [operation "Ilt" (var "i") limit, branch .statementBlock []
          [branch .statements [] [assign "i" (operation "Plus" (var "i") (intTree 1))]]]] ++ unused)]]
    let t := script (var "n") [assign "x" (var "i")]
    Script t ∧
    (∀ {V : Type} (I : Interpretation V) bound σ,
      I.script bound (script (intTree 3) [assign "x" (var "i")]) σ = I.script bound t σ) ∧
    ∃ x ∈ t.writes, x ∉ t.reads ∧ ∀ {V : Type} (I : Interpretation V) bound σ,
      (I.script bound (script (var "n") []) σ).1 = (I.script bound t σ).1 ∧
        Agree x (I.script bound (script (var "n") []) σ).2 (I.script bound t σ).2 := by
  intro var operation assign script t
  have hvar (name : String) : IsVariable (var name) := ⟨rfl, _, rfl⟩
  have hint (n : Int64) (hn : n ≠ Int64.minValue) : Expression (intTree n) :=
    .scalar ⟨rfl, .int n, scalar?_toTree (v := .int n) rfl (by simpa using hn) .bareWord, by simpa using hn⟩
  have hassign (name : String) {value : Tree} (hvalue : Expression value) :
      Statement (assign name value) := .simple (.assignment rfl (hvar name) hvalue)
  have hsum : Expression (operation "Plus" (var "i") (intTree 1)) :=
    .binary rfl (.var (hvar "i")) (hint 1 (by decide))
  have hloop : Statement (branch .whileLoop [] [operation "Ilt" (var "i") (var "n"),
      branch .statementBlock [] [branch .statements []
        [assign "i" (operation "Plus" (var "i") (intTree 1))]]]) :=
    .loop (.inl rfl) (.binary rfl (.var (hvar "i")) (.var (hvar "n")))
      (.mk rfl rfl (List.forall_mem_singleton.mpr (hassign "i" hsum)))
  have hscript : Script t := by
    refine .mk rfl (.mk rfl rfl (List.forall_mem_cons.mpr ⟨hassign "n" (hint 3 (by decide)), ?_⟩))
    exact List.forall_mem_cons.mpr ⟨hloop, List.forall_mem_singleton.mpr
      (hassign "x" (.var (hvar "i")))⟩
  obtain ⟨hpropagated, hremoved⟩ := Script.behaviour hscript {} {}
  exact ⟨hscript, hpropagated _ (by decide +kernel), hremoved _ (by decide +kernel)⟩

end Unscramble.Scripts
