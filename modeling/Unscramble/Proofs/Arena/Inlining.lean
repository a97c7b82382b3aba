import Unscramble.Proofs.Arena.Parts

/-! Scripts that are inlined in an arena. The same texts are submitted in the same order as for the tree, so the
same is remembered, and what comes of them is copied into the arena. -/
namespace Unscramble

open IdTree Simplify

theorem Seat.up?_place (f : Nat → Element) (s : Seat) : (s.place f).up? = s.up?.map (place f) := by
  obtain ⟨trail, node⟩ := s
  cases trail <;> rfl

namespace Arena

section
variable {a : Arena} {t : IdTree}

theorem statementOf?_place (a : Arena) (s : Seat) :
    Simplify.statementOf? (s.place a.element) = (a.statementOf? s).map (Seat.place a.element) := by
  rw [Simplify.statementOf?, statementOf?, Seat.up?_place]
  cases s.up? with
  | none => rfl
  | some command =>
    rw [Option.map_some, Option.filter_some, Option.filter_some, Seat.tree_place, is_toTree]
    split
    next =>
      rw [Option.bind_some, Option.bind_some, Seat.up?_place]
      cases command.up? with
      | none => rfl
      | some above =>
        rw [Option.map_some, Option.bind_some, Option.bind_some, Seat.tree_place, is_toTree, is_toTree,
          children_toTree, List.length_map]
        split
        next => rfl
        next =>
          split
          next =>
            rw [Seat.up?_place]
            cases above.up? with
            | none => rfl
            | some pipeline =>
              rw [Option.map_some, Option.filter_some, Option.filter_some, Seat.tree_place, is_toTree]
              split <;> rfl
          next => rfl
    next => rfl

theorem statementOf?_on {s r : Seat} (hs : s.On t) (h : a.statementOf? s = some r) : r.On t := by
  obtain ⟨command, hcommand, hstatement⟩ := Option.bind_eq_some_iff.mp h
  obtain ⟨hup, -⟩ := Option.filter_eq_some_iff.mp hcommand
  obtain ⟨above, habove, hstatement⟩ := Option.bind_eq_some_iff.mp hstatement
  have hon := hs.up hup
  split at hstatement
  next =>
    cases hstatement
    exact hon
  next =>
    split at hstatement
    next =>
      obtain ⟨hpipeline, -⟩ := Option.filter_eq_some_iff.mp hstatement
      exact (hon.up habove).up hpipeline
    next => cases hstatement

/-- The statement that runs a literal script, and the script. -/
def invocationSeat? (a : Arena) (s : Seat) : Option (Seat × String) :=
  (literalScript? (s.node.toTree a.element)).bind fun script => (a.statementOf? s).map (·, script)

theorem invocationAt?_eq (a : Arena) (s : Seat) :
    a.invocationAt? s = (a.invocationSeat? s).map fun (r, script) => (r.id, script) := by
  rw [invocationAt?, invocationSeat?]
  cases literalScript? (s.node.toTree a.element) with
  | none => rfl
  | some script => cases a.statementOf? s <;> rfl

theorem invocationAt?_place (a : Arena) (s : Seat) :
    Simplify.invocationAt? (s.place a.element) =
      (a.invocationSeat? s).map fun (r, script) => (r.place a.element, script) := by
  rw [Simplify.invocationAt?, invocationSeat?, Seat.tree_place, statementOf?_place]
  cases literalScript? (s.node.toTree a.element) with
  | none => rfl
  | some script => cases a.statementOf? s <;> rfl

/-- Candidates of an arena and those of its tree are submitted to the same end. -/
theorem Shape.inlineFirst_does (h : a.Shape t) (parser : Parser) (memory : Memory) {candidates : List (Seat × String)}
    (hon : ∀ c ∈ candidates, c.1.On t) :
    let result := Simplify.inlineFirst parser memory (candidates.map fun (r, script) => (r.place a.element, script))
    (inlineFirst parser memory (candidates.map fun (r, script) => (r.id, script))).1.Does a result.1 ∧
      (inlineFirst parser memory (candidates.map fun (r, script) => (r.id, script))).2 = result.2 := by
  induction candidates generalizing memory with
  | nil => exact ⟨h.does_nothing rfl, rfl⟩
  | cons c candidates ih =>
    obtain ⟨r, script⟩ := c
    obtain ⟨hr, hon⟩ := List.forall_mem_cons.mp hon
    cases hanswer : (parser memory.submitted script).toOption.bind fun parsed => scriptStatements? parsed.children with
    | some statements =>
      simp only [List.map_cons, Simplify.inlineFirst, inlineFirst, hanswer]
      refine ⟨?_, trivial⟩
      have hdoes := h.does_one hr (owns_ofTrees r.node statements)
      rwa [Sketch.trees_ofTrees] at hdoes
    | none =>
      simp only [List.map_cons, Simplify.inlineFirst, inlineFirst, hanswer]
      exact ih _ hon

theorem invocationSeat?_on {s : Seat} (hs : s.On t) {c : Seat × String} (h : a.invocationSeat? s = some c) :
    c.1.On t := by
  obtain ⟨script, -, hstatement⟩ := Option.bind_eq_some_iff.mp h
  obtain ⟨r, hr, rfl⟩ := Option.map_eq_some_iff.mp hstatement
  exact statementOf?_on hs hr

theorem Shape.inlineInvokeExpression_does (h : a.Shape t) (context : Context) (memory : Memory) :
    (a.inlineInvokeExpression context memory).1.Does a
        (Simplify.inlineInvokeExpression context memory a.toTree).1 ∧
      (a.inlineInvokeExpression context memory).2 =
        (Simplify.inlineInvokeExpression context memory a.toTree).2 := by
  rw [inlineInvokeExpression, Simplify.inlineInvokeExpression]
  cases context.settings.inlineInvokeExpression with
  | false => exact ⟨h.does_nothing rfl, rfl⟩
  | true =>
    cases context.parser with
    | none => exact ⟨h.does_nothing rfl, rfl⟩
    | some parser =>
      let candidates := (t.seats.filterMap a.invocationSeat?).filter fun c => !memory.rejected.contains c.2
      have hids : a.layout.seats.filterMap a.invocationAt? =
          (t.seats.filterMap a.invocationSeat?).map fun c => (c.1.id, c.2) := by
        rw [h.layout_eq, funext a.invocationAt?_eq, ← List.map_filterMap]
      have hplaces : a.toTree.places.filterMap Simplify.invocationAt? =
          (t.seats.filterMap a.invocationSeat?).map fun c => (c.1.place a.element, c.2) := by
        rw [h.toTree_eq, ← Seat.map_place_seats, List.filterMap_map,
          show Simplify.invocationAt? ∘ Seat.place a.element = _ from funext a.invocationAt?_place,
          ← List.map_filterMap]
      dsimp only
      rw [hids, hplaces, List.filter_map, List.filter_map]
      refine @inlineFirst_does _ _ h parser memory candidates fun c hc => ?_
      obtain ⟨s, hs, hc⟩ := List.mem_filterMap.mp (List.mem_of_mem_filter hc)
      exact invocationSeat?_on (Seat.on_of_mem hs) hc

end
end Arena
end Unscramble
