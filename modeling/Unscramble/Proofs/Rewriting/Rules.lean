import Unscramble.Proofs.Rewriting.LocalStep

/-! Every rule that changes the shape of a tree is a chain of the local steps listed for it. -/
namespace Unscramble

open Simplify

namespace Place

theorem parent_is {p : Place} {k : Kind} {above : Tree} (h : p.parentIs k = true)
    (habove : p.parent? = some above) : above.kind = k := by
  simpa [parentIs, habove, Tree.is] using h

end Place

namespace Simplify
variable {t t' : Tree}

theorem removeEmptyContainers_changes (h : removeEmptyContainers t = some t') :
    Changes (LocalStep .removeEmptyContainers) t t' := by
  refine (Tree.replaceOutermost?_changes t h).exchange fun above s new hnew => ?_
  simp only [Option.ite_none_right_eq_some, Option.some.injEq] at hnew
  obtain ⟨hs, rfl⟩ := hnew
  exact .emptyList hs

theorem removeUnusedVariable_changes (h : removeUnusedVariable t = some t') :
    Changes (LocalStep .removeUnusedVariable) t t' := by
  simp only [removeUnusedVariable, Option.ite_none_left_eq_some] at h
  refine (Tree.replaceFirst?_within (fun p above new _ habove hnew => ?_) h.2).exchange
    fun _ _ _ h => h
  simp only [Option.ite_none_right_eq_some, Option.some.injEq, isDeadAssignment,
    Bool.and_eq_true] at hnew
  obtain ⟨⟨⟨hplain, hparent⟩, -⟩, rfl⟩ := hnew
  exact .assignment (Place.parent_is hparent habove) (Tree.kind_of_isPlainAssignment hplain)

theorem pipelineCore?_mem : (t : Tree) → {u : Tree} → pipelineCore? t = some u → u ∈ t.nodes
  | .node e [c], u, h => by
    rw [pipelineCore?] at h
    split at h
    · exact Tree.mem_nodes_of_child (by simp) (pipelineCore?_mem c h)
    · cases h; exact Tree.mem_nodes_self _
  | .node e [], u, h => by
    simp only [pipelineCore?, Option.ite_none_left_eq_some, Option.some.injEq] at h
    exact h.2 ▸ Tree.mem_nodes_self _
  | .node e (_ :: _ :: _), u, h => by
    simp only [pipelineCore?, Option.ite_none_left_eq_some, Option.some.injEq] at h
    exact h.2 ▸ Tree.mem_nodes_self _

theorem isOptionalList_of_isSelfDelimited {k : Kind} (h : isSelfDelimited k = true) :
    isOptionalList k = false := by
  cases k <;> simp_all [isSelfDelimited, isOptionalList]

theorem unwrapParen_changes (h : unwrapParen t = some t') : Changes (LocalStep .unwrapParen) t t' := by
  refine (Tree.replaceFirst?_within (fun p above new _ _ hnew => ?_) h).exchange fun _ _ _ h => h
  simp only [Option.ite_none_right_eq_some, Option.map_eq_some_iff, Option.filter_eq_some_iff,
    Option.bind_eq_some_iff] at hnew
  obtain ⟨hkind, u, ⟨⟨c, hc, hu⟩, hself⟩, rfl⟩ := hnew
  have hmem : u ∈ Tree.nodesAll p.tree.children := by
    rw [Tree.children_of_onlyChild? hc]
    exact Tree.mem_nodesAll.mpr ⟨c, by simp, pipelineCore?_mem c hu⟩
  exact .inner (Tree.is_iff.mp hkind ▸ .paren) hmem
    (.kind (isOptionalList_of_isSelfDelimited hself))

theorem unwrapPipeline_changes (h : unwrapPipeline t = some t') :
    Changes (LocalStep .unwrapPipeline) t t' := by
  refine (Tree.replaceFirst?_within (fun p above new _ _ hnew => ?_) h).exchange fun _ _ _ h => h
  simp only [Option.ite_none_right_eq_some, Option.map_eq_some_iff, Option.bind_eq_some_iff] at hnew
  obtain ⟨hkind, u, ⟨c, hc, hu⟩, rfl⟩ := hnew
  have hkind := Tree.is_iff.mp hkind
  have hcs := Tree.children_of_onlyChild? hc
  have hmem : c ∈ p.tree.children := by simp [hcs]
  split at hu
  next helements =>
    have hu : u ∈ c.children := by simp [Tree.children_of_onlyChild? hu]
    refine .inner (hkind ▸ .pipeline) ?_
      (.child (Tree.child_mem_nodes hmem) hu (by simp [Tree.is_iff.mp helements, holdsLists]))
    exact Tree.mem_nodesAll.mpr ⟨c, hmem, Tree.child_mem_nodes hu⟩
  next =>
    cases hu
    exact .inner (hkind ▸ .pipeline) (Tree.child_mem_nodesAll hmem)
      (.child (Tree.mem_nodes_self _) hmem (by simp [hkind, holdsLists]))

theorem unwrapSingleArray_changes (h : unwrapSingleArray t = some t') :
    Changes (LocalStep .unwrapSingleArray) t t' := by
  refine (Tree.replaceFirst?_within (fun p above new _ _ hnew => ?_) h).exchange fun _ _ _ h => h
  simp only [Option.ite_none_right_eq_some, Option.map_eq_some_iff, Option.filter_eq_some_iff,
    Option.bind_eq_some_iff, Bool.and_eq_true] at hnew
  obtain ⟨⟨hkind, -⟩, u, ⟨⟨elements, helements, hu⟩, -⟩, rfl⟩ := hnew
  obtain ⟨hmem, hlist⟩ := Tree.childOf?_mem helements
  have hu : u ∈ elements.children := by simp [Tree.children_of_onlyChild? hu]
  exact .inner (Tree.is_iff.mp hkind ▸ .array)
    (Tree.mem_nodesAll.mpr ⟨elements, hmem, Tree.child_mem_nodes hu⟩)
    (.child (Tree.child_mem_nodes hmem) hu (by simp [hlist, holdsLists]))

/-- An operation with a variable that holds nothing becomes one of its operands or a number. -/
theorem withoutUnassigned?_cases {known : List String} {s u : Tree}
    (h : withoutUnassigned? known s = some u) :
    s.kind = .binaryExpression ∧ (u ∈ s.children ∨ ∃ n, u = intTree n) := by
  simp only [withoutUnassigned?, Option.ite_none_right_eq_some] at h
  refine ⟨Tree.is_iff.mp h.1, ?_⟩
  split at h
  next left right rest hcs =>
    rw [hcs]
    obtain ⟨-, h⟩ := h
    split at h
    case h_1 | h_2 | h_3 => cases h; simp
    case h_4 | h_5 | h_6 => obtain ⟨n, -, rfl⟩ := Option.map_eq_some_iff.mp h; exact .inr ⟨_, rfl⟩
    case h_7 => cases h
  next => simp at h

theorem removeUnassignedUse_changes (h : removeUnassignedUse t = some t') :
    Changes (LocalStep .removeUnassignedUse) t t' := by
  simp only [removeUnassignedUse, Option.ite_none_left_eq_some] at h
  refine (Tree.replaceFirst?_within (fun p above new _ _ hnew => ?_) h.2).exchange fun _ _ _ h => h
  obtain ⟨u, hu, rfl⟩ := Option.map_eq_some_iff.mp hnew
  obtain ⟨hkind, hmem | ⟨n, rfl⟩⟩ := withoutUnassigned?_cases hu
  · exact .inner (hkind ▸ .arithmetic) (Tree.child_mem_nodesAll hmem)
      (.child (Tree.mem_nodes_self _) hmem (by simp [hkind, holdsLists]))
  · exact .literal (hkind ▸ .arithmetic) (.value (.int n) .singleQuoted)

theorem unaryJoin_changes (h : unaryJoin t = some t') : Changes (LocalStep .unaryJoin) t t' := by
  refine (Tree.updateEvery?_changes t h).mono fun s s' hs => .update ?_
  obtain ⟨e, cs⟩ := s
  simp only [binaryJoin?, Option.ite_none_right_eq_some, Bool.and_eq_true, beq_iff_eq,
    Option.some.injEq] at hs
  obtain ⟨⟨⟨hkind, -⟩, hlength⟩, rfl⟩ := hs
  obtain ⟨c, rfl⟩ := List.length_eq_one_iff.mp hlength
  exact .join (Tree.is_iff.mp hkind)

theorem foldBinary_changes (h : foldBinary t = some t') : Changes (LocalStep .foldBinary) t t' := by
  refine (Tree.replaceOutermost?_changes t h).exchange fun above s new hnew => ?_
  obtain ⟨folded, hfolded, rfl⟩ := Option.map_eq_some_iff.mp hnew
  simp only [binaryValue?, Option.ite_none_right_eq_some] at hfolded
  refine .literal (Tree.is_iff.mp hfolded.1 ▸ .binary) ?_
  cases folded with
  | value v quoting => exact .value v quoting
  | truth b => exact .truth b

theorem foldInvokeMember_changes (h : foldInvokeMember t = some t') :
    Changes (LocalStep .foldInvokeMember) t t' := by
  refine (Tree.replaceOutermost?_changes t h).exchange fun above s new hnew => ?_
  obtain ⟨v, hv, rfl⟩ := Option.map_eq_some_iff.mp hnew
  rw [Option.orElse_eq_orElse, Option.orElse_eq_or, Option.or_eq_some_iff] at hv
  rcases hv with hv | ⟨-, hv⟩
  · obtain ⟨parts, hparts, -⟩ := Option.bind_eq_some_iff.mp hv
    simp only [Tree.invocation?, Option.ite_none_right_eq_some] at hparts
    exact .literal (Tree.is_iff.mp hparts.1 ▸ .invocation) (.value v _)
  · simp only [propertyValue?, Option.ite_none_right_eq_some, Bool.and_eq_true] at hv
    exact .literal (Tree.is_iff.mp hv.1.1 ▸ .property) (.value v _)

theorem foldConversions_changes (h : foldConversions t = some t') :
    Changes (LocalStep .foldConversions) t t' := by
  refine (Tree.replaceOutermost?_changes t h).exchange fun above s new hnew => ?_
  obtain ⟨casted, hcasted, rfl⟩ := Option.map_eq_some_iff.mp hnew
  obtain ⟨parts, hparts, -⟩ := Option.bind_eq_some_iff.mp hcasted
  simp only [Tree.conversion?, Option.ite_none_right_eq_some] at hparts
  refine .literal (Tree.is_iff.mp hparts.1 ▸ .conversion) ?_
  cases casted with
  | value v quoting => exact .value v quoting
  | type name => exact .type name

theorem foldIndex_changes (h : foldIndex t = some t') : Changes (LocalStep .foldIndex) t t' := by
  refine (Tree.replaceOutermost?_changes t h).exchange fun above s new hnew => ?_
  obtain ⟨v, hv, rfl⟩ := Option.map_eq_some_iff.mp hnew
  simp only [indexValue?, Option.ite_none_right_eq_some] at hv
  exact .literal (Tree.is_iff.mp hv.1 ▸ .index) (.value v _)

end Simplify
end Unscramble
