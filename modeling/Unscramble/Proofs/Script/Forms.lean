import Mathlib.Data.List.TakeDrop
import Unscramble.Proofs.Rewriting.Nodes
import Unscramble.Script.Printed

/-! Printing one tree in several ways. Whatever is put together in the same way from texts, line breaks and the
printed parts of a node has the properties that these have, as long as those are about pieces in a row and about
the first sign. So a relation between printed forms has to be shown for these few ways of putting pieces together,
and then holds for all nodes. -/
namespace Unscramble.Script

open Unscramble.Tree

/-- A piece that is printed deeper in. -/
def Piece.deeper (more : Nat) : Piece → Piece
  | .text s => .text s
  | .line level => .line (more + level)

theorem map_deeper_zero (ps : List Piece) : ps.map (Piece.deeper 0) = ps := by
  rw [List.map_congr_left (g := id) fun p _ => ?_, List.map_id]
  cases p with
  | text => rfl
  | line level => exact congrArg Piece.line (Nat.zero_add level)

theorem map_deeper_deeper (more further : Nat) (ps : List Piece) :
    (ps.map (Piece.deeper further)).map (Piece.deeper more) = ps.map (Piece.deeper (more + further)) := by
  rw [List.map_map]
  refine List.map_congr_left fun p _ => ?_
  cases p with
  | text => rfl
  | line level => exact congrArg Piece.line (Nat.add_assoc more further level).symm

theorem firstChar?_deeper (more : Nat) (ps : List Piece) : firstChar? (ps.map (.deeper more)) = firstChar? ps := by
  induction ps with
  | nil => rfl
  | cons p ps ih =>
    cases p with
    | line => rfl
    | text s => simp only [List.map_cons, Piece.deeper, firstChar?, ih]

/-- The children of the first tree of a kind, or nothing. -/
def listFrom (kind : Kind) (cs : List Tree) : List Tree :=
  ((cs.find? (·.is kind)).map Tree.children).getD []

/-- Ways of printing trees, and a relation between pieces that are printed in these ways, each at a level of its
own. The forms have the kinds of the nodes and the forms of the children for parts. The relation holds of texts,
line breaks, pieces in a row and pieces between braces, and whether a sign comes first is the same for all. -/
structure Uniform {ι : Type} (form : ι → Tree → Printed) (R : (ι → Nat) → (ι → List Piece) → Prop) : Prop where
  kind : ∀ i t, (form i t).element.kind = t.kind
  parts : ∀ i t, (form i t).parts = t.children.map (form i)
  nil : ∀ level, R level fun _ => []
  text : ∀ level s, R level fun _ => [.text s]
  line : ∀ level, R level fun i => [.line (level i)]
  append : ∀ {level P Q}, R level P → R level Q → R level fun i => P i ++ Q i
  inner : ∀ {level P Q}, R level P → R (fun i => level i + 1) Q → R level fun i => P i ++ Q i ++ [.line (level i)]
  sign : ∀ {level P}, R level P → ∃ sign, ∀ i, (firstChar? (P i)).any isSign = sign

/-- All nodes of some trees are printed as pieces that are related. -/
structure Alike {ι : Type} (form : ι → Tree → Printed) (R : (ι → Nat) → (ι → List Piece) → Prop)
    (cs : List Tree) : Prop extends Uniform form R where
  nodes : ∀ t ∈ nodesAll cs, ∀ level, R level fun i => (form i t).pieces (level i)

section
variable {ι : Type} {form : ι → Tree → Printed} {R : (ι → Nat) → (ι → List Piece) → Prop} {level : ι → Nat}
  {P Q : ι → List Piece}

namespace Uniform

theorem is (h : Uniform form R) (i : ι) (t : Tree) (kind : Kind) : (form i t).is kind = t.is kind := by
  rw [Printed.is, h.kind, Tree.is]

theorem partOf?_map (h : Uniform form R) (i : ι) (kind : Kind) (cs : List Tree) :
    partOf? kind (cs.map (form i)) = (cs.find? (·.is kind)).map (form i) := by
  simp only [partOf?, List.find?_map, Function.comp_def, h.is]

theorem listOf_map (h : Uniform form R) (i : ι) (kind : Kind) (cs : List Tree) :
    listOf kind (cs.map (form i)) = (Script.listFrom kind cs).map (form i) := by
  rw [listOf, h.partOf?_map, Script.listFrom]
  cases cs.find? (·.is kind) with
  | none => rfl
  | some t => exact h.parts i t

/-- Whether a `;` is printed behind a statement depends on kinds of nodes alone. -/
theorem endsInBlock_eq (h : Uniform form R) (t : Tree) : ∃ ends, ∀ i, endsInBlock (form i t) = ends := by
  simp only [endsInBlock, h.kind, h.is, h.parts, h.listOf_map, List.getLast?_map]
  cases (Script.listFrom .pipelineElements t.children).getLast? with
  | none =>
    simp only [Option.map_none]
    exact ⟨_, fun _ => rfl⟩
  | some last =>
    simp only [Option.map_some, h.kind, h.parts, List.head?_map, h.listOf_map, List.getLast?_map]
    cases last.kind <;> simp only [Option.any_map, h.is] <;> exact ⟨_, fun _ => rfl⟩

theorem cons (h : Uniform form R) (hP : R level P) : R level fun i => .line (level i) :: P i :=
  h.append (h.line level) hP

theorem inner_append (h : Uniform form R) {Q' : ι → List Piece} (hP : R level P) (hQ : R (fun i => level i + 1) Q)
    (hQ' : R (fun i => level i + 1) Q') : R level fun i => P i ++ Q i ++ Q' i ++ [.line (level i)] := by
  have hinner := h.inner hP (h.append hQ hQ')
  simpa only [List.append_assoc] using hinner

theorem flatMap (h : Uniform form R) {α : Type} {xs : List α} {pieces : α → ι → List Piece}
    (hxs : ∀ x ∈ xs, R level (pieces x)) : R level fun i => xs.flatMap fun x => pieces x i := by
  induction xs with
  | nil => exact h.nil level
  | cons x xs ih =>
    simp only [List.flatMap_cons]
    exact h.append (hxs x List.mem_cons_self) (ih fun y hy => hxs y (List.mem_cons_of_mem _ hy))

theorem ite {c : Prop} [Decidable c] (hP : R level P) (hQ : R level Q) :
    R level fun i => if c then P i else Q i := by
  split
  · exact hP
  · exact hQ

end Uniform

namespace Alike

variable {kind : Kind} {t : Tree} {cs ds : List Tree}

theorem mem (h : Alike form R cs) (ht : t ∈ cs) (level : ι → Nat) :
    R level fun i => (form i t).pieces (level i) :=
  h.nodes t (mem_nodesAll.mpr ⟨t, ht, mem_nodes_self t⟩) level

theorem children (h : Alike form R cs) (ht : t ∈ cs) : Alike form R t.children where
  toUniform := h.toUniform
  nodes u hu := h.nodes u (mem_nodesAll.mpr ⟨t, ht, nodes_eq t ▸ List.mem_cons_of_mem _ hu⟩)

theorem subset (h : Alike form R cs) (hsub : ds ⊆ cs) : Alike form R ds where
  toUniform := h.toUniform
  nodes u hu := by
    obtain ⟨d, hd, hu⟩ := mem_nodesAll.mp hu
    exact h.nodes u (mem_nodesAll.mpr ⟨d, hsub hd, hu⟩)

theorem listFrom (h : Alike form R cs) (kind : Kind) : Alike form R (listFrom kind cs) := by
  rw [Script.listFrom]
  cases hfind : cs.find? (·.is kind) with
  | none => exact h.subset (List.nil_subset _)
  | some t => exact h.children (List.mem_of_find?_eq_some hfind)

theorem flatMap_pieces (h : Alike form R cs) (level : ι → Nat) :
    R level fun i => cs.flatMap fun t => (form i t).pieces (level i) :=
  h.flatMap fun _ ht => h.mem ht level

/-! ### The ways of printing -/

theorem separated (h : Alike form R cs) (separator : String) (level : ι → Nat) :
    R level fun i => separated separator (level i) (cs.map (form i)) := by
  induction cs with
  | nil => exact h.nil level
  | cons t ts ih =>
    cases ts with
    | nil => exact h.mem List.mem_cons_self level
    | cons u us =>
      exact h.append (h.append (h.mem List.mem_cons_self level) (h.text level separator))
        (ih (h.subset (List.subset_cons_self _ _)))

theorem listed (h : Alike form R cs) (kind : Kind) (separator : String) (level : ι → Nat) :
    R level fun i => Script.separated separator (level i) (listOf kind (cs.map (form i))) := by
  simp only [h.listOf_map]
  exact (h.listFrom kind).separated separator level

theorem optional {p : Option Tree} (h : Alike form R cs) (hp : ∀ t ∈ p, t ∈ cs) (level : ι → Nat) :
    R level fun i => optional (level i) (p.map (form i)) := by
  cases p with
  | none => exact h.nil level
  | some t => exact h.mem (hp t rfl) level

theorem optionalAfter {p : Option Tree} (h : Alike form R cs) (hp : ∀ t ∈ p, t ∈ cs) (lead : String)
    (level : ι → Nat) : R level fun i => optionalAfter lead (level i) (p.map (form i)) := by
  cases p with
  | none => exact h.nil level
  | some t => exact h.append (h.text level lead) (h.mem (hp t rfl) level)

theorem statementLines (h : Alike form R cs) (level : ι → Nat) :
    R level fun i => statementLines (level i) (cs.map (form i)) := by
  simp only [Script.statementLines, List.flatMap_map]
  refine h.flatMap fun t ht => ?_
  obtain ⟨ends, hends⟩ := h.endsInBlock_eq t
  simp only [hends]
  exact h.cons (h.append (h.mem ht level) (Uniform.ite (h.nil level) (h.text level _)))

theorem braced (h : Alike form R cs) (level : ι → Nat) :
    R level fun i => braced (level i) (cs.map (form i)) := by
  simp only [Script.braced, List.isEmpty_map]
  exact Uniform.ite (h.text level _)
    (h.append (h.inner (h.text level _) (h.statementLines _)) (h.text level _))

theorem block (h : Alike form R cs) (level : ι → Nat) :
    R level fun i => block (level i) (cs.map (form i)) := by
  simp only [Script.block, h.listOf_map]
  exact (h.listFrom _).braced level

theorem blockOf (h : Alike form R cs) (ht : t ∈ cs) (level : ι → Nat) :
    R level fun i => Script.block (level i) (form i t).parts := by
  simp only [h.parts]
  exact (h.children ht).block level

theorem optionalBlock {p : Option Tree} (h : Alike form R cs) (hp : ∀ t ∈ p, t ∈ cs) (level : ι → Nat) :
    R level fun i => optionalBlock (level i) (p.map (form i)) := by
  cases p with
  | none => exact h.nil level
  | some t => exact h.blockOf (hp t rfl) level

theorem namedBlock (h : Alike form R cs) (e : Element) (level : ι → Nat) :
    R level fun i => namedBlock (level i) e (cs.map (form i)) := by
  simp only [Script.namedBlock, h.listOf_map]
  exact Uniform.ite ((h.listFrom _).statementLines level)
    (h.cons (h.append (h.text level _) ((h.listFrom _).braced level)))

theorem scriptBody (h : Alike form R cs) (level : ι → Nat) :
    R level fun i => scriptBody (level i) (cs.map (form i)) := by
  simp only [Script.scriptBody, List.flatMap_map, h.is]
  exact h.flatMap fun t ht => Uniform.ite (h.mem ht level) (h.cons (h.mem ht level))

theorem scriptBlock (h : Alike form R cs) (level : ι → Nat) :
    R level fun i => scriptBlock (level i) (cs.map (form i)) := by
  simp only [Script.scriptBlock, List.isEmpty_map]
  exact Uniform.ite (h.text level _)
    (h.append (h.inner (h.text level _) (h.scriptBody _)) (h.text level _))

theorem paramBlock (h : Alike form R cs) (level : ι → Nat) :
    R level fun i => paramBlock (level i) (cs.map (form i)) := by
  simp only [Script.paramBlock, h.listOf_map, List.flatMap_map]
  refine h.append (h.append (h.append (h.flatMap fun t ht => ?_) (h.text level _)) ?_) (h.text level _)
  · exact h.append ((h.listFrom _).mem ht level) (h.line level)
  · exact (h.listFrom _).separated _ level

theorem parameter (h : Alike form R cs) (level : ι → Nat) :
    R level fun i => parameter (level i) (cs.map (form i)) := by
  have hrest : Alike form R (cs.filter (!·.is .attributeList)) := h.subset List.filter_sublist.subset
  simp only [Script.parameter, h.listOf_map, List.flatMap_map, List.filter_map, Function.comp_def, h.is,
    List.getElem?_map]
  refine h.append (h.append ((h.listFrom _).flatMap_pieces level) ?_) ?_
  · exact hrest.optional (fun _ => List.mem_of_getElem?) level
  · exact hrest.optionalAfter (fun _ => List.mem_of_getElem?) _ level

theorem attributeItem (h : Alike form R cs) (e : Element) (level : ι → Nat) :
    R level fun i => attributeItem (level i) e (cs.map (form i)) := by
  simp only [Script.attributeItem, h.listOf_map, List.isEmpty_map]
  refine h.append (h.append (h.append (h.append (h.text level _) ?_) ?_) ?_) (h.text level _)
  · exact (h.listFrom _).separated _ level
  · exact Uniform.ite (h.text level _) (h.nil level)
  · exact (h.listFrom _).separated _ level

theorem functionDefinition (h : Alike form R cs) (e : Element) (level : ι → Nat) :
    R level fun i => functionDefinition (level i) e (cs.map (form i)) := by
  simp only [Script.functionDefinition, h.listOf_map, List.isEmpty_map, h.partOf?_map]
  refine h.append (h.append (h.append (h.text level _) (Uniform.ite (h.nil level) ?_)) (h.text level _)) ?_
  · exact h.append (h.append (h.text level _) ((h.listFrom _).separated _ level)) (h.text level _)
  · cases hbody : cs.find? (·.is .scriptBlock) with
    | none => exact h.text level _
    | some body =>
      simp only [Option.map_some, h.parts]
      exact (h.children (List.mem_of_find?_eq_some hbody)).scriptBlock level

theorem branches (level : ι → Nat) : (cs : List Tree) → Alike form R cs → (lead : String) →
    R level fun i => branches lead (level i) (cs.map (form i))
  | [], h, _ => h.nil level
  | [_], h, _ => h.append (h.text level _) (h.blockOf List.mem_cons_self level)
  | test :: body :: rest, h, lead => by
    have hbody : body ∈ test :: body :: rest := List.mem_cons_of_mem _ List.mem_cons_self
    have hrest : Alike form R rest := h.subset fun _ ht => List.mem_cons_of_mem _ (List.mem_cons_of_mem _ ht)
    simp only [List.map_cons, Script.branches]
    refine h.append (h.append (h.append (h.append (h.text level _) ?_) (h.text level _)) ?_) ?_
    · exact h.mem List.mem_cons_self level
    · exact h.blockOf hbody level
    · exact branches level rest hrest _

theorem loopStatement (h : Alike form R cs) (kind : Kind) (level : ι → Nat) :
    R level fun i => loopStatement (level i) kind (cs.map (form i)) := by
  match cs, h with
  | [], h => exact h.nil level
  | [_], h => exact h.nil level
  | condition :: body :: rest, h =>
    have hcondition := h.mem List.mem_cons_self level
    have hbody := h.blockOf (List.mem_cons_of_mem _ List.mem_cons_self) level
    simp only [List.map_cons, Script.loopStatement]
    split
    · exact h.append (h.append (h.append (h.text level _) hcondition) (h.text level _)) hbody
    · exact h.append (h.append (h.append (h.append (h.text level _) hbody) (h.text level _)) hcondition)
        (h.text level _)

theorem forLoop (h : Alike form R cs) (level : ι → Nat) :
    R level fun i => forLoop (level i) (cs.map (form i)) := by
  have hpart (kind : Kind) := h.listed kind "; " level
  simp only [Script.forLoop, h.partOf?_map]
  refine h.append (h.append (h.append (h.append (h.append (h.append (h.append (h.text level _) ?_)
    (h.text level _)) ?_) (h.text level _)) ?_) (h.text level _)) ?_
  · exact hpart .initializer
  · exact hpart .condition
  · exact hpart .iterator
  · exact h.optionalBlock (fun _ => List.mem_of_find?_eq_some) level

theorem forEach (h : Alike form R cs) (level : ι → Nat) :
    R level fun i => forEach (level i) (cs.map (form i)) := by
  match cs, h with
  | [item, body, collection], h =>
    simp only [List.map_cons, List.map_nil, Script.forEach]
    refine h.append (h.append (h.append (h.append (h.append (h.text level _) ?_) (h.text level _)) ?_)
      (h.text level _)) ?_
    · exact h.mem (by simp) level
    · exact h.mem (by simp) level
    · exact h.blockOf (by simp) level
  | [], h | [_], h | [_, _], h | _ :: _ :: _ :: _ :: _, h => exact h.nil level

theorem switchFlags (h : Alike form R cs) (e : Element) (level : ι → Nat) :
    R level fun _ => switchFlags e :=
  h.flatMap fun _ _ => Uniform.ite (h.nil level) (h.text level _)

theorem switchStatement (h : Alike form R cs) (e : Element) (level : ι → Nat) :
    R level fun i => switchStatement (level i) e (cs.map (form i)) := by
  simp only [Script.switchStatement, h.listOf_map, List.flatMap_map, List.head?_map, ← List.map_drop,
    h.partOf?_map]
  refine h.append (h.inner_append (h.append (h.append (h.append (h.append (h.text level _) ?_) (h.text level _)) ?_)
    (h.text level _)) ?_ ?_) (h.text level _)
  · exact h.switchFlags e level
  · exact h.optional (fun _ => List.mem_of_mem_head?) level
  · exact h.flatMap fun t ht => h.cons ((h.listFrom _).mem ht _)
  · cases hlast : (cs.drop 1).find? (·.is .statementBlock) with
    | none => exact h.nil _
    | some otherwise =>
      have hmem := List.mem_of_mem_drop (List.mem_of_find?_eq_some hlast)
      exact h.cons (h.append (h.text _ _) (h.blockOf hmem _))

theorem tryCatch (h : Alike form R cs) (level : ι → Nat) :
    R level fun i => tryCatch (level i) (cs.map (form i)) := by
  simp only [Script.tryCatch, h.listOf_map, List.flatMap_map, List.head?_map, ← List.map_drop, h.partOf?_map]
  refine h.append (h.append (h.append (h.text level _) ?_) ?_) ?_
  · exact h.optionalBlock (fun _ => List.mem_of_mem_head?) level
  · exact h.flatMap fun t ht => h.append (h.text level _) ((h.listFrom _).mem ht level)
  · cases hlast : (cs.drop 1).find? (·.is .statementBlock) with
    | none => exact h.nil level
    | some last =>
      have hmem := List.mem_of_mem_drop (List.mem_of_find?_eq_some hlast)
      exact h.append (h.text level _) (h.blockOf hmem level)

theorem catchClause (h : Alike form R cs) (level : ι → Nat) :
    R level fun i => catchClause (level i) (cs.map (form i)) := by
  simp only [Script.catchClause, h.listOf_map, List.isEmpty_map, h.partOf?_map]
  refine h.append (h.append (h.text level _) (Uniform.ite (h.nil level) ?_)) ?_
  · exact h.append ((h.listFrom _).separated _ level) (h.text level _)
  · exact h.optionalBlock (fun _ => List.mem_of_find?_eq_some) level

theorem keyword (h : Alike form R cs) (name : String) (e : Element) (level : ι → Nat) :
    R level fun i => keyword name (level i) e (cs.map (form i)) := by
  simp only [Script.keyword, List.head?_map]
  exact h.append (h.append (h.text level _) (Uniform.ite (h.nil level) (h.text level _)))
    (h.optionalAfter (fun _ => List.mem_of_mem_head?) _ level)

theorem redirections (h : Alike form R cs) (level : ι → Nat) :
    R level fun i => redirections (level i) (cs.map (form i)) := by
  simp only [Script.redirections, h.listOf_map, List.flatMap_map]
  exact h.flatMap fun t ht => h.append (h.text level _) ((h.listFrom _).mem ht level)

theorem command (h : Alike form R cs) (e : Element) (level : ι → Nat) :
    R level fun i => command (level i) e (cs.map (form i)) := by
  refine h.append (h.append ?_ (h.listed _ _ level)) (h.redirections level)
  split
  · exact h.text level _
  · exact h.text level _
  · exact h.nil level

theorem fileRedirection (h : Alike form R cs) (e : Element) (level : ι → Nat) :
    R level fun i => fileRedirection (level i) e (cs.map (form i)) := by
  simp only [Script.fileRedirection, List.head?_map]
  exact h.append (h.text level _) (h.optionalAfter (fun _ => List.mem_of_mem_head?) _ level)

theorem binary (h : Alike form R cs) (e : Element) (level : ι → Nat) :
    R level fun i => binary (level i) e (cs.map (form i)) := by
  match cs, h with
  | [], h | [_], h => exact h.nil level
  | left :: right :: _, h =>
    exact h.append (h.append (h.mem (by simp) level) (h.text level _)) (h.mem (by simp) level)

theorem memberAccess (h : Alike form R cs) {target name : Tree} (htarget : target ∈ cs) (hname : name ∈ cs)
    (arguments : Option (List Tree)) (harguments : ∀ ts ∈ arguments, Alike form R ts) (e : Element)
    (level : ι → Nat) : R level fun i =>
      memberAccess (level i) e (arguments.map (·.map (form i))) (form i target) (form i name) := by
  refine h.append (h.append (h.append (h.mem htarget level) (h.text level _)) (h.mem hname level)) ?_
  cases arguments with
  | none => exact h.nil level
  | some ts => exact h.append (h.append (h.text level _) ((harguments ts rfl).separated _ level)) (h.text level _)

theorem ite_arguments {ts : List Tree} (h : Alike form R ts) (invoked : Bool) :
    ∀ us ∈ (if invoked then some ts else none), Alike form R us := by
  cases invoked with
  | true => exact fun us hus => Option.some.inj hus ▸ h
  | false => exact fun us hus => nomatch hus

theorem member (h : Alike form R cs) (e : Element) (level : ι → Nat) :
    R level fun i => member (level i) e (cs.map (form i)) := by
  have hite {α β : Type} (c : Bool) (g : α → β) (x : α) :
      (if c then some (g x) else none) = (if c then some x else none).map g := by
    cases c <;> rfl
  match cs, h with
  | [arguments, target, name], h =>
    have harguments := (h.children List.mem_cons_self).ite_arguments (e.kind == .invokeMember)
    simp only [List.map_cons, List.map_nil, Script.member, h.is, h.parts, hite _ (List.map (form _))]
    exact Uniform.ite (h.memberAccess (by simp) (by simp) _ harguments e level) (h.nil level)
  | [target, name], h =>
    have harguments := (h.subset (List.nil_subset _)).ite_arguments (e.kind == .invokeMember)
    have hpieces := h.memberAccess List.mem_cons_self (List.mem_cons_of_mem _ List.mem_cons_self) _ harguments e
      level
    simp only [← hite _ (List.map (form _)), List.map_nil] at hpieces
    exact hpieces
  | [], h | [_], h | _ :: _ :: _ :: _ :: _, h => exact h.nil level

theorem hashtable (h : Alike form R cs) (level : ι → Nat) :
    R level fun i => hashtable (level i) (cs.map (form i)) := by
  simp only [Script.hashtable, h.listOf_map, List.isEmpty_map, List.flatMap_map]
  refine Uniform.ite (h.text level _) (h.append (h.inner (h.text level _) ?_) (h.text level _))
  exact h.flatMap fun t ht => h.cons ((h.listFrom _).mem ht _)

theorem inlineStatements (h : Alike form R cs) (ht : t ∈ cs) (level : ι → Nat) :
    R level fun i => inlineStatements (level i) (form i t) := by
  simp only [Script.inlineStatements, h.is, h.parts]
  exact Uniform.ite ((h.children ht).listed _ _ level) (h.mem ht level)

theorem inlineHead (h : Alike form R cs) (level : ι → Nat) : R level fun i =>
    (((cs.map (form i)).head?.map (Script.inlineStatements (level i))).getD []) := by
  simp only [List.head?_map, Option.map_map]
  cases hhead : cs.head? with
  | none => exact h.nil level
  | some t => exact h.inlineStatements (List.mem_of_mem_head? hhead) level

/-- The parentheses around an operand depend on its first sign alone. -/
theorem unary (h : Alike form R cs) (e : Element) (level : ι → Nat) :
    R level fun i => unary (level i) e (cs.map (form i)) := by
  match cs, h with
  | [], h => exact h.nil level
  | operand :: _, h =>
    have hoperand := h.mem List.mem_cons_self level
    obtain ⟨sign, hsign⟩ := h.sign hoperand
    simp only [List.map_cons, Script.unary]
    split
    · exact h.append hoperand (h.text level _)
    · simp only [hsign]
      exact Uniform.ite (h.append (h.append (h.append (h.text level _) (h.text level _)) hoperand) (h.text level _))
        (h.append (h.text level _) hoperand)
    · exact hoperand

/-- The pieces of a node are related if those of the nodes below it are. -/
theorem pieces (h : Alike form R cs) (e : Element) (level : ι → Nat) :
    R level fun i => pieces e (cs.map (form i)) (level i) := by
  obtain ⟨kind, attributes, text⟩ := e
  cases kind with
  | scriptBlock => exact h.scriptBlock level
  | namedBlock => exact h.namedBlock _ level
  | statementBlock => exact h.block level
  | paramBlock => exact h.paramBlock level
  | parameter => exact h.parameter level
  | attributeItem => exact h.attributeItem _ level
  | namedAttributeArgument =>
    simp only [Script.pieces, List.head?_map]
    exact h.append (h.text level _)
      (Uniform.ite (h.nil level) (h.optionalAfter (fun _ => List.mem_of_mem_head?) _ level))
  | functionDefinition => exact h.functionDefinition _ level
  | pipeline => exact h.listed _ _ level
  | command => exact h.command _ level
  | commandExpression =>
    simp only [Script.pieces, List.head?_map]
    exact h.append (h.optional (fun _ => List.mem_of_mem_head?) level) (h.redirections level)
  | commandParameter =>
    simp only [Script.pieces, List.head?_map]
    exact h.append (h.text level _) (h.optionalAfter (fun _ => List.mem_of_mem_head?) _ level)
  | assignment | binaryExpression => exact h.binary _ level
  | ifElse => exact branches level cs h _
  | whileLoop => exact h.loopStatement .whileLoop level
  | doWhile => exact h.loopStatement .doWhile level
  | doUntil => exact h.loopStatement .doUntil level
  | forLoop => exact h.forLoop level
  | forEach => exact h.forEach level
  | switchStatement => exact h.switchStatement _ level
  | switchClause =>
    match cs, h with
    | [test, body], h =>
      exact h.append (h.append (h.mem (by simp) level) (h.text level _)) (h.blockOf (by simp) level)
    | [], h | [_], h | _ :: _ :: _ :: _, h => exact h.nil level
  | tryCatch => exact h.tryCatch level
  | catchClause => exact h.catchClause level
  | returnStatement | exitStatement | throwStatement | breakStatement | continueStatement =>
    exact h.keyword _ _ level
  | fileRedirection => exact h.fileRedirection _ level
  | mergingRedirection => exact h.text level _
  | unaryExpression => exact h.unary _ level
  | parenExpression => exact h.append (h.append (h.text level _) (h.separated _ level)) (h.text level _)
  | subExpression | arrayExpression =>
    exact h.append (h.append (h.text level _) (h.inlineHead level)) (h.text level _)
  | arrayLiteral => exact h.append (h.append (h.text level _) (h.listed _ _ level)) (h.text level _)
  | hashtable => exact h.hashtable level
  | keyValuePair =>
    match cs, h with
    | [key, value], h =>
      exact h.append (h.append (h.mem (by simp) level) (h.text level _)) (h.mem (by simp) level)
    | [], h | [_], h | _ :: _ :: _ :: _, h => exact h.nil level
  | stringConstant | expandableString | constant | variableRef | typeConstraint | typeExpression =>
    exact h.text level _
  | indexExpression =>
    match cs, h with
    | [target, index], h =>
      exact h.append (h.append (h.append (h.mem (by simp) level) (h.text level _)) (h.mem (by simp) level))
        (h.text level _)
    | [], h | [_], h | _ :: _ :: _ :: _, h => exact h.nil level
  | memberExpression | invokeMember => exact h.member _ level
  | convert | attributeList | catchClauses =>
    simp only [Script.pieces, List.flatMap_map]
    exact h.flatMap_pieces level
  | scriptBlockExpression =>
    simp only [Script.pieces, List.head?_map]
    cases hhead : cs.head? with
    | none => exact h.nil level
    | some t =>
      simp only [Option.map_some, Option.getD_some, h.parts]
      exact (h.children (List.mem_of_mem_head? hhead)).scriptBlock level
  | statements => exact h.statementLines level
  | commandElements | redirections | pipelineElements | initializer | condition | iterator | elements
  | arguments | catchTypes | parameters | positionalArguments | namedArguments | clauses
  | nestedExpressions | keyValuePairs | traps | usingStatements => exact h.separated _ level
  | errorStatement | errorExpression | unsupported => exact h.nil level

end Alike

/-- If the pieces of every node are related as soon as those of the nodes below it are, then all are. -/
theorem Uniform.alike (h : Uniform form R) {ts : List Tree} (hnode : ∀ e cs, .node e cs ∈ nodesAll ts →
    Alike form R cs → ∀ level, R level fun i => (form i (.node e cs)).pieces (level i)) : Alike form R ts where
  toUniform := h
  nodes t ht := by
    suffices hall : ∀ u ∈ t.nodes, ∀ level, R level fun i => (form i u).pieces (level i) from
      hall t (mem_nodes_self t)
    induction t using children_induction with
    | h e cs ih =>
      have hcs : Alike form R cs := ⟨h, fun u hu => by
        obtain ⟨c, hc, hu⟩ := mem_nodesAll.mp hu
        obtain ⟨root, hroot, ht⟩ := mem_nodesAll.mp ht
        exact ih c hc (mem_nodesAll.mpr ⟨root, hroot, mem_nodes_trans root ht (child_mem_nodes hc)⟩) u hu⟩
      intro u hu
      rw [nodes, List.mem_cons] at hu
      obtain rfl | hu := hu
      · exact hnode e cs ht hcs
      · exact hcs.nodes u hu

theorem printedAll_eq_map (ts : List Tree) : printedAll ts = ts.map printed := by
  induction ts with
  | nil => rfl
  | cons t ts ih => rw [printedAll, ih, List.map_cons]

theorem printed_node (e : Element) (cs : List Tree) :
    printed (.node e cs) = .mk e (pieces e (cs.map printed)) (cs.map printed) := by
  rw [printed, printedAll_eq_map]

end
end Unscramble.Script
