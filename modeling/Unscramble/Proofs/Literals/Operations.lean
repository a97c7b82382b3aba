import Unscramble.Proofs.Literals.Evaluation
import Unscramble.Simplify.Literals

/-! The expressions that are folded, whatever else they carry: what one of them is folded to depends on the
values of its parts. -/
namespace Unscramble

/-! ### Lists of options -/

section
variable {α β γ : Type}

theorem mapM_congr {f g : α → Option β} {as : List α} (h : ∀ a ∈ as, f a = g a) :
    as.mapM f = as.mapM g := by
  induction as with
  | nil => rfl
  | cons a as ih =>
    obtain ⟨ha, has⟩ := List.forall_mem_cons.mp h
    rw [List.mapM_cons, List.mapM_cons, ha, ih has]

/-- Two steps on all items succeed if both succeed on each item. -/
theorem mapM_bind (f : α → Option β) (g : β → Option γ) (as : List α) :
    (as.mapM f).bind (List.mapM g) = as.mapM fun a => (f a).bind g := by
  induction as with
  | nil => rfl
  | cons a as ih =>
    simp only [List.mapM_cons, Option.bind_eq_bind, Option.pure_def] at ih ⊢
    rw [← ih]
    cases f a with
    | none => rfl
    | some b =>
      cases as.mapM f with
      | none => simp
      | some bs => simp [List.mapM_cons]

end

/-! ### Lists of texts -/

theorem isReadable_texts (parts : List (List Char)) : Scripts.IsReadable (texts parts) := by
  refine Scripts.isReadable_list fun v hv => ?_
  obtain ⟨part, -, rfl⟩ := List.mem_map.mp hv
  exact ⟨rfl, nofun⟩

theorem joinItems_texts (separator : String) (parts : List (List Char)) :
    joinItems separator (texts parts).asList = String.ofList (Text.join separator.toList parts) := by
  rw [joinItems, ← String.toList_inj, String.toList_intercalate, String.toList_ofList, texts, Value.asList,
    List.map_map, List.map_map, Text.join]
  refine congrArg _ ((List.map_congr_left fun part _ => ?_).trans (List.map_id' _))
  exact String.toList_ofList

theorem texts_characters (s : String) : texts (s.toList.map ([·])) = .list (characters s) := by
  rw [texts, List.map_map]
  rfl

/-! ### Forms of expressions -/

namespace Tree

open Simplify

/-- The number that a literal is or spells. -/
def number? (t : Tree) : Option Int64 := t.literal?.bind Value.toInt?

/-- The operation of an operator on two operands. -/
structure IsOperation (t : Tree) (operator : Operator) (left right : Tree) : Prop where
  kind : t.is .binaryExpression = true
  operator : t.operator? = some operator
  operands : ∃ rest, t.children = left :: right :: rest

/-- A property of a target; its name is in lower case. -/
structure IsProperty (t target : Tree) (name : String) : Prop where
  kind : t.is .memberExpression = true
  not_static : t.isStatic = false
  parts : ∃ member rest, t.children = target :: member :: rest ∧ member.memberName? = some name

/-- The call of a method of a target; its name is in lower case. -/
structure IsCall (t target : Tree) (name : String) (arguments : List Tree) : Prop where
  not_static : t.isStatic = false
  parts : ∃ list member, t.invocation? = some (list, target, member) ∧ member.memberName? = some name ∧
    (list.map children).getD [] = arguments

/-- The call of a static method; the names of the type and of the method are in lower case. -/
structure IsStaticCall (t : Tree) (type name : String) (arguments : List Tree) : Prop where
  is_static : t.isStatic = true
  parts : ∃ list target member, t.invocation? = some (list, target, member) ∧
    target.is .typeExpression = true ∧ (target.attr? "TypeName").map Text.lower = some type ∧
    member.memberName? = some name ∧ (list.map children).getD [] = arguments

/-- The item of a target at an index. -/
structure IsIndexing (t target index : Tree) : Prop where
  kind : t.is .indexExpression = true
  parts : ∃ rest, t.children = target :: index :: rest

/-- An array of items, none of which is an array. -/
structure IsList (t : Tree) (items : List Tree) : Prop where
  kind : t.is .arrayLiteral = true
  elements : ∃ elements, t.childOf? .elements = some elements ∧ elements.children = items
  flat : ∀ item ∈ items, item.is .arrayLiteral = false

section
variable {t target left right index : Tree} {operator : Operator} {name type : String}
  {arguments items : List Tree} {v : Value} {vs : List Value} {s : String}

theorem IsOperation.fold (h : IsOperation t operator left right) :
    binaryValue? t = left.literal?.bind fun a => right.literal?.bind fun b => fold? operator a b := by
  obtain ⟨rest, hchildren⟩ := h.operands
  simp only [binaryValue?, h.kind, if_true, hchildren, h.operator, Option.bind_some]

theorem IsProperty.fold (h : IsProperty t target name) :
    propertyValue? t = target.literal?.bind (property? · name) := by
  obtain ⟨member, rest, hchildren, hname⟩ := h.parts
  simp only [propertyValue?, h.kind, h.not_static, Bool.not_false, Bool.and_self, if_true, hchildren, hname,
    Option.bind_some]

theorem IsCall.fold (h : IsCall t target name arguments) (htarget : target.literal? = some v) :
    invocationValue? t = (arguments.mapM literal?).bind (method? v name) := by
  obtain ⟨list, member, hparts, hname, rfl⟩ := h.parts
  simp only [invocationValue?, hparts, hname, h.not_static, htarget, Option.bind_some, Bool.false_eq_true,
    if_false]

theorem IsStaticCall.fold (h : IsStaticCall t type name arguments) :
    invocationValue? t = (arguments.mapM literal?).bind (staticMethod? type name) := by
  obtain ⟨list, target, member, hparts, htarget, htype, hname, rfl⟩ := h.parts
  obtain ⟨spelled, hspelled, rfl⟩ := Option.map_eq_some_iff.mp htype
  simp only [invocationValue?, hparts, hname, h.is_static, htarget, hspelled, Option.bind_some, if_true]

theorem variablePath?_of_literal? (h : t.literal? = some v) : t.variablePath? = none := by
  refine if_neg fun hkind => ?_
  rw [is_iff] at hkind
  obtain h | h | h := Scripts.kind_of_literal? h <;> simp [hkind] at h

/-- The cast of an operand that is a literal. -/
theorem castOf?_of_literal? (hcast : t.conversion? = some (type, target)) (htarget : target.literal? = some v) :
    castOf? t = cast? type v := by
  simp only [castOf?, hcast, castTree?, variablePath?_of_literal? htarget, htarget, Option.bind_some,
    Option.bind_none]
  split
  next hspecial => cases hspecial
  next => rfl

/-- An index picks one of the characters of a string. -/
theorem IsIndexing.fold (h : IsIndexing t target index) (htarget : target.literal? = some (.text s)) :
    indexValue? t = index.literal?.bind (pick? (characters s)) := by
  obtain ⟨rest, hchildren⟩ := h.parts
  simp only [indexValue?, h.kind, if_true, hchildren, indexedItems?, variablePath?_of_literal? htarget, htarget,
    Option.bind_some]

theorem IsList.literal? (h : IsList t items) : t.literal? = (items.mapM Tree.literal?).map .list := by
  obtain ⟨elements, helements, rfl⟩ := h.elements
  have hscalar : ∀ item ∈ elements.children, item.scalar? = item.literal? := fun item hitem => by
    rw [Tree.literal?, h.flat item hitem, if_neg Bool.false_ne_true]
  rw [Tree.literal?, if_pos h.kind, items?, helements, Option.bind_some, mapM_congr hscalar]

end
end Tree
end Unscramble
