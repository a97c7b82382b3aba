import Unscramble.Proofs.Literals.Operations
import Unscramble.Proofs.Rewriting.Outermost
import Unscramble.Simplify.Rule

/-! Expressions that come to lists. Casts to characters, splits, sums of lists and indexes that are lists
are replaced by array literals, however many items there are, and what is done with such a literal is
done with a list. The cast of a string to an array is not one of them: it is replaced by the string. -/
namespace Unscramble

open Simplify Unscramble.Tree

/-! ### The rules -/

/-- What a rule puts in the place of an expression of literals. -/
def Rule.folded? : Rule → Tree → Option Tree
  | .foldBinary, s => (binaryValue? s).map Folded.toTree
  | .foldInvokeMember, s => (invocationValue? s <|> propertyValue? s).map (Value.toTree .singleQuoted)
  | .foldConversions, s => (castOf? s).map Casted.toTree
  | .foldIndex, s => (indexValue? s).map (Value.toTree .singleQuoted)
  | _, _ => none

/-- Expressions that are for lists of items, and the rules that fold them. -/
inductive ListProducing : Rule → Tree → Prop
  | characters {t operand} : t.conversion? = some ("char[]", operand) → ListProducing .foldConversions t
  | split {t operator left right} : IsOperation t operator left right →
      operator = .isplit ∨ operator = .csplit → ListProducing .foldBinary t
  | sum {t left right items} : IsOperation t .plus left right → left.literal? = some (.list items) →
      ListProducing .foldBinary t
  | splitCall {t target arguments} : IsCall t target "split" arguments → ListProducing .foldInvokeMember t
  | charactersCall {t target arguments} : IsCall t target "tochararray" arguments →
      ListProducing .foldInvokeMember t
  | items {t target index indexes} : IsIndexing t target index → index.literal? = some (.list indexes) →
      ListProducing .foldIndex t

section
variable {context : Context} {memory : Memory} {rule : Rule} {s t u : Tree} {items : List Value}

theorem single_map {α : Type} (value : Tree → Option α) (write : α → Tree) :
    single (fun s => (value s).map write) = fun s => (value s).map fun a => [write a] :=
  funext fun s => by rw [single, Option.map_map]; rfl

theorem ListProducing.apply (h : ListProducing rule s) (context : Context) (memory : Memory) (t : Tree) :
    (rule.apply context memory t).1 = t.replaceOutermost? (single rule.folded?) := by
  cases h with
  | characters => exact congrArg (t.replaceOutermost? ·) (single_map castOf? Casted.toTree).symm
  | split | sum => exact congrArg (t.replaceOutermost? ·) (single_map binaryValue? Folded.toTree).symm
  | splitCall | charactersCall => exact congrArg (t.replaceOutermost? ·) (single_map _ _).symm
  | items => exact congrArg (t.replaceOutermost? ·) (single_map indexValue? _).symm

/-! ### What they come to -/

/-- A literal for a list of scalars. -/
def IsListOf (items : List Value) (u : Tree) : Prop :=
  u = (Value.list items).toTree .singleQuoted ∧ ∀ item ∈ items, item.isScalar = true

theorem isScalar_characters {text : String} {item : Value} (h : item ∈ characters text) :
    item.isScalar = true := by
  obtain ⟨c, -, rfl⟩ := List.mem_map.mp h
  rfl

theorem isScalar_texts {parts : List (List Char)} {item : Value} (h : item ∈ (texts parts).asList) :
    item.isScalar = true := by
  obtain ⟨part, -, rfl⟩ := List.mem_map.mp h
  rfl

theorem castValue?_characters {v w : Value} (h : castValue? "char[]" v = some w) :
    ∃ text, w = .list (characters text) := by
  cases v with
  | text text => exact ⟨text, (Option.some.inj h).symm⟩
  | int n => cases h
  | list vs => cases h

theorem evaluate?_split {operator : Operator} (hsplit : operator = .isplit ∨ operator = .csplit)
    {left right v : Value} (h : evaluate? operator left right = some v) : ∃ parts, v = texts parts := by
  have hparts (minding : Bool) (text pattern : String)
      (h : (splitText? minding text pattern).map .list = some v) : ∃ parts, v = texts parts := by
    rw [splitText?] at h
    split at h
    next => exact ⟨_, (Option.some.inj h).symm⟩
    next => cases h
  cases left with
  | text text =>
    cases right with
    | text pattern =>
      obtain rfl | rfl := hsplit
      · exact hparts false text pattern h
      · exact hparts true text pattern h
    | int | list => obtain rfl | rfl := hsplit <;> cases h
  | int | list => obtain rfl | rfl := hsplit <;> cases h

theorem add?_list (items : List Value) (v : Value) : add? (.list items) v = some (.list (items ++ v.asList)) := by
  cases v <;> rfl

theorem method?_split {receiver v : Value} {arguments : List Value}
    (h : method? receiver "split" arguments = some v) : ∃ parts, v = texts parts := by
  cases receiver with
  | text text =>
    cases arguments with
    | nil => exact ⟨_, (Option.some.inj h).symm⟩
    | cons separator separators =>
      have h : splitAtAny? text (separator :: separators) = some v := h
      obtain ⟨stops, -, h⟩ := Option.bind_eq_some_iff.mp h
      dsimp only at h
      split at h
      next => cases h
      next => exact ⟨_, (Option.some.inj h).symm⟩
  | int | list => cases h

theorem method?_characters {receiver v : Value} {arguments : List Value}
    (h : method? receiver "tochararray" arguments = some v) : ∃ text, v = .list (characters text) := by
  cases receiver with
  | text text =>
    cases arguments with
    | nil => exact ⟨text, (Option.some.inj h).symm⟩
    | cons => cases h
  | int | list => cases h

theorem mem_of_itemAt? {index v : Value} (h : itemAt? items index = some v) : v ∈ items := by
  obtain ⟨i, -, h⟩ := Option.bind_eq_some_iff.mp h
  dsimp only at h
  exact List.mem_of_getElem? (Option.ite_none_left_eq_some.mp h).2

theorem mem_of_mapM_itemAt? {indexes picked : List Value} (h : indexes.mapM (itemAt? items) = some picked) :
    ∀ item ∈ picked, item ∈ items := by
  induction indexes generalizing picked with
  | nil => cases h; simp
  | cons index indexes ih =>
    rw [List.mapM_cons] at h
    obtain ⟨v, hv, h⟩ := Option.bind_eq_some_iff.mp h
    obtain ⟨vs, hvs, h⟩ := Option.bind_eq_some_iff.mp h
    cases h
    exact List.forall_mem_cons.mpr ⟨mem_of_itemAt? hv, ih hvs⟩

theorem isScalar_indexedItems? (h : indexedItems? t = some items) : ∀ item ∈ items, item.isScalar = true := by
  obtain ⟨v, hv, h⟩ := Option.bind_eq_some_iff.mp h
  cases v with
  | text text =>
    cases h
    exact fun _ => isScalar_characters
  | int => cases h
  | list vs =>
    cases h
    split at hv
    next path hpath =>
      obtain ⟨_, -, heq⟩ := Option.map_eq_some_iff.mp hv
      cases heq
    next => exact isFlat_of_literal? hv

/-! ### Forms of expressions -/

namespace Tree

theorem IsCall.invocationValue?_eq_some {target : Tree} {name : String} {arguments : List Tree} {v : Value}
    (h : IsCall t target name arguments) (hv : invocationValue? t = some v) :
    ∃ receiver vs, target.literal? = some receiver ∧ method? receiver name vs = some v := by
  cases hreceiver : target.literal? with
  | none =>
    obtain ⟨list, member, hparts, hname, -⟩ := h.parts
    simp [invocationValue?, hparts, hname, h.not_static, hreceiver] at hv
  | some receiver =>
    rw [h.fold hreceiver] at hv
    obtain ⟨vs, -, hv⟩ := Option.bind_eq_some_iff.mp hv
    exact ⟨receiver, vs, rfl, hv⟩

theorem IsCall.propertyValue?_eq_none {target : Tree} {name : String} {arguments : List Tree}
    (h : IsCall t target name arguments) : propertyValue? t = none := by
  obtain ⟨list, member, hparts, -⟩ := h.parts
  have hkind : t.is .invokeMember = true := by
    by_contra hkind
    rw [invocation?, if_neg hkind] at hparts
    cases hparts
  have hother : t.is .memberExpression = false := by
    rw [is, is_iff.mp hkind]
    rfl
  simp [propertyValue?, hother]

theorem IsCall.folded? {target : Tree} {name : String} {arguments : List Tree}
    (h : IsCall t target name arguments) (hu : Rule.foldInvokeMember.folded? t = some u) :
    ∃ receiver vs v, method? receiver name vs = some v ∧ u = v.toTree .singleQuoted := by
  obtain ⟨v, hv, rfl⟩ := Option.map_eq_some_iff.mp hu
  rw [h.propertyValue?_eq_none, Option.orElse_eq_orElse, Option.orElse_eq_or, Option.or_none] at hv
  obtain ⟨receiver, vs, -, hmethod⟩ := h.invocationValue?_eq_some hv
  exact ⟨receiver, vs, v, hmethod, rfl⟩

theorem IsOperation.folded? {operator : Operator} {left right : Tree} (h : IsOperation t operator left right)
    (hcomparison : operator.isComparison = false) (hu : Rule.foldBinary.folded? t = some u) :
    ∃ a b v quoting, left.literal? = some a ∧ right.literal? = some b ∧ evaluate? operator a b = some v ∧
      u = v.toTree quoting := by
  obtain ⟨folded, hfolded, rfl⟩ := Option.map_eq_some_iff.mp hu
  rw [h.fold] at hfolded
  obtain ⟨a, ha, hfolded⟩ := Option.bind_eq_some_iff.mp hfolded
  obtain ⟨b, hb, hfolded⟩ := Option.bind_eq_some_iff.mp hfolded
  rw [fold?, hcomparison, if_neg Bool.false_ne_true] at hfolded
  obtain ⟨v, hv, rfl⟩ := Option.map_eq_some_iff.mp hfolded
  exact ⟨a, b, v, _, ha, hb, hv, rfl⟩

end Tree

/-- Whatever it is folded to is a literal for a list. -/
theorem ListProducing.isListOf (h : ListProducing rule s) (hu : rule.folded? s = some u) :
    ∃ items, IsListOf items u := by
  cases h with
  | characters hcast =>
    obtain ⟨casted, hcasted, rfl⟩ := Option.map_eq_some_iff.mp hu
    rw [castOf?, hcast, Option.bind_some] at hcasted
    obtain ⟨v, -, hcasted⟩ := Option.bind_eq_some_iff.mp hcasted
    obtain ⟨w, hw, rfl⟩ := Option.map_eq_some_iff.mp hcasted
    obtain ⟨text, rfl⟩ := castValue?_characters hw
    exact ⟨_, rfl, fun _ => isScalar_characters⟩
  | @split _ operator _ _ hop hsplit =>
    have hcomparison : operator.isComparison = false := by obtain rfl | rfl := hsplit <;> rfl
    obtain ⟨a, b, v, quoting, -, -, hv, rfl⟩ := hop.folded? hcomparison hu
    obtain ⟨parts, rfl⟩ := evaluate?_split hsplit hv
    exact ⟨_, rfl, fun _ => isScalar_texts⟩
  | sum hop hleft =>
    obtain ⟨a, b, v, quoting, ha, hb, hv, rfl⟩ := hop.folded? rfl hu
    rw [hleft] at ha
    cases ha
    have hv := hv.symm.trans (add?_list _ b)
    cases hv
    refine ⟨_, rfl, fun item hitem => ?_⟩
    exact (List.mem_append.mp hitem).elim (isFlat_of_literal? hleft item) (isFlat_of_literal? hb item)
  | splitCall hcall =>
    obtain ⟨receiver, vs, v, hv, rfl⟩ := hcall.folded? hu
    obtain ⟨parts, rfl⟩ := method?_split hv
    exact ⟨_, rfl, fun _ => isScalar_texts⟩
  | charactersCall hcall =>
    obtain ⟨receiver, vs, v, hv, rfl⟩ := hcall.folded? hu
    obtain ⟨text, rfl⟩ := method?_characters hv
    exact ⟨_, rfl, fun _ => isScalar_characters⟩
  | items hindexing hindex =>
    obtain ⟨v, hv, rfl⟩ := Option.map_eq_some_iff.mp hu
    obtain ⟨rest, hchildren⟩ := hindexing.parts
    rw [indexValue?, if_pos hindexing.kind, hchildren] at hv
    obtain ⟨items, hitems, hv⟩ := Option.bind_eq_some_iff.mp hv
    rw [hindex, Option.bind_some] at hv
    obtain ⟨picked, hpicked, rfl⟩ := Option.map_eq_some_iff.mp hv
    exact ⟨picked, rfl, fun item hitem =>
      isScalar_indexedItems? hitems item (mem_of_mapM_itemAt? hpicked item hitem)⟩

/-! ### What is done with the literal -/

/-- Whatever looks at the node later finds a list of these items. -/
structure SeenAsList (items : List Value) (u : Tree) : Prop where
  literal : u.literal? = some (.list items)
  sum : ∀ t right v, IsOperation t .plus u right → right.literal? = some v →
    binaryValue? t = some (.value (.list (items ++ v.asList)) .singleQuoted)
  join : ∀ t right separator, IsOperation t .join u right → right.literal? = some (.text separator) →
    binaryValue? t = some (.value (.text (joinItems separator items)) .singleQuoted)
  index : ∀ t index, IsIndexing t u index → indexValue? t = index.literal?.bind (pick? items)
  count : ∀ t name, name = "count" ∨ name = "length" → IsProperty t u name →
    propertyValue? t = (Text.word? items.length).map .int

theorem seenAsList_of_literal? (h : u.literal? = some (.list items)) : SeenAsList items u := by
  constructor
  case literal => exact h
  case sum =>
    intro t right v hop hv
    rw [hop.fold, h, hv, Option.bind_some, Option.bind_some]
    change (add? (.list items) v).map _ = _
    rw [add?_list]
    rfl
  case join =>
    intro t right separator hop hseparator
    rw [hop.fold, h, hseparator]
    rfl
  case index =>
    intro t index hindexing
    obtain ⟨rest, hchildren⟩ := hindexing.parts
    rw [indexValue?, if_pos hindexing.kind, hchildren]
    simp only [indexedItems?, variablePath?_of_literal? h, h, Option.bind_some]
  case count =>
    intro t name hname hproperty
    rw [hproperty.fold, h]
    obtain rfl | rfl := hname <;> rfl

/-- Unwrapping takes an array of one item apart only where it is written to the output. -/
theorem unwrapSingleArray_output {t' : Tree} (h : unwrapSingleArray t = some t') :
    ∃ p ∈ t.places, p.tree.is .arrayLiteral = true ∧ isOutput p = true ∧
      ∃ inner, p.replace? [inner] = some t' := by
  obtain ⟨⟨p, new⟩, hfound, hreplace⟩ := Option.bind_eq_some_iff.mp h
  obtain ⟨q, hq, hmap⟩ := List.exists_of_findSome?_eq_some hfound
  obtain ⟨nodes, hnodes, heq⟩ := Option.map_eq_some_iff.mp hmap
  cases heq
  obtain ⟨hplace, hinner⟩ := Option.ite_none_right_eq_some.mp hnodes
  obtain ⟨inner, -, rfl⟩ := Option.map_eq_some_iff.mp hinner
  rw [Bool.and_eq_true] at hplace
  exact ⟨_, hq, hplace.1, hplace.2, inner, hreplace⟩

end

/-- A call of a rule puts the literal of a list in the place of an expression for one that it folds,
and what is done with the literal afterwards is done with that list, unless it holds the one number
that is not read back. -/
theorem Rule.lists_stay_lists {rule : Rule} {s t : Tree} {path : List Nat} (context : Context) (memory : Memory)
    (hlist : ListProducing rule s) (hfolds : (rule.folded? s).isSome = true)
    (hplace : Exposed rule.folded? path t s) :
    ∃ t' items u, (rule.apply context memory t).1 = some t' ∧ t'.at? path = some u ∧ IsListOf items u ∧
      (.int Int64.minValue ∉ items → SeenAsList items u) ∧
      ∀ unwrapped, Simplify.unwrapSingleArray t' = some unwrapped → ∃ p ∈ t'.places,
        p.tree.is .arrayLiteral = true ∧ isOutput p = true ∧ ∃ inner, p.replace? [inner] = some unwrapped := by
  obtain ⟨u, hu⟩ := Option.isSome_iff_exists.mp hfolds
  obtain ⟨items, hitems⟩ := hlist.isListOf hu
  obtain ⟨t', ht', hpath⟩ := hplace.replaced hu
  refine ⟨t', items, u, (hlist.apply context memory t).trans ht', hpath, hitems, fun hmin => ?_,
    fun _ => unwrapSingleArray_output⟩
  obtain ⟨rfl, hscalar⟩ := hitems
  have hreadable : Scripts.IsReadable (.list items) :=
    Scripts.isReadable_list fun item hitem => ⟨hscalar item hitem, fun heq => hmin (heq ▸ hitem)⟩
  exact seenAsList_of_literal? (hreadable .singleQuoted)

/-- A text without the separator is split into one part, which stays a list. -/
theorem Rule.lists_stay_lists_split :
    let split := branch .binaryExpression [("Operator", "Isplit")]
      [stringTree .singleQuoted "a", stringTree .singleQuoted ","]
    let t := branch .scriptBlock [] [branch .namedBlock [("BlockKind", "End"), ("Unnamed", "True")]
      [branch .statements [] [branch .assignment [("Operator", "Equals")]
        [leaf .variableRef [("VariablePath", "l")] none, branch .commandExpression [] [split]]]]]
    (ListProducing .foldBinary split ∧ (Rule.foldBinary.folded? split).isSome = true ∧
      Exposed Rule.foldBinary.folded? [0, 0, 0, 1, 0] t split) ∧
      (Rule.foldBinary.apply {} {} t).1.bind (·.at? [0, 0, 0, 1, 0]) =
        some ((Value.list [.text "a"]).toTree .singleQuoted) ∧
      ∃ t' items u, (Rule.foldBinary.apply {} {} t).1 = some t' ∧ t'.at? [0, 0, 0, 1, 0] = some u ∧
        IsListOf items u ∧ (.int Int64.minValue ∉ items → SeenAsList items u) ∧
        ∀ unwrapped, Simplify.unwrapSingleArray t' = some unwrapped → ∃ p ∈ t'.places,
          p.tree.is .arrayLiteral = true ∧ isOutput p = true ∧ ∃ inner, p.replace? [inner] = some unwrapped := by
  intro split t
  have hlist : ListProducing .foldBinary split := .split ⟨rfl, by decide +kernel, [], rfl⟩ (.inl rfl)
  have hfolds : (Rule.foldBinary.folded? split).isSome = true := by decide +kernel
  have hplace : Exposed Rule.foldBinary.folded? [0, 0, 0, 1, 0] t split :=
    .through rfl rfl (.through rfl rfl (.through rfl rfl (.through rfl rfl (.child rfl))))
  exact ⟨⟨hlist, hfolds, hplace⟩, by decide +kernel, Rule.lists_stay_lists {} {} hlist hfolds hplace⟩

/-- The cast of a string to an array is replaced by the string, and what is added to it is appended to
its text. -/
theorem Rule.array_cast_folds_to_text :
    let cast := branch .convert [] [leaf .typeConstraint [("TypeName", "array")] none, stringTree .singleQuoted "ab"]
    let sum := branch .binaryExpression [("Operator", "Plus")] [cast, stringTree .singleQuoted "c"]
    let t := branch .scriptBlock [] [branch .namedBlock [("BlockKind", "End"), ("Unnamed", "True")]
      [branch .statements [] [branch .assignment [("Operator", "Equals")]
        [leaf .variableRef [("VariablePath", "l")] none, branch .commandExpression [] [sum]]]]]
    cast.conversion? = some ("array", stringTree .singleQuoted "ab") ∧
      (Rule.foldConversions.folded? cast).map Tree.kind = some .stringConstant ∧
      (((Rule.foldConversions.apply {} {} t).1.bind fun t => (Rule.foldBinary.apply {} {} t).1).bind
        (·.at? [0, 0, 0, 1, 0])) = some (stringTree .doubleQuoted "abc") := by
  decide +kernel

end Unscramble
