import Unscramble.Proofs.ChangeFlag
import Unscramble.Proofs.Spelling.SameNames

/-! Renaming long names as a function on names. One call of the rule gives every element the name that
belongs to its old one and leaves all else as it is, so that the names of the new tree are the new names
of the old tree, one by one. -/
namespace Unscramble

open Text Vocabulary Simplify Unscramble.Tree

/-! ### Trees with other elements -/

namespace Tree

mutual

/-- The tree with every element changed. -/
def mapElements (f : Element → Element) : Tree → Tree
  | .node e cs => .node (f e) (mapElementsAll f cs)

def mapElementsAll (f : Element → Element) : List Tree → List Tree
  | [] => []
  | t :: ts => t.mapElements f :: mapElementsAll f ts

end

section
variable {f : Element → Element}

theorem mapElementsAll_eq_map (ts : List Tree) : mapElementsAll f ts = ts.map (mapElements f) := by
  induction ts with
  | nil => rfl
  | cons t ts ih => rw [mapElementsAll, ih, List.map_cons]

theorem mapElements_node (e : Element) (cs : List Tree) :
    mapElements f (.node e cs) = .node (f e) (cs.map (mapElements f)) := by
  rw [mapElements, mapElementsAll_eq_map]

@[simp] theorem element_mapElements (t : Tree) : (t.mapElements f).element = f t.element := by
  cases t; rfl

@[simp] theorem children_mapElements (t : Tree) :
    (t.mapElements f).children = t.children.map (mapElements f) := by
  obtain ⟨e, cs⟩ := t
  rw [mapElements_node, children_node, children_node]

theorem nodes_mapElements (t : Tree) : (t.mapElements f).nodes = t.nodes.map (mapElements f) := by
  induction t using children_induction with
  | h e cs ih =>
    rw [nodes_eq, nodes_eq (.node e cs), List.map_cons, children_mapElements, children_node,
      nodesAll_eq_flatMap, nodesAll_eq_flatMap, List.flatMap_map, List.map_flatMap]
    exact congrArg _ (List.flatMap_congr ih)

/-- A respelling that looks at nothing but the element of a node. -/
theorem respelled_eq_mapElements (g : Element → Option Element) (t : Tree) : ∀ above,
    respelled (fun _ s => g s.element) above t = t.mapElements fun e => (g e).getD e := by
  induction t using children_induction with
  | h e cs ih =>
    intro above
    rw [respelled_node, mapElements_node, element_node]
    have hall : (cs.mapIdx fun i c => respelled (fun _ s => g s.element) (some (.node e cs, i)) c).map id =
        cs.map (mapElements fun e => (g e).getD e) := map_mapIdx fun i c hc => ih c hc _
    rw [← hall, List.map_id]

end
end Tree

/-! ### Names of elements -/

namespace Simplify

/-- The element with another name behind its sigil. Nodes without a name stay as they are. -/
def renameElement (new : String → String) (e : Element) : Element :=
  ((nameKey? e.kind).bind fun key => (e.attr? key).map fun name =>
    e.withAttr key ((splitSigil name).1 ++ new (splitSigil name).2)).getD e

/-- The name that a memory has for a name. Short names stay. -/
def newName (threshold : Nat) (memory : Memory) (name : String) : String :=
  if isLong threshold name then (replacement? memory name).getD name else name

section
variable {new : String → String} {e : Element} {key name : String}

theorem renameElement_of_key (hkey : nameKey? e.kind = some key) (hname : e.attr? key = some name) :
    renameElement new e = e.withAttr key ((splitSigil name).1 ++ new (splitSigil name).2) := by
  rw [renameElement, hkey, Option.bind_some, hname, Option.map_some, Option.getD_some]

theorem renameElement_of_unnamed (h : nameOf? e = none) : renameElement new e = e := by
  have hnone : ((nameKey? e.kind).bind fun key => (e.attr? key).map fun name =>
      e.withAttr key ((splitSigil name).1 ++ new (splitSigil name).2)) = none := by
    rw [Option.bind_eq_none_iff]
    intro key hkey
    rw [nameOf?, hkey, Option.bind_some] at h
    rw [h, Option.map_none]
  rw [renameElement, hnone, Option.getD_none]

/-- An element that has a name, and where the name stands. -/
theorem key_of_nameOf? (h : nameOf? e = some name) :
    ∃ key, nameKey? e.kind = some key ∧ e.attr? key = some name :=
  Option.bind_eq_some_iff.mp h

/-- Nothing but the attribute that holds the name is written. -/
theorem renameElement_cases (new : String → String) (e : Element) : renameElement new e = e ∨
    ∃ key value, nameKey? e.kind = some key ∧ renameElement new e = e.withAttr key value := by
  cases h : nameOf? e with
  | none => exact .inl (renameElement_of_unnamed h)
  | some name =>
    obtain ⟨key, hkey, hname⟩ := key_of_nameOf? h
    exact .inr ⟨key, _, hkey, renameElement_of_key hkey hname⟩

@[simp] theorem kind_renameElement (new : String → String) (e : Element) :
    (renameElement new e).kind = e.kind := by
  obtain h | ⟨key, value, -, h⟩ := renameElement_cases new e
  · rw [h]
  · rw [h, Element.kind_withAttr]

@[simp] theorem text_renameElement (new : String → String) (e : Element) :
    (renameElement new e).text = e.text := by
  obtain h | ⟨key, value, -, h⟩ := renameElement_cases new e
  · rw [h]
  · rw [h]
    rfl

theorem attr?_renameElement (h : nameKey? e.kind ≠ some key) :
    (renameElement new e).attr? key = e.attr? key := by
  obtain hsame | ⟨other, value, hkey, hnew⟩ := renameElement_cases new e
  · rw [hsame]
  · have hne : key ≠ other := fun heq => h (heq ▸ hkey)
    rw [hnew, Element.attr?_withAttr, if_neg hne]

/-- Names that begin with no dollar sign get names that begin with none. -/
def KeepsSigils (new : String → String) : Prop :=
  ∀ name, name.toList.head? ≠ some '$' → (new name).toList.head? ≠ some '$'

theorem splitSigil_of_plain (h : name.toList.head? ≠ some '$') : splitSigil name = ("", name) := by
  unfold splitSigil
  split
  next rest hrest => simp [hrest] at h
  next => rfl

theorem splitSigil_cases (name : String) :
    (splitSigil name).1 = "$" ∨ splitSigil name = ("", name) ∧ name.toList.head? ≠ some '$' := by
  by_cases h : name.toList.head? = some '$'
  · obtain ⟨rest, hrest⟩ := List.head?_eq_some_iff.mp h
    rw [splitSigil, hrest]
    exact .inl rfl
  · exact .inr ⟨splitSigil_of_plain h, h⟩

/-- A new name is put behind the sigil of the old one, and is taken from it again. -/
theorem splitSigil_append (h : KeepsSigils new) (name : String) :
    splitSigil ((splitSigil name).1 ++ new (splitSigil name).2) =
      ((splitSigil name).1, new (splitSigil name).2) := by
  obtain hsigil | ⟨hsplit, hplain⟩ := splitSigil_cases name
  · rw [hsigil, splitSigil]
    simp
  · rw [hsplit, String.empty_append]
    exact splitSigil_of_plain (h name hplain)

theorem nameOf?_renameElement (new : String → String) (e : Element) :
    nameOf? (renameElement new e) =
      (nameOf? e).map fun name => (splitSigil name).1 ++ new (splitSigil name).2 := by
  cases h : nameOf? e with
  | none => rw [renameElement_of_unnamed h, h, Option.map_none]
  | some name =>
    obtain ⟨key, hkey, hname⟩ := key_of_nameOf? h
    rw [nameOf?, kind_renameElement, hkey, Option.bind_some, renameElement_of_key hkey hname,
      Element.attr?_withAttr, if_pos rfl, Option.map_some]

theorem bareName?_renameElement (h : KeepsSigils new) (e : Element) :
    bareName? (renameElement new e) = (bareName? e).map new := by
  rw [bareName?, bareName?, nameOf?_renameElement, Option.map_map, Option.map_map]
  refine congrArg (fun f => (nameOf? e).map f) (funext fun name => ?_)
  rw [Function.comp_apply, Function.comp_apply, splitSigil_append h]

theorem namesIn_mapElements (h : KeepsSigils new) (t : Tree) :
    namesIn (t.mapElements (renameElement new)) = (namesIn t).map new := by
  have hnames (t : Tree) : namesIn t = t.nodes.filterMap fun n => bareName? n.element := rfl
  rw [hnames, hnames, nodes_mapElements, List.filterMap_map, List.map_filterMap]
  refine List.filterMap_congr fun n _ => ?_
  rw [Function.comp_apply, element_mapElements, bareName?_renameElement h]

end

/-! ### The rule -/

section
variable {threshold : Nat} {memory : Memory} {t : Tree}

theorem renamedElement?_getD (threshold : Nat) (memory : Memory) (e : Element) :
    (renamedElement? threshold memory e).getD e = renameElement (newName threshold memory) e := by
  cases h : nameOf? e with
  | none =>
    rw [renameElement_of_unnamed h, renamedElement?_eq_none.mpr (by rw [longWeight, h]; rfl), Option.getD_none]
  | some name =>
    obtain ⟨key, hkey, hname⟩ := key_of_nameOf? h
    rw [renameElement_of_key hkey hname, renamedElement?, hkey, Option.bind_some, hname, Option.bind_some,
      newName]
    cases hlong : isLong threshold (splitSigil name).2 with
    | true => simp [hlong]
    | false =>
      have hsplit : (splitSigil name).1 ++ (splitSigil name).2 = name := by
        rw [← String.toList_inj, String.toList_append, splitSigil_toList]
      simp [hlong, hsplit, Element.withAttr_self hname]

/-- What one call makes of a tree, whatever the memory. -/
theorem renameLongNames_getD (threshold : Nat) (memory : Memory) (t : Tree) :
    (renameLongNames threshold memory t).1.getD t =
      t.mapElements (renameElement (newName threshold (renameLongNames threshold memory t).2)) := by
  have h := respelled_eq_mapElements
    (renamedElement? threshold (renameLongNames threshold memory t).2) t none
  simp only [renamedElement?_getD] at h
  exact h

theorem newName_of_short {name : String} (h : isLong threshold name = false) :
    newName threshold memory name = name := by
  rw [newName, h, if_neg Bool.false_ne_true]

/-- Every long name of a tree has a new name, with a number that was given away. -/
theorem newName_of_long (hgenerated : Generated memory) {name : String} (hname : name ∈ namesIn t)
    (hlong : isLong threshold name = true) :
    ∃ n < (renameLongNames threshold memory t).2.next,
      replacement? (renameLongNames threshold memory t).2 name = some (generatedName n) ∧
        newName threshold (renameLongNames threshold memory t).2 name = generatedName n := by
  have hsome : (replacement? (renameLongNames threshold memory t).2 name).isSome = true :=
    foldl_addReplacement_isSome _ _ (.inr (List.mem_filter.mpr ⟨hname, hlong⟩))
  have hafter : Generated (renameLongNames threshold memory t).2 := hgenerated.rename
  obtain ⟨n, hn, hnew⟩ := hafter.replacement hsome
  exact ⟨n, hn, hnew, by rw [newName, hlong, if_pos rfl, hnew, Option.getD_some]⟩

theorem head?_generatedName (n : Nat) : (generatedName n).toList.head? ≠ some '$' := by
  have hstart : (generatedName n).toList.head? = some 'd' := by
    rw [generatedName, String.toList_append]
    rfl
  rw [hstart]
  decide

theorem Generated.keepsSigils (h : Generated memory) (threshold : Nat) :
    KeepsSigils (newName threshold memory) := by
  intro name hname
  unfold newName
  split
  next =>
    cases hnew : replacement? memory name with
    | none => exact hname
    | some new =>
      obtain ⟨n, -, hn⟩ := h.replacement (Option.isSome_iff_exists.mpr ⟨new, hnew⟩)
      rw [hn] at hnew
      cases hnew
      exact head?_generatedName n
  next => exact hname

end
end Simplify
end Unscramble
