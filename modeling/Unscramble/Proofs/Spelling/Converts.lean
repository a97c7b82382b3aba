import Mathlib.Algebra.Ring.Nat
import Unscramble.Proofs.Rewriting.Respelled
import Unscramble.Proofs.Rewriting.Spells
import Unscramble.Proofs.Spelling.Recasing

/-! Conversions whose type constraint does not name the type that they resolve to. One application of
the rule for them leaves none, and the other rules about spelling do not make new ones. -/
namespace Unscramble

open Text Vocabulary Simplify Unscramble.Tree

theorem startsBy_congr {p s t : List Char} (h : SameText s t) :
    startsBy (fun a b => a.toLower == b.toLower) p s =
      startsBy (fun a b => a.toLower == b.toLower) p t := by
  induction p generalizing s t with
  | nil => simp [startsBy]
  | cons a p ih =>
    cases s with
    | nil => rw [sameText_nil_left.mp h]
    | cons b s =>
      obtain ⟨c, t, rfl, hbc, h⟩ := sameText_cons_right.mp h.symm
      rw [startsBy, startsBy, ih h.symm, hbc]

theorem dropSystem_congr {a b : String} (h : sameIgnoringCase a b = true) :
    sameIgnoringCase (dropSystem a) (dropSystem b) = true := by
  have hsame := sameIgnoringCase_iff.mp h
  simp only [dropSystem, startsBy_congr hsame]
  split
  · refine sameIgnoringCase_iff.mpr ?_
    simp only [String.toList_ofList, SameText, List.map_drop]
    rw [show a.toList.map Char.toLower = b.toList.map Char.toLower from hsame]
  · exact h

theorem sameIgnoringCase_congr_left {a b : String} (h : sameIgnoringCase a b = true) (c : String) :
    sameIgnoringCase a c = sameIgnoringCase b c := by
  have h : lowerAscii a = lowerAscii b := by simpa [sameIgnoringCase] using h
  rw [sameIgnoringCase, sameIgnoringCase, h]

/-- Elements that a conversion cannot tell apart. -/
structure Akin (e e' : Element) : Prop where
  kind : e'.kind = e.kind
  static : e'.attr? "StaticType" = e.attr? "StaticType"
  type : sameIgnoringCase (e'.attr "TypeName") (e.attr "TypeName") = true

theorem Akin.rfl {e : Element} : Akin e e := ⟨Eq.refl _, Eq.refl _, by simp [sameIgnoringCase]⟩

/-- Two lists of nodes of the same kinds. -/
abbrev SameKinds (cs ds : List Tree) : Prop := ds.map Tree.kind = cs.map Tree.kind

theorem SameKinds.findIdx? {cs ds : List Tree} {k : Kind} (h : SameKinds cs ds) :
    ds.findIdx? (·.is k) = cs.findIdx? (·.is k) := by
  have hkinds (ts : List Tree) : (ts.map Tree.kind).findIdx? (· == k) = ts.findIdx? (·.is k) := by
    rw [List.findIdx?_map]; rfl
  rw [← hkinds, ← hkinds, h]

/-- The type that a conversion resolves to, seen from a constraint with the same name for it. -/
theorem resolvedType?_congr (above : Tree) {above' c c' : Tree} (i : Nat)
    (hkind : above'.kind = above.kind)
    (hstatic : above'.attr? "StaticType" = above.attr? "StaticType")
    (hkinds : SameKinds above.children above'.children) (hc : Akin c.element c'.element) :
    resolvedType? above' i c' = resolvedType? above i c := by
  have his : above'.is .convert = above.is .convert := by rw [Tree.is, Tree.is, hkind]
  have htype := fun s => sameIgnoringCase_congr_left (dropSystem_congr hc.type) s
  unfold resolvedType?
  rw [his, hkinds.findIdx?, hstatic]
  simp only [htype]

/-- A conversion whose type constraint names another type than the conversion resolves to. -/
def isUnresolved (t : Tree) : Bool :=
  (List.range t.children.length).any fun i => ((t.child? i).bind (resolvedType? t i)).isSome

theorem isUnresolved_iff {t : Tree} :
    isUnresolved t = true ↔ ∃ i c, t.children[i]? = some c ∧ (resolvedType? t i c).isSome = true := by
  simp only [isUnresolved, List.any_eq_true, List.mem_range, child?]
  constructor
  · rintro ⟨i, hi, h⟩
    rw [List.getElem?_eq_getElem hi, Option.bind_some] at h
    exact ⟨i, _, List.getElem?_eq_getElem hi, h⟩
  · rintro ⟨i, c, hc, h⟩
    exact ⟨i, (List.getElem?_eq_some_iff.mp hc).1, by rw [hc, Option.bind_some, h]⟩

/-- The number of unresolved conversions in a tree. -/
def unresolved (t : Tree) : Nat := t.nodes.countP isUnresolved

theorem unresolved_node (e : Element) (cs : List Tree) :
    unresolved (.node e cs) = (cs.map unresolved).sum + (isUnresolved (.node e cs)).toNat := by
  have hall : ∀ ts, (nodesAll ts).countP isUnresolved = (ts.map unresolved).sum := by
    intro ts
    induction ts with
    | nil => rfl
    | cons t ts ih => rw [nodesAll, List.countP_append, ih, List.map_cons, List.sum_cons, unresolved]
  rw [unresolved, nodes, List.countP_cons, hall]
  cases isUnresolved (.node e cs) <;> rfl

section
variable {f : Respelling}

/-- A respelling that conversions do not notice. -/
def Unnoticed (f : Respelling) : Prop := ∀ above t e', f above t = some e' → Akin t.element e'

theorem Unnoticed.element (hf : Unnoticed f) (above : Option (Tree × Nat)) (t : Tree) :
    Akin t.element (respelled f above t).element := by
  obtain ⟨e, cs⟩ := t
  rw [respelled_node, element_node, element_node]
  cases h : f above (.node e cs) with
  | none => exact .rfl
  | some e' => exact hf _ _ _ h

theorem sameKinds_mapIdx {g : Nat → Tree → Tree} (cs : List Tree)
    (hg : ∀ i c, (g i c).kind = c.kind) : SameKinds cs (cs.mapIdx g) :=
  map_mapIdx fun i c _ => hg i c

theorem Unnoticed.isUnresolved (hf : Unnoticed f) (above : Option (Tree × Nat)) (t : Tree) :
    isUnresolved (respelled f above t) = isUnresolved t := by
  have helement := hf.element above t
  obtain ⟨e, cs⟩ := t
  have hchildren : ∀ i c, Akin c.element (respelled f (some (.node e cs, i)) c).element :=
    fun i c => hf.element _ c
  have hkinds := sameKinds_mapIdx cs fun i c => (hchildren i c).kind
  rw [respelled_node] at helement ⊢
  unfold Unscramble.isUnresolved
  simp only [child?, children_node, List.length_mapIdx, List.getElem?_mapIdx, Option.bind_map,
    Function.comp_def]
  congr 2
  funext i
  congr 2
  funext c
  exact resolvedType?_congr _ i helement.kind helement.static hkinds (hchildren i c)

theorem Unnoticed.unresolved (hf : Unnoticed f) (t : Tree) :
    ∀ above, unresolved (respelled f above t) = unresolved t := by
  induction t using children_induction with
  | h e cs ih =>
    intro above
    have hnode := hf.isUnresolved above (.node e cs)
    rw [respelled_node] at hnode ⊢
    rw [unresolved_node, unresolved_node, hnode]
    rw [map_mapIdx fun i c hc => ih c hc (some (.node e cs, i))]

end

namespace Akin

theorem text (e : Element) (text : Option String) : Akin e { e with text } :=
  ⟨Eq.refl _, Eq.refl _, by simp [sameIgnoringCase, Element.attr, Element.attr?]⟩

theorem withAttr (e : Element) {key : String} (value : String) (hstatic : key ≠ "StaticType")
    (htype : key ≠ "TypeName") : Akin e (e.withAttr key value) := by
  refine ⟨Eq.refl _, ?_, ?_⟩
  · rw [Element.attr?_withAttr, if_neg hstatic.symm]
  · simp [Element.attr, Element.attr?_withAttr, htype.symm, sameIgnoringCase]

theorem trans {e e' e'' : Element} (h : Akin e e') (k : Akin e' e'') : Akin e e'' :=
  ⟨k.kind.trans h.kind, k.static.trans h.static,
    (sameIgnoringCase_congr_left k.type _).trans h.type⟩

end Akin

theorem nameKey?_ne {kind : Kind} {key : String} (h : nameKey? kind = some key) :
    key ≠ "StaticType" ∧ key ≠ "TypeName" := by
  unfold nameKey? at h
  split at h <;> cases h <;> decide

/-- Conversions do not notice what the rules about spelling do. The usual spelling of a type names
the same type. -/
theorem Spells.akin {threshold : Nat} {r : Rule} {t : Tree} {e' : Element}
    (h : Spells threshold r t e') (hr : r ≠ .typeConstraintFromConvert) : Akin t.element e' := by
  cases h with
  | drive | case | expand => exact .text _ _
  | path | special | command => exact .withAttr _ _ (by decide) (by decide)
  | member => exact (Akin.withAttr _ _ (by decide) (by decide)).trans (.text _ _)
  | constraint => exact absurd rfl hr
  | @type _ name _ hname _ =>
    have hname : t.element.attr? "TypeName" = some name := hname
    refine ⟨Eq.refl _, by simp, ?_⟩
    simpa [Element.attr, hname] using canonicalCase_same name
  | name hkey => exact .withAttr _ _ (nameKey?_ne hkey).1 (nameKey?_ne hkey).2

theorem SpellsBy.unnoticed {threshold : Nat} {r : Rule} (hf : SpellsBy threshold r f)
    (hr : r ≠ .typeConstraintFromConvert) : Unnoticed f := fun above t e' h =>
  (hf above t e' h).akin hr

/-! ### The rule itself -/

theorem typeConstraintOf_element (above : Tree) (i : Nat) (c : Tree) :
    (respelled typeConstraintOf (some (above, i)) c).element =
      ((resolvedType? above i c).map (c.element.withAttr "TypeName")).getD c.element := by
  obtain ⟨e, cs⟩ := c
  rw [respelled_node]
  rfl

/-- A constraint that was given the type it resolves to, or that had nothing to resolve. -/
theorem resolvedType?_respelled (above : Tree) (i : Nat) (c : Tree) :
    resolvedType? above i (respelled typeConstraintOf (some (above, i)) c) = none := by
  have helement := typeConstraintOf_element above i c
  cases hc : resolvedType? above i c with
  | none =>
    rw [hc, Option.map_none, Option.getD_none] at helement
    rw [← hc]
    unfold resolvedType?
    rw [helement]
  | some type =>
    rw [hc, Option.map_some, Option.getD_some] at helement
    unfold resolvedType? at hc ⊢
    split at hc
    next hfirst =>
      obtain ⟨static, hstatic, htype⟩ := Option.bind_eq_some_iff.mp hc
      simp only [Option.ite_none_left_eq_some, Option.some.injEq] at htype
      rw [if_pos hfirst, hstatic, Option.bind_some, helement]
      simp [Element.attr, htype.2, sameIgnoringCase]
    next => cases hc

theorem typeConstraintOf_static (above : Option (Tree × Nat)) (t : Tree) :
    (respelled typeConstraintOf above t).kind = t.kind ∧
      (respelled typeConstraintOf above t).attr? "StaticType" = t.attr? "StaticType" := by
  obtain ⟨e, cs⟩ := t
  rw [respelled_node, kind_node, kind_node, attr?, attr?, element_node, element_node]
  cases h : typeConstraintOf above (.node e cs) with
  | none => exact ⟨rfl, rfl⟩
  | some e' =>
    obtain ⟨type, -, rfl⟩ := Option.map_eq_some_iff.mp h
    exact ⟨rfl, by simp⟩

theorem unresolved_respelled (t : Tree) :
    ∀ above, unresolved (respelled typeConstraintOf above t) = 0 := by
  induction t using children_induction with
  | h e cs ih =>
    intro above
    obtain ⟨hkind, hstatic⟩ := typeConstraintOf_static above (.node e cs)
    have hkinds := sameKinds_mapIdx cs fun i c =>
      (typeConstraintOf_static (some (.node e cs, i)) c).1
    rw [respelled_node] at hkind hstatic ⊢
    rw [unresolved_node, Nat.add_eq_zero_iff, List.sum_eq_zero_iff_forall_eq_nat]
    constructor
    · simp only [List.mem_map, List.mem_mapIdx]
      rintro n ⟨u, ⟨i, hi, rfl⟩, rfl⟩
      exact ih _ (List.getElem_mem hi) _
    · rw [Bool.toNat_eq_zero, ← Bool.not_eq_true, isUnresolved_iff]
      rintro ⟨i, c', hc', hsome⟩
      rw [children_node, List.getElem?_mapIdx, Option.map_eq_some_iff] at hc'
      obtain ⟨c, -, rfl⟩ := hc'
      rw [resolvedType?_congr (.node e cs) i hkind hstatic hkinds .rfl,
        resolvedType?_respelled] at hsome
      cases hsome

mutual

theorem unresolved_of_respellFrom? {above : Option (Tree × Nat)} : (t : Tree) → {t' : Tree} →
    t.respellFrom? typeConstraintOf above = some t' →
    (typeConstraintOf above t).isSome = true ∨ ∃ u ∈ t.nodes, isUnresolved u = true
  | .node e cs, t', h => by
    simp only [respellFrom?, Option.ite_none_right_eq_some, Bool.or_eq_true] at h
    rcases h.1 with h | h
    · exact .inl h
    · obtain ⟨cs', hcs⟩ := Option.isSome_iff_exists.mp h
      right
      rcases unresolved_of_respellAll? cs hcs with ⟨j, c, hc, hsome⟩ | ⟨u, hu, hun⟩
      · refine ⟨.node e cs, mem_nodes_self _, isUnresolved_iff.mpr ⟨j, c, hc, ?_⟩⟩
        simpa [typeConstraintOf] using hsome
      · exact ⟨u, nodes_eq (.node e cs) ▸ List.mem_cons_of_mem _ hu, hun⟩

theorem unresolved_of_respellAll? {above : Tree} {i : Nat} : (ts : List Tree) → {ts' : List Tree} →
    respellAll? typeConstraintOf above i ts = some ts' →
    (∃ j c, ts[j]? = some c ∧ (typeConstraintOf (some (above, i + j)) c).isSome = true) ∨
      ∃ u ∈ nodesAll ts, isUnresolved u = true
  | [], _, h => by simp [respellAll?] at h
  | t :: ts, ts', h => by
    simp only [respellAll?, Option.ite_none_right_eq_some, Bool.or_eq_true] at h
    rcases h.1 with h | h
    · obtain ⟨t', ht⟩ := Option.isSome_iff_exists.mp h
      rcases unresolved_of_respellFrom? t ht with h | ⟨u, hu, hun⟩
      · exact .inl ⟨0, t, rfl, h⟩
      · exact .inr ⟨u, by simp [nodesAll, hu], hun⟩
    · obtain ⟨ts', hts⟩ := Option.isSome_iff_exists.mp h
      rcases unresolved_of_respellAll? ts hts with ⟨j, c, hc, h⟩ | ⟨u, hu, hun⟩
      · exact .inl ⟨j + 1, c, hc, by rwa [Nat.add_assoc, Nat.add_comm 1] at h⟩
      · exact .inr ⟨u, by simp [nodesAll, hu], hun⟩

end

theorem unresolved_pos {t t' : Tree} (h : typeConstraintFromConvert t = some t') :
    0 < unresolved t := by
  rcases unresolved_of_respellFrom? t h with h | h
  · simp [typeConstraintOf] at h
  · exact List.countP_pos_iff.mpr h

theorem typeConstraintFromConvert_unresolved {t t' : Tree} (h : typeConstraintFromConvert t = some t') :
    unresolved t' < unresolved t := by
  rw [respelled_of_respell? h, unresolved_respelled]
  exact unresolved_pos h

end Unscramble
