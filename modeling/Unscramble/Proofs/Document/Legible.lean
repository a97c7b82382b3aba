import Unscramble.Proofs.Document.Names
import Unscramble.Proofs.Rewriting.Catalog
import Unscramble.Proofs.Spelling.Drives

/-! Every rule leaves a tree that a document can hold. The names of attributes are those that were
there and the few that rules write, a new text is more than white space, and a node gets no children
that had none before. -/
namespace Unscramble.Document

open Simplify Unscramble.Tree Vocabulary

/-! ### Blank texts -/

/-- An element whose attributes have names that were there or that rules write, and whose text is not
blank if it is another one. -/
structure Legible (e e' : Element) : Prop where
  kind : e'.kind = e.kind
  keys : ∀ key ∈ e'.attributes.pairs.map Prod.fst, key ∈ e.attributes.pairs.map Prod.fst ∨ IsName key
  text : e'.text = e.text ∨ ∀ s ∈ e'.text, Text.isBlankText s = false

theorem isName_of_written : ∀ key ∈ writtenKeys, IsName key := by decide +kernel

namespace Legible
variable {e e' e'' : Element}

theorem withAttr (e : Element) {key : String} (value : String) (h : key ∈ writtenKeys) :
    Legible e (e.withAttr key value) where
  kind := rfl
  keys k hk := by
    rcases Attributes.mem_keys_setPairs.mp hk with rfl | hk
    · exact .inr (isName_of_written _ h)
    · exact .inl hk
  text := .inl rfl

/-- A new text, and maybe other attributes. -/
theorem withText (h : Legible e e') {s : String} (hs : Text.isBlankText s = false) :
    Legible e { e' with text := some s } :=
  ⟨h.kind, h.keys, .inr fun _ htext => Option.some.inj htext ▸ hs⟩

theorem refl (e : Element) : Legible e e := ⟨rfl, fun _ => .inl, .inl rfl⟩

theorem named (h : Legible e e') (he : Named e) : Named e' where
  name := h.kind ▸ he.name
  keys pair hpair := by
    rcases h.keys pair.1 (List.mem_map_of_mem hpair) with hold | hname
    · obtain ⟨old, hold, heq⟩ := List.mem_map.mp hold
      exact heq ▸ he.keys old hold
    · exact hname

theorem clear (h : Legible e e') {cs : List Tree} (he : HasClearText (.node e cs)) :
    HasClearText (.node e' cs) := by
  intro hcs text htext
  rcases h.text with heq | hclear
  · exact he hcs text (heq ▸ htext)
  · exact hclear text htext

end Legible

theorem mem_keys_ofList {key : String} {pairs : List (String × String)}
    (h : key ∈ (Attributes.ofList pairs).pairs.map Prod.fst) : key ∈ pairs.map Prod.fst := by
  have hfold : ∀ attributes : Attributes,
      key ∈ (pairs.foldl (fun attributes pair => attributes.set pair.1 pair.2) attributes).pairs.map
        Prod.fst → key ∈ attributes.pairs.map Prod.fst ∨ key ∈ pairs.map Prod.fst := by
    clear h
    induction pairs with
    | nil => exact fun _ => .inl
    | cons pair pairs ih =>
      intro attributes h
      rw [List.map_cons, List.mem_cons]
      rcases ih _ h with h | h
      · exact (Attributes.mem_keys_setPairs.mp h).symm.imp id .inl
      · exact .inr (.inr h)
  exact (hfold .empty h).resolve_left (by simp [Attributes.empty])

section
variable {k : Kind} {pairs : List (String × String)} {text : Option String} {cs : List Tree}

theorem named_ofList (hk : ∀ tag foreign, k ≠ .unsupported tag foreign)
    (hkeys : ∀ key ∈ pairs.map Prod.fst, IsName key) : Named ⟨k, .ofList pairs, text⟩ where
  name := isName_tag hk
  keys _ hpair := hkeys _ (mem_keys_ofList (List.mem_map_of_mem hpair))

theorem writable_leaf (hk : ∀ tag foreign, k ≠ .unsupported tag foreign)
    (hkeys : ∀ key ∈ pairs.map Prod.fst, IsName key) : Writable (leaf k pairs text) :=
  writable_node.mpr ⟨named_ofList hk hkeys, fun h => absurd rfl h, by simp⟩

theorem writable_branch (hk : ∀ tag foreign, k ≠ .unsupported tag foreign) (hcs : ∀ c ∈ cs, Writable c)
    (hkeys : ∀ key ∈ pairs.map Prod.fst, IsName key) : Writable (branch k pairs cs) :=
  writable_node.mpr ⟨named_ofList hk hkeys, by simp [HasClearText], hcs⟩

end

theorem isName_static : IsName "StaticType" := isName_of_written _ (by decide)

theorem writable_stringTree (quoting : Quoting) (s : String) : Writable (stringTree quoting s) :=
  writable_leaf (by simp) (by simpa using ⟨isName_of_written _ (by decide), isName_static⟩)

mutual

theorem writable_toTree (quoting : Quoting) : (v : Value) → Writable (v.toTree quoting)
  | .text s => writable_stringTree quoting s
  | .int _ => writable_leaf (by simp) (by simpa using isName_static)
  | .list items =>
    have helements : Writable (branch .elements [] (Value.toTrees items)) :=
      writable_branch (by simp) (writable_toTrees items) (by simp)
    writable_branch (by simp) (by simpa using helements) (by simpa using isName_static)

theorem writable_toTrees : (vs : List Value) → ∀ u ∈ Value.toTrees vs, Writable u
  | [], _, hu => by simp [Value.toTrees] at hu
  | v :: vs, u, hu => by
    rw [Value.toTrees, List.mem_cons] at hu
    rcases hu with rfl | hu
    · exact writable_toTree _ v
    · exact writable_toTrees vs u hu

end

section
variable {r : Rule} {e : Element} {before after new : List Tree} {s t t' : Tree}

theorem Writable.of_mem (h : Writable t) {u : Tree} (hu : u ∈ nodesAll t.children) : Writable u :=
  have hmem {v : Tree} (hv : v ∈ u.nodes) : v ∈ t.nodes :=
    nodes_eq t ▸ List.mem_cons_of_mem _ (mem_nodesAll_trans _ hu hv)
  ⟨fun _ hv => h.named _ (hmem hv), fun _ hv => h.clear _ (hmem hv)⟩

end

end Unscramble.Document
