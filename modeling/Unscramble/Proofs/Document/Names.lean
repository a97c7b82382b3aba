import Unscramble.Proofs.Rewriting.Nodes
import Unscramble.Text.Blank
import Unscramble.Document.Event

/-! What a tree must be like to be written down: its names are names of the markup, and the text of a
node that has children is more than white space. -/
namespace Unscramble.Document

open Unscramble.Tree

/-- The characters that a name of the markup may start with. -/
def nameStarts : Text.CodeRanges :=
  [(58, 58), (65, 90), (95, 95), (97, 122), (0xC0, 0xD6), (0xD8, 0xF6), (0xF8, 0x2FF),
    (0x370, 0x37D), (0x37F, 0x1FFF), (0x200C, 0x200D), (0x2070, 0x218F), (0x2C00, 0x2FEF),
    (0x3001, 0xD7FF), (0xF900, 0xFDCF), (0xFDF0, 0xFFFD), (0x10000, 0xEFFFF)]

/-- The characters that a name may go on with. -/
def nameParts : Text.CodeRanges :=
  nameStarts ++ [(45, 46), (48, 57), (0xB7, 0xB7), (0x300, 0x36F), (0x203F, 0x2040)]

def isNameStart (c : Char) : Bool := nameStarts.has c

def isNamePart (c : Char) : Bool := nameParts.has c

def isNameOf : List Char → Bool
  | [] => false
  | c :: rest => isNameStart c && rest.all isNamePart

/-- A name of the markup. -/
def IsName (name : String) : Prop := isNameOf name.toList = true

instance (name : String) : Decidable (IsName name) := inferInstanceAs (Decidable (_ = _))

/-- What a tag is written from. -/
structure IsTag (tag : String) (attributes : Attributes) : Prop where
  name : IsName tag
  keys : ∀ pair ∈ attributes.pairs, IsName pair.1

/-- An element whose names are names of the markup. -/
def Named (e : Element) : Prop := IsTag e.kind.tag e.attributes

/-- Text in front of children can be told from layout. -/
def HasClearText (t : Tree) : Prop :=
  t.children ≠ [] → ∀ text ∈ t.element.text, Text.isBlankText text = false

/-- A tree with names of the markup in it. -/
def NamedAll (t : Tree) : Prop := ∀ u ∈ t.nodes, Named u.element

/-- Trees that a document can hold. -/
structure Writable (t : Tree) : Prop where
  named : NamedAll t
  clear : ∀ u ∈ t.nodes, HasClearText u

instance (tag : String) (attributes : Attributes) : Decidable (IsTag tag attributes) :=
  decidable_of_iff (IsName tag ∧ ∀ pair ∈ attributes.pairs, IsName pair.1)
    ⟨fun ⟨hname, hkeys⟩ => ⟨hname, hkeys⟩, fun ⟨hname, hkeys⟩ => ⟨hname, hkeys⟩⟩

instance (e : Element) : Decidable (Named e) := inferInstanceAs (Decidable (IsTag _ _))

instance (t : Tree) : Decidable (HasClearText t) :=
  inferInstanceAs (Decidable (_ → ∀ text ∈ t.element.text, _))

instance (t : Tree) : Decidable (NamedAll t) := inferInstanceAs (Decidable (∀ u ∈ t.nodes, _))

instance (t : Tree) : Decidable (Writable t) :=
  decidable_of_iff (NamedAll t ∧ ∀ u ∈ t.nodes, HasClearText u)
    ⟨fun ⟨hnamed, hclear⟩ => ⟨hnamed, hclear⟩, fun ⟨hnamed, hclear⟩ => ⟨hnamed, hclear⟩⟩

theorem writable_node {e : Element} {cs : List Tree} :
    Writable (.node e cs) ↔ Named e ∧ HasClearText (.node e cs) ∧ ∀ c ∈ cs, Writable c := by
  constructor
  · rintro ⟨hnamed, hclear⟩
    exact ⟨hnamed _ (mem_nodes_self _), hclear _ (mem_nodes_self _), fun c hc =>
      ⟨fun u hu => hnamed u (mem_nodes_of_child hc hu), fun u hu => hclear u (mem_nodes_of_child hc hu)⟩⟩
  · rintro ⟨hnamed, hclear, hcs⟩
    constructor
    all_goals
      intro u hu
      rcases mem_nodes_iff.mp hu with rfl | ⟨c, hc, hu⟩
    · exact hnamed
    · exact (hcs c hc).named u hu
    · exact hclear
    · exact (hcs c hc).clear u hu

/-! ### The characters of names -/

theorem isName_of_mem_knownTags : ∀ tag ∈ knownTags, IsName tag := by decide +kernel

theorem tag_mem_knownTags {k : Kind} (h : ∀ tag foreign, k ≠ .unsupported tag foreign) : k.tag ∈ knownTags := by
  cases k
  case unsupported tag foreign => exact absurd rfl (h tag foreign)
  all_goals decide +kernel

theorem isName_tag {k : Kind} (h : ∀ tag foreign, k ≠ .unsupported tag foreign) : IsName k.tag :=
  isName_of_mem_knownTags _ (tag_mem_knownTags h)

/-- A kind is told by its element name. -/
@[simp] theorem ofTag_tag (k : Kind) : Kind.ofTag k.tag = k := by
  cases k
  case unsupported tag foreign => exact dif_neg foreign
  all_goals decide +kernel

theorem exists_known : ∀ tag ∈ knownTags, ∃ k ∈ Kind.known, k.tag = tag := by decide +kernel

@[simp] theorem tag_ofTag (tag : String) : (Kind.ofTag tag).tag = tag := by
  by_cases h : tag ∈ knownTags
  · obtain ⟨k, -, rfl⟩ := exists_known tag h
    rw [ofTag_tag]
  · rw [Kind.ofTag, dif_neg h, Kind.tag]

end Unscramble.Document
