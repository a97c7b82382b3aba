import Unscramble.Document.Marks
import Unscramble.Proofs.Document.Names

/-! What is relied on of a library for markup: marks that were written are met again as they were. White
space may come between tags, but not next to a text, and no end of line in a text or an attribute value
is changed. -/
namespace Unscramble.Document

open Unscramble.Tree

def Mark.isText : Mark → Bool
  | .text _ => true
  | _ => false

/-- A text is an event unless it is empty. -/
def textEvents (s : String) : List Event := if s.isEmpty then [] else [.text s]

/-- What a mark is met as. -/
def Mark.events : Mark → List Event
  | .declaration => [.layout]
  | .opening tag attributes => [.opening tag (.ok attributes)]
  | .single tag attributes => [.single tag (.ok attributes)]
  | .text content => textEvents content
  | .closing tag => [.closing tag]

/-- The marks that follow while elements of some names are open, the innermost first. Texts stand inside
of elements, and no two of them next to each other. -/
inductive Nested : List String → List Mark → Prop
  | nil : Nested [] []
  | opening {opened marks tag attributes} (htag : IsTag tag attributes) (h : Nested (tag :: opened) marks) :
    Nested opened (.opening tag attributes :: marks)
  | single {opened marks tag attributes} (htag : IsTag tag attributes) (h : Nested opened marks) :
    Nested opened (.single tag attributes :: marks)
  | text {opened marks tag} (content : String) (hnext : ∀ mark ∈ marks.head?, mark.isText = false)
      (h : Nested (tag :: opened) marks) : Nested (tag :: opened) (.text content :: marks)
  | closing {opened marks tag} (hname : IsName tag) (h : Nested opened marks) :
    Nested (tag :: opened) (.closing tag :: marks)

/-- The events that marks are met as. White space comes neither behind a text, which is what `beside`
says, nor in front of one. -/
inductive Meets : Bool → List Mark → List Event → Prop
  | nil {beside} : Meets beside [] []
  | mark {beside mark marks events} (h : Meets mark.isText marks events) :
    Meets beside (mark :: marks) (mark.events ++ events)
  | gap {marks events content} (hblank : Text.isBlankText content = true)
      (hnext : ∀ mark ∈ marks.head?, mark.isText = false) (h : Meets false marks events) :
    Meets false marks (.text content :: events)

section
variable {opened : List String} {rest : List Mark}

theorem marks_single {e : Element} (htext : e.text = none) : marks (.node e []) = [.single e.kind.tag e.attributes] := by
  rw [marks.eq_1 _ htext]

theorem marks_pair {e : Element} {cs : List Tree} (h : ¬(e.text = none ∧ cs = [])) :
    marks (.node e cs) = .opening e.kind.tag e.attributes ::
      (e.text.toList.map .text ++ (marksAll cs ++ [.closing e.kind.tag])) := by
  rw [marks.eq_2 _ _ fun htext hcs => h ⟨htext, hcs⟩]

theorem marks_append_ne_nil (t : Tree) (rest : List Mark) : marks t ++ rest ≠ [] := by
  obtain ⟨e, cs⟩ := t
  by_cases h : e.text = none ∧ cs = []
  · obtain ⟨htext, rfl⟩ := h
    simp [marks_single htext]
  · simp [marks_pair h]

theorem head?_marks (t : Tree) : ∀ mark ∈ (marks t ++ rest).head?, mark.isText = false := by
  obtain ⟨e, cs⟩ := t
  by_cases h : e.text = none ∧ cs = []
  · obtain ⟨htext, rfl⟩ := h
    rw [marks_single htext]
    rintro _ ⟨⟩
    rfl
  · rw [marks_pair h]
    rintro _ ⟨⟩
    rfl

theorem head?_marksAll (ts : List Tree) (h : ∀ mark ∈ rest.head?, mark.isText = false) :
    ∀ mark ∈ (marksAll ts ++ rest).head?, mark.isText = false := by
  cases ts with
  | nil => exact h
  | cons t ts =>
    rw [marksAll, List.append_assoc]
    exact head?_marks t

mutual

/-- The tags of a tree are nested. -/
theorem nested_marks : (t : Tree) → NamedAll t → ∀ {opened rest}, Nested opened rest →
    Nested opened (marks t ++ rest)
  | .node e cs, h, opened, rest, hrest => by
    have htag : IsTag e.kind.tag e.attributes := h _ (mem_nodes_self _)
    by_cases hpair : e.text = none ∧ cs = []
    · obtain ⟨htext, rfl⟩ := hpair
      rw [marks_single htext]
      exact .single htag hrest
    · have hclosing : Nested (e.kind.tag :: opened) (.closing e.kind.tag :: rest) := .closing htag.name hrest
      have hchildren := nested_marksAll cs (fun c hc u hu => h u (mem_nodes_of_child hc hu)) hclosing
      have hnext : ∀ mark ∈ (marksAll cs ++ .closing e.kind.tag :: rest).head?, mark.isText = false :=
        head?_marksAll cs (by rintro _ ⟨⟩; rfl)
      rw [marks_pair hpair]
      refine .opening htag ?_
      cases e.text with
      | none => simpa using hchildren
      | some s => simpa using Nested.text s hnext hchildren

theorem nested_marksAll : (ts : List Tree) → (∀ t ∈ ts, NamedAll t) → ∀ {opened rest}, Nested opened rest →
    Nested opened (marksAll ts ++ rest)
  | [], _, _, _, hrest => hrest
  | t :: ts, h, opened, rest, hrest => by
    rw [marksAll, List.append_assoc]
    exact nested_marks t (h t List.mem_cons_self)
      (nested_marksAll ts (fun u hu => h u (List.mem_cons_of_mem _ hu)) hrest)

end

end

end Unscramble.Document
