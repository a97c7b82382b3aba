import Unscramble.Proofs.Document.RoundTrip
import Unscramble.Proofs.Driver

/-! Which events make up a document. A reader is a machine with a stack of open elements; the events
that it accepts are those of one element, properly nested, with nothing around it that counts. The
tree has one node for each element, in the order of the start tags. -/
namespace Unscramble.Document

open Unscramble.Tree

/-- Declarations, comments, processing instructions, document types and white space. -/
def Event.isMisc : Event → Bool
  | .layout => true
  | .text content => Text.isBlankText content
  | _ => false

def Event.isVerbatim : Event → Bool
  | .verbatim _ => true
  | _ => false

/-- What may stand around the root. Character data that is marked as such is skipped there without a
look at it. -/
def Event.isAround (event : Event) : Bool := event.isMisc || event.isVerbatim

/-- The text that is kept of an element with text `s` and children `cs`. -/
def keptText (cs : List Tree) (s : String) : Option String :=
  if cs.isEmpty || !Text.isBlankText s then some s else none

mutual

/-- The events of one element that stands for a tree. That the names of the two tags agree is checked
where the events are made. -/
inductive IsElement : List Event → Tree → Prop
  | single (tag : String) (attributes : Attributes) :
    IsElement [.single tag (.ok attributes)] (.node ⟨.ofTag tag, attributes, none⟩ [])
  | pair (tag closingTag : String) (attributes : Attributes) {body : List Event} {cs : List Tree}
      {s : String} (h : IsContent body cs s) :
    IsElement (.opening tag (.ok attributes) :: body ++ [.closing closingTag])
      (.node ⟨.ofTag tag, attributes, keptText cs s⟩ cs)

/-- The events between two tags, with the trees of the elements in them and their text. -/
inductive IsContent : List Event → List Tree → String → Prop
  | nil : IsContent [] [] ""
  | text {body : List Event} {cs : List Tree} {s content : String} (h : IsContent body cs s)
      (hkept : cs = [] ∨ Text.isBlankText content = false) :
    IsContent (body ++ [.text content]) cs (s ++ content)
  | gap {body : List Event} {cs : List Tree} {s content : String} (h : IsContent body cs s)
      (hchildren : cs ≠ []) (hblank : Text.isBlankText content = true) :
    IsContent (body ++ [.text content]) cs s
  | verbatim {body : List Event} {cs : List Tree} {s : String} (h : IsContent body cs s)
      (content : String) : IsContent (body ++ [.verbatim content]) cs (s ++ content)
  | layout {body : List Event} {cs : List Tree} {s : String} (h : IsContent body cs s) :
    IsContent (body ++ [.layout]) cs s
  | child {body child : List Event} {cs : List Tree} {s : String} {t : Tree} (h : IsContent body cs s)
      (ht : IsElement child t) : IsContent (body ++ child) (cs ++ [t]) s

end

/-- One element with nothing around it but what `around` allows. -/
def IsDocument (around : Event → Bool) (events : List Event) (t : Tree) : Prop :=
  ∃ before body after, events = before ++ body ++ after ∧ (∀ e ∈ before, around e = true) ∧
    (∀ e ∈ after, around e = true) ∧ IsElement body t

section
variable {events body : List Event} {e : Event} {p q : Position} {inner : Open} {outer : List Open}
  {t : Tree} {cs : List Tree} {s : String}

theorem close_eq_keptText (o : Open) :
    o.close = .node ⟨.ofTag o.tag, o.attributes, keptText o.children.reverse o.text⟩ o.children.reverse := by
  simp [Open.close, keptText]

/-! ### Documents are read -/

theorem step_around (h : e.isAround = true) (root : Option Tree) :
    (Position.outside root).step e = .ok (.outside root) := by
  cases e <;> simp_all [Event.isAround, Event.isMisc, Event.isVerbatim, Position.step]

theorem readEvents_around {root : Option Tree} (h : ∀ e ∈ events, e.isAround = true) :
    readEvents (.outside root) events = .ok (.outside root) := by
  induction events with
  | nil => rfl
  | cons e events ih =>
    obtain ⟨he, hevents⟩ := List.forall_mem_cons.mp h
    rw [readEvents_cons (step_around he root), ih hevents]

theorem readEvents_snoc (h : readEvents p events = .ok q) : readEvents p (events ++ [e]) = q.step e := by
  rw [readEvents_append h, readEvents, List.foldlM_cons]
  cases q.step e <;> rfl

mutual

theorem IsElement.readEvents : {events : List Event} → {t : Tree} → IsElement events t →
    ∀ p, Position.isAfterRoot p = false → Document.readEvents p events = .ok (Position.addTree t p.opened)
  | _, _, .single tag attributes, _, hp => readEvents_cons (step_single hp tag attributes)
  | _, _, @IsElement.pair tag closingTag attributes _ cs s h, p, hp => by
    have hbody := h.readEvents tag attributes p.opened
    have hclose := close_eq_keptText ⟨tag, attributes, cs.reverse, s⟩
    rw [List.cons_append, readEvents_cons (step_opening hp tag attributes), readEvents_snoc hbody,
      step_closing, hclose, List.reverse_reverse]

theorem IsContent.readEvents : {body : List Event} → {cs : List Tree} → {s : String} → IsContent body cs s →
    ∀ tag attributes outer, Document.readEvents (.inside (.start tag attributes) outer) body =
      .ok (.inside ⟨tag, attributes, cs.reverse, s⟩ outer)
  | _, _, _, .nil, _, _, _ => rfl
  | _, _, _, .text h hkept, tag, attributes, outer => by
    rw [readEvents_snoc (h.readEvents tag attributes outer)]
    rcases hkept with rfl | hkept
    · simp [Position.step, Open.addText]
    · simp [Position.step, Open.addText, hkept]
  | _, _, _, .gap h hchildren hblank, tag, attributes, outer => by
    rw [readEvents_snoc (h.readEvents tag attributes outer)]
    simp [Position.step, hchildren, hblank]
  | _, _, _, .verbatim h content, tag, attributes, outer => by
    rw [readEvents_snoc (h.readEvents tag attributes outer)]
    rfl
  | _, _, _, .layout h, tag, attributes, outer => by
    rw [readEvents_snoc (h.readEvents tag attributes outer)]
    rfl
  | _, _, _, .child h ht, tag, attributes, outer => by
    rw [readEvents_append (h.readEvents tag attributes outer), ht.readEvents _ rfl, opened_inside,
      addTree_cons, List.reverse_concat]
    rfl

end

theorem IsDocument.ofEvents (h : IsDocument Event.isAround events t) : ofEvents events = .ok t := by
  obtain ⟨before, body, after, rfl, hbefore, hafter, hbody⟩ := h
  have hroot := hbody.readEvents (.outside none) rfl
  rw [ofEvents_eq_ok, List.append_assoc, readEvents_append (readEvents_around hbefore),
    readEvents_append hroot]
  exact readEvents_around hafter

/-! ### What is read is a document -/

/-- The events after which a stack of elements is open, the innermost first. -/
inductive Opened : List Event → List Open → Prop
  | nil {before : List Event} (h : ∀ e ∈ before, e.isAround = true) : Opened before []
  | cons {before body : List Event} {outer : List Open} {tag : String} {attributes : Attributes}
      {cs : List Tree} {s : String} (h : Opened before outer) (hbody : IsContent body cs.reverse s) :
    Opened (before ++ .opening tag (.ok attributes) :: body) (⟨tag, attributes, cs, s⟩ :: outer)

/-- What has been read when a reader has come to a position. -/
def Position.Reached (events : List Event) : Position → Prop
  | .outside none => ∀ e ∈ events, e.isAround = true
  | .outside (some t) => IsDocument Event.isAround events t
  | .inside inner outer => Opened events (inner :: outer)

theorem Position.Reached.opened (h : p.Reached events) (hp : p.isAfterRoot = false) :
    Opened events p.opened := by
  match p, hp with
  | .outside none, _ => exact .nil h
  | .inside _ _, _ => exact h

theorem Opened.addTree (h : Opened events outer) (ht : IsElement body t) :
    (Position.addTree t outer).Reached (events ++ body) := by
  cases h with
  | nil hbefore => exact ⟨events, body, [], (List.append_nil _).symm, hbefore, by simp, ht⟩
  | cons hbefore hbody =>
    rw [addTree_cons, List.append_assoc, List.cons_append]
    exact .cons hbefore (List.reverse_cons ▸ hbody.child ht)

/-- An event that adds to the content of the innermost element. -/
theorem Opened.content {text : String} (h : Opened events (inner :: outer))
    (hstep : ∀ body, IsContent body inner.children.reverse inner.text →
      IsContent (body ++ [e]) inner.children.reverse text) :
    Opened (events ++ [e]) ({ inner with text := text } :: outer) := by
  cases h with
  | cons hbefore hbody =>
    rw [List.append_assoc, List.cons_append]
    exact .cons hbefore (hstep _ hbody)

theorem IsDocument.snoc (h : IsDocument Event.isAround events t) (he : e.isAround = true) :
    IsDocument Event.isAround (events ++ [e]) t := by
  obtain ⟨before, body, after, rfl, hbefore, hafter, hbody⟩ := h
  exact ⟨before, body, after ++ [e], List.append_assoc .., hbefore,
    List.forall_mem_append.mpr ⟨hafter, by simpa using he⟩, hbody⟩

theorem Position.Reached.around {root : Option Tree} (h : (Position.outside root).Reached events)
    (he : e.isAround = true) : (Position.outside root).Reached (events ++ [e]) := by
  cases root with
  | none => exact List.forall_mem_append.mpr ⟨h, by simpa using he⟩
  | some t => exact IsDocument.snoc h he

/-- Text is kept by an element that has no other elements yet, and is left out where it is blank. -/
theorem Position.Reached.text {content : String} (h : p.Reached events) (hq : p.step (.text content) = .ok q) :
    q.Reached (events ++ [.text content]) := by
  cases p with
  | outside root =>
    simp only [Position.step] at hq
    split at hq
    next hblank =>
      cases hq
      exact h.around (by simp [Event.isAround, Event.isMisc, hblank])
    next => cases hq
  | inside inner outer =>
    simp only [Position.step] at hq
    split at hq
    next hkept =>
      cases hq
      exact Opened.content h fun body hbody => hbody.text (by simpa using hkept)
    next hdropped =>
      obtain ⟨hchildren, hblank⟩ : inner.children ≠ [] ∧ Text.isBlankText content = true := by
        simpa using hdropped
      cases hq
      exact Opened.content h fun body hbody => hbody.gap (by simpa using hchildren) hblank

/-- One event leads from what has been read to what has been read with it. -/
theorem Position.Reached.step (h : p.Reached events) (hq : p.step e = .ok q) :
    q.Reached (events ++ [e]) := by
  cases e with
  | opening tag attributes =>
    simp only [Position.step] at hq
    split at hq
    next => cases hq
    next hp =>
      cases attributes with
      | error => cases hq
      | ok attributes =>
        cases hq
        exact .cons (h.opened (Bool.eq_false_iff.mpr hp)) .nil
  | single tag attributes =>
    simp only [Position.step] at hq
    split at hq
    next => cases hq
    next hp =>
      cases attributes with
      | error => cases hq
      | ok attributes =>
        cases hq
        exact (h.opened (Bool.eq_false_iff.mpr hp)).addTree (.single tag attributes)
  | closing tag =>
    cases p with
    | outside root => cases hq
    | inside inner outer =>
      cases hq
      cases h with
      | cons hbefore hbody =>
        rw [List.append_assoc, close_eq_keptText]
        exact hbefore.addTree (.pair _ tag _ hbody)
  | text => exact h.text hq
  | verbatim content =>
    cases p with
    | outside root => cases hq; exact h.around rfl
    | inside inner outer => cases hq; exact Opened.content h fun body hbody => hbody.verbatim content
  | layout =>
    cases hq
    cases p with
    | outside root => exact h.around rfl
    | inside inner outer => exact Opened.content h fun body hbody => hbody.layout
  | flaw error => cases hq

theorem Position.Reached.read {more : List Event} (h : p.Reached events)
    (hq : readEvents p more = .ok q) : q.Reached (events ++ more) := by
  induction more generalizing p events with
  | nil =>
    cases hq
    rwa [List.append_nil]
  | cons e more ih =>
    obtain ⟨p', hstep, hq⟩ := readEvents_cons_eq_ok.mp hq
    rw [List.append_cons]
    exact ih (h.step hstep) hq

theorem isDocument_of_ofEvents (h : ofEvents events = .ok t) : IsDocument Event.isAround events t := by
  have hstart : (Position.outside none).Reached [] := by simp [Position.Reached]
  exact hstart.read (ofEvents_eq_ok.mp h)

/-! ### The nodes and the start tags -/

/-- What a tag that starts an element says about its node. -/
def Event.start? : Event → Option (Kind × Attributes)
  | .opening tag (.ok attributes) | .single tag (.ok attributes) => some (.ofTag tag, attributes)
  | _ => none

/-- The kind and the attributes of a node. -/
def heading (t : Tree) : Kind × Attributes := (t.kind, t.element.attributes)

def starts (events : List Event) : List (Kind × Attributes) := events.filterMap Event.start?

theorem starts_append (events more : List Event) : starts (events ++ more) = starts events ++ starts more :=
  List.filterMap_append

theorem starts_around (h : ∀ e ∈ events, e.isAround = true) : starts events = [] := by
  refine List.filterMap_eq_nil_iff.mpr fun e he => ?_
  have := h e he
  cases e <;> simp_all [Event.isAround, Event.isMisc, Event.isVerbatim, Event.start?]

mutual

theorem IsElement.starts : {events : List Event} → {t : Tree} → IsElement events t →
    Document.starts events = t.nodes.map heading
  | _, _, .single _ _ => rfl
  | _, _, .pair tag closingTag attributes h => by
    rw [List.cons_append, Tree.nodes, List.map_cons, ← h.starts]
    simp [Document.starts, Event.start?, heading]

theorem IsContent.starts : {body : List Event} → {cs : List Tree} → {s : String} → IsContent body cs s →
    Document.starts body = (nodesAll cs).map heading
  | _, _, _, .nil => rfl
  | _, _, _, .text h _ | _, _, _, .gap h _ _ | _, _, _, .verbatim h _ | _, _, _, .layout h => by
    rw [starts_append, h.starts]
    simp [Document.starts, Event.start?]
  | _, _, _, .child h ht => by
    rw [starts_append, h.starts, ht.starts, nodesAll_append, List.map_append]
    simp [nodesAll]

end

theorem IsDocument.starts (h : IsDocument Event.isAround events t) :
    Document.starts events = t.nodes.map heading := by
  obtain ⟨before, body, after, rfl, hbefore, hafter, hbody⟩ := h
  rw [starts_append, starts_append, starts_around hbefore, starts_around hafter, hbody.starts]
  simp

end

/-- A reader accepts the events of one element, properly nested, with nothing around it but markup that
says nothing about the tree, white space and character data that is marked as such. The nodes are those
that the start tags say, in their order. -/
theorem ofEvents_singleRooted (events : List Event) (t : Tree) :
    (ofEvents events = .ok t ↔ IsDocument Event.isAround events t) ∧
    (ofEvents events = .ok t →
      starts events = t.nodes.map heading ∧ (starts events).length = t.size) := by
  refine ⟨⟨isDocument_of_ofEvents, IsDocument.ofEvents⟩, fun h => ?_⟩
  have hstarts := (isDocument_of_ofEvents h).starts
  exact ⟨hstarts, by rw [hstarts, List.length_map, ← Driver.size_eq_length]⟩

/-- A declaration, a comment and layout around and inside of nested elements. -/
theorem ofEvents_singleRooted_nested :
    let document := events "<?xml version='1.0'?>\n<Odd Kind='a'>x<Elements/>\n<!-- <Odd> --></Odd>\n"
    let t := .node ⟨.unsupported "Odd", .ofList [("Kind", "a")], some "x"⟩ [.leaf .elements [] none]
    ofEvents document = .ok t ∧ IsDocument Event.isAround document t ∧
      starts document = [(.unsupported "Odd", .ofList [("Kind", "a")]), (.elements, .empty)] ∧
      (starts document).length = t.size := by
  intro document t
  have h : ofEvents document = .ok t := by decide +kernel
  have hread := ofEvents_singleRooted document t
  obtain ⟨hstarts, hsize⟩ := hread.2 h
  exact ⟨h, hread.1.mp h, hstarts, hsize⟩

/-- Character data behind the root is dropped without a word if it is marked as such. -/
theorem read_verbatim_behind :
    let document := "<ScriptBlockAst/><![CDATA[x]]>"
    read document = .ok (.leaf .scriptBlock [] none) ∧
      ¬∃ t, IsDocument Event.isMisc (events document) t := by
  have hevents : events "<ScriptBlockAst/><![CDATA[x]]>" =
      [.single "ScriptBlockAst" (.ok .empty), .verbatim "x"] := rfl
  refine ⟨by decide +kernel, fun ⟨t, before, body, after, heq, hbefore, hafter, hbody⟩ => ?_⟩
  rw [hevents] at heq
  have hmem : Event.verbatim "x" ∈ before ++ body ++ after := by simp [← heq]
  rcases List.mem_append.mp hmem with hmem | hmem
  · rcases List.mem_append.mp hmem with hmem | hmem
    · exact absurd (hbefore _ hmem) (by decide)
    · cases hbody with
      | single => simp at hmem
      | pair tag closingTag attributes hcontent =>
        have hopening : Event.opening tag (.ok attributes) ∈
            [.single "ScriptBlockAst" (.ok .empty), .verbatim "x"] := by rw [heq]; simp
        simp at hopening
  · exact absurd (hafter _ hmem) (by decide)

end Unscramble.Document
