import Unscramble.Document.Reader
import Unscramble.Proofs.Document.Written

/-! A tree is read back from the document that it was written as, and what is read can be written. The
reader takes white space between tags for layout and everything else for what it is. -/
namespace Unscramble.Document

open Unscramble.Tree

/-- Reads events one after the other. -/
def readEvents (p : Position) (events : List Event) : Except Error Position := events.foldlM Position.step p

section
variable {p : Position} {events : List Event}

theorem readEvents_cons {event : Event} {q : Position} (h : p.step event = .ok q) :
    readEvents p (event :: events) = readEvents q events := by
  rw [readEvents, List.foldlM_cons, h]
  rfl

theorem readEvents_append {more : List Event} {q : Position} (h : readEvents p events = .ok q) :
    readEvents p (events ++ more) = readEvents q more := by
  rw [readEvents] at h
  rw [readEvents, List.foldlM_append, h]
  rfl

theorem readEvents_cons_eq_ok {event : Event} {q : Position} :
    readEvents p (event :: events) = .ok q ↔ ∃ p', p.step event = .ok p' ∧ readEvents p' events = .ok q := by
  cases hstep : p.step event with
  | error error => simp [readEvents, hstep, bind, Except.bind]
  | ok p' => simp [readEvents_cons hstep]

/-- A document is read to its end, outside of all elements and with its root closed. -/
theorem ofEvents_eq_ok {t : Tree} :
    ofEvents events = .ok t ↔ readEvents (.outside none) events = .ok (.outside (some t)) := by
  rw [ofEvents, ← readEvents]
  cases readEvents (.outside none) events with
  | error error => simp [Except.bind]
  | ok p => rcases p with (_ | root) | _ <;> simp [Except.bind, Position.finish]

/-! ### Reading what was written -/

theorem opened_inside (inner : Open) (outer : List Open) : (Position.inside inner outer).opened = inner :: outer :=
  rfl

theorem addTree_cons (t : Tree) (o : Open) (outer : List Open) :
    Position.addTree t (o :: outer) = .inside (o.addChild t) outer := rfl

theorem step_closing (tag : String) (inner : Open) (outer : List Open) :
    (Position.inside inner outer).step (.closing tag) = .ok (Position.addTree inner.close outer) := rfl

theorem step_opening (h : p.isAfterRoot = false) (tag : String) (attributes : Attributes) :
    p.step (.opening tag (.ok attributes)) = .ok (.inside (.start tag attributes) p.opened) := by
  simp [Position.step, h, Except.map]

theorem step_single (h : p.isAfterRoot = false) (tag : String) (attributes : Attributes) :
    p.step (.single tag (.ok attributes)) =
      .ok (Position.addTree (.node ⟨.ofTag tag, attributes, none⟩ []) p.opened) := by
  simp [Position.step, h, Except.map]

/-- The text in front of the first child, or of the closing tag if there is no child. -/
theorem readEvents_textEvents {tag : String} {attributes : Attributes} {outer : List Open} (s : String) :
    readEvents (.inside (.start tag attributes) outer) (textEvents s) =
      .ok (.inside ⟨tag, attributes, [], s⟩ outer) := by
  unfold textEvents
  split
  next h =>
    obtain rfl : s = "" := by simpa using h
    rfl
  next => simp [readEvents, Position.step, Open.start, Open.addText]

/-- Events that begin with the one of the first mark. -/
inductive Starts : List Mark → List Event → Prop
  | mark {mark marks events} (h : Meets mark.isText marks events) : Starts (mark :: marks) (mark.events ++ events)

/-- An open element that is going to have some text or none. A text has been met as a whole, and nothing is
added to it any more; without a text there has only been layout. -/
inductive Open.Expects (beside : Bool) (o : Open) : Option String → Prop
  | text (h : beside = true ∨ o.children ≠ []) : Expects beside o (some o.text)
  | layout (h : Text.isBlankText o.text = true) : Expects beside o none

/-- An open element with more children than another one, and maybe another text. -/
structure Open.Gains (o : Open) (ts : List Tree) (o' : Open) : Prop where
  tag : o'.tag = o.tag
  attributes : o'.attributes = o.attributes
  children : o'.children = ts.reverse ++ o.children

theorem Open.Gains.trans {o o' o'' : Open} {ts us : List Tree} (h : o.Gains ts o') (h' : o'.Gains us o'') :
    o.Gains (ts ++ us) o'' where
  tag := h'.tag.trans h.tag
  attributes := h'.attributes.trans h.attributes
  children := by rw [h'.children, h.children, List.reverse_append, List.append_assoc]

theorem Open.Gains.refl (o : Open) : o.Gains [] o := ⟨rfl, rfl, rfl⟩

section
variable {beside : Bool} {ms rest : List Mark} {inner : Open} {outer : List Open} {text : Option String}

/-- White space in front of a tag changes nothing that counts. -/
theorem Meets.starts_inside (outer : List Open) (h : Meets beside ms events) (hmarks : ms ≠ [])
    (hnext : ∀ mark ∈ ms.head?, mark.isText = false) (hinner : inner.Expects beside text) :
    ∃ inner' events', readEvents (.inside inner outer) events = readEvents (.inside inner' outer) events' ∧
      Starts ms events' ∧ inner.Gains [] inner' ∧ inner'.Expects beside text := by
  induction h generalizing inner with
  | nil => exact absurd rfl hmarks
  | mark h => exact ⟨inner, _, rfl, .mark h, .refl inner, hinner⟩
  | @gap ms events content hblank _ _ ih =>
    by_cases hchildren : inner.children = []
    · cases hinner with
      | text h => simp [hchildren] at h
      | layout h =>
        have hadded : Text.isBlankText (inner.addText content).text = true := by
          simpa [Open.addText, Text.isBlankText] using ⟨by simpa [Text.isBlankText] using h,
            by simpa [Text.isBlankText] using hblank⟩
        obtain ⟨inner', events', hread, hstarts, hgains, hexpects⟩ := ih hmarks hnext (.layout hadded)
        refine ⟨inner', events', ?_, hstarts, ⟨hgains.tag, hgains.attributes, hgains.children⟩, hexpects⟩
        rw [readEvents_cons (q := .inside (inner.addText content) outer) (by simp [Position.step, hchildren]), hread]
    · obtain ⟨inner', events', hread, hrest⟩ := ih hmarks hnext hinner
      refine ⟨inner', events', ?_, hrest⟩
      rw [readEvents_cons (q := .inside inner outer) (by simp [Position.step, hchildren, hblank]), hread]

/-- Behind the last mark there is nothing but white space. -/
theorem Meets.ends {root : Option Tree} (h : Meets beside [] events) :
    readEvents (.outside root) events = .ok (.outside root) := by
  generalize hmarks : ([] : List Mark) = ms at h
  induction h with
  | nil => rfl
  | mark => cases hmarks
  | gap hblank _ _ ih => rw [readEvents_cons (q := .outside root) (by simp [Position.step, hblank]), ih hmarks]

/-- An element is closed as the node that its tags stand for. -/
theorem Open.Expects.close_eq {e : Element} {cs : List Tree} (h : inner.Expects beside e.text)
    (hinner : (Open.start e.kind.tag e.attributes).Gains cs inner) (hclear : HasClearText (.node e cs))
    (hpair : ¬(e.text = none ∧ cs = [])) : inner.close = .node e cs := by
  obtain ⟨tag, attributes, children, s⟩ := inner
  obtain ⟨kind, attributes', text⟩ := e
  obtain ⟨htag, hattributes, hchildren⟩ := hinner
  obtain rfl : tag = kind.tag := htag
  obtain rfl : attributes = attributes' := hattributes
  obtain rfl : children = cs.reverse := by simpa [Open.start] using hchildren
  have h : Open.Expects beside _ text := h
  cases h with
  | text =>
    by_cases hcs : cs = []
    · simp [Open.close, hcs]
    · have hs : Text.isBlankText s = false := hclear (by simpa using hcs) s rfl
      simp [Open.close, hs]
  | layout hblank =>
    have hcs : cs ≠ [] := fun hcs => hpair ⟨rfl, hcs⟩
    have hs : Text.isBlankText s = true := hblank
    simp [Open.close, hcs, hs]

mutual

/-- What is met of a tree is read as that tree. -/
theorem Starts.read : (t : Tree) → Writable t → ∀ {p events rest}, Position.isAfterRoot p = false →
    Starts (marks t ++ rest) events →
    ∃ events', readEvents p events = readEvents (Position.addTree t p.opened) events' ∧ Meets false rest events'
  | .node e cs, ht, p, events, rest, hp, h => by
    obtain ⟨-, hclear, hcs⟩ := writable_node.mp ht
    by_cases hpair : e.text = none ∧ cs = []
    · obtain ⟨htext, rfl⟩ := hpair
      obtain ⟨kind, attributes, text⟩ := e
      obtain rfl : text = none := htext
      rw [marks_single rfl] at h
      obtain @⟨_, _, events, h⟩ := h
      refine ⟨events, ?_, h⟩
      rw [Mark.events, List.singleton_append, readEvents_cons (step_single hp _ _), ofTag_tag]
    · rw [marks_pair hpair] at h
      simp only [List.cons_append, List.append_assoc, List.nil_append] at h
      obtain @⟨_, _, events, h⟩ := h
      rw [Mark.events, List.singleton_append, readEvents_cons (step_opening hp _ _)]
      have hcontent : ∃ beside inner events', readEvents (.inside (.start e.kind.tag e.attributes) p.opened) events =
          readEvents (.inside inner p.opened) events' ∧
          Meets beside (marksAll cs ++ .closing e.kind.tag :: rest) events' ∧
          (Open.start e.kind.tag e.attributes).Gains [] inner ∧ inner.Expects beside e.text := by
        cases htext : e.text with
        | none =>
          rw [htext] at h
          exact ⟨false, _, events, rfl, h, .refl _, .layout rfl⟩
        | some s =>
          rw [htext] at h
          cases h with
          | gap _ hnext => exact absurd (hnext _ rfl) (by simp [Mark.isText])
          | @mark _ _ _ events h =>
            have hexpects : Open.Expects true ⟨e.kind.tag, e.attributes, [], s⟩ (some s) :=
              .text (o := ⟨e.kind.tag, e.attributes, [], s⟩) (.inl rfl)
            exact ⟨true, _, events, readEvents_append (readEvents_textEvents s), h, ⟨rfl, rfl, rfl⟩, hexpects⟩
      obtain ⟨beside, inner, events₁, hread₁, h₁, hgains₁, hexpects₁⟩ := hcontent
      obtain ⟨beside', inner', events₂, hread₂, h₂, hgains₂, hexpects₂⟩ := Meets.readAll cs hcs p.opened h₁ hexpects₁
      obtain ⟨inner'', events₃, hread₃, hstarts, hgains₃, hexpects₃⟩ :=
        h₂.starts_inside p.opened (by simp) (by rintro _ ⟨⟩; rfl) hexpects₂
      obtain @⟨_, _, events₄, h₄⟩ := hstarts
      have hgains : (Open.start e.kind.tag e.attributes).Gains cs inner'' := by
        simpa using (hgains₁.trans hgains₂).trans hgains₃
      refine ⟨events₄, ?_, h₄⟩
      rw [hread₁, hread₂, hread₃, Mark.events, List.singleton_append, readEvents_cons (step_closing _ _ _),
        hexpects₃.close_eq hgains hclear hpair]

theorem Meets.readAll : (ts : List Tree) → (∀ t ∈ ts, Writable t) → ∀ (outer) {beside events rest inner text},
    Meets beside (marksAll ts ++ rest) events → Open.Expects beside inner text →
    ∃ beside' inner' events', readEvents (.inside inner outer) events = readEvents (.inside inner' outer) events' ∧
      Meets beside' rest events' ∧ inner.Gains ts inner' ∧ inner'.Expects beside' text
  | [], _, _, beside, events, _, inner, _, h, hinner => ⟨beside, inner, events, rfl, h, .refl inner, hinner⟩
  | t :: ts, hts, outer, beside, events, rest, inner, text, h, hinner => by
    rw [marksAll, List.append_assoc] at h
    obtain ⟨inner₁, events₁, hread₁, hstarts, hgains₁, hexpects₁⟩ :=
      h.starts_inside outer (marks_append_ne_nil t _) (head?_marks t) hinner
    obtain ⟨events₂, hread₂, h₂⟩ := Starts.read t (hts t List.mem_cons_self) rfl hstarts (p := .inside inner₁ outer)
    rw [opened_inside, addTree_cons] at hread₂
    have hexpects₂ : (inner₁.addChild t).Expects false text := by
      cases hexpects₁ with
      | text => exact .text (o := inner₁.addChild t) (.inr (by simp [Open.addChild]))
      | layout hblank => exact .layout hblank
    have hgains₂ : inner₁.Gains [t] (inner₁.addChild t) := ⟨rfl, rfl, rfl⟩
    obtain ⟨beside', inner', events', hread, hrest, hgains, hexpects⟩ :=
      Meets.readAll ts (fun u hu => hts u (List.mem_cons_of_mem _ hu)) outer h₂ hexpects₂
    exact ⟨beside', inner', events', by rw [hread₁, hread₂, hread], hrest,
      (hgains₁.trans hgains₂).trans hgains, hexpects⟩

end

end
end

/-! ### Writing what was read -/

/-- Events whose names are names of the markup. -/
def Event.Named : Event → Prop
  | .opening tag (.ok attributes) | .single tag (.ok attributes) => IsTag tag attributes
  | _ => True

instance : DecidablePred Event.Named
  | .opening _ (.ok _) | .single _ (.ok _) => inferInstanceAs (Decidable (IsTag _ _))
  | .opening _ (.error _) | .single _ (.error _) | .closing _ | .text _ | .verbatim _ | .layout
  | .flaw _ => inferInstanceAs (Decidable True)

/-- The names and the attributes that an event brings with it satisfy a condition. -/
def Event.Brings (N : String → Attributes → Prop) : Event → Prop
  | .opening tag (.ok attributes) | .single tag (.ok attributes) => N tag attributes
  | _ => True

/-- Nodes with such names and attributes, as a reader makes them: text in front of children is more than
white space. -/
def Gathered (N : String → Attributes → Prop) (t : Tree) : Prop :=
  ∀ u ∈ t.nodes, N u.kind.tag u.element.attributes ∧ HasClearText u

/-- What an element that was opened holds so far. -/
structure Open.Gathered (N : String → Attributes → Prop) (o : Open) : Prop where
  here : N o.tag o.attributes
  children : ∀ t ∈ o.children, Document.Gathered N t

def Position.Gathered (N : String → Attributes → Prop) : Position → Prop
  | .outside root => ∀ t ∈ root, Document.Gathered N t
  | .inside inner outer => ∀ o ∈ inner :: outer, Open.Gathered N o

section
variable {N : String → Attributes → Prop} {p q : Position} {t : Tree} {outer : List Open}

theorem gathered_ofTag {tag : String} {attributes : Attributes} {text : Option String} {cs : List Tree}
    (htag : N tag attributes) (hclear : HasClearText (.node ⟨.ofTag tag, attributes, text⟩ cs))
    (hcs : ∀ c ∈ cs, Gathered N c) : Gathered N (.node ⟨.ofTag tag, attributes, text⟩ cs) := by
  intro u hu
  rcases mem_nodes_iff.mp hu with rfl | ⟨c, hc, hu⟩
  · exact ⟨by simpa using htag, hclear⟩
  · exact hcs c hc u hu

theorem Open.Gathered.close {o : Open} (h : o.Gathered N) : Document.Gathered N o.close := by
  refine gathered_ofTag h.here (fun hchildren s hs => ?_) fun c hc => h.children c (List.mem_reverse.mp hc)
  have hne : o.children ≠ [] := by simpa using hchildren
  simp only [element_node, List.isEmpty_eq_false_iff.mpr hne, Bool.false_or, Bool.not_eq_true',
    Option.mem_def, Option.ite_none_right_eq_some, Option.some.injEq] at hs
  rw [← hs.2]
  exact hs.1

theorem gathered_addTree (ht : Gathered N t) (h : ∀ o ∈ outer, Open.Gathered N o) :
    (Position.addTree t outer).Gathered N := by
  cases outer with
  | nil =>
    intro u hu
    cases hu
    exact ht
  | cons o outer =>
    obtain ⟨ho, houter⟩ := List.forall_mem_cons.mp h
    exact List.forall_mem_cons.mpr ⟨⟨ho.here, List.forall_mem_cons.mpr ⟨ht, ho.children⟩⟩, houter⟩

theorem Position.Gathered.opened (h : p.Gathered N) : ∀ o ∈ p.opened, Open.Gathered N o := by
  cases p with
  | outside root => simp [Position.opened]
  | inside inner outer => exact h

theorem gathered_addText {inner : Open} (h : (Position.inside inner outer).Gathered N)
    (s : String) : (Position.inside (inner.addText s) outer).Gathered N := by
  obtain ⟨hinner, houter⟩ := List.forall_mem_cons.mp h
  exact List.forall_mem_cons.mpr ⟨⟨hinner.here, hinner.children⟩, houter⟩

/-- One event adds nothing but what it brings with it. -/
theorem Position.Gathered.step (h : p.Gathered N) {event : Event} (hevent : event.Brings N)
    (hq : p.step event = .ok q) : q.Gathered N := by
  cases event with
  | opening tag attributes =>
    simp only [Position.step] at hq
    split at hq
    next => cases hq
    next =>
      cases attributes with
      | error => cases hq
      | ok attributes =>
        cases hq
        exact List.forall_mem_cons.mpr ⟨⟨hevent, by simp [Open.start]⟩, h.opened⟩
  | single tag attributes =>
    simp only [Position.step] at hq
    split at hq
    next => cases hq
    next =>
      cases attributes with
      | error => cases hq
      | ok attributes =>
        cases hq
        exact gathered_addTree (gathered_ofTag hevent (by simp [HasClearText]) (by simp)) h.opened
  | closing tag =>
    cases p with
    | outside root => cases hq
    | inside inner outer =>
      cases hq
      obtain ⟨hinner, houter⟩ := List.forall_mem_cons.mp h
      exact gathered_addTree hinner.close houter
  | text content =>
    cases p with
    | outside root =>
      simp only [Position.step] at hq
      split at hq <;> cases hq
      exact h
    | inside inner outer =>
      simp only [Position.step] at hq
      split at hq <;> cases hq
      · exact gathered_addText h content
      · exact h
  | verbatim content =>
    cases p with
    | outside root => cases hq; exact h
    | inside inner outer => cases hq; exact gathered_addText h content
  | layout => cases hq; exact h
  | flaw error => cases hq

theorem Position.Gathered.read {events : List Event} (h : p.Gathered N) (hevents : ∀ e ∈ events, e.Brings N)
    (hq : readEvents p events = .ok q) : q.Gathered N := by
  induction events generalizing p with
  | nil => cases hq; exact h
  | cons event events ih =>
    obtain ⟨hevent, hevents⟩ := List.forall_mem_cons.mp hevents
    obtain ⟨p', hstep, hq⟩ := readEvents_cons_eq_ok.mp hq
    exact ih (h.step hevent hstep) hevents hq

end

section
variable {events : List Event} {t : Tree}

end

end Unscramble.Document
