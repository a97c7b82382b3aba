import Unscramble.Proofs.Renaming.Names
import Unscramble.Proofs.Script.Forms

/-! References to variables in a printed script. What is printed is the same for all names of variables
but for the references, each of which is spelled with the name of its own node. So whatever does not
come from a node of a variable stays as it is when variables get other names. -/
namespace Unscramble.Script

open Unscramble.Tree

/-- Elements with other names. What is not a variable or a parameter stays as it is. -/
structure Renaming where
  new : Element → Element
  kind : ∀ e, (new e).kind = e.kind
  others : ∀ e, Simplify.nameKey? e.kind = none → new e = e

/-- A piece of a script, or a reference to a variable that is yet to be spelled. -/
inductive Token where
  | reference (e : Element)
  | fixed (p : Piece)

def Token.deeper (more : Nat) : Token → Token
  | .reference e => .reference e
  | .fixed p => .fixed (p.deeper more)

def Token.piece (r : Renaming) : Token → Piece
  | .reference e => .text (variableName (r.new e))
  | .fixed p => p

/-- The printed form of a tree whose variables have other names. -/
def part (r : Renaming) (t : Tree) : Printed := printed (t.mapElements r.new)

theorem part_node (r : Renaming) (e : Element) (cs : List Tree) :
    part r (.node e cs) = .mk (r.new e) (pieces (r.new e) (cs.map (part r))) (cs.map (part r)) := by
  rw [part, mapElements_node, printed_node, List.map_map]
  rfl

/-! ### Spelling -/

/-- A name that is written without braces does not begin with one. -/
theorem isPlainName_brace (rest : List Char) : isPlainName ('{' :: rest) = false := by
  have hletter : Text.isLetterOrNumber '{' = false := by decide +kernel
  have hchar : isNameChar '{' = false := by rw [isNameChar, hletter]; rfl
  unfold isPlainName
  rw [List.span_eq_takeWhile_dropWhile, List.takeWhile_cons_of_pos (by decide)]
  simp only [List.contains_cons, List.contains_nil]
  split
  next name hname =>
    obtain ⟨rfl, -⟩ := Prod.mk.inj hname
    simp [hchar]
  next scope _ name hname =>
    obtain ⟨rfl, -⟩ := Prod.mk.inj hname
    simp [hletter]

/-- What stands between the braces of a name. -/
def escapedName (path : List Char) : List Char :=
  path.flatMap fun c => if c == '}' || c == '`' then ['`', c] else [c]

theorem escapedName_injective {path path' : List Char} (h : escapedName path = escapedName path') :
    path = path' := by
  have hcons (c : Char) (rest : List Char) : escapedName (c :: rest) =
      (if c = '}' ∨ c = '`' then ['`', c] else [c]) ++ escapedName rest := by
    simp [escapedName]
  induction path generalizing path' with
  | nil =>
    cases path' with
    | nil => rfl
    | cons c' rest' =>
      rw [hcons] at h
      split at h <;> simp [escapedName] at h
  | cons c rest ih =>
    cases path' with
    | nil =>
      rw [hcons] at h
      split at h <;> simp [escapedName] at h
    | cons c' rest' =>
      rw [hcons, hcons] at h
      split at h <;> split at h <;>
        simp only [List.cons_append, List.nil_append, List.cons.injEq, true_and] at h
      next => rw [h.1, ih h.2]
      -- a backtick that stands for itself would have one before it
      next _ hplain => exact absurd (.inr h.1.symm) hplain
      next hplain _ => exact absurd (.inr h.1) hplain
      next => rw [h.1, ih h.2]

/-- A name behind its sigil. -/
def spelledName (path : List Char) : List Char :=
  if isPlainName path then path else '{' :: (escapedName path ++ ['}'])

theorem spelledName_injective {path path' : List Char} (h : spelledName path = spelledName path') :
    path = path' := by
  unfold spelledName at h
  split at h <;> split at h
  next => exact h
  next hplain _ =>
    rw [h, isPlainName_brace] at hplain
    cases hplain
  next _ hplain =>
    rw [← h, isPlainName_brace] at hplain
    cases hplain
  next => exact escapedName_injective (List.append_cancel_right (List.cons.inj h).2)

theorem variableName_eq (e : Element) : (variableName e).toList =
    (if e.flag "Splatted" then '@' else '$') :: spelledName (e.attr "VariablePath").toList := by
  unfold variableName spelledName
  cases e.flag "Splatted" <;> dsimp only <;> split <;> simp [escapedName]

/-- Variables that are spelled the same have the same name. -/
theorem variableName_injective {e e' : Element} (h : variableName e = variableName e') :
    e.attr "VariablePath" = e'.attr "VariablePath" := by
  have h := congrArg String.toList h
  rw [variableName_eq, variableName_eq] at h
  exact String.toList_inj.mp (spelledName_injective (List.cons.inj h).2)

/-! ### Pieces that depend on names through references alone -/

/-- Pieces that are the same for all names but for references to some elements. -/
def Natural (refs : Element → Prop) (pieces : Renaming → List Piece) : Prop :=
  ∃ tokens : List Token, (∀ e, .reference e ∈ tokens → refs e) ∧
    ∀ r, pieces r = tokens.map (Token.piece r)

section
variable {refs : Element → Prop} {P Q : Renaming → List Piece}

theorem Natural.fixed (pieces : List Piece) : Natural refs fun _ => pieces :=
  ⟨pieces.map .fixed, by simp, fun r => by simp [Function.comp_def, Token.piece]⟩

theorem Natural.reference {e : Element} (h : refs e) :
    Natural refs fun r => word (variableName (r.new e)) :=
  ⟨[.reference e], by simpa using h, fun _ => rfl⟩

theorem Natural.append (hP : Natural refs P) (hQ : Natural refs Q) : Natural refs fun r => P r ++ Q r := by
  obtain ⟨first, hfirst, hP⟩ := hP
  obtain ⟨second, hsecond, hQ⟩ := hQ
  refine ⟨first ++ second, fun e he => ?_, fun r => by simp only [hP, hQ, List.map_append]⟩
  exact (List.mem_append.mp he).elim (hfirst e) (hsecond e)

theorem Natural.map_deeper (more : Nat) (hP : Natural refs P) :
    Natural refs fun r => (P r).map (Piece.deeper more) := by
  obtain ⟨tokens, hrefs, hP⟩ := hP
  refine ⟨tokens.map (Token.deeper more), fun e he => ?_, fun r => ?_⟩
  · obtain ⟨token, htoken, heq⟩ := List.mem_map.mp he
    cases token with
    | reference e' => exact hrefs e (Token.reference.inj heq ▸ htoken)
    | fixed => cases heq
  · simp only [hP, List.map_map]
    refine List.map_congr_left fun token _ => ?_
    cases token <;> rfl

/-- Whether the first character is a sign does not depend on names, as a reference begins with none. -/
theorem Natural.sign (hP : Natural refs P) : ∃ sign, ∀ r, (firstChar? (P r)).any isSign = sign := by
  obtain ⟨tokens, -, hP⟩ := hP
  simp only [hP]
  clear hP
  induction tokens with
  | nil => exact ⟨false, fun _ => rfl⟩
  | cons token tokens ih =>
    match token with
    | .fixed (.line _) => exact ⟨false, fun _ => rfl⟩
    | .fixed (.text s) =>
      simp only [List.map_cons, Token.piece, firstChar?]
      cases s.toList with
      | nil => exact ih
      | cons c _ => exact ⟨isSign c, fun _ => rfl⟩
    | .reference e =>
      refine ⟨false, fun r => ?_⟩
      simp only [List.map_cons, Token.piece, firstChar?, variableName_eq, Option.any_some]
      cases (r.new e).flag "Splatted" <;> rfl

end

/-! ### Scripts -/

/-- Pieces of this kind, at a level that may be another one for other names. -/
def NaturalAt (refs : Element → Prop) (level : Renaming → Nat) (shown : Renaming → List Piece) : Prop :=
  ∃ P, Natural refs P ∧ ∀ r, shown r = (P r).map (Piece.deeper (level r))

theorem naturalAt_uniform (refs : Element → Prop) : Uniform part (NaturalAt refs) where
  kind r t := by
    obtain ⟨e, cs⟩ := t
    rw [part_node]
    exact r.kind e
  parts r t := by
    obtain ⟨e, cs⟩ := t
    rw [part_node]
    rfl
  nil _ := ⟨_, .fixed [], fun _ => rfl⟩
  text _ s := ⟨_, .fixed [.text s], fun _ => rfl⟩
  line _ := ⟨_, .fixed [.line 0], fun _ => rfl⟩
  append := by
    rintro level _ _ ⟨P, hP, hshown⟩ ⟨Q, hQ, hshown'⟩
    exact ⟨_, hP.append hQ, fun r => by simp only [hshown, hshown', List.map_append]⟩
  inner := by
    rintro level _ _ ⟨P, hP, hshown⟩ ⟨Q, hQ, hshown'⟩
    refine ⟨_, (hP.append (hQ.map_deeper 1)).append (.fixed [.line 0]), fun r => ?_⟩
    simp only [hshown, hshown', List.map_append, map_deeper_deeper]
    rfl
  sign := by
    rintro level _ ⟨P, hP, hshown⟩
    obtain ⟨sign, hsign⟩ := hP.sign
    exact ⟨sign, fun r => by rw [hshown, firstChar?_deeper, hsign]⟩

/-- A variable that is a node of a tree. -/
def IsVariableOf (root : Tree) (e : Element) : Prop :=
  e.kind = .variableRef ∧ ∃ u ∈ root.nodes, u.element = e

theorem pieces_variable {e : Element} (hkind : e.kind = .variableRef) (parts : List Printed) (level : Nat) :
    pieces e parts level = word (variableName e) := by
  unfold pieces
  rw [hkind]

theorem pieces_new (r : Renaming) {e : Element} (hkind : e.kind ≠ .variableRef) (parts : List Printed)
    (level : Nat) : pieces (r.new e) parts level = pieces e parts level := by
  cases hkey : Simplify.nameKey? e.kind with
  | none => rw [r.others e hkey]
  | some key =>
    have hparameter : e.kind = .parameter := by
      unfold Simplify.nameKey? at hkey
      split at hkey
      · exact absurd ‹_› hkind
      · assumption
      · cases hkey
    unfold pieces
    rw [r.kind, hparameter]

theorem node_naturalAt {refs : Element → Prop} {e : Element} {cs : List Tree} (h : Alike part (NaturalAt refs) cs)
    (he : e.kind = .variableRef → refs e) (level : Renaming → Nat) :
    NaturalAt refs level fun r => (part r (.node e cs)).pieces (level r) := by
  simp only [part_node, Printed.pieces]
  by_cases hkind : e.kind = .variableRef
  · simp only [pieces_variable ((Renaming.kind _ e).trans hkind)]
    exact ⟨_, .reference (he hkind), fun _ => rfl⟩
  · simp only [pieces_new _ hkind]
    exact h.pieces e level

/-- A printed script depends on names through references to its variables alone. -/
theorem scriptPieces_natural (t : Tree) :
    Natural (IsVariableOf t) fun r => scriptPieces (t.mapElements r.new) := by
  have huniform := naturalAt_uniform (IsVariableOf t)
  have halike : Alike part (NaturalAt (IsVariableOf t)) t.children := by
    refine huniform.alike fun e cs he hcs => node_naturalAt hcs fun hkind => ⟨hkind, .node e cs, ?_, rfl⟩
    exact nodes_eq t ▸ List.mem_cons_of_mem _ he
  obtain ⟨P, hP, hshown⟩ := halike.scriptBody fun _ => 0
  simp only [← huniform.parts, map_deeper_zero] at hshown
  exact funext hshown ▸ hP

/-- The text of an expandable string is printed as it is, whatever variables stand in it. -/
theorem printNode_expandable (width : Nat) (r : Renaming) {t : Tree} (h : t.kind = .expandableString) :
    printNode width (t.mapElements r.new) = printNode width t := by
  obtain ⟨e, cs⟩ := t
  have hkind : e.kind = .expandableString := h
  have hsame : r.new e = e := r.others e (by rw [hkind]; rfl)
  have hpieces (parts parts' : List Printed) : pieces e parts 0 = pieces e parts' 0 := by
    unfold pieces
    rw [hkind]
  rw [printNode, printNode, mapElements_node, printed, printed, hsame]
  exact congrArg _ (hpieces _ _)

end Unscramble.Script
