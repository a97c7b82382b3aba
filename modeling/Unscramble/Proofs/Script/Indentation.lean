import Unscramble.Proofs.Script.Forms

/-! The indentation of a printed script. The width of the indentation and the level of a node move line breaks and
touch nothing else, though whether an operand is put in parentheses is read off what has been printed of it. -/
namespace Unscramble.Script

open Unscramble.Tree

/-- The level of the line that is printed on after some pieces. -/
def levelAfter (level : Nat) : List Piece → Nat
  | [] => level
  | .text _ :: ps => levelAfter level ps
  | .line k :: ps => levelAfter k ps

/-! ### Pieces -/

theorem levelAfter_append (level : Nat) (ps qs : List Piece) :
    levelAfter level (ps ++ qs) = levelAfter (levelAfter level ps) qs := by
  induction ps generalizing level with
  | nil => rfl
  | cons p ps ih => cases p <;> exact ih _

theorem levelAfter_deeper (level more : Nat) (ps : List Piece) :
    levelAfter (more + level) (ps.map (.deeper more)) = more + levelAfter level ps := by
  induction ps generalizing level with
  | nil => rfl
  | cons p ps ih => cases p <;> exact ih _

theorem render_append (width : Nat) (ps qs : List Piece) :
    render width (ps ++ qs) = render width ps ++ render width qs := by
  rw [render, List.map_append, String.join_append, render, render]

theorem render_word (width : Nat) (s : String) : render width (word s) = s := by
  simp [render, word, Piece.render]

/-- The first character can be read off the text, at any width. -/
theorem firstChar?_eq_head? (width : Nat) (ps : List Piece) :
    firstChar? ps = (render width ps).toList.head? := by
  induction ps with
  | nil => rfl
  | cons p ps ih =>
    have hcons : render width (p :: ps) = p.render width ++ render width ps := by simp [render]
    rw [hcons, String.toList_append, List.head?_append, ← ih]
    cases p with
    | line level => simp [firstChar?, Piece.render]
    | text s => cases hs : s.toList <;> simp [firstChar?, Piece.render, hs]

/-! ### Printing in pieces and as text -/

/-- A tree in pieces, or as finished text of some width. -/
def formOf : Option Nat → Tree → Printed
  | none => printed
  | some width => typeset width

/-- What is printed in one of these forms is what some pieces are. -/
def Shows : Option Nat → List Piece → List Piece → Prop
  | none, shown, ps => shown = ps
  | some width, shown, ps => render width shown = render width ps

/-- Pieces at all levels and in all forms come from one list of pieces, and the line after them is on the level of
the line before. A number goes with each form, so that one form can be looked at on all levels. -/
def Indented (level : Nat × Option Nat → Nat) (shown : Nat × Option Nat → List Piece) : Prop :=
  ∃ ps, levelAfter 0 ps = 0 ∧ ∀ i, Shows i.2 (shown i) (ps.map (.deeper (level i)))

theorem Shows.of_eq {form : Option Nat} {shown ps : List Piece} (h : shown = ps) : Shows form shown ps := by
  cases form with
  | none => exact h
  | some width => exact congrArg (render width) h

theorem Shows.append {form : Option Nat} {shown shown' ps qs : List Piece} (h : Shows form shown ps)
    (h' : Shows form shown' qs) : Shows form (shown ++ shown') (ps ++ qs) := by
  cases form with
  | none => exact congrArg₂ (· ++ ·) h h'
  | some width =>
    simp only [Shows, render_append] at h h' ⊢
    rw [h, h']

theorem Shows.firstChar? {form : Option Nat} {shown ps : List Piece} (h : Shows form shown ps) :
    firstChar? shown = firstChar? ps := by
  cases form with
  | none => exact congrArg _ h
  | some width => rw [firstChar?_eq_head? width, h, ← firstChar?_eq_head?]

section
variable {level : Nat × Option Nat → Nat} {shown shown' : Nat × Option Nat → List Piece}

theorem Indented.text (s : String) : Indented level fun _ => [.text s] :=
  ⟨[.text s], rfl, fun _ => .of_eq rfl⟩

theorem Indented.append (h : Indented level shown) (h' : Indented level shown') :
    Indented level fun i => shown i ++ shown' i := by
  obtain ⟨ps, hlevel, hps⟩ := h
  obtain ⟨qs, hlevel', hqs⟩ := h'
  refine ⟨ps ++ qs, by rw [levelAfter_append, hlevel, hlevel'], fun i => ?_⟩
  rw [List.map_append]
  exact (hps i).append (hqs i)

/-- Whatever is printed further in ends on a line of its own, so the level is the same behind it. -/
theorem Indented.inner (h : Indented level shown) (h' : Indented (fun i => level i + 1) shown') :
    Indented level fun i => shown i ++ shown' i ++ [.line (level i)] := by
  obtain ⟨ps, -, hps⟩ := h
  obtain ⟨qs, -, hqs⟩ := h'
  refine ⟨ps ++ qs.map (.deeper 1) ++ [.line 0], by rw [levelAfter_append]; rfl, fun i => ?_⟩
  rw [List.map_append, List.map_append, map_deeper_deeper]
  exact ((hps i).append (hqs i)).append (.of_eq rfl)

theorem Indented.sign (h : Indented level shown) : ∃ sign, ∀ i, (firstChar? (shown i)).any isSign = sign := by
  obtain ⟨ps, -, hps⟩ := h
  exact ⟨_, fun i => by rw [(hps i).firstChar?, firstChar?_deeper]⟩

end

theorem typesetAll_eq_map (width : Nat) (ts : List Tree) : typesetAll width ts = ts.map (typeset width) := by
  induction ts with
  | nil => rfl
  | cons t ts ih => rw [typesetAll, ih, List.map_cons]

theorem typeset_node (width : Nat) (e : Element) (cs : List Tree) : typeset width (.node e cs) =
    .mk e (fun level => word (render width (pieces e (cs.map (typeset width)) level))) (cs.map (typeset width)) := by
  rw [typeset, typesetAll_eq_map]

theorem formOf_node (form : Option Nat) (e : Element) (cs : List Tree) :
    ∃ shown, formOf form (.node e cs) = .mk e shown (cs.map (formOf form)) := by
  cases form with
  | none => exact ⟨_, printed_node e cs⟩
  | some width => exact ⟨_, typeset_node width e cs⟩

theorem indented_uniform : Uniform (fun i : Nat × Option Nat => formOf i.2) Indented where
  kind i t := by
    obtain ⟨e, cs⟩ := t
    obtain ⟨shown, hnode⟩ := formOf_node i.2 e cs
    rw [hnode]
    rfl
  parts i t := by
    obtain ⟨e, cs⟩ := t
    obtain ⟨shown, hnode⟩ := formOf_node i.2 e cs
    rw [hnode]
    rfl
  nil _ := ⟨[], rfl, fun _ => .of_eq rfl⟩
  text _ s := .text s
  line _ := ⟨[.line 0], rfl, fun _ => .of_eq rfl⟩
  append := .append
  inner := .inner
  sign := Indented.sign

/-- All nodes have one list of pieces each, whatever the level and the form. -/
theorem indented_alike (ts : List Tree) :
    Alike (fun i : Nat × Option Nat => formOf i.2) Indented ts := by
  refine indented_uniform.alike fun e cs _ hcs level => ?_
  obtain ⟨ps, hlevel, hps⟩ := hcs.pieces e level
  refine ⟨ps, hlevel, fun i => ?_⟩
  obtain ⟨l, _ | width⟩ := i
  · simp only [formOf, printed_node]
    exact hps (l, none)
  · simp only [formOf, typeset_node]
    exact (render_word width _).trans (hps (l, some width))

theorem exists_pieces (t : Tree) : ∃ ps, levelAfter 0 ps = 0 ∧ ∀ level,
    (printed t).pieces level = ps.map (Piece.deeper level) ∧
    ∀ width, render width ((typeset width t).pieces level) = render width (ps.map (Piece.deeper level)) := by
  obtain ⟨ps, hlevel, hps⟩ := (indented_alike [t]).mem (List.mem_singleton_self t) Prod.fst
  exact ⟨ps, hlevel, fun level => ⟨hps (level, none), fun width => hps (level, some width)⟩⟩

theorem scriptPieces_typeset (t : Tree) : levelAfter 0 (scriptPieces t) = 0 ∧
    ∀ width, render width (scriptBody 0 (typeset width t).parts) = render width (scriptPieces t) := by
  obtain ⟨ps, hlevel, hps⟩ := (indented_alike t.children).scriptBody fun _ => 0
  simp only [← indented_uniform.parts, map_deeper_zero] at hps
  have hscript : scriptPieces t = ps := hps (0, none)
  exact ⟨hscript ▸ hlevel, fun width => hscript ▸ hps (0, some width)⟩

theorem pieces_string {t : Tree} (h : t.kind = .stringConstant ∨ t.kind = .expandableString) (level : Nat) :
    ∃ text, (printed t).pieces level = [.text text] := by
  obtain ⟨e, cs⟩ := t
  change e.kind = _ ∨ e.kind = _ at h
  rw [printed_node, Printed.pieces]
  unfold pieces
  obtain h | h := h <;> rw [h] <;> exact ⟨_, rfl⟩

/-- The indentation of a script is the last thing that is chosen. A script is one list of pieces at all widths, and
that is also what comes out if every node is finished text, at the width, before it is put into the nodes above it.
Each node has such a list, which its level moves as a whole, so that the level behind the node is the one before it,
and a string is one piece of it. -/
theorem indentation_apart (t : Tree) :
    (∃ ps, levelAfter 0 ps = 0 ∧ ∀ width,
      print width t = String.ofList ((render width ps).toList.dropWhile (· == '\n')) ++ "\n" ∧
      typesetScript width t = print width t) ∧
    ∀ s ∈ t.nodes, ∃ ps, ∀ level,
      (printed s).pieces level = ps.map (Piece.deeper level) ∧
      levelAfter level ((printed s).pieces level) = level ∧
      (∀ width, render width ((typeset width s).pieces level) = render width ((printed s).pieces level)) ∧
      (s.kind = .stringConstant ∨ s.kind = .expandableString → ∃ text, ps = [.text text]) := by
  constructor
  · obtain ⟨hlevel, htypeset⟩ := scriptPieces_typeset t
    refine ⟨scriptPieces t, hlevel, fun width => ⟨rfl, ?_⟩⟩
    rw [typesetScript, htypeset, print]
  · intro s _
    obtain ⟨ps, hlevel, hps⟩ := exists_pieces s
    refine ⟨ps, fun level => ?_⟩
    obtain ⟨hpieces, htypeset⟩ := hps level
    refine ⟨hpieces, ?_, fun width => by rw [htypeset, hpieces], fun hkind => ?_⟩
    · simpa [hpieces, hlevel] using levelAfter_deeper 0 level ps
    · have hword := pieces_string hkind 0
      rwa [(hps 0).1, map_deeper_zero] at hword

/-- A block with a string of two lines, whose second line is not indented, and with a sign in front of a sign, which
is put in parentheses. -/
theorem indentation_apart_lines :
    let s := leaf .stringConstant [("StringConstantType", "SingleQuoted")] (some "one\ntwo")
    let minus := branch .unaryExpression [("TokenKind", "Minus")] [leaf .constant [] (some "-1")]
    let body := branch .statementBlock []
      [branch .statements [] [branch .commandExpression [] [s], branch .commandExpression [] [minus]]]
    let t := branch .scriptBlock [] [branch .namedBlock [("BlockKind", "End"), ("Unnamed", "True")]
      [branch .statements [] [branch .tryCatch [] [body]]]]
    s ∈ t.nodes ∧ typesetScript 1 t = "try \x7b\n 'one\ntwo';\n -(-1);\n\x7d\n" ∧
      print 1 t = "try \x7b\n 'one\ntwo';\n -(-1);\n\x7d\n" ∧
      print 2 t = "try \x7b\n  'one\ntwo';\n  -(-1);\n\x7d\n" ∧
      ∃ text, ∀ level, (printed s).pieces level = [.text text] := by
  intro s minus body t
  have hs : s ∈ t.nodes := by decide +kernel
  obtain ⟨⟨_, _, hwidths⟩, hnodes⟩ := indentation_apart t
  obtain ⟨ps, hps⟩ := hnodes s hs
  obtain ⟨text, rfl⟩ := (hps 0).2.2.2 (.inl rfl)
  have hprint : print 1 t = "try \x7b\n 'one\ntwo';\n -(-1);\n\x7d\n" := by decide +kernel
  exact ⟨hs, (hwidths 1).2.trans hprint, hprint, by decide +kernel, text, fun level => (hps level).1⟩

end Unscramble.Script
