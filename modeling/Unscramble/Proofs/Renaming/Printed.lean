import Unscramble.Proofs.Inlining.Termination
import Unscramble.Proofs.Renaming.Injective
import Unscramble.Proofs.Rewriting.Outermost
import Unscramble.Proofs.Script.References

/-! What renaming does to the printed script. All references of a renamed variable are printed with its
new name. Nothing else in the script changes; in particular the text of an expandable string does not,
so that a variable that stands in it is still called by the name that it had. -/
namespace Unscramble

open Text Simplify Unscramble.Tree Script

theorem Reachable.generated {memory : Memory} (h : Reachable memory) : Generated memory := by
  induction h with
  | start => exact Generated.start
  | apply context rule t _ ih => exact Rule.apply_generated ih

namespace Simplify

section
variable {threshold : Nat} {new : String → String} {memory : Memory} {t : Tree}

theorem renameElement_of_no_key {e : Element} (h : nameKey? e.kind = none) : renameElement new e = e :=
  renameElement_of_unnamed (by rw [nameOf?, h, Option.bind_none])

/-- New names as a change of elements that leaves all but names alone. -/
def renamingBy (new : String → String) : Renaming where
  new := renameElement new
  kind := kind_renameElement new
  others _ := renameElement_of_no_key

/-- Variables that are spelled the same are the same but for the sigil in the name. -/
theorem bareName?_of_variableName {e e' : Element} {name name' : String} (hkind : e.kind = .variableRef)
    (hkind' : e'.kind = .variableRef) (hname : bareName? e = some name) (hname' : bareName? e' = some name')
    (h : variableName e = variableName e') : name = name' := by
  have hattr {e : Element} {name : String} (hkind : e.kind = .variableRef) (hname : bareName? e = some name) :
      (splitSigil (e.attr "VariablePath")).2 = name := by
    obtain ⟨full, hfull, hbare⟩ := Option.map_eq_some_iff.mp hname
    rw [nameOf?, hkind] at hfull
    rw [Element.attr, show e.attr? "VariablePath" = some full from hfull, Option.getD_some, hbare]
  rw [← hattr hkind hname, ← hattr hkind' hname', variableName_injective h]

/-- How a tree is printed before and after its variables get new names: as the same tokens, of which
those for variables with long names are spelled as no variable with the old name is. -/
structure RenamesPrinted (threshold : Nat) (t t' : Tree) (new : String → String) (tokens : List Token) :
    Prop where
  tree : t' = t.mapElements (renameElement new)
  /-- The tokens make up the script, whatever names its variables are given. -/
  printed : ∀ r : Renaming, scriptPieces (t.mapElements r.new) = tokens.map (Token.piece r)
  occur : ∀ e, .reference e ∈ tokens → IsVariableOf t e
  /-- All occurrences of a long name get one new name. -/
  names : ∀ u ∈ t.nodes, bareName? (renameElement new u.element) = (bareName? u.element).map new
  one : ∀ a ∈ namesIn t, ∀ b ∈ namesIn t, isLong threshold a = true → isLong threshold b = true →
    lower a = lower b → new a = new b
  respelled : ∀ e, .reference e ∈ tokens → ∀ name, bareName? e = some name → isLong threshold name = true →
    ∀ old : Element, old.kind = .variableRef → (bareName? old).map lower = some (lower name) →
      variableName (renameElement new e) ≠ variableName old
  /-- Strings are not respelled. -/
  strings : ∀ u ∈ t.nodes, u.kind = .expandableString → ∀ width,
    printNode width (u.mapElements (renameElement new)) = printNode width u

theorem newName_congr (hgenerated : Generated memory) {a b : String} (ha : a ∈ namesIn t)
    (hb : b ∈ namesIn t) (hlonga : isLong threshold a = true) (hlongb : isLong threshold b = true)
    (h : lower a = lower b) :
    newName threshold (renameLongNames threshold memory t).2 a =
      newName threshold (renameLongNames threshold memory t).2 b := by
  obtain ⟨m, -, hm, hnewa⟩ := newName_of_long hgenerated ha hlonga
  obtain ⟨n, -, hn, hnewb⟩ := newName_of_long hgenerated hb hlongb
  rw [hnewa, hnewb]
  exact Option.some.inj (hm.symm.trans ((replacement?_congr h).trans hn))

/-- A long name and what is put in its place are not the same in any case. -/
theorem lower_newName_ne (hgenerated : Generated memory) (hnames : NewNames memory) {name : String}
    (hname : name ∈ namesIn t) (hlong : isLong threshold name = true) :
    lower (newName threshold (renameLongNames threshold memory t).2 name) ≠ lower name := by
  obtain ⟨n, -, hreplacement, hnew⟩ := newName_of_long hgenerated hname hlong
  intro heq
  rw [hnew] at heq
  have hafter : NewNames (renameLongNames threshold memory t).2 := hnames.rename
  exact hafter.ne _ ((replacement?_congr heq).trans hreplacement)

end
end Simplify

/-- Whatever was remembered, one call of the rule respells all references to variables with long names
in the printed script, and no strings. -/
theorem Situation.renaming_respells_references (context : Context) {s : Situation} (h : Reachable s.memory) :
    ∃ new tokens, RenamesPrinted context.settings.renameThreshold s.tree
      (s.apply context .renameLongNames).tree new tokens := by
  obtain ⟨tokens, hoccur, hprinted⟩ := scriptPieces_natural s.tree
  refine ⟨newName context.settings.renameThreshold
    (renameLongNames context.settings.renameThreshold s.memory s.tree).2, tokens, ?_⟩
  have hafter : Generated (renameLongNames context.settings.renameThreshold s.memory s.tree).2 :=
    h.generated.rename
  have hnames := bareName?_renameElement (hafter.keepsSigils context.settings.renameThreshold)
  constructor
  case tree => exact renameLongNames_getD _ _ _
  case printed => exact hprinted
  case occur => exact hoccur
  case names => exact fun u _ => hnames u.element
  case one => exact fun a ha b hb => newName_congr h.generated ha hb
  case respelled =>
    intro e he name hname hlong old hkind hold hspelled
    obtain ⟨hvariable, u, hu, rfl⟩ := hoccur e he
    obtain ⟨other, hother, hlower⟩ := Option.map_eq_some_iff.mp hold
    have hmem : name ∈ namesIn s.tree := List.mem_filterMap.mpr ⟨u, hu, hname⟩
    have hnew := (hnames u.element).trans (congrArg _ hname)
    have hsame := bareName?_of_variableName ((kind_renameElement _ _).trans hvariable) hkind hnew hother hspelled
    exact lower_newName_ne h.generated h.newNames hmem hlong (by rw [hsame, hlower])
  case strings => exact fun u _ hkind width => printNode_expandable width (renamingBy _) hkind

/-- A variable that is written and read. -/
theorem Situation.renaming_respells_references_twice :
    let context : Context := { settings := { renameThreshold := 6 } }
    let name := leaf .variableRef [("VariablePath", "secret")] none
    let t := branch .scriptBlock [] [branch .namedBlock [("BlockKind", "End"), ("Unnamed", "True")]
      [branch .statements []
        [branch .assignment [("Operator", "Equals")] [name, branch .commandExpression [] [name]]]]]
    let s : Situation := ⟨t, {}⟩
    Reachable s.memory ∧ namesIn t = ["secret", "secret"] ∧
      namesIn (s.apply context .renameLongNames).tree = ["deob_0", "deob_0"] ∧
      ∃ new tokens, RenamesPrinted context.settings.renameThreshold s.tree
        (s.apply context .renameLongNames).tree new tokens := by
  intro context name t s
  have hmemory : Reachable s.memory := .start
  exact ⟨hmemory, by decide +kernel, by decide +kernel,
    Situation.renaming_respells_references context hmemory⟩

/-- A variable in a string: it gets a new name, but the text of the string, which is what is printed,
goes on with the old one. -/
theorem Situation.renaming_leaves_string :
    let context : Context := { settings := { renameThreshold := 6 } }
    let name := leaf .variableRef [("VariablePath", "secret")] none
    let number := leaf .constant [("StaticType", "int")] (some "1")
    let text : Tree := .node
      ⟨.expandableString, .ofList [("StringConstantType", "DoubleQuoted"), ("StaticType", "string")], some "a $secret"⟩
      [branch .nestedExpressions [] [name]]
    let t := branch .scriptBlock [] [branch .namedBlock [("BlockKind", "End"), ("Unnamed", "True")]
      [branch .statements []
        [branch .assignment [("Operator", "Equals")] [name, branch .commandExpression [] [number]],
          branch .commandExpression [] [text]]]]
    let s := (⟨t, {}⟩ : Situation).apply context .renameLongNames
    namesIn t = ["secret", "secret"] ∧ namesIn s.tree = ["deob_0", "deob_0"] ∧
      (s.tree.at? [0, 0]).map (printNode 4) = some "\n$deob_0 = 1;\n\"a $secret\";" := by
  decide +kernel

end Unscramble
