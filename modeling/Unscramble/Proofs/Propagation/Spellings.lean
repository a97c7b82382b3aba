import Unscramble.Proofs.Propagation.ReadsOnly
import Unscramble.Proofs.Renaming.Injective
import Unscramble.Proofs.Scripts.Removal

/-! The spellings of a variable. In a script without functions `$x`, `$script:x` and `$local:x` are one
variable, but the rules take them for three. Nothing that is spelled with a scope is removed or
replaced, and a variable without one is only removed or replaced as its own reads and writes allow.
What is read or written of it with a scope is missed, and nothing else is. -/
namespace Unscramble.Simplify

open Unscramble.Tree Scripts Traces

inductive Spelling where
  | bare
  | scriptScope
  | localScope
  deriving DecidableEq

namespace Spelling
variable {name path : String} {s : Spelling}

def key (name : String) : Spelling → String
  | .bare => name
  | .scriptScope => "script:" ++ name
  | .localScope => "local:" ++ name

theorem isQualified_key (h : s ≠ .bare) : Vocabulary.isQualified (s.key name) = true := by
  have hscope {scope : String} (hscope : ':' ∈ scope.toList) :
      Vocabulary.isQualified (scope ++ name) = true := by
    rw [Vocabulary.isQualified, List.contains_iff_mem, String.toList_append]
    exact List.mem_append_left _ hscope
  cases s with
  | bare => exact absurd rfl h
  | scriptScope => exact hscope (by decide)
  | localScope => exact hscope (by decide)

theorem eq_bare_of_not_isQualified (h : Vocabulary.isQualified (s.key name) = false) : s = .bare := by
  by_contra hs
  exact Bool.false_ne_true (h.symm.trans (isQualified_key hs))

/-- A variable of the script's own is spelled without a scope. -/
theorem eq_bare_of_not_isAmbient (h : Vocabulary.isAmbient (s.key name) = false) : s = .bare :=
  eq_bare_of_not_isQualified (Bool.or_eq_false_iff.mp h).1

theorem eq_bare_of_lower (hpath : Text.lower path = s.key name)
    (h : Vocabulary.isAmbient path = false) : s = .bare := by
  refine @eq_bare_of_not_isQualified name s ?_
  rw [← hpath, isQualified_lower]
  exact (Bool.or_eq_false_iff.mp h).1

end Spelling

/-- What the rules do to a variable in its three spellings. -/
structure TellsApart (t : Tree) : Prop where
  /-- If an assignment is dropped and the variable is read, it is read with a scope, and was written
  without one. -/
  removed : ∀ t', removeUnusedVariable t = some t' → ∃ written, Within (Splice (Drops written)) t t' ∧
    ∀ name s r, Spelling.key name s = written → ¬ Unread (Spelling.key name r) t →
      s = .bare ∧ r ≠ .bare
  /-- What is read with a scope is not replaced. -/
  replaced : ∀ t', propagateConstants t = some t' → Changes (fun u u' => Replaced u u' ∧
    ∀ name r, u.variableKey? = some (Spelling.key name r) → r = .bare) t t'
  /-- If a variable is written between the assignment of a literal and a read that the literal
  replaces, it is written in another spelling. -/
  since : ∀ t' p u name r before rest ending, propagateConstants t = some t' → t.at? p = some u →
    u.variableKey? = some (Spelling.key name r) → t'.at? p ≠ some u →
    Guarded (Spelling.key name r) t → Undisturbed (Spelling.key name r) t p →
    runs [] t (before ++ .read p :: rest) ending →
    ∃ v quoting earlier between, t'.at? p = some (v.toTree quoting) ∧
      before = earlier ++ .write (Spelling.key name r) (some v) :: between ∧
      ∀ w literal, .write (Spelling.key name w) literal ∈ between → w ≠ r

theorem tellsApart (t : Tree) : TellsApart t where
  removed t' h := by
    obtain ⟨hnames, written, ⟨hreads, path, hpath, hown⟩, hdrops⟩ := removeUnusedVariable_drops_own h
    refine ⟨written, hdrops, fun name s r hs hread => ?_⟩
    obtain rfl := Spelling.eq_bare_of_lower (hpath.trans hs.symm) hown
    refine ⟨rfl, fun hr => hread ?_⟩
    rw [hr, hs]
    exact unread_of_not_mem_reads hnames hreads
  replaced t' h := by
    refine (propagateConstants_replaced h).mono fun u u' hput => ⟨hput, fun name r hkey => ?_⟩
    obtain ⟨name', v, quoting, hname, -, hown, -⟩ := hput
    cases hkey.symm.trans hname
    exact Spelling.eq_bare_of_not_isAmbient hown
  since t' p u name r before rest ending h hu hkey hput hguarded hcalm hrun := by
    simp only [propagateConstants, Option.ite_none_left_eq_some, Option.ite_none_right_eq_some,
      Option.some.injEq] at h
    obtain ⟨-, -, rfl⟩ := h
    have hfollowed := followed (lower_of_variableKey? hkey) t hguarded (.ofTree t) none {} [] rfl rfl
    obtain ⟨v, quoting, hv, hlast⟩ :=
      (hfollowed none _ ending fits_nothing hrun).1 before p rest rfl hcalm u hu hkey hput
    obtain ⟨hnone, -⟩ | ⟨earlier, between, hbefore, hbetween⟩ := exists_write_of_after hlast
    · cases hnone
    · refine ⟨v, quoting, earlier, between, hv, hbefore, ?_⟩
      rintro w literal hwrite rfl
      exact hbetween _ hwrite rfl

/-- A script that ends in `$x = 1; $script:x = 2; left + $script:y`. -/
def spelledTwice (first : List Tree) (left : Tree) : Tree :=
  scriptOf (first ++ [setTo "x" 1, setTo "script:x" 2,
    statementOf (binaryOf "Plus" left (readOf "script:y"))])

/-- What a script that starts with `$y = 1` writes before the reads. -/
def writtenTwice : List Event :=
  [.write "y" (some (.int 1)), .write "x" (some (.int 1)), .write "script:x" (some (.int 2))]

theorem runs_spelledTwice : runs [] (spelledTwice [setTo "y" 1] (readOf "x"))
    (writtenTwice ++ [.read [0, 0, 3, 0, 0, 0, 0], .read [0, 0, 3, 0, 0, 0, 1]]) .done := by
  have hy : runs [0, 0, 0] (setTo "y" 1) [.write "y" (some (.int 1))] .done :=
    runs_setTo (by decide +kernel)
  have hx : runs [0, 0, 1] (setTo "x" 1) [.write "x" (some (.int 1))] .done :=
    runs_setTo (by decide +kernel)
  have hscope : runs [0, 0, 2] (setTo "script:x" 2) [.write "script:x" (some (.int 2))] .done :=
    runs_setTo (by decide +kernel)
  have hsum : runs [0, 0, 3] (statementOf (binaryOf "Plus" (readOf "x") (readOf "script:y")))
      ([.read [0, 0, 3, 0, 0, 0, 0]] ++ [.read [0, 0, 3, 0, 0, 0, 1]]) .done :=
    runs_sum (emits_all _) (emits_all _)
  have hlist : runsInOrder [0, 0] 0 (setTo "y" 1 :: [setTo "x" 1, setTo "script:x" 2,
      statementOf (binaryOf "Plus" (readOf "x") (readOf "script:y"))])
        (_ ++ (_ ++ (_ ++ (_ ++ [])))) .done :=
    both_done hy (both_done hx (both_done hscope (runsInOrder_one hsum)))
  have hblock : formOf ⟨.namedBlock, .ofList [("BlockKind", "End"), ("Unnamed", "True")], none⟩ =
      .inOrder := by decide +kernel
  have hall : runs [] (spelledTwice [setTo "y" 1] (readOf "x")) _ .done :=
    runs_wrapped rfl (runs_wrapped hblock (runs_inOrder rfl hlist))
  simp only [List.append_nil] at hall
  exact hall

theorem rewrites_spelledTwice :
    let t := spelledTwice [setTo "y" 1] (readOf "x")
    removeUnusedVariable t = some (spelledTwice [] (readOf "x")) ∧
      propagateConstants t = some (spelledTwice [setTo "y" 1] (intTree 1)) := by
  decide +kernel

theorem tellsApart_spelledTwice :
    let t := spelledTwice [setTo "y" 1] (readOf "x")
    let t₁ := spelledTwice [] (readOf "x")
    let t₂ := spelledTwice [setTo "y" 1] (intTree 1)
    removeUnusedVariable t = some t₁ ∧ propagateConstants t = some t₂ ∧
      (∃ written, Within (Splice (Drops written)) t t₁ ∧ ∀ name s r,
        Spelling.key name s = written → ¬ Unread (Spelling.key name r) t → s = .bare ∧ r ≠ .bare) ∧
      ∃ v quoting earlier between, t₂.at? [0, 0, 3, 0, 0, 0, 0] = some (v.toTree quoting) ∧
        writtenTwice = earlier ++ .write "x" (some v) :: between ∧
        ∀ w literal, .write (Spelling.key "x" w) literal ∈ between → w ≠ .bare := by
  intro t t₁ t₂
  obtain ⟨hremoved, hput⟩ : removeUnusedVariable t = some t₁ ∧ propagateConstants t = some t₂ :=
    rewrites_spelledTwice
  have hguarded : Guarded "x" t := ⟨by decide +kernel, by decide +kernel⟩
  exact ⟨hremoved, hput, (tellsApart t).removed t₁ hremoved,
    (tellsApart t).since t₂ _ (readOf "x") "x" .bare _ _ _ hput rfl (by decide +kernel)
      (by decide +kernel) hguarded (by decide +kernel) runs_spelledTwice⟩

/-- The assignment to `$y` is removed though `$script:y` is read, and `$x` is replaced by what it was
before `$script:x` was written. -/
theorem spelledTwice_taken_apart :
    let t := spelledTwice [setTo "y" 1] (readOf "x")
    let place := [0, 0, 3, 0, 0, 0, 0]
    removeUnusedVariable t = some (spelledTwice [] (readOf "x")) ∧
      ¬ Unread (Spelling.key "y" .scriptScope) t ∧
      propagateConstants t = some (spelledTwice [setTo "y" 1] (intTree 1)) ∧
      ∃ before rest, runs [] t (before ++ .read place :: rest) .done ∧
        ∃ earlier, before = earlier ++ [.write (Spelling.key "x" .bare) (some (.int 1)),
          .write (Spelling.key "x" .scriptScope) (some (.int 2))] := by
  intro t place
  refine ⟨rewrites_spelledTwice.1, fun hunread => ?_, rewrites_spelledTwice.2, writtenTwice, _,
    runs_spelledTwice, [.write "y" (some (.int 1))], rfl⟩
  have hsum : binaryOf "Plus" (readOf "x") (readOf "script:y") ∈ t.nodes := by decide +kernel
  have hplace := hunread _ hsum (i := 1) rfl (by decide +kernel)
  exact absurd hplace.2 (by decide)

end Unscramble.Simplify
