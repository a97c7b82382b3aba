import Mathlib.Algebra.BigOperators.Group.List.Basic
import Mathlib.Algebra.Order.Monoid.Lex
import Mathlib.Algebra.Order.Monoid.Prod
import Mathlib.Algebra.Order.Ring.Nat
import Mathlib.Data.Nat.Factorial.Basic
import Unscramble.Proofs.Rewriting.Catalog
import Unscramble.Proofs.Rewriting.Decrease
import Unscramble.Proofs.Spelling.Rank
import Unscramble.Proofs.Spelling.Words

/-! Commands that may come to run a script. A command that has its script written in it weighs more than
all shorter scripts together that could come out of that one, and a command whose script is not known yet
weighs more than any script. No rule but inlining makes a tree heavier in this sense. -/
namespace Unscramble

open Simplify Unscramble.Tree Text Vocabulary

/-! ### Names of commands -/

/-- A word that runs scripts as the name of a command. -/
def runsScripts (word : String) : Bool := lower word == "invoke-expression" || lower word == "iex"

theorem runsScripts_congr {a b : String} (h : sameIgnoringCase a b = true) :
    runsScripts a = runsScripts b := by
  rw [runsScripts, runsScripts, lower_congr h]

theorem runsScripts_alias {word target : String} (h : aliasTarget? word = some target)
    (htarget : runsScripts target = true) : runsScripts word = true := by
  have htable : ∀ entry ∈ aliases, runsScripts entry.2 = true → runsScripts entry.1 = true := by
    decide +kernel
  obtain ⟨entry, hentry, rfl⟩ := Option.map_eq_some_iff.mp h
  have hsame : sameIgnoringCase entry.1 word = true := by simpa using List.find?_some hentry
  rw [← runsScripts_congr hsame]
  exact htable entry (List.mem_of_find?_eq_some hentry) htarget

/-- A name of a command that runs no scripts. -/
def isOtherName (name : Tree) : Bool := name.isBareword && !runsScripts name.payload

theorem isOtherName_of_isInvokeExpression {name : Tree} (h : isInvokeExpression name = true) :
    isOtherName name = false := by
  have hruns : name.isBareword = true ∧ runsScripts name.payload = true := Bool.and_eq_true_iff.mp h
  rw [isOtherName, hruns.1, hruns.2]
  rfl

/-! ### Burdens -/

/-- A command whose name or whose script is not known yet, so that it may come to run any script. -/
def isOpen (t : Tree) : Bool :=
  t.is .commandElements && match t.children with
    | [] | [_] => false
    | [name, argument] => !isOtherName name && argument.quoting?.isNone
    | name :: _ :: _ :: _ => !isOtherName name

section
variable (size : String → Nat)

/-- What a command may have to inline because of its argument. A word without quotes is not a script. -/
def argumentBurden (argument : Tree) : Nat ×ₗ Nat :=
  if argument.quoting?.isNone then toLex (1, 0)
  else if argument.isBareword then 0
  else toLex (0, (size argument.payload).factorial)

def elementsBurden : List Tree → Nat ×ₗ Nat
  | [] | [_] => 0
  | [name, argument] => if isOtherName name then 0 else argumentBurden size argument
  | name :: _ :: _ :: _ => if isOtherName name then 0 else toLex (1, 0)

/-- What a node may have to inline if it is the elements of a command. -/
def burden (t : Tree) : Nat ×ₗ Nat := if t.is .commandElements then elementsBurden size t.children else 0

/-- The burden of all nodes of a tree. -/
def load (t : Tree) : Nat ×ₗ Nat := (t.nodes.map (burden size)).sum

def loadAll (ts : List Tree) : Nat ×ₗ Nat := ((nodesAll ts).map (burden size)).sum

end

section
variable {size : String → Nat} {s s' t t' u : Tree} {ss ts new before after : List Tree} {e : Element}

theorem lex_nonneg (x : Nat ×ₗ Nat) : 0 ≤ x := by
  obtain ⟨m, n⟩ := x
  refine Prod.Lex.toLex_le_toLex.mpr ?_
  change 0 < m ∨ 0 = m ∧ 0 ≤ n
  omega

theorem load_node (e : Element) (cs : List Tree) :
    load size (.node e cs) = burden size (.node e cs) + loadAll size cs := by
  rw [load, nodes, List.map_cons, List.sum_cons, loadAll]

@[simp] theorem loadAll_nil : loadAll size [] = 0 := rfl

@[simp] theorem loadAll_append (ss ts : List Tree) :
    loadAll size (ss ++ ts) = loadAll size ss + loadAll size ts := by
  simp [loadAll]

@[simp] theorem loadAll_cons (t : Tree) (ts : List Tree) :
    loadAll size (t :: ts) = load size t + loadAll size ts := by
  simp [loadAll, load, nodesAll]

theorem loadAll_singleton (t : Tree) : loadAll size [t] = load size t := by simp

theorem loadAll_eq_sum (ts : List Tree) : loadAll size ts = (ts.map (load size)).sum := by
  induction ts with
  | nil => rfl
  | cons t ts ih => rw [loadAll_cons, ih, List.map_cons, List.sum_cons]

theorem loadAll_reverse (ts : List Tree) : loadAll size ts.reverse = loadAll size ts := by
  rw [loadAll_eq_sum, loadAll_eq_sum]
  exact ((List.reverse_perm ts).map _).sum_eq

theorem loadAll_children_le (t : Tree) : loadAll size t.children ≤ load size t := by
  rw [← node_eta t, load_node, children_node]
  exact le_add_of_nonneg_left (lex_nonneg _)

theorem Drawn.load_le (h : Drawn ts new) : loadAll size new ≤ loadAll size ts := by
  induction h with
  | nil => exact le_rfl
  | skip _ ih =>
    rw [loadAll_cons]
    exact ih.trans (le_add_of_nonneg_left (lex_nonneg _))
  | take _ ih =>
    rw [loadAll_cons, loadAll_cons]
    exact add_le_add_right ih _
  | @enter t ts inner new _ _ ih ih' =>
    rw [loadAll_append, loadAll_cons]
    exact add_le_add (ih.trans (loadAll_children_le t)) ih'

theorem drawn_of_mem_nodesAll (h : u ∈ nodesAll ts) : Drawn ts [u] := by
  obtain ⟨t, ht, hu⟩ := mem_nodesAll.mp h
  clear h
  induction t using children_induction generalizing ts with
  | h e cs ih =>
    obtain rfl | ⟨c, hc, hu⟩ := mem_nodes_iff.mp hu
    · exact .of_sublist (List.singleton_sublist.mpr ht)
    · exact .of_mem ht (ih c hc hc hu)

theorem load_le_of_mem (h : u ∈ nodesAll ts) : load size u ≤ loadAll size ts :=
  loadAll_singleton u ▸ (drawn_of_mem_nodesAll h).load_le

theorem burden_of_kind (h : t.kind ≠ .commandElements) : burden size t = 0 :=
  if_neg fun hkind => h (is_iff.mp hkind)

/-- A tree without commands weighs nothing. -/
theorem load_eq_zero (h : ∀ s ∈ t.nodes, s.kind ≠ .commandElements) : load size t = 0 := by
  rw [load, List.sum_eq_zero]
  rintro x hx
  obtain ⟨s, hs, rfl⟩ := List.mem_map.mp hx
  exact burden_of_kind (h s hs)

/-! ### Other elements in a command -/

theorem argumentBurden_le_open (t : Tree) : argumentBurden size t ≤ toLex (1, 0) := by
  unfold argumentBurden
  split
  · exact le_rfl
  · split
    · exact lex_nonneg _
    · exact Prod.Lex.toLex_le_toLex.mpr (.inl Nat.zero_lt_one)

theorem elementsBurden_le_open (ts : List Tree) : elementsBurden size ts ≤ toLex (1, 0) := by
  unfold elementsBurden
  split
  case h_1 | h_2 => exact lex_nonneg _
  case h_3 =>
    split
    · exact lex_nonneg _
    · exact argumentBurden_le_open _
  case h_4 =>
    split
    · exact lex_nonneg _
    · exact le_rfl

theorem elementsBurden_other (h : isOtherName s = true) (ts : List Tree) :
    elementsBurden size (s :: ts) = 0 := by
  unfold elementsBurden
  split <;> simp_all

/-- A node that tells no more about the command that it is an element of. -/
structure Tamer (size : String → Nat) (s s' : Tree) : Prop where
  name : isOtherName s = true → isOtherName s' = true
  argument : argumentBurden size s' ≤ argumentBurden size s

theorem Tamer.elements (h : Tamer size s s') (before after : List Tree) :
    elementsBurden size (before ++ s' :: after) ≤ elementsBurden size (before ++ s :: after) := by
  have hname (x : Nat ×ₗ Nat) :
      (if isOtherName s' = true then 0 else x) ≤ if isOtherName s = true then 0 else x := by
    cases hs : isOtherName s with
    | true => rw [if_pos (h.name hs), if_pos rfl]
    | false =>
      rw [if_neg Bool.false_ne_true]
      split
      exacts [lex_nonneg x, le_rfl]
  obtain _ | ⟨name, before⟩ := before
  · obtain _ | ⟨argument, _ | _⟩ := after
    exacts [le_rfl, hname _, hname _]
  · obtain _ | ⟨argument, _ | _⟩ := before
    · obtain _ | _ := after
      · change (if isOtherName name = true then 0 else argumentBurden size s') ≤
          if isOtherName name = true then 0 else argumentBurden size s
        split
        exacts [le_rfl, h.argument]
      · exact le_rfl
    · exact le_rfl
    · exact le_rfl

theorem elementsBurden_erase (h : s.quoting? = none) (before after : List Tree) :
    elementsBurden size (before ++ after) ≤ elementsBurden size (before ++ s :: after) := by
  have hs : isOtherName s = false := by simp [isOtherName, isBareword, h]
  have hopen : argumentBurden size s = toLex (1, 0) := by simp [argumentBurden, h]
  obtain _ | ⟨name, before⟩ := before
  · obtain _ | ⟨argument, _ | _⟩ := after
    · exact le_rfl
    · exact lex_nonneg _
    · rw [List.nil_append, List.nil_append, elementsBurden.eq_4, hs, if_neg Bool.false_ne_true]
      exact elementsBurden_le_open _
  · cases hname : isOtherName name with
    | true => rw [List.cons_append, elementsBurden_other hname]; exact lex_nonneg _
    | false =>
      have hfull : elementsBurden size (name :: before ++ s :: after) = toLex (1, 0) := by
        obtain _ | ⟨argument, _ | _⟩ := before
        · obtain _ | _ := after <;> simp [elementsBurden, hname, hopen]
        · simp [elementsBurden, hname]
        · simp [elementsBurden, hname]
      rw [hfull]
      exact elementsBurden_le_open _

theorem Tamer.of_quoting? (h : s.quoting? = none) (s' : Tree) : Tamer size s s' where
  name hother := by simp [isOtherName, isBareword, h] at hother
  argument := by
    rw [show argumentBurden size s = toLex (1, 0) by simp [argumentBurden, h]]
    exact argumentBurden_le_open s'

/-! ### Steps -/

/-- A node that tells no more, of a tree that weighs no more. -/
structure Lighter (size : String → Nat) (s s' : Tree) : Prop extends Tamer size s s' where
  load : load size s' ≤ load size s

theorem Lighter.refl (s : Tree) : Lighter size s s := ⟨⟨id, le_rfl⟩, le_rfl⟩

theorem Lighter.trans (h : Lighter size s s') (k : Lighter size s' t) : Lighter size s t :=
  ⟨⟨k.name ∘ h.name, k.argument.trans h.argument⟩, k.load.trans h.load⟩

/-- Nothing is told by a node about its children. -/
theorem Tamer.of_element (e : Element) (ss ts : List Tree) : Tamer size (.node e ss) (.node e ts) :=
  ⟨id, le_rfl⟩

theorem burden_le (h : elementsBurden size ts ≤ elementsBurden size ss) :
    burden size (.node e ts) ≤ burden size (.node e ss) := by
  by_cases hkind : e.kind = .commandElements
  · simpa [burden, is, hkind] using h
  · rw [burden_of_kind (by exact hkind), burden_of_kind (by exact hkind)]

theorem Within.lighter {U : Tree → Tree → Prop} (hU : ∀ s s', U s s' → Lighter size s s')
    (h : Within U t t') : Lighter size t t' := by
  induction h with
  | here h => exact hU _ _ h
  | @inside e before s s' after _ ih =>
    refine ⟨.of_element e _ _, ?_⟩
    rw [load_node, load_node, loadAll_append, loadAll_append, loadAll_cons, loadAll_cons]
    exact add_le_add (burden_le (ih.elements before after))
      (add_le_add_right (add_le_add_left ih.load _) _)

/-- What makes one part lighter makes the whole tree lighter. -/
theorem Within.load_lt {U : Tree → Tree → Prop}
    (hU : ∀ s s', U s s' → Tamer size s s' ∧ load size s' < load size s) (h : Within U t t') :
    Tamer size t t' ∧ load size t' < load size t := by
  induction h with
  | here h => exact hU _ _ h
  | @inside e before s s' after _ ih =>
    refine ⟨.of_element e _ _, ?_⟩
    rw [load_node, load_node, loadAll_append, loadAll_append, loadAll_cons, loadAll_cons]
    exact add_lt_add_of_le_of_lt (burden_le (ih.1.elements before after))
      (add_lt_add_right (add_lt_add_left ih.2 _) _)

theorem Changes.lighter {U : Tree → Tree → Prop} (hU : ∀ s s', U s s' → Lighter size s s')
    (h : Changes U t t') : Lighter size t t' :=
  h.keeps (P := Lighter size t) (fun _ _ hstep hs => hs.trans (hstep.lighter hU)) (.refl t)

theorem quoting?_of_kind (h : s.kind ≠ .stringConstant) : s.quoting? = none :=
  Option.eq_none_iff_forall_ne_some.mpr fun _ hq => h (quoting?_eq_some hq).1

section
variable {r : Rule} {above : Tree}

theorem Literal.load_eq_zero (h : Literal r u) : load size u = 0 := by
  have hcommand : weigh (kindWeight fun k => if k = .commandElements then 1 else 0) u = 0 := by
    cases h with
    | value v quoting => exact weigh_toTree_kind (by decide) quoting v
    | truth | type => simp [boolTree, leaf, kindWeight]
  refine Unscramble.load_eq_zero fun s hs hkind => ?_
  have hle := element_le_weigh (w := kindWeight fun k => if k = .commandElements then 1 else 0) hs
  rw [hcommand, kindWeight, if_pos (by exact hkind)] at hle
  exact absurd hle (by decide)

theorem load_branch {kind : Kind} (h : kind ≠ .commandElements) (attributes : List (String × String))
    (cs : List Tree) : load size (branch kind attributes cs) = loadAll size cs := by
  rw [branch, load_node, burden_of_kind (by exact h), zero_add]

theorem load_conditional (guard : Tree) (statements : List Tree) :
    load size (conditional guard statements) = load size guard + loadAll size statements := by
  rw [conditional, load_branch (by decide), loadAll_cons, loadAll_singleton, load_branch (by decide),
    loadAll_singleton, load_branch (by decide)]

/-- What a rule puts in the place of a node was inside of it, or runs nothing. -/
theorem Exchange.load_le (h : Exchange r above s new) : loadAll size new ≤ load size s := by
  cases h with
  | emptyList | assignment | call => exact lex_nonneg _
  | inner _ hu _ =>
    rw [loadAll_singleton]
    exact (load_le_of_mem hu).trans (loadAll_children_le s)
  | literal _ hu =>
    rw [loadAll_singleton, hu.load_eq_zero]
    exact lex_nonneg _
  | decided _ hdrawn _ => exact hdrawn.load_le.trans (loadAll_children_le s)
  | @once _ _ before guard body list statements last _ _ hdrawn _ hlist _ hcs _ =>
    have hstatements : loadAll size statements ≤ load size body := by
      refine le_trans ?_ ((load_le_of_mem (child_mem_nodesAll hlist)).trans (loadAll_children_le body))
      refine le_trans ?_ (loadAll_children_le list)
      rw [hcs, loadAll_append]
      exact le_add_of_nonneg_right (lex_nonneg _)
    refine le_trans ?_ (hdrawn.load_le.trans (loadAll_children_le s))
    rw [loadAll_append, loadAll_append, loadAll_singleton, load_conditional, loadAll_cons,
      loadAll_singleton]
    exact add_le_add_right (add_le_add_right hstatements _) _

/-- What is replaced among the elements of a command says nothing about the command. -/
theorem Exchange.quoting?_eq_none (h : Exchange r above s new) :
    above.kind = .statements ∨ s.quoting? = none ∧ new.length ≤ 1 := by
  cases h with
  | emptyList hs =>
    refine .inr ⟨quoting?_of_kind fun hkind => ?_, Nat.zero_le 1⟩
    simp [isEmptyOptional, hkind, isOptionalList] at hs
  | inner hunwraps _ _ =>
    refine .inr ⟨quoting?_of_kind fun hkind => ?_, le_rfl⟩
    rw [hkind] at hunwraps
    cases hunwraps
  | literal hfolds _ =>
    refine .inr ⟨quoting?_of_kind fun hkind => ?_, le_rfl⟩
    rw [hkind] at hfolds
    cases hfolds
  | assignment habove | decided habove | once habove | call habove => exact .inl habove

theorem Exchange.lighter (h : Splice (Exchange r) t t') : Lighter size t t' := by
  obtain @⟨e, before, s, new, after, h⟩ := h
  refine ⟨.of_element e _ _, ?_⟩
  rw [load_node, load_node, loadAll_append, loadAll_append, loadAll_append, loadAll_cons, add_assoc]
  refine add_le_add ?_ (add_le_add_right (add_le_add_left h.load_le _) _)
  obtain habove | ⟨hs, hnew⟩ := h.quoting?_eq_none
  · rw [burden_of_kind (by simp_all), burden_of_kind (by simp_all)]
  · obtain _ | ⟨u, _ | _⟩ := new
    · exact burden_le (by simpa using elementsBurden_erase hs before after)
    · exact burden_le (by simpa using (Tamer.of_quoting? hs u).elements before after)
    · simp at hnew

theorem Update.lighter (h : Update r t t') : Lighter size t t' := by
  cases h with
  | @arms e cs cs' hkind hsub _ _ =>
    refine ⟨.of_element e _ _, ?_⟩
    rw [load_node, load_node, burden_of_kind (by simp [hkind]), burden_of_kind (by simp [hkind])]
    exact add_le_add_right (Drawn.of_sublist hsub).load_le _
  | @join e u hkind =>
    refine ⟨.of_quoting? (quoting?_of_kind (by simp [hkind])) _, ?_⟩
    have hempty : load size (stringTree .singleQuoted "") = 0 :=
      (Literal.value (r := .unaryJoin) (.text "") .singleQuoted).load_eq_zero
    rw [load_node, load_node, burden_of_kind (by simp [joinedElement]),
      burden_of_kind (by simp [hkind])]
    simp [hempty]
  | @reversed e cs hkind =>
    refine ⟨.of_quoting? (quoting?_of_kind (by simp [hkind])) _, ?_⟩
    rw [load_branch (by decide), loadAll_reverse, load_node]
    exact le_add_of_nonneg_left (lex_nonneg _)
  | @value _ quoting v hkind =>
    refine ⟨.of_quoting? (quoting?_of_kind (by simp [hkind])) _, ?_⟩
    rw [(Literal.value (r := .propagateConstants) v quoting).load_eq_zero]
    exact lex_nonneg _

theorem LocalStep.lighter (h : LocalStep r t t') : Lighter size t t' := by
  cases h with
  | exchange h => exact Exchange.lighter h
  | update h => exact h.lighter

/-! ### New spellings -/

theorem argumentBurden_bareword (h : s.isBareword = true) : argumentBurden size s = 0 := by
  rw [argumentBurden, isBareword_iff.mp h, if_neg (by simp), if_pos h]

/-- A word that runs scripts only if the old one did. -/
theorem Tamer.withText (h : s.isBareword = true) {new : String}
    (hnew : runsScripts new = true → runsScripts s.payload = true) (cs : List Tree) :
    Tamer size s (.node (Simplify.withText s new) cs) where
  name hother := by
    simp only [isOtherName, Bool.and_eq_true, Bool.not_eq_true'] at hother ⊢
    exact ⟨h, Bool.eq_false_iff.mpr fun hruns => Bool.eq_false_iff.mp hother.2 (hnew hruns)⟩
  argument := by
    rw [argumentBurden_bareword (by exact h)]
    exact lex_nonneg _

/-- Quotes that are taken off. -/
theorem Tamer.asBareword (h : isQuoted s = true) (text : Option String) (cs : List Tree) :
    Tamer size s (.node { Simplify.asBareword s with text } cs) where
  name hother := by
    simp only [isQuoted, isOtherName, Bool.and_eq_true, Bool.not_eq_true'] at h hother
    rw [h.2] at hother
    cases hother.1
  argument := by
    rw [argumentBurden_bareword (isBareword_asBareword h text cs)]
    exact lex_nonneg _

theorem Tamer.withAttr {cs : List Tree} {key : String} (hkey : key ≠ "StringConstantType")
    (value : String) : Tamer size (.node e cs) (.node (e.withAttr key value) cs) := by
  have hquoting : quoting? (.node (e.withAttr key value) cs) = quoting? (.node e cs) := by
    simp [quoting?, attr?, is, kind, hkey.symm]
  have hname : isOtherName (.node (e.withAttr key value) cs) = isOtherName (.node e cs) := by
    simp only [isOtherName, isBareword, hquoting]
    rfl
  refine ⟨fun hother => hname.trans hother, Eq.le ?_⟩
  simp only [argumentBurden, isBareword, hquoting]
  rfl

theorem Spells.tamer {threshold : Nat} {r : Rule} {e' : Element} {cs cs' : List Tree}
    (h : Spells threshold r (.node e cs) e') : Tamer size (.node e cs') (.node e' cs') := by
  cases h with
  | drive hbare hnew =>
    have hsame := runsScripts_congr (lowerDrive?_same hnew)
    exact .withText (s := .node e cs') hbare hsame.symm.trans cs'
  | case hbare =>
    have hsame := runsScripts_congr (canonicalCase_same (payload (.node e cs)))
    exact .withText (s := .node e cs') hbare hsame.symm.trans cs'
  | expand hbare htarget => exact .withText (s := .node e cs') hbare (runsScripts_alias htarget) cs'
  | member hquoted | command hquoted => exact .asBareword (s := .node e cs') hquoted _ cs'
  | path | special | constraint | type => exact .withAttr (by decide) _
  | name hkey =>
    refine .withAttr ?_ _
    rintro rfl
    unfold nameKey? at hkey
    split at hkey <;> simp at hkey

theorem Spelled.lighter {r : Rule} (h : Spelled r t t') : Lighter size t t' := by
  obtain @⟨_, e, e', _, cs, h⟩ := h
  refine ⟨h.tamer, Eq.le ?_⟩
  have hkind : is (.node e' cs) .commandElements = is (.node e cs) .commandElements :=
    congrArg (· == .commandElements) h.alike.kind
  have hburden : burden size (.node e' cs) = burden size (.node e cs) := by
    rw [burden, burden, hkind]
    rfl
  rw [load_node, load_node, hburden]

end

end
end Unscramble
