import Unscramble.Proofs.Rewriting.Rules

/-! The two rules that work on a list of statements: the reversal of an assigned array, which takes
a call out of the list, and the inlining of a script, which puts foreign statements into it. -/
namespace Unscramble

open Simplify

theorem Place.On.child_at {t : Tree} {p q : Place} {i : Nat} (h : On t p) (hq : p.up? = some q)
    (hi : p.position? = some i) : q.tree.children[i]? = some p.tree := by
  cases h with
  | root => simp [Place.up?] at hq
  | child _ hc =>
    simp only [Place.up?, Option.some.injEq] at hq
    simp only [Place.position?, List.head?_cons, Option.map_some, Option.some.injEq] at hi
    subst hq hi
    exact hc

theorem Place.parent?_of_up? {p q : Place} (h : p.up? = some q) : p.parent? = some q.tree := by
  obtain ⟨trail, tree⟩ := p
  cases trail with
  | nil => cases h
  | cons above trail => cases h; rfl

namespace Tree

theorem unwrapStatement_mem : (t : Tree) → t.unwrapStatement ∈ t.nodes
  | .node e [c] => by
    rw [unwrapStatement]
    split
    · exact mem_nodes_of_child (by simp) (unwrapStatement_mem c)
    · exact mem_nodes_self _
  | .node _ [] => mem_nodes_self _
  | .node _ (_ :: _ :: _) => mem_nodes_self _

/-- A change of the expression that a statement carries is a change of the statement. -/
theorem within_mapCore {U : Tree → Tree → Prop} {f : Tree → Tree} : (t : Tree) →
    Within U t.unwrapStatement (f t.unwrapStatement) → Within U t (t.mapCore f)
  | .node e [c], h => by
    rw [unwrapStatement] at h
    rw [mapCore]
    split
    next hw =>
      rw [if_pos hw] at h
      exact @Within.inside _ e [] _ _ [] (within_mapCore c h)
    next hw => rwa [if_neg hw] at h
  | .node _ [], h => h
  | .node _ (_ :: _ :: _), h => h

end Tree

namespace Simplify
variable {t t' : Tree}

theorem within_reverseFirstElements {e : Element} (before : List Tree) {cs : List Tree}
    (h : ∃ c ∈ cs, c.kind = .elements) :
    Within (LocalStep .reverseConstArray) (.node e (before ++ cs))
      (.node e (before ++ reverseFirstElements cs)) := by
  induction cs generalizing before with
  | nil => simp at h
  | cons c cs ih =>
    rw [reverseFirstElements]
    split
    next hc =>
      obtain ⟨f, ds⟩ := c
      exact .inside (.here (.update (.reversed (Tree.is_iff.mp hc))))
    next hc =>
      obtain ⟨d, hd, hkind⟩ := h
      rcases List.mem_cons.mp hd with rfl | hd
      · exact absurd (Tree.is_iff.mpr hkind) hc
      · simpa using ih (before ++ [c]) ⟨d, hd, hkind⟩

theorem reverseAssigned?_within {name : String} {s s' : Tree} (h : reverseAssigned? name s = some s') :
    Within (LocalStep .reverseConstArray) s s' := by
  unfold reverseAssigned? at h
  split at h
  next target value rest _ hcs =>
    simp only [Option.ite_none_right_eq_some, Bool.and_eq_true, Option.some.injEq] at h
    obtain ⟨⟨-, hitems⟩, rfl⟩ := h
    obtain ⟨e, cs⟩ := s
    simp only [Tree.children_node] at hcs
    subst hcs
    refine @Within.inside _ e [target] _ _ rest (Tree.within_mapCore _ ?_)
    obtain ⟨items, hitems⟩ := Option.isSome_iff_exists.mp hitems
    obtain ⟨list, hlist, -⟩ := Option.bind_eq_some_iff.mp hitems
    have h := within_reverseFirstElements (e := value.unwrapStatement.element) []
      ⟨list, Tree.childOf?_mem hlist⟩
    rwa [List.nil_append, List.nil_append, Tree.node_eta] at h
  next => cases h

theorem reverseInList?_within {name : String} {e : Element} {cs cs' : List Tree} {i : Nat} {c : Tree}
    (he : e.kind = .statements) (hc : cs[i]? = some c) (hcall : ∃ n ∈ c.nodes, n.kind = .invokeMember)
    (h : reverseInList? name cs i = some cs') :
    ∃ m, Within (LocalStep .reverseConstArray) (.node e cs) m ∧
      Within (Splice (Exchange .reverseConstArray)) m (.node e cs') := by
  obtain ⟨before, after, rfl, rfl⟩ := exists_eq_append hc
  simp only [reverseInList?, List.take_left, Option.bind_eq_some_iff, Option.ite_none_left_eq_some,
    Option.map_eq_some_iff] at h
  obtain ⟨j, -, -, s', ⟨s, hs, hs'⟩, rfl⟩ := h
  obtain ⟨front, back, rfl, rfl⟩ := exists_eq_append hs
  have hdrop : ∀ l : List Tree, (l ++ c :: after).drop (l.length + 1) = after :=
    fun l => by rw [← List.drop_drop, List.drop_left, List.drop_one, List.tail_cons]
  have hreverse : Within (LocalStep .reverseConstArray) (.node e ((front ++ s :: back) ++ c :: after))
      (.node e ((front ++ s' :: back) ++ c :: after)) := by
    simpa using @Within.inside _ e front _ _ (back ++ c :: after) (reverseAssigned?_within hs')
  obtain ⟨call, hmem, hkind⟩ := hcall
  refine ⟨_, hreverse, .here ?_⟩
  rw [hdrop, List.set_append_right _ _ (Nat.le_refl _), Nat.sub_self, List.set_cons_zero]
  have h := @Splice.mk (Exchange .reverseConstArray) e (front ++ s' :: back) c [] after
    (.call he hmem hkind)
  rwa [List.append_nil] at h

theorem reversedName?_kind {call : Tree} {name : String} (h : reversedName? call = some name) :
    call.kind = .invokeMember := by
  unfold reversedName? at h
  split at h
  next hcall =>
    simp only [Tree.invocation?, Option.ite_none_right_eq_some] at hcall
    exact Tree.is_iff.mp hcall.1
  next => cases h

/-- The array is reversed first, and then the call goes. -/
theorem reverseConstArray_within (h : reverseConstArray t = some t') :
    ∃ m, Within (LocalStep .reverseConstArray) t m ∧
      Within (Splice (Exchange .reverseConstArray)) m t' := by
  obtain ⟨p, hp, h⟩ := List.exists_of_findSome?_eq_some h
  have hon := Place.on_of_mem hp
  unfold reverseAt? at h
  split at h
  next list i hlist hi =>
    simp only [Option.ite_none_right_eq_some, Option.bind_eq_some_iff, Option.ite_none_left_eq_some,
      Option.map_eq_some_iff] at h
    obtain ⟨hkind, name, hname, -, cs, hcs, rfl⟩ := h
    have hup := hon.up hlist
    have hchild := hon.child_at hlist hi
    obtain ⟨m, hreverse, hcall⟩ := reverseInList?_within (Tree.is_iff.mp hkind) hchild
      ⟨_, Tree.unwrapStatement_mem _, reversedName?_kind hname⟩ hcs
    rw [Tree.node_eta] at hreverse
    have hfirst := hup.within_plug hreverse
    rw [hup.plug_self] at hfirst
    exact ⟨Place.plug list.trail m, hfirst, hup.within_plug hcall⟩
  next => cases h

theorem reverseConstArray_changes (h : reverseConstArray t = some t') :
    Changes (LocalStep .reverseConstArray) t t' := by
  obtain ⟨m, hreverse, hcall⟩ := reverseConstArray_within h
  exact .tail (.single hreverse) (hcall.mono fun _ _ h => .exchange h)

/-- The statements of a script that was parsed, in the place of one statement that runs the script. -/
inductive Grafted (script : String) (parsed : Tree) (above s : Tree) (new : List Tree) : Prop
  | mk : above.kind = .statements → scriptStatements? parsed.children = some new →
      (∃ elements ∈ s.nodes, literalScript? elements = some script) → Grafted script parsed above s new

/-- A statement that runs a script is one of a list, and the script is written in it. -/
theorem invocationAt?_place {p q : Place} {script : String} (hp : p.On t)
    (h : invocationAt? p = some (q, script)) :
    q.On t ∧ (∀ above, q.parent? = some above → above.kind = .statements) ∧
      ∃ elements ∈ q.tree.nodes, literalScript? elements = some script := by
  simp only [invocationAt?, Option.bind_eq_some_iff, Option.map_eq_some_iff, Prod.mk.injEq] at h
  obtain ⟨_, hscript, _, hq, rfl, rfl⟩ := h
  obtain ⟨command, hcommand, hq⟩ := Option.bind_eq_some_iff.mp hq
  have hup := (Option.filter_eq_some_iff.mp hcommand).1
  have hon := hp.up hup
  have hmem := Tree.child_mem_nodes (hp.mem_up hup)
  obtain ⟨above, habove, hq⟩ := Option.bind_eq_some_iff.mp hq
  split at hq
  next hlist =>
    cases hq
    refine ⟨hon, fun u hu => ?_, p.tree, hmem, hscript⟩
    rw [Place.parent?_of_up? habove, Option.some.injEq] at hu
    exact hu ▸ Tree.is_iff.mp hlist
  next =>
    simp only [Option.ite_none_right_eq_some, Option.filter_eq_some_iff, Bool.and_eq_true] at hq
    obtain ⟨-, hpipeline, -, hparent⟩ := hq
    refine ⟨(hon.up habove).up hpipeline, fun u hu => Place.parent_is hparent hu, p.tree, ?_, hscript⟩
    exact Tree.mem_nodes_of_child ((hon.up habove).mem_up hpipeline)
      (Tree.mem_nodes_of_child (hon.mem_up habove) hmem)

theorem inlineFirst_replaces {parser : Parser} {candidates : List (Place × String)}
    {memory memory' : Memory} (h : inlineFirst parser memory candidates = (some t', memory')) :
    ∃ c ∈ candidates, ∃ earlier parsed statements, parser earlier c.2 = .ok parsed ∧
      scriptStatements? parsed.children = some statements ∧ c.1.replace? statements = some t' := by
  induction candidates generalizing memory with
  | nil => simp [inlineFirst] at h
  | cons candidate rest ih =>
    obtain ⟨statement, script⟩ := candidate
    rw [inlineFirst] at h
    split at h
    next statements hstatements =>
      obtain ⟨parsed, hparsed, hstatements⟩ := Option.bind_eq_some_iff.mp hstatements
      have hok : parser memory.submitted script = .ok parsed := by
        cases hscript : parser memory.submitted script <;> simp_all [Except.toOption]
      exact ⟨_, List.mem_cons_self, _, parsed, statements, hok, hstatements, (Prod.mk.inj h).1⟩
    next =>
      obtain ⟨c, hc, h⟩ := ih h
      exact ⟨c, List.mem_cons_of_mem _ hc, h⟩

theorem inlineInvokeExpression_replaces {context : Context} {memory : Memory}
    (h : (inlineInvokeExpression context memory t).1 = some t') :
    ∃ parser p q earlier script parsed statements, context.parser = some parser ∧ p ∈ t.places ∧
      invocationAt? p = some (q, script) ∧ parser earlier script = .ok parsed ∧
      scriptStatements? parsed.children = some statements ∧ q.replace? statements = some t' := by
  unfold inlineInvokeExpression at h
  split at h
  next parser _ hparser =>
    obtain ⟨c, hc, earlier, parsed, statements, hok, hstatements, hput⟩ := inlineFirst_replaces (Prod.ext h rfl)
    obtain ⟨p, hp, hpc⟩ := List.mem_filterMap.mp (List.mem_filter.mp hc).1
    exact ⟨parser, p, c.1, earlier, c.2, parsed, statements, hparser, hp, hpc, hok, hstatements, hput⟩
  next => cases h

theorem inlineInvokeExpression_within {context : Context} {memory : Memory}
    (h : (inlineInvokeExpression context memory t).1 = some t') :
    ∃ parser earlier script parsed, context.parser = some parser ∧ parser earlier script = .ok parsed ∧
      Within (Splice (Grafted script parsed)) t t' := by
  obtain ⟨parser, p, q, earlier, script, parsed, statements, hparser, hp, hq, hok, hstatements, hput⟩ :=
    inlineInvokeExpression_replaces h
  obtain ⟨hplace, hparent, hscript⟩ := invocationAt?_place (Place.on_of_mem hp) hq
  refine ⟨parser, earlier, script, parsed, hparser, hok, hplace.within_replace (fun above habove => ?_) hput⟩
  exact .mk (hparent above habove) hstatements hscript

theorem drawn_scriptStatements {cs new : List Tree} (h : scriptStatements? cs = some new) :
    Drawn cs new := by
  induction cs generalizing new with
  | nil => cases h; exact .nil
  | cons part parts ih =>
    simp only [scriptStatements?, Option.ite_none_left_eq_some] at h
    obtain ⟨-, h⟩ := h
    split at h
    next =>
      simp only [Option.ite_none_right_eq_some, Option.map_eq_some_iff] at h
      obtain ⟨-, rest, hrest, rfl⟩ := h
      exact .enter (.statements part) (ih hrest)
    next => exact .skip (ih h)

theorem mem_scriptStatements {cs new : List Tree} {u : Tree} (h : scriptStatements? cs = some new)
    (hu : u ∈ new) : ∃ part ∈ cs, u ∈ part.statements := by
  induction cs generalizing new with
  | nil => cases h; cases hu
  | cons part parts ih =>
    have hrest : ∀ {new}, scriptStatements? parts = some new → u ∈ new →
        ∃ p ∈ part :: parts, u ∈ p.statements := fun h hu =>
      (ih h hu).imp fun p hp => ⟨List.mem_cons_of_mem _ hp.1, hp.2⟩
    simp only [scriptStatements?, Option.ite_none_left_eq_some] at h
    obtain ⟨-, h⟩ := h
    split at h
    next =>
      simp only [Option.ite_none_right_eq_some, Option.map_eq_some_iff] at h
      obtain ⟨-, rest, hparts, rfl⟩ := h
      exact (List.mem_append.mp hu).elim (fun hu => ⟨part, by simp, hu⟩) (hrest hparts)
    next => exact hrest h hu

end Simplify
end Unscramble
