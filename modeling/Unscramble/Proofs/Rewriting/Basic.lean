import Mathlib.Logic.Relation
import Unscramble.Syntax.Place

/-! Rewriting below a node. `Within U` is the closure of a local change `U` under all surroundings,
and each of the traversals that the rules are written with is a chain of local changes: what a
rule keeps has to be checked for its local changes only. -/
namespace Unscramble

/-- One local change somewhere in a tree, the root included. -/
inductive Within (U : Tree → Tree → Prop) : Tree → Tree → Prop
  | here {t t'} : U t t' → Within U t t'
  | inside {e before s s' after} : Within U s s' →
      Within U (.node e (before ++ s :: after)) (.node e (before ++ s' :: after))

/-- Any number of trees put in the place of one child; `R` relates the parent, the child and
the trees. -/
inductive Splice (R : Tree → Tree → List Tree → Prop) : Tree → Tree → Prop
  | mk {e before s new after} : R (.node e (before ++ s :: after)) s new →
      Splice R (.node e (before ++ s :: after)) (.node e (before ++ new ++ after))

/-- At least one local change. -/
abbrev Changes (U : Tree → Tree → Prop) : Tree → Tree → Prop := Relation.TransGen (Within U)

section
variable {U V : Tree → Tree → Prop} {s s' t t' : Tree} {e : Element} {before after : List Tree}

theorem Within.mono (h : Within U t t') (huv : ∀ s s', U s s' → V s s') : Within V t t' := by
  induction h with
  | here h => exact .here (huv _ _ h)
  | inside _ ih => exact .inside ih

theorem Changes.inside (h : Changes U s s') :
    Changes U (.node e (before ++ s :: after)) (.node e (before ++ s' :: after)) := by
  induction h with
  | single h => exact .single (.inside h)
  | tail _ h ih => exact ih.tail (.inside h)

/-- One tree put in the place of a child. -/
theorem Within.of_splice {R : Tree → Tree → List Tree → Prop}
    (h : Within (Splice R) t t') (hR : ∀ above s new, R above s new → ∃ u, new = [u] ∧ U s u) :
    Within U t t' := by
  induction h with
  | here h =>
    obtain ⟨h⟩ := h
    obtain ⟨u, rfl, hu⟩ := hR _ _ _ h
    rw [List.append_assoc, List.singleton_append]
    exact .inside (.here hu)
  | inside _ ih => exact .inside ih

theorem Changes.mono (h : Changes U t t') (huv : ∀ s s', U s s' → V s s') : Changes V t t' := by
  induction h with
  | single h => exact .single (h.mono huv)
  | tail _ h ih => exact ih.tail (h.mono huv)

theorem Changes.of_splice {R : Tree → Tree → List Tree → Prop}
    (h : Changes (Splice R) t t') (hR : ∀ above s new, R above s new → ∃ u, new = [u] ∧ U s u) :
    Changes U t t' :=
  Relation.TransGen.mono (fun _ _ h => Within.of_splice h hR) t t' h

/-- What every local change keeps is kept by a chain of them. -/
theorem Changes.keeps {P : Tree → Prop} (h : Changes U t t')
    (hU : ∀ s s', Within U s s' → P s → P s') (ht : P t) : P t' := by
  induction h with
  | single h => exact hU _ _ h ht
  | tail _ h ih => exact hU _ _ h ih

end

namespace Place

/-- The places of a tree: its root, and the children of what stands in a place. -/
inductive On (t : Tree) : Place → Prop
  | root : On t ⟨[], t⟩
  | child {trail u i c} : On t ⟨trail, u⟩ → u.children[i]? = some c → On t ⟨(u, i) :: trail, c⟩

mutual

theorem on_of_mem_placesFrom {t : Tree} {trail : List (Tree × Nat)} {p : Place} :
    (u : Tree) → On t ⟨trail, u⟩ → p ∈ u.placesFrom trail → On t p
  | .node e cs, hu, hp => by
    simp only [Tree.placesFrom, List.mem_cons] at hp
    rcases hp with rfl | hp
    · exact hu
    · exact on_of_mem_placesBelow 0 cs hu (fun j => by simp [Tree.children]) hp

theorem on_of_mem_placesBelow {t above : Tree} {trail : List (Tree × Nat)} {p : Place} (i : Nat) :
    (ts : List Tree) → On t ⟨trail, above⟩ → (∀ j, above.children[i + j]? = ts[j]?) →
    p ∈ Tree.placesBelow trail above i ts → On t p
  | [], _, _, hp => by simp [Tree.placesBelow] at hp
  | c :: cs, habove, hts, hp => by
    simp only [Tree.placesBelow, List.mem_append] at hp
    rcases hp with hp | hp
    · exact on_of_mem_placesFrom c (.child habove (by simpa using hts 0)) hp
    · refine on_of_mem_placesBelow (i + 1) cs habove (fun j => ?_) hp
      have h := hts (j + 1)
      rwa [List.getElem?_cons_succ, show i + (j + 1) = i + 1 + j by omega] at h

end

theorem on_of_mem {t : Tree} {p : Place} (h : p ∈ t.places) : On t p :=
  on_of_mem_placesFrom t .root h

theorem On.up {t : Tree} {p q : Place} (h : On t p) (hq : p.up? = some q) : On t q := by
  cases h with
  | root => simp [up?] at hq
  | child h _ =>
    simp only [up?, Option.some.injEq] at hq
    exact hq ▸ h

/-- What stands in a place is a child of what stands above it. -/
theorem On.mem_up {t : Tree} {p q : Place} (h : On t p) (hq : p.up? = some q) :
    p.tree ∈ q.tree.children := by
  cases h with
  | root => simp [up?] at hq
  | child _ hc =>
    simp only [up?, Option.some.injEq] at hq
    exact hq ▸ List.mem_of_getElem? hc

end Place

theorem exists_eq_append {α : Type} {l : List α} {i : Nat} {a : α} (h : l[i]? = some a) :
    ∃ before after, l = before ++ a :: after ∧ before.length = i := by
  obtain ⟨hi, rfl⟩ := List.getElem?_eq_some_iff.mp h
  refine ⟨l.take i, l.drop (i + 1), ?_, ?_⟩
  · rw [List.getElem_cons_drop, List.take_append_drop]
  · exact List.length_take_of_le (Nat.le_of_lt hi)

namespace Place
variable {U : Tree → Tree → Prop} {t u : Tree}

theorem within_set {above c u u' : Tree} {i : Nat} (hc : above.children[i]? = some c)
    (h : Within U u u') : Within U (above.withChildren (above.children.set i u))
      (above.withChildren (above.children.set i u')) := by
  obtain ⟨e, cs⟩ := above
  obtain ⟨before, after, rfl, rfl⟩ := exists_eq_append hc
  simpa [Tree.withChildren, Tree.element, Tree.children] using Within.inside h

theorem On.plug_self {p : Place} (hp : On t p) : plug p.trail p.tree = t := by
  induction hp with
  | root => rfl
  | @child trail above i c _ hc ih =>
    obtain ⟨e, cs⟩ := above
    obtain ⟨hi, rfl⟩ := List.getElem?_eq_some_iff.mp hc
    rwa [plug, List.set_getElem_self]

/-- A change of what stands in a place is a change of the tree. -/
theorem On.within_plug {p : Place} (hp : On t p) : ∀ {u u'}, Within U u u' →
    Within U (plug p.trail u) (plug p.trail u') := by
  induction hp with
  | root => exact fun h => h
  | child _ hc ih => exact fun h => ih (within_set hc h)

theorem On.within_replace {p : Place} {new : List Tree} {t' : Tree} {R : Tree → Tree → List Tree → Prop}
    (hp : On t p) (hR : ∀ above, p.parent? = some above → R above p.tree new)
    (h : p.replace? new = some t') : Within (Splice R) t t' := by
  cases hp with
  | root => simp [replace?] at h
  | @child trail above i c hp hc =>
    simp only [replace?, Option.some.injEq] at h
    subst h
    conv => arg 2; rw [← hp.plug_self]
    refine hp.within_plug (.here ?_)
    obtain ⟨e, cs⟩ := above
    obtain ⟨before, after, rfl, rfl⟩ := exists_eq_append hc
    simpa [Tree.withChildren, Tree.element, Tree.children] using Splice.mk (hR _ rfl)

end Place

theorem Tree.replaceFirst?_within {f : Place → Option (List Tree)} {t t' : Tree}
    {R : Tree → Tree → List Tree → Prop}
    (hR : ∀ p above new, Place.On t p → p.parent? = some above → f p = some new → R above p.tree new)
    (h : t.replaceFirst? f = some t') : Within (Splice R) t t' := by
  obtain ⟨⟨p, new⟩, hp, hreplace⟩ := Option.bind_eq_some_iff.mp h
  obtain ⟨q, hq, hf⟩ := List.exists_of_findSome?_eq_some hp
  obtain ⟨new', hnew, heq⟩ := Option.map_eq_some_iff.mp hf
  cases heq
  have hon := Place.on_of_mem hq
  exact hon.within_replace (fun above habove => hR _ _ _ hon habove hnew) hreplace

/-- A chain of changes put together from one for the first of some trees and one for the others,
either of which may be missing. -/
theorem Changes.cons {U : Tree → Tree → Prop} {e : Element} {ts : List Tree} {t : Tree}
    {rest : Option (List Tree)} (before : List Tree) (here : Option (List Tree))
    (hhere : ∀ new, here = some new →
      Changes U (.node e (before ++ t :: ts)) (.node e (before ++ new ++ ts)))
    (hrest : ∀ before ts', rest = some ts' →
      Changes U (.node e (before ++ ts)) (.node e (before ++ ts')))
    (h : here.isSome || rest.isSome) :
    Changes U (.node e (before ++ t :: ts)) (.node e (before ++ (here.getD [t] ++ rest.getD ts))) := by
  cases here with
  | none =>
    cases rest with
    | none => simp at h
    | some ts' => simpa using hrest (before ++ [t]) ts' rfl
  | some new =>
    cases rest with
    | none => simpa using hhere new rfl
    | some ts' => simpa using (hhere new rfl).trans (hrest (before ++ new) ts' rfl)

namespace Tree

mutual

theorem replaceOutermost?_changes {f : Tree → Option (List Tree)} :
    (t : Tree) → {t' : Tree} → t.replaceOutermost? f = some t' →
    Changes (Splice fun _ s new => f s = some new) t t'
  | .node e cs, t', h => by
    obtain ⟨cs', hcs, rfl⟩ := Option.map_eq_some_iff.mp h
    exact replaceOutermostAll?_changes e [] cs hcs

theorem replaceOutermostAll?_changes {f : Tree → Option (List Tree)} (e : Element)
    (before : List Tree) : (ts : List Tree) → {ts' : List Tree} →
    replaceOutermostAll? f ts = some ts' →
    Changes (Splice fun _ s new => f s = some new) (.node e (before ++ ts)) (.node e (before ++ ts'))
  | [], _, h => by simp [replaceOutermostAll?] at h
  | t :: ts, ts', h => by
    simp only [replaceOutermostAll?, Option.ite_none_right_eq_some, Option.some.injEq] at h
    obtain ⟨hsome, rfl⟩ := h
    refine Changes.cons before _ (fun new hnew => ?_)
      (fun before ts' => replaceOutermostAll?_changes e before ts) hsome
    rw [Option.orElse_eq_orElse, Option.orElse_eq_or, Option.or_eq_some_iff] at hnew
    rcases hnew with hnew | ⟨-, hnew⟩
    · exact .single (.here (.mk hnew))
    · obtain ⟨t', ht, rfl⟩ := Option.map_eq_some_iff.mp hnew
      simpa using (replaceOutermost?_changes t ht).inside

end

mutual

theorem updateEvery?_changes {f : Tree → Option Tree} : (t : Tree) → {t' : Tree} →
    t.updateEvery? f = some t' → Changes (fun s s' => f s = some s') t t'
  | .node e cs, t', h => by
    have hbelow : ∀ cs', updateEveryAll? f cs = some cs' →
        Changes (fun s s' => f s = some s') (.node e cs) (.node e cs') :=
      fun cs' => updateEveryAll?_changes e [] cs
    simp only [updateEvery?] at h
    cases hcs : updateEveryAll? f cs with
    | none =>
      simp only [hcs, Option.getD_none, Option.map_none, Option.orElse_eq_orElse,
        Option.orElse_eq_or, Option.or_none] at h
      exact .single (.here h)
    | some cs' =>
      simp only [hcs, Option.getD_some, Option.map_some, Option.orElse_eq_orElse,
        Option.orElse_eq_or, Option.or_eq_some_iff] at h
      rcases h with h | ⟨-, h⟩
      · exact (hbelow cs' hcs).tail (.here h)
      · exact Option.some.inj h ▸ hbelow cs' hcs

theorem updateEveryAll?_changes {f : Tree → Option Tree} (e : Element) (before : List Tree) :
    (ts : List Tree) → {ts' : List Tree} → updateEveryAll? f ts = some ts' →
    Changes (fun s s' => f s = some s') (.node e (before ++ ts)) (.node e (before ++ ts'))
  | [], _, h => by simp [updateEveryAll?] at h
  | t :: ts, ts', h => by
    simp only [updateEveryAll?, Option.ite_none_right_eq_some, Option.some.injEq] at h
    obtain ⟨hsome, rfl⟩ := h
    have h := Changes.cons (e := e) before ((t.updateEvery? f).map ([·]))
      (fun new hnew => by
        obtain ⟨t', ht, rfl⟩ := Option.map_eq_some_iff.mp hnew
        simpa using (updateEvery?_changes t ht).inside (e := e))
      (fun before ts' => updateEveryAll?_changes e before ts) (by simpa using hsome)
    cases ht : t.updateEvery? f <;> simpa [ht] using h

end

/-- A node with the element that a respelling gives to a node that looks the same. -/
inductive Respelled (f : Respelling) : Tree → Tree → Prop
  | mk {above cs cs'} {e e' : Element} : f above (.node e cs) = some e' →
      Respelled f (.node e cs') (.node e' cs')

mutual

theorem respellFrom?_changes {f : Respelling} {above : Option (Tree × Nat)} :
    (t : Tree) → {t' : Tree} → t.respellFrom? f above = some t' → Changes (Respelled f) t t'
  | .node e cs, t', h => by
    have hbelow : ∀ e' cs', respellAll? f (.node e cs) 0 cs = some cs' →
        Changes (Respelled f) (.node e' cs) (.node e' cs') :=
      fun e' cs' => respellAll?_changes e' [] cs
    simp only [respellFrom?, Option.ite_none_right_eq_some, Option.some.injEq] at h
    obtain ⟨hsome, rfl⟩ := h
    cases hhere : f above (.node e cs) with
    | none =>
      cases hcs : respellAll? f (.node e cs) 0 cs with
      | none => simp [hhere, hcs] at hsome
      | some cs' => exact hbelow e cs' hcs
    | some e' =>
      cases hcs : respellAll? f (.node e cs) 0 cs with
      | none => exact .single (.here (.mk hhere))
      | some cs' => exact (hbelow e' cs' hcs).head (.here (.mk hhere))

theorem respellAll?_changes {f : Respelling} {above : Tree} {i : Nat} (e : Element)
    (before : List Tree) : (ts : List Tree) → {ts' : List Tree} → respellAll? f above i ts = some ts' →
    Changes (Respelled f) (.node e (before ++ ts)) (.node e (before ++ ts'))
  | [], _, h => by simp [respellAll?] at h
  | t :: ts, ts', h => by
    simp only [respellAll?, Option.ite_none_right_eq_some, Option.some.injEq] at h
    obtain ⟨hsome, rfl⟩ := h
    have h := Changes.cons (e := e) before ((t.respellFrom? f (some (above, i))).map ([·]))
      (fun new hnew => by
        obtain ⟨t', ht, rfl⟩ := Option.map_eq_some_iff.mp hnew
        simpa using (respellFrom?_changes t ht).inside (e := e))
      (fun before ts' => respellAll?_changes e before ts) (by simpa using hsome)
    cases ht : t.respellFrom? f (some (above, i)) <;> simpa [ht] using h

end

theorem respell?_changes {f : Respelling} {t t' : Tree} (h : t.respell? f = some t') :
    Changes (Respelled f) t t' :=
  respellFrom?_changes t h

end Tree
end Unscramble
