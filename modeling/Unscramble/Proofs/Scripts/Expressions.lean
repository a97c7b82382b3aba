import Unscramble.Proofs.Scripts.Bindings
import Unscramble.Proofs.Scripts.Structure
import Unscramble.Simplify.Propagation

/-! Constant propagation in expressions. A literal put in the place of a variable has the value of
the variable, as long as what the scope binds is what the store holds. -/
namespace Unscramble.Scripts

open Simplify Unscramble.Tree

/-! ### Literals -/

/-- A value that is read back from every literal that is written for it. -/
def IsReadable (v : Value) : Prop := ∀ quoting, (v.toTree quoting).literal? = some v

theorem scalar?_toTree {v : Value} (hscalar : v.isScalar = true) (hmin : v ≠ .int Int64.minValue)
    (quoting : Quoting) : (v.toTree quoting).scalar? = some v := by
  cases v with
  | text s => rfl
  | int n =>
    have hn : n ≠ Int64.minValue := fun h => hmin (h ▸ rfl)
    have hint : integerTypes.any (Text.sameIgnoringCase · "int") = true := by
      simp [integerTypes, Text.sameIgnoringCase]
    have htype : (intTree n).attr? "StaticType" = some "int" := rfl
    simp only [Value.toTree, scalar?, show (intTree n).kind = .constant from rfl, htype,
      Option.getD_some, hint, if_true, show (intTree n).payload = Value.intText n from rfl,
      Value.readInt?_intText hn, Option.map_some]
  | list => cases hscalar

theorem isReadable_scalar {v : Value} (hscalar : v.isScalar = true) (hmin : v ≠ .int Int64.minValue) :
    IsReadable v := by
  intro quoting
  have hkind : (v.toTree quoting).is .arrayLiteral = false := by
    cases v with
    | text | int => rfl
    | list => cases hscalar
  rw [literal?, hkind, if_neg Bool.false_ne_true, scalar?_toTree hscalar hmin]

theorem mapM_toTrees {vs : List Value} (h : ∀ v ∈ vs, v.isScalar = true ∧ v ≠ .int Int64.minValue) :
    (Value.toTrees vs).mapM scalar? = some vs := by
  induction vs with
  | nil => rfl
  | cons v vs ih =>
    obtain ⟨⟨hscalar, hmin⟩, hvs⟩ := List.forall_mem_cons.mp h
    rw [Value.toTrees, List.mapM_cons, scalar?_toTree hscalar hmin, ih hvs]
    rfl

theorem isReadable_list {vs : List Value}
    (h : ∀ v ∈ vs, v.isScalar = true ∧ v ≠ .int Int64.minValue) : IsReadable (.list vs) := by
  intro quoting
  simp [Value.toTree, literal?, is, kind, element, branch, items?, childOf?, mapM_toTrees h]

theorem isScalar_of_scalar? {t : Tree} {v : Value} (h : t.scalar? = some v) : v.isScalar = true := by
  unfold scalar? at h
  split at h
  next => cases h; rfl
  next =>
    obtain ⟨n, -, rfl⟩ := Option.map_eq_some_iff.mp (Option.ite_none_right_eq_some.mp h).2
    rfl
  next => cases h

theorem isReadable_of_isScalar {t : Tree} {v : Value} (h : IsScalar t) (hv : t.scalar? = some v) :
    v.isScalar = true ∧ v ≠ .int Int64.minValue := by
  obtain ⟨-, w, hw, hmin⟩ := h
  cases hv.symm.trans hw
  exact ⟨isScalar_of_scalar? hv, hmin⟩

theorem mapM_isScalar {items : List Tree} {vs : List Value} (h : ∀ t ∈ items, IsScalar t)
    (hvs : items.mapM scalar? = some vs) : ∀ v ∈ vs, v.isScalar = true ∧ v ≠ .int Int64.minValue := by
  induction items generalizing vs with
  | nil => cases hvs; simp
  | cons t items ih =>
    obtain ⟨ht, hitems⟩ := List.forall_mem_cons.mp h
    rw [List.mapM_cons] at hvs
    obtain ⟨v, hv, hvs⟩ := Option.bind_eq_some_iff.mp hvs
    obtain ⟨ws, hws, hvs⟩ := Option.bind_eq_some_iff.mp hvs
    cases hvs
    exact List.forall_mem_cons.mpr ⟨isReadable_of_isScalar ht hv, ih hitems hws⟩

theorem unwrapStatement_leaf {t : Tree} (h : t.children = []) : t.unwrapStatement = t := by
  obtain ⟨e, cs⟩ := t
  cases h
  rfl

theorem isWrapper_of_isGrouping {kind : Kind} {t : Tree} (h : isGrouping kind = true) :
    isWrapper kind t = true := by
  rcases isGrouping_iff.mp h with rfl | rfl | rfl <;> rfl

theorem not_literal {e : Element} {cs : List Tree} {v : Value} (h : e.kind = .commandExpression) :
    literal? (.node e cs) ≠ some v := fun hv => by
  rcases kind_of_literal? hv with hkind | hkind | hkind <;> simp [h] at hkind

variable {V : Type*} {I : Interpretation V} {σ : State V}

/-- What an assignment of a literal is taken to write is what it writes. -/
theorem Expression.literal (I : Interpretation V) {t : Tree} {v : Value} (h : Expression t)
    (hv : t.unwrapStatement.literal? = some v) : IsReadable v ∧ ∀ σ, I.eval σ t = I.denote v := by
  induction h with
  | scalar h =>
    rw [unwrapStatement_leaf h.1] at hv
    refine ⟨?_, fun _ => Interpretation.eval_literal hv⟩
    have hkind := h.kind
    rw [literal?, if_neg (by rw [is_iff]; rcases hkind with h | h <;> simp [h])] at hv
    exact isReadable_scalar (isReadable_of_isScalar h hv).1 (isReadable_of_isScalar h hv).2
  | @array e l items he hl hitems =>
    rw [unwrapStatement, if_neg (by simp [he, isWrapper])] at hv
    refine ⟨?_, fun _ => Interpretation.eval_literal hv⟩
    simp [literal?, is, kind, element, items?, childOf?, he, hl] at hv
    obtain ⟨vs, hvs, rfl⟩ := hv
    exact isReadable_list (mapM_isScalar hitems hvs)
  | var h =>
    rw [unwrapStatement_leaf h.1] at hv
    rcases kind_of_literal? hv with hkind | hkind | hkind <;> simp [h.kind] at hkind
  | binary he =>
    rcases kind_of_literal? hv with hkind | hkind | hkind <;> simp [unwrapStatement, he] at hkind
  | group he _ ih =>
    rw [unwrapStatement, if_pos (isWrapper_of_isGrouping he)] at hv
    exact ⟨(ih hv).1, fun σ => (Interpretation.eval_group he).trans ((ih hv).2 σ)⟩
  | @statement e t footer he _ _ ih =>
    cases footer with
    | nil =>
      rw [unwrapStatement] at hv
      split at hv
      next =>
        exact ⟨(ih hv).1, fun σ => (Interpretation.eval_statement he).trans ((ih hv).2 σ)⟩
      next => exact absurd hv (not_literal he)
    | cons => exact absurd hv (not_literal he)

/-! ### The walk -/

/-- What the scope binds is what the store holds, and can be written as a literal. -/
structure Sound (I : Interpretation V) (scope : Scope) (σ : State V) : Prop where
  apart : scope.Apart
  readable : ∀ {k v}, scope.Binds k v → IsReadable v
  holds : ∀ {k v}, scope.Binds k v → σ.store k = I.denote v

/-- Bindings may be dropped, and what is not bound may be written. -/
theorem Sound.mono {scope scope' : Scope} {τ : State V} (h : Sound I scope σ) (hapart : scope'.Apart)
    (hbinds : ∀ {k v}, scope'.Binds k v → scope.Binds k v ∧ τ.store k = σ.store k) :
    Sound I scope' τ where
  apart := hapart
  readable hk := h.readable (hbinds hk).1
  holds hk := (hbinds hk).2.trans (h.holds (hbinds hk).1)

variable {around : Surroundings} {site : Option Site} {known : Known} {holder : Holder} {i : Nat}
  {e : Element} {t : Tree} {ts cs : List Tree}

theorem walk_plain (h : flowOf e = .plain) : walk around site known (.node e cs) =
    ((walkAll around (Site.holds site e cs) 0 known cs).1,
      .node e (walkAll around (Site.holds site e cs) 0 known cs).2) := by
  rw [walk.eq_def]
  simp only [h]

theorem walk_read (h : flowOf t.element = .read) :
    walk around site known t = readVariable around site t known := by
  obtain ⟨e, cs⟩ := t
  rw [walk.eq_def]
  simp only [show flowOf e = .read from h]

theorem walkAll_cons : walkAll around holder i known (t :: ts) =
    ((walkAll around holder (i + 1) (walk around (some ⟨holder, i⟩) known t).1 ts).1,
      (walk around (some ⟨holder, i⟩) known t).2 ::
        (walkAll around holder (i + 1) (walk around (some ⟨holder, i⟩) known t).1 ts).2) := rfl

theorem walk_leaf (h : flowOf t.element = .plain) (hcs : t.children = []) :
    walk around site known t = (known, t) := by
  obtain ⟨e, cs⟩ := t
  cases hcs
  exact walk_plain h

theorem walkAll_leaves (h : ∀ t ∈ ts, flowOf t.element = .plain ∧ t.children = []) :
    walkAll around holder i known ts = (known, ts) := by
  induction ts generalizing i with
  | nil => rfl
  | cons t ts ih =>
    obtain ⟨ht, hts⟩ := List.forall_mem_cons.mp h
    simp only [walkAll, walk_leaf ht.1 ht.2, ih hts]

theorem IsScalar.flow (h : IsScalar t) : flowOf t.element = .plain ∧ t.children = [] := by
  refine ⟨?_, h.1⟩
  have hkind : t.element.kind = .stringConstant ∨ t.element.kind = .constant := h.kind
  rcases hkind with hkind | hkind <;> simp [flowOf, hkind]

theorem IsFooter.flow (h : IsFooter ts) : ∀ t ∈ ts, flowOf t.element = .plain ∧ t.children = [] := by
  intro t ht
  have hkind : t.element.kind = .redirections := (h t ht).1
  exact ⟨by simp [flowOf, hkind], (h t ht).2⟩

/-- Below a node of some kind, lists are not given to methods. -/
def isCalm (kind : Kind) : Bool := kind != .arguments && kind != .invokeMember

theorem isCalm_holds {i : Nat} (h : isCalm e.kind = true) :
    ∀ s ∈ (some ⟨Site.holds site e cs, i⟩ : Option Site), isCalm s.parentKind = true := by
  rintro s ⟨⟩
  exact h

/-- In a place where lists are not given to methods, the walk keeps the scope and the value. -/
def Rendered (I : Interpretation V) (around : Surroundings) (t : Tree) : Prop :=
  ∀ site known, (∀ s ∈ site, isCalm s.parentKind = true) →
    (walk around site known t).1.scope = known.scope ∧
      ∀ σ, Sound I known.scope σ → I.eval σ (walk around site known t).2 = I.eval σ t

theorem readVariable_rendered (hsite : ∀ s ∈ site, isCalm s.parentKind = true) :
    (readVariable around site t known).1.scope = known.scope ∧ ∀ σ, Sound I known.scope σ →
      I.eval σ (readVariable around site t known).2 = I.eval σ t := by
  unfold readVariable
  split
  next name s hname =>
    have hmutate : s.mayMutate = false := by
      have h := hsite s rfl
      simp only [isCalm, Bool.and_eq_true, bne_iff_ne] at h
      simp [Site.mayMutate, h]
    split
    next => exact ⟨rfl, fun _ _ => rfl⟩
    next =>
      split
      next => exact ⟨rfl, fun _ _ => rfl⟩
      next v hv =>
        rw [hmutate, Bool.and_false, if_neg Bool.false_ne_true]
        split
        next quoting _ =>
          refine ⟨rfl, fun σ hσ => ?_⟩
          obtain ⟨path, hpath, rfl⟩ := Option.map_eq_some_iff.mp hname
          have hbinds := Scope.binds_of_get? hv
          rw [Text.lower_lower] at hbinds
          rw [Interpretation.eval_literal (hσ.readable hbinds quoting),
            Interpretation.eval_variable hname, hσ.holds hbinds]
        next => exact ⟨rfl, fun _ _ => rfl⟩
  next => exact ⟨rfl, fun _ _ => rfl⟩

theorem walkAll_rendered (holder : Holder) (i : Nat) (known : Known)
    (hholder : isCalm holder.element.kind = true) (h : ∀ t ∈ ts, Rendered I around t) :
    (walkAll around holder i known ts).1.scope = known.scope ∧ ∀ σ, Sound I known.scope σ →
      (walkAll around holder i known ts).2.map (I.eval σ) = ts.map (I.eval σ) := by
  induction ts generalizing i known with
  | nil => exact ⟨rfl, fun _ _ => rfl⟩
  | cons t ts ih =>
    obtain ⟨ht, hts⟩ := List.forall_mem_cons.mp h
    obtain ⟨hscope, heval⟩ := ht (some ⟨holder, i⟩) known fun s hs => by cases hs; exact hholder
    obtain ⟨hscopes, hevals⟩ := ih (i + 1) (walk around (some ⟨holder, i⟩) known t).1 hts
    rw [hscope] at hscopes hevals
    refine ⟨hscopes, fun σ hσ => ?_⟩
    rw [walkAll_cons, List.map_cons, List.map_cons, heval σ hσ, hevals σ hσ]

/-- A node whose value is computed from those of its children. -/
theorem rendered_node (hflow : flowOf e = .plain) (hcalm : isCalm e.kind = true)
    (hcs : ∀ c ∈ cs, Rendered I around c)
    (heval : ∀ σ cs', cs'.map (I.eval σ) = cs.map (I.eval σ) →
      I.eval σ (.node e cs') = I.eval σ (.node e cs)) : Rendered I around (.node e cs) := by
  intro site known _
  have hwalk := walkAll_rendered (Site.holds site e cs) 0 known hcalm hcs
  rw [walk_plain hflow]
  exact ⟨hwalk.1, fun σ hσ => heval σ _ (hwalk.2 σ hσ)⟩

theorem Expression.rendered (h : Expression t) : Rendered I around t := by
  induction h with
  | scalar h =>
    intro site known _
    rw [walk_leaf h.flow.1 h.flow.2]
    exact ⟨rfl, fun _ _ => rfl⟩
  | @array e l items he hl hitems =>
    intro site known _
    have hflow : flowOf e = .plain := by simp [flowOf, he]
    have hlist : flowOf l = .plain := by simp [flowOf, hl]
    simp only [walk_plain hflow, walkAll, walk_plain hlist,
      walkAll_leaves fun t ht => (hitems t ht).flow]
    exact ⟨trivial, fun _ _ => trivial⟩
  | @var t h =>
    intro site known hsite
    have hkind : t.element.kind = .variableRef := h.kind
    rw [walk_read (by simp [flowOf, hkind])]
    exact readVariable_rendered hsite
  | @binary e left right he _ _ hleft hright =>
    refine rendered_node (by simp [flowOf, he]) (by simp [isCalm, he]) (by simp [hleft, hright]) ?_
    intro σ cs' hcs'
    simp only [List.map_cons, List.map_nil, List.map_eq_cons_iff, List.map_eq_nil_iff] at hcs'
    obtain ⟨left', _, rfl, hleft', right', _, rfl, hright', rfl⟩ := hcs'
    rw [Interpretation.eval_binary he, Interpretation.eval_binary he, hleft', hright']
  | @group e t he _ ih =>
    have hkind := isGrouping_iff.mp he
    refine rendered_node ?_ ?_ (by simp [ih]) fun σ cs' hcs' => ?_
    · rcases hkind with hkind | hkind | hkind <;> simp [flowOf, hkind]
    · rcases hkind with hkind | hkind | hkind <;> simp [isCalm, hkind]
    · simp only [List.map_cons, List.map_nil, List.map_eq_cons_iff, List.map_eq_nil_iff] at hcs'
      obtain ⟨t', _, rfl, ht', rfl⟩ := hcs'
      rw [Interpretation.eval_group he, Interpretation.eval_group he, ht']
  | @statement e t footer he _ hfooter ih =>
    refine rendered_node (by simp [flowOf, he]) (by simp [isCalm, he]) ?_ ?_
    · refine List.forall_mem_cons.mpr ⟨ih, fun c hc site known _ => ?_⟩
      rw [walk_leaf (hfooter.flow c hc).1 (hfooter.flow c hc).2]
      exact ⟨rfl, fun _ _ => rfl⟩
    · intro σ cs' hcs'
      rw [List.map_cons, List.map_eq_cons_iff] at hcs'
      obtain ⟨t', _, rfl, ht', -⟩ := hcs'
      rw [Interpretation.eval_statement he, Interpretation.eval_statement he, ht']

end Unscramble.Scripts
