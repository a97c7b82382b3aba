import Mathlib.Tactic.ByContra
import Unscramble.Proofs.Rewriting.Catalog

/-! Trees that scripts can have: every node has as many children as its kind allows, the lists that
a construct may do without stand only where they belong, and the header of a `for` loop is complete.
All rules keep trees like that. -/
namespace Unscramble

open Simplify

/-- What a node asks of its children. -/
structure Sound (u : Tree) : Prop where
  arity : u.hasValidArity = true
  lists : ∀ c ∈ u.children, isOptionalList c.kind = true → holdsLists u.kind = true
  header : u.kind = .forLoop →
    (u.children.take 3).map Tree.kind = [.initializer, .condition, .iterator]

structure WellFormed (t : Tree) : Prop where
  arity : t.malformed = []
  root : isOptionalList t.kind = false
  lists : ∀ u ∈ t.nodes, ∀ c ∈ u.children, isOptionalList c.kind = true → holdsLists u.kind = true
  header : ∀ u ∈ t.nodes, u.kind = .forLoop →
    (u.children.take 3).map Tree.kind = [.initializer, .condition, .iterator]

def AllSound (t : Tree) : Prop := ∀ u ∈ t.nodes, Sound u

theorem wellFormed_iff {t : Tree} : WellFormed t ↔ isOptionalList t.kind = false ∧ AllSound t := by
  have harity : t.malformed = [] ↔ ∀ u ∈ t.nodes, u.hasValidArity = true := by
    simp [Tree.malformed]
  constructor
  · intro h
    exact ⟨h.root, fun u hu => ⟨harity.mp h.arity u hu, h.lists u hu, h.header u hu⟩⟩
  · intro ⟨hroot, h⟩
    exact ⟨harity.mpr fun u hu => (h u hu).arity, hroot, fun u hu => (h u hu).lists,
      fun u hu => (h u hu).header⟩

theorem allSound_node {e : Element} {cs : List Tree} :
    AllSound (.node e cs) ↔ Sound (.node e cs) ∧ ∀ c ∈ cs, AllSound c := by
  constructor
  · exact fun h => ⟨h _ (Tree.mem_nodes_self _), fun c hc u hu => h u (Tree.mem_nodes_of_child hc hu)⟩
  · rintro ⟨h, hcs⟩ u hu
    rcases Tree.mem_nodes_iff.mp hu with rfl | ⟨c, hc, hu⟩
    · exact h
    · exact hcs c hc u hu

theorem AllSound.of_mem {t u : Tree} (h : AllSound t) (hu : u ∈ Tree.nodesAll t.children) :
    AllSound u := fun v hv =>
  h v (Tree.nodes_eq t ▸ List.mem_cons_of_mem _ (Tree.mem_nodesAll_trans _ hu hv))

/-- The kinds that the header of a `for` loop is made of. -/
def isHeader (k : Kind) : Bool := k == .initializer || k == .condition || k == .iterator

/-- Whether a node can stand where another one stood. -/
structure Fits (s u : Tree) : Prop where
  list : isOptionalList u.kind = true → isOptionalList s.kind = true
  header : isHeader s.kind = true → u.kind = s.kind

theorem Fits.of_kind {s u : Tree} (h : u.kind = s.kind) : Fits s u := ⟨fun hu => h ▸ hu, fun _ => h⟩

section
variable {e : Element} {before after : List Tree} {s u : Tree}

/-- A child of a node may give way to one that fits. -/
theorem Sound.replace (h : Sound (.node e (before ++ s :: after))) (hu : Fits s u) :
    Sound (.node e (before ++ u :: after)) where
  arity := by simpa [Tree.hasValidArity] using h.arity
  lists c hc hlist := by
    simp only [Tree.children_node, List.mem_append, List.mem_cons] at hc
    rcases hc with hc | rfl | hc
    · exact h.lists c (by simp [hc]) hlist
    · exact h.lists s (by simp) (hu.list hlist)
    · exact h.lists c (by simp [hc]) hlist
  header hkind := by
    have hs := h.header hkind
    simp only [Tree.children_node, List.map_take, List.map_append, List.map_cons] at hs ⊢
    rw [← hs]
    by_cases hshort : before.length < 3
    · have hmem : s.kind ∈ (before.map Tree.kind ++ s.kind :: after.map Tree.kind).take 3 := by
        refine List.mem_of_getElem? (i := (before.map Tree.kind).length) ?_
        rw [List.getElem?_take_of_lt (by simpa using hshort), List.getElem?_append_right (Nat.le_refl _),
          Nat.sub_self, List.getElem?_cons_zero]
      rw [hs] at hmem
      rw [hu.header (by simpa [isHeader, or_assoc] using hmem)]
    · rw [List.take_append_of_le_length, List.take_append_of_le_length] <;>
        · rw [List.length_map]; omega

/-- A list of statements may hold any statements. -/
theorem Sound.splice {new : List Tree} (h : Sound (.node e (before ++ s :: after)))
    (he : e.kind = .statements) (hnew : ∀ u ∈ new, isOptionalList u.kind = false) :
    Sound (.node e (before ++ new ++ after)) where
  arity := by simp [Tree.hasValidArity, he, Kind.allowsArity]
  lists c hc hlist := by
    have hold : ∀ c ∈ before ++ s :: after, isOptionalList c.kind = false := fun c hc => by
      by_contra hlist
      simpa [he, holdsLists] using h.lists c hc (by simpa using hlist)
    simp only [Tree.children_node, List.mem_append] at hc
    rcases hc with (hc | hc) | hc
    · simp [hold c (by simp [hc])] at hlist
    · simp [hnew c hc] at hlist
    · simp [hold c (by simp [hc])] at hlist
  header hkind := by simp [he] at hkind

theorem allowsArity_of_holdsLists {k : Kind} (h : holdsLists k = true) (n : Nat) :
    k.allowsArity n = true := by
  cases k <;> simp_all [holdsLists, Kind.allowsArity]

theorem Sound.drop (h : Sound (.node e (before ++ s :: after))) (hs : isOptionalList s.kind = true) :
    Sound (.node e (before ++ [] ++ after)) := by
  have he : holdsLists e.kind = true := h.lists s (by simp) hs
  refine ⟨allowsArity_of_holdsLists he _, fun _ _ _ => he, fun hkind => ?_⟩
  rw [Tree.kind_node] at hkind
  simp [hkind, holdsLists] at he

theorem Plain.isOptionalList (h : Plain s u) (hs : AllSound s) : isOptionalList u.kind = false := by
  cases h with
  | kind h => exact h
  | child hv hu hholds =>
    by_contra hlist
    simp [(hs _ hv).lists u hu (by simpa using hlist)] at hholds
  | @header v hkind hv hu =>
    have hmem : v.kind ∈ (s.children.take 3).map Tree.kind := List.mem_map_of_mem hv
    rw [(hs s (Tree.mem_nodes_self s)).header hkind] at hmem
    by_contra hlist
    have hv : v ∈ s.nodes := Tree.child_mem_nodes (List.mem_of_mem_take hv)
    have hholds := (hs v hv).lists u hu (by simpa using hlist)
    simp only [List.mem_cons, List.not_mem_nil, or_false] at hmem
    rcases hmem with hmem | hmem | hmem <;> simp [hmem, holdsLists] at hholds

end

theorem Drawn.allSound {ts new : List Tree} (h : Drawn ts new) (hts : ∀ t ∈ ts, AllSound t) :
    ∀ u ∈ new, AllSound u :=
  h.inherited (fun _ ht _ hc => ht.of_mem (Tree.child_mem_nodesAll hc)) hts

theorem sound_leaf {k : Kind} {pairs : List (String × String)} {text : Option String}
    (harity : k.allowsArity 0 = true) (hkind : k ≠ .forLoop) : AllSound (.leaf k pairs text) :=
  allSound_node.mpr ⟨⟨harity, by simp, fun h => absurd h hkind⟩, by simp⟩

theorem isOptionalList_toTree (v : Value) (quoting : Quoting) :
    isOptionalList (v.toTree quoting).kind = false := by
  cases v <;> rfl

mutual

theorem allSound_toTree (quoting : Quoting) : (v : Value) → AllSound (v.toTree quoting)
  | .text _ => sound_leaf rfl nofun
  | .int _ => sound_leaf rfl nofun
  | .list items => by
    have helements : AllSound (.branch .elements [] (Value.toTrees items)) := by
      refine allSound_node.mpr ⟨⟨rfl, fun c hc hlist => ?_, nofun⟩, fun c hc => ?_⟩
      · simp [(allSound_toTrees items c hc).1] at hlist
      · exact (allSound_toTrees items c hc).2
    refine allSound_node.mpr ⟨⟨rfl, ?_, nofun⟩, by simpa using helements⟩
    simp [Tree.branch, isOptionalList]

theorem allSound_toTrees : (vs : List Value) →
    ∀ u ∈ Value.toTrees vs, isOptionalList u.kind = false ∧ AllSound u
  | [], u, hu => by simp [Value.toTrees] at hu
  | v :: vs, u, hu => by
    rw [Value.toTrees, List.mem_cons] at hu
    rcases hu with rfl | hu
    · exact ⟨isOptionalList_toTree v _, allSound_toTree _ v⟩
    · exact allSound_toTrees vs u hu

end

theorem Literal.allSound {r : Rule} {u : Tree} (h : Literal r u) :
    isOptionalList u.kind = false ∧ AllSound u := by
  cases h with
  | value v quoting => exact ⟨isOptionalList_toTree v quoting, allSound_toTree quoting v⟩
  | truth b => exact ⟨rfl, sound_leaf rfl nofun⟩
  | type name => exact ⟨rfl, sound_leaf rfl nofun⟩

theorem fits_of_header {s u : Tree} (hu : isOptionalList u.kind = false)
    (hs : isHeader s.kind = false) : Fits s u :=
  ⟨fun h => by simp [hu] at h, fun h => by simp [hs] at h⟩

theorem Unwraps.header {r : Rule} {k : Kind} (h : Unwraps r k) : isHeader k = false := by
  cases h <;> rfl

theorem Folds.header {r : Rule} {k : Kind} (h : Folds r k) : isHeader k = false := by
  cases h <;> rfl

/-- The conditional that a loop becomes is sound if the parts of the loop were. -/
theorem allSound_conditional {guard : Tree} {statements : List Tree} (hguard : AllSound guard)
    (hlist : isOptionalList guard.kind = false) (hstatements : ∀ u ∈ statements, AllSound u)
    (hplain : ∀ u ∈ statements, isOptionalList u.kind = false) :
    AllSound (conditional guard statements) := by
  have hbody : AllSound (.branch .statements [] statements) := by
    refine allSound_node.mpr ⟨⟨rfl, fun c hc h => ?_, nofun⟩, hstatements⟩
    simp [hplain c hc] at h
  have hblock : AllSound (.branch .statementBlock [] [.branch .statements [] statements]) := by
    refine allSound_node.mpr ⟨⟨rfl, ?_, nofun⟩, by simpa using hbody⟩
    simp [Tree.branch, isOptionalList]
  refine allSound_node.mpr ⟨⟨rfl, ?_, nofun⟩, by simpa using ⟨hguard, hblock⟩⟩
  intro c hc h
  simp only [Tree.branch, Tree.children_node, List.mem_cons, List.not_mem_nil, or_false] at hc
  rcases hc with rfl | rfl
  · simp [hlist] at h
  · cases h

section
variable {r : Rule} {e : Element} {before after new : List Tree} {s : Tree}

/-- Everything that stands in the place of a child is sound, and the parent stays sound. -/
theorem Exchange.allSound (h : Exchange r (.node e (before ++ s :: after)) s new)
    (habove : Sound (.node e (before ++ s :: after))) (hs : AllSound s) :
    Sound (.node e (before ++ new ++ after)) ∧ ∀ u ∈ new, AllSound u := by
  have hinside : ∀ c ∈ s.children, AllSound c := fun c hc => hs.of_mem (Tree.child_mem_nodesAll hc)
  cases h with
  | emptyList hempty =>
    simp only [isEmptyOptional, Bool.and_eq_true] at hempty
    exact ⟨habove.drop hempty.1, by simp⟩
  | assignment he | call he => exact ⟨habove.splice he (by simp), by simp⟩
  | inner hr hu hplain =>
    have hfits := fits_of_header (hplain.isOptionalList hs) hr.header
    exact ⟨by simpa using habove.replace hfits, by simpa using hs.of_mem hu⟩
  | literal hr hu =>
    have hfits := fits_of_header hu.allSound.1 hr.header
    exact ⟨by simpa using habove.replace hfits, by simpa using hu.allSound.2⟩
  | decided he hdrawn hplain =>
    exact ⟨habove.splice he fun u hu => (hplain u hu).isOptionalList hs, hdrawn.allSound hinside⟩
  | @once _ _ before' guard body list statements last he hkind hdrawn hplain hlist hlkind hcs =>
    have hparts := hdrawn.allSound hinside
    have hbody : AllSound body := hparts body (by simp)
    have hlist : AllSound list := hbody.of_mem (Tree.child_mem_nodesAll hlist)
    have hguard := (hplain guard (by simp)).isOptionalList hs
    have hstatements : ∀ u ∈ statements, u ∈ list.children := fun u hu => by simp [hcs, hu]
    have hconditional : AllSound (conditional guard statements) := by
      refine allSound_conditional (hparts guard (by simp)) hguard
        (fun u hu => hlist.of_mem (Tree.child_mem_nodesAll (hstatements u hu))) fun u hu => ?_
      by_contra h
      have h := (hlist list (Tree.mem_nodes_self list)).lists u (hstatements u hu) (by simpa using h)
      simp [hlkind, holdsLists] at h
    refine ⟨habove.splice he fun u hu => ?_, fun u hu => ?_⟩
    · rcases List.mem_append.mp hu with hu | hu
      · exact (hplain u (by simp [hu])).isOptionalList hs
      · rw [List.mem_singleton.mp hu]; rfl
    · rcases List.mem_append.mp hu with hu | hu
      · exact hparts u (by simp [hu])
      · rwa [List.mem_singleton.mp hu]

/-- Putting sound trees in the place of a child. -/
theorem Splice.allSound {R : Tree → Tree → List Tree → Prop} {t t' : Tree} (h : Splice R t t')
    (hR : ∀ e before s new after, R (.node e (before ++ s :: after)) s new →
      Sound (.node e (before ++ s :: after)) → AllSound s →
      Sound (.node e (before ++ new ++ after)) ∧ ∀ u ∈ new, AllSound u)
    (ht : AllSound t) : AllSound t' ∧ Fits t t' := by
  obtain ⟨h⟩ := h
  obtain ⟨hnode, hcs⟩ := allSound_node.mp ht
  obtain ⟨hsound, hnew⟩ := hR _ _ _ _ _ h hnode (hcs _ (by simp))
  refine ⟨allSound_node.mpr ⟨hsound, fun c hc => ?_⟩, .of_kind rfl⟩
  simp only [List.mem_append] at hc
  rcases hc with (hc | hc) | hc
  · exact hcs c (by simp [hc])
  · exact hnew c hc
  · exact hcs c (by simp [hc])

theorem Update.allSound {t t' : Tree} (h : Update r t t') (ht : AllSound t) :
    AllSound t' ∧ Fits t t' := by
  cases h with
  | @arms e cs cs' hkind hsub htwo =>
    obtain ⟨hnode, hcs⟩ := allSound_node.mp ht
    refine ⟨allSound_node.mpr ⟨⟨?_, fun c hc h => ?_, fun h => ?_⟩, fun c hc => ?_⟩, .of_kind rfl⟩
    · simp [Tree.hasValidArity, hkind, Kind.allowsArity, htwo]
    · exact hnode.lists c (hsub.subset hc) h
    · simp [hkind] at h
    · exact hcs c (hsub.subset hc)
  | @join e u hkind =>
    obtain ⟨hnode, hcs⟩ := allSound_node.mp ht
    refine ⟨allSound_node.mpr ⟨⟨rfl, fun c hc h => ?_, fun h => by cases h⟩, fun c hc => ?_⟩,
      fits_of_header rfl (by simp [hkind, isHeader])⟩
    · simp only [Tree.children_node, List.mem_cons, List.not_mem_nil, or_false] at hc
      rcases hc with rfl | rfl
      · simpa [hkind, holdsLists] using hnode.lists c (by simp) h
      · cases h
    · simp only [List.mem_cons, List.not_mem_nil, or_false] at hc
      rcases hc with rfl | rfl
      · exact hcs c (by simp)
      · exact sound_leaf rfl (by simp)
  | @reversed e cs hkind =>
    obtain ⟨hnode, hcs⟩ := allSound_node.mp ht
    refine ⟨allSound_node.mpr ⟨⟨rfl, fun c hc h => ?_, fun h => by cases h⟩, fun c hc => ?_⟩, .of_kind hkind.symm⟩
    · simpa [hkind, holdsLists] using hnode.lists c (by simpa using hc) h
    · exact hcs c (by simpa using hc)
  | @value t quoting v hkind =>
    exact ⟨allSound_toTree quoting v,
      fits_of_header (isOptionalList_toTree v quoting) (by simp [hkind, isHeader])⟩

theorem LocalStep.allSound {t t' : Tree} (h : LocalStep r t t') (ht : AllSound t) :
    AllSound t' ∧ Fits t t' := by
  cases h with
  | exchange h => exact h.allSound (fun _ _ _ _ _ h => h.allSound) ht
  | update h => exact h.allSound ht

end

theorem Reworded.allSound {t t' : Tree} (h : Reworded t t') (ht : AllSound t) :
    AllSound t' ∧ Fits t t' := by
  obtain @⟨e, e', cs, h⟩ := h
  obtain ⟨hnode, hcs⟩ := allSound_node.mp ht
  have hkind := h.kind
  refine ⟨allSound_node.mpr ⟨⟨?_, fun c hc hlist => ?_, fun hloop => ?_⟩, hcs⟩, .of_kind hkind⟩
  · simpa [Tree.hasValidArity, hkind] using hnode.arity
  · simpa [hkind] using hnode.lists c hc hlist
  · exact hnode.header (hkind.symm.trans hloop)

theorem Simplify.Grafted.allSound {script : String} {parsed s : Tree} {e : Element}
    {before new after : List Tree} (h : Grafted script parsed (.node e (before ++ s :: after)) s new)
    (hparsed : AllSound parsed) (habove : Sound (.node e (before ++ s :: after))) :
    Sound (.node e (before ++ new ++ after)) ∧ ∀ u ∈ new, AllSound u := by
  obtain ⟨he, hnew, -⟩ := h
  have hsound := (drawn_scriptStatements hnew).allSound fun c hc =>
    hparsed.of_mem (Tree.child_mem_nodesAll hc)
  refine ⟨habove.splice he fun u hu => ?_, hsound⟩
  obtain ⟨part, hpart, hu⟩ := mem_scriptStatements hnew hu
  exact (plain_of_mem_statements hpart hu).isOptionalList hparsed

/-- A property of the tree and its fitting in its place go through a local change. -/
theorem Within.allSound {U : Tree → Tree → Prop}
    (hU : ∀ s s', U s s' → AllSound s → AllSound s' ∧ Fits s s') {t t' : Tree} (h : Within U t t')
    (ht : AllSound t) : AllSound t' ∧ Fits t t' := by
  induction h with
  | here h => exact hU _ _ h ht
  | @inside e before s s' after _ ih =>
    obtain ⟨hnode, hcs⟩ := allSound_node.mp ht
    obtain ⟨hs', hfits⟩ := ih (hcs _ (by simp))
    refine ⟨allSound_node.mpr ⟨hnode.replace hfits, fun c hc => ?_⟩, .of_kind rfl⟩
    simp only [List.mem_append, List.mem_cons] at hc
    rcases hc with hc | rfl | hc
    · exact hcs c (by simp [hc])
    · exact hs'
    · exact hcs c (by simp [hc])

theorem Within.wellFormed {U : Tree → Tree → Prop}
    (hU : ∀ s s', U s s' → AllSound s → AllSound s' ∧ Fits s s') {t t' : Tree} (h : Within U t t')
    (ht : WellFormed t) : WellFormed t' := by
  obtain ⟨hroot, hsound⟩ := wellFormed_iff.mp ht
  obtain ⟨hsound, hfits⟩ := h.allSound hU hsound
  refine wellFormed_iff.mpr ⟨?_, hsound⟩
  by_contra hlist
  simp [hfits.list (by simpa using hlist)] at hroot

theorem Application.wellFormed {context : Context} {rule : Rule} {t t' : Tree}
    (hparser : ∀ parser earlier script parsed, context.parser = some parser → parser earlier script = .ok parsed →
      WellFormed parsed)
    (ht : WellFormed t) (h : Application context rule t t') : WellFormed t' := by
  cases h with
  | steps h => exact h.keeps (fun _ _ h => h.wellFormed fun _ _ h => h.allSound) ht
  | spelling h => exact h.keeps (fun _ _ h => h.wellFormed fun _ _ h => h.reworded.allSound) ht
  | graft hp hparsed h =>
    have hparsed := (wellFormed_iff.mp (hparser _ _ _ _ hp hparsed)).2
    exact h.wellFormed (fun _ _ h => h.allSound fun _ _ _ _ _ h ha _ => h.allSound hparsed ha) ht

end Unscramble
