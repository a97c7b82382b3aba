import Mathlib.Data.List.Nodup
import Mathlib.Data.List.Perm.Subperm
import Unscramble.Proofs.Rewriting.Decrease
import Unscramble.Proofs.Rewriting.Respelled
import Unscramble.Proofs.Spelling.Rank

/-! Renaming leaves no long name behind. The numbers of new names skip nothing but names that are
taken, so there are not many more of them than names, and such numbers have few digits. -/
namespace Unscramble

open Text Simplify Unscramble.Tree

namespace Simplify

/-! ### Numbers -/

theorem generatedName_injective {m n : Nat} (h : generatedName m = generatedName n) : m = n := by
  have h : m.repr.toList = n.repr.toList := by
    have h := congrArg String.toList h
    simp only [generatedName, String.toList_append] at h
    exact List.append_cancel_left h
  rw [Nat.toList_repr, Nat.toList_repr] at h
  simpa using congrArg (Nat.ofDigitChars 10 · 0) h

theorem length_generatedName {n : Nat} (h : n < 10 ^ 20) : (generatedName n).length ≤ 25 := by
  have hdigits : n.repr.length ≤ 20 := (Nat.length_repr_le_iff (by decide)).mpr h
  have hlength : (generatedName n).length = 5 + n.repr.length := by
    rw [generatedName, String.length_append]; rfl
  omega

/-- Numbers that are passed over have names that are taken. -/
theorem freeNumber_skips {taken : List String} {next m : Nat} (hle : next ≤ m)
    (hlt : m < freeNumber taken next) : generatedName m ∈ taken := by
  obtain ⟨i, rfl⟩ := Nat.exists_eq_add_of_le hle
  unfold freeNumber at hlt
  have hi : i < ((List.range taken.length).find? fun i =>
      !taken.contains (generatedName (next + i))).getD taken.length := by omega
  cases hfind : (List.range taken.length).find? fun i =>
      !taken.contains (generatedName (next + i)) with
  | none =>
    rw [hfind, Option.getD_none] at hi
    have h := List.find?_eq_none.mp hfind i (List.mem_range.mpr hi)
    simpa using h
  | some j =>
    rw [hfind, Option.getD_some] at hi
    have h := (List.find?_range_eq_some.mp hfind).2.2 i hi
    simpa using h

theorem le_freeNumber (taken : List String) (next : Nat) : next ≤ freeNumber taken next :=
  Nat.le_add_right ..

/-- All new names have numbers that were given away. -/
def Generated (memory : Memory) : Prop :=
  ∀ entry ∈ memory.renamed, ∃ n < memory.next, entry.2 = generatedName n

theorem Generated.add {memory : Memory} (h : Generated memory) (taken : List String) (name : String) :
    Generated (addReplacement taken memory name) := by
  unfold addReplacement
  split
  · exact h
  intro entry hentry
  rcases List.mem_append.mp hentry with hentry | hentry
  · obtain ⟨n, hn, heq⟩ := h entry hentry
    exact ⟨n, Nat.lt_succ_of_lt (Nat.lt_of_lt_of_le hn (le_freeNumber ..)), heq⟩
  · rw [List.mem_singleton.mp hentry]
    exact ⟨_, Nat.lt_succ_self _, rfl⟩

theorem Generated.foldl {memory : Memory} (h : Generated memory) (taken names : List String) :
    Generated (names.foldl (addReplacement taken) memory) := by
  induction names generalizing memory with
  | nil => exact h
  | cons name names ih => exact ih (h.add taken name)

theorem Generated.replacement {memory : Memory} (h : Generated memory) {name : String}
    (hsome : (replacement? memory name).isSome = true) :
    ∃ n < memory.next, replacement? memory name = some (generatedName n) := by
  obtain ⟨new, hnew⟩ := Option.isSome_iff_exists.mp hsome
  obtain ⟨entry, hentry, rfl⟩ := Option.map_eq_some_iff.mp hnew
  obtain ⟨n, hn, heq⟩ := h entry (List.mem_of_find?_eq_some hentry)
  exact ⟨n, hn, heq ▸ hnew⟩

/-- What holds while names get their numbers: no number was passed over but for taken names. -/
structure Numbered (taken : List String) (memory : Memory) : Prop where
  generated : Generated memory
  used : ∀ m < memory.next, generatedName m ∈ taken ++ memory.renamed.map (·.2)

theorem Numbered.next_le {taken : List String} {memory : Memory} (h : Numbered taken memory) :
    memory.next ≤ taken.length + memory.renamed.length := by
  have hnodup : ((List.range memory.next).map generatedName).Nodup :=
    List.nodup_range.map fun _ _ => generatedName_injective
  have hsub : (List.range memory.next).map generatedName ⊆ taken ++ memory.renamed.map (·.2) := by
    intro name hname
    obtain ⟨m, hm, rfl⟩ := List.mem_map.mp hname
    exact h.used m (List.mem_range.mp hm)
  simpa using (hnodup.subperm hsub).length_le

theorem Numbered.add {taken : List String} {memory : Memory} (h : Numbered taken memory)
    (name : String) : Numbered taken (addReplacement taken memory name) := by
  refine ⟨h.generated.add taken name, ?_⟩
  unfold addReplacement
  split
  · exact h.used
  intro m hm
  simp only [List.map_append, List.map_cons, List.map_nil, ← List.append_assoc]
  by_cases hold : m < memory.next
  · exact List.mem_append_left _ (h.used m hold)
  · rcases Nat.lt_succ_iff_lt_or_eq.mp hm with hlt | rfl
    · simp [freeNumber_skips (Nat.le_of_not_lt hold) hlt]
    · simp

theorem replacement?_isSome_append {memory : Memory} {name : String} {more : List (String × String)}
    {next : Nat} (h : (replacement? memory name).isSome = true) :
    (replacement? { memory with renamed := memory.renamed ++ more, next } name).isSome = true := by
  simp only [replacement?, Option.isSome_map, List.find?_append] at h ⊢
  simp [h]

theorem addReplacement_isSome (taken : List String) {memory : Memory} (name : String) {other : String}
    (h : (replacement? memory other).isSome = true ∨ other = name) :
    (replacement? (addReplacement taken memory name) other).isSome = true := by
  unfold addReplacement
  split
  next hname => exact h.elim id fun heq => heq ▸ hname
  next =>
    rcases h with h | rfl
    · exact replacement?_isSome_append h
    · simp [replacement?, List.find?_append]

theorem length_addReplacement_le (taken : List String) (memory : Memory) (name : String) :
    (addReplacement taken memory name).renamed.length ≤ memory.renamed.length + 1 := by
  unfold addReplacement
  split <;> simp

/-- All names of a list get a replacement, and none is lost. -/
theorem foldl_addReplacement_isSome (taken names : List String) {memory : Memory} {name : String}
    (h : (replacement? memory name).isSome = true ∨ name ∈ names) :
    (replacement? (names.foldl (addReplacement taken) memory) name).isSome = true := by
  induction names generalizing memory with
  | nil => simpa using h
  | cons first names ih =>
    rw [List.mem_cons] at h
    refine ih ?_
    rcases h with h | rfl | h
    · exact .inl (addReplacement_isSome taken first (.inl h))
    · exact .inl (addReplacement_isSome taken name (.inr rfl))
    · exact .inr h

/-- There are not more replacements than names. -/
theorem foldl_addReplacement {taken : List String} {memory : Memory} (names : List String)
    (h : Numbered taken memory) :
    Numbered taken (names.foldl (addReplacement taken) memory) ∧
      (names.foldl (addReplacement taken) memory).renamed.length ≤
        memory.renamed.length + names.length := by
  induction names generalizing memory with
  | nil => exact ⟨h, Nat.le_refl _⟩
  | cons first names ih =>
    obtain ⟨hnumbered, hlength⟩ := ih (h.add first)
    have hfirst := length_addReplacement_le taken memory first
    refine ⟨hnumbered, ?_⟩
    rw [List.foldl_cons, List.length_cons]
    omega

/-! ### Names -/

/-- Counts elements with a long name. -/
def longWeight (threshold : Nat) (e : Element) : Nat :=
  ((nameOf? e).any fun name => isLong threshold (splitSigil name).2).toNat

theorem renamedElement?_eq_none {threshold : Nat} {memory : Memory} {e : Element} :
    renamedElement? threshold memory e = none ↔ longWeight threshold e = 0 := by
  unfold renamedElement? longWeight nameOf?
  cases nameKey? e.kind with
  | none => simp
  | some key =>
    cases hname : e.attr? key with
    | none => simp [hname]
    | some name => simp [hname]

/-- Nodes that may have a name, or that a rule may turn into such a node. -/
def namedKind : Kind → Nat
  | .variableRef | .parameter | .binaryExpression | .unaryExpression => 1
  | _ => 0

theorem namedKind_of_nameOf? {e : Element} {name : String} (h : nameOf? e = some name) :
    kindWeight namedKind e = 1 := by
  obtain ⟨key, hkey, -⟩ := Option.bind_eq_some_iff.mp h
  unfold nameKey? at hkey
  split at hkey
  next hkind => rw [kindWeight, hkind]; rfl
  next hkind => rw [kindWeight, hkind]; rfl
  next => cases hkey

theorem foldBinary_kind {k : Kind} (h : Folds .foldBinary k) : k = .binaryExpression := by
  cases h; rfl

theorem fair_named (r : Rule) : Fair (kindWeight namedKind) r where
  literal {e u} hfolds hu := by
    cases hu with
    | value v quoting => simp [weigh_toTree_kind (w := namedKind) (by decide) quoting v]
    | truth => simp [boolTree, leaf, kindWeight, namedKind, foldBinary_kind hfolds]
    | type => simp [leaf, kindWeight, namedKind]
  loop _ _ _ _ := by simp [conditionalElements, kindWeight, namedKind]
  join _ hkind := by simp [kindWeight, hkind, namedKind, joinedElement, stringTree, leaf]
  reversed _ _ := by simp [kindWeight, namedKind]
  value {_ v quoting} _ _ := by simp [weigh_toTree_kind (w := namedKind) (by decide) quoting v]

theorem longWeight_value {threshold : Nat} (e : Element) (h : e.kind ∈ valueKinds) :
    longWeight threshold e = 0 := by
  have hkey : nameKey? e.kind = none := by
    simp only [valueKinds, List.mem_cons, List.not_mem_nil, or_false] at h
    rcases h with h | h | h | h <;> rw [h] <;> rfl
  simp [longWeight, nameOf?, hkey]

theorem longWeight_truth {threshold : Nat} (hthreshold : 30 ≤ threshold) (b : Bool) :
    weigh (longWeight threshold) (boolTree b) = 0 := by
  have hname : nameOf? (boolTree b).element = some (if b then "true" else "false") := by
    cases b <;> decide
  have hlength : (if b then "true" else "false").length < threshold := by
    cases b <;> exact Nat.lt_of_lt_of_le (by decide) hthreshold
  rw [weigh_eq, longWeight, hname, Option.any_some, isLong_of_length hlength]
  simp [boolTree, leaf]

theorem fair_long {threshold : Nat} (hthreshold : 30 ≤ threshold) (r : Rule) :
    Fair (longWeight threshold) r where
  literal {e u} _ hu := by
    have hzero : weigh (longWeight threshold) u = 0 := by
      cases hu with
      | value v quoting => exact weigh_toTree_eq_zero longWeight_value quoting v
      | truth b => exact longWeight_truth hthreshold b
      | type => simp [leaf, longWeight, nameOf?, nameKey?]
    omega
  loop _ _ _ _ := by simp [conditionalElements, longWeight, nameOf?, nameKey?]
  join _ hkind := by simp [joinedElement, stringTree, leaf, longWeight, nameOf?, nameKey?]
  reversed _ _ := by simp [longWeight, nameOf?, nameKey?]
  value {_ v quoting} _ _ := by simp [weigh_toTree_eq_zero longWeight_value quoting v]

mutual

theorem length_namesIn_le : (t : Tree) → (namesIn t).length ≤ weigh (kindWeight namedKind) t
  | .node e cs => by
    have hcs := length_namesInAll_le cs
    rw [namesIn, nodes, List.filterMap_cons, weigh_node]
    cases hname : nameOf? e with
    | none => simpa [hname] using Nat.le_add_left_of_le hcs
    | some name =>
      have hone := namedKind_of_nameOf? hname
      simp only [element_node, hname, Option.map_some, List.length_cons]
      omega

theorem length_namesInAll_le : (ts : List Tree) →
    ((nodesAll ts).filterMap fun n => (nameOf? n.element).map fun name => (splitSigil name).2).length ≤
      weighAll (kindWeight namedKind) ts
  | [] => Nat.le_refl _
  | t :: ts => by
    rw [nodesAll, List.filterMap_append, List.length_append, weighAll_cons]
    exact Nat.add_le_add (length_namesIn_le t) (length_namesInAll_le ts)

end

/-! ### The rule -/

section
variable {threshold : Nat} {memory : Memory} {t t' : Tree}

theorem mem_namesIn {u : Tree} {name : String} (hu : u ∈ t.nodes)
    (hname : nameOf? u.element = some name) : (splitSigil name).2 ∈ namesIn t :=
  List.mem_filterMap.mpr ⟨u, hu, by rw [hname, Option.map_some]⟩

/-- Nothing is remembered if nothing is renamed. -/
theorem renameLongNames_none (h : (renameLongNames threshold memory t).1 = none) :
    (renameLongNames threshold memory t).2 = memory := by
  have hnone : (namesIn t).filter (isLong threshold) = [] := by
    refine List.filter_eq_nil_iff.mpr fun bare hbare hlong => ?_
    obtain ⟨u, hu, hbare⟩ := List.mem_filterMap.mp hbare
    obtain ⟨name, hname, rfl⟩ := Option.map_eq_some_iff.mp hbare
    obtain ⟨_, hrenamed⟩ := respellFrom?_eq_none h u hu
    have hweight := renamedElement?_eq_none.mp hrenamed
    rw [longWeight, hname, Option.any_some, hlong] at hweight
    cases hweight
  rw [renameLongNames, hnone, List.foldl_nil]

theorem Generated.rename (h : Generated memory) :
    Generated (renameLongNames threshold memory t).2 := h.foldl _ _

/-- The names of a tree use up as many numbers as there are names, and as many again that are taken. -/
theorem renameLongNames_next_lt (hfresh : memory.renamed = []) (hnext : memory.next = 0)
    (hnames : weigh (kindWeight namedKind) t < 2 ^ 63) :
    (renameLongNames threshold memory t).2.next < 10 ^ 20 := by
  have hnumbered : Numbered ((namesIn t).map lower) memory :=
    ⟨by simp [Generated, hfresh], by simp [hnext]⟩
  obtain ⟨hnumbered, hlength⟩ :=
    foldl_addReplacement ((namesIn t).filter (isLong threshold)) hnumbered
  have hnext := hnumbered.next_le
  have hfilter := List.length_filter_le (isLong threshold) (namesIn t)
  have hall := length_namesIn_le t
  rw [hfresh, List.length_nil] at hlength
  rw [List.length_map] at hnext
  rw [renameLongNames]
  dsimp only
  omega

/-- What a name is replaced by. -/
theorem renamedElement?_eq_some {e' : Element} {u : Tree} (hgenerated : Generated memory)
    (hu : u ∈ t.nodes)
    (h : renamedElement? threshold (renameLongNames threshold memory t).2 u.element = some e') :
    ∃ key name, ∃ n < (renameLongNames threshold memory t).2.next, nameKey? u.kind = some key ∧
      u.attr? key = some name ∧ isLong threshold (splitSigil name).2 = true ∧
      e' = u.element.withAttr key ((splitSigil name).1 ++ generatedName n) := by
  simp only [renamedElement?, Option.bind_eq_some_iff, Option.ite_none_right_eq_some,
    Option.some.injEq] at h
  obtain ⟨key, hkey, name, hname, hlong, rfl⟩ := h
  have hmem : (splitSigil name).2 ∈ (namesIn t).filter (isLong threshold) :=
    List.mem_filter.mpr ⟨mem_namesIn hu (by simp [nameOf?, hkey, hname]), hlong⟩
  obtain ⟨n, hn, hnew⟩ :=
    (hgenerated.foldl _ _).replacement (foldl_addReplacement_isSome ((namesIn t).map lower) _ (.inr hmem))
  refine ⟨key, name, n, hn, hkey, hname, hlong, ?_⟩
  have hnew : replacement? (renameLongNames threshold memory t).2 (splitSigil name).2 =
      some (generatedName n) := hnew
  rw [hnew, Option.getD_some]

theorem length_sigil_le (name : String) : (splitSigil name).1.length ≤ 1 := by
  unfold splitSigil
  split
  next => exact (by decide : "$".length ≤ 1)
  next => exact (by decide : "".length ≤ 1)

theorem isLong_generated (hthreshold : 30 ≤ threshold) (name : String) {n : Nat} (hn : n < 10 ^ 20) :
    isLong threshold (splitSigil ((splitSigil name).1 ++ generatedName n)).2 = false := by
  have hsigil := length_sigil_le name
  have hlength := length_generatedName hn
  refine isLong_of_length ?_
  rw [String.length_append]
  omega

/-- A renamed element has a short name, and a lower rank. -/
theorem renamed_rank_lt (hthreshold : 30 ≤ threshold) {e : Element} {key name : String} {n : Nat}
    (hn : n < 10 ^ 20) (hkey : nameKey? e.kind = some key) (hname : e.attr? key = some name)
    (hlong : isLong threshold (splitSigil name).2 = true) :
    let e' := e.withAttr key ((splitSigil name).1 ++ generatedName n)
    longWeight threshold e' = 0 ∧ rank threshold e' < rank threshold e := by
  intro e'
  have hshort := isLong_generated hthreshold name hn
  constructor
  · simp [longWeight, nameOf?, e', hkey, hshort]
  · unfold nameKey? at hkey
    split at hkey
    next hkind =>
      cases hkey
      have hold : 4 ≤ pathRank threshold name := by
        rw [pathRank, hlong, Bool.toNat_true]
        omega
      have hdrive := toNat_isSome_le (lowerDrive? ((splitSigil name).1 ++ generatedName n))
      have hspecial := toNat_isSome_le ((Vocabulary.specialVariable?
        ((splitSigil name).1 ++ generatedName n)).bind
        (changed? ((splitSigil name).1 ++ generatedName n)))
      have hnew : pathRank threshold ((splitSigil name).1 ++ generatedName n) ≤ 3 := by
        rw [pathRank, hshort, Bool.toNat_false]
        omega
      simp only [rank, e', Element.kind_withAttr, hkind, Element.attr?_withAttr, if_true,
        Option.map_some, Option.getD_some, hname]
      omega
    next hkind =>
      cases hkey
      simp [rank, e', hkind, hname, hlong, hshort]
    next => cases hkey

/-- A renaming makes all names short, as long as there are not too many. -/
theorem renameLongNames_some (hthreshold : 30 ≤ threshold) (hgenerated : Generated memory)
    (hnext : (renameLongNames threshold memory t).2.next ≤ 10 ^ 20)
    (h : (renameLongNames threshold memory t).1 = some t') :
    weigh (longWeight threshold) t' = 0 ∧ weigh (rank threshold) t' < weigh (rank threshold) t := by
  have h : t.respell? (fun _ s =>
      renamedElement? threshold (renameLongNames threshold memory t).2 s.element) = some t' := h
  have hrenamed (u : Tree) (hu : u ∈ t.nodes) (e' : Element)
      (he' : renamedElement? threshold (renameLongNames threshold memory t).2 u.element = some e') :
      longWeight threshold e' = 0 ∧ rank threshold e' < rank threshold u.element := by
    obtain ⟨key, name, n, hn, hkey, hname, hlong, rfl⟩ := renamedElement?_eq_some hgenerated hu he'
    exact renamed_rank_lt hthreshold (Nat.lt_of_lt_of_le hn hnext) hkey hname hlong
  generalize (renameLongNames threshold memory t).2 = remembered at h hrenamed
  rw [respelled_of_respell? h, weigh_respelled, weigh_respelled]
  constructor
  · refine weigh_eq_zero t fun u hu => ?_
    cases he' : renamedElement? threshold remembered u.element with
    | none => exact renamedElement?_eq_none.mp he'
    | some e' => exact (hrenamed u hu e' he').1
  · refine (weigh_mono t fun u hu => ?_).2 ?_
    · cases he' : renamedElement? threshold remembered u.element with
      | none => exact Nat.le_refl _
      | some e' => exact Nat.le_of_lt (hrenamed u hu e' he').2
    · by_contra hnone
      have hcongr : t.respell? (fun _ s => renamedElement? threshold remembered s.element) =
          t.respell? fun _ _ => none := by
        refine respell?_congr fun u hu _ => Option.eq_none_iff_forall_ne_some.mpr fun e' he' => ?_
        exact hnone ⟨u, hu, by rw [he', Option.getD_some]; exact (hrenamed u hu e' he').2⟩
      rw [hcongr, respell?_none] at h
      cases h

/-- There is nothing to rename without a long name. -/
theorem renameLongNames_short (h : weigh (longWeight threshold) t = 0) :
    (renameLongNames threshold memory t).1 = none := by
  refine (respell?_congr (g := fun _ _ => none) fun u hu _ => ?_).trans (respell?_none t)
  refine renamedElement?_eq_none.mpr (Nat.le_zero.mp ?_)
  exact h ▸ element_le_weigh (w := longWeight threshold) hu

/-- There is something to rename if there is a long name, whatever the names are replaced by. -/
theorem renameLongNames_eq_none :
    (renameLongNames threshold memory t).1 = none ↔ weigh (longWeight threshold) t = 0 := by
  refine ⟨fun h => weigh_eq_zero t fun u hu => ?_, renameLongNames_short⟩
  obtain ⟨_, hrenamed⟩ := respellFrom?_eq_none h u hu
  exact renamedElement?_eq_none.mp hrenamed

theorem nameOf?_withAttr {e : Element} {key value : String} (hpath : key ≠ "VariablePath")
    (hname : key ≠ "Name") : nameOf? (e.withAttr key value) = nameOf? e := by
  unfold nameOf? nameKey?
  rw [Element.kind_withAttr]
  split
  · simp [hpath.symm]
  · simp [hname.symm]
  · rfl

theorem longWeight_withAttr {e : Element} {key value : String} (hpath : key ≠ "VariablePath")
    (hname : key ≠ "Name") : longWeight threshold (e.withAttr key value) = longWeight threshold e := by
  rw [longWeight, longWeight, nameOf?_withAttr hpath hname]

theorem longWeight_path {path new : String} (hpath : t.variablePath? = some path)
    (hnew : isLong threshold (splitSigil new).2 = false) :
    longWeight threshold (t.element.withAttr "VariablePath" new) = 0 := by
  simp only [variablePath?, Option.ite_none_right_eq_some] at hpath
  have hkind : t.element.kind = .variableRef := is_iff.mp hpath.1
  simp [longWeight, nameOf?, hkind, nameKey?, hnew]

end

end Simplify

/-- No name gets long but by being renamed. -/
theorem Spells.long_le {threshold : Nat} (hthreshold : 30 ≤ threshold) {r : Rule} {t : Tree}
    {e' : Element} (h : Spells threshold r t e') (hr : r ≠ .renameLongNames) :
    longWeight threshold e' ≤ longWeight threshold t.element := by
  cases h with
  | drive | case | expand => exact Nat.le_refl _
  | path hpath hnew =>
    rw [longWeight_path hpath (isLong_of_isQualified (isQualified_of_lowerDrive? hnew).2)]
    exact Nat.zero_le _
  | member =>
    change longWeight threshold (asBareword t) ≤ _
    exact Nat.le_of_eq (longWeight_withAttr
      (by decide : "StringConstantType" ≠ "VariablePath") (by decide))
  | command =>
    exact Nat.le_of_eq (longWeight_withAttr
      (by decide : "StringConstantType" ≠ "VariablePath") (by decide))
  | constraint | type => exact Nat.le_of_eq (longWeight_withAttr (by decide) (by decide))
  | special hpath hspecial =>
    have hlength := Nat.lt_of_lt_of_le (length_special hspecial) hthreshold
    rw [longWeight_path hpath (isLong_of_length hlength)]
    exact Nat.zero_le _
  | name => exact absurd rfl hr

end Unscramble
