import Mathlib.Data.List.Forall2
import Unscramble.Proofs.Spelling.NewNames
import Unscramble.Proofs.Text.Ascii

/-! What is remembered about long names does not depend on how drives, automatic variables and words are
spelled. The rules about those leave long names alone, and they make no name the same as a new one. -/
namespace Unscramble

open Text Vocabulary Simplify Unscramble.Tree

namespace Simplify

/-! ### Names that are treated alike -/

/-- The name of a node without its sigil. -/
def bareName? (e : Element) : Option String := (nameOf? e).map fun name => (splitSigil name).2

/-- Two names that renaming does not tell apart: both are short, or they are the same. -/
structure SameName (threshold : Nat) (a b : String) : Prop where
  long : isLong threshold b = isLong threshold a
  eq : isLong threshold a = true → b = a
  generated : ∀ n, lower b = generatedName n ↔ lower a = generatedName n

section
variable {threshold : Nat} {names names' : List String}

theorem SameName.rfl {name : String} : SameName threshold name name :=
  ⟨Eq.refl _, fun _ => Eq.refl _, fun _ => Iff.rfl⟩

theorem SameName.of_short {a b : String} (ha : isLong threshold a = false) (hb : isLong threshold b = false)
    (hgenerated : ∀ n, lower b = generatedName n ↔ lower a = generatedName n) : SameName threshold a b :=
  ⟨hb.trans ha.symm, fun h => absurd (h.symm.trans ha) (by decide), hgenerated⟩

theorem filter_isLong_congr (h : List.Forall₂ (SameName threshold) names names') :
    names'.filter (isLong threshold) = names.filter (isLong threshold) := by
  induction h with
  | nil => rfl
  | @cons a b as bs hab _ ih =>
    rw [List.filter_cons, List.filter_cons, hab.long, ih]
    split
    next hlong => rw [hab.eq hlong]
    next => rfl

theorem mem_lower_congr (h : List.Forall₂ (SameName threshold) names names') (n : Nat) :
    generatedName n ∈ names'.map lower ↔ generatedName n ∈ names.map lower := by
  induction h with
  | nil => exact Iff.rfl
  | cons hab _ ih =>
    rw [List.map_cons, List.map_cons, List.mem_cons, List.mem_cons, ih, eq_comm, hab.generated n,
      eq_comm (a := generatedName n)]

theorem freeNumber_congr {taken taken' : List String} (hlength : taken'.length = taken.length)
    (h : ∀ n, generatedName n ∈ taken' ↔ generatedName n ∈ taken) (next : Nat) :
    freeNumber taken' next = freeNumber taken next := by
  have hcontains (n : Nat) : taken'.contains (generatedName n) = taken.contains (generatedName n) := by
    rw [Bool.eq_iff_iff]
    simpa using h n
  simp only [freeNumber, hlength, hcontains]

theorem addReplacement_congr {taken taken' : List String} (hlength : taken'.length = taken.length)
    (h : ∀ n, generatedName n ∈ taken' ↔ generatedName n ∈ taken) :
    addReplacement taken' = addReplacement taken := by
  funext memory name
  rw [addReplacement, addReplacement, freeNumber_congr hlength h]

/-- What is remembered depends on nothing but what renaming tells apart. -/
theorem renameLongNames_congr {t t' : Tree} (memory : Memory)
    (h : List.Forall₂ (SameName threshold) (namesIn t) (namesIn t')) :
    (renameLongNames threshold memory t').2 = (renameLongNames threshold memory t).2 := by
  have hlength : ((namesIn t').map lower).length = ((namesIn t).map lower).length := by
    simpa using h.length_eq.symm
  simp only [renameLongNames, filter_isLong_congr h, addReplacement_congr hlength (mem_lower_congr h)]

end

/-! ### What the rules do to names -/

section
variable {threshold : Nat}

theorem colon_generatedName (n : Nat) : ':' ∉ (generatedName n).toList := by
  intro hcolon
  have hdigits : ':' ∈ "deob_".toList ++ n.repr.toList := by
    rwa [generatedName, String.toList_append] at hcolon
  rw [Nat.toList_repr, List.mem_append] at hdigits
  rcases hdigits with h | h
  · exact absurd h (by decide)
  · exact absurd (Nat.isDigit_of_mem_toDigits (by decide) (by decide) h) (by decide)

/-- No qualified name is like a new one. -/
theorem lower_ne_generatedName {name : String} (h : isQualified name = true) (n : Nat) :
    lower name ≠ generatedName n := by
  intro heq
  have hcolon : ':' ∈ name.toList := by simpa [isQualified] using h
  exact colon_generatedName n (heq ▸ mem_lower (by decide) rfl hcolon)

theorem SameName.drive {path new : String} (h : lowerDrive? path = some new) :
    SameName threshold (splitSigil path).2 (splitSigil new).2 := by
  obtain ⟨hpath, hnew⟩ := isQualified_of_lowerDrive? h
  exact .of_short (isLong_of_isQualified hpath) (isLong_of_isQualified hnew) fun n =>
    iff_of_false (lower_ne_generatedName (isQualified_splitSigil hnew) n)
      (lower_ne_generatedName (isQualified_splitSigil hpath) n)

theorem splitSigil_same {a b : String} (h : sameIgnoringCase a b = true) :
    sameIgnoringCase (splitSigil a).2 (splitSigil b).2 = true := by
  have hdollar (x : Char) : x.toLower = '$' ↔ x = '$' := toLower_eq_iff (by decide) rfl
  have hsame := sameIgnoringCase_iff.mp h
  unfold splitSigil
  split
  next rest hrest =>
    rw [hrest] at hsame
    obtain ⟨c, rest', hb, hc, hsame⟩ := sameText_cons_right.mp hsame.symm
    rw [(hdollar c).mp hc] at hb
    rw [hb]
    exact sameIgnoringCase_iff.mpr (by simpa using hsame.symm)
  next hplain =>
    split
    next rest hrest =>
      rw [hrest] at hsame
      obtain ⟨c, rest', ha, hc, -⟩ := sameText_cons_right.mp hsame
      rw [(hdollar c).mp hc] at ha
      exact absurd ha (hplain rest')
    next => exact h

theorem ascii_special {name special : String} (h : specialVariable? name = some special) :
    ∀ c ∈ special.toList, c.toNat < 128 := by
  have htable : ∀ entry ∈ specialVariables, entry.1.toList.all (fun c => c.toNat < 128) = true := by
    decide +kernel
  obtain ⟨entry, hmem, -, rfl⟩ := specialVariable?_eq_some h
  simpa using htable entry hmem

theorem ascii_of_same {s t : List Char} (h : SameText s t) (hs : ∀ c ∈ s, c.toNat < 128) :
    ∀ c ∈ t, c.toNat < 128 := by
  intro c hc
  have hmem : c.toLower ∈ s.map Char.toLower :=
    (show s.map Char.toLower = t.map Char.toLower from h) ▸ List.mem_map_of_mem hc
  obtain ⟨d, hd, heq⟩ := List.mem_map.mp hmem
  exact ascii_of_toLower (heq ▸ toLower_ascii (hs d hd))

theorem SameName.special (hthreshold : 30 ≤ threshold) {path special : String}
    (h : specialVariable? path = some special) :
    SameName threshold (splitSigil path).2 (splitSigil special).2 := by
  have hsame : sameIgnoringCase special path = true := by
    obtain ⟨entry, -, hsame, rfl⟩ := specialVariable?_eq_some h
    exact hsame
  have hlength : special.length = path.length := by
    have hlength := (sameIgnoringCase_iff.mp hsame).length
    rwa [String.length_toList, String.length_toList] at hlength
  have hshort := Nat.lt_of_lt_of_le (length_special h) hthreshold
  have hbare := splitSigil_same hsame
  -- both names are ASCII, so that they have the same lower case
  have hsplit := splitSigil_toList special
  have hascii : ∀ c ∈ (splitSigil special).2.toList, c.toNat < 128 := fun c hc =>
    ascii_special h c (hsplit ▸ List.mem_append_right _ hc)
  have hascii' := ascii_of_same (sameIgnoringCase_iff.mp hbare) hascii
  have hlower : lower (splitSigil special).2 = lower (splitSigil path).2 := by
    rw [lower_ascii hascii, lower_ascii hascii']
    simpa [sameIgnoringCase] using hbare
  exact .of_short (isLong_of_length (hlength ▸ hshort)) (isLong_of_length hshort) fun n => by rw [hlower]

theorem bareName?_path {t : Tree} {path : String} (h : t.variablePath? = some path) (new : String) :
    bareName? t.element = some (splitSigil path).2 ∧
      bareName? (t.element.withAttr "VariablePath" new) = some (splitSigil new).2 := by
  simp only [variablePath?, Option.ite_none_right_eq_some] at h
  have hkind : t.element.kind = .variableRef := is_iff.mp h.1
  have hattr : t.element.attr? "VariablePath" = some path := h.2
  simp [bareName?, nameOf?, nameKey?, hkind, hattr]

end
end Simplify

theorem Spells.sameName {threshold : Nat} (hthreshold : 30 ≤ threshold) {r : Rule} {t : Tree} {e' : Element}
    (h : Spells threshold r t e') (hr : r ≠ .renameLongNames) :
    Option.Rel (SameName threshold) (bareName? t.element) (bareName? e') := by
  have hsame {e : Element} (h : nameOf? e = nameOf? t.element) :
      Option.Rel (SameName threshold) (bareName? t.element) (bareName? e) := by
    rw [bareName?, bareName?, h]
    cases nameOf? t.element with
    | none => exact .none
    | some name => exact .some .rfl
  cases h with
  | drive | case | expand => exact hsame rfl
  | path hpath hnew =>
    obtain ⟨hold, hnew'⟩ := bareName?_path hpath _
    rw [hold, hnew']
    exact .some (.drive hnew)
  | member | command =>
    have hquotes : nameOf? (asBareword t) = nameOf? t.element := nameOf?_withAttr (by decide) (by decide)
    exact hsame hquotes
  | special hpath hspecial =>
    obtain ⟨hold, hnew'⟩ := bareName?_path hpath _
    rw [hold, hnew']
    exact .some (.special hthreshold hspecial)
  | constraint | type => exact hsame (nameOf?_withAttr (by decide) (by decide))
  | name => exact absurd rfl hr

/-! ### Trees -/

namespace Tree

/-- A respelled tree has the nodes of the tree in the same order, with other elements. -/
theorem nodes_respelled (f : Respelling) (t : Tree) : ∀ above,
    List.Forall₂ (fun u u' => ∃ above, u'.element = (f above u).getD u.element) t.nodes
      (respelled f above t).nodes := by
  induction t using children_induction with
  | h e cs ih =>
    intro above
    rw [respelled_node, nodes, nodes, nodesAll_eq_flatMap, nodesAll_eq_flatMap]
    refine .cons ⟨above, rfl⟩ (List.rel_flatMap (R := fun c c' => List.Forall₂ _ c.nodes c'.nodes) ?_
      fun _ _ h => h)
    refine List.forall₂_iff_get.mpr ⟨by simp, fun i hi _ => ?_⟩
    simpa using ih cs[i] (List.getElem_mem hi) _

end Tree

theorem SpellsBy.remembers {threshold : Nat} (hthreshold : 30 ≤ threshold) {r : Rule} {f : Respelling}
    (hf : SpellsBy threshold r f) (hr : r ≠ .renameLongNames) (memory : Memory) (t : Tree)
    (above : Option (Tree × Nat)) :
    (renameLongNames threshold memory (respelled f above t)).2 = (renameLongNames threshold memory t).2 := by
  refine renameLongNames_congr memory (List.rel_filterMap ?_ (nodes_respelled f t above))
  rintro u u' ⟨above, heq⟩
  change Option.Rel _ (bareName? u.element) (bareName? u'.element)
  rw [heq]
  cases h : f above u with
  | some e' => exact (hf above u e' h).sameName hthreshold hr
  | none =>
    rw [Option.getD_none]
    cases bareName? u.element with
    | none => exact .none
    | some name => exact .some .rfl

end Unscramble
