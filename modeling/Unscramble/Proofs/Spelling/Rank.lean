import Unscramble.Proofs.Rewriting.Spells
import Unscramble.Proofs.Spelling.Drives

/-! How far the spelling of an element is from the usual one. Every rule that changes a spelling
lowers the rank of the elements it changes: a quoted word may become any bareword, an alias any
command that is no alias, a shouted drive any name with a quiet one. -/
namespace Unscramble

open Text Vocabulary Simplify

/-- The rank of a bareword. -/
def wordRank (word : String) : Nat :=
  4 * (aliasTarget? word).isSome.toNat + 2 * (lowerDrive? word).isSome.toNat +
    (changed? word (canonicalCase word)).isSome.toNat

/-- The rank of the name of a variable. -/
def pathRank (threshold : Nat) (path : String) : Nat :=
  4 * (isLong threshold (splitSigil path).2).toNat + 2 * (lowerDrive? path).isSome.toNat +
    ((specialVariable? path).bind (changed? path)).isSome.toNat

def elementQuoting? (e : Element) : Option Quoting :=
  (e.attr? "StringConstantType").bind Quoting.ofName?

def rank (threshold : Nat) (e : Element) : Nat :=
  match e.kind with
  | .stringConstant =>
    match elementQuoting? e with
    | none => 0
    | some .bareWord => wordRank e.payload
    | some _ => 8
  | .variableRef => ((e.attr? "VariablePath").map (pathRank threshold)).getD 0
  | .parameter => ((e.attr? "Name").map fun name =>
      4 * (isLong threshold (splitSigil name).2).toNat).getD 0
  | .typeConstraint | .typeExpression => ((e.attr? "TypeName").map fun name =>
      (changed? name (canonicalCase name)).isSome.toNat).getD 0
  | _ => 0

theorem toNat_isSome_le {α : Type} (o : Option α) : o.isSome.toNat ≤ 1 := Bool.toNat_le _

theorem changed?_self (s : String) : changed? s s = none := by simp [changed?]

theorem wordRank_le (word : String) : wordRank word ≤ 7 := by
  have h₁ := toNat_isSome_le (aliasTarget? word)
  have h₂ := toNat_isSome_le (lowerDrive? word)
  have h₃ := toNat_isSome_le (changed? word (canonicalCase word))
  unfold wordRank
  omega

theorem wordRank_lowerDrive? {word new : String} (h : lowerDrive? word = some new) :
    wordRank new < wordRank word := by
  have hnew := toNat_isSome_le (changed? new (canonicalCase new))
  rw [wordRank, wordRank, h, lowerDrive?_lowered h,
    aliasTarget?_qualified (isQualified_of_lowerDrive? h).2]
  simp only [Option.isSome_none, Option.isSome_some, Bool.toNat_false, Bool.toNat_true]
  omega

theorem wordRank_canonicalCase {word : String} (h : canonicalCase word ≠ word) :
    wordRank (canonicalCase word) < wordRank word := by
  have hdrive : (lowerDrive? (canonicalCase word)).isSome.toNat ≤
      (lowerDrive? word).isSome.toNat := by
    cases hword : lowerDrive? word with
    | none => simp [lowerDrive?_canonicalCase hword]
    | some new => simpa using toNat_isSome_le _
  rw [wordRank, wordRank, aliasTarget?_congr (canonicalCase_same word), canonicalCase_idem,
    changed?_self, changed?_eq_some.mpr ⟨h, rfl⟩]
  simp only [Option.isSome_none, Option.isSome_some, Bool.toNat_false, Bool.toNat_true]
  omega

theorem wordRank_aliasTarget? {word target : String} (h : aliasTarget? word = some target) :
    wordRank target < wordRank word := by
  have hdrive := toNat_isSome_le (lowerDrive? target)
  have hcase := toNat_isSome_le (changed? target (canonicalCase target))
  rw [wordRank, wordRank, h, aliasTarget?_target h]
  simp only [Option.isSome_none, Option.isSome_some, Bool.toNat_false, Bool.toNat_true]
  omega

/-! ### Names of variables -/

theorem splitSigil_toList (name : String) :
    (splitSigil name).1.toList ++ (splitSigil name).2.toList = name.toList := by
  unfold splitSigil
  split
  next rest h => simp [h]
  next => simp

theorem length_splitSigil_le (name : String) : (splitSigil name).2.length ≤ name.length := by
  have h := congrArg List.length (splitSigil_toList name)
  simp only [List.length_append, String.length_toList] at h
  omega

theorem isLong_of_length {threshold : Nat} {name : String} (h : name.length < threshold) :
    isLong threshold (splitSigil name).2 = false := by
  have hlength := length_splitSigil_le name
  simp only [isLong, Bool.and_eq_false_iff, decide_eq_false_iff_not]
  left
  omega

theorem isQualified_splitSigil {name : String} (h : isQualified name = true) :
    isQualified (splitSigil name).2 = true := by
  unfold splitSigil
  split
  next rest hrest => simpa [isQualified, hrest] using h
  next => exact h

theorem isLong_of_isQualified {threshold : Nat} {name : String} (h : isQualified name = true) :
    isLong threshold (splitSigil name).2 = false := by
  simp [isLong, isQualified_splitSigil h]

theorem pathRank_lowerDrive? {threshold : Nat} {path new : String} (h : lowerDrive? path = some new) :
    pathRank threshold new < pathRank threshold path := by
  have hnew := toNat_isSome_le ((specialVariable? new).bind (changed? new))
  rw [pathRank, pathRank, h, lowerDrive?_lowered h,
    isLong_of_isQualified (isQualified_of_lowerDrive? h).2]
  simp only [Option.isSome_none, Option.isSome_some, Bool.toNat_false, Bool.toNat_true]
  omega

theorem pathRank_special {threshold : Nat} (hthreshold : 30 ≤ threshold) {path special : String}
    (h : specialVariable? path = some special) (hne : special ≠ path) :
    pathRank threshold special < pathRank threshold path := by
  rw [pathRank, pathRank, lowerDrive?_special h, specialVariable?_special h, h,
    isLong_of_length (Nat.lt_of_lt_of_le (length_special h) hthreshold), Option.bind_some,
    changed?_self, Option.bind_some, changed?_eq_some.mpr ⟨hne, rfl⟩]
  simp

/-! ### Elements -/

section
variable {threshold : Nat} {t : Tree} {e : Element}

theorem quoting?_eq_some {quoting : Quoting} (h : t.quoting? = some quoting) :
    t.kind = .stringConstant ∧ elementQuoting? t.element = some quoting := by
  simp only [Tree.quoting?, Option.ite_none_right_eq_some] at h
  exact ⟨Tree.is_iff.mp h.1, h.2⟩

theorem rank_of_bareWord (hkind : e.kind = .stringConstant)
    (h : elementQuoting? e = some .bareWord) : rank threshold e = wordRank e.payload := by
  rw [rank, hkind]
  simp [h]

theorem isBareword_iff : t.isBareword = true ↔ t.quoting? = some .bareWord := by
  simp [Tree.isBareword]

theorem rank_of_isQuoted (h : isQuoted t = true) : rank threshold t.element = 8 := by
  simp only [isQuoted, Bool.and_eq_true, Option.isSome_iff_exists, Bool.not_eq_true'] at h
  obtain ⟨⟨quoting, hquoting⟩, hbare⟩ := h
  have hne : quoting ≠ .bareWord := by
    rintro rfl
    simp [isBareword_iff.mpr hquoting] at hbare
  obtain ⟨hkind, hquoting⟩ := quoting?_eq_some hquoting
  rw [rank, show t.element.kind = .stringConstant from hkind]
  cases quoting <;> simp_all

theorem kind_of_isQuoted (h : isQuoted t = true) : t.kind = .stringConstant := by
  simp only [isQuoted, Bool.and_eq_true, Option.isSome_iff_exists] at h
  obtain ⟨⟨quoting, hquoting⟩, -⟩ := h
  exact (quoting?_eq_some hquoting).1

theorem rank_of_withText (threshold : Nat) (h : t.isBareword = true) (word : String) :
    rank threshold t.element = wordRank t.payload ∧
      rank threshold (withText t word) = wordRank word := by
  obtain ⟨hkind, hquoting⟩ := quoting?_eq_some (isBareword_iff.mp h)
  exact ⟨rank_of_bareWord hkind hquoting, rank_of_bareWord (e := withText t word) hkind hquoting⟩

theorem isBareword_asBareword (h : isQuoted t = true) (text : Option String) (cs : List Tree) :
    (Tree.node { asBareword t with text } cs).isBareword = true := by
  have hkind : t.element.kind = .stringConstant := kind_of_isQuoted h
  have hname : Quoting.ofName? Quoting.bareWord.name = some .bareWord := by decide
  simp [Tree.isBareword, Tree.quoting?, Tree.is, Tree.kind, Tree.attr?, asBareword, hkind,
    Element.attr?, Element.withAttr, hname]

/-- A quoted word that loses its quotes, whatever the word becomes. -/
theorem rank_asBareword_lt (h : isQuoted t = true) (text : Option String) :
    rank threshold { asBareword t with text } < rank threshold t.element := by
  obtain ⟨hkind, hbare⟩ := quoting?_eq_some (isBareword_iff.mp (isBareword_asBareword h text []))
  rw [rank_of_isQuoted h, rank_of_bareWord (by exact hkind) (by exact hbare)]
  exact Nat.lt_of_le_of_lt (wordRank_le _) (by decide)

theorem rank_of_variablePath? (threshold : Nat) {path : String} (h : t.variablePath? = some path)
    (new : String) :
    rank threshold t.element = pathRank threshold path ∧
      rank threshold (t.element.withAttr "VariablePath" new) = pathRank threshold new := by
  simp only [Tree.variablePath?, Option.ite_none_right_eq_some] at h
  obtain ⟨hkind, hpath⟩ := h
  have hkind : t.element.kind = .variableRef := Tree.is_iff.mp hkind
  have hpath : t.element.attr? "VariablePath" = some path := hpath
  constructor
  · simp [rank, hkind, hpath]
  · simp [rank, hkind]

end

/-- Every rule about spelling lowers the rank, but for the two whose new names are not from a
table. -/
theorem Spells.rank_lt {threshold : Nat} (hthreshold : 30 ≤ threshold) {r : Rule} {t : Tree}
    {e' : Element} (h : Spells threshold r t e') (hconstraint : r ≠ .typeConstraintFromConvert)
    (hname : r ≠ .renameLongNames) : rank threshold e' < rank threshold t.element := by
  cases h with
  | @drive _ new hbare hnew =>
    obtain ⟨hold, hrank⟩ := rank_of_withText threshold hbare new
    rw [hold, hrank]
    exact wordRank_lowerDrive? hnew
  | @path _ path new hpath hnew =>
    obtain ⟨hold, hrank⟩ := rank_of_variablePath? threshold hpath new
    rw [hold, hrank]
    exact pathRank_lowerDrive? hnew
  | case hbare hne =>
    obtain ⟨hold, hrank⟩ := rank_of_withText threshold hbare (canonicalCase t.payload)
    rw [hold, hrank]
    exact wordRank_canonicalCase hne
  | member hquoted _ | command hquoted => exact rank_asBareword_lt hquoted _
  | @expand _ target hbare htarget =>
    obtain ⟨hold, hrank⟩ := rank_of_withText threshold hbare target
    rw [hold, hrank]
    exact wordRank_aliasTarget? htarget
  | @special _ path special hpath hspecial hne =>
    obtain ⟨hold, hrank⟩ := rank_of_variablePath? threshold hpath special
    rw [hold, hrank]
    exact pathRank_special hthreshold hspecial hne
  | constraint => exact absurd rfl hconstraint
  | @type _ name hkind hattr hne =>
    have hattr : t.element.attr? "TypeName" = some name := hattr
    have hkind : t.element.kind = .typeConstraint ∨ t.element.kind = .typeExpression := hkind
    have hchanged : changed? name (canonicalCase name) = some (canonicalCase name) :=
      changed?_eq_some.mpr ⟨hne, rfl⟩
    rcases hkind with hkind | hkind <;>
      simp [rank, hkind, hattr, hchanged, canonicalCase_idem, changed?_self]
  | name => exact absurd rfl hname

end Unscramble
