import Unscramble.Proofs.Spelling.Converts
import Unscramble.Proofs.Spelling.LongNames
import Unscramble.Proofs.Spelling.Words

/-! What the element of a node comes to if the rules about spelling are applied for as long as they have
a match. It depends on the element and on what its place means, and none of these rules changes it. -/
namespace Unscramble

open Text Vocabulary Simplify Unscramble.Tree

/-! ### Places -/

/-- What the place of a node means for its spelling. -/
inductive Standing where
  | member
  | word (first : Bool)
  | cast (type : String)
  | other

/-- The type that the constraint of a conversion should name. -/
def castType? (above : Tree) (i : Nat) : Option String :=
  if above.is .convert && above.children.findIdx? (·.is .typeConstraint) == some i then
    (above.attr? "StaticType").filter fun type => !sameIgnoringCase type "System.Object"
  else none

def standing : Option (Tree × Nat) → Standing
  | none => .other
  | some (above, i) =>
    if isMember above i then .member
    else if above.is .commandElements then .word (i == 0)
    else ((castType? above i).map .cast).getD .other

/-- A node that is where it is said to be. -/
def Placed (above : Option (Tree × Nat)) (t : Tree) : Prop :=
  ∀ p i, above = some (p, i) → p.children[i]? = some t

section
variable {above : Tree} {i : Nat} {t : Tree}

theorem standing_member (h : isMember above i = true) : standing (some (above, i)) = .member := by
  rw [standing, if_pos h]

theorem standing_word (h : above.is .commandElements = true) :
    standing (some (above, i)) = .word (i == 0) := by
  have hmember : isMember above i = false := by
    have hkind : above.kind = .commandElements := is_iff.mp h
    simp [isMember, Tree.is, hkind]
  rw [standing, hmember, if_neg Bool.false_ne_true, if_pos h]

theorem standing_cast {type : String} (h : castType? above i = some type) :
    standing (some (above, i)) = .cast type := by
  have hkind : above.kind = .convert := by
    unfold castType? at h
    split at h
    next hfirst => exact is_iff.mp (Bool.and_eq_true_iff.mp hfirst).1
    next => cases h
  rw [standing, h]
  simp [isMember, Tree.is, hkind]

theorem resolvedType?_eq_castType? (above : Tree) (i : Nat) (t : Tree) :
    resolvedType? above i t = (castType? above i).filter fun type =>
      !sameIgnoringCase (dropSystem (t.element.attr "TypeName")) (dropSystem type) := by
  unfold resolvedType? castType?
  split
  next =>
    cases above.attr? "StaticType" with
    | none => rfl
    | some type =>
      cases hobject : sameIgnoringCase type "System.Object" <;>
        cases hsame : sameIgnoringCase (dropSystem (t.element.attr "TypeName")) (dropSystem type) <;>
        simp [Option.filter, hobject, hsame]
  next => rfl

/-- Only a type constraint can be given the type of a conversion. -/
theorem Placed.constraint {type : String} (hplaced : Placed (some (above, i)) t)
    (h : castType? above i = some type) : t.kind = .typeConstraint := by
  unfold castType? at h
  split at h
  next hfirst =>
    have hindex : above.children.findIdx? (·.is .typeConstraint) = some i := by
      simpa using (Bool.and_eq_true_iff.mp hfirst).2
    obtain ⟨hlt, hkind, -⟩ := List.findIdx?_eq_some_iff_getElem.mp hindex
    have hchild := hplaced above i rfl
    rw [List.getElem?_eq_getElem hlt, Option.some.injEq] at hchild
    exact is_iff.mp (hchild ▸ hkind)
  next => cases h

/-- What a place means does not depend on how the nodes around it are spelled. -/
theorem standing_congr {above' : Tree} (hkind : above'.kind = above.kind)
    (hstatic : above'.attr? "StaticType" = above.attr? "StaticType")
    (hkinds : SameKinds above.children above'.children) :
    standing (some (above', i)) = standing (some (above, i)) := by
  have his (k : Kind) : above'.is k = above.is k := by rw [Tree.is, Tree.is, hkind]
  have hlength : above'.children.length = above.children.length := by
    simpa using congrArg List.length hkinds
  have hmember : isMember above' i = isMember above i := by rw [isMember, isMember, his, his, hlength]
  have hcast : castType? above' i = castType? above i := by
    rw [castType?, castType?, his, hkinds.findIdx?, hstatic]
  rw [standing, standing, hmember, hcast, his]

end

/-- What each meaning of a place says about it. -/
inductive Stands : Option (Tree × Nat) → Standing → Prop
  | member {above i} : isMember above i = true → Stands (some (above, i)) .member
  | word {above i} : above.is .commandElements = true → Stands (some (above, i)) (.word (i == 0))
  | cast {above i type} : castType? above i = some type → Stands (some (above, i)) (.cast type)
  | other {above} : Stands above .other

theorem stands (above : Option (Tree × Nat)) : Stands above (standing above) := by
  unfold standing
  split
  next => exact .other
  next above i =>
    split
    next hmember => exact .member hmember
    next =>
      split
      next hcommand => exact .word hcommand
      next =>
        cases h : castType? above i with
        | none => exact .other
        | some type => exact .cast h

/-! ### Elements -/

/-- An element with a new value for an attribute that it has. -/
def Element.mapAttr (f : String → String) (key : String) (e : Element) : Element :=
  match e.attr? key with
  | some value => e.withAttr key (f value)
  | none => e

theorem Element.mapAttr_some {f : String → String} {key value : String} {e : Element}
    (h : e.attr? key = some value) : e.mapAttr f key = e.withAttr key (f value) := by
  rw [mapAttr, h]

@[simp] theorem Element.mapAttr_withAttr (f : String → String) (key value : String) (e : Element) :
    (e.withAttr key value).mapAttr f key = e.withAttr key (f value) := by
  rw [mapAttr_some (show (e.withAttr key value).attr? key = some value by simp), withAttr_withAttr]

theorem Element.mapAttr_self {f : String → String} {key : String} {e : Element}
    (h : ∀ value, e.attr? key = some value → f value = value) : e.mapAttr f key = e := by
  cases hvalue : e.attr? key with
  | none => rw [mapAttr, hvalue]
  | some value => rw [mapAttr_some hvalue, h value hvalue, withAttr_self hvalue]

/-- A string without the quotes that it does not need in its place. -/
def unquoted? (σ : Standing) (t : Tree) : Option Element :=
  match σ with
  | .member =>
    if isQuoted t then
      (bareword? t.payload).map fun word => { asBareword t with text := some word }
    else none
  | .word first =>
    if isQuoted t && isPlainWord t.payload && (first || (bareword? t.payload).isSome) then
      some (asBareword t)
    else none
  | _ => none

def Standing.isFirst : Standing → Bool
  | .word first => first
  | _ => false

/-- A bareword with the word that it comes to. -/
def settledBareword (σ : Standing) (e : Element) : Element :=
  if (node e []).isBareword then { e with text := e.text.map (settledWord σ.isFirst) } else e

/-- A type constraint that names the type of the conversion that it belongs to. -/
def constrained (σ : Standing) (e : Element) : Element :=
  match σ with
  | .cast type =>
    if sameIgnoringCase (dropSystem (e.attr "TypeName")) (dropSystem type) then e
    else e.withAttr "TypeName" type
  | _ => e

/-- What the element of a node comes to. -/
def settled (σ : Standing) (e : Element) : Element :=
  match e.kind with
  | .stringConstant => settledBareword σ ((unquoted? σ (.node e [])).getD e)
  | .variableRef => e.mapAttr settledPath "VariablePath"
  | .typeConstraint => (constrained σ e).mapAttr canonicalCase "TypeName"
  | .typeExpression => e.mapAttr canonicalCase "TypeName"
  | _ => e

section
variable {σ : Standing} {t : Tree} {e e' : Element}

theorem kind_of_isBareword (h : t.isBareword = true) : t.kind = .stringConstant := by
  unfold isBareword quoting? at h
  split at h
  next hkind => exact is_iff.mp hkind
  next => cases h

theorem kind_of_variablePath? {path : String} (h : t.variablePath? = some path) :
    t.kind = .variableRef ∧ t.element.attr? "VariablePath" = some path := by
  simp only [variablePath?, Option.ite_none_right_eq_some] at h
  exact ⟨is_iff.mp h.1, h.2⟩

/-- A bareword has no quotes. -/
theorem settled_bareword (h : (node e []).isBareword = true) :
    settled σ e = { e with text := e.text.map (settledWord σ.isFirst) } := by
  have hkind : e.kind = .stringConstant := kind_of_isBareword h
  have hquoted : isQuoted (.node e []) = false := by simp [isQuoted, h]
  have hnone : unquoted? σ (.node e []) = none := by
    unfold unquoted?
    split <;> simp [hquoted]
  simp only [settled, hkind, hnone, Option.getD_none, settledBareword, h, if_true]

/-- Quotes that are not needed make no difference. -/
theorem settled_unquoted (h : unquoted? σ t = some e') : settled σ e' = settled σ t.element := by
  have hquoted : isQuoted t = true ∧ (node e' []).isBareword = true := by
    unfold unquoted? at h
    split at h
    next =>
      simp only [Option.ite_none_right_eq_some, Option.map_eq_some_iff] at h
      obtain ⟨hquoted, word, -, rfl⟩ := h
      exact ⟨hquoted, isBareword_asBareword hquoted _ []⟩
    next =>
      simp only [Option.ite_none_right_eq_some, Bool.and_eq_true, Option.some.injEq] at h
      obtain ⟨⟨⟨hquoted, -⟩, -⟩, rfl⟩ := h
      exact ⟨hquoted, isBareword_asBareword hquoted _ []⟩
    next => cases h
  have hkind : t.element.kind = .stringConstant := kind_of_isQuoted hquoted.1
  have hsome : unquoted? σ (.node t.element []) = some e' := h
  rw [settled_bareword hquoted.2]
  simp only [settled, hkind, hsome, Option.getD_some, settledBareword, hquoted.2, if_true]

/-- A bareword may be replaced by one that comes to the same. -/
theorem settled_withText {new : String} (hbare : t.isBareword = true) (hempty : t.payload ≠ "")
    (h : settledWord σ.isFirst new = settledWord σ.isFirst t.payload) :
    settled σ (withText t new) = settled σ t.element := by
  have htext : t.element.text = some t.payload := by
    have hpayload : t.payload = t.element.text.getD "" := rfl
    cases htext : t.element.text with
    | none => exact absurd (by simpa [htext] using hpayload) hempty
    | some s => rw [hpayload, htext, Option.getD_some]
  rw [settled_bareword (e := withText t new) hbare, settled_bareword (e := t.element) hbare, htext]
  simp [withText, h]

/-- A name of a variable may be replaced by one that comes to the same. -/
theorem settled_withPath {path new : String} (hpath : t.variablePath? = some path)
    (h : settledPath new = settledPath path) :
    settled σ (t.element.withAttr "VariablePath" new) = settled σ t.element := by
  obtain ⟨hkind, hattr⟩ := kind_of_variablePath? hpath
  have hkind : t.element.kind = .variableRef := hkind
  simp only [settled, Element.kind_withAttr, hkind, Element.mapAttr_withAttr,
    Element.mapAttr_some hattr, h]

theorem settled_canonicalCase {name : String} (hkind : e.kind = .typeConstraint ∨ e.kind = .typeExpression)
    (hname : e.attr? "TypeName" = some name) :
    settled σ (e.withAttr "TypeName" (canonicalCase name)) = settled σ e := by
  have hattr : e.attr "TypeName" = name := by rw [Element.attr, hname, Option.getD_some]
  rcases hkind with hkind | hkind
  · have hsame (type : String) : sameIgnoringCase (dropSystem (canonicalCase name)) (dropSystem type) =
        sameIgnoringCase (dropSystem name) (dropSystem type) :=
      sameIgnoringCase_congr_left (dropSystem_congr (canonicalCase_same name)) _
    have hnew : (e.withAttr "TypeName" (canonicalCase name)).attr "TypeName" = canonicalCase name := by
      simp [Element.attr]
    simp only [settled, Element.kind_withAttr, hkind]
    unfold constrained
    split
    next type =>
      rw [hnew, hattr, hsame]
      split
      · rw [Element.mapAttr_withAttr, canonicalCase_idem, Element.mapAttr_some hname]
      · rw [Element.withAttr_withAttr]
    next => rw [Element.mapAttr_withAttr, canonicalCase_idem, Element.mapAttr_some hname]
  · simp only [settled, Element.kind_withAttr, hkind]
    rw [Element.mapAttr_withAttr, canonicalCase_idem, Element.mapAttr_some hname]

theorem settled_constraint {type : String} (hkind : e.kind = .typeConstraint)
    (h : sameIgnoringCase (dropSystem (e.attr "TypeName")) (dropSystem type) = false) :
    settled (.cast type) (e.withAttr "TypeName" type) = settled (.cast type) e := by
  have hself : sameIgnoringCase (dropSystem ((e.withAttr "TypeName" type).attr "TypeName"))
      (dropSystem type) = true := by
    simp [Element.attr, sameIgnoringCase]
  simp only [settled, Element.kind_withAttr, hkind, constrained, hself, h, if_true, Bool.false_eq_true,
    if_false]

end

/-! ### Rules -/

/-- A respelling that does not change what elements come to. Long names are left to the rule that
renames them. -/
def Settles (threshold : Nat) (f : Respelling) : Prop :=
  ∀ {above t e'}, Placed above t → f above t = some e' →
    settled (standing above) e' = settled (standing above) t.element ∧
      longWeight threshold t.element = 0

section
variable {threshold : Nat} {t : Tree}

theorem longWeight_kind (h : nameKey? t.kind = none) : longWeight threshold t.element = 0 := by
  have hkey : nameKey? t.element.kind = none := h
  simp [longWeight, nameOf?, hkey]

theorem longWeight_string (h : t.kind = .stringConstant) : longWeight threshold t.element = 0 :=
  longWeight_kind (by rw [h]; rfl)

theorem longWeight_short {path : String} (h : t.variablePath? = some path)
    (hshort : isLong threshold (splitSigil path).2 = false) : longWeight threshold t.element = 0 := by
  obtain ⟨hkind, hattr⟩ := kind_of_variablePath? h
  have hkind : t.element.kind = .variableRef := hkind
  simp [longWeight, nameOf?, nameKey?, hkind, hattr, hshort]

theorem prefixCaseOf_settles : Settles threshold prefixCaseOf := by
  intro above t e' _ h
  unfold prefixCaseOf at h
  split at h
  next hbare =>
    obtain ⟨new, hnew, rfl⟩ := Option.map_eq_some_iff.mp h
    have hempty : t.payload ≠ "" := fun hempty => by
      rw [hempty, show lowerDrive? "" = none by decide +kernel] at hnew
      cases hnew
    exact ⟨settled_withText hbare hempty (settledWord_drive _ hnew),
      longWeight_string (kind_of_isBareword hbare)⟩
  next =>
    obtain ⟨new, hnew, rfl⟩ := Option.map_eq_some_iff.mp h
    obtain ⟨path, hpath, hnew⟩ := Option.bind_eq_some_iff.mp hnew
    exact ⟨settled_withPath hpath (settledPath_drive hnew),
      longWeight_short hpath (isLong_of_isQualified (isQualified_of_lowerDrive? hnew).1)⟩

theorem eq_empty_of_same {s : String} (h : sameIgnoringCase s "" = true) : s = "" := by
  have hnil := sameText_nil_right.mp (sameIgnoringCase_iff.mp h)
  exact String.toList_inj.mp hnil

theorem barewordCaseOf_settles : Settles threshold barewordCaseOf := by
  intro above t e' _ h
  simp only [barewordCaseOf, Option.ite_none_right_eq_some, Option.map_eq_some_iff,
    changed?_eq_some] at h
  obtain ⟨hbare, new, ⟨hne, rfl⟩, rfl⟩ := h
  have hempty : t.payload ≠ "" := fun hempty => by
    rw [hempty] at hne
    exact hne (eq_empty_of_same (canonicalCase_same ""))
  exact ⟨settled_withText hbare hempty (settledWord_case _ _), longWeight_string (kind_of_isBareword hbare)⟩

theorem memberCaseOf_settles : Settles threshold memberCaseOf := by
  intro above t e' _ h
  simp only [memberCaseOf, Option.ite_none_right_eq_some, Bool.and_eq_true, Option.any_eq_true] at h
  obtain ⟨⟨⟨⟨p, i⟩, rfl, hmember⟩, hquoted⟩, h⟩ := h
  refine ⟨?_, longWeight_string (kind_of_isQuoted hquoted)⟩
  rw [standing_member hmember]
  exact settled_unquoted (by rwa [unquoted?, if_pos hquoted])

theorem commandBarewordOf_settles : Settles threshold commandBarewordOf := by
  intro above t e' _ h
  unfold commandBarewordOf at h
  split at h
  next p i =>
    simp only [Option.ite_none_right_eq_some, Bool.and_eq_true] at h
    obtain ⟨⟨⟨⟨hcommand, hquoted⟩, hplain⟩, hword⟩, h⟩ := h
    refine ⟨?_, longWeight_string (kind_of_isQuoted hquoted)⟩
    rw [standing_word hcommand]
    exact settled_unquoted (by rw [unquoted?, hquoted, hplain, hword]; exact h)
  next => cases h

theorem aliasToCmdletOf_settles : Settles threshold aliasToCmdletOf := by
  intro above t e' _ h
  simp only [aliasToCmdletOf, Option.ite_none_right_eq_some, Bool.and_eq_true, Option.any_eq_true,
    Option.map_eq_some_iff] at h
  obtain ⟨⟨⟨⟨p, i⟩, rfl, hname⟩, hbare⟩, target, htarget, rfl⟩ := h
  obtain ⟨hcommand, hfirst⟩ := Bool.and_eq_true_iff.mp hname
  have hempty : t.payload ≠ "" := fun hempty => by
    have htable : ∀ entry ∈ aliases, entry.1 ≠ "" := by decide +kernel
    obtain ⟨entry, hentry, hsame, -⟩ := aliasTarget?_eq_some htarget
    exact htable entry hentry (eq_empty_of_same (hempty ▸ hsame))
  refine ⟨?_, longWeight_string (kind_of_isBareword hbare)⟩
  rw [standing_word hcommand, hfirst]
  exact settled_withText hbare hempty (settledWord_alias htarget)

theorem specialVariableCaseOf_settles (hthreshold : 30 ≤ threshold) :
    Settles threshold specialVariableCaseOf := by
  intro above t e' _ h
  simp only [specialVariableCaseOf, Option.bind_eq_some_iff, Option.map_eq_some_iff,
    changed?_eq_some] at h
  obtain ⟨path, hpath, new, ⟨special, hspecial, -, rfl⟩, rfl⟩ := h
  have hlength : path.length < threshold := by
    obtain ⟨entry, -, hsame, rfl⟩ := specialVariable?_eq_some hspecial
    have hlength := (sameIgnoringCase_iff.mp hsame).length
    rw [String.length_toList, String.length_toList] at hlength
    exact hlength ▸ Nat.lt_of_lt_of_le (length_special hspecial) hthreshold
  exact ⟨settled_withPath hpath (settledPath_special hspecial),
    longWeight_short hpath (isLong_of_length hlength)⟩

theorem typeConstraintOf_settles : Settles threshold typeConstraintOf := by
  intro above t e' hplaced h
  simp only [typeConstraintOf, Option.map_eq_some_iff, Option.bind_eq_some_iff] at h
  obtain ⟨type, ⟨⟨p, i⟩, rfl, htype⟩, rfl⟩ := h
  rw [resolvedType?_eq_castType?, Option.filter_eq_some_iff] at htype
  have hkind := hplaced.constraint htype.1
  rw [standing_cast htype.1]
  exact ⟨settled_constraint hkind (by simpa using htype.2), longWeight_kind (by rw [hkind]; rfl)⟩

theorem typeNameCaseOf_settles : Settles threshold typeNameCaseOf := by
  intro above t e' _ h
  simp only [typeNameCaseOf, Option.ite_none_right_eq_some, Option.map_eq_some_iff,
    Option.bind_eq_some_iff, changed?_eq_some, Bool.or_eq_true, Tree.is_iff] at h
  obtain ⟨hkind, new, ⟨name, hname, -, rfl⟩, rfl⟩ := h
  refine ⟨settled_canonicalCase hkind hname, longWeight_kind ?_⟩
  rcases hkind with hkind | hkind <;> rw [hkind] <;> rfl

/-! ### What no rule changes -/

/-- The respellings of the rules that give the same words and names another spelling. -/
def recasings : List Respelling :=
  [prefixCaseOf, barewordCaseOf, memberCaseOf, commandBarewordOf, aliasToCmdletOf,
    specialVariableCaseOf, typeConstraintOf, typeNameCaseOf]

theorem recasings_settle (hthreshold : 30 ≤ threshold) : ∀ f ∈ recasings, Settles threshold f := by
  simp only [recasings, List.forall_mem_cons]
  exact ⟨prefixCaseOf_settles, barewordCaseOf_settles, memberCaseOf_settles, commandBarewordOf_settles,
    aliasToCmdletOf_settles, specialVariableCaseOf_settles hthreshold, typeConstraintOf_settles,
    typeNameCaseOf_settles, by simp⟩

/-- Nothing has quotes that it does not need where the rules about quotes have no match. -/
theorem unquoted?_eq_none {above : Option (Tree × Nat)} (hmember : memberCaseOf above t = none)
    (hcommand : commandBarewordOf above t = none) : unquoted? (standing above) t = none := by
  have hstands := stands above
  generalize standing above = σ at hstands ⊢
  cases hstands with
  | member h => simpa [memberCaseOf, h, unquoted?] using hmember
  | word h => simpa [commandBarewordOf, h, unquoted?, and_assoc] using hcommand
  | cast => rfl
  | other => rfl

theorem constrained_eq_self {above : Option (Tree × Nat)} (h : typeConstraintOf above t = none) :
    constrained (standing above) t.element = t.element := by
  have hstands := stands above
  generalize standing above = σ at hstands ⊢
  cases hstands with
  | cast hcast =>
    simp only [typeConstraintOf, Option.bind_some, resolvedType?_eq_castType?, hcast,
      Option.map_eq_none_iff, Option.filter_eq_none_iff] at h
    rw [constrained, if_pos (by simpa using h)]
  | _ => rfl

theorem expanded_eq_self {above : Option (Tree × Nat)} (hbare : t.isBareword = true)
    (h : aliasToCmdletOf above t = none) :
    (standing above).isFirst = true → aliasTarget? t.payload = none := by
  intro hfirst
  have hstands := stands above
  generalize standing above = σ at hstands hfirst
  cases hstands with
  | @word p i hword =>
    have hfirst : i = 0 := by simpa [Standing.isFirst] using hfirst
    simpa [aliasToCmdletOf, isCommandName, hword, hbare, hfirst] using h
  | _ => cases hfirst

theorem settledBareword_eq_self {above : Option (Tree × Nat)} (hdrives : prefixCaseOf above t = none)
    (hcase : barewordCaseOf above t = none) (halias : aliasToCmdletOf above t = none) :
    settledBareword (standing above) t.element = t.element := by
  unfold settledBareword
  split
  next hbare =>
    have hbare : t.isBareword = true := hbare
    simp only [prefixCaseOf, barewordCaseOf, hbare, if_true, Option.map_eq_none_iff, changed?] at hdrives hcase
    have hsettled : settledWord (standing above).isFirst t.payload = t.payload :=
      settledWord_eq_self (expanded_eq_self hbare halias) hdrives (by simpa using hcase)
    cases htext : t.element.text with
    | none => rw [Option.map_none, ← htext]
    | some word =>
      have hpayload : t.payload = word := by simp [payload, Element.payload, htext]
      rw [Option.map_some, ← hpayload, hsettled, hpayload, ← htext]
  next => rfl

theorem settledPath_of_none {above : Option (Tree × Nat)} {path : String} (hpath : t.variablePath? = some path)
    (hdrives : prefixCaseOf above t = none) (hspecial : specialVariableCaseOf above t = none) :
    settledPath path = path := by
  have hbare : t.isBareword = false := by
    rw [← Bool.not_eq_true]
    intro hbare
    exact absurd ((kind_of_isBareword hbare).symm.trans (kind_of_variablePath? hpath).1) (by decide)
  refine settledPath_eq_self ?_ ?_
  · simpa [prefixCaseOf, hbare, hpath] using hdrives
  · simpa [specialVariableCaseOf, hpath] using hspecial

/-- What no rule changes is what it comes to. -/
theorem settled_eq_self {above : Option (Tree × Nat)} (h : ∀ f ∈ recasings, f above t = none) :
    settled (standing above) t.element = t.element := by
  simp only [recasings, List.forall_mem_cons] at h
  obtain ⟨hdrives, hcase, hmember, hcommand, halias, hspecial, hconstraint, htype, -⟩ := h
  have hname (hkind : t.is .typeConstraint = true ∨ t.is .typeExpression = true) :
      ∀ name, t.element.attr? "TypeName" = some name → canonicalCase name = name := by
    intro name hattr
    have hattr : t.attr? "TypeName" = some name := hattr
    simpa [typeNameCaseOf, hkind, hattr, changed?] using htype
  unfold settled
  split
  next =>
    have hnone : unquoted? (standing above) (.node t.element []) = none := unquoted?_eq_none hmember hcommand
    rw [hnone, Option.getD_none]
    exact settledBareword_eq_self hdrives hcase halias
  next hkind =>
    refine Element.mapAttr_self fun path hattr => settledPath_of_none ?_ hdrives hspecial
    rw [variablePath?, if_pos (is_iff.mpr hkind)]
    exact hattr
  next hkind =>
    rw [constrained_eq_self hconstraint]
    exact Element.mapAttr_self (hname (.inl (is_iff.mpr hkind)))
  next hkind => exact Element.mapAttr_self (hname (.inr (is_iff.mpr hkind)))
  next => rfl

end
end Unscramble
