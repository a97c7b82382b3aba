import Unscramble.Proofs.Literals.Operations
import Unscramble.Proofs.Spelling.Recasing
import Unscramble.Proofs.Text.Ascii

/-! Replacing, splitting and joining. The operators and the method that replace, and the split whose parts
are joined again, all find the same occurrences of a pattern: those that are met from left to right. Where
case does not count, occurrences are texts that differ from the pattern in the case of ASCII letters. -/
namespace Unscramble

open Text Scripts

/-! ### Occurrences -/

/-- A text that a pattern stands for. -/
def Occurs (minding : Bool) (pattern front : List Char) : Prop :=
  if minding then front = pattern else SameText front pattern

/-- How characters are compared with those of a pattern. -/
def sameChar (minding : Bool) (a b : Char) : Bool := if minding then a == b else a.toLower == b.toLower

section
variable {minding : Bool} {pattern front : List Char}

theorem fits_sameChar : Fits (sameChar minding) pattern = Occurs minding pattern := by
  funext front
  rw [eq_iff_iff]
  cases minding with
  | true => exact fits_beq
  | false =>
    change List.Forall₂ (fun a b : Char => (a.toLower == b.toLower) = true) pattern front ↔
      front.map Char.toLower = pattern.map Char.toLower
    rw [eq_comm, ← List.forall₂_eq_eq_eq, List.forall₂_map_left_iff, List.forall₂_map_right_iff]
    simp only [beq_iff_eq]

theorem Occurs.length (h : Occurs minding pattern front) : front.length = pattern.length := by
  cases minding with
  | true => exact congrArg List.length h
  | false => exact SameText.length h

theorem not_occurs_nil (h : pattern ≠ []) : ¬ Occurs minding pattern [] := fun hoccurs =>
  h (List.eq_nil_of_length_eq_zero hoccurs.length.symm)

/-- Joining what stands between the occurrences replaces them. -/
theorem replaced_join (minding : Bool) (h : pattern ≠ []) (replacement s : List Char) :
    Replaced (Occurs minding pattern) replacement s
      (join replacement (splitFrom (sameChar minding) pattern 0 s)) := by
  rw [← fits_sameChar]
  exact replaced_splitFrom h replacement 0 s

/-- Without capitals it does not matter whether case counts. -/
theorem occurs_caseless (hfront : ∀ c ∈ front, c.isUpper = false)
    (hpattern : ∀ c ∈ pattern, c.isUpper = false) :
    Occurs false pattern front ↔ Occurs true pattern front := by
  have hlower {s : List Char} (hs : ∀ c ∈ s, c.isUpper = false) : s.map Char.toLower = s := by
    rw [List.map_congr_left fun c hc => toLower_of_not_isUpper (hs c hc), List.map_id']
  change front.map Char.toLower = pattern.map Char.toLower ↔ front = pattern
  rw [hlower hfront, hlower hpattern]

end

/-! ### Folds -/

section
variable {minding : Bool} {subject pattern replacement result : String}

theorem isLiteralPattern_iff : isLiteralPattern pattern = true ↔
    pattern ≠ "" ∧ ∀ c ∈ pattern.toList, isPatternSyntax c = false := by
  simp [isLiteralPattern]

/-- What is replaced are the occurrences of a literal pattern. -/
theorem replaceText?_eq_some : replaceText? minding subject pattern replacement = some result ↔
    (isLiteralPattern pattern = true ∧ '$' ∉ replacement.toList) ∧
      Replaced (Occurs minding pattern.toList) replacement.toList subject.toList result.toList := by
  have hguard : (isLiteralPattern pattern && !replacement.toList.contains '$') = true ↔
      isLiteralPattern pattern = true ∧ '$' ∉ replacement.toList := by simp
  rw [replaceText?, Option.ite_none_right_eq_some, hguard]
  refine and_congr_right fun h => ?_
  have hne : pattern.toList ≠ [] := by simpa using (isLiteralPattern_iff.mp h.1).1
  have hreplaced : Replaced (Occurs minding pattern.toList) replacement.toList subject.toList _ :=
    replaced_join minding hne replacement.toList subject.toList
  change some (String.ofList (join _ (splitFrom (sameChar minding) _ 0 _))) = some result ↔ _
  rw [Option.some.injEq]
  constructor
  · rintro rfl
    rwa [String.toList_ofList]
  · intro h
    rw [hreplaced.unique h (not_occurs_nil hne) fun _ _ h h' => h.length.trans h'.length.symm,
      String.ofList_toList]

theorem replaceText?_caseless (h : ∀ c ∈ subject.toList ++ pattern.toList, c.isUpper = false) :
    replaceText? false subject pattern replacement = replaceText? true subject pattern replacement := by
  obtain ⟨hsubject, hpattern⟩ := List.forall_mem_append.mp h
  have hoccurs (front : List Char) (hfront : ∀ c ∈ front, c ∈ subject.toList) :
      Occurs false pattern.toList front ↔ Occurs true pattern.toList front :=
    occurs_caseless (fun c hc => hsubject c (hfront c hc)) hpattern
  refine Option.ext fun result => ?_
  rw [replaceText?_eq_some, replaceText?_eq_some]
  refine and_congr_right fun _ => ⟨fun h => h.congr hoccurs, fun h => h.congr fun front hfront => ?_⟩
  exact (hoccurs front hfront).symm

/-- What a replacing operator comes to. -/
def replacing (minding : Bool) (subject pattern replacement : String) : Option Folded :=
  fold? (if minding then .creplace else .ireplace) (.text subject) (.list [.text pattern, .text replacement])

theorem replacing_eq : replacing minding subject pattern replacement =
    (replaceText? minding subject pattern replacement).map fun result =>
      .value (.text result) .singleQuoted := by
  cases minding with
  | true => exact Option.map_map ..
  | false => exact Option.map_map ..

/-! ### Parts -/

/-- The parts of a subject between the occurrences of a pattern. -/
def partsOf (subject pattern : String) : List Value :=
  (texts (splitOn pattern.toList subject.toList)).asList

theorem joinItems_partsOf (separator : String) : joinItems separator (partsOf subject pattern) =
    String.ofList (join separator.toList (splitOn pattern.toList subject.toList)) :=
  joinItems_texts _ _

theorem joinItems_partsOf_self (h : pattern ≠ "") : joinItems pattern (partsOf subject pattern) = subject := by
  have hne : pattern.toList ≠ [] := by simpa using h
  have hreplaced : Replaced (· = pattern.toList) pattern.toList subject.toList
      (join pattern.toList (splitOn pattern.toList subject.toList)) := replaced_join true hne _ _
  have hself := hreplaced.eq_self
  rw [joinItems_partsOf, hself, String.ofList_toList]

theorem fold?_join (separator : String) : fold? .join (.list (partsOf subject pattern)) (.text separator) =
    some (.value (.text (joinItems separator (partsOf subject pattern))) .singleQuoted) := rfl

theorem replaceText?_minding (hpattern : isLiteralPattern pattern = true)
    (hdollar : '$' ∉ replacement.toList) : replaceText? true subject pattern replacement =
      some (joinItems replacement (partsOf subject pattern)) := by
  rw [joinItems_partsOf]
  exact if_pos (by simpa using And.intro hpattern hdollar)

theorem method?_replace (h : pattern ≠ "") :
    method? (.text subject) "replace" [.text pattern, .text replacement] =
      some (.text (joinItems replacement (partsOf subject pattern))) := by
  have hempty : pattern.isEmpty = false := by simpa using h
  change (replaceAll? subject pattern replacement).map Value.text = _
  rw [replaceAll?, hempty, if_neg Bool.false_ne_true, joinItems_partsOf, Option.map_some]

theorem fold?_csplit (h : isLiteralPattern pattern = true) : fold? .csplit (.text subject) (.text pattern) =
    some (.value (.list (partsOf subject pattern)) .singleQuoted) := by
  have hsplit : splitText? true subject pattern = some (partsOf subject pattern) :=
    if_pos (by rw [h]; rfl)
  change ((splitText? true subject pattern).map Value.list).map _ = _
  rw [hsplit]
  rfl

/-! ### Agreement -/

/-- Replacing a pattern, splitting at it and joining the parts fold to texts that agree. -/
structure FoldsAgree (subject pattern replacement replaced : String) (parts : List Value) : Prop where
  operator : replacing true subject pattern replacement = some (.value (.text replaced) .singleQuoted)
  method : method? (.text subject) "replace" [.text pattern, .text replacement] = some (.text replaced)
  split : fold? .csplit (.text subject) (.text pattern) = some (.value (.list parts) .singleQuoted)
  /-- The parts are read back from the literal that is put in the place of the split. -/
  readable : IsReadable (.list parts)
  joined : fold? .join (.list parts) (.text replacement) = some (.value (.text replaced) .singleQuoted)
  restored : fold? .join (.list parts) (.text pattern) = some (.value (.text subject) .singleQuoted)
  caseless : (∀ c ∈ subject.toList ++ pattern.toList, c.isUpper = false) →
    replacing false subject pattern replacement = some (.value (.text replaced) .singleQuoted)
  /-- It is folded as well if case does not count. -/
  folds : (replacing false subject pattern replacement).isSome = true

theorem foldsAgree (hpattern : isLiteralPattern pattern = true) (hdollar : '$' ∉ replacement.toList) :
    FoldsAgree subject pattern replacement (joinItems replacement (partsOf subject pattern))
      (partsOf subject pattern) where
  operator := by rw [replacing_eq, replaceText?_minding hpattern hdollar, Option.map_some]
  method := method?_replace (isLiteralPattern_iff.mp hpattern).1
  split := fold?_csplit hpattern
  readable := isReadable_texts _
  joined := fold?_join replacement
  restored := by rw [fold?_join, joinItems_partsOf_self (isLiteralPattern_iff.mp hpattern).1]
  caseless h := by
    rw [replacing_eq, replaceText?_caseless h, replaceText?_minding hpattern hdollar, Option.map_some]
  folds := by
    rw [replacing_eq, Option.isSome_map, replaceText?, if_pos (by simpa using And.intro hpattern hdollar)]
    rfl

/-- All that replaces, splits or joins at a literal pattern agrees, and a replacing operator folds to
nothing but the subject with the occurrences of a literal pattern replaced. -/
theorem replacements_agree (subject pattern replacement : String) :
    (pattern ≠ "" → (∀ c ∈ pattern.toList, isPatternSyntax c = false) → '$' ∉ replacement.toList →
      ∃ replaced parts, FoldsAgree subject pattern replacement replaced parts) ∧
    ∀ minding folded, replacing minding subject pattern replacement = some folded ↔
      (pattern ≠ "" ∧ (∀ c ∈ pattern.toList, isPatternSyntax c = false) ∧ '$' ∉ replacement.toList) ∧
        ∃ result, folded = .value (.text result) .singleQuoted ∧
          Replaced (Occurs minding pattern.toList) replacement.toList subject.toList result.toList := by
  refine ⟨fun hne hsyntax hdollar => ?_, fun minding folded => ?_⟩
  · exact ⟨_, _, foldsAgree (isLiteralPattern_iff.mpr ⟨hne, hsyntax⟩) hdollar⟩
  rw [replacing_eq, Option.map_eq_some_iff, ← and_assoc, ← isLiteralPattern_iff]
  constructor
  · rintro ⟨result, h, rfl⟩
    obtain ⟨hguard, hreplaced⟩ := replaceText?_eq_some.mp h
    exact ⟨hguard, result, rfl, hreplaced⟩
  · rintro ⟨hguard, result, rfl, hreplaced⟩
    exact ⟨result, replaceText?_eq_some.mpr ⟨hguard, hreplaced⟩, rfl⟩

/-- A pattern that overlaps itself, behind letters that are not ASCII. -/
theorem replacements_agree_overlapping :
    ("aba" ≠ "" ∧ (∀ c ∈ "aba".toList, isPatternSyntax c = false) ∧ '$' ∉ "É".toList ∧
      (∀ c ∈ "é𝄞ababa".toList ++ "aba".toList, c.isUpper = false)) ∧
      ∃ parts, FoldsAgree "é𝄞ababa" "aba" "É" "é𝄞Éba" parts ∧
        replacing false "é𝄞ababa" "aba" "É" = some (.value (.text "é𝄞Éba") .singleQuoted) := by
  have hne : "aba" ≠ "" := by decide
  have hsyntax : ∀ c ∈ "aba".toList, isPatternSyntax c = false := by simp [isPatternSyntax]
  have hdollar : '$' ∉ "É".toList := by decide
  have hcapital : ∀ c ∈ "é𝄞ababa".toList ++ "aba".toList, c.isUpper = false := by simp
  have hmethod : method? (.text "é𝄞ababa") "replace" [.text "aba", .text "É"] = some (.text "é𝄞Éba") := by
    decide
  obtain ⟨replaced, parts, h⟩ := (replacements_agree "é𝄞ababa" "aba" "É").1 hne hsyntax hdollar
  cases h.method.symm.trans hmethod
  exact ⟨⟨hne, hsyntax, hdollar, hcapital⟩, parts, h, h.caseless hcapital⟩

end
end Unscramble
