import Unscramble.Proofs.Spelling.Recasing
import Unscramble.Simplify.Spelling

/-! Drives in front of names, aliases and automatic variables: what the rules about one of them do
to the others. A name that has its drive in lower case keeps it when its segments get their usual
spelling, as no such segment has a colon. -/
namespace Unscramble

open Text Vocabulary Simplify

namespace Text

theorem SameText.mem_iff {c : Char} {s t : List Char} (hc : ∀ x : Char, x.toLower = c ↔ x = c)
    (h : SameText s t) : c ∈ s ↔ c ∈ t := by
  have hmem (u : List Char) : c ∈ u.map Char.toLower ↔ c ∈ u := by
    simp [List.mem_map, hc]
  rw [← hmem s, ← hmem t, show s.map Char.toLower = t.map Char.toLower from h]

theorem mem_lowerFrom {c : Char} (hascii : c.toNat < 128) (hc : c.toLower = c) (before : List Char)
    {s : List Char} (h : c ∈ s) : c ∈ lowerFrom before s := by
  induction s generalizing before with
  | nil => simp at h
  | cons a s ih =>
    rw [lowerFrom, List.mem_append]
    rcases List.mem_cons.mp h with rfl | h
    · have hsigma : c ≠ 'Σ' := by rintro rfl; exact absurd hascii (by decide)
      simp [hsigma, lowerChar, hascii, hc]
    · exact .inr (ih _ h)

theorem mem_lower {c : Char} {s : String} (hascii : c.toNat < 128) (hc : c.toLower = c)
    (h : c ∈ s.toList) : c ∈ (lower s).toList := by
  rw [lower, String.toList_ofList]
  exact mem_lowerFrom hascii hc [] h

end Text

theorem colon_iff (x : Char) : x.toLower = ':' ↔ x = ':' := toLower_eq_iff (by decide) rfl

theorem isQualified_congr {a b : String} (h : sameIgnoringCase a b = true) :
    isQualified a = isQualified b := by
  have h := (sameIgnoringCase_iff.mp h).mem_iff colon_iff
  rw [isQualified, isQualified, Bool.eq_iff_iff]
  simpa using h

/-! ### Drives -/

/-- A drive that should be in lower case and is not. -/
structure Shouted (drive : String) : Prop where
  known : lower drive = "env" ∨ lower drive = "variable"
  case : lower drive ≠ drive

theorem lowerDrive?_eq_some {path new : String} :
    lowerDrive? path = some new ↔ ∃ drive rest, path.toList = drive ++ ':' :: rest ∧ ':' ∉ drive ∧
      Shouted (String.ofList drive) ∧
      new = lower (String.ofList drive) ++ ":" ++ String.ofList rest := by
  simp only [lowerDrive?, Option.bind_eq_some_iff, Prod.exists, cut?_eq_some,
    Option.ite_none_right_eq_some, Bool.and_eq_true, Bool.or_eq_true, beq_iff_eq, bne_iff_ne,
    Option.some.injEq]
  constructor
  · rintro ⟨drive, rest, ⟨h, hc⟩, ⟨hknown, hcase⟩, rfl⟩
    exact ⟨drive, rest, h, hc, ⟨hknown, hcase⟩, rfl⟩
  · rintro ⟨drive, rest, h, hc, ⟨hknown, hcase⟩, rfl⟩
    exact ⟨drive, rest, ⟨h, hc⟩, ⟨hknown, hcase⟩, rfl⟩

theorem isQualified_of_lowerDrive? {path new : String} (h : lowerDrive? path = some new) :
    isQualified path = true ∧ isQualified new = true := by
  obtain ⟨drive, rest, hpath, -, -, rfl⟩ := lowerDrive?_eq_some.mp h
  simp [isQualified, hpath]

theorem lowerDrive?_lowered {path new : String} (h : lowerDrive? path = some new) :
    lowerDrive? new = none := by
  refine Option.eq_none_iff_forall_ne_some.mpr fun new' h' => ?_
  obtain ⟨drive, rest, h, hc, hdrive, rfl⟩ := lowerDrive?_eq_some.mp h
  obtain ⟨drive', rest', h', hc', hdrive', -⟩ := lowerDrive?_eq_some.mp h'
  have hlower : ':' ∉ (lower (String.ofList drive)).toList := by
    rcases hdrive.known with h | h <;> rw [h] <;> decide
  have heq : drive' = (lower (String.ofList drive)).toList := by
    have hcut := cut?_eq_some.mpr ⟨h', hc'⟩
    have hcut' : cut? [':'] (lower (String.ofList drive) ++ ":" ++ String.ofList rest).toList =
        some ((lower (String.ofList drive)).toList, rest) :=
      cut?_eq_some.mpr ⟨by simp, hlower⟩
    rw [hcut'] at hcut
    simp only [Option.some.injEq, Prod.mk.injEq] at hcut
    exact hcut.1.symm
  subst heq
  have hself : lower (lower (String.ofList drive)) = lower (String.ofList drive) := by
    rcases hdrive.known with h | h <;> rw [h] <;> decide +kernel
  exact hdrive'.case (by simpa using hself)

/-- A drive that is shouted has neither of the characters that take a name apart. -/
theorem Shouted.not_mem {drive : String} (h : Shouted drive) {c : Char} (hc : c ∈ ['.', '-', '[']) :
    c ∉ drive.toList := by
  intro hmem
  have hlower : c ∈ (lower drive).toList := by
    simp only [List.mem_cons, List.not_mem_nil, or_false] at hc
    rcases hc with rfl | rfl | rfl <;> exact mem_lower (by decide) rfl hmem
  simp only [List.mem_cons, List.not_mem_nil, or_false] at hc
  rcases hc with rfl | rfl | rfl <;> rcases h.known with h | h <;> rw [h] at hlower <;>
    exact absurd hlower (by decide)

theorem bareword?_colon {s : List Char} (h : ':' ∈ s) : bareword? (String.ofList s) = none := by
  have htable : ∀ word ∈ barewords, ':' ∉ word.toList := by decide +kernel
  refine Option.eq_none_iff_forall_ne_some.mpr fun word hword => ?_
  refine htable word (List.mem_of_find?_eq_some hword) ?_
  refine ((sameIgnoringCase_iff.mp (same_of_bareword? hword)).mem_iff colon_iff).mpr ?_
  simpa using h

theorem recase_drive {c : Char} {drive : List Char} (rest : List Char) (hdrive : c ∉ drive) (hc : c ≠ ':') :
    ∃ rest', recase c (drive ++ ':' :: rest) = drive ++ ':' :: rest' := by
  have hfront : c ∉ drive ++ [':'] := by simp [hdrive, hc]
  obtain ⟨part, parts, hsplit⟩ := splitWhere_append hfront rest
  rw [List.append_assoc, List.singleton_append] at hsplit
  have hword : bareword? (String.ofList (drive ++ [':'] ++ part)) = none := bareword?_colon (by simp)
  rw [recase, hsplit, List.map_cons, hword]
  cases parts with
  | nil => exact ⟨part, by simp [join, List.intercalate]⟩
  | cons next parts => simp [join, List.intercalate]

/-- The usual spelling of a name has a shouted drive only if the name has one. -/
theorem lowerDrive?_canonicalCase {s : String} (h : lowerDrive? s = none) :
    lowerDrive? (canonicalCase s) = none := by
  refine Option.eq_none_iff_forall_ne_some.mpr fun new hnew => ?_
  obtain ⟨drive, rest, hcanonical, hc, hdrive, -⟩ := lowerDrive?_eq_some.mp hnew
  have hsame := sameIgnoringCase_iff.mp (canonicalCase_same s)
  rw [hcanonical] at hsame
  obtain ⟨drive', t, hs, hsame, ht⟩ := sameText_append_right.mp hsame.symm
  obtain ⟨x, rest', rfl, hx, -⟩ := sameText_cons_right.mp ht
  obtain rfl : x = ':' := (colon_iff x).mp hx
  -- neither dots nor dashes nor brackets in the drive, as these are no letters
  have hmem {c : Char} (hlist : c ∈ ['.', '-', '[']) (hiff : ∀ x : Char, x.toLower = c ↔ x = c) :
      c ∉ drive' := fun h => hdrive.not_mem hlist (by simpa using (hsame.mem_iff hiff).mp h)
  have hdot : '.' ∉ drive' := hmem (by simp) fun _ => toLower_eq_iff (by decide) rfl
  have hdash : '-' ∉ drive' := hmem (by simp) fun _ => toLower_eq_iff (by decide) rfl
  have hbracket : '[' ∉ drive' := hmem (by simp) fun _ => toLower_eq_iff (by decide) rfl
  have hcolon : ':' ∉ drive' := fun h => hc ((hsame.mem_iff colon_iff).mp h)
  have hplain : ∀ inner, drive' ++ ':' :: rest' ≠ '[' :: (inner ++ [']']) := by
    intro inner heq
    cases drive' with
    | nil => exact absurd (List.cons.inj heq).1 (by decide)
    | cons y drive' =>
      rw [List.cons_append, List.cons.injEq] at heq
      exact hbracket (heq.1 ▸ List.mem_cons_self ..)
  have hspell := toList_canonicalCase_plain hplain
  obtain ⟨rest₁, hrest₁⟩ := recase_drive rest' hdot (by decide)
  obtain ⟨rest₂, hrest₂⟩ := recase_drive rest₁ hdash (by decide)
  rw [spell, Function.comp, hrest₁, hrest₂, ← hs, String.ofList_toList, hcanonical] at hspell
  have hcut := cut?_eq_some.mpr ⟨hspell, hcolon⟩
  rw [cut?_eq_some.mpr ⟨rfl, hc⟩, Option.some.injEq, Prod.mk.injEq] at hcut
  have h' := lowerDrive?_eq_some.mpr ⟨drive', rest', hs, hcolon, hcut.1 ▸ hdrive, rfl⟩
  rw [h] at h'
  cases h'

/-! ### Aliases and automatic variables -/

theorem aliasTarget?_congr {a b : String} (h : sameIgnoringCase a b = true) :
    aliasTarget? a = aliasTarget? b := by
  simp only [aliasTarget?, sameIgnoringCase_congr h]

theorem specialVariable?_congr {a b : String} (h : sameIgnoringCase a b = true) :
    specialVariable? a = specialVariable? b := by
  simp only [specialVariable?, sameIgnoringCase_congr h]

/-- A property of all aliases, by look-up. -/
theorem aliasTarget?_eq_some {word target : String} (h : aliasTarget? word = some target) :
    ∃ entry ∈ aliases, sameIgnoringCase entry.1 word = true ∧ entry.2 = target := by
  obtain ⟨entry, hentry, rfl⟩ := Option.map_eq_some_iff.mp h
  exact ⟨entry, List.mem_of_find?_eq_some hentry,
    List.find?_some (p := fun entry : String × String => sameIgnoringCase entry.1 word) hentry, rfl⟩

theorem specialVariable?_eq_some {name special : String} (h : specialVariable? name = some special) :
    ∃ entry ∈ specialVariables, sameIgnoringCase entry.1 name = true ∧ entry.1 = special := by
  obtain ⟨entry, hentry, rfl⟩ := Option.map_eq_some_iff.mp h
  exact ⟨entry, List.mem_of_find?_eq_some hentry,
    List.find?_some (p := fun entry : String × Option String => sameIgnoringCase entry.1 name) hentry, rfl⟩

/-- Aliases have no dash, and the commands that they stand for have one. -/
theorem aliasTarget?_target {word target : String} (h : aliasTarget? word = some target) :
    aliasTarget? target = none := by
  have htable : ∀ entry ∈ aliases, '-' ∉ entry.1.toList ∧ '-' ∈ entry.2.toList := by decide +kernel
  obtain ⟨entry, hmem, -, rfl⟩ := aliasTarget?_eq_some h
  refine Option.eq_none_iff_forall_ne_some.mpr fun target htarget => ?_
  obtain ⟨entry', hmem', hsame, -⟩ := aliasTarget?_eq_some htarget
  have hdash := (sameIgnoringCase_iff.mp hsame).mem_iff (c := '-')
    fun _ => toLower_eq_iff (by decide) rfl
  exact (htable entry' hmem').1 (hdash.mpr (htable entry hmem).2)

theorem aliasTarget?_qualified {word : String} (h : isQualified word = true) :
    aliasTarget? word = none := by
  have htable : ∀ entry ∈ aliases, isQualified entry.1 = false := by decide +kernel
  refine Option.eq_none_iff_forall_ne_some.mpr fun target htarget => ?_
  obtain ⟨entry, hmem, hsame, -⟩ := aliasTarget?_eq_some htarget
  rw [← isQualified_congr hsame, htable entry hmem] at h
  cases h

theorem specialVariable?_special {name special : String} (h : specialVariable? name = some special) :
    specialVariable? special = some special := by
  obtain ⟨entry, -, hsame, rfl⟩ := specialVariable?_eq_some h
  rw [specialVariable?_congr hsame, h]

theorem lowerDrive?_special {name special : String} (h : specialVariable? name = some special) :
    lowerDrive? special = none := by
  have htable : ∀ entry ∈ specialVariables, lowerDrive? entry.1 = none := by decide +kernel
  obtain ⟨entry, hmem, -, rfl⟩ := specialVariable?_eq_some h
  exact htable entry hmem

theorem length_special {name special : String} (h : specialVariable? name = some special) :
    special.length < 30 := by
  have htable : ∀ entry ∈ specialVariables, entry.1.length < 30 := by decide +kernel
  obtain ⟨entry, hmem, -, rfl⟩ := specialVariable?_eq_some h
  exact htable entry hmem

end Unscramble
