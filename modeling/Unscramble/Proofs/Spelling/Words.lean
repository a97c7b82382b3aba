import Unscramble.Proofs.Spelling.Drives
import Unscramble.Proofs.Text.Ascii

/-! The spelling that a word or the name of a variable comes to, in whatever order the rules about its
spelling are applied: an alias is expanded first, then the drive is put in lower case, and the usual
spelling comes last. -/
namespace Unscramble

open Text Vocabulary Simplify

/-! ### Lower case -/

namespace Text

/-- Only ranges that begin with an ASCII character can hold one. -/
theorem CodeRanges.has_ascii (ranges : CodeRanges) {c : Char} (h : c.toNat < 128) :
    ranges.has c = CodeRanges.has (ranges.filter (·.1 < 128)) c := by
  rw [CodeRanges.has, CodeRanges.has, List.any_filter]
  refine congrArg ranges.any (funext fun (first, last) => ?_)
  by_cases hfirst : first < 128
  · simp [hfirst]
  · have hnot : ¬ first ≤ c.toNat := by omega
    simp [hfirst, hnot]

theorem has_toLower (c : Char) : ignorableRanges.has c.toLower = ignorableRanges.has c ∧
    casedRanges.has c.toLower = casedRanges.has c := by
  have hignorable : ignorableRanges.filter (·.1 < 128) =
      [(39, 39), (46, 46), (58, 58), (94, 94), (96, 96)] := by decide +kernel
  have hcased : casedRanges.filter (·.1 < 128) = [(65, 90), (97, 122)] := by decide +kernel
  have htable : ∀ ranges ∈ [[(39, 39), (46, 46), (58, 58), (94, 94), (96, 96)], [(65, 90), (97, 122)]],
      ∀ n < 128, CodeRanges.has ranges (Char.ofNat n).toLower = CodeRanges.has ranges (Char.ofNat n) := by
    decide +kernel
  by_cases h : c.toNat < 128
  · have hlower := toLower_ascii h
    rw [ignorableRanges.has_ascii h, ignorableRanges.has_ascii hlower, casedRanges.has_ascii h,
      casedRanges.has_ascii hlower, hignorable, hcased]
    exact ⟨by simpa using htable _ (by simp) c.toNat h, by simpa using htable _ (by simp) c.toNat h⟩
  · rw [toLower_of_not_ascii (Nat.not_lt.mp h)]
    exact ⟨rfl, rfl⟩

theorem eq_of_toLower {c d : Char} (hc : 128 ≤ c.toNat) (h : c.toLower = d.toLower) : c = d := by
  have hd : ¬ d.toNat < 128 := fun hd => by
    have hlower := toLower_ascii hd
    rw [← h, toLower_of_not_ascii hc] at hlower
    omega
  rwa [toLower_of_not_ascii hc, toLower_of_not_ascii (Nat.not_lt.mp hd)] at h

theorem lowerChar_congr {c d : Char} (h : c.toLower = d.toLower) : lowerChar c = lowerChar d := by
  by_cases hc : c.toNat < 128
  · have hd : d.toNat < 128 := ascii_of_toLower (h ▸ toLower_ascii hc)
    rw [lowerChar, lowerChar, if_pos hc, if_pos hd, h]
  · rw [eq_of_toLower (Nat.not_lt.mp hc) h]

theorem meetsCased_congr {s t : List Char} (h : SameText s t) : meetsCased s = meetsCased t := by
  induction s generalizing t with
  | nil => rw [sameText_nil_left.mp h]
  | cons c s ih =>
    obtain ⟨d, t, rfl⟩ : ∃ d t', t = d :: t' := by
      cases t with
      | nil => simp at h
      | cons d t => exact ⟨d, t, rfl⟩
    obtain ⟨hcd, hst⟩ := sameText_cons.mp h
    have hignorable : ignorableRanges.has c = ignorableRanges.has d := by
      rw [← (has_toLower c).1, hcd, (has_toLower d).1]
    have hcased : casedRanges.has c = casedRanges.has d := by
      rw [← (has_toLower c).2, hcd, (has_toLower d).2]
    have ih := ih hst
    unfold meetsCased at ih ⊢
    rw [List.find?_cons, List.find?_cons, hignorable]
    cases ignorableRanges.has d with
    | true => exact ih
    | false => exact hcased

theorem lowerFrom_congr {before before' s t : List Char} (hbefore : SameText before before')
    (h : SameText s t) : lowerFrom before s = lowerFrom before' t := by
  induction s generalizing before before' t with
  | nil => rw [sameText_nil_left.mp h]; rfl
  | cons c s ih =>
    obtain ⟨d, t, rfl⟩ : ∃ d t', t = d :: t' := by
      cases t with
      | nil => simp at h
      | cons d t => exact ⟨d, t, rfl⟩
    obtain ⟨hcd, hst⟩ := sameText_cons.mp h
    have hsigma (x : Char) : x.toLower = 'Σ' ↔ x = 'Σ' := toLower_eq_iff (by decide) rfl
    have hiff : c = 'Σ' ↔ d = 'Σ' := by rw [← hsigma c, hcd, hsigma d]
    have hhead : (if c = 'Σ' then [if meetsCased before && !meetsCased s then 'ς' else 'σ']
        else lowerChar c) =
        if d = 'Σ' then [if meetsCased before' && !meetsCased t then 'ς' else 'σ'] else lowerChar d := by
      rw [meetsCased_congr hbefore, meetsCased_congr hst, lowerChar_congr hcd]
      exact if_congr hiff rfl rfl
    rw [lowerFrom, lowerFrom, hhead, ih (sameText_cons.mpr ⟨hcd, hbefore⟩) hst]

/-- Texts that differ in the case of ASCII letters only have the same lower case. -/
theorem lower_congr {a b : String} (h : sameIgnoringCase a b = true) : lower a = lower b := by
  rw [lower, lower, lowerFrom_congr .rfl (sameIgnoringCase_iff.mp h)]

end Text

/-! ### Drives and usual spellings -/

/-- What stands in front of a colon has no part in the usual spelling of the rest. -/
theorem recase_front {c : Char} {front : List Char} (rest : List Char) (hfront : c ∉ front) (hc : c ≠ ':') :
    recase c (front ++ ':' :: rest) = front ++ recase c (':' :: rest) := by
  obtain ⟨part, parts, hsplit⟩ := splitWhere_append (show c ∉ [':'] by simpa using hc) rest
  rw [List.singleton_append, List.singleton_append] at hsplit
  have hword (start : List Char) : bareword? (String.ofList (start ++ ':' :: part)) = none :=
    bareword?_colon (by simp)
  have hstop : ∀ d ∈ front, (d == c) = false := fun d hd =>
    beq_eq_false_iff_ne.mpr fun h => hfront (h ▸ hd)
  rw [recase, recase, splitWhere_front hstop hsplit, hsplit, List.map_cons, List.map_cons, hword]
  rw [show bareword? (String.ofList (':' :: part)) = none from hword []]
  exact join_append_cons front (':' :: part) _

theorem spell_front {front : List Char} (rest : List Char) (hdot : '.' ∉ front) (hdash : '-' ∉ front) :
    ∃ rest', spell (':' :: rest) = ':' :: rest' ∧ spell (front ++ ':' :: rest) = front ++ ':' :: rest' := by
  obtain ⟨rest₁, hrest₁⟩ := recase_drive rest (List.not_mem_nil (a := '.')) (by decide)
  obtain ⟨rest₂, hrest₂⟩ := recase_drive rest₁ (List.not_mem_nil (a := '-')) (by decide)
  simp only [List.nil_append] at hrest₁ hrest₂
  refine ⟨rest₂, ?_, ?_⟩
  · rw [spell, Function.comp, hrest₁, hrest₂]
  · rw [spell, Function.comp, recase_front rest hdot (by decide), hrest₁,
      recase_front rest₁ hdash (by decide), hrest₂]

theorem canonicalCase_front {front : List Char} (rest : List Char)
    (hfront : ∀ c ∈ ['.', '-', '['], c ∉ front) :
    ∃ rest', spell (':' :: rest) = ':' :: rest' ∧
      (canonicalCase (String.ofList (front ++ ':' :: rest))).toList = front ++ ':' :: rest' := by
  obtain ⟨rest', hrest, hspell⟩ :=
    spell_front rest (hfront '.' (by simp)) (hfront '-' (by simp))
  have hplain : ∀ inner, front ++ ':' :: rest ≠ '[' :: (inner ++ [']']) := by
    intro inner heq
    cases front with
    | nil => exact absurd (List.cons.inj heq).1 (by decide)
    | cons c front =>
      rw [List.cons_append, List.cons.injEq] at heq
      exact hfront '[' (by simp) (heq.1 ▸ List.mem_cons_self)
  exact ⟨rest', hrest, (toList_canonicalCase_plain hplain).trans hspell⟩

theorem Shouted.lower_not_mem {drive : String} (h : Shouted drive) :
    ∀ c ∈ ['.', '-', '['], c ∉ (lower drive).toList := by
  have hall : ['.', '-', '['].all (fun c => !(lower drive).toList.contains c) = true := by
    rcases h.known with h | h <;> rw [h] <;> decide
  simpa using hall

/-- The drive can be put in lower case before or after the usual spelling. -/
theorem lowerDrive?_recased {word new : String} (h : lowerDrive? word = some new) :
    ∃ new', lowerDrive? (canonicalCase word) = some new' ∧ canonicalCase new' = canonicalCase new := by
  obtain ⟨drive, rest, hword, hcolon, hdrive, rfl⟩ := lowerDrive?_eq_some.mp h
  have hfront : ∀ c ∈ ['.', '-', '['], c ∉ drive := fun c hc => by simpa using hdrive.not_mem hc
  obtain ⟨rest', hrest, hcanonical⟩ := canonicalCase_front rest hfront
  rw [← hword, String.ofList_toList] at hcanonical
  refine ⟨_, lowerDrive?_eq_some.mpr ⟨drive, rest', hcanonical, hcolon, hdrive, rfl⟩, ?_⟩
  -- both have the drive in lower case in front of the same usual spelling
  have hlowered (end' : List Char) : lower (String.ofList drive) ++ ":" ++ String.ofList end' =
      String.ofList ((lower (String.ofList drive)).toList ++ ':' :: end') := by
    rw [← String.toList_inj]
    simp
  obtain ⟨rest₁, hrest₁, hnew⟩ := canonicalCase_front rest hdrive.lower_not_mem
  obtain ⟨rest₂, hrest₂, hnew'⟩ := canonicalCase_front rest' hdrive.lower_not_mem
  have hidem := spell_recases.idem (':' :: rest)
  rw [hrest, hrest₂] at hidem
  rw [hrest] at hrest₁
  rw [← String.toList_inj, hlowered, hlowered, hnew, hnew', hidem, hrest₁]

/-- Putting a drive in lower case changes nothing but the case of ASCII letters. -/
theorem lowerDrive?_same {path new : String} (h : lowerDrive? path = some new) :
    sameIgnoringCase new path = true := by
  obtain ⟨drive, rest, hpath, -, hdrive, rfl⟩ := lowerDrive?_eq_some.mp h
  have hletters : ∀ c ∈ (lower (String.ofList drive)).toList, c.toNat < 128 ∧ c ≠ 'k' := by
    have hall : (lower (String.ofList drive)).toList.all (fun c => c.toNat < 128 && c != 'k') = true := by
      rcases hdrive.known with h | h <;> rw [h] <;> decide
    simpa using hall
  have hascii : ∀ c ∈ (String.ofList drive).toList, c.toNat < 128 := by
    rw [lower, String.toList_ofList] at hletters
    exact ascii_of_lowerFrom [] hletters
  have hlower : (lower (String.ofList drive)).toList = drive.map Char.toLower := by
    rw [lower_ascii hascii, lowerAscii]
    simp
  have hlowered : (drive.map Char.toLower).map Char.toLower = drive.map Char.toLower := by
    have hagain := lower_lower (String.ofList drive)
    rw [lower_ascii fun c hc => (hletters c hc).1, ← String.toList_inj, lowerAscii] at hagain
    rwa [String.toList_map, hlower] at hagain
  refine sameIgnoringCase_iff.mpr ?_
  rw [hpath, SameText]
  simp only [String.toList_append, List.map_append, hlower, hlowered]
  simp

/-! ### Words -/

/-- A path with the drive in lower case. -/
def lowered (path : String) : String := (lowerDrive? path).getD path

/-- The command that a word stands for, if it is the first of a command. -/
def expanded (first : Bool) (word : String) : String :=
  if first then (aliasTarget? word).getD word else word

/-- What a word comes to. -/
def settledWord (first : Bool) (word : String) : String := canonicalCase (lowered (expanded first word))

theorem lowered_of_none {path : String} (h : lowerDrive? path = none) : lowered path = path := by
  rw [lowered, h, Option.getD_none]

theorem expanded_of_none {first : Bool} {word : String} (h : first = true → aliasTarget? word = none) :
    expanded first word = word := by
  unfold expanded
  split
  next hfirst => rw [h hfirst, Option.getD_none]
  next => rfl

theorem expanded_qualified (first : Bool) {word : String} (h : isQualified word = true) :
    expanded first word = word :=
  expanded_of_none fun _ => aliasTarget?_qualified h

theorem settledWord_alias {word target : String} (h : aliasTarget? word = some target) :
    settledWord true target = settledWord true word := by
  rw [settledWord, settledWord, expanded_of_none fun _ => aliasTarget?_target h]
  simp [expanded, h]

theorem settledWord_drive (first : Bool) {word new : String} (h : lowerDrive? word = some new) :
    settledWord first new = settledWord first word := by
  obtain ⟨hword, hnew⟩ := isQualified_of_lowerDrive? h
  rw [settledWord, settledWord, expanded_qualified first hword, expanded_qualified first hnew,
    lowered_of_none (lowerDrive?_lowered h), lowered, h, Option.getD_some]

theorem canonicalCase_lowered (word : String) :
    canonicalCase (lowered (canonicalCase word)) = canonicalCase (lowered word) := by
  cases h : lowerDrive? word with
  | none => rw [lowered_of_none h, lowered_of_none (lowerDrive?_canonicalCase h), canonicalCase_idem]
  | some new =>
    obtain ⟨new', hnew', hsame⟩ := lowerDrive?_recased h
    rw [lowered, hnew', lowered, h, Option.getD_some, Option.getD_some, hsame]

theorem settledWord_case (first : Bool) (word : String) :
    settledWord first (canonicalCase word) = settledWord first word := by
  unfold settledWord expanded
  rw [aliasTarget?_congr (canonicalCase_same word)]
  split
  · cases aliasTarget? word with
    | none => exact canonicalCase_lowered word
    | some target => rfl
  · exact canonicalCase_lowered word

/-- A word that no rule changes is what it comes to. -/
theorem settledWord_eq_self {first : Bool} {word : String}
    (halias : first = true → aliasTarget? word = none) (hdrive : lowerDrive? word = none)
    (hcase : canonicalCase word = word) : settledWord first word = word := by
  rw [settledWord, expanded_of_none halias, lowered_of_none hdrive, hcase]

/-! ### Names of variables -/

/-- What the name of a variable comes to. -/
def settledPath (path : String) : String := (specialVariable? (lowered path)).getD (lowered path)

theorem specialVariable?_lowered (path : String) :
    specialVariable? (lowered path) = specialVariable? path := by
  cases h : lowerDrive? path with
  | none => rw [lowered_of_none h]
  | some new =>
    rw [lowered, h, Option.getD_some]
    exact specialVariable?_congr (lowerDrive?_same h)

theorem settledPath_drive {path new : String} (h : lowerDrive? path = some new) :
    settledPath new = settledPath path := by
  unfold settledPath
  rw [lowered_of_none (lowerDrive?_lowered h), lowered, h, Option.getD_some]

theorem settledPath_special {path special : String} (h : specialVariable? path = some special) :
    settledPath special = settledPath path := by
  unfold settledPath
  rw [specialVariable?_lowered, specialVariable?_lowered, specialVariable?_special h, h]
  rfl

theorem settledPath_eq_self {path : String} (hdrive : lowerDrive? path = none)
    (hspecial : (specialVariable? path).bind (changed? path) = none) : settledPath path = path := by
  unfold settledPath
  rw [lowered_of_none hdrive]
  cases h : specialVariable? path with
  | none => rfl
  | some special => simpa [h, changed?] using hspecial

end Unscramble
