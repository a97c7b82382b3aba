import Mathlib.Data.List.Forall2
import Unscramble.Proofs.Text.Split
import Unscramble.Vocabulary

/-! Usual spellings change nothing but the case of ASCII letters, and what they do depends on
nothing but the text without its case. So a usual spelling of a usual spelling is no other one. -/
namespace Unscramble

namespace Text

/-- Texts that differ in the case of ASCII letters only. -/
def SameText (s t : List Char) : Prop := s.map Char.toLower = t.map Char.toLower

theorem SameText.rfl {s : List Char} : SameText s s := Eq.refl _

theorem SameText.symm {s t : List Char} (h : SameText s t) : SameText t s := Eq.symm h

theorem SameText.trans {s t u : List Char} (h : SameText s t) (k : SameText t u) : SameText s u :=
  Eq.trans h k

@[simp] theorem sameText_nil_right {s : List Char} : SameText s [] ↔ s = [] := by
  simp [SameText]

@[simp] theorem sameText_nil_left {s : List Char} : SameText [] s ↔ s = [] := by
  simp [SameText, eq_comm]

@[simp] theorem sameText_cons {a b : Char} {s t : List Char} :
    SameText (a :: s) (b :: t) ↔ a.toLower = b.toLower ∧ SameText s t := by
  simp [SameText]

theorem sameText_cons_right {b : Char} {s t : List Char} :
    SameText s (b :: t) ↔ ∃ a s', s = a :: s' ∧ a.toLower = b.toLower ∧ SameText s' t := by
  simp [SameText, List.map_eq_cons_iff]

theorem sameText_append_right {s t u : List Char} :
    SameText s (t ++ u) ↔ ∃ t' u', s = t' ++ u' ∧ SameText t' t ∧ SameText u' u := by
  simp [SameText, List.map_eq_append_iff]

theorem sameIgnoringCase_iff {a b : String} :
    sameIgnoringCase a b = true ↔ SameText a.toList b.toList := by
  simp [sameIgnoringCase, lowerAscii, SameText, ← String.toList_inj]

theorem sameIgnoringCase_congr {a b : String} (h : sameIgnoringCase a b = true) (c : String) :
    sameIgnoringCase c a = sameIgnoringCase c b := by
  have h : lowerAscii a = lowerAscii b := by simpa [sameIgnoringCase] using h
  rw [sameIgnoringCase, sameIgnoringCase, h]

theorem SameText.length {s t : List Char} (h : SameText s t) : s.length = t.length := by
  simpa using congrArg List.length h

/-- Only a letter has another case. -/
theorem toLower_eq_iff {x c : Char} (hc : ¬(97 ≤ c.toNat ∧ c.toNat ≤ 122)) (hself : c.toLower = c) :
    x.toLower = c ↔ x = c := by
  refine ⟨fun h => ?_, fun h => h ▸ hself⟩
  unfold Char.toLower at h
  split at h
  next hx =>
    subst h
    refine absurd ?_ hc
    have hlow : 65 ≤ x.val.toNat := UInt32.le_iff_toNat_le.mp hx.1
    have hhigh : x.val.toNat ≤ 90 := UInt32.le_iff_toNat_le.mp hx.2
    change 97 ≤ (x.val + 32).toNat ∧ (x.val + 32).toNat ≤ 122
    rw [UInt32.toNat_add]
    have hmod : (x.val.toNat + 32) % 2 ^ 32 = x.val.toNat + 32 := Nat.mod_eq_of_lt (by omega)
    change 97 ≤ (x.val.toNat + 32) % 2 ^ 32 ∧ (x.val.toNat + 32) % 2 ^ 32 ≤ 122
    omega
  next => exact h

end Text

open Text Vocabulary

/-- What a change of case does to two texts that differ in case only. In every place it leaves both
texts alone, or it puts the same character into both. -/
inductive Recased : List Char → List Char → List Char → List Char → Prop
  | nil : Recased [] [] [] []
  | keep {a b s t s' t'} : a.toLower = b.toLower → Recased s t s' t' →
      Recased (a :: s) (b :: t) (a :: s') (b :: t')
  | set {a b c s t s' t'} : a.toLower = c.toLower → b.toLower = c.toLower → Recased s t s' t' →
      Recased (a :: s) (b :: t) (c :: s') (c :: t')

namespace Recased
variable {s t s' t' s'' t'' u v u' v' : List Char}

theorem append (h : Recased s t s' t') (k : Recased u v u' v') :
    Recased (s ++ u) (t ++ v) (s' ++ u') (t' ++ v') := by
  induction h with
  | nil => exact k
  | keep hab _ ih => exact .keep hab ih
  | set hac hbc _ ih => exact .set hac hbc ih

theorem comp (h : Recased s t s' t') (k : Recased s' t' s'' t'') : Recased s t s'' t'' := by
  induction h generalizing s'' t'' with
  | nil => exact k
  | keep hab _ ih =>
    cases k with
    | keep _ k => exact .keep hab (ih k)
    | set hac hbc k => exact .set hac hbc (ih k)
  | set hac hbc _ ih =>
    cases k with
    | keep _ k => exact .set hac hbc (ih k)
    | set hcd _ k => exact .set (hac.trans hcd) (hbc.trans hcd) (ih k)

theorem of_same : {s t : List Char} → SameText s t → Recased s t s t
  | [], t, h => by rw [sameText_nil_left.mp h]; exact .nil
  | a :: s, [], h => by simp at h
  | a :: s, b :: t, h => .keep (sameText_cons.mp h).1 (of_same (sameText_cons.mp h).2)

/-- Both texts become one and the same. -/
theorem of_target : {s t u : List Char} → SameText s u → SameText t u → Recased s t u u
  | s, t, [], hs, ht => by rw [sameText_nil_right.mp hs, sameText_nil_right.mp ht]; exact .nil
  | s, t, c :: u, hs, ht => by
    obtain ⟨a, s, rfl, ha, hs⟩ := sameText_cons_right.mp hs
    obtain ⟨b, t, rfl, hb, ht⟩ := sameText_cons_right.mp ht
    exact .set ha hb (of_target hs ht)

theorem same (h : Recased s t s' t') : SameText s' s := by
  induction h with
  | nil => exact .rfl
  | keep _ _ ih => exact sameText_cons.mpr ⟨rfl, ih⟩
  | set hac _ _ ih => exact sameText_cons.mpr ⟨hac.symm, ih⟩

/-- Nothing is left to change when a result is changed again. -/
theorem again (h : Recased s t s' t') (ht : t = s') : t' = s' := by
  induction h with
  | nil => rfl
  | keep _ _ ih => rw [List.cons.injEq] at ht; rw [ht.1, ih ht.2]
  | set _ _ _ ih => rw [List.cons.injEq] at ht; rw [ih ht.2]

end Recased

/-- Functions that only change case, by what the text is without its case. -/
def Recases (f : List Char → List Char) : Prop := ∀ s t, SameText s t → Recased s t (f s) (f t)

theorem Recases.same {f : List Char → List Char} (hf : Recases f) (s : List Char) :
    SameText (f s) s := (hf s s .rfl).same

theorem Recases.idem {f : List Char → List Char} (hf : Recases f) (s : List Char) :
    f (f s) = f s :=
  (hf s (f s) (hf.same s).symm).again rfl

theorem Recases.comp {f g : List Char → List Char} (hg : Recases g) (hf : Recases f) :
    Recases (g ∘ f) := fun s t h =>
  (hf s t h).comp (hg _ _ ((hf.same s).trans (h.trans (hf.same t).symm)))

/-! ### Segments -/

section
variable {c : Char}

theorem pushFirst_same {a b : Char} {xs ys : List (List Char)} (hab : a.toLower = b.toLower)
    (h : List.Forall₂ SameText xs ys) :
    List.Forall₂ SameText (pushFirst a xs) (pushFirst b ys) := by
  cases h with
  | nil => exact .cons (sameText_cons.mpr ⟨hab, .rfl⟩) .nil
  | cons hfirst hrest => exact .cons (sameText_cons.mpr ⟨hab, hfirst⟩) hrest

theorem splitWhere_same {s t : List Char} (hc : ∀ x : Char, x.toLower = c.toLower ↔ x = c)
    (h : SameText s t) :
    List.Forall₂ SameText (splitWhere (· == c) s) (splitWhere (· == c) t) := by
  induction s generalizing t with
  | nil => rw [sameText_nil_left.mp h]; exact .cons .rfl .nil
  | cons a s ih =>
    cases t with
    | nil => simp at h
    | cons b t =>
      obtain ⟨hab, h⟩ := sameText_cons.mp h
      have hiff : a = c ↔ b = c := by rw [← hc a, hab, hc b]
      rw [splitWhere, splitWhere]
      by_cases ha : a = c
      · simpa [ha, hiff.mp ha] using ih h
      · have hb : b ≠ c := fun hb => ha (hiff.mpr hb)
        simp only [beq_iff_eq, ha, hb, if_false]
        exact pushFirst_same hab (ih h)

theorem recased_join {g : List Char → List Char} (hg : Recases g) {xs ys : List (List Char)}
    (h : List.Forall₂ SameText xs ys) :
    Recased (join [c] xs) (join [c] ys) (join [c] (xs.map g)) (join [c] (ys.map g)) := by
  induction h with
  | nil => exact .nil
  | @cons x y xs ys hxy hrest ih =>
    cases hrest with
    | nil => simpa [join, List.intercalate] using hg x y hxy
    | @cons x' y' xs ys hxy' hrest =>
      have h := (hg x y hxy).append (.keep (a := c) (b := c) rfl ih)
      simpa [join, List.intercalate] using h

end

theorem bareword?_congr {a b : String} (h : sameIgnoringCase a b = true) :
    bareword? a = bareword? b := by
  simp only [bareword?, sameIgnoringCase_congr h]

theorem same_of_bareword? {a word : String} (h : bareword? a = some word) :
    sameIgnoringCase word a = true :=
  List.find?_some (p := (sameIgnoringCase · a)) h

/-- The usual spelling of a segment. -/
def respell (segment : List Char) : List Char :=
  ((bareword? (String.ofList segment)).map String.toList).getD segment

theorem respell_recases : Recases respell := by
  intro s t h
  have hst : bareword? (String.ofList s) = bareword? (String.ofList t) :=
    bareword?_congr (sameIgnoringCase_iff.mpr (by simpa using h))
  unfold respell
  rw [← hst]
  cases hword : bareword? (String.ofList s) with
  | none => exact .of_same h
  | some word =>
    have hs : SameText s word.toList := by
      simpa using (sameIgnoringCase_iff.mp (same_of_bareword? hword)).symm
    exact .of_target hs (h.symm.trans hs)

theorem recase_recases {c : Char} (hc : ∀ x : Char, x.toLower = c.toLower ↔ x = c) :
    Recases (recase c) := by
  intro s t h
  have h := recased_join (c := c) respell_recases (splitWhere_same hc h)
  rwa [join_splitWhere, join_splitWhere] at h

/-! ### Whole names -/

theorem dropStart?_eq_some {start s rest : List Char} :
    dropStart? start s = some rest ↔ s = start ++ rest := by
  simp only [dropStart?, Option.ite_none_right_eq_some, List.isPrefixOf_iff_prefix,
    Option.some.injEq]
  constructor
  · rintro ⟨⟨rest, rfl⟩, h⟩
    rw [← h, List.drop_left]
  · rintro rfl
    exact ⟨List.prefix_append .., List.drop_left⟩

theorem dropEnd?_eq_some {ending s rest : List Char} :
    dropEnd? ending s = some rest ↔ s = rest ++ ending := by
  simp only [dropEnd?, Option.ite_none_right_eq_some, List.isSuffixOf_iff_suffix,
    Option.some.injEq]
  constructor
  · rintro ⟨⟨rest, rfl⟩, h⟩
    rw [← h, List.length_append, Nat.add_sub_cancel, List.take_left]
  · rintro rfl
    rw [List.length_append, Nat.add_sub_cancel, List.take_left]
    exact ⟨List.suffix_append .., rfl⟩

theorem bracketed_iff {s inner : List Char} :
    (dropStart? ['['] s).bind (dropEnd? [']']) = some inner ↔ s = '[' :: (inner ++ [']']) := by
  simp [Option.bind_eq_some_iff, dropStart?_eq_some, dropEnd?_eq_some]

theorem sameText_bracketed {s inner : List Char} (h : SameText s ('[' :: (inner ++ [']']))) :
    ∃ inner', s = '[' :: (inner' ++ [']']) ∧ SameText inner' inner := by
  obtain ⟨a, rest, rfl, ha, h⟩ := sameText_cons_right.mp h
  obtain ⟨inner', ending, rfl, hinner, h⟩ := sameText_append_right.mp h
  obtain ⟨b, rest, rfl, hb, h⟩ := sameText_cons_right.mp h
  have ha : a = '[' := (toLower_eq_iff (by decide) rfl).mp ha
  have hb : b = ']' := (toLower_eq_iff (by decide) rfl).mp hb
  rw [sameText_nil_right.mp h, ha, hb]
  exact ⟨inner', rfl, hinner⟩

/-- The usual spelling of a name without brackets. -/
def spell : List Char → List Char := recase '-' ∘ recase '.'

theorem spell_recases : Recases spell :=
  (recase_recases fun _ => toLower_eq_iff (by decide) rfl).comp
    (recase_recases fun _ => toLower_eq_iff (by decide) rfl)

theorem toList_canonicalCase_bracketed (inner : List Char) :
    (canonicalCase (String.ofList ('[' :: (inner ++ [']'])))).toList =
      '[' :: (spell inner ++ [']']) := by
  have h : (dropStart? ['['] (String.ofList ('[' :: (inner ++ [']']))).toList).bind
      (dropEnd? [']']) = some inner := bracketed_iff.mpr String.toList_ofList
  rw [canonicalCase, h]
  simp [spell]

theorem toList_canonicalCase_plain {s : List Char} (h : ∀ inner, s ≠ '[' :: (inner ++ [']'])) :
    (canonicalCase (String.ofList s)).toList = spell s := by
  have h : (dropStart? ['['] (String.ofList s).toList).bind (dropEnd? [']']) = none :=
    Option.eq_none_iff_forall_ne_some.mpr fun inner hinner =>
      h inner (by simpa using bracketed_iff.mp hinner)
  rw [canonicalCase, h]
  simp [spell]

theorem canonicalCase_recases : Recases fun s => (canonicalCase (String.ofList s)).toList := by
  intro s t h
  by_cases hs : ∃ inner, s = '[' :: (inner ++ [']'])
  · obtain ⟨inner, rfl⟩ := hs
    obtain ⟨inner', rfl, hinner⟩ := sameText_bracketed h.symm
    simp only [toList_canonicalCase_bracketed]
    exact .keep rfl ((spell_recases _ _ hinner.symm).append (.of_same .rfl))
  · have ht : ∀ inner, t ≠ '[' :: (inner ++ [']']) := by
      rintro inner rfl
      obtain ⟨inner', rfl, -⟩ := sameText_bracketed h
      exact hs ⟨inner', rfl⟩
    simp only [toList_canonicalCase_plain (not_exists.mp hs), toList_canonicalCase_plain ht]
    exact spell_recases s t h

theorem canonicalCase_idem (s : String) : canonicalCase (canonicalCase s) = canonicalCase s := by
  have h := canonicalCase_recases.idem s.toList
  simpa using String.toList_inj.mp h

theorem canonicalCase_same (s : String) : sameIgnoringCase (canonicalCase s) s = true := by
  have h := canonicalCase_recases.same s.toList
  exact sameIgnoringCase_iff.mpr (by simpa using h)

end Unscramble
