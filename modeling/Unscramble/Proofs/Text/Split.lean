import Mathlib.Data.List.Forall2
import Unscramble.Text.Split

/-! Texts in parts. Where the parts between the occurrences of a pattern are joined again, the occurrences
have been replaced by what the parts are joined with; and these are the occurrences that are found from
left to right, each looked for from the end of the one before it. -/
namespace Unscramble.Text

/-! ### Parts -/

section
variable {separator : List Char} {parts : List (List Char)} {c : Char} {s before after : List Char}

theorem cut?_eq_some : cut? [c] s = some (before, after) ↔ s = before ++ c :: after ∧ c ∉ before := by
  induction s generalizing before after with
  | nil => simp [cut?]
  | cons a s ih =>
    rw [cut?]
    by_cases ha : a = c
    · subst ha
      cases before with
      | nil => simp [List.isPrefixOf]
      | cons b before => simp [List.isPrefixOf]; rintro rfl; simp
    · have hstart : [c].isPrefixOf (a :: s) = false := by
        simpa [List.isPrefixOf] using Ne.symm ha
      rw [hstart, if_neg Bool.false_ne_true, Option.map_eq_some_iff]
      constructor
      · rintro ⟨⟨front, rest⟩, hcut, heq⟩
        obtain ⟨rfl, hc⟩ := ih.mp hcut
        cases heq
        exact ⟨rfl, by simpa [Ne.symm ha] using hc⟩
      · rintro ⟨h, hc⟩
        cases before with
        | nil => exact absurd (List.cons.inj h).1 ha
        | cons b before =>
          obtain ⟨rfl, rfl⟩ := List.cons.inj h
          exact ⟨(before, after), ih.mpr ⟨rfl, fun h => hc (List.mem_cons_of_mem _ h)⟩, rfl⟩

theorem cut?_eq_none : cut? [c] s = none ↔ c ∉ s := by
  rw [Option.eq_none_iff_forall_ne_some]
  constructor
  · intro h hc
    obtain ⟨before, after, rfl, hbefore⟩ := List.eq_append_cons_of_mem hc
    exact h (before, after) (cut?_eq_some.mpr ⟨rfl, hbefore⟩)
  · rintro hc ⟨before, after⟩ h
    exact hc (by simp [(cut?_eq_some.mp h).1])

theorem pushFirst_ne_nil (a : Char) (parts : List (List Char)) : pushFirst a parts ≠ [] := by
  cases parts <;> simp [pushFirst]

theorem splitWhere_ne_nil (stop : Char → Bool) (s : List Char) : splitWhere stop s ≠ [] := by
  cases s with
  | nil => simp [splitWhere]
  | cons a s =>
    rw [splitWhere]
    split
    · simp
    · exact pushFirst_ne_nil a _

/-- Characters in front of a text belong to its first part. -/
theorem splitWhere_front {stop : Char → Bool} {front part : List Char} (hfront : ∀ c ∈ front, stop c = false)
    (h : splitWhere stop s = part :: parts) : splitWhere stop (front ++ s) = (front ++ part) :: parts := by
  induction front with
  | nil => exact h
  | cons a front ih =>
    obtain ⟨ha, hfront⟩ := List.forall_mem_cons.mp hfront
    rw [List.cons_append, splitWhere, ha, if_neg Bool.false_ne_true, ih hfront]
    rfl

theorem splitWhere_append {front : List Char} (h : c ∉ front) (s : List Char) :
    ∃ part parts, splitWhere (· == c) (front ++ s) = (front ++ part) :: parts := by
  obtain ⟨part, parts, hs⟩ := List.exists_cons_of_ne_nil (splitWhere_ne_nil (· == c) s)
  have hstop : ∀ d ∈ front, (d == c) = false := fun d hd => beq_eq_false_iff_ne.mpr fun hdc => h (hdc ▸ hd)
  exact ⟨part, parts, splitWhere_front hstop hs⟩

theorem join_append_cons (front part : List Char) (parts : List (List Char)) :
    join separator ((front ++ part) :: parts) = front ++ join separator (part :: parts) := by
  cases parts <;> simp [join, List.intercalate]

theorem join_pushFirst (a : Char) (h : parts ≠ []) :
    join separator (pushFirst a parts) = a :: join separator parts := by
  cases parts with
  | nil => exact absurd rfl h
  | cons part rest =>
    cases rest with
    | nil => simp [pushFirst, join, List.intercalate]
    | cons next rest => simp [pushFirst, join, List.intercalate]

theorem join_nil_cons (h : parts ≠ []) : join separator ([] :: parts) = separator ++ join separator parts := by
  cases parts with
  | nil => exact absurd rfl h
  | cons part rest => simp [join, List.intercalate]

theorem join_splitWhere (s : List Char) : join [c] (splitWhere (· == c) s) = s := by
  induction s with
  | nil => rfl
  | cons a s ih =>
    have hne := splitWhere_ne_nil (· == c) s
    rw [splitWhere]
    split
    next ha => rw [join_nil_cons hne, ih, beq_iff_eq.mp ha, List.singleton_append]
    next => rw [join_pushFirst a hne, ih]

end

/-! ### Occurrences -/

/-- A text with the occurrences of a pattern replaced, which are looked for from left to right: one that
begins where the search has come to is replaced, and the search goes on behind it; a character at which
none begins is kept. -/
inductive Replaced (occurs : List Char → Prop) (replacement : List Char) : List Char → List Char → Prop
  | nil : Replaced occurs replacement [] []
  | found {front s t} : occurs front → Replaced occurs replacement s t →
      Replaced occurs replacement (front ++ s) (replacement ++ t)
  | kept {c s t} : (∀ front rest, c :: s = front ++ rest → ¬ occurs front) →
      Replaced occurs replacement s t → Replaced occurs replacement (c :: s) (c :: t)

section
variable {same : Char → Char → Bool} {pattern replacement s t : List Char}

/-- A text that a pattern stands for if characters are compared in a certain way. -/
def Fits (same : Char → Char → Bool) (pattern front : List Char) : Prop :=
  List.Forall₂ (same · · = true) pattern front

theorem startsBy_iff :
    startsBy same pattern s = true ↔ ∃ front rest, s = front ++ rest ∧ Fits same pattern front := by
  induction pattern generalizing s with
  | nil => exact ⟨fun _ => ⟨[], s, rfl, .nil⟩, fun _ => by cases s <;> rfl⟩
  | cons p pattern ih =>
    cases s with
    | nil =>
      refine ⟨fun h => by simp [startsBy] at h, ?_⟩
      rintro ⟨front, rest, h, hfits⟩
      cases hfits with
      | cons => cases h
    | cons c s =>
      rw [startsBy, Bool.and_eq_true, ih]
      constructor
      · rintro ⟨hc, front, rest, rfl, hfits⟩
        exact ⟨c :: front, rest, rfl, .cons hc hfits⟩
      · rintro ⟨front, rest, h, hfits⟩
        cases hfits with
        | cons hc hfits =>
          obtain ⟨rfl, rfl⟩ := List.cons.inj h
          exact ⟨hc, _, rest, rfl, hfits⟩

theorem splitFrom_ne_nil (skip : Nat) (s : List Char) : splitFrom same pattern skip s ≠ [] := by
  induction s generalizing skip with
  | nil => cases skip <;> simp [splitFrom]
  | cons c s ih =>
    cases skip with
    | succ skip => exact ih skip
    | zero =>
      rw [splitFrom]
      split
      · simp
      · exact pushFirst_ne_nil c _

/-- Joining what stands between the occurrences replaces them. -/
theorem replaced_splitFrom (hpattern : pattern ≠ []) (replacement : List Char) (skip : Nat) (s : List Char) :
    Replaced (Fits same pattern) replacement (s.drop skip)
      (join replacement (splitFrom same pattern skip s)) := by
  induction s generalizing skip with
  | nil => cases skip <;> exact .nil
  | cons c s ih =>
    cases skip with
    | succ skip => exact ih skip
    | zero =>
      rw [splitFrom, List.drop_zero]
      split
      next hstart =>
        rw [join_nil_cons (splitFrom_ne_nil _ _)]
        obtain ⟨front, rest, heq, hfits⟩ := startsBy_iff.mp hstart
        -- what is skipped is the rest of the occurrence that begins here
        have hlength : (c :: s).drop pattern.length = rest := by
          rw [heq, hfits.length_eq, List.drop_left]
        have hskip : pattern.length = pattern.length - 1 + 1 :=
          (Nat.succ_pred_eq_of_pos (List.length_pos_iff.mpr hpattern)).symm
        rw [hskip, List.drop_succ_cons] at hlength
        rw [heq, ← hlength]
        exact .found hfits (ih _)
      next hstart =>
        rw [join_pushFirst c (splitFrom_ne_nil _ _)]
        exact .kept (fun front rest heq hfits => hstart (startsBy_iff.mpr ⟨front, rest, heq, hfits⟩)) (ih 0)

theorem fits_beq {front : List Char} : Fits (· == ·) pattern front ↔ front = pattern := by
  rw [Fits, eq_comm, ← List.forall₂_eq_eq_eq]
  simp only [beq_iff_eq]

end

section
variable {occurs : List Char → Prop} {replacement s t t' : List Char}

/-- Only what texts of the characters of a text are occurrences of counts for it. -/
theorem Replaced.congr {occurs' : List Char → Prop} (h : Replaced occurs replacement s t)
    (hoccurs : ∀ front, (∀ c ∈ front, c ∈ s) → (occurs front ↔ occurs' front)) :
    Replaced occurs' replacement s t := by
  induction h with
  | nil => exact .nil
  | @found front s t hfront _ ih =>
    refine .found ((hoccurs _ fun c hc => List.mem_append_left _ hc).mp hfront) (ih fun _ h => ?_)
    exact hoccurs _ fun c hc => List.mem_append_right _ (h c hc)
  | @kept c s t hnone _ ih =>
    refine .kept (fun front rest heq hfront => ?_) (ih fun _ h => hoccurs _ fun c hc => .tail _ (h c hc))
    exact hnone _ _ heq ((hoccurs _ fun c hc => heq ▸ List.mem_append_left _ hc).mpr hfront)

/-- If all occurrences have the same length, there is one way of replacing them. -/
theorem Replaced.unique (h : Replaced occurs replacement s t) (h' : Replaced occurs replacement s t')
    (hempty : ¬ occurs [])
    (hlength : ∀ front front', occurs front → occurs front' → front.length = front'.length) : t = t' := by
  induction h generalizing t' with
  | nil =>
    generalize hs : ([] : List Char) = s at h'
    cases h' with
    | nil => rfl
    | found hfront => exact absurd ((List.append_eq_nil_iff.mp hs.symm).1 ▸ hfront) hempty
    | kept => cases hs
  | @found front s t hfront _ ih =>
    generalize hs : front ++ s = whole at h'
    cases h' with
    | nil => exact absurd ((List.append_eq_nil_iff.mp hs).1 ▸ hfront) hempty
    | found hfront' h' =>
      obtain ⟨rfl, rfl⟩ := List.append_inj hs (hlength _ _ hfront hfront')
      rw [ih h']
    | kept hnone => exact absurd hfront (hnone _ _ hs.symm)
  | @kept c s t hnone _ ih =>
    generalize hs : c :: s = whole at h'
    cases h' with
    | nil => cases hs
    | found hfront' => exact absurd hfront' (hnone _ _ hs)
    | kept _ h' =>
      obtain ⟨rfl, rfl⟩ := List.cons.inj hs
      rw [ih h']

/-- Nothing changes if occurrences are replaced by themselves. -/
theorem Replaced.eq_self (h : Replaced (· = replacement) replacement s t) : t = s := by
  induction h with
  | nil => rfl
  | found hfront _ ih => rw [hfront, ih]
  | kept _ _ ih => rw [ih]

end
end Unscramble.Text
