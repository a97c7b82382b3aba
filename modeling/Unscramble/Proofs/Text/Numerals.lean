import Mathlib.Algebra.Ring.Int.Defs
import Mathlib.Algebra.Ring.Nat
import Unscramble.Value.Basic

/-! A whole number is read back from its text, except for the least one: its digits are read before
its sign, and they are out of range. -/
namespace Unscramble

namespace Text

theorem digitValue?_digit {c : Char} (h : c.isDigit = true) :
    digitValue? 10 c = some (c.toNat - '0'.toNat) := by
  simp only [Char.isDigit, Bool.and_eq_true, decide_eq_true_eq] at h
  have hrange : '0' ≤ c ∧ c ≤ '9' := h
  have hsmall : c.toNat - '0'.toNat < 10 := by
    have hnine : c.toNat ≤ 57 := h.2
    have hzero : '0'.toNat = 48 := rfl
    omega
  simp only [digitValue?, if_pos hrange, Option.filter_some, decide_eq_true hsmall, if_true]

theorem foldlM_digits (digits : List Char) (h : ∀ c ∈ digits, c.isDigit = true) (n : Nat) :
    digits.foldlM (fun n c => (digitValue? 10 c).map (n * 10 + ·)) n =
      some (Nat.ofDigitChars 10 digits n) := by
  induction digits generalizing n with
  | nil => simp
  | cons c digits ih =>
    obtain ⟨hc, hdigits⟩ := List.forall_mem_cons.mp h
    rw [List.foldlM_cons, digitValue?_digit hc, Nat.ofDigitChars_cons, Nat.mul_comm 10]
    exact ih hdigits _

theorem natural?_toDigits (n : Nat) : natural? 10 (Nat.toDigits 10 n) = some n := by
  have hdigits : ∀ c ∈ Nat.toDigits 10 n, c.isDigit = true := fun c hc =>
    Nat.isDigit_of_mem_toDigits (by decide) (by decide) hc
  rw [natural?, if_neg (by simp [Nat.toDigits_ne_nil]), foldlM_digits _ hdigits,
    Nat.ofDigitChars_ten_toDigits]

/-- The first of the digits of a number, which is no sign and no white space. -/
theorem toDigits_eq_cons (n : Nat) : ∃ c cs, Nat.toDigits 10 n = c :: cs ∧
    ∀ d ∈ c :: cs, d.isDigit = true := by
  obtain ⟨c, cs, h⟩ := List.exists_cons_of_ne_nil (Nat.toDigits_ne_nil (n := n) (b := 10))
  refine ⟨c, cs, h, fun d hd => Nat.isDigit_of_mem_toDigits (by decide) (by decide) (h ▸ hd)⟩

theorem word?_eq_some {m : Int} {n : Int64} : word? m = some n ↔ n.toInt = m := by
  rw [word?, Option.ite_none_right_eq_some, Option.some.injEq]
  constructor
  · rintro ⟨h, rfl⟩
    exact h
  · rintro rfl
    rw [Int64.ofInt_toInt]
    exact ⟨rfl, rfl⟩

theorem isSome_word? {m : Int} : (word? m).isSome = true ↔ -2 ^ 63 ≤ m ∧ m < 2 ^ 63 := by
  rw [Option.isSome_iff_exists]
  constructor
  · rintro ⟨n, h⟩
    rw [← word?_eq_some.mp h]
    exact ⟨n.le_toInt, n.toInt_lt⟩
  · rintro ⟨hlow, hhigh⟩
    exact ⟨_, word?_eq_some.mpr (Int64.toInt_ofInt_of_le hlow hhigh)⟩

theorem integerWord?_toDigits {n : Nat} (h : n < 2 ^ 63) :
    integerWord? 10 (Nat.toDigits 10 n) = some (Int64.ofInt n) := by
  have hnatural := natural?_toDigits n
  obtain ⟨c, cs, heq, hdigits⟩ := toDigits_eq_cons n
  have hinteger : integer? 10 (Nat.toDigits 10 n) = some (n : Int) := by
    rw [heq] at hnatural ⊢
    have hc := hdigits c (by simp)
    unfold integer?
    split
    next h => cases h; exact absurd hc (by decide)
    next h => cases h; exact absurd hc (by decide)
    next => simp [hnatural]
  rw [integerWord?, hinteger, Option.bind_some,
    word?_eq_some.mpr (Int64.toInt_ofInt_of_le (by omega) (by omega))]

theorem isBlank_digit {c : Char} (h : c.isDigit = true) : isBlank c = false := by
  simp only [Char.isDigit, Bool.and_eq_true, decide_eq_true_eq] at h
  have hfirst : 48 ≤ c.toNat := h.1
  have hlast : c.toNat ≤ 57 := h.2
  simp only [isBlank, blankRanges, CodeRanges.has, List.any_eq_false, List.forall_mem_cons]
  simp
  omega

theorem trimChars_eq_self {drop : Char → Bool} {s : List Char} (h : ∀ c ∈ s, drop c = false) :
    trimChars drop s = s := by
  have hkeep : ∀ l : List Char, (∀ c ∈ l, drop c = false) → l.dropWhile drop = l := by
    intro l hl
    cases l with
    | nil => rfl
    | cons c l => rw [List.dropWhile_cons_of_neg (by simp [hl c])]
  rw [trimChars, hkeep s h, hkeep _ fun c hc => h c (List.mem_reverse.mp hc), List.reverse_reverse]

end Text

namespace Value

/-- Neither a sign nor the mark of a hexadecimal number is a digit. -/
theorem readInt?_digits {c : Char} {cs : List Char} (h : ∀ d ∈ c :: cs, d.isDigit = true) :
    readInt? (String.ofList (c :: cs)) = Text.integerWord? 10 (c :: cs) ∧
      readInt? (String.ofList ('-' :: c :: cs)) =
        (Text.integerWord? 10 (c :: cs)).map (-·) := by
  have hblank : ∀ d ∈ c :: cs, Text.isBlank d = false := fun d hd => Text.isBlank_digit (h d hd)
  have hsigned : ∀ d ∈ '-' :: c :: cs, Text.isBlank d = false :=
    List.forall_mem_cons.mpr ⟨by decide, hblank⟩
  simp only [readInt?, String.toList_ofList, Text.trimChars_eq_self hblank,
    Text.trimChars_eq_self hsigned]
  refine ⟨?_, ?_⟩
  · split
    next heq => cases heq; exact absurd (h '-' (by simp)) (by decide)
    next =>
      split
      next heq => cases heq; exact absurd (h 'x' (by simp)) (by decide)
      next heq => cases heq; exact absurd (h 'X' (by simp)) (by decide)
      next => rfl
  · split
    next heq => cases heq; exact absurd (h 'x' (by simp)) (by decide)
    next heq => cases heq; exact absurd (h 'X' (by simp)) (by decide)
    next => rfl

theorem intText_of_nonneg {n : Int64} (h : 0 ≤ n.toInt) :
    intText n = String.ofList (Nat.toDigits 10 n.toInt.toNat) := by
  rw [intText, Int.toString_eq_repr, Int.repr_eq_if, if_pos h, ← Nat.toList_repr,
    String.ofList_toList]

theorem intText_of_neg {n : Int64} (h : n.toInt < 0) :
    intText n = String.ofList ('-' :: Nat.toDigits 10 (-n.toInt).toNat) := by
  rw [intText, Int.toString_eq_repr, Int.repr_eq_if, if_neg (by omega), ← Nat.toList_repr,
    String.ofList_cons, String.ofList_toList]
  rfl

theorem readInt?_intText {n : Int64} (h : n ≠ Int64.minValue) : readInt? (intText n) = some n := by
  have hrange : -2 ^ 63 ≤ n.toInt ∧ n.toInt < 2 ^ 63 := ⟨n.le_toInt, n.toInt_lt⟩
  have hmin : n.toInt ≠ -2 ^ 63 := fun heq => h (Int64.toInt_inj.mp heq)
  by_cases hn : 0 ≤ n.toInt
  · obtain ⟨c, cs, heq, hdigits⟩ := Text.toDigits_eq_cons n.toInt.toNat
    rw [intText_of_nonneg hn, heq, (readInt?_digits hdigits).1, ← heq,
      Text.integerWord?_toDigits (by omega), Int.toNat_of_nonneg hn, Int64.ofInt_toInt]
  · obtain ⟨c, cs, heq, hdigits⟩ := Text.toDigits_eq_cons (-n.toInt).toNat
    have hpos : (0 : Int) ≤ -n.toInt := by omega
    rw [intText_of_neg (by omega), heq, (readInt?_digits hdigits).2, ← heq,
      Text.integerWord?_toDigits (by omega), Int.toNat_of_nonneg hpos, Option.map_some, Int64.ofInt_neg,
      Int64.neg_neg, Int64.ofInt_toInt]

end Value

end Unscramble
