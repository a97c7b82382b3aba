import Mathlib.Algebra.Ring.Nat
import Unscramble.Text.Case

/-! Lower case is lower case already: what the mappings lead to is mapped to itself, and no
character is mapped to the one whose mapping depends on what stands around it. -/
namespace Unscramble.Text

/-- A character that lower case leaves alone wherever it stands. -/
def isSettled (c : Char) : Bool := c != 'Σ' && lowerChar c == [c]

/-- The code points that a run covers. -/
def CaseRun.codes (run : CaseRun) : List Nat :=
  (List.range ((run.last - run.first) / run.step + 1)).map fun i => run.first + i * run.step

def CaseRun.image (run : CaseRun) (code : Nat) : Nat := ((code : Int) + run.shift).toNat

theorem CaseRun.mem_codes {run : CaseRun} {code : Nat} (h : run.covers code = true) :
    code ∈ run.codes := by
  simp only [covers, Bool.and_eq_true, decide_eq_true_eq, beq_iff_eq] at h
  obtain ⟨⟨hfirst, hlast⟩, hstep⟩ := h
  refine List.mem_map.mpr ⟨(code - run.first) / run.step, List.mem_range.mpr ?_, ?_⟩
  · exact Nat.lt_succ_of_le (Nat.div_le_div_right (by omega))
  · rw [Nat.div_mul_cancel (Nat.dvd_of_mod_eq_zero hstep)]
    omega

/-- A set of numbers as the bits of one number, so that sets are compared at once. -/
def mask : List Nat → Nat
  | [] => 0
  | n :: ns => 2 ^ n ||| mask ns

def masks : List (List Nat) → Nat
  | [] => 0
  | ns :: nss => mask ns ||| masks nss

theorem testBit_mask {ns : List Nat} {n : Nat} (h : n ∈ ns) : (mask ns).testBit n = true := by
  induction ns with
  | nil => simp at h
  | cons m ns ih =>
    rw [mask, Nat.testBit_or, Nat.testBit_two_pow]
    rcases List.mem_cons.mp h with rfl | h <;> simp [*]

theorem testBit_masks {nss : List (List Nat)} {ns : List Nat} {n : Nat} (hns : ns ∈ nss)
    (h : n ∈ ns) : (masks nss).testBit n = true := by
  induction nss with
  | nil => simp at hns
  | cons ms nss ih =>
    rw [masks, Nat.testBit_or]
    rcases List.mem_cons.mp hns with rfl | hns <;> simp [testBit_mask, *]

theorem masks_disjoint : masks (lowerRuns.map CaseRun.codes) &&&
    masks (lowerRuns.map fun run => run.codes.map run.image) = 0 := by
  decide +kernel

/-- What a run leads to is covered by no run. -/
theorem not_covers_image {run other : CaseRun} {code : Nat} (hrun : run ∈ lowerRuns)
    (hother : other ∈ lowerRuns) (h : code ∈ run.codes) : other.covers (run.image code) = false := by
  rw [← Bool.not_eq_true]
  intro hcovers
  have hcode := testBit_masks (List.mem_map_of_mem hother) (CaseRun.mem_codes hcovers)
  have himage := testBit_masks (List.mem_map_of_mem (f := fun run => run.codes.map run.image) hrun)
    (List.mem_map_of_mem h)
  have hboth := congrArg (Nat.testBit · (run.image code)) masks_disjoint
  simp [Nat.testBit_and, hcode, himage] at hboth

/-- What a run leads to is a character, none that is treated apart, and of lower case if it is
ASCII. -/
def CaseRun.isRegular (run : CaseRun) (code : Nat) : Bool :=
  let c := Char.ofNat (run.image code)
  c.toNat == run.image code && c != 'Σ' && c.toNat != 304 && (128 ≤ c.toNat || c.toLower == c)

theorem isRegular_runs : ∀ run ∈ lowerRuns, ∀ code ∈ run.codes, run.isRegular code = true := by
  decide +kernel

theorem isSettled_image {run : CaseRun} {code : Nat} (hrun : run ∈ lowerRuns)
    (h : code ∈ run.codes) : isSettled (Char.ofNat (run.image code)) = true := by
  have hregular := isRegular_runs run hrun code h
  simp only [CaseRun.isRegular, Bool.and_eq_true, beq_iff_eq, bne_iff_ne, ne_eq, Bool.or_eq_true,
    decide_eq_true_eq] at hregular
  obtain ⟨⟨⟨hcode, hsigma⟩, hapart⟩, hascii⟩ := hregular
  suffices lowerChar (Char.ofNat (run.image code)) = [Char.ofNat (run.image code)] by
    simp [isSettled, hsigma, this]
  by_cases hsmall : (Char.ofNat (run.image code)).toNat < 128
  · rw [lowerChar, if_pos hsmall, hascii.resolve_left (by omega)]
  · have hsequence : lowerSequences.find? (·.1 == (Char.ofNat (run.image code)).toNat) = none := by
      simp [lowerSequences, Ne.symm hapart]
    have hruns : lowerRuns.find? (·.covers (Char.ofNat (run.image code)).toNat) = none := by
      refine List.find?_eq_none.mpr fun other hother => ?_
      rw [hcode, not_covers_image hrun hother h]
      decide
    rw [lowerChar, if_neg hsmall, mapCase, hsequence, hruns]

theorem isSettled_ascii : ∀ n < 128, isSettled (Char.ofNat n).toLower = true := by decide +kernel

theorem isSettled_sequences :
    ∀ entry ∈ lowerSequences, ∀ code ∈ entry.2, isSettled (Char.ofNat code) = true := by
  decide +kernel

theorem isSettled_lowerChar {c d : Char} (hc : c ≠ 'Σ') (h : d ∈ lowerChar c) :
    isSettled d = true := by
  have hself : d ∈ [c] → lowerChar c = [c] → isSettled d = true := fun hd hfixed => by
    rw [List.mem_singleton.mp hd]
    simp [isSettled, hc, hfixed]
  by_cases hascii : c.toNat < 128
  · simp only [lowerChar, hascii, if_true, List.mem_singleton] at h
    rw [h, ← Char.ofNat_toNat c]
    exact isSettled_ascii _ hascii
  · have hmap : lowerChar c = mapCase lowerRuns lowerSequences c := by simp [lowerChar, hascii]
    rw [hmap] at h
    unfold mapCase at h hmap
    split at h
    next codes hfind =>
      obtain ⟨code, hcode, rfl⟩ := List.mem_map.mp h
      exact isSettled_sequences _ (List.mem_of_find?_eq_some hfind) code hcode
    next hnone =>
      split at h
      next run hfind =>
        have hcovers : run.covers c.toNat = true := by simpa using List.find?_some hfind
        rw [List.mem_singleton.mp h]
        exact isSettled_image (List.mem_of_find?_eq_some hfind) (CaseRun.mem_codes hcovers)
      next hnone' => exact hself h (by rw [hmap, hnone, hnone'])

theorem isSettled_lowerFrom (before : List Char) {s : List Char} {c : Char}
    (h : c ∈ lowerFrom before s) :
    isSettled c = true := by
  induction s generalizing before with
  | nil => simp [lowerFrom] at h
  | cons a s ih =>
    rw [lowerFrom, List.mem_append] at h
    rcases h with h | h
    · split at h
      next =>
        rw [List.mem_singleton.mp h]
        split <;> decide +kernel
      next ha => exact isSettled_lowerChar ha h
    · exact ih (a :: before) h

theorem lowerFrom_settled (before : List Char) {s : List Char} (h : ∀ c ∈ s, isSettled c = true) :
    lowerFrom before s = s := by
  induction s generalizing before with
  | nil => rfl
  | cons c s ih =>
    obtain ⟨hc, hs⟩ := List.forall_mem_cons.mp h
    simp only [isSettled, Bool.and_eq_true, bne_iff_ne, beq_iff_eq] at hc
    rw [lowerFrom, if_neg hc.1, hc.2, ih _ hs, List.singleton_append]

theorem lower_lower (s : String) : lower (lower s) = lower s := by
  rw [lower, lower, String.toList_ofList,
    lowerFrom_settled [] fun _ => isSettled_lowerFrom []]

end Unscramble.Text
