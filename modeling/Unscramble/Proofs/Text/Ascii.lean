import Unscramble.Proofs.Text.Lower

/-! Lower case and ASCII. Only one letter that is not ASCII has an ASCII letter for its lower case,
which is the sign for kelvin. -/
namespace Unscramble.Text

theorem toLower_of_not_ascii {c : Char} (h : 128 ≤ c.toNat) : c.toLower = c := by
  unfold Char.toLower
  refine dif_neg fun hupper => ?_
  have hcode : c.toNat ≤ 90 := UInt32.le_iff_toNat_le.mp hupper.2
  omega

theorem ascii_of_isAlphanum {c : Char} (h : c.isAlphanum = true) : c.toNat < 128 := by
  have hcases : (c.isUpper = true ∨ c.isLower = true) ∨ c.isDigit = true := by
    have h : ((c.isUpper || c.isLower) || c.isDigit) = true := h
    rwa [Bool.or_eq_true, Bool.or_eq_true] at h
  have hbelow (last : Char) (h : c.val ≤ last.val) (hlast : last.toNat < 128) : c.toNat < 128 :=
    Nat.lt_of_le_of_lt (UInt32.le_iff_toNat_le.mp h) hlast
  obtain (hupper | hlower) | hdigit := hcases
  · exact hbelow 'Z' (of_decide_eq_true hupper).2 (by decide)
  · exact hbelow 'z' (of_decide_eq_true (Bool.and_eq_true_iff.mp hlower).2) (by decide)
  · exact hbelow '9' (of_decide_eq_true (Bool.and_eq_true_iff.mp hdigit).2) (by decide)

theorem toLower_of_not_isUpper {c : Char} (h : c.isUpper = false) : c.toLower = c :=
  dif_neg (of_decide_eq_false h)

theorem val_toLower_of_isUpper {c : Char} (h : c.isUpper = true) :
    c.toLower.val = c.val + ('a'.val - 'A'.val) := by
  unfold Char.toLower
  rw [dif_pos (of_decide_eq_true h)]

theorem toLower_ascii {c : Char} (h : c.toNat < 128) : c.toLower.toNat < 128 := by
  have htable : ∀ n < 128, (Char.ofNat n).toLower.toNat < 128 := by decide +kernel
  simpa using htable c.toNat h

theorem ascii_of_toLower {c : Char} (h : c.toLower.toNat < 128) : c.toNat < 128 := by
  refine Nat.lt_of_not_le fun hc => ?_
  rw [toLower_of_not_ascii hc] at h
  omega

theorem image_runs : ∀ run ∈ lowerRuns, ∀ code ∈ run.codes, 128 ≤ run.image code ∨ run.image code = 107 := by
  decide +kernel

/-- The lower case of a letter that is not ASCII stands in the table of sequences, or is one letter:
`k`, or one that is not ASCII either. -/
theorem lowerChar_cases {c : Char} (h : 128 ≤ c.toNat) :
    (∃ codes, (c.toNat, codes) ∈ lowerSequences ∧ lowerChar c = codes.map Char.ofNat) ∨
      ∃ d, lowerChar c = [d] ∧ (128 ≤ d.toNat ∨ d = 'k') := by
  rw [lowerChar, if_neg (Nat.not_lt.mpr h)]
  unfold mapCase
  split
  next code codes hfind =>
    have hcode : code = c.toNat := by simpa using List.find?_some hfind
    exact .inl ⟨codes, hcode ▸ List.mem_of_find?_eq_some hfind, rfl⟩
  next =>
    right
    split
    next run hfind =>
      have hrun := List.mem_of_find?_eq_some hfind
      have hcode : c.toNat ∈ run.codes := CaseRun.mem_codes (by simpa using List.find?_some hfind)
      have hregular := isRegular_runs run hrun _ hcode
      simp only [CaseRun.isRegular, Bool.and_eq_true, beq_iff_eq] at hregular
      refine ⟨_, rfl, (image_runs run hrun _ hcode).imp (fun hbig => ?_) fun hk => ?_⟩
      · exact hregular.1.1.1 ▸ hbig
      · exact congrArg Char.ofNat hk
    next => exact ⟨c, rfl, .inl h⟩

/-- The lower case of a letter that is not ASCII is not made of ASCII letters other than `k`. -/
theorem lowerChar_of_not_ascii {c : Char} (h : 128 ≤ c.toNat) :
    ∃ d ∈ lowerChar c, 128 ≤ d.toNat ∨ d = 'k' := by
  have htable : ∀ entry ∈ lowerSequences, ∃ code ∈ entry.2, 128 ≤ (Char.ofNat code).toNat := by
    decide
  obtain ⟨codes, hcodes, hlower⟩ | ⟨d, hlower, hd⟩ := lowerChar_cases h
  · obtain ⟨code, hcode, hbig⟩ := htable _ hcodes
    exact ⟨_, hlower ▸ List.mem_map_of_mem hcode, .inl hbig⟩
  · exact ⟨d, hlower ▸ List.mem_singleton_self d, hd⟩

theorem lowerFrom_ascii (before : List Char) {s : List Char} (h : ∀ c ∈ s, c.toNat < 128) :
    lowerFrom before s = s.map Char.toLower := by
  induction s generalizing before with
  | nil => rfl
  | cons c s ih =>
    obtain ⟨hc, hs⟩ := List.forall_mem_cons.mp h
    have hsigma : c ≠ 'Σ' := by rintro rfl; exact absurd hc (by decide)
    rw [lowerFrom, if_neg hsigma, lowerChar, if_pos hc, ih _ hs]
    rfl

theorem lower_ascii {s : String} (h : ∀ c ∈ s.toList, c.toNat < 128) : lower s = lowerAscii s := by
  rw [lower, lowerFrom_ascii [] h, lowerAscii, ← String.toList_inj]
  simp

/-- A text whose lower case is made of ASCII letters other than `k` is itself ASCII. -/
theorem ascii_of_lowerFrom (before : List Char) {s : List Char}
    (h : ∀ d ∈ lowerFrom before s, d.toNat < 128 ∧ d ≠ 'k') : ∀ c ∈ s, c.toNat < 128 := by
  induction s generalizing before with
  | nil => simp
  | cons c s ih =>
    rw [lowerFrom] at h
    refine List.forall_mem_cons.mpr
      ⟨Nat.lt_of_not_le fun hc => ?_, ih _ fun d hd => h d (List.mem_append_right _ hd)⟩
    have hhere := fun d hd => h d (List.mem_append_left _ hd)
    split at hhere
    next =>
      have hsigma := (hhere _ (List.mem_singleton_self _)).1
      split at hsigma <;> exact absurd hsigma (by decide)
    next =>
      obtain ⟨d, hd, hbig⟩ := lowerChar_of_not_ascii hc
      obtain ⟨hsmall, hk⟩ := hhere d hd
      exact hbig.elim (Nat.not_le.mpr hsmall) hk

end Unscramble.Text
