import Unscramble.Syntax.Quoting

/-! Quoted text can be read back. Every character is written by itself or behind a backtick, or twice
if it is a quote, and what is read first of the written text is that character again, whatever
follows. -/
namespace Unscramble.Quoting

/-- The ways of writing a character that are read back as that character. -/
inductive Ticked (meaning : Char → Char) (c : Char) : List Char → Prop
  | plain : c ≠ '`' → Ticked meaning c [c]
  | behind {d} : meaning d = c → Ticked meaning c ['`', d]

theorem Ticked.unescape {meaning : Char → Char} {c : Char} {written : List Char}
    (h : Ticked meaning c written) (rest : List Char) :
    unescapeTicks meaning (written ++ rest) = c :: unescapeTicks meaning rest := by
  cases h with
  | plain hc =>
    rw [List.singleton_append, unescapeTicks]
    · exact fun h => absurd h hc
    · exact fun _ _ h => absurd h hc
  | behind hd => rw [List.cons_append, List.singleton_append, unescapeTicks, hd]

/-- A text is read back if each of its characters is. -/
theorem unescapeTicks_flatMap {meaning : Char → Char} {write : Char → List Char}
    (h : ∀ c, Ticked meaning c (write c)) (s : List Char) :
    unescapeTicks meaning (s.flatMap write) = s := by
  induction s with
  | nil => rfl
  | cons c s ih => rw [List.flatMap_cons, (h c).unescape, ih]

theorem ofControlLetter_of_controlLetter? {c letter : Char} (h : controlLetter? c = some letter) :
    ofControlLetter letter = c := by
  unfold controlLetter? at h
  split at h <;> cases h <;> rfl

theorem ofControlLetter_eq_self {c : Char} (h : c ∉ ['n', 'r', 't', '0']) : ofControlLetter c = c := by
  unfold ofControlLetter
  split <;> simp_all

/-- Control characters are written by their letters, so no letter that stands for one may be
written behind a backtick for itself. -/
theorem escapeControl_ticked {special : Char → Bool} (htick : special '`' = true)
    (hletters : ['n', 'r', 't', '0'].any special = false) (c : Char) :
    Ticked ofControlLetter c (escapeControl special c) := by
  unfold escapeControl
  split
  next letter hletter => exact .behind (ofControlLetter_of_controlLetter? hletter)
  next =>
    split
    next hspecial =>
      refine .behind (ofControlLetter_eq_self fun hc => ?_)
      exact List.any_eq_false.mp hletters c hc hspecial
    next hplain => exact .plain fun hc => hplain (hc ▸ htick)

theorem escapeChar_double_ticked (c : Char) :
    Ticked ofControlLetter c (escapeChar .doubleQuoted c) := by
  rw [escapeChar]
  exact escapeControl_ticked rfl rfl c

theorem unescapePairs_cons {c : Char} (h : isSingleQuote c = false) (rest : List Char) :
    unescapePairs (c :: rest) = c :: unescapePairs rest := by
  cases rest with
  | nil => rfl
  | cons d rest => rw [unescapePairs, h, Bool.false_and, if_neg Bool.false_ne_true]

theorem unescapePairs_pair {c : Char} (h : isSingleQuote c = true) (rest : List Char) :
    unescapePairs (c :: c :: rest) = c :: unescapePairs rest := by
  rw [unescapePairs, h, beq_self_eq_true, Bool.true_and, if_pos rfl]

theorem unescapePairs_escape (s : List Char) : unescapePairs (escape .singleQuoted s) = s := by
  induction s with
  | nil => rfl
  | cons c s ih =>
    rw [escape, List.flatMap_cons, escapeChar]
    split
    next hquote =>
      rw [List.cons_append, List.singleton_append, unescapePairs_pair hquote]
      exact congrArg (c :: ·) ih
    next hquote =>
      rw [List.singleton_append, unescapePairs_cons (Bool.eq_false_iff.mpr hquote)]
      exact congrArg (c :: ·) ih

/-- In an expandable string only the variables are left as they are. -/
theorem unescape_escapeExpandable (s : List Char) :
    unescape .doubleQuoted (escapeExpandable s) = s :=
  unescapeTicks_flatMap (escapeControl_ticked rfl rfl) s

/-- Every text is read back from what is written for it, whatever the quotes are. -/
theorem unescape_escape (quoting : Quoting) (s : List Char) :
    quoting.unescape (quoting.escape s) = s := by
  cases quoting with
  | bareWord => exact unescapeTicks_flatMap (escapeControl_ticked rfl rfl) s
  | singleQuoted => exact unescapePairs_escape s
  | doubleQuoted => exact unescapeTicks_flatMap escapeChar_double_ticked s
  | singleQuotedHere => exact List.flatMap_singleton' s
  | doubleQuotedHere =>
    refine unescapeTicks_flatMap (fun c => ?_) s
    rw [escapeChar]
    split
    next => exact .behind rfl
    next hplain => exact .plain fun hc => hplain (by rw [hc]; rfl)

end Unscramble.Quoting
