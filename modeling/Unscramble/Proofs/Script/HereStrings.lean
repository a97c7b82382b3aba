import Unscramble.Proofs.Spelling.Recasing
import Unscramble.Proofs.Text.Quoting
import Unscramble.Script.Printed
import Unscramble.Value.Literal

/-! Strings in print, when they are to be here-strings. Such a string ends at the first line that
begins with a quote and an at sign, and any of the quotes of its kind will do; but before the form is
chosen, the lines are searched for the straight quote alone. What is printed is read back in either
form. -/
namespace Unscramble.Script

open Quoting Text

/-- The characters that delimit strings of a kind. -/
def isDelimiter : Quoting → Char → Bool
  | .bareWord, _ => false
  | .singleQuoted, c | .singleQuotedHere, c => isSingleQuote c
  | .doubleQuoted, c | .doubleQuotedHere, c => isDoubleQuote c

def lines (s : List Char) : List (List Char) := splitWhere (· == '\n') s

/-- Whether a line would end a here-string. -/
def closesHere (quoting : Quoting) : List Char → Bool
  | [] => false
  | c :: rest => isDelimiter quoting c && rest.head? == some '@'

/-- A kind of here-string, its straight quote, and the way of quoting that a text gets instead if it
can not keep that form. -/
inductive IsHere : Quoting → Char → Quoting → Prop
  | single : IsHere .singleQuotedHere '\'' .singleQuoted
  | double : IsHere .doubleQuotedHere '"' .doubleQuoted

/-- Lines between the delimiters of a here-string. -/
def hereForm (quote : Char) (body : List Char) : String :=
  String.ofList ('@' :: quote :: '\n' :: body ++ ['\n', quote, '@'])

def quotedForm (quote : Char) (body : List Char) : String :=
  String.ofList (quote :: body ++ [quote])

/-! ### Lines -/

section
variable {stop : Char → Bool} {f : Char → List Char}

/-- Parts are rewritten one by one if the characters between them are left alone and the others are
not rewritten to them. -/
theorem splitWhere_flatMap (hstop : ∀ c, stop c = true → f c = [c])
    (hkeep : ∀ c, stop c = false → ∀ d ∈ f c, stop d = false) (s : List Char) :
    splitWhere stop (s.flatMap f) = (splitWhere stop s).map (·.flatMap f) := by
  induction s with
  | nil => rfl
  | cons c s ih =>
    rw [List.flatMap_cons, splitWhere]
    cases hc : stop c with
    | true =>
      rw [hstop c hc, List.singleton_append, splitWhere, if_pos hc, ih]
      rfl
    | false =>
      obtain ⟨part, parts, hs⟩ := List.exists_cons_of_ne_nil (splitWhere_ne_nil stop s)
      rw [hs] at ih
      rw [splitWhere_front (hkeep c hc) ih, hs]
      rfl

end

section
variable {quoting fallback : Quoting} {quote : Char} {s line : List Char}

theorem lines_escape (h : IsHere quoting quote fallback) (s : List Char) :
    lines (quoting.escape s) = (lines s).map quoting.escape := by
  refine splitWhere_flatMap (fun c hc => ?_) (fun c hc d hd => ?_) s
  · obtain rfl := beq_iff_eq.mp hc
    cases h <;> rfl
  · cases h with
    | single => exact List.mem_singleton.mp hd ▸ hc
    | double =>
      rw [escapeChar] at hd
      split at hd
      next =>
        rcases List.mem_cons.mp hd with rfl | hd
        · rfl
        · exact List.mem_singleton.mp hd ▸ hc
      next => exact List.mem_singleton.mp hd ▸ hc

/-- The backticks in front of other characters do not make a line close, or keep one from it. -/
theorem closesHere_escape (h : IsHere quoting quote fallback) (line : List Char) :
    closesHere quoting (quoting.escape line) = closesHere quoting line := by
  cases h with
  | single => rw [escape, show escapeChar .singleQuotedHere = ([·]) from rfl, List.flatMap_singleton']
  | double =>
    have hat (rest : List Char) :
        ((escape .doubleQuotedHere rest).head? == some '@') = (rest.head? == some '@') := by
      cases rest with
      | nil => rfl
      | cons d rest =>
        rw [escape, List.flatMap_cons, escapeChar]
        split
        next hd =>
          obtain rfl | rfl : d = '`' ∨ d = '$' := by simpa using hd
          · rfl
          · rfl
        next => rfl
    cases line with
    | nil => rfl
    | cons c rest =>
      rw [escape, List.flatMap_cons, escapeChar]
      split
      next hc =>
        obtain rfl | rfl : c = '`' ∨ c = '$' := by simpa using hc
        · rfl
        · rfl
      next => exact congrArg (isDelimiter .doubleQuotedHere c && ·) (hat rest)

/-! ### What is printed -/

theorem hereStringDelimiters?_eq (h : IsHere quoting quote fallback) (s : List Char) :
    hereStringDelimiters? quoting s =
      if s.contains '\n' && !s.contains '\r' && !(lines s).any [quote, '@'].isPrefixOf then
        some (String.ofList ['@', quote], String.ofList [quote, '@'])
      else none := by
  cases h with
  | single =>
    rw [hereStringDelimiters?, Option.filter_some]
    rfl
  | double =>
    rw [hereStringDelimiters?, Option.filter_some]
    rfl

/-- The search for lines that close finds those that begin with the straight quote. -/
theorem isPrefixOf_of_closesHere (hclose : closesHere quoting line = true)
    (hhead : line.head? = some quote) : [quote, '@'].isPrefixOf line = true := by
  match line with
  | [c] => cases ((Bool.and_eq_true _ _).mp hclose).2
  | c :: d :: rest =>
    cases hhead
    obtain ⟨-, hat⟩ := (Bool.and_eq_true _ _).mp hclose
    simpa using (beq_iff_eq.mp hat).symm

variable {e : Element}

theorem stringConstant_hereForm (h : IsHere quoting quote fallback)
    (he : e.attr? "StringConstantType" = some quoting.name)
    (hform : hereStringDelimiters? quoting e.payload.toList =
      some (String.ofList ['@', quote], String.ofList [quote, '@'])) :
    stringConstant e = hereForm quote (quoting.escape e.payload.toList) := by
  have hquoting : ((e.attr? "StringConstantType").bind Quoting.ofName?).getD .singleQuoted = quoting := by
    rw [he]
    cases h <;> decide
  rw [stringConstant, hquoting, hform, hereForm]
  simp [← String.toList_inj]

theorem stringConstant_quotedForm (h : IsHere quoting quote fallback)
    (he : e.attr? "StringConstantType" = some quoting.name)
    (hform : hereStringDelimiters? quoting e.payload.toList = none) :
    stringConstant e = quotedForm quote (fallback.escape e.payload.toList) := by
  have hquoting : ((e.attr? "StringConstantType").bind Quoting.ofName?).getD .singleQuoted = quoting := by
    rw [he]
    cases h <;> decide
  rw [stringConstant, hquoting, hform, quotedForm]
  cases h <;> simp [← String.toList_inj]

/-- A text that is to be a here-string is read back from what is printed for it. If it keeps that form,
no line closes it exactly if no line of the text begins with a quote that is not straight and an at
sign. -/
theorem stringConstant_here (h : IsHere quoting quote fallback)
    (he : e.attr? "StringConstantType" = some quoting.name) :
    if (hereStringDelimiters? quoting e.payload.toList).isSome then
      ∃ body, stringConstant e = hereForm quote body ∧ quoting.unescape body = e.payload.toList ∧
        ((∀ line ∈ lines body, closesHere quoting line = false) ↔
          ∀ line ∈ lines e.payload.toList, closesHere quoting line = true → line.head? = some quote)
    else
      ∃ body, stringConstant e = quotedForm quote body ∧
        fallback.unescape body = e.payload.toList := by
  cases hform : hereStringDelimiters? quoting e.payload.toList with
  | none =>
    exact ⟨_, stringConstant_quotedForm h he hform, unescape_escape _ _⟩
  | some delimiters =>
    have hchoice := hform
    rw [hereStringDelimiters?_eq h, Option.ite_none_right_eq_some] at hchoice
    obtain ⟨hopen, hdelimiters⟩ := hchoice
    cases hdelimiters
    refine ⟨_, stringConstant_hereForm h he hform, unescape_escape _ _, ?_⟩
    simp only [lines_escape h, List.forall_mem_map, closesHere_escape h]
    refine ⟨fun hsafe line hline hclose => ?_, fun hstraight line hline => ?_⟩
    · cases (hsafe line hline).symm.trans hclose
    · rw [Bool.eq_false_iff]
      intro hclose
      have hfound := isPrefixOf_of_closesHere hclose (hstraight line hline hclose)
      have hnone : (lines e.payload.toList).any [quote, '@'].isPrefixOf = false := by
        simpa using ((Bool.and_eq_true _ _).mp hopen).2
      exact List.any_eq_false.mp hnone line hline hfound

/-- Quotes of the other kind may stand before an at sign. -/
theorem stringConstant_here_variable :
    let e := (stringTree .doubleQuotedHere "$a `b\n'@ \"c\"").element
    (hereStringDelimiters? .doubleQuotedHere e.payload.toList).isSome = true ∧
      ∃ body, stringConstant e = hereForm '"' body ∧
        unescape .doubleQuotedHere body = e.payload.toList ∧
        ∀ line ∈ lines body, closesHere .doubleQuotedHere line = false := by
  intro e
  have hform : (hereStringDelimiters? .doubleQuotedHere e.payload.toList).isSome = true := by decide
  have hread := stringConstant_here .double (e := e) rfl
  rw [if_pos hform] at hread
  obtain ⟨body, hprinted, hbody, hsafe⟩ := hread
  exact ⟨hform, body, hprinted, hbody, hsafe.mpr (by decide)⟩

/-- A line that begins with a typographic quote is not searched for, and closes what is printed. -/
theorem stringConstant_closes_early :
    ∃ body, stringConstant (stringTree .singleQuotedHere "a\n’@").element = hereForm '\'' body ∧
      ∃ line ∈ lines body, closesHere .singleQuotedHere line = true :=
  ⟨"a\n’@".toList, by decide, "’@".toList, by decide, by decide⟩

end

end Unscramble.Script
