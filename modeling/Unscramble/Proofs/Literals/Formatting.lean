import Unscramble.Proofs.Text.Split
import Unscramble.Value.Format

/-! Composite formatting. A pattern that can be formatted is a sequence of parts: characters that stand
for themselves, doubled braces, and items. It comes to what its parts come to, one after the other, so
patterns are formatted piece by piece. -/
namespace Unscramble.Format

open Text

/-! ### Parts of patterns -/

/-- An item of a pattern: what stands between its braces, the index and the width that it asks for (zero
if it asks for none), and the text that it contributes. -/
structure Item where
  source : List Char
  index : Nat
  width : Int
  text : List Char

inductive Part where
  | plain (c : Char)
  | brace (c : Char)
  | item (entry : Item)

def Part.source : Part → List Char
  | .plain c => [c]
  | .brace c => [c, c]
  | .item entry => '{' :: entry.source ++ ['}']

def Part.text : Part → List Char
  | .plain c | .brace c => [c]
  | .item entry => entry.text

/-- How an item asks for the argument of an index, aligned to a width. -/
inductive Asks : List Char → Nat → Int → Prop
  | bare {index i} : ',' ∉ index → size? (trimChars isBlank index) = some i → Asks index i 0
  | aligned {index width i w} : ',' ∉ index → size? (trimChars isBlank index) = some i →
      integerWord? 10 (trimChars isBlank width) = some w → w.toInt.natAbs ≤ maxWidth →
      Asks (index ++ ',' :: width) i w.toInt

/-- A text with blanks before it, or after it if the width is negative, so that it is as long as the
width asks for. -/
structure Padded (width : Int) (shown text : List Char) : Prop where
  blanks : ∃ n, text = if width < 0 then shown ++ List.replicate n ' ' else List.replicate n ' ' ++ shown
  length : text.length = max width.natAbs shown.length

/-- An item is well formed, and it contributes an argument that there is. -/
structure Item.Substituted (arguments : List Value) (item : Item) : Prop where
  closed : '}' ∉ item.source ∧ ':' ∉ item.source ∧ item.source.head? ≠ some '{'
  asks : Asks item.source item.index item.width
  inRange : item.index < arguments.length
  padded : Padded item.width arguments[item.index].display.toList item.text

def Part.Valid (arguments : List Value) : Part → Prop
  | .plain c => c ≠ '{' ∧ c ≠ '}'
  | .brace c => c = '{' ∨ c = '}'
  | .item entry => entry.Substituted arguments

/-! ### Items -/

section
variable {arguments : List Value} {source shown text rest : List Char} {width : Int}

theorem padded_iff : Padded width shown text ↔ text = alignText width shown := by
  constructor
  · rintro ⟨⟨n, rfl⟩, hlength⟩
    have hn : n = width.natAbs - shown.length := by
      split at hlength <;> simp at hlength <;> omega
    rw [hn, alignText]
  · rintro rfl
    refine ⟨⟨_, rfl⟩, ?_⟩
    rw [alignText]
    split <;> simp <;> omega

theorem argument_eq_some {index : Nat} : (arguments[index]?).map (·.display.toList) = some shown ↔
    ∃ h : index < arguments.length, arguments[index].display.toList = shown := by
  simp [List.getElem?_eq_some_iff]

theorem formatItem?_eq_some : formatItem? arguments source = some text ↔
    ∃ index width, Asks source index width ∧
      ∃ h : index < arguments.length, Padded width arguments[index].display.toList text := by
  simp only [padded_iff]
  constructor
  · intro h
    unfold formatItem? at h
    split at h
    next hcut =>
      obtain ⟨index, hindex, h⟩ := Option.bind_eq_some_iff.mp h
      obtain ⟨hlt, rfl⟩ := argument_eq_some.mp h
      exact ⟨index, 0, .bare (cut?_eq_none.mp hcut) hindex, hlt, by simp [alignText]⟩
    next front back hcut =>
      obtain ⟨rfl, hfront⟩ := cut?_eq_some.mp hcut
      obtain ⟨width, hwidth, h⟩ := Option.bind_eq_some_iff.mp h
      obtain ⟨hmax, h⟩ := Option.ite_none_right_eq_some.mp h
      obtain ⟨shown, hshown, rfl⟩ := Option.map_eq_some_iff.mp h
      obtain ⟨index, hindex, hargument⟩ := Option.bind_eq_some_iff.mp hshown
      obtain ⟨hlt, rfl⟩ := argument_eq_some.mp hargument
      exact ⟨index, _, .aligned hfront hindex hwidth hmax, hlt, rfl⟩
  · rintro ⟨index, width, hasks, hlt, rfl⟩
    cases hasks with
    | bare hcomma hindex =>
      rw [formatItem?, cut?_eq_none.mpr hcomma]
      simp [argument?, hindex, hlt, alignText]
    | aligned hcomma hindex hwidth hmax =>
      rw [formatItem?, cut?_eq_some.mpr ⟨rfl, hcomma⟩]
      simp [argument?, hindex, hwidth, hmax, hlt]

/-! ### The scan -/

/-- An item is read up to its closing brace. -/
theorem formatFrom_item (before : List Char) (hbrace : '}' ∉ source) (hcolon : ':' ∉ source) :
    formatFrom arguments (some before) (source ++ '}' :: rest) =
      (formatItem? arguments (before.reverse ++ source)).bind fun s =>
        (formatFrom arguments none rest).map (s ++ ·) := by
  induction source generalizing before with
  | nil => rw [List.nil_append, formatFrom, List.append_nil]
  | cons c source ih =>
    rw [List.mem_cons, not_or] at hbrace hcolon
    rw [List.cons_append, formatFrom, ih _ hbrace.2 hcolon.2, List.reverse_cons, List.append_assoc,
      List.singleton_append]
    · exact Ne.symm hbrace.1
    · exact Ne.symm hcolon.1

/-- What an item that has begun is scanned to. -/
theorem item_of_formatFrom {before s x : List Char} (h : formatFrom arguments (some before) s = some x) :
    ∃ source rest text y, s = source ++ '}' :: rest ∧ '}' ∉ source ∧ ':' ∉ source ∧
      formatItem? arguments (before.reverse ++ source) = some text ∧
      formatFrom arguments none rest = some y ∧ x = text ++ y := by
  induction s generalizing before with
  | nil => simp [formatFrom] at h
  | cons c s ih =>
    by_cases hbrace : c = '}'
    · subst hbrace
      rw [formatFrom] at h
      obtain ⟨text, htext, h⟩ := Option.bind_eq_some_iff.mp h
      obtain ⟨y, hy, rfl⟩ := Option.map_eq_some_iff.mp h
      exact ⟨[], s, text, y, rfl, by simp, by simp, by simpa using htext, hy, rfl⟩
    · by_cases hcolon : c = ':'
      · subst hcolon
        simp [formatFrom] at h
      · rw [formatFrom] at h
        · obtain ⟨source, rest, text, y, rfl, hsource, hcolons, htext, hy, rfl⟩ := ih h
          refine ⟨c :: source, rest, text, y, rfl, ?_, ?_, by simpa using htext, hy, rfl⟩
          · simpa [Ne.symm hbrace] using hsource
          · simpa [Ne.symm hcolon] using hcolons
        · exact hbrace
        · exact hcolon

theorem formatFrom_part {part : Part} (h : part.Valid arguments) :
    formatFrom arguments none (part.source ++ rest) =
      (formatFrom arguments none rest).map (part.text ++ ·) := by
  cases part with
  | plain c =>
    rw [Part.source, List.singleton_append, formatFrom]
    · rfl
    · exact fun _ hc => absurd hc h.1
    · exact fun _ hc => absurd hc h.2
    · exact h.1
    · exact h.2
  | brace c =>
    obtain rfl | rfl := h
    · rfl
    · rfl
  | item entry =>
    obtain ⟨⟨hbrace, hcolon, hhead⟩, hasks, hlt, hpadded⟩ := h
    have htext := formatItem?_eq_some.mpr ⟨_, _, hasks, hlt, hpadded⟩
    have hscan : formatFrom arguments (some []) (entry.source ++ '}' :: rest) =
        (formatFrom arguments none rest).map (entry.text ++ ·) := by
      rw [formatFrom_item [] hbrace hcolon, List.reverse_nil, List.nil_append, htext, Option.bind_some]
    rw [Part.source, List.cons_append, List.cons_append, List.append_assoc, List.singleton_append,
      formatFrom]
    · exact hscan
    · intro rest' hopen
      refine hhead ?_
      cases hsource : entry.source with
      | nil => rw [hsource] at hopen; cases (List.cons.inj hopen).1
      | cons c source => rw [hsource] at hopen; rw [(List.cons.inj hopen).1]; rfl

theorem formatFrom_parts {parts : List Part} (h : ∀ part ∈ parts, part.Valid arguments) :
    formatFrom arguments none (parts.flatMap Part.source) = some (parts.flatMap Part.text) := by
  induction parts with
  | nil => rfl
  | cons part parts ih =>
    obtain ⟨hpart, hparts⟩ := List.forall_mem_cons.mp h
    rw [List.flatMap_cons, formatFrom_part hpart, ih hparts, Option.map_some, List.flatMap_cons]

/-- Only parts are formatted. -/
theorem parts_of_formatFrom {s x : List Char} (h : formatFrom arguments none s = some x) :
    ∃ parts : List Part, (∀ part ∈ parts, part.Valid arguments) ∧ s = parts.flatMap Part.source ∧
      x = parts.flatMap Part.text := by
  induction hn : s.length using Nat.strongRecOn generalizing s x with
  | ind n ih =>
    subst hn
    have hcons (part : Part) {rest y : List Char} (hpart : part.Valid arguments)
        (hlt : rest.length < s.length) (hy : formatFrom arguments none rest = some y) :
        ∃ parts : List Part, (∀ part ∈ parts, part.Valid arguments) ∧
          part.source ++ rest = parts.flatMap Part.source ∧ part.text ++ y = parts.flatMap Part.text := by
      obtain ⟨parts, hparts, rfl, rfl⟩ := ih _ hlt hy rfl
      exact ⟨part :: parts, List.forall_mem_cons.mpr ⟨hpart, hparts⟩, rfl, rfl⟩
    generalize hstate : (none : Option (List Char)) = state at h
    unfold formatFrom at h
    split at h <;> cases hstate
    next => cases h; exact ⟨[], by simp, rfl, rfl⟩
    next rest =>
      obtain ⟨y, hy, rfl⟩ := Option.map_eq_some_iff.mp h
      exact hcons (.brace '{') (.inl rfl) (by simp only [List.length_cons]; omega) hy
    next rest =>
      obtain ⟨y, hy, rfl⟩ := Option.map_eq_some_iff.mp h
      exact hcons (.brace '}') (.inr rfl) (by simp only [List.length_cons]; omega) hy
    next rest hopen =>
      obtain ⟨source, rest, text, y, rfl, hbrace, hcolon, htext, hy, rfl⟩ := item_of_formatFrom h
      obtain ⟨index, width, hasks, hlt, hpadded⟩ := formatItem?_eq_some.mp htext
      rw [List.reverse_nil, List.nil_append] at hasks
      have hhead : source.head? ≠ some '{' := fun hhead => by
        obtain ⟨source, rfl⟩ := List.head?_eq_some_iff.mp hhead
        exact hopen _ rfl
      have hentry : Item.Substituted arguments ⟨source, index, width, text⟩ :=
        ⟨⟨hbrace, hcolon, hhead⟩, hasks, hlt, hpadded⟩
      have := hcons (.item ⟨source, index, width, text⟩) hentry (by simp; omega) hy
      simpa [Part.source, Part.text] using this
    next => cases h
    next c rest _ _ hopen hclose =>
      obtain ⟨y, hy, rfl⟩ := Option.map_eq_some_iff.mp h
      exact hcons (.plain c) ⟨hopen, hclose⟩ (by simp) hy

end

/-! ### Whole patterns -/

/-- A text with each of its braces doubled. -/
def doubleBraces (s : String) : String :=
  String.ofList (s.toList.flatMap fun c => if c = '{' ∨ c = '}' then [c, c] else [c])

/-- The part that stands for a character. -/
def Part.ofChar (c : Char) : Part := if c = '{' ∨ c = '}' then .brace c else .plain c

theorem Part.source_ofChar (c : Char) :
    (Part.ofChar c).source = if c = '{' ∨ c = '}' then [c, c] else [c] := by
  unfold Part.ofChar
  split <;> rfl

theorem Part.text_ofChar (c : Char) : (Part.ofChar c).text = [c] := by
  unfold Part.ofChar
  split <;> rfl

section
variable {arguments : List Value} {pattern result : String}

theorem Part.valid_ofChar (c : Char) : (Part.ofChar c).Valid arguments := by
  unfold Part.ofChar
  split
  next h => exact h
  next h => exact not_or.mp h

theorem formatString?_eq_some : formatString? pattern arguments = some result ↔
    ∃ parts : List Part, (∀ part ∈ parts, part.Valid arguments) ∧
      pattern.toList = parts.flatMap Part.source ∧ result.toList = parts.flatMap Part.text := by
  rw [formatString?, Option.map_eq_some_iff]
  constructor
  · rintro ⟨x, hx, rfl⟩
    simpa using parts_of_formatFrom hx
  · rintro ⟨parts, hparts, hpattern, hresult⟩
    refine ⟨_, by rw [hpattern, formatFrom_parts hparts], ?_⟩
    rw [← hresult, String.ofList_toList]

/-- Patterns are formatted piece by piece, doubled braces stand for braces, and what is formatted is made
of parts in which every item stands for an argument that there is, as wide as the item asks for. -/
theorem formatString?_compositional (arguments : List Value) :
    (∀ p q x y, formatString? p arguments = some x → formatString? q arguments = some y →
      formatString? (p ++ q) arguments = some (x ++ y)) ∧
    (∀ s, formatString? (doubleBraces s) arguments = some s) ∧
    ∀ pattern result, formatString? pattern arguments = some result ↔
      ∃ parts : List Part, (∀ part ∈ parts, part.Valid arguments) ∧
        pattern.toList = parts.flatMap Part.source ∧ result.toList = parts.flatMap Part.text := by
  refine ⟨fun p q x y hp hq => ?_, fun s => ?_, fun _ _ => formatString?_eq_some⟩
  · obtain ⟨parts, hparts, hsource, htext⟩ := formatString?_eq_some.mp hp
    obtain ⟨parts', hparts', hsource', htext'⟩ := formatString?_eq_some.mp hq
    refine formatString?_eq_some.mpr ⟨parts ++ parts', ?_, ?_, ?_⟩
    · exact List.forall_mem_append.mpr ⟨hparts, hparts'⟩
    · rw [String.toList_append, hsource, hsource', List.flatMap_append]
    · rw [String.toList_append, htext, htext', List.flatMap_append]
  · refine formatString?_eq_some.mpr ⟨s.toList.map Part.ofChar, ?_, ?_, ?_⟩
    · exact List.forall_mem_map.mpr fun c _ => Part.valid_ofChar c
    · rw [doubleBraces, String.toList_ofList, List.flatMap_map]
      exact List.flatMap_congr fun c _ => (Part.source_ofChar c).symm
    · rw [List.flatMap_map, funext Part.text_ofChar, List.flatMap_singleton']

/-- An aligned item before a doubled brace, and a doubled brace before an item with blanks in it. -/
theorem formatString?_compositional_aligned :
    let arguments : List Value := [.text "ex", .int 7]
    let p := "\x7b1,-3\x7d\x7b\x7b"
    let q := "\x7d\x7d\x7b 0 \x7d"
    formatString? p arguments = some "7  \x7b" ∧ formatString? q arguments = some "\x7dex" ∧
      formatString? (p ++ q) arguments = some ("7  \x7b" ++ "\x7dex") ∧
      ∃ parts : List Part, (∀ part ∈ parts, part.Valid arguments) ∧
        p.toList = parts.flatMap Part.source ∧ "7  \x7b".toList = parts.flatMap Part.text := by
  intro arguments p q
  have hleft : formatString? p arguments = some "7  \x7b" := by decide
  have hright : formatString? q arguments = some "\x7dex" := by decide
  obtain ⟨happend, -, hparts⟩ := formatString?_compositional arguments
  exact ⟨hleft, hright, happend _ _ _ _ hleft hright, (hparts _ _).mp hleft⟩

end
end Unscramble.Format
