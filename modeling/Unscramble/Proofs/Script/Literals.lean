import Unscramble.Proofs.Text.Numerals
import Unscramble.Proofs.Text.Quoting
import Unscramble.Script.Printed
import Unscramble.Value.Literal

/-! Literals in print can be told apart. A reader that knows nothing but how strings, numbers and lists
are written finds in a printed literal the value that it was made for, and knows where it ends, whatever
is printed behind it. -/
namespace Unscramble.Script

open Quoting Text

/-! ### The reader -/

/-- The rest of a single-quoted string, up to a quote that no other one follows, and what is left. -/
def readSingle? : List Char → Option (List Char × List Char)
  | [] => none
  | [c] => if isSingleQuote c then some ([], []) else none
  | c :: d :: rest =>
    if isSingleQuote c then
      if isSingleQuote d then (readSingle? rest).map fun (s, rest) => (d :: s, rest)
      else some ([], d :: rest)
    else (readSingle? (d :: rest)).map fun (s, rest) => (c :: s, rest)

/-- The rest of a double-quoted string, and what is left. A variable would not be a literal. -/
def readDouble? : List Char → Option (List Char × List Char)
  | [] => none
  | [c] => if isDoubleQuote c then some ([], []) else none
  | c :: d :: rest =>
    if c = '`' then (readDouble? rest).map fun (s, rest) => (ofControlLetter d :: s, rest)
    else if isDoubleQuote c then
      if isDoubleQuote d then (readDouble? rest).map fun (s, rest) => (d :: s, rest)
      else some ([], d :: rest)
    else if c = '$' then none
    else (readDouble? (d :: rest)).map fun (s, rest) => (c :: s, rest)

/-- Digits, perhaps behind a minus sign. -/
def readNumber? (s : List Char) : Option (Int64 × List Char) :=
  let number? (sign : Int) (s : List Char) : Option (Int64 × List Char) :=
    (natural? 10 (s.takeWhile Char.isDigit)).bind fun n =>
      (word? (sign * n)).map (·, s.dropWhile Char.isDigit)
  match s with
  | '-' :: s => number? (-1) s
  | s => number? 1 s

/-- A string or a number, and what is left. -/
def readScalar? : List Char → Option (Value × List Char)
  | [] => none
  | c :: rest =>
    if isSingleQuote c then (readSingle? rest).map fun (s, rest) => (.text (String.ofList s), rest)
    else if isDoubleQuote c then
      (readDouble? rest).map fun (s, rest) => (.text (String.ofList s), rest)
    else (readNumber? (c :: rest)).map fun (n, rest) => (.int n, rest)

mutual

/-- A literal of so many characters at most, and what is left. -/
def readWithin? : Nat → List Char → Option (Value × List Char)
  | 0, _ => none
  | _ + 1, '@' :: '(' :: ')' :: rest => some (.list [], rest)
  | bound + 1, '@' :: '(' :: rest =>
    (readItems? bound rest).map fun (items, rest) => (.list items, rest)
  | _ + 1, s => readScalar? s

/-- The items of a list, up to the parenthesis behind the last of them. -/
def readItems? : Nat → List Char → Option (List Value × List Char)
  | 0, _ => none
  | bound + 1, s =>
    (readWithin? bound s).bind fun (item, rest) =>
      match rest with
      | ')' :: rest => some ([item], rest)
      | ',' :: ' ' :: rest => (readItems? bound rest).map fun (items, rest) => (item :: items, rest)
      | _ => none

end

/-- A literal at the beginning of a text, and what is left. -/
def readLiteral? (s : List Char) : Option (Value × List Char) := readWithin? s.length s

/-- A character that belongs to no literal that it stands behind. -/
def isApart (c : Char) : Bool := !(isSingleQuote c || isDoubleQuote c || c.isDigit)

/-! ### Strings -/

section
variable {rest : List Char}

theorem readSingle?_cons {c : Char} (hc : isSingleQuote c = false) (s : List Char) :
    readSingle? (c :: s) = (readSingle? s).map fun (s, rest) => (c :: s, rest) := by
  cases s with
  | nil => simp [readSingle?, hc]
  | cons d s => simp [readSingle?, hc]

/-- Quotes inside stand in pairs, so the reader meets none that ends the string. -/
theorem readSingle?_escape (s : List Char) (hrest : ∀ c ∈ rest.head?, isSingleQuote c = false) :
    readSingle? (escape .singleQuoted s ++ '\'' :: rest) = some (s, rest) := by
  induction s with
  | nil =>
    cases rest with
    | nil => rfl
    | cons c rest =>
      have hquote : isSingleQuote '\'' = true := rfl
      simp [escape, readSingle?, hquote, hrest c rfl]
  | cons c s ih =>
    rw [escape] at ih
    rw [escape, List.flatMap_cons, escapeChar, List.append_assoc]
    split
    next hquote =>
      rw [List.cons_append, List.singleton_append, readSingle?, if_pos hquote, if_pos hquote, ih]
      rfl
    next hplain =>
      rw [List.singleton_append, readSingle?_cons (Bool.eq_false_iff.mpr hplain), ih]
      rfl

/-- The ways of writing a character inside double quotes that are read back as that character. -/
theorem readDouble?_ticked {c : Char} {written : List Char} (h : Ticked ofControlLetter c written)
    (hplain : written = [c] → isDoubleQuote c = false ∧ c ≠ '$') {s : List Char} (hs : s ≠ []) :
    readDouble? (written ++ s) = (readDouble? s).map fun (s, rest) => (c :: s, rest) := by
  obtain ⟨d, s, rfl⟩ := List.exists_cons_of_ne_nil hs
  cases h with
  | plain htick =>
    obtain ⟨hquote, hdollar⟩ := hplain rfl
    rw [List.singleton_append, readDouble?, if_neg htick, hquote, if_neg Bool.false_ne_true,
      if_neg hdollar]
  | behind hmeaning =>
    rw [List.cons_append, List.singleton_append, readDouble?, if_pos rfl, hmeaning]

theorem escapeChar_double_plain {c : Char} (h : escapeChar .doubleQuoted c = [c]) :
    isDoubleQuote c = false ∧ c ≠ '$' := by
  rw [escapeChar, escapeControl] at h
  split at h
  next => cases h
  next =>
    split at h
    next => cases h
    next hspecial =>
      simp only [Bool.not_eq_true, Bool.or_eq_false_iff, beq_eq_false_iff_ne] at hspecial
      exact ⟨hspecial.2, hspecial.1.2⟩

/-- Quotes and dollars inside stand behind backticks. -/
theorem readDouble?_escape (s : List Char) (hrest : ∀ c ∈ rest.head?, isDoubleQuote c = false) :
    readDouble? (escape .doubleQuoted s ++ '"' :: rest) = some (s, rest) := by
  induction s with
  | nil =>
    cases rest with
    | nil => rfl
    | cons c rest =>
      have hquote : isDoubleQuote '"' = true := rfl
      simp [escape, readDouble?, hquote, hrest c rfl]
  | cons c s ih =>
    rw [escape] at ih
    rw [escape, List.flatMap_cons, List.append_assoc,
      readDouble?_ticked (escapeChar_double_ticked c) escapeChar_double_plain (by simp), ih]
    rfl

end

/-! ### Numbers -/

section
variable {rest : List Char} {c : Char} {cs : List Char} {n : Nat} {m : Int64}

theorem span_digits (hdigits : ∀ d ∈ cs, d.isDigit = true) (hrest : ∀ c ∈ rest.head?, c.isDigit = false) :
    (cs ++ rest).takeWhile Char.isDigit = cs ∧ (cs ++ rest).dropWhile Char.isDigit = rest := by
  have hstop : rest.takeWhile Char.isDigit = [] ∧ rest.dropWhile Char.isDigit = rest := by
    cases rest with
    | nil => exact ⟨rfl, rfl⟩
    | cons c rest => simp [hrest c rfl]
  rw [List.takeWhile_append_of_pos hdigits, List.dropWhile_append_of_pos hdigits, hstop.1, hstop.2,
    List.append_nil]
  exact ⟨rfl, rfl⟩

theorem readNumber?_digits (hdigits : ∀ d ∈ c :: cs, d.isDigit = true)
    (hrest : ∀ c ∈ rest.head?, c.isDigit = false) (hn : natural? 10 (c :: cs) = some n) :
    readNumber? (c :: cs ++ rest) = (word? n).map (·, rest) ∧
      readNumber? ('-' :: (c :: cs ++ rest)) = (word? (-n)).map (·, rest) := by
  obtain ⟨htake, hdrop⟩ := span_digits hdigits hrest
  have hsign : c ≠ '-' := by
    rintro rfl
    exact absurd (hdigits '-' (by simp)) (by decide)
  rw [List.cons_append] at htake hdrop ⊢
  constructor
  · unfold readNumber?
    split
    next heq => exact absurd (List.cons.inj heq).1 hsign
    next => simp [htake, hdrop, hn]
  · simp [readNumber?, htake, hdrop, hn]

theorem readNumber?_intText (m : Int64) (hrest : ∀ c ∈ rest.head?, c.isDigit = false) :
    readNumber? ((Value.intText m).toList ++ rest) = some (m, rest) := by
  have hword : word? m.toInt = some m := word?_eq_some.mpr rfl
  by_cases hm : 0 ≤ m.toInt
  · obtain ⟨c, cs, heq, hdigits⟩ := toDigits_eq_cons m.toInt.toNat
    have hnatural := natural?_toDigits m.toInt.toNat
    rw [heq] at hnatural
    rw [Value.intText_of_nonneg hm, String.toList_ofList, heq,
      (readNumber?_digits hdigits hrest hnatural).1, Int.toNat_of_nonneg hm, hword]
    rfl
  · obtain ⟨c, cs, heq, hdigits⟩ := toDigits_eq_cons (-m.toInt).toNat
    have hnatural := natural?_toDigits (-m.toInt).toNat
    have hpos : (0 : Int) ≤ -m.toInt := by omega
    rw [heq] at hnatural
    rw [Value.intText_of_neg (by omega), String.toList_ofList, heq, List.cons_append,
      (readNumber?_digits hdigits hrest hnatural).2, Int.toNat_of_nonneg hpos, Int.neg_neg, hword]
    rfl

/-- The first character of a number is a digit or a minus sign. -/
theorem intText_eq_cons (m : Int64) : ∃ c cs, (Value.intText m).toList = c :: cs ∧
    (c = '-' ∨ c.isDigit = true) := by
  by_cases hm : 0 ≤ m.toInt
  · obtain ⟨c, cs, heq, hdigits⟩ := toDigits_eq_cons m.toInt.toNat
    exact ⟨c, cs, by rw [Value.intText_of_nonneg hm, String.toList_ofList, heq],
      .inr (hdigits c (by simp))⟩
  · exact ⟨'-', _, by rw [Value.intText_of_neg (by omega), String.toList_ofList], .inl rfl⟩

end

/-! ### What is printed -/

/-- The quoting of strings that the reader knows, and the character around them. -/
inductive IsQuote : Quoting → Char → Prop
  | single : IsQuote .singleQuoted '\''
  | double : IsQuote .doubleQuoted '"'

mutual

/-- The characters of a literal. Strings in a list are single-quoted. -/
def spelling (quoting : Quoting) (quote : Char) : Value → List Char
  | .text s => quote :: quoting.escape s.toList ++ [quote]
  | .int n => (Value.intText n).toList
  | .list items => '@' :: '(' :: itemsSpelling items ++ [')']

/-- The characters of the items of a list, with commas in between. -/
def itemsSpelling : List Value → List Char
  | [] => []
  | [item] => spelling .singleQuoted '\'' item
  | item :: items => spelling .singleQuoted '\'' item ++ ',' :: ' ' :: itemsSpelling items

end

theorem itemsSpelling_cons (item next : Value) (items : List Value) :
    itemsSpelling (item :: next :: items) =
      spelling .singleQuoted '\'' item ++ ',' :: ' ' :: itemsSpelling (next :: items) := by
  rw [itemsSpelling]
  intro h
  cases h

theorem toList_render_append (width : Nat) (before after : List Piece) :
    (render width (before ++ after)).toList =
      (render width before).toList ++ (render width after).toList := by
  simp [render]

theorem toList_render_word (width : Nat) (s : String) : (render width (word s)).toList = s.toList := by
  simp [render, word, Piece.render]

theorem stringConstant_stringTree {quoting : Quoting} {quote : Char} (h : IsQuote quoting quote)
    (s : String) : (stringConstant (stringTree quoting s).element).toList =
      quote :: quoting.escape s.toList ++ [quote] := by
  have hname : ((stringTree quoting s).element.attr? "StringConstantType").bind Quoting.ofName? =
      some quoting := by cases h <;> rfl
  rw [stringConstant, hname]
  cases h <;> simp [hereStringDelimiters?, stringTree, Tree.leaf, Tree.element, Element.payload]

mutual

theorem render_toTree {quoting : Quoting} {quote : Char} (h : IsQuote quoting quote) (width level : Nat) :
    (v : Value) →
    (render width ((printed (v.toTree quoting)).pieces level)).toList = spelling quoting quote v
  | .text s => by
    rw [show (printed (Value.toTree quoting (.text s))).pieces level =
      word (stringConstant (stringTree quoting s).element) from rfl, toList_render_word,
      stringConstant_stringTree h, spelling]
  | .int n => by
    rw [show (printed (Value.toTree quoting (.int n))).pieces level = word (Value.intText n) from rfl,
      toList_render_word, spelling]
  | .list items => by
    rw [show (printed (Value.toTree quoting (.list items))).pieces level =
        word "@(" ++ separated ", " level (printedAll (Value.toTrees items)) ++ word ")" from rfl,
      toList_render_append, toList_render_append, toList_render_word, toList_render_word,
      render_toTrees width level items, spelling]
    rfl

theorem render_toTrees (width level : Nat) : (items : List Value) →
    (render width (separated ", " level (printedAll (Value.toTrees items)))).toList = itemsSpelling items
  | [] => rfl
  | [item] => render_toTree .single width level item
  | item :: next :: items => by
    rw [show separated ", " level (printedAll (Value.toTrees (item :: next :: items))) =
        (printed (item.toTree .singleQuoted)).pieces level ++ word ", " ++
          separated ", " level (printedAll (Value.toTrees (next :: items))) from rfl,
      toList_render_append, toList_render_append, toList_render_word,
      render_toTree .single width level item, render_toTrees width level (next :: items),
      itemsSpelling_cons, List.append_assoc]
    rfl

end

/-! ### Reading back -/

theorem readWithin?_scalar {c : Char} (hc : c ≠ '@') (cs : List Char) (bound : Nat) :
    readWithin? (bound + 1) (c :: cs) = readScalar? (c :: cs) := by
  rw [readWithin?]
  all_goals simp_all

theorem readWithin?_items {s : List Char} (hs : ∀ cs, s ≠ ')' :: cs) (bound : Nat) :
    readWithin? (bound + 1) ('@' :: '(' :: s) =
      (readItems? bound s).map fun (items, rest) => (.list items, rest) := by
  cases s with
  | nil =>
    rw [readWithin?]
    intro cs h
    cases h
  | cons c s =>
    rw [readWithin?]
    exact fun cs heq => hs cs heq

theorem quotes_of_isDigit {c : Char} (h : c.isDigit = true) :
    isSingleQuote c = false ∧ isDoubleQuote c = false := by
  constructor
  · refine Bool.eq_false_iff.mpr fun hquote => ?_
    simp only [isSingleQuote, List.contains_eq_mem, decide_eq_true_eq, List.mem_cons,
      List.not_mem_nil, or_false] at hquote
    obtain rfl | rfl | rfl | rfl | rfl := hquote <;> exact absurd h (by decide)
  · refine Bool.eq_false_iff.mpr fun hquote => ?_
    simp only [isDoubleQuote, List.contains_eq_mem, decide_eq_true_eq, List.mem_cons,
      List.not_mem_nil, or_false] at hquote
    obtain rfl | rfl | rfl | rfl := hquote <;> exact absurd h (by decide)

/-- What no item begins with. -/
theorem spelling_ne_close (v : Value) (rest cs : List Char) :
    spelling .singleQuoted '\'' v ++ rest ≠ ')' :: cs := by
  cases v with
  | text s => simp [spelling]
  | int n =>
    obtain ⟨c, digits, heq, hc⟩ := intText_eq_cons n
    rw [spelling, heq]
    rintro h
    cases h
    simp at hc
  | list items => simp [spelling]

theorem itemsSpelling_ne_close (item : Value) (items : List Value) (rest cs : List Char) :
    itemsSpelling (item :: items) ++ rest ≠ ')' :: cs := by
  cases items with
  | nil => exact spelling_ne_close item rest cs
  | cons next items =>
    rw [itemsSpelling_cons, List.append_assoc]
    exact spelling_ne_close item _ cs

section
variable {quoting : Quoting} {quote : Char} {rest : List Char}

theorem isApart_eq_true_iff {c : Char} : isApart c = true ↔
    isSingleQuote c = false ∧ isDoubleQuote c = false ∧ c.isDigit = false := by
  simp [isApart, and_assoc]

theorem readScalar?_text (h : IsQuote quoting quote) (s : String)
    (hrest : ∀ c ∈ rest.head?, isApart c = true) :
    readScalar? (spelling quoting quote (.text s) ++ rest) = some (.text s, rest) := by
  rw [spelling, List.cons_append, List.cons_append, List.append_assoc, List.singleton_append,
    readScalar?]
  cases h with
  | single =>
    rw [show isSingleQuote '\'' = true from rfl, if_pos rfl,
      readSingle?_escape _ fun c hc => (isApart_eq_true_iff.mp (hrest c hc)).1, Option.map_some]
    exact congrArg (fun s => some (Value.text s, rest)) String.ofList_toList
  | double =>
    rw [show isSingleQuote '"' = false from rfl, show isDoubleQuote '"' = true from rfl,
      if_neg Bool.false_ne_true, if_pos rfl,
      readDouble?_escape _ fun c hc => (isApart_eq_true_iff.mp (hrest c hc)).2.1,
      Option.map_some]
    exact congrArg (fun s => some (Value.text s, rest)) String.ofList_toList

theorem readScalar?_int (n : Int64) (hrest : ∀ c ∈ rest.head?, isApart c = true) :
    readScalar? (spelling quoting quote (.int n) ++ rest) = some (.int n, rest) := by
  have hnumber := readNumber?_intText n fun c hc => (isApart_eq_true_iff.mp (hrest c hc)).2.2
  obtain ⟨c, cs, heq, hc⟩ := intText_eq_cons n
  have hquotes : isSingleQuote c = false ∧ isDoubleQuote c = false := by
    obtain rfl | hdigit := hc
    · exact ⟨rfl, rfl⟩
    · exact quotes_of_isDigit hdigit
  rw [heq] at hnumber
  rw [spelling, heq, List.cons_append, readScalar?, hquotes.1, hquotes.2, if_neg Bool.false_ne_true,
    if_neg Bool.false_ne_true, ← List.cons_append, hnumber]
  rfl

end

mutual

theorem readWithin?_spelling {quoting : Quoting} {quote : Char} (h : IsQuote quoting quote) :
    (v : Value) → {rest : List Char} → (∀ c ∈ rest.head?, isApart c = true) →
    {bound : Nat} → (spelling quoting quote v).length ≤ bound →
    readWithin? bound (spelling quoting quote v ++ rest) = some (v, rest)
  | .text s, rest, hrest, bound, hbound => by
    rw [← readScalar?_text h s hrest]
    cases bound with
    | zero => simp [spelling] at hbound
    | succ bound => exact readWithin?_scalar (by cases h <;> decide) _ bound
  | .int n, rest, hrest, bound, hbound => by
    rw [← readScalar?_int n hrest]
    obtain ⟨c, cs, heq, hc⟩ := intText_eq_cons n
    rw [spelling, heq] at hbound ⊢
    cases bound with
    | zero => simp at hbound
    | succ bound =>
      refine readWithin?_scalar ?_ _ bound
      rintro rfl
      simp at hc
  | .list [], rest, hrest, bound, hbound => by
    cases bound with
    | zero => simp [spelling] at hbound
    | succ bound => simp [spelling, itemsSpelling, readWithin?]
  | .list (item :: items), rest, hrest, bound, hbound => by
    simp only [spelling, List.length_cons, List.length_append] at hbound
    cases bound with
    | zero => omega
    | succ bound =>
      have hitems := readItems?_spelling (item :: items) (List.cons_ne_nil _ _) rest bound (by omega)
      rw [spelling, List.cons_append, List.cons_append, List.cons_append, List.cons_append,
        List.append_assoc, List.singleton_append, readWithin?_items (itemsSpelling_ne_close item items _), hitems]
      rfl

theorem readItems?_spelling : (items : List Value) → items ≠ [] → (rest : List Char) →
    (bound : Nat) → (itemsSpelling items).length < bound →
    readItems? bound (itemsSpelling items ++ ')' :: rest) = some (items, rest)
  | [], hne, _, _, _ => absurd rfl hne
  | [item], _, rest, bound + 1, hbound => by
    rw [itemsSpelling] at hbound ⊢
    rw [readItems?, readWithin?_spelling .single item (by simp; decide) (by omega)]
    rfl
  | item :: next :: items, _, rest, bound + 1, hbound => by
    rw [itemsSpelling_cons] at hbound ⊢
    simp only [List.length_append, List.length_cons] at hbound
    rw [List.append_assoc, List.cons_append, List.cons_append, readItems?,
      readWithin?_spelling .single item (by simp; decide) (by omega), Option.bind_some]
    have hitems := readItems?_spelling (next :: items) (List.cons_ne_nil _ _) rest bound (by omega)
    simp only [hitems, Option.map_some]

end

/-- Whatever is printed for a literal, at whatever width, is read as the literal, and the reader stops
where it ends. -/
theorem readLiteral?_printNode (v : Value) {quoting : Quoting} {quote : Char} (h : IsQuote quoting quote)
    (width : Nat) {rest : List Char} (hrest : ∀ c ∈ rest.head?, isApart c = true) :
    readLiteral? ((printNode width (v.toTree quoting)).toList ++ rest) = some (v, rest) := by
  rw [printNode, render_toTree h]
  exact readWithin?_spelling h v hrest (by simp)

/-- A list that holds quotes, a separator and another list, with an operator behind it. -/
theorem readLiteral?_nested :
    readLiteral? ((printNode 120 ((Value.list [.text "it's", .list [.text "', '", .int (-7)]]).toTree
        .doubleQuoted)).toList ++ [' ', '-', 'f', ' ', '1']) =
      some (.list [.text "it's", .list [.text "', '", .int (-7)]], [' ', '-', 'f', ' ', '1']) :=
  readLiteral?_printNode _ .double 120 (by simp; decide)

end Unscramble.Script
