import Unscramble.Proofs.Literals.Operations
import Unscramble.Proofs.Text.Numerals

/-! The characters of a string literal. Its length, the list of its characters, its items and its parts are
folded in different ways, and all of them see one and the same sequence. -/
namespace Unscramble

open Simplify Text Unscramble.Tree

/-! ### Values -/

section
variable {text : String} {items : List Value} {v index : Value} {i : Int64}

theorem length_characters (text : String) : (characters text).length = text.length := by
  rw [characters, List.length_map, String.length_toList]

theorem mem_characters (h : v ∈ characters text) : ∃ c : Char, v = .text (String.ofList [c]) := by
  obtain ⟨c, -, rfl⟩ := List.mem_map.mp h
  exact ⟨c, rfl⟩

theorem join_singletons (cs : List Char) : Text.join [] (cs.map ([·])) = cs := by
  induction cs with
  | nil => rfl
  | cons c cs ih =>
    rw [List.map_cons, ← List.append_nil [c], join_append_cons]
    cases cs with
    | nil => rfl
    | cons d cs =>
      rw [List.map_cons, join_nil_cons (List.cons_ne_nil _ _), List.nil_append]
      exact congrArg (c :: ·) ih

/-- Joining consecutive characters gives a part of the text. -/
theorem joinItems_characters (cs : List Char) :
    joinItems "" (cs.map fun c => .text (String.ofList [c])) = String.ofList cs := by
  have h := joinItems_texts "" (cs.map ([·]))
  rwa [texts, List.map_map, String.toList_empty, join_singletons] at h

theorem joinItems_characters_self : joinItems "" (characters text) = text := by
  rw [characters, joinItems_characters, String.ofList_toList]

theorem substring?_eq (start length : Int) : substring? text start length =
    if 0 ≤ start ∧ 0 ≤ length ∧ start + length ≤ text.length then
      some (joinItems "" (((characters text).drop start.toNat).take length.toNat))
    else none := by
  rw [substring?, characters, ← List.map_drop, ← List.map_take, joinItems_characters]

theorem substring?_rest (start : Int) : substring? text start (text.length - start) =
    if 0 ≤ start ∧ start ≤ text.length then some (joinItems "" ((characters text).drop start.toNat))
    else none := by
  have hguard : (0 ≤ start ∧ 0 ≤ text.length - start ∧ start + (text.length - start) ≤ text.length) ↔
      0 ≤ start ∧ start ≤ text.length := by omega
  rw [substring?_eq]
  simp only [hguard]
  split
  next h =>
    have hlength := length_characters text
    rw [List.take_of_length_le (by rw [List.length_drop]; omega)]
  next => rfl

theorem itemAt?_eq_some (hi : index.toInt? = some i) : itemAt? items index = some v ↔
    ∃ k, ∃ h : k < items.length, (k : Int) = (if i.toInt < 0 then items.length + i.toInt else i.toInt) ∧
      items.get ⟨k, h⟩ = v := by
  simp only [itemAt?, hi, Option.bind_some]
  generalize (if i.toInt < 0 then (items.length : Int) + i.toInt else i.toInt) = j
  rw [Option.ite_none_left_eq_some, List.getElem?_eq_some_iff]
  constructor
  · rintro ⟨hj, h, rfl⟩
    exact ⟨j.toNat, h, Int.toNat_of_nonneg (Int.not_lt.mp hj), rfl⟩
  · rintro ⟨k, h, rfl, rfl⟩
    exact ⟨by omega, h, rfl⟩

theorem isSome_itemAt? (hi : index.toInt? = some i) :
    (itemAt? items index).isSome = true ↔ -items.length ≤ i.toInt ∧ i.toInt < items.length := by
  rw [Option.isSome_iff_exists]
  constructor
  · rintro ⟨v, hv⟩
    obtain ⟨k, hk, hposition, -⟩ := (itemAt?_eq_some hi).mp hv
    split at hposition <;> omega
  · intro h
    refine ⟨_, (itemAt?_eq_some hi).mpr
      ⟨(if i.toInt < 0 then items.length + i.toInt else i.toInt).toNat, ?_, ?_, rfl⟩⟩
    · split <;> omega
    · split <;> omega

theorem staticJoin?_scalars (hitems : ∀ item ∈ items, item.isScalar = true) (separator : String) :
    staticJoin? (.text separator :: items) = some (.text (joinItems separator items)) := by
  have hall : items.all Value.isScalar = true := List.all_eq_true.mpr hitems
  unfold staticJoin?
  split
  next heq =>
    obtain ⟨-, rfl⟩ := List.cons.inj heq
    exact absurd (hitems _ (List.mem_singleton_self _)) Bool.false_ne_true
  next heq =>
    obtain ⟨h, rfl⟩ := List.cons.inj heq
    cases h
    exact if_pos hall
  next hother => exact absurd rfl (hother _ _)

end

/-! ### Folds -/

/-- All folds of a string literal see the same characters, and `n` of them. -/
structure SameCharacters (s : Tree) (text : String) (n : Int64) (chars : List Value) : Prop where
  count : (chars.length : Int) = n.toInt
  single : ∀ v ∈ chars, ∃ c : Char, v = .text (String.ofList [c])
  /-- The list is read back from the literal that is written for it. -/
  readable : Scripts.IsReadable (.list chars)
  array : ∀ t, IsCall t s "tochararray" [] → invocationValue? t = some (.list chars)
  cast : ∀ t, t.conversion? = some ("char[]", s) → castOf? t = some (.value (.list chars) .singleQuoted)
  join : ∀ t list empty, IsOperation t .join list empty → list.literal? = some (.list chars) →
    empty.literal? = some (.text "") → binaryValue? t = some (.value (.text text) .singleQuoted)
  /-- The characters are joined from a list, and from arguments of their own. -/
  static_join : ∀ t type empty arguments, type = "string" ∨ type = "system.string" →
    IsStaticCall t type "join" (empty :: arguments) → empty.literal? = some (.text "") →
    arguments.mapM literal? = some [.list chars] ∨ arguments.mapM literal? = some chars →
    invocationValue? t = some (.text text)
  indexed : ∀ t index i, IsIndexing t s index → index.number? = some i →
    ((indexValue? t).isSome = true ↔ -n.toInt ≤ i.toInt ∧ i.toInt < n.toInt)
  item : ∀ t index i v, IsIndexing t s index → index.number? = some i →
    (indexValue? t = some v ↔ ∃ k, ∃ h : k < chars.length,
      (k : Int) = (if i.toInt < 0 then n.toInt + i.toInt else i.toInt) ∧ chars.get ⟨k, h⟩ = v)
  /-- A list of indexes is folded if the expressions with one of them each are. -/
  items : ∀ t index indexes (each : Tree → Tree), IsIndexing t s index → IsList index indexes →
    (∀ one ∈ indexes, IsIndexing (each one) s one) →
    indexValue? t = (indexes.mapM fun one => indexValue? (each one)).map .list
  substring : ∀ t start length i k, IsCall t s "substring" [start, length] → start.number? = some i →
    length.number? = some k → invocationValue? t =
      if 0 ≤ i.toInt ∧ 0 ≤ k.toInt ∧ i.toInt + k.toInt ≤ n.toInt then
        some (.text (joinItems "" ((chars.drop i.toInt.toNat).take k.toInt.toNat)))
      else none
  rest : ∀ t start i, IsCall t s "substring" [start] → start.number? = some i → invocationValue? t =
    if 0 ≤ i.toInt ∧ i.toInt ≤ n.toInt then some (.text (joinItems "" (chars.drop i.toInt.toNat))) else none
  rest_eq : ∀ t t' start start' length i k, IsCall t s "substring" [start] →
    IsCall t' s "substring" [start', length] → start.number? = some i → start'.number? = some i →
    length.number? = some k → k.toInt = n.toInt - i.toInt → invocationValue? t = invocationValue? t'

section
variable {s t start length index : Tree} {text : String} {i k n : Int64}

theorem length_fold (hs : s.literal? = some (.text text)) (h : IsProperty t s "length") :
    propertyValue? t = (word? text.length).map .int := by
  rw [h.fold, hs]
  rfl

theorem substring_fold (hs : s.literal? = some (.text text)) (h : IsCall t s "substring" [start, length])
    (hstart : start.number? = some i) (hlength : length.number? = some k) :
    invocationValue? t = (substring? text i.toInt k.toInt).map .text := by
  obtain ⟨v, hv, hi⟩ := Option.bind_eq_some_iff.mp hstart
  obtain ⟨w, hw, hk⟩ := Option.bind_eq_some_iff.mp hlength
  have harguments : [start, length].mapM Tree.literal? = some [v, w] := by
    simp [hv, hw]
  rw [h.fold hs, harguments, Option.bind_some]
  change (v.toInt?.bind fun i => w.toInt?.bind fun k => substring? text i.toInt k.toInt).map _ = _
  rw [hi, hk]
  rfl

theorem rest_fold (hs : s.literal? = some (.text text)) (h : IsCall t s "substring" [start])
    (hstart : start.number? = some i) :
    invocationValue? t = (substring? text i.toInt (text.length - i.toInt)).map .text := by
  obtain ⟨v, hv, hi⟩ := Option.bind_eq_some_iff.mp hstart
  have harguments : [start].mapM Tree.literal? = some [v] := by
    simp [hv]
  rw [h.fold hs, harguments, Option.bind_some]
  change (v.toInt?.bind fun i => substring? text i.toInt (text.length - i.toInt)).map _ = _
  rw [hi]
  rfl

theorem index_fold (hs : s.literal? = some (.text text)) (h : IsIndexing t s index)
    (hindex : index.number? = some i) :
    ∃ v, v.toInt? = some i ∧ indexValue? t = itemAt? (characters text) v := by
  obtain ⟨v, hv, hi⟩ := Option.bind_eq_some_iff.mp hindex
  refine ⟨v, hi, ?_⟩
  rw [h.fold hs, hv, Option.bind_some]
  cases v with
  | text | int => rfl
  | list => cases hi

theorem items_fold (hs : s.literal? = some (.text text)) {indexes : List Tree} {each : Tree → Tree}
    (h : IsIndexing t s index) (hlist : IsList index indexes)
    (heach : ∀ one ∈ indexes, IsIndexing (each one) s one) :
    indexValue? t = (indexes.mapM fun one => indexValue? (each one)).map .list := by
  have hone : ∀ one ∈ indexes, (one.literal?.bind (itemAt? (characters text))) = indexValue? (each one) := by
    intro one hone
    rw [(heach one hone).fold hs]
    cases hv : one.literal? with
    | none => rfl
    | some v =>
      cases v with
      | text | int => rfl
      | list vs =>
        rw [Tree.literal?, hlist.flat one hone, if_neg Bool.false_ne_true] at hv
        exact absurd (Scripts.isScalar_of_scalar? hv) Bool.false_ne_true
  rw [h.fold hs, hlist.literal?, ← mapM_congr hone, ← mapM_bind, Option.bind_map, Option.map_bind]
  rfl

theorem sameCharacters (hs : s.literal? = some (.text text)) (hn : n.toInt = text.length) :
    SameCharacters s text n (characters text) := by
  have hcount : ((characters text).length : Int) = n.toInt := by rw [length_characters, hn]
  constructor
  case count => exact hcount
  case single => exact fun v hv => mem_characters hv
  case readable =>
    rw [← texts_characters]
    exact isReadable_texts _
  case array =>
    intro t h
    rw [h.fold hs]
    rfl
  case cast =>
    intro t h
    rw [castOf?_of_literal? h hs]
    rfl
  case join =>
    intro t list empty h hlist hempty
    rw [h.fold, hlist, hempty, Option.bind_some, Option.bind_some]
    change some (Folded.value (.text (joinItems "" (characters text))) .singleQuoted) = _
    rw [joinItems_characters_self]
  case static_join =>
    intro t type empty arguments htype h hempty harguments
    have hjoin : staticMethod? type "join" = staticJoin? := by
      obtain rfl | rfl := htype <;> rfl
    have hself : some (Value.text (joinItems "" (characters text))) = some (.text text) := by
      rw [joinItems_characters_self]
    rw [h.fold, hjoin, List.mapM_cons, hempty]
    obtain harguments | harguments := harguments
    · rw [harguments]
      exact hself
    · have hscalar : ∀ v ∈ characters text, v.isScalar = true := by
        intro v hv
        obtain ⟨c, rfl⟩ := mem_characters hv
        rfl
      rw [harguments]
      exact (staticJoin?_scalars hscalar "").trans hself
  case indexed =>
    intro t index i h hi
    obtain ⟨v, hv, hfold⟩ := index_fold hs h hi
    rw [hfold, isSome_itemAt? hv, hcount]
  case item =>
    intro t index i v h hi
    obtain ⟨w, hw, hfold⟩ := index_fold hs h hi
    rw [hfold, itemAt?_eq_some hw, hcount]
  case items =>
    intro t index indexes each h hlist heach
    exact items_fold hs h hlist heach
  case substring =>
    intro t start length i k h hi hk
    rw [substring_fold hs h hi hk, substring?_eq, hn]
    split <;> rfl
  case rest =>
    intro t start i h hi
    rw [rest_fold hs h hi, substring?_rest, hn]
    split <;> rfl
  case rest_eq =>
    intro t t' start start' length i k h h' hi hi' hk hrest
    rw [rest_fold hs h hi, substring_fold hs h' hi' hk, hrest, hn]

/-- A string literal has a length, unless it is too long for a number, and all that is folded of its
characters sees one sequence, as long as that. -/
theorem characters_agree (hs : s.literal? = some (.text text)) (hlength : IsProperty length s "length") :
    ((propertyValue? length).isSome = true ↔ text.length < 2 ^ 63) ∧
      ∀ n, propertyValue? length = some (.int n) → ∃ chars, SameCharacters s text n chars := by
  rw [length_fold hs hlength]
  constructor
  · rw [Option.isSome_map, isSome_word?]
    omega
  · intro n hn
    obtain ⟨m, hm, heq⟩ := Option.map_eq_some_iff.mp hn
    cases heq
    exact ⟨_, sameCharacters hs (word?_eq_some.mp hm)⟩

/-- Three characters of one, two and four bytes: they are listed, the last of them is read from the end,
and the last two are a part. -/
theorem characters_agree_bytes :
    let s := stringTree .doubleQuoted "aé𝄞"
    let length := branch .memberExpression [] [s, stringTree .bareWord "Length"]
    let list := branch .invokeMember [] [s, stringTree .bareWord "ToCharArray"]
    let last := branch .indexExpression [] [s, intTree (-1)]
    let part := branch .invokeMember []
      [branch .arguments [] [intTree 1, intTree 2], s, stringTree .bareWord "Substring"]
    (s.literal? = some (.text "aé𝄞") ∧ IsProperty length s "length") ∧
      propertyValue? length = some (.int 3) ∧
      ∃ chars, SameCharacters s "aé𝄞" 3 chars ∧ invocationValue? list = some (.list chars) ∧
        (indexValue? last).isSome = true ∧
        invocationValue? part = some (.text (joinItems "" ((chars.drop 1).take 2))) := by
  intro s length list last part
  have hs : s.literal? = some (.text "aé𝄞") := rfl
  have hlength : IsProperty length s "length" := ⟨rfl, by decide +kernel, _, _, rfl, by decide +kernel⟩
  have hlist : IsCall list s "tochararray" [] := ⟨by decide +kernel, _, _, rfl, by decide +kernel, rfl⟩
  have hlast : IsIndexing last s (intTree (-1)) := ⟨rfl, _, rfl⟩
  have hpart : IsCall part s "substring" [intTree 1, intTree 2] :=
    ⟨by decide +kernel, _, _, rfl, by decide +kernel, rfl⟩
  have hnumber (n : Int64) (hmin : n ≠ Int64.minValue) : (intTree n).number? = some n := by
    have hliteral : (intTree n).literal? = some (.int n) :=
      Scripts.isReadable_scalar (v := .int n) rfl (fun h => hmin (Value.int.inj h)) .singleQuoted
    rw [number?, hliteral]
    rfl
  have hn : propertyValue? length = some (.int 3) := (length_fold hs hlength).trans (by decide)
  obtain ⟨-, hchars⟩ := characters_agree hs hlength
  obtain ⟨chars, h⟩ := hchars 3 hn
  refine ⟨⟨hs, hlength⟩, hn, chars, h, h.array list hlist, ?_, ?_⟩
  · exact (h.indexed last _ (-1) hlast (hnumber _ (by decide))).mpr (by decide)
  · exact h.substring part _ _ 1 2 hpart (hnumber _ (by decide)) (hnumber _ (by decide))

end
end Unscramble
