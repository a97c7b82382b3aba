import Mathlib.Logic.ExistsUnique
import Unscramble.Proofs.Spelling.Recasing
import Unscramble.Proofs.Text.Ascii
import Unscramble.Value.Compare

/-! The comparison operators. Whether two strings are equal and which of them comes first are decided in
different ways, and still the six operators of a family answer as one order does: where one of those
that ask for an order answers, all of them are read off the same ordering of the operands. -/
namespace Unscramble

open Std Text

/-! ### Orders of texts -/

theorem transCmp_on {α β : Type} (order : β → β → Ordering) [TransCmp order] (f : α → β) :
    TransCmp fun a b => order (f a) (f b) where
  eq_swap := OrientedCmp.eq_swap
  isLE_trans := TransCmp.isLE_trans

theorem orderByCode_eq : orderByCode = List.compareLex (compareOn Char.toNat) := by
  funext a b
  induction a generalizing b with
  | nil => cases b <;> rfl
  | cons c a ih =>
    cases b with
    | nil => rfl
    | cons d b => rw [orderByCode, List.compareLex_cons_cons, ih, compareOn]

instance lawfulEqCmp_toNat : LawfulEqCmp (compareOn Char.toNat) where
  compare_self := Nat.compare_eq_eq.mpr rfl
  eq_of_compare h := Char.toNat_inj.mp (Nat.compare_eq_eq.mp h)

instance : TransCmp orderByCode := by
  rw [orderByCode_eq]
  infer_instance

instance : LawfulEqCmp orderByCode := by
  rw [orderByCode_eq]
  infer_instance

/-- Strings of ASCII letters and digits. -/
def IsWord (s : String) : Prop := ∀ c ∈ s.toList, c.isAlphanum = true

instance (s : String) : Decidable (IsWord s) :=
  decidable_of_iff (s.toList.all Char.isAlphanum = true) List.all_eq_true

def caseMark (c : Char) : Char := if c.isUpper then '1' else '0'

def caselessOrder (a b : String) : Ordering :=
  orderByCode (a.toList.map Char.toLower) (b.toList.map Char.toLower)

def caseOrder (a b : String) : Ordering :=
  orderByCode (a.toList.map caseMark) (b.toList.map caseMark)

/-- The order of words: without case and, if case counts, by case where that leaves a tie. -/
def wordOrder (minding : Bool) : String → String → Ordering :=
  if minding then compareLex caselessOrder caseOrder else caselessOrder

instance : TransCmp caselessOrder := transCmp_on orderByCode fun s : String => s.toList.map Char.toLower

instance : TransCmp caseOrder := transCmp_on orderByCode fun s : String => s.toList.map caseMark

instance (minding : Bool) : TransCmp (wordOrder minding) := by
  cases minding
  · exact inferInstanceAs (TransCmp caselessOrder)
  · exact inferInstanceAs (TransCmp (compareLex caselessOrder caseOrder))

section
variable {minding : Bool} {a b : String} {c d : Char}

theorem isUpper_of_caseMark (h : caseMark c = caseMark d) : c.isUpper = d.isUpper := by
  unfold caseMark at h
  cases hc : c.isUpper <;> cases hd : d.isUpper <;> simp [hc, hd] at h ⊢

/-- A character is known from its lower case and whether it is a capital. -/
theorem eq_of_caseMark (hlower : c.toLower = d.toLower) (hmark : caseMark c = caseMark d) : c = d := by
  have hupper := isUpper_of_caseMark hmark
  cases hc : c.isUpper with
  | false => rwa [toLower_of_not_isUpper hc, toLower_of_not_isUpper (hupper ▸ hc)] at hlower
  | true =>
    have hd : d.isUpper = true := hupper ▸ hc
    have hval := congrArg Char.val hlower
    rw [val_toLower_of_isUpper hc, val_toLower_of_isUpper hd] at hval
    exact Char.ext ((UInt32.add_left_inj _).mp hval)

theorem caselessOrder_eq_iff : caselessOrder a b = .eq ↔ sameIgnoringCase a b = true := by
  rw [caselessOrder, LawfulEqCmp.compare_eq_iff_eq, sameIgnoringCase_iff, SameText]

theorem wordOrder_minding_eq_iff : wordOrder true a b = .eq ↔ a = b := by
  change (caselessOrder a b).then (caseOrder a b) = .eq ↔ a = b
  rw [Ordering.then_eq_eq, caselessOrder, caseOrder, LawfulEqCmp.compare_eq_iff_eq,
    LawfulEqCmp.compare_eq_iff_eq, ← String.toList_inj]
  refine ⟨fun ⟨hlower, hmark⟩ => ?_, fun h => by simp [h]⟩
  have hlength : a.toList.length = b.toList.length := by simpa using congrArg List.length hlower
  refine List.ext_getElem hlength fun i hi hj => eq_of_caseMark ?_ ?_
  · simpa [hi, hj] using congrArg (·[i]?) hlower
  · simpa [hi, hj] using congrArg (·[i]?) hmark

theorem wordOrder_minding_lt (h : wordOrder false a b = .lt) : wordOrder true a b = .lt :=
  Ordering.then_eq_lt.mpr (.inl h)

theorem orderWords?_eq (ha : IsWord a) (hb : IsWord b) :
    orderWords? minding a b = some (wordOrder minding a b) := by
  rw [orderWords?, if_pos (by simpa [IsWord] using And.intro ha hb), wordOrder]
  cases minding <;> rfl

theorem orderWords?_eq_none (h : ¬ (IsWord a ∧ IsWord b)) : orderWords? minding a b = none := by
  rw [orderWords?, if_neg (by simpa [IsWord] using h)]

/-- The Unicode lower case of a word is its ASCII lower case. -/
theorem IsWord.lower (h : IsWord a) : lower a = lowerAscii a :=
  lower_ascii fun c hc => ascii_of_isAlphanum (h c hc)

end

/-! ### The operators -/

/-- The operator of a family for a relation: one family minds case, the other does not. -/
def Relation.operator (minding : Bool) : Relation → Operator
  | .eq => if minding then .ceq else .ieq
  | .ne => if minding then .cne else .ine
  | .ge => if minding then .cge else .ige
  | .gt => if minding then .cgt else .igt
  | .le => if minding then .cle else .ile
  | .lt => if minding then .clt else .ilt

/-- What an operator answers to two values, if it does. -/
def answer? (minding : Bool) (relation : Relation) (a b : Value) : Option Bool :=
  (relation.operator minding).compare? a b

/-- The operators of a family all answer, and their answers fit together. -/
structure Consistent (minding : Bool) (a b : Value) : Prop where
  answers : ∀ relation, (answer? minding relation a b).isSome
  one : ∃! relation, relation ∈ [Relation.lt, .eq, .gt] ∧ answer? minding relation a b = some true
  le : answer? minding .le a b = some true ↔
    answer? minding .lt a b = some true ∨ answer? minding .eq a b = some true
  ge : answer? minding .ge a b = some true ↔
    answer? minding .gt a b = some true ∨ answer? minding .eq a b = some true
  ne : answer? minding .ne a b = some true ↔ ¬ answer? minding .eq a b = some true

/-- The operators of a family order words: they are those of a total preorder that identifies the
same ones. -/
structure OrdersWords (minding : Bool) (same : String → String → Prop) : Prop where
  consistent : ∀ a b, IsWord a → IsWord b → Consistent minding (.text a) (.text b)
  converse : ∀ a b, IsWord a → IsWord b →
    answer? minding .ge (.text a) (.text b) = answer? minding .le (.text b) (.text a)
  total : ∀ a b, IsWord a → IsWord b → answer? minding .le (.text a) (.text b) = some true ∨
    answer? minding .le (.text b) (.text a) = some true
  trans : ∀ a b c, IsWord a → IsWord b → IsWord c →
    answer? minding .le (.text a) (.text b) = some true →
    answer? minding .le (.text b) (.text c) = some true →
    answer? minding .le (.text a) (.text c) = some true
  antisymm : ∀ a b, IsWord a → IsWord b → answer? minding .le (.text a) (.text b) = some true →
    answer? minding .le (.text b) (.text a) = some true → same a b
  same_iff : ∀ a b, IsWord a → IsWord b →
    (answer? minding .eq (.text a) (.text b) = some true ↔ same a b)

section
variable {minding : Bool} {relation : Relation} {a b : Value} {s t : String} {o : Ordering}

theorem answer?_eq : answer? minding relation a b =
    (Operator.order? relation minding a b).map relation.holds := by
  have h : (relation.operator minding).comparison? = some (relation, minding) := by
    cases relation <;> cases minding <;> rfl
  rw [answer?, Operator.compare?, h, Option.bind_some]

/-- A relation that does not ask for an order only looks for equality. -/
theorem holds_of_isEquality (h : relation.isEquality = true) {o' : Ordering} (ho : o' = .eq ↔ o = .eq) :
    relation.holds o' = relation.holds o := by
  have hbeq : (o' == .eq) = (o == .eq) := Bool.eq_iff_iff.mpr (by simpa using ho)
  cases relation with
  | eq => exact hbeq
  | ne => exact congrArg (!·) hbeq
  | ge | gt | le | lt => cases h

theorem order?_text (hb : b.isScalar = true) : Operator.order? relation minding (.text s) b =
    if relation.isEquality then
      some (if minding then orderByCode s.toList b.display.toList
        else orderByCode (lower s).toList (lower b.display).toList)
    else orderWords? minding s b.display := by
  cases b with
  | text | int => rfl
  | list => cases hb

/-- Words are equal to an operator of a family exactly if they tie in its order. -/
theorem answer?_words (hs : IsWord s) (hb : b.isScalar = true) (ht : IsWord b.display) :
    answer? minding relation (.text s) b = some (relation.holds (wordOrder minding s b.display)) := by
  rw [answer?_eq, order?_text hb]
  cases hrelation : relation.isEquality with
  | false => rw [if_neg Bool.false_ne_true, orderWords?_eq hs ht, Option.map_some]
  | true =>
    refine congrArg some (holds_of_isEquality hrelation ?_)
    cases minding with
    | true => rw [if_pos rfl, wordOrder_minding_eq_iff, LawfulEqCmp.compare_eq_iff_eq, String.toList_inj]
    | false =>
      rw [if_neg Bool.false_ne_true, LawfulEqCmp.compare_eq_iff_eq, String.toList_inj, hs.lower, ht.lower]
      exact beq_iff_eq.symm.trans caselessOrder_eq_iff.symm

theorem answer?_texts (hs : IsWord s) (ht : IsWord t) :
    answer? minding relation (.text s) (.text t) = some (relation.holds (wordOrder minding s t)) :=
  answer?_words hs rfl ht

/-- Where an operator that asks for an order answers, all operators of its family answer by one
ordering of the two values. -/
theorem exists_ordering (h : (answer? minding relation a b).isSome = true)
    (hrelation : relation.isEquality = false) :
    ∃ o, ∀ other : Relation, answer? minding other a b = some (other.holds o) := by
  rw [answer?_eq, Option.isSome_map] at h
  cases a with
  | int n =>
    obtain ⟨o, ho⟩ := Option.isSome_iff_exists.mp h
    -- numbers are compared in the same way whatever is asked
    have hother (other : Relation) : Operator.order? other minding (.int n) b = some o := ho
    exact ⟨o, fun other => by rw [answer?_eq, hother, Option.map_some]⟩
  | list => cases h
  | text s =>
    have hb : b.isScalar = true := by
      cases b with
      | text | int => rfl
      | list => cases h
    rw [order?_text hb, hrelation, if_neg Bool.false_ne_true] at h
    by_cases hwords : IsWord s ∧ IsWord b.display
    · exact ⟨_, fun other => answer?_words hwords.1 hb hwords.2⟩
    · rw [orderWords?_eq_none hwords] at h
      cases h

theorem consistent_of_ordering (h : ∀ r : Relation, answer? minding r a b = some (r.holds o)) :
    Consistent minding a b where
  answers r := by rw [h]; rfl
  one := by
    simp only [h, Option.some.injEq]
    cases o with
    | lt => exact ⟨.lt, by decide, by rintro (_ | _ | _ | _ | _ | _) <;> decide⟩
    | eq => exact ⟨.eq, by decide, by rintro (_ | _ | _ | _ | _ | _) <;> decide⟩
    | gt => exact ⟨.gt, by decide, by rintro (_ | _ | _ | _ | _ | _) <;> decide⟩
  le := by
    simp only [h, Option.some.injEq]
    cases o <;> decide
  ge := by
    simp only [h, Option.some.injEq]
    cases o <;> decide
  ne := by
    simp only [h, Option.some.injEq]
    cases o <;> decide

theorem holds_le : Relation.le.holds o = o.isLE := by cases o <;> rfl

theorem holds_ge : Relation.ge.holds o = o.isGE := by cases o <;> rfl

theorem ordersWords {same : String → String → Prop} (h : ∀ s t, wordOrder minding s t = .eq ↔ same s t) :
    OrdersWords minding same where
  consistent s t hs ht := consistent_of_ordering fun _ => answer?_texts hs ht
  converse s t hs ht := by
    rw [answer?_texts hs ht, answer?_texts ht hs, holds_le, holds_ge]
    exact congrArg some OrientedCmp.isGE_eq_isLE
  total s t hs ht := by
    rw [answer?_texts hs ht, answer?_texts ht hs, holds_le, holds_le, Option.some.injEq,
      Option.some.injEq]
    rw [show wordOrder minding t s = (wordOrder minding s t).swap from OrientedCmp.eq_swap]
    cases wordOrder minding s t <;> decide
  trans s t u hs ht hu := by
    rw [answer?_texts hs ht, answer?_texts ht hu, answer?_texts hs hu, holds_le, holds_le,
      holds_le, Option.some.injEq, Option.some.injEq, Option.some.injEq]
    exact TransCmp.isLE_trans
  antisymm s t hs ht := by
    rw [answer?_texts hs ht, answer?_texts ht hs, holds_le, holds_le, Option.some.injEq,
      Option.some.injEq, ← h]
    exact OrientedCmp.isLE_antisymm
  same_iff s t hs ht := by
    rw [answer?_texts hs ht, Option.some.injEq, ← h]
    exact beq_iff_eq

/-- The comparison operators fit together: where one that asks for an order answers, all of its family
do, and as one order does. Words are ordered totally if case counts, and up to case if it does not, the
one order refining the other; other strings are only compared for equality. -/
theorem comparisons_consistent :
    (∀ minding relation a b, relation.isEquality = false →
      (answer? minding relation a b).isSome = true → Consistent minding a b) ∧
    OrdersWords true (· = ·) ∧
    OrdersWords false (sameIgnoringCase · · = true) ∧
    (∀ s t, IsWord s → IsWord t → answer? false .lt (.text s) (.text t) = some true →
      answer? true .lt (.text s) (.text t) = some true) ∧
    ∀ s t, ¬ (IsWord s ∧ IsWord t) → ∀ minding relation,
      ((answer? minding relation (.text s) (.text t)).isSome = true ↔ relation.isEquality = true) := by
  refine ⟨fun _ _ _ _ hrelation h => ?_, ordersWords fun _ _ => wordOrder_minding_eq_iff,
    ordersWords fun _ _ => caselessOrder_eq_iff, fun s t hs ht h => ?_, fun s t h minding relation => ?_⟩
  · obtain ⟨o, ho⟩ := exists_ordering h hrelation
    exact consistent_of_ordering ho
  · rw [answer?_texts hs ht] at h ⊢
    have hlt : wordOrder false s t = .lt := beq_iff_eq.mp (Option.some.inj h)
    exact congrArg some (beq_iff_eq.mpr (wordOrder_minding_lt hlt))
  · rw [answer?_eq, Option.isSome_map, order?_text rfl]
    cases relation.isEquality with
    | false =>
      rw [if_neg Bool.false_ne_true, Value.display, orderWords?_eq_none h]
      decide
    | true => exact ⟨fun _ => rfl, fun _ => rfl⟩

/-- A number and the text of a larger one, words that differ in case first, and a string that is no
word. -/
theorem comparisons_consistent_mixed :
    ((answer? true .le (.int 64) (.text "0x41")).isSome = true ∧
      Consistent true (.int 64) (.text "0x41")) ∧
    (IsWord "ab" ∧ IsWord "B" ∧ answer? false .lt (.text "ab") (.text "B") = some true ∧
      answer? true .lt (.text "ab") (.text "B") = some true) ∧
    (¬ IsWord "a-b" ∧ answer? true .lt (.text "a-b") (.text "ab") = none ∧
      (answer? true .ne (.text "a-b") (.text "ab")).isSome = true) := by
  obtain ⟨hconsistent, -, -, hrefines, hothers⟩ := comparisons_consistent
  have hnumber : (answer? true .le (.int 64) (.text "0x41")).isSome = true := by decide
  have hab : IsWord "ab" := by decide
  have hB : IsWord "B" := by decide
  have hlt : answer? false .lt (.text "ab") (.text "B") = some true := by decide
  have hdash : ¬ IsWord "a-b" := by decide
  have hother := hothers "a-b" "ab" (fun h => hdash h.1) true
  refine ⟨⟨hnumber, hconsistent _ .le _ _ rfl hnumber⟩, ⟨hab, hB, hlt, hrefines _ _ hab hB hlt⟩,
    hdash, ?_, (hother .ne).mpr rfl⟩
  exact Option.not_isSome_iff_eq_none.mp fun h => Bool.false_ne_true ((hother .lt).mp h)

end
end Unscramble
