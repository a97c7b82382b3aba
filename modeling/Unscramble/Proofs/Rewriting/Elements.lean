import Unscramble.Proofs.Rewriting.LocalStep

/-! Attributes after a change, and elements that are the same but for texts and for the attributes
that rules write. -/
namespace Unscramble

open Simplify

namespace Attributes

theorem find?_setPairs (key value k : String) (pairs : List (String × String)) :
    ((setPairs key value pairs).find? (·.1 == k)).map (·.2) =
      if k = key then some value else (pairs.find? (·.1 == k)).map (·.2) := by
  induction pairs with
  | nil =>
    by_cases hk : k = key
    · simp [setPairs, hk]
    · simp [setPairs, hk, Ne.symm hk]
  | cons pair rest ih =>
    obtain ⟨k', v'⟩ := pair
    unfold setPairs
    split
    next heq =>
      subst heq
      by_cases hk : k = k'
      · simp [hk]
      · simp [hk, Ne.symm hk]
    next hne =>
      by_cases hk : k' = k
      · simp [hk, hk ▸ hne]
      · simpa [List.find?_cons, hk] using ih

@[simp] theorem get?_set (a : Attributes) (key value k : String) :
    (a.set key value).get? k = if k = key then some value else a.get? k :=
  find?_setPairs key value k a.pairs

theorem setPairs_setPairs (key value new : String) (pairs : List (String × String)) :
    setPairs key new (setPairs key value pairs) = setPairs key new pairs := by
  induction pairs with
  | nil => simp [setPairs]
  | cons pair rest ih =>
    obtain ⟨k, v⟩ := pair
    by_cases h : k = key
    · simp [setPairs, h]
    · simp [setPairs, h, ih]

theorem setPairs_self {key value : String} {pairs : List (String × String)}
    (h : (pairs.find? (·.1 == key)).map (·.2) = some value) : setPairs key value pairs = pairs := by
  induction pairs with
  | nil => cases h
  | cons pair rest ih =>
    obtain ⟨k, v⟩ := pair
    by_cases hk : k = key
    · simpa [setPairs, hk, eq_comm] using h
    · simpa [setPairs, hk] using ih (by simpa [hk] using h)

@[simp] theorem set_set (a : Attributes) (key value new : String) :
    (a.set key value).set key new = a.set key new := by
  simp [set, setPairs_setPairs]

theorem set_self {a : Attributes} {key value : String} (h : a.get? key = some value) :
    a.set key value = a := by
  obtain ⟨pairs, hnodup⟩ := a
  simpa [set] using setPairs_self h

@[simp] theorem get?_empty (k : String) : empty.get? k = none := rfl

end Attributes

@[simp] theorem Element.attr?_withAttr (e : Element) (key value k : String) :
    (e.withAttr key value).attr? k = if k = key then some value else e.attr? k :=
  Attributes.get?_set ..

@[simp] theorem Element.withAttr_withAttr (e : Element) (key value new : String) :
    (e.withAttr key value).withAttr key new = e.withAttr key new := by
  simp [withAttr]

theorem Element.withAttr_self {e : Element} {key value : String} (h : e.attr? key = some value) :
    e.withAttr key value = e := by
  rw [withAttr, Attributes.set_self h]

@[simp] theorem Element.kind_withAttr (e : Element) (key value : String) :
    (e.withAttr key value).kind = e.kind := rfl

/-- The keys of the attributes that rules write. -/
def writtenKeys : List String :=
  ["VariablePath", "Name", "TypeName", "StringConstantType", "StaticType", "Operator", "TokenKind"]

/-- An element of the same kind, with the same attributes but for those that rules write. -/
structure Alike (e e' : Element) : Prop where
  kind : e'.kind = e.kind
  attr : ∀ key ∉ writtenKeys, e'.attr? key = e.attr? key

namespace Alike

theorem text (e : Element) (text : Option String) : Alike e { e with text } := ⟨rfl, fun _ _ => rfl⟩

theorem withAttr (e : Element) {key : String} (value : String) (h : key ∈ writtenKeys) :
    Alike e (e.withAttr key value) :=
  ⟨rfl, fun k hk => by rw [Element.attr?_withAttr, if_neg fun (heq : k = key) => hk (heq ▸ h)]⟩

theorem trans {e e' e'' : Element} (h : Alike e e') (k : Alike e' e'') : Alike e e'' :=
  ⟨k.kind.trans h.kind, fun key hkey => (k.attr key hkey).trans (h.attr key hkey)⟩

end Alike

end Unscramble
