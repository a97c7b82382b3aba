/-! The attributes of an element: keys are distinct, and the order in which they were first set is
kept. -/
namespace Unscramble

structure Attributes where
  pairs : List (String × String) := []
  nodup_keys : (pairs.map Prod.fst).Nodup := by decide
  deriving DecidableEq

namespace Attributes

def empty : Attributes := {}

instance : Inhabited Attributes := ⟨empty⟩

def get? (attributes : Attributes) (key : String) : Option String :=
  (attributes.pairs.find? (·.1 == key)).map (·.2)

/-- The pairs with the value of `key` overwritten in place, or appended if it is new. -/
def setPairs (key value : String) : List (String × String) → List (String × String)
  | [] => [(key, value)]
  | (k, v) :: rest => if k = key then (k, value) :: rest else (k, v) :: setPairs key value rest

theorem mem_keys_setPairs {key value k : String} {pairs : List (String × String)} :
    k ∈ (setPairs key value pairs).map Prod.fst ↔ k = key ∨ k ∈ pairs.map Prod.fst := by
  induction pairs with
  | nil => simp [setPairs]
  | cons pair rest ih =>
    obtain ⟨k', v'⟩ := pair
    by_cases h : k' = key
    · subst h; simp [setPairs]
    · simp only [setPairs, h, if_false, List.map_cons, List.mem_cons, ih]
      constructor <;> (rintro (h | h | h) <;> simp [h])

theorem nodup_keys_setPairs (key value : String) {pairs : List (String × String)}
    (h : (pairs.map Prod.fst).Nodup) : ((setPairs key value pairs).map Prod.fst).Nodup := by
  induction pairs with
  | nil => simp [setPairs]
  | cons pair rest ih =>
    obtain ⟨k, v⟩ := pair
    simp only [List.map_cons, List.nodup_cons] at h
    by_cases hk : k = key
    · rw [setPairs, if_pos hk, List.map_cons, List.nodup_cons]
      exact h
    · rw [setPairs, if_neg hk, List.map_cons, List.nodup_cons, mem_keys_setPairs, not_or]
      exact ⟨⟨hk, h.1⟩, ih h.2⟩

def set (attributes : Attributes) (key value : String) : Attributes :=
  ⟨setPairs key value attributes.pairs, nodup_keys_setPairs key value attributes.nodup_keys⟩

theorem nodup_keys_filter (keep : String × String → Bool) {pairs : List (String × String)}
    (h : (pairs.map Prod.fst).Nodup) : ((pairs.filter keep).map Prod.fst).Nodup :=
  h.sublist (List.filter_sublist.map Prod.fst)

def erase (attributes : Attributes) (key : String) : Attributes :=
  ⟨attributes.pairs.filter (·.1 != key), nodup_keys_filter _ attributes.nodup_keys⟩

def ofList (pairs : List (String × String)) : Attributes :=
  pairs.foldl (fun attributes (key, value) => attributes.set key value) empty

def size (attributes : Attributes) : Nat := attributes.pairs.length

end Attributes
end Unscramble
