import Unscramble.Proofs.Spelling.LongNames
import Unscramble.Proofs.Text.Lower

/-! What is remembered about names. New names are in lower case and are not among the names that
they are chosen against, so that no name is ever replaced by itself. -/
namespace Unscramble

open Text Simplify Unscramble.Tree

namespace Simplify

theorem isSettled_digit {c : Char} (h : c.isDigit = true) : isSettled c = true := by
  simp only [Char.isDigit, Bool.and_eq_true, decide_eq_true_eq] at h
  have hcode : 48 ≤ c.toNat ∧ c.toNat ≤ 57 := ⟨UInt32.le_iff_toNat_le.mp h.1, UInt32.le_iff_toNat_le.mp h.2⟩
  have htable : ∀ n ≤ 57, 48 ≤ n → isSettled (Char.ofNat n) = true := by decide +kernel
  simpa using htable c.toNat hcode.2 hcode.1

theorem lower_generatedName (n : Nat) : lower (generatedName n) = generatedName n := by
  have hstart : "deob_".toList.all isSettled = true := by decide +kernel
  have hsettled : ∀ c ∈ (generatedName n).toList, isSettled c = true := by
    intro c hc
    have hlist : (generatedName n).toList = "deob_".toList ++ n.repr.toList := by
      rw [generatedName, String.toList_append]; rfl
    rw [hlist, Nat.toList_repr, List.mem_append] at hc
    exact hc.elim (List.all_eq_true.mp hstart c) fun hc =>
      isSettled_digit (Nat.isDigit_of_mem_toDigits (by decide) (by decide) hc)
  rw [lower, lowerFrom_settled [] hsettled, String.ofList_toList]

/-- Among more numbers than there are taken names there is one whose name is not taken. -/
theorem generatedName_freeNumber_not_mem (taken : List String) (next : Nat) :
    generatedName (freeNumber taken next) ∉ taken := by
  unfold freeNumber
  cases hfind : (List.range taken.length).find? fun i =>
      !taken.contains (generatedName (next + i)) with
  | some i => simpa using List.find?_some hfind
  | none =>
    intro hlast
    have hsub : (List.range (taken.length + 1)).map (fun i => generatedName (next + i)) ⊆ taken := by
      intro name hname
      obtain ⟨i, hi, rfl⟩ := List.mem_map.mp hname
      rcases Nat.lt_succ_iff_lt_or_eq.mp (List.mem_range.mp hi) with hi | rfl
      · simpa using List.find?_eq_none.mp hfind i (List.mem_range.mpr hi)
      · exact hlast
    have hnodup : ((List.range (taken.length + 1)).map fun i => generatedName (next + i)).Nodup :=
      List.nodup_range.map fun i j h => Nat.add_left_cancel (generatedName_injective h)
    have hlength := (hnodup.subperm hsub).length_le
    rw [List.length_map, List.length_range] at hlength
    omega

/-- Every name is replaced by another one, in lower case. -/
def NewNames (memory : Memory) : Prop :=
  ∀ entry ∈ memory.renamed, entry.1 ≠ entry.2 ∧ lower entry.2 = entry.2

section
variable {threshold : Nat} {taken : List String} {memory : Memory} {t t' : Tree}

theorem NewNames.ne (h : NewNames memory) (name : String) : replacement? memory name ≠ some name := by
  intro heq
  obtain ⟨entry, hfind, rfl⟩ := Option.map_eq_some_iff.mp heq
  obtain ⟨hne, hlower⟩ := h entry (List.mem_of_find?_eq_some hfind)
  have hkey : entry.1 = lower entry.2 := by simpa using List.find?_some hfind
  exact hne (hkey.trans hlower)

theorem NewNames.add {name : String} (h : NewNames memory) (hname : lower name ∈ taken) :
    NewNames (addReplacement taken memory name) := by
  unfold addReplacement
  split
  · exact h
  intro entry hentry
  rcases List.mem_append.mp hentry with hentry | hentry
  · exact h entry hentry
  · rw [List.mem_singleton.mp hentry]
    refine ⟨fun heq => generatedName_freeNumber_not_mem taken memory.next ?_, lower_generatedName _⟩
    rwa [← show lower name = generatedName (freeNumber taken memory.next) from heq]

theorem NewNames.foldl {names : List String} (h : NewNames memory)
    (hnames : ∀ name ∈ names, lower name ∈ taken) :
    NewNames (names.foldl (addReplacement taken) memory) := by
  induction names generalizing memory with
  | nil => exact h
  | cons name names ih =>
    obtain ⟨hname, hnames⟩ := List.forall_mem_cons.mp hnames
    exact ih (h.add hname) hnames

theorem NewNames.rename (h : NewNames memory) : NewNames (renameLongNames threshold memory t).2 :=
  h.foldl fun _ hname => List.mem_map_of_mem (List.mem_filter.mp hname).1

/-- A name that is long has a replacement afterwards. -/
theorem replacement?_renameLongNames (memory : Memory) {u : Tree} {name : String} (hu : u ∈ t.nodes)
    (hname : nameOf? u.element = some name) (hlong : isLong threshold (splitSigil name).2 = true) :
    (replacement? (renameLongNames threshold memory t).2 (splitSigil name).2).isSome = true :=
  foldl_addReplacement_isSome _ _ (.inr (List.mem_filter.mpr ⟨mem_namesIn hu hname, hlong⟩))

/-- Renaming gives a node another element or leaves it alone. -/
theorem renamedElement?_ne (h : NewNames memory) {u : Tree} (hu : u ∈ t.nodes) :
    renamedElement? threshold (renameLongNames threshold memory t).2 u.element ≠ some u.element := by
  intro hself
  simp only [renamedElement?, Option.bind_eq_some_iff, Option.ite_none_right_eq_some,
    Option.some.injEq] at hself
  obtain ⟨key, hkey, name, hname, hlong, heq⟩ := hself
  have hnameOf : nameOf? u.element = some name := by rw [nameOf?, hkey, Option.bind_some, hname]
  obtain ⟨new, hnew⟩ := Option.isSome_iff_exists.mp
    (replacement?_renameLongNames memory hu hnameOf hlong)
  rw [hnew, Option.getD_some] at heq
  have hattr := congrArg (Element.attr? · key) heq
  simp only [Element.attr?_withAttr, if_true, hname, Option.some.injEq] at hattr
  have hbare : new.toList = (splitSigil name).2.toList := by
    have hsplit := splitSigil_toList name
    rw [← congrArg String.toList hattr, String.toList_append] at hsplit
    exact (List.append_cancel_left hsplit).symm
  exact h.rename.ne _ (hnew.trans (congrArg some (String.toList_inj.mp hbare)))

end
end Simplify
end Unscramble
