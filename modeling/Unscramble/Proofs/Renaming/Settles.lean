import Mathlib.Data.Nat.Count
import Unscramble.Proofs.Renaming.Injective

/-! Whether renaming comes to rest. Names that are chosen are names of variables too. They are replaced
again if they are long, and numbers only grow, so that a long one that has been chosen never becomes
short. The rule is at rest after one call exactly if there is a short name for every long one. -/
namespace Unscramble

open Text Vocabulary Simplify Unscramble.Tree

namespace Simplify

/-! ### Short numbers -/

/-- How many numbers have names that are shorter than the threshold. -/
def shortNumbers (threshold : Nat) : Nat := if threshold ≤ 6 then 0 else 10 ^ (threshold - 6)

theorem isLong_generatedName {threshold n : Nat} :
    isLong threshold (generatedName n) = true ↔ shortNumbers threshold ≤ n := by
  have hlength : (generatedName n).length = 5 + n.repr.length := by
    rw [generatedName, String.length_append]
    rfl
  have hpos : 0 < n.repr.length := by
    rw [← String.length_toList, Nat.toList_repr]
    exact Nat.length_toDigits_pos
  have hplain : isQualified (generatedName n) = false := by
    rw [isQualified, Bool.eq_false_iff, ne_eq, List.contains_iff_mem]
    exact colon_generatedName n
  rw [isLong, hplain, hlength, Bool.not_false, Bool.and_true, decide_eq_true_iff, shortNumbers]
  split
  next => omega
  next hlarge =>
    have hdigits : n.repr.length ≤ threshold - 6 ↔ n < 10 ^ (threshold - 6) :=
      Nat.length_repr_le_iff (by omega)
    omega

/-- The long names of a tree in lower case. -/
def longNames (threshold : Nat) (t : Tree) : List String :=
  ((namesIn t).filter (isLong threshold)).map lower

/-- There are at least as many short names that are not taken as there are long names. -/
def Roomy (threshold : Nat) (t : Tree) : Prop :=
  (longNames threshold t).toFinset.card ≤
    Nat.count (fun n => generatedName n ∉ (namesIn t).map lower) (shortNumbers threshold)

/-! ### Numbers that are given away -/

section
variable {taken names : List String} {memory : Memory}

theorem count_freeNumber (taken : List String) (next : Nat) :
    Nat.count (fun n => generatedName n ∉ taken) (freeNumber taken next) =
      Nat.count (fun n => generatedName n ∉ taken) next := by
  have hskip (m : Nat) (hle : next ≤ m) : m ≤ freeNumber taken next →
      Nat.count (fun n => generatedName n ∉ taken) m = Nat.count (fun n => generatedName n ∉ taken) next := by
    induction m, hle using Nat.le_induction with
    | base => exact fun _ => rfl
    | succ m hle ih =>
      intro hlt
      rw [Nat.count_succ, if_neg (not_not.mpr (freeNumber_skips hle hlt)), Nat.add_zero, ih (Nat.le_of_lt hlt)]
  exact hskip _ (le_freeNumber taken next) (Nat.le_refl _)

/-- What holds while names get their replacements for the first time: as many numbers of free names
have been passed as there are replacements, and the last of them is in use. -/
structure Dealt (taken names : List String) (memory : Memory) : Prop where
  keys : (memory.renamed.map Prod.fst).toFinset = (names.map lower).toFinset
  nodup : (memory.renamed.map Prod.fst).Nodup
  count : Nat.count (fun n => generatedName n ∉ taken) memory.next = memory.renamed.length
  last : memory.next = 0 ∨ ∃ entry ∈ memory.renamed, entry.2 = generatedName (memory.next - 1)

theorem Dealt.start (taken : List String) : Dealt taken [] {} :=
  ⟨rfl, List.nodup_nil, Nat.count_zero _, .inl rfl⟩

theorem replacement?_isSome_iff {name : String} :
    (replacement? memory name).isSome = true ↔ lower name ∈ memory.renamed.map Prod.fst := by
  simp [replacement?]

theorem replacement?_generated_eq_none {n : Nat} (h : ∀ entry ∈ memory.renamed, entry.1 ≠ generatedName n) :
    replacement? memory (generatedName n) = none := by
  rw [replacement?, Option.map_eq_none_iff, List.find?_eq_none]
  intro entry hentry
  rw [lower_generatedName, beq_iff_eq]
  exact h entry hentry

theorem Dealt.add (h : Dealt taken names memory) (name : String) :
    Dealt taken (names ++ [name]) (addReplacement taken memory name) := by
  have hkeys : ((names ++ [name]).map lower).toFinset = insert (lower name) (names.map lower).toFinset := by
    ext key
    simp
  unfold addReplacement
  split
  next hknown =>
    refine ⟨?_, h.nodup, h.count, h.last⟩
    rw [hkeys, ← h.keys, Finset.insert_eq_of_mem]
    exact List.mem_toFinset.mpr (replacement?_isSome_iff.mp hknown)
  next hnew =>
    have hnew := mt replacement?_isSome_iff.mpr hnew
    constructor
    case keys =>
      rw [hkeys, ← h.keys]
      ext key
      simp
    case nodup =>
      rw [List.map_append, List.map_singleton, ← List.concat_eq_append]
      exact h.nodup.concat hnew
    case count =>
      dsimp only
      rw [Nat.count_succ, if_pos (generatedName_freeNumber_not_mem taken memory.next), count_freeNumber,
        h.count, List.length_append, List.length_singleton]
    case last => exact .inr ⟨_, List.mem_append_right _ (List.mem_singleton_self _), rfl⟩

theorem Dealt.foldl (h : Dealt taken names memory) (more : List String) :
    Dealt taken (names ++ more) (more.foldl (addReplacement taken) memory) := by
  induction more generalizing names memory with
  | nil => rwa [List.append_nil]
  | cons name more ih =>
    rw [List.append_cons]
    exact ih (h.add name)

theorem Dealt.rename (threshold : Nat) (t : Tree) :
    Dealt ((namesIn t).map lower) ((namesIn t).filter (isLong threshold))
      (renameLongNames threshold {} t).2 :=
  (Dealt.start _).foldl _

/-- The last number is given to a long name, if there is one. -/
theorem exists_last {threshold : Nat} {t : Tree} (h : (renameLongNames threshold {} t).2.next ≠ 0) :
    ∃ name ∈ namesIn t, isLong threshold name = true ∧
      replacement? (renameLongNames threshold {} t).2 name =
        some (generatedName ((renameLongNames threshold {} t).2.next - 1)) := by
  have hdealt := Dealt.rename threshold t
  obtain ⟨entry, hentry, hlast⟩ := hdealt.last.resolve_left h
  have hkey : entry.1 ∈ ((namesIn t).filter (isLong threshold)).map lower := by
    rw [← List.mem_toFinset, ← hdealt.keys, List.mem_toFinset]
    exact List.mem_map_of_mem hentry
  obtain ⟨name, hname, hlower⟩ := List.mem_map.mp hkey
  obtain ⟨hmem, hlong⟩ := List.mem_filter.mp hname
  refine ⟨name, hmem, hlong, ?_⟩
  -- the keys are distinct, so that a search by the key of the entry leads to it
  have hfind : (renameLongNames threshold {} t).2.renamed.find? (·.1 == lower name) = some entry := by
    obtain ⟨found, hfound⟩ := Option.isSome_iff_exists.mp
      (List.find?_isSome (p := (·.1 == lower name)).mpr ⟨entry, hentry, beq_iff_eq.mpr hlower.symm⟩)
    have hsame : found.1 = entry.1 := by
      rw [← hlower]
      simpa using List.find?_some hfound
    rw [hfound, List.inj_on_of_nodup_map hdealt.nodup (List.mem_of_find?_eq_some hfound) hentry hsame]
  rw [replacement?, hfind, Option.map_some, hlast]

theorem roomy_iff_next_le {threshold : Nat} {t : Tree} :
    Roomy threshold t ↔ (renameLongNames threshold {} t).2.next ≤ shortNumbers threshold := by
  have hdealt := Dealt.rename threshold t
  have hcard : (longNames threshold t).toFinset.card = (renameLongNames threshold {} t).2.renamed.length := by
    rw [longNames, ← hdealt.keys, List.toFinset_card_of_nodup hdealt.nodup, List.length_map]
  rw [Roomy, hcard, ← hdealt.count]
  refine ⟨fun hcount => ?_, fun hle => Nat.count_monotone _ hle⟩
  by_contra hlt
  rw [Nat.not_le] at hlt
  have hpos : (renameLongNames threshold {} t).2.next ≠ 0 := Nat.ne_zero_of_lt hlt
  obtain ⟨name, -, -, hlast⟩ := exists_last hpos
  have hfree := (Chosen.rename threshold t).not_mem hlast
  have hless := Nat.count_strict_mono (p := fun n => generatedName n ∉ (namesIn t).map lower) hfree
    (Nat.sub_one_lt hpos)
  have hmono := Nat.count_monotone (fun n => generatedName n ∉ (namesIn t).map lower) (Nat.le_sub_one_of_lt hlt)
  omega

/-! ### Numbers grow -/

/-- What a memory has become: what it has in addition are replacements for the names, with numbers
that had not been given away. -/
structure Grown (names : List String) (memory memory' : Memory) : Prop where
  next_le : memory.next ≤ memory'.next
  entries : ∀ entry ∈ memory'.renamed, entry ∈ memory.renamed ∨
    entry.1 ∈ names.map lower ∧ ∃ n, memory.next ≤ n ∧ n < memory'.next ∧ entry.2 = generatedName n

theorem addReplacement_grown (taken : List String) (memory : Memory) (name : String) :
    Grown [name] memory (addReplacement taken memory name) := by
  have hle := le_freeNumber taken memory.next
  unfold addReplacement
  split
  next => exact ⟨Nat.le_refl _, fun _ => .inl⟩
  next =>
    refine ⟨Nat.le_succ_of_le hle, fun entry hentry => ?_⟩
    obtain hold | hnew := List.mem_append.mp hentry
    · exact .inl hold
    · rw [List.mem_singleton.mp hnew]
      exact .inr ⟨List.mem_singleton_self _, _, hle, Nat.lt_succ_self _, rfl⟩

theorem foldl_addReplacement_grown (taken names : List String) (memory : Memory) :
    Grown names memory (names.foldl (addReplacement taken) memory) := by
  induction names generalizing memory with
  | nil => exact ⟨Nat.le_refl _, fun _ => .inl⟩
  | cons name names ih =>
    have hfirst := addReplacement_grown taken memory name
    have hrest := ih (addReplacement taken memory name)
    refine ⟨Nat.le_trans hfirst.next_le hrest.next_le, fun entry hentry => ?_⟩
    obtain hentry | ⟨hkey, n, hle, hlt, hnew⟩ := hrest.entries entry hentry
    · refine (hfirst.entries entry hentry).imp id fun ⟨hkey, n, hle, hlt, hnew⟩ => ?_
      rw [List.mem_singleton.mp hkey]
      exact ⟨List.mem_cons_self, n, hle, Nat.lt_of_lt_of_le hlt hrest.next_le, hnew⟩
    · exact .inr ⟨List.mem_cons_of_mem _ hkey, n, Nat.le_trans hfirst.next_le hle, hlt, hnew⟩

/-- A name that had no replacement gets one with a new number. -/
theorem Grown.le_number {memory' : Memory} (h : Grown names memory memory') {name : String} {n : Nat}
    (hnone : replacement? memory name = none) (hsome : replacement? memory' name = some (generatedName n)) :
    memory.next ≤ n := by
  obtain ⟨entry, hfind, hentry⟩ := Option.map_eq_some_iff.mp hsome
  obtain hold | ⟨-, m, hle, -, hnew⟩ := h.entries entry (List.mem_of_find?_eq_some hfind)
  · have hkey : entry.1 = lower name := by simpa using List.find?_some hfind
    have hknown : (replacement? memory name).isSome = true :=
      replacement?_isSome_iff.mpr (hkey ▸ List.mem_map_of_mem hold)
    rw [hnone] at hknown
    cases hknown
  · rwa [generatedName_injective (hentry.symm.trans hnew)]

end
end Simplify

/-! ### Calls one after the other -/

namespace Situation

variable {context : Context} {s : Situation} {t : Tree}

/-- The situation after some calls of the rule, with nothing remembered at first. -/
def renamed (context : Context) (t : Tree) (calls : Nat) : Situation :=
  (apply context .renameLongNames)^[calls] ⟨t, {}⟩

theorem renamed_succ (context : Context) (t : Tree) (calls : Nat) :
    renamed context t (calls + 1) = (renamed context t calls).apply context .renameLongNames :=
  Function.iterate_succ_apply' _ _ _

theorem generated_apply (h : Generated s.memory) : Generated (s.apply context .renameLongNames).memory :=
  Generated.rename h

theorem generated_renamed (context : Context) (t : Tree) (calls : Nat) :
    Generated (renamed context t calls).memory := by
  induction calls with
  | zero => exact Generated.start
  | succ calls ih => exact renamed_succ context t calls ▸ generated_apply ih

theorem namesIn_apply (h : Generated s.memory) :
    namesIn (s.apply context .renameLongNames).tree = (namesIn s.tree).map
      (newName context.settings.renameThreshold (s.apply context .renameLongNames).memory) := by
  have htree : (s.apply context .renameLongNames).tree = s.tree.mapElements
      (renameElement (newName context.settings.renameThreshold (s.apply context .renameLongNames).memory)) :=
    renameLongNames_getD _ _ _
  rw [htree, namesIn_mapElements ((generated_apply h).keepsSigils _)]

/-- A call reports a change exactly if there is a long name. -/
theorem reports_iff_long : s.reports context .renameLongNames = true ↔
    ∃ name ∈ namesIn s.tree, isLong context.settings.renameThreshold name = true := by
  have hreports : s.reports context .renameLongNames =
      (renameLongNames context.settings.renameThreshold s.memory s.tree).1.isSome := rfl
  rw [hreports, Option.isSome_iff_ne_none, ne_eq, renameLongNames_eq_none, not_iff_comm]
  constructor
  · intro hnone
    refine weigh_eq_zero s.tree fun u hu => ?_
    cases hname : nameOf? u.element with
    | none => rw [longWeight, hname]; rfl
    | some name =>
      have hshort := fun hlong => hnone ⟨_, mem_namesIn hu hname, hlong⟩
      rw [longWeight, hname, Option.any_some, Bool.eq_false_iff.mpr hshort, Bool.toNat_false]
  · rintro hzero ⟨bare, hbare, hlong⟩
    obtain ⟨u, hu, hbare⟩ := List.mem_filterMap.mp hbare
    obtain ⟨name, hname, rfl⟩ := Option.map_eq_some_iff.mp hbare
    have hweight := hzero ▸ element_le_weigh (w := longWeight context.settings.renameThreshold) hu
    rw [longWeight, hname, Option.any_some, hlong] at hweight
    exact absurd hweight (by decide)

/-- A long name after a call is a name that was chosen. -/
theorem exists_number (h : Generated s.memory) {name : String}
    (hname : name ∈ namesIn (s.apply context .renameLongNames).tree)
    (hlong : isLong context.settings.renameThreshold name = true) :
    ∃ n < (s.apply context .renameLongNames).memory.next, name = generatedName n := by
  rw [namesIn_apply h] at hname
  obtain ⟨old, hold, rfl⟩ := List.mem_map.mp hname
  cases holdLong : isLong context.settings.renameThreshold old with
  | true =>
    obtain ⟨n, hn, -, hnew⟩ := newName_of_long h hold holdLong
    exact ⟨n, hn, hnew⟩
  | false =>
    rw [newName_of_short holdLong, holdLong] at hlong
    cases hlong

/-- A long name is replaced by a name with a number. -/
theorem exists_new (h : Generated s.memory) {name : String} (hname : name ∈ namesIn s.tree)
    (hlong : isLong context.settings.renameThreshold name = true) :
    ∃ n < (s.apply context .renameLongNames).memory.next,
      Simplify.replacement? (s.apply context .renameLongNames).memory name = some (generatedName n) ∧
        generatedName n ∈ namesIn (s.apply context .renameLongNames).tree := by
  obtain ⟨n, hn, hreplacement, hnew⟩ := newName_of_long h hname hlong
  refine ⟨n, hn, hreplacement, ?_⟩
  rw [namesIn_apply h]
  exact List.mem_map.mpr ⟨name, hname, hnew⟩

/-! ### Rest -/

/-- The name with the largest number is long if any is, and was not taken. -/
theorem exists_largest (h : ¬Roomy context.settings.renameThreshold t) :
    ∃ n, generatedName n ∈ namesIn (renamed context t 1).tree ∧
      shortNumbers context.settings.renameThreshold ≤ n ∧ generatedName n ∉ (namesIn t).map lower := by
  rw [roomy_iff_next_le, Nat.not_le] at h
  obtain ⟨name, hname, hlong, hlast⟩ := exists_last (Nat.ne_zero_of_lt h)
  obtain ⟨n, -, hreplacement, hnew⟩ := exists_new (s := ⟨t, {}⟩) Generated.start hname hlong
  have hnumber : n = (renameLongNames context.settings.renameThreshold {} t).2.next - 1 :=
    generatedName_injective (Option.some.inj (hreplacement.symm.trans hlast))
  exact ⟨n, hnew, hnumber ▸ Nat.le_sub_one_of_lt h,
    (Chosen.rename context.settings.renameThreshold t).not_mem hreplacement⟩

/-- The second call has something to do exactly if a number that is too large was given away. -/
theorem reports_second_iff : (renamed context t 1).reports context .renameLongNames = false ↔
    Roomy context.settings.renameThreshold t := by
  rw [Bool.eq_false_iff, ne_eq, reports_iff_long, not_iff_comm]
  constructor
  · intro hroomy
    obtain ⟨n, hmem, hlong, -⟩ := exists_largest hroomy
    exact ⟨_, hmem, isLong_generatedName.mpr hlong⟩
  · rintro ⟨name, hname, hlong⟩
    obtain ⟨n, hn, rfl⟩ := exists_number (s := ⟨t, {}⟩) Generated.start hname hlong
    rw [roomy_iff_next_le, Nat.not_le]
    exact Nat.lt_of_le_of_lt (isLong_generatedName.mp hlong) hn

theorem apply_of_rest (h : s.reports context .renameLongNames = false) :
    s.apply context .renameLongNames = s := by
  have hnone : (renameLongNames context.settings.renameThreshold s.memory s.tree).1 = none :=
    Option.isSome_eq_false_iff.mp h |> Option.isNone_iff_eq_none.mp
  have happly : s.apply context .renameLongNames =
      ⟨(renameLongNames context.settings.renameThreshold s.memory s.tree).1.getD s.tree,
        (renameLongNames context.settings.renameThreshold s.memory s.tree).2⟩ := rfl
  rw [happly, renameLongNames_none hnone, hnone, Option.getD_none]

/-- Once there is nothing to rename there never will be. -/
theorem rests_on {calls : Nat} (h : (renamed context t calls).reports context .renameLongNames = false)
    {later : Nat} (hle : calls ≤ later) : renamed context t later = renamed context t calls := by
  induction later, hle using Nat.le_induction with
  | base => rfl
  | succ later _ ih => rw [renamed_succ, ih, apply_of_rest h]

/-! ### Unrest -/

/-- A situation that leads to another one of its kind: a long name has been chosen that has no
replacement yet, and no number of a name that has one will be given away. -/
structure Restless (context : Context) (s : Situation) : Prop where
  generated : Generated s.memory
  keys : ∀ entry ∈ s.memory.renamed, ∀ n, entry.1 = generatedName n → n < s.memory.next
  names : ∀ name ∈ namesIn s.tree, isLong context.settings.renameThreshold name = true →
    ∀ n, lower name = generatedName n → n < s.memory.next
  again : ∃ n, generatedName n ∈ namesIn s.tree ∧ shortNumbers context.settings.renameThreshold ≤ n ∧
    Simplify.replacement? s.memory (generatedName n) = none

theorem Restless.reports (h : Restless context s) : s.reports context .renameLongNames = true := by
  obtain ⟨n, hmem, hlong, -⟩ := h.again
  exact reports_iff_long.mpr ⟨_, hmem, isLong_generatedName.mpr hlong⟩

theorem grown_apply (context : Context) (s : Situation) :
    Grown ((namesIn s.tree).filter (isLong context.settings.renameThreshold)) s.memory
      (s.apply context .renameLongNames).memory :=
  foldl_addReplacement_grown _ _ _

/-- What has a replacement after a call has a small number, if it has one. -/
theorem keys_apply
    (hkeys : ∀ entry ∈ s.memory.renamed, ∀ n, entry.1 = generatedName n → n < s.memory.next)
    {bound : Nat} (hbound : s.memory.next ≤ bound)
    (hnames : ∀ name ∈ namesIn s.tree, isLong context.settings.renameThreshold name = true →
      ∀ n, lower name = generatedName n → n < bound) :
    ∀ entry ∈ (s.apply context .renameLongNames).memory.renamed,
      ∀ n, entry.1 = generatedName n → n < bound := by
  intro entry hentry n hn
  obtain hold | ⟨hkey, -⟩ := (grown_apply context s).entries entry hentry
  · exact Nat.lt_of_lt_of_le (hkeys entry hold n hn) hbound
  · obtain ⟨name, hname, hlower⟩ := List.mem_map.mp hkey
    obtain ⟨hmem, hlong⟩ := List.mem_filter.mp hname
    exact hnames name hmem hlong n (hlower.trans hn)

theorem names_apply (h : Generated s.memory) :
    ∀ name ∈ namesIn (s.apply context .renameLongNames).tree,
      isLong context.settings.renameThreshold name = true →
        ∀ n, lower name = generatedName n → n < (s.apply context .renameLongNames).memory.next := by
  intro name hname hlong n hn
  obtain ⟨m, hm, rfl⟩ := exists_number h hname hlong
  rw [lower_generatedName] at hn
  exact generatedName_injective hn ▸ hm

theorem Restless.apply (h : Restless context s) : Restless context (s.apply context .renameLongNames) := by
  have hgrown := grown_apply context s
  have hkeys := keys_apply h.keys (Nat.le_refl _) h.names
  refine ⟨generated_apply h.generated, fun entry hentry n hn => ?_, names_apply h.generated, ?_⟩
  · exact Nat.lt_of_lt_of_le (hkeys entry hentry n hn) hgrown.next_le
  obtain ⟨m, hmem, hlong, hnone⟩ := h.again
  have hm : m < s.memory.next :=
    h.names _ hmem (isLong_generatedName.mpr hlong) m (lower_generatedName m)
  obtain ⟨n, -, hreplacement, hnew⟩ := exists_new h.generated hmem (isLong_generatedName.mpr hlong)
  have hle : s.memory.next ≤ n := hgrown.le_number hnone hreplacement
  -- the new number is too large for a name that has a replacement
  refine ⟨n, hnew, by omega, replacement?_generated_eq_none fun entry hentry heq => ?_⟩
  have hlt := hkeys entry hentry n heq
  omega

theorem Restless.renamed {calls : Nat} (h : Restless context (renamed context t calls)) {later : Nat}
    (hle : calls ≤ later) : Restless context (Situation.renamed context t later) := by
  induction later, hle using Nat.le_induction with
  | base => exact h
  | succ later _ ih => exact renamed_succ context t later ▸ ih.apply

theorem restless_first (h : ¬Roomy context.settings.renameThreshold t)
    (hnames : ∀ name ∈ namesIn t, isLong context.settings.renameThreshold name = true →
      ∀ n, lower name = generatedName n → n < (renamed context t 1).memory.next) :
    Restless context (renamed context t 1) := by
  obtain ⟨n, hnew, hlong, hfree⟩ := exists_largest h
  refine ⟨generated_renamed context t 1, keys_apply (by simp) (Nat.zero_le _) hnames,
    names_apply Generated.start, n, hnew, hlong, replacement?_generated_eq_none fun entry hentry heq => ?_⟩
  -- all that has a replacement stood in the tree, and new names did not
  obtain hold | ⟨hkey, -⟩ := (grown_apply context ⟨t, {}⟩).entries entry hentry
  · simp at hold
  · exact hfree (heq ▸ List.map_subset _ List.filter_sublist.subset hkey)

/-- With a threshold that no chosen name is below, a long name leads to another one. -/
theorem long_renamed (hthreshold : context.settings.renameThreshold ≤ 6) (calls : Nat)
    (hlong : ∃ name ∈ namesIn t, isLong context.settings.renameThreshold name = true) :
    ∃ name ∈ namesIn (renamed context t calls).tree,
      isLong context.settings.renameThreshold name = true := by
  induction calls with
  | zero => exact hlong
  | succ calls ih =>
    obtain ⟨name, hname, hlong⟩ := ih
    obtain ⟨n, -, -, hnew⟩ := exists_new (generated_renamed context t calls) hname hlong
    rw [renamed_succ]
    refine ⟨_, hnew, isLong_generatedName.mpr ?_⟩
    rw [shortNumbers, if_pos hthreshold]
    exact Nat.zero_le n

theorem long_of_not_roomy (h : ¬Roomy context.settings.renameThreshold t) :
    ∃ name ∈ namesIn t, isLong context.settings.renameThreshold name = true := by
  rw [roomy_iff_next_le, Nat.not_le] at h
  obtain ⟨name, hname, hlong, -⟩ := exists_last (Nat.ne_zero_of_lt h)
  exact ⟨name, hname, hlong⟩

/-- Renaming that has begun with nothing remembered is at rest after one call if there are short names
for all long ones. Otherwise every call reports a change, where no long name that the tree had at
first can be chosen again. -/
theorem renaming_settles (context : Context) (t : Tree) :
    let threshold := context.settings.renameThreshold
    ((renamed context t 1).reports context .renameLongNames = false ↔ Roomy threshold t) ∧
      (Roomy threshold t → ∀ calls, 0 < calls →
        (renamed context t calls).reports context .renameLongNames = false) ∧
      (¬Roomy threshold t →
        (threshold ≤ 6 ∨ ∀ name ∈ namesIn t, isLong threshold name = true →
          ∀ n, lower name = generatedName n → n < (renamed context t 1).memory.next) →
        ∀ calls, (renamed context t calls).reports context .renameLongNames = true) := by
  intro threshold
  refine ⟨reports_second_iff, fun hroomy calls hcalls => ?_, fun hroomy hnames calls => ?_⟩
  · have hrest := reports_second_iff.mpr hroomy
    rwa [rests_on hrest hcalls]
  · have hlong := long_of_not_roomy hroomy
    obtain hlow | hnames := hnames
    · exact reports_iff_long.mpr (long_renamed hlow calls hlong)
    · cases calls with
      | zero => exact reports_iff_long.mpr hlong
      | succ calls => exact ((restless_first hroomy hnames).renamed (Nat.le_add_left 1 calls)).reports

/-- A name of one letter is long where every name is. It is renamed for ever. -/
theorem renaming_never_settles :
    let context : Context := { settings := { renameThreshold := 1 } }
    let t := branch .scriptBlock [] [branch .namedBlock [("BlockKind", "End"), ("Unnamed", "True")]
      [branch .statements [] [branch .commandExpression [] [leaf .variableRef [("VariablePath", "x")] none]]]]
    ∀ calls, (renamed context t calls).reports context .renameLongNames = true := by
  intro context t calls
  have hlong : ∃ name ∈ namesIn t, isLong context.settings.renameThreshold name = true :=
    ⟨"x", by decide +kernel, by decide +kernel⟩
  exact reports_iff_long.mpr (long_renamed (by decide) calls hlong)

end Situation
end Unscramble
