import Unscramble.Proofs.Renaming.Names

/-! Renaming keeps names apart. New names are none of the names that stand in the tree, and no two names
share one unless they are the same in lower case. Whether a name is long is told from its own
characters, and one letter has more of them in lower case: with it a name may be short in one spelling
and long in another, and then only one of the two is renamed. -/
namespace Unscramble

open Text Vocabulary Simplify Unscramble.Tree

/-! ### Lower case and length -/

namespace Text

/-- All letters that are not ASCII but one have a single letter for their lower case. -/
theorem lowerChar_eq_singleton {c : Char} (hc : 128 ≤ c.toNat) (hdot : c ≠ 'İ') :
    ∃ d, lowerChar c = [d] ∧ d ≠ ':' := by
  obtain ⟨codes, hcodes, -⟩ | ⟨d, hlower, hd⟩ := lowerChar_cases hc
  · -- The one entry of the table is the letter that is left out.
    simp only [lowerSequences, List.mem_singleton, Prod.mk.injEq] at hcodes
    exact absurd (by rw [← Char.ofNat_toNat c, hcodes.1]) hdot
  · refine ⟨d, hlower, ?_⟩
    rintro rfl
    exact hd.elim (by decide) (by decide)

theorem length_lowerFrom (before : List Char) {s : List Char} (h : 'İ' ∉ s) :
    (lowerFrom before s).length = s.length := by
  induction s generalizing before with
  | nil => rfl
  | cons c s ih =>
    obtain ⟨hc, hs⟩ := not_or.mp (List.mem_cons.not.mp h)
    have hone : (if c = 'Σ' then [if meetsCased before && !meetsCased s then 'ς' else 'σ']
        else lowerChar c).length = 1 := by
      split
      next => rfl
      next =>
        by_cases hascii : c.toNat < 128
        · rw [lowerChar, if_pos hascii, List.length_singleton]
        · obtain ⟨d, hd, -⟩ := lowerChar_eq_singleton (Nat.not_lt.mp hascii) (Ne.symm hc)
          rw [hd, List.length_singleton]
    rw [lowerFrom, List.length_append, hone, ih _ hs, List.length_cons, Nat.add_comm]

theorem length_lower {s : String} (h : 'İ' ∉ s.toList) : (lower s).length = s.length := by
  rw [lower, String.length_ofList, length_lowerFrom [] h, String.length_toList]

theorem colon_mem_lowerChar {c : Char} (h : ':' ∈ lowerChar c) : c = ':' := by
  by_cases hascii : c.toNat < 128
  · rw [lowerChar, if_pos hascii, List.mem_singleton] at h
    exact (colon_iff c).mp h.symm
  · by_cases hdot : c = 'İ'
    · subst hdot
      exact absurd h (by decide +kernel)
    · obtain ⟨d, hd, hcolon⟩ := lowerChar_eq_singleton (Nat.not_lt.mp hascii) hdot
      rw [hd, List.mem_singleton] at h
      exact absurd h.symm hcolon

theorem colon_mem_lowerFrom (before : List Char) {s : List Char} (h : ':' ∈ lowerFrom before s) :
    ':' ∈ s := by
  induction s generalizing before with
  | nil => simp [lowerFrom] at h
  | cons c s ih =>
    rw [lowerFrom, List.mem_append] at h
    obtain h | h := h
    · split at h
      next =>
        rw [List.mem_singleton] at h
        split at h <;> exact absurd h (by decide)
      next => exact colon_mem_lowerChar h ▸ List.mem_cons_self
    · exact List.mem_cons_of_mem _ (ih _ h)

end Text

/-- A name says which drive it belongs to in whatever case it is spelled. -/
theorem isQualified_lower (name : String) : isQualified (lower name) = isQualified name := by
  rw [isQualified, isQualified, Bool.eq_iff_iff]
  simp only [List.contains_eq_mem, decide_eq_true_eq]
  refine ⟨fun h => ?_, mem_lower (by decide) rfl⟩
  rw [lower, String.toList_ofList] at h
  exact colon_mem_lowerFrom [] h

namespace Simplify

/-- Two spellings of one name are both long, or neither is. -/
theorem isLong_congr {a b : String} (threshold : Nat) (h : lower a = lower b) (ha : 'İ' ∉ a.toList)
    (hb : 'İ' ∉ b.toList) : isLong threshold a = isLong threshold b := by
  rw [isLong, isLong, ← length_lower ha, ← length_lower hb, ← isQualified_lower a, ← isQualified_lower b, h]

/-! ### The names that are chosen -/

/-- What holds while names get their replacements: these are generated, not taken, and distinct. -/
structure Chosen (taken : List String) (memory : Memory) : Prop where
  generated : Generated memory
  fresh : ∀ entry ∈ memory.renamed, entry.2 ∉ taken
  distinct : (memory.renamed.map Prod.snd).Nodup

section
variable {taken : List String} {memory : Memory}

theorem Generated.start : Generated {} := by simp [Generated]

theorem Chosen.start (taken : List String) : Chosen taken {} :=
  ⟨Generated.start, by simp, by simp⟩

theorem Chosen.add (h : Chosen taken memory) (name : String) :
    Chosen taken (addReplacement taken memory name) := by
  refine ⟨h.generated.add taken name, ?_, ?_⟩
  · unfold addReplacement
    split
    · exact h.fresh
    · intro entry hentry
      obtain hentry | hentry := List.mem_append.mp hentry
      · exact h.fresh entry hentry
      · rw [List.mem_singleton.mp hentry]
        exact generatedName_freeNumber_not_mem taken memory.next
  · unfold addReplacement
    split
    · exact h.distinct
    · rw [List.map_append, List.map_singleton]
      refine List.nodup_append.mpr ⟨h.distinct, List.nodup_singleton _, fun new hnew other hother heq => ?_⟩
      obtain ⟨entry, hentry, rfl⟩ := List.mem_map.mp hnew
      -- earlier names have numbers below the one that is given away now
      obtain ⟨n, hn, hold⟩ := h.generated entry hentry
      rw [List.mem_singleton.mp hother, hold] at heq
      have hle := le_freeNumber taken memory.next
      have hnumber := generatedName_injective heq
      omega

theorem Chosen.foldl (h : Chosen taken memory) (names : List String) :
    Chosen taken (names.foldl (addReplacement taken) memory) := by
  induction names generalizing memory with
  | nil => exact h
  | cons name names ih => exact ih (h.add name)

theorem Chosen.rename (threshold : Nat) (t : Tree) :
    Chosen ((namesIn t).map lower) (renameLongNames threshold {} t).2 :=
  (Chosen.start _).foldl _

theorem replacement?_congr {a b : String} (h : lower a = lower b) :
    replacement? memory a = replacement? memory b := by
  rw [replacement?, replacement?, h]

/-- Names that share a replacement are the same but for their case. -/
theorem Chosen.lower_eq (h : Chosen taken memory) {a b new : String}
    (ha : replacement? memory a = some new) (hb : replacement? memory b = some new) : lower a = lower b := by
  obtain ⟨x, hx, rfl⟩ := Option.map_eq_some_iff.mp ha
  obtain ⟨y, hy, heq⟩ := Option.map_eq_some_iff.mp hb
  have hsame : y = x := List.inj_on_of_nodup_map h.distinct (List.mem_of_find?_eq_some hy)
    (List.mem_of_find?_eq_some hx) heq
  have hxkey : x.1 = lower a := by simpa using List.find?_some hx
  have hykey : y.1 = lower b := by simpa using List.find?_some hy
  rw [← hxkey, ← hykey, hsame]

theorem Chosen.not_mem (h : Chosen taken memory) {name new : String}
    (hnew : replacement? memory name = some new) : new ∉ taken := by
  obtain ⟨entry, hentry, rfl⟩ := Option.map_eq_some_iff.mp hnew
  exact h.fresh entry (List.mem_of_find?_eq_some hentry)

end

/-! ### Names before and after -/

/-- What renaming does to the names of a tree: `new` has the name that a name is replaced by. -/
structure IsRenaming (threshold : Nat) (t t' : Tree) (new : String → String) : Prop where
  /-- Every name is written behind the sigil that it had. -/
  tree : t' = t.mapElements (renameElement new)
  /-- Nothing but the attributes that hold names is written. -/
  others : ∀ e, (renameElement new e).kind = e.kind ∧ (renameElement new e).text = e.text ∧
    ∀ key, nameKey? e.kind ≠ some key → (renameElement new e).attr? key = e.attr? key
  /-- The names afterwards are the new names of the names before, one by one. -/
  names : namesIn t' = (namesIn t).map new
  short : ∀ a ∈ namesIn t, isLong threshold a = false → new a = a
  /-- A new name is like no name that stood in the tree. -/
  fresh : ∀ a ∈ namesIn t, isLong threshold a = true → ∀ b ∈ namesIn t, lower (new a) ≠ lower b
  /-- Two names are the same afterwards if they were the same before, and both or neither were long. -/
  same_iff : ∀ a ∈ namesIn t, ∀ b ∈ namesIn t,
    lower (new a) = lower (new b) ↔ lower a = lower b ∧ isLong threshold a = isLong threshold b
  /-- Without the one letter that grows in lower case, they are the same exactly if they were. -/
  same_iff_of_undotted : ∀ a ∈ namesIn t, ∀ b ∈ namesIn t, 'İ' ∉ a.toList → 'İ' ∉ b.toList →
    (lower (new a) = lower (new b) ↔ lower a = lower b)

theorem newName_same_iff {threshold : Nat} {t : Tree} {memory : Memory} {a b : String}
    (hmemory : (renameLongNames threshold {} t).2 = memory) (ha : a ∈ namesIn t) (hb : b ∈ namesIn t) :
    lower (newName threshold memory a) = lower (newName threshold memory b) ↔
      lower a = lower b ∧ isLong threshold a = isLong threshold b := by
  have hchosen : Chosen ((namesIn t).map lower) memory := hmemory ▸ Chosen.rename threshold t
  have hlong {name : String} (hname : name ∈ namesIn t) (hlong : isLong threshold name = true) :
      ∃ n, replacement? memory name = some (generatedName n) ∧
        lower (newName threshold memory name) = generatedName n := by
    obtain ⟨n, -, hnew, heq⟩ := newName_of_long Generated.start hname hlong
    rw [hmemory] at hnew heq
    exact ⟨n, hnew, heq ▸ lower_generatedName n⟩
  have hmem {name : String} (hname : name ∈ namesIn t) : lower name ∈ (namesIn t).map lower :=
    List.mem_map_of_mem hname
  cases hla : isLong threshold a with
  | true =>
    obtain ⟨m, hm, hnewa⟩ := hlong ha hla
    cases hlb : isLong threshold b with
    | true =>
      obtain ⟨n, hn, hnewb⟩ := hlong hb hlb
      rw [hnewa, hnewb, eq_self, and_true]
      refine ⟨fun heq => hchosen.lower_eq hm (heq ▸ hn), fun heq => ?_⟩
      exact Option.some.inj (hm.symm.trans ((replacement?_congr heq).trans hn))
    | false =>
      rw [hnewa, newName_of_short hlb]
      refine iff_of_false (fun heq => hchosen.not_mem hm (heq ▸ hmem hb)) (by simp)
  | false =>
    rw [newName_of_short hla]
    cases hlb : isLong threshold b with
    | true =>
      obtain ⟨n, hn, hnewb⟩ := hlong hb hlb
      rw [hnewb]
      refine iff_of_false (fun heq => hchosen.not_mem hn (heq ▸ hmem ha)) (by simp)
    | false => rw [newName_of_short hlb, eq_self, and_true]

end Simplify

/-- One call of the rule on any tree, with nothing remembered, replaces long names by names that no
other name of the tree is or becomes. -/
theorem Situation.renaming_injective (context : Context) (t : Tree) :
    ∃ new, IsRenaming context.settings.renameThreshold t
      ((⟨t, {}⟩ : Situation).apply context .renameLongNames).tree new := by
  obtain ⟨memory, hmemory⟩ : ∃ memory, (renameLongNames context.settings.renameThreshold {} t).2 = memory :=
    ⟨_, rfl⟩
  have hchosen : Chosen ((namesIn t).map lower) memory :=
    hmemory ▸ Chosen.rename context.settings.renameThreshold t
  have htree : ((⟨t, {}⟩ : Situation).apply context .renameLongNames).tree =
      t.mapElements (renameElement (newName context.settings.renameThreshold memory)) :=
    hmemory ▸ renameLongNames_getD context.settings.renameThreshold {} t
  refine ⟨newName context.settings.renameThreshold memory, ?_⟩
  constructor
  case tree => exact htree
  case others => exact fun e => ⟨kind_renameElement _ e, text_renameElement _ e, fun _ => attr?_renameElement⟩
  case names => rw [htree, namesIn_mapElements (hchosen.generated.keepsSigils _)]
  case short => exact fun a _ hshort => newName_of_short hshort
  case fresh =>
    intro a ha hlong b hb heq
    obtain ⟨n, -, hnew, hname⟩ := newName_of_long Generated.start ha hlong
    rw [hmemory] at hnew hname
    refine hchosen.not_mem hnew ?_
    rw [← lower_generatedName, ← hname, heq]
    exact List.mem_map_of_mem hb
  case same_iff => exact fun a ha b hb => newName_same_iff hmemory ha hb
  case same_iff_of_undotted =>
    intro a ha b hb hdota hdotb
    rw [newName_same_iff hmemory ha hb, and_iff_left_iff_imp]
    exact fun heq => isLong_congr _ heq hdota hdotb

/-- A capital letter with a dot, and its lower case, which has two characters: only the second name is
long, and gets another name than the first. -/
theorem Situation.renaming_splits_name :
    let context : Context := { settings := { renameThreshold := 2 } }
    let names := [leaf .variableRef [("VariablePath", "İ")] none,
      leaf .variableRef [("VariablePath", "i̇")] none]
    let t := branch .scriptBlock [] [branch .namedBlock [("BlockKind", "End"), ("Unnamed", "True")]
      [branch .statements [] (names.map fun name => branch .commandExpression [] [name])]]
    let s := (⟨t, {}⟩ : Situation).apply context .renameLongNames
    namesIn t = ["İ", "i̇"] ∧ lower "İ" = lower "i̇" ∧
      namesIn s.tree = ["İ", "deob_0"] ∧ lower "İ" ≠ lower "deob_0" := by
  decide +kernel

end Unscramble
