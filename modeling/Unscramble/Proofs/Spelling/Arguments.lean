import Unscramble.Proofs.Convergence
import Unscramble.Proofs.Rewriting.Outermost
import Unscramble.Proofs.Text.Quoting

/-! What the rules about spelling do to the data that commands get. An argument that is a string may lose
quotes that it does not need, and known words and drives in a bareword get their usual spelling. So an
argument stays the same but for the case of ASCII letters, and all of it stays while it is quoted. -/
namespace Unscramble

open Text Vocabulary Simplify Unscramble.Tree

/-! ### Texts -/

/-- The texts that an argument can have after it was put in other spellings. -/
def spellingsOf (s : String) : List String :=
  [s, lowered s, canonicalCase s, lowered (canonicalCase s), canonicalCase (lowered s)]

section
variable {s word : String}

theorem lowered_lowered (s : String) : lowered (lowered s) = lowered s := by
  cases h : lowerDrive? s with
  | none => rw [lowered_of_none h, lowered_of_none h]
  | some new => rw [show lowered s = new by rw [lowered, h, Option.getD_some],
      lowered_of_none (lowerDrive?_lowered h)]

theorem lowerDrive?_of_lowered (s : String) : lowerDrive? (lowered s) = none := by
  cases h : lowerDrive? s with
  | none => rw [lowered_of_none h, h]
  | some new => rw [lowered, h, Option.getD_some, lowerDrive?_lowered h]

theorem lowered_same (s : String) : sameIgnoringCase (lowered s) s = true := by
  cases h : lowerDrive? s with
  | none => rw [lowered_of_none h]; exact sameIgnoringCase_iff.mpr .rfl
  | some new => rw [lowered, h, Option.getD_some]; exact lowerDrive?_same h

theorem mem_spellingsOf :
    word ∈ spellingsOf s ↔ word = s ∨ word = lowered s ∨ word = canonicalCase s ∨
      word = lowered (canonicalCase s) ∨ word = canonicalCase (lowered s) := by
  simp [spellingsOf]

/-- The drive in lower case in front of a usual spelling is the last thing to be done. -/
theorem lowered_mem_spellingsOf (h : word ∈ spellingsOf s) : lowered word ∈ spellingsOf s := by
  rw [mem_spellingsOf] at h ⊢
  rcases h with rfl | rfl | rfl | rfl | rfl
  · simp
  · simp [lowered_lowered]
  · simp
  · simp [lowered_lowered]
  · have hquiet := lowerDrive?_canonicalCase (lowerDrive?_of_lowered s)
    simp [lowered_of_none hquiet]

theorem canonicalCase_mem_spellingsOf (h : word ∈ spellingsOf s) : canonicalCase word ∈ spellingsOf s := by
  rw [mem_spellingsOf] at h ⊢
  rcases h with rfl | rfl | rfl | rfl | rfl
  · simp
  · simp
  · simp [canonicalCase_idem]
  · simp [canonicalCase_lowered]
  · simp [canonicalCase_idem]

theorem same_of_mem_spellingsOf (h : word ∈ spellingsOf s) : sameIgnoringCase word s = true := by
  rw [mem_spellingsOf] at h
  have htrans {a b c : String} (hab : sameIgnoringCase a b = true) (hbc : sameIgnoringCase b c = true) :
      sameIgnoringCase a c = true := by
    rw [sameIgnoringCase_iff] at *
    exact hab.trans hbc
  rcases h with rfl | rfl | rfl | rfl | rfl
  · exact sameIgnoringCase_iff.mpr .rfl
  · exact lowered_same s
  · exact canonicalCase_same s
  · exact htrans (lowered_same _) (canonicalCase_same s)
  · exact htrans (canonicalCase_same _) (lowered_same s)

/-- A text in its usual spelling has no other. -/
theorem eq_of_mem_spellingsOf (h : word ∈ spellingsOf s) (hdrive : lowerDrive? s = none)
    (hcase : canonicalCase s = s) : word = s := by
  have hlowered := lowered_of_none hdrive
  simpa [spellingsOf, hlowered, hcase] using h

end

/-! ### Barewords as they are written -/

namespace Quoting

/-- Case makes no difference to how a character is written in a bareword. -/
theorem escapeChar_toLower (c : Char) :
    bareWord.escapeChar c.toLower = [c.toLower] ↔ bareWord.escapeChar c = [c] := by
  have htable : ∀ n < 128, (bareWord.escapeChar (Char.ofNat n).toLower = [(Char.ofNat n).toLower] ↔
      bareWord.escapeChar (Char.ofNat n) = [Char.ofNat n]) := by
    decide +kernel
  by_cases h : c.toNat < 128
  · simpa using htable c.toNat h
  · rw [toLower_of_not_ascii (Nat.not_lt.mp h)]

theorem length_escapeChar (c : Char) : bareWord.escapeChar c = [c] ∨ 2 ≤ (bareWord.escapeChar c).length := by
  simp only [escapeChar, escapeControl]
  split
  · simp
  · split <;> simp

theorem escape_eq_self_iff {s : List Char} :
    bareWord.escape s = s ↔ ∀ c ∈ s, bareWord.escapeChar c = [c] := by
  have hlength (s : List Char) : s.length ≤ (bareWord.escape s).length := by
    induction s with
    | nil => exact Nat.zero_le _
    | cons c s ih =>
      rw [escape, List.flatMap_cons, List.length_append, List.length_cons]
      rcases length_escapeChar c with h | h
      · rw [h, List.length_singleton, Nat.add_comm]
        exact Nat.add_le_add_left ih 1
      · exact Nat.add_comm s.length 1 ▸ Nat.add_le_add (Nat.le_of_succ_le h) ih
  induction s with
  | nil => simp [escape]
  | cons c s ih =>
    rw [List.forall_mem_cons]
    constructor
    · intro h
      rcases length_escapeChar c with hc | hc
      · refine ⟨hc, ih.mp ?_⟩
        rw [escape, List.flatMap_cons, hc] at h
        exact (List.cons.inj h).2
      · have hall := congrArg List.length h
        have hrest := hlength s
        rw [escape, List.flatMap_cons, List.length_append, List.length_cons] at hall
        rw [escape] at hrest
        omega
    · rintro ⟨hc, h⟩
      rw [escape, List.flatMap_cons, hc, List.singleton_append]
      exact congrArg (c :: ·) (ih.mpr h)

/-- What is written as it is, is so in other cases too. -/
theorem escape_congr {s t : List Char} (h : SameText s t) (hs : bareWord.escape s = s) :
    bareWord.escape t = t := by
  rw [escape_eq_self_iff] at hs ⊢
  intro c hc
  have hlower : c.toLower ∈ s.map Char.toLower := by
    rw [show s.map Char.toLower = t.map Char.toLower from h]
    exact List.mem_map_of_mem hc
  obtain ⟨d, hd, heq⟩ := List.mem_map.mp hlower
  rw [← escapeChar_toLower, ← heq, escapeChar_toLower]
  exact hs d hd

end Quoting

/-! ### One rule -/

/-- What one rule can make of an argument of a command that is a string. -/
inductive Restyled (t : Tree) : Element → Prop
  | same : Restyled t t.element
  | drive : t.isBareword = true → Restyled t (withText t (lowered t.payload))
  | case : t.isBareword = true → Restyled t (withText t (canonicalCase t.payload))
  | unquoted : isQuoted t = true → isPlainWord t.payload = true → (bareword? t.payload).isSome = true →
      Restyled t (asBareword t)

section
variable {threshold : Nat} {memory : Memory} {above t : Tree} {i : Nat} {f : Respelling}

theorem prefixCaseOf_restyled {place : Option (Tree × Nat)} {e : Element} (ht : t.kind = .stringConstant)
    (h : prefixCaseOf place t = some e) : Restyled t e := by
  cases prefixCaseOf_spells 0 _ _ _ h with
  | @drive _ new hbare hnew =>
    have hlowered : lowered t.payload = new := by rw [lowered, hnew, Option.getD_some]
    exact hlowered ▸ .drive hbare
  | path hpath => cases ht.symm.trans (kind_of_variablePath? hpath).1

theorem commandBarewordOf_restyled {e : Element} (hi : 0 < i)
    (h : commandBarewordOf (some (above, i)) t = some e) : Restyled t e := by
  have hlater : (i == 0) = false := beq_eq_false_iff_ne.mpr hi.ne'
  simp only [commandBarewordOf, hlater, Bool.false_or, Option.ite_none_right_eq_some, Bool.and_eq_true,
    Option.some.injEq] at h
  obtain ⟨⟨⟨⟨-, hquoted⟩, hplain⟩, hknown⟩, rfl⟩ := h
  exact .unquoted hquoted hplain hknown

/-- Three of the rules about spelling have something to say about such an argument; the others are for
members, for the name of the command, for variables and for types. -/
theorem restyled_of_recasings (hf : f ∈ recasings) (habove : above.kind = .commandElements) (hi : 0 < i)
    (ht : t.kind = .stringConstant) : Restyled t ((f (some (above, i)) t).getD t.element) := by
  have his (k : Kind) (hk : k ≠ .commandElements) : above.is k = false := by
    rw [Tree.is, habove]
    exact beq_eq_false_iff_ne.mpr hk.symm
  cases h : f (some (above, i)) t with
  | none => exact .same
  | some e =>
    rw [Option.getD_some]
    simp only [recasings, List.mem_cons, List.not_mem_nil, or_false] at hf
    rcases hf with rfl | rfl | rfl | rfl | rfl | rfl | rfl | rfl
    · exact prefixCaseOf_restyled ht h
    · cases barewordCaseOf_spells 0 _ _ _ h with
      | case hbare => exact .case hbare
    · simp [memberCaseOf, isMember, his] at h
    · exact commandBarewordOf_restyled hi h
    · simp [aliasToCmdletOf, isCommandName, hi.ne'] at h
    · cases specialVariableCaseOf_spells 0 _ _ _ h with
      | special hpath => cases ht.symm.trans (kind_of_variablePath? hpath).1
    · simp [typeConstraintOf, resolvedType?, his] at h
    · cases typeNameCaseOf_spells 0 _ _ _ h with
      | type hkind => rcases hkind with hkind | hkind <;> cases ht.symm.trans hkind

theorem restyled_of_renaming (ht : t.kind = .stringConstant) :
    Restyled t ((renamedElement? threshold memory t.element).getD t.element) := by
  have hkey : nameKey? t.element.kind = none := by
    rw [show t.element.kind = .stringConstant from ht]
    rfl
  rw [renamedElement?, hkey]
  exact .same

end

/-! ### Any number of rules -/

/-- What is left of an argument that is a string. -/
structure KeptArgument (t t' : Tree) : Prop where
  kind : t'.kind = t.kind
  text : t'.payload ∈ spellingsOf t.payload
  /-- Texts change in barewords only. -/
  whole : t'.isBareword = false → t'.element = t.element
  /-- Quotes are all that goes, and only around known words that need none. -/
  attributes : t'.element.attributes = t.element.attributes ∨
    isQuoted t = true ∧ isPlainWord t.payload = true ∧ (bareword? t.payload).isSome = true ∧
      t'.element.attributes = (asBareword t).attributes

theorem quoting?_congr {t t' : Tree} (hkind : t'.kind = t.kind)
    (hattributes : t'.element.attributes = t.element.attributes) : t'.quoting? = t.quoting? := by
  have his : t'.is .stringConstant = t.is .stringConstant := by rw [Tree.is, Tree.is, hkind]
  have hattr : t'.attr? "StringConstantType" = t.attr? "StringConstantType" :=
    congrArg (Attributes.get? · "StringConstantType") hattributes
  rw [quoting?, quoting?, his, hattr]

theorem isBareword_congr {t t' : Tree} (hkind : t'.kind = t.kind)
    (hattributes : t'.element.attributes = t.element.attributes) : t'.isBareword = t.isBareword := by
  rw [isBareword, isBareword, quoting?_congr hkind hattributes]

theorem isQuoted_congr {t t' : Tree} (hkind : t'.kind = t.kind)
    (hattributes : t'.element.attributes = t.element.attributes) : isQuoted t' = isQuoted t := by
  rw [isQuoted, isQuoted, isBareword_congr hkind hattributes, quoting?_congr hkind hattributes]

theorem not_isBareword_of_isQuoted {t : Tree} (h : isQuoted t = true) : t.isBareword = false := by
  simpa using (Bool.and_eq_true_iff.mp h).2

namespace KeptArgument

variable {t t' : Tree} {e : Element}

theorem refl (t : Tree) : KeptArgument t t where
  kind := rfl
  text := List.mem_cons_self
  whole := fun _ => rfl
  attributes := .inl rfl

/-- A bareword may get another of the texts. -/
theorem word (h : KeptArgument t t') (hbare : t'.isBareword = true) {new : String}
    (hnew : new ∈ spellingsOf t.payload) (cs : List Tree) :
    KeptArgument t (.node (withText t' new) cs) where
  kind := h.kind
  text := hnew
  whole hquoted := by
    have hsame : (node (withText t' new) cs).isBareword = t'.isBareword := isBareword_congr rfl rfl
    cases hquoted.symm.trans (hsame.trans hbare)
  attributes := h.attributes

theorem step (h : KeptArgument t t') (hstep : Restyled t' e) (cs : List Tree) :
    KeptArgument t (.node e cs) := by
  cases hstep with
  | same => exact ⟨h.kind, h.text, fun hquoted => h.whole hquoted, h.attributes⟩
  | drive hbare => exact h.word hbare (lowered_mem_spellingsOf h.text) cs
  | case hbare => exact h.word hbare (canonicalCase_mem_spellingsOf h.text) cs
  | unquoted hquoted hplain hknown =>
    -- nothing has happened to an argument that is still quoted
    have helement : t'.element = t.element := h.whole (not_isBareword_of_isQuoted hquoted)
    have hpayload : t'.payload = t.payload := congrArg Element.payload helement
    have hbare := isBareword_asBareword hquoted t'.element.text cs
    refine ⟨h.kind, h.text, fun hnone => ?_, .inr ⟨?_, hpayload ▸ hplain, hpayload ▸ hknown, ?_⟩⟩
    · cases hbare.symm.trans hnone
    · rw [← isQuoted_congr h.kind (congrArg Element.attributes helement)]
      exact hquoted
    · rw [element_node, asBareword, asBareword, helement]

theorem same (h : KeptArgument t t') : sameIgnoringCase t'.payload t.payload = true :=
  same_of_mem_spellingsOf h.text

/-- A word that has lost its quotes is written without any, and is read as what is written. -/
theorem readBack (h : KeptArgument t t') (hquotes : t'.element.attributes ≠ t.element.attributes) :
    Quoting.bareWord.escape t'.payload.toList = t'.payload.toList ∧
      Quoting.bareWord.unescape t'.payload.toList = t'.payload.toList := by
  obtain hsame | ⟨-, hplain, -⟩ := h.attributes
  · exact absurd hsame hquotes
  have hwritten : Quoting.bareWord.escape t.payload.toList = t.payload.toList := by
    simpa using (Bool.and_eq_true_iff.mp hplain).2
  have hescape := Quoting.escape_congr (sameIgnoringCase_iff.mp h.same).symm hwritten
  refine ⟨hescape, ?_⟩
  have hread := Quoting.unescape_escape .bareWord t'.payload.toList
  rwa [hescape] at hread

/-- Quoted data that is no known word stays as it is, with its quotes. -/
theorem eq_of_unknown (h : KeptArgument t t') (hquoted : isQuoted t = true)
    (hunknown : bareword? t.payload = none) : t'.element = t.element := by
  obtain hsame | ⟨-, -, hknown, -⟩ := h.attributes
  · refine h.whole (not_isBareword_of_isQuoted ?_)
    rwa [isQuoted_congr h.kind hsame]
  · rw [hunknown] at hknown
    cases hknown

end KeptArgument

/-! ### Places -/

section
variable {f : Respelling} {t u : Tree}

/-- A path leads to what was respelled where it led before. -/
theorem at?_respelled {p : List Nat} (h : t.at? p = some u) : ∀ above, ∃ above',
    (respelled f above t).at? p = some (respelled f above' u) := by
  induction p generalizing t with
  | nil =>
    cases h
    exact fun above => ⟨above, rfl⟩
  | cons i p ih =>
    intro above
    obtain ⟨e, cs⟩ := t
    obtain ⟨c, hc, hpath⟩ := Option.bind_eq_some_iff.mp h
    obtain ⟨above', hfound⟩ := ih hpath (some (.node e cs, i))
    refine ⟨above', ?_⟩
    have hchild : cs[i]? = some c := hc
    rw [respelled_node, at?, children_node, List.getElem?_mapIdx, hchild, Option.map_some, Option.bind_some, hfound]

end

namespace Situation

variable {rule : Rule} {s : Situation} {p : List Nat} {list t t' : Tree} {i : Nat}

theorem apply_argument (context : Context) (hrule : rule ∈ spellingRules) (hlist : s.tree.at? p = some list)
    (hkind : list.kind = .commandElements) (hi : 0 < i) (hchild : list.children[i]? = some t')
    (hstring : t.kind = .stringConstant) (h : KeptArgument t t') :
    ∃ list', (s.apply context rule).tree.at? p = some list' ∧ list'.kind = .commandElements ∧
      ∃ t'', list'.children[i]? = some t'' ∧ KeptArgument t t'' := by
  obtain ⟨e, cs⟩ := list
  obtain ⟨e', cs'⟩ := t'
  -- both kinds of rules respell the tree
  obtain ⟨f, r, hf, htree, hstep⟩ : ∃ f r, SpellsBy context.settings.renameThreshold r f ∧
      (s.apply context rule).tree = respelled f none s.tree ∧
      Restyled (.node e' cs') ((f (some (.node e cs, i)) (.node e' cs')).getD e') := by
    have hkind' : Tree.kind (.node e' cs') = .stringConstant := h.kind.trans hstring
    rcases recasing_or_renaming context.settings.renameThreshold hrule with ⟨f, hf⟩ | rfl
    · refine ⟨f, rule, hf.spells, by rw [apply_eq, hf.apply]; rfl, ?_⟩
      exact restyled_of_recasings hf.mem hkind hi hkind'
    · exact ⟨_, _, renamedElement?_spells _ _, rfl, restyled_of_renaming hkind'⟩
  obtain ⟨above, hfound⟩ := at?_respelled (f := f) hlist none
  refine ⟨_, htree ▸ hfound, ?_, respelled f (some (.node e cs, i)) (.node e' cs'), ?_, ?_⟩
  · rw [respelled_node]
    exact (hf.alike above (.node e cs)).kind.trans hkind
  · have hchild : cs[i]? = some (.node e' cs') := hchild
    rw [respelled_node, children_node, List.getElem?_mapIdx, hchild, Option.map_some]
  · rw [respelled_node]
    exact h.step hstep _

theorem run_argument {rules : List Rule} (context : Context) (hrules : ∀ rule ∈ rules, rule ∈ spellingRules)
    (hlist : s.tree.at? p = some list) (hkind : list.kind = .commandElements) (hi : 0 < i)
    (hchild : list.children[i]? = some t') (hstring : t.kind = .stringConstant) (h : KeptArgument t t') :
    ∃ t'', (s.run context rules).tree.at? (p ++ [i]) = some t'' ∧ KeptArgument t t'' := by
  induction rules generalizing s list t' with
  | nil => exact ⟨t', by rw [at?_child]; exact hlist ▸ hchild, h⟩
  | cons rule rules ih =>
    obtain ⟨hrule, hrules⟩ := List.forall_mem_cons.mp hrules
    obtain ⟨list', hlist', hkind', t'', hchild', h'⟩ :=
      apply_argument context hrule hlist hkind hi hchild hstring h
    exact ih hrules hlist' hkind' hchild' h'

/-- In whatever order the rules about spelling are applied, the argument of a command that is a string
stays a string and keeps its text but for the case of ASCII letters. It keeps every character if the text is
in its usual spelling, and all of its element if it is quoted and no known word. Quotes go from known words
only, which are then read as they are written. -/
theorem run_keeps_arguments {rules : List Rule} (context : Context) (hrules : ∀ rule ∈ rules, rule ∈ spellingRules)
    (hlist : s.tree.at? p = some list) (hkind : list.kind = .commandElements) (hi : 0 < i)
    (hchild : list.children[i]? = some t) (hstring : t.kind = .stringConstant) :
    ∃ t', (s.run context rules).tree.at? (p ++ [i]) = some t' ∧ KeptArgument t t' ∧
      sameIgnoringCase t'.payload t.payload = true ∧
      (lowerDrive? t.payload = none → canonicalCase t.payload = t.payload → t'.payload = t.payload) ∧
      (isQuoted t = true → bareword? t.payload = none → t'.element = t.element) ∧
      (t'.element.attributes ≠ t.element.attributes →
        Quoting.bareWord.escape t'.payload.toList = t'.payload.toList ∧
          Quoting.bareWord.unescape t'.payload.toList = t'.payload.toList) := by
  obtain ⟨t', hfound, h⟩ :=
    run_argument context hrules hlist hkind hi hchild hstring (.refl t)
  exact ⟨t', hfound, h, h.same, eq_of_mem_spellingsOf h.text, h.eq_of_unknown, h.readBack⟩

/-- A command with one argument. -/
def withArgument (quoting text : String) : Situation where
  tree := branch .command [] [branch .commandElements []
    [leaf .variableRef [("VariablePath", "f")] none,
      leaf .stringConstant [("StringConstantType", quoting)] (some text)]]

/-- Quoted data with a known word in it, which stays. -/
theorem run_keeps_arguments_quoted :
    let data := leaf .stringConstant [("StringConstantType", "SingleQuoted")] (some "to: path")
    ∃ t', (run shortNames [.commandBareword, .barewordCase, .prefixCase]
      (withArgument "SingleQuoted" "to: path")).tree.at? [0, 1] = some t' ∧ t'.element = data.element := by
  intro data
  have hrules : ∀ rule ∈ [Rule.commandBareword, .barewordCase, .prefixCase], rule ∈ spellingRules := by decide
  obtain ⟨t', hfound, -, -, -, hwhole, -⟩ := run_keeps_arguments shortNames hrules
    (s := withArgument "SingleQuoted" "to: path") (t := data) (p := [0]) (i := 1) rfl rfl Nat.one_pos rfl rfl
  have hunknown : bareword? "to: path" = none := bareword?_colon (s := "to: path".toList) (by decide)
  exact ⟨t', hfound, hwhole (by decide) hunknown⟩

/-- A known word loses its quotes, and then gets its usual spelling. -/
theorem run_recases_argument :
    ((withArgument "SingleQuoted" "add").tree.at? [0, 1]).map payload = some "add" ∧
      (((withArgument "SingleQuoted" "add").run shortNames [.commandBareword, .barewordCase]).tree.at?
        [0, 1]).map payload = some "Add" := by
  decide +kernel

end Situation
end Unscramble
