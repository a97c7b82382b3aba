import Unscramble.Proofs.Files.Places

/-! Paths with another extension. What stands before the file name stays as it is, and the name keeps its
stem. A name of two points and an extension has no stem that could be kept: it becomes the parent
directory. -/
namespace Unscramble.Path

open Text

/-! ### Segments -/

section
variable {stop : Char → Bool} {c : Char} {part s : List Char}

theorem splitWhere_of_forall (h : ∀ c ∈ part, stop c = false) : splitWhere stop part = [part] := by
  have hpart := splitWhere_front h (s := []) rfl
  rwa [List.append_nil] at hpart

theorem splitWhere_append_cons (h : ∀ c ∈ part, stop c = false) (hc : stop c = true) (s : List Char) :
    splitWhere stop (part ++ c :: s) = part :: splitWhere stop s := by
  have hstop : splitWhere stop (c :: s) = [] :: splitWhere stop s := by rw [splitWhere, if_pos hc]
  have hpart := splitWhere_front h hstop
  rwa [List.append_nil] at hpart

theorem stop_of_mem_splitWhere (h : part ∈ splitWhere stop s) : ∀ c ∈ part, stop c = false := by
  induction s generalizing part with
  | nil =>
    obtain rfl : part = [] := List.mem_singleton.mp h
    simp
  | cons a s ih =>
    rw [splitWhere] at h
    split at h
    next =>
      rcases List.mem_cons.mp h with rfl | h
      · simp
      · exact ih h
    next ha =>
      obtain ⟨first, parts, hs⟩ := List.exists_cons_of_ne_nil (splitWhere_ne_nil stop s)
      rw [hs, pushFirst] at h
      rcases List.mem_cons.mp h with rfl | h
      · exact List.forall_mem_cons.mpr ⟨Bool.eq_false_iff.mpr ha, ih (hs ▸ List.mem_cons_self)⟩
      · exact ih (hs ▸ List.mem_cons_of_mem first h)

end

/-- What can stand between two slashes. -/
def IsSegment (part : List Char) : Prop := ∀ c ∈ part, (c == '/') = false

instance (part : List Char) : Decidable (IsSegment part) :=
  List.decidableBAll (fun c => (c == '/') = false) part

theorem isSegment_of_mem {path : String} {part : List Char} (h : part ∈ segments path) : IsSegment part :=
  stop_of_mem_splitWhere h

theorem segments_ofList {before : List (List Char)} {name : List Char} (hbefore : ∀ part ∈ before, IsSegment part)
    (hname : IsSegment name) :
    segments (String.ofList (before.flatMap (· ++ ['/']) ++ name)) = before ++ [name] := by
  rw [segments, String.toList_ofList]
  induction before with
  | nil => exact splitWhere_of_forall hname
  | cons part before ih =>
    obtain ⟨hpart, hbefore⟩ := List.forall_mem_cons.mp hbefore
    rw [List.flatMap_cons, List.append_assoc, List.append_assoc, List.singleton_append,
      splitWhere_append_cons hpart (by decide), ih hbefore, List.cons_append]

/-- The segments of a path that name something. -/
def named (path : String) : List (List Char) := (segments path).filter (!isIdle ·)

/-! ### The file name -/

section
variable {α : Type} {p : α → Bool} {l before after rest : List α} {a : α}

theorem reverse_dropWhile (before : List α) (ha : p a = false) (hafter : ∀ b ∈ after, p b = true) :
    (before ++ a :: after).reverse.dropWhile p = a :: before.reverse ∧
      (before ++ a :: after).reverse.takeWhile p = after.reverse := by
  have hback : ∀ b ∈ after.reverse, p b = true := fun b hb => hafter b (List.mem_reverse.mp hb)
  rw [List.reverse_append, List.reverse_cons, List.append_assoc, List.dropWhile_append_of_pos hback,
    List.takeWhile_append_of_pos hback]
  simp [ha]

theorem eq_append_of_reverse_dropWhile (h : l.reverse.dropWhile p = a :: rest) :
    l = rest.reverse ++ a :: (l.reverse.takeWhile p).reverse ∧ p a = false := by
  have hl : l.reverse.takeWhile p ++ a :: rest = l.reverse := h ▸ List.takeWhile_append_dropWhile
  have ha := List.head?_dropWhile_not p l.reverse
  rw [h] at ha
  refine ⟨List.reverse_injective ?_, ha⟩
  rw [← hl]
  simp [hl]

end

section
variable {path : String} {cut : Cut} {before idle : List (List Char)} {name stem extension : List Char}

theorem filter_segments (hname : isIdle name = false) (hidle : ∀ part ∈ idle, isIdle part = true) :
    (before ++ name :: idle).filter (!isIdle ·) = before.filter (!isIdle ·) ++ [name] := by
  have hdropped : idle.filter (!isIdle ·) = [] := by simpa using hidle
  rw [List.filter_append, List.filter_cons_of_pos (by simp [hname]), hdropped]

theorem cut?_of_segments (h : segments path = before ++ name :: idle) (hidle : ∀ part ∈ idle, isIdle part = true)
    (hname : isIdle name = false) (hparent : name ≠ parent) :
    cut? path = some ⟨before.flatMap (· ++ ['/']), name, idle.flatMap ('/' :: ·)⟩ := by
  obtain ⟨hdrop, htake⟩ := reverse_dropWhile before hname hidle
  rw [← h] at hdrop htake
  simp only [cut?, hdrop, htake, if_neg hparent, List.reverse_reverse]

theorem exists_of_cut? (h : cut? path = some cut) :
    ∃ before idle, segments path = before ++ cut.name :: idle ∧ (∀ part ∈ idle, isIdle part = true) ∧
      isIdle cut.name = false ∧ cut.name ≠ parent ∧ cut.directory = before.flatMap (· ++ ['/']) := by
  simp only [cut?] at h
  split at h
  next => cases h
  next name before hdrop =>
    split at h
    next => cases h
    next hparent =>
      cases h
      obtain ⟨hsegments, hname⟩ := eq_append_of_reverse_dropWhile hdrop
      exact ⟨before.reverse, _, hsegments, fun part hpart => List.mem_takeWhile_imp (List.mem_reverse.mp hpart),
        hname, hparent, rfl⟩

theorem plain_of_cut? (h : cut? path = some cut) : isIdle cut.name = false ∧ cut.name ≠ parent := by
  obtain ⟨_, _, -, -, hname, hparent, -⟩ := exists_of_cut? h
  exact ⟨hname, hparent⟩

/-- A name is cut at its last point, if that is not its first character. -/
theorem dotted?_eq_some :
    dotted? name = some (stem, extension) ↔ name = stem ++ '.' :: extension ∧ stem ≠ [] ∧ '.' ∉ extension := by
  constructor
  · intro h
    simp only [dotted?] at h
    split at h
    next => cases h
    next point front hdrop =>
      split at h
      next => cases h
      next hfront =>
        cases h
        obtain ⟨hname, hpoint⟩ := eq_append_of_reverse_dropWhile hdrop
        obtain rfl : point = '.' := by simpa using hpoint
        refine ⟨hname, by simpa using hfront, fun hmem => ?_⟩
        have := List.mem_takeWhile_imp (List.mem_reverse.mp hmem)
        simp at this
  · rintro ⟨rfl, hstem, hpoint⟩
    have hall : ∀ c ∈ extension, (c != '.') = true := fun c hc => by
      simpa using fun heq : c = '.' => hpoint (heq ▸ hc)
    have hpoint : ('.' != '.') = false := by decide
    obtain ⟨hdrop, htake⟩ := reverse_dropWhile (p := (· != '.')) stem hpoint hall
    simp only [dotted?, hdrop, htake, List.reverse_eq_nil_iff, if_neg hstem, List.reverse_reverse]

end

/-! ### Another extension -/

/-- A file name without its extension. -/
def stem (name : List Char) : List Char := ((dotted? name).map (·.1)).getD name

/-- The name of two points and an extension, with nothing behind it. -/
def Cut.losesName (cut : Cut) : Bool := stem cut.name == ['.'] && cut.tail == []

section
variable {path extension : String} {cut : Cut} {name : List Char}

theorem stem_eq_or (name : List Char) :
    dotted? name = none ∧ stem name = name ∨
      ∃ extension, dotted? name = some (stem name, extension) := by
  cases h : dotted? name with
  | none => exact .inl ⟨rfl, by simp [stem, h]⟩
  | some pair => exact .inr ⟨pair.2, by simp [stem, h]⟩

theorem exists_name_eq_stem (name : List Char) : ∃ ending, name = stem name ++ ending := by
  rcases stem_eq_or name with ⟨-, h⟩ | ⟨ending, h⟩
  · exact ⟨[], by rw [h, List.append_nil]⟩
  · exact ⟨_, (dotted?_eq_some.mp h).1⟩

theorem stem_ne_nil (h : isIdle name = false) : stem name ≠ [] := by
  rcases stem_eq_or name with ⟨-, hstem⟩ | ⟨ending, hdotted⟩
  · rw [hstem]
    rintro rfl
    cases h
  · exact (dotted?_eq_some.mp hdotted).2.1

/-- The new file name. -/
def Cut.renamed (cut : Cut) (extension : String) : List Char :=
  if cut.losesName then parent else stem cut.name ++ '.' :: extension.toList

theorem withExtension_eq (h : cut? path = some cut) :
    withExtension extension path = String.ofList (cut.directory ++ cut.renamed extension) := by
  simp only [withExtension, h]
  rcases stem_eq_or cut.name with ⟨hdotted, hstem⟩ | ⟨ending, hdotted⟩
  · have hname : cut.name ≠ ['.'] := fun heq => nomatch heq ▸ (plain_of_cut? h).1
    have hkept : cut.losesName = false := by simp [Cut.losesName, hstem, hname]
    rw [Cut.renamed, hkept, if_neg Bool.false_ne_true, hdotted, hstem]
  · have hlost : (stem cut.name = ['.'] ∧ cut.tail = []) ↔ cut.losesName = true := by simp [Cut.losesName]
    simp only [hdotted, decide_eq_true_eq, Bool.and_eq_true, hlost, Cut.renamed]

theorem isSegment_renamed (hname : IsSegment cut.name) (hextension : IsSegment extension.toList) :
    IsSegment (cut.renamed extension) := by
  rw [Cut.renamed]
  split
  · decide
  · obtain ⟨ending, hstem⟩ := exists_name_eq_stem cut.name
    rw [hstem] at hname
    refine List.forall_mem_append.mpr ⟨fun c hc => hname c (List.mem_append_left _ hc), ?_⟩
    exact List.forall_mem_cons.mpr ⟨by decide, hextension⟩

/-- A stem, the point and an extension are too long for an idle segment and for the parent directory. -/
theorem length_stem_extension (hname : isIdle cut.name = false) (hne : extension ≠ "") :
    3 ≤ (stem cut.name ++ '.' :: extension.toList).length := by
  have hstem := List.length_pos_iff.mpr (stem_ne_nil hname)
  have hextension := List.length_pos_iff.mpr (fun h => hne (String.toList_eq_nil_iff.mp h))
  simp only [List.length_append, List.length_cons]
  omega

theorem isIdle_eq_false_of_length {part : List Char} (h : 2 ≤ part.length) : isIdle part = false := by
  rw [isIdle, Bool.or_eq_false_iff, beq_eq_false_iff_ne, beq_eq_false_iff_ne]
  constructor <;> rintro rfl <;> simp at h

theorem isIdle_renamed (hname : isIdle cut.name = false) (hne : extension ≠ "") :
    isIdle (cut.renamed extension) = false := by
  rw [Cut.renamed]
  split
  · decide
  · exact isIdle_eq_false_of_length (Nat.le_of_succ_le (length_stem_extension hname hne))

/-- A path and the same with another extension, in segments. -/
theorem exists_segments_withExtension (h : cut? path = some cut) (hextension : IsSegment extension.toList) :
    ∃ before idle, segments path = before ++ cut.name :: idle ∧ (∀ part ∈ idle, isIdle part = true) ∧
      cut.directory = before.flatMap (· ++ ['/']) ∧
      segments (withExtension extension path) = before ++ [cut.renamed extension] := by
  obtain ⟨before, idle, hsegments, hidle, -, -, hdirectory⟩ := exists_of_cut? h
  have hsegment : ∀ part ∈ before ++ cut.name :: idle, IsSegment part := fun part hpart =>
    isSegment_of_mem (hsegments ▸ hpart)
  have hnew : IsSegment (cut.renamed extension) := isSegment_renamed (hsegment _ (by simp)) hextension
  refine ⟨before, idle, hsegments, hidle, hdirectory, ?_⟩
  rw [withExtension_eq h, hdirectory]
  exact segments_ofList (fun part hpart => hsegment part (List.mem_append_left _ hpart)) hnew

/-- A path with another extension has the name of the old stem and that extension, behind what stood in
front of the old name. -/
theorem cut?_withExtension (h : cut? path = some cut) (hname : cut.losesName = false)
    (hextension : IsSegment extension.toList) (hne : extension ≠ "") :
    cut? (withExtension extension path) =
        some ⟨cut.directory, stem cut.name ++ '.' :: extension.toList, []⟩ ∧
      ∃ outer, named path = outer ++ [cut.name] ∧
        named (withExtension extension path) = outer ++ [stem cut.name ++ '.' :: extension.toList] := by
  obtain ⟨before, idle, hsegments, hidle, hdirectory, hsegments'⟩ := exists_segments_withExtension h hextension
  obtain ⟨hplain, -⟩ := plain_of_cut? h
  have hnew := isIdle_renamed hplain hne
  have hrenamed : cut.renamed extension = stem cut.name ++ '.' :: extension.toList := by
    rw [Cut.renamed, hname, if_neg Bool.false_ne_true]
  rw [hrenamed] at hsegments' hnew
  have hparent : stem cut.name ++ '.' :: extension.toList ≠ parent := by
    intro heq
    have hlong := length_stem_extension hplain hne
    rw [heq] at hlong
    simp [parent] at hlong
  refine ⟨?_, before.filter (!isIdle ·), ?_, ?_⟩
  · rw [cut?_of_segments hsegments' (by simp) hnew hparent, hdirectory]
    rfl
  · rw [named, hsegments, filter_segments hplain hidle]
  · rw [named, hsegments', filter_segments hnew (by simp)]

end

/-! ### Where a path with another extension leads -/

section
variable {path : String} {before idle : List (List Char)} {name : List Char}

/-- A path starts at the root if its first segment is empty, with more to follow. -/
theorem isAbsolute_of_segments (h : segments path = before ++ name :: idle) (hname : name ≠ []) :
    isAbsolute path = (before.head? == some []) := by
  rw [segments] at h
  rw [isAbsolute]
  cases hpath : path.toList with
  | nil =>
    rw [hpath] at h
    cases before with
    | nil => exact absurd (List.cons.inj h).1.symm hname
    | cons part before => cases before <;> cases h
  | cons c rest =>
    rw [hpath, splitWhere] at h
    split at h
    next hc =>
      obtain rfl := beq_iff_eq.mp hc
      cases before with
      | nil => exact absurd (List.cons.inj h).1.symm hname
      | cons part before => rw [← (List.cons.inj h).1]; rfl
    next hc =>
      obtain ⟨part, parts, hs⟩ := List.exists_cons_of_ne_nil (splitWhere_ne_nil (· == '/') rest)
      rw [hs, pushFirst] at h
      have hfalse : (some c == some '/') = false := by simpa using hc
      cases before with
      | nil => exact hfalse
      | cons part before => rw [← (List.cons.inj h).1]; exact hfalse

end
end Unscramble.Path

namespace Unscramble.Files

open Unscramble.Path

variable {files : Files} {location : Location} {segments more : List (List Char)}

theorem stopFrom_append (location : Location) (segments more : List (List Char)) :
    files.stopFrom location (segments ++ more) = files.stopFrom (files.stopFrom location segments) more := by
  induction segments generalizing location with
  | nil => rfl
  | cons segment rest ih =>
    rw [List.cons_append, stopFrom, stopFrom]
    cases hdirectory : files.isDirectory location with
    | false => exact (stopFrom_of_not_directory hdirectory more).symm
    | true =>
      rw [Bool.not_true, if_neg Bool.false_ne_true, if_neg Bool.false_ne_true]
      split <;> exact ih _

/-- Only a directory leads on. -/
theorem isDirectory_of_follow {segment : List Char} {found : Location}
    (h : files.follow location (segments ++ [segment]) = .ok found) :
    files.isDirectory (files.stopFrom location (segments.filter (!isIdle ·))) = true := by
  induction segments generalizing location with
  | nil =>
    rw [List.nil_append, follow] at h
    split at h
    next => cases h
    next hdirectory => simpa [stopFrom] using hdirectory
  | cons first rest ih =>
    rw [List.cons_append, follow] at h
    split at h
    next => cases h
    next hdirectory =>
      split at h
      next hidle =>
        rw [List.filter_cons_of_neg (by simp [hidle])]
        exact ih h
      next hidle =>
        rw [List.filter_cons_of_pos (by simp [hidle]), stopFrom, if_neg hdirectory]
        split at h
        next hparent => rw [if_pos hparent]; exact ih h
        next hparent =>
          split at h
          next => cases h
          next => rw [if_neg hparent]; exact ih h

/-- What can be written under another extension is in another place. -/
theorem stop_withExtension_ne {path extension : String} {cut : Cut} (h : cut? path = some cut)
    (hextension : IsSegment extension.toList) (hne : extension ≠ "")
    (hname : cut.renamed extension ≠ cut.name)
    (hrefusal : files.refusal? (withExtension extension path) = none) :
    files.stop (withExtension extension path) ≠ files.stop path := by
  obtain ⟨before, idle, hsegments, hidle, -, hsegments'⟩ := exists_segments_withExtension h hextension
  obtain ⟨hplain, hparent⟩ := plain_of_cut? h
  have hplain' := isIdle_renamed hplain hne
  have hne_nil {part : List Char} (hpart : isIdle part = false) : part ≠ [] := by
    rintro rfl
    cases hpart
  have habsolute := isAbsolute_of_segments hsegments (hne_nil hplain)
  have habsolute' := isAbsolute_of_segments hsegments' (hne_nil hplain')
  obtain ⟨hlocate, -⟩ := locate_of_refusal? hrefusal
  rw [locate] at hlocate
  simp only [ite_eq_iff, reduceCtorEq, and_false, false_or] at hlocate
  obtain ⟨-, -, -, hfollow⟩ := hlocate
  rw [hsegments'] at hfollow
  have hdirectory := isDirectory_of_follow hfollow
  rw [stop, stop, hsegments, hsegments', habsolute', ← habsolute, filter_segments hplain hidle,
    filter_segments hplain' (by simp), stopFrom_append, stopFrom_append]
  rw [habsolute', ← habsolute] at hdirectory
  -- both are looked for in one directory, where the old name is found under itself
  generalize files.stopFrom _ (before.filter _) = directory at hdirectory ⊢
  simp only [stopFrom, hdirectory, if_neg hparent]
  simp only [Bool.not_true, Bool.false_eq_true, if_false]
  split
  · intro heq
    have hlength := congrArg List.length heq
    simp at hlength
  · intro heq
    exact hname (List.cons.inj heq).1

end Unscramble.Files
