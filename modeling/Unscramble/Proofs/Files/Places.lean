import Mathlib.Data.List.TakeWhile
import Mathlib.Data.Set.Insert
import Unscramble.Files.Basic
import Unscramble.Proofs.Spelling.Recasing

/-! Where paths lead. A path is followed through directories only, and these are there from the
start, so a path comes to its end in the same place however the contents of files change; and what
is read, or refused, depends on the content in that place alone. -/
namespace Unscramble

open Text

namespace Path

theorem splitWhere_append_stop (stop : Char → Bool) {c : Char} (hc : stop c = true) (s : List Char) :
    splitWhere stop (s ++ [c]) = splitWhere stop s ++ [[]] := by
  induction s with
  | nil => simp [splitWhere, hc]
  | cons d s ih =>
    rw [List.cons_append, splitWhere, splitWhere, ih]
    split
    · rfl
    · cases hs : splitWhere stop s with
      | nil => exact absurd hs (splitWhere_ne_nil _ _)
      | cons part parts => rfl

/-- Slashes at the end only add segments that name nothing. -/
theorem splitWhere_append_slashes (s : List Char) {slashes : List Char}
    (h : ∀ c ∈ slashes, (c == '/') = true) :
    (splitWhere (· == '/') (s ++ slashes)).filter (!isIdle ·) =
      (splitWhere (· == '/') s).filter (!isIdle ·) := by
  induction slashes generalizing s with
  | nil => rw [List.append_nil]
  | cons c slashes ih =>
    obtain ⟨hc, hslashes⟩ := List.forall_mem_cons.mp h
    have hsplit := splitWhere_append_stop (· == '/') hc s
    rw [List.append_cons, ih _ hslashes, hsplit, List.filter_append]
    exact List.append_nil _

/-- A path without the slashes at its end, or the path itself if there is nothing else in it. -/
theorem withoutSlash_cases (path : String) :
    withoutSlash path = path ∨ ∃ slashes, (∀ c ∈ slashes, (c == '/') = true) ∧
      (withoutSlash path).toList ≠ [] ∧ path.toList = (withoutSlash path).toList ++ slashes := by
  unfold withoutSlash
  split
  next => exact .inl rfl
  next hne =>
    refine .inr ⟨(path.toList.reverse.takeWhile (· == '/')).reverse, fun c hc => ?_, ?_, ?_⟩
    · exact List.mem_takeWhile_imp (p := (· == '/')) (List.mem_reverse.mp hc)
    · simpa using hne
    · rw [String.toList_ofList, ← List.reverse_append, List.takeWhile_append_dropWhile,
        List.reverse_reverse]

theorem isAbsolute_withoutSlash (path : String) : isAbsolute (withoutSlash path) = isAbsolute path := by
  rcases withoutSlash_cases path with h | ⟨slashes, -, hne, h⟩
  · rw [h]
  · rw [isAbsolute, isAbsolute, h]
    cases hlist : (withoutSlash path).toList with
    | nil => exact absurd hlist hne
    | cons c rest => rfl

theorem segments_withoutSlash (path : String) : (segments (withoutSlash path)).filter (!isIdle ·) =
    (segments path).filter (!isIdle ·) := by
  rcases withoutSlash_cases path with h | ⟨slashes, hslashes, -, h⟩
  · rw [h]
  · rw [segments, segments, h, splitWhere_append_slashes _ hslashes]

theorem withoutSlash_eq_self {path : String} (h : endsWithSlash path = false) :
    withoutSlash path = path := by
  rcases withoutSlash_cases path with h' | ⟨slashes, hslashes, -, hpath⟩
  · exact h'
  rcases List.eq_nil_or_concat' slashes with rfl | ⟨front, c, rfl⟩
  · rw [List.append_nil] at hpath
    exact (String.toList_inj.mp hpath).symm
  · have hlast : path.toList.getLast? = some c := by
      rw [hpath, ← List.append_assoc, List.getLast?_concat]
    have hslash := hslashes c (by simp)
    rw [endsWithSlash, hlast, beq_iff_eq.mp hslash] at h
    cases h

end Path

namespace Files

/-- Where segments that name something come to an end: behind the last of them, or where there is no
directory to go on through. -/
def stopFrom (files : Files) (location : Location) : List (List Char) → Location
  | [] => location
  | segment :: rest =>
    if !files.isDirectory location then location
    else if segment = Path.parent then files.stopFrom location.tail rest
    else files.stopFrom (segment :: location) rest

/-- Where a path comes to its end, whether or not it leads to anything. -/
def stop (files : Files) (path : String) : Location :=
  files.stopFrom (if Path.isAbsolute path then [] else files.directory)
    ((Path.segments path).filter (!Path.isIdle ·))

theorem stop_withoutSlash (files : Files) (path : String) :
    files.stop (Path.withoutSlash path) = files.stop path := by
  rw [stop, stop, Path.isAbsolute_withoutSlash, Path.segments_withoutSlash]

/-- Stores with the same directories and refusals, and with the same contents but in some places. -/
structure SameBut (places : Set Location) (files files' : Files) : Prop where
  directory : files'.directory = files.directory
  directories : files'.directories = files.directories
  refusals : files'.refusals = files.refusals
  content : ∀ location ∉ places, files'.contentAt? location = files.contentAt? location

section
variable {places more : Set Location} {files files' files'' : Files} {location : Location}
  {path content : String}

theorem SameBut.refl (places : Set Location) (files : Files) : SameBut places files files :=
  ⟨rfl, rfl, rfl, fun _ _ => rfl⟩

theorem SameBut.trans (h : SameBut places files files') (k : SameBut places files' files'') :
    SameBut places files files'' where
  directory := k.directory.trans h.directory
  directories := k.directories.trans h.directories
  refusals := k.refusals.trans h.refusals
  content location hplace := (k.content location hplace).trans (h.content location hplace)

theorem SameBut.mono (h : SameBut places files files') (hsub : places ⊆ more) :
    SameBut more files files' :=
  { h with content := fun location hplace => h.content location fun hmem => hplace (hsub hmem) }

theorem SameBut.isDirectory (h : SameBut places files files') (location : Location) :
    files'.isDirectory location = files.isDirectory location := by
  rw [Files.isDirectory, Files.isDirectory, h.directories]

theorem SameBut.stopFrom (h : SameBut places files files') (segments : List (List Char)) :
    ∀ location, files'.stopFrom location segments = files.stopFrom location segments := by
  induction segments with
  | nil => exact fun _ => rfl
  | cons segment rest ih =>
    intro location
    rw [Files.stopFrom, Files.stopFrom, h.isDirectory, ih, ih]

theorem SameBut.stop (h : SameBut places files files') (path : String) :
    files'.stop path = files.stop path := by
  rw [Files.stop, Files.stop, h.directory, h.stopFrom]

/-! ### Following -/

theorem stopFrom_of_not_directory (h : files.isDirectory location = false)
    (segments : List (List Char)) : files.stopFrom location segments = location := by
  cases segments with
  | nil => rfl
  | cons segment rest => rw [Files.stopFrom, h, Bool.not_false, if_pos rfl]

/-- A path that leads somewhere leads to where it comes to its end. -/
theorem follow_eq_stopFrom {segments : List (List Char)} {found : Location}
    (h : files.follow location segments = .ok found) :
    files.stopFrom location (segments.filter (!Path.isIdle ·)) = found := by
  induction segments generalizing location with
  | nil => cases h; rfl
  | cons segment rest ih =>
    rw [follow] at h
    split at h
    next => cases h
    next hdirectory =>
      split at h
      next hidle =>
        rw [List.filter_cons_of_neg (by simp [hidle])]
        exact ih h
      next hidle =>
        rw [List.filter_cons_of_pos (by simp [hidle]), Files.stopFrom, if_neg hdirectory]
        split at h
        next hparent => rw [if_pos hparent]; exact ih h
        next hparent =>
          split at h
          next => cases h
          next => rw [if_neg hparent]; exact ih h

/-- Following a path, one may look for a file where the path comes to its end, but nowhere else. -/
theorem SameBut.follow (h : SameBut places files files') {segments : List (List Char)}
    (hstop : files.stopFrom location (segments.filter (!Path.isIdle ·)) ∉ places) :
    files'.follow location segments = files.follow location segments := by
  induction segments generalizing location with
  | nil => rfl
  | cons segment rest ih =>
    rw [Files.follow, Files.follow, h.isDirectory]
    cases hdirectory : files.isDirectory location with
    | false =>
      rw [stopFrom_of_not_directory hdirectory] at hstop
      rw [h.content location hstop]
      rfl
    | true =>
      rw [Bool.not_true, if_neg Bool.false_ne_true, if_neg Bool.false_ne_true]
      cases hidle : Path.isIdle segment with
      | true =>
        rw [List.filter_cons_of_neg (by simp [hidle])] at hstop
        rw [if_pos rfl, if_pos rfl, ih hstop]
      | false =>
        rw [List.filter_cons_of_pos (by simp [hidle]), Files.stopFrom, hdirectory, Bool.not_true,
          if_neg Bool.false_ne_true] at hstop
        rw [if_neg Bool.false_ne_true, if_neg Bool.false_ne_true]
        by_cases hparent : segment = Path.parent
        · rw [if_pos hparent] at hstop
          rw [if_pos hparent, if_pos hparent, ih hstop]
        · rw [if_neg hparent] at hstop
          rw [if_neg hparent, if_neg hparent, ih hstop]

theorem locate_eq_stop (h : files.locate path = .ok location) : files.stop path = location := by
  rw [locate] at h
  split at h
  next => cases h
  next =>
    split at h
    next => cases h
    next =>
      split at h
      next => cases h
      next => exact follow_eq_stopFrom h

theorem SameBut.locate (h : SameBut places files files') (hstop : files.stop path ∉ places) :
    files'.locate path = files.locate path := by
  rw [Files.locate, Files.locate, h.directory, h.follow hstop]

theorem SameBut.read (h : SameBut places files files') (hstop : files.stop path ∉ places) :
    files'.read path = files.read path := by
  rw [Files.read, Files.read, h.locate hstop]
  cases hlocate : files.locate path with
  | error fault => rfl
  | ok location =>
    have hplace : location ∉ places := locate_eq_stop hlocate ▸ hstop
    rw [Except.bind, Except.bind, h.content location hplace, h.isDirectory]

theorem SameBut.refusal? (h : SameBut places files files') (hstop : files.stop path ∉ places) :
    files'.refusal? path = files.refusal? path := by
  rw [← stop_withoutSlash] at hstop
  rw [Files.refusal?, Files.refusal?, h.locate hstop]
  cases files.locate (Path.withoutSlash path) with
  | error fault => rfl
  | ok location => simp only [h.isDirectory, h.refusals]

/-! ### Writing -/

theorem lookup_cons (other : Location) (pair : Location × String) (pairs : List (Location × String)) :
    lookup other (pair :: pairs) = if pair.1 = other then some pair.2 else lookup other pairs := by
  by_cases h : pair.1 = other <;> simp [lookup, h]

theorem lookup_put (location other : Location) (content : String) (pairs : List (Location × String)) :
    lookup other (put location content pairs) =
      if location = other then some content else lookup other pairs := by
  induction pairs with
  | nil => exact lookup_cons other (location, content) []
  | cons pair rest ih =>
    rw [put]
    split
    next hsame =>
      subst hsame
      rw [lookup_cons, lookup_cons]
      split <;> rfl
    next hne =>
      rw [lookup_cons, lookup_cons, ih]
      split
      next hother => rw [if_neg fun heq => hne (hother.trans heq.symm)]
      next => rfl

/-- Where a write that is not refused goes. -/
theorem locate_of_refusal? (h : files.refusal? path = none) :
    files.locate path = .ok (files.stop path) ∧ files.isDirectory (files.stop path) = false := by
  rw [refusal?] at h
  split at h
  next => cases h
  next location hlocate =>
    split at h
    next => cases h
    next hplain =>
      rw [Bool.not_eq_true, Bool.or_eq_false_iff] at hplain
      rw [Path.withoutSlash_eq_self hplain.2] at hlocate
      rw [locate_eq_stop hlocate]
      exact ⟨hlocate, hplain.1⟩

theorem contentAt?_write (h : files.refusal? path = none) (location : Location) :
    (files.write path content).contentAt? location =
      if files.stop path = location then some content else files.contentAt? location := by
  rw [write, (locate_of_refusal? h).1]
  exact lookup_put ..

/-- A write is seen in its own place only. -/
theorem sameBut_write (path content : String) (h : files.refusal? path = none) :
    SameBut {files.stop path} files (files.write path content) := by
  have hcontent (location : Location) : (files.write path content).contentAt? location =
      if files.stop path = location then some content else files.contentAt? location :=
    contentAt?_write h location
  rw [write, (locate_of_refusal? h).1] at hcontent ⊢
  exact ⟨rfl, rfl, rfl, fun location hplace => (hcontent location).trans (if_neg (Ne.symm hplace))⟩

/-- The same write keeps stores the same. -/
theorem SameBut.write (h : SameBut places files files') (hstop : files.stop path ∉ places)
    (hrefusal : files.refusal? path = none) (content : String) :
    SameBut places (files.write path content) (files'.write path content) := by
  have hrefusal' := (h.refusal? hstop).trans hrefusal
  have hwrite := sameBut_write path content hrefusal
  have hwrite' := sameBut_write path content hrefusal'
  refine ⟨?_, ?_, ?_, fun location hplace => ?_⟩
  · rw [hwrite.directory, hwrite'.directory, h.directory]
  · rw [hwrite.directories, hwrite'.directories, h.directories]
  · rw [hwrite.refusals, hwrite'.refusals, h.refusals]
  · rw [contentAt?_write hrefusal, contentAt?_write hrefusal', h.stop, h.content location hplace]

end
end Files
end Unscramble
