import Unscramble.Files.Access
import Unscramble.Proofs.Files.Places

/-! Computations on files, alone and side by side. When several of them take turns, each sees a store
that the others write to. If they write to other places than it reads and writes, it comes to what it
comes to alone: it is as if it had a store of its own, which the common one only differs from in the
places of the others. -/
namespace Unscramble.FileAccess

open Files

variable {α β : Type} {reads writes : Set String} {files files' : Files}

/-- Accesses to some paths only, whatever they are answered. -/
inductive Confined (reads writes : Set String) : FileAccess α → Prop
  | done (a) : Confined reads writes (.done a)
  | read {path next} : path ∈ reads → (∀ answer, Confined reads writes (next answer)) →
      Confined reads writes (.read path next)
  | write {path content next} : path ∈ writes → (∀ answer, Confined reads writes (next answer)) →
      Confined reads writes (.write path content next)

/-! ### One computation -/

@[simp] theorem run_pure (a : α) (files : Files) : (pure a : FileAccess α).run files = (a, files) :=
  rfl

@[simp] theorem run_readFile (path : String) (files : Files) :
    (readFile path).run files = (files.read path, files) := rfl

theorem run_writeFile_refused {path : String} {fault : FileFault}
    (h : files.refusal? path = some fault) (content : String) :
    (writeFile path content).run files = (some fault, files) := by
  rw [writeFile, run, h]
  rfl

theorem run_writeFile {path : String} (h : files.refusal? path = none) (content : String) :
    (writeFile path content).run files = (none, files.write path content) := by
  rw [writeFile, run, h]
  rfl

theorem run_bind (job : FileAccess α) (f : α → FileAccess β) (files : Files) :
    (job >>= f).run files = (f (job.run files).1).run (job.run files).2 := by
  induction job generalizing files with
  | done a => rfl
  | read path next ih => exact ih _ _
  | write path content next ih =>
    change run files (.write path content fun answer => (next answer).bind f) = _
    rw [run, run]
    split
    · exact ih _ _
    · exact ih _ _

theorem Confined.mono {reads' writes' : Set String} {job : FileAccess α}
    (h : Confined reads writes job) (hreads : reads ⊆ reads') (hwrites : writes ⊆ writes') :
    Confined reads' writes' job := by
  induction h with
  | done a => exact .done a
  | read hpath _ ih => exact .read (hreads hpath) ih
  | write hpath _ ih => exact .write (hwrites hpath) ih

theorem Confined.bind {job : FileAccess α} {f : α → FileAccess β} (h : Confined reads writes job)
    (hf : ∀ a, Confined reads writes (f a)) : Confined reads writes (job >>= f) := by
  induction h with
  | done a => exact hf a
  | read hpath _ ih => exact .read hpath ih
  | write hpath _ ih => exact .write hpath ih

theorem confined_readFile {path : String} (h : path ∈ reads) :
    Confined reads writes (readFile path) :=
  .read h fun answer => .done answer

theorem confined_writeFile {path : String} (h : path ∈ writes) (content : String) :
    Confined reads writes (writeFile path content) :=
  .write h fun answer => .done answer

/-- Reading changes nothing. -/
theorem Confined.run_unchanged {job : FileAccess α} (h : Confined reads ∅ job) (files : Files) :
    (job.run files).2 = files := by
  induction h with
  | done a => rfl
  | read _ _ ih => exact ih _
  | write hpath => exact absurd hpath (Set.notMem_empty _)

/-- A run writes to some places only, if each write that is not refused in a store that differs from the
first in these places goes to one of them. -/
theorem Confined.run_sameBut {job : FileAccess α} {places : Set Location} {first : Files}
    (h : Confined reads writes job)
    (hwrites : ∀ path ∈ writes, ∀ store, SameBut places first store → store.refusal? path = none →
      store.stop path ∈ places) (hfiles : SameBut places first files) :
    SameBut places first (job.run files).2 := by
  induction h generalizing files with
  | done a => exact hfiles
  | read _ _ ih => exact ih _ hfiles
  | @write path content _ hpath _ ih =>
    rw [run]
    split
    next => exact ih _ hfiles
    next hrefusal =>
      have hplace := hwrites path hpath files hfiles hrefusal
      have hwrite := sameBut_write path content hrefusal
      exact ih _ (hfiles.trans (hwrite.mono (Set.singleton_subset_iff.mpr hplace)))

theorem run_step (job : FileAccess α) (files : Files) :
    (job.step files).1.run (job.step files).2 = job.run files := by
  cases job with
  | done a => rfl
  | read path next => rfl
  | write path content next =>
    rw [step, run]
    split <;> rfl

theorem Confined.step {job : FileAccess α} (h : Confined reads writes job) (files : Files) :
    Confined reads writes (job.step files).1 := by
  cases h with
  | done a => exact .done a
  | read _ hnext => exact hnext _
  | write _ hnext =>
    rw [FileAccess.step]
    split <;> exact hnext _

/-- A step changes the store only where the computation may write. -/
theorem Confined.sameBut_step {job : FileAccess α} (h : Confined reads writes job) (files : Files) :
    SameBut (files.stop '' writes) files (job.step files).2 := by
  cases h with
  | done | read => exact .refl _ _
  | @write path content _ hpath =>
    rw [FileAccess.step]
    split
    next => exact .refl _ _
    next hrefusal =>
      refine (sameBut_write path content hrefusal).mono ?_
      exact Set.singleton_subset_iff.mpr ⟨path, hpath, rfl⟩

/-! ### Taking turns -/

/-- Whether a computation has come to its end. -/
def isDone : FileAccess α → Bool
  | .done _ => true
  | .read .. | .write .. => false

theorem exists_of_isDone {job : FileAccess α} (h : job.isDone = true) : ∃ a, job = .done a := by
  cases job with
  | done a => exact ⟨a, rfl⟩
  | read | write => cases h

/-- One of several computations does its next access. -/
def turn (state : List (FileAccess α) × Files) (i : Nat) : List (FileAccess α) × Files :=
  match state.1[i]? with
  | none => state
  | some job => (state.1.set i (job.step state.2).1, (job.step state.2).2)

/-- Computations that take turns on one store, in any order. -/
def interleave (schedule : List Nat) (state : List (FileAccess α) × Files) :
    List (FileAccess α) × Files :=
  schedule.foldl turn state

/-- A computation comes to the same as alone if it had a store of its own, which differs from the
common one in the places of others only. -/
def Follows (others : Set Location) (alone : α × Files) (job : FileAccess α) (files : Files) : Prop :=
  ∃ own, job.run own = alone ∧ SameBut others own files

section
variable {others : Set Location} {alone : α × Files} {job : FileAccess α}

theorem Follows.sameBut (h : Follows others alone job files) (hsame : SameBut others files files') :
    Follows others alone job files' := by
  obtain ⟨own, hrun, hown⟩ := h
  exact ⟨own, hrun, hown.trans hsame⟩

/-- The next access is answered as it would be by the store of its own. -/
theorem Follows.step (h : Follows others alone job files) (hjob : Confined reads writes job)
    (hapart : ∀ path ∈ reads ∪ writes, files.stop path ∉ others) :
    Follows others alone (job.step files).1 (job.step files).2 := by
  obtain ⟨own, hrun, hown⟩ := h
  refine ⟨(job.step own).2, ?_⟩
  rw [← hrun, ← run_step job own]
  cases hjob with
  | done a => exact ⟨rfl, hown⟩
  | @read path next hpath _ =>
    have hstop := hapart path (.inl hpath)
    rw [hown.stop] at hstop
    rw [FileAccess.step, FileAccess.step, hown.read hstop]
    exact ⟨rfl, hown⟩
  | @write path content next hpath _ =>
    have hstop := hapart path (.inr hpath)
    rw [hown.stop] at hstop
    rw [FileAccess.step, FileAccess.step, hown.refusal? hstop]
    cases hrefusal : own.refusal? path with
    | some fault => exact ⟨rfl, hown⟩
    | none => exact ⟨rfl, hown.write hstop hrefusal content⟩

theorem Follows.done {a : α} (h : Follows others alone (.done a) files) :
    alone.1 = a ∧ SameBut others alone.2 files := by
  obtain ⟨own, rfl, hown⟩ := h
  exact ⟨rfl, hown⟩

end

/-! ### Independence -/

/-- The places that all computations but one may write to. -/
def placesOfOthers (files : Files) (writes : Nat → Set String) (i : Nat) : Set Location :=
  {location | ∃ j ≠ i, location ∈ files.stop '' writes j}

/-- Each computation writes to other places than the others read and write. -/
def KeepApart (files : Files) (reads writes : Nat → Set String) : Prop :=
  ∀ i, ∀ path ∈ reads i ∪ writes i, files.stop path ∉ placesOfOthers files writes i

/-- Computations that keep apart, each where it would be alone. -/
structure Abreast (jobs : List (FileAccess α)) (files : Files) (reads writes : Nat → Set String)
    (state : List (FileAccess α) × Files) : Prop where
  length : state.1.length = jobs.length
  fixed : SameBut Set.univ files state.2
  confined : ∀ i, ∀ job ∈ state.1[i]?, Confined (reads i) (writes i) job
  follows : ∀ i, ∀ first ∈ jobs[i]?, ∀ job ∈ state.1[i]?,
    Follows (placesOfOthers files writes i) (first.run files) job state.2

section
variable {jobs : List (FileAccess α)} {reads writes : Nat → Set String}
  {state : List (FileAccess α) × Files}

theorem Abreast.start (hconfined : ∀ i, ∀ job ∈ jobs[i]?, Confined (reads i) (writes i) job) :
    Abreast jobs files reads writes (jobs, files) where
  length := rfl
  fixed := .refl _ _
  confined := hconfined
  follows i first hfirst job hjob := by
    obtain rfl : first = job := Option.some.inj (hfirst.symm.trans hjob)
    exact ⟨files, rfl, .refl _ _⟩

/-- The one whose turn it is does what it would do alone, and the others do not notice. -/
theorem Abreast.turn (hapart : KeepApart files reads writes) (h : Abreast jobs files reads writes state)
    (k : Nat) : Abreast jobs files reads writes (turn state k) := by
  cases hactive : state.1[k]? with
  | none =>
    rw [FileAccess.turn, hactive]
    exact h
  | some active =>
    have hconfined := h.confined k active hactive
    have hstep := hconfined.sameBut_step state.2
    have hself := List.getElem?_set_self (a := (active.step state.2).1)
      (List.getElem?_eq_some_iff.mp hactive).1
    simp only [FileAccess.turn, hactive]
    refine ⟨(List.length_set ..).trans h.length, h.fixed.trans (hstep.mono (Set.subset_univ _)),
      fun i job hjob => ?_, fun i first hfirst job hjob => ?_⟩
    · by_cases hi : k = i
      · subst hi
        obtain rfl := Option.some.inj (hself.symm.trans hjob)
        exact hconfined.step state.2
      · exact h.confined i job ((List.getElem?_set_ne hi).symm.trans hjob)
    · by_cases hi : k = i
      · subst hi
        obtain rfl := Option.some.inj (hself.symm.trans hjob)
        refine (h.follows k first hfirst active hactive).step hconfined fun path hpath => ?_
        rw [h.fixed.stop]
        exact hapart k path hpath
      · refine (h.follows i first hfirst job ((List.getElem?_set_ne hi).symm.trans hjob)).sameBut
          (hstep.mono ?_)
        rintro _ ⟨path, hpath, rfl⟩
        exact ⟨k, hi, path, hpath, (h.fixed.stop path).symm⟩

theorem Abreast.interleave (hapart : KeepApart files reads writes)
    (h : Abreast jobs files reads writes state) (schedule : List Nat) :
    Abreast jobs files reads writes (interleave schedule state) := by
  induction schedule generalizing state with
  | nil => exact h
  | cons k schedule ih => exact ih (h.turn hapart k)

/-- A computation that is done has come to what it comes to alone, and its places hold what it leaves
there alone. -/
theorem Abreast.done (h : Abreast jobs files reads writes state) (hapart : KeepApart files reads writes)
    {i : Nat} {first : FileAccess α} {a : α} (hfirst : jobs[i]? = some first)
    (hdone : state.1[i]? = some (.done a)) : (first.run files).1 = a ∧
      ∀ path ∈ writes i, state.2.read path = (first.run files).2.read path := by
  obtain ⟨ha, hsame⟩ := (h.follows i first hfirst _ hdone).done
  refine ⟨ha, fun path hpath => hsame.read ?_⟩
  rw [← hsame.stop, h.fixed.stop]
  exact hapart i path (.inr hpath)

/-- When all are done, each has come to what it comes to alone. -/
theorem Abreast.ended (h : Abreast jobs files reads writes state) (hapart : KeepApart files reads writes)
    (hdone : ∀ job ∈ state.1, job.isDone = true) :
    state.1 = jobs.map (fun first => .done (first.run files).1) ∧
      ∀ i, ∀ first ∈ jobs[i]?, ∀ path ∈ writes i,
        state.2.read path = (first.run files).2.read path := by
  have hat : ∀ i : Nat, ∀ first ∈ jobs[i]?,
      state.1[i]? = some (FileAccess.done (first.run files).1) ∧ ∀ path ∈ writes i,
        state.2.read path = (first.run files).2.read path := by
    intro i first hfirst
    have hi : i < state.1.length := h.length.symm ▸ (List.getElem?_eq_some_iff.mp hfirst).1
    obtain ⟨a, ha⟩ := exists_of_isDone (hdone _ (List.getElem_mem hi))
    have hjob : state.1[i]? = some (FileAccess.done a) :=
      (List.getElem?_eq_getElem hi).trans (congrArg some ha)
    obtain ⟨rfl, hread⟩ := h.done hapart hfirst hjob
    exact ⟨hjob, hread⟩
  refine ⟨List.ext_getElem? fun i => ?_, fun i first hfirst => (hat i first hfirst).2⟩
  rw [List.getElem?_map]
  cases hfirst : jobs[i]? with
  | none => exact List.getElem?_eq_none (h.length ▸ List.getElem?_eq_none_iff.mp hfirst)
  | some first => exact (hat i first hfirst).1

end

/-! ### Coming to an end -/

section
variable {state : List (FileAccess α) × Files}

theorem length_turn (state : List (FileAccess α) × Files) (i : Nat) :
    (turn state i).1.length = state.1.length := by
  unfold turn
  split
  · rfl
  · exact List.length_set ..

theorem getElem?_turn_ne {i j : Nat} (h : i ≠ j) (state : List (FileAccess α) × Files) :
    (turn state i).1[j]? = state.1[j]? := by
  unfold turn
  split
  · rfl
  · exact List.getElem?_set_ne h

/-- One computation can be brought to its end while the others wait. -/
theorem exists_turns (i : Nat) (state : List (FileAccess α) × Files) : ∃ turns,
    (∀ job ∈ (interleave turns state).1[i]?, job.isDone = true) ∧
      ∀ j ≠ i, (interleave turns state).1[j]? = state.1[j]? := by
  have next (job : FileAccess α) : ∀ state : List (FileAccess α) × Files, state.1[i]? = some job →
      ∃ turns, (∀ job ∈ (interleave turns state).1[i]?, job.isDone = true) ∧
        ∀ j ≠ i, (interleave turns state).1[j]? = state.1[j]? := by
    induction job with
    | done a =>
      intro state hjob
      refine ⟨[], fun job hmem => ?_, fun _ _ => rfl⟩
      obtain rfl := Option.some.inj (hjob.symm.trans hmem)
      rfl
    | read path next ih =>
      intro state hjob
      have hi : i < state.1.length := (List.getElem?_eq_some_iff.mp hjob).1
      have hturn : (turn state i).1[i]? = some (next (state.2.read path)) := by
        simp only [turn, hjob, step, List.getElem?_set_self hi]
      obtain ⟨turns, hdone, hothers⟩ := ih _ _ hturn
      exact ⟨i :: turns, hdone, fun j hj => (hothers j hj).trans (getElem?_turn_ne hj.symm state)⟩
    | write path content next ih =>
      intro state hjob
      have hi : i < state.1.length := (List.getElem?_eq_some_iff.mp hjob).1
      have hturn : (turn state i).1[i]? = some (next (state.2.refusal? path)) := by
        simp only [turn, hjob, step]
        cases state.2.refusal? path <;> exact List.getElem?_set_self hi
      obtain ⟨turns, hdone, hothers⟩ := ih _ _ hturn
      exact ⟨i :: turns, hdone, fun j hj => (hothers j hj).trans (getElem?_turn_ne hj.symm state)⟩
  cases hjob : state.1[i]? with
  | none => exact ⟨[], fun job hmem => by simp [interleave, hjob] at hmem, fun _ _ => rfl⟩
  | some job => exact next job state hjob

theorem interleave_append (first second : List Nat) (state : List (FileAccess α) × Files) :
    interleave (first ++ second) state = interleave second (interleave first state) :=
  List.foldl_append ..

/-- From every state on, all computations can come to their end. -/
theorem exists_complete (state : List (FileAccess α) × Files) : ∃ schedule,
    ∀ job ∈ (interleave schedule state).1, job.isDone = true := by
  have upTo (n : Nat) : ∃ schedule, ∀ i < n, ∀ job ∈ (interleave schedule state).1[i]?,
      job.isDone = true := by
    induction n with
    | zero => exact ⟨[], fun i hi => absurd hi (Nat.not_lt_zero i)⟩
    | succ n ih =>
      obtain ⟨schedule, hschedule⟩ := ih
      obtain ⟨turns, hdone, hothers⟩ := exists_turns n (interleave schedule state)
      refine ⟨schedule ++ turns, fun i hi job hjob => ?_⟩
      rw [interleave_append] at hjob
      rcases Nat.lt_succ_iff_lt_or_eq.mp hi with hlt | rfl
      · exact hschedule i hlt job (hothers i (Nat.ne_of_lt hlt) ▸ hjob)
      · exact hdone job hjob
  have length (schedule : List Nat) : (interleave schedule state).1.length = state.1.length := by
    clear upTo
    induction schedule generalizing state with
    | nil => rfl
    | cons i schedule ih => exact (ih (turn state i)).trans (length_turn state i)
  obtain ⟨schedule, hschedule⟩ := upTo state.1.length
  refine ⟨schedule, fun job hjob => ?_⟩
  obtain ⟨i, hi⟩ := List.getElem?_of_mem hjob
  have hlt := (List.getElem?_eq_some_iff.mp hi).1
  exact hschedule i (length schedule ▸ hlt) job hi

end
end Unscramble.FileAccess
