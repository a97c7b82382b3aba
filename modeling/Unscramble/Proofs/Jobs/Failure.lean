import Unscramble.Job
import Unscramble.Proofs.Files.Access

/-! What a job that fails leaves behind. Everything is rendered before anything is written, so a job
changes no file unless it comes to writing. A job with one artifact still changes none if that one is
refused; but nothing takes back what was written before another artifact is refused. -/
namespace Unscramble

open Files FileAccess

/-- Parsing a file changes none, wherever it reads. -/
def ScriptParser.ReadsOnly (parser : ScriptParser) : Prop :=
  ∀ path, ∃ reads, Confined reads ∅ (parser.parseFile path)

theorem ScriptParser.readsOnly_ofTexts (scratch : String)
    (parse : String → String → Except Error Tree) : (ofTexts scratch parse).ReadsOnly := by
  refine fun path => ⟨{path}, (confined_readFile (Set.mem_singleton path)).bind fun answer => ?_⟩
  cases answer <;> exact .done _

theorem Interpreter.readsOnly_parser (interpreter : Interpreter) (settings : ParserSettings)
    (around : Surroundings) : (interpreter.parser settings around).ReadsOnly := by
  intro path
  refine ⟨{Path.absolute around.directory path}, Confined.bind ?_ fun _ => .done _⟩
  refine (confined_readFile (Set.mem_singleton _)).bind fun answer => ?_
  cases answer <;> exact .done _

/-- Whether a job failed only when its artifacts were written. -/
def Failure.isWriting : Failure → Bool
  | .writing .. => true
  | .alreadyTree .. | .reading .. | .parsing .. | .optimizing .. | .panicked | .rendering .. => false

namespace Tools

variable {tools : Tools} {task : Task} {input : String} {files after : Files} {failure : Failure}
  {contents : List (Artifact × String)}

theorem confined_load {reads : Set String} (hinput : input ∈ reads)
    (hparser : Confined reads ∅ (tools.parser.parseFile input)) :
    Confined reads ∅ (tools.load input) := by
  unfold load
  split
  · refine (confined_readFile hinput).bind fun answer => ?_
    cases answer <;> exact .done _
  · exact hparser.bind fun _ => .done _

theorem load_unchanged (hparser : tools.parser.ReadsOnly) (input : String) (files : Files) :
    ((tools.load input).run files).2 = files := by
  obtain ⟨reads, hreads⟩ := hparser input
  refine (confined_load (Set.mem_insert input reads) ?_).run_unchanged files
  exact hreads.mono (Set.subset_insert input reads) le_rfl

/-- Saving fails at the first artifact, with nothing written, or after it. -/
theorem save_failed {artifact : Artifact} {content : String}
    (h : (save input ((artifact, content) :: contents)).run files = (.error failure, after)) :
    (∃ fault, files.refusal? (artifact.path input) = some fault ∧
      failure = .writing (artifact.path input) fault ∧ after = files) ∨
      files.refusal? (artifact.path input) = none ∧
        (save input contents).run (files.write (artifact.path input) content) =
          (.error failure, after) := by
  rw [save, run_bind] at h
  cases hrefusal : files.refusal? (artifact.path input) with
  | some fault =>
    rw [run_writeFile_refused hrefusal] at h
    cases h
    exact .inl ⟨fault, rfl, rfl, rfl⟩
  | none =>
    rw [run_writeFile hrefusal] at h
    exact .inr ⟨rfl, h⟩

/-- The tree that a task makes artifacts of, with what is known about how it was made. -/
def tree (tools : Tools) (task : Task) (input : String) (files : Files) :
    Except Failure (Tree × Option Statistics) :=
  ((tools.load input).run files).1.bind (tools.improve task input)

theorem exists_of_mapError {ε ε' α : Type} {f : ε → ε'} {result : Except ε α} {error : ε'}
    (h : result.mapError f = .error error) : ∃ cause, error = f cause := by
  cases result with
  | error cause => cases h; exact ⟨cause, rfl⟩
  | ok a => cases h

theorem load_failed (h : ((tools.load input).run files).1 = .error failure) :
    failure.isWriting = false := by
  unfold load at h
  split at h
  · rw [run_bind] at h
    dsimp only [run_readFile] at h
    cases hread : files.read input with
    | error fault =>
      rw [hread] at h
      cases h
      rfl
    | ok document =>
      rw [hread] at h
      obtain ⟨error, rfl⟩ := exists_of_mapError h
      rfl
  · rw [run_bind] at h
    obtain ⟨error, rfl⟩ := exists_of_mapError h
    rfl

theorem improve_failed {t : Tree} (h : tools.improve task input t = .error failure) :
    failure.isWriting = false := by
  cases task with
  | parse | format => cases h
  | deob =>
    dsimp only [improve] at h
    split at h
    · cases h
      rfl
    · split at h <;> cases h
      rfl

/-- Artifacts are rendered in their order, and whatever keeps one of them from it keeps all from being
written. -/
theorem renderAll_cases {t : Tree} {artifacts : List Artifact} :
    (∃ failure, tools.renderAll t artifacts = .error failure ∧ failure.isWriting = false) ∨
      ∃ contents, tools.renderAll t artifacts = .ok contents ∧ contents.map Prod.fst = artifacts ∧
        ∀ content ∈ contents, tools.render t content.1 = .ok content.2 := by
  induction artifacts with
  | nil => exact .inr ⟨[], rfl, rfl, by simp⟩
  | cons artifact artifacts ih =>
    rw [renderAll]
    cases hrender : tools.render t artifact with
    | error error => exact .inl ⟨.rendering artifact error, rfl, rfl⟩
    | ok content =>
      obtain ⟨failure, hfailure, hwriting⟩ | ⟨contents, hcontents, hnames, hall⟩ := ih
      · exact .inl ⟨failure, by rw [hfailure]; rfl, hwriting⟩
      · refine .inr ⟨(artifact, content) :: contents, by rw [hcontents]; rfl, ?_, ?_⟩
        · rw [List.map_cons, hnames]
        · exact List.forall_mem_cons.mpr ⟨hrender, hall⟩

theorem tree_failed (h : tools.tree task input files = .error failure) :
    failure.isWriting = false := by
  rw [tree] at h
  cases hload : ((tools.load input).run files).1 with
  | error failure' =>
    rw [hload] at h
    cases h
    exact load_failed hload
  | ok t =>
    rw [hload] at h
    exact improve_failed h

/-- A run that fails has either not come to writing, or failed in it. -/
theorem run_failed_cases (hparser : tools.parser.ReadsOnly)
    (h : (tools.run task input).run files = (.error failure, after)) :
    after = files ∧ failure.isWriting = false ∨
      ∃ t statistics contents, tools.tree task input files = .ok (t, statistics) ∧
        contents.map Prod.fst = task.artifacts ∧
        (∀ content ∈ contents, tools.render t content.1 = .ok content.2) ∧
        (save input contents).run files = (.error failure, after) := by
  unfold run at h
  split at h
  next => cases h; exact .inl ⟨rfl, rfl⟩
  next =>
    rw [run_bind, load_unchanged hparser] at h
    cases htree : tools.tree task input files with
    | error failure' =>
      have hanswer := htree
      rw [tree] at hanswer
      rw [hanswer] at h
      cases h
      exact .inl ⟨rfl, tree_failed htree⟩
    | ok made =>
      obtain ⟨t, statistics⟩ := made
      rw [tree] at htree
      rw [htree] at h
      dsimp only at h
      obtain ⟨failure', hfailure, hwriting⟩ | ⟨contents, hcontents, hnames, hall⟩ :=
        @renderAll_cases tools t task.artifacts
      · rw [hfailure] at h
        cases h
        exact .inl ⟨rfl, hwriting⟩
      · refine .inr ⟨t, statistics, contents, rfl, hnames, hall, ?_⟩
        rw [hcontents] at h
        dsimp only at h
        rw [run_bind] at h
        cases hsave : (save input contents).run files with
        | mk result store =>
          rw [hsave] at h
          cases result with
          | error failure' => cases h; rfl
          | ok _ => cases h

/-- The tree was written, but not the script that was to follow it. -/
def IsTorn (task : Task) (input : String) (files : Files) (failure : Failure) : Prop :=
  task = .deob ∧ files.refusal? (Artifact.deobfuscatedTree.path input) = none ∧
    ∃ fault, failure = .writing (Artifact.deobfuscated.path input) fault

/-- A job that fails leaves every file as it was, unless it wrote the first of two artifacts and the
second was refused: then the first stays. -/
theorem run_failed (hparser : tools.parser.ReadsOnly)
    (h : (tools.run task input).run files = (.error failure, after)) :
    (¬ IsTorn task input files failure → after = files) ∧
      (IsTorn task input files failure → ∃ t statistics document,
        tools.tree task input files = .ok (t, statistics) ∧ tools.renderTree t = .ok document ∧
        after = files.write (Artifact.deobfuscatedTree.path input) document) := by
  obtain ⟨hafter, hwriting⟩ | ⟨t, statistics, contents, htree, hnames, hall, hsave⟩ :=
    run_failed_cases hparser h
  · refine ⟨fun _ => hafter, fun htorn => ?_⟩
    obtain ⟨-, -, fault, rfl⟩ := htorn
    cases hwriting
  cases task with
  | parse | format =>
    obtain ⟨⟨artifact, content⟩, rfl, -⟩ := List.map_eq_singleton_iff.mp hnames
    obtain ⟨fault, -, -, rfl⟩ | ⟨-, hrest⟩ := save_failed hsave
    · exact ⟨fun _ => rfl, fun htorn => nomatch htorn.1⟩
    · cases hrest
  | deob =>
    obtain ⟨document, script, rfl⟩ : ∃ document script,
        contents = [(.deobfuscatedTree, document), (.deobfuscated, script)] := by
      simpa [Task.artifacts, List.map_eq_cons_iff] using hnames
    obtain ⟨fault, hrefusal, -, rfl⟩ | ⟨hwritten, hrest⟩ := save_failed hsave
    · refine ⟨fun _ => rfl, fun htorn => ?_⟩
      cases hrefusal.symm.trans htorn.2.1
    · obtain ⟨fault, -, rfl, rfl⟩ | ⟨-, hnothing⟩ := save_failed hrest
      · exact ⟨fun hwhole => absurd ⟨rfl, hwritten, fault, rfl⟩ hwhole,
          fun _ => ⟨t, statistics, document, htree, hall _ List.mem_cons_self, rfl⟩⟩
      · cases hnothing

/-- With a directory where the script should go, a tree is left that was not there before. -/
example :
    let tools : Tools :=
      { parser := .ofTexts "" fun _ _ => .ok (.branch .scriptBlock [] []), maxRun := 1 }
    let files := Files.within "/work" [("a.ps1", ""), ("a.deob.ps1/keep", "")]
    let ended := (tools.run .deob "a.ps1").run files
    ended.1 = .error (.writing "a.deob.ps1" .isDirectory) ∧
      files.read "a.deob.xml" = .error .notFound ∧
      ended.2.read "a.deob.xml" =
        .ok "<?xml version=\"1.0\" encoding=\"utf-8\"?>\n<ScriptBlockAst/>\n" := by
  decide +kernel

end Tools
end Unscramble
