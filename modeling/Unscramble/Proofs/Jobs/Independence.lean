import Unscramble.Report
import Unscramble.Proofs.Jobs.Failure

/-! Jobs that are worked on side by side. A job reads its input, and what the parser reads for it, and
writes the artifacts of its task. If no artifact of one input goes where another input, what is read
for that, or an artifact of that leads, every job comes to what it comes to alone, in whatever order
they take turns. That the inputs have different names is not enough, for two of them may share an
artifact. -/
namespace Unscramble

open Files FileAccess

/-- The paths of the artifacts of an input. -/
def Task.outputs (task : Task) (input : String) : List String :=
  task.artifacts.map (·.path input)

namespace Tools

variable {tools : Tools} {task : Task} {input : String} {files : Files} {reads : Set String}

/-! ### What a job reads and writes -/

theorem confined_save {contents : List (Artifact × String)}
    (h : ∀ content ∈ contents, content.1 ∈ task.artifacts) :
    Confined reads {path | path ∈ task.outputs input} (save input contents) := by
  induction contents with
  | nil => exact .done _
  | cons first contents ih =>
    obtain ⟨hfirst, hrest⟩ := List.forall_mem_cons.mp h
    have hpath : first.1.path input ∈ task.outputs input := List.mem_map_of_mem hfirst
    refine (confined_writeFile hpath first.2).bind fun answer => ?_
    cases answer with
    | some fault => exact .done _
    | none => exact ih hrest

theorem confined_run (hinput : input ∈ reads)
    (hparser : Confined reads ∅ (tools.parser.parseFile input)) :
    Confined reads {path | path ∈ task.outputs input} (tools.run task input) := by
  unfold run
  split
  · exact .done _
  refine ((confined_load hinput hparser).mono le_rfl (Set.empty_subset _)).bind fun loaded => ?_
  split
  · exact .done _
  next t _ _ =>
    obtain ⟨failure, hfailure, -⟩ | ⟨contents, hcontents, hnames, -⟩ :=
      @renderAll_cases tools t task.artifacts
    · rw [hfailure]
      exact .done _
    · rw [hcontents]
      refine Confined.bind (confined_save fun content hcontent => ?_) fun _ => .done _
      exact hnames ▸ List.mem_map_of_mem hcontent

theorem confined_report (hinput : input ∈ reads)
    (hparser : Confined reads ∅ (tools.parser.parseFile input)) :
    Confined reads {path | path ∈ task.outputs input} (tools.report task input) :=
  (confined_run hinput hparser).bind fun _ => .done _

/-- A job that goes well lists the artifacts of its task. -/
theorem outputs_of_run {outcome : Outcome}
    (h : ((tools.run task input).run files).1 = .ok outcome) :
    outcome.outputs = task.artifacts.map fun artifact => (artifact, artifact.path input) := by
  unfold run at h
  split at h
  next => cases h
  next =>
    rw [run_bind] at h
    cases hmade : ((tools.load input).run files).1.bind (tools.improve task input) with
    | error failure =>
      simp only [hmade] at h
      cases h
    | ok made =>
      simp only [hmade] at h
      obtain ⟨failure, hfailure, -⟩ | ⟨contents, hcontents, -, -⟩ :=
        @renderAll_cases tools made.1 task.artifacts
      · rw [hfailure] at h
        cases h
      · rw [hcontents] at h
        dsimp only at h
        rw [run_bind] at h
        cases hsave : ((save input contents).run ((tools.load input).run files).2).1 with
        | error failure =>
          rw [hsave] at h
          cases h
        | ok _ =>
          rw [hsave] at h
          cases h
          rfl

theorem outputs_of_report {path : String}
    (h : path ∈ ((tools.report task input).run files).1.outputs) : path ∈ task.outputs input := by
  rw [report, run_bind, Report.outputs] at h
  split at h
  next outcome hrun => rwa [outputs_of_run hrun, List.map_map] at h
  next => cases h

/-! ### Side by side -/

/-- No artifact of one input goes where another input, what is read for that, or an artifact of that
leads. -/
def Apart (files : Files) (task : Task) (sources : String → List String) (a b : String) : Prop :=
  ∀ output ∈ task.outputs a, ∀ path ∈ b :: sources b ++ task.outputs b,
    files.stop output ≠ files.stop path

instance (files : Files) (task : Task) (sources : String → List String) (a b : String) :
    Decidable (Apart files task sources a b) :=
  inferInstanceAs (Decidable (∀ output ∈ task.outputs a,
    ∀ path ∈ b :: sources b ++ task.outputs b, files.stop output ≠ files.stop path))

section
variable {inputs : List String} {sources : String → List String}

/-- Paths of the input at a position. -/
def reach (inputs : List String) (paths : String → List String) (i : Nat) : Set String :=
  {path | ∃ input ∈ inputs[i]?, path ∈ paths input}

theorem reach_of_getElem? {paths : String → List String} {i : Nat} (h : inputs[i]? = some input) :
    reach inputs paths i = {path | path ∈ paths input} := by
  ext path
  simp [reach, h]

theorem keepApart_of_pairwise
    (hapart : inputs.Pairwise fun a b => Apart files task sources a b ∧ Apart files task sources b a) :
    KeepApart files (reach inputs fun input => input :: sources input)
      (reach inputs task.outputs) := by
  rintro i path hpath ⟨j, hne, output, ⟨a, ha, houtput⟩, hstop⟩
  obtain ⟨b, hb, hpath⟩ : ∃ b ∈ inputs[i]?, path ∈ b :: sources b ++ task.outputs b := by
    rcases hpath with ⟨b, hb, hpath⟩ | ⟨b, hb, hpath⟩
    · exact ⟨b, hb, List.mem_append_left _ hpath⟩
    · exact ⟨b, hb, List.mem_append_right _ hpath⟩
  obtain ⟨hj, rfl⟩ := List.getElem?_eq_some_iff.mp ha
  obtain ⟨hi, rfl⟩ := List.getElem?_eq_some_iff.mp hb
  rw [List.pairwise_iff_getElem] at hapart
  rcases Nat.lt_or_gt_of_ne hne with hlt | hlt
  · exact (hapart j i hj hi hlt).1 output houtput path hpath hstop
  · exact (hapart i j hi hj hlt).2 output houtput path hpath hstop

theorem abreast_reports (files : Files)
    (hparser : ∀ input ∈ inputs,
      Confined {path | path ∈ sources input} ∅ (tools.parser.parseFile input)) :
    Abreast (inputs.map (tools.report task)) files
      (reach inputs fun input => input :: sources input) (reach inputs task.outputs)
      (inputs.map (tools.report task), files) := by
  refine .start fun i job hjob => ?_
  obtain ⟨input, hinput, rfl⟩ := Option.map_eq_some_iff.mp (List.getElem?_map.symm.trans hjob)
  rw [reach_of_getElem? hinput, reach_of_getElem? hinput]
  refine confined_report (List.mem_cons_self ..) ?_
  exact (hparser input (List.mem_of_getElem? hinput)).mono
    (fun _ hpath => List.mem_cons_of_mem _ hpath) le_rfl

/-- Jobs whose inputs are apart can always all be brought to their end, and in whatever order they take
turns until then, each reports what it reports alone, and its artifacts hold what it writes alone. -/
theorem reports_independent (files : Files)
    (hparser : ∀ input ∈ inputs,
      Confined {path | path ∈ sources input} ∅ (tools.parser.parseFile input))
    (hapart : inputs.Pairwise fun a b => Apart files task sources a b ∧ Apart files task sources b a)
    (schedule : List Nat) :
    let alone input := (tools.report task input).run files
    let ended schedule := interleave schedule (inputs.map (tools.report task), files)
    (∃ more, ∀ job ∈ (ended (schedule ++ more)).1, job.isDone) ∧
      ((∀ job ∈ (ended schedule).1, job.isDone) →
        (ended schedule).1 = inputs.map (fun input => .done (alone input).1) ∧
        ∀ input ∈ inputs, ∀ path ∈ (alone input).1.outputs,
          (ended schedule).2.read path = (alone input).2.read path) := by
  intro alone ended
  constructor
  · obtain ⟨more, hmore⟩ := exists_complete (ended schedule)
    refine ⟨more, ?_⟩
    rw [show ended (schedule ++ more) = _ from interleave_append ..]
    exact hmore
  intro hdone
  have hkept := keepApart_of_pairwise hapart
  obtain ⟨hreports, hread⟩ :=
    ((abreast_reports files hparser).interleave hkept schedule).ended hkept hdone
  rw [List.map_map] at hreports
  refine ⟨hreports, fun input hinput path hpath => ?_⟩
  obtain ⟨i, hi⟩ := List.getElem?_of_mem hinput
  refine hread i _ (List.getElem?_map.trans (congrArg _ hi)) path ?_
  rw [reach_of_getElem? hi]
  exact outputs_of_report hpath

/-- A parser that takes every script for a number. -/
def numberParser : ScriptParser :=
  .ofTexts "" fun _ digits => .ok (.branch .scriptBlock [] [.leaf .constant [] (some digits)])

theorem confined_numberParser (path : String) :
    Confined {other | other ∈ [path]} ∅ (numberParser.parseFile path) := by
  refine (confined_readFile (List.mem_singleton_self path)).bind fun answer => ?_
  cases answer <;> exact .done _

/-- Two scripts that are formatted in turns. -/
theorem reports_independent_inTurns :
    let tools : Tools := { parser := numberParser, maxRun := 0 }
    let files := Files.within "/work" [("a.ps1", "1"), ("b.ps1", "2")]
    let ended := interleave [0, 1, 1, 0] (["a.ps1", "b.ps1"].map (tools.report .format), files)
    ended.1 = ["a.ps1", "b.ps1"].map (fun input =>
      FileAccess.done ((tools.report .format input).run files).1) ∧
      ended.2.read "a.formatted.ps1" = .ok "1\n" := by
  intro tools files ended
  have hapart : ["a.ps1", "b.ps1"].Pairwise fun a b =>
      Apart files .format (fun path => [path]) a b ∧ Apart files .format (fun path => [path]) b a := by
    decide +kernel
  have hdone : ∀ job ∈ ended.1, job.isDone = true := by decide +kernel
  obtain ⟨hreports, hread⟩ := (reports_independent files (fun input _ => confined_numberParser input)
    hapart [0, 1, 1, 0]).2 hdone
  have houtputs : "a.formatted.ps1" ∈ ((tools.report .format "a.ps1").run files).1.outputs := by
    decide +kernel
  have halone : ((tools.report .format "a.ps1").run files).2.read "a.formatted.ps1" = .ok "1\n" := by
    decide +kernel
  exact ⟨hreports, (hread "a.ps1" (List.mem_cons_self ..) _ houtputs).trans halone⟩

/-- A saved tree and a script with the same stem share an artifact: what is written last stays. -/
theorem reports_share_artifact :
    let tools : Tools := { parser := numberParser, maxRun := 0 }
    let files := Files.within "/work" [("a.xml", "<ScriptBlockAst/>"), ("a.ps1", "2")]
    let inputs := ["a.xml", "a.ps1"]
    let ended := interleave [0, 0, 1, 1] (inputs.map (tools.report .format), files)
    let alone := (tools.report .format "a.xml").run files
    inputs.Nodup ∧ (∀ a ∈ inputs, ∀ b ∈ inputs, b ∉ Task.format.outputs a) ∧
      (∀ job ∈ ended.1, job.isDone = true) ∧
      alone.1.outputs = ["a.formatted.ps1"] ∧ alone.2.read "a.formatted.ps1" = .ok "\n" ∧
      ended.2.read "a.formatted.ps1" = .ok "2\n" := by
  decide +kernel

end
end Tools
end Unscramble
