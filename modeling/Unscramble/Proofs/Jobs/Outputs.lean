import Mathlib.Data.List.Nodup
import Unscramble.Proofs.Files.Extensions
import Unscramble.Proofs.Jobs.Independence

/-! Where a job puts its artifacts: next to its input, each under a name of its own, and none under that of
the input. That saved trees are not parsed is what keeps a tree from being written over the document that
it was read from. -/
namespace Unscramble

open Files FileAccess

/-- Whether a job did its work, so far that it went on to write artifacts. -/
def comesToWriting : Except Failure Outcome → Bool
  | .ok _ => true
  | .error failure => failure.isWriting

namespace Artifact

/-- An extension is something to put behind a stem, and has no slash. -/
theorem extension_ok (a : Artifact) : Path.IsSegment a.extension.toList ∧ a.extension ≠ "" := by
  cases a <;> decide

theorem extension_injective {a b : Artifact} (h : a.extension = b.extension) : a = b := by
  cases a <;> cases b <;> first | rfl | exact absurd h (by decide)

/-- Only the tree has an extension without a point in it. -/
theorem point_mem_extension {a : Artifact} (h : a ≠ .tree) : '.' ∈ a.extension.toList := by
  cases a <;> first | exact absurd rfl h | decide

end Artifact

section
variable {tools : Tools} {task : Task} {input : String} {files : Files} {cut : Path.Cut} {a : Artifact}

theorem isTreeDocument_of_stem (h : Path.cut? input = some cut)
    (hname : cut.name = Path.stem cut.name ++ '.' :: Artifact.tree.extension.toList)
    (hstem : Path.stem cut.name ≠ []) : isTreeDocument input = true := by
  have hdotted : Path.dotted? cut.name = some (Path.stem cut.name, Artifact.tree.extension.toList) :=
    Path.dotted?_eq_some.mpr ⟨hname, hstem, by decide⟩
  have hextension : Path.extension? input = some Artifact.tree.extension.toList := by
    simp only [Path.extension?, Path.fileName?, h, Option.map_some, Option.bind_some, hdotted]
  rw [isTreeDocument, hextension]
  decide +kernel

/-- The name of an artifact is that of the input only if a tree is made of a saved tree. -/
theorem name_ne_of_artifact (h : Path.cut? input = some cut)
    (hnew : ¬(isTreeDocument input = true ∧ a = .tree)) :
    Path.stem cut.name ++ '.' :: a.extension.toList ≠ cut.name := by
  intro hname
  rcases Path.stem_eq_or cut.name with ⟨-, hstem⟩ | ⟨ending, hdotted⟩
  · rw [hstem] at hname
    simp at hname
  obtain ⟨hending, hstem, hpoint⟩ := Path.dotted?_eq_some.mp hdotted
  by_cases htree : a = .tree
  · subst htree
    exact hnew ⟨isTreeDocument_of_stem h hname.symm hstem, rfl⟩
  · have heq : a.extension.toList = ending := by
      have hboth := hname.trans hending
      simpa using hboth
    exact hpoint (heq ▸ Artifact.point_mem_extension htree)

namespace Tools

theorem parse_of_comesToWriting (h : comesToWriting ((tools.run task input).run files).1 = true) :
    ¬(isTreeDocument input = true ∧ task = .parse) := by
  rintro ⟨htree, rfl⟩
  rw [run, htree] at h
  cases h

theorem eq_parse_of_tree_mem (h : Artifact.tree ∈ task.artifacts) : task = .parse := by
  cases task <;> first | rfl | exact absurd h (by decide)

/-- In a job that comes to writing, artifacts go next to the input: their paths name other segments than
that of the input, and than each other, and only their names are different. An input that has no other
name than two points and an extension is left out. -/
theorem run_outputs_apart (hcut : Path.cut? input = some cut) (hname : cut.losesName = false)
    (hwriting : comesToWriting ((tools.run task input).run files).1 = true) :
    Path.named input ∉ (task.outputs input).map Path.named ∧
      ((task.outputs input).map Path.named).Nodup ∧
      ∀ output ∈ task.outputs input, ∃ name, Path.cut? output = some ⟨cut.directory, name, []⟩ := by
  have hpath (a : Artifact) := Path.cut?_withExtension hcut hname a.extension_ok.1 a.extension_ok.2
  obtain ⟨-, outer, hinput, -⟩ := hpath .tree
  have hnamed (a : Artifact) :
      Path.named (a.path input) = outer ++ [Path.stem cut.name ++ '.' :: a.extension.toList] := by
    obtain ⟨-, outer', hinput', houtput⟩ := hpath a
    obtain ⟨rfl, -⟩ := List.append_inj' (hinput.symm.trans hinput') rfl
    exact houtput
  have hinjective (a b : Artifact) (h : Path.named (a.path input) = Path.named (b.path input)) : a = b := by
    rw [hnamed, hnamed] at h
    exact Artifact.extension_injective (String.toList_inj.mp (by simpa using h))
  refine ⟨fun hmem => ?_, ?_, fun output houtput => ?_⟩
  · obtain ⟨output, houtput, heq⟩ := List.mem_map.mp hmem
    obtain ⟨a, ha, rfl⟩ := List.mem_map.mp houtput
    rw [hnamed, hinput] at heq
    have hnew : ¬(isTreeDocument input = true ∧ a = .tree) := by
      rintro ⟨htree, rfl⟩
      exact parse_of_comesToWriting hwriting ⟨htree, eq_parse_of_tree_mem ha⟩
    exact name_ne_of_artifact hcut hnew (by simpa using heq)
  · rw [Task.outputs, List.map_map]
    refine List.Nodup.map (fun a b h => hinjective a b h) ?_
    cases task <;> decide
  · obtain ⟨a, -, rfl⟩ := List.mem_map.mp houtput
    exact ⟨_, (hpath a).1⟩

/-- A script with a saved tree's name in front of its extension. -/
theorem run_outputs_apart_xml :
    let tools : Tools := { parser := numberParser, maxRun := 1 }
    let files := Files.within "/work" [("d/a.xml.ps1", "1")]
    let input := "./d//a.xml.ps1"
    comesToWriting ((tools.run .deob input).run files).1 = true ∧
      Task.deob.outputs input = ["./d//a.xml.deob.xml", "./d//a.xml.deob.ps1"] ∧
      Path.named input ∉ (Task.deob.outputs input).map Path.named ∧
      ((Task.deob.outputs input).map Path.named).Nodup ∧
      ∀ output ∈ Task.deob.outputs input, ∃ name, Path.cut? output = some ⟨"./d//".toList, name, []⟩ := by
  intro tools files input
  have hcut : Path.cut? input = some ⟨"./d//".toList, "a.xml.ps1".toList, []⟩ := by decide +kernel
  have hwriting : comesToWriting ((tools.run .deob input).run files).1 = true := by decide +kernel
  exact ⟨hwriting, by decide +kernel, run_outputs_apart hcut (by decide +kernel) hwriting⟩

/-- Both artifacts of a script with such a name would go to the parent directory. -/
theorem run_deob_parent :
    let tools : Tools := { parser := numberParser, maxRun := 1 }
    let files := Files.within "/work" [("..a", "1")]
    let ended := (tools.run .deob "..a").run files
    Path.fileName? "..a" = some "..a".toList ∧ ended.1 = .error (.writing ".." .isDirectory) ∧
      comesToWriting ended.1 = true ∧ Task.deob.outputs "..a" = ["..", ".."] := by
  decide +kernel

/-! ### What is written -/

/-- The new name of an input is the parent directory or that of an artifact. -/
theorem renamed_ne (h : Path.cut? input = some cut) (hnew : ¬(isTreeDocument input = true ∧ a = .tree)) :
    cut.renamed a.extension ≠ cut.name := by
  rw [Path.Cut.renamed]
  split
  · exact (Path.plain_of_cut? h).2.symm
  · exact name_ne_of_artifact h hnew

/-- No job writes to its input, whether it succeeds or fails: an artifact that has no name is refused, or
goes to the parent directory. -/
theorem run_keeps_input (hparser : tools.parser.ReadsOnly) (hcut : Path.cut? input = some cut)
    (task : Task) (files : Files) :
    ((tools.run task input).run files).2.read input = files.read input := by
  by_cases hguard : isTreeDocument input = true ∧ task = .parse
  · obtain ⟨htree, rfl⟩ := hguard
    rw [run, htree]
    rfl
  obtain ⟨reads, hreads⟩ := hparser input
  have hconfined : Confined (insert input reads) {path | path ∈ task.outputs input} (tools.run task input) :=
    confined_run (Set.mem_insert input reads) (hreads.mono (Set.subset_insert input reads) le_rfl)
  have hsame : SameBut {location | location ≠ files.stop input} files ((tools.run task input).run files).2 := by
    refine hconfined.run_sameBut (fun output houtput store hstore hrefusal => ?_) (.refl _ files)
    obtain ⟨a, ha, rfl⟩ := List.mem_map.mp houtput
    have hnew : ¬(isTreeDocument input = true ∧ a = .tree) := by
      rintro ⟨htree, rfl⟩
      exact hguard ⟨htree, eq_parse_of_tree_mem ha⟩
    have hstop := stop_withExtension_ne hcut a.extension_ok.1 a.extension_ok.2 (renamed_ne hcut hnew) hrefusal
    rwa [hstore.stop input] at hstop
  exact hsame.read (fun hmem => hmem rfl)

end Tools
end
end Unscramble
