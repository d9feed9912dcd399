import EmbeddedSolidity.Plan.Basic
import EmbeddedSolidity.Report.Basic

/-!
# Writing artifacts

Each distinct artifact of a report is written to a file of its own, named by its snippet, in the
order of the names. The first failure ends the writing.
-/

namespace EmbeddedSolidity.Report

/-- Write artifacts into a directory, in order. -/
def writeEach (directory : String) : List (String × Artifact) → Plan (Except Error (List String))
  | [] => return .ok []
  | (name, artifact) :: rest => do
    let path := Path.join directory (Snippet.Id.artifactFile ⟨name⟩)
    match ← Plan.writeText path artifact.value.pretty with
    | .error f => return .error (.output path f.text)
    | .ok () => return (← writeEach directory rest).map (path :: ·)

/-- Write the artifacts of a report into a directory, which is made if it is missing; gives the
paths of the files. -/
def writeArtifacts (r : Report) (directory : String) : Plan (Except Error (List String)) := do
  match ← Plan.call (.makeDirectories directory) with
  | .error f => return .error (.output directory f.text)
  | .ok () => writeEach directory r.distinct

end EmbeddedSolidity.Report
