import EmbeddedSolidity.Snippet.Id
import EmbeddedSolidity.Text.Blank

/-!
# Errors

Everything that can go wrong between the options of a run and its artifacts. Errors of the
options, of the workspace and of the setup end a run; all others belong to one snippet, one
source file or one output file.

* `Error.message` : the text of an error;
* `Error.withHint` : the text and, where one is known, a way out;
* `Error.isFatal` : whether the run must end.
-/

namespace EmbeddedSolidity

/-- Why a run of the compiler was not accepted. -/
inductive BuildFault where
  /-- The executable was not found or did not start. -/
  | notStarted
  /-- It ended with a status other than zero, or by a signal. -/
  | exited (status : Option Int)
  /-- It ended with status zero but wrote to standard error. -/
  | wroteErrors
  /-- It did not end within this many milliseconds. -/
  | timedOut (millis : Nat)
deriving DecidableEq, Repr

/-- The words for a fault. -/
def BuildFault.text : BuildFault → String
  | .notStarted => "could not start compiler"
  | .exited (some code) => "compiler exited with status " ++ toString code
  | .exited none => "compiler terminated by signal"
  | .wroteErrors => "compiler reported errors on stderr"
  | .timedOut millis => "compiler timed out after " ++ toString (millis / 1000) ++ "s"

/-- What can go wrong. -/
inductive Error where
  | options (message : String)
  | workspace (path message : String)
  | input (id : Snippet.Id) (message : String)
  | build (id : Snippet.Id) (fault : BuildFault) (output : String)
  | artifact (id : Snippet.Id) (path message : String)
  | scan (path message : String)
  | output (path message : String)
  | setup (message : String)
  | run (failed : Nat) (details : String)
deriving DecidableEq, Repr

namespace Error

/-- The output of the compiler behind a message, on lines of its own unless it is blank. -/
def outputText (output : String) : String :=
  if Text.isBlank output then "" else "\n" ++ Text.trim output

/-- The text of an error. -/
def message : Error → String
  | .options m => "invalid options: " ++ m
  | .workspace path m => "workspace error at " ++ path ++ ": " ++ m
  | .input id m => "snippet " ++ id.name ++ ": " ++ m
  | .build id fault out =>
    "build failed for snippet " ++ id.name ++ ": " ++ fault.text ++ outputText out
  | .artifact id path m => "invalid artifact for snippet " ++ id.name ++ " at " ++ path ++ ": " ++ m
  | .scan path m => "failed to scan " ++ path ++ ": " ++ m
  | .output path m => "failed to write " ++ path ++ ": " ++ m
  | .setup m => "runtime error: " ++ m
  | .run failed details => toString failed ++ " snippet(s) failed to compile:\n" ++ details

/-- The run must end. -/
def isFatal : Error → Bool
  | .options _ | .workspace _ _ | .setup _ => true
  | _ => false

/-- The snippet that the error belongs to. -/
def snippet? : Error → Option Snippet.Id
  | .input id _ | .build id _ _ | .artifact id _ _ => some id
  | _ => none

/-- A way out, where one is known. -/
def hint? : Error → Option String
  | .build _ .notStarted _ =>
    some "install Foundry (https://getfoundry.sh) or pass the forge executable path"
  | .build _ (.timedOut _) _ =>
    some "raise `buildTimeoutSecs` or set it to 0 to wait indefinitely"
  | .artifact _ _ _ =>
    some "the forge output layout may differ from this version; check `forge --version`"
  | .options _ =>
    some "recognized options are solc, forgeExecutable, workspaceDir and buildTimeoutSecs"
  | _ => none

/-- The text of an error with its way out. -/
def withHint (e : Error) : String :=
  match e.hint? with
  | some hint => e.message ++ "\n  hint: " ++ hint
  | none => e.message

end Error

end EmbeddedSolidity
