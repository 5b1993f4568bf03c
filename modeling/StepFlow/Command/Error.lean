import StepFlow.Command.Workspace
import StepFlow.Execution.Basic

/-!
# Failures of commands

A failure says what the program was about to do, and has a chain of causes, of which each one explains
the one before.

* `AddressFault`, `CommandError`: the failures;
* `CommandError.heading`, `CommandError.causes`: what is said about them;
* `CommandError.report`: a failure as the program writes it.
-/

namespace StepFlow

/-- Why nothing can listen at an address. -/
inductive AddressFault where
  | noPort
  | badPort
  /-- Listening is not a part of this program. -/
  | unsupported
deriving DecidableEq, Repr

/-- The wording of a fault. -/
def AddressFault.message : AddressFault → String
  | .noPort => "invalid socket address"
  | .badPort => "invalid port value"
  | .unsupported => "Operation not supported (os error 95)"

/-- Why a command failed. -/
inductive CommandError where
  | noDocument (path : String) (fault : FileFault)
  /-- What stands at the path can be opened but has no text. -/
  | noText (path : String) (fault : FileFault)
  | rejected (path : String) (error : CompileError)
  | noInput (path : String) (fault : FileFault)
  | malformedInput
  | noDataFolder (path : String) (fault : FileFault)
  | noLogFolder (path : String) (fault : FileFault)
  | noHome
  | notRegistered (name : String) (error : StoreError)
  | notLoaded (name : String) (error : StoreError)
  | notRemoved (name : String) (error : StoreError)
  | notBound (address : String) (fault : AddressFault)
  /-- The workflow came to no end of its own. -/
  | broken (error : RunError)
  /-- The workflow ended with an error. -/
  | failed (identifier message : String)

/-- A rejection and the faults that explain it. -/
def CompileError.chain (error : CompileError) : List String :=
  error.message :: match error with
    | .invalidPath _ _ cause => [cause.message]
    | .invalidBranch _ cause => cause.chain
    | _ => []

/-- A failed execution and the failure that explains it. -/
def RunError.chain (error : RunError) : List String :=
  error.message :: match error with
    | .stateFailed _ failure => [failure.text]
    | _ => []

namespace CommandError

/-- What the program was about to do. -/
def heading : CommandError → String
  | .noDocument path _ => s!"failed to read workflow file: {path}"
  | .noText path _ => s!"failed to compile workflow file: {path}"
  | .rejected path _ => s!"failed to compile workflow file: {path}"
  | .noInput path _ => s!"failed to read input file: {path}"
  | .malformedInput => "failed to parse input JSON"
  | .noDataFolder path _ => s!"failed to create data directory: {path}"
  | .noLogFolder path _ => s!"failed to create log directory: {path}"
  | .noHome => "could not determine home directory"
  | .notRegistered name _ => s!"failed to register workflow '{name}'"
  | .notLoaded name _ => s!"failed to load workflow '{name}'"
  | .notRemoved name _ => s!"failed to remove workflow '{name}'"
  | .notBound address _ => s!"failed to bind {address}"
  | .broken _ => "workflow execution failed"
  | .failed identifier message => s!"execution {identifier} failed: {message}"

/-- The causes, from the nearest one on. -/
def causes : CommandError → List String
  | .noDocument _ fault => [fault.message]
  | .noText _ fault => ["invalid document: " ++ fault.message]
  | .rejected _ error => error.chain
  | .noInput _ fault => [fault.message]
  | .malformedInput => ["the text is not a document"]
  | .noDataFolder _ fault => [fault.message]
  | .noLogFolder _ fault => [fault.message]
  | .noHome => []
  | .notRegistered _ error => [error.message]
  | .notLoaded _ error => [error.message]
  | .notRemoved _ error => [error.message]
  | .notBound _ fault => [fault.message]
  | .broken error => error.chain
  | .failed _ _ => []

/-- A text behind a mark, with the lines after the first one indented by so many spaces. -/
def hang (mark : String) (indent : Nat) (text : String) : String :=
  mark ++ ("\n" ++ String.ofList (List.replicate indent ' ')).intercalate (text.splitOn "\n")

/-- A number in a column of five places. -/
def column (n : Nat) : String :=
  let digits := toString n
  String.ofList (List.replicate (5 - digits.length) ' ') ++ digits

/-- The causes as they are written. Several ones are numbered from zero. -/
def layOutCauses : List String → List String
  | [] => []
  | [cause] => [hang "    " 4 cause]
  | causes => causes.zipIdx.map fun (cause, n) => hang (column n ++ ": ") 7 cause

/-- A failure as the program writes it. -/
def report (error : CommandError) : String :=
  let causes := layOutCauses error.causes
  let text := if causes.isEmpty then error.heading
    else "\n".intercalate ((error.heading ++ "\n\nCaused by:") :: causes)
  "Error: " ++ text ++ "\n"

end CommandError

end StepFlow
