import StepFlow.Command.Basic
import StepFlow.Command.Error
import StepFlow.Host

/-!
# Carrying out commands

A command is carried out on a workspace and a host. It changes the workspace, and it either writes an
output or fails.

* `Surroundings`: what a command meets;
* `Surroundings.execute`, `Surroundings.carryOut`: the commands;
* `Conclusion`: what the program ends with, and `Surroundings.answer`: the answer to a command line.
-/

namespace StepFlow

/-- What a command meets when it is carried out. -/
structure Surroundings where
  host : Host
  workspace : Workspace
  /-- The text on the standard input. -/
  input : String
  /-- The folder of the user, in which the data folder stands that is used if none is named. -/
  home : Option String

/-- What a command writes if it does not fail. -/
abbrev Output : Type := Except CommandError String

/-- Why nothing can listen at an address. -/
def addressFault (address : String) : AddressFault :=
  let digits := (address.toList.reverse.takeWhile (· ≠ ':')).reverse
  if !address.toList.contains ':' then .noPort
  else match readCount? (String.ofList digits) with
    | some n => if n < 65536 then .unsupported else .badPort
    | none => .badPort

namespace Surroundings

variable (s : Surroundings)

/-- The workflow of a document in a file. Here a folder counts as a file without a text. -/
def document (path : String) : Except CommandError Workflow :=
  match s.workspace.read path with
  | .ok text => (Workflow.compileText text).mapError (.rejected path)
  | .error .isFolder => .error (.noText path .isFolder)
  | .error fault => .error (.noDocument path fault)

/-- The record of a document in a file. -/
def record (name path : String) : Except CommandError WorkflowRecord := do
  let text ← (s.workspace.read path).mapError (.noDocument path)
  (WorkflowRecord.compile s.host.moment name text).mapError (.rejected path)

/-- The input of an execution. -/
def inputOf (options : RunOptions) : Except CommandError Json := do
  let text ← match options.input with
    | some path => (s.workspace.read path).mapError (.noInput path)
    | none => pure s.input
  match inputOfText text with
  | some input => return input
  | none => throw .malformedInput

/-- What is written at the end of an execution. -/
def ofOutcome : Outcome → Output
  | .ok status =>
    match status.verdict with
    | .ok output => .ok (output.pretty ++ "\n")
    | .error message => .error (.failed s.host.identifier message)
  | .error error => .error (.broken error)

/-- Runs a workflow under the options of a command. Nothing is written if it does not come to an end. -/
def execute (options : RunOptions) (w : Except CommandError Workflow) : Option Output :=
  let prepared : Except CommandError (Workflow × Json) := do
    let w ← w
    return (w, ← s.inputOf options)
  match prepared with
  | .error error => some (.error error)
  | .ok (w, input) => (s.host.start options.limit false w input).map s.ofOutcome

/-- What is left of an archive after a change, which stays as it was if the change fails. -/
def changed (archive : DataArchive) : Except CommandError DataArchive → Output × DataArchive
  | .ok archive => (.ok "", archive)
  | .error error => (.error error, archive)

/-- Carries out work on the archive of a data folder, which is made if it is not there. -/
def withArchive (folder : String) (work : DataArchive → Option (Output × DataArchive)) :
    Option (Output × Workspace) :=
  match s.workspace.folderFault? folder with
  | some fault => some (.error (.noDataFolder folder fault), s.workspace)
  | none =>
    (work (s.workspace.archive folder)).map fun (output, archive) =>
      (output, s.workspace.keep folder archive)

/-- Carries out a command. All of them but the run of a document need the data folder. -/
def carryOut (folder : String) : Command → Option (Output × Workspace)
  | .start path options => (s.execute options (s.document path)).map fun r => (r, s.workspace)
  | .register name path replace => s.withArchive folder fun archive =>
    some (changed archive do
      (archive.save (← s.record name path) replace).mapError (.notRegistered name))
  | .list => s.withArchive folder fun archive =>
    some (.ok (String.join (archive.names.map (· ++ "\n"))), archive)
  | .execute name options => s.withArchive folder fun archive =>
    let record := (archive.load name).mapError (.notLoaded name)
    (s.execute options (record.map WorkflowRecord.workflow)).map fun r => (r, archive)
  | .remove name => s.withArchive folder fun archive =>
    some (changed archive ((archive.delete name).mapError (.notRemoved name)))
  | .serve address => s.withArchive folder fun archive =>
    some (.error (.notBound address (addressFault address)), archive)

/-- The data folder of an invocation. -/
def folder (i : Invocation) : Except CommandError String :=
  match i.dataFolder, s.home with
  | some folder, _ => .ok folder
  | none, some home => .ok (home ++ "/." ++ Program.name)
  | none, none => .error .noHome

/-- Makes a log file in the folder for it, if there is one. -/
def startLog (i : Invocation) : Except CommandError Workspace :=
  match i.logFolder with
  | none => .ok s.workspace
  | some folder =>
    let day := String.ofList ((s.host.clock 0).render.toList.take 10 |>.filter Char.isDigit)
    let path := placesPath (places folder ++ ["dt=" ++ day])
    match s.workspace.folderFault? path with
    | some fault => .error (.noLogFolder path fault)
    | none => .ok (s.workspace.log folder)

/-- Carries out an invocation, after its log file is made. -/
def invoke (i : Invocation) : Option (Output × Workspace) :=
  match s.startLog i, i.command, s.folder i with
  | .error error, _, _ => some (.error error, s.workspace)
  | .ok w, none, _ => some (.ok Program.hint, w)
  | .ok w, some _, .error error => some (.error error, w)
  | .ok w, some command, .ok folder => { s with workspace := w }.carryOut folder command

end Surroundings

/-- What the program ends with. -/
inductive Conclusion where
  /-- The command line does not follow the grammar. -/
  | misuse
  | wrote (output : String)
  | failed (error : CommandError)

/-- The status that the program leaves. -/
def Conclusion.status : Conclusion → Nat
  | .wrote _ => 0
  | .failed _ => 1
  | .misuse => 2

/-- The answer to a command line, and the workspace after it, given the data folder that the environment
names. There is no answer if a workflow runs that does not come to an end. -/
def Surroundings.answer (s : Surroundings) (dataFolder : Option String) (arguments : List String) :
    Option (Conclusion × Workspace) :=
  match Invocation.read dataFolder arguments with
  | .error notice =>
    match notice.output? dataFolder with
    | some output => some (.wrote output, s.workspace)
    | none => some (.misuse, s.workspace)
  | .ok i =>
    (s.invoke i).map fun
      | (.ok output, w) => (.wrote output, w)
      | (.error error, w) => (.failed error, w)

end StepFlow
