import StepFlow.Command.Help
import StepFlow.Duration

/-!
# The commands

The program runs workflow documents, keeps workflows under names in a data folder, and runs those.

* `program`: the grammar of its command lines;
* `Command`, `Invocation`: what a command line asks for;
* `Invocation.read`: the invocation that a command line spells.
-/

namespace StepFlow

namespace Program

def name : String := "waypoint"

/-- What the program says about its version. -/
def version : String := name ++ " 0.0.1-alpha.0\n"

/-- What the program says if it is given nothing to do. -/
def hint : String := name ++ " - use --help to see available commands\n"

/-- The variable that names the data folder. -/
def dataVariable : String := "WAYPOINT_DATA_DIR"

/-- The address of the service unless another one is given. -/
def defaultAddress : String := "127.0.0.1:8080"

/-- The options of every command. The argument is the data folder that the environment names. -/
def shared (dataFolder : Option String) : List OptionSpec :=
  let current := dataFolder.getD ""
  [⟨"data-dir", some ("DATA_DIR", .path), false,
      s!"Path to the data directory (default: ~/.{name}) [env: {dataVariable}={current}]"⟩,
    ⟨"log", some ("LOG", .path), false, "Also write logs to <dir>/dt=YYYYMMDD/<uuid>.log"⟩]

/-- The option with a workflow document. -/
def documentOption : OptionSpec :=
  ⟨"asl", some ("ASL", .path), true, "Path to the workflow document"⟩

/-- The options of an execution. -/
def executionOptions : List OptionSpec :=
  [⟨"input", some ("INPUT", .path), false,
      "Path to the input JSON (default: stdin, or \x7b\x7d when stdin is a terminal)"⟩,
    ⟨"timeout", some ("TIMEOUT", .count), false, "Execution timeout in seconds"⟩]

/-- The commands for workflows that are kept. -/
def workflowCommands : List CommandSpec :=
  [⟨"register", "Register a workflow under a name",
      [documentOption, ⟨"force", none, false, "Replace an existing workflow with the same name"⟩],
      ["NAME"], [], false⟩,
    ⟨"list", "List registered workflows", [], [], [], false⟩,
    ⟨"exec", "Run a registered workflow", executionOptions, ["NAME"], [], false⟩,
    ⟨"rm", "Remove a registered workflow", [], ["NAME"], [], false⟩]

/-- The grammar of the command lines. -/
def grammar : CommandSpec :=
  ⟨name, "Waypoint - A state-machine workflow engine", [], [],
    [⟨"start-execution", "Compile and run a workflow document", documentOption :: executionOptions, [],
        [], false⟩,
      ⟨"workflow", "Manage registered workflows", [], [], workflowCommands, true⟩,
      ⟨"serve", "Serve the HTTP interface",
        [⟨"addr", some ("ADDR", .text), false, s!"[default: {defaultAddress}]"⟩], [], [], false⟩],
    false⟩

end Program

/-- How a workflow is to be run. -/
structure RunOptions where
  /-- The file with the input; without one it is read from the standard input. -/
  input : Option String
  /-- The limit of time. -/
  limit : Option Duration

/-- What the program can be asked to do. -/
inductive Command where
  /-- Runs the workflow of a document. -/
  | start (document : String) (options : RunOptions)
  /-- Keeps the workflow of a document under a name. -/
  | register (name document : String) (replace : Bool)
  /-- Lists the names. -/
  | list
  /-- Runs the workflow under a name. -/
  | execute (name : String) (options : RunOptions)
  /-- Forgets the workflow under a name. -/
  | remove (name : String)
  /-- Offers the service at an address. -/
  | serve (address : String)

/-- What a command line asks for. -/
structure Invocation where
  command : Option Command
  /-- The data folder, if one is named. -/
  dataFolder : Option String
  /-- The folder for log files. -/
  logFolder : Option String

/-- The options of an execution that a command line gives. No limit is meant by zero. -/
def RunOptions.ofLine (line : CommandLine) : RunOptions :=
  let seconds := ((Keyed.find? "timeout" line.values).bind readCount?).getD 0
  ⟨Keyed.find? "input" line.values, if seconds > 0 then some (.seconds seconds) else none⟩

/-- The command that a command line asks for. -/
def Command.ofLine? (line : CommandLine) : Option Command :=
  let document := (Keyed.find? "asl" line.values).getD ""
  let force := (Keyed.find? "force" line.values).isSome
  match line.words, line.operands with
  | ["start-execution"], [] => some (.start document (.ofLine line))
  | ["workflow", "register"], [name] => some (.register name document force)
  | ["workflow", "list"], [] => some .list
  | ["workflow", "exec"], [name] => some (.execute name (.ofLine line))
  | ["workflow", "rm"], [name] => some (.remove name)
  | ["serve"], [] => some (.serve ((Keyed.find? "addr" line.values).getD Program.defaultAddress))
  | _, _ => none

namespace Invocation

/-- What a command line asks for. A folder that it names counts before the one of the environment. -/
def ofLine (dataFolder : Option String) (line : CommandLine) : Invocation :=
  ⟨Command.ofLine? line, (Keyed.find? "data-dir" line.values).or dataFolder, Keyed.find? "log" line.values⟩

/-- What the words of a command line ask for, given the data folder that the environment names. -/
def read (dataFolder : Option String) (arguments : List String) : Except Notice Invocation :=
  (Program.grammar.read (Program.shared dataFolder) arguments).map (ofLine dataFolder)

end Invocation

/-- What the program writes on a notice; nothing is written out on a misuse. -/
def Notice.output? (dataFolder : Option String) : Notice → Option String
  | .misuse => none
  | .help words => some (Program.grammar.describe (Program.shared dataFolder) words)
  | .version => some Program.version

end StepFlow
