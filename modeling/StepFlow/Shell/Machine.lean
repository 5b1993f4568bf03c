import StepFlow.Shell.Run

/-!
# Starting programs

A machine has a shell, a few tools, and an environment that every program inherits.

* `Machine.session`: what a shell makes of its environment;
* `Machine.launch`: runs the program at a path, or says why it cannot be started;
* `Machine.launcher`: the machine as what runs scripts.
-/

namespace StepFlow.Shell

/-- A machine: what every program finds in its environment, and the files below the folder where
relative paths start. -/
structure Machine where
  inherited : List (String × String)
  proper : ∀ e ∈ inherited, '=' ∉ e.1.toList.tail
  files : List String

namespace Machine

/-- A machine with the usual places of programs. -/
def plain : Machine :=
  ⟨[("HOME", "/root"), ("PATH", ":".intercalate Terrain.common.searched)], by decide, []⟩

/-- The folders and files of a machine. -/
def terrain (m : Machine) : Terrain :=
  ⟨((Keyed.find? "PATH" m.inherited).getD "/bin:/usr/bin").splitOn ":", m.files⟩

/-- What a script ends with. -/
def exitOf (s : Session) : Exit :=
  match s.signal with
  | some number => .signal number
  | none => .status s.status

/-- The variable that a text of an environment sets: its name ends at the first equals sign. A text
without a proper name sets none. -/
def assigned? (text : String) : Option (String × List Char) :=
  let bytes := Text.utf8 text
  let name := bytes.takeWhile (· ≠ '=')
  match bytes.dropWhile (· ≠ '=') with
  | [] => none
  | _ :: value => if isName name then some (String.ofList name, value) else none

/-- The session of a program before it starts. The last text that sets a variable counts. -/
def session (name : List Char) (parameters : List (List Char)) (environment : List String) : Session :=
  let known := environment.filterMap assigned?
  { name, parameters
    bindings := Keyed.ofList known
    exported := known.map Prod.fst
    status := 0
    input := []
    written := []
    duration := ⟨0⟩
    ended := false
    signal := none
    strict := false }

/-- What a session comes to. Starting a program takes some time, however short. -/
def completed (s : Session) : Completed :=
  ⟨s.textOf 1, s.textOf 2, exitOf s, ⟨s.duration.nanoseconds + 1⟩⟩

def completedTool (r : ToolResult) : Completed := ⟨r.output, r.errors, .status r.status, ⟨1⟩⟩

/-- The shell: with `-c` it runs a text, with a file it finds none, and else it reads nothing. -/
def shell (path : List Char) (arguments : List (List Char)) (environment : List String) : Session :=
  match arguments with
  | ['-', 'c'] :: source :: name :: parameters => interpret source (session name parameters environment)
  | ['-', 'c'] :: [source] => interpret source (session path [] environment)
  | ['-', 'c'] :: [] =>
    (session path [] environment).complain 2 (Text.utf8 "Syntax error: -c requires an argument")
  | ['-', 'e', 'c'] :: source :: rest =>
    interpret source { session (rest.head?.getD path) rest.tail environment with strict := true }
  | file :: _ =>
    let shown := path ++ Text.utf8 ": 0: cannot open " ++ file ++ Text.utf8 ": No such file\n"
    ((session path [] environment).write 2 shown).withStatus 2
  | [] => session path [] environment

/-- The list of an environment, as it stands. -/
def listing (environment : List String) : List Char := Tool.unlines (environment.map Text.utf8)

/-- Runs a program that the machine has. -/
def run (program : String) (path : List Char) (arguments : List (List Char))
    (environment : List String) : Completed :=
  match program, arguments with
  | "sh", arguments | "dash", arguments => completed (shell path arguments environment)
  | "env", [] => completedTool (.wrote (listing environment))
  | "printf", arguments =>
    let name := String.ofList (Text.readUtf8 path)
    let missing := .failed 1 s!"{name}: missing operand\nTry '{name} --help' for more information."
    completedTool (Tool.printf name missing arguments [])
  | "true", _ => completedTool (.silent 0)
  | "false", _ => completedTool (.silent 1)
  | program, arguments =>
    completed (runProgram depthLimit program path arguments (session path [] environment))

/-- The most bytes that an argument or an entry of an environment can have: `2 ^ 17 - 1`. -/
def longestArgument : Nat := 131071

/-- The program that a launch starts. -/
def program (m : Machine) (path : String) (arguments environment : List String) :
    Except Refusal String :=
  let texts := path :: arguments ++ environment
  if texts.any fun t => t.contains '\x00' then .error .nullCharacter
  else do
    let program ← m.terrain.find path
    if texts.any fun t => t.utf8ByteSize > longestArgument then throw .overlong
    return program

/-- Runs the program at a path. -/
def launch (m : Machine) (path : String) (arguments environment : List String) :
    Except String Completed :=
  match m.program path arguments environment with
  | .error refusal => .error refusal.message
  | .ok program => .ok (run program (Text.utf8 path) (arguments.map Text.utf8) environment)

/-- The machine as what runs scripts. -/
def launcher (m : Machine) : Launcher := ⟨m.inherited, m.proper, m.launch⟩

end Machine

end StepFlow.Shell
