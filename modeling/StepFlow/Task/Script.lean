import StepFlow.Json.Printer
import StepFlow.Task.Basic
import StepFlow.Text.Blank
import StepFlow.Text.Utf8

/-!
# Script tasks

A script task runs a program. The member `args` of its input becomes the arguments of the program and,
flattened, entries of its environment. Lines of the program's output become the members of the result.

* `Launcher`: what runs programs, and `Launcher.block`: the environment that a program gets from it;
* `Script.arguments`, `Script.entries`: what a script gets of its input;
* `Script.readOutput`: what its output says;
* `Script.performer`: the task.
-/

namespace StepFlow

/-- How a program ended. -/
inductive Exit where
  | status (code : Nat)
  | signal (number : Nat)
deriving DecidableEq, Repr, Inhabited

/-- The signals and their names. -/
def signalNames : List (Nat × String) :=
  [(1, "SIGHUP"), (2, "SIGINT"), (3, "SIGQUIT"), (4, "SIGILL"), (5, "SIGTRAP"), (6, "SIGABRT"),
    (7, "SIGBUS"), (8, "SIGFPE"), (9, "SIGKILL"), (10, "SIGUSR1"), (11, "SIGSEGV"), (12, "SIGUSR2"),
    (13, "SIGPIPE"), (14, "SIGALRM"), (15, "SIGTERM"), (16, "SIGSTKFLT"), (17, "SIGCHLD"),
    (18, "SIGCONT"), (19, "SIGSTOP"), (20, "SIGTSTP"), (21, "SIGTTIN"), (22, "SIGTTOU"),
    (23, "SIGURG"), (24, "SIGXCPU"), (25, "SIGXFSZ"), (26, "SIGVTALRM"), (27, "SIGPROF"),
    (28, "SIGWINCH"), (29, "SIGIO"), (30, "SIGPWR"), (31, "SIGSYS")]

/-- The wording of the end of a program. -/
def Exit.text : Exit → String
  | .status code => s!"exit status: {code}"
  | .signal number =>
    match signalNames.lookup number with
    | some name => s!"signal: {number} ({name})"
    | none => s!"signal: {number}"

/-- What comes of a program: the bytes that it wrote, and how and after what time it ended. -/
structure Completed where
  output : List Char
  errors : List Char
  exit : Exit
  duration : Duration

/-- What runs programs. -/
structure Launcher where
  /-- The names and values that every program finds in its environment. -/
  inherited : List (String × String)
  /-- The names were read off texts `NAME=VALUE`. -/
  proper : ∀ e ∈ inherited, '=' ∉ e.1.toList.tail
  /-- Runs the program at a path with arguments and an environment, or says why it could not be
  started. -/
  start : (path : String) → (arguments environment : List String) → Except String Completed

namespace Launcher

/-- The text with which a name and its value stand in an environment. -/
def assignment (entry : String × String) : String := entry.1 ++ "=" ++ entry.2

/-- The environment of a program, as the texts that it gets: what is inherited with some additions, of
which the last one with a name counts. -/
def block (launcher : Launcher) (additions : List (String × String)) : List String :=
  (Keyed.ofList (launcher.inherited ++ additions)).map assignment

end Launcher

namespace Script

/-- The start of the names of the entries in the environment. -/
def inputPrefix : String := "WAYPOINT_IN"

/-- The start of a line that gives a member of the result. -/
def outputPrefix : List Char := "WAYPOINT_OUT".toList

/-- The start of a line that gives a name to an error. -/
def errorPrefix : List Char := "WAYPOINT_ERR=".toList

/-! ## What a program gets -/

/-- The text of a value: a string as it is, and anything else as a document. -/
def textOf : Json → String
  | .str s => s
  | value => value.render

/-- The arguments of a program: one for each item of an array, none for an object, and one for any
other value. -/
def arguments : Json → List String
  | .arr items => items.map textOf
  | .obj _ => []
  | value => [textOf value]

mutual

/-- The entries in the environment: one for each part of a value that is neither array nor object, with
a name that leads to it. -/
def entries (name : String) : Json → List (String × String)
  | .obj members => memberEntries name members
  | .arr items => itemEntries name 0 items
  | value => [(name, textOf value)]

/-- The entries of the members of an object. -/
def memberEntries (name : String) : List (String × Json) → List (String × String)
  | [] => []
  | (key, value) :: rest => entries (name ++ "_" ++ key) value ++ memberEntries name rest

/-- The entries of the items of an array from position `i` on. -/
def itemEntries (name : String) (i : Nat) : List Json → List (String × String)
  | [] => []
  | value :: rest => entries (name ++ "_" ++ toString i) value ++ itemEntries name (i + 1) rest

end

/-! ## What the output says -/

/-- What has been read of an output. -/
structure Reading where
  fields : Keyed Json
  /-- The name that the program gives to its error. -/
  reported : Option String
deriving Inhabited

/-- The key and the value of a line, which an equals sign divides. A mark before the key is taken off. -/
def field? (rest : List Char) : Option (String × String) :=
  match rest.dropWhile (· ≠ '=') with
  | [] => none
  | _ :: value =>
    let key := rest.takeWhile (· ≠ '=')
    let key := match key with
      | '_' :: name => name
      | name => name
    some (String.ofList key, String.ofList value)

/-- What a line adds; most lines add nothing. -/
def Reading.add (r : Reading) (line : List Char) : Reading :=
  if errorPrefix.isPrefixOf line then
    { r with reported := some (String.ofList (line.drop errorPrefix.length)) }
  else if outputPrefix.isPrefixOf line then
    match field? (line.drop outputPrefix.length) with
    | some (key, value) => { r with fields := Keyed.insert key (.str value) r.fields }
    | none => r
  else r

/-- What the lines of an output say. -/
def readOutput (output : List Char) : Reading :=
  (Text.lines output).foldl Reading.add ⟨[], none⟩

/-! ## The task -/

/-- The result of a program. A name that the program gives to its error counts first, then how it
ended. -/
def result (path : String) (c : Completed) : Except TaskError Json :=
  let errors := String.ofList (Text.trim (Text.readUtf8 c.errors))
  let reading := readOutput (Text.readUtf8 c.output)
  match reading.reported with
  | some name => .error (.failed (some name) errors)
  | none =>
    if c.exit = .status 0 then .ok (.obj reading.fields)
    else
      let exit := c.exit.text
      .error (.failed none (if errors.isEmpty then s!"'{path}' exited with {exit}" else errors))

/-- The task that runs the program at the path of its resource. -/
def performer {σ : Type} (launcher : Launcher) : Performer σ := fun request memory =>
  let path := request.resource.path
  match request.input.member? "args" with
  | none => (.immediate (.error (.invalidInput "'args' not found")), memory)
  | some args =>
    match launcher.start path (arguments args) (launcher.block (entries inputPrefix args)) with
    | .error cause => (.immediate (.error (.spawn path cause)), memory)
    | .ok c => (⟨c.duration, result path c⟩, memory)

end Script

/-- The tasks that are always there, by the types of their resources. -/
def builtinTasks {σ : Type} (launcher : Launcher) : Keyed (Performer σ) :=
  [("script", Script.performer launcher)]

end StepFlow
