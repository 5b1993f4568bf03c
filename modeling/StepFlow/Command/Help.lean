import StepFlow.Command.Grammar

/-!
# Descriptions of commands

A description says what a command is for, shows how it is called, and lists its commands, operands and
options in columns.

* `table`: rows in two columns;
* `CommandSpec.usage`: how a command is called;
* `CommandSpec.describe`: the description of the command that words lead to.
-/

namespace StepFlow

/-- A text with spaces after it up to a width. -/
def padRight (width : Nat) (text : String) : String :=
  text ++ String.ofList (List.replicate (width - text.length) ' ')

/-- Rows in two columns under a heading; there is no heading without rows. -/
def table (heading : String) (rows : List (String × String)) : List String :=
  let width := (rows.map fun row => row.1.length).foldl max 0
  let lines := rows.map fun row => "  " ++ padRight width row.1 ++ "  " ++ row.2
  if rows.isEmpty then [] else ["\n".intercalate ((heading ++ ":") :: lines)]

namespace OptionSpec

/-- An option as it is written. -/
def form (o : OptionSpec) : String :=
  match o.value with
  | some (sign, _) => "--" ++ o.name ++ " <" ++ sign ++ ">"
  | none => "--" ++ o.name

def row (o : OptionSpec) : String × String := ("    " ++ o.form, o.help)

end OptionSpec

namespace CommandSpec

/-- The row of the word that asks for descriptions. -/
def helpRow : String × String :=
  (helpWord, "Print this message or the help of the given subcommand(s)")

/-- The options in the order in which they are listed: by their places among the options of the command
or among the shared ones, and then by name. -/
def listed (shared : List OptionSpec) (spec : CommandSpec) : List OptionSpec :=
  let placed := spec.options.zipIdx ++ shared.zipIdx
  let before (a b : OptionSpec × Nat) : Bool :=
    a.2 < b.2 || (a.2 = b.2 && a.1.name ≤ b.1.name)
  (placed.mergeSort before).map Prod.fst

/-- How a command is called, behind the words that lead to it. -/
def usage (shared : List OptionSpec) (spec : CommandSpec) : List String :=
  let optional := (spec.options ++ shared).any fun o => !o.required
  let required := (spec.options ++ shared).filter OptionSpec.required
  let command := if spec.commandRequired then "<COMMAND>" else "[COMMAND]"
  (if optional then ["[OPTIONS]"] else []) ++ required.map OptionSpec.form ++
    spec.operands.map (fun sign => "<" ++ sign ++ ">") ++
    if spec.commands.isEmpty then [] else [command]

/-- The parts of a description, between which a line is left blank. -/
def layOut (parts : List String) : String := "\n\n".intercalate parts ++ "\n"

/-- The description of a command behind the words that lead to it. -/
def describeHere (shared : List OptionSpec) (spec : CommandSpec) (words : List String) : String :=
  let call := " ".intercalate (words ++ spec.usage shared)
  let commands :=
    if spec.commands.isEmpty then [] else spec.commands.map (fun c => (c.name, c.help)) ++ [helpRow]
  let operands := spec.operands.map fun sign => ("<" ++ sign ++ ">", "")
  let version := if words.length = 1 then [("-V, --version", "Print version")] else []
  let options := (spec.listed shared).map OptionSpec.row ++ [("-h, --help", "Print help")] ++ version
  layOut ([spec.help, "Usage: " ++ call] ++ table "Commands" commands ++
    table "Arguments" operands ++ table "Options" options)

/-- The description of the word that asks for descriptions. -/
def describeHelp (words : List String) : String :=
  let call := " ".intercalate (words ++ [helpWord, "[COMMAND]..."])
  layOut ([helpRow.2, "Usage: " ++ call] ++
    table "Arguments" [("[COMMAND]...", "Print help for the subcommand(s)")])

/-- The description of the command that words lead to, behind the words in front of them. -/
def describeFrom (shared : List OptionSpec) (spec : CommandSpec) (front : List String) :
    List String → String
  | [] => spec.describeHere shared front
  | word :: rest =>
    match spec.command? word with
    | some c => describeFrom shared c (front ++ [word]) rest
    | none => describeHelp front

/-- The description of the command that words lead to. -/
def describe (shared : List OptionSpec) (spec : CommandSpec) (words : List String) : String :=
  spec.describeFrom shared [spec.name] words

end CommandSpec

end StepFlow
