import StepFlow.Json.Keyed

/-!
# Grammars of command lines

A command line names a command by way of the commands that it belongs to. Options have a long name and
stand anywhere behind the command that has them; shared options belong to every command. The value of an
option follows it, either after an equals sign or as the next word. What is neither an option nor a
command is an operand. After a word of two dashes every word is an operand.

* `WordKind`, `OptionSpec`, `CommandSpec`: grammars;
* `Notice`: what a command line can ask for beside a command;
* `CommandLine`, `CommandSpec.read`: what a command line says.
-/

namespace StepFlow

/-- What the value of an option has to be. -/
inductive WordKind where
  | text
  /-- A text that is not empty. -/
  | path
  /-- A number of at most 64 bits. -/
  | count

/-- The number of at most 64 bits that a word spells, possibly with a plus sign. -/
def readCount? (word : String) : Option Nat :=
  let digits := if word.startsWith "+" then word.toList.tail else word.toList
  let n := digits.foldl (fun n c => 10 * n + (c.toNat - '0'.toNat)) 0
  if digits.isEmpty || !digits.all Char.isDigit || n ≥ 18446744073709551616 then none else some n

/-- Whether a word is a value of a kind. -/
def WordKind.admits : WordKind → String → Bool
  | .text, _ => true
  | .path, word => !word.isEmpty
  | .count, word => (readCount? word).isSome

/-- An option, or a switch if it has no value. -/
structure OptionSpec where
  name : String
  /-- The sign that stands for the value in a description, and what the value has to be. -/
  value : Option (String × WordKind)
  required : Bool
  help : String

/-- A command with its own options, operands and commands. -/
structure CommandSpec where
  name : String
  help : String
  options : List OptionSpec
  /-- The signs that stand for the operands in a description. -/
  operands : List String
  commands : List CommandSpec
  /-- Whether one of the commands has to be named. -/
  commandRequired : Bool

/-- What a command line asks for if it does not give a command to carry out. -/
inductive Notice where
  /-- The command line does not follow the grammar. -/
  | misuse
  /-- The description of the command that the words lead to. -/
  | help (words : List String)
  | version
deriving DecidableEq, Repr

/-- What a command line says. -/
structure CommandLine where
  /-- The words that lead to the command. -/
  words : List String
  /-- The values of the options that are given. A switch has an empty value. -/
  values : Keyed String
  operands : List String
deriving DecidableEq, Repr

namespace CommandSpec

def command? (spec : CommandSpec) (name : String) : Option CommandSpec :=
  spec.commands.find? fun c => c.name = name

/-- The word that asks for a description, where there are commands. -/
def helpWord : String := "help"

/-- Whether the words lead to a command, or to the word that asks for descriptions. -/
def leads (spec : CommandSpec) : List String → Bool
  | [] => true
  | word :: rest =>
    match spec.command? word with
    | some c => leads c rest
    | none => word = helpWord && !spec.commands.isEmpty && rest.isEmpty

end CommandSpec

/-! ## Reading one command -/

/-- What was read behind the name of a command. -/
structure Reading where
  values : Keyed String
  /-- An option whose value is still to come or still to be looked at. -/
  pending : Option (OptionSpec × Option String)
  /-- The operands, the last one first. -/
  operands : List String

namespace Reading

def start : Reading := ⟨[], none, []⟩

/-- Records an option, which is given at most once. -/
def record (r : Reading) (option : OptionSpec) (value : String) : Except Notice Reading :=
  let fits := match option.value with
    | some (_, kind) => kind.admits value
    | none => true
  if fits && (Keyed.find? option.name r.values).isNone then
    .ok { r with values := Keyed.insert option.name value r.values, pending := none }
  else .error .misuse

/-- Records the option that is pending. -/
def settle (r : Reading) : Except Notice Reading :=
  match r.pending with
  | none => .ok r
  | some (option, some value) => r.record option value
  | some (_, none) => .error .misuse

/-- Whether the next word is the value of an option. -/
def awaits (r : Reading) : Bool :=
  match r.pending with
  | some (_, none) => true
  | _ => false

/-- Takes a word as the value of the option that awaits it. No value starts with a dash, unless it is a
single one. -/
def accept (r : Reading) (word : String) : Except Notice Reading :=
  match r.pending with
  | some (option, none) =>
    if word.startsWith "-" && word ≠ "-" then .error .misuse
    else .ok { r with pending := some (option, some word) }
  | _ => .error .misuse

/-- Takes a word as an operand, if the command has one more. -/
def operand (spec : CommandSpec) (r : Reading) (word : String) : Except Notice Reading := do
  if r.operands.length < spec.operands.length then
    let r ← r.settle
    return { r with operands := word :: r.operands }
  else throw .misuse

end Reading

/-- A word that starts with two dashes: the name of an option, and the value after an equals sign. -/
def splitOption (word : String) : String × Option String :=
  let cs := word.toList.drop 2
  let value := match cs.dropWhile (· ≠ '=') with
    | _ :: rest => some (String.ofList rest)
    | [] => none
  (String.ofList (cs.takeWhile (· ≠ '=')), value)

namespace CommandSpec

/-- Whether all that a command requires was read. -/
def complete (spec : CommandSpec) (r : Reading) : Bool :=
  !spec.commandRequired && r.operands.length = spec.operands.length &&
    spec.options.all fun o => !o.required || (Keyed.find? o.name r.values).isSome

/-- Takes a word that starts with two dashes. -/
def readOption (spec : CommandSpec) (shared : List OptionSpec) (words : List String) (r : Reading)
    (word : String) : Except Notice Reading := do
  let (name, value) := splitOption word
  match (spec.options ++ shared).find? fun o => o.name = name with
  | some option =>
    let r ← r.settle
    match option.value, value with
    | some _, none => return { r with pending := some (option, none) }
    | some _, some value => r.record option value
    | none, none => r.record option ""
    | none, some _ => throw .misuse
  | none =>
    let _ ← r.settle
    if word = "--help" then throw (.help words)
    else if word = "--version" && words.isEmpty then throw .version
    else throw .misuse

/-- Takes a word that starts with one dash: the short name of a request for a notice. -/
def readShort (words : List String) (r : Reading) (word : String) : Except Notice Reading := do
  let _ ← r.settle
  match word.toList with
  | '-' :: 'h' :: _ => throw (.help words)
  | '-' :: 'V' :: _ => if words.isEmpty then throw .version else throw .misuse
  | _ => throw .misuse

/-- Reads the words behind two dashes, which are operands. -/
def readOperands (spec : CommandSpec) (words : List String) (r : Reading) :
    List String → Except Notice CommandLine
  | [] => do
    let r ← r.settle
    if spec.complete r then return ⟨words, r.values, r.operands.reverse⟩ else throw .misuse
  | word :: rest => do readOperands spec words (← r.operand spec word) rest

/-- Reads the words behind the name of a command. What is given behind the name of a command counts
before what was given in front of it. -/
def readFrom (shared : List OptionSpec) (spec : CommandSpec) (words : List String) (r : Reading) :
    List String → Except Notice CommandLine
  | [] => readOperands spec words r []
  | word :: rest =>
    if r.awaits then do readFrom shared spec words (← r.accept word) rest
    else if word = helpWord && !spec.commands.isEmpty then
      .error (if spec.leads rest then .help (words ++ rest) else .misuse)
    else match spec.command? word with
      | some c => do
        let line ← readFrom shared c (words ++ [word]) .start rest
        let r ← r.settle
        return { line with values := line.values.foldl (fun t e => Keyed.insert e.1 e.2 t) r.values }
      | none =>
        if word = "--" then readOperands spec words r rest
        else if word.startsWith "--" then do
          readFrom shared spec words (← spec.readOption shared words r word) rest
        else if word.startsWith "-" && word ≠ "-" then do
          readFrom shared spec words (← readShort words r word) rest
        else do readFrom shared spec words (← r.operand spec word) rest

def read (shared : List OptionSpec) (spec : CommandSpec) (arguments : List String) :
    Except Notice CommandLine :=
  readFrom shared spec [] .start arguments

end CommandSpec

end StepFlow
