import StepFlow.Shell.Programs
import StepFlow.Shell.Reader
import StepFlow.Task.Script

/-!
# Running scripts

* `Session`: what a script has at its disposal, and what it has written;
* `Shell.expand`: the fields that a word stands for;
* `Shell.perform`, `Shell.performAll`: the effect of commands;
* `Shell.interpret`: a script from its start to its end.
-/

namespace StepFlow.Shell

/-- The state of a script. -/
structure Session where
  /-- The name by which the script calls itself. -/
  name : List Char
  parameters : List (List Char)
  bindings : Keyed (List Char)
  /-- The names of the variables that programs get to see. -/
  exported : List String
  status : Nat
  /-- What can still be read. -/
  input : List Char
  /-- What was written to which descriptor, the latest first. -/
  written : List (Nat × List Char)
  duration : Duration
  /-- Set once the script, or the part of it that has a shell of its own, has ended. -/
  ended : Bool
  /-- Set once a signal has ended the script. -/
  signal : Option Nat
  /-- Whether a command that fails ends the script. -/
  strict : Bool

/-- The number of the process of a script. -/
def processNumber : Nat := 4242

namespace Session

def write (s : Session) (descriptor : Nat) (text : List Char) : Session :=
  if text.isEmpty then s else { s with written := (descriptor, text) :: s.written }

/-- Ends a command with a status. -/
def withStatus (s : Session) (status : Nat) : Session := { s with status }

/-- Writes a line of explanation, and ends a command with a status. -/
def complain (s : Session) (status : Nat) (message : List Char) : Session :=
  ((s.write 2 (s.name ++ Text.utf8 ": 1: " ++ message ++ ['\n']))).withStatus status

/-- What was written to a descriptor. -/
def textOf (s : Session) (descriptor : Nat) : List Char :=
  (s.written.reverse.filterMap fun w => if w.1 = descriptor then some w.2 else none).flatten

/-- Whether nothing more is to be done. -/
def isOver (s : Session) : Bool := s.ended || s.signal.isSome

def set (s : Session) (name : String) (value : List Char) : Session :=
  { s with bindings := Keyed.insert name value s.bindings }

/-- Marks a variable as one that programs get to see. -/
def exporting (s : Session) (name : String) : Session :=
  { s with exported := if s.exported.contains name then s.exported else s.exported ++ [name] }

/-- The value of a parameter, if it has one. -/
def value? (s : Session) (name : String) : Option (List Char) :=
  match name with
  | "?" => some (Nat.toDigits 10 s.status)
  | "#" => some (Nat.toDigits 10 s.parameters.length)
  | "$" => some (Nat.toDigits 10 processNumber)
  | "0" => some s.name
  | "-" | "!" => some []
  | "@" | "*" => if s.parameters.isEmpty then none else some ([' '].intercalate s.parameters)
  | name =>
    if name.toList.all Char.isDigit then
      s.parameters[(Tool.readNumber name.toList).1 - 1]?
    else Keyed.find? name s.bindings

/-- What goes on in a shell of its own: of it only what is written and a signal stay. -/
def within (s : Session) (act : Session → Session) : Session :=
  let inner := act { s with written := [], ended := false }
  { s with
    written := inner.written ++ s.written
    status := inner.status
    input := inner.input
    duration := ⟨s.duration.nanoseconds + (inner.duration.nanoseconds - s.duration.nanoseconds)⟩
    signal := inner.signal }

end Session

/-! ## Fields -/

/-- A part of an expanded word. -/
inductive Mark where
  /-- A character, and whether it was quoted, and whether it came of an expansion. -/
  | char (c : Char) (quoted expanded : Bool)
  /-- A field ends here. -/
  | gap
  /-- There is a field here even if it is empty. -/
  | here
deriving Inhabited

def marks (quoted expanded : Bool) (text : List Char) : List Mark :=
  (if quoted then [.here] else []) ++ text.map fun c => .char c quoted expanded

/-- The fields that marks make up. Blanks divide fields where they were expanded without quotes. -/
def fields (ms : List Mark) : List (List Char) :=
  go none ms
where
  /-- The fields after the start of a field, which is given in reverse. -/
  go (start : Option (List Char)) : List Mark → List (List Char)
    | [] => (start.map List.reverse).toList
    | .gap :: rest => (start.map List.reverse).toList ++ go none rest
    | .here :: rest => go (some (start.getD [])) rest
    | .char c quoted expanded :: rest =>
      if expanded && !quoted && " \t\n".toList.contains c then
        (start.map List.reverse).toList ++ go none rest
      else go (some (c :: start.getD [])) rest

/-- The text of marks as a single field. -/
def plainText (ms : List Mark) : List Char :=
  ms.filterMap fun
    | .char c _ _ => some c
    | .gap => some ' '
    | .here => none

/-- The pattern of marks, in which quoted characters stand for themselves. -/
def globOf : Nat → List Mark → List Glob
  | 0, _ => []
  | _, [] => []
  | n + 1, .char c quoted _ :: rest =>
    if quoted then .one c :: globOf n rest
    else
      match c with
      | '*' => .star :: globOf n rest
      | '?' => .any :: globOf n rest
      | '[' =>
        match readClass (plainText rest) with
        | some (k, after) => .oneOf k :: globOf n ((rest.filter fun m => match m with
            | .char _ _ _ => true
            | _ => false).drop ((plainText rest).length - after.length))
        | none => .one '[' :: globOf n rest
      | c => .one c :: globOf n rest
  | n + 1, _ :: rest => globOf n rest

/-- The text without a part at the front that a pattern matches. -/
def dropFront (longest : Bool) (g : List Glob) (text : List Char) : List Char :=
  let sizes := List.range (text.length + 1)
  let sizes := if longest then sizes.reverse else sizes
  match sizes.find? fun n => Glob.fits g (text.take n) with
  | some n => text.drop n
  | none => text

/-- The text without a part at the back that a pattern matches. -/
def dropBack (longest : Bool) (g : List Glob) (text : List Char) : List Char :=
  let sizes := List.range (text.length + 1)
  let sizes := if longest then sizes else sizes.reverse
  match sizes.find? fun n => Glob.fits g (text.drop n) with
  | some n => text.take n
  | none => text

/-! ## Tools that need the state of the script -/

/-- The variables that programs get to see, as they list them. -/
def environmentText (s : Session) : List Char :=
  Tool.unlines (s.bindings.filterMap fun (name, value) =>
    if s.exported.contains name then some (name.toList ++ '=' :: value) else none)

/-- The signal that a word names. -/
def signal? (word : List Char) : Option Nat :=
  let word := word.map Char.toUpper
  if word.all Char.isDigit && !word.isEmpty then some (Tool.readNumber word).1
  else
    let name := String.ofList (if "SIG".toList.isPrefixOf word then word else "SIG".toList ++ word)
    (signalNames.find? fun n => n.2 = name).map Prod.fst

/-- The signal and the targets of a request to send one. -/
def killRequest : List (List Char) → Option Nat × List (List Char)
  | ['-', 's'] :: name :: targets => (signal? name, targets)
  | ('-' :: name) :: targets => (signal? name, targets)
  | targets => (some 15, targets)

/-- The duration that a word gives in seconds. -/
def sleepDuration (word : List Char) : Duration :=
  let whole := (Tool.readNumber word).1
  match word.dropWhile Char.isDigit with
  | '.' :: digits =>
    let ds := (digits.takeWhile Char.isDigit).take 9
    let shown := (Tool.readNumber ds).1 * Nat.pow 10 (9 - ds.length)
    ⟨whole * Duration.perSecond + shown⟩
  | _ => .seconds whole

/-- The commands that change the state of the script; none if the word is not one of them. -/
def builtin? (name : String) (arguments : List (List Char)) (s : Session) : Option Session :=
  match name with
  | "exit" =>
    let status := match arguments with
      | a :: _ => (Tool.readNumber a).1 % 256
      | [] => s.status
    some { s with status, ended := true }
  | "export" =>
    some <| (arguments.foldl (fun s a =>
      let name := String.ofList (a.takeWhile (· ≠ '='))
      match a.dropWhile (· ≠ '=') with
      | [] => s.exporting name
      | _ :: value => (s.set name value).exporting name) s).withStatus 0
  | "unset" =>
    some <| ({ s with
      bindings := arguments.foldl (fun vs a => Keyed.erase (String.ofList a) vs) s.bindings
      exported := s.exported.filter fun n => !(arguments.contains n.toList) }).withStatus 0
  | "shift" =>
    let n := match arguments with
      | a :: _ => (Tool.readNumber a).1
      | [] => 1
    some ({ s with parameters := s.parameters.drop n }.withStatus 0)
  | "set" =>
    match arguments with
    | ['-', 'e'] :: _ => some ({ s with strict := true }.withStatus 0)
    | ['-', '-'] :: rest => some ({ s with parameters := rest }.withStatus 0)
    | ('-' :: _) :: _ => some (s.withStatus 0)
    | rest => some ({ s with parameters := rest }.withStatus 0)
  | "read" =>
    let line := s.input.takeWhile (· ≠ '\n')
    let found := line.length < s.input.length
    let s := { s with input := s.input.drop (line.length + 1) }
    let names := arguments.filter fun a => a.head? ≠ some '-'
    let rec assign (s : Session) (cs : List Char) : List (List Char) → Session
      | [] => s
      | [n] =>
        let trimmed := (cs.dropWhile Char.isWhitespace).reverse.dropWhile Char.isWhitespace
        s.set (String.ofList n) trimmed.reverse
      | n :: ns =>
        let cs := cs.dropWhile Char.isWhitespace
        let word := cs.takeWhile fun c => !c.isWhitespace
        assign (s.set (String.ofList n) word) (cs.drop word.length) ns
    some ((assign s line names).withStatus (if found then 0 else 1))
  | "sleep" =>
    let total := arguments.foldl (fun n a => n + (sleepDuration a).nanoseconds) 0
    some ({ s with duration := ⟨s.duration.nanoseconds + total⟩ }.withStatus 0)
  | "kill" =>
    match killRequest arguments with
    | (some signal, targets) =>
      if targets.contains (Nat.toDigits 10 processNumber) then
        if signal = 0 then some (s.withStatus 0) else some { s with signal := some signal }
      else some (s.complain 1 (Text.utf8 "kill: No such process"))
    | (none, _) => some (s.complain 2 (Text.utf8 "kill: Illegal option"))
  | _ => none

/-- The program that a word of a script stands for. -/
def programOf (word : List Char) : Except Refusal String :=
  Terrain.common.find (String.ofList (Text.readUtf8 word))

/-- The wording of a refusal in a script. -/
def Refusal.brief : Refusal → String
  | .path .missing | .path .notFolder => "not found"
  | .path .tooLong => "File name too long"
  | .noProgram => "Permission denied"
  | .overlong => "Argument list too long"
  | .nullCharacter => "not found"

/-- The status of a command that cannot be started. What is looked for by its name alone counts as not
found in any case. -/
def Refusal.status (word : List Char) : Refusal → Nat
  | .path _ => 127
  | _ => if word.contains '/' then 126 else 127

/-- The commands that the shell carries out itself. -/
def ownCommands : List String :=
  [".", ":", "[", "break", "cd", "command", "continue", "echo", "eval", "exec", "exit", "export",
    "false", "kill", "printf", "read", "return", "set", "shift", "test", "trap", "true", "umask",
    "unset", "wait"]

/-- What stands for a word of a script: a command of the shell, or the path of a program. -/
def whereabouts? (word : List Char) : Option (List Char) :=
  if ownCommands.contains (String.ofList word) then some word
  else
    match programOf word with
    | .ok program => some (if word.contains '/' then word else ("/usr/bin/" ++ program).toList)
    | .error _ => none

/-- Whether a tool reads all of its input. -/
def readsInput (tool : String) : Bool :=
  ["cat", "grep", "sort", "uniq", "head", "tail", "wc", "tr"].contains tool

/-! ## Commands -/

/-- The redirection of descriptors: the one that a descriptor leads to, if to any. -/
abbrev Routes : Type := Nat → Option Nat

/-- The routes with that of one descriptor changed. -/
def Routes.change (r : Routes) (descriptor : Nat) (target : Option Nat) : Routes :=
  fun d => if d = descriptor then target else r d

/-- Lets what an action writes go along routes. -/
def routed (routes : Routes) (act : Session → Session) (s : Session) : Session :=
  let inner := act { s with written := [] }
  { inner with
    written := (inner.written.filterMap fun (d, text) => (routes d).map (·, text)) ++ s.written }

mutual

/-- The marks of a word. -/
def expand : Nat → Word → Session → List Mark × Session
  | 0, _, s => ([], s)
  | _, [], s => ([], s)
  | n + 1, piece :: rest, s =>
    let (front, s) := expandPiece n piece s
    let (back, s) := expand n rest s
    (front ++ back, s)

/-- The marks of a piece. -/
def expandPiece : Nat → Piece → Session → List Mark × Session
  | 0, _, s => ([], s)
  | n + 1, piece, s =>
    match piece with
    | .text quoted content => (marks quoted false content, s)
    | .output quoted script =>
      let inner := { s with written := [] }.within fun s => performAll n script s
      let kept := ((inner.textOf 1).reverse.dropWhile (· = '\n')).reverse
      let others := inner.written.filter fun w => w.1 ≠ 1
      (marks quoted true kept, { inner with written := others ++ s.written })
    | .arithmetic quoted expression =>
      let (ms, s) := expand n expression s
      match Arithmetic.evaluate s.bindings (plainText ms) with
      | some (v, vs) => (marks quoted true (Arithmetic.render v), { s with bindings := vs })
      | none =>
        let shown := Text.utf8 "arithmetic expression: expecting primary: \"" ++ plainText ms ++ ['"']
        ([], { s.complain 2 shown with ended := true })
    | .parameter true "@" .plain =>
      let separated := s.parameters.map fun p => marks true true p
      ([Mark.gap].intercalate separated, s)
    | .parameter false "@" .plain | .parameter false "*" .plain =>
      let separated := s.parameters.map fun p => marks false true p
      ([Mark.gap].intercalate separated, s)
    | .parameter quoted name modifier =>
      let value := s.value? name
      let given := value.getD []
      match modifier with
      | .plain => (marks quoted true given, s)
      | .length => (marks quoted true (Nat.toDigits 10 given.length), s)
      | .orElse orEmpty word =>
        if value.isNone || orEmpty && given.isEmpty then expand n word s
        else (marks quoted true given, s)
      | .assign orEmpty word =>
        if value.isNone || orEmpty && given.isEmpty then
          let (ms, s) := expand n word s
          (marks quoted true (plainText ms), s.set name (plainText ms))
        else (marks quoted true given, s)
      | .instead notEmpty word =>
        if value.isNone || notEmpty && given.isEmpty then (marks quoted true [], s)
        else expand n word s
      | .dropFront longest pattern =>
        let (ms, s) := expand n pattern s
        (marks quoted true (dropFront longest (globOf (ms.length + 1) ms) given), s)
      | .dropBack longest pattern =>
        let (ms, s) := expand n pattern s
        (marks quoted true (dropBack longest (globOf (ms.length + 1) ms) given), s)

/-- The fields of words. -/
def expandAll : Nat → List Word → Session → List (List Char) × Session
  | 0, _, s => ([], s)
  | _, [], s => ([], s)
  | n + 1, word :: rest, s =>
    let (ms, s) := expand n word s
    let (back, s) := expandAll n rest s
    (fields ms ++ back, s)

/-- The routes of redirections, and what is read. -/
def route : Nat → List Redirect → Routes → Session → Option Routes × Session
  | 0, _, routes, s => (some routes, s)
  | _, [], routes, s => (some routes, s)
  | n + 1, r :: rest, routes, s =>
    match r with
    | .duplicate d .closed => route n rest (routes.change d none) s
    | .duplicate d (.descriptor e) => route n rest (routes.change d (routes e)) s
    | .toFile d path =>
      let (ms, s) := expand n path s
      match String.ofList (plainText ms) with
      | "/dev/stdout" => route n rest (routes.change d (routes 1)) s
      | "/dev/stderr" => route n rest (routes.change d (routes 2)) s
      | _ => route n rest (routes.change d none) s
    | .fromFile path =>
      let (ms, s) := expand n path s
      if plainText ms = "/dev/null".toList then route n rest routes { s with input := [] }
      else
        (none, s.complain 2 (Text.utf8 "cannot open " ++ plainText ms ++ Text.utf8 ": No such file"))

/-- An action with redirections. -/
def redirected : Nat → List Redirect → (Session → Session) → Session → Session
  | 0, _, act, s => act s
  | n + 1, rs, act, s =>
    if rs.isEmpty then act s
    else
      match route n rs some s with
      | (some routes, s') => { routed routes act s' with input := s.input }
      | (none, s') => s'

/-- Sets variables. -/
def applySettings : Nat → List (String × Word) → Bool → Session → Session
  | 0, _, _, s => s
  | _, [], _, s => s
  | n + 1, (name, word) :: rest, visible, s =>
    let (ms, s) := expand n word s
    let s := s.set name (plainText ms)
    applySettings n rest visible (if visible then s.exporting name else s)

/-- Runs a program or a built-in command. -/
def invoke : Nat → List Char → List (List Char) → Session → Session
  | 0, _, _, s => s
  | n + 1, word, arguments, s =>
    match builtin? (String.ofList word) arguments s with
    | some s => s
    | none =>
      match String.ofList word, arguments with
      | "command", ['-', 'v'] :: w :: _ =>
        match whereabouts? w with
        | some shown => (s.write 1 (shown ++ ['\n'])).withStatus 0
        | none => s.withStatus 127
      | "command", w :: ws => invoke n w ws s
      | "eval", ws =>
        let (cs, _) := readScript ([' '].intercalate ws)
        performAll n cs (s.withStatus 0)
      | "exec", w :: ws => { invoke n w ws s with ended := true }
      | ":", _ => s.withStatus 0
      | _, _ =>
        match programOf word with
        | .ok program => runProgram n program word arguments s
        | .error refusal =>
          s.complain (refusal.status word) (word ++ Text.utf8 ": " ++ Text.utf8 refusal.brief)

/-- Runs a program under the name by which it was called. -/
def runProgram : Nat → String → List Char → List (List Char) → Session → Session
  | 0, _, _, _, s => s
  | n + 1, program, word, arguments, s =>
    match program with
    | "env" => environment n word arguments s
    | "sleep" => (builtin? program arguments s).getD s
    | "sh" | "dash" =>
      match arguments with
      | ['-', 'c'] :: source :: rest => s.within fun s =>
        let (commands, error) := readScript source
        let s := performAll n commands { s with
          name := rest.head?.getD word, parameters := rest.tail, status := 0, strict := false
          bindings := s.bindings.filter fun b => s.exported.contains b.1 }
        match error with
        | some e => if s.isOver then s else s.complain 2 (Text.utf8 e.message)
        | none => s
      | _ => s.withStatus 0
    | name =>
      match Tool.table.lookup name with
      | some tool =>
        let r := tool arguments s.input
        let s := { s with input := if readsInput name then [] else s.input }
        ((s.write 1 r.output).write 2 r.errors).withStatus r.status
      | none => s.withStatus 0

/-- Lists the variables that programs get to see, or runs a program with more of them. -/
def environment : Nat → List Char → List (List Char) → Session → Session
  | 0, _, _, s => s
  | _, _, [], s => (s.write 1 (environmentText s)).withStatus 0
  | n + 1, self, word :: rest, s =>
    if word = ['-', 'i'] then environment n self rest { s with exported := [] }
    else if word.contains '=' then
      let name := String.ofList (word.takeWhile (· ≠ '='))
      let value := (word.dropWhile (· ≠ '=')).tail
      environment n self rest ((s.set name value).exporting name)
    else
      match programOf word with
      | .ok program => s.within fun s => runProgram n program word rest s
      | .error refusal =>
        let cause := match refusal with
          | .path .missing => "No such file or directory"
          | .path .notFolder => "Not a directory"
          | refusal => refusal.brief
        let shown := self ++ Text.utf8 ": '" ++ word ++ Text.utf8 ("': " ++ cause ++ "\n")
        (s.write 2 shown).withStatus (if refusal = .path .missing then 127 else 126)

/-- The effect of a command. -/
def perform : Nat → Command → Session → Session
  | 0, _, s => { s with ended := true }
  | n + 1, c, s =>
    match c with
    | .simple settings words rs =>
      let (fs, s) := expandAll n words (s)
      if s.isOver then s
      else
        let s := match fs with
          | [] => redirected n rs (fun s => applySettings n settings false (s.withStatus 0)) s
          | word :: arguments =>
            let act (s : Session) : Session :=
              if settings.isEmpty then invoke n word arguments s
              else
                let inner := invoke n word arguments (applySettings n settings true s)
                { inner with bindings := s.bindings, exported := s.exported }
            redirected n rs act s
        if s.strict && s.status ≠ 0 then { s with ended := true } else s
    | .group own body rs =>
      redirected n rs (fun s =>
        if own then s.within fun s => performAll n body s else performAll n body s) s
    | .pipeline parts => pipe n parts s
    | .negation body =>
      let s' := { perform n body { s with strict := false } with strict := s.strict }
      s'.withStatus (if s'.status = 0 then 1 else 0)
    | .both first second =>
      let s' := { perform n first { s with strict := false } with strict := s.strict }
      if s'.isOver || s'.status ≠ 0 then s' else perform n second s'
    | .either first second =>
      let s' := { perform n first { s with strict := false } with strict := s.strict }
      if s'.isOver || s'.status = 0 then s' else perform n second s'
    | .choice condition yes no rs =>
      redirected n rs (fun s =>
        let s' := { performAll n condition { s with strict := false } with strict := s.strict }
        if s'.isOver then s'
        else if s'.status = 0 then performAll n yes s'
        else performAll n no (s'.withStatus 0)) s
    | .loop expected condition body rs => redirected n rs (fun s => repeated n expected condition body s) s
    | .each name words body rs =>
      redirected n rs (fun s =>
        let (fs, s) := match words with
          | some ws => expandAll n ws s
          | none => (s.parameters, s)
        throughAll n name fs body (s.withStatus 0)) s
    | .select subject cases rs =>
      redirected n rs (fun s =>
        let (ms, s) := expand n subject s
        chooseCase n (plainText ms) cases (s.withStatus 0)) s

/-- The effect of commands one after the other. -/
def performAll : Nat → List Command → Session → Session
  | 0, _, s => s
  | _, [], s => s
  | n + 1, c :: cs, s => if s.isOver then s else performAll n cs (perform n c s)

/-- The effect of commands, each of which reads what the one before it writes. -/
def pipe : Nat → List Command → Session → Session
  | 0, _, s => s
  | _, [], s => s
  | n + 1, [c], s => s.within fun s => perform n c s
  | n + 1, c :: cs, s =>
    let first := { s with written := [] }.within fun s => perform n c { s with strict := false }
    let kept := first.written.filter fun w => w.1 ≠ 1
    let next := pipe n cs { first with
      written := kept ++ s.written, input := first.textOf 1, status := s.status }
    { next with input := s.input }

/-- Repeats commands as long as a condition comes out as expected. -/
def repeated : Nat → Bool → List Command → List Command → Session → Session
  | 0, _, _, _, s => { s with ended := true }
  | n + 1, expected, condition, body, s =>
    let status := s.status
    let s' := { performAll n condition { s with strict := false } with strict := s.strict }
    if s'.isOver then s'
    else if (s'.status = 0) = expected then repeated n expected condition body (performAll n body s')
    else s'.withStatus status

/-- Runs commands once for every field. -/
def throughAll : Nat → String → List (List Char) → List Command → Session → Session
  | 0, _, _, _, s => s
  | _, _, [], _, s => s
  | n + 1, name, f :: fs, body, s =>
    if s.isOver then s else throughAll n name fs body (performAll n body (s.set name f))

/-- Runs the commands of the first case that a text fits. -/
def chooseCase : Nat → List Char → List (List Word × List Command) → Session → Session
  | 0, _, _, s => s
  | _, _, [], s => s
  | n + 1, subject, (patterns, body) :: rest, s =>
    let (found, s) := fitsAny n subject patterns s
    if found then performAll n body s else chooseCase n subject rest s

/-- Whether a text fits any of some patterns. -/
def fitsAny : Nat → List Char → List Word → Session → Bool × Session
  | 0, _, _, s => (false, s)
  | _, _, [], s => (false, s)
  | n + 1, subject, p :: ps, s =>
    let (ms, s) := expand n p s
    if Glob.fits (globOf (ms.length + 1) ms) subject then (true, s) else fitsAny n subject ps s

end

/-- The depth to which commands are followed. -/
def depthLimit : Nat := 100000

/-- A script from its start to its end. -/
def interpret (source : List Char) (s : Session) : Session :=
  let (commands, error) := readScript source
  let s := performAll depthLimit commands s
  match error with
  | some e => if s.isOver then s else s.complain 2 (Text.utf8 e.message)
  | none => s

end StepFlow.Shell
