import StepFlow.Shell.Arithmetic
import StepFlow.Shell.Pattern
import StepFlow.Text.Utf8

/-!
# Tools

The programs that scripts use: each is a function from arguments and input to what it writes and its
status.

* `ToolResult`, `Tool`: the type of a tool;
* `Tool.printf`, `Tool.echo`: writing text by a format;
* `Tool.grep`, `Tool.sort`, …: filters of lines;
* `Tool.table`: the tools by their names.
-/

namespace StepFlow.Shell

/-- What comes of a tool: what it wrote, and its status. -/
structure ToolResult where
  output : List Char
  errors : List Char
  status : Nat
deriving Inhabited

namespace ToolResult

def wrote (output : List Char) : ToolResult := ⟨output, [], 0⟩

/-- A status with nothing written. -/
def silent (status : Nat) : ToolResult := ⟨[], [], status⟩

/-- Failure with a line of explanation. -/
def failed (status : Nat) (message : String) : ToolResult := ⟨[], Text.utf8 (message ++ "\n"), status⟩

end ToolResult

/-- A tool: its arguments, and what it reads. -/
abbrev Tool : Type := List (List Char) → List Char → ToolResult

namespace Tool

/-! ## Escapes -/

/-- The value of up to `count` octal digits, and what follows them. -/
def octal : Nat → Nat → List Char → Nat × List Char
  | 0, acc, cs => (acc, cs)
  | n + 1, acc, c :: cs =>
    if '0' ≤ c && c ≤ '7' then octal n (acc * 8 + (c.toNat - 48)) cs else (acc, c :: cs)
  | _, acc, [] => (acc, [])

/-- The characters that a letter after a backslash stands for. -/
def letterEscape? (c : Char) : Option Char :=
  [('a', '\x07'), ('b', '\x08'), ('f', '\x0c'), ('n', '\n'), ('r', '\r'), ('t', '\t'), ('v', '\x0b'),
    ('\\', '\\')].lookup c

/-- What the text after a backslash stands for, and what follows it. With `zero`, octal digits come
after a zero only. -/
def escape (zero : Bool) (cs : List Char) : List Char × List Char :=
  match cs with
  | [] => (['\\'], [])
  | c :: rest =>
    match letterEscape? c with
    | some d => ([d], rest)
    | none =>
      if zero && c = '0' then
        let (v, rest) := octal 3 0 rest
        ([Text.byte v], rest)
      else if !zero && '0' ≤ c && c ≤ '7' then
        let (v, rest) := octal 3 0 (c :: rest)
        ([Text.byte v], rest)
      else (['\\', c], rest)

/-- A text with its escapes replaced, and whether it goes on after them. -/
def unescape : Nat → List Char → List Char × Bool
  | 0, _ => ([], true)
  | _, [] => ([], true)
  | _, '\\' :: 'c' :: _ => ([], false)
  | n + 1, '\\' :: cs =>
    let (front, rest) := escape true cs
    let (back, more) := unescape n rest
    (front ++ back, more)
  | n + 1, c :: cs =>
    let (back, more) := unescape n cs
    (c :: back, more)

/-- Writes the arguments with blanks between them. -/
def echo : Tool := fun arguments _ =>
  let (newline, words) := match arguments with
    | ['-', 'n'] :: words => (false, words)
    | words => (true, words)
  let text := [' '].intercalate words
  let (shown, more) := unescape (text.length + 1) text
  .wrote (shown ++ if newline && more then ['\n'] else [])

/-! ## Formats -/

/-- How a value is laid out. -/
structure FieldSpec where
  left : Bool := false
  plus : Bool := false
  space : Bool := false
  zero : Bool := false
  alternate : Bool := false
  width : Nat := 0
  places : Option Nat := none

/-- The flags at the front of a text. -/
def readFlags (spec : FieldSpec) : List Char → FieldSpec × List Char
  | '-' :: cs => readFlags { spec with left := true } cs
  | '+' :: cs => readFlags { spec with plus := true } cs
  | ' ' :: cs => readFlags { spec with space := true } cs
  | '0' :: cs => readFlags { spec with zero := true } cs
  | '#' :: cs => readFlags { spec with alternate := true } cs
  | cs => (spec, cs)

/-- The number at the front of a text. -/
def readNumber (cs : List Char) : Nat × List Char :=
  ((cs.takeWhile Char.isDigit).foldl (fun acc d => acc * 10 + (d.toNat - 48)) 0,
    cs.dropWhile Char.isDigit)

/-- A text filled up to the width of a field. -/
def pad (spec : FieldSpec) (text : List Char) : List Char :=
  let fill := List.replicate (spec.width - text.length) ' '
  if spec.left then text ++ fill else fill ++ text

/-- The digits of a number in a base. -/
def digitsIn (kind : Char) (n : Nat) : List Char :=
  match kind with
  | 'o' => Nat.toDigits 8 n
  | 'x' => Nat.toDigits 16 n
  | 'X' => (Nat.toDigits 16 n).map Char.toUpper
  | _ => Nat.toDigits 10 n

/-- A number laid out in a field. -/
def formatNumber (spec : FieldSpec) (kind : Char) (value : Int) : List Char :=
  let isSigned := kind = 'd' || kind = 'i'
  let magnitude := if isSigned then value.natAbs else (value % 18446744073709551616).toNat
  let digits := digitsIn kind magnitude
  let digits := List.replicate ((spec.places.getD 1) - digits.length) '0' ++ digits
  let sign :=
    if isSigned && value < 0 then ['-']
    else if isSigned && spec.plus then ['+']
    else if isSigned && spec.space then [' ']
    else if spec.alternate && magnitude ≠ 0 then
      match kind with
      | 'o' => ['0']
      | 'x' => ['0', 'x']
      | 'X' => ['0', 'X']
      | _ => []
    else []
  if spec.zero && !spec.left && spec.places.isNone then
    sign ++ List.replicate (spec.width - sign.length - digits.length) '0' ++ digits
  else pad spec (sign ++ digits)

/-- The number that an argument of a format gives, and whether it is one. -/
def formatArgument (argument : List Char) : Int × Bool :=
  match argument with
  | [] => (0, true)
  | '"' :: c :: _ | '\'' :: c :: _ => (c.toNat, true)
  | cs =>
    match Arithmetic.signed? cs with
    | some v => (v, true)
    | none =>
      let front := cs.takeWhile fun c => c.isDigit || c = '-'
      ((Arithmetic.signed? front).getD 0, false)

/-- What a format has written so far. -/
structure Formatted where
  output : List Char := []
  errors : List Char := []
  arguments : List (List Char)
  stopped : Bool := false
  used : Bool := false

/-- Takes the next argument. -/
def Formatted.take (f : Formatted) : List Char × Formatted :=
  match f.arguments with
  | [] => ([], { f with used := true })
  | a :: rest => (a, { f with arguments := rest, used := true })

/-- Adds to what has been written. -/
def Formatted.write (f : Formatted) (text : List Char) : Formatted :=
  { f with output := f.output ++ text }

/-- Goes once through a format. -/
def runFormat (name : String) : Nat → List Char → Formatted → Formatted
  | 0, _, f => f
  | _, [], f => f
  | n + 1, '%' :: '%' :: cs, f => runFormat name n cs (f.write ['%'])
  | n + 1, '%' :: cs, f =>
    let (spec, cs) := readFlags {} cs
    let (width, cs) := readNumber cs
    let (places, cs) := match cs with
      | '.' :: cs => let (p, cs) := readNumber cs; (some p, cs)
      | cs => (none, cs)
    let spec := { spec with width, places }
    match cs with
    | [] => f.write ['%']
    | kind :: cs =>
      let (argument, f) := f.take
      let cut := match spec.places with
        | some p => argument.take p
        | none => argument
      if kind = 's' then runFormat name n cs (f.write (pad spec cut))
      else if kind = 'c' then runFormat name n cs (f.write (pad spec (argument.take 1)))
      else if kind = 'b' then
        let (shown, more) := unescape (argument.length + 1) argument
        let f := f.write (pad spec shown)
        if more then runFormat name n cs f else { f with stopped := true }
      else if "diouxX".toList.contains kind then
        let (value, valid) := formatArgument argument
        let shown := Text.utf8 (name ++ ": ") ++ argument ++ Text.utf8 ": expected numeric value\n"
        let f := if valid then f else { f with errors := f.errors ++ shown }
        runFormat name n cs (f.write (formatNumber spec kind value))
      else
        let shown := Text.utf8 (name ++ ": %") ++ [kind] ++ Text.utf8 ": invalid directive\n"
        { f with errors := f.errors ++ shown, stopped := true }
  | _, '\\' :: 'c' :: _, f => { f with stopped := true }
  | n + 1, '\\' :: cs, f =>
    let (front, rest) := escape false cs
    runFormat name n rest (f.write front)
  | n + 1, c :: cs, f => runFormat name n cs (f.write [c])

/-- Goes through a format until all arguments are used up. -/
def repeatFormat (name : String) (format : List Char) : Nat → Formatted → Formatted
  | 0, f => f
  | n + 1, f =>
    let f := runFormat name (format.length + 1) format { f with used := false }
    if f.stopped || f.arguments.isEmpty || !f.used then f else repeatFormat name format n f

/-- Writes arguments by a format; `name` is how the tool calls itself, and `missing` what comes of it
without a format. -/
def printf (name : String) (missing : ToolResult) : Tool := fun arguments _ =>
  let arguments := match arguments with
    | ['-', '-'] :: rest => rest
    | arguments => arguments
  match arguments with
  | [] => missing
  | format :: rest =>
    let f := repeatFormat name format (rest.length + 1) { arguments := rest }
    ⟨f.output, f.errors, if f.errors.isEmpty then 0 else 1⟩

/-! ## Lines -/

/-- The lines of what a tool reads. -/
def linesOf (input : List Char) : List (List Char) :=
  go [] input
where
  /-- The lines after the start of a line, which is given in reverse. -/
  go (start : List Char) : List Char → List (List Char)
    | [] => if start.isEmpty then [] else [start.reverse]
    | '\n' :: rest => start.reverse :: go [] rest
    | c :: rest => go (c :: start) rest

/-- Lines, each one with its end. -/
def unlines (ls : List (List Char)) : List Char := (ls.map (· ++ ['\n'])).flatten

/-- The arguments that are switches, as their letters, and the others. -/
def switches (arguments : List (List Char)) : List Char × List (List Char) :=
  let isSwitch (a : List Char) : Bool := a.length > 1 && a.head? = some '-'
  ((arguments.takeWhile isSwitch).flatMap List.tail, arguments.dropWhile isSwitch)

/-- Writes what it reads. -/
def cat : Tool := fun arguments input =>
  match arguments.filter (· ≠ ['-']) with
  | [] => .wrote input
  | file :: _ =>
    let name := String.ofList (Text.readUtf8 file)
    if name = "/dev/null" then .wrote []
    else .failed 1 s!"cat: {name}: No such file or directory"

/-- Writes the lines that an expression finds. -/
def grep : Tool := fun arguments input =>
  let (letters, words) := switches arguments
  match words with
  | [] => .failed 2 "Usage: grep [OPTION]... PATTERNS [FILE]..."
  | pattern :: _ =>
    let fold (cs : List Char) : List Char :=
      if letters.contains 'i' then cs.map Char.toLower else cs
    let regex := if letters.contains 'F' then Regex.literal (fold pattern)
      else Regex.read (letters.contains 'E') (fold pattern)
    let regex := if letters.contains 'x' then { regex with atStart := true, atEnd := true } else regex
    let found := (linesOf input).filter fun l => regex.finds (fold l) != letters.contains 'v'
    let status := if found.isEmpty then 1 else 0
    if letters.contains 'q' then .silent status
    else if letters.contains 'c' then ⟨Nat.toDigits 10 found.length ++ ['\n'], [], status⟩
    else ⟨unlines found, [], status⟩

/-- The number at the front of a line. -/
def leadingNumber (line : List Char) : Int :=
  match line.dropWhile (· = ' ') with
  | '-' :: cs => -((readNumber cs).1 : Int)
  | cs => ((readNumber cs).1 : Int)

/-- Whether a line comes before another one, or is equal to it. -/
def precedes (a b : List Char) : Bool := !(String.ofList b < String.ofList a)

/-- Writes the lines in order. -/
def sort : Tool := fun arguments input =>
  let (letters, _) := switches arguments
  let before (a b : List Char) : Bool :=
    if letters.contains 'n' then
      leadingNumber a < leadingNumber b || leadingNumber a = leadingNumber b && precedes a b
    else precedes a b
  let sorted := (linesOf input).mergeSort before
  let sorted := if letters.contains 'u' then
    sorted.foldr (fun l rest => if rest.head? = some l then rest else l :: rest) [] else sorted
  .wrote (unlines (if letters.contains 'r' then sorted.reverse else sorted))

/-- Writes each run of equal lines as one line. -/
def uniq : Tool := fun _ input =>
  .wrote (unlines ((linesOf input).foldr
    (fun l rest => if rest.head? = some l then rest else l :: rest) []))

/-- The number of lines that the switches of a tool ask for. -/
def lineCount (arguments : List (List Char)) : Nat :=
  match arguments with
  | ('-' :: 'n' :: []) :: n :: _ => (readNumber n).1
  | ('-' :: 'n' :: n) :: _ => (readNumber n).1
  | ('-' :: n) :: _ => (readNumber n).1
  | _ => 10

def head : Tool := fun arguments input =>
  .wrote (unlines ((linesOf input).take (lineCount arguments)))

def tail : Tool := fun arguments input =>
  let ls := linesOf input
  .wrote (unlines (ls.drop (ls.length - lineCount arguments)))

/-- Counts lines, words and bytes. -/
def wc : Tool := fun arguments input =>
  let (letters, _) := switches arguments
  let lineCount := input.count '\n'
  let wordCount := ((input.splitBy fun a b => a.isWhitespace = b.isWhitespace).filter
    fun run => !(run.all Char.isWhitespace)).length
  let counts := (if letters.contains 'l' then [lineCount] else []) ++
    (if letters.contains 'w' then [wordCount] else []) ++
    (if letters.contains 'c' then [input.length] else [])
  match counts with
  | [] =>
    let column (n : Nat) : List Char := pad { width := 7 } (Nat.toDigits 10 n)
    .wrote ([' '].intercalate [column lineCount, column wordCount, column input.length] ++ ['\n'])
  | counts => .wrote ([' '].intercalate (counts.map (Nat.toDigits 10)) ++ ['\n'])

/-- The characters of a set, in which ranges are written with a dash. -/
def charSet : List Char → List Char
  | a :: '-' :: b :: rest =>
    (List.range (b.toNat + 1 - a.toNat)).map (fun i => Char.ofNat (a.toNat + i)) ++ charSet rest
  | '\\' :: 'n' :: rest => '\n' :: charSet rest
  | c :: rest => c :: charSet rest
  | [] => []

/-- Replaces characters by others, or takes them away. -/
def tr : Tool := fun arguments input =>
  let (letters, words) := switches arguments
  match words with
  | [gone] =>
    if letters.contains 'd' then
      let gone := charSet gone
      .wrote (input.filter fun c => !gone.contains c)
    else .failed 1 "tr: missing operand"
  | source :: target :: _ =>
    let source := charSet source
    let target := charSet target
    let image (c : Char) : Char :=
      match source.idxOf? c with
      | some i => (target[i]?).getD ((target.getLast?).getD c)
      | none => c
    .wrote (input.map image)
  | [] => .failed 1 "tr: missing operand"

/-- Writes numbers one after the other. -/
def seq : Tool := fun arguments _ =>
  let numbers := arguments.map fun a => ((readNumber a).1)
  let range (first last : Nat) : List Nat := (List.range (last + 1 - first)).map (first + ·)
  match numbers with
  | [last] => .wrote (unlines ((range 1 last).map (Nat.toDigits 10)))
  | first :: last :: _ => .wrote (unlines ((range first last).map (Nat.toDigits 10)))
  | [] => .failed 1 "seq: missing operand"

/-! ## Conditions -/

/-- Whether a test of one or two operands holds. -/
def condition : List (List Char) → Option Bool
  | [] => some false
  | [a] => some (!a.isEmpty)
  | [['!'], a] => some a.isEmpty
  | [['-', 'n'], a] => some (!a.isEmpty)
  | [['-', 'z'], a] => some a.isEmpty
  | ['-', _] :: _ :: [] => some false
  | ['!'] :: a :: b :: rest => (condition (a :: b :: rest)).map (!·)
  | [a, o, b] =>
    let compare (f : Int → Int → Bool) : Option Bool := do
      return f (← Arithmetic.signed? a) (← Arithmetic.signed? b)
    match String.ofList o with
    | "=" | "==" => some (a = b)
    | "!=" => some (a ≠ b)
    | "-eq" => compare fun x y => x = y
    | "-ne" => compare fun x y => x ≠ y
    | "-lt" => compare fun x y => x < y
    | "-le" => compare fun x y => x ≤ y
    | "-gt" => compare fun x y => x > y
    | "-ge" => compare fun x y => x ≥ y
    | _ => none
  | _ => none

/-- Tells by its status whether a condition holds. -/
def test : Tool := fun arguments _ =>
  match condition arguments with
  | some true => .silent 0
  | some false => .silent 1
  | none => .silent 2

/-- Tells what `test` tells, from arguments that end with a bracket. -/
def bracket : Tool := fun arguments input =>
  if arguments.getLast? = some [']'] then test arguments.dropLast input else .silent 2

/-- The tools by their names. -/
def table : List (String × Tool) :=
  [("echo", echo), ("printf", printf "printf" (.failed 2 "printf: usage: printf format [arg ...]")),
    ("cat", cat), ("grep", grep), ("sort", sort), ("uniq", uniq), ("head", head), ("tail", tail), ("wc", wc),
    ("tr", tr), ("seq", seq), ("test", test), ("[", bracket), (":", fun _ _ => .silent 0),
    ("true", fun _ _ => .silent 0), ("false", fun _ _ => .silent 1)]

end Tool

end StepFlow.Shell
