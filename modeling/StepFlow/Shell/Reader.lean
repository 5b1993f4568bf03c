import StepFlow.Shell.Basic
import StepFlow.Text.Scanner

/-!
# Reading scripts

* `SyntaxError`: what can be wrong with a script;
* `Shell.readScript`: the commands of a script up to its end or its first error.
-/

namespace StepFlow.Shell

open Text Text.Scanner

/-- What is wrong with a script. -/
inductive SyntaxError where
  | openQuote
  | unexpectedEnd
  | unexpected (word : List Char)
  | badSubstitution
deriving DecidableEq, Repr

/-- The wording of an error. -/
def SyntaxError.message : SyntaxError → String
  | .openQuote => "Syntax error: Unterminated quoted string"
  | .unexpectedEnd => "Syntax error: end of file unexpected"
  | .unexpected word =>
    let shown := String.ofList word
    s!"Syntax error: \"{shown}\" unexpected"
  | .badSubstitution => "Syntax error: Bad substitution"

/-- A reader of a part of a script. -/
abbrev Part (α : Type) : Type := Scanner SyntaxError α

/-! ## Characters -/

/-- The characters that end a word unless they are quoted. -/
def isBreak (c : Char) : Bool := " \t\n;&|<>()".toList.contains c

/-- The words that have a meaning where a command can start. -/
def reserved : List String :=
  ["if", "then", "elif", "else", "fi", "for", "do", "done", "while", "until", "case", "esac", "\x7b",
    "\x7d", "!"]

/-- Takes away blanks, joined lines and a comment. -/
def skipSpace : Part Unit := fun cs =>
  .ok ((), go cs.length cs)
where
  go : Nat → List Char → List Char
    | 0, cs => cs
    | n + 1, c :: cs =>
      if c = ' ' || c = '\t' then go n cs
      else if c = '#' then cs.dropWhile (· ≠ '\n')
      else if c = '\\' && cs.head? = some '\n' then go n cs.tail
      else c :: cs
    | _, [] => []

/-- Takes away everything that can stand between lines. -/
def skipLines : Part Unit :=
  iterate (fun _ => do
    skipSpace
    if ← eat '\n' then return .inl () else return .inr ()) id ()

/-- The reserved word at the front of the text, which stays there. -/
def peekReserved : Part (Option String) := fun cs =>
  let word := cs.takeWhile fun c => !isBreak c
  let text := String.ofList word
  .ok (if reserved.contains text then some text else none, cs)

/-- Takes a reserved word away. -/
def expect (word : String) : Part Unit := do
  skipSpace
  match ← peekReserved with
  | some found =>
    if found = word then let _ ← eatAll word.toList
    else fault (.unexpected found.toList)
  | none =>
    match ← peek with
    | none => fault .unexpectedEnd
    | some c => fault (.unexpected [c])

/-- The text up to a closing mark, which is taken away. -/
def upTo (mark : Char) : Part (List Char) := do
  let content ← takeWhile (· ≠ mark)
  if ← eat mark then return content else fault .openQuote

/-- The text up to a backquote. A backslash before a backquote, a dollar sign or a backslash is taken
off. -/
def upToBackquote : Part (List Char) :=
  iterate (fun read => do
    match ← next? with
    | none => fault .openQuote
    | some '`' => return .inr read.reverse
    | some '\\' =>
      match ← next? with
      | none => fault .openQuote
      | some c =>
        if c = '`' || c = '$' || c = '\\' then return .inl (c :: read)
        else return .inl (c :: '\\' :: read)
    | some c => return .inl (c :: read)) List.reverse []

/-- The name of a parameter. -/
def parameterName : Part (Option String) := do
  match ← peek with
  | none => return none
  | some c =>
    if startsName c then return some (String.ofList (← takeWhile inName))
    else if c.isDigit || "@*#?-$!".toList.contains c then
      let _ ← next?
      return some (String.ofList [c])
    else return none

/-- Joins a character to the pieces read so far. -/
def pushChar (quoted : Bool) (c : Char) : List Piece → List Piece
  | .text q content :: rest =>
    if q = quoted then .text q (content ++ [c]) :: rest
    else .text quoted [c] :: .text q content :: rest
  | pieces => .text quoted [c] :: pieces

/-- The empty quoted text by which a quotation makes a field even if nothing is in it. A quotation of
all parameters and nothing else makes as many fields as there are parameters. -/
def fieldMark : List Piece → List Piece
  | [.parameter true "@" .plain] => []
  | _ => [.text true []]

/-- The number of a redirection that stands alone in front of its sign. -/
def descriptorBefore : List Char → Option (Nat × List Char)
  | d :: c :: rest =>
    if d.isDigit && (c = '<' || c = '>') then some (d.toNat - '0'.toNat, c :: rest) else none
  | _ => none

/-- The name that a word sets, and the value. -/
def setting? : Word → Option (String × Word)
  | .text false content :: rest =>
    let name := content.takeWhile (· ≠ '=')
    match content.dropWhile (· ≠ '=') with
    | [] => none
    | _ :: value =>
      if isName name then some (String.ofList name, .text false value :: rest) else none
  | _ => none

/-! ## The grammar -/

mutual

/-- The pieces of a word up to a character that ends it, in reverse. Within double quotes only the
closing quote ends it. -/
def pieces : Nat → (stop : Char → Bool) → (quoted : Bool) → List Piece → Part (List Piece)
  | 0, _, _, read => return read
  | n + 1, stop, quoted, read => do
    match ← peek with
    | none => if quoted then fault .openQuote else return read
    | some c =>
      if stop c then return read
      else
        let _ ← next?
        if c = '\\' then
          match ← next? with
          | none => pieces n stop quoted (pushChar true '\\' read)
          | some '\n' => pieces n stop quoted read
          | some d =>
            if quoted && !("$`\"\\".toList.contains d) then
              pieces n stop quoted (pushChar true d (pushChar true '\\' read))
            else pieces n stop quoted (pushChar true d read)
        else if c = '\'' && !quoted then
          let content ← upTo '\''
          pieces n stop quoted (.text true content :: read)
        else if c = '"' && !quoted then
          let inner ← pieces n (· = '"') true []
          if ← eat '"' then pieces n stop quoted (inner ++ fieldMark inner ++ read)
          else fault .openQuote
        else if c = '$' then
          match ← expansion n quoted with
          | some piece => pieces n stop quoted (piece :: read)
          | none => pieces n stop quoted (pushChar quoted '$' read)
        else if c = '`' then
          let content ← upToBackquote
          match script n content with
          | .ok body => pieces n stop quoted (.output quoted body :: read)
          | .error f => fault f.cause
        else pieces n stop quoted (pushChar quoted c read)

/-- What follows a dollar sign, if it starts an expansion. -/
def expansion : Nat → Bool → Part (Option Piece)
  | 0, _ => return none
  | n + 1, quoted => do
    if ← eatAll ['(', '('] then
      let inner ← arithmetic n 0 []
      return some (.arithmetic quoted inner.reverse)
    else if ← eat '(' then
      let body ← commands n
      skipLines
      if ← eat ')' then return some (.output quoted body)
      else
        match ← peek with
        | none => fault .unexpectedEnd
        | some c => fault (.unexpected [c])
    else if ← eat '\x7b' then
      if ← eat '#' then
        match ← parameterName with
        | some name =>
          if ← eat '\x7d' then return some (.parameter quoted name .length)
          else fault .badSubstitution
        | none =>
          if ← eat '\x7d' then return some (.parameter quoted "#" .plain)
          else fault .badSubstitution
      else
        let digits ← takeWhile Char.isDigit
        let name ← if digits.isEmpty then parameterName else pure (some (String.ofList digits))
        match name with
        | none => fault .badSubstitution
        | some name =>
          let m ← modifier n
          if ← eat '\x7d' then return some (.parameter quoted name m)
          else fault .badSubstitution
    else
      match ← parameterName with
      | some name => return some (.parameter quoted name .plain)
      | none => return none

/-- The pieces of an arithmetic expression up to the marks that close it, in reverse, within `depth`
parentheses. -/
def arithmetic : Nat → Nat → List Piece → Part (List Piece)
  | 0, _, _ => fault .unexpectedEnd
  | n + 1, depth, read => do
    match ← next? with
    | none => fault .unexpectedEnd
    | some '(' => arithmetic n (depth + 1) (pushChar true '(' read)
    | some ')' =>
      if depth > 0 then arithmetic n (depth - 1) (pushChar true ')' read)
      else if ← eat ')' then return read
      else fault .unexpectedEnd
    | some '$' =>
      match ← expansion n true with
      | some piece => arithmetic n depth (piece :: read)
      | none => arithmetic n depth (pushChar true '$' read)
    | some c => arithmetic n depth (pushChar true c read)

/-- The modifier of a parameter. -/
def modifier : Nat → Part Modifier
  | 0 => fault .badSubstitution
  | n + 1 => do
    let word : Part Word := do return (← pieces n (· = '\x7d') false []).reverse
    if ← eatAll [':', '-'] then return .orElse true (← word)
    else if ← eat '-' then return .orElse false (← word)
    else if ← eatAll [':', '='] then return .assign true (← word)
    else if ← eat '=' then return .assign false (← word)
    else if ← eatAll [':', '+'] then return .instead true (← word)
    else if ← eat '+' then return .instead false (← word)
    else if ← eatAll ['#', '#'] then return .dropFront true (← word)
    else if ← eat '#' then return .dropFront false (← word)
    else if ← eatAll ['%', '%'] then return .dropBack true (← word)
    else if ← eat '%' then return .dropBack false (← word)
    else return .plain

/-- A word. -/
def word : Nat → Part Word
  | 0 => fault .unexpectedEnd
  | n + 1 => do
    let read ← pieces n isBreak false []
    return read.reverse

/-- A redirection whose sign comes next; `number` stands in front of it. -/
def redirect : Nat → Option Nat → Part Redirect
  | 0, _ => fault .unexpectedEnd
  | n + 1, number => do
    if ← eat '<' then
      skipSpace
      return .fromFile (← word n)
    else
      let _ ← eat '>'
      let descriptor := number.getD 1
      if ← eat '&' then
        skipSpace
        match ← next? with
        | some '-' => return .duplicate descriptor .closed
        | some d =>
          if d.isDigit then return .duplicate descriptor (.descriptor (d.toNat - '0'.toNat))
          else fault (.unexpected [d])
        | none => fault .unexpectedEnd
      else
        let _ ← eat '>'
        skipSpace
        return .toFile descriptor (← word n)

/-- The redirections that come next. -/
def redirects : Nat → Part (List Redirect)
  | 0 => return []
  | n + 1 => do
    skipSpace
    match descriptorBefore (← rest) with
    | some (number, _) =>
      let _ ← next?
      return (← redirect n (some number)) :: (← redirects n)
    | none =>
      match ← peek with
      | some c =>
        if c = '<' || c = '>' then return (← redirect n none) :: (← redirects n) else return []
      | none => return []

/-- A command of words, added to what has been read of it. -/
def simple : Nat → List (String × Word) → List Word → List Redirect → Part Command
  | 0, settings, words, rs => return .simple settings words rs
  | n + 1, settings, words, rs => do
    skipSpace
    match descriptorBefore (← rest) with
    | some (number, _) =>
      let _ ← next?
      let r ← redirect n (some number)
      simple n settings words (rs ++ [r])
    | none =>
      match ← peek with
      | none => return .simple settings words rs
      | some c =>
        if c = '<' || c = '>' then
          let r ← redirect n none
          simple n settings words (rs ++ [r])
        else if isBreak c then return .simple settings words rs
        else
          let w ← word n
          match words, setting? w with
          | [], some s => simple n (settings ++ [s]) words rs
          | _, _ => simple n settings (words ++ [w]) rs

/-- The rest of a conditional command after its condition's first word. -/
def conditional : Nat → Part (List Command × List Command × List Command)
  | 0 => fault .unexpectedEnd
  | n + 1 => do
    let condition ← commands n
    expect "then"
    let yes ← commands n
    skipSpace
    match ← peekReserved with
    | some "elif" =>
      expect "elif"
      let (c, y, no) ← conditional n
      return (condition, yes, [.choice c y no []])
    | some "else" =>
      expect "else"
      return (condition, yes, ← commands n)
    | _ => return (condition, yes, [])

/-- The patterns of a case, with the mark that ends them. -/
def patterns : Nat → Part (List Word)
  | 0 => fault .unexpectedEnd
  | n + 1 => do
    skipSpace
    let first ← word n
    skipSpace
    if ← eat '|' then return first :: (← patterns n)
    else if ← eat ')' then return [first]
    else fault .unexpectedEnd

/-- The cases of a selection up to its last word. -/
def cases : Nat → Part (List (List Word × List Command))
  | 0 => fault .unexpectedEnd
  | n + 1 => do
    skipLines
    match ← peekReserved with
    | some "esac" => return []
    | _ =>
      let _ ← eat '('
      let ps ← patterns n
      let body ← commands n
      skipLines
      if ← eatAll [';', ';'] then return (ps, body) :: (← cases n) else return [(ps, body)]

/-- The words that a loop goes through. -/
def wordsToEnd : Nat → Part (List Word)
  | 0 => return []
  | n + 1 => do
    skipSpace
    match ← peek with
    | none => return []
    | some c => if isBreak c then return [] else return (← word n) :: (← wordsToEnd n)

/-- A single command. -/
def command : Nat → Part Command
  | 0 => fault .unexpectedEnd
  | n + 1 => do
    skipSpace
    if ← eat '(' then
      let body ← commands n
      skipLines
      if ← eat ')' then return .group true body (← redirects n) else fault .unexpectedEnd
    else
      match ← peekReserved with
      | some "\x7b" =>
        let _ ← next?
        let body ← commands n
        expect "\x7d"
        return .group false body (← redirects n)
      | some "if" =>
        expect "if"
        let (condition, yes, no) ← conditional n
        expect "fi"
        return .choice condition yes no (← redirects n)
      | some "while" =>
        expect "while"
        let condition ← commands n
        expect "do"
        let body ← commands n
        expect "done"
        return .loop true condition body (← redirects n)
      | some "until" =>
        expect "until"
        let condition ← commands n
        expect "do"
        let body ← commands n
        expect "done"
        return .loop false condition body (← redirects n)
      | some "for" =>
        expect "for"
        skipSpace
        let name ← takeWhile inName
        skipLines
        let words ← if ← eatAll ['i', 'n', ' '] then do
            let ws ← wordsToEnd n
            pure (some ws)
          else pure none
        let _ ← eat ';'
        skipLines
        expect "do"
        let body ← commands n
        expect "done"
        return .each (String.ofList name) words body (← redirects n)
      | some "case" =>
        expect "case"
        skipSpace
        let subject ← word n
        skipLines
        let _ ← eatAll ['i', 'n']
        let cs ← cases n
        skipLines
        expect "esac"
        return .select subject cs (← redirects n)
      | some found => fault (.unexpected found.toList)
      | none => simple n [] [] []

/-- Commands whose output is the input of the next one. -/
def pipeline : Nat → Part Command
  | 0 => fault .unexpectedEnd
  | n + 1 => do
    skipSpace
    match ← peekReserved with
    | some "!" =>
      expect "!"
      return .negation (← pipeline n)
    | _ =>
      let first ← command n
      let more ← pipeTail n
      return if more.isEmpty then first else .pipeline (first :: more)

/-- The commands after a bar. -/
def pipeTail : Nat → Part (List Command)
  | 0 => return []
  | n + 1 => do
    skipSpace
    match ← rest with
    | '|' :: '|' :: _ => return []
    | '|' :: _ =>
      let _ ← next?
      skipLines
      let c ← command n
      return c :: (← pipeTail n)
    | _ => return []

/-- Pipelines joined by signs for both and either. -/
def joined : Nat → Command → Part Command
  | 0, first => return first
  | n + 1, first => do
    skipSpace
    if ← eatAll ['&', '&'] then
      skipLines
      let second ← pipeline n
      joined n (.both first second)
    else if ← eatAll ['|', '|'] then
      skipLines
      let second ← pipeline n
      joined n (.either first second)
    else return first

/-- Commands one after the other, up to a word that ends them. -/
def commands : Nat → Part (List Command)
  | 0 => return []
  | n + 1 => do
    skipLines
    match ← peek with
    | none => return []
    | some ')' => return []
    | some ';' =>
      match ← rest with
      | ';' :: ';' :: _ => return []
      | _ => fault (.unexpected [';'])
    | some _ =>
      match ← peekReserved with
      | some "then" | some "elif" | some "else" | some "fi" | some "do" | some "done"
      | some "esac" | some "\x7d" => return []
      | _ =>
        let first ← pipeline n
        let c ← joined n first
        skipSpace
        match ← rest with
        | ';' :: ';' :: _ => return [c]
        | ';' :: _ | '&' :: _ =>
          let _ ← next?
          return c :: (← commands n)
        | '\n' :: _ => return c :: (← commands n)
        | _ => return [c]

/-- All commands of a script. -/
def script (n : Nat) (source : List Char) : Except (Fault SyntaxError) (List Command) :=
  match n with
  | 0 => .ok []
  | n + 1 => (commands n source).map Prod.fst

end

/-- Lines of a script up to its first error. -/
def readLines : Nat → List Char → List Command × Option SyntaxError
  | 0, _ => ([], none)
  | n + 1, source =>
    let step : Part (Option Command) := do
      skipLines
      match ← peek with
      | none => return none
      | some c =>
        if isBreak c && c ≠ '(' then fault (.unexpected [c])
        let first ← pipeline (10 * source.length + 100)
        let c ← joined (10 * source.length + 100) first
        skipSpace
        let _ ← eat ';'
        return some c
    match step source with
    | .error f => ([], some f.cause)
    | .ok (none, _) => ([], none)
    | .ok (some c, after) =>
      let (cs, e) := readLines n after
      (c :: cs, e)

/-- The commands of a script up to its end or its first error. -/
def readScript (source : List Char) : List Command × Option SyntaxError :=
  readLines (source.length + 1) source

end StepFlow.Shell
