import StepFlow.Command.Run
import StepFlow.Shell.Machine
import Std.Time.DateTime

/-!
# The program

The program reads the files that a command line names, carries out the command on them, and writes back
what the command changed. An archive is the file `archive.json` of its data folder.

* `gather`: the workspace of an invocation;
* `settle`: the changes of the workspace;
* `main`: the program.
-/

namespace StepFlow

namespace Program

/-- The file with the archive of a data folder. -/
def archiveFile (folder : String) : String := folder ++ "/archive.json"

/-- The paths of the files that a command reads. -/
def filesOf : Command → List String
  | .start document options => document :: options.input.toList
  | .register _ document _ => [document]
  | .execute _ options => options.input.toList
  | _ => []

/-- Whether a command reads the standard input. -/
def readsInput : Command → Bool
  | .start _ options => options.input.isNone
  | .execute _ options => options.input.isNone
  | _ => false

/-- The text of a file that can be read. -/
def textOf? (path : String) : IO (Option String) := do
  try
    return some (← IO.FS.readFile path)
  catch _ =>
    return none

/-- The archive of a data folder, if there is one that can be read. -/
def archiveOf? (folder : String) : IO (Option DataArchive) := do
  return ((← textOf? (archiveFile folder)).bind Json.read?).bind Archive.decode?

/-- The workspace that an invocation meets. -/
def gather (folder : Option String) (command : Option Command) : IO Workspace := do
  let mut files : List (String × String) := []
  let mut folders : List String := []
  for path in (command.map filesOf).getD [] do
    if let some text ← textOf? path then
      let way := (passed (startOf path) (pathNames path)).map placesPath
      files := (way.getLastD path, text) :: files
      folders := way.dropLast ++ folders
  let mut archives : Keyed DataArchive := []
  if let some folder := folder then
    if let some archive ← archiveOf? folder then
      archives := [(placesPath (places folder), archive)]
  return ⟨.ofList files, folders, archives, []⟩

/-- The text on the standard input, which is blank if a person would have to type it. -/
def standardInput : IO String := do
  let input ← IO.getStdin
  if ← input.isTty then return ""
  let mut text := ""
  let mut line ← input.getLine
  repeat
    if line.isEmpty then break
    text := text ++ line
    line ← input.getLine
  return text

/-- The time of day of a time since the start of 1970. -/
def timeOfDay (time : Std.Time.Timestamp) : Timestamp :=
  let ⟨date, clock⟩ := Std.Time.PlainDateTime.ofWallTime (time.toWallTime .zero)
  let (year, month, day) := (date.year.toInt, date.month.val.toNat, date.day.val.toNat)
  let (hour, minute, second) := (clock.hour.val.toNat, clock.minute.val.toNat, clock.second.val.toNat)
  if h : (Calendar.isDay year month day && Calendar.isTime hour minute second) = true then
    ⟨year, month, day, hour, minute, second, h⟩
  else default

/-- The time of day so many milliseconds after a start. -/
def timeAfter (start : Std.Time.Timestamp) (milliseconds : Nat) : Timestamp :=
  timeOfDay (.ofNanosecondsSinceUnixEpoch
    ⟨(start.toMillisecondsSinceUnixEpoch.val + milliseconds) * 1000000⟩)

/-- The moment of a time since the start of 1970. -/
def momentOf (time : Std.Time.Timestamp) : Moment :=
  let nanosecond := (time.toNanosecondsSinceUnixEpoch.val % 1000000000).toNat
  (Moment.ofParts? (timeOfDay time) nanosecond).getD default

def randomNumber : IO Nat := do
  return (← IO.getRandomBytes 16).toList.foldl (fun n b => 256 * n + b.toNat) 0

/-- The identifier with a number: 122 bits in hexadecimal groups, with the marks of a random one. -/
def identifierOf (n : Nat) : String :=
  let digits (n width : Nat) : List Char :=
    let ds := Nat.toDigits 16 (n % Nat.pow 16 width)
    List.replicate (width - ds.length) '0' ++ ds
  String.ofList (digits n 8 ++ '-' :: digits (n / Nat.pow 2 32) 4 ++
    '-' :: '4' :: digits (n / Nat.pow 2 48) 3 ++
    '-' :: digits (8 + n / Nat.pow 2 60 % 4) 1 ++ digits (n / Nat.pow 2 62) 3 ++
    '-' :: digits (n / Nat.pow 2 74) 12)

/-- The identifiers that are drawn from a random number. -/
def identifierAt (random : Nat) (place : List Nat) : String :=
  identifierOf (place.foldr
    (fun i n => (n * 0x2545F4914F6CDD1D9E3779B97F4A7C15 + i + 1) % Nat.pow 2 122) random)

/-- The host that the program runs on. -/
def thisHost : IO Host := do
  let now ← Std.Time.Timestamp.now
  let random ← randomNumber
  return {
    launcher := Shell.Machine.plain.launcher
    clock := timeAfter now
    moment := momentOf now
    identifier := identifierOf (← randomNumber)
    draw := identifierAt random
    report := fun thread => s!"task {thread} panicked" }

/-- Writes an archive into its data folder. -/
def keepArchive (folder : String) (archive : DataArchive) : IO Unit := do
  IO.FS.createDirAll folder
  IO.FS.writeFile (archiveFile folder) archive.encode.render

/-- Makes a log file in a folder. -/
def keepLog (folder : String) (host : Host) : IO Unit := do
  let day := String.ofList ((host.clock 0).render.toList.take 10 |>.filter Char.isDigit)
  let identifier := identifierOf (← randomNumber)
  IO.FS.createDirAll (folder ++ "/dt=" ++ day)
  IO.FS.writeFile (folder ++ "/dt=" ++ day ++ "/" ++ identifier ++ ".log") ""

/-- Writes back what a workspace holds beside the files. -/
def settle (host : Host) (w : Workspace) : IO Unit := do
  for (folder, archive) in w.archives do
    keepArchive folder archive
  for (folder, _) in w.logs do
    keepLog folder host

/-- Writes what the program ends with. -/
def announce : Conclusion → IO Unit
  | .wrote output => IO.print output
  | .failed error => IO.eprint error.report
  | .misuse => IO.eprintln "error: the command line is not understood; try '--help'"

end Program

end StepFlow

open StepFlow in
/-- Carries out the command of a command line. -/
def main (arguments : List String) : IO UInt32 := do
  let dataFolder ← IO.getEnv Program.dataVariable
  let home ← IO.getEnv "HOME"
  let invocation := (Invocation.read dataFolder arguments).toOption
  let command := invocation.bind Invocation.command
  let host ← Program.thisHost
  let folder := invocation.bind fun i => i.dataFolder.or (home.map (· ++ "/." ++ Program.name))
  let workspace ← Program.gather folder command
  let input ← if (command.map Program.readsInput).getD false then Program.standardInput else pure ""
  let surroundings : Surroundings := ⟨host, workspace, input, home⟩
  match surroundings.answer dataFolder arguments with
  | some (conclusion, workspace) =>
    Program.settle host workspace
    Program.announce conclusion
    return UInt32.ofNat conclusion.status
  | none => return 1
