import StepFlow.Places
import StepFlow.Store.Archive

/-!
# Workspaces

A workspace is what the commands find and leave behind: files, the archives of data folders, and the
number of log files of every folder.

* `FileFault`: why a file is not there to be read;
* `Workspace`: the content, with `Workspace.read`, `Workspace.archive`, `Workspace.keep` and
  `Workspace.log`.
-/

namespace StepFlow

/-- Why a file cannot be used. -/
inductive FileFault where
  /-- The path leads nowhere. -/
  | path (fault : PathFault)
  | isFolder
  | occupied
deriving DecidableEq, Repr

/-- The wording of a fault. -/
def FileFault.message : FileFault → String
  | .path fault => fault.message
  | .isFolder => "Is a directory (os error 21)"
  | .occupied => "File exists (os error 17)"

/-- The archives of data folders. -/
abbrev DataArchive : Type := Archive .offset

/-- The content that commands work on, by paths without superfluous parts. -/
structure Workspace where
  files : Keyed String
  /-- Folders that are there beside those that hold something. -/
  folders : List String
  /-- The archives by their data folders. -/
  archives : Keyed DataArchive
  /-- The numbers of log files by their folders. -/
  logs : Keyed Nat

namespace Workspace

def file? (w : Workspace) (ps : List String) : Option String :=
  Keyed.find? (placesPath ps) w.files

/-- Whether a path is one of a folder: of the workspace itself or one around it, of archives or logs, or
of a file below. -/
def isFolder (w : Workspace) (ps : List String) : Bool :=
  let above (path : String) : Bool := ps.isPrefixOf (places path)
  ps.all (· = "..") || w.folders.any above ||
    (Keyed.keys w.archives).any above || (Keyed.keys w.logs).any above ||
    (Keyed.keys w.files).any fun path => above path && places path ≠ ps

/-- Whether a file stands in the way of a path. -/
def blocked (w : Workspace) (ps : List String) : Bool :=
  (Keyed.keys w.files).any fun path => (places path).isPrefixOf ps && places path ≠ ps

def standing (w : Workspace) (ps : List String) : Option Standing :=
  if (w.file? ps).isSome then some .file else if w.isFolder ps then some .folder else none

/-- The text of a file. -/
def read (w : Workspace) (path : String) : Except FileFault String :=
  match reach w.standing path with
  | .error fault => .error (.path fault)
  | .ok (.folder _) => .error .isFolder
  | .ok (.file ps) => .ok ((w.file? ps).getD "")

/-- Why there can be no folder at a path. -/
def folderFault? (w : Workspace) (path : String) : Option FileFault :=
  let ps := places path
  if w.blocked ps then some (.path .notFolder)
  else if (w.file? ps).isSome then some .occupied
  else if ps.any isOverlong || path.utf8ByteSize > longestPath then some (.path .tooLong)
  else none

/-- The archive of a data folder, which is empty at first. -/
def archive (w : Workspace) (folder : String) : DataArchive :=
  (Keyed.find? (placesPath (places folder)) w.archives).getD .empty

/-- Puts an archive into a data folder. -/
def keep (w : Workspace) (folder : String) (archive : DataArchive) : Workspace :=
  { w with archives := Keyed.insert (placesPath (places folder)) archive w.archives }

/-- The number of log files of a folder. -/
def logCount (w : Workspace) (folder : String) : Nat :=
  (Keyed.find? (placesPath (places folder)) w.logs).getD 0

def log (w : Workspace) (folder : String) : Workspace :=
  { w with logs := Keyed.insert (placesPath (places folder)) (w.logCount folder + 1) w.logs }

end Workspace

end StepFlow
