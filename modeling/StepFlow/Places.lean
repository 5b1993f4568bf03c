/-!
# Places

Files and folders stand at places. A path leads to a place name by name, and what stands on the way
decides whether it leads anywhere: a folder that is left again with `..` must be there.

* `places`, `placesPath`: a path as the names on it, and back;
* `Standing`, `Place`: what can stand at a place, and a place that was reached;
* `PathFault`: why a path leads nowhere;
* `reach`: where a path leads.
-/

namespace StepFlow

/-- The names on a path without superfluous parts. A path from the root starts with an empty name. -/
def places (path : String) : List String :=
  let parts := path.splitOn "/"
  let named := parts.filter fun part => part ≠ "" && part ≠ "."
  if path.startsWith "/" then "" :: named else named

def placesPath (ps : List String) : String := "/".intercalate ps

/-- What stands at a place. -/
inductive Standing where
  | folder
  | file
  /-- Another way to a folder. -/
  | link (target : List String)
deriving DecidableEq, Repr

/-- A place that a path leads to. -/
inductive Place where
  | folder (names : List String)
  | file (names : List String)
deriving DecidableEq, Repr

/-- Why a path leads nowhere. -/
inductive PathFault where
  | missing
  /-- Something other than a folder stands on the way. -/
  | notFolder
  | tooLong
deriving DecidableEq, Repr

/-- The wording of a fault. -/
def PathFault.message : PathFault → String
  | .missing => "No such file or directory (os error 2)"
  | .notFolder => "Not a directory (os error 20)"
  | .tooLong => "File name too long (os error 36)"

/-- The most bytes that a name can have. -/
def longestName : Nat := 255

/-- The most bytes that a path can have. -/
def longestPath : Nat := 4095

/-- Whether a name has more bytes than a name can have. -/
def isOverlong (name : String) : Bool := name.utf8ByteSize > longestName

/-- The names on a path, one after the other. A slash at the end leads on to the folder itself. -/
def pathNames (path : String) : List String :=
  let named := (path.splitOn "/").filter (· ≠ "")
  if path.endsWith "/" then named ++ ["."] else named

/-- The folder around a place. The root is in itself, and nothing is known of what is around the folder
where relative paths start. -/
def around : List String → List String
  | [""] => [""]
  | ps => if ps.all (· = "..") then ".." :: ps else ps.dropLast

/-- The folder where a path starts. -/
def startOf (path : String) : List String := if path.startsWith "/" then [""] else []

/-- The place after one more name. -/
def onward (here : List String) (name : String) : List String :=
  if name = "." then here else if name = ".." then around here else here ++ [name]

/-- Where names lead from a folder. -/
def walk (standing : List String → Option Standing) : List String → List String →
    Except PathFault Place
  | here, [] => .ok (.folder here)
  | here, name :: rest =>
    if name = "." || name = ".." then walk standing (onward here name) rest
    else if isOverlong name then .error .tooLong
    else
      match standing (onward here name) with
      | none => .error .missing
      | some .folder => walk standing (onward here name) rest
      | some (.link target) => walk standing target rest
      | some .file =>
        if rest.isEmpty then .ok (.file (onward here name)) else .error .notFolder

/-- The places to which names lead from a folder one after the other, if there are no links. -/
def passed : List String → List String → List (List String)
  | _, [] => []
  | here, name :: rest => onward here name :: passed (onward here name) rest

/-- Where a path leads. -/
def reach (standing : List String → Option Standing) (path : String) : Except PathFault Place :=
  if path = "" then .error .missing
  else if path.utf8ByteSize > longestPath then .error .tooLong
  else walk standing (startOf path) (pathNames path)

end StepFlow
