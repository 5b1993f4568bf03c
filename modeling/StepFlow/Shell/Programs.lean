import StepFlow.Places
import StepFlow.Shell.Tool

/-!
# Programs

Where programs are found. A path with a slash leads to a program by itself, and any other one is the name
of a program in one of the folders for programs.

* `Terrain`, `Terrain.standing`: the folders and files of a machine;
* `Refusal`: why nothing can be started;
* `Terrain.find`: the program at a path.
-/

namespace StepFlow.Shell

/-- The names of the programs that there are. -/
def programNames : List String :=
  "sh" :: "dash" :: "env" :: "sleep" :: (Tool.table.map Prod.fst).filter (· ≠ ":")

/-- The folders of every machine. -/
def commonFolders : List String :=
  ["/boot", "/dev", "/dev/fd", "/dev/mqueue", "/dev/pts", "/dev/shm", "/etc", "/etc/alternatives",
    "/etc/apt", "/etc/default", "/etc/init.d", "/etc/ssl", "/home", "/media", "/mnt", "/opt",
    "/proc", "/proc/self", "/root", "/run", "/run/lock", "/srv", "/sys", "/tmp", "/usr",
    "/usr/bin", "/usr/games", "/usr/include", "/usr/lib", "/usr/lib64", "/usr/libexec",
    "/usr/local", "/usr/local/bin", "/usr/local/etc", "/usr/local/games", "/usr/local/include",
    "/usr/local/lib", "/usr/local/sbin", "/usr/local/share", "/usr/local/src", "/usr/sbin",
    "/usr/share", "/usr/share/doc", "/usr/src", "/var", "/var/cache", "/var/lib", "/var/local",
    "/var/lock", "/var/log", "/var/mail", "/var/run", "/var/spool", "/var/tmp"]

/-- Files of every machine that are no programs. -/
def commonFiles : List String :=
  ["/dev/full", "/dev/null", "/dev/ptmx", "/dev/random", "/dev/stderr", "/dev/stdin",
    "/dev/stdout", "/dev/tty", "/dev/urandom", "/dev/zero", "/etc/bash.bashrc",
    "/etc/environment", "/etc/fstab", "/etc/group", "/etc/host.conf",
    "/etc/hostname", "/etc/hosts", "/etc/issue", "/etc/ld.so.cache", "/etc/ld.so.conf",
    "/etc/login.defs", "/etc/nsswitch.conf", "/etc/os-release", "/etc/passwd", "/etc/profile",
    "/etc/resolv.conf", "/etc/shadow", "/etc/shells", "/proc/cpuinfo", "/proc/meminfo",
    "/proc/mounts", "/proc/self/cmdline", "/proc/self/environ", "/proc/self/status",
    "/proc/uptime", "/proc/version", "/root/.bashrc", "/root/.profile"]

/-- The folders of the root that lead to folders of `usr`. -/
def linkedFolders : List String := ["bin", "lib", "lib64", "sbin"]

/-- The folders of every machine, with those that lead to other ones. -/
def folders : List String := commonFolders ++ linkedFolders.map ("/" ++ ·)

/-- The folders and files that paths lead to. -/
structure Terrain where
  /-- The folders in which programs are looked for. -/
  searched : List String
  /-- The files below the folder where relative paths start. -/
  files : List String
deriving Inhabited

/-- Why nothing can be started. -/
inductive Refusal where
  | path (fault : PathFault)
  /-- What stands at the path is no program. -/
  | noProgram
  /-- An argument or an entry of the environment is too long. -/
  | overlong
  /-- An argument or an entry of the environment holds a null character. -/
  | nullCharacter
deriving DecidableEq, Repr

/-- The wording of a refusal. -/
def Refusal.message : Refusal → String
  | .path fault => fault.message
  | .noProgram => "Permission denied (os error 13)"
  | .overlong => "Argument list too long (os error 7)"
  | .nullCharacter => "nul byte found in provided data"

namespace Terrain

/-- The terrain of every machine. -/
def common : Terrain :=
  ⟨["/usr/local/sbin", "/usr/local/bin", "/usr/sbin", "/usr/bin", "/sbin", "/bin"], []⟩

/-- What stands at a place. -/
def standing (t : Terrain) (ps : List String) : Option Standing :=
  match ps with
  | ["", "usr", "bin", name] => if programNames.contains name then some .file else none
  | ["", name] =>
    if linkedFolders.contains name then some (.link ["", "usr", name])
    else if commonFolders.contains ("/" ++ name) then some .folder
    else none
  | "" :: _ =>
    if commonFolders.contains (placesPath ps) then some .folder
    else if commonFiles.contains (placesPath ps) then some .file
    else none
  | ps =>
    if ps.all (· = "..") then some .folder
    else if t.files.contains (placesPath ps) then some .file
    else if t.files.any fun file => ps.isPrefixOf (places file) then some .folder
    else none

def programAt : Place → Except Refusal String
  | .file ["", "usr", "bin", name] => .ok name
  | _ => .error .noProgram

/-- The program to which a path leads. -/
def programOn (t : Terrain) (path : String) : Except Refusal String :=
  match reach t.standing path with
  | .error fault => .error (.path fault)
  | .ok place => programAt place

/-- The program of a name in the first of several folders that has it. Something else of that name
counts only if no folder has the program. -/
def search (t : Terrain) (name : String) : List String → Except Refusal String
  | [] => .error (.path .missing)
  | folder :: rest =>
    match t.programOn (folder ++ "/" ++ name), t.search name rest with
    | .ok program, _ => .ok program
    | .error _, .ok program => .ok program
    | .error .noProgram, .error _ => .error .noProgram
    | .error _, .error refusal => .error refusal

/-- The program at a path, which may be just the name of a program. -/
def find (t : Terrain) (path : String) : Except Refusal String :=
  if path.contains '/' then t.programOn path
  else if path = "" then .error (.path .missing)
  else if isOverlong path then .error (.path .tooLong)
  else t.search path t.searched

end Terrain

end StepFlow.Shell
