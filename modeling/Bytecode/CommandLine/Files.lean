import Bytecode.Error

/-!
# File trees

What a program sees of the files of a system: which paths name a directory, which a file with
a text, and which something that cannot be read. `Files.follow` follows a path name by name, as
the system does, and `Files.read` yields the text at its end or the reason why there is none.
`Files.bare` is a system with the usual directories and devices and no files of a user.
-/

namespace Bytecode

/-- What a path may lead to. -/
inductive Entry where
  | directory
  | file (text : String)
  /-- No directory, and reading it fails. -/
  | closed (error : FileError)
  deriving DecidableEq, Repr, Inhabited

/-- The files of a system. A path from the root is the list of its names. -/
structure Files where
  /-- The entries below the root, which is a directory itself. -/
  entries : List (List String × Entry)
  /-- The directory where relative paths start. -/
  working : List String
  deriving DecidableEq, Repr, Inhabited

namespace Files

/-- The bytes that a name in a directory may have. -/
def maxNameSize : Nat := 255

/-- The bytes that a path may have. -/
def maxPathSize : Nat := 4095

/-- What is found under a path from the root. -/
def entry? (f : Files) (path : List String) : Option Entry :=
  if path = [] then some .directory else f.entries.lookup path

/-- Follow names from a directory on. One dot and an empty name stay where they are, two dots
go up, at the root nowhere. A name can only be followed in a directory. -/
def follow (f : Files) : List String → List String → Except FileError (List String)
  | [], place => .ok place
  | name :: rest, place =>
    match f.entry? place with
    | none => .error .notFound
    | some (.file _) | some (.closed _) => .error .notDirectory
    | some .directory =>
      if name = "" ∨ name = "." then f.follow rest place
      else if name = ".." then f.follow rest place.dropLast
      else if maxNameSize < name.utf8ByteSize then .error .nameTooLong
      else if (f.entry? (place ++ [name])).isNone then .error .notFound
      else f.follow rest (place ++ [name])

/-- The text of the file with a path. -/
def read (f : Files) (path : String) : Except FileError String := do
  if path.isEmpty then throw .notFound
  if maxPathSize < path.utf8ByteSize then throw .nameTooLong
  let start := if path.startsWith "/" then [] else f.working
  let place ← f.follow (path.splitOn "/") start
  match f.entry? place with
  | some (.file text) => return text
  | some (.closed error) => throw error
  | some .directory => throw .isDirectory
  | none => throw .notFound

/-- The directories that systems have in common. -/
def commonDirectories : List String :=
  ["bin", "boot", "dev", "etc", "home", "lib", "lib64", "media", "mnt", "opt", "proc", "root",
    "run", "sbin", "srv", "sys", "tmp", "usr", "var",
    "dev/fd", "dev/mqueue", "dev/pts", "dev/shm",
    "proc/self", "proc/self/cwd", "proc/self/fd", "proc/self/root", "proc/sys",
    "sys/block", "sys/bus", "sys/class", "sys/dev", "sys/devices", "sys/firmware", "sys/fs",
    "sys/kernel", "sys/module",
    "usr/bin", "usr/games", "usr/include", "usr/lib", "usr/lib64", "usr/local", "usr/local/bin",
    "usr/local/etc", "usr/local/include", "usr/local/lib", "usr/local/sbin", "usr/local/share",
    "usr/local/src", "usr/sbin", "usr/share", "usr/src",
    "var/cache", "var/lib", "var/local", "var/lock", "var/log", "var/mail", "var/opt", "var/run",
    "var/spool", "var/tmp"]

/-- The files that are always empty, and the streams of a program that gets no input. -/
def emptyFiles : List String :=
  ["dev/null", "dev/stdin", "dev/stdout", "dev/stderr", "dev/fd/0", "dev/fd/1", "dev/fd/2",
    "proc/self/fd/0", "proc/self/fd/1", "proc/self/fd/2"]

/-- Texts that a system keeps about itself, of which none is a program. -/
def systemTexts : List String :=
  ["etc/group", "etc/hostname", "etc/hosts", "etc/passwd", "etc/resolv.conf", "proc/cpuinfo",
    "proc/meminfo", "proc/self/cmdline", "proc/self/maps", "proc/self/status", "proc/uptime",
    "proc/version"]

/-- The devices whose bytes never end. -/
def endlessDevices : List String := ["dev/full", "dev/random", "dev/urandom", "dev/zero"]

/-- Files of machine code. -/
def machineCode : List String :=
  ["bin/cat", "bin/ls", "bin/sh", "proc/self/exe", "usr/bin/env"]

/-- One entry at each of the given paths from the root. -/
def place (entry : Entry) (paths : List String) : List (List String × Entry) :=
  paths.map fun path => (path.splitOn "/", entry)

/-- A system with the common directories, devices and files, of which none is a program. It has
no terminal. -/
def bare : Files where
  entries :=
    place .directory commonDirectories ++ place (.file "") emptyFiles ++
      place (.file "\n") systemTexts ++ place (.closed .outOfMemory) endlessDevices ++
      place (.closed .notText) machineCode ++ place (.closed .noDevice) ["dev/tty"]
  working := ["tmp"]

end Files

end Bytecode
