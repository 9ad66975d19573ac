import Backend65816.Command.Run

/-!
# Directories in memory

A store of files for runs of the command that touch nothing else. A path is followed part by part
from the working directory; every part but the last has to be a directory that is there. Above the
working directory there are no files, and what is written there is not kept.
-/

namespace Backend65816

/-- Files by their paths below the working directory. -/
structure Directory where
  files : Named String := []
  written : Named (List String) := []
deriving DecidableEq, Repr, Inhabited

/-- What a path leads to. -/
inductive PathTarget where
  | file (path : String)
  | directory
  | free (path : String)
  | outside
  | missing
  | blocked
deriving DecidableEq, Repr, Inhabited

namespace Directory

def pathOf (parts : List String) : String := String.intercalate "/" parts

def hasFile (directory : Directory) (parts : List String) : Bool :=
  directory.files.has (pathOf parts) || directory.written.has (pathOf parts)

def hasDirectory (directory : Directory) (parts : List String) : Bool :=
  directory.files.any fun entry => parts.isPrefixOf ((entry.1.splitOn "/").dropLast)

def followOutside : List String → PathTarget
  | [] => .directory
  | "" :: rest | "." :: rest | ".." :: rest => followOutside rest
  | [_] => .outside
  | _ :: _ => .missing

def follow (directory : Directory) (base : List String) : List String → PathTarget
  | [] => .directory
  | "" :: rest | "." :: rest => follow directory base rest
  | ".." :: rest =>
    if base.isEmpty then followOutside rest else follow directory base.dropLast rest
  | part :: rest =>
    let here := base ++ [part]
    if directory.hasDirectory here then follow directory here rest
    else if directory.hasFile here then
      if rest.isEmpty then .file (pathOf here) else .blocked
    else if rest.isEmpty then .free (pathOf here)
    else .missing

def targetOf (directory : Directory) : List String → PathTarget
  | [] | [""] => .missing
  | "" :: rest => followOutside rest
  | parts => directory.follow [] parts

def target (directory : Directory) (path : String) : PathTarget :=
  directory.targetOf (path.splitOn "/")

def targetToWrite (directory : Directory) (path : String) : PathTarget :=
  let parts := ((path.splitOn "/").reverse.dropWhile (·.isEmpty)).reverse
  if path ≠ "" ∧ parts.isEmpty then .directory else directory.targetOf parts

def read (directory : Directory) (path : String) : Except FileError String :=
  match directory.target path with
  | .file name => .ok ((directory.files.get? name).getD "")
  | .directory => .error (.readDirectory path)
  | .blocked => .error (.notDirectory path)
  | .free _ | .outside | .missing => .error (.notFound path)

def write (directory : Directory) (path : String) (lines : List String) :
    Except FileError Directory :=
  match directory.targetToWrite path with
  | .free name =>
    if path.endsWith "/" then .error (.writeDirectory path)
    else .ok { directory with written := directory.written.put name lines }
  | .file _ | .outside =>
    if path.endsWith "/" then .error (.writeDirectory path) else .ok directory
  | .directory => .error (.writeDirectory path)
  | .blocked => .error (.notDirectory path)
  | .missing => .error (.notFound path)

def access : FileAccess (StateM Directory) where
  read path := return (← get).read path
  write path lines := do
    match (← get).write path lines with
    | .ok changed =>
      set changed
      return .ok ()
    | .error error => return .error error

end Directory

end Backend65816
