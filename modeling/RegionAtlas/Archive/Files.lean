/-
  Files — what a program finds and leaves, seen from the directory it works in.

  A file is kept as the source that is read from it, so it may hold bytes that belong to no
  character; what the program writes is always a text.  It stands under its path, its parts joined
  by slashes.  A directory is there if a file is in it or if it is listed, and writing never makes
  one.  Paths are followed part by part: empty parts and `.` stay, `..` goes up, and every part but
  the last must be a directory.  A part names something in at most 255 bytes, and a path has at
  most 4095.  The directories above the one the program works in are there, and hold nothing unless
  it is listed.
-/
import RegionAtlas.Json.Source
import RegionAtlas.Ledger.Table
import RegionAtlas.Text.Blank

namespace RegionAtlas

/-- Why a file is not read or written. -/
inductive FileFault where
  | notFound
  /-- A part of the path that should be a directory is a file. -/
  | notADirectory
  /-- The path leads to a directory. -/
  | isADirectory
  /-- The path, or a part of it, has more bytes than any that is there. -/
  | nameTooLong
  /-- No path holds a NUL character. -/
  | nulInPath
  deriving DecidableEq

/-- What the system says of a fault. -/
def FileFault.message : FileFault → String
  | notFound => "No such file or directory (os error 2)"
  | notADirectory => "Not a directory (os error 20)"
  | isADirectory => "Is a directory (os error 21)"
  | nameTooLong => "File name too long (os error 36)"
  | nulInPath => "file name contained an unexpected NUL byte"

/-- Files under their paths, and directories that are there whatever is in them. -/
structure Files where
  sources : Table String Json.Source
  directories : List String
  deriving DecidableEq

/-- Where a path leads. -/
inductive Place where
  | file (path : String) (found : Json.Source)
  | directory
  /-- There is nothing, but a file can be put there. -/
  | vacant (path : String)
  deriving DecidableEq

namespace Files

/-- No files, and no directory but the one that is worked in and those above it. -/
def empty : Files := ⟨.empty, []⟩

/-! ## Following paths

  A path that is followed stands by its parts, innermost first.  One from the root ends in an empty
  part, and one that leads above the working directory in `..`. -/

/-- A path by its parts. -/
def pathOf (parts : List String) : String := "/".intercalate parts.reverse

/-- The directory above another. -/
def above : List String → List String
  | [] => [".."]
  | "" :: up => "" :: up
  | ".." :: up => ".." :: ".." :: up
  | _ :: up => up

/-- Whether a directory is there. -/
def hasDirectory (f : Files) (parts : List String) : Bool :=
  parts.all (fun part => part == ".." || part == "") ||
    f.directories.contains (pathOf parts) ||
    f.sources.keys.any ((pathOf parts ++ "/").isPrefixOf ·)

/-- How many bytes a part of a path has at most. -/
def partLimit : Nat := 255

/-- How many bytes a path has at most. -/
def pathLimit : Nat := 4095

/-- Follows the rest of a path from a directory. -/
def follow (f : Files) (directory : List String) : List String → Except FileFault Place
  | [] => .ok .directory
  | part :: rest =>
    if part = "" ∨ part = "." then f.follow directory rest
    else if part = ".." then f.follow (above directory) rest
    else if partLimit < part.utf8ByteSize then .error .nameTooLong
    else if f.hasDirectory (part :: directory) then f.follow (part :: directory) rest
    else
      let path := pathOf (part :: directory)
      match f.sources.find? path, rest with
      | some found, [] => .ok (.file path found)
      | some _, _ :: _ => .error .notADirectory
      | none, [] => .ok (.vacant path)
      | none, _ :: _ => .error .notFound

/-- The parts of a path, outermost first, and the directory it starts from. -/
def startOf (path : String) : List String × List String :=
  let parts := (path.toList.splitOn '/').map String.ofList
  match path.toList with
  | '/' :: _ => ([""], parts)
  | _ => ([], parts)

/-- Where a path leads.  The empty path leads nowhere. -/
def locate (f : Files) (path : String) : Except FileFault Place :=
  if path.isEmpty then .error .notFound
  else if path.toList.contains (Char.ofNat 0) then .error .nulInPath
  else if pathLimit < path.utf8ByteSize then .error .nameTooLong
  else
    let (directory, parts) := startOf path
    f.follow directory parts

/-! ## Reading and writing -/

/-- What is read from the file that a path leads to. -/
def read (f : Files) (path : String) : Except FileFault Json.Source :=
  match f.locate path with
  | .ok (.file _ found) => .ok found
  | .ok .directory => .error .isADirectory
  | .ok (.vacant _) => .error .notFound
  | .error fault => .error fault

/-- Puts a text under a path as it stands, wherever that leads. -/
def put (f : Files) (path text : String) : Files :=
  { f with sources := f.sources.insert path (.ofText text) }

/-- Puts a text where a path leads, in place of a file that is there. -/
def write (f : Files) (path text : String) : Except FileFault Files :=
  match f.locate path with
  | .ok (.file path _) => .ok (f.put path text)
  | .ok (.vacant path) => .ok (f.put path text)
  | .ok .directory => .error .isADirectory
  | .error fault => .error fault

/-- The directory of a path; that of a path without one is empty. -/
def parent (path : String) : String :=
  match Text.splitLast? (· == '/') path.toList with
  | some ([], _) => "/"
  | some (directory, _) => String.ofList directory
  | none => ""

/-- The texts that are not as they were before, in order of their paths.  Nothing but a text is
ever written, so no file that has changed is missing. -/
def changedSince (f before : Files) : List (String × String) :=
  f.sources.rows.filterMap fun (path, source) =>
    if before.sources.find? path = some source then none
    else (Json.Source.text? source).map (path, ·)

/-! ## Files that were found -/

/-- Where a path leads if every directory on it is there. -/
def settle (directory : List String) : List String → List String
  | [] => directory
  | part :: rest =>
    if part = "" ∨ part = "." then settle directory rest
    else if part = ".." then settle (above directory) rest
    else settle (part :: directory) rest

/-- The directories a path goes through. -/
def enclosing : List String → List String
  | [] => []
  | _ :: up => pathOf up :: enclosing up

/-- Lists the directories on a path, and the file at its end if one was found there. -/
def note (f : Files) (path : String) (source : Option Json.Source) : Files :=
  let (directory, parts) := startOf path
  let settled := settle directory parts
  let f := { f with directories := enclosing settled ++ f.directories }
  match source with
  | some source => { f with sources := f.sources.insert (pathOf settled) source }
  | none => f

end Files

end RegionAtlas
