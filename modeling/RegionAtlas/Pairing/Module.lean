/-
  Module names — the file a region was mapped from, as its name tells.

  Debuggers name regions after a file and the address it was loaded at, `Memory[/bin/echo 0x5555]`.
  A name that tells a module is, after the decoration is taken off and the blanks around it are
  trimmed, a path, blanks, and a hexadecimal base.  The base only has to be readable.

  Rules:
    * the decoration is what stands up to the FIRST `[` and from the LAST `]`, if in that order;
    * the cut between path and base is the LAST blank, so a path may itself hold blanks;
    * the file name is what follows the last `/` or `\` of the path, its stem goes up to the first
      dot, and a file name that begins with its first dot is its own stem.
-/
import RegionAtlas.Text.Blank
import RegionAtlas.Text.Radix

namespace RegionAtlas

/-- The module a region belongs to. -/
structure ModuleKey where
  path : String
  deriving DecidableEq

namespace ModuleKey

def isSeparator (c : Char) : Bool := c == '/' || c == '\\'

/-- A name up to its first dot, unless that is its first character. -/
def stemOf (name : List Char) : List Char :=
  match Text.splitFirst? (· == '.') name with
  | some (c :: before, _) => c :: before
  | _ => name

/-- The path without its directories. -/
def basenameChars (k : ModuleKey) : List Char := Text.afterLast isSeparator k.path.toList

def basename (k : ModuleKey) : String := String.ofList k.basenameChars

/-- The file name up to its first dot. -/
def stem (k : ModuleKey) : String := String.ofList (stemOf k.basenameChars)

/-- The text between the first `[` and the last `]`, or all of it where they do not enclose any. -/
def undecorated (name : List Char) : List Char :=
  match Text.splitFirst? (· == '[') name with
  | some (_, rest) =>
    match Text.splitLast? (· == ']') rest with
    | some (inner, _) => inner
    | none => name
  | none => name

/-- The path and base that a trimmed text consists of. -/
def split? (inner : List Char) : Option (List Char × List Char) :=
  (Text.splitLast? Text.isBlank inner).map fun (path, base) => (Text.trim path, base)

/-- The module that the name of a region tells, if it tells one. -/
def ofName? (name : String) : Option ModuleKey :=
  match split? (Text.trim (undecorated name.toList)) with
  | some (path, base) =>
    if path.isEmpty then none
    else (Text.address? base).map fun _ => ⟨String.ofList path⟩
  | none => none

end ModuleKey

end RegionAtlas
