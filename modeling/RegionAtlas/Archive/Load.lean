/-
  Loading and saving — projects and traces in files.

  A project is read from its file and remembers the directory that file is in; the databases of its
  traces are found from there.  A database that is not there yet is an empty one.
-/
import RegionAtlas.Archive.Database
import RegionAtlas.Archive.Files
import RegionAtlas.Project.Project

namespace RegionAtlas

/-! ## Errors -/

/-- Of which kind an error is. -/
inductive ErrorKind where
  | invalidInput
  | invalidData
  | notFound
  | unexpectedEnd
  | notADirectory
  | isADirectory
  | nameTooLong
  | other
  deriving DecidableEq

def FileFault.kind : FileFault → ErrorKind
  | notFound => .notFound
  | notADirectory => .notADirectory
  | isADirectory => .isADirectory
  | nameTooLong => .nameTooLong
  | nulInPath => .invalidInput

/-- The reason against a document in words, where there is more to say than that it cannot be
read. -/
def Json.Unreadable.message? : Json.Unreadable → Option String
  | fault _ => none
  | invertedRange min max =>
    some ("range minimum " ++ String.ofList (Text.markedHex min) ++ " exceeds maximum " ++
      String.ofList (Text.markedHex max))
  | invertedLifespan start stop => some (invertedLifespanText start stop)

/-- Why a project is not loaded. -/
inductive ProjectError where
  | file (fault : FileFault)
  | unreadable (why : Json.Unreadable)
  deriving DecidableEq

namespace ProjectError

/-- A document that ends too early is told apart from one that is wrong in another way. -/
def kind : ProjectError → ErrorKind
  | file fault => fault.kind
  | unreadable (.fault .truncated) => .unexpectedEnd
  | unreadable _ => .invalidData

def message? : ProjectError → Option String
  | file fault => some fault.message
  | unreadable why => why.message?

end ProjectError

/-- Why a trace is not loaded or saved. -/
inductive DatabaseError where
  | file (fault : FileFault)
  | unreadable (why : Json.Unreadable)
  | fault (what : DatabaseFault)
  deriving DecidableEq

namespace DatabaseError

def kind : DatabaseError → ErrorKind
  | file f => f.kind
  | _ => .invalidData

def message? : DatabaseError → Option String
  | file f => some f.message
  | unreadable why => why.message?
  | fault what => some what.message

end DatabaseError

/-! ## Projects -/

/-- A project and the directory that paths in it start from. -/
structure PlacedProject where
  project : Project
  directory : String
  deriving DecidableEq

namespace PlacedProject

/-- Reads the project in a file. -/
def load (files : Files) (path : String) : Except ProjectError PlacedProject :=
  match files.read path with
  | .error fault => .error (.file fault)
  | .ok source =>
    match Json.decodeSource Project.decode source with
    | .error why => .error (.unreadable why)
    | .ok project => .ok ⟨project, Files.parent path⟩

/-- Where the database of a trace is. -/
def databasePath (p : PlacedProject) (t : TraceConfig) : String := t.locate p.directory

end PlacedProject

/-! ## Databases -/

namespace Database

/-- Reads a database from a source. -/
def read (src : Json.Source) : Except Json.Unreadable Database := Json.decodeSource decode src

/-- Reads the database at a path.  A directory can be opened, but nothing can be read from it. -/
def load (files : Files) (path : String) : Except DatabaseError Database :=
  match files.read path with
  | .ok source => (read source).mapError .unreadable
  | .error .notFound => .ok empty
  | .error .isADirectory => .error (.unreadable .mismatch)
  | .error fault => .error (.file fault)

/-- The contents that the database at a path describes. -/
def loadContents (files : Files) (path : String) : Except DatabaseError Contents :=
  (load files path).bind fun db => db.toContents.mapError .fault

end Database

/-- Saves a trace to a path. -/
def Trace.save (t : Trace) (files : Files) (path : String) : Except DatabaseError Files :=
  (files.write path t.savedText).mapError .file

end RegionAtlas
