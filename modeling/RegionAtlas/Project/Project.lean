/-
  Projects — the traces of a project with the places of their databases, the programs they ran, and
  the settings of a session.

  Traces and programs are kept by name, in order of the names.  The path of a database is relative
  to the directory that the project file is in, whatever it looks like: it is cut at the slashes,
  empty parts are dropped, and the parts are put behind the directory.  Nothing in a project file
  has to be said: what is missing is as in `standard`.
-/
import RegionAtlas.Ledger.Trace
import RegionAtlas.Project.Program

namespace RegionAtlas

open Json

/-! ## Settings of a session -/

/-- What can be tuned. -/
structure Settings where
  /-- In milliseconds. -/
  debounce : UInt64
  undoLimit : UInt64
  deriving DecidableEq

namespace Settings

/-- Settings of which nothing is said. -/
def standard : Settings := ⟨100, UInt64.ofNat Trace.defaultUndoLimit⟩

/-- Both are written also where they are as in `standard`. -/
def toJson (s : Settings) : Json :=
  .object [("debounce_ms", .word s.debounce), ("undo_limit", .word s.undoLimit)]

structure Found where
  debounce : Option UInt64
  undoLimit : Option UInt64

def fields : List (RecordField Found) :=
  [.of "debounce_ms" Found.debounce (fun r a => { r with debounce := a }) decodeWord,
   .of "undo_limit" Found.undoLimit (fun r a => { r with undoLimit := a }) decodeWord]

/-- Each that is missing is as in `standard`, whatever the other one is. -/
def Found.make (r : Found) : Option Settings :=
  some ⟨r.debounce.getD standard.debounce, r.undoLimit.getD standard.undoLimit⟩

/-- Both are words, so neither can be negative. -/
def decode : Decoder Settings := decodeRecord ⟨none, none⟩ fields Found.make

end Settings

/-! ## Traces of a project -/

/-- Where the database of a trace is, and the snap that is shown when none is asked for. -/
structure TraceConfig where
  databasePath : String
  snap : Snap
  deriving DecidableEq

namespace TraceConfig

/-- The database of a trace for which none is named. -/
def defaultPath : String := "tracemap.db"

/-- A trace of which nothing is said. -/
def standard : TraceConfig := ⟨defaultPath, 0⟩

/-- The path is written as it was given, not as it is located. -/
def toJson (t : TraceConfig) : Json :=
  .object [("database_path", .string t.databasePath), ("snap", .integer t.snap.toInt)]

structure Found where
  databasePath : Option String
  snap : Option Snap

def fields : List (RecordField Found) :=
  [.of "database_path" Found.databasePath (fun r a => { r with databasePath := a }) decodeString,
   .of "snap" Found.snap (fun r a => { r with snap := a }) decodeSigned]

/-- What is missing is as in `standard`. -/
def Found.make (r : Found) : Option TraceConfig :=
  some ⟨r.databasePath.getD defaultPath, r.snap.getD 0⟩

/-- Any string is a path, and any snap may be shown. -/
def decode : Decoder TraceConfig := decodeRecord ⟨none, none⟩ fields Found.make

/-- The parts of the path between its slashes that are not empty. -/
def pathParts (t : TraceConfig) : List (List Char) :=
  (t.databasePath.toList.splitOn '/').filter (!·.isEmpty)

/-- A path with a part put behind it. -/
def join (path part : List Char) : List Char :=
  if path.isEmpty then part else path ++ '/' :: part

/-- The path of the database, seen from where a directory is seen. -/
def locate (t : TraceConfig) (directory : String) : String :=
  String.ofList (t.pathParts.foldl join directory.toList)

end TraceConfig

/-! ## Projects -/

/-- A project, without the place it is at. -/
structure Project where
  traces : Table String TraceConfig
  programs : Table String ProgramConfig
  settings : Settings
  deriving DecidableEq

namespace Project

/-- A project that lists nothing. -/
def empty : Project := ⟨.empty, .empty, .standard⟩

/-- The first trace by name. -/
def defaultTrace? (p : Project) : Option (String × TraceConfig) := p.traces.rows.head?

/-- Lists a trace, in place of one that has the name already. -/
def addTrace (p : Project) (name : String) (t : TraceConfig) : Project :=
  { p with traces := p.traces.insert name t }

/-- Lists a program, in place of one that has the name already. -/
def addProgram (p : Project) (name : String) (program : ProgramConfig) : Project :=
  { p with programs := p.programs.insert name program }

/-- Sets the snap that is shown for a trace, if there is one of that name. -/
def setSnap (p : Project) (name : String) (s : Snap) : Project :=
  { p with traces := p.traces.adjust name fun t => { t with snap := s } }

/-- The image of the program of that name. -/
def image? (p : Project) (name : String) : Option Image :=
  (p.programs.find? name).map (·.toImage name)

/-- The image of every program, in order of their names. -/
def images (p : Project) : List Image :=
  p.programs.rows.map fun (name, program) => program.toImage name

/-! ## Written form -/

/-- A map by name. -/
def tableJson {α : Type} (toJson : α → Json) (t : Table String α) : Json :=
  .object (t.rows.map fun (name, a) => (name, toJson a))

/-- The three parts, of which each is written also where it is empty. -/
def toJson (p : Project) : Json :=
  .object
    [("traces", tableJson TraceConfig.toJson p.traces),
     ("programs", tableJson ProgramConfig.toJson p.programs),
     ("settings", p.settings.toJson)]

structure Found where
  traces : Option (Table String TraceConfig)
  programs : Option (Table String ProgramConfig)
  settings : Option Settings

def fields : List (RecordField Found) :=
  [.of "traces" Found.traces (fun r a => { r with traces := a }) (decodeMap TraceConfig.decode),
   .of "programs" Found.programs (fun r a => { r with programs := a })
     (decodeMap ProgramConfig.decode),
   .of "settings" Found.settings (fun r a => { r with settings := a }) Settings.decode]

/-- What is missing is empty, and the settings `standard`. -/
def Found.make (r : Found) : Option Project :=
  some ⟨r.traces.getD .empty, r.programs.getD .empty, r.settings.getD .standard⟩

/-- Names may repeat in a map; the last of them counts. -/
def decode : Decoder Project := decodeRecord ⟨none, none, none⟩ fields Found.make

end Project

end RegionAtlas
