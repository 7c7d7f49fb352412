/-
  Invoking the program — from a command line and the files there are to what is printed and the
  files there are afterwards.

  The project is loaded first, then the trace is chosen, the snap read, and the trace loaded from
  its database.  Only a command that succeeds in changing the trace writes a file, and only the
  database of that trace.
-/
import RegionAtlas.Command.Perform

namespace RegionAtlas

/-- What is read when no project is named. -/
def defaultProjectPath : String := "tracemap.json"

def programName : String := "tracemap"

def programVersion : String := "0.1.0"

/-! ## Opening -/

/-- Everything that a command needs, loaded. -/
structure Loaded where
  place : PlacedProject
  name : String
  setting : Setting
  trace : Trace

/-- The name of the trace that is asked for, or of the first one. -/
def chooseTrace (p : Project) : Option String → Except CommandError String
  | some name => .ok name
  | none =>
    match p.defaultTrace? with
    | some (name, _) => .ok name
    | none => .error .noTraces

/-- The snap that is asked for, or the one that the project says. -/
def chooseSnap (p : Project) (name : String) : Option String → Except CommandError Snap
  | some s =>
    match Text.snap? s.toList with
    | some snap => .ok snap
    | none => .error (.badSnap s)
  | none => .ok ((p.traces.find? name).elim 0 (·.snap))

/-- The path of the project that a request is for. -/
def Request.projectPath (r : Request) : String := r.project.getD defaultProjectPath

/-- Loads what a request is for. -/
def Request.open (r : Request) (files : Files) : Except CommandError Loaded := do
  let place ← (PlacedProject.load files r.projectPath).mapError .project
  let name ← chooseTrace place.project r.trace
  let snap ← chooseSnap place.project name r.snap
  let (desk, session) := Session.start .empty place.project.settings
  let opened ← (session.openListed desk files place name).mapError .session
  match opened.desk.trace? opened.trace with
  | some t => pure ⟨place, name, ⟨place.project, snap⟩, t⟩
  | none => .error (.session (.notOpen name))

/-- Saves a trace to the database that the project lists for it. -/
def Loaded.save (l : Loaded) (t : Trace) (files : Files) : Except CommandError Files :=
  match l.place.project.traces.find? l.name with
  | none => .error (.session (.notListed l.name))
  | some config =>
    (t.save files (l.place.databasePath config)).mapError fun why => .session (.database why)

/-! ## Running -/

/-- What a run of the program leaves: the files, the lines of both outputs, and the error it ended
with, if any. -/
structure Run where
  files : Files
  printed : List String
  noted : List String
  error : Option CommandError

namespace Run

/-- A run that does nothing but fail. -/
def fail (files : Files) (why : CommandError) : Run := ⟨files, [], [], some why⟩

/-- A run that only prints. -/
def display (files : Files) (lines : List String) : Run := ⟨files, lines, [], none⟩

end Run

/-- Performs a request on the files there are. -/
def Request.run (r : Request) (files : Files) : Run :=
  match r.open files with
  | .error why => .fail files why
  | .ok loaded =>
    let done := r.action.perform loaded.setting loaded.trace
    match done.ending with
    | .error why => ⟨files, done.printed, done.noted, some why⟩
    | .ok .shown => ⟨files, done.printed, done.noted, none⟩
    | .ok (.changed confirmation) =>
      match loaded.save done.trace files with
      | .error why => ⟨files, done.printed, done.noted, some why⟩
      | .ok saved => ⟨saved, done.printed ++ [confirmation], done.noted, none⟩

/-- The version of the program, or of a command, which has none of its own. -/
def versionLine : Option CommandName → String
  | none => programName ++ " " ++ programVersion
  | some name => programName ++ "-" ++ name.text ++ " "

/-- What the program can do. -/
def helpLines : List String :=
  ["usage: " ++ programName ++
      " [--project FILE] [--trace NAME] [--snap SNAP] [-v] COMMAND [ARGUMENTS]",
   ""] ++
    CommandName.all.map fun c => "  " ++ Text.padRight 16 c.text ++ c.about

/-- The path of the database that a request is for, as far as its project can be read. -/
def Request.databasePath? (r : Request) (files : Files) : Option String := do
  let place ← (PlacedProject.load files r.projectPath).toOption
  let name ← (chooseTrace place.project r.trace).toOption
  let config ← place.project.traces.find? name
  pure (place.databasePath config)

/-- Runs the program. -/
def invoke (files : Files) (words : List String) : Run :=
  match Asked.ofWords? words with
  | none => .fail files .usage
  | some .nothing => .fail files .noCommand
  | some (.version place) => .display files [versionLine place]
  | some .help => .display files helpLines
  | some (.command request) => request.run files

end RegionAtlas
