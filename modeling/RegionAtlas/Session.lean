/-
  Sessions — the open traces of a desk, which of them is the current one, and the window that
  follows it.

  Open traces are kept by name, and a name stays with its trace until that is closed.  At most one
  trace is current; the session's window shows exactly that trace, or nothing.
-/
import RegionAtlas.Archive.Load
import RegionAtlas.Desk

namespace RegionAtlas

/-- The open traces of a desk. -/
structure Session where
  opened : Table String TraceId
  current : Option String
  window : WindowId
  undoLimit : Nat
  deriving DecidableEq

/-- Why a session does not open or save a trace. -/
inductive SessionError where
  /-- The project lists no trace of that name. -/
  | notListed (name : String)
  | notOpen (name : String)
  | database (why : DatabaseError)
  deriving DecidableEq

namespace SessionError

def kind : SessionError → ErrorKind
  | notListed _ | notOpen _ => .notFound
  | database why => why.kind

def message? : SessionError → Option String
  | notListed name => some ("Trace " ++ name ++ " does not exist")
  | notOpen name => some ("Trace " ++ name ++ " is not open")
  | database why => why.message?

end SessionError

namespace Session

/-- A session with a window of its own and nothing open. -/
def start (d : Desk) (settings : Settings) : Desk × Session :=
  let (d, window) := d.addWindow settings.debounce.toNat
  (d, ⟨.empty, none, window, settings.undoLimit.toNat⟩)

/-- Ends a session: its window goes away. -/
def finish (d : Desk) (s : Session) : Desk := d.dropWindow s.window

/-- The open trace of that name. -/
def trace? (s : Session) (name : String) : Option TraceId := s.opened.find? name

/-! ## Opening and closing -/

/-- Opens a trace, unless one of its name is open; that one is kept then. -/
def openTrace (s : Session) (name : String) (id : TraceId) : Session × TraceId :=
  match s.trace? name with
  | some existing => (s, existing)
  | none => ({ s with opened := s.opened.insert name id }, id)

/-- A desk and a session with a trace opened on them. -/
structure Opened where
  desk : Desk
  session : Session
  trace : TraceId

/-- Opens a trace that the project lists from its database, unless one of its name is open. -/
def openListed (d : Desk) (s : Session) (files : Files) (p : PlacedProject) (name : String) :
    Except SessionError Opened :=
  match s.trace? name with
  | some existing => .ok ⟨d, s, existing⟩
  | none =>
    match p.project.traces.find? name with
    | none => .error (.notListed name)
    | some config =>
      match Database.loadContents files (p.databasePath config) with
      | .error why => .error (.database why)
      | .ok contents =>
        let (d, id) := d.addTrace name contents s.undoLimit
        let (s, id) := s.openTrace name id
        .ok ⟨d, s, id⟩

/-- Saves an open trace to the database that the project lists for it. -/
def save (d : Desk) (s : Session) (files : Files) (p : PlacedProject) (name : String) :
    Except SessionError Files :=
  match (s.trace? name).bind d.trace? with
  | none => .error (.notOpen name)
  | some t =>
    match p.project.traces.find? name with
    | none => .error (.notListed name)
    | some config => (t.save files (p.databasePath config)).mapError .database

/-- Closes the open trace of that name. -/
def closeTrace (d : Desk) (s : Session) (name : String) : Desk × Session × Option TraceId :=
  match s.trace? name with
  | none => (d, s, none)
  | some id =>
    (d.traceClosed s.window id,
      { s with
        opened := s.opened.erase name
        current := if s.current = some name then none else s.current },
      some id)

/-! ## The current trace -/

/-- Makes an open trace the current one, at a snap.  False where none of that name is open. -/
def activate (d : Desk) (s : Session) (name : String) (snap : Snap) : Desk × Session × Bool :=
  match s.trace? name with
  | none => (d, s, false)
  | some id => (d.activate s.window id snap, { s with current := some name }, true)

/-- Moves the current trace to another snap. -/
def activateSnap (d : Desk) (s : Session) (snap : Snap) : Desk :=
  if s.current.isSome then d.setSnap s.window snap else d

/-- Makes no trace the current one. -/
def deactivate (d : Desk) (s : Session) : Desk × Session :=
  (d.deactivate s.window, { s with current := none })

/-- The current trace. -/
def currentTrace? (s : Session) : Option TraceId := s.current.bind s.trace?

/-- The snap that the current trace is shown at. -/
def currentSnap? (d : Desk) (s : Session) : Option Snap :=
  ((d.window? s.window).bind (·.shown)).map (·.snap)

end Session

end RegionAtlas
