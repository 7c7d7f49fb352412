/-
  Desks — all the traces of a session, the windows that show them, and the recorders that listen.

  A desk is where notification happens: when a step of a trace tells its listeners of changes, each
  of them, in order of subscription, has heard of them before the step is over, and can already see
  the contents after it.

  Rules:
    * a window is subscribed to the trace it shows and to no other;
    * a recorder keeps each batch it is told, with what its trace shows at the recorder's snap;
    * a subscription is known by a number that its trace gave it, and every trace counts for
      itself.  A recorder that is silenced on another trace than its own silences whoever has its
      number there, which can be another recorder or a window.
-/
import RegionAtlas.Window.Window

namespace RegionAtlas

/-! ## Recorders -/

/-- What a recorder is told at once. -/
structure Batch where
  trace : String
  changes : List Change
  /-- The regions alive at the recorder's snap when it was told. -/
  alive : List RegionId
  deriving DecidableEq

/-- Keeps what it is told, oldest first. -/
structure Recorder where
  snap : Snap
  /-- Its number with the trace that it was added to. -/
  subscription : SubscriptionId
  batches : List Batch
  deriving DecidableEq

/-- Takes note of changes of a trace. -/
def Recorder.hear (r : Recorder) (t : Trace) (changes : List Change) : Recorder :=
  { r with batches := r.batches ++ [⟨t.name, changes, t.contents.query r.snap⟩] }

/-! ## The desk -/

/-- The traces, windows and recorders of a session. -/
structure Desk where
  traces : Table TraceId Trace
  windows : Table WindowId Window
  recorders : Table RecorderId Recorder
  /-- How many of each there have ever been. -/
  traceCount : Nat
  windowCount : Nat
  recorderCount : Nat
  /-- The time, in milliseconds. -/
  clock : Nat
  deriving DecidableEq

namespace Desk

def empty : Desk := ⟨.empty, .empty, .empty, 0, 0, 0, 0⟩

def trace? (d : Desk) (id : TraceId) : Option Trace := d.traces.find? id

def window? (d : Desk) (id : WindowId) : Option Window := d.windows.find? id

def setTrace (d : Desk) (t : Trace) : Desk := { d with traces := d.traces.insert t.id t }

def setWindow (d : Desk) (id : WindowId) (w : Window) : Desk :=
  { d with windows := d.windows.insert id w }

/-! ## Traces -/

/-- Adds a trace that starts from given contents. -/
def addTrace (d : Desk) (name : String) (c : Contents) (undoLimit : Nat) : Desk × TraceId :=
  let id : TraceId := ⟨d.traceCount + 1⟩
  ({ d with
      traces := d.traces.insert id (.ofContents id name c undoLimit)
      traceCount := d.traceCount + 1 },
    id)

/-- Tells one listener of changes of a trace. -/
def tell (d : Desk) (t : Trace) (changes : List Change) : Listener → Desk
  | .recorder id => { d with recorders := d.recorders.adjust id (·.hear t changes) }
  | .window id => { d with windows := d.windows.adjust id (·.hear t.id changes d.clock) }

/-- Tells every listener of a trace, unless there is nothing to tell. -/
def tellAll (d : Desk) (t : Trace) (changes : List Change) : Desk :=
  if changes.isEmpty then d
  else t.listeners.foldl (fun d l => d.tell t changes l.2) d

/-- Lets something happen to a trace and tells its listeners what it says they are told. -/
def onTrace {α : Type} (d : Desk) (id : TraceId) (act : Trace → Trace × α)
    (told : α → List Change) : Desk × Option α :=
  match d.trace? id with
  | none => (d, none)
  | some t =>
    let (t, a) := act t
    ((d.setTrace t).tellAll t (told a), some a)

/-- One step of a trace. -/
def stepTrace (d : Desk) (id : TraceId) (s : Trace.Step) : Desk × Option Trace.Reply :=
  d.onTrace id (·.step s) (·.told)

/-! ## Recorders -/

/-- Adds a recorder that listens to a trace. -/
def addRecorder (d : Desk) (id : TraceId) (snap : Snap) : Desk × Option RecorderId :=
  let recorder : RecorderId := ⟨d.recorderCount⟩
  match d.onTrace id (·.subscribe (.recorder recorder)) fun _ => [] with
  | (d, none) => (d, none)
  | (d, some subscription) =>
    ({ d with
        recorders := d.recorders.insert recorder ⟨snap, subscription, []⟩
        recorderCount := d.recorderCount + 1 },
      some recorder)

/-- Ends the subscription of a trace that has a recorder's number. -/
def silence (d : Desk) (id : TraceId) (recorder : RecorderId) : Desk :=
  match d.recorders.find? recorder with
  | none => d
  | some r => (d.stepTrace id (.unsubscribe r.subscription)).1

/-- Takes the batches that a recorder has kept. -/
def takeBatches (d : Desk) (recorder : RecorderId) : Desk × List Batch :=
  match d.recorders.find? recorder with
  | none => (d, [])
  | some r =>
    ({ d with recorders := d.recorders.adjust recorder ({ · with batches := [] }) }, r.batches)

/-! ## Windows -/

/-- Adds a window that shows nothing. -/
def addWindow (d : Desk) (delay : Nat) : Desk × WindowId :=
  let id : WindowId := ⟨d.windowCount⟩
  ({ d with
      windows := d.windows.insert id (.blank delay)
      windowCount := d.windowCount + 1 },
    id)

/-- Lets a window show nothing. -/
def deactivate (d : Desk) (id : WindowId) : Desk :=
  match d.window? id with
  | none => d
  | some w =>
    let d := d.setWindow id w.clear
    match w.shown with
    | none => d
    | some s => (d.stepTrace s.trace (.unsubscribe s.subscription)).1

/-- Lets a window show a trace at a snap, instead of what it showed. -/
def activate (d : Desk) (id : WindowId) (trace : TraceId) (snap : Snap) : Desk :=
  let d := d.deactivate id
  match d.window? id with
  | none => d
  | some w =>
    match d.onTrace trace (fun t => let (t, s) := t.subscribe (.window id); (t, t.contents, s))
        fun _ => [] with
    | (d, none) => d
    | (d, some (contents, subscription)) =>
      d.setWindow id (w.display ⟨trace, snap, subscription⟩ contents)

/-- Computes the rows of a window again, if it shows anything, and tells whether it did. -/
def refresh (d : Desk) (id : WindowId) : Desk × Bool :=
  match d.window? id with
  | none => (d, false)
  | some w =>
    match w.shown with
    | none => (d.setWindow id { w with freshness := .clean }, false)
    | some s =>
      match d.trace? s.trace with
      | none => (d, false)
      | some t =>
        let (w, refreshed) := w.refresh t.contents s.snap
        (d.setWindow id w, refreshed)

/-- Moves a window to another snap of the trace it shows. -/
def setSnap (d : Desk) (id : WindowId) (snap : Snap) : Desk :=
  match d.window? id with
  | none => d
  | some w =>
    match w.shown with
    | none => d
    | some s =>
      if s.snap = snap then d
      else ((d.setWindow id (w.turnTo (some { s with snap := snap }))).refresh id).1

/-- Lets a window show nothing if it shows that trace. -/
def traceClosed (d : Desk) (id : WindowId) (trace : TraceId) : Desk :=
  match d.window? id with
  | none => d
  | some w => if w.shows trace then d.deactivate id else d

/-- Refreshes a window if that is owed, and tells whether it was. -/
def flush (d : Desk) (id : WindowId) : Desk × Bool :=
  match d.window? id with
  | none => (d, false)
  | some w => if w.isPending then d.refresh id else (d, false)

/-- Refreshes a window if that is owed and its changes have settled at a time. -/
def tick (d : Desk) (id : WindowId) (now : Nat) : Desk × Bool :=
  match d.window? id with
  | none => (d, false)
  | some w => if w.hasSettled now then d.refresh id else (d, false)

/-- Removes a window. -/
def dropWindow (d : Desk) (id : WindowId) : Desk :=
  let d := d.deactivate id
  { d with windows := d.windows.erase id }

/-- Lets time pass. -/
def wait (d : Desk) (milliseconds : Nat) : Desk := { d with clock := d.clock + milliseconds }

/-! ## Steps and runs -/

/-- One step in the life of a desk. -/
inductive Step where
  | addTrace (name : String) (contents : Contents) (undoLimit : Nat)
  | trace (id : TraceId) (s : Trace.Step)
  | addWindow (delay : Nat)
  | activate (id : WindowId) (trace : TraceId) (snap : Snap)
  | setSnap (id : WindowId) (snap : Snap)
  | deactivate (id : WindowId)
  | traceClosed (id : WindowId) (trace : TraceId)
  | flush (id : WindowId)
  | tick (id : WindowId) (now : Nat)
  | dropWindow (id : WindowId)
  | addRecorder (trace : TraceId) (snap : Snap)
  | silence (trace : TraceId) (id : RecorderId)
  | takeBatches (id : RecorderId)
  | wait (milliseconds : Nat)
  deriving DecidableEq

def step (d : Desk) : Step → Desk
  | .addTrace name contents undoLimit => (d.addTrace name contents undoLimit).1
  | .trace id s => (d.stepTrace id s).1
  | .addWindow delay => (d.addWindow delay).1
  | .activate id trace snap => d.activate id trace snap
  | .setSnap id snap => d.setSnap id snap
  | .deactivate id => d.deactivate id
  | .traceClosed id trace => d.traceClosed id trace
  | .flush id => (d.flush id).1
  | .tick id now => (d.tick id now).1
  | .dropWindow id => d.dropWindow id
  | .addRecorder trace snap => (d.addRecorder trace snap).1
  | .silence trace id => d.silence trace id
  | .takeBatches id => (d.takeBatches id).1
  | .wait milliseconds => d.wait milliseconds

/-- The desk after a run of steps. -/
def run (d : Desk) (steps : List Step) : Desk := steps.foldl step d

end Desk

end RegionAtlas
