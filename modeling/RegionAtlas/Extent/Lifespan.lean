/-
  Lifespans — intervals on the execution-time axis, whose points are snaps.

  A lifespan starts at a snap and is either open, holding every snap from there on, or closed at
  a stop that is itself outside.  What stops at snap 5 is alive at snap 4 and gone at snap 5; a
  lifespan that stops where it starts holds no snap at all, and so meets no other.
-/
import RegionAtlas.Text.Radix

namespace RegionAtlas

/-- A point on the execution-time axis. -/
abbrev Snap := Int64

/-- The snaps during which something exists. -/
structure Lifespan where
  start : Snap
  stop : Option Snap
  start_le_stop : ∀ e, stop = some e → start ≤ e
  deriving DecidableEq

namespace Lifespan

/-- From `start` on, without end. -/
def since (start : Snap) : Lifespan := ⟨start, none, fun _ h => nomatch h⟩

/-- From `start` up to but not including `stop`, if they are in order. -/
def between? (start stop : Snap) : Option Lifespan :=
  if h : start ≤ stop then
    some ⟨start, some stop, fun _ he => Option.some.inj he ▸ h⟩
  else none

/-- A lifespan from its parts. -/
def of? (start : Snap) : Option Snap → Option Lifespan
  | none => some (since start)
  | some stop => between? start stop

def isOpen (l : Lifespan) : Bool := l.stop.isNone

/-- Whether it stops where it starts. -/
def isEmpty (l : Lifespan) : Bool := l.stop == some l.start

/-- Whether a snap comes before the stop. -/
def startsBefore (s : Snap) (stop : Option Snap) : Bool :=
  match stop with
  | none => true
  | some e => decide (s < e)

def contains (l : Lifespan) (s : Snap) : Bool := decide (l.start ≤ s) && startsBefore s l.stop

/-- Whether some snap lies in both. -/
def intersects (l m : Lifespan) : Bool :=
  !l.isEmpty && !m.isEmpty && startsBefore l.start m.stop && startsBefore m.start l.stop

/-- The same lifespan stopped at a snap that does not precede its start. -/
def closedAt? (l : Lifespan) (stop : Snap) : Option Lifespan := between? l.start stop

/-- Stops in order: no stop at all comes before every stop. -/
def compareStops : Option Snap → Option Snap → Ordering
  | none, none => .eq
  | none, some _ => .lt
  | some _, none => .gt
  | some a, some b => compare a b

/-- By start; on equal starts, open before closed, and closed by stop. -/
def order (l m : Lifespan) : Ordering :=
  (compare l.start m.start).then (compareStops l.stop m.stop)

/-- A half-open interval, with `+inf` for a stop that is not there. -/
def text (l : Lifespan) : String :=
  let start := Text.signedDecimal l.start.toInt
  match l.stop with
  | none => "[" ++ start ++ ", +inf)"
  | some e => "[" ++ start ++ ", " ++ Text.signedDecimal e.toInt ++ ")"

@[ext] theorem ext {l m : Lifespan} (hstart : l.start = m.start) (hstop : l.stop = m.stop) :
    l = m := by
  cases l; cases m; cases hstart; cases hstop; rfl

end Lifespan

end RegionAtlas
