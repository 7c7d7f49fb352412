/-
  Windows — the regions of one trace at one snap, refreshed when changes have settled.

  A window never polls.  A change of the trace it shows only marks it pending; its rows are
  computed again when nothing has changed for the length of its delay, or at once when asked.  So a
  burst of changes costs one refresh, and the last refresh reads the latest committed state.  A row
  is one region as a table shows it.

  Rules:
    * showing another trace or another snap refreshes at once;
    * showing nothing empties the rows at once;
    * only a change that touches regions marks a window;
    * a refresh begins and ends.  One that began before something else was shown throws its rows
      away, and one that a change came in between leaves another refresh owed.
-/
import RegionAtlas.Ledger.Trace

namespace RegionAtlas

/-! ## Rows -/

/-- A region in the fields that a table of regions shows. -/
structure Row where
  region : RegionId
  name : String
  range : AddressRange
  permissions : Permissions
  lifespan : Lifespan
  deriving DecidableEq

namespace Row

def ofRegion (r : Region) : Row := ⟨r.id, r.name, r.range, r.permissions, r.lifespan⟩

/-- The snap it was created at. -/
def created (r : Row) : Snap := r.lifespan.start

/-- The snap it was destroyed at, blank while it is still alive. -/
def destroyedText (r : Row) : String :=
  match r.lifespan.stop with
  | none => ""
  | some e => Text.signedDecimal e.toInt

/-- By lowest address, then by highest. -/
def range_le (r s : AddressRange) : Bool := r.min < s.min || (r.min == s.min && r.max ≤ s.max)

/-- Drops what repeats the item before it. -/
def dropRepeats : List AddressRange → List AddressRange
  | [] => []
  | [r] => [r]
  | r :: s :: rest => if r = s then dropRepeats (s :: rest) else r :: dropRepeats (s :: rest)

/-- The ranges of a selection of rows, lowest first, each once. -/
def selectedRanges (rows : List Row) : List AddressRange :=
  dropRepeats ((rows.map (·.range)).mergeSort range_le)

end Row

/-! ## Windows -/

/-- Where a window is in its refresh cycle. -/
inductive Freshness where
  /-- The rows are those of the latest committed state. -/
  | clean
  /-- A refresh is owed, and the last change was at that time. -/
  | pending (since : Nat)
  /-- The rows are being computed. -/
  | refreshing
  deriving DecidableEq

/-- After a refresh nothing is owed, unless something changed while it went on. -/
def Freshness.settle : Freshness → Freshness
  | refreshing => clean
  | f => f

/-- What a window shows, and by which subscription it hears of changes. -/
structure Shown where
  trace : TraceId
  snap : Snap
  subscription : SubscriptionId
  deriving DecidableEq

/-- A table of regions. -/
structure Window where
  /-- How long changes must have settled, in milliseconds. -/
  delay : Nat
  shown : Option Shown
  freshness : Freshness
  rows : List Row
  refreshes : Nat
  /-- How often another trace or snap, or nothing, has come to be shown. -/
  generation : Nat
  deriving DecidableEq

namespace Window

/-- A window that shows nothing. -/
def blank (delay : Nat) : Window := ⟨delay, none, .clean, [], 0, 0⟩

def isPending (w : Window) : Bool :=
  match w.freshness with
  | .pending _ => true
  | _ => false

def shows (w : Window) (t : TraceId) : Bool :=
  match w.shown with
  | some s => s.trace == t
  | none => false

/-- The row of a region. -/
def rowFor? (w : Window) (id : RegionId) : Option Row := w.rows.find? (·.region == id)

/-- The rows that share an address with one of the ranges. -/
def rowsIntersecting (w : Window) (ranges : List AddressRange) : List Row :=
  w.rows.filter (·.range.intersectsAny ranges)

/-- Takes note of changes of a trace at a time. -/
def hear (w : Window) (t : TraceId) (changes : List Change) (now : Nat) : Window :=
  if changes.any (·.touchesRegion) && w.shows t then { w with freshness := .pending now } else w

/-- Comes to show something else. -/
def turnTo (w : Window) (shown : Option Shown) : Window :=
  { w with shown := shown, generation := w.generation + 1 }

/-- Begins to compute the rows again. -/
def beginRefresh (w : Window) : Window := { w with freshness := .refreshing }

/-- Takes over rows whose computation began in some generation, and tells whether it did: where
something else is shown by now they are thrown away. -/
def endRefresh (w : Window) (began : Nat) (rows : List Row) : Window × Bool :=
  if w.generation = began then
    ({ w with rows := rows, freshness := w.freshness.settle, refreshes := w.refreshes + 1 }, true)
  else (w, false)

/-- Computes the rows again from contents. -/
def refresh (w : Window) (c : Contents) (s : Snap) : Window × Bool :=
  w.beginRefresh.endRefresh w.generation ((c.regionsAt s).map Row.ofRegion)

/-- Whether a refresh is owed and nothing has changed for the length of the delay. -/
def hasSettled (w : Window) (now : Nat) : Bool :=
  match w.freshness with
  | .pending since => w.delay ≤ now - since
  | _ => false

/-- Shows nothing. -/
def clear (w : Window) : Window := { w.turnTo none with freshness := .clean, rows := [] }

/-- Shows what it is given, from the contents it has. -/
def display (w : Window) (what : Shown) (c : Contents) : Window :=
  ((w.turnTo (some what)).refresh c what.snap).1

end Window

end RegionAtlas
