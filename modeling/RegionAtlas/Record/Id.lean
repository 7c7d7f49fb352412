/-
  Identifiers — numbers that name regions and mappings within a trace, and the traces, windows and
  so on of a session.

  Each kind is a type of its own, ordered by its number, so that a mapping can never be looked up
  among regions.  Region and mapping numbers are 64-bit words, written with a `#` in front; the
  highest is never handed out.  The serial numbers of a session are unbounded and start at one for
  traces: zero is what a record refers to before it belongs to any.
-/
import RegionAtlas.Text.Radix

namespace RegionAtlas

/-! ## Regions and mappings -/

/-- Names a region within its trace. -/
structure RegionId where
  raw : UInt64
  deriving DecidableEq

/-- Names a static mapping within its trace. -/
structure MappingId where
  raw : UInt64
  deriving DecidableEq

/-- The number that is never handed out. -/
def reservedId : UInt64 := 0xFFFFFFFFFFFFFFFF

namespace RegionId

/-- By number, which is also the order in which they are handed out. -/
instance : Ord RegionId := ⟨compareOn raw⟩

instance : Std.TransOrd RegionId := inferInstanceAs (Std.TransCmp (compareOn raw))

instance : Std.LawfulEqOrd RegionId where
  eq_of_compare {a b} h := by
    cases a; cases b; exact congrArg mk (Std.LawfulEqOrd.eq_of_compare h)

/-- The number behind a `#`, in decimal. -/
def text (id : RegionId) : String := "#" ++ Text.decimal id.raw.toNat

end RegionId

namespace MappingId

/-- By number, as regions are. -/
instance : Ord MappingId := ⟨compareOn raw⟩

instance : Std.TransOrd MappingId := inferInstanceAs (Std.TransCmp (compareOn raw))

instance : Std.LawfulEqOrd MappingId where
  eq_of_compare {a b} h := by
    cases a; cases b; exact congrArg mk (Std.LawfulEqOrd.eq_of_compare h)

/-- As for regions, so the two are told apart by where they stand. -/
def text (id : MappingId) : String := "#" ++ Text.decimal id.raw.toNat

end MappingId

/-! ## Serial numbers of a session -/

/-- What a session numbers. -/
inductive SerialKind where
  | trace
  /-- An open transaction of a trace. -/
  | draft
  /-- A subscription of a trace. -/
  | subscription
  /-- A listener that keeps every batch of changes it is told. -/
  | recorder
  /-- A listener that shows the regions of a trace. -/
  | window

/-- A number of one kind. -/
structure Serial (kind : SerialKind) where
  raw : Nat
  deriving DecidableEq

namespace Serial

variable {kind : SerialKind}

/-- Two numbers can only be compared where they are of one kind. -/
instance : Ord (Serial kind) := ⟨compareOn raw⟩

instance : Std.TransOrd (Serial kind) := inferInstanceAs (Std.TransCmp (compareOn raw))

instance : Std.LawfulEqOrd (Serial kind) where
  eq_of_compare {a b} h := by
    cases a; cases b; exact congrArg mk (Std.LawfulEqOrd.eq_of_compare h)

end Serial

/-- Names a trace on a desk. -/
abbrev TraceId := Serial .trace

/-- Names an open transaction within its trace. -/
abbrev DraftId := Serial .draft

/-- Names a subscription within its trace; two traces may use the same number. -/
abbrev SubscriptionId := Serial .subscription

/-- Names a recorder on a desk. -/
abbrev RecorderId := Serial .recorder

/-- Names a window on a desk. -/
abbrev WindowId := Serial .window

/-- What a record refers to before it belongs to a trace. -/
def unownedId : TraceId := ⟨0⟩

/-- The number behind the word, for what is shown to a user. -/
def traceIdText (id : TraceId) : String := "trace#" ++ Text.decimal id.raw

end RegionAtlas
