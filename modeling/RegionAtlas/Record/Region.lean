/-
  Regions — named, permission-flagged address ranges that exist over a lifespan.

  Two regions may share addresses, and two may share snaps; what may not happen is both at once.

  The written form of permissions has three places, `rwx`, with a dash where a permission is
  missing.  Reading is laxer: the three letters in any order, any case and any number, dashes
  anywhere, nothing else.
-/
import RegionAtlas.Extent.Lifespan
import RegionAtlas.Extent.Range
import RegionAtlas.Record.Id

namespace RegionAtlas

/-! ## Permissions -/

/-- A set of the three permissions. -/
structure Permissions where
  read : Bool
  write : Bool
  execute : Bool
  deriving DecidableEq

namespace Permissions

/-- No permission. -/
def empty : Permissions := ⟨false, false, false⟩

/-- Reading alone, what a region gets when nothing is said. -/
def readOnly : Permissions := ⟨true, false, false⟩

/-- One bit each, reading lowest. -/
def bits (p : Permissions) : Nat := p.read.toNat + 2 * p.write.toNat + 4 * p.execute.toNat

/-- The three places. -/
def letters (p : Permissions) : List Char :=
  [if p.read then 'r' else '-', if p.write then 'w' else '-', if p.execute then 'x' else '-']

/-- The three places as a string. -/
def text (p : Permissions) : String := String.ofList p.letters

/-- What one character adds; none where it is no letter of a permission and no dash. -/
def add? (p : Permissions) (c : Char) : Option Permissions :=
  match c.toLower with
  | 'r' => some { p with read := true }
  | 'w' => some { p with write := true }
  | 'x' => some { p with execute := true }
  | '-' => some p
  | _ => none

/-- Reads letters on top of the permissions already found. -/
def ofLetters? (p : Permissions) : List Char → Option Permissions
  | [] => some p
  | c :: cs => (p.add? c).bind fun q => ofLetters? q cs

/-- The permissions in a string; the empty string has none. -/
def ofText? (s : String) : Option Permissions := ofLetters? empty s.toList

/-- The written form reads back. -/
theorem ofLetters?_letters (p : Permissions) : ofLetters? empty p.letters = some p := by
  rcases p with ⟨_ | _, _ | _, _ | _⟩ <;> decide

end Permissions

/-! ## Regions -/

/-- A region of a trace. -/
structure Region where
  id : RegionId
  owner : TraceId
  name : String
  range : AddressRange
  permissions : Permissions
  lifespan : Lifespan
  deriving DecidableEq

namespace Region

/-- Whether it exists at a snap, its stop excluded. -/
def isAliveAt (r : Region) (s : Snap) : Bool := r.lifespan.contains s

/-- Whether something with this range and lifespan would share an address with the region while
both exist. -/
def conflictsWith (r : Region) (range : AddressRange) (lifespan : Lifespan) : Bool :=
  r.range.intersects range && r.lifespan.intersects lifespan

/-- The same region with another lifespan. -/
def withLifespan (r : Region) (l : Lifespan) : Region := { r with lifespan := l }

/-- The same region in another trace. -/
def ownedBy (r : Region) (t : TraceId) : Region := { r with owner := t }

/-- Where a region stands among those alive at one snap: by lowest address, then by number. -/
def address_le (r s : Region) : Bool :=
  r.range.min < s.range.min || (r.range.min == s.range.min && r.id.raw ≤ s.id.raw)

@[simp] theorem id_withLifespan (r : Region) (l : Lifespan) : (r.withLifespan l).id = r.id := rfl

@[simp] theorem id_ownedBy (r : Region) (t : TraceId) : (r.ownedBy t).id = r.id := rfl

end Region

end RegionAtlas
