/-
  The written form of records — what ranges, lifespans, permissions, addresses, regions and
  mappings look like in a file, and how they are read back.

  A range is an array of its two bounds, permissions are their three letters, everything else is an
  object.  Reading checks that bounds and lifespans are in order.  A region's owner is not written:
  one that is read belongs to no trace yet.

  Each record is read in one way: `Found` collects what has been read of it, `fields` are its fields
  in the order in which they are written, and `Found.make` says what is to be done without the
  fields that were not there.
-/
import RegionAtlas.Json.Decode
import RegionAtlas.Json.Value
import RegionAtlas.Record.Mapping
import RegionAtlas.Record.Region

namespace RegionAtlas

open Json

/-! ## Ranges -/

namespace AddressRange

/-- Both bounds in one array, the lower one first; a range has no field names. -/
def toJson (r : AddressRange) : Json := .array [.word r.min, .word r.max]

/-- What has been found of a range so far. -/
structure Found where
  min : Option UInt64
  max : Option UInt64

/-- The two bounds in order of their places. -/
def fields : List (RecordField Found) :=
  [.of "min" Found.min (fun r a => { r with min := a }) decodeWord,
   .of "max" Found.max (fun r a => { r with max := a }) decodeWord]

/-- Both bounds have to be there. -/
def Found.make (r : Found) : Option (UInt64 × UInt64) := do pure (← r.min, ← r.max)

/-- The bounds are read before they are compared, so a bound that is no word is reported first. -/
def decode : Decoder AddressRange := fun node => do
  let (min, max) ← decodeTuple ⟨none, none⟩ fields Found.make node
  match of? min max with
  | some range => pure range
  | none => .error (.invertedRange min max)

end AddressRange

/-! ## Lifespans -/

namespace Lifespan

/-- A lifespan without a stop has `null` in its place. -/
def stopJson : Option Snap → Json
  | none => .null
  | some e => .integer e.toInt

/-- Both ends by name; the stop is written also where there is none. -/
def toJson (l : Lifespan) : Json :=
  .object [("start", .integer l.start.toInt), ("end", stopJson l.stop)]

/-- What has been found of a lifespan so far; the inner option of the stop is that of `null`. -/
structure Found where
  start : Option Snap
  stop : Option (Option Snap)

def fields : List (RecordField Found) :=
  [.of "start" Found.start (fun r a => { r with start := a }) decodeSigned,
   .of "end" Found.stop (fun r a => { r with stop := a }) (decodeOptional decodeSigned)]

/-- A stop that is not written is not there. -/
def Found.make (r : Found) : Option (Snap × Option Snap) := do
  pure (← r.start, r.stop.getD none)

/-- A lifespan from its parts, or why there is none. -/
def check (start : Snap) : Option Snap → Except Unreadable Lifespan
  | none => .ok (since start)
  | some stop =>
    match between? start stop with
    | some l => .ok l
    | none => .error (.invertedLifespan start stop)

/-- As with ranges, the ends are read before they are compared. -/
def decode : Decoder Lifespan := fun node => do
  let (start, stop) ← decodeRecord ⟨none, none⟩ fields Found.make node
  check start stop

end Lifespan

/-! ## Permissions, static addresses and numbers -/

namespace Permissions

/-- Their three places as one string. -/
def toJson (p : Permissions) : Json := .string p.text

/-- Any string in which permissions can be read, so also one that would be written otherwise. -/
def decode : Decoder Permissions := decodeFormat ofText?

end Permissions

namespace StaticAddress

/-- Space and offset by name, and not the text `space:offset`. -/
def toJson (a : StaticAddress) : Json :=
  .object [("space", .string a.space), ("offset", .word a.offset)]

structure Found where
  space : Option String
  offset : Option UInt64

def fields : List (RecordField Found) :=
  [.of "space" Found.space (fun r a => { r with space := a }) decodeString,
   .of "offset" Found.offset (fun r a => { r with offset := a }) decodeWord]

/-- Both have to be there; any space will do, an empty one too. -/
def Found.make (r : Found) : Option StaticAddress := do pure ⟨← r.space, ← r.offset⟩

/-- The offset is a number here, where the text of an address has hexadecimal digits. -/
def decode : Decoder StaticAddress := decodeRecord ⟨none, none⟩ fields Found.make

end StaticAddress

/-- The bare number, without the `#` of its text. -/
def RegionId.toJson (id : RegionId) : Json := .word id.raw

/-- Any word is a number, the one that is never handed out too. -/
def RegionId.decode : Decoder RegionId := fun node => (decodeWord node).map RegionId.mk

/-- The bare number, as for regions. -/
def MappingId.toJson (id : MappingId) : Json := .word id.raw

/-- Any word, as for regions. -/
def MappingId.decode : Decoder MappingId := fun node => (decodeWord node).map MappingId.mk

/-! ## Regions -/

namespace Region

/-- Everything but the owner, which is the trace that the file is of. -/
def toJson (r : Region) : Json :=
  .object
    [("id", r.id.toJson), ("name", .string r.name), ("range", r.range.toJson),
     ("flags", r.permissions.toJson), ("lifespan", r.lifespan.toJson)]

structure Found where
  id : Option RegionId
  name : Option String
  range : Option AddressRange
  permissions : Option Permissions
  lifespan : Option Lifespan

/-- The fields in the order in which they are written. -/
def fields : List (RecordField Found) :=
  [.of "id" Found.id (fun r a => { r with id := a }) RegionId.decode,
   .of "name" Found.name (fun r a => { r with name := a }) decodeString,
   .of "range" Found.range (fun r a => { r with range := a }) AddressRange.decode,
   .of "flags" Found.permissions (fun r a => { r with permissions := a }) Permissions.decode,
   .of "lifespan" Found.lifespan (fun r a => { r with lifespan := a }) Lifespan.decode]

/-- Every field has to be there.  The region belongs to no trace until it is loaded into one. -/
def Found.make (r : Found) : Option Region := do
  pure ⟨← r.id, unownedId, ← r.name, ← r.range, ← r.permissions, ← r.lifespan⟩

/-- A region says nothing about the others of its file; whether it fits among them is checked when
they are put together. -/
def decode : Decoder Region := decodeRecord ⟨none, none, none, none, none⟩ fields Found.make

end Region

/-! ## Mappings -/

namespace Mapping

/-- Both sides are written, although the trace side and the start of the other would do. -/
def toJson (m : Mapping) : Json :=
  .object
    [("id", m.id.toJson), ("trace_range", m.traceRange.toJson), ("lifespan", m.lifespan.toJson),
     ("program", .string m.program), ("static_space", .string m.space),
     ("static_range", m.staticRange.toJson)]

structure Found where
  id : Option MappingId
  traceRange : Option AddressRange
  lifespan : Option Lifespan
  program : Option String
  space : Option String
  staticRange : Option AddressRange

def fields : List (RecordField Found) :=
  [.of "id" Found.id (fun r a => { r with id := a }) MappingId.decode,
   .of "trace_range" Found.traceRange (fun r a => { r with traceRange := a }) AddressRange.decode,
   .of "lifespan" Found.lifespan (fun r a => { r with lifespan := a }) Lifespan.decode,
   .of "program" Found.program (fun r a => { r with program := a }) decodeString,
   .of "static_space" Found.space (fun r a => { r with space := a }) decodeString,
   .of "static_range" Found.staticRange (fun r a => { r with staticRange := a })
     AddressRange.decode]

/-- Every field has to be there.  The two sides are taken as they are, equally long or not. -/
def Found.make (r : Found) : Option Mapping := do
  pure ⟨← r.id, ← r.traceRange, ← r.lifespan, ← r.program, ← r.space, ← r.staticRange⟩

/-- Sides that are not equally long are no fault of the document; they are found when the contents
are put together. -/
def decode : Decoder Mapping :=
  decodeRecord ⟨none, none, none, none, none, none⟩ fields Found.make

end Mapping

end RegionAtlas
