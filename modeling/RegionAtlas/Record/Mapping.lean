/-
  Static mappings — a range of trace addresses bound, over a lifespan, to a range of a program's
  static addresses.

  A static address is a place in a program image, written `space:offset` with the offset in
  hexadecimal and at least eight digits.  Reading cuts at the LAST colon, so a space may itself hold
  colons; it may not be empty.

  A mapping is a fixed offset and never a resize: a mapping that is made here covers as many
  static addresses as trace addresses.  A mapping that was read from a file may not, which is why
  the two ranges are separate fields and `isConsistent` compares their extents.
-/
import RegionAtlas.Extent.Lifespan
import RegionAtlas.Extent.Range
import RegionAtlas.Record.Id
import RegionAtlas.Text.Blank

namespace RegionAtlas

/-! ## Static addresses -/

/-- An address in a named static address space. -/
structure StaticAddress where
  space : String
  offset : UInt64
  deriving DecidableEq

namespace StaticAddress

/-- The space, a colon, and at least eight hexadecimal digits. -/
def text (a : StaticAddress) : String := a.space ++ ":" ++ String.ofList (Text.paddedHex a.offset)

/-- Any number of `0x` may stand before the digits of the offset. -/
def ofText? (s : String) : Option StaticAddress :=
  match Text.splitLast? (· == ':') s.toList with
  | some (c :: space, offset) =>
    (Text.word? 16 (Text.dropHexMarks offset)).map fun n => ⟨String.ofList (c :: space), n⟩
  | _ => none

end StaticAddress

/-! ## Mappings -/

/-- A static mapping of a trace. -/
structure Mapping where
  id : MappingId
  traceRange : AddressRange
  lifespan : Lifespan
  program : String
  space : String
  staticRange : AddressRange
  deriving DecidableEq

namespace Mapping

/-- The static range that starts at an offset and reaches as far as the trace range; none where it
would pass the last address. -/
def staticSide? (range : AddressRange) (start : UInt64) : Option AddressRange :=
  AddressRange.of? start (start + range.extent)

/-- How many addresses are left from an offset to the end of its space, saturating. -/
def room (start : UInt64) : UInt64 :=
  if start = 0 then 0xFFFFFFFFFFFFFFFF else 0 - start

/-- The mapping of a trace range onto the static addresses from a place on. -/
def make? (id : MappingId) (range : AddressRange) (lifespan : Lifespan) (program : String)
    (place : StaticAddress) : Option Mapping :=
  (staticSide? range place.offset).map fun side =>
    ⟨id, range, lifespan, program, place.space, side⟩

/-- Where the static side starts. -/
def place (m : Mapping) : StaticAddress := ⟨m.space, m.staticRange.min⟩

/-- The number of trace addresses, saturating. -/
def length (m : Mapping) : UInt64 := m.traceRange.length

/-- Whether both sides reach equally far. -/
def isConsistent (m : Mapping) : Bool := m.traceRange.extent == m.staticRange.extent

/-- Whether both mappings are into one space of one program. -/
def sharesSpace (m n : Mapping) : Bool := m.program == n.program && m.space == n.space

/-- Whether the two exist at some snap together and there share a trace address, or a static
address of one space of one program. -/
def conflictsWith (m n : Mapping) : Bool :=
  m.lifespan.intersects n.lifespan &&
    (m.traceRange.intersects n.traceRange ||
      (m.sharesSpace n && m.staticRange.intersects n.staticRange))

/-- The static address of a trace address the mapping covers. -/
def toStatic? (m : Mapping) (address : UInt64) : Option StaticAddress :=
  if m.traceRange.contains address then
    some ⟨m.space, m.staticRange.min + (address - m.traceRange.min)⟩
  else none

/-- The trace address of a static address the mapping covers. -/
def toTrace? (m : Mapping) (a : StaticAddress) : Option UInt64 :=
  if a.space = m.space ∧ m.staticRange.contains a.offset then
    some (m.traceRange.min + (a.offset - m.staticRange.min))
  else none

end Mapping

end RegionAtlas
