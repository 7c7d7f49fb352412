/-
  Programs of a project — the blocks that a project file lists for a program image.

  Starts and lengths are hexadecimal texts, written behind `0x` with at least eight digits and read
  with or without it.  What is listed need not fit an address space: blocks that are empty or run
  past the last address are left out of the image, and stay in the file.
-/
import RegionAtlas.Archive.Record
import RegionAtlas.Pairing.Image

namespace RegionAtlas

open Json

/-! ## Hexadecimal offsets -/

/-- A number that is written in hexadecimal. -/
structure HexOffset where
  value : UInt64
  deriving DecidableEq

namespace HexOffset

/-- The mark `0x`, and at least eight digits behind it. -/
def text (o : HexOffset) : String := String.ofList (Text.markedPaddedHex o.value)

/-- The mark may be missing, or be `0X`; the digits may be of either case, and fewer than eight. -/
def ofText? (s : String) : Option HexOffset := (Text.address? s.toList).map HexOffset.mk

/-- A string, since a number in a document is decimal. -/
def toJson (o : HexOffset) : Json := .string o.text

/-- The text of an offset; a bare number is refused. -/
def decode : Decoder HexOffset := decodeFormat ofText?

end HexOffset

/-! ## Blocks -/

/-- A block as it is listed. -/
structure BlockConfig where
  name : String
  start : HexOffset
  length : HexOffset
  deriving DecidableEq

namespace BlockConfig

/-- The three fields by name. -/
def toJson (b : BlockConfig) : Json :=
  .object [("name", .string b.name), ("start", b.start.toJson), ("length", b.length.toJson)]

structure Found where
  name : Option String
  start : Option HexOffset
  length : Option HexOffset

/-- The fields in the order in which they are written. -/
def fields : List (RecordField Found) :=
  [.of "name" Found.name (fun r a => { r with name := a }) decodeString,
   .of "start" Found.start (fun r a => { r with start := a }) HexOffset.decode,
   .of "length" Found.length (fun r a => { r with length := a }) HexOffset.decode]

/-- Every field has to be there. -/
def Found.make (r : Found) : Option BlockConfig := do pure ⟨← r.name, ← r.start, ← r.length⟩

/-- Whether the block fits into its space is not asked here, so a file with one that does not is
read. -/
def decode : Decoder BlockConfig := decodeRecord ⟨none, none, none⟩ fields Found.make

/-- The block in a space, if it fits there. -/
def toBlock? (b : BlockConfig) (space : String) : Option Block :=
  Block.make? b.name ⟨space, b.start.value⟩ b.length.value

end BlockConfig

/-! ## Programs -/

/-- The blocks of a program, all of one space. -/
structure ProgramConfig where
  space : String
  blocks : List BlockConfig
  deriving DecidableEq

namespace ProgramConfig

/-- The space of a program that names none. -/
def defaultSpace : String := "ram"

/-- A program of which nothing is said. -/
def standard : ProgramConfig := ⟨defaultSpace, []⟩

/-- The space is written also where it is the default. -/
def toJson (p : ProgramConfig) : Json :=
  .object [("space", .string p.space), ("blocks", .array (p.blocks.map BlockConfig.toJson))]

structure Found where
  space : Option String
  blocks : Option (List BlockConfig)

def fields : List (RecordField Found) :=
  [.of "space" Found.space (fun r a => { r with space := a }) decodeString,
   .of "blocks" Found.blocks (fun r a => { r with blocks := a }) (decodeList BlockConfig.decode)]

/-- What is missing is as in `standard`, so an empty object is a program without blocks. -/
def Found.make (r : Found) : Option ProgramConfig :=
  some ⟨r.space.getD defaultSpace, r.blocks.getD []⟩

/-- The blocks keep the order in which they are listed, which an image depends on. -/
def decode : Decoder ProgramConfig := decodeRecord ⟨none, none⟩ fields Found.make

/-- The image of the program: the listed blocks that fit, in their order. -/
def toImage (p : ProgramConfig) (name : String) : Image :=
  ⟨name, p.blocks.filterMap (·.toBlock? p.space)⟩

end ProgramConfig

end RegionAtlas
