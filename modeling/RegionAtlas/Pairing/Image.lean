/-
  Program images — the blocks of a program's static address spaces, and which of them a module may
  be given.

  A block is a named, non-empty range of one space.  The order of the blocks in an image is
  significant: of two blocks that are equally good for something, the one listed first is taken.

  There are three ways for a module to match an image, best first, letters compared without regard
  to ASCII case:
    * some block names contain the file name: those blocks are eligible;
    * the image is named after the file: all its blocks are;
    * image name and file name have one stem: all its blocks are.
  Otherwise nothing is.
-/
import RegionAtlas.Extent.Range
import RegionAtlas.Pairing.Module
import RegionAtlas.Record.Mapping

namespace RegionAtlas

/-! ## Blocks and images -/

/-- A named range of static addresses. -/
structure Block where
  name : String
  space : String
  range : AddressRange
  deriving DecidableEq

namespace Block

/-- A block of `length` addresses; none where it would be empty or run past the last address. -/
def make? (name : String) (start : StaticAddress) (length : UInt64) : Option Block :=
  (AddressRange.ofStartLength? start.offset length).map fun range => ⟨name, start.space, range⟩

def start (b : Block) : StaticAddress := ⟨b.space, b.range.min⟩

def length (b : Block) : UInt64 := b.range.length

end Block

/-- The blocks of one program. -/
structure Image where
  name : String
  blocks : List Block
  deriving DecidableEq

namespace Image

/-- The first block of that name. -/
def blockNamed? (i : Image) (name : String) : Option Block := i.blocks.find? (·.name == name)

/-- Whether exactly this block is in the image. -/
def contains (i : Image) (b : Block) : Bool := i.blocks.contains b

end Image

/-! ## Eligibility -/

/-- How well a module matches an image. -/
inductive NameMatch where
  | nothing
  | stem
  | image
  | block
  deriving DecidableEq

/-- What a pairing of that quality is worth; better matches are worth more. -/
def NameMatch.weight : NameMatch → Nat
  | nothing => 0
  | stem => 1
  | image => 2
  | block => 3

/-- A block with its position in the catalog of its image. -/
structure Slot where
  position : Nat
  block : Block
  deriving DecidableEq

/-- The blocks of an image at their positions. -/
def Image.slots (i : Image) : List Slot := i.blocks.zipIdx.map fun (b, n) => ⟨n, b⟩

namespace ModuleKey

/-- Whether the name of a block contains the file name. -/
def occursInBlock (k : ModuleKey) (b : Block) : Bool :=
  Text.occursIn (Text.lower k.basenameChars) (Text.lower b.name.toList)

/-- How an image matches by its own name. -/
def imageMatch (k : ModuleKey) (i : Image) : NameMatch :=
  let name := Text.lower i.name.toList
  if name = Text.lower k.basenameChars then .image
  else if stemOf name = Text.lower (stemOf k.basenameChars) then .stem
  else .nothing

/-- The match of a module with an image and the slots it may be given, in catalog order. -/
def eligible (k : ModuleKey) (i : Image) : NameMatch × List Slot :=
  match i.slots.filter (fun s => k.occursInBlock s.block) with
  | [] =>
    match k.imageMatch i with
    | .nothing => (.nothing, [])
    | quality => (quality, i.slots)
  | named => (.block, named)

end ModuleKey

end RegionAtlas
