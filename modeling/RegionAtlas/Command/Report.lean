/-
  Reports — the lines in which regions, mappings and proposals are shown.

  Columns are padded with blanks to a width and never cut; widths count characters.
-/
import RegionAtlas.Pairing.Proposal
import RegionAtlas.Record.Mapping
import RegionAtlas.Window.Window

namespace RegionAtlas.Report

open Text

/-- A line of columns, two blanks between them. -/
def columns (cells : List String) : String := "  ".intercalate cells

/-- The digits alone, as in the columns of a table. -/
def hexText (n : UInt64) : String := String.ofList (hex n)

/-- The digits behind `0x`. -/
def markedHexText (n : UInt64) : String := String.ofList (markedHex n)

/-! ## Regions -/

def regionHeader : String :=
  columns
    [padLeft 6 "id", padRight 48 "name", padLeft 16 "start", padLeft 16 "end",
     padLeft 10 "length", padLeft 8 "created", padLeft 8 "destroyed", "flags"]

/-- A region in the columns that `regionHeader` names. -/
def regionLine (r : Row) : String :=
  columns
    [padLeft 6 r.region.text, padRight 48 r.name, padLeft 16 (hexText r.range.min),
     padLeft 16 (hexText r.range.max), padLeft 10 (markedHexText r.range.length),
     padLeft 8 (signedDecimal r.created.toInt), padLeft 8 r.destroyedText, r.permissions.text]

/-- A table of regions. -/
def regionLines (rows : List Row) : List String := regionHeader :: rows.map regionLine

/-! ## Mappings -/

def mappingHeader : String :=
  columns
    [padLeft 6 "id", padLeft 16 "start", padLeft 16 "end", padLeft 10 "length",
     padRight 16 "program", padRight 28 "static", "lifespan"]

/-- A mapping in the columns that `mappingHeader` names, with its static side as one text. -/
def mappingLine (m : Mapping) : String :=
  columns
    [padLeft 6 m.id.text, padLeft 16 (hexText m.traceRange.min),
     padLeft 16 (hexText m.traceRange.max), padLeft 10 (markedHexText m.length),
     padRight 16 m.program, padRight 28 (m.space ++ ":" ++ m.staticRange.text), m.lifespan.text]

/-- A table of mappings. -/
def mappingLines (mappings : List Mapping) : List String :=
  mappingHeader :: mappings.map mappingLine

/-! ## Proposals -/

/-- What an entry would be mapped to. -/
def targetText (e : Entry) : String :=
  match e.block, e.length? with
  | some b, some n => b.start.text ++ " (" ++ b.name ++ ", " ++ markedHexText n ++ " bytes)"
  | _, _ => "(none)"

/-- A star marks what would be committed. -/
def entryLine (e : Entry) : String :=
  (if e.selected then "*" else " ") ++ " " ++ padLeft 6 e.region.id.text ++ "  " ++
    padRight 48 e.region.name ++ " -> " ++ targetText e

/-- A headline, and one line for each entry, accepted or not. -/
def proposalLines (p : Proposal) : List String :=
  ("Proposal for " ++ p.program ++ ":") :: p.entries.map entryLine

end RegionAtlas.Report
