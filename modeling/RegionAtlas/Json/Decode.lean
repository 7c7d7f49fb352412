/-
  Taking values out of nodes.

  A decoder looks at nodes in document order and gives the value or the first reason against it.
  Records follow these rules:
    * an object's fields may come in any order; unknown ones are passed over, and a known one may
      come once only;
    * an array's items are the fields in the order of their declaration; there may be fewer, but
      not more;
    * a field that is missing is what the record says it is when missing, or a reason against it.
  In a map, of two fields with one key the later one counts.
-/
import RegionAtlas.Json.Node
import RegionAtlas.Ledger.Table
import RegionAtlas.Text.Radix

namespace RegionAtlas.Json

/-- Why a document does not decode. -/
inductive Unreadable where
  | fault (f : Fault)
  /-- The bounds of an address range are in the wrong order. -/
  | invertedRange (min max : UInt64)
  /-- A lifespan stops before it starts. -/
  | invertedLifespan (start stop : Int64)
  deriving DecidableEq

/-- What does not fit the type that is wanted. -/
def Unreadable.mismatch : Unreadable := .fault .malformed

/-- Takes a value out of a node. -/
abbrev Decoder (α : Type) := Node → Except Unreadable α

/-- A node that is not of the kind that is wanted. -/
def wrongKind {α : Type} : Decoder α
  | .broken b => .error (.fault b.wanted)
  | _ => .error .mismatch

/-! ## Passing over -/

mutual

/-- The first fault in a node that is passed over. -/
def Node.skip : Node → Option Fault
  | .broken b => some b.skipped
  | .array items stop => skipItems items stop
  | .object fields stop => skipFields fields stop
  | _ => none

def skipItems : List Node → Option Break → Option Fault
  | [], stop => stop.map (·.skipped)
  | node :: rest, stop => node.skip.or (skipItems rest stop)

def skipFields : List (Option String × Node) → Option Break → Option Fault
  | [], stop => stop.map (·.skipped)
  | (_, node) :: rest, stop => node.skip.or (skipFields rest stop)

end

/-! ## Plain values -/

/-- A 64-bit word. -/
def decodeWord : Decoder UInt64
  | .integer n =>
    if 0 ≤ n ∧ n < UInt64.size then .ok (UInt64.ofNat n.toNat) else .error .mismatch
  | node => wrongKind node

/-- A signed 64-bit word. -/
def decodeSigned : Decoder Int64
  | .integer n =>
    if -(Text.signedBound : Int) ≤ n ∧ n < Text.signedBound then .ok (Int64.ofInt n)
    else .error .mismatch
  | node => wrongKind node

def decodeString : Decoder String
  | .string (some s) => .ok s
  | .string none => .error .mismatch
  | node => wrongKind node

/-- A string in a format of its own. -/
def decodeFormat {α : Type} (ofText? : String → Option α) : Decoder α := fun node =>
  (decodeString node).bind fun s =>
    match ofText? s with
    | some a => .ok a
    | none => .error .mismatch

/-- A value, or `null` for none. -/
def decodeOptional {α : Type} (decode : Decoder α) : Decoder (Option α)
  | .null => .ok none
  | node => (decode node).map some

/-- What a list or an object ends with. -/
def endOf : Option Break → Except Unreadable Unit
  | none => .ok ()
  | some b => .error (.fault b.wanted)

def decodeItems {α : Type} (decode : Decoder α) : List Node → Except Unreadable (List α)
  | [] => .ok []
  | node :: rest => do
    let a ← decode node
    let as ← decodeItems decode rest
    pure (a :: as)

/-- A list of values of one kind. -/
def decodeList {α : Type} (decode : Decoder α) : Decoder (List α)
  | .array items stop => do
    let as ← decodeItems decode items
    endOf stop
    pure as
  | node => wrongKind node

/-! ## Maps -/

def decodeEntries {α : Type} (decode : Decoder α) (found : Table String α) :
    List (Option String × Node) → Except Unreadable (Table String α)
  | [] => .ok found
  | (none, _) :: _ => .error .mismatch
  | (some key, node) :: rest => do
    let a ← decode node
    decodeEntries decode (found.insert key a) rest

/-- A map by name. -/
def decodeMap {α : Type} (decode : Decoder α) : Decoder (Table String α)
  | .object fields stop => do
    let found ← decodeEntries decode .empty fields
    endOf stop
    pure found
  | node => wrongKind node

/-! ## Records

  `ρ` is a record of what was found so far, with an optional value for each field. -/

/-- A field of a record. -/
structure RecordField (ρ : Type) where
  name : String
  isFilled : ρ → Bool
  fill : Node → ρ → Except Unreadable ρ

/-- A field that holds what a decoder gives. -/
def RecordField.of {ρ α : Type} (name : String) (get : ρ → Option α) (set : ρ → Option α → ρ)
    (decode : Decoder α) : RecordField ρ where
  name := name
  isFilled r := (get r).isSome
  fill node r := (decode node).map fun a => set r (some a)

/-- Fills fields by name, in the order in which they come. -/
def fillByName {ρ : Type} (known : List (RecordField ρ)) (found : ρ) :
    List (Option String × Node) → Except Unreadable ρ
  | [] => .ok found
  | (none, _) :: _ => .error .mismatch
  | (some key, node) :: rest =>
    match known.find? (·.name == key) with
    | some field =>
      if field.isFilled found then .error .mismatch
      else (field.fill node found).bind fun found => fillByName known found rest
    | none =>
      match node.skip with
      | some f => .error (.fault f)
      | none => fillByName known found rest

/-- Fills fields in their order. -/
def fillInOrder {ρ : Type} (found : ρ) : List (RecordField ρ) → List Node → Option Break →
    Except Unreadable ρ
  | [], _ :: _, _ => .error .mismatch
  | _, [], stop => (endOf stop).map fun _ => found
  | field :: known, node :: rest, stop =>
    (field.fill node found).bind fun found => fillInOrder found known rest stop

/-- What a record is made of, given the fields found; none where one is missing. -/
def finish {ρ α : Type} (make : ρ → Option α) (found : ρ) : Except Unreadable α :=
  match make found with
  | some a => .ok a
  | none => .error .mismatch

/-- A record, as an object or as an array. -/
def decodeRecord {ρ α : Type} (start : ρ) (known : List (RecordField ρ)) (make : ρ → Option α) :
    Decoder α
  | .object fields stop => do
    let found ← fillByName known start fields
    endOf stop
    finish make found
  | .array items stop => do
    let found ← fillInOrder start known items stop
    finish make found
  | node => wrongKind node

/-- A record that is written as an array only. -/
def decodeTuple {ρ α : Type} (start : ρ) (known : List (RecordField ρ)) (make : ρ → Option α) :
    Decoder α
  | .object _ _ => .error .mismatch
  | node => decodeRecord start known make node

/-! ## Documents -/

/-- A value that a whole document stands for. -/
def Document.decode {α : Type} (decode : Decoder α) (d : Document) : Except Unreadable α := do
  let a ← decode d.root
  if d.endsClean then pure a else .error .mismatch

/-- A value from a source. -/
def decodeSource {α : Type} (decode : Decoder α) (src : Source) : Except Unreadable α :=
  (Document.read src).decode decode

end RegionAtlas.Json
