/-
  Reading JSON into nodes — a document as far as it can be read.

  Reading never fails: where a document breaks, the tree ends in a node that says how.  What a
  broken or odd document means depends on what is wanted of it, so that is left to whoever takes
  values out of the tree, in document order:
    * a place may be broken in one way for a reader that wants its value and in another for one
      that skips it;
    * a string that stands for no text is a fault only where its text is wanted;
    * a number with a fraction or an exponent, and negative zero, is a number but no integer.

  There are two faults: the document ends too early, or it holds what may not stand there.
-/
import RegionAtlas.Json.Source

namespace RegionAtlas.Json

/-- What is wrong at a place of a document. -/
inductive Fault where
  /-- The document ends there. -/
  | truncated
  /-- Something stands there that may not. -/
  | malformed
  deriving DecidableEq

/-- A place where a document cannot be read on. -/
structure Break where
  /-- For a reader that wants what stands there. -/
  wanted : Fault
  /-- For a reader that passes over it. -/
  skipped : Fault
  deriving DecidableEq

/-- A place that is broken for every reader. -/
def Break.by (f : Fault) : Break := ⟨f, f⟩

/-- A document as far as it can be read. -/
inductive Node where
  | null
  | bool (b : Bool)
  | integer (n : Int)
  /-- A number that is no integer. -/
  | decimal
  /-- A string, with its text where it stands for one. -/
  | string (text : Option String)
  /-- Items up to the closing bracket, or up to where the list breaks. -/
  | array (items : List Node) (stop : Option Break)
  /-- Fields up to the closing brace, or up to where the object breaks. -/
  | object (fields : List (Option String × Node)) (stop : Option Break)
  | broken (place : Break)

/-- A node, and what follows it unless the document breaks in it. -/
abbrev Reading := Node × Option Source

def Reading.cut (b : Break) : Reading := (.broken b, none)

/-! ## Literals -/

/-- The rest of a literal. -/
def readLiteral (node : Node) : List Char → Source → Reading
  | [], src => (node, some src)
  | _ :: _, [] => .cut (.by .truncated)
  | c :: cs, s :: src => if s = some c then readLiteral node cs src else .cut (.by .malformed)

/-! ## Numbers -/

def isDigit (c : Char) : Bool := '0' ≤ c && c ≤ '9'

/-- The digits in front. -/
def takeDigits : Source → List Char × Source
  | some c :: src =>
    if isDigit c then
      let (ds, rest) := takeDigits src
      (c :: ds, rest)
    else ([], some c :: src)
  | src => ([], src)

/-- Where digits are missing: a reader that skips the number cannot tell an early end from a
character that is no digit. -/
def digitsMissing (src : Source) : Break :=
  ⟨if src.isEmpty then .truncated else .malformed, .malformed⟩

/-- Digits that must be there, in front of a decimal that is complete after them. -/
def readDigits (src : Source) (andThen : Source → Reading) : Reading :=
  match takeDigits src with
  | ([], rest) => .cut (digitsMissing rest)
  | (_, rest) => andThen rest

/-- An exponent behind its letter. -/
def readExponent (src : Source) : Reading :=
  let digits := fun s => readDigits s fun rest => (.decimal, some rest)
  match src with
  | some '+' :: rest => digits rest
  | some '-' :: rest => digits rest
  | _ => digits src

/-- What may follow the digits in front of the point: a fraction, an exponent, or nothing. -/
def readNumberEnd (whole : Node) (src : Source) : Reading :=
  match src with
  | some '.' :: rest =>
    readDigits rest fun
      | some 'e' :: rest => readExponent rest
      | some 'E' :: rest => readExponent rest
      | rest => (.decimal, some rest)
  | some 'e' :: rest => readExponent rest
  | some 'E' :: rest => readExponent rest
  | _ => (whole, some src)

/-- The value of decimal digits. -/
def digitsValue (ds : List Char) : Nat := ds.foldl (fun n c => n * 10 + (c.toNat - 48)) 0

/-- An integer by its sign and magnitude; negative zero is none. -/
def signed (negative : Bool) (magnitude : Nat) : Node :=
  if negative then
    if magnitude = 0 then .decimal else .integer (-(magnitude : Int))
  else .integer magnitude

/-- A number behind its sign.  A zero in front stands alone. -/
def readNumber (negative : Bool) (src : Source) : Reading :=
  match takeDigits src with
  | ([], rest) => .cut (digitsMissing rest)
  | (['0'], rest) => readNumberEnd (signed negative 0) rest
  | ('0' :: _ :: _, _) => .cut (.by .malformed)
  | (ds, rest) => readNumberEnd (signed negative (digitsValue ds)) rest

/-! ## Strings -/

/-- A part of a string as it is written. -/
inductive Piece where
  | char (c : Char)
  /-- A `\u` escape: one unit of UTF-16. -/
  | unit (n : Nat)
  /-- A byte of no character. -/
  | stray
  deriving DecidableEq

def isHighSurrogate (n : Nat) : Bool := 0xD800 ≤ n && n ≤ 0xDBFF

def isLowSurrogate (n : Nat) : Bool := 0xDC00 ≤ n && n ≤ 0xDFFF

/-- The character of a surrogate pair. -/
def pairChar (high low : Nat) : Char :=
  Char.ofNat (0x10000 + (high - 0xD800) * 0x400 + (low - 0xDC00))

/-- The text of some pieces, if they are characters and every surrogate is one of a pair. -/
def assemble : List Piece → Option (List Char)
  | [] => some []
  | .char c :: rest => (assemble rest).map (c :: ·)
  | .unit n :: rest =>
    if isLowSurrogate n then none
    else if isHighSurrogate n then
      match rest with
      | .unit m :: rest =>
        if isLowSurrogate m then (assemble rest).map (pairChar n m :: ·) else none
      | _ => none
    else (assemble rest).map (Char.ofNat n :: ·)
  | .stray :: _ => none

/-- Whether some surrogate is followed by what cannot complete it. -/
def hasLoneSurrogate : List Piece → Bool
  | [] => false
  | .unit n :: rest =>
    if isLowSurrogate n then true
    else if isHighSurrogate n then
      match rest with
      | [] => false
      | .unit m :: rest => !isLowSurrogate m || hasLoneSurrogate rest
      | _ => true
    else hasLoneSurrogate rest
  | _ :: rest => hasLoneSurrogate rest

def hexDigit? (s : Option Char) : Option Nat :=
  s.bind fun c =>
    let n := c.toNat
    if 48 ≤ n ∧ n ≤ 57 then some (n - 48)
    else if 97 ≤ n ∧ n ≤ 102 then some (n - 87)
    else if 65 ≤ n ∧ n ≤ 70 then some (n - 55)
    else none

/-- The unit that four hexadecimal digits stand for. -/
def unit? (a b c d : Option Char) : Option Nat := do
  let a ← hexDigit? a
  let b ← hexDigit? b
  let c ← hexDigit? c
  let d ← hexDigit? d
  pure (((a * 16 + b) * 16 + c) * 16 + d)

/-- The character that a one-letter escape stands for. -/
def escaped? (c : Char) : Option Char :=
  match c with
  | '"' => some '"'
  | '\\' => some '\\'
  | '/' => some '/'
  | 'b' => some (Char.ofNat 8)
  | 'f' => some (Char.ofNat 12)
  | 'n' => some '\n'
  | 'r' => some '\r'
  | 't' => some '\t'
  | _ => none

/-- The pieces of a string up to its closing quote, with what follows it, or up to where it
breaks. -/
structure Scanned where
  pieces : List Piece
  rest : Except Fault Source

def Scanned.cons (p : Piece) (s : Scanned) : Scanned := { s with pieces := p :: s.pieces }

/-- Scans a string behind its opening quote.  A `\u` escape is cut short where fewer than four bytes
follow it. -/
def scanString : Source → Scanned
  | [] => ⟨[], .error .truncated⟩
  | none :: src => (scanString src).cons .stray
  | some '\\' :: some 'u' :: a :: b :: c :: d :: src =>
    match unit? a b c d with
    | some n => (scanString src).cons (.unit n)
    | none => ⟨[], .error .malformed⟩
  | some '\\' :: some 'u' :: src =>
    ⟨[], .error (if Source.byteCount src < 4 then .truncated else .malformed)⟩
  | some '\\' :: some c :: src =>
    match escaped? c with
    | some e => (scanString src).cons (.char e)
    | none => ⟨[], .error .malformed⟩
  | some '\\' :: none :: _ => ⟨[], .error .malformed⟩
  | some '\\' :: [] => ⟨[], .error .truncated⟩
  | some c :: src =>
    if c = '"' then ⟨[], .ok src⟩
    else if c.toNat < 0x20 then ⟨[], .error .malformed⟩
    else (scanString src).cons (.char c)

/-- A string behind its opening quote: its text, if it stands for one, and what follows. -/
def readString (src : Source) : Except Break (Option String × Source) :=
  let scanned := scanString src
  match scanned.rest with
  | .ok rest => .ok ((assemble scanned.pieces).map String.ofList, rest)
  | .error f => .error ⟨if hasLoneSurrogate scanned.pieces then .malformed else f, f⟩

/-! ## Values

  `fuel` bounds the depth and length of what is read.  Of two steps one takes a symbol at least, so
  twice the number of symbols is always enough. -/

/-- Items and where they end: what follows the closing bracket, or where they break.  Neither is
there where an item itself is broken. -/
structure Items (α : Type) where
  items : List α
  stop : Option Break
  rest : Option Source

namespace Items

variable {α : Type}

def cons (x : α) (s : Items α) : Items α := { s with items := x :: s.items }

/-- No more items, and what follows. -/
def closed (rest : Source) : Items α := ⟨[], none, some rest⟩

/-- No more items, since the document breaks. -/
def cut (b : Break) : Items α := ⟨[], some b, none⟩

/-- One item that is broken itself. -/
def brokenIn (x : α) : Items α := ⟨[x], none, none⟩

/-- Behind the opening bracket: the closing one, or items. -/
def first (close : Char) (src : Source) (more : Source → Items α) : Items α :=
  match src.skipSpace with
  | [] => .cut (.by .truncated)
  | s :: rest => if s = some close then closed rest else more (s :: rest)

/-- Behind an item: the closing bracket, or a comma and more items. -/
def next (close : Char) (src : Source) (more : Source → Items α) : Items α :=
  match src.skipSpace with
  | [] => .cut (.by .truncated)
  | s :: rest =>
    if s = some close then closed rest
    else if s = some ',' then more rest
    else .cut (.by .malformed)

end Items

mutual

/-- Reads a value, with space in front. -/
def readValue : Nat → Source → Reading
  | 0, _ => .cut (.by .malformed)
  | fuel + 1, src =>
    match src.skipSpace with
    | [] => .cut (.by .truncated)
    | none :: _ => .cut (.by .malformed)
    | some c :: src =>
      if c = 'n' then readLiteral .null "ull".toList src
      else if c = 't' then readLiteral (.bool true) "rue".toList src
      else if c = 'f' then readLiteral (.bool false) "alse".toList src
      else if c = '-' then readNumber true src
      else if isDigit c then readNumber false (some c :: src)
      else if c = '"' then
        match readString src with
        | .ok (text, rest) => (.string text, some rest)
        | .error b => .cut b
      else if c = '[' then
        let read := Items.first ']' src (readItems fuel)
        (.array read.items read.stop, read.rest)
      else if c = '\x7b' then
        let read := Items.first '\x7d' src (readFields fuel)
        (.object read.items read.stop, read.rest)
      else .cut (.by .malformed)

/-- Reads an item and those behind it. -/
def readItems : Nat → Source → Items Node
  | 0, _ => .cut (.by .malformed)
  | fuel + 1, src =>
    match readValue fuel src with
    | (node, none) => .brokenIn node
    | (node, some rest) => (Items.next ']' rest (readItems fuel)).cons node

/-- Reads a field and those behind it. -/
def readFields : Nat → Source → Items (Option String × Node)
  | 0, _ => .cut (.by .malformed)
  | fuel + 1, src =>
    match src.skipSpace with
    | [] => .cut (.by .truncated)
    | some '"' :: src =>
      match readString src with
      | .error b => .cut b
      | .ok (key, rest) =>
        match rest.skipSpace with
        | [] => .brokenIn (key, .broken (.by .truncated))
        | some ':' :: rest =>
          match readValue fuel rest with
          | (node, none) => .brokenIn (key, node)
          | (node, some rest) => (Items.next '\x7d' rest (readFields fuel)).cons (key, node)
        | _ => .brokenIn (key, .broken (.by .malformed))
    | _ => .cut (.by .malformed)

end

/-! ## Documents -/

/-- A document: its root, and whether only space follows it. -/
structure Document where
  root : Node
  endsClean : Bool

def Document.read (src : Source) : Document :=
  match readValue (2 * src.length + 2) src with
  | (root, none) => ⟨root, true⟩
  | (root, some rest) => ⟨root, rest.skipSpace.isEmpty⟩

end RegionAtlas.Json
