/-
  Numbers as text — reading and printing words in base ten and base sixteen.

  The one grammar for a word read in a base: an optional single `+`, then one or more digits of
  that base, upper or lower case, any number of leading zeros, and a value below 2^64.  Nothing
  else: no minus sign, no blank, no underscore.  `address?` puts an optional `0x` or `0X` in front
  of the hexadecimal form; a snap is a decimal with an optional sign of either kind.

  Printing pads on the left with zeros up to a width and never cuts a number short.
-/

namespace RegionAtlas.Text

/-! ## Reading -/

/-- The value of a digit of the base (at most sixteen), upper or lower case. -/
def digit? (base : Nat) (c : Char) : Option Nat :=
  let n := c.toNat
  let value :=
    if 48 ≤ n ∧ n ≤ 57 then n - 48
    else if 97 ≤ n ∧ n ≤ 102 then n - 87
    else if 65 ≤ n ∧ n ≤ 70 then n - 55
    else base
  if value < base then some value else none

/-- Reads digits after those whose value is `acc`; any other character refuses the whole text. -/
def digits? (base : Nat) (acc : Nat) : List Char → Option Nat
  | [] => some acc
  | c :: cs => (digit? base c).bind fun d => digits? base (acc * base + d) cs

/-- One or more digits, as a number of any size. -/
def natural? (base : Nat) : List Char → Option Nat
  | [] => none
  | cs => digits? base 0 cs

/-- Drops one leading `+`. -/
def dropPlus : List Char → List Char
  | '+' :: cs => cs
  | cs => cs

/-- A word in the given base. -/
def word? (base : Nat) (cs : List Char) : Option UInt64 :=
  (natural? base (dropPlus cs)).bind fun n =>
    if n < UInt64.size then some (UInt64.ofNat n) else none

/-- Drops one leading `0x` or `0X`. -/
def dropHexMark : List Char → List Char
  | '0' :: 'x' :: cs => cs
  | '0' :: 'X' :: cs => cs
  | cs => cs

/-- Drops every leading `0x`, lower case only. -/
def dropHexMarks : List Char → List Char
  | '0' :: 'x' :: cs => dropHexMarks cs
  | cs => cs

/-- A hexadecimal word with or without its mark. -/
def address? (cs : List Char) : Option UInt64 := word? 16 (dropHexMark cs)

/-- Half the number of words: signed words are those from its negative up to below it. -/
def signedBound : Nat := 0x8000000000000000

/-- A signed decimal word. -/
def snap? (cs : List Char) : Option Int64 :=
  match cs with
  | '-' :: ds => (natural? 10 ds).bind fun n =>
      if n ≤ signedBound then some (Int64.ofInt (-(n : Int))) else none
  | _ => (natural? 10 (dropPlus cs)).bind fun n =>
      if n < signedBound then some (Int64.ofInt n) else none

/-! ## Printing -/

/-- Lower-case hexadecimal digits. -/
def hex (n : UInt64) : List Char := Nat.toDigits 16 n.toNat

/-- Hexadecimal, at least eight digits. -/
def paddedHex (n : UInt64) : List Char := (hex n).leftpad 8 '0'

/-- Hexadecimal behind its mark. -/
def markedHex (n : UInt64) : List Char := '0' :: 'x' :: hex n

/-- Hexadecimal behind its mark, at least eight digits. -/
def markedPaddedHex (n : UInt64) : List Char := '0' :: 'x' :: paddedHex n

/-- Decimal digits. -/
def decimal (n : Nat) : String := Nat.repr n

/-- Decimal digits behind a minus sign where the number is negative. -/
def signedDecimal (n : Int) : String :=
  match n with
  | .ofNat m => decimal m
  | .negSucc m => "-" ++ decimal (m + 1)

/-! ## Columns -/

/-- Pads on the right up to a width. -/
def padRight (width : Nat) (s : String) : String :=
  s ++ String.ofList (List.replicate (width - s.length) ' ')

/-- Pads on the left up to a width. -/
def padLeft (width : Nat) (s : String) : String :=
  String.ofList (List.replicate (width - s.length) ' ') ++ s

end RegionAtlas.Text
