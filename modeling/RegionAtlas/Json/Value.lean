/-
  JSON values and their two written forms.

  Compact text has no spaces.  Pretty text puts every item and field on a line of its own, two
  spaces deeper than its container, with one space behind the colon; an empty array or object
  stays on its line.  Fields are written in the order in which they stand.

  In a string only `"`, `\` and the characters below U+0020 are escaped: five of those by a letter,
  the others by four lower-case hexadecimal digits.
-/
import RegionAtlas.Text.Radix

namespace RegionAtlas

/-- A JSON value whose numbers are integers. -/
inductive Json where
  | null
  | bool (b : Bool)
  | integer (n : Int)
  | string (s : String)
  | array (items : List Json)
  | object (fields : List (String × Json))

namespace Json

/-- A word as a number. -/
def word (n : UInt64) : Json := integer n.toNat

/-! ## Strings and numbers -/

/-- The four digits of a character below U+0020. -/
def controlDigits (c : Char) : List Char := (Nat.toDigits 16 c.toNat).leftpad 4 '0'

/-- One character inside a string. -/
def escape (c : Char) : List Char :=
  if c = '"' then ['\\', '"']
  else if c = '\\' then ['\\', '\\']
  else if c.toNat = 8 then ['\\', 'b']
  else if c.toNat = 9 then ['\\', 't']
  else if c.toNat = 10 then ['\\', 'n']
  else if c.toNat = 12 then ['\\', 'f']
  else if c.toNat = 13 then ['\\', 'r']
  else if c.toNat < 0x20 then '\\' :: 'u' :: controlDigits c
  else [c]

/-- A string between its quotes. -/
def quoted (s : String) : List Char := '"' :: (s.toList.flatMap escape ++ ['"'])

def literal (b : Bool) : List Char := (if b then "true" else "false").toList

def number (n : Int) : List Char := (Text.signedDecimal n).toList

/-! ## Compact text -/

mutual

/-- The value without spaces. -/
def compactChars : Json → List Char
  | null => "null".toList
  | bool b => literal b
  | integer n => number n
  | string s => quoted s
  | array items => '[' :: (compactItems items ++ [']'])
  | object fields => '{' :: (compactFields fields ++ ['}'])

def compactItems : List Json → List Char
  | [] => []
  | [v] => compactChars v
  | v :: w :: rest => compactChars v ++ ',' :: compactItems (w :: rest)

def compactFields : List (String × Json) → List Char
  | [] => []
  | [(k, v)] => quoted k ++ ':' :: compactChars v
  | (k, v) :: f :: rest => quoted k ++ ':' :: (compactChars v ++ ',' :: compactFields (f :: rest))

end

/-! ## Pretty text -/

/-- A new line at a depth. -/
def newline (depth : Nat) : List Char := '\n' :: List.replicate (2 * depth) ' '

mutual

/-- The value with each item and field on a line of its own. -/
def prettyChars (depth : Nat) : Json → List Char
  | null => "null".toList
  | bool b => literal b
  | integer n => number n
  | string s => quoted s
  | array [] => ['[', ']']
  | array (v :: rest) =>
    '[' :: (prettyItems (depth + 1) (v :: rest) ++ newline depth ++ [']'])
  | object [] => ['{', '}']
  | object (f :: rest) =>
    '{' :: (prettyFields (depth + 1) (f :: rest) ++ newline depth ++ ['}'])

def prettyItems (depth : Nat) : List Json → List Char
  | [] => []
  | [v] => newline depth ++ prettyChars depth v
  | v :: w :: rest => newline depth ++ prettyChars depth v ++ ',' :: prettyItems depth (w :: rest)

def prettyFields (depth : Nat) : List (String × Json) → List Char
  | [] => []
  | [(k, v)] => newline depth ++ quoted k ++ ':' :: ' ' :: prettyChars depth v
  | (k, v) :: f :: rest =>
    newline depth ++ quoted k ++ ':' :: ' ' :: (prettyChars depth v ++
      ',' :: prettyFields depth (f :: rest))

end

/-- The text without spaces. -/
def compact (v : Json) : String := String.ofList v.compactChars

/-- The text with one item or field a line. -/
def pretty (v : Json) : String := String.ofList (v.prettyChars 0)

end Json

end RegionAtlas
