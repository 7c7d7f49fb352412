/-
  Blank characters — the 25 characters with the Unicode property `White_Space` — and what is
  done with them on lists of characters: trimming both ends, and cutting a text at the last
  character of a class.

  Rules:
    * `isBlank`     decides the property by its ranges;
    * `trim`        drops blanks at both ends and nothing in between;
    * `splitLast?`  cuts at the LAST character of a class: that character belongs to neither part.
-/

namespace RegionAtlas.Text

/-- The Unicode property `White_Space`. -/
def isBlank (c : Char) : Bool :=
  let n := c.toNat
  (9 ≤ n && n ≤ 13) || n == 0x20 || n == 0x85 || n == 0xA0 || n == 0x1680 ||
    (0x2000 ≤ n && n ≤ 0x200A) || n == 0x2028 || n == 0x2029 || n == 0x202F || n == 0x205F ||
    n == 0x3000

/-! ## Trimming -/

/-- Drops the blanks at the end. -/
def trimEnd (cs : List Char) : List Char := (cs.reverse.dropWhile isBlank).reverse

/-- Drops the blanks at both ends. -/
def trim (cs : List Char) : List Char := trimEnd (cs.dropWhile isBlank)

/-! ## Cutting -/

/-- Cuts at the last character of the class: what stands before it and what stands after it. -/
def splitLast? (inClass : Char → Bool) : List Char → Option (List Char × List Char)
  | [] => none
  | c :: cs =>
    match splitLast? inClass cs with
    | some (before, after) => some (c :: before, after)
    | none => if inClass c then some ([], cs) else none

/-- Cuts at the first character of the class: what stands before it and what stands after it. -/
def splitFirst? (inClass : Char → Bool) : List Char → Option (List Char × List Char)
  | [] => none
  | c :: cs =>
    if inClass c then some ([], cs)
    else (splitFirst? inClass cs).map fun (before, after) => (c :: before, after)

/-- The part after the last character of the class, or all of it. -/
def afterLast (inClass : Char → Bool) (cs : List Char) : List Char :=
  match splitLast? inClass cs with
  | some (_, after) => after
  | none => cs

/-! ## Case and containment -/

/-- Lowers the twenty-six letters of ASCII and nothing else. -/
def lower (cs : List Char) : List Char := cs.map Char.toLower

/-- Whether the first text stands somewhere inside the second. The empty text always does. -/
def occursIn (piece : List Char) : List Char → Bool
  | [] => piece.isEmpty
  | c :: cs => piece.isPrefixOf (c :: cs) || occursIn piece cs

end RegionAtlas.Text
