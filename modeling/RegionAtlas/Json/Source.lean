/-
  Sources — what JSON is read from: the characters of a document, and the bytes among them that
  belong to no character.

  A document that comes as a text has no such bytes.  One that comes as bytes may; they are kept
  apart, since they spoil only what they stand in.
-/

namespace RegionAtlas.Json

/-- A document as its characters; `none` stands for a byte that belongs to no character. -/
abbrev Source := List (Option Char)

namespace Source

/-- A text has no stray bytes. -/
def ofText (s : String) : Source := s.toList.map some

/-- The text of a document, unless some byte of it belongs to no character. -/
def text? (src : Source) : Option String := (src.mapM id).map String.ofList

/-- Nothing of a text is lost, so two texts are never one document. -/
theorem text?_ofText (s : String) : text? (ofText s) = some s := by
  rw [text?, ofText, List.mapM_map]
  show Option.map String.ofList (s.toList.mapM pure) = some s
  rw [List.mapM_pure]
  show some (String.ofList (s.toList.map id)) = some s
  rw [List.map_id, String.ofList_toList]

/-- Decodes from a position on: the longest well-formed character, or else one stray byte. -/
def decodeFrom (bytes : ByteArray) (start : Nat) : Source :=
  if start < bytes.size then
    match bytes.utf8DecodeChar? start with
    | some c => some c :: decodeFrom bytes (start + c.utf8Size)
    | none => none :: decodeFrom bytes (start + 1)
  else []
termination_by bytes.size - start
decreasing_by
  · have := Char.utf8Size_pos c
    omega
  · omega

/-- The document that some bytes are. -/
def ofBytes (bytes : ByteArray) : Source := decodeFrom bytes 0

/-- A text that starts at some position of a document is decoded character by character. -/
theorem decodeFrom_utf8Encode (before : ByteArray) (cs : List Char) :
    decodeFrom (before ++ cs.utf8Encode) before.size = cs.map some := by
  induction cs generalizing before with
  | nil =>
    rw [decodeFrom, if_neg (by simp)]
    rfl
  | cons c cs ih =>
    have hhead : (before ++ (c :: cs).utf8Encode).utf8DecodeChar? before.size = some c := by
      rw [ByteArray.utf8DecodeChar?_eq_utf8DecodeChar?_extract,
        ByteArray.extract_append_eq_right rfl ByteArray.size_append, List.utf8Encode_cons]
      exact List.utf8DecodeChar?_utf8Encode_singleton_append
    have hinside : before.size < (before ++ (c :: cs).utf8Encode).size :=
      ByteArray.lt_size_of_isSome_utf8DecodeChar? (by rw [hhead]; rfl)
    have hsize : before.size + c.utf8Size = (before ++ [c].utf8Encode).size := by
      rw [ByteArray.size_append, List.utf8Encode_singleton, List.size_toByteArray,
        String.length_utf8EncodeChar]
    have hrest := ih (before ++ [c].utf8Encode)
    rw [ByteArray.append_assoc, ← List.utf8Encode_cons, ← hsize] at hrest
    rw [decodeFrom, if_pos hinside, hhead, List.map_cons, ← hrest]

/-- **The bytes of a text are read as the text.** -/
theorem ofBytes_toUTF8 (s : String) : ofBytes s.toUTF8 = ofText s := by
  have h := decodeFrom_utf8Encode .empty s.toList
  rw [String.utf8Encode_toList, ByteArray.empty_append] at h
  exact h

/-- The number of bytes in a document. -/
def byteCount : Source → Nat
  | [] => 0
  | s :: rest => s.elim 1 Char.utf8Size + byteCount rest

/-- The four characters that may stand between tokens. -/
def isSpace (c : Char) : Bool := c == ' ' || c == '\n' || c == '\t' || c == '\r'

/-- Drops the space in front of the next token. -/
def skipSpace : Source → Source
  | some c :: rest => if isSpace c then skipSpace rest else some c :: rest
  | src => src

end Source

end RegionAtlas.Json
