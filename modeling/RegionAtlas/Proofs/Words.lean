/-
  Words — addresses, offsets, places and region numbers, as they are written and read.

  Four readers take a number out of a text, and each passes over something else in front of it: an
  address of a command line and an offset of a project file one `0x` or `0X`, the offset of a place
  any number of `0x` behind the last colon, the number of a region any number of `#`.

  1. **Addresses and offsets are the same texts** (`readAddress_eq_ok_iff`,
     `HexOffset.ofText?_eq_some_iff`): both are hexadecimal numerals, and nothing else is either.
     A word for an address has no colon in it, so it is never taken for a place.
  2. What is printed for a word is a row of digits, behind the mark or not
     (`hexNumeral_markedPaddedHex`).  No digit is a colon, an `x`, a plus sign or a `#`.  Hence the
     last colon in the text of a place is the one before its offset (`splitLast?_text`), and what a
     reader passes over is never part of the number.
-/
import RegionAtlas.Command.Perform
import RegionAtlas.Proofs.Cutting
import RegionAtlas.Proofs.Numerals

namespace RegionAtlas

open Text

/-! ## 1. Addresses and offsets -/

theorem readAddress_eq_ok_iff {word : String} {a : UInt64} :
    readAddress word = .ok a ↔ HexNumeral word.toList a := by
  rw [← address?_eq_some_iff, readAddress]
  cases address? word.toList with
  | none => exact ⟨fun h => (nomatch h), fun h => (nomatch h)⟩
  | some n => exact ⟨fun h => by cases h; rfl, fun h => by cases h; rfl⟩

theorem HexOffset.ofText?_eq_some_iff {s : String} {o : HexOffset} :
    ofText? s = some o ↔ HexNumeral s.toList o.value := by
  rw [← address?_eq_some_iff, ofText?, Option.map_eq_some_iff]
  constructor
  · rintro ⟨a, ha, rfl⟩
    exact ha
  · exact fun ha => ⟨o.value, ha, rfl⟩

/-- **The two readers agree**: they read the same number, or both refuse, the one by saying why. -/
theorem readAddress_ofText? (s : String) :
    (∃ a, readAddress s = .ok a ∧ HexOffset.ofText? s = some ⟨a⟩) ∨
      readAddress s = .error (.badAddress s) ∧ HexOffset.ofText? s = none := by
  rw [readAddress, HexOffset.ofText?]
  cases address? s.toList with
  | none => exact .inr ⟨rfl, rfl⟩
  | some a => exact .inl ⟨a, rfl, rfl⟩

/-- **A word for a trace address is never taken for a place.** -/
theorem colon_notMem_of_readAddress {word : String} {a : UInt64} (h : readAddress word = .ok a) :
    ':' ∉ word.toList :=
  (readAddress_eq_ok_iff.mp h).notMem (by decide) (by decide)

/-! ## 2. What is printed -/

theorem HexOffset.ofText?_text (o : HexOffset) : ofText? o.text = some o := by
  rw [ofText?_eq_some_iff, text, String.toList_ofList]
  exact hexNumeral_markedPaddedHex o.value

/-- What is printed for a trace address is a word for it. -/
theorem readAddress_hexText (a : UInt64) : readAddress (Report.hexText a) = .ok a := by
  rw [readAddress_eq_ok_iff, Report.hexText, String.toList_ofList]
  exact (readsAs_hex a).hexNumeral

namespace StaticAddress

theorem toList_text (x : StaticAddress) :
    x.text.toList = x.space.toList ++ ':' :: paddedHex x.offset := by
  have hoffset : (String.ofList (paddedHex x.offset)).toList = paddedHex x.offset :=
    String.toList_ofList
  rw [text, String.toList_append, String.toList_append, hoffset, List.append_assoc]
  rfl

/-- The last colon in the text of a place is the one before its offset. -/
theorem splitLast?_text (x : StaticAddress) :
    splitLast? (· == ':') x.text.toList = some (x.space.toList, paddedHex x.offset) :=
  splitLast?_char.mpr ⟨x.toList_text, (readsAs_paddedHex x.offset).notMem (by decide)⟩

theorem text_injective {x y : StaticAddress} (h : x.text = y.text) : x = y := by
  have hsplit := x.splitLast?_text
  rw [h, splitLast?_text] at hsplit
  obtain ⟨hspace, hoffset⟩ := Prod.mk.inj (Option.some.inj hsplit)
  have hword := word?_paddedHex y.offset
  rw [hoffset, word?_paddedHex] at hword
  cases x
  cases y
  exact congrArg₂ mk (String.toList_injective hspace.symm) (Option.some.inj hword)

/-- **The text of a place is read as that place**, if its space has a name. -/
theorem ofText?_text {x : StaticAddress} (h : x.space ≠ "") : ofText? x.text = some x := by
  have hplain : dropHexMarks (paddedHex x.offset) = paddedHex x.offset :=
    dropHexMarks_of_notMem ((readsAs_paddedHex x.offset).notMem (by decide))
  rw [ofText?, splitLast?_text]
  cases hspace : x.space.toList with
  | nil => exact absurd (String.toList_eq_nil_iff.mp hspace) h
  | cons c rest =>
    dsimp only
    rw [hplain, word?_paddedHex, ← hspace, String.ofList_toList]
    rfl

/-- A place whose space has no name is written as a text that is no place. -/
theorem ofText?_text_eq_none {x : StaticAddress} (h : x.space = "") : ofText? x.text = none := by
  rw [ofText?, splitLast?_text, h]
  rfl

theorem colon_mem_text (x : StaticAddress) : ':' ∈ x.text.toList := by
  rw [toList_text]
  exact List.mem_append_right _ List.mem_cons_self

end StaticAddress

/-- **The text of a region's number is read as that number.** -/
theorem RegionId.ofText?_text (id : RegionId) : ofText? id.text = some id := by
  have hdigits : digits? 10 0 (Nat.toDigits 10 id.raw.toNat) = some id.raw.toNat :=
    digits?_toDigits (by decide) (by decide) id.raw.toNat
  have htext : id.text.toList = '#' :: Nat.toDigits 10 id.raw.toNat := by
    have hnumber : (decimal id.raw.toNat).toList = Nat.toDigits 10 id.raw.toNat := by
      rw [decimal, Nat.repr_eq_ofList_toDigits, String.toList_ofList]
    rw [text, String.toList_append, hnumber]
    rfl
  -- only the mark in front is passed over, for it is no digit
  have hdropped : id.text.toList.dropWhile (· == '#') = Nat.toDigits 10 id.raw.toNat := by
    rw [htext, List.dropWhile_cons_of_pos (by decide), List.dropWhile_eq_self_iff]
    intro hsome hmark
    exact notMem_of_digits? hdigits (by decide) (beq_iff_eq.mp hmark ▸ List.getElem_mem hsome)
  rw [ofText?, hdropped, word?_toDigits (by decide) (by decide)]
  rfl

/-! ## Reading what was printed -/

/-- **Numbers are read by one grammar, and as they were printed.**  An address of a command line and
an offset of a project file are the hexadecimal numerals, with the number that such a numeral is of;
the two readers agree on every text.  Both read what is printed for a word, with the mark and
without.  The text of a place is read as the place exactly if its space has a name, whatever colons
there are in it, and the text of a region's number as the number. -/
theorem numbers_read_as_printed :
    (∀ (s : String) (a : UInt64), readAddress s = .ok a ↔ HexNumeral s.toList a) ∧
    (∀ (s : String) (o : HexOffset),
      HexOffset.ofText? s = some o ↔ HexNumeral s.toList o.value) ∧
    (∀ s : String, (∃ a, readAddress s = .ok a ∧ HexOffset.ofText? s = some ⟨a⟩) ∨
      readAddress s = .error (.badAddress s) ∧ HexOffset.ofText? s = none) ∧
    (∀ n : UInt64, ∀ printed ∈ [markedPaddedHex n, paddedHex n],
      readAddress (String.ofList printed) = .ok n ∧
        HexOffset.ofText? (String.ofList printed) = some ⟨n⟩) ∧
    (∀ x : StaticAddress, StaticAddress.ofText? x.text = some x ↔ x.space ≠ "") ∧
    (∀ id : RegionId, readRegionId id.text = .ok id) := by
  refine ⟨fun s a => readAddress_eq_ok_iff, fun s o => HexOffset.ofText?_eq_some_iff,
    readAddress_ofText?, ?_, ?_, ?_⟩
  · intro n printed hprinted
    have hnumeral : HexNumeral printed n := by
      rcases List.mem_pair.mp hprinted with rfl | rfl
      · exact hexNumeral_markedPaddedHex n
      · exact (readsAs_paddedHex n).hexNumeral
    rw [readAddress_eq_ok_iff, HexOffset.ofText?_eq_some_iff, String.toList_ofList]
    exact ⟨hnumeral, hnumeral⟩
  · intro x
    constructor
    · intro h hnameless
      rw [StaticAddress.ofText?_text_eq_none hnameless] at h
      cases h
    · exact StaticAddress.ofText?_text
  · intro id
    rw [readRegionId, RegionId.ofText?_text]

/-- Digits are taken in either case, and what is passed over once is not passed over twice. -/
example : (readAddress "0X+00ffFF").toOption = some 0xffff ∧
    (readAddress "0x0x1").toOption = none := by
  decide

end RegionAtlas
