/-
  Module names — which names tell a module, and which module that is.

  The reader takes a name apart in five steps, each at a first or a last character.  The format says
  nothing of positions.  It is a text made of pieces:

      decoration [ blanks  path  gap  base  blanks ] decoration

  where the path is trimmed and not empty, the gap is one blank or more, and the base is a
  hexadecimal numeral.  The brackets are the first that opens and the last that closes; a name
  without such brackets is all inside (`IsUndecorated`).

  1. The brackets are found where they stand (`undecorated_eq_iff`).
  2. The last blank of a trimmed text ends the gap (`split?_eq_some_iff`).  The base holds no blank
     and the path ends with none, so whatever blanks there are in the path, there is one way to
     cut the text.

  Hence a name tells a module exactly if it is of the format, and the module has the path that
  stands there (`names_tell_modules_by_format`).
-/
import Mathlib.Data.List.Basic
import RegionAtlas.Pairing.Module
import RegionAtlas.Proofs.Cutting
import RegionAtlas.Proofs.Numerals

namespace RegionAtlas.ModuleKey

open Text

section Format

variable {name inner before after text path gap base : List Char}

/-! ## 1. Brackets -/

/-- **What a name has between its brackets**, the first that opens and the last that closes. -/
structure Encloses (name before inner after : List Char) : Prop where
  eq : name = before ++ '[' :: (inner ++ ']' :: after)
  first : '[' ∉ before
  last : ']' ∉ after

/-- **What is left of a name without its decoration**: what its brackets enclose, or all of it if
they enclose nothing. -/
def IsUndecorated (name inner : List Char) : Prop :=
  (∃ before after, Encloses name before inner after) ∨
    (¬ ∃ before inside after, Encloses name before inside after) ∧ inner = name

/-- Brackets enclose what is found between them from the left and then from the right. -/
theorem encloses_iff :
    Encloses name before inner after ↔
      ∃ rest, splitFirst? (· == '[') name = some (before, rest) ∧
        splitLast? (· == ']') rest = some (inner, after) := by
  constructor
  · rintro ⟨heq, hfirst, hlast⟩
    exact ⟨_, splitFirst?_char.mpr ⟨heq, hfirst⟩, splitLast?_char.mpr ⟨rfl, hlast⟩⟩
  · rintro ⟨rest, hopen, hclose⟩
    obtain ⟨rfl, hfirst⟩ := splitFirst?_char.mp hopen
    obtain ⟨rfl, hlast⟩ := splitLast?_char.mp hclose
    exact ⟨rfl, hfirst, hlast⟩

theorem undecorated_of_encloses (h : Encloses name before inner after) :
    undecorated name = inner := by
  obtain ⟨rest, hopen, hclose⟩ := encloses_iff.mp h
  rw [undecorated, hopen]
  dsimp only
  rw [hclose]

theorem undecorated_of_bare (h : ¬ ∃ before inner after, Encloses name before inner after) :
    undecorated name = name := by
  unfold undecorated
  split
  · next before rest hopen =>
    split
    · next inner after hclose =>
      exact absurd ⟨before, inner, after, encloses_iff.mpr ⟨rest, hopen, hclose⟩⟩ h
    · rfl
  · rfl

/-- **The decoration is taken off**, if there is one. -/
theorem undecorated_eq_iff : undecorated name = inner ↔ IsUndecorated name inner := by
  by_cases h : ∃ before inside after, Encloses name before inside after
  · obtain ⟨before, inside, after, hinside⟩ := h
    constructor
    · rintro rfl
      refine .inl ⟨before, after, ?_⟩
      rwa [undecorated_of_encloses hinside]
    · rintro (⟨before', after', hinner⟩ | ⟨hbare, -⟩)
      · exact undecorated_of_encloses hinner
      · exact absurd ⟨before, inside, after, hinside⟩ hbare
  · rw [undecorated_of_bare h]
    constructor
    · rintro rfl
      exact .inr ⟨h, rfl⟩
    · rintro (⟨before, after, hinner⟩ | ⟨-, rfl⟩)
      · exact absurd ⟨before, inner, after, hinner⟩ h
      · rfl

/-! ## 2. The path and the base -/

/-- **A path, a gap of blanks, and a base without blanks**, which is a hexadecimal numeral. -/
structure PathAndBase (text path gap base : List Char) : Prop where
  eq : text = path ++ (gap ++ base)
  path_ne : path ≠ []
  trimmed : Trimmed path
  gap_ne : gap ≠ []
  blank : Blanks gap
  unbroken : ∀ c ∈ base, isBlank c = false
  numeral : ∃ a, HexNumeral base a

/-- **The last blank of a trimmed text is the last one of the gap** between the path and what holds
no blanks. -/
theorem split?_eq_some_iff (htext : Trimmed text) :
    split? text = some (path, base) ↔
      Trimmed path ∧ (∀ c ∈ base, isBlank c = false) ∧
        ∃ gap, gap ≠ [] ∧ Blanks gap ∧ text = path ++ (gap ++ base) := by
  rw [split?, Option.map_eq_some_iff]
  constructor
  · rintro ⟨⟨front, base'⟩, hcut, heq⟩
    obtain ⟨htrim, rfl⟩ := Prod.mk.inj heq
    obtain ⟨c, hc, rfl, hbase⟩ := splitLast?_eq_some_iff.mp hcut
    -- the text begins with the path, since it does not begin with a blank
    have hfront := trim_eq_iff.mp htrim
    obtain ⟨tail, htail, rfl⟩ := hfront.exists_tail fun d hd => htext.head d <| by
      rw [List.head?_append, hd, Option.some_or]
    have hgap : Blanks (tail ++ [c]) := htail.append fun d hd => List.mem_singleton.mp hd ▸ hc
    exact ⟨hfront.1, hbase, tail ++ [c], by simp, hgap, by simp⟩
  · rintro ⟨htrimmed, hbase, gap, hgap, hblank, rfl⟩
    obtain ⟨init, c, rfl⟩ := (List.eq_nil_or_concat' gap).resolve_left hgap
    have hinit : Blanks init := fun d hd => hblank d (List.mem_append_left _ hd)
    have htrim : trim (path ++ init) = path :=
      trim_eq_iff.mpr ⟨htrimmed, [], init, List.forall_mem_nil _, hinit, rfl⟩
    refine ⟨(path ++ init, base), ?_, congrArg (·, base) htrim⟩
    rw [splitLast?_eq_some_iff]
    exact ⟨c, hblank c (by simp), by simp, hbase⟩

/-- No hexadecimal digit is a blank. -/
theorem digit?_of_isBlank {c : Char} (h : isBlank c = true) : digit? 16 c = none := by
  by_cases hbig : 103 ≤ c.toNat
  · exact digit?_of_le hbig
  · have hall : ∀ n < 103, isBlank (Char.ofNat n) = true → digit? 16 (Char.ofNat n) = none := by
      decide +kernel
    have hc := hall c.toNat (by omega)
    rw [Char.ofNat_toNat] at hc
    exact hc h

theorem unbroken_of_hexNumeral {a : UInt64} (h : HexNumeral base a) :
    ∀ c ∈ base, isBlank c = false := by
  have hfront : ['x', 'X', '+'].any isBlank = false := by decide
  intro c hc
  by_contra hblank
  rw [Bool.not_eq_false] at hblank
  refine h.notMem (digit?_of_isBlank hblank) (fun hmem => ?_) hc
  exact List.any_eq_false.mp hfront c hmem hblank

theorem ne_nil_of_hexNumeral {a : UInt64} (h : HexNumeral base a) : base ≠ [] := by
  obtain ⟨mark, -, plus, -, ds, hds, rfl⟩ := h
  exact List.append_ne_nil_of_right_ne_nil _ (List.append_ne_nil_of_right_ne_nil _ hds.1)

/-- A path and a base have no blanks around them. -/
theorem PathAndBase.trimsTo (h : PathAndBase text path gap base) : TrimsTo text text := by
  obtain ⟨a, ha⟩ := h.numeral
  refine ⟨⟨fun c hc => ?_, fun c hc => ?_⟩, [], [], List.forall_mem_nil _, List.forall_mem_nil _,
    by simp⟩
  · rw [h.eq, List.head?_append_of_ne_nil _ h.path_ne] at hc
    exact h.trimmed.head c hc
  · rw [h.eq, ← List.append_assoc, List.getLast?_append_of_ne_nil _ (ne_nil_of_hexNumeral ha)] at hc
    exact h.unbroken c (List.mem_of_getLast? hc)

end Format

/-! ## The format -/

theorem ofName?_eq_some_iff_split? {name : String} {k : ModuleKey} :
    ofName? name = some k ↔
      ∃ base, split? (trim (undecorated name.toList)) = some (k.path.toList, base) ∧
        k.path.toList ≠ [] ∧ ∃ a, address? base = some a := by
  unfold ofName?
  split
  · next path base hsplit =>
    rw [hsplit]
    split
    · next hempty =>
      refine iff_of_false (fun h => nomatch h) ?_
      rintro ⟨base', heq, hpath, -⟩
      obtain ⟨rfl, -⟩ := Prod.mk.inj (Option.some.inj heq)
      exact hpath (List.isEmpty_iff.mp hempty)
    · next hsome =>
      rw [Option.map_eq_some_iff]
      constructor
      · rintro ⟨a, ha, rfl⟩
        rw [String.toList_ofList]
        exact ⟨base, rfl, fun hpath => hsome (List.isEmpty_iff.mpr hpath), a, ha⟩
      · rintro ⟨base', heq, -, a, ha⟩
        obtain ⟨rfl, rfl⟩ := Prod.mk.inj (Option.some.inj heq)
        exact ⟨a, ha, by rw [String.ofList_toList]⟩
  · next hnone =>
    rw [hnone]
    refine iff_of_false (fun h => nomatch h) ?_
    rintro ⟨base, heq, -⟩
    cases heq

/-- **A name tells a module exactly if it is of the format**, and it tells the one whose path stands
there. -/
theorem ofName?_eq_some_iff {name : String} {k : ModuleKey} :
    ofName? name = some k ↔
      ∃ inner text gap base, IsUndecorated name.toList inner ∧ TrimsTo inner text ∧
        PathAndBase text k.path.toList gap base := by
  rw [ofName?_eq_some_iff_split?]
  constructor
  · rintro ⟨base, hsplit, hpath, a, ha⟩
    have htext : TrimsTo (undecorated name.toList) (trim (undecorated name.toList)) :=
      trim_eq_iff.mp rfl
    obtain ⟨htrimmed, hbase, gap, hgap, hblank, heq⟩ := (split?_eq_some_iff htext.1).mp hsplit
    exact ⟨_, _, gap, base, undecorated_eq_iff.mp rfl, htext, heq, hpath, htrimmed, hgap, hblank,
      hbase, a, address?_eq_some_iff.mp ha⟩
  · rintro ⟨inner, text, gap, base, hinner, htext, hpieces⟩
    obtain ⟨a, ha⟩ := hpieces.numeral
    rw [undecorated_eq_iff.mpr hinner, trim_eq_iff.mpr htext]
    refine ⟨base, (split?_eq_some_iff htext.1).mpr ?_, hpieces.path_ne, a,
      address?_eq_some_iff.mpr ha⟩
    exact ⟨hpieces.trimmed, hpieces.unbroken, gap, hpieces.gap_ne, hpieces.blank, hpieces.eq⟩

/-- A path in brackets, with a marked base behind one blank. -/
theorem ofName?_bracketed {before path digits after : String} {a : UInt64}
    (hbefore : '[' ∉ before.toList) (hafter : ']' ∉ after.toList) (hpath : path ≠ "")
    (htrimmed : Trimmed path.toList) (hdigits : ReadsAs digits.toList a.toNat) :
    ofName? (before ++ "[" ++ path ++ " 0x" ++ digits ++ "]" ++ after) = some ⟨path⟩ := by
  have hnumeral : HexNumeral ('0' :: 'x' :: digits.toList) a :=
    ⟨['0', 'x'], by decide, [], by decide, digits.toList, hdigits, rfl⟩
  have hpieces : PathAndBase (path.toList ++ ([' '] ++ '0' :: 'x' :: digits.toList)) path.toList
      [' '] ('0' :: 'x' :: digits.toList) :=
    { eq := rfl
      path_ne := fun hnil => hpath (String.toList_eq_nil_iff.mp hnil)
      trimmed := htrimmed
      gap_ne := List.cons_ne_nil _ _
      blank := by decide
      unbroken := unbroken_of_hexNumeral hnumeral
      numeral := ⟨a, hnumeral⟩ }
  have hencloses : Encloses (before ++ "[" ++ path ++ " 0x" ++ digits ++ "]" ++ after).toList
      before.toList (path.toList ++ ([' '] ++ '0' :: 'x' :: digits.toList)) after.toList :=
    ⟨by simp, hbefore, hafter⟩
  exact ofName?_eq_some_iff.mpr
    ⟨_, _, _, _, .inl ⟨before.toList, after.toList, hencloses⟩, hpieces.trimsTo, hpieces⟩

/-- **Names tell modules by their format**: without its decoration and the blanks around it, a name
that tells a module is the path, a gap, and a base, and there is no other.  So a path may hold
blanks and brackets of its own; in brackets and with the digits of any word behind it, it is told
whatever stands around the brackets, as long as none that opens stands before them and none that
closes behind. -/
theorem names_tell_modules_by_format :
    (∀ name k, ofName? name = some k ↔
      ∃ inner text gap base, IsUndecorated name.toList inner ∧ TrimsTo inner text ∧
        PathAndBase text k.path.toList gap base) ∧
    (∀ (before path digits after : String) (a : UInt64),
      '[' ∉ before.toList → ']' ∉ after.toList → path ≠ "" → Trimmed path.toList →
        ReadsAs digits.toList a.toNat →
          ofName? (before ++ "[" ++ path ++ " 0x" ++ digits ++ "]" ++ after) = some ⟨path⟩) ∧
    (∀ a : UInt64, ReadsAs (hex a) a.toNat) := by
  refine ⟨fun name k => ofName?_eq_some_iff, ?_, readsAs_hex⟩
  intro before path digits after a hbefore hafter hpath htrimmed hdigits
  exact ofName?_bracketed hbefore hafter hpath htrimmed hdigits

/-- Brackets and blanks of the path's own are no part of the decoration. -/
example : ofName? "Memory[/opt/My App/a[1] 0x+00ff]" = some ⟨"/opt/My App/a[1]"⟩ := by cbv

end RegionAtlas.ModuleKey
