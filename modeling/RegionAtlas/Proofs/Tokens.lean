/-
  Tokens — literals, numbers and strings are read as they were written.

  A writer chooses among many spellings and a reader has to understand every one of them, so the two
  share no definition.  They meet token by token, and for each the statement has the same form: put
  what was written in front of anything, and reading takes off what was written and leaves the rest.

  1. Space is passed over, and a literal is matched character by character.
  2. Digits are taken as long as there are any, so a number is told from what follows only if that
     does not go on as a number would (`Source.EndsNumber`).  It has no zero in front
     (`head?_toDigits`), which is what the reader insists on.
  3. A character of a string is written in one of four ways (`scanString_escape`).  Only control
     characters are written by their number, and those are no surrogates, so each piece stands for
     one character (`assemble_pieces`).
-/
import Mathlib.Data.List.Basic
import RegionAtlas.Json.Node
import RegionAtlas.Json.Value

namespace RegionAtlas

namespace Json

/-! ## 1. Space and literals -/

/-- Space is passed over up to what is none, however much there is of it. -/
theorem skipSpace_append {gap : List Char} (hgap : ∀ c ∈ gap, Source.isSpace c = true)
    (src : Source) : Source.skipSpace (gap.map some ++ src) = Source.skipSpace src := by
  induction gap with
  | nil => rfl
  | cons c rest ih =>
    show Source.skipSpace (some c :: (rest.map some ++ src)) = _
    rw [Source.skipSpace, if_pos (hgap c List.mem_cons_self)]
    exact ih fun d hd => hgap d (List.mem_cons_of_mem _ hd)

/-- Nothing but space is passed over. -/
theorem skipSpace_cons {c : Char} (h : Source.isSpace c = false) (src : Source) :
    Source.skipSpace (some c :: src) = some c :: src := by
  rw [Source.skipSpace, h]
  rfl

/-- A literal is read as its node, and what follows it is left, even where that would go on as a
word. -/
theorem readLiteral_append (node : Node) (cs : List Char) (src : Source) :
    readLiteral node cs (cs.map some ++ src) = (node, some src) := by
  induction cs with
  | nil => cases src <;> rfl
  | cons c rest ih =>
    show readLiteral node (c :: rest) (some c :: (rest.map some ++ src)) = _
    rw [readLiteral, if_pos rfl, ih]

/-! ## 2. Numbers -/

/-- What follows a number without going on as a number would. -/
def Source.EndsNumber : Source → Prop
  | some c :: _ => isDigit c = false ∧ c ≠ '.' ∧ c ≠ 'e' ∧ c ≠ 'E'
  | _ => True

/-- All the digits are taken and nothing behind them, since what follows is no digit. -/
theorem takeDigits_append {ds : List Char} (hds : ∀ c ∈ ds, isDigit c = true) {src : Source}
    (hsrc : src.EndsNumber) : takeDigits (ds.map some ++ src) = (ds, src) := by
  induction ds with
  | nil =>
    match src, hsrc with
    | [], _ => rfl
    | none :: _, _ => rfl
    | some c :: _, h =>
      rw [List.map_nil, List.nil_append, takeDigits, h.1]
      rfl
  | cons c rest ih =>
    show takeDigits (some c :: (rest.map some ++ src)) = _
    rw [takeDigits, if_pos (hds c List.mem_cons_self),
      ih fun d hd => hds d (List.mem_cons_of_mem _ hd)]

/-- Where neither a fraction nor an exponent follows, a number stays what it was. -/
theorem readNumberEnd_of_endsNumber (whole : Node) {src : Source} (hsrc : src.EndsNumber) :
    readNumberEnd whole src = (whole, some src) := by
  unfold readNumberEnd
  split
  · exact absurd rfl hsrc.2.1
  · exact absurd rfl hsrc.2.2.1
  · exact absurd rfl hsrc.2.2.2
  · rfl

/-- What the writer takes for digits, the reader does too. -/
theorem isDigit_of_mem_toDigits {n : Nat} {c : Char} (h : c ∈ Nat.toDigits 10 n) :
    isDigit c = true := by
  have hdigit : c.isDigit = true := Nat.isDigit_of_mem_toDigits (by decide) (by decide) h
  rw [Char.isDigit, Bool.and_eq_true, decide_eq_true_eq, decide_eq_true_eq] at hdigit
  rw [isDigit, Bool.and_eq_true, decide_eq_true_eq, decide_eq_true_eq]
  exact hdigit

/-- The reader gives digits the value that they were written for. -/
theorem digitsValue_toDigits (n : Nat) : digitsValue (Nat.toDigits 10 n) = n := by
  have hvalue : Nat.ofDigitChars 10 (Nat.toDigits 10 n) 0 = n :=
    Nat.ofDigitChars_toDigits (by decide) (by decide)
  simp only [Nat.ofDigitChars_eq_foldl, Nat.mul_comm 10] at hvalue
  exact hvalue

/-- A number other than zero has no zero in front. -/
theorem head?_toDigits {n : Nat} (hpos : 0 < n) : (Nat.toDigits 10 n).head? ≠ some '0' := by
  induction n using Nat.strongRecOn with
  | ind n ih =>
    rw [Nat.toDigits_eq_if (by decide)]
    split
    · next hlt =>
      have hdigits : ∀ k < 10, 0 < k → [Nat.digitChar k].head? ≠ some '0' := by decide
      exact hdigits n hlt hpos
    · next hge =>
      have hbefore := ih (n / 10) (Nat.div_lt_self hpos (by decide))
        (Nat.div_pos (Nat.le_of_not_lt hge) (by decide))
      rw [List.head?_append_of_ne_nil _ Nat.toDigits_ne_nil]
      exact hbefore

/-- **A number is read as it was written**, up to its end, with the sign that was read before it. -/
theorem readNumber_toDigits (negative : Bool) (n : Nat) {src : Source} (hsrc : src.EndsNumber) :
    readNumber negative ((Nat.toDigits 10 n).map some ++ src) = (signed negative n, some src) := by
  have htaken := takeDigits_append (fun _ => isDigit_of_mem_toDigits (n := n)) hsrc
  have hvalue := digitsValue_toDigits n
  unfold readNumber
  rw [htaken]
  split
  · next hnil => exact absurd (congrArg Prod.fst hnil) Nat.toDigits_ne_nil
  · next hzero =>
    obtain ⟨hdigits, rfl⟩ := Prod.mk.injEq .. ▸ hzero
    rw [hdigits] at hvalue
    rw [← hvalue, readNumberEnd_of_endsNumber _ hsrc]
    rfl
  · next hzeros =>
    have hdigits := congrArg Prod.fst hzeros
    rcases Nat.eq_zero_or_pos n with rfl | hpos
    · cases hdigits
    · exact absurd (by rw [show Nat.toDigits 10 n = _ from hdigits]; rfl) (head?_toDigits hpos)
  · next hsome =>
    obtain ⟨rfl, rfl⟩ := Prod.mk.injEq .. ▸ hsome
    rw [hvalue, readNumberEnd_of_endsNumber _ hsrc]

/-! ## 3. Strings -/

/-- What a character of a string is read as when it was written: control characters without a letter
of their own come as units. -/
def pieceOf (c : Char) : Piece :=
  if c.toNat < 0x20 ∧ c.toNat ∉ [8, 9, 10, 12, 13] then .unit c.toNat else .char c

/-- The four digits of a control character, which are read as its number. -/
theorem controlDigits_spec {c : Char} (h : c.toNat < 0x20) :
    ∃ x y, controlDigits c = ['0', '0', x, y] ∧
      unit? (some '0') (some '0') (some x) (some y) = some c.toNat := by
  have hall : ∀ n < 0x20, (Nat.toDigits 16 n).leftpad 4 '0' =
      ['0', '0', Nat.digitChar (n / 16), Nat.digitChar (n % 16)] ∧
      unit? (some '0') (some '0') (some (Nat.digitChar (n / 16)))
        (some (Nat.digitChar (n % 16))) = some n := by
    decide
  exact ⟨_, _, hall c.toNat h⟩

/-- All other characters stand for themselves. -/
theorem pieceOf_of_not_control {c : Char} (h : ¬ c.toNat < 0x20) : pieceOf c = .char c :=
  if_neg fun hc => h hc.1

/-- **A character is read as its piece**, however it was written. -/
theorem scanString_escape (c : Char) (src : Source) :
    scanString ((escape c).map some ++ src) = (scanString src).cons (pieceOf c) := by
  have hnumber : ∀ n, c.toNat = n → c = Char.ofNat n := by
    rintro n rfl
    exact (Char.ofNat_toNat c).symm
  unfold escape
  split
  · next h => subst h; rfl
  split
  · next h => subst h; rfl
  split
  · next h => rw [hnumber 8 h]; rfl
  split
  · next h => rw [hnumber 9 h]; rfl
  split
  · next h => rw [hnumber 10 h]; rfl
  split
  · next h => rw [hnumber 12 h]; rfl
  split
  · next h => rw [hnumber 13 h]; rfl
  next hquote hslash h8 h9 h10 h12 h13 =>
  split
  · next hcontrol =>
    obtain ⟨x, y, hdigits, hunit⟩ := controlDigits_spec hcontrol
    have hpiece : pieceOf c = .unit c.toNat := by
      refine if_pos ⟨hcontrol, ?_⟩
      simp only [List.mem_cons, List.not_mem_nil, h8, h9, h10, h12, h13, or_self, not_false_eq_true]
    rw [hdigits, hpiece]
    show scanString (some '\\' :: some 'u' :: some '0' :: some '0' :: some x :: some y :: src) = _
    rw [scanString, hunit]
  · next hplain =>
    rw [pieceOf_of_not_control hplain]
    show scanString (some c :: src) = _
    rw [scanString]
    · rw [if_neg hquote, if_neg hplain]
    -- no escape begins here
    all_goals
      intros
      exact hslash ‹_›

/-- All the characters of a string are read one by one, up to the quote that ends it. -/
theorem scanString_escapes (cs : List Char) (src : Source) :
    scanString ((cs.flatMap escape ++ ['"']).map some ++ src) = ⟨cs.map pieceOf, .ok src⟩ := by
  induction cs with
  | nil => rfl
  | cons c rest ih =>
    rw [List.flatMap_cons, List.append_assoc, List.map_append, List.append_assoc,
      scanString_escape, ih]
    rfl

/-- The pieces go together again as the characters, since no number among them is half of a pair. -/
theorem assemble_pieces (cs : List Char) : assemble (cs.map pieceOf) = some cs := by
  induction cs with
  | nil => rfl
  | cons c rest ih =>
    rw [List.map_cons, pieceOf]
    split
    · next hcontrol =>
      have hlow : isLowSurrogate c.toNat = false := by
        rw [isLowSurrogate, decide_eq_false (by omega), Bool.false_and]
      have hhigh : isHighSurrogate c.toNat = false := by
        rw [isHighSurrogate, decide_eq_false (by omega), Bool.false_and]
      rw [assemble.eq_def]
      simp only [hlow, hhigh, Bool.false_eq_true, if_false, ih, Char.ofNat_toNat, Option.map_some]
    · rw [assemble.eq_def]
      simp only [ih, Option.map_some]

/-- **A string is read as it was written.** -/
theorem readString_quoted (s : String) (src : Source) :
    readString ((s.toList.flatMap escape ++ ['"']).map some ++ src) = .ok (some s, src) := by
  rw [readString, scanString_escapes]
  simp only [assemble_pieces, Option.map_some, String.ofList_toList]

end Json

end RegionAtlas
