/-
  Numerals — the texts that are hexadecimal numbers, and which number each of them is.

  A digit is a place in the row of the sixteen, in either case (`HexDigit`).  A row of digits is the
  number of which they are the digits in base sixteen, the last one the lowest (`ReadsAs`).  A
  numeral may have the mark `0x` or `0X` in front of its digits, and between the two one plus sign;
  there may be any number of zeros, and the number is a word (`HexNumeral`).

  1. Reading by digits takes rows of digits and nothing else (`natural?_eq_some_iff`).
  2. **An address is read exactly from a numeral** (`address?_eq_some_iff`).  No digit is an `x` or
     a plus sign, so what is dropped in front is never part of the digits.
  3. What is printed is a row of digits, padded with zeros or not (`readsAs_hex`); and in every base
     up to sixteen, digits that are printed are read as the word they were printed for
     (`word?_toDigits`).
-/
import Mathlib.Data.List.Basic
import Mathlib.Data.Nat.Digits.Defs
import RegionAtlas.Text.Radix

namespace RegionAtlas.Text

/-! ## 1. Digits -/

/-- The character is the digit of that value, in lower or in upper case. -/
def HexDigit (c : Char) (v : Nat) : Prop :=
  "0123456789abcdef".toList[v]? = some c ∨ "0123456789ABCDEF".toList[v]? = some c

instance (c : Char) (v : Nat) : Decidable (HexDigit c v) :=
  inferInstanceAs (Decidable (_ ∨ _))

theorem digit?_of_le {c : Char} (h : 103 ≤ c.toNat) : digit? 16 c = none := by
  have hdecimal : ¬ (48 ≤ c.toNat ∧ c.toNat ≤ 57) := by omega
  have hlower : ¬ (97 ≤ c.toNat ∧ c.toNat ≤ 102) := by omega
  have hupper : ¬ (65 ≤ c.toNat ∧ c.toNat ≤ 70) := by omega
  simp only [digit?, hdecimal, hlower, hupper, if_false, Nat.lt_irrefl]

/-- **Read as a digit** is what is one of the sixteen. -/
theorem digit?_eq_some_iff {c : Char} {v : Nat} : digit? 16 c = some v ↔ HexDigit c v := by
  constructor
  · intro h
    have hascii : c.toNat < 103 := by
      by_contra hbig
      rw [digit?_of_le (by omega)] at h
      cases h
    have hall : ∀ n < 103, ∀ v ∈ digit? 16 (Char.ofNat n), HexDigit (Char.ofNat n) v := by
      decide +kernel
    have hc := hall c.toNat hascii v
    rw [Char.ofNat_toNat] at hc
    exact hc h
  · have hlower : ∀ v < 16, "0123456789abcdef".toList[v]?.map (digit? 16) = some (some v) := by
      decide +kernel
    have hupper : ∀ v < 16, "0123456789ABCDEF".toList[v]?.map (digit? 16) = some (some v) := by
      decide +kernel
    rintro (h | h)
    · have hv := hlower v (List.getElem?_eq_some_iff.mp h).1
      rwa [h, Option.map_some, Option.some.injEq] at hv
    · have hv := hupper v (List.getElem?_eq_some_iff.mp h).1
      rwa [h, Option.map_some, Option.some.injEq] at hv

/-- Digits go on from what was read before them, as if that were one digit more at the top. -/
theorem digits?_eq_some_iff {acc n : Nat} {cs : List Char} :
    digits? 16 acc cs = some n ↔
      ∃ vs, List.Forall₂ HexDigit cs vs ∧ n = Nat.ofDigits 16 (vs.reverse ++ [acc]) := by
  induction cs generalizing acc with
  | nil =>
    rw [digits?, Option.some.injEq]
    constructor
    · rintro rfl
      exact ⟨[], .nil, Nat.ofDigits_singleton.symm⟩
    · rintro ⟨vs, hvs, rfl⟩
      cases hvs
      exact Nat.ofDigits_singleton.symm
  | cons c rest ih =>
    have hcarry : ∀ (v : Nat) (vs : List Nat),
        Nat.ofDigits 16 (vs.reverse ++ [acc * 16 + v]) =
          Nat.ofDigits 16 ((v :: vs).reverse ++ [acc]) := by
      intro v vs
      have htop : Nat.ofDigits 16 [acc * 16 + v] = Nat.ofDigits 16 [v, acc] := by
        rw [Nat.ofDigits_singleton, Nat.ofDigits_cons, Nat.ofDigits_singleton]
        omega
      rw [List.reverse_cons, List.append_assoc, Nat.ofDigits_append, Nat.ofDigits_append, htop]
      rfl
    rw [digits?, Option.bind_eq_some_iff]
    constructor
    · rintro ⟨v, hv, hrest⟩
      obtain ⟨vs, hvs, rfl⟩ := ih.mp hrest
      exact ⟨v :: vs, .cons (digit?_eq_some_iff.mp hv) hvs, hcarry v vs⟩
    · rintro ⟨_, hdigits, rfl⟩
      cases hdigits with
      | cons hv hvs =>
        exact ⟨_, digit?_eq_some_iff.mpr hv, ih.mpr ⟨_, hvs, (hcarry _ _).symm⟩⟩

/-- Whatever is read as digits holds no other character. -/
theorem notMem_of_digits? {base acc n : Nat} {cs : List Char} (h : digits? base acc cs = some n)
    {c : Char} (hc : digit? base c = none) : c ∉ cs := by
  induction cs generalizing acc with
  | nil => exact List.not_mem_nil
  | cons d rest ih =>
    rw [digits?] at h
    obtain ⟨k, hk, hrest⟩ := Option.bind_eq_some_iff.mp h
    refine List.not_mem_cons_of_ne_of_not_mem ?_ (ih hrest)
    rintro rfl
    rw [hc] at hk
    cases hk

/-- **One or more digits, and the number that they are the digits of**, the last one the lowest. -/
def ReadsAs (cs : List Char) (n : Nat) : Prop :=
  cs ≠ [] ∧ ∃ vs, List.Forall₂ HexDigit cs vs ∧ n = Nat.ofDigits 16 vs.reverse

section Grammar

variable {cs ds : List Char} {n : Nat} {a : UInt64}

theorem readsAs_iff : ReadsAs cs n ↔ cs ≠ [] ∧ digits? 16 0 cs = some n := by
  rw [digits?_eq_some_iff]
  simp only [Nat.ofDigits_append_zero]
  rfl

theorem natural?_eq_some_iff : natural? 16 cs = some n ↔ ReadsAs cs n := by
  rw [readsAs_iff]
  cases cs with
  | nil => simp [natural?]
  | cons c rest => simp [natural?]

/-- A row of digits has neither a sign nor a mark in it. -/
theorem ReadsAs.notMem (h : ReadsAs ds n) {c : Char} (hc : digit? 16 c = none) : c ∉ ds :=
  notMem_of_digits? (readsAs_iff.mp h).2 hc

/-! ## 2. Numerals -/

/-- **A hexadecimal numeral**: a mark or none, a plus sign or none, and the digits of a word. -/
def HexNumeral (cs : List Char) (a : UInt64) : Prop :=
  ∃ mark ∈ [[], ['0', 'x'], ['0', 'X']], ∃ plus ∈ [[], ['+']], ∃ ds,
    ReadsAs ds a.toNat ∧ cs = mark ++ (plus ++ ds)

/-- It is made of digits, and of the letters and the sign that may stand in front of them. -/
theorem HexNumeral.notMem (h : HexNumeral cs a) {c : Char} (hdigit : digit? 16 c = none)
    (hfront : c ∉ ['x', 'X', '+']) : c ∉ cs := by
  have hall : ∀ mark ∈ [[], ['0', 'x'], ['0', 'X']], ∀ plus ∈ [[], ['+']],
      (mark ++ plus).all (['0', 'x', 'X', '+'].contains ·) = true := by decide
  obtain ⟨mark, hmark, plus, hplus, ds, hds, rfl⟩ := h
  intro hc
  rw [← List.append_assoc] at hc
  rcases List.mem_append.mp hc with hc | hc
  · have hlisted := List.all_eq_true.mp (hall mark hmark plus hplus) c hc
    rcases List.mem_cons.mp (List.contains_iff_mem.mp hlisted) with rfl | hc
    · cases hdigit
    · exact hfront hc
  · exact hds.notMem hdigit hc

theorem dropPlus_of_notMem (h : '+' ∉ cs) : dropPlus cs = cs := by
  unfold dropPlus
  split
  · exact absurd List.mem_cons_self h
  · rfl

theorem dropHexMark_of_notMem (hx : 'x' ∉ cs) (hX : 'X' ∉ cs) : dropHexMark cs = cs := by
  unfold dropHexMark
  split
  · exact absurd (List.mem_cons_of_mem _ List.mem_cons_self) hx
  · exact absurd (List.mem_cons_of_mem _ List.mem_cons_self) hX
  · rfl

theorem dropHexMarks_of_notMem (hx : 'x' ∉ cs) : dropHexMarks cs = cs := by
  unfold dropHexMarks
  split
  · exact absurd (List.mem_cons_of_mem _ List.mem_cons_self) hx
  · rfl

/-- A number below the bound is read as the word that it is, in every base. -/
theorem word?_eq_some_iff_natural? {base : Nat} :
    word? base cs = some a ↔ natural? base (dropPlus cs) = some a.toNat := by
  rw [word?, Option.bind_eq_some_iff]
  constructor
  · rintro ⟨n, hn, hword⟩
    split at hword
    · next hlt =>
      rw [← Option.some.inj hword, hn, UInt64.toNat_ofNat_of_lt' hlt]
    · cases hword
  · intro h
    exact ⟨a.toNat, h, by rw [if_pos a.toNat_lt, UInt64.ofNat_toNat]⟩

/-- **A word is read exactly from its digits**, with or without a plus sign in front. -/
theorem word?_eq_some_iff :
    word? 16 cs = some a ↔
      ∃ plus ∈ [[], ['+']], ∃ ds, ReadsAs ds a.toNat ∧ cs = plus ++ ds := by
  rw [word?_eq_some_iff_natural?, natural?_eq_some_iff]
  constructor
  · intro h
    unfold dropPlus at h
    split at h
    · next ds => exact ⟨['+'], by decide, ds, h, rfl⟩
    · exact ⟨[], by decide, cs, h, rfl⟩
  · rintro ⟨plus, hplus, ds, hds, rfl⟩
    rcases List.mem_pair.mp hplus with rfl | rfl
    · rw [List.nil_append, dropPlus_of_notMem (hds.notMem (by decide))]
      exact hds
    · exact hds

/-- **An address is read exactly from a numeral.** -/
theorem address?_eq_some_iff : address? cs = some a ↔ HexNumeral cs a := by
  rw [address?, word?_eq_some_iff]
  constructor
  · rintro ⟨plus, hplus, ds, hds, hcs⟩
    unfold dropHexMark at hcs
    split at hcs
    · exact ⟨['0', 'x'], by decide, plus, hplus, ds, hds, by rw [hcs]; rfl⟩
    · exact ⟨['0', 'X'], by decide, plus, hplus, ds, hds, by rw [hcs]; rfl⟩
    · exact ⟨[], by decide, plus, hplus, ds, hds, hcs⟩
  · rintro ⟨mark, hmark, plus, hplus, ds, hds, rfl⟩
    refine ⟨plus, hplus, ds, hds, ?_⟩
    rcases List.mem_cons.mp hmark with rfl | hmark
    · have hnone : ∀ c, digit? 16 c = none → c ≠ '+' → c ∉ plus ++ ds := by
        intro c hc hsign hmem
        rcases List.mem_append.mp hmem with hmem | hmem
        · rcases List.mem_pair.mp hplus with rfl | rfl
          · cases hmem
          · exact hsign (List.mem_singleton.mp hmem)
        · exact hds.notMem hc hmem
      exact dropHexMark_of_notMem (hnone 'x' (by decide) (by decide))
        (hnone 'X' (by decide) (by decide))
    · rcases List.mem_pair.mp hmark with rfl | rfl
      · rfl
      · rfl

end Grammar

/-! ## 3. What is printed -/

theorem digits?_append (base acc : Nat) (xs ys : List Char) :
    digits? base acc (xs ++ ys) = (digits? base acc xs).bind fun n => digits? base n ys := by
  induction xs generalizing acc with
  | nil => rfl
  | cons c rest ih =>
    rw [List.cons_append, digits?, digits?]
    cases digit? base c with
    | none => rfl
    | some d => exact ih _

/-- The digit for a value is read as that value, in every base that has it. -/
theorem digit?_digitChar {base k : Nat} (hbase : base ≤ 16) (hk : k < base) :
    digit? base (Nat.digitChar k) = some k := by
  have hall : ∀ b < 17, ∀ k < b, digit? b (Nat.digitChar k) = some k := by decide
  exact hall base (by omega) k hk

/-- **The digits of a number are read as that number**, in every base up to sixteen. -/
theorem digits?_toDigits {base : Nat} (hone : 1 < base) (hbase : base ≤ 16) (n : Nat) :
    digits? base 0 (Nat.toDigits base n) = some n := by
  induction n using Nat.strongRecOn with
  | ind n ih =>
    rw [Nat.toDigits_eq_if hone]
    split
    · next hlt =>
      rw [digits?, digit?_digitChar hbase hlt]
      show some (0 * base + n) = some n
      rw [Nat.zero_mul, Nat.zero_add]
    · next hge =>
      rw [digits?_append, ih (n / base) (Nat.div_lt_self (by omega) hone), Option.bind_some,
        digits?, digit?_digitChar hbase (Nat.mod_lt n (by omega))]
      show some (n / base * base + n % base) = some n
      rw [Nat.div_add_mod']

/-- A plus sign is no digit of any base. -/
theorem digit?_plus (base : Nat) : digit? base '+' = none := by
  show (if base < base then some base else none) = none
  rw [if_neg (Nat.lt_irrefl base)]

/-- **The digits of a word are read as that word**, with no sign to be dropped in front. -/
theorem word?_toDigits {base : Nat} (hone : 1 < base) (hbase : base ≤ 16) (n : UInt64) :
    word? base (Nat.toDigits base n.toNat) = some n := by
  have hdigits : digits? base 0 (Nat.toDigits base n.toNat) = some n.toNat :=
    digits?_toDigits hone hbase n.toNat
  rw [word?_eq_some_iff_natural?, dropPlus_of_notMem (notMem_of_digits? hdigits (digit?_plus base))]
  unfold natural?
  split
  · next hnil => exact absurd hnil Nat.toDigits_ne_nil
  · exact hdigits

/-- Zeros in front add nothing. -/
theorem digits?_zeros (k : Nat) (cs : List Char) :
    digits? 16 0 (List.replicate k '0' ++ cs) = digits? 16 0 cs := by
  induction k with
  | zero => rfl
  | succ k ih => exact ih

/-- **What is printed is a row of digits**, of the number that it is printed for. -/
theorem readsAs_hex (n : UInt64) : ReadsAs (hex n) n.toNat :=
  readsAs_iff.mpr ⟨Nat.toDigits_ne_nil, digits?_toDigits (by decide) (by decide) n.toNat⟩

/-- So is what is padded with zeros. -/
theorem readsAs_paddedHex (n : UInt64) : ReadsAs (paddedHex n) n.toNat := by
  obtain ⟨hsome, hdigits⟩ := readsAs_iff.mp (readsAs_hex n)
  rw [readsAs_iff, paddedHex, List.leftpad, digits?_zeros]
  exact ⟨List.append_ne_nil_of_right_ne_nil _ hsome, hdigits⟩

/-- A row of digits is a numeral. -/
theorem ReadsAs.hexNumeral {ds : List Char} {a : UInt64} (h : ReadsAs ds a.toNat) :
    HexNumeral ds a :=
  ⟨[], by decide, [], by decide, ds, h, rfl⟩

/-- Digits behind the mark are a numeral of the same number. -/
theorem hexNumeral_markedPaddedHex (n : UInt64) : HexNumeral (markedPaddedHex n) n :=
  ⟨['0', 'x'], by decide, [], by decide, paddedHex n, readsAs_paddedHex n, rfl⟩

/-- **Hexadecimal digits are read as the number they print**, however far they are padded. -/
theorem word?_paddedHex (n : UInt64) : word? 16 (paddedHex n) = some n :=
  word?_eq_some_iff.mpr ⟨[], by decide, paddedHex n, readsAs_paddedHex n, rfl⟩

end RegionAtlas.Text
