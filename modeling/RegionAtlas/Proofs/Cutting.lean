/-
  Cutting — texts taken apart, known by how the pieces go together again.

  Cutting is about positions: up to the first bracket, from the last blank on.  Here it is said
  without them, in pieces that make up the text:

    * at the last character of a class: the text is what stands before it, that character, and what
      stands behind it, and the latter has none of the class (`splitLast?_eq_some_iff`); at the
      first one the same from the other side (`splitFirst?_eq_some_iff`);
    * trimmed: the text is blanks, what is left, and blanks again, and what is left neither begins
      nor ends with a blank (`trim_eq_iff`);
    * searched: one text occurs in another if that is the text with something around it
      (`occursIn_iff`).

  Such pieces are unique, so the equations can be read in both directions: cutting finds them, and
  wherever they are found they are what cutting gives.
-/
import Mathlib.Data.List.Basic
import Mathlib.Data.List.TakeWhile
import RegionAtlas.Text.Blank

namespace RegionAtlas.Text

section Cutting

variable {inClass : Char → Bool} {cs before after : List Char}

/-! ## The last of a class -/

theorem splitLast?_eq_none_iff : splitLast? inClass cs = none ↔ ∀ c ∈ cs, inClass c = false := by
  induction cs with
  | nil => simp [splitLast?]
  | cons c rest ih =>
    rw [splitLast?, List.forall_mem_cons, ← ih]
    cases splitLast? inClass rest with
    | none => cases inClass c <;> simp
    | some parts => simp

/-- What follows the last character of a class. -/
theorem splitLast?_append {c : Char} (hc : inClass c = true) (before : List Char)
    {after : List Char} (hafter : ∀ d ∈ after, inClass d = false) :
    splitLast? inClass (before ++ c :: after) = some (before, after) := by
  have hnone : splitLast? inClass after = none := splitLast?_eq_none_iff.mpr hafter
  induction before with
  | nil =>
    rw [List.nil_append, splitLast?, hnone]
    exact if_pos hc
  | cons d rest ih => rw [List.cons_append, splitLast?, ih]

/-- **A text is cut at the last character of a class** if that stands between the pieces, and no
other behind it. -/
theorem splitLast?_eq_some_iff :
    splitLast? inClass cs = some (before, after) ↔
      ∃ c, inClass c = true ∧ cs = before ++ c :: after ∧ ∀ d ∈ after, inClass d = false := by
  constructor
  · intro h
    induction cs generalizing before with
    | nil => cases h
    | cons c rest ih =>
      rw [splitLast?] at h
      cases hrest : splitLast? inClass rest with
      | some parts =>
        obtain ⟨before', after'⟩ := parts
        rw [hrest] at h
        obtain ⟨rfl, rfl⟩ := Prod.mk.inj (Option.some.inj h)
        obtain ⟨d, hd, rfl, hnone⟩ := ih hrest
        exact ⟨d, hd, rfl, hnone⟩
      | none =>
        rw [hrest] at h
        by_cases hc : inClass c = true
        · rw [if_pos hc] at h
          obtain ⟨rfl, rfl⟩ := Prod.mk.inj (Option.some.inj h)
          exact ⟨c, hc, rfl, splitLast?_eq_none_iff.mp hrest⟩
        · rw [if_neg hc] at h
          cases h
  · rintro ⟨c, hc, rfl, hnone⟩
    exact splitLast?_append hc before hnone

/-! ## The first of a class -/

/-- **A text is cut at the first character of a class** if that stands between the pieces, and no
other before it. -/
theorem splitFirst?_eq_some_iff :
    splitFirst? inClass cs = some (before, after) ↔
      ∃ c, inClass c = true ∧ cs = before ++ c :: after ∧ ∀ d ∈ before, inClass d = false := by
  constructor
  · intro h
    induction cs generalizing before with
    | nil => cases h
    | cons c rest ih =>
      rw [splitFirst?] at h
      by_cases hc : inClass c = true
      · rw [if_pos hc] at h
        obtain ⟨rfl, rfl⟩ := Prod.mk.inj (Option.some.inj h)
        exact ⟨c, hc, rfl, fun d hd => nomatch hd⟩
      · rw [if_neg hc] at h
        obtain ⟨⟨before', after'⟩, hrest, heq⟩ := Option.map_eq_some_iff.mp h
        obtain ⟨rfl, rfl⟩ := Prod.mk.inj heq
        obtain ⟨d, hd, rfl, hnone⟩ := ih hrest
        exact ⟨d, hd, rfl, List.forall_mem_cons.mpr ⟨Bool.not_eq_true _ ▸ hc, hnone⟩⟩
  · rintro ⟨c, hc, rfl, hnone⟩
    induction before with
    | nil =>
      rw [List.nil_append, splitFirst?]
      exact if_pos hc
    | cons d rest ih =>
      obtain ⟨hd, hrest⟩ := List.forall_mem_cons.mp hnone
      rw [List.cons_append, splitFirst?, hd, ih hrest]
      rfl

/-! ## One character -/

theorem beq_eq_false_iff_notMem {c : Char} :
    (∀ d ∈ cs, (d == c) = false) ↔ c ∉ cs := by
  simp only [beq_eq_false_iff_ne]
  exact ⟨fun h hc => h c hc rfl, fun h d hd hdc => h (hdc ▸ hd)⟩

theorem splitFirst?_char {c : Char} :
    splitFirst? (· == c) cs = some (before, after) ↔ cs = before ++ c :: after ∧ c ∉ before := by
  rw [splitFirst?_eq_some_iff]
  simp only [beq_iff_eq, exists_eq_left, beq_eq_false_iff_notMem]

theorem splitLast?_char {c : Char} :
    splitLast? (· == c) cs = some (before, after) ↔ cs = before ++ c :: after ∧ c ∉ after := by
  rw [splitLast?_eq_some_iff]
  simp only [beq_iff_eq, exists_eq_left, beq_eq_false_iff_notMem]

/-! ## Behind the last -/

/-- **What stands behind the last character of a class** ends the text, and has none of the
class. -/
theorem afterLast_spec (inClass : Char → Bool) (cs : List Char) :
    afterLast inClass cs <:+ cs ∧ ∀ c ∈ afterLast inClass cs, inClass c = false := by
  unfold afterLast
  split
  · next before after hsplit =>
    obtain ⟨c, -, rfl, hnone⟩ := splitLast?_eq_some_iff.mp hsplit
    exact ⟨⟨before ++ [c], by simp⟩, hnone⟩
  · next hsplit => exact ⟨List.suffix_refl cs, splitLast?_eq_none_iff.mp hsplit⟩

/-- Nothing stands behind it exactly if it is the last character of the text. -/
theorem afterLast_eq_nil_iff (hcs : cs ≠ []) :
    afterLast inClass cs = [] ↔ ∃ init c, cs = init ++ [c] ∧ inClass c = true := by
  unfold afterLast
  split
  · next before after hsplit =>
    obtain ⟨c, hc, rfl, hnone⟩ := splitLast?_eq_some_iff.mp hsplit
    constructor
    · rintro rfl
      exact ⟨before, c, rfl, hc⟩
    · rintro ⟨init, d, heq, hd⟩
      by_contra hsome
      -- otherwise the last character of the text is one behind it
      obtain ⟨rest, e, rfl⟩ := (List.eq_nil_or_concat' after).resolve_left hsome
      have hends : before ++ c :: rest ++ [e] = init ++ [d] := by
        rw [← heq, List.append_assoc, List.cons_append]
      obtain ⟨-, hlast⟩ := List.append_inj' hends rfl
      rw [← (List.cons.inj hlast).1, hnone e (by simp)] at hd
      cases hd
  · next hsplit =>
    refine iff_of_false hcs ?_
    rintro ⟨init, c, rfl, hc⟩
    rw [splitLast?_eq_none_iff.mp hsplit c (by simp)] at hc
    cases hc

end Cutting

/-! ## Blanks -/

/-- Nothing but blanks. -/
def Blanks (cs : List Char) : Prop := ∀ c ∈ cs, isBlank c = true

instance (cs : List Char) : Decidable (Blanks cs) :=
  decidable_of_iff (cs.all isBlank = true) List.all_eq_true

/-- **A text that neither begins nor ends with a blank.** -/
structure Trimmed (cs : List Char) : Prop where
  head : ∀ c, cs.head? = some c → isBlank c = false
  last : ∀ c, cs.getLast? = some c → isBlank c = false

/-- **What is left of a text** without the blanks on both sides. -/
def TrimsTo (cs t : List Char) : Prop :=
  Trimmed t ∧ ∃ lead tail, Blanks lead ∧ Blanks tail ∧ cs = lead ++ (t ++ tail)

section Trimming

variable {cs t lead tail : List Char}

theorem Blanks.append (hlead : Blanks lead) (htail : Blanks tail) : Blanks (lead ++ tail) := by
  intro c hc
  rcases List.mem_append.mp hc with hc | hc
  · exact hlead c hc
  · exact htail c hc

theorem Blanks.reverse (h : Blanks cs) : Blanks cs.reverse := fun c hc =>
  h c (List.mem_reverse.mp hc)

/-- Blanks are dropped up to the first character that is none. -/
theorem dropWhile_blanks (hlead : Blanks lead) (ht : ∀ c, t.head? = some c → isBlank c = false) :
    (lead ++ t).dropWhile isBlank = t := by
  rw [List.dropWhile_append_of_pos hlead]
  cases t with
  | nil => rfl
  | cons c rest => exact List.dropWhile_cons_of_neg (by simp [ht c rfl])

theorem exists_blanks_dropWhile (cs : List Char) :
    ∃ lead, Blanks lead ∧ cs = lead ++ cs.dropWhile isBlank ∧
      ∀ c, (cs.dropWhile isBlank).head? = some c → isBlank c = false := by
  refine ⟨cs.takeWhile isBlank, fun c hc => List.mem_takeWhile_imp hc,
    List.takeWhile_append_dropWhile.symm, fun c hc => ?_⟩
  have hhead := List.head?_dropWhile_not isBlank cs
  rw [hc] at hhead
  exact hhead

/-- **Trimming takes the blanks off both ends**, and nothing else. -/
theorem trim_append (hlead : Blanks lead) (ht : Trimmed t) (htail : Blanks tail) :
    trim (lead ++ (t ++ tail)) = t := by
  cases t with
  | nil =>
    have hall : (lead ++ tail).dropWhile isBlank = [] := by
      have hdropped := dropWhile_blanks (t := []) (hlead.append htail) fun c hc => nomatch hc
      rwa [List.append_nil] at hdropped
    rw [trim, List.nil_append, hall]
    rfl
  | cons c rest =>
    have hhead : ∀ d, (c :: rest ++ tail).head? = some d → isBlank d = false := fun d hd =>
      ht.head d hd
    have hlast : ∀ d, (c :: rest).reverse.head? = some d → isBlank d = false := fun d hd =>
      ht.last d (List.head?_reverse ▸ hd)
    rw [trim, dropWhile_blanks hlead hhead, trimEnd, List.reverse_append,
      dropWhile_blanks htail.reverse hlast, List.reverse_reverse]

/-- **A text is trimmed to what is left of it**, which is one text only. -/
theorem trim_eq_iff : trim cs = t ↔ TrimsTo cs t := by
  constructor
  · rintro rfl
    obtain ⟨lead, hlead, hcs, hhead⟩ := exists_blanks_dropWhile cs
    obtain ⟨tail, htail, hrest, hlast⟩ :=
      exists_blanks_dropWhile (cs.dropWhile isBlank).reverse
    have hkept : cs.dropWhile isBlank = trim cs ++ tail.reverse := by
      have hrev := congrArg List.reverse hrest
      rwa [List.reverse_reverse, List.reverse_append] at hrev
    refine ⟨⟨fun c hc => ?_, fun c hc => ?_⟩, lead, tail.reverse, hlead, htail.reverse, ?_⟩
    · apply hhead
      rw [hkept, List.head?_append, hc]
      rfl
    · apply hlast
      rwa [← List.getLast?_reverse]
    · rw [← hkept]
      exact hcs
  · rintro ⟨ht, lead, tail, hlead, htail, rfl⟩
    exact trim_append hlead ht htail

/-- A text that does not begin with a blank begins with what is left of it. -/
theorem TrimsTo.exists_tail (h : TrimsTo cs t)
    (hhead : ∀ c, cs.head? = some c → isBlank c = false) :
    ∃ tail, Blanks tail ∧ cs = t ++ tail := by
  obtain ⟨-, lead, tail, hlead, htail, rfl⟩ := h
  cases lead with
  | nil => exact ⟨tail, htail, rfl⟩
  | cons c rest =>
    have hblank := hlead c List.mem_cons_self
    rw [hhead c rfl] at hblank
    cases hblank

end Trimming

/-! ## Containment -/

/-- **One text occurs in another** exactly if it is a piece of it. -/
theorem occursIn_iff {piece cs : List Char} : occursIn piece cs = true ↔ piece <:+: cs := by
  induction cs with
  | nil => rw [occursIn, List.isEmpty_iff, List.infix_nil]
  | cons c rest ih =>
    rw [occursIn, Bool.or_eq_true, ih, List.isPrefixOf_iff_prefix, List.infix_cons_iff]

end RegionAtlas.Text
