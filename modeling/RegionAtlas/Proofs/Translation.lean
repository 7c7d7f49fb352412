/-
  Translation — an address through the mappings alive at a snap, there and back.

  Both ways of one mapping undo each other (`Mapping.toTrace?_eq_some`).  At a snap a trace address
  lies under one mapping at most.  A place is only a space and an offset, though: it does not say of
  which program, and mappings of several programs may reach it.  So the way back is by the
  lowest-numbered of these mappings, whichever program it is of.

  **The mapping that answers** is the lowest-numbered one that can (`findSome?_alive`).  For a trace
  address there is no other; for a place there is no other of the same program.  What is printed for
  either is read back as it is (`RegionAtlas.Proofs.Words`).

  Hence an address comes back exactly if no mapping of another program stands before its own, and
  what comes back instead is an address of the same place (`translation_returns`).
-/
import RegionAtlas.Proofs.Loading
import RegionAtlas.Proofs.Offsets
import RegionAtlas.Proofs.Words

namespace RegionAtlas

/-! ## The mapping that answers -/

theorem findSome?_filter_eq_bind {α β : Type} (l : List α) (p : α → Bool) (f : α → Option β) :
    (l.filter p).findSome? f = (l.find? fun a => p a && (f a).isSome).bind f := by
  induction l with
  | nil => rfl
  | cons a rest ih =>
    rw [List.filter_cons, List.find?_cons]
    cases hp : p a with
    | false => exact ih
    | true =>
      rw [if_pos rfl, List.findSome?_cons]
      cases hf : f a with
      | none => exact ih
      | some b => exact hf.symm

/-- The mappings of contents that are alive at a snap, lowest number first. -/
def Contents.mappingsAt (c : Contents) (s : Snap) : List Mapping :=
  c.mappings.values.filter (·.lifespan.contains s)

/-- **A mapping alive at a snap with a place on its static side.** -/
structure Contents.Offers (c : Contents) (s : Snap) (x : StaticAddress) (m : Mapping) : Prop where
  listed : c.mapping? m.id = some m
  alive : m.lifespan.contains s = true
  space : m.space = x.space
  within : m.staticRange.contains x.offset = true

namespace Contents

variable {c : Contents} {s : Snap} {m n : Mapping} {a : UInt64} {x y : StaticAddress}

theorem Offers.mem_mappingsAt (hn : c.Offers s x n) : n ∈ c.mappingsAt s :=
  List.mem_filter.mpr ⟨mem_mappings.mpr ⟨n.id, hn.listed⟩, hn.alive⟩

/-- What is found under one number is one mapping. -/
theorem eq_of_mapping? (hm : c.mapping? m.id = some m) (hn : c.mapping? n.id = some n)
    (hid : n.id = m.id) : n = m := by
  rw [hid, hm] at hn
  exact (Option.some.inj hn).symm

namespace Corresponds

theorem mem_mappingsAt (h : c.Corresponds) :
    m ∈ c.mappingsAt s ↔ c.mapping? m.id = some m ∧ m.lifespan.contains s = true := by
  rw [mappingsAt, List.mem_filter, Contents.mem_mappings]
  constructor
  · rintro ⟨⟨id, hm⟩, halive⟩
    exact ⟨by rw [h.keyed id m hm, hm], halive⟩
  · rintro ⟨hm, halive⟩
    exact ⟨⟨m.id, hm⟩, halive⟩

/-- **What answers is the lowest-numbered mapping that can.** -/
theorem findSome?_alive (h : c.Corresponds) {β : Type} {f : Mapping → Option β} {y : β}
    (hfound : (c.mappingsAt s).findSome? f = some y) :
    ∃ n ∈ c.mappingsAt s, f n = some y ∧
      ∀ k ∈ c.mappingsAt s, (f k).isSome = true → n.id.raw ≤ k.id.raw := by
  rw [mappingsAt, findSome?_filter_eq_bind] at hfound
  obtain ⟨n, hfirst, hn⟩ := Option.bind_eq_some_iff.mp hfound
  obtain ⟨hlisted, hcan, hlowest⟩ := Table.lowest_of_find? h.keyed hfirst
  obtain ⟨halive, -⟩ := Bool.and_eq_true_iff.mp hcan
  refine ⟨n, List.mem_filter.mpr ⟨hlisted, halive⟩, hn, fun k hk hf => ?_⟩
  obtain ⟨hklisted, hkalive⟩ := List.mem_filter.mp hk
  exact MappingId.raw_le (hlowest k hklisted (Bool.and_eq_true_iff.mpr ⟨hkalive, hf⟩))

/-- Mappings that lead on from one address are one mapping. -/
theorem eq_of_toStatic? (h : c.Corresponds) (hm : m ∈ c.mappingsAt s) (hn : n ∈ c.mappingsAt s)
    (hx : m.toStatic? a = some x) (hy : n.toStatic? a = some y) : n = m := by
  obtain ⟨hmlisted, hmalive⟩ := h.mem_mappingsAt.mp hm
  obtain ⟨hnlisted, hnalive⟩ := h.mem_mappingsAt.mp hn
  exact eq_of_mapping? hmlisted hnlisted (h.trace_atMostOne s a n.id m.id n m hnlisted hmlisted
    ⟨hnalive, (Mapping.toStatic?_eq_some.mp hy).1⟩ ⟨hmalive, (Mapping.toStatic?_eq_some.mp hx).1⟩)

/-- Mappings that offer one place under one program are one mapping. -/
theorem eq_of_offers (h : c.Corresponds) (hm : c.Offers s x m) (hn : c.Offers s x n)
    (hprogram : n.program = m.program) : n = m :=
  eq_of_mapping? hm.listed hn.listed
    (h.static_atMostOne s m.program x.space x.offset n.id m.id n m hn.listed hm.listed
      ⟨hn.alive, hprogram, hn.space, hn.within⟩ ⟨hm.alive, rfl, hm.space, hm.within⟩)

/-- **A trace address has one mapping to answer for it.** -/
theorem findSome?_toStatic? (h : c.Corresponds) (hm : m ∈ c.mappingsAt s)
    (hx : m.toStatic? a = some x) : (c.mappingsAt s).findSome? (·.toStatic? a) = some x := by
  cases hfound : (c.mappingsAt s).findSome? (·.toStatic? a) with
  | none =>
    rw [List.findSome?_eq_none_iff.mp hfound m hm] at hx
    cases hx
  | some y =>
    obtain ⟨n, hn, hy, -⟩ := h.findSome?_alive hfound
    obtain rfl := h.eq_of_toStatic? hm hn hx hy
    rw [← hy, ← hx]

/-- The mappings that offer a place are those alive that lead back from it. -/
theorem offers_iff (h : c.Corresponds) :
    c.Offers s x n ↔ n ∈ c.mappingsAt s ∧ (n.toTrace? x).isSome = true := by
  constructor
  · intro hn
    refine ⟨hn.mem_mappingsAt, ?_⟩
    rw [Mapping.toTrace?, if_pos ⟨hn.space.symm, hn.within⟩]
    rfl
  · rintro ⟨hn, hback⟩
    obtain ⟨hlisted, halive⟩ := h.mem_mappingsAt.mp hn
    rw [Mapping.toTrace?] at hback
    split at hback
    · next hreaches => exact ⟨hlisted, halive, hreaches.1.symm, hreaches.2⟩
    · cases hback

/-- **A place is answered for by the lowest-numbered mapping that offers it**, whose place the
address that is answered has. -/
theorem findSome?_toTrace? (h : c.Corresponds) (hm : c.Offers s x m) :
    ∃ n b, c.Offers s x n ∧ n.toTrace? x = some b ∧
      (c.mappingsAt s).findSome? (·.toTrace? x) = some b ∧
      ∀ k, c.Offers s x k → n.id.raw ≤ k.id.raw := by
  cases hfound : (c.mappingsAt s).findSome? (·.toTrace? x) with
  | none =>
    obtain ⟨hlisted, hback⟩ := h.offers_iff.mp hm
    rw [List.findSome?_eq_none_iff.mp hfound m hlisted] at hback
    cases hback
  | some b =>
    obtain ⟨n, hn, hb, hlowest⟩ := h.findSome?_alive hfound
    refine ⟨n, b, h.offers_iff.mpr ⟨hn, ?_⟩, hb, rfl, fun k hk => ?_⟩
    · rw [hb]
      rfl
    · obtain ⟨hlisted, hback⟩ := h.offers_iff.mp hk
      exact hlowest k hlisted hback

/-- **The lowest-numbered mapping that offers a place is a given one** exactly if none of another
program has a lower number. -/
theorem lowest_eq_iff (h : c.Corresponds) (hm : c.Offers s x m) (hn : c.Offers s x n)
    (hlowest : ∀ k, c.Offers s x k → n.id.raw ≤ k.id.raw) :
    n = m ↔ ∀ k, c.Offers s x k → k.program ≠ m.program → m.id.raw < k.id.raw := by
  constructor
  · rintro rfl k hk hprogram
    refine UInt64.lt_of_le_of_ne (hlowest k hk) fun hraw => hprogram ?_
    have hid : k.id = n.id := congrArg MappingId.mk hraw.symm
    exact congrArg Mapping.program (eq_of_mapping? hn.listed hk.listed hid)
  · intro hfirst
    by_contra hother
    have hprogram : n.program ≠ m.program := fun hsame => hother (h.eq_of_offers hm hn hsame)
    exact absurd (hlowest m hm) (UInt64.not_le.mpr (hfirst n hn hprogram))

end Corresponds

end Contents

/-! ## There and back -/

/-- **What is shown when a word is translated.** -/
def Trace.Translates (t : Trace) (s : Snap) (word shown : String) : Prop :=
  performMappings t s (some [word]) = .display t [word ++ " -> " ++ shown]

section Shown

variable {t : Trace} {s : Snap} {word shown : String} {a b : UInt64} {x : StaticAddress}

theorem translates_iff : t.Translates s word shown ↔ translate t.contents s word = .ok shown := by
  rw [Trace.Translates, performMappings, translateEach]
  cases translate t.contents s word with
  | error why =>
    constructor
    · intro h
      cases congrArg Performed.ending h
    · intro h
      cases h
  | ok text =>
    constructor
    · intro h
      have hline := List.head_eq_of_cons_eq (congrArg Performed.printed h)
      rw [String.append_right_inj] at hline
      rw [hline]
    · intro h
      cases h
      rfl

/-- What is shown for a trace address. -/
theorem translate_address (hword : readAddress word = .ok a) :
    translate t.contents s word =
      .ok (match (t.contents.mappingsAt s).findSome? (·.toStatic? a) with
        | some x => x.text
        | none => "(unmapped)") := by
  have hplain : ¬ word.toList.contains ':' = true := by
    rw [List.contains_iff_mem]
    exact colon_notMem_of_readAddress hword
  rw [translate, if_neg hplain, hword]
  rfl

/-- What is shown for a place. -/
theorem translate_place (hspace : x.space ≠ "") :
    translate t.contents s x.text =
      .ok (match (t.contents.mappingsAt s).findSome? (·.toTrace? x) with
        | some b => Report.hexText b
        | none => "(unmapped)") := by
  have hcolon : x.text.toList.contains ':' = true := List.contains_iff_mem.mpr x.colon_mem_text
  rw [translate, if_pos hcolon, StaticAddress.ofText?_text hspace]
  rfl

/-- The place that is shown for a trace address is the one that a mapping gives it. -/
theorem exists_of_translates (h : t.contents.Corresponds) (hword : readAddress word = .ok a)
    (hshown : t.Translates s word x.text) :
    ∃ m ∈ t.contents.mappingsAt s, m.toStatic? a = some x := by
  rw [translates_iff, translate_address hword, Except.ok.injEq] at hshown
  split at hshown
  · next y hfound =>
    obtain rfl := StaticAddress.text_injective hshown
    obtain ⟨m, hm, hx, -⟩ := h.findSome?_alive hfound
    exact ⟨m, hm, hx⟩
  · have hcolon := x.colon_mem_text
    rw [← hshown] at hcolon
    exact absurd hcolon (by decide)

/-- Different addresses are shown differently. -/
theorem hexText_injective (h : Report.hexText a = Report.hexText b) : a = b := by
  have hread := readAddress_hexText a
  rw [h, readAddress_hexText, Except.ok.injEq] at hread
  exact hread.symm

end Shown

/-- **A trace address comes back from the place it is translated to**, along every run of a trace
that starts from contents there can be, exactly if no mapping of another program with a lower number
offers that place at the snap.  What is shown for the place is the address that the lowest-numbered
of all such mappings has for it, and that address is translated to the same place again. -/
theorem translation_returns {c : Contents} (hc : c.Attained) (id : TraceId) (name : String)
    (limit : Nat) (calls : List Trace.Call) :
    let t := (Trace.ofContents id name c limit).calls calls
    (∀ m ∈ t.contents.mappings.values, m.space ≠ "") →
    ∀ (s : Snap) (word : String) (a : UInt64) (x : StaticAddress),
      readAddress word = .ok a → t.Translates s word x.text →
      ∃ m n b, t.contents.Offers s x m ∧ m.toStatic? a = some x ∧
        (t.Translates s x.text (Report.hexText a) ↔
          ∀ k, t.contents.Offers s x k → k.program ≠ m.program → m.id.raw < k.id.raw) ∧
        t.contents.Offers s x n ∧ (∀ k, t.contents.Offers s x k → n.id.raw ≤ k.id.raw) ∧
        n.toStatic? b = some x ∧ t.Translates s x.text (Report.hexText b) ∧
        ∀ word', readAddress word' = .ok b → t.Translates s word' x.text := by
  intro t hspaces s word a x hword hshown
  have h : t.contents.Corresponds := .calls hc id name limit calls
  obtain ⟨m, hm, hthere⟩ := exists_of_translates h hword hshown
  obtain ⟨hmlisted, hmalive⟩ := h.mem_mappingsAt.mp hm
  have hback : m.toTrace? x = some a :=
    (Mapping.toTrace?_eq_some (h.consistent m.id m hmlisted)).mpr hthere
  have hmoffers : t.contents.Offers s x m := h.offers_iff.mpr ⟨hm, by rw [hback]; rfl⟩
  obtain ⟨n, b, hnoffers, hnback, hfound, hlowest⟩ := h.findSome?_toTrace? hmoffers
  have hnthere : n.toStatic? b = some x :=
    (Mapping.toTrace?_eq_some (h.consistent n.id n hnoffers.listed)).mp hnback
  have hspace : x.space ≠ "" := hmoffers.space ▸ hspaces m (List.mem_of_mem_filter hm)
  have hplace : translate t.contents s x.text = .ok (Report.hexText b) := by
    rw [translate_place hspace, hfound]
  have hreturns : t.Translates s x.text (Report.hexText a) ↔ n = m := by
    rw [translates_iff, hplace, Except.ok.injEq]
    constructor
    · intro hsame
      obtain rfl := hexText_injective hsame
      exact h.eq_of_toStatic? hm hnoffers.mem_mappingsAt hthere hnthere
    · rintro rfl
      rw [hback, Option.some.injEq] at hnback
      rw [hnback]
  refine ⟨m, n, b, hmoffers, hthere, hreturns.trans (h.lowest_eq_iff hmoffers hnoffers hlowest),
    hnoffers, hlowest, hnthere, translates_iff.mpr hplace, ?_⟩
  intro word' hword'
  rw [translates_iff, translate_address hword',
    h.findSome?_toStatic? hnoffers.mem_mappingsAt hnthere]

/-- Two programs mapped at the same static addresses, as happens where both are linked to start at
the same one. -/
def sharedPlaceCalls : List Trace.Call :=
  [.step (.begin "echo and libc"),
   .step (.edit ⟨0⟩
     (.addMapping ⟨0x31000, 0x31fff, by decide⟩ (.since 0) "echo" ⟨"ram", 0x400000⟩)),
   .step (.edit ⟨0⟩
     (.addMapping ⟨0x32000, 0x32fff, by decide⟩ (.since 0) "libc" ⟨"ram", 0x400000⟩)),
   .step (.commit ⟨0⟩)]

/-- An address of the second program comes back as one of the first. -/
theorem sharedPlace_does_not_return :
    let t := (Trace.ofContents ⟨1⟩ "echo" .empty 50).calls sharedPlaceCalls
    Contents.Attained .empty ∧ (∀ m ∈ t.contents.mappings.values, m.space ≠ "") ∧
      readAddress "32000" = .ok 0x32000 ∧
      t.Translates 0 "32000" (StaticAddress.text ⟨"ram", 0x400000⟩) ∧
      t.Translates 0 (StaticAddress.text ⟨"ram", 0x400000⟩) "31000" ∧
      ¬ t.Translates 0 (StaticAddress.text ⟨"ram", 0x400000⟩) (Report.hexText 0x32000) := by
  intro t
  have hback : t.Translates 0 (StaticAddress.text ⟨"ram", 0x400000⟩) "31000" :=
    translates_iff.mpr (by decide +kernel)
  refine ⟨.empty, by decide +kernel, by decide +kernel, translates_iff.mpr (by decide +kernel),
    hback, ?_⟩
  intro hreturns
  have hsame := (translates_iff.mp hback).symm.trans (translates_iff.mp hreturns)
  exact absurd hsame (by decide +kernel)

/-- An address of the first program comes back as itself, though the second offers its place too. -/
theorem sharedPlace_returns :
    let t := (Trace.ofContents ⟨1⟩ "echo" .empty 50).calls sharedPlaceCalls
    readAddress "0x31010" = .ok 0x31010 ∧
      t.Translates 0 "0x31010" (StaticAddress.text ⟨"ram", 0x400010⟩) ∧
      t.Translates 0 (StaticAddress.text ⟨"ram", 0x400010⟩) (Report.hexText 0x31010) := by
  intro t
  have hspaces : ∀ m ∈ t.contents.mappings.values, m.space ≠ "" := by decide +kernel
  have hword : readAddress "0x31010" = .ok 0x31010 := by decide +kernel
  have hshown : t.Translates 0 "0x31010" (StaticAddress.text ⟨"ram", 0x400010⟩) :=
    translates_iff.mpr (by decide +kernel)
  have hfirst : ∀ m ∈ t.contents.mappings.values, m.toStatic? 0x31010 = some ⟨"ram", 0x400010⟩ →
      ∀ k ∈ t.contents.mappings.values, k.program ≠ m.program → m.id.raw < k.id.raw := by
    decide +kernel
  obtain ⟨m, -, -, hm, hthere, hreturns, -⟩ := translation_returns .empty ⟨1⟩ "echo" 50
    sharedPlaceCalls hspaces 0 "0x31010" 0x31010 ⟨"ram", 0x400010⟩ hword hshown
  refine ⟨hword, hshown, hreturns.mpr fun k hk => ?_⟩
  exact hfirst m (Contents.mem_mappings.mpr ⟨m.id, hm.listed⟩) hthere k
    (Contents.mem_mappings.mpr ⟨k.id, hk.listed⟩)

end RegionAtlas
