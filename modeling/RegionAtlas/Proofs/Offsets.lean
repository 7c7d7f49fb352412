/-
  Offsets — a mapping moves every address by the same distance, there and back.

  Addresses are 64-bit words, and a translation subtracts where one side begins and adds where the
  other does.  Nothing in that keeps the sum within a word: that the sides reach equally far does.
  It is checked where a mapping is made and where one is read, and holds of every mapping there can
  be (`Contents.Corresponds`).  From it:

    * what lies as far into one side as an address into the other lies in it
      (`AddressRange.contains_shift`), at the sum of the numbers (`AddressRange.toNat_shift`);
    * so either way undoes the other (`Mapping.toTrace?_eq_some`), distances are kept, and neither
      way leaves the words (`Mapping.oneToOne`).

  A mapping can be made exactly where the static side has room to reach as far as the trace side
  (`Mapping.exists_fit_iff`).
-/
import RegionAtlas.Proofs.Correspondence

namespace RegionAtlas

/-! ## Words -/

/-- **A sum of words that is the sum of their numbers.** -/
def SumFits (a b : UInt64) : Prop := a.toNat + b.toNat < 2 ^ 64

/-- **A difference of words that is the difference of their numbers.** -/
def DifferenceFits (a b : UInt64) : Prop := b.toNat ≤ a.toNat

theorem SumFits.toNat_add {a b : UInt64} (h : SumFits a b) :
    (a + b).toNat = a.toNat + b.toNat := by
  rw [UInt64.toNat_add, Nat.mod_eq_of_lt h]

theorem DifferenceFits.toNat_sub {a b : UInt64} (h : DifferenceFits a b) :
    (a - b).toNat = a.toNat - b.toNat :=
  UInt64.toNat_sub_of_le _ _ (UInt64.le_iff_toNat_le.mpr h)

/-! ## Both ways -/

namespace AddressRange

variable {r s : AddressRange} {a : UInt64}

/-- No address of a range is below its start. -/
theorem differenceFits_of_contains (ha : r.contains a = true) : DifferenceFits a r.min :=
  (contains_iff_toNat.mp ha).1

/-- **As far into a range as an address into another of its size is within a word.** -/
theorem sumFits_shift (hsize : r.size = s.size) (ha : r.contains a = true) :
    SumFits s.min (a - r.min) := by
  obtain ⟨hmin, hmax⟩ := contains_iff_toNat.mp ha
  have hs : s.min.toNat ≤ s.max.toNat := s.toNat_min_le
  have hbound : s.max.toNat < 2 ^ 64 := s.max.toNat_lt
  rw [size, size] at hsize
  rw [SumFits, (differenceFits_of_contains ha).toNat_sub]
  omega

theorem toNat_shift (hsize : r.size = s.size) (ha : r.contains a = true) :
    (s.min + (a - r.min)).toNat = s.min.toNat + (a.toNat - r.min.toNat) := by
  rw [(sumFits_shift hsize ha).toNat_add, (differenceFits_of_contains ha).toNat_sub]

/-- What lies as far into one range as an address into another of its size. -/
theorem contains_shift (hsize : r.size = s.size) (ha : r.contains a = true) :
    s.contains (s.min + (a - r.min)) = true := by
  obtain ⟨hmin, hmax⟩ := contains_iff_toNat.mp ha
  have hs : s.min.toNat ≤ s.max.toNat := s.toNat_min_le
  rw [size, size] at hsize
  rw [contains_iff_toNat, toNat_shift hsize ha]
  omega

/-- Shifting it back gives the address. -/
theorem shift_shift (r s : AddressRange) (a : UInt64) :
    r.min + (s.min + (a - r.min) - s.min) = a := by
  rw [UInt64.add_comm s.min, UInt64.add_sub_cancel, UInt64.add_comm, UInt64.sub_add_cancel]

end AddressRange

namespace Mapping

variable {m : Mapping} {a : UInt64} {x : StaticAddress}

theorem toStatic?_eq_some : m.toStatic? a = some x ↔
    m.traceRange.contains a = true ∧ x.space = m.space ∧
      x.offset = m.staticRange.min + (a - m.traceRange.min) := by
  rw [toStatic?]
  split
  · next hcovers =>
    constructor
    · intro h
      obtain rfl := Option.some.inj h
      exact ⟨hcovers, rfl, rfl⟩
    · rintro ⟨-, hspace, hoffset⟩
      rw [← hspace, ← hoffset]
  · next hmisses =>
    constructor
    · intro h
      cases h
    · rintro ⟨hcovers, -⟩
      exact absurd hcovers hmisses

/-- **There and back**: an address is the trace address of the place that it is translated to, and
of no other. -/
theorem toTrace?_eq_some (h : m.isConsistent = true) :
    m.toTrace? x = some a ↔ m.toStatic? a = some x := by
  have hsize : m.traceRange.size = m.staticRange.size := isConsistent_iff.mp h
  rw [toStatic?_eq_some, toTrace?]
  constructor
  · intro hback
    split at hback
    · next hreaches =>
      obtain rfl := Option.some.inj hback
      exact ⟨AddressRange.contains_shift hsize.symm hreaches.2, hreaches.1,
        (AddressRange.shift_shift _ _ _).symm⟩
    · cases hback
  · rintro ⟨hcovers, hspace, hoffset⟩
    have hwithin : m.staticRange.contains x.offset = true := by
      rw [hoffset]
      exact AddressRange.contains_shift hsize hcovers
    rw [if_pos ⟨hspace, hwithin⟩, hoffset, AddressRange.shift_shift]

/-- **A mapping that translates one to one and in order**: a trace address has a place exactly if it
is on the trace side, and a place a trace address exactly if it is in the space and on the static
side of the mapping; either way undoes the other; distances are kept; and of what is subtracted and
added on the way nothing leaves the words. -/
structure OneToOne (m : Mapping) : Prop where
  covers : ∀ a, (∃ x, m.toStatic? a = some x) ↔ m.traceRange.contains a = true
  reaches : ∀ x, (∃ a, m.toTrace? x = some a) ↔
    x.space = m.space ∧ m.staticRange.contains x.offset = true
  back : ∀ a x, m.toStatic? a = some x → m.toTrace? x = some a
  forth : ∀ x a, m.toTrace? x = some a → m.toStatic? a = some x
  distances : ∀ a b x y, m.toStatic? a = some x → m.toStatic? b = some y →
    (y.offset.toNat : Int) - x.offset.toNat = b.toNat - a.toNat
  forthFits : ∀ a, m.traceRange.contains a = true →
    DifferenceFits a m.traceRange.min ∧ SumFits m.staticRange.min (a - m.traceRange.min)
  backFits : ∀ a, m.staticRange.contains a = true →
    DifferenceFits a m.staticRange.min ∧ SumFits m.traceRange.min (a - m.staticRange.min)

theorem exists_toStatic?_iff : (∃ x, m.toStatic? a = some x) ↔ m.traceRange.contains a = true := by
  constructor
  · rintro ⟨x, hx⟩
    exact (toStatic?_eq_some.mp hx).1
  · intro ha
    exact ⟨⟨m.space, _⟩, toStatic?_eq_some.mpr ⟨ha, rfl, rfl⟩⟩

theorem exists_toTrace?_iff :
    (∃ a, m.toTrace? x = some a) ↔ x.space = m.space ∧ m.staticRange.contains x.offset = true := by
  rw [toTrace?]
  split
  · next hreaches => exact iff_of_true ⟨_, rfl⟩ hreaches
  · next hmisses => exact iff_of_false (fun ⟨_, h⟩ => nomatch h) hmisses

/-- **Sides that reach equally far are all it takes.** -/
theorem oneToOne (h : m.isConsistent = true) : m.OneToOne := by
  have hsize : m.traceRange.size = m.staticRange.size := isConsistent_iff.mp h
  -- the number of a place, as far from the start of its side as the address from that of the other
  have hoffset : ∀ a x, m.toStatic? a = some x → m.traceRange.min.toNat ≤ a.toNat ∧
      x.offset.toNat = m.staticRange.min.toNat + (a.toNat - m.traceRange.min.toNat) := by
    intro a x hx
    obtain ⟨ha, -, hplace⟩ := toStatic?_eq_some.mp hx
    rw [hplace]
    exact ⟨(AddressRange.contains_iff_toNat.mp ha).1, AddressRange.toNat_shift hsize ha⟩
  exact {
    covers := fun a => exists_toStatic?_iff
    reaches := fun x => exists_toTrace?_iff
    back := fun a x => (toTrace?_eq_some h).mpr
    forth := fun x a => (toTrace?_eq_some h).mp
    distances := by
      intro a b x y hx hy
      obtain ⟨ha, hax⟩ := hoffset a x hx
      obtain ⟨hb, hby⟩ := hoffset b y hy
      omega
    forthFits := fun a ha =>
      ⟨AddressRange.differenceFits_of_contains ha, AddressRange.sumFits_shift hsize ha⟩
    backFits := fun a ha =>
      ⟨AddressRange.differenceFits_of_contains ha, AddressRange.sumFits_shift hsize.symm ha⟩ }

/-! ## Making mappings -/

section Fit

variable {id : MappingId} {range : AddressRange} {lifespan : Lifespan} {program : String}
  {place : StaticAddress}

/-- **A mapping can be made exactly where there is room** for as many static addresses. -/
theorem exists_fit_iff : (∃ m, fit id range lifespan program place = .ok m) ↔
    place.offset.toNat + (range.max.toNat - range.min.toNat) ≤ 2 ^ 64 - 1 := by
  have hrange : range.min.toNat ≤ range.max.toNat := range.toNat_min_le
  constructor
  · rintro ⟨m, hm⟩
    obtain ⟨side, hmin, hsize, -⟩ := fit_eq_ok.mp hm
    have hside : side.min.toNat ≤ side.max.toNat := side.toNat_min_le
    have hbound : side.max.toNat < 2 ^ 64 := side.max.toNat_lt
    rw [AddressRange.size, AddressRange.size] at hsize
    rw [← hmin]
    omega
  · intro hroom
    have hfits : SumFits place.offset range.extent := by
      rw [SumFits, range.toNat_extent]
      omega
    have horder : place.offset ≤ place.offset + range.extent := by
      rw [UInt64.le_iff_toNat_le, hfits.toNat_add]
      omega
    let side : AddressRange := ⟨place.offset, place.offset + range.extent, horder⟩
    have hsize : side.size = range.size := by
      show (place.offset + range.extent).toNat - place.offset.toNat + 1 = _
      rw [hfits.toNat_add, range.toNat_extent, AddressRange.size]
      omega
    exact ⟨_, fit_eq_ok.mpr ⟨side, rfl, hsize, rfl⟩⟩

end Fit

end Mapping

/-- **A mapping is an exact translation.**  A mapping of a trace range from a place on can be made
exactly if the number of the place and the distance between the ends of the range add up to a word,
and then it begins just there; and every mapping that is made, or that contents there can be hold
after any calls, translates one to one and in order. -/
theorem mappings_one_to_one :
    (∀ (id : MappingId) (range : AddressRange) (lifespan : Lifespan) (program : String)
      (place : StaticAddress),
      ((∃ m, Mapping.fit id range lifespan program place = .ok m) ↔
        place.offset.toNat + (range.max.toNat - range.min.toNat) ≤ 2 ^ 64 - 1) ∧
      ∀ m, Mapping.fit id range lifespan program place = .ok m →
        m.traceRange = range ∧ m.place = place ∧ m.OneToOne) ∧
    ∀ c : Contents, c.Attained → ∀ (id : TraceId) (name : String) (limit : Nat)
      (calls : List Trace.Call) (mid : MappingId) (m : Mapping),
      ((Trace.ofContents id name c limit).calls calls).contents.mapping? mid = some m →
        m.OneToOne := by
  refine ⟨fun id range lifespan program place => ⟨Mapping.exists_fit_iff, fun m hm => ?_⟩,
    fun c hc id name limit calls mid m hm => ?_⟩
  · have hconsistent : m.isConsistent = true := Mapping.isConsistent_of_fit hm
    obtain ⟨side, hmin, -, rfl⟩ := Mapping.fit_eq_ok.mp hm
    refine ⟨rfl, ?_, Mapping.oneToOne hconsistent⟩
    show StaticAddress.mk place.space side.min = place
    rw [hmin]
  · have hcorresponds := Contents.Corresponds.calls hc id name limit calls
    exact Mapping.oneToOne (hcorresponds.consistent mid m hm)

/-- All addresses of a trace, mapped to all offsets of a space up to snap 3. -/
def wholeSpace : Mapping :=
  ⟨⟨4⟩, ⟨0, 0xFFFFFFFFFFFFFFFF, by decide⟩, ⟨0, some 3, fun | _, rfl => by decide⟩, "echo", "ram",
    ⟨0, 0xFFFFFFFFFFFFFFFF, by decide⟩⟩

/-- When that mapping is over, the highest page is mapped as high up as it goes; one offset higher
there is no room for it. -/
def highestPageCalls : List Trace.Call :=
  let page : AddressRange := ⟨0xFFFFFFFFFFFFF000, 0xFFFFFFFFFFFFFFFF, by decide⟩
  [.step (.begin "high"),
   .step (.edit ⟨0⟩ (.addMapping page (.since 3) "echo" ⟨"ram", 0xFFFFFFFFFFFFF000⟩)),
   .step (.edit ⟨0⟩ (.addMapping page (.since 3) "echo" ⟨"rom", 0xFFFFFFFFFFFFF001⟩)),
   .step (.commit ⟨0⟩), .step .undo, .step .redo]

/-- The first mapping is read from a database and the second committed, undone and redone; both
translate the last address there is to the last offset there is, and back. -/
theorem last_address_one_to_one :
    ∃ c high, Database.toContents ⟨[], [wholeSpace]⟩ = .ok c ∧ c.Attained ∧
      ((Trace.ofContents ⟨1⟩ "echo" c 50).calls highestPageCalls).contents.mappings.values =
        [wholeSpace, high] ∧
      (¬ ∃ m, Mapping.fit ⟨6⟩ high.traceRange high.lifespan high.program
        ⟨"rom", 0xFFFFFFFFFFFFF001⟩ = .ok m) ∧
      ∀ m ∈ [wholeSpace, high],
        m.toTrace? ⟨"ram", 0xFFFFFFFFFFFFFFFF⟩ = some 0xFFFFFFFFFFFFFFFF ∧ m.OneToOne := by
  obtain ⟨c, hread⟩ : ∃ c, Database.toContents ⟨[], [wholeSpace]⟩ = .ok c := ⟨_, rfl⟩
  have hc : c.Attained := .loaded hread
  let page : AddressRange := ⟨0xFFFFFFFFFFFFF000, 0xFFFFFFFFFFFFFFFF, by decide⟩
  let high : Mapping := ⟨⟨5⟩, page, .since 3, "echo", "ram", page⟩
  have hvalues :
      ((Trace.ofContents ⟨1⟩ "echo" c 50).calls highestPageCalls).contents.mappings.values =
        [wholeSpace, high] := by
    cases hread
    decide
  have hlast : ∀ m ∈ [wholeSpace, high],
      m.toTrace? ⟨"ram", 0xFFFFFFFFFFFFFFFF⟩ = some 0xFFFFFFFFFFFFFFFF := by decide
  obtain ⟨hmade, hheld⟩ := mappings_one_to_one
  refine ⟨c, high, hread, hc, hvalues, fun hroom => ?_, fun m hm => ⟨hlast m hm, ?_⟩⟩
  · have hle := (hmade ⟨6⟩ page (.since 3) "echo" ⟨"rom", 0xFFFFFFFFFFFFF001⟩).1.mp hroom
    exact absurd hle (by decide)
  · rw [← hvalues] at hm
    obtain ⟨mid, hfound⟩ := Contents.mem_mappings.mp hm
    exact hheld c hc ⟨1⟩ "echo" 50 highestPageCalls mid m hfound

end RegionAtlas
