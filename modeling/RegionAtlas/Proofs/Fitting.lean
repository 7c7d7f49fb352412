/-
  Fitting — the mapping of an entry covers the first addresses of its region and of its block, as
  many as the smaller of the two has.

  Three computations have to agree: the length is the smaller of two lengths, of which that of all
  addresses is one short; the trace side is made from its start and that length; the static side
  from its start and the extent of the trace side.  They agree for one reason:

    * a block is made from a word for its length, so it never is a whole space
      (`Block.size_lt`), and the smaller length is exactly the smaller number of addresses even
      where that of the region is not (`Block.toNat_fitting_eq`);
    * so either side is the range of that many first addresses (`AddressRange.Heads`), ends no later
      than the range it is of, and is never computed past the last word (`Block.Measured`).
-/
import RegionAtlas.Proofs.Offsets
import RegionAtlas.Proofs.Prospects

namespace RegionAtlas

/-! ## The first addresses of a range -/

/-- **The range of the first `n` addresses of another.** -/
structure AddressRange.Heads (q r : AddressRange) (n : Nat) : Prop where
  start : q.min = r.min
  within : ∀ a, q.contains a = true → r.contains a = true
  count : Nat.card {a // q.contains a = true} = n

namespace AddressRange

variable {q r : AddressRange} {n : Nat}

/-- A range that begins where another does and has no more addresses. -/
theorem heads_of_size (hmin : q.min = r.min) (hsize : q.size = n) (hle : n ≤ r.size) :
    q.Heads r n := by
  refine { start := hmin, within := fun a ha => ?_, count := q.card_contains.trans hsize }
  obtain ⟨hlow, hhigh⟩ := contains_iff_toNat.mp ha
  have hr : r.min.toNat ≤ r.max.toNat := r.toNat_min_le
  rw [size] at hsize hle
  rw [hmin] at hlow hsize
  rw [contains_iff_toNat]
  omega

end AddressRange

/-! ## Measures of a block -/

namespace Block

variable {name : String} {place : StaticAddress} {length : UInt64} {b : Block}

theorem make?_eq_some : make? name place length = some b ↔
    b.name = name ∧ b.start = place ∧ b.range.size = length.toNat := by
  rw [make?, Option.map_eq_some_iff]
  constructor
  · rintro ⟨range, hrange, rfl⟩
    obtain ⟨hmin, hsize⟩ := AddressRange.ofStartLength?_eq_some.mp hrange
    refine ⟨rfl, ?_, hsize⟩
    show StaticAddress.mk place.space range.min = place
    rw [hmin]
  · rintro ⟨rfl, rfl, hsize⟩
    exact ⟨b.range, AddressRange.ofStartLength?_eq_some.mpr ⟨rfl, hsize⟩, rfl⟩

/-- **No block is a whole space**: its length is a word. -/
theorem size_lt (hb : make? name place length = some b) : b.range.size < 2 ^ 64 := by
  obtain ⟨-, -, hsize⟩ := make?_eq_some.mp hb
  rw [hsize]
  exact length.toNat_lt

/-- **What fits is exactly the smaller number of addresses**, though the length of a region that is
the whole space is one short. -/
theorem toNat_fitting_eq (hb : b.range.size < 2 ^ 64) (range : AddressRange) :
    (b.fitting range).toNat = min range.size b.range.size := by
  have hfitting : (b.fitting range).toNat = min range.length.toNat b.range.length.toNat :=
    b.toNat_fitting range
  rw [hfitting, range.toNat_length, b.range.toNat_length]
  omega

/-- **Words on the way to the mapping of a range onto a block** whose sums and differences are those
of their numbers: the measures of both, the length `n` of what fits, and the ends of both sides.
Nothing is added to the extent of all addresses. -/
structure Measured (b : Block) (range side : AddressRange) (n : UInt64) : Prop where
  rangeExtent : DifferenceFits range.max range.min
  rangeLength : range.extent ≠ 0xFFFFFFFFFFFFFFFF → SumFits range.extent 1
  blockExtent : DifferenceFits b.range.max b.range.min
  blockLength : SumFits b.range.extent 1
  last : DifferenceFits n 1
  traceEnd : SumFits range.min (n - 1)
  sideExtent : DifferenceFits side.max side.min
  staticEnd : SumFits b.range.min side.extent

/-- **No sum on the way leaves the words**, since no side ends later than the range it is of. -/
theorem measured {range side : AddressRange} {n : UInt64} (hb : b.range.size < 2 ^ 64)
    (hpos : 1 ≤ n.toNat) (hrange : n.toNat ≤ range.size) (hblock : n.toNat ≤ b.range.size)
    (hside : side.size = n.toNat) : b.Measured range side n := by
  have hrangeOrder : range.min.toNat ≤ range.max.toNat := range.toNat_min_le
  have hblockOrder : b.range.min.toNat ≤ b.range.max.toNat := b.range.toNat_min_le
  have hrangeMax : range.max.toNat < 2 ^ 64 := range.max.toNat_lt
  have hblockMax : b.range.max.toNat < 2 ^ 64 := b.range.max.toNat_lt
  have hlast : DifferenceFits n 1 := hpos
  rw [AddressRange.size] at hb hrange hblock hside
  exact {
    rangeExtent := hrangeOrder
    rangeLength := by
      intro hless
      have hbound : range.extent.toNat < 2 ^ 64 := range.extent.toNat_lt
      have hnat : range.extent.toNat ≠ 2 ^ 64 - 1 := fun h => hless (UInt64.toNat_inj.mp h)
      show range.extent.toNat + 1 < 2 ^ 64
      omega
    blockExtent := hblockOrder
    blockLength := by
      show b.range.extent.toNat + 1 < 2 ^ 64
      rw [b.range.toNat_extent]
      exact hb
    last := hlast
    traceEnd := by
      rw [SumFits, hlast.toNat_sub]
      show range.min.toNat + (n.toNat - 1) < 2 ^ 64
      omega
    sideExtent := side.toNat_min_le
    staticEnd := by
      rw [SumFits, side.toNat_extent]
      omega }

end Block

/-! ## Entries -/

/-- **What is proposed fits on both sides.**  An entry with a block has a length, which is the
smaller of the numbers of addresses of its region and its block, and a trace side of the first so
many addresses of the region; from where the block starts that side can always be mapped, and what
it is mapped to are the first so many addresses of the block.  No sum or difference of words on the
way is another than that of the numbers. -/
theorem proposed_mappings_fit {name : String} {place : StaticAddress} {length : UInt64} {b : Block}
    (hb : Block.make? name place length = some b) (region : Region) (selected : Bool) :
    let e : Entry := ⟨region, some b, selected⟩
    ∃ n side, e.length? = some n ∧ e.traceRange? = some side ∧ e.place? = some b.start ∧
      n.toNat = min (Nat.card {a // region.range.contains a = true})
        (Nat.card {a // b.range.contains a = true}) ∧
      1 ≤ n.toNat ∧ side.Heads region.range n.toNat ∧ b.Measured region.range side n ∧
      ∀ (id : MappingId) (lifespan : Lifespan) (program : String),
        ∃ m, Mapping.fit id side lifespan program b.start = .ok m ∧
          m.traceRange = side ∧ m.place = b.start ∧ m.staticRange.Heads b.range n.toNat := by
  intro e
  have hlt : b.range.size < 2 ^ 64 := Block.size_lt hb
  have hn : (b.fitting region.range).toNat = min region.range.size b.range.size :=
    Block.toNat_fitting_eq hlt region.range
  have hpos : 1 ≤ (b.fitting region.range).toNat := by
    have hregion : 0 < region.range.size := Nat.succ_pos _
    have hblock : 0 < b.range.size := Nat.succ_pos _
    omega
  have hregionLe : (b.fitting region.range).toNat ≤ region.range.size := by omega
  have hblockLe : (b.fitting region.range).toNat ≤ b.range.size := by omega
  obtain ⟨side, hmin, hsize⟩ := region.range.exists_part hpos hregionLe
  have hside : e.traceRange? = some side := by
    rw [Entry.traceRange?_of_block rfl]
    exact AddressRange.ofStartLength?_eq_some.mpr ⟨hmin, hsize⟩
  refine ⟨b.fitting region.range, side, rfl, hside, rfl, ?_, hpos,
    AddressRange.heads_of_size hmin hsize hregionLe,
    Block.measured hlt hpos hregionLe hblockLe hsize, fun id lifespan program => ?_⟩
  · rw [AddressRange.card_contains, AddressRange.card_contains]
    exact hn
  · obtain ⟨other, hother, hsize'⟩ := b.range.exists_part hpos hblockLe
    refine ⟨⟨id, side, lifespan, program, b.space, other⟩, ?_, rfl, ?_, ?_⟩
    · exact Mapping.fit_eq_ok.mpr ⟨other, hother, hsize'.trans hsize.symm, rfl⟩
    · show StaticAddress.mk b.space other.min = b.start
      rw [hother]
      rfl
    · exact AddressRange.heads_of_size hother hsize' hblockLe

/-- A region of all addresses, and a block of all offsets but the first. -/
theorem all_but_first_fit :
    let region : Region :=
      ⟨⟨0⟩, ⟨1⟩, "ram", ⟨0, 0xFFFFFFFFFFFFFFFF, by decide⟩, ⟨true, true, false⟩, .since 0⟩
    let b : Block := ⟨"tail", "ram", ⟨1, 0xFFFFFFFFFFFFFFFF, by decide⟩⟩
    let e : Entry := ⟨region, some b, true⟩
    Block.make? "tail" ⟨"ram", 1⟩ 0xFFFFFFFFFFFFFFFF = some b ∧
      ∃ side m, e.traceRange? = some side ∧ side.max = 0xFFFFFFFFFFFFFFFE ∧
        Mapping.fit ⟨0⟩ side (.since 0) "echo" b.start = .ok m ∧
        m.staticRange.max = 0xFFFFFFFFFFFFFFFF ∧
        b.Measured region.range side 0xFFFFFFFFFFFFFFFF := by
  intro region b e
  have hb : Block.make? "tail" ⟨"ram", 1⟩ 0xFFFFFFFFFFFFFFFF = some b := by decide
  obtain ⟨n, side, hlength, hside, -, -, -, -, hmeasured, hmade⟩ :=
    proposed_mappings_fit hb region true
  obtain ⟨m, hm, -, -, -⟩ := hmade ⟨0⟩ (.since 0) "echo"
  obtain rfl : n = 0xFFFFFFFFFFFFFFFF := Option.some.inj (hlength.symm.trans (by decide))
  obtain rfl : side = ⟨0, 0xFFFFFFFFFFFFFFFE, by decide⟩ :=
    Option.some.inj (hside.symm.trans (by decide))
  obtain rfl : m = ⟨⟨0⟩, ⟨0, 0xFFFFFFFFFFFFFFFE, by decide⟩, .since 0, "echo", "ram", b.range⟩ :=
    Except.ok.inj (hm.symm.trans (Mapping.fit_eq_ok.mpr ⟨b.range, rfl, by decide, rfl⟩))
  exact ⟨hb, _, _, hside, rfl, hm, rfl, hmeasured⟩

end RegionAtlas
