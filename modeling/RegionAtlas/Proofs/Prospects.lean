/-
  Prospects — the mapping that an entry of a proposal would become.

  It maps as much of the region as fits in the block: both sides begin where region and block begin
  and have the length of the shorter of the two (`Block.Maps`).  Such a mapping always exists, since
  neither side can leave the range it is a part of (`Block.exists_maps`), and but for its number
  there is only one (`Block.Maps.eq`).  So no entry is ever refused for its measures, and whether
  its prospect conflicts with something is a question about the entry
  (`Prospect.conflictsWith_congr`).

  A proposal keeps the regions as they were when it was made, and a prospect is about the region as
  it is now.  The range is the same in both, for the range of a region never changes
  (`Entry.Current`).
-/
import RegionAtlas.Pairing.Commit
import RegionAtlas.Proofs.Sides

namespace RegionAtlas

/-! ## Parts of ranges -/

/-- A range has a part of every length up to its own that begins where it begins. -/
theorem AddressRange.exists_part (r : AddressRange) {n : Nat} (hpos : 0 < n) (hle : n ≤ r.size) :
    ∃ q : AddressRange, q.min = r.min ∧ q.size = n := by
  have hmin : r.min.toNat ≤ r.max.toNat := r.toNat_min_le
  have hmax : r.max.toNat < 2 ^ 64 := r.max.toNat_lt
  have hlast : r.min.toNat + (n - 1) < 2 ^ 64 := by
    rw [size] at hle
    omega
  have hnat : (UInt64.ofNat (r.min.toNat + (n - 1))).toNat = r.min.toNat + (n - 1) :=
    UInt64.toNat_ofNat_of_lt' hlast
  have horder : r.min ≤ UInt64.ofNat (r.min.toNat + (n - 1)) := by
    rw [UInt64.le_iff_toNat_le, hnat]
    omega
  refine ⟨⟨r.min, UInt64.ofNat (r.min.toNat + (n - 1)), horder⟩, rfl, ?_⟩
  show (UInt64.ofNat (r.min.toNat + (n - 1))).toNat - r.min.toNat + 1 = n
  rw [hnat]
  omega

/-- No length is zero, and none is more than there are addresses. -/
theorem AddressRange.toNat_length_bounds (r : AddressRange) :
    0 < r.length.toNat ∧ r.length.toNat ≤ r.size := by
  have hlength : r.length.toNat = Min.min r.size (2 ^ 64 - 1) := r.toNat_length
  have hsize : 0 < r.size := Nat.succ_pos _
  omega

/-! ## The mapping of a range onto a block -/

/-- The length of what fits of a range in a block. -/
def Block.fitting (b : Block) (range : AddressRange) : UInt64 := min range.length b.length

theorem Block.toNat_fitting (b : Block) (range : AddressRange) :
    (b.fitting range).toNat = min range.length.toNat b.length.toNat := by
  show (if range.length ≤ b.length then range.length else b.length).toNat = _
  split
  · next hle =>
    have hnat : range.length.toNat ≤ b.length.toNat := UInt64.le_iff_toNat_le.mp hle
    omega
  · next hgt =>
    have hnat : ¬ range.length.toNat ≤ b.length.toNat := fun h => hgt (UInt64.le_iff_toNat_le.mpr h)
    omega

/-- **A mapping of as much of a range as fits in a block.** -/
structure Block.Maps (b : Block) (range : AddressRange) (lifespan : Lifespan) (program : String)
    (m : Mapping) : Prop where
  traceMin : m.traceRange.min = range.min
  traceSize : m.traceRange.size = (b.fitting range).toNat
  staticMin : m.staticRange.min = b.range.min
  staticSize : m.staticRange.size = (b.fitting range).toNat
  space : m.space = b.space
  program : m.program = program
  lifespan : m.lifespan = lifespan

namespace Block

variable {b : Block} {range side : AddressRange} {lifespan : Lifespan} {program : String}
  {m n : Mapping}

/-- But for its number there is one such mapping. -/
theorem Maps.eq (hm : b.Maps range lifespan program m) (hn : b.Maps range lifespan program n) :
    n = { m with id := n.id } := by
  have htrace : n.traceRange = m.traceRange :=
    AddressRange.eq_of_size (hn.traceMin.trans hm.traceMin.symm)
      (hn.traceSize.trans hm.traceSize.symm)
  have hstatic : n.staticRange = m.staticRange :=
    AddressRange.eq_of_size (hn.staticMin.trans hm.staticMin.symm)
      (hn.staticSize.trans hm.staticSize.symm)
  cases n
  cases m
  simp only [Mapping.mk.injEq, true_and]
  exact ⟨htrace, hn.lifespan.trans hm.lifespan.symm, hn.program.trans hm.program.symm,
    hn.space.trans hm.space.symm, hstatic⟩

/-- Both sides can always be made: the length is at least one, and no more than either range has. -/
theorem exists_maps (b : Block) (range : AddressRange) (lifespan : Lifespan) (program : String)
    (id : MappingId) :
    ∃ side m, AddressRange.ofStartLength? range.min (b.fitting range) = some side ∧
      Mapping.fit id side lifespan program b.start = .ok m ∧ m.id = id ∧
      b.Maps range lifespan program m := by
  obtain ⟨hrange, hrangeSize⟩ := range.toNat_length_bounds
  obtain ⟨hblock, hblockSize⟩ := b.range.toNat_length_bounds
  have hfitting : (b.fitting range).toNat = min range.length.toNat b.range.length.toNat :=
    b.toNat_fitting range
  have hpos : 0 < (b.fitting range).toNat := by omega
  obtain ⟨traceSide, hmin, hsize⟩ := range.exists_part hpos (by omega)
  obtain ⟨staticSide, hmin', hsize'⟩ := b.range.exists_part hpos (by omega)
  refine ⟨traceSide, ⟨id, traceSide, lifespan, program, b.space, staticSide⟩,
    AddressRange.ofStartLength?_eq_some.mpr ⟨hmin, hsize⟩, ?_, rfl, ?_⟩
  · exact Mapping.fit_eq_ok.mpr ⟨staticSide, hmin', hsize'.trans hsize.symm, rfl⟩
  · exact {
      traceMin := hmin
      traceSize := hsize
      staticMin := hmin'
      staticSize := hsize'
      space := rfl
      program := rfl
      lifespan := rfl }

end Block

/-! ## Entries -/

namespace Entry

variable {e : Entry} {c : Contents} {image : Image} {s : Snap} {m n : Mapping}

/-- The region of the entry is there and alive. -/
def Alive (e : Entry) (c : Contents) (s : Snap) : Prop :=
  ∃ r, c.region? e.region.id = some r ∧ r.isAliveAt s = true

/-- The block of the entry is in the image. -/
def Listed (e : Entry) (image : Image) : Prop :=
  ∃ b, e.block = some b ∧ image.contains b = true

/-- **The mapping an entry would become**: of as much of its region as fits in its block, for the
lifespan that the region has, into the program of the image. -/
def Prospect (e : Entry) (c : Contents) (image : Image) (m : Mapping) : Prop :=
  ∃ r b, c.region? e.region.id = some r ∧ e.block = some b ∧
    b.Maps r.range r.lifespan image.name m

/-- The region of the entry has the range that it had when the proposal was made. -/
def Current (e : Entry) (c : Contents) : Prop :=
  ∀ r, c.region? e.region.id = some r → r.range = e.region.range

theorem Prospect.eq (hm : e.Prospect c image m) (hn : e.Prospect c image n) :
    n = { m with id := n.id } := by
  obtain ⟨r, b, hr, hb, hmaps⟩ := hm
  obtain ⟨r', b', hr', hb', hmaps'⟩ := hn
  rw [hr] at hr'
  rw [hb] at hb'
  cases hr'
  cases hb'
  exact hmaps.eq hmaps'

/-- Whether a prospect conflicts with something does not depend on the number it is given. -/
theorem Prospect.conflictsWith_congr (hm : e.Prospect c image m) (hn : e.Prospect c image n)
    (other : Mapping) : n.conflictsWith other = m.conflictsWith other := by
  rw [hm.eq hn]
  rfl

/-- **An entry whose region is there and that has a block has a prospect.** -/
theorem exists_prospect (halive : e.Alive c s) (hlisted : e.Listed image) :
    ∃ m, e.Prospect c image m := by
  obtain ⟨r, hr, -⟩ := halive
  obtain ⟨b, hb, -⟩ := hlisted
  obtain ⟨-, m, -, -, -, hmaps⟩ := b.exists_maps r.range r.lifespan image.name ⟨0⟩
  exact ⟨m, r, b, hr, hb, hmaps⟩

/-- The range that an entry computes is that of its prospect. -/
theorem traceRange?_of_block {b : Block} (hb : e.block = some b) :
    e.traceRange? =
      AddressRange.ofStartLength? e.region.range.min (b.fitting e.region.range) := by
  rw [traceRange?, length?, hb]
  rfl

/-- **What is asked of the trace for an entry**: a mapping as long as its prospect, or nothing. -/
inductive Asks (e : Entry) (c : Contents) (image : Image) (s : Snap) :
    Except FailureReason Edit → Prop where
  /-- The region is gone, or not alive. -/
  | staleRegion (dead : ¬ e.Alive c s) : Asks e c image s (.error .staleRegion)
  /-- There is no block, or it is not in the image. -/
  | staleBlock (alive : e.Alive c s) (unlisted : ¬ e.Listed image) :
      Asks e c image s (.error .staleBlock)
  | mapping {r : Region} {b : Block} {side : AddressRange} (alive : e.Alive c s)
      (listed : e.Listed image) (found : c.region? e.region.id = some r) (paired : e.block = some b)
      (part : AddressRange.ofStartLength? r.range.min (b.fitting r.range) = some side) :
      Asks e c image s (.ok (.addMapping side r.lifespan image.name b.start))

/-- That is what an entry asks for, though it computes the range from the region as it was. -/
theorem asks_mappingEdit (hcurrent : e.Current c) (image : Image) (s : Snap) :
    e.Asks c image s (e.mappingEdit (c.region? e.region.id) image s) := by
  cases hr : c.region? e.region.id with
  | none =>
    refine .staleRegion ?_
    rintro ⟨r, hr', -⟩
    rw [hr] at hr'
    cases hr'
  | some r =>
    rw [mappingEdit]
    split
    · next halive =>
      have hthere : e.Alive c s := ⟨r, hr, halive⟩
      cases hb : e.block with
      | none =>
        refine .staleBlock hthere ?_
        rintro ⟨b, hb', -⟩
        rw [hb] at hb'
        cases hb'
      | some b =>
        obtain ⟨side, -, hside, -, -, -⟩ := b.exists_maps r.range r.lifespan image.name ⟨0⟩
        have hrange : e.traceRange? = some side := by
          rw [traceRange?_of_block hb, ← hcurrent r hr]
          exact hside
        rw [hrange]
        dsimp only
        split
        · next hin => exact .mapping hthere ⟨b, hb, hin⟩ hr hb hside
        · next hout =>
          refine .staleBlock hthere ?_
          rintro ⟨b', hb', hin⟩
          rw [hb] at hb'
          cases hb'
          exact hout hin
    · next hdead =>
      refine .staleRegion ?_
      rintro ⟨r', hr', halive⟩
      rw [hr] at hr'
      cases hr'
      exact hdead halive

end Entry

/-- **What makes a proposal committable**: every region is there and alive, every block is in the
image, and no prospect conflicts with a committed mapping or with the prospect of another entry. -/
structure Committable (c : Contents) (image : Image) (s : Snap) (entries : List Entry) : Prop where
  alive : ∀ e ∈ entries, e.Alive c s
  listed : ∀ e ∈ entries, e.Listed image
  free : ∀ e ∈ entries, ∀ m, e.Prospect c image m → ∀ id n, c.mapping? id = some n →
    m.conflictsWith n = false
  apart : entries.Pairwise fun e f => ∀ m n, e.Prospect c image m → f.Prospect c image n →
    m.conflictsWith n = false

end RegionAtlas
