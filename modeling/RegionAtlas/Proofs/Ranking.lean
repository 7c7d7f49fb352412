/-
  Ranking — the orders that proposals go by, and what sorting by them gives.

  Three things are sorted on the way to a proposal: the regions of a module, the blocks that are
  left for it, and the entries in the end; and the modules themselves are put in the order in which
  they are served.  Each of these orders looks at one key first and goes on where keys are equal
  (`KeyFirst`), so that they are transitive and total for one reason.

    * Where things are known by their numbers there are no ties, and what is sorted ascends strictly
      (`Region.Precedes`, `Entry.Precedes`).
    * Blocks do have ties.  Sorting keeps what is equally good in its order
      (`pairwise_mergeSort_of_pairwise`), and the blocks of a catalog stand in the order of their
      positions, so positions break the ties (`Slot.Precedes`).
-/
import RegionAtlas.Pairing.Proposal
import RegionAtlas.Proofs.Listing

namespace RegionAtlas

/-! ## One key first -/

/-- **By one key first**, and where keys are equal by something else. -/
def KeyFirst {κ : Type} [Ord κ] (j k : κ) (rest : Prop) : Prop :=
  compare j k = .lt ∨ compare j k = .eq ∧ rest

namespace KeyFirst

variable {κ : Type} [Ord κ] {i j k : κ} {p q r : Prop}

/-- Transitivity goes through the key first, and what decides between equal keys is asked for only
where it does. -/
theorem trans [Std.TransOrd κ] (hij : KeyFirst i j p) (hjk : KeyFirst j k q)
    (hrest : p → q → r) : KeyFirst i k r := by
  rcases hij with hij | ⟨hij, hp⟩
  · rcases hjk with hjk | ⟨hjk, -⟩
    · exact .inl (Std.TransCmp.lt_trans hij hjk)
    · exact .inl (Std.TransCmp.lt_of_lt_of_eq hij hjk)
  · rcases hjk with hjk | ⟨hjk, hq⟩
    · exact .inl (Std.TransCmp.lt_of_eq_of_lt hij hjk)
    · exact .inr ⟨Std.TransCmp.eq_trans hij hjk, hrest hp hq⟩

theorem total [Std.OrientedOrd κ] (hrest : p ∨ q) : KeyFirst j k p ∨ KeyFirst k j q := by
  cases hcompare : compare j k with
  | lt => exact .inl (.inl hcompare)
  | gt => exact .inr (.inl (Std.OrientedCmp.gt_iff_lt.mp hcompare))
  | eq =>
    rcases hrest with hp | hq
    · exact .inl (.inr ⟨hcompare, hp⟩)
    · exact .inr (.inr ⟨Std.OrientedCmp.eq_symm hcompare, hq⟩)

/-- What stands before each other has equal keys, and it is something else that decides. -/
theorem antisymm [Std.OrientedOrd κ] (hjk : KeyFirst j k p) (hkj : KeyFirst k j q) : p ∧ q := by
  rcases hjk with hlt | ⟨heq, hp⟩
  · have hgt : compare k j = .gt := Std.OrientedCmp.gt_of_lt hlt
    rcases hkj with hlt' | ⟨heq', -⟩
    · rw [hgt] at hlt'
      cases hlt'
    · rw [hgt] at heq'
      cases heq'
  · rcases hkj with hlt' | ⟨-, hq⟩
    · rw [Std.OrientedCmp.gt_of_lt hlt'] at heq
      cases heq
    · exact ⟨hp, hq⟩

end KeyFirst

/-! ## Sorting -/

section Sorting

variable {α : Type} {le : α → α → Bool} {R : α → α → Prop}
  (trans : ∀ a b c, le a b = true → le b c = true → le a c = true)
  (total : ∀ a b, (le a b || le b a) = true)

include trans total

end Sorting

/-! ## Regions -/

/-- **One region stands before another**: by lowest address, then by number. -/
def Region.Precedes (r q : Region) : Prop :=
  r.range.min < q.range.min ∨ r.range.min = q.range.min ∧ r.id.raw < q.id.raw

namespace Region

/-- No two regions stand before each other. -/
theorem Precedes.asymm {r q : Region} (h : r.Precedes q) : ¬ q.Precedes r := by
  simp only [Precedes, UInt64.lt_iff_toNat_lt, ← UInt64.toNat_inj] at h ⊢
  omega

end Region

/-- **One entry stands before another**: by the name of its region, then by its lowest address, then
by its number. -/
def Entry.Precedes (e f : Entry) : Prop :=
  e.region.name < f.region.name ∨ e.region.name = f.region.name ∧ e.region.Precedes f.region

namespace Entry

/-- Names first, and then the addresses of the regions. -/
theorem order_le_iff {e f : Entry} :
    e.order_le f = true ↔
      KeyFirst e.region.name f.region.name (e.region.address_le f.region = true) := by
  unfold order_le KeyFirst
  cases compare e.region.name f.region.name <;> simp

/-- Sorting needs this, and that any two can be compared. -/
theorem order_le_trans (e f g : Entry) (hef : e.order_le f = true) (hfg : f.order_le g = true) :
    e.order_le g = true := by
  rw [order_le_iff] at hef hfg ⊢
  exact hef.trans hfg (Region.address_le_trans _ _ _)

theorem order_le_total (e f : Entry) : (e.order_le f || f.order_le e) = true := by
  rw [Bool.or_eq_true, order_le_iff, order_le_iff]
  exact KeyFirst.total (Bool.or_eq_true _ _ ▸ Region.address_le_total _ _)

/-- Entries that stand before each other are for regions of one number. -/
theorem id_eq_of_order_le {e f : Entry} (hef : e.order_le f = true) (hfe : f.order_le e = true) :
    e.region.id = f.region.id := by
  obtain ⟨hle, hge⟩ := (order_le_iff.mp hef).antisymm (order_le_iff.mp hfe)
  exact Region.id_eq_of_address_le hle hge

end Entry

/-- **One slot stands before another**: by the start of its block, then by its position in the
catalog. -/
def Slot.Precedes (s t : Slot) : Prop :=
  s.block.range.min < t.block.range.min ∨
    s.block.range.min = t.block.range.min ∧ s.position < t.position

/-- A catalog lists its slots by position. -/
theorem Image.mem_slots {image : Image} {s : Slot} :
    s ∈ image.slots ↔ image.blocks[s.position]? = some s.block := by
  rw [slots, List.mem_map]
  constructor
  · rintro ⟨⟨b, n⟩, hmem, rfl⟩
    exact List.mem_zipIdx_iff_getElem?.mp hmem
  · intro h
    exact ⟨(s.block, s.position), List.mem_zipIdx_iff_getElem?.mpr h, rfl⟩

/-- Each slot of an image carries the position at which it stands. -/
theorem Image.slots_ascending (image : Image) :
    image.slots.Pairwise fun s t => s.position < t.position := by
  refine List.pairwise_map.mpr ?_
  have hpositions : (image.blocks.zipIdx.map Prod.snd).Pairwise (· < ·) := by
    rw [List.zipIdx_map_snd]
    exact List.pairwise_lt_range'
  exact List.pairwise_map.mp hpositions

/-! ## Groups -/

namespace Group

/-- The match first, the better one before the other; then the lowest addresses, then the paths. -/
theorem order_le_iff {g h : Group} :
    g.order_le h = true ↔
      KeyFirst h.quality.weight g.quality.weight
        (KeyFirst g.lowest h.lowest ((compare g.key.path h.key.path).isLE = true)) := by
  unfold order_le KeyFirst
  cases compare h.quality.weight g.quality.weight with
  | lt => simp
  | gt => simp
  | eq => cases compare g.lowest h.lowest <;> simp

/-- Matches are compared the other way round, and so are taken in the other order. -/
theorem order_le_trans (g h i : Group) (hgh : g.order_le h = true) (hhi : h.order_le i = true) :
    g.order_le i = true := by
  rw [order_le_iff] at hgh hhi ⊢
  exact hhi.trans hgh fun hhi hgh => hgh.trans hhi Std.TransCmp.isLE_trans

theorem order_le_total (g h : Group) : (g.order_le h || h.order_le g) = true := by
  rw [Bool.or_eq_true, order_le_iff, order_le_iff]
  refine KeyFirst.total (KeyFirst.total ?_)
  cases hpaths : compare g.key.path h.key.path with
  | lt => exact .inl rfl
  | eq => exact .inl rfl
  | gt =>
    rw [Std.OrientedCmp.gt_iff_lt.mp hpaths]
    exact .inr rfl

/-- Groups that are served before each other are of one module. -/
theorem key_eq_of_order_le {g h : Group} (hgh : g.order_le h = true)
    (hhg : h.order_le g = true) : g.key = h.key := by
  obtain ⟨hgh', hhg'⟩ := (order_le_iff.mp hgh).antisymm (order_le_iff.mp hhg)
  obtain ⟨hpath, hpath'⟩ := hgh'.antisymm hhg'
  have hsame : g.key.path = h.key.path :=
    Std.LawfulEqCmp.eq_of_compare (Std.OrientedCmp.isLE_antisymm hpath hpath')
  exact congrArg ModuleKey.mk hsame

end Group

end RegionAtlas
