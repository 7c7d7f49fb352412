/-
  Revisions — what a user can do to a proposal, and what stays whatever is done.

  A revision gives an entry another block or takes it in or out of the commit.  Either way an entry
  keeps its region, so the regions of a proposal, one by one and in order, are those it was made
  with (`map_region_revised`); and those are regions that it was made for (`region_mem_of_propose`).
-/
import RegionAtlas.Pairing.Proposal

namespace RegionAtlas

/-! ## Regions of a proposal as computed -/

/-- Regions are left out, and those that stay keep their order. -/
theorem sublist_distinctRegions (regions : List Region) :
    (distinctRegions regions).Sublist regions := by
  induction regions with
  | nil => exact List.Sublist.refl []
  | cons first rest ih => exact (List.filter_sublist.trans ih).cons_cons first

/-- **Every entry is for a region that was asked about.** -/
theorem region_mem_of_propose {regions : List Region} {image : Image} {e : Entry}
    (h : e ∈ (propose regions image).entries) : e.region ∈ regions := by
  rw [propose] at h
  dsimp only at h
  rw [List.mem_mergeSort] at h
  obtain ⟨r, hr, rfl⟩ := List.mem_map.mp h
  exact (sublist_distinctRegions regions).subset hr

/-- Of different regions in the order of entries, each has its entry where it stands. -/
theorem propose_of_sorted {regions : List Region} {image : Image} {made : List Pairing}
    (hdistinct : distinctRegions regions = regions) (hmade : pairings image regions = made)
    (hsorted : (regions.map fun r =>
      Entry.ofPair r ((made.find? (·.region == r.id)).map (·.slot.block))).Pairwise
        fun e f => e.order_le f = true) :
    propose regions image = ⟨image.name, regions.map fun r =>
      Entry.ofPair r ((made.find? (·.region == r.id)).map (·.slot.block)), .of made⟩ := by
  rw [propose]
  dsimp only
  rw [hdistinct, hmade, List.mergeSort_of_pairwise hsorted]

namespace Proposal

/-! ## Revisions -/

/-- What a user can do to a proposal. -/
inductive Revision where
  | setBlock (index : Nat) (block : Option Block)
  | setSelected (index : Nat) (selected : Bool)

/-- The proposal after a revision. -/
def revise (p : Proposal) : Revision → Proposal
  | .setBlock index block => (p.setBlock index block).1
  | .setSelected index selected => p.setSelected index selected

/-- The proposal after revisions in order. -/
def revised (p : Proposal) (revisions : List Revision) : Proposal := revisions.foldl revise p

/-- Changing an entry in other respects leaves the regions as they are. -/
theorem map_region_modifyEntry (p : Proposal) (index : Nat) {f : Entry → Entry}
    (hf : ∀ e, (f e).region = e.region) :
    (p.modifyEntry index f).entries.map (·.region) = p.entries.map (·.region) := by
  show (p.entries.modify index f).map (·.region) = _
  refine List.ext_getElem? fun i => ?_
  rw [List.getElem?_map, List.getElem?_map, List.getElem?_modify]
  cases p.entries[i]? with
  | none => rfl
  | some e =>
    show some (if index = i then f e else e).region = some e.region
    split
    · rw [hf]
    · rfl

theorem map_region_revise (p : Proposal) (revision : Revision) :
    (p.revise revision).entries.map (·.region) = p.entries.map (·.region) := by
  cases revision with
  | setSelected index selected => exact p.map_region_modifyEntry index fun _ => rfl
  | setBlock index block =>
    show ((p.setBlock index block).1).entries.map _ = _
    rw [setBlock]
    split
    · -- first the entry that loses the block, if one does, and then the entry itself
      have hset : ∀ q : Proposal, (q.modifyEntry index fun e =>
          { e with block := block, selected := block.isSome }).entries.map (·.region) =
            q.entries.map (·.region) := fun q => q.map_region_modifyEntry index fun _ => rfl
      refine (hset _).trans ?_
      split
      · exact p.map_region_modifyEntry _ fun _ => rfl
      · rfl
    · rfl

/-- **Revisions leave the regions as they are**, in order. -/
theorem map_region_revised (p : Proposal) (revisions : List Revision) :
    (p.revised revisions).entries.map (·.region) = p.entries.map (·.region) := by
  induction revisions generalizing p with
  | nil => rfl
  | cons revision rest ih =>
    show ((p.revise revision).revised rest).entries.map _ = _
    rw [ih, map_region_revise]

/-- Every entry of a revised proposal is for a region that was asked about. -/
theorem region_mem_of_revised {regions : List Region} {image : Image}
    {revisions : List Revision} {e : Entry}
    (h : e ∈ ((propose regions image).revised revisions).entries) : e.region ∈ regions := by
  have hregion : e.region ∈ ((propose regions image).revised revisions).entries.map (·.region) :=
    List.mem_map.mpr ⟨e, h, rfl⟩
  rw [map_region_revised] at hregion
  obtain ⟨f, hf, hsame⟩ := List.mem_map.mp hregion
  rw [← hsame]
  exact region_mem_of_propose hf

end Proposal

end RegionAtlas
