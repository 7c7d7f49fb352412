/-
  Selections — a proposal depends on which regions are selected, and on nothing else.

  Regions are asked about in a list: in some order, and perhaps more than once.  What is computed
  from the list keeps that order for a while, and loses it again wherever something is sorted:

    1. of regions with one number the first is kept, so what is kept are the selected regions, each
       once, in an order of which nothing is known (`distinctRegions_perm`);
    2. a module has the same regions in the same order, since numbers break every tie
       (`Group.of_congr`), and modules are served in the same order, since paths break every tie
       between modules that match equally well and begin at one address (`groups_congr`);
    3. so the same pairings are made one after the other (`pairings_congr`), and the entries are
       sorted by a key that ends in the number as well.

  Ties between blocks of one start are no matter here: blocks are ranked from the catalog, which is
  the same in both cases.
-/
import RegionAtlas.Proofs.PairingLaw

namespace RegionAtlas

/-- **Regions of which each number stands for one.** -/
def Unambiguous (regions : List Region) : Prop :=
  ∀ r ∈ regions, ∀ q ∈ regions, r.id = q.id → r = q

section Congruence

variable {image : Image} {xs ys : List Region}

/-! ## The regions that are kept -/

theorem mem_distinctRegions_of_unambiguous (h : Unambiguous xs) {r : Region} :
    r ∈ distinctRegions xs ↔ r ∈ xs := by
  rw [mem_distinctRegions]
  constructor
  · exact List.mem_of_find?_eq_some
  · intro hr
    cases hfound : xs.find? (·.id == r.id) with
    | none => exact absurd BEq.rfl (List.find?_eq_none.mp hfound r hr)
    | some q =>
      have hid : (q.id == r.id) = true :=
        List.find?_some (p := fun q : Region => q.id == r.id) hfound
      rw [h q (List.mem_of_find?_eq_some hfound) r hr (beq_iff_eq.mp hid)]

/-- **What is kept are the selected regions**, each once. -/
theorem distinctRegions_perm (hsame : ∀ r, r ∈ xs ↔ r ∈ ys) (hxs : Unambiguous xs) :
    (distinctRegions xs).Perm (distinctRegions ys) := by
  have hys : Unambiguous ys := fun r hr q hq =>
    hxs r ((hsame r).mpr hr) q ((hsame q).mpr hq)
  refine (List.perm_ext_iff_of_nodup (nodup_ids_distinctRegions xs).of_map
    (nodup_ids_distinctRegions ys).of_map).mpr fun r => ?_
  rw [mem_distinctRegions_of_unambiguous hxs, mem_distinctRegions_of_unambiguous hys, hsame]

/-! ## What is computed from them -/

variable (hids : (xs.map (·.id)).Nodup) (hperm : xs.Perm ys)

include hids hperm

/-- A module has the same regions in the same order. -/
theorem Group.of_congr (image : Image) (k : ModuleKey) :
    Group.of image xs k = Group.of image ys k := by
  have hmembers : (xs.filter fun r => ModuleKey.ofName? r.name == some k).mergeSort
      Region.address_le =
        (ys.filter fun r => ModuleKey.ofName? r.name == some k).mergeSort Region.address_le := by
    refine mergeSort_congr Region.address_le_trans Region.address_le_total (hperm.filter _) ?_
    intro r hr q hq hle hge
    exact eq_of_id_eq hids (List.mem_filter.mp hr).1 (List.mem_filter.mp hq).1
      (Region.id_eq_of_address_le hle hge)
  unfold Group.of
  dsimp only
  rw [hmembers]

/-- **The same modules are served in the same order.** -/
theorem groups_congr (image : Image) : groups image xs = groups image ys := by
  have hkeys : (distinctKeys (xs.filterMap (·.module?))).Perm
      (distinctKeys (ys.filterMap (·.module?))) := by
    refine (List.perm_ext_iff_of_nodup (nodup_distinctKeys _) (nodup_distinctKeys _)).mpr ?_
    intro k
    rw [mem_distinctKeys, mem_distinctKeys, (hperm.filterMap _).mem_iff]
  have hgroups : Group.of image xs = Group.of image ys :=
    funext (Group.of_congr hids hperm image)
  unfold groups
  dsimp only
  rw [hgroups]
  refine mergeSort_congr Group.order_le_trans Group.order_le_total (hkeys.map _) ?_
  intro g hg h hh hle hge
  obtain ⟨k, -, rfl⟩ := List.mem_map.mp hg
  obtain ⟨l, -, rfl⟩ := List.mem_map.mp hh
  have hkey : k = l := Group.key_eq_of_order_le hle hge
  rw [hkey]

/-- **The same pairings are made**, one after the other. -/
theorem pairings_congr (image : Image) : pairings image xs = pairings image ys := by
  unfold pairings
  rw [groups_congr hids hperm image]

/-- Entries for the same regions come out in the same order, whatever blocks they are given. -/
theorem entries_congr (blockOf : Region → Option Block) :
    (xs.map fun r => Entry.ofPair r (blockOf r)).mergeSort Entry.order_le =
      (ys.map fun r => Entry.ofPair r (blockOf r)).mergeSort Entry.order_le := by
  refine mergeSort_congr Entry.order_le_trans Entry.order_le_total (hperm.map _) ?_
  intro e he f hf hle hge
  obtain ⟨r, hr, rfl⟩ := List.mem_map.mp he
  obtain ⟨q, hq, rfl⟩ := List.mem_map.mp hf
  have hsame : r = q := eq_of_id_eq hids hr hq (Entry.id_eq_of_order_le hle hge)
  rw [hsame]

end Congruence

/-- **A proposal depends on the regions selected and on neither their order nor their
repetition**: two lists with the same regions, each number standing for one of them, are given one
proposal, with the same entries, blocks, selection, program and score. -/
theorem proposals_depend_on_selection (image : Image) (xs ys : List Region)
    (hsame : ∀ r, r ∈ xs ↔ r ∈ ys) (hxs : Unambiguous xs) :
    propose xs image = propose ys image := by
  have hperm : (distinctRegions xs).Perm (distinctRegions ys) := distinctRegions_perm hsame hxs
  have hids : ((distinctRegions xs).map (·.id)).Nodup := nodup_ids_distinctRegions xs
  unfold propose
  dsimp only
  rw [pairings_congr hids hperm, entries_congr hids hperm]

/-- A region that is mapped to one address whenever it is. -/
def visit (id : UInt64) (name : String) (start : Snap) : Region :=
  ⟨⟨id⟩, ⟨1⟩, name, ⟨0x63000, 0x63fff, by decide⟩, .readOnly, .since start⟩

/-- Regions of two modules, one after the other at the same address. -/
def visits : List Region :=
  [visit 0 "/bin/cat 63000" 0, visit 1 "/bin/echo 63000" 3, visit 2 "/bin/echo 63000" 7]

/-- Both modules may take both blocks, and the blocks have one start. -/
def visitedImage : Image :=
  ⟨"coreutils", [⟨"cat and echo", "ram", ⟨0x430000, 0x430fff, by decide⟩⟩,
    ⟨"echo and cat", "overlay", ⟨0x430000, 0x4307ff, by decide⟩⟩]⟩

/-- The lowest region of each module is given a block. -/
theorem pairings_visits : pairings visitedImage visits =
    [⟨⟨0⟩, ⟨0, ⟨"cat and echo", "ram", ⟨0x430000, 0x430fff, by decide⟩⟩⟩, .block⟩,
      ⟨⟨1⟩, ⟨1, ⟨"echo and cat", "overlay", ⟨0x430000, 0x4307ff, by decide⟩⟩⟩, .block⟩] := by
  have hgroup : ∀ {k : ModuleKey} {members : List Region},
      k.eligible visitedImage = (.block, visitedImage.slots) →
      visits.filter (fun r => r.module? == some k) = members →
      Group.of visitedImage visits k = ⟨k, .block, visitedImage.slots, members⟩ := by
    rintro k members heligible rfl
    rw [Group.of_of_sorted (by decide), heligible]
  have hcat : Group.of visitedImage visits ⟨"/bin/cat"⟩ =
      ⟨⟨"/bin/cat"⟩, .block, visitedImage.slots, [visit 0 "/bin/cat 63000" 0]⟩ :=
    hgroup (by decide) (by decide)
  have hecho : Group.of visitedImage visits ⟨"/bin/echo"⟩ =
      ⟨⟨"/bin/echo"⟩, .block, visitedImage.slots,
        [visit 1 "/bin/echo 63000" 3, visit 2 "/bin/echo 63000" 7]⟩ :=
    hgroup (by decide) (by decide)
  have hkeys : distinctKeys (visits.filterMap (·.module?)) = [⟨"/bin/cat"⟩, ⟨"/bin/echo"⟩] := by
    decide
  rw [pairings, groups, hkeys, List.map_cons, List.map_cons, List.map_nil, hcat, hecho,
    List.mergeSort_of_pairwise (by decide)]
  -- one turn for each of the two, the second with what the first left
  show serveAll [] [_, _] = _
  rw [serveAll, serveAll, serveAll, Group.serve_of_ascending (by decide),
    Group.serve_of_ascending (by decide)]
  decide

/-- Backwards and with repetitions the same is proposed: the module whose path comes first takes the
block that is listed first, and the lower number of the other the one that is left. -/
theorem visits_depend_on_selection :
    let again := visits.reverse ++ visits
    (∀ r, r ∈ visits ↔ r ∈ again) ∧ Unambiguous visits ∧
      propose visits visitedImage = propose again visitedImage ∧
      (propose again visitedImage).entries.map (fun e => (e.region.id, e.block.map (·.name))) =
        [(⟨0⟩, some "cat and echo"), (⟨1⟩, some "echo and cat"), (⟨2⟩, none)] := by
  intro again
  have hsame : ∀ r, r ∈ visits ↔ r ∈ again := by
    intro r
    rw [List.mem_append, List.mem_reverse, or_self]
  have hids : Unambiguous visits := by
    unfold Unambiguous
    decide
  have hpropose := proposals_depend_on_selection visitedImage visits again hsame hids
  refine ⟨hsame, hids, hpropose, ?_⟩
  rw [← hpropose, propose_of_sorted (by decide) pairings_visits (by decide)]
  decide

end RegionAtlas
