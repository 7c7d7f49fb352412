/-
  The pairing law — what a proposal is, without how it is found.

  A proposal has one entry for each region, in order, and gives blocks of the image to some of them.
  Which ones is a matter of ranks (`PairsByRank`):

    1. a region gets a block only if it is of a module, and only one that the module may take;
    2. within a module the regions that get one are the lowest, and the blocks ascend as they do;
    3. what is left over ranks above everything that a module was given of what it may take;
    4. a region of a module is left out only if all that the module may take went to modules that
       were served no later.

  None of this mentions the loop that gives the blocks out.  From the loop it follows turn by turn:
  a pairing is the rank-th region with the rank-th slot of what was left in the turn of its module
  (`exists_turn`), so both sides can be compared by their index in that turn, and whatever is
  missing in what was left is with those that came before.
-/
import Mathlib.Algebra.GroupWithZero.Nat
import RegionAtlas.Proofs.Revision
import RegionAtlas.Proofs.Serving

namespace RegionAtlas

/-! ## The law -/

/-- A position of the image that a module may be given. -/
def ModuleKey.MayTake (k : ModuleKey) (image : Image) (n : Nat) : Prop :=
  ∃ s ∈ (k.eligible image).2, s.position = n

/-- The lowest address of the regions of a module. -/
structure IsLowest (regions : List Region) (k : ModuleKey) (a : UInt64) : Prop where
  attained : ∃ r ∈ regions, r.module? = some k ∧ r.range.min = a
  least : ∀ r ∈ regions, r.module? = some k → a ≤ r.range.min

/-- **One module is served no later than another**: it matches the image better, or equally well and
has the lower lowest address, or the same and a path that does not come after. -/
def ServedNoLater (regions : List Region) (image : Image) (k l : ModuleKey) : Prop :=
  (l.eligible image).1.weight < (k.eligible image).1.weight ∨
    (l.eligible image).1.weight = (k.eligible image).1.weight ∧
      ∃ a b, IsLowest regions k a ∧ IsLowest regions l b ∧ (a < b ∨ a = b ∧ k.path ≤ l.path)

/-- What an entry adds to the similarity of its proposal. -/
def Entry.similarity (e : Entry) (image : Image) : Nat :=
  match e.block, e.region.module? with
  | some _, some k => (k.eligible image).1.weight
  | _, _ => 0

/-! ## Lists by index -/

section Lists

variable {α : Type} {l : List α} {a b : α} {i j : Nat}

theorem exists_getElem?_of_le (hb : l[j]? = some b) (hij : i ≤ j) : ∃ a, l[i]? = some a := by
  obtain ⟨hj, -⟩ := List.getElem?_eq_some_iff.mp hb
  exact ⟨_, List.getElem?_eq_getElem (Nat.lt_of_le_of_lt hij hj)⟩

end Lists

/-- **Of regions with one number the first is kept.** -/
theorem mem_distinctRegions {r : Region} {regions : List Region} :
    r ∈ distinctRegions regions ↔ regions.find? (·.id == r.id) = some r := by
  induction regions with
  | nil =>
    constructor
    · intro h
      cases h
    · intro h
      cases h
  | cons first rest ih =>
    rw [distinctRegions, List.mem_cons, List.mem_filter, ih, bne_iff_ne, List.find?_cons]
    by_cases hid : first.id = r.id
    · simp only [hid, BEq.rfl, ne_eq, not_true_eq_false, and_false, or_false, Option.some.injEq]
      exact eq_comm
    · have hne : ¬ r = first := fun heq => hid (congrArg Region.id heq.symm)
      have hid' : ¬ r.id = first.id := fun heq => hid heq.symm
      simp only [beq_eq_false_iff_ne.mpr hid, hne, hid', ne_eq, not_false_eq_true, and_true,
        false_or]

theorem nodup_ids_distinctRegions (regions : List Region) :
    ((distinctRegions regions).map (·.id)).Nodup := by
  induction regions with
  | nil => exact List.nodup_nil
  | cons first rest ih =>
    rw [distinctRegions, List.map_cons, List.nodup_cons]
    refine ⟨fun h => ?_, ih.sublist (List.filter_sublist.map _)⟩
    obtain ⟨q, hq, hid⟩ := List.mem_map.mp h
    exact bne_iff_ne.mp (List.mem_filter.mp hq).2 hid

/-! ## Turns -/

section Turns

variable {image : Image} {regions : List Region} {k : ModuleKey} {before after : List Group}

/-- The modules that are served, in order. -/
def served (image : Image) (regions : List Region) : List Group :=
  (groups image regions).filter (·.quality != .nothing)

theorem pairings_eq (image : Image) (regions : List Region) :
    pairings image regions = serveAll [] (served image regions) := rfl

/-- **One module has all its turns at once**: with its regions and its slots in the order of their
addresses, the first region gets the first slot and so on, until either are used up. -/
theorem pairings_of_one_module (hmodule : distinctKeys (regions.filterMap (·.module?)) = [k])
    (hsorted : regions.Pairwise fun r q => r.address_le q = true)
    (hquality : (k.eligible image).1 ≠ .nothing)
    (hslots : (k.eligible image).2.Pairwise fun s t => s.block.range.min ≤ t.block.range.min) :
    pairings image regions =
      ((regions.filter fun r => r.module? == some k).zip (k.eligible image).2).map fun (r, s) =>
        ⟨r.id, s, (k.eligible image).1⟩ := by
  have hgroups : groups image regions = [Group.of image regions k] := by
    rw [groups, hmodule]
    exact List.mergeSort_singleton _
  have hserved : served image regions = [Group.of image regions k] := by
    rw [served, hgroups]
    exact List.filter_cons_of_pos (bne_iff_ne.mpr hquality)
  -- nothing is taken before the only turn, so no slot is left out
  have hfree : ((k.eligible image).2.filter fun s =>
      !([] : List Pairing).any (·.slot.position == s.position)) = (k.eligible image).2 :=
    List.filter_eq_self.mpr fun _ _ => rfl
  rw [pairings_eq, hserved, Group.of_of_sorted hsorted]
  show Group.serve _ [] = _
  rw [Group.serve_of_ascending hslots, hfree]

/-- **The turn of a module**: some region names it, and it is served after some modules and before
others. -/
structure IsTurn (image : Image) (regions : List Region) (k : ModuleKey)
    (before after : List Group) : Prop where
  named : ∃ r ∈ regions, r.module? = some k
  split : served image regions = before ++ Group.of image regions k :: after

/-- What is left for a module after those before it. -/
def leftFor (image : Image) (regions : List Region) (k : ModuleKey) (before : List Group) :
    List Slot := (Group.of image regions k).ranked (serveAll [] before)

/-- **At some rank a region of a module meets a slot** that is left for it. -/
structure Meet (image : Image) (regions : List Region) (k : ModuleKey) (before : List Group)
    (i : Nat) (r : Region) (s : Slot) : Prop where
  region : (Group.of image regions k).members[i]? = some r
  slot : (leftFor image regions k before)[i]? = some s

/-- A module that some region names and that may take anything has a turn. -/
theorem exists_isTurn {n : Nat} (hnamed : ∃ r ∈ regions, r.module? = some k)
    (htake : k.MayTake image n) : ∃ before after, IsTurn image regions k before after := by
  have hserved : Group.of image regions k ∈ served image regions := by
    refine List.mem_filter.mpr ⟨mem_groups.mpr ⟨k, hnamed, rfl⟩, bne_iff_ne.mpr fun hnothing => ?_⟩
    obtain ⟨s, hs, -⟩ := htake
    rw [ModuleKey.eligible_of_nothing hnothing] at hs
    cases hs
  obtain ⟨before, after, hsplit⟩ := List.append_of_mem hserved
  exact ⟨before, after, hnamed, hsplit⟩

/-- **Pairings are where regions and slots meet**, each in the turn of a module. -/
theorem mem_pairings {p : Pairing} :
    p ∈ pairings image regions ↔ ∃ k before after i r s, IsTurn image regions k before after ∧
      Meet image regions k before i r s ∧ p = ⟨r.id, s, (k.eligible image).1⟩ := by
  rw [pairings_eq, mem_serveAll]
  constructor
  · rintro (hnone | ⟨before, g, after, hsplit, hserved⟩)
    · cases hnone
    · have hg : g ∈ served image regions := by
        rw [hsplit]
        exact List.mem_append_right _ List.mem_cons_self
      obtain ⟨k, hnamed, rfl⟩ := mem_groups.mp (List.mem_filter.mp hg).1
      obtain ⟨i, r, s, hr, hs, rfl⟩ := Group.mem_serve.mp hserved
      exact ⟨k, before, after, i, r, s, ⟨hnamed, hsplit⟩, ⟨hr, hs⟩, rfl⟩
  · rintro ⟨k, before, after, i, r, s, hturn, hmeet, rfl⟩
    exact .inr ⟨before, _, after, hturn.split,
      Group.mem_serve.mpr ⟨i, r, s, hmeet.region, hmeet.slot, rfl⟩⟩

namespace IsTurn

/-- What was given before a turn stays given. -/
theorem mem_of_before (h : IsTurn image regions k before after) {p : Pairing}
    (hp : p ∈ serveAll [] before) : p ∈ pairings image regions := by
  rw [pairings_eq, h.split, serveAll_append]
  exact mem_serveAll_of_mem hp _

/-- And it was given to a module that ranks no lower. -/
theorem exists_of_before (h : IsTurn image regions k before after) {p : Pairing}
    (hp : p ∈ serveAll [] before) :
    ∃ l r, r ∈ regions ∧ r.module? = some l ∧ p.region = r.id ∧
      (Group.of image regions l).order_le (Group.of image regions k) = true := by
  rcases mem_serveAll.mp hp with hnone | ⟨earlier, g, later, rfl, hserved⟩
  · cases hnone
  · have hsorted : (served image regions).Pairwise fun g h => g.order_le h = true :=
      sorted_groups.filter _
    rw [h.split] at hsorted
    have hin : g ∈ earlier ++ g :: later := List.mem_append_right _ List.mem_cons_self
    have hg : g ∈ served image regions := by
      rw [h.split]
      exact List.mem_append_left _ hin
    have hle := (List.pairwise_append.mp hsorted).2.2 g hin _ List.mem_cons_self
    obtain ⟨l, -, rfl⟩ := mem_groups.mp (List.mem_filter.mp hg).1
    obtain ⟨i, r, s, hr, -, rfl⟩ := Group.mem_serve.mp hserved
    obtain ⟨hregion, hmodule⟩ := Group.mem_members.mp (List.mem_of_getElem? hr)
    exact ⟨l, r, hregion, hmodule, rfl, hle⟩

/-- **What a module may take is left for it, or was given before.** -/
theorem left_or_given (_ : IsTurn image regions k before after) {s : Slot}
    (hs : s ∈ (k.eligible image).2) :
    (∃ i : Nat, (leftFor image regions k before)[i]? = some s) ∨
      ∃ p ∈ serveAll [] before, p.slot.position = s.position := by
  by_cases hgiven : ∃ p ∈ serveAll [] before, p.slot.position = s.position
  · exact .inr hgiven
  · refine .inl (List.mem_iff_getElem?.mp (Group.mem_ranked.mpr ⟨hs, fun p hp heq => ?_⟩))
    exact hgiven ⟨p, hp, heq⟩

end IsTurn

theorem eligible_of_leftFor {i : Nat} {s : Slot}
    (h : (leftFor image regions k before)[i]? = some s) : s ∈ (k.eligible image).2 :=
  (Group.mem_ranked.mp (List.mem_of_getElem? h)).1

end Turns

/-! ## What regions are given -/

section Given

variable {image : Image} {regions : List Region} {k : ModuleKey}

/-- The position that a region was given. -/
def given (image : Image) (regions : List Region) (id : RegionId) : Option Nat :=
  ((pairings image regions).find? (·.region == id)).map (·.slot.position)

variable (hids : (regions.map (·.id)).Nodup)

include hids

theorem nodup_regions_pairings (image : Image) :
    ((pairings image regions).map (·.region)).Nodup := by
  obtain ⟨hmembers, hdisjoint⟩ :=
    List.nodup_flatMap.mp (nodup_members_groups image hids)
  refine nodup_regions_serveAll (List.nodup_flatMap.mpr ⟨fun g hg => ?_, ?_⟩)
  · exact hmembers g (List.mem_filter.mp hg).1
  · exact hdisjoint.filter _

theorem given_eq_some {id : RegionId} {n : Nat} :
    given image regions id = some n ↔
      ∃ p ∈ pairings image regions, p.region = id ∧ p.slot.position = n := by
  rw [given, Option.map_eq_some_iff]
  constructor
  · rintro ⟨p, hfound, hn⟩
    obtain ⟨hp, hid⟩ := (find?_key_eq_some (nodup_regions_pairings hids image)).mp hfound
    exact ⟨p, hp, hid, hn⟩
  · rintro ⟨p, hp, hid, hn⟩
    exact ⟨p, (find?_key_eq_some (nodup_regions_pairings hids image)).mpr ⟨hp, hid⟩, hn⟩

theorem Meet.given {before after : List Group} {i : Nat} {r : Region} {s : Slot}
    (h : Meet image regions k before i r s) (hturn : IsTurn image regions k before after) :
    given image regions r.id = some s.position :=
  (given_eq_some hids).mpr
    ⟨_, mem_pairings.mpr ⟨k, before, after, i, r, s, hturn, h, rfl⟩, rfl, rfl⟩

/-- **A region that was given something met it in the turn of its module.** -/
theorem exists_meet {r : Region} {n : Nat} (hr : r ∈ regions)
    (h : given image regions r.id = some n) :
    ∃ k before after i s, r.module? = some k ∧ IsTurn image regions k before after ∧
      Meet image regions k before i r s ∧ s.position = n := by
  obtain ⟨p, hp, hid, hn⟩ := (given_eq_some hids).mp h
  obtain ⟨k, before, after, i, q, s, hturn, hmeet, rfl⟩ := mem_pairings.mp hp
  obtain ⟨hq, hmodule⟩ := Group.mem_members.mp (List.mem_of_getElem? hmeet.region)
  obtain rfl : q = r := eq_of_id_eq hids hq hr hid
  exact ⟨k, before, after, i, s, hmodule, hturn, hmeet, hn⟩

/-- No position is given twice. -/
theorem given_injective {i j : RegionId} {n : Nat} (hi : given image regions i = some n)
    (hj : given image regions j = some n) : i = j := by
  obtain ⟨p, hp, rfl, hpn⟩ := (given_eq_some hids).mp hi
  obtain ⟨q, hq, rfl, hqn⟩ := (given_eq_some hids).mp hj
  have hpositions : ((pairings image regions).map (·.slot.position)).Nodup := by
    refine nodup_positions_serveAll (fun g hg => ?_) List.nodup_nil
    obtain ⟨k, -, rfl⟩ := mem_groups.mp (List.mem_filter.mp hg).1
    exact Group.slots_ascending
  rw [List.inj_on_of_nodup_map hpositions hp hq (hpn.trans hqn.symm)]

/-- **1. What a region is given, its module may take.** -/
theorem given_eligible {r : Region} {n : Nat} (hr : r ∈ regions)
    (h : given image regions r.id = some n) : ∃ k, r.module? = some k ∧ k.MayTake image n := by
  obtain ⟨k, before, after, i, s, hmodule, -, hmeet, hn⟩ := exists_meet hids hr h
  exact ⟨k, hmodule, s, eligible_of_leftFor hmeet.slot, hn⟩

/-- **4. A region is left out only where all went to modules that rank no lower.** -/
theorem given_outranked {r : Region} {m : Nat} (hr : r ∈ regions) (hrk : r.module? = some k)
    (h : given image regions r.id = none) (htake : k.MayTake image m) :
    ∃ q ∈ regions, ∃ l, q.module? = some l ∧ given image regions q.id = some m ∧
      (Group.of image regions l).order_le (Group.of image regions k) = true := by
  obtain ⟨before, after, hturn⟩ := exists_isTurn ⟨r, hr, hrk⟩ htake
  obtain ⟨t, ht, rfl⟩ := htake
  rcases hturn.left_or_given ht with ⟨j, hj⟩ | ⟨p, hp, hposition⟩
  · -- the region is of a rank that nothing was left for, so a lower one has this
    have hmember : r ∈ (Group.of image regions k).members := Group.mem_members.mpr ⟨hr, hrk⟩
    obtain ⟨i, hi⟩ := List.mem_iff_getElem?.mp hmember
    have hji : j ≤ i := by
      by_contra hnot
      obtain ⟨s, hs⟩ := exists_getElem?_of_le hj (Nat.le_of_lt (Nat.not_le.mp hnot))
      rw [Meet.given hids ⟨hi, hs⟩ hturn] at h
      cases h
    obtain ⟨q, hq⟩ := exists_getElem?_of_le hi hji
    obtain ⟨hregion, hmodule⟩ := Group.mem_members.mp (List.mem_of_getElem? hq)
    refine ⟨q, hregion, k, hmodule, Meet.given hids ⟨hq, hj⟩ hturn, ?_⟩
    exact (Bool.or_self _).symm.trans (Group.order_le_total _ _)
  · obtain ⟨l, q, hq, hmodule, hid, hle⟩ := hturn.exists_of_before hp
    exact ⟨q, hq, l, hmodule,
      (given_eq_some hids).mpr ⟨p, hturn.mem_of_before hp, hid, hposition⟩, hle⟩

end Given

/-! ## The order of service -/

section Service

variable {image : Image} {regions : List Region} {k l : ModuleKey}

theorem IsLowest.congr {regions' : List Region} {a : UInt64} (h : IsLowest regions k a)
    (hsame : ∀ r, r ∈ regions ↔ r ∈ regions') : IsLowest regions' k a := by
  obtain ⟨⟨r, hr, hk, ha⟩, hleast⟩ := h
  exact ⟨⟨r, (hsame r).mp hr, hk, ha⟩, fun q hq => hleast q ((hsame q).mpr hq)⟩

theorem ServedNoLater.congr {regions' : List Region} (h : ServedNoLater regions image l k)
    (hsame : ∀ r, r ∈ regions ↔ r ∈ regions') : ServedNoLater regions' image l k := by
  rcases h with hweight | ⟨hweight, a, b, ha, hb, horder⟩
  · exact .inl hweight
  · exact .inr ⟨hweight, a, b, ha.congr hsame, hb.congr hsame, horder⟩

end Service

/-! ## Proposals -/

section Proposals

variable {image : Image} {regions : List Region}

/-- The block that a region was given. -/
theorem block_eq_given (r : Region) :
    ((pairings image regions).find? (·.region == r.id)).map (·.slot.block) =
      (given image regions r.id).bind (image.blocks[·]?) := by
  unfold given
  cases hfound : (pairings image regions).find? (·.region == r.id) with
  | none => rfl
  | some p =>
    obtain ⟨k, before, after, i, q, s, -, hmeet, rfl⟩ :=
      mem_pairings.mp (List.mem_of_find?_eq_some hfound)
    have hslot : s ∈ image.slots :=
      (k.eligible_sublist image).subset (eligible_of_leftFor hmeet.slot)
    exact (Image.mem_slots.mp hslot).symm

/-- **The entries of a proposal**: one for each region, with the block that it was given. -/
theorem entries_perm (regions : List Region) (image : Image) :
    (propose regions image).entries.Perm ((distinctRegions regions).map fun r =>
      Entry.ofPair r ((given image (distinctRegions regions) r.id).bind (image.blocks[·]?))) := by
  have hentries : ∀ r, Entry.ofPair r (((pairings image (distinctRegions regions)).find?
      (·.region == r.id)).map (·.slot.block)) =
      Entry.ofPair r ((given image (distinctRegions regions) r.id).bind (image.blocks[·]?)) :=
    fun r => congrArg (Entry.ofPair r) (block_eq_given r)
  simp only [← hentries]
  exact List.mergeSort_perm _ _

theorem regions_perm (regions : List Region) (image : Image) :
    ((propose regions image).entries.map (·.region)).Perm (distinctRegions regions) := by
  have hperm := (entries_perm regions image).map (·.region)
  rw [List.map_map] at hperm
  exact hperm.trans (.of_eq (List.map_id _))

/-- Pairings are found region by region. -/
theorem pairings_perm (image : Image) (hids : (regions.map (·.id)).Nodup) :
    (regions.filterMap fun r => (pairings image regions).find? (·.region == r.id)).Perm
      (pairings image regions) := by
  have hregions := nodup_regions_pairings hids image
  have hfound : ∀ {p : Pairing} {id : RegionId},
      (pairings image regions).find? (·.region == id) = some p ↔
        p ∈ pairings image regions ∧ p.region = id := find?_key_eq_some hregions
  refine (List.perm_ext_iff_of_nodup ?_ hregions.of_map).mpr fun p => ?_
  · refine List.pairwise_filterMap.mpr ((List.pairwise_map.mp hids).imp ?_)
    rintro r q hne p hp p' hp' rfl
    exact hne ((hfound.mp hp).2.symm.trans (hfound.mp hp').2)
  · rw [List.mem_filterMap]
    constructor
    · rintro ⟨r, -, hr⟩
      exact (hfound.mp hr).1
    · intro hp
      obtain ⟨k, before, after, i, r, s, -, hmeet, rfl⟩ := mem_pairings.mp hp
      obtain ⟨hr, -⟩ := Group.mem_members.mp (List.mem_of_getElem? hmeet.region)
      exact ⟨r, hr, hfound.mpr ⟨hp, rfl⟩⟩

/-- **A pairing is worth what its entry adds.** -/
theorem similarity_ofPair (hids : (regions.map (·.id)).Nodup) {r : Region} (hr : r ∈ regions) :
    (Entry.ofPair r ((given image regions r.id).bind (image.blocks[·]?))).similarity image =
      (((pairings image regions).find? (·.region == r.id)).map (·.quality.weight)).getD 0 := by
  rw [← block_eq_given]
  cases hfound : (pairings image regions).find? (·.region == r.id) with
  | none => rfl
  | some p =>
    obtain ⟨hp, hid⟩ := (find?_key_eq_some (nodup_regions_pairings hids image)).mp hfound
    obtain ⟨k, before, after, i, q, s, -, hmeet, rfl⟩ := mem_pairings.mp hp
    obtain ⟨hq, hmodule⟩ := Group.mem_members.mp (List.mem_of_getElem? hmeet.region)
    obtain rfl : q = r := eq_of_id_eq hids hq hr hid
    show (match some s.block, q.module? with
      | some _, some k => (k.eligible image).1.weight
      | _, _ => 0) = (k.eligible image).1.weight
    rw [hmodule]

/-- **5. The score** counts the entries with a block, and adds up how well they match. -/
theorem score_propose (regions : List Region) (image : Image) :
    (propose regions image).score =
      ⟨(propose regions image).entries.countP (·.block.isSome),
        ((propose regions image).entries.map (·.similarity image)).sum⟩ := by
  have hids := nodup_ids_distinctRegions regions
  have hpairings := pairings_perm image hids
  have hpaired : (pairings image (distinctRegions regions)).length =
      (propose regions image).entries.countP (·.block.isSome) := by
    rw [← hpairings.length_eq, List.length_filterMap_eq_countP,
      (entries_perm regions image).countP_eq, List.countP_map]
    refine List.countP_congr fun r _ => ?_
    rw [Function.comp_apply, Entry.ofPair, ← block_eq_given, Option.isSome_map]
  have hsum : ∀ (f : Region → Option Pairing) (rs : List Region),
      ((rs.filterMap f).map (·.quality.weight)).sum =
        (rs.map fun r => ((f r).map (·.quality.weight)).getD 0).sum := by
    intro f rs
    induction rs with
    | nil => rfl
    | cons r rest ih =>
      rw [List.filterMap_cons, List.map_cons, List.sum_cons, ← ih]
      cases f r with
      | none => exact (Nat.zero_add _).symm
      | some p => rfl
  have hsimilarity : (pairings image (distinctRegions regions)).foldr
      (fun p n => p.quality.weight + n) 0 =
        ((propose regions image).entries.map (·.similarity image)).sum := by
    have hworth : ((pairings image (distinctRegions regions)).map (·.quality.weight)).sum =
        ((propose regions image).entries.map (·.similarity image)).sum := by
      rw [← (hpairings.map _).sum_nat, hsum, ((entries_perm regions image).map _).sum_nat,
        List.map_map]
      exact congrArg List.sum
        (List.map_congr_left fun r hr => (similarity_ofPair hids hr).symm)
    rw [← hworth, List.sum_eq_foldr, List.foldr_map]
  show Score.of (pairings image (distinctRegions regions)) = _
  rw [Score.of, hpaired, hsimilarity]

/-! ### The similarity as a word of 32 bits -/

/-- No match is worth more than that of a block. -/
theorem NameMatch.weight_le (quality : NameMatch) : quality.weight ≤ 3 := by
  cases quality <;> decide

/-- Each pairing adds at most three to the similarity. -/
theorem Score.similarity_of_le (pairings : List Pairing) :
    (Score.of pairings).similarity ≤ 3 * (Score.of pairings).paired := by
  induction pairings with
  | nil => exact Nat.le_refl _
  | cons p rest ih =>
    have hone : p.quality.weight ≤ 3 := p.quality.weight_le
    show p.quality.weight + (Score.of rest).similarity ≤ 3 * ((Score.of rest).paired + 1)
    omega

/-- No more regions are paired than there are. -/
theorem paired_propose_le (regions : List Region) (image : Image) :
    (propose regions image).score.paired ≤ regions.length := by
  have hentries : (propose regions image).entries.length = (distinctRegions regions).length := by
    rw [(entries_perm regions image).length_eq, List.length_map]
  have hdistinct : (distinctRegions regions).length ≤ regions.length :=
    (sublist_distinctRegions regions).length_le
  have hcounted : (propose regions image).entries.countP (·.block.isSome) ≤
      (propose regions image).entries.length := List.countP_le_length
  rw [score_propose]
  show (propose regions image).entries.countP (·.block.isSome) ≤ regions.length
  omega

/-- **The similarity of a proposal fits in 32 bits**, up to the number of pairings that may each
add three. -/
theorem similarity_propose_lt {regions : List Region} {image : Image}
    (hpaired : (propose regions image).score.paired ≤ 1431655765) :
    (propose regions image).score.similarity < UInt32.size := by
  have hsum : (propose regions image).score.similarity ≤
      3 * (propose regions image).score.paired := Score.similarity_of_le _
  have hsize : UInt32.size = 3 * 1431655765 + 1 := rfl
  omega

end Proposals

end RegionAtlas
