/-
  Offers — whether a proposal offers one block to two regions.

  Blocks are given out by their positions in the catalog, and no position is given twice.  But a
  block is its name, its space and its range, and not the place where it is listed, so a catalog
  that lists one block at two positions may have it offered twice.

    1. An entry holds the block at the position that its region was given (`exists_given_of_holds`),
       so two entries that hold one block were given two positions of it.
    2. Which positions a module may take is decided by the blocks that are there: with one position
       of a block it may take every other (`ModuleKey.MayTake.of_block_eq`).
    3. Where there are as many regions of a module as blocks, the module is given all that it may
       take (`exists_given_crowd`).  If one position were left, every region would have been given
       another, and there is one too few of those (`mem_givenPositions`).

  So the first two say that nothing is offered twice unless some module may take two positions of
  one block, and the third that then something is, to some regions (`offered_once_iff`).
-/
import Mathlib.Data.List.Perm.Subperm
import RegionAtlas.Project.Program
import RegionAtlas.Proofs.PairingLaw

namespace RegionAtlas

/-! ## Holding a block -/

/-- An entry of a proposal, by its index, holds a block. -/
def Proposal.Holds (p : Proposal) (i : Nat) (b : Block) : Prop :=
  ∃ e, p.entries[i]? = some e ∧ e.block = some b

/-- **No two entries hold one block.** -/
def Proposal.HoldsOnce (p : Proposal) : Prop :=
  ∀ b i j, p.Holds i b → p.Holds j b → i = j

/-- **No module may take two positions of one block.** -/
def Image.Unrepeated (image : Image) : Prop :=
  ∀ name k, ModuleKey.ofName? name = some k → ∀ m n, k.MayTake image m → k.MayTake image n →
    image.blocks[m]? = image.blocks[n]? → m = n

section Positions

variable {image : Image} {k : ModuleKey} {m n : Nat}

theorem ModuleKey.MayTake.exists_block (h : k.MayTake image m) :
    ∃ b, image.blocks[m]? = some b := by
  obtain ⟨s, hs, rfl⟩ := h
  exact ⟨s.block, Image.mem_slots.mp ((k.eligible_sublist image).subset hs)⟩

/-- Whether a module may be given a slot depends on the block in it. -/
theorem ModuleKey.mem_eligible_of_block_eq {s t : Slot} (hs : s ∈ (k.eligible image).2)
    (ht : t ∈ image.slots) (hsame : s.block = t.block) : t ∈ (k.eligible image).2 := by
  unfold eligible at hs ⊢
  split at hs
  · -- no block is named after the file, and it is all of them or none
    split at hs
    · cases hs
    · exact ht
  · rw [List.mem_filter] at hs ⊢
    exact ⟨ht, hsame ▸ hs.2⟩

theorem ModuleKey.MayTake.of_block_eq (h : k.MayTake image m)
    (hsame : image.blocks[m]? = image.blocks[n]?) : k.MayTake image n := by
  obtain ⟨s, hs, rfl⟩ := h
  have hblock : image.blocks[s.position]? = some s.block :=
    Image.mem_slots.mp ((k.eligible_sublist image).subset hs)
  have ht : (⟨n, s.block⟩ : Slot) ∈ image.slots := Image.mem_slots.mpr (hsame.symm.trans hblock)
  exact ⟨⟨n, s.block⟩, mem_eligible_of_block_eq hs ht rfl, rfl⟩

/-- A catalog that lists no block twice repeats none. -/
theorem Image.unrepeated_of_nodup (h : image.blocks.Nodup) : image.Unrepeated := by
  intro name k _ m n hm _ hsame
  obtain ⟨b, hb⟩ := hm.exists_block
  obtain ⟨hlt, -⟩ := List.getElem?_eq_some_iff.mp hb
  exact (List.getElem?_inj hlt h).mp hsame

end Positions

/-! ## What entries hold -/

section Held

variable {image : Image} {regions : List Region} {i j : Nat} {b : Block}

/-- The entries of a proposal have numbers of their own. -/
theorem nodup_ids_propose (regions : List Region) (image : Image) :
    ((propose regions image).entries.map (·.region.id)).Nodup := by
  have hperm := (regions_perm regions image).map (·.id)
  rw [List.map_map] at hperm
  exact hperm.nodup_iff.mpr (nodup_ids_distinctRegions regions)

/-- **An entry holds what is listed at the position that its region was given.** -/
theorem exists_given_of_holds (h : (propose regions image).Holds i b) :
    ∃ r ∈ distinctRegions regions, ∃ n,
      ((propose regions image).entries.map (·.region.id))[i]? = some r.id ∧
        given image (distinctRegions regions) r.id = some n ∧ image.blocks[n]? = some b := by
  obtain ⟨e, he, hb⟩ := h
  obtain ⟨r, hr, rfl⟩ :=
    List.mem_map.mp ((entries_perm regions image).mem_iff.mp (List.mem_of_getElem? he))
  obtain ⟨n, hn, hlisted⟩ := Option.bind_eq_some_iff.mp hb
  refine ⟨r, hr, n, ?_, hn, hlisted⟩
  rw [List.getElem?_map, he]
  rfl

/-- And the block at a position that a region was given is held by its entry. -/
theorem exists_holds_of_given {r : Region} {n : Nat} (hr : r ∈ distinctRegions regions)
    (hn : given image (distinctRegions regions) r.id = some n) (hb : image.blocks[n]? = some b) :
    ∃ i : Nat, ((propose regions image).entries.map (·.region.id))[i]? = some r.id ∧
      (propose regions image).Holds i b := by
  have he := (entries_perm regions image).mem_iff.mpr (List.mem_map.mpr ⟨r, hr, rfl⟩)
  obtain ⟨i, hi⟩ := List.mem_iff_getElem?.mp he
  refine ⟨i, ?_, _, hi, ?_⟩
  · rw [List.getElem?_map, hi]
    rfl
  · show (given image (distinctRegions regions) r.id).bind (image.blocks[·]?) = some b
    rw [hn]
    exact hb

/-- **Where no module may take two positions of one block, nothing is offered twice.** -/
theorem holdsOnce_of_unrepeated (h : image.Unrepeated) (regions : List Region) :
    (propose regions image).HoldsOnce := by
  intro b i j hi hj
  have hids := nodup_ids_distinctRegions regions
  obtain ⟨r, hr, m, hir, hm, hbm⟩ := exists_given_of_holds hi
  obtain ⟨q, hq, n, hjq, hn, hbn⟩ := exists_given_of_holds hj
  obtain ⟨k, hk, htake⟩ := given_eligible hids hr hm
  have hsame : image.blocks[m]? = image.blocks[n]? := hbm.trans hbn.symm
  obtain rfl : m = n := h r.name k hk m n htake (htake.of_block_eq hsame) hsame
  have hid : r.id = q.id := given_injective hids hm hn
  obtain ⟨hlt, -⟩ := List.getElem?_eq_some_iff.mp hir
  exact (List.getElem?_inj hlt (nodup_ids_propose regions image)).mp (by rw [hir, hjq, hid])

/-- **A catalog that lists no block twice has none offered twice.** -/
theorem holdsOnce_of_nodup (h : image.blocks.Nodup) (regions : List Region) :
    (propose regions image).HoldsOnce :=
  holdsOnce_of_unrepeated (Image.unrepeated_of_nodup h) regions

end Held

/-! ## Positions given -/

/-- The positions that were given to regions. -/
def givenPositions (image : Image) (regions : List Region) : List Nat :=
  regions.filterMap fun r => given image regions r.id

section Given

variable {image : Image} {regions : List Region} {n : Nat}

/-- No position is given twice. -/
theorem nodup_givenPositions (hids : (regions.map (·.id)).Nodup) :
    (givenPositions image regions).Nodup := by
  refine List.pairwise_filterMap.mpr ((List.pairwise_map.mp hids).imp ?_)
  rintro r q hne n hn n' hn' rfl
  exact hne (given_injective hids hn hn')

/-- What is given is a position of the catalog. -/
theorem lt_of_mem_givenPositions (hids : (regions.map (·.id)).Nodup)
    (hn : n ∈ givenPositions image regions) : n < image.blocks.length := by
  obtain ⟨r, hr, hrn⟩ := List.mem_filterMap.mp hn
  obtain ⟨k, -, hk⟩ := given_eligible hids hr hrn
  obtain ⟨b, hb⟩ := hk.exists_block
  exact (List.getElem?_eq_some_iff.mp hb).1

/-- **Where as many positions are given as there are blocks, every position is.** -/
theorem mem_givenPositions (hids : (regions.map (·.id)).Nodup)
    (hall : (givenPositions image regions).length = image.blocks.length)
    (hn : n < image.blocks.length) : n ∈ givenPositions image regions := by
  by_contra hnot
  have hothers : givenPositions image regions ⊆ (List.range image.blocks.length).erase n := by
    intro m hm
    refine (List.Nodup.mem_erase_iff List.nodup_range).mpr ⟨?_, ?_⟩
    · rintro rfl
      exact hnot hm
    · exact List.mem_range.mpr (lt_of_mem_givenPositions hids hm)
  have hfew := ((nodup_givenPositions hids).subperm hothers).length_le
  rw [hall, List.length_erase_of_mem (List.mem_range.mpr hn), List.length_range] at hfew
  omega

end Given

/-! ## A crowd of regions -/

/-- As many regions of one name as asked for. -/
def crowd (name : String) (size : Nat) : List Region :=
  (List.range size).map fun i =>
    ⟨⟨UInt64.ofNat i⟩, unownedId, name, .single 0, .readOnly, .since 0⟩

section Crowd

variable {image : Image} {name : String} {k : ModuleKey} {size m : Nat}

theorem nodup_ids_crowd (name : String) (hsize : size ≤ 2 ^ 64) :
    ((crowd name size).map (·.id)).Nodup := by
  rw [crowd, List.map_map, List.nodup_map_iff_inj_on List.nodup_range]
  intro i hi j hj hid
  have hraw : UInt64.ofNat i = UInt64.ofNat j := congrArg RegionId.raw hid
  rw [← UInt64.toNat_inj, UInt64.toNat_ofNat_of_lt', UInt64.toNat_ofNat_of_lt'] at hraw
  · exact hraw
  · exact Nat.lt_of_lt_of_le (List.mem_range.mp hj) hsize
  · exact Nat.lt_of_lt_of_le (List.mem_range.mp hi) hsize

theorem name_of_mem_crowd {r : Region} (h : r ∈ crowd name size) : r.name = name := by
  obtain ⟨i, -, rfl⟩ := List.mem_map.mp h
  rfl

/-- Regions that have numbers of their own are all kept. -/
theorem distinctRegions_of_nodup {regions : List Region} (h : (regions.map (·.id)).Nodup) :
    distinctRegions regions = regions := by
  induction regions with
  | nil => rfl
  | cons r rest ih =>
    rw [List.map_cons, List.nodup_cons] at h
    rw [distinctRegions, ih h.2, List.filter_eq_self.mpr]
    intro q hq
    refine bne_iff_ne.mpr fun hid => h.1 ?_
    exact List.mem_map.mpr ⟨q, hq, hid⟩

/-- **Where there are as many regions of a module as blocks, it is given all that it may take.** -/
theorem exists_given_crowd (hname : ModuleKey.ofName? name = some k)
    (hsize : image.blocks.length ≤ 2 ^ 64) (htake : k.MayTake image m) :
    ∃ r ∈ crowd name image.blocks.length,
      given image (crowd name image.blocks.length) r.id = some m := by
  by_contra hnone
  have hids := nodup_ids_crowd name hsize
  obtain ⟨b, hb⟩ := htake.exists_block
  have hm : m < image.blocks.length := (List.getElem?_eq_some_iff.mp hb).1
  -- a region that was given nothing would leave the position to another
  have hgiven : ∀ r ∈ crowd name image.blocks.length,
      (given image (crowd name image.blocks.length) r.id).isSome = true := by
    intro r hr
    rw [← Option.isNone_eq_false_iff, Bool.eq_false_iff, ne_eq, Option.isNone_iff_eq_none]
    intro hempty
    have hmodule : r.module? = some k := by
      rw [Region.module?, name_of_mem_crowd hr, hname]
    obtain ⟨q, hq, -, -, hqm, -⟩ := given_outranked hids hr hmodule hempty htake
    exact hnone ⟨q, hq, hqm⟩
  have hall : (givenPositions image (crowd name image.blocks.length)).length =
      image.blocks.length := by
    rw [givenPositions, List.length_filterMap_eq_countP, List.countP_eq_length.mpr hgiven, crowd,
      List.length_map, List.length_range]
  exact hnone (List.mem_filterMap.mp (mem_givenPositions hids hall hm))

end Crowd

/-- **A proposal never offers one block twice, whatever regions it is for, exactly if no module may
take two positions of one block of the image.**  There are 2^64 numbers for regions; a catalog may
list as many blocks. -/
theorem offered_once_iff (image : Image) (hsize : image.blocks.length ≤ 2 ^ 64) :
    (∀ regions, (propose regions image).HoldsOnce) ↔ image.Unrepeated := by
  refine ⟨?_, holdsOnce_of_unrepeated⟩
  intro hall name k hname m n hm hn hsame
  have hids := nodup_ids_crowd name hsize
  have hkept := distinctRegions_of_nodup hids
  obtain ⟨r, hr, hrm⟩ := exists_given_crowd hname hsize hm
  obtain ⟨q, hq, hqn⟩ := exists_given_crowd hname hsize hn
  obtain ⟨b, hb⟩ := hm.exists_block
  -- both regions are offered the block, so they are one region and were given one position
  rw [← hkept] at hr hq hrm hqn
  obtain ⟨i, hir, hi⟩ := exists_holds_of_given hr hrm hb
  obtain ⟨j, hjq, hj⟩ := exists_holds_of_given hq hqn (hsame ▸ hb)
  rw [hall _ b i j hi hj, hjq] at hir
  rw [Option.some.inj hir, hrm] at hqn
  exact Option.some.inj hqn

/-- A program that lists its one block twice. -/
def relisted : ProgramConfig :=
  ⟨"ram", [⟨".text", ⟨0x410000⟩, ⟨0x1000⟩⟩, ⟨".text", ⟨0x410000⟩, ⟨0x1000⟩⟩]⟩

/-- The block that it lists. -/
def relistedBlock : Block := ⟨".text", "ram", ⟨0x410000, 0x410fff, by decide⟩⟩

/-- A module may take both positions of the block, so to some regions it is offered twice. -/
theorem relisted_offered_twice :
    (relisted.toImage "echo").blocks.length ≤ 2 ^ 64 ∧
      ¬∀ regions, (propose regions (relisted.toImage "echo")).HoldsOnce := by
  have hsize : (relisted.toImage "echo").blocks.length ≤ 2 ^ 64 := by decide
  refine ⟨hsize, fun hall => ?_⟩
  have hsame : 0 = 1 := (offered_once_iff _ hsize).mp hall "/bin/echo 61000" ⟨"/bin/echo"⟩
    (by decide) 0 1 ⟨⟨0, relistedBlock⟩, by decide, rfl⟩ ⟨⟨1, relistedBlock⟩, by decide, rfl⟩
    (by decide)
  exact absurd hsame (by decide)

/-- The regions of a process that runs it. -/
def echoText : Region :=
  ⟨⟨0⟩, ⟨1⟩, "/bin/echo 61000", ⟨0x61000, 0x61fff, by decide⟩, .readOnly, .since 0⟩

def echoData : Region :=
  ⟨⟨1⟩, ⟨1⟩, "/bin/echo 62000", ⟨0x62000, 0x62fff, by decide⟩, .readOnly, .since 0⟩

/-- Two regions are enough: both get the block. -/
theorem relisted_held_twice :
    ¬(propose [echoText, echoData] (relisted.toImage "echo")).HoldsOnce := by
  have hmade : pairings (relisted.toImage "echo") [echoText, echoData] =
      [⟨⟨0⟩, ⟨0, relistedBlock⟩, .image⟩, ⟨⟨1⟩, ⟨1, relistedBlock⟩, .image⟩] := by
    have hmodule : distinctKeys ([echoText, echoData].filterMap (·.module?)) = [⟨"/bin/echo"⟩] := by
      decide
    rw [pairings_of_one_module hmodule (by decide) (by decide) (by decide)]
    decide
  rw [propose_of_sorted (by decide) hmade (by decide)]
  intro honce
  exact absurd (honce relistedBlock 0 1 ⟨_, rfl, rfl⟩ ⟨_, rfl, rfl⟩) (by decide)

end RegionAtlas
