/-
  Enablement — mapping is offered for an image exactly if a proposal would come to something.

  Whether it is offered is asked of one region after another: is it alive, and is there any block at
  all that its module may take.  What is proposed is a matter of all of them together, since modules
  compete for blocks and most of them may go without.  Why the two agree all the same:

    1. a block that is given was one that the module of the region may take (`given_eligible`);
    2. a module goes without only where all that it may take was given away (`given_outranked`), so
       where a module may take anything somebody was given something (`exists_block_iff`).  Who that
       is does not matter.

  So an image for which nothing is offered pairs nothing, and in the choice of the best image what
  pairs nothing never counts (`foldl_better_filter`).

  The first of these is about regions of which each number stands for one.  Contents see to that,
  whatever numbers are selected and however often, because every region is stored under its own.
-/
import RegionAtlas.Proofs.Commands
import RegionAtlas.Proofs.Offers
import RegionAtlas.Proofs.Selections

namespace RegionAtlas

/-! ## 1. Regions that are selected -/

/-- Regions that are found under numbers are told apart by them. -/
theorem unambiguous_regionsFor {c : Contents} (hc : c.Keyed) (ids : List RegionId) :
    Unambiguous (regionsFor c ids) := by
  intro r hr q hq hid
  obtain ⟨i, -, hri⟩ := List.mem_filterMap.mp hr
  obtain ⟨j, -, hqj⟩ := List.mem_filterMap.mp hq
  have hij : i = j := (hc i r hri).symm.trans (hid.trans (hc j q hqj))
  rw [hij, hqj] at hri
  exact (Option.some.inj hri).symm

theorem Unambiguous.filter {regions : List Region} (h : Unambiguous regions) (P : Region → Bool) :
    Unambiguous (regions.filter P) := fun r hr q hq =>
  h r (List.mem_filter.mp hr).1 q (List.mem_filter.mp hq).1

/-- **Mapping is offered** exactly if some region that is alive is of a module that may take a
block. -/
theorem canMap_iff {regions : List Region} {s : Snap} {image : Image} :
    canMap regions s image = true ↔
      ∃ r ∈ regions.filter (·.isAliveAt s), ∃ k n, r.module? = some k ∧ k.MayTake image n := by
  rw [canMap, List.any_eq_true]
  simp only [List.mem_filter, and_assoc]
  refine exists_congr fun r => and_congr_right fun _ => ?_
  rw [Bool.and_eq_true]
  refine and_congr_right fun _ => ?_
  cases hk : ModuleKey.ofName? r.name with
  | none =>
    refine iff_of_false Bool.false_ne_true ?_
    rintro ⟨k, n, hmodule, -⟩
    cases hk.symm.trans hmodule
  | some k =>
    show (!(k.eligible image).2.isEmpty) = true ↔ _
    rw [Bool.not_eq_true', List.isEmpty_eq_false_iff_exists_mem]
    constructor
    · rintro ⟨slot, hslot⟩
      exact ⟨k, slot.position, hk, slot, hslot, rfl⟩
    · rintro ⟨l, n, hmodule, slot, hslot, -⟩
      obtain rfl : k = l := Option.some.inj (hk.symm.trans hmodule)
      exact ⟨slot, hslot⟩

/-! ## 2. Proposals that come to something -/

section Proposals

variable {regions : List Region} {image : Image}

/-- The entry of a region that was given a position has a block. -/
theorem exists_entry_of_given {r : Region} {n : Nat} (hr : r ∈ distinctRegions regions)
    (h : given image (distinctRegions regions) r.id = some n) :
    ∃ e ∈ (propose regions image).entries, ∃ b, e.block = some b := by
  obtain ⟨k, -, htake⟩ := given_eligible (nodup_ids_distinctRegions regions) hr h
  obtain ⟨b, hb⟩ := htake.exists_block
  obtain ⟨i, -, e, he, hblock⟩ := exists_holds_of_given hr h hb
  exact ⟨e, List.mem_of_getElem? he, b, hblock⟩

/-- **Some entry has a block exactly if some region is of a module that may take one.** -/
theorem exists_block_iff (hregions : Unambiguous regions) :
    (∃ e ∈ (propose regions image).entries, ∃ b, e.block = some b) ↔
      ∃ r ∈ regions, ∃ k n, r.module? = some k ∧ k.MayTake image n := by
  have hids : ((distinctRegions regions).map (·.id)).Nodup := nodup_ids_distinctRegions regions
  constructor
  · rintro ⟨e, he, b, hb⟩
    obtain ⟨i, hi⟩ := List.mem_iff_getElem?.mp he
    obtain ⟨r, hr, n, -, hgiven, -⟩ := exists_given_of_holds (i := i) ⟨e, hi, hb⟩
    obtain ⟨k, hmodule, htake⟩ := given_eligible hids hr hgiven
    exact ⟨r, (mem_distinctRegions_of_unambiguous hregions).mp hr, k, n, hmodule, htake⟩
  · rintro ⟨r, hr, k, n, hmodule, htake⟩
    have hkept : r ∈ distinctRegions regions :=
      (mem_distinctRegions_of_unambiguous hregions).mpr hr
    cases hgiven : given image (distinctRegions regions) r.id with
    | some m => exact exists_entry_of_given hkept hgiven
    | none =>
      -- then what the module may take went to another region
      obtain ⟨q, hq, -, -, hother, -⟩ := given_outranked hids hkept hmodule hgiven htake
      exact exists_entry_of_given hq hother

/-- A proposal pairs nothing exactly if no entry has a block. -/
theorem paired_eq_zero_iff :
    (propose regions image).score.paired = 0 ↔
      ¬ ∃ e ∈ (propose regions image).entries, ∃ b, e.block = some b := by
  rw [score_propose]
  show List.countP _ _ = 0 ↔ _
  rw [List.countP_eq_zero]
  simp only [Option.isSome_iff_exists, not_exists, not_and]

end Proposals

/-! ## 3. The best image -/

section Best

variable {regions : List Region} {images : List Image}

/-- **Images whose proposals pair nothing make no difference** to which is the best. -/
theorem foldl_better_filter {offered : Image → Bool}
    (h : ∀ image, offered image = false → (propose regions image).score.paired = 0)
    (best : Option Proposal) :
    ((images.filter offered).map (propose regions)).foldl better best =
      (images.map (propose regions)).foldl better best := by
  induction images generalizing best with
  | nil => rfl
  | cons image rest ih =>
    cases hoffered : offered image with
    | true =>
      rw [List.filter_cons_of_pos hoffered]
      exact ih (better best (propose regions image))
    | false =>
      have hskipped : better best (propose regions image) = best := if_pos (h image hoffered)
      rw [List.filter_cons_of_neg (Bool.eq_false_iff.mp hoffered), List.map_cons, List.foldl_cons,
        hskipped]
      exact ih best

/-- There is no best proposal exactly if there was none before and all that were made pair
nothing. -/
theorem foldl_better_eq_none {best : Option Proposal} :
    (images.map (propose regions)).foldl better best = none ↔
      best = none ∧ ∀ image ∈ images, (propose regions image).score.paired = 0 := by
  induction images generalizing best with
  | nil => exact (and_iff_left fun image himage => nomatch himage).symm
  | cons image rest ih =>
    rw [List.map_cons, List.foldl_cons, ih, List.forall_mem_cons, ← and_assoc]
    refine and_congr_left fun _ => ?_
    unfold better
    split
    · next hpaired => exact (and_iff_left hpaired).symm
    · next hpaired =>
      refine iff_of_false ?_ fun h => hpaired h.2
      split
      · split <;> exact Option.some_ne_none _
      · exact Option.some_ne_none _

/-- An image that is listed is found by its name, if names are distinct. -/
theorem find?_name {image : Image} (hnames : (images.map (·.name)).Nodup) (hi : image ∈ images) :
    images.find? (·.name == image.name) = some image :=
  (find?_key_eq_some hnames).mpr ⟨hi, rfl⟩

/-- The images of a project have distinct names. -/
theorem Project.nodup_names (project : Project) : (project.images.map (·.name)).Nodup := by
  have hnames : project.images.map (·.name) = project.programs.keys := by
    rw [Project.images, List.map_map]
    rfl
  rw [hnames]
  exact project.programs.nodup_keys

end Best

/-- **What is offered is what comes to something.**  Whatever numbers are selected in contents there
can be, for whatever image: mapping is offered exactly if a proposal for the selected regions that
are alive gives some entry a block.  Hence leaving out the images for which it is not offered never
changes which proposal is the best, and there is none exactly if it is offered for no image; where
names are distinct, the image of the best is found among those that are left by its name; and a
command line that lets the program choose ends with the best proposal and its image, whatever the
project. -/
theorem offered_iff_proposed {c : Contents} (hc : c.Attained) (ids : List RegionId) (s : Snap) :
    let selected := regionsFor c ids
    let alive := selected.filter (·.isAliveAt s)
    (∀ image, canMap selected s image = true ↔
      ∃ e ∈ (propose alive image).entries, ∃ b, e.block = some b) ∧
    (∀ images : List Image,
      proposeBest alive (images.filter (canMap selected s)) = proposeBest alive images ∧
      (proposeBest alive images = none ↔ ∀ image ∈ images, canMap selected s image = false)) ∧
    (∀ images : List Image, (images.map (·.name)).Nodup → ∀ p,
      proposeBest alive images = some p → ∃ image ∈ images, p = propose alive image ∧
        (images.filter (canMap selected s)).find? (·.name == p.program) = some image) ∧
    ∀ (project : Project) (p : Proposal), proposeBest alive project.images = some p →
      ∃ image ∈ project.images, p = propose alive image ∧
        chooseProposal ⟨project, s⟩ alive none = .ok (p, image) := by
  intro selected alive
  have halive : Unambiguous alive := (unambiguous_regionsFor (keyed_of_attained hc) ids).filter _
  have hoffered : ∀ image, canMap selected s image = true ↔
      ∃ e ∈ (propose alive image).entries, ∃ b, e.block = some b := fun image =>
    canMap_iff.trans (exists_block_iff halive).symm
  have hpaired : ∀ image,
      (propose alive image).score.paired = 0 ↔ canMap selected s image = false := fun image => by
    rw [paired_eq_zero_iff, ← hoffered, Bool.not_eq_true]
  have hbest : ∀ images : List Image,
      proposeBest alive (images.filter (canMap selected s)) = proposeBest alive images :=
    fun images => foldl_better_filter (fun image => (hpaired image).mpr) none
  have hfound : ∀ images : List Image, (images.map (·.name)).Nodup → ∀ p,
      proposeBest alive images = some p → ∃ image ∈ images, p = propose alive image ∧
        (images.filter (canMap selected s)).find? (·.name == p.program) = some image := by
    intro images hnames p hp
    rw [← hbest] at hp
    obtain ⟨image, himage, rfl⟩ := exists_image_of_proposeBest hp
    have hleft : ((images.filter (canMap selected s)).map (·.name)).Nodup :=
      hnames.sublist (List.filter_sublist.map _)
    exact ⟨image, (List.mem_filter.mp himage).1, rfl, find?_name hleft himage⟩
  refine ⟨hoffered, fun images => ⟨hbest images, ?_⟩, hfound, fun project p hp => ?_⟩
  · simp only [proposeBest, foldl_better_eq_none, hpaired, true_and]
  obtain ⟨image, himage, hmade, hname⟩ := hfound project.images project.nodup_names p hp
  -- of those that are alive the same are alive
  have hagain : canMap alive s = canMap selected s := by
    funext image
    refine Bool.eq_iff_iff.mpr ?_
    rw [canMap_iff, canMap_iff, List.filter_filter]
    simp only [Bool.and_self]
  refine ⟨image, himage, hmade, ?_⟩
  rw [chooseProposal]
  dsimp only
  rw [hagain, hbest, hp]
  dsimp only
  rw [hname]

/-- Regions of two modules, one of them gone. -/
def kioskSteps : List Trace.Step :=
  [.begin "map",
   .edit ⟨0⟩ (.createRegion "/bin/cat 71000" ⟨0x71000, 0x71fff, by decide⟩ 0 .readOnly),
   .edit ⟨0⟩ (.createRegion "/bin/echo 72000" ⟨0x72000, 0x72fff, by decide⟩ 0 .readOnly),
   .edit ⟨0⟩ (.createRegion "/bin/echo 73000" ⟨0x73000, 0x73fff, by decide⟩ 0 .readOnly),
   .edit ⟨0⟩ (.destroyRegion ⟨1⟩ 5), .commit ⟨0⟩]

/-- A number that was never given, a region twice, the one that is gone, and another. -/
def kioskSelection : List RegionId := [⟨9⟩, ⟨2⟩, ⟨2⟩, ⟨1⟩, ⟨0⟩]

/-- An image that has nothing to do with the regions, one that is named after a module, and one with
a block that both modules compete for. -/
def kioskImages : List Image :=
  [⟨"libc", [⟨".text", "ram", ⟨0x710000, 0x710fff, by decide⟩⟩]⟩,
   ⟨"echo", [⟨".text", "ram", ⟨0x720000, 0x720fff, by decide⟩⟩]⟩,
   ⟨"coreutils", [⟨"cat and echo", "ram", ⟨0x730000, 0x730fff, by decide⟩⟩]⟩]

/-- Mapping is offered for the last two, so one of them is the best, and it is found again. -/
theorem kiosk_offered_iff_proposed :
    let c := ((Trace.ofContents ⟨1⟩ "shell" .empty 50).run kioskSteps).contents
    let selected := regionsFor c kioskSelection
    let alive := selected.filter (·.isAliveAt 7)
    c.Attained ∧ (kioskImages.map (·.name)).Nodup ∧
      kioskImages.map (canMap selected 7) = [false, true, true] ∧
      proposeBest alive (kioskImages.drop 1) = proposeBest alive kioskImages ∧
      ∃ p image, proposeBest alive kioskImages = some p ∧
        (kioskImages.drop 1).find? (·.name == p.program) = some image ∧
        p = propose alive image := by
  intro c selected alive
  have hc : c.Attained := .copied ⟨1⟩ "shell" 50 kioskSteps .empty
  have hnames : (kioskImages.map (·.name)).Nodup := by decide
  have hoffered : kioskImages.map (canMap selected 7) = [false, true, true] := by decide
  have hleft : kioskImages.filter (canMap selected 7) = kioskImages.drop 1 := by decide
  obtain ⟨-, hbest, hfound, -⟩ := offered_iff_proposed hc kioskSelection 7
  obtain ⟨hsame, hnone⟩ := hbest kioskImages
  rw [hleft] at hsame
  cases hp : proposeBest alive kioskImages with
  | none =>
    have hecho : canMap selected 7 (kioskImages.get ⟨1, by decide⟩) = false :=
      hnone.mp hp _ (by decide)
    exact absurd hecho (by decide)
  | some p =>
    obtain ⟨image, -, hmade, hname⟩ := hfound kioskImages hnames p hp
    rw [hleft] at hname
    exact ⟨hc, hnames, hoffered, hsame.trans hp, p, image, rfl, hname, hmade⟩

end RegionAtlas
