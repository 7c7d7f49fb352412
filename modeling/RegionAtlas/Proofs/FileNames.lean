/-
  File names — by what a region is matched with a block.

  A module is matched by the name of its file, which is cut out of its path: what follows the last
  separator, and for the stem what comes before the first dot of that.

  1. The file name ends the path and has no separator in it, and the stem begins the file name
     (`basename_suffix`, `stem_prefix`).  Neither is empty, unless there is no file: the path of a
     directory may end in a separator (`basename_ne_iff`).
  2. What a module may be given is what matches its file name (`mayTake_iff`): blocks whose names it
     occurs in, and if there are none, the blocks of an image of its name or its stem.
  3. The empty text occurs in every name, and no other text does.  So a module may be given all
     there is, of every image, exactly if it has no file name (`takes_all_iff`).

  What a module may be given, a proposal gives some region of that name (`exists_entry_of_mayTake`).
  So blocks are given by the name of a file, for the names whose path is of one and for no other
  (`blocks_given_by_file_name`).
-/
import RegionAtlas.Proofs.ModuleNames
import RegionAtlas.Proofs.Offers

namespace RegionAtlas

open Text

namespace ModuleKey

variable {k : ModuleKey} {image : Image} {n : Nat}

/-! ## 1. The name of a file -/

/-- **The path is that of a file**, since it does not end in a separator. -/
def NamesFile (k : ModuleKey) : Prop :=
  ¬ ∃ dirs c, k.path.toList = dirs ++ [c] ∧ isSeparator c = true

theorem toList_basename (k : ModuleKey) : k.basename.toList = k.basenameChars :=
  String.toList_ofList

theorem toList_stem (k : ModuleKey) : k.stem.toList = stemOf k.basenameChars :=
  String.toList_ofList

/-- **The file name is the end of the path**, from the last separator on. -/
theorem basename_suffix (k : ModuleKey) :
    k.basename.toList <:+ k.path.toList ∧
      '/' ∉ k.basename.toList ∧ '\\' ∉ k.basename.toList := by
  obtain ⟨hsuffix, hnone⟩ := afterLast_spec isSeparator k.path.toList
  rw [toList_basename]
  refine ⟨hsuffix, fun hslash => ?_, fun hslash => ?_⟩
  · cases hnone _ hslash
  · cases hnone _ hslash

/-- The stem begins the name, and is empty only if that is. -/
theorem stemOf_spec (name : List Char) :
    stemOf name <+: name ∧ (stemOf name = [] ↔ name = []) := by
  unfold stemOf
  split
  · next c before after hsplit =>
    obtain ⟨d, -, rfl, -⟩ := splitFirst?_eq_some_iff.mp hsplit
    exact ⟨⟨d :: after, rfl⟩, by simp⟩
  · exact ⟨List.prefix_refl name, Iff.rfl⟩

theorem stem_prefix (k : ModuleKey) : k.stem.toList <+: k.basename.toList := by
  rw [toList_stem, toList_basename]
  exact (stemOf_spec k.basenameChars).1

theorem path_ne_nil {name : String} (h : ofName? name = some k) : k.path.toList ≠ [] := by
  obtain ⟨-, -, hpath, -⟩ := ofName?_eq_some_iff_split?.mp h
  exact hpath

/-- **There is a file name exactly if the path is that of a file.** -/
theorem basename_ne_iff (hpath : k.path.toList ≠ []) : k.basename ≠ "" ↔ k.NamesFile := by
  rw [← String.toList_eq_nil_iff.ne, toList_basename]
  exact not_congr (afterLast_eq_nil_iff hpath)

theorem stem_ne_iff (hpath : k.path.toList ≠ []) : k.stem ≠ "" ↔ k.NamesFile := by
  rw [← basename_ne_iff hpath, ← String.toList_eq_nil_iff.ne, ← String.toList_eq_nil_iff.ne,
    toList_stem, toList_basename]
  exact not_congr (stemOf_spec k.basenameChars).2

/-! ## 2. What matches it -/

/-- The file name occurs in the name of a block, whatever the case of their letters. -/
def OccursIn (k : ModuleKey) (b : Block) : Prop :=
  lower k.basename.toList <:+: lower b.name.toList

/-- The image has the name of the file, or the stem of that. -/
def SharesName (k : ModuleKey) (image : Image) : Prop :=
  lower image.name.toList = lower k.basename.toList ∨
    stemOf (lower image.name.toList) = lower k.stem.toList

/-- **A block of an image is matched by the file name**: it occurs in the name of the block, or it
occurs in the name of none and matches that of the image. -/
def Matches (k : ModuleKey) (image : Image) (b : Block) : Prop :=
  k.OccursIn b ∨ (∀ c ∈ image.blocks, ¬ k.OccursIn c) ∧ k.SharesName image

theorem occursInBlock_iff {b : Block} : k.occursInBlock b = true ↔ k.OccursIn b := by
  rw [occursInBlock, occursIn_iff, OccursIn, toList_basename]

theorem imageMatch_eq_nothing_iff : k.imageMatch image = .nothing ↔ ¬ k.SharesName image := by
  rw [SharesName, toList_basename, toList_stem, not_or]
  unfold imageMatch
  dsimp only
  split
  · next hname => exact iff_of_false (fun h => nomatch h) fun h => h.1 hname
  · next hname =>
    split
    · next hstem => exact iff_of_false (fun h => nomatch h) fun h => h.2 hstem
    · next hstem => exact iff_of_true rfl ⟨hname, hstem⟩

theorem named_eq_nil_iff :
    image.slots.filter (fun s => k.occursInBlock s.block) = [] ↔
      ∀ c ∈ image.blocks, ¬ k.OccursIn c := by
  rw [List.filter_eq_nil_iff]
  constructor
  · intro h c hc hoccurs
    obtain ⟨n, hn⟩ := List.mem_iff_getElem?.mp hc
    exact h ⟨n, c⟩ (Image.mem_slots.mpr hn) (occursInBlock_iff.mpr hoccurs)
  · intro h s hs hoccurs
    exact h s.block (List.mem_of_getElem? (Image.mem_slots.mp hs)) (occursInBlock_iff.mp hoccurs)

theorem mem_eligible_iff {s : Slot} :
    s ∈ (k.eligible image).2 ↔ s ∈ image.slots ∧ k.Matches image s.block := by
  unfold eligible
  split
  · next hempty =>
    have hnone := named_eq_nil_iff.mp hempty
    split
    · next hmatch =>
      refine iff_of_false List.not_mem_nil ?_
      rintro ⟨hs, hoccurs | ⟨-, hshares⟩⟩
      · exact hnone _ (List.mem_of_getElem? (Image.mem_slots.mp hs)) hoccurs
      · exact imageMatch_eq_nothing_iff.mp hmatch hshares
    · next hmatch =>
      have hshares : k.SharesName image := by
        by_contra hnot
        exact hmatch (imageMatch_eq_nothing_iff.mpr hnot)
      exact ⟨fun hs => ⟨hs, .inr ⟨hnone, hshares⟩⟩, And.left⟩
  · next hsome =>
    rw [List.mem_filter, occursInBlock_iff]
    refine and_congr_right fun _ => ⟨.inl, ?_⟩
    rintro (hoccurs | ⟨hnone, -⟩)
    · exact hoccurs
    · exact absurd (named_eq_nil_iff.mpr hnone) hsome

/-- **What a module may be given is what its file name matches.** -/
theorem mayTake_iff :
    k.MayTake image n ↔ ∃ b, image.blocks[n]? = some b ∧ k.Matches image b := by
  constructor
  · rintro ⟨s, hs, rfl⟩
    obtain ⟨hlisted, hmatches⟩ := mem_eligible_iff.mp hs
    exact ⟨s.block, Image.mem_slots.mp hlisted, hmatches⟩
  · rintro ⟨b, hb, hmatches⟩
    exact ⟨⟨n, b⟩, mem_eligible_iff.mpr ⟨Image.mem_slots.mpr hb, hmatches⟩, rfl⟩

/-! ## 3. No file -/

/-- A module without a file name is matched by whatever is listed. -/
theorem matches_of_basename_eq (h : k.basename = "") (b : Block) : k.Matches image b := by
  refine .inl ?_
  rw [OccursIn, h]
  exact List.nil_infix

theorem lower_eq_nil_iff {cs : List Char} : lower cs = [] ↔ cs = [] := List.map_eq_nil_iff

/-- A block and an image without names, which no file name matches. -/
def bare : Image := ⟨"", [⟨"", "", .single 0⟩]⟩

theorem basename_eq_of_mayTake_bare (h : k.MayTake bare n) : k.basename = "" := by
  rw [← String.toList_eq_nil_iff]
  obtain ⟨b, hb, hmatches⟩ := mayTake_iff.mp h
  obtain rfl : b = ⟨"", "", .single 0⟩ := List.mem_singleton.mp (List.mem_of_getElem? hb)
  rcases hmatches with hoccurs | ⟨-, hname | hstem⟩
  · exact lower_eq_nil_iff.mp (List.infix_nil.mp hoccurs)
  · exact lower_eq_nil_iff.mp hname.symm
  · rw [toList_basename, ← (stemOf_spec k.basenameChars).2, ← toList_stem]
    exact lower_eq_nil_iff.mp hstem.symm

/-- **A module may be given all there is, of every image, exactly if it has no file name.** -/
theorem takes_all_iff :
    (∀ image n, k.MayTake image n ↔ n < image.blocks.length) ↔ k.basename = "" := by
  constructor
  · intro hall
    exact basename_eq_of_mayTake_bare ((hall bare 0).mpr (by decide))
  · intro h image n
    rw [mayTake_iff]
    constructor
    · rintro ⟨b, hb, -⟩
      exact (List.getElem?_eq_some_iff.mp hb).1
    · intro hn
      exact ⟨image.blocks[n], List.getElem?_eq_getElem hn, matches_of_basename_eq h _⟩

end ModuleKey

/-! ## What is given -/

section Given

variable {regions : List Region} {image : Image} {name : String} {k : ModuleKey} {e : Entry}
  {b : Block} {n : Nat}

/-- **An entry holds what the file name of its module matches.** -/
theorem matches_of_block (he : e ∈ (propose regions image).entries) (hb : e.block = some b) :
    ∃ k, e.region.module? = some k ∧ k.Matches image b := by
  obtain ⟨r, hr, rfl⟩ := List.mem_map.mp ((entries_perm regions image).mem_iff.mp he)
  obtain ⟨n, hn, hlisted⟩ := Option.bind_eq_some_iff.mp hb
  obtain ⟨k, hmodule, htake⟩ := given_eligible (nodup_ids_distinctRegions regions) hr hn
  obtain ⟨c, hc, hmatches⟩ := ModuleKey.mayTake_iff.mp htake
  obtain rfl : c = b := Option.some.inj (hc.symm.trans hlisted)
  exact ⟨k, hmodule, hmatches⟩

/-- **What a module may be given, some proposal gives a region of that name.** -/
theorem exists_entry_of_mayTake (hname : ModuleKey.ofName? name = some k)
    (hsize : image.blocks.length ≤ 2 ^ 64) (htake : k.MayTake image n) :
    ∃ regions, ∃ e ∈ (propose regions image).entries, e.region.name = name ∧
      e.block.isSome = true := by
  have hkept := distinctRegions_of_nodup (nodup_ids_crowd name hsize)
  obtain ⟨r, hr, hrn⟩ := exists_given_crowd hname hsize htake
  obtain ⟨b, hb⟩ := htake.exists_block
  rw [← hkept] at hr hrn
  obtain ⟨i, -, e, he, hblock⟩ := exists_holds_of_given hr hrn hb
  have hentry := List.mem_of_getElem? he
  have hregion : e.region ∈ crowd name image.blocks.length := by
    rw [← hkept]
    exact (regions_perm _ image).mem_iff.mp (List.mem_map_of_mem hentry)
  exact ⟨_, e, hentry, name_of_mem_crowd hregion, by rw [hblock]; rfl⟩

end Given

/-- **Regions are given blocks by the names of their files**, where they have any.  Whatever a
region is given, it has a module, and the file name of that matches the block.  The file name ends
the path and has no separator in it, and its stem begins it; but they are empty where the path ends
in a separator, as that of a directory may.  Then, and only then, the module may be given every
block there is, and some proposal does give a region of that name a block by no file name at all. -/
theorem blocks_given_by_file_name (name : String) :
    (∀ regions image, ∀ e ∈ (propose regions image).entries, e.region.name = name →
      ∀ b, e.block = some b → ∃ k, ModuleKey.ofName? name = some k ∧ k.Matches image b) ∧
    ∀ k, ModuleKey.ofName? name = some k →
      k.basename.toList <:+ k.path.toList ∧ '/' ∉ k.basename.toList ∧ '\\' ∉ k.basename.toList ∧
      k.stem.toList <+: k.basename.toList ∧
      (k.basename ≠ "" ↔ k.NamesFile) ∧ (k.stem ≠ "" ↔ k.NamesFile) ∧
      ((∀ image n, k.MayTake image n ↔ n < image.blocks.length) ↔ ¬ k.NamesFile) ∧
      ((∀ regions image, ∀ e ∈ (propose regions image).entries, e.region.name = name →
        e.block.isSome = true → k.basename ≠ "") ↔ k.NamesFile) := by
  refine ⟨?_, fun k hname => ?_⟩
  · rintro regions image e he rfl b hb
    exact matches_of_block he hb
  · have hbasename := ModuleKey.basename_ne_iff (ModuleKey.path_ne_nil hname)
    have hstem := ModuleKey.stem_ne_iff (ModuleKey.path_ne_nil hname)
    obtain ⟨hsuffix, hslash, hbackslash⟩ := k.basename_suffix
    refine ⟨hsuffix, hslash, hbackslash, k.stem_prefix, hbasename, hstem, ?_, ?_⟩
    · rw [ModuleKey.takes_all_iff, ← hbasename, not_not]
    · rw [← hbasename]
      constructor
      · intro hall hnone
        have htake := (ModuleKey.takes_all_iff.mpr hnone ModuleKey.bare 0).mpr (by decide)
        obtain ⟨regions, e, he, hregion, hblock⟩ :=
          exists_entry_of_mayTake hname (by decide) htake
        exact hall regions ModuleKey.bare e he hregion hblock hnone
      · intro hsome _ _ _ _ _ _
        exact hsome

/-- A region named after a directory. -/
def binRegion : Region :=
  ⟨⟨0⟩, ⟨1⟩, "/bin/ 75000", ⟨0x75000, 0x75fff, by decide⟩, .readOnly, .since 0⟩

/-- An image that has nothing to do with it. -/
def libcImage : Image := ⟨"libc", [⟨".text", "ram", ⟨0x510000, 0x510fff, by decide⟩⟩]⟩

/-- **The path of a directory is taken for that of a file** without a name, which matches. -/
theorem directory_given_block :
    ModuleKey.ofName? "/bin/ 75000" = some ⟨"/bin/"⟩ ∧ ModuleKey.basename ⟨"/bin/"⟩ = "" ∧
      ModuleKey.stem ⟨"/bin/"⟩ = "" ∧
      (propose [binRegion] libcImage).entries =
        [.ofPair binRegion (some ⟨".text", "ram", ⟨0x510000, 0x510fff, by decide⟩⟩)] := by
  have hmade : pairings libcImage [binRegion] =
      [⟨⟨0⟩, ⟨0, ".text", "ram", ⟨0x510000, 0x510fff, by decide⟩⟩, .block⟩] := by
    have hmodule : distinctKeys ([binRegion].filterMap (·.module?)) = [⟨"/bin/"⟩] := by decide
    rw [pairings_of_one_module hmodule (by decide) (by decide) (by decide)]
    decide
  refine ⟨by decide, by decide, by decide, ?_⟩
  rw [propose_of_sorted (by decide) hmade (by decide)]
  decide

end RegionAtlas
