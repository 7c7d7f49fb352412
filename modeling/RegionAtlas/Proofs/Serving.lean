/-
  Serving — modules take their blocks one after another, and what is given is gone.

  The loop over the modules keeps a list of the pairings made so far.  Everything about it comes
  from one decomposition: a pairing is made in the turn of some module, out of what those before it
  left (`mem_serveAll`).  In its turn a module pairs its regions, in their order, with what is left
  of its slots, in theirs (`Group.mem_serve`).  So along the loop

    * no position is given twice (`nodup_positions_serveAll`), because only what is not taken is
      ranked;
    * no region is paired twice (`nodup_regions_serveAll`), because no region is of two modules.

  The modules themselves are those that some region names, each once (`mem_groups`,
  `nodup_keys_groups`), and they are served in the order of their ranks (`sorted_groups`).
-/
import RegionAtlas.Proofs.Ranking

namespace RegionAtlas

/-! ## One turn -/

section Zip

variable {α β : Type} {xs : List α} {ys : List β}

/-- What holds along a list holds along its pairs with another. -/
theorem pairwise_zip_snd {R : β → β → Prop} (h : ys.Pairwise R) :
    (xs.zip ys).Pairwise fun a b => R a.2 b.2 := by
  induction xs generalizing ys with
  | nil => exact .nil
  | cons x xs ih =>
    cases ys with
    | nil => exact .nil
    | cons y ys =>
      obtain ⟨hy, hys⟩ := List.pairwise_cons.mp h
      exact List.pairwise_cons.mpr ⟨fun p hp => hy _ (List.of_mem_zip hp).2, ih hys⟩

/-- Pairs come to an end with the shorter list, so some of the longer one may be left out. -/
theorem map_fst_zip_sublist : ((xs.zip ys).map (·.1)).Sublist xs := by
  induction xs generalizing ys with
  | nil => exact .slnil
  | cons x xs ih =>
    cases ys with
    | nil => exact List.nil_sublist _
    | cons y ys => exact ih.cons_cons x

end Zip

namespace Group

variable {g : Group} {taken : List Pairing} {p : Pairing} {s : Slot}

/-- What is left of the slots of a module, in the order in which it takes them. -/
def ranked (g : Group) (taken : List Pairing) : List Slot :=
  (g.slots.filter fun s => !taken.any (·.slot.position == s.position)).mergeSort
    fun s t => s.block.range.min ≤ t.block.range.min

/-- A slot is left as long as nothing was given its position; blocks may be equal. -/
theorem mem_ranked :
    s ∈ g.ranked taken ↔ s ∈ g.slots ∧ ∀ p ∈ taken, p.slot.position ≠ s.position := by
  rw [ranked, List.mem_mergeSort, List.mem_filter, Bool.not_eq_true', List.any_eq_false]
  simp only [beq_iff_eq, ne_eq]

/-- **A module pairs its regions with what is left of its slots, by rank.** -/
theorem mem_serve :
    p ∈ g.serve taken ↔
      ∃ (i : Nat) (r : Region) (s : Slot), g.members[i]? = some r ∧
        (g.ranked taken)[i]? = some s ∧ p = ⟨r.id, s, g.quality⟩ := by
  show p ∈ (g.members.zip (g.ranked taken)).map _ ↔ _
  rw [List.mem_map]
  constructor
  · rintro ⟨⟨r, s⟩, hzip, rfl⟩
    obtain ⟨i, hi⟩ := List.mem_iff_getElem?.mp hzip
    obtain ⟨hr, hs⟩ := List.getElem?_zip_eq_some.mp hi
    exact ⟨i, r, s, hr, hs, rfl⟩
  · rintro ⟨i, r, s, hr, hs, rfl⟩
    exact ⟨(r, s), List.mem_iff_getElem?.mpr ⟨i, List.getElem?_zip_eq_some.mpr ⟨hr, hs⟩⟩, rfl⟩

/-- Slots that stand in the order of their addresses are taken as they stand. -/
theorem serve_of_ascending
    (h : g.slots.Pairwise fun s t => s.block.range.min ≤ t.block.range.min) :
    g.serve taken =
      (g.members.zip (g.slots.filter fun s => !taken.any (·.slot.position == s.position))).map
        fun (r, s) => ⟨r.id, s, g.quality⟩ := by
  have hranked : g.ranked taken =
      g.slots.filter fun s => !taken.any (·.slot.position == s.position) :=
    List.mergeSort_of_pairwise ((h.filter _).imp decide_eq_true)
  show (g.members.zip (g.ranked taken)).map _ = _
  rw [hranked]

/-- What a module is given are slots of its own that were not taken. -/
theorem slot_of_mem_serve (h : p ∈ g.serve taken) :
    p.slot ∈ g.slots ∧ ∀ q ∈ taken, q.slot.position ≠ p.slot.position := by
  obtain ⟨i, r, s, -, hs, rfl⟩ := mem_serve.mp h
  exact mem_ranked.mp (List.mem_of_getElem? hs)

/-- One module gives no position to two of its regions. -/
theorem nodup_positions_serve (h : g.slots.Pairwise fun s t => s.position < t.position) :
    ((g.serve taken).map (·.slot.position)).Nodup := by
  have hranked : (g.ranked taken).Pairwise fun s t => s.position ≠ t.position := by
    have hslots : (g.slots.filter fun s => !taken.any (·.slot.position == s.position)).Pairwise
        fun s t => s.position ≠ t.position := (h.filter _).imp Nat.ne_of_lt
    exact (List.mergeSort_perm _ _).symm.pairwise hslots Ne.symm
  show (((g.members.zip (g.ranked taken)).map _).map _).Nodup
  rw [List.map_map]
  exact List.pairwise_map.mpr (pairwise_zip_snd hranked)

/-- Those that are served are the first ones, in the order in which they stand. -/
theorem regions_serve_sublist :
    ((g.serve taken).map (·.region)).Sublist (g.members.map (·.id)) := by
  have hregions : (g.serve taken).map (·.region) =
      ((g.members.zip (g.ranked taken)).map (·.1)).map (·.id) := by
    show ((g.members.zip (g.ranked taken)).map _).map _ = _
    rw [List.map_map, List.map_map]
    rfl
  rw [hregions]
  exact map_fst_zip_sublist.map _

end Group

/-! ## The loop -/

section Loop

variable {gs : List Group} {taken : List Pairing} {p : Pairing}

/-- Serving can be cut in two anywhere, which is how one turn is told from those before it. -/
theorem serveAll_append (taken : List Pairing) (gs hs : List Group) :
    serveAll taken (gs ++ hs) = serveAll (serveAll taken gs) hs := by
  induction gs generalizing taken with
  | nil => rfl
  | cons g rest ih => exact ih (taken ++ g.serve taken)

/-- What was given stays given. -/
theorem mem_serveAll_of_mem (h : p ∈ taken) (gs : List Group) : p ∈ serveAll taken gs := by
  induction gs generalizing taken with
  | nil => exact h
  | cons g rest ih => exact ih (List.mem_append_left _ h)

/-- **Every pairing is made in the turn of some module**, out of what those before it left. -/
theorem mem_serveAll :
    p ∈ serveAll taken gs ↔
      p ∈ taken ∨ ∃ before g after, gs = before ++ g :: after ∧
        p ∈ g.serve (serveAll taken before) := by
  constructor
  · intro h
    induction gs generalizing taken with
    | nil => exact .inl h
    | cons g rest ih =>
      rcases ih h with hold | ⟨before, g', after, rfl, hserved⟩
      · rcases List.mem_append.mp hold with htaken | hserved
        · exact .inl htaken
        · exact .inr ⟨[], g, rest, rfl, hserved⟩
      · exact .inr ⟨g :: before, g', after, rfl, hserved⟩
  · rintro (htaken | ⟨before, g, after, rfl, hserved⟩)
    · exact mem_serveAll_of_mem htaken gs
    · rw [serveAll_append]
      exact mem_serveAll_of_mem (List.mem_append_right _ hserved) after

/-- **No position is given twice.** -/
theorem nodup_positions_serveAll
    (hslots : ∀ g ∈ gs, g.slots.Pairwise fun s t => s.position < t.position)
    (h : (taken.map (·.slot.position)).Nodup) :
    ((serveAll taken gs).map (·.slot.position)).Nodup := by
  induction gs generalizing taken with
  | nil => exact h
  | cons g rest ih =>
    refine ih (fun g' hg' => hslots g' (.tail g hg')) ?_
    rw [List.map_append, List.nodup_append]
    refine ⟨h, g.nodup_positions_serve (hslots g List.mem_cons_self), ?_⟩
    intro n hn m hm
    obtain ⟨q, hq, rfl⟩ := List.mem_map.mp hn
    obtain ⟨p, hp, rfl⟩ := List.mem_map.mp hm
    exact (Group.slot_of_mem_serve hp).2 q hq

/-- Nobody is served but the regions of the modules, each in the turn of its own. -/
theorem regions_serveAll_sublist :
    ((serveAll taken gs).map (·.region)).Sublist
      (taken.map (·.region) ++ gs.flatMap fun g => g.members.map (·.id)) := by
  induction gs generalizing taken with
  | nil =>
    rw [List.flatMap_nil, List.append_nil]
    exact .refl _
  | cons g rest ih =>
    have hrest := @ih (taken ++ g.serve taken)
    refine hrest.trans ?_
    rw [List.map_append, List.append_assoc, List.flatMap_cons]
    exact (List.Sublist.refl _).append (g.regions_serve_sublist.append (.refl _))

/-- **No region is paired twice**, if no region is of two modules. -/
theorem nodup_regions_serveAll (h : (gs.flatMap fun g => g.members.map (·.id)).Nodup) :
    ((serveAll [] gs).map (·.region)).Nodup :=
  h.sublist regions_serveAll_sublist

end Loop

/-! ## Modules -/

/-- The module that a region belongs to. -/
abbrev Region.module? (r : Region) : Option ModuleKey := ModuleKey.ofName? r.name

/-- Repetitions go and nothing else does. -/
theorem mem_distinctKeys {k : ModuleKey} {keys : List ModuleKey} :
    k ∈ distinctKeys keys ↔ k ∈ keys := by
  induction keys with
  | nil => exact Iff.rfl
  | cons first rest ih =>
    rw [distinctKeys, List.mem_cons, List.mem_cons, List.mem_filter, ih, bne_iff_ne]
    by_cases hk : k = first
    · simp only [hk, true_or]
    · simp only [hk, false_or, ne_eq, not_false_eq_true, and_true]

theorem nodup_distinctKeys (keys : List ModuleKey) : (distinctKeys keys).Nodup := by
  induction keys with
  | nil => exact List.nodup_nil
  | cons first rest ih =>
    rw [distinctKeys, List.nodup_cons, List.mem_filter, bne_iff_ne]
    exact ⟨fun h => h.2 rfl, ih.filter _⟩

/-- The slots that a module may be given are slots of the image in catalog order. -/
theorem ModuleKey.eligible_sublist (k : ModuleKey) (image : Image) :
    (k.eligible image).2.Sublist image.slots := by
  unfold eligible
  split
  · split
    · exact List.nil_sublist _
    · exact .refl _
  · exact List.filter_sublist

/-- A module without a match may be given nothing. -/
theorem ModuleKey.eligible_of_nothing {k : ModuleKey} {image : Image}
    (h : (k.eligible image).1 = .nothing) : (k.eligible image).2 = [] := by
  unfold eligible at h ⊢
  split at h
  · split at h
    · rfl
    · next hmatch => exact absurd h hmatch
  · cases h

section Groups

variable {image : Image} {regions : List Region} {g : Group} {k : ModuleKey}

/-- The regions of a module are those whose names tell it. -/
theorem Group.mem_members {r : Region} :
    r ∈ (Group.of image regions k).members ↔ r ∈ regions ∧ r.module? = some k := by
  show r ∈ List.mergeSort _ _ ↔ _
  rw [List.mem_mergeSort, List.mem_filter, beq_iff_eq]

/-- The slots of a module stand in the order of the catalog. -/
theorem Group.slots_ascending :
    (Group.of image regions k).slots.Pairwise fun s t => s.position < t.position :=
  image.slots_ascending.sublist (k.eligible_sublist image)

theorem Group.nodup_members (hids : (regions.map (·.id)).Nodup) :
    ((Group.of image regions k).members.map (·.id)).Nodup :=
  ((List.mergeSort_perm _ _).map _).nodup_iff.mpr (hids.sublist (List.filter_sublist.map _))

/-- Regions that stand in the order of their addresses are those of their module as they stand. -/
theorem Group.of_of_sorted (h : regions.Pairwise fun r q => r.address_le q = true) :
    Group.of image regions k = ⟨k, (k.eligible image).1, (k.eligible image).2,
      regions.filter fun r => r.module? == some k⟩ := by
  have hmembers : (regions.filter fun r => r.module? == some k).mergeSort Region.address_le =
      regions.filter fun r => r.module? == some k := List.mergeSort_of_pairwise (h.filter _)
  exact congrArg (Group.mk k (k.eligible image).1 (k.eligible image).2) hmembers

/-- **The modules that are served** are those that some region names, each with all its regions. -/
theorem mem_groups :
    g ∈ groups image regions ↔
      ∃ k, (∃ r ∈ regions, r.module? = some k) ∧ g = Group.of image regions k := by
  unfold groups
  simp only [List.mem_mergeSort, List.mem_map, mem_distinctKeys, List.mem_filterMap]
  constructor
  · rintro ⟨k, hk, rfl⟩
    exact ⟨k, hk, rfl⟩
  · rintro ⟨k, hk, rfl⟩
    exact ⟨k, hk, rfl⟩

/-- Every module has one turn. -/
theorem nodup_keys_groups : (groups image regions).Pairwise fun g h => g.key ≠ h.key := by
  unfold groups
  refine (List.mergeSort_perm _ _).symm.pairwise ?_ Ne.symm
  exact List.pairwise_map.mpr (nodup_distinctKeys _)

/-- And the turns are in order, by what `order_le` compares. -/
theorem sorted_groups : (groups image regions).Pairwise fun g h => g.order_le h = true :=
  List.pairwise_mergeSort Group.order_le_trans Group.order_le_total _

/-- **No region is of two modules.** -/
theorem nodup_members_groups (image : Image) (hids : (regions.map (·.id)).Nodup) :
    ((groups image regions).flatMap fun g => g.members.map (·.id)).Nodup := by
  refine List.nodup_flatMap.mpr ⟨?_, nodup_keys_groups.imp_of_mem ?_⟩
  · intro g hg
    obtain ⟨k, -, rfl⟩ := mem_groups.mp hg
    exact Group.nodup_members hids
  · intro g h hg hh hne id hidg hidh
    obtain ⟨k, -, rfl⟩ := mem_groups.mp hg
    obtain ⟨l, -, rfl⟩ := mem_groups.mp hh
    obtain ⟨r, hr, rfl⟩ := List.mem_map.mp hidg
    obtain ⟨q, hq, hid⟩ := List.mem_map.mp hidh
    obtain ⟨hr, hk⟩ := Group.mem_members.mp hr
    obtain ⟨hq, hl⟩ := Group.mem_members.mp hq
    obtain rfl : q = r := eq_of_id_eq hids hq hr hid
    exact hne (Option.some.inj (hk.symm.trans hl))

end Groups

end RegionAtlas
