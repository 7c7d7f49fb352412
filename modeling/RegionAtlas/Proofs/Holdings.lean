/-
  Holdings — who holds which block while a proposal is edited.

  To give an entry a block, the first other entry that holds it loses it, and no further one is
  looked for.  That this leaves one holder is no property of the call: it rests on there having been
  no more than one before, so the two have to be carried along a whole history of edits together.

    1. What an edit does is said entry by entry, and not how it is done (`Reassigned`,
       `Reselected`).  Where nothing is held twice, the holder that is found is the only one
       (`holder?_eq_some_iff`), which is all that `reassigned_setBlock` needs.
    2. What every entry is afterwards is read off that (`Reassigned.entry_cases`), and so who holds
       a block (`Reassigned.of_holds`).  So nothing is held twice again, and what has no block is
       not selected (`Sound.revise`, `Sound.revised`).
    3. A proposal as computed is sound where the catalog lists no block twice (`sound_propose`).
-/
import RegionAtlas.Proofs.Offers
import RegionAtlas.Proofs.Revision

namespace RegionAtlas

namespace Proposal

variable {p q : Proposal} {index i j : Nat} {b : Block} {block : Option Block} {told : Option Nat}
  {selected : Bool} {f : Entry → Entry}

/-! ## Sound proposals -/

/-- **No block is held twice, and an entry without a block is not selected.** -/
structure Sound (p : Proposal) : Prop where
  once : p.HoldsOnce
  unselected : ∀ e ∈ p.entries, e.block = none → e.selected = false

/-- Of a sound proposal the selected entries are committed, all of them. -/
theorem Sound.accepted_eq (h : p.Sound) : p.accepted = p.entries.filter (·.selected) := by
  refine List.filter_congr fun e he => ?_
  rw [Entry.isAccepted]
  cases hblock : e.block with
  | some b => exact Bool.and_true _
  | none =>
    rw [h.unselected e he hblock]
    rfl

/-! ## Reading entries -/

theorem getElem?_modifyEntry_self :
    (p.modifyEntry i f).entries[i]? = p.entries[i]?.map f := by
  show (p.entries.modify i f)[i]? = _
  rw [List.getElem?_modify_eq]
  rfl

theorem getElem?_modifyEntry_of_ne (h : i ≠ j) :
    (p.modifyEntry i f).entries[j]? = p.entries[j]? :=
  List.getElem?_modify_ne f p.entries h

theorem modifyEntry_of_length_le (h : p.entries.length ≤ i) : p.modifyEntry i f = p := by
  rw [modifyEntry, List.modify_eq_self h]

/-! ## What an edit does -/

/-- **An entry was given a block, or none; if another entry held the block, it lost it and was
told.** -/
structure Reassigned (p : Proposal) (index : Nat) (block : Option Block) (q : Proposal)
    (told : Option Nat) : Prop where
  target : ∀ e, p.entries[index]? = some e →
    q.entries[index]? = some { e with block := block, selected := block.isSome }
  told_iff : ∀ j, told = some j ↔
    index < p.entries.length ∧ j ≠ index ∧ ∃ b, block = some b ∧ p.Holds j b
  loser : ∀ j e, told = some j → p.entries[j]? = some e →
    q.entries[j]? = some { e with block := none, selected := false }
  others : ∀ j, j ≠ index → told ≠ some j → q.entries[j]? = p.entries[j]?
  outside : p.entries.length ≤ index → q = p ∧ told = none
  regions : q.entries.map (·.region) = p.entries.map (·.region)
  program : q.program = p.program
  score : q.score = p.score

/-- **An entry was taken into the commit, if it has a block, or out of it.** -/
structure Reselected (p : Proposal) (index : Nat) (selected : Bool) (q : Proposal) : Prop where
  target : ∀ e, p.entries[index]? = some e →
    q.entries[index]? = some { e with selected := selected && e.block.isSome }
  others : ∀ j, j ≠ index → q.entries[j]? = p.entries[j]?
  outside : p.entries.length ≤ index → q = p
  regions : q.entries.map (·.region) = p.entries.map (·.region)
  program : q.program = p.program
  score : q.score = p.score

/-- Every call of `setSelected` does that. -/
theorem reselected_setSelected (p : Proposal) (index : Nat) (selected : Bool) :
    p.Reselected index selected (p.setSelected index selected) where
  target e he := by rw [setSelected, getElem?_modifyEntry_self, he]; rfl
  others j hj := getElem?_modifyEntry_of_ne hj.symm
  outside := modifyEntry_of_length_le
  regions := p.map_region_revise (.setSelected index selected)
  program := rfl
  score := rfl

/-! ## Taking a block from its holder -/

theorem holds_of_holder? (h : p.holder? index b = some j) : j ≠ index ∧ p.Holds j b := by
  obtain ⟨⟨e, i⟩, hfind, rfl⟩ := Option.map_eq_some_iff.mp h
  have hmem : p.entries[i]? = some e :=
    List.mem_zipIdx_iff_getElem?.mp (List.mem_of_find?_eq_some hfind)
  have htest := List.find?_some hfind
  rw [Bool.and_eq_true, bne_iff_ne, beq_iff_eq] at htest
  exact ⟨htest.1, e, hmem, htest.2⟩

/-- **Where nothing is held twice, the first other holder is the only one.** -/
theorem holder?_eq_some_iff (honce : p.HoldsOnce) :
    p.holder? index b = some j ↔ j ≠ index ∧ p.Holds j b := by
  refine ⟨holds_of_holder?, fun ⟨hne, hj⟩ => ?_⟩
  cases hfound : p.holder? index b with
  | some i => rw [honce b i j (holds_of_holder? hfound).2 hj]
  | none =>
    obtain ⟨e, he, hb⟩ := hj
    have hmem : (e, j) ∈ p.entries.zipIdx := List.mem_zipIdx_iff_getElem?.mpr he
    refine absurd ?_ (List.find?_eq_none.mp (Option.map_eq_none_iff.mp hfound) (e, j) hmem)
    rw [Bool.and_eq_true, bne_iff_ne, beq_iff_eq]
    exact ⟨hne, hb⟩

/-- The proposal after an entry lost its block, if one did. -/
def dispossess (p : Proposal) : Option Nat → Proposal
  | some other => p.modifyEntry other fun e => { e with block := none, selected := false }
  | none => p

theorem getElem?_dispossess_of_ne (h : told ≠ some j) :
    (p.dispossess told).entries[j]? = p.entries[j]? := by
  cases told with
  | none => rfl
  | some other => exact getElem?_modifyEntry_of_ne fun hsame => h (congrArg some hsame)

/-- Giving a block in two steps. -/
theorem setBlock_of_lt (h : index < p.entries.length) :
    p.setBlock index block =
      ((p.dispossess (block.bind (p.holder? index))).modifyEntry index fun e =>
        { e with block := block, selected := block.isSome }, block.bind (p.holder? index)) := by
  rw [setBlock, if_pos h]
  cases block.bind (p.holder? index) <;> rfl

theorem setBlock_of_length_le (h : p.entries.length ≤ index) :
    p.setBlock index block = (p, none) := by
  rw [setBlock, if_neg (Nat.not_lt.mpr h)]

/-- Nothing but entries is changed. -/
theorem setBlock_frame : (p.setBlock index block).1.program = p.program ∧
    (p.setBlock index block).1.score = p.score := by
  rcases Nat.lt_or_ge index p.entries.length with h | h
  · rw [setBlock_of_lt h]
    cases block.bind (p.holder? index) <;> exact ⟨rfl, rfl⟩
  · rw [setBlock_of_length_le h]
    exact ⟨rfl, rfl⟩

/-- Who is told: the other entry that holds the block, if the entry to get it is there. -/
theorem told_setBlock (honce : p.HoldsOnce) :
    (p.setBlock index block).2 = some j ↔
      index < p.entries.length ∧ j ≠ index ∧ ∃ b, block = some b ∧ p.Holds j b := by
  rcases Nat.lt_or_ge index p.entries.length with h | h
  · rw [setBlock_of_lt h, Option.bind_eq_some_iff]
    constructor
    · rintro ⟨b, rfl, hfound⟩
      obtain ⟨hne, hj⟩ := (holder?_eq_some_iff honce).mp hfound
      exact ⟨h, hne, b, rfl, hj⟩
    · rintro ⟨-, hne, b, rfl, hj⟩
      exact ⟨b, rfl, (holder?_eq_some_iff honce).mpr ⟨hne, hj⟩⟩
  · rw [setBlock_of_length_le h]
    constructor
    · intro hnone
      cases hnone
    · intro hrange
      exact absurd hrange.1 (Nat.not_lt.mpr h)

/-- **Where nothing is held twice, every call of `setBlock` reassigns as it should.** -/
theorem reassigned_setBlock (honce : p.HoldsOnce) (index : Nat) (block : Option Block) :
    p.Reassigned index block (p.setBlock index block).1 (p.setBlock index block).2 where
  told_iff _ := told_setBlock honce
  regions := p.map_region_revise (.setBlock index block)
  program := setBlock_frame.1
  score := setBlock_frame.2
  outside h := by rw [setBlock_of_length_le h]; exact ⟨rfl, rfl⟩
  target e he := by
    -- the entry itself is never the one that is told
    have hother : (p.setBlock index block).2 ≠ some index := fun htold =>
      ((told_setBlock honce).mp htold).2.1 rfl
    rw [setBlock_of_lt (List.getElem?_eq_some_iff.mp he).1] at hother ⊢
    rw [getElem?_modifyEntry_self, getElem?_dispossess_of_ne hother, he]
    rfl
  loser j e htold he := by
    obtain ⟨h, hne, -⟩ := (told_setBlock honce).mp htold
    rw [setBlock_of_lt h] at htold ⊢
    dsimp only at htold ⊢
    rw [getElem?_modifyEntry_of_ne hne.symm, htold, dispossess, getElem?_modifyEntry_self, he]
    rfl
  others j hne hother := by
    rcases Nat.lt_or_ge index p.entries.length with h | h
    · rw [setBlock_of_lt h] at hother ⊢
      rw [getElem?_modifyEntry_of_ne hne.symm, getElem?_dispossess_of_ne hother]
    · rw [setBlock_of_length_le h]

/-! ## Histories of edits -/

/-- **What an entry is after a block was given**: the one that it was given to, one that has lost
it, or one that it was before. -/
theorem Reassigned.entry_cases (h : p.Reassigned index block q told) {e : Entry}
    (he : q.entries[j]? = some e) :
    (index < p.entries.length ∧ j = index ∧ e.block = block ∧ e.selected = block.isSome) ∨
      (e.block = none ∧ e.selected = false) ∨
      (p.entries[j]? = some e ∧ (index < p.entries.length → j ≠ index ∧ told ≠ some j)) := by
  rcases Nat.lt_or_ge index p.entries.length with hlt | hge
  · by_cases hj : j = index
    · subst hj
      rw [h.target _ (List.getElem?_eq_getElem hlt)] at he
      obtain rfl := Option.some.inj he
      exact .inl ⟨hlt, rfl, rfl, rfl⟩
    · by_cases htold : told = some j
      · obtain ⟨-, -, b, -, old, hold, -⟩ := (h.told_iff j).mp htold
        rw [h.loser j old htold hold] at he
        obtain rfl := Option.some.inj he
        exact .inr (.inl ⟨rfl, rfl⟩)
      · rw [h.others j hj htold] at he
        exact .inr (.inr ⟨he, fun _ => ⟨hj, htold⟩⟩)
  · obtain ⟨rfl, -⟩ := h.outside hge
    exact .inr (.inr ⟨he, fun hlt => absurd hlt (Nat.not_lt.mpr hge)⟩)

/-- **What is held then**: the block by the entry that it was given to, and any other block by an
entry that held it before. -/
theorem Reassigned.of_holds (h : p.Reassigned index block q told) (hheld : q.Holds j b) :
    (index < p.entries.length ∧ j = index ∧ block = some b) ∨
      (p.Holds j b ∧ (index < p.entries.length → block ≠ some b)) := by
  obtain ⟨e, he, hb⟩ := hheld
  rcases h.entry_cases he with ⟨hlt, hj, hblock, -⟩ | ⟨hnone, -⟩ | ⟨hold, hkept⟩
  · exact .inl ⟨hlt, hj, hblock ▸ hb⟩
  · cases hnone.symm.trans hb
  · -- had it held the block that was given, it would have been told
    refine .inr ⟨⟨e, hold, hb⟩, fun hlt hblock => (hkept hlt).2 ?_⟩
    exact (h.told_iff j).mpr ⟨hlt, (hkept hlt).1, b, hblock, e, hold, hb⟩

/-- Giving a block keeps a proposal sound. -/
theorem Reassigned.sound (h : p.Reassigned index block q told) (hsound : p.Sound) : q.Sound where
  once b i j hi hj := by
    rcases h.of_holds hi with ⟨hlt, rfl, hgiven⟩ | ⟨hi, hnotgiven⟩ <;>
      rcases h.of_holds hj with ⟨hlt', rfl, hgiven'⟩ | ⟨hj, hnotgiven'⟩
    · rfl
    · exact absurd hgiven (hnotgiven' hlt)
    · exact absurd hgiven' (hnotgiven hlt')
    · exact hsound.once b i j hi hj
  unselected e he hnone := by
    obtain ⟨j, hj⟩ := List.mem_iff_getElem?.mp he
    rcases h.entry_cases hj with ⟨-, -, hblock, hselected⟩ | ⟨-, hselected⟩ | ⟨hold, -⟩
    · rw [hselected, ← hblock, hnone]
      rfl
    · exact hselected
    · exact hsound.unselected e (List.mem_of_getElem? hold) hnone

/-- Selecting leaves every entry the block that it has. -/
theorem Reselected.entry_cases (h : p.Reselected index selected q) {e : Entry}
    (he : q.entries[j]? = some e) :
    ∃ old, p.entries[j]? = some old ∧ e.block = old.block ∧
      (e.selected = old.selected ∨ e.selected = (selected && old.block.isSome)) := by
  by_cases hj : j = index
  · subst hj
    cases hold : p.entries[j]? with
    | some old =>
      rw [h.target old hold] at he
      obtain rfl := Option.some.inj he
      exact ⟨old, rfl, rfl, .inr rfl⟩
    | none =>
      rw [h.outside (List.getElem?_eq_none_iff.mp hold), hold] at he
      cases he
  · rw [h.others j hj] at he
    exact ⟨e, he, rfl, .inl rfl⟩

/-- Selecting keeps a proposal sound. -/
theorem Reselected.sound (h : p.Reselected index selected q) (hsound : p.Sound) : q.Sound where
  once b i j hi hj := by
    have hheld : ∀ n, q.Holds n b → p.Holds n b := by
      rintro n ⟨e, he, hb⟩
      obtain ⟨old, hold, hsame, -⟩ := h.entry_cases he
      exact ⟨old, hold, hsame ▸ hb⟩
    exact hsound.once b i j (hheld i hi) (hheld j hj)
  unselected e he hnone := by
    obtain ⟨j, hj⟩ := List.mem_iff_getElem?.mp he
    obtain ⟨old, hold, hsame, hselected | hselected⟩ := h.entry_cases hj
    · rw [hselected]
      exact hsound.unselected old (List.mem_of_getElem? hold) (hsame ▸ hnone)
    · rw [hselected, ← hsame, hnone]
      exact Bool.and_false _

/-- Every edit keeps a proposal sound. -/
theorem Sound.revise (h : p.Sound) (revision : Revision) : (p.revise revision).Sound := by
  cases revision with
  | setBlock index block => exact (reassigned_setBlock h.once index block).sound h
  | setSelected index selected => exact (reselected_setSelected p index selected).sound h

/-- **A sound proposal stays sound, whatever is done to it.** -/
theorem Sound.revised (h : p.Sound) (revisions : List Revision) : (p.revised revisions).Sound := by
  induction revisions generalizing p with
  | nil => exact h
  | cons revision rest ih => exact ih (h.revise revision)

/-- Edits change nothing but entries. -/
theorem revised_frame (p : Proposal) (revisions : List Revision) :
    (p.revised revisions).program = p.program ∧ (p.revised revisions).score = p.score := by
  induction revisions generalizing p with
  | nil => exact ⟨rfl, rfl⟩
  | cons revision rest ih =>
    have hstep : (p.revise revision).program = p.program ∧
        (p.revise revision).score = p.score := by
      cases revision with
      | setBlock index block => exact setBlock_frame
      | setSelected index selected => exact ⟨rfl, rfl⟩
    exact ⟨(ih _).1.trans hstep.1, (ih _).2.trans hstep.2⟩

end Proposal

/-! ## Proposals as computed -/

/-- Every entry of a proposal as computed is selected exactly if it has a block. -/
theorem selected_of_propose {regions : List Region} {image : Image} {e : Entry}
    (h : e ∈ (propose regions image).entries) : e.selected = e.block.isSome := by
  obtain ⟨r, -, rfl⟩ := List.mem_map.mp ((entries_perm regions image).mem_iff.mp h)
  rfl

/-- **A proposal as computed is sound where the catalog lists no block twice.** -/
theorem sound_propose {image : Image} (h : image.blocks.Nodup) (regions : List Region) :
    (propose regions image).Sound where
  once := holdsOnce_of_nodup h regions
  unselected e he hnone := by rw [selected_of_propose he, hnone]; rfl

/-- **However a proposal is edited, it stays sound**, it keeps its regions in their order, its
program and its score, what is committed of it are the selected entries, and the next edit of
either kind does what it should and nothing else. -/
theorem edits_keep_proposals_sound {image : Image} (hnodup : image.blocks.Nodup)
    (regions : List Region) (revisions : List Proposal.Revision) :
    let made := propose regions image
    let p := made.revised revisions
    p.Sound ∧
      p.accepted = p.entries.filter (·.selected) ∧
      p.entries.map (·.region) = made.entries.map (·.region) ∧
      p.program = made.program ∧ p.score = made.score ∧
      (∀ index block,
        p.Reassigned index block (p.setBlock index block).1 (p.setBlock index block).2) ∧
      ∀ index selected, p.Reselected index selected (p.setSelected index selected) := by
  intro made p
  have hsound : p.Sound := (sound_propose hnodup regions).revised revisions
  exact ⟨hsound, hsound.accepted_eq, made.map_region_revised revisions,
    (made.revised_frame revisions).1, (made.revised_frame revisions).2,
    Proposal.reassigned_setBlock hsound.once, p.reselected_setSelected⟩

/-- A program with two blocks. -/
def textBlock : Block := ⟨".text", "ram", ⟨0x420000, 0x420fff, by decide⟩⟩

def dataBlock : Block := ⟨".data", "ram", ⟨0x421000, 0x421fff, by decide⟩⟩

def echoImage : Image := ⟨"echo", [textBlock, dataBlock]⟩

/-- What a user did to the proposal for it: the second region goes without a block. -/
def echoRevisions : List Proposal.Revision := [.setBlock 1 none, .setSelected 7 true]

/-- When it then gets the block of the first, that one is told. -/
theorem echo_holder_told :
    echoImage.blocks.Nodup ∧
      (((propose [echoText, echoData] echoImage).revised echoRevisions).setBlock 1
        (some textBlock)).2 = some 0 := by
  have hnodup : echoImage.blocks.Nodup := by decide
  have hmade : pairings echoImage [echoText, echoData] =
      [⟨⟨0⟩, ⟨0, textBlock⟩, .image⟩, ⟨⟨1⟩, ⟨1, dataBlock⟩, .image⟩] := by
    have hmodule : distinctKeys ([echoText, echoData].filterMap (·.module?)) = [⟨"/bin/echo"⟩] := by
      decide
    rw [pairings_of_one_module hmodule (by decide) (by decide) (by decide)]
    decide
  have hedited : (propose [echoText, echoData] echoImage).revised echoRevisions =
      ⟨"echo", [.ofPair echoText (some textBlock), .ofPair echoData none], ⟨2, 4⟩⟩ := by
    rw [propose_of_sorted (by decide) hmade (by decide)]
    decide
  obtain ⟨-, -, -, -, -, hset, -⟩ :=
    edits_keep_proposals_sound hnodup [echoText, echoData] echoRevisions
  refine ⟨hnodup, ((hset 1 (some textBlock)).told_iff 0).mpr ?_⟩
  rw [hedited]
  exact ⟨by decide, by decide, textBlock, rfl, _, rfl, rfl⟩

end RegionAtlas
