/-
  Differences — what operations change in contents, and that the changes they tell of are just that.

  Every operation tells of one change, and taking it back tells of the change reversed.  Three facts
  make the net effect of what operations tell the difference between the contents before and after
  them, in either direction:

    * the changes make sense, one after the other (`leadsAll_carryOut`): operations that are fresh
      add only what is not there, and the lifespan they set is that of a region that is;
    * what they do not touch stays as it is (`region?_untouched`, `mapping?_untouched`);
    * a region that is touched and there on both sides has another lifespan afterwards.  A lifespan
      is only ever set to close an open one (`Closes`), and once closed it is not set again: the
      first operation on the region finds it open, and the last leaves it closed
      (`lifespan_touched`).
-/
import RegionAtlas.Proofs.Drafts
import RegionAtlas.Proofs.Extent
import RegionAtlas.Proofs.NetEffect

namespace RegionAtlas

open Change (Subject LeadsAll Leads)

/-! ## Differences -/

/-- **A change that happened between two contents**, by what is found in them. -/
def Change.IsBetween (change : Change) (c c' : Contents) : Prop :=
  match change with
  | regionAdded id => c.region? id = none ∧ ∃ r, c'.region? id = some r
  | regionChanged id =>
    ∃ r r', c.region? id = some r ∧ c'.region? id = some r' ∧ r.lifespan ≠ r'.lifespan
  | regionRemoved id => (∃ r, c.region? id = some r) ∧ c'.region? id = none
  | mappingAdded id => c.mapping? id = none ∧ ∃ m, c'.mapping? id = some m
  | mappingRemoved id => (∃ m, c.mapping? id = some m) ∧ c'.mapping? id = none

/-- Nothing happened between contents and themselves. -/
theorem Change.not_isBetween_self (change : Change) (c : Contents) : ¬ change.IsBetween c c := by
  cases change with
  | regionAdded id =>
    rintro ⟨hnone, r, hr⟩
    rw [hnone] at hr
    cases hr
  | regionChanged id =>
    rintro ⟨r, r', hr, hr', hne⟩
    rw [hr] at hr'
    cases hr'
    exact hne rfl
  | regionRemoved id =>
    rintro ⟨⟨r, hr⟩, hnone⟩
    rw [hnone] at hr
    cases hr
  | mappingAdded id =>
    rintro ⟨hnone, m, hm⟩
    rw [hnone] at hm
    cases hm
  | mappingRemoved id =>
    rintro ⟨⟨m, hm⟩, hnone⟩
    rw [hnone] at hm
    cases hm

/-- **Contents that differ in just the subjects of a list**: regions that are on both sides in their
lifespans, mappings in being on one side only. -/
structure Contents.DifferIn (touched : List Subject) (c c' : Contents) : Prop where
  regions : ∀ id, Subject.region id ∉ touched → c'.region? id = c.region? id
  mappings : ∀ id, Subject.mapping id ∉ touched → c'.mapping? id = c.mapping? id
  lifespans : ∀ id r r', Subject.region id ∈ touched → c.region? id = some r →
    c'.region? id = some r' → r.lifespan ≠ r'.lifespan
  oneSided : ∀ id, Subject.mapping id ∈ touched →
    ¬ (c.Holds (.mapping id) ∧ c'.Holds (.mapping id))
  somewhere : ∀ s ∈ touched, c.Holds s ∨ c'.Holds s

namespace Contents.DifferIn

variable {touched : List Subject} {c c' : Contents}

theorem symm (h : DifferIn touched c c') : DifferIn touched c' c where
  regions id hid := (h.regions id hid).symm
  mappings id hid := (h.mappings id hid).symm
  lifespans id r r' hid hr hr' := (h.lifespans id r' r hid hr' hr).symm
  oneSided id hid hboth := h.oneSided id hid ⟨hboth.2, hboth.1⟩
  somewhere s hs := (h.somewhere s hs).symm

/-- The order of the list does not matter. -/
theorem reverse (h : DifferIn touched c c') : DifferIn touched.reverse c c' where
  regions id hid := h.regions id fun hmem => hid (List.mem_reverse.mpr hmem)
  mappings id hid := h.mappings id fun hmem => hid (List.mem_reverse.mpr hmem)
  lifespans id r r' hid := h.lifespans id r r' (List.mem_reverse.mp hid)
  oneSided id hid := h.oneSided id (List.mem_reverse.mp hid)
  somewhere s hs := h.somewhere s (List.mem_reverse.mp hs)

/-- A change of a subject that is touched reports what happened exactly if it happened. -/
theorem isBetween_iff (h : DifferIn touched c c') (change : Change) :
    change.IsBetween c c' ↔
      change.subject ∈ touched ∧
        change.Reports (c.Holds change.subject) (c'.Holds change.subject) := by
  cases change with
  | regionAdded id =>
    show c.region? id = none ∧ c'.Holds (.region id) ↔
      Subject.region id ∈ touched ∧ ¬ c.Holds (.region id) ∧ c'.Holds (.region id)
    rw [Contents.not_holds_region]
    constructor
    · rintro ⟨hnone, r, hr⟩
      refine ⟨?_, hnone, r, hr⟩
      by_contra hid
      rw [h.regions id hid, hnone] at hr
      cases hr
    · exact And.right
  | regionChanged id =>
    show _ ↔ Subject.region id ∈ touched ∧ c.Holds (.region id) ∧ c'.Holds (.region id)
    constructor
    · rintro ⟨r, r', hr, hr', hne⟩
      refine ⟨?_, ⟨r, hr⟩, ⟨r', hr'⟩⟩
      by_contra hid
      rw [h.regions id hid, hr] at hr'
      cases hr'
      exact hne rfl
    · rintro ⟨hid, ⟨r, hr⟩, ⟨r', hr'⟩⟩
      exact ⟨r, r', hr, hr', h.lifespans id r r' hid hr hr'⟩
  | regionRemoved id =>
    show c.Holds (.region id) ∧ c'.region? id = none ↔
      Subject.region id ∈ touched ∧ c.Holds (.region id) ∧ ¬ c'.Holds (.region id)
    rw [Contents.not_holds_region]
    constructor
    · rintro ⟨⟨r, hr⟩, hnone⟩
      refine ⟨?_, ⟨r, hr⟩, hnone⟩
      by_contra hid
      rw [h.regions id hid, hr] at hnone
      cases hnone
    · exact And.right
  | mappingAdded id =>
    show c.mapping? id = none ∧ c'.Holds (.mapping id) ↔
      Subject.mapping id ∈ touched ∧ c'.Holds (.mapping id)
    constructor
    · rintro ⟨hnone, m, hm⟩
      refine ⟨?_, m, hm⟩
      by_contra hid
      rw [h.mappings id hid, hnone] at hm
      cases hm
    · rintro ⟨hid, hheld⟩
      exact ⟨Contents.not_holds_mapping.mp fun hbefore => h.oneSided id hid ⟨hbefore, hheld⟩, hheld⟩
  | mappingRemoved id =>
    show c.Holds (.mapping id) ∧ c'.mapping? id = none ↔
      Subject.mapping id ∈ touched ∧ c.Holds (.mapping id) ∧ ¬ c'.Holds (.mapping id)
    rw [Contents.not_holds_mapping]
    constructor
    · rintro ⟨⟨m, hm⟩, hnone⟩
      refine ⟨?_, ⟨m, hm⟩, hnone⟩
      by_contra hid
      rw [h.mappings id hid, hm] at hnone
      cases hnone
    · exact And.right

/-- **The net effect of changes is the difference they make.** -/
theorem mem_net_iff {raw : List Change} (h : DifferIn (raw.map Change.subject) c c')
    (hleads : LeadsAll c.Holds raw c'.Holds) (change : Change) :
    change ∈ Change.net raw ↔ change.IsBetween c c' := by
  rw [Change.mem_net hleads, h.isBetween_iff]

/-- What the net effect does not name was not touched. -/
theorem not_touched_of_net {raw : List Change} (h : DifferIn (raw.map Change.subject) c c')
    (hleads : LeadsAll c.Holds raw c'.Holds) {s : Subject}
    (hs : ∀ change ∈ Change.net raw, change.subject ≠ s) : s ∉ raw.map Change.subject := by
  intro htouched
  obtain ⟨change, hchange, hsubject⟩ :=
    Change.exists_mem_net hleads htouched (h.somewhere s htouched)
  exact hs change hchange hsubject

end Contents.DifferIn

/-! ## What operations tell -/

namespace Operation

variable {c c' : Contents} {op : Operation} {ops : List Operation}

/-- What changes when an operation is applied. -/
def change : Operation → Change
  | createRegion r => .regionAdded r.id
  | setLifespan id _ _ => .regionChanged id
  | createMapping m => .mappingAdded m.id

theorem subject_change (op : Operation) : op.change.subject = op.subject := by
  cases op <;> rfl

theorem map_subject_change (ops : List Operation) :
    (ops.map change).map Change.subject = ops.map subject := by
  rw [List.map_map]
  exact List.map_congr_left fun op _ => op.subject_change

theorem change_of_fits {told : Change} (h : Fits c op c' told) : told = op.change := by
  cases h <;> rfl

theorem snd_revert (c : Contents) (op : Operation) : (op.revert c).2 = op.change.reversed := by
  cases op <;> rfl

/-- Applying operations tells of the change of each. -/
theorem told_applyEach {done : List Operation} {changes told : List Change}
    (h : (applyEach c done changes ops).result = .ok told) :
    told = changes.reverse ++ ops.map change := by
  induction ops generalizing c done changes with
  | nil =>
    cases h
    exact (List.append_nil _).symm
  | cons op rest ih =>
    rw [applyEach] at h
    split at h
    · next c₁ first happly =>
      rw [ih h, List.reverse_cons, List.append_assoc, List.singleton_append, List.map_cons,
        change_of_fits (fits_of_apply happly)]
    · cases h

theorem applyAll_told (hfresh : Fresh c ops) (h : carryOut c ops = .ok c') :
    applyAll c ops = ⟨c', .ok (ops.map change)⟩ := by
  obtain ⟨told, happlied⟩ := applyAll_carryOut hfresh h
  have hresult : (applyEach c [] [] ops).result = .ok told := congrArg Applied.result happlied
  have htold : told = ops.map change := told_applyEach hresult
  rw [happlied, htold]

/-- Reverting operations tells of the change of each reversed, the last first. -/
theorem told_revertAll (c : Contents) (ops : List Operation) :
    (revertAll c ops).2 = ((ops.map change).map Change.reversed).reverse := by
  have heach : ∀ (xs : List Operation) (c : Contents),
      (revertEach c xs).2 = xs.map fun op => op.change.reversed := by
    intro xs
    induction xs with
    | nil => exact fun c => rfl
    | cons op rest ih =>
      intro c
      show (op.revert c).2 :: (revertEach (op.revert c).1 rest).2 = _
      rw [ih, snd_revert]
      rfl
  rw [revertAll, heach, List.map_map, ← List.map_reverse]
  rfl

/-! ## That it makes sense -/

/-- An operation that fits and is fresh leads from what is held to what is held after it. -/
theorem leads_of_fits {told : Change} (h : Fits c op c' told)
    (hnew : ∀ s, op.made? = some s → ¬ c.Holds s) : Leads c.Holds op.change c'.Holds := by
  cases h with
  | @createRegion r _ =>
    refine { before := ?_, after := ?_, others := ?_ }
    · constructor
      · intro hheld
        exact absurd hheld (hnew _ rfl)
      · intro hfalse
        cases hfalse
    · exact ⟨fun _ => rfl, fun _ => Contents.holds_insertRegion.mpr (.inr rfl)⟩
    · intro s hs
      rw [Contents.holds_insertRegion]
      exact ⟨fun hheld => hheld.resolve_right hs, .inl⟩
  | @setLifespan id r new hfound =>
    have hheld : c.Holds (.region id) := ⟨r, hfound⟩
    refine { before := ?_, after := ?_, others := ?_ }
    · exact ⟨fun _ => rfl, fun _ => hheld⟩
    · exact ⟨fun _ => rfl, fun _ => Contents.holds_setLifespan.mpr hheld⟩
    · exact fun s _ => Contents.holds_setLifespan
  | @createMapping m _ =>
    refine { before := ?_, after := ?_, others := ?_ }
    · constructor
      · intro hheld
        exact absurd hheld (hnew _ rfl)
      · intro hfalse
        cases hfalse
    · exact ⟨fun _ => rfl, fun _ => Contents.holds_insertMapping.mpr (.inr rfl)⟩
    · intro s hs
      rw [Contents.holds_insertMapping]
      exact ⟨fun hheld => hheld.resolve_right hs, .inl⟩

/-- **What operations tell makes sense**, from what is held before them to what is held after. -/
theorem leadsAll_carryOut (hfresh : Fresh c ops) (h : carryOut c ops = .ok c') :
    LeadsAll c.Holds (ops.map change) c'.Holds := by
  induction ops generalizing c with
  | nil =>
    cases h
    exact .nil _
  | cons op rest ih =>
    rw [carryOut] at h
    split at h
    · next c₁ told happly =>
      have hfits : Fits c op c₁ told := fits_of_apply happly
      exact .cons (leads_of_fits hfits (made?_of_fresh_cons hfresh))
        (ih (fresh_of_fits hfresh hfits) h)
    · cases h

/-! ## What they change -/

/-- A region that no operation is about stays as it is. -/
theorem region?_untouched {id : RegionId} (h : carryOut c ops = .ok c')
    (hid : Subject.region id ∉ ops.map subject) : c'.region? id = c.region? id := by
  refine carryOut_induct (P := fun c₁ => c₁.region? id = c.region? id) ?_ rfl h
  intro op hop c₁ c₂ told hsame hfits
  have hne : op.subject ≠ .region id := fun heq => hid (List.mem_map.mpr ⟨op, hop, heq⟩)
  cases hfits with
  | @createRegion r _ =>
    rw [Contents.region?_insertRegion, if_neg fun heq => hne (congrArg Subject.region heq)]
    exact hsame
  | @setLifespan j r new _ =>
    rw [Contents.region?_setLifespan, if_neg fun heq => hne (congrArg Subject.region heq)]
    exact hsame
  | createMapping _ => exact hsame

/-- A mapping that no operation is about stays as it is. -/
theorem mapping?_untouched {id : MappingId} (h : carryOut c ops = .ok c')
    (hid : Subject.mapping id ∉ ops.map subject) : c'.mapping? id = c.mapping? id := by
  refine carryOut_induct (P := fun c₁ => c₁.mapping? id = c.mapping? id) ?_ rfl h
  intro op hop c₁ c₂ told hsame hfits
  have hne : op.subject ≠ .mapping id := fun heq => hid (List.mem_map.mpr ⟨op, hop, heq⟩)
  cases hfits with
  | createRegion _ => exact hsame
  | setLifespan new _ => exact hsame
  | @createMapping m _ =>
    rw [Contents.mapping?_insertMapping, if_neg fun heq => hne (congrArg Subject.mapping heq)]
    exact hsame

/-- What an operation is about is held after it. -/
theorem holds_subject_of_fits {told : Change} (h : Fits c op c' told) : c'.Holds op.subject := by
  rw [holds_of_fits h]
  cases h with
  | createRegion _ => exact .inr rfl
  | @setLifespan id r new hfound => exact .inl ⟨r, hfound⟩
  | createMapping _ => exact .inr rfl

/-- Everything that operations are about is held after them. -/
theorem holds_touched {s : Subject} (h : carryOut c ops = .ok c') (hs : s ∈ ops.map subject) :
    c'.Holds s := by
  induction ops generalizing c with
  | nil => cases hs
  | cons op rest ih =>
    rw [carryOut] at h
    split at h
    · next c₁ told happly =>
      rcases List.mem_cons.mp hs with rfl | hrest
      · exact (holds_carryOut h).mpr (.inl (holds_subject_of_fits (fits_of_apply happly)))
      · exact ih h hrest
    · cases h

/-- An operation that sets a lifespan only to close an open one. -/
def Closes : Operation → Prop
  | setLifespan _ old new => old.isOpen = true ∧ new.isOpen = false
  | createRegion _ | createMapping _ => True

/-- **Transactions set lifespans only to close open ones.** -/
theorem closes_upheld : Transaction.Upheld fun tx => ∀ op ∈ tx.operations, op.Closes where
  start description := by
    intro op hop
    cases hop
  stages h hstages := by
    intro op hop
    cases hstages with
    | region _ _ _ =>
      rcases List.mem_append.mp hop with hold | hnew
      · exact h op hold
      · rw [List.mem_singleton.mp hnew]
        trivial
    | lifespan _ hlive hclosed =>
      rcases List.mem_append.mp hop with hold | hnew
      · exact h op hold
      · rw [List.mem_singleton.mp hnew]
        refine ⟨hlive, ?_⟩
        rw [Lifespan.isOpen, (Lifespan.closedAt?_spec hclosed).2.1]
        rfl
    | mapping _ _ _ =>
      rcases List.mem_append.mp hop with hold | hnew
      · exact h op hold
      · rw [List.mem_singleton.mp hnew]
        trivial

/-- A region whose lifespan is closed stays as it is, whatever is carried out. -/
theorem region?_closed {id : RegionId} {r : Region} (hcloses : ∀ op ∈ ops, op.Closes)
    (hfresh : Fresh c ops) (h : carryOut c ops = .ok c') (hr : c.region? id = some r)
    (hclosed : r.lifespan.isOpen = false) : c'.region? id = some r := by
  refine carryOut_induct (P := fun c₁ => c₁.region? id = some r) ?_ hr h
  intro op hop c₁ c₂ told hsame hfits
  cases hfits with
  | @createRegion r' _ =>
    have hne : r'.id ≠ id := by
      rintro rfl
      exact hfresh.2 _ (mem_made.mpr ⟨_, hop, rfl⟩) ⟨r, hr⟩
    rw [Contents.region?_insertRegion, if_neg hne]
    exact hsame
  | @setLifespan j r' new hfound =>
    have hne : j ≠ id := by
      rintro rfl
      -- what closes the lifespan would have found it open
      rw [hsame] at hfound
      cases hfound
      rw [(hcloses _ hop).1] at hclosed
      cases hclosed
    rw [Contents.region?_setLifespan, if_neg hne]
    exact hsame
  | createMapping _ => exact hsame

/-- **A region that is touched was open before and is closed after**, if it was there. -/
theorem lifespan_touched {id : RegionId} {r : Region} (hcloses : ∀ op ∈ ops, op.Closes)
    (hfresh : Fresh c ops) (h : carryOut c ops = .ok c') (hr : c.region? id = some r)
    (hid : Subject.region id ∈ ops.map subject) :
    r.lifespan.isOpen = true ∧ ∃ r', c'.region? id = some r' ∧ r'.lifespan.isOpen = false := by
  induction ops generalizing c with
  | nil => cases hid
  | cons op rest ih =>
    rw [carryOut] at h
    split at h
    · next c₁ told happly =>
      have hfits : Fits c op c₁ told := fits_of_apply happly
      have hrest : ∀ op' ∈ rest, op'.Closes :=
        fun op' hop' => hcloses op' (List.mem_cons_of_mem _ hop')
      have hfresh₁ : Fresh c₁ rest := fresh_of_fits hfresh hfits
      by_cases hop : op.subject = .region id
      · -- the first operation on the region is the one that closes it
        cases hfits with
        | @createRegion r' _ =>
          cases hop
          exact absurd ⟨r, hr⟩ (made?_of_fresh_cons hfresh _ rfl)
        | @setLifespan j r' new hfound =>
          cases hop
          rw [hr] at hfound
          cases hfound
          obtain ⟨hopen, hclosed⟩ := hcloses _ List.mem_cons_self
          have hr₁ : (c.setLifespan id new).region? id = some (r.withLifespan new) := by
            rw [Contents.region?_setLifespan, if_pos rfl, hr]
            rfl
          exact ⟨hopen, _, region?_closed hrest hfresh₁ h hr₁ hclosed, hclosed⟩
        | createMapping _ => cases hop
      · have hid' : Subject.region id ∈ rest.map subject := by
          rcases List.mem_cons.mp hid with heq | hmem
          · exact absurd heq.symm hop
          · exact hmem
        have hone : carryOut c [op] = .ok c₁ := by
          rw [carryOut_cons_of_fits hfits]
          rfl
        have hr₁ : c₁.region? id = some r := by
          rw [region?_untouched hone, hr]
          rintro hmem
          exact hop (List.mem_singleton.mp hmem).symm
        exact ih hrest hfresh₁ h hr₁ hid'
    · cases h

/-- **Operations make just the difference that they tell of.** -/
theorem differIn_carryOut (hcloses : ∀ op ∈ ops, op.Closes) (hfresh : Fresh c ops)
    (h : carryOut c ops = .ok c') :
    Contents.DifferIn ((ops.map change).map Change.subject) c c' := by
  rw [map_subject_change]
  refine { regions := ?_, mappings := ?_, lifespans := ?_, oneSided := ?_, somewhere := ?_ }
  · exact fun id hid => region?_untouched h hid
  · exact fun id hid => mapping?_untouched h hid
  · intro id r r' hid hr hr' hsame
    obtain ⟨hopen, r'', hr'', hclosed⟩ := lifespan_touched hcloses hfresh h hr hid
    rw [hr'] at hr''
    cases hr''
    rw [← hsame, hopen] at hclosed
    cases hclosed
  · rintro id hid ⟨hbefore, -⟩
    -- the only operations on a mapping make it
    obtain ⟨op, hop, hsubject⟩ := List.mem_map.mp hid
    have hmade : op.made? = some (.mapping id) := by
      cases op with
      | createMapping m =>
        rw [← hsubject]
        rfl
      | createRegion _ => cases hsubject
      | setLifespan _ _ _ => cases hsubject
    exact hfresh.2 _ (mem_made.mpr ⟨op, hop, hmade⟩) hbefore
  · exact fun s hs => .inr (holds_touched h hs)

end Operation

end RegionAtlas
