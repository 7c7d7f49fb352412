/-
  Foresight — what a transaction shows right before its commit is what everybody sees after it.

  A transaction shows copies: of every region it touched, the form it had when it was touched, with
  the lifespan it was given then.  A commit looks at none of them.  It carries out operations on
  contents that may have moved on since.  The two agree for three reasons:

    1. the copies say what the operations say (`Mirrors`): the lifespan that a transaction shows of
       a region is the one that the last operation on it sets, and the mappings it shows are those
       that its operations make;
    2. what the operations lead to has those lifespans and mappings as well (`lifespan_carryOut`,
       `mapping?_carryOut`), whatever contents they are carried out on;
    3. two forms of one region with one lifespan are equal, since nothing else about a region ever
       changes — the business of the register (`Region.StemsFrom`).

  So where the operations can be carried out at all, the transaction sees what they lead to
  (`sees_carryOut`), in the order in which queries list it (`query_of_sees`).
-/
import RegionAtlas.Proofs.Drafts
import RegionAtlas.Proofs.Listing
import RegionAtlas.Proofs.Replay

namespace RegionAtlas

open Change (Subject)

/-! ## What operations say of a region -/

namespace Operation

/-- The lifespan that an operation gives to the region of a number. -/
def lifespanFor? (id : RegionId) : Operation → Option Lifespan
  | createRegion r => if r.id = id then some r.lifespan else none
  | setLifespan j _ new => if j = id then some new else none
  | createMapping _ => none

/-- The lifespan that the last operation on a region gives to it. -/
def lastLifespan? (id : RegionId) (ops : List Operation) : Option Lifespan :=
  ops.reverse.findSome? (lifespanFor? id)

theorem lastLifespan?_cons (id : RegionId) (op : Operation) (ops : List Operation) :
    lastLifespan? id (op :: ops) = (lastLifespan? id ops).or (op.lifespanFor? id) := by
  rw [lastLifespan?, List.reverse_cons, List.findSome?_append, List.findSome?_singleton]
  rfl

theorem lastLifespan?_append (id : RegionId) (ops : List Operation) (op : Operation) :
    lastLifespan? id (ops ++ [op]) = (op.lifespanFor? id).or (lastLifespan? id ops) := by
  rw [lastLifespan?, List.reverse_append, List.findSome?_append, List.reverse_singleton,
    List.findSome?_singleton]
  rfl

/-- The mapping that an operation makes. -/
def mapping? : Operation → Option Mapping
  | createMapping m => some m
  | createRegion _ | setLifespan _ _ _ => none

/-- The mappings that operations make, in order. -/
def mappings (ops : List Operation) : List Mapping := ops.filterMap mapping?

theorem mappings_append (ops : List Operation) (op : Operation) :
    mappings (ops ++ [op]) = mappings ops ++ op.mapping?.toList := by
  rw [mappings, List.filterMap_append]
  cases hop : op.mapping? with
  | none => rw [List.filterMap_cons_none hop]; rfl
  | some m => rw [List.filterMap_cons_some hop]; rfl

/-- Operations that make nothing twice make no two mappings of one number. -/
theorem nodup_mapping_ids {ops : List Operation} (h : (made ops).Nodup) :
    ((mappings ops).map (·.id)).Nodup := by
  have hsub : ((mappings ops).map fun m => Subject.mapping m.id).Sublist (made ops) := by
    induction ops with
    | nil => exact .slnil
    | cons op rest ih =>
      have hrest : (made rest).Nodup := by
        refine h.sublist ?_
        exact (List.sublist_cons_self op rest).filterMap _
      cases op with
      | createRegion r => exact (ih hrest).cons _
      | setLifespan id old new => exact ih hrest
      | createMapping m => exact (ih hrest).cons_cons _
  have hsubjects := h.sublist hsub
  rw [List.nodup_map_iff_inj_on (List.Nodup.of_map _ hsubjects)]
  intro m hm n hn hid
  exact List.inj_on_of_nodup_map hsubjects hm hn (congrArg Subject.mapping hid)

/-! ## What they lead to -/

variable {c c' : Contents} {op : Operation} {change : Change}

theorem lifespan_of_fits (h : Fits c op c' change) (id : RegionId) :
    (c'.region? id).map (·.lifespan) =
      (op.lifespanFor? id).or ((c.region? id).map (·.lifespan)) := by
  cases h with
  | createRegion _ =>
    rw [Contents.region?_insertRegion, lifespanFor?]
    split <;> rfl
  | setLifespan new hfound =>
    rw [Contents.region?_setLifespan, lifespanFor?]
    split
    · next hid =>
      subst hid
      rw [hfound]
      rfl
    · rfl
  | createMapping _ => rfl

/-- **After operations a region has the lifespan that the last of them gave it**, or else the one
it had. -/
theorem lifespan_carryOut {ops : List Operation} (h : carryOut c ops = .ok c') (id : RegionId) :
    (c'.region? id).map (·.lifespan) =
      (lastLifespan? id ops).or ((c.region? id).map (·.lifespan)) := by
  induction ops generalizing c with
  | nil =>
    cases h
    rfl
  | cons op rest ih =>
    rw [carryOut] at h
    split at h
    · next c₁ change happly =>
      have hfits : Fits c op c₁ change := fits_of_apply happly
      rw [ih h, lifespan_of_fits hfits id, lastLifespan?_cons, Option.or_assoc]
    · cases h

/-- **After operations there are the mappings there were and those that were made.** -/
theorem mapping?_carryOut {ops : List Operation} (hfresh : Fresh c ops)
    (h : carryOut c ops = .ok c') {id : MappingId} {m : Mapping} :
    c'.mapping? id = some m ↔ c.mapping? id = some m ∨ m ∈ mappings ops ∧ m.id = id := by
  induction ops generalizing c with
  | nil =>
    cases h
    simp only [mappings, List.filterMap_nil, List.not_mem_nil, false_and, or_false]
  | cons op rest ih =>
    rw [carryOut] at h
    split at h
    · next c₁ change happly =>
      have hfits : Fits c op c₁ change := fits_of_apply happly
      rw [ih (fresh_of_fits hfresh hfits) h]
      cases hfits with
      | createRegion _ => exact Iff.rfl
      | setLifespan new _ => exact Iff.rfl
      | @createMapping m₀ _ =>
        -- the number of the new mapping was free, so nothing is replaced
        have hnone : c.mapping? m₀.id = none :=
          Contents.not_holds_mapping.mp (made?_of_fresh_cons hfresh _ rfl)
        have hfirst : (c.insertMapping m₀).mapping? id = some m ↔
            c.mapping? id = some m ∨ m = m₀ ∧ m.id = id := by
          rw [Contents.mapping?_insertMapping]
          by_cases hid : m₀.id = id
          · subst hid
            rw [if_pos rfl, hnone, Option.some.injEq]
            constructor
            · rintro rfl
              exact .inr ⟨rfl, rfl⟩
            · rintro (hold | ⟨rfl, -⟩)
              · cases hold
              · rfl
          · rw [if_neg hid]
            constructor
            · exact .inl
            · rintro (hold | ⟨rfl, hsame⟩)
              · exact hold
              · exact absurd hsame hid
        have hmade : m ∈ mappings (createMapping m₀ :: rest) ↔ m = m₀ ∨ m ∈ mappings rest := by
          exact List.mem_cons
        rw [hfirst, hmade, or_and_right, or_assoc]
    · cases h

end Operation

/-! ## What a transaction says of itself -/

namespace Transaction

variable {tx : Transaction} {c c' : Contents}

/-- **What a transaction shows of its own is what its operations do.** -/
structure Mirrors (tx : Transaction) : Prop where
  lifespans : ∀ id,
    (tx.regions.find? id).map (·.lifespan) = Operation.lastLifespan? id tx.operations
  mappings : tx.mappings = Operation.mappings tx.operations

theorem mirrors_stageRegion (h : tx.Mirrors) (r : Region) : (tx.stageRegion r).Mirrors where
  lifespans id := by
    show _ = Operation.lastLifespan? id (tx.operations ++ [.createRegion r])
    rw [find?_stageRegion, Operation.lastLifespan?_append, ← h.lifespans, Operation.lifespanFor?]
    split <;> rfl
  mappings := by
    show tx.mappings = Operation.mappings (tx.operations ++ [.createRegion r])
    rw [Operation.mappings_append, h.mappings]
    exact (List.append_nil _).symm

theorem mirrors_stageLifespan (h : tx.Mirrors) (id : RegionId) (r : Region) (new : Lifespan) :
    (tx.stageLifespan id r new).Mirrors where
  lifespans j := by
    show _ = Operation.lastLifespan? j (tx.operations ++ [.setLifespan id r.lifespan new])
    rw [find?_stageLifespan, Operation.lastLifespan?_append, ← h.lifespans,
      Operation.lifespanFor?]
    split <;> rfl
  mappings := by
    show tx.mappings = Operation.mappings (tx.operations ++ [.setLifespan id r.lifespan new])
    rw [Operation.mappings_append, h.mappings]
    exact (List.append_nil _).symm

theorem mirrors_stageMapping (h : tx.Mirrors) (m : Mapping) : (tx.stageMapping m).Mirrors where
  lifespans id := by
    show (tx.regions.find? id).map _ =
      Operation.lastLifespan? id (tx.operations ++ [.createMapping m])
    rw [Operation.lastLifespan?_append, ← h.lifespans]
    rfl
  mappings := by
    show tx.mappings ++ [m] = Operation.mappings (tx.operations ++ [.createMapping m])
    rw [Operation.mappings_append, h.mappings]
    rfl

/-- Every transaction is a mirror of its operations. -/
theorem mirrors_upheld : Upheld Mirrors where
  start description := ⟨fun _ => rfl, rfl⟩
  stages h hstages := by
    cases hstages with
    | region _ _ _ => exact mirrors_stageRegion h _
    | lifespan _ _ _ => exact mirrors_stageLifespan h _ _ _
    | mapping _ _ _ => exact mirrors_stageMapping h _

/-- The lifespan that a transaction shows of a region. -/
theorem lifespan_region? (h : tx.Mirrors) (c : Contents) (id : RegionId) :
    (tx.region? c id).map (·.lifespan) =
      (Operation.lastLifespan? id tx.operations).or ((c.region? id).map (·.lifespan)) := by
  rw [← h.lifespans, region?]
  cases tx.regions.find? id <;> rfl

/-! ## From the view to the commit -/

/-- **A transaction sees what its operations lead to**, if the regions on both sides stem from one
register. -/
theorem sees_carryOut {owner : TraceId} {R : Register owner} (h : tx.Mirrors)
    (hshown : ∀ id r, tx.region? c id = some r → r.StemsFrom (R.made id))
    (hstems : c'.StemsFrom R) (hfresh : Operation.Fresh c tx.operations)
    (hcarried : Operation.carryOut c tx.operations = .ok c') : tx.Sees c c' where
  regions id := by
    have hlifespans : (tx.region? c id).map (·.lifespan) = (c'.region? id).map (·.lifespan) := by
      rw [lifespan_region? h, Operation.lifespan_carryOut hcarried]
    cases hseen : tx.region? c id with
    | none =>
      rw [hseen] at hlifespans
      exact (Option.map_eq_none_iff.mp hlifespans.symm).symm
    | some r =>
      rw [hseen] at hlifespans
      obtain ⟨r', hr', hsame⟩ := Option.map_eq_some_iff.mp hlifespans.symm
      -- both are the region as it was made, with the same lifespan
      have hmade : r = (R.made id).withLifespan r.lifespan := (hshown id r hseen).1
      have hmade' : r' = (R.made id).withLifespan r'.lifespan := (hstems id r' hr').1
      rw [hr', hmade, hmade', hsame]
  mappings m := by
    rw [visibleMappings, List.mem_append, Contents.mem_mappings, Contents.mem_mappings,
      h.mappings]
    simp only [Operation.mapping?_carryOut hfresh hcarried]
    constructor
    · rintro (⟨id, hid⟩ | hmade)
      · exact ⟨id, .inl hid⟩
      · exact ⟨m.id, .inr ⟨hmade, rfl⟩⟩
    · rintro ⟨id, hid | ⟨hmade, -⟩⟩
      · exact .inl ⟨id, hid⟩
      · exact .inr hmade

/-- The regions that a transaction lists have distinct numbers. -/
theorem nodup_visible_ids (hkeyed : c.Keyed)
    (hown : ∀ id r, tx.regions.find? id = some r → r.id = id) :
    ((tx.visibleRegions c).map (·.id)).Nodup := by
  have hcommitted : ((c.regions.values.filter fun r => !tx.regions.contains r.id).map
      (·.id)).Nodup := hkeyed.nodup_ids.sublist (List.filter_sublist.map _)
  have htouched : (tx.regions.values.map (·.id)).Nodup := by
    rw [Table.map_values_eq_keys hown]
    exact tx.regions.nodup_keys
  rw [visibleRegions, List.map_append, List.nodup_append]
  refine ⟨hcommitted, htouched, ?_⟩
  intro id hid j hj heq
  subst heq
  -- a committed region is listed only under a number that was not touched
  obtain ⟨r, hr, rfl⟩ := List.mem_map.mp hid
  rw [Table.map_values_eq_keys hown, Table.mem_keys] at hj
  have huntouched := (List.mem_filter.mp hr).2
  rw [hj] at huntouched
  cases huntouched

/-- **A transaction lists what it sees in the order of a query.** -/
theorem query_of_sees (h : tx.Sees c c') (hkeyed : c.Keyed) (hkeyed' : c'.Keyed)
    (hown : ∀ id r, tx.regions.find? id = some r → r.id = id) (s : Snap) :
    tx.query c s = c'.query s := by
  have hsame : ∀ r, r ∈ tx.visibleRegions c ↔ r ∈ c'.regions.values := by
    intro r
    rw [mem_visibleRegions hkeyed, Contents.mem_regions]
    simp only [h.regions]
  rw [query, Contents.query, Contents.regionsAt,
    aliveAt_congr (nodup_visible_ids hkeyed hown) hkeyed'.nodup_ids hsame]

end Transaction

/-! ## Commits -/

/-- **What a transaction shows is what its commit produces.**  On every trace that a run can lead
to, after a commit that succeeds every region is what the transaction showed right before it, every
query lists what it listed, and the mappings are those from before and the ones it staged. -/
theorem commit_produces_view {c : Contents} (hc : c.Attained) (id : TraceId) (name : String)
    (limit : Nat) (steps : List Trace.Step) (d : DraftId) (tx : Transaction)
    (told : List Change) :
    let t := (Trace.ofContents id name c limit).run steps
    let t' := (t.commit d).1
    t.draft? d = some tx → (t.commit d).2 = .done told →
      (∀ rid, t'.contents.region? rid = tx.region? t.contents rid) ∧
      (∀ s, t'.contents.query s = tx.query t.contents s) ∧
      (∀ mid m, t'.contents.mapping? mid = some m ↔
        t.contents.mapping? mid = some m ∨ m ∈ tx.mappings ∧ m.id = mid) ∧
      (∀ m ∈ tx.mappings, t.contents.mapping? m.id = none) ∧
      (tx.mappings.map (·.id)).Nodup := by
  intro t t' hd hdone
  have hkeyed₀ : c.Keyed := keyed_of_attained hc
  obtain ⟨ht, ha⟩ := course_ofContents id name c limit steps
  obtain ⟨R, hj⟩ := journaled_ofContents id name c limit hkeyed₀ steps
  have hfresh : Operation.Fresh t.contents tx.operations := ha.fresh ht hd
  have hmirrors : tx.Mirrors :=
    Trace.drafts_ofContents Transaction.mirrors_upheld id name c limit steps d tx hd
  cases hcarried : Operation.carryOut t.contents tx.operations with
  | error why =>
    rw [Trace.commit_refused hd hfresh hcarried] at hdone
    cases hdone
  | ok c' =>
    obtain ⟨hcontents, -⟩ := Trace.commit_done hd hfresh hcarried
    have hshown : ∀ rid r, tx.region? t.contents rid = some r → r.StemsFrom (R.made rid) :=
      fun rid r hr => (stemsFrom_of_region? hj ha ht hd hr).1
    have hown : ∀ rid r, tx.regions.find? rid = some r → r.id = rid := by
      intro rid r hr
      have hstems := (hj.shown d tx hd rid r hr).1
      rw [hstems.1]
      exact R.id_made rid
    have hstems : c'.StemsFrom R :=
      stemsFrom_of_carryOut (hj.written d tx hd) (hj.regions _ ht.visits) hcarried
    have hkeyed : t.contents.Keyed := fun rid r hr => ((hj.regions _ ht.visits).id_owner hr).1
    have hkeyed' : c'.Keyed := fun rid r hr => (hstems.id_owner hr).1
    have hsees : tx.Sees t.contents c' :=
      Transaction.sees_carryOut hmirrors hshown hstems hfresh hcarried
    have ht' : t'.contents = c' := hcontents
    rw [ht', hmirrors.mappings]
    refine ⟨fun rid => (hsees.regions rid).symm,
      fun s => (Transaction.query_of_sees hsees hkeyed hkeyed' hown s).symm, ?_, ?_,
      Operation.nodup_mapping_ids hfresh.1⟩
    · intro mid m
      exact Operation.mapping?_carryOut hfresh hcarried
    · intro m hm
      obtain ⟨op, hop, hmade⟩ := List.mem_filterMap.mp hm
      refine Contents.not_holds_mapping.mp (hfresh.2 _ (Operation.mem_made.mpr ⟨op, hop, ?_⟩))
      cases op with
      | createMapping m' =>
        cases hmade
        rfl
      | createRegion _ => cases hmade
      | setLifespan _ _ _ => cases hmade

/-- A transaction that moves a region and maps the room it leaves, while the trace moves on under
it: another one commits, and a third is undone and redone. -/
def relaySteps : List Trace.Step :=
  [.begin "map", .edit ⟨0⟩ (.createRegion "text" ⟨0x2000, 0x2fff, by decide⟩ 0 ⟨true, false, true⟩),
   .commit ⟨0⟩, .begin "move", .begin "other",
   .edit ⟨1⟩ (.destroyRegion ⟨0⟩ 10),
   .edit ⟨1⟩ (.createRegion "text" ⟨0x1900, 0x28ff, by decide⟩ 10 ⟨true, false, true⟩),
   .edit ⟨1⟩ (.addMapping ⟨0x1900, 0x28ff, by decide⟩ (.since 10) "echo" ⟨"ram", 0x400000⟩),
   .edit ⟨2⟩ (.createRegion "heap" ⟨0x4000, 0x4fff, by decide⟩ 3 ⟨true, true, false⟩),
   .commit ⟨2⟩, .undo, .redo]

/-- What the transaction shows at two snaps is what is seen after its commit. -/
theorem relay_produces_view :
    let t := (Trace.ofContents ⟨1⟩ "echo" .empty 50).run relaySteps
    ∃ tx told, t.draft? ⟨1⟩ = some tx ∧ (t.commit ⟨1⟩).2 = .done told ∧
      tx.query t.contents 9 = [⟨0⟩, ⟨2⟩] ∧ tx.query t.contents 10 = [⟨1⟩, ⟨2⟩] ∧
      (t.commit ⟨1⟩).1.contents.query 9 = [⟨0⟩, ⟨2⟩] ∧
      (t.commit ⟨1⟩).1.contents.query 10 = [⟨1⟩, ⟨2⟩] := by
  intro t
  have hopen : (t.draft? ⟨1⟩).isSome = true := by decide
  obtain ⟨tx, hd⟩ := Option.isSome_iff_exists.mp hopen
  have hdone : (t.commit ⟨1⟩).2 =
      .done [.regionChanged ⟨0⟩, .regionAdded ⟨1⟩, .mappingAdded ⟨0⟩] := by decide
  obtain ⟨-, hquery, -⟩ :=
    commit_produces_view .empty ⟨1⟩ "echo" 50 relaySteps ⟨1⟩ tx _ hd hdone
  have h9 : (t.commit ⟨1⟩).1.contents.query 9 = [⟨0⟩, ⟨2⟩] := by
    rw [Contents.query, Contents.regionsAt, aliveAt_of_sorted (by decide)]
    decide
  have h10 : (t.commit ⟨1⟩).1.contents.query 10 = [⟨1⟩, ⟨2⟩] := by
    rw [Contents.query, Contents.regionsAt, aliveAt_of_sorted (by decide)]
    decide
  exact ⟨tx, _, hd, hdone, (hquery 9).symm.trans h9, (hquery 10).symm.trans h10, h9, h10⟩

end RegionAtlas
