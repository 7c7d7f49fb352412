/-
  Reversal — operations undo each other exactly, one by one and as whole lists.

  Reverting an operation checks nothing: it erases what the operation made, and puts back the
  lifespan that the operation says was there.  That gives back the contents from before only if

    * what the operation made was not held before it — else the record it replaced is lost;
    * the lifespan it names was the one in force — which applying it has checked.

  The first is a condition on whole lists, `Fresh`: they make nothing twice and nothing that is
  held already.  Under it

    1. a list that is refused half way leaves the contents as they were (`applyAll_refused`);
    2. a list that was applied is reverted to where it was applied (`revertAll_carryOut`).

  The crux is `applyEach_spec`, one induction on the operations still to be applied.  Its invariant
  is that reverting those done so far leads back to the start; `revert_of_fits` is its step.

  `carryOut` is the plain reading of a list of operations, with neither rollback nor changes, that
  the statements are about; `applyAll` is proved to be that, and to take back what it cannot finish.
-/
import RegionAtlas.Ledger.Operation
import RegionAtlas.Proofs.Contents

namespace RegionAtlas.Operation

open Change (Subject)

variable {c c' : Contents} {op : Operation} {change : Change}

/-! ## What an operation can do -/

/-- **The cases of an operation that fits**: the contents after it, and what changed. -/
inductive Fits (c : Contents) : Operation → Contents → Change → Prop where
  | createRegion {r : Region} (free : c.regionConflict? r.range r.lifespan = none) :
      Fits c (.createRegion r) (c.insertRegion r) (.regionAdded r.id)
  | setLifespan {id : RegionId} {r : Region} (new : Lifespan) (found : c.region? id = some r) :
      Fits c (.setLifespan id r.lifespan new) (c.setLifespan id new) (.regionChanged id)
  | createMapping {m : Mapping} (free : c.mappingConflict? m = none) :
      Fits c (.createMapping m) (c.insertMapping m) (.mappingAdded m.id)

theorem fits_of_apply (h : op.apply c = .ok (c', change)) : Fits c op c' change := by
  cases op with
  | createRegion r =>
    simp only [apply] at h
    split at h
    · cases h
    · next hfree =>
      cases h
      exact .createRegion hfree
  | setLifespan id old new =>
    simp only [apply] at h
    split at h
    · cases h
    · next r hfound =>
      split at h
      · next hold =>
        cases h
        subst hold
        exact .setLifespan new hfound
      · cases h
  | createMapping m =>
    simp only [apply] at h
    split at h
    · cases h
    · next hfree =>
      cases h
      exact .createMapping hfree

theorem apply_of_fits (h : Fits c op c' change) : op.apply c = .ok (c', change) := by
  cases h with
  | createRegion hfree => simp only [apply, hfree]
  | setLifespan new hfound => simp only [apply, hfound, if_true]
  | createMapping hfree => simp only [apply, hfree]

/-! ## What an operation makes -/

/-- The region or mapping that an operation is about. -/
def subject : Operation → Subject
  | createRegion r => .region r.id
  | setLifespan id _ _ => .region id
  | createMapping m => .mapping m.id

/-- What an operation adds to contents, if it adds anything. -/
def made? : Operation → Option Subject
  | createRegion r => some (.region r.id)
  | setLifespan _ _ _ => none
  | createMapping m => some (.mapping m.id)

/-- What operations add, in order. -/
def made (ops : List Operation) : List Subject := ops.filterMap made?

theorem mem_made {ops : List Operation} {s : Subject} :
    s ∈ made ops ↔ ∃ op ∈ ops, op.made? = some s := List.mem_filterMap

theorem made_append (xs ys : List Operation) : made (xs ++ ys) = made xs ++ made ys :=
  List.filterMap_append

/-- After an operation, contents hold what they held and what it makes. -/
theorem holds_of_fits (h : Fits c op c' change) {s : Subject} :
    c'.Holds s ↔ c.Holds s ∨ op.made? = some s := by
  cases h with
  | createRegion _ =>
    rw [Contents.holds_insertRegion, made?, Option.some.injEq, eq_comm]
  | setLifespan _ _ => rw [Contents.holds_setLifespan, made?]; simp only [reduceCtorEq, or_false]
  | createMapping _ =>
    rw [Contents.holds_insertMapping, made?, Option.some.injEq, eq_comm]

/-- **Reverting an operation undoes it**, if what it makes was not held before. -/
theorem revert_of_fits (h : Fits c op c' change)
    (hnew : ∀ s, op.made? = some s → ¬ c.Holds s) : (op.revert c').1 = c := by
  cases h with
  | @createRegion r _ =>
    -- nothing was held under the number, so erasing it loses nothing
    have hnone : c.region? r.id = none := Contents.not_holds_region.mp (hnew _ rfl)
    refine Contents.ext_find (fun id => ?_) fun _ => rfl
    show ((c.insertRegion r).eraseRegion r.id).region? id = c.region? id
    rw [Contents.region?_eraseRegion, Contents.region?_insertRegion]
    split
    · next hid => rw [← hid, hnone]
    · rfl
  | @setLifespan id r new hfound =>
    refine Contents.ext_find (fun j => ?_) fun _ => rfl
    show ((c.setLifespan id new).setLifespan id r.lifespan).region? j = c.region? j
    rw [Contents.region?_setLifespan, Contents.region?_setLifespan]
    split
    · next hid =>
      subst hid
      rw [hfound]
      rfl
    · rfl
  | @createMapping m _ =>
    have hnone : c.mapping? m.id = none := Contents.not_holds_mapping.mp (hnew _ rfl)
    refine Contents.ext_find (fun _ => rfl) fun id => ?_
    show ((c.insertMapping m).eraseMapping m.id).mapping? id = c.mapping? id
    rw [Contents.mapping?_eraseMapping, Contents.mapping?_insertMapping]
    split
    · next hid => rw [← hid, hnone]
    · rfl

/-! ## Lists of operations -/

/-- The contents after operations that all fit, or the refusal of the first that does not. -/
def carryOut (c : Contents) : List Operation → Except Refusal Contents
  | [] => .ok c
  | op :: rest =>
    match op.apply c with
    | .ok (c', _) => carryOut c' rest
    | .error why => .error why

/-- Operations make nothing twice and nothing that contents hold already. -/
def Fresh (c : Contents) (ops : List Operation) : Prop :=
  (made ops).Nodup ∧ ∀ s ∈ made ops, ¬ c.Holds s

theorem carryOut_cons_of_fits (h : Fits c op c' change) (rest : List Operation) :
    carryOut c (op :: rest) = carryOut c' rest := by
  rw [carryOut, apply_of_fits h]

theorem carryOut_append {xs ys : List Operation} (h : carryOut c xs = .ok c') :
    carryOut c (xs ++ ys) = carryOut c' ys := by
  induction xs generalizing c with
  | nil =>
    cases h
    rfl
  | cons op rest ih =>
    rw [List.cons_append, carryOut]
    rw [carryOut] at h
    split at h
    · exact ih h
    · cases h

/-- **Induction on operations that are carried out**: what holds at the start and is kept by each
operation of the list holds at the end. -/
theorem carryOut_induct {P : Contents → Prop} {ops : List Operation}
    (hstep : ∀ op ∈ ops, ∀ c c' change, P c → Fits c op c' change → P c') (hstart : P c)
    (h : carryOut c ops = .ok c') : P c' := by
  induction ops generalizing c with
  | nil =>
    cases h
    exact hstart
  | cons op rest ih =>
    rw [carryOut] at h
    split at h
    · next c₁ change happly =>
      have h₁ := hstep op List.mem_cons_self c c₁ change hstart (fits_of_apply happly)
      exact ih (fun op' hop' => hstep op' (List.mem_cons_of_mem _ hop')) h₁ h
    · cases h

/-- After operations, contents hold what they held and what the operations make. -/
theorem holds_carryOut {ops : List Operation} (h : carryOut c ops = .ok c') {s : Subject} :
    c'.Holds s ↔ c.Holds s ∨ s ∈ made ops := by
  induction ops generalizing c with
  | nil =>
    cases h
    simp only [made, List.filterMap_nil, List.not_mem_nil, or_false]
  | cons op rest ih =>
    rw [carryOut] at h
    split at h
    · next c₁ change happly =>
      rw [ih h, holds_of_fits (fits_of_apply happly), mem_made, mem_made]
      simp only [List.mem_cons, exists_eq_or_imp, or_assoc]
    · cases h

theorem made?_of_fresh_cons {rest : List Operation} (h : Fresh c (op :: rest)) :
    ∀ s, op.made? = some s → ¬ c.Holds s :=
  fun s hs => h.2 s (mem_made.mpr ⟨op, List.mem_cons_self, hs⟩)

/-- Operations that are fresh stay so when the first of them is applied. -/
theorem fresh_of_fits {rest : List Operation} (hfresh : Fresh c (op :: rest))
    (h : Fits c op c' change) : Fresh c' rest := by
  obtain ⟨hnodup, hnew⟩ := hfresh
  have hcons : made (op :: rest) = op.made?.toList ++ made rest := by
    unfold made
    cases hop : op.made? <;> simp only [List.filterMap_cons, hop, Option.toList, List.nil_append,
      List.singleton_append]
  rw [hcons, List.nodup_append] at hnodup
  refine ⟨hnodup.2.1, fun s hs hheld => ?_⟩
  rcases (holds_of_fits h).mp hheld with hbefore | hmade
  · exact hnew s (by rw [hcons]; exact List.mem_append_right _ hs) hbefore
  · exact hnodup.2.2 s (by rw [hmade]; exact List.mem_singleton_self s) s hs rfl

/-! ## All or nothing -/

/-- **The invariant of applying a list**: if reverting those done leads back to `start`, then the
list ends where carrying it out does, or back at `start`. -/
theorem applyEach_spec {start : Contents} {done ops : List Operation} {changes : List Change}
    (hfresh : Fresh c ops) (hback : (revertEach c done).1 = start) :
    (∀ c', carryOut c ops = .ok c' →
      ∃ told, applyEach c done changes ops = ⟨c', .ok told⟩) ∧
    (∀ why, carryOut c ops = .error why →
      applyEach c done changes ops = ⟨start, .error why⟩) := by
  induction ops generalizing c done changes with
  | nil =>
    refine ⟨fun c' h => ?_, fun why h => ?_⟩
    · cases h
      exact ⟨changes.reverse, rfl⟩
    · cases h
  | cons op rest ih =>
    rw [applyEach, carryOut]
    cases happly : op.apply c with
    | error why =>
      refine ⟨fun c' h => ?_, fun why' h => ?_⟩
      · cases h
      · cases h
        show Applied.mk (revertEach c done).1 _ = _
        rw [hback]
    | ok result =>
      obtain ⟨c₁, change⟩ := result
      have hfits : Fits c op c₁ change := fits_of_apply happly
      -- the operation is the first to be reverted, and then those done before it
      refine ih (fresh_of_fits hfresh hfits) ?_
      show (revertEach (op.revert c₁).1 done).1 = start
      rw [revert_of_fits hfits (made?_of_fresh_cons hfresh), hback]

/-- A list that fits is applied as a whole. -/
theorem applyAll_carryOut {ops : List Operation} (hfresh : Fresh c ops)
    (h : carryOut c ops = .ok c') : ∃ told, applyAll c ops = ⟨c', .ok told⟩ :=
  (applyEach_spec hfresh rfl).1 c' h

/-- **A list that is refused leaves the contents as they were**, at whichever operation. -/
theorem applyAll_refused {ops : List Operation} {why : Refusal} (hfresh : Fresh c ops)
    (h : carryOut c ops = .error why) : applyAll c ops = ⟨c, .error why⟩ :=
  (applyEach_spec hfresh rfl).2 why h

theorem revertEach_append (c : Contents) (xs ys : List Operation) :
    (revertEach c (xs ++ ys)).1 = (revertEach (revertEach c xs).1 ys).1 := by
  induction xs generalizing c with
  | nil => rfl
  | cons op rest ih => exact ih (op.revert c).1

/-- **A list that was carried out is reverted to where it started.** -/
theorem revertAll_carryOut {ops : List Operation} (hfresh : Fresh c ops)
    (h : carryOut c ops = .ok c') : (revertAll c' ops).1 = c := by
  induction ops generalizing c with
  | nil =>
    cases h
    rfl
  | cons op rest ih =>
    rw [carryOut] at h
    split at h
    · next c₁ change happly =>
      have hfits : Fits c op c₁ change := fits_of_apply happly
      have hrest : (revertEach c' rest.reverse).1 = c₁ := ih (fresh_of_fits hfresh hfits) h
      rw [revertAll, List.reverse_cons, revertEach_append, hrest]
      exact revert_of_fits hfits (made?_of_fresh_cons hfresh)
    · cases h

end RegionAtlas.Operation
