/-
  Numbering — a number is handed out once, and a record is put only where there was none.

  Numbers come from two counters that all transactions of a trace share.  A step takes a number
  exactly if it moves a counter (`Counters.taken`), whatever becomes of the edit that asked for it
  and of the transaction it was asked in.  Why no number ever comes back:

  1. **A step moves the counters by one number at most** (`Trace.moves_step`), upwards, and never
     past the reserved number.

  2. **What is taken is above whatever was covered** (`Counters.Moves.above`), and covered from then
     on.  The numbers in the contents that a trace starts from are covered at the start, so along a
     run numbers ascend from there (`Trace.takes_above`, `Trace.takes_ascend`).

  3. **Operations insert where nothing is** (`Operation.insertsFree_of_fresh`): commits because open
     transactions stay apart from all contents, redos because the commands of the future lead on
     from the contents in force, and both although redo puts old numbers back.

  At the end of the numbers a counter stands at the reserved one for good, and an edit that needs a
  number is refused for that cause as soon as nothing else is wrong with it (`edit_of_exhausted`).
-/
import RegionAtlas.Proofs.Course
import RegionAtlas.Proofs.Sides

namespace RegionAtlas

open Change (Subject)

/-! ## Numbers that are taken -/

/-- Two regions, or two mappings. -/
def Change.Subject.Alike : Subject → Subject → Prop
  | .region _, .region _ | .mapping _, .mapping _ => True
  | _, _ => False

/-- What an edit says that it staged, if it is something with a number. -/
def Staged.number? : Staged → Option Subject
  | region id => some (.region id)
  | destroyed => none
  | mapping id => some (.mapping id)

namespace Counters

/-- What counters have handed out on the way to others: the numbers that they stood at, where they
have moved. -/
def taken (k k' : Counters) : List Subject :=
  (if k'.region = k.region then [] else [.region ⟨k.region⟩]) ++
    if k'.mapping = k.mapping then [] else [.mapping ⟨k.mapping⟩]

/-- **What can become of counters at once**: they stay, or one number is taken. -/
inductive Moves (k : Counters) : Counters → Prop where
  | stay : Moves k k
  | region {id : RegionId} {k' : Counters} (taken : k.takeRegion? = some (id, k')) : Moves k k'
  | mapping {id : MappingId} {k' : Counters} (taken : k.takeMapping? = some (id, k')) : Moves k k'

theorem taken_self (k : Counters) : k.taken k = [] := by
  rw [taken, if_pos rfl, if_pos rfl]
  rfl

theorem taken_of_takeRegion? {k k' : Counters} {id : RegionId}
    (h : k.takeRegion? = some (id, k')) : k.taken k' = [.region id] := by
  unfold takeRegion? at h
  split at h
  · cases h
  · next hfree =>
    cases h
    have hmoved : ¬ k.region + 1 = k.region := fun heq =>
      UInt64.lt_irrefl k.region (by simpa only [heq] using lt_succ hfree)
    rw [taken, if_neg hmoved, if_pos rfl]
    rfl

theorem taken_of_takeMapping? {k k' : Counters} {id : MappingId}
    (h : k.takeMapping? = some (id, k')) : k.taken k' = [.mapping id] := by
  unfold takeMapping? at h
  split at h
  · cases h
  · next hfree =>
    cases h
    have hmoved : ¬ k.mapping + 1 = k.mapping := fun heq =>
      UInt64.lt_irrefl k.mapping (by simpa only [heq] using lt_succ hfree)
    rw [taken, if_pos rfl, if_neg hmoved]
    rfl

/-- A number that is not covered is above every number of its kind that is. -/
theorem lt_of_not_covers {k : Counters} {x y : Subject} (hx : k.Covers x) (hy : ¬ k.Covers y)
    (halike : x.Alike y) : x.raw < y.raw := by
  cases x with
  | region i =>
    cases y with
    | mapping j => cases halike
    | region j =>
      obtain ⟨hfree, hge⟩ := not_or.mp hy
      exact UInt64.lt_of_lt_of_le (hx.resolve_left hfree) (UInt64.not_lt.mp hge)
  | mapping i =>
    cases y with
    | region j => cases halike
    | mapping j =>
      obtain ⟨hfree, hge⟩ := not_or.mp hy
      exact UInt64.lt_of_lt_of_le (hx.resolve_left hfree) (UInt64.not_lt.mp hge)

namespace Moves

variable {k k' : Counters}

/-- Counters that move cover what they covered. -/
theorem covers (h : k.Moves k') {x : Subject} (hx : k.Covers x) : k'.Covers x := by
  cases h with
  | stay => exact hx
  | region htaken => exact (takeRegion?_spec htaken).2.2.2 x hx
  | mapping htaken => exact (takeMapping?_spec htaken).2.2.2 x hx

/-- **What is taken is not reserved, is above all that was covered, and is covered then.** -/
theorem above (h : k.Moves k') {y : Subject} (hy : y ∈ k.taken k') :
    y.raw ≠ reservedId ∧ k'.Covers y ∧ ∀ x, k.Covers x → x.Alike y → x.raw < y.raw := by
  cases h with
  | stay =>
    rw [taken_self] at hy
    cases hy
  | region htaken =>
    rw [taken_of_takeRegion? htaken] at hy
    obtain rfl := List.mem_singleton.mp hy
    obtain ⟨hfree, hnew, hcovered, -⟩ := takeRegion?_spec htaken
    exact ⟨hfree, hcovered, fun x hx halike => lt_of_not_covers hx hnew halike⟩
  | mapping htaken =>
    rw [taken_of_takeMapping? htaken] at hy
    obtain rfl := List.mem_singleton.mp hy
    obtain ⟨hfree, hnew, hcovered, -⟩ := takeMapping?_spec htaken
    exact ⟨hfree, hcovered, fun x hx halike => lt_of_not_covers hx hnew halike⟩

/-- No move takes two numbers. -/
theorem pairwise_taken (h : k.Moves k') (R : Subject → Subject → Prop) :
    (k.taken k').Pairwise R := by
  cases h with
  | stay =>
    rw [taken_self]
    exact .nil
  | region htaken =>
    rw [taken_of_takeRegion? htaken]
    exact List.pairwise_singleton R _
  | mapping htaken =>
    rw [taken_of_takeMapping? htaken]
    exact List.pairwise_singleton R _

end Moves

end Counters

/-! ## Edits and steps -/

/-- Whatever becomes of an edit, the counters have moved by one number at most. -/
theorem Transaction.moves_edit (tx : Transaction) (owner : TraceId) (c : Contents) (k : Counters)
    (e : Edit) : k.Moves (tx.edit owner c k e).counters := by
  cases e with
  | addRegion name lifespan range permissions =>
    simp only [edit, addRegion]
    split
    · exact .stay
    · split
      · exact .stay
      · next htaken => exact .region htaken
  | destroyRegion id stop =>
    simp only [edit, destroyRegion]
    split
    · exact .stay
    · split
      · split <;> exact .stay
      · exact .stay
  | addMapping range lifespan program place =>
    simp only [edit, addMapping]
    split
    · exact .stay
    · next htaken =>
      split
      · exact .mapping htaken
      · split <;> exact .mapping htaken

/-- An edit that succeeds has taken the number that it gives. -/
theorem Transaction.Stages.taken {tx tx' : Transaction} {owner : TraceId} {c : Contents}
    {k k' : Counters} {e : Edit} {what : Staged} (h : tx.Stages owner c k e k' tx' what) :
    k.taken k' = what.number?.toList := by
  cases h with
  | region _ _ htaken => exact Counters.taken_of_takeRegion? htaken
  | lifespan _ _ _ => exact k.taken_self
  | mapping htaken _ _ => exact Counters.taken_of_takeMapping? htaken

namespace Trace

variable {t : Trace} {s : Step}

/-- Nothing but an edit moves the counters. -/
theorem counters_step (hs : ∀ d e, s ≠ .edit d e) : (t.step s).1.counters = t.counters := by
  cases s with
  | edit d e => exact absurd rfl (hs d e)
  | commit d => exact t.counters_commit d
  | undo =>
    show t.undo.1.counters = t.counters
    unfold undo
    split <;> rfl
  | redo =>
    show t.redo.1.counters = t.counters
    unfold redo
    dsimp only
    split
    · rfl
    · split <;> rfl
  | _ => rfl

/-- **A step moves the counters by one number at most.** -/
theorem moves_step (t : Trace) (s : Step) : t.counters.Moves (t.step s).1.counters := by
  cases s with
  | edit d e =>
    show t.counters.Moves (t.edit d e).1.counters
    cases hd : t.draft? d with
    | none =>
      rw [edit, hd]
      exact .stay
    | some tx =>
      have hmoves := tx.moves_edit t.id t.contents t.counters e
      cases hresult : (tx.edit t.id t.contents t.counters e).result with
      | ok staged =>
        rw [edit_of_stages hd (Transaction.stages_of_edit hresult)]
        exact hmoves
      | error why =>
        rw [edit_of_refused hd hresult]
        exact hmoves
  | _ =>
    rw [counters_step fun _ _ => Step.noConfusion]
    exact .stay

/-- What a step takes is what it says it staged. -/
theorem taken_of_staged {what : Staged} (h : (t.step s).2 = .staged what) :
    t.counters.taken (t.step s).1.counters = what.number?.toList := by
  cases s with
  | edit d e =>
    have hedited : (t.edit d e).2 = .staged what := h
    show t.counters.taken (t.edit d e).1.counters = _
    cases hd : t.draft? d with
    | none =>
      rw [edit, hd] at hedited
      cases hedited
    | some tx =>
      rcases edit_cases hd e with ⟨tx', what', k, hstages, hedit⟩ | ⟨why, hedit⟩
      · rw [hedit] at hedited ⊢
        cases hedited
        exact hstages.taken
      · rw [hedit] at hedited
        cases hedited
  | _ => exact absurd h (not_staged (fun _ _ => Step.noConfusion) what)

/-! ## Runs -/

/-- The numbers that a run takes, in order. -/
def takes (t : Trace) : List Step → List Subject
  | [] => []
  | s :: rest => t.counters.taken (t.step s).1.counters ++ (t.step s).1.takes rest

/-- What a run takes is not reserved, and is above all that was covered before it. -/
theorem takes_above (t : Trace) (steps : List Step) {y : Subject} (hy : y ∈ t.takes steps) :
    y.raw ≠ reservedId ∧ ∀ x, t.counters.Covers x → x.Alike y → x.raw < y.raw := by
  induction steps generalizing t with
  | nil => cases hy
  | cons s rest ih =>
    have hmoves := t.moves_step s
    rcases List.mem_append.mp hy with hnow | hlater
    · obtain ⟨hfree, -, habove⟩ := hmoves.above hnow
      exact ⟨hfree, habove⟩
    · obtain ⟨hfree, habove⟩ := ih (t.step s).1 hlater
      exact ⟨hfree, fun x hx => habove x (hmoves.covers hx)⟩

/-- **Numbers ascend along a run.** -/
theorem takes_ascend (t : Trace) (steps : List Step) :
    (t.takes steps).Pairwise fun x y => x.Alike y → x.raw < y.raw := by
  induction steps generalizing t with
  | nil => exact .nil
  | cons s rest ih =>
    have hmoves := t.moves_step s
    refine List.pairwise_append.mpr ⟨hmoves.pairwise_taken _, ih (t.step s).1, ?_⟩
    intro x hx y hy halike
    -- what is taken now is covered when the rest of the run begins
    obtain ⟨-, hcovered, -⟩ := hmoves.above hx
    exact ((t.step s).1.takes_above rest hy).2 x hcovered halike

end Trace

/-! ## Inserting -/

/-- **Operations that put a record only where there is none**, each at its turn. -/
def Operation.InsertsFree (c : Contents) (ops : List Operation) : Prop :=
  ∀ before op after c' x, ops = before ++ op :: after → carryOut c before = .ok c' →
    op.made? = some x → ¬ c'.Holds x

theorem Operation.insertsFree_of_fresh {c : Contents} {ops : List Operation}
    (h : Fresh c ops) : InsertsFree c ops := by
  rintro before op after c' x rfl hcarried hop hheld
  have hmade : x ∈ made (op :: after) := mem_made.mpr ⟨op, List.mem_cons_self, hop⟩
  obtain ⟨honce, hnew⟩ := h
  rw [made_append] at honce hnew
  rcases (holds_carryOut hcarried).mp hheld with hbefore | htwice
  · exact hnew x (List.mem_append_right _ hmade) hbefore
  · exact (List.nodup_append.mp honce).2.2 x htwice x hmade rfl

/-- The command that is redone next is fresh for the contents in force. -/
theorem Tells.fresh_redo {c : Contents} {history : History} {T : Timeline}
    (h : Tells c history T) {command : Command} {rest : List Command}
    (hnext : history.undone = command :: rest) : Operation.Fresh c command.operations := by
  obtain ⟨past, future, -, -, -, hfuture⟩ := h.sides
  rw [hnext] at hfuture
  obtain ⟨e, future', -, hreal, -, hbefore⟩ := hfuture.exists_cons
  exact hbefore ▸ hreal.fresh

/-! ## The end of the numbers -/

/-- Counters with no number left of a kind. -/
def Counters.IsExhausted (k : Counters) : Numbered → Prop
  | .regions => k.region = reservedId
  | .mappings => k.mapping = reservedId

/-- What an edit needs a number for. -/
def Edit.needs? : Edit → Option Numbered
  | addRegion _ _ _ _ => some .regions
  | destroyRegion _ _ => none
  | addMapping _ _ _ _ => some .mappings

section Exhausted

variable {tx tx' : Transaction} {owner : TraceId} {c : Contents} {k k₁ k₂ : Counters} {e : Edit}
  {what : Staged}

/-- **An edit that nothing else is wrong with is refused for want of a number**, and takes none. -/
theorem Transaction.edit_of_exhausted {n : Numbered} (hneeds : e.needs? = some n)
    (hnone : k.IsExhausted n) (hvalid : tx.Stages owner c k₁ e k₂ tx' what) :
    tx.edit owner c k e = ⟨k, .error (.idsExhausted n)⟩ := by
  cases hvalid with
  | @region r _ howned hfree _ =>
    cases hneeds
    have htake : k.takeRegion? = none := if_pos hnone
    simp only [edit, addRegion, hfree, htake]
  | lifespan _ _ _ => cases hneeds
  | mapping _ _ _ =>
    cases hneeds
    have htake : k.takeMapping? = none := if_pos hnone
    simp only [edit, addMapping, htake]

/-- **One that is not short of numbers succeeds**, whatever counters it was found valid with. -/
theorem Transaction.exists_edit_of_room (hroom : ∀ n, e.needs? = some n → ¬ k.IsExhausted n)
    (hvalid : tx.Stages owner c k₁ e k₂ tx' what) :
    ∃ staged', (tx.edit owner c k e).result = .ok staged' := by
  cases hvalid with
  | @region r _ howned hfree _ =>
    have htake : k.takeRegion? = some (⟨k.region⟩, { k with region := k.region + 1 }) :=
      if_neg (hroom .regions rfl)
    simp only [edit, addRegion, hfree, htake, Except.ok.injEq, exists_eq']
  | lifespan hfound hlive hclosed =>
    simp only [edit, destroyRegion, hfound, hlive, hclosed, if_true, Except.ok.injEq, exists_eq']
  | @mapping m range lifespan program place _ _ hfits hfree =>
    have htake : k.takeMapping? = some (⟨k.mapping⟩, { k with mapping := k.mapping + 1 }) :=
      if_neg (hroom .mappings rfl)
    -- neither the fit of a mapping nor its conflicts depend on its number
    obtain ⟨side, hmin, hsize, hm⟩ := Mapping.fit_eq_ok.mp hfits
    have hfits' : Mapping.fit ⟨k.mapping⟩ range lifespan program place =
        .ok { m with id := ⟨k.mapping⟩ } := by
      refine Mapping.fit_eq_ok.mpr ⟨side, hmin, hsize, ?_⟩
      rw [hm]
    have hfree' : tx.mappingConflict? c { m with id := ⟨k.mapping⟩ } = none := hfree
    simp only [edit, addMapping, htake, hfits', hfree', Except.ok.injEq, exists_eq']

end Exhausted

/-! ## Every run -/

theorem Trace.takes_append (t : Trace) (xs ys : List Step) :
    t.takes (xs ++ ys) = t.takes xs ++ (t.run xs).takes ys := by
  induction xs generalizing t with
  | nil => rfl
  | cons s rest ih =>
    rw [List.cons_append, takes, takes, ih, List.append_assoc]
    rfl

/-- **A trace that uses every number once**, as far as a run of steps from its opening. -/
structure Trace.NumbersOnce (opened : Trace) (steps : List Step) : Prop where
  /-- What is taken is above everything of its kind that was taken before. -/
  ascend : (opened.takes steps).Pairwise fun x y => x.Alike y → x.raw < y.raw
  /-- And above everything of its kind that was there at the start. -/
  aboveStart : ∀ x y, opened.contents.Holds x → y ∈ opened.takes steps → x.Alike y → x.raw < y.raw
  unreserved : ∀ y ∈ opened.takes steps, y.raw ≠ reservedId
  /-- Whatever number the next step gives away is taken with it. -/
  given : ∀ s what, ((opened.run steps).step s).2 = .staged what →
    opened.takes (steps ++ [s]) = opened.takes steps ++ what.number?.toList
  /-- No commit inserts a record under a number that is in use. -/
  commits : ∀ d tx, (opened.run steps).draft? d = some tx →
    Operation.InsertsFree (opened.run steps).contents tx.operations
  /-- And no redo. -/
  redoes : ∀ command rest, (opened.run steps).history.undone = command :: rest →
    Operation.InsertsFree (opened.run steps).contents command.operations
  /-- An edit that some counters would let succeed is refused, and changes nothing at all, where the
  numbers that it needs have run out. -/
  exhausted : ∀ d tx e n k staged, (opened.run steps).draft? d = some tx →
    (tx.edit (opened.run steps).id (opened.run steps).contents k e).result = .ok staged →
    e.needs? = some n → (opened.run steps).counters.IsExhausted n →
    (opened.run steps).edit d e = (opened.run steps, .refused (.idsExhausted n))
  /-- Where they have not it succeeds. -/
  supplied : ∀ d tx e k staged, (opened.run steps).draft? d = some tx →
    (tx.edit (opened.run steps).id (opened.run steps).contents k e).result = .ok staged →
    (∀ n, e.needs? = some n → ¬ (opened.run steps).counters.IsExhausted n) →
    ∃ what, ((opened.run steps).edit d e).2 = .staged what

/-- **Numbers are never used again**, whatever contents a trace starts from and whatever its run. -/
theorem numbers_never_reused (id : TraceId) (name : String) (c : Contents) (limit : Nat)
    (steps : List Trace.Step) : (Trace.ofContents id name c limit).NumbersOnce steps := by
  obtain ⟨ht, ha⟩ := course_ofContents id name c limit steps
  refine {
    ascend := Trace.takes_ascend _ steps
    aboveStart := ?_
    unreserved := fun y hy => (Trace.takes_above _ steps hy).1
    given := ?_
    commits := fun d tx hd => Operation.insertsFree_of_fresh (ha.fresh ht hd)
    redoes := fun command rest hnext => Operation.insertsFree_of_fresh (ht.fresh_redo hnext)
    exhausted := ?_
    supplied := ?_ }
  · intro x y hx hy
    exact (Trace.takes_above _ steps hy).2 x (Counters.covers_above (Contents.holds_ownedBy.mp hx))
  · intro s what hstaged
    rw [Trace.takes_append, Trace.takes, Trace.taken_of_staged hstaged, Trace.takes,
      List.append_nil]
  · intro d tx e n k staged hd hvalid hneeds hnone
    have hedit := Transaction.edit_of_exhausted hneeds hnone (Transaction.stages_of_edit hvalid)
    rw [Trace.edit_of_refused hd (congrArg Transaction.Edited.result hedit),
      congrArg Transaction.Edited.counters hedit]
  · intro d tx e k staged hd hvalid hroom
    obtain ⟨⟨tx', what⟩, hresult⟩ :=
      Transaction.exists_edit_of_room hroom (Transaction.stages_of_edit hvalid)
    exact ⟨what, congrArg Prod.snd (Trace.edit_of_stages hd (Transaction.stages_of_edit hresult))⟩

/-- A region whose number is the third highest of all. -/
def lateRegion : Region :=
  ⟨⟨0xFFFFFFFFFFFFFFFC⟩, unownedId, "stack", ⟨0x28000, 0x28fff, by decide⟩, .readOnly, .since 0⟩

/-- The last two numbers of regions go to a transaction that is aborted and to one that is
committed, undone and redone; a mapping that does not fit uses up a number as well; then another
region is asked for. -/
def lastNumberSteps : List Trace.Step :=
  [.begin "lost", .begin "kept",
   .edit ⟨0⟩ (.createRegion "text" ⟨0x21000, 0x21fff, by decide⟩ 0 .readOnly), .abort ⟨0⟩,
   .edit ⟨1⟩ (.addMapping ⟨0x28000, 0x28fff, by decide⟩ (.since 0) "echo"
     ⟨"ram", 0xFFFFFFFFFFFFFFFF⟩),
   .edit ⟨1⟩ (.addMapping ⟨0x28000, 0x28fff, by decide⟩ (.since 0) "echo" ⟨"ram", 0⟩),
   .edit ⟨1⟩ (.createRegion "text" ⟨0x21000, 0x21fff, by decide⟩ 0 .readOnly), .commit ⟨1⟩,
   .undo, .redo, .begin "late"]

/-- The numbers that are taken, and how the edit ends that comes too late. -/
theorem lastNumbers_never_reused :
    let opened := Trace.ofContents ⟨1⟩ "echo" (Contents.empty.insertRegion lateRegion) 50
    let t := opened.run lastNumberSteps
    let late := Edit.createRegion "heap" ⟨0x23000, 0x23fff, by decide⟩ 0 .readOnly
    opened.takes lastNumberSteps =
        [.region ⟨0xFFFFFFFFFFFFFFFD⟩, .mapping ⟨0⟩, .mapping ⟨1⟩, .region ⟨0xFFFFFFFFFFFFFFFE⟩] ∧
      (opened.takes lastNumberSteps).Pairwise (fun x y => x.Alike y → x.raw < y.raw) ∧
      t.contents.regions.keys = [⟨0xFFFFFFFFFFFFFFFC⟩, ⟨0xFFFFFFFFFFFFFFFE⟩] ∧
      t.edit ⟨2⟩ late = (t, .refused (.idsExhausted .regions)) := by
  intro opened t late
  have h : opened.NumbersOnce lastNumberSteps :=
    numbers_never_reused ⟨1⟩ "echo" (Contents.empty.insertRegion lateRegion) 50 lastNumberSteps
  have hopen : t.draft? ⟨2⟩ = some (.start "late") := by decide +kernel
  have hnone : t.counters.region = reservedId := by decide +kernel
  have htaken : opened.takes lastNumberSteps =
      [.region ⟨0xFFFFFFFFFFFFFFFD⟩, .mapping ⟨0⟩, .mapping ⟨1⟩, .region ⟨0xFFFFFFFFFFFFFFFE⟩] := by
    decide +kernel
  have hkeys : t.contents.regions.keys = [⟨0xFFFFFFFFFFFFFFFC⟩, ⟨0xFFFFFFFFFFFFFFFE⟩] := by
    decide +kernel
  -- the edit would succeed if the counters stood at their start
  have hvalid : ((Transaction.start "late").edit t.id t.contents ⟨0, 0⟩ late).result.isOk := by
    decide +kernel
  cases hresult : ((Transaction.start "late").edit t.id t.contents ⟨0, 0⟩ late).result with
  | error why =>
    rw [hresult] at hvalid
    cases hvalid
  | ok staged =>
    exact ⟨htaken, h.ascend, hkeys,
      h.exhausted ⟨2⟩ _ late .regions ⟨0, 0⟩ _ hopen hresult rfl hnone⟩

end RegionAtlas
