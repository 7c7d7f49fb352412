/-
  Life cycles — what can become of a region or a mapping from one moment of a run to the next.

  Each step stays where it is, passes a commit forth or passes one back (`Passes`), and a commit
  that is passed forth only adds records and closes lifespans (`Contents.Grows`).  Everything else
  is about which commit it is:

    1. what a commit makes was never there before, at any moment (`never_held`), since its number
       was free when it was staged.  So it has one creator, and comes and goes with it;

    2. what a commit closed stays closed for as long as the commit can be undone
       (`closed_of_undoable`).  So the undo that opens a region again takes back the commit that
       closed it last.

  Why is the second not plain?  The undo of a later commit goes back to a moment that may be long
  past, and the same lifespan can be closed, opened and closed again.  The crux is `Settled`: among
  the commits that are remembered, what an earlier one closed is closed already where a later one
  starts, whichever of them are in effect.
-/
import RegionAtlas.Proofs.Chronicle
import RegionAtlas.Proofs.Difference
import RegionAtlas.Proofs.Drafts
import RegionAtlas.Proofs.Origin

namespace RegionAtlas

open Change (Subject)

theorem Lifespan.exists_stop {l : Lifespan} (h : l.isOpen = false) :
    ∃ stop, l.stop = some stop := by
  rw [isOpen, Option.isNone_eq_false_iff] at h
  exact Option.isSome_iff_exists.mp h

/-! ## What a commit leads to -/

namespace Contents

variable {c c' c'' : Contents}

/-- Contents in which the closed regions of others are found unchanged. -/
def KeepsClosed (c c' : Contents) : Prop :=
  ∀ id r, c.region? id = some r → r.lifespan.isOpen = false → c'.region? id = some r

theorem KeepsClosed.refl (c : Contents) : c.KeepsClosed c := fun _ _ hr _ => hr

theorem KeepsClosed.trans (h : c.KeepsClosed c') (h' : c'.KeepsClosed c'') :
    c.KeepsClosed c'' :=
  fun id r hr hclosed => h' id r (h id r hr hclosed) hclosed

/-- **Contents that have grown**: nothing is missing, regions have at most been closed, and mappings
are the same. -/
structure Grows (c c' : Contents) : Prop where
  held : ∀ s, c.Holds s → c'.Holds s
  region : ∀ id r r', c.region? id = some r → c'.region? id = some r' →
    r' = r ∨ r.lifespan.isOpen = true ∧ r'.lifespan.isOpen = false
  mapping : ∀ id m m', c.mapping? id = some m → c'.mapping? id = some m' → m' = m

theorem Grows.refl (c : Contents) : c.Grows c where
  held _ hs := hs
  region _ _ _ hr hr' := .inl (Option.some.inj (hr'.symm.trans hr))
  mapping _ _ _ hm hm' := Option.some.inj (hm'.symm.trans hm)

theorem Grows.trans (h : c.Grows c') (h' : c'.Grows c'') : c.Grows c'' where
  held s hs := h'.held s (h.held s hs)
  region id r r'' hr hr'' := by
    obtain ⟨r', hr'⟩ := h.held (.region id) ⟨r, hr⟩
    rcases h.region id r r' hr hr' with rfl | ⟨hopen, hclosed⟩
    · exact h'.region id _ r'' hr' hr''
    · rcases h'.region id r' r'' hr' hr'' with rfl | ⟨-, hclosed'⟩
      · exact .inr ⟨hopen, hclosed⟩
      · exact .inr ⟨hopen, hclosed'⟩
  mapping id m m'' hm hm'' := by
    obtain ⟨m', hm'⟩ := h.held (.mapping id) ⟨m, hm⟩
    rw [h'.mapping id m' m'' hm' hm'', h.mapping id m m' hm hm']

theorem Grows.keepsClosed (h : c.Grows c') : c.KeepsClosed c' := by
  intro id r hr hclosed
  obtain ⟨r', hr'⟩ := h.held (.region id) ⟨r, hr⟩
  rcases h.region id r r' hr hr' with rfl | ⟨hopen, -⟩
  · exact hr'
  · rw [hopen] at hclosed
    cases hclosed

end Contents

namespace Operation

variable {c c' : Contents} {ops : List Operation}

/-- **Operations that are carried out make contents grow.** -/
theorem grows_carryOut (hcloses : ∀ op ∈ ops, op.Closes) (hfresh : Fresh c ops)
    (h : carryOut c ops = .ok c') : c.Grows c' where
  held _ hs := (holds_carryOut h).mpr (.inl hs)
  region id r r' hr hr' := by
    by_cases hid : Subject.region id ∈ ops.map subject
    · obtain ⟨hopen, r'', hr'', hclosed⟩ := lifespan_touched hcloses hfresh h hr hid
      rw [hr'] at hr''
      cases hr''
      exact .inr ⟨hopen, hclosed⟩
    · rw [region?_untouched h hid, hr] at hr'
      exact .inl (Option.some.inj hr').symm
  mapping id m m' hm hm' := by
    have hdiffer := differIn_carryOut hcloses hfresh h
    by_cases hid : Subject.mapping id ∈ (ops.map change).map Change.subject
    · exact absurd ⟨⟨m, hm⟩, ⟨m', hm'⟩⟩ (hdiffer.oneSided id hid)
    · rw [hdiffer.mappings id hid, hm] at hm'
      exact (Option.some.inj hm').symm

/-- A region whose lifespan is set is found closed in the end, wherever it came from. -/
theorem closed_carryOut {id : RegionId} {old new : Lifespan} (hcloses : ∀ op ∈ ops, op.Closes)
    (hfresh : Fresh c ops) (hset : setLifespan id old new ∈ ops) (h : carryOut c ops = .ok c') :
    ∃ r, c'.region? id = some r ∧ r.lifespan.isOpen = false := by
  induction ops generalizing c with
  | nil => cases hset
  | cons op rest ih =>
    rw [carryOut] at h
    split at h
    · next c₁ told happly =>
      have hfits : Fits c op c₁ told := fits_of_apply happly
      have hrest : ∀ op' ∈ rest, op'.Closes :=
        fun op' hop' => hcloses op' (List.mem_cons_of_mem _ hop')
      have hfresh₁ : Fresh c₁ rest := fresh_of_fits hfresh hfits
      rcases List.mem_cons.mp hset with rfl | hlater
      · cases hfits with
        | @setLifespan _ r _ hfound =>
          have hclosed : (r.withLifespan new).lifespan.isOpen = false :=
            (hcloses _ List.mem_cons_self).2
          have hr₁ : (c.setLifespan id new).region? id = some (r.withLifespan new) := by
            rw [Contents.region?_setLifespan, if_pos rfl, hfound]
            rfl
          exact ⟨_, region?_closed hrest hfresh₁ h hr₁ hclosed, hclosed⟩
      · exact ih hrest hfresh₁ hlater h
    · cases h

end Operation

namespace Chronicle

variable {x : Chronicle} {i j n : Nat} {s : Subject}

/-- What a commit carried out, and that it could. -/
theorem exists_of_commit (h : x.move i = .commit) :
    ∃ d tx, x.steps[i]? = some (.commit d) ∧ (x.moment i).draft? d = some tx ∧
      (∀ op ∈ tx.operations, op.Closes) ∧ Operation.Fresh (x.contents i) tx.operations ∧
      Operation.carryOut (x.contents i) tx.operations = .ok (x.contents (i + 1)) := by
  have hleads := x.leads i
  rw [h] at hleads
  cases hleads with
  | @commit d tx hasked hopen hcarried =>
    exact ⟨d, tx, hasked, hopen, Trace.drafts_ofContents Operation.closes_upheld x.id x.name x.start
      x.limit (x.steps.take i) d tx hopen, (x.apart i).fresh (x.told i) hopen, hcarried⟩

/-- A commit makes contents grow. -/
theorem grows_of_commit (h : x.move i = .commit) :
    (x.contents i).Grows (x.contents (i + 1)) := by
  obtain ⟨d, tx, -, -, hcloses, hfresh, hcarried⟩ := exists_of_commit h
  exact Operation.grows_carryOut hcloses hfresh hcarried

/-- **What a step does to contents**: nothing, or it passes a commit forth and they grow, or back
and they have been grown from. -/
inductive Passes (x : Chronicle) (i : Nat) : Prop where
  | stays (same : x.contents (i + 1) = x.contents i)
  | forth {n : Nat} (carries : x.Carries i n) (made : x.move n = .commit)
      (leaves : x.contents i = x.contents n) (reaches : x.contents (i + 1) = x.contents (n + 1))
      (grows : (x.contents i).Grows (x.contents (i + 1)))
  | back {n : Nat} (undoes : x.move i = .undo n) (made : x.move n = .commit)
      (leaves : x.contents i = x.contents (n + 1)) (reaches : x.contents (i + 1) = x.contents n)
      (grows : (x.contents (i + 1)).Grows (x.contents i))

theorem passes (x : Chronicle) (i : Nat) : x.Passes i := by
  have hleads := x.leads i
  cases hm : x.move i with
  | still =>
    rw [hm] at hleads
    cases hleads with
    | still hsame => exact .stays hsame
  | commit => exact .forth (.inl ⟨hm, rfl⟩) hm rfl rfl (grows_of_commit hm)
  | undo n =>
    rw [hm] at hleads
    cases hleads with
    | undo _ _ hmade hleaves hreaches =>
      refine .back hm hmade hleaves hreaches ?_
      rw [hleaves, hreaches]
      exact grows_of_commit hmade
  | redo n =>
    rw [hm] at hleads
    cases hleads with
    | redo _ _ hmade hleaves hreaches =>
      refine .forth (.inr hm) hmade hleaves hreaches ?_
      rw [hleaves, hreaches]
      exact grows_of_commit hmade
  | forget =>
    rw [hm] at hleads
    cases hleads with
    | forget hsame => exact .stays hsame

/-! ## Creators -/

/-- Whatever is there at a moment is covered by the counters from then on. -/
theorem covered (hji : j ≤ i) (h : (x.contents j).Holds s) : (x.moment i).counters.Covers s := by
  induction hji with
  | refl => exact (x.apart j).heldCovered _ (x.told j).visits s h
  | @step i _ ih =>
    cases hs : x.steps[i]? with
    | none =>
      rw [moment, take_succ_of_end hs]
      exact ih
    | some step => exact covers_of_advance (advance hs) ih

/-- **What an open transaction makes was never there**, at this moment or before. -/
theorem never_held {d : DraftId} {tx : Transaction} (hd : (x.moment i).draft? d = some tx)
    (hs : s ∈ Operation.made tx.operations) (hji : j ≤ i) : ¬ (x.contents j).Holds s := by
  induction i generalizing tx with
  | zero =>
    rw [Nat.le_zero.mp hji]
    exact (x.apart 0).unheld d tx hd s hs _ (x.told 0).visits
  | succ i ih =>
    rcases Nat.lt_or_eq_of_le hji with hlt | rfl
    · have hji' : j ≤ i := Nat.le_of_lt_succ hlt
      cases hstep : x.steps[i]? with
      | none =>
        rw [moment, take_succ_of_end hstep] at hd
        exact ih hd hs hji'
      | some step =>
        rw [moment_succ hstep] at hd
        rcases Trace.draft?_step hd with hold | ⟨_, rfl⟩ | ⟨tx₀, e, k, what, hold, hstages⟩
        · exact ih hold hs hji'
        · cases hs
        · rcases Transaction.mem_made_of_stages hstages hs with hbefore | ⟨hfree, -⟩
          · exact ih hold hbefore hji'
          · exact fun hheld => hfree (covered hji' hheld)
    · exact (x.apart (i + 1)).unheld d tx hd s hs _ (x.told (i + 1)).visits

/-- **A commit that makes a region or mapping**, by its date: it is there after the commit and never
was before. -/
structure Creates (x : Chronicle) (n : Nat) (s : Subject) : Prop where
  commit : x.move n = .commit
  never : ∀ k, k ≤ n → ¬ (x.contents k).Holds s
  holds : (x.contents (n + 1)).Holds s

/-- What a commit adds it makes. -/
theorem creates_of_commit (h : x.move n = .commit) (hbefore : ¬ (x.contents n).Holds s)
    (hafter : (x.contents (n + 1)).Holds s) : x.Creates n s := by
  obtain ⟨d, tx, -, hopen, -, -, hcarried⟩ := exists_of_commit h
  rcases (Operation.holds_carryOut hcarried).mp hafter with hheld | hmade
  · exact absurd hheld hbefore
  · exact ⟨h, fun k hk => never_held hopen hmade hk, hafter⟩

/-- Nothing is made by two commits. -/
theorem Creates.unique {m : Nat} (hn : x.Creates n s) (hm : x.Creates m s) : n = m := by
  rcases Nat.lt_trichotomy n m with hlt | heq | hlt
  · exact absurd hn.holds (hm.never (n + 1) hlt)
  · exact heq
  · exact absurd hm.holds (hn.never (m + 1) hlt)

/-- **What goes, goes with its creator**, when that is undone. -/
theorem vanishes (h : (x.contents i).Holds s) (hgone : ¬ (x.contents (i + 1)).Holds s) :
    ∃ n, x.move i = .undo n ∧ x.Creates n s := by
  cases x.passes i with
  | stays hsame => exact absurd (hsame ▸ h) hgone
  | forth _ _ _ _ hgrows => exact absurd (hgrows.held s h) hgone
  | @back n hundoes hmade hleaves hreaches _ =>
    rw [hleaves] at h
    rw [hreaches] at hgone
    exact ⟨n, hundoes, creates_of_commit hmade hgone h⟩

/-- **What comes, comes with its creator**, when that is made or redone. -/
theorem appears (h : ¬ (x.contents i).Holds s) (hthere : (x.contents (i + 1)).Holds s) :
    ∃ n, x.Carries i n ∧ x.Creates n s ∧ x.contents (i + 1) = x.contents (n + 1) := by
  cases x.passes i with
  | stays hsame => exact absurd (hsame ▸ hthere) h
  | @forth n hcarries hmade hleaves hreaches _ =>
    rw [hleaves] at h
    rw [hreaches] at hthere
    exact ⟨n, hcarries, creates_of_commit hmade h hthere, hreaches⟩
  | back _ _ _ _ hgrows => exact absurd (hgrows.held s hthere) h

/-! ## Closing and opening again -/

/-- **What was closed is settled**: it is so where any later commit starts, and at this moment too,
as long as the commit can be undone. -/
structure Settled (x : Chronicle) (i : Nat) : Prop where
  later : (x.dates i).made.Pairwise fun n m => (x.contents (n + 1)).KeepsClosed (x.contents m)
  now : ∀ n, x.Undoable n i → (x.contents (n + 1)).KeepsClosed (x.contents i)

/-- Of two commits that can be undone the one behind the other starts from what is settled. -/
theorem Settled.before {k m : Nat} (h : x.Settled i) (hn : n ∈ (x.dates i).made.take k)
    (hm : (x.dates i).made[k]? = some m) :
    (x.contents (n + 1)).KeepsClosed (x.contents m) := by
  have hpair := h.later
  rw [← List.take_append_drop k (x.dates i).made, List.pairwise_append] at hpair
  refine hpair.2.2 n hn m (List.mem_of_getElem? (i := 0) ?_)
  rw [List.getElem?_drop]
  exact hm

/-- A commit that is undone comes behind every one that can still be undone. -/
theorem Settled.behind {m : Nat} (h : x.Settled i) (hundo : x.move i = .undo m)
    (hn : x.Undoable n (i + 1)) : (x.contents (n + 1)).KeepsClosed (x.contents m) := by
  have hdoes := does (x.dated i)
  rw [Undoable, dates_succ] at hn
  rw [hundo] at hdoes hn
  cases hdoes with
  | @undo k _ _ _ hcursor hdate _ _ =>
    have htake : n ∈ (x.dates i).made.take ((x.dates i).cursor - 1) := hn
    rw [hcursor] at htake
    exact h.before htake hdate

/-- What is closed by a commit that can be undone after a step is closed after that step. -/
theorem settled_now (h : x.Settled i) (hn : x.Undoable n (i + 1)) :
    (x.contents (n + 1)).KeepsClosed (x.contents (i + 1)) := by
  rcases undoable_succ hn with hbefore | hcarries
  · cases x.passes i with
    | stays hsame =>
      rw [hsame]
      exact h.now n hbefore
    | forth _ _ _ _ hgrows => exact (h.now n hbefore).trans hgrows.keepsClosed
    | back hundoes _ _ hreaches _ =>
      rw [hreaches]
      exact h.behind hundoes hn
  · rw [hcarries.sides.2]
    exact .refl _

/-- What was closed stays settled at every step. -/
theorem settled_succ (h : x.Settled i) : x.Settled (i + 1) := by
  refine ⟨?_, fun n hn => settled_now h hn⟩
  rw [dates_succ]
  cases x.move i with
  | still => exact h.later
  | commit =>
    -- the new commit starts from this moment
    have hall : ((x.dates i).made.take (x.dates i).cursor ++ [i]).Pairwise
        fun n m => (x.contents (n + 1)).KeepsClosed (x.contents m) := by
      rw [List.pairwise_append]
      refine ⟨h.later.sublist (List.take_sublist _ _), List.pairwise_singleton _ _, ?_⟩
      intro n hn m hm
      rw [List.mem_singleton.mp hm]
      exact h.now n hn
    exact hall.sublist (List.drop_sublist _ _)
  | undo _ => exact h.later
  | redo _ => exact h.later
  | forget => exact .nil

theorem settled (x : Chronicle) (i : Nat) : x.Settled i := by
  induction i with
  | zero => exact ⟨.nil, fun n hn => absurd (List.mem_of_mem_take hn) List.not_mem_nil⟩
  | succ i ih => exact settled_succ ih

/-- **What a commit leaves closed stays as it is for as long as the commit can be undone.** -/
theorem closed_of_undoable (h : x.Undoable n i) {id : RegionId} {r : Region}
    (hr : (x.contents (n + 1)).region? id = some r) (hclosed : r.lifespan.isOpen = false) :
    (x.contents i).region? id = some r :=
  (x.settled i).now n h id r hr hclosed

/-- A region that is there at a moment, and open. -/
def OpenAt (x : Chronicle) (id : RegionId) (i : Nat) : Prop :=
  ∃ r, (x.contents i).region? id = some r ∧ r.lifespan.isOpen = true

/-- A region that is there at a moment, and closed. -/
def ClosedAt (x : Chronicle) (id : RegionId) (i : Nat) : Prop :=
  ∃ r, (x.contents i).region? id = some r ∧ r.lifespan.isOpen = false

/-- A region that a step closes, at a snap not before its start, by carrying out some commit. -/
structure Closes (x : Chronicle) (i : Nat) (r r' : Region) : Prop where
  wasOpen : r.lifespan.isOpen = true
  stops : ∃ stop, r'.lifespan.stop = some stop ∧ r.lifespan.start ≤ stop
  carries : ∃ n, x.Carries i n

/-- A region that a step opens again, by undoing a commit: the one that an earlier step carried out
to close the region, which stayed closed in between. -/
structure Reopens (x : Chronicle) (i : Nat) (id : RegionId) (r r' : Region) : Prop where
  wasClosed : r.lifespan.isOpen = false
  isOpen : r'.lifespan.isOpen = true
  undoes : ∃ n j, x.move i = .undo n ∧ j < i ∧ x.Carries j n ∧ x.OpenAt id j ∧
    ∀ k, j < k → k ≤ i → (x.contents k).region? id = some r

/-- **The undo that opens a region again is that of the commit that closed it.** -/
theorem reopens {id : RegionId} {r r' : Region} (hundo : x.move i = .undo n)
    (hr : (x.contents (n + 1)).region? id = some r)
    (hr' : (x.contents n).region? id = some r') (hclosed : r.lifespan.isOpen = false)
    (hopen : r'.lifespan.isOpen = true) : x.Reopens i id r r' := by
  obtain ⟨j, hj, hcarries, hsince⟩ := undoable_since (undoable_of_undo hundo)
  refine ⟨hclosed, hopen, n, j, hundo, hj, hcarries, ⟨r', ?_, hopen⟩, fun k hjk hki => ?_⟩
  · rw [hcarries.sides.1]
    exact hr'
  · exact closed_of_undoable (hsince k hjk hki) hr hclosed

/-- **A lifespan changes only where the region is closed or opened again.** -/
theorem lifespan_changes {id : RegionId} {r r' : Region}
    (hr : (x.contents i).region? id = some r) (hr' : (x.contents (i + 1)).region? id = some r')
    (hstart : r'.lifespan.start = r.lifespan.start) (hne : r'.lifespan ≠ r.lifespan) :
    x.Closes i r r' ∨ x.Reopens i id r r' := by
  cases x.passes i with
  | stays hsame =>
    rw [hsame, hr] at hr'
    exact absurd (congrArg Region.lifespan (Option.some.inj hr')).symm hne
  | @forth n hcarries _ _ _ hgrows =>
    rcases hgrows.region id r r' hr hr' with rfl | ⟨hopen, hclosed⟩
    · exact absurd rfl hne
    · obtain ⟨stop, hstop⟩ := Lifespan.exists_stop hclosed
      exact .inl ⟨hopen, ⟨stop, hstop, hstart ▸ r'.lifespan.start_le_stop stop hstop⟩,
        n, hcarries⟩
  | @back n hundoes _ hleaves hreaches hgrows =>
    rcases hgrows.region id r' r hr' hr with rfl | ⟨hopen, hclosed⟩
    · exact absurd rfl hne
    · rw [hleaves] at hr
      rw [hreaches] at hr'
      exact .inr (reopens hundoes hr hr' hclosed hopen)

/-! ## Rivals -/

theorem exists_operation_of_mem {owner : TraceId} {R : Register owner}
    {log : List (Edit × Staged)} {ops : List Operation} (h : List.Forall₂ (Records R) log ops)
    {p : Edit × Staged} (hp : p ∈ log) : ∃ op ∈ ops, Records R p op := by
  induction h with
  | nil => cases hp
  | cons hrecords _ ih =>
    rcases List.mem_cons.mp hp with rfl | hrest
    · exact ⟨_, List.mem_cons_self, hrecords⟩
    · obtain ⟨op, hop, hrec⟩ := ih hrest
      exact ⟨op, List.mem_cons_of_mem _ hop, hrec⟩

/-- A step that commits a transaction in which destroying a region was staged. -/
def Destroys (x : Chronicle) (i : Nat) (id : RegionId) : Prop :=
  x.move i = .commit ∧ ∃ d stop, x.steps[i]? = some (.commit d) ∧
    (Edit.destroyRegion id stop, Staged.destroyed) ∈ x.opened.journal d (x.steps.take i)

/-- **A region that is destroyed was not closed, and is closed then.** -/
theorem Destroys.closes (hkeyed : x.start.Keyed) {id : RegionId} (h : x.Destroys i id) :
    ¬ x.ClosedAt id i ∧ x.ClosedAt id (i + 1) := by
  obtain ⟨hmove, d, stop, hasked, hstaged⟩ := h
  obtain ⟨d', tx, hasked', hd, hcloses, hfresh, hcarried⟩ := exists_of_commit hmove
  rw [hasked] at hasked'
  cases hasked'
  obtain ⟨R, hj⟩ := journaled_ofContents x.id x.name x.start x.limit hkeyed (x.steps.take i)
  -- the operation that stands for the edit found the region open
  obtain ⟨op, hop, hrecords⟩ := exists_operation_of_mem (hj.written d tx hd) hstaged
  cases hrecords with
  | @lifespan _ _ old new _ _ _ =>
    refine ⟨?_, Operation.closed_carryOut hcloses hfresh hop hcarried⟩
    rintro ⟨r, hr, hclosed⟩
    obtain ⟨hopen, -⟩ := Operation.lifespan_touched hcloses hfresh hcarried hr
      (List.mem_map.mpr ⟨_, hop, rfl⟩)
    rw [hopen] at hclosed
    cases hclosed

/-! ## Every run -/

/-- **Regions and mappings whose lives follow the commits of a run**: what can be said of one that
is there at a moment, or at the next. -/
structure LifeCycle (x : Chronicle) : Prop where
  /-- Undoing a commit leads from what it left to what it found. -/
  undo : ∀ i n, x.move i = .undo n → x.steps[i]? = some .undo ∧ n < i ∧ x.move n = .commit ∧
    x.contents i = x.contents (n + 1) ∧ x.contents (i + 1) = x.contents n
  /-- Redoing it leads from what it found to what it left. -/
  redo : ∀ i n, x.move i = .redo n → x.steps[i]? = some .redo ∧ n < i ∧ x.move n = .commit ∧
    x.contents i = x.contents n ∧ x.contents (i + 1) = x.contents (n + 1)
  /-- A region stays what it is but for the stop of its lifespan. -/
  regions : ∀ i id r r', (x.contents i).region? id = some r →
    (x.contents (i + 1)).region? id = some r' →
    r.id = id ∧ r' = r.withLifespan r'.lifespan ∧ r'.lifespan.start = r.lifespan.start
  /-- Its lifespan changes in two ways. -/
  lifespans : ∀ i id r r', (x.contents i).region? id = some r →
    (x.contents (i + 1)).region? id = some r' → r'.lifespan ≠ r.lifespan →
    x.Closes i r r' ∨ x.Reopens i id r r'
  /-- Committing that a region is destroyed closes one that was not closed. -/
  destroyed : ∀ i id, x.Destroys i id → ¬ x.ClosedAt id i ∧ x.ClosedAt id (i + 1)
  /-- While it stays closed nobody else's destroying of it is committed. -/
  destroyedOnce : ∀ i j id, i < j → x.Destroys i id →
    (∀ k, i < k → k ≤ j → x.ClosedAt id k) → ¬ x.Destroys j id
  /-- A mapping stays what it is. -/
  mappings : ∀ i id m m', (x.contents i).mapping? id = some m →
    (x.contents (i + 1)).mapping? id = some m' → m' = m
  /-- What was not there comes with the commit that makes it, or when that is redone, and is what
  the commit left. -/
  appear : ∀ i s, ¬ (x.contents i).Holds s → (x.contents (i + 1)).Holds s →
    ∃ n, x.Carries i n ∧ x.Creates n s ∧ x.contents (i + 1) = x.contents (n + 1)
  /-- What was there before comes back only by redoing. -/
  reappear : ∀ k i s, k ≤ i → (x.contents k).Holds s → ¬ (x.contents i).Holds s →
    (x.contents (i + 1)).Holds s →
    ∃ n, x.move i = .redo n ∧ x.Creates n s ∧ x.contents (i + 1) = x.contents (n + 1)
  /-- What was there goes only by undoing the commit that made it. -/
  vanish : ∀ i s, (x.contents i).Holds s → ¬ (x.contents (i + 1)).Holds s →
    ∃ n, x.move i = .undo n ∧ x.Creates n s
  /-- There is only one such commit. -/
  creator : ∀ n m s, x.Creates n s → x.Creates m s → n = m

/-- A region that is there at two moments in a row is the same but for the stop of its lifespan. -/
theorem region_kept_succ (hkeyed : x.start.Keyed) {id : RegionId} {r r' : Region}
    (hr : (x.contents i).region? id = some r) (hr' : (x.contents (i + 1)).region? id = some r') :
    r' = r.withLifespan r'.lifespan ∧ r'.lifespan.start = r.lifespan.start := by
  refine region_kept hkeyed x.id x.name x.limit (x.steps.take i) x.steps[i]?.toList hr ?_
  rw [contents, moment, List.take_add_one, Trace.run_append] at hr'
  exact hr'

/-- A mapping that is there at two moments in a row is the same. -/
theorem mapping_kept_succ {id : MappingId} {m m' : Mapping}
    (hm : (x.contents i).mapping? id = some m) (hm' : (x.contents (i + 1)).mapping? id = some m') :
    m' = m := by
  cases x.passes i with
  | stays hsame =>
    rw [hsame, hm] at hm'
    exact (Option.some.inj hm').symm
  | forth _ _ _ _ hgrows => exact hgrows.mapping id m m' hm hm'
  | back _ _ _ _ hgrows => exact (hgrows.mapping id m' m hm' hm).symm

/-- Only the step that asks for it undoes a commit, and between which moments. -/
theorem sides_of_undo (h : x.move i = .undo n) :
    x.steps[i]? = some .undo ∧ n < i ∧ x.move n = .commit ∧
      x.contents i = x.contents (n + 1) ∧ x.contents (i + 1) = x.contents n := by
  have hleads := x.leads i
  rw [h] at hleads
  cases hleads with
  | undo hasked hearlier hmade hleaves hreaches =>
    exact ⟨hasked, hearlier, hmade, hleaves, hreaches⟩

/-- Only the step that asks for it redoes a commit, and between which moments. -/
theorem sides_of_redo (h : x.move i = .redo n) :
    x.steps[i]? = some .redo ∧ n < i ∧ x.move n = .commit ∧
      x.contents i = x.contents n ∧ x.contents (i + 1) = x.contents (n + 1) := by
  have hleads := x.leads i
  rw [h] at hleads
  cases hleads with
  | redo hasked hearlier hmade hleaves hreaches =>
    exact ⟨hasked, hearlier, hmade, hleaves, hreaches⟩

end Chronicle

/-- **The lives of regions and mappings follow the commits**, whatever contents a trace can start
from and whatever its run. -/
theorem lives_follow_commits (x : Chronicle) (hstart : x.start.Attained) : x.LifeCycle := by
  have hkeyed : x.start.Keyed := keyed_of_attained hstart
  refine {
    undo := fun i n h => Chronicle.sides_of_undo h
    redo := fun i n h => Chronicle.sides_of_redo h
    regions := ?_
    lifespans := ?_
    destroyed := fun i id h => h.closes hkeyed
    destroyedOnce := ?_
    mappings := fun i id m m' hm hm' => Chronicle.mapping_kept_succ hm hm'
    appear := fun i s h hthere => Chronicle.appears h hthere
    reappear := ?_
    vanish := fun i s h hgone => Chronicle.vanishes h hgone
    creator := fun n m s hn hm => hn.unique hm }
  · intro i id r r' hr hr'
    have hkeyed' : (x.contents i).Keyed :=
      keyed_of_attained (.copied x.id x.name x.limit (x.steps.take i) hstart)
    exact ⟨hkeyed' id r hr, Chronicle.region_kept_succ hkeyed hr hr'⟩
  · intro i id r r' hr hr' hne
    exact Chronicle.lifespan_changes hr hr' (Chronicle.region_kept_succ hkeyed hr hr').2 hne
  · intro i j id hij _ hclosed hagain
    exact (hagain.closes hkeyed).1 (hclosed j hij (Nat.le_refl j))
  · intro k i s hki hthen h hthere
    obtain ⟨n, hcarries, hcreates, hsame⟩ := Chronicle.appears h hthere
    rcases hcarries with ⟨-, rfl⟩ | hredo
    · exact absurd hthen (hcreates.never k hki)
    · exact ⟨n, hredo, hcreates, hsame⟩

/-- A region and a mapping are made together.  Three transactions stage that the region is
destroyed; the first is committed, the second refused, and after the first is undone the third is
committed.  Then all is undone and done again. -/
def demolitionSteps : List Trace.Step :=
  [.begin "map",
   .edit ⟨0⟩ (.createRegion "text" ⟨0x51000, 0x51fff, by decide⟩ 0 .readOnly),
   .edit ⟨0⟩ (.addMapping ⟨0x51000, 0x51fff, by decide⟩ (.since 0) "echo" ⟨"ram", 0⟩),
   .commit ⟨0⟩, .begin "first", .begin "second", .begin "third",
   .edit ⟨1⟩ (.destroyRegion ⟨0⟩ 2), .edit ⟨2⟩ (.destroyRegion ⟨0⟩ 3),
   .edit ⟨3⟩ (.destroyRegion ⟨0⟩ 4), .commit ⟨1⟩, .commit ⟨2⟩, .undo, .commit ⟨3⟩, .undo, .undo,
   .redo, .redo]

/-- What the steps do, where the region stops at each moment, and what follows for both records. -/
theorem demolition_follows_commits :
    let x : Chronicle := ⟨⟨1⟩, "echo", .empty, 50, demolitionSteps⟩
    x.start.Attained ∧ x.LifeCycle ∧
      (List.range 18).map x.move =
        [.still, .still, .still, .commit, .still, .still, .still, .still, .still, .still, .commit,
          .still, .undo 10, .commit, .undo 13, .undo 3, .redo 3, .redo 13] ∧
      ([3, 4, 10, 11, 12, 13, 14, 15, 16, 17, 18].map fun i =>
          ((x.contents i).region? ⟨0⟩).map (·.lifespan.stop)) =
        [none, some none, some none, some (some 2), some (some 2), some none, some (some 4),
          some none, none, some none, some (some 4)] ∧
      x.Creates 3 (.region ⟨0⟩) ∧ x.Creates 3 (.mapping ⟨0⟩) := by
  intro x
  have hstart : x.start.Attained := .empty
  have h : x.LifeCycle := lives_follow_commits x hstart
  have hmove : x.move 15 = .undo 3 := by decide +kernel
  -- both go with the step that undoes the first commit
  have hregion : (x.contents 15).Holds (.region ⟨0⟩) :=
    Option.isSome_iff_exists.mp (by decide +kernel)
  have hnoRegion : ¬ (x.contents 16).Holds (.region ⟨0⟩) :=
    Contents.not_holds_region.mpr (by decide +kernel)
  have hmapping : (x.contents 15).Holds (.mapping ⟨0⟩) :=
    Option.isSome_iff_exists.mp (by decide +kernel)
  have hnoMapping : ¬ (x.contents 16).Holds (.mapping ⟨0⟩) :=
    Contents.not_holds_mapping.mpr (by decide +kernel)
  refine ⟨hstart, h, by decide +kernel, by decide +kernel, ?_, ?_⟩
  · obtain ⟨n, hn, hcreates⟩ := h.vanish 15 _ hregion hnoRegion
    cases hmove.symm.trans hn
    exact hcreates
  · obtain ⟨n, hn, hcreates⟩ := h.vanish 15 _ hmapping hnoMapping
    cases hmove.symm.trans hn
    exact hcreates

end RegionAtlas
