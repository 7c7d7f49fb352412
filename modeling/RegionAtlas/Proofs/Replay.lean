/-
  Replay — a commit decides what a transaction begun at that moment would decide.

  Transactions are optimistic: each edit is checked when it is made, and the operations it staged
  are checked again when they are committed, against whatever was committed in between.  The point
  is that the second check is the first one made over again.  To say so, the journal of a
  transaction is replayed (`Trace.replay`): the same edits in the same order, in a fresh
  transaction, each handed the number it was given.

    1. an operation that fits what the fresh transaction sees is staged again by its edit
       (`stages_of_fits`);
    2. one that does not fit is refused to its edit as well (`refused_of_apply`), for the same
       reason but for one: what staging knows as destroyed already, committing knows as changed by
       somebody else (`Refusal.ReportedAs`).

  Both need that an open lifespan is known by its start, which is where the register of the run
  comes in: the lifespan an operation found and the one it finds now are forms of one region.
-/
import RegionAtlas.Proofs.Origin
import RegionAtlas.Proofs.Views

namespace RegionAtlas

/-! ## Replaying a journal -/

/-- Counters that hand out next what an edit was given. -/
def Counters.handing (k : Counters) : Staged → Counters
  | .region id => { k with region := id.raw }
  | .destroyed => k
  | .mapping id => { k with mapping := id.raw }

/-- Makes the edits of a journal again in an open transaction, each handed the number it was given,
up to the first that is not staged: what they staged, and that reply. -/
def Trace.replay (t : Trace) (d : DraftId) :
    List (Edit × Staged) → Trace × List Staged × Option Reply
  | [] => (t, [], none)
  | (e, what) :: rest =>
    match { t with counters := t.counters.handing what }.edit d e with
    | (t', .staged got) =>
      let (t'', staged, reply) := replay t' d rest
      (t'', got :: staged, reply)
    | (t', reply) => (t', [], some reply)

theorem Trace.replay_cons_staged {t t' : Trace} {d : DraftId} {e : Edit} {what : Staged}
    (h : { t with counters := t.counters.handing what }.edit d e = (t', .staged what))
    (rest : List (Edit × Staged)) :
    t.replay d ((e, what) :: rest) =
      ((t'.replay d rest).1, what :: (t'.replay d rest).2.1, (t'.replay d rest).2.2) := by
  rw [replay, h]

theorem Trace.replay_cons_refused {t t' : Trace} {d : DraftId} {e : Edit} {what : Staged}
    {why : Refusal}
    (h : { t with counters := t.counters.handing what }.edit d e = (t', .refused why))
    (rest : List (Edit × Staged)) :
    t.replay d ((e, what) :: rest) = (t', [], some (.refused why)) := by
  rw [replay, h]

/-- What a commit reports for what a replay is refused: the same kind of refusal, about the same
range or region, but for a region that was destroyed. -/
inductive Refusal.ReportedAs : Refusal → Refusal → Prop where
  | region (range : AddressRange) (id id' : RegionId) :
      ReportedAs (.overlap range (.region id)) (.overlap range (.region id'))
  | mapping (range : AddressRange) (id id' : MappingId) :
      ReportedAs (.overlap range (.mapping id)) (.overlap range (.mapping id'))
  | unknown (id : RegionId) : ReportedAs (.unknownRegion id) (.unknownRegion id)
  | destroyed (id : RegionId) : ReportedAs (.alreadyDestroyed id) (.concurrentModification id)

/-! ## One operation -/

section Single

variable {owner : TraceId} {R : Register owner} {tx : Transaction} {c c' : Contents}
  {k : Counters} {e : Edit} {what : Staged} {op : Operation}

theorem takeRegion?_handing {id : RegionId} (hfree : id.raw ≠ reservedId) :
    ∃ k', (k.handing (.region id)).takeRegion? = some (id, k') := by
  exact ⟨{ k with region := id.raw + 1 }, if_neg hfree⟩

theorem takeMapping?_handing {id : MappingId} (hfree : id.raw ≠ reservedId) :
    ∃ k', (k.handing (.mapping id)).takeMapping? = some (id, k') := by
  exact ⟨{ k with mapping := id.raw + 1 }, if_neg hfree⟩

/-- **What fits is staged again**, by the edit that it was recorded for, and takes the view
along. -/
theorem stages_of_fits {c'' : Contents} {change : Change} (hsees : tx.Sees c c')
    (hkeyed : c.Keyed) (hrecords : Records R (e, what) op)
    (hnew : ∀ s, op.made? = some s → ¬ c'.Holds s) (hfits : Operation.Fits c' op c'' change) :
    ∃ tx' k', tx.Stages owner c (k.handing what) e k' tx' what ∧
      tx'.operations = tx.operations ++ [op] ∧ tx'.Sees c c'' := by
  cases hfits with
  | @createRegion r hfree =>
    cases hrecords with
    | region hmade hid =>
      obtain ⟨k', htaken⟩ := takeRegion?_handing (k := k) hid
      have howned : r.owner = owner := by
        rw [← hmade]
        exact R.owner_made r.id
      exact ⟨_, k', .region howned ((hsees.regionConflict? hkeyed).mpr hfree) htaken, rfl,
        Transaction.sees_stageRegion hsees r⟩
  | @setLifespan id r new hfound =>
    cases hrecords with
    | lifespan hlive _ hclosed =>
      exact ⟨_, k, .lifespan ((hsees.regions id).trans hfound) hlive hclosed, rfl,
        Transaction.sees_stageLifespan hsees new hfound⟩
  | @createMapping m hfree =>
    cases hrecords with
    | mapping hfit hid =>
      obtain ⟨k', htaken⟩ := takeMapping?_handing (k := k) hid
      have hnone : c'.mapping? m.id = none := Contents.not_holds_mapping.mp (hnew _ rfl)
      exact ⟨_, k', .mapping htaken hfit (hsees.mappingConflict?.mpr hfree), rfl,
        Transaction.sees_stageMapping hsees hnone⟩

/-- **What does not fit is refused again**, and reported for what it is. -/
theorem refused_of_apply {why' : Refusal} (hsees : tx.Sees c c') (hkeyed : c.Keyed)
    (hstems : c'.StemsFrom R) (hrecords : Records R (e, what) op)
    (happly : op.apply c' = .error why') :
    ∃ why, (tx.edit owner c (k.handing what) e).result = .error why ∧ why.ReportedAs why' := by
  cases hrecords with
  | @region r _ _ =>
    simp only [Operation.apply] at happly
    split at happly
    · next existing hexisting =>
      cases happly
      cases hstaged : tx.regionConflict? c r.range r.lifespan with
      | none =>
        rw [(hsees.regionConflict? hkeyed).mp hstaged] at hexisting
        cases hexisting
      | some j =>
        refine ⟨.overlap r.range (.region j), ?_, .region _ _ _⟩
        simp only [Transaction.edit, Transaction.addRegion, hstaged]
    · cases happly
  | @lifespan id stop old new hlive hstart _ =>
    simp only [Operation.apply] at happly
    split at happly
    · next hnone =>
      cases happly
      refine ⟨.unknownRegion id, ?_, .unknown id⟩
      simp only [Transaction.edit, Transaction.destroyRegion, hsees.regions, hnone]
    · next r hfound =>
      split at happly
      · cases happly
      · next hchanged =>
        cases happly
        -- were it open still, it would be the lifespan that the operation found
        have hclosed : ¬ r.lifespan.isOpen = true := fun hopen =>
          hchanged (Lifespan.eq_of_isOpen hopen hlive ((hstems id r hfound).2.trans hstart.symm))
        refine ⟨.alreadyDestroyed id, ?_, .destroyed id⟩
        simp only [Transaction.edit, Transaction.destroyRegion, hsees.regions, hfound,
          if_neg hclosed]
  | @mapping m range lifespan program place hfit hid =>
    simp only [Operation.apply] at happly
    split at happly
    · next existing hexisting =>
      cases happly
      obtain ⟨k', htaken⟩ := takeMapping?_handing (k := k) hid
      cases hstaged : tx.mappingConflict? c m with
      | none =>
        rw [hsees.mappingConflict?.mp hstaged] at hexisting
        cases hexisting
      | some j =>
        refine ⟨.overlap range (.mapping j), ?_, ?_⟩
        · simp only [Transaction.edit, Transaction.addMapping, htaken, hfit, hstaged]
        · rw [(Transaction.fit_spec hfit).2]
          exact .mapping _ _ _
    · cases happly

end Single

/-! ## Whole journals -/

/-- **Replaying a journal is carrying out its operations**, as long as they fit and where they do
not. -/
theorem replay_spec {owner : TraceId} {R : Register owner} {log : List (Edit × Staged)}
    {ops : List Operation} (hlog : List.Forall₂ (Records R) log ops) {t : Trace} {d : DraftId}
    {tx : Transaction} {c' : Contents} (howner : t.id = owner) (hd : t.draft? d = some tx)
    (hkeyed : t.contents.Keyed) (hsees : tx.Sees t.contents c') (hstems : c'.StemsFrom R)
    (hfresh : Operation.Fresh c' ops) :
    (∀ c'', Operation.carryOut c' ops = .ok c'' →
      ∃ t' tx', t.replay d log = (t', log.map (·.2), none) ∧ t'.contents = t.contents ∧
        t'.draft? d = some tx' ∧ tx'.operations = tx.operations ++ ops) ∧
    (∀ why', Operation.carryOut c' ops = .error why' →
      ∃ t' staged why, t.replay d log = (t', staged, some (.refused why)) ∧
        why.ReportedAs why') := by
  induction hlog generalizing t tx c' with
  | nil =>
    refine ⟨fun c'' _ => ⟨t, tx, rfl, rfl, hd, (List.append_nil _).symm⟩, fun why' h => ?_⟩
    cases h
  | @cons p op log ops hrecords _ ih =>
    obtain ⟨e, what⟩ := p
    subst howner
    let t₀ : Trace := { t with counters := t.counters.handing what }
    have hd₀ : t₀.draft? d = some tx := hd
    rw [Operation.carryOut]
    cases happly : op.apply c' with
    | error why₀ =>
      obtain ⟨why, hrefused, hreported⟩ :=
        refused_of_apply (k := t.counters) hsees hkeyed hstems hrecords happly
      have hcons := Trace.replay_cons_refused (Trace.edit_of_refused hd₀ hrefused) log
      refine ⟨fun c'' h => ?_, fun why' h => ?_⟩
      · cases h
      · cases h
        exact ⟨_, [], why, hcons, hreported⟩
    | ok applied =>
      obtain ⟨c₁, change⟩ := applied
      have hfits : Operation.Fits c' op c₁ change := Operation.fits_of_apply happly
      obtain ⟨tx₁, k', hstages, hops, hsees₁⟩ := stages_of_fits (k := t.counters) hsees hkeyed
        hrecords (Operation.made?_of_fresh_cons hfresh) hfits
      let t₁ : Trace := { t₀ with counters := k', drafts := t₀.drafts.insert d tx₁ }
      have hedit : t₀.edit d e = (t₁, .staged what) := Trace.edit_of_stages hd₀ hstages
      have hd₁ : t₁.draft? d = some tx₁ := by
        show (t₀.drafts.insert d tx₁).find? d = some tx₁
        rw [Trace.find?_insert_draft, if_pos rfl]
      -- the fresh transaction sees now what the rest is to be carried out on
      have hcons := Trace.replay_cons_staged hedit log
      obtain ⟨hdone, hrefused⟩ := ih (t := t₁) rfl hd₁ hkeyed hsees₁
        (stemsFrom_of_fits hrecords hstems hfits) (Operation.fresh_of_fits hfresh hfits)
      refine ⟨fun c'' h => ?_, fun why' h => ?_⟩
      · obtain ⟨t', tx', hreplay, hcontents, hd', hops'⟩ := hdone c'' h
        rw [hreplay] at hcons
        refine ⟨t', tx', hcons, hcontents, hd', ?_⟩
        rw [hops', hops, List.append_assoc, List.singleton_append]
      · obtain ⟨t', staged, why, hreplay, hreported⟩ := hrefused why' h
        rw [hreplay] at hcons
        exact ⟨t', what :: staged, why, hcons, hreported⟩

/-! ## Commits -/

section Commits

variable {owner : TraceId} {R : Register owner} {log : DraftId → List (Edit × Staged)}
  {t : Trace} {T : Timeline} {d : DraftId} {tx : Transaction}

/-- **The cases of a commit**: the whole journal is replayed and both transactions lead to the same,
or the replay and the commit are refused together. -/
theorem commit_cases (hj : Journaled R log t T) (ha : Apart t T)
    (ht : Tells t.contents t.history T) (hd : t.draft? d = some tx) (description : String) :
    (∃ t', (t.begin description).1.replay ⟨t.nextDraft⟩ (log d) =
        (t', (log d).map (·.2), none) ∧
      (∃ told, (t.commit d).2 = .done told) ∧
      (t.commit d).1.contents = (t'.commit ⟨t.nextDraft⟩).1.contents ∧
      (t.commit d).2 = (t'.commit ⟨t.nextDraft⟩).2) ∨
    ∃ t' staged why why', (t.begin description).1.replay ⟨t.nextDraft⟩ (log d) =
        (t', staged, some (.refused why)) ∧
      (t.commit d).2 = .refused why' ∧ why.ReportedAs why' := by
  have hstems : t.contents.StemsFrom R := hj.regions _ ht.visits
  have hkeyed : t.contents.Keyed := fun _ _ hr => (hstems.id_owner hr).1
  have hfresh : Operation.Fresh t.contents tx.operations := ha.fresh ht hd
  have hopen : (t.begin description).1.draft? ⟨t.nextDraft⟩ = some (.start description) := by
    rw [Trace.draft?_begin, if_pos rfl]
  obtain ⟨hdone, hrefused⟩ := replay_spec (t := (t.begin description).1) (hj.written d tx hd)
    hj.owned hopen hkeyed (Transaction.sees_start description t.contents) hstems hfresh
  cases hcarried : Operation.carryOut t.contents tx.operations with
  | ok c =>
    obtain ⟨t', tx', hreplay, hcontents, hd', hops⟩ := hdone c hcarried
    obtain ⟨-, htold⟩ := Trace.commit_done hd hfresh hcarried
    -- both commit the same operations on the same contents
    have hsame : (t.abort d).contents = (t'.abort ⟨t.nextDraft⟩).contents := hcontents.symm
    have hcommit := Trace.commitOperations_congr hsame tx.description tx'.description tx.operations
    have hops' : tx'.operations = tx.operations := hops
    refine .inl ⟨t', hreplay, htold, ?_⟩
    rw [Trace.commit_of_open hd, Trace.commit_of_open hd', hops']
    exact hcommit
  | error why' =>
    obtain ⟨t', staged, why, hreplay, hreported⟩ := hrefused why' hcarried
    have hcommit := Trace.commit_refused hd hfresh hcarried
    exact .inr ⟨t', staged, why, why', hreplay, by rw [hcommit], hreported⟩

end Commits

/-- A transaction of a run, whose contents have stayed since it was begun, is undisturbed. -/
theorem undisturbed_since {c : Contents} (hc : c.Attained) (id : TraceId) (name : String)
    (limit : Nat) (before since : List Trace.Step) (opening : String)
    (hsame : ∀ p, p <+: since →
      ((Trace.ofContents id name c limit).run (before ++ .begin opening :: p)).contents =
        ((Trace.ofContents id name c limit).run before).contents) :
    ((Trace.ofContents id name c limit).run (before ++ .begin opening :: since)).Undisturbed
      ⟨((Trace.ofContents id name c limit).run before).nextDraft⟩ := by
  have hkeyed := keyed_of_attained (.copied id name limit before hc)
  obtain ⟨ht, ha⟩ := course_ofContents id name c limit (before ++ [.begin opening])
  rw [Trace.run_append] at ht ha ⊢
  refine undisturbed_run (undisturbed_begin _ opening) ha ht hkeyed fun p hp => ?_
  have hp' := hsame p hp
  rw [Trace.run_append] at hp'
  exact hp'

/-- **Transactions are serializable.**  A commit succeeds exactly if the journal of the transaction
can be replayed on the contents at that moment, and then it leads to what committing the replay
leads to; where the replay is refused, the commit reports that refusal.  A transaction whose
contents have not changed since it began is never refused. -/
theorem commits_serializable {c : Contents} (hc : c.Attained) (id : TraceId) (name : String)
    (limit : Nat) (steps : List Trace.Step) (d : DraftId) (tx : Transaction)
    (description : String) :
    let opened := Trace.ofContents id name c limit
    let t := opened.run steps
    let fresh := t.begin description
    let replayed := fresh.1.replay fresh.2 (opened.journal d steps)
    t.draft? d = some tx →
      ((∃ told, (t.commit d).2 = .done told) ↔ replayed.2.2 = none) ∧
      (replayed.2.2 = none →
        replayed.2.1 = (opened.journal d steps).map (·.2) ∧
        (t.commit d).1.contents = (replayed.1.commit fresh.2).1.contents ∧
        (t.commit d).2 = (replayed.1.commit fresh.2).2) ∧
      (∀ reply, replayed.2.2 = some reply →
        ∃ why why', reply = .refused why ∧ (t.commit d).2 = .refused why' ∧
          why.ReportedAs why') ∧
      (∀ before opening since, steps = before ++ .begin opening :: since →
        d = ⟨(opened.run before).nextDraft⟩ →
        (∀ p, p <+: since → (opened.run (before ++ .begin opening :: p)).contents =
          (opened.run before).contents) →
        ∃ told, (t.commit d).2 = .done told) := by
  intro opened t fresh replayed hd
  obtain ⟨ht, ha⟩ := course_ofContents id name c limit steps
  obtain ⟨R, hj⟩ := journaled_ofContents id name c limit (keyed_of_attained hc) steps
  have hlast : ∀ before opening since, steps = before ++ .begin opening :: since →
      d = ⟨(opened.run before).nextDraft⟩ →
      (∀ p, p <+: since → (opened.run (before ++ .begin opening :: p)).contents =
        (opened.run before).contents) →
      ∃ told, (t.commit d).2 = .done told := by
    intro before opening since hsteps hbegun hsame
    have hundisturbed : t.Undisturbed d := by
      rw [hbegun]
      subst hsteps
      exact undisturbed_since hc id name limit before since opening hsame
    obtain ⟨c', hcarried, -⟩ := hundisturbed tx hd
    exact (Trace.commit_done hd (ha.fresh ht hd) hcarried).2
  rcases commit_cases hj ha ht hd description with
    ⟨t', hreplay, htold, hcontents, hreply⟩ | ⟨t', staged, why, why', hreplay, hrefused, hreported⟩
  · have hreplayed : replayed = (t', (opened.journal d steps).map (·.2), none) := hreplay
    rw [hreplayed]
    refine ⟨⟨fun _ => rfl, fun _ => htold⟩, fun _ => ⟨rfl, hcontents, hreply⟩, ?_, hlast⟩
    intro reply h
    cases h
  · have hreplayed : replayed = (t', staged, some (.refused why)) := hreplay
    rw [hreplayed]
    refine ⟨⟨?_, ?_⟩, ?_, ?_, hlast⟩
    · rintro ⟨told, htold⟩
      rw [hrefused] at htold
      cases htold
    · intro h
      cases h
    · intro h
      cases h
    · intro reply h
      cases h
      exact ⟨why, why', rfl, hrefused, hreported⟩

/-- Two transactions destroy the same region; a third one makes a region and destroys it again. -/
def rivalSteps : List Trace.Step :=
  [.begin "map", .edit ⟨0⟩ (.createRegion "text" ⟨0x3000, 0x3fff, by decide⟩ 0 ⟨true, false, true⟩),
   .commit ⟨0⟩, .begin "unmap", .begin "replace", .begin "probe",
   .edit ⟨1⟩ (.destroyRegion ⟨0⟩ 10), .edit ⟨2⟩ (.destroyRegion ⟨0⟩ 20),
   .edit ⟨2⟩ (.createRegion "data" ⟨0x3800, 0x47ff, by decide⟩ 20 ⟨true, true, false⟩),
   .edit ⟨3⟩ (.createRegion "stack" ⟨0x8000, 0x8fff, by decide⟩ 5 ⟨true, true, false⟩),
   .edit ⟨3⟩ (.destroyRegion ⟨2⟩ 6), .commit ⟨1⟩]

/-- The slower of two rivals is refused, by the commit in words of its own. -/
theorem rivals_serializable :
    let opened := Trace.ofContents ⟨1⟩ "echo" .empty 50
    let t := opened.run rivalSteps
    let fresh := t.begin "again"
    let replayed := fresh.1.replay fresh.2 (opened.journal ⟨2⟩ rivalSteps)
    (t.draft? ⟨2⟩).isSome = true ∧
      replayed.2.2 = some (.refused (.alreadyDestroyed ⟨0⟩)) ∧
      (t.commit ⟨2⟩).2 = .refused (.concurrentModification ⟨0⟩) := by
  intro opened t fresh replayed
  have hopen : (t.draft? ⟨2⟩).isSome = true := by decide
  obtain ⟨tx, hd⟩ := Option.isSome_iff_exists.mp hopen
  obtain ⟨-, -, hreported, -⟩ :=
    commits_serializable .empty ⟨1⟩ "echo" 50 rivalSteps ⟨2⟩ tx "again" hd
  obtain ⟨why, why', hwhy, hcommit, has⟩ :=
    hreported (.refused (.alreadyDestroyed ⟨0⟩)) (by decide)
  obtain rfl := Trace.Reply.refused.inj hwhy
  cases has
  exact ⟨hopen, by decide, hcommit⟩

end RegionAtlas
