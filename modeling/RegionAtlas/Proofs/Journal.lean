/-
  Journals — the edits behind the operations, and what a region number stands for.

  A transaction keeps the operations it stages and not the edits that staged them.  To say what a
  commit means for the edits, a run keeps two records beside the trace:

    * the *journal* of each open transaction: its successful edits with what each was given, in
      order (`Trace.journal`);
    * a *register* of every region number: the region as it was made.  Whatever form a region is
      found in later — committed, undone and redone, or staged — differs from its entry in the stop
      of its lifespan alone (`Region.StemsFrom`).

  `Journaled` ties the two to the trace: operation by operation, the journal says what was staged
  (`Records`).  The register grows only at numbers that the counters did not cover, and everything
  that exists is covered, so no entry that anything refers to ever changes (`journaled_staged`).
-/
import Mathlib.Data.List.Forall2
import RegionAtlas.Proofs.Course
import RegionAtlas.Proofs.Extent

namespace RegionAtlas

open Change (Subject)

/-! ## Journals -/

namespace Trace

/-- What a step adds to the journal of a transaction: an edit that succeeds in it, and what the
edit was given. -/
def entry (t : Trace) (d : DraftId) (s : Step) : List (Edit × Staged) :=
  match s, (t.step s).2 with
  | .edit j e, .staged what => if j = d then [(e, what)] else []
  | _, _ => []

/-- The edits that succeed in a transaction during a run, in order. -/
def journal (t : Trace) (d : DraftId) : List Step → List (Edit × Staged)
  | [] => []
  | s :: rest => t.entry d s ++ (t.step s).1.journal d rest

theorem entry_of_silent {t : Trace} {s : Step} (h : ∀ what, (t.step s).2 ≠ .staged what)
    (d : DraftId) : t.entry d s = [] := by
  unfold entry
  split
  · next hreply => exact absurd hreply (h _)
  · rfl

theorem entry_of_staged {t : Trace} {j : DraftId} {e : Edit} {what : Staged}
    (h : (t.step (.edit j e)).2 = .staged what) (d : DraftId) :
    t.entry d (.edit j e) = if j = d then [(e, what)] else [] := by
  simp only [entry, h]

/-- No step changes which trace it is, nor what it is called. -/
theorem identity_step (t : Trace) (s : Step) :
    (t.step s).1.id = t.id ∧ (t.step s).1.name = t.name := by
  cases s with
  | edit d e =>
    show (t.edit d e).1.id = t.id ∧ (t.edit d e).1.name = t.name
    cases hd : t.draft? d with
    | none =>
      rw [edit, hd]
      exact ⟨rfl, rfl⟩
    | some tx =>
      rcases edit_cases hd e with ⟨tx', what, k, -, hedit⟩ | ⟨why, hedit⟩
      · rw [hedit]
        exact ⟨rfl, rfl⟩
      · rw [hedit]
        exact ⟨rfl, rfl⟩
  | commit d =>
    show (t.commit d).1.id = t.id ∧ (t.commit d).1.name = t.name
    cases hd : t.draft? d with
    | none =>
      rw [commit, hd]
      exact ⟨rfl, rfl⟩
    | some tx =>
      rw [commit_of_open hd, commitOperations]
      dsimp only
      split
      · exact ⟨rfl, rfl⟩
      · split <;> exact ⟨rfl, rfl⟩
  | undo =>
    show t.undo.1.id = t.id ∧ t.undo.1.name = t.name
    unfold undo
    split <;> exact ⟨rfl, rfl⟩
  | redo =>
    show t.redo.1.id = t.id ∧ t.redo.1.name = t.name
    unfold redo
    dsimp only
    split
    · exact ⟨rfl, rfl⟩
    · split <;> exact ⟨rfl, rfl⟩
  | _ => exact ⟨rfl, rfl⟩

theorem id_step (t : Trace) (s : Step) : (t.step s).1.id = t.id := (t.identity_step s).1

theorem name_step (t : Trace) (s : Step) : (t.step s).1.name = t.name := (t.identity_step s).2

end Trace

/-! ## Registers -/

/-- A region that is the form another was made in, or that form with its lifespan closed. -/
def Region.StemsFrom (r made : Region) : Prop :=
  r = made.withLifespan r.lifespan ∧ r.lifespan.start = made.lifespan.start

theorem Region.StemsFrom.refl (r : Region) : r.StemsFrom r := ⟨rfl, rfl⟩

theorem Region.StemsFrom.withLifespan {r made : Region} (h : r.StemsFrom made) {l : Lifespan}
    (hstart : l.start = r.lifespan.start) : (r.withLifespan l).StemsFrom made := by
  refine ⟨?_, hstart.trans h.2⟩
  rw [h.1]
  rfl

/-- The regions of a trace as they were made, by number. -/
structure Register (owner : TraceId) where
  made : RegionId → Region
  id_made : ∀ id, (made id).id = id
  owner_made : ∀ id, (made id).owner = owner

namespace Register

variable {owner : TraceId}

/-- Writes a region down under its number. -/
def enter (R : Register owner) (r : Region) (howner : r.owner = owner) : Register owner where
  made id := if r.id = id then r else R.made id
  id_made id := by
    split
    · next h => exact h
    · exact R.id_made id
  owner_made id := by
    split
    · exact howner
    · exact R.owner_made id

theorem made_enter_self (R : Register owner) {r : Region} (howner : r.owner = owner) :
    (R.enter r howner).made r.id = r := if_pos rfl

theorem made_enter_of_ne (R : Register owner) {r : Region} (howner : r.owner = owner)
    {id : RegionId} (hne : r.id ≠ id) : (R.enter r howner).made id = R.made id := if_neg hne

/-- A register that has the entries of another under every number that counters cover. -/
def Extends (R' R : Register owner) (k : Counters) : Prop :=
  ∀ id, k.Covers (.region id) → R'.made id = R.made id

theorem Extends.refl (R : Register owner) (k : Counters) : R.Extends R k := fun _ _ => rfl

theorem Extends.trans {R R₁ R₂ : Register owner} {k k₁ : Counters} (h₁ : R₁.Extends R k)
    (h₂ : R₂.Extends R₁ k₁) (hcovers : ∀ s, k.Covers s → k₁.Covers s) : R₂.Extends R k := by
  intro id hid
  rw [h₂ id (hcovers _ hid), h₁ id hid]

end Register

/-- Contents in which every region is stored under its own number. -/
def Contents.Keyed (c : Contents) : Prop := ∀ id r, c.region? id = some r → r.id = id

/-- Contents in which every region stems from its entry in a register. -/
def Contents.StemsFrom {owner : TraceId} (c : Contents) (R : Register owner) : Prop :=
  ∀ id r, c.region? id = some r → r.StemsFrom (R.made id)

/-- Regions that stem from a register are stored under their own numbers, and are its owner's. -/
theorem Contents.StemsFrom.id_owner {owner : TraceId} {R : Register owner} {c : Contents}
    (h : c.StemsFrom R) {id : RegionId} {r : Region} (hr : c.region? id = some r) :
    r.id = id ∧ r.owner = owner := by
  have hstems := h id r hr
  rw [hstems.1]
  exact ⟨R.id_made id, R.owner_made id⟩

/-- The register of contents that a trace starts from. -/
def Register.ofContents (c : Contents) (hkeyed : c.Keyed) (owner : TraceId) :
    Register owner where
  made id :=
    match c.region? id with
    | some r => r.ownedBy owner
    | none => ⟨id, owner, "", .single 0, .empty, .since 0⟩
  id_made id := by
    split
    · next r hr => exact hkeyed id r hr
    · rfl
  owner_made id := by split <;> rfl

theorem Contents.stemsFrom_ofContents (c : Contents) (hkeyed : c.Keyed) (owner : TraceId) :
    (c.ownedBy owner).StemsFrom (Register.ofContents c hkeyed owner) := by
  intro id r hr
  rw [Contents.region?_ownedBy] at hr
  obtain ⟨r₀, hr₀, rfl⟩ := Option.map_eq_some_iff.mp hr
  have hmade : (Register.ofContents c hkeyed owner).made id = r₀.ownedBy owner := by
    simp only [Register.ofContents, hr₀]
  rw [hmade]
  exact .refl _

/-! ## Edits and operations -/

/-- **What an edit stages**: the operation that stands for it, given what the edit was given. -/
inductive Records {owner : TraceId} (R : Register owner) : Edit × Staged → Operation → Prop where
  | region {r : Region} (made : R.made r.id = r) (free : r.id.raw ≠ reservedId) :
      Records R (.addRegion r.name r.lifespan r.range r.permissions, .region r.id)
        (.createRegion r)
  | lifespan {id : RegionId} {stop : Snap} {old new : Lifespan} (live : old.isOpen = true)
      (start : old.start = (R.made id).lifespan.start) (closed : old.closedAt? stop = some new) :
      Records R (.destroyRegion id stop, .destroyed) (.setLifespan id old new)
  | mapping {m : Mapping} {range : AddressRange} {lifespan : Lifespan} {program : String}
      {place : StaticAddress}
      (fits : Mapping.fit m.id range lifespan program place = .ok m)
      (free : m.id.raw ≠ reservedId) :
      Records R (.addMapping range lifespan program place, .mapping m.id) (.createMapping m)

section Recorded

variable {owner : TraceId} {R R' : Register owner} {log : List (Edit × Staged)}
  {ops : List Operation}

theorem exists_records_of_mem (h : List.Forall₂ (Records R) log ops) {op : Operation}
    (hop : op ∈ ops) : ∃ p ∈ log, Records R p op := by
  induction h with
  | nil => cases hop
  | @cons p op' _ _ hrecords _ ih =>
    rcases List.mem_cons.mp hop with rfl | hrest
    · exact ⟨p, List.mem_cons_self, hrecords⟩
    · obtain ⟨q, hq, hrec⟩ := ih hrest
      exact ⟨q, List.mem_cons_of_mem _ hq, hrec⟩

/-- What is recorded stays recorded in a register that has the same entry for it. -/
theorem Records.congr {p : Edit × Staged} {op : Operation} (h : Records R p op)
    (hsame : ∀ id, op.subject = .region id → R'.made id = R.made id) : Records R' p op := by
  cases h with
  | region hmade hfree => exact .region ((hsame _ rfl).trans hmade) hfree
  | lifespan hlive hstart hclosed =>
    refine .lifespan hlive ?_ hclosed
    rw [hsame _ rfl]
    exact hstart
  | mapping hfits hfree => exact .mapping hfits hfree

theorem forall₂_records_congr (h : List.Forall₂ (Records R) log ops)
    (hsame : ∀ op ∈ ops, ∀ id, op.subject = .region id → R'.made id = R.made id) :
    List.Forall₂ (Records R') log ops := by
  induction h with
  | nil => exact .nil
  | @cons p op _ _ hrecords _ ih =>
    exact .cons (hrecords.congr (hsame op List.mem_cons_self))
      (ih fun op' hop' => hsame op' (List.mem_cons_of_mem _ hop'))

/-- An operation that is recorded keeps every region stemming from the register. -/
theorem stemsFrom_of_fits {p : Edit × Staged} {op : Operation} {c c' : Contents} {change : Change}
    (hrecords : Records R p op) (h : c.StemsFrom R) (hfits : Operation.Fits c op c' change) :
    c'.StemsFrom R := by
  intro id r hr
  cases hfits with
  | @createRegion r₀ _ =>
    rw [Contents.region?_insertRegion] at hr
    split at hr
    · next hid =>
      cases hr
      cases hrecords with
      | region hmade _ =>
        rw [← hid, hmade]
        exact .refl _
    · exact h id r hr
  | @setLifespan j r₀ new hfound =>
    rw [Contents.region?_setLifespan] at hr
    split at hr
    · next hid =>
      subst hid
      rw [hfound] at hr
      cases hr
      cases hrecords with
      | lifespan _ _ hclosed =>
        exact (h j r₀ hfound).withLifespan (Lifespan.closedAt?_spec hclosed).1
    · exact h id r hr
  | createMapping _ => exact h id r hr

theorem stemsFrom_of_carryOut {c c' : Contents} (hlog : List.Forall₂ (Records R) log ops)
    (h : c.StemsFrom R) (hcarried : Operation.carryOut c ops = .ok c') : c'.StemsFrom R := by
  refine Operation.carryOut_induct (P := (·.StemsFrom R))
    (fun op hop c₁ c₂ change h₁ hfits => ?_) h hcarried
  obtain ⟨p, -, hrecords⟩ := exists_records_of_mem hlog hop
  exact stemsFrom_of_fits hrecords h₁ hfits

end Recorded

/-! ## The invariant -/

/-- **Journal and register tell what open transactions have staged**, and where every region that
exists anywhere comes from. -/
structure Journaled {owner : TraceId} (R : Register owner) (log : DraftId → List (Edit × Staged))
    (t : Trace) (T : Timeline) : Prop where
  owned : t.id = owner
  regions : ∀ c, T.Visits c → c.StemsFrom R
  /-- What a transaction shows of the regions it touched. -/
  shown : ∀ d tx, t.draft? d = some tx → ∀ id r, tx.regions.find? id = some r →
    r.StemsFrom (R.made id) ∧ t.counters.Covers (.region id)
  written : ∀ d tx, t.draft? d = some tx → List.Forall₂ (Records R) (log d) tx.operations
  covered : ∀ d tx, t.draft? d = some tx → ∀ op ∈ tx.operations, t.counters.Covers op.subject
  /-- Numbers of transactions that were never opened. -/
  unopened : ∀ d : DraftId, t.nextDraft ≤ d.raw → t.draft? d = none ∧ log d = []

theorem journaled_start (id : TraceId) (name : String) (c : Contents) (limit : Nat)
    (hkeyed : c.Keyed) :
    Journaled (Register.ofContents c hkeyed id) (fun _ => []) (.ofContents id name c limit)
      (.start (c.ownedBy id) limit) where
  owned := rfl
  regions c' hc' := by
    rcases hc' with rfl | ⟨e, he, -⟩
    · exact c.stemsFrom_ofContents hkeyed id
    · exact absurd he List.not_mem_nil
  shown _ _ hd := nomatch hd
  written _ _ hd := nomatch hd
  covered _ _ hd := nomatch hd
  unopened _ _ := ⟨rfl, rfl⟩

section Keeping

variable {owner : TraceId} {R : Register owner} {log : DraftId → List (Edit × Staged)}
  {t t' : Trace} {T T' : Timeline} {s : Trace.Step}

/-- A region that a transaction sees stems from its entry, and its number is covered. -/
theorem stemsFrom_of_region? (h : Journaled R log t T) (ha : Apart t T)
    (ht : Tells t.contents t.history T) {d : DraftId} {tx : Transaction}
    (hd : t.draft? d = some tx) {id : RegionId} {r : Region}
    (hr : tx.region? t.contents id = some r) :
    r.StemsFrom (R.made id) ∧ t.counters.Covers (.region id) := by
  unfold Transaction.region? at hr
  split at hr
  · next r' hfound =>
    cases hr
    exact h.shown d tx hd id r hfound
  · exact ⟨h.regions _ ht.visits id r hr, ha.heldCovered _ ht.visits _ ⟨r, hr⟩⟩

/-- **Staging an operation that is recorded** keeps journal and register, if the register still has
its entries for everything that exists. -/
theorem journaled_append {R' : Register owner} {d : DraftId} {e : Edit} {what : Staged}
    {tx tx' : Transaction} {op : Operation} {k : Counters} (h : Journaled R log t T)
    (ha : Apart t T) (hd : t.draft? d = some tx)
    (hsame : R'.Extends R t.counters)
    (hcovers : ∀ x, t.counters.Covers x → k.Covers x)
    (hops : tx'.operations = tx.operations ++ [op]) (hrecords : Records R' (e, what) op)
    (hop : k.Covers op.subject)
    (hshown : ∀ id r, tx'.regions.find? id = some r →
      r.StemsFrom (R'.made id) ∧ k.Covers (.region id))
    (hentry : ∀ j, t.entry j s = if d = j then [(e, what)] else []) :
    Journaled R' (fun j => log j ++ t.entry j s)
      { t with counters := k, drafts := t.drafts.insert d tx' } T where
  owned := h.owned
  regions c hc id r hr := by
    rw [hsame id (ha.heldCovered c hc _ ⟨r, hr⟩)]
    exact h.regions c hc id r hr
  shown j txj hj id r hr := by
    rcases Trace.draft?_staged hj with ⟨rfl, rfl⟩ | ⟨-, hold⟩
    · exact hshown id r hr
    · obtain ⟨hstems, hcovered⟩ := h.shown j txj hold id r hr
      rw [hsame id hcovered]
      exact ⟨hstems, hcovers _ hcovered⟩
  written j txj hj := by
    -- what operations refer to is covered, and the register keeps its entries for that
    have hkeep : ∀ txj, t.draft? j = some txj →
        List.Forall₂ (Records R') (log j) txj.operations := fun txj hj =>
      forall₂_records_congr (h.written j txj hj) fun op' hop' id hid =>
        hsame id (hid ▸ h.covered j txj hj op' hop')
    show List.Forall₂ (Records R') (log j ++ t.entry j s) txj.operations
    rw [hentry]
    rcases Trace.draft?_staged hj with ⟨rfl, rfl⟩ | ⟨hdj, hold⟩
    · rw [if_pos rfl, hops]
      exact List.rel_append (hkeep tx hd) (.cons hrecords .nil)
    · rw [if_neg hdj, List.append_nil]
      exact hkeep txj hold
  covered j txj hj op' hop' := by
    rcases Trace.draft?_staged hj with ⟨rfl, rfl⟩ | ⟨-, hold⟩
    · rw [hops] at hop'
      rcases List.mem_append.mp hop' with hbefore | hnew
      · exact hcovers _ (h.covered d tx hd op' hbefore)
      · obtain rfl := List.mem_singleton.mp hnew
        exact hop
    · exact hcovers _ (h.covered j txj hold op' hop')
  unopened j hj := by
    obtain ⟨hnone, hlog⟩ := h.unopened j hj
    have hdj : ¬ d = j := by
      rintro rfl
      rw [hd] at hnone
      cases hnone
    refine ⟨Option.eq_none_iff_forall_ne_some.mpr fun txj hj' => ?_, ?_⟩
    · rcases Trace.draft?_staged hj' with ⟨heq, -⟩ | ⟨-, hold⟩
      · exact hdj heq
      · rw [hnone] at hold
        cases hold
    · rw [hlog, hentry, if_neg hdj]
      rfl

/-- An edit that is staged is recorded; a new region is entered under a number that nothing had. -/
theorem journaled_staged {d : DraftId} {e : Edit} {what : Staged} {tx tx' : Transaction}
    {k : Counters} (h : Journaled R log t T) (ha : Apart t T)
    (ht : Tells t.contents t.history T) (hd : t.draft? d = some tx)
    (hstages : tx.Stages t.id t.contents t.counters e k tx' what)
    (hentry : ∀ j, t.entry j s = if d = j then [(e, what)] else []) :
    ∃ R' : Register owner, R'.Extends R t.counters ∧ Journaled R' (fun j => log j ++ t.entry j s)
      { t with counters := k, drafts := t.drafts.insert d tx' } T := by
  have hcovers : ∀ x, t.counters.Covers x → k.Covers x :=
    fun x hx => Transaction.covers_of_stages hstages hx
  cases hstages with
  | @region r _ howner _ htaken =>
    obtain ⟨hfree, hnew, hcovered, -⟩ := Counters.takeRegion?_spec htaken
    -- the number was free, so nothing that exists is entered under it
    have hne : ∀ id, t.counters.Covers (.region id) → r.id ≠ id := by
      rintro id hid rfl
      exact hnew hid
    have hr : r.owner = owner := howner.trans h.owned
    have hextends : (R.enter r hr).Extends R t.counters :=
      fun id hid => R.made_enter_of_ne hr (hne id hid)
    refine ⟨R.enter r hr, hextends, journaled_append h ha hd hextends hcovers rfl
      (.region (R.made_enter_self hr) hfree) hcovered (fun id r' hr' => ?_) hentry⟩
    rw [Transaction.find?_stageRegion] at hr'
    split at hr'
    · next hid =>
      cases hr'
      subst hid
      rw [R.made_enter_self hr]
      exact ⟨.refl _, hcovered⟩
    · obtain ⟨hstems, hold⟩ := h.shown d tx hd id r' hr'
      rw [R.made_enter_of_ne hr (hne id hold)]
      exact ⟨hstems, hcovers _ hold⟩
  | @lifespan id stop r new hfound hlive hclosed =>
    obtain ⟨hstems, hcovered⟩ := stemsFrom_of_region? h ha ht hd hfound
    refine ⟨R, .refl R _, journaled_append h ha hd (.refl R _) hcovers rfl
      (.lifespan hlive hstems.2 hclosed) hcovered (fun j r' hr' => ?_) hentry⟩
    rw [Transaction.find?_stageLifespan] at hr'
    split at hr'
    · next hid =>
      cases hr'
      subst hid
      exact ⟨hstems.withLifespan (Lifespan.closedAt?_spec hclosed).1, hcovered⟩
    · exact h.shown d tx hd j r' hr'
  | @mapping m _ _ _ _ _ htaken hfits _ =>
    obtain ⟨hfree, -, hcovered, -⟩ := Counters.takeMapping?_spec htaken
    refine ⟨R, .refl R _, journaled_append h ha hd (.refl R _) hcovers rfl (.mapping hfits hfree)
      hcovered (fun id r hr => ?_) hentry⟩
    obtain ⟨hstems, hold⟩ := h.shown d tx hd id r hr
    exact ⟨hstems, hcovers _ hold⟩

/-- A transaction that was just opened shows nothing and has an empty journal. -/
theorem journaled_begun (h : Journaled R log t T) (description : String) :
    Journaled R log (t.begin description).1 T := by
  have hkept : ∀ d tx, (t.begin description).1.draft? d = some tx →
      t.draft? d = some tx ∨ d = ⟨t.nextDraft⟩ ∧ tx = .start description := by
    intro d tx hd
    rw [Trace.draft?_begin] at hd
    split at hd
    · next hid =>
      cases hd
      exact .inr ⟨hid.symm, rfl⟩
    · exact .inl hd
  refine ⟨h.owned, h.regions, fun d tx hd id r hr => ?_, fun d tx hd => ?_,
    fun d tx hd op hop => ?_, fun d hd => ?_⟩
  · rcases hkept d tx hd with hold | ⟨-, rfl⟩
    · exact h.shown d tx hold id r hr
    · cases hr
  · rcases hkept d tx hd with hold | ⟨rfl, rfl⟩
    · exact h.written d tx hold
    · rw [(h.unopened ⟨t.nextDraft⟩ (Nat.le_refl _)).2]
      exact .nil
  · rcases hkept d tx hd with hold | ⟨-, rfl⟩
    · exact h.covered d tx hold op hop
    · cases hop
  · have hlt : t.nextDraft < d.raw := hd
    obtain ⟨hnone, hlog⟩ := h.unopened d (Nat.le_of_lt hlt)
    refine ⟨?_, hlog⟩
    rw [Trace.draft?_begin, if_neg, hnone]
    rintro rfl
    exact Nat.lt_irrefl _ hlt

/-- Dropping transactions and reachable contents keeps what is recorded of the others. -/
theorem journaled_quiet (h : Journaled R log t T) (hid : t'.id = t.id)
    (hkept : ∀ d tx, t'.draft? d = some tx → t.draft? d = some tx)
    (hnext : t'.nextDraft = t.nextDraft)
    (hcovers : ∀ x, t.counters.Covers x → t'.counters.Covers x)
    (hregions : ∀ c, T'.Visits c → c.StemsFrom R) : Journaled R log t' T' where
  owned := hid.trans h.owned
  regions := hregions
  shown d tx hd id r hr := by
    obtain ⟨hstems, hcovered⟩ := h.shown d tx (hkept d tx hd) id r hr
    exact ⟨hstems, hcovers _ hcovered⟩
  written d tx hd := h.written d tx (hkept d tx hd)
  covered d tx hd op hop := hcovers _ (h.covered d tx (hkept d tx hd) op hop)
  unopened d hd := by
    obtain ⟨hnone, hlog⟩ := h.unopened d (hnext ▸ hd)
    refine ⟨Option.eq_none_iff_forall_ne_some.mpr fun tx hd' => ?_, hlog⟩
    rw [hkept d tx hd'] at hnone
    cases hnone

/-- What counters cover stays covered at every step. -/
theorem covers_of_advance (hadvance : Advance t T s t' T') {x : Subject}
    (hx : t.counters.Covers x) : t'.counters.Covers x := by
  cases hadvance with
  | quiet _ _ hcovers _ _ => exact hcovers x hx
  | begun hopened _ _ =>
    subst hopened
    exact hx
  | staged _ _ hstages hmoved _ _ =>
    subst hmoved
    exact Transaction.covers_of_stages hstages hx
  | committed _ _ _ _ hcounters _ _ => exact hcounters.symm ▸ hx

/-- **Journal and register are kept at every step**, and the register has the entries that it had
for everything that existed before. -/
theorem journaled_step (h : Journaled R log t T) (ha : Apart t T)
    (ht : Tells t.contents t.history T) (hid : t'.id = t.id) (hadvance : Advance t T s t' T') :
    ∃ R' : Register owner, R'.Extends R t.counters ∧
      Journaled R' (fun d => log d ++ t.entry d s) t' T' := by
  -- only an edit that is staged adds to a journal
  have hquiet : (∀ what, (t.step s).2 ≠ .staged what) →
      (fun d => log d ++ t.entry d s) = log := by
    intro hsilent
    funext d
    rw [Trace.entry_of_silent hsilent, List.append_nil]
  cases hadvance with
  | quiet hkept hnext hcovers hreached hsilent =>
    rw [hquiet hsilent]
    exact ⟨R, .refl R _,
      journaled_quiet h hid hkept hnext hcovers fun c hc => h.regions c (hreached c hc)⟩
  | @begun description hopened hsame hsilent =>
    rw [hquiet hsilent]
    subst hopened hsame
    exact ⟨R, .refl R _, journaled_begun h description⟩
  | @staged d e tx tx' what k hasked hd hstages hmoved hsame hreply =>
    subst hasked hmoved hsame
    exact journaled_staged h ha ht hd hstages fun j => Trace.entry_of_staged hreply j
  | @committed d tx c hd hcarried hkept hnext hcounters hreached hsilent =>
    rw [hquiet hsilent]
    have hc : c.StemsFrom R :=
      stemsFrom_of_carryOut (h.written d tx hd) (h.regions _ ht.visits) hcarried
    refine ⟨R, .refl R _, journaled_quiet h hid (fun j txj hj => (hkept j txj hj).2) hnext
      (fun x hx => hcounters.symm ▸ hx) fun c' hc' => ?_⟩
    rcases hreached c' hc' with hold | rfl
    · exact h.regions c' hold
    · exact hc

end Keeping

/-! ## Runs -/

/-- **Journal and register are kept along every run**, for some register that has the entries of
the first for everything that existed at the start. -/
theorem journaled_run {owner : TraceId} {R : Register owner}
    {log : DraftId → List (Edit × Staged)} {t : Trace} {T : Timeline}
    (h : Journaled R log t T) (ha : Apart t T) (ht : Tells t.contents t.history T)
    (steps : List Trace.Step) :
    ∃ R' : Register owner, R'.Extends R t.counters ∧
      Journaled R' (fun d => log d ++ t.journal d steps) (t.run steps) (T.along t steps) := by
  induction steps generalizing R log t T with
  | nil =>
    refine ⟨R, .refl R _, ?_⟩
    simp only [Trace.journal, List.append_nil]
    exact h
  | cons s rest ih =>
    obtain ⟨ht', hadvance⟩ := course_step ht ha s
    obtain ⟨R₁, hextends₁, h₁⟩ := journaled_step h ha ht (t.id_step s) hadvance
    obtain ⟨R', hextends, h'⟩ := ih h₁ (apart_step ha ht hadvance) ht'
    refine ⟨R', hextends₁.trans hextends fun x hx => covers_of_advance hadvance hx, ?_⟩
    simp only [List.append_assoc] at h'
    exact h'

/-- Journal and register of a trace that starts from contents. -/
theorem journaled_ofContents (id : TraceId) (name : String) (c : Contents) (limit : Nat)
    (hkeyed : c.Keyed) (steps : List Trace.Step) :
    ∃ R : Register id, Journaled R (fun d => (Trace.ofContents id name c limit).journal d steps)
      ((Trace.ofContents id name c limit).run steps)
      ((Timeline.start (c.ownedBy id) limit).along (.ofContents id name c limit) steps) := by
  obtain ⟨R, -, hj⟩ := journaled_run (journaled_start id name c limit hkeyed)
    (apart_start id name c limit) (tells_start (c.ownedBy id) limit) steps
  exact ⟨R, hj⟩

/-- **A region is the same region at two moments of a run**: what is found later under the number
of a region differs from it in the stop of its lifespan alone. -/
theorem region_kept {c : Contents} (hkeyed : c.Keyed) (id : TraceId) (name : String) (limit : Nat)
    (before later : List Trace.Step) {rid : RegionId} {r r' : Region} :
    let t := (Trace.ofContents id name c limit).run before
    t.contents.region? rid = some r → (t.run later).contents.region? rid = some r' →
      r' = r.withLifespan r'.lifespan ∧ r'.lifespan.start = r.lifespan.start := by
  intro t hr hr'
  obtain ⟨ht, ha⟩ := course_ofContents id name c limit before
  obtain ⟨R, hj⟩ := journaled_ofContents id name c limit hkeyed before
  obtain ⟨R', hextends, hj'⟩ := journaled_run hj ha ht later
  obtain ⟨ht', -⟩ := course_run ht ha later
  have hstems : r.StemsFrom (R.made rid) := hj.regions _ ht.visits rid r hr
  have hstems' : r'.StemsFrom (R'.made rid) := hj'.regions _ ht'.visits rid r' hr'
  have hsame : R'.made rid = R.made rid := hextends rid (ha.heldCovered _ ht.visits _ ⟨r, hr⟩)
  rw [hsame] at hstems'
  refine ⟨?_, hstems'.2.trans hstems.2.symm⟩
  rw [hstems'.1, hstems.1]
  rfl

end RegionAtlas
