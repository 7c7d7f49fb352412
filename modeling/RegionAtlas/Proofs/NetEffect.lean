/-
  Net effects — what a sequence of raw changes comes to, for each object that it is about.

  An effect says of its object whether it was there before and whether it is there after: what is
  `added` was not and is, what has `vanished` was not and is not.  Changes make sense one after the
  other if each begins with what is there when it happens (`Leads`).  Then

    1. **Merging composes** (`Effect.merge_spec`): the merged effect begins where the first begins
       and ends where the second ends;
    2. so the effects found so far tell of every object touched how it was at the start and how it
       is now (`Tallies`), and each of them is listed once (`nodup_effects`);
    3. and the net effect names exactly the objects touched that were there or are there, with the
       change that leads from the one to the other (`mem_net`).

  The only thing asked of the raw changes is that they make sense.  Read backwards they make sense
  again (`LeadsAll.reversed`), which is all that an undo needs.

  Whatever the raw changes, what is reported names objects in the order in which they first appeared
  (`pairwise_subject_net`).  So no object is named twice, and where none is there is nothing left to
  merge: the net effect of a net effect is itself (`net_of_nodup`).
-/
import Mathlib.Data.List.Basic
import Mathlib.Data.List.Induction
import Mathlib.Data.List.Nodup
import RegionAtlas.Ledger.Change

namespace RegionAtlas.Change

/-! ## Effects -/

namespace Effect

/-- Whether the object was there before. -/
def before : Effect → Bool
  | added | vanished => false
  | changed | removed => true

/-- Whether the object is there after. -/
def after : Effect → Bool
  | added | changed => true
  | removed | vanished => false

/-- **One effect after another** begins where the first begins and ends where the second ends.  No
single change makes an object vanish that was not there, so that case is left out. -/
theorem merge_spec {e f : Effect} (hf : f ≠ vanished) (hfits : f.before = e.after) :
    (e.merge f).before = e.before ∧ (e.merge f).after = f.after := by
  revert hf hfits
  cases e <;> cases f <;> decide

end Effect

theorem effect_ne_vanished (change : Change) : change.effect ≠ .vanished := by
  intro h
  cases change <;> cases h

/-! ## Changes that make sense -/

/-- Which objects there are. -/
abbrev Presence := Subject → Prop

/-- **A change leads from one presence to another**: its effect is what happens to its object, and
nothing happens to any other. -/
structure Leads (p : Presence) (change : Change) (p' : Presence) : Prop where
  before : p change.subject ↔ change.effect.before = true
  after : p' change.subject ↔ change.effect.after = true
  others : ∀ s, s ≠ change.subject → (p' s ↔ p s)

/-- Changes lead from one presence to another, one after the other. -/
inductive LeadsAll : Presence → List Change → Presence → Prop where
  | nil (p : Presence) : LeadsAll p [] p
  | cons {p p₁ p' : Presence} {change : Change} {rest : List Change} (first : Leads p change p₁)
      (later : LeadsAll p₁ rest p') : LeadsAll p (change :: rest) p'

theorem LeadsAll.append {p p₁ p' : Presence} {xs ys : List Change} (hx : LeadsAll p xs p₁)
    (hy : LeadsAll p₁ ys p') : LeadsAll p (xs ++ ys) p' := by
  induction hx with
  | nil p => exact hy
  | cons hfirst _ ih => exact .cons hfirst (ih hy)

/-- The change that takes a change back. -/
def reversed : Change → Change
  | regionAdded id => regionRemoved id
  | regionChanged id => regionChanged id
  | regionRemoved id => regionAdded id
  | mappingAdded id => mappingRemoved id
  | mappingRemoved id => mappingAdded id

theorem subject_reversed (change : Change) : change.reversed.subject = change.subject := by
  cases change <;> rfl

theorem Leads.reversed {p p' : Presence} {change : Change} (h : Leads p change p') :
    Leads p' change.reversed p where
  before := by
    rw [subject_reversed, h.after]
    cases change <;> exact Iff.rfl
  after := by
    rw [subject_reversed, h.before]
    cases change <;> exact Iff.rfl
  others s hs := by
    rw [subject_reversed] at hs
    exact (h.others s hs).symm

/-- **Changes that make sense do so backwards**, each taken back. -/
theorem LeadsAll.reversed {p p' : Presence} {raw : List Change} (h : LeadsAll p raw p') :
    LeadsAll p' (raw.map Change.reversed).reverse p := by
  induction h with
  | nil p => exact .nil p
  | cons hfirst _ ih =>
    rw [List.map_cons, List.reverse_cons]
    exact ih.append (.cons hfirst.reversed (.nil _))

/-- What there is after a change: its object as the change leaves it, every other as it was. -/
def Presence.after (p : Presence) (change : Change) : Presence := fun s =>
  if s = change.subject then change.effect.after = true else p s

/-- What there is after changes, one after the other. -/
def Presence.afterAll (p : Presence) (raw : List Change) : Presence := raw.foldl Presence.after p

/-- **Changes make sense** where each begins with what is there when it happens: only what is not
there is added, and only what is there is changed or removed. -/
def MakeSense : Presence → List Change → Prop
  | _, [] => True
  | p, change :: rest =>
    (p change.subject ↔ change.effect.before = true) ∧ MakeSense (p.after change) rest

instance (p : Presence) [DecidablePred p] (change : Change) : DecidablePred (p.after change) :=
  fun s => inferInstanceAs (Decidable (if s = change.subject then _ else _))

instance decidableMakeSense (p : Presence) [DecidablePred p] (raw : List Change) :
    Decidable (MakeSense p raw) :=
  match raw with
  | [] => inferInstanceAs (Decidable True)
  | change :: rest =>
    have := decidableMakeSense (p.after change) rest
    inferInstanceAs (Decidable ((p change.subject ↔ change.effect.before = true) ∧ _))

theorem leads_after {p : Presence} {change : Change}
    (h : p change.subject ↔ change.effect.before = true) : Leads p change (p.after change) where
  before := h
  after := by rw [Presence.after, if_pos rfl]
  others s hs := by rw [Presence.after, if_neg hs]

/-- Changes that make sense lead to what there is after them. -/
theorem leadsAll_of_makeSense {p : Presence} {raw : List Change} (h : MakeSense p raw) :
    LeadsAll p raw (p.afterAll raw) := by
  induction raw generalizing p with
  | nil => exact .nil p
  | cons change rest ih => exact .cons (leads_after h.1) (ih h.2)

/-! ## Merging an effect in -/

section Merging

variable {s t : Subject} {e g : Effect} {found : List (Subject × Effect)}

/-- The subjects stay as they are, with a new one behind them. -/
theorem map_fst_merge (s : Subject) (e : Effect) (found : List (Subject × Effect)) :
    (merge s e found).map (·.1) =
      if s ∈ found.map (·.1) then found.map (·.1) else found.map (·.1) ++ [s] := by
  induction found with
  | nil => rfl
  | cons row rest ih =>
    obtain ⟨t, f⟩ := row
    rw [merge]
    by_cases hts : t = s
    · subst hts
      rw [if_pos rfl, List.map_cons, List.map_cons, if_pos List.mem_cons_self]
    · have hmem : s ∈ ((t, f) :: rest).map (·.1) ↔ s ∈ rest.map (·.1) := by
        rw [List.map_cons, List.mem_cons]
        constructor
        · rintro (hst | hrest)
          · exact absurd hst.symm hts
          · exact hrest
        · exact .inr
      rw [if_neg hts, List.map_cons, ih]
      simp only [hmem]
      split <;> rfl

/-- An effect on a subject that is not listed is listed behind the others. -/
theorem merge_of_notMem (hnew : s ∉ found.map (·.1)) : merge s e found = found ++ [(s, e)] := by
  induction found with
  | nil => rfl
  | cons row rest ih =>
    rw [List.map_cons, List.mem_cons, not_or] at hnew
    rw [merge, if_neg fun heq => hnew.1 heq.symm, ih hnew.2]
    rfl

theorem nodup_merge (h : (found.map (·.1)).Nodup) : ((merge s e found).map (·.1)).Nodup := by
  rw [map_fst_merge]
  split
  · exact h
  · next hnew =>
    rw [List.nodup_append]
    refine ⟨h, List.nodup_singleton s, ?_⟩
    intro x hx y hy hxy
    rw [List.mem_singleton.mp hy] at hxy
    exact hnew (hxy ▸ hx)

/-- What is listed of other subjects stays as it is. -/
theorem mem_merge_of_ne (hne : t ≠ s) : (t, g) ∈ merge s e found ↔ (t, g) ∈ found := by
  induction found with
  | nil =>
    rw [merge, List.mem_singleton, Prod.mk.injEq]
    constructor
    · rintro ⟨hts, -⟩
      exact absurd hts hne
    · intro h
      cases h
  | cons row rest ih =>
    obtain ⟨u, f⟩ := row
    rw [merge]
    split
    · next hus =>
      have hother : ∀ f' : Effect, (t, g) ≠ (u, f') := by
        intro f' heq
        exact hne ((Prod.mk.inj heq).1.trans hus)
      rw [List.mem_cons, List.mem_cons]
      simp only [hother, false_or]
    · rw [List.mem_cons, List.mem_cons, ih]

/-- What is listed of the subject itself is the effect, merged behind what was listed of it. -/
theorem mem_merge_self (hdistinct : (found.map (·.1)).Nodup) (h : (s, g) ∈ merge s e found) :
    (∃ f, (s, f) ∈ found ∧ g = f.merge e) ∨ s ∉ found.map (·.1) ∧ g = e := by
  induction found with
  | nil =>
    rw [merge, List.mem_singleton, Prod.mk.injEq] at h
    exact .inr ⟨List.not_mem_nil, h.2⟩
  | cons row rest ih =>
    obtain ⟨u, f⟩ := row
    rw [List.map_cons, List.nodup_cons] at hdistinct
    rw [merge] at h
    split at h
    · next hus =>
      subst hus
      rcases List.mem_cons.mp h with hfirst | hrest
      · exact .inl ⟨f, List.mem_cons_self, (Prod.mk.inj hfirst).2⟩
      · -- distinct subjects: nothing more is listed of this one
        exact absurd (List.mem_map.mpr ⟨(u, g), hrest, rfl⟩) hdistinct.1
    · next hus =>
      rcases List.mem_cons.mp h with hfirst | hrest
      · exact absurd (Prod.mk.inj hfirst).1.symm hus
      · rcases ih hdistinct.2 hrest with ⟨f', hf', hg⟩ | ⟨hnew, hg⟩
        · exact .inl ⟨f', List.mem_cons_of_mem _ hf', hg⟩
        · refine .inr ⟨?_, hg⟩
          rw [List.map_cons, List.mem_cons]
          rintro (hsu | hrest')
          · exact hus hsu.symm
          · exact hnew hrest'

end Merging

/-! ## The effects of raw changes -/

/-- **Each subject is listed once.** -/
theorem nodup_effects (raw : List Change) : ((effects raw).map (·.1)).Nodup := by
  have hfold : ∀ found : List (Subject × Effect), (found.map (·.1)).Nodup →
      ((raw.foldl (fun found c => merge c.subject c.effect found) found).map (·.1)).Nodup := by
    induction raw with
    | nil => exact fun found h => h
    | cons change rest ih => exact fun found h => ih _ (nodup_merge h)
  exact hfold [] List.nodup_nil

/-- The subjects listed are those of the changes. -/
theorem mem_map_fst_effects {raw : List Change} {s : Subject} :
    s ∈ (effects raw).map (·.1) ↔ s ∈ raw.map subject := by
  have hmerge : ∀ (t : Subject) (e : Effect) (found : List (Subject × Effect)),
      s ∈ (merge t e found).map (·.1) ↔ s ∈ found.map (·.1) ∨ s = t := by
    intro t e found
    rw [map_fst_merge]
    split
    · next ht =>
      constructor
      · exact .inl
      · rintro (hs | rfl)
        · exact hs
        · exact ht
    · rw [List.mem_append, List.mem_singleton]
  have hfold : ∀ found : List (Subject × Effect),
      s ∈ (raw.foldl (fun found c => merge c.subject c.effect found) found).map (·.1) ↔
        s ∈ found.map (·.1) ∨ s ∈ raw.map subject := by
    induction raw with
    | nil =>
      intro found
      rw [List.map_nil, List.foldl_nil]
      simp only [List.not_mem_nil, or_false]
    | cons change rest ih =>
      intro found
      rw [List.foldl_cons, ih, hmerge, List.map_cons, List.mem_cons, or_assoc]
  have hnil := hfold []
  simp only [List.map_nil, List.not_mem_nil, false_or] at hnil
  exact hnil

/-- **What effects tell of two presences**: how every subject listed was in the first and is in the
second, and that every other is as it was. -/
structure Tallies (p : Presence) (found : List (Subject × Effect)) (p' : Presence) : Prop where
  told : ∀ s e, (s, e) ∈ found → (p s ↔ e.before = true) ∧ (p' s ↔ e.after = true)
  others : ∀ s, s ∉ found.map (·.1) → (p' s ↔ p s)

/-- The step: a change is merged in. -/
theorem Tallies.merge {p p₁ p' : Presence} {found : List (Subject × Effect)} {change : Change}
    (h : Tallies p found p₁) (hdistinct : (found.map (·.1)).Nodup) (hleads : Leads p₁ change p') :
    Tallies p (Change.merge change.subject change.effect found) p' where
  told s g hg := by
    by_cases hs : s = change.subject
    · subst hs
      rcases mem_merge_self hdistinct hg with ⟨f, hf, rfl⟩ | ⟨hnew, rfl⟩
      · obtain ⟨hbefore, hafter⟩ := h.told _ f hf
        -- the change begins with what the effect so far ends with
        have hfits : change.effect.before = f.after :=
          Bool.eq_iff_iff.mpr (hleads.before.symm.trans hafter)
        obtain ⟨hmb, hma⟩ := Effect.merge_spec change.effect_ne_vanished hfits
        rw [hmb, hma]
        exact ⟨hbefore, hleads.after⟩
      · exact ⟨(h.others _ hnew).symm.trans hleads.before, hleads.after⟩
    · obtain ⟨hbefore, hafter⟩ := h.told s g ((mem_merge_of_ne hs).mp hg)
      exact ⟨hbefore, (hleads.others s hs).trans hafter⟩
  others s hs := by
    have hsplit : s ∉ found.map (·.1) ∧ s ≠ change.subject := by
      rw [map_fst_merge] at hs
      split at hs
      · next hin => exact ⟨hs, fun heq => hs (heq ▸ hin)⟩
      · rw [List.mem_append, List.mem_singleton, not_or] at hs
        exact hs
    exact (hleads.others s hsplit.2).trans (h.others s hsplit.1)

/-- **The effects of changes that make sense** tell what they lead from and to. -/
theorem tallies_effects {p p' : Presence} {raw : List Change} (h : LeadsAll p raw p') :
    Tallies p (effects raw) p' := by
  have hfold : ∀ {p₁ p' : Presence} {raw : List Change} {found : List (Subject × Effect)},
      LeadsAll p₁ raw p' → Tallies p found p₁ → (found.map (·.1)).Nodup →
        Tallies p (raw.foldl (fun found c => Change.merge c.subject c.effect found) found) p' := by
    intro p₁ p' raw found hraw
    induction hraw generalizing found with
    | nil _ => exact fun ht _ => ht
    | cons hfirst _ ih =>
      intro ht hdistinct
      exact ih (ht.merge hdistinct hfirst) (nodup_merge hdistinct)
  have hstart : Tallies p [] p := by
    refine { told := ?_, others := ?_ }
    · intro s e hse
      cases hse
    · intro s _
      exact Iff.rfl
  exact hfold h hstart List.nodup_nil

/-! ## The net effect -/

/-- **What a change reports** of an object that was there or not, and is there or not.  A mapping
that was removed and added back is reported as added. -/
def Reports (change : Change) (was is : Prop) : Prop :=
  match change with
  | regionAdded _ => ¬ was ∧ is
  | regionChanged _ => was ∧ is
  | regionRemoved _ => was ∧ ¬ is
  | mappingAdded _ => is
  | mappingRemoved _ => was ∧ ¬ is

theorem Reports.congr {change : Change} {was is was' is' : Prop} (hwas : was ↔ was')
    (his : is ↔ is') : change.Reports was is ↔ change.Reports was' is' := by
  rw [propext hwas, propext his]

/-- Nothing is reported of what was not there and is not. -/
theorem Reports.there {change : Change} {was is : Prop} (h : change.Reports was is) : was ∨ is := by
  cases change with
  | regionAdded _ => exact .inr h.2
  | regionChanged _ => exact .inl h.1
  | regionRemoved _ => exact .inl h.1
  | mappingAdded _ => exact .inr h
  | mappingRemoved _ => exact .inl h.1

/-- What was there or is there is reported by some change. -/
theorem exists_reports (s : Subject) {was is : Prop} (h : was ∨ is) :
    ∃ change : Change, change.subject = s ∧ change.Reports was is := by
  by_cases his : is
  · cases s with
    | mapping id => exact ⟨.mappingAdded id, rfl, his⟩
    | region id =>
      by_cases hwas : was
      · exact ⟨.regionChanged id, rfl, hwas, his⟩
      · exact ⟨.regionAdded id, rfl, hwas, his⟩
  · have hwas : was := h.resolve_right his
    cases s with
    | mapping id => exact ⟨.mappingRemoved id, rfl, hwas, his⟩
    | region id => exact ⟨.regionRemoved id, rfl, hwas, his⟩

/-- The change that tells of an effect is about its subject, and reports it. -/
theorem of?_eq_some {s : Subject} {e : Effect} {change : Change} :
    of? s e = some change ↔
      change.subject = s ∧ change.Reports (e.before = true) (e.after = true) := by
  cases s <;> cases e <;> cases change <;>
    simp [of?, subject, Reports, Effect.before, Effect.after, eq_comm]

/-- **The net effect** of changes that make sense: the objects they touch, each by the change that
reports what was there and what is. -/
theorem mem_net {p p' : Presence} {raw : List Change} (h : LeadsAll p raw p') {change : Change} :
    change ∈ net raw ↔ change.subject ∈ raw.map subject ∧
      change.Reports (p change.subject) (p' change.subject) := by
  have htallies : Tallies p (effects raw) p' := tallies_effects h
  rw [net, List.mem_filterMap, ← mem_map_fst_effects]
  constructor
  · rintro ⟨⟨s, e⟩, hse, hof⟩
    obtain ⟨hs, hreports⟩ := of?_eq_some.mp hof
    obtain ⟨hbefore, hafter⟩ := htallies.told s e hse
    rw [hs]
    exact ⟨List.mem_map.mpr ⟨(s, e), hse, rfl⟩, (Reports.congr hbefore hafter).mpr hreports⟩
  · rintro ⟨hlisted, hreports⟩
    obtain ⟨⟨s, e⟩, hse, hs⟩ := List.mem_map.mp hlisted
    obtain ⟨hbefore, hafter⟩ := htallies.told s e hse
    have hs' : s = change.subject := hs
    rw [← hs'] at hreports
    exact ⟨(s, e), hse, of?_eq_some.mpr ⟨hs'.symm, (Reports.congr hbefore hafter).mp hreports⟩⟩

/-- The net effect names subjects in the order in which they first appeared, if it names them. -/
theorem sublist_map_subject_net (raw : List Change) :
    ((net raw).map subject).Sublist ((effects raw).map (·.1)) := by
  rw [net]
  induction effects raw with
  | nil => exact .slnil
  | cons row rest ih =>
    obtain ⟨s, e⟩ := row
    rw [List.map_cons, List.filterMap_cons]
    dsimp only
    split
    · exact ih.cons _
    · next change hof =>
      rw [List.map_cons, (of?_eq_some.mp hof).1]
      exact ih.cons_cons _

/-- **The net effect names each object at most once**, whatever the raw changes. -/
theorem nodup_map_subject_net (raw : List Change) : ((net raw).map subject).Nodup :=
  (nodup_effects raw).sublist (sublist_map_subject_net raw)

/-- What is touched, and was there or is there, is reported. -/
theorem exists_mem_net {p p' : Presence} {raw : List Change} (h : LeadsAll p raw p') {s : Subject}
    (htouched : s ∈ raw.map subject) (hthere : p s ∨ p' s) :
    ∃ change ∈ net raw, change.subject = s := by
  obtain ⟨change, rfl, hreports⟩ := exists_reports s hthere
  exact ⟨change, (mem_net h).mpr ⟨htouched, hreports⟩, rfl⟩

/-- Changes that touch something that was there or is there have a net effect. -/
theorem net_ne_nil {p p' : Presence} {raw : List Change} (h : LeadsAll p raw p') {s : Subject}
    (htouched : s ∈ raw.map subject) (hthere : p s ∨ p' s) : net raw ≠ [] := by
  obtain ⟨change, hchange, -⟩ := exists_mem_net h htouched hthere
  exact List.ne_nil_of_mem hchange

/-! ## Order of first appearance -/

theorem effects_concat (raw : List Change) (change : Change) :
    effects (raw ++ [change]) = merge change.subject change.effect (effects raw) := by
  rw [effects, List.foldl_append]
  rfl

/-- Whether one subject first appears in raw changes before another. -/
def FirstBefore (raw : List Change) (s t : Subject) : Prop :=
  (raw.map subject).idxOf s < (raw.map subject).idxOf t

/-- A change more does not alter the order of those that have appeared. -/
theorem FirstBefore.concat {raw : List Change} {s t : Subject} (h : FirstBefore raw s t)
    (hs : s ∈ raw.map subject) (ht : t ∈ raw.map subject) (change : Change) :
    FirstBefore (raw ++ [change]) s t := by
  rw [FirstBefore, List.map_append, List.idxOf_append_of_mem hs, List.idxOf_append_of_mem ht]
  exact h

/-- One that has not appeared comes behind them all. -/
theorem firstBefore_new {raw : List Change} {change : Change} {s : Subject}
    (hs : s ∈ raw.map subject) (hnew : change.subject ∉ raw.map subject) :
    FirstBefore (raw ++ [change]) s change.subject := by
  rw [FirstBefore, List.map_append, List.idxOf_append_of_mem hs, List.idxOf_append_of_notMem hnew]
  exact Nat.lt_add_right _ (List.idxOf_lt_length_of_mem hs)

/-- Subjects are listed in the order in which they first appeared. -/
theorem pairwise_effects (raw : List Change) :
    ((effects raw).map (·.1)).Pairwise (FirstBefore raw) := by
  induction raw using List.reverseRecOn with
  | nil => exact .nil
  | append_singleton raw change ih =>
    have hkept : ((effects raw).map (·.1)).Pairwise (FirstBefore (raw ++ [change])) :=
      ih.imp_of_mem fun hs ht h =>
        h.concat (mem_map_fst_effects.mp hs) (mem_map_fst_effects.mp ht) change
    rw [effects_concat, map_fst_merge]
    split
    · exact hkept
    · next hnew =>
      rw [mem_map_fst_effects] at hnew
      refine List.pairwise_append.mpr ⟨hkept, List.pairwise_singleton _ _, ?_⟩
      intro s hs t ht
      rw [List.mem_singleton.mp ht]
      exact firstBefore_new (mem_map_fst_effects.mp hs) hnew

/-- **The net effect names objects in the order in which they first appeared**, whatever the raw
changes. -/
theorem pairwise_subject_net (raw : List Change) :
    (net raw).Pairwise fun c d => FirstBefore raw c.subject d.subject :=
  List.pairwise_map.mp ((pairwise_effects raw).sublist (sublist_map_subject_net raw))

theorem subject_mem_of_mem_net {raw : List Change} {change : Change} (h : change ∈ net raw) :
    change.subject ∈ raw.map subject :=
  mem_map_fst_effects.mp ((sublist_map_subject_net raw).subset (List.mem_map_of_mem h))

/-! ## The net effect of a net effect -/

/-- Nothing is merged where every change is about an object of its own. -/
theorem effects_of_nodup {raw : List Change} (h : (raw.map subject).Nodup) :
    effects raw = raw.map fun change => (change.subject, change.effect) := by
  induction raw using List.reverseRecOn with
  | nil => rfl
  | append_singleton raw change ih =>
    rw [List.map_append, List.nodup_append] at h
    obtain ⟨hraw, -, hapart⟩ := h
    have hnew : change.subject ∉ raw.map subject := fun hin =>
      hapart _ hin _ List.mem_cons_self rfl
    rw [effects_concat, merge_of_notMem (mt mem_map_fst_effects.mp hnew), ih hraw, List.map_append]
    rfl

/-- The effect of a change is told by that change. -/
theorem of?_effect (change : Change) : of? change.subject change.effect = some change := by
  cases change <;> rfl

/-- **Changes about different objects are their own net effect.** -/
theorem net_of_nodup {raw : List Change} (h : (raw.map subject).Nodup) : net raw = raw := by
  rw [net, effects_of_nodup h, List.filterMap_map]
  have hsame : (fun row : Subject × Effect => of? row.1 row.2) ∘
      (fun change : Change => (change.subject, change.effect)) = some := funext of?_effect
  exact (congrArg (List.filterMap · raw) hsame).trans List.filterMap_some

theorem net_net (raw : List Change) : net (net raw) = net raw :=
  net_of_nodup (nodup_map_subject_net raw)

/-! ## What is reported of a batch -/

/-- What changes do not touch is as it was. -/
theorem LeadsAll.others {p p' : Presence} {raw : List Change} (h : LeadsAll p raw p') {s : Subject}
    (hs : s ∉ raw.map subject) : p' s ↔ p s :=
  (tallies_effects h).others s (mt mem_map_fst_effects.mp hs)

/-- A mapping that was there cannot be touched but by removing it first. -/
theorem LeadsAll.mappingRemoved_mem {p p' : Presence} {raw : List Change} (h : LeadsAll p raw p')
    {id : MappingId} (htouched : .mapping id ∈ raw.map subject) (hthere : p (.mapping id)) :
    mappingRemoved id ∈ raw := by
  induction h with
  | nil p => cases htouched
  | @cons p p₁ p' change rest hfirst _ ih =>
    by_cases hsubject : Subject.mapping id = change.subject
    · have hbefore := hfirst.before.mp (hsubject ▸ hthere)
      cases change with
      | mappingRemoved id' =>
        cases hsubject
        exact List.mem_cons_self
      | mappingAdded id' => cases hbefore
      | regionAdded id' => cases hsubject
      | regionChanged id' => cases hsubject
      | regionRemoved id' => cases hsubject
    · rcases List.mem_cons.mp htouched with heq | hrest
      · exact absurd heq hsubject
      · exact List.mem_cons_of_mem _ (ih hrest ((hfirst.others _ hsubject).mpr hthere))

/-- Nothing is reported of an object that is touched exactly if it was not there and is not. -/
theorem unreported_iff {p p' : Presence} {raw : List Change} (h : LeadsAll p raw p') {s : Subject}
    (hs : s ∈ raw.map subject) : (∀ change ∈ net raw, change.subject ≠ s) ↔ ¬ p s ∧ ¬ p' s := by
  rw [← not_or]
  constructor
  · intro hnone hthere
    obtain ⟨change, hchange, hsubject⟩ := exists_mem_net h hs hthere
    exact hnone change hchange hsubject
  · rintro hgone change hchange rfl
    obtain ⟨-, hreports⟩ := (mem_net h).mp hchange
    exact hgone hreports.there

/-- **The net effect of changes** names objects that they touch, each once and in the order in which
they first appeared, and a net effect has itself as its net effect; that holds whatever the changes.
Where they make sense from what there is before, a region is reported as added exactly if it was not
there and is, as removed if it was and is not, and as changed if it is touched and was and is there;
a mapping is reported as added also if it was removed and is there again; and nothing is reported of
an object that they touch exactly if it was not there and is not. -/
theorem net_effect_reported :
    (∀ raw : List Change,
      ((net raw).Pairwise fun c d => FirstBefore raw c.subject d.subject) ∧
      (∀ change ∈ net raw, change.subject ∈ raw.map subject) ∧ net (net raw) = net raw) ∧
    ∀ (p : Presence) (raw : List Change), MakeSense p raw →
      (∀ id : RegionId,
        (regionAdded id ∈ net raw ↔ ¬ p (.region id) ∧ p.afterAll raw (.region id)) ∧
        (regionRemoved id ∈ net raw ↔ p (.region id) ∧ ¬ p.afterAll raw (.region id)) ∧
        (regionChanged id ∈ net raw ↔
          .region id ∈ raw.map subject ∧ p (.region id) ∧ p.afterAll raw (.region id))) ∧
      (∀ id : MappingId,
        (mappingAdded id ∈ net raw ↔ ¬ p (.mapping id) ∧ p.afterAll raw (.mapping id) ∨
          mappingRemoved id ∈ raw ∧ p (.mapping id) ∧ p.afterAll raw (.mapping id)) ∧
        (mappingRemoved id ∈ net raw ↔ p (.mapping id) ∧ ¬ p.afterAll raw (.mapping id))) ∧
      ∀ s ∈ raw.map subject,
        (∀ change ∈ net raw, change.subject ≠ s) ↔ ¬ p s ∧ ¬ p.afterAll raw s := by
  refine ⟨fun raw => ⟨pairwise_subject_net raw, fun change hchange =>
    subject_mem_of_mem_net hchange, net_net raw⟩, ?_⟩
  intro p raw hsense
  have hleads : LeadsAll p raw (p.afterAll raw) := leadsAll_of_makeSense hsense
  -- an object that is not as it was is touched
  have htouched : ∀ s, ¬ (p.afterAll raw s ↔ p s) → s ∈ raw.map subject := by
    intro s hdiffers
    by_contra hs
    exact hdiffers (hleads.others hs)
  refine ⟨fun id => ⟨?_, ?_, mem_net hleads⟩, fun id => ⟨?_, ?_⟩, fun s hs =>
    unreported_iff hleads hs⟩
  · rw [mem_net hleads]
    exact ⟨fun h => h.2, fun h => ⟨htouched _ fun heq => h.1 (heq.mp h.2), h⟩⟩
  · rw [mem_net hleads]
    exact ⟨fun h => h.2, fun h => ⟨htouched _ fun heq => h.2 (heq.mpr h.1), h⟩⟩
  · rw [mem_net hleads]
    constructor
    · rintro ⟨hs, his⟩
      by_cases hwas : p (.mapping id)
      · exact .inr ⟨hleads.mappingRemoved_mem hs hwas, hwas, his⟩
      · exact .inl ⟨hwas, his⟩
    · rintro (⟨hwas, his⟩ | ⟨hremoved, -, his⟩)
      · exact ⟨htouched _ fun heq => hwas (heq.mp his), his⟩
      · exact ⟨List.mem_map.mpr ⟨_, hremoved, rfl⟩, his⟩
  · rw [mem_net hleads]
    exact ⟨fun h => h.2, fun h => ⟨htouched _ fun heq => h.2 (heq.mpr h.1), h⟩⟩

/-- Objects that come and go, their changes interleaved. -/
def shuffle : List Change :=
  [regionAdded ⟨1⟩, mappingRemoved ⟨7⟩, regionRemoved ⟨2⟩, regionRemoved ⟨1⟩, regionAdded ⟨2⟩,
   mappingAdded ⟨7⟩, regionAdded ⟨1⟩, regionRemoved ⟨2⟩, regionAdded ⟨5⟩, regionChanged ⟨3⟩,
   regionRemoved ⟨5⟩]

/-- What is there before they come and go. -/
def beforeShuffle : Presence := (· ∈ [.region ⟨2⟩, .region ⟨3⟩, .mapping ⟨7⟩])

instance : DecidablePred beforeShuffle := fun s =>
  inferInstanceAs (Decidable (s ∈ [.region ⟨2⟩, .region ⟨3⟩, .mapping ⟨7⟩]))

/-- One that vanished and came back, a mapping that was removed and added back, and a region that
was removed a second time. -/
theorem shuffle_net_effect_reported :
    MakeSense beforeShuffle shuffle ∧
      net shuffle =
        [regionAdded ⟨1⟩, mappingAdded ⟨7⟩, regionRemoved ⟨2⟩, regionChanged ⟨3⟩] ∧
      (∀ id, regionRemoved id ∈ net shuffle ↔
        beforeShuffle (.region id) ∧ ¬ beforeShuffle.afterAll shuffle (.region id)) ∧
      ¬ beforeShuffle.afterAll shuffle (.region ⟨2⟩) := by
  have hsense : MakeSense beforeShuffle shuffle := by decide
  obtain ⟨hregions, -, -⟩ := net_effect_reported.2 beforeShuffle shuffle hsense
  have hremoved : regionRemoved ⟨2⟩ ∈ net shuffle := by decide
  exact ⟨hsense, by decide, fun id => (hregions id).2.1, ((hregions ⟨2⟩).2.1.mp hremoved).2⟩

end RegionAtlas.Change
