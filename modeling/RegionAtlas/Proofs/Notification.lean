/-
  Notification — listeners hear exactly the difference, once for each thing that lands.

  What can change contents is a commit of something, an undo and a redo, and each of them tells the
  net effect of what its operations changed.  This module says that

    1. a step that lands tells the difference between the contents before and after it, and it is
       never empty (`tellsDifference_of_lands`); any other step changes no contents and tells
       nothing (`quiet_of_not_lands`);
    2. whoever is subscribed is told once for each subscription, with the contents after the step
       already in force, and nobody else is told anything (`Desk.hears_tellAll`).

  The first rests on what is remembered: every command, however often it was undone and redone,
  holds the operations of a transaction, so those set lifespans only to close open ones.
-/
import RegionAtlas.Proofs.Atomicity
import RegionAtlas.Proofs.Difference

namespace RegionAtlas

open Change (Subject LeadsAll)

/-! ## Steps that land -/

namespace Trace

variable {t : Trace} {T : Timeline} {s : Step}

/-- **A step that lands**: a commit of something, an undo or a redo, that succeeds. -/
def Lands (t : Trace) : Step → Prop
  | .commit d =>
    (∃ tx, t.draft? d = some tx ∧ tx.isEmpty = false) ∧ ∃ told, (t.commit d).2 = .done told
  | .undo => ∃ told, t.undo.2 = .done told
  | .redo => ∃ told, t.redo.2 = .done told
  | _ => False

/-- **A step tells the difference it makes**, by raw changes that lead from the contents before it
to those after it. -/
structure TellsDifference (t : Trace) (s : Step) (raw : List Change) : Prop where
  nonempty : raw ≠ []
  told : (t.step s).2.told = Change.net raw
  leads : LeadsAll t.contents.Holds raw (t.step s).1.contents.Holds
  differ : Contents.DifferIn (raw.map Change.subject) t.contents (t.step s).1.contents
  listeners : (t.step s).1.listeners = t.listeners

/-- **An account of the difference between contents**: all of it, each object at most once, and
nothing of what is the same. -/
structure Accounts (told : List Change) (c c' : Contents) : Prop where
  exact : ∀ change, change ∈ told ↔ change.IsBetween c c'
  distinct : (told.map Change.subject).Nodup
  regions : ∀ id, (∀ change ∈ told, change.subject ≠ .region id) → c'.region? id = c.region? id
  mappings : ∀ id, (∀ change ∈ told, change.subject ≠ .mapping id) → c'.mapping? id = c.mapping? id

/-- Of contents and themselves there is nothing to tell. -/
theorem accounts_nil (c : Contents) : Accounts [] c c where
  exact change := by
    constructor
    · intro hmem
      cases hmem
    · intro hbetween
      exact absurd hbetween (change.not_isBetween_self c)
  distinct := List.nodup_nil
  regions _ _ := rfl
  mappings _ _ := rfl

/-- What is told of a difference is never nothing. -/
theorem TellsDifference.told_ne_nil {raw : List Change} (h : t.TellsDifference s raw) :
    (t.step s).2.told ≠ [] := by
  -- whatever is touched is there on one of the sides
  obtain ⟨change, rest, hcons⟩ := List.exists_cons_of_ne_nil h.nonempty
  have htouched : change.subject ∈ raw.map Change.subject := by
    rw [hcons]
    exact List.mem_cons_self
  rw [h.told]
  exact Change.net_ne_nil h.leads htouched (h.differ.somewhere _ htouched)

/-- And it is an account of that difference. -/
theorem TellsDifference.accounts {raw : List Change} (h : t.TellsDifference s raw) :
    Accounts (t.step s).2.told t.contents (t.step s).1.contents := by
  rw [h.told]
  exact {
    exact := fun change => h.differ.mem_net_iff h.leads change
    distinct := Change.nodup_map_subject_net raw
    regions := fun id hid => h.differ.regions id (h.differ.not_touched_of_net h.leads hid)
    mappings := fun id hid => h.differ.mappings id (h.differ.not_touched_of_net h.leads hid) }

/-- A transaction that sets lifespans only to close open ones. -/
abbrev ClosesAll (tx : Transaction) : Prop := ∀ op ∈ tx.operations, op.Closes

theorem map_change_ne_nil {ops : List Operation} (h : ops.isEmpty = false) :
    ops.map Operation.change ≠ [] := by
  intro hnil
  rw [List.map_eq_nil_iff.mp hnil] at h
  cases h

section Directions

variable {ops : List Operation} {c : Contents}

/-- Carrying operations out tells the difference they make. -/
theorem tellsDifference_forth (hempty : ops.isEmpty = false) (hcloses : ∀ op ∈ ops, op.Closes)
    (hfresh : Operation.Fresh t.contents ops)
    (hcarried : Operation.carryOut t.contents ops = .ok c) (hcontents : (t.step s).1.contents = c)
    (htold : (t.step s).2.told = Change.net (ops.map Operation.change))
    (hlisteners : (t.step s).1.listeners = t.listeners) :
    t.TellsDifference s (ops.map Operation.change) where
  nonempty := map_change_ne_nil hempty
  told := htold
  leads := by
    rw [hcontents]
    exact Operation.leadsAll_carryOut hfresh hcarried
  differ := by
    rw [hcontents]
    exact Operation.differIn_carryOut hcloses hfresh hcarried
  listeners := hlisteners

/-- Taking operations back tells the same difference the other way round. -/
theorem tellsDifference_back (hempty : ops.isEmpty = false) (hcloses : ∀ op ∈ ops, op.Closes)
    (hfresh : Operation.Fresh c ops) (hcarried : Operation.carryOut c ops = .ok t.contents)
    (hcontents : (t.step s).1.contents = c)
    (htold : (t.step s).2.told =
      Change.net ((ops.map Operation.change).map Change.reversed).reverse)
    (hlisteners : (t.step s).1.listeners = t.listeners) :
    t.TellsDifference s ((ops.map Operation.change).map Change.reversed).reverse where
  nonempty := by
    intro hnil
    rw [List.reverse_eq_nil_iff, List.map_eq_nil_iff] at hnil
    exact map_change_ne_nil hempty hnil
  told := htold
  leads := by
    rw [hcontents]
    exact (Operation.leadsAll_carryOut hfresh hcarried).reversed
  differ := by
    have hsubjects :
        ((ops.map Operation.change).map Change.reversed).map Change.subject =
          (ops.map Operation.change).map Change.subject := by
      rw [List.map_map]
      exact List.map_congr_left fun change _ => change.subject_reversed
    rw [hcontents, List.map_reverse, hsubjects]
    exact (Operation.differIn_carryOut hcloses hfresh hcarried).symm.reverse
  listeners := hlisteners

end Directions

/-- A commit that lands carries the operations of its transaction out. -/
theorem tellsDifference_commit {d : DraftId} (ht : Tells t.contents t.history T) (ha : Apart t T)
    (hopen : ∀ d tx, t.draft? d = some tx → ClosesAll tx) (h : t.Lands (.commit d)) :
    ∃ raw, t.TellsDifference (.commit d) raw := by
  obtain ⟨⟨tx, hd, hempty⟩, told, hdone⟩ := h
  have hfresh : Operation.Fresh t.contents tx.operations := ha.fresh ht hd
  cases hcarried : Operation.carryOut t.contents tx.operations with
  | error why =>
    rw [commit_refused hd hfresh hcarried] at hdone
    cases hdone
  | ok c =>
    have hne : ¬ tx.operations.isEmpty = true := Bool.not_eq_true _ ▸ hempty
    have happly : Operation.applyAll (t.abort d).contents tx.operations =
        ⟨c, .ok (tx.operations.map Operation.change)⟩ := Operation.applyAll_told hfresh hcarried
    have hcommit : t.step (.commit d) =
        ({ t.abort d with
            contents := c
            history := t.history.record ⟨tx.description, tx.operations⟩ },
          .done (Change.net (tx.operations.map Operation.change))) := by
      show t.commit d = _
      rw [commit_of_open hd, commitOperations, if_neg hne, happly]
      rfl
    have hforth := tellsDifference_forth (s := .commit d) hempty (hopen d tx hd) hfresh hcarried
    rw [hcommit] at hforth
    exact ⟨_, hforth rfl rfl rfl⟩

/-- An undo that succeeds takes back the operations of the command done last. -/
theorem tellsDifference_undo (ht : Tells t.contents t.history T)
    (hkept : ∀ command, t.history.Keeps command → command.Stems ClosesAll) (h : t.Lands .undo) :
    ∃ raw, t.TellsDifference .undo raw := by
  obtain ⟨told, hdone⟩ := h
  obtain ⟨past, future, -, -, hpast, -⟩ := ht.sides
  cases hstack : t.history.done with
  | nil =>
    rw [undo, hstack] at hdone
    cases hdone
  | cons command rest =>
    rw [hstack] at hpast
    obtain ⟨e, past', -, -, hreal, hafter⟩ := hpast.exists_cons
    have hcarried : Operation.carryOut e.before command.operations = .ok t.contents :=
      hafter ▸ hreal.carried
    have hin : command ∈ t.history.done := by
      rw [hstack]
      exact List.mem_cons_self
    obtain ⟨tx, hcloses, hempty, hops⟩ := hkept command (.inl hin)
    have hundo : t.step .undo =
        ({ t with
            contents := e.before
            history := { t.history with done := rest, undone := command :: t.history.undone } },
          .done (Change.net
            ((command.operations.map Operation.change).map Change.reversed).reverse)) := by
      show t.undo = _
      rw [undo, hstack]
      dsimp only
      rw [Operation.revertAll_carryOut hreal.fresh hcarried, Operation.told_revertAll]
    have hback := tellsDifference_back (s := .undo) (hops ▸ hempty) (hops ▸ hcloses) hreal.fresh
      hcarried
    rw [hundo] at hback
    exact ⟨_, hback rfl rfl rfl⟩

/-- A redo that succeeds carries the operations of the command undone last out again. -/
theorem tellsDifference_redo (ht : Tells t.contents t.history T)
    (hkept : ∀ command, t.history.Keeps command → command.Stems ClosesAll) (h : t.Lands .redo) :
    ∃ raw, t.TellsDifference .redo raw := by
  obtain ⟨told, hdone⟩ := h
  obtain ⟨past, future, -, -, -, hfuture⟩ := ht.sides
  cases hstack : t.history.undone with
  | nil =>
    rw [redo, hstack] at hdone
    cases hdone
  | cons command rest =>
    rw [hstack] at hfuture
    obtain ⟨e, future', -, hreal, -, hbefore⟩ := hfuture.exists_cons
    have hfresh : Operation.Fresh t.contents command.operations := hbefore ▸ hreal.fresh
    have hcarried : Operation.carryOut t.contents command.operations = .ok e.after :=
      hbefore ▸ hreal.carried
    have hin : command ∈ t.history.undone := by
      rw [hstack]
      exact List.mem_cons_self
    obtain ⟨tx, hcloses, hempty, hops⟩ := hkept command (.inr hin)
    have hredo : t.step .redo =
        ({ t with
            contents := e.after
            history := { t.history with done := command :: t.history.done, undone := rest } },
          .done (Change.net (command.operations.map Operation.change))) := by
      show t.redo = _
      rw [redo, hstack]
      dsimp only
      rw [Operation.applyAll_told hfresh hcarried]
    have hforth := tellsDifference_forth (s := .redo) (hops ▸ hempty) (hops ▸ hcloses) hfresh
      hcarried
    rw [hredo] at hforth
    exact ⟨_, hforth rfl rfl rfl⟩

/-- **What lands tells the difference it makes.** -/
theorem tellsDifference_of_lands (ht : Tells t.contents t.history T) (ha : Apart t T)
    (hopen : ∀ d tx, t.draft? d = some tx → ClosesAll tx)
    (hkept : ∀ command, t.history.Keeps command → command.Stems ClosesAll) (h : t.Lands s) :
    ∃ raw, t.TellsDifference s raw := by
  cases s with
  | commit d => exact tellsDifference_commit ht ha hopen h
  | undo => exact tellsDifference_undo ht hkept h
  | redo => exact tellsDifference_redo ht hkept h
  | begin description => cases h
  | edit d e => cases h
  | abort d => cases h
  | clearHistory => cases h
  | subscribe l => cases h
  | unsubscribe id => cases h

/-- **What does not land changes no contents and tells nothing.** -/
theorem quiet_of_not_lands (ht : Tells t.contents t.history T) (ha : Apart t T)
    (h : ¬ t.Lands s) : (t.step s).1.contents = t.contents ∧ (t.step s).2.told = [] := by
  cases s with
  | commit d =>
    show (t.commit d).1.contents = t.contents ∧ (t.commit d).2.told = []
    cases hd : t.draft? d with
    | none =>
      rw [commit_notOpen hd]
      exact ⟨rfl, rfl⟩
    | some tx =>
      cases hempty : tx.isEmpty with
      | true =>
        rw [commit_empty hd hempty]
        exact ⟨rfl, rfl⟩
      | false =>
        have hfresh : Operation.Fresh t.contents tx.operations := ha.fresh ht hd
        cases hcarried : Operation.carryOut t.contents tx.operations with
        | error why =>
          rw [commit_refused hd hfresh hcarried]
          exact ⟨rfl, rfl⟩
        | ok c =>
          obtain ⟨-, told, hdone⟩ := commit_done hd hfresh hcarried
          exact absurd ⟨⟨tx, hd, hempty⟩, told, hdone⟩ h
  | undo =>
    rcases undo_spec ht with ⟨-, hundo⟩ | ⟨T', history, told, -, -, hundo⟩
    · show t.undo.1.contents = t.contents ∧ t.undo.2.told = []
      rw [hundo]
      exact ⟨rfl, rfl⟩
    · exact absurd ⟨told, congrArg Prod.snd hundo⟩ h
  | redo =>
    rcases redo_spec ht with ⟨-, hredo⟩ | ⟨T', history, told, -, -, hredo⟩
    · show t.redo.1.contents = t.contents ∧ t.redo.2.told = []
      rw [hredo]
      exact ⟨rfl, rfl⟩
    · exact absurd ⟨told, congrArg Prod.snd hredo⟩ h
  | edit d e =>
    show (t.edit d e).1.contents = t.contents ∧ (t.edit d e).2.told = []
    cases hd : t.draft? d with
    | none =>
      rw [edit, hd]
      exact ⟨rfl, rfl⟩
    | some tx =>
      rcases edit_cases hd e with ⟨tx', what, k, -, hedit⟩ | ⟨why, hedit⟩
      · rw [hedit]
        exact ⟨rfl, rfl⟩
      · rw [hedit]
        exact ⟨rfl, rfl⟩
  | begin description => exact ⟨rfl, rfl⟩
  | abort d => exact ⟨rfl, rfl⟩
  | clearHistory => exact ⟨rfl, rfl⟩
  | subscribe l => exact ⟨rfl, rfl⟩
  | unsubscribe id => exact ⟨rfl, rfl⟩

/-! ## Subscriptions -/

/-- How often a listener is subscribed. -/
def subscriptions (t : Trace) (l : Listener) : Nat := t.listeners.countP (·.2 == l)

/-- Subscriptions have distinct numbers, and none that is still to be given. -/
structure Subscribed (t : Trace) : Prop where
  distinct : (t.listeners.map (·.1)).Nodup
  below : ∀ l ∈ t.listeners, l.1.raw < t.nextSubscription

/-- Only subscribing and unsubscribing touch the listeners. -/
theorem listeners_step (hs : ∀ l, s ≠ .subscribe l) (hu : ∀ id, s ≠ .unsubscribe id) :
    (t.step s).1.listeners = t.listeners ∧
      (t.step s).1.nextSubscription = t.nextSubscription := by
  cases s with
  | edit d e =>
    show (t.edit d e).1.listeners = _ ∧ (t.edit d e).1.nextSubscription = _
    cases hd : t.draft? d with
    | none =>
      rw [edit, hd]
      exact ⟨rfl, rfl⟩
    | some tx =>
      rcases edit_cases hd e with ⟨tx', what, k, -, hedit⟩ | ⟨why, hedit⟩
      · rw [hedit]
        exact ⟨rfl, rfl⟩
      · rw [hedit]
        exact ⟨rfl, rfl⟩
  | commit d =>
    show (t.commit d).1.listeners = _ ∧ (t.commit d).1.nextSubscription = _
    cases hd : t.draft? d with
    | none =>
      rw [commit_notOpen hd]
      exact ⟨rfl, rfl⟩
    | some tx =>
      rw [commit_of_open hd, commitOperations]
      dsimp only
      split
      · exact ⟨rfl, rfl⟩
      · split <;> exact ⟨rfl, rfl⟩
  | undo =>
    show t.undo.1.listeners = _ ∧ t.undo.1.nextSubscription = _
    unfold undo
    split <;> exact ⟨rfl, rfl⟩
  | redo =>
    show t.redo.1.listeners = _ ∧ t.redo.1.nextSubscription = _
    unfold redo
    dsimp only
    split
    · exact ⟨rfl, rfl⟩
    · split <;> exact ⟨rfl, rfl⟩
  | begin description => exact ⟨rfl, rfl⟩
  | abort d => exact ⟨rfl, rfl⟩
  | clearHistory => exact ⟨rfl, rfl⟩
  | subscribe l => exact absurd rfl (hs l)
  | unsubscribe id => exact absurd rfl (hu id)

theorem subscribed_step (h : t.Subscribed) (s : Step) : (t.step s).1.Subscribed := by
  by_cases hs : ∃ l, s = .subscribe l
  · obtain ⟨l, rfl⟩ := hs
    refine { distinct := ?_, below := ?_ }
    · show ((t.listeners ++ [((⟨t.nextSubscription⟩ : SubscriptionId), l)]).map (·.1)).Nodup
      rw [List.map_append, List.nodup_append]
      refine ⟨h.distinct, List.nodup_singleton _, ?_⟩
      intro id hid j hj hij
      obtain ⟨row, hrow, rfl⟩ := List.mem_map.mp hid
      have hlt : row.1.raw < t.nextSubscription := h.below row hrow
      rw [hij, List.mem_singleton.mp hj] at hlt
      exact Nat.lt_irrefl _ hlt
    · intro row hrow
      show row.1.raw < t.nextSubscription + 1
      rcases List.mem_append.mp hrow with hold | hnew
      · exact Nat.lt_succ_of_lt (h.below row hold)
      · rw [List.mem_singleton.mp hnew]
        exact Nat.lt_succ_self _
  · by_cases hu : ∃ id, s = .unsubscribe id
    · obtain ⟨id, rfl⟩ := hu
      refine { distinct := ?_, below := ?_ }
      · exact h.distinct.sublist (List.filter_sublist.map _)
      · exact fun row hrow => h.below row (List.mem_filter.mp hrow).1
    · obtain ⟨hlisteners, hnext⟩ := listeners_step (t := t) (s := s)
        (fun l heq => hs ⟨l, heq⟩) (fun id heq => hu ⟨id, heq⟩)
      refine { distinct := ?_, below := ?_ }
      · rw [hlisteners]
        exact h.distinct
      · rw [hlisteners, hnext]
        exact h.below

theorem subscribed_run (h : t.Subscribed) (steps : List Step) : (t.run steps).Subscribed := by
  induction steps generalizing t with
  | nil => exact h
  | cons s rest ih => exact ih (subscribed_step h s)

end Trace

/-! ## What the desk passes on -/

/-- Being told the same thing a number of times. -/
def Recorder.hearTimes (r : Recorder) (t : Trace) (changes : List Change) (n : Nat) : Recorder :=
  { r with batches := r.batches ++ List.replicate n ⟨t.name, changes, t.contents.query r.snap⟩ }

theorem Recorder.hearTimes_succ (r : Recorder) (t : Trace) (changes : List Change) (n : Nat) :
    (r.hear t changes).hearTimes t changes n = r.hearTimes t changes (n + 1) := by
  simp only [hear, hearTimes, List.replicate_succ, List.append_assoc, List.singleton_append]

/-- A window that is told the same thing twice is as if it was told once. -/
theorem Window.hear_hear (w : Window) (t : TraceId) (changes : List Change) (now : Nat) :
    (w.hear t changes now).hear t changes now = w.hear t changes now := by
  unfold hear
  by_cases h : (changes.any (·.touchesRegion) && w.shows t) = true
  · have hshown : ({ w with freshness := .pending now } : Window).shows t = w.shows t := rfl
    rw [if_pos h, hshown, if_pos h]
  · rw [if_neg h, if_neg h]

/-- **What a desk passes on of changes of a trace**: every recorder keeps the batch once for each
subscription it has, with what the trace shows now; every window that is subscribed takes note. -/
structure Desk.Hears (desk desk' : Desk) (t : Trace) (changes : List Change) : Prop where
  recorders : ∀ k, desk'.recorders.find? k = (desk.recorders.find? k).map fun r =>
    r.hearTimes t changes (t.subscriptions (.recorder k))
  windows : ∀ k, desk'.windows.find? k =
    if t.subscriptions (.window k) = 0 then desk.windows.find? k
    else (desk.windows.find? k).map fun w => w.hear t.id changes desk.clock

namespace Desk

theorem find?_tell_recorders (desk : Desk) (t : Trace) (changes : List Change) (l : Listener)
    (k : RecorderId) :
    (desk.tell t changes l).recorders.find? k =
      if l = .recorder k then (desk.recorders.find? k).map (·.hear t changes)
      else desk.recorders.find? k := by
  cases l with
  | window w => rfl
  | recorder j =>
    show (desk.recorders.adjust j (·.hear t changes)).find? k = _
    rw [Table.find?_adjust]
    simp only [Std.LawfulEqCmp.compare_eq_iff_eq, Listener.recorder.injEq]

theorem find?_tell_windows (desk : Desk) (t : Trace) (changes : List Change) (l : Listener)
    (k : WindowId) :
    (desk.tell t changes l).windows.find? k =
      if l = .window k then (desk.windows.find? k).map (·.hear t.id changes desk.clock)
      else desk.windows.find? k := by
  cases l with
  | recorder w => rfl
  | window j =>
    show (desk.windows.adjust j (·.hear t.id changes desk.clock)).find? k = _
    rw [Table.find?_adjust]
    simp only [Std.LawfulEqCmp.compare_eq_iff_eq, Listener.window.injEq]

theorem clock_tell (desk : Desk) (t : Trace) (changes : List Change) (l : Listener) :
    (desk.tell t changes l).clock = desk.clock := by
  cases l <;> rfl

/-- A recorder keeps what it hears once for each of its subscriptions among those told. -/
theorem find?_foldl_tell_recorders (t : Trace) (changes : List Change)
    (ls : List (SubscriptionId × Listener)) (desk : Desk) (k : RecorderId) :
    (ls.foldl (fun d l => d.tell t changes l.2) desk).recorders.find? k =
      (desk.recorders.find? k).map fun r =>
        r.hearTimes t changes (ls.countP (·.2 == .recorder k)) := by
  induction ls generalizing desk with
  | nil =>
    show desk.recorders.find? k = (desk.recorders.find? k).map fun r => r.hearTimes t changes 0
    cases desk.recorders.find? k with
    | none => rfl
    | some r => rw [Option.map_some, Recorder.hearTimes, List.replicate_zero, List.append_nil]
  | cons l rest ih =>
    rw [List.foldl_cons, ih, find?_tell_recorders, List.countP_cons]
    simp only [beq_iff_eq]
    split
    · rw [Option.map_map]
      simp only [Function.comp_def, Recorder.hearTimes_succ]
    · rfl

/-- A window takes note once if any of its subscriptions is among those told. -/
theorem find?_foldl_tell_windows (t : Trace) (changes : List Change)
    (ls : List (SubscriptionId × Listener)) (desk : Desk) (k : WindowId) :
    (ls.foldl (fun d l => d.tell t changes l.2) desk).windows.find? k =
      if ls.countP (·.2 == .window k) = 0 then desk.windows.find? k
      else (desk.windows.find? k).map fun w => w.hear t.id changes desk.clock := by
  induction ls generalizing desk with
  | nil => rfl
  | cons l rest ih =>
    rw [List.foldl_cons, ih, find?_tell_windows, clock_tell, List.countP_cons]
    simp only [beq_iff_eq]
    by_cases hl : l.2 = .window k
    · rw [if_pos hl, if_pos hl, if_neg (Nat.succ_ne_zero _), Option.map_map]
      simp only [Function.comp_def, Window.hear_hear, ite_self]
    · rw [if_neg hl, if_neg hl, Nat.add_zero]

/-- **Telling all listeners tells each once for each subscription**, and nobody else. -/
theorem hears_tellAll (desk : Desk) (t : Trace) {changes : List Change} (h : changes ≠ []) :
    desk.Hears (desk.tellAll t changes) t changes := by
  have hne : ¬ changes.isEmpty = true := fun hempty => h (List.isEmpty_iff.mp hempty)
  have htell : desk.tellAll t changes =
      t.listeners.foldl (fun d l => d.tell t changes l.2) desk := by
    rw [tellAll, if_neg hne]
  rw [htell]
  exact ⟨find?_foldl_tell_recorders t changes t.listeners desk,
    find?_foldl_tell_windows t changes t.listeners desk⟩

end Desk

/-! ## Every run -/

/-- **Listeners hear exactly the difference.**  On every trace that a run can lead to, a step tells
something exactly if it lands; what it tells is the difference between the contents before and after
it, each object named at most once; and it is told to every listener once for each subscription,
with the contents after it in force, while a step that does not land is heard by nobody. -/
theorem listeners_hear_difference (id : TraceId) (name : String) (c : Contents) (limit : Nat)
    (steps : List Trace.Step) (s : Trace.Step) :
    let t := (Trace.ofContents id name c limit).run steps
    let t' := (t.step s).1
    let told := (t.step s).2.told
    (told ≠ [] ↔ t.Lands s) ∧
    (∀ change, change ∈ told ↔ change.IsBetween t.contents t'.contents) ∧
    (told.map Change.subject).Nodup ∧
    (∀ rid, (∀ change ∈ told, change.subject ≠ .region rid) →
      t'.contents.region? rid = t.contents.region? rid) ∧
    (∀ mid, (∀ change ∈ told, change.subject ≠ .mapping mid) →
      t'.contents.mapping? mid = t.contents.mapping? mid) ∧
    (t.listeners.map (·.1)).Nodup ∧
    ∀ (desk : Desk) (tid : TraceId), desk.trace? tid = some t →
      (t.Lands s → t'.listeners = t.listeners ∧
        desk.Hears (desk.stepTrace tid s).1 t' told) ∧
      (¬ t.Lands s → (desk.stepTrace tid s).1.recorders = desk.recorders ∧
        (desk.stepTrace tid s).1.windows = desk.windows) := by
  intro t t' told
  obtain ⟨ht, ha⟩ := course_ofContents id name c limit steps
  have hstart : (Trace.ofContents id name c limit).Subscribed := by
    refine { distinct := List.nodup_nil, below := ?_ }
    intro l hl
    cases hl
  have hsubscribed : t.Subscribed := Trace.subscribed_run hstart steps
  by_cases hlands : t.Lands s
  · obtain ⟨raw, hraw⟩ := Trace.tellsDifference_of_lands ht ha
      (Trace.drafts_ofContents Operation.closes_upheld id name c limit steps)
      (Trace.commands_ofContents Operation.closes_upheld id name c limit steps) hlands
    have hne : told ≠ [] := hraw.told_ne_nil
    have haccounts : Trace.Accounts told t.contents t'.contents := hraw.accounts
    refine ⟨⟨fun _ => hlands, fun _ => hne⟩, haccounts.exact, haccounts.distinct,
      haccounts.regions, haccounts.mappings, hsubscribed.distinct, ?_⟩
    intro desk tid htid
    refine ⟨fun _ => ⟨hraw.listeners, ?_⟩, fun hnot => absurd hlands hnot⟩
    have hstep : (desk.stepTrace tid s).1 = (desk.setTrace t').tellAll t' told := by
      rw [Desk.stepTrace, Desk.onTrace, htid]
    obtain ⟨hrecorders, hwindows⟩ := Desk.hears_tellAll (desk.setTrace t') t' hne
    rw [hstep]
    exact ⟨hrecorders, hwindows⟩
  · obtain ⟨hcontents, hnil⟩ := Trace.quiet_of_not_lands ht ha hlands
    have hquiet : told = [] := hnil
    have haccounts : Trace.Accounts told t.contents t'.contents := by
      rw [hquiet, show t'.contents = t.contents from hcontents]
      exact Trace.accounts_nil t.contents
    refine ⟨⟨fun hne => absurd hquiet hne, fun h => absurd h hlands⟩, haccounts.exact,
      haccounts.distinct, haccounts.regions, haccounts.mappings, hsubscribed.distinct, ?_⟩
    intro desk tid htid
    refine ⟨fun h => absurd h hlands, fun _ => ?_⟩
    rw [Desk.stepTrace_of_silent htid hquiet]
    exact ⟨rfl, rfl⟩

/-- A region that is made and destroyed in one transaction, with a mapping beside it, while one
recorder listens twice and another has left. -/
def fleetingSteps : List Trace.Step :=
  [.subscribe (.recorder ⟨0⟩), .subscribe (.recorder ⟨1⟩), .subscribe (.recorder ⟨0⟩),
   .unsubscribe ⟨1⟩, .begin "fleeting",
   .edit ⟨0⟩ (.createRegion "stack" ⟨0x7000, 0x7fff, by decide⟩ 2 ⟨true, true, false⟩),
   .edit ⟨0⟩ (.addMapping ⟨0x7000, 0x7fff, by decide⟩ (.since 2) "echo" ⟨"ram", 0⟩),
   .edit ⟨0⟩ (.destroyRegion ⟨0⟩ 6), .commit ⟨0⟩]

/-- The undo of it is heard as one removal of each, by the recorder that stayed. -/
theorem fleeting_hear_difference :
    let t := (Trace.ofContents ⟨1⟩ "echo" .empty 50).run fleetingSteps
    let told := (t.step .undo).2.told
    let desk : Desk := { Desk.empty with
      traces := Table.empty.insert ⟨1⟩ t
      recorders := (Table.empty.insert ⟨0⟩ ⟨3, ⟨0⟩, []⟩).insert ⟨1⟩ ⟨3, ⟨1⟩, []⟩ }
    desk.trace? ⟨1⟩ = some t ∧ t.Lands .undo ∧
      told = [.regionRemoved ⟨0⟩, .mappingRemoved ⟨0⟩] ∧
      ((desk.stepTrace ⟨1⟩ .undo).1.recorders.find? ⟨0⟩).map (fun r => r.batches.map (·.changes)) =
        some [told, told] ∧
      ((desk.stepTrace ⟨1⟩ .undo).1.recorders.find? ⟨1⟩).map (·.batches) = some [] := by
  intro t told desk
  have htrace : desk.trace? ⟨1⟩ = some t := Table.find?_insert_self _ _ _
  have htold : told = [.regionRemoved ⟨0⟩, .mappingRemoved ⟨0⟩] := by decide
  obtain ⟨hlands, -, -, -, -, -, hdesk⟩ :=
    listeners_hear_difference ⟨1⟩ "echo" .empty 50 fleetingSteps .undo
  have hne : told ≠ [] := by
    rw [htold]
    exact List.cons_ne_nil _ _
  have h : t.Lands .undo := hlands.mp hne
  obtain ⟨-, hrecorders, -⟩ := (hdesk desk ⟨1⟩ htrace).1 h
  have htwice : (t.step .undo).1.subscriptions (.recorder ⟨0⟩) = 2 := by decide
  have hnever : (t.step .undo).1.subscriptions (.recorder ⟨1⟩) = 0 := by decide
  refine ⟨htrace, h, htold, ?_, ?_⟩
  · rw [hrecorders, htwice]
    rfl
  · rw [hrecorders, hnever]
    rfl

end RegionAtlas
