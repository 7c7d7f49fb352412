/-
  Desks by number — which traces and windows are found on a desk after each thing done to it.

  Everything on a desk happens to one trace or to one window, and listeners take note of it.  So a
  desk is known by what is found under its numbers:

    * a trace that something happens to is found as it is afterwards, every other as it was
      (`trace?_onTrace`);
    * a window is found as it was, having taken note if it is subscribed (`window?_onTrace`);
    * what windows do themselves is told by the two together (`trace?_deactivate`,
      `window?_deactivate`).

  All of this needs that traces are stored under their own numbers (`Housed`).
-/
import RegionAtlas.Proofs.Journal
import RegionAtlas.Proofs.Notification

namespace RegionAtlas

namespace Window

/-- Taking note changes nothing but how fresh a window is. -/
theorem hear_shown (w : Window) (t : TraceId) (changes : List Change) (now : Nat) :
    (w.hear t changes now).shown = w.shown := by
  unfold hear
  split <;> rfl

/-- A window that shows something else does not take note. -/
theorem hear_of_not_shows {w : Window} {t : TraceId} (h : w.shows t = false)
    (changes : List Change) (now : Nat) : w.hear t changes now = w := by
  rw [hear, h, Bool.and_false, if_neg Bool.false_ne_true]

/-- A change that touches no region is not taken note of. -/
theorem hear_of_untouched {changes : List Change} (h : changes.any (·.touchesRegion) = false)
    (w : Window) (t : TraceId) (now : Nat) : w.hear t changes now = w := by
  rw [hear, h, Bool.false_and, if_neg Bool.false_ne_true]

/-- A window that shows the trace owes a refresh after a change that touches regions. -/
theorem hear_of_shows {w : Window} {t : TraceId} {changes : List Change} (h : w.shows t = true)
    (htouched : changes.any (·.touchesRegion) = true) (now : Nat) :
    w.hear t changes now = { w with freshness := .pending now } := by
  rw [hear, h, htouched, Bool.and_true, if_pos rfl]

theorem shows_iff {w : Window} {t : TraceId} :
    w.shows t = true ↔ ∃ s, w.shown = some s ∧ s.trace = t := by
  unfold shows
  cases w.shown with
  | none =>
    constructor
    · intro h
      cases h
    · rintro ⟨s, hs, -⟩
      cases hs
  | some s =>
    constructor
    · intro h
      exact ⟨s, rfl, beq_iff_eq.mp h⟩
    · rintro ⟨s', hs', ht⟩
      cases hs'
      exact beq_iff_eq.mpr ht

/-- A refresh that nothing comes in between takes the rows over, and nothing is owed after it. -/
theorem refresh_eq (w : Window) (c : Contents) (s : Snap) :
    w.refresh c s =
      ({ w with
          rows := (c.regionsAt s).map Row.ofRegion
          freshness := .clean
          refreshes := w.refreshes + 1 }, true) := by
  show w.beginRefresh.endRefresh w.generation _ = _
  unfold endRefresh
  exact if_pos rfl

end Window

namespace Desk

variable {d : Desk}

/-! ## Traces and windows that are put on a desk -/

theorem trace?_setTrace (d : Desk) (t : Trace) (k : TraceId) :
    (d.setTrace t).trace? k = if t.id = k then some t else d.trace? k := by
  rw [trace?, setTrace, Table.find?_insert]
  simp only [Std.LawfulEqCmp.compare_eq_iff_eq]
  rfl

theorem window?_setWindow (d : Desk) (id : WindowId) (w : Window) (k : WindowId) :
    (d.setWindow id w).window? k = if id = k then some w else d.window? k := by
  rw [window?, setWindow, Table.find?_insert]
  simp only [Std.LawfulEqCmp.compare_eq_iff_eq]
  rfl

theorem window?_eraseWindow (d : Desk) (id k : WindowId) :
    Desk.window? { d with windows := d.windows.erase id } k =
      if id = k then none else d.window? k := by
  show (d.windows.erase id).find? k = _
  rw [Table.find?_erase]
  simp only [Std.LawfulEqCmp.compare_eq_iff_eq]
  rfl

/-- Of two windows put in one place the second stays. -/
theorem setWindow_setWindow (d : Desk) (id : WindowId) (w w' : Window) :
    (d.setWindow id w).setWindow id w' = d.setWindow id w' := by
  have hwindows : (d.windows.insert id w).insert id w' = d.windows.insert id w' := by
    refine Table.ext_find? fun k => ?_
    rw [Table.find?_insert, Table.find?_insert, Table.find?_insert]
    split <;> rfl
  show ({ d with windows := (d.windows.insert id w).insert id w' } : Desk) = _
  rw [hwindows]
  rfl

/-! ## Telling -/

/-- Telling listeners touches no trace, and makes neither traces nor windows. -/
theorem tellAll_keeps (d : Desk) (t : Trace) (changes : List Change) :
    (d.tellAll t changes).traces = d.traces ∧ (d.tellAll t changes).traceCount = d.traceCount ∧
      (d.tellAll t changes).windowCount = d.windowCount := by
  have hfold : ∀ (ls : List (SubscriptionId × Listener)) (d : Desk),
      (ls.foldl (fun d l => d.tell t changes l.2) d).traces = d.traces ∧
      (ls.foldl (fun d l => d.tell t changes l.2) d).traceCount = d.traceCount ∧
      (ls.foldl (fun d l => d.tell t changes l.2) d).windowCount = d.windowCount := by
    intro ls
    induction ls with
    | nil => exact fun d => ⟨rfl, rfl, rfl⟩
    | cons l rest ih =>
      intro d
      obtain ⟨htraces, htraceCount, hwindowCount⟩ := ih (d.tell t changes l.2)
      rw [List.foldl_cons, htraces, htraceCount, hwindowCount]
      cases l.2 <;> exact ⟨rfl, rfl, rfl⟩
  unfold tellAll
  split
  · exact ⟨rfl, rfl, rfl⟩
  · exact hfold t.listeners d

/-- A window has taken note of what is told if it is subscribed. -/
theorem window?_tellAll (d : Desk) (t : Trace) (changes : List Change) (k : WindowId) :
    (d.tellAll t changes).window? k =
      if t.subscriptions (.window k) = 0 then d.window? k
      else (d.window? k).map (·.hear t.id changes d.clock) := by
  by_cases hnone : changes = []
  · -- of nothing nobody takes note
    have hsame : (d.window? k).map (·.hear t.id [] d.clock) = d.window? k := by
      simp only [Window.hear_of_untouched List.any_nil, Option.map_id']
    rw [hnone, hsame, ite_self]
    rfl
  · exact (hears_tellAll d t hnone).windows k

/-! ## What happens to a trace -/

/-- **Every trace is stored under its own number.** -/
def Housed (d : Desk) : Prop := ∀ k t, d.trace? k = some t → t.id = k

section OnTrace

variable {α : Type} {id : TraceId} {t : Trace} {act : Trace → Trace × α} {told : α → List Change}

theorem onTrace_of_none (h : d.trace? id = none) : d.onTrace id act told = (d, none) := by
  rw [onTrace, h]

theorem onTrace_of_some (h : d.trace? id = some t) :
    d.onTrace id act told =
      ((d.setTrace (act t).1).tellAll (act t).1 (told (act t).2), some (act t).2) := by
  rw [onTrace, h]

/-- What happens to a trace makes neither traces nor windows. -/
theorem counts_onTrace (d : Desk) (id : TraceId) (act : Trace → Trace × α)
    (told : α → List Change) :
    (d.onTrace id act told).1.traceCount = d.traceCount ∧
      (d.onTrace id act told).1.windowCount = d.windowCount := by
  cases ht : d.trace? id with
  | none =>
    rw [onTrace_of_none ht]
    exact ⟨rfl, rfl⟩
  | some t =>
    rw [onTrace_of_some ht]
    exact (tellAll_keeps _ _ _).2

/-- **The trace is found as it is afterwards, and every other as it was.** -/
theorem trace?_onTrace (hd : d.Housed) (hid : ∀ t, (act t).1.id = t.id) (k : TraceId) :
    (d.onTrace id act told).1.trace? k =
      if id = k then (d.trace? k).map fun t => (act t).1 else d.trace? k := by
  cases ht : d.trace? id with
  | none =>
    rw [onTrace_of_none ht]
    split
    · next hk =>
      rw [← hk, ht]
      rfl
    · rfl
  | some t =>
    have htid : (act t).1.id = id := (hid t).trans (hd id t ht)
    rw [onTrace_of_some ht]
    show (Desk.tellAll _ _ _).traces.find? k = _
    rw [(tellAll_keeps _ _ _).1]
    show (d.setTrace (act t).1).trace? k = _
    rw [trace?_setTrace, htid]
    split
    · next hk =>
      rw [← hk, ht]
      rfl
    · rfl

/-- **A window is found as it was, having taken note if it is subscribed.** -/
theorem window?_onTrace (ht : d.trace? id = some t) (k : WindowId) :
    (d.onTrace id act told).1.window? k =
      if (act t).1.subscriptions (.window k) = 0 then d.window? k
      else (d.window? k).map (·.hear (act t).1.id (told (act t).2) d.clock) := by
  rw [onTrace_of_some ht]
  exact window?_tellAll _ _ _ k

/-- Of what tells nothing no window takes note. -/
theorem window?_onTrace_silent (hsilent : ∀ t, told (act t).2 = []) (k : WindowId) :
    (d.onTrace id act told).1.window? k = d.window? k := by
  cases ht : d.trace? id with
  | none => rw [onTrace_of_none ht]
  | some t =>
    rw [onTrace_of_some ht, hsilent]
    rfl

end OnTrace

/-! ## What windows do -/

/-- To which trace a window is tuned, and by which subscription. -/
def tuned? (d : Desk) (id : WindowId) : Option (TraceId × SubscriptionId) :=
  ((d.window? id).bind (·.shown)).map fun s => (s.trace, s.subscription)

theorem tuned?_eq_some {id : WindowId} {tid : TraceId} {sub : SubscriptionId} :
    d.tuned? id = some (tid, sub) ↔
      ∃ w s, d.window? id = some w ∧ w.shown = some s ∧ s.trace = tid ∧ s.subscription = sub := by
  unfold tuned?
  cases d.window? id with
  | none =>
    constructor
    · intro h
      cases h
    · rintro ⟨w, s, hw, -⟩
      cases hw
  | some w =>
    show w.shown.map _ = _ ↔ _
    rw [Option.map_eq_some_iff]
    constructor
    · rintro ⟨s, hs, heq⟩
      cases heq
      exact ⟨w, s, rfl, hs, rfl, rfl⟩
    · rintro ⟨w', s, hw, hs, rfl, rfl⟩
      cases hw
      exact ⟨s, hs, rfl⟩

/-- The window that is let show nothing is blank, and every other as it was. -/
theorem window?_deactivate (d : Desk) (id k : WindowId) :
    (d.deactivate id).window? k = if id = k then (d.window? k).map (·.clear) else d.window? k := by
  unfold deactivate
  cases hw : d.window? id with
  | none =>
    dsimp only
    split
    · next hk =>
      rw [← hk, hw]
      rfl
    · rfl
  | some w =>
    have hset : (d.setWindow id w.clear).window? k =
        if id = k then (d.window? k).map (·.clear) else d.window? k := by
      rw [window?_setWindow]
      split
      · next hk =>
        rw [← hk, hw]
        rfl
      · rfl
    dsimp only
    split
    · exact hset
    · rw [stepTrace, window?_onTrace_silent fun t => rfl]
      exact hset

/-- **The trace that it was tuned to has lost its subscription, and every other is as it was.** -/
theorem trace?_deactivate (hd : d.Housed) (id : WindowId) (k : TraceId) :
    (d.deactivate id).trace? k = (d.trace? k).map fun t =>
      match d.tuned? id with
      | some (tid, sub) => if tid = k then t.unsubscribe sub else t
      | none => t := by
  unfold deactivate
  cases hw : d.window? id with
  | none =>
    simp only [tuned?, hw, Option.bind_none, Option.map_none, Option.map_id']
  | some w =>
    cases hs : w.shown with
    | none =>
      simp only [tuned?, hw, hs, Option.bind_some, Option.map_none, Option.map_id']
      rfl
    | some s =>
      have hd' : (d.setWindow id w.clear).Housed := hd
      simp only [tuned?, hw, hs, Option.bind_some, Option.map_some, stepTrace]
      rw [trace?_onTrace hd' fun t => t.id_step _]
      show (if s.trace = k then (d.trace? k).map _ else d.trace? k) = _
      split
      · rfl
      · rw [Option.map_id']

theorem counts_deactivate (d : Desk) (id : WindowId) :
    (d.deactivate id).traceCount = d.traceCount ∧
      (d.deactivate id).windowCount = d.windowCount := by
  unfold deactivate
  split
  · exact ⟨rfl, rfl⟩
  · dsimp only
    split
    · exact ⟨rfl, rfl⟩
    · exact counts_onTrace _ _ _ _

end Desk

end RegionAtlas
