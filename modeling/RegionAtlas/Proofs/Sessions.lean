/-
  Sessions — the current trace and the window that follows it.

  Which trace is current is kept twice: the session keeps a name, its window the number of a trace.
  The two could part where a name is closed and opened again for another trace, or where something
  happens to a trace that is closed.  They do not:

  1. **What is called what never changes.**  Traces keep their names (`Trace.name_step`), and so do
     the traces of a desk, whatever happens on it (`Desk.named?_step`).

  2. **Nobody else turns the window.**  What it shows changes by the five steps that are about it
     and by no other (`Desk.view?_step`).

  3. **The invariant** — open traces are stored under their own names, and the window shows the
     trace that the current name stands for, at the snap last asked for (`Session.Scene.Follows`).
     It is kept one act at a time (`Follows.act`).  The crux is closing a trace that is not the
     current one: its name is another, so its number is another too, and the window stays.

  That an idle window has no rows is part of the order of desks (`Desk.Orderly`).
-/
import RegionAtlas.Proofs.Showing
import RegionAtlas.Session

namespace RegionAtlas

/-- Which trace a window shows, and at which snap. -/
def Window.view (w : Window) : Option (TraceId × Snap) := w.shown.map fun s => (s.trace, s.snap)

namespace Desk

variable {d : Desk}

/-- What a trace on a desk is called. -/
def named? (d : Desk) (k : TraceId) : Option String := (d.trace? k).map (·.name)

/-- Which trace a window on a desk shows, and at which snap. -/
def view? (d : Desk) (id : WindowId) : Option (Option (TraceId × Snap)) :=
  (d.window? id).map (·.view)

/-! ## 1. Names of traces -/

theorem named?_congr {d' : Desk} (h : d'.traces = d.traces) (k : TraceId) :
    d'.named? k = d.named? k := by rw [named?, named?, trace?, trace?, h]

theorem named?_onTrace {α : Type} {act : Trace → Trace × α} {told : α → List Change}
    (hd : d.Housed) (hid : ∀ t, (act t).1.id = t.id) (hname : ∀ t, (act t).1.name = t.name)
    (id k : TraceId) : (d.onTrace id act told).1.named? k = d.named? k := by
  rw [named?, named?, trace?_onTrace hd hid]
  split
  · rw [Option.map_map]
    exact congrArg (fun f => (d.trace? k).map f) (funext hname)
  · rfl

theorem named?_stepTrace (hd : d.Housed) (id : TraceId) (s : Trace.Step) (k : TraceId) :
    (d.stepTrace id s).1.named? k = d.named? k :=
  named?_onTrace hd (fun t => t.id_step s) (fun t => t.name_step s) id k

theorem named?_deactivate (hd : d.Housed) (id : WindowId) (k : TraceId) :
    (d.deactivate id).named? k = d.named? k := by
  unfold deactivate
  split
  · rfl
  · dsimp only
    split
    · rfl
    · exact named?_stepTrace (d := d.setWindow id _) hd _ _ k

theorem named?_activate (h : d.Orderly) (id : WindowId) (tid : TraceId) (snap : Snap)
    (k : TraceId) : (d.activate id tid snap).named? k = d.named? k := by
  rw [← named?_deactivate h.housed id]
  unfold activate
  dsimp only
  split
  · rfl
  · cases ht : (d.deactivate id).trace? tid with
    | none => rw [onTrace_of_none ht]
    | some t =>
      rw [← named?_stepTrace (h.deactivate id).housed tid (.subscribe (.window id)), stepTrace,
        onTrace_of_some ht, onTrace_of_some ht]
      rfl

theorem traces_refresh (d : Desk) (id : WindowId) : (d.refresh id).1.traces = d.traces := by
  unfold refresh
  split
  · rfl
  · split
    · rfl
    · split <;> rfl

theorem traces_setSnap (d : Desk) (id : WindowId) (snap : Snap) :
    (d.setSnap id snap).traces = d.traces := by
  unfold setSnap
  split
  · rfl
  · split
    · rfl
    · split
      · rfl
      · exact traces_refresh _ id

theorem named?_addTrace (h : d.Orderly) {name : String} {k : TraceId}
    (hk : d.named? k = some name) (name' : String) (c : Contents) (limit : Nat) :
    (d.addTrace name' c limit).1.named? k = some name := by
  obtain ⟨t, ht, rfl⟩ := Option.map_eq_some_iff.mp hk
  have hnew : (⟨d.traceCount + 1⟩ : TraceId) ≠ k := by
    rintro rfl
    exact Nat.not_succ_le_self _ (h.hosted _ t ht).given
  have hfound : (d.addTrace name' c limit).1.trace? k = d.trace? k :=
    (trace?_setTrace d (.ofContents ⟨d.traceCount + 1⟩ name' c limit) k).trans (if_neg hnew)
  rw [named?, hfound, ht]
  rfl

theorem named?_addTrace_self (d : Desk) (name : String) (c : Contents) (limit : Nat) :
    (d.addTrace name c limit).1.named? (d.addTrace name c limit).2 = some name := by
  have hfound : (d.addTrace name c limit).1.trace? ⟨d.traceCount + 1⟩ = _ :=
    (trace?_setTrace d (.ofContents ⟨d.traceCount + 1⟩ name c limit) _).trans (if_pos rfl)
  show Option.map _ ((d.addTrace name c limit).1.trace? ⟨d.traceCount + 1⟩) = _
  rw [hfound]
  rfl

/-- **Traces of a desk stay, and keep their names.** -/
theorem named?_step (h : d.Orderly) {name : String} {k : TraceId} (hk : d.named? k = some name)
    (s : Step) : (d.step s).named? k = some name := by
  cases s with
  | addTrace name' c limit => exact named?_addTrace h hk name' c limit
  | trace id s => exact (named?_stepTrace h.housed id s k).trans hk
  | activate id tid snap => exact (named?_activate h id tid snap k).trans hk
  | setSnap id snap => exact (named?_congr (traces_setSnap d id snap) k).trans hk
  | deactivate id => exact (named?_deactivate h.housed id k).trans hk
  | traceClosed id tid =>
    show (d.traceClosed id tid).named? k = _
    unfold traceClosed
    split
    · exact hk
    · split
      · exact (named?_deactivate h.housed id k).trans hk
      · exact hk
  | flush id =>
    show (d.flush id).1.named? k = _
    unfold flush
    split
    · exact hk
    · split
      · exact (named?_congr (traces_refresh d id) k).trans hk
      · exact hk
  | tick id now =>
    show (d.tick id now).1.named? k = _
    unfold tick
    split
    · exact hk
    · split
      · exact (named?_congr (traces_refresh d id) k).trans hk
      · exact hk
  | dropWindow id => exact (named?_deactivate h.housed id k).trans hk
  | addRecorder tid snap =>
    have hsubscribed : (d.onTrace tid (·.subscribe (.recorder ⟨d.recorderCount⟩))
        fun _ => []).1.named? k = d.named? k :=
      named?_onTrace h.housed (fun _ => rfl) (fun _ => rfl) tid k
    show (d.addRecorder tid snap).1.named? k = _
    unfold addRecorder
    dsimp only
    split
    · next heq =>
      rw [heq] at hsubscribed
      exact hsubscribed.trans hk
    · next heq =>
      rw [heq] at hsubscribed
      exact hsubscribed.trans hk
  | silence tid id =>
    show (d.silence tid id).named? k = _
    unfold silence
    split
    · exact hk
    · exact (named?_stepTrace h.housed _ _ k).trans hk
  | takeBatches id =>
    show (d.takeBatches id).1.named? k = _
    unfold takeBatches
    split <;> exact hk
  | addWindow delay => exact hk
  | wait milliseconds => exact hk

/-! ## 2. What a window shows -/

theorem view?_setWindow (d : Desk) (id : WindowId) (w : Window) (k : WindowId) :
    (d.setWindow id w).view? k = if id = k then some w.view else d.view? k := by
  rw [view?, window?_setWindow]
  split <;> rfl

/-- A window that is put back showing what it did. -/
theorem view?_setWindow_of_view {id : WindowId} {w w' : Window} (hw : d.window? id = some w)
    (hview : w'.view = w.view) (k : WindowId) : (d.setWindow id w').view? k = d.view? k := by
  rw [view?_setWindow]
  split
  · next hk => rw [← hk, view?, hw, hview, Option.map_some]
  · rfl

/-- Whatever happens to a trace, windows show what they did. -/
theorem view?_onTrace {α : Type} (d : Desk) (id : TraceId) (act : Trace → Trace × α)
    (told : α → List Change) (k : WindowId) : (d.onTrace id act told).1.view? k = d.view? k := by
  cases ht : d.trace? id with
  | none => rw [onTrace_of_none ht]
  | some t =>
    have hhear : ∀ w : Window, ∀ tid changes now, (w.hear tid changes now).view = w.view := by
      intro w tid changes now
      rw [Window.view, Window.view, w.hear_shown]
    rw [view?, view?, window?_onTrace ht]
    split
    · rfl
    · rw [Option.map_map]
      exact congrArg (fun f => (d.window? k).map f) (funext fun w => hhear w _ _ _)

theorem view?_deactivate (d : Desk) (id k : WindowId) :
    (d.deactivate id).view? k = if id = k then (d.view? k).map fun _ => none else d.view? k := by
  rw [view?, window?_deactivate]
  split
  · rw [view?, Option.map_map, Option.map_map]
    rfl
  · rfl

/-- **A window that is let show a trace shows it.** -/
theorem view?_activate (hd : d.Housed) {tid : TraceId} {name : String}
    (hname : d.named? tid = some name) {id : WindowId} {v : Option (TraceId × Snap)}
    (hv : d.view? id = some v) (snap : Snap) :
    (d.activate id tid snap).view? id = some (some (tid, snap)) := by
  have hblank : (d.deactivate id).view? id = some none := by
    rw [view?_deactivate, if_pos rfl, hv, Option.map_some]
  obtain ⟨w, hw, -⟩ := Option.map_eq_some_iff.mp hblank
  obtain ⟨t, ht, -⟩ := Option.map_eq_some_iff.mp ((named?_deactivate hd id tid).trans hname)
  unfold activate
  dsimp only
  rw [hw, onTrace_of_some ht]
  dsimp only
  rw [view?_setWindow, if_pos rfl, Window.display, Window.refresh_eq]
  rfl

theorem view?_activate_of_ne {id k : WindowId} (hne : id ≠ k) (tid : TraceId) (snap : Snap) :
    (d.activate id tid snap).view? k = d.view? k := by
  have hblank : (d.deactivate id).view? k = d.view? k := by rw [view?_deactivate, if_neg hne]
  unfold activate
  dsimp only
  split
  · exact hblank
  · cases ht : (d.deactivate id).trace? tid with
    | none =>
      rw [onTrace_of_none ht]
      exact hblank
    | some t =>
      rw [onTrace_of_some ht]
      dsimp only
      rw [view?_setWindow, if_neg hne]
      exact hblank

theorem view?_refresh (d : Desk) (id k : WindowId) : (d.refresh id).1.view? k = d.view? k := by
  unfold refresh
  cases hw : d.window? id with
  | none => rfl
  | some w =>
    dsimp only
    cases hs : w.shown with
    | none =>
      refine view?_setWindow_of_view hw ?_ k
      rw [Window.view, Window.view, hs]
    | some s =>
      dsimp only
      split
      · rfl
      · refine view?_setWindow_of_view hw ?_ k
        rw [Window.refresh_eq]
        rfl

/-- **A window that is moved to another snap** shows the trace that it showed. -/
theorem view?_setSnap (d : Desk) (id : WindowId) (snap : Snap) (k : WindowId) :
    (d.setSnap id snap).view? k =
      if id = k then (d.view? k).map (·.map fun v => (v.1, snap)) else d.view? k := by
  unfold setSnap
  cases hw : d.window? id with
  | none =>
    dsimp only
    split
    · next hk =>
      rw [← hk, view?, hw]
      rfl
    · rfl
  | some w =>
    have hview : d.view? id = some w.view := by rw [view?, hw, Option.map_some]
    dsimp only
    cases hs : w.shown with
    | none =>
      dsimp only
      split
      · next hk =>
        rw [← hk, hview, Window.view, hs]
        rfl
      · rfl
    | some s =>
      dsimp only
      split
      · next hsnap =>
        split
        · next hk =>
          rw [← hk, hview, Window.view, hs, ← hsnap]
          rfl
        · rfl
      · rw [view?_refresh, view?_setWindow]
        split
        · next hk =>
          rw [← hk, hview, Window.view, Window.view, hs]
          rfl
        · rfl

/-- **A window that shows the trace that is closed** comes to show nothing. -/
theorem view?_traceClosed (d : Desk) (id : WindowId) (tid : TraceId) (k : WindowId) :
    (d.traceClosed id tid).view? k =
      if id = k then (d.view? k).map (·.filter (·.1 != tid)) else d.view? k := by
  unfold traceClosed
  cases hw : d.window? id with
  | none =>
    dsimp only
    split
    · next hk =>
      rw [← hk, view?, hw]
      rfl
    · rfl
  | some w =>
    have hview : d.view? id = some w.view := by rw [view?, hw, Option.map_some]
    dsimp only
    split
    · next hshows =>
      obtain ⟨s, hs, rfl⟩ := Window.shows_iff.mp hshows
      rw [view?_deactivate]
      split
      · next hk =>
        rw [← hk, hview, Window.view, hs]
        simp [Option.filter]
      · rfl
    · next hshows =>
      split
      · next hk =>
        rw [← hk, hview, Window.view]
        cases hs : w.shown with
        | none => rfl
        | some s =>
          have hne : s.trace ≠ tid := fun heq => hshows (Window.shows_iff.mpr ⟨s, hs, heq⟩)
          simp [Option.filter, hne]
      · rfl

/-- The window that a step lets show something else. -/
def Step.turns? : Step → Option WindowId
  | .activate id _ _ | .setSnap id _ | .deactivate id | .traceClosed id _ | .dropWindow id =>
    some id
  | _ => none

/-- **No other step changes what a window shows.** -/
theorem view?_step (h : d.Orderly) {wid : WindowId} {v : Option (TraceId × Snap)}
    (hv : d.view? wid = some v) {s : Step} (hs : s.turns? ≠ some wid) :
    (d.step s).view? wid = some v := by
  have hother : ∀ {id : WindowId}, some id ≠ some wid → id ≠ wid := fun hne heq =>
    hne (congrArg some heq)
  cases s with
  | addTrace name c limit => exact hv
  | trace id s => exact (view?_onTrace d id _ _ wid).trans hv
  | addWindow delay =>
    obtain ⟨w, hw, -⟩ := Option.map_eq_some_iff.mp hv
    have hnew : (⟨d.windowCount⟩ : WindowId) ≠ wid := by
      rintro rfl
      exact Nat.lt_irrefl _ (h.given _ w hw)
    have hview := view?_setWindow d ⟨d.windowCount⟩ (.blank delay) wid
    rw [if_neg hnew] at hview
    exact hview.trans hv
  | activate id tid snap =>
    exact (view?_activate_of_ne (hother hs) tid snap).trans hv
  | setSnap id snap =>
    show (d.setSnap id snap).view? wid = _
    rw [view?_setSnap, if_neg (hother hs), hv]
  | deactivate id =>
    show (d.deactivate id).view? wid = _
    rw [view?_deactivate, if_neg (hother hs), hv]
  | traceClosed id tid =>
    show (d.traceClosed id tid).view? wid = _
    rw [view?_traceClosed, if_neg (hother hs), hv]
  | flush id =>
    show (d.flush id).1.view? wid = _
    unfold flush
    split
    · exact hv
    · split
      · exact (view?_refresh d id wid).trans hv
      · exact hv
  | tick id now =>
    show (d.tick id now).1.view? wid = _
    unfold tick
    split
    · exact hv
    · split
      · exact (view?_refresh d id wid).trans hv
      · exact hv
  | dropWindow id =>
    have hkept : (d.step (.dropWindow id)).window? wid = (d.deactivate id).window? wid := by
      show ((d.deactivate id).windows.erase id).find? wid = _
      rw [Table.find?_erase, if_neg fun heq => hother hs (Std.LawfulEqOrd.eq_of_compare heq)]
      rfl
    rw [view?, hkept]
    show (d.deactivate id).view? wid = _
    rw [view?_deactivate, if_neg (hother hs), hv]
  | addRecorder tid snap =>
    have hsubscribed := view?_onTrace d tid (·.subscribe (.recorder ⟨d.recorderCount⟩))
      (fun _ => []) wid
    show (d.addRecorder tid snap).1.view? wid = _
    unfold addRecorder
    dsimp only
    split
    · next heq =>
      rw [heq] at hsubscribed
      exact hsubscribed.trans hv
    · next heq =>
      rw [heq] at hsubscribed
      exact hsubscribed.trans hv
  | silence tid id =>
    show (d.silence tid id).view? wid = _
    unfold silence
    split
    · exact hv
    · exact (view?_onTrace d tid _ _ wid).trans hv
  | takeBatches id =>
    show (d.takeBatches id).1.view? wid = _
    unfold takeBatches
    split <;> exact hv
  | wait milliseconds => exact hv

end Desk

/-! ## 3. Sessions -/

namespace Session

/-- What can be done to a session, or beside it. -/
inductive Act where
  /-- Opens a trace that is on the desk. -/
  | openTrace (id : TraceId)
  | openListed (files : Files) (place : PlacedProject) (name : String)
  | activate (name : String) (snap : Snap)
  | activateSnap (snap : Snap)
  | deactivate
  | closeTrace (name : String)
  /-- Something else that happens on the desk, to any of its traces. -/
  | beside (s : Desk.Step)

/-- Whether an act leaves a window to the session whose window it is, and the subscriptions of
windows to the windows. -/
def Act.spares (wid : WindowId) : Act → Bool
  | beside s => s.isOrderly && s.turns? != some wid
  | _ => true

/-- A session on its desk. -/
structure Scene where
  desk : Desk
  session : Session
  /-- Which traces were asked to be shown, and at which snaps, the latest first. -/
  requests : List (TraceId × Snap)

namespace Scene

/-- A session is started. -/
def start (d : Desk) (settings : Settings) : Scene :=
  ⟨(Session.start d settings).1, (Session.start d settings).2, []⟩

/-- What an act asks to be shown. -/
def request? (x : Scene) : Act → Option (TraceId × Snap)
  | .activate name snap => (x.session.trace? name).map (·, snap)
  | .activateSnap snap => x.session.currentTrace?.map (·, snap)
  | _ => none

/-- What becomes of desk and session. -/
def perform (x : Scene) : Act → Desk × Session
  | .openTrace id =>
    match x.desk.trace? id with
    | none => (x.desk, x.session)
    | some t => (x.desk, (x.session.openTrace t.name id).1)
  | .openListed files place name =>
    match openListed x.desk x.session files place name with
    | .error _ => (x.desk, x.session)
    | .ok opened => (opened.desk, opened.session)
  | .activate name snap =>
    let (d, s, _) := x.session.activate x.desk name snap
    (d, s)
  | .activateSnap snap => (x.session.activateSnap x.desk snap, x.session)
  | .deactivate => x.session.deactivate x.desk
  | .closeTrace name =>
    let (d, s, _) := x.session.closeTrace x.desk name
    (d, s)
  | .beside s => (x.desk.step s, x.session)

def act (x : Scene) (a : Act) : Scene :=
  ⟨(x.perform a).1, (x.perform a).2, (x.request? a).toList ++ x.requests⟩

/-- The scene after a run of acts. -/
def run (x : Scene) (acts : List Act) : Scene := acts.foldl act x

/-- Which trace the session's window shows, and at which snap. -/
def view? (x : Scene) : Option (Option (TraceId × Snap)) := x.desk.view? x.session.window

/-- **The window follows the current trace.** -/
structure Follows (x : Scene) : Prop where
  orderly : x.desk.Orderly
  /-- Open traces are stored under their own names. -/
  named : ∀ name id, x.session.trace? name = some id → x.desk.named? id = some name
  idle : x.session.current = none → x.view? = some none
  /-- What the current name stands for is shown, at the snap last asked for. -/
  busy : ∀ name, x.session.current = some name → ∃ id snap, x.session.trace? name = some id ∧
    x.view? = some (some (id, snap)) ∧ x.requests.head? = some (id, snap)

variable {x : Scene}

theorem follows_start {d : Desk} (h : d.Orderly) (settings : Settings) :
    (start d settings).Follows where
  orderly := h.addWindow _
  named := by
    intro name id hopen
    cases hopen
  idle := by
    intro _
    show Desk.view? (d.setWindow ⟨d.windowCount⟩ (.blank _)) ⟨d.windowCount⟩ = _
    rw [Desk.view?_setWindow, if_pos rfl]
    rfl
  busy := by
    intro name hcurrent
    cases hcurrent

/-- **What opening a listed trace does**: nothing, or a trace is added to the desk and opened. -/
theorem perform_openListed (x : Scene) (files : Files) (place : PlacedProject) (name : String) :
    x.perform (.openListed files place name) = (x.desk, x.session) ∨
      ∃ c limit, x.perform (.openListed files place name) =
        ((x.desk.addTrace name c limit).1,
          (x.session.openTrace name (x.desk.addTrace name c limit).2).1) := by
  unfold perform
  dsimp only
  unfold openListed
  split
  · exact .inl rfl
  · next opened hopened =>
    split at hopened
    · cases hopened
      exact .inl rfl
    · split at hopened
      · cases hopened
      · split at hopened
        · cases hopened
        · next c _ =>
          cases hopened
          exact .inr ⟨c, x.session.undoLimit, rfl⟩

theorem trace?_insert (s : Session) (name name' : String) (id : TraceId) :
    ({ s with opened := s.opened.insert name id } : Session).trace? name' =
      if name = name' then some id else s.trace? name' := by
  show (s.opened.insert name id).find? name' = _
  rw [Table.find?_insert]
  simp only [Std.LawfulEqCmp.compare_eq_iff_eq]
  rfl

/-- **Opening a trace** under its name, where that is free. -/
theorem Follows.openTrace (h : x.Follows) {name : String} {id : TraceId}
    (hname : x.desk.named? id = some name) :
    Follows ⟨x.desk, (x.session.openTrace name id).1, x.requests⟩ := by
  unfold Session.openTrace
  cases hopen : x.session.trace? name with
  | some existing => exact h
  | none =>
    refine { orderly := h.orderly, named := ?_, idle := h.idle, busy := ?_ }
    · intro name' id' hfound
      rw [trace?_insert] at hfound
      split at hfound
      · next hsame =>
        cases hfound
        exact hsame ▸ hname
      · exact h.named name' id' hfound
    · intro current hcurrent
      obtain ⟨id', snap, hfound, hview, hrequest⟩ := h.busy current hcurrent
      refine ⟨id', snap, ?_, hview, hrequest⟩
      rw [trace?_insert, if_neg, hfound]
      rintro rfl
      rw [hopen] at hfound
      cases hfound

/-- What happens beside the session. -/
theorem Follows.beside (h : x.Follows) {s : Desk.Step} (horderly : s.isOrderly = true)
    (hspares : s.turns? ≠ some x.session.window) :
    Follows ⟨x.desk.step s, x.session, x.requests⟩ where
  orderly := h.orderly.step horderly
  named name id hopen := Desk.named?_step h.orderly (h.named name id hopen) s
  idle hnone := Desk.view?_step h.orderly (h.idle hnone) hspares
  busy name hcurrent := by
    obtain ⟨id, snap, hopen, hview, hrequest⟩ := h.busy name hcurrent
    exact ⟨id, snap, hopen, Desk.view?_step h.orderly hview hspares, hrequest⟩

/-- A window of the session shows something or nothing. -/
theorem Follows.exists_view (h : x.Follows) : ∃ v, x.view? = some v := by
  cases hcurrent : x.session.current with
  | none => exact ⟨none, h.idle hcurrent⟩
  | some name =>
    obtain ⟨id, snap, -, hview, -⟩ := h.busy name hcurrent
    exact ⟨_, hview⟩

theorem Follows.activate (h : x.Follows) (name : String) (snap : Snap) :
    (x.act (.activate name snap)).Follows := by
  unfold act perform request? Session.activate
  dsimp only
  cases hopen : x.session.trace? name with
  | none => exact h
  | some id =>
    obtain ⟨v, hv⟩ := h.exists_view
    refine { orderly := h.orderly.activate _ id snap, named := ?_, idle := ?_, busy := ?_ }
    · intro name' id' hopen'
      exact (Desk.named?_activate h.orderly _ id snap id').trans (h.named name' id' hopen')
    · intro hnone
      cases hnone
    · intro current hcurrent
      cases hcurrent
      exact ⟨id, snap, hopen,
        Desk.view?_activate h.orderly.housed (h.named name id hopen) hv snap, rfl⟩

theorem Follows.activateSnap (h : x.Follows) (snap : Snap) :
    (x.act (.activateSnap snap)).Follows := by
  unfold act perform request? Session.activateSnap Session.currentTrace?
  dsimp only
  cases hcurrent : x.session.current with
  | none => exact h
  | some name =>
    obtain ⟨id, snap₀, hopen, hview, -⟩ := h.busy name hcurrent
    rw [Option.isSome_some, if_pos rfl, Option.bind_some, hopen]
    refine { orderly := h.orderly.setSnap _ snap, named := ?_, idle := ?_, busy := ?_ }
    · intro name' id' hopen'
      exact (Desk.named?_congr (Desk.traces_setSnap _ _ snap) id').trans (h.named name' id' hopen')
    · intro hnone
      rw [hcurrent] at hnone
      cases hnone
    · intro current hcurrent'
      obtain rfl : name = current := Option.some.inj (hcurrent.symm.trans hcurrent')
      refine ⟨id, snap, hopen, ?_, rfl⟩
      show (x.desk.setSnap x.session.window snap).view? x.session.window = _
      rw [Desk.view?_setSnap, if_pos rfl]
      rw [Scene.view?] at hview
      rw [hview]
      rfl

theorem Follows.deactivate (h : x.Follows) : (x.act .deactivate).Follows := by
  obtain ⟨v, hv⟩ := h.exists_view
  refine { orderly := h.orderly.deactivate _, named := ?_, idle := ?_, busy := ?_ }
  · intro name id hopen
    exact (Desk.named?_deactivate h.orderly.housed _ id).trans (h.named name id hopen)
  · intro _
    show (x.desk.deactivate x.session.window).view? x.session.window = _
    rw [Scene.view?] at hv
    rw [Desk.view?_deactivate, if_pos rfl, hv]
    rfl
  · intro name hcurrent
    cases hcurrent

/-- **Closing a trace** takes it off the window if it is the current one.  Another one has another
name, and so another number: then the window stays as it is. -/
theorem Follows.closeTrace (h : x.Follows) (name : String) :
    (x.act (.closeTrace name)).Follows := by
  unfold act perform request? Session.closeTrace
  dsimp only
  cases hopen : x.session.trace? name with
  | none => exact h
  | some id =>
    have herase : ∀ name', (x.session.opened.erase name).find? name' =
        if name = name' then none else x.session.trace? name' := by
      intro name'
      rw [Table.find?_erase]
      simp only [Std.LawfulEqCmp.compare_eq_iff_eq]
      rfl
    have hview : ∀ v, x.view? = some v → (x.desk.traceClosed x.session.window id).view?
        x.session.window = some (v.filter (·.1 != id)) := by
      intro v hv
      rw [Scene.view?] at hv
      rw [Desk.view?_traceClosed, if_pos rfl, hv]
      rfl
    have horderly : (x.desk.traceClosed x.session.window id).Orderly :=
      h.orderly.step (s := .traceClosed x.session.window id) rfl
    refine { orderly := horderly, named := ?_, idle := ?_, busy := ?_ }
    · intro name' id' hopen'
      have hfound := (herase name').symm.trans hopen'
      split at hfound
      · cases hfound
      · exact Desk.named?_step h.orderly (h.named name' id' hfound)
          (.traceClosed x.session.window id)
    · intro hnone
      have hcleared : (if x.session.current = some name then none else x.session.current) = none :=
        hnone
      show (x.desk.traceClosed x.session.window id).view? x.session.window = _
      split at hcleared
      · next hcurrent =>
        obtain ⟨id', snap, hopen', hv, -⟩ := h.busy name hcurrent
        obtain rfl : id = id' := Option.some.inj (hopen.symm.trans hopen')
        rw [hview _ hv]
        simp [Option.filter]
      · rw [hview _ (h.idle hcleared)]
        rfl
    · intro current hcurrent
      have hkept : (if x.session.current = some name then none else x.session.current) =
          some current := hcurrent
      split at hkept
      · cases hkept
      · next hother =>
        obtain ⟨id', snap, hopen', hv, hrequest⟩ := h.busy current hkept
        have hnames : name ≠ current := by
          rintro rfl
          exact hother hkept
        -- a trace has one name, so what is closed is not what is shown
        have hids : id' ≠ id := by
          rintro rfl
          have hsame := (h.named name id' hopen).symm.trans (h.named current id' hopen')
          exact hnames (Option.some.inj hsame)
        refine ⟨id', snap, (herase current).trans ?_, ?_, hrequest⟩
        · rw [if_neg hnames, hopen']
        · show (x.desk.traceClosed x.session.window id).view? x.session.window = _
          rw [hview _ hv]
          simp [Option.filter, hids]

/-- **Every act leaves the window following the current trace.** -/
theorem Follows.act (h : x.Follows) {a : Act} (ha : a.spares x.session.window = true) :
    (x.act a).Follows := by
  cases a with
  | openTrace id =>
    unfold Scene.act perform
    dsimp only
    cases ht : x.desk.trace? id with
    | none => exact h
    | some t => exact h.openTrace (congrArg (·.map Trace.name) ht)
  | openListed files place name =>
    rcases x.perform_openListed files place name with hsame | ⟨c, limit, hadded⟩
    · unfold Scene.act
      rw [hsame]
      exact h
    · have hbeside : Follows ⟨x.desk.step (.addTrace name c limit), x.session, x.requests⟩ :=
        h.beside rfl (Option.some_ne_none _).symm
      unfold Scene.act
      rw [hadded]
      exact hbeside.openTrace (Desk.named?_addTrace_self x.desk name c limit)
  | activate name snap => exact h.activate name snap
  | activateSnap snap => exact h.activateSnap snap
  | deactivate => exact h.deactivate
  | closeTrace name => exact h.closeTrace name
  | beside s =>
    obtain ⟨horderly, hspares⟩ := Bool.and_eq_true_iff.mp ha
    exact h.beside horderly (bne_iff_ne.mp hspares)

/-! ### Runs -/

/-- The window of a session is the same throughout. -/
theorem window_act (x : Scene) (a : Act) : (x.act a).session.window = x.session.window := by
  have hopenTrace : ∀ name id, (x.session.openTrace name id).1.window = x.session.window := by
    intro name id
    unfold Session.openTrace
    split <;> rfl
  cases a with
  | openTrace id =>
    show (x.perform (.openTrace id)).2.window = _
    unfold perform
    dsimp only
    split
    · rfl
    · exact hopenTrace _ _
  | openListed files place name =>
    show (x.perform (.openListed files place name)).2.window = _
    rcases x.perform_openListed files place name with hsame | ⟨c, limit, hadded⟩
    · rw [hsame]
    · rw [hadded]
      exact hopenTrace _ _
  | activate name snap =>
    show (x.session.activate x.desk name snap).2.1.window = _
    unfold Session.activate
    split <;> rfl
  | activateSnap snap => rfl
  | deactivate => rfl
  | closeTrace name =>
    show (x.session.closeTrace x.desk name).2.1.window = _
    unfold Session.closeTrace
    split <;> rfl
  | beside s => rfl

/-- **A name stays with its trace until that is closed.** -/
theorem trace?_act {name : String} {id : TraceId} (hopen : x.session.trace? name = some id)
    {a : Act} (ha : a ≠ .closeTrace name) : (x.act a).session.trace? name = some id := by
  have hopenTrace : ∀ name' id', (x.session.openTrace name' id').1.trace? name = some id := by
    intro name' id'
    unfold Session.openTrace
    cases hfree : x.session.trace? name' with
    | some existing => exact hopen
    | none =>
      dsimp only
      rw [trace?_insert, if_neg, hopen]
      rintro rfl
      rw [hopen] at hfree
      cases hfree
  cases a with
  | openTrace id' =>
    show (x.perform (.openTrace id')).2.trace? name = _
    unfold perform
    dsimp only
    split
    · exact hopen
    · exact hopenTrace _ _
  | openListed files place name' =>
    show (x.perform (.openListed files place name')).2.trace? name = _
    rcases x.perform_openListed files place name' with hsame | ⟨c, limit, hadded⟩
    · rw [hsame]
      exact hopen
    · rw [hadded]
      exact hopenTrace _ _
  | activate name' snap =>
    show (x.session.activate x.desk name' snap).2.1.trace? name = _
    unfold Session.activate
    split <;> exact hopen
  | activateSnap snap => exact hopen
  | deactivate => exact hopen
  | closeTrace name' =>
    show (x.session.closeTrace x.desk name').2.1.trace? name = _
    unfold Session.closeTrace
    split
    · exact hopen
    · show (x.session.opened.erase name').find? name = _
      rw [Table.find?_erase, if_neg]
      · exact hopen
      · intro heq
        exact ha (congrArg Act.closeTrace (Std.LawfulEqOrd.eq_of_compare heq))
  | beside s => exact hopen

theorem Follows.run (h : x.Follows) {acts : List Act}
    (hacts : ∀ a ∈ acts, a.spares x.session.window = true) : (x.run acts).Follows := by
  induction acts generalizing x with
  | nil => exact h
  | cons a rest ih =>
    refine ih (h.act (hacts a List.mem_cons_self)) fun a' ha' => ?_
    rw [window_act]
    exact hacts a' (.tail a ha')

/-- **A session that is in step with its window.** -/
structure InStep (x : Scene) : Prop where
  /-- Open traces are stored under their own names. -/
  named : ∀ name id, x.session.trace? name = some id →
    ∃ t, x.desk.trace? id = some t ∧ t.id = id ∧ t.name = name
  /-- Names are not bound to other traces. -/
  kept : ∀ a name id, x.session.trace? name = some id → a ≠ .closeTrace name →
    (x.act a).session.trace? name = some id
  /-- The current trace is the open trace that the window shows. -/
  current : ∀ id, x.session.currentTrace? = some id ↔
    (∃ snap, x.view? = some (some (id, snap))) ∧ ∃ name, x.session.trace? name = some id
  /-- It is shown at the snap that was last asked for it. -/
  snap : ∀ id, x.session.currentTrace? = some id →
    ∃ request, x.requests.find? (·.1 == id) = some request ∧
      x.session.currentSnap? x.desk = some request.2
  /-- Without one nothing is shown. -/
  idle : x.session.currentTrace? = none → x.session.currentSnap? x.desk = none ∧
    ∃ w, x.desk.window? x.session.window = some w ∧ w.shown = none ∧ w.rows = []
  /-- Activating or closing what is not open changes nothing. -/
  unknown : ∀ name, x.session.trace? name = none →
    (∀ snap, x.act (.activate name snap) = x) ∧ x.act (.closeTrace name) = x
  /-- Nor does opening what is open by name. -/
  known : ∀ name id, x.session.trace? name = some id →
    (∀ k t, x.desk.trace? k = some t → t.name = name → x.act (.openTrace k) = x) ∧
    ∀ files place, x.act (.openListed files place name) = x

/-- The current trace and its snap. -/
theorem Follows.current_cases (h : x.Follows) :
    (x.session.current = none ∧ x.session.currentTrace? = none ∧ x.view? = some none) ∨
      ∃ name id snap, x.session.currentTrace? = some id ∧ x.session.trace? name = some id ∧
        x.view? = some (some (id, snap)) ∧ x.requests.head? = some (id, snap) := by
  cases hcurrent : x.session.current with
  | none =>
    refine .inl ⟨rfl, ?_, h.idle hcurrent⟩
    rw [currentTrace?, hcurrent]
    rfl
  | some name =>
    obtain ⟨id, snap, hopen, hview, hrequest⟩ := h.busy name hcurrent
    refine .inr ⟨name, id, snap, ?_, hopen, hview, hrequest⟩
    rw [currentTrace?, hcurrent]
    exact hopen

/-- What the window shows, in the words of the session. -/
theorem currentSnap?_of_view {v : Option (TraceId × Snap)} (hv : x.view? = some v) :
    x.session.currentSnap? x.desk = v.map (·.2) := by
  obtain ⟨w, hw, rfl⟩ := Option.map_eq_some_iff.mp hv
  rw [currentSnap?, hw, Option.bind_some, Window.view, Option.map_map]
  rfl

theorem Follows.inStep (h : x.Follows) : x.InStep where
  named name id hopen := by
    obtain ⟨t, ht, hname⟩ := Option.map_eq_some_iff.mp (h.named name id hopen)
    exact ⟨t, ht, h.orderly.housed id t ht, hname⟩
  kept a name id hopen ha := trace?_act hopen ha
  current id := by
    rcases h.current_cases with ⟨-, hnone, hview⟩ | ⟨name, id', snap, hsome, hopen, hview, -⟩
    · rw [hnone, hview]
      constructor
      · intro hid
        cases hid
      · rintro ⟨⟨snap, hsnap⟩, -⟩
        cases hsnap
    · rw [hsome, hview]
      constructor
      · intro hid
        cases hid
        exact ⟨⟨snap, rfl⟩, name, hopen⟩
      · rintro ⟨⟨snap', hsnap⟩, -⟩
        cases hsnap
        rfl
  snap id hid := by
    rcases h.current_cases with ⟨-, hnone, -⟩ | ⟨name, id', snap, hsome, -, hview, hrequest⟩
    · rw [hnone] at hid
      cases hid
    · obtain rfl : id' = id := Option.some.inj (hsome.symm.trans hid)
      obtain ⟨rest, hrequests⟩ := List.head?_eq_some_iff.mp hrequest
      refine ⟨(id', snap), ?_, currentSnap?_of_view hview⟩
      rw [hrequests]
      exact List.find?_cons_of_pos (beq_self_eq_true id')
  idle hidle := by
    rcases h.current_cases with ⟨-, -, hview⟩ | ⟨name, id', snap, hsome, -⟩
    · obtain ⟨w, hw, hnone⟩ := Option.map_eq_some_iff.mp hview
      have hshown : w.shown = none := Option.map_eq_none_iff.mp hnone
      exact ⟨currentSnap?_of_view hview, w, hw, hshown,
        ((h.orderly.reflects _ w hw).blank hshown).1⟩
    · rw [hsome] at hidle
      cases hidle
  unknown name hnone := by
    refine ⟨fun snap => ?_, ?_⟩
    · unfold Scene.act perform request? Session.activate
      dsimp only
      rw [hnone]
      rfl
    · unfold Scene.act perform request? Session.closeTrace
      dsimp only
      rw [hnone]
      rfl
  known name id hopen := by
    refine ⟨fun k t ht hname => ?_, fun files place => ?_⟩
    · unfold Scene.act perform request? Session.openTrace
      dsimp only
      rw [ht]
      dsimp only
      rw [hname, hopen]
      rfl
    · unfold Scene.act perform request? openListed
      dsimp only
      rw [hopen]
      rfl

end Scene

end Session

/-- **A session and its window stay in step**, whatever is done to the session and beside it: from
any desk in order on, with any traces on it, of the same name or not, opened, closed and opened
again in any order, while transactions go on in all of them, open or not. -/
theorem sessions_in_step (before : List Desk.Step) (settings : Settings)
    (acts : List Session.Act) (hbefore : Desk.empty.SparesAlong before)
    (hacts : ∀ a ∈ acts, a.spares
      (Session.Scene.start (Desk.empty.run before) settings).session.window = true) :
    ((Session.Scene.start (Desk.empty.run before) settings).run acts).InStep :=
  ((Session.Scene.follows_start (hbefore.orderly Desk.orderly_empty) settings).run hacts).inStep

/-- Two traces of one name, and a third. -/
def namesakeSteps : List Desk.Step :=
  [.addTrace "run" .empty 50, .addTrace "run" .empty 50, .addTrace "other" .empty 50]

/-- The second of the namesakes is not opened while the first is; it is when that has been closed,
and goes on to be shown while something happens to the first. -/
def namesakeActs : List Session.Act :=
  [.openTrace ⟨1⟩, .openTrace ⟨2⟩, .openTrace ⟨3⟩, .activate "run" 3, .activateSnap 5,
   .closeTrace "other", .activate "other" 4, .closeTrace "run", .openTrace ⟨2⟩, .activate "run" 7,
   .beside (.trace ⟨1⟩ (.begin "late")),
   .beside (.trace ⟨1⟩
     (.edit ⟨0⟩ (.createRegion "text" ⟨0x41000, 0x41fff, by decide⟩ 0 .readOnly))),
   .beside (.trace ⟨1⟩ (.commit ⟨0⟩)), .beside (.trace ⟨1⟩ .undo), .activateSnap 8,
   .openTrace ⟨1⟩]

/-- In the end the second is current and shown, at the snap last asked for. -/
theorem namesakes_in_step :
    let x := (Session.Scene.start (Desk.empty.run namesakeSteps) .standard).run namesakeActs
    x.session.opened.rows = [("run", ⟨2⟩)] ∧ x.session.currentTrace? = some ⟨2⟩ ∧
      x.requests = [(⟨2⟩, 8), (⟨2⟩, 7), (⟨1⟩, 5), (⟨1⟩, 3)] ∧
      x.session.currentSnap? x.desk = some 8 ∧ (∃ snap, x.view? = some (some (⟨2⟩, snap))) ∧
      x.act (.openTrace ⟨1⟩) = x ∧ x.act (.closeTrace "other") = x := by
  intro x
  have h : x.InStep :=
    sessions_in_step namesakeSteps .standard namesakeActs
      (Desk.sparesAlong_of_isOrderly (by decide)) (by decide)
  have hopened : x.session.opened.rows = [("run", ⟨2⟩)] := by decide +kernel
  have hcurrent : x.session.currentTrace? = some ⟨2⟩ := by decide +kernel
  have hrequests : x.requests = [(⟨2⟩, 8), (⟨2⟩, 7), (⟨1⟩, 5), (⟨1⟩, 3)] := by decide +kernel
  have hrun : x.session.trace? "run" = some ⟨2⟩ := by decide +kernel
  have hother : x.session.trace? "other" = none := by decide +kernel
  have hname : (x.desk.trace? ⟨1⟩).map (·.name) = some "run" := by decide +kernel
  obtain ⟨t, ht, hname⟩ := Option.map_eq_some_iff.mp hname
  obtain ⟨request, hlatest, hsnap⟩ := h.snap ⟨2⟩ hcurrent
  rw [hrequests] at hlatest
  obtain rfl : (⟨2⟩, 8) = request := Option.some.inj hlatest
  exact ⟨hopened, hcurrent, hrequests, hsnap, ((h.current ⟨2⟩).mp hcurrent).1,
    (h.known "run" ⟨2⟩ hrun).1 ⟨1⟩ t ht hname, (h.unknown "other" hother).2⟩

end RegionAtlas
