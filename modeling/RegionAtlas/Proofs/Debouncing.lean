/-
  Debouncing — a window owes a refresh exactly if regions of its trace were disturbed since its rows
  were computed, and its rows are computed exactly when that is asked for.

  Whether a refresh is owed is a flag, set by what the window hears and cleared by four operations,
  each of which may end early.  What it stands for is a matter of what happened and not of what is
  there: regions that were disturbed and put back make a refresh owed all the same.

  1. **What counts** (`Desk.Disturbs`) is said of contents: a commit, undo or redo that succeeds and
     after which some region is another.  It is what a window hears of
     (`Trace.Evolved.touches_iff`), since what is told is an account of the difference.

  2. **What a step does to a window** (`Desk.Fares`) is one of five things, and each of them says
     whether rows were computed and whether regions were disturbed (`Desk.Orderly.fares`).

  3. **The history** is read off a run at its last step: a refresh is owed after it if the step
     disturbs, or if one was owed before and the step computes no rows (`Desk.owes_concat_iff`).

  4. **The crux** — the last step changes flag and counter just as it changes the history, so they
     agree with it along every run (`Desk.Reckons`).  This needs the subscriptions of windows to be
     left to the windows: one that hears of nothing loses its changes.
-/
import Mathlib.Data.List.Induction
import RegionAtlas.Proofs.Showing

namespace RegionAtlas

/-! ## 1. What counts -/

/-- **What is told touches regions exactly if some region is another afterwards.** -/
theorem Trace.Evolved.touches_iff {t : Trace} (h : t.Evolved) (s : Trace.Step) :
    (t.step s).2.told.any (·.touchesRegion) = true ↔
      t.Lands s ∧ ∃ rid, (t.step s).1.contents.region? rid ≠ t.contents.region? rid := by
  constructor
  · intro htouched
    obtain ⟨change, hchange, htouches⟩ := List.any_eq_true.mp htouched
    refine ⟨?_, ?_⟩
    · by_contra hlands
      rw [(h.quiet hlands).2] at hchange
      cases hchange
    · have hbetween := ((h.accounts s).exact change).mp hchange
      cases change with
      | regionAdded rid =>
        obtain ⟨hnone, r, hr⟩ := hbetween
        refine ⟨rid, ?_⟩
        rw [hr, hnone]
        exact Option.some_ne_none r
      | regionChanged rid =>
        obtain ⟨r, r', hr, hr', hne⟩ := hbetween
        refine ⟨rid, ?_⟩
        rw [hr, hr']
        intro heq
        cases heq
        exact hne rfl
      | regionRemoved rid =>
        obtain ⟨⟨r, hr⟩, hnone⟩ := hbetween
        refine ⟨rid, ?_⟩
        rw [hr, hnone]
        exact (Option.some_ne_none r).symm
      | mappingAdded id => cases htouches
      | mappingRemoved id => cases htouches
  · rintro ⟨-, rid, hne⟩
    by_contra huntouched
    refine hne ?_
    rw [Contents.region?, Contents.region?, h.regions_step (Bool.not_eq_true _ ▸ huntouched)]

namespace Desk

/-- **A step that disturbs the regions of a trace**: a commit of something, an undo or a redo of it
that succeeds, after which a region is there that was not, is gone, or is another. -/
def Disturbs (d : Desk) (k : TraceId) : Step → Prop
  | .trace id s => id = k ∧ ∃ t, d.trace? id = some t ∧ t.Lands s ∧
      ∃ rid, (t.step s).1.contents.region? rid ≠ t.contents.region? rid
  | _ => False

/-- What a window shows. -/
def shown? (d : Desk) (wid : WindowId) : Option Shown := (d.window? wid).bind (·.shown)

/-- **Whether a step computes the rows of a window**: it is let show a trace, moved to another snap
of the one it shows, or refreshed by a flush or a tick. -/
def recomputes (d : Desk) (wid : WindowId) : Step → Bool
  | .activate id k _ => id == wid && (d.window? id).isSome && (d.trace? k).isSome
  | .setSnap id snap => id == wid && (d.shown? id).any (·.snap != snap)
  | .flush id => id == wid && (d.flush id).2
  | .tick id now => id == wid && (d.tick id now).2
  | _ => false

/-- How often the steps of a run compute the rows of a window. -/
def recomputations (d : Desk) (wid : WindowId) : List Step → Nat
  | [] => 0
  | s :: rest => (d.recomputes wid s).toNat + (d.step s).recomputations wid rest

/-- **A refresh is owed after a run**: there was a step that disturbed regions of the trace, and the
rows of the window were not computed after it. -/
def Owes (d : Desk) (wid : WindowId) (k : TraceId) (steps : List Step) : Prop :=
  ∃ before s after, steps = before ++ s :: after ∧ (d.run before).Disturbs k s ∧
    (d.run (before ++ [s])).recomputations wid after = 0

variable {d : Desk} {steps : List Step} {s : Step} {wid : WindowId}

theorem recomputations_append (d : Desk) (wid : WindowId) (xs ys : List Step) :
    d.recomputations wid (xs ++ ys) =
      d.recomputations wid xs + (d.run xs).recomputations wid ys := by
  induction xs generalizing d with
  | nil => exact (Nat.zero_add _).symm
  | cons s rest ih =>
    rw [List.cons_append, recomputations, recomputations, ih, Nat.add_assoc]
    rfl

theorem recomputations_concat (d : Desk) (wid : WindowId) (steps : List Step) (s : Step) :
    d.recomputations wid (steps ++ [s]) =
      d.recomputations wid steps + ((d.run steps).recomputes wid s).toNat :=
  d.recomputations_append wid steps [s]

/-- What comes after a step of a run, on the desk that the step leaves. -/
theorem run_run_concat (d : Desk) (before : List Step) (s : Step) (after : List Step) :
    (d.run (before ++ [s])).run after = d.run (before ++ s :: after) := by
  rw [← run_append, List.append_assoc]
  rfl

/-- **Whether a refresh is owed is settled by the last step**, where it does not hang on what was
before. -/
theorem owes_concat_iff {k : TraceId} :
    d.Owes wid k (steps ++ [s]) ↔
      (d.run steps).Disturbs k s ∨
        (d.Owes wid k steps ∧ (d.run steps).recomputes wid s = false) := by
  constructor
  · rintro ⟨before, s', after, heq, hdisturbs, hnone⟩
    rcases List.eq_nil_or_concat after with rfl | ⟨after', s'', rfl⟩
    · obtain ⟨rfl, hs⟩ := List.append_inj' heq rfl
      cases hs
      exact .inl hdisturbs
    · rw [List.concat_eq_append] at heq hnone
      have heq' : steps ++ [s] = (before ++ s' :: after') ++ [s''] := by
        rw [heq, List.append_assoc]
        rfl
      obtain ⟨rfl, hs⟩ := List.append_inj' heq' rfl
      cases hs
      rw [recomputations_concat, run_run_concat, Nat.add_eq_zero_iff] at hnone
      obtain ⟨hbefore, hlast⟩ := hnone
      exact .inr ⟨⟨before, s', after', rfl, hdisturbs, hbefore⟩, Bool.toNat_eq_zero.mp hlast⟩
  · rintro (hdisturbs | ⟨⟨before, s', after, rfl, hdisturbs, hnone⟩, hrests⟩)
    · exact ⟨steps, s, [], rfl, hdisturbs, rfl⟩
    · refine ⟨before, s', after ++ [s], ?_, hdisturbs, ?_⟩
      · rw [List.append_assoc]
        rfl
      · rw [recomputations_concat, run_run_concat, hnone, hrests]
        rfl

end Desk

/-! ## 2. What a step does to a window -/

/-- A window whose rows were computed once more, and that owes nothing. -/
structure Window.Renewed (w w' : Window) : Prop where
  clean : w'.freshness = .clean
  once : w'.refreshes = w.refreshes + 1

/-- A refresh renews, whatever else has become of the window before. -/
theorem Window.renewed_refresh {w v : Window} (hcount : v.refreshes = w.refreshes) (c : Contents)
    (snap : Snap) : w.Renewed (v.refresh c snap).1 := by
  rw [refresh_eq]
  exact ⟨rfl, congrArg (· + 1) hcount⟩

theorem Window.isPending_iff {w : Window} :
    w.isPending = true ↔ ∃ since, w.freshness = .pending since := by
  unfold isPending
  split
  · next since hpending => exact iff_of_true rfl ⟨since, hpending⟩
  · next hnot => exact iff_of_false Bool.false_ne_true fun ⟨since, h⟩ => hnot since h

theorem Window.hasSettled_iff {w : Window} {now : Nat} :
    w.hasSettled now = true ↔ ∃ since, w.freshness = .pending since ∧ w.delay ≤ now - since := by
  unfold hasSettled
  split
  · next since hpending =>
    rw [hpending, decide_eq_true_iff]
    constructor
    · exact fun hle => ⟨since, rfl, hle⟩
    · rintro ⟨since', heq, hle⟩
      cases heq
      exact hle
  · next hnot => exact iff_of_false Bool.false_ne_true fun ⟨since, h, _⟩ => hnot since h

/-- What has settled is pending. -/
theorem Window.isPending_of_hasSettled {w : Window} {now : Nat} (h : w.hasSettled now = true) :
    w.isPending = true := by
  obtain ⟨since, hpending, -⟩ := hasSettled_iff.mp h
  exact isPending_iff.mpr ⟨since, hpending⟩

namespace Desk

/-- **What a step does to a window**: it is added, left as it is, marked because regions of its
trace were disturbed, let show nothing, or its rows are computed. -/
inductive Fares (d : Desk) (wid : WindowId) (s : Step) (w' : Window) : Prop where
  | added (number : wid = ⟨d.windowCount⟩) (blank : ∃ delay, w' = .blank delay)
      (rests : d.recomputes wid s = false)
  | left (found : d.window? wid = some w') (rests : d.recomputes wid s = false)
      (undisturbed : ∀ sh, w'.shown = some sh → ¬ d.Disturbs sh.trace s)
  | marked {w : Window} {sh : Shown} (found : d.window? wid = some w) (shown : w.shown = some sh)
      (disturbed : d.Disturbs sh.trace s) (marked : w' = { w with freshness := .pending d.clock })
      (rests : d.recomputes wid s = false)
  | cleared {w : Window} (found : d.window? wid = some w) (cleared : w' = w.clear)
      (rests : d.recomputes wid s = false)
  | computed {w : Window} (found : d.window? wid = some w) (renewed : w.Renewed w')
      (computed : d.recomputes wid s = true) (undisturbed : ∀ k, ¬ d.Disturbs k s)

/-- **How a window answers when it is asked to refresh**: nothing happens, or it is refreshed and
says so. -/
inductive Answers (d : Desk) (id : WindowId) (w : Window) (asked : Bool) : Desk × Bool → Prop where
  | no (unasked : asked = false) : Answers d id w asked (d, false)
  | yes {w'' : Window} (wanted : asked = true) (renewed : w.Renewed w'') :
      Answers d id w asked (d.setWindow id w'', true)

namespace Answers

variable {d : Desk} {id : WindowId} {w : Window} {asked : Bool} {out : Desk × Bool}

theorem said_iff (h : d.Answers id w asked out) : out.2 = true ↔ asked = true := by
  cases h with
  | no hunasked =>
    rw [hunasked]
  | yes hasked _ =>
    rw [hasked]

/-- A window that says it was refreshed is found renewed. -/
theorem exists_renewed (h : d.Answers id w asked out) (hsaid : out.2 = true) :
    ∃ w'', out.1.window? id = some w'' ∧ w.Renewed w'' := by
  cases h with
  | no _ => cases hsaid
  | yes _ hrenewed =>
    refine ⟨_, ?_, hrenewed⟩
    rw [window?_setWindow, if_pos rfl]

end Answers

section Fares

variable {d : Desk} {s : Step} {id wid : WindowId} {w w' w'' : Window}

/-- A step that computes the rows of one window, and leaves the others. -/
theorem fares_of_renewed (hw : d.window? id = some w) (hrenewed : w.Renewed w'')
    (hfound : (d.step s).window? wid = if id = wid then some w'' else d.window? wid)
    (hcomputes : d.recomputes wid s = (id == wid)) (hundisturbed : ∀ k, ¬ d.Disturbs k s)
    (hw' : (d.step s).window? wid = some w') : d.Fares wid s w' := by
  rw [hfound] at hw'
  split at hw'
  · next hid =>
    subst hid
    cases hw'
    exact .computed hw hrenewed (hcomputes.trans BEq.rfl) hundisturbed
  · next hid =>
    have hrests : d.recomputes wid s = false := hcomputes.trans (beq_eq_false_iff_ne.mpr hid)
    exact .left hw' hrests fun sh _ => hundisturbed sh.trace

/-- A step that touches no window. -/
theorem fares_of_kept (hkept : (d.step s).window? wid = d.window? wid)
    (hrests : d.recomputes wid s = false) (hundisturbed : ∀ k, ¬ d.Disturbs k s)
    (hw' : (d.step s).window? wid = some w') : d.Fares wid s w' :=
  .left (hkept ▸ hw') hrests fun sh _ => hundisturbed sh.trace

/-- A step that lets one window show nothing, and leaves the others. -/
theorem fares_of_deactivate (id : WindowId)
    (hstep : (d.step s).window? wid = (d.deactivate id).window? wid)
    (hrests : d.recomputes wid s = false) (hundisturbed : ∀ k, ¬ d.Disturbs k s)
    (hw' : (d.step s).window? wid = some w') : d.Fares wid s w' := by
  rw [hstep, window?_deactivate] at hw'
  split at hw'
  · obtain ⟨w, hw, rfl⟩ := Option.map_eq_some_iff.mp hw'
    exact .cleared hw rfl hrests
  · exact .left hw' hrests fun sh _ => hundisturbed sh.trace

namespace Orderly

/-- **A window is marked by what happens to a trace exactly if regions of the trace that it shows
are disturbed**, and is left as it is otherwise. -/
theorem window?_trace_cases (h : d.Orderly) {id : TraceId} {s : Trace.Step}
    (hs : d.Spares (.trace id s)) (hw : d.window? wid = some w) :
    (∃ sh, w.shown = some sh ∧ d.Disturbs sh.trace (.trace id s) ∧
        (d.stepTrace id s).1.window? wid = some { w with freshness := .pending d.clock }) ∨
      ((∀ sh, w.shown = some sh → ¬ d.Disturbs sh.trace (.trace id s)) ∧
        (d.stepTrace id s).1.window? wid = some w) := by
  cases ht : d.trace? id with
  | none =>
    refine .inr ⟨?_, ?_⟩
    · rintro sh - ⟨-, t, ht', -⟩
      rw [ht] at ht'
      cases ht'
    · rw [Desk.stepTrace, onTrace_of_none ht]
      exact hw
  | some t =>
    have hheard : (d.stepTrace id s).1.window? wid =
        some (w.hear id (t.step s).2.told d.clock) := by
      rw [h.window?_stepTrace ht (mem_listeners_step hs ht), hw]
      rfl
    have htouches := (h.hosted id t ht).evolved.touches_iff s
    rw [hheard]
    cases htouched : (t.step s).2.told.any (·.touchesRegion) with
    | false =>
      rw [Window.hear_of_untouched htouched]
      refine .inr ⟨?_, rfl⟩
      rintro sh - ⟨-, t', ht', hothers⟩
      obtain rfl : t = t' := Option.some.inj (ht.symm.trans ht')
      rw [htouches.mpr hothers] at htouched
      cases htouched
    | true =>
      cases hshows : w.shows id with
      | false =>
        rw [Window.hear_of_not_shows hshows]
        refine .inr ⟨?_, rfl⟩
        rintro sh hsh ⟨hid, -⟩
        rw [Window.shows_iff.mpr ⟨sh, hsh, hid.symm⟩] at hshows
        cases hshows
      | true =>
        rw [Window.hear_of_shows hshows htouched]
        obtain ⟨sh, hsh, hid⟩ := Window.shows_iff.mp hshows
        exact .inl ⟨sh, hsh, ⟨hid.symm, t, ht, htouches.mp htouched⟩, rfl⟩

theorem fares_trace (h : d.Orderly) {id : TraceId} {s : Trace.Step}
    (hs : d.Spares (.trace id s)) (hw' : (d.stepTrace id s).1.window? wid = some w') :
    d.Fares wid (.trace id s) w' := by
  cases hw : d.window? wid with
  | none =>
    cases ht : d.trace? id with
    | none =>
      rw [Desk.stepTrace, onTrace_of_none ht, hw] at hw'
      cases hw'
    | some t =>
      rw [h.window?_stepTrace ht (mem_listeners_step hs ht), hw] at hw'
      cases hw'
  | some w =>
    rcases h.window?_trace_cases hs hw with ⟨sh, hsh, hdisturbs, hmarked⟩ | ⟨hnot, hkept⟩
    · rw [hmarked] at hw'
      cases hw'
      exact .marked hw hsh hdisturbs rfl rfl
    · rw [hkept] at hw'
      cases hw'
      exact .left hw rfl hnot

/-- Where there is no such window or no such trace, nothing is shown afterwards. -/
theorem activate_of_missing (h : d.Orderly) {tid : TraceId}
    (hmissing : d.window? id = none ∨ d.trace? tid = none) (snap : Snap) :
    d.activate id tid snap = d.deactivate id := by
  have hwindow := window?_deactivate d id id
  have htrace := trace?_deactivate h.housed id tid
  rw [if_pos rfl] at hwindow
  unfold Desk.activate
  dsimp only
  rcases hmissing with hnone | hnone
  · rw [hnone] at hwindow
    rw [hwindow]
    rfl
  · rw [hnone] at htrace
    split
    · rfl
    · rw [onTrace_of_none htrace]

/-- Where there are both, the window displays the trace and the others are left. -/
theorem activate_of_found (h : d.Orderly) {tid : TraceId} {t : Trace}
    (hw : d.window? id = some w) (ht : d.trace? tid = some t) (snap : Snap) :
    ∃ sub c, ∀ k, (d.activate id tid snap).window? k =
      if id = k then some (w.clear.display ⟨tid, snap, sub⟩ c) else d.window? k := by
  have hwindow := window?_deactivate d id
  have hcleared : (d.deactivate id).window? id = some w.clear := by
    rw [hwindow, if_pos rfl, hw]
    rfl
  obtain ⟨t', ht'⟩ : ∃ t', (d.deactivate id).trace? tid = some t' := by
    rw [trace?_deactivate h.housed, ht]
    exact ⟨_, rfl⟩
  refine ⟨⟨t'.nextSubscription⟩, t'.contents, fun k => ?_⟩
  unfold Desk.activate
  dsimp only
  rw [hcleared]
  dsimp only
  rw [onTrace_of_some ht']
  refine (window?_setWindow _ id _ k).trans ?_
  split
  · rfl
  · next hk =>
    show (d.deactivate id).window? k = _
    rw [hwindow, if_neg hk]

/-- A window that is let show a trace computes its rows, if there are the window and the trace. -/
theorem fares_activate (h : d.Orderly) {tid : TraceId} {snap : Snap}
    (hw' : (d.activate id tid snap).window? wid = some w') :
    d.Fares wid (.activate id tid snap) w' := by
  have hcomputes : d.recomputes wid (.activate id tid snap) =
      (id == wid && (d.window? id).isSome && (d.trace? tid).isSome) := rfl
  cases hw : d.window? id with
  | none =>
    rw [hw, Option.isSome_none, Bool.and_false, Bool.false_and] at hcomputes
    have hsame := h.activate_of_missing (.inl hw : _ ∨ d.trace? tid = none) snap
    exact fares_of_deactivate id (congrArg (Desk.window? · wid) hsame) hcomputes
      (fun _ hd => hd) hw'
  | some w =>
    cases ht : d.trace? tid with
    | none =>
      rw [ht, Option.isSome_none, Bool.and_false] at hcomputes
      have hsame := h.activate_of_missing (.inr ht : d.window? id = none ∨ _) snap
      exact fares_of_deactivate id (congrArg (Desk.window? · wid) hsame) hcomputes
        (fun _ hd => hd) hw'
    | some t =>
      rw [hw, ht, Option.isSome_some, Option.isSome_some, Bool.and_true, Bool.and_true] at hcomputes
      obtain ⟨sub, c, hfound⟩ := h.activate_of_found hw ht snap
      have hrenewed : w.Renewed (w.clear.display ⟨tid, snap, sub⟩ c) :=
        Window.renewed_refresh (w := w) (v := w.clear.turnTo _) rfl c snap
      exact fares_of_renewed hw hrenewed (hfound wid) hcomputes (fun _ hd => hd) hw'

/-- **A window that owes a refresh can be refreshed**, for it shows a trace that is there. -/
theorem refresh_of_pending (h : d.Orderly) (hw : d.window? id = some w)
    (hpending : w.isPending = true) :
    ∃ w'', d.refresh id = (d.setWindow id w'', true) ∧ w.Renewed w'' := by
  have hreflects : w.Reflects d := h.reflects id w hw
  cases hs : w.shown with
  | none =>
    obtain ⟨since, hsince⟩ := Window.isPending_iff.mp hpending
    rw [(hreflects.blank hs).2] at hsince
    cases hsince
  | some sh =>
    obtain ⟨t, ht⟩ := hreflects.present sh hs
    exact ⟨_, refresh_of_shown hw hs ht, Window.renewed_refresh rfl t.contents sh.snap⟩

/-- **A window that is asked to refresh answers**, if it is asked only when it owes a refresh. -/
theorem answers_of_pending (h : d.Orderly) (hw : d.window? id = some w) {asked : Bool}
    (hasked : asked = true → w.isPending = true) :
    d.Answers id w asked (if asked = true then d.refresh id else (d, false)) := by
  cases asked with
  | false => exact .no rfl
  | true =>
    obtain ⟨w'', hrefresh, hrenewed⟩ := h.refresh_of_pending hw (hasked rfl)
    rw [if_pos rfl, hrefresh]
    exact .yes rfl hrenewed

theorem answers_flush (h : d.Orderly) (hw : d.window? id = some w) :
    d.Answers id w w.isPending (d.flush id) := by
  rw [flush, hw]
  exact h.answers_of_pending hw fun hpending => hpending

theorem answers_tick (h : d.Orderly) (hw : d.window? id = some w) (now : Nat) :
    d.Answers id w (w.hasSettled now) (d.tick id now) := by
  rw [tick, hw]
  exact h.answers_of_pending hw Window.isPending_of_hasSettled

end Orderly

/-- A window that is asked to refresh computes its rows exactly if it says so. -/
theorem fares_of_answers {asked : Window → Bool} {out : Desk × Bool} (hstep : d.step s = out.1)
    (hcomputes : d.recomputes wid s = (id == wid && out.2)) (hundisturbed : ∀ k, ¬ d.Disturbs k s)
    (hmissing : d.window? id = none → out = (d, false))
    (hanswers : ∀ w, d.window? id = some w → d.Answers id w (asked w) out)
    (hw' : (d.step s).window? wid = some w') : d.Fares wid s w' := by
  have hidle : out = (d, false) → d.Fares wid s w' := by
    rintro rfl
    exact fares_of_kept (congrArg (Desk.window? · wid) hstep)
      (hcomputes.trans (Bool.and_false _)) hundisturbed hw'
  cases hw : d.window? id with
  | none => exact hidle (hmissing hw)
  | some w =>
    cases hanswers w hw with
    | no _ => exact hidle rfl
    | yes _ hrenewed =>
      refine fares_of_renewed hw hrenewed ?_ (hcomputes.trans (Bool.and_true _)) hundisturbed hw'
      rw [hstep, window?_setWindow]

namespace Orderly

theorem fares_flush (h : d.Orderly) (hw' : (d.flush id).1.window? wid = some w') :
    d.Fares wid (.flush id) w' := by
  refine fares_of_answers rfl rfl (fun _ hd => hd) (fun hnone => ?_)
    (fun w hw => h.answers_flush hw) hw'
  rw [flush, hnone]

theorem fares_tick (h : d.Orderly) {now : Nat} (hw' : (d.tick id now).1.window? wid = some w') :
    d.Fares wid (.tick id now) w' := by
  refine fares_of_answers rfl rfl (fun _ hd => hd) (fun hnone => ?_)
    (fun w hw => h.answers_tick hw now) hw'
  rw [tick, hnone]

/-- A window that shows nothing, or the snap already, is not moved. -/
theorem setSnap_of_stays {snap : Snap} (hstays : (d.shown? id).any (·.snap != snap) = false) :
    d.setSnap id snap = d := by
  unfold Desk.setSnap
  split
  · rfl
  · next w hw =>
    split
    · rfl
    · next sh hs =>
      rw [shown?, hw, Option.bind_some, hs, Option.any_some, bne_eq_false_iff_eq] at hstays
      exact if_pos hstays

/-- A window that is moved to another snap of the trace it shows computes its rows. -/
theorem fares_setSnap (h : d.Orderly) {snap : Snap}
    (hw' : (d.setSnap id snap).window? wid = some w') : d.Fares wid (.setSnap id snap) w' := by
  have hcomputes : d.recomputes wid (.setSnap id snap) =
      (id == wid && (d.shown? id).any (·.snap != snap)) := rfl
  cases hmoves : (d.shown? id).any (·.snap != snap) with
  | false =>
    rw [hmoves, Bool.and_false] at hcomputes
    exact fares_of_kept (congrArg (Desk.window? · wid) (setSnap_of_stays hmoves)) hcomputes
      (fun _ hd => hd) hw'
  | true =>
    rw [hmoves, Bool.and_true] at hcomputes
    obtain ⟨sh, hshown, hne⟩ := (Option.any_eq_true _ _).mp hmoves
    obtain ⟨w, hw, hs⟩ := Option.bind_eq_some_iff.mp hshown
    obtain ⟨t, ht⟩ := (h.reflects id w hw).present sh hs
    have hmoved := setSnap_of_shown hw hs ht (bne_iff_ne.mp hne)
    have hrenewed := Window.renewed_refresh (w := w)
      (v := w.turnTo (some { sh with snap := snap })) rfl t.contents snap
    refine fares_of_renewed hw hrenewed ?_ hcomputes (fun _ hd => hd) hw'
    show (d.setSnap id snap).window? wid = _
    rw [hmoved, window?_setWindow]

/-- **Every step does one of these five things to a window.** -/
theorem fares (h : d.Orderly) (hs : d.Spares s) (hw' : (d.step s).window? wid = some w') :
    d.Fares wid s w' := by
  cases s with
  | addTrace name contents limit => exact fares_of_kept rfl rfl (fun _ hd => hd) hw'
  | trace id s => exact h.fares_trace hs hw'
  | addWindow delay =>
    have hfound : (d.addWindow delay).1.window? wid =
        if (⟨d.windowCount⟩ : WindowId) = wid then some (.blank delay) else d.window? wid :=
      window?_setWindow d ⟨d.windowCount⟩ (.blank delay) wid
    have hadded := hfound.symm.trans hw'
    split at hadded
    · next hid =>
      cases hadded
      exact .added hid.symm ⟨delay, rfl⟩ rfl
    · exact .left hadded rfl fun _ _ hd => hd
  | activate id tid snap => exact h.fares_activate hw'
  | setSnap id snap => exact h.fares_setSnap hw'
  | deactivate id => exact fares_of_deactivate id rfl rfl (fun _ hd => hd) hw'
  | traceClosed id tid =>
    have hcases : d.traceClosed id tid = d ∨ d.traceClosed id tid = d.deactivate id := by
      unfold traceClosed
      split
      · exact .inl rfl
      · split
        · exact .inr rfl
        · exact .inl rfl
    rcases hcases with hsame | hclosed
    · exact fares_of_kept (congrArg (Desk.window? · wid) hsame) rfl (fun _ hd => hd) hw'
    · exact fares_of_deactivate id (congrArg (Desk.window? · wid) hclosed) rfl (fun _ hd => hd) hw'
  | flush id => exact h.fares_flush hw'
  | tick id now => exact h.fares_tick hw'
  | dropWindow id =>
    have herased := (window?_eraseWindow (d.deactivate id) id wid).symm.trans hw'
    split at herased
    · cases herased
    · next hid =>
      rw [window?_deactivate, if_neg hid] at herased
      exact .left herased rfl fun _ _ hd => hd
  | addRecorder tid snap =>
    refine fares_of_kept ?_ rfl (fun _ hd => hd) hw'
    have hkept : (d.onTrace tid (·.subscribe (.recorder ⟨d.recorderCount⟩)) fun _ => []).1.window?
        wid = d.window? wid := window?_onTrace_silent (fun _ => rfl) wid
    show (d.addRecorder tid snap).1.window? wid = _
    unfold Desk.addRecorder
    dsimp only
    split
    · next heq =>
      rw [heq] at hkept
      exact hkept
    · next heq =>
      rw [heq] at hkept
      exact hkept
  | silence id k =>
    refine fares_of_kept ?_ rfl (fun _ hd => hd) hw'
    show (d.silence id k).window? wid = _
    unfold silence
    split
    · rfl
    · exact window?_onTrace_silent (fun _ => rfl) wid
  | takeBatches k =>
    refine fares_of_kept ?_ rfl (fun _ hd => hd) hw'
    show (d.takeBatches k).1.window? wid = _
    unfold takeBatches
    split <;> rfl
  | wait milliseconds => exact fares_of_kept rfl rfl (fun _ hd => hd) hw'

end Orderly

end Fares

/-! ## 3. The history -/

/-- A window whose rows are computed is there. -/
theorem exists_of_recomputes {d : Desk} {wid : WindowId} {s : Step}
    (h : d.recomputes wid s = true) : ∃ w, d.window? wid = some w := by
  rw [← Option.isSome_iff_exists]
  cases s with
  | activate id tid snap =>
    rw [recomputes, Bool.and_eq_true, Bool.and_eq_true, beq_iff_eq] at h
    obtain ⟨⟨rfl, hwindow⟩, -⟩ := h
    exact hwindow
  | setSnap id snap =>
    rw [recomputes, Bool.and_eq_true, beq_iff_eq] at h
    obtain ⟨rfl, hmoves⟩ := h
    obtain ⟨sh, hshown, -⟩ := (Option.any_eq_true _ _).mp hmoves
    obtain ⟨w, hw, -⟩ := Option.bind_eq_some_iff.mp hshown
    rw [hw]
    rfl
  | flush id =>
    rw [recomputes, Bool.and_eq_true, beq_iff_eq] at h
    obtain ⟨rfl, hflush⟩ := h
    unfold flush at hflush
    split at hflush
    · cases hflush
    · next w hw =>
      rw [hw]
      rfl
  | tick id now =>
    rw [recomputes, Bool.and_eq_true, beq_iff_eq] at h
    obtain ⟨rfl, htick⟩ := h
    unfold tick at htick
    split at htick
    · cases htick
    · next w hw =>
      rw [hw]
      rfl
  | _ => cases h

/-- A refresh makes no windows. -/
theorem windowCount_refresh (d : Desk) (id : WindowId) :
    (d.refresh id).1.windowCount = d.windowCount := by
  unfold refresh
  split
  · rfl
  · split
    · rfl
    · split <;> rfl

/-- Nor does what happens to a trace. -/
theorem windowCount_of_onTrace {α : Type} {d : Desk} {id : TraceId} {act : Trace → Trace × α}
    {told : α → List Change} {out : Desk × Option α} (h : d.onTrace id act told = out) :
    out.1.windowCount = d.windowCount := by
  rw [← h]
  exact (counts_onTrace d id act told).2

theorem windowCount_activate (d : Desk) (id : WindowId) (tid : TraceId) (snap : Snap) :
    (d.activate id tid snap).windowCount = d.windowCount := by
  have hblank := (counts_deactivate d id).2
  unfold activate
  dsimp only
  split
  · exact hblank
  · split
    · next heq => exact (windowCount_of_onTrace heq).trans hblank
    · next heq => exact (windowCount_of_onTrace heq).trans hblank

theorem windowCount_asked (d : Desk) (id : WindowId) (asked : Bool) :
    (if asked = true then d.refresh id else (d, false)).1.windowCount = d.windowCount := by
  split
  · exact windowCount_refresh d id
  · rfl

/-- **A number that was given to a window stays given.** -/
theorem windowCount_step (d : Desk) (s : Step) : d.windowCount ≤ (d.step s).windowCount := by
  have hkeeps : ∀ {d' : Desk}, d'.windowCount = d.windowCount → d.windowCount ≤ d'.windowCount :=
    fun h => Nat.le_of_eq h.symm
  cases s with
  | addTrace name contents limit => exact Nat.le_refl _
  | trace id s => exact hkeeps (counts_onTrace d id _ _).2
  | addWindow delay => exact Nat.le_succ _
  | activate id tid snap => exact hkeeps (windowCount_activate d id tid snap)
  | setSnap id snap =>
    show _ ≤ (d.setSnap id snap).windowCount
    unfold setSnap
    split
    · exact Nat.le_refl _
    · split
      · exact Nat.le_refl _
      · split
        · exact Nat.le_refl _
        · exact hkeeps (windowCount_refresh _ id)
  | deactivate id => exact hkeeps (counts_deactivate d id).2
  | traceClosed id tid =>
    show _ ≤ (d.traceClosed id tid).windowCount
    unfold traceClosed
    split
    · exact Nat.le_refl _
    · split
      · exact hkeeps (counts_deactivate d id).2
      · exact Nat.le_refl _
  | flush id =>
    show _ ≤ (d.flush id).1.windowCount
    unfold flush
    split
    · exact Nat.le_refl _
    · exact hkeeps (windowCount_asked d id _)
  | tick id now =>
    show _ ≤ (d.tick id now).1.windowCount
    unfold tick
    split
    · exact Nat.le_refl _
    · exact hkeeps (windowCount_asked d id _)
  | dropWindow id => exact hkeeps (counts_deactivate d id).2
  | addRecorder tid snap =>
    show _ ≤ (d.addRecorder tid snap).1.windowCount
    unfold addRecorder
    dsimp only
    split
    · next heq =>
      have hcount := windowCount_of_onTrace heq
      exact hkeeps hcount
    · next heq =>
      have hcount := windowCount_of_onTrace heq
      exact hkeeps hcount
  | silence id k =>
    show _ ≤ (d.silence id k).windowCount
    unfold silence
    split
    · exact Nat.le_refl _
    · exact hkeeps (counts_onTrace d id _ _).2
  | takeBatches k =>
    show _ ≤ (d.takeBatches k).1.windowCount
    unfold takeBatches
    split <;> exact Nat.le_refl _
  | wait milliseconds => exact Nat.le_refl _

/-! ### Along a run -/

section Run

variable {d : Desk} {steps : List Step} {s : Step} {wid : WindowId} {w w' : Window}

/-- **The counter of a window grows by one exactly if its rows are computed.** -/
theorem Fares.refreshes_eq (h : d.Fares wid s w') :
    (∃ w, d.window? wid = some w ∧ w'.refreshes = w.refreshes + (d.recomputes wid s).toNat) ∨
      (wid = ⟨d.windowCount⟩ ∧ w'.refreshes = 0 ∧ d.recomputes wid s = false) := by
  cases h with
  | added hnumber hblank hrests =>
    obtain ⟨delay, rfl⟩ := hblank
    exact .inr ⟨hnumber, rfl, hrests⟩
  | left hw hrests _ =>
    refine .inl ⟨w', hw, ?_⟩
    rw [hrests]
    rfl
  | marked hw _ _ hmarked hrests =>
    refine .inl ⟨_, hw, ?_⟩
    rw [hrests, hmarked]
    rfl
  | cleared hw hcleared hrests =>
    refine .inl ⟨_, hw, ?_⟩
    rw [hrests, hcleared]
    rfl
  | computed hw hrenewed hcomputed _ =>
    refine .inl ⟨_, hw, ?_⟩
    rw [hcomputed]
    exact hrenewed.once

/-- **The flag of a window that shows something**: clear where its rows are computed, and otherwise
set if it was set or the step disturbs. -/
theorem Fares.isPending_cases (h : d.Fares wid s w') {sh : Shown} (hshown : w'.shown = some sh) :
    (d.recomputes wid s = true ∧ w'.isPending = false ∧ ¬ d.Disturbs sh.trace s) ∨
      (d.recomputes wid s = false ∧ ∃ w, d.window? wid = some w ∧ w.shown = some sh ∧
        (w'.isPending = true ↔ d.Disturbs sh.trace s ∨ w.isPending = true)) := by
  cases h with
  | added _ hblank _ =>
    obtain ⟨delay, rfl⟩ := hblank
    cases hshown
  | left hw hrests hundisturbed =>
    exact .inr ⟨hrests, w', hw, hshown, (or_iff_right (hundisturbed sh hshown)).symm⟩
  | marked hw hs hdisturbs hmarked hrests =>
    rw [hmarked] at hshown ⊢
    obtain rfl := Option.some.inj (hs.symm.trans hshown)
    exact .inr ⟨hrests, _, hw, hs, iff_of_true rfl (.inl hdisturbs)⟩
  | cleared _ hcleared _ =>
    rw [hcleared] at hshown
    cases hshown
  | computed _ hrenewed hcomputed hundisturbed =>
    refine .inl ⟨hcomputed, ?_, hundisturbed sh.trace⟩
    rw [Window.isPending, hrenewed.clean]

/-- **Flag and counter agree with the history** of a run from the beginning. -/
structure Reckons (steps : List Step) : Prop where
  counted : ∀ wid w, (empty.run steps).window? wid = some w →
    w.refreshes = empty.recomputations wid steps
  /-- Of a window that is still to be added no rows were computed. -/
  unborn : ∀ wid : WindowId, (empty.run steps).windowCount ≤ wid.raw →
    empty.recomputations wid steps = 0
  owed : ∀ wid w sh, (empty.run steps).window? wid = some w → w.shown = some sh →
    (w.isPending = true ↔ empty.Owes wid sh.trace steps)

theorem reckons_nil : Reckons [] where
  counted wid w hw := by cases hw
  unborn _ _ := rfl
  owed wid w sh hw := by cases hw

/-- Any further step keeps them in agreement. -/
theorem Reckons.concat (h : Reckons steps) (hd : (empty.run steps).Orderly)
    (hs : (empty.run steps).Spares s) : Reckons (steps ++ [s]) where
  counted wid w' hw' := by
    rw [run_concat] at hw'
    rw [recomputations_concat]
    rcases (hd.fares hs hw').refreshes_eq with ⟨w, hw, heq⟩ | ⟨rfl, heq, hrests⟩
    · rw [heq, h.counted wid w hw]
    · rw [heq, hrests, h.unborn _ (Nat.le_refl _)]
      rfl
  unborn wid hcount := by
    rw [run_concat] at hcount
    have hbefore : (empty.run steps).windowCount ≤ wid.raw :=
      Nat.le_trans (windowCount_step _ s) hcount
    have hrests : (empty.run steps).recomputes wid s = false := by
      rw [← Bool.not_eq_true]
      intro hcomputes
      obtain ⟨w, hw⟩ := exists_of_recomputes hcomputes
      exact Nat.not_lt_of_le hbefore (hd.given wid w hw)
    rw [recomputations_concat, h.unborn wid hbefore, hrests]
    rfl
  owed wid w' sh hw' hshown := by
    rw [run_concat] at hw'
    rw [owes_concat_iff]
    rcases (hd.fares hs hw').isPending_cases hshown with
      ⟨hcomputed, hclear, hundisturbed⟩ | ⟨hrests, w, hw, hs, hpending⟩
    · rw [hclear, hcomputed]
      exact iff_of_false Bool.false_ne_true fun h => h.elim hundisturbed fun h => nomatch h.2
    · rw [hpending, h.owed wid w sh hw hs, hrests, and_iff_left rfl]

theorem reckons (hspared : empty.SparesAlong steps) : Reckons steps := by
  induction steps using List.reverseRecOn with
  | nil => exact reckons_nil
  | append_singleton steps s ih =>
    obtain ⟨hsteps, hs⟩ := sparesAlong_concat_iff.mp hspared
    exact (ih hsteps).concat (hsteps.orderly orderly_empty) hs

end Run

end Desk

/-! ## 4. Every run -/

/-- **A window loses no change and repeats no refresh.**  After every run of steps that spare the
subscriptions of windows, over any number of traces and windows: a window that shows a trace owes a
refresh exactly if regions of that trace were disturbed since its rows were last computed, and steps
of traces that disturb none of them leave it as it is.  A flush refreshes exactly if that is owed, a
tick if the changes have settled besides, and nothing is owed then.  The window has been refreshed
as often as its rows were computed, each next step that computes them counts one and no other does,
and so a burst of changes is paid for by one flush. -/
theorem windows_refreshed_as_owed (steps : List Desk.Step) (hspared : Desk.empty.SparesAlong steps)
    (wid : WindowId) (w : Window) (hw : (Desk.empty.run steps).window? wid = some w) :
    let d := Desk.empty.run steps
    (∀ sh, w.shown = some sh → (w.isPending = true ↔ Desk.empty.Owes wid sh.trace steps)) ∧
    (∀ id s, d.Spares (.trace id s) →
      (∀ sh, w.shown = some sh → ¬ d.Disturbs sh.trace (.trace id s)) →
        (d.step (.trace id s)).window? wid = some w) ∧
    ((d.flush wid).2 = true ↔ w.isPending = true) ∧
    (∀ now, (d.tick wid now).2 = true ↔
      ∃ since, w.freshness = .pending since ∧ w.delay ≤ now - since) ∧
    ((d.flush wid).2 = true →
      ∃ w', (d.flush wid).1.window? wid = some w' ∧ w'.freshness = .clean) ∧
    (∀ now, (d.tick wid now).2 = true →
      ∃ w', (d.tick wid now).1.window? wid = some w' ∧ w'.freshness = .clean) ∧
    w.refreshes = Desk.empty.recomputations wid steps ∧
    (∀ s, d.Spares s → ∀ w', (d.step s).window? wid = some w' →
      w'.refreshes = w.refreshes + (d.recomputes wid s).toNat) ∧
    ∀ burst, Desk.empty.SparesAlong (steps ++ burst) → d.recomputations wid burst = 0 →
      ∀ w', (d.run burst).window? wid = some w' → w'.isPending = true →
        ∃ w'', ((d.run burst).flush wid).1.window? wid = some w'' ∧
          w''.freshness = .clean ∧ w''.refreshes = w.refreshes + 1 := by
  intro d
  have hd : d.Orderly := hspared.orderly Desk.orderly_empty
  have hreckons : Desk.Reckons steps := Desk.reckons hspared
  have hflush : d.Answers wid w w.isPending (d.flush wid) := hd.answers_flush hw
  have htick := hd.answers_tick hw
  refine ⟨fun sh hsh => hreckons.owed wid w sh hw hsh, fun id s hs hquiet => ?_, hflush.said_iff,
    fun now => (htick now).said_iff.trans Window.hasSettled_iff, fun hsaid => ?_,
    fun now hsaid => ?_, hreckons.counted wid w hw, fun s hs w' hw' => ?_,
    fun burst hspared' hrests w' hw' hpending => ?_⟩
  · rcases hd.window?_trace_cases hs hw with ⟨sh, hsh, hdisturbs, -⟩ | ⟨-, hkept⟩
    · exact absurd hdisturbs (hquiet sh hsh)
    · exact hkept
  · obtain ⟨w'', hfound, hrenewed⟩ := hflush.exists_renewed hsaid
    exact ⟨w'', hfound, hrenewed.clean⟩
  · obtain ⟨w'', hfound, hrenewed⟩ := (htick now).exists_renewed hsaid
    exact ⟨w'', hfound, hrenewed.clean⟩
  · rcases (hd.fares hs hw').refreshes_eq with ⟨w₀, hw₀, heq⟩ | ⟨rfl, -, -⟩
    · obtain rfl : w = w₀ := Option.some.inj (hw.symm.trans hw₀)
      exact heq
    · exact absurd (hd.given _ w hw) (Nat.lt_irrefl _)
  · have hrun : Desk.empty.run (steps ++ burst) = d.run burst := Desk.run_append _ _ _
    have hd' : (d.run burst).Orderly := hrun ▸ hspared'.orderly Desk.orderly_empty
    have hcount : w'.refreshes = w.refreshes := by
      rw [(Desk.reckons hspared').counted wid w' (hrun ▸ hw'), Desk.recomputations_append,
        hreckons.counted wid w hw]
      exact congrArg (_ + ·) hrests
    have hpaid := hd'.answers_flush hw'
    obtain ⟨w'', hfound, hrenewed⟩ := hpaid.exists_renewed (hpaid.said_iff.mpr hpending)
    exact ⟨w'', hfound, hrenewed.clean, by rw [hrenewed.once, hcount]⟩

/-- A region that is committed, undone and redone at once; then a mapping, a region of another trace
and an aborted transaction. -/
def flurrySteps : List Desk.Step :=
  let region (base : String) : Edit :=
    .createRegion base ⟨0x19000, 0x19fff, by decide⟩ 0 ⟨true, false, true⟩
  [.addTrace "left" .empty 50, .addTrace "right" .empty 50, .addWindow 20, .activate ⟨0⟩ ⟨1⟩ 0,
   .trace ⟨1⟩ (.begin "map"), .trace ⟨1⟩ (.edit ⟨0⟩ (region "text")), .trace ⟨1⟩ (.commit ⟨0⟩),
   .trace ⟨1⟩ .undo, .trace ⟨1⟩ .redo, .flush ⟨0⟩,
   .trace ⟨1⟩ (.begin "place"),
   .trace ⟨1⟩ (.edit ⟨1⟩ (.addMapping ⟨0x19000, 0x19fff, by decide⟩ (.since 2) "echo" ⟨"ram", 0⟩)),
   .trace ⟨1⟩ (.commit ⟨1⟩),
   .trace ⟨2⟩ (.begin "map"), .trace ⟨2⟩ (.edit ⟨0⟩ (region "text")), .trace ⟨2⟩ (.commit ⟨0⟩),
   .trace ⟨1⟩ (.begin "drop"), .trace ⟨1⟩ (.edit ⟨2⟩ (region "data")), .trace ⟨1⟩ (.abort ⟨2⟩)]

/-- Takes the mapping and the region back, and puts the region there again. -/
def swingSteps : List Desk.Step := [.trace ⟨1⟩ .undo, .trace ⟨1⟩ .undo, .trace ⟨1⟩ .redo]

/-- The window has been refreshed when it was let show the trace and by the flush, and owes nothing.
That the region is taken back and put there again is worth one more. -/
theorem flurry_refreshed_as_owed :
    let d := Desk.empty.run flurrySteps
    ∃ w, d.window? ⟨0⟩ = some w ∧ w.shown = some ⟨⟨1⟩, 0, ⟨0⟩⟩ ∧ w.refreshes = 2 ∧
      ¬ Desk.empty.Owes ⟨0⟩ ⟨1⟩ flurrySteps ∧ (d.flush ⟨0⟩).2 = false ∧
      Desk.empty.Owes ⟨0⟩ ⟨1⟩ (flurrySteps ++ swingSteps) ∧
      ∃ w'', ((d.run swingSteps).flush ⟨0⟩).1.window? ⟨0⟩ = some w'' ∧
        w''.freshness = .clean ∧ w''.refreshes = 3 := by
  intro d
  have hparts : (d.window? ⟨0⟩).map (fun w => (w.shown, w.isPending)) =
      some (some ⟨⟨1⟩, 0, ⟨0⟩⟩, false) := by decide
  have hparts' : ((d.run swingSteps).window? ⟨0⟩).map (fun w => (w.shown, w.isPending)) =
      some (some ⟨⟨1⟩, 0, ⟨0⟩⟩, true) := by decide
  have hspared : Desk.empty.SparesAlong flurrySteps := Desk.sparesAlong_of_isOrderly (by decide)
  have hspared' : Desk.empty.SparesAlong (flurrySteps ++ swingSteps) :=
    Desk.sparesAlong_of_isOrderly (by decide)
  obtain ⟨w, hw, hfound⟩ := Option.map_eq_some_iff.mp hparts
  obtain ⟨hshown, hclear⟩ := Prod.mk.inj hfound
  obtain ⟨w', hw', hfound'⟩ := Option.map_eq_some_iff.mp hparts'
  obtain ⟨hshown', hpending⟩ := Prod.mk.inj hfound'
  have hrun : (Desk.empty.run (flurrySteps ++ swingSteps)).window? ⟨0⟩ = some w' := by
    rw [Desk.run_append]
    exact hw'
  obtain ⟨howed, -, hflush, -, -, -, hcount, -, hburst⟩ :=
    windows_refreshed_as_owed flurrySteps hspared ⟨0⟩ w hw
  obtain ⟨howed', -⟩ := windows_refreshed_as_owed _ hspared' ⟨0⟩ w' hrun
  have htwo : w.refreshes = 2 := hcount.trans (by decide)
  obtain ⟨w'', hw'', hclean, honce⟩ := hburst swingSteps hspared' (by decide) w' hw' hpending
  refine ⟨w, hw, hshown, htwo, fun h => ?_, ?_, (howed' _ hshown').mp hpending, w'', hw'', hclean,
    honce.trans (congrArg (· + 1) htwo)⟩
  · rw [(howed _ hshown).mpr h] at hclear
    cases hclear
  · rw [← Bool.not_eq_true]
    intro h
    rw [hflush.mp h] at hclear
    cases hclear

end RegionAtlas
