/-
  Showing — a window that says it is up to date is.

  A window computes its rows when it is told to, and in between it only takes note of changes.  Why
  its rows are those of the trace's contents whenever it is `clean`:

  1. **Nothing is missed.**  A step of a trace after which other regions are there tells its
     listeners of a change that touches a region (`Trace.Evolved.regions_step`): what is told is an
     account of the difference, so where none of it is about regions the regions are the same.

  2. **The right ones hear of it.**  The window subscriptions of a trace are exactly those of the
     windows that show it (`Desk.Orderly.tuned`), so whatever a window is let show, and in whatever
     order, it loses the old subscription and gains one new.

  3. **The crux** — one invariant with both in it (`Desk.Orderly`), kept by every step that leaves
     the subscriptions of windows to the windows (`Desk.Spares`): a step of a trace makes the
     windows that show it owe a refresh or leaves their rows right, and a step of a window computes
     its rows from the contents in force.

  Whoever silences a subscription by its number alone can take a window's away, which is why a run
  has to spare those (`Desk.SparesAlong`).
-/
import RegionAtlas.Proofs.Desks

namespace RegionAtlas

/-! ## 1. Traces that change -/

namespace Trace

/-- A trace that some run of steps leads to. -/
def Evolved (t : Trace) : Prop :=
  ∃ id name c limit steps, t = (Trace.ofContents id name c limit).run steps

namespace Evolved

variable {t : Trace}

theorem start (id : TraceId) (name : String) (c : Contents) (limit : Nat) :
    (Trace.ofContents id name c limit).Evolved := ⟨id, name, c, limit, [], rfl⟩

theorem step (h : t.Evolved) (s : Step) : (t.step s).1.Evolved := by
  obtain ⟨id, name, c, limit, steps, rfl⟩ := h
  refine ⟨id, name, c, limit, steps ++ [s], ?_⟩
  rw [run_append]
  rfl

/-- The subscriptions of a trace have numbers of their own. -/
theorem subscribed (h : t.Evolved) : t.Subscribed := by
  obtain ⟨id, name, c, limit, steps, rfl⟩ := h
  have hstart : (Trace.ofContents id name c limit).Subscribed :=
    ⟨List.nodup_nil, fun l hl => absurd hl List.not_mem_nil⟩
  exact subscribed_run hstart steps

/-- What does not land changes no contents and tells nothing. -/
theorem quiet (h : t.Evolved) {s : Step} (hs : ¬ t.Lands s) :
    (t.step s).1.contents = t.contents ∧ (t.step s).2.told = [] := by
  obtain ⟨id, name, c, limit, steps, rfl⟩ := h
  obtain ⟨ht, ha⟩ := course_ofContents id name c limit steps
  exact quiet_of_not_lands ht ha hs

/-- **What a step tells is an account of the difference it makes**, also where there is none. -/
theorem accounts (h : t.Evolved) (s : Step) :
    Accounts (t.step s).2.told t.contents (t.step s).1.contents := by
  by_cases hlands : t.Lands s
  · obtain ⟨id, name, c, limit, steps, rfl⟩ := h
    obtain ⟨ht, ha⟩ := course_ofContents id name c limit steps
    obtain ⟨raw, hraw⟩ := tellsDifference_of_lands ht ha
      (drafts_ofContents Operation.closes_upheld id name c limit steps)
      (commands_ofContents Operation.closes_upheld id name c limit steps) hlands
    exact hraw.accounts
  · obtain ⟨hcontents, hnil⟩ := h.quiet hlands
    rw [hnil, hcontents]
    exact accounts_nil _

/-- **Where nothing is told about regions the regions are the same.** -/
theorem regions_step (h : t.Evolved) {s : Step}
    (huntouched : (t.step s).2.told.any (·.touchesRegion) = false) :
    (t.step s).1.contents.regions = t.contents.regions := by
  refine Table.ext_find? fun rid => (h.accounts s).regions rid fun change hchange hsubject => ?_
  have htouches : change.touchesRegion = true := by
    rw [Change.touchesRegion, hsubject]
  exact absurd htouches (List.any_eq_false.mp huntouched change hchange)

end Evolved

/-- **A trace stored under a number**: it is its own, it has been given out, and the trace is one
that a run leads to. -/
structure Hosted (t : Trace) (k : TraceId) (count : Nat) : Prop where
  own : t.id = k
  given : k.raw ≤ count
  evolved : t.Evolved

theorem Hosted.step {t : Trace} {k : TraceId} {count : Nat} (h : t.Hosted k count) (s : Step) :
    (t.step s).1.Hosted k count :=
  ⟨(t.id_step s).trans h.own, h.given, h.evolved.step s⟩

/-- A listener with one subscription is subscribed once. -/
theorem Subscribed.subscriptions_eq_one {t : Trace} (h : t.Subscribed) {sub : SubscriptionId}
    {l : Listener} (hin : (sub, l) ∈ t.listeners)
    (honly : ∀ sub', (sub', l) ∈ t.listeners → sub' = sub) : t.subscriptions l = 1 := by
  have hcount : t.subscriptions l = t.listeners.count (sub, l) := by
    refine List.countP_congr ?_
    rintro ⟨sub', l'⟩ hmem
    rw [beq_iff_eq, beq_iff_eq, Prod.mk.injEq]
    constructor
    · rintro rfl
      exact ⟨honly sub' hmem, rfl⟩
    · exact And.right
  rw [hcount]
  exact List.count_eq_one_of_mem h.distinct.of_map hin

theorem subscriptions_eq_zero {t : Trace} {l : Listener} :
    t.subscriptions l = 0 ↔ ∀ sub, (sub, l) ∉ t.listeners := by
  rw [subscriptions, List.countP_eq_zero]
  constructor
  · intro h sub hin
    exact h _ hin BEq.rfl
  · rintro h ⟨sub, l'⟩ hin heq
    rw [← beq_iff_eq.mp heq] at h
    exact h sub hin

/-- A recorder that comes to listen is no window. -/
theorem mem_listeners_subscribe_recorder {t : Trace} {k : RecorderId} {sub : SubscriptionId}
    {wid : WindowId} :
    (sub, Listener.window wid) ∈ (t.step (.subscribe (.recorder k))).1.listeners ↔
      (sub, Listener.window wid) ∈ t.listeners := by
  show _ ∈ t.listeners ++ [_] ↔ _
  rw [List.mem_append, List.mem_singleton]
  constructor
  · rintro (hold | hnew)
    · exact hold
    · cases hnew
  · exact .inl

end Trace

/-! ## 2. Windows that can be believed -/

theorem Contents.regionsAt_congr {c c' : Contents} (h : c'.regions = c.regions) (s : Snap) :
    c'.regionsAt s = c.regionsAt s := by
  rw [regionsAt, regionsAt, h]

/-- **What a window says of itself is true**: if it is clean its rows are the regions of the trace
that it shows, at the snap at which it shows it; if it shows nothing it is clean and has no rows;
and it is not left in the middle of a refresh. -/
structure Window.Reflects (w : Window) (d : Desk) : Prop where
  settled : w.freshness ≠ .refreshing
  blank : w.shown = none → w.rows = [] ∧ w.freshness = .clean
  present : ∀ s, w.shown = some s → ∃ t, d.trace? s.trace = some t
  rows : ∀ s t, w.shown = some s → d.trace? s.trace = some t → w.freshness = .clean →
    w.rows = (t.contents.regionsAt s.snap).map Row.ofRegion

namespace Window

variable {w : Window} {d d' : Desk}

/-- A window stays true as long as the trace that it shows keeps its regions. -/
theorem Reflects.mono (h : w.Reflects d)
    (hkept : ∀ k t, w.shows k = true → d.trace? k = some t →
      ∃ t', d'.trace? k = some t' ∧ t'.contents.regions = t.contents.regions) : w.Reflects d' where
  settled := h.settled
  blank := h.blank
  present s hs := by
    obtain ⟨t, ht⟩ := h.present s hs
    obtain ⟨t', ht', -⟩ := hkept s.trace t (shows_iff.mpr ⟨s, hs, rfl⟩) ht
    exact ⟨t', ht'⟩
  rows s t' hs ht' hclean := by
    obtain ⟨t, ht⟩ := h.present s hs
    obtain ⟨t'', ht'', hregions⟩ := hkept s.trace t (shows_iff.mpr ⟨s, hs, rfl⟩) ht
    obtain rfl : t' = t'' := Option.some.inj (ht'.symm.trans ht'')
    rw [Contents.regionsAt_congr hregions, h.rows s t hs ht hclean]

/-- It stays true where no trace is touched. -/
theorem Reflects.congr (h : w.Reflects d) (hsame : d'.traces = d.traces) : w.Reflects d' := by
  refine h.mono fun k t _ ht => ⟨t, ?_, rfl⟩
  rw [Desk.trace?, hsame]
  exact ht

/-- A window that shows nothing, without rows and clean, is true of every desk. -/
theorem reflects_of_blank (hshown : w.shown = none) (hrows : w.rows = [])
    (hclean : w.freshness = .clean) (d : Desk) : w.Reflects d where
  settled := by
    rw [hclean]
    exact Freshness.noConfusion
  blank _ := ⟨hrows, hclean⟩
  present s hs := by
    rw [hshown] at hs
    cases hs
  rows s t hs := by
    rw [hshown] at hs
    cases hs

/-- A window that owes a refresh promises nothing. -/
theorem reflects_of_pending {since : Nat} {s : Shown} {t : Trace}
    (hpending : w.freshness = .pending since) (hs : w.shown = some s)
    (ht : d.trace? s.trace = some t) : w.Reflects d where
  settled := by
    rw [hpending]
    exact Freshness.noConfusion
  blank hnone := by
    rw [hs] at hnone
    cases hnone
  present s' hs' := by
    obtain rfl : s = s' := Option.some.inj (hs.symm.trans hs')
    exact ⟨t, ht⟩
  rows s' t' _ _ hclean := by
    rw [hpending] at hclean
    cases hclean

/-- A window that has just been refreshed is true. -/
theorem reflects_refresh {s : Shown} {t : Trace} (hs : w.shown = some s)
    (ht : d.trace? s.trace = some t) : (w.refresh t.contents s.snap).1.Reflects d := by
  rw [refresh_eq]
  refine { settled := Freshness.noConfusion, blank := ?_, present := ?_, rows := ?_ }
  · intro hnone
    have hnone' : w.shown = none := hnone
    rw [hs] at hnone'
    cases hnone'
  · intro s' hs'
    obtain rfl : s = s' := Option.some.inj (hs.symm.trans hs')
    exact ⟨t, ht⟩
  · intro s' t' hs' ht' _
    obtain rfl : s = s' := Option.some.inj (hs.symm.trans hs')
    obtain rfl : t = t' := Option.some.inj (ht.symm.trans ht')
    rfl

/-- **A window that hears of what happened to a trace stays true**: if it shows the trace, it owes a
refresh or the regions are the same. -/
theorem Reflects.hear (h : w.Reflects d) {id : TraceId} {t t' : Trace} {changes : List Change}
    (ht : d.trace? id = some t)
    (htrace : ∀ k, d'.trace? k = if id = k then some t' else d.trace? k)
    (hkept : changes.any (·.touchesRegion) = false → t'.contents.regions = t.contents.regions)
    (now : Nat) : (w.hear id changes now).Reflects d' := by
  cases htouched : changes.any (·.touchesRegion) with
  | false =>
    rw [hear_of_untouched htouched]
    refine h.mono fun k q _ hq => ?_
    rw [htrace]
    split
    · next hk =>
      obtain rfl : t = q := Option.some.inj (ht.symm.trans (hk ▸ hq))
      exact ⟨t', rfl, hkept htouched⟩
    · exact ⟨q, hq, rfl⟩
  | true =>
    cases hshows : w.shows id with
    | false =>
      rw [hear_of_not_shows hshows]
      refine h.mono fun k q hk hq => ⟨q, ?_, rfl⟩
      have hne : ¬ id = k := by
        rintro rfl
        rw [hshows] at hk
        cases hk
      rw [htrace, if_neg hne]
      exact hq
    | true =>
      rw [hear_of_shows hshows htouched]
      obtain ⟨s, hs, hsid⟩ := shows_iff.mp hshows
      refine reflects_of_pending (t := t') rfl hs ?_
      rw [htrace, if_pos hsid.symm]

end Window

/-! ## 3. The invariant -/

namespace Desk

/-- **A desk in order**: traces and windows have numbers that were given out, the window
subscriptions of every trace are exactly those of the windows that show it, and every window can be
believed. -/
structure Orderly (d : Desk) : Prop where
  hosted : ∀ k t, d.trace? k = some t → t.Hosted k d.traceCount
  given : ∀ k w, d.window? k = some w → k.raw < d.windowCount
  tuned : ∀ k t sub wid, d.trace? k = some t →
    ((sub, .window wid) ∈ t.listeners ↔ d.tuned? wid = some (k, sub))
  reflects : ∀ wid w, d.window? wid = some w → w.Reflects d

theorem orderly_empty : Orderly .empty := by
  refine { hosted := ?_, given := ?_, tuned := ?_, reflects := ?_ }
  · intro k t ht
    cases ht
  · intro k w hw
    cases hw
  · intro k t sub wid ht
    cases ht
  · intro wid w hw
    cases hw

/-- Windows that show the same are tuned to the same. -/
theorem tuned?_congr {d d' : Desk} {id : WindowId}
    (h : (d'.window? id).bind (·.shown) = (d.window? id).bind (·.shown)) :
    d'.tuned? id = d.tuned? id := by
  rw [tuned?, tuned?, h]

/-- A window that is let show nothing is tuned to nothing. -/
theorem tuned?_deactivate (d : Desk) (id k : WindowId) :
    (d.deactivate id).tuned? k = if id = k then none else d.tuned? k := by
  rw [tuned?, window?_deactivate]
  split
  · cases d.window? k <;> rfl
  · rfl

namespace Orderly

variable {d : Desk}

theorem housed (h : d.Orderly) : d.Housed := fun k t ht => (h.hosted k t ht).own

/-- A trace that is shown is there. -/
theorem exists_of_tuned? (h : d.Orderly) {wid : WindowId} {k : TraceId} {sub : SubscriptionId}
    (htuned : d.tuned? wid = some (k, sub)) : ∃ t, d.trace? k = some t := by
  obtain ⟨w, s, hw, hs, rfl, -⟩ := tuned?_eq_some.mp htuned
  exact (h.reflects wid w hw).present s hs

/-- With the same traces all that matters is the windows: they are to show what they did, and to be
believed. -/
theorem withWindows (h : d.Orderly) {d' : Desk} (htraces : d'.traces = d.traces)
    (hcount : d'.traceCount = d.traceCount)
    (hgiven : ∀ k w, d'.window? k = some w → k.raw < d'.windowCount)
    (htuned : ∀ k, d'.tuned? k = d.tuned? k)
    (hreflects : ∀ k w, d'.window? k = some w → w.Reflects d) : d'.Orderly := by
  have htrace : ∀ k, d'.trace? k = d.trace? k := fun k => by rw [trace?, trace?, htraces]
  refine { hosted := ?_, given := hgiven, tuned := ?_, reflects := ?_ }
  · intro k t ht
    rw [hcount]
    exact h.hosted k t (htrace k ▸ ht)
  · intro k t sub wid ht
    rw [htuned]
    exact h.tuned k t sub wid (htrace k ▸ ht)
  · exact fun k w hw => (hreflects k w hw).congr htraces

/-- Recorders and the time have nothing to do with it. -/
theorem congr (h : d.Orderly) {d' : Desk} (htraces : d'.traces = d.traces)
    (hcount : d'.traceCount = d.traceCount) (hwindows : d'.windows = d.windows)
    (hcount' : d'.windowCount = d.windowCount) : d'.Orderly := by
  have hwindow : ∀ k, d'.window? k = d.window? k := fun k => by rw [window?, window?, hwindows]
  refine h.withWindows htraces hcount (fun k w hw => ?_) (fun k => ?_) (fun k w hw => ?_)
  · rw [hcount']
    exact h.given k w (hwindow k ▸ hw)
  · exact tuned?_congr (congrArg (·.bind (·.shown)) (hwindow k))
  · exact h.reflects k w (hwindow k ▸ hw)

/-! ### New traces and windows -/

theorem addTrace (h : d.Orderly) (name : String) (c : Contents) (limit : Nat) :
    (d.addTrace name c limit).1.Orderly := by
  have hfound : ∀ k, (d.addTrace name c limit).1.trace? k =
      if (⟨d.traceCount + 1⟩ : TraceId) = k
      then some (.ofContents ⟨d.traceCount + 1⟩ name c limit) else d.trace? k := fun k =>
    trace?_setTrace d (.ofContents ⟨d.traceCount + 1⟩ name c limit) k
  -- what is there already has a lower number
  have hnew : ∀ k t, d.trace? k = some t → (⟨d.traceCount + 1⟩ : TraceId) ≠ k := by
    intro k t ht heq
    have hle : k.raw ≤ d.traceCount := (h.hosted k t ht).given
    rw [← heq] at hle
    exact Nat.not_succ_le_self _ hle
  refine { hosted := ?_, given := h.given, tuned := ?_, reflects := ?_ }
  · intro k t ht
    rw [hfound] at ht
    split at ht
    · next hk =>
      cases ht
      refine ⟨hk, ?_, .start _ name c limit⟩
      rw [← hk]
      exact Nat.le_refl _
    · obtain ⟨hown, hgiven, hevolved⟩ := h.hosted k t ht
      exact ⟨hown, Nat.le_succ_of_le hgiven, hevolved⟩
  · intro k t sub wid ht
    show _ ↔ d.tuned? wid = some (k, sub)
    rw [hfound] at ht
    split at ht
    · next hk =>
      cases ht
      constructor
      · intro hin
        cases hin
      · intro htuned
        obtain ⟨t, ht⟩ := h.exists_of_tuned? htuned
        exact absurd hk (hnew k t ht)
    · exact h.tuned k t sub wid ht
  · intro wid w hw
    refine (h.reflects wid w hw).mono fun k t _ ht => ⟨t, ?_, rfl⟩
    rw [hfound, if_neg (hnew k t ht)]
    exact ht

/-- A window that comes to show the same, and can be believed. -/
theorem setWindow (h : d.Orderly) {id : WindowId} {w w' : Window} (hw : d.window? id = some w)
    (hshown : w'.shown.map (fun s => (s.trace, s.subscription)) =
      w.shown.map fun s => (s.trace, s.subscription))
    (hreflects : w'.Reflects d) : (d.setWindow id w').Orderly := by
  refine h.withWindows rfl rfl ?_ ?_ ?_
  · intro k q hq
    rw [window?_setWindow] at hq
    split at hq
    · next hk =>
      rw [← hk]
      exact h.given id w hw
    · exact h.given k q hq
  · intro k
    rw [tuned?, tuned?, window?_setWindow]
    split
    · next hk =>
      rw [← hk, hw]
      exact hshown
    · rfl
  · intro k q hq
    rw [window?_setWindow] at hq
    split at hq
    · cases hq
      exact hreflects
    · exact h.reflects k q hq

theorem addWindow (h : d.Orderly) (delay : Nat) : (d.addWindow delay).1.Orderly := by
  have hfound : ∀ k, (d.addWindow delay).1.window? k =
      if (⟨d.windowCount⟩ : WindowId) = k then some (.blank delay) else d.window? k := fun k =>
    window?_setWindow d ⟨d.windowCount⟩ (.blank delay) k
  have hnone : d.window? ⟨d.windowCount⟩ = none := by
    cases hw : d.window? ⟨d.windowCount⟩ with
    | none => rfl
    | some w => exact absurd (h.given _ w hw) (Nat.lt_irrefl _)
  refine h.withWindows rfl rfl ?_ ?_ ?_
  · intro k w hw
    show k.raw < d.windowCount + 1
    rw [hfound] at hw
    split at hw
    · next hk =>
      rw [← hk]
      exact Nat.lt_succ_self _
    · exact Nat.lt_succ_of_lt (h.given k w hw)
  · intro k
    rw [tuned?, tuned?, hfound]
    split
    · next hk =>
      rw [← hk, hnone]
      rfl
    · rfl
  · intro k w hw
    rw [hfound] at hw
    split at hw
    · cases hw
      exact Window.reflects_of_blank rfl rfl rfl d
    · exact h.reflects k w hw

/-- A window that shows nothing can go. -/
theorem eraseWindow (h : d.Orderly) {id : WindowId} (huntuned : d.tuned? id = none) :
    Orderly { d with windows := d.windows.erase id } := by
  have hfound := window?_eraseWindow d id
  refine h.withWindows rfl rfl ?_ ?_ ?_
  · intro k w hw
    rw [hfound] at hw
    split at hw
    · cases hw
    · exact h.given k w hw
  · intro k
    rw [tuned?, hfound]
    split
    · next hk =>
      rw [← hk, huntuned]
      rfl
    · rfl
  · intro k w hw
    rw [hfound] at hw
    split at hw
    · cases hw
    · exact h.reflects k w hw

/-! ### Steps of traces -/

/-- **Windows take note of what a trace is told to tell**, if it leaves their subscriptions as they
are: who is not subscribed does not show the trace, and so takes no note either. -/
theorem window?_stepTrace (h : d.Orderly) {id : TraceId} {s : Trace.Step} {t : Trace}
    (ht : d.trace? id = some t)
    (hwindows : ∀ sub wid, (sub, Listener.window wid) ∈ (t.step s).1.listeners ↔
      (sub, Listener.window wid) ∈ t.listeners) (k : WindowId) :
    (d.stepTrace id s).1.window? k = (d.window? k).map (·.hear id (t.step s).2.told d.clock) := by
  have htid : (t.step s).1.id = id := (t.id_step s).trans (h.housed id t ht)
  rw [Desk.stepTrace, window?_onTrace ht, htid]
  split
  · next hnone =>
    cases hw : d.window? k with
    | none => rfl
    | some w =>
      refine congrArg some (Window.hear_of_not_shows ?_ _ _).symm
      rw [← Bool.not_eq_true]
      intro hshows
      obtain ⟨q, hq, hqid⟩ := Window.shows_iff.mp hshows
      have htuned : d.tuned? k = some (id, q.subscription) :=
        tuned?_eq_some.mpr ⟨w, q, hw, hq, hqid, rfl⟩
      have hin := (h.tuned id t q.subscription k ht).mpr htuned
      exact Trace.subscriptions_eq_zero.mp hnone _ ((hwindows _ _).mpr hin)
  · rfl

/-- **Something that happens to a trace**, and leaves the window subscriptions as they are: windows
that show it owe a refresh, or their rows are right still. -/
theorem stepTrace (h : d.Orderly) (id : TraceId) {s : Trace.Step}
    (hwindows : ∀ t, d.trace? id = some t → ∀ sub wid,
      (sub, Listener.window wid) ∈ (t.step s).1.listeners ↔
        (sub, Listener.window wid) ∈ t.listeners) : (d.stepTrace id s).1.Orderly := by
  cases ht : d.trace? id with
  | none =>
    rw [Desk.stepTrace, onTrace_of_none ht]
    exact h
  | some t =>
    have htrace : ∀ k, (d.stepTrace id s).1.trace? k =
        if id = k then some (t.step s).1 else d.trace? k := by
      intro k
      rw [Desk.stepTrace, trace?_onTrace h.housed fun t => t.id_step s]
      split
      · next hk =>
        rw [← hk, ht]
        rfl
      · rfl
    have hwindow := h.window?_stepTrace ht (hwindows t ht)
    have htuned : ∀ k, (d.stepTrace id s).1.tuned? k = d.tuned? k := by
      intro k
      refine tuned?_congr ?_
      rw [hwindow]
      cases d.window? k with
      | none => rfl
      | some w => exact w.hear_shown _ _ _
    obtain ⟨htraceCount, hwindowCount⟩ := counts_onTrace d id (·.step s) Trace.Reply.told
    refine { hosted := ?_, given := ?_, tuned := ?_, reflects := ?_ }
    · intro k t' ht'
      rw [Desk.stepTrace, htraceCount]
      rw [htrace] at ht'
      split at ht'
      · next hk =>
        cases ht'
        exact hk ▸ (h.hosted id t ht).step s
      · exact h.hosted k t' ht'
    · intro k w' hw'
      rw [Desk.stepTrace, hwindowCount]
      rw [hwindow] at hw'
      obtain ⟨w, hw, -⟩ := Option.map_eq_some_iff.mp hw'
      exact h.given k w hw
    · intro k t' sub wid ht'
      rw [htuned]
      rw [htrace] at ht'
      split at ht'
      · next hk =>
        cases ht'
        rw [← hk, hwindows t ht]
        exact h.tuned id t sub wid ht
      · exact h.tuned k t' sub wid ht'
    · intro k w' hw'
      rw [hwindow] at hw'
      obtain ⟨w, hw, rfl⟩ := Option.map_eq_some_iff.mp hw'
      exact (h.reflects k w hw).hear ht htrace
        (fun huntouched => (h.hosted id t ht).evolved.regions_step huntouched) d.clock

/-! ### Steps of windows -/

/-- **What is left of a trace after a window was let show nothing**: the same trace without the
subscription of the window. -/
theorem of_trace?_deactivate (h : d.Orderly) {id : WindowId} {k : TraceId} {t' : Trace}
    (ht' : (d.deactivate id).trace? k = some t') :
    ∃ t, d.trace? k = some t ∧ t'.contents = t.contents ∧ t'.Hosted k d.traceCount ∧
      ∀ sub wid, (sub, Listener.window wid) ∈ t'.listeners ↔
        (sub, Listener.window wid) ∈ t.listeners ∧ wid ≠ id := by
  rw [trace?_deactivate h.housed] at ht'
  obtain ⟨t, ht, hsame⟩ := Option.map_eq_some_iff.mp ht'
  have hhosted : t.Hosted k d.traceCount := h.hosted k t ht
  -- of this trace the window has no subscription
  have hkept : (∀ sub, d.tuned? id ≠ some (k, sub)) → ∀ sub wid,
      (sub, Listener.window wid) ∈ t.listeners ↔
        (sub, Listener.window wid) ∈ t.listeners ∧ wid ≠ id := by
    intro hnot sub wid
    constructor
    · intro hin
      refine ⟨hin, ?_⟩
      rintro rfl
      exact hnot sub ((h.tuned k t sub wid ht).mp hin)
    · exact And.left
  cases hid : d.tuned? id with
  | none =>
    rw [hid] at hsame
    cases hsame
    refine ⟨t, ht, rfl, hhosted, hkept fun sub heq => ?_⟩
    rw [hid] at heq
    cases heq
  | some place =>
    obtain ⟨tid, sub₀⟩ := place
    rw [hid] at hsame
    dsimp only at hsame
    split at hsame
    · next hk =>
      subst hk
      cases hsame
      refine ⟨t, ht, rfl, hhosted.step (.unsubscribe sub₀), fun sub wid => ?_⟩
      show _ ∈ t.listeners.filter (·.1 != sub₀) ↔ _
      have hown : (sub₀, Listener.window id) ∈ t.listeners := (h.tuned tid t sub₀ id ht).mpr hid
      rw [List.mem_filter, bne_iff_ne]
      refine and_congr_right fun hin => not_congr ⟨?_, ?_⟩
      · -- numbers of subscriptions are distinct, so this is the window's
        rintro rfl
        have heq := List.inj_on_of_nodup_map hhosted.evolved.subscribed.distinct hin hown rfl
        cases heq
        rfl
      · rintro rfl
        have heq := ((h.tuned tid t sub wid ht).mp hin).symm.trans hid
        cases heq
        rfl
    · next hk =>
      cases hsame
      refine ⟨t, ht, rfl, hhosted, hkept fun sub heq => hk ?_⟩
      rw [hid] at heq
      cases heq
      rfl

/-- **A window that is let show nothing** gives up its subscription and no other. -/
theorem deactivate (h : d.Orderly) (id : WindowId) : (d.deactivate id).Orderly := by
  obtain ⟨htraceCount, hwindowCount⟩ := counts_deactivate d id
  refine { hosted := ?_, given := ?_, tuned := ?_, reflects := ?_ }
  · intro k t' ht'
    obtain ⟨t, -, -, hhosted, -⟩ := h.of_trace?_deactivate ht'
    rw [htraceCount]
    exact hhosted
  · intro k w' hw'
    rw [hwindowCount]
    rw [window?_deactivate] at hw'
    split at hw'
    · obtain ⟨w, hw, -⟩ := Option.map_eq_some_iff.mp hw'
      exact h.given k w hw
    · exact h.given k w' hw'
  · intro k t' sub wid ht'
    obtain ⟨t, ht, -, -, hlisteners⟩ := h.of_trace?_deactivate ht'
    rw [hlisteners, tuned?_deactivate, h.tuned k t sub wid ht]
    split
    · next hid =>
      constructor
      · rintro ⟨-, hne⟩
        exact absurd hid.symm hne
      · intro heq
        cases heq
    · next hid => exact ⟨And.left, fun heq => ⟨heq, Ne.symm hid⟩⟩
  · intro k w' hw'
    rw [window?_deactivate] at hw'
    split at hw'
    · obtain ⟨w, -, rfl⟩ := Option.map_eq_some_iff.mp hw'
      exact Window.reflects_of_blank rfl rfl rfl _
    · refine (h.reflects k w' hw').mono fun j t _ ht => ?_
      have hfound := trace?_deactivate h.housed id j
      rw [ht] at hfound
      obtain ⟨t₀, ht₀, hcontents, -⟩ := h.of_trace?_deactivate hfound
      obtain rfl : t = t₀ := Option.some.inj (ht.symm.trans ht₀)
      exact ⟨_, hfound, congrArg Contents.regions hcontents⟩

/-- **A window that shows nothing is let show a trace**: it gains one subscription, and shows what
is there. -/
theorem tune (h : d.Orderly) {id : WindowId} {w : Window} (hw : d.window? id = some w)
    (huntuned : d.tuned? id = none) {tid : TraceId} {t : Trace} (ht : d.trace? tid = some t)
    (snap : Snap) :
    let d' := (d.setTrace (t.subscribe (.window id)).1).setWindow id
      (w.display ⟨tid, snap, ⟨t.nextSubscription⟩⟩ t.contents)
    d'.Orderly := by
  intro d'
  have hhosted : (t.subscribe (.window id)).1.Hosted tid d.traceCount :=
    (h.hosted tid t ht).step (.subscribe (.window id))
  have htrace : ∀ k, d'.trace? k =
      if tid = k then some (t.subscribe (.window id)).1 else d.trace? k := by
    intro k
    show (d.setTrace (t.subscribe (.window id)).1).trace? k = _
    rw [trace?_setTrace, hhosted.own]
  have hwindow : ∀ k, d'.window? k =
      if id = k then some (w.display ⟨tid, snap, ⟨t.nextSubscription⟩⟩ t.contents)
      else d.window? k := fun k => window?_setWindow _ id _ k
  have htuned : ∀ k, d'.tuned? k =
      if id = k then some (tid, ⟨t.nextSubscription⟩) else d.tuned? k := by
    intro k
    rw [tuned?, hwindow, Window.display, Window.refresh_eq]
    split <;> rfl
  refine { hosted := ?_, given := ?_, tuned := ?_, reflects := ?_ }
  · intro k t' ht'
    rw [htrace] at ht'
    split at ht'
    · next hk =>
      cases ht'
      exact hk ▸ hhosted
    · exact h.hosted k t' ht'
  · intro k w' hw'
    rw [hwindow] at hw'
    split at hw'
    · next hk =>
      rw [← hk]
      exact h.given id w hw
    · exact h.given k w' hw'
  · intro k t' sub wid ht'
    rw [htuned]
    rw [htrace] at ht'
    split at ht'
    · next hk =>
      cases ht'
      show _ ∈ t.listeners ++ [_] ↔ _
      rw [List.mem_append, List.mem_singleton, h.tuned tid t sub wid ht, ← hk]
      split
      · next hid =>
        rw [← hid, huntuned]
        constructor
        · rintro (hold | hnew)
          · cases hold
          · cases hnew
            rfl
        · intro heq
          cases heq
          exact .inr rfl
      · next hid =>
        constructor
        · rintro (hold | hnew)
          · exact hold
          · cases hnew
            exact absurd rfl hid
        · exact .inl
    · next hk =>
      rw [h.tuned k t' sub wid ht']
      split
      · next hid =>
        rw [← hid, huntuned]
        constructor
        · intro heq
          cases heq
        · intro heq
          cases heq
          exact absurd rfl hk
      · exact Iff.rfl
  · intro k w' hw'
    rw [hwindow] at hw'
    split at hw'
    · cases hw'
      -- the trace is another one now, but its contents are the same
      refine Window.reflects_refresh (w := w.turnTo (some ⟨tid, snap, ⟨t.nextSubscription⟩⟩))
        (t := (t.subscribe (.window id)).1) rfl ?_
      rw [htrace]
      exact if_pos rfl
    · refine (h.reflects k w' hw').mono fun j t₀ _ ht₀ => ?_
      rw [htrace]
      split
      · next hj =>
        obtain rfl : t = t₀ := Option.some.inj (ht.symm.trans (hj ▸ ht₀))
        exact ⟨_, rfl, rfl⟩
      · exact ⟨t₀, ht₀, rfl⟩

theorem activate (h : d.Orderly) (id : WindowId) (tid : TraceId) (snap : Snap) :
    (d.activate id tid snap).Orderly := by
  have hblank : (d.deactivate id).Orderly := h.deactivate id
  unfold Desk.activate
  dsimp only
  cases hw : (d.deactivate id).window? id with
  | none => exact hblank
  | some w =>
    have huntuned : (d.deactivate id).tuned? id = none := by
      rw [tuned?_deactivate, if_pos rfl]
    cases ht : (d.deactivate id).trace? tid with
    | none =>
      rw [onTrace_of_none ht]
      exact hblank
    | some t =>
      rw [onTrace_of_some ht]
      exact hblank.tune hw huntuned ht snap

/-- A window that shows a trace is refreshed from the contents in force. -/
theorem refresh_of_shown {id : WindowId} {w : Window} {s : Shown} {t : Trace}
    (hw : d.window? id = some w) (hs : w.shown = some s) (ht : d.trace? s.trace = some t) :
    d.refresh id = (d.setWindow id (w.refresh t.contents s.snap).1, true) := by
  unfold Desk.refresh
  rw [hw]
  dsimp only
  rw [hs]
  dsimp only
  rw [ht]
  dsimp only
  rw [Window.refresh_eq]

/-- A window that is refreshed reflects what it shows. -/
theorem refresh (h : d.Orderly) (id : WindowId) : (d.refresh id).1.Orderly := by
  unfold Desk.refresh
  cases hw : d.window? id with
  | none => exact h
  | some w =>
    dsimp only
    cases hs : w.shown with
    | none =>
      obtain ⟨hrows, -⟩ := (h.reflects id w hw).blank hs
      refine h.setWindow hw ?_ (Window.reflects_of_blank
        (w := { w with shown := none, freshness := .clean }) rfl hrows rfl d)
      rw [hs]
    | some s =>
      dsimp only
      cases ht : d.trace? s.trace with
      | none => exact h
      | some t =>
        refine h.setWindow hw ?_ (Window.reflects_refresh hs ht)
        rw [Window.refresh_eq]

/-- A window that is moved to another snap of what it shows is refreshed too: that it is put back in
between makes no difference. -/
theorem setSnap_of_shown {id : WindowId} {w : Window} {s : Shown} {t : Trace} {snap : Snap}
    (hw : d.window? id = some w) (hs : w.shown = some s) (ht : d.trace? s.trace = some t)
    (hne : s.snap ≠ snap) :
    d.setSnap id snap =
      d.setWindow id ((w.turnTo (some { s with snap := snap })).refresh t.contents snap).1 := by
  have hfound : (d.setWindow id (w.turnTo (some { s with snap := snap }))).window? id =
      some (w.turnTo (some { s with snap := snap })) := by
    rw [window?_setWindow, if_pos rfl]
  unfold Desk.setSnap
  rw [hw]
  dsimp only
  rw [hs]
  dsimp only
  rw [if_neg hne, refresh_of_shown hfound rfl ht, setWindow_setWindow]

/-- So it reflects what it shows. -/
theorem setSnap (h : d.Orderly) (id : WindowId) (snap : Snap) : (d.setSnap id snap).Orderly := by
  cases hw : d.window? id with
  | none =>
    rw [Desk.setSnap, hw]
    exact h
  | some w =>
    cases hs : w.shown with
    | none =>
      simp only [Desk.setSnap, hw, hs]
      exact h
    | some s =>
      by_cases hsame : s.snap = snap
      · simp only [Desk.setSnap, hw, hs, hsame, ↓reduceIte]
        exact h
      · obtain ⟨t, ht⟩ := (h.reflects id w hw).present s hs
        rw [setSnap_of_shown hw hs ht hsame]
        refine h.setWindow hw ?_ (Window.reflects_refresh (s := { s with snap := snap }) rfl ht)
        rw [Window.refresh_eq, hs]
        rfl

theorem dropWindow (h : d.Orderly) (id : WindowId) : (d.dropWindow id).Orderly := by
  refine (h.deactivate id).eraseWindow ?_
  rw [tuned?_deactivate, if_pos rfl]

theorem addRecorder (h : d.Orderly) (tid : TraceId) (snap : Snap) :
    (d.addRecorder tid snap).1.Orderly := by
  -- to add a recorder is to subscribe it, as far as windows can tell
  have hstep : (d.onTrace tid (·.subscribe (.recorder ⟨d.recorderCount⟩)) fun _ => []).1 =
      (d.stepTrace tid (.subscribe (.recorder ⟨d.recorderCount⟩))).1 := by
    cases ht : d.trace? tid with
    | none => rw [Desk.stepTrace, onTrace_of_none ht, onTrace_of_none ht]
    | some t =>
      rw [Desk.stepTrace, onTrace_of_some ht, onTrace_of_some ht]
      rfl
  have hsubscribed : (d.onTrace tid (·.subscribe (.recorder ⟨d.recorderCount⟩))
      fun _ => []).1.Orderly := by
    rw [hstep]
    exact h.stepTrace tid fun _ _ _ _ => Trace.mem_listeners_subscribe_recorder
  unfold Desk.addRecorder
  dsimp only
  split
  · next heq =>
    rw [heq] at hsubscribed
    exact hsubscribed
  · next heq =>
    rw [heq] at hsubscribed
    exact hsubscribed.congr rfl rfl rfl rfl

end Orderly

/-! ### Every step -/

/-- No window of the desk listens to a trace by that subscription. -/
def NoWindows (d : Desk) (id : TraceId) (sub : SubscriptionId) : Prop :=
  ∀ t, d.trace? id = some t → ∀ wid, (sub, Listener.window wid) ∉ t.listeners

/-- **A step that spares the subscriptions of windows.**  A subscription is known by its number
alone, so whoever unsubscribes one by its number may take a window's. -/
def Spares (d : Desk) : Step → Prop
  | .trace _ (.subscribe (.window _)) => False
  | .trace id (.unsubscribe sub) => d.NoWindows id sub
  | .silence id k => ∀ r, d.recorders.find? k = some r → d.NoWindows id r.subscription
  | _ => True

/-- **Steps that leave the subscriptions of windows to the windows**, on every desk. -/
def Step.isOrderly : Step → Bool
  | .trace _ (.subscribe (.window _)) => false
  | .trace _ (.unsubscribe _) => false
  | .silence _ _ => false
  | _ => true

theorem spares_of_isOrderly {s : Step} (hs : s.isOrderly = true) (d : Desk) : d.Spares s := by
  unfold Step.isOrderly at hs
  split at hs
  · cases hs
  · cases hs
  · cases hs
  · next hsubscribe hunsubscribe hsilence =>
    unfold Spares
    split
    · exact hsubscribe _ _ rfl
    · exact absurd rfl (hunsubscribe _ _)
    · exact absurd rfl (hsilence _ _)
    · trivial

namespace Orderly

variable {d : Desk}

/-- **What a trace does leaves the subscriptions of windows as they are**, if it spares them. -/
theorem mem_listeners_step {id : TraceId} {s : Trace.Step} (hs : d.Spares (.trace id s))
    {t : Trace} (ht : d.trace? id = some t) (sub : SubscriptionId) (wid : WindowId) :
    (sub, Listener.window wid) ∈ (t.step s).1.listeners ↔
      (sub, Listener.window wid) ∈ t.listeners := by
  cases s with
  | subscribe l =>
    cases l with
    | recorder k => exact Trace.mem_listeners_subscribe_recorder
    | window k => exact hs.elim
  | unsubscribe sub' =>
    show _ ∈ t.listeners.filter (·.1 != sub') ↔ _
    rw [List.mem_filter, bne_iff_ne, and_iff_left_iff_imp]
    rintro hin rfl
    exact hs t ht wid hin
  | _ =>
    rw [(Trace.listeners_step (fun _ => Trace.Step.noConfusion) fun _ =>
      Trace.Step.noConfusion).1]

/-- To silence a recorder is to unsubscribe its number, as far as that is spared. -/
theorem spares_silence {id : TraceId} {k : RecorderId} {r : Recorder}
    (hs : d.Spares (.silence id k)) (hr : d.recorders.find? k = some r) :
    d.Spares (.trace id (.unsubscribe r.subscription)) := hs r hr

theorem step_of_spares (h : d.Orderly) {s : Step} (hs : d.Spares s) : (d.step s).Orderly := by
  cases s with
  | addTrace name contents limit => exact h.addTrace name contents limit
  | trace id s => exact h.stepTrace id fun t ht => mem_listeners_step hs ht
  | addWindow delay => exact h.addWindow delay
  | activate id trace snap => exact h.activate id trace snap
  | setSnap id snap => exact h.setSnap id snap
  | deactivate id => exact h.deactivate id
  | traceClosed id trace =>
    show (d.traceClosed id trace).Orderly
    unfold traceClosed
    split
    · exact h
    · split
      · exact h.deactivate id
      · exact h
  | flush id =>
    show (d.flush id).1.Orderly
    unfold flush
    split
    · exact h
    · split
      · exact h.refresh id
      · exact h
  | tick id now =>
    show (d.tick id now).1.Orderly
    unfold tick
    split
    · exact h
    · split
      · exact h.refresh id
      · exact h
  | dropWindow id => exact h.dropWindow id
  | addRecorder trace snap => exact h.addRecorder trace snap
  | silence id k =>
    show (d.silence id k).Orderly
    unfold silence
    split
    · exact h
    · next r hr => exact h.stepTrace id fun t ht => mem_listeners_step (spares_silence hs hr) ht
  | takeBatches id =>
    show (d.takeBatches id).1.Orderly
    unfold takeBatches
    split
    · exact h
    · exact h.congr rfl rfl rfl rfl
  | wait milliseconds => exact h.congr rfl rfl rfl rfl

theorem step (h : d.Orderly) {s : Step} (hs : s.isOrderly = true) : (d.step s).Orderly :=
  h.step_of_spares (spares_of_isOrderly hs d)

end Orderly

/-! ### Along a run -/

/-- A run that spares the subscriptions of windows, at each step as the desk is then. -/
def SparesAlong (d : Desk) (steps : List Step) : Prop :=
  ∀ before s after, steps = before ++ s :: after → (d.run before).Spares s

section Along

variable {d : Desk} {steps xs ys : List Step} {s : Step}

theorem run_concat (d : Desk) (steps : List Step) (s : Step) :
    d.run (steps ++ [s]) = (d.run steps).step s := List.foldl_concat ..

theorem run_append (d : Desk) (xs ys : List Step) : d.run (xs ++ ys) = (d.run xs).run ys :=
  List.foldl_append

/-- **A run spares them exactly if its two parts do**, the second from where the first leads. -/
theorem sparesAlong_append_iff :
    d.SparesAlong (xs ++ ys) ↔ d.SparesAlong xs ∧ (d.run xs).SparesAlong ys := by
  constructor
  · intro h
    refine ⟨fun before s after heq => h before s (after ++ ys) ?_, fun before s after heq => ?_⟩
    · rw [heq, List.append_assoc]
      rfl
    · rw [← run_append]
      refine h (xs ++ before) s after ?_
      rw [heq, List.append_assoc]
  · rintro ⟨hxs, hys⟩ before s after heq
    -- the step is one of the second part, or one of the first
    rcases List.append_eq_append_iff.mp heq with ⟨more, rfl, htail⟩ | ⟨more, hhead, htail⟩
    · rw [run_append]
      exact hys more s after htail
    · cases more with
      | nil =>
        rw [List.append_nil] at hhead
        rw [← hhead]
        exact hys [] s after htail.symm
      | cons s' more =>
        cases htail
        exact hxs before s more hhead

theorem sparesAlong_singleton_iff : d.SparesAlong [s] ↔ d.Spares s := by
  constructor
  · intro h
    exact h [] s [] rfl
  · intro hs before s' after heq
    cases before with
    | nil =>
      cases heq
      exact hs
    | cons first before =>
      obtain ⟨-, hrest⟩ := List.cons.inj heq
      exact absurd hrest.symm (List.append_ne_nil_of_right_ne_nil _ (List.cons_ne_nil _ _))

theorem sparesAlong_cons_iff :
    d.SparesAlong (s :: steps) ↔ d.Spares s ∧ (d.step s).SparesAlong steps := by
  have happend : d.SparesAlong ([s] ++ steps) ↔
      d.SparesAlong [s] ∧ (d.run [s]).SparesAlong steps := sparesAlong_append_iff
  rw [sparesAlong_singleton_iff] at happend
  exact happend

theorem sparesAlong_concat_iff :
    d.SparesAlong (steps ++ [s]) ↔ d.SparesAlong steps ∧ (d.run steps).Spares s := by
  rw [sparesAlong_append_iff, sparesAlong_singleton_iff]

/-- Runs of steps that leave the subscriptions of windows to the windows on every desk. -/
theorem sparesAlong_of_isOrderly (hsteps : ∀ s ∈ steps, s.isOrderly = true) :
    d.SparesAlong steps := by
  rintro before s after rfl
  exact spares_of_isOrderly (hsteps s (List.mem_append_right before List.mem_cons_self)) _

/-- **Desks stay in order.** -/
theorem SparesAlong.orderly (h : d.SparesAlong steps) (hd : d.Orderly) : (d.run steps).Orderly := by
  induction steps generalizing d with
  | nil => exact hd
  | cons s rest ih =>
    obtain ⟨hs, hrest⟩ := sparesAlong_cons_iff.mp h
    exact ih hrest (hd.step_of_spares hs)

end Along

/-- **A window is subscribed once to the trace that it shows**, and to no other. -/
theorem Orderly.subscriptions {d : Desk} (h : d.Orderly) {wid : WindowId} {k : TraceId} {t : Trace}
    (ht : d.trace? k = some t) :
    t.subscriptions (.window wid) = if (d.tuned? wid).map (·.1) = some k then 1 else 0 := by
  split
  · next htuned =>
    obtain ⟨⟨tid, sub⟩, hplace, hk⟩ := Option.map_eq_some_iff.mp htuned
    have hplace' : d.tuned? wid = some (k, sub) := by
      rw [hplace, ← hk]
    refine (h.hosted k t ht).evolved.subscribed.subscriptions_eq_one
      ((h.tuned k t sub wid ht).mpr hplace') fun sub' hin => ?_
    have heq := ((h.tuned k t sub' wid ht).mp hin).symm.trans hplace'
    cases heq
    rfl
  · next htuned =>
    refine Trace.subscriptions_eq_zero.mpr fun sub hin => htuned ?_
    rw [(h.tuned k t sub wid ht).mp hin]
    rfl

end Desk

/-! ## 4. What a window shows -/

/-- The rows that share an address with one of the ranges are those of the regions that do. -/
theorem Window.rowsIntersecting_of_rows {w : Window} {c : Contents} {s : Snap}
    (h : w.rows = (c.regionsAt s).map Row.ofRegion) (ranges : List AddressRange) :
    (w.rowsIntersecting ranges).map (·.region) = (c.regionsIntersecting s ranges).map (·.id) := by
  rw [rowsIntersecting, h, List.filter_map, List.map_map]
  rfl

/-- **A window is never stale while it says it is clean.**  After every run that leaves the
subscriptions of windows to the windows, over any number of traces and windows, and whatever
recorders listen and are silenced besides: a window that is clean has the rows of the regions that
its trace has at its snap, also where it is asked for ranges; one that shows nothing is clean and
empty; none is left in a refresh; and a window is subscribed once to the trace that it shows and to
no other. -/
theorem windows_never_stale (steps : List Desk.Step) (hspared : Desk.empty.SparesAlong steps) :
    let d := Desk.empty.run steps
    ∀ wid w, d.window? wid = some w →
      w.freshness ≠ .refreshing ∧
      (w.shown = none → w.rows = [] ∧ w.freshness = .clean ∧
        ∀ k t, d.trace? k = some t → t.subscriptions (.window wid) = 0) ∧
      ∀ s, w.shown = some s →
        (∃ t, d.trace? s.trace = some t ∧ t.subscriptions (.window wid) = 1 ∧
          (w.freshness = .clean →
            w.rows = (t.contents.regionsAt s.snap).map Row.ofRegion ∧
            ∀ ranges, (w.rowsIntersecting ranges).map (·.region) =
              (t.contents.regionsIntersecting s.snap ranges).map (·.id))) ∧
        ∀ k t, d.trace? k = some t → k ≠ s.trace → t.subscriptions (.window wid) = 0 := by
  intro d wid w hw
  have h : d.Orderly := hspared.orderly Desk.orderly_empty
  have hreflects : w.Reflects d := h.reflects wid w hw
  have htuned : (d.tuned? wid).map (·.1) = w.shown.map (·.trace) := by
    rw [Desk.tuned?, hw, Option.map_map]
    rfl
  refine ⟨hreflects.settled, fun hnone => ?_, fun s hs => ⟨?_, fun k t ht hne => ?_⟩⟩
  · obtain ⟨hrows, hclean⟩ := hreflects.blank hnone
    refine ⟨hrows, hclean, fun k t ht => ?_⟩
    rw [h.subscriptions ht, htuned, hnone]
    exact if_neg (Option.some_ne_none k).symm
  · obtain ⟨t, ht⟩ := hreflects.present s hs
    refine ⟨t, ht, ?_, fun hclean => ?_⟩
    · rw [h.subscriptions ht, htuned, hs]
      exact if_pos rfl
    · have hrows := hreflects.rows s t hs ht hclean
      exact ⟨hrows, Window.rowsIntersecting_of_rows hrows⟩
  · rw [h.subscriptions ht, htuned, hs]
    exact if_neg fun heq => hne (Option.some.inj heq).symm

/-- A window that is taken from one trace to another and back while both change and a recorder
listens to the first, catches up with one commit, and is moved. -/
def tourSteps : List Desk.Step :=
  [.addTrace "left" .empty 50, .addTrace "right" .empty 50, .addWindow 20,
   .activate ⟨0⟩ ⟨1⟩ 0, .addRecorder ⟨1⟩ 0, .trace ⟨1⟩ (.begin "map"),
   .trace ⟨1⟩ (.edit ⟨0⟩
     (.createRegion "text" ⟨0x13000, 0x13fff, by decide⟩ 2 ⟨true, false, true⟩)),
   .activate ⟨0⟩ ⟨2⟩ 0, .trace ⟨1⟩ (.commit ⟨0⟩), .activate ⟨0⟩ ⟨1⟩ 0,
   .trace ⟨1⟩ .undo, .trace ⟨1⟩ .redo, .tick ⟨0⟩ 20, .setSnap ⟨0⟩ 2]

/-- The recorder is silenced, and the window is left with a commit of a mapping that makes no
difference to it. -/
def restSteps : List Desk.Step :=
  [.silence ⟨1⟩ ⟨0⟩, .trace ⟨1⟩ (.begin "place"),
   .trace ⟨1⟩ (.edit ⟨1⟩ (.addMapping ⟨0x13000, 0x13fff, by decide⟩ (.since 2) "echo" ⟨"ram", 0⟩)),
   .trace ⟨1⟩ (.commit ⟨1⟩)]

/-- The number of the recorder's subscription is not that of the window's, which was made anew. -/
theorem sparesAlong_tour : Desk.empty.SparesAlong (tourSteps ++ restSteps) := by
  have hrecorder : ((Desk.empty.run tourSteps).recorders.find? ⟨0⟩).map (·.subscription) =
      some ⟨1⟩ := by decide
  have hlisteners : ((Desk.empty.run tourSteps).trace? ⟨1⟩).map (·.listeners) =
      some [(⟨1⟩, .recorder ⟨0⟩), (⟨2⟩, .window ⟨0⟩)] := by decide
  have hsilence : (Desk.empty.run tourSteps).Spares (.silence ⟨1⟩ ⟨0⟩) := by
    intro r hr t ht wid hin
    rw [hr] at hrecorder
    rw [ht] at hlisteners
    have hnumber : r.subscription = ⟨1⟩ := Option.some.inj hrecorder
    have hall : t.listeners = [(⟨1⟩, .recorder ⟨0⟩), (⟨2⟩, .window ⟨0⟩)] :=
      Option.some.inj hlisteners
    rw [hnumber, hall] at hin
    simp at hin
  refine Desk.sparesAlong_append_iff.mpr ⟨Desk.sparesAlong_of_isOrderly (by decide), ?_⟩
  exact Desk.sparesAlong_cons_iff.mpr ⟨hsilence, Desk.sparesAlong_of_isOrderly (by decide)⟩

/-- In the end it is clean and subscribed where it came to rest, while the recorder is not. -/
theorem tour_not_stale :
    let d := Desk.empty.run (tourSteps ++ restSteps)
    ∃ w left right, d.window? ⟨0⟩ = some w ∧ d.trace? ⟨1⟩ = some left ∧ d.trace? ⟨2⟩ = some right ∧
      w.freshness = .clean ∧ left.contents.mappings.keys = [⟨0⟩] ∧
      w.rows = (left.contents.regionsAt 2).map Row.ofRegion ∧
      left.subscriptions (.window ⟨0⟩) = 1 ∧ right.subscriptions (.window ⟨0⟩) = 0 ∧
      left.subscriptions (.recorder ⟨0⟩) = 0 := by
  intro d
  have hwindow : (d.window? ⟨0⟩).map (fun w => (w.freshness, w.shown)) =
      some (.clean, some ⟨⟨1⟩, 2, ⟨2⟩⟩) := by decide
  have hright : (d.trace? ⟨2⟩).isSome = true := by decide
  have hmappings : (d.trace? ⟨1⟩).map (·.contents.mappings.keys) = some [⟨0⟩] := by decide
  have hsilent : (d.trace? ⟨1⟩).map (·.subscriptions (.recorder ⟨0⟩)) = some 0 := by decide
  obtain ⟨w, hw, hparts⟩ := Option.map_eq_some_iff.mp hwindow
  obtain ⟨right, hr⟩ := Option.isSome_iff_exists.mp hright
  obtain ⟨hclean, hshown⟩ := Prod.mk.inj hparts
  obtain ⟨-, -, hshows⟩ := windows_never_stale _ sparesAlong_tour ⟨0⟩ w hw
  obtain ⟨⟨left, hl, honce, hrows⟩, helsewhere⟩ := hshows _ hshown
  rw [hl] at hmappings hsilent
  exact ⟨w, left, right, hw, hl, hr, hclean, Option.some.inj hmappings, (hrows hclean).1, honce,
    helsewhere ⟨2⟩ right hr (by decide), Option.some.inj hsilent⟩

end RegionAtlas
